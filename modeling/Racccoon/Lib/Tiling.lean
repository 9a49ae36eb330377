import Mathlib.Data.List.Basic

/-!
Records of different sizes laid end to end and addressed by the offset at which
they start. `recordAt` reads the record at an offset, `modifyAt` edits it in
place and `locate` is the walk from the front that stops at the first record
with a property. Every size is positive, so that an offset names one record.
-/

namespace Racccoon.Tiling

universe u
variable {Record : Type u} (size : Record → Nat)

def recordAt : List Record → Nat → Option Record
  | [], _ => none
  | first :: rest, offset =>
    if offset = 0 then some first
    else if offset < size first then none
    else recordAt rest (offset - size first)

def modifyAt (edit : Record → Record) : List Record → Nat → List Record
  | [], _ => []
  | first :: rest, offset =>
    if offset = 0 then edit first :: rest
    else if offset < size first then first :: rest
    else first :: modifyAt edit rest (offset - size first)

def locate (wanted : Record → Bool) : List Record → Option (Nat × Record)
  | [] => none
  | first :: rest =>
    if wanted first then some (0, first)
    else (locate wanted rest).map fun found => (size first + found.1, found.2)

variable {size} {records : List Record} {record : Record} {offset other : Nat}
variable {edit : Record → Record} {wanted : Record → Bool}

theorem recordAt_mem (found : recordAt size records offset = some record) : record ∈ records := by
  induction records generalizing offset with
  | nil => cases found
  | cons first rest ih =>
    simp only [recordAt] at found
    split at found
    · cases found
      exact List.mem_cons_self
    · split at found
      · cases found
      · exact List.mem_cons_of_mem first (ih found)

theorem exists_recordAt (positive : ∀ record : Record, 0 < size record)
    (member : record ∈ records) : ∃ offset, recordAt size records offset = some record := by
  induction records with
  | nil => cases member
  | cons first rest ih =>
    rcases List.mem_cons.mp member with rfl | later
    · exact ⟨0, by simp [recordAt]⟩
    · obtain ⟨offset, found⟩ := ih later
      have start := positive first
      have past : size first + offset ≠ 0 := by omega
      have beyond : ¬ size first + offset < size first := by omega
      exact ⟨size first + offset, by
        simpa only [recordAt, past, beyond, ↓reduceIte, Nat.add_sub_cancel_left] using found⟩

theorem recordAt_modifyAt_self :
    recordAt size (modifyAt size edit records offset) offset =
      (recordAt size records offset).map edit := by
  induction records generalizing offset with
  | nil => rfl
  | cons first rest ih =>
    by_cases front : offset = 0
    · simp [modifyAt, recordAt, front]
    · by_cases inside : offset < size first
      · simp [modifyAt, recordAt, front, inside]
      · simp [modifyAt, recordAt, front, inside, ih]

theorem recordAt_modifyAt_of_ne (same : ∀ record, size (edit record) = size record)
    (apart : other ≠ offset) :
    recordAt size (modifyAt size edit records offset) other = recordAt size records other := by
  induction records generalizing offset other with
  | nil => rfl
  | cons first rest ih =>
    by_cases front : offset = 0
    · have later : other ≠ 0 := by omega
      simp [modifyAt, recordAt, front, later, same]
    · by_cases inside : offset < size first
      · simp [modifyAt, front, inside]
      · by_cases begins : other = 0
        · simp [modifyAt, recordAt, front, inside, begins]
        · by_cases within : other < size first
          · simp [modifyAt, recordAt, front, inside, within]
          · simp only [modifyAt, recordAt, front, inside, begins, within, ↓reduceIte]
            -- both offsets lie past the first record, where the tails agree
            apply ih
            omega

theorem locate_wanted {found : Nat × Record} (located : locate size wanted records = some found) :
    wanted found.2 = true := by
  induction records generalizing found with
  | nil => cases located
  | cons first rest ih =>
    simp only [locate] at located
    split at located
    · next hit =>
        cases located
        exact hit
    · obtain ⟨later, deeper, rfl⟩ := Option.map_eq_some_iff.mp located
      have hit : wanted later.2 = true := ih deeper
      exact hit

theorem recordAt_locate (positive : ∀ record : Record, 0 < size record)
    {found : Nat × Record} (located : locate size wanted records = some found) :
    recordAt size records found.1 = some found.2 := by
  induction records generalizing found with
  | nil => cases located
  | cons first rest ih =>
    simp only [locate] at located
    split at located
    · cases located
      rfl
    · obtain ⟨later, deeper, rfl⟩ := Option.map_eq_some_iff.mp located
      have start := positive first
      have past : size first + later.1 ≠ 0 := by omega
      have beyond : ¬ size first + later.1 < size first := by omega
      simp only [recordAt, past, beyond, Nat.add_sub_cancel_left]
      have tail : recordAt size rest later.1 = some later.2 := ih deeper
      exact tail

theorem locate_record : (locate size wanted records).map Prod.snd = records.find? wanted := by
  induction records with
  | nil => rfl
  | cons first rest ih =>
    by_cases hit : wanted first = true
    · simp [locate, hit]
    · simp only [locate, hit, Bool.false_eq_true, ↓reduceIte, List.find?_cons_of_neg,
        not_false_eq_true, ← ih, Option.map_map]
      rfl

end Racccoon.Tiling
