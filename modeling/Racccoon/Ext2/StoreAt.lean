import Mathlib.Algebra.GroupWithZero.Nat
import Racccoon.Ext2.Volume
import Racccoon.Lib.Splices

/-!
The writing loop of `ext2_write_file_at` on a disk that fails. A block goes to the disk sector by
sector, so a write that fails may have left some of them there. The loop counts its place in a
`uint`. `Lands` says which bytes of the request reach the file, and where.
-/

namespace Racccoon.Ext2.Append

open Splices

/-- `SECTOR_SIZE`. -/
def diskSector : Nat := 512

/-- What comes of a block of the file: it cannot be had or read, or takes no writes; or the
write fails with the sectors `landed` on the disk, and the others of a block that has just been
allocated show what was there; or it is written. -/
inductive Fate where
  | missing
  | torn (landed : Nat → Bool) (stale : Nat → Option UInt8)
  | stored

def Fate.isStored : Fate → Bool
  | .stored => true
  | _ => false

/-- The block of `pos` after a write of it that failed. -/
def tear (size : Nat) (landed : Nat → Bool) (stale : Nat → Option UInt8) (pos : Nat)
    (chunk content : List UInt8) : List UInt8 :=
  content.mapIdx fun place byte =>
    if place / size ≠ pos / size then byte
    else if landed (place % size / diskSector) then
      if pos ≤ place then chunk.getD (place - pos) byte else byte
    else (stale (place % size)).getD byte

/-- The loop of `ext2_write_file_at`: the bytes of the file, and what is left of `src`. -/
def storeBlocks (size : Nat) (fate : Nat → Fate) :
    Nat → Nat → List UInt8 → List UInt8 → List UInt8 × List UInt8
  | 0, _, src, content => (content, src)
  | fuel + 1, pos, src, content =>
    if src = [] ∨ ext2MaxOffset size ≤ pos then (content, src)
    else
      let chunk := src.take (size - pos % size)
      match fate (pos / size) with
      | .missing => (content, src)
      | .torn landed stale => (tear size landed stale pos chunk content, src)
      | .stored =>
        storeBlocks size fate fuel ((pos + chunk.length) % 2 ^ 32) (src.drop (size - pos % size))
          (splice content pos chunk)

/-- How many of the `left` bytes from `pos` on come before a block that is not written. -/
def reach (size : Nat) (fate : Nat → Fate) : Nat → Nat → Nat
  | 0, _ => 0
  | left + 1, pos =>
    if (fate (pos / size)).isStored then reach size fate left ((pos + 1) % 2 ^ 32) + 1 else 0

/-- The byte `new` reaches the disk at `place`. -/
def Lands (size : Nat) (fate : Nat → Fate) (place : Nat) (new : UInt8) : List UInt8 → Nat → Prop
  | [], _ => False
  | byte :: rest, pos =>
    match fate (pos / size) with
    | .missing => False
    | .torn landed stale =>
      place / size = pos / size ∧
        if landed (place % size / diskSector) then
          pos ≤ place ∧ (byte :: rest)[place - pos]? = some new
        else stale (place % size) = some new
    | .stored =>
      place = pos ∧ new = byte ∨ Lands size fate place new rest ((pos + 1) % 2 ^ 32)

/-- The block sizes that `ext2_mount` takes. -/
def Mounted (size : Nat) : Prop := size = 1024 ∨ size = 2048 ∨ size = 4096

instance (size : Nat) : Decidable (Mounted size) := inferInstanceAs (Decidable (_ ∨ _ ∨ _))

variable {size : Nat} {fate : Nat → Fate} {pos left fuel place : Nat} {src content rest : List UInt8}
variable {new : UInt8}

/-- 2 ^ 32 - 1, as triple indirection reaches further with any block size. -/
theorem maxOffset_eq (mounted : Mounted size) : ext2MaxOffset size = 0xFFFFFFFF := by
  rcases mounted with rfl | rfl | rfl <;> decide

theorem reach_le (size : Nat) (fate : Nat → Fate) (left pos : Nat) :
    reach size fate left pos ≤ left := by
  induction left generalizing pos with
  | zero => exact Nat.le_refl _
  | succ left ih =>
    rw [reach]
    split
    · exact Nat.succ_le_succ (ih _)
    · exact Nat.zero_le _

theorem reach_stops (low : pos < 2 ^ 32) (short : reach size fate left pos < left) :
    (fate ((pos + reach size fate left pos) % 2 ^ 32 / size)).isStored = false := by
  induction left generalizing pos with
  | zero => exact absurd short (Nat.not_lt_zero _)
  | succ left ih =>
    rw [reach] at short ⊢
    cases here : (fate (pos / size)).isStored with
    | false =>
      rw [if_neg Bool.false_ne_true, Nat.add_zero, Nat.mod_eq_of_lt low]
      exact here
    | true =>
      rw [here] at short
      have later := ih (Nat.mod_lt _ (by decide)) (Nat.lt_of_succ_lt_succ short)
      rw [if_pos rfl]
      rw [Nat.mod_add_mod, Nat.add_right_comm, Nat.add_assoc] at later
      exact later

theorem isStored_eq {one : Fate} (stored : one.isStored = true) : one = .stored := by
  cases one with
  | missing => cases stored
  | torn => cases stored
  | stored => rfl

theorem Lands.cons {byte : UInt8} (stored : (fate (pos / size)).isStored = true) :
    Lands size fate place new (byte :: rest) pos ↔
      place = pos ∧ new = byte ∨ Lands size fate place new rest ((pos + 1) % 2 ^ 32) := by
  rw [Lands, isStored_eq stored]

/-- A byte that is written lands. -/
theorem reach_lands (index : Nat) (low : pos < 2 ^ 32)
    (inside : index < reach size fate src.length pos) :
    ∃ byte, src[index]? = some byte ∧ Lands size fate ((pos + index) % 2 ^ 32) byte src pos := by
  induction src generalizing pos index with
  | nil => exact absurd inside (Nat.not_lt_zero _)
  | cons byte rest ih =>
    rw [List.length_cons, reach] at inside
    split at inside
    · next stored =>
        cases index with
        | zero => exact ⟨byte, rfl, (Lands.cons stored).mpr (.inl ⟨Nat.mod_eq_of_lt low, rfl⟩)⟩
        | succ index =>
          obtain ⟨other, there, lands⟩ :=
            ih index (Nat.mod_lt _ (by decide)) (Nat.lt_of_succ_lt_succ inside)
          rw [Nat.mod_add_mod, Nat.add_assoc, Nat.add_comm 1] at lands
          exact ⟨other, there, (Lands.cons stored).mpr (.inr lands)⟩
    · exact absurd inside (Nat.not_lt_zero _)

/-- What lands is in a block of the request. -/
theorem Lands.near (low : pos < 2 ^ 32) (lands : Lands size fate place new src pos) :
    ∃ index < src.length, place / size = (pos + index) % 2 ^ 32 / size := by
  induction src generalizing pos with
  | nil => exact lands.elim
  | cons byte rest ih =>
    rw [Lands] at lands
    split at lands
    · exact lands.elim
    · exact ⟨0, Nat.succ_pos _, by rw [Nat.add_zero, Nat.mod_eq_of_lt low]; exact lands.1⟩
    · rcases lands with ⟨rfl, -⟩ | later
      · exact ⟨0, Nat.succ_pos _, by rw [Nat.add_zero, Nat.mod_eq_of_lt low]⟩
      · obtain ⟨index, inside, near⟩ := ih (Nat.mod_lt _ (by decide)) later
        refine ⟨index + 1, Nat.succ_lt_succ inside, ?_⟩
        rwa [Nat.mod_add_mod, Nat.add_assoc, Nat.add_comm 1] at near

section Block
variable (mounted : Mounted size) (here : (fate (pos / size)).isStored = true) (low : pos < 2 ^ 32)
include mounted here low

/-- The bytes of one block are written together. -/
theorem reach_block (left count : Nat) (within : pos % size + count ≤ size) :
    reach size fate (count + left) pos =
      count + reach size fate left ((pos + count) % 2 ^ 32) := by
  induction count generalizing pos with
  | zero => rw [Nat.zero_add, Nat.zero_add, Nat.add_zero, Nat.mod_eq_of_lt low]
  | succ count ih =>
    rw [Nat.add_right_comm, reach, if_pos here]
    cases count with
    | zero => simp [Nat.add_comm]
    | succ count =>
      have next : (pos + 1) % 2 ^ 32 = pos + 1 := by
        rcases mounted with rfl | rfl | rfl <;> omega
      have same : (pos + 1) / size = pos / size := by
        rcases mounted with rfl | rfl | rfl <;> omega
      rw [next, ih (by rwa [same]) (by rcases mounted with rfl | rfl | rfl <;> omega)
        (by rcases mounted with rfl | rfl | rfl <;> omega), Nat.add_assoc pos, Nat.add_comm 1]
      omega

theorem Lands.block (chunk : List UInt8) (within : pos % size + chunk.length ≤ size) :
    Lands size fate place new (chunk ++ rest) pos ↔
      (pos ≤ place ∧ chunk[place - pos]? = some new) ∨
        Lands size fate place new rest ((pos + chunk.length) % 2 ^ 32) := by
  induction chunk generalizing pos with
  | nil =>
    rw [List.nil_append, List.length_nil, Nat.add_zero, Nat.mod_eq_of_lt low]
    simp
  | cons byte more ih =>
    rw [List.cons_append, Lands.cons here]
    have first : (pos ≤ place ∧ (byte :: more)[place - pos]? = some new) ↔
        (place = pos ∧ new = byte) ∨ (pos + 1 ≤ place ∧ more[place - (pos + 1)]? = some new) := by
      by_cases same : place = pos
      · subst same
        rw [or_iff_left fun above => absurd above.1 (Nat.not_succ_le_self place), Nat.sub_self]
        simp [eq_comm]
      · by_cases above : pos ≤ place
        · have index : place - pos = (place - (pos + 1)) + 1 := by omega
          have later : pos + 1 ≤ place := by omega
          rw [index, List.getElem?_cons_succ]
          simp [same, above, later]
        · have below : ¬ pos + 1 ≤ place := by omega
          simp [same, above, below]
    rw [first, or_assoc]
    refine or_congr Iff.rfl ?_
    cases more with
    | nil => simp
    | cons second more =>
      rw [List.length_cons, List.length_cons] at within
      have next : (pos + 1) % 2 ^ 32 = pos + 1 := by
        rcases mounted with rfl | rfl | rfl <;> omega
      have same : (pos + 1) / size = pos / size := by
        rcases mounted with rfl | rfl | rfl <;> omega
      rw [next, ih (by rwa [same]) (by rcases mounted with rfl | rfl | rfl <;> omega)
        (by rw [List.length_cons]; rcases mounted with rfl | rfl | rfl <;> omega)]
      simp only [List.length_cons]
      rw [show pos + 1 + (more.length + 1) = pos + (more.length + 1 + 1) by omega]

end Block

/-- A block that is torn shows what has landed of it and is else as it was. -/
theorem tear_get {landed : Nat → Bool} {stale : Nat → Option UInt8}
    (torn : fate (pos / size) = .torn landed stale) (some_byte : src ≠ []) (mounted : Mounted size)
    (inside : place < content.length) :
    (∀ new, Lands size fate place new src pos →
      (tear size landed stale pos (src.take (size - pos % size)) content)[place]? = some new) ∧
    ((∀ new, ¬ Lands size fate place new src pos) →
      (tear size landed stale pos (src.take (size - pos % size)) content)[place]? =
        content[place]?) := by
  obtain ⟨byte, rest, rfl⟩ := List.exists_cons_of_ne_nil some_byte
  have lands : ∀ new, Lands size fate place new (byte :: rest) pos ↔ place / size = pos / size ∧
      if landed (place % size / diskSector) then
        pos ≤ place ∧ (byte :: rest)[place - pos]? = some new
      else stale (place % size) = some new := by
    intro new
    rw [Lands, torn]
  simp only [lands, tear, List.getElem?_mapIdx, List.getElem?_eq_getElem inside, Option.map_some]
  by_cases block : place / size = pos / size
  · have chunk : pos ≤ place →
        ((byte :: rest).take (size - pos % size))[place - pos]? = (byte :: rest)[place - pos]? := by
      intro above
      refine List.getElem?_take_of_lt ?_
      rcases mounted with rfl | rfl | rfl <;> omega
    simp only [block, true_and, ne_eq, not_true_eq_false, if_false]
    cases landed (place % size / diskSector) with
    | false =>
      cases stale (place % size) with
      | none => simp
      | some old => simp
    | true =>
      by_cases above : pos ≤ place
      · simp only [above, if_true, true_and, List.getD_eq_getElem?_getD, chunk above]
        cases (byte :: rest)[place - pos]? with
        | none => simp
        | some old => simp
      · simp [above]
  · simp [block]

/-- What the loop makes of the file: what lands is there, and the rest is as it was. -/
structure Overlaid (size : Nat) (fate : Nat → Fate) (pos : Nat) (src content : List UInt8)
    (out : List UInt8 × List UInt8) : Prop where
  rest : out.2 = src.drop (reach size fate src.length pos)
  grown : content.length ≤ out.1.length
  covers : ∀ index < reach size fate src.length pos, (pos + index) % 2 ^ 32 < out.1.length
  written : ∀ new, ∀ place < out.1.length, Lands size fate place new src pos →
    out.1[place]? = some new
  kept : ∀ place < content.length, (∀ new, ¬ Lands size fate place new src pos) →
    out.1[place]? = content[place]?

theorem Overlaid.nothing (none : ∀ place new, ¬ Lands size fate place new src pos)
    (stopped : reach size fate src.length pos = 0) :
    Overlaid size fate pos src content (content, src) where
  rest := by rw [stopped, List.drop_zero]
  grown := Nat.le_refl _
  covers index inside := by omega
  written new place _ lands := absurd lands (none place new)
  kept _ _ _ := rfl

/-- One round of the loop takes the front of `src`, up to the end of the block. -/
theorem front_of_block (mounted : Mounted size) (some_byte : src ≠ []) :
    ∃ chunk rest, src = chunk ++ rest ∧ src.take (size - pos % size) = chunk ∧
      src.drop (size - pos % size) = rest ∧ 0 < chunk.length ∧
      pos % size + chunk.length ≤ size ∧ (rest ≠ [] → pos % size + chunk.length = size) := by
  have width : (src.take (size - pos % size)).length = min (size - pos % size) src.length :=
    List.length_take
  have left : (src.drop (size - pos % size)).length = src.length - (size - pos % size) :=
    List.length_drop
  have filled := List.length_pos_iff.mpr some_byte
  have offset : pos % size < size := by rcases mounted with rfl | rfl | rfl <;> omega
  refine ⟨_, _, (List.take_append_drop (size - pos % size) src).symm, rfl, rfl, by omega, by omega,
    fun more => ?_⟩
  have later := List.length_pos_iff.mpr more
  omega

/-- The loop, over a request of at most 64 KiB. -/
theorem storeBlocks_overlaid (mounted : Mounted size) (enough : src.length < fuel)
    (short : src.length < 65536) (inside : pos ≤ content.length)
    (low : src ≠ [] → pos < 2 ^ 32 - 1) :
    Overlaid size fate pos src content (storeBlocks size fate fuel pos src content) := by
  induction fuel generalizing pos src content with
  | zero => exact absurd enough (Nat.not_lt_zero _)
  | succ fuel ih =>
    rw [storeBlocks]
    by_cases ended : src = []
    · rw [if_pos (.inl ended)]
      subst ended
      exact .nothing (fun _ _ lands => lands) rfl
    · have low := low ended
      rw [if_neg (by rw [maxOffset_eq mounted]; simp only [ended, false_or]; omega)]
      dsimp only
      cases came : fate (pos / size) with
      | missing =>
        obtain ⟨byte, rest, rfl⟩ := List.exists_cons_of_ne_nil ended
        refine .nothing (fun place new lands => ?_) ?_
        · rw [Lands, came] at lands
          exact lands
        · rw [List.length_cons, reach, came]
          rfl
      | torn landed stale =>
        have stopped : reach size fate src.length pos = 0 := by
          obtain ⟨byte, rest, rfl⟩ := List.exists_cons_of_ne_nil ended
          rw [List.length_cons, reach, came]
          rfl
        have same : (tear size landed stale pos (src.take (size - pos % size)) content).length =
            content.length := by
          rw [tear, List.length_mapIdx]
        dsimp only
        refine ⟨by rw [stopped, List.drop_zero], Nat.le_of_eq same.symm, fun index within => by omega, ?_, ?_⟩
        · intro new place within lands
          exact (tear_get came ended mounted (Nat.lt_of_lt_of_eq within same)).1 new lands
        · intro place within none
          exact (tear_get came ended mounted within).2 none
      | stored =>
        have here : (fate (pos / size)).isStored = true := by rw [came]; rfl
        obtain ⟨chunk, rest, rfl, front, back, filled, within, full⟩ :=
          @front_of_block size pos src mounted ended
        rw [front, back]
        rw [List.length_append] at enough short
        have grown : (splice content pos chunk).length = max content.length (pos + chunk.length) :=
          length_splice inside
        have next : (pos + chunk.length) % 2 ^ 32 ≤ (splice content pos chunk).length := by
          have less := Nat.mod_le (pos + chunk.length) (2 ^ 32)
          omega
        have start : rest ≠ [] → (pos + chunk.length) % 2 ^ 32 < 2 ^ 32 - 1 := by
          intro more
          have whole := full more
          rcases mounted with rfl | rfl | rfl <;> omega
        have later := @ih ((pos + chunk.length) % 2 ^ 32) rest (splice content pos chunk)
          (by omega) (by omega) next start
        generalize storeBlocks size fate fuel ((pos + chunk.length) % 2 ^ 32) rest
          (splice content pos chunk) = out at *
        have count : reach size fate (chunk ++ rest).length pos =
            chunk.length + reach size fate rest.length ((pos + chunk.length) % 2 ^ 32) := by
          rw [List.length_append]
          exact reach_block mounted here (by omega) _ _ within
        have lands : ∀ place new, Lands size fate place new (chunk ++ rest) pos ↔
            (pos ≤ place ∧ chunk[place - pos]? = some new) ∨
              Lands size fate place new rest ((pos + chunk.length) % 2 ^ 32) :=
          fun place new => Lands.block mounted here (by omega) chunk within
        -- the blocks of a request are different ones
        have apart : ∀ place new, pos ≤ place → place < pos + chunk.length →
            ¬ Lands size fate place new rest ((pos + chunk.length) % 2 ^ 32) := by
          intro place new above below again
          obtain ⟨index, inside, near⟩ := again.near (Nat.mod_lt _ (by decide))
          have whole := full (List.length_pos_iff.mp (by omega))
          rcases mounted with rfl | rfl | rfl <;> omega
        have kept := later.grown
        dsimp only
        refine ⟨?_, by omega, ?_, ?_, ?_⟩
        · rw [later.rest, count, ← List.drop_drop, List.drop_left]
        · intro index below
          by_cases first : index < chunk.length
          · have less := Nat.mod_le (pos + index) (2 ^ 32)
            omega
          · have there := later.covers (index - chunk.length) (by omega)
            rw [Nat.mod_add_mod, Nat.add_assoc, Nat.add_sub_cancel' (by omega)] at there
            exact there
        · intro new place below reached
          rcases (lands place new).mp reached with ⟨above, byte⟩ | again
          · have index := (List.getElem?_eq_some_iff.mp byte).1
            have old := later.kept place (by omega) fun other =>
              apart place other above (by omega)
            rw [old, getElem?_splice inside, if_pos ⟨above, by omega⟩, byte]
          · exact later.written new place below again
        · intro place below none
          have old := later.kept place (by omega) fun new again =>
            none new ((lands place new).mpr (.inr again))
          rw [old, getElem?_splice inside, if_neg]
          rintro ⟨above, under⟩
          have there : place - pos < chunk.length := by omega
          exact none _ ((lands place _).mpr (.inl ⟨above, List.getElem?_eq_getElem there⟩))

end Racccoon.Ext2.Append
