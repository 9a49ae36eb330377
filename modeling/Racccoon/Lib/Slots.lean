import Mathlib.Data.List.Basic

/-!
A table of slots, some of which carry a key. As long as no key is carried twice, what is
found under a key depends only on the slot that carries it.
-/

namespace Racccoon.Slots

universe u v
variable {Entry : Type u} {Key : Type v}
variable {key : Entry → Option Key} {slots : List Entry} {entry : Entry} {slot : Nat} {k : Key}

def Distinct (key : Entry → Option Key) (slots : List Entry) : Prop :=
  ∀ (a b : Nat) e f k, slots[a]? = some e → slots[b]? = some f → key e = some k → key f = some k → a = b

theorem getElem?_set_cases {a : Nat} {e : Entry} (held : (slots.set slot entry)[a]? = some e) :
    (a = slot ∧ e = entry ∧ slot < slots.length) ∨ (a ≠ slot ∧ slots[a]? = some e) := by
  by_cases same : a = slot
  · subst same
    by_cases inside : a < slots.length
    · rw [List.getElem?_set_self inside] at held
      exact .inl ⟨rfl, (Option.some.inj held).symm, inside⟩
    · rw [List.getElem?_eq_none (by simpa using inside)] at held
      cases held
  · rw [List.getElem?_set_ne (Ne.symm same)] at held
    exact .inr ⟨same, held⟩

theorem modify_eq_set (change : Entry → Entry) (held : slots[slot]? = some entry) :
    slots.modify slot change = slots.set slot (change entry) := by
  apply List.ext_getElem?
  intro a
  by_cases same : slot = a
  · subst same
    obtain ⟨inside, rfl⟩ := List.getElem?_eq_some_iff.1 held
    simp [inside]
  · simp [same]

theorem Distinct.set (distinct : Distinct key slots)
    (apart : ∀ (a : Nat) e k, a ≠ slot → slots[a]? = some e → key entry = some k → key e ≠ some k) :
    Distinct key (slots.set slot entry) := by
  intro a b e f k heldA heldB carriesA carriesB
  rcases getElem?_set_cases heldA with ⟨rfl, rfl, -⟩ | ⟨awayA, thereA⟩ <;>
    rcases getElem?_set_cases heldB with ⟨rfl, rfl, -⟩ | ⟨awayB, thereB⟩
  · rfl
  · exact absurd carriesB (apart b f k awayB thereB carriesA)
  · exact absurd carriesA (apart a e k awayA thereA carriesB)
  · exact distinct a b e f k thereA thereB carriesA carriesB

variable [DecidableEq Key]

def lookup (key : Entry → Option Key) (slots : List Entry) (k : Key) : Option Entry :=
  slots.find? fun e => key e == some k

theorem lookup_carries (found : lookup key slots k = some entry) :
    key entry = some k ∧ ∃ a : Nat, slots[a]? = some entry := by
  constructor
  · simpa using List.find?_some found
  · obtain ⟨a, inside, same⟩ := List.getElem_of_mem (List.mem_of_find?_eq_some found)
    exact ⟨a, by rw [List.getElem?_eq_getElem inside, same]⟩

theorem lookup_eq_none_iff :
    lookup key slots k = none ↔ ∀ (a : Nat) e, slots[a]? = some e → key e ≠ some k := by
  simp only [lookup, List.find?_eq_none, beq_iff_eq, List.mem_iff_getElem?]
  exact ⟨fun none a e held => none e ⟨a, held⟩, fun none e ⟨a, held⟩ => none a e held⟩

theorem Distinct.lookup_eq (distinct : Distinct key slots) {a : Nat} (held : slots[a]? = some entry)
    (carries : key entry = some k) : lookup key slots k = some entry := by
  cases found : lookup key slots k with
  | none => exact absurd carries (lookup_eq_none_iff.1 found a entry held)
  | some other =>
    obtain ⟨carried, b, there⟩ := lookup_carries found
    obtain rfl := distinct a b entry other k held there carries carried
    exact congrArg some (Option.some.inj (there.symm.trans held))

theorem lookup_set_other (distinct : Distinct key (slots.set slot entry))
    (before : ∀ e, slots[slot]? = some e → key e ≠ some k) (now : key entry ≠ some k) :
    lookup key (slots.set slot entry) k = lookup key slots k := by
  cases found : lookup key slots k with
  | none =>
    refine lookup_eq_none_iff.2 fun a e held => ?_
    rcases getElem?_set_cases held with ⟨-, rfl, -⟩ | ⟨-, held⟩
    · exact now
    · exact lookup_eq_none_iff.1 found a e held
  | some e =>
    obtain ⟨carries, a, held⟩ := lookup_carries found
    have away : a ≠ slot := by
      rintro rfl
      exact before e held carries
    exact distinct.lookup_eq (by rw [List.getElem?_set_ne (Ne.symm away), held]) carries

theorem lookup_set_gone (distinct : Distinct key slots) {e : Entry}
    (held : slots[slot]? = some e) (carried : key e = some k) (now : key entry ≠ some k) :
    lookup key (slots.set slot entry) k = none := by
  refine lookup_eq_none_iff.2 fun a f there carries => ?_
  rcases getElem?_set_cases there with ⟨-, rfl, -⟩ | ⟨away, there⟩
  · exact now carries
  · exact away (distinct a slot f e k there held carries carried)

end Racccoon.Slots
