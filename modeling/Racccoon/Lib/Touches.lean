import Mathlib.Data.List.Basic

/-!
What a function does to memory and to its lengths, in the order it does it: ranges of bytes
in buffers, and unsigned subtractions. A range may start before its buffer; an empty one is
nothing.
-/

namespace Racccoon

universe u
variable {Buffer : Type u}

inductive Touch (Buffer : Type u) where
  | bytes (buffer : Buffer) (start : Int) (count : Nat)
  | minus (whole part : Nat)
  deriving DecidableEq

variable (size : Buffer → Nat)

def Touch.Within : Touch Buffer → Prop
  | .bytes buffer start count => 0 < count → 0 ≤ start ∧ start + count ≤ size buffer
  | .minus whole part => part ≤ whole

instance : (touch : Touch Buffer) → Decidable (touch.Within size)
  | .bytes buffer start count =>
    inferInstanceAs (Decidable (0 < count → 0 ≤ start ∧ start + count ≤ size buffer))
  | .minus whole part => inferInstanceAs (Decidable (part ≤ whole))

def AllWithin (touches : List (Touch Buffer)) : Prop :=
  ∀ touch ∈ touches, touch.Within size

instance (touches : List (Touch Buffer)) : Decidable (AllWithin size touches) :=
  inferInstanceAs (Decidable (∀ touch ∈ touches, touch.Within size))

section Rules
variable {size : Buffer → Nat}

@[simp] theorem within_bytes {buffer : Buffer} {start : Int} {count : Nat} :
    (Touch.bytes buffer start count).Within size ↔
      (0 < count → 0 ≤ start ∧ start + count ≤ size buffer) := Iff.rfl

@[simp] theorem within_minus {whole part : Nat} :
    (Touch.minus whole part : Touch Buffer).Within size ↔ part ≤ whole := Iff.rfl

@[simp] theorem allWithin_nil : AllWithin size [] := fun _ member => by cases member

@[simp] theorem allWithin_cons {touch : Touch Buffer} {rest : List (Touch Buffer)} :
    AllWithin size (touch :: rest) ↔ touch.Within size ∧ AllWithin size rest :=
  List.forall_mem_cons

@[simp] theorem allWithin_append {early late : List (Touch Buffer)} :
    AllWithin size (early ++ late) ↔ AllWithin size early ∧ AllWithin size late :=
  List.forall_mem_append

theorem allWithin_flatMap {Item : Type u} {items : List Item} {touches : Item → List (Touch Buffer)}
    (each : ∀ item ∈ items, AllWithin size (touches item)) :
    AllWithin size (items.flatMap touches) := by
  intro touch member
  obtain ⟨item, inside, found⟩ := List.mem_flatMap.mp member
  exact each item inside touch found

theorem AllWithin.ite {branch : Prop} [Decidable branch] {yes no : List (Touch Buffer)}
    (first : branch → AllWithin size yes) (second : ¬ branch → AllWithin size no) :
    AllWithin size (if branch then yes else no) := by
  split
  · exact first ‹_›
  · exact second ‹_›

end Rules

end Racccoon
