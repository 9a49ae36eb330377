import Mathlib.Logic.Function.Basic

/-!
Slots holding copies of the cells of a memory. The copies are faithful when each
agrees with its cell and no cell is copied twice: a second copy is what a later
write to the cell would leave behind.
-/

namespace Racccoon.Copies
open Function (update update_self update_of_ne)

universe u v w
variable {Slot : Type u} {Key : Type v} {Value : Type w}

structure Faithful (copies : Slot → Option (Key × Value)) (memory : Key → Value) : Prop where
  fresh : ∀ slot key value, copies slot = some (key, value) → value = memory key
  single : ∀ slot other key value copy, copies slot = some (key, value) →
    copies other = some (key, copy) → slot = other

/-- No slot but `slot` holds a copy of `key`. -/
def OnlyAt (copies : Slot → Option (Key × Value)) (key : Key) (slot : Slot) : Prop :=
  ∀ other value, copies other = some (key, value) → other = slot

variable [DecidableEq Slot]
variable {copies : Slot → Option (Key × Value)} {memory : Key → Value} {slot : Slot} {key : Key}

theorem Faithful.forget (held : Faithful copies memory) (slot : Slot) :
    Faithful (update copies slot none) memory := by
  have kept : ∀ other entry, update copies slot none other = some entry →
      copies other = some entry := by
    intro other entry found
    by_cases same : other = slot
    · subst same
      simp at found
    · simpa [same] using found
  constructor
  · intro other key value found
    exact held.fresh other key value (kept other _ found)
  · intro first second key value copy left right
    exact held.single first second key value copy (kept first _ left) (kept second _ right)

section Writes

variable [DecidableEq Key]

theorem Faithful.invalidate (held : Faithful copies memory) (only : OnlyAt copies key slot)
    (value : Value) : Faithful (update copies slot none) (update memory key value) := by
  have dropped := held.forget slot
  constructor
  · intro other name copy found
    have different : name ≠ key := by
      intro same
      subst same
      by_cases here : other = slot
      · subst here
        simp at found
      · rw [update_of_ne here] at found
        exact here (only other copy found)
    rw [update_of_ne different]
    exact dropped.fresh other name copy found
  · exact dropped.single

/-- Writing a cell together with its only copy. -/
theorem Faithful.store (held : Faithful copies memory) (only : OnlyAt copies key slot)
    (value : Value) :
    Faithful (update copies slot (some (key, value)))
      (update memory key value) := by
  have elsewhere : ∀ other name copy,
      update copies slot (some (key, value)) other = some (name, copy) →
      other = slot ∧ name = key ∧ copy = value ∨
        other ≠ slot ∧ name ≠ key ∧ copies other = some (name, copy) := by
    intro other name copy found
    by_cases here : other = slot
    · subst here
      simp only [update_self, Option.some.injEq, Prod.mk.injEq] at found
      exact .inl ⟨rfl, found.1.symm, found.2.symm⟩
    · rw [update_of_ne here] at found
      refine .inr ⟨here, ?_, found⟩
      intro same
      subst same
      exact here (only other copy found)
  constructor
  · intro other name copy found
    rcases elsewhere other name copy found with ⟨-, rfl, rfl⟩ | ⟨-, different, old⟩
    · simp
    · rw [update_of_ne different]
      exact held.fresh other name copy old
  · intro first second name copy other left right
    rcases elsewhere first name copy left with ⟨rfl, named, -⟩ | ⟨-, different, old⟩
    · rcases elsewhere second name other right with ⟨rfl, -, -⟩ | ⟨-, different, -⟩
      · rfl
      · exact absurd named different
    · rcases elsewhere second name other right with ⟨-, named, -⟩ | ⟨-, -, older⟩
      · exact absurd named different
      · exact held.single first second name copy other old older

end Writes

end Racccoon.Copies
