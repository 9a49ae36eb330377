import Mathlib.Algebra.BigOperators.Group.Finset.Piecewise
import Mathlib.Algebra.Order.BigOperators.Group.Finset

/-!
Counting the entries of a finite table that satisfy a predicate, and how the
count moves when one entry changes. This is the arithmetic of a reference
count: the table holds the references, the predicate says "names this object".
-/

namespace Racccoon.Census

universe u
variable {Entry : Type u}

def census (size : Nat) (table : Nat → Entry) (names : Entry → Prop) [DecidablePred names] : Nat :=
  ((Finset.range size).filter fun index => names (table index)).card

def weight (names : Entry → Prop) [DecidablePred names] (entry : Entry) : Nat :=
  if names entry then 1 else 0

variable {size : Nat} {table : Nat → Entry} {names : Entry → Prop} [DecidablePred names]

theorem census_sum :
    census size table names = ∑ index ∈ Finset.range size, weight names (table index) :=
  Finset.card_filter ..

variable (table names) in
theorem census_update (index : Nat) (inside : index < size) (entry : Entry) :
    census size (Function.update table index entry) names + weight names (table index) =
      census size table names + weight names entry := by
  have member : index ∈ Finset.range size := Finset.mem_range.mpr inside
  have others : ∑ other ∈ (Finset.range size).erase index,
        weight names (Function.update table index entry other) =
      ∑ other ∈ (Finset.range size).erase index, weight names (table other) :=
    Finset.sum_congr rfl fun other kept => by
      rw [Function.update_of_ne (Finset.ne_of_mem_erase kept)]
  rw [census_sum, census_sum, ← Finset.add_sum_erase _ _ member,
    ← Finset.add_sum_erase _ (fun other => weight names (table other)) member, Function.update_self]
  omega

variable (table names) in
theorem census_update_same (index : Nat) (inside : index < size) (entry : Entry)
    (same : names entry ↔ names (table index)) :
    census size (Function.update table index entry) names = census size table names := by
  have moved := census_update table names index inside entry
  have even : weight names entry = weight names (table index) := by simp [weight, same]
  omega

theorem census_update_gain (index : Nat) (inside : index < size) (entry : Entry)
    (absent : ¬ names (table index)) (present : names entry) :
    census size (Function.update table index entry) names = census size table names + 1 := by
  have moved := census_update table names index inside entry
  simp only [weight, absent, present, ↓reduceIte] at moved
  omega

theorem census_update_loss (index : Nat) (inside : index < size) (entry : Entry)
    (present : names (table index)) (absent : ¬ names entry) :
    census size (Function.update table index entry) names + 1 = census size table names := by
  have moved := census_update table names index inside entry
  simp only [weight, absent, present, ↓reduceIte] at moved
  omega

theorem census_pos (index : Nat) (inside : index < size) (present : names (table index)) :
    0 < census size table names :=
  Finset.card_pos.mpr ⟨index, Finset.mem_filter.mpr ⟨Finset.mem_range.mpr inside, present⟩⟩

theorem census_eq_zero : census size table names = 0 ↔ ∀ index < size, ¬ names (table index) := by
  simp [census]

theorem countP_census : ((List.range size).countP fun index => decide (names (table index))) =
    census size table names := by
  rw [List.countP_eq_length_filter]
  rfl

end Racccoon.Census
