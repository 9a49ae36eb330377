import Mathlib.Data.Option.Basic

/-!
Operations that draw on a budget: each fails exactly when less than its need is left
and otherwise uses up its need. Needs add up along a sequence.
-/

namespace Racccoon.Budget

universe u v
variable {State : Type u} {Next : Type v}

structure Spends (left : State → Nat) (before : State) (need : Nat) (post : State → Prop)
    (outcome : Option State) : Prop where
  fails : outcome = none → left before < need
  uses : ∀ after ∈ outcome, left after + need = left before ∧ post after

variable {left : State → Nat} {before : State} {need more : Nat} {post later : State → Prop}
variable {outcome : Option State} {next : State → Option State}

theorem Spends.none_iff (spends : Spends left before need post outcome) :
    outcome = none ↔ left before < need := by
  refine ⟨spends.fails, ?_⟩
  intro short
  cases outcome with
  | none => rfl
  | some after =>
    have := (spends.uses after rfl).1
    omega

theorem Spends.nothing (holds : post before) : Spends left before 0 post (some before) := by
  constructor
  · simp
  · rintro after ⟨rfl⟩
    exact ⟨rfl, holds⟩

theorem Spends.bind (first : Spends left before need post outcome)
    (rest : ∀ middle, post middle → Spends left middle more later (next middle)) :
    Spends left before (need + more) later (outcome.bind next) := by
  cases outcome with
  | none =>
    have short := first.fails rfl
    exact ⟨fun _ => by omega, by simp⟩
  | some middle =>
    obtain ⟨used, holds⟩ := first.uses middle rfl
    have rest := rest middle holds
    constructor
    · intro failed
      have short := rest.fails failed
      omega
    · intro after done
      obtain ⟨usedLater, holds⟩ := rest.uses after done
      exact ⟨by omega, holds⟩

/-- An update that leaves the budget alone. -/
theorem Spends.map (spends : Spends left before need post outcome) (update : State → State)
    (keeps : ∀ after, left (update after) = left after)
    (imp : ∀ after, post after → later (update after)) :
    Spends left before need later (outcome.map update) := by
  constructor
  · intro failed
    exact spends.fails (by simpa using failed)
  · intro after done
    obtain ⟨earlier, reached, rfl⟩ := Option.map_eq_some_iff.mp done
    obtain ⟨used, holds⟩ := spends.uses earlier reached
    exact ⟨by rw [keeps]; exact used, imp earlier holds⟩

end Racccoon.Budget
