import Mathlib.Data.List.Basic

/-!
Runs of a deterministic step function. An action may be refused (`none`), and
`admits` restricts which steps a run may take; the restriction only looks at the
state before the step. `fun _ _ => True` gives the unrestricted runs.
-/

namespace Racccoon.Run

universe u v
variable {State : Type u} {Action : Type v}

inductive Reach (step : State → Action → Option State) (admits : State → Action → Prop)
    (start : State) : State → Prop where
  | start : Reach step admits start start
  | next {before after : State} (action : Action) (run : Reach step admits start before)
      (admitted : admits before action) (stepped : step before action = some after) :
      Reach step admits start after

variable {step : State → Action → Option State} {admits weaker : State → Action → Prop}
variable {start middle finish : State}

/-- The invariant rule: what holds at the start and is kept by every admitted
step holds in every state a run reaches. -/
theorem Reach.invariant (inv : State → Prop) (run : Reach step admits start finish)
    (initial : inv start)
    (keeps : ∀ before action after, inv before → admits before action →
      step before action = some after → inv after) : inv finish := by
  induction run with
  | start => exact initial
  | next action _ admitted stepped ih => exact keeps _ action _ ih admitted stepped

theorem Reach.mono (run : Reach step admits start finish)
    (relax : ∀ before action, admits before action → weaker before action) :
    Reach step weaker start finish := by
  induction run with
  | start => exact .start
  | next action _ admitted stepped ih => exact .next action ih (relax _ _ admitted) stepped

theorem Reach.trans (first : Reach step admits start middle)
    (second : Reach step admits middle finish) : Reach step admits start finish := by
  induction second with
  | start => exact first
  | next action _ admitted stepped ih => exact .next action ih admitted stepped

/-- Runs a list of actions, stopping at the first one that is refused or not
admitted. -/
def replay (step : State → Action → Option State) (admits : State → Action → Prop)
    [∀ state action, Decidable (admits state action)] : State → List Action → Option State
  | state, [] => some state
  | state, action :: rest =>
    if admits state action then
      (step state action).bind fun next => replay step admits next rest
    else none

theorem replay_reach [∀ state action, Decidable (admits state action)] (actions : List Action)
    (start finish : State) (replayed : replay step admits start actions = some finish) :
    Reach step admits start finish := by
  induction actions generalizing start with
  | nil =>
    simp only [replay, Option.some.injEq] at replayed
    subst replayed
    exact .start
  | cons action _ ih =>
    rw [replay] at replayed
    split at replayed
    · next admitted =>
        obtain ⟨next, stepped, tail⟩ := Option.bind_eq_some_iff.mp replayed
        exact (Reach.next action .start admitted stepped).trans (ih next tail)
    · cases replayed

def outcome (step : State → Action → Option State) (admits : State → Action → Prop)
    [∀ state action, Decidable (admits state action)] (start : State) (actions : List Action) :
    State :=
  (replay step admits start actions).getD start

theorem outcome_reach [∀ state action, Decidable (admits state action)] (actions : List Action)
    (start : State) (complete : (replay step admits start actions).isSome = true) :
    Reach step admits start (outcome step admits start actions) := by
  refine replay_reach actions start _ ?_
  obtain ⟨finish, replayed⟩ := Option.isSome_iff_exists.mp complete
  simp [outcome, replayed]

/-- `good` holds of every step a sequence of actions takes, up to the first one
that is refused. -/
def Along (step : State → Action → Option State) (good : State → Action → State → Prop) :
    State → List Action → Prop
  | _, [] => True
  | state, action :: rest =>
    ∀ next, step state action = some next → good state action next ∧ Along step good next rest

/-- Two properties that agree on single steps agree on whole sequences. -/
theorem along_congr {good fine : State → Action → State → Prop}
    (agree : ∀ state action next, step state action = some next →
      (good state action next ↔ fine state action next)) (state : State) (actions : List Action) :
    Along step good state actions ↔ Along step fine state actions := by
  induction actions generalizing state with
  | nil => exact Iff.rfl
  | cons action _ ih =>
    refine forall_congr' fun next => forall_congr' fun stepped => ?_
    rw [agree state action next stepped, ih next]

end Racccoon.Run
