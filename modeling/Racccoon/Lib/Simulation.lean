import Mathlib.Data.List.Basic

/-!
Machines that answer every action, and the rule for two of them that answer alike:
a relation between their states which every admitted action keeps and under which
the answers agree.
-/

namespace Racccoon.Simulation

universe u v w x
variable {Left : Type u} {Right : Type v} {Action : Type w} {Reply : Type x}

def after (step : Left → Action → Reply × Left) (state : Left) (actions : List Action) : Left :=
  actions.foldl (fun state action => (step state action).2) state

def replies (step : Left → Action → Reply × Left) : Left → List Action → List Reply
  | _, [] => []
  | state, action :: rest => (step state action).1 :: replies step (step state action).2 rest

def Admitted (step : Left → Action → Reply × Left) (admits : Left → Action → Prop) :
    Left → List Action → Prop
  | _, [] => True
  | state, action :: rest =>
    admits state action ∧ Admitted step admits (step state action).2 rest

variable {step : Left → Action → Reply × Left} {other : Right → Action → Reply × Right}
variable {admits : Left → Action → Prop} {related : Left → Right → Prop}

theorem admitted_of_forall {allowed : Action → Prop} (state : Left) (actions : List Action)
    (all : ∀ action ∈ actions, allowed action) :
    Admitted step (fun _ action => allowed action) state actions := by
  induction actions generalizing state with
  | nil => trivial
  | cons action _ ih =>
    have later := fun next member => all next (List.mem_cons_of_mem action member)
    exact ⟨all action List.mem_cons_self, ih _ later⟩

def Keeps (step : Left → Action → Reply × Left) (other : Right → Action → Reply × Right)
    (admits : Left → Action → Prop) (related : Left → Right → Prop) : Prop :=
  ∀ left right action, related left right → admits left action →
    (step left action).1 = (other right action).1 ∧
      related (step left action).2 (other right action).2

section
variable (keeps : Keeps step other admits related) (left : Left) (right : Right)
variable (actions : List Action) (alike : related left right)
variable (admitted : Admitted step admits left actions)
include keeps left right actions alike admitted

theorem Keeps.replies_eq : replies step left actions = replies other right actions := by
  induction actions generalizing left right with
  | nil => rfl
  | cons action _ ih =>
    obtain ⟨same, kept⟩ := keeps left right action alike admitted.1
    simp only [replies]
    rw [same, ih _ _ kept admitted.2]

theorem Keeps.after_related : related (after step left actions) (after other right actions) := by
  induction actions generalizing left right with
  | nil => exact alike
  | cons action _ ih =>
    exact ih _ _ (keeps left right action alike admitted.1).2 admitted.2

end

end Racccoon.Simulation
