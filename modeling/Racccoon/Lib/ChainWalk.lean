import Mathlib.Data.Finset.Card
import Mathlib.Data.Nat.Find

/-!
Walks along links. From every node one link leads on; a walk visits node after node
until one is a stop or the visit has seen enough. Whether it ends is a question about
the links, as long as no visit leaves: a walk that goes round a loop never does.
-/

namespace Racccoon.ChainWalk

universe u v w
variable {Node : Type u} {State : Type v} {Result : Type w}

inductive Next (State : Type v) (Result : Type w) where
  | go (state : State)
  | leave (result : Result)

def Next.settle (finish : State → Result) : Next State Result → Result
  | .go state => finish state
  | .leave result => result

/-- `none` when `fuel` rounds were not enough. -/
def walk (link : Node → Node) (stop : Node → Bool) (visit : Node → State → Next State Result)
    (finish : State → Result) : Nat → Node → State → Option Result
  | 0, _, _ => none
  | fuel + 1, node, state =>
    if stop node then some (finish state)
    else
      match visit node state with
      | .leave result => some result
      | .go state => walk link stop visit finish fuel (link node) state

/-- A stop is at most `n` links away. -/
def EndsWithin (link : Node → Node) (stop : Node → Bool) : Nat → Node → Prop
  | 0, node => stop node = true
  | n + 1, node => stop node = true ∨ EndsWithin link stop n (link node)

variable {link : Node → Node} {stop : Node → Bool}
variable {n : Nat}
variable {node : Node}

theorem endsWithin_stop (stopped : stop node = true) : EndsWithin link stop n node := by
  cases n with
  | zero => exact stopped
  | succ n => exact Or.inl stopped

theorem EndsWithin.step (ends : EndsWithin link stop (n + 1) node) (on : ¬ stop node = true) :
    EndsWithin link stop n (link node) := by
  rcases ends with stopped | rest
  · exact absurd stopped on
  · exact rest

end Racccoon.ChainWalk
