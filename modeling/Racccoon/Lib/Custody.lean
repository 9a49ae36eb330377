import Mathlib.Logic.Basic

/-!
Things held by at most one holder each, out of a pool of things taken. Holders may give
up what they hold, things nobody holds may leave the pool, and new things may be given
to one holder each.
-/

namespace Racccoon.Custody

universe u v
variable {Holder : Type u} {Thing : Type v}

structure Exclusive (holds : Holder → Thing → Prop) (taken : Thing → Prop) : Prop where
  within : ∀ holder thing, holds holder thing → taken thing
  sole : ∀ holder other thing, holds holder thing → holds other thing → holder = other

def Spare (holds : Holder → Thing → Prop) (taken : Thing → Prop) (thing : Thing) : Prop :=
  taken thing ∧ ∀ holder, ¬ holds holder thing

variable {holds later : Holder → Thing → Prop} {taken remaining : Thing → Prop}

/-- Giving up, and returning what nobody holds any more. -/
theorem Exclusive.shrink (custody : Exclusive holds taken)
    (fewer : ∀ holder thing, later holder thing → holds holder thing)
    (kept : ∀ holder thing, later holder thing → taken thing → remaining thing) :
    Exclusive later remaining := by
  constructor
  · intro holder thing held
    exact kept holder thing held (custody.within holder thing (fewer holder thing held))
  · intro holder other thing held again
    exact custody.sole holder other thing (fewer holder thing held) (fewer other thing again)

/-- Handing out spare things, each to one holder. -/
theorem Exclusive.hand (custody : Exclusive holds taken)
    (given : ∀ holder thing, later holder thing → holds holder thing ∨ Spare holds taken thing)
    (once : ∀ holder other thing, Spare holds taken thing → later holder thing →
      later other thing → holder = other) : Exclusive later taken := by
  constructor
  · intro holder thing held
    rcases given holder thing held with old | spare
    · exact custody.within holder thing old
    · exact spare.1
  · intro holder other thing held again
    rcases given holder thing held with old | spare
    · rcases given other thing again with older | spare
      · exact custody.sole holder other thing old older
      · exact absurd old (spare.2 holder)
    · exact once holder other thing spare held again

theorem Exclusive.fresh (custody : Exclusive holds taken) {thing : Thing} (free : ¬ taken thing)
    (holder : Holder) : ¬ holds holder thing :=
  fun held => free (custody.within holder thing held)

end Racccoon.Custody
