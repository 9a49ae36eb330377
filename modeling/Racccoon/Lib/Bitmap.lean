import Mathlib.Data.Nat.Bitwise
import Mathlib.Data.List.Range

/-!
A bitmap of `w`-bit words indexed by bit number: bit `i` is bit `i % w` of word
`i / w`. The operations are the usual shift-and-mask ones; the lemmas say that
they act on single bits.
-/

namespace Racccoon.Bitmap

variable {w : Nat}

def mask (w bit : Nat) : BitVec w := 1#w <<< (bit % w)

def test (words : Nat → BitVec w) (bit : Nat) : Bool :=
  (words (bit / w) &&& mask w bit) != 0#w

def insert (words : Nat → BitVec w) (bit : Nat) : Nat → BitVec w :=
  Function.update words (bit / w) (words (bit / w) ||| mask w bit)

def remove (words : Nat → BitVec w) (bit : Nat) : Nat → BitVec w :=
  Function.update words (bit / w) (words (bit / w) &&& ~~~ mask w bit)

def insertRange (words : Nat → BitVec w) (first count : Nat) : Nat → BitVec w :=
  (List.range' first count).foldl insert words

def removeRange (words : Nat → BitVec w) (first count : Nat) : Nat → BitVec w :=
  (List.range' first count).foldl remove words

theorem mask_getLsbD (positive : 0 < w) (bit position : Nat) :
    (mask w bit).getLsbD position = decide (position = bit % w) := by
  have small := Nat.mod_lt bit positive
  simp only [mask]
  by_cases same : position = bit % w
  · subst same
    simp [small]
  · by_cases below : position < bit % w
    · simp [below, same]
    · have apart : position - bit % w ≠ 0 := by omega
      simp [same, apart]

theorem test_getLsbD (positive : 0 < w) (words : Nat → BitVec w) (bit : Nat) :
    test words bit = (words (bit / w)).getLsbD (bit % w) := by
  rw [Bool.eq_iff_iff, test, bne_iff_ne]
  constructor
  · intro hit
    by_contra clear
    apply hit
    apply BitVec.eq_of_getLsbD_eq
    intro position _
    by_cases same : position = bit % w
    · simp [same, clear]
    · simp [mask_getLsbD positive, same]
  · intro hit zero
    have bitZero := congrArg (fun word => word.getLsbD (bit % w)) zero
    simp [mask_getLsbD positive, hit] at bitZero

theorem bit_split (first second : Nat) (sameWord : first / w = second / w)
    (sameBit : first % w = second % w) : first = second := by
  rw [← Nat.div_add_mod first w, ← Nat.div_add_mod second w, sameWord, sameBit]

section
variable (positive : 0 < w) (words : Nat → BitVec w)
include positive words

theorem test_insert (bit other : Nat) :
    test (insert words bit) other = (decide (other = bit) || test words other) := by
  simp only [test_getLsbD positive, insert]
  by_cases sameWord : other / w = bit / w
  · rw [sameWord, Function.update_self, BitVec.getLsbD_or, mask_getLsbD positive, Bool.or_comm]
    congr 1
    rw [decide_eq_decide]
    exact ⟨bit_split other bit sameWord, fun same => by rw [same]⟩
  · have different : other ≠ bit := fun same => sameWord (by rw [same])
    rw [Function.update_of_ne sameWord]
    simp [different]

theorem test_remove (bit other : Nat) :
    test (remove words bit) other = (!decide (other = bit) && test words other) := by
  simp only [test_getLsbD positive, remove]
  by_cases sameWord : other / w = bit / w
  · have small := Nat.mod_lt other positive
    rw [sameWord, Function.update_self, BitVec.getLsbD_and, BitVec.getLsbD_not,
      mask_getLsbD positive, Bool.and_comm]
    simp only [small, decide_true, Bool.true_and]
    congr 2
    rw [decide_eq_decide]
    exact ⟨bit_split other bit sameWord, fun same => by rw [same]⟩
  · have different : other ≠ bit := fun same => sameWord (by rw [same])
    rw [Function.update_of_ne sameWord]
    simp [different]

theorem test_insertRange (first count bit : Nat) :
    test (insertRange words first count) bit =
      (decide (first ≤ bit ∧ bit < first + count) || test words bit) := by
  induction count generalizing words first with
  | zero => simp [insertRange]
  | succ count ih =>
    have step : insertRange words first (count + 1) =
        insertRange (insert words first) (first + 1) count := rfl
    rw [step, ih, test_insert positive, ← Bool.or_assoc, ← Bool.decide_or]
    congr 2
    rw [eq_iff_iff]
    omega

theorem test_removeRange (first count bit : Nat) :
    test (removeRange words first count) bit =
      (!decide (first ≤ bit ∧ bit < first + count) && test words bit) := by
  induction count generalizing words first with
  | zero =>
    have empty : ¬ (first ≤ bit ∧ bit < first + 0) := by omega
    simp only [removeRange, List.range'_zero, List.foldl_nil, empty, decide_false,
      Bool.not_false, Bool.true_and]
  | succ count ih =>
    have step : removeRange words first (count + 1) =
        removeRange (remove words first) (first + 1) count := rfl
    rw [step, ih, test_remove positive, ← Bool.and_assoc, ← Bool.not_or, ← Bool.decide_or]
    congr 3
    rw [eq_iff_iff]
    omega

end

end Racccoon.Bitmap
