import Mathlib.Algebra.GroupWithZero.Nat
import Mathlib.Data.List.Basic

/-!
Little-endian words of 32 bits in a sequence of bytes, word `i` at bytes `4 * i` to
`4 * i + 3`.
-/

namespace Racccoon.Words

variable {bytes other : Nat → UInt8} {value : Nat}

def word (bytes : Nat → UInt8) (i : Nat) : Nat :=
  (bytes (4 * i)).toNat + 256 * (bytes (4 * i + 1)).toNat +
    65536 * (bytes (4 * i + 2)).toNat + 16777216 * (bytes (4 * i + 3)).toNat

def setWord (bytes : Nat → UInt8) (i value : Nat) : Nat → UInt8 := fun j =>
  if j / 4 = i then UInt8.ofNat (value / 256 ^ (j % 4)) else bytes j

theorem word_congr {i : Nat} (same : ∀ j, j / 4 = i → bytes j = other j) :
    word bytes i = word other i := by
  simp only [word]
  rw [same (4 * i) (by omega), same (4 * i + 1) (by omega), same (4 * i + 2) (by omega),
    same (4 * i + 3) (by omega)]

theorem word_zeros (i : Nat) : word (fun _ => 0) i = 0 := by
  simp [word]

theorem setWord_of_ne {i j : Nat} (apart : j / 4 ≠ i) : setWord bytes i value j = bytes j :=
  if_neg apart

theorem word_setWord_self (small : value < 2 ^ 32) (i : Nat) :
    word (setWord bytes i value) i = value := by
  have zeroth : (4 * i) / 4 = i ∧ (4 * i) % 4 = 0 := by omega
  have first : (4 * i + 1) / 4 = i ∧ (4 * i + 1) % 4 = 1 := by omega
  have second : (4 * i + 2) / 4 = i ∧ (4 * i + 2) % 4 = 2 := by omega
  have third : (4 * i + 3) / 4 = i ∧ (4 * i + 3) % 4 = 3 := by omega
  simp only [word, setWord, zeroth, first, second, third, if_true, UInt8.toNat_ofNat']
  omega

theorem word_setWord (small : value < 2 ^ 32) (i j : Nat) :
    word (setWord bytes i value) j = if j = i then value else word bytes j := by
  by_cases same : j = i
  · rw [if_pos same, same, word_setWord_self small]
  · rw [if_neg same]
    exact word_congr fun k there => setWord_of_ne (by omega)

end Racccoon.Words
