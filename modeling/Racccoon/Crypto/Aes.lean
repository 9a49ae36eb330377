import Mathlib.Data.BitVec
import Mathlib.Data.Fin.VecNotation
import Mathlib.Data.Finite.Prod
import Mathlib.Tactic.FinCases
import Racccoon.Lib.Rijndael

/-!
AES-128 on one block, and the RFC 3394 key unwrapping built on it. The tables are the functions
they hold. A block is its sixteen bytes, column by column.
-/

namespace Racccoon.Crypto

open Rijndael (Byte Block Half joined front back words bytes wrapStep wrapSteps)

def aesXtime (x : Byte) : Byte := (x <<< 1) ^^^ if x &&& 128#8 ≠ 0 then 0x1b else 0

def mulLoop : Nat → Byte → Byte → Byte → Byte
  | 0, _, _, r => r
  | k + 1, a, b, r => mulLoop k (aesXtime a) (b >>> 1) (if b &&& 1 ≠ 0 then r ^^^ a else r)

def aesMul (a b : Byte) : Byte := mulLoop 8 a b 0

def inverse (x : Byte) : Byte :=
  if x ≠ 0 then
    (((List.range' 1 255).map (BitVec.ofNat 8)).find? fun y => aesMul x y = 1).getD 0
  else 0

def affine (inv : Byte) : Byte :=
  let b := inv.setWidth 32
  let s := b ^^^ (b <<< 1 ||| b >>> 7) ^^^ (b <<< 2 ||| b >>> 6) ^^^ (b <<< 3 ||| b >>> 5) ^^^
    (b <<< 4 ||| b >>> 4)
  ((s ^^^ 0x63) &&& 0xff).setWidth 8

def aesSbox (x : Byte) : Byte := affine (inverse x)

/-- A later byte would overwrite an earlier one in `g_aes_inv`. -/
def aesInv (s : Byte) : Byte :=
  (((List.range 256).reverse.map (BitVec.ofNat 8)).find? fun x => aesSbox x = s).getD 0

/-- The four bytes from `i` on. -/
def keyWord (keys : (Nat → Byte) × Byte) (i : Nat) : (Nat → Byte) × Byte :=
  let (rk, rcon) := keys
  let t := fun k => rk (i - 4 + k)
  let (t, rcon) :=
    if i % 16 = 0 then
      (fun k => if k = 0 then aesSbox (t 1) ^^^ rcon else aesSbox (t ((k + 1) % 4)), aesXtime rcon)
    else (t, rcon)
  (fun j => if i ≤ j ∧ j < i + 4 then rk (j - 16) ^^^ t (j - i) else rk j, rcon)

def aes128Key (key : Block) : Nat → Byte :=
  ((List.range' 16 40 4).foldl keyWord (fun j => if small : j < 16 then key ⟨j, small⟩ else 0, 1)).1

variable (rk : Nat → Byte)

def addKey (r : Nat) (s : Block) : Block := fun i => s i ^^^ rk (r * 16 + i)

def shifted (i : Fin 16) : Fin 16 := ⟨(i / 4 + i % 4) % 4 * 4 + i % 4, by omega⟩

def shiftRows (t : Block) : Block := fun i => t (shifted i)

variable (s : Block)

def invShiftRows : Block :=
  (List.finRange 16).foldl (fun t i => Function.update t (shifted i) (s i)) fun _ => 0

def column (i : Fin 16) (k : Fin 4) : Byte := s ⟨i / 4 * 4 + k, by omega⟩

def mixed (a : Fin 4 → Byte) : Fin 4 → Byte :=
  ![aesXtime (a 0) ^^^ (aesXtime (a 1) ^^^ a 1) ^^^ a 2 ^^^ a 3,
    a 0 ^^^ aesXtime (a 1) ^^^ (aesXtime (a 2) ^^^ a 2) ^^^ a 3,
    a 0 ^^^ a 1 ^^^ aesXtime (a 2) ^^^ (aesXtime (a 3) ^^^ a 3),
    (aesXtime (a 0) ^^^ a 0) ^^^ a 1 ^^^ a 2 ^^^ aesXtime (a 3)]

def unmixed (a : Fin 4 → Byte) : Fin 4 → Byte :=
  ![aesMul (a 0) 14 ^^^ aesMul (a 1) 11 ^^^ aesMul (a 2) 13 ^^^ aesMul (a 3) 9,
    aesMul (a 0) 9 ^^^ aesMul (a 1) 14 ^^^ aesMul (a 2) 11 ^^^ aesMul (a 3) 13,
    aesMul (a 0) 13 ^^^ aesMul (a 1) 9 ^^^ aesMul (a 2) 14 ^^^ aesMul (a 3) 11,
    aesMul (a 0) 11 ^^^ aesMul (a 1) 13 ^^^ aesMul (a 2) 9 ^^^ aesMul (a 3) 14]

theorem row_lt (i : Fin 16) : i.val % 4 < 4 := Nat.mod_lt _ (by decide)

def mixColumns : Block := fun i => mixed (column s i) ⟨i % 4, row_lt i⟩

def invMixColumns : Block := fun i => unmixed (column s i) ⟨i % 4, row_lt i⟩

/-- The state `s` after `r` rounds. -/
def encryptRounds (rk : Nat → Byte) (b : Block) : Nat → Block
  | 0 => addKey rk 0 b
  | r + 1 =>
    let s := shiftRows fun i => aesSbox (encryptRounds rk b r i)
    addKey rk (r + 1) (if r + 1 < 10 then mixColumns s else s)

def aes128Encrypt (b : Block) : Block := encryptRounds rk b 10

/-- The rounds `r`, `r - 1`, .. of the decryption. -/
def decryptRounds (rk : Nat → Byte) : Nat → Block → Block
  | 0, s => addKey rk 0 fun i => aesInv (invShiftRows s i)
  | r + 1, s =>
    decryptRounds rk r (invMixColumns (addKey rk (r + 1) fun i => aesInv (invShiftRows s i)))

def aes128Decrypt (b : Block) : Block := decryptRounds rk 9 (addKey rk 10 b)

/-- `iv` with the step's count `n * j + i` added. -/
def counted (n j i : Nat) (iv : Half) : Half :=
  fun k => iv k ^^^ (BitVec.ofNat 64 (n * j + i) >>> (56 - k.val * 8)).setWidth 8

/-- One step at the word `i - 1` of `out`. -/
def unwrapStep (n : Nat) (s : Half × List Half) (step : Nat × Nat) : Half × List Half :=
  let (j, i) := step
  let r := aes128Decrypt rk (joined (counted n j i s.1) (s.2.getD (i - 1) 0))
  (front r, s.2.set (i - 1) (back r))

/-- `j` from 5 down to 0, and `i` from `n` down to 1 for each. -/
def unwrapSteps (n : Nat) : List (Nat × Nat) :=
  (List.range 6).reverse.flatMap fun j => (List.range' 1 n).reverse.map fun i => (j, i)

def aesKeyUnwrap (kek : Block) (input : List Byte) : Option (List Byte) :=
  if input.length < 24 ∨ input.length % 8 ≠ 0 then none
  else
    let n := input.length / 8 - 1
    let halves := words input
    let (iv, out) :=
      (unwrapSteps n).foldl (unwrapStep (aes128Key kek) n) (halves.headD 0, halves.tail)
    if ∀ k, iv k = 0xa6 then some (bytes out) else none

section Field
variable (a b c d r x y z : Byte)

theorem xor_left_comm : x ^^^ (y ^^^ z) = y ^^^ (x ^^^ z) := by
  rw [← BitVec.xor_assoc, BitVec.xor_comm x, BitVec.xor_assoc]

theorem xor_cancel : x ^^^ (x ^^^ y) = y := by
  rw [← BitVec.xor_assoc, BitVec.xor_self, BitVec.zero_xor]

theorem xor_turn : x ^^^ y ^^^ z ^^^ a = y ^^^ z ^^^ a ^^^ x := by
  rw [BitVec.xor_assoc, BitVec.xor_assoc, BitVec.xor_comm x, BitVec.xor_assoc y z a]

theorem aesXtime_xor : aesXtime (x ^^^ y) = aesXtime x ^^^ aesXtime y := by
  have top (z : Byte) : z &&& 128#8 = 0 ∨ z &&& 128#8 = 128#8 :=
    (ite_eq_or_eq _ _ _).symm.imp (BitVec.and_twoPow z 7).trans (BitVec.and_twoPow z 7).trans
  have both : (x ^^^ y) &&& 128#8 = (x &&& 128#8) ^^^ (y &&& 128#8) := by
    ext i
    simp [Bool.and_xor_distrib_right]
  simp only [aesXtime, BitVec.shiftLeft_xor_distrib, both]
  rcases top x with left | left <;> rcases top y with right | right <;> rw [left, right] <;>
    simp [BitVec.xor_assoc, BitVec.xor_comm, xor_left_comm]

theorem mulLoop_xor (k : Nat) : mulLoop k (x ^^^ y) b (c ^^^ d) = mulLoop k x b c ^^^ mulLoop k y b d := by
  induction k generalizing x y b c d with
  | zero => rfl
  | succ k ih =>
    simp only [mulLoop, aesXtime_xor]
    rw [← ih]
    split
    · rw [BitVec.xor_assoc, BitVec.xor_assoc, xor_left_comm d]
    · rfl

theorem aesMul_xor : aesMul (x ^^^ y) b = aesMul x b ^^^ aesMul y b := mulLoop_xor b 0 0 x y 8

theorem mulLoop_xtime (k : Nat) :
    mulLoop k (aesXtime a) b (aesXtime r) = aesXtime (mulLoop k a b r) := by
  induction k generalizing a b r with
  | zero => rfl
  | succ k ih =>
    simp only [mulLoop]
    rw [← ih]
    split
    · rw [aesXtime_xor]
    · rfl

/-- What `y` annihilates is closed under the steps of a multiplication. -/
theorem mulLoop_annihilated (k : Nat) (first : aesMul a y = 0) (sum : aesMul r y = 0) :
    aesMul (mulLoop k a b r) y = 0 := by
  induction k generalizing a b r with
  | zero => exact sum
  | succ k ih =>
    refine ih _ _ _ ?_ ?_
    · exact (mulLoop_xtime a y 0 8).trans (congrArg aesXtime first)
    · split
      · rw [aesMul_xor, sum, first]
        rfl
      · exact sum

/-- `count` powers of 3, times a byte. -/
def powers : Byte → Nat → List Byte
  | _, 0 => []
  | a, count + 1 => a :: powers (aesXtime a ^^^ a) count

def powerPairs : List (Byte × Byte) := (powers 1 255).zip (1 :: (powers 1 255).tail.reverse)

theorem testBit_marks (bytes : List Byte) (marks n : Nat)
    (held : (bytes.foldl (fun marks b => marks ||| 1 <<< b.toNat) marks).testBit n = true) :
    marks.testBit n = true ∨ ∃ b ∈ bytes, b.toNat = n := by
  induction bytes generalizing marks with
  | nil => exact .inl held
  | cons b bytes ih =>
    rcases ih _ held with marked | ⟨c, inside, is⟩
    · rw [Nat.testBit_or, Nat.one_shiftLeft, Nat.testBit_two_pow, Bool.or_eq_true,
        decide_eq_true_eq] at marked
      exact marked.imp_right fun is => ⟨b, by simp, is⟩
    · exact .inr ⟨c, by simp [inside], is⟩

/-- The powers of 3 in reverse are their inverses, and they are all the nonzero bytes. -/
theorem powers_inverse : powerPairs.all (fun pair => aesMul pair.1 pair.2 = 1) = true ∧
    (powerPairs.map Prod.fst).foldl (fun marks b => marks ||| 1 <<< b.toNat) 0 = 2 ^ 256 - 2 := by
  decide +kernel

theorem exists_inverse (nonzero : x ≠ 0) : ∃ y, aesMul x y = 1 := by
  have positive : x.toNat ≠ 0 := fun zero => nonzero (BitVec.eq_of_toNat_eq zero)
  have marked : (2 ^ 256 - 2).testBit x.toNat = true := by
    rw [Nat.testBit_two_pow_sub_succ (by decide), Bool.and_eq_true, Bool.not_eq_true']
    exact ⟨decide_eq_true x.isLt,
      Bool.eq_false_iff.mpr (mt Nat.testBit_one_eq_true_iff_self_eq_zero.mp positive)⟩
  rcases testBit_marks _ 0 _ (powers_inverse.2 ▸ marked) with none | ⟨b, listed, is⟩
  · simp at none
  · obtain ⟨pair, inside, rfl⟩ := List.mem_map.mp listed
    have right := of_decide_eq_true (List.all_eq_true.mp powers_inverse.1 pair inside)
    exact ⟨pair.2, BitVec.eq_of_toNat_eq is ▸ right⟩

theorem one_mul : ∀ y : Byte, aesMul 1 y = y := by decide

theorem mulLoop_zero (k : Nat) : mulLoop k 0 y 0 = 0 := by
  induction k generalizing y with
  | zero => rfl
  | succ k ih => exact (congrArg (mulLoop k 0 _) (ite_self 0)).trans (ih _)

theorem mul_zero_ne : aesMul x 0 ≠ 1 := by
  change (0 : Byte) ≠ 1
  decide

theorem find_listed {bytes : List Byte} {good : Byte → Bool} (listed : x ∈ bytes)
    (right : good x = true) : ∃ y, bytes.find? good = some y ∧ good y = true := by
  obtain ⟨y, found⟩ := Option.isSome_iff_exists.mp (List.find?_isSome.mpr ⟨x, listed, right⟩)
  exact ⟨y, found, List.find?_some found⟩

theorem inverse_mul (nonzero : x ≠ 0) : aesMul x (inverse x) = 1 := by
  obtain ⟨y, right⟩ := exists_inverse x nonzero
  have positive : y.toNat ≠ 0 := fun zero => by
    have none : y = 0 := BitVec.eq_of_toNat_eq zero
    exact mul_zero_ne x (none ▸ right)
  have listed : y ∈ (List.range' 1 255).map (BitVec.ofNat 8) :=
    List.mem_map.mpr ⟨y.toNat, List.mem_range'_1.mpr (by omega), by simp⟩
  obtain ⟨z, found, good⟩ := @find_listed y _ (fun y => aesMul x y = 1) listed (by simpa)
  rw [inverse, if_pos nonzero, found]
  exact of_decide_eq_true good

theorem inverse_ne (nonzero : x ≠ 0) : inverse x ≠ 0 :=
  fun zero => mul_zero_ne x (zero ▸ inverse_mul x nonzero)

/-- The sum of two bytes with one inverse would annihilate it, and with that everything. -/
theorem mul_cancel {x y z : Byte} (left : aesMul x z = 1) (right : aesMul y z = 1) : x = y := by
  by_contra differ
  have sum : x ^^^ y ≠ 0 := fun zero => differ (BitVec.xor_eq_zero_iff.mp zero)
  have gone : aesMul (x ^^^ y) z = 0 := by
    rw [aesMul_xor, left, right]
    rfl
  have all := mulLoop_annihilated (x ^^^ y) (inverse (x ^^^ y)) 0 z 8 gone (mulLoop_zero _ 8)
  rw [← aesMul, inverse_mul _ sum, one_mul] at all
  exact mul_zero_ne x (all ▸ left)

theorem inverse_injective : Function.Injective inverse := by
  intro x y same
  by_cases first : x = 0
  · by_cases second : y = 0
    · rw [first, second]
    · exact absurd (by rw [← same, first]; rfl) (inverse_ne y second)
  · have nonzero : y ≠ 0 := fun zero => inverse_ne x first (by rw [same, zero]; rfl)
    exact mul_cancel (inverse_mul x first) (same ▸ inverse_mul y nonzero)

/-- What the affine map turns into `s`. -/
def unaffine (s : Byte) : Byte := s.rotateLeft 1 ^^^ s.rotateLeft 3 ^^^ s.rotateLeft 6 ^^^ 5

theorem affine_injective : Function.Injective affine := by
  have turned : ∀ b : Byte, unaffine (affine b) = b := by
    decide
  intro x y same
  rw [← turned x, same, turned y]

theorem aesInv_aesSbox : aesInv (aesSbox x) = x := by
  have listed : x ∈ (List.range 256).reverse.map (BitVec.ofNat 8) :=
    List.mem_map.mpr ⟨x.toNat, List.mem_reverse.mpr (List.mem_range.mpr x.isLt), by simp⟩
  obtain ⟨y, found, good⟩ :=
    @find_listed x _ (fun y => aesSbox y = aesSbox x) listed (decide_eq_true rfl)
  rw [aesInv, found]
  exact inverse_injective (affine_injective (of_decide_eq_true good))

def blend : Byte := aesXtime a ^^^ (aesXtime b ^^^ b) ^^^ c ^^^ d

/-- The first row of the inverse matrix, grouped for the matrix it inverts. -/
theorem unmixed_row : aesMul a 14 ^^^ aesMul b 11 ^^^ aesMul c 13 ^^^ aesMul d 9 =
    (a ^^^ b ^^^ c ^^^ d) ^^^ aesXtime (aesXtime (aesXtime (a ^^^ b ^^^ c ^^^ d))) ^^^
      aesXtime (aesXtime (a ^^^ c)) ^^^ aesXtime (a ^^^ b) ^^^ a := by
  change (0#8 ^^^ aesXtime a ^^^ aesXtime (aesXtime a) ^^^ aesXtime (aesXtime (aesXtime a))) ^^^
    (0#8 ^^^ b ^^^ aesXtime b ^^^ aesXtime (aesXtime (aesXtime b))) ^^^
    (0#8 ^^^ c ^^^ aesXtime (aesXtime c) ^^^ aesXtime (aesXtime (aesXtime c))) ^^^
    (0#8 ^^^ d ^^^ aesXtime (aesXtime (aesXtime d))) = _
  simp only [BitVec.zero_xor, aesXtime_xor, BitVec.xor_assoc, xor_left_comm, BitVec.xor_comm,
    xor_cancel]

theorem unmixed_blend : aesMul (blend a b c d) 14 ^^^ aesMul (blend b c d a) 11 ^^^
    aesMul (blend c d a b) 13 ^^^ aesMul (blend d a b c) 9 = a := by
  rw [unmixed_row]
  simp only [blend, aesXtime_xor, BitVec.xor_assoc, xor_left_comm, xor_cancel,
    BitVec.xor_self, BitVec.xor_zero]

end Field

theorem mixed_eq (a : Fin 4 → Byte) : mixed a =
    ![blend (a 0) (a 1) (a 2) (a 3), blend (a 1) (a 2) (a 3) (a 0), blend (a 2) (a 3) (a 0) (a 1),
      blend (a 3) (a 0) (a 1) (a 2)] := by
  simp only [mixed, blend, BitVec.xor_assoc, xor_left_comm, BitVec.xor_comm]

theorem unmixed_mixed (a : Fin 4 → Byte) : unmixed (mixed a) = a := by
  have row (k : Fin 4) := unmixed_blend (a k) (a (k + 1)) (a (k + 2)) (a (k + 3))
  rw [mixed_eq]
  funext k
  fin_cases k
  · exact row 0
  · exact (xor_turn _ _ _ _).trans (row 1)
  · exact ((xor_turn _ _ _ _).trans (xor_turn _ _ _ _)).trans (row 2)
  · exact (xor_turn _ _ _ _).symm.trans (row 3)

section Rounds
variable (rk : Nat → Byte) (b s : Block)

theorem invMixColumns_mixColumns : invMixColumns (mixColumns s) = s := by
  funext i
  have columns : column (mixColumns s) i = mixed (column s i) := by
    funext k
    have quotient : (i / 4 * 4 + k : Nat) / 4 = i / 4 := by omega
    have rest : (i / 4 * 4 + k : Nat) % 4 = k := by omega
    have same : column s ⟨i / 4 * 4 + k, by omega⟩ = column s i := by
      funext j
      simp only [column, quotient]
    change mixed (column s ⟨i / 4 * 4 + k, _⟩) ⟨(i / 4 * 4 + k : Nat) % 4, _⟩ = _
    simp only [same, rest]
  rw [invMixColumns, columns, unmixed_mixed, column]
  congr 1
  exact Fin.ext (Nat.div_add_mod' _ _)

theorem invShiftRows_shiftRows : invShiftRows (shiftRows s) = s := by
  funext i
  fin_cases i <;> rfl

theorem addKey_addKey (r : Nat) : addKey rk r (addKey rk r s) = s := by
  funext i
  rw [addKey, addKey, BitVec.xor_assoc, BitVec.xor_self, BitVec.xor_zero]

theorem decryptRounds_encryptRounds {r : Nat} (inner : r < 10) :
    decryptRounds rk r (shiftRows fun i => aesSbox (encryptRounds rk b r i)) = b := by
  induction r with
  | zero =>
    simp only [decryptRounds, invShiftRows_shiftRows, aesInv_aesSbox, encryptRounds, addKey_addKey]
  | succ r ih =>
    simp only [decryptRounds, invShiftRows_shiftRows, aesInv_aesSbox]
    rw [encryptRounds, addKey_addKey, if_pos inner, invMixColumns_mixColumns]
    exact ih (by omega)

theorem decrypt_encrypt : aes128Decrypt rk (aes128Encrypt rk b) = b := by
  rw [aes128Decrypt, aes128Encrypt, encryptRounds, addKey_addKey]
  exact decryptRounds_encryptRounds rk b (by decide)

theorem encrypt_decrypt : aes128Encrypt rk (aes128Decrypt rk b) = b := by
  have finite : Finite Byte := Finite.of_injective BitVec.toFin fun _ _ => BitVec.eq_of_toFin_eq
  have back : Function.LeftInverse (aes128Decrypt rk) (aes128Encrypt rk) := decrypt_encrypt rk
  exact back.rightInverse_of_surjective (Finite.surjective_of_injective back.injective) b

end Rounds

/-! ### The standard -/

section Standard
variable (key b : Block) (s : Rijndael.State)

set_option maxRecDepth 4000 in
theorem aesXtime_eq : ∀ x : Byte, aesXtime x = Rijndael.times 2 x ∧
    aesXtime x ^^^ x = Rijndael.times 3 x := by
  decide

theorem inverse_unique {x y : Byte} (product : aesMul x y = 1) : inverse x = y := by
  have finite : Finite Byte := Finite.of_injective BitVec.toFin fun _ _ => BitVec.eq_of_toFin_eq
  obtain ⟨z, rfl⟩ := Finite.surjective_of_injective inverse_injective y
  have nonzero : z ≠ 0 := fun zero => mul_zero_ne x (by rw [zero] at product; exact product)
  exact congrArg inverse (mul_cancel product (inverse_mul z nonzero))

set_option maxRecDepth 4000 in
theorem sBox_inverse : ∀ x : Byte, affine (unaffine (Rijndael.sBox x)) = Rijndael.sBox x ∧
    (x ≠ 0 → aesMul x (unaffine (Rijndael.sBox x)) = 1) := by
  decide

theorem aesSbox_eq (x : Byte) : aesSbox x = Rijndael.sBox x := by
  by_cases zero : x = 0
  · rw [zero]
    rfl
  · obtain ⟨there, inverted⟩ := sBox_inverse x
    rw [aesSbox, inverse_unique (inverted zero), there]

theorem rcon_iterate : ∀ i < 10, Rijndael.rcon (i + 1) 0 = aesXtime^[i] 1 := by
  decide

/-- The first `4 + m` words of the schedule, and the constant of the next word that takes one. -/
def Scheduled (m : Nat) (keys : (Nat → Byte) × Byte) : Prop :=
  (∀ i k : Nat, i < 4 + m → (small : k < 4) →
    keys.1 (4 * i + k) = Rijndael.keyWords key i ⟨k, small⟩) ∧ keys.2 = aesXtime^[(m + 3) / 4] 1

variable {key} {keys : (Nat → Byte) × Byte} {m : Nat}

/-- The word that comes before the exclusive or with the word four places back. -/
theorem Scheduled.turned (sofar : Scheduled key m keys) (inside : m < 40) (k : Fin 4) :
    Rijndael.temp (m + 4) (Rijndael.keyWords key (m + 3)) k =
      if (16 + 4 * m) % 16 = 0 then
        if k = 0 then aesSbox (keys.1 (16 + 4 * m - 4 + 1)) ^^^ keys.2
        else aesSbox (keys.1 (16 + 4 * m - 4 + (k + 1) % 4))
      else keys.1 (16 + 4 * m - 4 + k) := by
  obtain ⟨given, constant⟩ := sofar
  have last (k : Nat) (small : k < 4) :
      keys.1 (16 + 4 * m - 4 + k) = Rijndael.keyWords key (m + 3) ⟨k, small⟩ := by
    rw [← given (m + 3) k (by omega) small]
    exact congrArg keys.1 (by omega)
  have first : (16 + 4 * m) % 16 = 0 ↔ (m + 4) % 4 = 0 := by omega
  rw [Rijndael.temp, if_congr first rfl rfl]
  split
  · next whole =>
      have round : (m + 4) / 4 = m / 4 + 1 ∧ (m + 3) / 4 = m / 4 := by omega
      have here := rcon_iterate (m / 4) (by omega)
      rw [round.1, constant, round.2, ← here, last 1 (by decide), last ((k + 1) % 4) (by omega)]
      simp only [aesSbox_eq]
      fin_cases k <;> simp [Rijndael.subWord, Rijndael.rotWord, Rijndael.rcon]
  · exact (last k k.isLt).symm

theorem Scheduled.next (sofar : Scheduled key m keys) (inside : m < 40) :
    Scheduled key (m + 1) (keyWord keys (16 + 4 * m)) := by
  have turned := sofar.turned inside
  obtain ⟨given, constant⟩ := sofar
  constructor
  · intro i k before small
    by_cases fresh : i = m + 4
    · have word : Rijndael.keyWords key i ⟨k, small⟩ =
          Rijndael.keyWords key m ⟨k, small⟩ ^^^
            Rijndael.temp (m + 4) (Rijndael.keyWords key (m + 3)) ⟨k, small⟩ := by
        rw [fresh, Rijndael.keyWords, dif_neg (by omega)]
        rfl
      have place : 4 * i + k - 16 = 4 * m + k ∧ 4 * i + k - (16 + 4 * m) = k := by omega
      rw [word, turned, ← given m k (by omega) small]
      simp only [keyWord]
      rw [if_pos (by omega), place.1, place.2]
      split
      · simp [Fin.ext_iff]
      · rfl
    · rw [← given i k (by omega) small]
      simp only [keyWord]
      rw [if_neg (by omega)]
  · by_cases whole : (16 + 4 * m) % 16 = 0
    · have count : (m + 1 + 3) / 4 = (m + 3) / 4 + 1 := by omega
      simp only [keyWord, if_pos whole]
      rw [count, Function.iterate_succ_apply', constant]
    · have count : (m + 1 + 3) / 4 = (m + 3) / 4 := by omega
      simp only [keyWord, if_neg whole]
      rw [count, constant]

theorem scheduled (key : Block) {m : Nat} (inside : m ≤ 40) :
    Scheduled key m ((List.range' 16 m 4).foldl keyWord
      (fun j => if small : j < 16 then key ⟨j, small⟩ else 0, 1)) := by
  induction m with
  | zero =>
    refine ⟨fun i k before small => ?_, rfl⟩
    rw [Rijndael.keyWords, dif_pos (by omega)]
    exact dif_pos (by omega)
  | succ m ih =>
    rw [List.range'_concat, List.foldl_append]
    exact (ih (by omega)).next (by omega)

theorem aes128Key_eq (key : Block) {i k : Nat} (inside : i < 44) (small : k < 4) :
    aes128Key key (4 * i + k) = Rijndael.keyWords key i ⟨k, small⟩ :=
  (scheduled key (m := 40) le_rfl).1 i k inside small

theorem addKey_stored (key : Block) {r : Nat} (inside : r ≤ 10) (s : Rijndael.State) :
    addKey (aes128Key key) r (Rijndael.stored s) =
      Rijndael.stored (Rijndael.addRoundKey key r s) := by
  funext i
  have place : r * 16 + i = 4 * (4 * r + i / 4) + i % 4 := by omega
  rw [addKey, place, aes128Key_eq key (by omega) (by omega)]
  rfl

theorem shiftRows_stored (s : Rijndael.State) :
    shiftRows (Rijndael.stored s) = Rijndael.stored (Rijndael.shiftRows s) := by
  funext i
  fin_cases i <;> rfl

theorem mixColumns_stored (s : Rijndael.State) :
    mixColumns (Rijndael.stored s) = Rijndael.stored (Rijndael.mixColumns s) := by
  have mixed (a b c d : Byte) : blend a b c d =
      Rijndael.times 2 a ^^^ Rijndael.times 3 b ^^^ c ^^^ d := by
    rw [blend, (aesXtime_eq a).1, (aesXtime_eq b).2]
  funext i
  rw [mixColumns, mixed_eq]
  simp only [mixed]
  fin_cases i <;> rfl

theorem sub_stored (s : Rijndael.State) :
    (fun i => aesSbox (Rijndael.stored s i)) = Rijndael.stored (Rijndael.subBytes s) :=
  funext fun _ => aesSbox_eq _

theorem stored_loaded (b : Block) : Rijndael.stored (Rijndael.loaded b) = b := by
  funext i
  exact congrArg b (Fin.ext (Nat.mod_add_div i 4))

theorem encryptRounds_eq (key b : Block) {r : Nat} (inside : r < 10) :
    encryptRounds (aes128Key key) b r =
      Rijndael.stored (Rijndael.rounds key (Rijndael.loaded b) r) := by
  induction r with
  | zero =>
    rw [encryptRounds, Rijndael.rounds, ← addKey_stored key (by decide), stored_loaded]
  | succ r ih =>
    rw [encryptRounds, if_pos inside, ih (by omega), sub_stored, shiftRows_stored,
      mixColumns_stored, addKey_stored key (by omega)]
    rfl

theorem aes128Encrypt_eq (key b : Block) :
    aes128Encrypt (aes128Key key) b = Rijndael.cipher key b := by
  rw [aes128Encrypt, encryptRounds, if_neg (by decide), encryptRounds_eq key b (by decide),
    sub_stored, shiftRows_stored, addKey_stored key le_rfl]
  rfl

end Standard


section Wrapping
variable (kek : Block) {n : Nat} {step : Nat × Nat}

theorem counted_eq (n j i : Nat) (iv : Half) :
    counted n j i iv = fun k => iv k ^^^ Rijndael.octets (n * j + i) k := by
  funext k
  have byte : (BitVec.ofNat 64 (n * j + i) >>> (56 - k.val * 8)).setWidth 8 =
      Rijndael.octets (n * j + i) k := by
    apply BitVec.eq_of_toNat_eq
    fin_cases k <;> simp [Rijndael.octets, Nat.shiftRight_eq_div_pow] <;> omega
  rw [counted, byte]

theorem counted_counted (n j i : Nat) (iv : Half) : counted n j i (counted n j i iv) = iv := by
  funext k
  rw [counted, counted, BitVec.xor_assoc, BitVec.xor_self, BitVec.xor_zero]

variable (s : Half × List Half)

theorem wrapStep_eq : wrapStep (Rijndael.cipher kek) n s step =
    let b := aes128Encrypt (aes128Key kek) (joined s.1 (s.2.getD (step.2 - 1) 0))
    (counted n step.1 step.2 (front b), s.2.set (step.2 - 1) (back b)) := by
  simp only [counted_eq, aes128Encrypt_eq]
  rfl

theorem set_getD {out : List Half} {i : Nat} (inside : i < out.length) (w : Half) :
    (out.set i w).getD i 0 = w ∧ (out.set i w).set i (out.getD i 0) = out := by
  simp [inside]

theorem unwrapStep_wrapStep (inside : step.2 - 1 < s.2.length) :
    unwrapStep (aes128Key kek) n (wrapStep (Rijndael.cipher kek) n s step) step = s := by
  obtain ⟨read, restored⟩ := set_getD inside
    (back (aes128Encrypt (aes128Key kek) (joined s.1 (s.2.getD (step.2 - 1) 0))))
  rw [wrapStep_eq]
  simp only [unwrapStep, counted_counted, read, Rijndael.joined_halves, decrypt_encrypt,
    Rijndael.front_joined, Rijndael.back_joined, restored]

theorem wrapStep_unwrapStep (inside : step.2 - 1 < s.2.length) :
    wrapStep (Rijndael.cipher kek) n (unwrapStep (aes128Key kek) n s step) step = s := by
  obtain ⟨read, restored⟩ := set_getD inside (back (aes128Decrypt (aes128Key kek)
    (joined (counted n step.1 step.2 s.1) (s.2.getD (step.2 - 1) 0))))
  rw [wrapStep_eq]
  simp only [unwrapStep, counted_counted, read, Rijndael.joined_halves, encrypt_decrypt,
    Rijndael.front_joined, Rijndael.back_joined, restored]

/-- Steps that can each be undone are undone in reverse. -/
theorem foldl_undo {apply undo : Half × List Half → Nat × Nat → Half × List Half}
    (keeps : ∀ s step, (apply s step).2.length = s.2.length)
    (undoes : ∀ step s, step.2 - 1 < s.2.length → undo (apply s step) step = s)
    {steps : List (Nat × Nat)} (s : Half × List Half)
    (inside : ∀ step ∈ steps, step.2 - 1 < s.2.length) :
    (steps.foldl apply s).2.length = s.2.length ∧
      steps.reverse.foldl undo (steps.foldl apply s) = s := by
  induction steps generalizing s with
  | nil => exact ⟨rfl, rfl⟩
  | cons step rest ih =>
    obtain ⟨here, later⟩ := List.forall_mem_cons.mp inside
    obtain ⟨size, back⟩ := ih (apply s step) (by rwa [keeps])
    rw [List.reverse_cons, List.foldl_append]
    exact ⟨size.trans (keeps s step), (congrArg (undo · step) back).trans (undoes step s here)⟩

theorem wrapSteps_reverse (n : Nat) : (wrapSteps n).reverse = unwrapSteps n := by
  simp only [wrapSteps, unwrapSteps, List.reverse_flatMap, Function.comp_def, List.map_reverse]

theorem unwrap_wrap (s : Half × List Half) :
    let wrapped := (wrapSteps s.2.length).foldl (wrapStep (Rijndael.cipher kek) s.2.length) s
    wrapped.2.length = s.2.length ∧
      (unwrapSteps s.2.length).foldl (unwrapStep (aes128Key kek) s.2.length) wrapped = s := by
  rw [← wrapSteps_reverse]
  exact foldl_undo (fun s step => List.length_set ..) (fun _ => unwrapStep_wrapStep kek) s
    fun _ => Rijndael.wrapSteps_inside

theorem wrap_unwrap (s : Half × List Half) :
    let plain := (unwrapSteps s.2.length).foldl (unwrapStep (aes128Key kek) s.2.length) s
    plain.2.length = s.2.length ∧
      (wrapSteps s.2.length).foldl (wrapStep (Rijndael.cipher kek) s.2.length) plain = s := by
  have listed : ∀ step ∈ unwrapSteps s.2.length, step.2 - 1 < s.2.length := by
    rw [← wrapSteps_reverse]
    exact fun _ listed => Rijndael.wrapSteps_inside (List.mem_reverse.mp listed)
  have turned : (unwrapSteps s.2.length).reverse = wrapSteps s.2.length := by
    rw [← wrapSteps_reverse, List.reverse_reverse]
  rw [← turned]
  exact foldl_undo (fun s step => List.length_set ..) (fun _ => wrapStep_unwrapStep kek) s listed

theorem aesKeyUnwrap_bytes (enough : 2 ≤ s.2.length) : aesKeyUnwrap kek (bytes (s.1 :: s.2)) =
      let result := (unwrapSteps s.2.length).foldl (unwrapStep (aes128Key kek) s.2.length) s
      if result.1 = fun _ => 0xa6 then some (bytes result.2) else none := by
  have length : (bytes (s.1 :: s.2)).length = 8 * (s.2.length + 1) := Rijndael.length_bytes _
  have count : (bytes (s.1 :: s.2)).length / 8 - 1 = s.2.length := by omega
  rw [aesKeyUnwrap, if_neg (by omega), count, Rijndael.words_bytes]
  simp only [funext_iff]
  rfl

end Wrapping

/-- Encryption is that of FIPS 197, decryption inverts it under every key, and the unwrapping
accepts exactly the wrappings of RFC 3394, and gives back what was wrapped. -/
theorem aes_inverts (kek : Block) :
    (∀ b, aes128Encrypt (aes128Key kek) b = Rijndael.cipher kek b ∧
      aes128Decrypt (aes128Key kek) (aes128Encrypt (aes128Key kek) b) = b) ∧
    (∀ plain, 16 ≤ plain.length → plain.length % 8 = 0 →
      aesKeyUnwrap kek (Rijndael.wrap (Rijndael.cipher kek) plain) = some plain) ∧
    ∀ input plain, aesKeyUnwrap kek input = some plain →
      input = Rijndael.wrap (Rijndael.cipher kek) plain := by
  refine ⟨fun b => ⟨aes128Encrypt_eq kek b, decrypt_encrypt _ b⟩, fun plain enough whole => ?_,
    fun input plain accepted => ?_⟩
  · have same := Rijndael.bytes_words plain whole
    have length := Rijndael.length_bytes (words plain)
    rw [same] at length
    obtain ⟨size, undone⟩ := unwrap_wrap kek (fun _ => 0xa6, words plain)
    rw [← same, Rijndael.wrap_bytes, aesKeyUnwrap_bytes kek _ (by dsimp only at size ⊢; omega),
      size, undone]
    exact if_pos rfl
  · by_cases bad : input.length < 24 ∨ input.length % 8 ≠ 0
    · rw [aesKeyUnwrap, if_pos bad] at accepted
      cases accepted
    have same := Rijndael.bytes_words input (by omega)
    have length := Rijndael.length_bytes (words input)
    rw [same] at length
    obtain ⟨iv, out, split⟩ :=
      List.exists_cons_of_length_pos (show 0 < (words input).length by omega)
    rw [split] at same length
    rw [List.length_cons] at length
    obtain ⟨size, undone⟩ := wrap_unwrap kek (iv, out)
    rw [← same, aesKeyUnwrap_bytes kek (iv, out) (by dsimp only; omega)] at accepted
    dsimp only at accepted
    split at accepted
    · next right =>
        cases accepted
        rw [Rijndael.wrap_bytes, size, ← right, undone]
        exact same.symm
    · cases accepted

/-- The key 00 01 .. 0F and the plaintext 00 11 .. FF. -/
theorem aes_inverts_counting :
    let kek : Block := fun i => BitVec.ofNat 8 i
    let plain := (List.range 16).map fun i => BitVec.ofNat 8 (17 * i)
    aesKeyUnwrap kek (Rijndael.wrap (Rijndael.cipher kek) plain) = some plain :=
  (aes_inverts fun i => BitVec.ofNat 8 i).2.1 _ (by decide) (by decide)

end Racccoon.Crypto
