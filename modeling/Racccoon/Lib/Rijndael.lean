import Mathlib.Data.BitVec
import Mathlib.Data.Fin.VecNotation
import Mathlib.Tactic.FinCases

/-!
AES-128 as FIPS 197 writes it: bytes as polynomials modulo `x^8 + x^4 + x^3 + x + 1`, the
substitution table, the state as a matrix, the key schedule by words; and the key wrapping of
RFC 3394 over any cipher of sixteen bytes.
-/

namespace Racccoon.Rijndael

abbrev Byte := BitVec 8
abbrev Block := Fin 16 → Byte
abbrev Word := Fin 4 → Byte

def substitutes : List Nat :=
  [0x63, 0x7c, 0x77, 0x7b, 0xf2, 0x6b, 0x6f, 0xc5, 0x30, 0x01, 0x67, 0x2b, 0xfe, 0xd7, 0xab, 0x76,
   0xca, 0x82, 0xc9, 0x7d, 0xfa, 0x59, 0x47, 0xf0, 0xad, 0xd4, 0xa2, 0xaf, 0x9c, 0xa4, 0x72, 0xc0,
   0xb7, 0xfd, 0x93, 0x26, 0x36, 0x3f, 0xf7, 0xcc, 0x34, 0xa5, 0xe5, 0xf1, 0x71, 0xd8, 0x31, 0x15,
   0x04, 0xc7, 0x23, 0xc3, 0x18, 0x96, 0x05, 0x9a, 0x07, 0x12, 0x80, 0xe2, 0xeb, 0x27, 0xb2, 0x75,
   0x09, 0x83, 0x2c, 0x1a, 0x1b, 0x6e, 0x5a, 0xa0, 0x52, 0x3b, 0xd6, 0xb3, 0x29, 0xe3, 0x2f, 0x84,
   0x53, 0xd1, 0x00, 0xed, 0x20, 0xfc, 0xb1, 0x5b, 0x6a, 0xcb, 0xbe, 0x39, 0x4a, 0x4c, 0x58, 0xcf,
   0xd0, 0xef, 0xaa, 0xfb, 0x43, 0x4d, 0x33, 0x85, 0x45, 0xf9, 0x02, 0x7f, 0x50, 0x3c, 0x9f, 0xa8,
   0x51, 0xa3, 0x40, 0x8f, 0x92, 0x9d, 0x38, 0xf5, 0xbc, 0xb6, 0xda, 0x21, 0x10, 0xff, 0xf3, 0xd2,
   0xcd, 0x0c, 0x13, 0xec, 0x5f, 0x97, 0x44, 0x17, 0xc4, 0xa7, 0x7e, 0x3d, 0x64, 0x5d, 0x19, 0x73,
   0x60, 0x81, 0x4f, 0xdc, 0x22, 0x2a, 0x90, 0x88, 0x46, 0xee, 0xb8, 0x14, 0xde, 0x5e, 0x0b, 0xdb,
   0xe0, 0x32, 0x3a, 0x0a, 0x49, 0x06, 0x24, 0x5c, 0xc2, 0xd3, 0xac, 0x62, 0x91, 0x95, 0xe4, 0x79,
   0xe7, 0xc8, 0x37, 0x6d, 0x8d, 0xd5, 0x4e, 0xa9, 0x6c, 0x56, 0xf4, 0xea, 0x65, 0x7a, 0xae, 0x08,
   0xba, 0x78, 0x25, 0x2e, 0x1c, 0xa6, 0xb4, 0xc6, 0xe8, 0xdd, 0x74, 0x1f, 0x4b, 0xbd, 0x8b, 0x8a,
   0x70, 0x3e, 0xb5, 0x66, 0x48, 0x03, 0xf6, 0x0e, 0x61, 0x35, 0x57, 0xb9, 0x86, 0xc1, 0x1d, 0x9e,
   0xe1, 0xf8, 0x98, 0x11, 0x69, 0xd9, 0x8e, 0x94, 0x9b, 0x1e, 0x87, 0xe9, 0xce, 0x55, 0x28, 0xdf,
   0x8c, 0xa1, 0x89, 0x0d, 0xbf, 0xe6, 0x42, 0x68, 0x41, 0x99, 0x2d, 0x0f, 0xb0, 0x54, 0xbb, 0x16]

def sBox (x : Byte) : Byte := BitVec.ofNat 8 (substitutes.getD x.toNat 0)

/-- The product of two polynomials, before the reduction. -/
def product (a b : Byte) : BitVec 16 :=
  (List.range 8).foldl (fun p k => if b.getLsbD k then p ^^^ a.setWidth 16 <<< k else p) 0

def reduced (p : BitVec 16) : Byte :=
  ([6, 5, 4, 3, 2, 1, 0].foldl (fun p k => if p.getLsbD (8 + k) then p ^^^ 0x11b#16 <<< k else p)
    p).setWidth 8

def times (a b : Byte) : Byte := reduced (product a b)

/-- Rows and columns are counted in circles of four. -/
local instance circle : NeZero 4 := ⟨Nat.succ_ne_zero 3⟩

/-- The element at row `r` and column `c`. -/
abbrev State := Fin 4 → Fin 4 → Byte

def loaded (b : Block) : State := fun r c => b ⟨r + 4 * c, by omega⟩

def stored (s : State) : Block := fun i => s ⟨i % 4, by omega⟩ ⟨i / 4, by omega⟩

def subBytes (s : State) : State := fun r c => sBox (s r c)

def shiftRows (s : State) : State := fun r c => s r (c + r)

def mixColumns (s : State) : State := fun r c =>
  times 2 (s r c) ^^^ times 3 (s (r + 1) c) ^^^ s (r + 2) c ^^^ s (r + 3) c

def subWord (w : Word) : Word := fun k => sBox (w k)

def rotWord (w : Word) : Word := fun k => w (k + 1)

def rcon (i : Nat) : Word :=
  ![[0x01, 0x02, 0x04, 0x08, 0x10, 0x20, 0x40, 0x80, 0x1b, 0x36].getD (i - 1) 0, 0, 0, 0]

def temp (i : Nat) (last : Word) : Word :=
  if i % 4 = 0 then fun k => subWord (rotWord last) k ^^^ rcon (i / 4) k else last

/-- Word `i` of the key schedule. -/
def keyWords (key : Block) (i : Nat) : Word :=
  if small : i < 4 then fun k => key ⟨4 * i + k, by omega⟩
  else fun k => keyWords key (i - 4) k ^^^ temp i (keyWords key (i - 1)) k

def addRoundKey (key : Block) (round : Nat) (s : State) : State :=
  fun r c => s r c ^^^ keyWords key (4 * round + c) r

def rounds (key : Block) (s : State) : Nat → State
  | 0 => addRoundKey key 0 s
  | r + 1 => addRoundKey key (r + 1) (mixColumns (shiftRows (subBytes (rounds key s r))))

def cipher (key b : Block) : Block :=
  stored (addRoundKey key 10 (shiftRows (subBytes (rounds key (loaded b) 9))))

/-! ### Key wrapping -/

abbrev Half := Fin 8 → Byte

def joined (a w : Half) : Block := Fin.append a w

def front (b : Block) : Half := fun k => b (Fin.castAdd 8 k)

def back (b : Block) : Half := fun k => b (Fin.natAdd 8 k)

/-- The eight-byte words of a buffer. -/
def words : List Byte → List Half
  | a :: b :: c :: d :: e :: f :: g :: h :: rest => ![a, b, c, d, e, f, g, h] :: words rest
  | _ => []

def bytes (halves : List Half) : List Byte := halves.flatMap List.ofFn

/-- The eight bytes of `t`, the highest first. -/
def octets (t : Nat) : Half := fun k => BitVec.ofNat 8 (t / 256 ^ (7 - k.val))

variable (encrypt : Block → Block)

/-- `A = MSB(64, B) ^ t` and `R[i] = LSB(64, B)` for `B = AES(K, A | R[i])`; `R[1]` is the first. -/
def wrapStep (n : Nat) (s : Half × List Half) (step : Nat × Nat) : Half × List Half :=
  let (j, i) := step
  let b := encrypt (joined s.1 (s.2.getD (i - 1) 0))
  (fun k => front b k ^^^ octets (n * j + i) k, s.2.set (i - 1) (back b))

/-- `j` from 0 to 5, and `i` from 1 to `n` for each. -/
def wrapSteps (n : Nat) : List (Nat × Nat) :=
  (List.range 6).flatMap fun j => (List.range' 1 n).map fun i => (j, i)

def wrap (plain : List Byte) : List Byte :=
  let n := plain.length / 8
  let (a, r) := (wrapSteps n).foldl (wrapStep encrypt n) (fun _ => 0xa6, words plain)
  bytes (a :: r)

theorem words_bytes (halves : List Half) : words (bytes halves) = halves := by
  induction halves with
  | nil => rfl
  | cons first rest ih =>
    refine congrArg₂ List.cons ?_ ih
    funext k
    fin_cases k <;> rfl

theorem bytes_words (buffer : List Byte) (whole : buffer.length % 8 = 0) :
    bytes (words buffer) = buffer := by
  induction buffer using words.induct with
  | case1 a b c d e f g h rest ih =>
    have tail := ih (by simp only [List.length_cons] at whole; omega)
    exact congrArg (fun rest => [a, b, c, d, e, f, g, h] ++ rest) tail
  | case2 rest short =>
    match rest with
    | [] => rfl
    | a :: b :: c :: d :: e :: f :: g :: h :: rest => exact absurd rfl (short a b c d e f g h rest)
    | [_] | [_, _] | [_, _, _] | [_, _, _, _] | [_, _, _, _, _] | [_, _, _, _, _, _]
    | [_, _, _, _, _, _, _] => simp at whole

theorem length_bytes (halves : List Half) : (bytes halves).length = 8 * halves.length := by
  simp [bytes, Nat.mul_comm]

theorem joined_halves (b : Block) : joined (front b) (back b) = b :=
  Fin.append_castAdd_natAdd (m := 8)

theorem front_joined (a w : Half) : front (joined a w) = a := funext (Fin.append_left a w)

theorem back_joined (a w : Half) : back (joined a w) = w := funext (Fin.append_right a w)

theorem wrapSteps_inside {n : Nat} {step : Nat × Nat} (listed : step ∈ wrapSteps n) :
    step.2 - 1 < n := by
  obtain ⟨j, -, mem⟩ := List.mem_flatMap.mp listed
  obtain ⟨i, inside, rfl⟩ := List.mem_map.mp mem
  have range := List.mem_range'_1.mp inside
  omega

theorem wrap_bytes (plain : List Half) : wrap encrypt (bytes plain) =
    let s := (wrapSteps plain.length).foldl (wrapStep encrypt plain.length) (fun _ => 0xa6, plain)
    bytes (s.1 :: s.2) := by
  rw [wrap, words_bytes, length_bytes, Nat.mul_div_cancel_left _ (by decide)]

end Racccoon.Rijndael
