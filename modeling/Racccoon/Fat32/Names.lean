import Mathlib.Data.BitVec
import Mathlib.Data.List.Range
import Mathlib.Data.List.TakeWhile

/-!
Names of the FAT32 backend: 11-byte short names, their display form, the aliases made
for long names, and the VFAT entries a long name is spread over. A slot is the 32 bytes
of a directory entry; a name is its bytes without the terminator.
-/

namespace Racccoon.Fat32

abbrev Byte := BitVec 8
abbrev Slot := Nat → Byte
abbrev Name := List Byte

/-- Eleven bytes, space-padded: eight of the base and three of the extension. -/
abbrev ShortName := List Byte

def dot : Byte := 0x2E
def space : Byte := 0x20
def tilde : Byte := 0x7E
def slash : Byte := 0x2F

def direntFreeRest : Byte := 0x00
def direntDeleted : Byte := 0xE5
def direntAttrLfn : Byte := 0x0F
def direntAttrVolume : Byte := 0x08
def direntAttrDirectory : Byte := 0x10
def direntAttrArchive : Byte := 0x20
def lfnNameMax : Nat := 128
def lfnCharsPerEntry : Nat := 13
def lfnMaxEntries : Nat := lfnNameMax / lfnCharsPerEntry

variable (slot : Slot)

def ushortAt (offset : Nat) : BitVec 16 := slot (offset + 1) ++ slot offset

def uintAt (offset : Nat) : BitVec 32 :=
  ushortAt slot (offset + 2) ++ ushortAt slot offset

def attrOf : Byte := slot 0x0B
def clusterOf : Nat := (ushortAt slot 0x14 ++ ushortAt slot 0x1A).toNat
def sizeOf : Nat := (uintAt slot 0x1C).toNat
def shortNameOf : ShortName := (List.range 11).map slot
def isDirectory : Bool := attrOf slot &&& direntAttrDirectory != 0
def isLfn : Bool := attrOf slot == direntAttrLfn
def isVolumeLabel : Bool := attrOf slot &&& direntAttrVolume != 0

/-- An entry of a file or directory: neither free, nor a piece of a long name, nor the
volume label. -/
def isLive : Bool :=
  slot 0 != direntFreeRest && slot 0 != direntDeleted && !isLfn slot && !isVolumeLabel slot

def isFree : Bool := slot 0 == direntFreeRest || slot 0 == direntDeleted

def upper (c : Byte) : Byte := if 0x61 ≤ c.toNat ∧ c.toNat ≤ 0x7A then c - 0x20 else c

def lower (c : Byte) : Byte := if 0x41 ≤ c.toNat ∧ c.toNat ≤ 0x5A then c + 0x20 else c

def pad (length : Nat) (text : List Byte) : List Byte :=
  text ++ List.replicate (length - text.length) space

/-- `fat32_name_to_8_3`: the first eight bytes before the first dot and the first three
behind it, whatever else the name holds. -/
def nameTo83 (input : Name) : ShortName :=
  let base := input.takeWhile (· != dot)
  let ext := (input.dropWhile (· != dot)).drop 1
  pad 8 ((base.take 8).map upper) ++ pad 3 ((ext.take 3).map upper)

def shortNameToDisplay (name11 : ShortName) : Name :=
  let base := (name11.take 8).takeWhile (· != space)
  let ext := (name11.drop 8).takeWhile (· != space)
  (if name11.getD 8 space = space then base else base ++ dot :: ext).takeWhile (· != 0)

def applyNtCaseFrom (flags : Byte) : Bool → Name → Name
  | _, [] => []
  | ext, c :: rest =>
    if c = dot then c :: applyNtCaseFrom flags true rest
    else
      let lowered := if ext then flags &&& 0x10 != 0 else flags &&& 0x08 != 0
      (if lowered then lower c else c) :: applyNtCaseFrom flags ext rest

def applyNtCase (name : Name) : Name := applyNtCaseFrom (slot 0x0C) false name

def nameEqCi (left right : Name) : Bool := left.map upper == right.map upper

def shortNameChecksum (name11 : ShortName) : Byte :=
  name11.foldl (fun sum c => (if sum &&& 1 != 0 then 0x80 else 0) + (sum >>> 1) + c) 0

/-- Where the `k`-th of the thirteen characters of a long-name entry stands. -/
def lfnCharOffset (k : Nat) : Nat :=
  if k < 5 then 0x01 + k * 2 else if k < 11 then 0x0E + (k - 5) * 2 else 0x1C + (k - 11) * 2

/-- One character: 0 for the terminator and the padding behind it, `none` for a
character outside ASCII. -/
def lfnChar (k : Nat) : Option Byte :=
  let v := ushortAt slot (lfnCharOffset k)
  if v = 0 ∨ v = 0xFFFF then some 0
  else if v.toNat > 0x7E then none
  else some (v.setWidth 8)

def lfnEntryChars : Option (List Byte) :=
  (List.range lfnCharsPerEntry).mapM (lfnChar slot)

structure LfnState where
  buf : Nat → Byte
  expectedSeq : Int
  checksum : Byte
  valid : Bool

def LfnState.start : LfnState := ⟨fun _ => 0, 0, 0, false⟩

/-- Thirteen characters written at chunk `seq`. The chunk before the first, which a
stray entry of sequence 0 can ask for, lies outside the buffer and is left out. -/
def putChars (buf : Nat → Byte) (seq : Int) (chars : List Byte) : Nat → Byte := fun position =>
  let first := (seq - 1) * lfnCharsPerEntry
  if first ≤ position ∧ position < first + lfnCharsPerEntry then
    chars.getD (position - first).toNat 0
  else buf position

variable (state : LfnState)

def lfnFeed : LfnState :=
  let rawSeq := slot 0x00
  let seq : Int := (rawSeq &&& 0x1F).toNat
  if rawSeq = direntDeleted then { state with valid := false }
  else if rawSeq &&& 0x40 != 0 then
    if seq < 1 ∨ seq > lfnMaxEntries then { state with valid := false }
    else
      match lfnEntryChars slot with
      | none => { state with valid := false }
      | some chars => ⟨putChars (fun _ => 0) seq chars, seq - 1, slot 0x0D, true⟩
  else if !state.valid ∨ seq ≠ state.expectedSeq ∨ slot 0x0D ≠ state.checksum then
    { state with valid := false }
  else
    match lfnEntryChars slot with
    | none => { state with valid := false }
    | some chars =>
      { state with buf := putChars state.buf seq chars, expectedSeq := seq - 1 }

/-- The long name collected in front of `slot`, if the chain is whole and its checksum
is that of the entry's short name. -/
def longNameOf : Option Name :=
  if state.valid && state.expectedSeq == 0 &&
      state.checksum == shortNameChecksum (shortNameOf slot) then
    some (((List.range (lfnNameMax - 1)).map state.buf).takeWhile (· != 0))
  else none

def lfnFinish : Name :=
  (longNameOf slot state).getD (applyNtCase slot (shortNameToDisplay (shortNameOf slot)))

/-- The decimal digits of `n`, which has at most `width` of them. -/
def decimal : Nat → Nat → List Byte
  | 0, _ => []
  | width + 1, n =>
    if n = 0 then [] else decimal width (n / 10) ++ [0x30 + BitVec.ofNat 8 (n % 10)]

def aliasTailMax : Nat := 999

/-- The candidate `base~tail` of `fat32_prepare_new_entry`. -/
def aliasCandidate (plain : ShortName) (tail : Nat) : ShortName :=
  let digits := decimal 4 tail
  let baseChars := if 6 - digits.length < 1 then 1 else 6 - digits.length
  let stem := (plain.take baseChars).takeWhile (· != space) ++ tilde :: digits
  pad 8 stem ++ plain.drop 8

variable (rawName : Name)

def isLiteral : Bool := rawName == shortNameToDisplay (nameTo83 rawName)

def lfnEntriesNeeded : Nat :=
  let needed := (rawName.length + lfnCharsPerEntry) / lfnCharsPerEntry
  if needed < 1 then 1 else needed

def lfnUnit (index : Nat) : BitVec 16 :=
  if index < rawName.length then (rawName.getD index 0).setWidth 16
  else if index = rawName.length then 0
  else 0xFFFF

/-- The long-name entry `seq` of `needed`, written over `slot`. -/
def lfnEntry (needed seq : Nat) (checksum : Byte) (slot : Slot) : Slot :=
  fun offset =>
    if offset = 0x00 then
      if seq = needed then BitVec.ofNat 8 seq ||| 0x40 else BitVec.ofNat 8 seq
    else if offset = 0x0B then direntAttrLfn
    else if offset = 0x0C then 0
    else if offset = 0x0D then checksum
    else if offset = 0x1A ∨ offset = 0x1B then 0
    else
      match (List.range lfnCharsPerEntry).find? fun k =>
          offset == lfnCharOffset k || offset == lfnCharOffset k + 1 with
      | some k =>
        let unit := lfnUnit rawName ((seq - 1) * lfnCharsPerEntry + k)
        if offset = lfnCharOffset k then unit.setWidth 8 else (unit >>> 8).setWidth 8
      | none => slot offset

/-- The short entry that `fat32_create_file`, `fat32_mkdir` and `fat32_rename` write. -/
def shortEntry (name11 : ShortName) (attr : Byte) (cluster size : Nat) (slot : Slot) : Slot :=
  fun offset =>
    if offset < 11 then name11.getD offset space
    else if offset = 0x0B then attr
    else if offset < 0x14 then 0
    else if offset < 0x16 then BitVec.ofNat 8 (cluster >>> (16 + 8 * (offset - 0x14)))
    else if offset < 0x1A then slot offset
    else if offset < 0x1C then BitVec.ofNat 8 (cluster >>> (8 * (offset - 0x1A)))
    else if offset < 0x20 then BitVec.ofNat 8 (size >>> (8 * (offset - 0x1C)))
    else slot offset

/-- A `.` or `..` entry of a new directory, in a zeroed cluster. -/
def dotEntry (dots : Name) (cluster : Nat) : Slot :=
  shortEntry (pad 11 dots) direntAttrDirectory cluster 0 fun _ => 0

def isDot : Bool := slot 0 == dot && slot 1 == space

def isDotdot : Bool := slot 0 == dot && slot 1 == dot && slot 2 == space

def markDeleted : Slot := Function.update slot 0 direntDeleted

def setSize (size : Nat) (slot : Slot) : Slot := fun offset =>
  if 0x1C ≤ offset ∧ offset < 0x20 then BitVec.ofNat 8 (size >>> (8 * (offset - 0x1C)))
  else slot offset

def setCluster (cluster : Nat) (slot : Slot) : Slot := fun offset =>
  if 0x14 ≤ offset ∧ offset < 0x16 then
    BitVec.ofNat 8 (cluster >>> (16 + 8 * (offset - 0x14)))
  else if 0x1A ≤ offset ∧ offset < 0x1C then
    BitVec.ofNat 8 (cluster >>> (8 * (offset - 0x1A)))
  else slot offset

end Racccoon.Fat32
