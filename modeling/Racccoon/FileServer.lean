import Mathlib.Algebra.GroupWithZero.Nat
import Racccoon.Lib.Splices

/-!
A file server as its clients see it: each file is an array of bytes, and a write may be
refused or take only its front.
-/

namespace Racccoon.FileServer

open Racccoon.Splices

abbrev Byte := BitVec 8

/-- Sizes and offsets of the file protocol are 32 bit wide; the last offset stands for the
end of the file. -/
def fsOffsetAppend : Nat := 0xFFFFFFFF

structure ServedFile where
  bytes : List Byte
  fits : bytes.length ≤ fsOffsetAppend

inductive WriteAnswer where
  | takes (count : Nat)
  | refuses
  deriving DecidableEq

variable (file : Option ServedFile)

def contentOf : List Byte := (file.map ServedFile.bytes).getD []

theorem contentOf_le : (contentOf file).length ≤ fsOffsetAppend := by
  cases file with
  | none => simp [contentOf]
  | some file => exact file.fits

theorem splice_fits {content : List Byte} {place : Nat} (bytes : List Byte)
    (small : content.length ≤ fsOffsetAppend) (inside : place ≤ content.length) :
    (splice content place (bytes.take (fsOffsetAppend - place))).length ≤ fsOffsetAppend := by
  rw [length_splice inside]
  simp only [List.length_take]
  omega

/-- `FS_WRITE_AT`: no holes, and a file that is not there is created at offset 0. -/
def serverWriteAt (data : List Byte) (offset : Nat) : WriteAnswer → Option ServedFile × Int
  | .refuses => (file, -1)
  | .takes count =>
    let old := contentOf file
    let place := if offset = fsOffsetAppend then old.length else offset
    if inside : place ≤ old.length then
      let kept := (data.take count).take (fsOffsetAppend - place)
      (some ⟨splice old place kept, splice_fits _ (contentOf_le file) inside⟩, kept.length)
    else (file, -1)

end Racccoon.FileServer
