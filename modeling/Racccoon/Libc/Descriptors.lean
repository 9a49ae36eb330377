import Racccoon.Libc.Files
import Mathlib.Data.List.Range

/-!
The descriptor table of the C library (`racccoon-libc/src/rc_posix.c`): each descriptor of a
file holds its path, its flags and an offset of its own. Beside it the descriptors as POSIX
has them: open file descriptions, shared by the descriptors that `dup` makes.
-/

namespace Racccoon.Libc

open Racccoon.FileServer Racccoon.Splices

variable {Path : Type} [DecidableEq Path]

def fdMax : Nat := 64
def zerosMax : Nat := 1024

structure OpenFlags where
  readable : Bool
  writable : Bool
  creat : Bool
  excl : Bool
  trunc : Bool
  append : Bool
  deriving DecidableEq

inductive Whence where
  | set
  | cur
  | endOfFile
  deriving DecidableEq

def Whence.base (off size : Nat) : Whence → Int
  | .set => 0
  | .cur => off
  | .endOfFile => size

inductive Outcome where
  | bytes (data : List Byte)
  | value (n : Int)
  deriving DecidableEq

inductive Fdent (Path : Type) where
  | free
  | console
  | file (path : Path) (flags : OpenFlags) (off : Nat)

structure Fdtab (Path : Type) where
  fdtab : Nat → Fdent Path
  files : Path → Option ServedFile

namespace Fdtab
variable (s : Fdtab Path) (server : Server)
variable (fd : Int)

def entry : Fdent Path := if 0 ≤ fd ∧ fd < fdMax then s.fdtab fd.toNat else .free

def isFree : Fdent Path → Bool
  | .free => true
  | _ => false

def fdAlloc : Option Nat := (List.range' 3 (fdMax - 3)).find? fun fd => isFree (s.fdtab fd)

def setFd (fd : Nat) (entry : Fdent Path) : Fdtab Path :=
  { s with fdtab := Function.update s.fdtab fd entry }

variable (path : Path)

def setFile (file : Option ServedFile) : Fdtab Path :=
  { s with files := Function.update s.files path file }

def sizeOf : Nat := (contentOf (s.files path)).length

variable (flags : OpenFlags)

/-- The end of `open`, with the size the file has then. -/
def openAt (size : Nat) : Fdtab Path × Outcome :=
  match s.fdAlloc with
  | none => (s, .value (-1))
  | some fd => (s.setFd fd (.file path flags (if flags.append then size else 0)), .value fd)

def openNew : Fdtab Path × Outcome :=
  let (made, w) := rcFsWriteAt server none [] 0
  if w < 0 then (s.setFile path made, .value (-1)) else (s.setFile path made).openAt path flags 0

def «open» : Fdtab Path × Outcome :=
  match s.files path with
  | none => if flags.creat then s.openNew server path flags else (s, .value (-1))
  | some file =>
    if flags.creat && flags.excl then (s, .value (-1))
    -- There is no truncate: the file is deleted and made anew.
    else if flags.trunc && flags.writable then s.openNew server path flags
    else s.openAt path flags file.bytes.length

def close : Fdtab Path × Outcome :=
  match s.entry fd with
  | .free => (s, .value (-1))
  -- 0, 1 and 2 stay open.
  | _ => (if 3 ≤ fd then s.setFd fd.toNat .free else s, .value 0)

def read (count : Nat) : Fdtab Path × Outcome :=
  match s.entry fd with
  | .file path flags off =>
    match readLoop server (s.files path) count count off with
    | none => (s, .value (-1))
    | some data => (s.setFd fd.toNat (.file path flags (off + data.length)), .bytes data)
  | _ => (s, .value (-1))

def write (data : List Byte) : Fdtab Path × Outcome :=
  match s.entry fd with
  | .file path flags off =>
    let (file, n) := writeLoop server data.length (s.files path) data off
    ((s.setFile path file).setFd fd.toNat (.file path flags (off + n.toNat)), .value n)
  | _ => (s, .value (-1))

def lseek (fd offset : Int) (whence : Whence) : Fdtab Path × Outcome :=
  match s.entry fd with
  | .file path flags off =>
    let np := (whence.base off (s.sizeOf path) + offset).bmod (2 ^ 64)
    if np < 0 then (s, .value (-1))
    else (s.setFd fd.toNat (.file path flags np.toNat), .value np)
  | _ => (s, .value (-1))

/-- `pread` and `pwrite` set the offset, transfer and put the offset back. -/
def pread (count : Nat) (offset : Int) : Fdtab Path × Outcome :=
  match s.entry fd with
  | .file path flags off =>
    if offset < 0 then (s, .value (-1))
    else
      let (after, r) :=
        (s.setFd fd.toNat (.file path flags offset.toNat)).read server fd count
      (after.setFd fd.toNat (.file path flags off), r)
  | _ => (s, .value (-1))

def pwrite (data : List Byte) (offset : Int) : Fdtab Path × Outcome :=
  match s.entry fd with
  | .file path flags off =>
    if offset < 0 then (s, .value (-1))
    else
      let (after, r) :=
        (s.setFd fd.toNat (.file path flags offset.toNat)).write server fd data
      (after.setFd fd.toNat (.file path flags off), r)
  | _ => (s, .value (-1))

def dup : Fdtab Path × Outcome :=
  match s.entry fd with
  | .free => (s, .value (-1))
  | entry =>
    match s.fdAlloc with
    | none => (s, .value (-1))
    | some nf => (s.setFd nf entry, .value nf)

def dup2 (oldfd newfd : Int) : Fdtab Path × Outcome :=
  match s.entry oldfd with
  | .free => (s, .value (-1))
  | entry =>
    if newfd < 0 ∨ fdMax ≤ newfd then (s, .value (-1))
    else if oldfd = newfd then (s, .value newfd)
    else (s.setFd newfd.toNat entry, .value newfd)

/-- The loop that appends zeros, from `size` up to `want`. -/
def growLoop (server : Server) (want : Nat) :
    Nat → Option ServedFile → Nat → Option ServedFile × Int
  | 0, file, _ => (file, 0)
  | rounds + 1, file, size =>
    if want ≤ size then (file, 0)
    else
      let n := min (want - size) zerosMax
      let (written, w) := rcFsWriteAt server file (List.replicate n 0) size
      if w ≠ n then (written, -1) else growLoop server want rounds written (size + n)

def ftruncate (fd length : Int) : Fdtab Path × Outcome :=
  match s.entry fd with
  | .file path _ _ =>
    if length < 0 then (s, .value (-1))
    else
      match s.files path with
      | none => (s, .value (-1))
      | some file =>
        let want := length.toNat
        if want = file.bytes.length then (s, .value 0)
        else if file.bytes.length < want then
          let (grown, r) := growLoop server want want (some file) file.bytes.length
          (s.setFile path grown, .value r)
        else
          match readLoop server (some file) want want 0 with
          | none => (s, .value (-1))
          | some keep =>
            if keep.length < want then (s, .value (-1))
            else
              -- The file is deleted and what it keeps is written back in one call.
              let (written, w) := rcFsWriteAt server none keep 0
              (s.setFile path written, .value (if w ≠ want then -1 else 0))
  | _ => (s, .value (-1))

end Fdtab

structure Description (Path : Type) where
  path : Path
  flags : OpenFlags
  off : Nat

inductive Slot where
  | free
  | console
  | opened (description : Nat)
  deriving DecidableEq

structure Posix (Path : Type) where
  slots : Nat → Slot
  descriptions : Nat → Option (Description Path)
  next : Nat
  files : Path → Option (List Byte)

namespace Posix
variable (p : Posix Path)
variable (fd : Int)

def slot : Slot := if 0 ≤ fd ∧ fd < fdMax then p.slots fd.toNat else .free

def described : Option (Nat × Description Path) :=
  match p.slot fd with
  | .opened id => (p.descriptions id).map fun d => (id, d)
  | _ => none

def lowest : Option Nat := (List.range fdMax).find? fun fd => p.slots fd = .free

def setSlot (fd : Nat) (slot : Slot) : Posix Path :=
  { p with slots := Function.update p.slots fd slot }

def setOff (id : Nat) (d : Description Path) (off : Nat) : Posix Path :=
  { p with descriptions := Function.update p.descriptions id (some { d with off := off }) }

def setFile (path : Path) (content : List Byte) : Posix Path :=
  { p with files := Function.update p.files path (some content) }

def content (path : Path) : List Byte := (p.files path).getD []

def «open» (path : Path) (flags : OpenFlags) : Posix Path × Outcome :=
  if p.files path = none ∧ flags.creat = false then (p, .value (-1))
  else if p.files path ≠ none ∧ flags.creat = true ∧ flags.excl = true then (p, .value (-1))
  else
    match p.lowest with
    | none => (p, .value (-1))
    | some fd =>
      let made := if p.files path = none ∨ flags.trunc = true ∧ flags.writable = true then
        p.setFile path [] else p
      ({ made with
          slots := Function.update made.slots fd (.opened made.next)
          descriptions := Function.update made.descriptions made.next (some ⟨path, flags, 0⟩)
          next := made.next + 1 }, .value fd)

def close : Posix Path × Outcome :=
  if p.slot fd = .free then (p, .value (-1)) else (p.setSlot fd.toNat .free, .value 0)

def read (count : Nat) : Posix Path × Outcome :=
  match p.described fd with
  | none => (p, .value (-1))
  | some (id, d) =>
    if d.flags.readable = false then (p, .value (-1))
    else
      let data := ((p.content d.path).drop d.off).take count
      (p.setOff id d (d.off + data.length), .bytes data)

/-- A write at a place stores the first `n` bytes; a hole in front of them reads as zeros. -/
def stored (content : List Byte) (place : Nat) (data : List Byte) (n : Nat) : List Byte :=
  if data.take n = [] then content
  else splice (content ++ List.replicate (place - content.length) 0) place (data.take n)

/-- A write may be short: the file server stores `n` bytes of the data. -/
def write (data : List Byte) (n : Nat) : Posix Path × Outcome :=
  match p.described fd with
  | none => (p, .value (-1))
  | some (id, d) =>
    if d.flags.writable = false then (p, .value (-1))
    else if data = [] then (p, .value 0)
    else
      let place := if d.flags.append then (p.content d.path).length else d.off
      let n := min n data.length
      ((p.setFile d.path (stored (p.content d.path) place data n)).setOff id d (place + n),
        .value n)

def lseek (fd offset : Int) (whence : Whence) : Posix Path × Outcome :=
  match p.described fd with
  | none => (p, .value (-1))
  | some (id, d) =>
    let target := whence.base d.off (p.content d.path).length + offset
    if target < 0 then (p, .value (-1)) else (p.setOff id d target.toNat, .value target)

def pread (count : Nat) (offset : Int) : Posix Path × Outcome :=
  match p.described fd with
  | none => (p, .value (-1))
  | some (_, d) =>
    if d.flags.readable = false ∨ offset < 0 then (p, .value (-1))
    else (p, .bytes (((p.content d.path).drop offset.toNat).take count))

def pwrite (data : List Byte) (offset : Int) (n : Nat) : Posix Path × Outcome :=
  match p.described fd with
  | none => (p, .value (-1))
  | some (_, d) =>
    if d.flags.writable = false ∨ offset < 0 then (p, .value (-1))
    else
      let n := min n data.length
      (p.setFile d.path (stored (p.content d.path) offset.toNat data n), .value n)

def dup : Posix Path × Outcome :=
  if p.slot fd = .free then (p, .value (-1))
  else
    match p.lowest with
    | none => (p, .value (-1))
    | some nf => (p.setSlot nf (p.slot fd), .value nf)

def dup2 (oldfd newfd : Int) : Posix Path × Outcome :=
  if p.slot oldfd = .free ∨ newfd < 0 ∨ fdMax ≤ newfd then (p, .value (-1))
  else (p.setSlot newfd.toNat (p.slot oldfd), .value newfd)

def ftruncate (fd length : Int) : Posix Path × Outcome :=
  match p.described fd with
  | none => (p, .value (-1))
  | some (_, d) =>
    if d.flags.writable = false ∨ length < 0 then (p, .value (-1))
    else
      let content := p.content d.path
      let want := length.toNat
      (p.setFile d.path (content.take want ++ List.replicate (want - content.length) 0),
        .value 0)

end Posix

end Racccoon.Libc
