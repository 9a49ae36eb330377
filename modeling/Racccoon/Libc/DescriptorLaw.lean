import Mathlib.Algebra.Group.Int.Defs
import Racccoon.Libc.Descriptors
import Racccoon.Lib.Run
import Mathlib.Data.List.Find

/-!
The descriptor table beside the descriptors of POSIX, through any sequence of calls: as long
as no call meets what the table cannot express, both return the same and keep the same files
and offsets.
-/

namespace Racccoon.Libc
open Function (update update_self update_of_ne)

open Racccoon.Run Racccoon.FileServer Racccoon.Splices

variable {Path : Type}

inductive Action (Path : Type) where
  | opens (path : Path) (flags : OpenFlags)
  | close (fd : Int)
  | read (fd : Int) (count : Nat)
  | write (fd : Int) (data : List Byte)
  | lseek (fd offset : Int) (whence : Whence)
  | pread (fd : Int) (count : Nat) (offset : Int)
  | pwrite (fd : Int) (data : List Byte) (offset : Int)
  | dup (fd : Int)
  | dup2 (oldfd newfd : Int)
  | ftruncate (fd length : Int)

structure Call (Path : Type) where
  action : Action Path
  server : Server

structure Paired (Path : Type) where
  libc : Fdtab Path
  posix : Posix Path

namespace Paired
variable (s : Paired Path)
variable (fd : Int)

def isConsole : Bool :=
  match s.libc.entry fd with
  | .console => true
  | _ => false

def onConsole : Action Path → Bool
  | .opens _ _ => false
  | .close fd | .read fd _ | .write fd _ | .lseek fd _ _ | .pread fd _ _ | .pwrite fd _ _
  | .dup fd | .dup2 fd _ | .ftruncate fd _ => s.isConsole fd

def Alone : Prop :=
  ∀ other : Nat, other < fdMax → s.posix.slots other = s.posix.slot fd → (other : Int) = fd

/-- A file that is made or emptied gets a descriptor, and a file with something in it is not
opened to append. -/
def OpenFits (path : Path) (flags : OpenFlags) : Prop :=
  match s.libc.files path with
  | none => flags.creat = true → s.libc.fdAlloc ≠ none
  | some file =>
    (flags.creat && flags.excl) = true ∨
      if flags.trunc && flags.writable then s.libc.fdAlloc ≠ none
      else s.libc.fdAlloc = none ∨ flags.append = false ∨ file.bytes = []

def ReadFits (count : Nat) : Prop :=
  ∀ path flags off, s.libc.entry fd = .file path flags off →
    flags.readable = true ∧ count < 2 ^ 32 ∧ off < 2 ^ 32 ∧
      (s.Alone fd ∨ count = 0 ∨ s.libc.sizeOf path ≤ off)

/-- No hole, no offset that does not fit, and an offset of `O_APPEND` that is the end. -/
def WriteFits (data : List Byte) : Prop :=
  ∀ path flags off, s.libc.entry fd = .file path flags off →
    flags.writable = true ∧ (data = [] ∨
      (flags.append = true → off = s.libc.sizeOf path) ∧ off ≤ s.libc.sizeOf path ∧
        off + data.length < fsOffsetAppend ∧ s.Alone fd)

def LseekFits (fd offset : Int) (whence : Whence) : Prop :=
  ∀ path flags off, s.libc.entry fd = .file path flags off →
    -2 ^ 63 ≤ whence.base off (s.libc.sizeOf path) + offset ∧
      whence.base off (s.libc.sizeOf path) + offset < 2 ^ 63 ∧
      (s.Alone fd ∨ whence.base off (s.libc.sizeOf path) + offset < 0 ∨
        whence.base off (s.libc.sizeOf path) + offset = off)

def PreadFits (count : Nat) (offset : Int) : Prop :=
  ∀ path flags off, s.libc.entry fd = .file path flags off →
    flags.readable = true ∧ (offset < 0 ∨ count < 2 ^ 32 ∧ offset < 2 ^ 32)

def PwriteFits (data : List Byte) (offset : Int) : Prop :=
  ∀ path flags off, s.libc.entry fd = .file path flags off →
    flags.writable = true ∧ (offset < 0 ∨ data = [] ∨
      offset ≤ s.libc.sizeOf path ∧ offset + data.length < fsOffsetAppend)

/-- What a cut file keeps is written back in one call, and the server takes all of a call. -/
def FtruncateFits (server : Server) (fd length : Int) : Prop :=
  ∀ path flags off, s.libc.entry fd = .file path flags off →
    flags.writable = true ∧ (length < 0 ∨ length = s.libc.sizeOf path ∨
      (s.libc.sizeOf path < length ∧ length < fsOffsetAppend ∧
        ∀ place, s.libc.sizeOf path ≤ place →
          min (length.toNat - place) zerosMax ≤ server.accept place) ∨
      (length < s.libc.sizeOf path ∧ length ≤ rcFsWriteAtMaxchunk ∧
        length ≤ server.accept 0))

def Fits (call : Call Path) : Prop :=
  match call.action with
  | .opens path flags => s.OpenFits path flags
  | .close fd => 3 ≤ fd ∨ Fdtab.isFree (s.libc.entry fd) = true
  | .read fd count => s.ReadFits fd count
  | .write fd data => s.WriteFits fd data
  | .lseek fd offset whence => s.LseekFits fd offset whence
  | .pread fd count offset => s.PreadFits fd count offset
  | .pwrite fd data offset => s.PwriteFits fd data offset
  | .dup _ => True
  | .dup2 _ _ => True
  | .ftruncate fd length => s.FtruncateFits call.server fd length

def Shown (p : Posix Path) : Fdent Path → Slot → Prop
  | .free, .free => True
  | .console, .console => True
  | .file path flags off, .opened id => p.descriptions id = some ⟨path, flags, off⟩
  | _, _ => False

structure Agree (s : Paired Path) : Prop where
  files : ∀ path, (s.libc.files path).map ServedFile.bytes = s.posix.files path
  shown : ∀ fd < fdMax, Shown s.posix (s.libc.fdtab fd) (s.posix.slots fd)
  standard : ∀ fd < 3, s.posix.slots fd ≠ .free
  there : ∀ fd < fdMax, ∀ path flags off, s.libc.fdtab fd = .file path flags off →
    s.libc.files path ≠ none
  fresh : ∀ fd < fdMax, ∀ id, s.posix.slots fd = .opened id → id < s.posix.next

variable {s} {fd : Int} {path : Path} {flags : OpenFlags} {off id : Nat} {file : ServedFile}

/-- A descriptor of a file, as both have it. -/
structure Held (s : Paired Path) (fd : Int) (path : Path) (flags : OpenFlags) (off id : Nat)
    (file : ServedFile) : Prop where
  inside : 0 ≤ fd ∧ fd < fdMax
  entry : s.libc.entry fd = .file path flags off
  slot : s.posix.slot fd = .opened id
  description : s.posix.descriptions id = some ⟨path, flags, off⟩
  file : s.libc.files path = some file

theorem Agree.cases (agree : Agree s) (fd : Int) :
    (s.libc.entry fd = .free ∧ s.posix.slot fd = .free) ∨
      (s.libc.entry fd = .console ∧ s.posix.slot fd = .console ∧ 0 ≤ fd ∧ fd < fdMax) ∨
      ∃ path flags off id file, Held s fd path flags off id file := by
  by_cases inside : 0 ≤ fd ∧ fd < fdMax
  · have small : fd.toNat < fdMax := by omega
    have entryIs : s.libc.entry fd = s.libc.fdtab fd.toNat := if_pos inside
    have slotIs : s.posix.slot fd = s.posix.slots fd.toNat := if_pos inside
    have shown := agree.shown fd.toNat small
    cases entry : s.libc.fdtab fd.toNat with
    | free =>
      cases slot : s.posix.slots fd.toNat with
      | free => exact .inl ⟨entryIs.trans entry, slotIs.trans slot⟩
      | console => simp [Shown, entry, slot] at shown
      | opened id => simp [Shown, entry, slot] at shown
    | console =>
      cases slot : s.posix.slots fd.toNat with
      | free => simp [Shown, entry, slot] at shown
      | console => exact .inr (.inl ⟨entryIs.trans entry, slotIs.trans slot, inside⟩)
      | opened id => simp [Shown, entry, slot] at shown
    | file path flags off =>
      cases slot : s.posix.slots fd.toNat with
      | free => simp [Shown, entry, slot] at shown
      | console => simp [Shown, entry, slot] at shown
      | opened id =>
        rw [entry, slot] at shown
        obtain ⟨file, is⟩ := Option.ne_none_iff_exists'.1
          (agree.there fd.toNat small path flags off entry)
        exact .inr (.inr ⟨path, flags, off, id, file, inside, entryIs.trans entry,
          slotIs.trans slot, shown, is⟩)
  · exact .inl ⟨if_neg inside, if_neg inside⟩

namespace Held

section
variable (held : Held s fd path flags off id file)
include held

theorem described : s.posix.described fd = some (id, ⟨path, flags, off⟩) := by
  simp [Posix.described, held.slot, held.description]

theorem content (agree : Agree s) : s.posix.content path = file.bytes := by
  simp [Posix.content, ← agree.files, held.file]

theorem sizeOf : s.libc.sizeOf path = file.bytes.length := by
  simp [Fdtab.sizeOf, contentOf, held.file]

end

end Held

/-- An offset that only one descriptor has moves in both. -/
theorem Agree.moved (agree : Agree s) (held : Held s fd path flags off id file)
    (alone : s.Alone fd) (off' : Nat) :
    Agree ⟨s.libc.setFd fd.toNat (.file path flags off'),
      s.posix.setOff id ⟨path, flags, off⟩ off'⟩ := by
  have slotIs : s.posix.slots fd.toNat = .opened id := by
    rw [← held.slot, Posix.slot, if_pos held.inside]
  refine ⟨agree.files, ?_, agree.standard, ?_, agree.fresh⟩
  · intro other inside
    by_cases same : other = fd.toNat
    · subst same
      simp [Fdtab.setFd, Posix.setOff, slotIs, Shown]
    · have shown := agree.shown other inside
      simp only [Fdtab.setFd, Posix.setOff, update_of_ne same]
      cases entry : s.libc.fdtab other <;> cases slot : s.posix.slots other <;>
        simp only [Shown, entry, slot] at shown ⊢
      rename_i path' flags' off'' id'
      have apart : id' ≠ id := by
        rintro rfl
        have := alone other inside (slot.trans held.slot.symm)
        omega
      rwa [update_of_ne apart]
  · intro other inside path' flags' off'' entry
    by_cases same : other = fd.toNat
    · subst same
      simp only [Fdtab.setFd, update_self] at entry
      obtain ⟨rfl, -, -⟩ := entry
      simp [Fdtab.setFd, held.file]
    · simp only [Fdtab.setFd, update_of_ne same] at entry
      exact agree.there other inside path' flags' off'' entry

theorem Agree.stored [DecidableEq Path] (agree : Agree s) (path : Path) (file : ServedFile) :
    Agree ⟨s.libc.setFile path (some file), s.posix.setFile path file.bytes⟩ := by
  refine ⟨fun other => ?_, agree.shown, agree.standard, ?_, agree.fresh⟩
  · by_cases same : other = path
    · subst same
      simp [Fdtab.setFile, Posix.setFile]
    · simpa [Fdtab.setFile, Posix.setFile, same] using agree.files other
  · intro fd inside path' flags off entry
    by_cases same : path' = path
    · subst same
      simp [Fdtab.setFile]
    · simpa [Fdtab.setFile, same] using agree.there fd inside path' flags off entry

/-- A descriptor is set to the same in both. -/
theorem Agree.settled (agree : Agree s) (fd : Nat) {entry : Fdent Path} {slot : Slot}
    (shown : Shown s.posix entry slot) (standard : fd < 3 → slot ≠ .free)
    (there : ∀ path flags off, entry = .file path flags off → s.libc.files path ≠ none)
    (fresh : ∀ id, slot = .opened id → id < s.posix.next) :
    Agree ⟨s.libc.setFd fd entry, s.posix.setSlot fd slot⟩ := by
  refine ⟨agree.files, ?_, ?_, ?_, ?_⟩
  · intro other inside
    change Shown s.posix (update s.libc.fdtab fd entry other)
      (update s.posix.slots fd slot other)
    by_cases same : other = fd
    · subst same
      rwa [update_self, update_self]
    · rw [update_of_ne same, update_of_ne same]
      exact agree.shown other inside
  · intro other low
    by_cases same : other = fd
    · subst same
      simpa [Posix.setSlot] using standard low
    · simpa [Posix.setSlot, same] using agree.standard other low
  · intro other inside path flags off is
    by_cases same : other = fd
    · subst same
      exact there path flags off (by simpa [Fdtab.setFd] using is)
    · exact agree.there other inside path flags off (by simpa [Fdtab.setFd, same] using is)
  · intro other inside id is
    by_cases same : other = fd
    · subst same
      exact fresh id (by simpa [Posix.setSlot] using is)
    · exact agree.fresh other inside id (by simpa [Posix.setSlot, same] using is)

theorem Agree.alloc (agree : Agree s) : s.libc.fdAlloc = s.posix.lowest := by
  have split : List.range fdMax = [0, 1, 2] ++ List.range' 3 (fdMax - 3) := by decide
  have low : [0, 1, 2].find? (fun fd => decide (s.posix.slots fd = .free)) = none := by
    simp [agree.standard]
  rw [Posix.lowest, split, List.find?_append, low, Option.none_or]
  refine List.find?_congr fun fd member => ?_
  have inside : fd < fdMax := by
    simp only [List.mem_range'_1] at member ⊢
    omega
  have shown := agree.shown fd inside
  cases entry : s.libc.fdtab fd <;> cases slot : s.posix.slots fd <;>
    simp_all [Shown, Fdtab.isFree]

end Paired

variable [DecidableEq Path]

def Fdtab.calls (s : Fdtab Path) (call : Call Path) : Fdtab Path × Outcome :=
  match call.action with
  | .opens path flags => s.open call.server path flags
  | .close fd => s.close fd
  | .read fd count => s.read call.server fd count
  | .write fd data => s.write call.server fd data
  | .lseek fd offset whence => s.lseek fd offset whence
  | .pread fd count offset => s.pread call.server fd count offset
  | .pwrite fd data offset => s.pwrite call.server fd data offset
  | .dup fd => s.dup fd
  | .dup2 oldfd newfd => s.dup2 oldfd newfd
  | .ftruncate fd length => s.ftruncate call.server fd length

/-- The same call in POSIX; a write stores `n` bytes. -/
def Posix.calls (p : Posix Path) (action : Action Path) (n : Nat) : Posix Path × Outcome :=
  match action with
  | .opens path flags => p.open path flags
  | .close fd => p.close fd
  | .read fd count => p.read fd count
  | .write fd data => p.write fd data n
  | .lseek fd offset whence => p.lseek fd offset whence
  | .pread fd count offset => p.pread fd count offset
  | .pwrite fd data offset => p.pwrite fd data offset n
  | .dup fd => p.dup fd
  | .dup2 oldfd newfd => p.dup2 oldfd newfd
  | .ftruncate fd length => p.ftruncate fd length

def Outcome.count : Outcome → Nat
  | .value n => n.toNat
  | .bytes _ => 0

namespace Paired
variable (s : Paired Path)
variable (call : Call Path)

def libcCalls : Fdtab Path × Outcome := s.libc.calls call

def posixCalls : Posix Path × Outcome :=
  s.posix.calls call.action (s.libcCalls call).2.count

def step : Option (Paired Path) :=
  if s.onConsole call.action then none
  else some ⟨(s.libcCalls call).1, (s.posixCalls call).1⟩

end Paired

end Racccoon.Libc
