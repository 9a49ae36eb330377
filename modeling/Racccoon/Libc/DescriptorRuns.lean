import Racccoon.Libc.DescriptorLaw

/-!
Each call of the descriptor table against its POSIX counterpart, and from there any sequence
of calls.
-/

namespace Racccoon.Libc.Paired
open Function (update update_self update_of_ne update_eq_self)

open Racccoon.Run Racccoon.FileServer Racccoon.Splices

variable {Path : Type} {s : Paired Path} {server : Server}
variable {fd : Int} {path : Path} {flags : OpenFlags} {off id : Nat} {file : ServedFile}

theorem Held.setFd_self (held : Held s fd path flags off id file) :
    s.libc.setFd fd.toNat (.file path flags off) = s.libc := by
  have entry : s.libc.fdtab fd.toNat = .file path flags off := by
    rw [← held.entry, Fdtab.entry, if_pos held.inside]
  rw [Fdtab.setFd, ← entry, update_eq_self]

theorem Held.setOff_self (held : Held s fd path flags off id file) :
    s.posix.setOff id ⟨path, flags, off⟩ off = s.posix := by
  rw [Posix.setOff]
  rw [← held.description, update_eq_self]

theorem described_free (free : s.posix.slot fd = .free) : s.posix.described fd = none := by
  simp [Posix.described, free]

theorem not_console (regular : s.isConsole fd = false) : s.libc.entry fd ≠ .console := by
  intro is
  simp [isConsole, is] at regular

theorem setFd_setFd (t : Fdtab Path) (fd : Nat) (first second : Fdent Path) :
    (t.setFd fd first).setFd fd second = t.setFd fd second := by
  simp [Fdtab.setFd]

theorem entry_setFd (t : Fdtab Path) {fd : Int} (inside : 0 ≤ fd ∧ fd < fdMax)
    (entry : Fdent Path) : (t.setFd fd.toNat entry).entry fd = entry := by
  simp [Fdtab.setFd, Fdtab.entry, inside]

def Matched (libc : Fdtab Path × Outcome) (posix : Posix Path × Outcome) : Prop :=
  libc.2 = posix.2 ∧ Agree ⟨libc.1, posix.1⟩

section
variable (agree : Agree s) (regular : s.isConsole fd = false)
include agree regular

theorem read_matched {count : Nat} (fits : s.ReadFits fd count) :
    Matched (s.libc.read server fd count) (s.posix.read fd count) := by
  rcases agree.cases fd with ⟨entry, slot⟩ | ⟨entry, -⟩ | ⟨path, flags, off, id, file, held⟩
  · simp only [Fdtab.read, entry, Posix.read, described_free slot]
    exact ⟨rfl, agree⟩
  · exact absurd entry (not_console regular)
  · obtain ⟨readable, small, near, moves⟩ := fits path flags off held.entry
    have is : s.libc.read server fd count =
        (s.libc.setFd fd.toNat (.file path flags (off + ((file.bytes.drop off).take count).length)),
          .bytes ((file.bytes.drop off).take count)) := by
      simp only [Fdtab.read, held.entry, held.file, readLoop_eq (Nat.le_refl count) small near]
    have posixIs : s.posix.read fd count =
        (s.posix.setOff id ⟨path, flags, off⟩ (off + ((file.bytes.drop off).take count).length),
          .bytes ((file.bytes.drop off).take count)) := by
      simp only [Posix.read, held.described, readable, held.content agree, Bool.true_eq_false,
        if_false]
    rw [is, posixIs]
    refine ⟨rfl, ?_⟩
    by_cases alone : s.Alone fd
    · exact agree.moved held alone _
    · have nothing : (file.bytes.drop off).take count = [] := by
        rcases moves.resolve_left alone with none | behind
        · rw [none, List.take_zero]
        · rw [held.sizeOf] at behind
          rw [List.drop_eq_nil_of_le behind, List.take_nil]
      rw [nothing, List.length_nil, Nat.add_zero, held.setFd_self, held.setOff_self]
      exact agree

theorem pread_matched {count : Nat} {offset : Int} (fits : s.PreadFits fd count offset) :
    Matched (s.libc.pread server fd count offset) (s.posix.pread fd count offset) := by
  rcases agree.cases fd with ⟨entry, slot⟩ | ⟨entry, -⟩ | ⟨path, flags, off, id, file, held⟩
  · simp only [Fdtab.pread, entry, Posix.pread, described_free slot]
    exact ⟨rfl, agree⟩
  · exact absurd entry (not_console regular)
  · obtain ⟨readable, small⟩ := fits path flags off held.entry
    by_cases negative : offset < 0
    · simp only [Fdtab.pread, held.entry, Posix.pread, held.described, negative, or_true]
      exact ⟨rfl, agree⟩
    · obtain ⟨short, near⟩ := small.resolve_left negative
      have is : s.libc.pread server fd count offset =
          (s.libc, .bytes ((file.bytes.drop offset.toNat).take count)) := by
        have files : (s.libc.setFd fd.toNat (.file path flags offset.toNat)).files path =
            some file := held.file
        simp only [Fdtab.pread, held.entry, negative, if_false, Fdtab.read,
          entry_setFd _ held.inside, files,
          readLoop_eq (Nat.le_refl count) short (show offset.toNat < 2 ^ 32 by omega),
          setFd_setFd, held.setFd_self]
      rw [is]
      simp only [Posix.pread, held.described, readable, negative, held.content agree]
      exact ⟨rfl, agree⟩

theorem lseek_matched {offset : Int} {whence : Whence} (fits : s.LseekFits fd offset whence) :
    Matched (s.libc.lseek fd offset whence) (s.posix.lseek fd offset whence) := by
  rcases agree.cases fd with ⟨entry, slot⟩ | ⟨entry, -⟩ | ⟨path, flags, off, id, file, held⟩
  · simp only [Fdtab.lseek, entry, Posix.lseek, described_free slot]
    exact ⟨rfl, agree⟩
  · exact absurd entry (not_console regular)
  · obtain ⟨low, high, moves⟩ := fits path flags off held.entry
    set target := whence.base off (s.libc.sizeOf path) + offset with targetIs
    have wrapped : target.bmod (2 ^ 64) = target :=
      Int.bmod_eq_of_le (by omega) (by omega)
    have is : s.libc.lseek fd offset whence =
        if target < 0 then (s.libc, .value (-1))
        else (s.libc.setFd fd.toNat (.file path flags target.toNat), .value target) := by
      simp only [Fdtab.lseek, held.entry, ← targetIs, wrapped]
    have posixIs : s.posix.lseek fd offset whence =
        if target < 0 then (s.posix, .value (-1))
        else (s.posix.setOff id ⟨path, flags, off⟩ target.toNat, .value target) := by
      simp only [Posix.lseek, held.described, held.content agree, ← held.sizeOf, ← targetIs]
    rw [is, posixIs]
    by_cases negative : target < 0
    · rw [if_pos negative, if_pos negative]
      exact ⟨rfl, agree⟩
    · rw [if_neg negative, if_neg negative]
      refine ⟨rfl, ?_⟩
      by_cases alone : s.Alone fd
      · exact agree.moved held alone _
      · have still := (moves.resolve_left alone).resolve_left negative
        rw [still, Int.toNat_natCast, held.setFd_self, held.setOff_self]
        exact agree

end

theorem lowest_spec {nf : Nat} (found : s.libc.fdAlloc = some nf) : 3 ≤ nf ∧ nf < fdMax := by
  have member := List.mem_of_find?_eq_some found
  simp only [List.mem_range'_1] at member ⊢
  omega

theorem Agree.shared (agree : Agree s) (held : Held s fd path flags off id file) (nf : Nat) :
    Agree ⟨s.libc.setFd nf (.file path flags off), s.posix.setSlot nf (.opened id)⟩ := by
  have slotIs : s.posix.slots fd.toNat = .opened id := by
    rw [← held.slot, Posix.slot, if_pos held.inside]
  refine agree.settled nf held.description (fun _ => by simp) ?_ ?_
  · intro path' flags' off' same
    obtain ⟨rfl, -, -⟩ := Fdent.file.inj same
    simp [held.file]
  · intro id' same
    obtain rfl := Slot.opened.inj same
    exact agree.fresh fd.toNat (by have := held.inside; omega) _ slotIs

section
variable (agree : Agree s) (regular : s.isConsole fd = false)
include agree regular

theorem dup_matched : Matched (s.libc.dup fd) (s.posix.dup fd) := by
  rcases agree.cases fd with ⟨entry, slot⟩ | ⟨entry, -⟩ | ⟨path, flags, off, id, file, held⟩
  · simp only [Fdtab.dup, entry, Posix.dup, slot]
    exact ⟨rfl, agree⟩
  · exact absurd entry (not_console regular)
  · have taken : s.posix.slot fd ≠ .free := by
      rw [held.slot]
      nofun
    simp only [Fdtab.dup, held.entry, Posix.dup, if_neg taken, ← agree.alloc]
    cases found : s.libc.fdAlloc with
    | none => exact ⟨rfl, agree⟩
    | some nf =>
      refine ⟨rfl, ?_⟩
      rw [held.slot]
      exact agree.shared held nf

theorem dup2_matched {newfd : Int} : Matched (s.libc.dup2 fd newfd) (s.posix.dup2 fd newfd) := by
  rcases agree.cases fd with ⟨entry, slot⟩ | ⟨entry, -⟩ | ⟨path, flags, off, id, file, held⟩
  · simp only [Fdtab.dup2, entry, Posix.dup2, slot]
    exact ⟨rfl, agree⟩
  · exact absurd entry (not_console regular)
  · have taken : s.posix.slot fd ≠ .free := by
      rw [held.slot]
      nofun
    simp only [Fdtab.dup2, held.entry, Posix.dup2, taken, false_or]
    by_cases outside : newfd < 0 ∨ fdMax ≤ newfd
    · rw [if_pos outside, if_pos outside]
      exact ⟨rfl, agree⟩
    · rw [if_neg outside, if_neg outside]
      have shared := agree.shared held newfd.toNat
      by_cases same : fd = newfd
      · subst same
        rw [if_pos rfl]
        rw [held.setFd_self] at shared
        rw [held.slot]
        exact ⟨rfl, shared⟩
      · rw [if_neg same, held.slot]
        exact ⟨rfl, shared⟩

theorem close_matched (fits : 3 ≤ fd ∨ Fdtab.isFree (s.libc.entry fd) = true) :
    Matched (s.libc.close fd) (s.posix.close fd) := by
  rcases agree.cases fd with ⟨entry, slot⟩ | ⟨entry, -⟩ | ⟨path, flags, off, id, file, held⟩
  · simp only [Fdtab.close, entry, Posix.close, slot]
    exact ⟨rfl, agree⟩
  · exact absurd entry (not_console regular)
  · have taken : s.posix.slot fd ≠ .free := by
      rw [held.slot]
      nofun
    have high : 3 ≤ fd := by
      refine fits.resolve_right fun free => ?_
      rw [held.entry] at free
      cases free
    simp only [Fdtab.close, held.entry, Posix.close, if_neg taken, if_pos high]
    exact ⟨rfl, agree.settled fd.toNat trivial (fun low => by omega) nofun nofun⟩

end

/-- A file that is there gets a new descriptor with an open file description of its own. -/
theorem Agree.opened (agree : Agree s) (flags : OpenFlags) {nf : Nat} (low : 3 ≤ nf)
    (there : s.libc.files path ≠ none) :
    Agree ⟨s.libc.setFd nf (.file path flags 0),
      { s.posix with
        slots := update s.posix.slots nf (.opened s.posix.next)
        descriptions := update s.posix.descriptions s.posix.next (some ⟨path, flags, 0⟩)
        next := s.posix.next + 1 }⟩ := by
  refine ⟨agree.files, ?_, ?_, ?_, ?_⟩
  · intro other inside
    by_cases same : other = nf
    · subst same
      simp [Fdtab.setFd, Shown]
    · have shown := agree.shown other inside
      simp only [Fdtab.setFd, update_of_ne same]
      cases entry : s.libc.fdtab other <;> cases slot : s.posix.slots other <;>
        simp only [Shown, entry, slot] at shown ⊢
      rename_i id
      have apart : id ≠ s.posix.next := by
        have := agree.fresh other inside id slot
        omega
      rwa [update_of_ne apart]
  · intro other small
    have apart : other ≠ nf := by omega
    simpa [apart] using agree.standard other small
  · intro other inside path' flags' off is
    by_cases same : other = nf
    · subst same
      simp only [Fdtab.setFd, update_self] at is
      obtain ⟨rfl, -, -⟩ := is
      exact there
    · exact agree.there other inside path' flags' off (by simpa [Fdtab.setFd, same] using is)
  · intro other inside id is
    change id < s.posix.next + 1
    by_cases same : other = nf
    · subst same
      simp only [update_self, Slot.opened.injEq] at is
      omega
    · have := agree.fresh other inside id (by simpa [same] using is)
      omega

theorem stored_eq {content data : List Byte} {place n : Nat} (inside : place ≤ content.length) :
    Posix.stored content place data n = splice content place (data.take n) := by
  unfold Posix.stored
  split
  · rename_i nothing
    rw [nothing, splice_nil]
  · rw [Nat.sub_eq_zero_of_le inside, List.replicate_zero, List.append_nil]

theorem writeLoop_nil (rounds : Nat) (file : Option ServedFile) (off : Nat) :
    writeLoop server rounds file [] off = (file, 0) := by
  cases rounds <;> simp [writeLoop]

variable [DecidableEq Path]

section
variable (held : Held s fd path flags off id file)
include held

theorem Held.setFile_self : s.libc.setFile path (some file) = s.libc := by
  rw [Fdtab.setFile, ← held.file, update_eq_self]

theorem Held.posix_setFile_self (agree : Agree s) : s.posix.setFile path file.bytes = s.posix := by
  have is : s.posix.files path = some file.bytes := by
    rw [← agree.files, held.file]
    rfl
  rw [Posix.setFile, ← is, update_eq_self]

theorem Held.stored (after : ServedFile) :
    Held ⟨s.libc.setFile path (some after), s.posix.setFile path after.bytes⟩ fd path flags off id
      after :=
  ⟨held.inside, held.entry, held.slot, held.description, by simp [Fdtab.setFile]⟩

end

theorem write_matched (agree : Agree s) (regular : s.isConsole fd = false) {data : List Byte}
    (fits : s.WriteFits fd data) :
    Matched (s.libc.write server fd data)
      (s.posix.write fd data (s.libc.write server fd data).2.count) := by
  rcases agree.cases fd with ⟨entry, slot⟩ | ⟨entry, -⟩ | ⟨path, flags, off, id, file, held⟩
  · simp only [Fdtab.write, entry, Posix.write, described_free slot]
    exact ⟨rfl, agree⟩
  · exact absurd entry (not_console regular)
  · obtain ⟨writable, plain⟩ := fits path flags off held.entry
    by_cases empty : data = []
    · subst empty
      have is : s.libc.write server fd [] = (s.libc, .value 0) := by
        simp only [Fdtab.write, held.entry, held.file, writeLoop_nil, held.setFile_self,
          Int.toNat_zero, Nat.add_zero, held.setFd_self]
      rw [is]
      simp only [Posix.write, held.described, writable]
      exact ⟨rfl, agree⟩
    · obtain ⟨atEnd, inside, room, alone⟩ := plain.resolve_left empty
      rw [held.sizeOf] at atEnd inside
      obtain ⟨n, after, atMost, stored, looped⟩ :=
        writeLoop_eq server (Nat.le_refl data.length) inside room
      have is : s.libc.write server fd data =
          ((s.libc.setFile path (some after)).setFd fd.toNat (.file path flags (off + n)),
            .value n) := by
        simp only [Fdtab.write, held.entry, held.file, looped, Int.toNat_natCast]
      have place : (if flags.append = true then file.bytes.length else off) = off := by
        split
        · rename_i append
          exact (atEnd append).symm
        · rfl
      have posixIs : s.posix.write fd data n =
          ((s.posix.setFile path after.bytes).setOff id ⟨path, flags, off⟩ (off + n),
            .value n) := by
        simp only [Posix.write, held.described, writable, empty, held.content agree, place,
          Bool.true_eq_false, if_false, Nat.min_eq_left atMost, stored_eq inside, stored]
      rw [is]
      simp only [Outcome.count, Int.toNat_natCast]
      rw [posixIs]
      exact ⟨rfl, (agree.stored path after).moved (held.stored after) alone (off + n)⟩

theorem pwrite_matched (agree : Agree s) (regular : s.isConsole fd = false) {data : List Byte}
    {offset : Int} (fits : s.PwriteFits fd data offset) :
    Matched (s.libc.pwrite server fd data offset)
      (s.posix.pwrite fd data offset (s.libc.pwrite server fd data offset).2.count) := by
  rcases agree.cases fd with ⟨entry, slot⟩ | ⟨entry, -⟩ | ⟨path, flags, off, id, file, held⟩
  · simp only [Fdtab.pwrite, entry, Posix.pwrite, described_free slot]
    exact ⟨rfl, agree⟩
  · exact absurd entry (not_console regular)
  · obtain ⟨writable, plain⟩ := fits path flags off held.entry
    by_cases negative : offset < 0
    · simp only [Fdtab.pwrite, held.entry, Posix.pwrite, held.described, negative, or_true]
      exact ⟨rfl, agree⟩
    · have stores : ∃ (n : Nat) (after : ServedFile), n ≤ data.length ∧
          after.bytes = Posix.stored file.bytes offset.toNat data n ∧
          writeLoop server data.length (some file) data offset.toNat = (some after, (n : Int)) := by
        by_cases empty : data = []
        · subst empty
          exact ⟨0, file, Nat.le_refl 0, by simp [Posix.stored], writeLoop_nil _ _ _⟩
        · obtain ⟨inside, room⟩ := (plain.resolve_left negative).resolve_left empty
          rw [held.sizeOf] at inside
          obtain ⟨n, after, atMost, stored, looped⟩ :=
            @writeLoop_eq file data data.length offset.toNat server (Nat.le_refl _) (by omega)
              (by omega)
          exact ⟨n, after, atMost, by rw [stored, stored_eq (by omega)], looped⟩
      obtain ⟨n, after, atMost, stored, looped⟩ := stores
      have is : s.libc.pwrite server fd data offset =
          (s.libc.setFile path (some after), .value n) := by
        have files : (s.libc.setFd fd.toNat (.file path flags offset.toNat)).files path =
            some file := held.file
        have back : (((s.libc.setFd fd.toNat (.file path flags offset.toNat)).setFile path
            (some after)).setFd fd.toNat (.file path flags (offset.toNat + n))).setFd fd.toNat
              (.file path flags off) = s.libc.setFile path (some after) := by
          conv => rhs; rw [← held.setFd_self]
          simp [Fdtab.setFd, Fdtab.setFile]
        simp only [Fdtab.pwrite, held.entry, negative, if_false, Fdtab.write,
          entry_setFd _ held.inside, files, looped, Int.toNat_natCast, back]
      rw [is]
      simp only [Outcome.count, Int.toNat_natCast, Posix.pwrite, held.described, writable,
        negative, held.content agree, Nat.min_eq_left atMost]
      refine ⟨rfl, ?_⟩
      rw [← stored]
      exact agree.stored path after

theorem rcFsWriteAt_new (server : Server) : rcFsWriteAt server none [] 0 = (some emptyFile, 0) := by
  simp [rcFsWriteAt, serverWriteAt, contentOf, emptyFile, splice]

/-- The standard's descriptors with a new one, at the start of the file. -/
def withSlot (posix : Posix Path) (path : Path) (flags : OpenFlags) (nf : Nat) : Posix Path :=
  { posix with
    slots := update posix.slots nf (.opened posix.next)
    descriptions := update posix.descriptions posix.next (some ⟨path, flags, 0⟩)
    next := posix.next + 1 }

theorem openNew_matched (agree : Agree s) {nf : Nat} (found : s.libc.fdAlloc = some nf)
    (flags : OpenFlags) :
    Matched (s.libc.openNew server path flags)
      (withSlot (s.posix.setFile path []) path flags nf, .value nf) := by
  have made : (s.libc.setFile path (some emptyFile)).fdAlloc = some nf := found
  have is : s.libc.openNew server path flags =
      ((s.libc.setFile path (some emptyFile)).setFd nf (.file path flags 0), .value nf) := by
    simp only [Fdtab.openNew, rcFsWriteAt_new, Fdtab.openAt, made, ite_self]
    rw [if_neg (by omega)]
  rw [is]
  exact ⟨rfl, (agree.stored path emptyFile).opened flags (lowest_spec found).1
    (by simp [Fdtab.setFile])⟩

theorem open_matched (agree : Agree s) {flags : OpenFlags} (fits : s.OpenFits path flags) :
    Matched (s.libc.open server path flags) (s.posix.open path flags) := by
  unfold OpenFits at fits
  cases held : s.libc.files path with
  | none =>
    have absent : s.posix.files path = none := by rw [← agree.files, held, Option.map_none]
    simp only [held] at fits
    cases creat : flags.creat with
    | false =>
      simp only [Fdtab.open, held, creat, Posix.open, absent]
      exact ⟨rfl, agree⟩
    | true =>
      obtain ⟨nf, found⟩ := Option.ne_none_iff_exists'.1 (fits creat)
      have lowest : s.posix.lowest = some nf := by rw [← agree.alloc, found]
      have is : s.libc.open server path flags = s.libc.openNew server path flags := by
        simp only [Fdtab.open, held, creat, if_true]
      have posixIs : s.posix.open path flags = (withSlot (s.posix.setFile path []) path flags nf, .value nf) := by
        simp [Posix.open, absent, creat, lowest, Posix.setFile, withSlot]
      rw [is, posixIs]
      exact openNew_matched agree found flags
  | some file =>
    have present : s.posix.files path = some file.bytes := by
      rw [← agree.files, held, Option.map_some]
    simp only [held] at fits
    by_cases excluded : (flags.creat && flags.excl) = true
    · have both : flags.creat = true ∧ flags.excl = true := by simpa using excluded
      simp only [Fdtab.open, held, Posix.open, present, both.1, both.2]
      exact ⟨rfl, agree⟩
    · have passes : ¬ (flags.creat = true ∧ flags.excl = true) := by simpa using excluded
      have fits := fits.resolve_left excluded
      by_cases empties : (flags.trunc && flags.writable) = true
      · have both : flags.trunc = true ∧ flags.writable = true := by simpa using empties
        rw [if_pos empties] at fits
        obtain ⟨nf, found⟩ := Option.ne_none_iff_exists'.1 fits
        have lowest : s.posix.lowest = some nf := by rw [← agree.alloc, found]
        have is : s.libc.open server path flags = s.libc.openNew server path flags := by
          simp only [Fdtab.open, held, excluded, empties, if_true, if_false, Bool.false_eq_true]
        have posixIs : s.posix.open path flags = (withSlot (s.posix.setFile path []) path flags nf, .value nf) := by
          simp [Posix.open, present, passes, lowest, both, Posix.setFile, withSlot]
        rw [is, posixIs]
        exact openNew_matched agree found flags
      · have not_both : ¬ (flags.trunc = true ∧ flags.writable = true) := by simpa using empties
        rw [if_neg empties] at fits
        have is : s.libc.open server path flags =
            s.libc.openAt path flags file.bytes.length := by
          simp only [Fdtab.open, held, excluded, empties, if_false, Bool.false_eq_true]
        rw [is]
        cases found : s.libc.fdAlloc with
        | none =>
          have lowest : s.posix.lowest = none := by rw [← agree.alloc, found]
          have posixIs : s.posix.open path flags = (s.posix, .value (-1)) := by
            simp [Posix.open, lowest]
          rw [posixIs]
          simp only [Fdtab.openAt, found]
          exact ⟨rfl, agree⟩
        | some nf =>
          have lowest : s.posix.lowest = some nf := by rw [← agree.alloc, found]
          have start : (if flags.append = true then file.bytes.length else 0) = 0 := by
            rcases fits.resolve_left (by simp [found]) with plain | empty
            · rw [plain]
              rfl
            · rw [empty, List.length_nil, ite_self]
          have posixIs : s.posix.open path flags = (withSlot s.posix path flags nf, .value nf) := by
            simp [Posix.open, present, passes, lowest, not_both, withSlot]
          rw [posixIs]
          simp only [Fdtab.openAt, found, start]
          exact ⟨rfl, agree.opened flags (lowest_spec found).1 (by simp [held])⟩

omit [DecidableEq Path] in
/-- Zeros are appended up to the wanted size, as long as the server takes all of each call. -/
theorem growLoop_eq {want size rounds : Nat} (enough : want - size ≤ rounds)
    (length : file.bytes.length = size) (below : size ≤ want) (small : want < fsOffsetAppend)
    (takes : ∀ place, size ≤ place → min (want - place) zerosMax ≤ server.accept place) :
    ∃ after : ServedFile, after.bytes = file.bytes ++ List.replicate (want - size) 0 ∧
      Fdtab.growLoop server want rounds (some file) size = (some after, 0) := by
  induction rounds generalizing file size with
  | zero => exact ⟨file, by simp [Nat.le_zero.1 enough], rfl⟩
  | succ rounds ih =>
    unfold Fdtab.growLoop
    by_cases done : want ≤ size
    · exact ⟨file, by simp [Nat.sub_eq_zero_of_le done], by rw [if_pos done]⟩
    · rw [if_neg done]
      set n := min (want - size) zerosMax with nIs
      have some_zeros : 0 < n := by
        simp only [nIs, zerosMax]
        omega
      have chunk : n ≤ rcFsWriteAtMaxchunk := by
        simp only [nIs, zerosMax, rcFsWriteAtMaxchunk, rcFsMsgMax]
        omega
      obtain ⟨m, after, -, stored, full, is⟩ :=
        @rcFsWriteAt_eq file (List.replicate n 0) size server (Nat.le_of_eq length.symm)
          (by rw [List.length_replicate]; omega) (by rw [List.length_replicate]; exact chunk)
      rw [List.length_replicate] at full
      obtain rfl := full (takes size (Nat.le_refl size))
      rw [List.take_of_length_le (by simp), ← length, splice_end] at stored
      have grown : after.bytes.length = size + n := by
        rw [stored, List.length_append, List.length_replicate, length]
      obtain ⟨final, storedAll, looped⟩ :=
        ih (by omega : want - (size + n) ≤ rounds) grown (by omega)
          fun place behind => takes place (by omega)
      simp only [is, ne_eq, looped]
      refine ⟨final, ?_, rfl⟩
      rw [storedAll, stored, List.append_assoc, List.replicate_append_replicate]
      congr 2
      omega

theorem rcFsWriteAt_none (data : List Byte) :
    rcFsWriteAt server none data 0 = rcFsWriteAt server (some emptyFile) data 0 := by
  simp [rcFsWriteAt, serverWriteAt, contentOf, emptyFile]

theorem ftruncate_matched (agree : Agree s) (regular : s.isConsole fd = false) {length : Int}
    (fits : s.FtruncateFits server fd length) :
    Matched (s.libc.ftruncate server fd length) (s.posix.ftruncate fd length) := by
  rcases agree.cases fd with ⟨entry, slot⟩ | ⟨entry, -⟩ | ⟨path, flags, off, id, file, held⟩
  · simp only [Fdtab.ftruncate, entry, Posix.ftruncate, described_free slot]
    exact ⟨rfl, agree⟩
  · exact absurd entry (not_console regular)
  · obtain ⟨writable, plain⟩ := fits path flags off held.entry
    rw [held.sizeOf] at plain
    by_cases negative : length < 0
    · simp only [Fdtab.ftruncate, held.entry, Posix.ftruncate, held.described, negative, or_true]
      exact ⟨rfl, agree⟩
    · obtain ⟨want, rfl⟩ := Int.eq_ofNat_of_zero_le (by omega : 0 ≤ length)
      have posixIs : s.posix.ftruncate fd (want : Int) =
          (s.posix.setFile path (file.bytes.take want ++
            List.replicate (want - file.bytes.length) 0), .value 0) := by
        simp only [Posix.ftruncate, held.described, writable, negative, held.content agree,
          Bool.true_eq_false, or_self, if_false, Int.toNat_natCast]
      rw [posixIs]
      simp only [Fdtab.ftruncate, held.entry, negative, if_false, held.file, Int.toNat_natCast]
      by_cases same : want = file.bytes.length
      · rw [if_pos same, same, List.take_length, Nat.sub_self, List.replicate_zero,
          List.append_nil, held.posix_setFile_self agree]
        exact ⟨rfl, agree⟩
      · rw [if_neg same]
        rcases (plain.resolve_left negative).resolve_left (by omega) with
          ⟨grows, small, takes⟩ | ⟨shrinks, chunk, takes⟩
        · rw [if_pos (by omega), List.take_of_length_le (by omega)]
          obtain ⟨after, stored, looped⟩ := @growLoop_eq server file want file.bytes.length want
            (by omega) rfl (by omega) (by omega) takes
          rw [looped, ← stored]
          exact ⟨rfl, agree.stored path after⟩
        · have fits := file.fits
          simp only [fsOffsetAppend] at fits
          rw [if_neg (by omega), readLoop_eq (Nat.le_refl want) (by omega) (by omega),
            List.drop_zero]
          have keepLength : (file.bytes.take want).length = want := by
            rw [List.length_take]
            omega
          dsimp only
          rw [if_neg (by omega), rcFsWriteAt_none]
          obtain ⟨n, after, -, stored, full, is⟩ :=
            @rcFsWriteAt_eq emptyFile (file.bytes.take want) 0 server (Nat.zero_le _)
              (by
                simp only [fsOffsetAppend]
                omega) (by omega)
          obtain rfl := full (by omega)
          have storedIs : after.bytes = file.bytes.take want ++
              List.replicate (want - file.bytes.length) 0 := by
            rw [stored, List.take_length, Nat.sub_eq_zero_of_le (by omega)]
            simp [emptyFile, splice]
          rw [is, keepLength, ← storedIs]
          simp only [ne_eq]
          exact ⟨rfl, agree.stored path after⟩

theorem calls_matched (agree : Agree s) {call : Call Path} (fits : s.Fits call)
    (regular : s.onConsole call.action = false) :
    Matched (s.libcCalls call) (s.posixCalls call) := by
  obtain ⟨action, server⟩ := call
  cases action with
  | opens => exact open_matched agree fits
  | close => exact close_matched agree regular fits
  | read => exact read_matched agree regular fits
  | write => exact write_matched agree regular fits
  | lseek => exact lseek_matched agree regular fits
  | pread => exact pread_matched agree regular fits
  | pwrite => exact pwrite_matched agree regular fits
  | dup => exact dup_matched agree regular
  | dup2 oldfd newfd => exact dup2_matched agree regular
  | ftruncate => exact ftruncate_matched agree regular fits

variable (files : Path → Option ServedFile)

/-- The table at the start: three descriptors of the console. -/
def start : Paired Path where
  libc := {
    fdtab := fun fd => if fd < 3 then .console else .free
    files := files }
  posix := {
    slots := fun fd => if fd < 3 then .console else .free
    descriptions := fun _ => none
    next := 0
    files := fun path => (files path).map ServedFile.bytes }

omit [DecidableEq Path] in
theorem start_agree : Agree (start files) where
  files _ := rfl
  shown fd _ := by
    by_cases low : fd < 3 <;> simp [start, low, Shown]
  standard fd low := by simp [start, low]
  there fd _ path flags off is := by
    by_cases low : fd < 3 <;> simp [start, low] at is
  fresh fd _ id is := by
    by_cases low : fd < 3 <;> simp [start, low] at is

theorem step_agree {after : Paired Path} {call : Call Path} (agree : Agree s)
    (fits : s.Fits call) (stepped : s.step call = some after) : Agree after := by
  unfold step at stepped
  split at stepped
  · cases stepped
  · rename_i regular
    obtain rfl := Option.some.inj stepped
    exact (calls_matched agree fits (by simpa using regular)).2

/-- In a run whose calls fit, the table agrees with POSIX on files, descriptors and offsets in
every state, and every further call that fits returns the same. -/
theorem descriptor_law {files : Path → Option ServedFile}
    (run : Reach step Fits (start files) s) :
    Agree s ∧ ∀ call after, s.Fits call → s.step call = some after →
      (s.libcCalls call).2 = (s.posixCalls call).2 ∧ Agree after := by
  have agree := run.invariant Agree (start_agree files) fun _ _ _ agree fits stepped =>
    step_agree agree fits stepped
  refine ⟨agree, fun call after fits stepped => ?_⟩
  refine ⟨?_, step_agree agree fits stepped⟩
  unfold step at stepped
  split at stepped
  · cases stepped
  · rename_i regular
    exact (calls_matched agree fits (by simpa using regular)).1

def after (s : Paired Path) (call : Call Path) : Paired Path :=
  ⟨(s.libcCalls call).1, (s.posixCalls call).1⟩

theorem step_after {call : Call Path} (regular : s.onConsole call.action = false) :
    s.step call = some (s.after call) := by
  rw [step, regular]
  rfl

def letters : List Char → Option ServedFile :=
  fun path => if path = "/f".toList then some ⟨[0x61, 0x62], by simp [fsOffsetAppend]⟩ else none

def readOnly : OpenFlags := ⟨true, false, false, false, false, false⟩

def openLetters : Call (List Char) := ⟨.opens "/f".toList readOnly, ready⟩

def opened : Paired (List Char) := (start letters).after openLetters

def readByte (fd : Int) : Call (List Char) := ⟨.read fd 1, ready⟩

def goBack : Call (List Char) := ⟨.lseek 3 0 .set, ready⟩

def wentBack : Paired (List Char) := (opened.after (readByte 3)).after goBack

/-- A file is opened, its first byte read, and read again after a seek. -/
theorem first_byte :
    (wentBack.libcCalls (readByte 3)).2 = (wentBack.posixCalls (readByte 3)).2 ∧
      (wentBack.libcCalls (readByte 3)).2 = .bytes [0x61] := by
  have alone : ∀ s : Paired (List Char), (∀ other < fdMax,
      s.posix.slots other = s.posix.slot 3 → (other : Int) = 3) → s.Alone 3 := fun _ here => here
  have reads : ∀ s : Paired (List Char), s.Alone 3 → ∀ at_ < 2, s.libc.entry 3 =
      .file "/f".toList readOnly at_ → s.Fits (readByte 3) := by
    intro s here at_ small is path flags off entry
    obtain ⟨rfl, rfl, rfl⟩ := Fdent.file.inj (is.symm.trans entry)
    exact ⟨rfl, by decide, by omega, .inl here⟩
  have back : (opened.after (readByte 3)).Fits goBack := by
    intro path flags off entry
    have is : (opened.after (readByte 3)).libc.entry 3 = .file "/f".toList readOnly 1 := rfl
    obtain ⟨rfl, rfl, rfl⟩ := Fdent.file.inj (is.symm.trans entry)
    exact ⟨by decide, by decide, .inl (alone _ (by decide))⟩
  have run : Reach step Fits (start letters) wentBack :=
    ((Reach.start.next openLetters (.inr (.inr (.inl rfl))) (step_after rfl)).next (readByte 3)
      (reads _ (alone _ (by decide)) 0 (by decide) rfl) (step_after rfl)).next goBack back
      (step_after rfl)
  exact ⟨((descriptor_law run).2 (readByte 3) _
    (reads _ (alone _ (by decide)) 0 (by decide) rfl) (step_after rfl)).1, rfl⟩

/-- After `dup`, the second descriptor reads the first byte again. -/
theorem dup_copies_offset :
    Reach step (fun _ _ => True) (start letters)
        ((opened.after ⟨.dup 3, ready⟩).after (readByte 3)) ∧
      (((opened.after ⟨.dup 3, ready⟩).after (readByte 3)).libcCalls (readByte 4)).2 =
        .bytes [0x61] ∧
      (((opened.after ⟨.dup 3, ready⟩).after (readByte 3)).posixCalls (readByte 4)).2 =
        .bytes [0x62] := by
  refine ⟨?_, rfl, rfl⟩
  have atOpened : Reach step (fun _ _ => True) (start letters) opened :=
    Reach.start.next openLetters trivial (step_after rfl)
  exact (atOpened.next ⟨.dup 3, ready⟩ trivial (step_after rfl)).next (readByte 3) trivial
    (step_after rfl)

end Racccoon.Libc.Paired
