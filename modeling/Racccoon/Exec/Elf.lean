import Racccoon.Exec.Atomic

/-!
What staging an ELF image comes to. Nothing behind the end of the image is read, nothing
outside the staged pages is written, and the pages hold the segments as laid out below.
Segments may overlap: each is copied over the ones before it, and nothing is cleared, so
that a byte is the one the last segment has in the file for it.
-/

namespace Racccoon.Exec

open PageAllocator Paging UserRanges TrapFrame

universe u

def loadableOf (image : Nat → UInt8) (count : Nat) : List Phdr :=
  ((List.range count).map fun pi => readPhdr image (phoffOf image + pi * 56)).filter
    fun ph => ph.type = 1

def loadable (image : Nat → UInt8) : List Phdr := loadableOf image (phnumOf image)

namespace Phdr

/-- Where a segment starts, from `USER_BASE` on. -/
def start (ph : Phdr) : Nat := ph.vaddr - userBase

def touches (ph : Phdr) (spi : Nat) : Bool :=
  decide (ph.start / pageSize ≤ spi) &&
    decide (spi < (ph.start + ph.memsz + pageSize - 1) / pageSize)

def inFile (ph : Phdr) (off : Nat) : Bool :=
  decide (ph.start ≤ off) && decide (off < ph.start + ph.filesz)

end Phdr

def laidOut (image : Nat → UInt8) (phs : List Phdr) (off : Nat) : UInt8 :=
  phs.foldl (fun byte ph => if ph.inFile off then image (ph.offset + (off - ph.start)) else byte) 0

def laidPerm (phs : List Phdr) (spi : Nat) : BitVec 3 :=
  phs.foldl (fun perm ph => perm ||| if ph.touches spi then segPerm ph.flags else 0) 0

def Staging.place (staging : Staging) (off : Nat) : Nat :=
  staging.staged (off / pageSize) + off % pageSize

def Staging.Holds (staging : Staging) (byte : Nat → UInt8) : Prop :=
  ∀ off, staging.staged (off / pageSize) ≠ 0 → staging.machine.memory (staging.place off) = byte off

/-- The images are the same up to `size`. -/
def Agree (size : Nat) (image other : Nat → UInt8) : Prop := ∀ i, i < size → image i = other i

section Reads
variable {pool : Pool} {board : Board} {size : Nat} {image other : Nat → UInt8}

section
variable (agree : Agree size image other)
include agree

theorem Agree.le_eq {bytes i : Nat} (inside : i + bytes ≤ size) :
    le image bytes i = le other bytes i := by
  induction bytes generalizing i with
  | zero => rfl
  | succ _ ih => rw [le, le, agree i (by omega), ih (by omega)]

theorem Agree.readPhdr_eq {start : Nat} (inside : start + 56 ≤ size) :
    readPhdr image start = readPhdr other start := by
  have field : ∀ bytes i, i + bytes ≤ start + 56 → le image bytes i = le other bytes i :=
    fun bytes i fits => agree.le_eq (by omega)
  rw [readPhdr, readPhdr, field 4 start (by omega), field 4 (start + 4) (by omega),
    field 8 (start + 8) (by omega), field 8 (start + 16) (by omega),
    field 8 (start + 32) (by omega), field 8 (start + 40) (by omega)]

theorem Agree.copyChunks_eq {staged : Nat → Nat} {offset startOff filesz : Nat}
    (inside : offset + filesz ≤ size) (fuel done : Nat) (memory : Memory) :
    copyChunks image staged offset startOff filesz fuel done memory =
      copyChunks other staged offset startOff filesz fuel done memory := by
  induction fuel generalizing done memory with
  | zero => rfl
  | succ _ ih =>
    rw [copyChunks, copyChunks]
    split
    · next more =>
        have same : ∀ dst, copied memory dst (fun i => image (offset + done + i))
              (min (pageSize - (startOff + done) % pageSize) (filesz - done)) =
            copied memory dst (fun i => other (offset + done + i))
              (min (pageSize - (startOff + done) % pageSize) (filesz - done)) := by
          intro dst
          funext addr
          simp only [copied]
          split
          · exact agree _ (by omega)
          · rfl
        simp only [same]
        exact ih _ _
    · rfl

theorem Agree.loadSegment_eq (staging : Staging) (ph : Phdr) :
    loadSegment pool board image size staging ph =
      loadSegment pool board other size staging ph := by
  unfold loadSegment
  split
  · rfl
  · split
    · rfl
    · next sound =>
        simp only [segmentRefused, Bool.or_eq_true, decide_eq_true_eq] at sound
        unfold stageSegment
        dsimp only
        split
        · rw [agree.copyChunks_eq (by omega)]
        · rfl

theorem Agree.loadSegments_eq {left pi : Nat} (inside : phoffOf image + (pi + left) * 56 ≤ size)
    (same : phoffOf image = phoffOf other) (staging : Staging) :
    loadSegments pool board image size left pi staging =
      loadSegments pool board other size left pi staging := by
  induction left generalizing pi staging with
  | zero => rfl
  | succ _ ih =>
    rw [loadSegments, loadSegments, ← same, agree.readPhdr_eq (by omega), agree.loadSegment_eq]
    have rest := @ih (pi + 1) (by omega)
    simp only [rest]

theorem Agree.header_eq (long : 64 ≤ size) :
    headerRefused image size = headerRefused other size ∧ entryOf image = entryOf other ∧
      phoffOf image = phoffOf other ∧ phnumOf image = phnumOf other := by
  have entry : entryOf image = entryOf other := agree.le_eq (by omega)
  have phoff : phoffOf image = phoffOf other := agree.le_eq (by omega)
  have phnum : phnumOf image = phnumOf other := agree.le_eq (by omega)
  refine ⟨?_, entry, phoff, phnum⟩
  simp only [headerRefused, phoff, phnum, agree 4 (by omega), agree 5 (by omega),
    agree.le_eq (show 16 + 2 ≤ size by omega), agree.le_eq (show 18 + 2 ≤ size by omega),
    agree.le_eq (show 54 + 2 ≤ size by omega)]

end
theorem headerRefused_false (found : headerRefused image size = false) :
    phoffOf image + phnumOf image * 56 ≤ size := by
  simp only [headerRefused, Bool.or_eq_false_iff, decide_eq_false_iff_not] at found
  omega

theorem Agree.stageElf_eq (agree : Agree size image other) (long : 64 ≤ size) (machine : Machine) :
    stageElf pool board machine image size = stageElf pool board machine other size := by
  obtain ⟨header, entry, phoff, phnum⟩ := agree.header_eq long
  unfold stageElf
  rw [← header, ← entry, ← phnum]
  by_cases refused : headerRefused image size = true
  · simp only [if_pos refused]
  · have fits := headerRefused_false (by simpa using refused)
    rw [agree.loadSegments_eq (by omega) phoff]

end Reads

section Faithful
variable {pool : Pool} {board : Board} {mid : Machine} {staging : Staging}

variable {spi off size : Nat}

theorem stagedPages_inj {n other : Nat} {staged : Nat → Nat} (nodup : (stagedPages n staged).Nodup)
    (inside : spi < n) (also : other < n) (there : staged spi ≠ 0)
    (same : staged spi = staged other) : spi = other := by
  rw [stagedPages, List.Nodup, List.pairwise_filter, List.pairwise_map,
    List.pairwise_iff_getElem] at nodup
  simp only [List.length_range, List.getElem_range] at nodup
  rcases Nat.lt_trichotomy spi other with before | equal | behind
  · exact absurd same (nodup spi other inside also before (by simpa using there)
      (by simpa [← same] using there))
  · exact equal
  · exact absurd same.symm (nodup other spi also inside behind (by simpa [← same] using there)
      (by simpa using there))

/-- Different pages of the image are different pages of memory. -/
theorem Loading.apart (loading : Loading pool board mid staging) {other : Nat}
    (there : staging.staged spi ≠ 0) (also : staging.staged other ≠ 0) (differ : spi ≠ other) :
    staging.staged spi + pageSize ≤ staging.staged other ∨
      staging.staged other + pageSize ≤ staging.staged spi := by
  have inside := Nat.lt_of_lt_of_le (loading.inside spi there) loading.short
  have second := Nat.lt_of_lt_of_le (loading.inside other also) loading.short
  obtain ⟨left, -, here, -⟩ := loading.stages.fresh _ (mem_stagedPages inside there)
  obtain ⟨right, -, away, -⟩ := loading.stages.fresh _ (mem_stagedPages second also)
  have distinct : left ≠ right := by
    intro same
    exact differ (stagedPages_inj loading.stages.nodup inside second there
      (by rw [here, away, same]))
  rw [here, away]
  unfold pageBase pageSize
  omega

/-- A page just taken is clear, and the others are as they were. -/
theorem Loading.take_memory (loading : Loading pool board mid staging)
    (found : (staging.machine.tryAlloc pool).1 ≠ 0) (there : staging.staged spi ≠ 0) {rest : Nat}
    (within : rest < pageSize) :
    (staging.machine.tryAlloc pool).2.memory (staging.staged spi + rest) =
      staging.machine.memory (staging.staged spi + rest) := by
  rcases tryAlloc_cases pool staging.machine with ⟨missed, -⟩ | ⟨index, -, -, -, clear, -, memory⟩
  · exact absurd missed found
  · have inside := Nat.lt_of_lt_of_le (loading.inside spi there) loading.short
    have member := mem_stagedPages inside there
    obtain ⟨other, -, here, -⟩ := loading.stages.fresh _ member
    have distinct : other ≠ index := by
      rintro rfl
      have set := loading.stages.bits other
      rw [clear, ← here] at set
      simp [member] at set
    rw [memory]
    apply zeroed_apart
    unfold pageBase pageSize at *
    omega

theorem take_clear {machine : Machine} (found : (machine.tryAlloc pool).1 ≠ 0) {rest : Nat}
    (within : rest < pageSize) :
    (machine.tryAlloc pool).2.memory ((machine.tryAlloc pool).1 + rest) = 0 := by
  rcases tryAlloc_cases pool machine with ⟨missed, -⟩ | ⟨index, -, address, -, -, -, memory⟩
  · exact absurd missed found
  · rw [memory]
    exact if_pos (by omega)

/-- What staging a run of pages does: the run is there, with the permissions added. -/
structure Staged.Adds (perm : BitVec 3) (spi left : Nat) (before after : Staging) : Prop where
  pages : ∀ other, after.staged other ≠ 0 ↔
    before.staged other ≠ 0 ∨ spi ≤ other ∧ other < spi + left
  perms : ∀ other, after.perm other =
    before.perm other ||| if spi ≤ other ∧ other < spi + left then perm else 0

theorem stagePages_adds (perm : BitVec 3) (left spi : Nat) {byte : Nat → UInt8}
    (loading : Loading pool board mid staging) (fits : spi + left ≤ board.imagePages)
    (holds : staging.Holds byte) (blank : ∀ off, staging.staged (off / pageSize) = 0 → byte off = 0)
    (done : (stagePages pool perm left spi staging).1 = true) :
    Staged.Adds perm spi left staging (stagePages pool perm left spi staging).2 ∧
      (stagePages pool perm left spi staging).2.Holds byte := by
  induction left generalizing spi staging with
  | zero =>
    refine ⟨⟨fun other => ?_, fun other => ?_⟩, holds⟩
    · exact ⟨.inl, fun cases => cases.resolve_right (by omega)⟩
    · rw [if_neg (by omega)]
      simp [stagePages]
  | succ _ ih =>
    rw [stagePages] at done ⊢
    generalize taken : (if staging.staged spi = 0 then staging.machine.tryAlloc pool
      else (staging.staged spi, staging.machine)) = page at done ⊢
    by_cases missed : page.1 = 0
    · simp [missed] at done
    · simp only [if_neg missed] at done ⊢
      have next := loading.stage perm (by omega) taken.symm missed
      have kept : Staging.Holds
          { machine := page.2
            staged := Function.update staging.staged spi page.1
            perm := Function.update staging.perm spi (staging.perm spi ||| perm)
            pageCount := max staging.pageCount (spi + 1) } byte := by
        intro off there
        have within : off % pageSize < pageSize := Nat.mod_lt _ (by decide)
        by_cases new : staging.staged spi = 0
        · rw [if_pos new] at taken
          subst taken
          by_cases same : off / pageSize = spi
          · simp only [Staging.place, same, Function.update_self]
            rw [take_clear missed within, blank off (by rw [same, new])]
          · simp only [Staging.place, Function.update_of_ne same] at there ⊢
            rw [loading.take_memory missed there within]
            exact holds off there
        · rw [if_neg new] at taken
          subst taken
          simp only [Function.update_eq_self] at there ⊢
          exact holds off there
      obtain ⟨added, held⟩ := ih (spi + 1) next (by omega) kept (by
        intro off absent
        dsimp only at absent
        refine blank off ?_
        by_cases same : off / pageSize = spi
        · rw [same, Function.update_self] at absent
          exact absurd absent missed
        · simpa [same] using absent) done
      refine ⟨⟨fun other => ?_, fun other => ?_⟩, held⟩
      · rw [added.pages]
        dsimp only
        by_cases same : other = spi
        · subst same
          simp only [Function.update_self]
          omega
        · rw [Function.update_of_ne same]
          omega
      · rw [added.perms]
        dsimp only
        by_cases same : other = spi
        · subst same
          rw [if_neg (by omega)]
          simp
        · rw [Function.update_of_ne same]
          congr 1
          exact if_congr (by omega) rfl rfl

/-- A run of bytes inside one page is a run of bytes in memory. -/
theorem Loading.place_within (loading : Loading pool board mid staging) {dst chunk : Nat}
    (there : staging.staged (dst / pageSize) ≠ 0) (also : staging.staged (off / pageSize) ≠ 0)
    (fits : dst % pageSize + chunk ≤ pageSize) :
    staging.place dst ≤ staging.place off ∧ staging.place off < staging.place dst + chunk ↔
      dst ≤ off ∧ off < dst + chunk := by
  by_cases same : dst / pageSize = off / pageSize
  · simp only [Staging.place, same]
    unfold pageSize at *
    omega
  · have apart := loading.apart there also same
    simp only [Staging.place]
    unfold pageSize at *
    omega

variable (image : Nat → UInt8)

def overlaid (offset start count : Nat) (byte : Nat → UInt8) (off : Nat) : UInt8 :=
  if start ≤ off ∧ off < start + count then image (offset + (off - start)) else byte off

theorem copyChunks_holds {offset start filesz : Nat} {byte : Nat → UInt8}
    (loading : Loading pool board mid staging)
    (there : ∀ i, i < filesz → staging.staged ((start + i) / pageSize) ≠ 0)
    (fuel done : Nat) (memory : Memory) (enough : filesz ≤ fuel + done) (most : done ≤ filesz)
    (holds : ∀ off, staging.staged (off / pageSize) ≠ 0 →
      memory (staging.place off) = overlaid image offset start done byte off) :
    ∀ off, staging.staged (off / pageSize) ≠ 0 →
      copyChunks image staging.staged offset start filesz fuel done memory (staging.place off) =
        overlaid image offset start filesz byte off := by
  induction fuel generalizing done memory with
  | zero =>
    have all : done = filesz := by omega
    rw [← all]
    exact holds
  | succ _ ih =>
    rw [copyChunks]
    by_cases more : done < filesz
    · rw [if_pos more]
      have low : (start + done) % pageSize < pageSize := Nat.mod_lt _ (by decide)
      generalize size : min (pageSize - (start + done) % pageSize) (filesz - done) = chunk
      refine ih _ _ (by omega) (by omega) ?_
      intro off also
      have within := loading.place_within (there done more) also
        (show (start + done) % pageSize + chunk ≤ pageSize by omega)
      have before := holds off also
      change copied memory (staging.place (start + done)) _ _ _ = _
      by_cases copiedNow : start + done ≤ off ∧ off < start + done + chunk
      · have here := within.mpr copiedNow
        have place : staging.place off - staging.place (start + done) = off - (start + done) := by
          have page : (start + done) / pageSize = off / pageSize := by
            unfold pageSize at *
            omega
          simp only [Staging.place, page] at here ⊢
          unfold pageSize at *
          omega
        rw [copied, if_pos here, overlaid, if_pos (by omega)]
        congr 1
        omega
      · rw [copied, if_neg (fun here => copiedNow (within.mp here)), before]
        exact if_congr (by omega) rfl rfl
    · have all : done = filesz := by omega
      rw [if_neg more, ← all]
      exact holds

structure Faithful (image : Nat → UInt8) (phs : List Phdr) (staging : Staging) : Prop where
  pages : ∀ spi, staging.staged spi ≠ 0 ↔ ∃ ph ∈ phs, ph.touches spi = true
  perms : ∀ spi, staging.perm spi = laidPerm phs spi
  bytes : staging.Holds (laidOut image phs)

theorem laidOut_append (phs : List Phdr) (ph : Phdr) (off : Nat) : laidOut image (phs ++ [ph]) off =
      if ph.inFile off then image (ph.offset + (off - ph.start)) else laidOut image phs off := by
  unfold laidOut
  rw [List.foldl_concat]

theorem laidPerm_append (phs : List Phdr) (ph : Phdr) (spi : Nat) :
    laidPerm (phs ++ [ph]) spi =
      laidPerm phs spi ||| if ph.touches spi then segPerm ph.flags else 0 := by
  unfold laidPerm
  rw [List.foldl_concat]

variable {ph : Phdr}

theorem Phdr.inFile_iff : ph.inFile off = true ↔ ph.start ≤ off ∧ off < ph.start + ph.filesz := by
  simp only [Phdr.inFile, Bool.and_eq_true, decide_eq_true_eq]

theorem Phdr.touches_iff :
    ph.touches spi = true ↔ ph.start / pageSize ≤ spi ∧
      spi < (ph.start + ph.memsz + pageSize - 1) / pageSize := by
  simp only [Phdr.touches, Bool.and_eq_true, decide_eq_true_eq]

theorem Phdr.touches_of_inFile (file : ph.filesz ≤ ph.memsz) (inside : ph.inFile off = true) :
    ph.touches (off / pageSize) = true := by
  rw [Phdr.touches_iff]
  have within := Phdr.inFile_iff.mp inside
  unfold pageSize
  omega

variable {image : Nat → UInt8}
variable {phs : List Phdr}

theorem laidOut_blank (outside : ∀ ph ∈ phs, ph.inFile off = false) :
    laidOut image phs off = 0 := by
  induction phs using List.reverseRecOn with
  | nil => rfl
  | append_singleton _ ph ih =>
    rw [laidOut_append, outside ph (by simp)]
    exact ih fun other member => outside other (by simp [member])

theorem laidOut_untouched (files : ∀ ph ∈ phs, ph.filesz ≤ ph.memsz)
    (untouched : ∀ ph ∈ phs, ph.touches (off / pageSize) = false) : laidOut image phs off = 0 := by
  refine laidOut_blank fun ph member => ?_
  by_contra inside
  have touched := Phdr.touches_of_inFile (files ph member) (by simpa using inside)
  simp [untouched ph member] at touched

theorem stageSegment_faithful (image : Nat → UInt8) {startOff : Nat}
    (loading : Loading pool board mid staging) (faithful : Faithful image phs staging)
    (files : ∀ other ∈ phs, other.filesz ≤ other.memsz) (file : ph.filesz ≤ ph.memsz)
    (start : ph.start = startOff) (high : startOff + ph.memsz ≤ board.imageMax)
    (done : (stageSegment pool image staging ph startOff).1 = true) :
    Faithful image (phs ++ [ph]) (stageSegment pool image staging ph startOff).2 := by
  obtain ⟨imagePages, whole⟩ := board.aligned
  have fits : startOff / pageSize +
      ((startOff + ph.memsz + pageSize - 1) / pageSize - startOff / pageSize) ≤
        board.imagePages := by
    unfold Board.imagePages
    unfold pageSize at *
    omega
  have blank : ∀ off, staging.staged (off / pageSize) = 0 → laidOut image phs off = 0 := by
    intro off absent
    refine laidOut_untouched files fun other member => ?_
    by_contra touched
    exact (faithful.pages _).mpr ⟨other, member, by simpa using touched⟩ absent
  have touched : ∀ spi, startOff / pageSize ≤ spi ∧
      spi < startOff / pageSize +
        ((startOff + ph.memsz + pageSize - 1) / pageSize - startOff / pageSize) ↔
      ph.touches spi = true := by
    intro spi
    rw [Phdr.touches_iff, start]
    omega
  unfold stageSegment at done ⊢
  dsimp only at done ⊢
  split at done
  · next staged =>
      have after := (stagePages_loading (segPerm ph.flags) _ _ loading fits).1
      obtain ⟨added, holds⟩ :=
        stagePages_adds (segPerm ph.flags) _ _ loading fits faithful.bytes blank staged
      rw [if_pos staged]
      generalize (stagePages pool (segPerm ph.flags) _ _ staging).2 = next at after added holds ⊢
      refine ⟨fun spi => ?_, fun spi => ?_, fun off there => ?_⟩
      · simp only [added.pages, touched, faithful.pages, List.mem_append, List.mem_singleton]
        constructor
        · rintro (⟨other, member, touches⟩ | touches)
          · exact ⟨other, .inl member, touches⟩
          · exact ⟨ph, .inr rfl, touches⟩
        · rintro ⟨other, member | rfl, touches⟩
          · exact .inl ⟨other, member, touches⟩
          · exact .inr touches
      · simp only [added.perms, touched, faithful.perms, laidPerm_append]
      · have reserved : ∀ i, i < ph.filesz → next.staged ((startOff + i) / pageSize) ≠ 0 := by
          intro i inside
          rw [added.pages]
          exact .inr ((touched _).mpr (Phdr.touches_of_inFile file
            (Phdr.inFile_iff.mpr (by omega))))
        have none_yet : ∀ off, next.staged (off / pageSize) ≠ 0 →
            next.machine.memory (next.place off) =
              overlaid image ph.offset startOff 0 (laidOut image phs) off := by
          intro off staged
          rw [overlaid, if_neg (by omega)]
          exact holds off staged
        have copied := copyChunks_holds image after reserved ph.filesz 0 next.machine.memory
          (by omega) (by omega) none_yet off there
        rw [laidOut_append]
        refine copied.trans ?_
        by_cases inside : ph.inFile off = true
        · have within := Phdr.inFile_iff.mp inside
          rw [start] at within
          rw [if_pos inside, overlaid, if_pos within, start]
        · rw [if_neg inside, overlaid, if_neg fun within =>
            inside (Phdr.inFile_iff.mpr (by rwa [start]))]
  · next missed => exact absurd done missed

/-- What the checks of a segment's header leave. -/
structure Phdr.Sound (ph : Phdr) (board : Board) (size : Nat) : Prop where
  file : ph.filesz ≤ ph.memsz
  low : userBase ≤ ph.vaddr
  high : ph.start + ph.memsz ≤ board.imageMax
  inside : ph.offset + ph.filesz ≤ size

theorem segmentRefused_false (passed : segmentRefused board size ph = false) :
    ph.Sound board size := by
  simp only [segmentRefused, Bool.or_eq_false_iff, decide_eq_false_iff_not] at passed
  exact ⟨by omega, by omega, by unfold Phdr.start; omega, by omega⟩

theorem loadableOf_succ (image : Nat → UInt8) (count : Nat) :
    loadableOf image (count + 1) = loadableOf image count ++
      [readPhdr image (phoffOf image + count * 56)].filter fun ph => ph.type = 1 := by
  rw [loadableOf, List.range_succ, List.map_append, List.filter_append]
  rfl

/-- The state of the loop over the headers. -/
structure Loads (pool : Pool) (board : Board) (mid : Machine) (image : Nat → UInt8) (size : Nat)
    (phs : List Phdr) (staging : Staging) : Prop where
  loading : Loading pool board mid staging
  faithful : Faithful image phs staging
  sound : ∀ ph ∈ phs, ph.Sound board size

theorem loadSegment_loads {count : Nat}
    (loads : Loads pool board mid image size (loadableOf image count) staging)
    (done : (loadSegment pool board image size staging
      (readPhdr image (phoffOf image + count * 56))).1 = true) :
    Loads pool board mid image size (loadableOf image (count + 1))
      (loadSegment pool board image size staging
        (readPhdr image (phoffOf image + count * 56))).2 := by
  have loading := loadSegment_loading image size
    (readPhdr image (phoffOf image + count * 56)) loads.loading
  rw [loadableOf_succ]
  generalize readPhdr image (phoffOf image + count * 56) = ph at done loading ⊢
  by_cases load : ph.type = 1
  · rw [List.filter_cons_of_pos (by simpa using load)]
    unfold loadSegment at done loading ⊢
    rw [if_neg (by simpa using load)] at done loading ⊢
    cases passed : segmentRefused board size ph with
    | true => simp [passed] at done
    | false =>
      simp only [passed, Bool.false_eq_true, if_false] at done loading ⊢
      have sound := segmentRefused_false passed
      refine ⟨loading, ?_, ?_⟩
      · exact stageSegment_faithful image loads.loading loads.faithful
          (fun other member => (loads.sound other member).file) sound.file rfl sound.high done
      · intro other member
        rcases List.mem_append.mp member with old | new
        · exact loads.sound other old
        · rw [List.mem_singleton.mp new]
          exact sound
  · rw [List.filter_cons_of_neg (by simpa using load), List.filter_nil, List.append_nil]
    unfold loadSegment
    rw [if_pos (by simpa using load)]
    exact loads

theorem loadSegments_loads {left count : Nat}
    (loads : Loads pool board mid image size (loadableOf image count) staging)
    (done : (loadSegments pool board image size left count staging).1 = true) :
    Loads pool board mid image size (loadableOf image (count + left))
      (loadSegments pool board image size left count staging).2 := by
  induction left generalizing count staging with
  | zero => exact loads
  | succ left ih =>
    rw [loadSegments] at done ⊢
    split at done
    · next first =>
        rw [if_pos first, show count + (left + 1) = count + 1 + left by omega]
        exact ih (loadSegment_loads loads first) done
    · next missed => exact absurd done missed

/-- Every page staged was free, and nothing is written but these pages. -/
structure Confined (pool : Pool) (board : Board) (machine : Machine)
    (staging : Staging) : Prop where
  count : staging.pageCount ≤ board.imagePages
  pages : ∀ spi, staging.staged spi ≠ 0 → spi < staging.pageCount ∧
    ∃ index, index < pool.ramPageCount ∧ staging.staged spi = pageBase pool index ∧
      bitIsSet machine.alloc index = false
  distinct : ∀ spi other, staging.staged spi ≠ 0 → staging.staged spi = staging.staged other →
    spi = other
  writes : ∀ addr, staging.machine.memory addr ≠ machine.memory addr →
    ∃ spi, staging.staged spi ≠ 0 ∧ staging.staged spi ≤ addr ∧
      addr < staging.staged spi + pageSize

def Staged.Confined (pool : Pool) (board : Board) (machine : Machine) : Staged → Prop
  | .refused after =>
    ∃ staging, Exec.Confined pool board machine staging ∧ after.memory = staging.machine.memory
  | .loaded staging _ => Exec.Confined pool board machine staging

/-- The pages of an accepted image: its segments as they are laid out, the permissions of
all segments that touch a page, and the entry. -/
structure Laid (image : Nat → UInt8) (size : Nat) (staging : Staging) (entry : Nat) : Prop where
  files : ∀ ph ∈ loadable image, userBase ≤ ph.vaddr ∧ ph.filesz ≤ ph.memsz ∧
    ph.offset + ph.filesz ≤ size
  bytes : ∀ ph ∈ loadable image, ∀ i, i < ph.memsz →
    staging.staged ((ph.start + i) / pageSize) ≠ 0 ∧
      staging.machine.memory (staging.place (ph.start + i)) =
        laidOut image (loadable image) (ph.start + i)
  sole : ∀ ph ∈ loadable image, ∀ i, i < ph.memsz →
    (∀ other ∈ loadable image, other.inFile (ph.start + i) = true → other = ph) →
    staging.machine.memory (staging.place (ph.start + i)) =
      if i < ph.filesz then image (ph.offset + i) else 0
  perms : ∀ spi, staging.staged spi ≠ 0 → staging.perm spi = laidPerm (loadable image) spi
  entry : entry = entryOf image ∧ userBase ≤ entry ∧
    staging.staged ((entry - userBase) / pageSize) ≠ 0

theorem Loading.confined (loading : Loading pool board mid staging) :
    Exec.Confined pool board mid staging where
  count := loading.short
  pages spi there := by
    have inside := loading.inside spi there
    exact ⟨inside, loading.stages.fresh _
      (mem_stagedPages (Nat.lt_of_lt_of_le inside loading.short) there)⟩
  distinct spi other there same :=
    stagedPages_inj loading.stages.nodup
      (Nat.lt_of_lt_of_le (loading.inside spi there) loading.short)
      (Nat.lt_of_lt_of_le (loading.inside other (same ▸ there)) loading.short) there same
  writes addr changed := by
    by_contra none
    refine changed (loading.stages.apart addr fun page member within => none ?_)
    obtain ⟨member, there⟩ := List.mem_filter.mp member
    obtain ⟨spi, -, rfl⟩ := List.mem_map.mp member
    exact ⟨spi, by simpa using there, within⟩

theorem freeAll_memory (pages : List Nat) (machine : Machine) :
    (machine.freeAll pool pages).memory = machine.memory := by
  induction pages generalizing machine with
  | nil => rfl
  | cons page rest ih => exact ih (machine.free pool page 1)

theorem stageElf_confined (board : Board) (machine : Machine) (image : Nat → UInt8) (size : Nat) :
    (stageElf pool board machine image size).Confined pool board machine := by
  unfold stageElf
  split
  · exact ⟨unstaged machine, (Loading.start pool board machine).confined, rfl⟩
  · have loading := loadSegments_loading image size (phnumOf image) 0
      (Loading.start pool board machine)
    dsimp only
    split
    · exact loading.confined
    · exact ⟨_, loading.confined, freeAll_memory _ _⟩

theorem Loads.start (pool : Pool) (board : Board) (mid : Machine) (image : Nat → UInt8)
    (size : Nat) : Loads pool board mid image size (loadableOf image 0) (unstaged mid) where
  loading := Loading.start pool board mid
  faithful := ⟨by simp [unstaged, loadableOf], by simp [unstaged, loadableOf, laidPerm],
    by simp [unstaged, Staging.Holds]⟩
  sound := by simp [loadableOf]

theorem Phdr.touches_of_lt {i : Nat} (inside : i < ph.memsz) :
    ph.touches ((ph.start + i) / pageSize) = true := by
  rw [Phdr.touches_iff]
  unfold pageSize
  omega

/-- Where no other segment has a byte in the file, a segment is its bytes in the file and
zeros behind them. -/
theorem laidOut_sole (member : ph ∈ phs)
    (sole : ∀ other ∈ phs, other.inFile off = true → other = ph) :
    laidOut image phs off = if ph.inFile off then image (ph.offset + (off - ph.start)) else 0 := by
  by_cases found : ph.inFile off = true
  · rw [if_pos found]
    induction phs using List.reverseRecOn with
    | nil => simp at member
    | append_singleton phs last ih =>
      rw [laidOut_append]
      by_cases inside : last.inFile off = true
      · rw [if_pos inside, sole last (by simp) inside]
      · rw [if_neg inside]
        have old : ph ∈ phs := by
          rcases List.mem_append.mp member with old | new
          · exact old
          · exact absurd (List.mem_singleton.mp new ▸ found) inside
        exact ih old fun other member => sole other (by simp [member])
  · rw [if_neg found]
    refine laidOut_blank fun other there => ?_
    by_contra inside
    have inside : other.inFile off = true := by simpa using inside
    exact found (sole other there inside ▸ inside)

theorem stageElf_laid {machine : Machine} {entry : Nat}
    (done : stageElf pool board machine image size = .loaded staging entry) :
    Laid image size staging entry := by
  unfold stageElf at done
  split at done
  · cases done
  · dsimp only at done
    split at done
    · next accepted =>
        cases done
        obtain ⟨loaded, entered⟩ := Bool.and_eq_true_iff.mp accepted
        have loads := loadSegments_loads (Loads.start pool board machine image size) loaded
        rw [Nat.zero_add] at loads
        change Loads pool board machine image size (loadable image) _ at loads
        simp only [entryStaged, Bool.and_eq_true, decide_eq_true_eq, bne_iff_ne] at entered
        have there : ∀ ph ∈ loadable image, ∀ i, i < ph.memsz → _ := fun ph member i inside =>
          (loads.faithful.pages ((ph.start + i) / pageSize)).mpr
            ⟨ph, member, Phdr.touches_of_lt inside⟩
        refine ⟨fun ph member => ?_, fun ph member i inside => ?_,
          fun ph member i inside sole => ?_, fun spi _ => ?_, ?_⟩
        · have sound := loads.sound ph member
          exact ⟨sound.low, sound.file, sound.inside⟩
        · exact ⟨there ph member i inside, loads.faithful.bytes _ (there ph member i inside)⟩
        · refine (loads.faithful.bytes _ (there ph member i inside)).trans ?_
          rw [laidOut_sole member sole, Nat.add_sub_cancel_left]
          by_cases file : i < ph.filesz
          · rw [if_pos file, if_pos (Phdr.inFile_iff.mpr (by omega))]
          · rw [if_neg file, if_neg fun found => file (by have := Phdr.inFile_iff.mp found; omega)]
        · exact loads.faithful.perms spi
        · exact ⟨rfl, entered.1.1, entered.2⟩
    · cases done

section Mapped
variable {Mounts : Type u} {before after : State Mounts} {loaded : Loaded}

theorem clearUser_memory (leaves : List (Nat × Leaf)) (machine : Machine) (table : PageTable) :
    (leaves.foldl (clearLeaf pool) (machine, table)).1.memory = machine.memory := by
  induction leaves generalizing machine table with
  | nil => rfl
  | cons entry _ ih =>
    have kept : (clearLeaf pool (machine, table) entry).1.memory = machine.memory := by
      unfold clearLeaf
      split
      · split <;> rfl
      · rfl
    rw [← kept]
    exact ih _ _

theorem segReleaseTable_memory (state : State Mounts) :
    (segReleaseTable pool state).machine.memory = state.machine.memory := by
  unfold segReleaseTable
  generalize List.range segAttachMax = indexes
  induction indexes generalizing state with
  | nil => rfl
  | cons _ _ ih =>
    refine (ih _).trans ?_
    dsimp only
    split
    · unfold segUnref
      dsimp only
      split <;> rfl
    · rfl

theorem commit_memory (done : commit pool before loaded = some after) :
    after.machine.memory = before.machine.memory ∧ after.savedSepc = loaded.entry := by
  obtain ⟨build, -, rfl⟩ := Option.map_eq_some_iff.mp done
  rw [segReleaseTable_memory]
  rw [clearUser, clearUser_memory]
  exact ⟨rfl, rfl⟩

/-- A process's address space once it runs the image. -/
structure Mapped (after : State Mounts) (image : Nat → UInt8) : Prop where
  bytes : ∀ ph ∈ loadable image, ∀ i, i < ph.memsz →
    heldAt after.machine.memory after.table (ph.vaddr + i) =
      laidOut image (loadable image) (ph.start + i)
  leaves : ∀ ph ∈ loadable image, ∀ i, i < ph.memsz →
    ∃ paddr, pteLeaf after.table (ph.vaddr + i) =
      some ⟨paddr, laidPerm (loadable image) ((ph.start + i) / pageSize), true, false⟩
  entry : after.savedSepc = entryOf image ∧ (pteLeaf after.table (entryOf image)).isSome

theorem execFrom_maps {state after : State Mounts} {argvLen : Nat} {argc : Int}
    (short : argvLen ≤ argvMax) (elf : isElf (given state) size = true)
    (done : execFrom pool board state size argvLen argc = .committed after) :
    Mapped after (given state) := by
  unfold execFrom stageImage at done
  dsimp only at done
  rw [if_pos elf] at done
  have confined : (stageElf pool board state.machine (given state) size).Confined pool board
      state.machine := stageElf_confined board state.machine (given state) size
  have sound : (stageElf pool board state.machine (given state) size).Sound pool state.machine :=
    stageElf_sound board state.machine (given state) size
  cases staged : stageElf pool board state.machine (given state) size with
  | refused machine => simp [staged] at done
  | loaded staging entry =>
    have laid := stageElf_laid staged
    rw [staged] at confined sound
    simp only [staged] at done
    generalize (fun i => given state (size + i)) = argv at done
    have taken := @argvPages_stages pool staging.machine staging.machine [] argv argvLen
      (pagesFor argvLen) [] (Stages.start pool staging.machine)
    cases run : argvPages pool argv argvLen (pagesFor argvLen) [] staging.machine with
    | mk ok rest =>
      obtain ⟨machine, pages⟩ := rest
      rw [run] at taken done
      cases ok with
      | false => simp at done
      | true =>
        dsimp only at done
        generalize committed : commit pool { state with machine := machine }
          ⟨staging, entry, pages, argc, _⟩ = outcome at done
        cases outcome with
        | none => simp at done
        | some final =>
          simp only [Outcome.committed.injEq] at done
          subst done
          simp only [List.length_nil] at taken
          obtain ⟨memory, sepc⟩ := commit_memory committed
          have images : board.imagePages ≤ 32768 := by
            have bounded := board.bounded
            unfold Board.imagePages pageSize
            omega
          have count : staging.pageCount ≤ 32768 := Nat.le_trans confined.count images
          have few : pages.length ≤ 32768 := by
            rw [taken.2]
            unfold pagesFor pageSize
            unfold argvMax at short
            omega
          have leaf : ∀ off, staging.staged (off / pageSize) ≠ 0 →
              pteLeaf final.table (userBase + off) = some ⟨staging.staged (off / pageSize),
                staging.perm (off / pageSize), true, false⟩ := by
            intro off there
            have inside := (confined.pages _ there).1
            have small : off < 0x1000000000 := by
              unfold pageSize at inside
              omega
            rw [pteLeaf, vpnOf_user small]
            exact commit_maps committed count few there inside
          have byte : ∀ off, staging.staged (off / pageSize) ≠ 0 →
              heldAt final.machine.memory final.table (userBase + off) =
                staging.machine.memory (staging.place off) := by
            intro off there
            have rest : (userBase + off) % pageSize = off % pageSize := by
              simp only [userBase, pageSize]
              omega
            have within : off % pageSize < pageSize := Nat.mod_lt _ (by decide)
            rw [heldAt, leaf off there]
            dsimp only
            rw [memory, rest]
            -- the argument pages are none of the image's
            exact taken.1.kept _ (sound.used
              (mem_stagedPages (confined.pages _ there).1 there) (by omega) (by omega))
          have address : ∀ ph ∈ loadable (given state), ∀ i,
              ph.vaddr + i = userBase + (ph.start + i) := by
            intro ph member i
            have low := (laid.files ph member).1
            unfold Phdr.start
            omega
          refine ⟨fun ph member i inside => ?_, fun ph member i inside => ?_, ?_, ?_⟩
          · obtain ⟨there, held⟩ := laid.bytes ph member i inside
            rw [address ph member, byte _ there, held]
          · obtain ⟨there, -⟩ := laid.bytes ph member i inside
            rw [address ph member, leaf _ there, laid.perms _ there]
            exact ⟨_, rfl⟩
          · rw [sepc]
            exact laid.entry.1
          · obtain ⟨named, low, there⟩ := laid.entry
            rw [← named, ← Nat.add_sub_cancel' low, leaf _ there]
            rfl

end Mapped

end Faithful

structure Staged.Faithful (pool : Pool) (board : Board) (machine : Machine) (image : Nat → UInt8)
    (size : Nat) : Prop where
  reads : ∀ other, Agree size image other →
    stageElf pool board machine other size = stageElf pool board machine image size
  writes : (stageElf pool board machine image size).Confined pool board machine
  accepts : ∀ staging entry, stageElf pool board machine image size = .loaded staging entry →
    Laid image size staging entry

/-- Whatever the bytes of an image are, it is read and written within bounds, and a process
that runs it has its segments in its address space as they are laid out. -/
theorem elf_loader_faithful {Mounts : Type u} (pool : Pool) (board : Board) :
    (∀ machine image size, isElf image size = true →
      Staged.Faithful pool board machine image size) ∧
    ∀ before after : State Mounts, sysExec pool board before = .committed after →
      let image := given (before.faultedIn pool (validated pool before).2)
      isElf image (uint (before.frame a1)) = true → Mapped after image := by
  constructor
  · intro machine image size elf
    have long : 64 ≤ size := by
      by_contra short
      simp [isElf, short] at elf
    exact ⟨fun other agree => (agree.stageElf_eq long machine).symm,
      stageElf_confined board machine image size, fun _ _ => stageElf_laid⟩
  · intro before after done image elf
    rw [sysExec_eq] at done
    split at done
    · cases done
    · next sizes =>
        split at done
        · exact execFrom_maps (by omega) elf done
        · cases done

def number (size value : Nat) : List UInt8 :=
  (List.range size).map fun i => UInt8.ofNat (value / 256 ^ i)

def phdrBytes (offset vaddr filesz memsz : Nat) : List UInt8 :=
  number 4 1 ++ number 4 5 ++ number 8 offset ++ number 8 vaddr ++ number 8 vaddr ++
    number 8 filesz ++ number 8 memsz ++ number 8 4096

/-- Two segments at one address: the second has one byte in the file and is as long as
the first. -/
def doubled : List UInt8 :=
  [0x7F, 69, 76, 70, 2, 1, 1, 0] ++ number 8 0 ++ number 2 2 ++ number 2 243 ++ number 4 1 ++
    number 8 userBase ++ number 8 64 ++ number 8 0 ++ number 4 0 ++ number 2 64 ++ number 2 56 ++
    number 2 2 ++ number 6 0 ++ phdrBytes 0 userBase 4 4 ++ phdrBytes 2 userBase 1 4

def doubledImage (i : Nat) : UInt8 := doubled.getD i 0

def smallPool : Pool := ⟨0x80000000, 0x80000000 + 8192, roomyPool.notNull⟩

def blankMachine : Machine := ⟨initial, fun _ => 0, []⟩

def HoldsRange (image : Nat → UInt8) (staging : Staging) (ph : Phdr) : Prop :=
  ∀ i, i < ph.memsz → staging.machine.memory (staging.place (ph.start + i)) =
    if i < ph.filesz then image (ph.offset + i) else 0

def heldBytes : Staged → Option (UInt8 × UInt8)
  | .refused _ => none
  | .loaded staging _ => some (staging.machine.memory (staging.place 0),
      staging.machine.memory (staging.place 1))

set_option maxRecDepth 4000

theorem overlapping_segments_mixed :
    isElf doubledImage doubled.length = true ∧
      ∃ staging entry,
        stageElf smallPool smallBoard blankMachine doubledImage doubled.length =
          .loaded staging entry ∧
        ∀ ph ∈ loadable doubledImage, ¬ HoldsRange doubledImage staging ph := by
  have held : heldBytes (stageElf smallPool smallBoard blankMachine doubledImage doubled.length) =
      some (76, 69) := by decide
  have ranges : (loadable doubledImage).map (fun ph => (ph.start, ph.offset, ph.filesz, ph.memsz)) =
      [(0, 0, 4, 4), (0, 2, 1, 4)] := by decide
  refine ⟨by decide, ?_⟩
  cases staged : stageElf smallPool smallBoard blankMachine doubledImage doubled.length with
  | refused machine => simp [staged, heldBytes] at held
  | loaded staging entry =>
    rw [staged] at held
    simp only [heldBytes, Option.some.injEq, Prod.mk.injEq] at held
    refine ⟨staging, entry, rfl, fun ph member range => ?_⟩
    have listed := List.mem_map_of_mem (f := fun ph : Phdr =>
      (ph.start, ph.offset, ph.filesz, ph.memsz)) member
    rw [ranges] at listed
    simp only [List.mem_cons, Prod.mk.injEq, List.not_mem_nil, or_false] at listed
    rcases listed with ⟨start, offset, filesz, memsz⟩ | ⟨start, offset, filesz, memsz⟩
    · -- the first segment's first byte is the second's
      have byte := range 0 (by omega)
      rw [start, held.1, offset, filesz] at byte
      exact absurd byte (by decide)
    · -- the second segment is not cleared behind its byte
      have byte := range 1 (by omega)
      rw [start, held.2, if_neg (by omega)] at byte
      exact absurd byte (by decide)

theorem elf_loader_faithful_doubled :
    Staged.Faithful smallPool smallBoard blankMachine doubledImage doubled.length :=
  (@elf_loader_faithful Unit smallPool smallBoard).1 blankMachine doubledImage doubled.length
    (by decide)

end Racccoon.Exec
