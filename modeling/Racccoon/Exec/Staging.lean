import Racccoon.Exec.Model

/-!
What staging does to the machine: the pages staged were free, nothing but them is written,
and giving them back leaves the pool as it was.
-/

namespace Racccoon.Exec
open Function (update update_self update_of_ne)

open PageAllocator Paging

variable {pool : Pool} {mid machine : Machine} {pages : List Nat}

def InPage (pool : Pool) (index addr : Nat) : Prop :=
  pageBase pool index ≤ addr ∧ addr < pageBase pool index + pageSize

structure Restored (pool : Pool) (mid machine : Machine) : Prop where
  bits : ∀ index, bitIsSet machine.alloc index = bitIsSet mid.alloc index
  kept : ∀ addr, (∀ index, InPage pool index addr → bitIsSet mid.alloc index = true) →
    machine.memory addr = mid.memory addr

structure Taken (pool : Pool) (mid machine : Machine) (pages : List Nat) : Prop where
  nodup : pages.Nodup
  fresh : ∀ page ∈ pages, ∃ index, index < pool.ramPageCount ∧ page = pageBase pool index ∧
    bitIsSet mid.alloc index = false
  bits : ∀ index, bitIsSet machine.alloc index =
    (bitIsSet mid.alloc index || decide (pageBase pool index ∈ pages))
  kept : ∀ addr, (∀ index, InPage pool index addr → bitIsSet mid.alloc index = true) →
    machine.memory addr = mid.memory addr

structure Stages (pool : Pool) (mid machine : Machine) (pages : List Nat) : Prop
    extends Taken pool mid machine pages where
  apart : ∀ addr, (∀ page ∈ pages, ¬ (page ≤ addr ∧ addr < page + pageSize)) →
    machine.memory addr = mid.memory addr
  log : machine.freed = mid.freed

theorem pageBase_inj {first second : Nat} (same : pageBase pool first = pageBase pool second) :
    first = second := by
  unfold pageBase pageSize at same
  omega

theorem Restored.refl (pool : Pool) (mid : Machine) : Restored pool mid mid :=
  ⟨fun _ => rfl, fun _ _ => rfl⟩

theorem Stages.start (pool : Pool) (mid : Machine) : Stages pool mid mid [] where
  nodup := List.nodup_nil
  fresh := by simp
  bits := by simp
  kept _ _ := rfl
  apart _ _ := rfl
  log := rfl

theorem Taken.perm (taken : Taken pool mid machine pages) {others : List Nat}
    (perm : others.Perm pages) : Taken pool mid machine others where
  nodup := perm.nodup_iff.mpr taken.nodup
  fresh page member := taken.fresh page (perm.mem_iff.mp member)
  bits index := by simp only [taken.bits, perm.mem_iff]
  kept := taken.kept

theorem Stages.perm (stages : Stages pool mid machine pages) {others : List Nat}
    (perm : others.Perm pages) : Stages pool mid machine others where
  toTaken := stages.toTaken.perm perm
  apart addr outside := stages.apart addr fun page member => outside page (perm.mem_iff.mpr member)
  log := stages.log

/-- What `try_alloc_pages(1)` does. -/
theorem tryAlloc_cases (pool : Pool) (machine : Machine) :
    ((machine.tryAlloc pool).1 = 0 ∧
        (∀ index, bitIsSet (machine.tryAlloc pool).2.alloc index = bitIsSet machine.alloc index) ∧
        (machine.tryAlloc pool).2.memory = machine.memory) ∨
      ∃ index, index < pool.ramPageCount ∧ (machine.tryAlloc pool).1 = pageBase pool index ∧
        (machine.tryAlloc pool).1 ≠ 0 ∧ bitIsSet machine.alloc index = false ∧
        (∀ other, bitIsSet (machine.tryAlloc pool).2.alloc other =
          (decide (other = index) || bitIsSet machine.alloc other)) ∧
        (machine.tryAlloc pool).2.memory = zeroed machine.memory (pageBase pool index) := by
  rcases tryAllocPages_claims pool machine.alloc 1 with ⟨missed, same⟩ | claimed
  · left
    exact ⟨missed, same, by simp [Machine.tryAlloc, missed]⟩
  · right
    have found := claimed.not_null
    obtain ⟨first, -, fits, address, clear, set⟩ := claimed.run
    refine ⟨first, by omega, address, found, clear first (Nat.le_refl _) (by omega), ?_, ?_⟩
    · intro other
      rw [show (machine.tryAlloc pool).2.alloc = (tryAllocPages pool machine.alloc 1).2 from rfl, set]
      congr 1
      rw [decide_eq_decide]
      omega
    · simp only [Machine.tryAlloc, if_neg found]
      rw [address]
      rfl

theorem zeroed_apart {memory : Memory} {paddr addr : Nat}
    (outside : ¬ (paddr ≤ addr ∧ addr < paddr + pageSize)) : zeroed memory paddr addr = memory addr :=
  if_neg outside

theorem copied_apart {memory : Memory} {dst len addr : Nat} {source : Nat → UInt8}
    (outside : ¬ (dst ≤ addr ∧ addr < dst + len)) : copied memory dst source len addr = memory addr :=
  if_neg outside

theorem Stages.missed (stages : Stages pool mid machine pages)
    (missed : (machine.tryAlloc pool).1 = 0) : Stages pool mid (machine.tryAlloc pool).2 pages := by
  rcases tryAlloc_cases pool machine with ⟨-, bits, memory⟩ | ⟨_, _, _, found, _⟩
  · refine ⟨⟨stages.nodup, stages.fresh, ?_, ?_⟩, ?_, stages.log⟩
    · intro index
      rw [bits, stages.bits]
    · rw [memory]
      exact stages.kept
    · rw [memory]
      exact stages.apart
  · exact absurd missed found

theorem Stages.take (stages : Stages pool mid machine pages)
    (found : (machine.tryAlloc pool).1 ≠ 0) :
    Stages pool mid (machine.tryAlloc pool).2 ((machine.tryAlloc pool).1 :: pages) := by
  rcases tryAlloc_cases pool machine with ⟨missed, -, -⟩ | ⟨index, inside, address, -, clear, bits, memory⟩
  · exact absurd missed found
  · have was := stages.bits index
    rw [clear] at was
    obtain ⟨free, fresh⟩ := Bool.or_eq_false_iff.mp was.symm
    have new : pageBase pool index ∉ pages := by simpa using fresh
    rw [address]
    refine ⟨⟨List.nodup_cons.mpr ⟨new, stages.nodup⟩, ?_, ?_, ?_⟩, ?_, stages.log⟩
    · intro page member
      rcases List.mem_cons.mp member with rfl | old
      · exact ⟨index, inside, rfl, free⟩
      · exact stages.fresh page old
    · intro other
      rw [bits, stages.bits]
      by_cases same : other = index
      · subst same
        simp
      · have apart : pageBase pool other ≠ pageBase pool index := fun equal => same (pageBase_inj equal)
        simp [same, apart]
    · intro addr used
      rw [memory, zeroed_apart, stages.kept addr used]
      intro within
      have taken := used index within
      simp [free] at taken
    · intro addr outside
      rw [memory, zeroed_apart (outside _ List.mem_cons_self)]
      exact stages.apart addr fun page member => outside page (List.mem_cons_of_mem _ member)

variable {page n : Nat}

/-- Writing within a page taken. -/
theorem Stages.write (stages : Stages pool mid machine pages) {dst len : Nat}
    (member : page ∈ pages) (low : page ≤ dst) (high : dst + len ≤ page + pageSize)
    (source : Nat → UInt8) :
    Stages pool mid { machine with memory := copied machine.memory dst source len } pages := by
  refine ⟨⟨stages.nodup, stages.fresh, stages.bits, ?_⟩, ?_, stages.log⟩
  · intro addr used
    obtain ⟨index, -, here, free⟩ := stages.fresh page member
    have outside : ¬ (dst ≤ addr ∧ addr < dst + len) := by
      intro within
      have taken := used index (by unfold InPage; omega)
      simp [free] at taken
    exact (copied_apart outside).trans (stages.kept addr used)
  · intro addr outside
    have away := outside page member
    exact (copied_apart (by omega)).trans (stages.apart addr outside)

theorem Stages.used (stages : Stages pool mid machine pages) {addr : Nat} (member : page ∈ pages)
    (low : page ≤ addr) (high : addr < page + pageSize) :
    ∀ index, InPage pool index addr → bitIsSet machine.alloc index = true := by
  intro index within
  obtain ⟨other, -, rfl, -⟩ := stages.fresh page member
  have same : index = other := by
    unfold InPage pageBase pageSize at *
    omega
  rw [stages.bits, same]
  simp [member]

theorem free_bits {index : Nat} (inside : index < pool.ramPageCount) (machine : Machine) (other : Nat) :
    bitIsSet (machine.free pool (pageBase pool index) 1).alloc other =
      (!decide (other = index) && bitIsSet machine.alloc other) := by
  have placed : PageRun.Placed pool ⟨pageBase pool index, 1⟩ := ⟨Nat.one_pos, index, rfl, inside⟩
  have span := placed.inside
  have within : ¬ (pageBase pool index < pool.freeRam ∨ pageBase pool index ≥ pool.freeRamEnd) := by
    simp only [pageSize] at span
    omega
  simp only [Machine.free, freePages, if_neg within, bitIsSet]
  rw [Bitmap.test_removeRange bits_positive]
  congr 2
  rw [decide_eq_decide, pageBase, pageIndex_at]
  omega

theorem Taken.give (taken : Taken pool mid machine (page :: pages)) :
    Taken pool mid (machine.free pool page 1) pages := by
  obtain ⟨apart, nodup⟩ := List.nodup_cons.mp taken.nodup
  obtain ⟨index, inside, rfl, free⟩ := taken.fresh page List.mem_cons_self
  refine ⟨nodup, fun other member => taken.fresh other (List.mem_cons_of_mem _ member), ?_, taken.kept⟩
  intro other
  rw [free_bits inside, taken.bits]
  by_cases same : other = index
  · subst same
    simp [free, apart]
  · have elsewhere : pageBase pool other ≠ pageBase pool index := fun equal => same (pageBase_inj equal)
    simp [same, elsewhere]

theorem Taken.giveAll (taken : Taken pool mid machine pages) :
    Restored pool mid (machine.freeAll pool pages) := by
  induction pages generalizing machine with
  | nil => exact ⟨fun index => by simpa [Machine.freeAll] using taken.bits index, taken.kept⟩
  | cons _ _ ih => exact ih taken.give

theorem Taken.giveSome {others : List Nat} (taken : Taken pool mid machine (others ++ pages)) :
    Taken pool mid (machine.freeAll pool others) pages := by
  induction others generalizing machine with
  | nil => exact taken
  | cons page rest ih => exact ih taken.give

theorem stagedPages_succ (n : Nat) (staged : Nat → Nat) :
    stagedPages (n + 1) staged =
      stagedPages n staged ++ if staged n = 0 then [] else [staged n] := by
  simp only [stagedPages, List.range_succ]
  split <;> simp_all

variable {staged : Nat → Nat}

theorem mem_stagedPages {spi : Nat} (inside : spi < n) (there : staged spi ≠ 0) :
    staged spi ∈ stagedPages n staged := by
  simp only [stagedPages, List.mem_filter, List.mem_map, List.mem_range]
  exact ⟨⟨spi, inside, rfl⟩, by simpa using there⟩

theorem stagedPages_congr {other : Nat → Nat} (same : ∀ spi, spi < n → staged spi = other spi) :
    stagedPages n staged = stagedPages n other := by
  unfold stagedPages
  rw [List.map_congr_left fun spi member => same spi (List.mem_range.mp member)]

theorem stagedPages_update {spi : Nat} (inside : spi < n) (new : staged spi = 0) (there : page ≠ 0) :
    (stagedPages n (update staged spi page)).Perm (page :: stagedPages n staged) := by
  induction n with
  | zero => omega
  | succ n ih =>
    rw [stagedPages_succ, stagedPages_succ]
    by_cases last : spi = n
    · subst last
      rw [stagedPages_congr fun other below => update_of_ne (Nat.ne_of_lt below) page staged]
      simp [new, there]
    · rw [update_of_ne (Ne.symm last)]
      exact (ih (by omega)).append_right _

theorem stagedPages_shrink {count : Nat} (short : count ≤ n)
    (inside : ∀ spi, staged spi ≠ 0 → spi < count) :
    stagedPages n staged = stagedPages count staged := by
  induction n with
  | zero =>
    have none : count = 0 := by omega
    rw [none]
  | succ n ih =>
    by_cases all : count = n + 1
    · rw [all]
    · have beyond : staged n = 0 := by
        by_contra there
        have := inside n there
        omega
      rw [stagedPages_succ, if_pos beyond, List.append_nil]
      exact ih (by omega)

structure Loading (pool : Pool) (board : Board) (mid : Machine) (staging : Staging) : Prop where
  stages : Stages pool mid staging.machine (stagedPages board.imagePages staging.staged)
  inside : ∀ spi, staging.staged spi ≠ 0 → spi < staging.pageCount
  short : staging.pageCount ≤ board.imagePages

section Elf
variable {board : Board}

theorem Loading.start (pool : Pool) (board : Board) (mid : Machine) :
    Loading pool board mid (unstaged mid) where
  stages := by
    have none : stagedPages board.imagePages (unstaged mid).staged = [] := by
      simp [stagedPages, unstaged]
    rw [none]
    exact Stages.start pool mid
  inside := by simp [unstaged]
  short := Nat.zero_le _

variable {staging : Staging}

/-- One page of a segment staged: a page taken for it, or the one it has. -/
theorem Loading.stage (loading : Loading pool board mid staging) (perm : BitVec 3) {spi : Nat}
    (inside : spi < board.imagePages) {page : Nat × Machine}
    (taken : page = if staging.staged spi = 0 then staging.machine.tryAlloc pool
      else (staging.staged spi, staging.machine)) (found : page.1 ≠ 0) :
    Loading pool board mid
      { machine := page.2
        staged := update staging.staged spi page.1
        perm := update staging.perm spi (staging.perm spi ||| perm)
        pageCount := max staging.pageCount (spi + 1) } := by
  refine ⟨?_, ?_, ?_⟩
  · by_cases new : staging.staged spi = 0
    · rw [if_pos new] at taken
      subst taken
      exact (loading.stages.take found).perm (stagedPages_update inside new found)
    · rw [if_neg new] at taken
      subst taken
      simpa using loading.stages
  · intro other there
    by_cases same : other = spi
    · subst same
      simp
    · have old := loading.inside other (by simpa [same] using there)
      simp only
      omega
  · have := loading.short
    simp only
    omega

theorem stagePages_loading (perm : BitVec 3) (left spi : Nat)
    (loading : Loading pool board mid staging) (fits : spi + left ≤ board.imagePages) :
    Loading pool board mid (stagePages pool perm left spi staging).2 ∧
      ((stagePages pool perm left spi staging).1 = true →
        (∀ other, spi ≤ other → other < spi + left →
          (stagePages pool perm left spi staging).2.staged other ≠ 0) ∧
        ∀ other, staging.staged other ≠ 0 →
          (stagePages pool perm left spi staging).2.staged other ≠ 0) := by
  induction left generalizing spi staging with
  | zero => exact ⟨loading, fun _ => ⟨fun _ _ _ => by omega, fun _ there => there⟩⟩
  | succ left ih =>
    rw [stagePages]
    generalize taken : (if staging.staged spi = 0 then staging.machine.tryAlloc pool
      else (staging.staged spi, staging.machine)) = page
    by_cases missed : page.1 = 0
    · simp only [if_pos missed]
      refine ⟨⟨?_, loading.inside, loading.short⟩, by simp⟩
      by_cases new : staging.staged spi = 0
      · rw [if_pos new] at taken
        subst taken
        exact loading.stages.missed missed
      · rw [if_neg new] at taken
        subst taken
        exact absurd missed new
    · simp only [if_neg missed]
      obtain ⟨after, all⟩ := ih (spi + 1) (loading.stage perm (by omega) taken.symm missed)
        (by omega)
      refine ⟨after, fun done => ?_⟩
      obtain ⟨later, kept⟩ := all done
      constructor
      · intro other low high
        by_cases same : other = spi
        · subst same
          exact kept other (by simpa using missed)
        · exact later other (by omega) (by omega)
      · intro other there
        apply kept
        by_cases same : other = spi
        · subst same
          simpa using missed
        · simpa [same] using there

theorem copyChunks_stages (image : Nat → UInt8) (offset startOff filesz : Nat) (fuel done : Nat)
    (stages : Stages pool mid machine pages)
    (there : ∀ byte, byte < filesz → staged ((startOff + byte) / pageSize) ∈ pages) :
    Stages pool mid
      { machine with
        memory := copyChunks image staged offset startOff filesz fuel done machine.memory } pages := by
  induction fuel generalizing done machine with
  | zero => exact stages
  | succ fuel ih =>
    rw [copyChunks]
    split
    · next more =>
        have rest : (startOff + done) % pageSize < pageSize := Nat.mod_lt _ (by decide)
        have chunk : (startOff + done) % pageSize +
            min (pageSize - (startOff + done) % pageSize) (filesz - done) ≤ pageSize := by
          omega
        have written := stages.write (there done more)
          (Nat.le_add_right _ ((startOff + done) % pageSize))
          (by rw [Nat.add_assoc]; exact Nat.add_le_add_left chunk _)
          (fun i => image (offset + done + i))
        exact ih _ written
    · exact stages

variable (image : Nat → UInt8)

theorem stageSegment_loading (ph : Phdr) (startOff : Nat)
    (loading : Loading pool board mid staging) (file : ph.filesz ≤ ph.memsz)
    (high : startOff + ph.memsz ≤ board.imageMax) :
    Loading pool board mid (stageSegment pool image staging ph startOff).2 := by
  obtain ⟨imagePages, whole⟩ := board.aligned
  have fits : startOff / pageSize +
      ((startOff + ph.memsz + pageSize - 1) / pageSize - startOff / pageSize) ≤
        board.imagePages := by
    unfold Board.imagePages
    unfold pageSize at *
    omega
  obtain ⟨after, all⟩ := stagePages_loading (segPerm ph.flags) _ _ loading fits
  unfold stageSegment
  dsimp only
  split
  · next done =>
      refine ⟨?_, after.inside, after.short⟩
      apply copyChunks_stages image _ _ _ _ _ after.stages
      intro byte within
      have staged := (all done).1 ((startOff + byte) / pageSize)
        (Nat.div_le_div_right (by omega)) (by unfold pageSize; omega)
      exact mem_stagedPages (Nat.lt_of_lt_of_le (after.inside _ staged) after.short) staged
  · exact after

theorem loadSegment_loading (size : Nat) (ph : Phdr) (loading : Loading pool board mid staging) :
    Loading pool board mid (loadSegment pool board image size staging ph).2 := by
  unfold loadSegment
  split
  · exact loading
  · split
    · exact loading
    · next sound =>
        simp only [segmentRefused, Bool.or_eq_true, decide_eq_true_eq] at sound
        exact stageSegment_loading image ph (ph.vaddr - userBase) loading (by omega) (by omega)

theorem loadSegments_loading (size left pi : Nat) (loading : Loading pool board mid staging) :
    Loading pool board mid (loadSegments pool board image size left pi staging).2 := by
  induction left generalizing pi staging with
  | zero => exact loading
  | succ left ih =>
    have next := loadSegment_loading image size (readPhdr image (phoffOf image + pi * 56)) loading
    rw [loadSegments]
    split
    · exact ih (pi + 1) next
    · exact next

def Staged.Sound (pool : Pool) (mid : Machine) : Staged → Prop
  | .refused machine => Restored pool mid machine
  | .loaded staging _ =>
    Stages pool mid staging.machine (stagedPages staging.pageCount staging.staged)

theorem stageElf_sound (board : Board) (mid : Machine) (image : Nat → UInt8) (size : Nat) :
    (stageElf pool board mid image size).Sound pool mid := by
  unfold stageElf
  split
  · exact Restored.refl pool mid
  · have loading := loadSegments_loading image size (phnumOf image) 0 (Loading.start pool board mid)
    dsimp only
    split
    · have same := stagedPages_shrink loading.short loading.inside
      simp only [Staged.Sound, ← same]
      exact loading.stages
    · exact loading.stages.giveAll

end Elf

section Flat

theorem map_range_update (staged : Nat → Nat) (ep page : Nat) :
    (List.range (ep + 1)).map (update staged ep page) =
      (List.range ep).map staged ++ [page] := by
  rw [List.range_succ, List.map_append, List.map_singleton, update_self]
  congr 1
  apply List.map_congr_left
  intro other below
  exact update_of_ne (Nat.ne_of_lt (List.mem_range.mp below)) _ _

theorem flatPages_stages (image : Nat → UInt8) (size left ep : Nat) {staging : Staging}
    (stages : Stages pool mid staging.machine ((List.range ep).map staging.staged)) :
    (flatPages pool image size left ep staging).2.pageCount = staging.pageCount ∧
      if (flatPages pool image size left ep staging).1 then
        Stages pool mid (flatPages pool image size left ep staging).2.machine
          ((List.range (ep + left)).map (flatPages pool image size left ep staging).2.staged)
      else Restored pool mid (flatPages pool image size left ep staging).2.machine := by
  induction left generalizing ep staging with
  | zero => exact ⟨rfl, stages⟩
  | succ left ih =>
    rw [flatPages]
    by_cases missed : (staging.machine.tryAlloc pool).1 = 0
    · simp only [if_pos missed]
      exact ⟨trivial, by simpa using (stages.missed missed).giveAll⟩
    · simp only [if_neg missed]
      have taken := stages.take missed
      have written := taken.write List.mem_cons_self (Nat.le_refl _)
        (Nat.add_le_add_left (Nat.min_le_left pageSize (size - ep * pageSize)) _)
        (fun i => image (ep * pageSize + i))
      have next := written.perm (List.perm_append_singleton _ ((List.range ep).map staging.staged))
      rw [← map_range_update] at next
      have after := @ih (ep + 1)
        { staging with
          machine := { (staging.machine.tryAlloc pool).2 with
            memory := copied (staging.machine.tryAlloc pool).2.memory
              (staging.machine.tryAlloc pool).1 (fun i => image (ep * pageSize + i))
              (min pageSize (size - ep * pageSize)) }
          staged := update staging.staged ep (staging.machine.tryAlloc pool).1
          perm := update staging.perm ep 7 }
        next
      rwa [show ep + 1 + left = ep + (left + 1) by omega] at after

theorem Stages.filled {count : Nat}
    (stages : Stages pool mid machine ((List.range count).map staged)) :
    stagedPages count staged = (List.range count).map staged := by
  apply List.filter_eq_self.mpr
  intro page member
  obtain ⟨index, -, rfl, -⟩ := stages.fresh page member
  have := pool.notNull
  simp [pageBase]
  omega

theorem stageFlat_sound (mid : Machine) (image : Nat → UInt8) (size argvLen : Nat) :
    (stageFlat pool mid image size argvLen).Sound pool mid := by
  unfold stageFlat
  dsimp only
  split
  · exact Restored.refl pool mid
  · obtain ⟨count, after⟩ := flatPages_stages image size (pagesFor size) 0
      (show Stages pool mid { unstaged mid with pageCount := pagesFor size }.machine
        ((List.range 0).map { unstaged mid with pageCount := pagesFor size }.staged) from
          Stages.start pool mid)
    rw [Nat.zero_add] at after
    split
    · next done =>
        rw [if_pos done] at after
        simp only [Staged.Sound, count]
        rwa [after.filled]
    · next failed =>
        rw [if_neg failed] at after
        exact after

/-- The pages of the arguments come on top of those of the image. -/
theorem argvPages_stages (argv : Nat → UInt8) (len left : Nat) {staged : List Nat}
    (stages : Stages pool mid machine (staged ++ pages)) :
    if (argvPages pool argv len left staged machine).1 then
      Stages pool mid (argvPages pool argv len left staged machine).2.1
        ((argvPages pool argv len left staged machine).2.2 ++ pages) ∧
        (argvPages pool argv len left staged machine).2.2.length = staged.length + left
    else Taken pool mid (argvPages pool argv len left staged machine).2.1 pages := by
  induction left generalizing staged machine with
  | zero => exact ⟨stages, rfl⟩
  | succ left ih =>
    rw [argvPages]
    by_cases missed : (machine.tryAlloc pool).1 = 0
    · simp only [if_pos missed]
      exact (stages.missed missed).giveSome
    · simp only [if_neg missed]
      have written := (stages.take missed).write List.mem_cons_self (Nat.le_refl _)
        (Nat.add_le_add_left (Nat.min_le_left pageSize (len - staged.length * pageSize)) _)
        (fun i => argv (staged.length * pageSize + i))
      have order : (staged ++ [(machine.tryAlloc pool).1] ++ pages).Perm
          ((machine.tryAlloc pool).1 :: (staged ++ pages)) := by
        rw [List.append_assoc]
        exact List.perm_middle
      have after := ih (written.perm order)
      rwa [List.length_append, List.length_singleton,
        show staged.length + 1 + left = staged.length + (left + 1) by omega] at after

end Flat

end Racccoon.Exec
