import Racccoon.Exec.Staging

/-!
`sys_exec` is atomic except where it commits and still answers -1: the caller's `argc` is
what it answers, and that may be -1.
-/

namespace Racccoon.Exec
open Function (update update_self update_of_ne)

open PageAllocator Paging UserRanges TrapFrame

universe u
variable {pool : Pool} {board : Board} {Mounts : Type u}

def State.build (state : State Mounts) : Build := ⟨state.machine.alloc, state.table⟩

/-- The check `sys_exec` makes of the caller's buffer. -/
def validated (pool : Pool) (state : State Mounts) : Bool × Build :=
  userRangeValid pool state.heap true state.build (state.frame a0).toNat
    (uint (state.frame a1) + uint (state.frame a2)) false

/-- A call that came to nothing: all but the answer and the pages faulted in is as before,
and no page is held that was not faulted in. -/
structure Unchanged (pool : Pool) (before after : State Mounts) : Prop where
  rest : after = { before with
    machine := after.machine
    table := after.table
    frame := Function.update before.frame a0 (-1) }
  grown : Grown pool before.heap before.build after.build
  staged : ∃ build, (build = before.build ∨ build = (validated pool before).2) ∧
    after.table = build.table ∧
    ∀ index, bitIsSet after.machine.alloc index = bitIsSet build.alloc index
  memory : ∀ addr, (∀ index, InPage pool index addr → bitIsSet before.machine.alloc index = true) →
    after.machine.memory addr = before.machine.memory addr

def ownedLeaves (table : PageTable) : List (Nat × Leaf) :=
  (walk table).filter fun entry => pteOwnedUserLeaf entry.2

/-- A call of `free_pages` frees a page. -/
def frees (page : Nat) (call : Nat × Nat) : Bool :=
  decide (call.1 ≤ page) && decide (page < call.1 + call.2 * pageSize)

structure Sole (table : PageTable) (segments : Nat → Segment) (entry : Nat × Leaf) : Prop where
  leaves : ∀ other ∈ ownedLeaves table, frees entry.2.paddr (other.2.paddr, 1) = true → other = entry
  segments : ∀ si, frees entry.2.paddr ((segments si).paddr, (segments si).npages) = false

/-- What a commit frees: the page of each leaf the old image owned, and segments. -/
structure FreedOnce (pool : Pool) (before after : State Mounts) : Prop where
  calls : ∃ released : List (Nat × Nat),
    after.machine.freed = before.machine.freed ++
      ((ownedLeaves (validated pool before).2.table).map fun entry => (entry.2.paddr, 1)) ++
      released ∧
    ∀ call ∈ released, ∃ si, call = ((before.segments si).paddr, (before.segments si).npages)
  once : ∀ entry ∈ ownedLeaves (validated pool before).2.table,
    Sole (validated pool before).2.table before.segments entry →
    (after.machine.freed.drop before.machine.freed.length).countP (frees entry.2.paddr) = 1

structure Atomic (pool : Pool) (board : Board) (before : State Mounts) : Prop where
  refused : ∀ after,
    sysExec pool board before = .returned after ∨ sysExec pool board before = .committed after →
    after.frame a0 = -1 → Unchanged pool before after
  replaced : ∀ after, sysExec pool board before = .committed after → FreedOnce pool before after

def ArgsRefused (board : Board) (frame : TrapFrame) : Prop :=
  uint (frame a1) = 0 ∨ uint (frame a1) > board.imageMax ∨ uint (frame a2) > argvMax ∨
    addressEnd ≤ (frame a0).toNat + (uint (frame a1) + uint (frame a2))

theorem faulted_kept {before after : Allocator} {memory : Memory} {addr : Nat}
    (used : ∀ index, InPage pool index addr → bitIsSet before index = true) :
    faulted pool before after memory addr = memory addr := by
  unfold faulted
  dsimp only
  split
  · next clear =>
      have here : InPage pool (pageIndex pool addr) addr := by
        unfold InPage pageBase pageIndex pageSize
        omega
      have set := used _ here
      simp [clear.2.1] at set
  · rfl

/-- A refusal once the buffer was checked. -/
theorem unchanged_of_restored {before : State Mounts} {machine : Machine}
    (restored : Restored pool (before.faultedIn pool (validated pool before).2).machine machine) :
    Unchanged pool before
      { before.faultedIn pool (validated pool before).2 with machine := machine }.refuse := by
  have grown : Grown pool before.heap before.build (validated pool before).2 :=
    userRangeValid_grown pool before.heap true before.build _ _ false
  refine ⟨rfl, ?_, ⟨_, .inr rfl, rfl, restored.bits⟩, ?_⟩
  · refine ⟨fun vpn => ?_, grown.middles, grown.leafTables, ?_⟩
    · rcases grown.leaves vpn with same | ⟨absent, reserved, paddr, new, used⟩
      · exact .inl same
      · exact .inr ⟨absent, reserved, paddr, new,
          fun index here => (restored.bits index).trans (used index here)⟩
    · intro index set
      exact (restored.bits index).trans (grown.used index set)
  · intro addr used
    refine (restored.kept addr ?_).trans (faulted_kept used)
    intro index within
    exact grown.used index (used index within)

theorem stageImage_sound (pool : Pool) (board : Board) (state : State Mounts) (size argvLen : Nat) :
    (stageImage pool board state size argvLen).Sound pool state.machine := by
  unfold stageImage
  split
  · exact stageElf_sound board state.machine _ size
  · exact stageFlat_sound state.machine _ size argvLen

/-- What `exec` comes to once the buffer was checked. -/
theorem execFrom_cases (state : State Mounts) (size argvLen : Nat) (argc : Int) :
    (∃ machine, Restored pool state.machine machine ∧
        execFrom pool board state size argvLen argc =
          .returned { state with machine := machine }.refuse) ∨
      ∃ machine loaded, machine.freed = state.machine.freed ∧ loaded.argc = argc ∧
        execFrom pool board state size argvLen argc =
          match commit pool { state with machine := machine } loaded with
          | none => .panicked
          | some after => .committed after := by
  unfold execFrom
  dsimp only
  have sound := stageImage_sound pool board state size argvLen
  generalize stageImage pool board state size argvLen = staged at sound ⊢
  cases staged with
  | refused machine => exact .inl ⟨machine, sound, rfl⟩
  | loaded staging =>
    generalize (fun i => given state (size + i)) = argv
    have staged := @argvPages_stages pool state.machine staging.machine
      (stagedPages staging.pageCount staging.staged) argv argvLen (pagesFor argvLen) [] sound
    dsimp only
    cases run : argvPages pool argv argvLen (pagesFor argvLen) [] staging.machine with
    | mk done rest =>
      obtain ⟨machine, pages⟩ := rest
      rw [run] at staged
      cases done with
      | false => exact .inl ⟨_, staged.giveAll, rfl⟩
      | true => exact .inr ⟨machine, _, staged.1.log, rfl, rfl⟩

theorem sysExec_eq (before : State Mounts) :
    sysExec pool board before =
      if uint (before.frame a1) = 0 ∨ uint (before.frame a1) > board.imageMax ∨
          uint (before.frame a2) > argvMax then
        .returned before.refuse
      else if (validated pool before).1 then
        execFrom pool board (before.faultedIn pool (validated pool before).2)
          (uint (before.frame a1)) (uint (before.frame a2)) (int (before.frame a4))
      else .returned (before.faultedIn pool (validated pool before).2).refuse :=
  rfl

/-- A call answers the caller and has changed nothing, or goes on to a new image. -/
theorem sysExec_cases (pool : Pool) (board : Board) (before : State Mounts) :
    (∃ after, Unchanged pool before after ∧ sysExec pool board before = .returned after) ∨
      ∃ machine loaded, machine.freed = before.machine.freed ∧
        loaded.argc = int (before.frame a4) ∧
        sysExec pool board before =
          match commit pool
            { before.faultedIn pool (validated pool before).2 with machine := machine } loaded with
          | none => .panicked
          | some after => .committed after := by
  rw [sysExec_eq]
  split
  · exact .inl ⟨before.refuse,
      ⟨rfl, Grown.refl _ _ _, ⟨_, .inl rfl, rfl, fun _ => rfl⟩, fun _ _ => rfl⟩, rfl⟩
  · split
    · rcases execFrom_cases (before.faultedIn pool (validated pool before).2)
        (uint (before.frame a1)) (uint (before.frame a2)) (int (before.frame a4)) with
        ⟨machine, restored, same⟩ | ⟨machine, loaded, log, argc, same⟩
      · exact .inl ⟨_, unchanged_of_restored restored, same⟩
      · exact .inr ⟨machine, loaded, log, argc, same⟩
    · exact .inl ⟨_, unchanged_of_restored (Restored.refl pool _), rfl⟩

theorem clearUser_frees (pool : Pool) (leaves : List (Nat × Leaf)) (machine : Machine) (table : PageTable) :
    (leaves.foldl (clearLeaf pool) (machine, table)).1.freed =
        machine.freed ++
          ((leaves.filter fun entry => pteOwnedUserLeaf entry.2).map fun entry =>
            (entry.2.paddr, 1)) ∧
      (leaves.foldl (clearLeaf pool) (machine, table)).2.tables = table.tables := by
  induction leaves generalizing machine table with
  | nil => simp
  | cons entry _ ih =>
    rw [List.foldl_cons, List.filter_cons]
    cases user : entry.2.user with
    | false =>
      have kept : clearLeaf pool (machine, table) entry = (machine, table) := by
        simp [clearLeaf, user]
      have foreign : pteOwnedUserLeaf entry.2 = false := by simp [pteOwnedUserLeaf, user]
      rw [kept, foreign]
      exact ih machine table
    | true =>
      cases owned : pteOwnedUserLeaf entry.2 with
      | false =>
        have kept : clearLeaf pool (machine, table) entry =
            (machine, { table with leaves := update table.leaves entry.1 none }) := by
          simp [clearLeaf, user, owned]
        rw [kept]
        exact ih machine _
      | true =>
        have gone : clearLeaf pool (machine, table) entry =
            (machine.free pool entry.2.paddr 1,
              { table with leaves := update table.leaves entry.1 none }) := by
          simp [clearLeaf, user, owned]
        rw [gone]
        have later := ih (machine.free pool entry.2.paddr 1)
          { table with leaves := update table.leaves entry.1 none }
        refine ⟨later.1.trans ?_, later.2⟩
        simp [Machine.free]

structure Released (before after : State Mounts) : Prop where
  calls : ∃ released : List (Nat × Nat), after.machine.freed = before.machine.freed ++ released ∧
    ∀ call ∈ released, ∃ si, call = ((before.segments si).paddr, (before.segments si).npages)
  runs : ∀ si, (after.segments si).paddr = (before.segments si).paddr ∧
    (after.segments si).npages = (before.segments si).npages
  table : after.table = before.table
  frame : after.frame = before.frame

theorem Released.unref {before state : State Mounts} (held : Released before state) (si : Nat) :
    Released before (segUnref pool state si) := by
  obtain ⟨⟨released, log, runs⟩, segments, table, frame⟩ := held
  unfold segUnref
  dsimp only
  split
  · refine ⟨⟨released ++ [((state.segments si).paddr, (state.segments si).npages)], ?_, ?_⟩, ?_,
      table, frame⟩
    · simp [Machine.free, log]
    · intro call member
      rcases List.mem_append.mp member with old | new
      · exact runs call old
      · refine ⟨si, ?_⟩
        rw [List.mem_singleton.mp new, (segments si).1, (segments si).2]
    · intro other
      by_cases same : other = si
      · subst same
        simpa using segments other
      · simpa [same] using segments other
  · refine ⟨⟨released, log, runs⟩, ?_, table, frame⟩
    intro other
    by_cases same : other = si
    · subst same
      simpa using segments other
    · simpa [same] using segments other

theorem segReleaseTable_released (pool : Pool) (before : State Mounts) :
    Released before (segReleaseTable pool before) := by
  have start : Released before before :=
    ⟨⟨[], by simp, by simp⟩, fun _ => ⟨rfl, rfl⟩, rfl, rfl⟩
  unfold segReleaseTable
  generalize List.range segAttachMax = indexes
  suffices all : ∀ state : State Mounts, Released before state →
      Released before (indexes.foldl (fun state index =>
        let attach := state.attachments index
        if attach.used && attach.own then
          segUnref pool
            { state with
              attachments := update state.attachments index { attach with used := false } }
            attach.seg
        else state) state) from all before start
  induction indexes with
  | nil => exact fun _ held => held
  | cons _ _ ih =>
    intro state held
    apply ih
    dsimp only
    split
    · apply Released.unref
      exact ⟨held.calls, held.runs, held.table, held.frame⟩
    · exact held

theorem commit_freed {before after : State Mounts} {loaded : Loaded}
    (done : commit pool before loaded = some after) :
    (∃ released : List (Nat × Nat),
      after.machine.freed = before.machine.freed ++
        ((ownedLeaves before.table).map fun entry => (entry.2.paddr, 1)) ++ released ∧
      ∀ call ∈ released, ∃ si, call = ((before.segments si).paddr, (before.segments si).npages)) ∧
      after.frame a0 = BitVec.ofInt 64 loaded.argc ∧ userBase ≤ after.heap.heapTop := by
  obtain ⟨build, -, rfl⟩ := Option.map_eq_some_iff.mp done
  have cleared := (clearUser_frees pool (walk before.table) before.machine before.table).1
  obtain ⟨released, log, runs⟩ := (segReleaseTable_released pool
    { before with
      machine := (clearUser pool before.machine before.table).1
      table := (clearUser pool before.machine before.table).2 }).calls
  refine ⟨⟨released, ?_, runs⟩, ?_, ?_⟩
  · rw [log]
    rw [clearUser, cleared, ownedLeaves]
  · dsimp only
    rw [update_of_ne (by decide : a0 ≠ tp), update_of_ne (by decide : a0 ≠ a1),
      update_self]
  · dsimp only
    omega

theorem walk_nodup (table : PageTable) : (walk table).Nodup := by
  rw [walk_eq]
  refine List.Nodup.filterMap ?_ List.nodup_range
  intro first second entry left right
  obtain ⟨_, -, one⟩ := Option.map_eq_some_iff.mp (Option.mem_def.mp left)
  obtain ⟨_, -, two⟩ := Option.map_eq_some_iff.mp (Option.mem_def.mp right)
  rw [← two] at one
  exact (Prod.mk.inj one).1

theorem frees_self (page : Nat) : frees page (page, 1) = true := by
  simp [frees, pageSize]

/-- A page with a single owner is in one of the calls. -/
theorem Sole.once {table : PageTable} {segments : Nat → Segment} {entry : Nat × Leaf}
    (sole : Sole table segments entry) (owned : entry ∈ ownedLeaves table)
    {released : List (Nat × Nat)}
    (runs : ∀ call ∈ released, ∃ si, call = ((segments si).paddr, (segments si).npages)) :
    (((ownedLeaves table).map fun entry : Nat × Leaf => (entry.2.paddr, 1)) ++ released).countP
      (frees entry.2.paddr) = 1 := by
  have apart : released.countP (frees entry.2.paddr) = 0 := by
    rw [List.countP_eq_zero]
    intro call member
    obtain ⟨si, rfl⟩ := runs call member
    simp [sole.segments si]
  have leaf : (ownedLeaves table).countP (frees entry.2.paddr ∘ fun entry : Nat × Leaf => (entry.2.paddr, 1)) =
      (ownedLeaves table).count entry := by
    apply List.countP_congr
    intro other member
    rw [beq_iff_eq]
    constructor
    · exact sole.leaves other member
    · rintro rfl
      exact frees_self _
  rw [List.countP_append, List.countP_map, leaf, apart, Nat.add_zero]
  have distinct : (ownedLeaves table).Nodup := (walk_nodup table).filter _
  exact List.count_eq_one_of_mem distinct owned

theorem sysExec_committed {before after : State Mounts}
    (done : sysExec pool board before = .committed after) :
    FreedOnce pool before after ∧ after.frame a0 = BitVec.ofInt 64 (int (before.frame a4)) ∧
      userBase ≤ after.heap.heapTop := by
  rcases sysExec_cases pool board before with ⟨_, -, other⟩ | ⟨machine, loaded, log, argc, same⟩
  · rw [other] at done
    cases done
  · rw [same] at done
    split at done
    · cases done
    · next committed =>
        obtain rfl := Outcome.committed.inj done
        obtain ⟨⟨released, calls, runs⟩, answer, top⟩ := commit_freed committed
        simp only [log] at calls
        refine ⟨⟨⟨released, calls, runs⟩, ?_⟩, by rw [answer, argc], top⟩
        intro entry owned sole
        rw [calls, List.append_assoc, List.drop_left]
        exact sole.once owned runs

/-- The answer is the caller's `argc`, which is an `int`. -/
theorem answer_iff (word : Word) : BitVec.ofInt 64 (int word) = -1 ↔ int word = -1 := by
  have low : -2 ^ 31 ≤ int word := BitVec.le_toInt _
  have high : int word < 2 ^ 31 := BitVec.toInt_lt
  constructor
  · intro same
    have signed := congrArg BitVec.toInt same
    rw [BitVec.toInt_ofInt, Int.bmod_eq_of_le (by omega) (by omega)] at signed
    exact signed.trans (by decide)
  · intro same
    rw [same]
    decide

section Roomy

theorem tryAlloc_found (pool : Pool) (machine : Machine) (room : 0 < freePageCount pool machine.alloc) :
    (machine.tryAlloc pool).1 ≠ 0 ∧
      freePageCount pool (machine.tryAlloc pool).2.alloc + 1 = freePageCount pool machine.alloc := by
  have counted := tryAllocPages_count pool machine.alloc 1
  have found : (tryAllocPages pool machine.alloc 1).1 ≠ 0 := by
    intro missed
    have full := tryAllocPages_one pool machine.alloc missed
    have none : freePageCount pool machine.alloc = 0 := by
      rw [freePageCount, List.countP_eq_zero]
      intro page inside
      simp [full page (List.mem_range.mp inside)]
    omega
  rw [if_neg found] at counted
  exact ⟨found, counted⟩

theorem flatPages_fits (image : Nat → UInt8) (size left ep : Nat) {staging : Staging}
    (room : left ≤ freePageCount pool staging.machine.alloc) :
    (flatPages pool image size left ep staging).1 = true ∧
      freePageCount pool (flatPages pool image size left ep staging).2.machine.alloc + left =
        freePageCount pool staging.machine.alloc := by
  induction left generalizing ep staging with
  | zero => exact ⟨rfl, rfl⟩
  | succ _ ih =>
    obtain ⟨found, fewer⟩ := tryAlloc_found pool staging.machine (by omega)
    rw [flatPages]
    simp only [if_neg found]
    have rest := @ih (ep + 1)
      { staging with
        machine := { (staging.machine.tryAlloc pool).2 with
          memory := copied (staging.machine.tryAlloc pool).2.memory
            (staging.machine.tryAlloc pool).1 (fun i => image (ep * pageSize + i))
            (min pageSize (size - ep * pageSize)) }
        staged := update staging.staged ep (staging.machine.tryAlloc pool).1
        perm := update staging.perm ep 7 }
      (by dsimp only; omega)
    refine ⟨rest.1, ?_⟩
    have total := rest.2
    dsimp only at total
    omega

theorem argvPages_fits (argv : Nat → UInt8) (len left : Nat) (staged : List Nat) {machine : Machine}
    (room : left ≤ freePageCount pool machine.alloc) :
    (argvPages pool argv len left staged machine).1 = true := by
  induction left generalizing staged machine with
  | zero => rfl
  | succ _ ih =>
    obtain ⟨found, fewer⟩ := tryAlloc_found pool machine (by omega)
    rw [argvPages]
    simp only [if_neg found]
    apply ih
    dsimp only
    omega

theorem mapPages_open {build : Build} (tables : build.table.tables = openTable.tables)
    (leaves : List (Nat × Leaf)) (inside : ∀ entry ∈ leaves, entry.1 < entries ^ 3) :
    ∃ after, mapPages pool build leaves = some after := by
  induction leaves generalizing build with
  | nil => exact ⟨build, rfl⟩
  | cons entry _ ih =>
    have bound := inside entry List.mem_cons_self
    have middle : middleOf entry.1 ∈ build.table.tables.middles := by
      rw [tables]
      simp only [openTable, allTables, Finset.mem_range]
      unfold middleOf
      unfold entries at *
      omega
    have leafTable : leafTableOf entry.1 ∈ build.table.tables.leafTables := by
      rw [tables]
      simp only [openTable, allTables, Finset.mem_range]
      unfold leafTableOf
      unfold entries at *
      omega
    obtain ⟨after, mapped⟩ := @ih (build.setLeaf entry.1 entry.2) tables
      fun other member => inside other (List.mem_cons_of_mem _ member)
    refine ⟨after, ?_⟩
    rw [← mapped]
    simp [mapPages, mapPage, walkToLeafTable, addMiddle, addLeafTable, middle, leafTable]

theorem commit_open {before : State Mounts} (tables : before.table.tables = openTable.tables)
    (loaded : Loaded) : ∃ after, commit pool before loaded = some after := by
  unfold commit
  dsimp only
  have cleared := (clearUser_frees pool (walk before.table) before.machine before.table).2
  have kept := (segReleaseTable_released pool
    { before with
      machine := (clearUser pool before.machine before.table).1
      table := (clearUser pool before.machine before.table).2 }).table
  have inside : ∀ entry ∈ imageLeaves loaded.staging ++
      argvLeaves (userBase + loaded.staging.pageCount * pageSize) loaded.argv,
      entry.1 < entries ^ 3 := by
    intro entry member
    have bound : ∀ addr, vpnOf addr < entries ^ 3 := fun addr => Nat.mod_lt _ (by decide)
    rcases List.mem_append.mp member with image | argv
    · obtain ⟨mp, -, same⟩ := List.mem_filterMap.mp image
      split at same
      · cases same
      · obtain rfl := Option.some.inj same
        exact bound _
    · obtain ⟨_, -, rfl⟩ := List.mem_map.mp argv
      exact bound _
  generalize segReleaseTable pool { before with
    machine := (clearUser pool before.machine before.table).1
    table := (clearUser pool before.machine before.table).2 } = released at kept ⊢
  have open_ : released.table.tables = openTable.tables := by
    rw [kept]
    rw [clearUser, cleared, tables]
  obtain ⟨build, mapped⟩ := @mapPages_open pool ⟨released.machine.alloc, released.table⟩ open_ _ inside
  rw [mapped]
  exact ⟨_, rfl⟩

/-- A pool as large as the bitmap, and a process whose pages are all there and zero. -/
def roomyPool : Pool := ⟨0x80000000, 0x80000000 + ramSize, by decide⟩

def blank (frame : TrapFrame) : State Unit where
  machine := ⟨initial, fun _ => 0, []⟩
  table := openTable
  heap := ⟨0, 0⟩
  segments _ := ⟨false, 0, 0, 0⟩
  attachments _ := ⟨false, 0, false, 0⟩
  mounts := ()
  frame := frame
  savedSepc := 0
  fp _ := 0
  noteHandler := 0
  inNote := false
  name := []

theorem roomyPool_free : freePageCount roomyPool initial = totalPages := by
  have pages : roomyPool.ramPageCount = totalPages := by decide
  rw [freePageCount, pages]
  have clear : ∀ page, bitIsSet initial page = false := by
    simp [initial, bitIsSet, Bitmap.test]
  simp [clear]

/-- Zeros are a flat image, and there is room for it. -/
theorem execFrom_commits {state : State Mounts} {size argvLen : Nat} (argc : Int)
    (zero : state.machine.memory = fun _ => 0) (tables : state.table.tables = openTable.tables)
    (room : pagesFor size + pagesFor argvLen + (pagesFor size + pagesFor argvLen) / 256 + 6 ≤
      freePageCount pool state.machine.alloc) :
    ∃ after, execFrom pool board state size argvLen argc = .committed after := by
  unfold execFrom
  dsimp only
  have reads : ∀ addr, byteAt state.machine.memory state.table addr = 0 := by
    intro addr
    unfold byteAt
    split
    · rfl
    · simp [zero]
  have flat : isElf (given state) size = false := by
    simp [isElf, given, reads]
  generalize (fun i => given state (size + i)) = argv
  rw [stageImage, flat]
  generalize given state = image
  obtain ⟨done, left⟩ := @flatPages_fits pool image size (pagesFor size) 0
    { unstaged state.machine with pageCount := pagesFor size }
    (show pagesFor size ≤ freePageCount pool state.machine.alloc by omega)
  have staged : stageFlat pool state.machine image size argvLen =
      .loaded (flatPages pool image size (pagesFor size) 0
        { unstaged state.machine with pageCount := pagesFor size }).2 userBase := by
    unfold stageFlat
    rw [if_neg (Nat.not_lt.mpr room), if_pos done]
  simp only [Bool.false_eq_true, if_false, staged]
  generalize (flatPages pool image size (pagesFor size) 0
    { unstaged state.machine with pageCount := pagesFor size }).2 = staging at left ⊢
  have copied := @argvPages_fits pool argv argvLen (pagesFor argvLen) [] staging.machine (by
    change _ + pagesFor size = freePageCount pool state.machine.alloc at left
    omega)
  cases run : argvPages pool argv argvLen (pagesFor argvLen) [] staging.machine with
  | mk done rest =>
    obtain ⟨machine, pages⟩ := rest
    rw [run] at copied
    obtain rfl : done = true := copied
    obtain ⟨after, committed⟩ := @commit_open pool _ { state with machine := machine } tables
      ⟨staging, userBase, pages, argc,
        if argc ≥ 1 ∧ argvLen > 0 then nameSnap argv argvLen 47 0 else []⟩
    refine ⟨after, ?_⟩
    simp only [committed]

theorem blank_commits {frame : TrapFrame} (accepted : ¬ ArgsRefused board frame) :
    ∃ after, sysExec roomyPool board (blank frame) = .committed after := by
  simp only [ArgsRefused, not_or] at accepted
  obtain ⟨some_byte, image, argv, fits⟩ := accepted
  have short : uint (frame a1) + uint (frame a2) < addressEnd := by
    omega
  have below : (frame a0).toNat + (uint (frame a1) + uint (frame a2)) < addressEnd := by omega
  have valid : validated roomyPool (blank frame) = (true, (blank frame).build) :=
    openTable_valid ⟨0, 0⟩ true (frame a0).isLt short below initial
  rw [sysExec_eq, if_neg (by simp only [blank, not_or]; exact ⟨some_byte, image, argv⟩), valid]
  apply execFrom_commits
  · funext addr
    simp [State.faultedIn, blank, faulted]
  · rfl
  · change _ ≤ freePageCount roomyPool initial
    rw [roomyPool_free]
    have size : pagesFor (uint (frame a1)) ≤ 32768 := by
      have := board.bounded
      unfold pagesFor pageSize
      omega
    have args : pagesFor (uint (frame a2)) ≤ 5 := by
      unfold argvMax at argv
      unfold pagesFor pageSize
      omega
    have all : totalPages = 491520 := by decide
    simp only [blank]
    omega

/-- With an `argc` of -1 the caller is told of a failure by the new image's registers. -/
theorem blank_not_atomic {frame : TrapFrame} (accepted : ¬ ArgsRefused board frame)
    (minus : int (frame a4) = -1) : ¬ Atomic roomyPool board (blank frame) := by
  intro atomic
  obtain ⟨after, committed⟩ := blank_commits accepted
  obtain ⟨-, answer, top⟩ := sysExec_committed committed
  have told : after.frame a0 = -1 := answer.trans ((answer_iff _).mpr minus)
  have unchanged := atomic.refused after (.inr committed) told
  have heap : after.heap.heapTop = 0 := by
    rw [unchanged.rest]
    rfl
  rw [heap] at top
  exact absurd top (by decide)

end Roomy

/-- The virtual pages from `USER_BASE` on. -/
theorem vpnOf_user {off : Nat} (small : off < 0x1000000000) :
    vpnOf (userBase + off) = userBase / pageSize + off / pageSize := by
  simp only [vpnOf, userBase, pageSize, entries]
  omega

/-- Every staged page is mapped, with its permissions. -/
theorem commit_maps {before after : State Mounts} {loaded : Loaded} {spi : Nat}
    (done : commit pool before loaded = some after)
    (short : loaded.staging.pageCount ≤ 32768) (few : loaded.argv.length ≤ 32768)
    (there : loaded.staging.staged spi ≠ 0) (inside : spi < loaded.staging.pageCount) :
    found after.table (userBase / pageSize + spi) =
      some ⟨loaded.staging.staged spi, loaded.staging.perm spi, true, false⟩ := by
  obtain ⟨build, mapped, rfl⟩ := Option.map_eq_some_iff.mp done
  have place : ∀ page, page < 65536 →
      vpnOf (userBase + page * pageSize) = userBase / pageSize + page := by
    intro page small
    rw [vpnOf_user (by unfold pageSize; omega), Nat.mul_div_cancel _ (by decide)]
  refine mapPages_found mapped ?_ ?_
  · intro page member same
    rcases List.mem_append.mp member with image | argv
    · obtain ⟨mp, listed, entry⟩ := List.mem_filterMap.mp image
      have low := List.mem_range.mp listed
      split at entry
      · cases entry
      · cases entry
        rw [place mp (by omega)] at same
        rw [show mp = spi by omega]
    · obtain ⟨⟨paddr, avp⟩, listed, rfl⟩ := List.mem_map.mp argv
      have index := (List.mem_zipIdx listed).2.1
      dsimp only at same
      rw [Nat.add_assoc, ← Nat.add_mul, place _ (by omega)] at same
      omega
  · refine List.mem_append_left _ (List.mem_filterMap.mpr ⟨spi, List.mem_range.mpr inside, ?_⟩)
    rw [if_neg there, place spi (by omega)]

/-- The state in which the image is read. -/
abbrev checked (pool : Pool) (before : State Mounts) : State Mounts :=
  before.faultedIn pool (validated pool before).2

def stagedImage (pool : Pool) (board : Board) (before : State Mounts) : Staged :=
  stageImage pool board (checked pool before) (uint (before.frame a1)) (uint (before.frame a2))

def stagedArgs (pool : Pool) (before : State Mounts) (staging : Staging) :
    Bool × Machine × List Nat :=
  argvPages pool (fun i => given (checked pool before) (uint (before.frame a1) + i))
    (uint (before.frame a2)) (pagesFor (uint (before.frame a2))) [] staging.machine

/-- What keeps a call from its new image: the sizes, the buffer, an image that is refused or
finds no room, no page for the arguments, or none for a page table, where the kernel
panics. -/
inductive Stopped (pool : Pool) (board : Board) (before : State Mounts) : Prop where
  | sizes (bad : uint (before.frame a1) = 0 ∨ uint (before.frame a1) > board.imageMax ∨
      uint (before.frame a2) > argvMax)
  | buffer (bad : (validated pool before).1 = false)
  | image (machine : Machine) (refused : stagedImage pool board before = .refused machine)
  | arguments (staging : Staging) (entry : Nat)
      (loaded : stagedImage pool board before = .loaded staging entry)
      (full : (stagedArgs pool before staging).1 = false)
  | tables (staging : Staging) (entry : Nat)
      (loaded : stagedImage pool board before = .loaded staging entry)
      (full : ∀ argc name, commit pool
        { checked pool before with machine := (stagedArgs pool before staging).2.1 }
        ⟨staging, entry, (stagedArgs pool before staging).2.2, argc, name⟩ = none)

theorem commit_isNone {state : State Mounts} {staging : Staging} {entry : Nat} {pages : List Nat}
    {argc other : Int} {name named : List UInt8}
    (none : commit pool state ⟨staging, entry, pages, argc, name⟩ = none) :
    commit pool state ⟨staging, entry, pages, other, named⟩ = Option.none := by
  unfold commit at none ⊢
  exact Option.map_eq_none_iff.mpr (Option.map_eq_none_iff.mp none)

/-- What a call comes to that passes the check of its buffer. -/
theorem execFrom_eq (before : State Mounts) :
    execFrom pool board (checked pool before) (uint (before.frame a1)) (uint (before.frame a2))
        (int (before.frame a4)) =
      match stagedImage pool board before with
      | .refused machine => .returned { checked pool before with machine := machine }.refuse
      | .loaded staging entry =>
        match stagedArgs pool before staging with
        | (false, machine, _) =>
          .returned { checked pool before with
            machine := machine.freeAll pool (stagedPages staging.pageCount staging.staged) }.refuse
        | (true, machine, pages) =>
          match commit pool { checked pool before with machine := machine }
            ⟨staging, entry, pages, int (before.frame a4),
              if int (before.frame a4) ≥ 1 ∧ uint (before.frame a2) > 0 then
                nameSnap (fun i => given (checked pool before) (uint (before.frame a1) + i))
                  (uint (before.frame a2)) 47 0
              else []⟩ with
          | none => .panicked
          | some after => .committed after :=
  rfl

theorem Stopped.returns {before after : State Mounts} (stopped : Stopped pool board before) :
    sysExec pool board before ≠ .committed after := by
  intro committed
  rw [sysExec_eq] at committed
  split at committed
  · cases committed
  · next sizes =>
      split at committed
      · next valid =>
          rw [execFrom_eq] at committed
          cases stopped with
          | sizes bad => exact sizes bad
          | buffer bad =>
            rw [valid] at bad
            cases bad
          | image machine refused => simp [refused] at committed
          | arguments staging entry loaded full =>
            rw [loaded] at committed
            cases args : stagedArgs pool before staging with
            | mk ok rest =>
              rw [args] at full
              obtain rfl : ok = false := full
              simp [args] at committed
          | tables staging entry loaded full =>
            rw [loaded] at committed
            cases args : stagedArgs pool before staging with
            | mk ok rest =>
              rw [args] at full
              cases ok with
              | false => simp [args] at committed
              | true => simp [args, full] at committed
      · cases committed

/-- A call that nothing stops is one of a whole image in place. -/
theorem committed_of_runs {before : State Mounts} (runs : ¬ Stopped pool board before) :
    ∃ staging machine after loaded, loaded.staging = staging ∧
      stagedImage pool board before = .loaded staging loaded.entry ∧
      stagedArgs pool before staging = (true, machine, loaded.argv) ∧
      commit pool { checked pool before with machine := machine } loaded = some after ∧
      sysExec pool board before = .committed after := by
  have sizes := fun bad => runs (.sizes bad)
  have valid : (validated pool before).1 = true := by
    by_contra bad
    exact runs (.buffer (by simpa using bad))
  rw [sysExec_eq, if_neg sizes, if_pos valid, execFrom_eq]
  cases staged : stagedImage pool board before with
  | refused machine => exact absurd (Stopped.image machine staged) runs
  | loaded staging entry =>
    have full := fun bad => runs (.arguments staging entry staged bad)
    have tables := fun bad => runs (.tables staging entry staged bad)
    cases args : stagedArgs pool before staging with
    | mk ok rest =>
      obtain ⟨machine, pages⟩ := rest
      rw [args] at full tables
      cases ok with
      | false => exact absurd rfl full
      | true =>
        simp only [args]
        generalize (if int (before.frame a4) ≥ 1 ∧ uint (before.frame a2) > 0 then _ else _) = name
        cases done : commit pool { checked pool before with machine := machine }
            ⟨staging, entry, pages, int (before.frame a4), name⟩ with
        | none => exact absurd (fun _ _ => commit_isNone done) tables
        | some after => exact ⟨staging, machine, after, _, rfl, rfl, args, done, rfl⟩

/-- The page of the entry is staged. -/
theorem stageImage_entry {state : State Mounts} {size argvLen : Nat} {staging : Staging}
    {entry : Nat} (some_byte : size ≠ 0) (small : size ≤ board.imageMax)
    (loaded : stageImage pool board state size argvLen = .loaded staging entry) :
    staging.pageCount ≤ 32768 ∧
      ∃ spi, staging.staged spi ≠ 0 ∧ spi < staging.pageCount := by
  have bounded := board.bounded
  have images : board.imagePages ≤ 32768 := by
    unfold Board.imagePages pageSize
    omega
  unfold stageImage at loaded
  split at loaded
  · unfold stageElf at loaded
    split at loaded
    · cases loaded
    · have loading := loadSegments_loading (given state) size (phnumOf (given state)) 0
        (Loading.start pool board state.machine)
      dsimp only at loaded
      split at loaded
      · next accepted =>
          cases loaded
          have placed := (Bool.and_eq_true_iff.mp accepted).2
          have there := bne_iff_ne.mp (Bool.and_eq_true_iff.mp placed).2
          exact ⟨Nat.le_trans loading.short images, _, there, loading.inside _ there⟩
      · cases loaded
  · unfold stageFlat at loaded
    dsimp only at loaded
    split at loaded
    · cases loaded
    · obtain ⟨count, after⟩ := flatPages_stages (given state) size (pagesFor size) 0
        (show Stages pool state.machine
          { unstaged state.machine with pageCount := pagesFor size }.machine ((List.range 0).map
            { unstaged state.machine with pageCount := pagesFor size }.staged) from
          Stages.start pool state.machine)
      split at loaded
      · next done =>
          cases loaded
          rw [if_pos done, Nat.zero_add] at after
          rw [count]
          have pages : 0 < pagesFor size ∧ pagesFor size ≤ 32768 := by
            unfold pagesFor pageSize
            omega
          obtain ⟨index, -, address, -⟩ :=
            after.fresh _ (List.mem_map_of_mem (List.mem_range.mpr pages.1))
          refine ⟨pages.2, 0, ?_, pages.1⟩
          have := pool.notNull
          rw [address, pageBase]
          omega
      · cases loaded

/-- A committed call has changed the page table: the page it maps was in use by nobody. -/
theorem changed_of_committed {before after : State Mounts} (held : Held pool before.build)
    (runs : ¬ Stopped pool board before)
    (committed : sysExec pool board before = .committed after) : ¬ Unchanged pool before after := by
  intro unchanged
  have sizes := fun bad => runs (.sizes bad)
  obtain ⟨_, machine, _, loaded, rfl, staged, args, done, same⟩ := committed_of_runs runs
  rw [committed] at same
  cases same
  obtain ⟨count, spi, there, inside⟩ := stageImage_entry (fun zero => sizes (.inl zero))
    (Nat.le_of_not_lt fun large => sizes (.inr (.inl large))) staged
  have sound := stageImage_sound pool board (checked pool before) (uint (before.frame a1))
    (uint (before.frame a2))
  change stagedImage pool board before = _ at staged
  change (stagedImage pool board before).Sound pool _ at sound
  rw [staged] at sound
  obtain ⟨index, -, address, free⟩ := sound.fresh _ (mem_stagedPages inside there)
  have few : loaded.argv.length ≤ 32768 := by
    have taken := @argvPages_stages pool loaded.staging.machine loaded.staging.machine []
      (fun i => given (checked pool before) (uint (before.frame a1) + i)) (uint (before.frame a2))
      (pagesFor (uint (before.frame a2))) [] (Stages.start pool loaded.staging.machine)
    rw [stagedArgs] at args
    rw [args] at taken
    have length : loaded.argv.length = 0 + pagesFor (uint (before.frame a2)) := taken.2
    have short : uint (before.frame a2) ≤ argvMax :=
      Nat.le_of_not_lt fun large => sizes (.inr (.inr large))
    unfold pagesFor pageSize at length
    unfold argvMax at short
    omega
  have mapped := commit_maps done count few there inside
  have grown : Grown pool before.heap before.build (validated pool before).2 :=
    userRangeValid_grown pool before.heap true before.build _ _ false
  obtain ⟨build, which, table, -⟩ := unchanged.staged
  rw [table, found] at mapped
  split at mapped
  · have used : bitIsSet (validated pool before).2.alloc index = true := by
      rcases which with rfl | rfl
      · exact grown.used index (held _ _ mapped rfl index address)
      · exact grown.held held _ _ mapped rfl index address
    exact absurd (used.symm.trans free) (by decide)
  · cases mapped

/-- `sys_exec` is atomic in exactly the states where it is not told an `argc` of -1 or does
not reach the new image. -/
theorem exec_atomic_iff (pool : Pool) (board : Board) (before : State Mounts)
    (held : Held pool before.build) :
    Atomic pool board before ↔ int (before.frame a4) ≠ -1 ∨ Stopped pool board before := by
  constructor
  · intro atomic
    by_contra neither
    obtain ⟨minus, runs⟩ := not_or.mp neither
    obtain ⟨_, _, after, _, -, -, -, -, committed⟩ := committed_of_runs runs
    have told : after.frame a0 = -1 :=
      (sysExec_committed committed).2.1.trans ((answer_iff _).mpr (not_not.mp minus))
    exact changed_of_committed held runs committed (atomic.refused after (.inr committed) told)
  · intro condition
    constructor
    · rintro after (returned | committed) minus
      · rcases sysExec_cases pool board before with ⟨other, unchanged, same⟩ | ⟨_, _, -, -, same⟩
        · rw [returned] at same
          cases same
          exact unchanged
        · rw [returned] at same
          split at same <;> cases same
      · rcases condition with other | stopped
        · have answer := (sysExec_committed committed).2.1
          exact absurd ((answer_iff _).mp (answer.symm.trans minus)) other
        · exact absurd committed stopped.returns
    · intro after committed
      exact (sysExec_committed committed).1

def smallBoard : Board := ⟨1048576, by decide, by decide⟩

/-- One byte of an image at `USER_BASE`, no arguments and an `argc` of -1. -/
def minusOne : TrapFrame := fun register =>
  if register = a0 then 0x1000000 else if register = a1 then 1
  else if register = a4 then 0xFFFFFFFF else 0

theorem minusOne_accepted : ¬ ArgsRefused smallBoard minusOne := by
  unfold ArgsRefused
  decide

/-- The call is not atomic; with arguments that are too long it is. -/
theorem exec_atomic_iff_minusOne :
    ¬ Atomic roomyPool smallBoard (blank minusOne) ∧
      Atomic roomyPool smallBoard (blank (update minusOne a2 16385)) := by
  have held : ∀ frame, Held roomyPool (blank frame).build := by
    intro frame vpn leaf there _ index address
    cases there
    simp only [lazyLeaf, roomyPool] at address
    omega
  obtain ⟨after, committed⟩ := blank_commits minusOne_accepted
  refine ⟨fun atomic => ?_, (exec_atomic_iff _ _ _ (held _)).mpr (.inr (.sizes ?_))⟩
  · rcases (exec_atomic_iff _ _ _ (held _)).mp atomic with other | stopped
    · exact other (by decide)
    · exact stopped.returns committed
  · exact .inr (.inr (by decide))

theorem minus_one_commits :
    ¬ ∀ (Mounts : Type) (pool : Pool) (board : Board) (before : State Mounts),
      Atomic pool board before := by
  intro always
  exact blank_not_atomic minusOne_accepted (by decide)
    (always Unit roomyPool smallBoard (blank minusOne))

end Racccoon.Exec
