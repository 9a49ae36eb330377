import Racccoon.AddressSpace.Lifetime

/-!
The address ranges SYS_MAP and SYS_SEGATTACH hand out. The bump pointer is a process's
own while the page table may be shared: ranges are disjoint as long as a call that places
one is made by a process whose heap top is the highest its address space has had.
-/

namespace Racccoon.AddressSpace
open Function (update update_self update_of_ne)

open Run

variable {board : Board} {kernel after : Kernel} {table : Nat}

/-- The pages a call goes on to look for a place for. -/
def wanted (board : Board) (kernel : Kernel) : Action → Option (Nat × Nat)
  | .map caller bytes =>
    if bytes = 0 ∨ bytes > board.heapMax * pageSize then none
    else some (caller, (bytes + pageSize - 1) / pageSize)
  | .segattach caller name size _ _ =>
    match segLookup kernel caller name size with
    | .attach si => some (caller, (kernel.segments si).npages)
    | .create _ pages => some (caller, pages)
    | _ => none
  | _ => none

def ahead (board : Board) (kernel : Kernel) (action : Action) : Prop :=
  ∀ call ∈ wanted board kernel action,
    (userMapPlace board (kernel.procs call.1).heapTop call.2).isSome →
    kernel.highWater (kernel.procs call.1).pageTable ≤ (kernel.procs call.1).heapTop

instance (board : Board) (kernel : Kernel) (action : Action) :
    Decidable (ahead board kernel action) :=
  inferInstanceAs (Decidable (∀ call ∈ wanted board kernel action,
    (userMapPlace board (kernel.procs call.1).heapTop call.2).isSome →
    kernel.highWater (kernel.procs call.1).pageTable ≤ (kernel.procs call.1).heapTop))

def Apart (first second : Range) : Prop :=
  first.table = second.table →
    first.base + first.pages ≤ second.base ∨ second.base + second.pages ≤ first.base

/-- Everything in an address space lies below the highest heap top it has had. -/
structure Bounded (board : Board) (kernel : Kernel) : Prop where
  tops : ∀ slot < board.procsMax, (kernel.procs slot).used →
    (kernel.procs slot).heapTop ≤ kernel.highWater (kernel.procs slot).pageTable
  leaves : ∀ table, live board kernel.procs table → ∀ entry ∈ kernel.spaces table,
    entry.1 < kernel.highWater table
  ranges : ∀ range ∈ kernel.handed, live board kernel.procs range.table →
    range.base + range.pages ≤ kernel.highWater range.table
  apart : kernel.handed.Pairwise Apart

variable {base caller vpn : Nat}

theorem userMapPlace_above {top pages : Nat} (placed : userMapPlace board top pages = some base) :
    top ≤ base := by
  unfold userMapPlace at placed
  split at placed
  · cases placed
  · simp only [Option.ite_none_left_eq_some, Option.some.injEq] at placed
    obtain ⟨-, rfl⟩ := placed
    split <;> omega

theorem boot_bounded (board : Board) : Bounded board boot := by
  refine ⟨?_, ?_, ?_, .nil⟩
  · intro slot _ used
    cases used
  · intro table _ entry listed
    cases listed
  · intro range listed
    cases listed

theorem Undisturbed.bounded (same : Undisturbed kernel after) (bounded : Bounded board kernel) :
    Bounded board after := by
  obtain ⟨procs, spaces, handed, highWater⟩ := same
  obtain ⟨tops, leaves, ranges, apart⟩ := bounded
  constructor
  · simpa only [procs, highWater] using tops
  · simpa only [procs, spaces, highWater] using leaves
  · simpa only [procs, handed, highWater] using ranges
  · simpa only [handed] using apart

section
variable (bounded : Bounded board kernel)
include bounded

theorem Bounded.setSpace (table : Nat) (space : Space)
    (below : live board kernel.procs table → ∀ entry ∈ space, entry.1 < kernel.highWater table) :
    Bounded board { kernel with spaces := update kernel.spaces table space } := by
  refine ⟨bounded.tops, ?_, bounded.ranges, bounded.apart⟩
  intro root alive entry listed
  by_cases same : root = table
  · subst same
    simp only [update_self] at listed
    exact below alive entry listed
  · simp only [update_of_ne same] at listed
    exact bounded.leaves root alive entry listed

/-- A range above everything in its address space, handed to one of its processes. -/
theorem Bounded.hand (pages : Nat) (inside : caller < board.procsMax)
    (used : (kernel.procs caller).used = true)
    (above : kernel.highWater (kernel.procs caller).pageTable ≤ base) :
    Bounded board
      { kernel with
        procs := update kernel.procs caller
          { kernel.procs caller with heapTop := base + pages }
        handed := ⟨(kernel.procs caller).pageTable, base, pages⟩ :: kernel.handed
        highWater := update kernel.highWater (kernel.procs caller).pageTable
          (max (kernel.highWater (kernel.procs caller).pageTable) (base + pages)) } := by
  let table := (kernel.procs caller).pageTable
  have rises : ∀ root, kernel.highWater root ≤ update kernel.highWater table
      (max (kernel.highWater table) (base + pages)) root := by
    intro root
    by_cases same : root = table
    · rw [same, update_self]
      exact Nat.le_max_left _ _
    · rw [update_of_ne same]
  have alive : ∀ root, live board (update kernel.procs caller
      { kernel.procs caller with heapTop := base + pages }) root → live board kernel.procs root := by
    intro root
    apply (live_update_heap ?_ ?_ root).mp <;> rfl
  refine ⟨?_, ?_, ?_, List.pairwise_cons.mpr ⟨?_, bounded.apart⟩⟩
  · intro slot low active
    by_cases mine : slot = caller
    · subst mine
      simp only [update_self]
      exact Nat.le_max_right _ _
    · simp only [update_of_ne mine] at active ⊢
      exact (bounded.tops slot low active).trans (rises _)
  · intro root running entry listed
    exact (bounded.leaves root (alive root running) entry listed).trans_le (rises root)
  · intro range listed running
    rcases List.mem_cons.mp listed with rfl | old
    · simp only [update_self]
      exact Nat.le_max_right _ _
    · exact (bounded.ranges range old (alive _ running)).trans (rises _)
  · intro range old same
    right
    have here : live board kernel.procs range.table := ⟨caller, inside, used, same⟩
    have top := bounded.ranges range old here
    rw [← same] at top
    exact top.trans above

theorem sysMap_bounded {bytes : Nat} (inside : caller < board.procsMax)
    (used : (kernel.procs caller).used = true) (first : ahead board kernel (.map caller bytes)) :
    Bounded board (sysMap board kernel caller bytes) := by
  unfold sysMap
  dsimp only
  split
  · exact bounded
  next asked =>
  split
  · exact bounded
  · next base placed =>
      have above := first (caller, _) (if_neg asked) (Option.isSome_of_eq_some placed)
      exact bounded.hand _ inside used (above.trans (userMapPlace_above placed))

theorem touch_bounded {page : Nat} {fault : Bool} (inside : caller < board.procsMax)
    (used : (kernel.procs caller).used = true)
    (stepped : touch board kernel caller vpn page fault = some after) : Bounded board after := by
  unfold touch at stepped
  dsimp only at stepped
  split at stepped
  · cases stepped
    exact bounded
  next within =>
  split at stepped
  · cases stepped
    exact bounded
  split at stepped
  · cases stepped
    exact bounded
  obtain ⟨ready, taken, rfl⟩ := Option.map_eq_some_iff.mp stepped
  have same := takePages_undisturbed taken
  have held := same.bounded bounded
  refine held.setSpace _ _ fun alive entry listed => ?_
  rcases mem_mapLeaf listed with rfl | old
  · have top := bounded.tops caller inside used
    rw [same.highWater]
    exact (Nat.lt_of_not_le fun low => within (.inr low)).trans_le top
  · exact held.leaves _ alive entry old

end

theorem undoCreate_undisturbed (kernel : Kernel) (si : Nat) (created : Bool) :
    Undisturbed kernel (undoCreate kernel si created) := by
  unfold undoCreate
  split
  · refine Undisturbed.trans ?_ (segUnref_undisturbed _ si)
    exact ⟨rfl, rfl, rfl, rfl⟩
  · exact .refl kernel

variable {stop : Option Nat}

theorem segPlace_bounded (bounded : Bounded board kernel) {si : Nat} {created : Bool}
    (inside : caller < board.procsMax) (used : (kernel.procs caller).used = true)
    (first : (userMapPlace board (kernel.procs caller).heapTop (kernel.segments si).npages).isSome →
      kernel.highWater (kernel.procs caller).pageTable ≤ (kernel.procs caller).heapTop) :
    Bounded board (segPlace board kernel caller si created stop) := by
  unfold segPlace
  dsimp only
  split
  · exact (undoCreate_undisturbed kernel si created).bounded bounded
  next base placed =>
  split
  · refine (undoCreate_undisturbed _ si created).bounded (bounded.setSpace _ _ ?_)
    intro alive entry listed
    obtain ⟨listed, outside⟩ := mem_clearRange.mp listed
    rcases mem_mapLeaves listed with old | ⟨k, place, here, -⟩
    · exact bounded.leaves _ alive entry old
    · have short := (run_getElem place).1
      omega
  · have above := (first (Option.isSome_of_eq_some placed)).trans (userMapPlace_above placed)
    have handed := bounded.hand (kernel.segments si).npages inside used above
    refine (addAttachment_undisturbed _ si _ base).bounded (handed.setSpace _ _ ?_)
    intro alive entry listed
    rcases mem_mapLeaves listed with old | ⟨k, place, here, -⟩
    · exact handed.leaves _ alive entry old
    · have short := (run_getElem place).1
      simp only [update_self]
      omega

theorem createSegment_undisturbed {si paddr npages : Nat} {name : Text}
    (done : createSegment kernel caller si name paddr npages = some after) :
    Undisturbed kernel after ∧ (after.segments si).npages = npages := by
  obtain ⟨ready, taken, rfl⟩ := Option.map_eq_some_iff.mp done
  obtain ⟨procs, spaces, handed, highWater⟩ := takePages_undisturbed taken
  exact ⟨⟨procs, spaces, handed, highWater⟩, by simp⟩

section
variable (bounded : Bounded board kernel)
include bounded

theorem sysSegattach_bounded {size : Nat} {name : Text} {paddr : Option Nat}
    (inside : caller < board.procsMax) (used : (kernel.procs caller).used = true)
    (first : ahead board kernel (.segattach caller name size paddr stop))
    (stepped : sysSegattach board kernel caller name size paddr stop = some after) :
    Bounded board after := by
  unfold sysSegattach at stepped
  split at stepped
  · cases stepped
    exact bounded
  · cases stepped
    exact bounded
  · next si found =>
      cases stepped
      refine segPlace_bounded bounded inside used (first (caller, _) ?_)
      simp only [wanted, found, Option.mem_def]
  · next si pages found =>
      cases paddr with
      | none =>
        cases stepped
        exact bounded
      | some paddr =>
        obtain ⟨made, created, rfl⟩ := Option.map_eq_some_iff.mp stepped
        obtain ⟨same, npages⟩ := createSegment_undisturbed created
        refine segPlace_bounded (same.bounded bounded) inside ?_ ?_
        · rw [same.procs]
          exact used
        · rw [same.procs, same.highWater, npages]
          exact first (caller, pages) (by simp only [wanted, found, Option.mem_def])

theorem sysSegdetach_bounded (caller vaddr : Nat) :
    Bounded board (sysSegdetach kernel caller vaddr) := by
  unfold sysSegdetach
  dsimp only
  split
  · refine (dropAttachment_undisturbed _ _).bounded (bounded.setSpace _ _ ?_)
    intro alive entry listed
    exact bounded.leaves _ alive entry (mem_clearRange.mp listed).1
  · exact bounded

theorem sysSetuid_bounded (caller uid : Nat) : Bounded board (sysSetuid kernel caller uid) := by
  unfold sysSetuid
  split
  · have alive : ∀ root, live board (update kernel.procs caller
        { kernel.procs caller with uid := uid }) root → live board kernel.procs root := by
      intro root
      apply (live_update_heap ?_ ?_ root).mp <;> rfl
    refine ⟨?_, ?_, ?_, bounded.apart⟩
    · intro slot inside used
      by_cases mine : slot = caller
      · subst mine
        simp only [update_self] at used ⊢
        exact bounded.tops slot inside used
      · simp only [update_of_ne mine] at used ⊢
        exact bounded.tops slot inside used
    · exact fun root running => bounded.leaves root (alive root running)
    · exact fun range listed running => bounded.ranges range listed (alive _ running)
  · exact bounded

/-- A process comes with its address space, which has held at most what `handed` lists. -/
theorem Bounded.spawn (slot : Nat) (proc : Proc) {top : Nat}
    (dead : ¬ live board kernel.procs proc.pageTable) (low : proc.heapTop ≤ top) (space : Space)
    (below : ∀ entry ∈ space, entry.1 < top) (handed : List Range)
    (mine : ∀ range ∈ handed, range.table = proc.pageTable ∧ range.base + range.pages ≤ top)
    (apart : handed.Pairwise Apart) :
    Bounded board
      { kernel with
        procs := update kernel.procs slot proc
        spaces := update kernel.spaces proc.pageTable space
        handed := (kernel.handed.filter fun range => range.table ≠ proc.pageTable) ++ handed
        highWater := update kernel.highWater proc.pageTable top } := by
  have older : ∀ root, root ≠ proc.pageTable →
      live board (update kernel.procs slot proc) root → live board kernel.procs root := by
    rintro root other ⟨owner, inside, used, here⟩
    by_cases same : owner = slot
    · subst same
      simp only [update_self] at here
      exact absurd here.symm other
    · simp only [update_of_ne same] at used here
      exact ⟨owner, inside, used, here⟩
  refine ⟨?_, ?_, ?_, ?_⟩
  · intro owner inside used
    by_cases same : owner = slot
    · subst same
      simpa only [update_self] using low
    · simp only [update_of_ne same] at used ⊢
      have other : (kernel.procs owner).pageTable ≠ proc.pageTable := by
        intro here
        exact dead ⟨owner, inside, used, here⟩
      rw [update_of_ne other]
      exact bounded.tops owner inside used
  · intro root alive entry listed
    by_cases same : root = proc.pageTable
    · subst same
      simp only [update_self] at listed ⊢
      exact below entry listed
    · simp only [update_of_ne same] at listed ⊢
      exact bounded.leaves root (older root same alive) entry listed
  · intro range listed alive
    rcases List.mem_append.mp listed with old | new
    · obtain ⟨old, other⟩ := List.mem_filter.mp old
      have other : range.table ≠ proc.pageTable := by simpa using other
      simp only [update_of_ne other]
      exact bounded.ranges range old (older _ other alive)
    · obtain ⟨here, under⟩ := mine range new
      simp only [here, update_self]
      exact under
  · refine List.pairwise_append.mpr ⟨bounded.apart.filter _, apart, ?_⟩
    intro old listed new added same
    obtain ⟨-, other⟩ := List.mem_filter.mp listed
    have other : old.table ≠ proc.pageTable := by simpa using other
    exact absurd (same.trans (mine new added).1) other

end

theorem fresh_dead {ready : Kernel} {pages : List Nat} {root : Nat}
    (sound : Sound board none kernel) (taken : takePages kernel pages = some ready)
    (given : root ∈ pages) : ¬ live board ready.procs root := by
  obtain ⟨-, -, spare⟩ := sound.take taken
  exact fun alive => (spare root given).2 (.root root) ⟨alive, rfl⟩

theorem createProcess_bounded (sound : Sound board none kernel) (bounded : Bounded board kernel)
    {root : Nat} {image : List Nat}
    (stepped : createProcess board kernel root image = some after) : Bounded board after := by
  unfold createProcess at stepped
  split at stepped
  · cases stepped
    exact bounded
  next slot found =>
  obtain ⟨ready, taken, rfl⟩ := Option.map_eq_some_iff.mp stepped
  have held := (takePages_undisturbed taken).bounded bounded
  let top := userBase + image.length
  have dead : ¬ live board ready.procs root := fresh_dead sound taken (by simp)
  have spawned := held.spawn slot ⟨true, root, top, top, 0⟩ dead
    (Nat.le_refl top) (mapLeaves [] userBase false image) ?_ [] (by simp) .nil
  · simpa only [List.append_nil] using spawned
  · intro entry listed
    rcases mem_mapLeaves listed with old | ⟨k, place, here, -⟩
    · cases old
    · have short := (List.getElem?_eq_some_iff.mp place).1
      omega

theorem rforkShared_bounded (bounded : Bounded board kernel) (inside : caller < board.procsMax)
    (used : (kernel.procs caller).used = true) :
    Bounded board (rforkShared board kernel caller) := by
  unfold rforkShared
  split
  · exact bounded
  next slot found =>
  have alive : ∀ root, live board (update kernel.procs slot
      { kernel.procs caller with used := true }) root → live board kernel.procs root := by
    rintro root ⟨owner, low, active, here⟩
    by_cases same : owner = slot
    · subst same
      simp only [update_self] at here
      exact ⟨caller, inside, used, here⟩
    · simp only [update_of_ne same] at active here
      exact ⟨owner, low, active, here⟩
  refine ⟨?_, ?_, ?_, bounded.apart⟩
  · intro owner low active
    by_cases same : owner = slot
    · subst same
      simp only [update_self]
      exact bounded.tops caller inside used
    · simp only [update_of_ne same] at active ⊢
      exact bounded.tops owner low active
  · exact fun root running => bounded.leaves root (alive root running)
  · exact fun range listed running => bounded.ranges range listed (alive _ running)

variable {space : Space}

theorem copySpace_places {copies : List Nat} {entry : Nat × Leaf}
    (listed : entry ∈ copySpace space copies) : ∃ old ∈ space, old.1 = entry.1 := by
  induction space generalizing copies with
  | nil => cases listed
  | cons _ _ ih =>
    rw [copySpace] at listed
    split at listed
    · rcases List.mem_cons.mp listed with rfl | later
      · exact ⟨_, List.mem_cons_self, rfl⟩
      · obtain ⟨old, found, same⟩ := ih later
        exact ⟨old, List.mem_cons_of_mem _ found, same⟩
    · rcases List.mem_cons.mp listed with rfl | later
      · exact ⟨_, List.mem_cons_self, rfl⟩
      · obtain ⟨old, found, same⟩ := ih later
        exact ⟨old, List.mem_cons_of_mem _ found, same⟩

theorem rforkCopy_bounded (sound : Sound board none kernel) (bounded : Bounded board kernel)
    {root : Nat} {copies : List Nat} (inside : caller < board.procsMax)
    (used : (kernel.procs caller).used = true)
    (stepped : rforkCopy board kernel caller root copies = some after) : Bounded board after := by
  unfold rforkCopy at stepped
  dsimp only at stepped
  split at stepped
  · cases stepped
    exact bounded
  next slot found =>
  split at stepped
  · cases stepped
    exact bounded
  split at stepped
  · cases stepped
  obtain ⟨ready, taken, rfl⟩ := Option.map_eq_some_iff.mp stepped
  have same := takePages_undisturbed taken
  have held := same.bounded bounded
  have alive : live board ready.procs (kernel.procs caller).pageTable :=
    ⟨caller, inside, same.procs ▸ used, by rw [same.procs]⟩
  apply (segDupAttachments_undisturbed _ _ root).bounded
  refine held.spawn slot { kernel.procs caller with used := true, pageTable := root }
    (fresh_dead sound taken (by simp)) ?_ _ ?_ _ ?_ ?_
  · rw [same.highWater]
    exact bounded.tops caller inside used
  · intro entry listed
    obtain ⟨old, member, here⟩ := copySpace_places listed
    rw [← here]
    exact held.leaves _ alive old member
  · intro range listed
    obtain ⟨old, member, rfl⟩ := List.mem_map.mp listed
    obtain ⟨member, here⟩ := List.mem_filter.mp member
    have here : old.table = (kernel.procs caller).pageTable := by simpa using here
    refine ⟨rfl, ?_⟩
    rw [← here] at alive ⊢
    exact held.ranges old member alive
  · rw [List.pairwise_map]
    refine (held.apart.filter _).imp_of_mem ?_
    intro first second member other apart _
    have here := (List.mem_filter.mp member).2
    have there := (List.mem_filter.mp other).2
    simp only [decide_eq_true_eq] at here there
    exact apart (here.trans there.symm)

section
variable (bounded : Bounded board kernel)
include bounded

/-- An image loaded over a process: its address space is its own, or others keep their
ranges in it. -/
theorem Bounded.load (caller : Nat) {top : Nat} (shared : Bool)
    (below : ∀ entry ∈ space, entry.1 < top)
    (alone : shared = false → ∀ other < board.procsMax, (kernel.procs other).used →
      (kernel.procs other).pageTable = (kernel.procs caller).pageTable → other = caller) :
    Bounded board
      { kernel with
        procs := update kernel.procs caller
          { kernel.procs caller with heapTop := top, mapFloor := top }
        spaces := update kernel.spaces (kernel.procs caller).pageTable space
        handed := if shared then kernel.handed
          else kernel.handed.filter fun range => range.table ≠ (kernel.procs caller).pageTable
        highWater := update kernel.highWater (kernel.procs caller).pageTable
          (if shared then max (kernel.highWater (kernel.procs caller).pageTable) top else top) } := by
  have alive : ∀ root, live board (update kernel.procs caller
      { kernel.procs caller with heapTop := top, mapFloor := top }) root →
      live board kernel.procs root := by
    intro root
    apply (live_update_heap ?_ ?_ root).mp <;> rfl
  have reaches : top ≤
      if shared then max (kernel.highWater (kernel.procs caller).pageTable) top else top := by
    split
    · exact Nat.le_max_right _ _
    · exact Nat.le_refl _
  refine ⟨?_, ?_, ?_, ?_⟩
  · intro slot inside used
    by_cases mine : slot = caller
    · subst mine
      simpa only [update_self] using reaches
    · simp only [update_of_ne mine] at used ⊢
      have low := bounded.tops slot inside used
      by_cases here : (kernel.procs slot).pageTable = (kernel.procs caller).pageTable
      · cases shared with
        | false => exact absurd (alone rfl slot inside used here) mine
        | true =>
          rw [here] at low ⊢
          simp only [update_self]
          exact low.trans (Nat.le_max_left _ _)
      · rw [update_of_ne here]
        exact low
  · intro root running entry listed
    by_cases here : root = (kernel.procs caller).pageTable
    · subst here
      simp only [update_self] at listed ⊢
      exact (below entry listed).trans_le reaches
    · simp only [update_of_ne here] at listed ⊢
      exact bounded.leaves root (alive root running) entry listed
  · intro range listed running
    cases shared with
    | false =>
      obtain ⟨old, other⟩ := List.mem_filter.mp listed
      have other : range.table ≠ (kernel.procs caller).pageTable := by simpa using other
      simp only [update_of_ne other]
      exact bounded.ranges range old (alive _ running)
    | true =>
      have low := bounded.ranges range listed (alive _ running)
      by_cases here : range.table = (kernel.procs caller).pageTable
      · rw [here] at low
        simp only [here, update_self]
        exact low.trans (Nat.le_max_left _ _)
      · simp only [update_of_ne here]
        exact low
  · split
    · exact bounded.apart
    · exact bounded.apart.filter _

theorem sysExec_bounded {image : List (Option Nat)}
    {argv : List Nat} (stepped : sysExec board kernel caller image argv = some after) :
    Bounded board after := by
  obtain ⟨ready, taken, rfl⟩ := Option.map_eq_some_iff.mp stepped
  let table := (kernel.procs caller).pageTable
  have same := takePages_undisturbed taken
  have wiped : Bounded board
      { freePages ready (ownedPages (ready.spaces table)) with
        spaces := update ready.spaces table [] } := by
    have held := same.bounded bounded
    obtain ⟨tops, leaves, ranges, apart⟩ := held.setSpace table [] fun _ => List.forall_mem_nil _
    exact ⟨tops, leaves, ranges, apart⟩
  have released := segReleaseTable_undisturbed
    { freePages ready (ownedPages (ready.spaces table)) with
      spaces := update ready.spaces table [] } table
  have cleared := released.bounded wiped
  dsimp only
  generalize segReleaseTable _ (kernel.procs caller).pageTable = last at released cleared ⊢
  have procs : last.procs = kernel.procs := released.procs.trans same.procs
  have below : ∀ entry ∈ mapLeaves
      ((image.zipIdx userBase).filterMap fun entry =>
        entry.1.map fun page => (entry.2, Leaf.mk page false))
      (userBase + image.length) false argv, entry.1 < userBase + image.length + argv.length := by
    intro entry listed
    obtain ⟨-, k, here, found⟩ := mem_loaded listed
    have short := (List.getElem?_eq_some_iff.mp found).1
    simp only [List.length_append, List.length_map] at short
    omega
  have loaded := cleared.load caller (tableShared board ready caller) below ?_
  · rw [procs] at loaded ⊢
    exact loaded
  · intro single other low active here
    rw [procs, ← same.procs] at active here
    by_contra apart
    have shared := (tableShared_iff caller).mpr ⟨other, low, apart, active, here⟩
    rw [single] at shared
    cases shared

theorem Bounded.kill (slot : Nat) {proc : Proc} (gone : proc.used = false) :
    Bounded board { kernel with procs := update kernel.procs slot proc } := by
  refine ⟨?_, ?_, ?_, bounded.apart⟩
  · intro owner inside used
    by_cases same : owner = slot
    · subst same
      simp [gone] at used
    · simp only [update_of_ne same] at used ⊢
      exact bounded.tops owner inside used
  · exact fun root alive => bounded.leaves root (live_update_unused gone alive)
  · exact fun range listed alive => bounded.ranges range listed (live_update_unused gone alive)

theorem procDestroy_bounded (slot : Nat) : Bounded board (procDestroy board kernel slot) := by
  unfold procDestroy
  dsimp only
  split
  · exact bounded.kill slot rfl
  · have released := segReleaseTable_undisturbed kernel (kernel.procs slot).pageTable
    generalize segReleaseTable kernel (kernel.procs slot).pageTable = last at released ⊢
    have wiped := (released.bounded bounded).setSpace (kernel.procs slot).pageTable []
      fun _ => List.forall_mem_nil _
    let gone : Proc := { kernel.procs slot with used := false }
    have ended : gone.used = false := rfl
    obtain ⟨tops, leaves, ranges, apart⟩ := wiped.kill slot ended
    exact ⟨tops, leaves, ranges, apart⟩

end

theorem step_bounded (sound : Sound board none kernel) (bounded : Bounded board kernel)
    {action : Action} (first : ahead board kernel action)
    (stepped : step board kernel action = some after) : Bounded board after := by
  unfold step at stepped
  split at stepped
  · next admitted =>
    cases action with
    | create => exact createProcess_bounded sound bounded stepped
    | rforkShared caller =>
      cases stepped
      exact rforkShared_bounded bounded (admitted caller rfl).1 (admitted caller rfl).2
    | rforkCopy caller =>
      exact rforkCopy_bounded sound bounded (admitted caller rfl).1 (admitted caller rfl).2 stepped
    | exec => exact sysExec_bounded bounded stepped
    | destroy slot =>
      cases stepped
      exact procDestroy_bounded bounded slot
    | map caller =>
      cases stepped
      exact sysMap_bounded bounded (admitted caller rfl).1 (admitted caller rfl).2 first
    | touch caller =>
      exact touch_bounded bounded (admitted caller rfl).1 (admitted caller rfl).2 stepped
    | segattach caller =>
      exact sysSegattach_bounded bounded (admitted caller rfl).1 (admitted caller rfl).2 first
        stepped
    | segdetach caller vaddr =>
      cases stepped
      exact sysSegdetach_bounded bounded caller vaddr
    | setuid caller uid =>
      cases stepped
      exact sysSetuid_bounded bounded caller uid
  · cases stepped

theorem run_bounded (run : Reach (step board) (ahead board) boot kernel) :
    Sound board none kernel ∧ Bounded board kernel := by
  refine run.invariant (fun kernel => Sound board none kernel ∧ Bounded board kernel)
    ⟨boot_sound board, boot_bounded board⟩ ?_
  rintro before action after ⟨sound, bounded⟩ first stepped
  exact ⟨step_sound sound stepped, step_bounded sound bounded first stepped⟩

def LeavesKept (kernel after : Kernel) : Prop :=
  ∀ table vpn leaf, lookup (kernel.spaces table) vpn = some leaf →
    lookup (after.spaces table) vpn = some leaf

theorem lookup_mem {leaf : Leaf} (found : lookup space vpn = some leaf) : (vpn, leaf) ∈ space := by
  obtain ⟨⟨place, here⟩, hit, rfl⟩ := Option.map_eq_some_iff.mp found
  have same : place = vpn := by simpa using List.find?_some hit
  rw [← same]
  exact List.mem_of_find?_eq_some hit

theorem lookup_clearLeaf {other : Nat} (apart : vpn ≠ other) :
    lookup (clearLeaf space other) vpn = lookup space vpn := by
  rw [lookup, clearLeaf, List.find?_filter]
  congr 2
  funext entry
  by_cases here : entry.1 = vpn <;> simp [here, apart]

theorem lookup_mapLeaf {other : Nat} (apart : vpn ≠ other) (leaf : Leaf) :
    lookup (mapLeaf space other leaf) vpn = lookup space vpn := by
  have later : lookup (mapLeaf space other leaf) vpn = lookup (clearLeaf space other) vpn := by
    simp [lookup, mapLeaf, apart.symm]
  rw [later, lookup_clearLeaf apart]

theorem lookup_mapLeaves (shared : Bool) (pages : List Nat) (below : vpn < base) :
    lookup (mapLeaves space base shared pages) vpn = lookup space vpn := by
  induction pages generalizing space base with
  | nil => rfl
  | cons _ _ ih => rw [mapLeaves, ih (by omega), lookup_mapLeaf (by omega)]

theorem lookup_clearRange (pages : Nat) (below : vpn < base) :
    lookup (clearRange space base pages) vpn = lookup space vpn := by
  have swept : ∀ (vpns : List Nat) (space : Space), vpn ∉ vpns →
      lookup (vpns.foldl clearLeaf space) vpn = lookup space vpn := by
    intro vpns
    induction vpns with
    | nil => exact fun _ _ => rfl
    | cons first rest ih =>
      intro space outside
      rw [List.mem_cons, not_or] at outside
      obtain ⟨apart, outside⟩ := outside
      rw [List.foldl_cons, ih _ outside, lookup_clearLeaf apart]
  refine swept (run base pages) space fun listed => ?_
  have above := (List.mem_range'_1.mp listed).1
  omega

theorem LeavesKept.setSpace (kernel : Kernel) (table : Nat) (space : Space)
    (kept : ∀ vpn leaf, lookup (kernel.spaces table) vpn = some leaf → lookup space vpn = some leaf) :
    LeavesKept kernel { kernel with spaces := update kernel.spaces table space } := by
  intro root vpn leaf found
  by_cases same : root = table
  · subst same
    simpa only [update_self] using kept vpn leaf found
  · simpa only [update_of_ne same] using found

theorem LeavesKept.of_same (spaces : after.spaces = kernel.spaces) : LeavesKept kernel after := by
  intro table vpn leaf found
  rw [spaces]
  exact found

theorem touch_leaves {page : Nat} {fault : Bool}
    (stepped : touch board kernel caller vpn page fault = some after) :
    LeavesKept kernel after := by
  unfold touch at stepped
  dsimp only at stepped
  split at stepped
  · cases stepped
    exact .of_same rfl
  split at stepped
  · cases stepped
    exact .of_same rfl
  split at stepped
  · cases stepped
    exact .of_same rfl
  next empty =>
  obtain ⟨ready, taken, rfl⟩ := Option.map_eq_some_iff.mp stepped
  have same : ready.spaces = kernel.spaces := (takePages_undisturbed taken).spaces
  have kept := LeavesKept.setSpace ready (kernel.procs caller).pageTable
    (mapLeaf (ready.spaces (kernel.procs caller).pageTable) vpn ⟨page, false⟩) ?_
  · intro root place leaf found
    exact kept root place leaf (same ▸ found)
  · intro place leaf found
    rw [lookup_mapLeaf, found]
    rintro rfl
    rw [same] at found
    exact empty (Option.isSome_of_eq_some found)

theorem LeavesKept.trans {middle : Kernel} (first : LeavesKept kernel middle)
    (second : LeavesKept middle after) : LeavesKept kernel after :=
  fun table vpn leaf found => second table vpn leaf (first table vpn leaf found)

/-- A segment is placed above every leaf of the address space. -/
theorem segPlace_leaves (bounded : Bounded board kernel) {si : Nat} {created : Bool}
    (alive : live board kernel.procs (kernel.procs caller).pageTable)
    (first : (userMapPlace board (kernel.procs caller).heapTop (kernel.segments si).npages).isSome →
      kernel.highWater (kernel.procs caller).pageTable ≤ (kernel.procs caller).heapTop) :
    LeavesKept kernel (segPlace board kernel caller si created stop) := by
  unfold segPlace
  dsimp only
  split
  · exact .of_same (undoCreate_undisturbed kernel si created).spaces
  next base placed =>
  have above := (first (Option.isSome_of_eq_some placed)).trans (userMapPlace_above placed)
  have below : ∀ vpn leaf, lookup (kernel.spaces (kernel.procs caller).pageTable) vpn = some leaf →
      vpn < base :=
    fun vpn leaf found => (bounded.leaves _ alive (vpn, leaf) (lookup_mem found)).trans_le above
  split
  · refine LeavesKept.trans ?_ (.of_same (undoCreate_undisturbed _ si created).spaces)
    apply LeavesKept.setSpace
    intro vpn leaf found
    rw [lookup_clearRange _ (below vpn leaf found), lookup_mapLeaves true _ (below vpn leaf found),
      found]
  · refine LeavesKept.trans ?_ (.of_same (addAttachment_undisturbed _ si _ base).spaces)
    apply LeavesKept.setSpace
    intro vpn leaf found
    rw [lookup_mapLeaves true _ (below vpn leaf found), found]

theorem sysSegattach_leaves (bounded : Bounded board kernel) {size : Nat} {name : Text}
    {paddr : Option Nat} (alive : live board kernel.procs (kernel.procs caller).pageTable)
    (first : ahead board kernel (.segattach caller name size paddr stop))
    (stepped : sysSegattach board kernel caller name size paddr stop = some after) :
    LeavesKept kernel after := by
  unfold sysSegattach at stepped
  split at stepped
  · cases stepped
    exact .of_same rfl
  · cases stepped
    exact .of_same rfl
  · next si found =>
      cases stepped
      exact segPlace_leaves bounded alive
        (first (caller, _) (by simp only [wanted, found, Option.mem_def]))
  · next si pages found =>
      cases paddr with
      | none =>
        cases stepped
        exact .of_same rfl
      | some paddr =>
        obtain ⟨made, created, rfl⟩ := Option.map_eq_some_iff.mp stepped
        obtain ⟨same, npages⟩ := createSegment_undisturbed created
        refine LeavesKept.trans (.of_same same.spaces)
          (segPlace_leaves (same.bounded bounded) ?_ ?_)
        · rw [same.procs]
          exact alive
        · rw [same.procs, same.highWater, npages]
          exact first (caller, pages) (by simp only [wanted, found, Option.mem_def])

/-- The calls that hand out ranges, and the touching of a page of the heap. -/
def Action.grows : Action → Bool
  | .map _ _ | .touch _ _ _ _ | .segattach _ _ _ _ _ => true
  | _ => false

/-- As long as every call that places a range is made by a process whose heap top is the
highest its address space has had, the ranges handed out in one address space are apart,
and growing it takes no leaf away. -/
theorem ranges_apart (run : Reach (step board) (ahead board) boot kernel) :
    kernel.handed.Pairwise Apart ∧
      ∀ action after, action.grows → ahead board kernel action →
        step board kernel action = some after → LeavesKept kernel after := by
  obtain ⟨-, bounded⟩ := run_bounded run
  refine ⟨bounded.apart, fun action after grows first stepped => ?_⟩
  unfold step at stepped
  split at stepped
  · next admitted =>
    have alive : ∀ caller, action.caller = some caller →
        live board kernel.procs (kernel.procs caller).pageTable :=
      fun caller mine => live_of_used (admitted caller mine).1 (admitted caller mine).2
    cases action with
    | map =>
      cases stepped
      apply LeavesKept.of_same
      unfold sysMap
      dsimp only
      split
      · rfl
      · split <;> rfl
    | touch caller vpn page fault => exact touch_leaves stepped
    | segattach caller name size paddr stop =>
      exact sysSegattach_leaves bounded (alive caller rfl) first stepped
    | _ => cases grows
  · cases stepped

/-- Two processes in one address space each map a page: both get the same one. Then the
second one's segment takes the place of a page the first one has written to. -/
def afterMaps : Kernel :=
  outcome (step ⟨64, 4096, 0, 0⟩) (fun _ _ => True) boot
    [.create 1 [2], .rforkShared 0, .map 0 pageSize, .touch 0 4097 3 true]

def afterSecondMap : Kernel :=
  outcome (step ⟨64, 4096, 0, 0⟩) (fun _ _ => True) afterMaps [.map 1 pageSize]

def afterSegattach : Kernel :=
  outcome (step ⟨64, 4096, 0, 0⟩) (fun _ _ => True) afterMaps
    [.segattach 1 ['r', 'i', 'n', 'g'] 100 (some 4) none]

theorem same_range_twice :
    Reach (step ⟨64, 4096, 0, 0⟩) (fun _ _ => True) boot afterMaps ∧
      step ⟨64, 4096, 0, 0⟩ afterMaps (.map 1 pageSize) = some afterSecondMap ∧
      afterSecondMap.handed = [⟨1, 4097, 1⟩, ⟨1, 4097, 1⟩] ∧
      ¬ afterSecondMap.handed.Pairwise Apart ∧
      step ⟨64, 4096, 0, 0⟩ afterMaps (.segattach 1 ['r', 'i', 'n', 'g'] 100 (some 4) none) =
        some afterSegattach ∧
      lookup (afterMaps.spaces 1) 4097 = some ⟨3, false⟩ ∧
      lookup (afterSegattach.spaces 1) 4097 = some ⟨4, true⟩ := by
  refine ⟨outcome_reach _ _ (by decide), ?_, by decide, ?_, ?_,
    by decide, by decide⟩
  · rfl
  · intro apart
    have clash := List.rel_of_pairwise_cons apart List.mem_cons_self rfl
    rcases clash with low | low <;> exact absurd low (by decide)
  · rfl

/-- The first of the two processes maps twice and attaches a segment; the ranges are apart. -/
theorem ranges_apart_sharing :
    let kernel := outcome (step ⟨64, 4096, 0, 0⟩) (ahead ⟨64, 4096, 0, 0⟩) boot
      [.create 1 [2], .rforkShared 0, .map 0 pageSize,
        .segattach 0 ['r', 'i', 'n', 'g'] 100 (some 4) none, .map 0 pageSize]
    kernel.handed.length = 3 ∧ kernel.handed.Pairwise Apart := by
  have run : Reach (step ⟨64, 4096, 0, 0⟩) (ahead ⟨64, 4096, 0, 0⟩) boot _ :=
    outcome_reach [.create 1 [2], .rforkShared 0, .map 0 pageSize,
      .segattach 0 ['r', 'i', 'n', 'g'] 100 (some 4) none, .map 0 pageSize] boot (by decide)
  exact ⟨by decide, (ranges_apart run).1⟩

end Racccoon.AddressSpace
