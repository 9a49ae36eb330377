import Racccoon.Paging

/-!
The check every system call makes of a user's pointer, `user_range_valid` of `page.c3`,
beside `try_lazy_fault` of `entry.c3`, which decides the same question for a page fault.
Both map a page of the heap that was reserved and never touched.
-/

namespace Racccoon.UserRanges

open PageAllocator Paging

def addressEnd : Nat := 2 ^ 64

structure Heap where
  mapFloor : Nat
  heapTop : Nat

/-- `map_floor` and `heap_top` of a process only move by whole pages. -/
structure PagedHeap extends Heap where
  floorAligned : pageSize ∣ mapFloor
  topAligned : pageSize ∣ heapTop
  bounded : heapTop < addressEnd

/-- `USER_VA_HOLE_START` and `USER_VA_HOLE_END` of a board. -/
structure Hole where
  start : Nat
  stop : Nat
  startAligned : pageSize ∣ start
  stopAligned : pageSize ∣ stop

def Heap.reserves (heap : Heap) (addr : Nat) : Prop := heap.mapFloor ≤ addr ∧ addr < heap.heapTop

def Hole.hides (hole : Hole) (addr : Nat) : Prop := hole.start ≤ addr ∧ addr < hole.stop

instance (heap : Heap) (addr : Nat) : Decidable (heap.reserves addr) :=
  inferInstanceAs (Decidable (_ ∧ _))

instance (hole : Hole) (addr : Nat) : Decidable (hole.hides addr) :=
  inferInstanceAs (Decidable (_ ∧ _))

def pageOf (addr : Nat) : Nat := addr / pageSize * pageSize

/-- `pte_leaf`, and where it is there `pte_present`. -/
def pteLeaf (table : PageTable) (vaddr : Nat) : Option Leaf := found table (vpnOf vaddr)

def readBit : Nat := 0
def writeBit : Nat := 1
def execBit : Nat := 2

/-- The kernel's test of a leaf. -/
def Leaf.permits (leaf : Leaf) (bit : Nat) : Bool := leaf.user && leaf.permissions.getLsbD bit

/-- Sv39 reserves leaves that are writable and not readable: every access to them faults. -/
def Leaf.reserved (leaf : Leaf) : Bool :=
  leaf.permissions.getLsbD writeBit && !leaf.permissions.getLsbD readBit

/-- An access by the hardware. -/
def Leaf.accessible (leaf : Leaf) (bit : Nat) : Bool :=
  Leaf.permits leaf bit && !Leaf.reserved leaf

def lazyLeaf (paddr : Nat) : Leaf := ⟨paddr, 0b011, true, false⟩

section Mapping
variable (pool : Pool)
variable (build : Build)

def tryAddMiddle (index : Nat) : Bool × Build :=
  if index ∈ build.table.tables.middles then (true, build)
  else
    let page := tryAllocPages pool build.alloc 1
    if page.1 = 0 then (false, { build with alloc := page.2 })
    else
      (true, ⟨page.2, { build.table with
        tables.middles := insert index build.table.tables.middles }⟩)

def tryAddLeafTable (index : Nat) : Bool × Build :=
  if index ∈ build.table.tables.leafTables then (true, build)
  else
    let page := tryAllocPages pool build.alloc 1
    if page.1 = 0 then (false, { build with alloc := page.2 })
    else
      (true, ⟨page.2, { build.table with
        tables.leafTables := insert index build.table.tables.leafTables }⟩)

def tryMapPage (vpn : Nat) (leaf : Leaf) : Bool × Build :=
  match tryAddMiddle pool build (middleOf vpn) with
  | (false, failed) => (false, failed)
  | (true, build) =>
    match tryAddLeafTable pool build (leafTableOf vpn) with
    | (false, failed) => (false, failed)
    | (true, build) => (true, build.setLeaf vpn leaf)

/-- What both callers do with a page to be faulted in. -/
def demandMap (page : Nat) : Bool × Build :=
  let phys := tryAllocPages pool build.alloc 1
  if phys.1 = 0 then (false, { build with alloc := phys.2 })
  else
    match tryMapPage pool { build with alloc := phys.2 } (vpnOf page) (lazyLeaf phys.1) with
    | (false, failed) => (false, { failed with alloc := freePages pool failed.alloc phys.1 1 })
    | (true, mapped) => (true, mapped)

/-- The first loop of `user_range_valid`, over so many pages. -/
def faultPages (heap : Heap) : Nat → Nat → Build → Bool × Build
  | 0, _, build => (true, build)
  | count + 1, page, build =>
    if heap.reserves page ∧ pteLeaf build.table page = none then
      match demandMap pool build page with
      | (false, failed) => (false, failed)
      | (true, mapped) => faultPages heap count (page + pageSize) mapped
    else faultPages heap count (page + pageSize) build

end Mapping

def accessBit (wantWrite : Bool) : Nat := if wantWrite then writeBit else readBit

def pageAllowed (table : PageTable) (wantWrite : Bool) (page : Nat) : Bool :=
  match pteLeaf table page with
  | none => false
  | some leaf => Leaf.permits leaf (accessBit wantWrite)

/-- The second loop of `user_range_valid`. -/
def checkPages (table : PageTable) (wantWrite : Bool) : Nat → Nat → Bool
  | 0, _ => true
  | count + 1, page =>
    pageAllowed table wantWrite page && checkPages table wantWrite count (page + pageSize)

def pageCount (vaddr len : Nat) : Nat :=
  (pageOf (vaddr + len - 1) - pageOf vaddr) / pageSize + 1

inductive Cause where
  | instPageFault | loadPageFault | storePageFault | other
  deriving DecidableEq

def Cause.need : Cause → Nat
  | .storePageFault => writeBit
  | .instPageFault => execBit
  | _ => readBit

section Checks
variable (pool : Pool) (heap : Heap)

/-- `own` if the table is the current process's. -/
def userRangeValid (own : Bool) (build : Build) (vaddr len : Nat) (wantWrite : Bool) :
    Bool × Build :=
  if len = 0 then (true, build)
  else if (vaddr + len) % addressEnd < vaddr then (false, build)
  else
    let faulted :=
      if own then faultPages pool heap (pageCount vaddr len) (pageOf vaddr) build
      else (true, build)
    if faulted.1 then
      (checkPages faulted.2.table wantWrite (pageCount vaddr len) (pageOf vaddr), faulted.2)
    else faulted

def tryLazyFault (hole : Hole) (cause : Cause) (fromUser : Bool) (build : Build) (addr : Nat) :
    Bool × Build :=
  if cause = .other then (false, build)
  else if !fromUser then (false, build)
  else if ¬ heap.reserves addr then (false, build)
  else if hole.start < hole.stop ∧ hole.hides addr then (false, build)
  else
    match pteLeaf build.table (pageOf addr) with
    | some leaf => (Leaf.permits leaf cause.need, build)
    | none => demandMap pool build (pageOf addr)

end Checks

theorem pageOf_lt_iff {bound : Nat} (aligned : pageSize ∣ bound) (addr : Nat) :
    pageOf addr < bound ↔ addr < bound := by
  obtain ⟨pages, rfl⟩ := aligned
  unfold pageOf pageSize
  omega

theorem reserves_pageOf (heap : PagedHeap) (addr : Nat) :
    heap.reserves (pageOf addr) ↔ heap.reserves addr := by
  have top := pageOf_lt_iff heap.topAligned addr
  have floor := pageOf_lt_iff heap.floorAligned addr
  unfold Heap.reserves
  omega

theorem vpnOf_pageOf (addr : Nat) : vpnOf (pageOf addr) = vpnOf addr := by
  unfold vpnOf pageOf
  rw [Nat.mul_div_cancel _ (by decide : 0 < pageSize)]

theorem pteLeaf_pageOf (table : PageTable) (addr : Nat) :
    pteLeaf table (pageOf addr) = pteLeaf table addr := by
  unfold pteLeaf
  rw [vpnOf_pageOf]

theorem pageOf_visited {vaddr len addr : Nat} (low : vaddr ≤ addr) (high : addr < vaddr + len) :
    ∃ index, index < pageCount vaddr len ∧ pageOf addr = pageOf vaddr + index * pageSize := by
  refine ⟨addr / pageSize - vaddr / pageSize, ?_, ?_⟩
  · unfold pageCount pageOf pageSize
    omega
  · unfold pageOf pageSize
    omega

theorem checkPages_iff (table : PageTable) (wantWrite : Bool) (count page : Nat) :
    checkPages table wantWrite count page = true ↔
      ∀ index, index < count → pageAllowed table wantWrite (page + index * pageSize) = true := by
  induction count generalizing page with
  | zero => simp [checkPages]
  | succ count ih =>
    rw [checkPages, Bool.and_eq_true, ih]
    constructor
    · rintro ⟨first, rest⟩ index below
      cases index with
      | zero => simpa using first
      | succ index =>
        have later := rest index (by omega)
        rwa [show page + (index + 1) * pageSize = page + pageSize + index * pageSize by
          rw [Nat.add_mul]; omega]
    · intro all
      refine ⟨by simpa using all 0 (by omega), ?_⟩
      intro index below
      have later := all (index + 1) (by omega)
      rwa [show page + (index + 1) * pageSize = page + pageSize + index * pageSize by
        rw [Nat.add_mul]; omega] at later

section Demand
variable {pool : Pool} {build after : Build}

theorem tryAddMiddle_found {index : Nat} (added : tryAddMiddle pool build index = (true, after)) :
    index ∈ after.table.tables.middles := by
  unfold tryAddMiddle at added
  split at added
  · next present =>
      cases added
      exact present
  · dsimp only at added
    split at added
    · cases added
    · cases added
      exact Finset.mem_insert_self ..

theorem tryAddLeafTable_found {index : Nat}
    (added : tryAddLeafTable pool build index = (true, after)) :
    index ∈ after.table.tables.leafTables ∧
      after.table.tables.middles = build.table.tables.middles := by
  unfold tryAddLeafTable at added
  split at added
  · next present =>
      cases added
      exact ⟨present, rfl⟩
  · dsimp only at added
    split at added
    · cases added
    · cases added
      exact ⟨Finset.mem_insert_self .., rfl⟩

theorem tryMapPage_maps {vpn : Nat} {leaf : Leaf}
    (mapped : tryMapPage pool build vpn leaf = (true, after)) :
    found after.table vpn = some leaf := by
  unfold tryMapPage at mapped
  split at mapped
  · cases mapped
  · next middle added =>
      split at mapped
      · cases mapped
      · next lower placed =>
          cases mapped
          have upper := tryAddMiddle_found added
          obtain ⟨leafTable, same⟩ := tryAddLeafTable_found placed
          rw [← same] at upper
          simp [found, Build.setLeaf, upper, leafTable]

theorem demandMap_maps {page : Nat} (mapped : demandMap pool build page = (true, after)) :
    ∃ paddr, pteLeaf after.table page = some (lazyLeaf paddr) := by
  unfold demandMap at mapped
  dsimp only at mapped
  split at mapped
  · cases mapped
  · split at mapped
    · cases mapped
    · next done =>
        cases mapped
        exact ⟨_, tryMapPage_maps done⟩

/-- The page at `paddr`, if it is one of the pool, is in use. -/
def InUse (pool : Pool) (alloc : Allocator) (paddr : Nat) : Prop :=
  ∀ index, paddr = pool.freeRam + index * pageSize → bitIsSet alloc index = true

/-- The pages an address space owns are in use. -/
def Held (pool : Pool) (build : Build) : Prop :=
  ∀ vpn leaf, build.table.leaves vpn = some leaf → pteOwnedUserLeaf leaf = true →
    InUse pool build.alloc leaf.paddr

/-- What faulting pages in may change: untouched pages of the heap are mapped. -/
structure Grown (pool : Pool) (heap : Heap) (before after : Build) : Prop where
  leaves : ∀ vpn, after.table.leaves vpn = before.table.leaves vpn ∨
    found before.table vpn = none ∧ (∃ page, heap.reserves page ∧ vpnOf page = vpn) ∧
      ∃ paddr, after.table.leaves vpn = some (lazyLeaf paddr) ∧ InUse pool after.alloc paddr
  middles : before.table.tables.middles ⊆ after.table.tables.middles
  leafTables : before.table.tables.leafTables ⊆ after.table.tables.leafTables
  used : ∀ index, bitIsSet before.alloc index = true → bitIsSet after.alloc index = true

theorem Grown.refl (pool : Pool) (heap : Heap) (build : Build) : Grown pool heap build build :=
  ⟨fun _ => .inl rfl, fun _ member => member, fun _ member => member, fun _ set => set⟩

theorem Grown.held {heap : Heap} (grown : Grown pool heap build after) (held : Held pool build) :
    Held pool after := by
  intro vpn leaf there owned
  rcases grown.leaves vpn with same | ⟨-, -, paddr, new, used⟩
  · intro index address
    exact grown.used index (held vpn leaf (same ▸ there) owned index address)
  · rw [new] at there
    cases there
    exact used

theorem Grown.found_mono {heap : Heap} (grown : Grown pool heap build after) {vpn : Nat}
    (absent : found after.table vpn = none) : found build.table vpn = none := by
  by_contra present
  obtain ⟨leaf, there⟩ := Option.ne_none_iff_exists'.mp present
  have tables : middleOf vpn ∈ build.table.tables.middles ∧
      leafTableOf vpn ∈ build.table.tables.leafTables := by
    by_contra missing
    simp [found, missing] at there
  rw [found, if_pos ⟨grown.middles tables.1, grown.leafTables tables.2⟩] at absent
  rcases grown.leaves vpn with same | ⟨-, -, paddr, new, -⟩
  · rw [found, if_pos tables, ← same, absent] at there
    cases there
  · rw [new] at absent
    cases absent

theorem Grown.trans {heap : Heap} {middle : Build} (first : Grown pool heap build middle)
    (second : Grown pool heap middle after) : Grown pool heap build after where
  leaves vpn := by
    rcases second.leaves vpn with same | ⟨absent, reserved, new⟩
    · rw [same]
      rcases first.leaves vpn with kept | ⟨absent, reserved, paddr, new, used⟩
      · exact .inl kept
      · exact .inr ⟨absent, reserved, paddr, new, fun index here => second.used index (used index here)⟩
    · exact .inr ⟨first.found_mono absent, reserved, new⟩
  middles _ member := second.middles (first.middles member)
  leafTables _ member := second.leafTables (first.leafTables member)
  used index set := second.used index (first.used index set)

theorem tryAllocPages_used (pool : Pool) (alloc : Allocator) (n index : Nat)
    (set : bitIsSet alloc index = true) : bitIsSet (tryAllocPages pool alloc n).2 index = true := by
  rcases tryAllocPages_claims pool alloc n with ⟨-, same⟩ | claimed
  · rw [same, set]
  · obtain ⟨first, -, -, -, -, after⟩ := claimed.run
    rw [after, set, Bool.or_true]

/-- What adding tables may change. -/
structure Tabled (before after : Build) : Prop where
  leaves : after.table.leaves = before.table.leaves
  middles : before.table.tables.middles ⊆ after.table.tables.middles
  leafTables : before.table.tables.leafTables ⊆ after.table.tables.leafTables
  used : ∀ index, bitIsSet before.alloc index = true → bitIsSet after.alloc index = true

theorem Tabled.refl (build : Build) : Tabled build build :=
  ⟨rfl, fun _ member => member, fun _ member => member, fun _ set => set⟩

theorem Tabled.trans {middle : Build} (first : Tabled build middle) (second : Tabled middle after) :
    Tabled build after where
  leaves := second.leaves.trans first.leaves
  middles _ member := second.middles (first.middles member)
  leafTables _ member := second.leafTables (first.leafTables member)
  used index set := second.used index (first.used index set)

theorem Tabled.grown (tabled : Tabled build after) (heap : Heap) : Grown pool heap build after :=
  ⟨fun vpn => .inl (congrFun tabled.leaves vpn), tabled.middles, tabled.leafTables, tabled.used⟩

theorem tryAddMiddle_tabled (pool : Pool) (build : Build) (index : Nat) :
    Tabled build (tryAddMiddle pool build index).2 := by
  unfold tryAddMiddle
  split
  · exact Tabled.refl build
  · dsimp only
    split
    all_goals
      refine ⟨rfl, ?_, fun _ member => member, tryAllocPages_used pool _ 1⟩
      intro other member
      simp [member]

theorem tryAddLeafTable_tabled (pool : Pool) (build : Build) (index : Nat) :
    Tabled build (tryAddLeafTable pool build index).2 := by
  unfold tryAddLeafTable
  split
  · exact Tabled.refl build
  · dsimp only
    split
    all_goals
      refine ⟨rfl, fun _ member => member, ?_, tryAllocPages_used pool _ 1⟩
      intro other member
      simp [member]

/-- A page that cannot be mapped leaves tables at most. -/
theorem tryMapPage_tabled (pool : Pool) (build : Build) (vpn : Nat) (leaf : Leaf) :
    ∃ tabled, Tabled build tabled ∧
      (tryMapPage pool build vpn leaf = (false, tabled) ∨
        tryMapPage pool build vpn leaf = (true, tabled.setLeaf vpn leaf)) := by
  have upper := tryAddMiddle_tabled pool build (middleOf vpn)
  unfold tryMapPage
  cases added : tryAddMiddle pool build (middleOf vpn) with
  | mk first middle =>
    rw [added] at upper
    cases first with
    | false => exact ⟨middle, upper, .inl rfl⟩
    | true =>
      have lower := tryAddLeafTable_tabled pool middle (leafTableOf vpn)
      cases placed : tryAddLeafTable pool middle (leafTableOf vpn) with
      | mk second tabled =>
        rw [placed] at lower
        cases second with
        | false => exact ⟨tabled, upper.trans lower, .inl (by simp [placed])⟩
        | true => exact ⟨tabled, upper.trans lower, .inr (by simp [placed])⟩

theorem demandMap_grown {heap : Heap} {page : Nat} (reserved : heap.reserves page)
    (absent : pteLeaf build.table page = none) :
    Grown pool heap build (demandMap pool build page).2 := by
  have claimed := tryAllocPages_claims pool build.alloc 1
  have taken : Tabled build { build with alloc := (tryAllocPages pool build.alloc 1).2 } :=
    ⟨rfl, fun _ member => member, fun _ member => member, tryAllocPages_used pool _ 1⟩
  unfold demandMap
  dsimp only
  split
  · exact taken.grown heap
  · next there =>
      have run := (claimed.resolve_left fun missed => there missed.1).run
      generalize tryAllocPages pool build.alloc 1 = phys at *
      obtain ⟨tabled, more, failed | mapped⟩ :=
        tryMapPage_tabled pool { build with alloc := phys.2 } (vpnOf page) (lazyLeaf phys.1)
      · have all := taken.trans more
        rw [failed]
        have given : Tabled build { tabled with alloc := freePages pool tabled.alloc phys.1 1 } := by
          refine ⟨all.leaves, all.middles, all.leafTables, ?_⟩
          intro index set
          obtain ⟨first, -, fits, address, clear, -⟩ := run
          have other : ¬ (first ≤ index ∧ index < first + 1) := by
            intro same
            have free := clear index same.1 same.2
            simp [set] at free
          have kept := all.used index set
          simp only [freePages]
          split
          · exact kept
          · simp only [bitIsSet] at kept ⊢
            rw [Bitmap.test_removeRange bits_positive, address, pageIndex_at, kept]
            simp only [other, decide_false, Bool.not_false, Bool.and_true]
        exact given.grown heap
      · have all := taken.trans more
        rw [mapped]
        refine ⟨?_, all.middles, all.leafTables, all.used⟩
        intro vpn
        by_cases same : vpn = vpnOf page
        · subst same
          refine .inr ⟨absent, ⟨page, reserved, rfl⟩, phys.1, by simp [Build.setLeaf], ?_⟩
          obtain ⟨first, -, -, address, -, set⟩ := run
          intro index here
          have spot : index = first := by
            unfold pageSize at here address
            omega
          exact more.used index (by simp [set, spot])
        · exact .inl ((Function.update_of_ne same _ _).trans (congrFun all.leaves vpn))

theorem faultPages_grown (heap : Heap) (count page : Nat) (build : Build) :
    Grown pool heap build (faultPages pool heap count page build).2 := by
  induction count generalizing page build with
  | zero => exact Grown.refl pool heap build
  | succ count ih =>
    rw [faultPages]
    split
    · next needed =>
        have mapped := @demandMap_grown pool build heap page needed.1 needed.2
        cases demanded : demandMap pool build page with
        | mk done next =>
          rw [demanded] at mapped
          cases done with
          | false => exact mapped
          | true => exact mapped.trans (ih (page + pageSize) next)
    · exact ih (page + pageSize) build

theorem userRangeValid_grown (pool : Pool) (heap : Heap) (own : Bool) (build : Build)
    (vaddr len : Nat) (wantWrite : Bool) :
    Grown pool heap build (userRangeValid pool heap own build vaddr len wantWrite).2 := by
  unfold userRangeValid
  split
  · exact Grown.refl pool heap build
  · split
    · exact Grown.refl pool heap build
    · have grown : Grown pool heap build (if own then
          faultPages pool heap (pageCount vaddr len) (pageOf vaddr) build else (true, build)).2 := by
        split
        · exact faultPages_grown heap _ _ build
        · exact Grown.refl pool heap build
      dsimp only
      generalize (if own then faultPages pool heap (pageCount vaddr len) (pageOf vaddr) build
        else (true, build)) = faulted at grown ⊢
      split
      all_goals exact grown

theorem lazyLeaf_permits (paddr : Nat) (wantWrite : Bool) :
    Leaf.permits (lazyLeaf paddr) (accessBit wantWrite) = true := by
  simp only [Leaf.permits, lazyLeaf]
  cases wantWrite <;> decide

end Demand

def Canonical (addr : Nat) : Prop := addr < 2 ^ 38 ∨ addressEnd - 2 ^ 38 ≤ addr

def InRange (vaddr len addr : Nat) : Prop :=
  vaddr ≤ addr ∧ addr < vaddr + len ∧ addr < addressEnd

/-- What the kernel relies on when it has checked a range: the hardware lets it touch every
byte, and a page of the range that is not there yet is mapped in the same cases as by a page
fault. -/
structure Reliable (pool : Pool) (hole : Hole) (heap : PagedHeap) (own : Bool) (build : Build)
    (vaddr len : Nat) (wantWrite : Bool) : Prop where
  sound : ∀ after, userRangeValid pool heap.toHeap own build vaddr len wantWrite = (true, after) →
    ∀ addr, InRange vaddr len addr → Canonical addr ∧
      ∃ leaf, pteLeaf after.table addr = some leaf ∧
        Leaf.accessible leaf (accessBit wantWrite) = true
  agrees : ∀ addr cause, InRange vaddr len addr → cause ≠ .other →
    pteLeaf build.table addr = none →
    userRangeValid pool heap.toHeap true build addr 1 wantWrite =
      tryLazyFault pool heap.toHeap hole cause true build addr

/-- The pages of a range that the first loop faults in. -/
def faultedRange (pool : Pool) (heap : Heap) (own : Bool) (build : Build) (vaddr len : Nat) :
    Bool × Build :=
  if own then faultPages pool heap (pageCount vaddr len) (pageOf vaddr) build else (true, build)

/-- The range does not wrap, there is memory for its untouched heap pages, and then every
page of it is a user's with the permission. -/
structure Passes (pool : Pool) (heap : Heap) (own : Bool) (build : Build) (vaddr len : Nat)
    (wantWrite : Bool) : Prop where
  fits : vaddr + len < addressEnd
  memory : (faultedRange pool heap own build vaddr len).1 = true
  pages : ∀ addr, InRange vaddr len addr →
    pageAllowed (faultedRange pool heap own build vaddr len).2.table wantWrite addr = true

/-- A range that passes has Sv39 addresses, and no page writable alone; a page of it in the
board's hole is not there to be faulted in. -/
structure Plain (pool : Pool) (hole : Hole) (heap : PagedHeap) (own : Bool) (build : Build)
    (vaddr len : Nat) (wantWrite : Bool) : Prop where
  direct : Passes pool heap.toHeap own build vaddr len wantWrite →
    ∀ addr, InRange vaddr len addr → Canonical addr ∧
      ∀ leaf, pteLeaf (faultedRange pool heap.toHeap own build vaddr len).2.table addr = some leaf →
        Leaf.reserved leaf = false
  solid : ∀ addr, InRange vaddr len addr → pteLeaf build.table addr = none →
    heap.reserves addr → hole.hides addr →
    demandMap pool build (pageOf addr) = (false, build)

section Ranges
variable {pool : Pool} {hole : Hole} {heap : PagedHeap} {own wantWrite : Bool} {build after : Build}
variable {vaddr len addr : Nat}

theorem no_wrap (start : vaddr < addressEnd) (size : len < addressEnd) :
    ¬ (vaddr + len) % addressEnd < vaddr ↔ vaddr + len < addressEnd := by
  unfold addressEnd at *
  omega

variable (table : PageTable)

theorem pageAllowed_iff : pageAllowed table wantWrite addr = true ↔
      ∃ leaf, pteLeaf table addr = some leaf ∧ Leaf.permits leaf (accessBit wantWrite) = true := by
  unfold pageAllowed
  cases pteLeaf table addr with
  | none => simp
  | some leaf => simp

theorem pageAllowed_pageOf :
    pageAllowed table wantWrite (pageOf addr) = pageAllowed table wantWrite addr := by
  simp only [pageAllowed, pteLeaf_pageOf]

theorem checkPages_range (some_byte : len ≠ 0) (fits : vaddr + len < addressEnd) :
    checkPages table wantWrite (pageCount vaddr len) (pageOf vaddr) = true ↔
      ∀ addr, InRange vaddr len addr → pageAllowed table wantWrite addr = true := by
  rw [checkPages_iff]
  constructor
  · rintro pages addr ⟨low, high, -⟩
    obtain ⟨index, below, here⟩ := pageOf_visited low high
    rw [← pageAllowed_pageOf, here]
    exact pages index below
  · intro bytes index below
    -- The first byte of the range in this page.
    have inside : InRange vaddr len (max vaddr (pageOf vaddr + index * pageSize)) := by
      unfold pageCount pageOf pageSize at *
      unfold InRange
      omega
    have allowed := bytes _ inside
    rw [← pageAllowed_pageOf] at allowed
    have page : pageOf (max vaddr (pageOf vaddr + index * pageSize)) =
        pageOf vaddr + index * pageSize := by
      unfold pageOf pageSize
      omega
    rwa [page] at allowed

/-- A range with a byte in it is found valid when it passes. -/
theorem userRangeValid_iff (start : vaddr < addressEnd) (size : len < addressEnd)
    (some_byte : len ≠ 0) :
    userRangeValid pool heap.toHeap own build vaddr len wantWrite = (true, after) ↔
      Passes pool heap.toHeap own build vaddr len wantWrite ∧
        after = (faultedRange pool heap.toHeap own build vaddr len).2 := by
  rw [userRangeValid, if_neg some_byte]
  change (if _ then _ else if (faultedRange pool heap.toHeap own build vaddr len).1 = true then
    (_, (faultedRange pool heap.toHeap own build vaddr len).2)
    else faultedRange pool heap.toHeap own build vaddr len) = _ ↔ _
  by_cases wraps : (vaddr + len) % addressEnd < vaddr
  · rw [if_pos wraps]
    refine iff_of_false (by rintro ⟨⟩) fun passes => ?_
    exact (no_wrap start size).mpr passes.1.fits wraps
  · have fits := (no_wrap start size).mp wraps
    rw [if_neg wraps]
    by_cases done : (faultedRange pool heap.toHeap own build vaddr len).1 = true
    · rw [if_pos done, Prod.mk.injEq, checkPages_range _ some_byte fits]
      constructor
      · rintro ⟨pages, rfl⟩
        exact ⟨⟨fits, done, pages⟩, rfl⟩
      · rintro ⟨passes, rfl⟩
        exact ⟨passes.pages, rfl⟩
    · rw [if_neg done]
      refine iff_of_false (fun valid => done (congrArg Prod.fst valid)) fun passes => ?_
      exact done passes.1.memory

theorem userRangeValid_byte (start : addr < addressEnd) (absent : pteLeaf build.table addr = none) :
    userRangeValid pool heap.toHeap true build addr 1 wantWrite =
      if heap.reserves addr then demandMap pool build (pageOf addr) else (false, build) := by
  have single : pageCount addr 1 = 1 := by
    unfold pageCount pageOf pageSize
    omega
  have empty : pteLeaf build.table (pageOf addr) = none := by rw [pteLeaf_pageOf, absent]
  rw [userRangeValid, if_neg Nat.one_ne_zero]
  by_cases reserved : heap.reserves addr
  · have top := reserved.2
    have bounded := heap.bounded
    rw [if_neg ((no_wrap start (by decide)).mpr (by omega)), if_pos reserved]
    simp only [single, faultPages, (reserves_pageOf heap addr).mpr reserved, empty]
    cases demanded : demandMap pool build (pageOf addr) with
    | mk done mapped =>
      cases done with
      | false => rfl
      | true =>
        obtain ⟨paddr, there⟩ := demandMap_maps demanded
        simp [checkPages, pageAllowed, there, lazyLeaf_permits]
  · split
    · rfl
    · have apart : ¬ heap.reserves (pageOf addr) := by rwa [reserves_pageOf]
      simp [single, faultPages, apart, checkPages, pageAllowed, empty]

theorem tryLazyFault_absent {cause : Cause} (fault : cause ≠ .other)
    (absent : pteLeaf build.table addr = none) :
    tryLazyFault pool heap.toHeap hole cause true build addr =
      if heap.reserves addr ∧ ¬ hole.hides addr then demandMap pool build (pageOf addr)
      else (false, build) := by
  have empty : pteLeaf build.table (pageOf addr) = none := by rw [pteLeaf_pageOf, absent]
  unfold tryLazyFault
  by_cases reserved : heap.reserves addr
  · by_cases hidden : hole.hides addr
    · have order : hole.start < hole.stop := Nat.lt_of_le_of_lt hidden.1 hidden.2
      simp [hidden, order]
    · simp [fault, hidden, empty]
  · simp [reserved]

theorem sound_iff (start : vaddr < addressEnd) (size : len < addressEnd) :
    (∀ after, userRangeValid pool heap.toHeap own build vaddr len wantWrite = (true, after) →
      ∀ addr, InRange vaddr len addr → Canonical addr ∧
        ∃ leaf, pteLeaf after.table addr = some leaf ∧
          Leaf.accessible leaf (accessBit wantWrite) = true) ↔
    (Passes pool heap.toHeap own build vaddr len wantWrite →
      ∀ addr, InRange vaddr len addr → Canonical addr ∧
        ∀ leaf, pteLeaf (faultedRange pool heap.toHeap own build vaddr len).2.table addr =
          some leaf → Leaf.reserved leaf = false) := by
  by_cases some_byte : len = 0
  · have none : ∀ addr, ¬ InRange vaddr len addr := by
      intro addr inside
      unfold InRange at inside
      omega
    exact iff_of_true (fun _ _ addr inside => absurd inside (none addr))
      fun _ addr inside => absurd inside (none addr)
  · simp only [userRangeValid_iff start size some_byte]
    constructor
    · intro sound passes addr inside
      obtain ⟨canonical, leaf, there, touched⟩ := sound _ ⟨passes, rfl⟩ addr inside
      refine ⟨canonical, fun other same => ?_⟩
      obtain rfl := Option.some.inj (same.symm.trans there)
      simpa using (Bool.and_eq_true_iff.mp touched).2
    · rintro direct after ⟨passes, rfl⟩ addr inside
      obtain ⟨canonical, open_⟩ := direct passes addr inside
      obtain ⟨leaf, there, permitted⟩ := (pageAllowed_iff _).mp (passes.pages addr inside)
      exact ⟨canonical, leaf, there, by simp [Leaf.accessible, permitted, open_ leaf there]⟩

theorem agrees_iff {cause : Cause} (start : addr < addressEnd) (fault : cause ≠ .other)
    (absent : pteLeaf build.table addr = none) :
    userRangeValid pool heap.toHeap true build addr 1 wantWrite =
        tryLazyFault pool heap.toHeap hole cause true build addr ↔
      (heap.reserves addr → hole.hides addr →
        demandMap pool build (pageOf addr) = (false, build)) := by
  rw [userRangeValid_byte start absent, tryLazyFault_absent fault absent]
  by_cases reserved : heap.reserves addr
  · by_cases hidden : hole.hides addr
    · simp [reserved, hidden]
    · simp [reserved, hidden]
  · simp [reserved]

def allTables : Tables := ⟨Finset.range entries, Finset.range (entries ^ 2)⟩

theorem allTables_found (leaves : Nat → Option Leaf) (addr : Nat) :
    pteLeaf ⟨allTables, leaves⟩ addr = leaves (vpnOf addr) := by
  have bound : vpnOf addr < entries ^ 3 := Nat.mod_lt _ (by decide)
  have middle : middleOf (vpnOf addr) < entries := by
    unfold middleOf
    unfold entries at *
    omega
  have leafTable : leafTableOf (vpnOf addr) < entries ^ 2 := by
    unfold leafTableOf
    unfold entries at *
    omega
  simp [pteLeaf, found, allTables, middle, leafTable]

def openTable : PageTable := ⟨allTables, fun _ => some (lazyLeaf 0)⟩

theorem openTable_found (addr : Nat) : pteLeaf openTable addr = some (lazyLeaf 0) :=
  allTables_found _ addr

theorem faultPages_open (heap : Heap) (count page : Nat) (alloc : Allocator) :
    faultPages pool heap count page ⟨alloc, openTable⟩ = (true, ⟨alloc, openTable⟩) := by
  induction count generalizing page with
  | zero => rfl
  | succ count ih =>
    rw [faultPages, if_neg (by simp [openTable_found])]
    exact ih (page + pageSize)

theorem openTable_valid (heap : Heap) (own : Bool) (start : vaddr < addressEnd)
    (size : len < addressEnd) (fits : vaddr + len < addressEnd) (alloc : Allocator) :
    userRangeValid pool heap own ⟨alloc, openTable⟩ vaddr len wantWrite =
      (true, ⟨alloc, openTable⟩) := by
  have allowed : checkPages openTable wantWrite (pageCount vaddr len) (pageOf vaddr) = true := by
    rw [checkPages_iff]
    intro index _
    simp only [pageAllowed, openTable_found, lazyLeaf_permits]
  unfold userRangeValid
  split
  · rfl
  · rw [if_neg ((no_wrap start size).mpr fits)]
    cases own <;> simp [allowed, faultPages_open]

end Ranges

/-- `user_range_valid` can be relied on for a range in exactly the states where it is refused
or is of Sv39 addresses whose pages can be read, and where none of its untouched heap pages
lies in the hole. -/
theorem user_range_reliable_iff (pool : Pool) (hole : Hole) (heap : PagedHeap) (own : Bool)
    (build : Build) (vaddr len : BitVec 64) (wantWrite : Bool) :
    Reliable pool hole heap own build vaddr.toNat len.toNat wantWrite ↔
      Plain pool hole heap own build vaddr.toNat len.toNat wantWrite := by
  have start : vaddr.toNat < addressEnd := vaddr.isLt
  have size : len.toNat < addressEnd := len.isLt
  constructor
  · intro reliable
    refine ⟨(sound_iff start size).mp reliable.sound, fun addr inside absent => ?_⟩
    have agrees := reliable.agrees addr .loadPageFault inside (by decide) absent
    exact (agrees_iff inside.2.2 (by decide) absent).mp agrees
  · intro plain
    refine ⟨(sound_iff start size).mpr plain.direct, fun addr cause inside fault absent => ?_⟩
    exact (agrees_iff inside.2.2 fault absent).mpr (plain.solid addr inside absent)

def noHole : Hole := ⟨0, 0, by decide, by decide⟩

def smallHeap : PagedHeap := ⟨⟨0x1010000, 0x1020000⟩, by decide, by decide, by decide⟩

/-- The pointer is `USER_BASE` with bit 39 set. -/
theorem aliased_pointer_accepted :
    ¬ ∀ (pool : Pool) (hole : Hole) (heap : PagedHeap) (own : Bool) (build : Build)
      (vaddr len : BitVec 64) (wantWrite : Bool),
      Reliable pool hole heap own build vaddr.toNat len.toNat wantWrite := by
  intro always
  have inside : InRange (0x8001000000 : BitVec 64).toNat (1 : BitVec 64).toNat 0x8001000000 := by
    unfold InRange
    decide
  have outside := ((always smallPool noHole smallHeap false ⟨initial, openTable⟩ 0x8001000000 1
    false).sound _ (openTable_valid smallHeap.toHeap false (by decide) (by decide) (by decide)
      initial) _ inside).1
  revert outside
  unfold Canonical
  decide

/-- Every page is writable alone, as a segment of an image may have it. -/
def writeOnly : PageTable := ⟨allTables, fun _ => some ⟨0, 0b010, true, false⟩⟩

theorem demandMap_empty (page : Nat) :
    (demandMap smallPool ⟨initial, emptyTable⟩ page).1 = true := by
  have first : (tryAllocPages smallPool initial 1).1 ≠ 0 := by decide
  have second : (tryAllocPages smallPool (tryAllocPages smallPool initial 1).2 1).1 ≠ 0 := by
    decide
  have third : (tryAllocPages smallPool
      (tryAllocPages smallPool (tryAllocPages smallPool initial 1).2 1).2 1).1 ≠ 0 := by
    decide
  simp [demandMap, tryMapPage, tryAddMiddle, tryAddLeafTable, emptyTable, first, second, third]

/-- A write to such a page is found valid, a read refused; and an untouched page of the heap
in the hole is faulted in. -/
theorem user_range_reliable_iff_writeOnly :
    ¬ Reliable smallPool noHole smallHeap false ⟨initial, writeOnly⟩
        (0x1000000 : BitVec 64).toNat (1 : BitVec 64).toNat true ∧
      Reliable smallPool noHole smallHeap false ⟨initial, writeOnly⟩
        (0x1000000 : BitVec 64).toNat (1 : BitVec 64).toNat false ∧
      ¬ Reliable smallPool ⟨0x1010000, 0x1011000, by decide, by decide⟩ smallHeap true
        ⟨initial, emptyTable⟩ (0x1010000 : BitVec 64).toNat (1 : BitVec 64).toNat false := by
  have byte : ∀ base, base < addressEnd → InRange base 1 base := by
    intro base small
    exact ⟨Nat.le_refl _, Nat.lt_succ_self _, small⟩
  have leaf : ∀ addr, pteLeaf writeOnly addr = some ⟨0, 0b010, true, false⟩ := allTables_found _
  rw [user_range_reliable_iff, user_range_reliable_iff, user_range_reliable_iff]
  refine ⟨fun plain => ?_, ⟨fun passes => ?_, fun addr _ absent => ?_⟩, fun plain => ?_⟩
  · have passes : Passes smallPool smallHeap.toHeap false ⟨initial, writeOnly⟩
        (0x1000000 : BitVec 64).toNat (1 : BitVec 64).toNat true :=
      ⟨by decide, rfl, fun addr _ => (pageAllowed_iff _).mpr ⟨_, leaf addr, by decide⟩⟩
    have readable := (plain.direct passes 0x1000000 (byte _ (by decide))).2 _ (leaf _)
    exact absurd readable (by decide)
  · obtain ⟨_, there, permitted⟩ :=
      (pageAllowed_iff _).mp (passes.pages 0x1000000 (byte _ (by decide)))
    obtain rfl := Option.some.inj ((leaf _).symm.trans there)
    exact absurd permitted (by decide)
  · rw [leaf addr] at absent
    cases absent
  · have absent : pteLeaf emptyTable 0x1010000 = none := by simp [pteLeaf, found, emptyTable]
    have left := plain.solid 0x1010000 (byte _ (by decide)) absent (by decide) (by decide)
    have mapped := demandMap_empty (pageOf 0x1010000)
    rw [left] at mapped
    cases mapped

end Racccoon.UserRanges
