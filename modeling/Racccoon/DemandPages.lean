import Mathlib.Data.List.Iterate
import Racccoon.UserRanges

/-!
What the faulting in of pages by `user_range_valid` costs the pool: a page that is mapped costs
itself and the tables it lacked, and one that cannot be mapped leaves what tables it got.
-/

namespace Racccoon.UserRanges

open PageAllocator Paging

/-- The first page of a range that has to be faulted in. -/
def firstUntouched (heap : Heap) (table : PageTable) (count page : Nat) : Option Nat :=
  (List.iterate (· + pageSize) page count).find? fun page =>
    decide (heap.reserves page ∧ pteLeaf table page = none)

/-- The page cannot be had, or it is the last and a table for it is missing too: it is given
back and nothing has been taken. -/
def Barren (free : Nat) (table : PageTable) (page : Nat) : Prop :=
  free ≤ min 1 (table.tables.growth [vpnOf page])

section Freeing
variable {pool : Pool} {alloc : Allocator} {index : Nat}

/-- A page of the pool that was in use is one more free page. -/
theorem freePages_one_count (inside : index < pool.ramPageCount)
    (set : bitIsSet alloc index = true) :
    freePageCount pool (freePages pool alloc (pool.freeRam + index * pageSize) 1) =
      freePageCount pool alloc + 1 := by
  have span := ramPageCount_span pool
  have low : ¬ (pool.freeRam + index * pageSize < pool.freeRam ∨
      pool.freeRam + index * pageSize ≥ pool.freeRamEnd) := by
    unfold pageSize at *
    omega
  have bits : ∀ page, bitIsSet (freePages pool alloc (pool.freeRam + index * pageSize) 1) page =
      (bitIsSet alloc page && !decide (page = index)) := by
    intro page
    rw [freePages, if_neg low]
    simp only [pageIndex_at, bitIsSet, Bitmap.test_removeRange bits_positive]
    have one : (index ≤ page ∧ page < index + 1) ↔ page = index := by omega
    simp only [one, Bool.and_comm]
  have member : index ∉ (Finset.range pool.ramPageCount).filter fun page =>
      bitIsSet alloc page = false := by
    simp [set]
  rw [freePageCount_card, freePageCount_card, ← Finset.card_insert_of_notMem member]
  congr 1
  ext page
  simp only [Finset.mem_filter, Finset.mem_range, Finset.mem_insert, bits]
  by_cases same : page = index
  · subst same
    simp [inside]
  · simp [same]

end Freeing

section Faulting
variable {pool : Pool} {build : Build}

/-- One page taken, if there is one. -/
theorem tryAllocPages_one_count (pool : Pool) (alloc : Allocator) :
    ((tryAllocPages pool alloc 1).1 = 0 → freePageCount pool alloc = 0) ∧
      ((tryAllocPages pool alloc 1).1 ≠ 0 →
        freePageCount pool (tryAllocPages pool alloc 1).2 + 1 = freePageCount pool alloc) := by
  have one := allocPages_one pool alloc
  unfold allocPages at one
  constructor
  · intro missed
    simp only [missed, if_true, true_implies] at one
    exact one.1
  · intro found
    simp only [if_neg found] at one
    exact one.2 _ rfl

/-- Adding a table: what it takes if it succeeds, and that otherwise the pool is empty. -/
def Tabling (pool : Pool) (build : Build) (need : Nat) (result : Bool × Build) : Prop :=
  if result.1 then result.2.left pool + need = build.left pool
  else result.2.left pool = 0 ∧ build.left pool < need

theorem tryAllocPages_tabling (table : PageTable) :
    let page := tryAllocPages pool build.alloc 1
    Tabling pool build 1
      (if page.1 = 0 then (false, { build with alloc := page.2 }) else (true, ⟨page.2, table⟩)) := by
  intro page
  have counted := tryAllocPages_one_count pool build.alloc
  have missing := tryAllocPages_count pool build.alloc 1
  unfold Tabling
  by_cases missed : page.1 = 0
  · have empty := counted.1 missed
    rw [if_pos missed, Nat.add_zero] at missing
    rw [if_pos missed, if_neg Bool.false_ne_true]
    simp only [Build.left]
    exact ⟨missing.trans empty, by omega⟩
  · rw [if_neg missed]
    exact counted.2 missed

theorem tryAddMiddle_tabling (index : Nat) :
    Tabling pool build
      ((insert index build.table.tables.middles).card - build.table.tables.middles.card)
      (tryAddMiddle pool build index) := by
  unfold tryAddMiddle
  by_cases present : index ∈ build.table.tables.middles
  · simp [present, Tabling]
  · rw [if_neg present, Finset.card_insert_of_notMem present, Nat.add_sub_cancel_left]
    exact tryAllocPages_tabling _

theorem tryAddLeafTable_tabling (index : Nat) :
    Tabling pool build
      ((insert index build.table.tables.leafTables).card - build.table.tables.leafTables.card)
      (tryAddLeafTable pool build index) := by
  unfold tryAddLeafTable
  by_cases present : index ∈ build.table.tables.leafTables
  · simp [present, Tabling]
  · rw [if_neg present, Finset.card_insert_of_notMem present, Nat.add_sub_cancel_left]
    exact tryAllocPages_tabling _

theorem tryAddMiddle_leafTables (index : Nat) :
    (tryAddMiddle pool build index).2.table.tables.leafTables =
      build.table.tables.leafTables := by
  unfold tryAddMiddle
  split
  · rfl
  · dsimp only
    split <;> rfl

theorem tryMapPage_tabling (vpn : Nat) (leaf : Leaf) :
    Tabling pool build (build.table.tables.growth [vpn]) (tryMapPage pool build vpn leaf) := by
  have middle := @tryAddMiddle_tabling pool build (middleOf vpn)
  have kept := @tryAddMiddle_leafTables pool build (middleOf vpn)
  rw [growth_single]
  unfold tryMapPage
  generalize tryAddMiddle pool build (middleOf vpn) = upper at *
  obtain ⟨added, mid⟩ := upper
  cases added with
  | false =>
    unfold Tabling at middle ⊢
    simp only [Bool.false_eq_true, if_false] at middle ⊢
    omega
  | true =>
    have leafTable := @tryAddLeafTable_tabling pool mid (leafTableOf vpn)
    dsimp only at kept ⊢
    rw [kept] at leafTable
    generalize tryAddLeafTable pool mid (leafTableOf vpn) = lower at *
    obtain ⟨placed, done⟩ := lower
    cases placed with
    | false =>
      unfold Tabling at middle leafTable ⊢
      simp only [Bool.false_eq_true, if_false, if_true] at middle leafTable ⊢
      omega
    | true =>
      unfold Tabling at middle leafTable ⊢
      simp only [if_true] at middle leafTable ⊢
      change done.left pool + _ = _
      omega

/-- A page that cannot be mapped is given back: the pool keeps it, and has lost what it had
beyond it. -/
theorem demandMap_cost (page : Nat) :
    if (demandMap pool build page).1 then
      (demandMap pool build page).2.left pool + 1 + build.table.tables.growth [vpnOf page] =
        build.left pool
    else build.left pool ≤ build.table.tables.growth [vpnOf page] ∧
      (demandMap pool build page).2.left pool = min 1 (build.left pool) := by
  have counted := tryAllocPages_one_count pool build.alloc
  unfold demandMap
  by_cases missed : (tryAllocPages pool build.alloc 1).1 = 0
  · have kept := tryAllocPages_count pool build.alloc 1
    have empty := counted.1 missed
    simp only [missed, if_true, Bool.false_eq_true, if_false, Nat.add_zero] at kept ⊢
    simp only [Build.left, kept, empty]
    omega
  · have taken := counted.2 missed
    simp only [missed, if_false]
    obtain ⟨index, -, inside, address, -, set⟩ :=
      ((tryAllocPages_claims pool build.alloc 1).resolve_left fun none => missed none.1).run
    rw [address]
    generalize tryAllocPages pool build.alloc 1 = phys at *
    have tables := @tryMapPage_tabling pool { build with alloc := phys.2 } (vpnOf page)
      (lazyLeaf (pool.freeRam + index * pageSize))
    obtain ⟨tabled, grown, ends⟩ := tryMapPage_tabled pool { build with alloc := phys.2 }
      (vpnOf page) (lazyLeaf (pool.freeRam + index * pageSize))
    have used := grown.used index (by simp [set])
    generalize tryMapPage pool { build with alloc := phys.2 } (vpnOf page) _ = result at *
    obtain ⟨mapped, done⟩ := result
    cases mapped with
    | true =>
      simp only [Tabling, Build.left, if_true] at tables ⊢
      omega
    | false =>
      have last : done = tabled := by simpa using ends
      rw [← last] at used
      have returned := freePages_one_count (show index < pool.ramPageCount by omega) used
      simp only [Tabling, Build.left, Bool.false_eq_true, if_false] at tables ⊢
      omega

variable (heap : Heap)

theorem firstUntouched_succ (table : PageTable) (count page : Nat) :
    firstUntouched heap table (count + 1) page =
      if heap.reserves page ∧ pteLeaf table page = none then some page
      else firstUntouched heap table count (page + pageSize) := by
  rw [firstUntouched, List.iterate, List.find?_cons]
  by_cases here : heap.reserves page ∧ pteLeaf table page = none
  · simp [here]
  · simp [here, firstUntouched]

variable (count page : Nat)

theorem faultPages_left_le :
    (faultPages pool heap count page build).2.left pool ≤ build.left pool := by
  induction count generalizing page build with
  | zero => exact Nat.le_refl _
  | succ count ih =>
    rw [faultPages]
    split
    · have cost := @demandMap_cost pool build page
      generalize demandMap pool build page = result at *
      obtain ⟨mapped, after⟩ := result
      cases mapped with
      | false =>
        simp only [Bool.false_eq_true, if_false] at cost ⊢
        omega
      | true =>
        simp only [if_true] at cost ⊢
        have rest := @ih after (page + pageSize)
        omega
    · exact ih (page + pageSize)

/-- The first loop of `user_range_valid` leaves the pool as it was exactly when there is no
page to be faulted in or the first of them is barren. -/
theorem faultPages_kept_iff :
    (faultPages pool heap count page build).2.left pool = build.left pool ↔
      ∀ first ∈ firstUntouched heap build.table count page,
        Barren (build.left pool) build.table first := by
  induction count generalizing page build with
  | zero => simp [faultPages, firstUntouched]
  | succ count ih =>
    rw [faultPages, firstUntouched_succ]
    split
    · have cost := @demandMap_cost pool build page
      simp only [Option.mem_def, Option.some.injEq, forall_eq']
      generalize demandMap pool build page = result at *
      obtain ⟨mapped, after⟩ := result
      unfold Barren
      cases mapped with
      | false =>
        simp only [Bool.false_eq_true, if_false] at cost ⊢
        omega
      | true =>
        simp only [if_true] at cost ⊢
        have rest := @faultPages_left_le pool after heap count (page + pageSize)
        omega
    · exact ih (page + pageSize)

/-- If the pages pass and the pool is as it was, so is everything. -/
theorem faultPages_idle (barren : ∀ first ∈ firstUntouched heap build.table count page,
      Barren (build.left pool) build.table first)
    (passed : (faultPages pool heap count page build).1 = true) :
    (faultPages pool heap count page build).2 = build := by
  induction count generalizing page with
  | zero => rfl
  | succ count ih =>
    rw [faultPages] at passed ⊢
    rw [firstUntouched_succ] at barren
    split at barren
    · next untouched =>
        have cost := @demandMap_cost pool build page
        have short := barren page rfl
        rw [if_pos untouched] at passed
        generalize demandMap pool build page = result at *
        obtain ⟨mapped, after⟩ := result
        unfold Barren at short
        cases mapped with
        | false => cases passed
        | true =>
          simp only [if_true] at cost
          omega
    · next touched =>
        rw [if_neg touched] at passed ⊢
        exact ih (page + pageSize) barren passed

end Faulting

/-- What the check of a range faults in takes no page of the pool: the range is refused at
once, has no page to be faulted in, or fails at the first of them. -/
def CheckFree (free : Nat) (heap : Heap) (table : PageTable) (vaddr len : Nat) : Prop :=
  len = 0 ∨ addressEnd ≤ vaddr + len ∨
    ∀ first ∈ firstUntouched heap table (pageCount vaddr len) (pageOf vaddr),
      Barren free table first

section Checking
variable {pool : Pool} {build : Build} {heap : Heap} {vaddr len : Nat} {wantWrite : Bool}

section
variable (start : vaddr < addressEnd) (size : len < addressEnd)
include start size

/-- The check ends at once, or with what its first loop has mapped. -/
theorem userRangeValid_cases : (len = 0 ∨ addressEnd ≤ vaddr + len) ∧
        (userRangeValid pool heap true build vaddr len wantWrite).2 = build ∨
      (len ≠ 0 ∧ vaddr + len < addressEnd) ∧
        (userRangeValid pool heap true build vaddr len wantWrite).2 =
          (faultPages pool heap (pageCount vaddr len) (pageOf vaddr) build).2 ∧
        ((userRangeValid pool heap true build vaddr len wantWrite).1 = true →
          (faultPages pool heap (pageCount vaddr len) (pageOf vaddr) build).1 = true) := by
  have wrap := @no_wrap vaddr len start size
  unfold userRangeValid
  by_cases none : len = 0
  · exact .inl ⟨.inl none, by rw [if_pos none]⟩
  · rw [if_neg none]
    by_cases wraps : (vaddr + len) % addressEnd < vaddr
    · refine .inl ⟨.inr ?_, by rw [if_pos wraps]⟩
      by_contra fits
      exact wrap.mpr (by omega) wraps
    · refine .inr ⟨⟨none, wrap.mp wraps⟩, ?_⟩
      simp only [wraps, if_false, if_true]
      by_cases faulted : (faultPages pool heap (pageCount vaddr len) (pageOf vaddr) build).1 = true
      · simp [faulted]
      · simp [faulted]

theorem userRangeValid_left_le :
    (userRangeValid pool heap true build vaddr len wantWrite).2.left pool ≤ build.left pool := by
  rcases userRangeValid_cases start size with ⟨-, same⟩ | ⟨-, same, -⟩
  · rw [same]
  · rw [same]
    exact faultPages_left_le heap _ _

theorem userRangeValid_kept_iff :
    (userRangeValid pool heap true build vaddr len wantWrite).2.left pool = build.left pool ↔
      CheckFree (build.left pool) heap build.table vaddr len := by
  unfold CheckFree
  rcases userRangeValid_cases start size with ⟨refused, same⟩ | ⟨checked, same, -⟩
  · rw [same]
    exact iff_of_true rfl (or_assoc.mp (.inl refused))
  · have first : ¬ len = 0 := checked.1
    have second : ¬ addressEnd ≤ vaddr + len := by omega
    rw [same, faultPages_kept_iff]
    simp only [first, second, false_or]

theorem userRangeValid_idle (free : CheckFree (build.left pool) heap build.table vaddr len)
    (passed : (userRangeValid pool heap true build vaddr len wantWrite).1 = true) :
    (userRangeValid pool heap true build vaddr len wantWrite).2 = build := by
  rcases userRangeValid_cases start size with ⟨-, same⟩ | ⟨checked, same, faulted⟩
  · exact same
  · rw [same]
    refine faultPages_idle heap _ _ ?_ (faulted passed)
    rcases free with none | wraps | barren
    · exact absurd none checked.1
    · omega
    · exact barren

end

end Checking

end Racccoon.UserRanges
