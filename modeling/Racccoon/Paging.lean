import Racccoon.Lib.Budget
import Racccoon.PageAllocator

/-!
Sv39 page tables as `src/page.c3` builds them: three levels, each table one page,
the middle and leaf tables allocated on demand. A page is named by its virtual page
number (27 bits), a leaf table by the upper 18 of them and a middle table by the
upper 9. `none` is the panic of `alloc_pages`.
-/

namespace Racccoon.Paging

open PageAllocator Budget

def entries : Nat := 512

/-- `permissions` are the R, W and X bits. -/
structure Leaf where
  paddr : Nat
  permissions : BitVec 3
  user : Bool
  shared : Bool
  deriving DecidableEq

structure Tables where
  middles : Finset Nat
  leafTables : Finset Nat

structure PageTable where
  tables : Tables
  leaves : Nat → Option Leaf

def pteOwnedUserLeaf (leaf : Leaf) : Bool := leaf.user && !leaf.shared

def vpnOf (vaddr : Nat) : Nat := vaddr / pageSize % entries ^ 3

def leafTableOf (vpn : Nat) : Nat := vpn / entries

def middleOf (vpn : Nat) : Nat := vpn / entries ^ 2

def emptyTable : PageTable := ⟨⟨∅, ∅⟩, fun _ => none⟩

/-- A page table under construction and the allocator its tables come from. -/
structure Build where
  alloc : Allocator
  table : PageTable

variable (pool : Pool)
variable (build : Build)

def addMiddle (index : Nat) : Option Build :=
  if index ∈ build.table.tables.middles then some build
  else (allocPages pool build.alloc 1).map fun page =>
    ⟨page.2, { build.table with
      tables.middles := insert index build.table.tables.middles }⟩

def addLeafTable (index : Nat) : Option Build :=
  if index ∈ build.table.tables.leafTables then some build
  else (allocPages pool build.alloc 1).map fun page =>
    ⟨page.2, { build.table with
      tables.leafTables := insert index build.table.tables.leafTables }⟩

def walkToLeafTable (vpn : Nat) : Option Build :=
  (addMiddle pool build (middleOf vpn)).bind fun build =>
    addLeafTable pool build (leafTableOf vpn)

def Build.setLeaf (vpn : Nat) (leaf : Leaf) : Build :=
  { build with table.leaves := Function.update build.table.leaves vpn (some leaf) }

/-- `map_page` and `map_device_page`, of an aligned address. -/
def mapPage (vpn : Nat) (leaf : Leaf) : Option Build :=
  (walkToLeafTable pool build vpn).map fun build => build.setLeaf vpn leaf

def mapPages (build : Build) : List (Nat × Leaf) → Option Build
  | [] => some build
  | (vpn, leaf) :: rest => (mapPage pool build vpn leaf).bind fun build => mapPages build rest

/-- The pages present in a table, in the order the walks of `sys_rfork` find them. -/
def walk (table : PageTable) : List (Nat × Leaf) :=
  (List.range entries).flatMap fun vpn2 =>
    if vpn2 ∈ table.tables.middles then
      (List.range entries).flatMap fun vpn1 =>
        if vpn2 * entries + vpn1 ∈ table.tables.leafTables then
          (List.range entries).filterMap fun vpn0 =>
            (table.leaves ((vpn2 * entries + vpn1) * entries + vpn0)).map
              ((vpn2 * entries + vpn1) * entries + vpn0, ·)
        else []
    else []

variable (tables : Tables)

def Tables.size : Nat := tables.middles.card + tables.leafTables.card

def Tables.cover (vpn : Nat) : Tables :=
  ⟨insert (middleOf vpn) tables.middles, insert (leafTableOf vpn) tables.leafTables⟩

def Tables.coverAll (vpns : List Nat) : Tables := vpns.foldl Tables.cover tables

def Tables.growth (vpns : List Nat) : Nat :=
  (tables.coverAll vpns).size - tables.size

variable {pool} {tables : Tables} {build : Build}

def Build.left (pool : Pool) (build : Build) : Nat := freePageCount pool build.alloc

theorem size_cover (tables : Tables) (vpn : Nat) : tables.size ≤ (tables.cover vpn).size :=
  Nat.add_le_add (Finset.card_le_card (Finset.subset_insert _ _))
    (Finset.card_le_card (Finset.subset_insert _ _))

theorem size_coverAll (tables : Tables) (vpns : List Nat) :
    tables.size ≤ (tables.coverAll vpns).size := by
  induction vpns generalizing tables with
  | nil => exact Nat.le_refl _
  | cons vpn _ ih => exact (size_cover tables vpn).trans (ih (tables.cover vpn))

theorem growth_single (tables : Tables) (vpn : Nat) :
    tables.growth [vpn] = ((insert (middleOf vpn) tables.middles).card - tables.middles.card) +
      ((insert (leafTableOf vpn) tables.leafTables).card - tables.leafTables.card) := by
  have middles := Finset.card_le_card (Finset.subset_insert (middleOf vpn) tables.middles)
  have leafTables := Finset.card_le_card (Finset.subset_insert (leafTableOf vpn) tables.leafTables)
  simp only [Tables.growth, Tables.coverAll, List.foldl_cons, List.foldl_nil, Tables.cover,
    Tables.size]
  omega

theorem growth_cons (tables : Tables) (vpn : Nat) (rest : List Nat) :
    tables.growth (vpn :: rest) = tables.growth [vpn] + (tables.cover vpn).growth rest := by
  have first := size_cover tables vpn
  have later := size_coverAll (tables.cover vpn) rest
  simp only [Tables.growth, Tables.coverAll, List.foldl_cons, List.foldl_nil] at *
  omega

theorem growth_append (tables : Tables) (first rest : List Nat) :
    tables.growth (first ++ rest) = tables.growth first + (tables.coverAll first).growth rest := by
  have low := size_coverAll tables first
  have high := size_coverAll (tables.coverAll first) rest
  simp only [Tables.growth, Tables.coverAll, List.foldl_append] at *
  omega

theorem coverAll_middles (tables : Tables) (vpns : List Nat) :
    (tables.coverAll vpns).middles = tables.middles ∪ (vpns.map middleOf).toFinset := by
  induction vpns generalizing tables with
  | nil => simp [Tables.coverAll]
  | cons vpn _ ih =>
    have step := ih (tables.cover vpn)
    simp only [Tables.coverAll, List.foldl_cons] at step ⊢
    rw [step]
    simp [Tables.cover]

theorem coverAll_leafTables (tables : Tables) (vpns : List Nat) :
    (tables.coverAll vpns).leafTables = tables.leafTables ∪ (vpns.map leafTableOf).toFinset := by
  induction vpns generalizing tables with
  | nil => simp [Tables.coverAll]
  | cons vpn _ ih =>
    have step := ih (tables.cover vpn)
    simp only [Tables.coverAll, List.foldl_cons] at step ⊢
    rw [step]
    simp [Tables.cover]

theorem growth_mono (tables : Tables) {few vpns : List Nat} (within : ∀ vpn ∈ few, vpn ∈ vpns) :
    tables.growth few ≤ tables.growth vpns := by
  have image (index : Nat → Nat) : (few.map index).toFinset ⊆ (vpns.map index).toFinset := by
    intro found
    simp only [List.mem_toFinset, List.mem_map]
    rintro ⟨vpn, listed, rfl⟩
    exact ⟨vpn, within vpn listed, rfl⟩
  have middles : (tables.middles ∪ (few.map middleOf).toFinset).card ≤
      (tables.middles ∪ (vpns.map middleOf).toFinset).card :=
    Finset.card_le_card (Finset.union_subset_union_right (image middleOf))
  have leafTables : (tables.leafTables ∪ (few.map leafTableOf).toFinset).card ≤
      (tables.leafTables ∪ (vpns.map leafTableOf).toFinset).card :=
    Finset.card_le_card (Finset.union_subset_union_right (image leafTableOf))
  simp only [Tables.growth, Tables.size, coverAll_middles, coverAll_leafTables]
  omega

theorem range_mul (count size : Nat) :
    List.range (count * size) =
      (List.range count).flatMap fun k => (List.range size).map (k * size + ·) := by
  induction count with
  | zero => simp
  | succ _ ih =>
    rw [Nat.succ_mul, List.range_add, ih, List.range_succ]
    simp

def found (table : PageTable) (vpn : Nat) : Option Leaf :=
  if middleOf vpn ∈ table.tables.middles ∧ leafTableOf vpn ∈ table.tables.leafTables then
    table.leaves vpn
  else none

/-- The walks meet the pages of an address space in the order of their addresses. -/
theorem walk_eq (table : PageTable) :
    walk table =
      (List.range (entries * entries * entries)).filterMap fun vpn =>
        (found table vpn).map (vpn, ·) := by
  have present (vpn2 vpn1 vpn0 : Nat) (second : vpn1 < entries) (third : vpn0 < entries) :
      found table ((vpn2 * entries + vpn1) * entries + vpn0) =
        if vpn2 ∈ table.tables.middles ∧ vpn2 * entries + vpn1 ∈ table.tables.leafTables then
          table.leaves ((vpn2 * entries + vpn1) * entries + vpn0)
        else none := by
    have middle : middleOf ((vpn2 * entries + vpn1) * entries + vpn0) = vpn2 := by
      unfold middleOf
      unfold entries at *
      omega
    have leafTable : leafTableOf ((vpn2 * entries + vpn1) * entries + vpn0) =
        vpn2 * entries + vpn1 := by
      unfold leafTableOf
      unfold entries at *
      omega
    rw [found, middle, leafTable]
  simp only [range_mul, List.flatMap_assoc, List.filterMap_flatMap, List.filterMap_map,
    List.flatMap_map]
  refine List.flatMap_congr fun vpn2 _ => ?_
  by_cases upper : vpn2 ∈ table.tables.middles
  · rw [if_pos upper]
    refine List.flatMap_congr fun vpn1 second => ?_
    by_cases lower : vpn2 * entries + vpn1 ∈ table.tables.leafTables
    · rw [if_pos lower]
      refine List.filterMap_congr fun vpn0 third => ?_
      rw [Function.comp_apply, present _ _ _ (List.mem_range.mp second) (List.mem_range.mp third),
        if_pos ⟨upper, lower⟩]
    · rw [if_neg lower, eq_comm, List.filterMap_eq_nil_iff]
      intro vpn0 third
      rw [Function.comp_apply, present _ _ _ (List.mem_range.mp second) (List.mem_range.mp third),
        if_neg fun both => lower both.2]
      rfl
  · rw [if_neg upper, eq_comm, List.flatMap_eq_nil_iff]
    intro vpn1 second
    rw [List.filterMap_eq_nil_iff]
    intro vpn0 third
    rw [Function.comp_apply, present _ _ _ (List.mem_range.mp second) (List.mem_range.mp third),
      if_neg fun both => upper both.1]
    rfl

theorem mem_walk (table : PageTable) (vpn : Nat) (leaf : Leaf) :
    (vpn, leaf) ∈ walk table ↔ vpn < entries * entries * entries ∧ found table vpn = some leaf := by
  rw [walk_eq, List.mem_filterMap]
  constructor
  · rintro ⟨other, inside, listed⟩
    obtain ⟨entry, present, same⟩ := Option.map_eq_some_iff.mp listed
    cases same
    exact ⟨List.mem_range.mp inside, present⟩
  · rintro ⟨inside, present⟩
    exact ⟨vpn, List.mem_range.mpr inside, by rw [present]; rfl⟩

/-- A page taken from the pool, if there is one. -/
theorem alloc_spends (build : Build) (place : Nat × Allocator → Build) (post : Build → Prop)
    (keeps : ∀ page, (place page).alloc = page.2) (holds : ∀ page, post (place page)) :
    Spends (Build.left pool) build 1 post
      ((allocPages pool build.alloc 1).map place) := by
  have counted := allocPages_one pool build.alloc
  constructor
  · intro failed
    have empty := counted.1 (by simpa using failed)
    simp [Build.left, empty]
  · intro after done
    obtain ⟨page, taken, rfl⟩ := Option.map_eq_some_iff.mp done
    refine ⟨?_, holds page⟩
    rw [Build.left, keeps]
    exact counted.2 page taken

theorem addMiddle_spends (build : Build) (index : Nat) :
    Spends (Build.left pool) build
      ((insert index build.table.tables.middles).card - build.table.tables.middles.card)
      (fun after => after.table.tables =
        { build.table.tables with middles := insert index build.table.tables.middles })
      (addMiddle pool build index) := by
  unfold addMiddle
  by_cases present : index ∈ build.table.tables.middles
  · simp only [present, Finset.insert_eq_of_mem, Nat.sub_self]
    exact Spends.nothing rfl
  · simp only [present, not_false_eq_true, Finset.card_insert_of_notMem,
      Nat.add_sub_cancel_left]
    exact alloc_spends build _ _ (fun _ => rfl) fun _ => rfl

theorem addLeafTable_spends (build : Build) (index : Nat) :
    Spends (Build.left pool) build
      ((insert index build.table.tables.leafTables).card - build.table.tables.leafTables.card)
      (fun after => after.table.tables =
        { build.table.tables with leafTables := insert index build.table.tables.leafTables })
      (addLeafTable pool build index) := by
  unfold addLeafTable
  by_cases present : index ∈ build.table.tables.leafTables
  · simp only [present, Finset.insert_eq_of_mem, Nat.sub_self]
    exact Spends.nothing rfl
  · simp only [present, not_false_eq_true, Finset.card_insert_of_notMem,
      Nat.add_sub_cancel_left]
    exact alloc_spends build _ _ (fun _ => rfl) fun _ => rfl

theorem walkToLeafTable_spends (build : Build) (vpn : Nat) :
    Spends (Build.left pool) build (build.table.tables.growth [vpn])
      (fun after => after.table.tables = build.table.tables.cover vpn)
      (walkToLeafTable pool build vpn) := by
  rw [growth_single]
  refine (addMiddle_spends build (middleOf vpn)).bind ?_
  intro middle reached
  have rest : Spends (Build.left pool) middle _ _ (addLeafTable pool middle (leafTableOf vpn)) :=
    addLeafTable_spends middle (leafTableOf vpn)
  rw [reached] at rest
  exact rest

theorem mapPage_spends (build : Build) (vpn : Nat) (leaf : Leaf) :
    Spends (Build.left pool) build (build.table.tables.growth [vpn])
      (fun after => after.table.tables = build.table.tables.cover vpn)
      (mapPage pool build vpn leaf) :=
  (walkToLeafTable_spends build vpn).map _ (fun _ => rfl) fun _ reached => reached

theorem mapPages_spends (pages : List (Nat × Leaf)) (build : Build) :
    Spends (Build.left pool) build (build.table.tables.growth (pages.map Prod.fst))
      (fun after => after.table.tables = build.table.tables.coverAll (pages.map Prod.fst))
      (mapPages pool build pages) := by
  induction pages generalizing build with
  | nil =>
    rw [List.map_nil, Tables.growth, Tables.coverAll, List.foldl_nil, Nat.sub_self]
    exact Spends.nothing rfl
  | cons page _ ih =>
    obtain ⟨vpn, leaf⟩ := page
    rw [List.map_cons, growth_cons]
    refine (mapPage_spends build vpn leaf).bind ?_
    intro middle reached
    have later := ih middle
    rw [reached] at later
    exact later

theorem walkToLeafTable_leaves {vpn : Nat} {after : Build}
    (done : walkToLeafTable pool build vpn = some after) :
    after.table.leaves = build.table.leaves := by
  obtain ⟨middle, first, second⟩ := Option.bind_eq_some_iff.mp done
  have upper : middle.table.leaves = build.table.leaves := by
    unfold addMiddle at first
    split at first
    · cases first
      rfl
    · obtain ⟨page, -, rfl⟩ := Option.map_eq_some_iff.mp first
      rfl
  unfold addLeafTable at second
  split at second
  · cases second
    exact upper
  · obtain ⟨page, -, rfl⟩ := Option.map_eq_some_iff.mp second
    exact upper

theorem mapPage_leaves {vpn : Nat} {leaf : Leaf} {after : Build}
    (done : mapPage pool build vpn leaf = some after) :
    after.table.leaves = Function.update build.table.leaves vpn (some leaf) := by
  obtain ⟨walked, reached, rfl⟩ := Option.map_eq_some_iff.mp done
  rw [Build.setLeaf, walkToLeafTable_leaves reached]

def overwrite (leaves : Nat → Option Leaf) (pages : List (Nat × Leaf)) : Nat → Option Leaf :=
  pages.foldl (fun leaves page => Function.update leaves page.1 (some page.2)) leaves

theorem mapPages_leaves (pages : List (Nat × Leaf)) {after : Build}
    (done : mapPages pool build pages = some after) :
    after.table.leaves = overwrite build.table.leaves pages := by
  induction pages generalizing build with
  | nil =>
    cases done
    rfl
  | cons _ _ ih =>
    obtain ⟨middle, first, later⟩ := Option.bind_eq_some_iff.mp done
    rw [ih later, mapPage_leaves first, overwrite, overwrite, List.foldl_cons]

/-- A page all of whose entries agree, with one of them written. -/
theorem overwrite_eq {vpn : Nat} {leaf : Leaf} (pages : List (Nat × Leaf))
    (leaves : Nat → Option Leaf) (agree : ∀ page ∈ pages, page.1 = vpn → page.2 = leaf)
    (there : (vpn, leaf) ∈ pages ∨ leaves vpn = some leaf) :
    overwrite leaves pages vpn = some leaf := by
  induction pages generalizing leaves with
  | nil => exact there.resolve_left (by simp)
  | cons page _ ih =>
    refine ih (Function.update leaves page.1 (some page.2))
      (fun other member => agree other (List.mem_cons_of_mem _ member)) ?_
    by_cases same : page.1 = vpn
    · right
      subst same
      rw [Function.update_self, agree page List.mem_cons_self rfl]
    · rw [Function.update_of_ne (Ne.symm same)]
      rcases there with member | old
      · rcases List.mem_cons.mp member with rfl | member
        · exact absurd rfl same
        · exact .inl member
      · exact .inr old

/-- A page that was mapped is found, if nothing else was mapped over it. -/
theorem mapPages_found {pages : List (Nat × Leaf)} {after : Build} {vpn : Nat} {leaf : Leaf}
    (done : mapPages pool build pages = some after)
    (agree : ∀ page ∈ pages, page.1 = vpn → page.2 = leaf) (member : (vpn, leaf) ∈ pages) :
    found after.table vpn = some leaf := by
  have tables := ((mapPages_spends pages build).uses after done).2
  have middle : middleOf vpn ∈ after.table.tables.middles := by
    rw [tables, coverAll_middles, List.map_map]
    exact Finset.mem_union_right _ (List.mem_toFinset.mpr (List.mem_map.mpr ⟨_, member, rfl⟩))
  have leafTable : leafTableOf vpn ∈ after.table.tables.leafTables := by
    rw [tables, coverAll_leafTables, List.map_map]
    exact Finset.mem_union_right _ (List.mem_toFinset.mpr (List.mem_map.mpr ⟨_, member, rfl⟩))
  rw [found, if_pos ⟨middle, leafTable⟩, mapPages_leaves pages done]
  exact overwrite_eq pages _ agree (.inl member)

end Racccoon.Paging
