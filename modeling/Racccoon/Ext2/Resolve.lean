import Racccoon.Ext2.Blocks

/-!
What the resolver of blocks finds. A logical block has one place in the trees of the
inode's pointers; through a cache that tells the truth the resolver returns the number at
that place, unless a pointer block on the way to it cannot be read, when it returns 0.
-/

namespace Racccoon.Ext2.Blocks

open Words PointerTree

variable {layout : Layout} {faults : Faults} {bytes : Buf} {inode : InodeInfo}
  {cache : BlockCache}

def blockBytes (layout : Layout) (bytes : Buf) (block : Nat) : Buf := fun i =>
  bytes (block * layout.blockSize + i)

def entries (layout : Layout) (bytes : Buf) (table index : Nat) : Nat :=
  word (blockBytes layout bytes table) index

def shape (layout : Layout) : Shape :=
  ⟨fun slot => if slot = 12 then 1 else if slot = 13 then 2 else if slot = 14 then 3 else 0,
    layout.pointers⟩

def nodeOf (layout : Layout) (bytes : Buf) (inode : InodeInfo) (slot : Nat)
    (path : List Nat) : Nat :=
  node inode.root (entries layout bytes) slot path

/-- Where the pointer to a logical block stands. -/
def placeOf (layout : Layout) (b : Nat) : Nat × List Nat :=
  let n := layout.pointers
  if b < 12 then (b, [])
  else if b < 12 + n then (12, [b - 12])
  else if b < 12 + n + n * n then
    let rel := b - (12 + n)
    (13, [rel % n, rel / n])
  else
    let rel := b - (12 + n + n * n)
    (14, [rel % n, rel / n % n, rel / (n * n)])

def blockOf (layout : Layout) (bytes : Buf) (inode : InodeInfo) (b : Nat) : Nat :=
  nodeOf layout bytes inode (placeOf layout b).1 (placeOf layout b).2

theorem Layout.pointers_pos (layout : Layout) : 0 < layout.pointers := by
  rcases layout.sized with sized | sized | sized <;> simp [Layout.pointers, sized]

theorem Layout.blockSize_pos (layout : Layout) : 0 < layout.blockSize := by
  rcases layout.sized with sized | sized | sized <;> omega

variable {b ptr idx : Nat}

theorem placeOf_valid (inside : b < layout.reach) :
    (shape layout).Valid (placeOf layout b).1 (placeOf layout b).2 ∧
      (placeOf layout b).2.length = (shape layout).depth (placeOf layout b).1 := by
  have pos := layout.pointers_pos
  unfold placeOf
  dsimp only
  split
  · next direct =>
      have depth : (shape layout).depth b = 0 := by
        simp only [shape]
        rw [if_neg (by omega), if_neg (by omega), if_neg (by omega)]
      exact ⟨⟨by simp, by simp⟩, depth.symm⟩
  · split
    · refine ⟨⟨by simp [shape], ?_⟩, rfl⟩
      simp only [shape, List.mem_singleton]
      omega
    · split
      · refine ⟨⟨by simp [shape], ?_⟩, rfl⟩
        simp only [shape, List.mem_cons, List.not_mem_nil, or_false, forall_eq_or_imp, forall_eq]
        exact ⟨Nat.mod_lt _ pos, Nat.div_lt_of_lt_mul (by omega)⟩
      · refine ⟨⟨by simp [shape], ?_⟩, rfl⟩
        simp only [shape, List.mem_cons, List.not_mem_nil, or_false, forall_eq_or_imp, forall_eq]
        refine ⟨Nat.mod_lt _ pos, Nat.mod_lt _ pos, Nat.div_lt_of_lt_mul ?_⟩
        simp only [Layout.reach] at inside
        omega

/-- The logical block whose pointer stands at a place. -/
def logicalAt (layout : Layout) : Nat × List Nat → Nat
  | (_, [low]) => 12 + low
  | (_, [low, high]) => 12 + layout.pointers + (layout.pointers * high + low)
  | (_, [low, mid, high]) =>
    12 + layout.pointers + layout.pointers * layout.pointers +
      (layout.pointers * (layout.pointers * high + mid) + low)
  | (slot, _) => slot

theorem logicalAt_placeOf (b : Nat) : logicalAt layout (placeOf layout b) = b := by
  have whole := fun x => Nat.div_add_mod x layout.pointers
  unfold placeOf
  dsimp only
  split
  · rfl
  · split
    · simp only [logicalAt]
      omega
    · split
      · simp only [logicalAt, whole]
        omega
      · simp only [logicalAt, ← Nat.div_div_eq_div_mul, whole]
        omega

theorem placeOf_injective {c : Nat} (same : placeOf layout b = placeOf layout c) : b = c := by
  rw [← @logicalAt_placeOf layout b, same, logicalAt_placeOf]

def Open (layout : Layout) (faults : Faults) (block : Nat) : Prop :=
  ∀ op, readable faults op (block * layout.sectorsPerBlock) layout.sectorsPerBlock = true

def Shut (layout : Layout) (faults : Faults) (block : Nat) : Prop :=
  ∀ op, readable faults op (block * layout.sectorsPerBlock) layout.sectorsPerBlock = false

structure Holds (layout : Layout) (faults : Faults) (bytes : Buf) (ptr : Nat)
    (buf : Buf) : Prop where
  words : ∀ i, i < layout.pointers → word buf i = follow (entries layout bytes) ptr i
  read : ptr ≠ 0 → ¬ Shut layout faults ptr

structure Coherent (layout : Layout) (faults : Faults) (bytes : Buf) (inode : InodeInfo)
    (cache : BlockCache) : Prop where
  leaf : ∀ ptr, cache.leafBlockNum = some ptr → Holds layout faults bytes ptr cache.leaf
  mid : ∀ ptr, cache.midBlockNum = some ptr → Holds layout faults bytes ptr cache.mid
  doubleTop : cache.doubleTopLoaded = true →
    Holds layout faults bytes inode.doubleIndirectBlock cache.doubleTop
  tripleTop : cache.tripleTopLoaded = true →
    Holds layout faults bytes inode.tripleIndirectBlock cache.tripleTop

theorem Coherent.fresh (junk : Buf) (op : Nat) :
    Coherent layout faults bytes inode (.fresh junk op) :=
  ⟨nofun, nofun, nofun, nofun⟩

theorem Layout.sectors (layout : Layout) :
    layout.sectorsPerBlock * sectorSize = layout.blockSize := by
  rcases layout.sized with sized | sized | sized <;>
    simp [Layout.sectorsPerBlock, sectorSize, sized]

theorem Layout.words (layout : Layout) : layout.pointers * 4 = layout.blockSize := by
  rcases layout.sized with sized | sized | sized <;> simp [Layout.pointers, sized]

theorem readable_take {op start count less : Nat} (all : readable faults op start count = true)
    (fewer : less ≤ count) : readable faults op start less = true := by
  simp only [readable, List.all_eq_true, List.mem_range] at all ⊢
  exact fun j small => all j (by omega)

/-- A block that is read is in the buffer. -/
theorem ext2ReadBlock_bytes {op block i : Nat} {buf : Buf}
    (read : (ext2ReadBlock layout faults bytes op block buf).1 = true)
    (inside : i < layout.blockSize) :
    (ext2ReadBlock layout faults bytes op block buf).2 i = blockBytes layout bytes block i := by
  have sectors := layout.sectors
  have before : i / sectorSize + 1 ≤ layout.sectorsPerBlock := by
    rw [← sectors, Nat.mul_comm] at inside
    exact Nat.div_lt_of_lt_mul inside
  simp only [ext2ReadBlock, fsReadSectors] at read ⊢
  rw [sectors, if_pos ⟨inside, readable_take read before⟩, Nat.mul_assoc, sectors, blockBytes]

theorem ext2ReadBlock_words {op block i : Nat} {buf : Buf}
    (read : (ext2ReadBlock layout faults bytes op block buf).1 = true)
    (inside : i < layout.pointers) :
    word (ext2ReadBlock layout faults bytes op block buf).2 i = entries layout bytes block i := by
  have words := layout.words
  exact word_congr fun j there => ext2ReadBlock_bytes read (by omega)

theorem fill_open {held : Bool} (buf : Buf) (op : Nat)
    (holds : held = true → Holds layout faults bytes ptr buf)
    (opens : ptr ≠ 0 → Open layout faults ptr) :
    (fill layout faults bytes held ptr buf op).1 = true ∧
      Holds layout faults bytes ptr (fill layout faults bytes held ptr buf op).2.1 := by
  unfold fill
  split
  · next yes => exact ⟨rfl, holds yes⟩
  · split
    · next zero =>
        subst zero
        exact ⟨rfl, fun i _ => word_zeros i, fun real => absurd rfl real⟩
    · next real =>
        have read := opens real op
        refine ⟨read, fun i inside => ?_, fun _ shut => ?_⟩
        · rw [follow_of_ne real]
          exact ext2ReadBlock_words read inside
        · exact absurd (shut op) (by rw [read]; simp)

theorem fill_shut (bytes buf : Buf) (op : Nat) (real : ptr ≠ 0) (shut : Shut layout faults ptr) :
    (fill layout faults bytes false ptr buf op).1 = false := by
  unfold fill
  rw [if_neg real]
  exact shut op

section Loading
variable {ptr : Nat}

theorem loadLeaf_open (coherent : Coherent layout faults bytes inode cache)
    (opens : ptr ≠ 0 → Open layout faults ptr) :
    (loadLeaf layout faults bytes ptr cache).1 = true ∧
      Holds layout faults bytes ptr (loadLeaf layout faults bytes ptr cache).2.leaf ∧
      Coherent layout faults bytes inode (loadLeaf layout faults bytes ptr cache).2 := by
  have held : (cache.leafBlockNum == some ptr) = true →
      Holds layout faults bytes ptr cache.leaf :=
    fun same => coherent.leaf ptr (by simpa using same)
  obtain ⟨ok, holds⟩ := fill_open cache.leaf cache.op held opens
  refine ⟨ok, holds, ?_, coherent.mid, coherent.doubleTop, coherent.tripleTop⟩
  intro other named
  simp only [loadLeaf, ok, if_true, Option.some.injEq] at named
  subst named
  exact holds

theorem loadLeaf_shut (real : ptr ≠ 0) (shut : Shut layout faults ptr)
    (other : cache.leafBlockNum ≠ some ptr) :
    (loadLeaf layout faults bytes ptr cache).1 = false ∧
      (loadLeaf layout faults bytes ptr cache).2 = { cache with
        leaf := (loadLeaf layout faults bytes ptr cache).2.leaf
        op := (loadLeaf layout faults bytes ptr cache).2.op } := by
  have missed : (cache.leafBlockNum == some ptr) = false := by simpa using other
  have failed := fill_shut bytes cache.leaf cache.op real shut
  simp [loadLeaf, missed, failed]

theorem loadMid_open (coherent : Coherent layout faults bytes inode cache)
    (opens : ptr ≠ 0 → Open layout faults ptr) :
    (loadMid layout faults bytes ptr cache).1 = true ∧
      Holds layout faults bytes ptr (loadMid layout faults bytes ptr cache).2.mid ∧
      Coherent layout faults bytes inode (loadMid layout faults bytes ptr cache).2 := by
  have held : (cache.midBlockNum == some ptr) = true →
      Holds layout faults bytes ptr cache.mid :=
    fun same => coherent.mid ptr (by simpa using same)
  obtain ⟨ok, holds⟩ := fill_open cache.mid cache.op held opens
  refine ⟨ok, holds, coherent.leaf, ?_, coherent.doubleTop, coherent.tripleTop⟩
  intro other named
  simp only [loadMid, ok, if_true, Option.some.injEq] at named
  subst named
  exact holds

theorem loadMid_shut (real : ptr ≠ 0) (shut : Shut layout faults ptr)
    (other : cache.midBlockNum ≠ some ptr) :
    (loadMid layout faults bytes ptr cache).1 = false ∧
      (loadMid layout faults bytes ptr cache).2 = { cache with
        mid := (loadMid layout faults bytes ptr cache).2.mid
        op := (loadMid layout faults bytes ptr cache).2.op } := by
  have missed : (cache.midBlockNum == some ptr) = false := by simpa using other
  have failed := fill_shut bytes cache.mid cache.op real shut
  simp [loadMid, missed, failed]

theorem loadMid_held (held : cache.midBlockNum = some ptr) :
    loadMid layout faults bytes ptr cache = (true, cache) := by
  cases cache
  subst held
  simp [loadMid, fill]

theorem loadDoubleTop_open (coherent : Coherent layout faults bytes inode cache)
    (opens : inode.doubleIndirectBlock ≠ 0 → Open layout faults inode.doubleIndirectBlock) :
    let loaded := loadDoubleTop layout faults bytes inode.doubleIndirectBlock cache
    loaded.1 = true ∧
      Holds layout faults bytes inode.doubleIndirectBlock loaded.2.doubleTop ∧
      loaded.2.doubleTopLoaded = true ∧ Coherent layout faults bytes inode loaded.2 := by
  obtain ⟨ok, holds⟩ := fill_open cache.doubleTop cache.op coherent.doubleTop opens
  exact ⟨ok, holds, by simp [loadDoubleTop, ok], coherent.leaf, coherent.mid, fun _ => holds,
    coherent.tripleTop⟩

theorem loadDoubleTop_shut (real : ptr ≠ 0) (shut : Shut layout faults ptr)
    (unloaded : cache.doubleTopLoaded = false) :
    (loadDoubleTop layout faults bytes ptr cache).1 = false ∧
      (loadDoubleTop layout faults bytes ptr cache).2.doubleTopLoaded = false := by
  have failed := fill_shut bytes cache.doubleTop cache.op real shut
  simp [loadDoubleTop, unloaded, failed]

theorem loadDoubleTop_held (held : cache.doubleTopLoaded = true) :
    loadDoubleTop layout faults bytes ptr cache = (true, cache) := by
  cases cache
  subst held
  simp [loadDoubleTop, fill]

theorem loadTripleTop_open (coherent : Coherent layout faults bytes inode cache)
    (opens : inode.tripleIndirectBlock ≠ 0 → Open layout faults inode.tripleIndirectBlock) :
    let loaded := loadTripleTop layout faults bytes inode.tripleIndirectBlock cache
    loaded.1 = true ∧
      Holds layout faults bytes inode.tripleIndirectBlock loaded.2.tripleTop ∧
      loaded.2.tripleTopLoaded = true ∧ Coherent layout faults bytes inode loaded.2 := by
  obtain ⟨ok, holds⟩ := fill_open cache.tripleTop cache.op coherent.tripleTop opens
  exact ⟨ok, holds, by simp [loadTripleTop, ok], coherent.leaf, coherent.mid,
    coherent.doubleTop, fun _ => holds⟩

theorem loadTripleTop_shut (real : ptr ≠ 0) (shut : Shut layout faults ptr)
    (unloaded : cache.tripleTopLoaded = false) :
    (loadTripleTop layout faults bytes ptr cache).1 = false ∧
      (loadTripleTop layout faults bytes ptr cache).2.tripleTopLoaded = false := by
  have failed := fill_shut bytes cache.tripleTop cache.op real shut
  simp [loadTripleTop, unloaded, failed]

theorem loadTripleTop_held (held : cache.tripleTopLoaded = true) :
    loadTripleTop layout faults bytes ptr cache = (true, cache) := by
  cases cache
  subst held
  simp [loadTripleTop, fill]

end Loading

def Clear (layout : Layout) (faults : Faults) (bytes : Buf) (inode : InodeInfo) (slot : Nat) :
    List Nat → Prop
  | [] => True
  | _ :: path => Clear layout faults bytes inode slot path ∧
      (nodeOf layout bytes inode slot path ≠ 0 →
        Open layout faults (nodeOf layout bytes inode slot path))

def ClearBlock (layout : Layout) (faults : Faults) (bytes : Buf) (inode : InodeInfo)
    (b : Nat) : Prop :=
  Clear layout faults bytes inode (placeOf layout b).1 (placeOf layout b).2

section
variable (coherent : Coherent layout faults bytes inode cache)
include coherent

theorem ext2ResolveLeaf_open {index : Nat} (opens : ptr ≠ 0 → Open layout faults ptr)
    (inside : index < layout.pointers) :
    (ext2ResolveLeaf layout faults bytes ptr index cache).1 =
        follow (entries layout bytes) ptr index ∧
      Coherent layout faults bytes inode
        (ext2ResolveLeaf layout faults bytes ptr index cache).2 := by
  obtain ⟨ok, holds, kept⟩ := loadLeaf_open coherent opens
  refine ⟨?_, kept⟩
  simp only [ext2ResolveLeaf, ok]
  exact holds.words index inside

theorem resolveDouble_clear (inside : idx < layout.pointers * layout.pointers)
    (clear : Clear layout faults bytes inode 13 [idx % layout.pointers, idx / layout.pointers]) :
    (resolveDouble layout faults bytes inode idx cache).1 =
        nodeOf layout bytes inode 13 [idx % layout.pointers, idx / layout.pointers] ∧
      Coherent layout faults bytes inode
        (resolveDouble layout faults bytes inode idx cache).2 := by
  obtain ⟨ok, holds, -, kept⟩ := loadDoubleTop_open coherent clear.1.2
  unfold resolveDouble
  rw [if_pos ok, holds.words _ (Nat.div_lt_of_lt_mul inside)]
  exact ext2ResolveLeaf_open kept clear.2 (Nat.mod_lt _ layout.pointers_pos)

theorem resolveMid_clear {midPtr rem : Nat} (inside : rem < layout.pointers * layout.pointers)
    (opens : midPtr ≠ 0 → Open layout faults midPtr)
    (leafOpens : follow (entries layout bytes) midPtr (rem / layout.pointers) ≠ 0 →
      Open layout faults (follow (entries layout bytes) midPtr (rem / layout.pointers))) :
    (resolveMid layout faults bytes midPtr rem cache).1 =
        follow (entries layout bytes)
          (follow (entries layout bytes) midPtr (rem / layout.pointers))
          (rem % layout.pointers) ∧
      Coherent layout faults bytes inode (resolveMid layout faults bytes midPtr rem cache).2 := by
  obtain ⟨ok, holds, kept⟩ := loadMid_open coherent opens
  unfold resolveMid
  rw [if_pos ok, holds.words _ (Nat.div_lt_of_lt_mul inside)]
  exact ext2ResolveLeaf_open kept leafOpens (Nat.mod_lt _ layout.pointers_pos)

end

theorem rem_split (n idx : Nat) : idx % (n * n) / n = idx / n % n ∧ idx % (n * n) % n = idx % n :=
  ⟨Nat.mod_mul_right_div_self .., Nat.mod_mul_left_mod ..⟩

theorem resolveTriple_clear (coherent : Coherent layout faults bytes inode cache)
    (inside : idx < layout.pointers * layout.pointers * layout.pointers)
    (clear : Clear layout faults bytes inode 14 [idx % layout.pointers,
      idx / layout.pointers % layout.pointers, idx / (layout.pointers * layout.pointers)]) :
    (resolveTriple layout faults bytes inode idx cache).1 =
        nodeOf layout bytes inode 14 [idx % layout.pointers,
          idx / layout.pointers % layout.pointers, idx / (layout.pointers * layout.pointers)] ∧
      Coherent layout faults bytes inode
        (resolveTriple layout faults bytes inode idx cache).2 := by
  have pos := layout.pointers_pos
  obtain ⟨ok, holds, -, kept⟩ := loadTripleTop_open coherent clear.1.1.2
  obtain ⟨high, low⟩ := rem_split layout.pointers idx
  have small : idx % (layout.pointers * layout.pointers) < layout.pointers * layout.pointers :=
    Nat.mod_lt _ (Nat.mul_pos pos pos)
  have leafOpens := clear.2
  unfold resolveTriple
  rw [if_pos ok, holds.words _ (Nat.div_lt_of_lt_mul inside), ← low]
  rw [← high] at leafOpens ⊢
  exact resolveMid_clear kept small clear.1.2 leafOpens

/-- Where every pointer block on the way can be read, the resolver finds the block. -/
theorem ext2ResolveBlock_clear (coherent : Coherent layout faults bytes inode cache)
    (inside : b < layout.reach) (clear : ClearBlock layout faults bytes inode b) :
    (ext2ResolveBlock layout faults bytes inode b cache).1 = blockOf layout bytes inode b ∧
      Coherent layout faults bytes inode
        (ext2ResolveBlock layout faults bytes inode b cache).2 := by
  unfold ClearBlock placeOf at clear
  unfold ext2ResolveBlock blockOf placeOf
  by_cases direct : b < 12
  · simp only [if_pos direct]
    exact ⟨by simp [nodeOf, node, InodeInfo.root, direct], coherent⟩
  · simp only [if_neg direct] at clear ⊢
    by_cases single : b < 12 + layout.pointers
    · simp only [if_pos single] at clear ⊢
      exact ext2ResolveLeaf_open coherent clear.2 (by omega)
    · simp only [if_neg single] at clear ⊢
      by_cases double : b < 12 + layout.pointers + layout.pointers * layout.pointers
      · simp only [if_pos double] at clear ⊢
        exact resolveDouble_clear coherent (by omega) clear
      · simp only [if_neg double] at clear ⊢
        have triple : b < 12 + layout.pointers + layout.pointers * layout.pointers +
            layout.pointers * layout.pointers * layout.pointers := inside
        rw [if_pos triple]
        exact resolveTriple_clear coherent (by omega) clear

def Lasting (layout : Layout) (faults : Faults) : Prop :=
  ∀ block, Open layout faults block ∨ Shut layout faults block

theorem Lasting.shut (lasting : Lasting layout faults)
    (closed : ¬ (ptr ≠ 0 → Open layout faults ptr)) : ptr ≠ 0 ∧ Shut layout faults ptr := by
  rw [Classical.not_imp] at closed
  exact ⟨closed.1, (lasting ptr).resolve_left closed.2⟩

section
variable (coherent : Coherent layout faults bytes inode cache)
include coherent

theorem Coherent.leaf_other (real : ptr ≠ 0)
    (shut : Shut layout faults ptr) : cache.leafBlockNum ≠ some ptr :=
  fun same => (coherent.leaf ptr same).read real shut

theorem Coherent.mid_other (real : ptr ≠ 0)
    (shut : Shut layout faults ptr) : cache.midBlockNum ≠ some ptr :=
  fun same => (coherent.mid ptr same).read real shut

theorem Coherent.double_unloaded (real : inode.doubleIndirectBlock ≠ 0)
    (shut : Shut layout faults inode.doubleIndirectBlock) : cache.doubleTopLoaded = false := by
  rw [← Bool.not_eq_true]
  exact fun loaded => (coherent.doubleTop loaded).read real shut

theorem Coherent.triple_unloaded (real : inode.tripleIndirectBlock ≠ 0)
    (shut : Shut layout faults inode.tripleIndirectBlock) : cache.tripleTopLoaded = false := by
  rw [← Bool.not_eq_true]
  exact fun loaded => (coherent.tripleTop loaded).read real shut

end
/-- A leaf that cannot be read counts as a hole, and spoils only the leaf's buffer. -/
theorem ext2ResolveLeaf_shut {ptr : Nat} (bytes : Buf) (index : Nat) (real : ptr ≠ 0)
    (shut : Shut layout faults ptr) (other : cache.leafBlockNum ≠ some ptr) :
    ∃ leaf op, ext2ResolveLeaf layout faults bytes ptr index cache =
      (0, { cache with leaf := leaf, op := op }) := by
  obtain ⟨failed, same⟩ := @loadLeaf_shut layout faults bytes cache ptr real shut other
  have zero : (ext2ResolveLeaf layout faults bytes ptr index cache).1 = 0 := by
    simp [ext2ResolveLeaf, failed]
  exact ⟨_, _, Prod.ext zero same⟩

/-- The resolver says that there is a hole, and says so again when asked once more,
whatever has been read in between. -/
def SaysHole (resolve : BlockCache → Nat × BlockCache) (cache : BlockCache) : Prop :=
  (resolve cache).1 = 0 ∧ ∀ op, (resolve { (resolve cache).2 with op := op }).1 = 0

theorem resolveLeaf_lost (bytes : Buf) (index : Nat) (real : ptr ≠ 0)
    (shut : Shut layout faults ptr) (other : cache.leafBlockNum ≠ some ptr) :
    SaysHole (ext2ResolveLeaf layout faults bytes ptr index) cache := by
  obtain ⟨leaf, op, first⟩ := ext2ResolveLeaf_shut bytes index real shut other
  refine ⟨by rw [first], fun later => ?_⟩
  obtain ⟨_, _, second⟩ := @ext2ResolveLeaf_shut layout faults
    { cache with leaf := leaf, op := later } ptr bytes index real shut other
  rw [first, second]

theorem resolveDouble_held (loaded : cache.doubleTopLoaded = true) :
    resolveDouble layout faults bytes inode idx cache =
      ext2ResolveLeaf layout faults bytes (word cache.doubleTop (idx / layout.pointers))
        (idx % layout.pointers) cache := by
  unfold resolveDouble
  rw [loadDoubleTop_held loaded]
  rfl

theorem resolveDouble_lost (lasting : Lasting layout faults)
    (coherent : Coherent layout faults bytes inode cache)
    (inside : idx < layout.pointers * layout.pointers)
    (lost : ¬ Clear layout faults bytes inode 13 [idx % layout.pointers,
      idx / layout.pointers]) : SaysHole (resolveDouble layout faults bytes inode idx) cache := by
  by_cases opens : inode.doubleIndirectBlock ≠ 0 → Open layout faults inode.doubleIndirectBlock
  · obtain ⟨ok, holds, loaded, kept⟩ := loadDoubleTop_open coherent opens
    obtain ⟨real, shut⟩ := lasting.shut fun leaf => lost ⟨⟨trivial, opens⟩, leaf⟩
    have found : nodeOf layout bytes inode 13 [idx / layout.pointers] = word _ _ :=
      (holds.words _ (Nat.div_lt_of_lt_mul inside)).symm
    rw [found] at real shut
    have leaf := resolveLeaf_lost bytes (idx % layout.pointers) real shut
      (kept.leaf_other real shut)
    have enter : resolveDouble layout faults bytes inode idx cache =
        ext2ResolveLeaf layout faults bytes _ (idx % layout.pointers) _ := if_pos ok
    refine ⟨by rw [enter]; exact leaf.1, fun op => ?_⟩
    -- The second time the top is there, and only the leaf's buffer is another.
    rw [enter, resolveDouble_held]
    · exact leaf.2 op
    · exact loaded
  · obtain ⟨real, shut⟩ := lasting.shut opens
    obtain ⟨failed, unloaded⟩ := @loadDoubleTop_shut layout faults bytes cache _ real shut
      (coherent.double_unloaded real shut)
    refine ⟨by simp [resolveDouble, failed], fun op => ?_⟩
    have again := (@loadDoubleTop_shut layout faults bytes
      { (loadDoubleTop layout faults bytes inode.doubleIndirectBlock cache).2 with op := op } _
      real shut unloaded).1
    simp [resolveDouble, failed, again]

theorem resolveMid_held {midPtr rem : Nat} (held : cache.midBlockNum = some midPtr) :
    resolveMid layout faults bytes midPtr rem cache =
      ext2ResolveLeaf layout faults bytes (word cache.mid (rem / layout.pointers))
        (rem % layout.pointers) cache := by
  unfold resolveMid
  rw [loadMid_held held]
  rfl

theorem resolveMid_lost {midPtr rem : Nat} (lasting : Lasting layout faults)
    (coherent : Coherent layout faults bytes inode cache)
    (inside : rem < layout.pointers * layout.pointers)
    (lost : ¬ ((midPtr ≠ 0 → Open layout faults midPtr) ∧
      (follow (entries layout bytes) midPtr (rem / layout.pointers) ≠ 0 →
        Open layout faults (follow (entries layout bytes) midPtr (rem / layout.pointers))))) :
    SaysHole (resolveMid layout faults bytes midPtr rem) cache := by
  by_cases opens : midPtr ≠ 0 → Open layout faults midPtr
  · obtain ⟨ok, holds, kept⟩ := loadMid_open coherent opens
    obtain ⟨real, shut⟩ := lasting.shut fun leaf => lost ⟨opens, leaf⟩
    rw [← holds.words _ (Nat.div_lt_of_lt_mul inside)] at real shut
    have leaf := resolveLeaf_lost bytes (rem % layout.pointers) real shut
      (kept.leaf_other real shut)
    have enter : resolveMid layout faults bytes midPtr rem cache =
        ext2ResolveLeaf layout faults bytes _ (rem % layout.pointers) _ := if_pos ok
    have named : (loadMid layout faults bytes midPtr cache).2.midBlockNum = some midPtr := by
      simp [loadMid] at ok ⊢
      simp [ok]
    refine ⟨by rw [enter]; exact leaf.1, fun op => ?_⟩
    rw [enter, resolveMid_held]
    · exact leaf.2 op
    · exact named
  · obtain ⟨real, shut⟩ := lasting.shut opens
    obtain ⟨failed, same⟩ := @loadMid_shut layout faults bytes cache _ real shut
      (coherent.mid_other real shut)
    have other : (loadMid layout faults bytes midPtr cache).2.midBlockNum ≠ some midPtr := by
      rw [same]
      exact coherent.mid_other real shut
    refine ⟨by simp [resolveMid, failed], fun op => ?_⟩
    have again := (@loadMid_shut layout faults bytes
      { (loadMid layout faults bytes midPtr cache).2 with op := op } _ real shut other).1
    simp [resolveMid, failed, again]

theorem resolveTriple_held (loaded : cache.tripleTopLoaded = true) :
    resolveTriple layout faults bytes inode idx cache =
      resolveMid layout faults bytes
        (word cache.tripleTop (idx / (layout.pointers * layout.pointers)))
        (idx % (layout.pointers * layout.pointers)) cache := by
  unfold resolveTriple
  rw [loadTripleTop_held loaded]
  rfl

theorem resolveMid_tripleTop (midPtr rem : Nat) :
    (resolveMid layout faults bytes midPtr rem cache).2.tripleTop = cache.tripleTop ∧
      (resolveMid layout faults bytes midPtr rem cache).2.tripleTopLoaded =
        cache.tripleTopLoaded := by
  unfold resolveMid
  dsimp only
  split <;> exact ⟨rfl, rfl⟩

theorem resolveTriple_lost (lasting : Lasting layout faults)
    (coherent : Coherent layout faults bytes inode cache)
    (inside : idx < layout.pointers * layout.pointers * layout.pointers)
    (lost : ¬ Clear layout faults bytes inode 14 [idx % layout.pointers,
      idx / layout.pointers % layout.pointers, idx / (layout.pointers * layout.pointers)]) :
    SaysHole (resolveTriple layout faults bytes inode idx) cache := by
  have pos := layout.pointers_pos
  by_cases opens : inode.tripleIndirectBlock ≠ 0 → Open layout faults inode.tripleIndirectBlock
  · obtain ⟨ok, holds, loaded, kept⟩ := loadTripleTop_open coherent opens
    have small : idx % (layout.pointers * layout.pointers) <
        layout.pointers * layout.pointers := Nat.mod_lt _ (Nat.mul_pos pos pos)
    have mid := @resolveMid_lost layout faults bytes inode _
      (word (loadTripleTop layout faults bytes inode.tripleIndirectBlock cache).2.tripleTop
        (idx / (layout.pointers * layout.pointers))) _ lasting kept small (by
          rw [holds.words _ (Nat.div_lt_of_lt_mul inside), (rem_split layout.pointers idx).1]
          exact fun clear => lost ⟨⟨⟨trivial, opens⟩, clear.1⟩, clear.2⟩)
    have enter : resolveTriple layout faults bytes inode idx cache =
        resolveMid layout faults bytes _ _ _ := if_pos ok
    refine ⟨by rw [enter]; exact mid.1, fun op => ?_⟩
    obtain ⟨top, still⟩ := @resolveMid_tripleTop layout faults bytes
      (loadTripleTop layout faults bytes inode.tripleIndirectBlock cache).2
      (word (loadTripleTop layout faults bytes inode.tripleIndirectBlock cache).2.tripleTop
        (idx / (layout.pointers * layout.pointers))) (idx % (layout.pointers * layout.pointers))
    have same := congrArg (fun buf => word buf (idx / (layout.pointers * layout.pointers))) top
    rw [enter, resolveTriple_held]
    · rw [same]
      exact mid.2 op
    · exact still.trans loaded
  · obtain ⟨real, shut⟩ := lasting.shut opens
    obtain ⟨failed, unloaded⟩ := @loadTripleTop_shut layout faults bytes cache _ real shut
      (coherent.triple_unloaded real shut)
    refine ⟨by simp [resolveTriple, failed], fun op => ?_⟩
    have again := (@loadTripleTop_shut layout faults bytes
      { (loadTripleTop layout faults bytes inode.tripleIndirectBlock cache).2 with op := op } _
      real shut unloaded).1
    simp [resolveTriple, failed, again]

/-- Where a pointer block on the way cannot be read the resolver says that there is a
hole, and says so again when asked once more. -/
theorem ext2ResolveBlock_lost (lasting : Lasting layout faults)
    (coherent : Coherent layout faults bytes inode cache) (inside : b < layout.reach)
    (lost : ¬ ClearBlock layout faults bytes inode b) :
    SaysHole (ext2ResolveBlock layout faults bytes inode b) cache := by
  unfold ClearBlock placeOf at lost
  by_cases direct : b < 12
  · simp only [if_pos direct] at lost
    exact absurd trivial lost
  · simp only [if_neg direct] at lost
    unfold ext2ResolveBlock
    simp only [if_neg direct]
    by_cases single : b < 12 + layout.pointers
    · simp only [if_pos single] at lost ⊢
      obtain ⟨real, shut⟩ := lasting.shut fun opens => lost ⟨trivial, opens⟩
      exact resolveLeaf_lost bytes _ real shut (coherent.leaf_other real shut)
    · simp only [if_neg single] at lost ⊢
      by_cases double : b < 12 + layout.pointers + layout.pointers * layout.pointers
      · simp only [if_pos double] at lost ⊢
        exact resolveDouble_lost lasting coherent (by omega) lost
      · simp only [if_neg double] at lost ⊢
        have triple : b < 12 + layout.pointers + layout.pointers * layout.pointers +
            layout.pointers * layout.pointers * layout.pointers := inside
        simp only [if_pos triple]
        exact resolveTriple_lost lasting coherent (by omega) lost

section Directories
variable {op : Nat} {buf : Buf}

theorem dirEntry_open {table index : Nat} (opens : table ≠ 0 → Open layout faults table)
    (inside : index < layout.pointers) :
    (dirEntry layout faults bytes table index op buf).1 =
      follow (entries layout bytes) table index := by
  unfold dirEntry
  split
  · next zero => rw [zero, follow_zero]
  · next real =>
      have read : (ext2ReadBlock layout faults bytes op table buf).1 = true := opens real op
      rw [follow_of_ne real]
      dsimp only
      rw [if_pos read]
      exact ext2ReadBlock_words read inside

theorem dirEntry_shut {table : Nat} (index : Nat) (shut : Shut layout faults table) :
    (dirEntry layout faults bytes table index op buf).1 = 0 := by
  have failed : (ext2ReadBlock layout faults bytes op table buf).1 = false := shut op
  unfold dirEntry
  split
  · rfl
  · simp [failed]

def Layout.dirReach (layout : Layout) : Nat :=
  12 + layout.pointers + layout.pointers * layout.pointers

theorem ext2DirBlock_clear {b : Nat} (inside : b < layout.dirReach)
    (clear : ClearBlock layout faults bytes inode b) :
    (ext2DirBlock layout faults bytes inode b op buf).1 = blockOf layout bytes inode b := by
  have pos := layout.pointers_pos
  unfold Layout.dirReach at inside
  unfold ClearBlock placeOf at clear
  unfold ext2DirBlock blockOf placeOf
  by_cases direct : b < 12
  · simp [direct, nodeOf, node, InodeInfo.root]
  · simp only [if_neg direct] at clear ⊢
    by_cases single : b < 12 + layout.pointers
    · simp only [if_pos single] at clear ⊢
      exact dirEntry_open clear.2 (by omega)
    · simp only [if_neg single, if_pos inside] at clear ⊢
      have high : (b - (12 + layout.pointers)) / layout.pointers < layout.pointers :=
        Nat.div_lt_of_lt_mul (by omega)
      have opens : inode.doubleIndirectBlock ≠ 0 →
          Open layout faults inode.doubleIndirectBlock := clear.1.2
      rw [dirEntry_open opens high]
      exact dirEntry_open clear.2 (Nat.mod_lt _ pos)

theorem ext2DirBlock_lost (lasting : Lasting layout faults) (inside : b < layout.dirReach)
    (lost : ¬ ClearBlock layout faults bytes inode b) :
    (ext2DirBlock layout faults bytes inode b op buf).1 = 0 := by
  unfold Layout.dirReach at inside
  unfold ClearBlock placeOf at lost
  unfold ext2DirBlock
  by_cases direct : b < 12
  · simp only [if_pos direct] at lost
    exact absurd trivial lost
  · simp only [if_neg direct] at lost ⊢
    by_cases single : b < 12 + layout.pointers
    · simp only [if_pos single] at lost ⊢
      exact dirEntry_shut _ (lasting.shut fun opens => lost ⟨trivial, opens⟩).2
    · simp only [if_neg single, if_pos inside] at lost ⊢
      have high : (b - (12 + layout.pointers)) / layout.pointers < layout.pointers :=
        Nat.div_lt_of_lt_mul (by omega)
      by_cases opens : inode.doubleIndirectBlock ≠ 0 →
          Open layout faults inode.doubleIndirectBlock
      · rw [dirEntry_open opens high]
        exact dirEntry_shut _ (lasting.shut fun leaf => lost ⟨⟨trivial, opens⟩, leaf⟩).2
      · rw [dirEntry_shut _ (lasting.shut opens).2]
        rfl

theorem ext2DirBlock_past (past : layout.dirReach ≤ b) :
    (ext2DirBlock layout faults bytes inode b op buf).1 = 0 := by
  unfold Layout.dirReach at past
  unfold ext2DirBlock
  rw [if_neg (by omega), if_neg (by omega), if_neg (by omega)]

end Directories

theorem open_noFaults (block : Nat) : Open layout noFaults block := by
  intro op
  simp [readable, noFaults]

theorem clear_noFaults (slot : Nat) (path : List Nat) :
    Clear layout noFaults bytes inode slot path := by
  induction path with
  | nil => trivial
  | cons _ _ ih => exact ⟨ih, fun _ => open_noFaults _⟩

/-- What `ext2_resolve_block` returns at the start of a request. -/
def resolved (layout : Layout) (bytes : Buf) (inode : InodeInfo) (junk : Buf) (b : Nat) : Nat :=
  (ext2ResolveBlock layout noFaults bytes inode b (.fresh junk 0)).1

theorem resolved_eq (junk : Buf) (inside : b < layout.reach) :
    resolved layout bytes inode junk b = blockOf layout bytes inode b :=
  (ext2ResolveBlock_clear (.fresh junk 0) inside (clear_noFaults _ _)).1

end Racccoon.Ext2.Blocks
