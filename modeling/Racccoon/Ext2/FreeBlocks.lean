import Mathlib.Data.List.Perm.Basic
import Racccoon.Ext2.BlockMap

/-!
Giving the blocks of a file back. `ext2_free_data_and_indirect` walks the trees of the
inode's pointers, the blocks under a pointer block before the block itself, and clears a
bit of the block bitmap for each. It does not look at `i_blocks`, so the counts agree with
the field exactly when the field counts the map. A directory that runs out of blocks while
it grows loses that.
-/

namespace Racccoon.Ext2.Blocks

open Words PointerTree
open Bitmaps (Used Through effective)

def ext2FreeBlock (layout : Layout) (block : Nat) (work : Work) : Bool × Work :=
  let freed := Bitmaps.freeBlock layout.toGeometry work.bm block
  (freed.1, { work with bm := freed.2 })

/-- A loop over pointers: an empty one is skipped, the first that fails ends it. -/
def freeEntries (free : Nat → Work → Bool × Work) : List Nat → Work → Bool × Work
  | [], work => (true, work)
  | ptr :: rest, work =>
    if ptr = 0 then freeEntries free rest work
    else
      let freed := free ptr work
      if freed.1 then freeEntries free rest freed.2 else (false, freed.2)

section Freeing
variable (layout : Layout) (faults : Faults) (junk : Buf)

/-- A block under `depth` levels of pointers, itself last. The source writes the three
depths out, each with buffers of its own. -/
def freeTree : Nat → Nat → Work → Bool × Work
  | 0, block, work => ext2FreeBlock layout block work
  | depth + 1, block, work =>
    let read := work.readBlock layout faults block junk
    if read.1.1 then
      let below := freeEntries (freeTree depth)
        ((List.range layout.pointers).map (word read.1.2)) read.2
      if below.1 then ext2FreeBlock layout block below.2 else (false, below.2)
    else (false, read.2)

def ext2FreeDataAndIndirect (work : Work) : Bool × Work :=
  let inode := work.inode
  let direct := freeEntries (freeTree layout faults junk 0) ((List.range 12).map inode.block) work
  if direct.1 then
    let single := freeEntries (freeTree layout faults junk 1) [inode.indirectBlock] direct.2
    if single.1 then
      let double :=
        freeEntries (freeTree layout faults junk 2) [inode.doubleIndirectBlock] single.2
      if double.1 then
        freeEntries (freeTree layout faults junk 3) [inode.tripleIndirectBlock] double.2
      else (false, double.2)
    else (false, single.2)
  else (false, direct.2)

end Freeing

variable {layout : Layout} {faults : Faults} {junk : Buf} {work before mid after : Work}
variable {order more : List Nat} {slot : Nat} {path : List Nat}

def freeAll (layout : Layout) (order : List Nat) (bm : Bitmaps.Driver) : Bitmaps.Driver :=
  order.foldl (fun bm block => (Bitmaps.freeBlock layout.toGeometry bm block).2) bm

structure Frees (layout : Layout) (order : List Nat) (before after : Work) : Prop where
  bm : after.bm = freeAll layout order before.bm
  bytes : after.bytes = before.bytes
  inode : after.inode = before.inode

theorem Frees.nothing (bm : after.bm = before.bm) (bytes : after.bytes = before.bytes)
    (inode : after.inode = before.inode) : Frees layout [] before after :=
  ⟨bm, bytes, inode⟩

theorem Frees.trans (first : Frees layout order before mid) (second : Frees layout more mid after) :
    Frees layout (order ++ more) before after := by
  refine ⟨?_, second.bytes.trans first.bytes, second.inode.trans first.inode⟩
  rw [second.bm, first.bm, freeAll, freeAll, freeAll, List.foldl_append]

theorem Frees.later (op : Nat) (frees : Frees layout order { work with op := op } after) :
    Frees layout order work after :=
  ⟨frees.bm, frees.bytes, frees.inode⟩

theorem freeBlock_frees (block : Nat) :
    Frees layout [block] work (ext2FreeBlock layout block work).2 :=
  ⟨rfl, rfl, rfl⟩

/-- What is freed under each pointer of a loop, if all frees succeed. -/
theorem freeEntries_frees {free : Nat → Work → Bool × Work} {pointer : Nat → Nat}
    {below : Nat → List Nat} (indices : List Nat)
    (empty : ∀ index ∈ indices, pointer index = 0 → below index = [])
    (each : ∀ index ∈ indices, pointer index ≠ 0 → ∀ start, start.bytes = work.bytes →
      (free (pointer index) start).1 = true →
        Frees layout (below index) start (free (pointer index) start).2)
    (done : (freeEntries free (indices.map pointer) work).1 = true) :
    Frees layout (indices.flatMap below) work
      (freeEntries free (indices.map pointer) work).2 := by
  induction indices generalizing work with
  | nil => exact .nothing rfl rfl rfl
  | cons index rest ih =>
    rw [List.flatMap_cons]
    rw [List.map_cons, freeEntries] at done ⊢
    have emptyRest := fun other member => empty other (List.mem_cons_of_mem _ member)
    have eachRest := fun other member => each other (List.mem_cons_of_mem _ member)
    split at done
    · next none =>
        rw [if_pos none, empty index List.mem_cons_self none]
        exact ih emptyRest eachRest done
    · next real =>
        rw [if_neg real]
        dsimp only at done ⊢
        split at done
        · next ok =>
            rw [if_pos ok]
            have first := each index List.mem_cons_self real work rfl ok
            refine first.trans (ih emptyRest ?_ done)
            intro other member there start same
            exact eachRest other member there start (same.trans first.bytes)
        · cases done

def blocksUnder (layout : Layout) (work : Work) (slot levels : Nat) (path : List Nat) : List Nat :=
  (walk layout.pointers work.inode.root (entries layout work.bytes) slot levels path).map
    (nodeOf layout work.bytes work.inode slot)

theorem blocksUnder_empty {levels : Nat} (none : work.node layout slot path = 0) :
    blocksUnder layout work slot levels path = [] := by
  rw [blocksUnder, walk_empty none, List.map_nil]

theorem blocksUnder_succ {levels : Nat} (real : work.node layout slot path ≠ 0) :
    blocksUnder layout work slot (levels + 1) path =
      (List.range layout.pointers).flatMap
        (fun index => blocksUnder layout work slot levels (index :: path)) ++
          [work.node layout slot path] := by
  rw [blocksUnder, walk_succ real, List.map_append, List.map_flatMap]
  rfl

theorem freeTree_frees {levels : Nat} {start : Work} (real : work.node layout slot path ≠ 0)
    (same : start.bytes = work.bytes)
    (done : (freeTree layout faults junk levels (work.node layout slot path) start).1 = true) :
    Frees layout (blocksUnder layout work slot levels path) start
      (freeTree layout faults junk levels (work.node layout slot path) start).2 := by
  induction levels generalizing path start with
  | zero =>
    rw [blocksUnder, walk_zero real]
    exact freeBlock_frees _
  | succ levels ih =>
    rw [freeTree] at done ⊢
    dsimp only at done ⊢
    split at done
    · next read =>
        rw [if_pos read]
        have pointers : (List.range layout.pointers).map
            (word (start.readBlock layout faults (work.node layout slot path) junk).1.2) =
            (List.range layout.pointers).map
              (fun index => work.node layout slot (index :: path)) := by
          refine List.map_congr_left fun index member => ?_
          rw [readBlock_words read index (List.mem_range.mp member), same]
          exact (follow_of_ne real index).symm
        rw [pointers] at done ⊢
        split at done
        · next below =>
            rw [if_pos below, blocksUnder_succ real]
            refine Frees.trans (.later (start.op + 1) ?_) (freeBlock_frees _)
            refine freeEntries_frees (List.range layout.pointers) ?_ ?_ below
            · exact fun _ _ none => blocksUnder_empty none
            · intro index _ there later kept ok
              exact ih there (kept.trans same) ok
        · cases done
    · cases done

def mapBlocks (layout : Layout) (work : Work) : List Nat :=
  (List.range 15).flatMap (numbers (shape layout) work.inode.root (entries layout work.bytes))

theorem numbers_eq {levels : Nat} (deep : (shape layout).depth slot = levels) :
    numbers (shape layout) work.inode.root (entries layout work.bytes) slot =
      blocksUnder layout work slot levels [] := by
  rw [numbers, deep]
  rfl

/-- One of the trees behind the direct pointers. -/
theorem freeSlot_frees {levels : Nat} {start : Work} (deep : (shape layout).depth slot = levels)
    (same : start.bytes = work.bytes)
    (done : (freeEntries (freeTree layout faults junk levels) [work.inode.root slot] start).1 =
      true) :
    Frees layout (numbers (shape layout) work.inode.root (entries layout work.bytes) slot) start
      (freeEntries (freeTree layout faults junk levels) [work.inode.root slot] start).2 := by
  have frees := @freeEntries_frees layout start (freeTree layout faults junk levels)
    work.inode.root (fun slot => blocksUnder layout work slot levels []) [slot] ?_ ?_ done
  · rwa [List.flatMap_singleton, ← numbers_eq deep] at frees
  · exact fun index _ none => @blocksUnder_empty layout work index [] levels none
  · intro index _ there later kept ok
    exact freeTree_frees there (kept.trans same) ok

theorem freeDataAndIndirect_frees
    (done : (ext2FreeDataAndIndirect layout faults junk work).1 = true) :
    Frees layout (mapBlocks layout work) work
      (ext2FreeDataAndIndirect layout faults junk work).2 := by
  have slots : List.range 15 = List.range 12 ++ [12] ++ [13] ++ [14] := by decide
  rw [mapBlocks, slots, List.flatMap_append, List.flatMap_append, List.flatMap_append]
  unfold ext2FreeDataAndIndirect at done ⊢
  dsimp only at done ⊢
  split at done
  · next first =>
      rw [if_pos first]
      have blocks := @freeEntries_frees layout work (freeTree layout faults junk 0)
        work.inode.root (numbers (shape layout) work.inode.root (entries layout work.bytes))
        (List.range 12) ?_ ?_ first
      · split at done
        · next second =>
            rw [if_pos second]
            have single := @freeSlot_frees layout faults junk work 12 1 _ rfl blocks.bytes second
            split at done
            · next third =>
                rw [if_pos third]
                have double := @freeSlot_frees layout faults junk work 13 2 _ rfl
                  (single.bytes.trans blocks.bytes) third
                have triple := @freeSlot_frees layout faults junk work 14 3 _ rfl
                  (double.bytes.trans (single.bytes.trans blocks.bytes)) done
                simp only [List.flatMap_singleton]
                exact ((blocks.trans single).trans double).trans triple
            · cases done
        · cases done
      · intro slot _ none
        exact @blocksUnder_empty layout work slot [] _ none
      · intro slot member there later kept ok
        have small := List.mem_range.mp member
        have flat : (shape layout).depth slot = 0 := by
          simp only [shape]
          rw [if_neg (by omega), if_neg (by omega), if_neg (by omega)]
        rw [numbers_eq flat]
        exact @freeTree_frees layout faults junk work slot [] 0 later there kept ok
  · cases done

/-- The group and the bit of a block of the volume. -/
theorem AllocatedIn.bit {bitmaps : Nat → Bitmaps.Bytes} {block : Nat}
    (allocated : AllocatedIn layout bitmaps block) :
    Bitmaps.groupOf layout.toGeometry block < layout.groupCount ∧
      Bitmaps.bitOf layout.toGeometry block < layout.blocksPerGroup ∧
      block = layout.firstDataBlock + Bitmaps.groupOf layout.toGeometry block *
        layout.blocksPerGroup + Bitmaps.bitOf layout.toGeometry block ∧
      Used bitmaps (Bitmaps.groupOf layout.toGeometry block)
        (Bitmaps.bitOf layout.toGeometry block) := by
  have small := allocated.small
  obtain ⟨group, bit, inGroup, inBit, rfl, used⟩ := allocated
  have relative : Bitmaps.minus (layout.firstDataBlock + group * layout.blocksPerGroup + bit)
      layout.firstDataBlock = layout.blocksPerGroup * group + bit := by
    rw [Nat.mul_comm layout.blocksPerGroup]
    unfold Bitmaps.minus
    omega
  have groups : Bitmaps.groupOf layout.toGeometry
      (layout.firstDataBlock + group * layout.blocksPerGroup + bit) = group := by
    rw [Bitmaps.groupOf, relative, Nat.mul_add_div (by omega), Nat.div_eq_of_lt inBit,
      Nat.add_zero]
  have bits : Bitmaps.bitOf layout.toGeometry
      (layout.firstDataBlock + group * layout.blocksPerGroup + bit) = bit := by
    rw [Bitmaps.bitOf, relative, Nat.mul_add_mod, Nat.mod_eq_of_lt inBit]
  rw [groups, bits]
  exact ⟨inGroup, inBit, rfl, used⟩

structure Cleared (layout : Layout) (block : Nat) (before after : Bitmaps.Driver) : Prop where
  sound : Bitmaps.Sound layout.toGeometry after
  bits : ∀ other, AllocatedIn layout (effective after).blockBitmap other ↔
    AllocatedIn layout (effective before).blockBitmap other ∧ other ≠ block
  total : (effective after).freeBlocks = (effective before).freeBlocks + 1
  groups : ∀ group, (effective after).groupFreeBlocks group =
    (effective before).groupFreeBlocks group +
      if group = Bitmaps.groupOf layout.toGeometry block then 1 else 0

theorem freeBlock_cleared {bm : Bitmaps.Driver} {block : Nat}
    (sound : Bitmaps.Sound layout.toGeometry bm)
    (allocated : AllocatedIn layout (effective bm).blockBitmap block) :
    (Bitmaps.freeBlock layout.toGeometry bm block).1 = true ∧
      Cleared layout block bm (Bitmaps.freeBlock layout.toGeometry bm block).2 := by
  obtain ⟨inGroup, inBit, same, used⟩ := allocated.bit
  obtain ⟨ok, refines⟩ := Bitmaps.freeBlock_refines
    ⟨effective bm, bm.blockGroupHint, bm.inodeGroupHint⟩ ⟨sound, rfl, rfl, rfl⟩ block
  have disk := refines.disk
  have kept := refines.sound
  rw [ok]
  have set := used
  rw [Used] at set
  simp only [Through.freeBlock_eq, if_neg (Nat.not_le.mpr inGroup), if_pos set] at disk ⊢
  refine ⟨trivial, kept, fun other => ?_, ?_, fun group => ?_⟩
  · rw [← disk]
    constructor
    · rintro ⟨group, bit, inside, small, rfl, held⟩
      simp only [Used, Bitmaps.Disk.giveBlock] at held
      by_cases here : group = Bitmaps.groupOf layout.toGeometry block
      · subst here
        rw [Function.update_self, Bitmap.test_remove (by decide)] at held
        simp only [Bool.and_eq_true, Bool.not_eq_true', decide_eq_false_iff_not] at held
        exact ⟨⟨_, bit, inside, small, rfl, held.2⟩, fun equal => held.1 (by omega)⟩
      · rw [Function.update_of_ne here] at held
        refine ⟨⟨group, bit, inside, small, rfl, held⟩, fun equal => here ?_⟩
        exact (split_unique small inBit (by omega)).1
    · rintro ⟨⟨group, bit, inside, small, rfl, held⟩, apart⟩
      refine ⟨group, bit, inside, small, rfl, ?_⟩
      simp only [Used, Bitmaps.Disk.giveBlock]
      by_cases here : group = Bitmaps.groupOf layout.toGeometry block
      · subst here
        rw [Function.update_self, Bitmap.test_remove (by decide)]
        have other : bit ≠ Bitmaps.bitOf layout.toGeometry block := by
          rintro rfl
          exact apart same.symm
        rw [Used] at held
        simpa [other] using held
      · rwa [Function.update_of_ne here]
  · rw [← disk]
    rfl
  · rw [← disk]
    simp only [Bitmaps.Disk.giveBlock]
    by_cases here : group = Bitmaps.groupOf layout.toGeometry block
    · rw [if_pos here, here, Function.update_self]
    · rw [if_neg here, Function.update_of_ne here]
      exact (BitVec.add_zero _).symm

/-- A list of different blocks of the volume is free afterwards, and counted. -/
theorem freeAll_cleared (order : List Nat) (bm : Bitmaps.Driver)
    (sound : Bitmaps.Sound layout.toGeometry bm) (nodup : order.Nodup)
    (allocated : ∀ block ∈ order, AllocatedIn layout (effective bm).blockBitmap block) :
    (∀ block, AllocatedIn layout (effective (freeAll layout order bm)).blockBitmap block ↔
        AllocatedIn layout (effective bm).blockBitmap block ∧ block ∉ order) ∧
      (effective (freeAll layout order bm)).freeBlocks =
        (effective bm).freeBlocks + BitVec.ofNat 32 order.length ∧
      ∀ group, (effective (freeAll layout order bm)).groupFreeBlocks group =
        (effective bm).groupFreeBlocks group +
          BitVec.ofNat 16 (order.countP fun block =>
            group = Bitmaps.groupOf layout.toGeometry block) := by
  induction order generalizing bm with
  | nil => exact ⟨fun _ => by simp [freeAll], by simp [freeAll], fun _ => by simp [freeAll]⟩
  | cons block rest ih =>
    obtain ⟨fresh, nodup⟩ := List.nodup_cons.mp nodup
    obtain ⟨_, cleared⟩ := freeBlock_cleared sound (allocated block List.mem_cons_self)
    have later : ∀ other ∈ rest, AllocatedIn layout (effective
        (Bitmaps.freeBlock layout.toGeometry bm block).2).blockBitmap other := by
      intro other member
      refine (cleared.bits other).mpr ⟨allocated other (List.mem_cons_of_mem _ member), ?_⟩
      rintro rfl
      exact fresh member
    obtain ⟨bits, total, groups⟩ := ih _ cleared.sound nodup later
    change (∀ other, AllocatedIn layout (effective (freeAll layout rest
      (Bitmaps.freeBlock layout.toGeometry bm block).2)).blockBitmap other ↔ _) ∧
      (effective (freeAll layout rest (Bitmaps.freeBlock layout.toGeometry bm block).2)).freeBlocks
        = _ ∧ ∀ group, (effective (freeAll layout rest
          (Bitmaps.freeBlock layout.toGeometry bm block).2)).groupFreeBlocks group = _
    refine ⟨fun other => ?_, ?_, fun group => ?_⟩
    · rw [bits, cleared.bits, List.mem_cons, not_or, and_assoc]
    · rw [total, cleared.total, List.length_cons, BitVec.ofNat_add, BitVec.add_assoc,
        BitVec.add_comm (BitVec.ofNat 32 rest.length)]
      rfl
    · rw [groups, cleared.groups, List.countP_cons, BitVec.ofNat_add, BitVec.add_assoc,
        BitVec.add_comm (BitVec.ofNat 16 _)]
      by_cases here : group = Bitmaps.groupOf layout.toGeometry block
      · simp [here]
      · simp [here]

theorem mem_mapBlocks {block : Nat} : block ∈ mapBlocks layout work ↔ InMap layout work block := by
  simp only [mapBlocks, List.mem_flatMap, List.mem_range, mem_numbers]
  constructor
  · rintro ⟨slot, _, path, valid, real, rfl⟩
    exact ⟨real, slot, path, valid, rfl⟩
  · rintro ⟨real, slot, path, valid, rfl⟩
    refine ⟨slot, ?_, path, valid, real, rfl⟩
    -- there is no pointer beyond the last tree
    by_contra beyond
    have none : work.node layout slot [] = 0 := by
      simp only [nodeOf, node, InodeInfo.root]
      rw [if_neg (by omega), if_neg (by omega), if_neg (by omega), if_neg (by omega)]
    exact node_of_suffix List.nil_suffix real none

theorem Good.mapBlocks_nodup (good : Good layout work) : (mapBlocks layout work).Nodup :=
  numbers_nodup good.separated _ List.nodup_range

/-- Freeing the file clears each block of its map once and no other, and raises the free
counts, in the groups and in all, by what `i_blocks` accounts for. -/
structure FreesExactly (layout : Layout) (before after : Work) : Prop where
  once : ∃ order : List Nat, order.Nodup ∧ (∀ block, block ∈ order ↔ InMap layout before block) ∧
    after.bm = freeAll layout order before.bm ∧
    ∀ group, (effective after.bm).groupFreeBlocks group =
      (effective before.bm).groupFreeBlocks group + BitVec.ofNat 16 (order.countP fun block =>
        group = Bitmaps.groupOf layout.toGeometry block)
  bits : ∀ block, Allocated layout after block ↔
    Allocated layout before block ∧ ¬ InMap layout before block
  total : ∃ count, count * layout.sectorsPerBlock = before.inode.blocks ∧ count < 2 ^ 32 ∧
    (effective after.bm).freeBlocks = (effective before.bm).freeBlocks + BitVec.ofNat 32 count

/-- `i_blocks` counts the sectors of all blocks of the map. -/
def CountsMap (layout : Layout) (work : Work) : Prop :=
  ∃ order : List Nat, order.Nodup ∧ (∀ block, block ∈ order ↔ InMap layout work block) ∧
    order.length * layout.sectorsPerBlock = work.inode.blocks

theorem length_lt_of_small (nodup : order.Nodup)
    (small : ∀ block ∈ order, block ≠ 0 ∧ block < 2 ^ 32) : order.length < 2 ^ 32 := by
  have subset : order ⊆ List.range' 1 (2 ^ 32 - 1) := by
    intro block member
    obtain ⟨real, below⟩ := small block member
    exact List.mem_range'_1.mpr ⟨Nat.pos_of_ne_zero real, by omega⟩
  have length := (List.subperm_of_subset nodup subset).length_le
  rw [List.length_range'] at length
  omega

theorem Good.order_small (good : Good layout work)
    (members : ∀ block, block ∈ order ↔ InMap layout work block) :
    ∀ block ∈ order, block ≠ 0 ∧ block < 2 ^ 32 := by
  intro block member
  obtain ⟨real, slot, path, valid, rfl⟩ := (members block).mp member
  exact ⟨real, (good.owned slot path valid real).small⟩

theorem freeBlock_ok {bm : Bitmaps.Driver} {block : Nat}
    (inside : Bitmaps.groupOf layout.toGeometry block < layout.groupCount) :
    (Bitmaps.freeBlock layout.toGeometry bm block).1 = true := by
  unfold Bitmaps.freeBlock
  rw [if_neg (Nat.not_le.mpr inside)]
  dsimp only
  split <;> rfl

theorem freeEntries_succeeds {free : Nat → Work → Bool × Work} (pointers : List Nat)
    (each : ∀ ptr ∈ pointers, ptr ≠ 0 → ∀ start, start.bytes = work.bytes →
      (free ptr start).1 = true ∧ (free ptr start).2.bytes = start.bytes) :
    (freeEntries free pointers work).1 = true ∧
      (freeEntries free pointers work).2.bytes = work.bytes := by
  induction pointers generalizing work with
  | nil => exact ⟨rfl, rfl⟩
  | cons ptr rest ih =>
    rw [freeEntries]
    have eachRest := fun other member => each other (List.mem_cons_of_mem _ member)
    split
    · exact ih eachRest
    · next real =>
        obtain ⟨ok, same⟩ := each ptr List.mem_cons_self real work rfl
        rw [if_pos ok]
        obtain ⟨done, kept⟩ := @ih (free ptr work).2 fun other member there start bytes =>
          eachRest other member there start (bytes.trans same)
        exact ⟨done, kept.trans same⟩

theorem freeTree_succeeds {levels : Nat} {start : Work} (good : Good layout work)
    (valid : (shape layout).Valid slot path)
    (deep : path.length + levels ≤ (shape layout).depth slot)
    (real : work.node layout slot path ≠ 0) (same : start.bytes = work.bytes) :
    (freeTree layout noFaults junk levels (work.node layout slot path) start).1 = true ∧
      (freeTree layout noFaults junk levels (work.node layout slot path) start).2.bytes =
        start.bytes := by
  have inside := (good.owned slot path valid real).bit.1
  induction levels generalizing path start with
  | zero => exact ⟨freeBlock_ok inside, rfl⟩
  | succ levels ih =>
    have read : (start.readBlock layout noFaults (work.node layout slot path) junk).1.1 =
        true := by
      simp [Work.readBlock, ext2ReadBlock, fsReadSectors, readable, noFaults]
    rw [freeTree]
    rw [if_pos read]
    have below := @freeEntries_succeeds
      (start.readBlock layout noFaults (work.node layout slot path) junk).2
      (freeTree layout noFaults junk levels) ((List.range layout.pointers).map
        (word (start.readBlock layout noFaults (work.node layout slot path) junk).1.2)) ?_
    · rw [if_pos below.1]
      exact ⟨freeBlock_ok inside, below.2⟩
    · intro ptr member there later kept
      obtain ⟨index, small, rfl⟩ := List.mem_map.mp member
      have small := List.mem_range.mp small
      have follows : word (start.readBlock layout noFaults (work.node layout slot path) junk).1.2
          index = work.node layout slot (index :: path) := by
        rw [readBlock_words read index small, same]
        exact (follow_of_ne real index).symm
      rw [follows] at there ⊢
      have next : (shape layout).Valid slot (index :: path) :=
        ⟨by rw [List.length_cons]; omega, List.forall_mem_cons.mpr ⟨small, valid.inside⟩⟩
      exact ih next (by rw [List.length_cons]; omega) there (kept.trans same)
        (good.owned slot _ next there).bit.1

theorem free_succeeds (good : Good layout work) :
    (ext2FreeDataAndIndirect layout noFaults junk work).1 = true := by
  have tree : ∀ slot levels start, (shape layout).depth slot = levels →
      start.bytes = work.bytes → work.inode.root slot ≠ 0 →
      (freeTree layout noFaults junk levels (work.inode.root slot) start).1 = true ∧
        (freeTree layout noFaults junk levels (work.inode.root slot) start).2.bytes =
          start.bytes := by
    intro slot levels start deep same real
    exact @freeTree_succeeds layout junk work slot [] levels start good ⟨Nat.zero_le _, nofun⟩
      (by simp [deep]) real same
  have single : ∀ slot levels start, (shape layout).depth slot = levels →
      start.bytes = work.bytes →
      (freeEntries (freeTree layout noFaults junk levels) [work.inode.root slot] start).1 = true ∧
        (freeEntries (freeTree layout noFaults junk levels) [work.inode.root slot] start).2.bytes =
          start.bytes := by
    intro slot levels start deep same
    refine freeEntries_succeeds _ fun ptr member real later kept => ?_
    rw [List.mem_singleton.mp member] at real ⊢
    exact tree slot levels later deep (kept.trans same) real
  have direct := @freeEntries_succeeds work (freeTree layout noFaults junk 0)
    ((List.range 12).map work.inode.block) ?_
  · unfold ext2FreeDataAndIndirect
    rw [if_pos direct.1]
    have first := single 12 1 _ rfl direct.2
    have second := single 13 2 _ rfl (first.2.trans direct.2)
    have third := single 14 3 _ rfl (second.2.trans (first.2.trans direct.2))
    rw [show work.inode.root 12 = work.inode.indirectBlock from rfl] at first second third
    rw [show work.inode.root 13 = work.inode.doubleIndirectBlock from rfl] at second third
    rw [if_pos first.1, if_pos second.1]
    exact third.1
  · intro ptr member real later kept
    obtain ⟨slot, small, rfl⟩ := List.mem_map.mp member
    have small := List.mem_range.mp small
    have root : work.inode.root slot = work.inode.block slot := if_pos small
    have flat : (shape layout).depth slot = 0 := by
      simp only [shape]
      rw [if_neg (by omega), if_neg (by omega), if_neg (by omega)]
    rw [← root] at real ⊢
    exact tree slot 0 later flat kept real

theorem CountsMap.length (counts : CountsMap layout work) (good : Good layout work) :
    (mapBlocks layout work).length * layout.sectorsPerBlock = work.inode.blocks := by
  obtain ⟨order, distinct, listed, accounts⟩ := counts
  have same := (List.perm_ext_iff_of_nodup distinct good.mapBlocks_nodup).mpr fun block =>
    (listed block).trans mem_mapBlocks.symm
  rw [← same.length_eq, accounts]

theorem countsMap_of_length (good : Good layout work)
    (accounts : (mapBlocks layout work).length * layout.sectorsPerBlock = work.inode.blocks) :
    CountsMap layout work :=
  ⟨mapBlocks layout work, good.mapBlocks_nodup, fun _ => mem_mapBlocks, accounts⟩

/-- A walk that goes through frees the blocks of the map and no other, and the counts it
leaves agree with `i_blocks` exactly if that field counts the map. -/
theorem freesExactly_iff (good : Good layout work)
    (done : (ext2FreeDataAndIndirect layout faults junk work).1 = true) :
    FreesExactly layout work (ext2FreeDataAndIndirect layout faults junk work).2 ↔
      CountsMap layout work := by
  have frees := freeDataAndIndirect_frees done
  have nodup := good.mapBlocks_nodup
  have members : ∀ block, block ∈ mapBlocks layout work ↔ InMap layout work block :=
    fun _ => mem_mapBlocks
  have allocated : ∀ block ∈ mapBlocks layout work,
      AllocatedIn layout (effective work.bm).blockBitmap block := by
    intro block member
    obtain ⟨real, slot, path, valid, rfl⟩ := (members block).mp member
    exact good.owned slot path valid real
  obtain ⟨bits, total, groups⟩ := freeAll_cleared (mapBlocks layout work) work.bm
    good.bitmaps.sound nodup allocated
  rw [← frees.bm] at bits total groups
  have fits := length_lt_of_small nodup (good.order_small members)
  constructor
  · intro exactly
    obtain ⟨count, accounts, small, raised⟩ := exactly.total
    rw [total] at raised
    have same := congrArg BitVec.toNat ((BitVec.add_right_inj _).mp raised)
    rw [BitVec.toNat_ofNat, BitVec.toNat_ofNat, Nat.mod_eq_of_lt fits,
      Nat.mod_eq_of_lt small] at same
    exact ⟨mapBlocks layout work, nodup, members, by rw [same, accounts]⟩
  · intro counts
    refine ⟨⟨mapBlocks layout work, nodup, members, frees.bm, groups⟩, fun block => ?_,
      (mapBlocks layout work).length, counts.length good, fits, total⟩
    rw [← members]
    exact bits block

end Racccoon.Ext2.Blocks
