import Racccoon.Ext2.Resolve

/-!
The blocks a write adds. A step of `ext2_ensure_block_for_write` takes a free block and
writes its number at one place of the trees, so the map grows along the way to one logical
block and stays as it was elsewhere.
-/

namespace Racccoon.Ext2.Blocks

open Words PointerTree
open Bitmaps (Used Through BootBlockHeld effective)

variable {layout : Layout} {faults : Faults} {work : Work}

def AllocatedIn (layout : Layout) (bitmaps : Nat → Bitmaps.Bytes) (block : Nat) : Prop :=
  ∃ group bit, group < layout.groupCount ∧ bit < layout.blocksPerGroup ∧
    block = layout.firstDataBlock + group * layout.blocksPerGroup + bit ∧
    Used bitmaps group bit

def Allocated (layout : Layout) (work : Work) : Nat → Prop :=
  AllocatedIn layout (effective work.bm).blockBitmap

theorem split_unique {size group bit group' bit' : Nat} (small : bit < size) (small' : bit' < size)
    (same : group * size + bit = group' * size + bit') : group = group' ∧ bit = bit' := by
  have pos : 0 < size := by omega
  have first := congrArg (· / size) same
  have second := congrArg (· % size) same
  simp only [Nat.mul_comm _ size, Nat.mul_add_div pos, Nat.mul_add_mod,
    Nat.div_eq_of_lt small, Nat.div_eq_of_lt small', Nat.mod_eq_of_lt small,
    Nat.mod_eq_of_lt small'] at first second
  exact ⟨by omega, second⟩

structure BitmapsSound (layout : Layout) (work : Work) : Prop where
  sound : Bitmaps.Sound layout.toGeometry work.bm
  boot : BootBlockHeld layout.toGeometry (effective work.bm)

/-- What an allocation does. -/
structure Allocates (layout : Layout) (work : Work) (taken : Nat × Work) : Prop where
  bitmaps : BitmapsSound layout taken.2
  bytes : taken.2.bytes = work.bytes
  inode : taken.2.inode = work.inode
  newBlocks : taken.2.newBlocks = work.newBlocks
  free : taken.1 ≠ 0 → ¬ Allocated layout work taken.1
  grown : ∀ block, Allocated layout taken.2 block ↔
    Allocated layout work block ∨ (taken.1 ≠ 0 ∧ block = taken.1)

theorem allocBlock_allocates (sound : BitmapsSound layout work) :
    Allocates layout work (ext2AllocBlock layout faults work) := by
  unfold ext2AllocBlock
  split
  · exact ⟨⟨sound.sound, sound.boot⟩, rfl, rfl, rfl, fun real => absurd rfl real,
      fun block => by simp [Allocated]⟩
  · obtain ⟨number, refines⟩ := Bitmaps.allocBlockFrom_refines layout.groupCount 0 work.bm
      ⟨effective work.bm, work.bm.blockGroupHint, work.bm.inodeGroupHint⟩
      ⟨sound.sound, rfl, rfl, rfl⟩
    have sets := Through.allocBlock_cases layout.toGeometry
      ⟨effective work.bm, work.bm.blockGroupHint, work.bm.inodeGroupHint⟩
    change _ = (Through.allocBlock layout.toGeometry _).1 at number
    change Bitmaps.Refines _ _ (Through.allocBlock layout.toGeometry _).2 at refines
    generalize Through.allocBlock layout.toGeometry
      ⟨effective work.bm, work.bm.blockGroupHint, work.bm.inodeGroupHint⟩ = through
      at number refines sets
    change (Bitmaps.allocBlock layout.toGeometry work.bm).1 = _ at number
    change Bitmaps.Refines layout.toGeometry (Bitmaps.allocBlock layout.toGeometry work.bm).2 _
      at refines
    have disk := refines.disk
    dsimp only
    rw [number]
    rcases sets with ⟨group, bit, inGroup, inBit, clear, named, used⟩ | ⟨same, -⟩
    · have real : through.1 ≠ 0 := named ▸ sound.boot.number_ne inBit clear
      have unique : ∀ group' bit', bit' < layout.blocksPerGroup →
          through.1 = layout.firstDataBlock + group' * layout.blocksPerGroup + bit' →
            group' = group ∧ bit' = bit := by
        intro group' bit' inside same
        exact split_unique inside inBit (by omega)
      refine ⟨⟨refines.sound, ?_⟩, rfl, rfl, rfl, ?_, ?_⟩
      · rw [← disk]
        exact fun atZero => (used 0 0).mpr (.inl (sound.boot atZero))
      · rintro - ⟨group', bit', -, inBit', same, taken⟩
        obtain ⟨rfl, rfl⟩ := unique group' bit' inBit' same
        exact clear taken
      · intro block
        simp only [Allocated, AllocatedIn, ← disk, used]
        constructor
        · rintro ⟨group', bit', inGroup', inBit', rfl, before | ⟨rfl, rfl⟩⟩
          · exact .inl ⟨group', bit', inGroup', inBit', rfl, before⟩
          · exact .inr ⟨real, named.symm⟩
        · rintro (⟨group', bit', inGroup', inBit', rfl, before⟩ | ⟨-, rfl⟩)
          · exact ⟨group', bit', inGroup', inBit', rfl, .inl before⟩
          · exact ⟨group, bit, inGroup, inBit, named, .inr ⟨rfl, rfl⟩⟩
    · subst same
      refine ⟨⟨refines.sound, disk ▸ sound.boot⟩, rfl, rfl, rfl, fun real => absurd rfl real,
        fun block => ?_⟩
      simp only [Allocated, ← disk, ne_eq, not_true_eq_false, false_and, or_false]

theorem AllocatedIn.small {bitmaps : Nat → Bitmaps.Bytes} {block : Nat}
    (allocated : AllocatedIn layout bitmaps block) : block < 2 ^ 32 := by
  obtain ⟨group, bit, inGroup, inBit, rfl, -⟩ := allocated
  have addressable := layout.addressable
  have less := Nat.mul_le_mul_right layout.blocksPerGroup (Nat.succ_le_of_lt inGroup)
  rw [Nat.succ_mul] at less
  omega

section Write
variable {block other i : Nat} {buf : Buf}

theorem sector_of (layout : Layout) (block i : Nat) :
    (block * layout.blockSize + i) / sectorSize =
      block * layout.sectorsPerBlock + i / sectorSize := by
  rw [← layout.sectors, ← Nat.mul_assoc, Nat.mul_comm _ sectorSize,
    Nat.mul_add_div (by decide)]

theorem lands_iff (op : Nat) (inside : i < layout.blockSize) :
    lands layout faults op block (other * layout.blockSize + i) = true ↔
      other = block ∧
        faults.write op (other * layout.sectorsPerBlock + i / sectorSize) = false := by
  have inBlock : (block * layout.blockSize ≤ other * layout.blockSize + i ∧
      other * layout.blockSize + i < (block + 1) * layout.blockSize) ↔ other = block := by
    constructor
    · rintro ⟨low, high⟩
      have below : other * layout.blockSize < (block + 1) * layout.blockSize := by omega
      have above : block * layout.blockSize < (other + 1) * layout.blockSize := by
        rw [Nat.succ_mul]
        omega
      have := Nat.lt_of_mul_lt_mul_right below
      have := Nat.lt_of_mul_lt_mul_right above
      omega
    · rintro rfl
      rw [Nat.succ_mul]
      omega
  simp only [lands, Bool.and_eq_true, decide_eq_true_eq, Bool.not_eq_true', inBlock, sector_of]

theorem written_byte (inside : i < layout.blockSize) :
    blockBytes layout (ext2WriteBlock layout faults work block buf).2.bytes other i =
      if other = block ∧
          faults.write work.op (other * layout.sectorsPerBlock + i / sectorSize) = false then buf i
      else blockBytes layout work.bytes other i := by
  simp only [blockBytes, ext2WriteBlock, lands_iff work.op inside]
  split
  · next here => rw [here.1, Nat.add_sub_cancel_left]
  · rfl

theorem written_elsewhere (apart : other ≠ block) (inside : i < layout.blockSize) :
    blockBytes layout (ext2WriteBlock layout faults work block buf).2.bytes other i =
      blockBytes layout work.bytes other i := by
  rw [written_byte inside, if_neg fun here => apart here.1]

theorem written_here (ok : (ext2WriteBlock layout faults work block buf).1 = true)
    (inside : i < layout.blockSize) :
    blockBytes layout (ext2WriteBlock layout faults work block buf).2.bytes block i = buf i := by
  have sector : i / sectorSize < layout.sectorsPerBlock := by
    rw [← layout.sectors, Nat.mul_comm] at inside
    exact Nat.div_lt_of_lt_mul inside
  simp only [ext2WriteBlock, List.all_eq_true, List.mem_range, Bool.not_eq_true'] at ok
  rw [written_byte inside, if_pos ⟨rfl, ok _ sector⟩]

theorem written_entries_elsewhere (apart : other ≠ block) (inside : i < layout.pointers) :
    entries layout (ext2WriteBlock layout faults work block buf).2.bytes other i =
      entries layout work.bytes other i := by
  have words := layout.words
  exact word_congr fun j there => written_elsewhere apart (by omega)

theorem written_entries_here (ok : (ext2WriteBlock layout faults work block buf).1 = true)
    (inside : i < layout.pointers) :
    entries layout (ext2WriteBlock layout faults work block buf).2.bytes block i = word buf i := by
  have words := layout.words
  exact word_congr fun j there => written_here ok (by omega)

/-- A word is in one sector, so it is written or stays. -/
theorem written_word (inside : i < layout.pointers) :
    entries layout (ext2WriteBlock layout faults work block buf).2.bytes block i = word buf i ∨
      entries layout (ext2WriteBlock layout faults work block buf).2.bytes block i =
        entries layout work.bytes block i := by
  have words := layout.words
  have sector : ∀ j, j / 4 = i → j / sectorSize = 4 * i / sectorSize := by
    simp only [sectorSize]
    omega
  by_cases lost : faults.write work.op
      (block * layout.sectorsPerBlock + 4 * i / sectorSize) = false
  · left
    apply word_congr
    intro j there
    rw [written_byte (by omega), if_pos ⟨rfl, by rw [sector j there]; exact lost⟩]
  · right
    apply word_congr
    intro j there
    rw [written_byte (by omega), if_neg fun here => lost (by rw [← sector j there]; exact here.2)]

end Write

/-- The map is in order: nothing stands in it twice, and the blocks in it are taken. -/
structure Good (layout : Layout) (work : Work) : Prop where
  bitmaps : BitmapsSound layout work
  separated : Separated (shape layout) work.inode.root (entries layout work.bytes)
  owned : ∀ slot path, (shape layout).Valid slot path →
    nodeOf layout work.bytes work.inode slot path ≠ 0 →
      Allocated layout work (nodeOf layout work.bytes work.inode slot path)

abbrev Work.node (layout : Layout) (work : Work) (slot : Nat) (path : List Nat) : Nat :=
  nodeOf layout work.bytes work.inode slot path

abbrev Work.Pointer (layout : Layout) (work : Work) (block : Nat) : Prop :=
  Table (shape layout) work.inode.root (entries layout work.bytes) block

/-- The map has grown along the way to one place. -/
structure Extends (layout : Layout) (before after : Work) (slot : Nat) (path : List Nat) :
    Prop where
  good : Good layout after
  kept : ∀ other way, (shape layout).Valid other way → before.node layout other way ≠ 0 →
    after.node layout other way = before.node layout other way
  along : ∀ other way, (shape layout).Valid other way →
    after.node layout other way ≠ before.node layout other way → other = slot ∧ way <:+ path
  fresh : ∀ other way, (shape layout).Valid other way →
    after.node layout other way ≠ before.node layout other way →
      ¬ Allocated layout before (after.node layout other way)
  allocated : ∀ block, Allocated layout before block → Allocated layout after block
  bytes : ∀ block, block ≠ 0 → Allocated layout before block → ¬ before.Pointer layout block →
    ∀ i, i < layout.blockSize →
      blockBytes layout after.bytes block i = blockBytes layout before.bytes block i

def Counts (layout : Layout) (before after : Work) : Prop :=
  ∃ taken : List Nat, taken.Nodup ∧ (∀ block ∈ taken, ¬ Allocated layout before block) ∧
    (∀ block, Allocated layout after block ↔ Allocated layout before block ∨ block ∈ taken) ∧
    after.newBlocks = before.newBlocks + taken.length

def InMap (layout : Layout) (work : Work) (block : Nat) : Prop :=
  block ≠ 0 ∧ ∃ slot path, (shape layout).Valid slot path ∧ work.node layout slot path = block

def Gains (layout : Layout) (before after : Work) : Prop :=
  ∃ taken : List Nat, taken.Nodup ∧ (∀ block ∈ taken, ¬ InMap layout before block) ∧
    (∀ block, InMap layout after block ↔ InMap layout before block ∨ block ∈ taken) ∧
    after.newBlocks = before.newBlocks + taken.length

section Grow
variable {before mid after : Work} {slot : Nat} {path way : List Nat}

theorem Extends.refl (good : Good layout work) (slot : Nat) (path : List Nat) :
    Extends layout work work slot path :=
  ⟨good, fun _ _ _ _ => rfl, fun _ _ _ changed => absurd rfl changed,
    fun _ _ _ changed => absurd rfl changed, fun _ held => held, fun _ _ _ _ _ _ => rfl⟩

theorem Extends.widen (grows : Extends layout before after slot way) (suffix : way <:+ path) :
    Extends layout before after slot path :=
  { grows with along := fun other place valid changed =>
      have ⟨same, there⟩ := grows.along other place valid changed
      ⟨same, there.trans suffix⟩ }

theorem Extends.trans (first : Extends layout before mid slot path)
    (second : Extends layout mid after slot path) : Extends layout before after slot path where
  good := second.good
  kept other way valid real := by
    have middle := first.kept other way valid real
    rw [second.kept other way valid (by rwa [middle]), middle]
  along other way valid changed := by
    by_cases same : mid.node layout other way = before.node layout other way
    · exact second.along other way valid (by rwa [same])
    · exact first.along other way valid same
  fresh other way valid changed := by
    by_cases same : after.node layout other way = mid.node layout other way
    · rw [same] at changed ⊢
      exact first.fresh other way valid changed
    · exact fun held => second.fresh other way valid same (first.allocated _ held)
  allocated block held := second.allocated block (first.allocated block held)
  bytes block real held data i inside := by
    rw [← first.bytes block real held data i inside]
    apply second.bytes block real (first.allocated block held) _ i inside
    rintro ⟨other, way, valid, short, here⟩
    by_cases same : mid.node layout other way = before.node layout other way
    · exact data ⟨other, way, valid, short, same.symm.trans here⟩
    · have reached : mid.node layout other way = block := here
      exact first.fresh other way valid same (by rwa [reached])

theorem Counts.refl (work : Work) : Counts layout work work :=
  ⟨[], List.nodup_nil, by simp, by simp, rfl⟩

/-- Gaining twice is gaining. -/
theorem gained_trans {first middle last : Nat → Prop} {n m k : Nat}
    (one : ∃ taken : List Nat, taken.Nodup ∧ (∀ block ∈ taken, ¬ first block) ∧
      (∀ block, middle block ↔ first block ∨ block ∈ taken) ∧ m = n + taken.length)
    (two : ∃ taken : List Nat, taken.Nodup ∧ (∀ block ∈ taken, ¬ middle block) ∧
      (∀ block, last block ↔ middle block ∨ block ∈ taken) ∧ k = m + taken.length) :
    ∃ taken : List Nat, taken.Nodup ∧ (∀ block ∈ taken, ¬ first block) ∧
      (∀ block, last block ↔ first block ∨ block ∈ taken) ∧ k = n + taken.length := by
  obtain ⟨taken, nodup, free, grown, count⟩ := one
  obtain ⟨more, moreNodup, moreFree, moreGrown, moreCount⟩ := two
  refine ⟨taken ++ more, ?_, ?_, ?_, ?_⟩
  · refine List.nodup_append.mpr ⟨nodup, moreNodup, ?_⟩
    rintro block member _ other rfl
    exact moreFree block other ((grown block).mpr (.inr member))
  · intro block member held
    rcases List.mem_append.mp member with early | late
    · exact free block early held
    · exact moreFree block late ((grown block).mpr (.inl held))
  · intro block
    rw [moreGrown, grown, List.mem_append, or_assoc]
  · rw [moreCount, count, List.length_append, Nat.add_assoc]

theorem Counts.trans (first : Counts layout before mid) (second : Counts layout mid after) :
    Counts layout before after :=
  gained_trans first second

theorem Gains.trans (first : Gains layout before mid) (second : Gains layout mid after) :
    Gains layout before after :=
  gained_trans first second

theorem Good.counted (good : Good layout work) (op newBlocks : Nat) :
    Good layout { work with op := op, newBlocks := newBlocks } :=
  ⟨⟨good.bitmaps.sound, good.bitmaps.boot⟩, good.separated, good.owned⟩

theorem Extends.counted (grows : Extends layout before after slot path) (op newBlocks : Nat) :
    Extends layout before { after with op := op, newBlocks := newBlocks } slot path :=
  ⟨grows.good.counted op newBlocks, grows.kept, grows.along, grows.fresh, grows.allocated,
    grows.bytes⟩

theorem gains_of_same (same : ∀ slot path, (shape layout).Valid slot path →
      after.node layout slot path = before.node layout slot path)
    (count : after.newBlocks = before.newBlocks) : Gains layout before after := by
  refine ⟨[], List.nodup_nil, by simp, fun block => ?_, count⟩
  simp only [List.not_mem_nil, or_false]
  constructor
  · rintro ⟨real, slot, path, valid, rfl⟩
    exact ⟨real, slot, path, valid, (same slot path valid).symm⟩
  · rintro ⟨real, slot, path, valid, rfl⟩
    exact ⟨real, slot, path, valid, same slot path valid⟩

/-- A step that fills one empty place, the way to which is there, gains one block. -/
theorem gains_of_link (good : Good layout before) (grows : Extends layout before after slot path)
    (valid : (shape layout).Valid slot path)
    (above : ∀ way, way <:+ path → way ≠ path → before.node layout slot way ≠ 0)
    (absent : before.node layout slot path = 0) (present : after.node layout slot path ≠ 0)
    (count : after.newBlocks = before.newBlocks + 1) : Gains layout before after := by
  have elsewhere : ∀ other way, (shape layout).Valid other way →
      ¬ (other = slot ∧ way = path) → after.node layout other way = before.node layout other way := by
    intro other way there apart
    by_contra changed
    obtain ⟨rfl, suffix⟩ := grows.along other way there changed
    exact changed (grows.kept other way there (above way suffix fun same => apart ⟨rfl, same⟩))
  have changed : after.node layout slot path ≠ before.node layout slot path := by
    rw [absent]
    exact present
  have fresh := grows.fresh slot path valid changed
  refine ⟨[after.node layout slot path], List.nodup_singleton _, ?_, fun block => ?_, count⟩
  · intro block member held
    rw [List.mem_singleton.mp member] at held
    obtain ⟨real, other, way, there, same⟩ := held
    rw [← same] at fresh real
    exact fresh (good.owned other way there real)
  · rw [List.mem_singleton]
    constructor
    · rintro ⟨real, other, way, there, rfl⟩
      by_cases here : other = slot ∧ way = path
      · obtain ⟨rfl, rfl⟩ := here
        exact .inr rfl
      · exact .inl ⟨real, other, way, there, (elsewhere other way there here).symm⟩
    · rintro (⟨real, other, way, there, rfl⟩ | rfl)
      · exact ⟨real, other, way, there, grows.kept other way there real⟩
      · exact ⟨present, slot, path, valid, rfl⟩

/-- A block is taken and written, before anything refers to it. -/
structure Adds (layout : Layout) (work : Work) (added : Nat × Work) : Prop where
  bitmaps : BitmapsSound layout added.2
  inode : added.2.inode = work.inode
  newBlocks : added.2.newBlocks = work.newBlocks
  free : added.1 ≠ 0 → ¬ Allocated layout work added.1
  allocated : ∀ block, Allocated layout work block → Allocated layout added.2 block
  grown : added.1 ≠ 0 → ∀ block, Allocated layout added.2 block ↔
    Allocated layout work block ∨ block = added.1
  bytes : ∀ block, Allocated layout work block → ∀ i, i < layout.blockSize →
    blockBytes layout added.2.bytes block i = blockBytes layout work.bytes block i

theorem allocBlock_adds (sound : BitmapsSound layout work) :
    Adds layout work (ext2AllocBlock layout faults work) := by
  have allocates := @allocBlock_allocates layout faults work sound
  refine ⟨allocates.bitmaps, allocates.inode, allocates.newBlocks, allocates.free,
    fun block held => (allocates.grown block).mpr (.inl held), fun real block => ?_,
    fun block _ i _ => by rw [allocates.bytes]⟩
  rw [allocates.grown]
  simp [real]

theorem newTable_adds (sound : BitmapsSound layout work) :
    Adds layout work (newTable layout faults work) ∧
      ((newTable layout faults work).1 ≠ 0 → ∀ i, i < layout.pointers →
        entries layout (newTable layout faults work).2.bytes (newTable layout faults work).1 i =
          0) := by
  have allocates := @allocBlock_allocates layout faults work sound
  unfold newTable
  dsimp only
  generalize ext2AllocBlock layout faults work = taken at allocates
  split
  · next none =>
      exact ⟨⟨allocates.bitmaps, allocates.inode, allocates.newBlocks, allocates.free,
        fun block held => (allocates.grown block).mpr (.inl held), fun real => absurd none real,
        fun block _ i _ => by rw [allocates.bytes]⟩, fun real => absurd none real⟩
  · next real =>
      have kept : ∀ block, Allocated layout work block → ∀ i, i < layout.blockSize →
          blockBytes layout (ext2WriteBlock layout faults taken.2 taken.1 fun _ => 0).2.bytes
            block i = blockBytes layout work.bytes block i := by
        intro block held i inside
        have apart : block ≠ taken.1 := fun same => allocates.free real (same ▸ held)
        rw [written_elsewhere apart inside, allocates.bytes]
      have held := fun block held => (allocates.grown block).mpr (.inl held)
      by_cases ok : (ext2WriteBlock layout faults taken.2 taken.1 fun _ => 0).1 = true
      · simp only [if_pos ok]
        refine ⟨⟨⟨allocates.bitmaps.sound, allocates.bitmaps.boot⟩, allocates.inode,
          allocates.newBlocks, allocates.free, held, fun _ block => ?_, kept⟩, fun _ i inside => ?_⟩
        · exact (allocates.grown block).trans (by simp [real])
        · rw [written_entries_here ok inside, word_zeros]
      · simp only [if_neg ok]
        exact ⟨⟨⟨allocates.bitmaps.sound, allocates.bitmaps.boot⟩, allocates.inode,
          allocates.newBlocks, fun wrong => absurd rfl wrong, held, fun wrong => absurd rfl wrong,
          kept⟩, fun wrong => absurd rfl wrong⟩

section
variable (good : Good layout before) (bitmaps : BitmapsSound layout after)
variable (allocated : ∀ block, Allocated layout before block → Allocated layout after block)
include good bitmaps allocated

theorem extends_of_same
    (same : ∀ other way, (shape layout).Valid other way →
      after.node layout other way = before.node layout other way)
    (bytes : ∀ block, block ≠ 0 → Allocated layout before block → ¬ before.Pointer layout block →
      ∀ i, i < layout.blockSize →
        blockBytes layout after.bytes block i = blockBytes layout before.bytes block i) :
    Extends layout before after slot path where
  good :=
    { bitmaps := bitmaps
      separated := fun first way second way' valid valid' real equal => by
        change after.node layout first way ≠ 0 at real
        change after.node layout first way = after.node layout second way' at equal
        rw [same first way valid] at real equal
        rw [same second way' valid'] at equal
        exact good.separated first way second way' valid valid' real equal
      owned := fun other way valid real => by
        change after.node layout other way ≠ 0 at real
        change Allocated layout after (after.node layout other way)
        rw [same other way valid] at real ⊢
        exact allocated _ (good.owned other way valid real) }
  kept other way valid _ := same other way valid
  along other way valid changed := absurd (same other way valid) changed
  fresh other way valid changed := absurd (same other way valid) changed
  allocated := allocated
  bytes := bytes

theorem extends_of_link {fresh : Nat} (absent : before.node layout slot path = 0)
    (free : ¬ Allocated layout before fresh) (taken : Allocated layout after fresh)
    (linked : Linked (shape layout) before.inode.root (entries layout before.bytes)
      after.inode.root (entries layout after.bytes) slot path fresh)
    (bytes : ∀ block, block ≠ 0 → Allocated layout before block → ¬ before.Pointer layout block →
      ∀ i, i < layout.blockSize →
        blockBytes layout after.bytes block i = blockBytes layout before.bytes block i) :
    Extends layout before after slot path := by
  have changed : ∀ other way, (shape layout).Valid other way →
      after.node layout other way ≠ before.node layout other way → other = slot ∧ way = path := by
    intro other way valid changed
    by_contra apart
    exact changed (linked.elsewhere other way valid apart)
  refine ⟨⟨bitmaps, ?_, ?_⟩, ?_, ?_, ?_, allocated, bytes⟩
  · apply linked.separated good.separated
    rintro other way valid real rfl
    exact free (good.owned other way valid real)
  · intro other way valid real
    by_cases here : other = slot ∧ way = path
    · obtain ⟨rfl, rfl⟩ := here
      have reached : nodeOf layout after.bytes after.inode other way = fresh := linked.here
      rwa [reached]
    · have same : nodeOf layout after.bytes after.inode other way =
          nodeOf layout before.bytes before.inode other way :=
        linked.elsewhere other way valid here
      rw [same] at real ⊢
      exact allocated _ (good.owned other way valid real)
  · intro other way valid real
    by_contra apart
    obtain ⟨rfl, rfl⟩ := changed other way valid apart
    exact real absent
  · intro other way valid apart
    obtain ⟨rfl, rfl⟩ := changed other way valid apart
    exact ⟨rfl, List.suffix_refl _⟩
  · intro other way valid apart
    obtain ⟨rfl, rfl⟩ := changed other way valid apart
    have reached : after.node layout other way = fresh := linked.here
    rwa [reached]

end

/-- The tables of the map are taken, so what keeps the bytes of taken blocks keeps the
entries. -/
theorem Good.entries_kept (good : Good layout before) {bytes : Buf}
    (kept : ∀ block, Allocated layout before block → ∀ i, i < layout.blockSize →
      blockBytes layout bytes block i = blockBytes layout before.bytes block i) {table index : Nat}
    (real : table ≠ 0) (reached : before.Pointer layout table) (inside : index < layout.pointers) :
    entries layout bytes table index = entries layout before.bytes table index := by
  have words := layout.words
  obtain ⟨other, way, valid, -, rfl⟩ := reached
  exact word_congr fun j there => kept _ (good.owned other way valid real) j (by omega)

section
variable {added : Nat × Work} (adds : Adds layout work added) (good : Good layout work)
include adds good

theorem Adds.node (valid : (shape layout).Valid slot path) :
    added.2.node layout slot path = work.node layout slot path :=
  node_congr (fun slot => by rw [adds.inode])
    (fun table real reached index inside => good.entries_kept adds.bytes real reached inside) valid

theorem Adds.grows : Extends layout work added.2 slot path :=
  extends_of_same good adds.bitmaps adds.allocated (fun _ _ valid => adds.node good valid)
    fun block _ held _ => adds.bytes block held

theorem Adds.gains : Gains layout work added.2 :=
  gains_of_same (fun _ _ valid => adds.node good valid) adds.newBlocks

end
/-- The number of a block that was added is written into a table of the map. -/
theorem link_entry {added : Nat × Work} {index : Nat} {buf : Buf}
    (adds : Adds layout before added) (good : Good layout before)
    (valid : (shape layout).Valid slot (index :: path))
    (table : before.node layout slot path ≠ 0)
    (absent : before.node layout slot (index :: path) = 0) (real : added.1 ≠ 0)
    (words : ∀ i, i < layout.pointers →
      word buf i = entries layout before.bytes (before.node layout slot path) i)
    (blank : path.length + 1 < (shape layout).depth slot → ∀ i, i < layout.pointers →
      entries layout added.2.bytes added.1 i = 0) :
    let written := ext2WriteBlock layout faults added.2 (before.node layout slot path)
      (setWord buf index added.1)
    Extends layout before written.2 slot (index :: path) ∧
      (written.1 = true → written.2.node layout slot (index :: path) = added.1) := by
  intro written
  have inside : index < layout.pointers := valid.head
  have pointer : before.Pointer layout (before.node layout slot path) :=
    ⟨slot, path, valid.tail, valid.short, rfl⟩
  have held := good.owned slot path valid.tail table
  have taken := (adds.grown real added.1).mpr (.inr rfl)
  have apart : added.1 ≠ before.node layout slot path :=
    fun same => adds.free real (same ▸ held)
  have root : ∀ other, written.2.inode.root other = before.inode.root other := by
    intro other
    rw [← adds.inode]
    rfl
  have elsewhere : ∀ other, other ≠ before.node layout slot path → ∀ i, i < layout.pointers →
      entries layout written.2.bytes other i = entries layout added.2.bytes other i :=
    fun other off i small => written_entries_elsewhere off small
  have old : ∀ i, i < layout.pointers →
      entries layout added.2.bytes (before.node layout slot path) i =
        entries layout before.bytes (before.node layout slot path) i :=
    fun i small => good.entries_kept adds.bytes table pointer small
  have agree : ∀ other, other ≠ 0 → before.Pointer layout other → ∀ i, i < layout.pointers →
      ¬ (other = before.node layout slot path ∧ i = index) →
        entries layout written.2.bytes other i = entries layout before.bytes other i := by
    intro other otherReal reached i small off
    by_cases here : other = before.node layout slot path
    · subst here
      have next : i ≠ index := fun same => off ⟨rfl, same⟩
      rcases @written_word layout faults added.2 (before.node layout slot path) i
        (setWord buf index added.1) small with new | same
      · rw [new, word_setWord taken.small, if_neg next, words i small]
      · rw [same, old i small]
    · rw [elsewhere other here i small, good.entries_kept adds.bytes otherReal reached small]
  have bytes : ∀ block, block ≠ 0 → Allocated layout before block →
      ¬ before.Pointer layout block → ∀ i, i < layout.blockSize →
        blockBytes layout written.2.bytes block i = blockBytes layout before.bytes block i := by
    intro block _ owned data i small
    have off : block ≠ before.node layout slot path := fun same => data (same ▸ pointer)
    rw [written_elsewhere off small, adds.bytes block owned i small]
  have bitmaps : BitmapsSound layout written.2 := ⟨adds.bitmaps.sound, adds.bitmaps.boot⟩
  have linked : entries layout written.2.bytes (before.node layout slot path) index = added.1 →
      Linked (shape layout) before.inode.root (entries layout before.bytes)
        written.2.inode.root (entries layout written.2.bytes) slot (index :: path) added.1 :=
    fun here => linked_entry good.separated valid table absent root here agree
      fun deep i small => (elsewhere added.1 apart i small).trans (blank deep i small)
  constructor
  · rcases @written_word layout faults added.2 (before.node layout slot path) index
      (setWord buf index added.1) inside with new | same
    · rw [word_setWord_self taken.small] at new
      exact extends_of_link good bitmaps adds.allocated absent (adds.free real) taken
        (linked new) bytes
    · refine extends_of_same good bitmaps adds.allocated (fun other way there => ?_) bytes
      refine node_congr root (fun other otherReal reached i small => ?_) there
      by_cases here : other = before.node layout slot path ∧ i = index
      · obtain ⟨rfl, rfl⟩ := here
        exact same.trans (old i small)
      · exact agree other otherReal reached i small here
  · intro ok
    have new := @written_entries_here layout faults added.2 (before.node layout slot path) index
      (setWord buf index added.1) ok inside
    rw [word_setWord_self taken.small] at new
    exact (linked new).here

theorem root_setRoot (inode : InodeInfo) {slot : Nat} (inside : slot < 15) (block other : Nat) :
    (inode.setRoot slot block).root other = if other = slot then block else inode.root other := by
  by_cases direct : slot < 12
  · simp only [InodeInfo.setRoot, if_pos direct, InodeInfo.root]
    by_cases same : other = slot
    · simp [same, direct]
    · simp [same]
  · obtain rfl | rfl | rfl : slot = 12 ∨ slot = 13 ∨ slot = 14 := by omega
    all_goals
      simp only [InodeInfo.root]
      split_ifs <;> first | rfl | omega

/-- The number of a block that was added becomes a root. -/
theorem link_root {added : Nat × Work} (adds : Adds layout before added)
    (good : Good layout before) (inside : slot < 15) (absent : before.inode.root slot = 0)
    (real : added.1 ≠ 0)
    (blank : 0 < (shape layout).depth slot → ∀ i, i < layout.pointers →
      entries layout added.2.bytes added.1 i = 0) (newBlocks : Nat) :
    let after := { added.2 with
      inode := added.2.inode.setRoot slot added.1, newBlocks := newBlocks }
    Extends layout before after slot [] ∧ after.node layout slot [] = added.1 := by
  intro after
  have root : ∀ other, after.inode.root other =
      if other = slot then added.1 else before.inode.root other := by
    intro other
    rw [← adds.inode]
    exact root_setRoot added.2.inode inside added.1 other
  have here : after.inode.root slot = added.1 := by rw [root, if_pos rfl]
  refine ⟨extends_of_link good ⟨adds.bitmaps.sound, adds.bitmaps.boot⟩ adds.allocated absent
    (adds.free real) ((adds.grown real added.1).mpr (.inr rfl)) ?_
    fun block _ held _ => adds.bytes block held, here⟩
  exact linked_root absent here (fun other apart => by rw [root, if_neg apart])
    (fun table tableReal reached i small => good.entries_kept adds.bytes tableReal reached small)
    blank

/-- A step has found or added the block at a place. -/
structure Reached (layout : Layout) (before : Work) (found : Nat × Work) (slot : Nat)
    (path : List Nat) : Prop where
  grows : Extends layout before found.2 slot path
  here : found.1 ≠ 0 → found.2.node layout slot path = found.1
  counts : found.1 ≠ 0 → Counts layout before found.2

/-- Also a step that does not reach the place has counted what it gained. -/
structure Step (layout : Layout) (faults : Faults) (before : Work) (found : Nat × Work)
    (slot : Nat) (path : List Nat) : Prop extends Reached layout before found slot path where
  gains : faults = noFaults → Gains layout before found.2
  blocks : found.2.inode.blocks = before.inode.blocks

theorem Step.lost (grows : Extends layout before after slot path)
    (gains : faults = noFaults → Gains layout before after)
    (blocks : after.inode.blocks = before.inode.blocks) :
    Step layout faults before (0, after) slot path :=
  ⟨⟨grows, fun wrong => absurd rfl wrong, fun wrong => absurd rfl wrong⟩, gains, blocks⟩

theorem Step.kept {block : Nat} (good : Good layout work)
    (here : work.node layout slot path = block) : Step layout faults work (block, work) slot path :=
  ⟨⟨.refl good slot path, fun _ => here, fun _ => .refl work⟩,
    fun _ => gains_of_same (fun _ _ _ => rfl) rfl, rfl⟩

theorem Step.later {found : Nat × Work} {op : Nat}
    (step : Step layout faults { work with op := op } found slot path) :
    Step layout faults work found slot path :=
  ⟨⟨⟨step.grows.good, step.grows.kept, step.grows.along, step.grows.fresh, step.grows.allocated,
    step.grows.bytes⟩, step.here, step.counts⟩, step.gains, step.blocks⟩

theorem Adds.counts {added : Nat × Work} (adds : Adds layout before added) (real : added.1 ≠ 0)
    (same : ∀ block, Allocated layout after block ↔ Allocated layout added.2 block)
    (count : after.newBlocks = before.newBlocks + 1) : Counts layout before after :=
  ⟨[added.1], by simp, by simpa using adds.free real,
    fun block => by rw [same, adds.grown real, List.mem_singleton], count⟩

theorem Adds.lost {added : Nat × Work} (adds : Adds layout work added) (good : Good layout work)
    (none : added.1 = 0) : Step layout faults work added slot path :=
  ⟨⟨adds.grows good, fun real => absurd none real, fun real => absurd none real⟩,
    fun _ => adds.gains good, congrArg InodeInfo.blocks adds.inode⟩

theorem setRoot_blocks (inode : InodeInfo) (slot block : Nat) :
    (inode.setRoot slot block).blocks = inode.blocks := by
  unfold InodeInfo.setRoot
  split_ifs <;> rfl

/-- A block that was added and its number as a root. -/
theorem root_step {added : Nat × Work} (adds : Adds layout work added) (good : Good layout work)
    (inside : slot < 15) (absent : work.inode.root slot = 0)
    (blank : added.1 ≠ 0 → 0 < (shape layout).depth slot → ∀ i, i < layout.pointers →
      entries layout added.2.bytes added.1 i = 0) :
    Step layout faults work (if added.1 = 0 then added
      else (added.1, { added.2 with
        inode := added.2.inode.setRoot slot added.1
        newBlocks := added.2.newBlocks + 1 })) slot [] := by
  split
  · next none => exact adds.lost good none
  · next real =>
      obtain ⟨grows, here⟩ := link_root adds good inside absent real (blank real)
        (added.2.newBlocks + 1)
      have count := congrArg (· + 1) adds.newBlocks
      refine ⟨⟨grows, fun _ => here, fun _ => adds.counts real (fun _ => Iff.rfl) count⟩,
        fun _ => ?_, (setRoot_blocks _ _ _).trans (congrArg InodeInfo.blocks adds.inode)⟩
      refine gains_of_link good grows ⟨Nat.zero_le _, nofun⟩ ?_ absent (by rwa [here]) count
      intro way suffix apart
      exact absurd (List.suffix_nil.mp suffix) apart

theorem ensureTop_step (good : Good layout work) (tree : 12 ≤ slot ∧ slot < 15) :
    Step layout faults work (ensureTop layout faults slot work) slot [] := by
  unfold ensureTop
  split
  · next absent =>
      obtain ⟨adds, blank⟩ := @newTable_adds layout faults work good.bitmaps
      exact root_step adds good tree.2 absent fun real _ => blank real
  · exact .kept good rfl

theorem readBlock_words {table : Nat} {junk : Buf}
    (read : (work.readBlock layout faults table junk).1.1 = true) :
    ∀ i, i < layout.pointers →
      word (work.readBlock layout faults table junk).1.2 i = entries layout work.bytes table i :=
  fun _ inside => ext2ReadBlock_words read inside

theorem written_noFaults (block : Nat) (buf : Buf) :
    (ext2WriteBlock layout noFaults work block buf).1 = true := by
  simp [ext2WriteBlock, noFaults]

theorem way_there {index : Nat} (table : work.node layout slot path ≠ 0) :
    ∀ way, way <:+ index :: path → way ≠ index :: path → work.node layout slot way ≠ 0 := by
  intro way suffix apart
  rcases List.suffix_cons_iff.mp suffix with same | below
  · exact absurd same apart
  · exact node_of_suffix below table

/-- A block that was added and its number in a table. -/
theorem entry_step {added : Nat × Work} {index : Nat} {buf : Buf}
    (adds : Adds layout work added) (good : Good layout work)
    (valid : (shape layout).Valid slot (index :: path))
    (table : work.node layout slot path ≠ 0)
    (absent : work.node layout slot (index :: path) = 0)
    (words : ∀ i, i < layout.pointers →
      word buf i = entries layout work.bytes (work.node layout slot path) i)
    (blank : added.1 ≠ 0 → path.length + 1 < (shape layout).depth slot →
      ∀ i, i < layout.pointers → entries layout added.2.bytes added.1 i = 0) :
    let written := ext2WriteBlock layout faults added.2 (work.node layout slot path)
      (setWord buf index added.1)
    Step layout faults work (if added.1 = 0 then added
      else if written.1 then
        (added.1, { written.2 with newBlocks := written.2.newBlocks + 1 })
      else (0, written.2)) slot (index :: path) := by
  intro written
  have blocks : written.2.inode.blocks = work.inode.blocks := congrArg InodeInfo.blocks adds.inode
  split
  · next none => exact adds.lost good none
  · next real =>
      obtain ⟨grows, here⟩ := @link_entry layout faults _ slot path _ index _ adds good valid table
        absent real words (blank real)
      split
      · next ok =>
          have count := congrArg (· + 1) adds.newBlocks
          refine ⟨⟨grows.counted _ _, fun _ => here ok, fun _ =>
            adds.counts real (fun _ => Iff.rfl) count⟩, fun _ => ?_, blocks⟩
          exact gains_of_link good (grows.counted _ _) valid (way_there table) absent
            (fun none => real ((here ok).symm.trans none)) count
      · next failed =>
          refine .lost grows (fun clear => ?_) blocks
          subst clear
          exact absurd (written_noFaults _ _) failed

theorem ensureTable_step {index top : Nat} (junk : Buf) (good : Good layout work)
    (valid : (shape layout).Valid slot (index :: path))
    (here : work.node layout slot path = top) (table : top ≠ 0) :
    Step layout faults work (ensureTable layout faults top index junk work) slot
      (index :: path) := by
  subst here
  have goodRead : Good layout { work with op := work.op + 1 } :=
    good.counted (work.op + 1) work.newBlocks
  have follows : work.node layout slot (index :: path) =
      entries layout work.bytes (work.node layout slot path) index := follow_of_ne table index
  unfold ensureTable
  dsimp only
  split
  · next read =>
      have words := readBlock_words read
      split
      · next empty =>
          rw [words index valid.head] at empty
          obtain ⟨adds, blank⟩ := @newTable_adds layout faults _ goodRead.bitmaps
          exact (entry_step adds goodRead valid table (follows.trans empty) words
            fun real _ => blank real).later
      · exact (Step.kept goodRead (follows.trans (words index valid.head).symm)).later
  · exact (Step.lost (.refl goodRead slot _) (fun _ => gains_of_same (fun _ _ _ => rfl) rfl)
      rfl).later

structure ReachedData (layout : Layout) (faults : Faults) (before : Work)
    (found : (Nat × Bool) × Work) (slot : Nat) (path : List Nat) : Prop where
  step : Step layout faults before (found.1.1, found.2) slot path
  new : found.1.1 ≠ 0 → (found.1.2 = true ↔ before.node layout slot path = 0)

theorem ReachedData.lost (step : Step layout faults before (0, after) slot path) :
    ReachedData layout faults before ((0, false), after) slot path :=
  ⟨step, fun wrong => absurd rfl wrong⟩

theorem ReachedData.added {added : Nat × Work} {written : Bool × Work}
    (step : Step layout faults before (if added.1 = 0 then added
      else if written.1 then (added.1, after) else (0, written.2)) slot path)
    (absent : before.node layout slot path = 0) :
    ReachedData layout faults before (if added.1 = 0 then ((0, false), added.2)
      else if written.1 then ((added.1, true), after) else ((0, false), written.2)) slot path := by
  split
  · next none =>
      rw [if_pos none] at step
      exact .lost (none ▸ step)
  · next real =>
      rw [if_neg real] at step
      split
      · next ok =>
          rw [if_pos ok] at step
          exact ⟨step, fun _ => by simp [absent]⟩
      · next failed =>
          rw [if_neg failed] at step
          exact .lost step

theorem ensureData_step {index top : Nat} (junk : Buf) (good : Good layout work)
    (valid : (shape layout).Valid slot (index :: path))
    (last : (shape layout).depth slot = path.length + 1)
    (here : work.node layout slot path = top) (table : top ≠ 0) :
    ReachedData layout faults work (ensureData layout faults top index junk work) slot
      (index :: path) := by
  subst here
  have goodRead : Good layout { work with op := work.op + 1 } :=
    good.counted (work.op + 1) work.newBlocks
  have follows : work.node layout slot (index :: path) =
      entries layout work.bytes (work.node layout slot path) index := follow_of_ne table index
  unfold ensureData
  dsimp only
  split
  · next read =>
      have words := readBlock_words read
      split
      · next empty =>
          rw [words index valid.head] at empty
          have adds := @allocBlock_adds layout faults _ goodRead.bitmaps
          exact .added (entry_step adds goodRead valid table (follows.trans empty) words
            fun _ below => by omega).later (follows.trans empty)
      · next full =>
          rw [words index valid.head] at full
          exact ⟨(Step.kept goodRead (follows.trans (words index valid.head).symm)).later,
            fun _ => by simp [follows, full]⟩
  · exact .lost (Step.lost (.refl goodRead slot _)
      (fun _ => gains_of_same (fun _ _ _ => rfl) rfl) rfl).later

theorem ensureDirect_step (good : Good layout work) (direct : slot < 12) :
    ReachedData layout faults work (ensureDirect layout faults slot work) slot [] := by
  unfold ensureDirect
  split
  · next absent =>
      have flat : (shape layout).depth slot = 0 := by
        simp only [shape]
        rw [if_neg (by omega), if_neg (by omega), if_neg (by omega)]
      have adds := @allocBlock_adds layout faults work good.bitmaps
      have step := @root_step layout faults _ _ _ adds good (by omega) absent
        fun _ deep => absurd flat (by omega)
      dsimp only
      split
      · next none =>
          rw [if_pos none] at step
          exact .lost (none ▸ step)
      · next real =>
          rw [if_neg real] at step
          exact ⟨step, fun _ => by simp [nodeOf, PointerTree.node, absent]⟩
  · next present =>
      exact ⟨.kept good rfl, fun _ => by simp [nodeOf, PointerTree.node, present]⟩

/-- A step on the way, and what follows it. -/
theorem onward_step {found : Nat × Work} {next : Nat → Work → (Nat × Bool) × Work}
    (first : Step layout faults before found slot way) (above : way <:+ path)
    (shorter : way.length < path.length) (valid : (shape layout).Valid slot path)
    (rest : found.1 ≠ 0 → ReachedData layout faults found.2 (next found.1 found.2) slot path) :
    ReachedData layout faults before (onward found next) slot path := by
  unfold onward
  split
  · exact .lost (.lost (first.grows.widen above) first.gains first.blocks)
  · next real =>
      have later := rest real
      refine ⟨⟨⟨(first.grows.widen above).trans later.step.grows, later.step.here,
        fun last => (first.counts real).trans (later.step.counts last)⟩,
        fun clear => (first.gains clear).trans (later.step.gains clear),
        later.step.blocks.trans first.blocks⟩, fun last => ?_⟩
      rw [later.new last]
      -- The place itself is below what the first step has changed.
      have same : found.2.node layout slot path = before.node layout slot path := by
        by_contra changed
        have longer := (first.grows.along slot path valid changed).2.length_le
        omega
      rw [same]

theorem ensureBlock_step {b : Nat} (junk : Buf) (good : Good layout work)
    (inside : b < layout.reach) :
    ReachedData layout faults work (ext2EnsureBlockForWrite layout faults b junk work)
      (placeOf layout b).1 (placeOf layout b).2 := by
  have valid := (placeOf_valid inside).1
  unfold placeOf at valid ⊢
  unfold ext2EnsureBlockForWrite
  by_cases direct : b < 12
  · simp only [if_pos direct] at valid ⊢
    exact ensureDirect_step good direct
  · simp only [if_neg direct] at valid ⊢
    by_cases single : b < 12 + layout.pointers
    · simp only [if_pos single] at valid ⊢
      have top := @ensureTop_step layout faults work 12 good (by omega)
      refine onward_step top (List.nil_suffix) (by simp) valid fun real => ?_
      exact ensureData_step junk top.grows.good valid rfl (top.here real) real
    · simp only [if_neg single] at valid ⊢
      by_cases double : b < 12 + layout.pointers + layout.pointers * layout.pointers
      · simp only [if_pos double] at valid ⊢
        have top := @ensureTop_step layout faults work 13 good (by omega)
        refine onward_step top (List.nil_suffix) (by simp) valid fun real => ?_
        have mid := @ensureTable_step layout faults _ _ _ _ _ junk top.grows.good valid.tail
          (top.here real) real
        refine onward_step mid (List.suffix_cons _ _) (by simp) valid fun real => ?_
        exact ensureData_step junk mid.grows.good valid rfl (mid.here real) real
      · simp only [if_neg double] at valid ⊢
        have triple : b < 12 + layout.pointers + layout.pointers * layout.pointers +
            layout.pointers * layout.pointers * layout.pointers := inside
        rw [if_pos triple]
        have top := @ensureTop_step layout faults work 14 good (by omega)
        refine onward_step top (List.nil_suffix) (by simp) valid fun real => ?_
        have high := @ensureTable_step layout faults _ _ _ _ _ junk top.grows.good
          valid.tail.tail (top.here real) real
        refine onward_step high (List.suffix_append [_, _] _) (by simp) valid fun real => ?_
        have mid := @ensureTable_step layout faults _ _ _ _ _ junk high.grows.good valid.tail
          (high.here real) real
        refine onward_step mid (List.suffix_cons _ _) (by simp) valid fun real => ?_
        exact ensureData_step junk mid.grows.good valid rfl (mid.here real) real

end Grow

theorem good_blank (bitmaps : BitmapsSound layout work)
    (blank : ∀ slot, work.inode.root slot = 0) : Good layout work := by
  have zero : ∀ slot path, nodeOf layout work.bytes work.inode slot path = 0 := by
    intro slot path
    induction path with
    | nil => exact blank slot
    | cons index path ih =>
      change follow _ (nodeOf layout work.bytes work.inode slot path) index = 0
      rw [ih, follow_zero]
  exact ⟨bitmaps, fun slot path _ _ _ _ real _ => absurd (zero slot path) real,
    fun slot path _ real => absurd (zero slot path) real⟩

theorem ensureBlock_good {b : Nat} (junk : Buf) (good : Good layout work)
    (inside : b < layout.reach) :
    Good layout (ext2EnsureBlockForWrite layout faults b junk work).2 :=
  (ensureBlock_step junk good inside).step.grows.good

theorem place_apart {b other : Nat} (inside : b < layout.reach) (within : other < layout.reach)
    (apart : other ≠ b) : ¬ ((placeOf layout other).1 = (placeOf layout b).1 ∧
      (placeOf layout other).2 <:+ (placeOf layout b).2) := by
  rintro ⟨slot, way⟩
  have long := (placeOf_valid inside).2
  have longOther := (placeOf_valid within).2
  have same := way.eq_of_length (by rw [long, longOther, slot])
  exact apart (placeOf_injective (Prod.ext slot same))

/-- After a block was found or added for a write, the resolver finds it, every other
logical block is where it was, nothing is shared, and the new blocks are counted. -/
theorem ensure_block_maps (layout : Layout) (faults : Faults) (work : Work) (b : Nat)
    (junk stack : Buf) (good : Good layout work) (inside : b < layout.reach)
    (ok : (ext2EnsureBlockForWrite layout faults b junk work).1.1 ≠ 0) :
    let done := ext2EnsureBlockForWrite layout faults b junk work
    let before := resolved layout work.bytes work.inode stack
    let after := resolved layout done.2.bytes done.2.inode stack
    after b = done.1.1 ∧
      (∀ other, other < layout.reach → other ≠ b → after other = before other) ∧
      (∀ one other, one < layout.reach → other < layout.reach → after one ≠ 0 →
        after one = after other → one = other) ∧
      (∀ one, one < layout.reach → after one ≠ 0 → ¬ done.2.Pointer layout (after one)) ∧
      (∀ one op, one < layout.dirReach →
        (ext2DirBlock layout noFaults done.2.bytes done.2.inode one op stack).1 = after one) ∧
      Counts layout work done.2 ∧ (done.1.2 = true ↔ before b = 0) ∧ Good layout done.2 := by
  intro done before after
  have reached := @ensureBlock_step layout faults work b junk good inside
  have kept := reached.step.grows.good
  have found : ∀ one, one < layout.reach → after one = done.2.node layout
      (placeOf layout one).1 (placeOf layout one).2 := fun one within => resolved_eq stack within
  have was : ∀ one, one < layout.reach → before one = work.node layout
      (placeOf layout one).1 (placeOf layout one).2 := fun one within => resolved_eq stack within
  refine ⟨?_, ?_, ?_, ?_, ?_, reached.step.counts ok, ?_, kept⟩
  · rw [found b inside]
    exact reached.step.here ok
  · intro other within apart
    rw [found other within, was other within]
    by_contra changed
    exact place_apart inside within apart
      (reached.step.grows.along _ _ (placeOf_valid within).1 changed)
  · intro one other within inside' real same
    rw [found one within] at real same
    rw [found other inside'] at same
    obtain ⟨slot, path⟩ := kept.separated _ _ _ _ (placeOf_valid within).1
      (placeOf_valid inside').1 real same
    exact placeOf_injective (Prod.ext slot path)
  · rintro one within real ⟨slot, path, valid, short, same⟩
    rw [found one within] at real same
    obtain ⟨slots, paths⟩ := kept.separated _ _ _ _ (placeOf_valid within).1 valid real same.symm
    have long := (placeOf_valid within).2
    rw [paths, slots] at long
    omega
  · intro one op within
    have below : one < layout.reach := by
      simp only [Layout.dirReach, Layout.reach] at within ⊢
      omega
    rw [found one below]
    exact ext2DirBlock_clear within (clear_noFaults _ _)
  · rw [was b inside]
    exact reached.new ok

def smallLayout : Layout :=
  ⟨Bitmaps.twoGroups, 1024, 128, fun _ => 0, .inl rfl⟩

def newFile : Work :=
  ⟨fun _ => 0, Bitmaps.mounted Bitmaps.blank, 0, ⟨0, 0, 0, 0, 0, fun _ => 0, 0, 0, 0⟩, 0⟩

theorem newFile_good : Good smallLayout newFile :=
  good_blank ⟨(Bitmaps.mounted_refines _ _).sound, nofun⟩ fun slot => by
    simp [newFile, InodeInfo.root]

/-- The first block behind two levels of pointers takes three blocks. -/
theorem ensure_block_maps_double :
    let done := ext2EnsureBlockForWrite smallLayout noFaults 268 (fun _ => 0) newFile
    done.1 = (3, true) ∧ resolved smallLayout done.2.bytes done.2.inode (fun _ => 0) 268 = 3 ∧
      Counts smallLayout newFile done.2 := by
  have ok : (ext2EnsureBlockForWrite smallLayout noFaults 268 (fun _ => 0) newFile).1 =
      (3, true) := by decide
  have maps := ensure_block_maps smallLayout noFaults newFile 268 (fun _ => 0) (fun _ => 0)
    newFile_good (by decide) (by decide)
  exact ⟨ok, maps.1.trans (congrArg Prod.fst ok), maps.2.2.2.2.2.1⟩

end Racccoon.Ext2.Blocks
