import Racccoon.Ext2.BlockMap
import Racccoon.Ext2.Reading

/-!
What a failed read of a sector does to the data read. A pointer block that cannot be read
makes its blocks look like holes, and a directory's like blocks without entries, so what is
read is right exactly where no such block is met before the reading ends.
-/

namespace Racccoon.Ext2.Blocks

open Words PointerTree

variable {layout : Layout} {faults : Faults} {bytes : Buf} {inode : InodeInfo} {span : Span}
  {cache : BlockCache} {b : Nat}

def trueByte (layout : Layout) (bytes : Buf) (inode : InodeInfo) (pos : Nat) : UInt8 :=
  let block := blockOf layout bytes inode (pos / layout.blockSize)
  if block = 0 then 0 else blockBytes layout bytes block (pos % layout.blockSize)

/-- The bytes are those of the file, and none is of a block whose pointer could not be
read. -/
structure Honest (layout : Layout) (faults : Faults) (bytes : Buf) (inode : InodeInfo)
    (offset : Nat) (dst : List UInt8) : Prop where
  content : dst = (List.range' offset dst.length).map (trueByte layout bytes inode)
  seen : ∀ pos, offset ≤ pos → pos < offset + dst.length →
    ClearBlock layout faults bytes inode (pos / layout.blockSize)

/-- A block that is found but cannot be read ends the reading. -/
structure Stops (layout : Layout) (faults : Faults) (bytes : Buf) (inode : InodeInfo)
    (b : Nat) : Prop where
  clear : ClearBlock layout faults bytes inode b
  data : blockOf layout bytes inode b ≠ 0
  shut : Shut layout faults (blockOf layout bytes inode b)

def Span.Wants (span : Span) (layout : Layout) (b : Nat) : Prop :=
  b < layout.reach ∧ 0 < span.readLen ∧ b * layout.blockSize < span.offset + span.readLen

def Spared (layout : Layout) (faults : Faults) (bytes : Buf) (inode : InodeInfo) (span : Span)
    (start : Nat) : Prop :=
  ∀ lost, start ≤ lost → span.Wants layout lost → ¬ ClearBlock layout faults bytes inode lost →
    ∃ stop, start ≤ stop ∧ stop < lost ∧ Stops layout faults bytes inode stop

def Ready (layout : Layout) (faults : Faults) (bytes : Buf) (inode : InodeInfo)
    (cache : BlockCache) (b : Nat) : Prop :=
  Coherent layout faults bytes inode cache ∨
    (¬ ClearBlock layout faults bytes inode b ∧
      ∀ op, (ext2ResolveBlock layout faults bytes inode b { cache with op := op }).1 = 0)

def InRun (layout : Layout) (faults : Faults) (bytes : Buf) (inode : InodeInfo)
    (phys0 lb run : Nat) : Prop :=
  ∀ k, k < run → ClearBlock layout faults bytes inode (lb + k) ∧
    blockOf layout bytes inode (lb + k) = phys0 + k

theorem extendRun_inRun {phys0 lb wantBlocks : Nat} (fuel run : Nat)
    (coherent : Coherent layout faults bytes inode cache)
    (settled : ∀ b, b < lb + wantBlocks → b < layout.reach →
      ¬ ClearBlock layout faults bytes inode b → Lasting layout faults)
    (phys : phys0 ≠ 0) (inRun : InRun layout faults bytes inode phys0 lb run) :
    let ext := extendRun layout faults bytes inode phys0 lb wantBlocks layout.reach fuel run cache
    run ≤ ext.1 ∧ InRun layout faults bytes inode phys0 lb ext.1 ∧
      Ready layout faults bytes inode ext.2 (lb + ext.1) := by
  induction fuel generalizing run cache with
  | zero => exact ⟨Nat.le_refl _, inRun, .inl coherent⟩
  | succ _ ih =>
    unfold extendRun
    dsimp only
    split
    · next more =>
        by_cases clear : ClearBlock layout faults bytes inode (lb + run)
        · obtain ⟨found, kept⟩ := ext2ResolveBlock_clear coherent more.2 clear
          split
          · exact ⟨Nat.le_refl _, inRun, .inl kept⟩
          · next follows =>
              rw [found, not_not] at follows
              have longer : InRun layout faults bytes inode phys0 lb (run + 1) := by
                intro k small
                by_cases last : k = run
                · subst last
                  exact ⟨clear, follows⟩
                · exact inRun k (by omega)
              obtain ⟨grows, inside, ready⟩ := ih (run + 1) kept longer
              exact ⟨by omega, inside, ready⟩
        · have lasting := settled (lb + run) (by omega) more.2 clear
          obtain ⟨zero, again⟩ := ext2ResolveBlock_lost lasting coherent more.2 clear
          rw [if_pos (by omega)]
          exact ⟨Nat.le_refl _, inRun, .inr ⟨clear, again⟩⟩
    · exact ⟨Nat.le_refl _, inRun, .inl coherent⟩

section Sectors
variable {op phys0 run : Nat}

/-- Sector `j` of a run is in its block `j / sectorsPerBlock`. -/
theorem sector_split (layout : Layout) (phys0 j : Nat) :
    phys0 * layout.sectorsPerBlock + j =
      (phys0 + j / layout.sectorsPerBlock) * layout.sectorsPerBlock +
        j % layout.sectorsPerBlock := by
  rw [Nat.add_mul, Nat.add_assoc, Nat.div_add_mod']

theorem Layout.sectorsPerBlock_pos (layout : Layout) : 0 < layout.sectorsPerBlock := by
  rcases layout.sized with sized | sized | sized <;>
    simp [Layout.sectorsPerBlock, sectorSize, sized]

theorem run_unreadable
    (failed : readable faults op (phys0 * layout.sectorsPerBlock)
      (run * layout.sectorsPerBlock) = false) :
    ∃ k, k < run ∧ ¬ Open layout faults (phys0 + k) := by
  have pos := layout.sectorsPerBlock_pos
  simp only [readable, List.all_eq_false, List.mem_range] at failed
  obtain ⟨j, small, fails⟩ := failed
  rw [sector_split] at fails
  refine ⟨j / layout.sectorsPerBlock, Nat.div_lt_of_lt_mul (by rwa [Nat.mul_comm]), ?_⟩
  intro opens
  have all := opens op
  simp only [readable, List.all_eq_true, List.mem_range] at all
  exact fails (all _ (Nat.mod_lt _ pos))

theorem run_readable
    (read : readable faults op (phys0 * layout.sectorsPerBlock)
      (run * layout.sectorsPerBlock) = true) {k : Nat} (inside : k < run) :
    ¬ Shut layout faults (phys0 + k) := by
  intro shut
  have failed := shut op
  have room : (k + 1) * layout.sectorsPerBlock ≤ run * layout.sectorsPerBlock :=
    Nat.mul_le_mul_right _ inside
  rw [Nat.add_mul] at room
  simp only [readable, List.all_eq_false, List.all_eq_true, List.mem_range] at failed read
  obtain ⟨j, small, fails⟩ := failed
  apply fails
  have here := read (k * layout.sectorsPerBlock + j) (by omega)
  rwa [← Nat.add_assoc, ← Nat.add_mul] at here

theorem run_bytes {buf : Buf}
    (read : (fsReadSectors faults bytes op (phys0 * layout.sectorsPerBlock)
      (run * layout.sectorsPerBlock) buf).1 = true) {k i : Nat} (inside : k < run)
    (small : i < layout.blockSize) :
    (fsReadSectors faults bytes op (phys0 * layout.sectorsPerBlock)
      (run * layout.sectorsPerBlock) buf).2 (k * layout.blockSize + i) =
        blockBytes layout bytes (phys0 + k) i := by
  have sectors := layout.sectors
  have room : (k + 1) * layout.blockSize ≤ run * layout.blockSize :=
    Nat.mul_le_mul_right _ inside
  rw [Nat.add_mul] at room
  have within : k * layout.blockSize + i < run * layout.sectorsPerBlock * sectorSize := by
    rw [Nat.mul_assoc, sectors]
    omega
  have before : (k * layout.blockSize + i) / sectorSize + 1 ≤ run * layout.sectorsPerBlock := by
    rw [Nat.mul_comm _ sectorSize] at within
    exact Nat.div_lt_of_lt_mul within
  simp only [fsReadSectors] at read ⊢
  rw [if_pos ⟨within, readable_take read before⟩, Nat.mul_assoc, sectors, blockBytes,
    Nat.add_mul, Nat.add_assoc]

end Sectors

def Placed (layout : Layout) (faults : Faults) (bytes : Buf) (inode : InodeInfo) (b run : Nat)
    (buf : Buf) : Prop :=
  ∀ k, k < run → ClearBlock layout faults bytes inode (b + k) ∧
    ¬ Stops layout faults bytes inode (b + k) ∧
    ∀ i, i < layout.blockSize →
      buf (k * layout.blockSize + i) =
        trueByte layout bytes inode ((b + k) * layout.blockSize + i)

theorem trueByte_at (block : Nat) {i : Nat} (small : i < layout.blockSize) :
    trueByte layout bytes inode (block * layout.blockSize + i) =
      if blockOf layout bytes inode block = 0 then 0
      else blockBytes layout bytes (blockOf layout bytes inode block) i := by
  have pos := layout.blockSize_pos
  have high : (block * layout.blockSize + i) / layout.blockSize = block := by
    rw [Nat.mul_comm, Nat.mul_add_div pos, Nat.div_eq_of_lt small, Nat.add_zero]
  have low : (block * layout.blockSize + i) % layout.blockSize = i := by
    rw [Nat.mul_comm, Nat.mul_add_mod, Nat.mod_eq_of_lt small]
  simp only [trueByte, high, low]

/-- A run of blocks is read, or it has one that ends the reading. -/
theorem contigRun_clear {wantBlocks : Nat} (runBuf : Buf)
    (coherent : Coherent layout faults bytes inode cache) (inside : b < layout.reach)
    (clear : ClearBlock layout faults bytes inode b)
    (settled : ∀ lost, lost < b + max wantBlocks 1 → lost < layout.reach →
      ¬ ClearBlock layout faults bytes inode lost → Lasting layout faults) :
    let run := ext2ReadContigRun layout faults bytes inode cache b wantBlocks layout.reach runBuf
    (1 ≤ run.1 ∧ Placed layout faults bytes inode b run.1 run.2.1 ∧
        Ready layout faults bytes inode run.2.2 (b + run.1)) ∨
      (run.1 = 0 ∧ ∃ count k, k < count ∧
        (∀ k, k < count → ClearBlock layout faults bytes inode (b + k)) ∧
        blockOf layout bytes inode (b + k) ≠ 0 ∧
        ¬ Open layout faults (blockOf layout bytes inode (b + k))) := by
  obtain ⟨found, kept⟩ := ext2ResolveBlock_clear coherent inside clear
  unfold ext2ReadContigRun
  dsimp only
  rw [found]
  split
  · next hole =>
      refine .inl ⟨Nat.le_refl _, fun k small => ?_, .inl kept⟩
      obtain rfl : k = 0 := by omega
      refine ⟨clear, fun stops => stops.data hole, fun i within => ?_⟩
      dsimp only
      rw [Nat.add_zero, trueByte_at b within, if_pos hole, if_pos (by omega)]
  · next data =>
      have one : InRun layout faults bytes inode (blockOf layout bytes inode b) b 1 := by
        intro k small
        obtain rfl : k = 0 := by omega
        exact ⟨clear, rfl⟩
      obtain ⟨least, inRun, ready⟩ := @extendRun_inRun layout faults bytes inode _ _ b
        (min (max wantBlocks 1) layout.maxRun) (min (max wantBlocks 1) layout.maxRun) 1 kept
        (fun lost near => settled lost (by omega)) data one
      generalize extendRun layout faults bytes inode (blockOf layout bytes inode b) b
        (min (max wantBlocks 1) layout.maxRun) layout.reach
        (min (max wantBlocks 1) layout.maxRun) 1 _ = ext at least inRun ready
      split
      · next read =>
          refine .inl ⟨least, fun k small => ?_, ?_⟩
          · obtain ⟨clearHere, here⟩ := inRun k small
            refine ⟨clearHere, fun stops => ?_, fun i within => ?_⟩
            · have shut := stops.shut
              rw [here] at shut
              exact run_readable read small shut
            · dsimp only
              rw [run_bytes read small within, trueByte_at (b + k) within, here,
                if_neg (by omega)]
          · exact ready.imp (fun coherent => ⟨coherent.leaf, coherent.mid, coherent.doubleTop,
              coherent.tripleTop⟩) id
      · next failed =>
          obtain ⟨k, small, closed⟩ := run_unreadable (Bool.not_eq_true _ ▸ failed)
          refine .inr ⟨rfl, ext.1, k, small, fun k small => (inRun k small).1, ?_, ?_⟩
          · rw [(inRun k small).2]
            omega
          · rwa [(inRun k small).2]

def Span.before (span : Span) (layout : Layout) (b : Nat) : Nat :=
  min span.readLen (b * layout.blockSize - span.offset)

theorem entry_skip {start : Nat} {dst : List UInt8} (first : span.offset / layout.blockSize ≤ start)
    (sofar : dst.length = span.before layout start) (more : dst.length < span.readLen) :
    let skip := if start = span.offset / layout.blockSize then span.offset % layout.blockSize else 0
    span.offset + dst.length = start * layout.blockSize + skip ∧ skip < layout.blockSize := by
  have pos := layout.blockSize_pos
  have whole := Nat.div_add_mod' span.offset layout.blockSize
  have small := Nat.mod_lt span.offset pos
  simp only [Span.before] at sofar
  split
  · next here =>
      subst here
      exact ⟨by omega, small⟩
  · next later =>
      have past : (span.offset / layout.blockSize + 1) * layout.blockSize ≤
          start * layout.blockSize := Nat.mul_le_mul_right _ (by omega)
      rw [Nat.add_mul] at past
      exact ⟨by omega, pos⟩

theorem copyBlocks_eq {runBuf : Buf} (left k : Nat) (dst : List UInt8)
    (first : span.offset / layout.blockSize ≤ b) (sofar : dst.length = span.before layout (b + k)) :
    copyBlocks layout span b runBuf left k dst =
      dst ++ (List.range' (span.offset + dst.length)
        (span.before layout (b + k + left) - dst.length)).map
          fun pos => runBuf (pos - b * layout.blockSize) := by
  induction left generalizing k dst with
  | zero => simp [copyBlocks, sofar]
  | succ left ih =>
    unfold copyBlocks
    dsimp only
    split
    · next more =>
        obtain ⟨entry, small⟩ := @entry_skip layout span (b + k) dst (by omega) sofar more
        generalize (if b + k = span.offset / layout.blockSize then
          span.offset % layout.blockSize else 0) = skip at entry small ⊢
        rw [Nat.add_mul] at entry
        have next : dst.length + min (span.readLen - dst.length) (layout.blockSize - skip) =
            span.before layout (b + (k + 1)) := by
          simp only [Span.before, Nat.add_mul]
          omega
        have later : span.before layout (b + (k + 1)) ≤
            span.before layout (b + k + (left + 1)) := by
          have wide : (b + (k + 1)) * layout.blockSize ≤
              (b + k + (left + 1)) * layout.blockSize := Nat.mul_le_mul_right _ (by omega)
          simp only [Span.before]
          omega
        generalize min (span.readLen - dst.length) (layout.blockSize - skip) = chunk at next ⊢
        rw [ih (k + 1) _ (by simp [next])]
        have rest : span.before layout (b + k + (left + 1)) - dst.length =
            chunk + (span.before layout (b + k + (left + 1)) - (dst.length + chunk)) := by
          omega
        have index : b + (k + 1) + left = b + k + (left + 1) := by omega
        rw [rest, ← List.range'_append_1, List.map_append, List.append_assoc, index]
        congr 1
        simp only [List.length_append, List.length_map, List.length_range, Nat.add_assoc]
        congr 1
        rw [List.range'_eq_map_range, List.map_map]
        apply List.map_congr_left
        intro i _
        simp only [Function.comp_apply]
        congr 1
        omega
    · next done =>
        have full : span.before layout (b + k + (left + 1)) = dst.length := by
          have wide : (b + k) * layout.blockSize ≤
              (b + k + (left + 1)) * layout.blockSize := Nat.mul_le_mul_right _ (by omega)
          simp only [Span.before] at sofar ⊢
          omega
        simp [full]

variable {dst : List UInt8}

theorem wants_of_more (inside : b < layout.reach) (sofar : dst.length = span.before layout b)
    (more : dst.length < span.readLen) : span.Wants layout b := by
  simp only [Span.before] at sofar
  exact ⟨inside, by omega, by omega⟩

/-- No block of a run is behind the last one asked for. -/
theorem wants_of_run {lost : Nat} (wanted : span.Wants layout b)
    (sofar : dst.length = span.before layout b) (within : lost < layout.reach)
    (near : lost < b + max ((span.readLen - dst.length + layout.blockSize - 1) % 2 ^ 32 /
      layout.blockSize) 1) : span.Wants layout lost := by
  refine ⟨within, wanted.2.1, ?_⟩
  have bound := Nat.div_le_div_right (c := layout.blockSize)
    (Nat.mod_le (span.readLen - dst.length + layout.blockSize - 1) (2 ^ 32))
  have whole := Nat.div_mul_le_self (span.readLen - dst.length + layout.blockSize - 1)
    layout.blockSize
  generalize (span.readLen - dst.length + layout.blockSize - 1) / layout.blockSize = most
    at bound whole
  have last := wanted.2.2
  rcases Nat.lt_or_ge b lost with later | before
  · have room : lost * layout.blockSize + layout.blockSize ≤
        b * layout.blockSize + most * layout.blockSize := by
      rw [← Nat.succ_mul, ← Nat.add_mul]
      exact Nat.mul_le_mul_right _ (by omega)
    simp only [Span.before] at sofar
    omega
  · have low : lost * layout.blockSize ≤ b * layout.blockSize := Nat.mul_le_mul_right _ before
    omega

/-- What a run puts behind the bytes there are is what the file has there. -/
theorem copied_true {runBuf : Buf} {run : Nat} (first : span.offset / layout.blockSize ≤ b)
    (sofar : dst.length = span.before layout b)
    (placed : Placed layout faults bytes inode b run runBuf) :
    copyBlocks layout span b runBuf run 0 dst =
      dst ++ (List.range' (span.offset + dst.length)
        (span.before layout (b + run) - dst.length)).map (trueByte layout bytes inode) := by
  have pos := layout.blockSize_pos
  rw [copyBlocks_eq run 0 dst first sofar]
  congr 1
  apply List.map_congr_left
  intro at_ member
  have bounds := List.mem_range'_1.mp member
  simp only [Span.before, Nat.add_mul] at sofar bounds
  have after : b * layout.blockSize ≤ at_ := by omega
  have inRun : at_ - b * layout.blockSize < run * layout.blockSize := by omega
  have split := Nat.div_add_mod' (at_ - b * layout.blockSize) layout.blockSize
  have block : (at_ - b * layout.blockSize) / layout.blockSize < run :=
    Nat.div_lt_of_lt_mul (by rwa [Nat.mul_comm layout.blockSize])
  have byte := (placed _ block).2.2 _ (Nat.mod_lt (at_ - b * layout.blockSize) pos)
  rw [Nat.add_mul, Nat.add_assoc, split, Nat.add_sub_cancel' after] at byte
  exact byte

theorem copied_length {runBuf : Buf} {run : Nat} {dst : List UInt8}
    (first : span.offset / layout.blockSize ≤ b) (sofar : dst.length = span.before layout b) :
    (copyBlocks layout span b runBuf run 0 dst).length = span.before layout (b + run) := by
  have wide : b * layout.blockSize ≤ (b + run) * layout.blockSize :=
    Nat.mul_le_mul_right _ (by omega)
  have grows : span.before layout b ≤ span.before layout (b + run) := by
    simp only [Span.before]
    omega
  rw [copyBlocks_eq run 0 dst first sofar, Nat.add_zero, List.length_append, List.length_map,
    List.length_range']
  omega

theorem Honest.nil (offset : Nat) : Honest layout faults bytes inode offset [] :=
  ⟨rfl, fun pos low high => by simp at high; omega⟩

/-- Blocks all of which could be found and read keep the bytes honest. -/
theorem Honest.copied {runBuf : Buf} {run : Nat}
    (honest : Honest layout faults bytes inode span.offset dst)
    (first : span.offset / layout.blockSize ≤ b) (sofar : dst.length = span.before layout b)
    (placed : Placed layout faults bytes inode b run runBuf) :
    Honest layout faults bytes inode span.offset (copyBlocks layout span b runBuf run 0 dst) := by
  have pos := layout.blockSize_pos
  have total := @copied_length layout span b runBuf run dst first sofar
  have wide : b * layout.blockSize ≤ (b + run) * layout.blockSize :=
    Nat.mul_le_mul_right _ (by omega)
  have grows : dst.length ≤ span.before layout (b + run) := by
    rw [sofar]
    simp only [Span.before]
    omega
  refine ⟨?_, fun place low high => ?_⟩
  · rw [total, copied_true first sofar placed]
    conv_lhs => rw [honest.content]
    rw [List.length_map, List.length_range', ← List.map_append, List.range'_append_1,
      Nat.add_sub_cancel' grows]
  · rcases Nat.lt_or_ge place (span.offset + dst.length) with old | new
    · exact honest.seen place low old
    · rw [total] at high
      simp only [Span.before, Nat.add_mul] at sofar high
      have least : b ≤ place / layout.blockSize := (Nat.le_div_iff_mul_le pos).mpr (by omega)
      have most : place / layout.blockSize < b + run :=
        (Nat.div_lt_iff_lt_mul pos).mpr (by rw [Nat.add_mul]; omega)
      have clear := (placed (place / layout.blockSize - b) (by omega)).1
      rwa [Nat.add_sub_cancel' least] at clear

theorem readRuns_grows (fuel b : Nat) (cache : BlockCache) (runBuf : Buf) (dst : List UInt8)
    (first : span.offset / layout.blockSize ≤ b) (sofar : dst.length = span.before layout b) :
    dst.length ≤ (readRuns layout faults bytes inode span fuel b cache runBuf dst).length := by
  induction fuel generalizing b cache runBuf dst with
  | zero => exact Nat.le_refl _
  | succ _ ih =>
    unfold readRuns
    dsimp only
    split
    · split
      · exact Nat.le_refl _
      · generalize ext2ReadContigRun layout faults bytes inode cache b _ layout.reach runBuf = run
        have total := @copied_length layout span b run.2.1 run.1 dst first sofar
        refine Nat.le_trans ?_ (ih _ _ _ _ (by omega) total)
        have wide : b * layout.blockSize ≤ (b + run.1) * layout.blockSize :=
          Nat.mul_le_mul_right _ (by omega)
        rw [total, sofar]
        simp only [Span.before]
        omega
    · exact Nat.le_refl _

/-- A hole where the pointer could not be read is put behind the bytes there are. -/
theorem contigRun_lost {wantBlocks : Nat} (runBuf : Buf) (lasting : Lasting layout faults)
    (ready : Ready layout faults bytes inode cache b) (inside : b < layout.reach)
    (lost : ¬ ClearBlock layout faults bytes inode b) :
    (ext2ReadContigRun layout faults bytes inode cache b wantBlocks layout.reach runBuf).1 = 1 := by
  have zero : (ext2ResolveBlock layout faults bytes inode b cache).1 = 0 := by
    rcases ready with coherent | ⟨-, again⟩
    · exact (ext2ResolveBlock_lost lasting coherent inside lost).1
    · exact again cache.op
  unfold ext2ReadContigRun
  rw [if_pos zero]

theorem spared_of_done (sofar : dst.length = span.before layout b)
    (done : ¬ (b < layout.reach ∧ dst.length < span.readLen)) :
    Spared layout faults bytes inode span b := by
  intro lost later wanted
  have low : b * layout.blockSize ≤ lost * layout.blockSize := Nat.mul_le_mul_right _ later
  have inside := wanted.1
  have some_ := wanted.2.1
  have last := wanted.2.2
  simp only [Span.before] at sofar
  omega

theorem spared_iff_behind {run : Nat} {buf : Buf}
    (placed : Placed layout faults bytes inode b run buf) :
    Spared layout faults bytes inode span (b + run) ↔ Spared layout faults bytes inode span b := by
  constructor
  · intro spared lost later wanted unclear
    rcases Nat.lt_or_ge lost (b + run) with inRun | behind
    · have clear := (placed (lost - b) (by omega)).1
      rw [Nat.add_sub_cancel' later] at clear
      exact absurd clear unclear
    · obtain ⟨stop, low, high, stops⟩ := spared lost behind wanted unclear
      exact ⟨stop, by omega, high, stops⟩
  · intro spared lost later wanted unclear
    obtain ⟨stop, low, high, stops⟩ := spared lost (by omega) wanted unclear
    refine ⟨stop, ?_, high, stops⟩
    by_contra inRun
    have none := (placed (stop - b) (by omega)).2.1
    rw [Nat.add_sub_cancel' low] at none
    exact none stops

/-- The next byte is in the next block. -/
theorem next_byte (first : span.offset / layout.blockSize ≤ b)
    (sofar : dst.length = span.before layout b) (more : dst.length < span.readLen) :
    (span.offset + dst.length) / layout.blockSize = b ∧
      dst.length < span.before layout (b + 1) := by
  have pos := layout.blockSize_pos
  have reaches := Nat.lt_div_mul_add pos (a := span.offset)
  have start : span.offset / layout.blockSize * layout.blockSize ≤ b * layout.blockSize :=
    Nat.mul_le_mul_right _ first
  simp only [Span.before, Nat.add_mul] at sofar ⊢
  have most : (span.offset + dst.length) / layout.blockSize < b + 1 :=
    (Nat.div_lt_iff_lt_mul pos).mpr (by rw [Nat.add_mul]; omega)
  rcases Nat.eq_or_lt_of_le first with same | later
  · have least := Nat.div_le_div_right (c := layout.blockSize)
      (Nat.le_add_right span.offset dst.length)
    omega
  · have least : b ≤ (span.offset + dst.length) / layout.blockSize :=
      (Nat.le_div_iff_mul_le pos).mpr (by omega)
    omega

/-- Where the failures last, a reading is honest just when it ends before the first block
that it would take for a hole. -/
theorem readRuns_honest_iff (lasting : Lasting layout faults) (fuel : Nat) (runBuf : Buf)
    (dst : List UInt8) (first : span.offset / layout.blockSize ≤ b)
    (sofar : dst.length = span.before layout b)
    (honest : Honest layout faults bytes inode span.offset dst)
    (ready : Ready layout faults bytes inode cache b) (enough : span.readLen ≤ dst.length + fuel) :
    Honest layout faults bytes inode span.offset
        (readRuns layout faults bytes inode span fuel b cache runBuf dst) ↔
      Spared layout faults bytes inode span b := by
  induction fuel generalizing b cache runBuf dst with
  | zero => exact iff_of_true honest (spared_of_done sofar fun more => by omega)
  | succ fuel ih =>
    unfold readRuns
    dsimp only
    split
    · next more =>
        have wanted := wants_of_more more.1 sofar more.2
        obtain ⟨block, longer⟩ := next_byte first sofar more.2
        by_cases clear : ClearBlock layout faults bytes inode b
        · have coherent := ready.resolve_right fun lost => lost.1 clear
          rcases @contigRun_clear layout faults bytes inode cache b
            ((span.readLen - dst.length + layout.blockSize - 1) % 2 ^ 32 / layout.blockSize)
            runBuf coherent more.1 clear (fun _ _ _ _ => lasting) with
            ⟨least, placed, readyNext⟩ | ⟨none, count, k, inRun, clearRun, data, closed⟩
          · generalize ext2ReadContigRun layout faults bytes inode cache b _ layout.reach
              runBuf = run at least placed readyNext ⊢
            have total := @copied_length layout span b run.2.1 run.1 dst first sofar
            have grows : span.before layout (b + 1) ≤ span.before layout (b + run.1) := by
              have wide : (b + 1) * layout.blockSize ≤ (b + run.1) * layout.blockSize :=
                Nat.mul_le_mul_right _ (by omega)
              simp only [Span.before]
              omega
            rw [if_neg (by omega), ih _ _ (by omega) total (honest.copied first sofar placed)
              readyNext (by omega)]
            exact spared_iff_behind placed
          · rw [if_pos none]
            refine iff_of_true honest fun lost later _ unclear => ⟨b + k, by omega, ?_,
              clearRun k inRun, data, (lasting _).resolve_left closed⟩
            by_contra early
            have clearLost := clearRun (lost - b) (by omega)
            rw [Nat.add_sub_cancel' later] at clearLost
            exact unclear clearLost
        · -- The block counts as a hole, and its zeros are among the bytes.
          refine iff_of_false (fun lies => ?_) fun spared => ?_
          · rw [contigRun_lost runBuf lasting ready more.1 clear, if_neg (by omega)] at lies
            generalize ext2ReadContigRun layout faults bytes inode cache b _ layout.reach
              runBuf = run at lies
            have total := @copied_length layout span b run.2.1 1 dst first sofar
            have kept := @readRuns_grows layout faults bytes inode span fuel (b + 1) run.2.2
              run.2.1 _ (by omega) total
            have seen := lies.seen (span.offset + dst.length) (by omega) (by omega)
            rw [block] at seen
            exact clear seen
          · obtain ⟨stop, low, high, -⟩ := spared b (Nat.le_refl _) wanted clear
            omega
    · next done => exact iff_of_true honest (spared_of_done sofar done)

/-- Where every pointer block on the way can be read whenever it is, whatever else fails,
a reading is honest. -/
theorem readRuns_honest (fuel : Nat) (runBuf : Buf)
    (clear : ∀ b, span.Wants layout b → ClearBlock layout faults bytes inode b) (dst : List UInt8)
    (first : span.offset / layout.blockSize ≤ b) (sofar : dst.length = span.before layout b)
    (honest : Honest layout faults bytes inode span.offset dst)
    (ready : Ready layout faults bytes inode cache b) :
    Honest layout faults bytes inode span.offset
      (readRuns layout faults bytes inode span fuel b cache runBuf dst) := by
  induction fuel generalizing b cache runBuf dst with
  | zero => exact honest
  | succ _ ih =>
    unfold readRuns
    split
    · next more =>
        have wanted := wants_of_more more.1 sofar more.2
        have coherent := ready.resolve_right fun lost => lost.1 (clear b wanted)
        rcases @contigRun_clear layout faults bytes inode cache b
          ((span.readLen - dst.length + layout.blockSize - 1) % 2 ^ 32 / layout.blockSize)
          runBuf coherent more.1 (clear b wanted) (fun lost near within unclear =>
            absurd (clear lost (wants_of_run wanted sofar within near)) unclear) with
          ⟨least, placed, readyNext⟩ | ⟨none, -⟩
        · rw [if_neg (by omega)]
          exact ih _ _ (by omega) (copied_length first sofar) (honest.copied first sofar placed)
            readyNext
        · rw [if_pos none]
          exact honest
    · exact honest

theorem span_start (span : Span) :
    ([] : List UInt8).length = span.before layout (span.offset / layout.blockSize) := by
  have low := Nat.div_mul_le_self span.offset layout.blockSize
  simp only [List.length_nil, Span.before]
  omega

/-- The bytes a call returns, from its first block on. -/
theorem readSpan_honest_iff (lasting : Lasting layout faults) (span : Span) (op : Nat) (junk : Buf) :
    Honest layout faults bytes inode span.offset
        (readSpan layout faults bytes inode span op junk) ↔
      Spared layout faults bytes inode span (span.offset / layout.blockSize) :=
  readRuns_honest_iff lasting _ _ [] (Nat.le_refl _) (span_start span) (Honest.nil _)
    (.inl (.fresh junk op)) (by simp)

theorem readSpan_honest (span : Span) (op : Nat) (junk : Buf)
    (clear : ∀ b, span.Wants layout b → ClearBlock layout faults bytes inode b) :
    Honest layout faults bytes inode span.offset
      (readSpan layout faults bytes inode span op junk) :=
  readRuns_honest _ _ clear [] (Nat.le_refl _) (span_start span) (Honest.nil _)
    (.inl (.fresh junk op))

section Directories
variable {dir : InodeInfo} {op : Nat} {junk : Buf}

def into (layout : Layout) (bytes : Buf) (junk : Buf) (block : Nat) : Buf := fun i =>
  if i < layout.blockSize then blockBytes layout bytes block i else junk i

/-- A block that is found ends the scan: it cannot be read, or it has an entry. -/
structure EndsScan (layout : Layout) (faults : Faults) (bytes : Buf) (dir : InodeInfo)
    (junk : Buf) (b : Nat) : Prop where
  inside : b < layout.dirReach
  clear : ClearBlock layout faults bytes dir b
  data : blockOf layout bytes dir b ≠ 0
  ends : Shut layout faults (blockOf layout bytes dir b) ∨
    onlyDots layout (into layout bytes junk (blockOf layout bytes dir b)) layout.blockSize 0 =
      false

theorem ext2ReadBlock_into {block : Nat} (read : (ext2ReadBlock layout faults bytes op block
    junk).1 = true) : (ext2ReadBlock layout faults bytes op block junk).2 =
      into layout bytes junk block := by
  funext i
  unfold into
  split
  · next inside => exact ext2ReadBlock_bytes read inside
  · next outside =>
      have sectors := layout.sectors
      simp only [ext2ReadBlock, fsReadSectors]
      rw [sectors, if_neg fun both => outside both.1]

/-- The walk without a cache finds a block, or one that neither is read nor ends the scan. -/
theorem ext2DirBlock_cases (lasting : Lasting layout faults) (b op : Nat) (junk : Buf) :
    ((ext2DirBlock layout faults bytes dir b op junk).1 = 0 ∧
        ¬ EndsScan layout faults bytes dir junk b) ∨
      ((ext2DirBlock layout faults bytes dir b op junk).1 ≠ 0 ∧ b < layout.dirReach ∧
        ClearBlock layout faults bytes dir b ∧
        (ext2DirBlock layout faults bytes dir b op junk).1 = blockOf layout bytes dir b) := by
  by_cases inside : b < layout.dirReach
  · by_cases clear : ClearBlock layout faults bytes dir b
    · have found := @ext2DirBlock_clear layout faults bytes dir op junk b inside clear
      rw [found]
      by_cases hole : blockOf layout bytes dir b = 0
      · exact .inl ⟨hole, fun ends => ends.data hole⟩
      · exact .inr ⟨hole, inside, clear, rfl⟩
    · exact .inl ⟨ext2DirBlock_lost lasting inside clear, fun ends => clear ends.clear⟩
  · exact .inl ⟨ext2DirBlock_past (by omega), fun ends => inside ends.inside⟩

theorem scanDir_iff (lasting : Lasting layout faults) (left b op : Nat) :
    scanDir layout faults bytes dir junk left b op = true ↔
      ∀ c, b ≤ c → c < b + left → ¬ EndsScan layout faults bytes dir junk c := by
  induction left generalizing b op with
  | zero => exact iff_of_true rfl fun c low high => by omega
  | succ left ih =>
    have split_ : (∀ c, b ≤ c → c < b + (left + 1) → ¬ EndsScan layout faults bytes dir junk c) ↔
        ¬ EndsScan layout faults bytes dir junk b ∧
          ∀ c, b + 1 ≤ c → c < b + 1 + left → ¬ EndsScan layout faults bytes dir junk c := by
      refine ⟨fun all => ⟨all b (by omega) (by omega), fun c low high =>
        all c (by omega) (by omega)⟩, fun ⟨here, rest⟩ c low high => ?_⟩
      rcases Nat.eq_or_lt_of_le low with same | later
      · exact same ▸ here
      · exact rest c later (by omega)
    rw [split_, scanDir]
    dsimp only
    rcases @ext2DirBlock_cases layout faults bytes dir lasting b op junk with
      ⟨none, passes⟩ | ⟨real, inside, clear, found⟩
    · rw [if_pos none, ih]
      exact (and_iff_right passes).symm
    · rw [if_neg real, found]
      rw [found] at real
      split
      · next read =>
          rw [ext2ReadBlock_into read]
          have opens : ¬ Shut layout faults (blockOf layout bytes dir b) := fun shut =>
            absurd (read.symm.trans (shut _)) (by simp)
          split
          · next dots =>
              rw [ih]
              refine (and_iff_right fun ends => ?_).symm
              exact ends.ends.elim opens fun entry => by rw [entry] at dots; cases dots
          · next entry =>
              refine iff_of_false (by simp) fun all => all.1 ⟨inside, clear, real, .inr ?_⟩
              exact Bool.not_eq_true _ ▸ entry
      · next failed =>
          refine iff_of_false (by simp) fun all => all.1 ⟨inside, clear, real, .inl ?_⟩
          refine (lasting _).resolve_left fun opens => failed ?_
          exact opens _

/-- A directory counts as empty only where the scan came past no block whose pointer could
not be read. -/
def EmptyHonest (layout : Layout) (faults : Faults) (bytes : Buf) (dir : InodeInfo) (op : Nat)
    (junk : Buf) : Prop :=
  ext2DirIsEmpty layout faults bytes dir op junk = true →
    ∀ b, b < ext2DirBlockCount layout dir → b < layout.dirReach →
      ClearBlock layout faults bytes dir b

def ScanSpared (layout : Layout) (faults : Faults) (bytes : Buf) (dir : InodeInfo)
    (junk : Buf) : Prop :=
  (∀ b, b < ext2DirBlockCount layout dir → b < layout.dirReach →
    ClearBlock layout faults bytes dir b) ∨
  ∃ b, b < ext2DirBlockCount layout dir ∧ EndsScan layout faults bytes dir junk b

theorem emptyHonest_iff (lasting : Lasting layout faults) (op : Nat) (junk : Buf) :
    EmptyHonest layout faults bytes dir op junk ↔ ScanSpared layout faults bytes dir junk := by
  unfold EmptyHonest ext2DirIsEmpty ScanSpared
  rw [scanDir_iff lasting, Nat.zero_add]
  by_cases ends : ∃ b, b < ext2DirBlockCount layout dir ∧
      EndsScan layout faults bytes dir junk b
  · refine iff_of_true (fun none => ?_) (.inr ends)
    obtain ⟨b, inside, stop⟩ := ends
    exact absurd stop (none b (Nat.zero_le b) inside)
  · rw [or_iff_left ends]
    refine ⟨fun honest => honest fun b _ inside stop => ends ⟨b, inside, stop⟩,
      fun clear _ => clear⟩

end Directories

def ReadHonest (layout : Layout) (faults : Faults) (bytes : Buf) (inode : InodeInfo)
    (offset : Nat) (answer : Option (List UInt8)) : Prop :=
  ∀ data, answer = some data → Honest layout faults bytes inode offset data

theorem readAt_honest_iff (lasting : Lasting layout faults) {op inodeNum len offset : Nat}
    {junk : Buf} (found : ext2ReadInode layout faults bytes op inodeNum junk = some inode)
    (file : inode.mode &&& ext2SIfdir = 0) :
    ReadHonest layout faults bytes inode offset
        (ext2ReadInodeAt layout faults bytes op inodeNum len offset junk) ↔
      Spared layout faults bytes inode ⟨offset, min len (inode.size - offset)⟩
        (offset / layout.blockSize) := by
  unfold ReadHonest ext2ReadInodeAt
  rw [found, Option.bind_some, if_neg (by simp [file])]
  split
  · next ended =>
      refine iff_of_true (fun data same => ?_) fun lost _ wanted => ?_
      · cases same
        exact .nil offset
      · have asks : 0 < min len (inode.size - offset) := wanted.2.1
        omega
  · split
    · next past =>
        refine iff_of_true nofun fun lost later wanted => ?_
        have inside := wanted.1
        omega
    · simp only [Option.some.injEq, forall_eq']
      exact readSpan_honest_iff lasting ⟨offset, _⟩ (op + 1) junk

theorem read_honest_iff (lasting : Lasting layout faults) {op inodeNum len : Nat} {junk : Buf}
    (found : ext2ReadInode layout faults bytes op inodeNum junk = some inode) :
    ReadHonest layout faults bytes inode 0
        (ext2Read layout faults bytes op (some inodeNum) len junk) ↔
      Spared layout faults bytes inode ⟨0, min len inode.size⟩ 0 := by
  unfold ReadHonest ext2Read
  rw [Option.bind_some, found, Option.map_some]
  simp only [Option.some.injEq, forall_eq']
  have spared := @readSpan_honest_iff layout faults bytes inode lasting ⟨0, min len inode.size⟩
    (op + 1) junk
  rwa [Nat.zero_div] at spared

/-- Where failures last, a read never takes one for data just when no block asked for is
behind a pointer block that cannot be read, unless the reading ends before it comes there;
and a directory never counts as empty for one just when no block of it is lost, or some
block ends the scan. Whatever fails and whenever, pointer blocks that can be read are
enough. -/
theorem read_errors_not_data_iff (layout : Layout) (faults : Faults) (bytes : Buf)
    (op inodeNum len offset : Nat) (junk : Buf) (inode : InodeInfo)
    (found : ext2ReadInode layout faults bytes op inodeNum junk = some inode) :
    (Lasting layout faults →
      (inode.mode &&& ext2SIfdir = 0 →
        (ReadHonest layout faults bytes inode offset
            (ext2ReadInodeAt layout faults bytes op inodeNum len offset junk) ↔
          Spared layout faults bytes inode ⟨offset, min len (inode.size - offset)⟩
            (offset / layout.blockSize)) ∧
        (ReadHonest layout faults bytes inode 0
            (ext2Read layout faults bytes op (some inodeNum) len junk) ↔
          Spared layout faults bytes inode ⟨0, min len inode.size⟩ 0)) ∧
      (EmptyHonest layout faults bytes inode op junk ↔
        ScanSpared layout faults bytes inode junk)) ∧
    ((∀ b, b < layout.reach → ClearBlock layout faults bytes inode b) →
      ReadHonest layout faults bytes inode offset
          (ext2ReadInodeAt layout faults bytes op inodeNum len offset junk) ∧
        ReadHonest layout faults bytes inode 0
          (ext2Read layout faults bytes op (some inodeNum) len junk) ∧
        EmptyHonest layout faults bytes inode op junk) := by
  refine ⟨fun lasting => ⟨fun file => ⟨readAt_honest_iff lasting found file,
    read_honest_iff lasting found⟩, emptyHonest_iff lasting op junk⟩, fun clear => ⟨?_, ?_, ?_⟩⟩
  · intro data answer
    rw [ext2ReadInodeAt, found, Option.bind_some] at answer
    split at answer
    · cases answer
    · split at answer
      · cases answer
        exact .nil offset
      · split at answer
        · cases answer
        · cases answer
          exact readSpan_honest ⟨_, _⟩ (op + 1) junk fun b wanted => clear b wanted.1
  · intro data answer
    rw [ext2Read, Option.bind_some, found] at answer
    cases answer
    exact readSpan_honest ⟨_, _⟩ (op + 1) junk fun b wanted => clear b wanted.1
  · intro _ b _ inside
    refine clear b ?_
    simp only [Layout.dirReach, Layout.reach] at inside ⊢
    omega

/-- A file of one byte more than twelve blocks, whose thirteenth block is named in block 5. -/
def longBytes : Buf := fun i =>
  if i = 1 then 0x80 else if i = 4 then 1 else if i = 5 then 0x30 else if i = 88 then 5
  else if i = 5 * 1024 then 6 else if i = 6 * 1024 then 7 else 0

def lostPointers : Faults := ⟨fun _ sector => sector == 10, fun _ _ => false, fun _ => false⟩

theorem lostPointers_lasting (layout : Layout) : Lasting layout lostPointers := by
  intro block
  cases same : readable lostPointers 0 (block * layout.sectorsPerBlock) layout.sectorsPerBlock
  · exact .inr fun _ => same
  · exact .inl fun _ => same

def longInode : InodeInfo :=
  parseInode fun j => (ext2ReadBlock smallLayout lostPointers longBytes 0 0 fun _ => 0).2 (0 + j)

theorem longInode_found :
    ext2ReadInode smallLayout lostPointers longBytes 0 1 (fun _ => 0) = some longInode := by
  rfl

/-- The last byte of the file is 7, and the read returns 0. -/
theorem lost_pointers_read_as_zeros :
    ¬ (∀ (layout : Layout) (faults : Faults) (bytes : Buf) (op inodeNum len offset : Nat)
      (junk : Buf) (inode : InodeInfo),
      ext2ReadInode layout faults bytes op inodeNum junk = some inode →
        ReadHonest layout faults bytes inode offset
          (ext2ReadInodeAt layout faults bytes op inodeNum len offset junk)) := by
  intro all
  have answer : ext2ReadInodeAt smallLayout lostPointers longBytes 0 1 1 12288 (fun _ => 0) =
      some [0] := by decide
  have honest := all smallLayout lostPointers longBytes 0 1 1 12288 (fun _ => 0) longInode
    longInode_found [0] answer
  exact absurd honest.content (by decide)

/-- The blocks before the lost one are read as they are. -/
theorem read_errors_not_data_before :
    ReadHonest smallLayout lostPointers longBytes longInode 0
      (ext2ReadInodeAt smallLayout lostPointers longBytes 0 1 1024 0 fun _ => 0) := by
  have iff := (read_errors_not_data_iff smallLayout lostPointers longBytes 0 1 1024 0 (fun _ => 0)
    longInode longInode_found).1 (lostPointers_lasting _)
  refine (iff.1 (by decide)).1.mpr fun lost _ wanted unclear => ?_
  have first : lost * 1024 < 1024 := wanted.2.2.trans_le (by decide)
  obtain rfl : lost = 0 := by omega
  exact absurd trivial unclear

end Racccoon.Ext2.Blocks
