import Racccoon.Ext2.FreeBlocks
import Racccoon.Lib.Run

/-!
What `i_blocks` knows about a map. Every step that adds blocks for a write counts the ones
the map has gained, also when it then runs out of blocks, and `ext2_write_file_at` adds
them to the field either way. `ext2_place_dirent` drops the count when a directory cannot
grow, with what the step has already linked into a pointer block on the disk.
-/

namespace Racccoon.Ext2.Blocks

open Words PointerTree
open Bitmaps (effective)

variable {layout : Layout} {faults : Faults} {junk : Buf} {work before mid after : Work}
variable {slot : Nat} {path : List Nat}

/-- The line at the end of `ext2_write_file_at`; the sectors of a volume fit the field. -/
def countNew (layout : Layout) (work : Work) : Work :=
  { work with inode := { work.inode with
      blocks := work.inode.blocks + work.newBlocks * layout.sectorsPerBlock } }

/-- The end of `ext2_place_dirent`, when no block of the directory has room: a new block
with one record. Without it the callers drop the inode in memory, and the count with it. -/
def growDir (layout : Layout) (faults : Faults) (junk record : Buf) (dirBlocks : Nat)
    (work : Work) : Bool × Work :=
  let found := ext2EnsureBlockForWrite layout faults dirBlocks junk { work with newBlocks := 0 }
  if found.1.1 = 0 then (false, { found.2 with inode := work.inode })
  else
    let written := ext2WriteBlock layout faults found.2 found.1.1 record
    if written.1 then
      (true, countNew layout { written.2 with inode := { written.2.inode with
        size := written.2.inode.size + layout.blockSize } })
    else (false, { written.2 with inode := work.inode })

/-- The walk goes through, and whenever it does, it has freed the file exactly if `i_blocks`
counts the map. -/
theorem free_exact_iff (layout : Layout) (junk : Buf) (work : Work) (good : Good layout work) :
    (ext2FreeDataAndIndirect layout noFaults junk work).1 = true ∧
      ∀ faults, (ext2FreeDataAndIndirect layout faults junk work).1 = true →
        (FreesExactly layout work (ext2FreeDataAndIndirect layout faults junk work).2 ↔
          CountsMap layout work) :=
  ⟨free_succeeds good, fun _ done => freesExactly_iff good done⟩

/-- A file with one block behind two levels of pointers. -/
theorem free_exact_double :
    let work := (ext2EnsureBlockForWrite smallLayout noFaults 268 (fun _ => 0) newFile).2
    (ext2FreeDataAndIndirect smallLayout noFaults (fun _ => 0) work).1 = true ∧
      ∀ faults, (ext2FreeDataAndIndirect smallLayout faults (fun _ => 0) work).1 = true →
        (FreesExactly smallLayout work
            (ext2FreeDataAndIndirect smallLayout faults (fun _ => 0) work).2 ↔
          CountsMap smallLayout work) :=
  free_exact_iff smallLayout (fun _ => 0) _ (ensureBlock_good _ newFile_good (by decide))

def fullLayout : Layout :=
  ⟨⟨1, 1, 1024, 8, rfl, by decide, by decide⟩, 1024, 128, fun _ => 0, smallLayout.sized⟩

/-- The pointer blocks of a directory of 524 blocks: 278, 535 and above it 536. -/
def fullTables : Buf := fun address =>
  let index := address % 1024 / 4
  let entry :=
    match address / 1024 with
    | 278 => 22 + index
    | 535 => 279 + index
    | 536 => if index = 0 then 535 else 0
    | _ => 0
  UInt8.ofNat (entry / 256 ^ (address % 4))

/-- All blocks but 600 are taken. The directory has the blocks 10 to 536, and all pointers
of its pointer blocks are in use but those in the last one. -/
def fullDirectory : Work where
  bytes := fullTables
  bm := Bitmaps.mounted ⟨fun _ byte => if byte = 74 then 0x7F else 0xFF, fun _ _ => 0,
    fun _ => 1, fun _ => 0, 1, 0⟩
  op := 0
  inode := ⟨0x41ED, 0, 524 * 1024, 2, 527 * 2, fun slot => 10 + slot, 278, 536, 0⟩
  newBlocks := 0

theorem good_of_mapBlocks (bitmaps : BitmapsSound layout work)
    (nodup : (mapBlocks layout work).Nodup)
    (taken : ∀ block ∈ mapBlocks layout work, Allocated layout work block) : Good layout work := by
  refine ⟨bitmaps, separated_of_nodup (List.range 15) (fun slot outside => ?_) nodup,
    fun slot path valid real => taken _ (mem_mapBlocks.mpr ⟨real, slot, path, valid, rfl⟩)⟩
  rw [List.mem_range] at outside
  simp only [InodeInfo.root]
  rw [if_neg (by omega), if_neg (by omega), if_neg (by omega), if_neg (by omega)]

theorem full_taken {blocks : List Nat}
    (set : (blocks.all fun block => decide (1 ≤ block) && decide (block < 1025) &&
      Bitmap.test ((effective work.bm).blockBitmap 0) (block - 1)) = true) :
    ∀ block ∈ blocks, Allocated fullLayout work block := by
  intro block member
  have held := List.all_eq_true.mp set block member
  simp only [Bool.and_eq_true, decide_eq_true_eq] at held
  exact ⟨0, block - 1, by decide, show block - 1 < 1024 by omega,
    show block = 1 + 0 * 1024 + (block - 1) by omega, held.2⟩

set_option maxRecDepth 4000

theorem fullDirectory_blocks : mapBlocks fullLayout fullDirectory = List.range' 10 527 := by
  decide

theorem fullDirectory_good : Good fullLayout fullDirectory := by
  refine good_of_mapBlocks ⟨(Bitmaps.mounted_refines _ _).sound, nofun⟩ ?_ (full_taken ?_)
  · rw [fullDirectory_blocks]
    exact List.nodup_range'
  · rw [fullDirectory_blocks]
    decide

def refusedDirectory : Work :=
  (growDir fullLayout noFaults (fun _ => 0) (fun _ => 0) 524 fullDirectory).2

theorem refusedDirectory_blocks :
    mapBlocks fullLayout refusedDirectory = List.range' 10 526 ++ [600, 536] := by
  decide

theorem refusedDirectory_good : Good fullLayout refusedDirectory := by
  have bitmaps := (@ensureBlock_good fullLayout noFaults { fullDirectory with newBlocks := 0 } 524
    (fun _ => 0) (fullDirectory_good.counted 0 0) (by decide)).bitmaps
  have same : refusedDirectory.bm = (ext2EnsureBlockForWrite fullLayout noFaults 524 (fun _ => 0)
      { fullDirectory with newBlocks := 0 }).2.bm := by
    unfold refusedDirectory growDir
    dsimp only
    split
    · rfl
    · split <;> rfl
  refine good_of_mapBlocks ⟨same ▸ bitmaps.sound, nofun⟩ ?_ (full_taken ?_)
  · rw [refusedDirectory_blocks]
    refine List.nodup_append.mpr ⟨List.nodup_range', by decide, ?_⟩
    rintro block member other outside rfl
    rw [List.mem_range'_1] at member
    simp only [List.mem_cons, List.not_mem_nil, or_false] at outside
    omega
  · rw [refusedDirectory_blocks]
    decide

/-- One block is left, and the entry needs two. The pointer block it got stays linked and is
not counted, so that removing the directory frees one block more than `i_blocks` knows of. -/
theorem refused_block_uncounted :
    CountsMap fullLayout fullDirectory ∧
      (growDir fullLayout noFaults (fun _ => 0) (fun _ => 0) 524 fullDirectory).1 = false ∧
      refusedDirectory.inode.blocks = 527 * 2 ∧
      ¬ FreesExactly fullLayout refusedDirectory
        (ext2FreeDataAndIndirect fullLayout noFaults (fun _ => 0) refusedDirectory).2 := by
  refine ⟨countsMap_of_length fullDirectory_good ?_, by decide, by decide, ?_⟩
  · rw [fullDirectory_blocks, List.length_range']
    rfl
  · rw [freesExactly_iff refusedDirectory_good (free_succeeds refusedDirectory_good)]
    intro counts
    have length := counts.length refusedDirectory_good
    rw [refusedDirectory_blocks] at length
    revert length
    decide

end Racccoon.Ext2.Blocks
