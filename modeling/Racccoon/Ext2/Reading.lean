import Racccoon.Ext2.Resolve

/-!
Reading files and scanning directories of the ext2 backend where any sector may fail: runs
of blocks that lie one behind the other (`ext2_read_contig_run`), the loop of
`ext2_read_inode_at` and `ext2_read`, and `ext2_dir_is_empty`.
-/

namespace Racccoon.Ext2.Blocks

open Words

def diskdMaxSectors : Nat := 15

section Reads
variable (layout : Layout) (faults : Faults) (bytes : Buf) (inode : InodeInfo)

def Layout.maxRun (layout : Layout) : Nat := max 1 (diskdMaxSectors / layout.sectorsPerBlock)

/-- The loop of `ext2_read_contig_run`, from `run` blocks on. -/
def extendRun (phys0 lb wantBlocks maxBlock : Nat) : Nat → Nat → BlockCache → Nat × BlockCache
  | 0, run, cache => (run, cache)
  | fuel + 1, run, cache =>
    if run < wantBlocks ∧ lb + run < maxBlock then
      let next := ext2ResolveBlock layout faults bytes inode (lb + run) cache
      if next.1 ≠ phys0 + run then (run, next.2)
      else extendRun phys0 lb wantBlocks maxBlock fuel (run + 1) next.2
    else (run, cache)

/-- The blocks placed in the buffer, none of them after an error. -/
def ext2ReadContigRun (cache : BlockCache) (lb wantBlocks maxBlock : Nat) (runBuf : Buf) :
    Nat × Buf × BlockCache :=
  let want := min (max wantBlocks 1) layout.maxRun
  let first := ext2ResolveBlock layout faults bytes inode lb cache
  if first.1 = 0 then
    (1, fun i => if i < layout.blockSize then 0 else runBuf i, first.2)
  else
    let run := extendRun layout faults bytes inode first.1 lb want maxBlock want 1 first.2
    let read := fsReadSectors faults bytes run.2.op (first.1 * layout.sectorsPerBlock)
      (run.1 * layout.sectorsPerBlock) runBuf
    (if read.1 then run.1 else 0, read.2, { run.2 with op := run.2.op + 1 })

structure Span where
  offset : Nat
  readLen : Nat

/-- Copying a run's blocks behind what is there; the first block of the call is entered
at the offset. -/
def copyBlocks (span : Span) (b : Nat) (runBuf : Buf) : Nat → Nat → List UInt8 → List UInt8
  | 0, _, dst => dst
  | left + 1, k, dst =>
    if dst.length < span.readLen then
      let skip := if b + k = span.offset / layout.blockSize then span.offset % layout.blockSize
        else 0
      let chunk := min (span.readLen - dst.length) (layout.blockSize - skip)
      copyBlocks span b runBuf left (k + 1)
        (dst ++ (List.range chunk).map fun i => runBuf (k * layout.blockSize + skip + i))
    else dst

def readRuns (span : Span) : Nat → Nat → BlockCache → Buf → List UInt8 → List UInt8
  | 0, _, _, _, dst => dst
  | fuel + 1, b, cache, runBuf, dst =>
    if b < layout.reach ∧ dst.length < span.readLen then
      let want := (span.readLen - dst.length + layout.blockSize - 1) % 2 ^ 32 / layout.blockSize
      let run := ext2ReadContigRun layout faults bytes inode cache b want layout.reach runBuf
      if run.1 = 0 then dst
      else
        readRuns span fuel (b + run.1) run.2.2 run.2.1
          (copyBlocks layout span b run.2.1 run.1 0 dst)
    else dst

/-- Every round adds a byte, so `readLen` rounds are enough. -/
def readSpan (span : Span) (op : Nat) (junk : Buf) : List UInt8 :=
  readRuns layout faults bytes inode span span.readLen (span.offset / layout.blockSize)
    (.fresh junk op) junk []

def ext2SIfdir : Nat := 0x4000

def ext2ReadInodeAt (op inodeNum len offset : Nat) (junk : Buf) : Option (List UInt8) :=
  (ext2ReadInode layout faults bytes op inodeNum junk).bind fun inode =>
    if inode.mode &&& ext2SIfdir ≠ 0 then none
    else if offset ≥ inode.size then some []
    else if offset / layout.blockSize ≥ layout.reach then none
    else
      some (readSpan layout faults bytes inode ⟨offset, min len (inode.size - offset)⟩ (op + 1)
        junk)

/-- `ext2_read` of the file that its path names, if it names one. -/
def ext2Read (op : Nat) (named : Option Nat) (len : Nat) (junk : Buf) : Option (List UInt8) :=
  named.bind fun inodeNum =>
    (ext2ReadInode layout faults bytes op inodeNum junk).map fun inode =>
      readSpan layout faults bytes inode ⟨0, min len inode.size⟩ (op + 1) junk

def dot : UInt8 := 46

/-- The loop over the entries of a block: none but `.` and `..`. -/
def onlyDots (buf : Buf) : Nat → Nat → Bool
  | 0, _ => true
  | fuel + 1, offset =>
    if offset < layout.blockSize then
      let entryInode := word (fun j => buf (offset + j)) 0
      let recLen := half buf (offset + 4)
      let nameLen := (buf (offset + 6)).toNat
      let isDot := nameLen == 1 && buf (offset + 8) == dot
      let isDotdot := nameLen == 2 && buf (offset + 8) == dot && buf (offset + 9) == dot
      if recLen = 0 then true
      else if entryInode ≠ 0 ∧ ¬ isDot ∧ ¬ isDotdot then false
      else onlyDots buf fuel (offset + recLen)
    else true

def ext2DirBlockCount (dir : InodeInfo) : Nat :=
  (dir.size + layout.blockSize - 1) % 2 ^ 32 / layout.blockSize

def scanDir (dir : InodeInfo) (junk : Buf) : Nat → Nat → Nat → Bool
  | 0, _, _ => true
  | left + 1, b, op =>
    let found := ext2DirBlock layout faults bytes dir b op junk
    if found.1 = 0 then scanDir dir junk left (b + 1) found.2
    else
      let read := ext2ReadBlock layout faults bytes found.2 found.1 junk
      if read.1 then
        if onlyDots layout read.2 layout.blockSize 0 then
          scanDir dir junk left (b + 1) (found.2 + 1)
        else false
      else false

def ext2DirIsEmpty (dir : InodeInfo) (op : Nat) (junk : Buf) : Bool :=
  scanDir layout faults bytes dir junk (ext2DirBlockCount layout dir) 0 op

end Reads

end Racccoon.Ext2.Blocks
