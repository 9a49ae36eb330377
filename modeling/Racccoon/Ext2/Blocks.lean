import Racccoon.Ext2.WriteThrough
import Racccoon.Lib.PointerTree
import Racccoon.Lib.Words

/-!
How the ext2 backend finds the blocks of a file: the pointer blocks read through a cache
(`ext2_resolve_block`), the blocks a write adds (`ext2_ensure_block_for_write`) and the
walk without a cache for directories (`ext2_dir_block`). The partition is a sequence of
bytes. Every operation on it has a number, and any sector of it may fail.
-/

namespace Racccoon.Ext2.Blocks

open Words

def sectorSize : Nat := 512

/-- What a mount knows. Sector numbers of the partition fit 32 bits, so no product of a
block number overflows. -/
structure Layout extends Bitmaps.Geometry where
  blockSize : Nat
  inodeSize : Nat
  inodeTableBlocks : Nat → Nat
  sized : blockSize = 1024 ∨ blockSize = 2048 ∨ blockSize = 4096

variable (layout : Layout)

def Layout.sectorsPerBlock : Nat := layout.blockSize / sectorSize

def Layout.pointers : Nat := layout.blockSize / 4

def Layout.reach : Nat :=
  let n := layout.pointers
  12 + n + n * n + n * n * n

structure InodeInfo where
  mode : Nat
  uid : Nat
  size : Nat
  linksCount : Nat
  blocks : Nat
  block : Nat → Nat
  indirectBlock : Nat
  doubleIndirectBlock : Nat
  tripleIndirectBlock : Nat

abbrev Buf := Nat → UInt8

/-- The sectors that an operation cannot read or does not write, and the operations that
find no bitmap. -/
structure Faults where
  read : Nat → Nat → Bool
  write : Nat → Nat → Bool
  alloc : Nat → Bool

def noFaults : Faults := ⟨fun _ _ => false, fun _ _ => false, fun _ => false⟩

section Reading
variable (layout : Layout) (faults : Faults)

def readable (op start count : Nat) : Bool :=
  (List.range count).all fun j => !faults.read op (start + j)

variable (bytes : Buf)

def fsReadSectors (op start count : Nat) (buf : Buf) : Bool × Buf :=
  (readable faults op start count, fun i =>
    if i < count * sectorSize ∧ readable faults op start (i / sectorSize + 1) then
      bytes (start * sectorSize + i)
    else buf i)

def ext2ReadBlock (op block : Nat) (buf : Buf) : Bool × Buf :=
  fsReadSectors faults bytes op (block * layout.sectorsPerBlock) layout.sectorsPerBlock buf

/-- `Ext2_block_cache`, with the number of reads so far. A block number is `none` where
the source has 0xFFFFFFFF, for nothing loaded yet. -/
structure BlockCache where
  leaf : Buf
  leafBlockNum : Option Nat
  mid : Buf
  midBlockNum : Option Nat
  doubleTop : Buf
  doubleTopLoaded : Bool
  tripleTop : Buf
  tripleTopLoaded : Bool
  op : Nat

def BlockCache.fresh (junk : Buf) (op : Nat) : BlockCache :=
  ⟨junk, none, junk, none, junk, false, junk, false, op⟩

def fill (held : Bool) (ptr : Nat) (buf : Buf) (op : Nat) : Bool × Buf × Nat :=
  if held then (true, buf, op)
  else if ptr = 0 then (true, fun _ => 0, op)
  else
    let read := ext2ReadBlock layout faults bytes op ptr buf
    (read.1, read.2, op + 1)

def loadLeaf (ptr : Nat) (cache : BlockCache) : Bool × BlockCache :=
  let filled := fill layout faults bytes (cache.leafBlockNum == some ptr) ptr cache.leaf cache.op
  (filled.1, { cache with
    leaf := filled.2.1
    leafBlockNum := if filled.1 then some ptr else cache.leafBlockNum
    op := filled.2.2 })

def loadMid (ptr : Nat) (cache : BlockCache) : Bool × BlockCache :=
  let filled := fill layout faults bytes (cache.midBlockNum == some ptr) ptr cache.mid cache.op
  (filled.1, { cache with
    mid := filled.2.1
    midBlockNum := if filled.1 then some ptr else cache.midBlockNum
    op := filled.2.2 })

def loadDoubleTop (ptr : Nat) (cache : BlockCache) : Bool × BlockCache :=
  let filled := fill layout faults bytes cache.doubleTopLoaded ptr cache.doubleTop cache.op
  (filled.1, { cache with
    doubleTop := filled.2.1
    doubleTopLoaded := filled.1 || cache.doubleTopLoaded
    op := filled.2.2 })

def loadTripleTop (ptr : Nat) (cache : BlockCache) : Bool × BlockCache :=
  let filled := fill layout faults bytes cache.tripleTopLoaded ptr cache.tripleTop cache.op
  (filled.1, { cache with
    tripleTop := filled.2.1
    tripleTopLoaded := filled.1 || cache.tripleTopLoaded
    op := filled.2.2 })

def ext2ResolveLeaf (leafPtr indexInLeaf : Nat) (cache : BlockCache) : Nat × BlockCache :=
  let loaded := loadLeaf layout faults bytes leafPtr cache
  (if loaded.1 then word loaded.2.leaf indexInLeaf else 0, loaded.2)

variable (inode : InodeInfo)

/-- The branch of `ext2_resolve_block` for two levels of pointers. -/
def resolveDouble (idx : Nat) (cache : BlockCache) : Nat × BlockCache :=
  let n := layout.pointers
  let top := loadDoubleTop layout faults bytes inode.doubleIndirectBlock cache
  if top.1 then
    ext2ResolveLeaf layout faults bytes (word top.2.doubleTop (idx / n)) (idx % n) top.2
  else (0, top.2)

def resolveMid (midPtr rem : Nat) (cache : BlockCache) : Nat × BlockCache :=
  let n := layout.pointers
  let mid := loadMid layout faults bytes midPtr cache
  if mid.1 then ext2ResolveLeaf layout faults bytes (word mid.2.mid (rem / n)) (rem % n) mid.2
  else (0, mid.2)

def resolveTriple (idx : Nat) (cache : BlockCache) : Nat × BlockCache :=
  let n := layout.pointers
  let top := loadTripleTop layout faults bytes inode.tripleIndirectBlock cache
  if top.1 then
    resolveMid layout faults bytes (word top.2.tripleTop (idx / (n * n))) (idx % (n * n)) top.2
  else (0, top.2)

def ext2ResolveBlock (b : Nat) (cache : BlockCache) : Nat × BlockCache :=
  let n := layout.pointers
  if b < 12 then (inode.block b, cache)
  else if b < 12 + n then
    ext2ResolveLeaf layout faults bytes inode.indirectBlock (b - 12) cache
  else if b < 12 + n + n * n then
    resolveDouble layout faults bytes inode (b - (12 + n)) cache
  else if b < 12 + n + n * n + n * n * n then
    resolveTriple layout faults bytes inode (b - (12 + n + n * n)) cache
  else (0, cache)

def dirEntry (table index op : Nat) (buf : Buf) : Nat × Nat × Buf :=
  if table = 0 then (0, op, buf)
  else
    let read := ext2ReadBlock layout faults bytes op table buf
    (if read.1 then word read.2 index else 0, op + 1, read.2)

/-- One block buffer for every level; the block, and the number of reads so far. -/
def ext2DirBlock (dir : InodeInfo) (b op : Nat) (junk : Buf) : Nat × Nat :=
  let n := layout.pointers
  if b < 12 then (dir.block b, op)
  else if b < 12 + n then
    let found := dirEntry layout faults bytes dir.indirectBlock (b - 12) op junk
    (found.1, found.2.1)
  else if b < 12 + n + n * n then
    let rel := b - (12 + n)
    let mid := dirEntry layout faults bytes dir.doubleIndirectBlock (rel / n) op junk
    let found := dirEntry layout faults bytes mid.1 (rel % n) mid.2.1 mid.2.2
    (found.1, found.2.1)
  else (0, op)

def half (i : Nat) : Nat := (bytes i).toNat + 256 * (bytes (i + 1)).toNat

def parseInode (record : Buf) : InodeInfo where
  mode := half record 0
  uid := half record 2
  size := word record 1
  linksCount := half record 26
  blocks := word record 7
  block i := word record (10 + i)
  indirectBlock := word record 22
  doubleIndirectBlock := word record 23
  tripleIndirectBlock := word record 24

def inodePlace (inodeNum : Nat) : Option (Nat × Nat) :=
  let group := (inodeNum - 1) / layout.inodesPerGroup
  if inodeNum = 0 ∨ group ≥ layout.groupCount then none
  else
    let byteOffset := (inodeNum - 1) % layout.inodesPerGroup * layout.inodeSize
    some (layout.inodeTableBlocks group + byteOffset / layout.blockSize,
      byteOffset % layout.blockSize)

def ext2ReadInode (op inodeNum : Nat) (junk : Buf) : Option InodeInfo :=
  (inodePlace layout inodeNum).bind fun place =>
    let read := ext2ReadBlock layout faults bytes op place.1 junk
    if read.1 then some (parseInode fun j => read.2 (place.2 + j)) else none

end Reading

/-- A write under way: the partition, the bitmaps, the inode in memory and the blocks
counted so far. -/
structure Work where
  bytes : Buf
  bm : Bitmaps.Driver
  op : Nat
  inode : InodeInfo
  newBlocks : Nat

section Writing
variable (layout : Layout) (faults : Faults)
variable (work : Work)

def Work.readBlock (block : Nat) (buf : Buf) : (Bool × Buf) × Work :=
  (ext2ReadBlock layout faults work.bytes work.op block buf, { work with op := work.op + 1 })

def lands (op block address : Nat) : Bool :=
  block * layout.blockSize ≤ address && address < (block + 1) * layout.blockSize &&
    !faults.write op (address / sectorSize)

/-- The sectors that do not fail are written. -/
def ext2WriteBlock (block : Nat) (buf : Buf) : Bool × Work :=
  ((List.range layout.sectorsPerBlock).all fun j =>
      !faults.write work.op (block * layout.sectorsPerBlock + j),
    { work with
      bytes := fun address =>
        if lands layout faults work.op block address then buf (address - block * layout.blockSize)
        else work.bytes address
      op := work.op + 1 })

def ext2AllocBlock : Nat × Work :=
  if faults.alloc work.op then (0, { work with op := work.op + 1 })
  else
    let taken := Bitmaps.allocBlock layout.toGeometry work.bm
    (taken.1, { work with bm := taken.2, op := work.op + 1 })

def newTable : Nat × Work :=
  let taken := ext2AllocBlock layout faults work
  if taken.1 = 0 then taken
  else
    let written := ext2WriteBlock layout faults taken.2 taken.1 fun _ => 0
    (if written.1 then taken.1 else 0, written.2)

def InodeInfo.root (inode : InodeInfo) (slot : Nat) : Nat :=
  if slot < 12 then inode.block slot
  else if slot = 12 then inode.indirectBlock
  else if slot = 13 then inode.doubleIndirectBlock
  else if slot = 14 then inode.tripleIndirectBlock
  else 0

def InodeInfo.setRoot (inode : InodeInfo) (slot block : Nat) : InodeInfo :=
  if slot < 12 then { inode with block := Function.update inode.block slot block }
  else if slot = 12 then { inode with indirectBlock := block }
  else if slot = 13 then { inode with doubleIndirectBlock := block }
  else { inode with tripleIndirectBlock := block }

def ensureTop (slot : Nat) (work : Work) : Nat × Work :=
  if work.inode.root slot = 0 then
    let added := newTable layout faults work
    if added.1 = 0 then added
    else
      (added.1, { added.2 with
        inode := added.2.inode.setRoot slot added.1
        newBlocks := added.2.newBlocks + 1 })
  else (work.inode.root slot, work)

/-- A pointer block of the next level, added where there is none. -/
def ensureTable (table index : Nat) (junk : Buf) (work : Work) : Nat × Work :=
  let read := work.readBlock layout faults table junk
  if read.1.1 then
    if word read.1.2 index = 0 then
      let added := newTable layout faults read.2
      if added.1 = 0 then added
      else
        let written := ext2WriteBlock layout faults added.2 table
          (setWord read.1.2 index added.1)
        if written.1 then
          (added.1, { written.2 with newBlocks := written.2.newBlocks + 1 })
        else (0, written.2)
    else (word read.1.2 index, read.2)
  else (0, read.2)

def ensureData (table index : Nat) (junk : Buf) (work : Work) : (Nat × Bool) × Work :=
  let read := work.readBlock layout faults table junk
  if read.1.1 then
    if word read.1.2 index = 0 then
      let taken := ext2AllocBlock layout faults read.2
      if taken.1 = 0 then ((0, false), taken.2)
      else
        let written := ext2WriteBlock layout faults taken.2 table
          (setWord read.1.2 index taken.1)
        if written.1 then
          ((taken.1, true), { written.2 with newBlocks := written.2.newBlocks + 1 })
        else ((0, false), written.2)
    else ((word read.1.2 index, false), read.2)
  else ((0, false), read.2)

def ensureDirect (slot : Nat) (work : Work) : (Nat × Bool) × Work :=
  if work.inode.root slot = 0 then
    let taken := ext2AllocBlock layout faults work
    if taken.1 = 0 then ((0, false), taken.2)
    else
      ((taken.1, true), { taken.2 with
        inode := taken.2.inode.setRoot slot taken.1
        newBlocks := taken.2.newBlocks + 1 })
  else ((work.inode.root slot, false), work)

def onward (found : Nat × Work) (next : Nat → Work → (Nat × Bool) × Work) :
    (Nat × Bool) × Work :=
  if found.1 = 0 then ((0, false), found.2) else next found.1 found.2

def ext2EnsureBlockForWrite (b : Nat) (junk : Buf) (work : Work) : (Nat × Bool) × Work :=
  let n := layout.pointers
  if b < 12 then ensureDirect layout faults b work
  else if b < 12 + n then
    onward (ensureTop layout faults 12 work) fun top =>
      ensureData layout faults top (b - 12) junk
  else if b < 12 + n + n * n then
    let rel := b - (12 + n)
    onward (ensureTop layout faults 13 work) fun top work =>
      onward (ensureTable layout faults top (rel / n) junk work) fun mid =>
        ensureData layout faults mid (rel % n) junk
  else if b < 12 + n + n * n + n * n * n then
    let rel := b - (12 + n + n * n)
    let i1 := rel / (n * n)
    let i2 := rel / n % n
    let i3 := rel % n
    onward (ensureTop layout faults 14 work) fun top work =>
      onward (ensureTable layout faults top i1 junk work) fun b2 work =>
        onward (ensureTable layout faults b2 i2 junk work) fun b3 =>
          ensureData layout faults b3 i3 junk
  else ((0, false), work)

end Writing

end Racccoon.Ext2.Blocks
