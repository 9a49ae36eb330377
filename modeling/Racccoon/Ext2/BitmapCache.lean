import Racccoon.Lib.Bitmap
import Racccoon.Lib.Simulation

/-!
Block and inode allocation of the ext2 backend, with the write-back cache of one
group's block bitmap (`Ext2_bitmap_cache`). The disk is the part these routines
touch: the bitmaps, the group descriptors' free counts and the superblock's. Reads
and writes of the disk do not fail here.

`Through` is the reference: the same requests, every bitmap scanned from its first byte,
and the bit and the two counts of every change written on the disk at once.
-/

namespace Racccoon.Ext2.Bitmaps

/-- What a mount reads from the superblock. The format wants whole bytes in a group's
block bitmap and block numbers of 32 bits; `groupCount` is the driver's, at most
`EXT2_MAX_GROUPS`. -/
structure Geometry where
  firstDataBlock : Nat
  groupCount : Nat
  blocksPerGroup : Nat
  inodesPerGroup : Nat
  wholeBytes : blocksPerGroup % 8 = 0
  addressable : firstDataBlock + groupCount * blocksPerGroup ≤ 2 ^ 32
  countable : groupCount * inodesPerGroup < 2 ^ 32

abbrev Bytes := Nat → BitVec 8

structure Disk where
  blockBitmap : Nat → Bytes
  inodeBitmap : Nat → Bytes
  groupFreeBlocks : Nat → BitVec 16
  groupFreeInodes : Nat → BitVec 16
  freeBlocks : BitVec 32
  freeInodes : BitVec 32

structure BitmapCache where
  loaded : Bool
  dirty : Bool
  group : Nat
  delta : Int
  scanFrom : Nat
  bitmap : Bytes

structure Driver where
  disk : Disk
  bm : BitmapCache
  blockGroupHint : Nat
  inodeGroupHint : Nat

/-- Subtraction of two `uint`s. -/
def minus (left right : Nat) : Nat := (2 ^ 32 + left - right) % 2 ^ 32

def Disk.adjustFreeBlocks (disk : Disk) (group : Nat) (delta : Int) : Disk :=
  { disk with
    freeBlocks := disk.freeBlocks + BitVec.ofInt 32 delta
    groupFreeBlocks := Function.update disk.groupFreeBlocks group
      (disk.groupFreeBlocks group + BitVec.ofInt 16 delta) }

def Disk.decFreeInodes (disk : Disk) (group : Nat) : Disk :=
  { disk with
    freeInodes := disk.freeInodes - 1
    groupFreeInodes := Function.update disk.groupFreeInodes group
      (disk.groupFreeInodes group - 1) }

def Disk.incFreeInodes (disk : Disk) (group : Nat) : Disk :=
  { disk with
    freeInodes := disk.freeInodes + 1
    groupFreeInodes := Function.update disk.groupFreeInodes group
      (disk.groupFreeInodes group + 1) }

def Disk.writeBlockBitmap (disk : Disk) (group : Nat) (bitmap : Bytes) : Disk :=
  { disk with blockBitmap := Function.update disk.blockBitmap group bitmap }

def Disk.writeInodeBitmap (disk : Disk) (group : Nat) (bitmap : Bytes) : Disk :=
  { disk with inodeBitmap := Function.update disk.inodeBitmap group bitmap }

variable (fs : Driver)

def flushBitmap : Driver :=
  if fs.bm.dirty then
    { fs with
      disk := fs.disk.writeBlockBitmap fs.bm.group fs.bm.bitmap
      bm := { fs.bm with dirty := false } }
  else fs

def flushDelta : Driver :=
  if fs.bm.delta ≠ 0 then
    { fs with
      disk := fs.disk.adjustFreeBlocks fs.bm.group fs.bm.delta
      bm := { fs.bm with delta := 0 } }
  else fs

def bmFlushGroup : Driver :=
  if fs.bm.loaded then flushDelta (flushBitmap fs) else fs

def readGroup (group : Nat) : Driver :=
  { fs with
    bm := { fs.bm with
      loaded := true
      group := group
      scanFrom := 0
      bitmap := fs.disk.blockBitmap group } }

def bmLoad (group : Nat) : Driver :=
  if fs.bm.loaded ∧ fs.bm.group = group then fs else readGroup (bmFlushGroup fs) group

def sync : Driver := bmFlushGroup fs

/-- `ext2_mount` leaves nothing cached and both hints at the first group. -/
def mounted (disk : Disk) : Driver :=
  { disk := disk
    bm := ⟨false, false, 0, 0, 0, fun _ => 0⟩
    blockGroupHint := 0
    inodeGroupHint := 0 }

/-- The two inner loops of `ext2_alloc_block`: the first clear bit at or after byte
`byte`, skipping bytes that are full; `fuel` is the number of bytes left. -/
def scanBytes (bitmap : Bytes) : Nat → Nat → Option Nat
  | 0, _ => none
  | fuel + 1, byte =>
    if bitmap byte = 0xFF#8 then scanBytes bitmap fuel (byte + 1)
    else
      match (List.range 8).find? fun bit => !Bitmap.test bitmap (byte * 8 + bit) with
      | some bit => some (byte * 8 + bit)
      | none => scanBytes bitmap fuel (byte + 1)

/-- The loop of `ext2_alloc_inode` over one group. -/
def scanBits (bitmap : Bytes) (count : Nat) : Option Nat :=
  (List.range count).find? fun bit => !Bitmap.test bitmap bit

def takeBit (group bit : Nat) : Driver :=
  { fs with
    bm := { fs.bm with
      bitmap := Bitmap.insert fs.bm.bitmap bit
      dirty := true
      delta := fs.bm.delta - 1
      scanFrom := bit / 8 }
    blockGroupHint := group }

def groupFull (bytes : Nat) : Driver :=
  { fs with bm := { fs.bm with scanFrom := bytes } }

/-- The loop of `ext2_alloc_block` over the groups, from the `k`-th one on. -/
def allocBlockFrom (geometry : Geometry) : Nat → Nat → Driver → Nat × Driver
  | 0, _, fs => (0, fs)
  | left + 1, k, fs =>
    let group := (fs.blockGroupHint + k) % geometry.groupCount
    let bytes := geometry.blocksPerGroup / 8
    let fs := bmLoad fs group
    match scanBytes fs.bm.bitmap (bytes - fs.bm.scanFrom) fs.bm.scanFrom with
    | some bit =>
      (geometry.firstDataBlock + group * geometry.blocksPerGroup + bit, takeBit fs group bit)
    | none => allocBlockFrom geometry left (k + 1) (groupFull fs bytes)

variable (geometry : Geometry)

def allocBlock (fs : Driver) : Nat × Driver :=
  allocBlockFrom geometry geometry.groupCount 0 fs

def clearBit (fs : Driver) (bit : Nat) : Driver :=
  { fs with
    bm := { fs.bm with
      bitmap := Bitmap.remove fs.bm.bitmap bit
      dirty := true
      delta := fs.bm.delta + 1
      scanFrom := if bit / 8 < fs.bm.scanFrom then bit / 8 else fs.bm.scanFrom } }

def groupOf (block : Nat) : Nat :=
  minus block geometry.firstDataBlock / geometry.blocksPerGroup

def bitOf (block : Nat) : Nat :=
  minus block geometry.firstDataBlock % geometry.blocksPerGroup

def freeBlock (fs : Driver) (block : Nat) : Bool × Driver :=
  if groupOf geometry block ≥ geometry.groupCount then (false, fs)
  else
    let fs := bmLoad fs (groupOf geometry block)
    if Bitmap.test fs.bm.bitmap (bitOf geometry block) then
      (true, clearBit fs (bitOf geometry block))
    else (true, fs)

structure Inodes where
  disk : Disk
  hint : Nat

def allocInodeFrom (geometry : Geometry) : Nat → Nat → Inodes → Nat × Inodes
  | 0, _, inodes => (0, inodes)
  | left + 1, k, inodes =>
    let group := (inodes.hint + k) % geometry.groupCount
    match scanBits (inodes.disk.inodeBitmap group) geometry.inodesPerGroup with
    | some bit =>
      (group * geometry.inodesPerGroup + bit + 1,
        { disk := (inodes.disk.writeInodeBitmap group
            (Bitmap.insert (inodes.disk.inodeBitmap group) bit)).decFreeInodes group
          hint := group })
    | none => allocInodeFrom geometry left (k + 1) inodes

def allocInode (inodes : Inodes) : Nat × Inodes :=
  allocInodeFrom geometry geometry.groupCount 0 inodes

variable (disk : Disk)

/-- Unlike `ext2_free_block`, this counts a bit that was clear already. -/
def freeInode (inodeNum : Nat) : Bool × Disk :=
  let group := minus inodeNum 1 / geometry.inodesPerGroup
  if group ≥ geometry.groupCount then (false, disk)
  else
    (true, (disk.writeInodeBitmap group (Bitmap.remove (disk.inodeBitmap group)
      (minus inodeNum 1 % geometry.inodesPerGroup))).incFreeInodes group)

inductive Action where
  | allocBlock
  | freeBlock (block : BitVec 32)
  | allocInode
  | freeInode (inodeNum : BitVec 32)
  | sync
  deriving DecidableEq

inductive Reply where
  | number (number : Nat)
  | done (ok : Bool)
  deriving DecidableEq

def step (fs : Driver) : Action → Reply × Driver
  | .allocBlock => (.number (allocBlock geometry fs).1, (allocBlock geometry fs).2)
  | .freeBlock block =>
    let result := freeBlock geometry fs block.toNat
    (.done result.1, result.2)
  | .allocInode =>
    let result := allocInode geometry ⟨fs.disk, fs.inodeGroupHint⟩
    (.number result.1, { fs with disk := result.2.disk, inodeGroupHint := result.2.hint })
  | .freeInode inodeNum =>
    let result := freeInode geometry fs.disk inodeNum.toNat
    (.done result.1, { fs with disk := result.2 })
  | .sync => (.done true, sync fs)

structure Through where
  disk : Disk
  blockGroupHint : Nat
  inodeGroupHint : Nat

variable (group bit : Nat)

def Disk.takeBlock : Disk :=
  { disk with
    blockBitmap := Function.update disk.blockBitmap group
      (Bitmap.insert (disk.blockBitmap group) bit)
    groupFreeBlocks := Function.update disk.groupFreeBlocks group
      (disk.groupFreeBlocks group - 1)
    freeBlocks := disk.freeBlocks - 1 }

def Disk.giveBlock : Disk :=
  { disk with
    blockBitmap := Function.update disk.blockBitmap group
      (Bitmap.remove (disk.blockBitmap group) bit)
    groupFreeBlocks := Function.update disk.groupFreeBlocks group
      (disk.groupFreeBlocks group + 1)
    freeBlocks := disk.freeBlocks + 1 }

def Disk.takeInode : Disk :=
  { disk with
    inodeBitmap := Function.update disk.inodeBitmap group
      (Bitmap.insert (disk.inodeBitmap group) bit)
    groupFreeInodes := Function.update disk.groupFreeInodes group
      (disk.groupFreeInodes group - 1)
    freeInodes := disk.freeInodes - 1 }

def Disk.giveInode : Disk :=
  { disk with
    inodeBitmap := Function.update disk.inodeBitmap group
      (Bitmap.remove (disk.inodeBitmap group) bit)
    groupFreeInodes := Function.update disk.groupFreeInodes group
      (disk.groupFreeInodes group + 1)
    freeInodes := disk.freeInodes + 1 }

/-- The group and the bit of the `number`-th from `base` on, as the `uint`s give them. -/
def placeOf (base perGroup number : Nat) : Nat × Nat :=
  let relative := (2 ^ 32 + number - base) % 2 ^ 32
  (relative / perGroup, relative % perGroup)

def Through.allocBlockFrom (geometry : Geometry) : Nat → Nat → Through → Nat × Through
  | 0, _, fs => (0, fs)
  | left + 1, k, fs =>
    let group := (fs.blockGroupHint + k) % geometry.groupCount
    match scanBits (fs.disk.blockBitmap group) geometry.blocksPerGroup with
    | some bit =>
      (geometry.firstDataBlock + group * geometry.blocksPerGroup + bit,
        { fs with disk := fs.disk.takeBlock group bit, blockGroupHint := group })
    | none => Through.allocBlockFrom geometry left (k + 1) fs

variable (fs : Through)

def Through.allocBlock : Nat × Through :=
  Through.allocBlockFrom geometry geometry.groupCount 0 fs

def Through.freeBlock (block : Nat) : Bool × Through :=
  let place := placeOf geometry.firstDataBlock geometry.blocksPerGroup block
  if place.1 ≥ geometry.groupCount then (false, fs)
  else if Bitmap.test (fs.disk.blockBitmap place.1) place.2 then
    (true, { fs with disk := fs.disk.giveBlock place.1 place.2 })
  else (true, fs)

def Through.allocInodeFrom (geometry : Geometry) : Nat → Nat → Through → Nat × Through
  | 0, _, fs => (0, fs)
  | left + 1, k, fs =>
    let group := (fs.inodeGroupHint + k) % geometry.groupCount
    match scanBits (fs.disk.inodeBitmap group) geometry.inodesPerGroup with
    | some bit =>
      (group * geometry.inodesPerGroup + bit + 1,
        { fs with disk := fs.disk.takeInode group bit, inodeGroupHint := group })
    | none => Through.allocInodeFrom geometry left (k + 1) fs

def Through.allocInode : Nat × Through :=
  Through.allocInodeFrom geometry geometry.groupCount 0 fs

def Through.freeInode (inodeNum : Nat) : Bool × Through :=
  let place := placeOf 1 geometry.inodesPerGroup inodeNum
  if place.1 ≥ geometry.groupCount then (false, fs)
  else (true, { fs with disk := fs.disk.giveInode place.1 place.2 })

def Through.step : Action → Reply × Through
  | .allocBlock =>
    (.number (Through.allocBlock geometry fs).1, (Through.allocBlock geometry fs).2)
  | .freeBlock block =>
    let result := Through.freeBlock geometry fs block.toNat
    (.done result.1, result.2)
  | .allocInode =>
    (.number (Through.allocInode geometry fs).1, (Through.allocInode geometry fs).2)
  | .freeInode inodeNum =>
    let result := Through.freeInode geometry fs inodeNum.toNat
    (.done result.1, result.2)
  | .sync => (.done true, fs)

def Through.mounted : Through := ⟨disk, 0, 0⟩

end Racccoon.Ext2.Bitmaps
