import Racccoon.Ext2.Dirents

/-!
The ext2 backend over one mounted volume (user/fs/ext2.c3). An inode carries its
own bytes or, for a directory, its own records; which disk blocks hold them is
left to the block layer, and so is where a write runs out of space: a request
brings a `Space` that says how many of its bytes find a block. The sectors
reserved at mount appear as the logical blocks of the inode that owns them.
A result `none` is the -1 of the source. `generation` counts how often an inode
number has been handed out; nothing in the code reads it.
-/

namespace Racccoon.Ext2

open Tiling

structure Inode where
  mode : Nat
  uid : Nat
  linksCount : Nat
  content : List UInt8
  entries : List (List Dirent)
  deriving DecidableEq

/-- Where a directory record starts. -/
structure DirentPos where
  dir : Nat
  block : Nat
  offset : Nat
  deriving DecidableEq

structure Volume where
  blockSize : Nat
  roomy : 1024 ≤ blockSize
  inodesPerGroup : Nat
  groupCount : Nat
  inodeGroupHint : Nat
  inodes : Nat → Inode
  inodeBitmap : Nat → Bool
  generation : Nat → Nat
  /-- `ext2_cache_path` and `ext2_cache_inode_num`, while valid. -/
  pathCache : Option (List UInt8 × Nat)
  /-- `fs_reserved_ranges`: the logical blocks of an inode that refuse writes. -/
  reserved : Nat → Nat → Bool
  protectedEntry : Option DirentPos

/-- What the block layer grants a request. -/
structure Space where
  stored : Nat
  dirBlock : Bool
  newBlock : Bool
  deriving DecidableEq

def ext2RootInode : Nat := 2
def ext2SIfreg : Nat := 0x8000
def ext2SIfdir : Nat := 0x4000
def ext2SIfmt : Nat := 0xF000
def ext2SIrusr : Nat := 0x0100
def ext2SIwusr : Nat := 0x0080
def ext2SIroth : Nat := 0x0004
def ext2SIwoth : Nat := 0x0002
def ext2MaxDeleteDepth : Nat := 32

def slash : UInt8 := 47
def dot : List UInt8 := [46]
def dotdot : List UInt8 := [46, 46]

def isDir (mode : Nat) : Bool :=
  mode &&& ext2SIfdir != 0

def Inode.blank : Inode := ⟨0, 0, 0, [], []⟩

namespace Volume

variable (volume : Volume)

def setInode (num : Nat) (inode : Inode) : Volume :=
  { volume with inodes := Function.update volume.inodes num inode }

def alter (num : Nat) (change : Inode → Inode) : Volume :=
  volume.setInode num (change (volume.inodes num))

def dropCache : Volume :=
  { volume with pathCache := none }

end Volume

def ext2WriteAllowed (inode : Inode) (requester : Nat) : Bool :=
  if requester = 0 then true
  else if requester = inode.uid then inode.mode &&& ext2SIwusr != 0
  else inode.mode &&& ext2SIwoth != 0

def ext2ReadAllowed (inode : Inode) (requester : Nat) : Bool :=
  if requester = 0 then true
  else if requester = inode.uid then inode.mode &&& ext2SIrusr != 0
  else inode.mode &&& ext2SIroth != 0

variable (volume : Volume)

def fsIsProtectedEntry (pos : DirentPos) : Bool :=
  volume.protectedEntry = some pos

def ext2ReadInode (num : Nat) : Option Inode :=
  if num = 0 then none
  else if volume.groupCount ≤ (num - 1) / volume.inodesPerGroup then none
  else some (volume.inodes num)

/-- `ext2_write_inode` of the fields this driver changes besides the data; the
owner and the link count are 16 bits on disk. -/
def ext2WriteInode (num mode uid linksCount : Nat) : Volume :=
  volume.alter num fun inode =>
    { inode with mode := mode, uid := uid % 65536, linksCount := linksCount % 65536 }

def ext2ZeroInode (num : Nat) : Volume :=
  volume.setInode num .blank

def freeInode : Option (Nat × Nat) :=
  (List.range volume.groupCount).findSome? fun k =>
    let group := (volume.inodeGroupHint + k) % volume.groupCount
    (List.range volume.inodesPerGroup).findSome? fun i =>
      let num := group * volume.inodesPerGroup + i + 1
      if volume.inodeBitmap num then none else some (group, num)

def ext2AllocInode : Option (Nat × Volume) :=
  (freeInode volume).map fun (group, num) =>
    (num, { volume with
      inodeBitmap := Function.update volume.inodeBitmap num true
      generation := Function.update volume.generation num (volume.generation num + 1)
      inodeGroupHint := group })

def ext2FreeInode (num : Nat) : Volume :=
  { volume with inodeBitmap := Function.update volume.inodeBitmap num false }

structure Found where
  inode : Nat
  pos : DirentPos
  mode : Nat
  deriving DecidableEq

def ext2FindInDir (dir : Nat) (name : List UInt8) : Option Found := do
  let info ← ext2ReadInode volume dir
  guard (isDir info.mode)
  let (block, offset, entry) ← findInBlocks name info.entries
  let matched ← ext2ReadInode volume entry.inode
  pure ⟨entry.inode, ⟨dir, block, offset⟩, matched.mode⟩

/-- The loop of `ext2_resolve_dir`: the directory reached so far and the segment
being gathered. Empty segments are skipped, the last one is left to the caller. -/
def resolveFrom (volume : Volume) : Nat → List UInt8 → List UInt8 → Option Nat
  | dir, _, [] => some dir
  | dir, segment, c :: rest =>
    if c = slash then
      if segment = [] then resolveFrom volume dir [] rest
      else
        match ext2FindInDir volume dir (segment.take 255) with
        | some found => if isDir found.mode then resolveFrom volume found.inode [] rest else none
        | none => none
    else resolveFrom volume dir (segment ++ [c]) rest

variable (path : List UInt8)

def ext2ResolveDir : Option Nat :=
  resolveFrom volume ext2RootInode [] path

def leafFrom : List UInt8 → List UInt8 → List UInt8
  | leaf, [] => leaf
  | leaf, c :: rest => if c = slash then leafFrom rest rest else leafFrom leaf rest

def ext2LeafName : List UInt8 :=
  leafFrom path path

def ext2Lookup : Option Found :=
  (ext2ResolveDir volume path).bind fun dir => ext2FindInDir volume dir (ext2LeafName path)

def ext2LookupEntry : Option Found :=
  if ext2LeafName path = [] then none else ext2Lookup volume path

def slice (content : List UInt8) (offset len : Nat) : List UInt8 :=
  (content.drop offset).take len

def ext2ReadInodeAt (num len offset : Nat) : Option (List UInt8) := do
  let inode ← ext2ReadInode volume num
  guard !isDir inode.mode
  pure (slice inode.content offset len)

def ext2Read (len : Nat) : Option (List UInt8) := do
  let found ← ext2Lookup volume path
  ext2ReadInodeAt volume found.inode len 0

def ext2ReadAt (len offset : Nat) : Volume × Option (List UInt8) :=
  match volume.pathCache.filter fun cached => cached.1 = path with
  | some cached => (volume, ext2ReadInodeAt volume cached.2 len offset)
  | none =>
    match ext2Lookup volume path with
    | none => (volume, none)
    | some found =>
      if isDir found.mode then (volume, none)
      else ({ volume with pathCache := some (path, found.inode) },
        ext2ReadInodeAt volume found.inode len offset)

variable (requester : Nat)

def ext2MayRead : Bool :=
  if requester = 0 then true
  else
    match (ext2LookupEntry volume path).bind fun found => ext2ReadInode volume found.inode with
    | some inode => ext2ReadAllowed inode requester
    | none => true

/-- The size and whether it is a directory. -/
def ext2Stat : Option (Nat × Bool) :=
  if path = [] then some (0, true)
  else do
    let found ← ext2Lookup volume path
    if isDir found.mode then pure (0, true)
    else
      let inode ← ext2ReadInode volume found.inode
      pure (inode.content.length, false)

def isDots (entry : Dirent) : Bool :=
  entry.name = dot || entry.name = dotdot

/-- One page of a listing: the names cut to 31 bytes, each with whether it is a
directory. -/
def ext2List (maxEntries start : Nat) : Option (List (List UInt8 × Bool)) := do
  let dir ← if path = [] then some ext2RootInode else do
    let found ← ext2Lookup volume path
    guard (isDir found.mode)
    pure found.inode
  let info ← ext2ReadInode volume dir
  let listed := info.entries.flatten.filter fun entry => entry.inode ≠ 0 && !isDots entry
  ((listed.drop start).take maxEntries).mapM fun entry => do
    let child ← ext2ReadInode volume entry.inode
    pure (entry.name.take 31, isDir child.mode)

variable (dir : Nat)

/-- Places the record `name` → `child`, growing the directory by a block when no
record has room. -/
def ext2PlaceDirent (name : List UInt8) (child : Nat) (dirBlock : Bool) : Option Volume :=
  match placeInBlocks child name (volume.inodes dir).entries with
  | some filled => some (volume.alter dir fun inode => { inode with entries := filled })
  | none =>
    if dirBlock then
      some (volume.alter dir fun inode =>
        { inode with entries := inode.entries ++ [[Dirent.fresh child volume.blockSize name (by
            have short := storedName_length name
            have byte : name.length % 256 < 256 := Nat.mod_lt _ (by omega)
            have big := volume.roomy
            unfold ext2DirentIdeal
            omega)]] })
    else none

def ext2ZeroDirent (pos : DirentPos) : Volume :=
  volume.alter pos.dir fun inode =>
    { inode with entries := editAt Dirent.cleared inode.entries pos.block pos.offset }

/-- The block `ext2_mkdir_resolved` seeds a new directory with. -/
def dotBlock (num parent : Nat) : List Dirent :=
  [⟨num, 12, dot, by decide, by decide⟩,
   ⟨parent, volume.blockSize - 12, dotdot, by
      have big := volume.roomy
      change 12 ≤ volume.blockSize - 12
      omega, by decide⟩]

def ext2DirIsEmpty (inode : Inode) : Bool :=
  inode.entries.flatten.all fun entry => entry.inode = 0 || isDots entry

def ext2CreateFile (name : List UInt8) (requester : Nat) (space : Space) : Volume × Option Nat :=
  match ext2AllocInode volume with
  | none => (volume, none)
  | some (num, taken) =>
    let made := ext2WriteInode (ext2ZeroInode taken num) num (ext2SIfreg ||| 0x1A4) requester 1
    match ext2ReadInode made dir with
    | none => (made, none)
    | some _ =>
      match ext2PlaceDirent made dir name num space.dirBlock with
      | none => (ext2FreeInode made num, none)
      | some linked => (linked, some num)

def ext2MkdirResolved (parent : Nat) (leaf : List UInt8) (requester : Nat)
    (space : Space) : Volume × Option Nat :=
  if (ext2FindInDir volume parent leaf).isSome then (volume, none)
  else
    match ext2AllocInode volume with
    | none => (volume, none)
    | some (num, taken) =>
      let zeroed := ext2ZeroInode taken num
      if !space.newBlock then (ext2FreeInode zeroed num, none)
      else
        let seeded := zeroed.alter num fun inode =>
          { inode with entries := [dotBlock volume num parent] }
        let made := ext2WriteInode seeded num (ext2SIfdir ||| 0x1ED) requester 2
        match ext2ReadInode made parent with
        | none => (made, none)
        | some info =>
          match ext2PlaceDirent made parent leaf num space.dirBlock with
          | none => (ext2FreeInode made num, none)
          | some linked =>
            (ext2WriteInode linked parent info.mode info.uid (info.linksCount + 1), some 0)

def ext2Mkdir (space : Space) : Volume × Option Nat :=
  let volume := volume.dropCache
  match ext2ResolveDir volume path with
  | none => (volume, none)
  | some parent =>
    if ext2LeafName path = [] then (volume, none)
    else ext2MkdirResolved volume parent (ext2LeafName path) requester space

/-- How many of `len` bytes from `offset` on come before a reserved block. -/
def unreserved (num offset len : Nat) : Nat :=
  ((List.range len).find? fun i => volume.reserved num ((offset + i) / volume.blockSize)).getD len

/-- `ext2_write_file` and the size the caller sets: the file becomes the bytes
that were written, at most 12 blocks of them. -/
def ext2WriteFile (src : List UInt8) (stored : Nat) (volume : Volume) (num : Nat) :
    Volume × Option Nat :=
  let written := unreserved volume num 0 (min (min stored src.length) (12 * volume.blockSize))
  (volume.alter num fun inode => { inode with content := src.take written }, some written)

def ext2MaxOffset (blockSize : Nat) : Nat :=
  let n := blockSize / 4
  min ((12 + n + n * n + n * n * n) * blockSize) 0xFFFFFFFF

/-- `ext2_write_file_at` and the size the caller sets: no holes, and the file only
grows. -/
def ext2WriteFileAt (src : List UInt8) (offset stored : Nat) (volume : Volume) (num : Nat) :
    Volume × Option Nat :=
  let content := (volume.inodes num).content
  if content.length < offset then (volume, none)
  else if ext2MaxOffset volume.blockSize ≤ offset then (volume, none)
  else
    let written := unreserved volume num offset (min stored src.length)
    (volume.alter num fun inode =>
      { inode with content :=
          content.take offset ++ src.take written ++ content.drop (offset + written) },
      some written)

variable (store : Volume → Nat → Volume × Option Nat)

/-- The shared shape of `ext2_write` and `ext2_write_at` once the entry is known;
`existed` says whether it was there before the request. -/
def ext2WriteEntry (volume : Volume) (found : Found)
    (existed : Bool) (requester : Nat) : Volume × Option Nat :=
  if fsIsProtectedEntry volume found.pos then (volume, none)
  else
    match ext2ReadInode volume found.inode with
    | none => (volume, none)
    | some inode =>
      if existed && !ext2WriteAllowed inode requester then (volume, none)
      else store volume found.inode

/-- Resolves the path, creates the file if it is missing and `mayCreate` holds,
and stores into it. -/
def ext2WriteThrough (mayCreate : Bool)
    (volume : Volume) (path : List UInt8) (requester : Nat) (space : Space) :
    Volume × Option Nat :=
  let volume := volume.dropCache
  match ext2ResolveDir volume path with
  | none => (volume, none)
  | some dir =>
    let leaf := ext2LeafName path
    if leaf = [] then (volume, none)
    else
      match ext2FindInDir volume dir leaf with
      | some found =>
        if isDir found.mode then (volume, none)
        else ext2WriteEntry store volume found true requester
      | none =>
        if !mayCreate then (volume, none)
        else
          match ext2CreateFile volume dir leaf requester space with
          | (created, none) => (created, none)
          | (created, some _) =>
            match ext2FindInDir created dir leaf with
            | none => (created, none)
            | some found => ext2WriteEntry store created found false requester

def ext2Write (path src : List UInt8) (requester : Nat) (space : Space) : Volume × Option Nat :=
  ext2WriteThrough (ext2WriteFile src space.stored) true volume path requester space

def ext2WriteAt (path src : List UInt8) (offset requester : Nat)
    (space : Space) : Volume × Option Nat :=
  ext2WriteThrough (ext2WriteFileAt src offset space.stored) (offset = 0) volume path requester space

def ext2Chmod (mode requester : Nat) : Volume × Option Nat :=
  let volume := volume.dropCache
  match ext2LookupEntry volume path with
  | none => (volume, none)
  | some found =>
    if fsIsProtectedEntry volume found.pos then (volume, none)
    else
      match ext2ReadInode volume found.inode with
      | none => (volume, none)
      | some inode =>
        if requester ≠ 0 ∧ requester ≠ inode.uid then (volume, none)
        else
          let bits := (inode.mode &&& ext2SIfmt) ||| (mode &&& 0x0FFF)
          (ext2WriteInode volume found.inode bits inode.uid inode.linksCount, some 0)

def ext2Chown (uid requester : Nat) : Volume × Option Nat :=
  let volume := volume.dropCache
  if requester ≠ 0 then (volume, none)
  else
    match ext2LookupEntry volume path with
    | none => (volume, none)
    | some found =>
      if fsIsProtectedEntry volume found.pos then (volume, none)
      else
        match ext2ReadInode volume found.inode with
        | none => (volume, none)
        | some inode =>
          (ext2WriteInode volume found.inode inode.mode uid inode.linksCount, some 0)

def dropLink (info : Inode) : Volume :=
  ext2WriteInode volume dir info.mode info.uid (info.linksCount - 1)

def releaseInode (num : Nat) : Volume :=
  ext2FreeInode (ext2ZeroInode volume num) num

/-- Clears the entry of a removed name, undoes a directory's `..` link and gives
the inode back. -/
def unlinkEntry (dir num : Nat) (pos : DirentPos) (directory : Bool) : Volume × Option Nat :=
  let cleared := ext2ZeroDirent volume pos
  if directory then
    match ext2ReadInode cleared dir with
    | none => (cleared, none)
    | some parent => (releaseInode (dropLink cleared dir parent) num, some 0)
  else (releaseInode cleared num, some 0)

def ext2DeleteResolved (dir num : Nat) (pos : DirentPos) (mode requester : Nat) :
    Volume × Option Nat :=
  if fsIsProtectedEntry volume pos then (volume, none)
  else
    match ext2ReadInode volume num with
    | none => (volume, none)
    | some inode =>
      if !ext2WriteAllowed inode requester then (volume, none)
      else if isDir mode && !ext2DirIsEmpty inode then (volume, none)
      else unlinkEntry volume dir num pos (isDir mode)

def ext2Delete : Volume × Option Nat :=
  let volume := volume.dropCache
  match ext2LookupEntry volume path with
  | none => (volume, none)
  | some found =>
    ext2DeleteResolved volume found.pos.dir found.inode found.pos found.mode requester

/-- The records of one block in the loop of `ext2_delete_dir_contents`: the
directory's link count and the block's buffer are carried along, `empty` is the
recursive call. `none` is a refusal, after which the buffer is not written. -/
def deleteRecords (empty : Volume → Nat → Volume × Bool) (requester dir block : Nat) :
    Volume → Nat → Nat → List Dirent → Volume × Option (Nat × List Dirent)
  | volume, links, _, [] => (volume, some (links, []))
  | volume, links, offset, entry :: rest =>
    if entry.inode = 0 ∨ isDots entry then
      match deleteRecords empty requester dir block volume links (offset + entry.recLen) rest with
      | (after, some (left, kept)) => (after, some (left, entry :: kept))
      | (after, none) => (after, none)
    else if fsIsProtectedEntry volume ⟨dir, block, offset⟩ then (volume, none)
    else
      match ext2ReadInode volume entry.inode with
      | none => (volume, none)
      | some child =>
        if !ext2WriteAllowed child requester then (volume, none)
        else
          match if isDir child.mode then empty volume entry.inode else (volume, true) with
          | (after, false) => (after, none)
          | (emptied, true) =>
            let released := releaseInode emptied entry.inode
            let left := if isDir child.mode then links - 1 else links
            match deleteRecords empty requester dir block released left
                (offset + entry.recLen) rest with
            | (after, some (left, kept)) => (after, some (left, entry.cleared :: kept))
            | (after, none) => (after, none)

/-- The blocks of the directory from `block` on, each read when its turn comes and
written back once all its records are gone. -/
def deleteBlocks (empty : Volume → Nat → Volume × Bool) (requester dir : Nat) :
    Nat → Volume → Nat → Nat → Volume × Option Nat
  | 0, volume, links, _ => (volume, some links)
  | count + 1, volume, links, block =>
    let records := ((volume.inodes dir).entries[block]?).getD []
    match deleteRecords empty requester dir block volume links 0 records with
    | (after, none) => (after, none)
    | (after, some (left, kept)) =>
      let stored := after.alter dir fun inode =>
        { inode with entries := inode.entries.set block kept }
      deleteBlocks empty requester dir count stored left (block + 1)

/-- `ext2_delete_dir_contents` with `fuel` levels left below the depth bound. -/
def ext2DeleteDirContents (requester : Nat) : Nat → Volume → Nat → Volume × Bool
  | 0, volume, _ => (volume, false)
  | fuel + 1, volume, dir =>
    match ext2ReadInode volume dir with
    | none => (volume, false)
    | some info =>
      match deleteBlocks (ext2DeleteDirContents requester fuel) requester dir
          info.entries.length volume info.linksCount 0 with
      | (after, none) => (after, false)
      | (after, some links) => (ext2WriteInode after dir info.mode info.uid links, true)

def ext2DeleteRecursive : Volume × Option Nat :=
  let volume := volume.dropCache
  match ext2LookupEntry volume path with
  | none => (volume, none)
  | some found =>
    if fsIsProtectedEntry volume found.pos then (volume, none)
    else
      match ext2ReadInode volume found.inode with
      | none => (volume, none)
      | some inode =>
        if !ext2WriteAllowed inode requester then (volume, none)
        else
          match if isDir found.mode
            then ext2DeleteDirContents requester ext2MaxDeleteDepth volume found.inode
            else (volume, true) with
          | (after, false) => (after, none)
          | (emptied, true) =>
            unlinkEntry emptied found.pos.dir found.inode found.pos (isDir found.mode)

def dotdotPos : DirentPos := ⟨dir, 0, 12⟩

def ext2GetParentInode : Nat :=
  (((ext2ReadInode volume dir).bind fun info => entryAt info.entries 0 12).map
    Dirent.inode).getD ext2RootInode

def climbs (volume : Volume) (forbidden : Nat) : Nat → Nat → Bool
  | 0, _ => true
  | depth + 1, num =>
    if num = forbidden then true
    else if num = ext2RootInode then false
    else climbs volume forbidden depth (ext2GetParentInode volume num)

def ext2WouldCreateCycle (candidate forbidden : Nat) : Bool :=
  climbs volume forbidden ext2MaxDeleteDepth candidate

/-- The moved directory's `..` and the link counts of its two parents. -/
def reparent (num oldParent newParent : Nat) (parent : Inode) : Volume :=
  let counted := ext2WriteInode volume newParent parent.mode parent.uid (parent.linksCount + 1)
  let moved := counted.alter num fun inode =>
    { inode with entries := editAt (Dirent.retarget newParent) inode.entries 0 12 }
  dropLink moved oldParent (moved.inodes oldParent)

def ext2Rename (oldPath newPath : List UInt8) (requester : Nat)
    (space : Space) : Volume × Option Nat :=
  let volume := volume.dropCache
  match ext2LookupEntry volume oldPath with
  | none => (volume, none)
  | some found =>
    if fsIsProtectedEntry volume found.pos then (volume, none)
    else
      match ext2ReadInode volume found.inode, ext2ResolveDir volume newPath with
      | some source, some newParent =>
        if !ext2WriteAllowed source requester || ext2LeafName newPath = [] ||
            (isDir found.mode && ext2WouldCreateCycle volume newParent found.inode) ||
            (ext2FindInDir volume newParent (ext2LeafName newPath)).isSome then
          (volume, none)
        else
          match ext2ReadInode volume newParent with
          | none => (volume, none)
          | some parent =>
            match ext2PlaceDirent volume newParent (ext2LeafName newPath) found.inode
                space.dirBlock with
            | none => (volume, none)
            | some placed =>
              let moved := if isDir found.mode ∧ newParent ≠ found.pos.dir
                then reparent placed found.inode found.pos.dir newParent parent
                else placed
              (ext2ZeroDirent moved found.pos, some 0)
      | _, _ => (volume, none)

end Racccoon.Ext2
