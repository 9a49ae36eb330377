import Mathlib.Algebra.GroupWithZero.Nat
import Mathlib.Data.List.DropRight
import Racccoon.Ext2.Volume

/-!
The request loop of the file server over an ext2 volume (user/fs/fsd.c3): the
path requests FS_* and the fid requests P9_*. A message brings the sender, the
uid the kernel reports for it and the `Space` the block layer grants. A fid also
records who established it and the generation of its inode at that time, and
`passed` records the read checks clients passed; no handler looks at these.
-/

namespace Racccoon.Ext2

def fsMsgMax : Nat := 8192
def fsOffsetAppend : Nat := 0xFFFFFFFF
def fs9FidMax : Nat := 8
def fsListMax : Nat := (fsMsgMax - 4) / 36

/-- fip.bin -/
def fsProtectedName : List UInt8 := [102, 105, 112, 46, 98, 105, 110]

def lowerCase (c : UInt8) : UInt8 :=
  if 65 ≤ c ∧ c ≤ 90 then c - 65 + 97 else c

def fsIsProtectedName (name : List UInt8) : Bool :=
  name.map lowerCase = fsProtectedName

def cString (raw : List UInt8) : List UInt8 :=
  raw.takeWhile (· ≠ 0)

def fsFilename (raw : List UInt8) : List UInt8 :=
  (cString (raw.take 99)).rdropWhile (· = slash)

structure Fid where
  used : Bool
  opened : Bool
  isDir : Bool
  inode : Nat
  parent : Nat
  entry : DirentPos
  hasEntry : Bool
  owner : Nat
  born : Nat
  deriving DecidableEq

/-- A client passed the read check of the file an inode number stood for. -/
structure Check where
  client : Nat
  inode : Nat
  born : Nat
  deriving DecidableEq

structure Fsd where
  volume : Volume
  fids : Nat → Fid
  passed : List Check

inductive Request where
  | fsRead (name : List UInt8) (len : Nat)
  | fsReadAt (name : List UInt8) (len offset : Nat)
  | fsList (name : List UInt8) (start : Nat)
  | fsStat (name : List UInt8)
  | fsWrite (name data : List UInt8)
  | fsWriteAt (name data : List UInt8) (offset : Nat)
  | fsDelete (name : List UInt8) (recursive : Bool)
  | fsMkdir (name : List UInt8)
  | fsRename (name newName : List UInt8)
  | fsChmod (name : List UInt8) (mode : Nat)
  | fsChown (name : List UInt8) (uid : Nat)
  | p9Attach (fid : Nat)
  | p9Walk (fid newfid : Nat) (name : List UInt8)
  | p9Open (fid : Nat)
  | p9Read (fid offset count : Nat)
  | p9Clunk (fid : Nat)
  | p9Create (fid : Nat) (dmdir : Bool) (name : List UInt8)
  | p9Write (fid offset : Nat) (data : List UInt8)
  | p9Remove (fid : Nat)
  deriving DecidableEq

structure Message where
  client : Nat
  uid : Nat
  space : Space
  request : Request
  deriving DecidableEq

inductive Reply where
  | result (outcome : Option Nat)
  | bytes (data : Option (List UInt8))
  | stat (found : Option (Nat × Bool))
  | listing (page : Option (List (List UInt8 × Bool)))
  deriving DecidableEq

namespace Fsd

def setFid (fsd : Fsd) (fid : Nat) (entry : Fid) : Fsd :=
  { fsd with fids := Function.update fsd.fids fid entry }

def withVolume (fsd : Fsd) (volume : Volume) : Fsd :=
  { fsd with volume := volume }

end Fsd

def Fid.free : Fid := ⟨false, false, false, 0, 0, ⟨0, 0, 0⟩, false, 0, 0⟩

def Fsd.mounted (volume : Volume) : Fsd := ⟨volume, fun _ => .free, []⟩

theorem dot_holds : ext2DirentIdeal dot.length ≤ 12 := by decide

theorem dot_short : dot.length < 256 := by decide

theorem dotdot_holds : ext2DirentIdeal dotdot.length ≤ 12 := by decide

theorem dotdot_short : dotdot.length < 256 := by decide

def Volume.formatted : Volume where
  blockSize := 1024
  roomy := Nat.le_refl _
  inodesPerGroup := 16
  groupCount := 1
  inodeGroupHint := 0
  inodes := fun num =>
    if num = ext2RootInode then
      ⟨0x41ED, 0, 2, [], [[⟨2, 12, dot, dot_holds, dot_short⟩,
        ⟨2, 1012, dotdot, by decide, dotdot_short⟩]]⟩
    else .blank
  inodeBitmap := fun num => num ≤ 10
  generation := fun _ => 0
  pathCache := none
  reserved := fun _ _ => false
  protectedEntry := none

variable (fsd : Fsd)

def fidUsed (fid : Nat) : Bool :=
  decide (fid < fs9FidMax) && (fsd.fids fid).used

def p9Attach (client fid : Nat) : Fsd × Option Nat :=
  if fid < fs9FidMax ∧ !(fsd.fids fid).used then
    (fsd.setFid fid { fsd.fids fid with
      used := true, opened := false, isDir := true, inode := ext2RootInode, hasEntry := false
      owner := client, born := fsd.volume.generation ext2RootInode }, some 0)
  else (fsd, none)

def p9Walk (client fid newfid : Nat) (name : List UInt8) : Fsd × Option Nat :=
  if fidUsed fsd fid && (fsd.fids fid).isDir && decide (newfid < fs9FidMax) &&
      !(fsd.fids newfid).used then
    match ext2FindInDir fsd.volume (fsd.fids fid).inode name with
    | none => (fsd, none)
    | some found =>
      (fsd.setFid newfid
        { used := true, opened := false, isDir := isDir found.mode, inode := found.inode
          parent := (fsd.fids fid).inode, entry := found.pos, hasEntry := true
          owner := client, born := fsd.volume.generation found.inode }, some 0)
  else (fsd, none)

def p9Open (client uid fid : Nat) : Fsd × Option Nat :=
  if fidUsed fsd fid && !(fsd.fids fid).isDir then
    match ext2ReadInode fsd.volume (fsd.fids fid).inode with
    | none => (fsd, none)
    | some inode =>
      if ext2ReadAllowed inode uid then
        let opened := fsd.setFid fid { fsd.fids fid with opened := true }
        ({ opened with passed := ⟨client, (fsd.fids fid).inode,
            fsd.volume.generation (fsd.fids fid).inode⟩ :: fsd.passed }, some 0)
      else (fsd, none)
  else (fsd, none)

def p9Read (fid offset count : Nat) : Option (List UInt8) :=
  if fidUsed fsd fid && (fsd.fids fid).opened then
    ext2ReadInodeAt fsd.volume (fsd.fids fid).inode (min count (fsMsgMax - 4)) offset
  else none

def p9Clunk (fid : Nat) : Fsd × Option Nat :=
  if fidUsed fsd fid then (fsd.setFid fid { fsd.fids fid with used := false }, some 0)
  else (fsd, none)

/-- The fid turns into the entry just created; a file comes back open. The creator
of a file passes its read check as far as that check would let it. -/
def p9Created (client uid fid : Nat) (dmdir : Bool) (found : Found) : Fsd :=
  let turned := fsd.setFid fid { fsd.fids fid with
    opened := !dmdir, isDir := dmdir, inode := found.inode, parent := (fsd.fids fid).inode
    entry := found.pos, hasEntry := true
    owner := client, born := fsd.volume.generation found.inode }
  if !dmdir && ext2ReadAllowed (fsd.volume.inodes found.inode) uid then
    { turned with passed := ⟨client, found.inode, fsd.volume.generation found.inode⟩ :: fsd.passed }
  else turned

def p9Create (client uid : Nat) (space : Space) (fid : Nat) (dmdir : Bool)
    (name : List UInt8) : Fsd × Option Nat :=
  if fidUsed fsd fid && (fsd.fids fid).isDir then
    let dir := (fsd.fids fid).inode
    match if dmdir then ext2MkdirResolved fsd.volume dir name uid space
        else ext2CreateFile fsd.volume dir name uid space with
    | (volume, none) => (fsd.withVolume volume, none)
    | (volume, some _) =>
      match ext2FindInDir volume dir name with
      | none => (fsd.withVolume volume, none)
      | some found => (p9Created (fsd.withVolume volume) client uid fid dmdir found, some 0)
  else (fsd, none)

def p9Write (uid : Nat) (space : Space) (fid offset : Nat) (data : List UInt8) : Fsd × Option Nat :=
  if fidUsed fsd fid && (fsd.fids fid).opened && !(fsd.fids fid).isDir then
    match ext2ReadInode fsd.volume (fsd.fids fid).inode with
    | none => (fsd, none)
    | some inode =>
      if ext2WriteAllowed inode uid then
        let (volume, written) := ext2WriteFileAt (data.take (fsMsgMax - 12)) offset space.stored
          fsd.volume (fsd.fids fid).inode
        (fsd.withVolume volume, written)
      else (fsd, none)
  else (fsd, none)

def danglingFid (fid : Nat) : Bool :=
  (List.range fs9FidMax).any fun other =>
    decide (other ≠ fid) && (fsd.fids other).used &&
      decide ((fsd.fids other).inode = (fsd.fids fid).inode)

def p9Remove (uid fid : Nat) : Fsd × Option Nat :=
  if fidUsed fsd fid && !danglingFid fsd fid then
    let cur := fsd.fids fid
    let (volume, result) :=
      if cur.hasEntry then
        match ext2ReadInode fsd.volume cur.inode with
        | none => (fsd.volume, none)
        | some inode => ext2DeleteResolved fsd.volume cur.parent cur.inode cur.entry inode.mode uid
      else (fsd.volume, none)
    -- an attempted removal uses the fid up whether or not it succeeds
    ((fsd.withVolume volume).setFid fid { cur with used := false }, result)
  else (fsd, none)

def appendOffset (volume : Volume) (name : List UInt8) (uid : Nat) : Nat :=
  if ext2MayRead volume name uid then ((ext2Stat volume name).map Prod.fst).getD 0 else 0

/-- The FS_* requests, each behind the gate of the dispatch. `fs_write_disabled` is off
once ext2 is mounted: the reserved ranges of 12 blocks always fit their table. -/
def fsDispatch (volume : Volume) (uid : Nat) (space : Space) : Request → Volume × Reply
  | .fsRead raw len =>
    let name := fsFilename raw
    if ext2MayRead volume name uid
      then (volume, .bytes (ext2Read volume name (min len (fsMsgMax - 4))))
      else (volume, .bytes none)
  | .fsReadAt raw len offset =>
    let name := fsFilename raw
    if ext2MayRead volume name uid then
      let (after, data) := ext2ReadAt volume name (min len (fsMsgMax - 4)) offset
      (after, .bytes data)
    else (volume, .bytes none)
  | .fsList raw start =>
    let name := fsFilename raw
    if ext2MayRead volume name uid then (volume, .listing (ext2List volume name fsListMax start))
    else (volume, .listing none)
  | .fsStat raw =>
    let name := fsFilename raw
    if ext2MayRead volume name uid then (volume, .stat (ext2Stat volume name))
    else (volume, .stat none)
  | .fsWrite raw data =>
    let name := fsFilename raw
    if fsIsProtectedName name then (volume, .result none)
    else
      let (after, written) := ext2Write volume name (data.take (fsMsgMax - 104)) uid space
      (after, .result written)
  | .fsWriteAt raw data offset =>
    let name := fsFilename raw
    let start := if offset = fsOffsetAppend then appendOffset volume name uid else offset
    if fsIsProtectedName name then (volume, .result none)
    else
      let (after, written) :=
        ext2WriteAt volume name (data.take (fsMsgMax - 108)) start uid space
      (after, .result written)
  | .fsDelete raw recursive =>
    let name := fsFilename raw
    if fsIsProtectedName name then (volume, .result none)
    else
      let (after, result) :=
        if recursive then ext2DeleteRecursive volume name uid else ext2Delete volume name uid
      (after, .result result)
  | .fsMkdir raw =>
    let (after, result) := ext2Mkdir volume (fsFilename raw) uid space
    (after, .result result)
  | .fsRename raw newRaw =>
    let (after, result) := ext2Rename volume (fsFilename raw) (fsFilename newRaw) uid space
    (after, .result result)
  | .fsChmod raw mode =>
    let name := fsFilename raw
    if fsIsProtectedName name then (volume, .result none)
    else
      let (after, result) := ext2Chmod volume name mode uid
      (after, .result result)
  | .fsChown raw owner =>
    let name := fsFilename raw
    if fsIsProtectedName name then (volume, .result none)
    else
      let (after, result) := ext2Chown volume name owner uid
      (after, .result result)
  | _ => (volume, .result none)

/-- One turn of the request loop. -/
def handle (message : Message) : Fsd × Reply :=
  let client := message.client
  let uid := message.uid
  let acted : Fsd × Option Nat → Fsd × Reply := fun (after, result) => (after, .result result)
  match message.request with
  | .p9Attach fid => acted (p9Attach fsd client fid)
  | .p9Walk fid newfid name => acted (p9Walk fsd client fid newfid (cString name))
  | .p9Open fid => acted (p9Open fsd client uid fid)
  | .p9Read fid offset count => (fsd, .bytes (p9Read fsd fid offset count))
  | .p9Clunk fid => acted (p9Clunk fsd fid)
  | .p9Create fid dmdir name => acted (p9Create fsd client uid message.space fid dmdir (cString name))
  | .p9Write fid offset data => acted (p9Write fsd uid message.space fid offset data)
  | .p9Remove fid => acted (p9Remove fsd uid fid)
  | request =>
    let (volume, reply) := fsDispatch fsd.volume uid message.space request
    (fsd.withVolume volume, reply)

def step (message : Message) : Option Fsd :=
  some (handle fsd message).1

end Racccoon.Ext2
