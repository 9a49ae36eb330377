import Racccoon.Fat32.Names

/-!
The FAT32 backend over directories as rows of slots. Each directory and each file has
its own clusters, as on a valid volume, so a directory is given by the number of its
clusters and its slots in the order of the chain; which clusters these are and what the
FAT holds is left to `Fat32.Clusters`. What an allocation can get is the input `Space`.
Reads and writes of the disk do not fail; `none` is the source's -1 or false.
-/

namespace Racccoon.Fat32

structure Directory where
  clusters : Nat
  slot : Nat → Slot

structure Volume where
  rootCluster : Nat
  slotsPerCluster : Nat
  directory : Nat → Directory
  data : Nat → List Byte
  protectedEntry : Option (Nat × Nat)

/-- What is left to allocate: the first cluster of a new file or directory, a cluster
for a directory to grow by, and the bytes of file data that can be stored. -/
structure Space where
  cluster : Option Nat
  canGrow : Bool
  stored : Nat

def eocMin : Nat := 0x0FFFFFF8
def maxDeleteDepth : Nat := 32
def slotsPerSector : Nat := 16

def noDirectory : Directory := ⟨0, fun _ _ => 0⟩

variable (volume : Volume)

def Volume.opened (cluster : Nat) : Directory :=
  if cluster = 0 ∨ cluster ≥ eocMin then noDirectory else volume.directory cluster

variable (directory : Directory)

def Volume.length : Nat :=
  directory.clusters * volume.slotsPerCluster

variable (entry : Nat × Nat)

def Volume.isProtectedEntry : Bool :=
  volume.protectedEntry == some entry

def Volume.setDirectory (cluster : Nat) (directory : Directory) : Volume :=
  { volume with directory := Function.update volume.directory cluster directory }

def Directory.edit (index : Nat) (change : Slot → Slot) : Directory :=
  { directory with
    slot := Function.update directory.slot index (change (directory.slot index)) }

def Volume.editSlot (change : Slot → Slot) : Volume :=
  volume.setDirectory entry.1 ((volume.directory entry.1).edit entry.2 change)

/-- A live entry as a scan with long names meets it. -/
structure Listed where
  index : Nat
  slot : Slot
  longName : Option Name
  lfnStart : Option Nat

def Listed.display (listed : Listed) : Name :=
  listed.longName.getD (applyNtCase listed.slot (shortNameToDisplay (shortNameOf listed.slot)))

/-- The scan of `fat32_resolve_name11` and `fat32_list`: `left` slots from `index` on,
with the long name collected so far and where its first entry stands. -/
def scanFrom (slot : Nat → Slot) : Nat → Nat → LfnState → Option Nat → List Listed
  | 0, _, _, _ => []
  | left + 1, index, state, start =>
    let here := slot index
    if here 0 = direntFreeRest then []
    else if here 0 = direntDeleted then
      scanFrom slot left (index + 1) { state with valid := false } none
    else if isLfn here then
      let begins := here 0 &&& 0x40 != 0 || start.isNone
      scanFrom slot left (index + 1) (lfnFeed here state)
        (if begins then some index else start)
    else if isVolumeLabel here then
      scanFrom slot left (index + 1) { state with valid := false } none
    else
      { index := index
        slot := here
        longName := longNameOf here state
        lfnStart := if state.valid && state.expectedSeq == 0 then start else none } ::
        scanFrom slot left (index + 1) { state with valid := false } none

def Volume.entries : List Listed :=
  scanFrom directory.slot (volume.length directory) 0 .start none

variable (rawName : Name)

def Volume.resolveName11 : Option Listed :=
  (volume.entries directory).find? fun listed => nameEqCi rawName listed.display

/-- The loop of `fat32_find_in_dir`. -/
def findFrom (slot : Nat → Slot) (name11 : ShortName) : Nat → Nat → Option Nat
  | 0, _ => none
  | left + 1, index =>
    let here := slot index
    if here 0 = direntFreeRest then none
    else if isLive here ∧ shortNameOf here = name11 then some index
    else findFrom slot name11 left (index + 1)

def Volume.findInDir (name11 : ShortName) : Option Nat :=
  findFrom directory.slot name11 (volume.length directory) 0

def Volume.lookupName (name : Name) : ShortName :=
  match volume.resolveName11 directory name with
  | some listed => shortNameOf listed.slot
  | none => nameTo83 name

def Volume.lookup (name : Name) : Option Nat :=
  volume.findInDir directory (volume.lookupName directory name)

/-- The walk of `fat32_resolve_dir`, with the segment gathered so far. -/
def resolveDirFrom (volume : Volume) : Nat → Name → Name → Option Nat
  | cluster, _, [] => some cluster
  | cluster, segment, c :: rest =>
    if c ≠ slash then resolveDirFrom volume cluster (segment ++ [c]) rest
    else if segment = [] then resolveDirFrom volume cluster [] rest
    else
      match volume.lookup (volume.opened cluster) (segment.take 63) with
      | none => none
      | some index =>
        let entry := (volume.opened cluster).slot index
        if isDirectory entry then resolveDirFrom volume (clusterOf entry) [] rest else none

def Volume.resolveDir (path : Name) : Option Nat :=
  resolveDirFrom volume volume.rootCluster [] path

def leafName (path : Name) : Name := (path.reverse.takeWhile (· != slash)).reverse

def Volume.slotAt : Slot :=
  (volume.opened entry.1).slot entry.2

inductive Reply where
  | count (count : Nat)
  | ok
  deriving DecidableEq

/-- The search for `count` free slots in a row inside one cluster: `left` slots from
`index` on, with the run that ends there. -/
def freeRunFrom (slot : Nat → Slot) (count : Nat) : Nat → Nat → Nat → Nat → Option Nat
  | 0, _, _, _ => none
  | left + 1, index, runStart, runLen =>
    if isFree (slot index) then
      let runStart := if runLen = 0 then index else runStart
      if runLen + 1 ≥ count then some runStart
      else freeRunFrom slot count left (index + 1) runStart (runLen + 1)
    else freeRunFrom slot count left (index + 1) runStart 0

def Volume.freeRun (count : Nat) : Option Nat :=
  (List.range directory.clusters).findSome? fun cluster =>
    freeRunFrom directory.slot count volume.slotsPerCluster
      (cluster * volume.slotsPerCluster) 0 0

/-- The end markers of the last cluster become deleted entries. -/
def Volume.sealLast : Directory :=
  { directory with
    slot := fun index =>
      if volume.length directory - volume.slotsPerCluster ≤ index ∧
          index < volume.length directory ∧ directory.slot index 0 = direntFreeRest then
        markDeleted (directory.slot index)
      else directory.slot index }

def Volume.grow : Directory :=
  { clusters := directory.clusters + 1
    slot := fun index =>
      if volume.length directory ≤ index then fun _ => 0 else directory.slot index }

/-- `fat32_find_free_dirent_range`: the start of the run, and the directory it leaves. -/
def Volume.findFreeDirentRange (count : Nat) (canGrow : Bool) : Option Nat × Directory :=
  match volume.freeRun directory count with
  | some index => (some index, directory)
  | none =>
    let shut := volume.sealLast directory
    if canGrow then (some (volume.length directory), volume.grow shut) else (none, shut)

def Volume.findAlias (plain : ShortName) : Option ShortName :=
  ((List.range' 1 aliasTailMax).find? fun tail =>
    (volume.findInDir directory (aliasCandidate plain tail)).isNone).map (aliasCandidate plain)

def writeLfn (name11 : ShortName) (first needed : Nat) : Directory :=
  { directory with
    slot := fun index =>
      if first ≤ index ∧ index < first + needed then
        lfnEntry rawName needed (needed - (index - first)) (shortNameChecksum name11)
          (directory.slot index)
      else directory.slot index }

/-- `fat32_prepare_new_entry`: the short name and the slot for its entry, and the
directory with the long name in front of that slot. -/
def Volume.prepareNewEntry (canGrow : Bool) : Option (ShortName × Nat) × Directory :=
  let plain := nameTo83 rawName
  if isLiteral rawName then
    let range := volume.findFreeDirentRange directory 1 canGrow
    (range.1.map fun index => (plain, index), range.2)
  else
    match volume.findAlias directory plain with
    | none => (none, directory)
    | some name11 =>
      let needed := lfnEntriesNeeded rawName
      if needed > lfnMaxEntries then (none, directory)
      else
        let range := volume.findFreeDirentRange directory (needed + 1) canGrow
        match range.1 with
        | none => (none, range.2)
        | some first =>
          (some (name11, first + needed), writeLfn range.2 rawName name11 first needed)

variable (parent : Nat)

/-- What `fat32_create_file`, `fat32_mkdir` and `fat32_rename` do alike: an entry for
`rawName` is prepared in a directory and filled in. -/
def Volume.placeEntry (rawName : Name) (attr : Byte)
    (cluster size : Nat) (canGrow : Bool) : Option ShortName × Volume :=
  match volume.prepareNewEntry (volume.opened parent) rawName canGrow with
  | (none, directory) => (none, volume.setDirectory parent directory)
  | (some (name11, index), directory) =>
    let prepared := volume.setDirectory parent directory
    if volume.isProtectedEntry (parent, index) then (none, prepared)
    else
      (some name11, prepared.setDirectory parent
        (directory.edit index (shortEntry name11 attr cluster size)))

def fat32CreateFile (rawName : Name) (space : Space) : Option (ShortName × Nat) × Volume :=
  match space.cluster with
  | none => (none, volume)
  | some cluster =>
    let placed := volume.placeEntry parent rawName direntAttrArchive cluster 0 space.canGrow
    (placed.1.map fun name11 => (name11, cluster), placed.2)

/-- The data of a file after `src` is written at `offset`; what lies behind the written
part stays in its clusters. -/
def overwrite (old src : List Byte) (offset : Nat) : List Byte :=
  old.take offset ++ src ++ old.drop (offset + src.length)

/-- The end of `fat32_write` and `fat32_write_at`: data first, then the size of the
entry found again by its short name. -/
def Volume.storeFile (name11 : ShortName) (cluster : Nat)
    (src : List Byte) (offset oldSize : Nat) (stored : Nat) : Option Reply × Volume :=
  let kept := src.take stored
  let volume := { volume with
    data := Function.update volume.data cluster (overwrite (volume.data cluster) kept offset) }
  match volume.findInDir (volume.opened parent) name11 with
  | none => (none, volume)
  | some index =>
    if volume.isProtectedEntry (parent, index) then (none, volume)
    else
      (some (.count kept.length),
        volume.editSlot (parent, index) (setSize (max (offset + kept.length) oldSize)))

/-- The file a write goes to, if there is one; unlike the other lookups this one does
not fall back to the truncated name. -/
def Volume.existing (leaf : Name) : Option (ShortName × Nat) :=
  (volume.resolveName11 (volume.opened parent) leaf).bind fun listed =>
    (volume.findInDir (volume.opened parent) (shortNameOf listed.slot)).map fun index =>
      (shortNameOf listed.slot, index)

def fat32Write (name : Name) (src : List Byte) (space : Space) : Option Reply × Volume :=
  match volume.resolveDir name with
  | none => (none, volume)
  | some parent =>
    let leaf := leafName name
    if leaf = [] then (none, volume)
    else
      match volume.existing parent leaf with
      | some (name11, index) =>
        let slot := volume.slotAt (parent, index)
        if isDirectory slot then (none, volume)
        else volume.storeFile parent name11 (clusterOf slot) src 0 0 space.stored
      | none =>
        match fat32CreateFile volume parent leaf space with
        | (none, volume) => (none, volume)
        | (some (name11, cluster), volume) =>
          volume.storeFile parent name11 cluster src 0 0 space.stored

/-- A hole is refused, and the size never shrinks. -/
def fat32WriteAt (name : Name) (src : List Byte) (offset : Nat)
    (space : Space) : Option Reply × Volume :=
  match volume.resolveDir name with
  | none => (none, volume)
  | some parent =>
    let leaf := leafName name
    if leaf = [] then (none, volume)
    else
      match volume.existing parent leaf with
      | some (name11, index) =>
        let slot := volume.slotAt (parent, index)
        if isDirectory slot ∨ offset > sizeOf slot then (none, volume)
        else
          volume.storeFile parent name11 (clusterOf slot) src offset (sizeOf slot)
            space.stored
      | none =>
        if offset ≠ 0 then (none, volume)
        else
          match fat32CreateFile volume parent leaf space with
          | (none, volume) => (none, volume)
          | (some (name11, cluster), volume) =>
            volume.storeFile parent name11 cluster src 0 0 space.stored

def newDirectory (cluster dotdotTarget : Nat) : Directory :=
  { clusters := 1
    slot := fun index =>
      if index = 0 then dotEntry [dot] cluster
      else if index = 1 then dotEntry [dot, dot] dotdotTarget
      else fun _ => 0 }

/-- `..` stores 0 for the root. -/
def Volume.dotdotTarget : Nat :=
  if parent = volume.rootCluster then 0 else parent

def fat32Mkdir (path : Name) (space : Space) : Option Unit × Volume :=
  match volume.resolveDir path with
  | none => (none, volume)
  | some parent =>
    let leaf := leafName path
    if leaf = [] ∨ (volume.resolveName11 (volume.opened parent) leaf).isSome then
      (none, volume)
    else
      match space.cluster with
      | none => (none, volume)
      | some cluster =>
        let made := volume.setDirectory cluster
          (newDirectory cluster (volume.dotdotTarget parent))
        let placed := made.placeEntry parent leaf direntAttrDirectory cluster 0 space.canGrow
        (placed.1.map fun _ => (), placed.2)

def Volume.parentCluster (cluster : Nat) : Nat :=
  let parent := clusterOf ((volume.directory cluster).slot 1)
  if parent = 0 then volume.rootCluster else parent

/-- `fat32_would_create_cycle`; `levels` is what its bound leaves. -/
def Volume.wouldCreateCycle (volume : Volume) (forbidden : Nat) : Nat → Nat → Bool
  | 0, _ => true
  | levels + 1, cluster =>
    if cluster = forbidden then true
    else if cluster = volume.rootCluster then false
    else volume.wouldCreateCycle forbidden levels (volume.parentCluster cluster)

/-- Where a long name does not stand in one cluster with its entry: whether the clusters in
between follow each other on the disk, and what is left of the volume if they do not. -/
structure Walk where
  inLine : Bool
  stray : Volume → Volume

/-- The entry goes, and then the long name in front of it, slot by slot up to the entry. The
source steps from sector to sector of the disk; where these are not the directory's, the walk
marks whatever stands in its way. -/
def Volume.removeEntry (walk : Walk) (parent index : Nat) (lfnStart : Option Nat) : Volume :=
  let first := lfnStart.getD index
  if first ≤ index ∧
      (first / volume.slotsPerCluster = index / volume.slotsPerCluster ∨ walk.inLine) then
    volume.setDirectory parent
      { volume.directory parent with
        slot := fun position =>
          if first ≤ position ∧ position ≤ index then
            markDeleted ((volume.directory parent).slot position)
          else (volume.directory parent).slot position }
  else walk.stray (volume.editSlot (parent, index) markDeleted)

def Volume.lfnStartOf (leaf : Name) : Option Nat :=
  (volume.resolveName11 (volume.opened parent) leaf).bind (·.lfnStart)

def fat32Rename (oldPath newPath : Name) (space : Space) (walk : Walk) : Option Reply × Volume :=
  match volume.resolveDir oldPath with
  | none => (none, volume)
  | some oldParent =>
    let oldLeaf := leafName oldPath
    if oldLeaf = [] then (none, volume)
    else
      match volume.lookup (volume.opened oldParent) oldLeaf with
      | none => (none, volume)
      | some index =>
        let slot := volume.slotAt (oldParent, index)
        if volume.isProtectedEntry (oldParent, index) then (none, volume)
        else
          match volume.resolveDir newPath with
          | none => (none, volume)
          | some newParent =>
            let newLeaf := leafName newPath
            if newLeaf = [] then (none, volume)
            else if isDirectory slot &&
                volume.wouldCreateCycle (clusterOf slot) maxDeleteDepth newParent then
              (none, volume)
            else if (volume.existing newParent newLeaf).isSome then (none, volume)
            else
              match volume.placeEntry newParent newLeaf (attrOf slot) (clusterOf slot)
                  (sizeOf slot) space.canGrow with
              | (none, placed) => (none, placed)
              | (some _, placed) =>
                let moved :=
                  if isDirectory slot ∧ newParent ≠ oldParent then
                    placed.editSlot (clusterOf slot, 1)
                      (setCluster (placed.dotdotTarget newParent))
                  else placed
                (some .ok,
                  moved.removeEntry walk oldParent index
                    (volume.lfnStartOf oldParent oldLeaf))

end Racccoon.Fat32
