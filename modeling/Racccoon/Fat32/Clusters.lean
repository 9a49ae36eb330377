import Racccoon.Fat32.Chains

/-!
What the FAT32 backend writes, cluster by cluster: the allocation of clusters, new
directory entries, file data and the moves of entries, over the chains of
`Fat32.Chains`. A sector of the data area is named by its cluster and its number in the
cluster, as `fat32_cluster_to_sector` computes it; cluster numbers below 2 name sectors
in front of the data area. A write to all copies of a FAT sector counts once, and is
never refused; a write to a cluster of the protected file is. Other errors of the disk
do not occur. `fuel` bounds the loops, and an operation that runs out of it stops.

`Machine.written` is not in the source: it lists what was written, newest first.
-/

namespace Racccoon.Fat32

inductive Written where
  | fatEntry (cluster : Nat)
  | fsInfo
  | sector (cluster sector : Nat)
  deriving DecidableEq

structure Machine where
  disk : Disk
  allocHint : Nat
  protectedEntry : Option Place
  reserved : Nat → Bool
  written : List Written

abbrev Fat := StateM Machine

def look {Value : Type} (read : Machine → Value) : Fat Value := return read (← get)

variable (machine : Machine) (cluster sector : Nat)

def Machine.putSector (bytes : Nat → Byte) : Machine :=
  { machine with
    disk := { machine.disk with
      byteAt := fun other offset =>
        if other = cluster ∧ offset / sectorSize = sector then bytes offset
        else machine.disk.byteAt other offset }
    written := .sector cluster sector :: machine.written }

/-- `fs_write_sector` of a sector of the data area; `bytes` is by the offset in the
cluster. -/
def writeSector (bytes : Disk → Nat → Byte) : Fat Bool := fun machine =>
  if machine.reserved cluster then (false, machine)
  else (true, machine.putSector cluster sector (bytes machine.disk))

def editSlots (change : Nat → Slot → Slot) : Fat Bool :=
  writeSector cluster sector fun disk offset =>
    change (offset / direntSize) (disk.slotIn (cluster, offset / direntSize))
      (offset % direntSize)

def editSlot (place : Place) (change : Slot → Slot) : Fat Bool :=
  editSlots place.1 (place.2 / slotsPerSector) fun index slot =>
    if index = place.2 then change slot else slot

def Machine.putFatEntry (cluster value : Nat) : Machine :=
  { machine with
    disk := { machine.disk with
      fat := Function.update machine.disk.fat cluster
        (machine.disk.fat cluster - machine.disk.fat cluster % entryMod + value % entryMod) }
    written := .fatEntry cluster :: machine.written }

def writeFatEntry (cluster value : Nat) : Fat Unit := fun machine =>
  ((), machine.putFatEntry cluster value)

/-- The clusters in the order `fat32_alloc_cluster` tries them. -/
def Machine.rover : List Nat :=
  let last := machine.disk.totalClusters + 2
  let start :=
    if machine.allocHint < 2 ∨ machine.allocHint ≥ last then 2 else machine.allocHint
  List.range' start (last - start) ++ List.range' 2 (start - 2)

def allocCluster : Fat (Option Nat) := fun machine =>
  match machine.rover.find? fun cluster => machine.disk.nextCluster cluster == 0 with
  | none => (none, machine)
  | some cluster =>
    let taken := machine.putFatEntry cluster eocMin
    (some cluster,
      { taken with allocHint := cluster + 1, written := .fsInfo :: taken.written })

/-- The end markers of a directory's last cluster become deleted entries: `left` sectors
from `sector` on. -/
def sealSectors (cluster : Nat) : Nat → Nat → Fat Bool
  | 0, _ => pure true
  | left + 1, sector => do
      let changed ← look fun machine => (List.range slotsPerSector).any fun entry =>
        machine.disk.slotIn (cluster, sector * slotsPerSector + entry) 0 == direntFreeRest
      if changed then
        let stored ← editSlots cluster sector fun _ slot =>
          if slot 0 = direntFreeRest then markDeleted slot else slot
        if stored then sealSectors cluster left (sector + 1) else pure false
      else sealSectors cluster left (sector + 1)

def zeroSectors (cluster : Nat) : Nat → Nat → Fat Bool
  | 0, _ => pure true
  | left + 1, sector => do
      let stored ← writeSector cluster sector fun _ _ => 0
      if stored then zeroSectors cluster left (sector + 1) else pure false

/-- The end of `fat32_find_free_dirent_range`: one more cluster behind `last`. -/
def growDirectory (last : Nat) : Fat (Option Place) := do
  let sectors ← look (·.disk.sectorsPerCluster)
  let shut ← sealSectors last sectors 0
  if shut then
    let allocated ← allocCluster
    match allocated with
    | none => pure none
    | some cluster => do
        let zeroed ← zeroSectors cluster sectors 0
        if zeroed then
          writeFatEntry last cluster
          writeFatEntry cluster eocMin
          pure (some (cluster, 0))
        else pure none
  else pure none

def findFreeDirentRange (fuel parent count : Nat) : Fat (Option Place) := do
  let found ← look (·.disk.findFreeRun fuel parent count)
  match found with
  | none => pure none
  | some (some place, _) => pure (some place)
  | some (none, last) => growDirectory last

/-- The long-name entries `left` to 1 of `needed`, from `place` on. -/
def writeLfnEntries (rawName : Name) (needed : Nat) (checksum : Byte) :
    Nat → Place → Fat Bool
  | 0, _ => pure true
  | left + 1, place => do
      let stored ← editSlot place (lfnEntry rawName needed (left + 1) checksum)
      if stored then writeLfnEntries rawName needed checksum left (place.1, place.2 + 1)
      else pure false

def Disk.findAlias (disk : Disk) (fuel parent : Nat) (plain : ShortName) : Option ShortName :=
  ((List.range' 1 aliasTailMax).find? fun tail =>
    disk.findInDir fuel parent (aliasCandidate plain tail) == some none).map
      (aliasCandidate plain)

variable (fuel parent : Nat)

/-- `fat32_prepare_new_entry`: the short name and the place of its entry. -/
def prepareNewEntry (rawName : Name) : Fat (Option (ShortName × Place)) :=
  let plain := nameTo83 rawName
  if isLiteral rawName then do
    let found ← findFreeDirentRange fuel parent 1
    pure (found.map fun place => (plain, place))
  else do
    let found ← look (·.disk.findAlias fuel parent plain)
    match found with
    | none => pure none
    | some name11 =>
      let needed := lfnEntriesNeeded rawName
      if needed > lfnMaxEntries then pure none
      else do
        let range ← findFreeDirentRange fuel parent (needed + 1)
        match range with
        | none => pure none
        | some first => do
            let stored ← writeLfnEntries rawName needed (shortNameChecksum name11) needed first
            if stored then pure (some (name11, (first.1, first.2 + needed))) else pure none

/-- What `fat32_create_file`, `fat32_mkdir` and `fat32_rename` do alike: an entry is
prepared in a directory and filled in. -/
def placeEntry (rawName : Name) (attr : Byte) (cluster size : Nat) : Fat (Option ShortName) := do
  let prepared ← prepareNewEntry fuel parent rawName
  match prepared with
  | none => pure none
  | some (name11, place) => do
      let guarded ← look (·.protectedEntry == some place)
      if guarded then pure none
      else
        let stored ← editSlot place (shortEntry name11 attr cluster size)
        pure (if stored then some name11 else none)

/-- Bytes of `src` put at `first` of the cluster, up to the end of the sector at most. -/
def putBytes (cluster first : Nat) (src : List Byte) (disk : Disk) : Nat → Byte := fun offset =>
  if first ≤ offset ∧ offset < first + src.length then src.getD (offset - first) 0
  else disk.byteAt cluster offset

/-- The sectors of one cluster, `left` of them: what is left of `src`, and whether no
write was refused. `skip` applies to the first sector. -/
def writeSectors (cluster : Nat) : Nat → Nat → Nat → List Byte → Fat (List Byte × Bool)
  | 0, _, _, src => pure (src, true)
  | left + 1, sector, skip, src =>
    if src = [] then pure (src, true)
    else do
      let chunk := src.take (sectorSize - skip)
      let stored ← writeSector cluster sector
        (putBytes cluster (sector * sectorSize + skip) chunk)
      if stored then
        writeSectors cluster left (sector + 1) 0 (src.drop (sectorSize - skip))
      else pure (src, false)

/-- The cluster behind `cluster`, a new one at the end of the chain. -/
def nextOrNew (cluster : Nat) : Fat (Option Nat) := do
  let next ← look (·.disk.nextCluster cluster)
  if next ≥ eocMin then
    let allocated ← allocCluster
    match allocated with
    | none => pure none
    | some new => do
        writeFatEntry cluster new
        writeFatEntry new eocMin
        pure (some new)
  else pure (some next)

/-- The writing loop of `fat32_write_file` and `fat32_write_file_at`: what is left of
`src` in the end. -/
def writeData : Nat → Nat → Nat → Nat → List Byte → Fat (List Byte)
  | 0, _, _, _, src => pure src
  | fuel + 1, cluster, sector, skip, src =>
    if src = [] then pure []
    else do
      let sectors ← look (·.disk.sectorsPerCluster)
      let written ← writeSectors cluster (sectors - sector) sector skip src
      if written.2 = false ∨ written.1 = [] then pure written.1
      else
        let next ← nextOrNew cluster
        match next with
        | none => pure written.1
        | some next => writeData fuel next 0 0 written.1

def writeFile (fuel firstCluster : Nat) (src : List Byte) : Fat Nat := do
  let rest ← writeData fuel firstCluster 0 0 src
  pure (src.length - rest.length)

/-- The walk of `fat32_write_file_at` to the cluster of `offset`, in `uint`. -/
def walkTo (offset : Nat) : Nat → Nat → Nat → Fat (Option (Nat × Nat))
  | 0, _, _ => pure none
  | fuel + 1, cluster, clusterStart => do
      let size ← look (·.disk.clusterSize)
      let behind := (clusterStart + size) % 2 ^ 32
      if behind ≤ offset then
        let next ← nextOrNew cluster
        match next with
        | none => pure none
        | some next => walkTo offset fuel next behind
      else pure (some (cluster, clusterStart))

def writeFileAt (fuel firstCluster : Nat) (src : List Byte) (offset : Nat) : Fat Nat := do
  let reached ← walkTo offset fuel firstCluster 0
  match reached with
  | none => pure 0
  | some (cluster, clusterStart) => do
      let inCluster := offset - clusterStart
      let rest ← writeData fuel cluster (inCluster / sectorSize) (inCluster % sectorSize) src
      pure (src.length - rest.length)

def updateEntrySize (place : Place) (size : Nat) : Fat Bool := do
  let guarded ← look (·.protectedEntry == some place)
  if guarded then pure false else editSlot place (setSize size)

structure Hit where
  name11 : ShortName
  place : Place
  lfnStart : Option Place

variable (disk : Disk)

/-- `fat32_resolve_name11`, and the entry by the short name it found. `none` is out of
fuel; without `fallback` a name that was not resolved is not looked for. -/
def Disk.lookup (fuel parent : Nat) (leaf : Name) (fallback : Bool) : Option (Option Hit) :=
  match disk.resolveName11 fuel parent leaf with
  | none => none
  | some resolved =>
    if resolved.isNone && !fallback then some none
    else
      let name11 := (resolved.map Prod.fst).getD (nameTo83 leaf)
      (disk.findInDir fuel parent name11).map fun found =>
        found.map fun place => ⟨name11, place, resolved.bind Prod.snd⟩

/-- The end of `fat32_write` and `fat32_write_at`: the entry is found again by its short
name and given its size. -/
def storeSize (name11 : ShortName) (size : Nat) : Fat Bool := do
  let found ← look (·.disk.findInDir fuel parent name11)
  match found with
  | some (some place) => updateEntrySize place size
  | _ => pure false

def createFile (rawName : Name) : Fat (Option (ShortName × Nat)) := do
  let allocated ← allocCluster
  match allocated with
  | none => pure none
  | some cluster => do
      let placed ← placeEntry fuel parent rawName direntAttrArchive cluster 0
      pure (placed.map fun name11 => (name11, cluster))

def writeIn (leaf : Name) (src : List Byte) (offset : Option Nat) : Fat (Option Nat) := do
  let disk ← look (·.disk)
  match disk.lookup fuel parent leaf false with
  | none => pure none
  | some (some hit) =>
    let slot := disk.slotIn hit.place
    if isDirectory slot ∨ offset.getD 0 > sizeOf slot then pure none
    else do
      let count ← match offset with
        | none => writeFile fuel (clusterOf slot) src
        | some offset => writeFileAt fuel (clusterOf slot) src offset
      let stored ← storeSize fuel parent hit.name11
        (match offset with
          | none => count
          | some offset => max (offset + count) (sizeOf slot))
      pure (if stored then some count else none)
  | some none =>
    if offset.getD 0 ≠ 0 then pure none
    else do
      let created ← createFile fuel parent leaf
      match created with
      | none => pure none
      | some (name11, cluster) => do
          let count ← match offset with
            | none => writeFile fuel cluster src
            | some offset => writeFileAt fuel cluster src offset
          let stored ← storeSize fuel parent name11 (offset.getD 0 + count)
          pure (if stored then some count else none)

def Disk.parentOf (fuel : Nat) (path : Name) : Option (Nat × Name) :=
  match disk.resolveDir fuel path with
  | some (some parent) => if leafName path = [] then none else some (parent, leafName path)
  | _ => none

def Clusters.fat32Write (fuel : Nat) (name : Name) (src : List Byte) : Fat (Option Nat) := do
  let disk ← look (·.disk)
  match disk.parentOf fuel name with
  | none => pure none
  | some (parent, leaf) => writeIn fuel parent leaf src none

def Clusters.fat32WriteAt (fuel : Nat) (name : Name) (src : List Byte) (offset : Nat) :
    Fat (Option Nat) := do
  let disk ← look (·.disk)
  match disk.parentOf fuel name with
  | none => pure none
  | some (parent, leaf) => writeIn fuel parent leaf src (some offset)

/-- `..` stores 0 for the root. -/
def Disk.dotdotTarget (parent : Nat) : Nat :=
  if parent = disk.rootCluster then 0 else parent

def mkdirIn (leaf : Name) : Fat Bool := do
  let disk ← look (·.disk)
  match disk.resolveName11 fuel parent leaf with
  | some none => do
      let allocated ← allocCluster
      match allocated with
      | none => pure false
      | some cluster => do
          let zeroed ← zeroSectors cluster disk.sectorsPerCluster 0
          if zeroed then
            let seeded ← editSlots cluster 0 fun index slot =>
              if index = 0 then dotEntry [dot] cluster
              else if index = 1 then dotEntry [dot, dot] (disk.dotdotTarget parent)
              else slot
            if seeded then
              let placed ← placeEntry fuel parent leaf direntAttrDirectory cluster 0
              pure placed.isSome
            else pure false
          else pure false
  | _ => pure false

def Clusters.fat32Mkdir (fuel : Nat) (path : Name) : Fat Bool := do
  let disk ← look (·.disk)
  match disk.parentOf fuel path with
  | none => pure false
  | some (parent, leaf) => mkdirIn fuel parent leaf

/-- `fat32_get_parent_cluster` -/
def Disk.parentCluster (cluster : Nat) : Nat :=
  let parent := clusterOf (disk.slotIn (cluster, 1))
  if parent = 0 then disk.rootCluster else parent

/-- `fat32_would_create_cycle`; `levels` is what its bound leaves. -/
def Disk.wouldCreateCycle (disk : Disk) (forbidden : Nat) : Nat → Nat → Bool
  | 0, _ => true
  | levels + 1, cluster =>
    if cluster = forbidden then true
    else if cluster = disk.rootCluster then false
    else disk.wouldCreateCycle forbidden levels (disk.parentCluster cluster)

def nextPlace (slots : Nat) (place : Place) : Place :=
  if place.2 + 1 < slots then (place.1, place.2 + 1) else (place.1 + 1, 0)

/-- The long name in front of a removed entry, up to the entry. -/
def removeLfn (entry : Place) : Nat → Place → Fat Unit
  | 0, _ => pure ()
  | fuel + 1, place =>
    if place = entry then pure ()
    else do
      let slots ← look (·.disk.slotsPerCluster)
      let stored ← editSlot place markDeleted
      if stored then removeLfn entry fuel (nextPlace slots place) else pure ()

/-- What the deletes and the rename do alike to an entry that is removed: it is marked, and
then the long name in front of it. A long name that cannot be marked is left. -/
def removeGroup (fuel : Nat) (hit : Hit) : Fat Bool := do
  let removed ← editSlot hit.place markDeleted
  if removed then
    match hit.lfnStart with
    | none => pure true
    | some start => do
        removeLfn hit.place fuel start
        pure true
  else pure false

/-- `fat32_rename` from where the new entry is to be made. -/
def moveEntry (fuel oldParent newParent : Nat) (newLeaf : Name) (slot : Slot) (hit : Hit) :
    Fat Bool := do
  let placed ← placeEntry fuel newParent newLeaf (attrOf slot) (clusterOf slot) (sizeOf slot)
  match placed with
  | none => pure false
  | some _ => do
      let target ← look (·.disk.dotdotTarget newParent)
      let repointed ←
        if isDirectory slot ∧ newParent ≠ oldParent then
          editSlot (clusterOf slot, 1) (setCluster target)
        else pure true
      if repointed then removeGroup fuel hit else pure false

def Clusters.fat32Rename (fuel : Nat) (oldPath newPath : Name) : Fat Bool := do
  let disk ← look (·.disk)
  let guarded ← look (·.protectedEntry)
  match disk.parentOf fuel oldPath with
  | none => pure false
  | some (oldParent, oldLeaf) =>
    match disk.lookup fuel oldParent oldLeaf true with
    | some (some hit) =>
      let slot := disk.slotIn hit.place
      if guarded = some hit.place then pure false
      else
        match disk.parentOf fuel newPath with
        | none => pure false
        | some (newParent, newLeaf) =>
          if isDirectory slot && disk.wouldCreateCycle (clusterOf slot) maxDeleteDepth
              newParent then pure false
          else
            match disk.lookup fuel newParent newLeaf false with
            | some none => moveEntry fuel oldParent newParent newLeaf slot hit
            | _ => pure false
    | _ => pure false

inductive Update where
  | write (name : Name) (src : List Byte)
  | writeAt (name : Name) (src : List Byte) (offset : Nat)
  | mkdir (path : Name)
  | rename (oldPath newPath : Name)

def Update.serve (fuel : Nat) : Update → Machine → Machine
  | .write name src, machine => (Clusters.fat32Write fuel name src machine).2
  | .writeAt name src offset, machine => (Clusters.fat32WriteAt fuel name src offset machine).2
  | .mkdir path, machine => (Clusters.fat32Mkdir fuel path machine).2
  | .rename oldPath newPath, machine => (Clusters.fat32Rename fuel oldPath newPath machine).2

end Racccoon.Fat32
