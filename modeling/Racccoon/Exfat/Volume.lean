import Mathlib.Data.BitVec
import Mathlib.Data.List.Range

/-!
Directory walks of the exFAT backend: the entry cursor, entry sets, and the walks
built on them. A slot is its 32 bytes; the FAT and the allocation bitmap are the
parts a walk can change. Reads and writes of the disk do not fail. Every loop takes
`fuel`, the number of its rounds, and answers `none` when it runs out.

`Machine.reads` is not in the source: it records which slot was fetched, and of which
directory.
-/

namespace Racccoon.Exfat

abbrev Slot := Nat → BitVec 8
abbrev Char16 := BitVec 16

def exfatDirentSize : Nat := 32
def exfatSlotsPerSector : Nat := 16
def exfatEocMin : Nat := 0xFFFFFFF7
def exfatNameMax : Nat := 128
def exfatNameCharsPerEntry : Nat := 15
def exfatMaxSetSlots : Nat := 11
def exfatMaxDeleteDepth : Nat := 32
def exfatUpcaseCacheSize : Nat := 256
def sectorSize : Nat := 512

variable (slot : Slot)

def ushortAt (offset : Nat) : BitVec 16 :=
  slot (offset + 1) ++ slot offset

def uintAt (offset : Nat) : BitVec 32 :=
  ushortAt slot (offset + 2) ++ ushortAt slot offset

def entryType : BitVec 8 := slot 0
def isEnd : Bool := entryType slot == 0
def inUse : Bool := entryType slot &&& 0x80 != 0
def isFileEntry : Bool := entryType slot &&& 0x1F == 0x05
def secondaryCount : Nat := (slot 0x01).toNat
def fileAttributes : BitVec 16 := ushortAt slot 0x04
def streamNoFatChain : Bool := slot 0x01 &&& 0x02 != 0
def streamNameLength : Nat := (slot 0x03).toNat
def streamFirstCluster : Nat := (uintAt slot 0x14).toNat
def streamDataLength : Nat := (uintAt slot 0x18).toNat
def nameChar (k : Nat) : Char16 := ushortAt slot (0x02 + k * 2)

def isDirectory (attr : BitVec 16) : Bool := attr &&& 0x0010 != 0

/-- A directory as its references carry it. The cursor is given the first two only. -/
structure Directory where
  cluster : Nat
  noFatChain : Bool
  dataLength : Nat
  deriving DecidableEq

structure Spot where
  cluster : Nat
  sectorInCluster : Nat
  entryInSector : Nat
  deriving DecidableEq

structure Volume where
  sectorsPerCluster : Nat
  clusterHeapOffset : Nat
  clusterCount : Nat
  rootCluster : Nat
  bitmapCluster : Nat
  upcaseLow : Nat → Char16
  protectedEntry : Spot → Bool
  slotAt : Spot → Slot
  fat : Nat → Nat

structure Read where
  directory : Directory
  spot : Spot
  deriving DecidableEq

structure Machine where
  fat : Nat → Nat
  allocated : Nat → Bool
  reads : List Read

variable (volume : Volume)

def exfatClusterSizeBytes : Nat := volume.sectorsPerCluster * sectorSize

/-- `ceil(length / cluster size)` as the source writes it, in `uint`. -/
def clustersFor (length : Nat) : Nat :=
  (length + exfatClusterSizeBytes volume - 1) % 2 ^ 32 / exfatClusterSizeBytes volume

structure Cursor where
  directory : Directory
  spot : Spot

def cursorInit (directory : Directory) : Cursor := ⟨directory, ⟨directory.cluster, 0, 0⟩⟩

variable (machine : Machine)

def advance (cursor : Cursor) : Spot :=
  let spot := cursor.spot
  if spot.entryInSector + 1 < exfatSlotsPerSector then
    { spot with entryInSector := spot.entryInSector + 1 }
  else if spot.sectorInCluster + 1 < volume.sectorsPerCluster then
    ⟨spot.cluster, spot.sectorInCluster + 1, 0⟩
  else
    ⟨if cursor.directory.noFatChain then spot.cluster + 1 else machine.fat spot.cluster, 0, 0⟩

/-- `none` is the null the cursor gives at the end of the chain. -/
def cursorNext (cursor : Cursor) : Option (Slot × Cursor × Machine) :=
  if cursor.spot.cluster = 0 ∨ cursor.spot.cluster ≥ exfatEocMin then none
  else
    some (volume.slotAt cursor.spot,
      { cursor with spot := advance volume machine cursor },
      { machine with reads := ⟨cursor.directory, cursor.spot⟩ :: machine.reads })

structure EntrySet where
  attr : BitVec 16
  firstCluster : Nat
  dataLength : Nat
  noFatChain : Bool
  nameLength : Nat
  locs : List Spot

def EntrySet.directory (set : EntrySet) : Directory :=
  ⟨set.firstCluster, set.noFatChain, set.dataLength⟩

abbrev NameBuffer := Nat → Char16

def fillName (buffer : NameBuffer) (slot : Slot) (base nameLength : Nat) : NameBuffer :=
  fun position =>
    if base ≤ position ∧ position < base + exfatNameCharsPerEntry ∧ position < nameLength ∧
        position < exfatNameMax then nameChar slot (position - base)
    else buffer position

/-- The File Name entries of a set, the `i`-th secondary first; `none` for a cursor
that ends inside the set, together with where it ended. -/
def readNames (volume : Volume) (nameLength : Nat) : Nat → Nat → Machine → Cursor →
    NameBuffer → List Spot → Option (List Spot) × NameBuffer × Cursor × Machine
  | 0, _, machine, cursor, buffer, locs => (some locs, buffer, cursor, machine)
  | left + 1, i, machine, cursor, buffer, locs =>
    match cursorNext volume machine cursor with
    | none => (none, buffer, cursor, machine)
    | some (slot, next, machine) =>
      readNames volume nameLength left (i + 1) machine next
        (fillName buffer slot ((i - 1) * exfatNameCharsPerEntry) nameLength)
        (locs ++ [cursor.spot])

/-- `exfat_read_entry_set`: `head` is the File entry the cursor has just passed, at
`spot`. A set without secondaries or not in use is consumed and not reported. -/
def readEntrySet (head : Slot) (spot : Spot) (cursor : Cursor) (buffer : NameBuffer) :
    Option EntrySet × NameBuffer × Cursor × Machine :=
  match secondaryCount head with
  | 0 => (none, buffer, cursor, machine)
  | left + 1 =>
    match cursorNext volume machine cursor with
    | none => (none, buffer, cursor, machine)
    | some (stream, next, machine) =>
      let result := readNames volume (streamNameLength stream) left 1 machine next buffer
        [spot, cursor.spot]
      match result.1 with
      | none => (none, result.2)
      | some locs =>
        if inUse head then
          (some
            { attr := fileAttributes head
              firstCluster := streamFirstCluster stream
              dataLength := streamDataLength stream
              noFatChain := streamNoFatChain stream
              nameLength := streamNameLength stream
              locs := locs }, result.2)
        else (none, result.2)

inductive Next (σ ρ : Type) where
  | go (state : σ)
  | leave (result : ρ)

/-- The loop shared by the walks: slots that are no File entries are skipped, sets
not in use or cut short are consumed. `enough` is the loop's condition, `finish` what
follows it and the end of the directory. -/
def scanSets {σ ρ : Type} (volume : Volume) (enough : σ → Bool) (finish : σ → ρ)
    (body : σ → EntrySet → NameBuffer → Machine → Option (Next σ ρ) × Machine) :
    Nat → Machine → Cursor → NameBuffer → σ → Option ρ × Machine
  | 0, machine, _, _, _ => (none, machine)
  | fuel + 1, machine, cursor, buffer, state =>
    if enough state then (some (finish state), machine)
    else
      match cursorNext volume machine cursor with
      | none => (some (finish state), machine)
      | some (slot, next, machine) =>
        if isEnd slot then (some (finish state), machine)
        else if !isFileEntry slot then
          scanSets volume enough finish body fuel machine next buffer state
        else
          match readEntrySet volume machine slot cursor.spot next buffer with
          | (none, buffer, next, machine) =>
            scanSets volume enough finish body fuel machine next buffer state
          | (some set, buffer, next, machine) =>
            match body state set buffer machine with
            | (none, machine) => (none, machine)
            | (some (.leave result), machine) => (some result, machine)
            | (some (.go state), machine) =>
              scanSets volume enough finish body fuel machine next buffer state

def exfatUpcase (c : Char16) : Char16 :=
  if c.toNat < exfatUpcaseCacheSize then volume.upcaseLow c.toNat else c

def exfatNameEqCi (name : List Char16) (candidate : NameBuffer) (length : Nat) : Bool :=
  name.length == length &&
    (List.range name.length).all fun i =>
      exfatUpcase volume (name.getD i 0) == exfatUpcase volume (candidate i)

def blankBuffer : NameBuffer := fun _ => 0

/-- `exfat_find_in_dir_located`; what the name buffer holds at the start does not
matter to the reads. -/
def findInDir (fuel : Nat) (machine : Machine) (directory : Directory)
    (name : List Char16) (buffer : NameBuffer) : Option (Option EntrySet) × Machine :=
  scanSets volume (fun _ => false) (fun _ => none)
    (fun _ set candidate machine =>
      (some (if exfatNameEqCi volume name candidate set.nameLength then .leave (some set)
        else .go ()), machine))
    fuel machine (cursorInit directory) buffer ()

structure Listing where
  seen : Nat
  names : List (List (BitVec 8) × Bool)

def fsListNameMax : Nat := 32

def displayChar (c : Char16) : BitVec 8 := if c.toNat < 0x80 then c.setWidth 8 else 0x3F

/-- The name of a listing's record, cut to `FS_LIST_NAME_MAX - 1`. -/
def displayName (candidate : NameBuffer) (length : Nat) : List (BitVec 8) :=
  (List.range (min (fsListNameMax - 1) length)).map fun i => displayChar (candidate i)

/-- The loop of `exfat_list`; `names` are the records written, newest last. -/
def listDir (fuel : Nat) (machine : Machine) (directory : Directory)
    (maxEntries start : Nat) (buffer : NameBuffer) :
    Option (List (List (BitVec 8) × Bool)) × Machine :=
  scanSets volume (fun listing => listing.names.length ≥ maxEntries) (·.names)
    (fun (listing : Listing) set candidate machine =>
      (some (.go
        { seen := listing.seen + 1
          names :=
            if listing.seen ≥ start then
              listing.names ++
                [(displayName candidate set.nameLength, isDirectory set.attr)]
            else listing.names }), machine))
    fuel machine (cursorInit directory) buffer ⟨0, []⟩

/-- `exfat_dir_is_empty`, which looks at every slot. -/
def dirIsEmptyFrom (volume : Volume) : Nat → Machine → Cursor → Option Bool × Machine
  | 0, machine, _ => (none, machine)
  | fuel + 1, machine, cursor =>
    match cursorNext volume machine cursor with
    | none => (some true, machine)
    | some (slot, next, machine) =>
      if isEnd slot then (some true, machine)
      else if entryType slot = 0x85 then (some false, machine)
      else dirIsEmptyFrom volume fuel machine next

def dirIsEmpty (fuel : Nat) (machine : Machine) (directory : Directory) : Option Bool × Machine :=
  dirIsEmptyFrom volume fuel machine (cursorInit directory)

def freeCluster (cluster : Nat) : Bool × Machine :=
  if volume.bitmapCluster = 0 ∨ cluster < 2 ∨ cluster - 2 ≥ volume.clusterCount then
    (false, machine)
  else (true, { machine with allocated := Function.update machine.allocated cluster false })

def freeRun (volume : Volume) (first : Nat) : Nat → Nat → Machine → Bool × Machine
  | 0, _, machine => (true, machine)
  | left + 1, i, machine =>
    match freeCluster volume machine (first + i) with
    | (false, machine) => (false, machine)
    | (true, machine) => freeRun volume first left (i + 1) machine

/-- The chain walk of `exfat_free_data`; `left` is what its guard leaves. -/
def freeChain (volume : Volume) : Nat → Nat → Machine → Bool × Machine
  | 0, _, machine => (true, machine)
  | left + 1, cluster, machine =>
    if cluster < 2 ∨ cluster ≥ exfatEocMin then (true, machine)
    else
      match freeCluster volume machine cluster with
      | (false, after) => (false, after)
      | (true, after) =>
        freeChain volume left (machine.fat cluster)
          { after with fat := Function.update after.fat cluster 0 }

def freeData (directory : Directory) : Bool × Machine :=
  if directory.cluster < 2 ∨ directory.cluster ≥ exfatEocMin then (true, machine)
  else if directory.noFatChain then
    let n := clustersFor volume directory.dataLength
    freeRun volume directory.cluster (if n = 0 then 1 else n) 0 machine
  else freeChain volume (volume.clusterCount + 1) directory.cluster machine

/-- `exfat_free_tree`; `levels` is `EXFAT_MAX_DELETE_DEPTH - depth`. -/
def freeTree (volume : Volume) (fuel : Nat) : Nat → Machine → Directory →
    Option Bool × Machine
  | 0, machine, _ => (some false, machine)
  | levels + 1, machine, directory =>
    scanSets volume (fun _ => false) (fun _ => true)
      (fun _ set _ machine =>
        if (set.locs.take exfatMaxSetSlots).any volume.protectedEntry then
          (some (.leave false), machine)
        else
          let emptied :=
            if isDirectory set.attr then freeTree volume fuel levels machine set.directory
            else (some true, machine)
          match emptied with
          | (none, machine) => (none, machine)
          | (some false, machine) => (some (.leave false), machine)
          | (some true, machine) =>
            match freeData volume machine set.directory with
            | (false, machine) => (some (.leave false), machine)
            | (true, machine) => (some (.go ()), machine))
      fuel machine (cursorInit directory) blankBuffer ()

/-- `exfat_subtree_contains`; too deep counts as found. -/
def subtreeContains (volume : Volume) (fuel : Nat) (target : Nat) : Nat → Machine → Directory →
    Option Bool × Machine
  | 0, machine, _ => (some true, machine)
  | levels + 1, machine, directory =>
    scanSets volume (fun _ => false) (fun _ => false)
      (fun _ set _ machine =>
        if !isDirectory set.attr then (some (.go ()), machine)
        else if set.firstCluster = target then (some (.leave true), machine)
        else
          match subtreeContains volume fuel target levels machine set.directory with
          | (none, machine) => (none, machine)
          | (some true, machine) => (some (.leave true), machine)
          | (some false, machine) => (some (.go ()), machine))
      fuel machine (cursorInit directory) blankBuffer ()

end Racccoon.Exfat
