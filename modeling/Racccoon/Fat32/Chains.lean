import Mathlib.Order.Interval.Finset.Nat
import Mathlib.Data.List.GetD
import Racccoon.Lib.ChainWalk
import Racccoon.Fat32.Directories

/-!
The cluster chains of a FAT32 volume and the loops that follow them: a loop over the
clusters of a chain, and in each cluster one over its slots. A cluster is its bytes and
the FAT a number for every cluster number, whatever stands on the disk there. Reads and
writes of the disk do not fail. `none` means that `fuel` clusters were not enough.
-/

namespace Racccoon.Fat32

open ChainWalk

def sectorSize : Nat := 512
def direntSize : Nat := 32
def entryMod : Nat := 2 ^ 28
def fatEntriesPerSector : Nat := 128

structure Disk where
  rootCluster : Nat
  sectorsPerCluster : Nat
  totalClusters : Nat
  fat : Nat → Nat
  byteAt : Nat → Nat → Byte

abbrev Place := Nat × Nat

variable (disk : Disk)

def Disk.slotsPerCluster : Nat := disk.sectorsPerCluster * slotsPerSector
def Disk.clusterSize : Nat := disk.sectorsPerCluster * sectorSize

def Disk.slotIn (place : Place) : Slot := fun offset =>
  disk.byteAt place.1 (place.2 * direntSize + offset)

/-- `fat32_next_cluster`: the low 28 bits of the entry. -/
def linkIn (fat : Nat → Nat) (cluster : Nat) : Nat := fat cluster % entryMod

def Disk.nextCluster : Nat → Nat := linkIn disk.fat

def chainEnd (cluster : Nat) : Bool := cluster == 0 || cluster ≥ eocMin

section Scans
variable {State Result : Type}

/-- The slots of a cluster, `left` of them from `index` on. -/
def visitSlots (disk : Disk) (step : Place → Slot → State → Next State Result)
    (cluster : Nat) : Nat → Nat → State → Next State Result
  | 0, _, state => .go state
  | left + 1, index, state =>
    match step (cluster, index) (disk.slotIn (cluster, index)) state with
    | .leave result => .leave result
    | .go state => visitSlots disk step cluster left (index + 1) state

/-- The shape of the directory walks. `enter` is done before the slots of a cluster. -/
def Disk.scan (disk : Disk) (enter : Nat → State → State)
    (step : Place → Slot → State → Next State Result) (finish : State → Result)
    (fuel cluster : Nat) (state : State) : Option Result :=
  walk disk.nextCluster chainEnd
    (fun cluster state =>
      visitSlots disk step cluster disk.slotsPerCluster 0 (enter cluster state))
    finish fuel cluster state

end Scans

def findStep (name11 : ShortName) (place : Place) (slot : Slot) (_ : Unit) :
    Next Unit (Option Place) :=
  if slot 0 = direntFreeRest then .leave none
  else if isLive slot ∧ shortNameOf slot = name11 then .leave (some place)
  else .go ()

variable (disk : Disk) (fuel cluster : Nat)

def Disk.findInDir (name11 : ShortName) : Option (Option Place) :=
  disk.scan (fun _ state => state) (findStep name11) (fun _ => none) fuel cluster ()

/-- What a walk has collected of a long name, and where its first entry stands. -/
structure Gathered where
  lfn : LfnState
  start : Option Place

def Gathered.drop (gathered : Gathered) : Gathered :=
  ⟨{ gathered.lfn with valid := false }, none⟩

def Gathered.feed (gathered : Gathered) (place : Place) (slot : Slot) : Gathered :=
  ⟨lfnFeed slot gathered.lfn,
    if slot 0 &&& 0x40 != 0 || gathered.start.isNone then some place else gathered.start⟩

/-- `fat32_resolve_name11`: the short name found, and the start of its long name. -/
def Disk.resolveName11 (rawName : Name) : Option (Option (ShortName × Option Place)) :=
  disk.scan (fun _ state => state)
    (fun place slot (gathered : Gathered) =>
      if slot 0 = direntFreeRest then .leave none
      else if slot 0 = direntDeleted then .go gathered.drop
      else if isLfn slot then .go (gathered.feed place slot)
      else if isVolumeLabel slot then .go gathered.drop
      else if nameEqCi rawName (lfnFinish slot gathered.lfn) then
        .leave (some (shortNameOf slot,
          if gathered.lfn.valid && gathered.lfn.expectedSeq == 0 then gathered.start else none))
      else .go gathered.drop)
    (fun _ => none) fuel cluster ⟨LfnState.start, none⟩

/-- The walk of `fat32_resolve_dir`, with the segment gathered so far. -/
def Disk.resolveDirFrom (disk : Disk) (fuel : Nat) : Nat → Name → Name → Option (Option Nat)
  | cluster, _, [] => some (some cluster)
  | cluster, segment, c :: rest =>
    if c ≠ slash then disk.resolveDirFrom fuel cluster (segment ++ [c]) rest
    else if segment = [] then disk.resolveDirFrom fuel cluster [] rest
    else
      match disk.resolveName11 fuel cluster (segment.take 63) with
      | none => none
      | some resolved =>
        let name11 := (resolved.map Prod.fst).getD (nameTo83 (segment.take 63))
        match disk.findInDir fuel cluster name11 with
        | none => none
        | some none => some none
        | some (some place) =>
          let entry := disk.slotIn place
          if isDirectory entry then disk.resolveDirFrom fuel (clusterOf entry) [] rest
          else some none

def Disk.resolveDir (fuel : Nat) (path : Name) : Option (Option Nat) :=
  disk.resolveDirFrom fuel disk.rootCluster [] path

def Disk.dirIsEmpty : Option Bool :=
  disk.scan (fun _ state => state)
    (fun _ slot _ =>
      if slot 0 = direntFreeRest then .leave true
      else if isLive slot && !isDot slot && !isDotdot slot then .leave false
      else .go ())
    (fun _ => true) fuel cluster ()

structure FreeRun where
  length : Nat
  start : Place
  last : Nat

/-- The search of `fat32_find_free_dirent_range`; a run does not leave its cluster. -/
def Disk.findFreeRun (fuel cluster count : Nat) : Option (Option Place × Nat) :=
  disk.scan (fun cluster _ => (⟨0, (0, 0), cluster⟩ : FreeRun))
    (fun place slot run =>
      if isFree slot then
        let start := if run.length = 0 then place else run.start
        if run.length + 1 ≥ count then .leave (some start, run.last)
        else .go { run with length := run.length + 1, start := start }
      else .go { run with length := 0 })
    (fun run => (none, run.last)) fuel cluster ⟨0, (0, 0), cluster⟩

def Disk.bytesOf (cluster first length : Nat) : List Byte :=
  (List.range' first length).map (disk.byteAt cluster)

/-- The FAT sector that `fat32_free_cluster_chain` holds back, with its entries. -/
structure Pending where
  sector : Nat
  entry : Nat → Nat

def writeFatSector (fat : Nat → Nat) (pending : Pending) : Nat → Nat := fun cluster =>
  if cluster / fatEntriesPerSector = pending.sector then pending.entry cluster else fat cluster

def clearEntry (entry : Nat → Nat) (cluster : Nat) : Nat → Nat :=
  Function.update entry cluster (entry cluster - entry cluster % entryMod)

/-- `fat32_free_cluster_chain`: the FAT it leaves and the number of clusters freed. A
link is read from the disk, before the sector held back is written. -/
def freeChainFrom : Nat → (Nat → Nat) → Option Pending → Nat → Nat →
    Option ((Nat → Nat) × Nat)
  | 0, _, _, _, _ => none
  | fuel + 1, fat, pending, cluster, freed =>
    if chainEnd cluster then some ((pending.elim fat (writeFatSector fat)), freed)
    else
      let sector := cluster / fatEntriesPerSector
      match pending with
      | some held =>
        if held.sector = sector then
          freeChainFrom fuel fat (some ⟨sector, clearEntry held.entry cluster⟩)
            (linkIn fat cluster) (freed + 1)
        else
          freeChainFrom fuel (writeFatSector fat held)
            (some ⟨sector, clearEntry (writeFatSector fat held) cluster⟩)
            (linkIn fat cluster) (freed + 1)
      | none =>
        freeChainFrom fuel fat (some ⟨sector, clearEntry fat cluster⟩)
          (linkIn fat cluster) (freed + 1)

def Disk.freeClusterChain (fuel firstCluster : Nat) : Option ((Nat → Nat) × Nat) :=
  freeChainFrom fuel disk.fat none firstCluster 0

def Disk.chain (disk : Disk) : Nat → Nat → List Nat
  | 0, _ => []
  | fuel + 1, cluster =>
    if chainEnd cluster then [] else cluster :: disk.chain fuel (disk.nextCluster cluster)

def Disk.placesIn (cluster : Nat) : List Place :=
  (List.range disk.slotsPerCluster).map fun index => (cluster, index)

def Disk.places : List Place :=
  (disk.chain fuel cluster).flatMap disk.placesIn

variable {cluster start : Nat}

section Rows
variable {State Result : Type} {disk : Disk}

def visitPlaces (disk : Disk) (step : Place → Slot → State → Next State Result) :
    List Place → State → Next State Result
  | [], state => .go state
  | place :: rest, state =>
    match step place (disk.slotIn place) state with
    | .leave result => .leave result
    | .go state => visitPlaces disk step rest state

variable (step : Place → Slot → State → Next State Result)

theorem visitPlaces_append (first rest : List Place) (state : State) :
    visitPlaces disk step (first ++ rest) state =
      match visitPlaces disk step first state with
      | .leave result => .leave result
      | .go state => visitPlaces disk step rest state := by
  induction first generalizing state with
  | nil => rfl
  | cons place first ih =>
    rw [List.cons_append, visitPlaces, visitPlaces]
    cases step place (disk.slotIn place) state with
    | leave result => rfl
    | go next => exact ih next

theorem visitSlots_places (cluster left index : Nat) (state : State) :
    visitSlots disk step cluster left index state =
      visitPlaces disk step ((List.range' index left).map fun index => (cluster, index))
        state := by
  induction left generalizing index state with
  | zero => rfl
  | succ left ih =>
    rw [visitSlots, List.range'_succ, List.map_cons, visitPlaces]
    cases step (cluster, index) (disk.slotIn (cluster, index)) state with
    | leave result => rfl
    | go next => exact ih (index + 1) next

/-- A walk over a chain that ends visits the slots of its row, one after the other. -/
theorem scan_places {n : Nat} {step : Place → Slot → State → Next State Result}
    {finish : State → Result} {state : State}
    (ends : EndsWithin disk.nextCluster chainEnd n cluster) :
    disk.scan (fun _ state => state) step finish (n + 1) cluster state =
      some ((visitPlaces disk step (disk.places n cluster) state).settle finish) := by
  induction n generalizing cluster state with
  | zero =>
    have stopped : chainEnd cluster = true := ends
    simp [Disk.scan, walk, stopped, Disk.places, Disk.chain, visitPlaces, Next.settle]
  | succ n ih =>
    rw [Disk.scan, walk, Disk.places, Disk.chain]
    by_cases stopped : chainEnd cluster = true
    · rw [if_pos stopped, if_pos stopped]
      rfl
    · rw [if_neg stopped, if_neg stopped, List.flatMap_cons, visitPlaces_append,
        visitSlots_places, Disk.placesIn, List.range_eq_range']
      cases visitPlaces disk step
          ((List.range' 0 disk.slotsPerCluster).map fun index => (cluster, index)) state with
      | leave result => rfl
      | go next => exact ih (ends.step stopped)

end Rows

end Racccoon.Fat32
