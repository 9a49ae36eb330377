import Racccoon.Fat32.Clusters

/-!
The deletes of the FAT32 backend over the clusters of `Fat32.Clusters`: an entry and the
long name in front of it are marked, and the chain of the entry is freed. What lies behind
the end of the device counts as reserved: a loop stops at a sector it cannot read as it
does at one it may not write.
-/

namespace Racccoon.Fat32

deriving instance DecidableEq for Hit

/-- `fat32_free_cluster_chain` -/
def freeClusterChain (fuel firstCluster : Nat) : Fat Bool := fun machine =>
  match machine.disk.freeClusterChain fuel firstCluster with
  | none => (false, machine)
  | some (fat, _) =>
    let freed := machine.disk.chain fuel firstCluster
    (true,
      { machine with
        disk := { machine.disk with fat := fat }
        allocHint := freed.foldl min machine.allocHint
        written := .fsInfo :: (freed.map .fatEntry).reverse ++ machine.written })

def Clusters.fat32Delete (fuel : Nat) (name : Name) : Fat Bool := do
  let disk ← look (·.disk)
  let guarded ← look (·.protectedEntry)
  match disk.parentOf fuel name with
  | none => pure false
  | some (parent, leaf) =>
    match disk.lookup fuel parent leaf true with
    | some (some hit) =>
      let slot := disk.slotIn hit.place
      if guarded = some hit.place then pure false
      else if isDirectory slot && disk.dirIsEmpty fuel (clusterOf slot) != some true then
        pure false
      else do
        let removed ← removeGroup fuel hit
        if removed then freeClusterChain fuel (clusterOf slot) else pure false
    | _ => pure false

/-- The entries of one sector, `left` of them from `entry` on, as `buf` holds them: the
entries marked in `buf`, or `none` when the delete is given up. -/
def deleteEntries (deleteDir : Nat → Fat Bool) (fuel cluster sector : Nat) (buf : Nat → Slot) :
    Nat → Nat → List Nat → Fat (Option (List Nat))
  | 0, _, marked => pure (some marked)
  | left + 1, entry, marked =>
    let slot := buf entry
    if slot 0 = direntFreeRest then pure (some marked)
    else if !isLive slot || isDot slot || isDotdot slot then
      deleteEntries deleteDir fuel cluster sector buf left (entry + 1) marked
    else do
      let guarded ← look (·.protectedEntry)
      if guarded = some (cluster, sector * slotsPerSector + entry) then pure none
      else do
        let emptied ← if isDirectory slot then deleteDir (clusterOf slot) else pure true
        if emptied then
          let freed ← freeClusterChain fuel (clusterOf slot)
          if freed then
            deleteEntries deleteDir fuel cluster sector buf left (entry + 1) (entry :: marked)
          else pure none
        else pure none

/-- The sectors of one cluster, `left` of them: each is read, its entries deleted, and
written back with their marks. -/
def deleteSectors (deleteDir : Nat → Fat Bool) (fuel cluster : Nat) : Nat → Nat → Fat Bool
  | 0, _ => pure true
  | left + 1, sector => do
      let disk ← look (·.disk)
      let buf := fun entry => disk.slotIn (cluster, sector * slotsPerSector + entry)
      let deleted ← deleteEntries deleteDir fuel cluster sector buf slotsPerSector 0 []
      match deleted with
      | none => pure false
      | some [] => deleteSectors deleteDir fuel cluster left (sector + 1)
      | some marked => do
          let stored ← writeSector cluster sector fun _ offset =>
            let entry := offset / direntSize - sector * slotsPerSector
            let slot := if entry ∈ marked then markDeleted (buf entry) else buf entry
            slot (offset % direntSize)
          if stored then deleteSectors deleteDir fuel cluster left (sector + 1) else pure false

def deleteClusters (deleteDir : Nat → Fat Bool) (fuel : Nat) : Nat → Nat → Fat Bool
  | 0, _ => pure false
  | rounds + 1, cluster =>
    if chainEnd cluster then pure true
    else do
      let sectors ← look (·.disk.sectorsPerCluster)
      let done ← deleteSectors deleteDir fuel cluster sectors 0
      if done then
        let next ← look (·.disk.nextCluster cluster)
        deleteClusters deleteDir fuel rounds next
      else pure false

/-- `fat32_delete_dir_contents`; `levels` is what its depth leaves of the bound. -/
def Clusters.deleteDirContents (fuel : Nat) : Nat → Nat → Fat Bool
  | 0, _ => pure false
  | levels + 1, cluster => deleteClusters (Clusters.deleteDirContents fuel levels) fuel fuel cluster

def Clusters.fat32DeleteRecursive (fuel : Nat) (name : Name) : Fat Bool := do
  let disk ← look (·.disk)
  let guarded ← look (·.protectedEntry)
  match disk.parentOf fuel name with
  | none => pure false
  | some (parent, leaf) =>
    match disk.lookup fuel parent leaf true with
    | some (some hit) =>
      let slot := disk.slotIn hit.place
      if guarded = some hit.place then pure false
      else do
        let emptied ←
          if isDirectory slot then
            Clusters.deleteDirContents fuel maxDeleteDepth (clusterOf slot)
          else pure true
        if emptied then
          let removed ← removeGroup fuel hit
          if removed then freeClusterChain fuel (clusterOf slot) else pure false
        else pure false
    | _ => pure false

inductive Change where
  | update (request : Update)
  | delete (name : Name)
  | deleteRecursive (name : Name)

def Change.serve (fuel : Nat) : Change → Machine → Machine
  | .update request, machine => request.serve fuel machine
  | .delete name, machine => (Clusters.fat32Delete fuel name machine).2
  | .deleteRecursive name, machine => (Clusters.fat32DeleteRecursive fuel name machine).2

end Racccoon.Fat32
