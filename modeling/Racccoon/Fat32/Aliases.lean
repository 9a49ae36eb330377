import Racccoon.Fat32.ShortNames

/-!
Short names over runs of writes, new directories and renames: while no literal name is
taken that an entry of the directory already has as its alias, short names tell the
entries of every directory apart.
-/

namespace Racccoon.Fat32

open Run

variable {volume : Volume} {directory : Directory}

inductive Volume.Outcome (volume : Volume) (before : Directory) (rawName : Name) (attr : Byte)
    (cluster size : Nat) : Option ShortName → Directory → Prop where
  | refused {after : Directory} (settled : volume.Settled before after fun _ => False) :
      Outcome volume before rawName attr cluster size none after
  | placed {after : Directory} {name11 : ShortName} {place : Nat} {old : Slot}
      (settled : volume.Settled before after (· = place))
      (written : after.slot place = shortEntry name11 attr cluster size old)
      (sized : name11.length = 11) (unseen : ¬ volume.Visible before place)
      (origin : isLiteral rawName = true ∧ name11 = nameTo83 rawName ∨
        volume.findInDir before name11 = none) :
      Outcome volume before rawName attr cluster size (some name11) after

variable {rawName : Name}
variable {cluster parent index : Nat}

/-- The slots a walk inside the directory leaves. -/
def removed (directory : Directory) (index first : Nat) : Directory :=
  { directory with
    slot := fun position =>
      if first ≤ position ∧ position ≤ index then markDeleted (directory.slot position)
      else directory.slot position }

theorem Volume.ShortNamesUnique.congr {other : Volume} (unique : volume.ShortNamesUnique)
    (slots : other.slotsPerCluster = volume.slotsPerCluster)
    (directories : other.directory = volume.directory) : other.ShortNamesUnique := by
  intro cluster
  have same : other.opened cluster = volume.opened cluster := by
    unfold Volume.opened
    rw [directories]
  rw [same]
  exact (unique cluster).congr slots

variable {space : Space}

theorem Volume.Free.congr {other : Volume} {spared : Nat → Prop}
    (free : volume.Free directory rawName spared)
    (same : other.slotsPerCluster = volume.slotsPerCluster) :
    other.Free directory rawName spared := by
  constructor
  · intro marker later behind ended live inside
    apply free.1 marker later behind ended live
    simpa only [Volume.length, same] using inside
  · intro literal index visible
    exact free.2 literal index (visible.congr same.symm)

inductive Request where
  | write (name : Name) (src : List Byte) (space : Space)
  | writeAt (name : Name) (src : List Byte) (offset : Nat) (space : Space)
  | mkdir (path : Name) (space : Space)
  | rename (oldPath newPath : Name) (space : Space) (walk : Walk)

def Volume.serve (volume : Volume) : Request → Volume
  | .write name src space => (fat32Write volume name src space).2
  | .writeAt name src offset space => (fat32WriteAt volume name src offset space).2
  | .mkdir path space => (fat32Mkdir volume path space).2
  | .rename oldPath newPath space walk => (fat32Rename volume oldPath newPath space walk).2

/-- The request is about to make an entry for a name in a directory; the last argument is
the entry of the same directory that goes when the new one stands. -/
inductive Volume.Makes (volume : Volume) : Request → Nat → Name → Option Nat → Prop where
  | write {name : Name} {src : List Byte} {space : Space} {parent : Nat}
      (resolved : volume.resolveDir name = some parent) (leaf : leafName name ≠ [])
      (absent : volume.existing parent (leafName name) = none) (room : space.cluster ≠ none) :
      volume.Makes (.write name src space) parent (leafName name) none
  | writeAt {name : Name} {src : List Byte} {space : Space} {parent : Nat}
      (resolved : volume.resolveDir name = some parent) (leaf : leafName name ≠ [])
      (absent : volume.existing parent (leafName name) = none) (room : space.cluster ≠ none) :
      volume.Makes (.writeAt name src 0 space) parent (leafName name) none
  | mkdir {path : Name} {space : Space} {parent : Nat}
      (resolved : volume.resolveDir path = some parent) (leaf : leafName path ≠ [])
      (absent : volume.resolveName11 (volume.opened parent) (leafName path) = none)
      (room : space.cluster ≠ none) :
      volume.Makes (.mkdir path space) parent (leafName path) none
  | rename {oldPath newPath : Name} {space : Space} {walk : Walk} {oldParent newParent index : Nat}
      (resolved : volume.resolveDir oldPath = some oldParent) (oldLeaf : leafName oldPath ≠ [])
      (found : volume.lookup (volume.opened oldParent) (leafName oldPath) = some index)
      (target : volume.resolveDir newPath = some newParent) (newLeaf : leafName newPath ≠ [])
      (absent : volume.existing newParent (leafName newPath) = none) :
      volume.Makes (.rename oldPath newPath space walk) newParent (leafName newPath)
        (if newParent = oldParent then some index else none)

/-- The long name that a rename removes stands in one cluster with its entry, or in clusters
that follow each other on the disk. -/
def Volume.InLine (volume : Volume) : Request → Prop
  | .rename oldPath _ _ walk => ∀ parent index first, volume.resolveDir oldPath = some parent →
      volume.lookup (volume.opened parent) (leafName oldPath) = some index →
      volume.lfnStartOf parent (leafName oldPath) = some first →
      first / volume.slotsPerCluster = index / volume.slotsPerCluster ∨ walk.inLine = true
  | _ => True

structure Volume.Apart (volume : Volume) (request : Request) : Prop where
  free : ∀ parent leaf replaced, volume.Makes request parent leaf replaced →
    volume.Free (volume.opened parent) leaf fun index => replaced = some index
  inLine : volume.InLine request

theorem Volume.Free.of_none (free : volume.Free directory rawName fun index => none = some index) :
    volume.Free directory rawName fun _ => False := by
  refine ⟨free.1, ?_⟩
  intro literal index visible _
  exact free.2 literal index visible nofun

section
variable (unique : volume.ShortNamesUnique)
include unique

end

section
variable {walk : Walk} {lfnStart : Option Nat}
  (behind : lfnStart.getD index ≤ index)
  (line : lfnStart.getD index / volume.slotsPerCluster = index / volume.slotsPerCluster ∨
    walk.inLine = true)
include behind line

end

set_option maxRecDepth 4000

end Racccoon.Fat32
