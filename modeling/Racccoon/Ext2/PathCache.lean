import Racccoon.Ext2.Fids
import Racccoon.Lib.Simulation

/-!
The path cache of `ext2_read_at` against a server without one. Only that read looks at
the cache and every FS request that changes the tree drops it, but the P9 requests do
not: what the cache holds stays true as long as no P9 request takes a name or a directory
off the cached path.
-/

namespace Racccoon.Ext2

open Simulation

variable {volume after made : Volume} {num parent dir child : Nat} {name leaf : List UInt8}
variable {path newPath src : List UInt8} {requester mode : Nat} {space : Space} {found : Found}
variable {fsd : Fsd} {message : Message}

/-- The directory and the name of each lookup that a path takes, the leaf's last. -/
def lookupsFrom (volume : Volume) (leaf : List UInt8) :
    Nat → List UInt8 → List UInt8 → List (Nat × List UInt8)
  | dir, _, [] => [(dir, leaf)]
  | dir, segment, c :: rest =>
    if c = slash then
      if segment = [] then lookupsFrom volume leaf dir [] rest
      else
        (dir, segment.take 255) ::
          match ext2FindInDir volume dir (segment.take 255) with
          | some found =>
            if isDir found.mode then lookupsFrom volume leaf found.inode [] rest else []
          | none => []
    else lookupsFrom volume leaf dir (segment ++ [c]) rest

def lookups (volume : Volume) (path : List UInt8) : List (Nat × List UInt8) :=
  lookupsFrom volume (ext2LeafName path) ext2RootInode [] path

/-- A lookup that still leads where it led; whether that is a directory may have changed
for the inodes in `touched`. -/
def Holds (volume after : Volume) (touched : Nat → Prop) (look : Nat × List UInt8) : Prop :=
  ∀ found, ext2FindInDir volume look.1 look.2 = some found →
    ∃ again, ext2FindInDir after look.1 look.2 = some again ∧ again.inode = found.inode ∧
      (touched found.inode ∨ isDir again.mode = isDir found.mode)

def Cached (volume : Volume) : Prop :=
  ∀ path num, volume.pathCache = some (path, num) →
    (ext2Lookup volume path).map Found.inode = some num

def Volume.withCache (volume : Volume) (cache : Option (List UInt8 × Nat)) : Volume :=
  { volume with pathCache := cache }

variable {cache : Option (List UInt8 × Nat)}

def Blind {Answer : Type} (operation : Volume → Volume × Answer) : Prop :=
  ∀ volume cache, operation (volume.withCache cache) =
    ((operation volume).1.withCache cache, (operation volume).2)

theorem Blind.keeps {Answer : Type} {operation : Volume → Volume × Answer} (blind : Blind operation)
    (volume : Volume) : (operation volume).1.pathCache = volume.pathCache := by
  have same := blind volume volume.pathCache
  exact congrArg (fun outcome => outcome.1.pathCache) same

/-- The answer and the tree are those of the request on the same volume with an empty
cache, and what the cache holds afterwards is true. -/
def Faithful {Answer : Type} (request : Volume → Volume × Answer) (volume : Volume) : Prop :=
  (request volume).2 = (request volume.dropCache).2 ∧
    (request volume).1.dropCache = (request volume.dropCache).1.dropCache ∧
    Cached (request volume).1

/-- The inode numbers that `ext2_read_inode` reads. -/
def Readable (volume : Volume) (num : Nat) : Prop :=
  num ≠ 0 ∧ ¬ volume.groupCount ≤ (num - 1) / volume.inodesPerGroup

theorem readInode_of_readable (readable : Readable volume num) :
    ext2ReadInode volume num = some (volume.inodes num) := by
  unfold ext2ReadInode
  rw [if_neg readable.1, if_neg readable.2]

theorem readable_of_readInode {inode : Inode} (read : ext2ReadInode volume num = some inode) :
    Readable volume num ∧ inode = volume.inodes num := by
  refine ⟨⟨(ext2ReadInode_eq read).1, ?_⟩, (ext2ReadInode_eq read).2⟩
  intro outside
  unfold ext2ReadInode at read
  rw [if_neg (ext2ReadInode_eq read).1, if_pos outside] at read
  cases read

theorem findInDir_some_iff :
    ext2FindInDir volume dir name = some found ↔
      Readable volume dir ∧ isDir (volume.inodes dir).mode = true ∧
        ∃ block offset entry,
          findInBlocks name (volume.inodes dir).entries = some (block, offset, entry) ∧
          Readable volume entry.inode ∧
          found = ⟨entry.inode, ⟨dir, block, offset⟩, (volume.inodes entry.inode).mode⟩ := by
  constructor
  · intro located
    simp only [ext2FindInDir, Option.bind_eq_bind, Option.bind_eq_some_iff]
      at located
    obtain ⟨info, read, _, kind, ⟨block, offset, entry⟩, walked, matched, readMatched, same⟩ :=
      located
    obtain ⟨readable, rfl⟩ := readable_of_readInode read
    obtain ⟨leads, rfl⟩ := readable_of_readInode readMatched
    refine ⟨readable, ?_, block, offset, entry, walked, leads, (Option.some.inj same).symm⟩
    by_contra plain
    simp [plain] at kind
  · rintro ⟨readable, kind, block, offset, entry, walked, leads, rfl⟩
    simp only [ext2FindInDir, readInode_of_readable readable, guard, kind, walked,
      readInode_of_readable leads, Option.bind_eq_bind, Option.bind_some, if_true,
      Option.pure_def]

/-- A lookup goes on leading where it led, if its directory stays one and its first record
with the name stays in front. -/
theorem holds_of_leads {touched : Nat → Prop}
    (sized : after.groupCount = volume.groupCount ∧
      after.inodesPerGroup = volume.inodesPerGroup)
    (kinds : ∀ num, ¬ touched num → (after.inodes num).mode = (volume.inodes num).mode)
    (apart : ¬ touched dir)
    (leads : ∀ block offset entry,
      findInBlocks name (volume.inodes dir).entries = some (block, offset, entry) →
      ∃ again, findInBlocks name (after.inodes dir).entries = some again ∧
        again.2.2.inode = entry.inode) : Holds volume after touched (dir, name) := by
  have reads : ∀ num, Readable volume num → Readable after num := by
    intro num readable
    unfold Readable
    rw [sized.1, sized.2]
    exact readable
  intro found located
  obtain ⟨readable, kind, block, offset, entry, walked, inside, rfl⟩ :=
    findInDir_some_iff.mp located
  obtain ⟨⟨block', offset', entry'⟩, rewalked, same⟩ := leads block offset entry walked
  refine ⟨_, findInDir_some_iff.mpr ⟨reads dir readable, ?_, block', offset', entry', rewalked,
    ?_, rfl⟩, same, ?_⟩
  · rw [kinds dir apart]
    exact kind
  · rw [same]
    exact reads _ inside
  · rw [same]
    by_cases stale : touched entry.inode
    · exact .inl stale
    · exact .inr (by rw [kinds _ stale])

variable {pos : DirentPos}

def Inserted (before after : List (List Dirent)) (link : List UInt8 × Nat) : Prop :=
  ∃ front back, linksOf before.flatten = front ++ back ∧
    linksOf after.flatten = front ++ link :: back

/-- What making an entry does to the inodes other than the new one. -/
def Grows (volume after : Volume) (dir : Nat) (name : List UInt8) (num : Nat) : Prop :=
  (after.groupCount = volume.groupCount ∧ after.inodesPerGroup = volume.inodesPerGroup) ∧
    ∀ other, other ≠ num →
      (after.inodes other).mode = (volume.inodes other).mode ∧
        ((after.inodes other).entries = (volume.inodes other).entries ∨
          other = dir ∧ Inserted (volume.inodes other).entries (after.inodes other).entries
            (storedName name, num))

theorem Grows.holds {look : Nat × List UInt8} (grows : Grows volume after dir name num)
    (apart : look.1 ≠ num) (differs : look ≠ (dir, storedName name)) :
    Holds volume after (· = num) look := by
  obtain ⟨sized, others⟩ := grows
  apply holds_of_leads sized (fun other away => (others other away).1) apart
  intro block offset entry walked
  rcases (others look.1 apart).2 with same | ⟨here, front, back, before, then_⟩
  · rw [same]
    exact ⟨_, walked, rfl⟩
  · have other : storedName name ≠ look.2 := by
      intro same
      apply differs
      rw [← here, same]
    have leads := @findInBlocks_inserted look.2 _ _ front back _ before then_ other
    rw [walked] at leads
    obtain ⟨again, found, inode⟩ := Option.map_eq_some_iff.mp leads
    exact ⟨again, found, inode⟩

def serve (fsd : Fsd) (message : Message) : Reply × Fsd :=
  ((handle fsd message).2, (handle fsd message).1)

def Fsd.plain (fsd : Fsd) : Fsd := fsd.withVolume fsd.volume.dropCache

/-- `P9_REMOVE` gets as far as removing the entry. -/
def p9Removes (fsd : Fsd) (uid fid : Nat) : Bool :=
  fidUsed fsd fid && !danglingFid fsd fid && (fsd.fids fid).hasEntry &&
    !fsIsProtectedEntry fsd.volume (fsd.fids fid).entry &&
    match ext2ReadInode fsd.volume (fsd.fids fid).inode with
    | none => false
    | some inode =>
      ext2WriteAllowed inode uid && !(isDir inode.mode && !ext2DirIsEmpty inode)

/-- The request leaves the lookups of the cached path alone: a P9 removal takes neither an
entry that one of them returns nor a directory that one of them searches, and a P9 creation
does not repeat a name that one of them looks for, nor take over the inode of a directory
that one of them searches. -/
def Spares (fsd : Fsd) (message : Message) : Prop :=
  ∀ path num, fsd.volume.pathCache = some (path, num) → ∀ look ∈ lookups fsd.volume path,
    match message.request with
    | .p9Create fid dmdir name =>
      fidUsed fsd fid = true → (fsd.fids fid).isDir = true →
        (dmdir = true →
          ext2FindInDir fsd.volume (fsd.fids fid).inode (cString name) = none) →
        look ≠ ((fsd.fids fid).inode, storedName (cString name)) ∧
          ∀ place, freeInode fsd.volume = some place → look.1 ≠ place.2
    | .p9Remove fid =>
      p9Removes fsd message.uid fid = true →
        look.1 ≠ (fsd.fids fid).inode ∧
          ∀ found, ext2FindInDir fsd.volume look.1 look.2 = some found →
            found.pos ≠ (fsd.fids fid).entry
    | _ => True

variable {client uid fid newfid offset count : Nat} {dmdir : Bool}

section
variable (cached : Cached fsd.volume)
include cached

end

end Racccoon.Ext2
