import Racccoon.Ext2.Fids

/-!
No directory holds a name twice. The requests that make a name look it up first,
except for P9_CREATE of a file, which places its record unseen. `Placed` says what
placing a record does to the names of a volume; in a `Searchable` directory a lookup
that finds nothing means that the name is `Vacant`.
-/

namespace Racccoon.Ext2

open Tiling

variable (volume : Volume)

def NamesUnique : Prop :=
  ∀ first second name child other, first.dir = second.dir →
    Link volume first name child → Link volume second name other → first = second

def Vacant (dir : Nat) (name : List UInt8) : Prop :=
  ∀ pos child, pos.dir = dir → ¬ Link volume pos (storedName name) child

structure Placed (volume : Volume) (dir : Nat) (name : List UInt8) (child : Nat)
    (spot : DirentPos) (after : Volume) : Prop where
  inDir : spot.dir = dir
  only : ∀ pos entry, entryAt (after.inodes pos.dir).entries pos.block pos.offset = some entry →
    (pos = spot ∧ entry.name = storedName name ∧ entry.inode = child) ∨
    ∃ old, entryAt (volume.inodes pos.dir).entries pos.block pos.offset = some old ∧
      old.inode = entry.inode ∧ old.name = entry.name

/-- A directory, and none of its records of the name leads outside the inode table. -/
structure Searchable (volume : Volume) (dir : Nat) (name : List UInt8) : Prop where
  directory : ∃ info, ext2ReadInode volume dir = some info ∧ isDir info.mode = true
  inside : ∀ pos child, pos.dir = dir → Link volume pos name child →
    ext2ReadInode volume child ≠ none

/-- The directory that a path leads to is one, if the path's name is to be placed there. -/
def SearchedAt (path : List UInt8) (taken : Bool) : Prop :=
  ∀ dir, ext2ResolveDir volume path = some dir → ext2LeafName path ≠ [] →
    ext2FindInDir volume dir (ext2LeafName path) = none →
    (taken = true → volume.inodeBitmap dir = true) ∧ Searchable volume dir (ext2LeafName path)

variable {fsd : Fsd} {volume before middle after made : Volume} {num dir parent child : Nat}
variable {name path newPath src : List UInt8} {requester uid client fid : Nat} {space : Space}
variable {pos spot : DirentPos} {message : Message}

/-- A lookup that finds nothing in a searchable directory has overlooked nothing. -/
theorem Searchable.vacant (searchable : Searchable volume dir name) (short : name.length < 256)
    (absent : ext2FindInDir volume dir name = none) : Vacant volume dir name := by
  rintro pos child rfl ⟨entry, stands, named, rfl, live⟩
  rw [storedName_eq short] at named
  obtain ⟨⟨info, read, directory⟩, inside⟩ := searchable
  obtain ⟨_, rfl⟩ := ext2ReadInode_eq read
  cases walked : findInBlocks name (volume.inodes pos.dir).entries with
  | none =>
    obtain ⟨records, present, inBlock⟩ := Option.bind_eq_some_iff.mp stands
    have member : entry ∈ (volume.inodes pos.dir).entries.flatten :=
      List.mem_flatten.mpr ⟨records, List.mem_of_getElem? present, recordAt_mem inBlock⟩
    have nowhere := @findInBlocks_record name (volume.inodes pos.dir).entries
    rw [walked, Option.map_none] at nowhere
    have other := List.find?_eq_none.mp nowhere.symm entry member
    simp [named, live] at other
  | some found =>
    obtain ⟨block, offset, first⟩ := found
    obtain ⟨at_, present, firstNamed⟩ := findInBlocks_entryAt walked
    have readable := inside ⟨pos.dir, block, offset⟩ first.inode rfl
      ⟨first, at_, firstNamed, rfl, present⟩
    obtain ⟨matched, readMatched⟩ := Option.ne_none_iff_exists'.mp readable
    simp [ext2FindInDir, read, directory, walked, readMatched] at absent

theorem fsFilename_short (raw : List UInt8) : (fsFilename raw).length < 256 := by
  have stripped := (List.rdropWhile_prefix (· = slash) (cString (raw.take 99))).length_le
  have ended := (List.takeWhile_prefix (l := raw.take 99) (· ≠ (0 : UInt8))).length_le
  have cut := List.length_take_le 99 raw
  rw [fsFilename]
  simp only [cString] at stripped ended ⊢
  omega

theorem leafFrom_length (leaf rest : List UInt8) :
    (leafFrom leaf rest).length ≤ max leaf.length rest.length := by
  induction rest generalizing leaf with
  | nil => exact Nat.le_max_left _ _
  | cons c rest ih =>
    rw [leafFrom, List.length_cons]
    split
    · have tail := ih rest
      omega
    · have tail := ih leaf
      omega

theorem leafName_short (raw : List UInt8) : (ext2LeafName (fsFilename raw)).length < 256 := by
  have leaf := leafFrom_length (fsFilename raw) (fsFilename raw)
  have short := fsFilename_short raw
  rw [ext2LeafName]
  omega

theorem SearchedAt.vacant {raw : List UInt8} {taken : Bool}
    (searched : SearchedAt volume (fsFilename raw) taken)
    (resolved : ext2ResolveDir volume (fsFilename raw) = some dir)
    (named : ext2LeafName (fsFilename raw) ≠ [])
    (absent : ext2FindInDir volume dir (ext2LeafName (fsFilename raw)) = none) :
    (taken = true → volume.inodeBitmap dir = true) ∧
      Vacant volume dir (ext2LeafName (fsFilename raw)) :=
  (searched dir resolved named absent).imp_right
    fun searchable => searchable.vacant (leafName_short raw) absent

theorem SearchedAt.placed {raw : List UInt8} (searched : SearchedAt volume (fsFilename raw) true)
    (resolved : ext2ResolveDir volume (fsFilename raw) = some dir)
    (named : ext2LeafName (fsFilename raw) ≠ [])
    (absent : ext2FindInDir volume dir (ext2LeafName (fsFilename raw)) = none) :
    volume.inodeBitmap dir = true ∧ Vacant volume dir (ext2LeafName (fsFilename raw)) :=
  (searched.vacant resolved named absent).imp_left fun taken => taken rfl

def KeepsPlaces (before after : Volume) : Prop :=
  ∀ pos name child, Link after pos name child → ∃ old, Link before pos name old

theorem KeepsPlaces.trans (first : KeepsPlaces before middle) (second : KeepsPlaces middle after) :
    KeepsPlaces before after := by
  intro pos name child link
  obtain ⟨target, linkMiddle⟩ := second pos name child link
  exact first pos name target linkMiddle

theorem Shrinks.keepsPlaces (shrinks : Shrinks before after) : KeepsPlaces before after :=
  fun pos name child link => ⟨child, shrinks pos name child link⟩

theorem NamesUnique.keepsPlaces (unique : NamesUnique before) (keeps : KeepsPlaces before after) :
    NamesUnique after := by
  intro first second name child other sameDir link again
  obtain ⟨old, was⟩ := keeps _ _ _ link
  obtain ⟨oldAgain, wasAgain⟩ := keeps _ _ _ again
  exact unique first second name old oldAgain sameDir was wasAgain

theorem NamesUnique.shrinks (unique : NamesUnique before) (shrinks : Shrinks before after) :
    NamesUnique after :=
  unique.keepsPlaces shrinks.keepsPlaces

theorem Placed.link (placed : Placed volume dir name child spot after) {other : List UInt8}
    {target : Nat} (link : Link after pos other target) :
    (pos = spot ∧ other = storedName name ∧ target = child) ∨ Link volume pos other target := by
  obtain ⟨entry, stands, rfl, rfl, live⟩ := link
  rcases placed.only pos entry stands with new | ⟨old, was, sameInode, sameName⟩
  · exact Or.inl new
  · exact Or.inr ⟨old, was, sameName, sameInode, live⟩

theorem EntriesKept.vacant (kept : EntriesKept volume parent after)
    (taken : volume.inodeBitmap dir = true) (vacant : Vacant volume dir name) :
    Vacant after dir name := by
  rintro pos child rfl ⟨entry, stands, rest⟩
  rcases kept pos.dir with same | ⟨free, _⟩
  · rw [same] at stands
    exact vacant pos child rfl ⟨entry, stands, rest⟩
  · rw [taken] at free
    cases free

theorem zeroDirent_shrinks : Shrinks volume (ext2ZeroDirent volume pos) := by
  apply alter_shrinks
  intro block offset entry stands live
  by_cases same : (block, offset) = (pos.block, pos.offset)
  · cases same
    rw [entryAt_editAt_self] at stands
    obtain ⟨old, _, rfl⟩ := Option.map_eq_some_iff.mp stands
    exact absurd rfl live
  · rwa [entryAt_editAt_of_ne Dirent.cleared (fun _ => rfl) same] at stands

theorem Link.mem (link : Link volume pos name child) :
    (name, child) ∈ linksOf (volume.inodes pos.dir).entries.flatten := by
  obtain ⟨entry, stands, rfl, rfl, live⟩ := link
  obtain ⟨records, present, inside⟩ := Option.bind_eq_some_iff.mp stands
  exact mem_linksOf.mpr ⟨entry, List.mem_flatten.mpr
    ⟨records, List.mem_of_getElem? present, recordAt_mem inside⟩, live, rfl⟩

end Racccoon.Ext2
