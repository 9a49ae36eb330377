import Mathlib.Data.Option.Basic
import Racccoon.Ext2.Frames

/-!
The frames of the compound operations: creating, writing and changing attributes
harm nothing; removing a name frees its inode; renaming moves one record, or two
when a directory changes its parent; a recursive delete frees at most what lies
`Within` the directory. The recursion is followed with two facts: what it spares,
and that it only ever takes children away (`Shrinks`), so that what a later step
frees was already inside the directory at the start.
-/

namespace Racccoon.Ext2

open Tiling

variable {volume before middle after made : Volume} {num parent dir child born : Nat}
variable {name : List UInt8} {path newPath src : List UInt8} {requester mode : Nat} {space : Space}
variable {pos : DirentPos} {freed more : Nat → Prop} {moved : DirentPos → Prop} {found : Found}

theorem ext2ReadInode_eq {inode : Inode} (read : ext2ReadInode volume num = some inode) :
    num ≠ 0 ∧ inode = volume.inodes num := by
  unfold ext2ReadInode at read
  split at read
  · cases read
  · next present =>
      split at read
      · cases read
      · cases read
        exact ⟨present, rfl⟩

/-- A lookup returns a live record of the directory with the wanted name. -/
theorem ext2FindInDir_spec (located : ext2FindInDir volume dir name = some found) :
    found.pos.dir = dir ∧ found.inode ≠ 0 ∧ Names volume found.pos found.inode ∧
      found.mode = (volume.inodes found.inode).mode ∧
      (name, found.inode) ∈ linksOf (volume.inodes dir).entries.flatten := by
  simp only [ext2FindInDir, Option.bind_eq_bind, Option.bind_eq_some_iff, Option.pure_def] at located
  obtain ⟨info, read, _, _, ⟨block, offset, entry⟩, walked, matched, readMatched, same⟩ := located
  simp only [Option.some.injEq] at same
  subst same
  obtain ⟨_, rfl⟩ := ext2ReadInode_eq read
  obtain ⟨live, rfl⟩ := ext2ReadInode_eq readMatched
  obtain ⟨stands, _, _⟩ := findInBlocks_entryAt walked
  exact ⟨rfl, live, ⟨entry, stands, rfl⟩, rfl, findInBlocks_mem walked⟩

theorem ext2LookupEntry_spec (located : ext2LookupEntry volume path = some found) :
    ∃ dir, ext2ResolveDir volume path = some dir ∧
      ext2FindInDir volume dir (ext2LeafName path) = some found := by
  unfold ext2LookupEntry at located
  split at located
  · cases located
  · exact Option.bind_eq_some_iff.mp located

/-- The state in which a created inode is linked into its directory. -/
structure Fresh (volume : Volume) (num : Nat) (directory : Bool) (made : Volume) : Prop where
  free : volume.inodeBitmap num = false
  present : num ≠ 0
  lives : Lives made num (volume.generation num + 1) directory
  inodes : ∀ other, other ≠ num → made.inodes other = volume.inodes other
  bitmap : ∀ other, other ≠ num → made.inodeBitmap other = volume.inodeBitmap other
  generation : ∀ other, other ≠ num → made.generation other = volume.generation other

theorem Fresh.harmless {directory : Bool} (fresh : Fresh volume num directory made) :
    Harmless volume made :=
  .of_free fresh.free fresh.inodes fresh.bitmap fresh.generation

theorem Fresh.abandon {directory : Bool} (fresh : Fresh volume num directory made) :
    Harmless volume (ext2FreeInode made num) := by
  apply Sparing.of_free fresh.free
  · exact fresh.inodes
  · intro other apart
    rw [ext2FreeInode_bitmap_of_ne apart, fresh.bitmap other apart]
  · exact fresh.generation

/-- Every directory keeps its records; an inode that was free may have been blanked or
seeded as a subdirectory of `parent`. -/
def EntriesKept (volume : Volume) (parent : Nat) (after : Volume) : Prop :=
  ∀ dir, (after.inodes dir).entries = (volume.inodes dir).entries ∨
    volume.inodeBitmap dir = false ∧
      ((after.inodes dir).entries = [] ∨ (after.inodes dir).entries = [dotBlock volume dir parent])

theorem EntriesKept.refl : EntriesKept volume parent volume := fun _ => Or.inl rfl

theorem Fresh.entriesKept {directory : Bool} (fresh : Fresh volume num directory made)
    (seeded : (made.inodes num).entries = [] ∨
      (made.inodes num).entries = [dotBlock volume num parent]) :
    EntriesKept volume parent made := by
  intro dir
  by_cases same : dir = num
  · subst same
    exact Or.inr ⟨fresh.free, seeded⟩
  · exact Or.inl (by rw [fresh.inodes dir same])

theorem Taken.fresh {taken : Volume} {directory : Bool} (alloc : Taken volume num taken)
    (inode : Inode) (kind : isDir inode.mode = directory) :
    Fresh volume num directory (taken.setInode num inode) := by
  refine ⟨alloc.free, alloc.present, ⟨?_, ?_, ?_⟩, ?_, ?_, ?_⟩
  · change taken.inodeBitmap num = true
    rw [alloc.bitmap, Function.update_self]
  · change taken.generation num = _
    rw [alloc.generation, Function.update_self]
  · rw [Volume.setInode_inodes_self, kind]
  · intro other apart
    rw [Volume.setInode_inodes_of_ne _ apart, alloc.inodes]
  · intro other apart
    change taken.inodeBitmap other = _
    rw [alloc.bitmap, Function.update_of_ne apart]
  · intro other apart
    change taken.generation other = _
    rw [alloc.generation, Function.update_of_ne apart]

theorem setInode_setInode (first second : Inode) :
    (volume.setInode num first).setInode num second = volume.setInode num second := by
  simp [Volume.setInode]

/-- The inode of a new file, as it stands when the directory is searched. -/
def Inode.regular (requester : Nat) : Inode :=
  ⟨ext2SIfreg ||| 0x1A4, requester % 65536, 1 % 65536, [], []⟩

theorem written_regular {taken : Volume} :
    ext2WriteInode (ext2ZeroInode taken num) num (ext2SIfreg ||| 0x1A4) requester 1 =
      taken.setInode num (.regular requester) := by
  simp [ext2WriteInode, ext2ZeroInode, Volume.alter, setInode_setInode, Inode.blank, Inode.regular]

def Inode.directory (requester : Nat) (dots : List Dirent) : Inode :=
  ⟨ext2SIfdir ||| 0x1ED, requester % 65536, 2 % 65536, [], [dots]⟩

theorem written_directory {taken : Volume} {dots : List Dirent} :
    ext2WriteInode ((ext2ZeroInode taken num).alter num fun old => { old with entries := [dots] })
        num (ext2SIfdir ||| 0x1ED) requester 2 =
      taken.setInode num (.directory requester dots) := by
  simp [ext2WriteInode, ext2ZeroInode, Volume.alter, setInode_setInode, Inode.blank,
    Inode.directory]

/-- What `ext2_create_file` leaves behind: nothing when it fails, and a fresh
inode under the name when it succeeds. -/
theorem createFile_cases :
    (Harmless volume (ext2CreateFile volume dir name requester space).1 ∧
      EntriesKept volume dir (ext2CreateFile volume dir name requester space).1 ∧
      (ext2CreateFile volume dir name requester space).2 = none) ∨
    ∃ num made, Fresh volume num false made ∧ (made.inodes num).entries = [] ∧
      (made.inodes num).uid = requester % 65536 ∧ (made.inodes num).mode = 0x81A4 ∧
      ext2PlaceDirent made dir name num space.dirBlock =
        some (ext2CreateFile volume dir name requester space).1 ∧
      (ext2CreateFile volume dir name requester space).2 = some num := by
  unfold ext2CreateFile
  split
  · exact Or.inl ⟨.refl, .refl, rfl⟩
  · next num taken allocated =>
      have alloc := allocInode_taken allocated
      have fresh : Fresh volume num false (taken.setInode num (.regular requester)) :=
        alloc.fresh _ (show isDir (0x8000 ||| 0x1A4) = false by decide)
      have kept : EntriesKept volume dir (taken.setInode num (.regular requester)) :=
        fresh.entriesKept (Or.inl (by rw [Volume.setInode_inodes_self]; rfl))
      simp only [written_regular]
      split
      · exact Or.inl ⟨fresh.harmless, kept, rfl⟩
      · split
        · exact Or.inl ⟨fresh.abandon, kept, rfl⟩
        · next linked placed =>
            refine Or.inr ⟨num, _, fresh, ?_, ?_, ?_, placed, rfl⟩
            · rw [Volume.setInode_inodes_self]
              rfl
            · rw [Volume.setInode_inodes_self]
              rfl
            · rw [Volume.setInode_inodes_self]
              rfl

theorem createFile_harmless :
    Harmless volume (ext2CreateFile volume dir name requester space).1 := by
  rcases @createFile_cases volume dir name requester space with ⟨harmless, _⟩ | created
  · exact harmless
  · obtain ⟨num, made, fresh, _, _, _, placed, _⟩ := created
    exact fresh.harmless.trans (placeDirent_harmless placed)

/-- The same for `ext2_mkdir_resolved`; its parent also gains a link. -/
theorem mkdirResolved_cases :
    (Harmless volume (ext2MkdirResolved volume parent name requester space).1 ∧
      EntriesKept volume parent (ext2MkdirResolved volume parent name requester space).1 ∧
      (ext2MkdirResolved volume parent name requester space).2 = none) ∨
    ∃ num made linked, ext2FindInDir volume parent name = none ∧ Fresh volume num true made ∧
      (made.inodes num).entries = [dotBlock volume num parent] ∧
      (made.inodes num).uid = requester % 65536 ∧ (made.inodes num).linksCount = 2 ∧
      ext2PlaceDirent made parent name num space.dirBlock = some linked ∧
      (ext2MkdirResolved volume parent name requester space) =
        (ext2WriteInode linked parent (made.inodes parent).mode (made.inodes parent).uid
          ((made.inodes parent).linksCount + 1), some 0) := by
  unfold ext2MkdirResolved
  split
  · exact Or.inl ⟨.refl, .refl, rfl⟩
  · next absent =>
      split
      · exact Or.inl ⟨.refl, .refl, rfl⟩
      · next num taken allocated =>
          have alloc := allocInode_taken allocated
          have blank : Fresh volume num false (taken.setInode num .blank) :=
            alloc.fresh .blank rfl
          have blanked : EntriesKept volume parent (taken.setInode num .blank) :=
            blank.entriesKept (Or.inl (by rw [Volume.setInode_inodes_self]; rfl))
          have fresh : Fresh volume num true (taken.setInode num
              (.directory requester (dotBlock volume num parent))) :=
            alloc.fresh _ (show isDir (0x4000 ||| 0x1ED) = true by decide)
          have kept : EntriesKept volume parent (taken.setInode num
              (.directory requester (dotBlock volume num parent))) :=
            fresh.entriesKept (Or.inr (by rw [Volume.setInode_inodes_self]; rfl))
          simp only [written_directory]
          split
          · exact Or.inl ⟨blank.abandon, blanked, rfl⟩
          · split
            · exact Or.inl ⟨fresh.harmless, kept, rfl⟩
            · next info read =>
                obtain ⟨_, rfl⟩ := ext2ReadInode_eq read
                split
                · exact Or.inl ⟨fresh.abandon, kept, rfl⟩
                · next linked placed =>
                    refine Or.inr ⟨num, _, linked, by simpa using absent, fresh, ?_, ?_, ?_, placed,
                      rfl⟩
                    · rw [Volume.setInode_inodes_self]
                      rfl
                    · rw [Volume.setInode_inodes_self]
                      rfl
                    · rw [Volume.setInode_inodes_self]
                      rfl

/-- Linking a record and counting the link in the directory harms nothing. -/
theorem placed_counted {links : Nat} {dirBlock : Bool}
    (placed : ext2PlaceDirent made parent name num dirBlock = some after) :
    Harmless made (ext2WriteInode after parent (made.inodes parent).mode
      (made.inodes parent).uid links) := by
  refine (placeDirent_harmless placed).trans (writeInode_harmless ?_)
  obtain ⟨entries, rfl⟩ := placeDirent_changes placed
  rw [Volume.alter_inodes_self]

theorem mkdirResolved_harmless :
    Harmless volume (ext2MkdirResolved volume parent name requester space).1 := by
  rcases @mkdirResolved_cases volume parent name requester space with ⟨harmless, _⟩ | created
  · exact harmless
  · obtain ⟨num, made, linked, _, fresh, _, _, _, placed, outcome⟩ := created
    rw [outcome]
    exact fresh.harmless.trans (placed_counted placed)

theorem mkdir_harmless : Harmless volume (ext2Mkdir volume path requester space).1 := by
  unfold ext2Mkdir
  refine dropCache_harmless.trans ?_
  dsimp only
  split
  · exact .refl
  · split
    · exact .refl
    · exact mkdirResolved_harmless

theorem writeFile_harmless {stored : Nat} :
    Harmless volume (ext2WriteFile src stored volume num).1 := by
  unfold ext2WriteFile
  dsimp only
  exact Sparing.alter_attributes rfl rfl

theorem writeFileAt_harmless {offset stored : Nat} :
    Harmless volume (ext2WriteFileAt src offset stored volume num).1 := by
  unfold ext2WriteFileAt
  dsimp only
  split
  · exact .refl
  · split
    · exact .refl
    · dsimp only
      exact Sparing.alter_attributes rfl rfl

section Writing

variable {store : Volume → Nat → Volume × Option Nat} {mayCreate : Bool}
variable (harmless : ∀ volume num, Harmless volume (store volume num).1)
include harmless

theorem writeEntry_harmless {existed : Bool} :
    Harmless volume (ext2WriteEntry store volume found existed requester).1 := by
  unfold ext2WriteEntry
  split
  · exact .refl
  · split
    · exact .refl
    · split
      · exact .refl
      · exact harmless volume found.inode

theorem writeThrough_harmless :
    Harmless volume (ext2WriteThrough store mayCreate volume path requester space).1 := by
  unfold ext2WriteThrough
  refine dropCache_harmless.trans ?_
  dsimp only
  split
  · exact .refl
  · next dir resolved =>
      split
      · exact .refl
      · split
        · split
          · exact .refl
          · exact writeEntry_harmless harmless
        · split
          · exact .refl
          · have creates := @createFile_harmless volume.dropCache dir (ext2LeafName path)
              requester space
            split
            · next created outcome =>
                rw [outcome] at creates
                exact creates
            · next created num outcome =>
                rw [outcome] at creates
                split
                · exact creates
                · exact creates.trans (writeEntry_harmless harmless)

end Writing

theorem chmod_keeps_kind (old new : Nat) :
    isDir ((old &&& ext2SIfmt) ||| (new &&& 0x0FFF)) = isDir old := by
  have format : ext2SIfmt &&& ext2SIfdir = ext2SIfdir := by decide
  have permissions : 0x0FFF &&& ext2SIfdir = 0 := by decide
  unfold isDir
  rw [Nat.and_or_distrib_right, Nat.and_assoc, Nat.and_assoc, format, permissions, Nat.and_zero,
    Nat.or_zero]

theorem chmod_harmless : Harmless volume (ext2Chmod volume path mode requester).1 := by
  unfold ext2Chmod
  refine dropCache_harmless.trans ?_
  dsimp only
  split
  · exact .refl
  · split
    · exact .refl
    · split
      · exact .refl
      · next inode read =>
          obtain ⟨_, rfl⟩ := ext2ReadInode_eq read
          split
          · exact .refl
          · exact writeInode_harmless (chmod_keeps_kind _ _)

theorem chown_harmless {uid : Nat} : Harmless volume (ext2Chown volume path uid requester).1 := by
  unfold ext2Chown
  refine dropCache_harmless.trans ?_
  dsimp only
  split
  · exact .refl
  · split
    · exact .refl
    · split
      · exact .refl
      · split
        · exact .refl
        · next inode read =>
            obtain ⟨_, rfl⟩ := ext2ReadInode_eq read
            exact writeInode_harmless rfl

theorem readAt_harmless {len offset : Nat} :
    Harmless volume (ext2ReadAt volume path len offset).1 := by
  unfold ext2ReadAt
  split
  · exact .refl
  · split
    · exact .refl
    · split
      · exact .refl
      · exact .of_same rfl rfl rfl

end Racccoon.Ext2
