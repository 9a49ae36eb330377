import Racccoon.Ext2.UniqueNames

/-!
Deleting one of several names of a file. `ext2_delete_resolved` clears the entry
and gives the inode with its blocks back without looking at the link count, so
the other names of the file are spared exactly when there are none.
-/

namespace Racccoon.Ext2

open Tiling

variable {volume : Volume} {path name : List UInt8} {requester num child : Nat}
variable {pos : DirentPos} {found : Found}

def Entry (volume : Volume) (pos : DirentPos) (name : List UInt8) (child : Nat) : Prop :=
  volume.inodeBitmap pos.dir = true ∧ isDir (volume.inodes pos.dir).mode = true ∧
    Link volume pos name child

structure LeadsToFile (volume : Volume) (path : List UInt8) (found : Found) : Prop where
  located : ext2LookupEntry volume path = some found
  file : isDir found.mode = false
  inUse : volume.inodeBitmap found.inode = true

/-- What deleting the name at `found` owes to everybody else. -/
structure RemovesOneName (volume : Volume) (found : Found) (outcome : Volume × Option Nat) :
    Prop where
  removed : outcome.2 ≠ none → ∀ pos name child,
    Entry outcome.1 pos name child ↔ Entry volume pos name child ∧ pos ≠ found.pos
  refused : outcome.2 = none → ∀ pos name child,
    Entry outcome.1 pos name child ↔ Entry volume pos name child
  contents : ∀ pos name child, Entry outcome.1 pos name child → ∀ len offset,
    ext2ReadInodeAt outcome.1 child len offset = ext2ReadInodeAt volume child len offset
  freed : outcome.1.inodeBitmap found.inode = false →
    ∀ pos name, ¬ Entry outcome.1 pos name found.inode

/-- `ext2_delete` turns the request down: the entry is protected, or the requester may
not write the file. -/
def Refuses (volume : Volume) (found : Found) (requester : Nat) : Prop :=
  fsIsProtectedEntry volume found.pos = true ∨
    ext2WriteAllowed (volume.inodes found.inode) requester = false

/-- Every entry that leads to the file is the one at `found`. -/
def OnlyName (volume : Volume) (found : Found) : Prop :=
  ∀ pos name, Entry volume pos name found.inode → pos = found.pos

theorem zeroDirent_mode (num : Nat) :
    ((ext2ZeroDirent volume pos).inodes num).mode = (volume.inodes num).mode := by
  by_cases same : num = pos.dir
  · rw [same, ext2ZeroDirent, Volume.alter_inodes_self]
  · rw [ext2ZeroDirent, Volume.alter_inodes_of_ne _ same]

theorem zeroDirent_content (num : Nat) :
    ((ext2ZeroDirent volume pos).inodes num).content = (volume.inodes num).content := by
  by_cases same : num = pos.dir
  · rw [same, ext2ZeroDirent, Volume.alter_inodes_self]
  · rw [ext2ZeroDirent, Volume.alter_inodes_of_ne _ same]

theorem zeroDirent_entry :
    Entry (ext2ZeroDirent volume found.pos) pos name child ↔
      Entry volume pos name child ∧ pos ≠ found.pos := by
  have mode := @zeroDirent_mode volume found.pos pos.dir
  constructor
  · rintro ⟨inUse, directory, link⟩
    refine ⟨⟨inUse, mode ▸ directory, zeroDirent_shrinks _ _ _ link⟩, ?_⟩
    rintro rfl
    obtain ⟨entry, stands, _, leads, live⟩ := link
    rw [ext2ZeroDirent, Volume.alter_inodes_self, entryAt_editAt_self] at stands
    obtain ⟨_, _, rfl⟩ := Option.map_eq_some_iff.mp stands
    exact live leads.symm
  · rintro ⟨⟨inUse, directory, entry, stands, named, leads, live⟩, apart⟩
    refine ⟨inUse, mode.symm ▸ directory, entry, ?_, named, leads, live⟩
    by_cases same : pos.dir = found.pos.dir
    · rw [same, ext2ZeroDirent, Volume.alter_inodes_self]
      rw [same] at stands
      rw [entryAt_editAt_of_ne Dirent.cleared fun _ => rfl]
      · exact stands
      · intro spot
        apply apart
        obtain ⟨dir, block, offset⟩ := pos
        cases same
        cases spot
        rfl
    · rw [ext2ZeroDirent, Volume.alter_inodes_of_ne _ same]
      exact stands

theorem releaseInode_entry (file : isDir (volume.inodes num).mode = false) :
    Entry (releaseInode volume num) pos name child ↔ Entry volume pos name child := by
  have others : ∀ other, other ≠ num → (releaseInode volume num).inodes other =
      volume.inodes other := fun other apart => Volume.setInode_inodes_of_ne _ apart
  by_cases same : pos.dir = num
  · constructor
    · rintro ⟨inUse, _⟩
      rw [same] at inUse
      simp [releaseInode, ext2FreeInode] at inUse
    · rintro ⟨_, directory, _⟩
      rw [same, file] at directory
      cases directory
  · unfold Entry Link
    rw [others _ same, releaseInode, ext2FreeInode_bitmap_of_ne same]
    exact Iff.rfl

theorem readInodeAt_of_same {before after : Volume} {len offset : Nat}
    (groups : after.groupCount = before.groupCount)
    (perGroup : after.inodesPerGroup = before.inodesPerGroup)
    (mode : (after.inodes child).mode = (before.inodes child).mode)
    (content : (after.inodes child).content = (before.inodes child).content) :
    ext2ReadInodeAt after child len offset = ext2ReadInodeAt before child len offset := by
  unfold ext2ReadInodeAt ext2ReadInode
  rw [groups, perGroup]
  split
  · rfl
  · split
    · rfl
    · simp [mode, content]

section
variable (leads : LeadsToFile volume path found)
include leads

theorem LeadsToFile.read : ext2ReadInode volume found.inode = some (volume.inodes found.inode) := by
  obtain ⟨dir, _, inDir⟩ := ext2LookupEntry_spec leads.located
  simp only [ext2FindInDir, Option.bind_eq_bind, Option.bind_eq_some_iff] at inDir
  obtain ⟨_, _, _, _, ⟨_, _, entry⟩, _, matched, read, same⟩ := inDir
  cases same
  rw [read, (ext2ReadInode_eq read).2]

theorem LeadsToFile.mode : isDir (volume.inodes found.inode).mode = false := by
  rw [← mode_of_lookup leads.located]
  exact leads.file

theorem delete_refused (refuses : Refuses volume found requester) :
    ext2Delete volume path requester = (volume.dropCache, none) := by
  have read : ext2ReadInode volume.dropCache found.inode =
      some (volume.inodes found.inode) := leads.read
  simp only [ext2Delete, lookupEntry_dropCache, leads.located, ext2DeleteResolved, read]
  rcases refuses with protectedEntry | notAllowed
  · have guard : fsIsProtectedEntry volume.dropCache found.pos = true := protectedEntry
    rw [if_pos guard]
  · simp [notAllowed]

theorem delete_accepted (accepts : ¬ Refuses volume found requester) :
    ext2Delete volume path requester =
      (releaseInode (ext2ZeroDirent volume.dropCache found.pos) found.inode, some 0) := by
  have read : ext2ReadInode volume.dropCache found.inode =
      some (volume.inodes found.inode) := leads.read
  simp only [Refuses, not_or, Bool.not_eq_true] at accepts
  have guard : fsIsProtectedEntry volume.dropCache found.pos = false := accepts.1
  simp [ext2Delete, lookupEntry_dropCache, leads.located, ext2DeleteResolved, read, guard,
    accepts.2, leads.file, unlinkEntry]

theorem refused_removesOneName : RemovesOneName volume found (volume.dropCache, none) := by
  refine ⟨fun impossible => absurd rfl impossible, fun _ _ _ _ => Iff.rfl,
    fun _ _ _ _ _ _ => rfl, fun freed => ?_⟩
  have inUse : volume.dropCache.inodeBitmap found.inode = true := leads.inUse
  rw [inUse] at freed
  cases freed

/-- After an accepted delete the entries are those from before without the removed one. -/
theorem accepted_entry :
    Entry (releaseInode (ext2ZeroDirent volume.dropCache found.pos) found.inode) pos name child ↔
      Entry volume pos name child ∧ pos ≠ found.pos := by
  have cleared : isDir ((ext2ZeroDirent volume.dropCache found.pos).inodes found.inode).mode =
      false := by
    rw [zeroDirent_mode]
    exact leads.mode
  rw [releaseInode_entry cleared, zeroDirent_entry]
  exact Iff.rfl

end
theorem accepted_content (apart : child ≠ num) (len offset : Nat) :
    ext2ReadInodeAt (releaseInode (ext2ZeroDirent volume.dropCache pos) num) child len offset =
      ext2ReadInodeAt volume child len offset := by
  have released : (releaseInode (ext2ZeroDirent volume.dropCache pos) num).inodes child =
      (ext2ZeroDirent volume.dropCache pos).inodes child :=
    Volume.setInode_inodes_of_ne _ apart
  refine readInodeAt_of_same rfl rfl ?_ ?_
  · rw [released]
    exact zeroDirent_mode child
  · rw [released]
    exact zeroDirent_content child

/-- Deleting a file by one name spares all other names exactly if the request is refused
or the file has no other name. -/
theorem delete_spares_other_names_iff (leads : LeadsToFile volume path found) :
    RemovesOneName volume found (ext2Delete volume path requester) ↔
      Refuses volume found requester ∨ OnlyName volume found := by
  by_cases refuses : Refuses volume found requester
  · rw [delete_refused leads refuses]
    exact ⟨fun _ => Or.inl refuses, fun _ => refused_removesOneName leads⟩
  · rw [delete_accepted leads refuses]
    constructor
    · intro spares
      refine Or.inr fun pos name entry => ?_
      by_contra other
      have released : (releaseInode (ext2ZeroDirent volume.dropCache found.pos)
          found.inode).inodeBitmap found.inode = false := by
        simp [releaseInode, ext2FreeInode]
      exact spares.freed released pos name ((accepted_entry leads).mpr ⟨entry, other⟩)
    · rintro (refused | only)
      · exact absurd refused refuses
      · -- no entry that is left leads to the inode that is given back
        have gone : ∀ pos name, ¬ Entry (releaseInode (ext2ZeroDirent volume.dropCache found.pos)
            found.inode) pos name found.inode := by
          intro pos name entry
          obtain ⟨stood, other⟩ := (accepted_entry leads).mp entry
          exact other (only pos name stood)
        refine ⟨fun _ _ _ _ => accepted_entry leads, by rintro ⟨⟩, ?_, fun _ => gone⟩
        intro pos name child entry len offset
        apply accepted_content
        rintro rfl
        exact gone pos name entry

/-- A formatted volume with a file of root's under the names `a` and `b`. -/
def Volume.twoNames : Volume :=
  { Volume.formatted with
    inodes := fun num =>
      if num = ext2RootInode then
        ⟨0x41ED, 0, 2, [], [[⟨2, 12, dot, dot_holds, dot_short⟩,
          ⟨2, 12, dotdot, dotdot_holds, dotdot_short⟩,
          ⟨11, 12, [97], by decide, by decide⟩, ⟨11, 988, [98], by decide, by decide⟩]]⟩
      else if num = 11 then ⟨0x81A4, 0, 2, [120, 121], []⟩
      else .blank
    inodeBitmap := fun num => num ≤ 11 }

theorem delete_spares_other_names_refused :
    RemovesOneName .twoNames ⟨11, ⟨2, 0, 24⟩, 0x81A4⟩ (ext2Delete .twoNames [97] 1000) ↔
      Refuses .twoNames ⟨11, ⟨2, 0, 24⟩, 0x81A4⟩ 1000 ∨
        OnlyName .twoNames ⟨11, ⟨2, 0, 24⟩, 0x81A4⟩ :=
  delete_spares_other_names_iff ⟨by decide, by decide, by decide⟩

/-- Root deletes `a`, and `b` reads no byte of the file it named. -/
theorem other_name_lost :
    ext2LookupEntry .twoNames [97] = some ⟨11, ⟨2, 0, 24⟩, 0x81A4⟩ ∧
      ext2Read .twoNames [98] 8 = some [120, 121] ∧
      (ext2Delete .twoNames [97] 0).2 = some 0 ∧
      (ext2LookupEntry (ext2Delete .twoNames [97] 0).1 [98]).map Found.inode = some 11 ∧
      (ext2Delete .twoNames [97] 0).1.inodeBitmap 11 = false ∧
      ext2Read (ext2Delete .twoNames [97] 0).1 [98] 8 = some [] ∧
      ¬ RemovesOneName .twoNames ⟨11, ⟨2, 0, 24⟩, 0x81A4⟩ (ext2Delete .twoNames [97] 0) := by
  refine ⟨by decide, by decide, by decide, by decide,
    by decide, by decide, fun spares => ?_⟩
  have entry : Entry (ext2Delete .twoNames [97] 0).1 ⟨2, 0, 36⟩ [98] 11 :=
    ⟨by decide, by decide, ⟨11, 988, [98], by decide, by decide⟩,
      by decide, rfl, rfl, by decide⟩
  have same := spares.contents _ _ _ entry 8 0
  revert same
  decide

end Racccoon.Ext2
