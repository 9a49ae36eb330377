import Racccoon.Ext2.Removal
import Racccoon.Ext2.Server
import Racccoon.Lib.Run

/-!
Fids keep the inode number and the place of the directory record they were walked
to; nothing ties them to the file. `Refers` says that a fid still stands for the
file it was established for: the number has not been handed out again since, it is
still taken, and the record still leads to it. `Undisturbed` is the condition on
a request under which every fid in use goes on to refer: it looks at the state
before the request only.
-/

namespace Racccoon.Ext2

open Tiling

structure Refers (volume : Volume) (fid : Fid) : Prop where
  lives : Lives volume fid.inode fid.born fid.isDir
  entry : fid.hasEntry = true → fid.inode ≠ 0 ∧ fid.entry.dir = fid.parent ∧
    volume.inodeBitmap fid.parent = true ∧ Names volume fid.entry fid.inode

def FidsSound (fsd : Fsd) : Prop :=
  ∀ fid, fidUsed fsd fid = true → Refers fsd.volume (fsd.fids fid)

/-- A P9_REMOVE of this fid is not refused: the requester may write the inode and a
directory is empty. -/
def Removable (fsd : Fsd) (uid fid : Nat) : Prop :=
  (fsd.fids fid).hasEntry = true ∧
    ext2WriteAllowed (fsd.volume.inodes (fsd.fids fid).inode) uid = true ∧
    (isDir (fsd.volume.inodes (fsd.fids fid).inode).mode = true →
      ext2DirIsEmpty (fsd.volume.inodes (fsd.fids fid).inode) = true)

/-- The request leaves the files of the fids in use where they are, and a fid it
establishes is for a file that exists. -/
def Undisturbed (fsd : Fsd) (message : Message) : Prop :=
  match message.request with
  | .fsDelete name recursive => ∀ fid, fidUsed fsd fid = true →
      ∀ num, Removes fsd.volume (fsFilename name) recursive message.uid num →
      (fsd.fids fid).inode ≠ num ∧ ((fsd.fids fid).hasEntry = true → (fsd.fids fid).parent ≠ num)
  | .fsRename name newName => ∀ fid, fidUsed fsd fid = true → (fsd.fids fid).hasEntry = true →
      ¬ Moves fsd.volume (fsFilename name) (fsFilename newName) message.uid (fsd.fids fid).entry
  | .p9Attach _ => fsd.volume.inodeBitmap ext2RootInode = true ∧
      isDir (fsd.volume.inodes ext2RootInode).mode = true
  | .p9Walk fid _ name => ∀ found,
      ext2FindInDir fsd.volume (fsd.fids fid).inode (cString name) = some found →
      fsd.volume.inodeBitmap found.inode = true
  | .p9Create fid dmdir name =>
    (dmdir = true → ext2FindInDir fsd.volume (fsd.fids fid).inode (cString name) = none) →
    ∀ link ∈ linksOf (fsd.volume.inodes (fsd.fids fid).inode).entries.flatten,
      link.1 ≠ storedName (cString name)
  | .p9Remove fid => Removable fsd message.uid fid → ∀ other, other ≠ fid →
      fidUsed fsd other = true → (fsd.fids other).hasEntry = true →
      (fsd.fids other).parent ≠ (fsd.fids fid).inode
  | _ => True

variable {fsd : Fsd} {volume after made : Volume} {entry : Fid} {found : Found}
variable {freed : Nat → Prop} {moved : DirentPos → Prop} {fid num dir client uid : Nat}
variable {name : List UInt8} {space : Space} {message : Message}

theorem Refers.spared (refers : Refers volume entry) (spares : Sparing freed moved volume after)
    (keptInode : ¬ freed entry.inode)
    (keptEntry : entry.hasEntry = true → ¬ freed entry.parent ∧ ¬ moved entry.entry) :
    Refers after entry := by
  refine ⟨spares.lives _ _ _ refers.lives keptInode, ?_⟩
  intro linked
  obtain ⟨present, sameDir, allocated, names⟩ := refers.entry linked
  obtain ⟨keptParent, keptPos⟩ := keptEntry linked
  have parentLives := spares.lives _ _ _ ⟨allocated, rfl, rfl⟩ keptParent
  refine ⟨present, sameDir, parentLives.allocated, ?_⟩
  rw [← sameDir] at allocated keptParent
  exact spares.names _ _ present names allocated keptInode keptParent keptPos

theorem Refers.harmless (refers : Refers volume entry) (harmless : Harmless volume after) :
    Refers after entry :=
  refers.spared harmless (fun impossible => impossible) fun _ =>
    ⟨fun impossible => impossible, fun impossible => impossible⟩

/-- Refers does not look at the other fields of a fid. -/
theorem Refers.of_fields {other : Fid} (refers : Refers volume entry)
    (inode : other.inode = entry.inode) (born : other.born = entry.born)
    (isDir : other.isDir = entry.isDir) (parent : other.parent = entry.parent)
    (place : other.entry = entry.entry) (linked : other.hasEntry = entry.hasEntry) :
    Refers volume other := by
  refine ⟨?_, ?_⟩
  · rw [inode, born, isDir]
    exact refers.lives
  · rw [linked, inode, place, parent]
    exact refers.entry

namespace FidsSound

theorem withVolume (sound : FidsSound fsd) (spares : Sparing freed moved fsd.volume after)
    (kept : ∀ fid, fidUsed fsd fid = true → ¬ freed (fsd.fids fid).inode ∧
      ((fsd.fids fid).hasEntry = true →
        ¬ freed (fsd.fids fid).parent ∧ ¬ moved (fsd.fids fid).entry)) :
    FidsSound (fsd.withVolume after) := by
  intro fid used
  exact (sound fid used).spared spares (kept fid used).1 (kept fid used).2

theorem harmless (sound : FidsSound fsd) (harmless : Harmless fsd.volume after) :
    FidsSound (fsd.withVolume after) :=
  fun fid used => (sound fid used).harmless harmless

theorem setFid (sound : FidsSound fsd) (fid : Nat) (refers : entry.used = true → Refers fsd.volume entry) :
    FidsSound (fsd.setFid fid entry) := by
  intro other used
  simp only [fidUsed, Bool.and_eq_true, Fsd.setFid] at used ⊢
  by_cases same : other = fid
  · subst same
    rw [Function.update_self] at used ⊢
    exact refers used.2
  · rw [Function.update_of_ne same] at used ⊢
    apply sound
    simpa [fidUsed] using used

theorem passed (sound : FidsSound fsd) (checks : List Check) :
    FidsSound { fsd with passed := checks } := sound

end FidsSound

theorem p9Attach_sound (sound : FidsSound fsd)
    (root : fsd.volume.inodeBitmap ext2RootInode = true ∧
      isDir (fsd.volume.inodes ext2RootInode).mode = true) :
    FidsSound (p9Attach fsd client fid).1 := by
  unfold p9Attach
  split
  · apply sound.setFid
    intro _
    exact ⟨⟨root.1, rfl, root.2⟩, fun impossible => by cases impossible⟩
  · exact sound

theorem p9Walk_sound {newfid : Nat} (sound : FidsSound fsd)
    (exists_ : ∀ found, ext2FindInDir fsd.volume (fsd.fids fid).inode name = some found →
      fsd.volume.inodeBitmap found.inode = true) :
    FidsSound (p9Walk fsd client fid newfid name).1 := by
  unfold p9Walk
  split
  · next admitted =>
      simp only [Bool.and_eq_true] at admitted
      have parent := sound fid admitted.1.1.1
      split
      · exact sound
      · next found located =>
          obtain ⟨sameDir, present, names, mode, _⟩ := ext2FindInDir_spec located
          apply sound.setFid
          intro _
          refine ⟨⟨exists_ found located, rfl, ?_⟩, fun _ => ?_⟩
          · rw [mode]
          · exact ⟨present, sameDir, parent.lives.allocated, names⟩
  · exact sound

theorem p9Open_sound (sound : FidsSound fsd) : FidsSound (p9Open fsd client uid fid).1 := by
  unfold p9Open
  split
  · next admitted =>
      simp only [Bool.and_eq_true] at admitted
      split
      · exact sound
      · split
        · apply sound.setFid
          intro _
          exact (sound fid admitted.1).of_fields rfl rfl rfl rfl rfl rfl
        · exact sound
  · exact sound

theorem p9Clunk_sound (sound : FidsSound fsd) : FidsSound (p9Clunk fsd fid).1 := by
  unfold p9Clunk
  split
  · apply sound.setFid
    intro impossible
    cases impossible
  · exact sound

theorem linksOf_short {records : List Dirent} {link : List UInt8 × Nat}
    (member : link ∈ linksOf records) : link.1.length < 256 := by
  obtain ⟨record, _, _, rfl⟩ := mem_linksOf.mp member
  exact record.lenByte

/-- A name that was not in the directory before leads, after the creation, to the
inode that was created. -/
theorem found_is_fresh (vacant : ∀ link ∈ linksOf (volume.inodes dir).entries.flatten,
      link.1 ≠ storedName name)
    (linked : (linksOf (after.inodes dir).entries.flatten).Perm
      ((storedName name, num) :: linksOf (volume.inodes dir).entries.flatten))
    (located : ext2FindInDir after dir name = some found) : found.inode = num := by
  have member := (ext2FindInDir_spec located).2.2.2.2
  have short := storedName_eq (linksOf_short member)
  rcases List.mem_cons.mp (linked.mem_iff.mp member) with same | old
  · exact congrArg Prod.snd same
  · exact absurd short.symm (vacant _ old)

theorem p9Created_sound {dmdir : Bool} (sound : FidsSound fsd)
    (refers : Refers fsd.volume { fsd.fids fid with
      opened := !dmdir, isDir := dmdir, inode := found.inode, parent := (fsd.fids fid).inode
      entry := found.pos, hasEntry := true
      owner := client, born := fsd.volume.generation found.inode }) :
    FidsSound (p9Created fsd client uid fid dmdir found) := by
  have turned := sound.setFid fid fun _ => refers
  unfold p9Created
  split
  · exact turned.passed _
  · exact turned

/-- The directory was taken, so it is not the inode just handed out. -/
theorem Fresh.apart {child : Nat} {directory : Bool} (fresh : Fresh volume child directory after)
    (sound : Lives volume dir num true) : dir ≠ child := by
  rintro rfl
  have free := fresh.free
  rw [sound.allocated] at free
  cases free

theorem Fresh.links {child : Nat} {directory dirBlock : Bool} (fresh : Fresh volume child directory middle)
    (sound : Lives volume dir num true)
    (placed : ext2PlaceDirent middle dir name child dirBlock = some after) :
    (linksOf (after.inodes dir).entries.flatten).Perm
      ((storedName name, child) :: linksOf (volume.inodes dir).entries.flatten) := by
  rw [← fresh.inodes dir (fresh.apart sound)]
  exact placeDirent_links fresh.present placed

theorem createFile_refers (sound : Lives volume dir num true) (vacant : ∀ link ∈
      linksOf (volume.inodes dir).entries.flatten, link.1 ≠ storedName name) {made : Nat}
    (created : ext2CreateFile volume dir name uid space = (after, some made))
    (located : ext2FindInDir after dir name = some found) :
    Lives after found.inode (after.generation found.inode) false := by
  rcases @createFile_cases volume dir name uid space with ⟨_, _, failed⟩ | success
  · rw [created] at failed
    cases failed
  · obtain ⟨child, linked, fresh, _, _, _, placed, _⟩ := success
    rw [created] at placed
    have same := found_is_fresh vacant (fresh.links sound placed) located
    have lives := (placeDirent_harmless placed).lives _ _ _ fresh.lives fun impossible => impossible
    rw [same]
    exact ⟨lives.allocated, rfl, lives.kind⟩

theorem mkdirResolved_refers (sound : Lives volume dir num true)
    (vacant : ext2FindInDir volume dir name = none → ∀ link ∈
      linksOf (volume.inodes dir).entries.flatten, link.1 ≠ storedName name) {made : Nat}
    (created : ext2MkdirResolved volume dir name uid space = (after, some made))
    (located : ext2FindInDir after dir name = some found) :
    Lives after found.inode (after.generation found.inode) true := by
  rcases @mkdirResolved_cases volume dir name uid space with ⟨_, _, failed⟩ | success
  · rw [created] at failed
    cases failed
  · obtain ⟨child, middle, linked, absent, fresh, _, _, _, placed, outcome⟩ := success
    rw [created] at outcome
    obtain ⟨rfl, _⟩ := outcome
    have links := fresh.links sound placed
    have counted : ∀ mode uid links, ((ext2WriteInode linked dir mode uid links).inodes
        dir).entries = (linked.inodes dir).entries := by
      intro mode uid links
      rw [ext2WriteInode, Volume.alter_inodes_self]
    rw [← counted] at links
    have same := found_is_fresh (vacant absent) links located
    have harmless : Harmless middle (ext2WriteInode linked dir (middle.inodes dir).mode
        (middle.inodes dir).uid ((middle.inodes dir).linksCount + 1)) := placed_counted placed
    have lives := harmless.lives _ _ _ fresh.lives fun impossible => impossible
    rw [same]
    exact ⟨lives.allocated, rfl, lives.kind⟩

theorem p9Create_sound {dmdir : Bool} (sound : FidsSound fsd)
    (vacant : (dmdir = true → ext2FindInDir fsd.volume (fsd.fids fid).inode name = none) →
      ∀ link ∈ linksOf (fsd.volume.inodes (fsd.fids fid).inode).entries.flatten,
        link.1 ≠ storedName name) : FidsSound (p9Create fsd client uid space fid dmdir name).1 := by
  unfold p9Create
  split
  · next admitted =>
      simp only [Bool.and_eq_true] at admitted
      have refers := sound fid admitted.1
      have dirLives := refers.lives
      rw [admitted.2] at dirLives
      -- either way of creating harms no fid and yields a fresh inode of the right kind
      have creation : ∀ outcome, (if dmdir
          then ext2MkdirResolved fsd.volume (fsd.fids fid).inode name uid space
          else ext2CreateFile fsd.volume (fsd.fids fid).inode name uid space) = outcome →
          Harmless fsd.volume outcome.1 ∧ ∀ made found, outcome.2 = some made →
            ext2FindInDir outcome.1 (fsd.fids fid).inode name = some found →
            Lives outcome.1 found.inode (outcome.1.generation found.inode) dmdir := by
        rintro _ rfl
        cases dmdir with
        | true =>
          refine ⟨mkdirResolved_harmless, fun made found created located => ?_⟩
          exact mkdirResolved_refers dirLives (fun absent => vacant fun _ => absent)
            (Prod.ext rfl created) located
        | false =>
          refine ⟨createFile_harmless, fun made found created located => ?_⟩
          exact createFile_refers dirLives (vacant fun impossible => by cases impossible)
            (Prod.ext rfl created) located
      dsimp only
      split
      · next volume outcome => exact sound.harmless (creation _ outcome).1
      · next volume made outcome =>
          obtain ⟨harmless, fresh⟩ := creation _ outcome
          split
          · exact sound.harmless harmless
          · next found located =>
              obtain ⟨sameDir, present, names, _, _⟩ := ext2FindInDir_spec located
              apply p9Created_sound (sound.harmless harmless)
              refine ⟨fresh made found rfl located, fun _ => ⟨present, sameDir, ?_, names⟩⟩
              exact (refers.harmless harmless).lives.allocated
  · exact sound

theorem p9Write_sound {offset : Nat} {data : List UInt8} (sound : FidsSound fsd) :
    FidsSound (p9Write fsd uid space fid offset data).1 := by
  unfold p9Write
  split
  · split
    · exact sound
    · split
      · exact sound.harmless writeFileAt_harmless
      · exact sound
  · exact sound

theorem not_dangling {other : Nat} (clear : danglingFid fsd fid = false)
    (used : fidUsed fsd other = true) (apart : other ≠ fid) :
    (fsd.fids other).inode ≠ (fsd.fids fid).inode := by
  simp only [fidUsed, Bool.and_eq_true, decide_eq_true_eq] at used
  simp only [danglingFid, List.any_eq_false, List.mem_range, Bool.and_eq_true,
    decide_eq_true_eq] at clear
  exact fun same => clear other used.1 ⟨⟨apart, used.2⟩, same⟩

/-- A removal that is carried out was removable. -/
theorem deleteResolved_accepted {pos : DirentPos} {parent mode : Nat}
    (changed : (ext2DeleteResolved volume parent num pos mode uid).1 ≠ volume) :
    ext2WriteAllowed (volume.inodes num) uid = true ∧
      (isDir mode = true → ext2DirIsEmpty (volume.inodes num) = true) := by
  unfold ext2DeleteResolved at changed
  split at changed
  · exact absurd rfl changed
  · split at changed
    · exact absurd rfl changed
    · next inode read =>
        obtain ⟨_, rfl⟩ := ext2ReadInode_eq read
        split at changed
        · exact absurd rfl changed
        · next allowed =>
            split at changed
            · exact absurd rfl changed
            · next empty =>
                refine ⟨by simpa using allowed, fun directory => ?_⟩
                simpa [directory] using empty

theorem p9Remove_sound (sound : FidsSound fsd)
    (apart : Removable fsd uid fid → ∀ other, other ≠ fid → fidUsed fsd other = true →
      (fsd.fids other).hasEntry = true → (fsd.fids other).parent ≠ (fsd.fids fid).inode) :
    FidsSound (p9Remove fsd uid fid).1 := by
  -- once the fid itself is given up, only the others have to keep referring
  have others : ∀ after, (∀ other, other ≠ fid → fidUsed fsd other = true →
      Refers after (fsd.fids other)) →
      FidsSound ((fsd.withVolume after).setFid fid { fsd.fids fid with used := false }) := by
    intro after keep other used
    simp only [fidUsed, Bool.and_eq_true, Fsd.setFid, Fsd.withVolume] at used ⊢
    by_cases same : other = fid
    · subst same
      rw [Function.update_self] at used
      cases used.2
    · rw [Function.update_of_ne same] at used ⊢
      apply keep other same
      simpa [fidUsed] using used
  unfold p9Remove
  split
  · next admitted =>
      simp only [Bool.and_eq_true, Bool.not_eq_true'] at admitted
      obtain ⟨used, clear⟩ := admitted
      dsimp only
      split
      · next linked =>
          obtain ⟨_, _, _, names⟩ := (sound fid used).entry linked
          split
          · exact others fsd.volume fun other _ usedOther => sound other usedOther
          · next inode read =>
              obtain ⟨_, rfl⟩ := ext2ReadInode_eq read
              apply others
              intro other away usedOther
              by_cases changed : (ext2DeleteResolved fsd.volume (fsd.fids fid).parent
                  (fsd.fids fid).inode (fsd.fids fid).entry
                  (fsd.volume.inodes (fsd.fids fid).inode).mode uid).1 = fsd.volume
              · rw [changed]
                exact sound other usedOther
              · obtain ⟨allowed, empty⟩ := deleteResolved_accepted changed
                have clears : Sparing (· = (fsd.fids fid).inode) (fun _ => False) fsd.volume
                    (ext2ZeroDirent fsd.volume (fsd.fids fid).entry) :=
                  zeroDirent_sparing fun _ _ leads => leads.unique names
                refine (sound other usedOther).spared (deleteResolved_sparing clears rfl)
                  (not_dangling clear usedOther away) fun linkedOther => ⟨?_, fun gone => gone⟩
                exact apart ⟨linked, allowed, empty⟩ other away usedOther linkedOther
      · exact others fsd.volume fun other _ usedOther => sound other usedOther
  · exact sound

theorem fsDispatch_sound (sound : FidsSound fsd) (undisturbed : Undisturbed fsd message) :
    FidsSound (fsd.withVolume
      (fsDispatch fsd.volume message.uid message.space message.request).1) := by
  obtain ⟨client, uid, space, request⟩ := message
  cases request with
  | fsRead =>
    simp only [fsDispatch]
    split <;> exact sound
  | fsReadAt =>
    simp only [fsDispatch]
    split
    · exact sound.harmless readAt_harmless
    · exact sound
  | fsList =>
    simp only [fsDispatch]
    split <;> exact sound
  | fsStat =>
    simp only [fsDispatch]
    split <;> exact sound
  | fsWrite =>
    simp only [fsDispatch]
    split
    · exact sound
    · exact sound.harmless (writeThrough_harmless fun _ _ => writeFile_harmless)
  | fsWriteAt =>
    simp only [fsDispatch]
    split
    · exact sound
    · exact sound.harmless (writeThrough_harmless fun _ _ => writeFileAt_harmless)
  | fsDelete name recursive =>
    simp only [fsDispatch]
    split
    · exact sound
    · have spares : Sparing (Removes fsd.volume (fsFilename name) recursive uid)
          (fun _ => False) fsd.volume (if recursive
            then ext2DeleteRecursive fsd.volume (fsFilename name) uid
            else ext2Delete fsd.volume (fsFilename name) uid).1 := by
        cases recursive
        · exact delete_sparing
        · exact deleteRecursive_sparing
      apply sound.withVolume spares
      intro fid used
      refine ⟨fun gone => (undisturbed fid used _ gone).1 rfl, fun linked => ⟨fun gone => ?_,
        fun impossible => impossible⟩⟩
      exact (undisturbed fid used _ gone).2 linked rfl
  | fsMkdir => exact sound.harmless mkdir_harmless
  | fsRename name newName =>
    have spares : Sparing (fun _ => False) (Moves fsd.volume (fsFilename name)
        (fsFilename newName) uid) fsd.volume (ext2Rename fsd.volume (fsFilename name)
          (fsFilename newName) uid space).1 := rename_sparing
    apply sound.withVolume spares
    intro fid used
    exact ⟨fun impossible => impossible, fun linked => ⟨fun impossible => impossible,
      undisturbed fid used linked⟩⟩
  | fsChmod =>
    simp only [fsDispatch]
    split
    · exact sound
    · exact sound.harmless chmod_harmless
  | fsChown =>
    simp only [fsDispatch]
    split
    · exact sound
    · exact sound.harmless chown_harmless
  | _ => exact sound

theorem handle_sound (sound : FidsSound fsd) (undisturbed : Undisturbed fsd message) :
    FidsSound (handle fsd message).1 := by
  have paths := fsDispatch_sound sound undisturbed
  obtain ⟨client, uid, space, request⟩ := message
  cases request with
  | p9Attach fid => exact p9Attach_sound sound undisturbed
  | p9Walk fid newfid name => exact p9Walk_sound sound undisturbed
  | p9Open fid => exact p9Open_sound sound
  | p9Read fid offset count => exact sound
  | p9Clunk fid => exact p9Clunk_sound sound
  | p9Create fid dmdir name => exact p9Create_sound sound undisturbed
  | p9Write fid offset data => exact p9Write_sound sound
  | p9Remove fid => exact p9Remove_sound sound undisturbed
  | _ => exact paths

def Refused (fsd : Fsd) (fid : Nat) : Prop :=
  ∀ client uid offset count space data newfid dmdir name,
    p9Walk fsd client fid newfid name = (fsd, none) ∧ p9Open fsd client uid fid = (fsd, none) ∧
    p9Read fsd fid offset count = none ∧ p9Write fsd uid space fid offset data = (fsd, none) ∧
    p9Create fsd client uid space fid dmdir name = (fsd, none) ∧ p9Remove fsd uid fid = (fsd, none)

theorem unused_refused (unused : fidUsed fsd fid = false) : Refused fsd fid := by
  intro client uid offset count space data newfid dmdir name
  simp [p9Walk, p9Open, p9Read, p9Write, p9Create, p9Remove, unused]

theorem mounted_sound (volume : Volume) : FidsSound (Fsd.mounted volume) := by
  intro fid used
  simp [fidUsed, Fsd.mounted, Fid.free] at used

/-- Fids stay valid: while every request leaves the files of the fids in use alone,
each fid in use stands for the file it was established for, and a fid that is no
longer in use gets nothing done. -/
theorem fids_stay_valid (volume : Volume) (fsd : Fsd)
    (run : Run.Reach step Undisturbed (Fsd.mounted volume) fsd) (fid : Nat) :
    (fidUsed fsd fid = true → Refers fsd.volume (fsd.fids fid)) ∧
      (fidUsed fsd fid = false → Refused fsd fid) := by
  have sound : FidsSound fsd := by
    apply run.invariant FidsSound (mounted_sound volume)
    intro before message after holds undisturbed stepped
    simp only [step, Option.some.injEq] at stepped
    subst stepped
    exact handle_sound holds undisturbed
  exact ⟨sound fid, unused_refused⟩

def grant : Space := ⟨4096, true, true⟩

/-- A client attaches and creates a file `a`. -/
def created : List Message :=
  [⟨1, 1000, grant, .p9Attach 0⟩, ⟨1, 1000, grant, .p9Create 0 false [97]⟩]

theorem fids_stay_valid_create :
    ∃ fsd, Run.Reach step Undisturbed (Fsd.mounted .formatted) fsd ∧ fidUsed fsd 0 = true ∧
      Refers fsd.volume (fsd.fids 0) := by
  have attached : Run.Reach step Undisturbed (Fsd.mounted .formatted)
      (handle (Fsd.mounted .formatted) ⟨1, 1000, grant, .p9Attach 0⟩).1 :=
    .next ⟨1, 1000, grant, .p9Attach 0⟩ .start ⟨rfl, by decide⟩ rfl
  have vacant : Undisturbed (handle (Fsd.mounted .formatted) ⟨1, 1000, grant, .p9Attach 0⟩).1
      ⟨1, 1000, grant, .p9Create 0 false [97]⟩ := by
    intro _
    decide
  have run := Run.Reach.next ⟨1, 1000, grant, .p9Create 0 false [97]⟩ attached vacant rfl
  have used : fidUsed (handle (handle (Fsd.mounted .formatted)
      ⟨1, 1000, grant, .p9Attach 0⟩).1 ⟨1, 1000, grant, .p9Create 0 false [97]⟩).1 0 = true := by
    decide
  exact ⟨_, run, used, (fids_stay_valid .formatted _ run 0).1 used⟩

/-- Another client deletes `a` by its path and writes `b`: the new file gets the same
inode and the same record, and the fid of `a` now reads it. -/
theorem fid_reads_other_file :
    ∃ fsd, Run.Reach step (fun _ _ => True) (Fsd.mounted .formatted) fsd ∧
      fidUsed fsd 0 = true ∧ ¬ Refers fsd.volume (fsd.fids 0) ∧
      (ext2Lookup fsd.volume [97]).isNone = true ∧
      ext2Read fsd.volume [98] 3 = some [65, 66, 67] ∧
      p9Read fsd 0 0 3 = some [65, 66, 67] := by
  let requests := created ++ [⟨2, 0, grant, .fsDelete [97] false⟩,
    ⟨2, 0, grant, .fsWrite [98] [65, 66, 67]⟩]
  refine ⟨Run.outcome step (fun _ _ => True) (Fsd.mounted .formatted) requests,
    Run.outcome_reach requests _ (by decide), by decide, ?_, by decide,
    by decide, by decide⟩
  intro refers
  have generation := refers.lives.generation
  revert generation
  decide

end Racccoon.Ext2
