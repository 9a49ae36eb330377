import Racccoon.Ext2.Removal
import Racccoon.Ext2.Server
import Racccoon.Lib.Run

/-!
Who owns what a request makes. Requests carry 32-bit uids, an inode has 16 bits
for its owner, and `ext2_write_inode` stores what fits. `Owned` follows one inode
number through a request: either the number goes on standing for the same file,
with its owner as it was, or the request handed it out for its requester.
-/

namespace Racccoon.Ext2

open Tiling

def TreatedAsOwner (inode : Inode) (requester : Nat) : Prop :=
  ∀ mode, ext2ReadAllowed { inode with mode := mode } requester = (mode &&& ext2SIrusr != 0) ∧
    ext2WriteAllowed { inode with mode := mode } requester = (mode &&& ext2SIwusr != 0)

def OwnedBy (inode : Inode) (uid : Nat) : Prop :=
  inode.uid = uid ∧ ∀ requester, requester ≠ 0 → (TreatedAsOwner inode requester ↔ requester = uid)

variable {inode : Inode}

theorem treatedAsOwner_iff {requester : Nat} (user : requester ≠ 0) :
    TreatedAsOwner inode requester ↔ requester = inode.uid := by
  constructor
  · intro treated
    by_contra other
    -- a file only its owner may read tells the two apart
    have refused := (treated ext2SIrusr).1
    simp only [ext2ReadAllowed, user, other] at refused
    exact absurd refused (by decide)
  · rintro rfl mode
    simp [ext2ReadAllowed, ext2WriteAllowed, user]

variable {uid target : Nat}

theorem ownedBy_iff : OwnedBy inode uid ↔ inode.uid = uid := by
  constructor
  · exact fun owned => owned.1
  · rintro rfl
    exact ⟨rfl, fun _ user => treatedAsOwner_iff user⟩

/-- The number is not handed out on the way, and while it stays taken its owner stays. -/
structure OwnerKept (num : Nat) (before after : Volume) : Prop where
  generation : after.generation num = before.generation num
  taken : after.inodeBitmap num = true → before.inodeBitmap num = true
  owner : after.inodeBitmap num = true → (before.inodes num).uid < 65536 →
    (after.inodes num).uid = (before.inodes num).uid

/-- If the number is taken afterwards, it either stood for the same file before and
keeps its owner, or was handed out on the way and belongs to `requester`. -/
structure Owned (requester num : Nat) (before after : Volume) : Prop where
  grows : before.generation num ≤ after.generation num
  owner : after.inodeBitmap num = true →
    after.generation num = before.generation num ∧ before.inodeBitmap num = true ∧
        ((before.inodes num).uid < 65536 → (after.inodes num).uid = (before.inodes num).uid) ∨
      before.generation num < after.generation num ∧ (after.inodes num).uid = requester % 65536

variable {volume before middle after made : Volume} {num parent dir child requester : Nat}
variable {name : List UInt8} {path newPath src : List UInt8} {mode : Nat} {space : Space}
variable {pos : DirentPos} {found : Found}

namespace OwnerKept

theorem refl : OwnerKept num volume volume := ⟨rfl, id, fun _ _ => rfl⟩

theorem trans (first : OwnerKept num before middle) (second : OwnerKept num middle after) :
    OwnerKept num before after := by
  refine ⟨second.generation.trans first.generation, fun held => first.taken (second.taken held),
    fun held small => ?_⟩
  have kept := first.owner (second.taken held) small
  rw [← kept]
  exact second.owner held (by rw [kept]; exact small)

theorem alter {change : Inode → Inode} (owner : num = target → (volume.inodes num).uid < 65536 →
      (change (volume.inodes num)).uid = (volume.inodes num).uid) :
    OwnerKept num volume (volume.alter target change) := by
  refine ⟨rfl, id, fun _ small => ?_⟩
  by_cases same : num = target
  · subst same
    rw [Volume.alter_inodes_self]
    exact owner rfl small
  · rw [Volume.alter_inodes_of_ne _ same]

theorem owned (kept : OwnerKept num before after) : Owned requester num before after :=
  ⟨kept.generation.ge, fun held => Or.inl ⟨kept.generation, kept.taken held, kept.owner held⟩⟩

end OwnerKept

namespace Owned

theorem trans (first : Owned requester num before middle)
    (second : Owned requester num middle after) : Owned requester num before after := by
  refine ⟨first.grows.trans second.grows, fun held => ?_⟩
  rcases second.owner held with ⟨same, stood, kept⟩ | ⟨later, owner⟩
  · rcases first.owner stood with ⟨still, before, keeps⟩ | ⟨earlier, owner⟩
    · refine Or.inl ⟨same.trans still, before, fun small => ?_⟩
      have middleOwner := keeps small
      rw [← middleOwner]
      exact kept (by rw [middleOwner]; exact small)
    · have small : (middle.inodes num).uid < 65536 := by
        rw [owner]
        exact Nat.mod_lt _ (by decide)
      exact Or.inr ⟨by rw [same]; exact earlier, (kept small).trans owner⟩
  · exact Or.inr ⟨Nat.lt_of_le_of_lt first.grows later, owner⟩

theorem kept (first : Owned requester num before middle) (second : OwnerKept num middle after) :
    Owned requester num before after :=
  first.trans second.owned

end Owned

theorem dropCache_kept : OwnerKept num volume volume.dropCache := ⟨rfl, id, fun _ _ => rfl⟩

theorem writeInode_kept {links : Nat} (owner : num = target → (volume.inodes num).uid < 65536 →
      uid % 65536 = (volume.inodes num).uid) :
    OwnerKept num volume (ext2WriteInode volume target mode uid links) :=
  OwnerKept.alter owner

theorem writeBack_kept {target links : Nat} {inode : Inode} {start : Volume}
    (read : ext2ReadInode start target = some inode) (since : OwnerKept num start volume) :
    OwnerKept num start (ext2WriteInode volume target mode inode.uid links) := by
  obtain ⟨_, rfl⟩ := ext2ReadInode_eq read
  refine ⟨since.generation, since.taken, fun held small => ?_⟩
  by_cases same : num = target
  · subst same
    rw [ext2WriteInode, Volume.alter_inodes_self]
    exact Nat.mod_eq_of_lt small
  · rw [ext2WriteInode, Volume.alter_inodes_of_ne _ same]
    exact since.owner held small

theorem placeDirent_kept {dirBlock : Bool}
    (placed : ext2PlaceDirent volume dir name child dirBlock = some after) :
    OwnerKept num volume after := by
  obtain ⟨entries, rfl⟩ := placeDirent_changes placed
  exact .alter fun _ _ => rfl

theorem zeroDirent_kept : OwnerKept num volume (ext2ZeroDirent volume pos) :=
  .alter fun _ _ => rfl

theorem releaseInode_kept : OwnerKept num volume (releaseInode volume target) := by
  by_cases same : num = target
  · subst same
    have freed : (releaseInode volume num).inodeBitmap num = false := by
      simp [releaseInode, ext2FreeInode]
    refine ⟨rfl, fun held => ?_, fun held _ => ?_⟩ <;> rw [freed] at held <;> cases held
  · refine ⟨rfl, fun held => ?_, fun _ _ => ?_⟩
    · rw [releaseInode, ext2FreeInode_bitmap_of_ne same] at held
      exact held
    · change ((ext2ZeroInode volume target).inodes num).uid = _
      rw [ext2ZeroInode, Volume.setInode_inodes_of_ne _ same]

theorem Taken.owned {taken : Volume} (alloc : Taken volume child taken)
    (owner : inode.uid = requester % 65536) :
    Owned requester num volume (taken.setInode child inode) := by
  by_cases same : num = child
  · subst same
    have handedOut : (taken.setInode num inode).generation num = volume.generation num + 1 := by
      change taken.generation num = _
      rw [alloc.generation, Function.update_self]
    refine ⟨by omega, fun _ => Or.inr ⟨by omega, ?_⟩⟩
    rw [Volume.setInode_inodes_self]
    exact owner
  · refine OwnerKept.owned ⟨?_, fun held => ?_, fun _ _ => ?_⟩
    · change taken.generation num = _
      rw [alloc.generation, Function.update_of_ne same]
    · change taken.inodeBitmap num = true at held
      rw [alloc.bitmap, Function.update_of_ne same] at held
      exact held
    · rw [Volume.setInode_inodes_of_ne _ same, alloc.inodes]

theorem Taken.abandoned {taken : Volume} (alloc : Taken volume child taken) (inode : Inode) :
    Owned requester num volume (ext2FreeInode (taken.setInode child inode) child) := by
  by_cases same : num = child
  · subst same
    refine ⟨?_, fun held => ?_⟩
    · change _ ≤ taken.generation num
      rw [alloc.generation, Function.update_self]
      omega
    · simp [ext2FreeInode] at held
  · have owned : Owned requester num volume (taken.setInode child { inode with
        uid := requester % 65536 }) := alloc.owned rfl
    refine ⟨owned.grows, fun held => ?_⟩
    rw [ext2FreeInode_bitmap_of_ne same] at held
    have outcome := owned.owner held
    rw [Volume.setInode_inodes_of_ne _ same] at outcome
    change _ ∧ _ ∧ (_ → ((taken.setInode child inode).inodes num).uid = _) ∨
      _ ∧ ((taken.setInode child inode).inodes num).uid = _
    rw [Volume.setInode_inodes_of_ne _ same]
    exact outcome

theorem createFile_owned :
    Owned requester num volume (ext2CreateFile volume dir name requester space).1 := by
  unfold ext2CreateFile
  split
  · exact OwnerKept.refl.owned
  · next child taken allocated =>
      have alloc := allocInode_taken allocated
      have owned : Owned requester num volume (taken.setInode child (.regular requester)) :=
        alloc.owned rfl
      simp only [written_regular]
      split
      · exact owned
      · split
        · exact alloc.abandoned (.regular requester)
        · next linked placed => exact owned.kept (placeDirent_kept placed)

theorem mkdirResolved_owned :
    Owned requester num volume (ext2MkdirResolved volume parent name requester space).1 := by
  unfold ext2MkdirResolved
  split
  · exact OwnerKept.refl.owned
  · split
    · exact OwnerKept.refl.owned
    · next child taken allocated =>
        have alloc := allocInode_taken allocated
        have owned : Owned requester num volume (taken.setInode child
            (.directory requester (dotBlock volume child parent))) := alloc.owned rfl
        simp only [written_directory]
        split
        · exact alloc.abandoned .blank
        · split
          · exact owned
          · next info read =>
              split
              · exact alloc.abandoned (.directory requester (dotBlock volume child parent))
              · next linked placed =>
                  exact owned.kept (writeBack_kept read (placeDirent_kept placed))

theorem mkdir_owned : Owned requester num volume (ext2Mkdir volume path requester space).1 := by
  unfold ext2Mkdir
  have dropped : Owned requester num volume volume.dropCache := dropCache_kept.owned
  dsimp only
  split
  · exact dropped
  · split
    · exact dropped
    · exact dropped.trans mkdirResolved_owned

theorem writeFile_kept {stored : Nat} :
    OwnerKept num volume (ext2WriteFile src stored volume target).1 := by
  unfold ext2WriteFile
  dsimp only
  apply OwnerKept.alter
  exact fun _ _ => rfl

theorem writeFileAt_kept {offset stored : Nat} :
    OwnerKept num volume (ext2WriteFileAt src offset stored volume target).1 := by
  unfold ext2WriteFileAt
  dsimp only
  split
  · exact .refl
  · split
    · exact .refl
    · dsimp only
      apply OwnerKept.alter
      exact fun _ _ => rfl

section Writing

variable {store : Volume → Nat → Volume × Option Nat} {mayCreate : Bool}
variable (keeps : ∀ volume target, OwnerKept num volume (store volume target).1)
include keeps

theorem writeEntry_kept {existed : Bool} :
    OwnerKept num volume (ext2WriteEntry store volume found existed requester).1 := by
  unfold ext2WriteEntry
  split
  · exact .refl
  · split
    · exact .refl
    · split
      · exact .refl
      · exact keeps volume found.inode

theorem writeThrough_owned :
    Owned requester num volume
      (ext2WriteThrough store mayCreate volume path requester space).1 := by
  unfold ext2WriteThrough
  have dropped : Owned requester num volume volume.dropCache := dropCache_kept.owned
  dsimp only
  split
  · exact dropped
  · next dir resolved =>
      split
      · exact dropped
      · split
        · split
          · exact dropped
          · exact dropped.kept (writeEntry_kept keeps)
        · split
          · exact dropped
          · have creates := dropped.trans (@createFile_owned volume.dropCache num dir requester
              (ext2LeafName path) space)
            split
            · next created outcome =>
                rw [outcome] at creates
                exact creates
            · next created child outcome =>
                rw [outcome] at creates
                split
                · exact creates
                · exact creates.kept (writeEntry_kept keeps)

end Writing

theorem chmod_kept : OwnerKept num volume (ext2Chmod volume path mode requester).1 := by
  unfold ext2Chmod
  dsimp only
  split
  · exact dropCache_kept
  · split
    · exact dropCache_kept
    · split
      · exact dropCache_kept
      · next inode read =>
          split
          · exact dropCache_kept
          · exact dropCache_kept.trans (writeBack_kept read .refl)

/-- `ext2_chown` changes the owner of the inode its path leads to and of no other. -/
theorem chown_kept
    (elsewhere : ∀ found, ext2LookupEntry volume.dropCache path = some found → found.inode ≠ num) :
    OwnerKept num volume (ext2Chown volume path uid requester).1 := by
  unfold ext2Chown
  dsimp only
  split
  · exact dropCache_kept
  · split
    · exact dropCache_kept
    · next found located =>
        split
        · exact dropCache_kept
        · split
          · exact dropCache_kept
          · refine dropCache_kept.trans (writeInode_kept fun same _ => ?_)
            exact absurd same.symm (elsewhere found located)

theorem chown_bitmap :
    (ext2Chown volume path uid requester).1.inodeBitmap = volume.inodeBitmap := by
  unfold ext2Chown
  dsimp only
  repeat' split
  all_goals rfl

theorem readAt_kept {len offset : Nat} :
    OwnerKept num volume (ext2ReadAt volume path len offset).1 := by
  unfold ext2ReadAt
  split
  · exact .refl
  · split
    · exact .refl
    · split
      · exact .refl
      · exact ⟨rfl, id, fun _ _ => rfl⟩

theorem ownerKept_follows : Follows (OwnerKept num) :=
  ⟨.refl, .trans, .alter fun _ _ => rfl, releaseInode_kept, writeBack_kept⟩

theorem deleteResolved_kept :
    OwnerKept num volume (ext2DeleteResolved volume dir target pos mode requester).1 := by
  unfold ext2DeleteResolved
  split
  · exact .refl
  · split
    · exact .refl
    · split
      · exact .refl
      · split
        · exact .refl
        · exact ownerKept_follows.unlink

theorem delete_kept : OwnerKept num volume (ext2Delete volume path requester).1 := by
  unfold ext2Delete
  dsimp only
  split
  · exact dropCache_kept
  · exact dropCache_kept.trans deleteResolved_kept

theorem deleteRecursive_kept : OwnerKept num volume (ext2DeleteRecursive volume path requester).1 :=
  dropCache_kept.trans ownerKept_follows.recursive

theorem reparent_kept {oldParent newParent : Nat} {info : Inode} {start : Volume}
    (read : ext2ReadInode start newParent = some info) (since : OwnerKept num start volume) :
    OwnerKept num start (reparent volume target oldParent newParent info) := by
  have counted := @writeBack_kept volume num info.mode newParent (info.linksCount + 1) info start read since
  refine (counted.trans ?_).trans (writeInode_kept ?_)
  · apply OwnerKept.alter
    exact fun _ _ => rfl
  · rintro rfl small
    exact Nat.mod_eq_of_lt small

theorem rename_kept : OwnerKept num volume (ext2Rename volume path newPath requester space).1 := by
  unfold ext2Rename
  dsimp only
  split
  · exact dropCache_kept
  · next found _ =>
      split
      · exact dropCache_kept
      · split
        · next source newParent _ _ =>
            split
            · exact dropCache_kept
            · split
              · exact dropCache_kept
              · next parent read =>
                  split
                  · exact dropCache_kept
                  · next placed linked =>
                      have links := @placeDirent_kept _ _ num _ _ _ _ linked
                      refine dropCache_kept.trans (OwnerKept.trans ?_ zeroDirent_kept)
                      split
                      · exact reparent_kept read links
                      · exact links
        · exact dropCache_kept

variable {fsd later : Fsd} {message : Message}

/-- The request is an `FS_CHOWN` of the inode. -/
def Chowns (num : Nat) (fsd : Fsd) (message : Message) : Prop :=
  ∃ raw owner found, message.request = .fsChown raw owner ∧
    ext2LookupEntry fsd.volume.dropCache (fsFilename raw) = some found ∧ found.inode = num

theorem fsDispatch_owned (spared : ¬ Chowns num fsd message) :
    Owned message.uid num fsd.volume
      (fsDispatch fsd.volume message.uid message.space message.request).1 := by
  have unchanged : Owned message.uid num fsd.volume fsd.volume := OwnerKept.refl.owned
  obtain ⟨client, uid, space, request⟩ := message
  cases request with
  | fsReadAt =>
    simp only [fsDispatch]
    split
    · exact readAt_kept.owned
    · exact unchanged
  | fsWrite =>
    simp only [fsDispatch]
    split
    · exact unchanged
    · exact writeThrough_owned fun _ _ => writeFile_kept
  | fsWriteAt =>
    simp only [fsDispatch]
    split
    · exact unchanged
    · exact writeThrough_owned fun _ _ => writeFileAt_kept
  | fsDelete =>
    simp only [fsDispatch]
    split
    · exact unchanged
    · split
      · exact deleteRecursive_kept.owned
      · exact delete_kept.owned
  | fsMkdir => exact mkdir_owned
  | fsRename => exact rename_kept.owned
  | fsChmod =>
    simp only [fsDispatch]
    split
    · exact unchanged
    · exact chmod_kept.owned
  | fsChown name owner =>
    simp only [fsDispatch]
    split
    · exact unchanged
    · refine OwnerKept.owned (chown_kept fun found located same => ?_)
      exact spared ⟨name, owner, found, rfl, located, same⟩
  | fsRead =>
    simp only [fsDispatch]
    split <;> exact unchanged
  | fsList =>
    simp only [fsDispatch]
    split <;> exact unchanged
  | fsStat =>
    simp only [fsDispatch]
    split <;> exact unchanged
  | _ => exact unchanged

theorem p9Create_owned {client fid : Nat} {dmdir : Bool} :
    Owned uid num fsd.volume (p9Create fsd client uid space fid dmdir name).1.volume := by
  unfold p9Create
  split
  · have makes : Owned uid num fsd.volume (if dmdir then
          ext2MkdirResolved fsd.volume (fsd.fids fid).inode name uid space
        else ext2CreateFile fsd.volume (fsd.fids fid).inode name uid space).1 := by
      split
      · exact mkdirResolved_owned
      · exact createFile_owned
    dsimp only
    split
    · next outcome =>
        rw [outcome] at makes
        exact makes
    · next outcome =>
        rw [outcome] at makes
        split
        · exact makes
        · unfold p9Created
          split <;> exact makes
  · exact OwnerKept.refl.owned

theorem p9Write_kept {fid offset : Nat} :
    OwnerKept num fsd.volume (p9Write fsd uid space fid offset src).1.volume := by
  unfold p9Write
  split
  · split
    · exact .refl
    · split
      · exact writeFileAt_kept
      · exact .refl
  · exact .refl

theorem p9Remove_kept {fid : Nat} : OwnerKept num fsd.volume (p9Remove fsd uid fid).1.volume := by
  unfold p9Remove
  split
  · dsimp only [Fsd.setFid]
    split
    · split
      · exact .refl
      · exact deleteResolved_kept
    · exact .refl
  · exact .refl

/-- One request: nobody's file changes hands, and what it hands out is its requester's. -/
theorem handle_owned (spared : ¬ Chowns num fsd message) :
    Owned message.uid num fsd.volume (handle fsd message).1.volume := by
  have paths := fsDispatch_owned spared
  have unchanged : Owned message.uid num fsd.volume fsd.volume := OwnerKept.refl.owned
  obtain ⟨client, uid, space, request⟩ := message
  cases request with
  | p9Attach fid =>
    simp only [handle, p9Attach]
    split <;> exact unchanged
  | p9Walk fid newfid name =>
    simp only [handle, p9Walk]
    split
    · split <;> exact unchanged
    · exact unchanged
  | p9Open fid =>
    simp only [handle, p9Open]
    split
    · split
      · exact unchanged
      · split <;> exact unchanged
    · exact unchanged
  | p9Read fid offset count => exact unchanged
  | p9Clunk fid =>
    simp only [handle, p9Clunk]
    split <;> exact unchanged
  | p9Create fid dmdir name => exact p9Create_owned
  | p9Write fid offset data => exact p9Write_kept.owned
  | p9Remove fid => exact p9Remove_kept.owned
  | _ => exact paths

/-- A file keeps its owner over every run without an `FS_CHOWN` of it. -/
theorem run_keeps_owner
    (run : Run.Reach step (fun fsd message => ¬ Chowns num fsd message) fsd later)
    (small : (fsd.volume.inodes num).uid < 65536) :
    fsd.volume.generation num ≤ later.volume.generation num ∧
      (later.volume.inodeBitmap num = true →
        later.volume.generation num = fsd.volume.generation num →
        (later.volume.inodes num).uid = (fsd.volume.inodes num).uid) := by
  induction run with
  | start => exact ⟨Nat.le_refl _, fun _ _ => rfl⟩
  | next _ _ spared stepped ih =>
    simp only [step, Option.some.injEq] at stepped
    subst stepped
    have owned := handle_owned spared
    refine ⟨ih.1.trans owned.grows, fun held same => ?_⟩
    rcases owned.owner held with ⟨still, stood, kept⟩ | ⟨later, _⟩
    · have before := ih.2 stood (still.symm.trans same)
      rw [← before]
      exact kept (by rw [before]; exact small)
    · -- handed out anew: not the same file any more
      omega

/-- What a request makes belongs to its requester, then and for as long as the file
stays and nobody changes its owner, exactly if the uid fits into 16 bits. -/
theorem ownership_follows_requester_iff (fsd later : Fsd) (message : Message) (num : Nat)
    (free : fsd.volume.inodeBitmap num = false)
    (run : Run.Reach step (fun fsd message => ¬ Chowns num fsd message)
      (handle fsd message).1 later)
    (stays : (handle fsd message).1.volume.inodeBitmap num = true ∧
      later.volume.inodeBitmap num = true ∧
      later.volume.generation num = (handle fsd message).1.volume.generation num) :
    OwnedBy (later.volume.inodes num) message.uid ↔ message.uid < 65536 := by
  obtain ⟨made, held, same⟩ := stays
  have spared : ¬ Chowns num fsd message := by
    rintro ⟨raw, owner, found, asked, _, rfl⟩
    have idle : (handle fsd message).1.volume.inodeBitmap = fsd.volume.inodeBitmap := by
      simp only [handle, asked, fsDispatch]
      split
      · rfl
      · exact chown_bitmap
    rw [idle, free] at made
    cases made
  have recorded : ((handle fsd message).1.volume.inodes num).uid = message.uid % 65536 := by
    rcases (handle_owned spared).owner made with ⟨_, stood, _⟩ | ⟨_, owner⟩
    · rw [free] at stood
      cases stood
    · exact owner
  have small : ((handle fsd message).1.volume.inodes num).uid < 65536 := by
    rw [recorded]
    exact Nat.mod_lt _ (by decide)
  have owner := (run_keeps_owner run small).2 held same
  rw [ownedBy_iff, owner, recorded]
  constructor
  · omega
  · exact Nat.mod_eq_of_lt

/-- A user's request that makes the file `a` in an empty root. -/
def makesFile (uid : Nat) : Message := ⟨1, uid, ⟨0, true, true⟩, .fsWrite [97] []⟩

theorem ownership_follows_requester_user :
    OwnedBy ((handle (Fsd.mounted .formatted) (makesFile 1000)).1.volume.inodes 11) 1000 ↔
      1000 < 65536 :=
  ownership_follows_requester_iff (Fsd.mounted .formatted) _ (makesFile 1000) 11 (by decide) .start
    ⟨by decide, by decide, rfl⟩

/-- The user 65537 makes a file: user 1 owns it, and 65537 does not; what 65536 makes is
recorded as root's. -/
theorem wide_uid_truncated :
    (Fsd.mounted .formatted).volume.inodeBitmap 11 = false ∧
      (handle (Fsd.mounted .formatted) (makesFile 65537)).1.volume.inodeBitmap 11 = true ∧
      TreatedAsOwner ((handle (Fsd.mounted .formatted) (makesFile 65537)).1.volume.inodes 11) 1 ∧
      ¬ TreatedAsOwner ((handle (Fsd.mounted .formatted) (makesFile 65537)).1.volume.inodes 11)
        65537 ∧
      ¬ OwnedBy ((handle (Fsd.mounted .formatted) (makesFile 65537)).1.volume.inodes 11) 65537 ∧
      ((handle (Fsd.mounted .formatted) (makesFile 65536)).1.volume.inodes 11).uid = 0 := by
  have owner : ((handle (Fsd.mounted .formatted) (makesFile 65537)).1.volume.inodes 11).uid = 1 := by
    decide
  refine ⟨by decide, by decide, ?_, ?_, ?_, by decide⟩
  · rw [treatedAsOwner_iff (by decide), owner]
  · rw [treatedAsOwner_iff (by decide)]
    decide
  · rw [ownedBy_iff]
    decide

end Racccoon.Ext2
