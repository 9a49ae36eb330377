import Racccoon.Ext2.Fids

/-!
Who gets at a file through the fid requests. A P9_READ trusts the `opened` flag
of the fid, a P9_WRITE and a P9_REMOVE ask again for the requester. `Guarded` is
what access control asks of one request; `OwnFids` is the discipline under which
it holds, that a client only names fids it established itself.
-/

namespace Racccoon.Ext2

def namedFid : Request → Option Nat
  | .p9Walk fid _ _ => some fid
  | .p9Open fid => some fid
  | .p9Read fid _ _ => some fid
  | .p9Clunk fid => some fid
  | .p9Create fid _ _ => some fid
  | .p9Write fid _ _ => some fid
  | .p9Remove fid => some fid
  | _ => none

def isP9 : Request → Bool
  | .p9Attach _ => true
  | request => (namedFid request).isSome

variable (fsd : Fsd) (message : Message)

def OwnFids : Prop :=
  ∀ fid, namedFid message.request = some fid → fidUsed fsd fid = true →
    (fsd.fids fid).owner = message.client

def Disciplined : Prop :=
  isP9 message.request = true ∧ OwnFids fsd message ∧ Undisturbed fsd message

/-- Bytes come back only to a client that passed the read check of that very file; a
write changes only the fid's inode, a removal only that inode, the record that leads
to it and the attributes of its directory, each only if the requester may write it. -/
def Guarded : Prop :=
  match message.request with
  | .p9Read fid offset count => p9Read fsd fid offset count ≠ none →
      ⟨message.client, (fsd.fids fid).inode, fsd.volume.generation (fsd.fids fid).inode⟩ ∈ fsd.passed
  | .p9Write fid offset data =>
    (p9Write fsd message.uid message.space fid offset data).1 ≠ fsd →
    ext2WriteAllowed (fsd.volume.inodes (fsd.fids fid).inode) message.uid = true ∧
      ∃ content, (p9Write fsd message.uid message.space fid offset data).1.volume =
        fsd.volume.alter (fsd.fids fid).inode fun inode => { inode with content := content }
  | .p9Remove fid => (p9Remove fsd message.uid fid).1.volume ≠ fsd.volume →
      ext2WriteAllowed (fsd.volume.inodes (fsd.fids fid).inode) message.uid = true ∧
        Sparing (· = (fsd.fids fid).inode) (fun _ => False) fsd.volume
          (p9Remove fsd message.uid fid).1.volume ∧
        ∀ num, num ≠ (fsd.fids fid).inode →
          ((p9Remove fsd message.uid fid).1.volume.inodes num).content =
            (fsd.volume.inodes num).content ∧
          (num ≠ (fsd.fids fid).parent →
            (p9Remove fsd message.uid fid).1.volume.inodes num = fsd.volume.inodes num)
  | _ => True

def OpenedByOwner : Prop :=
  ∀ fid, fidUsed fsd fid = true → (fsd.fids fid).opened = true →
    ⟨(fsd.fids fid).owner, (fsd.fids fid).inode, (fsd.fids fid).born⟩ ∈ fsd.passed

variable {fsd : Fsd} {volume after : Volume} {entry : Fid} {found : Found}
variable {fid num dir client uid : Nat} {name : List UInt8} {space : Space} {message : Message}

namespace OpenedByOwner

theorem setFid (held : OpenedByOwner fsd) (fid : Nat) (allowed : entry.used = true →
    entry.opened = true → ⟨entry.owner, entry.inode, entry.born⟩ ∈ fsd.passed) :
    OpenedByOwner (fsd.setFid fid entry) := by
  intro other used opened
  simp only [fidUsed, Bool.and_eq_true, Fsd.setFid] at used opened ⊢
  by_cases same : other = fid
  · subst same
    rw [Function.update_self] at used opened ⊢
    exact allowed used.2 opened
  · rw [Function.update_of_ne same] at used opened ⊢
    apply held other _ opened
    simpa [fidUsed] using used

theorem moreChecks (held : OpenedByOwner fsd) (check : Check) :
    OpenedByOwner { fsd with passed := check :: fsd.passed } :=
  fun fid used opened => List.mem_cons_of_mem check (held fid used opened)

end OpenedByOwner

theorem created_readable {inode : Inode} (mode : inode.mode = 0x81A4) :
    ext2ReadAllowed inode uid = true := by
  unfold ext2ReadAllowed
  rw [mode]
  split
  · rfl
  · split <;> decide

theorem createFile_mode (sound : Lives volume dir num true) (vacant : ∀ link ∈
      linksOf (volume.inodes dir).entries.flatten, link.1 ≠ storedName name) {made : Nat}
    (created : ext2CreateFile volume dir name uid space = (after, some made))
    (located : ext2FindInDir after dir name = some found) :
    (after.inodes found.inode).mode = 0x81A4 := by
  rcases @createFile_cases volume dir name uid space with ⟨_, _, failed⟩ | success
  · rw [created] at failed
    cases failed
  · obtain ⟨child, linked, fresh, _, _, mode, placed, _⟩ := success
    rw [created] at placed
    obtain ⟨entries, changed⟩ := placeDirent_changes placed
    dsimp only at changed
    rw [found_is_fresh vacant (fresh.links sound placed) located, changed,
      Volume.alter_inodes_of_ne _ (fresh.apart sound).symm, mode]

theorem p9Create_opened {dmdir : Bool} (sound : FidsSound fsd) (held : OpenedByOwner fsd)
    (vacant : (dmdir = true → ext2FindInDir fsd.volume (fsd.fids fid).inode name = none) →
      ∀ link ∈ linksOf (fsd.volume.inodes (fsd.fids fid).inode).entries.flatten,
        link.1 ≠ storedName name) :
    OpenedByOwner (p9Create fsd client uid space fid dmdir name).1 := by
  unfold p9Create
  split
  · next admitted =>
      simp only [Bool.and_eq_true] at admitted
      have dirLives := (sound fid admitted.1).lives
      rw [admitted.2] at dirLives
      dsimp only
      split
      · exact held
      · next volume made outcome =>
          split
          · exact held
          · next found located =>
              unfold p9Created
              cases dmdir with
              | true =>
                -- a directory does not come back open
                apply held.setFid
                intro _ impossible
                cases impossible
              | false =>
                have mode := createFile_mode dirLives
                  (vacant fun impossible => by cases impossible) outcome located
                have readable : ext2ReadAllowed (volume.inodes found.inode) uid = true :=
                  created_readable mode
                have check : (!false && ext2ReadAllowed ((fsd.withVolume volume).volume.inodes
                    found.inode) uid) = true := readable
                rw [if_pos check]
                have kept : OpenedByOwner (fsd.withVolume volume) := held
                have logged := kept.moreChecks
                  ⟨client, found.inode, volume.generation found.inode⟩
                exact OpenedByOwner.setFid logged fid fun _ _ => List.mem_cons_self
  · exact held

theorem handle_opened (sound : FidsSound fsd) (held : OpenedByOwner fsd)
    (disciplined : Disciplined fsd message) : OpenedByOwner (handle fsd message).1 := by
  obtain ⟨isFid, own, undisturbed⟩ := disciplined
  obtain ⟨client, uid, space, request⟩ := message
  cases request with
  | p9Attach fid =>
    simp only [handle, p9Attach]
    split
    · apply held.setFid
      intro _ impossible
      cases impossible
    · exact held
  | p9Walk fid newfid name =>
    simp only [handle, p9Walk]
    split
    · split
      · exact held
      · apply held.setFid
        intro _ impossible
        cases impossible
    · exact held
  | p9Open fid =>
    simp only [handle, p9Open]
    split
    · next admitted =>
        simp only [Bool.and_eq_true] at admitted
        have generation := (sound fid admitted.1).lives.generation
        have owner := own fid rfl admitted.1
        split
        · exact held
        · split
          · have logged := held.moreChecks ⟨client, (fsd.fids fid).inode,
              fsd.volume.generation (fsd.fids fid).inode⟩
            apply OpenedByOwner.setFid logged fid
            intro _ _
            rw [owner, generation]
            exact List.mem_cons_self
          · exact held
    · exact held
  | p9Read fid offset count => exact held
  | p9Clunk fid =>
    simp only [handle, p9Clunk]
    split
    · apply held.setFid
      intro impossible
      cases impossible
    · exact held
  | p9Create fid dmdir name => exact p9Create_opened sound held undisturbed
  | p9Write fid offset data =>
    simp only [handle, p9Write]
    split
    · split
      · exact held
      · split <;> exact held
    · exact held
  | p9Remove fid =>
    simp only [handle, p9Remove]
    split
    · apply OpenedByOwner.setFid held
      intro impossible
      cases impossible
    · exact held
  | _ => cases isFid

/-- The bytes of every inode but the removed one stay, and of the inodes that are
neither it nor its directory everything stays. -/
theorem unlinkEntry_others {pos : DirentPos} {parent : Nat} {directory : Bool}
    (inParent : pos.dir = parent) (other : Nat) (apart : other ≠ num) :
    ((unlinkEntry volume parent num pos directory).1.inodes other).content =
        (volume.inodes other).content ∧
      (other ≠ parent →
        (unlinkEntry volume parent num pos directory).1.inodes other = volume.inodes other) := by
  have released : ∀ start : Volume, (releaseInode start num).inodes other = start.inodes other := by
    intro start
    change (ext2ZeroInode start num).inodes other = _
    rw [ext2ZeroInode, Volume.setInode_inodes_of_ne _ apart]
  have cleared : ((ext2ZeroDirent volume pos).inodes other).content =
        (volume.inodes other).content ∧
      (other ≠ parent → (ext2ZeroDirent volume pos).inodes other = volume.inodes other) := by
    subst inParent
    by_cases same : other = pos.dir
    · subst same
      refine ⟨?_, fun away => absurd rfl away⟩
      rw [ext2ZeroDirent, Volume.alter_inodes_self]
    · rw [ext2ZeroDirent, Volume.alter_inodes_of_ne _ same]
      exact ⟨rfl, fun _ => rfl⟩
  unfold unlinkEntry
  dsimp only
  split
  · split
    · exact cleared
    · next parentInode read =>
        rw [released]
        by_cases same : other = parent
        · subst same
          rw [dropLink, ext2WriteInode, Volume.alter_inodes_self]
          exact ⟨cleared.1, fun away => absurd rfl away⟩
        · rw [dropLink, ext2WriteInode, Volume.alter_inodes_of_ne _ same]
          exact cleared
  · rw [released]
    exact cleared

theorem p9Remove_guarded (sound : FidsSound fsd)
    (changed : (p9Remove fsd uid fid).1.volume ≠ fsd.volume) :
    ext2WriteAllowed (fsd.volume.inodes (fsd.fids fid).inode) uid = true ∧
      Sparing (· = (fsd.fids fid).inode) (fun _ => False) fsd.volume
        (p9Remove fsd uid fid).1.volume ∧
      ∀ num, num ≠ (fsd.fids fid).inode →
        ((p9Remove fsd uid fid).1.volume.inodes num).content = (fsd.volume.inodes num).content ∧
        (num ≠ (fsd.fids fid).parent →
          (p9Remove fsd uid fid).1.volume.inodes num = fsd.volume.inodes num) := by
  unfold p9Remove at changed ⊢
  split at changed
  · next admitted =>
      rw [if_pos admitted]
      simp only [Bool.and_eq_true] at admitted
      dsimp only [Fsd.setFid] at changed ⊢
      split at changed
      · next linked =>
          obtain ⟨_, inParent, _, names⟩ := (sound fid admitted.1).entry linked
          rw [if_pos linked]
          split at changed
          · exact absurd rfl changed
          · next inode read =>
              obtain ⟨allowed, empty⟩ := deleteResolved_accepted changed
              have clears : Sparing (· = (fsd.fids fid).inode) (fun _ => False) fsd.volume
                  (ext2ZeroDirent fsd.volume (fsd.fids fid).entry) :=
                zeroDirent_sparing fun _ _ leads => leads.unique names
              refine ⟨allowed, deleteResolved_sparing clears rfl, ?_⟩
              intro other away
              unfold ext2DeleteResolved
              split
              · exact ⟨rfl, fun _ => rfl⟩
              · rw [read]
                dsimp only
                split
                · exact ⟨rfl, fun _ => rfl⟩
                · split
                  · exact ⟨rfl, fun _ => rfl⟩
                  · exact unlinkEntry_others inParent other away
      · exact absurd rfl changed
  · exact absurd rfl changed

theorem p9Write_guarded {offset : Nat} {data : List UInt8}
    (changed : (p9Write fsd uid space fid offset data).1 ≠ fsd) :
    ext2WriteAllowed (fsd.volume.inodes (fsd.fids fid).inode) uid = true ∧
      ∃ content, (p9Write fsd uid space fid offset data).1.volume =
        fsd.volume.alter (fsd.fids fid).inode fun inode => { inode with content := content } := by
  unfold p9Write at changed ⊢
  split at changed
  · next admitted =>
      rw [if_pos admitted]
      split at changed
      · exact absurd rfl changed
      · next inode read =>
          obtain ⟨_, rfl⟩ := ext2ReadInode_eq read
          split at changed
          · next allowed =>
              rw [if_pos allowed]
              refine ⟨allowed, ?_⟩
              unfold ext2WriteFileAt
              dsimp only [Fsd.withVolume]
              split
              · exact ⟨(fsd.volume.inodes (fsd.fids fid).inode).content, by
                  simp [Volume.alter, Volume.setInode]⟩
              · split
                · exact ⟨(fsd.volume.inodes (fsd.fids fid).inode).content, by
                    simp [Volume.alter, Volume.setInode]⟩
                · exact ⟨_, rfl⟩
          · exact absurd rfl changed
  · exact absurd rfl changed

/-- Access control over the fid requests: in every run of clients that stay with their
own fids, every request is guarded. -/
theorem p9_access_control (volume : Volume) (fsd : Fsd)
    (run : Run.Reach step Disciplined (Fsd.mounted volume) fsd) (message : Message)
    (disciplined : Disciplined fsd message) : Guarded fsd message := by
  have invariant : FidsSound fsd ∧ OpenedByOwner fsd := by
    apply run.invariant (fun state => FidsSound state ∧ OpenedByOwner state)
    · refine ⟨mounted_sound volume, fun fid used _ => ?_⟩
      simp [fidUsed, Fsd.mounted, Fid.free] at used
    · intro before message after holds disciplined stepped
      simp only [step, Option.some.injEq] at stepped
      subst stepped
      exact ⟨handle_sound holds.1 disciplined.2.2, handle_opened holds.1 holds.2 disciplined⟩
  obtain ⟨sound, opened⟩ := invariant
  obtain ⟨_, own, _⟩ := disciplined
  obtain ⟨client, uid, space, request⟩ := message
  cases request with
  | p9Read fid offset count =>
    intro answered
    unfold p9Read at answered
    split at answered
    · next admitted =>
        simp only [Bool.and_eq_true] at admitted
        have check := opened fid admitted.1 admitted.2
        have owner := own fid rfl admitted.1
        rw [(sound fid admitted.1).lives.generation, ← owner]
        exact check
    · exact absurd rfl answered
  | p9Write fid offset data => exact p9Write_guarded
  | p9Remove fid => exact p9Remove_guarded sound
  | _ => trivial

theorem p9_access_control_own :
    ∃ fsd, Run.Reach step Disciplined (Fsd.mounted .formatted) fsd ∧
      Guarded fsd ⟨1, 1000, grant, .p9Read 0 0 8⟩ ∧ p9Read fsd 0 0 8 = some [] := by
  have opening : Disciplined (Fsd.mounted .formatted) ⟨1, 1000, grant, .p9Attach 0⟩ := by
    refine ⟨rfl, ?_, ⟨rfl, by decide⟩⟩
    intro fid impossible
    cases impossible
  have attached : Run.Reach step Disciplined (Fsd.mounted .formatted)
      (handle (Fsd.mounted .formatted) ⟨1, 1000, grant, .p9Attach 0⟩).1 :=
    .next ⟨1, 1000, grant, .p9Attach 0⟩ .start opening rfl
  have ownsRoot : OwnFids (handle (Fsd.mounted .formatted) ⟨1, 1000, grant, .p9Attach 0⟩).1
      ⟨1, 1000, grant, .p9Create 0 false [97]⟩ := by
    rintro _ ⟨⟩ _
    rfl
  have vacant : Undisturbed (handle (Fsd.mounted .formatted) ⟨1, 1000, grant, .p9Attach 0⟩).1
      ⟨1, 1000, grant, .p9Create 0 false [97]⟩ := by
    intro _
    decide
  have run := Run.Reach.next ⟨1, 1000, grant, .p9Create 0 false [97]⟩ attached
    ⟨rfl, ownsRoot, vacant⟩ rfl
  refine ⟨_, run, p9_access_control .formatted _ run ⟨1, 1000, grant, .p9Read 0 0 8⟩
    ⟨rfl, ?_, trivial⟩, by decide⟩
  rintro _ ⟨⟩ _
  decide

/-- A formatted volume with a file `k` of root's that only root may read. -/
def Volume.private : Volume :=
  { Volume.formatted with
    inodes := fun num =>
      if num = ext2RootInode then
        ⟨0x41ED, 0, 2, [], [[⟨2, 12, dot, dot_holds, dot_short⟩,
          ⟨2, 12, dotdot, dotdot_holds, dotdot_short⟩,
          ⟨11, 1000, [107], by decide, by decide⟩]]⟩
      else if num = 11 then ⟨0x8180, 0, 1, [120], []⟩
      else .blank
    inodeBitmap := fun num => num ≤ 11 }

/-- Root walks to `k` and opens it; another user then reads it through root's fid,
although the read check refuses that user. -/
theorem other_client_reads :
    ∃ fsd, Run.Reach step (fun _ message => isP9 message.request = true)
        (Fsd.mounted .private) fsd ∧
      ext2ReadAllowed (fsd.volume.inodes (fsd.fids 1).inode) 1000 = false ∧
      p9Read fsd 1 0 8 = some [120] ∧ ¬ Guarded fsd ⟨2, 1000, grant, .p9Read 1 0 8⟩ := by
  let requests : List Message := [⟨1, 0, grant, .p9Attach 0⟩, ⟨1, 0, grant, .p9Walk 0 1 [107]⟩,
    ⟨1, 0, grant, .p9Open 1⟩]
  refine ⟨Run.outcome step (fun _ message => isP9 message.request = true) (Fsd.mounted .private)
    requests, Run.outcome_reach requests _ (by decide), by decide,
    by decide, ?_⟩
  intro guarded
  have check := guarded (by decide)
  revert check
  decide

end Racccoon.Ext2
