import Racccoon.Ext2.Operations

/-!
The frames of removals. A directory's children are the inodes its live records
other than `.` and `..` lead to, and what lies `Within` a directory is what is
reached from it through children. A recursive delete frees at most that. Its
recursion is followed with two facts: what it spares, and that it only ever takes
children away (`Shrinks`), so that what a later step frees lay inside the
directory from the start. A rename moves one record, or two when a directory
changes its parent.
-/

namespace Racccoon.Ext2

open Tiling

variable {volume before middle after : Volume} {num parent dir child block : Nat}
variable {path newPath : List UInt8} {requester mode : Nat} {space : Space}
variable {pos : DirentPos} {freed : Nat → Prop} {moved : DirentPos → Prop} {found : Found}

/-- A relation that each write of a deletion keeps, so that it follows the whole deletion. -/
structure Follows (keeps : Volume → Volume → Prop) : Prop where
  refl : ∀ {volume}, keeps volume volume
  trans : ∀ {before middle after}, keeps before middle → keeps middle after → keeps before after
  entries : ∀ {volume dir} {change : List (List Dirent) → List (List Dirent)},
    keeps volume (volume.alter dir fun inode => { inode with entries := change inode.entries })
  release : ∀ {volume num}, keeps volume (releaseInode volume num)
  relink : ∀ {start after dir info mode links}, ext2ReadInode start dir = some info →
    keeps start after → keeps start (ext2WriteInode after dir mode info.uid links)

section Follows
variable {keeps : Volume → Volume → Prop} {empty : Volume → Nat → Volume × Bool}

section
variable (follows : Follows keeps)
include follows

theorem Follows.unlink {directory : Bool} :
    keeps volume (unlinkEntry volume dir num pos directory).1 := by
  have cleared : keeps volume (ext2ZeroDirent volume pos) :=
    @Follows.entries _ follows volume pos.dir fun entries =>
      editAt Dirent.cleared entries pos.block pos.offset
  unfold unlinkEntry
  dsimp only
  split
  · split
    · exact cleared
    · next parent read =>
        exact follows.trans (follows.trans cleared (follows.relink read follows.refl)) follows.release
  · exact follows.trans cleared follows.release

theorem Follows.records (empties : ∀ volume num, keeps volume (empty volume num).1)
    (links offset : Nat) (records : List Dirent) (volume : Volume) :
    keeps volume (deleteRecords empty requester dir block volume links offset records).1 := by
  induction records generalizing volume links offset with
  | nil => exact follows.refl
  | cons entry _ ih =>
    simp only [deleteRecords]
    split
    · have tail := ih links (offset + entry.recLen) volume
      split
      · next same =>
          rw [same] at tail
          exact tail
      · next same =>
          rw [same] at tail
          exact tail
    · split
      · exact follows.refl
      · split
        · exact follows.refl
        · next child _ =>
            split
            · exact follows.refl
            · have inner : keeps volume (if isDir child.mode then empty volume entry.inode
                  else (volume, true)).1 := by
                split
                · exact empties volume entry.inode
                · exact follows.refl
              split
              · next same =>
                  rw [same] at inner
                  exact inner
              · next emptied same =>
                  rw [same] at inner
                  have both := follows.trans (follows.trans inner follows.release)
                    (ih (if isDir child.mode then links - 1 else links) (offset + entry.recLen)
                      (releaseInode emptied entry.inode))
                  split
                  · next same =>
                      rw [same] at both
                      exact both
                  · next same =>
                      rw [same] at both
                      exact both

theorem Follows.blocks (empties : ∀ volume num, keeps volume (empty volume num).1)
    (count links block : Nat) (volume : Volume) :
    keeps volume (deleteBlocks empty requester dir count volume links block).1 := by
  induction count generalizing volume links block with
  | zero => exact follows.refl
  | succ _ ih =>
    simp only [deleteBlocks]
    have records := @Follows.records dir block requester keeps empty follows empties links 0
      (((volume.inodes dir).entries[block]?).getD []) volume
    split
    · next same =>
        rw [same] at records
        exact records
    · next after left kept same =>
        rw [same] at records
        exact follows.trans (follows.trans records
          (@Follows.entries _ follows after dir fun entries => entries.set block kept))
          (ih left (block + 1) _)

theorem Follows.contents (requester fuel : Nat) (volume : Volume) (dir : Nat) :
    keeps volume (ext2DeleteDirContents requester fuel volume dir).1 := by
  induction fuel generalizing volume dir with
  | zero => exact follows.refl
  | succ _ ih =>
    simp only [ext2DeleteDirContents]
    split
    · exact follows.refl
    · next info read =>
        have blocks := @Follows.blocks dir requester keeps _ follows ih info.entries.length
          info.linksCount 0 volume
        split
        · next same =>
            rw [same] at blocks
            exact blocks
        · next same =>
            rw [same] at blocks
            exact follows.relink read blocks

theorem Follows.recursive :
    keeps volume.dropCache (ext2DeleteRecursive volume path requester).1 := by
  unfold ext2DeleteRecursive
  dsimp only
  split
  · exact follows.refl
  · next found _ =>
      split
      · exact follows.refl
      · split
        · exact follows.refl
        · split
          · exact follows.refl
          · have inner : keeps volume.dropCache (if isDir found.mode
                then ext2DeleteDirContents requester ext2MaxDeleteDepth volume.dropCache found.inode
                else (volume.dropCache, true)).1 := by
              split
              · exact follows.contents _ _ volume.dropCache _
              · exact follows.refl
            split
            · next same =>
                rw [same] at inner
                exact inner
            · next emptied same =>
                rw [same] at inner
                exact follows.trans inner follows.unlink

end

end Follows

def Link (volume : Volume) (pos : DirentPos) (name : List UInt8) (child : Nat) : Prop :=
  ∃ entry, entryAt (volume.inodes pos.dir).entries pos.block pos.offset = some entry ∧
    entry.name = name ∧ entry.inode = child ∧ child ≠ 0

def Child (volume : Volume) (dir child : Nat) : Prop :=
  ∃ pos name, pos.dir = dir ∧ name ≠ dot ∧ name ≠ dotdot ∧ Link volume pos name child

inductive Within (volume : Volume) (top : Nat) : Nat → Prop where
  | top : Within volume top top
  | child {dir child : Nat} (inside : Within volume top dir) (link : Child volume dir child) :
      Within volume top child

def Shrinks (before after : Volume) : Prop :=
  ∀ pos name child, Link after pos name child → Link before pos name child

theorem Shrinks.refl : Shrinks volume volume := fun _ _ _ link => link

theorem Shrinks.trans (first : Shrinks before middle) (second : Shrinks middle after) :
    Shrinks before after :=
  fun pos name child link => first pos name child (second pos name child link)

theorem Within.shrinks (shrinks : Shrinks before after) (inside : Within after parent num) :
    Within before parent num := by
  induction inside with
  | top => exact .top
  | child _ link ih =>
    obtain ⟨pos, name, same, notDot, notDotdot, leads⟩ := link
    exact .child ih ⟨pos, name, same, notDot, notDotdot, shrinks _ _ _ leads⟩

theorem Within.trans (outer : Within volume parent dir) (inner : Within volume dir num) :
    Within volume parent num := by
  induction inner with
  | top => exact outer
  | child _ link ih => exact .child ih link

/-- An edit of one inode that adds no record. -/
theorem alter_shrinks {change : Inode → Inode}
    (fewer : ∀ block offset entry,
      entryAt (change (volume.inodes num)).entries block offset = some entry → entry.inode ≠ 0 →
      entryAt (volume.inodes num).entries block offset = some entry) :
    Shrinks volume (volume.alter num change) := by
  rintro pos name child ⟨entry, stands, named, leads, live⟩
  by_cases same : pos.dir = num
  · subst same
    rw [Volume.alter_inodes_self] at stands
    exact ⟨entry, fewer _ _ entry stands (leads ▸ live), named, leads, live⟩
  · rw [Volume.alter_inodes_of_ne _ same] at stands
    exact ⟨entry, stands, named, leads, live⟩

theorem writeInode_shrinks {uid links : Nat} :
    Shrinks volume (ext2WriteInode volume num mode uid links) := by
  apply alter_shrinks
  exact fun _ _ _ stands _ => stands

theorem releaseInode_shrinks : Shrinks volume (releaseInode volume num) := by
  have zeroed : Shrinks volume (volume.alter num fun _ => .blank) := by
    apply alter_shrinks
    intro block offset entry stands _
    simp [entryAt, Inode.blank] at stands
  exact zeroed

theorem dropLink_read {parentInode : Inode} (read : ext2ReadInode volume dir = some parentInode) :
    Harmless volume (dropLink volume dir parentInode) := by
  obtain ⟨_, rfl⟩ := ext2ReadInode_eq read
  exact dropLink_harmless

section
variable (clears : Sparing freed moved volume (ext2ZeroDirent volume pos)) (gone : freed num)
include clears gone

theorem unlinkEntry_sparing {directory : Bool} :
    Sparing freed moved volume (unlinkEntry volume dir num pos directory).1 := by
  have release : ∀ start, Sparing freed moved start (releaseInode start num) := by
    intro start
    exact releaseInode_sparing.mono (fun _ same => same ▸ gone) fun _ same => same
  unfold unlinkEntry
  dsimp only
  split
  · split
    · exact clears
    · next parentInode read =>
        exact (clears.trans (dropLink_read read).weaken).trans (release _)
  · exact clears.trans (release _)

theorem deleteResolved_sparing :
    Sparing freed moved volume (ext2DeleteResolved volume dir num pos mode requester).1 := by
  unfold ext2DeleteResolved
  split
  · exact .refl
  · split
    · exact .refl
    · split
      · exact .refl
      · split
        · exact .refl
        · exact unlinkEntry_sparing clears gone

end

def Empties (empty : Volume → Nat → Volume × Bool) : Prop :=
  ∀ volume dir, Sparing (Within volume dir) (fun _ => False) volume (empty volume dir).1 ∧
    Shrinks volume (empty volume dir).1

section Recursion

variable {empty : Volume → Nat → Volume × Bool} (empties : Empties empty)
include empties

theorem deleteRecords_spec (freed : Nat → Prop) (moved : DirentPos → Prop)
    (requester dir block : Nat) (volume : Volume) (links offset : Nat) (records : List Dirent)
    (covers : ∀ entry ∈ records, entry.inode ≠ 0 → isDots entry = false →
      ∀ target, Within volume entry.inode target → freed target) :
    Sparing freed moved volume
        (deleteRecords empty requester dir block volume links offset records).1 ∧
      Shrinks volume (deleteRecords empty requester dir block volume links offset records).1 ∧
      ∀ left kept, (deleteRecords empty requester dir block volume links offset records).2 =
        some (left, kept) → ∀ place entry, recordAt Dirent.recLen kept place = some entry →
          entry.inode ≠ 0 → recordAt Dirent.recLen records place = some entry := by
  induction records generalizing volume links offset with
  | nil =>
    refine ⟨.refl, .refl, ?_⟩
    intro left kept outcome place entry stands _
    cases outcome
    cases stands
  | cons first rest ih =>
    have coversRest : ∀ later, Shrinks volume later → ∀ entry ∈ rest, entry.inode ≠ 0 →
        isDots entry = false → ∀ target, Within later entry.inode target → freed target :=
      fun later shrinks entry member live named target inside =>
        covers entry (List.mem_cons_of_mem first member) live named target
          (inside.shrinks shrinks)
    simp only [deleteRecords]
    split
    · next skipped =>
        have tail := ih volume links (offset + first.recLen) (coversRest volume .refl)
        split
        · next final left kept outcome =>
            rw [outcome] at tail
            refine ⟨tail.1, tail.2.1, ?_⟩
            intro _ _ same place entry stands live
            cases same
            simp only [recordAt] at stands ⊢
            by_cases front : place = 0
            · simpa [front] using stands
            · by_cases cut : place < first.recLen
              · simp [front, cut] at stands
              · simp only [front, cut] at stands ⊢
                exact tail.2.2 left kept rfl _ entry stands live
        · next final outcome =>
            rw [outcome] at tail
            exact ⟨tail.1, tail.2.1, fun _ _ impossible => by cases impossible⟩
    · next kept =>
        simp only [not_or, Bool.not_eq_true] at kept
        obtain ⟨live, named⟩ := kept
        have inFreed := covers first List.mem_cons_self live named
        split
        · exact ⟨.refl, .refl, fun _ _ impossible => by cases impossible⟩
        · split
          · exact ⟨.refl, .refl, fun _ _ impossible => by cases impossible⟩
          · next childInode read =>
              split
              · exact ⟨.refl, .refl, fun _ _ impossible => by cases impossible⟩
              · -- a directory is emptied first; either way the child is freed afterwards
                have emptied : ∀ outcome, (if isDir childInode.mode
                    then empty volume first.inode else (volume, true)) = outcome →
                    Sparing freed moved volume outcome.1 ∧ Shrinks volume outcome.1 := by
                  rintro _ rfl
                  split
                  · have call := empties volume first.inode
                    exact ⟨call.1.mono inFreed fun _ impossible => impossible.elim, call.2⟩
                  · exact ⟨.refl, .refl⟩
                split
                · next final outcome =>
                    have call := emptied _ outcome
                    exact ⟨call.1, call.2, fun _ _ impossible => by cases impossible⟩
                · next bare outcome =>
                    have call := emptied _ outcome
                    have released : Sparing freed moved bare (releaseInode bare first.inode) :=
                      releaseInode_sparing.mono (fun _ same => same ▸ inFreed _ .top)
                        fun _ same => same
                    have upto := call.1.trans released
                    have shrunk := call.2.trans (@releaseInode_shrinks bare first.inode)
                    have tail := ih (releaseInode bare first.inode)
                      (if isDir childInode.mode then links - 1 else links)
                      (offset + first.recLen) (coversRest _ shrunk)
                    split
                    · next final left kept outcome =>
                        rw [outcome] at tail
                        refine ⟨upto.trans tail.1, shrunk.trans tail.2.1, ?_⟩
                        intro _ _ same place entry stands remains
                        cases same
                        simp only [recordAt, Dirent.cleared_recLen] at stands ⊢
                        by_cases front : place = 0
                        · simp only [front, ↓reduceIte, Option.some.injEq] at stands
                          subst stands
                          exact absurd rfl remains
                        · by_cases cut : place < first.recLen
                          · simp [front, cut] at stands
                          · simp only [front, cut] at stands ⊢
                            exact tail.2.2 left kept rfl _ entry stands remains
                    · next final outcome =>
                        rw [outcome] at tail
                        exact ⟨upto.trans tail.1, shrunk.trans tail.2.1,
                          fun _ _ impossible => by cases impossible⟩

theorem deleteBlocks_spec (freed : Nat → Prop) (moved : DirentPos → Prop)
    (requester dir : Nat) (volume : Volume) (links block count : Nat)
    (covers : ∀ target, Within volume dir target → freed target) :
    Sparing freed moved volume (deleteBlocks empty requester dir count volume links block).1 ∧
      Shrinks volume (deleteBlocks empty requester dir count volume links block).1 := by
  induction count generalizing volume links block with
  | zero => exact ⟨.refl, .refl⟩
  | succ _ ih =>
    simp only [deleteBlocks]
    have inBlock : ∀ entry ∈ ((volume.inodes dir).entries[block]?).getD [], ∃ offset,
        entryAt (volume.inodes dir).entries block offset = some entry := by
      intro entry member
      cases present : (volume.inodes dir).entries[block]? with
      | none => simp [present] at member
      | some =>
        obtain ⟨offset, stands⟩ := exists_recordAt Dirent.recLen_pos member
        exact ⟨offset, by simpa [entryAt, present] using stands⟩
    have records := deleteRecords_spec empties freed moved requester dir block volume links 0
      (((volume.inodes dir).entries[block]?).getD []) (by
        intro entry member live named target inside
        obtain ⟨offset, stands⟩ := inBlock entry member
        simp only [isDots, Bool.or_eq_false_iff, decide_eq_false_iff_not] at named
        apply covers
        exact Within.trans (.child .top ⟨⟨dir, block, offset⟩, entry.name, rfl, named.1, named.2,
          entry, stands, rfl, rfl, live⟩) inside)
    split
    · next final outcome =>
        rw [outcome] at records
        exact ⟨records.1, records.2.1⟩
    · next partway left kept outcome =>
        rw [outcome] at records
        have cleared := records.2.2 left kept rfl
        have stored : Sparing freed moved partway (partway.alter dir fun inode =>
            { inode with entries := inode.entries.set block kept }) := by
          constructor
          · intro other born directory lives _
            refine ⟨lives.allocated, lives.generation, ?_⟩
            by_cases same : other = dir
            · subst same
              rw [Volume.alter_inodes_self]
              exact lives.kind
            · rw [Volume.alter_inodes_of_ne _ same]
              exact lives.kind
          · -- the directory itself is given up, so only other directories matter
            intro place target _ names _ _ keptDir _
            have apart : place.dir ≠ dir := fun same => keptDir (same ▸ covers dir .top)
            unfold Names
            rw [Volume.alter_inodes_of_ne _ apart]
            exact names
        -- the buffer is compared with the block as it was read, not as it is by now
        have soFar : Shrinks volume (partway.alter dir fun inode =>
            { inode with entries := inode.entries.set block kept }) := by
          rintro place name child ⟨entry, stands, named, leads, live⟩
          by_cases here : place.dir = dir ∧ block = place.block
          · obtain ⟨rfl, rfl⟩ := here
            rw [Volume.alter_inodes_self, entryAt, List.getElem?_set_self'] at stands
            obtain ⟨records, present, inside⟩ := Option.bind_eq_some_iff.mp stands
            obtain ⟨_, _, rfl⟩ := Option.map_eq_some_iff.mp present
            have was := cleared place.offset entry inside (leads ▸ live)
            cases present : (volume.inodes place.dir).entries[place.block]? with
            | none => simp [present, recordAt] at was
            | some =>
              exact ⟨entry, by simpa [entryAt, present] using was, named, leads, live⟩
          · apply records.2.1
            refine ⟨entry, ?_, named, leads, live⟩
            by_cases same : place.dir = dir
            · subst same
              have apart : block ≠ place.block := fun match_block => here ⟨rfl, match_block⟩
              rw [Volume.alter_inodes_self, entryAt, List.getElem?_set_ne apart] at stands
              exact stands
            · rw [Volume.alter_inodes_of_ne _ same] at stands
              exact stands
        have tail := ih (partway.alter dir fun inode =>
          { inode with entries := inode.entries.set block kept }) left (block + 1)
          fun target inside => covers target (inside.shrinks soFar)
        exact ⟨(records.1.trans stored).trans tail.1, soFar.trans tail.2⟩

end Recursion

theorem deleteDirContents_empties (requester fuel : Nat) :
    Empties (ext2DeleteDirContents requester fuel) := by
  induction fuel with
  | zero => exact fun _ _ => ⟨.refl, .refl⟩
  | succ _ ih =>
    intro volume dir
    simp only [ext2DeleteDirContents]
    split
    · exact ⟨.refl, .refl⟩
    · next info read =>
        have blocks := deleteBlocks_spec ih (Within volume dir) (fun _ => False) requester dir
          volume info.linksCount 0 info.entries.length fun _ inside => inside
        split
        · next final outcome =>
            rw [outcome] at blocks
            exact blocks
        · next final links outcome =>
            rw [outcome] at blocks
            refine ⟨blocks.1.trans ?_, blocks.2.trans writeInode_shrinks⟩
            -- only the directory itself gets its old attributes back, and it is given up
            constructor
            · intro other born directory lives kept
              have apart : other ≠ dir := fun same => kept (same ▸ .top)
              refine ⟨lives.allocated, lives.generation, ?_⟩
              rw [ext2WriteInode, Volume.alter_inodes_of_ne _ apart]
              exact lives.kind
            · intro place target _ names _ _ keptDir _
              have apart : place.dir ≠ dir := fun same => keptDir (same ▸ .top)
              unfold Names
              rw [ext2WriteInode, Volume.alter_inodes_of_ne _ apart]
              exact names

/-- The inodes a delete request may give up, as the volume stands before it. -/
def Removes (volume : Volume) (path : List UInt8) (recursive : Bool) (requester num : Nat) : Prop :=
  ∃ found, ext2LookupEntry volume path = some found ∧
    ext2WriteAllowed (volume.inodes found.inode) requester = true ∧
    if recursive = true ∧ isDir found.mode = true then Within volume found.inode num
    else num = found.inode ∧
      (isDir found.mode = true → recursive = false →
        ext2DirIsEmpty (volume.inodes found.inode) = true)

/-- The records a rename request may rewrite: the one that carries the old name
and, when a directory gets another parent, its `..`. -/
def Moves (volume : Volume) (path newPath : List UInt8) (requester : Nat) (pos : DirentPos) :
    Prop :=
  ∃ found newParent, ext2LookupEntry volume path = some found ∧
    ext2ResolveDir volume newPath = some newParent ∧
    ext2WriteAllowed (volume.inodes found.inode) requester = true ∧
    ext2FindInDir volume newParent (ext2LeafName newPath) = none ∧
    (pos = found.pos ∨
      isDir found.mode = true ∧ newParent ≠ found.pos.dir ∧ pos = dotdotPos found.inode)

theorem findInDir_dropCache (dir : Nat) (name : List UInt8) :
    ext2FindInDir volume.dropCache dir name = ext2FindInDir volume dir name := rfl

theorem resolveFrom_dropCache (dir : Nat) (segment path : List UInt8) :
    resolveFrom volume.dropCache dir segment path = resolveFrom volume dir segment path := by
  induction path generalizing dir segment with
  | nil => rfl
  | cons _ _ ih => simp only [resolveFrom, findInDir_dropCache, ih]

theorem resolveDir_dropCache : ext2ResolveDir volume.dropCache path = ext2ResolveDir volume path :=
  resolveFrom_dropCache _ _ _

theorem lookupEntry_dropCache :
    ext2LookupEntry volume.dropCache path = ext2LookupEntry volume path := by
  simp only [ext2LookupEntry, ext2Lookup, resolveDir_dropCache, findInDir_dropCache]

theorem names_of_lookup (located : ext2LookupEntry volume path = some found) :
    Names volume found.pos found.inode := by
  obtain ⟨dir, _, inDir⟩ := ext2LookupEntry_spec located
  exact (ext2FindInDir_spec inDir).2.2.1

theorem mode_of_lookup (located : ext2LookupEntry volume path = some found) :
    found.mode = (volume.inodes found.inode).mode := by
  obtain ⟨dir, _, inDir⟩ := ext2LookupEntry_spec located
  exact (ext2FindInDir_spec inDir).2.2.2.1

theorem delete_sparing :
    Sparing (Removes volume path false requester) moved volume
      (ext2Delete volume path requester).1 := by
  unfold ext2Delete
  refine dropCache_harmless.weaken.trans ?_
  simp only [lookupEntry_dropCache]
  split
  · exact .refl
  · next found located =>
      -- a refused delete changes nothing, an accepted one gives up the inode it found
      unfold ext2DeleteResolved
      split
      · exact .refl
      · split
        · exact .refl
        · next inode read =>
            obtain ⟨_, rfl⟩ := ext2ReadInode_eq read
            split
            · exact .refl
            · next allowed =>
                split
                · exact .refl
                · next accepted =>
                    have gone : Removes volume path false requester found.inode := by
                      refine ⟨found, located, by simpa using allowed, ?_⟩
                      simp only [Bool.false_eq_true]
                      refine ⟨trivial, fun directory _ => ?_⟩
                      simpa [directory] using accepted
                    have standing := names_of_lookup located
                    have clears : Sparing (· = found.inode) moved volume.dropCache
                        (ext2ZeroDirent volume.dropCache found.pos) :=
                      zeroDirent_sparing fun _ _ names => names.unique standing
                    exact unlinkEntry_sparing
                      (clears.mono (fun _ same => same ▸ gone) fun _ same => same) gone

theorem deleteRecursive_sparing :
    Sparing (Removes volume path true requester) moved volume
      (ext2DeleteRecursive volume path requester).1 := by
  unfold ext2DeleteRecursive
  refine dropCache_harmless.weaken.trans ?_
  simp only [lookupEntry_dropCache]
  split
  · exact .refl
  · next found located =>
      split
      · exact .refl
      · split
        · exact .refl
        · next inode read =>
            obtain ⟨_, rfl⟩ := ext2ReadInode_eq read
            split
            · exact .refl
            · next allowed =>
                simp only [Bool.not_eq_true, Bool.not_eq_false'] at allowed
                have gone : Removes volume path true requester found.inode := by
                  refine ⟨found, located, allowed, ?_⟩
                  split
                  · exact .top
                  · exact ⟨rfl, fun _ impossible => by cases impossible⟩
                have inside : isDir found.mode = true → ∀ num,
                    Within volume.dropCache found.inode num →
                    Removes volume path true requester num := by
                  intro directory num within
                  refine ⟨found, located, allowed, ?_⟩
                  rw [if_pos ⟨rfl, directory⟩]
                  have same : Shrinks volume volume.dropCache := fun _ _ _ link => link
                  exact within.shrinks same
                have emptied : ∀ outcome, (if isDir found.mode
                    then ext2DeleteDirContents requester ext2MaxDeleteDepth volume.dropCache
                      found.inode
                    else (volume.dropCache, true)) = outcome →
                    Sparing (Removes volume path true requester) moved volume.dropCache
                      outcome.1 ∧ Shrinks volume.dropCache outcome.1 := by
                  rintro _ rfl
                  split
                  · next directory =>
                      have call := deleteDirContents_empties requester ext2MaxDeleteDepth
                        volume.dropCache found.inode
                      exact ⟨call.1.mono (inside directory) fun _ impossible => impossible.elim,
                        call.2⟩
                  · exact ⟨.refl, .refl⟩
                split
                · next final outcome => exact (emptied _ outcome).1
                · next bare outcome =>
                    have call := emptied _ outcome
                    -- whatever the record still leads to it led to before
                    have clears : Sparing (· = found.inode) moved bare
                        (ext2ZeroDirent bare found.pos) := by
                      apply zeroDirent_sparing
                      rintro target live ⟨entry, stands, leads⟩
                      obtain ⟨old, was, _, same, _⟩ :=
                        call.2 _ _ _ ⟨entry, stands, rfl, leads, live⟩
                      have standing := names_of_lookup located
                      have before : Names volume found.pos target := ⟨old, was, same⟩
                      exact before.unique standing
                    exact call.1.trans (unlinkEntry_sparing
                      (clears.mono (fun _ same => same ▸ gone) fun _ same => same) gone)

theorem reparent_sparing {oldParent newParent : Nat} {parentInode : Inode}
    (kind : isDir parentInode.mode = isDir (volume.inodes newParent).mode)
    (dotdotMoves : moved (dotdotPos num)) :
    Sparing freed moved volume (reparent volume num oldParent newParent parentInode) := by
  have counted : Sparing freed moved volume (ext2WriteInode volume newParent parentInode.mode
      parentInode.uid (parentInode.linksCount + 1)) := (writeInode_harmless kind).weaken
  have pointed : ∀ start, Sparing freed moved start (start.alter num fun inode =>
      { inode with entries := editAt (Dirent.retarget newParent) inode.entries 0 12 }) := by
    intro start
    apply Sparing.alter
    · rfl
    · intro block offset entry stands _ _ elsewhere
      refine ⟨entry, ?_, rfl⟩
      rw [entryAt_editAt_of_ne (Dirent.retarget newParent) fun _ => rfl]
      · exact stands
      · intro same
        cases same
        exact elsewhere dotdotMoves
  exact (counted.trans (pointed _)).trans dropLink_harmless.weaken

theorem rename_sparing :
    Sparing freed (Moves volume path newPath requester) volume
      (ext2Rename volume path newPath requester space).1 := by
  unfold ext2Rename
  refine dropCache_harmless.weaken.trans ?_
  simp only [lookupEntry_dropCache, resolveDir_dropCache]
  split
  · exact .refl
  · next found located =>
      split
      · exact .refl
      · split
        · next source newParent read resolved =>
            obtain ⟨_, rfl⟩ := ext2ReadInode_eq read
            split
            · exact .refl
            · next accepted =>
                simp only [Bool.or_eq_true, Bool.not_eq_true', not_or,
                  Bool.not_eq_false, Option.not_isSome_iff_eq_none] at accepted
                obtain ⟨⟨⟨allowed, _⟩, _⟩, vacant⟩ := accepted
                have leaves : ∀ pos, (pos = found.pos ∨ isDir found.mode = true ∧
                    newParent ≠ found.pos.dir ∧ pos = dotdotPos found.inode) →
                    Moves volume path newPath requester pos :=
                  fun pos which => ⟨found, newParent, located, resolved, allowed, vacant, which⟩
                split
                · exact .refl
                · next parentInode readParent =>
                    obtain ⟨_, rfl⟩ := ext2ReadInode_eq readParent
                    split
                    · exact .refl
                    · next placed linked =>
                        refine (placeDirent_harmless linked).weaken.trans ?_
                        have cleared : ∀ start, Sparing freed (Moves volume path newPath requester)
                            start (ext2ZeroDirent start found.pos) := fun start =>
                          zeroDirent_moves.mono (fun _ gone => gone)
                            fun pos same => leaves pos (Or.inl same)
                        split
                        · next crosses =>
                            refine Sparing.trans ?_ (cleared _)
                            apply reparent_sparing
                            · obtain ⟨entries, rfl⟩ := placeDirent_changes linked
                              rw [Volume.alter_inodes_self]
                            · exact leaves _ (Or.inr ⟨crosses.1, crosses.2, rfl⟩)
                        · exact cleared _
        · exact .refl

end Racccoon.Ext2
