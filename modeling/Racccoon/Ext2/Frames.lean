import Racccoon.Ext2.Volume

/-!
What each ext2 operation leaves alone. `Lives` says that an inode number is taken
and still stands for the file it was handed out for, `Names` that a record at
some place leads to an inode. `Sparing freed moved` relates two volumes when
everything alive and every name is kept, except for the inodes in `freed` (with
the names that lead to them or lie in them) and the records in `moved`. One lemma
for each operation gives its two exception sets; operations compose by `trans`.
-/

namespace Racccoon.Ext2

open Tiling

structure Lives (volume : Volume) (num born : Nat) (directory : Bool) : Prop where
  allocated : volume.inodeBitmap num = true
  generation : volume.generation num = born
  kind : isDir (volume.inodes num).mode = directory

def Names (volume : Volume) (pos : DirentPos) (num : Nat) : Prop :=
  ∃ entry, entryAt (volume.inodes pos.dir).entries pos.block pos.offset = some entry ∧
    entry.inode = num

structure Sparing (freed : Nat → Prop) (moved : DirentPos → Prop) (before after : Volume) :
    Prop where
  lives : ∀ num born directory, Lives before num born directory → ¬ freed num →
    Lives after num born directory
  names : ∀ pos num, num ≠ 0 → Names before pos num → before.inodeBitmap pos.dir = true →
    ¬ freed num → ¬ freed pos.dir → ¬ moved pos → Names after pos num

abbrev Harmless (before after : Volume) : Prop :=
  Sparing (fun _ => False) (fun _ => False) before after

variable {volume before middle after : Volume} {num parent dir child : Nat} {pos : DirentPos}
variable {freed more : Nat → Prop} {moved also : DirentPos → Prop}

theorem Names.unique {first second : Nat} (names : Names volume pos first)
    (again : Names volume pos second) : first = second := by
  obtain ⟨entry, stands, rfl⟩ := names
  obtain ⟨other, same, rfl⟩ := again
  rw [stands, Option.some.injEq] at same
  rw [same]

namespace Volume

@[simp] theorem setInode_inodes_self (inode : Inode) :
    (volume.setInode num inode).inodes num = inode := by
  simp [setInode]

theorem setInode_inodes_of_ne (inode : Inode) {other : Nat} (apart : other ≠ num) :
    (volume.setInode num inode).inodes other = volume.inodes other := by
  simp [setInode, apart]

section
variable (change : Inode → Inode)
include change

@[simp] theorem alter_inodes_self :
    (volume.alter num change).inodes num = change (volume.inodes num) := by
  simp [alter]

theorem alter_inodes_of_ne {other : Nat} (apart : other ≠ num) :
    (volume.alter num change).inodes other = volume.inodes other :=
  setInode_inodes_of_ne _ apart

end

@[simp] theorem dropCache_inodes : volume.dropCache.inodes = volume.inodes := rfl

end Volume

namespace Sparing

theorem refl : Sparing freed moved volume volume :=
  ⟨fun _ _ _ lives _ => lives, fun _ _ _ names _ _ _ _ => names⟩

theorem trans (first : Sparing freed moved before middle)
    (second : Sparing freed moved middle after) : Sparing freed moved before after := by
  refine ⟨fun num born directory lives kept =>
    second.lives num born directory (first.lives num born directory lives kept) kept, ?_⟩
  intro pos num present names allocated keptNum keptDir keptPos
  have dirLives := first.lives pos.dir _ _ ⟨allocated, rfl, rfl⟩ keptDir
  exact second.names pos num present
    (first.names pos num present names allocated keptNum keptDir keptPos)
    dirLives.allocated keptNum keptDir keptPos

theorem mono (spares : Sparing freed moved before after) (wider : ∀ num, freed num → more num)
    (further : ∀ pos, moved pos → also pos) : Sparing more also before after := by
  refine ⟨fun num born directory lives kept =>
    spares.lives num born directory lives fun gone => kept (wider num gone), ?_⟩
  intro pos num present names allocated keptNum keptDir keptPos
  exact spares.names pos num present names allocated (fun gone => keptNum (wider num gone))
    (fun gone => keptDir (wider pos.dir gone)) fun gone => keptPos (further pos gone)

theorem weaken (harmless : Harmless before after) : Sparing freed moved before after :=
  harmless.mono (fun _ impossible => impossible.elim) fun _ impossible => impossible.elim

theorem of_same (inodes : after.inodes = before.inodes)
    (bitmap : after.inodeBitmap = before.inodeBitmap)
    (generation : after.generation = before.generation) : Sparing freed moved before after := by
  refine ⟨fun num born directory lives _ => ?_, fun pos num _ names _ _ _ _ => ?_⟩
  · exact ⟨bitmap ▸ lives.allocated, generation ▸ lives.generation, inodes ▸ lives.kind⟩
  · unfold Names
    rw [inodes]
    exact names

/-- A change of one inode that keeps its kind, and of its records all but those
that are exempt. -/
theorem alter {change : Inode → Inode}
    (kind : isDir (change (volume.inodes num)).mode = isDir (volume.inodes num).mode)
    (keeps : ∀ block offset entry,
      entryAt (volume.inodes num).entries block offset = some entry → entry.inode ≠ 0 →
      ¬ freed entry.inode → ¬ moved ⟨num, block, offset⟩ →
      ∃ kept, entryAt (change (volume.inodes num)).entries block offset = some kept ∧
        kept.inode = entry.inode) : Sparing freed moved volume (volume.alter num change) := by
  constructor
  · intro other born directory lives _
    refine ⟨lives.allocated, lives.generation, ?_⟩
    by_cases same : other = num
    · subst same
      rw [Volume.alter_inodes_self, kind]
      exact lives.kind
    · rw [Volume.alter_inodes_of_ne _ same]
      exact lives.kind
  · intro pos target present names allocated keptNum keptDir keptPos
    obtain ⟨entry, stands, leads⟩ := names
    by_cases same : pos.dir = num
    · subst same
      subst leads
      obtain ⟨kept, still, sameInode⟩ :=
        keeps pos.block pos.offset entry stands present keptNum keptPos
      refine ⟨kept, ?_, sameInode⟩
      rw [Volume.alter_inodes_self]
      exact still
    · refine ⟨entry, ?_, leads⟩
      rw [Volume.alter_inodes_of_ne _ same]
      exact stands

/-- A change of the attributes or the bytes of an inode. -/
theorem alter_attributes {change : Inode → Inode}
    (kind : isDir (change (volume.inodes num)).mode = isDir (volume.inodes num).mode)
    (entries : (change (volume.inodes num)).entries = (volume.inodes num).entries) :
    Harmless volume (volume.alter num change) := by
  apply alter kind
  intro block offset entry stands _ _ _
  exact ⟨entry, by rw [entries]; exact stands, rfl⟩

/-- Whatever happens to an inode number that was not taken. -/
theorem of_free (free : before.inodeBitmap num = false)
    (inodes : ∀ other, other ≠ num → after.inodes other = before.inodes other)
    (bitmap : ∀ other, other ≠ num → after.inodeBitmap other = before.inodeBitmap other)
    (generation : ∀ other, other ≠ num → after.generation other = before.generation other) :
    Harmless before after := by
  have taken : ∀ other, before.inodeBitmap other = true → other ≠ num := by
    rintro other allocated rfl
    rw [free] at allocated
    cases allocated
  constructor
  · intro other born directory lives _
    have apart := taken other lives.allocated
    exact ⟨by rw [bitmap other apart]; exact lives.allocated,
      by rw [generation other apart]; exact lives.generation,
      by rw [inodes other apart]; exact lives.kind⟩
  · intro pos target _ names allocated _ _ _
    unfold Names
    rw [inodes pos.dir (taken pos.dir allocated)]
    exact names

end Sparing

theorem dropCache_harmless : Harmless volume volume.dropCache := .of_same rfl rfl rfl

theorem writeInode_harmless {mode uid links : Nat}
    (kind : isDir mode = isDir (volume.inodes num).mode) :
    Harmless volume (ext2WriteInode volume num mode uid links) := by
  apply Sparing.alter_attributes
  · exact kind
  · rfl

theorem dropLink_harmless : Harmless volume (dropLink volume dir (volume.inodes dir)) := by
  apply writeInode_harmless
  rfl

/-- `ext2_alloc_inode` hands out a number that was free, and takes it. -/
theorem freeInode_free {group : Nat} (found : freeInode volume = some (group, num)) :
    volume.inodeBitmap num = false ∧ num ≠ 0 := by
  obtain ⟨k, _, scanned⟩ := List.exists_of_findSome?_eq_some found
  obtain ⟨i, _, hit⟩ := List.exists_of_findSome?_eq_some scanned
  simp only [ite_eq_iff] at hit
  rcases hit with ⟨_, impossible⟩ | ⟨free, same⟩
  · cases impossible
  · obtain ⟨_, rfl⟩ := same
    exact ⟨by simpa using free, by omega⟩

structure Taken (volume : Volume) (num : Nat) (taken : Volume) : Prop where
  free : volume.inodeBitmap num = false
  present : num ≠ 0
  inodes : taken.inodes = volume.inodes
  bitmap : taken.inodeBitmap = Function.update volume.inodeBitmap num true
  generation : taken.generation = Function.update volume.generation num (volume.generation num + 1)

theorem allocInode_taken {taken : Volume} (allocated : ext2AllocInode volume = some (num, taken)) :
    Taken volume num taken := by
  obtain ⟨⟨group, found⟩, scanned, same⟩ := Option.map_eq_some_iff.mp allocated
  cases same
  obtain ⟨free, present⟩ := freeInode_free scanned
  exact ⟨free, present, rfl, rfl, rfl⟩

theorem ext2FreeInode_bitmap_of_ne {other : Nat} (apart : other ≠ num) :
    (ext2FreeInode volume num).inodeBitmap other = volume.inodeBitmap other := by
  simp [ext2FreeInode, apart]

theorem releaseInode_sparing : Sparing (· = num) moved volume (releaseInode volume num) := by
  constructor
  · intro other born directory lives apart
    refine ⟨?_, lives.generation, ?_⟩
    · rw [releaseInode, ext2FreeInode_bitmap_of_ne apart]
      exact lives.allocated
    · change isDir ((ext2ZeroInode volume num).inodes other).mode = directory
      rw [ext2ZeroInode, Volume.setInode_inodes_of_ne _ apart]
      exact lives.kind
  · intro pos target _ names _ _ keptDir _
    change ∃ entry, entryAt ((ext2ZeroInode volume num).inodes pos.dir).entries _ _ = _ ∧ _
    rw [ext2ZeroInode, Volume.setInode_inodes_of_ne _ keptDir]
    exact names

theorem zeroDirent_moves : Sparing freed (· = pos) volume (ext2ZeroDirent volume pos) := by
  apply Sparing.alter
  · rfl
  · intro block offset entry stands _ _ elsewhere
    refine ⟨entry, ?_, rfl⟩
    rw [entryAt_editAt_of_ne Dirent.cleared fun _ => rfl]
    · exact stands
    · intro same
      cases same
      exact elsewhere rfl

theorem zeroDirent_sparing (leads : ∀ target, target ≠ 0 → Names volume pos target → target = num) :
    Sparing (· = num) moved volume (ext2ZeroDirent volume pos) := by
  apply Sparing.alter
  · rfl
  · intro block offset entry stands live kept _
    refine ⟨entry, ?_, rfl⟩
    rw [entryAt_editAt_of_ne Dirent.cleared fun _ => rfl]
    · exact stands
    · intro same
      cases same
      exact kept (leads entry.inode live ⟨entry, stands, rfl⟩)

theorem placeDirent_harmless {name : List UInt8} {dirBlock : Bool}
    (placed : ext2PlaceDirent volume dir name child dirBlock = some after) :
    Harmless volume after := by
  unfold ext2PlaceDirent at placed
  split at placed
  · next filled packed =>
      cases placed
      apply Sparing.alter
      · rfl
      · intro block offset entry stands live _ _
        obtain ⟨kept, still, sameInode, _⟩ := entryAt_placeInBlocks packed live stands
        exact ⟨kept, still, sameInode⟩
  · split at placed
    · cases placed
      apply Sparing.alter
      · rfl
      · intro block offset entry stands _ _ _
        refine ⟨entry, ?_, rfl⟩
        obtain ⟨records, present, inside⟩ := Option.bind_eq_some_iff.mp stands
        have bound := (List.getElem?_eq_some_iff.mp present).1
        simp only [entryAt, List.getElem?_append_left bound, present, Option.bind_some, inside]
    · cases placed

theorem placeDirent_changes {name : List UInt8} {dirBlock : Bool}
    (placed : ext2PlaceDirent volume dir name child dirBlock = some after) :
    ∃ entries, after = volume.alter dir fun inode => { inode with entries := entries } := by
  unfold ext2PlaceDirent at placed
  split at placed
  · next filled packed =>
      cases placed
      exact ⟨filled, rfl⟩
  · split at placed
    · cases placed
      exact ⟨_, rfl⟩
    · cases placed

/-- The names of the directory after a record was placed in it. -/
theorem placeDirent_links {name : List UInt8} {dirBlock : Bool} (live : child ≠ 0)
    (placed : ext2PlaceDirent volume dir name child dirBlock = some after) :
    (linksOf (after.inodes dir).entries.flatten).Perm
      ((storedName name, child) :: linksOf (volume.inodes dir).entries.flatten) := by
  unfold ext2PlaceDirent at placed
  split at placed
  · next filled packed =>
      cases placed
      simpa using linksOf_placeInBlocks live packed
  · split at placed
    · cases placed
      simp only [Volume.alter_inodes_self, List.flatten_append, linksOf_append]
      have single : linksOf (List.flatten [[Dirent.fresh child volume.blockSize name (by
          have short := storedName_length name
          have big := volume.roomy
          unfold ext2DirentIdeal
          omega)]]) = [(storedName name, child)] := by
        simp [linksOf_cons, Dirent.fresh, live]
      rw [single]
      exact List.perm_append_singleton _ _
    · cases placed

end Racccoon.Ext2
