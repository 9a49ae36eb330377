import Mathlib.Data.List.Perm.Basic
import Racccoon.Lib.Tiling

/-!
The directory records of an ext2 volume. A directory is a list of blocks and a
block is the list of the records that tile it; a record whose inode is 0 is
deleted and only holds its place. `ext2_place_dirent` packs a new record into the
slack of an old one and `ext2_zero_dirent` clears one where it stands, so a
record never moves: its block and its offset name it for as long as it lives.
Names are byte strings, without the terminator.
-/

namespace Racccoon.Ext2

open Tiling

/-- The bytes a live record with a name of this length needs: 8 of header, then
the name, rounded up to a multiple of 4. -/
def ext2DirentIdeal (nameLen : Nat) : Nat :=
  (8 + nameLen + 3) / 4 * 4

structure Dirent where
  inode : Nat
  recLen : Nat
  name : List UInt8
  holdsName : ext2DirentIdeal name.length ≤ recLen
  lenByte : name.length < 256
  deriving DecidableEq

variable (name : List UInt8)

def storedName : List UInt8 :=
  name.take (name.length % 256)

theorem storedName_length : (storedName name).length = name.length % 256 := by
  rw [storedName, List.length_take]
  exact Nat.min_eq_left (Nat.mod_le name.length 256)

theorem ext2DirentIdeal_mono {few many : Nat} (le : few ≤ many) :
    ext2DirentIdeal few ≤ ext2DirentIdeal many := by
  unfold ext2DirentIdeal
  omega

theorem ideal_storedName :
    ext2DirentIdeal (storedName name).length ≤ ext2DirentIdeal name.length := by
  apply ext2DirentIdeal_mono
  rw [storedName_length]
  exact Nat.mod_le _ _

theorem storedName_eq {name : List UInt8} (short : name.length < 256) : storedName name = name := by
  simp [storedName, Nat.mod_eq_of_lt short]

namespace Dirent

variable (entry : Dirent)

theorem recLen_pos : 0 < entry.recLen := by
  have room := entry.holdsName
  unfold ext2DirentIdeal at room
  omega

def used : Nat :=
  if entry.inode = 0 then 0 else ext2DirentIdeal entry.name.length

def cleared : Dirent :=
  { entry with inode := 0 }

@[simp] theorem cleared_recLen : entry.cleared.recLen = entry.recLen := rfl

@[simp] theorem cleared_inode : entry.cleared.inode = 0 := rfl

def retarget (target : Nat) (entry : Dirent) : Dirent :=
  { entry with inode := target }

def fresh (child recLen : Nat) (name : List UInt8)
    (room : ext2DirentIdeal (storedName name).length ≤ recLen) : Dirent :=
  ⟨child, recLen, storedName name, room, by
    rw [storedName_length]
    exact Nat.mod_lt _ (by omega)⟩

def shrunk : Dirent :=
  ⟨entry.inode, ext2DirentIdeal entry.name.length, entry.name, Nat.le_refl _, entry.lenByte⟩

/-- The records that take the place of one whose slack receives a new record: a
deleted record gives all its bytes, a live one is shrunk. -/
def split (child : Nat) (name : List UInt8)
    (room : ext2DirentIdeal name.length ≤ entry.recLen - entry.used) : List Dirent :=
  let packed := fresh child (entry.recLen - entry.used) name (Nat.le_trans (ideal_storedName name) room)
  if entry.inode = 0 then [packed] else [entry.shrunk, packed]

end Dirent

/-- The search of one block by `ext2_place_dirent`: the first record with room. -/
def placeInBlock (child : Nat) (name : List UInt8) : List Dirent → Option (List Dirent)
  | [] => none
  | entry :: rest =>
    if room : ext2DirentIdeal name.length ≤ entry.recLen - entry.used then
      some (entry.split child name room ++ rest)
    else (placeInBlock child name rest).map (entry :: ·)

def placeInBlocks (child : Nat) (name : List UInt8) :
    List (List Dirent) → Option (List (List Dirent))
  | [] => none
  | block :: rest =>
    match placeInBlock child name block with
    | some packed => some (packed :: rest)
    | none => (placeInBlocks child name rest).map (block :: ·)

/-- The walk of `ext2_find_in_dir` over a directory's blocks: the block and the
offset of the first live record with this name. -/
def findInBlocks (name : List UInt8) : List (List Dirent) → Option (Nat × Nat × Dirent)
  | [] => none
  | block :: rest =>
    match locate Dirent.recLen (fun entry => entry.inode ≠ 0 ∧ entry.name = name) block with
    | some (offset, entry) => some (0, offset, entry)
    | none => (findInBlocks name rest).map fun found => (found.1 + 1, found.2)

def entryAt (blocks : List (List Dirent)) (block offset : Nat) : Option Dirent :=
  (blocks[block]?).bind fun records => recordAt Dirent.recLen records offset

def editAt (edit : Dirent → Dirent) (blocks : List (List Dirent)) (block offset : Nat) :
    List (List Dirent) :=
  blocks.modify block fun records => modifyAt Dirent.recLen edit records offset

def linksOf (records : List Dirent) : List (List UInt8 × Nat) :=
  (records.filter fun entry => entry.inode ≠ 0).map fun entry => (entry.name, entry.inode)

variable {child : Nat} {name : List UInt8} {records packed : List Dirent}
variable {blocks filled : List (List Dirent)} {entry : Dirent} {block offset other : Nat}

@[simp] theorem linksOf_nil : linksOf [] = [] := rfl

theorem linksOf_cons (entry : Dirent) (rest : List Dirent) :
    linksOf (entry :: rest) =
      if entry.inode = 0 then linksOf rest else (entry.name, entry.inode) :: linksOf rest := by
  by_cases deleted : entry.inode = 0 <;> simp [linksOf, deleted]

theorem linksOf_append (front back : List Dirent) :
    linksOf (front ++ back) = linksOf front ++ linksOf back := by
  simp [linksOf]

theorem mem_linksOf {link : List UInt8 × Nat} : link ∈ linksOf records ↔
    ∃ entry ∈ records, entry.inode ≠ 0 ∧ (entry.name, entry.inode) = link := by
  simp [linksOf, and_assoc]

theorem linksOf_split (live : child ≠ 0) {room} :
    (linksOf (entry.split child name room)).Perm ((storedName name, child) :: linksOf [entry]) := by
  by_cases deleted : entry.inode = 0
  · simp [Dirent.split, deleted, linksOf_cons, Dirent.fresh, live]
  · simp only [Dirent.split, deleted, ↓reduceIte, linksOf_cons, Dirent.shrunk, Dirent.fresh, live]
    exact List.Perm.swap _ _ _

theorem linksOf_placeInBlock (live : child ≠ 0)
    (placed : placeInBlock child name records = some packed) :
    (linksOf packed).Perm ((storedName name, child) :: linksOf records) := by
  induction records generalizing packed with
  | nil => cases placed
  | cons entry rest ih =>
    simp only [placeInBlock] at placed
    split at placed
    · next room =>
        cases placed
        rw [linksOf_append, show entry :: rest = [entry] ++ rest from rfl, linksOf_append]
        exact (linksOf_split live).append_right _
    · obtain ⟨later, deeper, rfl⟩ := Option.map_eq_some_iff.mp placed
      have tail := ih deeper
      rw [show entry :: later = [entry] ++ later from rfl, linksOf_append,
        show entry :: rest = [entry] ++ rest from rfl, linksOf_append]
      exact (tail.append_left _).trans List.perm_middle

theorem linksOf_placeInBlocks (live : child ≠ 0)
    (placed : placeInBlocks child name blocks = some filled) :
    (linksOf filled.flatten).Perm ((storedName name, child) :: linksOf blocks.flatten) := by
  induction blocks generalizing filled with
  | nil => cases placed
  | cons _ _ ih =>
    simp only [placeInBlocks] at placed
    split at placed
    · next packed here =>
        cases placed
        simp only [List.flatten_cons, linksOf_append]
        exact (linksOf_placeInBlock live here).append_right _
    · obtain ⟨later, deeper, rfl⟩ := Option.map_eq_some_iff.mp placed
      simp only [List.flatten_cons, linksOf_append]
      exact ((ih deeper).append_left _).trans List.perm_middle

/-- A live record stands where it stood after another one is packed into its
block; only its own slack may have been given away. -/
theorem recordAt_placeInBlock (placed : placeInBlock child name records = some packed)
    (live : entry.inode ≠ 0) (found : recordAt Dirent.recLen records offset = some entry) :
    ∃ kept, recordAt Dirent.recLen packed offset = some kept ∧
      kept.inode = entry.inode ∧ kept.name = entry.name := by
  induction records generalizing packed offset with
  | nil => cases placed
  | cons first _ ih =>
    simp only [placeInBlock] at placed
    simp only [recordAt] at found
    split at placed
    · next room =>
        cases placed
        by_cases front : offset = 0
        · simp only [front, ↓reduceIte, Option.some.injEq] at found
          subst found
          refine ⟨first.shrunk, ?_, rfl, rfl⟩
          simp [Dirent.split, live, recordAt, front]
        · simp only [front, ↓reduceIte] at found
          split at found
          · cases found
          · next past =>
              by_cases deleted : first.inode = 0
              · simp [Dirent.split, deleted, recordAt, front, Dirent.fresh, Dirent.used, past,
                  found]
              · -- the two pieces together are as long as the record they replace
                have need : 0 < ext2DirentIdeal name.length := by
                  unfold ext2DirentIdeal
                  omega
                simp only [Dirent.used, deleted, ↓reduceIte] at room
                have afterFirst : ¬ offset < ext2DirentIdeal first.name.length := by omega
                have apart : offset - ext2DirentIdeal first.name.length ≠ 0 := by omega
                have afterBoth : ¬ offset - ext2DirentIdeal first.name.length <
                    first.recLen - ext2DirentIdeal first.name.length := by omega
                have rejoin : offset - ext2DirentIdeal first.name.length -
                    (first.recLen - ext2DirentIdeal first.name.length) =
                    offset - first.recLen := by omega
                simp [Dirent.split, deleted, recordAt, front, Dirent.fresh, Dirent.used,
                  Dirent.shrunk, afterFirst, apart, afterBoth, rejoin, found]
    · obtain ⟨later, deeper, rfl⟩ := Option.map_eq_some_iff.mp placed
      by_cases front : offset = 0
      · simp only [front, ↓reduceIte, Option.some.injEq] at found
        subst found
        exact ⟨first, by simp [recordAt, front], rfl, rfl⟩
      · simp only [front, ↓reduceIte] at found
        split at found
        · cases found
        · next past =>
            obtain ⟨kept, stands, sameInode, sameName⟩ := ih deeper found
            exact ⟨kept, by simp [recordAt, front, past, stands], sameInode, sameName⟩

theorem entryAt_placeInBlocks (placed : placeInBlocks child name blocks = some filled)
    (live : entry.inode ≠ 0) (found : entryAt blocks block offset = some entry) :
    ∃ kept, entryAt filled block offset = some kept ∧
      kept.inode = entry.inode ∧ kept.name = entry.name := by
  induction blocks generalizing filled block with
  | nil => cases placed
  | cons _ rest ih =>
    simp only [placeInBlocks] at placed
    split at placed
    · next packed here =>
        cases placed
        cases block with
        | zero =>
          exact recordAt_placeInBlock here live found
        | succ => exact ⟨entry, by simpa [entryAt] using found, rfl, rfl⟩
    · obtain ⟨later, deeper, rfl⟩ := Option.map_eq_some_iff.mp placed
      cases block with
      | zero => exact ⟨entry, by simpa [entryAt] using found, rfl, rfl⟩
      | succ index =>
        have tail : entryAt rest index offset = some entry := by simpa [entryAt] using found
        obtain ⟨kept, stands, same⟩ := ih deeper tail
        exact ⟨kept, by simpa [entryAt] using stands, same⟩

/-- What a lookup returns is the record at the place it reports, and it is live
and has the name. -/
theorem findInBlocks_entryAt {found : Nat × Nat × Dirent}
    (located : findInBlocks name blocks = some found) :
    entryAt blocks found.1 found.2.1 = some found.2.2 ∧
      found.2.2.inode ≠ 0 ∧ found.2.2.name = name := by
  induction blocks generalizing found with
  | nil => cases located
  | cons _ _ ih =>
    simp only [findInBlocks] at located
    split at located
    · next offset entry here =>
        cases located
        have wanted := locate_wanted here
        simp only [decide_eq_true_eq] at wanted
        exact ⟨recordAt_locate Dirent.recLen_pos here, wanted⟩
    · obtain ⟨later, deeper, rfl⟩ := Option.map_eq_some_iff.mp located
      have tail := ih deeper
      exact ⟨by simpa [entryAt] using tail.1, tail.2⟩

theorem findInBlocks_mem {found : Nat × Nat × Dirent}
    (located : findInBlocks name blocks = some found) :
    (name, found.2.2.inode) ∈ linksOf blocks.flatten := by
  obtain ⟨stands, live, named⟩ := findInBlocks_entryAt located
  obtain ⟨records, present, inside⟩ := Option.bind_eq_some_iff.mp stands
  have inBlock := recordAt_mem inside
  exact mem_linksOf.mpr ⟨found.2.2, List.mem_flatten.mpr
    ⟨records, List.mem_of_getElem? present, inBlock⟩, live, by rw [named]⟩

theorem entryAt_editAt_self (edit : Dirent → Dirent) :
    entryAt (editAt edit blocks block offset) block offset =
      (entryAt blocks block offset).map edit := by
  simp only [entryAt, editAt, List.getElem?_modify_eq]
  cases blocks[block]? with
  | none => rfl
  | some => simp [recordAt_modifyAt_self]

theorem entryAt_editAt_of_ne (edit : Dirent → Dirent) {elsewhere : Nat}
    (same : ∀ entry, (edit entry).recLen = entry.recLen)
    (apart : (elsewhere, other) ≠ (block, offset)) :
    entryAt (editAt edit blocks block offset) elsewhere other = entryAt blocks elsewhere other := by
  simp only [entryAt, editAt, List.getElem?_modify]
  by_cases here : block = elsewhere
  · subst here
    have offsets : other ≠ offset := by
      rintro rfl
      exact apart rfl
    cases blocks[block]? with
    | none => rfl
    | some records => simp [recordAt_modifyAt_of_ne same offsets]
  · cases blocks[elsewhere]? <;> simp [here]

theorem findInBlocks_record :
    (findInBlocks name blocks).map (fun found => found.2.2) =
      blocks.flatten.find? fun entry => entry.inode ≠ 0 ∧ entry.name = name := by
  induction blocks with
  | nil => rfl
  | cons first _ ih =>
    have front := @locate_record _ Dirent.recLen first
      (fun entry => entry.inode ≠ 0 ∧ entry.name = name)
    rw [List.flatten_cons, List.find?_append, ← ih, ← front, findInBlocks]
    cases locate Dirent.recLen (fun entry => entry.inode ≠ 0 ∧ entry.name = name) first with
    | some => rfl
    | none =>
      simp only [Option.map_map]
      rfl

theorem findInBlocks_inode :
    (findInBlocks name blocks).map (fun found => found.2.2.inode) =
      ((linksOf blocks.flatten).find? fun link => link.1 = name).map Prod.snd := by
  have record := congrArg (Option.map Dirent.inode) (@findInBlocks_record name blocks)
  rw [Option.map_map] at record
  rw [linksOf, List.find?_map, List.find?_filter, Option.map_map]
  refine record.trans ?_
  congr 2
  simp

/-- A new link does not change where other names lead. -/
theorem findInBlocks_inserted {front back : List (List UInt8 × Nat)}
    {made : List UInt8 × Nat} (before : linksOf blocks.flatten = front ++ back)
    (after : linksOf filled.flatten = front ++ made :: back) (apart : made.1 ≠ name) :
    (findInBlocks name filled).map (fun found => found.2.2.inode) =
      (findInBlocks name blocks).map (fun found => found.2.2.inode) := by
  rw [findInBlocks_inode, findInBlocks_inode, before, after, List.find?_append,
    List.find?_append, List.find?_cons_of_neg (by simpa using apart)]

end Racccoon.Ext2
