import Mathlib.Algebra.GroupWithZero.Nat
import Racccoon.Lib.ChainWalk
import Racccoon.Lib.Touches
import Racccoon.Ext2.Dirents

/-!
The loops over the records of one directory block, byte by byte: `ext2_find_in_dir`,
`ext2_list`, `ext2_dir_is_empty`, `ext2_delete_dir_contents` and `ext2_place_dirent`. Each
is given with the bytes of the block it reads and writes, whatever the block holds; what
stands behind the block is not zero. Inodes are read and children deleted outside the
block: how these end is an argument. A name looked up or placed is its bytes without the
terminator.
-/

namespace Racccoon.Ext2.Walks

open ChainWalk

abbrev Block := Nat → UInt8

/-- A little-endian number of `width` bytes. -/
def leAt (block : Block) (offset : Nat) : Nat → Nat
  | 0 => 0
  | width + 1 => (block offset).toNat + 256 * leAt block (offset + 1) width

def putLe (offset width value : Nat) (block : Block) : Block := fun position =>
  if offset ≤ position ∧ position < offset + width then
    UInt8.ofNat (value / 256 ^ (position - offset))
  else block position

variable (block : Block) (offset : Nat)

def inodeAt : Nat := leAt block offset 4
def recLenAt : Nat := leAt block (offset + 4) 2
def nameLenAt : Nat := (block (offset + 6)).toNat

def nameAt : List UInt8 :=
  (List.range (nameLenAt block offset)).map fun k => block (offset + 8 + k)

def dotByte : UInt8 := 0x2E

abbrev Touches := List (Touch Unit)

def bytes (start count : Nat) : Touch Unit := .bytes () start count

/-- What is done with one record: the bytes looked at, and how the loop goes on. -/
structure Visit (State Result : Type) where
  touched : Touches
  next : Next State Result

section Scans
variable {State Result : Type}

/-- `while (offset < ext2_block_size)`: the shape of the four reading loops. `more` is
what else the loop asks for, `blockOf` the buffer in the loop's state. It has not ended
when `fuel` rounds were not enough. -/
def scan (size : Nat) (blockOf : State → Block) (more : State → Bool)
    (visit : State → Nat → Visit State Result) :
    Nat → State → Nat → Touches × Option (Next State Result)
  | 0, _, _ => ([], none)
  | fuel + 1, state, offset =>
    if size ≤ offset ∨ more state = false then ([], some (.go state))
    else
      let recLen := recLenAt (blockOf state) offset
      if recLen = 0 then ([bytes (offset + 4) 2, bytes (offset + 6) 1], some (.go state))
      else
        let visited := visit state offset
        let header := [bytes (offset + 4) 2, bytes (offset + 6) 1, bytes offset 4]
        match visited.next with
        | .leave result => (header ++ visited.touched, some (.leave result))
        | .go state =>
          let rest := scan size blockOf more visit fuel state (offset + recLen)
          (header ++ visited.touched ++ rest.1, rest.2)

/-- The states the loop's rounds begin in, each with the offset of the round's record. -/
def rounds (size : Nat) (blockOf : State → Block) (more : State → Bool)
    (visit : State → Nat → Visit State Result) : Nat → State → Nat → List (State × Nat)
  | 0, _, _ => []
  | fuel + 1, state, offset =>
    if size ≤ offset ∨ more state = false then []
    else
      let recLen := recLenAt (blockOf state) offset
      if recLen = 0 then [(state, offset)]
      else
        match (visit state offset).next with
        | .leave _ => [(state, offset)]
        | .go next =>
          (state, offset) :: rounds size blockOf more visit fuel next (offset + recLen)

end Scans

def compared (block : Block) : Nat → List UInt8 → Nat
  | _, [] => 0
  | position, c :: rest =>
    if block position = c then compared block (position + 1) rest + 1 else 1

def findLook (name : List UInt8) (block : Block) (offset : Nat) : Nat :=
  if inodeAt block offset ≠ 0 ∧ nameLenAt block offset = name.length then
    compared block (offset + 8) name
  else 0

/-- `ext2_find_in_dir`: the record found, by its offset and inode. -/
def findVisit (name : List UInt8) (block : Block) (offset : Nat) : Visit Block (Nat × Nat) where
  touched := [bytes (offset + 8) (findLook name block offset)]
  next :=
    if inodeAt block offset ≠ 0 ∧ nameLenAt block offset = name.length ∧
        nameAt block offset = name then
      .leave (offset, inodeAt block offset)
    else .go block

variable (block : Block) (offset : Nat)

def isDots : Bool :=
  nameAt block offset == [dotByte] || nameAt block offset == [dotByte, dotByte]

def dotLook : Nat :=
  if nameLenAt block offset = 1 then 1
  else if nameLenAt block offset = 2 then if block (offset + 8) = dotByte then 2 else 1
  else 0

/-- `ext2_dir_is_empty`: it leaves at an entry. -/
def emptyVisit : Visit Block Unit where
  touched := [bytes (offset + 8) (if inodeAt block offset = 0 then 0 else dotLook block offset)]
  next :=
    if inodeAt block offset ≠ 0 ∧ isDots block offset = false then .leave () else .go block

def fsListNameMax : Nat := 32

/-- The loop of `ext2_list` so far: the entries seen and the records written. -/
structure Page where
  block : Block
  seen : Nat
  names : List (List UInt8 × Bool)

/-- `ext2_list`; `isDir` is what the inode of a child says, if it can be read. -/
def listVisit (isDir : Nat → Option Bool) (start : Nat) (page : Page) (offset : Nat) :
    Visit Page Unit :=
  let inode := inodeAt page.block offset
  if inode = 0 then ⟨[], .go page⟩
  else if isDots page.block offset then
    ⟨[bytes (offset + 8) (dotLook page.block offset)], .go page⟩
  else if page.seen < start then
    ⟨[bytes (offset + 8) (dotLook page.block offset)], .go { page with seen := page.seen + 1 }⟩
  else
    match isDir inode with
    | none => ⟨[bytes (offset + 8) (dotLook page.block offset)], .leave ()⟩
    | some directory =>
      let shown := (nameAt page.block offset).take (fsListNameMax - 1)
      ⟨[bytes (offset + 8) (dotLook page.block offset), bytes (offset + 8) shown.length],
        .go ⟨page.block, page.seen + 1, page.names ++ [(shown, directory)]⟩⟩

/-- `ext2_delete_dir_contents`; `deleteChild` is whether the child of a record is deleted.
The buffer is written to where the record's inode is cleared. -/
def deleteVisit (deleteChild : Nat → Nat → Bool) (block : Block) (offset : Nat) :
    Visit Block Unit :=
  let inode := inodeAt block offset
  if inode = 0 then ⟨[], .go block⟩
  else if isDots block offset then
    ⟨[bytes (offset + 8) (dotLook block offset)], .go block⟩
  else if deleteChild inode offset then
    ⟨[bytes (offset + 8) (dotLook block offset), bytes offset 4], .go (putLe offset 4 0 block)⟩
  else ⟨[bytes (offset + 8) (dotLook block offset)], .leave ()⟩

/-- `rec - used`, in `uint`. -/
def slackOf (recLen used : Nat) : Nat := (recLen + 2 ^ 32 - used) % 2 ^ 32

def usedAt : Nat :=
  if inodeAt block offset = 0 then 0 else ext2DirentIdeal (nameLenAt block offset)

/-- The block with the new record behind the `used` bytes of the one at `offset`. -/
def packAt (name : List UInt8) (child : Nat) (block : Block) (offset : Nat) : Block :=
  let used := usedAt block offset
  let slack := slackOf (recLenAt block offset) used
  let spot := offset + used
  let shrunk := if used ≠ 0 then putLe (offset + 4) 2 used block else block
  let header := putLe (spot + 7) 1 0 (putLe (spot + 6) 1 name.length
    (putLe (spot + 4) 2 slack (putLe spot 4 child shrunk)))
  fun position =>
    if spot + 8 ≤ position ∧ position < spot + 8 + name.length then
      name.getD (position - (spot + 8)) 0
    else header position

/-- The loop of `ext2_place_dirent` over one block: the offset of the record packed into
and the block then, or that there is no room. -/
def placeFrom (size : Nat) (name : List UInt8) (child : Nat) (block : Block) :
    Nat → Nat → Touches × Option (Option (Nat × Block))
  | 0, _ => ([], none)
  | fuel + 1, offset =>
    if offset + 8 ≤ size then
      let recLen := recLenAt block offset
      if recLen < 8 ∨ offset + recLen > size then ([bytes (offset + 4) 2], some none)
      else
        let header :=
          [bytes (offset + 4) 2, bytes offset 4,
            bytes (offset + 6) (if inodeAt block offset = 0 then 0 else 1)]
        let used := usedAt block offset
        if ext2DirentIdeal name.length ≤ slackOf recLen used then
          (header ++
            [bytes (offset + 4) (if used = 0 then 0 else 2), bytes (offset + used) 8,
              bytes (offset + used + 8) name.length],
            some (some (offset, packAt name child block offset)))
        else
          let rest := placeFrom size name child block fuel (offset + recLen)
          (header ++ rest.1, rest.2)
    else ([], some none)

/-- The offset of the record the loop packs into. -/
def roomFrom (size : Nat) (name : List UInt8) (block : Block) : Nat → Nat → Option Nat
  | 0, _ => none
  | fuel + 1, offset =>
    if offset + 8 ≤ size then
      let recLen := recLenAt block offset
      if recLen < 8 ∨ offset + recLen > size then none
      else if ext2DirentIdeal name.length ≤ slackOf recLen (usedAt block offset) then some offset
      else roomFrom size name block fuel (offset + recLen)
    else none

/-- The number of an inode: a `uint`, and not 0. -/
structure Child where
  number : Nat
  live : number ≠ 0
  word : number < 2 ^ 32

inductive Walk where
  | find (name : List UInt8)
  | list (isDir : Nat → Option Bool) (start maxEntries : Nat)
  | dirIsEmpty
  | deleteContents (deleteChild : Nat → Nat → Bool)
  | place (name : List UInt8) (child : Child)

def Page.room (maxEntries : Nat) (page : Page) : Bool := page.names.length < maxEntries

variable (size : Nat)

/-- The bytes of the block a walk reads and writes in `fuel` rounds, and whether it has
ended by then. -/
def Walk.run (block : Block) (fuel : Nat) : Walk → Touches × Bool
  | .find name =>
    let found := scan size id (fun _ => true) (findVisit name) fuel block 0
    (found.1, found.2.isSome)
  | .list isDir start maxEntries =>
    let listed := scan size Page.block (Page.room maxEntries) (listVisit isDir start) fuel
      ⟨block, 0, []⟩ 0
    (listed.1, listed.2.isSome)
  | .dirIsEmpty =>
    let tested := scan size id (fun _ => true) emptyVisit fuel block 0
    (tested.1, tested.2.isSome)
  | .deleteContents deleteChild =>
    let deleted := scan size id (fun _ => true) (deleteVisit deleteChild) fuel block 0
    (deleted.1, deleted.2.isSome)
  | .place name child =>
    let placed := placeFrom size name child.number block fuel 0
    (placed.1, placed.2.isSome)

def Walk.Safe (block : Block) (walk : Walk) : Prop :=
  (walk.run size block (size + 1)).2 = true ∧
    AllWithin (fun _ => size) (walk.run size block (size + 1)).1

structure Shaped (block : Block) (offset : Nat) : Prop where
  header : 8 ≤ recLenAt block offset
  aligned : 4 ∣ recLenAt block offset
  named : inodeAt block offset ≠ 0 → 8 + nameLenAt block offset ≤ recLenAt block offset

/-- From `offset` on, records follow one another up to the end of the block. -/
inductive Tiled (size : Nat) (block : Block) : Nat → Prop where
  | done : Tiled size block size
  | record {offset : Nat} (shaped : Shaped block offset)
      (rest : Tiled size block (offset + recLenAt block offset)) : Tiled size block offset

/-- The record at `offset`, if it is live: offset, inode and name. -/
def liveHere : List (Nat × Nat × List UInt8) :=
  if inodeAt block offset = 0 then [] else [(offset, inodeAt block offset, nameAt block offset)]

/-- The live records from `offset` on. -/
def liveFrom (size : Nat) (block : Block) (offset : Nat) : List (Nat × Nat × List UInt8) :=
  if size ≤ offset ∨ recLenAt block offset = 0 then []
  else liveHere block offset ++ liveFrom size block (offset + recLenAt block offset)
termination_by size - offset

/-- On a block that records tile, the placer keeps the tiling and every live record where
it stands, and adds the one it was asked for. -/
def Walk.Keeps (block : Block) : Walk → Prop
  | .place name child =>
    Tiled size block 0 → ∀ fuel offset packed,
      (placeFrom size name child.number block fuel 0).2 = some (some (offset, packed)) →
      Tiled size packed 0 ∧ ∃ front back spot,
        liveFrom size block 0 = front ++ back ∧
          liveFrom size packed 0 = front ++ (spot, child.number, storedName name) :: back
  | _ => True

/-- The round's record has its header inside the block, and so are the name bytes that
`look` counts, unless its length ends the loop. -/
def RoundFits {State : Type} (size : Nat) (blockOf : State → Block) (look : State → Nat → Nat)
    (round : State × Nat) : Prop :=
  round.2 + 7 ≤ size ∧
    (recLenAt (blockOf round.1) round.2 = 0 ∨ look round.1 round.2 = 0 ∨
      round.2 + 8 + look round.1 round.2 ≤ size)

def liveLook (look : Block → Nat → Nat) (block : Block) (offset : Nat) : Nat :=
  if inodeAt block offset = 0 then 0 else look block offset

def listLook (isDir : Nat → Option Bool) (start : Nat) (page : Page) (offset : Nat) : Nat :=
  if inodeAt page.block offset = 0 then 0
  else if isDots page.block offset ∨ page.seen < start ∨
      isDir (inodeAt page.block offset) = none then dotLook page.block offset
  else min (fsListNameMax - 1) (nameLenAt page.block offset)

/-- Every record a reading loop comes to fits; the record packed into has room for the
new one behind the bytes it uses itself. -/
def Walk.Fits (block : Block) : Walk → Prop
  | .find name => ∀ round ∈ rounds size id (fun _ => true) (findVisit name) (size + 1) block 0,
      RoundFits size id (findLook name) round
  | .list isDir start maxEntries =>
    ∀ round ∈ rounds size Page.block (Page.room maxEntries) (listVisit isDir start) (size + 1)
        ⟨block, 0, []⟩ 0,
      RoundFits size Page.block (listLook isDir start) round
  | .dirIsEmpty => ∀ round ∈ rounds size id (fun _ => true) emptyVisit (size + 1) block 0,
      RoundFits size id (liveLook dotLook) round
  | .deleteContents deleteChild =>
    ∀ round ∈ rounds size id (fun _ => true) (deleteVisit deleteChild) (size + 1) block 0,
      RoundFits size id (liveLook dotLook) round
  | .place name _ => ∀ offset, roomFrom size name block (size + 1) 0 = some offset →
      offset + usedAt block offset + 8 + name.length ≤ size

section Scans
variable {State Result : Type} {size : Nat} {blockOf : State → Block} {more : State → Bool}
  {visit : State → Nat → Visit State Result} {look : State → Nat → Nat}

theorem scan_ends {fuel offset : Nat} (enough : size ≤ offset + fuel) (state : State) :
    (scan size blockOf more visit (fuel + 1) state offset).2.isSome = true := by
  induction fuel generalizing state offset with
  | zero =>
    rw [Nat.add_zero] at enough
    rw [scan, if_pos (Or.inl enough)]
    rfl
  | succ _ ih =>
    rw [scan]
    by_cases done : size ≤ offset ∨ more state = false
    · rw [if_pos done]
      rfl
    · rw [if_neg done]
      dsimp only
      by_cases last : recLenAt (blockOf state) offset = 0
      · rw [if_pos last]
        rfl
      · rw [if_neg last]
        cases (visit state offset).next with
        | leave result => rfl
        | go next => exact ih (by omega) next

theorem scan_within (looks : ∀ state offset, offset + 7 ≤ size →
      (AllWithin (fun _ => size) (visit state offset).touched ↔
        look state offset = 0 ∨ offset + 8 + look state offset ≤ size))
    (fuel : Nat) (state : State) (offset : Nat) :
    AllWithin (fun _ => size) (scan size blockOf more visit fuel state offset).1 ↔
      ∀ round ∈ rounds size blockOf more visit fuel state offset,
        RoundFits size blockOf look round := by
  induction fuel generalizing state offset with
  | zero => simp [scan, rounds]
  | succ fuel ih =>
    rw [scan, rounds]
    by_cases done : size ≤ offset ∨ more state = false
    · simp [if_pos done]
    · rw [if_neg done, if_neg done]
      dsimp only
      by_cases last : recLenAt (blockOf state) offset = 0
      · rw [if_pos last, if_pos last]
        simp only [allWithin_cons, allWithin_nil, bytes, within_bytes, List.mem_singleton,
          forall_eq, RoundFits, and_true]
        omega
      · rw [if_neg last, if_neg last]
        have here : AllWithin (fun _ => size)
              ([bytes (offset + 4) 2, bytes (offset + 6) 1, bytes offset 4] ++
                (visit state offset).touched) ↔
            RoundFits size blockOf look (state, offset) := by
          simp only [allWithin_append, allWithin_cons, allWithin_nil, bytes, within_bytes,
            RoundFits, last, false_or, and_true]
          constructor
          · rintro ⟨header, name⟩
            have fits : offset + 7 ≤ size := by omega
            exact ⟨fits, (looks state offset fits).mp name⟩
          · rintro ⟨fits, name⟩
            exact ⟨by omega, (looks state offset fits).mpr name⟩
        cases (visit state offset).next with
        | leave result => simpa only [List.mem_singleton, forall_eq] using here
        | go next =>
          rw [allWithin_append, here, ih next, List.forall_mem_cons]
end Scans

theorem placeFrom_ends {size fuel offset child : Nat} {name : List UInt8} {block : Block}
    (enough : size ≤ offset + fuel) :
    (placeFrom size name child block (fuel + 1) offset).2.isSome = true := by
  induction fuel generalizing offset with
  | zero =>
    rw [placeFrom, if_neg (by omega)]
    rfl
  | succ fuel ih =>
    rw [placeFrom]
    by_cases inside : offset + 8 ≤ size
    · rw [if_pos inside]
      by_cases corrupt : recLenAt block offset < 8 ∨ offset + recLenAt block offset > size
      · rw [if_pos corrupt]
        rfl
      · rw [if_neg corrupt]
        by_cases room : ext2DirentIdeal name.length ≤
            slackOf (recLenAt block offset) (usedAt block offset)
        · rw [if_pos room]
          rfl
        · rw [if_neg room]
          exact ih (by omega)
    · rw [if_neg inside]
      rfl

theorem placeFrom_within {size child : Nat} {name : List UInt8} {block : Block}
    (fuel offset : Nat) :
    AllWithin (fun _ => size) (placeFrom size name child block fuel offset).1 ↔
      ∀ spot, roomFrom size name block fuel offset = some spot →
        spot + usedAt block spot + 8 + name.length ≤ size := by
  induction fuel generalizing offset with
  | zero => simp [placeFrom, roomFrom]
  | succ _ ih =>
    rw [placeFrom, roomFrom]
    by_cases inside : offset + 8 ≤ size
    · rw [if_pos inside, if_pos inside]
      have header : AllWithin (fun _ => size) [bytes (offset + 4) 2, bytes offset 4,
          bytes (offset + 6) (if inodeAt block offset = 0 then 0 else 1)] := by
        simp only [allWithin_cons, allWithin_nil, bytes, within_bytes, and_true]
        split <;> omega
      by_cases corrupt : recLenAt block offset < 8 ∨ offset + recLenAt block offset > size
      · rw [if_pos corrupt, if_pos corrupt]
        simp only [allWithin_cons, allWithin_nil, bytes, within_bytes, reduceCtorEq,
          false_implies, implies_true, iff_true, and_true]
        omega
      · rw [if_neg corrupt, if_neg corrupt]
        by_cases room : ext2DirentIdeal name.length ≤
            slackOf (recLenAt block offset) (usedAt block offset)
        · rw [if_pos room, if_pos room]
          rw [allWithin_append, and_iff_right header]
          simp only [Option.some.injEq, forall_eq', allWithin_cons, allWithin_nil, bytes,
            within_bytes, and_true]
          constructor
          · omega
          · split <;> omega
        · rw [if_neg room, if_neg room, allWithin_append, and_iff_right header, ih]
    · simp [if_neg inside]

theorem within_name {size offset count : Nat} :
    AllWithin (fun _ => size) [bytes (offset + 8) count] ↔
      count = 0 ∨ offset + 8 + count ≤ size := by
  simp only [allWithin_cons, allWithin_nil, bytes, within_bytes, and_true]
  omega

theorem findVisit_within {size : Nat} {name : List UInt8} (block : Block) (offset : Nat) :
    AllWithin (fun _ => size) (findVisit name block offset).touched ↔
      findLook name block offset = 0 ∨ offset + 8 + findLook name block offset ≤ size :=
  within_name

theorem emptyVisit_within {size : Nat} (block : Block) (offset : Nat) :
    AllWithin (fun _ => size) (emptyVisit block offset).touched ↔
      liveLook dotLook block offset = 0 ∨
        offset + 8 + liveLook dotLook block offset ≤ size :=
  within_name

theorem deleteVisit_within {size : Nat} {deleteChild : Nat → Nat → Bool} (block : Block)
    (offset : Nat) (header : offset + 7 ≤ size) :
    AllWithin (fun _ => size) (deleteVisit deleteChild block offset).touched ↔
      liveLook dotLook block offset = 0 ∨
        offset + 8 + liveLook dotLook block offset ≤ size := by
  have cleared : AllWithin (fun _ => size) [bytes offset 4] := by
    simp only [allWithin_cons, allWithin_nil, bytes, within_bytes, and_true]
    omega
  unfold deleteVisit liveLook
  dsimp only
  split
  · simp
  · split
    · exact within_name
    · split
      · rw [← List.singleton_append, allWithin_append, and_iff_left cleared]
        exact within_name
      · exact within_name

theorem dotLook_le (block : Block) (offset : Nat) :
    dotLook block offset ≤ min (fsListNameMax - 1) (nameLenAt block offset) := by
  unfold dotLook fsListNameMax
  split
  · omega
  · split
    · split <;> omega
    · omega

theorem listVisit_within {size start : Nat} {isDir : Nat → Option Bool} (page : Page)
    (offset : Nat) :
    AllWithin (fun _ => size) (listVisit isDir start page offset).touched ↔
      listLook isDir start page offset = 0 ∨
        offset + 8 + listLook isDir start page offset ≤ size := by
  have shorter := dotLook_le page.block offset
  unfold listVisit listLook
  by_cases deleted : inodeAt page.block offset = 0
  · simp [deleted]
  · rw [if_neg deleted, if_neg deleted]
    by_cases dots : isDots page.block offset = true
    · rw [if_pos dots, if_pos (Or.inl dots)]
      exact within_name
    · rw [if_neg dots]
      by_cases early : page.seen < start
      · rw [if_pos early, if_pos (Or.inr (Or.inl early))]
        exact within_name
      · rw [if_neg early]
        cases child : isDir (inodeAt page.block offset) with
        | none =>
          rw [if_pos (Or.inr (Or.inr rfl))]
          exact within_name
        | some directory =>
          have shown : ((nameAt page.block offset).take (fsListNameMax - 1)).length =
              min (fsListNameMax - 1) (nameLenAt page.block offset) := by
            simp [nameAt]
          rw [if_neg (by simp [dots, early])]
          dsimp only
          rw [← List.singleton_append, allWithin_append, within_name, within_name]
          omega

theorem safe_iff (size : Nat) (block : Block) (walk : Walk) :
    walk.Safe size block ↔ walk.Fits size block := by
  cases walk with
  | find name =>
    exact (and_iff_right (scan_ends (by omega) block)).trans
      (scan_within (fun state offset _ => findVisit_within state offset) _ _ _)
  | list isDir start maxEntries =>
    exact (and_iff_right (scan_ends (by omega) _)).trans
      (scan_within (fun state offset _ => listVisit_within state offset) _ _ _)
  | dirIsEmpty =>
    exact (and_iff_right (scan_ends (by omega) block)).trans
      (scan_within (fun state offset _ => emptyVisit_within state offset) _ _ _)
  | deleteContents deleteChild =>
    exact (and_iff_right (scan_ends (by omega) block)).trans
      (scan_within deleteVisit_within _ _ _)
  | place name child =>
    exact (and_iff_right (placeFrom_ends (by omega))).trans (placeFrom_within _ _)

end Racccoon.Ext2.Walks
