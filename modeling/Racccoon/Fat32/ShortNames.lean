import Racccoon.Fat32.Directories
import Racccoon.Lib.Run

/-!
Short names in a directory. An alias is looked up before it is taken and a literal
short name is not, so the names stay unique in the runs where no literal name is taken
that an entry already has.
-/

namespace Racccoon.Fat32

open Run

structure Volume.Visible (volume : Volume) (directory : Directory) (index : Nat) : Prop where
  inside : index < volume.length directory
  before : ∀ earlier ≤ index, directory.slot earlier 0 ≠ direntFreeRest
  live : isLive (directory.slot index) = true

def Directory.shortName (directory : Directory) (index : Nat) : ShortName :=
  shortNameOf (directory.slot index)

def Volume.Tidy (volume : Volume) (directory : Directory) : Prop :=
  ∀ marker later, marker < later → directory.slot marker 0 = direntFreeRest →
    isLive (directory.slot later) = true → ¬ later < volume.length directory

/-- The entries of a directory, but for `spared`, differ in their short names. -/
def Volume.UniqueOff (volume : Volume) (directory : Directory) (spared : Nat → Prop) : Prop :=
  ∀ first second, volume.Visible directory first → volume.Visible directory second →
    ¬ spared first → ¬ spared second →
    directory.shortName first = directory.shortName second → first = second

def Volume.ShortNamesUnique (volume : Volume) : Prop :=
  ∀ cluster, volume.UniqueOff (volume.opened cluster) fun _ => False

variable {volume : Volume} {directory : Directory}

theorem isLive_not_freeRest {slot : Slot} (live : isLive slot = true) :
    slot 0 ≠ direntFreeRest := by
  intro free
  simp [isLive, free] at live

variable (slot : Nat → Slot)

/-- Where the search stops, and what it has passed. -/
theorem findFrom_cases (name11 : ShortName) (left index : Nat) :
    ∃ stop, (∀ earlier, index ≤ earlier → earlier < stop → slot earlier 0 ≠ direntFreeRest ∧
        ¬ (isLive (slot earlier) = true ∧ shortNameOf (slot earlier) = name11)) ∧
      (findFrom slot name11 left index = some stop ∧ stop < index + left ∧
          isLive (slot stop) = true ∧ shortNameOf (slot stop) = name11 ∨
        findFrom slot name11 left index = none ∧
          (stop = index + left ∨ slot stop 0 = direntFreeRest)) := by
  induction left generalizing index with
  | zero => exact ⟨index, by omega, .inr ⟨rfl, .inl rfl⟩⟩
  | succ _ ih =>
    rw [findFrom]
    by_cases ended : slot index 0 = direntFreeRest
    · exact ⟨index, by omega, .inr ⟨if_pos ended, .inr ended⟩⟩
    · rw [if_neg ended]
      by_cases hit : isLive (slot index) = true ∧ shortNameOf (slot index) = name11
      · exact ⟨index, by omega, .inl ⟨if_pos hit, by omega, hit⟩⟩
      · rw [if_neg hit]
        obtain ⟨stop, passed, outcome⟩ := ih (index + 1)
        rw [Nat.add_right_comm] at outcome
        refine ⟨stop, fun earlier above below => ?_, outcome⟩
        by_cases here : earlier = index
        · exact here ▸ ⟨ended, hit⟩
        · exact passed earlier (by omega) below

theorem findInDir_none {name11 : ShortName} (result : volume.findInDir directory name11 = none)
    (index : Nat) (visible : volume.Visible directory index) :
    directory.shortName index ≠ name11 := by
  intro named
  obtain ⟨stop, passed, outcome⟩ := findFrom_cases directory.slot name11 (volume.length directory) 0
  rcases outcome with ⟨found, _⟩ | ⟨_, stopped⟩
  · exact absurd (found.symm.trans result) nofun
  · by_cases before : index < stop
    · exact (passed index (Nat.zero_le _) before).2 ⟨visible.live, named⟩
    · have inside := visible.inside
      rcases stopped with ended | marker
      · omega
      · exact visible.before stop (by omega) marker

/-- A long name that starts at `start` and ends in front of `index`, with no entry in it. -/
def Leads (start : Option Nat) (index : Nat) : Prop :=
  ∀ first, start = some first → first < index ∧
    ∀ position, first ≤ position → position < index → isLive (slot position) = false

variable {index cluster : Nat}

theorem Leads.next {slot : Nat → Slot} {start : Option Nat} (leads : Leads slot start index)
    (dead : isLive (slot index) = false) (begins : Bool) :
    Leads slot (if begins then some index else start) (index + 1) := by
  have ends : ∀ first, first ≤ index →
      (∀ position, first ≤ position → position < index → isLive (slot position) = false) →
      first < index + 1 ∧
        ∀ position, first ≤ position → position < index + 1 → isLive (slot position) = false := by
    intro first low before
    refine ⟨by omega, ?_⟩
    intro position above below
    by_cases here : position = index
    · rw [here]
      exact dead
    · exact before position above (by omega)
  intro first same
  cases begins with
  | true =>
    obtain rfl := Option.some.inj same
    apply ends index (Nat.le_refl _)
    omega
  | false =>
    obtain ⟨low, before⟩ := leads first same
    exact ends first (Nat.le_of_lt low) before

/-- What is visible in `after` was so in `before`, under the same name; `fresh` are the
places of new entries. -/
def Volume.Shows (volume : Volume) (before after : Directory) (fresh : Nat → Prop) : Prop :=
  ∀ index, volume.Visible after index → ¬ fresh index →
    volume.Visible before index ∧ after.shortName index = before.shortName index

variable {after before : Directory}
variable {spared : Nat → Prop}

theorem Volume.Shows.unique (shows_ : volume.Shows before after fun _ => False)
    (unique : volume.UniqueOff before spared) : volume.UniqueOff after spared := by
  intro first second one two keepFirst keepSecond same
  obtain ⟨here, firstName⟩ := shows_ first one id
  obtain ⟨there, secondName⟩ := shows_ second two id
  exact unique first second here there keepFirst keepSecond
    (firstName.symm.trans (same.trans secondName))

/-- One new entry with a name that no other has. -/
theorem Volume.Shows.unique_fresh {place : Nat} (shows_ : volume.Shows before after (· = place))
    (unique : volume.UniqueOff before fun _ => False)
    (apart : volume.Visible after place → ∀ index, volume.Visible before index →
      ¬ spared index → before.shortName index ≠ after.shortName place) :
    volume.UniqueOff after spared := by
  intro first second one two keepFirst keepSecond same
  by_cases newFirst : first = place
  · by_cases newSecond : second = place
    · rw [newFirst, newSecond]
    · obtain ⟨there, name⟩ := shows_ second two newSecond
      rw [newFirst] at same one
      exact absurd (name.symm.trans same.symm) (apart one second there keepSecond)
  · obtain ⟨here, name⟩ := shows_ first one newFirst
    by_cases newSecond : second = place
    · rw [newSecond] at same two
      exact absurd (name.symm.trans same) (apart two first here keepFirst)
    · obtain ⟨there, other⟩ := shows_ second two newSecond
      exact unique first second here there id id (name.symm.trans (same.trans other))

/-- Every live slot of `after` stood in `before` already, but for the `fresh` ones. -/
def Volume.Settled (volume : Volume) (before after : Directory) (fresh : Nat → Prop) : Prop :=
  ∀ index, index < volume.length after → isLive (after.slot index) = true → ¬ fresh index →
    index < volume.length before ∧ after.slot index = before.slot index

theorem Volume.Settled.refl (directory : Directory) (fresh : Nat → Prop) :
    volume.Settled directory directory fresh :=
  fun _ inside _ _ => ⟨inside, rfl⟩

theorem Volume.Settled.trans {first second third : Directory} {fresh : Nat → Prop}
    (front : volume.Settled first second fresh) (back : volume.Settled second third fresh) :
    volume.Settled first third fresh := by
  intro index inside live old
  obtain ⟨there, same⟩ := back index inside live old
  obtain ⟨here, alike⟩ := front index there (same ▸ live) old
  exact ⟨here, same.trans alike⟩

theorem Volume.Settled.mono {fresh more : Nat → Prop} (settled : volume.Settled before after fresh)
    (relax : ∀ index, fresh index → more index) : volume.Settled before after more :=
  fun index inside live old => settled index inside live fun new => old (relax index new)

theorem Volume.Settled.shows_ {fresh : Nat → Prop} (settled : volume.Settled before after fresh)
    (tidy : volume.Tidy before) : volume.Shows before after fresh := by
  intro index visible old
  obtain ⟨inside, same⟩ := settled index visible.inside visible.live old
  have live : isLive (before.slot index) = true := same ▸ visible.live
  refine ⟨⟨inside, ?_, live⟩, ?_⟩
  · intro earlier below free
    rcases Nat.lt_or_eq_of_le below with behind | here
    · exact tidy earlier index behind free live inside
    · rw [here] at free
      exact isLive_not_freeRest live free
  · simp only [Directory.shortName, same]

/-- `after` is `before` with some entries gone and at most one new, which has the literal
short name of `rawName` or one that no entry had. -/
def Volume.Placed (volume : Volume) (before after : Directory) (rawName : Name) : Prop :=
  volume.Settled before after (fun _ => False) ∨
    ∃ place name11, volume.Settled before after (· = place) ∧
      (place < volume.length after → isLive (after.slot place) = true →
        after.shortName place = name11) ∧
      (isLiteral rawName = true ∧ name11 = nameTo83 rawName ∨
        volume.findInDir before name11 = none)

/-- A name that stands for itself is not one an entry has, but for the `spared` ones, and
no entry hides behind an end marker. -/
def Volume.Free (volume : Volume) (directory : Directory) (rawName : Name)
    (spared : Nat → Prop) : Prop :=
  volume.Tidy directory ∧
    (isLiteral rawName = true → ∀ index, volume.Visible directory index → ¬ spared index →
      directory.shortName index ≠ nameTo83 rawName)

theorem Volume.Placed.trans {before middle after : Directory} {rawName : Name}
    (placed : volume.Placed before middle rawName)
    (settled : volume.Settled middle after fun _ => False) :
    volume.Placed before after rawName := by
  rcases placed with gone | ⟨place, name11, front, named, origin⟩
  · exact .inl (gone.trans settled)
  · refine .inr ⟨place, name11, front.trans (settled.mono fun _ absurd => absurd.elim), ?_, origin⟩
    intro inside live
    obtain ⟨within, same⟩ := settled place inside live id
    simp only [Directory.shortName] at named ⊢
    rw [same] at live ⊢
    exact named within live

theorem Volume.Placed.unique {rawName : Name} (placed : volume.Placed before after rawName)
    (unique : volume.UniqueOff before fun _ => False) (free : volume.Free before rawName spared) :
    volume.UniqueOff after spared := by
  rcases placed with gone | ⟨place, name11, settled, named, origin⟩
  · intro first second one two _ _
    exact (gone.shows_ free.1).unique unique first second one two id id
  · apply (settled.shows_ free.1).unique_fresh unique
    intro new index visible kept same
    rw [named new.inside new.live] at same
    rcases origin with ⟨literal, rfl⟩ | absent
    · exact free.2 literal index visible kept same
    · exact findInDir_none absent index visible same

theorem Volume.Visible.congr {other : Volume} (visible : volume.Visible directory index)
    (same : other.slotsPerCluster = volume.slotsPerCluster) : other.Visible directory index := by
  refine ⟨?_, visible.before, visible.live⟩
  simpa only [Volume.length, same] using visible.inside

theorem Volume.UniqueOff.congr {other : Volume} (unique : volume.UniqueOff directory spared)
    (same : other.slotsPerCluster = volume.slotsPerCluster) : other.UniqueOff directory spared := by
  intro first second one two
  exact unique first second (one.congr same.symm) (two.congr same.symm)

theorem noDirectory_unique (spared : Nat → Prop) : volume.UniqueOff noDirectory spared := by
  intro first _ one
  have inside := one.inside
  simp [Volume.length, noDirectory] at inside

def Opens (cluster : Nat) : Prop := ¬ (cluster = 0 ∨ cluster ≥ eocMin)

theorem opened_of_opens (opens : Opens cluster) :
    volume.opened cluster = volume.directory cluster := if_neg opens

theorem opened_of_not_opens (shut : ¬ Opens cluster) :
    volume.opened cluster = noDirectory := if_pos (not_not.mp shut)

theorem setDirectory_opened_self (opens : Opens cluster) :
    (volume.setDirectory cluster directory).opened cluster = directory := by
  rw [opened_of_opens opens]
  exact Function.update_self _ _ _

theorem setDirectory_opened_other {cluster other : Nat} (apart : other ≠ cluster) :
    (volume.setDirectory cluster directory).opened other = volume.opened other := by
  by_cases opens : Opens other
  · rw [opened_of_opens opens, opened_of_opens opens]
    exact Function.update_of_ne apart _ _
  · rw [opened_of_not_opens opens, opened_of_not_opens opens]

theorem Volume.ShortNamesUnique.setDirectory (unique : volume.ShortNamesUnique)
    (here : Opens cluster → volume.UniqueOff directory fun _ => False) :
    (volume.setDirectory cluster directory).ShortNamesUnique := by
  intro other
  by_cases same : other = cluster
  · rw [same]
    by_cases opens : Opens cluster
    · rw [setDirectory_opened_self opens]
      exact (here opens).congr rfl
    · rw [opened_of_not_opens opens]
      exact noDirectory_unique _
  · rw [setDirectory_opened_other same]
    exact (unique other).congr rfl

def KeepsName (change : Slot → Slot) : Prop :=
  ∀ slot offset, offset ≤ 0x0B → change slot offset = slot offset

variable {change : Slot → Slot}

theorem KeepsName.isLive (keeps : KeepsName change) (slot : Slot) :
    isLive (change slot) = isLive slot := by
  simp only [Fat32.isLive, isLfn, isVolumeLabel, attrOf, keeps slot 0 (by omega),
    keeps slot 0x0B (by omega)]

theorem KeepsName.shortNameOf (keeps : KeepsName change) (slot : Slot) :
    shortNameOf (change slot) = shortNameOf slot := by
  apply List.map_congr_left
  intro offset member
  exact keeps slot offset (by have := List.mem_range.mp member; omega)

theorem edit_slot (directory : Directory) (place index : Nat) (change : Slot → Slot) :
    (directory.edit place change).slot index = directory.slot index ∨
      (directory.edit place change).slot index = change (directory.slot index) := by
  by_cases same : index = place
  · rw [same]
    exact .inr (Function.update_self _ _ _)
  · exact .inl (Function.update_of_ne same _ _)

theorem KeepsName.visible_edit (keeps : KeepsName change) (directory : Directory)
    (place index : Nat) :
    volume.Visible (directory.edit place change) index ↔ volume.Visible directory index := by
  have starts : ∀ index, (directory.edit place change).slot index 0 = directory.slot index 0 := by
    intro index
    rcases edit_slot directory place index change with same | changed
    · rw [same]
    · rw [changed, keeps _ 0 (by omega)]
  have lives : Fat32.isLive ((directory.edit place change).slot index) =
      Fat32.isLive (directory.slot index) := by
    rcases edit_slot directory place index change with same | changed
    · rw [same]
    · rw [changed, keeps.isLive]
  constructor
  · intro visible
    refine ⟨visible.inside, ?_, lives ▸ visible.live⟩
    intro earlier below
    rw [← starts]
    exact visible.before earlier below
  · intro visible
    refine ⟨visible.inside, ?_, lives.trans visible.live⟩
    intro earlier below
    rw [starts]
    exact visible.before earlier below

theorem KeepsName.shows_ (keeps : KeepsName change) (directory : Directory) (place : Nat)
    (fresh : Nat → Prop) : volume.Shows directory (directory.edit place change) fresh := by
  intro index visible _
  refine ⟨(keeps.visible_edit directory place index).mp visible, ?_⟩
  unfold Directory.shortName
  rcases edit_slot directory place index change with same | changed
  · rw [same]
  · rw [changed, keeps.shortNameOf]

theorem Volume.ShortNamesUnique.editSlot (unique : volume.ShortNamesUnique)
    (keeps : KeepsName change) (entry : Nat × Nat) :
    (volume.editSlot entry change).ShortNamesUnique := by
  apply unique.setDirectory
  intro opens
  have here := unique entry.1
  rw [opened_of_opens opens] at here
  exact (keeps.shows_ (volume.directory entry.1) entry.2 _).unique here

end Racccoon.Fat32
