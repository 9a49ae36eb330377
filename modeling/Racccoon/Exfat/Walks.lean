import Mathlib.Tactic.Ring
import Racccoon.Exfat.Volume

/-!
Where the directory walks read. The cursor follows a FAT chain to its end, but it
counts the clusters of a contiguous directory upwards and does not know how many
there are: only an end marker stops it in time.
-/

namespace Racccoon.Exfat

inductive Linked (fat : Nat → Nat) (first : Nat) : Nat → Prop where
  | first : Linked fat first first
  | next {cluster : Nat} (linked : Linked fat first cluster) : Linked fat first (fat cluster)

variable (volume : Volume) (directory : Directory)

def Directory.clusterCount : Nat :=
  (directory.dataLength + exfatClusterSizeBytes volume - 1) / exfatClusterSizeBytes volume

def Directory.Holds (cluster : Nat) : Prop :=
  if directory.noFatChain then
    directory.cluster ≤ cluster ∧
      cluster < directory.cluster + directory.clusterCount volume
  else Linked volume.fat directory.cluster cluster

structure Volume.WellFormed (volume : Volume) : Prop where
  sized : 0 < volume.sectorsPerCluster
  bootRegions : 24 ≤ volume.clusterHeapOffset
  addressable : volume.clusterHeapOffset +
    volume.clusterCount * volume.sectorsPerCluster ≤ 2 ^ 32

def Directory.OnVolume : Prop :=
  directory.noFatChain = true → 2 ≤ directory.cluster ∧ 0 < directory.dataLength ∧
    directory.cluster + directory.clusterCount volume ≤ volume.clusterCount + 2

def slotsPerCluster : Nat := volume.sectorsPerCluster * exfatSlotsPerSector

/-- The place of a contiguous directory's `index`-th slot. -/
def Directory.spotAt (index : Nat) : Spot :=
  ⟨directory.cluster + index / slotsPerCluster volume,
    index / exfatSlotsPerSector % volume.sectorsPerCluster, index % exfatSlotsPerSector⟩

def Directory.slotCount : Nat :=
  directory.clusterCount volume * slotsPerCluster volume

def Directory.slots : List Slot :=
  (List.range (directory.slotCount volume)).map fun index =>
    volume.slotAt (directory.spotAt volume index)

/-- An end marker stands among `slots`, outside the secondaries of a File entry; the
first `skip` slots still belong to one. -/
def endsIn : Nat → List Slot → Bool
  | _, [] => false
  | skip + 1, _ :: rest => endsIn skip rest
  | 0, slot :: rest =>
    isEnd slot || endsIn (if isFileEntry slot then secondaryCount slot else 0) rest

def Directory.Ends : Prop :=
  endsIn 0 (directory.slots volume) = true

variable {volume : Volume} {directory : Directory}

/-- Counting up in a row of rows of `size`: the next place of `index`. -/
theorem succ_divMod {size : Nat} (sized : 0 < size) (index : Nat) :
    (index + 1) / size = (if index % size + 1 < size then index / size else index / size + 1) ∧
      (index + 1) % size = if index % size + 1 < size then index % size + 1 else 0 := by
  have whole := Nat.div_add_mod index size
  have bound := Nat.mod_lt index sized
  by_cases inside : index % size + 1 < size
  · have quotient : (index + 1) / size = index / size := by
      apply Nat.div_eq_of_lt_le
      · rw [Nat.mul_comm]
        omega
      · rw [Nat.succ_mul, Nat.mul_comm]
        omega
    have rest := Nat.div_add_mod (index + 1) size
    rw [quotient] at rest
    rw [if_pos inside, if_pos inside]
    exact ⟨quotient, by omega⟩
  · have full : index + 1 = size * (index / size + 1) := by
      rw [Nat.mul_add]
      omega
    rw [if_neg inside, if_neg inside]
    constructor
    · rw [full, Nat.mul_div_cancel_left _ sized]
    · rw [full, Nat.mul_mod_right]

theorem advance_spotAt (sized : 0 < volume.sectorsPerCluster)
    (contiguous : directory.noFatChain = true) (machine : Machine) (index : Nat) :
    advance volume machine ⟨directory, directory.spotAt volume index⟩ =
      directory.spotAt volume (index + 1) := by
  have split : ∀ position, position / slotsPerCluster volume =
      position / exfatSlotsPerSector / volume.sectorsPerCluster := by
    intro position
    rw [slotsPerCluster, Nat.mul_comm, Nat.div_div_eq_div_mul]
  obtain ⟨sector, slot⟩ := succ_divMod (by decide : 0 < exfatSlotsPerSector) index
  obtain ⟨cluster, inCluster⟩ := succ_divMod sized (index / exfatSlotsPerSector)
  simp only [advance, Directory.spotAt, contiguous, split, if_true, sector, slot]
  by_cases sameSector : index % exfatSlotsPerSector + 1 < exfatSlotsPerSector
  · simp only [if_pos sameSector]
  · simp only [if_neg sameSector, cluster, inCluster]
    by_cases sameCluster : index / exfatSlotsPerSector % volume.sectorsPerCluster + 1 <
        volume.sectorsPerCluster
    · simp only [if_pos sameCluster]
    · simp only [if_neg sameCluster, Nat.add_assoc]

theorem cursorInit_spotAt : (cursorInit directory).spot = directory.spotAt volume 0 := by
  simp [cursorInit, Directory.spotAt]

theorem spotAt_inside (sized : 0 < volume.sectorsPerCluster) (index : Nat)
    (inside : index < directory.slotCount volume) :
    index / slotsPerCluster volume < directory.clusterCount volume := by
  have positive : 0 < slotsPerCluster volume :=
    Nat.mul_pos sized (by decide)
  rw [Nat.div_lt_iff_lt_mul positive]
  exact inside

theorem slots_drop (index : Nat) (inside : index < directory.slotCount volume) :
    (directory.slots volume).drop index =
      volume.slotAt (directory.spotAt volume index) ::
        (directory.slots volume).drop (index + 1) := by
  have long : index < (directory.slots volume).length := by
    simpa [Directory.slots] using inside
  rw [List.drop_eq_getElem_cons long]
  simp [Directory.slots]

theorem slots_drop_inside {ahead : List Slot → Prop} (never : ¬ ahead []) (index : Nat)
    (kept : ahead ((directory.slots volume).drop index)) : index < directory.slotCount volume := by
  by_contra outside
  have empty : (directory.slots volume).drop index = [] := by
    apply List.drop_eq_nil_of_le
    simp only [Directory.slots, List.length_map, List.length_range]
    omega
  rw [empty] at kept
  exact never kept

theorem endsIn_nil (skip : Nat) : ¬ endsIn skip [] = true := by
  cases skip with
  | zero => exact Bool.false_ne_true
  | succ skip => exact Bool.false_ne_true

theorem endsIn_exists (skip : Nat) (slots : List Slot) (ends : endsIn skip slots = true) :
    ∃ slot ∈ slots, isEnd slot = true := by
  induction slots generalizing skip with
  | nil => exact absurd ends (endsIn_nil skip)
  | cons slot rest ih =>
    cases skip with
    | succ skip =>
      obtain ⟨found, member, last⟩ := ih skip ends
      exact ⟨found, List.mem_cons_of_mem slot member, last⟩
    | zero =>
      rcases Bool.or_eq_true_iff.mp ends with last | later
      · exact ⟨slot, List.mem_cons_self, last⟩
      · obtain ⟨found, member, last⟩ := ih _ later
        exact ⟨found, List.mem_cons_of_mem slot member, last⟩

/-- Links are only ever cleared by a walk, and what it read of `directory` is inside. -/
structure Contained (volume : Volume) (directory : Directory) (machine : Machine) : Prop where
  cleared : ∀ cluster, machine.fat cluster = volume.fat cluster ∨ machine.fat cluster = 0
  inside : ∀ read ∈ machine.reads, read.directory = directory →
    directory.Holds volume read.spot.cluster

def Cursor.Stopped (cursor : Cursor) : Prop :=
  cursor.spot.cluster = 0 ∨ cursor.spot.cluster ≥ exfatEocMin

/-- Where a cursor over `directory` may stand; `ahead` holds of the slots that a
contiguous directory still has from there on. -/
def OnCourse (volume : Volume) (directory : Directory) (ahead : List Slot → Prop)
    (cursor : Cursor) : Prop :=
  cursor.directory = directory → cursor.Stopped ∨
    if directory.noFatChain then
      ∃ index, cursor.spot = directory.spotAt volume index ∧
        ahead ((directory.slots volume).drop index)
    else Linked volume.fat directory.cluster cursor.spot.cluster

variable {cursor : Cursor}

theorem OnCourse.mono {ahead weaker : List Slot → Prop}
    (course : OnCourse volume directory ahead cursor) (relax : ∀ slots, ahead slots → weaker slots) :
    OnCourse volume directory weaker cursor := by
  intro same
  rcases course same with stopped | place
  · exact .inl stopped
  · right
    by_cases contiguous : directory.noFatChain = true
    · rw [if_pos contiguous] at place ⊢
      obtain ⟨index, spot, kept⟩ := place
      exact ⟨index, spot, relax _ kept⟩
    · rw [if_neg contiguous] at place ⊢
      exact place

variable {machine : Machine}

theorem cursorNext_eq {after : Machine} {next : Cursor} {slot : Slot}
    (fetched : cursorNext volume machine cursor = some (slot, next, after)) :
    ¬ cursor.Stopped ∧ slot = volume.slotAt cursor.spot ∧
      next = { cursor with spot := advance volume machine cursor } ∧
      after = { machine with reads := ⟨cursor.directory, cursor.spot⟩ :: machine.reads } := by
  unfold cursorNext at fetched
  by_cases stopped : cursor.spot.cluster = 0 ∨ cursor.spot.cluster ≥ exfatEocMin
  · rw [if_pos stopped] at fetched
    cases fetched
  · rw [if_neg stopped] at fetched
    simp only [Option.some.injEq, Prod.mk.injEq] at fetched
    exact ⟨stopped, fetched.1.symm, fetched.2.1.symm, fetched.2.2.symm⟩

theorem advance_linked (chained : cursor.directory.noFatChain = false)
    (cleared : ∀ cluster, machine.fat cluster = volume.fat cluster ∨ machine.fat cluster = 0)
    (linked : Linked volume.fat cursor.directory.cluster cursor.spot.cluster) :
    (advance volume machine cursor).cluster = 0 ∨
      Linked volume.fat cursor.directory.cluster (advance volume machine cursor).cluster := by
  unfold advance
  dsimp only
  split
  · exact .inr linked
  · split
    · exact .inr linked
    · simp only [chained]
      rcases cleared cursor.spot.cluster with kept | gone
      · rw [kept]
        exact .inr linked.next
      · exact .inl gone

theorem cursorNext_contained (sized : 0 < volume.sectorsPerCluster) {after : Machine}
    {next : Cursor} {slot : Slot} {ahead : List Slot → Prop} (never : ¬ ahead [])
    (contained : Contained volume directory machine)
    (course : OnCourse volume directory ahead cursor)
    (fetched : cursorNext volume machine cursor = some (slot, next, after)) :
    Contained volume directory after ∧
      OnCourse volume directory (fun rest => ahead (slot :: rest)) next := by
  obtain ⟨live, rfl, rfl, rfl⟩ := cursorNext_eq fetched
  by_cases same : cursor.directory = directory
  · subst same
    have place := (course rfl).resolve_left live
    by_cases contiguous : cursor.directory.noFatChain = true
    · rw [if_pos contiguous] at place
      obtain ⟨index, spot, kept⟩ := place
      have low := slots_drop_inside never index kept
      have within := spotAt_inside sized index low
      have moved : advance volume machine cursor = cursor.directory.spotAt volume (index + 1) := by
        have step := advance_spotAt sized contiguous machine index
        rwa [← spot] at step
      rw [slots_drop index low, ← spot] at kept
      refine ⟨⟨contained.cleared, ?_⟩, ?_⟩
      · intro read member tagged
        rcases List.mem_cons.mp member with rfl | old
        · rw [Directory.Holds, if_pos contiguous, spot]
          exact ⟨Nat.le_add_right _ _, Nat.add_lt_add_left within _⟩
        · exact contained.inside read old tagged
      · intro _
        right
        rw [if_pos contiguous]
        exact ⟨index + 1, moved, kept⟩
    · have chained : cursor.directory.noFatChain = false := by simpa using contiguous
      rw [if_neg contiguous] at place
      refine ⟨⟨contained.cleared, ?_⟩, ?_⟩
      · intro read member tagged
        rcases List.mem_cons.mp member with rfl | old
        · rw [Directory.Holds, if_neg contiguous]
          exact place
        · exact contained.inside read old tagged
      · intro _
        rcases advance_linked chained contained.cleared place with stop | linked
        · exact .inl (.inl stop)
        · right
          rw [if_neg contiguous]
          exact linked
  · refine ⟨⟨contained.cleared, ?_⟩, fun found => absurd found same⟩
    intro read member tagged
    rcases List.mem_cons.mp member with rfl | old
    · exact absurd tagged same
    · exact contained.inside read old tagged

theorem onCourse_stopped {ahead : List Slot → Prop}
    (ended : cursorNext volume machine cursor = none) : OnCourse volume directory ahead cursor := by
  intro _
  left
  unfold cursorNext at ended
  by_contra live
  have running : ¬ (cursor.spot.cluster = 0 ∨ cursor.spot.cluster ≥ exfatEocMin) := live
  rw [if_neg running] at ended
  cases ended

/-- The cursor after `left` slots, or where the clusters end before. -/
def passSlots (volume : Volume) : Nat → Machine → Cursor → Cursor × Machine
  | 0, machine, cursor => (cursor, machine)
  | left + 1, machine, cursor =>
    match cursorNext volume machine cursor with
    | none => (cursor, machine)
    | some (_, next, machine) => passSlots volume left machine next

theorem readNames_passes (nameLength left i : Nat) (machine : Machine) (cursor : Cursor)
    (buffer : NameBuffer) (locs : List Spot) :
    (readNames volume nameLength left i machine cursor buffer locs).2.2 =
      passSlots volume left machine cursor := by
  induction left generalizing i machine cursor buffer locs with
  | zero => rfl
  | succ _ ih =>
    rw [readNames, passSlots]
    cases cursorNext volume machine cursor with
    | none => rfl
    | some result => exact ih _ _ _ _ _

theorem readEntrySet_passes (machine : Machine) (head : Slot) (spot : Spot) (cursor : Cursor)
    (buffer : NameBuffer) :
    (readEntrySet volume machine head spot cursor buffer).2.2 =
      passSlots volume (secondaryCount head) machine cursor := by
  unfold readEntrySet
  cases secondaryCount head with
  | zero => rfl
  | succ left =>
    rw [passSlots]
    cases cursorNext volume machine cursor with
    | none => rfl
    | some result =>
      have names := @readNames_passes volume (streamNameLength result.1) left 1 result.2.2
        result.2.1 buffer [spot, cursor.spot]
      dsimp only
      split
      · exact names
      · split
        · exact names
        · exact names

/-- What a fetch and the slots of a set keep, and the body of a walk, the walk keeps. `on`
holds of a cursor with so many slots of a set ahead. -/
theorem scanSets_keeps {σ ρ : Type} {on : Nat → Machine → Cursor → Prop} {kept : Machine → Prop}
    (held : ∀ {machine cursor}, on 0 machine cursor → kept machine)
    (fetches : ∀ {machine cursor slot next after}, on 0 machine cursor →
      cursorNext volume machine cursor = some (slot, next, after) → kept after ∧
        (isEnd slot = false → on (if isFileEntry slot then secondaryCount slot else 0) after next))
    (passes : ∀ {left machine cursor}, on left machine cursor →
      on 0 (passSlots volume left machine cursor).2 (passSlots volume left machine cursor).1)
    (enough : σ → Bool) (finish : σ → ρ)
    (body : σ → EntrySet → NameBuffer → Machine → Option (Next σ ρ) × Machine)
    (keeps : ∀ state set buffer machine cursor, on 0 machine cursor →
      on 0 (body state set buffer machine).2 cursor) (fuel : Nat) (machine : Machine)
    (cursor : Cursor) (buffer : NameBuffer) (state : σ) (start : on 0 machine cursor) :
    kept (scanSets volume enough finish body fuel machine cursor buffer state).2 := by
  induction fuel generalizing machine cursor buffer state with
  | zero => exact held start
  | succ fuel ih =>
    rw [scanSets]
    split
    · exact held start
    · cases fetched : cursorNext volume machine cursor with
      | none => exact held start
      | some result =>
        obtain ⟨slot, next, after⟩ := result
        obtain ⟨still, ahead⟩ := fetches start fetched
        dsimp only
        by_cases last : isEnd slot = true
        · rw [if_pos last]
          exact still
        · rw [if_neg last]
          have more := ahead (by simpa using last)
          by_cases file : isFileEntry slot = true
          · rw [if_neg (by simp [file])]
            rw [if_pos file] at more
            have set : on 0 (readEntrySet volume after slot cursor.spot next buffer).2.2.2
                (readEntrySet volume after slot cursor.spot next buffer).2.2.1 := by
              rw [readEntrySet_passes]
              exact passes more
            generalize readEntrySet volume after slot cursor.spot next buffer = read at set
            obtain ⟨found, buffer, next, after⟩ := read
            cases found with
            | none => exact ih _ _ _ _ set
            | some found =>
              dsimp only at set ⊢
              have done := keeps state found buffer after next set
              generalize body state found buffer after = result at done
              obtain ⟨verdict, after⟩ := result
              cases verdict with
              | none => exact held done
              | some verdict =>
                cases verdict with
                | leave => exact held done
                | go => exact ih _ _ _ _ done
          · rw [if_pos (by simp [file])]
            rw [if_neg file] at more
            exact ih _ _ _ _ more

section
variable (sized : 0 < volume.sectorsPerCluster)
include sized

theorem passSlots_contained {left : Nat} (contained : Contained volume directory machine)
    (course : OnCourse volume directory (endsIn left · = true) cursor) :
    Contained volume directory (passSlots volume left machine cursor).2 ∧
      OnCourse volume directory (endsIn 0 · = true) (passSlots volume left machine cursor).1 := by
  induction left generalizing machine cursor with
  | zero => exact ⟨contained, course⟩
  | succ left ih =>
    rw [passSlots]
    cases fetched : cursorNext volume machine cursor with
    | none => exact ⟨contained, onCourse_stopped fetched⟩
    | some result =>
      obtain ⟨still, ahead⟩ :=
        cursorNext_contained sized (endsIn_nil (left + 1)) contained course fetched
      exact ih still ahead

/-- A walk whose body reads inside reads inside. -/
theorem scanSets_contained {σ ρ : Type} (enough : σ → Bool) (finish : σ → ρ)
    (body : σ → EntrySet → NameBuffer → Machine → Option (Next σ ρ) × Machine)
    (keeps : ∀ state set buffer machine, Contained volume directory machine →
      Contained volume directory (body state set buffer machine).2) (fuel : Nat) (machine : Machine)
    (cursor : Cursor) (buffer : NameBuffer) (state : σ)
    (contained : Contained volume directory machine)
    (course : OnCourse volume directory (endsIn 0 · = true) cursor) :
    Contained volume directory
      (scanSets volume enough finish body fuel machine cursor buffer state).2 := by
  refine @scanSets_keeps volume σ ρ (fun left machine cursor => Contained volume directory machine ∧
    OnCourse volume directory (endsIn left · = true) cursor) _ (fun on => on.1) ?_
    (fun on => passSlots_contained sized on.1 on.2) enough finish body
    (fun state set buffer machine _ on => ⟨keeps state set buffer machine on.1, on.2⟩)
    fuel machine cursor buffer state ⟨contained, course⟩
  rintro machine cursor slot next after ⟨contained, course⟩ fetched
  obtain ⟨still, ahead⟩ := cursorNext_contained sized (endsIn_nil 0) contained course fetched
  refine ⟨still, fun notEnd => ⟨still, ahead.mono fun rest ends => ?_⟩⟩
  simpa only [endsIn, notEnd, Bool.false_or] using ends

theorem dirIsEmptyFrom_contained (fuel : Nat) (machine : Machine) (cursor : Cursor)
    (contained : Contained volume directory machine)
    (course : OnCourse volume directory (fun slots => ∃ slot ∈ slots, isEnd slot = true) cursor) :
    Contained volume directory (dirIsEmptyFrom volume fuel machine cursor).2 := by
  induction fuel generalizing machine cursor with
  | zero => exact contained
  | succ _ ih =>
    rw [dirIsEmptyFrom]
    cases fetched : cursorNext volume machine cursor with
    | none => exact contained
    | some result =>
      obtain ⟨slot, next, after⟩ := result
      obtain ⟨still, ahead⟩ := cursorNext_contained sized (by simp) contained course fetched
      dsimp only
      by_cases last : isEnd slot = true
      · rw [if_pos last]
        exact still
      · rw [if_neg last]
        split
        · exact still
        · apply ih _ _ still
          apply ahead.mono
          rintro rest ⟨found, member, ends⟩
          rcases List.mem_cons.mp member with rfl | later
          · exact absurd ends last
          · exact ⟨found, later, ends⟩

end

theorem freeCluster_contained (machine : Machine) (cluster : Nat)
    (contained : Contained volume directory machine) :
    Contained volume directory (freeCluster volume machine cluster).2 := by
  unfold freeCluster
  split
  · exact contained
  · exact ⟨contained.cleared, contained.inside⟩

theorem freeRun_contained (first left i : Nat) (machine : Machine)
    (contained : Contained volume directory machine) :
    Contained volume directory (freeRun volume first left i machine).2 := by
  induction left generalizing i machine with
  | zero => exact contained
  | succ _ ih =>
    rw [freeRun]
    have freed := freeCluster_contained machine (first + i) contained
    generalize freeCluster volume machine (first + i) = done at freed
    obtain ⟨ok, after⟩ := done
    cases ok with
    | false => exact freed
    | true => exact ih _ _ freed

theorem freeChain_contained (left cluster : Nat) (machine : Machine)
    (contained : Contained volume directory machine) :
    Contained volume directory (freeChain volume left cluster machine).2 := by
  induction left generalizing cluster machine with
  | zero => exact contained
  | succ _ ih =>
    rw [freeChain]
    split
    · exact contained
    · have freed := freeCluster_contained machine cluster contained
      generalize freeCluster volume machine cluster = done at freed
      obtain ⟨ok, after⟩ := done
      cases ok with
      | false => exact freed
      | true =>
        apply ih
        refine ⟨?_, freed.inside⟩
        intro other
        by_cases same : other = cluster
        · subst same
          exact .inr (Function.update_self ..)
        · dsimp only
          rw [Function.update_of_ne same]
          exact freed.cleared other

theorem freeData_contained (machine : Machine) (freed : Directory)
    (contained : Contained volume directory machine) :
    Contained volume directory (freeData volume machine freed).2 := by
  unfold freeData
  split
  · exact contained
  · split
    · exact freeRun_contained _ _ _ _ contained
    · exact freeChain_contained _ _ _ contained

theorem cursorInit_onCourse (closed : directory.noFatChain = false ∨ directory.Ends volume)
    (started : Directory) : OnCourse volume directory (endsIn 0 · = true) (cursorInit started) := by
  intro same
  have here : started = directory := same
  subst here
  right
  by_cases contiguous : started.noFatChain = true
  · rw [if_pos contiguous]
    refine ⟨0, cursorInit_spotAt, ?_⟩
    exact closed.resolve_left (by simp [contiguous])
  · rw [if_neg contiguous]
    exact .first

section
variable (sized : 0 < volume.sectorsPerCluster)
variable (closed : directory.noFatChain = false ∨ directory.Ends volume)
include sized closed

theorem freeTree_contained (fuel levels : Nat) (machine : Machine) (started : Directory)
    (contained : Contained volume directory machine) :
    Contained volume directory (freeTree volume fuel levels machine started).2 := by
  induction levels generalizing machine started with
  | zero => exact contained
  | succ levels ih =>
    apply scanSets_contained sized _ _ _ _ _ _ _ _ _ contained
      (cursorInit_onCourse closed started)
    intro _ set _ machine contained
    split
    · exact contained
    · have emptied : Contained volume directory
          (if isDirectory set.attr then freeTree volume fuel levels machine set.directory
            else (some true, machine)).2 := by
        split
        · exact ih machine set.directory contained
        · exact contained
      generalize (if isDirectory set.attr then
        freeTree volume fuel levels machine set.directory else (some true, machine)) = done
        at emptied
      obtain ⟨verdict, after⟩ := done
      cases verdict with
      | none => exact emptied
      | some ok =>
        cases ok with
        | false => exact emptied
        | true =>
          dsimp only at emptied ⊢
          have freed := freeData_contained after set.directory emptied
          generalize freeData volume after set.directory = done at freed
          obtain ⟨ok, after⟩ := done
          cases ok with
          | false => exact freed
          | true => exact freed

theorem subtreeContains_contained (fuel target levels : Nat) (machine : Machine)
    (started : Directory) (contained : Contained volume directory machine) :
    Contained volume directory
      (subtreeContains volume fuel target levels machine started).2 := by
  induction levels generalizing machine started with
  | zero => exact contained
  | succ levels ih =>
    apply scanSets_contained sized _ _ _ _ _ _ _ _ _ contained
      (cursorInit_onCourse closed started)
    intro _ set _ machine contained
    split
    · exact contained
    · split
      · exact contained
      · have below := ih machine set.directory contained
        generalize subtreeContains volume fuel target levels machine set.directory = done
          at below
        obtain ⟨verdict, after⟩ := done
        cases verdict with
        | none => exact below
        | some found =>
          cases found with
          | false => exact below
          | true => exact below

inductive Walk where
  | lookup (name : List Char16)
  | list (maxEntries start : Nat)
  | emptiness
  | freeTree
  | subtreeCheck (target : Nat)

/-- The machine a walk of `directory` leaves after at most `fuel` rounds of each loop. -/
def Walk.run (volume : Volume) (fuel : Nat) (machine : Machine) (directory : Directory)
    (buffer : NameBuffer) : Walk → Machine
  | .lookup name => (findInDir volume fuel machine directory name buffer).2
  | .list maxEntries start => (listDir volume fuel machine directory maxEntries start buffer).2
  | .emptiness => (dirIsEmpty volume fuel machine directory).2
  | .freeTree => (Exfat.freeTree volume fuel exfatMaxDeleteDepth machine directory).2
  | .subtreeCheck target =>
    (subtreeContains volume fuel target exfatMaxDeleteDepth machine directory).2

theorem Walk.run_contained (walk : Walk) (fuel : Nat) (machine : Machine) (started : Directory)
    (buffer : NameBuffer) (contained : Contained volume directory machine) :
    Contained volume directory (walk.run volume fuel machine started buffer) := by
  have course := cursorInit_onCourse closed started
  cases walk with
  | lookup =>
    exact scanSets_contained sized _ _ _ (fun _ _ _ _ kept => kept) _ _ _ _ _ contained course
  | list =>
    exact scanSets_contained sized _ _ _ (fun _ _ _ _ kept => kept) _ _ _ _ _ contained course
  | emptiness =>
    apply dirIsEmptyFrom_contained sized _ _ _ contained
    exact course.mono fun slots ends => endsIn_exists 0 slots ends
  | freeTree => exact freeTree_contained sized closed _ _ _ _ contained
  | subtreeCheck target => exact subtreeContains_contained sized closed _ _ _ _ _ contained

end

theorem cursorNext_keeps {read : Read} {after : Machine} {next : Cursor} {slot : Slot}
    (fetched : cursorNext volume machine cursor = some (slot, next, after))
    (seen : read ∈ machine.reads) : read ∈ after.reads := by
  obtain ⟨_, _, _, rfl⟩ := cursorNext_eq fetched
  exact List.mem_cons_of_mem _ seen

theorem passSlots_keeps {read : Read} {left : Nat} (seen : read ∈ machine.reads) :
    read ∈ (passSlots volume left machine cursor).2.reads := by
  induction left generalizing machine cursor with
  | zero => exact seen
  | succ _ ih =>
    rw [passSlots]
    cases fetched : cursorNext volume machine cursor with
    | none => exact seen
    | some result => exact ih (cursorNext_keeps fetched seen)

/-- What was read stays read. -/
theorem scanSets_reads {read : Read} {σ ρ : Type} (enough : σ → Bool) (finish : σ → ρ)
    (body : σ → EntrySet → NameBuffer → Machine → Option (Next σ ρ) × Machine)
    (keeps : ∀ state set buffer machine, read ∈ machine.reads →
      read ∈ (body state set buffer machine).2.reads) (fuel : Nat) (machine : Machine)
    (cursor : Cursor) (buffer : NameBuffer) (state : σ) (seen : read ∈ machine.reads) :
    read ∈ (scanSets volume enough finish body fuel machine cursor buffer state).2.reads :=
  @scanSets_keeps volume σ ρ (fun _ machine _ => read ∈ machine.reads) _ id
    (fun seen fetched => ⟨cursorNext_keeps fetched seen, fun _ => cursorNext_keeps fetched seen⟩)
    passSlots_keeps enough finish body (fun state set buffer machine _ => keeps state set buffer machine)
    fuel machine cursor buffer state seen

def Directory.beyond (volume : Volume) (directory : Directory) : Read :=
  ⟨directory, directory.spotAt volume (directory.slotCount volume)⟩

theorem beyond_outside (sized : 0 < volume.sectorsPerCluster)
    (contiguous : directory.noFatChain = true) :
    ¬ directory.Holds volume (directory.beyond volume).spot.cluster := by
  intro holds
  rw [Directory.Holds, if_pos contiguous] at holds
  have positive : 0 < slotsPerCluster volume := Nat.mul_pos sized (by decide)
  have whole : directory.slotCount volume / slotsPerCluster volume =
      directory.clusterCount volume := by
    rw [Directory.slotCount, Nat.mul_div_cancel _ positive]
  simp only [Directory.beyond, Directory.spotAt, whole] at holds
  exact absurd holds.2 (Nat.lt_irrefl _)

section
variable (formed : volume.WellFormed) (held : directory.OnVolume volume)
  (contiguous : directory.noFatChain = true)
include formed held contiguous

theorem spotAt_live {index : Nat} (inside : index ≤ directory.slotCount volume) :
    ¬ Cursor.Stopped ⟨directory, directory.spotAt volume index⟩ := by
  obtain ⟨low, _, high⟩ := held contiguous
  have bounded : index / slotsPerCluster volume ≤ directory.clusterCount volume := by
    apply Nat.div_le_of_le_mul
    rwa [Nat.mul_comm]
  have clusters : volume.clusterCount ≤ volume.clusterCount * volume.sectorsPerCluster :=
    Nat.le_mul_of_pos_right _ formed.sized
  have first := formed.bootRegions
  have last := formed.addressable
  intro stopped
  have place : directory.cluster ≤ directory.cluster + index / slotsPerCluster volume ∧
      directory.cluster + index / slotsPerCluster volume ≤
        directory.cluster + directory.clusterCount volume :=
    ⟨Nat.le_add_right _ _, Nat.add_le_add_left bounded _⟩
  simp only [Cursor.Stopped, Directory.spotAt, exfatEocMin] at stopped
  omega

/-- The cursor of a contiguous directory moves to its next slot. -/
theorem cursorNext_spotAt (machine : Machine) {index : Nat}
    (inside : index ≤ directory.slotCount volume) :
    cursorNext volume machine ⟨directory, directory.spotAt volume index⟩ =
      some (volume.slotAt (directory.spotAt volume index),
        ⟨directory, directory.spotAt volume (index + 1)⟩,
        { machine with
          reads := ⟨directory, directory.spotAt volume index⟩ :: machine.reads }) := by
  have live := spotAt_live formed held contiguous inside
  have running : ¬ ((directory.spotAt volume index).cluster = 0 ∨
    (directory.spotAt volume index).cluster ≥ exfatEocMin) := live
  unfold cursorNext
  rw [if_neg running, advance_spotAt formed.sized contiguous]

/-- Passing `left` secondaries without an end marker ahead: either the cursor leaves the
directory or it stands at the head of what follows. -/
theorem passSlots_runs_off (left index : Nat) (machine : Machine)
    (inside : index ≤ directory.slotCount volume)
    (endless : endsIn left ((directory.slots volume).drop index) = false) :
    directory.beyond volume ∈
        (passSlots volume left machine ⟨directory, directory.spotAt volume index⟩).2.reads ∨
      ∃ reached, index ≤ reached ∧ reached ≤ directory.slotCount volume ∧
        (passSlots volume left machine ⟨directory, directory.spotAt volume index⟩).1 =
          ⟨directory, directory.spotAt volume reached⟩ ∧
        endsIn 0 ((directory.slots volume).drop reached) = false := by
  induction left generalizing index machine with
  | zero => exact .inr ⟨index, Nat.le_refl _, inside, rfl, endless⟩
  | succ left ih =>
    rw [passSlots, cursorNext_spotAt formed held contiguous machine inside]
    by_cases last : index = directory.slotCount volume
    · left
      apply passSlots_keeps
      rw [last]
      exact List.mem_cons_self
    · have more : index < directory.slotCount volume := by omega
      rw [slots_drop index more] at endless
      rcases ih (index + 1) _ more endless with gone | ⟨reached, low, rest⟩
      · exact .inl gone
      · exact .inr ⟨reached, by omega, rest⟩

/-- A listing that starts after more entries than the directory can hold passes them all
and reads on behind its last cluster. -/
theorem listDir_runs_off (fuel index seen : Nat) (machine : Machine)
    (buffer : NameBuffer) (inside : index ≤ directory.slotCount volume)
    (fuelled : directory.slotCount volume < index + fuel) (passed : seen ≤ index)
    (endless : endsIn 0 ((directory.slots volume).drop index) = false) :
    directory.beyond volume ∈ (scanSets volume
      (fun (listing : Listing) => listing.names.length ≥ 1) (·.names)
      (fun (listing : Listing) set candidate machine =>
        (some (.go
          { seen := listing.seen + 1
            names :=
              if listing.seen ≥ directory.slotCount volume then
                listing.names ++
                  [(displayName candidate set.nameLength, isDirectory set.attr)]
              else listing.names }), machine))
      fuel machine ⟨directory, directory.spotAt volume index⟩ buffer ⟨seen, []⟩).2.reads := by
  induction fuel generalizing index seen machine buffer with
  | zero => omega
  | succ _ ih =>
    rw [scanSets, cursorNext_spotAt formed held contiguous machine inside]
    have unlisted : ¬ (decide (([] : List (List (BitVec 8) × Bool)).length ≥ 1)) = true := by
      simp
    rw [if_neg unlisted]
    dsimp only
    by_cases last : index = directory.slotCount volume
    · -- The slot just fetched is the one behind the directory.
      have here : directory.beyond volume ∈
          ⟨directory, directory.spotAt volume index⟩ :: machine.reads := by
        rw [last]
        exact List.mem_cons_self
      split
      · exact here
      · split
        · exact scanSets_reads _ _ _ (fun _ _ _ _ kept => kept) _ _ _ _ _ here
        · have set := @passSlots_keeps volume ⟨directory, directory.spotAt volume (index + 1)⟩
            { machine with reads := ⟨directory, directory.spotAt volume index⟩ :: machine.reads }
            _ (secondaryCount (volume.slotAt (directory.spotAt volume index))) here
          rw [← readEntrySet_passes _ _ (directory.spotAt volume index) _ buffer] at set
          generalize readEntrySet volume _ _ _ _ buffer = done at set
          obtain ⟨found, buffer, next, after⟩ := done
          cases found with
          | none => exact scanSets_reads _ _ _ (fun _ _ _ _ kept => kept) _ _ _ _ _ set
          | some found => exact scanSets_reads _ _ _ (fun _ _ _ _ kept => kept) _ _ _ _ _ set
    · have more : index < directory.slotCount volume := by omega
      rw [slots_drop index more] at endless
      have split := Bool.or_eq_false_iff.mp endless
      have notEnd : ¬ isEnd (volume.slotAt (directory.spotAt volume index)) = true := by
        simp [split.1]
      rw [if_neg notEnd]
      have rest := split.2
      by_cases file : isFileEntry (volume.slotAt (directory.spotAt volume index)) = true
      · have notOther :
            ¬ ((!isFileEntry (volume.slotAt (directory.spotAt volume index))) = true) := by
          simp [file]
        rw [if_neg notOther]
        rw [if_pos file] at rest
        have set := passSlots_runs_off formed held contiguous _ (index + 1)
          { machine with reads := ⟨directory, directory.spotAt volume index⟩ :: machine.reads }
          more rest
        rw [← readEntrySet_passes _ _ (directory.spotAt volume index) _ buffer] at set
        generalize readEntrySet volume _ _ _ _ buffer = done at set
        obtain ⟨found, buffer, next, after⟩ := done
        rcases set with gone | ⟨reached, low, high, rfl, endless⟩
        · cases found with
          | none => exact scanSets_reads _ _ _ (fun _ _ _ _ kept => kept) _ _ _ _ _ gone
          | some => exact scanSets_reads _ _ _ (fun _ _ _ _ kept => kept) _ _ _ _ _ gone
        · cases found with
          | none => exact ih reached seen after buffer high (by omega) (by omega) endless
          | some found =>
            have early : ¬ seen ≥ directory.slotCount volume := by omega
            dsimp only
            rw [if_neg early]
            exact ih reached (seen + 1) after buffer high (by omega) (by omega) endless
      · have other : (!isFileEntry (volume.slotAt (directory.spotAt volume index))) = true := by
          simp [file]
        rw [if_pos other]
        rw [if_neg file] at rest
        exact ih (index + 1) seen _ buffer more (by omega) (by omega) rest

end
def fresh (volume : Volume) (allocated : Nat → Bool) : Machine := ⟨volume.fat, allocated, []⟩

theorem fresh_contained (allocated : Nat → Bool) :
    Contained volume directory (fresh volume allocated) :=
  ⟨fun _ => .inl rfl, fun _ member => absurd member List.not_mem_nil⟩

/-- The slots that walks read of a directory are its own exactly when it is a FAT chain
or holds an end marker. -/
theorem walks_stay_inside_iff (volume : Volume) (directory : Directory)
    (formed : volume.WellFormed) (held : directory.OnVolume volume) :
    (∀ (walk : Walk) (fuel : Nat) (started : Directory) (buffer : NameBuffer)
        (allocated : Nat → Bool),
      ∀ read ∈ (walk.run volume fuel (fresh volume allocated) started buffer).reads,
        read.directory = directory → directory.Holds volume read.spot.cluster) ↔
      directory.noFatChain = false ∨ directory.Ends volume := by
  constructor
  · intro inside
    by_contra neither
    obtain ⟨chained, endless⟩ := not_or.mp neither
    have contiguous : directory.noFatChain = true := by simpa using chained
    have runs := listDir_runs_off formed held contiguous (directory.slotCount volume + 1) 0 0
      (fresh volume fun _ => false) blankBuffer (Nat.zero_le _) (by omega) (Nat.le_refl _)
      (by simpa [Directory.Ends] using endless)
    rw [← cursorInit_spotAt] at runs
    exact beyond_outside formed.sized contiguous
      (inside (.list 1 (directory.slotCount volume)) (directory.slotCount volume + 1) directory
        blankBuffer (fun _ => false) (directory.beyond volume) runs rfl)
  · intro closed walk fuel started buffer allocated read member tagged
    exact (walk.run_contained formed.sized closed fuel (fresh volume allocated) started buffer
      (fresh_contained allocated)).inside read member tagged

def headSlot (secondaries : BitVec 8) : Slot := fun offset =>
  if offset = 0x00 then 0x85 else if offset = 0x01 then secondaries else 0

def streamSlot (nameLength : BitVec 8) : Slot := fun offset =>
  if offset = 0x00 then 0xC0 else if offset = 0x03 then nameLength else 0

def nameSlot (char : BitVec 8) : Slot := fun offset =>
  if offset = 0x00 then 0xC1 else if offset = 0x02 then char else 0

def neighboursSlot (spot : Spot) : Slot :=
  let inDirectory := spot.cluster = 5
  if spot.cluster = 8 ∧ 3 ≤ spot.entryInSector then fun _ => 0
  else
    match spot.entryInSector % 4 with
    | 0 => headSlot (if inDirectory then 3 else 2)
    | 1 => streamSlot (if inDirectory then 20 else 1)
    | _ => nameSlot (if inDirectory then BitVec.ofNat 8 spot.entryInSector else 0x78)

def neighbours : Volume :=
  { sectorsPerCluster := 1
    clusterHeapOffset := 24
    clusterCount := 16
    rootCluster := 4
    bitmapCluster := 2
    upcaseLow := BitVec.ofNat 16
    protectedEntry := fun _ => false
    fat := fun _ => 0
    slotAt := neighboursSlot }

theorem neighbours_wellFormed : neighbours.WellFormed := ⟨by decide, by decide, by decide⟩

/-- One entry set, and the end marker. -/
def oneSet : Directory := ⟨8, true, 512⟩

theorem walks_stay_inside_empty :
    oneSet.Ends neighbours ∧
      ∀ (walk : Walk) (fuel : Nat) (started : Directory) (buffer : NameBuffer)
          (allocated : Nat → Bool),
        ∀ read ∈ (walk.run neighbours fuel (fresh neighbours allocated) started buffer).reads,
          read.directory = oneSet →
            oneSet.Holds neighbours read.spot.cluster := by
  have ends : oneSet.Ends neighbours := by
    unfold Directory.Ends
    decide
  exact ⟨ends, (walks_stay_inside_iff neighbours oneSet neighbours_wellFormed
    (fun _ => by decide)).mpr (.inr ends)⟩

def fullDirectory : Directory := ⟨5, true, 512⟩

theorem full_directory_reads_neighbour :
    neighbours.WellFormed ∧ fullDirectory.OnVolume neighbours ∧
      ∃ read ∈ (Walk.run neighbours 20 (fresh neighbours fun _ => true) fullDirectory
          blankBuffer (.lookup [0x78])).reads,
        read.directory = fullDirectory ∧ ¬ fullDirectory.Holds neighbours read.spot.cluster :=
  ⟨neighbours_wellFormed, fun _ => by decide,
    fullDirectory.beyond neighbours, by decide, rfl, beyond_outside (by decide) rfl⟩

end Racccoon.Exfat
