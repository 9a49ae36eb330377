import Racccoon.Fat32.Deletes

/-!
Which slots a removal marks. The long name of an entry stands in front of it in the order
of the directory's chain; the mark loops of `fat32_delete`, `fat32_delete_recursive` and
`fat32_rename` go from sector to sector of the disk instead. The two meet when the group
of the entry lies in line on the disk.
-/

namespace Racccoon.Fat32

open ChainWalk

def markedFrom (slots : Nat) (reserved : Nat → Bool) (entry : Place) : Nat → Place → List Place
  | 0, _ => []
  | fuel + 1, place =>
    if place = entry ∨ reserved place.1 = true then []
    else place :: markedFrom slots reserved entry fuel (nextPlace slots place)

def Machine.mark (machine : Machine) (place : Place) : Machine :=
  machine.putSector place.1 (place.2 / slotsPerSector) fun offset =>
    (if offset / direntSize = place.2 then
        markDeleted (machine.disk.slotIn (place.1, offset / direntSize))
      else machine.disk.slotIn (place.1, offset / direntSize)) (offset % direntSize)

/-- The slots a removal marks: the entry, and what the loop marks from the start of the
long name. -/
def removedSlots (machine : Machine) (fuel : Nat) (hit : Hit) : List Place :=
  hit.place :: hit.lfnStart.elim []
    (markedFrom machine.disk.slotsPerCluster machine.reserved hit.place fuel)

variable {machine : Machine}
variable {place entry : Place}

theorem editSlot_marks (writable : machine.reserved place.1 = false) :
    editSlot place markDeleted machine = (true, machine.mark place) := by
  simp only [editSlot, editSlots, writeSector, writable]
  rfl

theorem editSlot_refused (refused : machine.reserved place.1 = true) :
    editSlot place markDeleted machine = (false, machine) := by
  simp only [editSlot, editSlots, writeSector, refused, if_true]

theorem removeLfn_succ (apart : place ≠ entry) (fuel : Nat) (machine : Machine) :
    removeLfn entry (fuel + 1) place machine =
      (if (editSlot place markDeleted machine).1 then
        removeLfn entry fuel (nextPlace machine.disk.slotsPerCluster place)
          (editSlot place markDeleted machine).2
      else ((), (editSlot place markDeleted machine).2)) := by
  rw [removeLfn, if_neg apart]
  change (if (editSlot place markDeleted machine).1 then
    removeLfn entry fuel (nextPlace machine.disk.slotsPerCluster place)
    else pure () : Fat Unit) (editSlot place markDeleted machine).2 = _
  cases (editSlot place markDeleted machine).1 with
  | true => rfl
  | false => rfl

theorem removeLfn_marks (entry : Place) (fuel : Nat) (place : Place) (machine : Machine) :
    removeLfn entry fuel place machine =
      ((), (markedFrom machine.disk.slotsPerCluster machine.reserved entry fuel place).foldl
        Machine.mark machine) := by
  induction fuel generalizing place machine with
  | zero => rfl
  | succ fuel ih =>
    by_cases reached : place = entry
    · rw [removeLfn, markedFrom, if_pos reached, if_pos (.inl reached)]
      rfl
    · rw [removeLfn_succ reached, markedFrom]
      cases refused : machine.reserved place.1 with
      | true =>
        rw [editSlot_refused refused, if_neg Bool.false_ne_true, if_pos (.inr rfl)]
        rfl
      | false =>
        rw [editSlot_marks refused, if_pos rfl, if_neg (by simp [reached])]
        exact ih (nextPlace machine.disk.slotsPerCluster place) (machine.mark place)

variable {hit : Hit}

/-- A removal is the marks of `removedSlots`, one after the other. -/
theorem removeGroup_marks (fuel : Nat) (writable : machine.reserved hit.place.1 = false) :
    removeGroup fuel hit machine =
      (true, (removedSlots machine fuel hit).foldl Machine.mark machine) := by
  have marked := editSlot_marks writable
  obtain ⟨name11, place, lfnStart⟩ := hit
  cases lfnStart with
  | none =>
    change (if (editSlot place markDeleted machine).1 then pure true else pure false : Fat Bool)
      (editSlot place markDeleted machine).2 = _
    rw [marked]
    rfl
  | some start =>
    change (if (editSlot place markDeleted machine).1 then
      (removeLfn place fuel start >>= fun _ => pure true) else pure false : Fat Bool)
      (editSlot place markDeleted machine).2 = _
    rw [marked]
    change (true, (removeLfn place fuel start (machine.mark place)).2) = _
    rw [removeLfn_marks]
    rfl

def Gathered.pass (gathered : Gathered) (place : Place) (slot : Slot) : Gathered :=
  if slot 0 = direntDeleted then gathered.drop
  else if isLfn slot then gathered.feed place slot
  else gathered.drop

def Gathered.whole (gathered : Gathered) : Bool :=
  gathered.lfn.valid && gathered.lfn.expectedSeq == 0

/-- What a walk over the directory has gathered when it comes to `entry`. -/
def Disk.gatheredAt (disk : Disk) (entry : Place) : List Place → Gathered → Gathered
  | [], gathered => gathered
  | place :: rest, gathered =>
    if place = entry then gathered
    else disk.gatheredAt entry rest (gathered.pass place (disk.slotIn place))

/-- The first entry that shows the name. -/
def Disk.named (disk : Disk) (rawName : Name) : List Place → Gathered → Option Place
  | [], _ => none
  | place :: rest, gathered =>
    let slot := disk.slotIn place
    if slot 0 = direntFreeRest then none
    else if isLive slot ∧ nameEqCi rawName (lfnFinish slot gathered.lfn) then some place
    else disk.named rawName rest (gathered.pass place slot)

def Disk.ownStart (disk : Disk) (places : List Place) (entry : Place) : Option Place :=
  let gathered := disk.gatheredAt entry places ⟨.start, none⟩
  if gathered.whole ∧
      gathered.lfn.checksum = shortNameChecksum (shortNameOf (disk.slotIn entry)) then
    gathered.start
  else none

def Disk.ownGroup (disk : Disk) (places : List Place) (entry : Place) : List Place :=
  match disk.ownStart places entry with
  | none => [entry]
  | some start => (places.dropWhile (· ≠ start)).takeWhile (· ≠ entry) ++ [entry]

/-- The slots follow one another on the disk. The loop also ends well when the last one
is the entry and nothing behind its long name can be written. -/
def InLine (slots : Nat) (reserved : Nat → Bool) : List Place → Prop
  | place :: next :: rest =>
    (nextPlace slots place = next ∨
      rest = [] ∧ reserved (nextPlace slots place).1 = true) ∧
      InLine slots reserved (next :: rest)
  | _ => True

variable {run : List Place}

section Loop
variable {slots : Nat} {reserved : Nat → Bool} {entry : Place}

def Follows (slots : Nat) (place next : Place) : Prop :=
  next = (place.1, place.2 + 1) ∨ place.2 + 1 = slots ∧ next.2 = 0

theorem markedFrom_entry (fuel : Nat) (place : Place) :
    entry ∉ markedFrom slots reserved entry fuel place := by
  induction fuel generalizing place with
  | zero => simp [markedFrom]
  | succ fuel ih =>
    rw [markedFrom]
    split
    · simp
    · next on =>
        intro member
        rcases List.mem_cons.mp member with rfl | later
        · exact on (.inl rfl)
        · exact ih _ later

theorem nextPlace_address {place : Place} (inside : place.2 < slots) :
    (nextPlace slots place).2 < slots ∧
      (nextPlace slots place).1 * slots + (nextPlace slots place).2 =
        place.1 * slots + place.2 + 1 := by
  unfold nextPlace
  by_cases more : place.2 + 1 < slots
  · rw [if_pos more]
    exact ⟨more, (Nat.add_assoc _ _ _).symm⟩
  · rw [if_neg more]
    rw [Nat.add_mul]
    omega

theorem markedFrom_forward {fuel : Nat} {member : Place} (inside : place.2 < slots)
    (marked : member ∈ markedFrom slots reserved entry fuel place) :
    place.1 * slots + place.2 ≤ member.1 * slots + member.2 := by
  induction fuel generalizing place with
  | zero => simp [markedFrom] at marked
  | succ _ ih =>
    rw [markedFrom] at marked
    split at marked
    · simp at marked
    · have next := @nextPlace_address slots place inside
      rcases List.mem_cons.mp marked with rfl | later
      · exact le_refl _
      · have further := ih next.1 later
        omega

theorem follows_inside (chain : List.IsChain (Follows slots) (place :: run))
    (short : place.2 + run.length < slots) : ∀ member ∈ run, place.2 < member.2 := by
  induction run generalizing place with
  | nil => simp
  | cons _ _ ih =>
    obtain ⟨step, later⟩ := List.isChain_cons_cons.mp chain
    rw [List.length_cons] at short
    rcases step with rfl | ⟨last, -⟩
    · have inside := ih later (by omega)
      intro member among
      rcases List.mem_cons.mp among with rfl | further
      · exact Nat.lt_succ_self _
      · exact Nat.lt_of_succ_lt (inside member further)
    · omega

theorem markedFrom_inLine {fuel : Nat} (line : InLine slots reserved (place :: run ++ [entry]))
    (enough : run.length + 1 < fuel) (apart : entry ∉ place :: run)
    (writable : ∀ member ∈ place :: run, reserved member.1 = false) :
    markedFrom slots reserved entry fuel place = place :: run := by
  induction run generalizing place fuel with
  | nil =>
    obtain ⟨fuel, rfl⟩ := Nat.exists_eq_add_of_lt enough
    have stops : nextPlace slots place = entry ∨
        reserved (nextPlace slots place).1 = true := line.1.imp_right And.right
    have goes : ¬ (place = entry ∨ reserved place.1 = true) := by
      have open_ := writable place List.mem_cons_self
      simp only [List.mem_singleton] at apart
      simp [Ne.symm apart, open_]
    rw [List.length_nil, show 0 + 1 + fuel + 1 = (fuel + 1) + 1 by omega, markedFrom,
      if_neg goes, markedFrom, if_pos stops]
  | cons next _ ih =>
    obtain ⟨fuel, rfl⟩ : ∃ smaller, fuel = smaller + 1 := ⟨fuel - 1, by omega⟩
    have step : nextPlace slots place = next := by
      rcases line.1 with step | ⟨none, -⟩
      · exact step
      · simp at none
    have here : ¬ (place = entry ∨ reserved place.1 = true) := by
      have open_ := writable place List.mem_cons_self
      simp only [List.mem_cons, not_or] at apart
      simp [Ne.symm apart.1, open_]
    rw [markedFrom, if_neg here, step]
    rw [ih line.2 (by simpa using enough) (fun member => apart (List.mem_cons_of_mem _ member))
      fun member inside => writable member (List.mem_cons_of_mem _ inside)]

/-- A loop that marks a run and nothing else finds it in line. -/
theorem inLine_of_marked {fuel : Nat} (chain : List.IsChain (Follows slots) (place :: run))
    (inside : ∀ member ∈ place :: run, member.2 < slots) (short : run.length < slots)
    (nodup : (place :: run).Nodup) (enough : run.length + 1 < fuel)
    (same : ∀ member, member ∈ markedFrom slots reserved entry fuel place ↔
      member ∈ place :: run) : InLine slots reserved (place :: run ++ [entry]) := by
  induction run generalizing place fuel with
  | nil =>
    obtain ⟨fuel, rfl⟩ : ∃ smaller, fuel = smaller + 2 :=
      ⟨fuel - 2, by omega⟩
    refine ⟨?_, trivial⟩
    have first := (same place).mpr List.mem_cons_self
    have next := @nextPlace_address slots place (inside place List.mem_cons_self)
    rw [markedFrom] at same first
    split at first
    · simp at first
    · next on =>
        rw [if_neg on, markedFrom] at same
        by_cases stops : nextPlace slots place = entry ∨
            reserved (nextPlace slots place).1 = true
        · exact stops.imp_right fun refused => ⟨rfl, refused⟩
        · rw [if_neg stops] at same
          have again := (same (nextPlace slots place)).mp (by simp)
          have equal : nextPlace slots place = place := by simpa using again
          rw [equal] at next
          omega
  | cons following rest ih =>
    obtain ⟨fuel, rfl⟩ : ∃ smaller, fuel = smaller + 1 := ⟨fuel - 1, by omega⟩
    obtain ⟨step, later⟩ := List.isChain_cons_cons.mp chain
    obtain ⟨fresh, nodup'⟩ := List.nodup_cons.mp nodup
    have here := inside place List.mem_cons_self
    have next := @nextPlace_address slots place here
    have first := (same place).mpr List.mem_cons_self
    rw [markedFrom] at same first
    split at first
    · simp at first
    · next on =>
        rw [if_neg on] at same
        have tails : ∀ member,
            member ∈ markedFrom slots reserved entry fuel (nextPlace slots place) ↔
              member ∈ following :: rest := by
          intro member
          constructor
          · intro marked
            have forward := markedFrom_forward next.1 marked
            rcases List.mem_cons.mp ((same member).mp (List.mem_cons_of_mem _ marked)) with
              rfl | among
            · omega
            · exact among
          · intro among
            rcases List.mem_cons.mp ((same member).mpr (List.mem_cons_of_mem _ among)) with
              rfl | marked
            · exact absurd among fresh
            · exact marked
        rw [List.length_cons] at short enough
        have started := (tails following).mpr List.mem_cons_self
        obtain ⟨fuel, rfl⟩ : ∃ smaller, fuel = smaller + 1 := ⟨fuel - 1, by omega⟩
        have reached : nextPlace slots place ∈ following :: rest := by
          apply (tails _).mp
          rw [markedFrom] at started ⊢
          split at started
          · simp at started
          · next goes =>
              rw [if_neg goes]
              exact List.mem_cons_self
        have equal : nextPlace slots place = following := by
          rcases step with rfl | ⟨last, begins⟩
          · have more := inside _ (List.mem_cons_of_mem _ List.mem_cons_self)
            exact if_pos more
          · rcases List.mem_cons.mp reached with same | further
            · exact same
            · have positive := follows_inside later (by omega) _ further
              have zero : (nextPlace slots place).2 = 0 := by
                unfold nextPlace
                rw [if_neg (by omega)]
              omega
        have onward : ∀ member,
            member ∈ markedFrom slots reserved entry (fuel + 1) following ↔
              member ∈ following :: rest := by simpa only [equal] using tails
        have within : ∀ member ∈ following :: rest, member.2 < slots := fun member among =>
          inside member (List.mem_cons_of_mem _ among)
        exact ⟨.inl equal, ih later within (by omega) nodup' (by omega) onward⟩

end Loop

variable {n : Nat}

section Rows
variable {disk : Disk}

variable {cluster : Nat}

theorem chain_ends_eq {few many : Nat} (ends : EndsWithin disk.nextCluster chainEnd few cluster)
    (le : few ≤ many) : disk.chain many cluster = disk.chain few cluster := by
  induction few generalizing many cluster with
  | zero =>
    have stopped : chainEnd cluster = true := ends
    cases many with
    | zero => rfl
    | succ => simp [Disk.chain, stopped]
  | succ _ ih =>
    obtain ⟨many, rfl⟩ : ∃ smaller, many = smaller + 1 := ⟨many - 1, by omega⟩
    by_cases stopped : chainEnd cluster = true
    · simp [Disk.chain, stopped]
    · simp only [Disk.chain]
      rw [ih (ends.step stopped) (by omega)]

theorem chain_from {member : Nat} (ends : EndsWithin disk.nextCluster chainEnd n cluster)
    (among : member ∈ disk.chain n cluster) :
    ∃ m ≤ n, EndsWithin disk.nextCluster chainEnd m member ∧
      disk.chain m member <:+ disk.chain n cluster := by
  induction n generalizing cluster with
  | zero => simp [Disk.chain] at among
  | succ n ih =>
    rw [Disk.chain] at among ⊢
    by_cases stopped : chainEnd cluster = true
    · simp [stopped] at among
    · rw [if_neg stopped] at among ⊢
      rcases List.mem_cons.mp among with rfl | later
      · refine ⟨n + 1, le_refl _, ends, ?_⟩
        rw [Disk.chain, if_neg stopped]
      · obtain ⟨m, le, ends', suffix⟩ := ih (ends.step stopped) later
        exact ⟨m, by omega, ends', suffix.trans (List.suffix_cons _ _)⟩

theorem chain_nodup (ends : EndsWithin disk.nextCluster chainEnd n cluster) :
    (disk.chain n cluster).Nodup := by
  induction n generalizing cluster with
  | zero => simp [Disk.chain]
  | succ n ih =>
    by_cases stopped : chainEnd cluster = true
    · simp [Disk.chain, stopped]
    · have unfolded : disk.chain (n + 1) cluster =
          cluster :: disk.chain n (disk.nextCluster cluster) := by simp [Disk.chain, stopped]
      rw [unfolded]
      refine List.nodup_cons.mpr ⟨?_, ih (ends.step stopped)⟩
      intro again
      obtain ⟨m, le, ends', suffix⟩ := chain_from (ends.step stopped) again
      have same := chain_ends_eq ends' (show m ≤ n + 1 by omega)
      have shorter := suffix.length_le
      rw [← same, unfolded, List.length_cons] at shorter
      omega

theorem mem_places :
    place ∈ disk.places n cluster ↔
      place.1 ∈ disk.chain n cluster ∧ place.2 < disk.slotsPerCluster := by
  obtain ⟨member, index⟩ := place
  simp [Disk.places, Disk.placesIn]

theorem places_nodup (ends : EndsWithin disk.nextCluster chainEnd n cluster) :
    (disk.places n cluster).Nodup := by
  refine List.nodup_flatMap.mpr ⟨?_, ?_⟩
  · intro member _
    exact (List.nodup_range).map fun left right same => (Prod.mk.inj same).2
  · refine (chain_nodup ends).imp ?_
    intro left right different place here there
    simp only [Disk.placesIn, List.mem_map] at here there
    obtain ⟨_, -, rfl⟩ := here
    obtain ⟨_, -, same⟩ := there
    exact different (Prod.mk.inj same).1.symm

theorem placesIn_follow (cluster : Nat) :
    List.IsChain (Follows disk.slotsPerCluster) (disk.placesIn cluster) := by
  rw [Disk.placesIn]
  refine List.isChain_iff_getElem.mpr ?_
  simp [Follows]

theorem places_follow (n cluster : Nat) :
    List.IsChain (Follows disk.slotsPerCluster) (disk.places n cluster) := by
  unfold Disk.places
  generalize disk.chain n cluster = clusters
  induction clusters with
  | nil => exact .nil
  | cons first rest ih =>
    rw [List.flatMap_cons, List.isChain_append]
    refine ⟨placesIn_follow first, ih, ?_⟩
    intro last lastIn head headIn
    right
    constructor
    · simp only [Disk.placesIn, List.getLast?_map, Option.mem_def, Option.map_eq_some_iff] at lastIn
      obtain ⟨index, ended, rfl⟩ := lastIn
      rw [List.getLast?_range] at ended
      split at ended
      · cases ended
      · simp only [Option.some.injEq] at ended
        omega
    · cases rest with
      | nil => simp at headIn
      | cons =>
        cases slots : disk.slotsPerCluster with
        | zero => simp_all [Disk.placesIn]
        | succ slots =>
          simp only [List.flatMap_cons, Disk.placesIn, slots, List.range_succ_eq_map,
            List.map_cons, List.cons_append, List.head?_cons, Option.mem_def,
            Option.some.injEq] at headIn
          rw [← headIn]

end Rows

section Gathering
variable {disk : Disk}

/-- A long name that is valid so far begins where the walk noted it, and is long-name
entries from there on; with those still expected they are not too many. -/
def Gathered.Behind (disk : Disk) (front : List Place) (gathered : Gathered) : Prop :=
  gathered.lfn.valid = true →
    ∃ before start run, front = before ++ start :: run ∧ gathered.start = some start ∧
      (∀ place ∈ start :: run, isLfn (disk.slotIn place) = true) ∧
      ((run.length + 1 : Nat) : Int) + gathered.lfn.expectedSeq ≤ lfnMaxEntries

theorem lfnFeed_valid {slot : Slot} {state : LfnState} (valid : (lfnFeed slot state).valid = true) :
    (slot 0 &&& 0x40 != 0) = true ∧
        (lfnFeed slot state).expectedSeq + 1 ≤ lfnMaxEntries ∨
      (slot 0 &&& 0x40 != 0) = false ∧ state.valid = true ∧
        (lfnFeed slot state).expectedSeq + 1 = state.expectedSeq := by
  unfold lfnFeed at valid ⊢
  by_cases deleted : slot 0x00 = direntDeleted
  · simp [deleted] at valid
  · rw [if_neg deleted] at valid ⊢
    cases last : (slot 0x00 &&& 0x40 != 0) with
    | true =>
      left
      simp only [last, if_true] at valid ⊢
      by_cases refused : (((slot 0x00 &&& 0x1F).toNat : Int) < 1 ∨
          ((slot 0x00 &&& 0x1F).toNat : Int) > lfnMaxEntries)
      · rw [if_pos refused] at valid
        simp at valid
      · rw [if_neg refused] at valid ⊢
        cases chars : lfnEntryChars slot with
        | none => simp [chars] at valid
        | some =>
          refine ⟨trivial, ?_⟩
          simp only
          omega
    | false =>
      right
      simp only [last, Bool.false_eq_true, if_false] at valid ⊢
      by_cases broken : (!state.valid) = true ∨
          ((slot 0x00 &&& 0x1F).toNat : Int) ≠ state.expectedSeq ∨ slot 0x0D ≠ state.checksum
      · rw [if_pos broken] at valid
        simp at valid
      · rw [if_neg broken] at valid ⊢
        simp only [not_or, Bool.not_eq_true, Bool.not_eq_false'] at broken
        cases chars : lfnEntryChars slot with
        | none => simp [chars] at valid
        | some chars =>
          refine ⟨trivial, broken.1, ?_⟩
          simp only
          omega

theorem Gathered.Behind.pass {front : List Place} {gathered : Gathered}
    (behind : gathered.Behind disk front) (place : Place) :
    (gathered.pass place (disk.slotIn place)).Behind disk (front ++ [place]) := by
  intro valid
  unfold Gathered.pass at valid ⊢
  by_cases deleted : disk.slotIn place 0 = direntDeleted
  · simp [deleted, Gathered.drop] at valid
  · rw [if_neg deleted] at valid ⊢
    cases long : isLfn (disk.slotIn place) with
    | false => simp [long, Gathered.drop] at valid
    | true =>
      simp only [long, if_true] at valid ⊢
      rcases lfnFeed_valid valid with ⟨last, bound⟩ | ⟨inner, before, next⟩
      · refine ⟨front, place, [], rfl, ?_, by simp [long], ?_⟩
        · simp only [Gathered.feed, last, Bool.true_or, if_true]
        · simp only [Gathered.feed, List.length_nil]
          omega
      · obtain ⟨before, start, run, rfl, noted, entries, bound⟩ := behind before
        refine ⟨before, start, run ++ [place], by simp, ?_, ?_, ?_⟩
        · simp only [Gathered.feed, inner, noted, Option.isNone_some, Bool.or_false,
            Bool.false_eq_true, if_false]
        · intro member among
          rcases List.mem_append.mp (by simpa using among : member ∈ (start :: run) ++ [place])
            with old | new
          · exact entries member old
          · rw [List.mem_singleton.mp new]
            exact long
        · simp only [Gathered.feed, List.length_append, List.length_singleton]
          omega

theorem gatheredAt_behind {entry : Place} {passed front rest : List Place} {gathered : Gathered}
    (behind : gathered.Behind disk passed) (apart : entry ∉ front) :
    (disk.gatheredAt entry (front ++ entry :: rest) gathered).Behind disk (passed ++ front) := by
  induction front generalizing passed gathered with
  | nil => simpa [Disk.gatheredAt] using behind
  | cons place front ih =>
    have parts := List.ne_and_not_mem_of_not_mem_cons apart
    rw [List.cons_append, Disk.gatheredAt, if_neg (Ne.symm parts.1)]
    have further := ih (behind.pass place) parts.2
    simpa using further

theorem start_behind : (⟨.start, none⟩ : Gathered).Behind disk [] := by
  intro valid
  simp [LfnState.start] at valid

theorem named_mem {rawName : Name} {places : List Place} {gathered : Gathered}
    (named : disk.named rawName places gathered = some entry) :
    entry ∈ places ∧ isLive (disk.slotIn entry) = true := by
  induction places generalizing gathered with
  | nil => simp [Disk.named] at named
  | cons place rest ih =>
    rw [Disk.named] at named
    split at named
    · cases named
    · split at named
      · next found =>
          obtain rfl := Option.some.inj named
          exact ⟨List.mem_cons_self, found.1⟩
      · have later := ih named
        exact ⟨List.mem_cons_of_mem _ later.1, later.2⟩

/-- A step of the long-name search: it leaves at an end marker and at an entry that shows
the name, and passes over every other slot. -/
def resolveStep (rawName : Name) (place : Place) (slot : Slot) (gathered : Gathered) :
    Next Gathered (Option (ShortName × Option Place)) :=
  if slot 0 = direntFreeRest then .leave none
  else if isLive slot ∧ nameEqCi rawName (lfnFinish slot gathered.lfn) then
    .leave (some (shortNameOf slot, if gathered.whole then gathered.start else none))
  else .go (gathered.pass place slot)

theorem resolveName11_steps (fuel cluster : Nat) (rawName : Name) :
    disk.resolveName11 fuel cluster rawName =
      disk.scan (fun _ state => state) (resolveStep rawName) (fun _ => none) fuel cluster
        ⟨.start, none⟩ := by
  unfold Disk.resolveName11
  congr 1
  funext place slot gathered
  unfold resolveStep Gathered.pass isLive
  by_cases marker : slot 0 = direntFreeRest
  · simp only [marker, if_true]
  · by_cases deleted : slot 0 = direntDeleted
    · simp [deleted]
    · cases long : isLfn slot with
      | true => simp [deleted]
      | false =>
        cases label : isVolumeLabel slot with
        | true => simp [marker]
        | false => simp [marker, deleted, Gathered.whole]

/-- What the long-name search leaves with: the short name of the first entry that shows
the name, and the start of the whole long name in front of it. -/
theorem resolveName11_named {parent : Nat} (ends : EndsWithin disk.nextCluster chainEnd n parent)
    (rawName : Name) :
    disk.resolveName11 (n + 1) parent rawName =
      some ((disk.named rawName (disk.places n parent) ⟨.start, none⟩).map fun entry =>
        (shortNameOf (disk.slotIn entry),
          if (disk.gatheredAt entry (disk.places n parent) ⟨.start, none⟩).whole then
            (disk.gatheredAt entry (disk.places n parent) ⟨.start, none⟩).start
          else none)) := by
  rw [resolveName11_steps, scan_places ends]
  have nodup := places_nodup ends
  generalize disk.places n parent = places at nodup ⊢
  generalize (⟨.start, none⟩ : Gathered) = gathered
  induction places generalizing gathered with
  | nil => rfl
  | cons place rest ih =>
    obtain ⟨fresh, nodup'⟩ := List.nodup_cons.mp nodup
    rw [visitPlaces, Disk.named, resolveStep]
    by_cases marker : disk.slotIn place 0 = direntFreeRest
    · simp only [marker, if_true, Next.settle, Option.map_none]
    · rw [if_neg marker, if_neg marker]
      by_cases shows : isLive (disk.slotIn place) = true ∧
          nameEqCi rawName (lfnFinish (disk.slotIn place) gathered.lfn) = true
      · simp only [shows, and_self, if_true, Next.settle, Option.map_some, Disk.gatheredAt]
      · rw [if_neg shows, if_neg shows]
        rw [ih nodup']
        cases later : disk.named rawName rest (gathered.pass place (disk.slotIn place)) with
        | none => rfl
        | some entry =>
          have other : place ≠ entry := fun same => fresh (same ▸ (named_mem later).1)
          simp only [Option.map_some, Disk.gatheredAt, other, if_false]

end Gathering

section Removals
variable {disk : Disk} {n parent : Nat}

theorem findInDir_live {name11 : ShortName} (ends : EndsWithin disk.nextCluster chainEnd n parent)
    (found : disk.findInDir (n + 1) parent name11 = some (some entry)) :
    entry ∈ disk.places n parent ∧ isLive (disk.slotIn entry) = true ∧
      shortNameOf (disk.slotIn entry) = name11 := by
  rw [Disk.findInDir, scan_places ends] at found
  generalize disk.places n parent = places at found ⊢
  induction places with
  | nil => cases found
  | cons place _ ih =>
    rw [visitPlaces, findStep] at found
    by_cases marker : disk.slotIn place 0 = direntFreeRest
    · simp [marker, Next.settle] at found
    · by_cases here : isLive (disk.slotIn place) = true ∧ shortNameOf (disk.slotIn place) = name11
      · simp only [marker, here, and_self, if_true, if_false, Next.settle,
          Option.some.injEq] at found
        subst found
        exact ⟨List.mem_cons_self, here⟩
      · simp only [marker, here] at found
        have later := ih found
        exact ⟨List.mem_cons_of_mem _ later.1, later.2⟩

/-- The entry a name leads to: the first one that shows it, or else the one with the
short name made of it. -/
def Disk.ownerOf (disk : Disk) (n parent : Nat) (leaf : Name) (hit : Hit) : Place :=
  (disk.named leaf (disk.places n parent) ⟨.start, none⟩).getD hit.place

variable {leaf : Name}

/-- What a lookup leaves with, by the first entry that shows the name. -/
theorem lookup_cases (ends : EndsWithin disk.nextCluster chainEnd n parent)
    (found : disk.lookup (n + 1) parent leaf true = some (some hit)) :
    (∃ entry, disk.named leaf (disk.places n parent) ⟨.start, none⟩ = some entry ∧
        disk.findInDir (n + 1) parent (shortNameOf (disk.slotIn entry)) = some (some hit.place) ∧
        hit.lfnStart =
          if (disk.gatheredAt entry (disk.places n parent) ⟨.start, none⟩).whole then
            (disk.gatheredAt entry (disk.places n parent) ⟨.start, none⟩).start
          else none) ∨
      disk.named leaf (disk.places n parent) ⟨.start, none⟩ = none ∧
        disk.findInDir (n + 1) parent (nameTo83 leaf) = some (some hit.place) ∧
        hit.lfnStart = none := by
  rw [Disk.lookup, resolveName11_named ends] at found
  cases named : disk.named leaf (disk.places n parent) ⟨.start, none⟩ with
  | none =>
    right
    simp only [named, Bool.not_true, Bool.and_false, Bool.false_eq_true,
      if_false, Option.map_eq_some_iff] at found
    obtain ⟨place, there, entry, rfl, rfl⟩ := found
    exact ⟨rfl, there, rfl⟩
  | some entry =>
    left
    simp only [named, Bool.not_true, Bool.and_false, Bool.false_eq_true,
      if_false, Option.map_eq_some_iff] at found
    obtain ⟨place, there, other, rfl, rfl⟩ := found
    exact ⟨entry, rfl, there, rfl⟩

variable {start : Place}

theorem dropWhile_apart {before rest : List Place} (fresh : start ∉ before) :
    (before ++ start :: rest).dropWhile (· ≠ start) = start :: rest := by
  have passed : ∀ place ∈ before, decide (place ≠ start) = true := by
    intro place among
    simp only [decide_eq_true_eq]
    rintro rfl
    exact fresh among
  rw [List.dropWhile_append_of_pos passed]
  simp

theorem takeWhile_apart {rest : List Place} (fresh : entry ∉ run) :
    (run ++ entry :: rest).takeWhile (· ≠ entry) = run := by
  have passed : ∀ place ∈ run, decide (place ≠ entry) = true := by
    intro place among
    simp only [decide_eq_true_eq]
    rintro rfl
    exact fresh among
  rw [List.takeWhile_append_of_pos passed]
  simp

/-- A whole long name stands right in front of the entry the walk came to. -/
theorem whole_run (ends : EndsWithin disk.nextCluster chainEnd n parent)
    (among : entry ∈ disk.places n parent)
    (whole : (disk.gatheredAt entry (disk.places n parent) ⟨.start, none⟩).whole = true) :
    ∃ start run rest before, disk.places n parent = before ++ start :: run ++ entry :: rest ∧
      (disk.gatheredAt entry (disk.places n parent) ⟨.start, none⟩).start = some start ∧
      (∀ place ∈ start :: run, isLfn (disk.slotIn place) = true) ∧
      run.length + 1 ≤ lfnMaxEntries := by
  have nodup := places_nodup ends
  obtain ⟨front, rest, split⟩ := List.append_of_mem among
  have apart : entry ∉ front := by
    rw [split, List.nodup_append] at nodup
    exact fun inside => nodup.2.2 entry inside entry List.mem_cons_self rfl
  have behind := @gatheredAt_behind disk entry [] front rest ⟨.start, none⟩ start_behind apart
  rw [← split] at behind
  simp only [Gathered.whole, Bool.and_eq_true, beq_iff_eq] at whole
  obtain ⟨before, start, run, rfl, noted, entries, bound⟩ := behind whole.1
  exact ⟨start, run, rest, before, split, noted, entries, by omega⟩

/-- An entry without a long name of its own is its group; otherwise the group begins
with the long name, which stands right in front. -/
theorem ownGroup_cases (ends : EndsWithin disk.nextCluster chainEnd n parent)
    (among : entry ∈ disk.places n parent) :
    disk.ownStart (disk.places n parent) entry = none ∧
        disk.ownGroup (disk.places n parent) entry = [entry] ∨
      ∃ start run rest before, disk.places n parent = before ++ start :: run ++ entry :: rest ∧
        disk.ownStart (disk.places n parent) entry = some start ∧
        disk.ownGroup (disk.places n parent) entry = start :: run ++ [entry] ∧
        (∀ place ∈ start :: run, isLfn (disk.slotIn place) = true) ∧
        run.length + 1 ≤ lfnMaxEntries := by
  have nodup := places_nodup ends
  cases own : disk.ownStart (disk.places n parent) entry with
  | none => exact .inl ⟨rfl, by simp only [Disk.ownGroup, own]⟩
  | some start =>
    right
    have kept := own
    unfold Disk.ownStart at own
    simp only at own
    split at own
    · next whole =>
        obtain ⟨first, run, rest, before, split, noted, entries, bound⟩ :=
          whole_run ends among whole.1
        obtain rfl := Option.some.inj (noted.symm.trans own)
        rw [split, List.append_assoc, List.nodup_append] at nodup
        have fresh : first ∉ before := fun inside =>
          nodup.2.2 first inside first (by simp) rfl
        have apart : entry ∉ first :: run := fun inside =>
          (List.nodup_append.mp nodup.2.1).2.2 entry inside entry List.mem_cons_self rfl
        refine ⟨first, run, rest, before, split, rfl, ?_, entries, bound⟩
        simp only [Disk.ownGroup, kept]
        rw [split, List.append_assoc, List.cons_append, dropWhile_apart fresh,
          ← List.cons_append, takeWhile_apart apart]
    · cases own

structure GroupInLine (disk : Disk) (reserved : Nat → Bool) (n parent : Nat) (leaf : Name)
    (entry : Place) : Prop where
  sole : disk.findInDir (n + 1) parent (shortNameOf (disk.slotIn entry)) = some (some entry)
  shown : (disk.gatheredAt entry (disk.places n parent) ⟨.start, none⟩).whole →
    ((disk.named leaf (disk.places n parent) ⟨.start, none⟩).isSome ↔
      (disk.gatheredAt entry (disk.places n parent) ⟨.start, none⟩).lfn.checksum =
        shortNameChecksum (shortNameOf (disk.slotIn entry)))
  inLine : InLine disk.slotsPerCluster reserved
    (disk.ownGroup (disk.places n parent) entry)

theorem live_not_lfn {slot : Slot} (live : isLive slot = true) : isLfn slot = false := by
  simp only [isLive, Bool.and_eq_true, Bool.not_eq_true'] at live
  exact live.1.2

section
variable (ends : EndsWithin disk.nextCluster chainEnd n parent)
include ends

/-- The marks of the loop from the start of the group's own long name. -/
theorem marks_run_iff {reserved : Nat → Bool} {rest before : List Place}
    (split : disk.places n parent = before ++ start :: run ++ entry :: rest)
    (short : run.length + 1 ≤ lfnMaxEntries) (room : lfnMaxEntries < n)
    (slots : slotsPerSector ≤ disk.slotsPerCluster)
    (writable : ∀ cluster ∈ disk.chain n parent, reserved cluster = false) :
    (∀ place, place ∈ markedFrom disk.slotsPerCluster reserved entry (n + 1) start ↔
        place ∈ start :: run) ↔
      InLine disk.slotsPerCluster reserved (start :: run ++ [entry]) := by
  have nodup := places_nodup ends
  have follows : List.IsChain (Follows disk.slotsPerCluster) (disk.places n parent) :=
    places_follow n parent
  have within : ∀ place ∈ start :: run, place ∈ disk.places n parent := by
    intro place inside
    rw [split]
    exact List.mem_append_left _ (List.mem_append_right _ inside)
  rw [split, List.append_assoc] at nodup follows
  have run_follows := (List.isChain_append.mp (List.isChain_append.mp follows).2.1).1
  have run_nodup := (List.nodup_append.mp (List.nodup_append.mp nodup).2.1)
  have apart : entry ∉ start :: run := fun inside =>
    run_nodup.2.2 entry inside entry List.mem_cons_self rfl
  have bound : lfnMaxEntries < slotsPerSector := by decide
  constructor
  · intro same
    apply inLine_of_marked run_follows _ (by omega) run_nodup.1 (by omega) same
    exact fun place inside => (mem_places.mp (within place inside)).2
  · intro line place
    have open_ : ∀ member ∈ start :: run, reserved member.1 = false := fun member inside =>
      writable _ (mem_places.mp (within member inside)).1
    rw [markedFrom_inLine line (by omega) apart open_]

section
variable (found : disk.lookup (n + 1) parent leaf true = some (some hit))
include found

theorem owner_live :
    disk.ownerOf n parent leaf hit ∈ disk.places n parent ∧
      isLive (disk.slotIn (disk.ownerOf n parent leaf hit)) = true := by
  unfold Disk.ownerOf
  rcases lookup_cases ends found with ⟨entry, named, -⟩ | ⟨named, there, -⟩
  · rw [named]
    exact named_mem named
  · rw [named]
    exact ⟨(findInDir_live ends there).1, (findInDir_live ends there).2.1⟩

theorem hit_live : isLive (disk.slotIn hit.place) = true := by
  rcases lookup_cases ends found with ⟨entry, -, there, -⟩ | ⟨-, there, -⟩
  · exact (findInDir_live ends there).2.1
  · exact (findInDir_live ends there).2.1

/-- The entry removed is the one the name leads to when no other is found first. -/
theorem sole_iff :
    disk.findInDir (n + 1) parent
        (shortNameOf (disk.slotIn (disk.ownerOf n parent leaf hit))) =
          some (some (disk.ownerOf n parent leaf hit)) ↔
      hit.place = disk.ownerOf n parent leaf hit := by
  unfold Disk.ownerOf
  rcases lookup_cases ends found with ⟨entry, named, there, -⟩ | ⟨named, there, -⟩
  · rw [named, Option.getD_some, there]
    simp
  · rw [named, Option.getD_none, (findInDir_live ends there).2.2, there]
    simp

end

/-- The long name removed is the entry's own when what stands in front of the entry and
how the name was matched agree. -/
theorem start_iff (found : disk.lookup (n + 1) parent leaf true = some (some hit))
    (owner : disk.ownerOf n parent leaf hit = entry) :
    ((disk.gatheredAt entry (disk.places n parent) ⟨.start, none⟩).whole →
      ((disk.named leaf (disk.places n parent) ⟨.start, none⟩).isSome ↔
        (disk.gatheredAt entry (disk.places n parent) ⟨.start, none⟩).lfn.checksum =
          shortNameChecksum (shortNameOf (disk.slotIn entry)))) ↔
      hit.lfnStart = disk.ownStart (disk.places n parent) entry := by
  have among := (owner_live ends found).1
  rw [owner] at among
  have started := whole_run ends among
  simp only [Disk.ownStart]
  rcases lookup_cases ends found with ⟨other, named, -, start⟩ | ⟨named, -, start⟩
  · have same : other = entry := by
      rw [← owner, Disk.ownerOf, named]
      rfl
    subst same
    rw [start, named]
    cases whole : (disk.gatheredAt other (disk.places n parent) ⟨.start, none⟩).whole with
    | false => simp
    | true =>
      obtain ⟨first, -, -, -, -, noted, -⟩ := started whole
      by_cases sums : (disk.gatheredAt other (disk.places n parent) ⟨.start, none⟩).lfn.checksum =
          shortNameChecksum (shortNameOf (disk.slotIn other))
      · simp [sums]
      · simp [noted]
  · rw [start, named]
    cases whole : (disk.gatheredAt entry (disk.places n parent) ⟨.start, none⟩).whole with
    | false => simp
    | true =>
      obtain ⟨first, -, -, -, -, noted, -⟩ := started whole
      by_cases sums : (disk.gatheredAt entry (disk.places n parent) ⟨.start, none⟩).lfn.checksum =
          shortNameChecksum (shortNameOf (disk.slotIn entry))
      · simp [noted]
      · simp [sums]

/-- Where the removal begins to mark a long name, a long-name entry of the directory
stands. -/
theorem start_lfn (found : disk.lookup (n + 1) parent leaf true = some (some hit))
    (started : hit.lfnStart = some start) :
    start ∈ disk.places n parent ∧ isLfn (disk.slotIn start) = true := by
  rcases lookup_cases ends found with ⟨entry, named, -, begins⟩ | ⟨-, -, begins⟩
  · rw [started] at begins
    split at begins
    · next whole =>
        obtain ⟨first, run, rest, before, split, noted, entries, -⟩ :=
          whole_run ends (named_mem named).1 whole
        obtain rfl := Option.some.inj (begins.trans noted)
        rw [split]
        exact ⟨by simp, entries start List.mem_cons_self⟩
    · cases begins
  · rw [started] at begins
    cases begins

/-- Both starts are what the walk noted in front of the entry. -/
theorem start_own {own : Place} (found : disk.lookup (n + 1) parent leaf true = some (some hit))
    (started : hit.lfnStart = some start)
    (owned : disk.ownStart (disk.places n parent) (disk.ownerOf n parent leaf hit) = some own) :
    start = own := by
  rcases lookup_cases ends found with ⟨entry, named, -, begins⟩ | ⟨-, -, begins⟩
  · simp only [Disk.ownStart, Disk.ownerOf, named] at owned
    rw [started] at begins
    split at begins
    · split at owned
      · exact Option.some.inj (begins.trans owned)
      · cases owned
    · cases begins
  · rw [started] at begins
    cases begins

end
/-- The removal marks the group of the entry its name leads to exactly when that entry
and its long name are what it works on and the group lies in line. -/
theorem marks_group_iff (slots : slotsPerSector ≤ disk.slotsPerCluster)
    (same : machine.disk.slotsPerCluster = disk.slotsPerCluster)
    (ends : EndsWithin disk.nextCluster chainEnd n parent) (room : lfnMaxEntries < n)
    (writable : ∀ cluster ∈ disk.chain n parent, machine.reserved cluster = false)
    (found : disk.lookup (n + 1) parent leaf true = some (some hit)) :
    (∀ place, place ∈ removedSlots machine (n + 1) hit ↔
        place ∈ disk.ownGroup (disk.places n parent) (disk.ownerOf n parent leaf hit)) ↔
      GroupInLine disk machine.reserved n parent leaf (disk.ownerOf n parent leaf hit) := by
  obtain ⟨among, live⟩ := owner_live ends found
  have hitLive := hit_live ends found
  have sole := sole_iff ends found
  have started := start_iff ends found rfl
  have both : ∀ start own, hit.lfnStart = some start →
      disk.ownStart (disk.places n parent) (disk.ownerOf n parent leaf hit) = some own →
      start = own := fun start own => start_own ends found
  generalize disk.ownerOf n parent leaf hit = owner at among live sole started both ⊢
  have lfnApart : ∀ place, isLfn (disk.slotIn place) = true → place ≠ owner := by
    rintro place long rfl
    simp [live_not_lfn live] at long
  unfold removedSlots
  rw [same]
  rcases ownGroup_cases ends among with
    ⟨own, group⟩ | ⟨start, run, rest, before, split, own, group, long, short⟩
  · rw [group]
    constructor
    · intro marks
      have here : hit.place = owner := by
        simpa using (marks hit.place).mp List.mem_cons_self
      have begins : hit.lfnStart = none := by
        cases lfnStart : hit.lfnStart with
        | none => rfl
        | some start =>
          obtain ⟨inDir, long⟩ := start_lfn ends found lfnStart
          have apart := lfnApart start long
          have open_ := writable _ (mem_places.mp inDir).1
          have marked := marks start
          rw [lfnStart, here, Option.elim_some, markedFrom,
            if_neg (by simp [apart, open_])] at marked
          simp [apart] at marked
      refine ⟨sole.mpr here, started.mpr (begins.trans own.symm), ?_⟩
      rw [group]
      trivial
    · intro line place
      rw [sole.mp line.sole, started.mp line.shown, own]
      simp
  · rw [group]
    have run_iff := marks_run_iff ends split short room slots writable
    have apart : owner ∉ start :: run := fun inside => lfnApart owner (long owner inside) rfl
    constructor
    · intro marks
      have here : hit.place = owner := by
        have inside := (marks hit.place).mp List.mem_cons_self
        rw [List.mem_append, List.mem_singleton] at inside
        rcases inside with inRun | last
        · have dead := long _ inRun
          simp [live_not_lfn hitLive] at dead
        · exact last
      have begins : hit.lfnStart = some start := by
        cases lfnStart : hit.lfnStart with
        | none =>
          have marked := (marks start).mpr (by simp)
          rw [lfnStart, here, Option.elim_none, List.mem_singleton] at marked
          exact absurd marked (lfnApart start (long start List.mem_cons_self))
        | some begun => rw [both begun start lfnStart own]
      refine ⟨sole.mpr here, started.mpr (begins.trans own.symm), ?_⟩
      rw [group]
      apply run_iff.mp
      intro place
      have marked := marks place
      rw [begins, here, Option.elim_some, List.mem_cons, List.mem_append,
        List.mem_singleton] at marked
      by_cases last : place = owner
      · subst last
        exact iff_of_false (markedFrom_entry _ _) apart
      · simpa only [last, false_or, or_false] using marked
    · intro line place
      have inLine := line.inLine
      rw [group] at inLine
      have marked := run_iff.mpr inLine place
      rw [sole.mp line.sole, started.mp line.shown, own, Option.elim_some, List.mem_cons,
        List.mem_append, List.mem_singleton, marked, or_comm]

theorem marks_written (marks : List Place) (machine : Machine) :
    (marks.foldl Machine.mark machine).written =
      (marks.map fun place => Written.sector place.1 (place.2 / slotsPerSector)).reverse ++
        machine.written := by
  induction marks generalizing machine with
  | nil => rfl
  | cons _ _ ih =>
    rw [List.foldl_cons, ih]
    simp [Machine.mark, Machine.putSector]

end Removals

/-- A removal marks the slots of the group, each of them and no other, and writes no sector
outside the directory. -/
def MarksOnly (disk : Disk) (n parent : Nat) (group : List Place) (machine : Machine)
    (hit : Hit) : Prop :=
  (∀ place, place ∈ removedSlots machine (n + 1) hit ↔ place ∈ group) ∧
    ∀ record ∈ (removeGroup (n + 1) hit machine).2.written, record ∈ machine.written ∨
      ∃ cluster ∈ disk.chain n parent, ∃ sector, record = .sector cluster sector

/-- The removal of a name, in whatever state the operation has come to: the slots that
`removedSlots` lists are marked, and they are the group of the name exactly when
`GroupInLine` holds of it. -/
theorem removal_marks_own_group_iff {disk : Disk} {machine : Machine} {n parent : Nat}
    {leaf : Name} {hit : Hit} (sectors : 0 < disk.sectorsPerCluster)
    (same : machine.disk.sectorsPerCluster = disk.sectorsPerCluster)
    (ends : EndsWithin disk.nextCluster chainEnd n parent) (room : lfnMaxEntries < n)
    (writable : ∀ cluster ∈ disk.chain n parent, machine.reserved cluster = false)
    (found : disk.lookup (n + 1) parent leaf true = some (some hit)) :
    removeGroup (n + 1) hit machine =
        (true, (removedSlots machine (n + 1) hit).foldl Machine.mark machine) ∧
      (MarksOnly disk n parent
          (disk.ownGroup (disk.places n parent) (disk.ownerOf n parent leaf hit)) machine hit ↔
        GroupInLine disk machine.reserved n parent leaf (disk.ownerOf n parent leaf hit)) := by
  have slots : slotsPerSector ≤ disk.slotsPerCluster := Nat.le_mul_of_pos_left _ sectors
  have sameSlots : machine.disk.slotsPerCluster = disk.slotsPerCluster := by
    unfold Disk.slotsPerCluster
    rw [same]
  have inDir : hit.place.1 ∈ disk.chain n parent := by
    rcases lookup_cases ends found with ⟨entry, -, there, -⟩ | ⟨-, there, -⟩
    · exact (mem_places.mp (findInDir_live ends there).1).1
    · exact (mem_places.mp (findInDir_live ends there).1).1
  have removed : removeGroup (n + 1) hit machine =
      (true, (removedSlots machine (n + 1) hit).foldl Machine.mark machine) :=
    removeGroup_marks (n + 1) (writable _ inDir)
  refine ⟨removed, ?_⟩
  rw [← marks_group_iff slots sameSlots ends room writable found]
  constructor
  · exact fun only => only.1
  · intro marks
    refine ⟨marks, ?_⟩
    intro record written
    rw [removed, marks_written, List.mem_append, List.mem_reverse, List.mem_map] at written
    rcases written with ⟨place, marked, rfl⟩ | old
    · have among : place ∈ disk.places n parent := by
        have inGroup := (marks place).mp marked
        obtain ⟨owned, -⟩ := owner_live ends found
        rcases ownGroup_cases ends owned with
          ⟨-, group⟩ | ⟨start, run, rest, before, split, -, group, -⟩
        · rw [group, List.mem_singleton] at inGroup
          rw [inGroup]
          exact owned
        · rw [group, List.mem_append, List.mem_singleton] at inGroup
          rcases inGroup with inRun | last
          · rw [split]
            exact List.mem_append_left _ (List.mem_append_right _ inRun)
          · rw [last]
            exact owned
      exact .inr ⟨place.1, (mem_places.mp among).1, _, rfl⟩
    · exact .inl old

def abAlias : ShortName := aliasCandidate (nameTo83 [0x61, 0x62]) 1

/-- A root directory of cluster 5 and `next`, with the long name of "ab" in the last slot
of the one and its entry in the first of the other. Everything else is file data. -/
def crossing (next : Nat) : Machine where
  disk :=
    { rootCluster := 5
      sectorsPerCluster := 1
      totalClusters := 20
      fat := fun cluster => if cluster = 5 then next else eocMin
      byteAt := fun cluster offset =>
        if cluster = 5 then
          if offset / direntSize = 15 then
            lfnEntry [0x61, 0x62] 1 1 (shortNameChecksum abAlias) (fun _ => 0)
              (offset % direntSize)
          else if offset % direntSize = 0 then direntDeleted else 0
        else if cluster = next then
          if offset / direntSize = 0 then
            shortEntry abAlias direntAttrArchive 12 0 (fun _ => 0) (offset % direntSize)
          else 0
        else 0x41 }
  allocHint := 2
  protectedEntry := none
  reserved := fun _ => false
  written := []

theorem removal_marks_own_group_adjacent :
    removeGroup 11 ⟨abAlias, (6, 0), some (5, 15)⟩ (crossing 6) =
        (true, (removedSlots (crossing 6) 11 ⟨abAlias, (6, 0), some (5, 15)⟩).foldl Machine.mark
          (crossing 6)) ∧
      (MarksOnly (crossing 6).disk 10 5
          ((crossing 6).disk.ownGroup ((crossing 6).disk.places 10 5)
            ((crossing 6).disk.ownerOf 10 5 [0x61, 0x62] ⟨abAlias, (6, 0), some (5, 15)⟩))
          (crossing 6) ⟨abAlias, (6, 0), some (5, 15)⟩ ↔
        GroupInLine (crossing 6).disk (crossing 6).reserved 10 5 [0x61, 0x62]
          ((crossing 6).disk.ownerOf 10 5 [0x61, 0x62] ⟨abAlias, (6, 0), some (5, 15)⟩)) := by
  have ends : EndsWithin (crossing 6).disk.nextCluster chainEnd 10 5 :=
    .inr (.inr (endsWithin_stop (by decide)))
  exact removal_marks_own_group_iff (by decide) rfl ends (by decide) (fun _ _ => rfl)
    (by decide +kernel)

/-- With the second cluster further on, the file data between the two is marked. -/
theorem delete_marks_foreign_cluster :
    (Clusters.fat32Delete 60 [0x61, 0x62] (crossing 9)).1 = true ∧
      6 ∉ (crossing 9).disk.chain 20 5 ∧ (crossing 9).disk.byteAt 6 0 = 0x41 ∧
      (Clusters.fat32Delete 60 [0x61, 0x62] (crossing 9)).2.disk.byteAt 6 0 = direntDeleted := by
  decide +kernel

end Racccoon.Fat32
