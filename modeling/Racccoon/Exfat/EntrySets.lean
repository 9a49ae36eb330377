import Racccoon.Exfat.Volume

/-!
Entry sets as they are built, read and rewritten (`exfat_build_set`,
`exfat_read_entry_set`, `exfat_rewrite_stream`, `exfat_grow_dir_entry`). The rewriters
read every slot of a set and write the first two back; a call's sectors may fail.
-/

namespace Racccoon.Exfat
open Function (update update_self update_of_ne)

variable (slot : Slot)

def storeUshort (offset : Nat) (value : BitVec 16) : Slot :=
  Function.update (Function.update slot offset (value.setWidth 8)) (offset + 1)
    ((value >>> 8).setWidth 8)

def storeUint (offset : Nat) (value : BitVec 32) : Slot :=
  storeUshort (storeUshort slot offset (value.setWidth 16)) (offset + 2)
    ((value >>> 16).setWidth 16)

def blankSlot : Slot := fun _ => 0

/-- One byte taken into a checksum or a hash. -/
def rotateAdd (sum : BitVec 16) (byte : BitVec 8) : BitVec 16 :=
  ((sum &&& 1) <<< 15 ||| sum >>> 1) + byte.setWidth 16

/-- `exfat_set_checksum`. -/
def setChecksum (slots : List Slot) : BitVec 16 :=
  (List.range (slots.length * exfatDirentSize)).foldl
    (fun sum i => if i = 0x02 ∨ i = 0x03 then sum
      else rotateAdd sum (slots.getD (i / exfatDirentSize) blankSlot (i % exfatDirentSize))) 0

def nameHash (volume : Volume) (name : List Char16) : BitVec 16 :=
  name.foldl (fun hash c =>
    let c := exfatUpcase volume c
    rotateAdd (rotateAdd hash (c.setWidth 8)) ((c >>> 8).setWidth 8)) 0

/-- The set with its checksum stored. -/
def withChecksum : List Slot → List Slot
  | [] => []
  | primary :: rest => storeUshort primary 0x02 (setChecksum (primary :: rest)) :: rest

def fixedTimestamp : BitVec 32 := 46 <<< 25 ||| 1 <<< 21 ||| 1 <<< 16

def primaryEntry (secondaries : Nat) (attr : BitVec 16) : Slot :=
  let slot := Function.update (Function.update blankSlot 0 0x85) 0x01 (BitVec.ofNat 8 secondaries)
  let slot := storeUint (storeUshort slot 0x04 attr) 0x08 fixedTimestamp
  storeUint (storeUint slot 0x0C fixedTimestamp) 0x10 fixedTimestamp

/-- ValidDataLength and DataLength, eight bytes each. -/
def storeLengths (length : BitVec 32) : Slot :=
  storeUint (storeUint (storeUint (storeUint slot 0x08 length) 0x0C 0) 0x18 length) 0x1C 0

def hasData (cluster length : BitVec 32) : Bool := 2 ≤ cluster && 0 < length

/-- What the builder and `exfat_rewrite_stream` store about the data. -/
def pointStream (cluster length : BitVec 32) (noFatChain : Bool) : Slot :=
  let flags : BitVec 8 := if hasData cluster length && noFatChain then 0x03 else 0x01
  storeUint (storeLengths (Function.update slot 0x01 flags) length) 0x14
    (if hasData cluster length then cluster else 0)

/-- What `exfat_grow_dir_entry` stores. -/
def unchainStream (length : BitVec 32) : Slot :=
  storeLengths (Function.update slot 0x01 (slot 0x01 &&& ~~~0x02)) length

def streamEntry (volume : Volume) (name : List Char16) : Slot :=
  storeUshort (Function.update (Function.update blankSlot 0 0xC0) 0x03
    (BitVec.ofNat 8 name.length)) 0x04 (nameHash volume name)

variable (name : List Char16)

/-- The `e`-th File Name entry, unit by unit. -/
def nameEntry (e : Nat) : Slot := fun i =>
  let unit := name.getD (e * exfatNameCharsPerEntry + (i - 2) / 2) 0
  if i = 0 then 0xC1
  else if i < 2 then 0
  else if i % 2 = 0 then unit.setWidth 8
  else (unit >>> 8).setWidth 8

def nameEntries : Nat :=
  max 1 ((name.length + exfatNameCharsPerEntry - 1) / exfatNameCharsPerEntry)

def nameEntrySlots : List Slot :=
  (List.range (nameEntries name)).map (nameEntry name)

/-- `exfat_build_set`. -/
def buildSet (volume : Volume) (name : List Char16) (attr : BitVec 16) (cluster length : BitVec 32)
    (noFatChain : Bool) : List Slot :=
  withChecksum (primaryEntry (1 + nameEntries name) attr ::
    pointStream (streamEntry volume name) cluster length noFatChain :: nameEntrySlots name)

inductive Call where
  | rewriteStream (cluster length : BitVec 32) (noFatChain : Bool)
  | growDirEntry (length : BitVec 32)

def Call.edit : Call → Slot → Slot
  | .rewriteStream cluster length noFatChain, slot => pointStream slot cluster length noFatChain
  | .growDirEntry length, slot => unchainStream slot length

/-- Which slots' sectors cannot be read or written during a call. -/
structure Faults where
  read : Spot → Bool
  write : Spot → Bool

variable (volume : Volume)

/-- `exfat_write_slot`. -/
def writeSlot (faults : Faults) (slotAt : Spot → Slot) (spot : Spot) (slot : Slot) :
    Bool × (Spot → Slot) :=
  if volume.protectedEntry spot || faults.read spot || faults.write spot then (false, slotAt)
  else (true, Function.update slotAt spot slot)

/-- Either rewriter, on the set whose slots are at `locs`. -/
def rewrite (locs : List Spot) (call : Call) (faults : Faults) (slotAt : Spot → Slot) :
    Bool × (Spot → Slot) :=
  match locs with
  | first :: second :: rest =>
    if exfatMaxSetSlots < locs.length || locs.any faults.read then (false, slotAt)
    else
      match withChecksum (slotAt first :: call.edit (slotAt second) :: rest.map slotAt) with
      | primary :: stream :: _ =>
        let written := writeSlot volume faults slotAt first primary
        if written.1 then writeSlot volume faults written.2 second stream else written
      | _ => (false, slotAt)
  | _ => (false, slotAt)

/-- One call after the other, each with its faults. -/
def rewrites (locs : List Spot) : List (Call × Faults) → (Spot → Slot) → (Spot → Slot)
  | [], slotAt => slotAt
  | (call, faults) :: rest, slotAt =>
    rewrites locs rest (rewrite volume locs call faults slotAt).2

/-- The checksum stored in the set is that of the whole set. -/
def Sealed (slots : List Slot) : Prop :=
  ushortAt (slots.getD 0 blankSlot) 0x02 = setChecksum slots

/-- The cursor comes to these slots next. -/
def Ahead : List Slot → Machine → Cursor → Prop
  | [], _, _ => True
  | slot :: rest, machine, cursor => ∃ next machine',
      cursorNext volume machine cursor = some (slot, next, machine') ∧ Ahead rest machine' next

/-- Wherever the slots stand, `exfat_read_entry_set` reads this name from them, and what it
reads else is so. -/
def ReadsBack (slots : List Slot) (name : List Char16) (others : EntrySet → Prop) : Prop :=
  ∀ volume primary rest, slots = primary :: rest → ∀ machine spot cursor buffer,
    Ahead volume rest machine cursor → ∃ set,
      (readEntrySet volume machine primary spot cursor buffer).1 = some set ∧ others set ∧
        set.nameLength = name.length ∧ ∀ i < name.length,
          (readEntrySet volume machine primary spot cursor buffer).2.1 i = name.getD i 0

/-- The call does not get stuck between its two writes. -/
def Whole (locs : List Spot) (faults : Faults) : Prop :=
  ∀ spot ∈ locs[1]?,
    volume.protectedEntry spot = false ∧ faults.read spot = false ∧ faults.write spot = false

variable {volume} {slot primary stream : Slot} {offset : Nat} {name : List Char16}
  {rest : List Slot} {machine : Machine} {cursor : Cursor}

variable (value : BitVec 16)

theorem halves : (value >>> 8).setWidth 8 ++ value.setWidth 8 = value := by
  grind

theorem halves_uint (value : BitVec 32) :
    (value >>> 16).setWidth 16 ++ value.setWidth 16 = value := by
  grind

theorem storeUshort_apart {i : Nat} (apart : i ≠ offset ∧ i ≠ offset + 1) :
    storeUshort slot offset value i = slot i := by
  simp [storeUshort, apart]

theorem ushortAt_store : ushortAt (storeUshort slot offset value) offset = value := by
  simp [ushortAt, storeUshort, halves]

theorem ushortAt_apart {field : Nat} (apart : field + 1 < offset ∨ offset + 1 < field) :
    ushortAt (storeUshort slot offset value) field = ushortAt slot field := by
  rw [ushortAt, ushortAt, storeUshort_apart _ (by omega), storeUshort_apart _ (by omega)]

theorem uintAt_store (value : BitVec 32) : uintAt (storeUint slot offset value) offset = value := by
  rw [uintAt, storeUint, ushortAt_store, ushortAt_apart _ (by omega), ushortAt_store, halves_uint]

theorem storeUint_apart (value : BitVec 32) {i : Nat} (apart : i < offset ∨ offset + 3 < i) :
    storeUint slot offset value i = slot i := by
  rw [storeUint, storeUshort_apart _ (by omega), storeUshort_apart _ (by omega)]

theorem uintAt_apart (value : BitVec 32) {field : Nat}
    (apart : field + 3 < offset ∨ offset + 3 < field) :
    uintAt (storeUint slot offset value) field = uintAt slot field := by
  simp only [uintAt, ushortAt]
  iterate 4 rw [storeUint_apart _ (by omega)]

/-- The checksum skips its own field. -/
theorem setChecksum_store :
    setChecksum (storeUshort primary 0x02 value :: rest) = setChecksum (primary :: rest) := by
  refine List.foldl_ext _ _ _ fun sum i _ => ?_
  by_cases field : i = 0x02 ∨ i = 0x03
  · rw [if_pos field, if_pos field]
  · cases at_ : i / exfatDirentSize with
    | succ k => rfl
    | zero =>
      have small := Nat.lt_of_div_eq_zero (by decide) at_
      rw [List.getD_cons_zero, List.getD_cons_zero, Nat.mod_eq_of_lt small,
        storeUshort_apart _ (by omega)]

theorem withChecksum_sealed : Sealed (withChecksum (primary :: rest)) := by
  rw [Sealed, withChecksum, setChecksum_store, List.getD_cons_zero, ushortAt_store]

theorem nameChar_nameEntry (e k : Nat) :
    nameChar (nameEntry name e) k = name.getD (e * exfatNameCharsPerEntry + k) 0 := by
  have low : (2 + k * 2 - 2) / 2 = k := by omega
  have high : (2 + k * 2 + 1 - 2) / 2 = k := by omega
  have even : (2 + k * 2) % 2 = 0 := by omega
  have odd : (2 + k * 2 + 1) % 2 ≠ 0 := by omega
  simp only [nameChar, ushortAt, nameEntry]
  rw [if_neg (by omega), if_neg (by omega), if_neg odd, if_neg (by omega), if_neg (by omega),
    if_pos even, low, high, halves]

theorem readNames_reads (short : name.length ≤ exfatNameMax) {left : Nat} (e : Nat)
    (buffer : NameBuffer) (locs : List Spot)
    (ahead : Ahead volume ((List.range' e left).map (nameEntry name)) machine cursor)
    (so_far : ∀ i < name.length, i < e * exfatNameCharsPerEntry → buffer i = name.getD i 0) :
    ∃ all, (readNames volume name.length left (e + 1) machine cursor buffer locs).1 = some all ∧
      ∀ i < name.length, i < (e + left) * exfatNameCharsPerEntry →
        (readNames volume name.length left (e + 1) machine cursor buffer locs).2.1 i =
          name.getD i 0 := by
  induction left generalizing e machine cursor buffer locs with
  | zero => exact ⟨locs, rfl, so_far⟩
  | succ left ih =>
    obtain ⟨next, machine', step, ahead⟩ := ahead
    have filled : ∀ i < name.length, i < (e + 1) * exfatNameCharsPerEntry →
        fillName buffer (nameEntry name e) ((e + 1 - 1) * exfatNameCharsPerEntry) name.length i =
          name.getD i 0 := by
      intro i inside covered
      rw [Nat.add_sub_cancel, fillName]
      by_cases here : e * exfatNameCharsPerEntry ≤ i
      · rw [Nat.succ_mul] at covered
        rw [if_pos ⟨here, covered, inside, by omega⟩, nameChar_nameEntry, Nat.add_sub_cancel' here]
      · rw [if_neg (by omega)]
        exact so_far i inside (by omega)
    have read := ih (e + 1) _ (locs ++ [cursor.spot]) ahead filled
    rw [readNames, step, show e + (left + 1) = e + 1 + left by omega]
    exact read

/-- The slots of a set for this name. -/
structure Encodes (name : List Char16) (primary stream : Slot) : Prop where
  inUse : inUse primary = true
  secondaries : secondaryCount primary = 1 + nameEntries name
  nameLength : streamNameLength stream = name.length

theorem Encodes.reads (encodes : Encodes name primary stream) (short : name.length ≤ exfatNameMax)
    {others : EntrySet → Prop}
    (fields : ∀ locs, others ⟨fileAttributes primary, streamFirstCluster stream,
      streamDataLength stream, streamNoFatChain stream, streamNameLength stream, locs⟩) :
    ReadsBack (primary :: stream :: nameEntrySlots name) name others := by
  intro volume head rest same machine spot cursor buffer ahead
  cases same
  obtain ⟨next, machine', step, ahead⟩ := ahead
  rw [nameEntrySlots, List.range_eq_range'] at ahead
  obtain ⟨all, read, named⟩ := readNames_reads short 0 buffer [spot, cursor.spot] ahead
    (by simp)
  rw [readEntrySet, encodes.secondaries, Nat.add_comm]
  simp only [step, encodes.nameLength, read, encodes.inUse]
  refine ⟨_, rfl, by simpa [encodes.nameLength] using fields all, rfl, fun i inside => ?_⟩
  refine named i inside ?_
  simp only [nameEntries, exfatNameCharsPerEntry]
  omega

theorem storeLengths_apart (length : BitVec 32) {i : Nat}
    (apart : i < 0x08 ∨ 0x0F < i ∧ i < 0x18) : storeLengths slot length i = slot i := by
  unfold storeLengths
  iterate 4 rw [storeUint_apart _ (by omega)]

theorem call_nameLength (call : Call) (slot : Slot) :
    streamNameLength (call.edit slot) = streamNameLength slot := by
  unfold streamNameLength
  cases call with
  | rewriteStream cluster length noFatChain =>
    rw [Call.edit, pointStream, storeUint_apart _ (by omega), storeLengths_apart _ (by omega),
      update_of_ne (by decide)]
  | growDirEntry length =>
    rw [Call.edit, unchainStream, storeLengths_apart _ (by omega),
      update_of_ne (by decide)]

theorem Encodes.withChecksum (encodes : Encodes name primary stream) (value : BitVec 16)
    {stream' : Slot} (kept : streamNameLength stream' = streamNameLength stream) :
    Encodes name (storeUshort primary 0x02 value) stream' where
  inUse := by
    exact encodes.inUse
  secondaries := by
    exact encodes.secondaries
  nameLength := kept.trans encodes.nameLength

theorem primaryEntry_byte (secondaries : Nat) (attr : BitVec 16) {i : Nat} (low : i < 0x08) :
    primaryEntry secondaries attr i = storeUshort (update
      (update blankSlot 0 0x85) 0x01 (BitVec.ofNat 8 secondaries)) 0x04 attr i := by
  unfold primaryEntry
  iterate 3 rw [storeUint_apart _ (by omega)]

section
variable (short : name.length ≤ exfatNameMax)
include short

variable (attr : BitVec 16)

theorem primaryEntry_encodes (length : streamNameLength stream = name.length) :
    Encodes name (primaryEntry (1 + nameEntries name) attr) stream where
  inUse := by
    rw [inUse, entryType, primaryEntry_byte _ _ (by omega), storeUshort_apart _ (by omega),
      update_of_ne (by decide)]
    decide
  secondaries := by
    rw [secondaryCount, primaryEntry_byte _ _ (by omega), storeUshort_apart _ (by omega),
      update_self, BitVec.toNat_ofNat]
    simp only [exfatNameMax] at short
    simp only [nameEntries, exfatNameCharsPerEntry]
    omega
  nameLength := length

/-- What a built set reads as. -/
def Built (cluster length : BitVec 32) (noFatChain : Bool) (set : EntrySet) : Prop :=
  set.attr = attr ∧ set.dataLength = length.toNat ∧
    set.firstCluster = (if hasData cluster length then cluster else 0).toNat ∧
    set.noFatChain = (hasData cluster length && noFatChain)

theorem streamEntry_nameLength : streamNameLength (streamEntry volume name) = name.length := by
  exact Nat.mod_eq_of_lt (Nat.lt_of_le_of_lt short (by decide))

theorem buildSet_reads (cluster length : BitVec 32) (noFatChain : Bool) :
    ReadsBack (buildSet volume name attr cluster length noFatChain) name
      (Built attr cluster length noFatChain) := by
  have kept := call_nameLength (.rewriteStream cluster length noFatChain) (streamEntry volume name)
  have encodes := (primaryEntry_encodes short attr (streamEntry_nameLength short)).withChecksum
    (setChecksum (primaryEntry (1 + nameEntries name) attr ::
      pointStream (streamEntry volume name) cluster length noFatChain :: nameEntrySlots name)) kept
  refine encodes.reads short fun locs => ⟨?_, ?_, ?_, ?_⟩
  · rw [fileAttributes, ushortAt_apart _ (by omega), ushortAt, primaryEntry_byte _ _ (by omega),
      primaryEntry_byte _ _ (by omega), ← ushortAt, ushortAt_store]
  · dsimp only [Call.edit]
    rw [streamDataLength, pointStream, uintAt_apart _ (by omega), storeLengths,
      uintAt_apart _ (by omega), uintAt_store]
  · dsimp only [Call.edit]
    rw [streamFirstCluster, pointStream, uintAt_store]
  · dsimp only [Call.edit]
    rw [streamNoFatChain, pointStream, storeUint_apart _ (by omega),
      storeLengths_apart _ (by omega), update_self]
    split
    next both => rw [both]; decide
    next neither => rw [Bool.eq_false_iff.mpr neither]; decide

end

/-- The slots at these places are a set for the name, with its checksum. -/
def Holds (name : List Char16) (slots : List Slot) : Prop :=
  Sealed slots ∧ ∃ primary stream,
    slots = primary :: stream :: nameEntrySlots name ∧ Encodes name primary stream

theorem rewrite_keeps {locs : List Spot} {slotAt : Spot → Slot} (nodup : locs.Nodup)
    (holds : Holds name (locs.map slotAt)) (call : Call) {faults : Faults}
    (whole : Whole volume locs faults) :
    Holds name (locs.map (rewrite volume locs call faults slotAt).2) := by
  obtain _ | ⟨first, _ | ⟨second, rest⟩⟩ := locs
  · exact holds
  · exact holds
  · rw [rewrite]
    split
    next => exact holds
    next =>
      obtain ⟨open_, readable, writable⟩ := whole second rfl
      simp only [withChecksum, writeSlot, open_, readable, writable, Bool.or_self]
      cases volume.protectedEntry first || faults.read first || faults.write first with
      | true => exact holds
      | false =>
        obtain ⟨-, primary, stream, set, encodes⟩ := holds
        obtain ⟨apart, nodup⟩ := List.nodup_cons.mp nodup
        have behind : ∀ value other, rest.map (update
            (update slotAt first value) second other) = rest.map slotAt := by
          intro value other
          refine List.map_congr_left fun spot inside => ?_
          rw [update_of_ne, update_of_ne]
          · exact fun same => apart (same ▸ List.mem_cons_of_mem _ inside)
          · exact fun same => (List.nodup_cons.mp nodup).1 (same ▸ inside)
        have neq : first ≠ second := fun same => apart (same ▸ List.mem_cons_self)
        simp only [List.map_cons, List.cons.injEq] at set
        obtain ⟨rfl, rfl, names⟩ := set
        simp only [List.map_cons, Bool.false_eq_true, if_false, if_true, behind,
          update_self, update_of_ne neq]
        exact ⟨withChecksum_sealed, _, _, by rw [names],
          encodes.withChecksum _ (call_nameLength call _)⟩

theorem rewrites_keep {locs : List Spot} {slotAt : Spot → Slot} (nodup : locs.Nodup)
    (holds : Holds name (locs.map slotAt)) {calls : List (Call × Faults)}
    (whole : ∀ call ∈ calls, Whole volume locs call.2) :
    Holds name (locs.map (rewrites volume locs calls slotAt)) := by
  induction calls generalizing slotAt with
  | nil => exact holds
  | cons call rest ih =>
    obtain ⟨here, later⟩ := List.forall_mem_cons.mp whole
    exact ih (rewrite_keeps nodup holds call.1 here) later

/-- A built set reads back, a cluster and the chain flag being stored only for data; and the
rewriters keep its name and its checksum. -/
theorem entry_sets_round_trip (volume : Volume) (name : List Char16)
    (short : name.length ≤ exfatNameMax) (attr : BitVec 16) (cluster length : BitVec 32)
    (noFatChain : Bool) :
    let slots := buildSet volume name attr cluster length noFatChain
    slots.length ≤ exfatMaxSetSlots ∧ Sealed slots ∧
      ReadsBack slots name (Built attr cluster length noFatChain) ∧
      ∀ locs slotAt calls, locs.Nodup → locs.map slotAt = slots →
        (∀ call ∈ calls, Whole volume locs call.2) →
        Sealed (locs.map (rewrites volume locs calls slotAt)) ∧
          ReadsBack (locs.map (rewrites volume locs calls slotAt)) name fun _ => True := by
  have reads : ReadsBack (buildSet volume name attr cluster length noFatChain) name
      (Built attr cluster length noFatChain) := buildSet_reads short attr cluster length noFatChain
  have kept := call_nameLength (.rewriteStream cluster length noFatChain) (streamEntry volume name)
  have built : Holds name (buildSet volume name attr cluster length noFatChain) :=
    ⟨withChecksum_sealed, _, _, rfl,
      (primaryEntry_encodes short attr (streamEntry_nameLength short)).withChecksum _ kept⟩
  refine ⟨?_, built.1, reads, fun locs slotAt calls nodup at_ whole => ?_⟩
  · simp only [buildSet, withChecksum, nameEntrySlots, List.length_cons, List.length_map,
      List.length_range, exfatMaxSetSlots, nameEntries, exfatNameCharsPerEntry]
    simp only [exfatNameMax] at short
    omega
  · obtain ⟨sealed_, primary, stream, set, encodes⟩ :=
      rewrites_keep nodup (at_ ▸ built) whole
    exact ⟨sealed_, set ▸ encodes.reads short fun _ => trivial⟩

/-- A directory cluster that begins with a set of one File Name entry. -/
def holding (slots : List Slot) : Volume where
  sectorsPerCluster := 1
  clusterHeapOffset := 0
  clusterCount := 1
  rootCluster := 2
  bitmapCluster := 0
  upcaseLow := fun _ => 0
  protectedEntry := fun _ => false
  slotAt := fun spot => slots.getD spot.entryInSector blankSlot
  fat := fun _ => 0

def emptySet : List Slot := buildSet (holding []) [0x61] 0 5 0 false

def emptyLocs : List Spot := [⟨2, 0, 0⟩, ⟨2, 0, 1⟩, ⟨2, 0, 2⟩]

theorem entry_sets_round_trip_letter :
    Sealed (emptyLocs.map (rewrites (holding emptySet) emptyLocs
      [(.growDirEntry 512, ⟨fun _ => false, fun _ => false⟩)] (holding emptySet).slotAt)) :=
  ((entry_sets_round_trip (holding []) [0x61] (by decide) 0 5 0 false).2.2.2 emptyLocs
    (holding emptySet).slotAt [(.growDirEntry 512, ⟨fun _ => false, fun _ => false⟩)] (by decide)
    rfl (by simp [Whole, holding])).1

set_option maxRecDepth 4000

/-- The cluster of a set without data is not stored; and a call that fails between its two
writes leaves the checksum of neither set. -/
theorem empty_set_forgets_cluster :
    ¬ ReadsBack emptySet [0x61] (fun set => set.firstCluster = 5) ∧
      ¬ Sealed (emptyLocs.map (rewrite (holding emptySet) emptyLocs (.growDirEntry 512)
        ⟨fun _ => false, fun spot => spot.entryInSector == 1⟩ (holding emptySet).slotAt).2) := by
  constructor
  · intro right
    have ahead : Ahead (holding emptySet) (emptySet.drop 1) ⟨fun _ => 0, fun _ => false, []⟩
        ⟨⟨2, false, 0⟩, ⟨2, 0, 1⟩⟩ := ⟨_, _, rfl, _, _, rfl, trivial⟩
    obtain ⟨set, read, five, -⟩ := right (holding emptySet) _ _ rfl _ ⟨2, 0, 0⟩ _ blankBuffer ahead
    obtain ⟨built, again, ⟨-, -, zero, -⟩, -⟩ := buildSet_reads (by decide) 0 5 0 false
      (holding emptySet) _ _ rfl _ ⟨2, 0, 0⟩ _ blankBuffer ahead
    obtain rfl := Option.some.inj (read.symm.trans again)
    rw [five] at zero
    cases zero
  · unfold Sealed
    decide

end Racccoon.Exfat
