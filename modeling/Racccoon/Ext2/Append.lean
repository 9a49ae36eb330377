import Racccoon.Ext2.Access
import Racccoon.Ext2.StoreAt

/-!
An append on ext2: FS_WRITE_AT with `FS_OFFSET_APPEND`. The server asks for the file's
size first, by a stat with its own permission check, and writes at the answer. `Service` says
what the disk does to each part of the request.
-/

namespace Racccoon.Ext2.Append

/-- What the write's own search for the file comes to. One that cannot be read takes the file
for missing; a write at 0 then makes a file, unless it is refused, and stores where a second
search leads. -/
inductive Search where
  | found
  | failed
  | missed (made : Option Nat)

/-- What comes of the inode at the end. Its write may fail with the record on the disk all the
same, or without it: then the file still has the blocks of `linked`. -/
inductive Closing where
  | saved
  | behind
  | lost (linked : Nat → Bool)

structure Service where
  checkFails : Bool
  statFails : Bool
  search : Search
  block : Nat → Fate
  closing : Closing

def bytesOf (volume : Volume) (num : Nat) : List UInt8 := (volume.inodes num).content

variable (service : Service) (volume : Volume)

def fates (num b : Nat) : Fate :=
  if volume.reserved num b then .missing else service.block b

/-- The file through the blocks it had, where its inode has not been written. -/
def relinked (size : Nat) (linked : Nat → Bool) (old stored : List UInt8) : List UInt8 :=
  old.mapIdx fun place byte => if linked (place / size) then stored.getD place byte else byte

/-- `ext2_write_file_at`, and the size and the inode that `ext2_write_at` writes. -/
def storeAt (src : List UInt8) (offset : Nat) (volume : Volume) (num : Nat) : Volume × Option Nat :=
  let content := bytesOf volume num
  if content.length < offset then (volume, none)
  else if ext2MaxOffset volume.blockSize ≤ offset then (volume, none)
  else
    let stored := storeBlocks volume.blockSize (fates service volume num) (src.length + 1)
      offset src content
    let written := src.length - stored.2.length
    let grown := stored.1.take (max content.length ((offset + written) % 2 ^ 32))
    let put (bytes : List UInt8) := volume.alter num fun inode => { inode with content := bytes }
    match service.closing with
    | .saved => (put grown, some written)
    | .behind => (put grown, none)
    | .lost linked => (put (relinked volume.blockSize linked content stored.1), none)

/-- The offset the server puts for `FS_OFFSET_APPEND`. A permission check that cannot
read its sectors lets the request pass. -/
def startOf (name : List UInt8) (uid : Nat) : Nat :=
  if service.statFails then 0
  else if service.checkFails then ((ext2Stat volume name).map Prod.fst).getD 0
  else appendOffset volume name uid

def fsAppend (uid : Nat) (space : Space) (raw data : List UInt8) : Volume × Option Nat :=
  let name := fsFilename raw
  let start := startOf service volume name uid
  let store := storeAt service (data.take (fsMsgMax - 108)) start
  if fsIsProtectedName name then (volume, none)
  else
    match service.search with
    | .found => ext2WriteThrough store (start = 0) volume name uid space
    | .failed => (volume.dropCache, none)
    | .missed made =>
      if start = 0 then (made.map (store volume.dropCache)).getD (volume.dropCache, none)
      else (volume.dropCache, none)

/-- The request failed and left the file alone, or the bytes it counts stand behind the
old end: all of them, unless the block of the next one is not written. -/
def Appended (num : Nat) (data : List UInt8) (outcome : Volume × Option Nat) : Prop :=
  let old := bytesOf volume num
  let now := bytesOf outcome.1 num
  now = old ∧ (outcome.2 = none ∨ outcome.2 = some 0) ∨
    ∃ count ≤ data.length, outcome.2 = some count ∧ now = old ++ data.take count ∧
      (count < data.length →
        (fates service volume num ((old.length + count) / volume.blockSize)).isStored = false)

def Refused (uid : Nat) (name : List UInt8) (found : Found) : Prop :=
  fsIsProtectedName name = true ∨ service.search = .failed ∨
    service.search = .found ∧ (fsIsProtectedEntry volume found.pos = true ∨
      ext2WriteAllowed (volume.inodes found.inode) uid = false)

def EndFound (inode : Inode) (uid : Nat) : Prop :=
  inode.content = [] ∨ service.statFails = false ∧
    (service.checkFails = true ∨ ext2ReadAllowed inode uid = true)

variable (num offset : Nat) (data : List UInt8)

def storable : Nat :=
  reach volume.blockSize (fates service volume num) data.length offset

/-- What reaches the file's own bytes in the blocks that are `seen` is what they are already. -/
def Spares (seen : Nat → Bool) : Prop :=
  ∀ place < (bytesOf volume num).length, ∀ new,
    Lands volume.blockSize (fates service volume num) place new data offset →
      seen (place / volume.blockSize) = true → (bytesOf volume num)[place]? = some new

/-- A write at `offset` is too far out, or spares the file's bytes, and its reply and the size
agree with that: a count is of bytes behind the end and below 4 GiB, and a failure whose inode is
on the disk has not grown the file. -/
def InPlace : Prop :=
  let size := (bytesOf volume num).length
  let count := storable service volume num offset data
  ext2MaxOffset volume.blockSize ≤ offset ∨
    match service.closing with
    | .saved => Spares service volume num offset data (fun _ => true) ∧
        (count = 0 ∨ offset = size ∧ offset + count < 2 ^ 32)
    | .behind => Spares service volume num offset data (fun _ => true) ∧
        (offset + count) % 2 ^ 32 ≤ size
    | .lost linked => Spares service volume num offset data linked

/-- The write is in place where the end was found, or else at the front; or its search misses
the file, and it has an end to write at that is not the front, or makes no other file of which it
counts a byte. -/
def Harmless (uid num : Nat) (data : List UInt8) : Prop :=
  let found := EndFound service (volume.inodes num) uid
  let size := (bytesOf volume num).length
  match service.search with
  | .failed => True
  | .found => found ∧ InPlace service volume num size data ∨
      ¬ found ∧ InPlace service volume num 0 data
  | .missed made => found ∧ size ≠ 0 ∨ ∀ other ∈ made,
      if other = num then InPlace service volume num 0 data
      else service.closing ≠ .saved ∨ storable service volume other 0 data = 0

section Store
variable {service : Service} {volume : Volume} {num offset : Nat} {data : List UInt8}

theorem storable_le (offset : Nat) : storable service volume num offset data ≤ data.length :=
  reach_le _ _ _ _

/-- What the loop leaves agrees with the file in the blocks that are `seen` exactly when the
request spares them. -/
theorem spares_iff {out : List UInt8 × List UInt8} {seen : Nat → Bool}
    (laid : Overlaid volume.blockSize (fates service volume num) offset data (bytesOf volume num)
      out) :
    (∀ place < (bytesOf volume num).length, seen (place / volume.blockSize) = true →
        out.1[place]? = (bytesOf volume num)[place]?) ↔
      Spares service volume num offset data seen := by
  constructor
  · intro same place inside new lands shown
    have there := laid.written new place (Nat.lt_of_lt_of_le inside laid.grown) lands
    rw [← same place inside shown]
    exact there
  · intro spares place inside shown
    by_cases reached : ∃ new, Lands volume.blockSize (fates service volume num) place new data offset
    · obtain ⟨new, lands⟩ := reached
      rw [laid.written new place (Nat.lt_of_lt_of_le inside laid.grown) lands,
        spares place inside new lands shown]
    · exact laid.kept place inside fun new lands => reached ⟨new, lands⟩

/-- The front of what the loop leaves is the file exactly when the request spares it. -/
theorem take_eq_iff {out : List UInt8 × List UInt8}
    (laid : Overlaid volume.blockSize (fates service volume num) offset data (bytesOf volume num)
      out) :
    out.1.take (bytesOf volume num).length = bytesOf volume num ↔
      Spares service volume num offset data (fun _ => true) := by
  rw [← spares_iff laid, List.ext_getElem?_iff]
  constructor
  · intro same place inside _
    have here := same place
    rwa [List.getElem?_take_of_lt inside] at here
  · intro same place
    by_cases inside : place < (bytesOf volume num).length
    · rw [List.getElem?_take_of_lt inside]
      exact same place inside rfl
    · rw [List.getElem?_eq_none (by rw [List.length_take]; omega),
        List.getElem?_eq_none (by omega)]

theorem relinked_eq_iff {out : List UInt8 × List UInt8} {linked : Nat → Bool}
    (laid : Overlaid volume.blockSize (fates service volume num) offset data (bytesOf volume num)
      out) :
    relinked volume.blockSize linked (bytesOf volume num) out.1 = bytesOf volume num ↔
      Spares service volume num offset data linked := by
  rw [← spares_iff laid, List.ext_getElem?_iff]
  have here : ∀ place, ∀ inside : place < (bytesOf volume num).length,
      ((relinked volume.blockSize linked (bytesOf volume num) out.1)[place]? =
          (bytesOf volume num)[place]? ↔
        (linked (place / volume.blockSize) = true →
          out.1[place]? = (bytesOf volume num)[place]?)) := by
    intro place inside
    have there := List.getElem?_eq_getElem (Nat.lt_of_lt_of_le inside laid.grown)
    simp only [relinked, List.getElem?_mapIdx, List.getElem?_eq_getElem inside, Option.map_some,
      there, List.getD_eq_getElem?_getD, Option.getD_some, Option.some.injEq]
    cases linked (place / volume.blockSize) with
    | false => simp
    | true => simp
  constructor
  · intro same place inside
    exact (here place inside).mp (same place)
  · intro same place
    by_cases inside : place < (bytesOf volume num).length
    · exact (here place inside).mpr (same place inside)
    · rw [List.getElem?_eq_none (by rw [relinked, List.length_mapIdx]; omega),
        List.getElem?_eq_none (by omega)]

/-- Behind the end of the file stand the bytes that are stored. -/
theorem take_grown {out : List UInt8 × List UInt8}
    (laid : Overlaid volume.blockSize (fates service volume num) (bytesOf volume num).length data
      (bytesOf volume num) out)
    (spares : Spares service volume num (bytesOf volume num).length data (fun _ => true))
    (low : (bytesOf volume num).length +
      storable service volume num (bytesOf volume num).length data < 2 ^ 32) :
    out.1.take ((bytesOf volume num).length +
        storable service volume num (bytesOf volume num).length data) =
      bytesOf volume num ++
        data.take (storable service volume num (bytesOf volume num).length data) := by
  have most := @storable_le service volume num data (bytesOf volume num).length
  rw [List.take_add, (take_eq_iff laid).mpr spares]
  congr 1
  refine List.ext_getElem? fun index => ?_
  by_cases inside : index < storable service volume num (bytesOf volume num).length data
  · obtain ⟨byte, there, lands⟩ := reach_lands index (by omega) inside
    have place := laid.covers index inside
    rw [Nat.mod_eq_of_lt (by omega)] at lands place
    rw [List.getElem?_take_of_lt inside, List.getElem?_take_of_lt inside, List.getElem?_drop,
      laid.written byte _ place lands, there]
  · rw [List.getElem?_eq_none (by rw [List.length_take]; omega),
      List.getElem?_eq_none (by rw [List.length_take]; omega)]

theorem bytesOf_put (bytes : List UInt8) :
    bytesOf (volume.alter num fun inode => { inode with content := bytes }) num = bytes := by
  rw [bytesOf, Volume.alter_inodes_self]

variable (mounted : Mounted volume.blockSize) (short : data.length < 65536)
include mounted short

/-- A store at a place in the file or at its end is in order exactly when it is in place. -/
theorem storeAt_iff (inside : offset ≤ (bytesOf volume num).length) :
    Appended service volume num data (storeAt service data offset volume num) ↔
      InPlace service volume num offset data := by
  by_cases high : ext2MaxOffset volume.blockSize ≤ offset
  · refine iff_of_true (.inl ?_) (.inl high)
    rw [storeAt, if_neg (Nat.not_lt.mpr inside), if_pos high]
    exact ⟨rfl, .inl rfl⟩
  · have most := @storable_le service volume num data offset
    have low : offset < 2 ^ 32 - 1 := by
      rw [maxOffset_eq mounted] at high
      omega
    have laid := @storeBlocks_overlaid volume.blockSize (fates service volume num) offset
      (data.length + 1) data (bytesOf volume num) mounted (Nat.lt_succ_self _) short inside
      fun _ => low
    unfold InPlace
    rw [storeAt, if_neg (Nat.not_lt.mpr inside), if_neg high, or_iff_right high]
    generalize storeBlocks volume.blockSize (fates service volume num) (data.length + 1) offset
      data (bytesOf volume num) = out at laid
    have written : data.length - out.2.length = storable service volume num offset data := by
      rw [laid.rest, List.length_drop]
      exact Nat.sub_sub_self most
    have stops := @reach_stops volume.blockSize (fates service volume num) offset data.length
      (by omega)
    dsimp only
    rw [written]
    change storable service volume num offset data < _ → (fates service volume num
      ((offset + storable service volume num offset data) % 2 ^ 32 / volume.blockSize)).isStored =
        false at stops
    have covers := laid.covers
    change ∀ index < storable service volume num offset data, _ at covers
    have same := take_eq_iff laid
    have width := @List.length_take _ (max (bytesOf volume num).length
      ((offset + storable service volume num offset data) % 2 ^ 32)) out.1
    have grown := laid.grown
    unfold Appended
    cases service.closing with
    | saved =>
      simp only [bytesOf_put, reduceCtorEq, false_or, Option.some.injEq]
      constructor
      · rintro (⟨now, none⟩ | ⟨count, -, rfl, now, -⟩)
        · rw [none, Nat.add_zero, Nat.mod_eq_of_lt (by omega), Nat.max_eq_left inside] at now
          exact ⟨same.mp now, .inl none⟩
        · rw [now, List.length_append, List.length_take] at width
          have less := Nat.mod_le (offset + storable service volume num offset data) (2 ^ 32)
          have front := congrArg (List.take (bytesOf volume num).length) now
          rw [List.take_take, Nat.min_eq_left (Nat.le_max_left _ _), List.take_left] at front
          refine ⟨same.mp front, ?_⟩
          by_cases none : storable service volume num offset data = 0
          · exact .inl none
          · exact .inr (by omega)
      · rintro ⟨spares, none | ⟨rfl, below⟩⟩
        · rw [none, Nat.add_zero, Nat.mod_eq_of_lt (by omega), Nat.max_eq_left inside]
          exact .inl ⟨same.mpr spares, rfl⟩
        · refine .inr ⟨_, most, rfl, ?_, fun more => ?_⟩
          · rw [Nat.mod_eq_of_lt below, Nat.max_eq_right (Nat.le_add_right _ _)]
            exact take_grown laid spares below
          · have stop := stops more
            rwa [Nat.mod_eq_of_lt below] at stop
    | behind =>
      simp only [bytesOf_put, and_true, reduceCtorEq, false_and, and_false, exists_false,
        or_false]
      constructor
      · intro now
        rw [now] at width
        have ends : (offset + storable service volume num offset data) % 2 ^ 32 ≤
            (bytesOf volume num).length := by
          by_contra far
          have last := covers (storable service volume num offset data - 1) (by omega)
          omega
        rw [Nat.max_eq_left ends] at now
        exact ⟨same.mp now, ends⟩
      · rintro ⟨spares, ends⟩
        rw [Nat.max_eq_left ends]
        exact same.mpr spares
    | lost linked =>
      simp only [bytesOf_put, and_true, reduceCtorEq, false_and, and_false, exists_false,
        or_false]
      exact relinked_eq_iff laid

end Store

section Request
variable {service : Service} {volume : Volume} {uid num : Nat} {space : Space}
variable {raw data name : List UInt8} {found : Found}

theorem writeThrough_existing (store : Volume → Nat → Volume × Option Nat) (mayCreate : Bool)
    (named : ext2LookupEntry volume name = some found) (file : isDir found.mode = false) :
    ext2WriteThrough store mayCreate volume name uid space =
      ext2WriteEntry store volume.dropCache found true uid := by
  rw [← lookupEntry_dropCache] at named
  unfold ext2LookupEntry ext2Lookup at named
  unfold ext2WriteThrough
  split at named
  · cases named
  · next leaf =>
      obtain ⟨dir, resolved, located⟩ := Option.bind_eq_some_iff.mp named
      simp [resolved, leaf, located, file]

section
variable (named : ext2LookupEntry volume name = some found)
include named

theorem found_read : ext2ReadInode volume found.inode = some (volume.inodes found.inode) := by
  obtain ⟨dir, -, located⟩ := ext2LookupEntry_spec named
  simp only [ext2FindInDir, Option.bind_eq_bind, Option.bind_eq_some_iff, Option.pure_def]
    at located
  obtain ⟨_, _, _, _, _, _, matched, read, same⟩ := located
  simp only [Option.some.injEq] at same
  subst same
  obtain ⟨-, rfl⟩ := ext2ReadInode_eq read
  exact read

theorem stat_found (file : isDir found.mode = false) :
    ext2Stat volume name = some ((volume.inodes found.inode).content.length, false) := by
  have read := found_read named
  unfold ext2LookupEntry at named
  split at named
  · cases named
  · next leaf =>
      have path : name ≠ [] := by
        rintro rfl
        exact leaf rfl
      simp [ext2Stat, path, named, file, read]

theorem startOf_found (file : isDir found.mode = false)
    (end_ : EndFound service (volume.inodes found.inode) uid) :
    startOf service volume name uid = (volume.inodes found.inode).content.length := by
  unfold startOf appendOffset ext2MayRead
  rw [stat_found named file, named, Option.bind_some, found_read named]
  rcases end_ with empty | ⟨stat, check | allowed⟩
  · simp [empty]
  · simp [stat, check]
  · simp [stat, allowed]

theorem startOf_lost (lost : ¬ EndFound service (volume.inodes found.inode) uid) :
    startOf service volume name uid = 0 := by
  simp only [EndFound, not_or, not_and, Bool.not_eq_true] at lost
  unfold startOf appendOffset ext2MayRead
  rw [named, Option.bind_some, found_read named]
  cases stat : service.statFails with
  | true => rfl
  | false =>
    obtain ⟨check, denied⟩ := lost.2 stat
    have other : uid ≠ 0 := by
      rintro rfl
      cases denied
    simp [check, denied, other]

end

theorem fsAppend_refused (service : Service) (space : Space) (data : List UInt8)
    (named : ext2LookupEntry volume (fsFilename raw) = some found)
    (file : isDir found.mode = false) (refused : Refused service volume uid (fsFilename raw) found) :
    (fsAppend service volume uid space raw data).2 = none ∧
      (fsAppend service volume uid space raw data).1.inodes = volume.inodes := by
  unfold fsAppend
  dsimp only
  split
  · exact ⟨rfl, rfl⟩
  · next plain =>
      rcases refused.resolve_left plain with failed | ⟨searched, denied⟩
      · rw [failed]
        exact ⟨rfl, rfl⟩
      · rw [searched]
        dsimp only
        rw [writeThrough_existing _ _ named file, ext2WriteEntry]
        split
        · exact ⟨rfl, rfl⟩
        · next unprotected =>
            have read := found_read named
            change ext2ReadInode volume.dropCache found.inode = _ at read
            simp [read, denied.resolve_left unprotected]

theorem fsAppend_stores (named : ext2LookupEntry volume (fsFilename raw) = some found)
    (file : isDir found.mode = false) (searched : service.search = .found)
    (accepted : ¬ Refused service volume uid (fsFilename raw) found) :
    fsAppend service volume uid space raw data =
      storeAt service (data.take (fsMsgMax - 108)) (startOf service volume (fsFilename raw) uid)
        volume.dropCache found.inode := by
  simp only [Refused, searched, reduceCtorEq, true_and, false_or, not_or, Bool.not_eq_true]
    at accepted
  obtain ⟨plain, unprotected, allowed⟩ := accepted
  have read := found_read named
  change ext2ReadInode volume.dropCache found.inode = _ at read
  have free : fsIsProtectedEntry volume.dropCache found.pos = false := unprotected
  rw [fsAppend, if_neg (by simp [plain]), searched]
  dsimp only
  rw [writeThrough_existing _ _ named file, ext2WriteEntry]
  simp [read, free, allowed]

/-- A store into another file leaves this one alone. -/
theorem storeAt_apart {other : Nat} (apart : other ≠ num) (offset : Nat) :
    bytesOf (storeAt service data offset volume other).1 num = bytesOf volume num := by
  have put : ∀ bytes, bytesOf (volume.alter other fun inode => { inode with content := bytes }) num =
      bytesOf volume num := by
    intro bytes
    rw [bytesOf, Volume.alter_inodes_of_ne _ apart.symm, bytesOf]
  unfold storeAt
  dsimp only
  split
  · rfl
  · split
    · rfl
    · cases service.closing with
      | saved => exact put _
      | behind => exact put _
      | lost linked => exact put _

theorem storeAt_front_reply (mounted : Mounted volume.blockSize) (short : data.length < 65536) :
    (storeAt service data 0 volume num).2 = none ∨
        (storeAt service data 0 volume num).2 = some 0 ↔
      service.closing ≠ .saved ∨ storable service volume num 0 data = 0 := by
  have laid := @storeBlocks_overlaid volume.blockSize (fates service volume num) 0
    (data.length + 1) data (bytesOf volume num) mounted (Nat.lt_succ_self _) short (Nat.zero_le _)
    fun _ => by decide
  have written := congrArg List.length laid.rest
  rw [List.length_drop] at written
  change _ = data.length - storable service volume num 0 data at written
  have most := @storable_le service volume num data 0
  unfold storeAt
  rw [if_neg (Nat.not_lt_zero _), if_neg (by rw [maxOffset_eq mounted]; decide)]
  dsimp only
  rw [written, Nat.sub_sub_self most]
  cases service.closing with
  | saved => simp
  | behind => simp
  | lost linked => simp

theorem storeAt_other {other : Nat} (apart : other ≠ num) (mounted : Mounted volume.blockSize)
    (short : data.length < 65536) :
    Appended service volume num data (storeAt service data 0 volume other) ↔
      service.closing ≠ .saved ∨ storable service volume other 0 data = 0 := by
  rw [← storeAt_front_reply mounted short]
  unfold Appended
  simp only [storeAt_apart apart, true_and, or_iff_left_iff_imp]
  rintro ⟨count, most, reply, now, -⟩
  have width := congrArg List.length now
  rw [List.length_append, List.length_take] at width
  have none : count = 0 := by omega
  rw [reply, none]
  exact .inr rfl

theorem startOf_zero_iff (named : ext2LookupEntry volume name = some found)
    (file : isDir found.mode = false) :
    startOf service volume name uid = 0 ↔
      ¬ (EndFound service (volume.inodes found.inode) uid ∧
        (bytesOf volume found.inode).length ≠ 0) := by
  by_cases ended : EndFound service (volume.inodes found.inode) uid
  · rw [startOf_found named file ended]
    simp [ended, bytesOf]
  · rw [startOf_lost named ended]
    simp [ended]

/-- A write whose search misses the file. -/
theorem missed_iff {made : Option Nat} (named : ext2LookupEntry volume (fsFilename raw) = some found)
    (file : isDir found.mode = false) (mounted : Mounted volume.blockSize)
    (short : (data.take (fsMsgMax - 108)).length < 65536) (searched : service.search = .missed made)
    (plain : ¬ fsIsProtectedName (fsFilename raw) = true) :
    Appended service volume found.inode (data.take (fsMsgMax - 108))
        (fsAppend service volume uid space raw data) ↔
      EndFound service (volume.inodes found.inode) uid ∧
          (bytesOf volume found.inode).length ≠ 0 ∨
        ∀ other ∈ made,
          if other = found.inode then
            InPlace service volume found.inode 0 (data.take (fsMsgMax - 108))
          else service.closing ≠ .saved ∨
            storable service volume other 0 (data.take (fsMsgMax - 108)) = 0 := by
  have front := @startOf_zero_iff service volume uid _ found named file
  unfold fsAppend
  simp only [plain, searched]
  by_cases start : startOf service volume (fsFilename raw) uid = 0
  · rw [if_pos start, start, or_iff_right (front.mp start)]
    cases made with
    | none => exact iff_of_true (.inl ⟨rfl, .inl rfl⟩) (by simp)
    | some other =>
      simp only [Option.map_some, Option.getD_some, Option.mem_def, Option.some.injEq, forall_eq']
      by_cases same : other = found.inode
      · rw [if_pos same, same]
        exact @storeAt_iff service volume.dropCache found.inode _ _ mounted short (Nat.zero_le _)
      · rw [if_neg same]
        exact @storeAt_other service volume.dropCache found.inode _ other same mounted short
  · rw [if_neg start]
    exact iff_of_true (.inl ⟨rfl, .inl rfl⟩) (.inl (not_not.mp (mt front.mpr start)))

/-- An append fails and leaves the file alone or adds to its end exactly when it is refused, or
is harmless where the server has it written. -/
theorem append_keeps_bytes_iff (service : Service) (volume : Volume) (uid : Nat) (space : Space)
    (raw data : List UInt8) (found : Found) (mounted : Mounted volume.blockSize)
    (named : ext2LookupEntry volume (fsFilename raw) = some found)
    (file : isDir found.mode = false) :
    Appended service volume found.inode (data.take (fsMsgMax - 108))
        (fsAppend service volume uid space raw data) ↔
      Refused service volume uid (fsFilename raw) found ∨
        Harmless service volume uid found.inode (data.take (fsMsgMax - 108)) := by
  have short : (data.take (fsMsgMax - 108)).length < 65536 := by
    rw [List.length_take]
    exact Nat.lt_of_le_of_lt (Nat.min_le_left _ _) (by decide)
  by_cases refused : Refused service volume uid (fsFilename raw) found
  · obtain ⟨none, same⟩ := fsAppend_refused service space data named file refused
    refine iff_of_true (.inl ⟨?_, .inl none⟩) (.inl refused)
    rw [bytesOf, same, bytesOf]
  · rw [or_iff_right refused]
    unfold Harmless
    dsimp only
    cases searched : service.search with
    | failed => exact absurd (.inr (.inl searched)) refused
    | found =>
      rw [fsAppend_stores named file searched refused]
      by_cases ended : EndFound service (volume.inodes found.inode) uid
      · rw [startOf_found named file ended]
        simp only [ended, true_and, not_true_eq_false, false_and, or_false]
        exact @storeAt_iff service volume.dropCache found.inode _ _ mounted short (Nat.le_refl _)
      · rw [startOf_lost named ended]
        simp only [ended, false_and, not_false_eq_true, true_and, false_or]
        exact @storeAt_iff service volume.dropCache found.inode _ _ mounted short (Nat.zero_le _)
    | missed made =>
      exact missed_iff named file mounted short searched (fun protects => refused (.inl protects))

def sound : Service := ⟨false, false, .found, fun _ => .stored, .saved⟩

/-- The write of a block ends in its second sector. -/
def tearing : Service := { sound with block := fun _ => .torn (· = 0) fun _ => none }

/-- The inode cannot be written. -/
def closeless : Service := { sound with closing := .lost fun _ => true }

/-- A file `k` of one byte that its owner may write but not read. -/
def dropBox : Volume :=
  Volume.private.alter 11 fun inode => { inode with mode := 0x8080, uid := 1000 }

theorem dropBox_overwritten {service : Service} {outcome : Volume × Option Nat}
    (now : bytesOf outcome.1 11 = [121]) : ¬ Appended service dropBox 11 [121] outcome := by
  have old : bytesOf dropBox 11 = [120] := by decide
  rintro (⟨same, -⟩ | ⟨count, -, -, content, -⟩)
  · rw [now, old] at same
    revert same
    decide
  · rw [now, old] at content
    revert content
    simp

/-- Of an append to `k` by root and of two by its owner, who cannot read it: the block of the
second is torn, and after the third its inode is not written. -/
theorem append_keeps_bytes_reader :
    Appended sound .private 11 [121] (fsAppend sound .private 0 grant [107] [121]) ∧
      ¬ Appended tearing dropBox 11 [121] (fsAppend tearing dropBox 1000 grant [107] [121]) ∧
      ¬ Appended closeless dropBox 11 [121] (fsAppend closeless dropBox 1000 grant [107] [121]) := by
  have behind : Spares sound .private 11 1 [121] fun _ => true := by
    intro place inside new lands _
    have front : place = 0 := Nat.lt_one_iff.mp inside
    subst front
    rcases (Lands.cons rfl).mp lands with ⟨impossible, -⟩ | none
    · cases impossible
    · exact none.elim
  refine ⟨(append_keeps_bytes_iff sound .private 0 grant [107] [121] ⟨11, ⟨2, 0, 24⟩, 0x8180⟩
      (by decide) (by decide) rfl).mpr (.inr (.inl ⟨.inr ⟨rfl, .inr rfl⟩,
        .inr ⟨behind, .inr (by decide)⟩⟩)), ?_, ?_⟩
  · exact dropBox_overwritten (by decide)
  · exact dropBox_overwritten (by decide)

/-- The server cannot stat the file for its owner and writes over its first byte. -/
theorem unreadable_append_overwrites :
    ext2WriteAllowed (dropBox.inodes 11) 1000 = true ∧ bytesOf dropBox 11 = [120] ∧
      (fsAppend sound dropBox 1000 grant [107] [121]).2 = some 1 ∧
      bytesOf (fsAppend sound dropBox 1000 grant [107] [121]).1 11 = [121] ∧
      ¬ Appended sound dropBox 11 [121] (fsAppend sound dropBox 1000 grant [107] [121]) := by
  have now : bytesOf (fsAppend sound dropBox 1000 grant [107] [121]).1 11 = [121] := by
    decide
  exact ⟨by decide, by decide, by decide, now, dropBox_overwritten now⟩

end Request

end Racccoon.Ext2.Append
