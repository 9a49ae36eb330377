import Mathlib.Data.BitVec
import Mathlib.Data.List.Range
import Mathlib.Data.List.TakeWhile
import Racccoon.Lib.Copies
import Racccoon.Lib.Run

/-!
fsd's sector cache over the storage driver: `fs_read_sector`, `fs_read_sectors` and
`fs_write_sector`. Sectors are partition relative, the disk is addressed from its
start. What the driver does with the n-th operation is the input `driver`.
-/

namespace Racccoon.SectorCache
open Function (update update_self update_of_ne)

open Run Copies

abbrev Sector := BitVec 32

variable {Block : Type}

def fsCacheWays : Nat := 4
def fsCacheSets : Nat := 4096
def diskdMaxSectors : Nat := 15

/-- A tag is `sector + 1`, or 0 for an empty way. -/
structure Cache (Block : Type) where
  tag : Nat → Sector
  rr : Nat → BitVec 8
  data : Nat → Block

/-- The fate of one driver operation; `lost` is a write that reached the disk while
its reply did not come back. -/
inductive Reply where
  | ok
  | failed
  | lost
  | wrongVerb
  deriving DecidableEq

structure ReservedRange where
  start : Sector
  count : Sector

/-- `cache` is `none` where `fs_cache_init` got no memory. -/
structure Fsd (Block : Type) where
  cache : Option (Cache Block)
  disk : Sector → Block
  partitionStart : Sector
  writeDisabled : Bool
  reserved : List ReservedRange
  multiOk : Bool
  opDiskd : Nat

def cacheSet (sector : Sector) : Nat := sector.toNat % fsCacheSets

def cacheBase (sector : Sector) : Nat := cacheSet sector * fsCacheWays

def fsCacheSlotOf (cache : Option (Cache Block)) (sector : Sector) : Option Nat :=
  cache.bind fun cache =>
    ((List.range fsCacheWays).find? fun way =>
      cache.tag (cacheBase sector + way) = sector + 1).map (cacheBase sector + ·)

variable (cache : Cache Block) (sector : Sector)

/-- The way `fs_cache_put` reuses, if it need not evict: the first one that holds the
sector or is empty. -/
def reusableWay : Option Nat :=
  (List.range fsCacheWays).find? fun way =>
    cache.tag (cacheBase sector + way) = sector + 1 ∨ cache.tag (cacheBase sector + way) = 0

def putSlot : Nat :=
  cacheBase sector + (reusableWay cache sector).getD
    ((cache.rr (cacheSet sector)).toNat % fsCacheWays)

def fsCachePut (src : Block) : Cache Block :=
  { tag := Function.update cache.tag (putSlot cache sector) (sector + 1)
    rr := if (reusableWay cache sector).isSome then cache.rr
      else Function.update cache.rr (cacheSet sector)
        (BitVec.ofNat 8 ((cache.rr (cacheSet sector)).toNat % fsCacheWays + 1))
    data := Function.update cache.data (putSlot cache sector) src }

def fsCacheDrop : Cache Block :=
  match fsCacheSlotOf (some cache) sector with
  | some slot => { cache with tag := Function.update cache.tag slot 0 }
  | none => cache

def fsSectorIsReserved (ranges : List ReservedRange) (sector : Sector) : Bool :=
  ranges.any fun range => range.start ≤ sector ∧ sector < range.start + range.count

variable (driver : Nat → Reply)
variable (fsd : Fsd Block) (sector : Sector)

/-- A read through `diskd_rw`. -/
def diskdRead : Fsd Block × Option Block :=
  ({ fsd with opDiskd := fsd.opDiskd + 1 },
    if driver fsd.opDiskd = .ok then some (fsd.disk sector) else none)

def writeRefused : Bool :=
  fsd.writeDisabled || fsSectorIsReserved fsd.reserved (sector - fsd.partitionStart)

/-- A write through `diskd_rw`, which is where protected sectors are refused. -/
def diskdWrite (buf : Block) : Fsd Block × Bool :=
  if writeRefused fsd sector then (fsd, false)
  else
    let reply := driver fsd.opDiskd
    ({ fsd with
        opDiskd := fsd.opDiskd + 1
        disk := if reply = .ok ∨ reply = .lost then Function.update fsd.disk sector buf
          else fsd.disk },
      reply = .ok)

def fsReadSector : Fsd Block × Option Block :=
  match fsd.cache, fsCacheSlotOf fsd.cache sector with
  | some cache, some slot => (fsd, some (cache.data slot))
  | _, _ =>
    match diskdRead driver fsd (fsd.partitionStart + sector) with
    | (asked, some buf) =>
      ({ asked with cache := asked.cache.map fun cache => fsCachePut cache sector buf },
        some buf)
    | (asked, none) => (asked, none)

/-- `diskd_read_multi`, from an absolute sector on. -/
def diskdReadMulti (count : Nat) : Fsd Block × Option (List Block) :=
  let asked := { fsd with opDiskd := fsd.opDiskd + 1 }
  match driver fsd.opDiskd with
  | .ok => (asked, some ((List.range count).map fun k => fsd.disk (sector + BitVec.ofNat 32 k)))
  | .wrongVerb => ({ asked with multiOk := false }, none)
  | _ => (asked, none)

/-- The per-sector fallback of `fs_read_sectors`. -/
def readEach (fsd : Fsd Block) (sector : Sector) : Nat → Fsd Block × Option (List Block)
  | 0 => (fsd, some [])
  | count + 1 =>
    match fsReadSector driver fsd sector with
    | (read, some buf) =>
      let rest := readEach read (sector + 1) count
      (rest.1, rest.2.map (buf :: ·))
    | (read, none) => (read, none)

def putAll (cache : Cache Block) (sector : Sector) : List Block → Cache Block
  | [] => cache
  | buf :: rest => putAll (fsCachePut cache sector buf) (sector + 1) rest

/-- How many sectors after `sector` the batch takes in: those not cached, up to the
driver's limit. -/
def extraRun (cache : Option (Cache Block)) (sector : Sector) (more : Nat) : Nat :=
  ((List.range (min more (diskdMaxSectors - 1))).takeWhile fun k =>
    (fsCacheSlotOf cache (sector + 1 + BitVec.ofNat 32 k)).isNone).length

/-- One batch of `fs_read_sectors`. -/
def readRun (run : Nat) : Fsd Block × Option (List Block) :=
  if fsd.multiOk ∧ 1 < run then
    match diskdReadMulti driver fsd (fsd.partitionStart + sector) run with
    | (asked, some bufs) =>
      ({ asked with cache := asked.cache.map fun cache => putAll cache sector bufs }, some bufs)
    | (asked, none) => readEach driver asked sector run
  else readEach driver fsd sector run

theorem extraRun_le (cache : Option (Cache Block)) (sector : Sector) (more : Nat) :
    extraRun cache sector more ≤ more := by
  refine (List.Sublist.length_le (List.takeWhile_sublist _)).trans ?_
  simp

/-- `fs_read_sectors` with so many sectors still to go. -/
def fsReadSectors (fsd : Fsd Block) (sector : Sector) : Nat → Fsd Block × Option (List Block)
  | 0 => (fsd, some [])
  | more + 1 =>
    match fsd.cache, fsCacheSlotOf fsd.cache sector with
    | some cache, some slot =>
      let rest := fsReadSectors fsd (sector + 1) more
      (rest.1, rest.2.map (cache.data slot :: ·))
    | _, _ =>
      let extra := extraRun fsd.cache sector more
      match readRun driver fsd sector (extra + 1) with
      | (read, some bufs) =>
        let rest := fsReadSectors read (sector + BitVec.ofNat 32 (extra + 1)) (more - extra)
        (rest.1, rest.2.map (bufs ++ ·))
      | (read, none) => (read, none)
  termination_by count => count
  decreasing_by all_goals omega

def fsWriteSector (buf : Block) : Fsd Block × Bool :=
  let written := diskdWrite driver fsd (fsd.partitionStart + sector) buf
  ({ written.1 with
      cache := written.1.cache.map fun cache =>
        if written.2 then fsCachePut cache sector buf else fsCacheDrop cache sector },
    written.2)

inductive Call (Block : Type) where
  | readSector (sector : Sector)
  | readSectors (start count : Sector)
  | writeSector (sector : Sector) (buf : Block)

/-- A call and what it gives the caller: the blocks read, `none` where it fails. -/
def perform : Call Block → Fsd Block × Option (List Block)
  | .readSector sector =>
    let done := fsReadSector driver fsd sector
    (done.1, done.2.map ([·]))
  | .readSectors start count => fsReadSectors driver fsd start count.toNat
  | .writeSector sector buf =>
    let done := fsWriteSector driver fsd sector buf
    (done.1, if done.2 then some [] else none)

def step (call : Call Block) : Option (Fsd Block) :=
  some (perform driver fsd call).1

def volume : Block :=
  fsd.disk (fsd.partitionStart + sector)

def lastSector : Sector := 0xFFFFFFFF

def copies (cache : Cache Block) (slot : Nat) : Option (Sector × Block) :=
  if cache.tag slot = 0 then none else some (cache.tag slot - 1, cache.data slot)

structure Coherent (cache : Cache Block) (memory : Sector → Block) : Prop where
  home : ∀ slot, cache.tag slot ≠ 0 → slot / fsCacheWays = cacheSet (cache.tag slot - 1)
  faithful : Faithful (copies cache) memory

variable {driver}
variable {cache : Cache Block} {memory : Sector → Block} {sector other : Sector} {slot : Nat}

theorem tag_ne_zero (sector : Sector) : sector + 1 ≠ 0 ↔ sector ≠ lastSector := by
  unfold lastSector
  bv_omega

theorem slot_div {way : Nat} (inside : way < fsCacheWays) :
    (cacheBase sector + way) / fsCacheWays = cacheSet sector := by
  unfold cacheBase
  unfold fsCacheWays at *
  omega

theorem slotOf_some (found : fsCacheSlotOf (some cache) sector = some slot) :
    slot / fsCacheWays = cacheSet sector ∧ cache.tag slot = sector + 1 := by
  simp only [fsCacheSlotOf, Option.bind_some, Option.map_eq_some_iff] at found
  obtain ⟨way, first, rfl⟩ := found
  have inside := List.mem_range.mp (List.mem_of_find?_eq_some first)
  exact ⟨slot_div inside, by simpa using List.find?_some first⟩

theorem slotOf_none_iff : fsCacheSlotOf (some cache) sector = none ↔
    ∀ way < fsCacheWays, cache.tag (cacheBase sector + way) ≠ sector + 1 := by
  simp [fsCacheSlotOf]

theorem copies_of_tag (nonempty : sector ≠ lastSector) (tagged : cache.tag slot = sector + 1) :
    copies cache slot = some (sector, cache.data slot) := by
  have used := (tag_ne_zero sector).mpr nonempty
  have named : sector + 1 - 1 = sector := by bv_omega
  rw [copies, tagged, if_neg used, named]

theorem tag_of_copies {value : Block} (copied : copies cache slot = some (sector, value)) :
    sector ≠ lastSector ∧ cache.tag slot = sector + 1 ∧ cache.data slot = value := by
  unfold copies at copied
  split at copied
  · cases copied
  · next used =>
      simp only [Option.some.injEq, Prod.mk.injEq] at copied
      obtain ⟨named, rfl⟩ := copied
      have tagged : cache.tag slot = sector + 1 := by
        bv_omega
      refine ⟨?_, tagged, rfl⟩
      rw [tagged] at used
      exact (tag_ne_zero sector).mp used

theorem Coherent.hit (coherent : Coherent cache memory) (nonempty : sector ≠ lastSector)
    (found : fsCacheSlotOf (some cache) sector = some slot) :
    cache.data slot = memory sector ∧ OnlyAt (copies cache) sector slot := by
  have copied := copies_of_tag nonempty (slotOf_some found).2
  refine ⟨coherent.faithful.fresh _ _ _ copied, ?_⟩
  intro elsewhere value held
  exact coherent.faithful.single _ _ _ _ _ held copied

theorem Coherent.miss (coherent : Coherent cache memory)
    (absent : fsCacheSlotOf (some cache) sector = none) (slot : Nat) :
    OnlyAt (copies cache) sector slot := by
  intro elsewhere value held
  obtain ⟨nonempty, tagged, -⟩ := tag_of_copies held
  have used := (tag_ne_zero sector).mpr nonempty
  have placed := coherent.home elsewhere (by rwa [tagged])
  have named : sector + 1 - 1 = sector := by bv_omega
  rw [tagged, named] at placed
  have position : elsewhere = cacheBase sector + elsewhere % fsCacheWays := by
    unfold cacheBase
    rw [← placed]
    unfold fsCacheWays
    omega
  refine absurd tagged ?_
  rw [position]
  exact slotOf_none_iff.mp absent _ (Nat.mod_lt _ (by decide))

theorem putSlot_div (cache : Cache Block) (sector : Sector) :
    putSlot cache sector / fsCacheWays = cacheSet sector := by
  refine slot_div ?_
  cases reuse : reusableWay cache sector with
  | none => exact Nat.mod_lt _ (by decide)
  | some way => exact List.mem_range.mp (List.mem_of_find?_eq_some reuse)

theorem copies_put (cache : Cache Block) (sector : Sector) (src : Block) :
    copies (fsCachePut cache sector src) = update (copies cache) (putSlot cache sector)
      (if sector = lastSector then none else some (sector, src)) := by
  funext slot
  by_cases here : slot = putSlot cache sector
  · subst here
    have named : sector + 1 - 1 = sector := by bv_omega
    simp only [copies, fsCachePut, update_self, named]
    by_cases last : sector = lastSector
    · rw [if_pos last, if_pos]
      exact not_not.mp fun used => (tag_ne_zero sector).mp used last
    · rw [if_neg last, if_neg]
      exact (tag_ne_zero sector).mpr last
  · simp [copies, fsCachePut, here]

section
variable (coherent : Coherent cache memory)
include coherent

theorem home_put (sector : Sector) (src : Block) (slot : Nat)
    (used : (fsCachePut cache sector src).tag slot ≠ 0) :
    slot / fsCacheWays = cacheSet ((fsCachePut cache sector src).tag slot - 1) := by
  by_cases here : slot = putSlot cache sector
  · subst here
    simpa [fsCachePut] using putSlot_div cache sector
  · simp only [fsCachePut, update_of_ne here] at used ⊢
    exact coherent.home slot used

theorem Coherent.put (src : Block)
    (only : sector ≠ lastSector → OnlyAt (copies cache) sector (putSlot cache sector)) :
    Coherent (fsCachePut cache sector src) (update memory sector src) := by
  refine ⟨home_put coherent sector src, ?_⟩
  rw [copies_put]
  by_cases last : sector = lastSector
  · rw [if_pos last]
    refine coherent.faithful.invalidate ?_ src
    intro slot value held
    exact absurd last (tag_of_copies held).1
  · rw [if_neg last]
    exact coherent.faithful.store (only last) src

theorem Coherent.fill (absent : fsCacheSlotOf (some cache) sector = none) :
    Coherent (fsCachePut cache sector (memory sector)) memory := by
  simpa using coherent.put (memory sector) fun _ => coherent.miss absent _

theorem Coherent.drop (sector : Sector) (value : Block) :
    Coherent (fsCacheDrop cache sector) memory ∧
      Coherent (fsCacheDrop cache sector) (update memory sector value) := by
  unfold fsCacheDrop
  split
  · next slot found =>
      have cleared : copies { cache with tag := update cache.tag slot 0 } =
          update (copies cache) slot none := by
        funext place
        by_cases here : place = slot
        · simp [copies, here]
        · simp [copies, here]
      have home : ∀ place, update cache.tag slot 0 place ≠ 0 →
          place / fsCacheWays = cacheSet (update cache.tag slot 0 place - 1) := by
        intro place used
        by_cases here : place = slot
        · simp [here] at used
        · rw [update_of_ne here] at used ⊢
          exact coherent.home place used
      refine ⟨⟨home, ?_⟩, ⟨home, ?_⟩⟩
      · rw [cleared]
        exact coherent.faithful.forget slot
      · rw [cleared]
        refine coherent.faithful.invalidate ?_ value
        by_cases last : sector = lastSector
        · intro place held copied
          exact absurd last (tag_of_copies copied).1
        · exact (coherent.hit last found).2
  · next absent =>
      refine ⟨coherent, coherent.home, ?_⟩
      constructor
      · intro slot name copy copied
        have different : name ≠ sector := by
          intro same
          subst same
          have here := coherent.miss absent (slot + 1) slot copy copied
          omega
        rw [update_of_ne different]
        exact coherent.faithful.fresh slot name copy copied
      · exact coherent.faithful.single

end

theorem slotOf_put (different : sector ≠ other) (src : Block)
    (absent : fsCacheSlotOf (some cache) other = none) :
    fsCacheSlotOf (some (fsCachePut cache sector src)) other = none := by
  rw [slotOf_none_iff] at absent ⊢
  intro way inside
  by_cases here : cacheBase other + way = putSlot cache sector
  · simpa [fsCachePut, here] using different
  · simpa [fsCachePut, here] using absent way inside

def Sound (fsd : Fsd Block) : Prop :=
  ∀ cache ∈ fsd.cache, Coherent cache (volume fsd)

/-- The `k`-th sector from `sector` on. -/
abbrev after (sector : Sector) (k : Nat) : Sector := sector + BitVec.ofNat 32 k

/-- A state in which `count` sectors can be read: the lookup of the last sector of all
must not be answered by an empty way. -/
structure Ready (fsd : Fsd Block) (sector : Sector) (count : Nat) : Prop where
  sound : Sound fsd
  last : ∀ k < count, after sector k = lastSector → fsCacheSlotOf fsd.cache lastSector = none

/-- What reading `count` sectors does, whether or not it succeeds. -/
structure Serves (fsd done : Fsd Block) (sector : Sector) (count : Nat)
    (answer : Option (List Block)) : Prop where
  volume : volume done = volume fsd
  sound : Sound done
  answered : ∀ bufs ∈ answer,
    bufs = (List.range count).map fun k => SectorCache.volume fsd (after sector k)
  absent : ∀ other, fsCacheSlotOf fsd.cache other = none →
    (∀ k < count, after sector k ≠ other) → fsCacheSlotOf done.cache other = none

variable {fsd middle done : Fsd Block} {count more : Nat}

theorem after_one (sector : Sector) : after sector 1 = sector + 1 := rfl

theorem after_after (sector : Sector) (first second : Nat) :
    after (after sector first) second = after sector (first + second) := by
  unfold after
  rw [BitVec.add_assoc, BitVec.ofNat_add]

theorem after_inj {first second : Nat} (low : first < 2 ^ 32) (high : second < 2 ^ 32)
    (same : after sector first = after sector second) : first = second := by
  have shifts := (BitVec.add_right_inj sector).mp same
  simpa only [BitVec.toNat_eq, BitVec.toNat_ofNat, Nat.mod_eq_of_lt low, Nat.mod_eq_of_lt high]
    using shifts

theorem Ready.first (ready : Ready fsd sector (count + more)) : Ready fsd sector count :=
  ⟨ready.sound, fun k inside => ready.last k (by omega)⟩

theorem Ready.rest (ready : Ready fsd sector (count + more)) (size : count + more ≤ 2 ^ 32)
    {answer : Option (List Block)} (served : Serves fsd middle sector count answer) :
    Ready middle (after sector count) more := by
  refine ⟨served.sound, ?_⟩
  intro k inside reached
  rw [after_after] at reached
  refine served.absent lastSector (ready.last (count + k) (by omega) reached) ?_
  intro j before same
  rw [← reached] at same
  have := after_inj (by omega) (by omega) same
  omega

variable {answer : Option (List Block)}

theorem Serves.widen (served : Serves fsd done sector count none) (wide : count ≤ more) :
    Serves fsd done sector more none := by
  refine ⟨served.volume, served.sound, by simp, ?_⟩
  intro other absent outside
  exact served.absent other absent fun k inside => outside k (by omega)

theorem Serves.append {bufs : List Block} (first : Serves fsd middle sector count (some bufs))
    (rest : Serves middle done (after sector count) more answer) :
    Serves fsd done sector (count + more) (answer.map (bufs ++ ·)) := by
  refine ⟨rest.volume.trans first.volume, rest.sound, ?_, ?_⟩
  · intro all given
    simp only [Option.mem_def, Option.map_eq_some_iff] at given
    obtain ⟨tail, given, rfl⟩ := given
    rw [first.answered bufs rfl, rest.answered tail given, List.range_add, List.map_append,
      List.map_map, first.volume]
    refine congrArg _ (List.map_congr_left fun k _ => ?_)
    rw [after_after]
    rfl
  · intro other absent outside
    refine rest.absent other (first.absent other absent ?_) ?_
    · intro k inside
      exact outside k (by omega)
    · intro k inside
      rw [after_after]
      exact outside (count + k) (by omega)

theorem Serves.refl (sound : Sound fsd) (sector : Sector) : Serves fsd fsd sector 0 (some []) :=
  ⟨rfl, sound, by simp, fun _ absent _ => absent⟩

/-- `asked` differs from `fsd` in what the driver has been asked only. -/
structure Asked (fsd asked : Fsd Block) : Prop where
  cache : asked.cache = fsd.cache
  volume : volume asked = volume fsd

variable {asked : Fsd Block}

theorem Asked.sound (same : Asked fsd asked) (sound : Sound fsd) : Sound asked := by
  intro held mapped
  rw [same.volume]
  exact sound held (same.cache ▸ mapped)

theorem Asked.ready (same : Asked fsd asked) (ready : Ready fsd sector count) :
    Ready asked sector count :=
  ⟨same.sound ready.sound, same.cache ▸ ready.last⟩

theorem Asked.serves (same : Asked fsd asked) (sound : Sound fsd) (sector : Sector) (count : Nat) :
    Serves fsd asked sector count none := by
  refine ⟨same.volume, same.sound sound, by simp, ?_⟩
  intro other absent _
  rwa [same.cache]

theorem Asked.then (same : Asked fsd asked) (served : Serves asked done sector count answer) :
    Serves fsd done sector count answer :=
  ⟨served.volume.trans same.volume, served.sound, same.volume ▸ served.answered,
    same.cache ▸ served.absent⟩

theorem serves_hit (ready : Ready fsd sector 1) (mapped : fsd.cache = some cache)
    (found : fsCacheSlotOf fsd.cache sector = some slot) :
    Serves fsd fsd sector 1 (some [cache.data slot]) := by
  have nonempty : sector ≠ lastSector := by
    intro last
    have absent := ready.last 0 (by omega) (by simpa [after] using last)
    rw [← last, found] at absent
    cases absent
  rw [mapped] at found
  refine ⟨rfl, ready.sound, ?_, fun _ absent _ => absent⟩
  have held := ((ready.sound cache mapped).hit nonempty found).1
  simp [held]

/-- A sector read from the disk is put in the cache. -/
theorem serves_put (same : Asked fsd asked) (ready : Ready fsd sector 1)
    (absent : fsCacheSlotOf fsd.cache sector = none) :
    Serves fsd
      { asked with cache := asked.cache.map fun cache =>
          fsCachePut cache sector (volume fsd sector) }
      sector 1 (some [volume fsd sector]) := by
  refine ⟨same.volume, ?_, ?_, ?_⟩
  · intro filled mapped
    simp only [Option.mem_def, Option.map_eq_some_iff, same.cache] at mapped
    obtain ⟨old, mapped, rfl⟩ := mapped
    rw [mapped] at absent
    change Coherent _ (volume asked)
    rw [same.volume]
    exact (ready.sound old mapped).fill absent
  · simp [after]
  · intro other missing outside
    have different : sector ≠ other := by simpa [after] using outside 0 (by omega)
    simp only [same.cache]
    cases mapped : fsd.cache with
    | none => rfl
    | some old =>
      rw [mapped] at missing
      exact slotOf_put different _ missing

theorem slotOf_missed
    (missed : ∀ cache slot, fsd.cache = some cache → fsCacheSlotOf fsd.cache sector = some slot →
      False) : fsCacheSlotOf fsd.cache sector = none := by
  cases mapped : fsd.cache with
  | none => rfl
  | some cache =>
    cases found : fsCacheSlotOf (some cache) sector with
    | none => rfl
    | some slot => exact (missed cache slot mapped (mapped ▸ found)).elim

theorem fsReadSector_serves (ready : Ready fsd sector 1) :
    Serves fsd (fsReadSector driver fsd sector).1 sector 1
      ((fsReadSector driver fsd sector).2.map ([·])) := by
  unfold fsReadSector
  split
  · next cache slot mapped found => exact serves_hit ready mapped found
  · next missed =>
      have absent := slotOf_missed missed
      have same : Asked fsd { fsd with opDiskd := fsd.opDiskd + 1 } := ⟨rfl, rfl⟩
      by_cases ok : driver fsd.opDiskd = .ok
      · simp only [diskdRead, ok]
        exact serves_put same ready absent
      · simp only [diskdRead, ok]
        exact same.serves ready.sound sector 1

theorem readEach_serves (count : Nat) (size : count ≤ 2 ^ 32) (ready : Ready fsd sector count) :
    Serves fsd (readEach driver fsd sector count).1 sector count
      (readEach driver fsd sector count).2 := by
  induction count generalizing fsd sector with
  | zero => exact Serves.refl ready.sound sector
  | succ count ih =>
    rw [Nat.add_comm] at ready size ⊢
    have first : Serves fsd (fsReadSector driver fsd sector).1 sector 1 _ :=
      fsReadSector_serves ready.first
    rw [Nat.add_comm, readEach, Nat.add_comm]
    split
    · next read buf got =>
        rw [got] at first
        have rest := ih (by omega) (ready.rest size first)
        exact first.append rest
    · next read got =>
        rw [got] at first
        exact first.widen (by omega)

theorem putAll_fills (count : Nat) (size : count ≤ 2 ^ 32) (coherent : Coherent cache memory)
    (absent : ∀ k < count, fsCacheSlotOf (some cache) (after sector k) = none) :
    let bufs := (List.range count).map fun k => memory (after sector k)
    Coherent (putAll cache sector bufs) memory ∧
      ∀ other, fsCacheSlotOf (some cache) other = none →
        (∀ k < count, after sector k ≠ other) →
        fsCacheSlotOf (some (putAll cache sector bufs)) other = none := by
  induction count generalizing cache sector with
  | zero => exact ⟨coherent, fun _ missing _ => missing⟩
  | succ count ih =>
    have here : after sector 0 = sector := by simp [after]
    have next (k : Nat) : after (sector + 1) k = after sector (k + 1) := by
      rw [Nat.add_comm k, ← after_after]
      rfl
    have filled := coherent.fill (here ▸ absent 0 (by omega))
    have left : ∀ k < count,
        fsCacheSlotOf (some (fsCachePut cache sector (memory sector))) (after (sector + 1) k) =
          none := by
      intro k inside
      rw [next]
      refine slotOf_put ?_ _ (absent (k + 1) (by omega))
      intro same
      have := after_inj (by omega) (by omega) (here.trans same)
      omega
    obtain ⟨coherent, kept⟩ := ih (by omega) filled left
    simp only [List.range_succ_eq_map, List.map_cons, List.map_map, here]
    simp only [next] at coherent kept
    refine ⟨coherent, ?_⟩
    intro other missing outside
    refine kept other (slotOf_put ?_ _ missing) fun k inside => outside (k + 1) (by omega)
    exact here ▸ outside 0 (by omega)

theorem readMulti_serves (same : Asked fsd asked) (sound : Sound fsd) (count : Nat)
    (size : count ≤ 2 ^ 32) (absent : ∀ k < count, fsCacheSlotOf fsd.cache (after sector k) = none) :
    let bufs := (List.range count).map fun k => volume fsd (after sector k)
    Serves fsd { asked with cache := asked.cache.map fun cache => putAll cache sector bufs }
      sector count (some bufs) := by
  refine ⟨same.volume, ?_, ?_, ?_⟩
  · intro filled mapped
    simp only [Option.mem_def, Option.map_eq_some_iff, same.cache] at mapped
    obtain ⟨old, mapped, rfl⟩ := mapped
    rw [mapped] at absent
    change Coherent _ (volume asked)
    rw [same.volume]
    exact (putAll_fills count size (sound old mapped) absent).1
  · rintro read ⟨rfl⟩
    rfl
  · intro other missing outside
    simp only [same.cache]
    cases mapped : fsd.cache with
    | none => rfl
    | some old =>
      rw [mapped] at missing absent
      exact (putAll_fills count size (sound old mapped) absent).2 other missing outside

theorem readRun_serves (count : Nat) (size : count ≤ 2 ^ 32) (ready : Ready fsd sector count)
    (absent : ∀ k < count, fsCacheSlotOf fsd.cache (after sector k) = none) :
    Serves fsd (readRun driver fsd sector count).1 sector count
      (readRun driver fsd sector count).2 := by
  have absolute (k : Nat) : fsd.disk (fsd.partitionStart + sector + BitVec.ofNat 32 k) =
      volume fsd (after sector k) := by
    rw [volume, BitVec.add_assoc]
  have same : Asked fsd { fsd with opDiskd := fsd.opDiskd + 1 } := ⟨rfl, rfl⟩
  unfold readRun
  split
  · unfold diskdReadMulti
    cases reply : driver fsd.opDiskd with
    | ok =>
      simp only [absolute]
      exact readMulti_serves same ready.sound count size absent
    | wrongVerb =>
      have single : Asked fsd { fsd with opDiskd := fsd.opDiskd + 1, multiOk := false } :=
        ⟨rfl, rfl⟩
      exact single.then (readEach_serves count size (single.ready ready))
    | failed | lost => exact same.then (readEach_serves count size (same.ready ready))
  · exact readEach_serves count size ready

theorem extraRun_absent (cache : Option (Cache Block)) (sector : Sector) (more k : Nat)
    (inside : k < extraRun cache sector more) :
    fsCacheSlotOf cache (after (sector + 1) k) = none := by
  unfold extraRun at inside
  have taken := List.mem_takeWhile_imp (List.getElem_mem inside)
  rw [(List.takeWhile_prefix _).getElem] at taken
  simpa using taken

variable (driver) in
/-- The batch that starts at a sector which is not cached. -/
theorem run_serves (size : more + 1 ≤ 2 ^ 32) (ready : Ready fsd sector (more + 1))
    (missed : ∀ cache slot, fsd.cache = some cache → fsCacheSlotOf fsd.cache sector = some slot →
      False) :
    Serves fsd (readRun driver fsd sector (extraRun fsd.cache sector more + 1)).1 sector
      (extraRun fsd.cache sector more + 1)
      (readRun driver fsd sector (extraRun fsd.cache sector more + 1)).2 := by
  have fits := extraRun_le fsd.cache sector more
  have parts : more + 1 = extraRun fsd.cache sector more + 1 +
      (more - extraRun fsd.cache sector more) := by omega
  rw [parts] at ready
  refine readRun_serves _ (by omega) ready.first ?_
  intro k inside
  cases k with
  | zero => simpa [after] using slotOf_missed missed
  | succ k =>
    have apart := extraRun_absent fsd.cache sector more k (by omega)
    rwa [← after_one, after_after, Nat.add_comm] at apart

theorem fsReadSectors_serves (count : Nat) (size : count ≤ 2 ^ 32)
    (ready : Ready fsd sector count) :
    Serves fsd (fsReadSectors driver fsd sector count).1 sector count
      (fsReadSectors driver fsd sector count).2 := by
  fun_induction fsReadSectors driver fsd sector count with
  | case1 fsd sector => exact Serves.refl ready.sound sector
  | case2 fsd sector more cache slot found mapped rest ih =>
    rw [Nat.succ_eq_one_add] at ready size ⊢
    have first := serves_hit ready.first mapped found
    exact first.append (ih (by omega) (ready.rest size first))
  | case3 fsd sector more extra read bufs got rest missed ih =>
    have first := run_serves driver size ready missed
    have parts : more.succ = extra + 1 + (more - extra) := by
      have : extra ≤ more := extraRun_le fsd.cache sector more
      omega
    rw [got] at first
    rw [parts] at ready size ⊢
    exact first.append (ih (by omega) (ready.rest size first))
  | case4 fsd sector more extra read got missed =>
    have first := run_serves driver size ready missed
    have : extra ≤ more := extraRun_le fsd.cache sector more
    rw [got] at first
    exact first.widen (by omega)

/-- A write that succeeds reuses the way that holds the sector, if one does: no way
before it in the set is empty. -/
def reusesOwnWay (fsd : Fsd Block) (sector : Sector) : Prop :=
  ∀ cache ∈ fsd.cache, ∀ slot ∈ fsCacheSlotOf (some cache) sector, putSlot cache sector = slot

def lastMissed (fsd : Fsd Block) : Prop := fsCacheSlotOf fsd.cache lastSector = none

def writes (driver : Nat → Reply) (fsd : Fsd Block) (sector : Sector) : Prop :=
  writeRefused fsd (fsd.partitionStart + sector) = false ∧ driver fsd.opDiskd = .ok

/-- The restriction under which the cache is transparent. -/
def oneCopy (driver : Nat → Reply) (fsd : Fsd Block) : Call Block → Prop
  | .readSector sector => sector = lastSector → lastMissed fsd
  | .readSectors start count => lastSector - start < count → lastMissed fsd
  | .writeSector sector _ => writes driver fsd sector → reusesOwnWay fsd sector

def uncachedAnswer (memory : Sector → Block) : Call Block → List Block
  | .readSector sector => [memory sector]
  | .readSectors start count => (List.range count.toNat).map fun k => memory (after start k)
  | .writeSector _ _ => []

def uncachedVolume (memory : Sector → Block) : Call Block → Sector → Block
  | .writeSector sector buf => Function.update memory sector buf
  | _ => memory

/-- A successful call is the uncached one; one that fails has no effect on the volume
or, where the reply was lost, the uncached one's. -/
def uncached (driver : Nat → Reply) (fsd : Fsd Block) (call : Call Block) : Prop :=
  let done := perform driver fsd call
  match done.2 with
  | some bufs => bufs = uncachedAnswer (volume fsd) call ∧
      volume done.1 = uncachedVolume (volume fsd) call
  | none => volume done.1 = volume fsd ∨ volume done.1 = uncachedVolume (volume fsd) call

def noStale (fsd : Fsd Block) : Prop :=
  ∀ cache ∈ fsd.cache, ∀ slot, cache.tag slot ≠ 0 →
    cache.data slot = volume fsd (cache.tag slot - 1)

theorem noStale_of_sound (sound : Sound fsd) : noStale fsd := by
  intro cache mapped slot used
  refine (sound cache mapped).faithful.fresh slot _ _ ?_
  rw [copies, if_neg used]

theorem volume_update (fsd : Fsd Block) (sector : Sector) (buf : Block) :
    (fun name => update fsd.disk (fsd.partitionStart + sector) buf
      (fsd.partitionStart + name)) = update (volume fsd) sector buf := by
  funext name
  by_cases same : name = sector
  · simp [same]
  · simp [same, volume]

/-- A write that succeeds. -/
theorem fsWriteSector_ok (buf : Block) (done : writes driver fsd sector) :
    (fsWriteSector driver fsd sector buf).2 = true ∧
      volume (fsWriteSector driver fsd sector buf).1 =
        update (volume fsd) sector buf ∧
      (fsWriteSector driver fsd sector buf).1.cache =
        fsd.cache.map fun cache => fsCachePut cache sector buf := by
  obtain ⟨allowed, ok⟩ := done
  refine ⟨by simp [fsWriteSector, diskdWrite, allowed, ok], ?_, ?_⟩
  · rw [← volume_update]
    funext name
    simp [volume, fsWriteSector, diskdWrite, allowed, ok]
  · simp [fsWriteSector, diskdWrite, allowed, ok]

/-- A write that fails drops the copy, whether or not the disk was reached. -/
theorem fsWriteSector_failed (buf : Block) (failed : ¬ writes driver fsd sector) :
    (fsWriteSector driver fsd sector buf).2 = false ∧
      (volume (fsWriteSector driver fsd sector buf).1 = volume fsd ∨
        volume (fsWriteSector driver fsd sector buf).1 =
          update (volume fsd) sector buf) ∧
      (fsWriteSector driver fsd sector buf).1.cache =
        fsd.cache.map fun cache => fsCacheDrop cache sector := by
  cases refused : writeRefused fsd (fsd.partitionStart + sector) with
  | true =>
    refine ⟨?_, .inl ?_, ?_⟩
    · simp [fsWriteSector, diskdWrite, refused]
    · funext name
      simp [volume, fsWriteSector, diskdWrite, refused]
    · simp [fsWriteSector, diskdWrite, refused]
  | false =>
    have missed : driver fsd.opDiskd ≠ .ok := fun ok => failed ⟨refused, ok⟩
    refine ⟨?_, ?_, ?_⟩
    · simp [fsWriteSector, diskdWrite, refused, missed]
    · by_cases lost : driver fsd.opDiskd = .lost
      · refine .inr ?_
        rw [← volume_update]
        funext name
        simp [volume, fsWriteSector, diskdWrite, refused, lost]
      · refine .inl ?_
        funext name
        simp [volume, fsWriteSector, diskdWrite, refused, lost, missed]
    · simp [fsWriteSector, diskdWrite, refused, missed]

theorem only_at_putSlot (coherent : Coherent cache memory)
    (own : ∀ slot ∈ fsCacheSlotOf (some cache) sector, putSlot cache sector = slot)
    (nonempty : sector ≠ lastSector) : OnlyAt (copies cache) sector (putSlot cache sector) := by
  cases found : fsCacheSlotOf (some cache) sector with
  | none => exact coherent.miss found _
  | some slot =>
    rw [own slot found]
    exact (coherent.hit nonempty found).2

theorem sound_write (sound : Sound fsd) (buf : Block)
    (own : writes driver fsd sector → reusesOwnWay fsd sector) :
    Sound (fsWriteSector driver fsd sector buf).1 := by
  intro cache mapped
  by_cases done : writes driver fsd sector
  · obtain ⟨-, disk, kept⟩ := fsWriteSector_ok buf done
    rw [kept] at mapped
    obtain ⟨old, held, rfl⟩ := Option.map_eq_some_iff.mp mapped
    rw [disk]
    exact (sound old held).put buf (only_at_putSlot (sound old held) (own done old held))
  · obtain ⟨-, disk, kept⟩ := fsWriteSector_failed buf done
    rw [kept] at mapped
    obtain ⟨old, held, rfl⟩ := Option.map_eq_some_iff.mp mapped
    rcases disk with disk | disk
    · rw [disk]
      exact ((sound old held).drop sector buf).1
    · rw [disk]
      exact ((sound old held).drop sector buf).2

theorem covers_iff (start count : Sector) :
    lastSector - start < count ↔ ∃ k < count.toNat, after start k = lastSector := by
  constructor
  · intro covered
    refine ⟨(lastSector - start).toNat, covered, ?_⟩
    rw [after, BitVec.ofNat_toNat, BitVec.setWidth_eq, BitVec.add_comm, BitVec.sub_add_cancel]
  · rintro ⟨k, inside, reached⟩
    rw [← reached, after, BitVec.add_comm, BitVec.add_sub_cancel, BitVec.lt_def,
      BitVec.toNat_ofNat, Nat.mod_eq_of_lt (by omega)]
    exact inside

theorem ready_sector (sound : Sound fsd) (missed : sector = lastSector → lastMissed fsd) :
    Ready fsd sector 1 := by
  refine ⟨sound, ?_⟩
  intro k inside reached
  have start : k = 0 := by omega
  subst start
  exact missed (by simpa [after] using reached)

theorem ready_sectors {start count : Sector} (sound : Sound fsd)
    (missed : lastSector - start < count → lastMissed fsd) : Ready fsd start count.toNat :=
  ⟨sound, fun k inside reached => missed ((covers_iff start count).mpr ⟨k, inside, reached⟩)⟩

theorem Serves.uncached_read {call : Call Block} (served : Serves fsd done sector count answer)
    (reads : uncachedAnswer (SectorCache.volume fsd) call =
      (List.range count).map fun k => SectorCache.volume fsd (after sector k))
    (keeps : uncachedVolume (SectorCache.volume fsd) call = SectorCache.volume fsd)
    (performed : perform driver fsd call = (done, answer)) : uncached driver fsd call := by
  rw [uncached, performed]
  cases answer with
  | none => exact .inl served.volume
  | some bufs => exact ⟨(served.answered bufs rfl).trans reads.symm, served.volume.trans keeps.symm⟩

theorem perform_sound (sound : Sound fsd) (call : Call Block) (single : oneCopy driver fsd call) :
    Sound (perform driver fsd call).1 ∧ uncached driver fsd call := by
  cases call with
  | readSector sector =>
    have served : Serves fsd (fsReadSector driver fsd sector).1 sector 1 _ :=
      fsReadSector_serves (ready_sector sound single)
    refine ⟨served.sound, served.uncached_read ?_ rfl rfl⟩
    simp [uncachedAnswer]
  | readSectors start count =>
    have served : Serves fsd (fsReadSectors driver fsd start count.toNat).1 start count.toNat _ :=
      fsReadSectors_serves count.toNat (by omega) (ready_sectors sound single)
    exact ⟨served.sound, served.uncached_read rfl rfl rfl⟩
  | writeSector sector buf =>
    refine ⟨sound_write sound buf single, ?_⟩
    by_cases done : writes driver fsd sector
    · obtain ⟨given, disk, -⟩ := fsWriteSector_ok buf done
      simp [uncached, perform, given, disk, uncachedAnswer, uncachedVolume]
    · obtain ⟨given, disk, -⟩ := fsWriteSector_failed buf done
      simp only [uncached, perform, given]
      exact disk

/-- The cache as `fs_cache_init` maps it, if it does: zeroed tags. -/
def freshlyMapped (fsd : Fsd Block) : Prop :=
  ∀ cache ∈ fsd.cache, ∀ slot, cache.tag slot = 0

theorem sound_freshlyMapped (fresh : freshlyMapped fsd) : Sound fsd := by
  intro cache mapped
  have empty := fresh cache mapped
  constructor
  · intro slot used
    exact absurd (empty slot) used
  · constructor
    · intro slot name value held
      simp [copies, empty slot] at held
    · intro slot place name value copy held
      simp [copies, empty slot] at held

variable {mounted : Fsd Block}

theorem run_sound (fresh : freshlyMapped mounted)
    (run : Reach (step driver) (oneCopy driver) mounted fsd) : Sound fsd := by
  refine run.invariant Sound (sound_freshlyMapped fresh) ?_
  rintro before call next sound single ⟨rfl⟩
  exact (perform_sound sound call single).1

/-- As long as every successful write reuses the way its sector is in and the lookup of
the last sector meets no empty way, the cached volume behaves as the uncached one and
no stale copy is kept. -/
theorem cache_transparent (fresh : freshlyMapped mounted)
    (run : Reach (step driver) (oneCopy driver) mounted fsd) :
    noStale fsd ∧ ∀ call, oneCopy driver fsd call → uncached driver fsd call := by
  have sound := run_sound fresh run
  exact ⟨noStale_of_sound sound, fun call single => (perform_sound sound call single).2⟩

instance (driver : Nat → Reply) (fsd : Fsd Block) :
    ∀ call, Decidable (oneCopy driver fsd call)
  | .readSector sector =>
    inferInstanceAs (Decidable (sector = lastSector → fsCacheSlotOf fsd.cache lastSector = none))
  | .readSectors start count =>
    inferInstanceAs (Decidable
      (lastSector - start < count → fsCacheSlotOf fsd.cache lastSector = none))
  | .writeSector sector _ =>
    inferInstanceAs (Decidable
      (writeRefused fsd (fsd.partitionStart + sector) = false ∧ driver fsd.opDiskd = .ok →
        ∀ cache ∈ fsd.cache, ∀ slot ∈ fsCacheSlotOf (some cache) sector,
          putSlot cache sector = slot))

/-- A partition that starts at sector 2048 of a disk whose n-th sector holds n, with
nothing protected. -/
def blank : Fsd Nat :=
  { cache := some ⟨fun _ => 0, fun _ => 0, fun _ => 0⟩
    disk := BitVec.toNat
    partitionStart := 2048
    writeDisabled := false
    reserved := []
    multiOk := true
    opDiskd := 0 }

def faulty (op : Nat) : Reply := if op = 2 ∨ op = 4 then .failed else .ok

/-- Two sectors of one set are read; a write of the one in the first way fails. -/
def afterFailure : Fsd Nat :=
  outcome (step faulty) (oneCopy faulty) blank
    [.readSector 0, .readSectors 4096 1, .writeSector 0 7]

theorem cache_transparent_failure :
    noStale afterFailure ∧ uncached faulty afterFailure (.readSector 4096) := by
  have fresh : freshlyMapped blank := by
    rintro cache ⟨rfl⟩ slot
    rfl
  have run : Reach (step faulty) (oneCopy faulty) blank afterFailure :=
    outcome_reach _ _ (by decide +kernel)
  have transparent := cache_transparent fresh run
  exact ⟨transparent.1, transparent.2 (.readSector 4096) (by decide)⟩

/-- The other sector is then written, which puts its new content in the first way and
leaves the old one in the second; a failed write drops the new copy. -/
def afterWrites : Fsd Nat :=
  outcome (step faulty) (fun _ _ => True) blank
    [.readSector 0, .readSectors 4096 1, .writeSector 0 7, .writeSector 4096 8,
      .writeSector 4096 9]

theorem stale_copy_read :
    Reach (step faulty) (fun _ _ => True) blank afterWrites ∧
      volume afterWrites 4096 = 8 ∧
      (perform faulty afterWrites (.readSector 4096)).2 = some [6144] ∧
      ¬ uncached faulty afterWrites (.readSector 4096) := by
  have disk : volume afterWrites 4096 = 8 := by decide +kernel
  have read : (perform faulty afterWrites (.readSector 4096)).2 = some [6144] := by decide +kernel
  refine ⟨outcome_reach _ _ (by decide), disk, read, ?_⟩
  intro transparent
  simp only [uncached, read, uncachedAnswer, disk] at transparent
  exact absurd transparent.1 (by decide)

end Racccoon.SectorCache
