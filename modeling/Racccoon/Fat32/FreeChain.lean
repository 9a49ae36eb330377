import Racccoon.Lib.WriteBack
import Racccoon.Fat32.Chains

/-!
`fat32_free_cluster_chain` over the sectors of the FAT copies: entries are cleared in a
sector held back, which is written to every copy when the chain moves on to another
sector, while the links are read through the one-sector cache. `freeEntries` is what it
stands for: each entry cleared by `fat32_write_fat_entry` as the walk meets it.

A sector is its 32-bit words, and sector numbers do not wrap. Reads and writes of the
disk do not fail; `none` means that `fuel` clusters were not enough.
-/

namespace Racccoon.Fat32.FatSectors

open WriteBack

abbrev SectorWords := Nat → BitVec 32

structure FatLayout where
  fatStart : Nat
  numFats : Nat
  fatSize : Nat
  fsinfoSector : Nat
  totalClusters : Nat
  hasCopy : 0 < numFats
  entriesFit : totalClusters + 2 ≤ fatSize * fatEntriesPerSector
  fsinfoBefore : fsinfoSector < fatStart

/-- The disk, `fat32_fat_cache_*`, `fat32_alloc_hint` and `fat32_free_count`. -/
structure FatState where
  words : Nat → SectorWords
  cache : Option (Nat × SectorWords)
  allocHint : Nat
  freeCount : Nat

def entryMask : BitVec 32 := 0x0FFFFFFF#32
def fsinfoFreeCount : Nat := 0x1E8

def fatRel (cluster : Nat) : Nat := cluster * 4 / sectorSize
def entryWord (cluster : Nat) : Nat := cluster * 4 % sectorSize / 4

variable (volume : FatLayout)

def FatLayout.copySector (rel copy : Nat) : Nat :=
  volume.fatStart + copy * volume.fatSize + rel

def FatState.fatSector (sector : Nat) (state : FatState) : SectorWords × FatState :=
  let loaded := (state.words sector, { state with cache := some (sector, state.words sector) })
  match state.cache with
  | some (held, buf) => if held = sector then (buf, state) else loaded
  | none => loaded

variable (cluster : Nat) (state : FatState)

def nextCluster : Nat × FatState :=
  let (buf, state) := state.fatSector (volume.fatStart + fatRel cluster)
  ((buf (entryWord cluster) &&& entryMask).toNat, state)

/-- `*entry = (*entry & ~FAT32_ENTRY_MASK) | (value & FAT32_ENTRY_MASK)`. -/
def setEntry (value : BitVec 32) (buf : SectorWords) : SectorWords :=
  Function.update buf (entryWord cluster)
    ((buf (entryWord cluster) &&& ~~~entryMask) ||| (value &&& entryMask))

def writeCopy (rel copy : Nat) (buf : SectorWords) (state : FatState) : FatState :=
  let sector := volume.copySector rel copy
  { state with
    words := Function.update state.words sector buf
    cache := state.cache.map fun (held, old) =>
      (held, if copy = 0 ∧ held = sector then buf else old) }

variable (rel : Nat)

def writeCopies (change : SectorWords → SectorWords) (state : FatState) : FatState :=
  (List.range volume.numFats).foldl
    (fun state copy =>
      writeCopy volume rel copy (change (state.words (volume.copySector rel copy))) state)
    state

def writeFatEntry (value : BitVec 32) : FatState → FatState :=
  writeCopies volume (fatRel cluster) (setEntry cluster value)

def writeFatSectorAll (buf : SectorWords) : FatState → FatState :=
  writeCopies volume rel fun _ => buf

def writeFreeCount : FatState :=
  { state with
    words := Function.update state.words volume.fsinfoSector
      (Function.update (state.words volume.fsinfoSector) (fsinfoFreeCount / 4)
        (BitVec.ofNat 32 state.freeCount)) }

/-- The end of the call: the freed clusters are counted, in `uint`, and the count is
written to the FSInfo sector. -/
def countFreed (freed : Nat) (state : FatState) : FatState :=
  writeFreeCount volume { state with freeCount := (state.freeCount + freed) % 2 ^ 32 }

/-- `if (cluster < fat32_alloc_hint) fat32_alloc_hint = cluster`. -/
def lowerHint : FatState :=
  { state with allocHint := if cluster < state.allocHint then cluster else state.allocHint }

def writePending : Option (Nat × SectorWords) → FatState → FatState
  | some (rel, buf), state => writeFatSectorAll volume rel buf state
  | none, state => state

/-- The sector of the cluster, held back: the one held already or else one read, after
the other is written. -/
def holdSector (pend : Option (Nat × SectorWords)) (state : FatState) : SectorWords × FatState :=
  let read (state : FatState) := (state.words (volume.fatStart + rel), state)
  match pend with
  | some (held, buf) =>
    if rel ≠ held then read (writeFatSectorAll volume held buf state) else (buf, state)
  | none => read state

/-- The loop of `fat32_free_cluster_chain`. `*entry & ~FAT32_ENTRY_MASK` is the entry
set to 0. -/
def freeLoop (volume : FatLayout) :
    Nat → Nat → Option (Nat × SectorWords) → Nat → FatState → Option FatState
  | 0, _, _, _, _ => none
  | fuel + 1, cluster, pend, freed, state =>
    if chainEnd cluster then some (countFreed volume freed (writePending volume pend state))
    else
      let (next, state) := nextCluster volume cluster state
      let (buf, state) := holdSector volume (fatRel cluster) pend state
      freeLoop volume fuel next (some (fatRel cluster, setEntry cluster 0#32 buf))
        (freed + 1) (lowerHint cluster state)

def freeClusterChain (fuel firstCluster : Nat) (state : FatState) : Option FatState :=
  freeLoop volume fuel firstCluster none 0 state

def freeEntriesFrom (volume : FatLayout) : Nat → Nat → Nat → FatState → Option FatState
  | 0, _, _, _ => none
  | fuel + 1, cluster, freed, state =>
    if chainEnd cluster then some (countFreed volume freed state)
    else
      let (next, state) := nextCluster volume cluster state
      freeEntriesFrom volume fuel next (freed + 1)
        (lowerHint cluster (writeFatEntry volume cluster 0#32 state))

def freeEntries (fuel firstCluster : Nat) (state : FatState) : Option FatState :=
  freeEntriesFrom volume fuel firstCluster 0 state

def copySectors : List Nat :=
  (List.range volume.numFats).map (volume.copySector rel)

variable {volume : FatLayout}
variable {rel cluster : Nat}

theorem mem_copySectors {sector : Nat} :
    sector ∈ copySectors volume rel ↔
      ∃ copy < volume.numFats, sector = volume.fatStart + copy * volume.fatSize + rel := by
  simp [copySectors, FatLayout.copySector, eq_comm]

/-- Two sector numbers of the copies meet only for one place in one copy. -/
theorem copySector_inj {other copy copy' : Nat} (fits : rel < volume.fatSize)
    (fits' : other < volume.fatSize)
    (same : volume.copySector rel copy = volume.copySector other copy') :
    copy = copy' ∧ rel = other := by
  unfold FatLayout.copySector at same
  have sums : rel + volume.fatSize * copy = other + volume.fatSize * copy' := by
    rw [Nat.mul_comm volume.fatSize, Nat.mul_comm volume.fatSize]
    omega
  have quotients : (rel + volume.fatSize * copy) / volume.fatSize =
      (other + volume.fatSize * copy') / volume.fatSize := by rw [sums]
  have positive : 0 < volume.fatSize := by omega
  rw [Nat.add_mul_div_left _ _ positive, Nat.add_mul_div_left _ _ positive,
    Nat.div_eq_of_lt fits, Nat.div_eq_of_lt fits'] at quotients
  have copies : copy = copy' := by omega
  subst copies
  exact ⟨rfl, by omega⟩

def fatMirror (volume : FatLayout) : Layout Nat Nat where
  used rel := rel < volume.fatSize
  first rel := volume.fatStart + rel
  copies rel := copySectors volume rel
  first_mem rel := mem_copySectors.mpr ⟨0, volume.hasCopy, by omega⟩
  apart rel other sector fits fits' left right := by
    obtain ⟨copy, -, here⟩ := mem_copySectors.mp left
    obtain ⟨copy', -, there⟩ := mem_copySectors.mp right
    exact (copySector_inj fits fits' (here.symm.trans there)).2

def linkAt (volume : FatLayout) (words : Nat → SectorWords) (cluster : Nat) : Nat :=
  (words (volume.fatStart + fatRel cluster) (entryWord cluster) &&& entryMask).toNat

def CopiesAgree (volume : FatLayout) (state : FatState) : Prop :=
  Mirrored (fatMirror volume) state.words

def CacheCoherent (volume : FatLayout) (state : FatState) : Prop :=
  ∀ held buf, state.cache = some (held, buf) →
    (∃ rel < volume.fatSize, held = volume.fatStart + rel) ∧ buf = state.words held

def FatState.cached (state : FatState) : Option Nat := state.cache.map Prod.fst

theorem fatRel_lt (inRange : cluster < volume.totalClusters + 2) :
    fatRel cluster < volume.fatSize := by
  have fits := volume.entriesFit
  unfold fatEntriesPerSector at fits
  unfold fatRel sectorSize
  omega

theorem entry_apart {other : Nat} (sameSector : fatRel cluster = fatRel other)
    (sameWord : entryWord cluster = entryWord other) : cluster = other := by
  unfold fatRel sectorSize at sameSector
  unfold entryWord sectorSize at sameWord
  omega

theorem setEntry_again (cluster : Nat) (value : BitVec 32) (buf : SectorWords) :
    setEntry cluster value (setEntry cluster value buf) = setEntry cluster value buf := by
  funext word
  by_cases here : word = entryWord cluster
  · simp only [setEntry]
    grind
  · simp [setEntry, here]

theorem setEntry_of_ne {word : Nat} (different : word ≠ entryWord cluster) (value : BitVec 32)
    (buf : SectorWords) : setEntry cluster value buf word = buf word :=
  Function.update_of_ne different _ _

variable {pend : Option (Nat × SectorWords)}

section Calls
variable {volume : FatLayout} {state : FatState}

section
variable (coherent : CacheCoherent volume state)
include coherent

theorem writeCopy_coherent {copy : Nat} (fits : rel < volume.fatSize) (buf : SectorWords) :
    CacheCoherent volume (writeCopy volume rel copy buf state) := by
  intro held cached found
  simp only [writeCopy, Option.map_eq_some_iff, Prod.mk.injEq, Prod.exists] at found
  obtain ⟨sector, old, before, rfl, rfl⟩ := found
  obtain ⟨⟨place, inside, rfl⟩, rfl⟩ := coherent sector old before
  refine ⟨⟨place, inside, rfl⟩, ?_⟩
  by_cases here : volume.fatStart + place = volume.copySector rel copy
  · have zero : copy = 0 := by
      have primary : volume.copySector rel copy = volume.copySector place 0 := by
        rw [← here]
        simp [FatLayout.copySector]
      exact (copySector_inj fits inside primary).1
    subst zero
    simp [writeCopy, here]
  · simp [writeCopy, here]

theorem writeCopies_spec (fits : rel < volume.fatSize) (change : SectorWords → SectorWords) :
    (writeCopies volume rel change state).words =
        rewrite change (copySectors volume rel) state.words ∧
      (writeCopies volume rel change state).cached = state.cached ∧
      (writeCopies volume rel change state).allocHint = state.allocHint ∧
      (writeCopies volume rel change state).freeCount = state.freeCount ∧
      CacheCoherent volume (writeCopies volume rel change state) := by
  unfold writeCopies copySectors rewrite
  generalize List.range volume.numFats = copies
  induction copies generalizing state with
  | nil => exact ⟨rfl, rfl, rfl, rfl, coherent⟩
  | cons copy _ ih =>
    have stepped : CacheCoherent volume (writeCopy volume rel copy
        (change (state.words (volume.copySector rel copy))) state) :=
      writeCopy_coherent coherent fits _
    obtain ⟨words, cached, hint, count, after⟩ := ih stepped
    refine ⟨?_, ?_, hint, count, after⟩
    · exact words
    · rw [List.foldl_cons, cached]
      simp only [writeCopy, FatState.cached, Option.map_map]
      rfl

theorem nextCluster_spec (cluster : Nat) :
    nextCluster volume cluster state =
      (linkAt volume state.words cluster,
        { state with
          cache := some (volume.fatStart + fatRel cluster,
            state.words (volume.fatStart + fatRel cluster)) }) := by
  unfold nextCluster FatState.fatSector linkAt
  cases found : state.cache with
  | none => rfl
  | some pair =>
    obtain ⟨held, buf⟩ := pair
    obtain ⟨-, rfl⟩ := coherent held buf found
    by_cases same : held = volume.fatStart + fatRel cluster
    · subst same
      simp [← found]
    · simp [same]

theorem nextCluster_coherent (inRange : cluster < volume.totalClusters + 2) :
    CacheCoherent volume (nextCluster volume cluster state).2 := by
  rw [nextCluster_spec coherent]
  rintro held buf ⟨⟩
  exact ⟨⟨fatRel cluster, fatRel_lt inRange, rfl⟩, rfl⟩

def PendFits (volume : FatLayout) (pend : Option (Nat × SectorWords)) : Prop :=
  ∀ rel buf, pend = some (rel, buf) → rel < volume.fatSize

theorem writePending_spec (fits : PendFits volume pend) :
    (writePending volume pend state).words = flush (fatMirror volume) pend state.words ∧
      (writePending volume pend state).cached = state.cached ∧
      (writePending volume pend state).allocHint = state.allocHint ∧
      (writePending volume pend state).freeCount = state.freeCount ∧
      CacheCoherent volume (writePending volume pend state) := by
  cases pend with
  | none => exact ⟨rfl, rfl, rfl, rfl, coherent⟩
  | some held => exact writeCopies_spec coherent (fits held.1 held.2 rfl) _

end

/-- What `holdSector` does: at most the sector held is written, and a change of the
sector now held is a change of all its copies. -/
theorem holdSector_spec (coherent : CacheCoherent volume state) (fits : PendFits volume pend)
    (agree : Mirrored (fatMirror volume) (flush (fatMirror volume) pend state.words))
    (inside : rel < volume.fatSize) :
    ∃ buf after, holdSector volume rel pend state = (buf, after) ∧
      (after = state ∨ after = writePending volume pend state) ∧
      ∀ change : SectorWords → SectorWords, (∀ buf, change (change buf) = change buf) →
        flush (fatMirror volume) (some (rel, change buf)) after.words =
          rewrite change (copySectors volume rel)
            (flush (fatMirror volume) pend state.words) := by
  cases pend with
  | none => exact ⟨_, _, rfl, .inl rfl, fun change again => flush_load agree again inside⟩
  | some pending =>
    obtain ⟨held, buf⟩ := pending
    by_cases same : rel = held
    · subst same
      refine ⟨buf, state, by simp [holdSector], .inl rfl, ?_⟩
      exact fun change again => flush_change again rel buf state.words
    · have written := (writePending_spec coherent fits).1
      have split : holdSector volume rel (some (held, buf)) state =
          ((writePending volume (some (held, buf)) state).words (volume.fatStart + rel),
            writePending volume (some (held, buf)) state) := by
        simp only [holdSector, ne_eq, same]
        rfl
      refine ⟨_, _, split, .inr rfl, ?_⟩
      intro change again
      rw [written]
      exact flush_load agree again inside

end Calls

/-- The clusters from `cluster` on, in the order of their links: allocated ones, and
then an end of chain. -/
def ChainOf (volume : FatLayout) (words : Nat → SectorWords) : Nat → List Nat → Prop
  | cluster, [] => chainEnd cluster = true
  | cluster, first :: rest =>
    cluster = first ∧ chainEnd cluster = false ∧ cluster < volume.totalClusters + 2 ∧
      ChainOf volume words (linkAt volume words cluster) rest

variable {chain : List Nat}

section Chains
variable {volume : FatLayout} {words : Nat → SectorWords}

section
variable (linked : ChainOf volume words cluster chain)
include linked

theorem ChainOf.congr {after : Nat → SectorWords}
    (same : ∀ member ∈ chain, linkAt volume after member = linkAt volume words member) :
    ChainOf volume after cluster chain := by
  induction chain generalizing cluster with
  | nil => exact linked
  | cons _ _ ih =>
    obtain ⟨rfl, open_, inRange, next⟩ := linked
    refine ⟨rfl, open_, inRange, ?_⟩
    rw [same cluster List.mem_cons_self]
    exact ih next fun member inside => same member (List.mem_cons_of_mem _ inside)

theorem ChainOf.unique {other : List Nat} (linked' : ChainOf volume words cluster other) :
    chain = other := by
  induction chain generalizing cluster other with
  | nil =>
    cases other with
    | nil => rfl
    | cons => cases linked.symm.trans linked'.2.1
  | cons first rest ih =>
    obtain ⟨rfl, open_, -, next⟩ := linked
    cases other with
    | nil => simp [ChainOf, open_] at linked'
    | cons =>
      obtain ⟨rfl, -, -, next'⟩ := linked'
      rw [ih next next']

theorem ChainOf.from_member {member : Nat} (inside : member ∈ chain) :
    ∃ rest, rest <:+ chain ∧ ChainOf volume words member rest := by
  induction chain generalizing cluster with
  | nil => simp at inside
  | cons _ _ ih =>
    rcases List.mem_cons.mp inside with rfl | later
    · obtain ⟨rfl, _⟩ := id linked
      exact ⟨_, List.suffix_rfl, linked⟩
    · obtain ⟨tail, suffix, found⟩ := ih linked.2.2.2 later
      exact ⟨tail, suffix.trans (List.suffix_cons _ _), found⟩

theorem ChainOf.nodup : chain.Nodup := by
  induction chain generalizing cluster with
  | nil => exact List.nodup_nil
  | cons first rest ih =>
    refine List.nodup_cons.mpr ⟨?_, ih linked.2.2.2⟩
    intro again
    obtain ⟨tail, suffix, found⟩ := linked.2.2.2.from_member again
    have whole : first :: rest = tail := by
      obtain ⟨rfl, _⟩ := id linked
      exact linked.unique found
    have shorter := suffix.length_le
    rw [← whole, List.length_cons] at shorter
    omega

end

end Chains

/-- The buffered walk has `pend` left to write to be where the plain one is; the links of
the clusters to come are on the disk. -/
structure Simulates (volume : FatLayout) (pend : Option (Nat × SectorWords))
    (buffered plain : FatState) (rest : List Nat) : Prop where
  words : plain.words = flush (fatMirror volume) pend buffered.words
  cached : buffered.cached = plain.cached
  hint : buffered.allocHint = plain.allocHint
  count : buffered.freeCount = plain.freeCount
  fits : PendFits volume pend
  agree : CopiesAgree volume plain
  coherent : CacheCoherent volume buffered
  plainCoherent : CacheCoherent volume plain
  links : ∀ cluster ∈ rest,
    linkAt volume buffered.words cluster = linkAt volume plain.words cluster

theorem state_ext {left right : FatState} (words : left.words = right.words)
    (cached : left.cached = right.cached) (hint : left.allocHint = right.allocHint)
    (count : left.freeCount = right.freeCount) (coherent : CacheCoherent volume left)
    (coherent' : CacheCoherent volume right) : left = right := by
  have caches : left.cache = right.cache := by
    cases found : left.cache with
    | none => simpa [FatState.cached, found, eq_comm] using cached
    | some pair =>
      have named : right.cached = some pair.1 := by
        rw [← cached, FatState.cached, found]
        rfl
      obtain ⟨other, found', same⟩ := Option.map_eq_some_iff.mp named
      have loaded := (coherent pair.1 pair.2 found).2
      have loaded' := (coherent' other.1 other.2 found').2
      rw [found', Option.some.injEq, Prod.ext_iff]
      exact ⟨same.symm, by rw [loaded, loaded', words, same]⟩
  cases left
  simp_all

theorem linkAt_cleared {other : Nat} (inRange : cluster < volume.totalClusters + 2)
    (inRange' : other < volume.totalClusters + 2) (different : cluster ≠ other)
    (words : Nat → SectorWords) :
    linkAt volume (rewrite (setEntry cluster 0#32) (copySectors volume (fatRel cluster)) words)
        other = linkAt volume words other := by
  have kept : fatRel cluster = fatRel other → ∀ buf : SectorWords,
      setEntry cluster 0#32 buf (entryWord other) = buf (entryWord other) := by
    intro sameSector buf
    apply setEntry_of_ne
    intro sameWord
    exact different (entry_apart sameSector sameWord.symm)
  have view := @rewrite_view _ _ _ _ (fatMirror volume) (BitVec 32) (setEntry cluster 0#32)
    (setEntry_again cluster _) (fun buf => buf (entryWord other)) (fatRel cluster)
    (fatRel other) (fatRel_lt inRange) (fatRel_lt inRange') kept words
  exact congrArg (fun entry => (entry &&& entryMask).toNat) view

variable {state : FatState}

/-- One round of the plain walk. -/
theorem clearOne_spec (coherent : CacheCoherent volume state)
    (inRange : cluster < volume.totalClusters + 2) :
    ∃ after, lowerHint cluster
        (writeFatEntry volume cluster 0#32 (nextCluster volume cluster state).2) = after ∧
      after.words =
        rewrite (setEntry cluster 0#32) (copySectors volume (fatRel cluster)) state.words ∧
      after.cached = some (volume.fatStart + fatRel cluster) ∧
      after.allocHint = (lowerHint cluster state).allocHint ∧
      after.freeCount = state.freeCount ∧ CacheCoherent volume after := by
  have read := nextCluster_coherent coherent inRange
  have cleared := writeCopies_spec read (fatRel_lt inRange) (setEntry cluster 0#32)
  rw [nextCluster_spec coherent] at cleared ⊢
  obtain ⟨words, cached, hint, count, after⟩ := cleared
  refine ⟨_, rfl, words, cached, ?_, count, after⟩
  have sameHint : (writeFatEntry volume cluster 0#32 _).allocHint = state.allocHint := hint
  simp only [lowerHint, sameHint]

theorem freeStep_simulates {buffered plain : FatState} {rest : List Nat}
    (simulates : Simulates volume pend buffered plain (cluster :: rest))
    (inRange : ∀ member ∈ cluster :: rest, member < volume.totalClusters + 2)
    (fresh : cluster ∉ rest) {next : Nat} {buf : SectorWords} {linked held : FatState}
    (read : nextCluster volume cluster buffered = (next, linked))
    (loaded : holdSector volume (fatRel cluster) pend linked = (buf, held)) :
    Simulates volume (some (fatRel cluster, setEntry cluster 0#32 buf)) (lowerHint cluster held)
      (lowerHint cluster
        (writeFatEntry volume cluster 0#32 (nextCluster volume cluster plain).2)) rest := by
  have here := inRange cluster List.mem_cons_self
  have fits := fatRel_lt here
  have linkedCoherent := nextCluster_coherent simulates.coherent here
  rw [nextCluster_spec simulates.coherent, Prod.mk.injEq] at read
  rw [nextCluster_spec simulates.coherent, read.2] at linkedCoherent
  have sameWords : linked.words = buffered.words := by rw [← read.2]
  have sameCached : linked.cached = some (volume.fatStart + fatRel cluster) := by
    rw [← read.2]
    rfl
  have agree : Mirrored (fatMirror volume) (flush (fatMirror volume) pend linked.words) := by
    rw [sameWords, ← simulates.words]
    exact simulates.agree
  obtain ⟨buf', held', found, kept, flushed⟩ :=
    holdSector_spec linkedCoherent simulates.fits agree fits
  obtain ⟨rfl, rfl⟩ := Prod.mk.inj (loaded.symm.trans found)
  have written := writePending_spec linkedCoherent simulates.fits
  have heldWords : held.words = buffered.words ∨ held.words = plain.words := by
    rcases kept with rfl | rfl
    · exact .inl sameWords
    · exact .inr (by rw [written.1, sameWords, simulates.words])
  have heldRest : held.cached = linked.cached ∧ held.allocHint = linked.allocHint ∧
      held.freeCount = linked.freeCount ∧ CacheCoherent volume held := by
    rcases kept with rfl | rfl
    · exact ⟨rfl, rfl, rfl, linkedCoherent⟩
    · exact written.2
  obtain ⟨heldCached, heldHint, heldCount, heldCoherent⟩ := heldRest
  obtain ⟨after, same, words, cached, hint, count, coherent⟩ :=
    clearOne_spec simulates.plainCoherent here
  rw [same]
  constructor
  case words =>
      change after.words =
        flush (fatMirror volume) (some (fatRel cluster, setEntry cluster 0#32 buf)) held.words
      rw [words, flushed _ (setEntry_again cluster _), sameWords, simulates.words]
  case cached =>
      have onDisk : (lowerHint cluster held).cached = linked.cached := heldCached
      rw [onDisk, sameCached, cached]
  case hint =>
      have before : held.allocHint = plain.allocHint := by
        rw [heldHint, ← read.2]
        exact simulates.hint
      rw [hint]
      simp only [lowerHint, before]
  case count =>
      have before : held.freeCount = plain.freeCount := by
        rw [heldCount, ← read.2]
        exact simulates.count
      exact before.trans count.symm
  case fits =>
      rintro rel held ⟨⟩
      exact fits
  case agree =>
      unfold CopiesAgree
      rw [words]
      exact Mirrored.rewrite simulates.agree (setEntry_again cluster 0#32) fits
  case coherent => exact heldCoherent
  case plainCoherent => exact coherent
  case links =>
      intro member inside
      have different : cluster ≠ member := fun same => fresh (same ▸ inside)
      have later := List.mem_cons_of_mem cluster inside
      have onDisk : linkAt volume held.words member = linkAt volume plain.words member := by
        rcases heldWords with same | same <;> rw [same]
        exact simulates.links member later
      rw [words, linkAt_cleared here (inRange member later) different]
      exact onDisk

theorem ChainOf.inRange {words : Nat → SectorWords} (linked : ChainOf volume words cluster chain) :
    ∀ member ∈ chain, member < volume.totalClusters + 2 := by
  induction chain generalizing cluster with
  | nil => simp
  | cons first rest ih =>
    obtain ⟨rfl, -, inRange, next⟩ := linked
    exact List.forall_mem_cons.mpr ⟨inRange, ih next⟩

theorem ChainOf.step {words : Nat → SectorWords} {first : Nat} {rest : List Nat}
    (linked : ChainOf volume words cluster (first :: rest)) :
    ChainOf volume
      (rewrite (setEntry cluster 0#32) (copySectors volume (fatRel cluster)) words)
      (linkAt volume words cluster) rest := by
  have fresh := (List.nodup_cons.mp linked.nodup).1
  have inRange := linked.inRange
  obtain ⟨rfl, -, here, next⟩ := linked
  apply next.congr
  intro member inside
  have different : cluster ≠ member := fun same => fresh (same ▸ inside)
  exact linkAt_cleared here (inRange member (List.mem_cons_of_mem _ inside)) different words

theorem freeLoop_as_entries {buffered plain : FatState} {fuel : Nat} (freed : Nat)
    (simulates : Simulates volume pend buffered plain chain)
    (linked : ChainOf volume plain.words cluster chain) (enough : chain.length < fuel) :
    freeLoop volume fuel cluster pend freed buffered =
      freeEntriesFrom volume fuel cluster freed plain := by
  induction chain generalizing pend buffered plain cluster freed fuel with
  | nil =>
    obtain ⟨fuel, rfl⟩ := Nat.exists_eq_succ_of_ne_zero (Nat.ne_of_gt enough)
    have ended : chainEnd cluster = true := linked
    obtain ⟨words, cached, hint, count, coherent⟩ :=
      writePending_spec simulates.coherent simulates.fits
    have same : writePending volume pend buffered = plain := by
      apply state_ext _ _ _ _ coherent simulates.plainCoherent
      · rw [words, simulates.words]
      · rw [cached, simulates.cached]
      · rw [hint, simulates.hint]
      · rw [count, simulates.count]
    simp only [freeLoop, freeEntriesFrom, ended, if_true, same]
  | cons _ _ ih =>
    obtain ⟨fuel, rfl⟩ :=
      Nat.exists_eq_succ_of_ne_zero (Nat.ne_of_gt (Nat.lt_of_le_of_lt (Nat.zero_le _) enough))
    have inRange := linked.inRange
    have fresh := (List.nodup_cons.mp linked.nodup).1
    have stepped := linked.step
    obtain ⟨rfl, goes, here, -⟩ := linked
    simp only [freeLoop, freeEntriesFrom, goes]
    cases read : nextCluster volume cluster buffered with
    | mk next reading =>
      cases loaded : holdSector volume (fatRel cluster) pend reading with
      | mk buf held =>
        have after := freeStep_simulates simulates inRange fresh read loaded
        have link : next = linkAt volume plain.words cluster := by
          rw [nextCluster_spec simulates.coherent, Prod.mk.injEq] at read
          rw [← read.1, simulates.links cluster List.mem_cons_self]
        have plainLink : (nextCluster volume cluster plain).1 =
            linkAt volume plain.words cluster := by
          rw [nextCluster_spec simulates.plainCoherent]
        rw [link, plainLink]
        apply ih (freed + 1) after
        · obtain ⟨cleared, same, words, -⟩ := clearOne_spec simulates.plainCoherent here
          rw [same, words]
          exact stepped
        · simp only [List.length_cons] at enough
          omega

def IsEntryOf (volume : FatLayout) (cluster sector word : Nat) : Prop :=
  sector ∈ copySectors volume (fatRel cluster) ∧ word = entryWord cluster

instance (volume : FatLayout) (cluster sector word : Nat) :
    Decidable (IsEntryOf volume cluster sector word) :=
  inferInstanceAs (Decidable (_ ∧ _))

def clearChain (volume : FatLayout) (chain : List Nat) (words : Nat → SectorWords) :
    Nat → SectorWords := fun sector word =>
  if ∃ cluster ∈ chain, IsEntryOf volume cluster sector word then
    words sector word &&& ~~~entryMask
  else words sector word

theorem rewrite_entry (volume : FatLayout) (cluster : Nat) (words : Nat → SectorWords)
    (sector word : Nat) :
    rewrite (setEntry cluster 0#32) (copySectors volume (fatRel cluster)) words sector word =
      if IsEntryOf volume cluster sector word then words sector word &&& ~~~entryMask
      else words sector word := by
  rw [rewrite_apply (setEntry_again cluster _)]
  by_cases member : sector ∈ copySectors volume (fatRel cluster)
  · by_cases same : word = entryWord cluster
    · subst same
      simp [IsEntryOf, member, setEntry]
    · simp [IsEntryOf, member, same, setEntry_of_ne same]
  · simp [IsEntryOf, member]

theorem clearChain_cons (volume : FatLayout) (cluster : Nat) (rest : List Nat)
    (words : Nat → SectorWords) :
    clearChain volume (cluster :: rest) words =
      clearChain volume rest
        (rewrite (setEntry cluster 0#32) (copySectors volume (fatRel cluster)) words) := by
  funext sector word
  simp only [clearChain, rewrite_entry]
  by_cases here : IsEntryOf volume cluster sector word
  · by_cases later : ∃ other ∈ rest, IsEntryOf volume other sector word
    · simp [here, BitVec.and_assoc]
    · simp [later]
  · simp [here]

theorem freeEntriesFrom_spec {fuel : Nat} (freed : Nat) (coherent : CacheCoherent volume state)
    (agree : CopiesAgree volume state) (linked : ChainOf volume state.words cluster chain)
    (enough : chain.length < fuel) :
    ∃ cleared, freeEntriesFrom volume fuel cluster freed state =
        some (countFreed volume (freed + chain.length) cleared) ∧
      cleared.words = clearChain volume chain state.words ∧
      cleared.freeCount = state.freeCount ∧ CopiesAgree volume cleared ∧
      CacheCoherent volume cleared := by
  induction chain generalizing state cluster freed fuel with
  | nil =>
    obtain ⟨fuel, rfl⟩ := Nat.exists_eq_succ_of_ne_zero (Nat.ne_of_gt enough)
    have ended : chainEnd cluster = true := linked
    refine ⟨state, by simp [freeEntriesFrom, ended], ?_, rfl, agree, coherent⟩
    funext sector word
    simp [clearChain]
  | cons _ rest ih =>
    obtain ⟨fuel, rfl⟩ :=
      Nat.exists_eq_succ_of_ne_zero (Nat.ne_of_gt (Nat.lt_of_le_of_lt (Nat.zero_le _) enough))
    have stepped := linked.step
    obtain ⟨rfl, goes, here, -⟩ := linked
    have fits := fatRel_lt here
    obtain ⟨after, same, words, -, -, count, written⟩ := clearOne_spec coherent here
    have afterAgree : CopiesAgree volume after := by
      unfold CopiesAgree
      rw [words]
      exact Mirrored.rewrite agree (setEntry_again cluster 0#32) fits
    have room : rest.length < fuel := by
      simp only [List.length_cons] at enough
      omega
    obtain ⟨cleared, ends, clearedWords, clearedCount, last⟩ :=
      ih (freed + 1) written afterAgree (words ▸ stepped) room
    refine ⟨cleared, ?_, ?_, clearedCount.trans count, last⟩
    · have link : (nextCluster volume cluster state).1 = linkAt volume state.words cluster := by
        rw [nextCluster_spec coherent]
      simp only [freeEntriesFrom, goes, link, same]
      rw [List.length_cons, Nat.add_comm rest.length, ← Nat.add_assoc]
      exact ends
    · rw [clearedWords, words, clearChain_cons]

theorem not_fsinfo : volume.fsinfoSector ∉ copySectors volume rel := by
  have before := volume.fsinfoBefore
  intro member
  obtain ⟨copy, -, same⟩ := mem_copySectors.mp member
  omega

theorem first_not_fsinfo (volume : FatLayout) (rel : Nat) :
    volume.fatStart + rel ≠ volume.fsinfoSector := by
  have before := volume.fsinfoBefore
  omega

theorem countFreed_agree (freed : Nat) (agree : CopiesAgree volume state) :
    CopiesAgree volume (countFreed volume freed state) := by
  intro rel sector used member
  have apart : sector ≠ volume.fsinfoSector := fun same => not_fsinfo (same ▸ member)
  have same := agree rel sector used member
  simpa [countFreed, writeFreeCount, fatMirror, apart, first_not_fsinfo] using same

theorem countFreed_coherent (freed : Nat) (coherent : CacheCoherent volume state) :
    CacheCoherent volume (countFreed volume freed state) := by
  intro held buf found
  obtain ⟨⟨rel, inside, rfl⟩, loaded⟩ := coherent held buf found
  refine ⟨⟨rel, inside, rfl⟩, ?_⟩
  simpa [countFreed, writeFreeCount, first_not_fsinfo] using loaded

/-- Freeing a chain leaves the state that freeing its entries one by one does: the entries
of its clusters free in every copy, the rest of every sector but the count as it was. -/
theorem free_cluster_chain_as_entries (volume : FatLayout) (state : FatState)
    (firstCluster fuel : Nat) (chain : List Nat)
    (coherent : CacheCoherent volume state) (agree : CopiesAgree volume state)
    (linked : ChainOf volume state.words firstCluster chain) (enough : chain.length < fuel) :
    ∃ after, freeClusterChain volume fuel firstCluster state = some after ∧
      freeEntries volume fuel firstCluster state = some after ∧
      CopiesAgree volume after ∧ CacheCoherent volume after ∧
      (∀ sector word, (sector, word) ≠ (volume.fsinfoSector, fsinfoFreeCount / 4) →
        after.words sector word =
          if ∃ cluster ∈ chain, IsEntryOf volume cluster sector word then
            state.words sector word &&& ~~~entryMask
          else state.words sector word) ∧
      after.freeCount = (state.freeCount + chain.length) % 2 ^ 32 ∧
      after.words volume.fsinfoSector (fsinfoFreeCount / 4) = BitVec.ofNat 32 after.freeCount := by
  have start : Simulates volume none state state chain :=
    ⟨rfl, rfl, rfl, rfl, by rintro rel buf ⟨⟩, agree, coherent, coherent, fun _ _ => rfl⟩
  obtain ⟨cleared, ends, words, count, clearedAgree, clearedCoherent⟩ :=
    freeEntriesFrom_spec 0 coherent agree linked enough
  rw [Nat.zero_add] at ends
  have buffered := (freeLoop_as_entries 0 start linked enough).trans ends
  refine ⟨_, buffered, ends, countFreed_agree _ clearedAgree,
    countFreed_coherent _ clearedCoherent, ?_, ?_, ?_⟩
  · intro sector word other
    have kept : (countFreed volume chain.length cleared).words sector word =
        cleared.words sector word := by
      by_cases info : sector = volume.fsinfoSector
      · subst info
        have different : word ≠ fsinfoFreeCount / 4 := fun same => other (by rw [same])
        simp [countFreed, writeFreeCount, different]
      · simp [countFreed, writeFreeCount, info]
    rw [kept, words]
    rfl
  · simp only [countFreed, writeFreeCount, count]
  · simp [countFreed, writeFreeCount]

def smallLayout : FatLayout where
  fatStart := 4
  numFats := 2
  fatSize := 2
  fsinfoSector := 1
  totalClusters := 200
  hasCopy := by decide
  entriesFit := by decide
  fsinfoBefore := by decide

/-- 3, 130, 4: the second entry stands in the other sector of the FAT. -/
def jumpingChain : FatState where
  words sector word :=
    if sector % 2 = 0 then if word = 3 then 130#32 else if word = 4 then 0x0FFFFFFF#32 else 0#32
    else if word = 2 then 4#32 else 0#32
  cache := none
  allocHint := 131
  freeCount := 197

theorem jumpingChain_agree : CopiesAgree smallLayout jumpingChain := by
  intro rel sector used member
  obtain ⟨copy, -, rfl⟩ := mem_copySectors.mp member
  have parity : (4 + copy * 2 + rel) % 2 = (4 + rel) % 2 := by omega
  simp [jumpingChain, smallLayout, fatMirror, parity]

theorem free_cluster_chain_as_entries_jumping :
    ∃ after, freeClusterChain smallLayout 4 3 jumpingChain = some after ∧
      freeEntries smallLayout 4 3 jumpingChain = some after ∧
      CopiesAgree smallLayout after ∧ CacheCoherent smallLayout after ∧
      (∀ sector word, (sector, word) ≠ (smallLayout.fsinfoSector, fsinfoFreeCount / 4) →
        after.words sector word =
          if ∃ cluster ∈ [3, 130, 4], IsEntryOf smallLayout cluster sector word then
            jumpingChain.words sector word &&& ~~~entryMask
          else jumpingChain.words sector word) ∧
      after.freeCount = (jumpingChain.freeCount + [3, 130, 4].length) % 2 ^ 32 ∧
      after.words smallLayout.fsinfoSector (fsinfoFreeCount / 4) =
        BitVec.ofNat 32 after.freeCount := by
  have linked : ChainOf smallLayout jumpingChain.words 3 [3, 130, 4] :=
    ⟨rfl, by decide, by decide, by decide, by decide, by decide, by decide, by decide, by decide,
      by simp only [ChainOf]; decide⟩
  have coherent : CacheCoherent smallLayout jumpingChain := by rintro held buf ⟨⟩
  exact free_cluster_chain_as_entries smallLayout jumpingChain 3 4 [3, 130, 4] coherent
    jumpingChain_agree linked (by decide)

end Racccoon.Fat32.FatSectors
