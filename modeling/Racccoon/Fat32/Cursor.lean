import Mathlib.Data.List.DropRight
import Racccoon.Lib.Simulation
import Racccoon.Fat32.Deletes

/-!
The resume cursor of `fat32_read_at`: where the last read of a file ended, as an offset
and the cluster that holds it. The server with the cursor is set beside one that walks from
the file's first cluster at every read. Sectors of the FAT and of file data may fail to be
read, as `Failing` says for one request; the lookups and the writes do not fail.
-/

namespace Racccoon.Fat32.Cursor

open Simulation

/-- What cannot be read during a request: the FAT entry of a cluster, a sector of one. -/
structure Failing where
  link : Nat → Bool
  sector : Nat → Nat → Bool

/-- `fat32_cache_*` -/
structure ReadCache where
  valid : Bool
  path : Name
  firstCluster : Nat
  fileSize : Nat
  resumeOffset : Nat
  resumeCluster : Nat
  deriving DecidableEq

variable (disk : Disk)

/-- `fat32_next_cluster`: an entry that cannot be read ends the chain. -/
def nextCluster (failing : Failing) (cluster : Nat) : Nat :=
  if failing.link cluster then eocMin else disk.nextCluster cluster

/-- The skipping loop of `fat32_read_file_at`, in `uint`. -/
def skipTo (disk : Disk) (failing : Failing) (offset : Nat) :
    Nat → Nat → Nat → Option (Nat × Nat)
  | 0, _, _ => none
  | fuel + 1, cluster, clusterStart =>
    let behind := (clusterStart + disk.clusterSize) % 2 ^ 32
    if behind ≤ offset && !chainEnd cluster then
      skipTo disk failing offset fuel (nextCluster disk failing cluster) behind
    else some (cluster, clusterStart)

/-- The sectors of one cluster, `left` of them from `sector` on, until `length` bytes are
read: the bytes, and whether no read failed. `skip` applies to the first sector. -/
def readSectors (disk : Disk) (failing : Failing) (cluster : Nat) :
    Nat → Nat → Nat → Nat → List Byte × Bool
  | 0, _, _, _ => ([], true)
  | left + 1, sector, skip, length =>
    if length = 0 then ([], true)
    else if failing.sector cluster sector then ([], false)
    else
      let chunk := min length (sectorSize - skip)
      let rest := readSectors disk failing cluster left (sector + 1) 0 (length - chunk)
      (disk.bytesOf cluster (sector * sectorSize + skip) chunk ++ rest.1, rest.2)

/-- The copying loop: the bytes, and the cursor it leaves. -/
def copyFrom (disk : Disk) (failing : Failing) :
    Nat → Nat → Nat → Nat → Nat → Option (List Byte × Nat × Nat)
  | 0, _, _, _, _ => none
  | fuel + 1, cluster, clusterStart, within, length =>
    if chainEnd cluster || length == 0 then some ([], cluster, clusterStart)
    else
      let sector := within / sectorSize
      let read := readSectors disk failing cluster (disk.sectorsPerCluster - sector) sector
        (within % sectorSize) length
      if !read.2 || read.1.length ≥ length then some (read.1, cluster, clusterStart)
      else
        (copyFrom disk failing fuel (nextCluster disk failing cluster)
          ((clusterStart + disk.clusterSize) % 2 ^ 32) 0 (length - read.1.length)).map
          fun after => (read.1 ++ after.1, after.2)

/-- `fat32_read_file_at`. `none` is a walk that is still not at `offset` after as many
clusters as lie in front of it. -/
def fat32ReadFileAt (failing : Failing) (cache : ReadCache)
    (length offset : Nat) : Option (List Byte × ReadCache) :=
  let start :=
    if offset ≥ cache.resumeOffset then (cache.resumeCluster, cache.resumeOffset)
    else (cache.firstCluster, 0)
  (skipTo disk failing offset (offset / disk.clusterSize + 2) start.1 start.2).bind fun found =>
    (copyFrom disk failing (length + 2) found.1 found.2 (offset - found.2) length).map
      fun (bytes, cluster, clusterStart) =>
        (bytes, { cache with resumeCluster := cluster, resumeOffset := clusterStart })

variable (fuel : Nat)

/-- The file a path leads to, by its entry; `none` in the result is the source's -1. -/
def fileEntry (name : Name) : Option (Option Slot) :=
  match disk.resolveDir fuel name with
  | none => none
  | some none => some none
  | some (some parent) =>
    (disk.lookup fuel parent (leafName name) true).map fun found =>
      (found.map fun hit => disk.slotIn hit.place).filter fun slot => !isDirectory slot

def ReadCache.fill (name : Name) (slot : Slot) : ReadCache where
  valid := true
  path := name.take 99
  firstCluster := clusterOf slot
  fileSize := sizeOf slot
  resumeOffset := 0
  resumeCluster := clusterOf slot

/-- `fat32_read_at` once the cache is of the file. -/
def readCached (failing : Failing) (length offset : Nat) (cache : ReadCache) :
    Option (Option (List Byte)) × ReadCache :=
  if offset ≥ cache.fileSize then (some (some []), cache)
  else
    match fat32ReadFileAt disk failing cache (min length (cache.fileSize - offset)) offset with
    | none => (none, cache)
    | some (bytes, cache) => (some (some bytes), cache)

def fat32ReadAt (disk : Disk) (failing : Failing) (name : Name)
    (length offset : Nat) (cache : ReadCache) : Option (Option (List Byte)) × ReadCache :=
  if cache.valid ∧ name = cache.path then readCached disk failing length offset cache
  else
    match fileEntry disk fuel name with
    | none => (none, cache)
    | some none => (some none, cache)
    | some (some slot) => readCached disk failing length offset (.fill name slot)

/-- The file name of a message: 99 bytes at most, up to the first zero, without the
slashes at its end. -/
def wireName (wire : Name) : Name := ((wire.take 99).takeWhile (· ≠ 0)).rdropWhile (· = slash)

inductive Request where
  | readAt (wire : Name) (length offset : Nat) (failing : Failing)
  | change (change : Change)

structure Server where
  machine : Machine
  cache : ReadCache

abbrev Reply := Option (Option (List Byte))

/-- Every operation that changes the volume drops the cache before anything else. The
replies of these are left out. -/
def serve (server : Server) : Request → Reply × Server
  | .readAt wire length offset failing =>
    let read := fat32ReadAt fuel server.machine.disk failing (wireName wire) length offset
      server.cache
    (read.1, { server with cache := read.2 })
  | .change request =>
    (some none, ⟨request.serve fuel server.machine, { server.cache with valid := false }⟩)

def clusterAt (link : Nat → Nat) : Nat → Nat → Nat
  | 0, cluster => cluster
  | links + 1, cluster =>
    if chainEnd cluster then cluster else clusterAt link links (link cluster)

def walkRead (failing : Failing) (firstCluster length offset : Nat) : Option (List Byte) :=
  (copyFrom disk failing (length + 2)
    (clusterAt (nextCluster disk failing) (offset / disk.clusterSize) firstCluster) 0
    (offset % disk.clusterSize) length).map (·.1)

/-- The read that the cursor is to be transparent for. -/
def plainReadAt (disk : Disk) (failing : Failing) (name : Name) (length offset : Nat) : Reply :=
  match fileEntry disk fuel name with
  | none => none
  | some none => some none
  | some (some slot) =>
    if offset ≥ sizeOf slot then some (some [])
    else
      (walkRead disk failing (clusterOf slot) (min length (sizeOf slot - offset)) offset).map
        some

def servePlain (machine : Machine) : Request → Reply × Machine
  | .readAt wire length offset failing =>
    (plainReadAt fuel machine.disk failing (wireName wire) length offset, machine)
  | .change request => (some none, request.serve fuel machine)

/-- A read that stops short of the last cluster below 4 GiB and meets no FAT sector of the
file that cannot be read. -/
def Readable (disk : Disk) : Request → Prop
  | .readAt wire _ offset failing =>
    ∀ slot, fileEntry disk fuel (wireName wire) = some (some slot) → offset < sizeOf slot →
      0 < disk.sectorsPerCluster ∧ offset + disk.clusterSize < 2 ^ 32 ∧
        ∀ links, failing.link (clusterAt disk.nextCluster links (clusterOf slot)) = false
  | .change _ => True

section Walks
variable {disk : Disk} {failing : Failing} {first : Nat}

theorem clusterAt_succ (link : Nat → Nat) (links cluster : Nat) :
    clusterAt link (links + 1) cluster =
      if chainEnd (clusterAt link links cluster) then clusterAt link links cluster
      else link (clusterAt link links cluster) := by
  induction links generalizing cluster with
  | zero => rfl
  | succ links ih =>
    by_cases stopped : chainEnd cluster = true
    · simp [clusterAt, stopped]
    · rw [clusterAt, if_neg stopped, ih, clusterAt, if_neg stopped]

theorem clusterAt_stays {link : Nat → Nat} {few many cluster : Nat} (le : few ≤ many)
    (stopped : chainEnd (clusterAt link few cluster) = true) :
    clusterAt link many cluster = clusterAt link few cluster := by
  obtain ⟨more, rfl⟩ := Nat.exists_eq_add_of_le le
  clear le
  induction more with
  | zero => rfl
  | succ more ih => rw [← Nat.add_assoc, clusterAt_succ, ih, if_pos stopped]

/-- The FAT entries of the file that starts at `first` can be read. -/
def LinksRead (disk : Disk) (failing : Failing) (first : Nat) : Prop :=
  ∀ links, failing.link (clusterAt disk.nextCluster links first) = false

section
variable (links : LinksRead disk failing first)
include links

theorem LinksRead.clusterAt_eq (k : Nat) :
    clusterAt (nextCluster disk failing) k first = clusterAt disk.nextCluster k first := by
  induction k with
  | zero => rfl
  | succ k ih =>
    have same : nextCluster disk failing (clusterAt disk.nextCluster k first) =
        disk.nextCluster (clusterAt disk.nextCluster k first) := by
      simp [nextCluster, links k]
    rw [clusterAt_succ, clusterAt_succ, ih, same]

theorem LinksRead.next {k : Nat} (on : chainEnd (clusterAt disk.nextCluster k first) = false) :
    nextCluster disk failing (clusterAt disk.nextCluster k first) =
      clusterAt disk.nextCluster (k + 1) first := by
  rw [clusterAt_succ, on]
  simp [nextCluster, links k]

/-- The skipping loop comes to the cluster of the offset, or to the end in front of it. -/
theorem skipTo_finds {offset k fuel : Nat} (size : 0 < disk.clusterSize)
    (below : offset + disk.clusterSize < 2 ^ 32) (here : k * disk.clusterSize ≤ offset)
    (enough : offset / disk.clusterSize < k + fuel) :
    ∃ found, skipTo disk failing offset fuel (clusterAt disk.nextCluster k first)
        (k * disk.clusterSize) =
          some (clusterAt disk.nextCluster found first, found * disk.clusterSize) ∧
      found * disk.clusterSize ≤ offset ∧
      (found = offset / disk.clusterSize ∨
        chainEnd (clusterAt disk.nextCluster found first) = true) := by
  induction fuel generalizing k with
  | zero =>
    have before := (Nat.le_div_iff_mul_le size).mpr here
    omega
  | succ fuel ih =>
    have behind : (k * disk.clusterSize + disk.clusterSize) % 2 ^ 32 =
        (k + 1) * disk.clusterSize := by
      rw [Nat.mod_eq_of_lt (by omega), Nat.add_mul, Nat.one_mul]
    rw [skipTo]
    simp only [behind]
    by_cases further : (k + 1) * disk.clusterSize ≤ offset
    · cases stopped : chainEnd (clusterAt disk.nextCluster k first) with
      | true => exact ⟨k, by simp, here, .inr stopped⟩
      | false =>
        rw [if_pos (by simp [further]), links.next stopped]
        exact ih further (by omega)
    · refine ⟨k, by simp [further], here, .inl ?_⟩
      have upper : offset / disk.clusterSize < k + 1 :=
        (Nat.div_lt_iff_lt_mul size).mpr (Nat.lt_of_not_le further)
      have lower := (Nat.le_div_iff_mul_le size).mpr here
      omega

end

theorem bytesOf_length (disk : Disk) (cluster start length : Nat) :
    (disk.bytesOf cluster start length).length = length := by
  simp [Disk.bytesOf]

/-- A cluster read without a failure is read to its end or as far as was asked. -/
theorem readSectors_length {cluster left sector skip length : Nat} (inside : skip < sectorSize)
    (read : (readSectors disk failing cluster left sector skip length).2 = true) :
    (readSectors disk failing cluster left sector skip length).1.length =
      min length (left * sectorSize - skip) := by
  induction left generalizing sector skip length with
  | zero => simp [readSectors]
  | succ left ih =>
    rw [readSectors] at read ⊢
    by_cases none : length = 0
    · simp [none]
    · rw [if_neg none] at read ⊢
      by_cases bad : failing.sector cluster sector = true
      · simp [bad] at read
      · rw [if_neg bad] at read ⊢
        have rest := ih (by decide) read
        simp only [List.length_append, bytesOf_length]
        have more : (left + 1) * sectorSize = left * sectorSize + sectorSize := by
          rw [Nat.add_mul, Nat.one_mul]
        omega

theorem copyFrom_bytes (fuel cluster clusterStart other within length : Nat) :
    (copyFrom disk failing fuel cluster clusterStart within length).map (·.1) =
      (copyFrom disk failing fuel cluster other within length).map (·.1) := by
  induction fuel generalizing cluster clusterStart other within length with
  | zero => rfl
  | succ fuel ih =>
    rw [copyFrom, copyFrom]
    split
    · rfl
    · simp only
      split
      · rfl
      · rw [Option.map_map, Option.map_map]
        have later := ih (nextCluster disk failing cluster)
          ((clusterStart + disk.clusterSize) % 2 ^ 32) ((other + disk.clusterSize) % 2 ^ 32) 0
          (length - (readSectors disk failing cluster
            (disk.sectorsPerCluster - within / sectorSize) (within / sectorSize)
            (within % sectorSize) length).1.length)
        have prepended := congrArg (Option.map fun bytes => (readSectors disk failing cluster
            (disk.sectorsPerCluster - within / sectorSize) (within / sectorSize)
            (within % sectorSize) length).1 ++ bytes) later
        rw [Option.map_map, Option.map_map] at prepended
        exact prepended

/-- The copying loop returns, and leaves the cursor at a cluster of the chain. -/
theorem copyFrom_cursor (links : LinksRead disk failing first) {fuel k within length : Nat}
    (inside : chainEnd (clusterAt disk.nextCluster k first) = false → within < disk.clusterSize)
    (below : k * disk.clusterSize + within + length < 2 ^ 32) (enough : length < fuel) :
    ∃ bytes found, copyFrom disk failing fuel (clusterAt disk.nextCluster k first)
        (k * disk.clusterSize) within length =
      some (bytes, clusterAt disk.nextCluster found first, found * disk.clusterSize) := by
  induction fuel generalizing k within length with
  | zero => omega
  | succ fuel ih =>
    rw [copyFrom]
    cases stopped : chainEnd (clusterAt disk.nextCluster k first) with
    | true => exact ⟨[], k, by simp⟩
    | false =>
      by_cases none : length = 0
      · exact ⟨[], k, by simp [none]⟩
      · have within_lt := inside stopped
        rw [if_neg (by simp [none])]
        simp only
        split
        · exact ⟨_, k, rfl⟩
        · next goes =>
            simp only [Bool.or_eq_true, Bool.not_eq_true', decide_eq_true_eq, not_or,
              Bool.not_eq_false] at goes
            have read := readSectors_length (Nat.mod_lt within (by decide)) goes.1
            have spots : (disk.sectorsPerCluster - within / sectorSize) * sectorSize -
                within % sectorSize = disk.clusterSize - within := by
              have split := Nat.div_add_mod within sectorSize
              rw [Nat.sub_mul, Nat.mul_comm (within / sectorSize)]
              unfold Disk.clusterSize
              omega
            generalize readSectors disk failing (clusterAt disk.nextCluster k first)
              (disk.sectorsPerCluster - within / sectorSize) (within / sectorSize)
              (within % sectorSize) length = chunk at goes read ⊢
            have next : (k * disk.clusterSize + disk.clusterSize) % 2 ^ 32 =
                (k + 1) * disk.clusterSize := by
              rw [Nat.mod_eq_of_lt (by omega), Nat.add_mul, Nat.one_mul]
            obtain ⟨bytes, found, copied⟩ := @ih (k + 1) 0 (length - chunk.1.length)
              (fun _ => by omega) (by omega) (by omega)
            rw [next, links.next stopped, copied]
            exact ⟨_, found, rfl⟩

end Walks

def Sound (fuel : Nat) (disk : Disk) (cache : ReadCache) : Prop :=
  cache.valid = true →
    ∃ slot, fileEntry disk fuel cache.path = some (some slot) ∧
      cache.firstCluster = clusterOf slot ∧ cache.fileSize = sizeOf slot ∧
      ∃ links, cache.resumeOffset = links * disk.clusterSize ∧
        cache.resumeCluster = clusterAt disk.nextCluster links (clusterOf slot)

theorem wireName_length (wire : Name) : (wireName wire).length ≤ 99 := by
  have stripped := (List.rdropWhile_prefix (fun c => decide (c = slash))
    (l := (wire.take 99).takeWhile (· ≠ 0))).length_le
  have terminated := (List.takeWhile_prefix (fun c => decide (c ≠ 0)) (l := wire.take 99)).length_le
  have cut := List.length_take_le 99 wire
  exact (stripped.trans terminated).trans cut

theorem sizeOf_lt (slot : Slot) : sizeOf slot < 2 ^ 32 := (uintAt slot 0x1C).isLt

section Reads
variable {fuel : Nat} {disk : Disk} {failing : Failing} {cache : ReadCache}

/-- A read from a sound cursor gives what a walk from the first cluster does. -/
theorem readFileAt_walks {slot : Slot} (length : Nat) {offset links : Nat}
    (size : 0 < disk.sectorsPerCluster) (below : offset + disk.clusterSize < 2 ^ 32)
    (readable : LinksRead disk failing (clusterOf slot)) (fits : offset + length < 2 ^ 32)
    (first : cache.firstCluster = clusterOf slot)
    (resume : cache.resumeOffset = links * disk.clusterSize)
    (cursor : cache.resumeCluster = clusterAt disk.nextCluster links (clusterOf slot)) :
    ∃ bytes found, walkRead disk failing (clusterOf slot) length offset = some bytes ∧
      fat32ReadFileAt disk failing cache length offset =
        some (bytes, { cache with
          resumeCluster := clusterAt disk.nextCluster found (clusterOf slot)
          resumeOffset := found * disk.clusterSize }) := by
  have clusterSize : 0 < disk.clusterSize := Nat.mul_pos size (by decide)
  have started : ∃ k, k * disk.clusterSize ≤ offset ∧
      (if offset ≥ cache.resumeOffset then (cache.resumeCluster, cache.resumeOffset)
        else (cache.firstCluster, 0)) =
        (clusterAt disk.nextCluster k (clusterOf slot), k * disk.clusterSize) := by
    by_cases resumes : offset ≥ cache.resumeOffset
    · exact ⟨links, resume ▸ resumes, by rw [if_pos resumes, cursor, resume]⟩
    · exact ⟨0, by omega, by rw [if_neg resumes, first, Nat.zero_mul]; rfl⟩
  obtain ⟨k, here, start⟩ := started
  obtain ⟨found, skipped, before, reached⟩ :=
    skipTo_finds readable clusterSize below here
      (show offset / disk.clusterSize < k + (offset / disk.clusterSize + 2) by omega)
  have inside : chainEnd (clusterAt disk.nextCluster found (clusterOf slot)) = false →
      offset - found * disk.clusterSize < disk.clusterSize := by
    intro on
    rcases reached with rfl | stopped
    · have split := Nat.div_add_mod offset disk.clusterSize
      have rest := Nat.mod_lt offset clusterSize
      rw [Nat.mul_comm] at split
      omega
    · rw [on] at stopped
      cases stopped
  obtain ⟨bytes, last, copied⟩ := copyFrom_cursor readable inside
    (show found * disk.clusterSize + (offset - found * disk.clusterSize) + length < 2 ^ 32 by omega)
    (show length < length + 2 by omega)
  refine ⟨bytes, last, ?_, ?_⟩
  · rw [walkRead, readable.clusterAt_eq]
    rcases reached with rfl | stopped
    · have rest : offset - offset / disk.clusterSize * disk.clusterSize =
          offset % disk.clusterSize := by
        have split := Nat.div_add_mod offset disk.clusterSize
        rw [Nat.mul_comm] at split
        omega
      rw [← rest, copyFrom_bytes _ _ 0 (offset / disk.clusterSize * disk.clusterSize), copied]
      rfl
    · have later := (Nat.le_div_iff_mul_le clusterSize).mpr before
      rw [clusterAt_stays later stopped]
      rw [copyFrom] at copied ⊢
      simp only [stopped, Bool.true_or, if_true, Option.some.injEq, Prod.mk.injEq] at copied ⊢
      rw [← copied.1]
      rfl
  · simp only [fat32ReadFileAt, start, skipped, Option.bind_some, copied, Option.map_some]

theorem readCached_walks {slot : Slot} {length offset : Nat}
    (entry : fileEntry disk fuel cache.path = some (some slot)) (valid : cache.valid = true)
    (sound : Sound fuel disk cache)
    (readable : offset < sizeOf slot → 0 < disk.sectorsPerCluster ∧
      offset + disk.clusterSize < 2 ^ 32 ∧ LinksRead disk failing (clusterOf slot)) :
    (readCached disk failing length offset cache).1 =
        (if offset ≥ sizeOf slot then some (some [])
        else (walkRead disk failing (clusterOf slot) (min length (sizeOf slot - offset)) offset).map
          some) ∧
      Sound fuel disk (readCached disk failing length offset cache).2 := by
  obtain ⟨other, entry', first, size, links, resume, cursor⟩ := sound valid
  obtain rfl : other = slot := by
    rw [entry] at entry'
    exact (Option.some.inj (Option.some.inj entry')).symm
  rw [readCached, size]
  by_cases past : offset ≥ sizeOf other
  · rw [if_pos past, if_pos past]
    exact ⟨rfl, sound⟩
  · rw [if_neg past, if_neg past]
    obtain ⟨sectors, below, linksRead⟩ := readable (Nat.lt_of_not_le past)
    have small := sizeOf_lt other
    obtain ⟨bytes, found, walked, read⟩ :=
      readFileAt_walks (min length (sizeOf other - offset)) sectors below linksRead (by omega)
        first resume cursor
    rw [read, walked]
    exact ⟨rfl, fun _ => ⟨other, entry, first, size, found, rfl, rfl⟩⟩

theorem fat32ReadAt_walks {name : Name} (length : Nat) {offset : Nat} (short : name.length ≤ 99)
    (sound : Sound fuel disk cache)
    (readable : ∀ slot, fileEntry disk fuel name = some (some slot) → offset < sizeOf slot →
      0 < disk.sectorsPerCluster ∧ offset + disk.clusterSize < 2 ^ 32 ∧
        LinksRead disk failing (clusterOf slot)) :
    (fat32ReadAt fuel disk failing name length offset cache).1 =
        plainReadAt fuel disk failing name length offset ∧
      Sound fuel disk (fat32ReadAt fuel disk failing name length offset cache).2 := by
  rw [fat32ReadAt, plainReadAt]
  by_cases hit : cache.valid = true ∧ name = cache.path
  · rw [if_pos hit]
    obtain ⟨valid, rfl⟩ := hit
    obtain ⟨slot, entry, -⟩ := sound valid
    simp only [entry]
    exact readCached_walks entry valid sound (readable slot entry)
  · rw [if_neg hit]
    cases entry : fileEntry disk fuel name with
    | none => exact ⟨rfl, sound⟩
    | some found =>
      cases found with
      | none => exact ⟨rfl, sound⟩
      | some slot =>
        have whole : (ReadCache.fill name slot).path = name := List.take_of_length_le short
        have filled : Sound fuel disk (.fill name slot) := fun _ =>
          ⟨slot, by rw [whole, entry], rfl, rfl, 0, by simp [ReadCache.fill], rfl⟩
        exact readCached_walks (by rw [whole, entry]) rfl filled (readable slot entry)

end Reads

theorem cursor_keeps (fuel : Nat) :
    Keeps (serve fuel) (servePlain fuel)
      (fun server request => Readable fuel server.machine.disk request)
      (fun server machine => server.machine = machine ∧
        Sound fuel server.machine.disk server.cache) := by
  rintro server machine request ⟨rfl, sound⟩ readable
  cases request with
  | readAt wire length offset failing =>
    have read := fat32ReadAt_walks length (wireName_length wire) sound readable
    exact ⟨read.1, rfl, read.2⟩
  | change request => exact ⟨rfl, rfl, by rintro ⟨⟩⟩

/-- Over every sequence of reads and changes the server with the cursor answers as the one
that walks from the first cluster, as long as every read is `Readable`. -/
theorem resume_cursor_transparent (fuel : Nat) (server : Server) (requests : List Request)
    (cold : server.cache.valid = false)
    (readable : Admitted (serve fuel)
      (fun server request => Readable fuel server.machine.disk request) server requests) :
    replies (serve fuel) server requests = replies (servePlain fuel) server.machine requests := by
  have sound : Sound fuel server.machine.disk server.cache := by
    intro valid
    rw [cold] at valid
    cases valid
  exact (cursor_keeps fuel).replies_eq server server.machine requests ⟨rfl, sound⟩ readable

def allRead : Failing := ⟨fun _ => false, fun _ _ => false⟩

def coldCache : ReadCache := ⟨false, [], 0, 0, 0, 0⟩

/-- A root directory with the file "F": its clusters follow one another from cluster 3 to
`last`. -/
def oneFile (sectorsPerCluster last size : Nat) : Machine where
  disk :=
    { rootCluster := 2
      sectorsPerCluster := sectorsPerCluster
      totalClusters := last
      fat := fun cluster => if 3 ≤ cluster ∧ cluster < last then cluster + 1 else eocMin
      byteAt := fun cluster offset =>
        if cluster = 2 then
          if offset / direntSize = 0 then
            shortEntry (nameTo83 [0x46]) direntAttrArchive 3 size (fun _ => 0)
              (offset % direntSize)
          else 0
        else 0x41 }
  allocHint := 2
  protectedEntry := none
  reserved := fun _ => false
  written := []

theorem resume_cursor_transparent_small :
    replies (serve 5) ⟨oneFile 1 4 1000, coldCache⟩
        [.readAt [0x46] 600 0 allRead, .readAt [0x46] 10 700 allRead] =
      replies (servePlain 5) (oneFile 1 4 1000)
        [.readAt [0x46] 600 0 allRead, .readAt [0x46] 10 700 allRead] := by
  have readable : ∀ length offset, offset + 512 < 2 ^ 32 → ∀ disk : Disk,
      disk.sectorsPerCluster = 1 → Readable 5 disk (.readAt [0x46] length offset allRead) := by
    intro length offset below disk sectors slot _ _
    rw [Disk.clusterSize, sectors]
    exact ⟨Nat.one_pos, below, fun _ => rfl⟩
  exact resume_cursor_transparent 5 ⟨oneFile 1 4 1000, coldCache⟩ _ rfl
    ⟨readable _ _ (by decide) _ rfl, readable _ _ (by decide) _ rfl, trivial⟩

section LastCluster
variable {disk : Disk} {failing : Failing} {first clusters : Nat}

/-- The offset of the cluster behind it is 0 again, so the skipping loop passes the last
cluster of a chain of 4 GiB. -/
theorem skipTo_passes (links : LinksRead disk failing first)
    (whole : clusters * disk.clusterSize = 2 ^ 32)
    (live : ∀ k < clusters, chainEnd (clusterAt disk.nextCluster k first) = false)
    (ends : chainEnd (clusterAt disk.nextCluster clusters first) = true) {offset : Nat}
    (last : 2 ^ 32 ≤ offset + disk.clusterSize) (left : Nat) {k fuel : Nat}
    (here : k + left + 1 = clusters) (enough : left + 1 < fuel) :
    skipTo disk failing offset fuel (clusterAt disk.nextCluster k first) (k * disk.clusterSize) =
      some (clusterAt disk.nextCluster clusters first, 0) := by
  induction left generalizing k fuel with
  | zero =>
    obtain ⟨fuel, rfl⟩ : ∃ smaller, fuel = smaller + 2 := ⟨fuel - 2, by omega⟩
    have behind : (k * disk.clusterSize + disk.clusterSize) % 2 ^ 32 = 0 := by
      rw [← Nat.succ_mul, show k.succ = clusters from here, whole, Nat.mod_self]
    rw [skipTo]
    simp only [behind]
    rw [if_pos (by simp [live k (by omega)]), links.next (live k (by omega)),
      show k + 1 = clusters from here, skipTo]
    simp [ends]
  | succ left ih =>
    obtain ⟨fuel, rfl⟩ : ∃ smaller, fuel = smaller + 1 := ⟨fuel - 1, by omega⟩
    have before : (k + 1) * disk.clusterSize + disk.clusterSize ≤ 2 ^ 32 := by
      rw [← Nat.succ_mul, ← whole]
      exact Nat.mul_le_mul_right _ (by omega)
    have sum : k * disk.clusterSize + disk.clusterSize = (k + 1) * disk.clusterSize :=
      (Nat.succ_mul _ _).symm
    have positive : 0 < disk.clusterSize := by
      rcases Nat.eq_zero_or_pos disk.clusterSize with none | some
      · rw [none] at whole
        cases whole
      · exact some
    have behind : (k * disk.clusterSize + disk.clusterSize) % 2 ^ 32 =
        (k + 1) * disk.clusterSize := by rw [sum, Nat.mod_eq_of_lt (by omega)]
    have further : (k + 1) * disk.clusterSize ≤ offset := by omega
    rw [skipTo]
    simp only [behind]
    rw [if_pos (by simp [further, live k (by omega)]), links.next (live k (by omega))]
    exact ih (by omega) (by omega)

/-- A read that begins there gives nothing and leaves the cursor at the end of the chain,
for offset 0. -/
theorem last_cluster_lost (links : LinksRead disk failing first)
    (whole : clusters * disk.clusterSize = 2 ^ 32)
    (live : ∀ k < clusters, chainEnd (clusterAt disk.nextCluster k first) = false)
    (ends : chainEnd (clusterAt disk.nextCluster clusters first) = true) {cache : ReadCache}
    (fresh : cache.resumeOffset = 0) (start : cache.resumeCluster = first) (length : Nat)
    {offset : Nat} (last : 2 ^ 32 ≤ offset + disk.clusterSize) (below : offset < 2 ^ 32) :
    fat32ReadFileAt disk failing cache length offset =
      some ([], { cache with
        resumeCluster := clusterAt disk.nextCluster clusters first, resumeOffset := 0 }) := by
  have positive : 0 < disk.clusterSize := by omega
  have count : offset / disk.clusterSize + 1 = clusters := by
    have above : clusters - 1 ≤ offset / disk.clusterSize := by
      rw [Nat.le_div_iff_mul_le positive, Nat.sub_mul]
      omega
    have under : offset / disk.clusterSize < clusters := by
      rw [Nat.div_lt_iff_lt_mul positive, whole]
      exact below
    omega
  have skipped := skipTo_passes links whole live ends last (offset / disk.clusterSize)
    (show 0 + offset / disk.clusterSize + 1 = clusters by omega)
    (show offset / disk.clusterSize + 1 < offset / disk.clusterSize + 2 by omega)
  rw [Nat.zero_mul] at skipped
  have started : (if offset ≥ cache.resumeOffset then (cache.resumeCluster, cache.resumeOffset)
      else (cache.firstCluster, 0)) = (clusterAt disk.nextCluster 0 first, 0) := by
    rw [fresh, start]
    rfl
  simp only [fat32ReadFileAt, started, skipped, Option.bind_some, copyFrom, ends, Bool.true_or,
    if_true, Option.map_some]

end LastCluster

def bigFile : Machine := oneFile 128 65538 (2 ^ 32 - 1)

theorem bigFile_chain (k : Nat) (inside : k < 65536) :
    clusterAt bigFile.disk.nextCluster k 3 = 3 + k := by
  induction k with
  | zero => rfl
  | succ k ih =>
    have before := ih (by omega)
    have live : chainEnd (3 + k) = false := by
      simp [chainEnd, eocMin]
      omega
    rw [clusterAt_succ, before, live]
    have link : bigFile.disk.nextCluster (3 + k) = 3 + k + 1 := by
      have stored : bigFile.disk.fat (3 + k) = 3 + k + 1 := if_pos (by omega)
      rw [Disk.nextCluster, linkIn, stored, entryMod, Nat.mod_eq_of_lt (by omega)]
    exact link

theorem bigFile_entry :
    fileEntry bigFile.disk 5 [0x46] = some (some (bigFile.disk.slotIn (2, 0))) := by
  have dir : bigFile.disk.resolveDir 5 [0x46] = some (some 2) := by decide
  have found : bigFile.disk.lookup 5 2 (leafName [0x46]) true =
      some (some ⟨nameTo83 [0x46], (2, 0), none⟩) := by decide
  have plain : isDirectory (bigFile.disk.slotIn (2, 0)) = false := by decide
  simp only [fileEntry, dir, found]
  simp [plain]

theorem readCached_some {disk : Disk} {failing : Failing} {cache after : ReadCache}
    {length offset : Nat} {bytes : List Byte} (inside : offset < cache.fileSize)
    (read : fat32ReadFileAt disk failing cache (min length (cache.fileSize - offset)) offset =
      some (bytes, after)) :
    readCached disk failing length offset cache = (some (some bytes), after) := by
  rw [readCached, if_neg (Nat.not_le.mpr inside), read]

def bigCache : ReadCache := .fill [0x46] (bigFile.disk.slotIn (2, 0))

def bigCacheEnded : ReadCache := { bigCache with resumeCluster := eocMin, resumeOffset := 0 }

theorem bigFile_size : sizeOf (bigFile.disk.slotIn (2, 0)) = 2 ^ 32 - 1 := by decide

theorem bigFile_first : clusterOf (bigFile.disk.slotIn (2, 0)) = 3 := by decide

theorem bigFile_lost :
    fat32ReadFileAt bigFile.disk allRead bigCache 1 (2 ^ 32 - 2 ^ 16) =
      some ([], bigCacheEnded) := by
  have live : ∀ k < 65536, chainEnd (clusterAt bigFile.disk.nextCluster k 3) = false := by
    intro k inside
    rw [bigFile_chain k inside]
    simp [chainEnd, eocMin]
    omega
  have last : clusterAt bigFile.disk.nextCluster 65536 3 = eocMin := by
    rw [clusterAt_succ, bigFile_chain 65535 (by decide)]
    decide
  have lost := @last_cluster_lost bigFile.disk allRead 3 65536 (fun _ => rfl) (by decide) live
    (by rw [last]; decide) bigCache rfl bigFile_first 1 (2 ^ 32 - 2 ^ 16) (by decide) (by decide)
  rw [last] at lost
  exact lost

theorem bigFile_walked (offset k : Nat) (inside : k < 65536) (aligned : offset = k * 65536) :
    walkRead bigFile.disk allRead 3 1 offset = some [0x41] := by
  have links : LinksRead bigFile.disk allRead 3 := fun _ => rfl
  have size : bigFile.disk.clusterSize = 65536 := by decide
  rw [walkRead, size, aligned, Nat.mul_div_cancel _ (by decide), links.clusterAt_eq, bigFile_chain k inside]
  have live : chainEnd (3 + k) = false := by
    simp [chainEnd, eocMin]
    omega
  have data : bigFile.disk.byteAt (3 + k) 0 = 0x41 := if_neg (by omega)
  have sectors : bigFile.disk.sectorsPerCluster = 127 + 1 := rfl
  simp [copyFrom, live, sectors, readSectors, allRead, Disk.bytesOf, data, sectorSize]

/-- The last cluster of the file reads as empty, and after that the whole file does. -/
theorem cursor_loses_last_cluster :
    replies (serve 5) ⟨bigFile, coldCache⟩
        [.readAt [0x46] 1 (2 ^ 32 - 2 ^ 16) allRead, .readAt [0x46] 1 0 allRead] =
      [some (some []), some (some [])] ∧
    replies (servePlain 5) bigFile
        [.readAt [0x46] 1 (2 ^ 32 - 2 ^ 16) allRead, .readAt [0x46] 1 0 allRead] =
      [some (some [0x41]), some (some [0x41])] := by
  have name : wireName [0x46] = [0x46] := by decide
  have size : bigCache.fileSize = 2 ^ 32 - 1 := bigFile_size
  have again : fat32ReadFileAt bigFile.disk allRead bigCacheEnded 1 0 =
      some ([], bigCacheEnded) := by decide
  have missed : fat32ReadAt 5 bigFile.disk allRead [0x46] 1 (2 ^ 32 - 2 ^ 16) coldCache =
      (some (some []), bigCacheEnded) := by
    have filled : fat32ReadAt 5 bigFile.disk allRead [0x46] 1 (2 ^ 32 - 2 ^ 16) coldCache =
        readCached bigFile.disk allRead 1 (2 ^ 32 - 2 ^ 16) bigCache := by
      simp only [fat32ReadAt, coldCache, Bool.false_eq_true, false_and, if_false, bigFile_entry,
        bigCache]
    rw [filled]
    apply readCached_some
    · decide
    · rw [size]
      exact bigFile_lost
  have hit : fat32ReadAt 5 bigFile.disk allRead [0x46] 1 0 bigCacheEnded =
      (some (some []), bigCacheEnded) := by
    have cached : fat32ReadAt 5 bigFile.disk allRead [0x46] 1 0 bigCacheEnded =
        readCached bigFile.disk allRead 1 0 bigCacheEnded := if_pos ⟨rfl, rfl⟩
    rw [cached]
    apply readCached_some
    · decide
    · exact again
  have plain : ∀ offset k, k < 65536 → offset = k * 65536 → offset < 2 ^ 32 - 1 →
      plainReadAt 5 bigFile.disk allRead [0x46] 1 offset = some (some [0x41]) := by
    intro offset k inside aligned below
    have one : min 1 (2 ^ 32 - 1 - offset) = 1 := by omega
    simp only [plainReadAt, bigFile_entry, bigFile_size, bigFile_first, one]
    rw [if_neg (by omega), bigFile_walked offset k inside aligned]
    rfl
  constructor
  · simp only [replies, serve, name, missed, hit]
  · simp only [replies, servePlain, name]
    rw [plain (2 ^ 32 - 2 ^ 16) 65535 (by decide) (by decide) (by decide),
      plain 0 0 (by decide) (by decide) (by decide)]

end Racccoon.Fat32.Cursor
