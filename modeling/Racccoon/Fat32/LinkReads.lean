import Racccoon.Lib.Run
import Racccoon.Fat32.Clusters

/-!
Writing into a file while sectors fail to be read. `fat32_write_file` and
`fat32_write_file_at` go from cluster to cluster with `fat32_next_cluster`, which takes a
FAT sector it cannot read for the end of the chain. Each call of `fs_read_sector` fails or
not as `fails` says of its number. A write of a sector fails in a reserved cluster only.

The FAT is its copy 0, which the cached sector agrees with; the other copies matter by the
reads their updates take.
-/

namespace Racccoon.Fat32.LinkReads
open Function (update update_self update_of_ne)

/-- `mirrors` is the number of FAT copies behind copy 0. -/
structure Device where
  machine : Machine
  mirrors : Nat
  cached : Option Nat
  reads : Nat
  fails : Nat → Bool

namespace Device

variable (device : Device)

def readSector : Bool × Device :=
  (!device.fails device.reads, { device with reads := device.reads + 1 })

/-- `fat32_fat_sector` -/
def fatSector (rel : Nat) : Bool × Device :=
  if device.cached = some rel then (true, device)
  else
    let (found, device) := device.readSector
    (found, { device with cached := if found then some rel else none })

def link : Nat → Nat := device.machine.disk.nextCluster

def putEntry (cluster value : Nat) : Device :=
  { device with machine := device.machine.putFatEntry cluster value }

def setHint (cluster : Nat) : Device :=
  { device with machine := { device.machine with allocHint := cluster } }

end Device

def nextCluster (cluster : Nat) (device : Device) : Nat × Device :=
  let (found, after) := device.fatSector (cluster / fatEntriesPerSector)
  (if found then device.link cluster else eocMin, after)

def readCopies : Nat → Device → Bool × Device
  | 0, device => (true, device)
  | left + 1, device =>
    match device.readSector with
    | (false, device) => (false, device)
    | (true, device) => readCopies left device

def writeFatEntry (cluster value : Nat) (device : Device) : Bool × Device :=
  match device.readSector with
  | (false, device) => (false, device)
  | (true, device) => readCopies device.mirrors (device.putEntry cluster value)

/-- The scan of `fat32_alloc_cluster`. The count of free clusters is written with one more
read, whose failure is passed over. -/
def allocFrom : List Nat → Device → Option Nat × Device
  | [], device => (none, device)
  | cluster :: rest, device =>
    match nextCluster cluster device with
    | (0, device) =>
      match writeFatEntry cluster eocMin device with
      | (false, device) => (none, device)
      | (true, device) =>
        (some cluster, device.readSector.2.setHint (cluster + 1))
    | (_ + 1, device) => allocFrom rest device

def allocCluster (device : Device) : Option Nat × Device := allocFrom device.machine.rover device

/-- The cluster behind `cluster`, a new one where the chain seems to end. -/
def nextOrNew (cluster : Nat) (device : Device) : Option Nat × Device :=
  match nextCluster cluster device with
  | (next, device) =>
    if next < eocMin then (some next, device)
    else
      match allocCluster device with
      | (none, device) => (none, device)
      | (some new, device) =>
        match writeFatEntry cluster new device with
        | (false, device) => (none, device)
        | (true, device) =>
          match writeFatEntry new eocMin device with
          | (false, device) => (none, device)
          | (true, device) => (some new, device)

/-- The sectors of one cluster, `left` of them: what is left of `src`, and whether all
reads and writes succeeded. A sector that is not filled is read first. -/
def writeSectors (cluster : Nat) :
    Nat → Nat → Nat → List Byte → Device → List Byte × Bool × Device
  | 0, _, _, src, device => (src, true, device)
  | left + 1, sector, skip, src, device =>
    if src = [] then (src, true, device)
    else
      let chunk := src.take (sectorSize - skip)
      match (if chunk.length < sectorSize then device.readSector else (true, device)) with
      | (false, device) => (src, false, device)
      | (true, device) =>
        match writeSector cluster sector
          (putBytes cluster (sector * sectorSize + skip) chunk) device.machine with
        | (false, _) => (src, false, device)
        | (true, machine) =>
          writeSectors cluster left (sector + 1) 0 (src.drop (sectorSize - skip))
            { device with machine := machine }

/-- Where a call is: at the top of the walk to the offset, at the sectors of a cluster, or
on its way to the next cluster from one of these loops. -/
inductive Stage where
  | seeking (clusterStart : Nat)
  | copying (sector skip : Nat)
  | leaving (next : Stage)
  | returned

structure Call where
  device : Device
  cluster : Nat
  src : List Byte
  stage : Stage

def Call.start (device : Device) (firstCluster : Nat) (src : List Byte) : Option Nat → Call
  | none => ⟨device, firstCluster, src, .copying 0 0⟩
  | some _ => ⟨device, firstCluster, src, .seeking 0⟩

/-- One step of `fat32_write_file`, or of `fat32_write_file_at` with an offset. -/
def step (offset : Option Nat) (call : Call) (_ : Unit) : Option Call :=
  match call.stage with
  | .returned => none
  | .seeking clusterStart =>
    let offset := offset.getD 0
    let behind := (clusterStart + call.device.machine.disk.clusterSize) % 2 ^ 32
    if behind ≤ offset then some { call with stage := .leaving (.seeking behind) }
    else
      let inCluster := offset - clusterStart
      some { call with stage := .copying (inCluster / sectorSize) (inCluster % sectorSize) }
  | .copying sector skip =>
    let (src, stored, device) := writeSectors call.cluster
      (call.device.machine.disk.sectorsPerCluster - sector) sector skip call.src call.device
    some
      { call with
        device := device
        src := src
        stage := if stored = false ∨ src = [] then .returned else .leaving (.copying 0 0) }
  | .leaving next =>
    match nextOrNew call.cluster call.device with
    | (none, device) => some { call with device := device, stage := .returned }
    | (some cluster, device) =>
      some { call with device := device, cluster := cluster, stage := next }

def LinkRead (call : Call) (_ : Unit) : Prop :=
  match call.stage with
  | .leaving _ =>
    call.device.cached = some (call.cluster / fatEntriesPerSector) ∨
      call.device.fails call.device.reads = false ∨ eocMin ≤ call.device.link call.cluster
  | _ => True

def Chained (link : Nat → Nat) : Nat → List Nat → Prop
  | cluster, [] => eocMin ≤ cluster
  | cluster, first :: rest =>
    cluster = first ∧ 2 ≤ cluster ∧ cluster < eocMin ∧ Chained link (link cluster) rest

def LinksKept (before after : Device) : Prop :=
  ∀ cluster, before.link cluster ≠ 0 → before.link cluster < eocMin →
    after.link cluster = before.link cluster

section Steps
variable {device : Device} {cluster new value : Nat} {members : List Nat}

structure Same (before after : Device) : Prop where
  fat : after.machine.disk.fat = before.machine.disk.fat
  total : after.machine.disk.totalClusters = before.machine.disk.totalClusters

theorem Same.refl (device : Device) : Same device device := ⟨rfl, rfl⟩

theorem Same.trans {before middle after : Device} (first : Same before middle)
    (second : Same middle after) : Same before after :=
  ⟨second.fat.trans first.fat, second.total.trans first.total⟩

theorem Same.link {before after : Device} (same : Same before after) : after.link = before.link := by
  unfold Device.link Disk.nextCluster
  rw [same.fat]

theorem Same.putEntry {before after : Device} (same : Same before after) (cluster value : Nat) :
    Same (before.putEntry cluster value) (after.putEntry cluster value) := by
  refine ⟨?_, same.total⟩
  simp only [Device.putEntry, Machine.putFatEntry, same.fat]

theorem putEntry_link (device : Device) (cluster value : Nat) :
    (device.putEntry cluster value).link =
      update device.link cluster (value % entryMod) := by
  funext other
  by_cases same : other = cluster
  · subst same
    simp only [Device.link, Disk.nextCluster, linkIn, Device.putEntry,
      Machine.putFatEntry, update_self]
    have split := Nat.div_add_mod (device.machine.disk.fat other) entryMod
    rw [← Nat.eq_sub_of_add_eq split, Nat.mul_add_mod, Nat.mod_mod]
  · simp [Device.link, Disk.nextCluster, linkIn, Device.putEntry, Machine.putFatEntry, same]

theorem fatSector_same (rel : Nat) : Same device (device.fatSector rel).2 := by
  unfold Device.fatSector
  split
  · exact .refl device
  · exact ⟨rfl, rfl⟩

theorem nextCluster_same : Same device (nextCluster cluster device).2 := fatSector_same _

theorem nextCluster_link (cluster : Nat) (device : Device) :
    (nextCluster cluster device).1 = device.link cluster ∨
      (nextCluster cluster device).1 = eocMin := by
  unfold nextCluster
  dsimp only
  split
  · exact .inl rfl
  · exact .inr rfl

theorem nextCluster_read (read : device.cached = some (cluster / fatEntriesPerSector) ∨
    device.fails device.reads = false) :
    (nextCluster cluster device).1 = device.link cluster := by
  have found : (device.fatSector (cluster / fatEntriesPerSector)).1 = true := by
    unfold Device.fatSector
    split
    · rfl
    · next other => simpa [Device.readSector] using read.resolve_left other
  exact if_pos found

theorem Same.of_read {after : Device} {ok : Bool} (read : device.readSector = (ok, after)) :
    Same device after := by
  cases (Prod.mk.inj read).2
  exact ⟨rfl, rfl⟩

theorem readCopies_same (left : Nat) (device : Device) : Same device (readCopies left device).2 := by
  induction left generalizing device with
  | zero => exact .refl device
  | succ left ih =>
    rw [readCopies]
    split
    · next after read => exact .of_read read
    · next after read => exact (Same.of_read read).trans (ih after)

/-- The entry is written, or the update fails and leaves it alone. -/
theorem writeFatEntry_cases (cluster value : Nat) (device : Device) :
    (writeFatEntry cluster value device).1 = false ∧
        Same device (writeFatEntry cluster value device).2 ∨
      Same (device.putEntry cluster value) (writeFatEntry cluster value device).2 := by
  unfold writeFatEntry
  split
  · next after read => exact .inl ⟨rfl, .of_read read⟩
  · next after read =>
      exact .inr (((Same.of_read read).putEntry cluster value).trans (readCopies_same _ _))

/-- The allocation takes a free cluster, marks it as an end and may still fail; or it
changes nothing. -/
theorem allocFrom_cases (clusters : List Nat) (device : Device) :
    (allocFrom clusters device).1 = none ∧ Same device (allocFrom clusters device).2 ∨
      ∃ new ∈ clusters, device.link new = 0 ∧
        Same (device.putEntry new eocMin) (allocFrom clusters device).2 ∧
          ((allocFrom clusters device).1 = none ∨ (allocFrom clusters device).1 = some new) := by
  induction clusters generalizing device with
  | nil => exact .inl ⟨rfl, .refl device⟩
  | cons cluster rest ih =>
    have same := @nextCluster_same device cluster
    have value := nextCluster_link cluster device
    rw [allocFrom]
    split
    · next after read =>
        rw [read] at same value
        have free : device.link cluster = 0 :=
          (value.resolve_right (show ¬ 0 = eocMin by decide)).symm
        have wrote := writeFatEntry_cases cluster eocMin after
        split
        · next last stored =>
            rw [stored] at wrote
            rcases wrote with ⟨-, kept⟩ | put
            · exact .inl ⟨rfl, same.trans kept⟩
            · exact .inr ⟨cluster, List.mem_cons_self, free, (same.putEntry _ _).trans put,
                .inl rfl⟩
        · next last stored =>
            rw [stored] at wrote
            have put := wrote.resolve_left (by simp)
            refine .inr ⟨cluster, List.mem_cons_self, free, ?_, .inr rfl⟩
            exact ((same.putEntry _ _).trans put).trans ⟨rfl, rfl⟩
    · next next after read =>
        rw [read] at same
        rcases ih after with ⟨none, kept⟩ | ⟨new, among, free, put, result⟩
        · exact .inl ⟨none, same.trans kept⟩
        · rw [same.link] at free
          exact .inr ⟨new, List.mem_cons_of_mem _ among, free, (same.putEntry _ _).trans put,
            result⟩

theorem rover_bounds (member : cluster ∈ device.machine.rover) :
    2 ≤ cluster ∧ cluster < device.machine.disk.totalClusters + 2 := by
  unfold Machine.rover at member
  simp only [List.mem_append, List.mem_range'_1] at member
  split at member <;> omega

/-- The links after a step to the next cluster: as they were; or with a new cluster, which
stands alone or behind the last one. -/
theorem nextOrNew_cases (honest : eocMin ≤ (nextCluster cluster device).1 →
    eocMin ≤ device.link cluster) :
    (Same device (nextOrNew cluster device).2 ∧
      ∀ next, (nextOrNew cluster device).1 = some next →
        next = device.link cluster ∧ next < eocMin) ∨
    ∃ new, 2 ≤ new ∧ new < device.machine.disk.totalClusters + 2 ∧ device.link new = 0 ∧
      eocMin ≤ device.link cluster ∧
      (nextOrNew cluster device).2.machine.disk.totalClusters = device.machine.disk.totalClusters ∧
      ((nextOrNew cluster device).1 = none ∧
          (nextOrNew cluster device).2.link = update device.link new eocMin ∨
        (∀ next, (nextOrNew cluster device).1 = some next → next = new) ∧
          (nextOrNew cluster device).2.link =
            update (update device.link new eocMin) cluster
              (new % entryMod)) := by
  have same := @nextCluster_same device cluster
  have value := nextCluster_link cluster device
  unfold nextOrNew
  split
  next first after read =>
  rw [read] at same value honest
  split
  · next on =>
      refine .inl ⟨same, fun next found => ?_⟩
      cases found
      exact ⟨value.resolve_right (Nat.ne_of_lt on), on⟩
  · next ends =>
      have last := honest (Nat.not_lt.mp ends)
      have took := allocFrom_cases after.machine.rover after
      rw [same.link] at took
      split
      · next none full =>
          rw [allocCluster] at full
          rw [full] at took
          rcases took with ⟨-, kept⟩ | ⟨new, among, free, put, -⟩
          · exact .inl ⟨same.trans kept, nofun⟩
          · have bounds := rover_bounds among
            rw [same.total] at bounds
            refine .inr ⟨new, bounds.1, bounds.2, free, last, ?_, .inl ⟨rfl, ?_⟩⟩
            · exact put.total.trans same.total
            · rw [put.link, putEntry_link, same.link]
              rfl
      · next found marked got =>
          rw [allocCluster] at got
          rw [got] at took
          obtain ⟨new, among, free, put, result⟩ := took.resolve_left (by simp)
          cases result.resolve_left (by simp)
          have bounds := rover_bounds among
          rw [same.total] at bounds
          have apart : found ≠ cluster := by
            rintro rfl
            rw [free] at last
            exact absurd last (by decide)
          -- the new cluster is an end of chain before anything links to it
          have alone : marked.link = update device.link found eocMin := by
            rw [put.link, putEntry_link, same.link]
            rfl
          have total := put.total.trans same.total
          have linking := writeFatEntry_cases cluster found marked
          refine .inr ⟨found, bounds.1, bounds.2, free, last, ?_⟩
          split
          · next linked stored =>
              rw [stored] at linking
              rcases linking with ⟨-, kept⟩ | put
              · exact ⟨kept.total.trans total, .inl ⟨rfl, kept.link.trans alone⟩⟩
              · refine ⟨put.total.trans total, .inr ⟨nofun, ?_⟩⟩
                rw [put.link, putEntry_link, alone]
          · next linked stored =>
              rw [stored] at linking
              have put := linking.resolve_left (by simp)
              have behind : linked.link = update (update device.link found eocMin)
                  cluster (found % entryMod) := by
                rw [put.link, putEntry_link, alone]
              have marking := writeFatEntry_cases found eocMin linked
              have settled : Same linked (writeFatEntry found eocMin linked).2 ∨
                  Same (linked.putEntry found eocMin) (writeFatEntry found eocMin linked).2 :=
                marking.imp_left And.right
              have again : (writeFatEntry found eocMin linked).2.link = linked.link ∧
                  (writeFatEntry found eocMin linked).2.machine.disk.totalClusters =
                    device.machine.disk.totalClusters := by
                rcases settled with kept | put'
                · exact ⟨kept.link, (kept.total.trans put.total).trans total⟩
                · refine ⟨?_, (put'.total.trans put.total).trans total⟩
                  rw [put'.link, putEntry_link, behind]
                  exact Function.update_eq_self_iff.mpr (by simp [apart]; rfl)
              split
              · next done ended =>
                  rw [ended] at again
                  exact ⟨again.2, .inr ⟨nofun,
                    again.1.trans behind⟩⟩
              · next done ended =>
                  rw [ended] at again
                  exact ⟨again.2, .inr ⟨fun _ same => (Option.some.inj same).symm,
                    again.1.trans behind⟩⟩

theorem writeSector_same {sector : Nat} {bytes : Disk → Nat → Byte} {ok : Bool} {machine : Machine}
    (stored : writeSector cluster sector bytes device.machine = (ok, machine)) :
    Same device { device with machine := machine } := by
  unfold writeSector at stored
  split at stored <;> cases stored <;> exact ⟨rfl, rfl⟩

theorem writeSectors_same (cluster left sector skip : Nat) (src : List Byte) (device : Device) :
    Same device (writeSectors cluster left sector skip src device).2.2 := by
  induction left generalizing sector skip src device with
  | zero => exact .refl device
  | succ left ih =>
    rw [writeSectors]
    split
    · exact .refl device
    · dsimp only
      have read : Same device (if (src.take (sectorSize - skip)).length < sectorSize then
          device.readSector else (true, device)).2 := by
        split
        · exact ⟨rfl, rfl⟩
        · exact .refl device
      split
      · next after failed =>
          rw [failed] at read
          exact read
      · next after found =>
          rw [found] at read
          split
          · exact read
          · next machine stored =>
              exact ((show Same device after from read).trans (writeSector_same stored)).trans
                (ih ..)

end Steps

section Chains
variable {link : Nat → Nat} {first cluster new : Nat} {members : List Nat}

theorem Chained.member (chained : Chained link first members) (among : cluster ∈ members) :
    link cluster ≠ 0 ∧ (link cluster < eocMin → link cluster ∈ members) := by
  induction members generalizing first with
  | nil => simp at among
  | cons head rest ih =>
    obtain ⟨rfl, _, _, tail⟩ := chained
    rcases List.mem_cons.mp among with rfl | later
    · cases rest with
      | nil =>
        have ends : eocMin ≤ link cluster := tail
        exact ⟨fun zero => absurd ends (by rw [zero]; decide), fun on => absurd ends (by omega)⟩
      | cons second _ =>
        obtain ⟨rfl, far, _⟩ := tail
        exact ⟨by omega, fun _ => List.mem_cons_of_mem _ List.mem_cons_self⟩
    · exact ⟨(ih tail later).1, fun on => List.mem_cons_of_mem _ ((ih tail later).2 on)⟩

theorem Chained.congr {after : Nat → Nat} (chained : Chained link first members)
    (same : ∀ member ∈ members, after member = link member) : Chained after first members := by
  induction members generalizing first with
  | nil => exact chained
  | cons head rest ih =>
    obtain ⟨rfl, far, below, tail⟩ := chained
    refine ⟨rfl, far, below, ?_⟩
    rw [same _ List.mem_cons_self]
    exact ih tail fun member later => same member (List.mem_cons_of_mem _ later)

/-- A free cluster linked behind the last one makes the chain longer by it. -/
theorem Chained.extend (chained : Chained link first members) (among : cluster ∈ members)
    (last : eocMin ≤ link cluster) (free : link new = 0) (far : 2 ≤ new) (below : new < eocMin) :
    Chained (update (update link new eocMin) cluster new) first
      (members ++ [new]) := by
  have apart : new ≠ cluster := by
    rintro rfl
    exact (chained.member among).1 free
  induction members generalizing first with
  | nil => simp at among
  | cons head rest ih =>
    obtain ⟨rfl, far', below', tail⟩ := id chained
    refine ⟨rfl, far', below', ?_⟩
    by_cases here : first = cluster
    · subst here
      cases rest with
      | nil =>
        rw [update_self]
        exact ⟨rfl, far, below, by simp [Chained, apart]⟩
      | cons second _ => exact absurd tail.2.2.1 (Nat.not_lt.mpr last)
    · have used : first ≠ new := by
        rintro rfl
        exact (chained.member List.mem_cons_self).1 free
      rw [update_of_ne here, update_of_ne used]
      exact ih tail ((List.mem_cons.mp among).resolve_left (Ne.symm here))

end Chains

/-- The chain is there and may have grown at its end, no link was overwritten, and the call
is at a cluster of the chain. -/
structure Intact (before : Device) (first : Nat) (chain : List Nat) (call : Call) : Prop where
  kept : LinksKept before call.device
  total : call.device.machine.disk.totalClusters = before.machine.disk.totalClusters
  chained : ∃ new, Chained call.device.link first (chain ++ new) ∧
    (call.stage = .returned ∨ call.cluster ∈ chain ++ new)

section Runs
variable {before : Device} {first : Nat} {chain : List Nat} {offset : Option Nat} {call after : Call}

theorem Intact.same (intact : Intact before first chain call) (same : Same call.device after.device)
    (at_ : after.stage = .returned ∨ call.stage ≠ .returned ∧ after.cluster = call.cluster) :
    Intact before first chain after := by
  obtain ⟨new, chained, place⟩ := intact.chained
  refine ⟨?_, same.total.trans intact.total, new, ?_, ?_⟩
  · rw [LinksKept, same.link]
    exact intact.kept
  · rw [same.link]
    exact chained
  · rcases at_ with gone | ⟨running, cluster⟩
    · exact .inl gone
    · rw [cluster]
      exact .inr (place.resolve_left running)

theorem step_intact (fits : before.machine.disk.totalClusters + 2 ≤ eocMin)
    (intact : Intact before first chain call) (read : LinkRead call ())
    (stepped : step offset call () = some after) : Intact before first chain after := by
  unfold step at stepped
  split at stepped
  · cases stepped
  · next stage =>
      have running : call.stage ≠ .returned := by simp [stage]
      dsimp only at stepped
      split at stepped <;> cases stepped <;>
        exact intact.same (.refl _) (.inr ⟨running, rfl⟩)
  · next stage =>
      have running : call.stage ≠ .returned := by simp [stage]
      cases stepped
      exact intact.same (writeSectors_same ..) (.inr ⟨running, rfl⟩)
  · next stage =>
      have running : call.stage ≠ .returned := by simp [stage]
      obtain ⟨grown, chained, place⟩ := id intact.chained
      have among := place.resolve_left running
      simp only [LinkRead, stage] at read
      have honest : eocMin ≤ (nextCluster call.cluster call.device).1 →
          eocMin ≤ call.device.link call.cluster := by
        intro ends
        rcases read with held | found | last
        · rwa [nextCluster_read (.inl held)] at ends
        · rwa [nextCluster_read (.inr found)] at ends
        · exact last
      have outcome := nextOrNew_cases honest
      have reached : after.device = (nextOrNew call.cluster call.device).2 ∧
          (after.stage = .returned ∨
            (nextOrNew call.cluster call.device).1 = some after.cluster) := by
        split at stepped
        · next device none =>
            cases stepped
            exact ⟨(congrArg Prod.snd none).symm, .inl rfl⟩
        · next cluster device found =>
            cases stepped
            exact ⟨(congrArg Prod.snd found).symm, .inr (congrArg Prod.fst found)⟩
      rw [← reached.1] at outcome
      rcases outcome with ⟨same, next⟩ | ⟨new, far, inside, free, last, total, links⟩
      · refine ⟨?_, same.total.trans intact.total, grown, ?_, reached.2.imp_right fun found => ?_⟩
        · rw [LinksKept, same.link]
          exact intact.kept
        · rw [same.link]
          exact chained
        · obtain ⟨value, below⟩ := next _ found
          rw [value] at below ⊢
          exact (chained.member among).2 below
      · have below : new < eocMin := by
          rw [intact.total] at inside
          omega
        have used : ∀ cluster, call.device.link cluster ≠ 0 → cluster ≠ new := by
          rintro _ some rfl
          exact some free
        rcases links with ⟨none, links⟩ | ⟨next, links⟩
        · have gone := reached.2.resolve_right (by rw [none]; nofun)
          refine ⟨?_, total.trans intact.total, grown, ?_, .inl gone⟩
          · intro cluster some end_
            have kept := intact.kept cluster some end_
            rw [links, update_of_ne (used cluster (by rwa [kept]))]
            exact kept
          · rw [links]
            exact chained.congr fun member inside =>
              update_of_ne (used member (chained.member inside).1) _ _
        · rw [Nat.mod_eq_of_lt (Nat.lt_trans below (by decide))] at links
          refine ⟨?_, total.trans intact.total, grown ++ [new], ?_, reached.2.imp_right ?_⟩
          · intro cluster some end_
            have kept := intact.kept cluster some end_
            have other : cluster ≠ call.cluster := by
              rintro rfl
              omega
            rw [links, update_of_ne other,
              update_of_ne (used cluster (by rwa [kept]))]
            exact kept
          · rw [links, ← List.append_assoc]
            exact chained.extend among last free far below
          · intro found
            rw [next _ found]
            simp

end Runs

/-- Whatever sectors fail to be read while a file is written: as long as each link is read
that is not the end mark, no link is overwritten and the file's clusters are the old ones,
with some more behind their end. -/
theorem failed_reads_keep_chain (device : Device) (first : Nat) (chain : List Nat)
    (src : List Byte) (offset : Option Nat) (call : Call)
    (fits : device.machine.disk.totalClusters + 2 ≤ eocMin) (some : chain ≠ [])
    (chained : Chained device.link first chain)
    (run : Run.Reach (step offset) LinkRead (Call.start device first src offset) call) :
    LinksKept device call.device ∧
      ∃ new, Chained call.device.link first (chain ++ new) := by
  have intact : Intact device first chain call := by
    apply run.invariant (Intact device first chain)
    · have head : first ∈ chain := by
        obtain ⟨_, _, rfl⟩ := List.exists_cons_of_ne_nil some
        rw [chained.1]
        exact List.mem_cons_self
      cases offset <;>
        exact ⟨fun _ _ _ => rfl, rfl, [], by simpa [Call.start] using chained, by
          simp [Call.start, head]⟩
    · intro before _ after intact read stepped
      exact step_intact fits intact read stepped
  obtain ⟨new, linked, -⟩ := intact.chained
  exact ⟨intact.kept, new, linked⟩

/-- A file of the clusters 2 and 3, with 4 and 5 free; the first read of a call fails. -/
def spoiled : Device where
  machine :=
    { disk :=
        { rootCluster := 6
          sectorsPerCluster := 1
          totalClusters := 4
          fat := fun cluster => if cluster = 2 then 3 else if cluster = 3 then eocMin else 0
          byteAt := fun _ _ => 0 }
      allocHint := 2
      protectedEntry := none
      reserved := fun _ => false
      written := [] }
  mirrors := 1
  cached := none
  reads := 0
  fails := fun read => read = 0

def twoSectors : List Byte := List.replicate 1024 0

set_option maxRecDepth 4000 in
theorem failed_reads_keep_chain_end :
    ∃ call, Run.Reach (step none) LinkRead (Call.start spoiled 3 twoSectors none) call ∧
      call.device.link 3 = 4 ∧ LinksKept spoiled call.device := by
  have run : Run.Reach (step none) LinkRead (Call.start spoiled 3 twoSectors none) _ :=
    .next () (.next () .start trivial rfl) (.inr (.inr (by decide))) rfl
  exact ⟨_, run, by decide, (failed_reads_keep_chain spoiled 3 [3] twoSectors none _
    (by decide) (by decide) ⟨rfl, by decide, by decide, Nat.le_refl eocMin⟩ run).1⟩

set_option maxRecDepth 4000 in
/-- The link from 2 to 3 cannot be read once, and a new cluster takes the place of 3. -/
theorem failed_read_breaks_chain :
    ∃ call, Run.Reach (step none) (fun _ _ => True) (Call.start spoiled 2 twoSectors none) call ∧
      Chained spoiled.link 2 [2, 3] ∧ spoiled.link 2 = 3 ∧ call.device.link 2 = 4 ∧
      ¬ LinksKept spoiled call.device ∧ ¬ ∃ new, Chained call.device.link 2 ([2, 3] ++ new) := by
  have run : Run.Reach (step none) (fun _ _ => True) (Call.start spoiled 2 twoSectors none) _ :=
    .next () (.next () .start trivial rfl) trivial rfl
  refine ⟨_, run, ⟨rfl, by decide, by decide, rfl, by decide, by decide, Nat.le_refl eocMin⟩, rfl,
    by decide, ?_, ?_⟩
  · intro kept
    have same := kept 2 (by decide) (by decide)
    revert same
    decide
  · rintro ⟨new, -, -, -, next, -⟩
    revert next
    decide

end Racccoon.Fat32.LinkReads
