import Racccoon.Namespace.Ledger

/-!
Restarts and posted names. An instance is a pid and a generation; the supervisor's
reseat and `sys_srv_post` go by the pid alone, which another process may have been
given since the instance died.
-/

namespace Racccoon.Namespace

open Run

def replaceInstance (oldPid oldGeneration newPid newGeneration : Nat) (mount : Mount) : Mount :=
  if mount.serverPid ≠ 0 ∧ mount.serverPid = oldPid ∧ mount.serverGeneration = oldGeneration then
    { mount with serverPid := newPid, serverGeneration := newGeneration }
  else mount

variable (procsMax : Nat)

/-- One pass of the supervisor over a service changes, in the namespaces of the
processes there are, the entries that named the service's dead instance and no others;
where it does not respawn the service it changes none. -/
def restartExact (before : Kernel) (index : Nat) (after : Kernel) : Prop :=
  ∀ service ∈ before.services[index]?, ∀ fresh ∈ after.services[index]?,
    ∀ slot < procsMax, (before.procs slot).used →
      (after.procs slot).mounts = (before.procs slot).mounts.map
        (replaceInstance service.pid service.generation fresh.pid fresh.generation)

variable (kernel : Kernel)

def replacement (index : Nat) (fits : Bool) : Option (Nat × Nat) :=
  if fits then
    (unusedSlot procsMax (lowered kernel index)).map fun slot =>
      (slot + 1, ((kernel.procs slot).generation + 1) % 2 ^ 32)
  else none

/-- No live namespace holds an entry with the dead instance's pid that names another
instance (nor, once a generation has wrapped around, the replacement already). -/
def pidUnshared (index : Nat) (fits : Bool) : Prop :=
  ∀ service ∈ kernel.services[index]?, respawns procsMax kernel service → service.pid ≠ 0 →
    ∀ fresh ∈ replacement procsMax kernel index fits,
      ∀ slot < procsMax, (kernel.procs slot).used → ∀ mount ∈ (kernel.procs slot).mounts,
        mount.serverPid = service.pid → mount.serverGeneration = service.generation ∨
          (mount.serverPid, mount.serverGeneration) = fresh

def postedEntry (name : Text) : Option SrvEntry :=
  kernel.srvTable.find? fun entry => entry.pid ≠ 0 ∧ entry.name = name

/-- A post takes over a name held by a dead instance; of a name held by a live one
it is refused to whoever is neither root nor of the holder's uid. -/
def postExact (before : Kernel) (caller : Nat) (name : Text) (after : Kernel) : Prop :=
  ∀ entry ∈ postedEntry before name,
    (instances procsMax before entry.pid ≠ some entry.generation →
      (sysSrvPost procsMax before caller name).1 = 0) ∧
    (instances procsMax before entry.pid = some entry.generation →
      (before.procs caller).uid ≠ 0 →
      (∀ holder ∈ procByPid procsMax before entry.pid,
        (before.procs caller).uid ≠ (before.procs holder).uid) →
      (sysSrvPost procsMax before caller name).1 = -1 ∧ after = before)

def holderGone (caller : Nat) (name : Text) : Prop :=
  ∀ entry ∈ postedEntry kernel name,
    instances procsMax kernel entry.pid ≠ some entry.generation →
      ∀ other ∈ procByPid procsMax kernel entry.pid,
        (kernel.procs caller).uid = 0 ∨
          (kernel.procs caller).uid = (kernel.procs other).uid

variable {procsMax}
variable {kernel : Kernel} {caller : Nat}

theorem replaceInstance_refl (pid generation : Nat) (mount : Mount) :
    replaceInstance pid generation pid generation mount = mount := by
  unfold replaceInstance
  split
  · next named =>
      obtain ⟨-, rfl, rfl⟩ := named
      rfl
  · rfl

theorem restartExact_same {before after : Kernel} {index : Nat} (procs : after.procs = before.procs)
    (services : ∀ service ∈ before.services[index]?, ∀ fresh ∈ after.services[index]?,
      fresh.pid = service.pid ∧ fresh.generation = service.generation) :
    restartExact procsMax before index after := by
  intro service listed fresh relisted slot _ _
  obtain ⟨pid, generation⟩ := services service listed fresh relisted
  rw [procs, pid, generation]
  exact ((List.map_congr_left fun mount _ =>
    replaceInstance_refl _ _ mount).trans (List.map_id _)).symm

/-- Where going by the pid alone makes no difference. -/
theorem reseatMount_eq_iff {oldPid oldGeneration newPid newGeneration : Nat}
    (old : oldPid ≠ 0) (mount : Mount) :
    reseatMount oldPid newPid newGeneration mount =
        replaceInstance oldPid oldGeneration newPid newGeneration mount ↔
      (mount.serverPid = oldPid → mount.serverGeneration = oldGeneration ∨
        (mount.serverPid, mount.serverGeneration) = (newPid, newGeneration)) := by
  unfold reseatMount replaceInstance
  by_cases hit : mount.serverPid = oldPid
  · by_cases same : mount.serverGeneration = oldGeneration
    · simp [hit, same, old]
    · obtain ⟨mountPrefix, pid, generation, target, flags⟩ := mount
      simp [same, eq_comm]
  · simp [hit]

theorem unusedSlot_unused {slot : Nat} (found : unusedSlot procsMax kernel = some slot) :
    (kernel.procs slot).used = false := by
  simpa using List.find?_some found

theorem respawned_service {service : Service} {index : Nat}
    (listed : kernel.services[index]? = some service) (pid generation : Nat) :
    (((kernel.services.modify index fun service => { service with pid := 0 }).modify index
        fun service => { service with pid := pid, generation := generation }).modify index
        fun service => { service with restarts := service.restarts + 1 })[index]? =
      some { service with
        pid := pid, generation := generation, restarts := service.restarts + 1 } := by
  simp [listed]

theorem replacement_none {index : Nat} {fits : Bool}
    (failed : createProcess procsMax (lowered kernel index) fits = none) :
    replacement procsMax kernel index fits = none := by
  unfold createProcess at failed
  unfold replacement
  cases fits with
  | false => rfl
  | true =>
    cases free : unusedSlot procsMax (lowered kernel index) with
    | none => rfl
    | some => simp [free] at failed

/-- The namespaces after a successful respawn. -/
theorem reseated_mounts {slot owner : Nat} {proc : Proc} {spawned : Kernel}
    (oldPid newPid newGeneration : Nat) (inside : owner < procsMax) (apart : owner ≠ slot)
    (used : (kernel.procs owner).used)
    (procs : spawned.procs = Function.update kernel.procs slot proc) :
    ((reseatNamespaceMounts procsMax spawned oldPid newPid newGeneration).procs owner).mounts =
      if oldPid = 0 then (kernel.procs owner).mounts
      else (kernel.procs owner).mounts.map (reseatMount oldPid newPid newGeneration) := by
  unfold reseatNamespaceMounts
  by_cases old : oldPid = 0
  · simp [old, procs, apart]
  · simp [old, procs, apart, inside, used]

/-- A respawn: the service's new instance, and what becomes of the namespaces. -/
theorem supervisorSpawn_effect {service : Service} {index slot : Nat} {fits : Bool}
    {created : Kernel} (listed : kernel.services[index]? = some service)
    (made : createProcess procsMax (lowered kernel index) fits = some (slot, created)) :
    let after := supervisorSpawn procsMax kernel index service.pid fits
    let generation := ((kernel.procs slot).generation + 1) % 2 ^ 32
    after.services[index]? = some { service with
        pid := slot + 1, generation := generation, restarts := service.restarts + 1 } ∧
      ∀ owner < procsMax, (kernel.procs owner).used →
        (after.procs owner).mounts =
          if service.pid = 0 then (kernel.procs owner).mounts
          else (kernel.procs owner).mounts.map
            (reseatMount service.pid (slot + 1) generation) := by
  obtain ⟨free, rfl, rfl⟩ := createProcess_eq made
  have unused : (kernel.procs slot).used = false := unusedSlot_unused free
  have self : ((lowered kernel index).set slot
      (bornProc procsMax (lowered kernel index) slot)).procs slot =
      bornProc procsMax (lowered kernel index) slot := by simp [Kernel.set]
  simp only [supervisorSpawn, serviceInstantiate]
  rw [← lowered, made]
  simp only [Option.map_some, Kernel.setService, self]
  constructor
  · have services := respawned_service listed (slot + 1)
      (((kernel.procs slot).generation + 1) % 2 ^ 32)
    rw [← services]
    unfold reseatNamespaceMounts
    split <;> rfl
  · intro owner inside used
    have apart : owner ≠ slot := by
      rintro rfl
      simp [unused] at used
    exact reseated_mounts service.pid (slot + 1)
      (((kernel.procs slot).generation + 1) % 2 ^ 32) inside apart used rfl

theorem restartExact_spawn {service : Service} {index : Nat}
    (listed : kernel.services[index]? = some service)
    (respawning : respawns procsMax kernel service) (fits : Bool) :
    restartExact procsMax kernel index
        (supervisorSpawn procsMax kernel index service.pid fits) ↔
      pidUnshared procsMax kernel index fits := by
  cases made : createProcess procsMax (lowered kernel index) fits with
  | none =>
    have none := replacement_none made
    have same : supervisorSpawn procsMax kernel index service.pid fits = kernel := by
      simp only [supervisorSpawn, serviceInstantiate]
      rw [← lowered, made]
      rfl
    rw [same]
    refine iff_of_true (restartExact_same rfl ?_) (by simp [pidUnshared, none])
    intro old oldListed fresh freshListed
    obtain rfl : old = fresh := Option.some.inj (oldListed.symm.trans freshListed)
    exact ⟨rfl, rfl⟩
  | some birth =>
    obtain ⟨slot, created⟩ := birth
    obtain ⟨relisted, mounts⟩ := supervisorSpawn_effect listed made
    have fresh : replacement procsMax kernel index fits =
        some (slot + 1, ((kernel.procs slot).generation + 1) % 2 ^ 32) := by
      obtain ⟨free, rfl, -⟩ := createProcess_eq made
      simp [replacement, free]
    simp only [restartExact, pidUnshared, listed, relisted, fresh, Option.mem_some_iff,
      forall_eq', respawning, true_implies]
    constructor
    · intro kept old owner inside used mount member hit
      have agree := kept owner inside used
      rw [mounts owner inside used, if_neg old, List.map_inj_left] at agree
      exact (reseatMount_eq_iff old mount).mp (agree mount member) hit
    · intro unshared owner inside used
      rw [mounts owner inside used]
      split
      · next none =>
          refine ((List.map_congr_left fun mount _ => ?_).trans (List.map_id _)).symm
          exact if_neg fun named => named.1 (named.2.1.trans none)
      · next old =>
          refine List.map_congr_left fun mount member => (reseatMount_eq_iff old mount).mpr ?_
          exact unshared old owner inside used mount member

theorem restartExact_tick (index : Nat) (fits : Bool) :
    restartExact procsMax kernel index (supervise procsMax kernel index fits) ↔
      pidUnshared procsMax kernel index fits := by
  simp only [supervise]
  cases listed : kernel.services[index]? with
  | none => exact iff_of_true (by simp [restartExact, listed]) (by simp [pidUnshared, listed])
  | some service =>
    by_cases respawning : respawns procsMax kernel service
    · have spawned := restartExact_spawn listed respawning fits
      obtain ⟨up, dead, allowed⟩ := respawning
      have limit : ¬ service.restarts ≥ svcRestartLimit := by omega
      simpa only [up, dead, limit, ↓reduceIte, Bool.false_eq_true] using spawned
    · have vacuous : pidUnshared procsMax kernel index fits := by
        intro other found respawn
        obtain rfl : service = other := Option.some.inj (listed.symm.trans found)
        exact absurd respawn respawning
      have same : restartExact procsMax kernel index kernel := by
        refine restartExact_same rfl fun old oldListed fresh freshListed => ?_
        obtain rfl : old = fresh := Option.some.inj (oldListed.symm.trans freshListed)
        exact ⟨rfl, rfl⟩
      dsimp only
      split
      · exact iff_of_true same vacuous
      split
      · exact iff_of_true same vacuous
      split
      · refine iff_of_true (restartExact_same rfl fun old oldListed fresh freshListed => ?_) vacuous
        obtain rfl : service = old := Option.some.inj (listed.symm.trans oldListed)
        simp only [Kernel.setService, List.getElem?_modify, listed, Option.map_eq_map, Option.map_some, Option.mem_some_iff] at freshListed
        subst freshListed
        exact ⟨rfl, rfl⟩
      · next up alive limit => exact absurd ⟨by simpa using up, alive, by omega⟩ respawning

/-- The entry `sys_srv_post` finds by its scan. -/
theorem postedEntry_index {name : Text} {entry : SrvEntry}
    (posted : postedEntry kernel name = some entry) :
    ∃ index, (kernel.srvTable.findIdx? fun entry => entry.pid ≠ 0 ∧ entry.name = name) =
      some index ∧ kernel.srvTable[index]? = some entry := by
  obtain ⟨hit, before, after, cut, passed⟩ := List.find?_eq_some_iff_append.mp posted
  refine ⟨before.length, ?_, by simp [cut]⟩
  rw [List.findIdx?_eq_some_iff_getElem]
  refine ⟨by simp [cut], by simpa [cut] using hit, fun earlier below => ?_⟩
  have skipped : before[earlier].pid = 0 ∨ ¬ before[earlier].name = name := by
    simpa using passed _ (List.getElem_mem below)
  simpa [cut, List.getElem_append_left below] using skipped.resolve_left

theorem postExact_iff (name : Text) :
    postExact procsMax kernel caller name (sysSrvPost procsMax kernel caller name).2 ↔
      holderGone procsMax kernel caller name := by
  refine forall_congr' fun entry => forall_congr' fun posted => ?_
  obtain ⟨index, scanned, found⟩ := postedEntry_index posted
  have holder : (kernel.srvTable[index]?.map SrvEntry.pid).getD 0 = entry.pid := by
    simp [found]
  simp only [sysSrvPost, scanned, holder]
  by_cases dead : instances procsMax kernel entry.pid ≠ some entry.generation
  · have lost : instances procsMax kernel entry.pid ≠ some entry.generation := dead
    simp only [lost]
    cases procByPid procsMax kernel entry.pid with
    | none => simp
    | some existing =>
      by_cases foreign : (kernel.procs caller).uid ≠ 0 ∧
          (kernel.procs caller).uid ≠ (kernel.procs existing).uid
      · simp [foreign]
      · rw [not_and_or, not_not, not_not] at foreign
        rcases foreign with root | same
        · simp [root]
        · simp [same]
  · have live := not_not.mp dead
    obtain ⟨existing, alive, -⟩ := Option.map_eq_some_iff.mp live
    refine iff_of_true ⟨fun lost => absurd live lost, fun _ nonroot foreign => ?_⟩
      fun lost => absurd live lost
    simp [alive, nonroot, foreign existing alive]

/-- In every sequence of calls, deaths and supervisor passes, from whatever state:
every restart changes exactly the entries that named the dead instance, and a post
takes over the names of dead instances and, without authority, of no live one, exactly
when at each restart no entry names another instance by the dead one's pid, and at
each post the pid of a dead holder has not passed to a process of another uid. -/
theorem restarts_exact (procsMax : Nat) (kernel : Kernel) (calls : List Action) :
    Along (step procsMax) (fun before call after =>
        (∀ index fits, call = .tick index fits → restartExact procsMax before index after) ∧
        (∀ caller name, call = .srvPost caller name →
          postExact procsMax before caller name after)) kernel calls ↔
      Along (step procsMax) (fun before call _ =>
        (∀ index fits, call = .tick index fits → pidUnshared procsMax before index fits) ∧
        (∀ caller name, call = .srvPost caller name →
          holderGone procsMax before caller name)) kernel calls := by
  refine along_congr (fun before call after stepped => ?_) kernel calls
  have performed : perform procsMax before call = some after := by
    simp only [step] at stepped
    split at stepped
    · exact stepped
    · cases stepped
  apply and_congr
  · refine forall_congr' fun index => forall_congr' fun fits => forall_congr' fun ticks => ?_
    subst ticks
    obtain rfl := Option.some.inj performed
    exact restartExact_tick index fits
  · refine forall_congr' fun caller => forall_congr' fun name => forall_congr' fun posts => ?_
    subst posts
    obtain rfl := Option.some.inj performed
    exact postExact_iff name

/-- The file server of pid 2 dies; a new process is given pid 2 and posts a name,
which pid 3 mounts. The restart, into the next free slot, then takes that mount over. -/
def beforeRestart : Kernel :=
  outcome (step 64) (fun _ _ => True) boot
    [.boot (some []), .create, .die 1, .create, .srvPost 1 "e".toList,
      .nsMount 2 "/e/".toList "e".toList]

def afterRestart : Kernel := outcome (step 64) (fun _ _ => True) beforeRestart [.tick 0 true]

theorem restart_takes_over :
    Reach (step 64) (fun _ _ => True) boot beforeRestart ∧
      instances 64 beforeRestart 2 = some 2 ∧
      (beforeRestart.procs 2).mounts[1]? = some ⟨"/e/".toList, 2, 2, [], 0⟩ ∧
      (beforeRestart.services[0]?.map fun service => (service.pid, service.generation)) =
        some (2, 1) ∧
      step 64 beforeRestart (.tick 0 true) = some afterRestart ∧
      (afterRestart.procs 2).mounts[1]? = some ⟨"/e/".toList, 4, 1, [], 0⟩ ∧
      ¬ restartExact 64 beforeRestart 0 afterRestart := by
  refine ⟨outcome_reach _ _ (by decide), by decide, by decide,
    by decide, rfl, by decide, fun exactly => ?_⟩
  have services : beforeRestart.services[0]? = some ⟨some [], 2, 1, 0, false⟩ := by rfl
  have respawned : afterRestart.services[0]? = some ⟨some [], 4, 1, 1, false⟩ := by rfl
  have kept := exactly _ services _ respawned 2 (by decide) (by decide)
  exact absurd kept (by decide)

end Racccoon.Namespace
