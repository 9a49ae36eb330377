import Mathlib.Algebra.GroupWithZero.Nat
import Racccoon.Lib.Run

/-!
The watchdog of `supervisor.c3`. A service is killed for not consuming its messages; what
the supervisor counts and compares is checked against what it saw of the service's instance,
tick after tick, whatever processes do in between. `seen` is that record and not in the
source.
-/

namespace Racccoon.Watchdog

open Run

def svcMax : Nat := 16
def svcRestartLimit : Nat := 5
def svcStallLimit : Nat := 5

/-- The process in a slot; its pid is the slot's number plus one. -/
structure Proc where
  used : Bool
  generation : Nat
  hasMessage : Bool
  ipcProgress : Nat

structure Service where
  watchHangs : Bool
  pid : Nat
  generation : Nat
  restarts : Nat
  givenUp : Bool
  everReady : Bool
  stallTicks : Nat
  respawnWaiting : Bool
  lastProgress : Nat
  deriving DecidableEq

structure Kernel where
  procs : Nat → Proc
  services : List Service

def Kernel.setProc (kernel : Kernel) (slot : Nat) (change : Proc → Proc) : Kernel :=
  { kernel with procs := Function.update kernel.procs slot (change (kernel.procs slot)) }

def Kernel.setService (kernel : Kernel) (index : Nat) (change : Service → Service) : Kernel :=
  { kernel with services := kernel.services.modify index change }

section Slots
variable (procsMax : Nat)
variable (kernel : Kernel)

def procByPid (pid : Nat) : Option Nat :=
  if 1 ≤ pid ∧ pid ≤ procsMax ∧ (kernel.procs (pid - 1)).used then some (pid - 1) else none

def live (service : Service) : Option Nat :=
  (procByPid procsMax kernel service.pid).filter fun slot =>
    (kernel.procs slot).generation = service.generation

def unusedSlot : Option Nat :=
  (List.range procsMax).find? fun slot => (kernel.procs slot).used = false

/-- `create_process` and `sys_rfork` on a slot. -/
def bornProc (proc : Proc) : Proc where
  used := true
  generation := (proc.generation + 1) % 2 ^ 32
  hasMessage := false
  ipcProgress := 0

def createProcess (fits : Bool) : Option (Nat × Kernel) :=
  match unusedSlot procsMax kernel with
  | none => none
  | some slot => if fits then some (slot, kernel.setProc slot bornProc) else none

def procDestroy (slot : Nat) : Kernel :=
  kernel.setProc slot fun proc => { proc with used := false }

variable (index : Nat)

def serviceInstantiate (fits : Bool) : Option Kernel :=
  (createProcess procsMax kernel fits).map fun (slot, created) =>
    created.setService index fun service =>
      { service with
        pid := slot + 1
        generation := (created.procs slot).generation
        everReady := false
        stallTicks := 0
        lastProgress := (created.procs slot).ipcProgress }

def supervisorSpawn (fits : Bool) : Kernel :=
  match serviceInstantiate procsMax kernel index fits with
  | none => kernel.setService index fun service => { service with respawnWaiting := true }
  | some spawned => spawned.setService index fun service =>
    { service with respawnWaiting := false, restarts := service.restarts + 1 }

/-- One round of `supervisor_tick`'s loop, and whether it killed the service as wedged. -/
def supervise (fits : Bool) : Bool × Kernel :=
  match kernel.services[index]? with
  | none => (false, kernel)
  | some service =>
    if service.givenUp then (false, kernel)
    else
      match live procsMax kernel service with
      | some slot =>
        if !service.watchHangs then (false, kernel)
        else if !(kernel.procs slot).hasMessage then
          (false, kernel.setService index fun service =>
            { service with
              everReady := true
              stallTicks := 0
              lastProgress := (kernel.procs slot).ipcProgress })
        else if !service.everReady then (false, kernel)
        else if (kernel.procs slot).ipcProgress ≠ service.lastProgress then
          (false, kernel.setService index fun service =>
            { service with
              lastProgress := (kernel.procs slot).ipcProgress, stallTicks := 0 })
        else if service.stallTicks + 1 < svcStallLimit then
          (false, kernel.setService index fun service =>
            { service with stallTicks := service.stallTicks + 1 })
        else
          (true, (procDestroy kernel slot).setService index fun service =>
            { service with stallTicks := 0 })
      | none =>
        if service.restarts ≥ svcRestartLimit then
          (false, kernel.setService index fun service => { service with givenUp := true })
        else (false, supervisorSpawn procsMax kernel index fits)

/-- `service_boot`, while the table of services has room. -/
def serviceBoot (watchHangs : Bool) : Option Kernel :=
  if kernel.services.length < svcMax then
    serviceInstantiate procsMax
      { kernel with services := kernel.services ++
          [⟨watchHangs, 0, 0, 0, false, false, 0, false, 0⟩] } kernel.services.length true
  else none

/-- What a round sees of a service's instance. -/
structure Sight where
  pid : Nat
  generation : Nat
  hasMessage : Bool
  ipcProgress : Nat
  deriving DecidableEq

def sight : Option Sight :=
  kernel.services[index]?.bind fun service =>
    (live procsMax kernel service).map fun slot =>
      ⟨service.pid, service.generation, (kernel.procs slot).hasMessage,
        (kernel.procs slot).ipcProgress⟩

structure Watch where
  kernel : Kernel
  seen : Nat → List (Option Sight)

/-- A process is created or dies, a message is delivered to it, consumed or taken back, or
a device completes for it; a service is booted, or the supervisor comes round to it. -/
inductive Action where
  | create (fits : Bool)
  | die (slot : Nat)
  | deliver (slot : Nat)
  | consume (slot : Nat)
  | withdraw (slot : Nat)
  | complete (slot : Nat)
  | boot (watchHangs : Bool)
  | tick (index : Nat) (fits : Bool)

def progressed (proc : Proc) : Proc :=
  { proc with ipcProgress := (proc.ipcProgress + 1) % 2 ^ 32 }

def Watch.change (watch : Watch) (slot : Nat) (allowed : Proc → Bool) (change : Proc → Proc) :
    Option Watch :=
  if slot < procsMax ∧ (watch.kernel.procs slot).used ∧ allowed (watch.kernel.procs slot) then
    some { watch with kernel := watch.kernel.setProc slot change }
  else none

def step (watch : Watch) : Action → Option Watch
  | .create fits =>
    (createProcess procsMax watch.kernel fits).map fun made => { watch with kernel := made.2 }
  | .die slot => watch.change procsMax slot (fun _ => true) fun proc => { proc with used := false }
  | .deliver slot => watch.change procsMax slot (fun proc => !proc.hasMessage) fun proc =>
    { proc with hasMessage := true }
  | .consume slot => watch.change procsMax slot (fun proc => proc.hasMessage) fun proc =>
    progressed { proc with hasMessage := false }
  | .withdraw slot => watch.change procsMax slot (fun proc => proc.hasMessage) fun proc =>
    { proc with hasMessage := false }
  | .complete slot => watch.change procsMax slot (fun _ => true) progressed
  | .boot watchHangs =>
    (serviceBoot procsMax watch.kernel watchHangs).map fun kernel =>
      { watch with kernel := kernel }
  | .tick index fits =>
    if index < watch.kernel.services.length then
      some
        { kernel := (supervise procsMax watch.kernel index fits).2
          seen := Function.update watch.seen index
            (sight procsMax watch.kernel index :: watch.seen index) }
    else none

end Slots

section Rounds
variable {procsMax index slot : Nat} {kernel : Kernel} {service : Service} {fits : Bool}

/-- The entry of a service after a round, with what the round saw; `killed` says that it was
killed as wedged. -/
inductive Round (service : Service) :
    Bool → Option Sight → Service → Prop where
  | givenUp (gaveUp : service.givenUp = true) (saw : Option Sight) :
      Round service false saw service
  | unwatched (unwatched : service.watchHangs = false) (saw : Option Sight) :
      Round service false saw service
  | waiting (progress : Nat) :
      Round service false
        (some ⟨service.pid, service.generation, false, progress⟩)
        { service with everReady := true, stallTicks := 0, lastProgress := progress }
  | starting (early : service.everReady = false) (saw : Option Sight) :
      Round service false saw service
  | busy (progress : Nat) :
      Round service false
        (some ⟨service.pid, service.generation, true, progress⟩)
        { service with lastProgress := progress, stallTicks := 0 }
  | stalled (ready : service.everReady = true) (watched : service.watchHangs = true)
      (few : service.stallTicks + 1 < svcStallLimit) :
      Round service false
        (some ⟨service.pid, service.generation, true, service.lastProgress⟩)
        { service with stallTicks := service.stallTicks + 1 }
  | wedged (ready : service.everReady = true) (watched : service.watchHangs = true)
      (up : service.givenUp = false) (enough : svcStallLimit ≤ service.stallTicks + 1) :
      Round service true
        (some ⟨service.pid, service.generation, true, service.lastProgress⟩)
        { service with stallTicks := 0 }
  | ended : Round service false none { service with givenUp := true }
  | waits : Round service false none { service with respawnWaiting := true }
  | respawned (pid generation progress : Nat) :
      Round service false none
        { service with
          pid := pid
          generation := generation
          everReady := false
          stallTicks := 0
          lastProgress := progress
          respawnWaiting := false
          restarts := service.restarts + 1 }

theorem createProcess_services {made : Nat × Kernel}
    (created : createProcess procsMax kernel fits = some made) :
    made.2.services = kernel.services := by
  unfold createProcess at created
  cases free : unusedSlot procsMax kernel with
  | none => simp [free] at created
  | some =>
    simp only [free, Option.ite_none_right_eq_some, Option.some.injEq] at created
    rw [← created.2]
    rfl

/-- Instantiation writes the service's own entry. -/
theorem serviceInstantiate_services {spawned : Kernel}
    (made : serviceInstantiate procsMax kernel index fits = some spawned) :
    ∃ pid generation progress, spawned.services = kernel.services.modify index fun service =>
      { service with
        pid := pid
        generation := generation
        everReady := false
        stallTicks := 0
        lastProgress := progress } := by
  obtain ⟨⟨slot, booted⟩, created, rfl⟩ := Option.map_eq_some_iff.mp made
  refine ⟨slot + 1, (booted.procs slot).generation, (booted.procs slot).ipcProgress, ?_⟩
  rw [← createProcess_services created]
  rfl

theorem supervisorSpawn_services (kernel : Kernel) (index : Nat) (fits : Bool) :
    ∃ change, (supervisorSpawn procsMax kernel index fits).services =
        kernel.services.modify index change ∧
      ∀ service, Round service false none (change service) := by
  unfold supervisorSpawn
  cases made : serviceInstantiate procsMax kernel index fits with
  | none => exact ⟨_, rfl, fun service => .waits⟩
  | some spawned =>
    obtain ⟨pid, generation, progress, services⟩ := serviceInstantiate_services made
    refine ⟨_, ?_, fun service => .respawned pid generation progress⟩
    change spawned.services.modify index _ = _
    rw [services, List.modify_modify_eq]
    rfl

/-- What a round does to the service it comes to. -/
theorem supervise_round (procsMax : Nat) (fits : Bool) (listed : kernel.services[index]? = some service) :
    ∃ change, (supervise procsMax kernel index fits).2.services =
        kernel.services.modify index change ∧
      Round service (supervise procsMax kernel index fits).1
        (sight procsMax kernel index) (change service) := by
  have same : kernel.services = kernel.services.modify index id := by simp
  unfold supervise
  rw [listed]
  simp only
  by_cases gaveUp : service.givenUp = true
  · rw [if_pos gaveUp]
    exact ⟨id, same, .givenUp gaveUp _⟩
  · rw [if_neg gaveUp]
    cases found : live procsMax kernel service with
    | none =>
      have saw : sight procsMax kernel index = none := by simp [sight, listed, found]
      rw [saw]
      by_cases spent : service.restarts ≥ svcRestartLimit
      · rw [if_pos spent]
        exact ⟨_, rfl, .ended⟩
      · rw [if_neg spent]
        obtain ⟨change, services, round⟩ := supervisorSpawn_services kernel index fits
        exact ⟨change, services, round service⟩
    | some slot =>
      have saw : sight procsMax kernel index =
          some ⟨service.pid, service.generation, (kernel.procs slot).hasMessage,
            (kernel.procs slot).ipcProgress⟩ := by simp [sight, listed, found]
      simp only
      by_cases unwatched : service.watchHangs = false
      · rw [if_pos (by simp [unwatched])]
        exact ⟨id, same, .unwatched unwatched _⟩
      have watched : service.watchHangs = true := by simpa using unwatched
      rw [if_neg (by simp [watched])]
      by_cases empty : (kernel.procs slot).hasMessage = false
      · rw [saw, empty]
        exact ⟨_, rfl, .waiting _⟩
      have message : (kernel.procs slot).hasMessage = true := by simpa using empty
      rw [if_neg (by simp [message])]
      by_cases early : service.everReady = false
      · rw [if_pos (by simp [early])]
        exact ⟨id, same, .starting early _⟩
      have ready : service.everReady = true := by simpa using early
      rw [if_neg (by simp [ready]), saw, message]
      by_cases moved : (kernel.procs slot).ipcProgress ≠ service.lastProgress
      · rw [if_pos moved]
        exact ⟨_, rfl, .busy _⟩
      rw [if_neg moved, not_not.mp moved]
      by_cases few : service.stallTicks + 1 < svcStallLimit
      · rw [if_pos few]
        exact ⟨_, rfl, .stalled ready watched few⟩
      · rw [if_neg few]
        exact ⟨_, rfl, .wedged ready watched (by simpa using gaveUp) (by omega)⟩

end Rounds

/-- An instance stalled at each of the last rounds, and was there the round before with the
same progress. -/
def Stuck (pid generation progress count : Nat) (sights : List (Option Sight)) : Prop :=
  ∃ hasMessage earlier,
    sights = List.replicate count (some ⟨pid, generation, true, progress⟩) ++
      some ⟨pid, generation, hasMessage, progress⟩ :: earlier

def Tallied (service : Service) (sights : List (Option Sight)) : Prop :=
  service.watchHangs = true → service.everReady = true → service.respawnWaiting = false →
    service.givenUp = false → service.stallTicks < svcStallLimit ∧
      Stuck service.pid service.generation service.lastProgress service.stallTicks sights

section Count
variable {procsMax : Nat} {kernel : Kernel} {service after : Service} {killed : Bool}
variable {saw : Option Sight} {sights : List (Option Sight)} {watch later : Watch}

theorem Stuck.next {pid generation progress count : Nat}
    (stuck : Stuck pid generation progress count sights) :
    Stuck pid generation progress (count + 1)
      (some ⟨pid, generation, true, progress⟩ :: sights) := by
  obtain ⟨hasMessage, earlier, rfl⟩ := stuck
  exact ⟨hasMessage, earlier, rfl⟩

theorem Stuck.first (pid generation progress : Nat) (hasMessage : Bool)
    (sights : List (Option Sight)) :
    Stuck pid generation progress 0 (some ⟨pid, generation, hasMessage, progress⟩ :: sights) :=
  ⟨hasMessage, sights, rfl⟩

theorem Round.tallied (round : Round service killed saw after)
    (tallied : Tallied service sights) : Tallied after (saw :: sights) := by
  intro watched ready unwaiting up
  cases round with
  | givenUp gaveUp =>
    rw [gaveUp] at up
    cases up
  | unwatched unwatched =>
    rw [unwatched] at watched
    cases watched
  | waiting => exact ⟨(by decide : 0 < svcStallLimit), .first _ _ _ _ _⟩
  | starting early =>
    rw [early] at ready
    cases ready
  | busy => exact ⟨(by decide : 0 < svcStallLimit), .first _ _ _ _ _⟩
  | stalled ready' watched' few =>
    obtain ⟨_, stuck⟩ := tallied watched' ready' unwaiting up
    exact ⟨few, Stuck.next stuck⟩
  | wedged => exact ⟨(by decide : 0 < svcStallLimit), .first _ _ _ _ _⟩
  | ended => cases up
  | waits => cases unwaiting
  | respawned => cases ready

theorem Round.stuck (round : Round service true saw after)
    (tallied : Tallied service sights) (unwaiting : service.respawnWaiting = false) :
    Stuck service.pid service.generation service.lastProgress svcStallLimit (saw :: sights) := by
  cases round with
  | wedged ready watched up =>
    obtain ⟨few, stuck⟩ := tallied watched ready unwaiting up
    have last : service.stallTicks + 1 = svcStallLimit := by omega
    rw [← last]
    exact Stuck.next stuck

def Watch.Tallied (watch : Watch) : Prop :=
  ∀ index service, watch.kernel.services[index]? = some service →
    Watchdog.Tallied service (watch.seen index)

theorem Watch.Tallied.same (tallied : watch.Tallied)
    (services : later.kernel.services = watch.kernel.services) (seen : later.seen = watch.seen) :
    later.Tallied := by
  intro index service listed
  rw [seen]
  exact tallied index service (services ▸ listed)

theorem change_tallied (slot : Nat) (allowed : Proc → Bool) (change : Proc → Proc)
    (tallied : watch.Tallied) (stepped : watch.change procsMax slot allowed change = some later) :
    later.Tallied := by
  unfold Watch.change at stepped
  simp only [Option.ite_none_right_eq_some, Option.some.injEq] at stepped
  obtain ⟨_, rfl⟩ := stepped
  exact tallied.same rfl rfl

theorem boot_tallied {watchHangs : Bool} {booted : Kernel} (tallied : watch.Tallied)
    (made : serviceBoot procsMax watch.kernel watchHangs = some booted) :
    Watch.Tallied ⟨booted, watch.seen⟩ := by
  unfold serviceBoot at made
  simp only [Option.ite_none_right_eq_some] at made
  obtain ⟨pid, generation, progress, services⟩ := serviceInstantiate_services made.2
  intro index service listed
  rw [services] at listed
  by_cases new : watch.kernel.services.length = index
  · -- A new service is not ready.
    subst new
    rw [List.getElem?_modify_eq] at listed
    simp only [List.getElem?_append_right (Nat.le_refl _), Nat.sub_self,
      List.getElem?_cons_zero, Option.map_eq_map, Option.map_some, Option.some.injEq] at listed
    intro _ ready
    rw [← listed] at ready
    cases ready
  · rw [List.getElem?_modify_ne _ _ new] at listed
    refine tallied index service ?_
    rcases Nat.lt_or_ge index watch.kernel.services.length with old | beyond
    · rw [List.getElem?_append_left old] at listed
      exact listed
    · rw [List.getElem?_eq_none (by simp; omega)] at listed
      cases listed

theorem step_tallied {action : Action} (tallied : watch.Tallied)
    (stepped : step procsMax watch action = some later) : later.Tallied := by
  cases action with
  | create =>
    obtain ⟨made, created, rfl⟩ := Option.map_eq_some_iff.mp stepped
    exact tallied.same (createProcess_services created) rfl
  | die slot =>
    exact change_tallied slot (fun _ => true) (fun proc => { proc with used := false }) tallied stepped
  | deliver slot =>
    exact change_tallied slot (fun proc => !proc.hasMessage)
      (fun proc => { proc with hasMessage := true }) tallied stepped
  | consume slot => exact change_tallied slot _ _ tallied stepped
  | withdraw slot => exact change_tallied slot _ _ tallied stepped
  | complete slot => exact change_tallied slot (fun _ => true) progressed tallied stepped
  | boot =>
    obtain ⟨booted, made, rfl⟩ := Option.map_eq_some_iff.mp stepped
    exact boot_tallied tallied made
  | tick index fits =>
    simp only [step, Option.ite_none_right_eq_some, Option.some.injEq] at stepped
    obtain ⟨inside, rfl⟩ := stepped
    have listed : watch.kernel.services[index]? = some watch.kernel.services[index] :=
      List.getElem?_eq_getElem inside
    obtain ⟨change, services, round⟩ := supervise_round procsMax fits listed
    intro other service found
    rw [services] at found
    change Watchdog.Tallied service (Function.update watch.seen index _ other)
    by_cases here : index = other
    · subst here
      rw [List.getElem?_modify_eq, listed] at found
      simp only [Option.map_eq_map, Option.map_some, Option.some.injEq] at found
      rw [← found, Function.update_self]
      exact round.tallied (tallied index _ listed)
    · rw [List.getElem?_modify_ne _ _ here] at found
      rw [Function.update_of_ne (Ne.symm here)]
      exact tallied other service found

end Count

/-- A service killed as wedged was seen alive as the same instance, with an unconsumed
message and without progress, at each of the last five rounds over it. A service that waits
for a respawn has no instance, until the generations of its slot come round. -/
theorem kills_only_stuck (procsMax : Nat) {start watch after : Watch} {index : Nat} {fits : Bool}
    {service : Service} (empty : start.kernel.services = [])
    (run : Reach (step procsMax) (fun _ _ => True) start watch)
    (listed : watch.kernel.services[index]? = some service)
    (unwaiting : service.respawnWaiting = false)
    (stepped : step procsMax watch (.tick index fits) = some after)
    (killed : (supervise procsMax watch.kernel index fits).1 = true) :
    Stuck service.pid service.generation service.lastProgress svcStallLimit
      (after.seen index) := by
  have tallied : watch.Tallied := by
    refine run.invariant Watch.Tallied ?_ ?_
    · intro index service listed
      rw [empty] at listed
      cases listed
    · intro before action after held _ stepped
      exact step_tallied held stepped
  simp only [step, Option.ite_none_right_eq_some, Option.some.injEq] at stepped
  obtain ⟨_, rfl⟩ := stepped
  obtain ⟨change, _, round⟩ := supervise_round procsMax fits listed
  rw [killed] at round
  change Stuck _ _ _ _ (Function.update watch.seen index _ index)
  rw [Function.update_self]
  exact round.stuck (tallied index service listed) unwaiting

def blank : Watch := ⟨⟨fun _ => ⟨false, 0, false, 0⟩, []⟩, fun _ => []⟩

def fourStalls : List Action :=
  [.boot true, .tick 0 true, .deliver 0, .tick 0 true, .tick 0 true, .tick 0 true, .tick 0 true]

def stalledWatch : Watch := outcome (step 64) (fun _ _ => True) blank fourStalls

theorem stalledWatch_reach : Reach (step 64) (fun _ _ => True) blank stalledWatch :=
  outcome_reach fourStalls blank (by decide)

def stalledService : Service := ⟨true, 1, 1, 0, false, true, 4, false, 0⟩

theorem fifth_stall_kills :
    Stuck 1 1 0 svcStallLimit
      (((step 64 stalledWatch (.tick 0 true)).get (by decide)).seen 0) :=
  kills_only_stuck 64 rfl stalledWatch_reach
    (show stalledWatch.kernel.services[0]? = some stalledService by decide) rfl
    (Option.some_get (by decide)).symm (by decide)

def waitingService : Service := { stalledService with respawnWaiting := true }

/-- The service is down, and its slot was used `count` times since. -/
structure Down (count : Nat) (watch : Watch) : Prop where
  services : watch.kernel.services = [waitingService]
  unused : (watch.kernel.procs 0).used = false
  generation : (watch.kernel.procs 0).generation = (1 + count) % 2 ^ 32
  gap : ∃ earlier, watch.seen 0 = none :: earlier

theorem unusedSlot_first {kernel : Kernel} (unused : (kernel.procs 0).used = false) :
    unusedSlot 64 kernel = some 0 := by
  unfold unusedSlot
  rw [List.range_succ_eq_map, List.find?_cons_of_pos (by simp [unused])]

/-- The first slot is taken by a new process. -/
theorem Down.create {count : Nat} {watch : Watch} (down : Down count watch) :
    ∃ after, step 64 watch (.create true) = some after ∧
      after.kernel.services = [waitingService] ∧ after.seen = watch.seen ∧
      after.kernel.procs 0 = ⟨true, (1 + (count + 1)) % 2 ^ 32, false, 0⟩ := by
  refine ⟨{ watch with kernel := watch.kernel.setProc 0 bornProc }, ?_, down.services, rfl, ?_⟩
  · simp [step, createProcess, unusedSlot_first down.unused]
  · simp only [Kernel.setProc, Function.update_self, bornProc, down.generation]
    congr 1
    omega

theorem Down.next {count : Nat} {watch : Watch} (down : Down count watch) :
    ∃ after, Reach (step 64) (fun _ _ => True) watch after ∧ Down (count + 1) after := by
  obtain ⟨created, made, services, seen, proc⟩ := down.create
  have died : step 64 created (.die 0) = some
      { created with kernel := created.kernel.setProc 0 fun proc => { proc with used := false } } := by
    simp [step, Watch.change, proc]
  refine ⟨_, .next (.die 0) (.next (.create true) .start trivial made) trivial died, services, ?_,
    ?_, ?_⟩
  · simp [Kernel.setProc]
  · simp [Kernel.setProc, proc]
  · rw [seen]
    exact down.gap

/-- The fifth tick finds the service dead and has no memory for another instance. -/
def downWatch : Watch :=
  outcome (step 64) (fun _ _ => True) blank (fourStalls ++ [.die 0, .tick 0 false])

theorem down_after (count : Nat) :
    ∃ watch, Reach (step 64) (fun _ _ => True) blank watch ∧ Down count watch := by
  induction count with
  | zero =>
    refine ⟨downWatch, outcome_reach _ blank (by decide), ?_⟩
    exact ⟨by decide, by decide, by decide,
      (downWatch.seen 0).tail, by decide⟩
  | succ _ ih =>
    obtain ⟨watch, run, down⟩ := ih
    obtain ⟨after, more, down'⟩ := down.next
    exact ⟨after, run.trans more, down'⟩

theorem named_killed {kernel : Kernel} (services : kernel.services = [waitingService])
    (proc : kernel.procs 0 = ⟨true, 1, true, 0⟩) : (supervise 64 kernel 0 true).1 = true := by
  have alive : live 64 kernel ⟨true, 1, 1, 0, false, true, 4, true, 0⟩ = some 0 := by
    simp [live, procByPid, proc]
  simp [supervise, services, alive, waitingService, stalledService, proc, svcStallLimit]

/-- After 2^32 uses of its slot the service's number names a process that is killed for the
stalls of the instance before, at its first message. -/
theorem stalls_outlive_instance :
    ¬ ∀ (procsMax : Nat) (start watch after : Watch) (index : Nat) (fits : Bool)
      (service : Service), start.kernel.services = [] →
      Reach (step procsMax) (fun _ _ => True) start watch →
      watch.kernel.services[index]? = some service →
      step procsMax watch (.tick index fits) = some after →
      (supervise procsMax watch.kernel index fits).1 = true →
      ∃ progress, (after.seen index).take svcStallLimit = List.replicate svcStallLimit
        (some ⟨service.pid, service.generation, true, progress⟩) := by
  intro always
  obtain ⟨watch, run, down⟩ := down_after (2 ^ 32 - 1)
  obtain ⟨created, made, services, seen, proc⟩ := down.create
  have delivered : step 64 created (.deliver 0) = some { created with
      kernel := created.kernel.setProc 0 fun proc => { proc with hasMessage := true } } := by
    simp [step, Watch.change, proc]
  have run' := Reach.next (.deliver 0) (.next (.create true) run trivial made) trivial delivered
  have proc' : (created.kernel.setProc 0 fun proc => { proc with hasMessage := true }).procs 0 =
      ⟨true, 1, true, 0⟩ := by simp [Kernel.setProc, proc]
  obtain ⟨progress, stuck⟩ := always 64 blank _ _ 0 true waitingService rfl run'
    (by simp [Kernel.setProc, services]) (if_pos (by simp [Kernel.setProc, services]))
    (named_killed services proc')
  -- The round before this one saw nothing alive.
  obtain ⟨earlier, gap⟩ := down.gap
  simp [seen, gap, svcStallLimit] at stuck

end Racccoon.Watchdog
