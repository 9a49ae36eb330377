import Mathlib.Algebra.GroupWithZero.Nat
import Racccoon.Lib.Run
import Racccoon.Process

/-!
Who may signal whom: SYS_SETUID, SYS_RFORK, SYS_KILL, SYS_POSTNOTE and SYS_WAKE of
`src/syscalls.c3` and `src/note.c3`. The system calls read their arguments from
64-bit registers, which `int` and `uint` truncate to 32 bits. Slots are indexed as
in `procs`; the idle process has pid 0. The parked registers of a note handler, the
address spaces and the pipes are not modelled; whether a fork has the memory it
needs is an argument of the call.
-/

namespace Racccoon.Uids

open Run

abbrev Register := BitVec 64

/-- The cast `(int)`. -/
def toInt (register : Register) : Int := (register.setWidth 32).toInt

/-- The cast `(uint)`. -/
def toUint (register : Register) : Nat := (register.setWidth 32).toNat

structure Proc where
  state : ProcState
  pid : Int
  generation : Nat
  uid : Int
  noteg : Int
  notes : List String
  noteHandler : Nat
  inNote : Bool
  wakePending : Bool
  ipcWaitPid : Int
  ipcWaitGeneration : Nat
  ipcPeerDied : Bool

structure Kernel where
  procs : Nat → Proc
  idleProc : Nat

def nnote : Nat := 5
def noteMax : Nat := 64
def ncont : Int := 0
def rfproc : BitVec 32 := 1
def rfnoteg : BitVec 32 := 4

def Kernel.set (kernel : Kernel) (slot : Nat) (proc : Proc) : Kernel :=
  { kernel with procs := Function.update kernel.procs slot proc }

/-- `if (p.state == PROC_BLOCKED) { p.state = PROC_RUNNABLE; }` -/
def Proc.rouse (proc : Proc) : Proc :=
  if proc.state = .blocked then { proc with state := .runnable } else proc

variable (procsMax : Nat)
variable (kernel : Kernel)

def procByPid (pid : Int) : Option Nat :=
  if pid < 1 ∨ procsMax < pid then none
  else if (kernel.procs (pid - 1).toNat).pid ≠ pid ∨
      (kernel.procs (pid - 1).toNat).state = .unused then none
  else some (pid - 1).toNat

def notePost (target : Proc) (msg : String) : Bool × Proc :=
  if target.notes.length ≥ nnote then (false, target)
  else (true, { target with
    notes := target.notes ++ [String.ofList (msg.toList.take (noteMax - 1))] }.rouse)

/-- The targets one pass of `note_post_group`'s loop does not skip. -/
def grouped (group uid : Int) (slot : Nat) : Prop :=
  (kernel.procs slot).state ≠ .unused ∧ (kernel.procs slot).pid ≠ 0 ∧ slot ≠ kernel.idleProc ∧
    (kernel.procs slot).noteg = group ∧ ¬ (0 < uid ∧ (kernel.procs slot).uid ≠ uid)

instance (group uid : Int) (slot : Nat) : Decidable (grouped kernel group uid slot) :=
  inferInstanceAs (Decidable (_ ∧ _))

def notePostGroup (group : Int) (msg : String) (uid : Int) : Int × Kernel :=
  (((List.range procsMax).countP fun slot =>
      decide (grouped kernel group uid slot) && (notePost (kernel.procs slot) msg).1 : Nat),
    { kernel with
      procs := fun slot =>
        if slot < procsMax ∧ grouped kernel group uid slot then
          (notePost (kernel.procs slot) msg).2
        else kernel.procs slot })

/-- One pass of `ipc_wake_waiters_on`. -/
def wakeWaiter (victim waiter : Proc) : Proc :=
  if waiter.state = .unused then waiter
  else if waiter.ipcWaitPid = victim.pid ∧ waiter.ipcWaitGeneration = victim.generation then
    { waiter with ipcPeerDied := true }.rouse
  else waiter

def ipcWakeWaitersOn (victim : Nat) : Kernel :=
  { kernel with
    procs := fun slot =>
      if slot < procsMax ∧ slot ≠ victim then
        wakeWaiter (kernel.procs victim) (kernel.procs slot)
      else kernel.procs slot }

def procDestroy (target : Nat) : Kernel :=
  (ipcWakeWaitersOn procsMax kernel target).set target
    { kernel.procs target with state := .unused, pid := 0 }

def sysKill (caller : Nat) (a0 a1 : Register) : Int × Kernel :=
  let current := kernel.procs caller
  if toInt a0 = current.pid then (-1, kernel)
  else match procByPid procsMax kernel (toInt a0) with
    | none => (-1, kernel)
    | some target =>
      if toUint a1 ≠ 0 ∧ (kernel.procs target).generation ≠ toUint a1 then (-1, kernel)
      else if current.uid ≠ 0 ∧ current.uid ≠ (kernel.procs target).uid then (-1, kernel)
      else (0, procDestroy procsMax kernel target)

def sysPostnote (caller : Nat) (a0 a1 : Register) (msg : String) : Int × Kernel :=
  let current := kernel.procs caller
  let posted : Int × Kernel :=
    if a1 = 1 then notePostGroup procsMax kernel (toInt a0) msg current.uid
    else match procByPid procsMax kernel (toInt a0) with
      | none => (0, kernel)
      | some target =>
        if target ≠ kernel.idleProc ∧
            (current.uid = 0 ∨ current.uid = (kernel.procs target).uid) then
          (if (notePost (kernel.procs target) msg).1 then 1 else 0,
            kernel.set target (notePost (kernel.procs target) msg).2)
        else (0, kernel)
  (if posted.1 > 0 then posted.1 else -1, posted.2)

def sysWake (caller : Nat) (a0 a1 : Register) : Int × Kernel :=
  let current := kernel.procs caller
  match procByPid procsMax kernel (toInt a0) with
  | none => (-1, kernel)
  | some target =>
    let proc := kernel.procs target
    if target = kernel.idleProc ∨ (toUint a1 ≠ 0 ∧ proc.generation ≠ toUint a1) ∨
        (current.uid ≠ 0 ∧ current.uid ≠ proc.uid) then (-1, kernel)
    else (0, kernel.set target { proc with wakePending := true }.rouse)

def sysSetuid (caller : Nat) (a0 : Register) : Int × Kernel :=
  if (kernel.procs caller).uid ≠ 0 then (-1, kernel)
  else (0, kernel.set caller { kernel.procs caller with uid := toInt a0 })

def unusedSlot : Option Nat :=
  (List.range procsMax).find? fun slot => (kernel.procs slot).state = .unused

variable (slot : Nat)

/-- The fields of a reused slot that `create_process` and `sys_rfork` both reset. -/
def born (uid noteg : Int) (handler : Nat) (inNote : Bool) : Proc :=
  { kernel.procs slot with
    state := .runnable
    pid := slot + 1
    generation := ((kernel.procs slot).generation + 1) % 2 ^ 32
    uid := uid
    noteg := noteg
    notes := []
    noteHandler := handler
    inNote := inNote
    wakePending := false
    ipcWaitPid := 0
    ipcWaitGeneration := 0
    ipcPeerDied := false }

def createProcess : Kernel :=
  match unusedSlot procsMax kernel with
  | none => kernel
  | some slot => kernel.set slot (born kernel slot 0 (slot + 1) 0 false)

/-- `fits` says whether the memory the child needs is there. -/
def sysRfork (caller : Nat) (a0 : Register) (fits : Bool) : Int × Kernel :=
  let current := kernel.procs caller
  let flags := a0.setWidth 32
  if flags &&& rfproc = 0 then (-1, kernel)
  else match unusedSlot procsMax kernel with
    | none => (-1, kernel)
    | some slot =>
      if fits then
        ((slot + 1 : Nat), kernel.set slot (born kernel slot current.uid
          (if flags &&& rfnoteg = 0 then current.noteg else slot + 1)
          current.noteHandler current.inNote))
      else (-1, kernel)

/-- `stackOk` is the `user_range_valid` check of the message's place on the user stack. -/
def noteDeliver (stackOk : Bool) : Kernel :=
  let proc := kernel.procs slot
  match proc.notes, proc.inNote with
  | msg :: rest, false =>
    let popped := { proc with notes := rest }
    if proc.noteHandler = 0 || msg == "kill" || !stackOk then
      procDestroy procsMax (kernel.set slot popped) slot
    else kernel.set slot { popped with inNote := true }
  | _, _ => kernel

def noteNoted (caller : Nat) (how : Int) : Kernel :=
  if !(kernel.procs caller).inNote then kernel
  else if how ≠ ncont then procDestroy procsMax kernel caller
  else kernel.set caller { kernel.procs caller with inNote := false }

inductive Action where
  | create
  | interrupt (consoleNoteg : Int)
  | rfork (caller : Nat) (a0 : Register) (fits : Bool)
  | setuid (caller : Nat) (a0 : Register)
  | kill (caller : Nat) (a0 a1 : Register)
  | postnote (caller : Nat) (a0 a1 : Register) (msg : String)
  | wake (caller : Nat) (a0 a1 : Register)
  | notify (caller : Nat) (a0 : Register)
  | noted (caller : Nat) (a0 : Register)
  | exit (caller : Nat)
  | deliver (caller : Nat) (stackOk : Bool)
  | await (caller : Nat)
  | block (caller : Nat) (waitPid : Int) (waitGeneration : Nat)
  | resume (slot : Nat)

/-- The process an action is a system call (or the end of one) of. -/
def Action.caller : Action → Option Nat
  | .create | .interrupt _ | .resume _ => none
  | .rfork caller .. | .setuid caller _ | .kill caller .. | .postnote caller ..
  | .wake caller .. | .notify caller _ | .noted caller _ | .exit caller | .deliver caller _
  | .await caller | .block caller .. => some caller

def running : Prop :=
  slot < procsMax ∧ slot ≠ kernel.idleProc ∧ (kernel.procs slot).state = .runnable

instance : Decidable (running procsMax kernel slot) :=
  inferInstanceAs (Decidable (_ ∧ _))

/-- `await` is SYS_AWAIT reporting the doorbell; `block` is any blocking wait, with
the peer of an IPC one. -/
def perform : Action → Kernel
  | .create => createProcess procsMax kernel
  | .interrupt consoleNoteg => (notePostGroup procsMax kernel consoleNoteg "interrupt" (-1)).2
  | .rfork caller a0 fits => (sysRfork procsMax kernel caller a0 fits).2
  | .setuid caller a0 => (sysSetuid kernel caller a0).2
  | .kill caller a0 a1 => (sysKill procsMax kernel caller a0 a1).2
  | .postnote caller a0 a1 msg => (sysPostnote procsMax kernel caller a0 a1 msg).2
  | .wake caller a0 a1 => (sysWake procsMax kernel caller a0 a1).2
  | .notify caller a0 => kernel.set caller { kernel.procs caller with noteHandler := a0.toNat }
  | .noted caller a0 => noteNoted procsMax kernel caller (toInt a0)
  | .exit caller => procDestroy procsMax kernel caller
  | .deliver caller stackOk => noteDeliver procsMax kernel caller stackOk
  | .await caller => kernel.set caller { kernel.procs caller with wakePending := false }
  | .block caller waitPid waitGeneration => kernel.set caller
      { kernel.procs caller with
        state := .blocked, ipcWaitPid := waitPid, ipcWaitGeneration := waitGeneration }
  | .resume slot => kernel.set slot
      { kernel.procs slot with ipcWaitPid := 0, ipcWaitGeneration := 0, ipcPeerDied := false }

def step (action : Action) : Option Kernel :=
  if ∀ caller ∈ action.caller, running procsMax kernel caller then
    some (perform procsMax kernel action)
  else none

/-- Boot creates the idle process in slot 0 and takes its pid away. -/
def boot : Kernel where
  procs slot := ⟨if slot = 0 then .runnable else .unused, 0, if slot = 0 then 1 else 0, 0,
    if slot = 0 then 1 else 0, [], 0, false, false, 0, 0, false⟩
  idleProc := 0

/-- Nothing a process of another uid may not do has happened to the process in
`slot`. It may have been made runnable, but only because it was waiting for a
process of `uid` that is gone. -/
structure Spared (before after : Kernel) (uid : Int) (slot : Nat) : Prop where
  alive : (after.procs slot).state ≠ .unused
  same : (after.procs slot).generation = (before.procs slot).generation
  notes : (after.procs slot).notes = (before.procs slot).notes
  doorbell : (after.procs slot).wakePending = (before.procs slot).wakePending
  state : (after.procs slot).state = (before.procs slot).state ∨
    ∃ gone, (before.procs gone).uid = uid ∧ (after.procs gone).state = .unused ∧
      (before.procs slot).ipcWaitPid = (before.procs gone).pid ∧
      (before.procs slot).ipcWaitGeneration = (before.procs gone).generation

def Confined (before after : Kernel) (uid : Int) : Prop :=
  ∀ slot < procsMax, (before.procs slot).state ≠ .unused → (before.procs slot).uid ≠ uid →
    Spared before after uid slot

theorem Spared.refl {kernel : Kernel} {uid : Int} {slot : Nat}
    (live : (kernel.procs slot).state ≠ .unused) : Spared kernel kernel uid slot :=
  ⟨live, rfl, rfl, rfl, .inl rfl⟩

/-- The process in `slot` is as it was. -/
theorem Spared.untouched {before after : Kernel} {uid : Int} {slot : Nat}
    (live : (before.procs slot).state ≠ .unused) (same : after.procs slot = before.procs slot) :
    Spared before after uid slot := by
  constructor <;> rw [same]
  · exact live
  · exact .inl rfl

variable {procsMax}
variable {kernel : Kernel} {uid : Int} {slot caller target : Nat}

theorem set_other (other : slot ≠ target) (proc : Proc) :
    (kernel.set target proc).procs slot = kernel.procs slot :=
  Function.update_of_ne other _ _

theorem confined_refl : Confined procsMax kernel kernel uid :=
  fun _ _ live _ => Spared.refl live

/-- Changing one process of `uid`, or filling a free slot, is confined. -/
theorem confined_set (own : (kernel.procs target).uid = uid ∨
    (kernel.procs target).state = .unused) (proc : Proc) :
    Confined procsMax kernel (kernel.set target proc) uid := by
  intro slot _ live foreign
  have other : slot ≠ target := by
    rintro rfl
    rcases own with same | free
    · exact foreign same
    · exact live free
  exact Spared.untouched live (set_other other proc)

theorem rouse_fields (proc : Proc) :
    proc.rouse.generation = proc.generation ∧ proc.rouse.uid = proc.uid ∧
      proc.rouse.notes = proc.notes ∧ proc.rouse.wakePending = proc.wakePending := by
  unfold Proc.rouse
  split <;> exact ⟨rfl, rfl, rfl, rfl⟩

theorem rouse_live {proc : Proc} (live : proc.state ≠ .unused) : proc.rouse.state ≠ .unused := by
  unfold Proc.rouse
  split
  · simp
  · exact live

/-- What `ipc_wake_waiters_on` does to one other process. -/
theorem wakeWaiter_spares (victim : Proc) {waiter : Proc} (live : waiter.state ≠ .unused) :
    (wakeWaiter victim waiter).state ≠ .unused ∧
      (wakeWaiter victim waiter).generation = waiter.generation ∧
      (wakeWaiter victim waiter).notes = waiter.notes ∧
      (wakeWaiter victim waiter).wakePending = waiter.wakePending ∧
      ((wakeWaiter victim waiter).state = waiter.state ∨
        (waiter.ipcWaitPid = victim.pid ∧ waiter.ipcWaitGeneration = victim.generation)) := by
  unfold wakeWaiter
  rw [if_neg live]
  split
  · next waits =>
      obtain ⟨generation, -, notes, doorbell⟩ := rouse_fields { waiter with ipcPeerDied := true }
      exact ⟨rouse_live live, generation, notes, doorbell, .inr waits⟩
  · exact ⟨live, rfl, rfl, rfl, .inl rfl⟩

/-- Destroying a process of `uid` is confined. `before` may differ from the kernel
the teardown starts in at the victim, whose identity is the same in both. -/
theorem confined_destroy {before : Kernel} (own : (before.procs target).uid = uid)
    (others : ∀ slot ≠ target, kernel.procs slot = before.procs slot)
    (pid : (kernel.procs target).pid = (before.procs target).pid)
    (generation : (kernel.procs target).generation = (before.procs target).generation) :
    Confined procsMax before (procDestroy procsMax kernel target) uid := by
  intro slot inside live foreign
  have other : slot ≠ target := by
    rintro rfl
    exact foreign own
  have woken : (procDestroy procsMax kernel target).procs slot =
      wakeWaiter (kernel.procs target) (before.procs slot) := by
    rw [procDestroy, set_other other, ← others slot other]
    exact if_pos ⟨inside, other⟩
  have gone : ((procDestroy procsMax kernel target).procs target).state = .unused := by
    simp [procDestroy, Kernel.set]
  obtain ⟨alive, same, notes, doorbell, state⟩ :=
    wakeWaiter_spares (kernel.procs target) live
  rw [← woken] at alive same notes doorbell state
  refine ⟨alive, same, notes, doorbell, state.imp id fun waits => ?_⟩
  exact ⟨target, own, gone, pid ▸ waits.1, generation ▸ waits.2⟩

theorem confined_destroy_self (own : (kernel.procs target).uid = uid) :
    Confined procsMax kernel (procDestroy procsMax kernel target) uid :=
  confined_destroy own (fun _ _ => rfl) rfl rfl

theorem confined_kill (nonroot : (kernel.procs caller).uid ≠ 0) (a0 a1 : Register) :
    Confined procsMax kernel (sysKill procsMax kernel caller a0 a1).2
      (kernel.procs caller).uid := by
  simp only [sysKill]
  split
  · exact confined_refl
  split
  · exact confined_refl
  split
  · exact confined_refl
  split
  · exact confined_refl
  · next allowed =>
      apply confined_destroy_self
      by_contra foreign
      exact allowed ⟨nonroot, fun same => foreign same.symm⟩

theorem confined_wake (nonroot : (kernel.procs caller).uid ≠ 0) (a0 a1 : Register) :
    Confined procsMax kernel (sysWake procsMax kernel caller a0 a1).2
      (kernel.procs caller).uid := by
  simp only [sysWake]
  split
  · exact confined_refl
  split
  · exact confined_refl
  · next allowed =>
      apply confined_set
      left
      by_contra foreign
      exact allowed (.inr (.inr ⟨nonroot, fun same => foreign same.symm⟩))

theorem unusedSlot_free {free : Nat} (found : unusedSlot procsMax kernel = some free) :
    (kernel.procs free).state = .unused := by
  simpa using List.find?_some found

theorem confined_rfork (a0 : Register) (fits : Bool) :
    Confined procsMax kernel (sysRfork procsMax kernel caller a0 fits).2
      (kernel.procs caller).uid := by
  simp only [sysRfork]
  split
  · exact confined_refl
  split
  · exact confined_refl
  · next free found =>
      split
      · exact confined_set (.inr (unusedSlot_free found)) _
      · exact confined_refl

theorem confined_deliver (stackOk : Bool) :
    Confined procsMax kernel (noteDeliver procsMax kernel caller stackOk)
      (kernel.procs caller).uid := by
  simp only [noteDeliver]
  split
  · split
    · refine confined_destroy rfl (fun other apart => set_other apart _) ?_ ?_
      · simp [Kernel.set]
      · simp [Kernel.set]
    · exact confined_set (.inl rfl) _
  · exact confined_refl

theorem confined_noted (how : Int) :
    Confined procsMax kernel (noteNoted procsMax kernel caller how)
      (kernel.procs caller).uid := by
  simp only [noteNoted]
  split
  · exact confined_refl
  split
  · exact confined_destroy_self rfl
  · exact confined_set (.inl rfl) _

theorem notePost_notes (proc : Proc) (msg : String) :
    (notePost proc msg).2.notes = proc.notes ↔ nnote ≤ proc.notes.length := by
  unfold notePost
  split
  · next full => simpa using full
  · next room =>
      rw [(rouse_fields _).2.2.1]
      simpa using room

theorem notePost_full {proc : Proc} (full : nnote ≤ proc.notes.length) (msg : String) :
    (notePost proc msg).2 = proc := by
  simp [notePost, full]

/-- The group post to `group` finds a process of another uid and queues a note on it. -/
def leaks (procsMax : Nat) (kernel : Kernel) (caller : Nat) (group : Int) : Prop :=
  (kernel.procs caller).uid < 0 ∧
    ∃ slot < procsMax, (kernel.procs slot).state ≠ .unused ∧ (kernel.procs slot).pid ≠ 0 ∧
      slot ≠ kernel.idleProc ∧ (kernel.procs slot).noteg = group ∧
      (kernel.procs slot).uid ≠ (kernel.procs caller).uid ∧
      (kernel.procs slot).notes.length < nnote

theorem group_member (group : Int) (msg : String) (inside : slot < procsMax) :
    (notePostGroup procsMax kernel group msg uid).2.procs slot =
      if grouped kernel group uid slot then (notePost (kernel.procs slot) msg).2
      else kernel.procs slot := by
  simp [notePostGroup, inside]

theorem confined_group (nonroot : (kernel.procs caller).uid ≠ 0) (group : Int) (msg : String) :
    Confined procsMax kernel (notePostGroup procsMax kernel group msg (kernel.procs caller).uid).2
        (kernel.procs caller).uid ↔ ¬ leaks procsMax kernel caller group := by
  constructor
  · rintro confined ⟨negative, slot, inside, live, pid, notIdle, member, foreign, room⟩
    have kept := (confined slot inside live foreign).notes
    have posted : grouped kernel group (kernel.procs caller).uid slot :=
      ⟨live, pid, notIdle, member, fun positive => by omega⟩
    rw [group_member group msg inside, if_pos posted, notePost_notes] at kept
    omega
  · intro sealed slot inside live foreign
    refine Spared.untouched live ?_
    rw [group_member group msg inside]
    by_cases posted : grouped kernel group (kernel.procs caller).uid slot
    · rw [if_pos posted]
      obtain ⟨-, pid, notIdle, member, unchecked⟩ := posted
      have negative : (kernel.procs caller).uid < 0 := by
        by_contra positive
        exact unchecked ⟨by omega, foreign⟩
      apply notePost_full
      by_contra room
      exact sealed ⟨negative, slot, inside, live, pid, notIdle, member, foreign, by omega⟩
    · rw [if_neg posted]

/-- A SYS_POSTNOTE to a group by a process whose uid is negative, which
`note_post_group` takes for a post of the kernel. -/
def reachesOut (procsMax : Nat) (kernel : Kernel) : Action → Prop
  | .postnote caller a0 a1 _ => a1 = 1 ∧ leaks procsMax kernel caller (toInt a0)
  | _ => False

theorem confined_postnote (nonroot : (kernel.procs caller).uid ≠ 0) (a0 a1 : Register)
    (msg : String) :
    Confined procsMax kernel (sysPostnote procsMax kernel caller a0 a1 msg).2
        (kernel.procs caller).uid ↔
      ¬ reachesOut procsMax kernel (.postnote caller a0 a1 msg) := by
  by_cases toGroup : a1 = 1
  · subst toGroup
    simpa [sysPostnote, reachesOut] using confined_group nonroot (toInt a0) msg
  · have confined : Confined procsMax kernel (sysPostnote procsMax kernel caller a0 a1 msg).2
        (kernel.procs caller).uid := by
      simp only [sysPostnote, toGroup, ↓reduceIte]
      split
      · exact confined_refl
      split
      · next allowed =>
          apply confined_set
          rcases allowed.2 with root | same
          · exact absurd root nonroot
          · exact .inl same.symm
      · exact confined_refl
    exact iff_of_true confined fun reached => toGroup reached.1

theorem confined_setuid (nonroot : (kernel.procs caller).uid ≠ 0) (a0 : Register) :
    Confined procsMax kernel (sysSetuid kernel caller a0).2 (kernel.procs caller).uid := by
  rw [sysSetuid, if_pos nonroot]
  exact confined_refl

/-- One system call of a process that is not root. -/
theorem confined_step {call : Action} {after : Kernel} (issued : call.caller = some caller)
    (nonroot : (kernel.procs caller).uid ≠ 0) (stepped : step procsMax kernel call = some after) :
    Confined procsMax kernel after (kernel.procs caller).uid ↔
      ¬ reachesOut procsMax kernel call := by
  have performed : perform procsMax kernel call = after := by
    simp only [step] at stepped
    split at stepped
    · exact Option.some.inj stepped
    · cases stepped
  subst performed
  cases call with
  | create => cases issued
  | interrupt => cases issued
  | resume => cases issued
  | postnote poster a0 a1 msg =>
    obtain rfl : poster = caller := Option.some.inj issued
    exact confined_postnote nonroot a0 a1 msg
  | rfork forker a0 fits =>
    obtain rfl : forker = caller := Option.some.inj issued
    exact iff_of_true (confined_rfork a0 fits) id
  | setuid dropper a0 =>
    obtain rfl : dropper = caller := Option.some.inj issued
    exact iff_of_true (confined_setuid nonroot a0) id
  | kill killer a0 a1 =>
    obtain rfl : killer = caller := Option.some.inj issued
    exact iff_of_true (confined_kill nonroot a0 a1) id
  | wake waker a0 a1 =>
    obtain rfl : waker = caller := Option.some.inj issued
    exact iff_of_true (confined_wake nonroot a0 a1) id
  | noted reader a0 =>
    obtain rfl : reader = caller := Option.some.inj issued
    exact iff_of_true (confined_noted (toInt a0)) id
  | deliver reader stackOk =>
    obtain rfl : reader = caller := Option.some.inj issued
    exact iff_of_true (confined_deliver stackOk) id
  | exit leaver =>
    obtain rfl : leaver = caller := Option.some.inj issued
    exact iff_of_true (confined_destroy_self rfl) id
  | notify reader a0 =>
    obtain rfl : reader = caller := Option.some.inj issued
    exact iff_of_true (confined_set (.inl rfl) _) id
  | await waiter =>
    obtain rfl : waiter = caller := Option.some.inj issued
    exact iff_of_true (confined_set (.inl rfl) _) id
  | block waiter waitPid waitGeneration =>
    obtain rfl : waiter = caller := Option.some.inj issued
    exact iff_of_true (confined_set (.inl rfl) _) id

/-- However the system calls of all processes are interleaved and from whatever
state they start, every call of a process that is not root leaves the processes of
other uids alone, exactly when none of these calls is a group post of a process with
a negative uid that reaches one of them. -/
theorem user_isolation (procsMax : Nat) (kernel : Kernel) (calls : List Action) :
    Along (step procsMax) (fun before call after => ∀ caller, call.caller = some caller →
        (before.procs caller).uid ≠ 0 →
        Confined procsMax before after (before.procs caller).uid) kernel calls ↔
      Along (step procsMax) (fun before call _ => ∀ caller, call.caller = some caller →
        (before.procs caller).uid ≠ 0 → ¬ reachesOut procsMax before call) kernel calls := by
  refine along_congr (fun before call after stepped => ?_) kernel calls
  refine forall_congr' fun caller => forall_congr' fun issued => forall_congr' fun nonroot => ?_
  exact confined_step issued nonroot stepped

/-- A root process makes its uid -1, so that its post to the group of pid 3, a root
process, passes for a kernel post; the note kills pid 3 when it is next scheduled. -/
def beforePost : Kernel :=
  outcome (step 64) (fun _ _ => True) boot [.create, .create, .setuid 1 (-1)]

def afterPost : Kernel :=
  outcome (step 64) (fun _ _ => True) beforePost [.postnote 1 3 1 "kill"]

def afterDelivery : Kernel := outcome (step 64) (fun _ _ => True) afterPost [.deliver 2 true]

theorem note_crosses_uids :
    Reach (step 64) (fun _ _ => True) boot beforePost ∧
      (beforePost.procs 1).uid = -1 ∧ (beforePost.procs 2).uid = 0 ∧
      step 64 beforePost (.postnote 1 3 1 "kill") = some afterPost ∧
      (sysPostnote 64 beforePost 1 3 1 "kill").1 = 1 ∧
      ¬ Confined 64 beforePost afterPost (beforePost.procs 1).uid ∧
      step 64 afterPost (.deliver 2 true) = some afterDelivery ∧
      (afterDelivery.procs 2).state = .unused := by
  refine ⟨outcome_reach _ _ (by decide), by decide, by decide, rfl,
    by decide, fun confined => ?_, rfl, by decide⟩
  have kept := (confined 2 (by decide) (by decide) (by decide)).notes
  exact absurd kept (by decide)

end Racccoon.Uids
