import Mathlib.Algebra.GroupWithZero.Nat
import Racccoon.Lib.Run
import Racccoon.Process

/-!
Futexes, SYS_WAKE and notes: `sys_futex_wait`, SYS_FUTEX_WAKE and SYS_WAKE of
`src/syscalls.c3` and `src/note.c3`. Kernel code is not preempted, so one step is
what a process does from a system call (or from being scheduled inside one) to
its return or its next `yield`. Slots are indexed by pid. The parked register
state of a note handler is not modelled, nor is the permission check of
SYS_POSTNOTE: it only decides whether a post happens.
-/

namespace Racccoon.Futex

open Run

/-- Where a process is: in user mode, in SYS_FUTEX_WAIT's loop (`ticket` tells one
wait from another), or in the loop of some other blocking system call. -/
inductive Place where
  | user
  | futexWait (ticket : Nat)
  | elsewhere
  deriving DecidableEq

structure Proc where
  state : ProcState
  generation : Nat
  uid : Nat
  space : Nat
  futexAddr : Nat
  futexPaddr : Nat
  wakePending : Bool
  notes : List String
  noteHandler : Nat
  inNote : Bool
  noteIntr : Bool
  noteSavedIntr : Bool
  place : Place

/-- `user_range_valid` followed by `user_vaddr_to_paddr`, for every page table.
No user leaf is ever mapped at address 0. -/
structure AddressMap where
  lookup : Nat → Nat → Option Nat
  nullUnmapped : ∀ space, lookup space 0 = none

structure Kernel where
  procs : Nat → Proc
  idleProc : Nat
  map : AddressMap
  words : Nat → Int
  tickets : Nat

def nnote : Nat := 5
def noteMax : Nat := 64
def ncont : Int := 0

variable (kernel : Kernel)
variable (pid : Nat) (proc : Proc)

def Kernel.set : Kernel :=
  { kernel with procs := Function.update kernel.procs pid proc }

/-- `if (p.state == PROC_BLOCKED) { p.state = PROC_RUNNABLE; }` -/
def Proc.rouse : Proc :=
  if proc.state = .blocked then { proc with state := .runnable } else proc

def noteDeliverable : Bool := !proc.notes.isEmpty && !proc.inNote

def noteInterrupted : Proc := { proc with noteIntr := true, state := .runnable }

def notePost (target : Nat) (msg : String) : Bool × Kernel :=
  let proc := kernel.procs target
  if proc.notes.length ≥ nnote then (false, kernel)
  else (true, kernel.set target
    { proc with notes := proc.notes ++ [String.ofList (msg.toList.take (noteMax - 1))] }.rouse)

def procDestroy (target : Nat) : Kernel :=
  kernel.set target { kernel.procs target with state := .unused, place := .user }

/-- `stackOk` is the `user_range_valid` check of the message's place on the user stack. -/
def noteDeliver (stackOk : Bool) : Kernel :=
  let proc := kernel.procs pid
  match proc.notes, proc.inNote with
  | msg :: rest, false =>
    let popped := { proc with notes := rest }
    if proc.noteHandler = 0 || msg == "kill" || !stackOk then
      procDestroy (kernel.set pid popped) pid
    else kernel.set pid { popped with noteSavedIntr := proc.noteIntr, inNote := true }
  | _, _ => kernel

def noteNoted (how : Int) : Kernel :=
  let proc := kernel.procs pid
  if !proc.inNote then kernel
  else if how ≠ ncont then procDestroy kernel pid
  else kernel.set pid { proc with noteIntr := proc.noteSavedIntr, inNote := false }

/-- SYS_FUTEX_WAIT up to its return (`some`) or its first `yield` (`none`). -/
def sysFutexWait (pid futexAddr : Nat) (futexExpected : Int) : Option Int × Kernel :=
  let proc := kernel.procs pid
  match kernel.map.lookup proc.space futexAddr with
  | none => (some (-1), kernel)
  | some paddr =>
    if kernel.words paddr ≠ futexExpected then (some 0, kernel)
    else
      (none, { kernel.set pid { proc with
        futexAddr := futexAddr
        futexPaddr := paddr
        state := .blocked
        place := .futexWait kernel.tickets } with tickets := kernel.tickets + 1 })

/-- The rest of SYS_FUTEX_WAIT's loop body, when `yield` comes back. -/
def resumeFutexWait : Option Int × Kernel :=
  let proc := kernel.procs pid
  if proc.futexAddr = 0 then (some 0, kernel.set pid { proc with place := .user })
  else if noteDeliverable proc then
    (some (-1), kernel.set pid (noteInterrupted { proc with futexAddr := 0, place := .user }))
  else (none, kernel.set pid { proc with state := .blocked })

/-- One pass of SYS_FUTEX_WAKE's loop. -/
def wakeWaiter (wakePaddr : Nat) (waiter : Proc) : Proc :=
  if waiter.state ≠ .blocked then waiter
  else if waiter.futexAddr = 0 ∨ waiter.futexPaddr ≠ wakePaddr then waiter
  else { waiter with futexAddr := 0, state := .runnable }

variable (procsMax : Nat)

def inTable (pid : Nat) : Prop := 1 ≤ pid ∧ pid ≤ procsMax

instance (pid : Nat) : Decidable (inTable procsMax pid) := inferInstanceAs (Decidable (_ ∧ _))

variable (kernel : Kernel)

def sysFutexWake (pid wakeAddr : Nat) : Int × Kernel :=
  match kernel.map.lookup (kernel.procs pid).space wakeAddr with
  | none => (-1, kernel)
  | some wakePaddr =>
    (0, { kernel with
      procs := fun waiter =>
        if inTable procsMax waiter then wakeWaiter wakePaddr (kernel.procs waiter)
        else kernel.procs waiter })

variable (pid : Nat)

/-- `proc_by_pid` finds only live processes. -/
def procByPid : Option Proc :=
  if inTable procsMax pid ∧ (kernel.procs pid).state ≠ .unused then some (kernel.procs pid)
  else none

def sysWake (pid target generation : Nat) : Int × Kernel :=
  let current := kernel.procs pid
  match procByPid procsMax kernel target with
  | none => (-1, kernel)
  | some proc =>
    if target = kernel.idleProc ∨ (generation ≠ 0 ∧ proc.generation ≠ generation) ∨
        (current.uid ≠ 0 ∧ current.uid ≠ proc.uid) then (-1, kernel)
    else (0, kernel.set target { proc with wakePending := true }.rouse)

def unusedSlot : Option Nat :=
  (List.range' 1 procsMax).find? fun pid => (kernel.procs pid).state = .unused

/-- The fields of a reused slot that creation resets; `futex_addr` is not one of them. -/
def born (slot : Proc) (space uid handler : Nat) (inNote savedIntr : Bool) : Proc :=
  { slot with
    state := .runnable
    generation := (slot.generation + 1) % 2 ^ 32
    uid := uid
    space := space
    wakePending := false
    notes := []
    noteHandler := handler
    inNote := inNote
    noteIntr := false
    noteSavedIntr := savedIntr
    place := .user }

def createProcess (space : Nat) : Kernel :=
  match unusedSlot procsMax kernel with
  | none => kernel
  | some pid =>
    let slot := kernel.procs pid
    kernel.set pid (born slot space 0 0 false slot.noteSavedIntr)

/-- `space` is the child's own table when the address space is not shared. -/
def sysRfork (parent : Nat) (rfmem : Bool) (space : Nat) : Kernel :=
  match unusedSlot procsMax kernel with
  | none => kernel
  | some pid =>
    let current := kernel.procs parent
    kernel.set pid (born (kernel.procs pid) (if rfmem then current.space else space) current.uid
      current.noteHandler current.inNote false)

inductive Action where
  | create (space : Nat)
  | rfork (caller : Nat) (rfmem : Bool) (space : Nat)
  | futexWait (caller futexAddr : Nat) (futexExpected : Int)
  | futexWake (caller wakeAddr : Nat)
  | wake (caller target generation : Nat)
  | notePost (target : Nat) (msg : String)
  | notify (caller handler : Nat)
  | noted (caller : Nat) (how : Int)
  | deliver (caller : Nat) (stackOk : Bool)
  | interrupted (caller : Nat)
  | block (caller : Nat)
  | resume (pid : Nat) (returns : Bool)
  | kill (victim : Nat)
  | store (paddr : Nat) (word : Int)
  | remap (map : AddressMap)

/-- The process in user mode an action is a system call (or trap) of. -/
def Action.caller : Action → Option Nat
  | .rfork caller .. | .futexWait caller .. | .futexWake caller _ | .wake caller ..
  | .notify caller _ | .noted caller _ | .deliver caller _ | .interrupted caller
  | .block caller => some caller
  | _ => none

def running : Prop :=
  (kernel.procs pid).state = .runnable ∧ (kernel.procs pid).place = .user

instance : Decidable (running kernel pid) :=
  inferInstanceAs (Decidable (_ ∧ _))

/-- A scheduled process that is inside a blocking call goes on there. In a call
other than SYS_FUTEX_WAIT it returns or sleeps again, as that call decides. -/
def resume (returns : Bool) : Option Kernel :=
  let proc := kernel.procs pid
  if proc.state ≠ .runnable then none
  else match proc.place with
    | .user => none
    | .futexWait _ => some (resumeFutexWait kernel pid).2
    | .elsewhere => some (kernel.set pid
        (if returns then { proc with place := .user } else { proc with state := .blocked }))

def perform : Action → Option Kernel
  | .create space => some (createProcess procsMax kernel space)
  | .rfork caller rfmem space => some (sysRfork procsMax kernel caller rfmem space)
  | .futexWait caller futexAddr futexExpected =>
    some (sysFutexWait kernel caller futexAddr futexExpected).2
  | .futexWake caller wakeAddr => some (sysFutexWake procsMax kernel caller wakeAddr).2
  | .wake caller target generation => some (sysWake procsMax kernel caller target generation).2
  | .notePost target msg =>
    (procByPid procsMax kernel target).map fun _ => (notePost kernel target msg).2
  | .notify caller handler =>
    some (kernel.set caller { kernel.procs caller with noteHandler := handler })
  | .noted caller how => some (noteNoted kernel caller how)
  | .deliver caller stackOk => some (noteDeliver kernel caller stackOk)
  | .interrupted caller => some (kernel.set caller { kernel.procs caller with noteIntr := false })
  | .block caller => some (kernel.set caller
      { kernel.procs caller with state := .blocked, place := .elsewhere })
  | .resume pid returns => resume kernel pid returns
  | .kill victim => (procByPid procsMax kernel victim).map fun _ => procDestroy kernel victim
  | .store paddr word => some { kernel with words := Function.update kernel.words paddr word }
  | .remap map => some { kernel with map := map }

def step (action : Action) : Option Kernel :=
  if ∀ caller ∈ action.caller, running kernel caller then perform procsMax kernel action else none

def boot : Kernel where
  procs _ := ⟨.unused, 0, 0, 0, 0, 0, false, [], 0, false, false, false, .user⟩
  idleProc := 1
  map := ⟨fun _ _ => none, fun _ => rfl⟩
  words _ := 0
  tickets := 0

end Racccoon.Futex
