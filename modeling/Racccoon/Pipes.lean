import Racccoon.Lib.Census
import Racccoon.Lib.Run

/-!
Anonymous pipes: `src/pipe.c3` and the pipe cases of `src/syscalls.c3`.
A process is reduced to its two pipe ends, its parent and whether its slot is
taken; slots are indexed by pid (slot index + 1). Both counts are C `int`s, so
raising one past 2^31 - 1 wraps. `holds` is history: the SYS_PIPE_HOLD claims
not yet released, which no kernel variable records.
-/

namespace Racccoon.Pipes

open Census

def pipesMax : Nat := 16
def pipeBuf : Nat := 4096
def intMax : Int := 2147483647

structure Pipe where
  data : Nat → UInt8
  head : Nat
  count : Nat
  writers : Int
  readers : Int
  used : Bool

structure Proc where
  live : Bool
  parentPid : Nat
  stdoutPipe : Int
  stdinPipe : Int

structure Kernel where
  procs : Nat → Proc
  pipes : Nat → Pipe
  holds : Nat → Bool → Nat

/-- Every function below treats the two ends alike; `asWriter` picks one. -/
def Pipe.refs (pipe : Pipe) (asWriter : Bool) : Int :=
  if asWriter then pipe.writers else pipe.readers

def Pipe.setRefs (pipe : Pipe) (asWriter : Bool) (value : Int) : Pipe :=
  if asWriter then { pipe with writers := value } else { pipe with readers := value }

def Proc.pipeEnd (proc : Proc) (asWriter : Bool) : Int :=
  if asWriter then proc.stdoutPipe else proc.stdinPipe

def Proc.setEnd (proc : Proc) (asWriter : Bool) (value : Int) : Proc :=
  if asWriter then { proc with stdoutPipe := value } else { proc with stdinPipe := value }

def increment (value : Int) : Int := if value = intMax then -intMax - 1 else value + 1

variable (pipes : Nat → Pipe) (id : Int)

def pipeValid : Bool :=
  decide (0 ≤ id ∧ id < pipesMax) && (pipes id.toNat).used

def pipeAlloc : Int × (Nat → Pipe) :=
  match (List.range pipesMax).find? fun i => !(pipes i).used with
  | none => (-1, pipes)
  | some i => (i, Function.update pipes i
      { pipes i with used := true, head := 0, count := 0, writers := 0, readers := 0 })

def pipeFreeIfIdle : Nat → Pipe :=
  if pipeValid pipes id ∧ (pipes id.toNat).writers = 0 ∧ (pipes id.toNat).readers = 0 then
    Function.update pipes id.toNat { pipes id.toNat with used := false }
  else pipes

def pipeDetach (asWriter : Bool) : Nat → Pipe :=
  if !pipeValid pipes id then pipes
  else
    let refs := (pipes id.toNat).refs asWriter
    let lowered := if refs > 0 then
      Function.update pipes id.toNat ((pipes id.toNat).setRefs asWriter (refs - 1)) else pipes
    pipeFreeIfIdle lowered id

/-- `pipes[id].writers++` / `pipes[id].readers++`. -/
def pipeAttach (asWriter : Bool) : Nat → Pipe :=
  Function.update pipes id.toNat
    ((pipes id.toNat).setRefs asWriter (increment ((pipes id.toNat).refs asWriter)))

def pipeTryPut (byte : UInt8) : Bool × (Nat → Pipe) :=
  let pipe := pipes id.toNat
  if !pipeValid pipes id || pipe.readers == 0 then (true, pipes)
  else if pipe.count ≥ pipeBuf then (false, pipes)
  else (true, Function.update pipes id.toNat { pipe with
    data := Function.update pipe.data ((pipe.head + pipe.count) % pipeBuf) byte
    count := pipe.count + 1 })

inductive Got where
  | byte (value : UInt8)
  | empty
  | eof

def pipeTryGet : Got × (Nat → Pipe) :=
  let pipe := pipes id.toNat
  if !pipeValid pipes id then (.eof, pipes)
  else if pipe.count > 0 then
    (.byte (pipe.data pipe.head), Function.update pipes id.toNat { pipe with
      head := (pipe.head + 1) % pipeBuf
      count := pipe.count - 1 })
  else (if pipe.writers = 0 then .eof else .empty, pipes)

/-- One pass of SYS_PIPE_READ's loop, up to the point where it returns or
yields: at most `more + 1` bytes, because the loop takes a byte before it
compares against `rmax`. -/
def readPass (pipes : Nat → Pipe) (id : Int) : Nat → List UInt8 × (Nat → Pipe)
  | 0 =>
    match pipeTryGet pipes id with
    | (.byte value, after) => ([value], after)
    | (_, after) => ([], after)
  | more + 1 =>
    match pipeTryGet pipes id with
    | (.byte value, after) =>
      let rest := readPass after id more
      (value :: rest.1, rest.2)
    | (_, after) => ([], after)

def sysPipeRead (rmax : Nat) : List UInt8 × (Nat → Pipe) :=
  readPass pipes id (rmax - 1)

/-- One pass of SYS_PIPE_WRITE's loop; returns the bytes still to be written. -/
def sysPipeWrite (pipes : Nat → Pipe) (id : Int) : List UInt8 → List UInt8 × (Nat → Pipe)
  | [] => ([], pipes)
  | byte :: rest =>
    match pipeTryPut pipes id byte with
    | (true, after) => sysPipeWrite after id rest
    | (false, after) => (byte :: rest, after)

variable (procsMax : Nat)
variable (kernel : Kernel)

def procByPid (pid : Int) : Option Nat :=
  if 1 ≤ pid ∧ pid ≤ procsMax ∧ (kernel.procs pid.toNat).live then some pid.toNat else none

def unusedSlot : Option Nat :=
  (List.range' 1 procsMax).find? fun pid => !(kernel.procs pid).live

/-- The guard of SYS_PIPE_SETOUT / SYS_PIPE_SETIN: self or a direct child, and a
pipe in use unless the end is only detached. -/
def setEndAllowed (current target : Nat) (spipe : Int) : Bool :=
  decide (target = current ∨ (kernel.procs target).parentPid = current) &&
    (decide (spipe < 0) || pipeValid kernel.pipes spipe)

/-- SYS_PIPE_SETOUT and SYS_PIPE_SETIN: the first element is what the caller gets. -/
def sysPipeSetEnd (current : Nat) (spid spipe : Int) (asWriter : Bool) : Int × Kernel :=
  match procByPid procsMax kernel spid with
  | none => (-1, kernel)
  | some target =>
    if !setEndAllowed kernel current target spipe then (-1, kernel)
    else
      let old := (kernel.procs target).pipeEnd asWriter
      let pipes := if 0 ≤ old then pipeDetach kernel.pipes old asWriter else kernel.pipes
      let procs := Function.update kernel.procs target
        ((kernel.procs target).setEnd asWriter spipe)
      let pipes := if 0 ≤ spipe then pipeAttach pipes spipe asWriter else pipes
      (0, { kernel with procs := procs, pipes := pipes })

def sysPipeSetout (current : Nat) (spid spipe : Int) : Int × Kernel :=
  sysPipeSetEnd procsMax kernel current spid spipe true

def sysPipeSetin (current : Nat) (spid spipe : Int) : Int × Kernel :=
  sysPipeSetEnd procsMax kernel current spid spipe false

/-- SYS_PIPE_HOLD, with the claim it records in `holds`. -/
def sysPipeHold (hid : Int) (asWriter : Bool) (delta : Int) : Int × Kernel :=
  if !pipeValid kernel.pipes hid then (-1, kernel)
  else
    let held := kernel.holds hid.toNat asWriter
    let record (count : Nat) := Function.update kernel.holds hid.toNat
      (Function.update (kernel.holds hid.toNat) asWriter count)
    if 0 ≤ delta then
      (0, { kernel with
        pipes := pipeAttach kernel.pipes hid asWriter
        holds := record (held + 1) })
    else
      (0, { kernel with
        pipes := pipeDetach kernel.pipes hid asWriter
        holds := record (held - 1) })

/-- The pipe lines of `proc_destroy`, one end at a time. -/
def dropEnd (pid : Nat) (asWriter : Bool) : Kernel :=
  let old := (kernel.procs pid).pipeEnd asWriter
  if 0 ≤ old then
    { kernel with
      pipes := pipeDetach kernel.pipes old asWriter
      procs := Function.update kernel.procs pid ((kernel.procs pid).setEnd asWriter (-1)) }
  else kernel

def procDestroy (pid : Nat) : Kernel :=
  let kernel := dropEnd (dropEnd kernel pid true) pid false
  { kernel with procs := Function.update kernel.procs pid { kernel.procs pid with live := false } }

/-- The end `sys_rfork` gives the child: an explicit pipe if the caller named a
pipe in use, else the parent's own end. -/
def wantedEnd (parent : Nat) (rfmem : Bool) (explicitPipe : Int) (asWriter : Bool) : Int :=
  if !rfmem && decide (0 ≤ explicitPipe) && pipeValid kernel.pipes explicitPipe then explicitPipe
  else (kernel.procs parent).pipeEnd asWriter

/-- The pipe lines of `sys_rfork`, one end at a time. -/
def inheritEnd (parent child : Nat) (rfmem : Bool) (explicitPipe : Int)
    (asWriter : Bool) : Kernel :=
  let wanted := wantedEnd kernel parent rfmem explicitPipe asWriter
  if 0 ≤ wanted ∧ pipeValid kernel.pipes wanted then
    { kernel with
      procs := Function.update kernel.procs child ((kernel.procs child).setEnd asWriter wanted)
      pipes := pipeAttach kernel.pipes wanted asWriter }
  else
    { kernel with
      procs := Function.update kernel.procs child ((kernel.procs child).setEnd asWriter (-1)) }

def bornProc (parent : Nat) : Proc := ⟨true, parent, -1, -1⟩

def sysRfork (parent : Nat) (rfmem : Bool) (outPipe inPipe : Int) : Int × Kernel :=
  match unusedSlot procsMax kernel with
  | none => (-1, kernel)
  | some child =>
    let claimed := { kernel with procs := Function.update kernel.procs child (bornProc parent) }
    (child, inheritEnd (inheritEnd claimed parent child rfmem outPipe true)
      parent child rfmem inPipe false)

def createProcess : Kernel :=
  match unusedSlot procsMax kernel with
  | none => kernel
  | some pid => { kernel with procs := Function.update kernel.procs pid (bornProc 0) }

/-- A system call (or the supervisor's spawn) that touches pipes or process
lifetimes, made by the live process `caller`. SYS_EXEC keeps both ends. -/
inductive Action where
  | create
  | pipe (caller : Nat)
  | setEnd (caller : Nat) (spid spipe : Int) (asWriter : Bool)
  | hold (caller : Nat) (hid : Int) (asWriter : Bool) (delta : Int)
  | read (caller : Nat) (rid : Int) (max : Nat)
  | write (caller : Nat) (wid : Int) (bytes : List UInt8)
  | rfork (caller : Nat) (rfmem : Bool) (outPipe inPipe : Int)
  | exec (caller : Nat)
  | exit (caller : Nat)
  | kill (caller : Nat) (target : Int)

def Action.caller : Action → Option Nat
  | .create => none
  | .pipe caller | .setEnd caller .. | .hold caller .. | .read caller .. | .write caller ..
  | .rfork caller .. | .exec caller | .exit caller | .kill caller _ => some caller

def perform : Action → Kernel
  | .create => createProcess procsMax kernel
  | .pipe _ => { kernel with pipes := (pipeAlloc kernel.pipes).2 }
  | .setEnd caller spid spipe asWriter =>
    (sysPipeSetEnd procsMax kernel caller spid spipe asWriter).2
  | .hold _ hid asWriter delta => (sysPipeHold kernel hid asWriter delta).2
  | .read _ rid max => { kernel with pipes := (sysPipeRead kernel.pipes rid max).2 }
  | .write _ wid bytes => { kernel with pipes := (sysPipeWrite kernel.pipes wid bytes).2 }
  | .rfork caller rfmem outPipe inPipe =>
    (sysRfork procsMax kernel caller rfmem outPipe inPipe).2
  | .exec _ => kernel
  | .exit caller => procDestroy kernel caller
  | .kill caller target =>
    match procByPid procsMax kernel target with
    | none => kernel
    | some victim => if victim = caller then kernel else procDestroy kernel victim

def step (action : Action) : Option Kernel :=
  if ∀ caller ∈ action.caller, (kernel.procs caller).live then some (perform procsMax kernel action)
  else none

def boot : Kernel :=
  ⟨fun _ => ⟨false, 0, -1, -1⟩, fun _ => ⟨fun _ => 0, 0, 0, 0, 0, false⟩, fun _ _ => 0⟩

end Racccoon.Pipes
