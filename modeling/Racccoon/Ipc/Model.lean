import Mathlib.Algebra.GroupWithZero.Nat
import Racccoon.Lib.LinkedQueue
import Racccoon.Lib.Run
import Racccoon.Process

/-!
Message passing between processes: `sys_ipc_send`, `sys_ipc_reply`, `sys_ipc_call`,
`sys_ipc_recv`, `sys_ipc_recv_gen`, `sys_ipc_poll` and their helpers, `proc_destroy`
and the slot reset of `create_process` and `sys_rfork` from `src/syscalls.c3` and
`src/process.c3`, and `ipc_timeout_sweep` from `src/entry.c3`.

Slots are indexed by pid (slot index + 1). Kernel code is not preempted: `turn` is
the process that has entered the kernel and neither yielded nor returned yet, and
only it moves. One step of it is one pass through one of the wait loops. `pc` is
where a process is inside a system call; the call's locals are its `Op`.

`born`, `msgId`, `msgOp`, `joinedAt`, `joinedBorn` and `log` are history: nothing the
kernel decides reads them. `ipc_progress` and `blocking_depth` are left out, since
nothing here reads them.
-/

namespace Racccoon.Ipc

open Run LinkedQueue

def msgMax : Nat := 8192
def nnote : Nat := 5
/-- Fifteen seconds of the qemu board's time base. -/
def ipcCallDeadlineTicks : Nat := 10000000 * 15

/-- The three ways to deposit a message. -/
inductive Kind where
  | send
  | reply
  | call
  deriving DecidableEq

/-- One `sys_ipc_send`, `sys_ipc_reply` or `sys_ipc_call` and its locals. `started`
tells it from every other; `owed` is the `reply_owed_seq` a reply was checked
against (0 if the check did not apply), `seq` the `call_seq` of a call. -/
structure Op where
  started : Nat
  kind : Kind
  caller : Nat
  callerGeneration : Nat
  dest : Nat
  destGeneration : Nat
  type : Nat
  len : Nat
  cap : Nat
  owed : Nat
  seq : Nat
  deriving DecidableEq

/-- Where a process is: in user mode, asleep in a system call that does not use its
inbox, in `ipc_recv`'s loop, or in one of the loops of an `Op`: queued for the
target's inbox, waiting for the ack of deposit `id`, or in `ipc_call`'s last phase. -/
inductive Pc where
  | user
  | elsewhere
  | receiving (len : Int)
  | queued (op : Op)
  | acking (op : Op) (id : Nat)
  | awaiting (op : Op) (id : Nat)
  deriving DecidableEq

structure Inbox where
  hasMessage : Bool
  msgFrom : Nat
  msgFromGeneration : Nat
  msgType : Nat
  msgCallSeq : Nat
  msgData : List UInt8
  msgId : Nat
  msgOp : Op

structure Wait where
  ipcWaitPid : Nat
  ipcWaitGeneration : Nat
  ipcPeerDied : Bool
  inCallReplyWait : Bool
  ipcBounced : Bool
  msgAcked : Bool

structure Timer where
  ipcCallDeadline : Nat
  ipcTimedOut : Bool

structure Link where
  ipcQHead : Nat
  ipcQNext : Nat
  ipcQTarget : Nat
  joinedAt : Nat
  joinedBorn : Nat

structure Owed where
  replyOwedPid : Nat
  replyOwedGen : Nat
  replyOwedSeq : Nat

structure Notes where
  noteCount : Nat
  inNote : Bool
  noteIntr : Bool

structure Process where
  state : ProcState
  generation : Nat
  born : Nat
  callSeq : Nat
  inbox : Inbox
  wait : Wait
  timer : Timer
  link : Link
  owed : Owed
  notes : Notes
  driverIrqPending : Bool
  pc : Pc

/-- What happened, newest first in a kernel's log. Deposits are numbered by the
length of the log, and `moment` is that length when a message was consumed or
evicted. A reader asks for `cap` bytes. `during` is the call its target was in when a message was deposited. -/
inductive Event where
  | created (pid : Nat)
  | enqueued (op : Op)
  | deposited (id : Nat) (op : Op) (bytes : List UInt8) (during : Option Nat)
  | consumed (id : Nat) (op : Op) (reader readerGeneration moment cap : Nat)
      (handed : List UInt8)
  | evicted (id : Nat) (op : Op) (moment : Nat)
  | succeeded (op : Op) (id : Nat)
  | answered (op : Op) (id : Nat) (answer : Op) (type : Nat) (handed : List UInt8)
  | failed (op : Op)
  deriving DecidableEq

structure Kernel where
  procs : Nat → Process
  log : List Event
  turn : Option Nat

variable (procsMax : Nat)
variable (kernel : Kernel)

def Kernel.modify (pid : Nat) (change : Process → Process) : Kernel :=
  { kernel with procs := Function.update kernel.procs pid (change (kernel.procs pid)) }

def Kernel.record (event : Event) : Kernel :=
  { kernel with log := event :: kernel.log }

def Kernel.give (turn : Option Nat) : Kernel := { kernel with turn := turn }

variable (proc : Process)

/-- `if (p.state == PROC_BLOCKED) { p.state = PROC_RUNNABLE; }` -/
def Process.rouse : Process :=
  if proc.state = .blocked then { proc with state := .runnable } else proc

def Process.unblock : Process := { proc with state := .runnable }

def noteDeliverable : Bool :=
  decide (proc.notes.noteCount > 0) && !proc.notes.inNote

/-- The `ipc_call` a process is in, if any. -/
def Pc.call : Pc → Option Op
  | .queued op | .acking op _ | .awaiting op _ => if op.kind = .call then some op else none
  | _ => none

def copyLen (len : Int) : Nat := min len.toNat msgMax

/-- Whether `proc_by_pid` finds a process; it is then the slot `pid`. -/
def procByPid (pid : Nat) : Bool :=
  decide (1 ≤ pid ∧ pid ≤ procsMax) && decide ((kernel.procs pid).state ≠ .unused)

variable (current : Nat)

def ipcPeerGone : Bool :=
  let wait := (kernel.procs current).wait
  decide (wait.ipcWaitPid ≠ 0) && (wait.ipcPeerDied || !procByPid procsMax kernel wait.ipcWaitPid ||
    decide ((kernel.procs wait.ipcWaitPid).generation ≠ wait.ipcWaitGeneration))

def ipcInboxAvailable (current target : Nat) : Bool :=
  let proc := kernel.procs target
  !proc.inbox.hasMessage && !(proc.wait.inCallReplyWait &&
    !decide (current = proc.wait.ipcWaitPid ∧
      (kernel.procs current).generation = proc.wait.ipcWaitGeneration))

def ipcCanDeposit (current target : Nat) : Bool :=
  ipcInboxAvailable kernel current target &&
    ((kernel.procs target).wait.inCallReplyWait ||
      decide ((kernel.procs target).link.ipcQHead = current))

def Kernel.next (pid : Nat) : Nat := (kernel.procs pid).link.ipcQNext

/-- The pid field of a slot, which `proc_destroy` zeroes. -/
def Kernel.pid (slot : Nat) : Nat :=
  if (kernel.procs slot).state = .unused then 0 else slot

def setHead (pid head : Nat) : Kernel :=
  kernel.modify pid fun proc => { proc with link := { proc.link with ipcQHead := head } }

def setNext (pid next : Nat) : Kernel :=
  kernel.modify pid fun proc => { proc with link := { proc.link with ipcQNext := next } }

def setTarget (pid target joinedAt joinedBorn : Nat) : Kernel :=
  kernel.modify pid fun proc => { proc with link := { proc.link with
    ipcQNext := 0
    ipcQTarget := target
    joinedAt := joinedAt
    joinedBorn := joinedBorn } }

def ipcQEnqueue (current target : Nat) : Kernel :=
  let linked := setTarget kernel current (kernel.pid target) kernel.log.length
    (kernel.procs target).born
  let head := (linked.procs target).link.ipcQHead
  if head = 0 then setHead linked target current
  else setNext linked (lastFrom linked.next head procsMax) current

/-- The search loop of `ipc_q_remove`: the link that holds `self` is the target's
head or the next link of an earlier sender. -/
def ipcQUnlink (self target : Nat) : Kernel :=
  let head := (kernel.procs target).link.ipcQHead
  if head = 0 then kernel
  else if head = self then setHead kernel target (kernel.next self)
  else match linkTo kernel.next self head (procsMax - 1) with
    | none => kernel
    | some link => setNext kernel link (kernel.next self)

def ipcQRemove (self : Nat) : Kernel :=
  let link := (kernel.procs self).link
  let unlinked := if link.ipcQTarget ≠ 0 then ipcQUnlink procsMax kernel self link.ipcQTarget
    else kernel
  setTarget unlinked self 0 link.joinedAt link.joinedBorn

/-- The loop of `ipc_inbox_freed`, with `guard` passes left. -/
def rouseQueue (kernel : Kernel) : Nat → Nat → Kernel
  | _, 0 => kernel
  | q, guard + 1 =>
    if q = 0 then kernel
    else rouseQueue (kernel.modify q Process.rouse) (kernel.next q) guard

def ipcInboxFreed (target : Nat) : Kernel :=
  rouseQueue kernel (kernel.procs target).link.ipcQHead procsMax

/-- One pass of the loop of `ipc_wake_waiters_on`. -/
def peerDied (victim victimGeneration : Nat) (waiter : Nat) (proc : Process) : Process :=
  if waiter = victim ∨ proc.state = .unused then proc
  else if proc.wait.ipcWaitPid = victim ∧ proc.wait.ipcWaitGeneration = victimGeneration then
    { proc with wait := { proc.wait with ipcPeerDied := true } }.rouse
  else proc

def ipcWakeWaitersOn (victim : Nat) : Kernel :=
  { kernel with
    procs := fun waiter =>
      if 1 ≤ waiter ∧ waiter ≤ procsMax then
        peerDied victim (kernel.procs victim).generation waiter (kernel.procs waiter)
      else kernel.procs waiter }

/-- The ack at the end of every receive path, to the process named by `msg_from`. -/
def ipcAck (sender : Nat) : Kernel :=
  if procByPid procsMax kernel sender then
    kernel.modify sender fun proc =>
      { proc with wait := { proc.wait with msgAcked := true } }.rouse
  else kernel

def ipcNoteReplyOwed : Kernel :=
  kernel.modify current fun proc => { proc with
    owed := ⟨proc.inbox.msgFrom, proc.inbox.msgFromGeneration, proc.inbox.msgCallSeq⟩ }

def clearInbox (pid : Nat) : Kernel :=
  kernel.modify pid fun proc => { proc with inbox := { proc.inbox with hasMessage := false } }

def setPc (pid : Nat) (pc : Pc) : Kernel :=
  kernel.modify pid fun proc => { proc with pc := pc }

/-- `current_proc.state = PROC_BLOCKED; yield();` -/
def sleep : Kernel :=
  (kernel.modify current fun proc => { proc with state := .blocked }).give none

variable (op : Op)

/-- `ipc_q_enqueue` at the top of a delivery loop. -/
def joinQueue : Kernel :=
  (setPc (ipcQEnqueue procsMax kernel current op.dest) current (.queued op)).record (.enqueued op)

def landed (old : Inbox) (current generation callSeq : Nat) (op : Op) (bytes : List UInt8)
    (id : Nat) : Inbox where
  hasMessage := true
  msgFrom := current
  msgFromGeneration := generation
  msgType := op.type
  msgCallSeq := if op.kind = .call then callSeq else 0
  msgData := bytes ++ old.msgData.drop bytes.length
  msgId := id
  msgOp := op

def fillInbox (sent : List UInt8) (id : Nat) : Kernel :=
  let sender := kernel.procs current
  kernel.modify op.dest fun proc =>
    { proc with inbox := landed proc.inbox current sender.generation sender.callSeq op sent id }

def awaitAck (id : Nat) : Kernel :=
  kernel.modify current fun proc =>
    { proc with wait := { proc.wait with msgAcked := false }, pc := .acking op id }

/-- From leaving the queue to the start of the ack wait; `bytes` is what the
caller's buffer holds now. -/
def ipcDeposit (bytes : List UInt8) : Kernel :=
  let kernel := ipcQRemove procsMax kernel current
  let id := kernel.log.length
  let sent := bytes.take op.len
  let during := ((kernel.procs op.dest).pc.call).map Op.started
  let waiting := awaitAck (fillInbox kernel current op sent id) current op id
  (waiting.modify op.dest Process.rouse).record (.deposited id op sent during)

def clearWaitPid : Kernel :=
  kernel.modify current fun proc => { proc with wait := { proc.wait with ipcWaitPid := 0 } }

/-- How every exit of `sys_ipc_call` lifts the reservation of its inbox. -/
def endCall : Kernel :=
  let lifted := kernel.modify current fun proc =>
    { proc with wait := { proc.wait with inCallReplyWait := false } }
  let freed := clearWaitPid (ipcInboxFreed procsMax lifted current) current
  freed.modify current fun proc => { proc with timer := { proc.timer with ipcCallDeadline := 0 } }

def abort : Kernel :=
  let left := if op.kind = .call then endCall procsMax kernel current
    else clearWaitPid kernel current
  ((setPc (left.modify current Process.unblock) current .user).record (.failed op)).give none

def interrupted : Kernel :=
  kernel.modify current fun proc => { proc with notes := { proc.notes with noteIntr := true } }

def abortQueued (noted : Bool) : Kernel :=
  abort procsMax (ipcQRemove procsMax (if noted then interrupted kernel current else kernel) current)
    current op

def yank (current target : Nat) : Kernel :=
  let proc := kernel.procs target
  if proc.inbox.hasMessage ∧ proc.inbox.msgFrom = current ∧
      proc.inbox.msgFromGeneration = (kernel.procs current).generation then
    ipcInboxFreed procsMax (clearInbox kernel target) target
  else kernel

/-- Returning 0 from `sys_ipc_send` or `sys_ipc_reply`. -/
def succeed (id : Nat) : Kernel :=
  ((setPc (clearWaitPid kernel current) current .user).record (.succeeded op id)).give none

/-- What `sys_ipc_recv`, `sys_ipc_recv_gen` and `sys_ipc_poll` do with a message. -/
def takeMessage (len : Int) : Kernel :=
  let inbox := (kernel.procs current).inbox
  let generation := (kernel.procs current).generation
  let emptied := ipcNoteReplyOwed (clearInbox kernel current) current
  let acked := ipcAck procsMax (ipcInboxFreed procsMax emptied current) inbox.msgFrom
  ((setPc acked current .user).record (.consumed inbox.msgId inbox.msgOp current generation
    kernel.log.length (copyLen len) (inbox.msgData.take (copyLen len)))).give none

/-- What `sys_ipc_call` does with the reply. -/
def takeReply (id : Nat) : Kernel :=
  let inbox := (kernel.procs current).inbox
  let generation := (kernel.procs current).generation
  let handed := inbox.msgData.take op.cap
  let acked := ipcAck procsMax (endCall procsMax (clearInbox kernel current) current) inbox.msgFrom
  ((((setPc acked current .user).record (.consumed inbox.msgId inbox.msgOp current generation
    kernel.log.length op.cap handed)).record (.answered op inbox.msgId inbox.msgOp inbox.msgType
    handed)).record (.succeeded op id)).give none

/-- The hand-back of a pending message at the entry of `sys_ipc_call`. -/
def evict : Kernel :=
  let inbox := (kernel.procs current).inbox
  if inbox.hasMessage then
    let cleared := (clearInbox kernel current).record
      (.evicted inbox.msgId inbox.msgOp kernel.log.length)
    if procByPid procsMax cleared inbox.msgFrom ∧
        (cleared.procs inbox.msgFrom).generation = inbox.msgFromGeneration then
      cleared.modify inbox.msgFrom fun proc =>
        { proc with wait := { proc.wait with ipcBounced := true } }.rouse
    else cleared
  else kernel

def ipcWaitFor (current dest : Nat) : Kernel :=
  kernel.modify current fun proc => { proc with wait := { proc.wait with
    ipcWaitPid := dest
    ipcWaitGeneration := (kernel.procs dest).generation
    ipcPeerDied := false } }

def clearBounced : Kernel :=
  kernel.modify current fun proc => { proc with wait := { proc.wait with ipcBounced := false } }

/-- One pass of the loop the process is in. It keeps the turn if it goes on to the
next loop and gives it up when it yields or returns. -/
def advance (bytes : List UInt8) : Kernel :=
  let proc := kernel.procs current
  match proc.pc with
  | .queued op =>
    if ipcCanDeposit kernel current op.dest then ipcDeposit procsMax kernel current op bytes
    else if op.kind ≠ .reply ∧ noteDeliverable proc then abortQueued procsMax kernel current op true
    else if ipcPeerGone procsMax kernel current ∨ (op.kind = .call ∧ proc.timer.ipcTimedOut) then
      abortQueued procsMax kernel current op false
    else sleep kernel current
  | .acking op id =>
    if op.kind ≠ .reply ∧ proc.wait.ipcBounced then
      -- the redelivery of sys_ipc_send and sys_ipc_call; sys_ipc_reply has none
      joinQueue procsMax (clearBounced kernel current) current op
    else if proc.wait.msgAcked then
      if op.kind = .call then setPc kernel current (.awaiting op id)
      else succeed kernel current op id
    else if op.kind = .call ∧ proc.timer.ipcTimedOut then
      abort procsMax (yank procsMax kernel current op.dest) current op
    else if ipcPeerGone procsMax kernel current then abort procsMax kernel current op
    else sleep kernel current
  | .awaiting op id =>
    if proc.inbox.hasMessage then takeReply procsMax kernel current op id
    else if ipcPeerGone procsMax kernel current ∨ proc.timer.ipcTimedOut then
      abort procsMax kernel current op
    else sleep kernel current
  | .receiving len =>
    if proc.inbox.hasMessage then takeMessage procsMax kernel current len
    else if noteDeliverable proc then
      (setPc ((interrupted kernel current).modify current Process.unblock) current .user).give none
    else sleep kernel current
  | .user | .elsewhere => kernel.give none

/-- `bufferOk` is the outcome of the `user_range_valid` checks. -/
def sysIpcSend (current ipcDestPid ipcType : Nat) (ipcLen : Int) (bufferOk : Bool) : Kernel :=
  if !bufferOk || !procByPid procsMax kernel ipcDestPid then kernel
  else
    let op : Op :=
      { started := kernel.log.length
        kind := .send
        caller := current
        callerGeneration := (kernel.procs current).generation
        dest := ipcDestPid
        destGeneration := (kernel.procs ipcDestPid).generation
        type := ipcType
        len := copyLen ipcLen
        cap := 0
        owed := 0
        seq := 0 }
    (joinQueue procsMax (clearBounced (ipcWaitFor kernel current ipcDestPid) current)
      current op).give (some current)

/-- The test that `reply_target` is still in the `ipc_call` this reply is owed to. -/
def stillWaiting (current target replyOwed : Nat) : Bool :=
  let proc := kernel.procs target
  proc.wait.inCallReplyWait && decide (proc.wait.ipcWaitPid = current) &&
    decide (proc.wait.ipcWaitGeneration = (kernel.procs current).generation) &&
    decide (proc.callSeq = replyOwed)

def sysIpcReply (current replyDestPid replyType : Nat) (replyLen : Int)
    (replyExpectedGeneration : Nat) (bufferOk : Bool) : Kernel :=
  let target := kernel.procs replyDestPid
  let owed := (kernel.procs current).owed
  let owes := owed.replyOwedSeq ≠ 0 ∧ replyDestPid = owed.replyOwedPid ∧
    target.generation = owed.replyOwedGen
  let settled := if owes then kernel.modify current fun proc =>
      { proc with owed := { proc.owed with replyOwedSeq := 0 } }
    else kernel
  if !bufferOk || !procByPid procsMax kernel replyDestPid ||
      (decide (replyExpectedGeneration ≠ 0) &&
        decide (target.generation ≠ replyExpectedGeneration)) then kernel
  else if owes ∧ !stillWaiting kernel current replyDestPid owed.replyOwedSeq then settled
  else
    let op : Op :=
      { started := kernel.log.length
        kind := .reply
        caller := current
        callerGeneration := (kernel.procs current).generation
        dest := replyDestPid
        destGeneration := target.generation
        type := replyType
        len := copyLen replyLen
        cap := 0
        owed := if owes then owed.replyOwedSeq else 0
        seq := 0 }
    (joinQueue procsMax (ipcWaitFor settled current replyDestPid) current op).give (some current)

def nextCallSeq (callSeq : Nat) : Nat :=
  if (callSeq + 1) % 2 ^ 32 = 0 then 1 else (callSeq + 1) % 2 ^ 32

def beginCall (current now : Nat) : Kernel :=
  kernel.modify current fun proc => { proc with
    wait := { proc.wait with inCallReplyWait := true, ipcBounced := false }
    timer := ⟨now + ipcCallDeadlineTicks, false⟩
    callSeq := nextCallSeq proc.callSeq }

def sysIpcCall (current callDest callVerb : Nat) (reqLen bufCap : Int)
    (bufferOk : Bool) (now : Nat) : Kernel :=
  if !bufferOk || !procByPid procsMax kernel callDest then kernel
  else
    let evicted := evict procsMax kernel current
    let op : Op :=
      { started := evicted.log.length
        kind := .call
        caller := current
        callerGeneration := (kernel.procs current).generation
        dest := callDest
        destGeneration := (kernel.procs callDest).generation
        type := callVerb
        len := copyLen reqLen
        cap := copyLen bufCap
        owed := 0
        seq := nextCallSeq (kernel.procs current).callSeq }
    (joinQueue procsMax (beginCall (ipcWaitFor evicted current callDest) current now)
      current op).give (some current)

def sysIpcRecv (recvLen : Int) (bufferOk : Bool) : Kernel :=
  if bufferOk then (setPc kernel current (.receiving recvLen)).give (some current) else kernel

def sysIpcPoll (pollLen : Int) (typeOk bufferOk : Bool) : Kernel :=
  let proc := kernel.procs current
  if !typeOk then kernel
  else if proc.driverIrqPending then
    kernel.modify current fun proc => { proc with driverIrqPending := false }
  else if !proc.inbox.hasMessage || decide (pollLen < 0) || !bufferOk then kernel
  else takeMessage procsMax kernel current pollLen

def procDestroy (target : Nat) : Kernel :=
  let unqueued := setHead (ipcQRemove procsMax (ipcWakeWaitersOn procsMax kernel target) target)
    target 0
  unqueued.modify target fun proc => { proc with state := .unused, pc := .user }

def unusedSlot : Option Nat :=
  (List.range' 1 procsMax).find? fun pid => decide ((kernel.procs pid).state = .unused)

/-- The resets `create_process` and `sys_rfork` have in common. -/
def resetSlot (slot : Process) (born : Nat) (inNote : Bool) : Process :=
  { slot with
    state := .runnable
    generation := (slot.generation + 1) % 2 ^ 32
    born := born
    callSeq := 0
    inbox := { slot.inbox with hasMessage := false, msgCallSeq := 0 }
    wait := ⟨0, 0, false, false, false, slot.wait.msgAcked⟩
    timer := ⟨0, false⟩
    link := ⟨0, 0, 0, 0, 0⟩
    owed := { slot.owed with replyOwedSeq := 0 }
    notes := ⟨0, inNote, false⟩
    driverIrqPending := false
    pc := .user }

/-- `create_process` also resets fields that `sys_rfork` leaves as they were. -/
def resetCreated (slot : Process) (born : Nat) : Process :=
  let reset := resetSlot slot born false
  { reset with
    inbox := { reset.inbox with msgFrom := 0 }
    wait := { reset.wait with msgAcked := false }
    owed := { reset.owed with replyOwedPid := 0 } }

def createProcess : Kernel :=
  match unusedSlot procsMax kernel with
  | none => kernel
  | some pid => (kernel.modify pid fun slot =>
    resetCreated slot kernel.log.length).record (.created pid)

def sysRfork (parent : Nat) : Kernel :=
  match unusedSlot procsMax kernel with
  | none => kernel
  | some pid => (kernel.modify pid fun slot =>
    resetSlot slot kernel.log.length (kernel.procs parent).notes.inNote).record (.created pid)

/-- One pass of `ipc_timeout_sweep`'s loop; `rescue` keeps its safety net. -/
def sweepOne (now : Nat) (rescue : Bool) (proc : Process) : Process :=
  let timed := if proc.timer.ipcCallDeadline ≠ 0 ∧ now ≥ proc.timer.ipcCallDeadline then
    { proc with timer := ⟨0, true⟩ }.rouse else proc
  if rescue ∧ timed.link.ipcQTarget ≠ 0 then timed.rouse else timed

def ipcTimeoutSweep (now : Nat) (rescue : Bool) : Kernel :=
  { kernel with procs := fun pid => sweepOne now rescue (kernel.procs pid) }

inductive Action where
  | create
  | rfork (caller : Nat)
  | send (caller ipcDestPid ipcType : Nat) (ipcLen : Int) (bufferOk : Bool)
  | reply (caller replyDestPid replyType : Nat) (replyLen : Int)
      (replyExpectedGeneration : Nat) (bufferOk : Bool)
  | call (caller callDest callVerb : Nat) (reqLen bufCap : Int) (bufferOk : Bool) (now : Nat)
  | recv (caller : Nat) (recvLen : Int) (bufferOk : Bool)
  | poll (caller : Nat) (pollLen : Int) (typeOk bufferOk : Bool)
  | block (caller : Nat)
  | deliverNote (caller : Nat)
  | noted (caller : Nat)
  | schedule (pid : Nat)
  | goOn (pid : Nat) (returns : Bool)
  | run (bytes : List UInt8)
  | notePost (target : Nat)
  | wake (target : Nat)
  | irq (target : Nat)
  | sweep (now : Nat) (rescue : Bool)
  | destroy (victim : Nat)

def Action.caller : Action → Option Nat
  | .rfork caller | .send caller .. | .reply caller .. | .call caller .. | .recv caller ..
  | .poll caller .. | .block caller | .deliverNote caller | .noted caller => some caller
  | _ => none

def running (pid : Nat) : Prop :=
  (kernel.procs pid).state = .runnable ∧ (kernel.procs pid).pc = .user

instance (pid : Nat) : Decidable (running kernel pid) :=
  inferInstanceAs (Decidable (_ ∧ _))

def schedule (pid : Nat) : Option Kernel :=
  let proc := kernel.procs pid
  if proc.state = .runnable ∧ proc.pc ≠ .user ∧ proc.pc ≠ .elsewhere then
    some (kernel.give (some pid))
  else none

/-- What happens between two turns. -/
def perform : Action → Option Kernel
  | .create => some (createProcess procsMax kernel)
  | .rfork caller => some (sysRfork procsMax kernel caller)
  | .send caller dest type len bufferOk => some (sysIpcSend procsMax kernel caller dest type len bufferOk)
  | .reply caller dest type len expected bufferOk =>
    some (sysIpcReply procsMax kernel caller dest type len expected bufferOk)
  | .call caller dest verb reqLen bufCap bufferOk now =>
    some (sysIpcCall procsMax kernel caller dest verb reqLen bufCap bufferOk now)
  | .recv caller len bufferOk => some (sysIpcRecv kernel caller len bufferOk)
  | .poll caller len typeOk bufferOk => some (sysIpcPoll procsMax kernel caller len typeOk bufferOk)
  | .block caller => some (sleep (setPc kernel caller .elsewhere) caller)
  | .deliverNote caller =>
    if noteDeliverable (kernel.procs caller) then
      some (kernel.modify caller fun proc => { proc with
        notes := { proc.notes with noteCount := proc.notes.noteCount - 1, inNote := true } })
    else none
  | .noted caller => some (kernel.modify caller fun proc =>
    { proc with notes := { proc.notes with inNote := false } })
  | .schedule pid => schedule kernel pid
  | .goOn pid returns =>
    let proc := kernel.procs pid
    if proc.state = .runnable ∧ proc.pc = .elsewhere then
      some (if returns then setPc kernel pid .user else sleep kernel pid)
    else none
  | .notePost target =>
    if procByPid procsMax kernel target ∧ (kernel.procs target).notes.noteCount < nnote then
      some (kernel.modify target fun proc => { proc with
        notes := { proc.notes with noteCount := proc.notes.noteCount + 1 } }.rouse)
    else none
  | .wake target =>
    if procByPid procsMax kernel target then some (kernel.modify target Process.rouse) else none
  | .irq target =>
    if procByPid procsMax kernel target then
      some (kernel.modify target fun proc => { proc with driverIrqPending := true }.rouse)
    else none
  | .sweep now rescue => some (ipcTimeoutSweep kernel now rescue)
  | .destroy victim =>
    if procByPid procsMax kernel victim then some (procDestroy procsMax kernel victim) else none
  | .run _ => none

def step (action : Action) : Option Kernel :=
  match kernel.turn, action with
  | some current, .run bytes => some (advance procsMax kernel current bytes)
  | some _, _ => none
  | none, action =>
    if ∀ caller ∈ action.caller, running kernel caller then perform procsMax kernel action else none

def noOp : Op := ⟨0, .send, 0, 0, 0, 0, 0, 0, 0, 0, 0⟩

def boot : Kernel where
  procs _ :=
    { state := .unused
      generation := 0
      born := 0
      callSeq := 0
      inbox := ⟨false, 0, 0, 0, 0, [], 0, noOp⟩
      wait := ⟨0, 0, false, false, false, false⟩
      timer := ⟨0, false⟩
      link := ⟨0, 0, 0, 0, 0⟩
      owed := ⟨0, 0, 0⟩
      notes := ⟨0, false, false⟩
      driverIrqPending := false
      pc := .user }
  log := []
  turn := none

end Racccoon.Ipc
