import Racccoon.Ipc.Frames

/-!
Everything a step of `Racccoon.Ipc.Model` can do. Each constructor of `Move` is one
thing that can happen, with the guards under which it does; `step_move` shows that
there is nothing else. The invariants of the following modules are proved once for
each constructor.
-/

namespace Racccoon.Ipc

def Pc.op : Pc → Option Op
  | .queued op | .acking op _ | .awaiting op _ => some op
  | _ => none

def Pc.outside : Pc → Bool
  | .user | .elsewhere | .receiving _ => true
  | _ => false

def Pc.looping : Pc → Bool
  | .user | .elsewhere => false
  | _ => true

/-- A process that has named its target and its call, and is about to queue. -/
def View.facing (view : View) (op : Op) (owed : Owed) : View :=
  { view with
    callSeq := if op.kind = .call then nextCallSeq view.callSeq else view.callSeq
    wait := { view.wait with
      ipcWaitPid := op.dest
      ipcWaitGeneration := op.destGeneration
      ipcPeerDied := false
      inCallReplyWait := if op.kind = .call then true else view.wait.inCallReplyWait
      ipcBounced := if op.kind = .reply then view.wait.ipcBounced else false }
    owed := owed }

/-- What `reply_owed_*` says to a reply: nothing, or the call it answers. -/
def Debt (before : Owed) (op : Op) (after : Owed) : Prop :=
  (op.owed = 0 ∧ after = before) ∨
    (op.kind = .reply ∧ op.owed = before.replyOwedSeq ∧ op.dest = before.replyOwedPid ∧
      op.destGeneration = before.replyOwedGen ∧ after = { before with replyOwedSeq := 0 })

variable (procsMax : Nat) (kernel : Kernel)

/-- The reasons for which a process in a loop goes back to sleep. -/
def Stuck (current : Nat) : Prop :=
  match (kernel.views current).pc with
  | .queued op => ipcCanDeposit kernel current op.dest = false ∧
      ipcPeerGone procsMax kernel current = false
  | .acking op _ => (kernel.views current).wait.msgAcked = false ∧
      (op.kind ≠ .reply → (kernel.views current).wait.ipcBounced = false) ∧
      ipcPeerGone procsMax kernel current = false
  | .awaiting _ _ => (kernel.views current).inbox.hasMessage = false ∧
      ipcPeerGone procsMax kernel current = false
  | .receiving _ => (kernel.views current).inbox.hasMessage = false
  | .user | .elsewhere => True

structure Fresh (kernel : Kernel) (slot : Nat) (proc : Process) : Prop where
  state : proc.state = .runnable
  generation : proc.generation = ((kernel.views slot).generation + 1) % 2 ^ 32
  born : proc.born = kernel.log.length
  callSeq : proc.callSeq = 0
  empty : proc.inbox.hasMessage = false
  wait : proc.wait.ipcWaitPid = 0 ∧ proc.wait.ipcPeerDied = false ∧
    proc.wait.inCallReplyWait = false ∧ proc.wait.ipcBounced = false
  link : proc.link = ⟨0, 0, 0, 0, 0⟩
  owed : proc.owed.replyOwedSeq = 0
  pc : proc.pc = .user

def depositing : Option (Nat × Op) :=
  kernel.turn.bind fun current =>
    match (kernel.procs current).pc with
    | .queued op => if ipcCanDeposit kernel current op.dest then some (current, op) else none
    | _ => none

/-- The process that is about to consume the message in its inbox. -/
def consuming : Action → Option Nat
  | .poll caller pollLen typeOk bufferOk =>
    let proc := kernel.procs caller
    if typeOk && !proc.driverIrqPending && proc.inbox.hasMessage && !decide (pollLen < 0) &&
      bufferOk then some caller else none
  | .run _ => kernel.turn.bind fun current =>
    match (kernel.procs current).pc with
    | .receiving _ | .awaiting _ _ =>
      if (kernel.procs current).inbox.hasMessage then some current else none
    | _ => none
  | _ => none

def calling : Action → Option Nat
  | .call caller callDest _ _ _ bufferOk _ =>
    if bufferOk && procByPid procsMax kernel callDest then some caller else none
  | _ => none

def creating : Action → Option Nat
  | .create | .rfork _ => unusedSlot procsMax kernel
  | _ => none

inductive Move (procsMax : Nat) (kernel : Kernel) : Action → Kernel → Prop where
  | quiet {action : Action} {after : Kernel} (views : after.views = kernel.views)
      (log : after.log = kernel.log) (ring : SameRing kernel after)
      (turn : after.turn = kernel.turn) : Move procsMax kernel action after
  | schedule {pid : Nat} (idle : kernel.turn = none) (awake : (kernel.procs pid).state = .runnable)
      (inside : (kernel.views pid).pc.looping = true) :
      Move procsMax kernel (.schedule pid) (kernel.give (some pid))
  | rest {current : Nat} {bytes : List UInt8} (turn : kernel.turn = some current)
      (alive : live kernel current) (stuck : Stuck procsMax kernel current) :
      Move procsMax kernel (.run bytes) (sleep kernel current)
  | wander {action : Action} {current : Nat} (pc : Pc) {after : Kernel}
      (awake : (kernel.procs current).state = .runnable) (before : (kernel.views current).pc.outside = true)
      (outside : pc.outside = true)
      (views : after.views = Function.update kernel.views current
        { kernel.views current with pc := pc })
      (log : after.log = kernel.log) (ring : SameRing kernel after)
      (turn : after.turn = none ∨ after.turn = some current ∧ pc.looping = true) :
      Move procsMax kernel action after
  | doze {action : Action} {current : Nat} (idle : kernel.turn = none) (alive : live kernel current)
      (before : (kernel.views current).pc.outside = true) :
      Move procsMax kernel action (sleep (setPc kernel current .elsewhere) current)
  | settle {action : Action} {current : Nat} {after : Kernel} (alive : live kernel current)
      (views : after.views = Function.update kernel.views current { kernel.views current with
        owed := { (kernel.views current).owed with replyOwedSeq := 0 } })
      (log : after.log = kernel.log) (ring : SameRing kernel after)
      (turn : after.turn = kernel.turn) : Move procsMax kernel action after
  | start {action : Action} {current : Nat} {op : Op} (base : Kernel) {prepared : Kernel}
      (owed : Owed)
      (idle : kernel.turn = none) (runs : running kernel current)
      (evicts : op.kind ≠ .call ∧ base = kernel ∨
        op.kind = .call ∧ base = evict procsMax kernel current)
      (found : procByPid procsMax kernel op.dest = true)
      (caller : op.caller = current ∧ op.callerGeneration = (kernel.views current).generation)
      (dest : op.destGeneration = (kernel.views op.dest).generation)
      (started : op.started = base.log.length)
      (seq : op.kind = .call → op.seq = nextCallSeq (kernel.views current).callSeq)
      (debt : Debt (kernel.views current).owed op owed)
      (calls : op.kind = .call → calling procsMax kernel action = some current)
      (views : prepared.views =
        Function.update base.views current ((base.views current).facing op owed))
      (log : prepared.log = base.log) (ring : SameRing base prepared) :
      Move procsMax kernel action ((joinQueue procsMax prepared current op).give (some current))
  | deposit {current : Nat} {op : Op} (bytes : List UInt8) (turn : kernel.turn = some current)
      (pc : (kernel.views current).pc = .queued op)
      (can : ipcCanDeposit kernel current op.dest = true) :
      Move procsMax kernel (.run bytes) (ipcDeposit procsMax kernel current op bytes)
  | leaveQueue {current : Nat} {op : Op} {bytes : List UInt8} (noted : Bool)
      (turn : kernel.turn = some current) (alive : live kernel current)
      (pc : (kernel.views current).pc = .queued op)
      (cannot : ipcCanDeposit kernel current op.dest = false) :
      Move procsMax kernel (.run bytes) (abortQueued procsMax kernel current op noted)
  | redeliver {current : Nat} {op : Op} {id : Nat} {bytes : List UInt8}
      (turn : kernel.turn = some current) (pc : (kernel.views current).pc = .acking op id)
      (kind : op.kind ≠ .reply) (bounced : (kernel.views current).wait.ipcBounced = true) :
      Move procsMax kernel (.run bytes)
        (joinQueue procsMax (clearBounced kernel current) current op)
  | accept {current : Nat} {op : Op} {id : Nat} {bytes : List UInt8}
      (turn : kernel.turn = some current) (pc : (kernel.views current).pc = .acking op id)
      (kind : op.kind = .call) (bounced : (kernel.views current).wait.ipcBounced = false)
      (acked : (kernel.views current).wait.msgAcked = true) :
      Move procsMax kernel (.run bytes) (setPc kernel current (.awaiting op id))
  | finish {current : Nat} {op : Op} {id : Nat} {bytes : List UInt8}
      (turn : kernel.turn = some current) (pc : (kernel.views current).pc = .acking op id)
      (kind : op.kind ≠ .call)
      (bounced : op.kind ≠ .reply → (kernel.views current).wait.ipcBounced = false)
      (acked : (kernel.views current).wait.msgAcked = true) :
      Move procsMax kernel (.run bytes) (succeed kernel current op id)
  | timeOut {current : Nat} {op : Op} {id : Nat} {bytes : List UInt8}
      (turn : kernel.turn = some current) (alive : live kernel current)
      (pc : (kernel.views current).pc = .acking op id) (kind : op.kind = .call) :
      Move procsMax kernel (.run bytes)
        (abort procsMax (yank procsMax kernel current op.dest) current op)
  | desert {current : Nat} {op : Op} {id : Nat} {bytes : List UInt8}
      (turn : kernel.turn = some current) (alive : live kernel current)
      (pc : (kernel.views current).pc = .acking op id)
      (gone : ipcPeerGone procsMax kernel current = true) :
      Move procsMax kernel (.run bytes) (abort procsMax kernel current op)
  | collect {current : Nat} {op : Op} {id : Nat} {bytes : List UInt8}
      (turn : kernel.turn = some current) (pc : (kernel.views current).pc = .awaiting op id)
      (full : (kernel.views current).inbox.hasMessage = true) :
      Move procsMax kernel (.run bytes) (takeReply procsMax kernel current op id)
  | hangUp {current : Nat} {op : Op} {id : Nat} {bytes : List UInt8}
      (turn : kernel.turn = some current) (alive : live kernel current)
      (pc : (kernel.views current).pc = .awaiting op id)
      (empty : (kernel.views current).inbox.hasMessage = false) :
      Move procsMax kernel (.run bytes) (abort procsMax kernel current op)
  | take {action : Action} {current : Nat} {len : Int}
      (awake : (kernel.procs current).state = .runnable)
      (outside : (kernel.views current).pc.outside = true)
      (full : (kernel.views current).inbox.hasMessage = true)
      (consumes : consuming kernel action = some current) :
      Move procsMax kernel action (takeMessage procsMax kernel current len)
  | destroy {victim : Nat} (idle : kernel.turn = none)
      (found : procByPid procsMax kernel victim = true) :
      Move procsMax kernel (.destroy victim) (procDestroy procsMax kernel victim)
  | create {action : Action} {slot : Nat} {proc : Process} (idle : kernel.turn = none)
      (unused : unusedSlot procsMax kernel = some slot)
      (creates : creating procsMax kernel action = some slot) (fresh : Fresh kernel slot proc) :
      Move procsMax kernel action ((kernel.modify slot fun _ => proc).record (.created slot))

variable {procsMax : Nat} {kernel after : Kernel} {current : Nat} {action : Action}

theorem Move.modify (pid : Nat) (change : Process → Process)
    (view : (change (kernel.procs pid)).view = (kernel.procs pid).view)
    (kept : Kept (kernel.procs pid) (change (kernel.procs pid))) :
    Move procsMax kernel action (kernel.modify pid change) :=
  .quiet (views_modify_same _ view) rfl ((SameRing.refl kernel).modify pid _ kept) rfl

theorem Move.refl : Move procsMax kernel action kernel :=
  .quiet rfl rfl (.refl kernel) rfl

theorem sweepOne_view (now : Nat) (rescue : Bool) (proc : Process) :
    (sweepOne now rescue proc).view = proc.view ∧ Kept proc (sweepOne now rescue proc) := by
  have timed : ∀ timed : Process, timed.view = proc.view ∧ Kept proc timed →
      (if rescue = true ∧ timed.link.ipcQTarget ≠ 0 then timed.rouse else timed).view = proc.view ∧
        Kept proc (if rescue = true ∧ timed.link.ipcQTarget ≠ 0 then timed.rouse else timed) := by
    rintro timed ⟨view, kept⟩
    split
    · exact ⟨(view_rouse timed).trans view, kept.trans (.rouse timed)⟩
    · exact ⟨view, kept⟩
  refine timed _ ?_
  split
  · exact ⟨view_rouse _, .rousing rfl rfl rfl⟩
  · exact ⟨rfl, .refl proc⟩

theorem move_sweep (now : Nat) (rescue : Bool) :
    Move procsMax kernel (.sweep now rescue) (ipcTimeoutSweep kernel now rescue) :=
  .quiet (funext fun pid => (sweepOne_view now rescue (kernel.procs pid)).1) rfl
    ⟨Nat.le_refl _, fun pid => (sweepOne_view now rescue (kernel.procs pid)).2⟩ rfl

theorem live_of_runnable (awake : (kernel.procs current).state = .runnable) :
    live kernel current := by
  rw [live, awake]
  decide

theorem running_live (runs : running kernel current) : live kernel current :=
  live_of_runnable runs.1

theorem running_outside (runs : running kernel current) :
    (kernel.views current).pc.outside = true := by
  have pc : (kernel.views current).pc = .user := runs.2
  rw [pc]
  rfl

theorem move_send {ipcDestPid ipcType : Nat} {ipcLen : Int} {bufferOk : Bool}
    (idle : kernel.turn = none) (runs : running kernel current) : Move procsMax kernel action
      (sysIpcSend procsMax kernel current ipcDestPid ipcType ipcLen bufferOk) := by
  simp only [sysIpcSend]
  split
  · exact .refl
  · next passed =>
      simp only [Bool.or_eq_true, Bool.not_eq_true', not_or, Bool.not_eq_false] at passed
      refine .start kernel (kernel.views current).owed idle runs
        (.inl ⟨by simp, rfl⟩) passed.2 ⟨rfl, rfl⟩ rfl rfl (by simp) (.inl ⟨rfl, rfl⟩) (by simp)
        ?_ rfl ?_
      · rw [views_clearBounced, views_ipcWaitFor, Function.update_idem, Function.update_self]
        rfl
      · exact ((SameRing.refl kernel).modify _ _ (.set rfl rfl rfl)).modify _ _ (.set rfl rfl rfl)

theorem move_reply {replyDestPid replyType replyExpectedGeneration : Nat} {replyLen : Int}
    {bufferOk : Bool} (idle : kernel.turn = none) (runs : running kernel current) :
    Move procsMax kernel action (sysIpcReply procsMax kernel current replyDestPid replyType
      replyLen replyExpectedGeneration bufferOk) := by
  simp only [sysIpcReply]
  split
  · exact .refl
  · next passed =>
      simp only [Bool.or_eq_true, Bool.not_eq_true', not_or, Bool.not_eq_false] at passed
      by_cases owes : (kernel.procs current).owed.replyOwedSeq ≠ 0 ∧
          replyDestPid = (kernel.procs current).owed.replyOwedPid ∧
          (kernel.procs replyDestPid).generation = (kernel.procs current).owed.replyOwedGen
      · split
        · exact .settle (running_live runs) (views_modify _) rfl
            ((SameRing.refl kernel).modify _ _ (.set rfl rfl rfl)) rfl
        · refine .start kernel { (kernel.views current).owed with replyOwedSeq := 0 } idle runs
            (.inl ⟨by simp, rfl⟩) passed.1.2 ⟨rfl, rfl⟩ rfl rfl (by simp)
            (.inr ⟨rfl, rfl, owes.2.1, owes.2.2, rfl⟩) (by simp) ?_ rfl ?_
          · rw [views_ipcWaitFor, views_modify]
            by_cases self : replyDestPid = current
            · subst self
              simp [View.facing, Kernel.views, Process.view]
            · simp [self, View.facing, Kernel.views, Process.view]
          · exact ((SameRing.refl kernel).modify _ _ (.set rfl rfl rfl)).modify _ _ (.set rfl rfl rfl)
      · rw [if_neg fun both => owes both.1]
        simp only [if_neg owes]
        refine .start kernel (kernel.views current).owed idle runs
          (.inl ⟨by simp, rfl⟩) passed.1.2 ⟨rfl, rfl⟩ rfl rfl (by simp) (.inl ⟨rfl, rfl⟩) (by simp)
          ?_ rfl ?_
        · rw [views_ipcWaitFor]
          rfl
        · exact (SameRing.refl kernel).modify _ _ (.set rfl rfl rfl)

theorem evict_kept (kernel : Kernel) (current : Nat) : SameRing kernel (evict procsMax kernel current) := by
  simp only [evict]
  split
  · have cleared (event : Event) : SameRing kernel ((clearInbox kernel current).record event) :=
      ((SameRing.refl kernel).modify _ _ (.set rfl rfl rfl)).record event
    split
    · exact (cleared _).modify _ _ (.rousing rfl rfl rfl)
    · exact cleared _
  · exact .refl kernel

theorem evict_nothing (empty : (kernel.views current).inbox.hasMessage = false) :
    evict procsMax kernel current = kernel := by
  have inbox : (kernel.procs current).inbox.hasMessage = false := empty
  simp [evict, inbox]

variable (procsMax) in
theorem views_evict_callSeq (kernel : Kernel) (current pid : Nat) :
    ((evict procsMax kernel current).views pid).callSeq = (kernel.views pid).callSeq ∧
      ((evict procsMax kernel current).views pid).generation = (kernel.views pid).generation ∧
      ((evict procsMax kernel current).views pid).owed = (kernel.views pid).owed := by
  cases full : (kernel.views current).inbox.hasMessage with
  | false => rw [evict_nothing full]; exact ⟨rfl, rfl, rfl⟩
  | true =>
    rw [views_evict _ _ _ full]
    split <;> split <;> exact ⟨rfl, rfl, rfl⟩

theorem move_call {callDest callVerb now : Nat} {reqLen bufCap : Int} {bufferOk : Bool}
    (idle : kernel.turn = none) (runs : running kernel current) : Move procsMax kernel
      (.call current callDest callVerb reqLen bufCap bufferOk now)
      (sysIpcCall procsMax kernel current callDest callVerb reqLen bufCap bufferOk now) := by
  simp only [sysIpcCall]
  split
  · exact .refl
  · next passed =>
      simp only [Bool.or_eq_true, Bool.not_eq_true', not_or, Bool.not_eq_false] at passed
      have calls : calling procsMax kernel
          (.call current callDest callVerb reqLen bufCap bufferOk now) = some current := by
        simp [calling, passed]
      refine .start (evict procsMax kernel current) (kernel.views current).owed
        idle runs (.inr ⟨rfl, rfl⟩) passed.2 ⟨rfl, rfl⟩ rfl rfl (fun _ => rfl) (.inl ⟨rfl, rfl⟩)
        (fun _ => calls) ?_ rfl ?_
      · rw [views_beginCall, views_ipcWaitFor, (views_evict_callSeq procsMax kernel current callDest).2.1]
        simp [← (views_evict_callSeq procsMax kernel current current).2.2]
        rfl
      · exact ((SameRing.refl _).modify _ _ (.set rfl rfl rfl)).modify _ _ (.set rfl rfl rfl)

theorem move_sleep (idle : kernel.turn = none) (runs : running kernel current) :
    Move procsMax kernel action (sleep (setPc kernel current .elsewhere) current) :=
  .doze idle (running_live runs) (running_outside runs)

theorem move_poll {pollLen : Int} {typeOk bufferOk : Bool} (runs : running kernel current) :
    Move procsMax kernel (.poll current pollLen typeOk bufferOk)
      (sysIpcPoll procsMax kernel current pollLen typeOk bufferOk) := by
  simp only [sysIpcPoll]
  split
  · exact .refl
  · next type =>
      split
      · exact .modify current _ rfl (.set rfl rfl rfl)
      · next quiet =>
          split
          · exact .refl
          · next passed =>
              simp only [Bool.or_eq_true, Bool.not_eq_true', not_or, Bool.not_eq_false] at passed
              refine .take runs.1 (running_outside runs) passed.1.1 ?_
              simp_all [consuming]

theorem resetSlot_fresh (slot : Nat) (inNote : Bool) :
    Fresh kernel slot (resetSlot (kernel.procs slot) kernel.log.length inNote) :=
  ⟨rfl, rfl, rfl, rfl, rfl, ⟨rfl, rfl, rfl, rfl⟩, rfl, rfl, rfl⟩

theorem resetCreated_fresh (slot : Nat) :
    Fresh kernel slot (resetCreated (kernel.procs slot) kernel.log.length) :=
  ⟨rfl, rfl, rfl, rfl, rfl, ⟨rfl, rfl, rfl, rfl⟩, rfl, rfl, rfl⟩

theorem move_create (idle : kernel.turn = none) :
    Move procsMax kernel .create (createProcess procsMax kernel) := by
  unfold createProcess
  cases found : unusedSlot procsMax kernel with
  | none => exact .refl
  | some slot => exact .create idle found found (resetCreated_fresh slot)

theorem move_rfork (idle : kernel.turn = none) (parent : Nat) :
    Move procsMax kernel (.rfork parent) (sysRfork procsMax kernel parent) := by
  unfold sysRfork
  cases found : unusedSlot procsMax kernel with
  | none => exact .refl
  | some slot => exact .create idle found found (resetSlot_fresh slot _)

theorem setPc_kept (kernel : Kernel) (pid : Nat) (pc : Pc) : SameRing kernel (setPc kernel pid pc) :=
  (SameRing.refl kernel).modify _ _ (.set rfl rfl rfl)

theorem perform_move (idle : kernel.turn = none)
    (runs : ∀ caller ∈ action.caller, running kernel caller)
    (performed : perform procsMax kernel action = some after) : Move procsMax kernel action after := by
  cases action with
  | create => cases performed; exact move_create idle
  | rfork caller => cases performed; exact move_rfork idle caller
  | send caller => cases performed; exact move_send idle (runs caller rfl)
  | reply caller => cases performed; exact move_reply idle (runs caller rfl)
  | call caller => cases performed; exact move_call idle (runs caller rfl)
  | recv caller len bufferOk =>
    cases performed
    cases bufferOk with
    | false => exact .refl
    | true =>
      exact .wander (.receiving len) (runs caller rfl).1 (running_outside (runs caller rfl)) rfl
        (views_setPc caller (.receiving len)) rfl (setPc_kept ..) (.inr ⟨rfl, rfl⟩)
  | poll caller => cases performed; exact move_poll (runs caller rfl)
  | block caller => cases performed; exact move_sleep idle (runs caller rfl)
  | deliverNote caller =>
    simp only [perform, Option.ite_none_right_eq_some, Option.some.injEq] at performed
    obtain ⟨-, rfl⟩ := performed
    exact .modify caller _ rfl (.set rfl rfl rfl)
  | noted caller => cases performed; exact .modify caller _ rfl (.set rfl rfl rfl)
  | schedule pid =>
    simp only [perform, schedule, Option.ite_none_right_eq_some, Option.some.injEq] at performed
    obtain ⟨⟨ready, notUser, notElsewhere⟩, rfl⟩ := performed
    refine .schedule idle ready ?_
    have pc : (kernel.views pid).pc = (kernel.procs pid).pc := rfl
    rw [pc]
    revert notUser notElsewhere
    cases (kernel.procs pid).pc <;> simp [Pc.looping]
  | goOn pid returns =>
    simp only [perform, Option.ite_none_right_eq_some, Option.some.injEq] at performed
    obtain ⟨⟨ready, inside⟩, rfl⟩ := performed
    have alive : live kernel pid := by rw [live, ready]; decide
    have outside : (kernel.views pid).pc.outside = true := by
      have pc : (kernel.views pid).pc = .elsewhere := inside
      rw [pc]
      rfl
    cases returns with
    | true =>
      exact .wander .user ready outside rfl (views_setPc pid .user) rfl (setPc_kept ..)
        (.inl idle)
    | false =>
      have stays : setPc kernel pid .elsewhere = kernel := by
        rw [setPc, Kernel.modify, ← inside]
        simp
      have dozes : Move procsMax kernel (.goOn pid false)
        (sleep (setPc kernel pid .elsewhere) pid) := .doze idle alive outside
      rwa [stays] at dozes
  | notePost target =>
    simp only [perform, Option.ite_none_right_eq_some, Option.some.injEq] at performed
    obtain ⟨-, rfl⟩ := performed
    exact .modify target _ (view_rouse _) (.rousing rfl rfl rfl)
  | wake target =>
    simp only [perform, Option.ite_none_right_eq_some, Option.some.injEq] at performed
    obtain ⟨-, rfl⟩ := performed
    exact .modify target _ (view_rouse _) (.rouse _)
  | irq target =>
    simp only [perform, Option.ite_none_right_eq_some, Option.some.injEq] at performed
    obtain ⟨-, rfl⟩ := performed
    exact .modify target _ (view_rouse _) (.rousing rfl rfl rfl)
  | sweep now rescue => cases performed; exact move_sweep now rescue
  | destroy =>
    simp only [perform, Option.ite_none_right_eq_some, Option.some.injEq] at performed
    obtain ⟨found, rfl⟩ := performed
    exact .destroy idle found
  | run => cases performed

theorem advance_move (bytes : List UInt8) (turn : kernel.turn = some current)
    (awake : (kernel.procs current).state = .runnable)
    (inside : (kernel.views current).pc.looping = true) :
    Move procsMax kernel (.run bytes) (advance procsMax kernel current bytes) := by
  have alive := live_of_runnable awake
  have view : (kernel.views current).pc = (kernel.procs current).pc ∧
      (kernel.views current).wait = (kernel.procs current).wait ∧
      (kernel.views current).inbox = (kernel.procs current).inbox := ⟨rfl, rfl, rfl⟩
  cases pc : (kernel.procs current).pc with
  | user => simp [view, pc, Pc.looping] at inside
  | elsewhere => simp [view, pc, Pc.looping] at inside
  | receiving len =>
    have outside : (kernel.views current).pc.outside = true := by rw [view.1, pc]; rfl
    simp only [advance, pc]
    split
    · next full => exact .take awake outside full (by simp [consuming, turn, pc, full])
    · next empty =>
        split
        · refine .wander .user awake outside rfl ?_ rfl ?_ (.inl rfl)
          · have still : live (interrupted kernel current) current := live_interrupted.mpr alive
            rw [views_give, views_setPc, views_unblock still, views_interrupted]
          · refine SameRing.give (((SameRing.refl kernel).modify _ _ (.set rfl rfl rfl)).modify _ _
              ?_ |>.modify _ _ (.set rfl rfl rfl)) none
            exact ⟨by simp [Process.unblock, show _ ≠ _ from alive], rfl, rfl,
              by simp [Process.unblock]⟩
        · exact .rest turn alive (by simpa [Stuck, view, pc] using empty)
  | queued op =>
    simp only [advance, pc]
    split
    · next can => exact .deposit bytes turn (view.1.trans pc) can
    · next cannot =>
        have cannot : ipcCanDeposit kernel current op.dest = false := by simpa using cannot
        split
        · exact .leaveQueue true turn alive (view.1.trans pc) cannot
        · split
          · exact .leaveQueue false turn alive (view.1.trans pc) cannot
          · next stays =>
              rw [not_or] at stays
              exact .rest turn alive (by simpa [Stuck, view, pc, cannot] using stays.1)
  | acking op =>
    simp only [advance, pc]
    split
    · next handed => exact .redeliver turn (view.1.trans pc) handed.1 handed.2
    · next kept =>
        have kept : op.kind ≠ .reply → (kernel.views current).wait.ipcBounced = false :=
          fun kind => by simpa [kind, view] using kept
        split
        · next acked =>
            split
            · next kind => exact .accept turn (view.1.trans pc) kind (kept (by simp [kind])) acked
            · next kind => exact .finish turn (view.1.trans pc) kind kept acked
        · next unacked =>
            split
            · next late => exact .timeOut turn alive (view.1.trans pc) late.1
            · split
              · next gone => exact .desert turn alive (view.1.trans pc) gone
              · next here =>
                  refine .rest turn alive ?_
                  simp only [Stuck, view, pc]
                  exact ⟨by simpa using unacked, kept, by simpa using here⟩
  | awaiting =>
    simp only [advance, pc]
    split
    · next full => exact .collect turn (view.1.trans pc) full
    · next empty =>
        have empty : (kernel.views current).inbox.hasMessage = false := by
          simpa [view] using empty
        split
        · exact .hangUp turn alive (view.1.trans pc) empty
        · next stays =>
            rw [not_or] at stays
            refine .rest turn alive ?_
            simp only [Stuck, view, pc]
            exact ⟨empty, by simpa using stays.1⟩

def Executes (kernel : Kernel) : Prop := ∀ current, kernel.turn = some current →
  (kernel.procs current).state = .runnable ∧ (kernel.views current).pc.looping = true

theorem step_move (executes : Executes kernel)
    (stepped : step procsMax kernel action = some after) : Move procsMax kernel action after := by
  unfold step at stepped
  split at stepped
  · next current bytes turn =>
      cases stepped
      exact advance_move bytes turn (executes current turn).1 (executes current turn).2
  · cases stepped
  · next idle =>
      split at stepped
      · next runs => exact perform_move idle runs stepped
      · cases stepped

end Racccoon.Ipc
