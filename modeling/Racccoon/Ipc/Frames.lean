import Racccoon.Ipc.Model

/-!
What the functions of `Racccoon.Ipc.Model` change. The `View` of a process is what
the rendezvous depends on: it leaves out the list links, timers, notes and whether
a live process is runnable or blocked. Every function gets one lemma that gives the
views after it in terms of the views before.
-/

namespace Racccoon.Ipc
open Function (update update_self update_of_ne update_idem update_eq_self)

open LinkedQueue

def live (kernel : Kernel) (pid : Nat) : Prop := (kernel.procs pid).state ≠ .unused

instance (kernel : Kernel) (pid : Nat) : Decidable (live kernel pid) :=
  inferInstanceAs (Decidable (_ ≠ _))

def Relinked (kernel after : Kernel) : Prop :=
  after.log = kernel.log ∧ after.turn = kernel.turn ∧
    ∀ pid, ∃ link, after.procs pid = { kernel.procs pid with link := link }

variable {procsMax : Nat} {kernel after middle : Kernel} {pid self target current : Nat}
variable (change : Process → Process)

@[simp] theorem modify_self : (kernel.modify pid change).procs pid = change (kernel.procs pid) := by
  simp [Kernel.modify]

@[simp] theorem modify_other {other : Nat} (apart : other ≠ pid) (change : Process → Process) :
    (kernel.modify pid change).procs other = kernel.procs other := by
  simp [Kernel.modify, apart]

@[simp] theorem modify_log : (kernel.modify pid change).log = kernel.log := rfl

@[simp] theorem modify_turn : (kernel.modify pid change).turn = kernel.turn := rfl

theorem Relinked.refl (kernel : Kernel) : Relinked kernel kernel :=
  ⟨rfl, rfl, fun pid => ⟨(kernel.procs pid).link, rfl⟩⟩

theorem Relinked.trans (first : Relinked kernel middle) (second : Relinked middle after) :
    Relinked kernel after := by
  refine ⟨second.1.trans first.1, second.2.1.trans first.2.1, fun pid => ?_⟩
  obtain ⟨_, before⟩ := first.2.2 pid
  obtain ⟨link, now⟩ := second.2.2 pid
  exact ⟨link, by rw [now, before]⟩

theorem relinked_modify (touched : ∀ proc,
    ∃ link, change proc = { proc with link := link }) (kernel : Kernel) (pid : Nat) :
    Relinked kernel (kernel.modify pid change) := by
  refine ⟨rfl, rfl, fun other => ?_⟩
  by_cases same : other = pid
  · subst same
    simpa using touched (kernel.procs other)
  · exact ⟨(kernel.procs other).link, by simp [same]⟩

theorem relinked_setHead (kernel : Kernel) (pid head : Nat) :
    Relinked kernel (setHead kernel pid head) :=
  relinked_modify _ (fun _ => ⟨_, rfl⟩) kernel pid

theorem relinked_setNext (kernel : Kernel) (pid next : Nat) :
    Relinked kernel (setNext kernel pid next) :=
  relinked_modify _ (fun _ => ⟨_, rfl⟩) kernel pid

theorem relinked_setTarget (kernel : Kernel) (pid target joinedAt joinedBorn : Nat) :
    Relinked kernel (setTarget kernel pid target joinedAt joinedBorn) :=
  relinked_modify _ (fun _ => ⟨_, rfl⟩) kernel pid

theorem relinked_unlink (procsMax : Nat) (kernel : Kernel) (self target : Nat) :
    Relinked kernel (ipcQUnlink procsMax kernel self target) := by
  simp only [ipcQUnlink]
  split
  · exact .refl kernel
  · split
    · exact relinked_setHead ..
    · split
      · exact .refl kernel
      · exact relinked_setNext ..

theorem relinked_remove (procsMax : Nat) (kernel : Kernel) (self : Nat) :
    Relinked kernel (ipcQRemove procsMax kernel self) := by
  simp only [ipcQRemove]
  split
  · exact (relinked_unlink ..).trans (relinked_setTarget ..)
  · exact relinked_setTarget ..

theorem relinked_enqueue (procsMax : Nat) (kernel : Kernel) (current target : Nat) :
    Relinked kernel (ipcQEnqueue procsMax kernel current target) := by
  simp only [ipcQEnqueue]
  split
  · exact (relinked_setTarget ..).trans (relinked_setHead ..)
  · exact (relinked_setTarget ..).trans (relinked_setNext ..)

theorem Relinked.live_iff (relinked : Relinked kernel after) :
    live after pid ↔ live kernel pid := by
  obtain ⟨link, eq⟩ := relinked.2.2 pid
  simp [live, eq]

theorem Relinked.born (relinked : Relinked kernel after) (pid : Nat) :
    (after.procs pid).born = (kernel.procs pid).born := by
  obtain ⟨link, eq⟩ := relinked.2.2 pid
  rw [eq]

def SameStamps (kernel after : Kernel) : Prop := ∀ pid,
  (after.procs pid).link.ipcQTarget = (kernel.procs pid).link.ipcQTarget ∧
    (after.procs pid).link.joinedAt = (kernel.procs pid).link.joinedAt ∧
    (after.procs pid).link.joinedBorn = (kernel.procs pid).link.joinedBorn

theorem sameStamps_setHead (pid head : Nat) : SameStamps kernel (setHead kernel pid head) := by
  intro other
  by_cases same : other = pid
  · subst same
    simp [setHead]
  · simp [setHead, same]

theorem sameStamps_setNext (pid next : Nat) : SameStamps kernel (setNext kernel pid next) := by
  intro other
  by_cases same : other = pid
  · subst same
    simp [setNext]
  · simp [setNext, same]

variable (procsMax kernel) in
theorem sameStamps_unlink (self target : Nat) :
    SameStamps kernel (ipcQUnlink procsMax kernel self target) := by
  simp only [ipcQUnlink]
  split
  · exact fun _ => ⟨rfl, rfl, rfl⟩
  · split
    · exact sameStamps_setHead _ _
    · split
      · exact fun _ => ⟨rfl, rfl, rfl⟩
      · exact sameStamps_setNext _ _

variable (procsMax kernel) in
theorem ipcQRemove_stamps (self : Nat) :
    ((ipcQRemove procsMax kernel self).procs self).link.ipcQTarget = 0 ∧ ∀ pid ≠ self,
      ((ipcQRemove procsMax kernel self).procs pid).link.ipcQTarget =
          (kernel.procs pid).link.ipcQTarget ∧
        ((ipcQRemove procsMax kernel self).procs pid).link.joinedAt =
          (kernel.procs pid).link.joinedAt ∧
        ((ipcQRemove procsMax kernel self).procs pid).link.joinedBorn =
          (kernel.procs pid).link.joinedBorn := by
  simp only [ipcQRemove]
  refine ⟨by simp [setTarget], fun pid apart => ?_⟩
  simp only [setTarget, modify_other apart]
  split
  · exact sameStamps_unlink _ _ _ _ pid
  · exact ⟨rfl, rfl, rfl⟩

variable (procsMax kernel) in
theorem ipcQEnqueue_stamps (current target : Nat) :
    let after := ipcQEnqueue procsMax kernel current target
    (after.procs current).link.ipcQTarget = kernel.pid target ∧
      (after.procs current).link.joinedAt = kernel.log.length ∧
      (after.procs current).link.joinedBorn = (kernel.procs target).born ∧
      ∀ pid ≠ current, (after.procs pid).link.ipcQTarget = (kernel.procs pid).link.ipcQTarget ∧
        (after.procs pid).link.joinedAt = (kernel.procs pid).link.joinedAt ∧
        (after.procs pid).link.joinedBorn = (kernel.procs pid).link.joinedBorn := by
  intro after
  have stamps : SameStamps (setTarget kernel current (kernel.pid target) kernel.log.length
      (kernel.procs target).born) after := by
    simp only [after, ipcQEnqueue]
    split
    · exact sameStamps_setHead _ _
    · exact sameStamps_setNext _ _
  refine ⟨?_, ?_, ?_, fun pid apart => ?_⟩
  · rw [(stamps current).1]
    simp [setTarget]
  · rw [(stamps current).2.1]
    simp [setTarget]
  · rw [(stamps current).2.2]
    simp [setTarget]
  · rw [(stamps pid).1, (stamps pid).2.1, (stamps pid).2.2]
    simp [setTarget, apart]

structure View where
  live : Bool
  generation : Nat
  born : Nat
  callSeq : Nat
  inbox : Inbox
  wait : Wait
  owed : Owed
  pc : Pc
  target : Nat
  joinedBorn : Nat

def Process.view (proc : Process) : View where
  live := decide (proc.state ≠ .unused)
  generation := proc.generation
  born := proc.born
  callSeq := proc.callSeq
  inbox := proc.inbox
  wait := proc.wait
  owed := proc.owed
  pc := proc.pc
  target := proc.link.ipcQTarget
  joinedBorn := proc.link.joinedBorn

def Kernel.views (kernel : Kernel) (pid : Nat) : View := (kernel.procs pid).view

theorem views_live : (kernel.views pid).live = true ↔ live kernel pid := by
  simp [Kernel.views, Process.view, live]

@[simp] theorem views_record (event : Event) : (kernel.record event).views = kernel.views := rfl

@[simp] theorem views_give (turn : Option Nat) : (kernel.give turn).views = kernel.views := rfl

@[simp] theorem record_log (event : Event) : (kernel.record event).log = event :: kernel.log := rfl

@[simp] theorem give_log (turn : Option Nat) : (kernel.give turn).log = kernel.log := rfl

@[simp] theorem record_turn (event : Event) : (kernel.record event).turn = kernel.turn := rfl

@[simp] theorem give_turn (turn : Option Nat) : (kernel.give turn).turn = turn := rfl

theorem views_modify (change : Process → Process) :
    (kernel.modify pid change).views =
      update kernel.views pid (change (kernel.procs pid)).view := by
  funext other
  by_cases same : other = pid
  · subst same
    simp [Kernel.views]
  · simp [Kernel.views, same]

theorem views_modify_same (change : Process → Process)
    (same : (change (kernel.procs pid)).view = (kernel.procs pid).view) :
    (kernel.modify pid change).views = kernel.views := by
  rw [views_modify, same]
  exact update_eq_self pid kernel.views

@[simp] theorem view_rouse (proc : Process) : proc.rouse.view = proc.view := by
  unfold Process.rouse
  split
  · next blocked => simp [Process.view, blocked]
  · rfl

@[simp] theorem views_rouse (pid : Nat) : (kernel.modify pid Process.rouse).views = kernel.views :=
  views_modify_same _ (view_rouse _)

theorem views_relinked (relinked : Relinked kernel after) (apart : ∀ pid ≠ self,
    (after.procs pid).link.ipcQTarget = (kernel.procs pid).link.ipcQTarget ∧
      (after.procs pid).link.joinedBorn = (kernel.procs pid).link.joinedBorn) :
    after.views = update kernel.views self { kernel.views self with
      target := (after.procs self).link.ipcQTarget
      joinedBorn := (after.procs self).link.joinedBorn } := by
  funext pid
  obtain ⟨link, eq⟩ := relinked.2.2 pid
  by_cases same : pid = self
  · subst same
    simp [Kernel.views, Process.view, eq]
  · obtain ⟨target, born⟩ := apart pid same
    rw [eq] at target born
    simp only at target born
    simp [Kernel.views, Process.view, eq, same, target, born]

variable (procsMax kernel) in
theorem views_ipcQRemove (self : Nat) : (ipcQRemove procsMax kernel self).views =
    update kernel.views self { kernel.views self with target := 0 } := by
  obtain ⟨target, others⟩ := ipcQRemove_stamps procsMax kernel self
  have born : ((ipcQRemove procsMax kernel self).procs self).link.joinedBorn =
      (kernel.procs self).link.joinedBorn := by
    simp [ipcQRemove, setTarget]
  rw [views_relinked (relinked_remove procsMax kernel self) fun pid apart =>
    ⟨(others pid apart).1, (others pid apart).2.2⟩, target, born]
  rfl

theorem views_ipcQEnqueue (current target : Nat) : (ipcQEnqueue procsMax kernel current target).views =
    update kernel.views current { kernel.views current with
      target := kernel.pid target
      joinedBorn := (kernel.views target).born } := by
  obtain ⟨stampTarget, -, stampBorn, others⟩ :=
    ipcQEnqueue_stamps procsMax kernel current target
  rw [views_relinked (relinked_enqueue procsMax kernel current target) fun pid apart =>
    ⟨(others pid apart).1, (others pid apart).2.2⟩, stampTarget, stampBorn]
  rfl

@[simp] theorem rouseQueue_views (q guard : Nat) : (rouseQueue kernel q guard).views = kernel.views := by
  induction guard generalizing kernel q with
  | zero => rfl
  | succ _ ih =>
    rw [rouseQueue]
    split
    · rfl
    · rw [ih, views_rouse]

@[simp] theorem rouseQueue_log (q guard : Nat) : (rouseQueue kernel q guard).log = kernel.log := by
  induction guard generalizing kernel q with
  | zero => rfl
  | succ _ ih =>
    rw [rouseQueue]
    split
    · rfl
    · rw [ih, modify_log]

@[simp] theorem views_ipcInboxFreed (target : Nat) :
    (ipcInboxFreed procsMax kernel target).views = kernel.views := rouseQueue_views ..

@[simp] theorem ipcInboxFreed_log (target : Nat) :
    (ipcInboxFreed procsMax kernel target).log = kernel.log := rouseQueue_log ..

/-- `proc_by_pid`, as far as it depends on the slot it looks at. -/
def View.found (procsMax : Nat) (view : View) (pid : Nat) : Bool :=
  decide (1 ≤ pid ∧ pid ≤ procsMax) && view.live

theorem procByPid_views (kernel : Kernel) (pid : Nat) :
    procByPid procsMax kernel pid = (kernel.views pid).found procsMax pid := rfl

theorem views_setPc (pid : Nat) (pc : Pc) : (setPc kernel pid pc).views =
    update kernel.views pid { kernel.views pid with pc := pc } := views_modify _

variable (kernel) in
theorem views_clearInbox (pid : Nat) : (clearInbox kernel pid).views =
    update kernel.views pid { kernel.views pid with
      inbox := { (kernel.views pid).inbox with hasMessage := false } } := views_modify _

theorem views_ipcNoteReplyOwed (pid : Nat) : (ipcNoteReplyOwed kernel pid).views =
    update kernel.views pid { kernel.views pid with
      owed := ⟨(kernel.views pid).inbox.msgFrom, (kernel.views pid).inbox.msgFromGeneration,
        (kernel.views pid).inbox.msgCallSeq⟩ } := views_modify _

theorem views_clearWaitPid (pid : Nat) : (clearWaitPid kernel pid).views =
    update kernel.views pid { kernel.views pid with
      wait := { (kernel.views pid).wait with ipcWaitPid := 0 } } := views_modify _

theorem views_clearBounced (pid : Nat) : (clearBounced kernel pid).views =
    update kernel.views pid { kernel.views pid with
      wait := { (kernel.views pid).wait with ipcBounced := false } } := views_modify _

theorem views_ipcWaitFor (pid dest : Nat) : (ipcWaitFor kernel pid dest).views =
    update kernel.views pid { kernel.views pid with
      wait := { (kernel.views pid).wait with
        ipcWaitPid := dest
        ipcWaitGeneration := (kernel.views dest).generation
        ipcPeerDied := false } } := views_modify _

theorem views_beginCall (pid now : Nat) : (beginCall kernel pid now).views =
    update kernel.views pid { kernel.views pid with
      wait := { (kernel.views pid).wait with inCallReplyWait := true, ipcBounced := false }
      callSeq := nextCallSeq (kernel.views pid).callSeq } := views_modify _

@[simp] theorem views_interrupted (pid : Nat) : (interrupted kernel pid).views = kernel.views :=
  views_modify_same _ rfl

theorem views_unblock (alive : live kernel pid) :
    (kernel.modify pid Process.unblock).views = kernel.views :=
  views_modify_same _ (by simp [Process.view, Process.unblock, show _ ≠ _ from alive])

theorem views_sleep (alive : live kernel pid) : (sleep kernel pid).views = kernel.views := by
  rw [sleep, views_give]
  exact views_modify_same _ (by simp [Process.view, show _ ≠ _ from alive])

def View.acked (view : View) : View := { view with wait := { view.wait with msgAcked := true } }

def View.bounced (view : View) : View := { view with wait := { view.wait with ipcBounced := true } }

theorem views_ipcAck (kernel : Kernel) (sender other : Nat) :
    (ipcAck procsMax kernel sender).views other =
      if other = sender ∧ procByPid procsMax kernel sender = true then (kernel.views other).acked
      else kernel.views other := by
  unfold ipcAck
  by_cases found : procByPid procsMax kernel sender = true
  · by_cases same : other = sender
    · subst same
      simp only [found, ↓reduceIte, views_modify, update_self, view_rouse]
      rfl
    · simp [found, same, views_modify]
  · simp [found]

@[simp] theorem ipcAck_log (sender : Nat) : (ipcAck procsMax kernel sender).log = kernel.log := by
  unfold ipcAck
  split <;> rfl

theorem views_endCall (current : Nat) : (endCall procsMax kernel current).views =
    update kernel.views current { kernel.views current with
      wait := { (kernel.views current).wait with inCallReplyWait := false, ipcWaitPid := 0 } } := by
  simp only [endCall]
  rw [views_modify_same _ rfl, views_clearWaitPid, views_ipcInboxFreed, views_modify,
    update_idem, update_self]
  rfl

@[simp] theorem endCall_log (current : Nat) : (endCall procsMax kernel current).log = kernel.log := by
  simp [endCall, clearWaitPid]

def Wait.over (wait : Wait) (kind : Kind) : Wait :=
  { wait with
    ipcWaitPid := 0
    inCallReplyWait := if kind = .call then false else wait.inCallReplyWait }

theorem views_abort (alive : live kernel current) (op : Op) :
    (abort procsMax kernel current op).views = update kernel.views current
      { kernel.views current with wait := (kernel.views current).wait.over op.kind, pc := .user } := by
  have left : ∀ left : Kernel, left.views = update kernel.views current
      { kernel.views current with wait := (kernel.views current).wait.over op.kind } →
      (((setPc (left.modify current Process.unblock) current .user).record (.failed op)).give
        none).views = update kernel.views current { kernel.views current with
          wait := (kernel.views current).wait.over op.kind, pc := .user } := by
    intro left views
    have aliveLeft : live left current := by
      rw [← views_live, views, update_self]
      exact views_live.mpr alive
    rw [views_give, views_record, views_setPc, views_unblock aliveLeft, views]
    simp
  refine left _ ?_
  by_cases call : op.kind = .call
  · rw [if_pos call, views_endCall]
    simp [Wait.over, call]
  · rw [if_neg call, views_clearWaitPid]
    simp [Wait.over, call]

@[simp] theorem abort_log (current : Nat) (op : Op) :
    (abort procsMax kernel current op).log = .failed op :: kernel.log := by
  simp only [abort]
  split <;> simp [setPc, clearWaitPid]

theorem live_interrupted : live (interrupted kernel current) pid ↔ live kernel pid := by
  rw [← views_live, ← views_live, views_interrupted]

theorem live_remove (self : Nat) : live (ipcQRemove procsMax kernel self) pid ↔ live kernel pid :=
  (relinked_remove procsMax kernel self).live_iff

@[simp] theorem ipcQRemove_log (self : Nat) : (ipcQRemove procsMax kernel self).log = kernel.log :=
  (relinked_remove procsMax kernel self).1

@[simp] theorem ipcQEnqueue_log (current target : Nat) :
    (ipcQEnqueue procsMax kernel current target).log = kernel.log :=
  (relinked_enqueue procsMax kernel current target).1

theorem views_abortQueued (alive : live kernel current) (op : Op) (noted : Bool) :
    (abortQueued procsMax kernel current op noted).views = update kernel.views current
      { kernel.views current with
        wait := (kernel.views current).wait.over op.kind
        pc := .user
        target := 0 } := by
  have views : (ipcQRemove procsMax (if noted = true then interrupted kernel current else kernel)
      current).views = update kernel.views current
        { kernel.views current with target := 0 } := by
    rw [views_ipcQRemove]
    split <;> simp
  have still : live (ipcQRemove procsMax (if noted = true then interrupted kernel current
      else kernel) current) current := by
    rw [← views_live, views, update_self]
    exact views_live.mpr alive
  rw [abortQueued, views_abort still, views, update_self, update_idem]

theorem views_joinQueue (current : Nat) (op : Op) :
    (joinQueue procsMax kernel current op).views = update kernel.views current
      { kernel.views current with
        pc := .queued op
        target := kernel.pid op.dest
        joinedBorn := (kernel.views op.dest).born } := by
  rw [joinQueue, views_record, views_setPc, views_ipcQEnqueue, update_idem,
    update_self]

@[simp] theorem joinQueue_log (current : Nat) (op : Op) :
    (joinQueue procsMax kernel current op).log = .enqueued op :: kernel.log := by
  simp [joinQueue, setPc]

theorem joinQueue_turn (current : Nat) (op : Op) :
    (joinQueue procsMax kernel current op).turn = kernel.turn :=
  (relinked_enqueue procsMax kernel current op.dest).2.1

theorem views_fillInbox (current : Nat) (op : Op) (sent : List UInt8) (id : Nat) :
    (fillInbox kernel current op sent id).views = update kernel.views op.dest
      { kernel.views op.dest with
        inbox := landed (kernel.views op.dest).inbox current (kernel.views current).generation
          (kernel.views current).callSeq op sent id } := by
  rw [fillInbox, views_modify]
  rfl

theorem views_awaitAck (current : Nat) (op : Op) (id : Nat) :
    (awaitAck kernel current op id).views = update kernel.views current
      { kernel.views current with
        wait := { (kernel.views current).wait with msgAcked := false }
        pc := .acking op id } :=
  views_modify _

def sentTo (kernel : Kernel) (current : Nat) (op : Op) (bytes : List UInt8) : Inbox :=
  landed (kernel.views op.dest).inbox current (kernel.views current).generation
    (kernel.views current).callSeq op (bytes.take op.len) kernel.log.length

theorem views_ipcDeposit (kernel : Kernel) (current : Nat) (op : Op) (bytes : List UInt8)
    (other : Nat) :
    (ipcDeposit procsMax kernel current op bytes).views other =
      let filled := if other = op.dest then
        { kernel.views other with inbox := sentTo kernel current op bytes } else kernel.views other
      if other = current then { filled with
        wait := { filled.wait with msgAcked := false }
        pc := .acking op kernel.log.length
        target := 0 }
      else filled := by
  simp only [ipcDeposit, views_record, views_rouse, views_awaitAck, views_fillInbox,
    views_ipcQRemove]
  by_cases self : other = current
  · subst self
    by_cases own : other = op.dest
    · simp [sentTo, ← own]
    · simp [own]
  · by_cases own : other = op.dest
    · subst own
      simp [self, sentTo]
    · simp [self, own]

theorem ipcDeposit_log (kernel : Kernel) (current : Nat) (op : Op) (bytes : List UInt8) :
    (ipcDeposit procsMax kernel current op bytes).log =
      .deposited kernel.log.length op (bytes.take op.len)
        (((kernel.views op.dest).pc.call).map Op.started) :: kernel.log := by
  have pc : ((ipcQRemove procsMax kernel current).procs op.dest).pc = (kernel.views op.dest).pc := by
    have eq := congrFun (views_ipcQRemove procsMax kernel current) op.dest
    by_cases same : op.dest = current
    · rw [same, update_self] at eq
      rw [same]
      exact congrArg View.pc eq
    · rw [update_of_ne same] at eq
      exact congrArg View.pc eq
  simp [ipcDeposit, pc, awaitAck, fillInbox]

theorem views_succeed (current : Nat) (op : Op) (id : Nat) (kind : op.kind ≠ .call) :
    (succeed kernel current op id).views = update kernel.views current
      { kernel.views current with
        wait := (kernel.views current).wait.over op.kind
        pc := .user } := by
  rw [succeed, views_give, views_record, views_setPc, views_clearWaitPid]
  simp [Wait.over, kind]

/-- A process whose inbox is named by `msg_from`, acked if it is a process at all. -/
def ackedIf (procsMax : Nat) (kernel : Kernel) (sender other : Nat) (view : View) : View :=
  if other = sender ∧ procByPid procsMax kernel sender = true then view.acked else view

theorem views_takeMessage (kernel : Kernel) (current : Nat) (len : Int) (other : Nat) :
    (takeMessage procsMax kernel current len).views other =
      ackedIf procsMax kernel (kernel.views current).inbox.msgFrom other
        (if other = current then { kernel.views other with
          inbox := { (kernel.views other).inbox with hasMessage := false }
          owed := ⟨(kernel.views other).inbox.msgFrom,
            (kernel.views other).inbox.msgFromGeneration, (kernel.views other).inbox.msgCallSeq⟩
          pc := .user }
        else kernel.views other) := by
  have found (sender : Nat) : procByPid procsMax (ipcInboxFreed procsMax
      (ipcNoteReplyOwed (clearInbox kernel current) current) current) sender =
        procByPid procsMax kernel sender := by
    simp only [procByPid_views, views_ipcInboxFreed, views_ipcNoteReplyOwed, views_clearInbox]
    by_cases same : sender = current
    · subst same
      simp [View.found]
    · simp [same]
  have inbox : (kernel.procs current).inbox = (kernel.views current).inbox := rfl
  simp only [takeMessage, views_give, views_record, views_setPc, ackedIf, inbox]
  by_cases self : other = current
  · subst self
    rw [views_ipcAck, found]
    simp only [views_ipcInboxFreed, views_ipcNoteReplyOwed, views_clearInbox, update_self]
    split <;> rfl
  · rw [update_of_ne self, views_ipcAck, found]
    simp [views_ipcNoteReplyOwed, views_clearInbox, self]

@[simp] theorem takeMessage_log (kernel : Kernel) (current : Nat) (len : Int) :
    (takeMessage procsMax kernel current len).log =
      .consumed (kernel.views current).inbox.msgId (kernel.views current).inbox.msgOp current
        (kernel.views current).generation kernel.log.length (copyLen len)
        ((kernel.views current).inbox.msgData.take (copyLen len)) :: kernel.log := by
  simp [takeMessage, setPc, ipcNoteReplyOwed, clearInbox, Kernel.views, Process.view]

theorem views_takeReply (kernel : Kernel) (current : Nat) (op : Op) (id other : Nat) :
    (takeReply procsMax kernel current op id).views other =
      ackedIf procsMax kernel (kernel.views current).inbox.msgFrom other
        (if other = current then { kernel.views other with
          inbox := { (kernel.views other).inbox with hasMessage := false }
          wait := (kernel.views other).wait.over .call
          pc := .user }
        else kernel.views other) := by
  have found (sender : Nat) : procByPid procsMax (endCall procsMax (clearInbox kernel current)
      current) sender = procByPid procsMax kernel sender := by
    simp only [procByPid_views, views_endCall, views_clearInbox]
    by_cases same : sender = current
    · subst same
      simp [View.found]
    · simp [same]
  have inbox : (kernel.procs current).inbox = (kernel.views current).inbox := rfl
  simp only [takeReply, views_give, views_record, views_setPc, ackedIf, inbox]
  by_cases self : other = current
  · subst self
    rw [views_ipcAck, found]
    simp only [views_endCall, views_clearInbox, update_self]
    split <;> rfl
  · rw [update_of_ne self, views_ipcAck, found]
    simp [views_endCall, views_clearInbox, self]

@[simp] theorem takeReply_log (kernel : Kernel) (current : Nat) (op : Op) (id : Nat) :
    (takeReply procsMax kernel current op id).log =
      .succeeded op id ::
      .answered op (kernel.views current).inbox.msgId (kernel.views current).inbox.msgOp
        (kernel.views current).inbox.msgType
        ((kernel.views current).inbox.msgData.take op.cap) ::
      .consumed (kernel.views current).inbox.msgId (kernel.views current).inbox.msgOp current
        (kernel.views current).generation kernel.log.length op.cap
        ((kernel.views current).inbox.msgData.take op.cap) :: kernel.log := by
  simp [takeReply, setPc, clearInbox, Kernel.views, Process.view]

theorem views_yank (kernel : Kernel) (current target other : Nat) :
    (yank procsMax kernel current target).views other =
      if other = target ∧ (kernel.views target).inbox.hasMessage = true ∧
          (kernel.views target).inbox.msgFrom = current ∧
          (kernel.views target).inbox.msgFromGeneration = (kernel.views current).generation then
        { kernel.views other with inbox := { (kernel.views other).inbox with hasMessage := false } }
      else kernel.views other := by
  have same : (kernel.procs target).inbox = (kernel.views target).inbox ∧
    (kernel.procs current).generation = (kernel.views current).generation := ⟨rfl, rfl⟩
  simp only [yank, same]
  by_cases held : (kernel.views target).inbox.hasMessage = true ∧
      (kernel.views target).inbox.msgFrom = current ∧
      (kernel.views target).inbox.msgFromGeneration = (kernel.views current).generation
  · rw [if_pos held, views_ipcInboxFreed, views_clearInbox]
    by_cases own : other = target
    · subst own
      simp [held]
    · simp [own]
  · rw [if_neg held, if_neg fun both => held both.2]

@[simp] theorem yank_log (kernel : Kernel) (current target : Nat) :
    (yank procsMax kernel current target).log = kernel.log := by
  simp only [yank]
  split
  · simp [clearInbox]
  · rfl

theorem live_yank (kernel : Kernel) (current target : Nat) :
    live (yank procsMax kernel current target) pid ↔ live kernel pid := by
  rw [← views_live, ← views_live, views_yank]
  split <;> rfl

theorem views_evict (kernel : Kernel) (current other : Nat)
    (full : (kernel.views current).inbox.hasMessage = true) :
    (evict procsMax kernel current).views other =
      let cleared := if other = current then { kernel.views other with
        inbox := { (kernel.views other).inbox with hasMessage := false } } else kernel.views other
      if other = (kernel.views current).inbox.msgFrom ∧ procByPid procsMax kernel other = true ∧
          (kernel.views other).generation = (kernel.views current).inbox.msgFromGeneration then
        cleared.bounced
      else cleared := by
  have inbox : (kernel.procs current).inbox = (kernel.views current).inbox := rfl
  have same (pid : Nat) (event : Event) :
      procByPid procsMax ((clearInbox kernel current).record event) pid =
          procByPid procsMax kernel pid ∧
        (((clearInbox kernel current).record event).procs pid).generation =
          (kernel.views pid).generation := by
    have eq := congrFun (views_clearInbox kernel current) pid
    rw [procByPid_views, procByPid_views, views_record]
    have generation : (((clearInbox kernel current).record event).procs pid).generation =
        ((clearInbox kernel current).views pid).generation := rfl
    rw [generation, eq]
    by_cases own : pid = current
    · subst own
      simp [View.found]
    · simp [own]
  simp only [evict, inbox, full, ↓reduceIte, same]
  generalize (kernel.views current).inbox.msgFrom = pending
  by_cases matching : procByPid procsMax kernel pending = true ∧
      (kernel.views pending).generation = (kernel.views current).inbox.msgFromGeneration
  · rw [if_pos matching, views_modify, view_rouse]
    by_cases self : other = pending
    · subst self
      rw [if_pos ⟨rfl, matching⟩]
      by_cases own : other = current
      · subst own
        simp [View.bounced, Process.view, Kernel.views, clearInbox, Kernel.record]
      · simp [View.bounced, Process.view, Kernel.views, clearInbox, Kernel.record, own]
    · rw [views_record, views_clearInbox]
      by_cases own : other = current
      · subst own
        simp [self]
      · simp [own, self]
  · rw [if_neg matching, if_neg (by rintro ⟨rfl, named⟩; exact matching named), views_record,
      views_clearInbox]
    by_cases own : other = current
    · subst own
      simp
    · simp [own]

theorem evict_log (kernel : Kernel) (current : Nat)
    (full : (kernel.views current).inbox.hasMessage = true) :
    (evict procsMax kernel current).log =
      .evicted (kernel.views current).inbox.msgId (kernel.views current).inbox.msgOp
        kernel.log.length :: kernel.log := by
  have inbox : (kernel.procs current).inbox = (kernel.views current).inbox := rfl
  simp only [evict, inbox, full, ↓reduceIte]
  split <;> simp [clearInbox]

/-- What `ipc_wake_waiters_on` does to a process whose peer is the victim. -/
def View.peerDied (view : View) : View := { view with wait := { view.wait with ipcPeerDied := true } }

variable (procsMax) in
theorem views_procDestroy (kernel : Kernel) (victim other : Nat) :
    (procDestroy procsMax kernel victim).views other =
      if other = victim then { kernel.views other with live := false, pc := .user, target := 0 }
      else if (1 ≤ other ∧ other ≤ procsMax) ∧ live kernel other ∧
          (kernel.views other).wait.ipcWaitPid = victim ∧
          (kernel.views other).wait.ipcWaitGeneration = (kernel.views victim).generation then
        (kernel.views other).peerDied
      else kernel.views other := by
  have woken : (ipcWakeWaitersOn procsMax kernel victim).views other =
      if other ≠ victim ∧ (1 ≤ other ∧ other ≤ procsMax) ∧ live kernel other ∧
          (kernel.views other).wait.ipcWaitPid = victim ∧
          (kernel.views other).wait.ipcWaitGeneration = (kernel.views victim).generation then
        (kernel.views other).peerDied
      else kernel.views other := by
    by_cases inside : 1 ≤ other ∧ other ≤ procsMax
    · by_cases skipped : other = victim ∨ (kernel.procs other).state = .unused
      · rw [if_neg (by simp only [live]; grind)]
        simp [Kernel.views, ipcWakeWaitersOn, peerDied, skipped]
      · by_cases waiting : (kernel.procs other).wait.ipcWaitPid = victim ∧
            (kernel.procs other).wait.ipcWaitGeneration = (kernel.procs victim).generation
        · rw [if_pos (by rw [not_or] at skipped; exact ⟨skipped.1, inside, skipped.2, waiting⟩)]
          simp only [Kernel.views, ipcWakeWaitersOn, inside, and_self, ↓reduceIte, peerDied, skipped]
          rw [if_pos waiting, view_rouse]
          rfl
        · rw [if_neg (fun all => waiting all.2.2.2)]
          simp only [Kernel.views, ipcWakeWaitersOn, inside, and_self, ↓reduceIte, peerDied, skipped]
          rw [if_neg waiting]
    · simp [Kernel.views, ipcWakeWaitersOn, inside]
  simp only [procDestroy]
  rw [views_modify]
  by_cases own : other = victim
  · subst own
    have eq := congrFun (views_ipcQRemove procsMax
      (ipcWakeWaitersOn procsMax kernel other) other) other
    simp only [woken] at eq
    simp only [setHead]
    simp only [Kernel.views, Process.view] at eq ⊢
    simp_all
  · have eq := congrFun (views_ipcQRemove procsMax
      (ipcWakeWaitersOn procsMax kernel victim) victim) other
    rw [update_of_ne own] at eq ⊢
    have kept : (setHead (ipcQRemove procsMax (ipcWakeWaitersOn procsMax kernel victim) victim)
        victim 0).views other =
          (ipcQRemove procsMax (ipcWakeWaitersOn procsMax kernel victim) victim).views other := by
      simp [Kernel.views, setHead, own]
    rw [kept, eq, woken]
    simp [own]

@[simp] theorem procDestroy_log (kernel : Kernel) (victim : Nat) :
    (procDestroy procsMax kernel victim).log = kernel.log := by
  simp [procDestroy, setHead, ipcWakeWaitersOn]

theorem unusedSlot_spec {slot : Nat} (found : unusedSlot procsMax kernel = some slot) :
    (1 ≤ slot ∧ slot ≤ procsMax) ∧ ¬ live kernel slot := by
  have member := List.mem_of_find?_eq_some found
  rw [List.mem_range'_1] at member
  exact ⟨by omega, by simpa [live] using List.find?_some found⟩

/-- A process that keeps its slot and its links, and has not gone to sleep. -/
structure Kept (before after : Process) : Prop where
  alive : after.state = .unused ↔ before.state = .unused
  born : after.born = before.born
  link : after.link = before.link
  waking : after.state = .blocked → before.state = .blocked

theorem Kept.refl (proc : Process) : Kept proc proc := ⟨Iff.rfl, rfl, rfl, id⟩

theorem Kept.trans {first second third : Process} (early : Kept first second)
    (late : Kept second third) : Kept first third :=
  ⟨late.alive.trans early.alive, late.born.trans early.born, late.link.trans early.link,
    early.waking ∘ late.waking⟩

theorem Kept.rouse (proc : Process) : Kept proc proc.rouse := by
  unfold Process.rouse
  split
  · next blocked => exact ⟨by simp [blocked], rfl, rfl, by simp⟩
  · exact .refl proc

theorem Kept.set {before changed : Process} (state : changed.state = before.state)
    (born : changed.born = before.born) (link : changed.link = before.link) : Kept before changed :=
  ⟨by rw [state], born, link, by rw [state]; exact id⟩

theorem Kept.rousing {before changed : Process} (state : changed.state = before.state)
    (born : changed.born = before.born) (link : changed.link = before.link) :
    Kept before changed.rouse :=
  (Kept.set state born link).trans (.rouse changed)

def SameRing (kernel after : Kernel) : Prop :=
  kernel.log.length ≤ after.log.length ∧ ∀ pid, Kept (kernel.procs pid) (after.procs pid)

theorem SameRing.refl (kernel : Kernel) : SameRing kernel kernel :=
  ⟨Nat.le_refl _, fun _ => .refl _⟩

theorem SameRing.trans {middle : Kernel} (first : SameRing kernel middle)
    (second : SameRing middle after) : SameRing kernel after :=
  ⟨Nat.le_trans first.1 second.1, fun pid => (first.2 pid).trans (second.2 pid)⟩

section
variable (same : SameRing kernel after)
include same

theorem SameRing.record (event : Event) : SameRing kernel (after.record event) :=
  ⟨Nat.le_succ_of_le same.1, same.2⟩

theorem SameRing.give (turn : Option Nat) :
    SameRing kernel (after.give turn) := same

theorem SameRing.modify (pid : Nat) (change : Process → Process)
    (kept : Kept (after.procs pid) (change (after.procs pid))) :
    SameRing kernel (after.modify pid change) := by
  refine same.trans ⟨Nat.le_refl _, fun other => ?_⟩
  by_cases own : other = pid
  · subst own
    simpa using kept
  · simpa [own] using Kept.refl (after.procs other)

theorem SameRing.rouse (pid : Nat) : SameRing kernel (after.modify pid Process.rouse) :=
  same.modify pid _ (.rouse _)

theorem SameRing.rouseQueue (q guard : Nat) : SameRing kernel (rouseQueue after q guard) := by
  induction guard generalizing after q with
  | zero => exact same
  | succ _ ih =>
    rw [Ipc.rouseQueue]
    split
    · exact same
    · exact ih (same.rouse q) _

theorem SameRing.inboxFreed (target : Nat) :
    SameRing kernel (ipcInboxFreed procsMax after target) :=
  same.rouseQueue _ _

theorem SameRing.ack (sender : Nat) : SameRing kernel (ipcAck procsMax after sender) := by
  unfold ipcAck
  split
  · exact same.modify sender _ (.rousing rfl rfl rfl)
  · exact same

end
end Racccoon.Ipc
