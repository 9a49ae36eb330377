import Mathlib.Logic.Relation
import Racccoon.Ipc.Steps

/-!
The rendezvous as an abstract machine: views of the processes and the history, with
no queues, no scheduler and no time. `Deed` is what can happen in it; every step of
the kernel is at most two deeds (`run_deeds`). What the modules after this one say
about messages, acks and replies is proved over deeds.

`Rules` restricts when a deed may happen; the weakest rules allow everything the
kernel does, and a claim that does not hold of every run holds under rules of its own.
-/

namespace Racccoon.Ipc

structure Exchange where
  views : Nat → View
  log : List Event

def Kernel.exchange (kernel : Kernel) : Exchange := ⟨kernel.views, kernel.log⟩

/-- What may be deposited, consumed and evicted, from which `call_seq` a call may
start and from which generation a slot may be reused. -/
structure Rules where
  deposit : Exchange → Nat → Op → Prop
  take : Exchange → Nat → Prop
  evict : Exchange → Nat → Prop
  call : Nat → Prop
  create : Nat → Prop

def Fair (rules : Rules) (procsMax : Nat) (kernel : Kernel) (action : Action) : Prop :=
  (∀ deposit ∈ depositing kernel, rules.deposit kernel.exchange deposit.1 deposit.2) ∧
    (∀ reader ∈ consuming kernel action, rules.take kernel.exchange reader) ∧
    (∀ caller ∈ calling procsMax kernel action, rules.evict kernel.exchange caller ∧
      rules.call (kernel.procs caller).callSeq) ∧
    ∀ slot ∈ creating procsMax kernel action, rules.create (kernel.procs slot).generation

class DecidableRules (rules : Rules) where
  deposit : ∀ ex current op, Decidable (rules.deposit ex current op)
  take : ∀ ex reader, Decidable (rules.take ex reader)
  evict : ∀ ex current, Decidable (rules.evict ex current)
  call : ∀ callSeq, Decidable (rules.call callSeq)
  create : ∀ generation, Decidable (rules.create generation)

instance (rules : Rules) [checks : DecidableRules rules] (procsMax : Nat) (kernel : Kernel)
    (action : Action) : Decidable (Fair rules procsMax kernel action) :=
  have := checks.deposit
  have := checks.take
  have := checks.evict
  have := checks.call
  have := checks.create
  inferInstanceAs (Decidable (_ ∧ _ ∧ _ ∧ _))

def View.emptied (view : View) : View :=
  { view with inbox := { view.inbox with hasMessage := false } }

def Calm (before after : View) : Prop :=
  ∃ pc owed, after = { before with pc := pc, owed := owed } ∧
    (pc = before.pc ∨ before.live = true ∧ before.pc.outside = true ∧ pc.outside = true) ∧
    (owed = before.owed ∨ owed = { before.owed with replyOwedSeq := 0 })

def Exchange.available (ex : Exchange) (current target : Nat) : Prop :=
  (ex.views target).inbox.hasMessage = false ∧
    ((ex.views target).wait.inCallReplyWait = true →
      current = (ex.views target).wait.ipcWaitPid ∧
        (ex.views current).generation = (ex.views target).wait.ipcWaitGeneration)

def Exchange.peerGone (procsMax : Nat) (ex : Exchange) (current : Nat) : Prop :=
  let wait := (ex.views current).wait
  wait.ipcPeerDied = true ∨ (ex.views wait.ipcWaitPid).found procsMax wait.ipcWaitPid = false ∨
    (ex.views wait.ipcWaitPid).generation ≠ wait.ipcWaitGeneration

/-- Why an operation gives up. `pulled` says that it takes its message back first. -/
def Exchange.fails (procsMax : Nat) (ex : Exchange) (current : Nat) (pulled : Bool) : Prop :=
  match (ex.views current).pc with
  | .queued _ => pulled = false
  | .acking op _ => pulled = true ∧ op.kind = .call ∨ pulled = false ∧ ex.peerGone procsMax current
  | .awaiting _ _ => pulled = false ∧ (ex.views current).inbox.hasMessage = false
  | .user | .elsewhere | .receiving _ => False

inductive Deed (procsMax : Nat) (rules : Rules) (before : Exchange) : Exchange → Prop where
  | calm {after : Exchange} (views : ∀ pid, Calm (before.views pid) (after.views pid))
      (log : after.log = before.log) : Deed procsMax rules before after
  | evict {after : Exchange} {current : Nat} (alive : (before.views current).live = true)
      (outside : (before.views current).pc.outside = true)
      (full : (before.views current).inbox.hasMessage = true) (rule : rules.evict before current)
      (views : ∀ pid, after.views pid =
        let view := if pid = current then (before.views pid).emptied else before.views pid
        if pid = (before.views current).inbox.msgFrom ∧
            (before.views pid).found procsMax pid = true ∧
            (before.views pid).generation = (before.views current).inbox.msgFromGeneration then
          view.bounced
        else view)
      (log : after.log = .evicted (before.views current).inbox.msgId
        (before.views current).inbox.msgOp before.log.length :: before.log) :
      Deed procsMax rules before after
  | start {after : Exchange} {current : Nat} {op : Op} {owed : Owed}
      (alive : (before.views current).live = true)
      (outside : (before.views current).pc.outside = true)
      (empty : op.kind = .call → (before.views current).inbox.hasMessage = false)
      (rule : op.kind = .call → rules.call (before.views current).callSeq)
      (found : (before.views op.dest).found procsMax op.dest = true)
      (caller : op.caller = current ∧ op.callerGeneration = (before.views current).generation)
      (dest : op.destGeneration = (before.views op.dest).generation)
      (started : op.started = before.log.length)
      (seq : op.kind = .call → op.seq = nextCallSeq (before.views current).callSeq)
      (debt : Debt (before.views current).owed op owed)
      (views : ∀ pid, ∃ target joinedBorn, after.views pid =
        if pid = current then { (before.views current).facing op owed with
          pc := .queued op
          target := target
          joinedBorn := joinedBorn }
        else before.views pid)
      (log : after.log = .enqueued op :: before.log) : Deed procsMax rules before after
  | deposit {after : Exchange} {current : Nat} {op : Op} (bytes : List UInt8)
      (pc : (before.views current).pc = .queued op) (free : before.available current op.dest)
      (rule : rules.deposit before current op)
      (views : ∀ pid, after.views pid =
        let view := if pid = op.dest then { before.views pid with
          inbox := landed (before.views op.dest).inbox current (before.views current).generation
            (before.views current).callSeq op (bytes.take op.len) before.log.length }
          else before.views pid
        if pid = current then { view with
          wait := { view.wait with msgAcked := false }
          pc := .acking op before.log.length
          target := 0 }
        else view)
      (log : after.log = .deposited before.log.length op (bytes.take op.len)
        (((before.views op.dest).pc.call).map Op.started) :: before.log) :
      Deed procsMax rules before after
  | fail {after : Exchange} {current : Nat} {op : Op} {pulled : Bool}
      (pc : (before.views current).pc.op = some op) (reason : before.fails procsMax current pulled)
      (views : ∀ pid, ∃ target, after.views pid =
        let view := if pulled = true ∧ pid = op.dest ∧
            (before.views pid).inbox.hasMessage = true ∧
            (before.views pid).inbox.msgFrom = current ∧
            (before.views pid).inbox.msgFromGeneration = (before.views current).generation then
          (before.views pid).emptied else before.views pid
        if pid = current then { view with
          wait := view.wait.over op.kind
          pc := .user
          target := target }
        else view)
      (log : after.log = .failed op :: before.log) : Deed procsMax rules before after
  | redeliver {after : Exchange} {current : Nat} {op : Op} {id : Nat}
      (pc : (before.views current).pc = .acking op id) (kind : op.kind ≠ .reply)
      (bounced : (before.views current).wait.ipcBounced = true)
      (views : ∀ pid, ∃ target joinedBorn, after.views pid =
        if pid = current then { before.views current with
          wait := { (before.views current).wait with ipcBounced := false }
          pc := .queued op
          target := target
          joinedBorn := joinedBorn }
        else before.views pid)
      (log : after.log = .enqueued op :: before.log) : Deed procsMax rules before after
  | accept {after : Exchange} {current : Nat} {op : Op} {id : Nat}
      (pc : (before.views current).pc = .acking op id) (kind : op.kind = .call)
      (bounced : (before.views current).wait.ipcBounced = false)
      (acked : (before.views current).wait.msgAcked = true)
      (views : ∀ pid, after.views pid = if pid = current then
        { before.views current with pc := .awaiting op id } else before.views pid)
      (log : after.log = before.log) : Deed procsMax rules before after
  | finish {after : Exchange} {current : Nat} {op : Op} {id : Nat}
      (pc : (before.views current).pc = .acking op id) (kind : op.kind ≠ .call)
      (bounced : op.kind ≠ .reply → (before.views current).wait.ipcBounced = false)
      (acked : (before.views current).wait.msgAcked = true)
      (views : ∀ pid, after.views pid = if pid = current then { before.views current with
          wait := (before.views current).wait.over op.kind
          pc := .user }
        else before.views pid)
      (log : after.log = .succeeded op id :: before.log) : Deed procsMax rules before after
  | collect {after : Exchange} {current : Nat} {op : Op} {id : Nat}
      (pc : (before.views current).pc = .awaiting op id)
      (full : (before.views current).inbox.hasMessage = true) (rule : rules.take before current)
      (views : ∀ pid, after.views pid =
        let view := if pid = current then { (before.views pid).emptied with
          wait := (before.views pid).wait.over .call
          pc := .user }
          else before.views pid
        if pid = (before.views current).inbox.msgFrom ∧
            (before.views pid).found procsMax pid = true then view.acked
        else view)
      (log : after.log = .succeeded op id ::
        .answered op (before.views current).inbox.msgId (before.views current).inbox.msgOp
          (before.views current).inbox.msgType
          ((before.views current).inbox.msgData.take op.cap) ::
        .consumed (before.views current).inbox.msgId (before.views current).inbox.msgOp current
          (before.views current).generation before.log.length op.cap
          ((before.views current).inbox.msgData.take op.cap) :: before.log) :
      Deed procsMax rules before after
  | take {after : Exchange} {current : Nat} {len : Int}
      (alive : (before.views current).live = true)
      (outside : (before.views current).pc.outside = true)
      (full : (before.views current).inbox.hasMessage = true) (rule : rules.take before current)
      (views : ∀ pid, after.views pid =
        let view := if pid = current then { (before.views pid).emptied with
          owed := ⟨(before.views pid).inbox.msgFrom, (before.views pid).inbox.msgFromGeneration,
            (before.views pid).inbox.msgCallSeq⟩
          pc := .user }
          else before.views pid
        if pid = (before.views current).inbox.msgFrom ∧
            (before.views pid).found procsMax pid = true then view.acked
        else view)
      (log : after.log = .consumed (before.views current).inbox.msgId
        (before.views current).inbox.msgOp current (before.views current).generation
        before.log.length (copyLen len)
        ((before.views current).inbox.msgData.take (copyLen len)) :: before.log) :
      Deed procsMax rules before after
  | destroy {after : Exchange} {victim : Nat} (found : (before.views victim).found procsMax victim = true)
      (views : ∀ pid, after.views pid =
        if pid = victim then { before.views pid with live := false, pc := .user, target := 0 }
        else if (before.views pid).found procsMax pid = true ∧
            (before.views pid).wait.ipcWaitPid = victim ∧
            (before.views pid).wait.ipcWaitGeneration = (before.views victim).generation then
          (before.views pid).peerDied
        else before.views pid)
      (log : after.log = before.log) : Deed procsMax rules before after
  | create {after : Exchange} {slot : Nat} {proc : View}
      (inside : 1 ≤ slot ∧ slot ≤ procsMax) (dead : (before.views slot).live = false)
      (rule : rules.create (before.views slot).generation) (alive : proc.live = true)
      (generation : proc.generation = ((before.views slot).generation + 1) % 2 ^ 32)
      (fresh : proc.callSeq = 0 ∧ proc.inbox.hasMessage = false ∧ proc.wait.ipcWaitPid = 0 ∧
        proc.wait.ipcPeerDied = false ∧ proc.wait.inCallReplyWait = false ∧
        proc.wait.ipcBounced = false ∧ proc.owed.replyOwedSeq = 0 ∧ proc.pc = .user)
      (views : ∀ pid, after.views pid = if pid = slot then proc else before.views pid)
      (log : after.log = .created slot :: before.log) : Deed procsMax rules before after

variable {procsMax : Nat} {rules : Rules} {kernel after : Kernel} {current : Nat} {action : Action}

theorem Calm.refl (view : View) : Calm view view :=
  ⟨view.pc, view.owed, rfl, .inl rfl, .inl rfl⟩

variable (current) in
theorem Deed.update {view : View} (calm : Calm (kernel.views current) view)
    (views : after.views = Function.update kernel.views current view)
    (log : after.log = kernel.log) : Deed procsMax rules kernel.exchange after.exchange := by
  refine .calm (fun pid => ?_) log
  show Calm (kernel.views pid) (after.views pid)
  rw [views]
  by_cases same : pid = current
  · subst same
    simpa using calm
  · simpa [same] using Calm.refl (kernel.views pid)

theorem Deed.still (views : after.views = kernel.views) (log : after.log = kernel.log) :
    Deed procsMax rules kernel.exchange after.exchange :=
  .calm (fun pid => by
    show Calm (kernel.views pid) (after.views pid)
    rw [views]
    exact .refl _) log

theorem available_exchange {target : Nat} (available : ipcInboxAvailable kernel current target = true) :
    kernel.exchange.available current target := by
  simp only [ipcInboxAvailable, Bool.and_eq_true, Bool.not_eq_true', Bool.and_eq_false_iff,
    Bool.not_eq_false', decide_eq_true_eq] at available
  refine ⟨available.1, fun inCall => ?_⟩
  rcases available.2 with free | own
  · have taken : (kernel.procs target).wait.inCallReplyWait = true := inCall
    rw [free] at taken
    cases taken
  · exact own

variable {op : Op}

theorem deposit_deed (bytes : List UInt8) (turn : kernel.turn = some current)
    (pc : (kernel.views current).pc = .queued op)
    (can : ipcCanDeposit kernel current op.dest = true) (fair : Fair rules procsMax kernel action) :
    Deed procsMax rules kernel.exchange (ipcDeposit procsMax kernel current op bytes).exchange := by
  have inside : (kernel.procs current).pc = .queued op := pc
  refine .deposit bytes pc (available_exchange ?_) ?_ (fun pid => views_ipcDeposit ..) (ipcDeposit_log ..)
  · simp only [ipcCanDeposit, Bool.and_eq_true] at can
    exact can.1
  · exact fair.1 (current, op) (by simp [depositing, turn, inside, can])

variable (procsMax) in
theorem joinQueue_view (kernel : Kernel) (current : Nat) (op : Op) (pid : Nat) :
    ∃ target joinedBorn, (joinQueue procsMax kernel current op).views pid =
      if pid = current then { kernel.views current with
        pc := .queued op
        target := target
        joinedBorn := joinedBorn }
      else kernel.views pid := by
  rw [views_joinQueue]
  by_cases same : pid = current
  · subst same
    simp
  · simp [same]
variable {id : Nat}

theorem rejoin_deed (pc : (kernel.views current).pc = .acking op id) (kind : op.kind ≠ .reply)
    (bounced : (kernel.views current).wait.ipcBounced = true) :
    Deed procsMax rules kernel.exchange
      (joinQueue procsMax (clearBounced kernel current) current op).exchange := by
  refine .redeliver pc kind bounced (fun pid => ?_) (joinQueue_log ..)
  obtain ⟨target, joinedBorn, view⟩ :=
    joinQueue_view procsMax (clearBounced kernel current) current op pid
  refine ⟨target, joinedBorn, view.trans ?_⟩
  rw [views_clearBounced]
  by_cases same : pid = current
  · subst same
    simp [Kernel.exchange]
  · simp [same, Kernel.exchange]

theorem abort_deed (pulled : Bool) {left : Kernel} (alive : live left current)
    (pc : (kernel.views current).pc.op = some op)
    (reason : kernel.exchange.fails procsMax current pulled) (log : left.log = kernel.log)
    (views : ∀ pid, ∃ target, left.views pid =
      let view := if pulled = true ∧ pid = op.dest ∧
          (kernel.views pid).inbox.hasMessage = true ∧ (kernel.views pid).inbox.msgFrom = current ∧
          (kernel.views pid).inbox.msgFromGeneration = (kernel.views current).generation then
        (kernel.views pid).emptied else kernel.views pid
      if pid = current then { view with target := target } else view) :
    Deed procsMax rules kernel.exchange (abort procsMax left current op).exchange := by
  refine .fail pc reason (fun pid => ?_) (by simp [Kernel.exchange, log])
  obtain ⟨target, view⟩ := views pid
  refine ⟨target, (congrFun (views_abort alive op) pid).trans ?_⟩
  by_cases same : pid = current
  · subst same
    rw [Function.update_self, view]
    simp only [↓reduceIte]
    rfl
  · rw [Function.update_of_ne same, view]
    simp only [same]
    rfl

theorem ipcPeerGone_exchange (gone : ipcPeerGone procsMax kernel current = true) :
    kernel.exchange.peerGone procsMax current := by
  simp only [ipcPeerGone, Bool.and_eq_true, Bool.or_eq_true,
    Bool.not_eq_true', decide_eq_true_eq, or_assoc] at gone
  exact gone.2

theorem leaveQueue_deed (noted : Bool) (alive : live kernel current)
    (pc : (kernel.views current).pc = .queued op) : Deed procsMax rules kernel.exchange
      (abortQueued procsMax kernel current op noted).exchange := by
  refine abort_deed false ?_ (by rw [pc]; rfl) ?_ ?_ fun pid => ?_
  · rw [live_remove]
    cases noted
    · exact alive
    · exact live_interrupted.mpr alive
  · have inside : (kernel.exchange.views current).pc = .queued op := pc
    simp [Exchange.fails, inside]
  · cases noted <;> simp [interrupted]
  · rw [views_ipcQRemove]
    have views : (if noted = true then interrupted kernel current else kernel).views = kernel.views := by
      cases noted <;> simp
    rw [views]
    by_cases same : pid = current
    · subst same
      simp
    · simp [same]

theorem timeOut_deed (alive : live kernel current) (pc : (kernel.views current).pc = .acking op id)
    (kind : op.kind = .call) :
    Deed procsMax rules kernel.exchange
      (abort procsMax (yank procsMax kernel current op.dest) current op).exchange := by
  refine abort_deed true ((live_yank ..).mpr alive) (by rw [pc]; rfl) ?_ (yank_log ..)
    fun pid => ⟨(kernel.views pid).target, ?_⟩
  · have inside : (kernel.exchange.views current).pc = .acking op id := pc
    simp [Exchange.fails, inside, kind]
  · rw [views_yank]
    by_cases own : pid = op.dest
    · subst own
      simp only [true_and]
      split <;> split <;> rfl
    · simp [own]

theorem desert_deed (alive : live kernel current) (pc : (kernel.views current).pc.op = some op)
    (reason : kernel.exchange.fails procsMax current false) :
    Deed procsMax rules kernel.exchange (abort procsMax kernel current op).exchange :=
  abort_deed false alive pc reason rfl fun pid => ⟨(kernel.views pid).target, by simp⟩

theorem evict_deed (alive : live kernel current) (outside : (kernel.views current).pc.outside = true)
    (full : (kernel.views current).inbox.hasMessage = true)
    (rule : rules.evict kernel.exchange current) :
    Deed procsMax rules kernel.exchange (evict procsMax kernel current).exchange := by
  exact .evict (views_live.mpr alive) outside full rule
    (fun pid => views_evict kernel current pid full) (evict_log _ _ full)

theorem evict_outside (kernel : Kernel) (current pid : Nat) :
    ((evict procsMax kernel current).views pid).pc = (kernel.views pid).pc ∧
      ((evict procsMax kernel current).views pid).live = (kernel.views pid).live ∧
      ((evict procsMax kernel current).views current).inbox.hasMessage = false := by
  cases full : (kernel.views current).inbox.hasMessage with
  | false => rw [evict_nothing full]; exact ⟨rfl, rfl, full⟩
  | true =>
    rw [views_evict _ _ _ full, views_evict _ _ _ full]
    refine ⟨?_, ?_, ?_⟩
    · split <;> split <;> rfl
    · split <;> split <;> rfl
    · simp only [↓reduceIte]
      split <;> rfl

/-- A new operation is a possible eviction and then a start. -/
theorem start_deeds {base prepared : Kernel} {owed : Owed} (runs : running kernel current)
    (evicts : op.kind ≠ .call ∧ base = kernel ∨ op.kind = .call ∧ base = evict procsMax kernel current)
    (found : procByPid procsMax kernel op.dest = true)
    (caller : op.caller = current ∧ op.callerGeneration = (kernel.views current).generation)
    (dest : op.destGeneration = (kernel.views op.dest).generation)
    (started : op.started = base.log.length)
    (seq : op.kind = .call → op.seq = nextCallSeq (kernel.views current).callSeq)
    (debt : Debt (kernel.views current).owed op owed)
    (calls : op.kind = .call → calling procsMax kernel action = some current)
    (views : prepared.views =
      Function.update base.views current ((base.views current).facing op owed))
    (log : prepared.log = base.log) (fair : Fair rules procsMax kernel action) :
    Relation.ReflTransGen (Deed procsMax rules) kernel.exchange
      (joinQueue procsMax prepared current op).exchange := by
  have outside := running_outside runs
  have alive := running_live runs
  have last : ∀ empty : op.kind = .call → (base.views current).inbox.hasMessage = false,
      (∀ pid, (base.views pid).pc = (kernel.views pid).pc ∧
        (base.views pid).live = (kernel.views pid).live ∧
        (base.views pid).callSeq = (kernel.views pid).callSeq ∧
        (base.views pid).generation = (kernel.views pid).generation ∧
        (base.views pid).owed = (kernel.views pid).owed) →
      Deed procsMax rules base.exchange (joinQueue procsMax prepared current op).exchange := by
    intro empty same
    obtain ⟨pc, live, callSeq, generation, owedSame⟩ := same current
    have settled : Debt (base.exchange.views current).owed op owed := by
      rwa [show (base.exchange.views current).owed = (kernel.views current).owed from owedSame]
    refine .start (live.trans (views_live.mpr alive))
      (by rw [← outside]; exact congrArg Pc.outside pc) empty (fun call => ?_) ?_
      ⟨caller.1, caller.2.trans generation.symm⟩ (dest.trans (same op.dest).2.2.2.1.symm) started
      (fun call => (seq call).trans (congrArg nextCallSeq callSeq.symm)) settled (fun pid => ?_)
      ((joinQueue_log ..).trans (by rw [log]; rfl))
    · have rule := (fair.2.2.1 current (calls call)).2
      rwa [show (kernel.procs current).callSeq = (base.exchange.views current).callSeq from
        callSeq.symm] at rule
    · rw [← found, procByPid_views]
      simp only [View.found]
      rw [← (same op.dest).2.1]
      rfl
    · obtain ⟨target, joinedBorn, view⟩ := joinQueue_view procsMax prepared current op pid
      refine ⟨target, joinedBorn, view.trans ?_⟩
      rw [views]
      by_cases self : pid = current
      · subst self
        simp [Kernel.exchange]
      · simp [self, Kernel.exchange]
  rcases evicts with ⟨kind, rfl⟩ | ⟨kind, rfl⟩
  · exact .single (last (fun call => absurd call kind) fun pid => ⟨rfl, rfl, rfl, rfl, rfl⟩)
  · have same (pid : Nat) := views_evict_callSeq procsMax kernel current pid
    have rest := last (fun _ => (evict_outside kernel current current).2.2) fun pid =>
      ⟨(evict_outside kernel current pid).1, (evict_outside kernel current pid).2.1, same pid⟩
    cases full : (kernel.views current).inbox.hasMessage with
    | false =>
      rw [evict_nothing full] at rest
      exact .single rest
    | true =>
      exact .tail (.single (evict_deed alive outside full
        (fair.2.2.1 current (calls kind)).1)) rest

theorem accept_deed (pc : (kernel.views current).pc = .acking op id) (kind : op.kind = .call)
    (bounced : (kernel.views current).wait.ipcBounced = false)
    (acked : (kernel.views current).wait.msgAcked = true) :
    Deed procsMax rules kernel.exchange (setPc kernel current (.awaiting op id)).exchange := by
  refine .accept pc kind bounced acked (fun pid => (congrFun (views_setPc _ _) pid).trans ?_) rfl
  by_cases same : pid = current
  · subst same
    simp [Kernel.exchange]
  · simp [same, Kernel.exchange]

theorem finish_deed (pc : (kernel.views current).pc = .acking op id) (kind : op.kind ≠ .call)
    (bounced : op.kind ≠ .reply → (kernel.views current).wait.ipcBounced = false)
    (acked : (kernel.views current).wait.msgAcked = true) :
    Deed procsMax rules kernel.exchange (succeed kernel current op id).exchange := by
  refine .finish pc kind bounced acked
    (fun pid => (congrFun (views_succeed current op id kind) pid).trans ?_) rfl
  by_cases same : pid = current
  · subst same
    simp [Kernel.exchange]
  · simp [same, Kernel.exchange]

theorem acked_exchange (sender pid : Nat) (view : View) :
    ackedIf procsMax kernel sender pid view =
      if pid = sender ∧ (kernel.exchange.views pid).found procsMax pid = true then view.acked
      else view := by
  unfold ackedIf
  by_cases same : pid = sender
  · subst same
    rfl
  · simp [same]

theorem collect_deed (turn : kernel.turn = some current)
    (pc : (kernel.views current).pc = .awaiting op id)
    (full : (kernel.views current).inbox.hasMessage = true) {bytes : List UInt8}
    (fair : Fair rules procsMax kernel (.run bytes)) :
    Deed procsMax rules kernel.exchange (takeReply procsMax kernel current op id).exchange := by
  have inside : (kernel.procs current).pc = .awaiting op id := pc
  have inbox : (kernel.procs current).inbox.hasMessage = true := full
  refine .collect pc full (fair.2.1 current (by simp [consuming, turn, inside, inbox]))
    (fun pid => ?_) (takeReply_log ..)
  exact (views_takeReply kernel current op id pid).trans (acked_exchange ..)

theorem take_deed {len : Int} (awake : (kernel.procs current).state = .runnable)
    (outside : (kernel.views current).pc.outside = true)
    (full : (kernel.views current).inbox.hasMessage = true)
    (consumes : consuming kernel action = some current) (fair : Fair rules procsMax kernel action) :
    Deed procsMax rules kernel.exchange (takeMessage procsMax kernel current len).exchange := by
  refine .take (views_live.mpr (live_of_runnable awake)) outside full (fair.2.1 current consumes) (fun pid => ?_)
    (takeMessage_log ..)
  exact (views_takeMessage kernel current len pid).trans (acked_exchange ..)

theorem destroy_deed {victim : Nat} (found : procByPid procsMax kernel victim = true) :
    Deed procsMax rules kernel.exchange (procDestroy procsMax kernel victim).exchange := by
  refine .destroy found (fun pid => (views_procDestroy procsMax kernel victim pid).trans ?_) (procDestroy_log ..)
  by_cases own : pid = victim
  · simp only [own]
    rfl
  · simp only [← views_live, Kernel.exchange, View.found, Bool.and_eq_true,
      decide_eq_true_eq, and_assoc]

theorem create_deed {slot : Nat} {proc : Process} (unused : unusedSlot procsMax kernel = some slot)
    (creates : creating procsMax kernel action = some slot) (fresh : Fresh kernel slot proc)
    (fair : Fair rules procsMax kernel action) : Deed procsMax rules kernel.exchange
      ((kernel.modify slot fun _ => proc).record (.created slot)).exchange := by
  have spec := unusedSlot_spec unused
  have generation : proc.view.generation = ((kernel.views slot).generation + 1) % 2 ^ 32 :=
    fresh.generation
  refine .create spec.1 ?_ (fair.2.2.2 slot creates) ?_ generation
    ⟨fresh.callSeq, fresh.empty, fresh.wait.1, fresh.wait.2.1, fresh.wait.2.2.1, fresh.wait.2.2.2,
      fresh.owed, fresh.pc⟩ (fun pid => ?_) rfl
  · rw [← Bool.not_eq_true]
    exact fun alive => spec.2 (views_live.mp alive)
  · simp [Process.view, fresh.state]
  · refine (congrFun (views_record _) pid).trans ((congrFun (views_modify _) pid).trans ?_)
    by_cases same : pid = slot
    · subst same
      simp
    · simp [same, Kernel.exchange]

theorem Move.deeds (move : Move procsMax kernel action after)
    (fair : Fair rules procsMax kernel action) :
    Relation.ReflTransGen (Deed procsMax rules) kernel.exchange after.exchange := by
  cases move with
  | quiet views log => exact .single (.still views log)
  | schedule => exact .refl
  | rest _ alive => exact .single (.still (views_sleep alive) rfl)
  | @wander _ current pc _ awake before outside views log =>
    exact .single (.update current ⟨pc, _, rfl,
      .inr ⟨views_live.mpr (live_of_runnable awake), before, outside⟩, .inl rfl⟩ views log)
  | @doze _ current _ alive before =>
    refine .single (.update current ⟨.elsewhere, _, rfl,
      .inr ⟨views_live.mpr alive, before, rfl⟩, .inl rfl⟩ ?_ rfl)
    rw [views_sleep (by simpa [live, setPc] using alive), views_setPc]
  | settle _ views log => exact .single (.update _ ⟨_, _, rfl, .inl rfl, .inr rfl⟩ views log)
  | start _ _ _ runs evicts found caller dest started seq debt calls views log =>
    exact start_deeds runs evicts found caller dest started seq debt calls views log fair
  | deposit bytes turn pc can => exact .single (deposit_deed bytes turn pc can fair)
  | leaveQueue noted _ alive pc => exact .single (leaveQueue_deed noted alive pc)
  | redeliver _ pc kind bounced => exact .single (rejoin_deed pc kind bounced)
  | accept _ pc kind bounced acked => exact .single (accept_deed pc kind bounced acked)
  | finish _ pc kind bounced acked => exact .single (finish_deed pc kind bounced acked)
  | timeOut _ alive pc kind => exact .single (timeOut_deed alive pc kind)
  | desert _ alive pc gone =>
    refine .single (desert_deed alive (by rw [pc]; rfl) ?_)
    have inside : (kernel.exchange.views _).pc = _ := pc
    rw [Exchange.fails, inside]
    exact .inr ⟨rfl, ipcPeerGone_exchange gone⟩
  | collect turn pc full => exact .single (collect_deed turn pc full fair)
  | hangUp _ alive pc empty =>
    refine .single (desert_deed alive (by rw [pc]; rfl) ?_)
    have inside : (kernel.exchange.views _).pc = _ := pc
    rw [Exchange.fails, inside]
    exact ⟨rfl, empty⟩
  | take awake outside full consumes => exact .single (take_deed awake outside full consumes fair)
  | destroy _ found => exact .single (destroy_deed found)
  | create _ unused creates fresh => exact .single (create_deed unused creates fresh fair)

theorem Executes.of_none (idle : kernel.turn = none) : Executes kernel := by
  intro current turn
  rw [idle] at turn
  cases turn

theorem Executes.of_view (turn : after.turn = some current)
    (awake : (after.procs current).state = .runnable)
    (inside : (after.views current).pc.looping = true) : Executes after := by
  intro other executing
  obtain rfl : current = other := Option.some.inj (turn.symm.trans executing)
  exact ⟨awake, inside⟩

theorem Kept.awake {before changed : Process} (kept : Kept before changed)
    (awake : before.state = .runnable) : changed.state = .runnable := by
  have alive := kept.alive
  have waking := kept.waking
  revert alive waking
  cases changed.state <;> simp [awake]

theorem joinQueue_state (kernel : Kernel) (current : Nat) (op : Op) (pid : Nat) :
    ((joinQueue procsMax kernel current op).procs pid).state = (kernel.procs pid).state := by
  obtain ⟨link, eq⟩ := (relinked_enqueue procsMax kernel current op.dest).2.2 pid
  by_cases same : pid = current
  · subst same
    simp [joinQueue, Kernel.record, setPc, eq]
  · simp [joinQueue, Kernel.record, setPc, eq, same]

variable (procsMax) in
theorem deposited_kept (kernel : Kernel) (current : Nat) (op : Op) (bytes : List UInt8) :
    SameRing (ipcQRemove procsMax kernel current) (ipcDeposit procsMax kernel current op bytes) :=
  ((((SameRing.refl _).modify _ _ (.set rfl rfl rfl)).modify _ _ (.set rfl rfl rfl)).rouse _).record _

variable (procsMax) in
theorem ipcDeposit_kept (kernel : Kernel) (current : Nat) (op : Op) (bytes : List UInt8) (pid : Nat) :
    (((ipcDeposit procsMax kernel current op bytes).procs pid).state = .unused ↔
        (kernel.procs pid).state = .unused) ∧
      (((ipcDeposit procsMax kernel current op bytes).procs pid).state = .blocked →
        (kernel.procs pid).state = .blocked) := by
  obtain ⟨link, eq⟩ := (relinked_remove procsMax kernel current).2.2 pid
  have kept := (deposited_kept procsMax kernel current op bytes).2 pid
  have state : ((ipcQRemove procsMax kernel current).procs pid).state = (kernel.procs pid).state := by
    rw [eq]
  rw [← state]
  exact ⟨kept.alive, kept.waking⟩

theorem Move.executes (move : Move procsMax kernel action after) (executes : Executes kernel) :
    Executes after := by
  cases move with
  | quiet views _ ring turn =>
    intro current now
    have before := executes current (turn ▸ now)
    rw [views]
    exact ⟨(ring.2 current).awake before.1, before.2⟩
  | schedule _ awake inside => exact .of_view rfl awake inside
  | rest | doze => exact .of_none rfl
  | @wander _ current _ _ awake _ _ views _ ring turn =>
    rcases turn with none | ⟨some, inside⟩
    · exact .of_none none
    · exact .of_view some ((ring.2 current).awake awake) (by rw [views]; simpa using inside)
  | @settle _ current _ _ views _ ring turn =>
    intro other now
    have before := executes other (turn ▸ now)
    refine ⟨(ring.2 other).awake before.1, ?_⟩
    rw [views]
    by_cases same : other = current
    · subst same
      simpa using before.2
    · simpa [same] using before.2
  | @start _ current op base prepared owed idle runs evicts found caller dest started seq debt calls
      views log ring =>
      have kept : SameRing kernel base := by
        rcases evicts with ⟨-, same⟩ | ⟨-, same⟩
        · exact same ▸ .refl kernel
        · exact same ▸ evict_kept kernel current
      refine .of_view rfl ?_ ?_
      · exact (joinQueue_state ..).trans (((kept.trans ring).2 current).awake runs.1)
      · rw [views_give, views_joinQueue]
        simp [Pc.looping]
  | @deposit current op bytes turn =>
    have kept := ipcDeposit_kept procsMax kernel current op bytes current
    have awake := (executes current turn).1
    refine .of_view ((relinked_remove procsMax kernel current).2.1.trans turn) ?_ ?_
    · revert kept
      cases ((ipcDeposit procsMax kernel current op bytes).procs current).state <;> simp [awake]
    · rw [views_ipcDeposit]
      simp [Pc.looping]
  | @redeliver current _ _ _ turn =>
    refine .of_view ((joinQueue_turn ..).trans turn) ((joinQueue_state ..).trans ?_) ?_
    · simpa [clearBounced] using (executes current turn).1
    · rw [views_joinQueue]
      simp [Pc.looping]
  | @accept current _ _ _ turn =>
    refine .of_view turn ?_ ?_
    · simpa [setPc] using (executes current turn).1
    · rw [views_setPc]
      simp [Pc.looping]
  | leaveQueue | finish | timeOut | desert | collect | hangUp | take => exact .of_none rfl
  | destroy idle =>
    exact .of_none ((relinked_remove procsMax (ipcWakeWaitersOn procsMax _ _) _).2.1.trans idle)
  | create idle => exact .of_none idle

theorem run_deeds (run : Run.Reach (step procsMax) (Fair rules procsMax) boot kernel) :
    Executes kernel ∧
      Relation.ReflTransGen (Deed procsMax rules) boot.exchange kernel.exchange := by
  induction run with
  | start => exact ⟨.of_none rfl, .refl⟩
  | next _ _ fair stepped ih =>
    have move := step_move ih.1 stepped
    exact ⟨move.executes ih.1, ih.2.trans (move.deeds fair)⟩

end Racccoon.Ipc
