import Racccoon.Ipc.Rendezvous

/-!
What `sys_ipc_call` hands to its caller. The inbox of a process in a call is reserved
for the instance it called, and what that instance deposits before it has received the
request is never taken: it waits for the ack of its own message, and so cannot receive.
What is left is a target that has received the request and calls its caller back, whose
own request is then taken for the reply.
-/

namespace Racccoon.Ipc

/-- The request `id` of `call` has been acknowledged; the reply may come. -/
def View.confirmed (view : View) (call : Op) (id : Nat) : Prop :=
  call.kind = .call ∧
    (view.pc = .awaiting call id ∨ view.pc = .acking call id ∧ view.wait.msgAcked = true)

def View.expectsReply (view : View) : Bool :=
  match view.pc with
  | .awaiting _ _ => true
  | .acking op _ => decide (op.kind = .call) && view.wait.msgAcked
  | _ => false

variable (ex : Exchange)

def replies (_current : Nat) (op : Op) : Prop :=
  op.kind = .call → (ex.views op.dest).expectsReply = false

def replyRules : Rules where
  deposit ex current op := reachesTarget ex current op ∧ replies ex current op
  take := acksSender
  evict _ _ := True
  call _ := True
  create := generationLeft

instance : DecidableRules replyRules :=
  { (inferInstance : DecidableRules sendRules) with
    deposit := fun _ _ _ => inferInstanceAs (Decidable (_ = _ ∧ (_ → _))) }

theorem replyRules_within : replyRules.Within sendRules :=
  ⟨fun _ _ _ => And.left, fun _ _ => id, fun _ _ => id, fun _ => id, fun _ => id⟩

theorem View.confirmed_expects {view : View} {call : Op} {id : Nat}
    (confirmed : view.confirmed call id) : view.expectsReply = true ∧ view.pc.call = some call := by
  obtain ⟨kind, awaiting | ⟨acking, acked⟩⟩ := confirmed
  · simp [View.expectsReply, Pc.call, kind, awaiting]
  · simp [View.expectsReply, Pc.call, kind, acking, acked]

theorem Pc.outside_acks {pc : Pc} (outside : pc.outside = true) : pc.waitsForAck = false := by
  cases pc <;> simp_all [Pc.outside, Pc.waitsForAck]

variable {procsMax pid : Nat} {rules : Rules} {before after : Exchange}

section
variable (deed : Deed procsMax rules before after)
include deed

theorem Deed.call {call : Op} (inside : (after.views pid).pc.call = some call) :
    (before.views pid).pc.call = some call ∨ (after.views pid).inbox.hasMessage = false := by
  have none (pc : Pc) (outside : pc.outside = true) := (Pc.outside_op outside).2
  cases deed with
  | calm views | start _ _ _ _ _ _ _ _ _ _ views | redeliver _ _ _ views | fail _ _ views
  | evict _ _ _ _ views | collect _ _ _ views | take _ _ _ _ views | deposit _ _ _ _ views
  | accept _ _ _ _ views | finish _ _ _ _ views | destroy _ views | create _ _ _ _ _ _ views =>
    have view := views pid
    grind [Calm, View.facing, View.emptied, View.bounced, View.acked, View.peerDied, Pc.call]

/-- A request has been acknowledged before, or `current` has just consumed a message
that names its sender. -/
theorem Deed.confirmed {call : Op} {id : Nat} (confirmed : (after.views pid).confirmed call id) :
    (before.views pid).confirmed call id ∨
      ∃ current, (before.views current).pc.waitsForAck = false ∧
        (before.views pid).pc = .acking call id ∧ pid = (before.views current).inbox.msgFrom ∧
        (before.views pid).found procsMax pid = true ∧
        (after.views pid).inbox = (before.views pid).inbox ∧
        (before.views current).inbox.hasMessage = true ∧ rules.take before current ∧
        ((before.views current).live = true ∨ (before.views current).pc.op.isSome = true) ∧
        ∃ cap handed, .consumed (before.views current).inbox.msgId
          (before.views current).inbox.msgOp current (before.views current).generation
          before.log.length cap handed ∈ after.log := by
  by_cases old : (before.views pid).confirmed call id
  · exact .inl old
  right
  cases deed with
  | calm views | start _ _ _ _ _ _ _ _ _ _ views | redeliver _ _ _ views | fail _ _ views =>
    have view := views pid
    grind [Calm, View.confirmed, Pc.outside, View.emptied]
  | @collect current _ _ pc _ _ views =>
    refine ⟨current, by rw [pc]; rfl, ?_⟩
    have inside : (before.views current).pc.op.isSome = true := by rw [pc]; rfl
    rw [views] at confirmed
    grind [View.confirmed, View.acked]
  | @take current _ _ outside _ _ views =>
    refine ⟨current, Pc.outside_acks outside, ?_⟩
    rw [views] at confirmed
    grind [View.confirmed, View.acked]
  | evict here outside full rule views | deposit bytes pc free rule views
  | accept pc kind bounced acked views | finish pc kind bounced acked views | destroy found views
  | create =>
    grind [View.confirmed, View.emptied, View.bounced, View.peerDied]

theorem Deed.answered {op answer : Op} {id type : Nat}
    {handed : List UInt8} (answered : .answered op id answer type handed ∈ after.log) :
    .answered op id answer type handed ∈ before.log ∨
      ∃ pid last, (before.views pid).pc = .awaiting op last ∧
        (before.views pid).inbox.hasMessage = true ∧ id = (before.views pid).inbox.msgId ∧
        answer = (before.views pid).inbox.msgOp ∧ type = (before.views pid).inbox.msgType ∧
        handed = (before.views pid).inbox.msgData.take op.cap := by
  cases deed with
  | @collect current _ last pc full _ _ log =>
    rw [log] at answered
    simp only [List.mem_cons, reduceCtorEq, false_or] at answered
    rcases answered with ⟨rfl, rfl, rfl, rfl, rfl⟩ | past
    · exact .inr ⟨current, last, pc, full, rfl, rfl, rfl, rfl⟩
    · exact .inl past
  | calm | start | deposit | fail | redeliver | accept | evict | finish | take | destroy
  | create => simp_all

theorem Deed.returned {op : Op} {last : Nat}
    (call : op.kind = .call) (success : .succeeded op last ∈ after.log) :
    .succeeded op last ∈ before.log ∨
      ∃ id answer type handed, .answered op id answer type handed ∈ after.log := by
  cases deed with
  | @collect current ended _ pc full rule views log =>
    rw [log] at success ⊢
    simp only [List.mem_cons, reduceCtorEq, false_or] at success
    rcases success with ⟨rfl, rfl⟩ | past
    · exact .inr ⟨_, _, _, _, List.mem_cons_of_mem _ List.mem_cons_self⟩
    · exact .inl past
  | @finish current ended _ pc kind bounced acked views log =>
    rw [log] at success
    simp only [List.mem_cons] at success
    rcases success with ⟨rfl, rfl⟩ | past
    · exact absurd call kind
    · exact .inl past
  | calm | start | deposit | fail | redeliver | accept | evict | take | destroy | create => simp_all

end

/-- What `call` may be handed: no request, and deposited during this very call by the
instance it was made to, after that had received the request. -/
def Answers (log : List Event) (call : Op) (id : Nat) (answer : Op) (bytes : List UInt8) : Prop :=
  answer.kind ≠ .call ∧ answer.caller = call.dest ∧
    answer.callerGeneration = call.destGeneration ∧
    .deposited id answer bytes (some call.started) ∈ log ∧
    ∃ request moment cap handed,
      .consumed request call call.dest call.destGeneration moment cap handed ∈ log ∧ moment < id

structure Calls (ex : Exchange) : Prop where
  past : ∀ id op reader generation moment cap handed,
    .consumed id op reader generation moment cap handed ∈ ex.log → moment < ex.log.length
  reserved : ∀ pid call, (ex.views pid).pc.call = some call →
    (ex.views pid).inbox.hasMessage = true → (ex.views pid).inbox.msgFrom = call.dest ∧
      (ex.views pid).inbox.msgFromGeneration = call.destGeneration
  received : ∀ pid call id, (ex.views pid).confirmed call id →
    ∃ moment cap handed, .consumed id call call.dest call.destGeneration moment cap handed ∈ ex.log
  answers : ∀ pid call id, (ex.views pid).confirmed call id →
    (ex.views pid).inbox.hasMessage = true → ∃ bytes, bytes <+: (ex.views pid).inbox.msgData ∧
      Answers ex.log call (ex.views pid).inbox.msgId (ex.views pid).inbox.msgOp bytes
  answered : ∀ op id answer type handed, .answered op id answer type handed ∈ ex.log →
    type = answer.type ∧
      ∃ bytes, Handed bytes op.cap handed ∧ Answers ex.log op id answer bytes
  returned : ∀ op last, op.kind = .call → .succeeded op last ∈ ex.log →
    ∃ id answer type handed, .answered op id answer type handed ∈ ex.log

theorem Answers.kept (deed : Deed procsMax rules before after) {call answer : Op} {id : Nat}
    {bytes : List UInt8} (answers : Answers before.log call id answer bytes) :
    Answers after.log call id answer bytes := by
  obtain ⟨kind, caller, generation, deposited, request, moment, cap, handed, consumed, earlier⟩ := answers
  exact ⟨kind, caller, generation, deed.grows deposited, request, moment, cap, handed,
    deed.grows consumed, earlier⟩

/-- The reservation keeps out everything but the target. -/
theorem Deed.delivered_by (seats : Seats procsMax before) {current : Nat} {op call : Op}
    {bytes : List UInt8} (delivers : Delivers rules before after current op bytes)
    (inside : (before.views op.dest).pc.call = some call) :
    current = call.dest ∧ (before.views current).generation = call.destGeneration := by
  have calling := Pc.op_of_call inside
  obtain ⟨waitPid, waitGeneration⟩ := (seats.seated op.dest).waits call calling.1
  have reserved := ((seats.seated op.dest).inCall ((seats.seated op.dest).alive call calling.1)).mpr
    ⟨call, inside⟩
  rw [← waitPid, ← waitGeneration]
  exact delivers.free.2 reserved

variable (calls : Calls before) (letters : Letters before) (seats : Seats procsMax before)

include calls seats in
theorem Calls.reserved_after (deed : Deed procsMax rules before after) {call : Op}
    (inside : (after.views pid).pc.call = some call)
    (full : (after.views pid).inbox.hasMessage = true) :
    (after.views pid).inbox.msgFrom = call.dest ∧
      (after.views pid).inbox.msgFromGeneration = call.destGeneration := by
  rcases deed.call inside with still | empty
  · rcases deed.inbox full with same | ⟨current, op, bytes, rfl, delivers⟩
    · rw [same] at full ⊢
      exact calls.reserved pid call still full
    · rw [delivers.inbox]
      exact Deed.delivered_by seats delivers still
  · rw [empty] at full
    cases full

include calls letters seats in
/-- When a request is acknowledged, its target has received it, and nothing from the
target is in the caller's inbox. -/
theorem Calls.received_after (deed : Deed procsMax rules before after)
    (strict : rules.Within sendRules) {call : Op} {id : Nat}
    (confirmed : (after.views pid).confirmed call id) :
    (before.views pid).confirmed call id ∨ (after.views pid).inbox.hasMessage = false ∧
      ∃ moment cap handed, .consumed id call call.dest call.destGeneration moment cap handed ∈ after.log := by
  rcases deed.confirmed confirmed with old |
    ⟨current, idle, acking, named, found, same, held, rule, here, cap, handed, consumed⟩
  · exact .inl old
  · have here : (before.views current).live = true := by
      rcases here with live | inOp
      · exact live
      · obtain ⟨op, inOp⟩ := Option.isSome_iff_exists.mp inOp
        exact (seats.seated current).alive op inOp
    obtain ⟨op, number, dest, generation⟩ :=
      letters.acks procsMax pid call id here held (strict.take _ _ rule) named found acking
    refine .inr ⟨?_, before.log.length, cap, handed, ?_⟩
    · by_contra full
      simp only [same, Bool.not_eq_false] at full
      -- the target would be waiting for the ack of its own message
      have asked : (before.views pid).pc.call = some call := by
        simp [acking, Pc.call, confirmed.1]
      obtain ⟨sender, instance_⟩ := calls.reserved pid call asked full
      have alive := (seats.seated pid).alive call (Pc.op_of_call asked).1
      have custody := letters.custody pid current alive full (sender.trans dest) here
        (generation.symm.trans instance_.symm)
      rw [custody.pc] at idle
      cases idle
    · rw [dest, generation, op, number]
      exact consumed

include calls letters seats in
theorem Calls.answers_after (deed : Deed procsMax rules before after)
    (strict : rules.Within replyRules) {call : Op} {id : Nat}
    (confirmed : (after.views pid).confirmed call id)
    (full : (after.views pid).inbox.hasMessage = true) :
    ∃ bytes, bytes <+: (after.views pid).inbox.msgData ∧
      Answers after.log call (after.views pid).inbox.msgId (after.views pid).inbox.msgOp bytes := by
  rcases calls.received_after letters seats deed (strict.trans replyRules_within) confirmed with
    old | ⟨empty, -⟩
  · rcases deed.inbox full with same | ⟨current, op, bytes, rfl, delivers⟩
    · rw [same] at full ⊢
      obtain ⟨bytes, starts, answers⟩ := calls.answers pid call id old full
      exact ⟨bytes, starts, answers.kept deed⟩
    · obtain ⟨expects, inside⟩ := View.confirmed_expects old
      obtain ⟨target, instance_⟩ := Deed.delivered_by seats delivers inside
      obtain ⟨caller, generation⟩ := (seats.seated current).caller op (by rw [delivers.pc]; rfl)
      obtain ⟨moment, cap, handed, consumed⟩ := calls.received op.dest call id old
      rw [delivers.inbox]
      refine ⟨bytes.take op.len, List.prefix_append .., fun kind => ?_, caller.trans target,
        generation.trans instance_, ?_, id, moment, cap, handed, deed.grows consumed,
        calls.past _ _ _ _ _ _ _ consumed⟩
      · have quiet := (strict.deposit _ _ _ delivers.rule).2 kind
        rw [expects] at quiet
        cases quiet
      · rw [delivers.log, inside]
        exact List.mem_cons_self
  · rw [empty] at full
    cases full

include calls seats in
theorem Calls.answered_after (origin : ∀ pid, (before.views pid).inbox.hasMessage = true →
      Origin before (before.views pid).inbox) (deed : Deed procsMax rules before after)
    {op answer : Op} {id type : Nat} {handed : List UInt8}
    (answered : .answered op id answer type handed ∈ after.log) : type = answer.type ∧
      ∃ bytes, Handed bytes op.cap handed ∧ Answers after.log op id answer bytes := by
  rcases deed.answered answered with past | ⟨pid, last, pc, full, rfl, rfl, rfl, rfl⟩
  · obtain ⟨same, bytes, prefixes, answers⟩ := calls.answered _ _ _ _ _ past
    exact ⟨same, bytes, prefixes, answers.kept deed⟩
  · have kind := (seats.seated pid).awaits op last pc
    obtain ⟨bytes, starts, answers⟩ := calls.answers pid op last ⟨kind, .inl pc⟩ full
    obtain ⟨-, -, -, -, -, -, -, type⟩ := origin pid full
    exact ⟨type, bytes, .of_starts starts, answers.kept deed⟩

include calls letters seats in
theorem Calls.next (deed : Deed procsMax rules before after) (strict : rules.Within replyRules) :
    Calls after where
  past _ _ _ _ _ _ _ consumed := by
    rcases deed.consumed consumed with old | ⟨-, -, -, -, ⟨rfl, earlier⟩, -⟩
    · exact Nat.lt_of_lt_of_le (calls.past _ _ _ _ _ _ _ old) deed.length_le
    · exact earlier
  reserved _ _ inside full := calls.reserved_after seats deed inside full
  received pid call id confirmed := by
    rcases calls.received_after letters seats deed (strict.trans replyRules_within) confirmed with
      old | ⟨-, now⟩
    · obtain ⟨moment, cap, handed, consumed⟩ := calls.received pid call id old
      exact ⟨moment, cap, handed, deed.grows consumed⟩
    · exact now
  answers _ _ _ confirmed full := calls.answers_after letters seats deed strict confirmed full
  answered _ _ _ _ _ answered := calls.answered_after seats letters.origin deed answered
  returned op last call success := by
    rcases deed.returned call success with past | now
    · obtain ⟨id, answer, type, handed, answered⟩ := calls.returned op last call past
      exact ⟨id, answer, type, handed, deed.grows answered⟩
    · exact now

theorem boot_calls : Calls boot.exchange := by
  constructor <;>
    simp [Kernel.exchange, Kernel.views, Process.view, boot, View.confirmed]

theorem deeds_calls (strict : rules.Within replyRules)
    (deeds : Relation.ReflTransGen (Deed procsMax rules) boot.exchange after) : Calls after := by
  have all : (Seats procsMax after ∧ Letters after) ∧ Calls after := by
    induction deeds with
    | refl => exact ⟨⟨boot_seats, boot_letters⟩, boot_calls⟩
    | tail _ deed ih =>
      obtain ⟨⟨seats, letters⟩, calls⟩ := ih
      exact ⟨⟨deed.seats seats, letters.next deed seats (strict.trans replyRules_within)⟩,
        calls.next letters seats deed strict⟩
  exact all.2

/-- A call that returns success has been handed a message, and every message a call is
handed was deposited during it by the instance it was made to, after that had received
the request. -/
theorem call_answered {kernel : Kernel} {op : Op} {last : Nat}
    (run : Run.Reach (step procsMax) (Fair replyRules procsMax) boot kernel)
    (kind : op.kind = .call) (returned : .succeeded op last ∈ kernel.log) :
    (∃ id answer type handed, .answered op id answer type handed ∈ kernel.log) ∧
      ∀ id answer type handed, .answered op id answer type handed ∈ kernel.log →
        type = answer.type ∧
          ∃ bytes, Handed bytes op.cap handed ∧
            Answers kernel.log op id answer bytes := by
  have calls := deeds_calls (.refl replyRules) (run_deeds run).2
  exact ⟨calls.returned op last kind returned, fun id answer type handed =>
    calls.answered op id answer type handed⟩

/-- Process 2 calls process 3, which receives the request and replies. -/
def roundTrip : Kernel :=
  Run.outcome (step 64) (Fair replyRules 64) boot [.create, .create, .create,
    .call 2 3 1 1 8 true 0, .run [5], .run [], .recv 3 8 true, .run [], .schedule 2, .run [],
    .run [], .reply 3 2 7 2 1 true, .run [8, 9], .run [], .schedule 2, .run []]

def request : Op := ⟨3, .call, 2, 1, 3, 1, 1, 1, 8, 0, 1⟩

theorem call_answered_roundTrip : request.kind = .call ∧ .succeeded request 4 ∈ roundTrip.log ∧
    (∃ id answer type handed, .answered request id answer type handed ∈ roundTrip.log) ∧
      ∀ id answer type handed, .answered request id answer type handed ∈ roundTrip.log →
        type = answer.type ∧
          ∃ bytes, Handed bytes request.cap handed ∧
            Answers roundTrip.log request id answer bytes :=
  have returned : .succeeded request 4 ∈ roundTrip.log := by decide
  ⟨rfl, returned, call_answered (Run.outcome_reach _ _ (by decide)) rfl returned⟩

/-- Process 2 calls process 3, which receives the request and calls process 2 back. -/
def calledBack : Kernel :=
  Run.outcome (step 64) (fun _ _ => True) boot [.create, .create, .create,
    .call 2 3 1 1 8 true 0, .run [5], .run [], .recv 3 8 true, .run [], .schedule 2, .run [],
    .run [], .call 3 2 7 2 8 true 0, .run [8, 9], .run [], .schedule 2, .run []]

def counterRequest : Op := ⟨6, .call, 3, 1, 2, 1, 7, 2, 8, 0, 1⟩

theorem call_answered_by_call : Run.Reach (step 64) (fun _ _ => True) boot calledBack ∧
    request.kind = .call ∧ .succeeded request 4 ∈ calledBack.log ∧
    .answered request 7 counterRequest 7 [8, 9] ∈ calledBack.log ∧ counterRequest.kind = .call :=
  ⟨Run.outcome_reach _ _ (by decide), rfl, by decide, by decide, rfl⟩

end Racccoon.Ipc
