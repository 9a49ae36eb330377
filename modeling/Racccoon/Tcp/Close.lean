import Racccoon.Tcp.Sender

/-!
What an orderly close says about the peer. A FIN that is acknowledged has everything in
front of it acknowledged; but after a timeout `snd_nxt` is rolled back and may stand, with
all it covers acknowledged, in the middle of the data.
-/

namespace Racccoon.Tcp

open Run

def TcbState.talking : TcbState → Bool
  | .closed | .listen | .synSent | .synRcvd => false
  | _ => true

/-- A step out of the states that wait for the acknowledgement of our FIN. A block that died
did not close in order. -/
def orderlyEnd (before after : Tcb) : Prop :=
  (before.state = .finWait1 ∧ (after.state = .finWait2 ∨ after.state = .timeWait)) ∨
    (before.state = .closing ∧ after.state = .timeWait) ∨
    (before.state = .lastAck ∧ after.state = .closed ∧ after.reset = false)

/-- The peer's FIN comes in FIN_WAIT1 after a timeout rolled our own back, when all that was
sent since is acknowledged. -/
def earlyFin (t : Tcb) (seg : Segment) : Prop :=
  t.state = .finWait1 ∧ t.finSent = false ∧ reachesAck t seg ∧
    (if ackValid t seg.ack then seg.ack else t.sndUna) = t.sndNxt ∧
    finLeft t seg = true ∧ seg.stop = (takePayload t seg).rcvNxt ∧
    ¬ (t.conv = false ∧ 0 < seg.dlen)

instance (t : Tcb) (seg : Segment) : Decidable (earlyFin t seg) :=
  inferInstanceAs (Decidable (_ ∧ _))

def waitsForFin (t : Tcb) : Event → Prop
  | .segment seg => ¬ earlyFin t seg
  | _ => True

instance (t : Tcb) : (event : Event) → Decidable (waitsForFin t event)
  | .segment seg => inferInstanceAs (Decidable (¬ earlyFin t seg))
  | .write _ | .read _ | .shutdown | .hangup | .timers => .isTrue trivial

/-- The condition on a step. -/
def Patient (c : Connection) (action : Action) : Prop := waitsForFin c.tcb action.event

instance (c : Connection) (action : Action) : Decidable (Patient c action) :=
  inferInstanceAs (Decidable (waitsForFin _ _))

/-- How many bytes were accepted and how far the peer acknowledged, against what is still
in the buffer. -/
structure Ledger (accepted acked : Nat) (t : Tcb) : Prop where
  opening : t.state.opening = true → t.sbuf.length = accepted ∧ acked = 0
  owed : t.state.talking = true →
    accepted + 1 + (if finAcked t then 1 else 0) ≤ acked + t.sbuf.length

variable {hz now accepted acked : Nat} {t : Tcb} {seg : Segment}
variable {state : TcbState}

theorem talking_not_opening (talking : state.talking = true) : state.opening = false := by
  cases state <;> simp_all [TcbState.talking, TcbState.opening]

theorem sends_talking (sends : state.sends = true) : state.talking = true := by
  cases state <;> simp_all [TcbState.sends, TcbState.talking]

theorem Ledger.weak (ledger : Ledger accepted acked t) (talking : t.state.talking = true) :
    accepted + 1 ≤ acked + t.sbuf.length := by
  have owed := ledger.owed talking
  omega

variable {after before : Tcb}

/-- A change that keeps the buffer, in a state where no FIN is acknowledged. -/
theorem Ledger.moved (ledger : Ledger accepted acked t) (sbuf : after.sbuf = t.sbuf)
    (opening : after.state.opening = true → t.state.opening = true)
    (talking : after.state.talking = true → t.state.talking = true)
    (fin : finAcked after = true → finAcked t = true) : Ledger accepted acked after where
  opening := by
    intro early
    rw [sbuf]
    exact ledger.opening (opening early)
  owed := by
    intro talks
    have owed := ledger.owed (talking talks)
    rw [sbuf]
    by_cases acks : finAcked after = true
    · rw [if_pos acks]
      rw [if_pos (fin acks)] at owed
      exact owed
    · rw [if_neg acks]
      omega

theorem finAcked_iff : finAcked t = true ↔ t.finSent = true ∧ t.flight = 0 := by
  rw [flight_eq_zero]
  simp [finAcked]

theorem tcpOutput_ledger (now : Nat) (flow : Flow t) (ledger : Ledger accepted acked t) :
    Ledger accepted acked (tcpOutput now t) := by
  have kept : Flow (tcpOutput now t) ∧ Ledger accepted acked (tcpOutput now t) := by
    refine tcpOutput_invariant (fun s => Flow s ∧ Ledger accepted acked s)
      ⟨flow, ledger⟩ ?_ ?_
    · rintro before ⟨held, counted⟩ sends more
      refine ⟨sendData_flow held sends more, counted.moved rfl id id ?_⟩
      intro fin
      have unsent := (held.nextSize more).1
      have sent := (finAcked_iff.mp fin).1
      change before.finSent = true at sent
      rw [unsent] at sent
      cases sent
    · rintro before ⟨held, counted⟩ sends due
      refine ⟨sendFin_flow held sends due, counted.moved rfl ?_ (fun _ => sends_talking sends) ?_⟩
      · intro early
        rw [unclosed_not_opening (sendFin_unclosed sends)] at early
        cases early
      · intro fin
        have flying := (finAcked_iff.mp fin).2
        rw [sendFin_flight held due] at flying
        omega
  exact kept.2

theorem tcpOutput_state (closed : t.state.unclosed = false) :
    (tcpOutput now t).state = t.state := by
  refine tcpOutput_invariant (fun after => after.state = t.state) rfl
    (fun _ held _ _ => held) ?_
  intro before held _ _
  rw [sendFin_state]
  cases state : t.state <;> simp_all [TcbState.unclosed, TcbState.finSent]

theorem bytesAcked_le (notOpening : t.state.opening = false) (ack : Seq) :
    t.bytesAcked ack ≤ (ack - t.sndUna).toNat -
      (if t.finSent = true ∧ ack = t.sndNxt then 1 else 0) := by
  have established : ¬ (t.state = .synSent ∨ t.state = .synRcvd) := by
    rintro (state | state) <;> simp [state, TcbState.opening] at notOpening
  simp only [Tcb.bytesAcked]
  split <;> omega

theorem acks_ledger (hz now : Nat) (ledger : Ledger accepted acked t) (talking : t.state.talking = true)
    {ack : Seq} (new : ack ≠ t.sndUna) :
    Ledger accepted (acked + (ack - t.sndUna).toNat) (tcpAcked hz now t ack) := by
  obtain ⟨_, _, _, _, _, same, _⟩ := tcpAcked_eq hz now t new
  have owed := ledger.weak talking
  have covered := bytesAcked_le (talking_not_opening talking) ack
  have moves : 0 < (ack - t.sndUna).toNat := by bv_omega
  rw [same]
  constructor
  · intro early
    have opening : t.state.opening = true := early
    rw [talking_not_opening talking] at opening
    cases opening
  · intro _
    have fin : finAcked { t with
        sbuf := t.sbuf.drop (t.bytesAcked ack), sndUna := ack } = true ↔
        t.finSent = true ∧ ack = t.sndNxt := by
      simp [finAcked]
    simp only [List.length_drop]
    by_cases all : t.finSent = true ∧ ack = t.sndNxt
    · rw [if_pos all] at covered
      have one : (if finAcked { t with
        sbuf := t.sbuf.drop (t.bytesAcked ack), sndUna := ack } = true then 1 else 0) = 1 :=
        if_pos (fin.mpr all)
      change accepted + 1 + (if finAcked { t with
        sbuf := t.sbuf.drop (t.bytesAcked ack), sndUna := ack } = true then 1 else 0) ≤ _
      omega
    · have none : (if finAcked { t with
        sbuf := t.sbuf.drop (t.bytesAcked ack), sndUna := ack } = true then 1 else 0) = 0 :=
        if_neg fun acks => all (fin.mp acks)
      change accepted + 1 + (if finAcked { t with
        sbuf := t.sbuf.drop (t.bytesAcked ack), sndUna := ack } = true then 1 else 0) ≤ _
      omega

/-- The acknowledgement of our SYN. -/
theorem established_ledger (hz now : Nat) (flow : Flow t) (ledger : Ledger accepted acked t)
    (opening : t.state.opening = true) {ack : Seq} (all : ack = t.sndNxt) :
    Ledger accepted (acked + (ack - t.sndUna).toNat)
      { tcpAcked hz now t ack with state := .established } := by
  obtain ⟨una, nxt⟩ := flow.opening opening
  obtain ⟨length, none⟩ := ledger.opening opening
  have new : ack ≠ t.sndUna := by
    bv_omega
  have one : (ack - t.sndUna).toNat = 1 := by
    rw [all]
    exact flight_opening una nxt
  have noBytes := bytesAcked_opening flow opening
  rw [← all] at noBytes
  have noFin : t.finSent = false :=
    flow.unclosed (by cases state : t.state <;> simp_all [TcbState.opening, TcbState.unclosed])
  obtain ⟨_, _, _, _, _, same, _⟩ := tcpAcked_eq hz now t new
  rw [same, noBytes]
  refine ⟨fun early => (by cases early), fun _ => ?_⟩
  have unsent : finAcked { t with sndUna := ack } = false := by simp [finAcked, noFin]
  change accepted + 1 + (if finAcked { t with sndUna := ack } = true then 1 else 0) ≤ _
  rw [unsent, if_neg Bool.false_ne_true]
  simp only [List.drop_zero]
  omega

theorem takeAck_ledger (flow : Flow t) (ledger : Ledger accepted acked t)
    (past : t.state = .synRcvd ∨ t.state.talking = true) {taken : Tcb}
    (took : takeAck hz now t seg = some taken) :
    Ledger accepted (acked + (taken.sndUna - t.sndUna).toNat) taken ∧
      taken.state.talking = true := by
  rcases takeAck_cases took with ⟨early, valid, rfl⟩ | ⟨late, valid, rfl⟩ | ⟨late, _, rfl⟩
  · have opening : t.state.opening = true := by rw [early]; rfl
    have kept := established_ledger hz now flow ledger opening
      (ackValid_opening flow opening valid)
    refine ⟨?_, rfl⟩
    rw [tcpAcked_sndUna]
    exact kept.moved rfl id id id
  · have talking := past.resolve_left late
    have new := ackValid_new valid
    have kept := acks_ledger hz now ledger talking new
    obtain ⟨_, _, _, _, _, same, _⟩ := tcpAcked_eq hz now t new
    refine ⟨?_, ?_⟩
    · rw [tcpAcked_sndUna]
      exact kept.moved rfl id id id
    · rw [same]
      exact talking
  · refine ⟨?_, past.resolve_left late⟩
    have kept : Ledger accepted acked { t with sndWnd := seg.wnd } := ledger.moved rfl id id id
    simpa using kept

theorem afterFin_ledger (hz now : Nat) (ledger : Ledger accepted acked t) (talking : t.state.talking = true) :
    Ledger accepted acked (afterFin hz now t) ∧ (afterFin hz now t).state.talking = true ∧
      (afterFin hz now t).sndUna = t.sndUna := by
  unfold afterFin
  repeat' split
  all_goals first
    | exact ⟨ledger.moved rfl (fun early => (by cases early)) (fun _ => talking) id, rfl, rfl⟩
    | exact ⟨ledger, talking, rfl⟩

theorem taken_talking (hz now : Nat) (seg : Segment) (talking : t.state.talking = true) :
    (taken hz now t seg).state.talking = true := by
  have same : (takePayload t seg).state = t.state := takePayload_state
  unfold taken takeFin
  repeat' split
  all_goals first
    | exact same ▸ talking
    | rfl

theorem taken_ledger (ledger : Ledger accepted acked t) (talking : t.state.talking = true) :
    Ledger accepted acked (taken hz now t seg) := by
  obtain ⟨sbuf, una, nxt, fin⟩ := taken_sender hz now t seg
  have late := talking_not_opening (taken_talking hz now seg talking)
  refine ledger.moved sbuf ?_ (fun _ => talking) ?_
  · intro early
    rw [late] at early
    cases early
  · intro acks
    simpa [finAcked, una, nxt, fin] using acks

theorem Ledger.died (t : Tcb) : Ledger accepted acked (tcpDied t) :=
  ⟨fun early => (by cases early), fun talks => (by cases talks)⟩

theorem Ledger.closed (closed : t.state = .closed) : Ledger accepted acked t := by
  constructor
  · intro early
    rw [closed] at early
    cases early
  · intro talks
    rw [closed] at talks
    cases talks

theorem inputData_ledger (flow : Flow t) (ledger : Ledger accepted acked t)
    (talking : t.state.talking = true) : Ledger accepted acked (inputData hz now t seg) := by
  have flows : Flow (taken hz now t seg) := taken_flow flow (talking_not_opening talking)
  have kept : Ledger accepted acked (taken hz now t seg) := taken_ledger ledger talking
  rcases inputData_cases hz now t seg with
    ⟨died, _⟩ | ⟨_, sent, which, output⟩
  · rw [died]
    exact .died _
  · rw [output]
    rcases which with rfl | rfl
    · exact tcpOutput_ledger now flows kept
    · exact tcpOutput_ledger now (flows.send _ _ _) (kept.moved rfl id id id)

theorem Input.ledger (outcome : Input hz now t seg after) (flow : Flow t)
    (ledger : Ledger accepted acked t) (past : t.state = .synRcvd ∨ t.state.talking = true) :
    Ledger accepted (acked + (after.sndUna - t.sndUna).toNat) after := by
  cases outcome with
  | dropped => simpa using ledger
  | answered =>
    have same : (t.sndUna - t.sndUna).toNat = 0 := by simp
    change Ledger accepted (acked + (t.sndUna - t.sndUna).toNat) _
    rw [same]
    exact ledger.moved rfl id id id
  | reset => exact .died _
  | finished => exact .closed (tcbFinish_state _)
  | data _ _ took =>
    have past' : synchronized t := past.imp_right talking_not_opening
    obtain ⟨flows, notOpening⟩ := takeAck_flow flow past' took
    obtain ⟨kept, talking⟩ := takeAck_ledger flow ledger past took
    obtain ⟨kept', talking', una⟩ := afterFin_ledger hz now kept talking
    rw [inputData_sndUna, una]
    exact inputData_ledger (afterFin_flow hz now flows notOpening).1 kept' talking'

theorem Opening.ledger (outcome : Opening hz now t seg after) (flow : Flow t)
    (ledger : Ledger accepted acked t) (opening : t.state.opening = true) :
    Ledger accepted (acked + (after.sndUna - t.sndUna).toNat) after := by
  cases outcome with
  | dropped => simpa using ledger
  | refused => exact .died _
  | opened _ _ fits =>
    have all := opened_ack flow opening fits
    have begun : Flow (offered t seg) := offered_flow flow
    have told : Ledger accepted acked (offered t seg) := ledger.moved rfl id id id
    have kept := established_ledger hz now begun told opening all
    have una : (tcpAcked hz now (offered t seg) seg.ack).sndUna = seg.ack := tcpAcked_sndUna _
    rw [tcpOutput_sndUna]
    change Ledger accepted
      (acked + ((tcpAcked hz now (offered t seg) seg.ack).sndUna - t.sndUna).toNat) _
    rw [una]
    exact tcpOutput_ledger now ((established_flow begun opening all).send _ _ _)
      (kept.moved rfl id id id)
  | crossed =>
    have same : (t.sndUna - t.sndUna).toNat = 0 := by simp
    change Ledger accepted (acked + (t.sndUna - t.sndUna).toNat) _
    rw [same]
    exact ledger.moved rfl (fun _ => opening) (fun talks => (by cases talks)) id

theorem tcpInput_ledger (flow : Flow t) (ledger : Ledger accepted acked t) :
    Ledger accepted (acked + ((tcpInput hz now t seg).sndUna - t.sndUna).toNat)
      (tcpInput hz now t seg) := by
  unfold tcpInput
  cases state : t.state with
  | closed => simpa using ledger
  | listen => simpa using ledger
  | synSent => exact (inputSynSent_cases t seg).ledger flow ledger (by rw [state]; rfl)
  | synRcvd => exact (inputSynchronized_cases t seg).ledger flow ledger (.inl state)
  | _ => exact (inputSynchronized_cases t seg).ledger flow ledger (.inr (by rw [state]; rfl))

theorem goBack_ledger (flow : Flow t) (ledger : Ledger accepted acked t)
    (talking : t.state.talking = true) : Ledger accepted acked (goBack now t) := by
  have back : Ledger accepted acked (rolledBack t) :=
    ledger.moved rfl id id fun acks => (by simp [finAcked, rolledBack] at acks)
  have kept := tcpOutput_ledger now
    (rolledBack_flow flow (talking_not_opening talking)) back
  exact kept.moved rfl id id id

theorem Expired.ledger (outcome : Expired hz now t after) (flow : Flow t)
    (ledger : Ledger accepted acked t) (started : t.state ≠ .closed) :
    Ledger accepted acked after := by
  cases outcome with
  | waiting => exact ledger
  | gaveUp => exact .died _
  | retried _ tried same =>
    have flows : Flow tried := by
      rw [same]
      exact flow.timed _ _ _
    have told : Ledger accepted acked tried := by
      rw [same]
      exact ledger.moved rfl id id id
    have kept : Ledger accepted acked (retransmit now tried) := by
      unfold retransmit
      cases state : tried.state with
      | synSent => exact told.moved rfl id id id
      | synRcvd => exact told.moved rfl id id id
      | closed =>
        rw [same] at state
        exact absurd state started
      | listen =>
        refine (tcpOutput_ledger now (rolledBack_flow flows (by rw [state]; rfl)) ?_).moved
          rfl id id id
        exact told.moved rfl id id fun acks => (by simp [finAcked, rolledBack] at acks)
      | _ => exact goBack_ledger flows told (by rw [state]; rfl)
    exact kept.moved rfl id id id

theorem tcpTimers_ledger (flow : Flow t) (ledger : Ledger accepted acked t) :
    Ledger accepted acked (tcpTimers hz now t) := by
  rcases tcpTimers_cases hz now t with
    ⟨_, done | same⟩ | ⟨_, same | ⟨freed, _⟩⟩ | ⟨_, started, expired⟩
  · rw [done]
    exact .closed (tcbFinish_state t)
  · rw [same]
    exact ledger
  · rw [same]
    exact ledger
  · rw [freed]
    exact ledger.moved rfl id id id
  · exact expired.ledger flow ledger started

theorem Ledger.write (ledger : Ledger accepted acked t) (noFin : t.finSent = false)
    (data : List Byte) :
    Ledger (accepted + data.length) acked { t with sbuf := t.sbuf ++ data } where
  opening := by
    intro early
    obtain ⟨full, none⟩ := ledger.opening early
    simp only [List.length_append]
    omega
  owed := by
    intro talks
    have owed := ledger.weak talks
    have unsent : ¬ finAcked { t with sbuf := t.sbuf ++ data } = true := by
      simp [finAcked, noFin]
    rw [if_neg unsent]
    simp only [List.length_append]
    omega

theorem tcpWrite_ledger (flow : Flow t) (ledger : Ledger accepted acked t) (data : List Byte) :
    Ledger (accepted + (data.take (tcpWrite now t data).1.toNat).length) acked
      (tcpWrite now t data).2 := by
  rcases tcpWrite_cases now t data with ⟨same, count⟩ | ⟨writes, _, count, output⟩
  · rw [same, count]
    simpa using ledger
  · rw [output, count]
    exact tcpOutput_ledger now (buffered_flow flow writes data)
      (ledger.write (flow.unclosed (writes_unclosed writes)) _)

theorem tcpRead_ledger (ledger : Ledger accepted acked t) (max : Nat) :
    Ledger accepted acked (tcpRead t max).2.2 := by
  have outcome := tcpRead_cases t max
  generalize tcpRead t max = result at outcome
  cases outcome with
  | gone => exact ledger
  | empty => exact ledger
  | freed => exact ledger.moved rfl id id id
  | bytes _ _ _ which =>
    rcases which with rfl | rfl
    · exact ledger.moved rfl id id id
    · exact ledger.moved rfl id id id

section
variable (flow : Flow t) (ledger : Ledger accepted acked t)
include flow ledger

theorem closing_ledger (conv : Bool) :
    Ledger accepted acked (tcpOutput now { t with conv := conv, wantFin := true }) :=
  tcpOutput_ledger now (flow.closing conv true) (ledger.moved rfl id id id)

theorem hangup_ledger : Ledger accepted acked (hangup now t) := by
  rcases hangup_cases now t with alone | stopped | closes
  · rw [alone]
    exact ledger.moved rfl id id id
  · rw [stopped]
    exact .closed rfl
  · rw [closes]
    exact closing_ledger flow ledger false

theorem tcpShutdown_ledger : Ledger accepted acked (tcpShutdown now t) := by
  unfold tcpShutdown
  split
  · exact closing_ledger flow ledger t.conv
  · exact ledger

end

def Connection.Counted (c : Connection) : Prop :=
  Flow c.tcb ∧ Ledger c.accepted.length c.acked c.tcb

theorem Born.counted {c : Connection} (born : Born hz c) : c.Counted := by
  refine ⟨born.flow, ?_⟩
  cases born with
  | connect => exact ⟨fun _ => ⟨rfl, rfl⟩, fun talks => (by cases talks)⟩
  | listen => exact ⟨fun early => (by cases early), fun talks => (by cases talks)⟩
  | accept => exact ⟨fun _ => ⟨rfl, rfl⟩, fun talks => (by cases talks)⟩

theorem step_counted {c after : Connection} {action : Action} (counted : c.Counted)
    (stepped : step hz c action = some after) : after.Counted := by
  obtain ⟨flow, ledger⟩ := counted
  refine ⟨step_flow flow stepped, ?_⟩
  obtain ⟨now, event⟩ := action
  cases step_cases stepped with
  | write data =>
    rw [List.length_append]
    exact tcpWrite_ledger flow ledger data
  | read max =>
    exact tcpRead_ledger ledger max
  | shutdown =>
    exact tcpShutdown_ledger flow ledger
  | hangup =>
    exact hangup_ledger flow ledger
  | segment =>
    exact tcpInput_ledger flow ledger
  | timers =>
    exact tcpTimers_ledger flow ledger

theorem Ledger.settled (ledger : Ledger accepted acked t) (flow : Flow t)
    (talking : t.state.talking = true) (fin : finAcked t = true) : accepted + 2 ≤ acked := by
  have owed := ledger.owed talking
  obtain ⟨sent, idle⟩ := finAcked_iff.mp fin
  have empty : t.sbuf.length = 0 := by
    rcases flow.finFlight sent with full | none
    · omega
    · simp [none]
  rw [if_pos fin] at owed
  omega

def TcbState.waits : TcbState → Bool
  | .finWait1 | .closing | .lastAck => true
  | _ => false

theorem orderlyEnd_waits (ended : orderlyEnd before after) : before.state.waits = true := by
  rcases ended with ⟨state, _⟩ | ⟨state, _⟩ | ⟨state, _⟩ <;> rw [state] <;> rfl

theorem waits_talking (waits : state.waits = true) : state.talking = true := by
  cases state <;> simp_all [TcbState.waits, TcbState.talking]

theorem waits_unclosed (waits : state.waits = true) : state.unclosed = false := by
  cases state <;> simp_all [TcbState.waits, TcbState.unclosed]

theorem orderlyEnd_moves (ended : orderlyEnd before after) :
    after.state ≠ before.state ∧ ¬ (after.state = .closed ∧ after.reset = true) := by
  rcases ended with ⟨state, moved | moved⟩ | ⟨state, moved⟩ | ⟨state, moved, alive⟩ <;>
    simp [*]

theorem takeFin_ends (ended : orderlyEnd t (takeFin hz now t)) :
    t.state = .finWait1 ∧ t.sndUna = t.sndNxt := by
  unfold takeFin at ended
  rcases ended with ⟨state, moved⟩ | ⟨state, moved⟩ | ⟨state, moved, _⟩
  · refine ⟨state, ?_⟩
    by_contra below
    simp [state, below] at moved
  · simp [state] at moved
  · simp [state] at moved

theorem takeAck_late (late : t.state ≠ .synRcvd) {acks : Tcb}
    (took : takeAck hz now t seg = some acks) :
    acks.state = t.state ∧ acks.finSent = t.finSent ∧ acks.sndNxt = t.sndNxt ∧
      acks.sndUna = if ackValid t seg.ack then seg.ack else t.sndUna := by
  rcases takeAck_cases took with ⟨early, _, _⟩ | ⟨_, valid, rfl⟩ | ⟨_, invalid, rfl⟩
  · exact absurd early late
  · obtain ⟨_, _, _, _, _, same, _⟩ :=
      tcpAcked_eq hz now t (ackValid_new valid)
    rw [same, if_pos valid]
    exact ⟨rfl, rfl, rfl, rfl⟩
  · rw [if_neg (by simp [invalid])]
    exact ⟨rfl, rfl, rfl, rfl⟩

theorem orderlyEnd_congr {before' after' : Tcb} (left : before.state = before'.state)
    (entered : after.state = after'.state) (alive : after.reset = after'.reset)
    (ended : orderlyEnd before after) : orderlyEnd before' after' := by
  unfold orderlyEnd at *
  rw [← left, ← entered, ← alive]
  exact ended

theorem takeFin_unclosed (waits : t.state.waits = true) :
    (takeFin hz now t).state.unclosed = false := by
  unfold takeFin
  cases state : t.state with
  | finWait1 =>
    by_cases all : t.sndUna = t.sndNxt
    · simp [all, TcbState.unclosed]
    · simp [all, TcbState.unclosed]
  | _ => simp_all [TcbState.waits, TcbState.unclosed]

theorem taken_unclosed (hz now : Nat) (seg : Segment) (waits : t.state.waits = true) :
    (taken hz now t seg).state.unclosed = false := by
  have same : (takePayload t seg).state = t.state := takePayload_state
  unfold taken
  split
  · exact takeFin_unclosed (by rw [same]; exact waits)
  · rw [same]
    exact waits_unclosed waits

theorem tcpOutput_ends (closed : t.state.unclosed = false)
    (ended : orderlyEnd before (tcpOutput now t)) : orderlyEnd before t :=
  orderlyEnd_congr rfl (tcpOutput_state closed)
    (congrArg Receiver.reset (tcpOutput_receiver t)) ended

/-- With our FIN not acknowledged only an early FIN ends anything. -/
theorem inputData_ends (waits : t.state.waits = true) {acks : Tcb} (reaches : reachesAck t seg)
    (took : takeAck hz now t seg = some acks) (unacked : finAcked acks = false)
    (ended : orderlyEnd t (inputData hz now acks seg)) : earlyFin t seg := by
  have late : t.state ≠ .synRcvd := by
    intro early
    rw [early] at waits
    cases waits
  obtain ⟨state, fin, nxt, una⟩ := takeAck_late late took
  have receiver := takeAck_receiver took
  obtain ⟨sameLeft, samePayload⟩ := payload_congr receiver state seg
  have conv : (taken hz now acks seg).conv = t.conv :=
    taken_conv.trans (congrArg Receiver.conv receiver)
  rcases inputData_cases hz now acks seg with
    ⟨died, _⟩ | ⟨alive, sent, which, output⟩
  · rw [died] at ended
    exact absurd ⟨rfl, rfl⟩ (orderlyEnd_moves ended).2
  · rw [output] at ended
    have closed := taken_unclosed hz now seg
      (show acks.state.waits = true by rw [state]; exact waits)
    have ended' : orderlyEnd t (taken hz now acks seg) := by
      rcases which with rfl | rfl
      · exact tcpOutput_ends closed ended
      · exact tcpOutput_ends (t := tcpSend _ _ _ _) closed ended
    have payload : (takePayload acks seg).state = t.state := takePayload_state.trans state
    by_cases fins : finLeft acks seg = true ∧ seg.stop = (takePayload acks seg).rcvNxt
    · have same : taken hz now acks seg = takeFin hz now (takePayload acks seg) := by
        unfold taken
        rw [if_pos (by simp [fins])]
      rw [same] at ended'
      obtain ⟨waiting, all⟩ :=
        takeFin_ends (orderlyEnd_congr payload.symm rfl rfl ended')
      have una' : (takePayload acks seg).sndUna = acks.sndUna := by
        unfold takePayload
        split <;> rfl
      have nxt' : (takePayload acks seg).sndNxt = acks.sndNxt := by
        unfold takePayload
        split <;> rfl
      rw [una', nxt'] at all
      have unsent : t.finSent = false := by
        simpa [finAcked, all, fin] using unacked
      refine ⟨payload.symm.trans waiting, unsent, reaches, ?_, ?_, ?_, ?_⟩
      · rw [← una, all, nxt]
      · rw [← sameLeft]
        exact fins.1
      · rw [← samePayload]
        exact fins.2
      · rw [← conv]
        exact alive
    · have same : taken hz now acks seg = takePayload acks seg := by
        unfold taken
        rw [if_neg (by simpa using fins)]
      rw [same] at ended'
      exact absurd payload (orderlyEnd_moves ended').1

theorem Input.settles (outcome : Input hz now t seg after) (flow : Flow t)
    (ledger : Ledger accepted acked t) (waits : t.state.waits = true) (patient : ¬ earlyFin t seg)
    (ended : orderlyEnd t after) : accepted + 2 ≤ acked + (after.sndUna - t.sndUna).toNat := by
  have talking := waits_talking waits
  cases outcome with
  | dropped => exact absurd rfl (orderlyEnd_moves ended).1
  | answered => exact absurd rfl (orderlyEnd_moves ended).1
  | reset => exact absurd ⟨rfl, rfl⟩ (orderlyEnd_moves ended).2
  | finished _ _ took fin =>
    obtain ⟨flows, _⟩ := takeAck_flow flow (.inr (talking_not_opening talking)) took
    obtain ⟨kept, talks⟩ := takeAck_ledger flow ledger (.inr talking) took
    rw [tcbFinish_sndUna]
    exact kept.settled flows talks fin
  | data acks reaches took =>
    obtain ⟨flows, _⟩ := takeAck_flow flow (.inr (talking_not_opening talking)) took
    obtain ⟨kept, talks⟩ := takeAck_ledger flow ledger (.inr talking) took
    rw [inputData_sndUna, (afterFin_ledger hz now kept talks).2.2]
    by_cases fin : finAcked acks = true
    · exact kept.settled flows talks fin
    · have same : afterFin hz now acks = acks := by
        unfold afterFin
        rw [if_neg fin]
      rw [same] at ended
      exact absurd (inputData_ends waits reaches took (by simpa using fin) ended) patient

theorem Expired.waits (outcome : Expired hz now t after) (waits : t.state.waits = true) :
    ¬ orderlyEnd t after := by
  intro ended
  cases outcome with
  | waiting => exact (orderlyEnd_moves ended).1 rfl
  | gaveUp => exact (orderlyEnd_moves ended).2 ⟨rfl, rfl⟩
  | retried _ tried same =>
    have state : tried.state = t.state := by rw [same]
    have closed := waits_unclosed waits
    have back : retransmit now tried = goBack now tried := by
      unfold retransmit
      cases state' : t.state <;> simp_all [TcbState.waits]
    have stays : (tcpOutput now (rolledBack tried)).state = tried.state :=
      tcpOutput_state (t := rolledBack tried) (by rw [← closed, ← state]; rfl)
    refine (orderlyEnd_moves ended).1 ?_
    rw [back]
    exact stays.trans state

theorem hangup_waits (waits : t.state.waits = true) : hangup now t = { t with conv := false } := by
  unfold hangup tcpAbort
  split
  · cases state : t.state <;> simp_all [TcbState.waits]
  · rfl

theorem waits_asked (waits : t.state.waits = true) (conv wantFin : Bool) :
    ¬ orderlyEnd t (tcpOutput now { t with conv := conv, wantFin := wantFin }) := by
  intro ended
  have ended' := tcpOutput_ends (t := { t with conv := conv, wantFin := wantFin })
    (waits_unclosed waits) ended
  exact (orderlyEnd_moves ended').1 rfl

theorem tcpTimers_waits (waits : t.state.waits = true) : ¬ orderlyEnd t (tcpTimers hz now t) := by
  rcases tcpTimers_cases hz now t with
    ⟨closed, _⟩ | ⟨closed, _⟩ | ⟨_, _, expired⟩
  · rw [closed] at waits
    cases waits
  · rw [closed] at waits
    cases waits
  · exact expired.waits waits

theorem tcpRead_state (max : Nat) : (tcpRead t max).2.2.state = t.state := by
  have outcome := tcpRead_cases t max
  generalize tcpRead t max = result at outcome
  cases outcome with
  | gone => rfl
  | empty => rfl
  | freed => rfl
  | bytes _ _ _ which => rcases which with rfl | rfl <;> rfl

/-- A step that ends a close in order is a segment, and all is acknowledged with it. -/
theorem step_settles {c after : Connection} {action : Action} (counted : c.Counted)
    (patient : Patient c action) (stepped : step hz c action = some after)
    (ended : orderlyEnd c.tcb after.tcb) : c.accepted.length + 2 ≤ after.acked := by
  obtain ⟨flow, ledger⟩ := counted
  have waits := orderlyEnd_waits ended
  obtain ⟨now, event⟩ := action
  cases step_cases stepped with
  | write data =>
    rcases tcpWrite_cases now c.tcb data with ⟨same, _⟩ | ⟨writes, _⟩
    · exact absurd (congrArg Tcb.state same) (orderlyEnd_moves ended).1
    · have unclosed := writes_unclosed writes
      rw [waits_unclosed waits] at unclosed
      cases unclosed
  | read max =>
    exact absurd (tcpRead_state max) (orderlyEnd_moves ended).1
  | shutdown =>
    unfold tcpShutdown at ended
    by_cases used : c.tcb.used = true
    · rw [if_pos used] at ended
      exact absurd ended (waits_asked waits c.tcb.conv true)
    · rw [if_neg used] at ended
      exact absurd rfl (orderlyEnd_moves ended).1
  | hangup =>
    rw [hangup_waits waits] at ended
    exact absurd rfl (orderlyEnd_moves ended).1
  | segment seg =>
    have synchronizes : tcpInput hz now c.tcb seg =
        inputSynchronized hz now c.tcb seg := by
      unfold tcpInput
      cases state : c.tcb.state <;> simp_all [TcbState.waits]
    rw [synchronizes] at ended ⊢
    exact (inputSynchronized_cases c.tcb seg).settles flow ledger waits patient ended
  | timers =>
    exact absurd ended (tcpTimers_waits waits)

/-- Where no FIN of the peer comes early, a block closes in order only after the peer
acknowledged our SYN, every byte accepted and our FIN. -/
theorem orderly_close_acked (hz : Nat) {start c after : Connection} {action : Action}
    (born : Born hz start) (run : Reach (step hz) Patient start c)
    (patient : Patient c action) (stepped : step hz c action = some after)
    (ended : orderlyEnd c.tcb after.tcb) : c.accepted.length + 2 ≤ after.acked := by
  have counted : c.Counted := by
    refine run.invariant Connection.Counted born.counted ?_
    intro before action after held _ stepped
    exact step_counted held stepped
  exact step_settles counted patient stepped ended

instance (before after : Tcb) : Decidable (orderlyEnd before after) :=
  inferInstanceAs (Decidable (_ ∨ _))

/-- Three bytes are written and the connection is shut down: data and FIN go out. -/
def shutDown : List Action :=
  [⟨2, .segment ⟨1000, 1, ⟨false, true, false, true⟩, 10, 1460, []⟩⟩,
    ⟨3, .write [7, 8, 9]⟩, ⟨4, .shutdown⟩]

def peerAcks : Action := ⟨5, .segment ⟨1001, 5, thAck, 10, 0, []⟩⟩

def finWaiting : Connection := outcome (step 10000000) Patient dialled shutDown

theorem acked_close_waits :
    finWaiting.accepted.length + 2 ≤
      ((step 10000000 finWaiting peerAcks).get (by decide)).acked :=
  orderly_close_acked 10000000 (.connect 1 (fun _ => 0) 0)
    (outcome_reach shutDown dialled (by decide)) (by decide)
    (Option.some_get (by decide)).symm (by decide)

/-- The window is shut after all is sent, so that the timer sends one byte only; with that
byte acknowledged the peer's FIN ends the connection. -/
def cutShort : List Action :=
  shutDown ++ [⟨5, .segment ⟨1001, 1, thAck, 0, 0, []⟩⟩, ⟨20000000, .timers⟩]

def peerCloses : Action := ⟨20000001, .segment ⟨1001, 2, thFinAck, 0, 0, []⟩⟩

theorem early_fin_ends_close :
    ¬ ∀ (hz : Nat) (start c after : Connection) (action : Action), Born hz start →
      Reach (step hz) (fun _ _ => True) start c → step hz c action = some after →
      orderlyEnd c.tcb after.tcb → c.accepted.length + 2 ≤ after.acked := by
  intro always
  have reached : Reach (step 10000000) (fun _ _ => True) dialled
      (outcome (step 10000000) (fun _ _ => True) dialled cutShort) :=
    outcome_reach cutShort dialled (by decide)
  have acknowledged := always 10000000 dialled _ _ peerCloses (.connect 1 (fun _ => 0) 0)
    reached (Option.some_get (by decide)).symm (by decide)
  exact absurd acknowledged (by decide)

end Racccoon.Tcp
