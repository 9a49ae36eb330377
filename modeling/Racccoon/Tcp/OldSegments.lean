import Racccoon.Tcp.Sender

/-!
Segments that arrive again, and segments with the RST bit. A block that is used was never
reset, so that it ends in `tcp_died` is seen from its `reset`.
-/

namespace Racccoon.Tcp

open Run

structure Hearing where
  connection : Connection
  heard : List Segment

def Event.arrives : Event → List Segment
  | .segment seg => [seg]
  | _ => []

def hear (hz : Nat) (hearing : Hearing) (action : Action) : Option Hearing :=
  (step hz hearing.connection action).map fun after =>
    ⟨after, hearing.heard ++ action.event.arrives⟩

/-- A connection that a listener made has heard its SYN. -/
inductive BornHearing (hz : Nat) : Hearing → Prop where
  | connect (now : Nat) (rbuf : Nat → Byte) (iss : Seq) :
      BornHearing hz ⟨⟨tcpConnect hz now rbuf iss, [], [], 0, false⟩, []⟩
  | listen (rbuf : Nat → Byte) : BornHearing hz ⟨⟨tcpListen hz rbuf, [], [], 0, false⟩, []⟩
  | accept (now : Nat) (rbuf : Nat → Byte) (iss : Seq) (seg : Segment) :
      BornHearing hz ⟨⟨inputListen hz now rbuf iss seg, [], [], 0, false⟩, [seg]⟩

/-- SYN_RCVD and later. -/
def TcbState.answering : TcbState → Bool
  | .closed | .listen | .synSent => false
  | _ => true

variable (t : Tcb)

/-- Equal to `rcv_nxt` or inside the receive window. -/
def inReceiveWindow (seq : Seq) : Prop :=
  seq = t.rcvNxt ∨ (seq - t.rcvNxt).toNat < tcpRwnd t

/-- A segment that came before does not end the connection when it comes again, and a RST
ends it only from inside the receive window. -/
structure Harmless (hz now : Nat) (hearing : Hearing) (seg : Segment) : Prop where
  again : seg ∈ hearing.heard → seg.flags.rst = false →
    (tcpInput hz now hearing.connection.tcb seg).reset = false
  rst : seg.flags.rst = true → (tcpInput hz now hearing.connection.tcb seg).reset = true →
    inReceiveWindow hearing.connection.tcb seg.seq

variable (seg : Segment)

/-- The segment's acknowledgement is looked at: the SYN of a connection not yet established
must be acknowledged by it. -/
def ackLooked : Prop :=
  seg.flags.ack = true ∧ (t.state = .synRcvd → ackValid t seg.ack = true)

def lastAcked : Prop :=
  t.state = .lastAck ∧ t.finSent = true ∧
    (if ackValid t seg.ack then seg.ack else t.sndUna) = t.sndNxt

def unwanted : Prop :=
  t.conv = false ∧ 0 < seg.dlen ∧ ackLooked t seg ∧ ¬ lastAcked t seg

def passes : Prop :=
  acceptable t seg = true ∧ ¬ (t.state = .timeWait ∧ seg.flags.fin = true)

structure Tame (hearing : Hearing) (seg : Segment) : Prop where
  again : seg ∈ hearing.heard → seg.flags.rst = false → passes hearing.connection.tcb seg →
    seg.flags.syn = false ∧ ¬ unwanted hearing.connection.tcb seg
  rst : seg.flags.rst = true → passes hearing.connection.tcb seg →
    seg.seq = hearing.connection.tcb.rcvNxt

variable {hz now : Nat} {t : Tcb} {seg : Segment}

theorem tcpOutput_reset (t : Tcb) : (tcpOutput now t).reset = t.reset :=
  congrArg Receiver.reset (tcpOutput_receiver t)

theorem taken_reset : (taken hz now t seg).reset = t.reset := by
  unfold taken takeFin takePayload
  repeat' split
  all_goals rfl

theorem inputData_reset (clean : t.reset = false) :
    (inputData hz now t seg).reset = true ↔ t.conv = false ∧ 0 < seg.dlen := by
  have same : inputData hz now t seg =
      if !(taken hz now t seg).conv && seg.dlen > 0 then
        tcpDied (tcpSend (taken hz now t seg) thRst (taken hz now t seg).sndNxt [])
      else
        tcpOutput now
          (if takesPayload t seg ||
              (finLeft t seg && seg.stop == (takePayload t seg).rcvNxt) then
            tcpSend (taken hz now t seg) thAck (taken hz now t seg).sndNxt []
          else taken hz now t seg) := rfl
  rw [same, taken_conv]
  by_cases gone : t.conv = false ∧ 0 < seg.dlen
  · rw [if_pos (by simp [gone])]
    exact ⟨fun _ => gone, fun _ => rfl⟩
  · rw [if_neg (by simpa using gone), tcpOutput_reset]
    have kept : (taken hz now t seg).reset = false := taken_reset.trans clean
    refine ⟨fun died => ?_, fun both => absurd both gone⟩
    split at died
    · change (taken hz now t seg).reset = true at died
      rw [kept] at died
      cases died
    · rw [kept] at died
      cases died

theorem takeAck_isSome (looked : seg.flags.ack = true) :
    (takeAck hz now t seg).isSome = true ↔ ackLooked t seg := by
  rw [takeAck, ackLooked]
  by_cases early : t.state = .synRcvd
  · by_cases valid : ackValid t seg.ack = true
    · simp [early, looked]
    · simp [early, valid]
  · rw [if_neg early]
    split
    · simp [early, looked]
    · simp [early, looked]

theorem lastAcked_iff {acked : Tcb} (took : takeAck hz now t seg = some acked) :
    finAcked acked = true ∧ acked.state = .lastAck ↔ lastAcked t seg := by
  rw [finAcked, Bool.and_eq_true, beq_iff_eq, lastAcked]
  rcases takeAck_cases took with ⟨early, valid, rfl⟩ | ⟨_, valid, rfl⟩ | ⟨_, old, rfl⟩
  · simp [early]
  · obtain ⟨_, _, _, _, _, same, _⟩ := tcpAcked_eq hz now t (ackValid_new valid)
    rw [same, if_pos valid]
    tauto
  · rw [old]
    tauto

theorem input_reset (clean : t.reset = false) (answering : t.state.answering = true) :
    (tcpInput hz now t seg).reset = true ↔
      passes t seg ∧ (seg.flags.rst = true ∨ seg.flags.syn = true ∨ unwanted t seg) := by
  have same : tcpInput hz now t seg = inputSynchronized hz now t seg := by
    unfold tcpInput
    cases state : t.state with
    | closed | listen | synSent =>
      rw [state] at answering
      cases answering
    | _ => rfl
  have quiet : ¬ t.reset = true := by simp [clean]
  rw [same, inputSynchronized, passes]
  by_cases lingers : t.state = .timeWait ∧ seg.flags.fin = true
  · rw [if_pos lingers]
    exact ⟨fun died => absurd died quiet, fun held => absurd lingers held.1.2⟩
  · rw [if_neg lingers]
    cases here : acceptable t seg with
    | false =>
      simp only [Bool.not_false, if_true]
      refine ⟨fun died => absurd ?_ quiet, fun held => (by cases held.1.1)⟩
      split at died
      · exact died
      · exact died
    | true =>
      simp only [Bool.not_true, Bool.false_eq_true, if_false]
      by_cases rst : seg.flags.rst = true
      · rw [if_pos rst]
        exact ⟨fun _ => ⟨⟨trivial, lingers⟩, .inl rst⟩, fun _ => rfl⟩
      · rw [if_neg rst]
        by_cases syn : seg.flags.syn = true
        · rw [if_pos syn]
          exact ⟨fun _ => ⟨⟨trivial, lingers⟩, .inr (.inl syn)⟩, fun _ => rfl⟩
        · rw [if_neg syn]
          have left : (True ∧ ¬ (t.state = .timeWait ∧ seg.flags.fin = true)) ∧
              (seg.flags.rst = true ∨ seg.flags.syn = true ∨ unwanted t seg) ↔
              unwanted t seg := by tauto
          rw [left, unwanted]
          by_cases ack : seg.flags.ack = true
          · rw [if_neg (by simp [ack]), ← @takeAck_isSome hz now t seg ack]
            cases took : takeAck hz now t seg with
            | none => exact ⟨fun died => absurd died quiet, fun held => (by cases held.2.2.1)⟩
            | some acked =>
              have receiver := takeAck_receiver took
              have kept : acked.reset = false := (congrArg Receiver.reset receiver).trans clean
              dsimp only
              rw [← lastAcked_iff took]
              by_cases ends : finAcked acked = true ∧ acked.state = .lastAck
              · rw [if_pos ends, tcbFinish_reset, kept]
                exact ⟨fun died => (by cases died), fun held => absurd ends held.2.2.2⟩
              · rw [if_neg ends, inputData_reset]
                · have conv : (afterFin hz now acked).conv = t.conv :=
                    congrArg Receiver.conv (afterFin_receiver.trans receiver)
                  rw [conv]
                  simp [ends]
                · exact (congrArg Receiver.reset afterFin_receiver).trans kept
          · rw [if_pos (by simpa using ack)]
            exact ⟨fun died => absurd died quiet, fun held => absurd held.2.2.1.1 ack⟩

/-- Below `rcv_nxt` is outside the receive window. -/
theorem acceptable_window (passed : acceptable t seg = true) :
    inReceiveWindow t seg.seq ↔ seg.seq = t.rcvNxt := by
  constructor
  · rintro (same | inside)
    · exact same
    · by_contra older
      have room : tcpRwnd t ≤ tcpBuf := Nat.sub_le _ _
      unfold tcpBuf at room
      have below : 2 ^ 31 ≤ (seg.seq - t.rcvNxt).toNat := by
        simp only [acceptable, inWindow, beq_eq_false_iff_ne.mpr older, Bool.false_or,
          Bool.or_eq_true, Bool.and_eq_true, seqLt_iff, seqLe_iff] at passed
        rcases passed with ⟨⟨_, low⟩, _⟩ | ⟨_, same | low⟩
        · exact low
        · exact absurd same older
        · exact low
      omega
  · exact Or.inl

def Settled (t : Tcb) : Prop := t.reset = true → t.state = .closed

theorem tcpOutput_settled (settled : Settled t) : Settled (tcpOutput now t) := by
  intro reset
  rw [tcpOutput_reset] at reset
  have closed := settled reset
  have same : tcpOutput now t = t := by
    rw [tcpOutput, closed]
    rfl
  rw [same]
  exact closed

theorem Settled.clean (clean : t.reset = false) : Settled t := by
  intro reset
  rw [clean] at reset
  cases reset

theorem Settled.open (settled : Settled t) (running : t.state ≠ .closed) : t.reset = false := by
  cases reset : t.reset with
  | false => rfl
  | true => exact absurd (settled reset) running

theorem tcbFinish_settled (t : Tcb) : Settled (tcbFinish t) := by
  intro _
  unfold tcbFinish
  split <;> rfl

theorem Input.settled {after : Tcb} (outcome : Input hz now t seg after)
    (clean : t.reset = false) : Settled after := by
  cases outcome with
  | dropped => exact .clean clean
  | answered => exact .clean clean
  | reset => exact fun _ => rfl
  | finished acked => exact tcbFinish_settled acked
  | data acked _ took =>
    have kept : acked.reset = false := (congrArg Receiver.reset (takeAck_receiver took)).trans clean
    have still : (afterFin hz now acked).reset = false :=
      (congrArg Receiver.reset afterFin_receiver).trans kept
    rcases inputData_cases hz now (afterFin hz now acked) seg with
      ⟨died, _⟩ | ⟨_, sent, which, output⟩
    · rw [died]
      exact fun _ => rfl
    · rw [output]
      apply Settled.clean
      rw [tcpOutput_reset]
      rcases which with rfl | rfl
      · exact taken_reset.trans still
      · exact taken_reset.trans still

theorem Opening.settled {after : Tcb} (outcome : Opening hz now t seg after)
    (clean : t.reset = false) : Settled after := by
  cases outcome with
  | dropped => exact .clean clean
  | refused => exact fun _ => rfl
  | opened =>
    apply Settled.clean
    rw [tcpOutput_reset]
    exact (congrArg Receiver.reset (tcpAcked_receiver (offered t seg) seg.ack)).trans clean
  | crossed => exact .clean clean

theorem tcpInput_settled (settled : Settled t) : Settled (tcpInput hz now t seg) := by
  unfold tcpInput
  cases state : t.state with
  | closed => exact settled
  | listen => exact settled
  | synSent =>
    exact (inputSynSent_cases t seg).settled (settled.open (by rw [state]; decide))
  | _ => exact (inputSynchronized_cases t seg).settled (settled.open (by rw [state]; decide))

theorem tcpTimers_settled (settled : Settled t) : Settled (tcpTimers hz now t) := by
  rcases tcpTimers_cases hz now t with
    ⟨_, done | same⟩ | ⟨_, same | ⟨freed, _⟩⟩ | ⟨_, running, expired⟩
  · rw [done]
    exact tcbFinish_settled t
  · rw [same]
    exact settled
  · rw [same]
    exact settled
  · rw [freed]
    exact settled
  · have clean := settled.open running
    generalize tcpTimers hz now t = after at expired
    cases expired with
    | waiting => exact settled
    | gaveUp => exact fun _ => rfl
    | retried _ tried same =>
      apply Settled.clean
      have kept : (retransmit now tried).reset = tried.reset :=
        congrArg Receiver.reset (retransmit_receiver tried)
      rw [same] at kept ⊢
      exact kept.trans clean

theorem tcpRead_settled (settled : Settled t) (max : Nat) : Settled (tcpRead t max).2.2 := by
  have outcome := tcpRead_cases t max
  generalize tcpRead t max = result at outcome
  cases outcome with
  | gone => exact settled
  | empty => exact settled
  | freed => exact settled
  | bytes _ _ _ which =>
    rcases which with rfl | rfl
    · exact settled
    · exact settled

theorem hangup_settled (settled : Settled t) : Settled (hangup now t) := by
  rcases hangup_cases now t with alone | stopped | closes
  · rw [alone]
    exact settled
  · rw [stopped]
    exact fun _ => rfl
  · rw [closes]
    exact tcpOutput_settled settled

theorem step_settled {c after : Connection} {action : Action} (settled : Settled c.tcb)
    (stepped : step hz c action = some after) : Settled after.tcb := by
  obtain ⟨now, event⟩ := action
  cases step_cases stepped with
  | write data =>
    rcases tcpWrite_cases now c.tcb data with ⟨same, _⟩ | ⟨_, _, _, output⟩
    · rw [same]
      exact settled
    · rw [output]
      exact tcpOutput_settled settled
  | read max =>
    exact tcpRead_settled settled max
  | shutdown =>
    unfold Connection.become tcpShutdown
    split
    · exact tcpOutput_settled settled
    · exact settled
  | hangup =>
    exact hangup_settled settled
  | segment =>
    exact tcpInput_settled settled
  | timers =>
    exact tcpTimers_settled settled

theorem BornHearing.settled {hearing : Hearing} (born : BornHearing hz hearing) :
    Settled hearing.connection.tcb := by
  apply Settled.clean
  cases born with
  | connect => rfl
  | listen => rfl
  | accept => rfl

/-- In every connection, a segment that comes again ends it exactly when it comes through to
the SYN check with a SYN, or brings data after the hangup; a RST ends it from outside the
window exactly when it is below `rcv_nxt` and comes through. -/
theorem old_segments_harmless_iff (hz now : Nat) {start hearing : Hearing}
    (born : BornHearing hz start) (run : Reach (hear hz) (fun _ _ => True) start hearing)
    (answering : hearing.connection.tcb.state.answering = true) (seg : Segment) :
    Harmless hz now hearing seg ↔ Tame hearing seg := by
  have settled : Settled hearing.connection.tcb := by
    apply run.invariant (fun hearing => Settled hearing.connection.tcb) born.settled
    intro before action after held _ heard
    obtain ⟨connection, stepped, rfl⟩ := Option.map_eq_some_iff.mp heard
    exact step_settled held stepped
  have clean : hearing.connection.tcb.reset = false := by
    apply settled.open
    intro closed
    rw [closed] at answering
    cases answering
  have ends := @input_reset hz now _ seg clean answering
  constructor
  · intro harmless
    constructor
    · intro old plain passed
      have stays := harmless.again old plain
      rw [← Bool.not_eq_true, ends] at stays
      constructor
      · rw [← Bool.not_eq_true]
        exact fun syn => stays ⟨passed, .inr (.inl syn)⟩
      · exact fun useless => stays ⟨passed, .inr (.inr useless)⟩
    · intro rst passed
      exact (acceptable_window passed.1).mp (harmless.rst rst (ends.mpr ⟨passed, .inl rst⟩))
  · intro tame
    constructor
    · intro old plain
      rw [← Bool.not_eq_true, ends, plain]
      rintro ⟨passed, rst | syn | useless⟩
      · cases rst
      · rw [(tame.again old plain passed).1] at syn
        cases syn
      · exact (tame.again old plain passed).2 useless
    · intro rst died
      exact .inl (tame.rst rst (ends.mp died).1)

instance (t : Tcb) (seg : Segment) : Decidable (ackLooked t seg) :=
  inferInstanceAs (Decidable (_ ∧ _))

instance (t : Tcb) (seg : Segment) : Decidable (lastAcked t seg) :=
  inferInstanceAs (Decidable (_ ∧ _))

instance (t : Tcb) (seg : Segment) : Decidable (unwanted t seg) :=
  inferInstanceAs (Decidable (_ ∧ _))

instance (t : Tcb) (seg : Segment) : Decidable (passes t seg) :=
  inferInstanceAs (Decidable (_ ∧ _))

def peerSyn : Segment := ⟨1000, 0, thSyn, 10, 1460, []⟩
def peerAck : Segment := ⟨1001, 1, thAck, 10, 0, []⟩

def greeted : Hearing :=
  ⟨⟨inputListen 10000000 1 (fun _ => 0) 0 peerSyn, [], [], 0, false⟩, [peerSyn]⟩

/-- It is established. -/
def answered : Hearing :=
  outcome (hear 10000000) (fun _ _ => True) greeted [⟨2, .segment peerAck⟩]

theorem old_ack_harmless : Harmless 10000000 3 answered peerAck := by
  apply (old_segments_harmless_iff 10000000 3 (.accept 1 (fun _ => 0) 0 peerSyn)
    (outcome_reach _ greeted (by decide)) (by decide) peerAck).mpr
  exact ⟨fun _ _ _ => by decide, fun rst => by cases rst⟩

/-- The peer has not had our SYN|ACK and sends its SYN again. -/
theorem old_syn_resets :
    ¬ ∀ (hz now : Nat) (start hearing : Hearing) (seg : Segment), BornHearing hz start →
      Reach (hear hz) (fun _ _ => True) start hearing →
      hearing.connection.tcb.state.answering = true → Harmless hz now hearing seg := by
  intro always
  have harmless := always 10000000 2 greeted greeted peerSyn (.accept 1 (fun _ => 0) 0 peerSyn)
    .start (by decide)
  exact absurd (harmless.again List.mem_cons_self rfl) (by decide)

end Racccoon.Tcp
