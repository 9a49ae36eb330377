import Racccoon.Tcp.Sender

/-!
The retransmission timer. It is armed with every segment sent and switched off when all
that was sent is acknowledged. A closed window is probed by the timer alone, and nothing
arms it for bytes that never left the buffer: they wait without a timer when nothing else
is in flight.
-/

namespace Racccoon.Tcp

open Run

variable (t : Tcb)

def Tcb.atWork : Prop :=
  t.sbuf ≠ [] ∨ t.wantFin = true ∧ finAcked t = false

def clockFits (hz now : Nat) : Prop := 0 < now ∧ now + hz * 60 < 2 ^ 64

def shutIn (data : List Byte) : Prop :=
  t.used = true ∧ t.reset = false ∧ t.wantFin = false ∧ t.state.sends = true ∧
    t.state.writes = true ∧ t.flight = 0 ∧ t.sndWnd = 0 ∧ data ≠ []

variable (seg : Segment)

def endsAnyway : Prop :=
  (t.conv = false ∧ 0 < seg.dlen) ∨
    (t.state = .finWait1 ∧ finLeft t seg = true ∧ seg.stop = (takePayload t seg).rcvNxt)

def shutsOut : Prop :=
  seg.wnd = 0 ∧ seg.ack = t.sndNxt ∧ t.bytesAcked seg.ack < t.sbuf.length ∧
    seg.flags.ack = true ∧
    ((t.state = .synSent ∧ seg.flags.syn = true) ∨
      ((t.state = .synRcvd ∨ t.state.sends = true) ∧ reachesAck t seg ∧
        ackValid t seg.ack = true ∧ ¬ endsAnyway t seg))

def feeds : Event → Prop
  | .write data => ¬ shutIn t data
  | .segment seg => ¬ shutsOut t seg
  | _ => True

/-- The condition on a step: a window is not shut on unsent bytes with nothing in flight. -/
def Fed (hz : Nat) (c : Connection) (action : Action) : Prop :=
  clockFits hz action.now ∧ feeds c.tcb action.event

instance (data : List Byte) : Decidable (shutIn t data) :=
  inferInstanceAs (Decidable (_ ∧ _))

instance : Decidable (endsAnyway t seg) :=
  inferInstanceAs (Decidable (_ ∨ _))

instance : Decidable (shutsOut t seg) :=
  inferInstanceAs (Decidable (_ ∧ _))

instance : (event : Event) → Decidable (feeds t event)
  | .write data => inferInstanceAs (Decidable (¬ shutIn t data))
  | .segment seg => inferInstanceAs (Decidable (¬ shutsOut t seg))
  | .read _ | .shutdown | .hangup | .timers => .isTrue trivial

instance (hz : Nat) (c : Connection) (action : Action) : Decidable (Fed hz c action) :=
  inferInstanceAs (Decidable ((_ ∧ _) ∧ _))

/-- What holds when `tcp_output` begins, with an excuse for a shut window. -/
structure Ready (hz : Nat) (excuse : Prop) (t : Tcb) : Prop where
  rto : t.rto ≤ hz * 60
  finWanted : t.finSent = true → t.wantFin = true
  timer : t.state.sends = true → t.flight ≠ 0 → t.rtxDue ≠ 0
  unsent : t.state.sends = true → t.flight = 0 →
    t.finSent = false ∧ (t.sbuf = [] ∨ 0 < t.sndWnd ∨ excuse)

structure Armed (hz : Nat) (t : Tcb) : Prop where
  rto : t.rto ≤ hz * 60
  finWanted : t.finSent = true → t.wantFin = true
  timer : t.state.sends = true → t.flight ≠ 0 → t.rtxDue ≠ 0
  idle : t.state.sends = true → t.flight = 0 → t.sbuf = [] ∧ t.wantFin = false

variable {hz now : Nat} {t : Tcb} {seg : Segment}

theorem Armed.works (armed : Armed hz t) (sends : t.state.sends = true) (work : t.atWork) :
    t.rtxDue ≠ 0 := by
  by_cases idle : t.flight = 0
  · obtain ⟨empty, unwanted⟩ := armed.idle sends idle
    rcases work with bytes | ⟨wanted, _⟩
    · exact absurd empty bytes
    · rw [unwanted] at wanted
      cases wanted
  · exact armed.timer sends idle

theorem Armed.unfin (armed : Armed hz t) (sends : t.state.sends = true) (idle : t.flight = 0) :
    t.finSent = false := by
  by_contra fin
  have wanted := armed.finWanted (by simpa using fin)
  rw [(armed.idle sends idle).2] at wanted
  cases wanted

theorem Armed.ready (armed : Armed hz t) (excuse : Prop) : Ready hz excuse t where
  rto := armed.rto
  finWanted := armed.finWanted
  timer := armed.timer
  unsent := fun sends idle => ⟨armed.unfin sends idle, .inl (armed.idle sends idle).1⟩

theorem due_ne_zero (fits : clockFits hz now) {rto : Nat} (bound : rto ≤ hz * 60) :
    ulong (now + rto) ≠ 0 := by
  obtain ⟨running, early⟩ := fits
  unfold ulong
  omega

theorem armIfOff_due (fits : clockFits hz now) (bound : t.rto ≤ hz * 60) :
    (armIfOff now t).rtxDue ≠ 0 := by
  change (if t.rtxDue = 0 then ulong (now + t.rto) else t.rtxDue) ≠ 0
  split
  · exact due_ne_zero fits bound
  · assumption

theorem sendData_ready (flow : Flow t) (ready : Ready hz False t) (fits : clockFits hz now)
    (more : t.nextSize ≠ 0) : Ready hz False (sendData now t t.nextSize) where
  rto := ready.rto
  finWanted := ready.finWanted
  timer := fun _ _ => armIfOff_due fits ready.rto
  unsent := by
    intro _ idle
    rw [sendData_flight flow more] at idle
    omega

/-- With nothing in flight, the loop of `tcp_output` ended for want of bytes. -/
theorem loop_idle (ready : Ready hz False t) (mss : 0 < t.mss) (sends : t.state.sends = true)
    (last : t.nextSize = 0) (idle : t.flight = 0) : t.finSent = false ∧ t.sbuf = [] := by
  obtain ⟨noFin, empty | opened | ⟨⟨⟩⟩⟩ := ready.unsent sends idle
  · exact ⟨noFin, empty⟩
  · refine ⟨noFin, ?_⟩
    have none : t.dataSent = 0 := by simp [Tcb.dataSent, noFin, idle]
    simp only [Tcb.nextSize] at last
    by_contra bytes
    have length := List.length_pos_iff.mpr bytes
    rw [if_neg (by omega), if_neg (by omega)] at last
    omega

theorem tcpOutput_armed (flow : Flow t) (ready : Ready hz False t) (fits : clockFits hz now) :
    Armed hz (tcpOutput now t) := by
  by_cases sends : t.state.sends = true
  · have kept : Flow (outputData now t.sbuf.length t) ∧
        Ready hz False (outputData now t.sbuf.length t) ∧
        (outputData now t.sbuf.length t).state = t.state := by
      refine outputData_invariant (fun s => Flow s ∧ Ready hz False s ∧ s.state = t.state) _
        ⟨flow, ready, rfl⟩ ?_
      rintro before ⟨held, open_, same⟩ more
      exact ⟨sendData_flow held (by rw [same]; exact sends) more,
        sendData_ready held open_ fits more, same⟩
    obtain ⟨held, open_, same⟩ := kept
    have last := outputData_ended now flow sends
    have unfolded : tcpOutput now t =
        if finDue (outputData now t.sbuf.length t) then
          sendFin now (outputData now t.sbuf.length t)
        else outputData now t.sbuf.length t := by
      unfold tcpOutput
      rw [if_pos sends]
    rw [unfolded]
    generalize outputData now t.sbuf.length t = sent at *
    have sends' : sent.state.sends = true := by rw [same]; exact sends
    by_cases due : finDue sent = true
    · rw [if_pos due]
      refine ⟨open_.rto, fun _ => (finDue_iff.mp due).1, fun _ _ => armIfOff_due fits open_.rto, ?_⟩
      intro _ idle
      rw [sendFin_flight held due] at idle
      omega
    · rw [if_neg due]
      refine ⟨open_.rto, open_.finWanted, open_.timer, ?_⟩
      intro _ idle
      obtain ⟨noFin, empty⟩ := loop_idle open_ held.mss sends' last idle
      refine ⟨empty, ?_⟩
      by_contra wanted
      exact due (finDue_iff.mpr ⟨by simpa using wanted, noFin, by rw [idle, empty]; rfl⟩)
  · unfold tcpOutput
    rw [if_neg sends]
    exact ⟨ready.rto, ready.finWanted, ready.timer, fun sent => absurd sent sends⟩

def shutting (t : Tcb) (seg : Segment) : Prop :=
  seg.wnd = 0 ∧ seg.ack = t.sndNxt ∧ t.bytesAcked seg.ack < t.sbuf.length ∧
    ackValid t seg.ack = true

theorem ulong_le (value : Nat) : ulong value ≤ value := Nat.mod_le _ _

/-- Once a FIN is sent, the acknowledgement of all that is in flight empties the buffer. -/
theorem bytesAcked_fin (flow : Flow t) (fin : t.finSent = true) :
    t.sbuf.length ≤ t.bytesAcked t.sndNxt := by
  have notOpening := unclosed_not_opening (flow.finSent fin)
  rw [bytesAcked_all notOpening, if_pos fin]
  rcases flow.finFlight fin with full | empty
  · omega
  · simp [empty]

/-- The acknowledgement and the window are taken in. -/
theorem takeAck_ready (armed : Armed hz t)
    (fits : clockFits hz now) {acked : Tcb} (took : takeAck hz now t seg = some acked) :
    acked.rto ≤ hz * 60 ∧ (acked.finSent = true → acked.wantFin = true) ∧
      (acked.state.sends = true → acked.flight ≠ 0 → acked.rtxDue ≠ 0) ∧
      (acked.state.sends = true → acked.flight = 0 →
        acked.sbuf = [] ∨ 0 < acked.sndWnd ∨ shutting t seg) := by
  have bound : ∀ rto, rto = t.rto ∨ rto ≤ ulong (hz * 60) → rto ≤ hz * 60 := by
    rintro rto (rfl | low)
    · exact armed.rto
    · exact Nat.le_trans low (ulong_le _)
  -- What an acknowledgement leaves, in whatever state it is taken.
  have acks : ∀ state, ackValid t seg.ack = true →
      let after := { tcpAcked hz now t seg.ack with state := state, sndWnd := seg.wnd }
      after.rto ≤ hz * 60 ∧ (after.finSent = true → after.wantFin = true) ∧
      (after.state.sends = true → after.flight ≠ 0 → after.rtxDue ≠ 0) ∧
      (after.state.sends = true → after.flight = 0 →
        after.sbuf = [] ∨ 0 < after.sndWnd ∨ shutting t seg) := by
    intro state valid
    have new : seg.ack ≠ t.sndUna := ackValid_new valid
    obtain ⟨_, rto, _, _, _, same, kept⟩ := tcpAcked_eq hz now t new
    rw [same]
    refine ⟨bound rto kept, armed.finWanted, ?_, ?_⟩
    · intro _ flying
      have partly : seg.ack ≠ t.sndNxt := by
        rintro all
        exact flying (flight_eq_zero.mpr all)
      rw [if_neg partly]
      exact due_ne_zero fits (bound rto kept)
    · intro _ idle
      have all : seg.ack = t.sndNxt := flight_eq_zero.mp idle
      by_cases opened : seg.wnd = 0
      · by_cases covered : t.bytesAcked seg.ack < t.sbuf.length
        · exact .inr (.inr ⟨opened, all, covered, valid⟩)
        · exact .inl (List.drop_eq_nil_of_le (by omega))
      · exact .inr (.inl (Nat.pos_of_ne_zero opened))
  rcases takeAck_cases took with ⟨_, valid, rfl⟩ | ⟨_, valid, rfl⟩ | ⟨_, _, rfl⟩
  · exact acks .established valid
  · exact acks (tcpAcked hz now t seg.ack).state valid
  · refine ⟨armed.rto, armed.finWanted, armed.timer, ?_⟩
    intro sends idle
    exact .inl (armed.idle sends idle).1

/-- An acknowledged FIN takes the block out of the states that send. -/
theorem afterFin_ready (hz now : Nat) {excuse : Prop} (flow : Flow t) (rto : t.rto ≤ hz * 60)
    (finWanted : t.finSent = true → t.wantFin = true)
    (timer : t.state.sends = true → t.flight ≠ 0 → t.rtxDue ≠ 0)
    (unsent : t.state.sends = true → t.flight = 0 → t.sbuf = [] ∨ 0 < t.sndWnd ∨ excuse)
    (goes : ¬ (finAcked t = true ∧ t.state = .lastAck)) : Ready hz excuse (afterFin hz now t) := by
  unfold afterFin
  by_cases fin : finAcked t = true
  · rw [if_pos fin]
    have closed : t.state.unclosed = false := by
      simp only [finAcked, Bool.and_eq_true] at fin
      exact flow.finSent fin.1
    split
    · exact ⟨rto, finWanted, fun sends => (by cases sends), fun sends => (by cases sends)⟩
    · exact ⟨rto, finWanted, fun sends => (by cases sends), fun sends => (by cases sends)⟩
    · next notFirst notClosing =>
        have quiet : t.state.sends = false := by
          cases state : t.state <;> simp_all [TcbState.sends, TcbState.unclosed]
        refine ⟨rto, finWanted, timer, ?_⟩
        intro sends
        rw [quiet] at sends
        cases sends
  · rw [if_neg fin]
    refine ⟨rto, finWanted, timer, fun sends idle => ⟨?_, unsent sends idle⟩⟩
    by_contra sent
    refine fin ?_
    simp only [finAcked, Bool.and_eq_true, beq_iff_eq]
    exact ⟨by simpa using sent, flight_eq_zero.mp idle⟩

theorem Ready.moved {excuse : Prop} (ready : Ready hz excuse t) (rcvNxt : Seq)
    (rbuf : Nat → Byte) (rlen : Nat) (finRcvd : Bool) (state : TcbState) (twDue : Nat)
    (sends : state.sends = true → t.state.sends = true) :
    Ready hz excuse { t with
      rcvNxt := rcvNxt, rbuf := rbuf, rlen := rlen, finRcvd := finRcvd, state := state
      twDue := twDue } :=
  ⟨ready.rto, ready.finWanted, fun now => ready.timer (sends now),
    fun now => ready.unsent (sends now)⟩

theorem taken_ready {excuse : Prop} (ready : Ready hz excuse t)
    (notOpening : t.state.opening = false) : Ready hz excuse (taken hz now t seg) := by
  have filled : Ready hz excuse (takePayload t seg) := by
    unfold takePayload
    split
    · exact ready.moved _ _ _ t.finRcvd t.state t.twDue id
    · exact ready
  unfold taken
  split
  · have same : (takePayload t seg).state = t.state := takePayload_state
    unfold takeFin
    generalize takePayload t seg = before at *
    split
    · next state => exact filled.moved _ before.rbuf before.rlen _ _ before.twDue (by simp [state, TcbState.sends])
    · next state =>
        rw [← same, state] at notOpening
        cases notOpening
    · next state =>
        refine filled.moved _ before.rbuf before.rlen _ _ _ ?_
        intro _
        rw [state]
        rfl
    · exact filled.moved _ before.rbuf before.rlen _ _ _ (fun sends => (by cases sends))
    · exact filled.moved _ before.rbuf before.rlen _ before.state before.twDue id
  · exact filled

/-- The end that excuses a window shut on unsent bytes takes the block out of the states
that send. -/
theorem excused_ends (hz now : Nat) {acked : Tcb} (took : takeAck hz now t seg = some acked)
    (shut : shutting t seg) (state : t.state = .finWait1) (noFin : t.finSent = false)
    (left : finLeft t seg = true) (last : seg.stop = (takePayload t seg).rcvNxt) :
    (taken hz now (afterFin hz now acked) seg).state.sends = false := by
  have new : seg.ack ≠ t.sndUna := ackValid_new shut.2.2.2
  obtain ⟨_, _, _, _, _, same, _⟩ := tcpAcked_eq hz now t new
  rcases takeAck_cases took with ⟨early, _, _⟩ | ⟨_, _, acks⟩ | ⟨_, invalid, _⟩
  · rw [state] at early
    cases early
  · rw [same] at acks
    have unsent : finAcked acked = false := by
      rw [acks]
      simp [finAcked, noFin]
    have kept : afterFin hz now acked = acked := by
      unfold afterFin
      rw [unsent, if_neg Bool.false_ne_true]
    rw [kept]
    have state' : acked.state = t.state := by rw [acks]
    obtain ⟨sameLeft, samePayload⟩ := payload_congr (takeAck_receiver took) state' seg
    have stays : taken hz now acked seg = takeFin hz now (takePayload acked seg) := by
      unfold taken
      rw [sameLeft, samePayload, left, last]
      simp
    have first : (takePayload acked seg).state = .finWait1 := by
      rw [takePayload_state, state', state]
    have idle : (takePayload acked seg).sndUna = (takePayload acked seg).sndNxt := by
      have una : acked.sndUna = acked.sndNxt := by
        rw [acks]
        exact shut.2.1
      unfold takePayload
      split
      · exact una
      · exact una
    rw [stays]
    unfold takeFin
    rw [first]
    simp only [if_pos idle]
    rfl
  · rw [shut.2.2.2] at invalid
    cases invalid

/-- The states whose segments can lead to a state that sends. -/
theorem sends_from {acked : Tcb} (past : synchronized t) (took : takeAck hz now t seg = some acked)
    (sends : (taken hz now (afterFin hz now acked) seg).state.sends = true) :
    t.state = .synRcvd ∨ t.state.sends = true := by
  rcases past with early | late
  · exact .inl early
  · have notEarly : t.state ≠ .synRcvd := by
      intro early
      rw [early] at late
      cases late
    have state : acked.state = t.state := by
      rcases takeAck_cases took with ⟨early, _, _⟩ | ⟨_, _, rfl⟩ | ⟨_, _, rfl⟩
      · exact absurd early notEarly
      · exact tcpAcked_state t
      · rfl
    right
    have ended : ∀ quiet : Tcb, quiet.state.sends = false → quiet.state.opening = false →
        (taken hz now quiet seg).state.sends = false := by
      intro quiet stops notOpening
      have same : (takePayload quiet seg).state = quiet.state := takePayload_state
      unfold taken
      split
      · unfold takeFin
        rw [← same] at stops notOpening
        split
        · next state => rw [state] at stops; cases stops
        · next state => rw [state] at notOpening; cases notOpening
        · next state => rw [state] at stops; cases stops
        · rfl
        · exact stops
      · rw [same]
        exact stops
    by_contra quiet
    simp only [Bool.not_eq_true] at quiet
    have stops : (afterFin hz now acked).state.sends = false ∧
        (afterFin hz now acked).state.opening = false := by
      unfold afterFin
      rw [← state] at quiet late
      repeat' split
      all_goals first | exact ⟨quiet, late⟩ | exact ⟨rfl, rfl⟩
    rw [ended _ stops.1 stops.2] at sends
    cases sends

theorem Ready.excused {excuse : Prop} (ready : Ready hz excuse t)
    (never : t.state.sends = true → ¬ excuse) : Ready hz False t where
  rto := ready.rto
  finWanted := ready.finWanted
  timer := ready.timer
  unsent := by
    intro sends idle
    obtain ⟨noFin, empty | opened | shut⟩ := ready.unsent sends idle
    · exact ⟨noFin, .inl empty⟩
    · exact ⟨noFin, .inr (.inl opened)⟩
    · exact absurd shut (never sends)

theorem Armed.died (rto : t.rto ≤ hz * 60) (finWanted : t.finSent = true → t.wantFin = true) :
    Armed hz (tcpDied t) :=
  ⟨rto, finWanted, fun sends => (by cases sends), fun sends => (by cases sends)⟩

theorem Armed.finish (rto : t.rto ≤ hz * 60) (finWanted : t.finSent = true → t.wantFin = true) :
    Armed hz (tcbFinish t) := by
  unfold tcbFinish
  split
  · exact ⟨rto, finWanted, fun sends => (by cases sends), fun sends => (by cases sends)⟩
  · exact ⟨rto, finWanted, fun sends => (by cases sends), fun sends => (by cases sends)⟩

theorem Input.armed {after : Tcb} (outcome : Input hz now t seg after) (flow : Flow t)
    (armed : Armed hz t) (past : synchronized t) (fits : clockFits hz now)
    (fed : ¬ shutsOut t seg) : Armed hz after := by
  cases outcome with
  | dropped => exact armed
  | answered => exact ⟨armed.rto, armed.finWanted, armed.timer, armed.idle⟩
  | reset _ quiet =>
    rcases quiet with rfl | rfl
    · exact .died armed.rto armed.finWanted
    · exact .died armed.rto armed.finWanted
  | finished _ _ took =>
    obtain ⟨rto, finWanted, _, _⟩ := takeAck_ready armed fits took
    exact .finish rto finWanted
  | data acked reaches took goes =>
    obtain ⟨rto, finWanted, timer, unsent⟩ := takeAck_ready armed fits took
    obtain ⟨kept, notOpening⟩ := takeAck_flow flow past took
    have ready := afterFin_ready hz now kept rto finWanted timer unsent goes
    obtain ⟨kept', notOpening'⟩ := afterFin_flow hz now kept notOpening
    have filled : Ready hz (shutting t seg) (taken hz now (afterFin hz now acked) seg) :=
      taken_ready ready notOpening'
    have flows : Flow (taken hz now (afterFin hz now acked) seg) := taken_flow kept' notOpening'
    rcases inputData_cases hz now (afterFin hz now acked) seg with
      ⟨died, _⟩ | ⟨goesOn, sent, which, output⟩
    · rw [died]
      exact .died filled.rto filled.finWanted
    · have conv : (taken hz now (afterFin hz now acked) seg).conv = t.conv := by
        rw [taken_conv]
        exact (congrArg Receiver.conv afterFin_receiver).trans
          (congrArg Receiver.conv (takeAck_receiver took))
      have open_ : Ready hz False (taken hz now (afterFin hz now acked) seg) := by
        refine filled.excused ?_
        rintro sends shut
        have from_ := sends_from past took sends
        refine fed ⟨shut.1, shut.2.1, shut.2.2.1, reaches.2.2.2,
          .inr ⟨from_, reaches, shut.2.2.2, ?_⟩⟩
        rintro (⟨gone, bytes⟩ | ⟨state, left, last⟩)
        · exact goesOn ⟨by rw [conv]; exact gone, bytes⟩
        · have noFin : t.finSent = false := by
            by_contra fin
            have covered := bytesAcked_fin flow (by simpa using fin)
            have short := shut.2.2.1
            rw [shut.2.1] at short
            omega
          have stops := excused_ends hz now took shut state noFin left last
          rw [stops] at sends
          cases sends
      rw [output]
      rcases which with rfl | rfl
      · exact tcpOutput_armed flows open_ fits
      · exact tcpOutput_armed (flows.send _ _ _)
          ⟨open_.rto, open_.finWanted, open_.timer, open_.unsent⟩ fits

theorem Opening.armed {after : Tcb} (outcome : Opening hz now t seg after) (flow : Flow t)
    (armed : Armed hz t) (state : t.state = .synSent) (fits : clockFits hz now)
    (fed : ¬ shutsOut t seg) : Armed hz after := by
  have opening : t.state.opening = true := by rw [state]; rfl
  cases outcome with
  | dropped => exact armed
  | refused => exact .died armed.rto armed.finWanted
  | opened syn ack inside =>
    have all := opened_ack flow opening inside
    have begun : Flow (offered t seg) := offered_flow flow
    have noFin : t.finSent = false := flow.unclosed (by rw [state]; rfl)
    have new : seg.ack ≠ (offered t seg).sndUna := by
      obtain ⟨una, nxt⟩ := flow.opening opening
      change seg.ack ≠ t.sndUna
      bv_omega
    obtain ⟨_, rto, _, _, _, same, kept⟩ :=
      tcpAcked_eq hz now (offered t seg) new
    have bound : rto ≤ hz * 60 := by
      rcases kept with rfl | low
      · exact armed.rto
      · exact Nat.le_trans low (ulong_le _)
    have covered : (offered t seg).bytesAcked seg.ack = 0 := by
      rw [all]
      exact bytesAcked_opening begun opening
    refine tcpOutput_armed ((established_flow begun opening all).send _ _ _) ?_ fits
    rw [same, covered]
    refine ⟨bound, armed.finWanted, ?_, ?_⟩
    · intro _ flying
      exact absurd (flight_eq_zero.mpr all) flying
    · intro _ _
      refine ⟨noFin, ?_⟩
      by_cases opened : seg.wnd = 0
      · left
        by_contra bytes
        have length := List.length_pos_iff.mpr bytes
        refine fed ⟨opened, all, ?_, ack, .inl ⟨state, syn⟩⟩
        rw [all, bytesAcked_opening flow opening]
        exact length
      · exact .inr (.inl (Nat.pos_of_ne_zero opened))
  | crossed => exact ⟨armed.rto, armed.finWanted, fun sends => (by cases sends),
      fun sends => (by cases sends)⟩

theorem tcpInput_armed (flow : Flow t) (armed : Armed hz t) (fits : clockFits hz now)
    (fed : ¬ shutsOut t seg) : Armed hz (tcpInput hz now t seg) := by
  unfold tcpInput
  cases state : t.state with
  | closed => exact armed
  | listen => exact armed
  | synSent => exact (inputSynSent_cases t seg).armed flow armed state fits fed
  | synRcvd => exact (inputSynchronized_cases t seg).armed flow armed (.inl state) fits fed
  | _ =>
    exact (inputSynchronized_cases t seg).armed flow armed (.inr (by rw [state]; rfl)) fits fed

theorem backOff_le (rto : Nat) : backOff hz rto ≤ hz * 60 := by
  have bound := ulong_le (hz * 60)
  unfold backOff
  split <;> omega

/-- After the window of one byte the timer lends, nothing in flight means nothing to do. -/
theorem goBack_armed (flow : Flow t) (rto : t.rto ≤ hz * 60) (notOpening : t.state.opening = false)
    (fits : clockFits hz now) (due : t.rtxDue ≠ 0) : Armed hz (goBack now t) := by
  have lent : 0 < (rolledBack t).sndWnd := by
    change 0 < if t.sndWnd = 0 then 1 else t.sndWnd
    split <;> omega
  have ready : Ready hz False (rolledBack t) :=
    ⟨rto, fun fin => (by cases fin), fun _ _ => due, fun _ _ => ⟨rfl, .inr (.inl lent)⟩⟩
  have armed := tcpOutput_armed (rolledBack_flow flow notOpening) ready fits
  exact ⟨armed.rto, armed.finWanted, armed.timer, armed.idle⟩

theorem Expired.armed {after : Tcb} (outcome : Expired hz now t after) (flow : Flow t)
    (armed : Armed hz t) (fits : clockFits hz now) : Armed hz after := by
  cases outcome with
  | waiting => exact armed
  | gaveUp _ quiet =>
    rcases quiet with rfl | rfl
    · exact .died armed.rto armed.finWanted
    · exact .died armed.rto armed.finWanted
  | retried due tried same =>
    have sent : Armed hz (retransmit now tried) := by
      have flows : Flow tried := by
        rw [same]
        exact flow.timed _ _ _
      have bound : tried.rto ≤ hz * 60 := by
        rw [same]
        exact backOff_le t.rto
      have wanted : tried.finSent = true → tried.wantFin = true := by
        rw [same]
        exact armed.finWanted
      have late : tried.rtxDue ≠ 0 := by
        rw [same]
        exact due
      unfold retransmit
      cases state : tried.state with
      | synSent => exact ⟨bound, wanted, fun sends => (by simp [tcpSend, state, TcbState.sends] at sends),
          fun sends => (by simp [tcpSend, state, TcbState.sends] at sends)⟩
      | synRcvd => exact ⟨bound, wanted, fun sends => (by simp [tcpSend, state, TcbState.sends] at sends),
          fun sends => (by simp [tcpSend, state, TcbState.sends] at sends)⟩
      | _ => exact goBack_armed flows bound (by rw [state]; rfl) fits late
    exact ⟨sent.rto, sent.finWanted, fun _ _ => due_ne_zero fits sent.rto, sent.idle⟩

theorem tcpTimers_armed (flow : Flow t) (armed : Armed hz t) (fits : clockFits hz now) :
    Armed hz (tcpTimers hz now t) := by
  rcases tcpTimers_cases hz now t with
    ⟨_, done | same⟩ | ⟨_, same | ⟨freed, _⟩⟩ | ⟨_, _, expired⟩
  · rw [done]
    exact .finish armed.rto armed.finWanted
  · rw [same]
    exact armed
  · rw [same]
    exact armed
  · rw [freed]
    exact ⟨armed.rto, armed.finWanted, armed.timer, armed.idle⟩
  · exact expired.armed flow armed fits

theorem tcpWrite_armed (flow : Flow t) (armed : Armed hz t) (fits : clockFits hz now)
    {data : List Byte} (fed : ¬ shutIn t data) : Armed hz (tcpWrite now t data).2 := by
  by_cases refused : t.used = false ∨ t.reset = true
  · have same : (tcpWrite now t data).2 = t := by
      unfold tcpWrite
      rcases refused with unused | reset
      · simp [unused]
      · by_cases used : t.used = true <;> simp [reset]
    rw [same]
    exact armed
  · rcases tcpWrite_cases now t data with ⟨same, _⟩ | ⟨writes, unwanted, _, output⟩
    · rw [same]
      exact armed
    · rw [output]
      refine tcpOutput_armed (buffered_flow flow writes data)
        ⟨armed.rto, armed.finWanted, armed.timer, ?_⟩ fits
      intro sends idle
      refine ⟨armed.unfin sends idle, ?_⟩
      by_cases shut : t.sndWnd = 0
      · have empty := (armed.idle sends idle).1
        by_cases none : data = []
        · simp [none, empty]
        · simp only [not_or, Bool.not_eq_false, Bool.not_eq_true] at refused
          exact absurd ⟨refused.1, refused.2, unwanted, sends, writes, idle, shut, none⟩ fed
      · exact .inr (.inl (Nat.pos_of_ne_zero shut))

theorem tcpRead_armed (armed : Armed hz t) (max : Nat) : Armed hz (tcpRead t max).2.2 := by
  have outcome := tcpRead_cases t max
  generalize tcpRead t max = result at outcome
  cases outcome with
  | gone => exact armed
  | empty => exact armed
  | freed => exact ⟨armed.rto, armed.finWanted, armed.timer, armed.idle⟩
  | bytes _ _ _ which =>
    rcases which with rfl | rfl
    · exact ⟨armed.rto, armed.finWanted, armed.timer, armed.idle⟩
    · exact ⟨armed.rto, armed.finWanted, armed.timer, armed.idle⟩

section
variable (flow : Flow t) (armed : Armed hz t) (fits : clockFits hz now)
include flow armed fits

theorem closing_armed (conv : Bool) :
    Armed hz (tcpOutput now { t with conv := conv, wantFin := true }) := by
  have ready := armed.ready False
  exact tcpOutput_armed (flow.closing conv true)
    ⟨ready.rto, fun _ => rfl, ready.timer, ready.unsent⟩ fits

theorem hangup_armed : Armed hz (hangup now t) := by
  rcases hangup_cases now t with alone | stopped | closes
  · rw [alone]
    exact ⟨armed.rto, armed.finWanted, armed.timer, armed.idle⟩
  · rw [stopped]
    exact ⟨armed.rto, armed.finWanted, fun sends => (by cases sends),
      fun sends => (by cases sends)⟩
  · rw [closes]
    exact closing_armed flow armed fits false

theorem tcpShutdown_armed : Armed hz (tcpShutdown now t) := by
  unfold tcpShutdown
  split
  · exact closing_armed flow armed fits t.conv
  · exact armed

end

theorem Born.armed {c : Connection} (born : Born hz c) : Armed hz c.tcb := by
  have slow : hz ≤ hz * 60 := by omega
  cases born with
  | connect =>
    exact ⟨slow, fun fin => (by cases fin), fun sends => (by cases sends),
      fun sends => (by cases sends)⟩
  | listen =>
    exact ⟨slow, fun fin => (by cases fin), fun sends => (by cases sends),
      fun sends => (by cases sends)⟩
  | accept =>
    exact ⟨slow, fun fin => (by cases fin), fun sends => (by cases sends),
      fun sends => (by cases sends)⟩

theorem step_armed {c after : Connection} {action : Action} (flow : Flow c.tcb)
    (armed : Armed hz c.tcb) (fed : Fed hz c action)
    (stepped : step hz c action = some after) : Armed hz after.tcb := by
  obtain ⟨fits, fed⟩ := fed
  obtain ⟨now, event⟩ := action
  cases step_cases stepped with
  | write =>
    exact tcpWrite_armed flow armed fits fed
  | read max =>
    exact tcpRead_armed armed max
  | shutdown =>
    exact tcpShutdown_armed flow armed fits
  | hangup =>
    exact hangup_armed flow armed fits
  | segment =>
    exact tcpInput_armed flow armed fits fed
  | timers =>
    exact tcpTimers_armed flow armed fits

/-- Where no window is shut on unsent bytes with nothing in flight, a block with work to do
has its timer on. -/
theorem work_has_timer (hz : Nat) {start c : Connection} (born : Born hz start)
    (run : Reach (step hz) (Fed hz) start c) (sends : c.tcb.state.sends = true)
    (work : c.tcb.atWork) : c.tcb.rtxDue ≠ 0 := by
  have kept : Flow c.tcb ∧ Armed hz c.tcb := by
    refine run.invariant (fun c => Flow c.tcb ∧ Armed hz c.tcb) ⟨born.flow, born.armed⟩ ?_
    intro before action after held fed stepped
    exact ⟨step_flow held.1 stepped, step_armed held.1 held.2 fed stepped⟩
  exact kept.2.works sends work

/-- The peer offers `wnd`, and one byte is written. -/
def writesOne (wnd : Nat) : List Action :=
  [⟨2, .segment ⟨1000, 1, ⟨false, true, false, true⟩, wnd, 1460, []⟩⟩, ⟨3, .write [7]⟩]

theorem one_byte_has_timer :
    (outcome (step 10000000) (Fed 10000000) dialled (writesOne 1000)).tcb.rtxDue ≠ 0 :=
  work_has_timer 10000000 (.connect 1 (fun _ => 0) 0)
    (outcome_reach (writesOne 1000) dialled (by decide)) (by decide)
    (.inl (by decide))

/-- The peer's window is shut from the start: the byte waits for an update that may be lost. -/
theorem shut_window_has_no_timer :
    ¬ ∀ (hz : Nat) (start c : Connection), Born hz start →
      Reach (step hz) (fun _ _ => True) start c → c.tcb.state.sends = true →
      c.tcb.atWork → c.tcb.rtxDue ≠ 0 := by
  intro always
  have reached : Reach (step 10000000) (fun _ _ => True) dialled
      (outcome (step 10000000) (fun _ _ => True) dialled (writesOne 0)) :=
    outcome_reach (writesOne 0) dialled (by decide)
  exact always 10000000 dialled _ (.connect 1 (fun _ => 0) 0) reached (by decide)
    (.inl (by decide)) (by decide)

end Racccoon.Tcp
