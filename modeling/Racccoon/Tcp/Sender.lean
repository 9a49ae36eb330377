import Racccoon.Tcp.Connection

/-!
The sender's side of a connection: how far ahead `snd_nxt` may be, with and without a FIN
sent, whatever acknowledgements and windows arrive.
-/

namespace Racccoon.Tcp

def TcbState.opening : TcbState → Bool
  | .synSent | .synRcvd => true
  | _ => false

def TcbState.unclosed : TcbState → Bool
  | .listen | .synSent | .synRcvd | .established | .closeWait => true
  | _ => false

/-- An acknowledgement half way around leaves the buffer empty, whatever is in flight. -/
structure Flow (t : Tcb) : Prop where
  mss : 0 < t.mss
  full : t.sbuf.length ≤ tcpBuf
  opening : t.state.opening = true → t.sndUna = t.iss ∧ t.sndNxt = t.iss + 1
  finFlight : t.finSent = true → t.flight = t.sbuf.length + 1 ∨ t.sbuf = []
  finSent : t.finSent = true → t.state.unclosed = false

variable {hz now : Nat} {t : Tcb}

theorem nextSize_pos (more : t.nextSize ≠ 0) :
    t.dataSent < t.sbuf.length ∧ t.flight < t.sndWnd ∧ 0 < t.mss ∧
      t.nextSize = min (min (t.sbuf.length - t.dataSent) (t.sndWnd - t.flight)) t.mss := by
  unfold Tcb.nextSize at *
  by_cases sent : t.dataSent ≥ t.sbuf.length
  · simp [sent] at more
  · by_cases shut : t.flight ≥ t.sndWnd
    · simp [shut] at more
    · rw [if_neg sent, if_neg shut] at *
      omega

theorem Flow.dataSent (flow : Flow t) (fin : t.finSent = true) : t.sbuf.length ≤ t.dataSent := by
  rcases flow.finFlight fin with full | empty
  · unfold Tcb.dataSent Tcb.flight at *
    rw [if_pos fin]
    bv_omega
  · simp [empty]

/-- A round sends what is neither sent nor outside the buffer, and no FIN is sent before. -/
theorem Flow.nextSize (flow : Flow t) (more : t.nextSize ≠ 0) :
    t.finSent = false ∧ t.dataSent = t.flight ∧ t.flight + t.nextSize ≤ t.sbuf.length := by
  obtain ⟨unsent, _, _, size⟩ := nextSize_pos more
  have noFin : t.finSent = false := by
    by_contra fin
    have behind := flow.dataSent (by simpa using fin)
    omega
  have same : t.dataSent = t.flight := by simp [Tcb.dataSent, noFin]
  exact ⟨noFin, same, by omega⟩

theorem sendData_flight (flow : Flow t) (more : t.nextSize ≠ 0) :
    (sendData now t t.nextSize).flight = t.flight + t.nextSize := by
  obtain ⟨_, _, within⟩ := flow.nextSize more
  have bound := flow.full
  unfold tcpBuf at bound
  change (t.sndNxt + BitVec.ofNat 32 t.nextSize - t.sndUna).toNat = t.flight + t.nextSize
  unfold Tcb.flight at *
  bv_omega

theorem sends_not_opening {state : TcbState} (sends : state.sends = true) :
    state.opening = false := by
  cases state <;> simp_all [TcbState.sends, TcbState.opening]

theorem sendData_flow (flow : Flow t) (sends : t.state.sends = true) (more : t.nextSize ≠ 0) :
    Flow (sendData now t t.nextSize) where
  mss := flow.mss
  full := flow.full
  opening := by
    intro opening
    have closed : t.state.opening = true := opening
    simp [sends_not_opening sends] at closed
  finFlight := by
    intro fin
    have sent : t.finSent = true := fin
    simp [(flow.nextSize more).1] at sent
  finSent := flow.finSent

theorem finDue_iff :
    finDue t = true ↔ t.wantFin = true ∧ t.finSent = false ∧ t.flight = t.sbuf.length := by
  simp [finDue, and_assoc]

theorem sendFin_flight (flow : Flow t) (due : finDue t = true) :
    (sendFin now t).flight = t.sbuf.length + 1 := by
  have all := (finDue_iff.mp due).2.2
  have bound := flow.full
  unfold tcpBuf at bound
  change (t.sndNxt + 1 - t.sndUna).toNat = t.sbuf.length + 1
  unfold Tcb.flight at *
  bv_omega

def TcbState.finSent : TcbState → TcbState
  | .established => .finWait1
  | .closeWait => .lastAck
  | other => other

theorem sendFin_state (t : Tcb) : (sendFin now t).state = t.state.finSent := rfl

theorem sendFin_unclosed (sends : t.state.sends = true) :
    (sendFin now t).state.unclosed = false := by
  rw [sendFin_state]
  cases state : t.state <;> simp_all [TcbState.sends, TcbState.unclosed, TcbState.finSent]

theorem unclosed_not_opening {state : TcbState} (closed : state.unclosed = false) :
    state.opening = false := by
  cases state <;> simp_all [TcbState.unclosed, TcbState.opening]

theorem sendFin_flow (flow : Flow t) (sends : t.state.sends = true) (due : finDue t = true) :
    Flow (sendFin now t) where
  mss := flow.mss
  full := flow.full
  opening := by
    intro opening
    rw [unclosed_not_opening (sendFin_unclosed sends)] at opening
    cases opening
  finFlight := fun _ => .inl (sendFin_flight flow due)
  finSent := fun _ => sendFin_unclosed sends

theorem tcpOutput_flow (flow : Flow t) : Flow (tcpOutput now t) :=
  tcpOutput_invariant Flow flow (fun _ held sends more => sendData_flow held sends more)
    (fun _ held sends due => sendFin_flow held sends due)

theorem outputData_exits (flow : Flow t) (sends : t.state.sends = true) {fuel : Nat}
    (enough : t.sbuf.length ≤ t.flight + fuel ∨ t.nextSize = 0) :
    (outputData now fuel t).nextSize = 0 := by
  induction fuel generalizing t with
  | zero =>
    by_contra more
    rcases enough with sent | last
    · have within := (flow.nextSize more).2.2
      change t.nextSize ≠ 0 at more
      omega
    · exact more last
  | succ _ ih =>
    rw [outputData]
    by_cases last : t.nextSize = 0
    · rw [if_pos last]
      exact last
    · rw [if_neg last]
      refine ih (sendData_flow flow sends last) sends (.inl ?_)
      rw [sendData_flight flow last]
      change t.sbuf.length ≤ _
      rcases enough with sent | none
      · omega
      · exact absurd none last

theorem outputData_ended (now : Nat) (flow : Flow t) (sends : t.state.sends = true) :
    (outputData now t.sbuf.length t).nextSize = 0 :=
  outputData_exits flow sends (.inl (by omega))

section Acked
variable {ack : Seq}

theorem clampRto_le (rto : Nat) : clampRto hz rto ≤ ulong (hz * 60) := by
  unfold clampRto
  simp only
  by_cases low : rto < msTicks hz 200
  · rw [if_pos low]
    split <;> omega
  · rw [if_neg low]
    split <;> omega

/-- What an acknowledgement changes; the values of the timer's fields are left open. -/
theorem tcpAcked_eq (hz now : Nat) (t : Tcb) (new : ack ≠ t.sndUna) :
    ∃ timing rto srtt rttvar rttValid,
      tcpAcked hz now t ack = { t with
        sbuf := t.sbuf.drop (t.bytesAcked ack)
        sndUna := ack
        retries := 0
        rtxDue := if ack = t.sndNxt then 0 else ulong (now + rto)
        timing := timing
        rto := rto
        srtt := srtt
        rttvar := rttvar
        rttValid := rttValid } ∧ (rto = t.rto ∨ rto ≤ ulong (hz * 60)) := by
  unfold tcpAcked
  rw [if_neg new]
  by_cases timed : t.timing = true ∧ seqLe t.rttSeq ack = true
  · by_cases fresh : t.retries = 0
    · simp only [if_pos timed, if_pos fresh]
      exact ⟨_, _, _, _, _, rfl, .inr (clampRto_le _)⟩
    · simp only [if_pos timed, if_neg fresh]
      exact ⟨_, _, _, _, _, rfl, .inl rfl⟩
  · simp only [if_neg timed]
    exact ⟨_, _, _, _, _, rfl, .inl rfl⟩

theorem tcpAcked_sndUna (t : Tcb) : (tcpAcked hz now t ack).sndUna = ack := by
  by_cases new : ack = t.sndUna
  · simp [tcpAcked, new]
  · obtain ⟨_, _, _, _, _, same, _⟩ := tcpAcked_eq hz now t new
    rw [same]

theorem tcpAcked_state (t : Tcb) : (tcpAcked hz now t ack).state = t.state := by
  by_cases new : ack = t.sndUna
  · simp [tcpAcked, new]
  · obtain ⟨_, _, _, _, _, same, _⟩ := tcpAcked_eq hz now t new
    rw [same]

theorem ackValid_new (valid : ackValid t ack = true) : ack ≠ t.sndUna := by
  intro old
  rw [old] at valid
  simp [ackValid, seqLt] at valid

theorem bytesAcked_part (notOpening : t.state.opening = false) (below : ack ≠ t.sndNxt) :
    t.bytesAcked ack = min (ack - t.sndUna).toNat t.sbuf.length := by
  have established : ¬ (t.state = .synSent ∨ t.state = .synRcvd) := by
    rintro (state | state) <;> simp [state, TcbState.opening] at notOpening
  simp [Tcb.bytesAcked, established, below]

theorem bytesAcked_all (notOpening : t.state.opening = false) :
    t.bytesAcked t.sndNxt =
      min (if t.finSent then t.flight - 1 else t.flight) t.sbuf.length := by
  have established : ¬ (t.state = .synSent ∨ t.state = .synRcvd) := by
    rintro (state | state) <;> simp [state, TcbState.opening] at notOpening
  simp [Tcb.bytesAcked, established, Tcb.flight]

theorem flight_opening {t : Tcb} (una : t.sndUna = t.iss) (nxt : t.sndNxt = t.iss + 1) :
    t.flight = 1 := by
  unfold Tcb.flight
  bv_omega

theorem bytesAcked_opening (flow : Flow t) (opening : t.state.opening = true) :
    t.bytesAcked t.sndNxt = 0 := by
  obtain ⟨una, nxt⟩ := flow.opening opening
  have established : t.state = .synSent ∨ t.state = .synRcvd := by
    cases state : t.state <;> simp_all [TcbState.opening]
  have one := flight_opening una nxt
  unfold Tcb.flight at one
  simp [Tcb.bytesAcked, established, one]

/-- What is left in flight and in the buffer, once a FIN is sent. -/
theorem acked_finFlight (flow : Flow t) (notOpening : t.state.opening = false)
    (valid : ackValid t ack = true) (fin : t.finSent = true) :
    (t.sndNxt - ack).toNat = (t.sbuf.drop (t.bytesAcked ack)).length + 1 ∨
      t.sbuf.drop (t.bytesAcked ack) = [] := by
  have bound := flow.full
  unfold tcpBuf at bound
  rcases flow.finFlight fin with full | empty
  · obtain ⟨new, within⟩ := (ackValid_iff (by omega) (by omega) ack).mp valid
    by_cases all : ack = t.sndNxt
    · rw [all, bytesAcked_all notOpening, if_pos fin, full]
      simp
    · rw [bytesAcked_part notOpening all, List.length_drop]
      unfold Tcb.flight at *
      bv_omega
  · simp [empty]

theorem tcpAcked_flow (flow : Flow t) (notOpening : t.state.opening = false)
    (valid : ackValid t ack = true) : Flow (tcpAcked hz now t ack) := by
  by_cases new : ack = t.sndUna
  · simpa [tcpAcked, new] using flow
  · obtain ⟨_, _, _, _, _, same, _⟩ := tcpAcked_eq hz now t new
    rw [same]
    refine ⟨flow.mss, ?_, ?_, acked_finFlight flow notOpening valid, flow.finSent⟩
    · have bound := flow.full
      simp only [List.length_drop]
      omega
    · intro opening
      have early : t.state.opening = true := opening
      rw [notOpening] at early
      cases early

theorem established_flow (flow : Flow t) (opening : t.state.opening = true)
    (all : ack = t.sndNxt) : Flow { tcpAcked hz now t ack with state := .established } := by
  obtain ⟨una, nxt⟩ := flow.opening opening
  have new : ack ≠ t.sndUna := by
    bv_omega
  obtain ⟨_, _, _, _, _, same, _⟩ := tcpAcked_eq hz now t new
  have noBytes := bytesAcked_opening flow opening
  rw [← all] at noBytes
  have noFin : t.finSent = false := by
    by_contra fin
    have closed := flow.finSent (by simpa using fin)
    rw [unclosed_not_opening closed] at opening
    cases opening
  rw [same, noBytes]
  refine ⟨flow.mss, flow.full, ?_, ?_, ?_⟩
  · intro early
    cases early
  · intro fin
    have sent : t.finSent = true := fin
    rw [noFin] at sent
    cases sent
  · intro fin
    have sent : t.finSent = true := fin
    rw [noFin] at sent
    cases sent

theorem ackValid_opening (flow : Flow t) (opening : t.state.opening = true)
    (valid : ackValid t ack = true) : ack = t.sndNxt := by
  obtain ⟨una, nxt⟩ := flow.opening opening
  have one := flight_opening una nxt
  obtain ⟨new, within⟩ := (ackValid_iff (by omega) (by omega) ack).mp valid
  bv_omega

end Acked

section Input
variable {seg : Segment}

def reachesAck (t : Tcb) (seg : Segment) : Prop :=
  acceptable t seg = true ∧ seg.flags.rst = false ∧ seg.flags.syn = false ∧
    seg.flags.ack = true

instance (t : Tcb) (seg : Segment) : Decidable (reachesAck t seg) :=
  inferInstanceAs (Decidable (_ ∧ _))

/-- What a segment does to a block past SYN_SENT. -/
inductive Input (hz now : Nat) (t : Tcb) (seg : Segment) : Tcb → Prop where
  | dropped : Input hz now t seg t
  | answered (twDue : Nat) :
      Input hz now t seg { tcpSend t thAck t.sndNxt [] with twDue := twDue }
  | reset (sent : Tcb) (quiet : sent = t ∨ sent = tcpSend t thRst t.sndNxt []) :
      Input hz now t seg (tcpDied sent)
  | finished (acked : Tcb) (reaches : reachesAck t seg) (took : takeAck hz now t seg = some acked)
      (fin : finAcked acked = true) (last : acked.state = .lastAck) :
      Input hz now t seg (tcbFinish acked)
  | data (acked : Tcb) (reaches : reachesAck t seg) (took : takeAck hz now t seg = some acked)
      (goes : ¬ (finAcked acked = true ∧ acked.state = .lastAck)) :
      Input hz now t seg (inputData hz now (afterFin hz now acked) seg)

theorem inputSynchronized_cases (t : Tcb) (seg : Segment) :
    Input hz now t seg (inputSynchronized hz now t seg) := by
  unfold inputSynchronized
  by_cases lingers : t.state = .timeWait ∧ seg.flags.fin = true
  · rw [if_pos lingers]
    exact .answered _
  · rw [if_neg lingers]
    by_cases here : acceptable t seg = true
    · simp only [here, Bool.not_true, Bool.false_eq_true, if_false]
      by_cases rst : seg.flags.rst = true
      · rw [if_pos rst]
        exact .reset t (.inl rfl)
      · rw [if_neg rst]
        by_cases syn : seg.flags.syn = true
        · rw [if_pos syn]
          exact .reset _ (.inr rfl)
        · rw [if_neg syn]
          by_cases ack : seg.flags.ack = true
          · simp only [ack]
            have reaches : reachesAck t seg := ⟨here, by simpa using rst, by simpa using syn, ack⟩
            cases took : takeAck hz now t seg with
            | none => exact .dropped
            | some acked =>
              by_cases ends : finAcked acked = true ∧ acked.state = .lastAck
              · simp only [if_pos ends]
                exact .finished acked reaches took ends.1 ends.2
              · simp only [if_neg ends]
                exact .data acked reaches took ends
          · simp only [ack]
            exact .dropped
    · simp only [here]
      by_cases rst : seg.flags.rst = true
      · rw [if_pos rst]
        exact .dropped
      · rw [if_neg rst]
        exact .answered t.twDue

theorem takeAck_cases {acked : Tcb} (took : takeAck hz now t seg = some acked) :
    (t.state = .synRcvd ∧ ackValid t seg.ack = true ∧
      acked = { tcpAcked hz now t seg.ack with state := .established, sndWnd := seg.wnd }) ∨
    (t.state ≠ .synRcvd ∧ ackValid t seg.ack = true ∧
      acked = { tcpAcked hz now t seg.ack with sndWnd := seg.wnd }) ∨
    (t.state ≠ .synRcvd ∧ ackValid t seg.ack = false ∧ acked = { t with sndWnd := seg.wnd }) := by
  unfold takeAck at took
  by_cases early : t.state = .synRcvd
  · rw [if_pos early] at took
    by_cases valid : ackValid t seg.ack = true
    · rw [if_pos valid] at took
      exact .inl ⟨early, valid, (Option.some.inj took).symm⟩
    · rw [if_neg valid] at took
      cases took
  · rw [if_neg early] at took
    by_cases valid : ackValid t seg.ack = true
    · rw [if_pos valid] at took
      exact .inr (.inl ⟨early, valid, (Option.some.inj took).symm⟩)
    · rw [if_neg valid] at took
      exact .inr (.inr ⟨early, by simpa using valid, (Option.some.inj took).symm⟩)

def synchronized (t : Tcb) : Prop := t.state = .synRcvd ∨ t.state.opening = false

theorem Flow.window (flow : Flow t) (wnd : Nat) : Flow { t with sndWnd := wnd } :=
  ⟨flow.mss, flow.full, flow.opening, flow.finFlight, flow.finSent⟩

theorem Flow.died (flow : Flow t) : Flow (tcpDied t) :=
  ⟨flow.mss, flow.full, fun early => (by cases early), flow.finFlight, fun _ => rfl⟩

theorem Flow.finish (flow : Flow t) : Flow (tcbFinish t) := by
  unfold tcbFinish
  split
  · exact ⟨flow.mss, flow.full, fun early => (by cases early), flow.finFlight, fun _ => rfl⟩
  · exact ⟨flow.mss, flow.full, fun early => (by cases early), flow.finFlight, fun _ => rfl⟩

theorem Flow.send (flow : Flow t) (flags : Flags) (seq : Seq) (data : List Byte) :
    Flow (tcpSend t flags seq data) :=
  ⟨flow.mss, flow.full, flow.opening, flow.finFlight, flow.finSent⟩

theorem takeAck_flow (flow : Flow t) (past : synchronized t) {acked : Tcb}
    (took : takeAck hz now t seg = some acked) : Flow acked ∧ acked.state.opening = false := by
  rcases takeAck_cases took with ⟨early, valid, rfl⟩ | ⟨late, valid, rfl⟩ | ⟨late, _, rfl⟩
  · have opening : t.state.opening = true := by simp [early, TcbState.opening]
    have all := ackValid_opening flow opening valid
    exact ⟨(established_flow flow opening all).window seg.wnd, rfl⟩
  · have notOpening := past.resolve_left late
    have kept : (tcpAcked hz now t seg.ack).state = t.state := tcpAcked_state t
    exact ⟨(tcpAcked_flow flow notOpening valid).window seg.wnd, by rw [← notOpening, ← kept]⟩
  · exact ⟨flow.window seg.wnd, past.resolve_left late⟩

theorem afterFin_flow (hz now : Nat) (flow : Flow t) (notOpening : t.state.opening = false) :
    Flow (afterFin hz now t) ∧ (afterFin hz now t).state.opening = false := by
  unfold afterFin
  by_cases fin : finAcked t = true
  · rw [if_pos fin]
    split
    · exact ⟨⟨flow.mss, flow.full, fun early => (by cases early), flow.finFlight, fun _ => rfl⟩, rfl⟩
    · exact ⟨⟨flow.mss, flow.full, fun early => (by cases early), flow.finFlight, fun _ => rfl⟩, rfl⟩
    · exact ⟨flow, notOpening⟩
  · rw [if_neg fin]
    exact ⟨flow, notOpening⟩

theorem takePayload_flow (flow : Flow t) : Flow (takePayload t seg) := by
  unfold takePayload
  split
  · exact ⟨flow.mss, flow.full, flow.opening, flow.finFlight, flow.finSent⟩
  · exact flow

theorem takePayload_state : (takePayload t seg).state = t.state := by
  unfold takePayload
  split <;> rfl

theorem Flow.unclosed (flow : Flow t) (unclosed : t.state.unclosed = true) : t.finSent = false := by
  by_contra fin
  have closed := flow.finSent (by simpa using fin)
  rw [unclosed] at closed
  cases closed

theorem takeFin_flow (flow : Flow t) (notOpening : t.state.opening = false) :
    Flow (takeFin hz now t) := by
  have closes (state : TcbState) (due : Nat) (closed : state.unclosed = false ∨ t.finSent = false)
      (late : state.opening = false) : Flow { t with
        rcvNxt := t.rcvNxt + 1, finRcvd := true, state := state, twDue := due } := by
    refine ⟨flow.mss, flow.full, ?_, flow.finFlight, ?_⟩
    · intro early
      have opening : state.opening = true := early
      rw [late] at opening
      cases opening
    · intro fin
      rcases closed with closed | unsent
      · exact closed
      · have sent : t.finSent = true := fin
        rw [unsent] at sent
        cases sent
  unfold takeFin
  split
  · next state => exact closes _ _ (.inr (flow.unclosed (by rw [state]; rfl))) rfl
  · next state => exact closes _ _ (.inr (flow.unclosed (by rw [state]; rfl))) rfl
  · refine closes _ _ (.inl ?_) ?_ <;> split <;> rfl
  · exact closes _ _ (.inl rfl) rfl
  · refine closes t.state t.twDue ?_ notOpening
    by_cases fin : t.finSent = true
    · exact .inl (flow.finSent fin)
    · exact .inr (by simpa using fin)

def taken (hz now : Nat) (t : Tcb) (seg : Segment) : Tcb :=
  if finLeft t seg && seg.stop == (takePayload t seg).rcvNxt then
    takeFin hz now (takePayload t seg)
  else takePayload t seg

theorem inputData_cases (hz now : Nat) (t : Tcb) (seg : Segment) :
    (inputData hz now t seg =
        tcpDied (tcpSend (taken hz now t seg) thRst (taken hz now t seg).sndNxt []) ∧
      (taken hz now t seg).conv = false) ∨
    ¬ ((taken hz now t seg).conv = false ∧ 0 < seg.dlen) ∧
    ∃ sent, (sent = taken hz now t seg ∨
        sent = tcpSend (taken hz now t seg) thAck (taken hz now t seg).sndNxt []) ∧
      inputData hz now t seg = tcpOutput now sent := by
  have same : inputData hz now t seg =
      if !(taken hz now t seg).conv && seg.dlen > 0 then
        tcpDied (tcpSend (taken hz now t seg) thRst (taken hz now t seg).sndNxt [])
      else
        tcpOutput now
          (if takesPayload t seg ||
              (finLeft t seg && seg.stop == (takePayload t seg).rcvNxt) then
            tcpSend (taken hz now t seg) thAck (taken hz now t seg).sndNxt []
          else taken hz now t seg) := rfl
  rw [same]
  by_cases gone : (taken hz now t seg).conv = false ∧ 0 < seg.dlen
  · rw [if_pos (by simp [gone])]
    exact .inl ⟨rfl, gone.1⟩
  · rw [if_neg (by simpa using gone)]
    refine .inr ⟨gone, _, ?_, rfl⟩
    split
    · exact .inr rfl
    · exact .inl rfl

theorem takeAck_receiver {acked : Tcb} (took : takeAck hz now t seg = some acked) :
    acked.receiver = t.receiver := by
  rcases takeAck_cases took with ⟨_, _, rfl⟩ | ⟨_, _, rfl⟩ | ⟨_, _, rfl⟩
  · exact tcpAcked_receiver t seg.ack
  · exact tcpAcked_receiver t seg.ack
  · rfl

theorem afterFin_receiver : (afterFin hz now t).receiver = t.receiver := by
  unfold afterFin
  repeat' split
  all_goals rfl

theorem taken_conv : (taken hz now t seg).conv = t.conv := by
  unfold taken takeFin takePayload
  repeat' split
  all_goals rfl

theorem takePayload_rcvNxt (t : Tcb) (seg : Segment) :
    (takePayload t seg).rcvNxt =
      if takesPayload t seg ∧ skipped t seg < seg.dlen then
        t.rcvNxt + BitVec.ofNat 32 (kept t seg)
      else t.rcvNxt := by
  unfold takePayload
  split <;> rfl

/-- What is taken of a segment depends on the receiving fields and the state. -/
theorem payload_congr {first second : Tcb} (same : first.receiver = second.receiver)
    (state : first.state = second.state) (seg : Segment) :
    finLeft first seg = finLeft second seg ∧
      (takePayload first seg).rcvNxt = (takePayload second seg).rcvNxt := by
  have rcvNxt : first.rcvNxt = second.rcvNxt := congrArg Receiver.rcvNxt same
  have rlen : first.rlen = second.rlen := congrArg Receiver.rlen same
  rw [takePayload_rcvNxt, takePayload_rcvNxt]
  simp only [finLeft, takesPayload, skipped, kept, tcpRwnd, rcvNxt, rlen, state]
  trivial

theorem tcpOutput_sndUna : (tcpOutput now t).sndUna = t.sndUna :=
  tcpOutput_invariant (fun after => after.sndUna = t.sndUna) rfl
    (fun _ held _ _ => held) (fun _ held _ _ => held)

theorem taken_sender (hz now : Nat) (t : Tcb) (seg : Segment) :
    (taken hz now t seg).sbuf = t.sbuf ∧ (taken hz now t seg).sndUna = t.sndUna ∧
      (taken hz now t seg).sndNxt = t.sndNxt ∧ (taken hz now t seg).finSent = t.finSent := by
  unfold taken takeFin takePayload
  repeat' split
  all_goals exact ⟨rfl, rfl, rfl, rfl⟩

theorem inputData_sndUna (t : Tcb) (seg : Segment) :
    (inputData hz now t seg).sndUna = t.sndUna := by
  have una := (taken_sender hz now t seg).2.1
  rcases inputData_cases hz now t seg with
    ⟨died, _⟩ | ⟨_, sent, which, output⟩
  · rw [died]
    exact una
  · rw [output, tcpOutput_sndUna]
    rcases which with rfl | rfl
    · exact una
    · exact una

theorem tcbFinish_state (t : Tcb) : (tcbFinish t).state = .closed := by
  unfold tcbFinish
  split <;> rfl

theorem tcbFinish_reset (t : Tcb) : (tcbFinish t).reset = t.reset := by
  unfold tcbFinish
  split <;> rfl

theorem tcbFinish_sndUna (t : Tcb) : (tcbFinish t).sndUna = t.sndUna := by
  unfold tcbFinish
  split <;> rfl

theorem taken_flow (flow : Flow t) (notOpening : t.state.opening = false) :
    Flow (taken hz now t seg) := by
  unfold taken
  split
  · exact takeFin_flow (takePayload_flow flow) (by rw [takePayload_state]; exact notOpening)
  · exact takePayload_flow flow

theorem inputData_flow (flow : Flow t) (notOpening : t.state.opening = false) :
    Flow (inputData hz now t seg) := by
  have kept : Flow (taken hz now t seg) := taken_flow flow notOpening
  rcases inputData_cases hz now t seg with
    ⟨died, _⟩ | ⟨_, sent, which, output⟩
  · rw [died]
    exact (kept.send _ _ _).died
  · rw [output]
    rcases which with rfl | rfl
    · exact tcpOutput_flow kept
    · exact tcpOutput_flow (kept.send _ _ _)

theorem Input.flow {after : Tcb} (outcome : Input hz now t seg after) (flow : Flow t)
    (past : synchronized t) : Flow after := by
  cases outcome with
  | dropped => exact flow
  | answered => exact ⟨flow.mss, flow.full, flow.opening, flow.finFlight, flow.finSent⟩
  | reset _ quiet =>
    rcases quiet with rfl | rfl
    · exact flow.died
    · exact (flow.send _ _ _).died
  | finished _ _ took => exact (takeAck_flow flow past took).1.finish
  | data _ _ took =>
    obtain ⟨kept, notOpening⟩ := takeAck_flow flow past took
    obtain ⟨kept, notOpening⟩ := afterFin_flow hz now kept notOpening
    exact inputData_flow kept notOpening

def offered (t : Tcb) (seg : Segment) : Tcb :=
  { t with rcvNxt := seg.seq + 1, sndWnd := seg.wnd, mss := offerMss t seg.peerMss }

/-- What a segment does to a block in SYN_SENT. -/
inductive Opening (hz now : Nat) (t : Tcb) (seg : Segment) : Tcb → Prop where
  | dropped : Opening hz now t seg t
  | refused : Opening hz now t seg (tcpDied t)
  | opened (syn : seg.flags.syn = true) (ack : seg.flags.ack = true)
      (fits : ¬ (seqLe seg.ack t.iss = true ∨ seqLt t.sndNxt seg.ack = true)) :
      Opening hz now t seg
        (tcpOutput now (tcpSend
          { tcpAcked hz now (offered t seg) seg.ack with state := .established } thAck
          ({ tcpAcked hz now (offered t seg) seg.ack with state := .established } : Tcb).sndNxt []))
  | crossed (syn : seg.flags.syn = true) :
      Opening hz now t seg
        (tcpSend { offered t seg with state := .synRcvd } thSynAck t.iss [])

theorem inputSynSent_cases (t : Tcb) (seg : Segment) :
    Opening hz now t seg (inputSynSent hz now t seg) := by
  unfold inputSynSent
  by_cases wrong : seg.flags.ack = true ∧ (seqLe seg.ack t.iss = true ∨
      seqLt t.sndNxt seg.ack = true)
  · rw [if_pos wrong]
    exact .dropped
  · rw [if_neg wrong]
    by_cases rst : seg.flags.rst = true
    · rw [if_pos rst]
      split
      · exact .refused
      · exact .dropped
    · rw [if_neg rst]
      by_cases syn : seg.flags.syn = true
      · simp only [syn]
        by_cases ack : seg.flags.ack = true
        · simp only [if_pos ack]
          exact .opened syn ack fun outside => wrong ⟨ack, outside⟩
        · simp only [if_neg ack]
          exact .crossed syn
      · simp only [syn]
        exact .dropped

theorem offerMss_pos (mss : 0 < t.mss) (peerMss : Nat) : 0 < offerMss t peerMss := by
  unfold offerMss tcpMss
  split <;> omega

theorem offered_flow (flow : Flow t) : Flow (offered t seg) :=
  ⟨offerMss_pos flow.mss _, flow.full, flow.opening, flow.finFlight, flow.finSent⟩

theorem opened_ack (flow : Flow t) (opening : t.state.opening = true) {ack : Seq}
    (fits : ¬ (seqLe ack t.iss = true ∨ seqLt t.sndNxt ack = true)) : ack = t.sndNxt := by
  obtain ⟨_, nxt⟩ := flow.opening opening
  simp only [seqLe_iff, seqLt_iff] at fits
  bv_omega

theorem Opening.flow {after : Tcb} (outcome : Opening hz now t seg after) (flow : Flow t)
    (opening : t.state.opening = true) : Flow after := by
  have begun : Flow (offered t seg) := offered_flow flow
  cases outcome with
  | dropped => exact flow
  | refused => exact flow.died
  | opened _ _ fits =>
    have all := opened_ack flow opening fits
    exact tcpOutput_flow ((established_flow begun opening all).send _ _ _)
  | crossed =>
    refine ⟨begun.mss, begun.full, fun _ => flow.opening opening, begun.finFlight, ?_⟩
    intro fin
    have sent : t.finSent = true := fin
    rw [flow.unclosed (by cases state : t.state <;> simp_all [TcbState.opening, TcbState.unclosed])]
      at sent
    cases sent

theorem tcpInput_flow (flow : Flow t) : Flow (tcpInput hz now t seg) := by
  unfold tcpInput
  cases state : t.state with
  | closed => exact flow
  | listen => exact flow
  | synSent => exact (inputSynSent_cases t seg).flow flow (by rw [state]; rfl)
  | synRcvd => exact (inputSynchronized_cases t seg).flow flow (.inl state)
  | _ => exact (inputSynchronized_cases t seg).flow flow (.inr (by rw [state]; rfl))

end Input

def rolledBack (t : Tcb) : Tcb :=
  { t with
    sndNxt := t.sndUna, finSent := false, sndWnd := if t.sndWnd = 0 then 1 else t.sndWnd }

theorem rolledBack_flow (flow : Flow t) (notOpening : t.state.opening = false) :
    Flow (rolledBack t) where
  mss := flow.mss
  full := flow.full
  opening := by
    intro early
    have opening : t.state.opening = true := early
    rw [notOpening] at opening
    cases opening
  finFlight := by
    intro fin
    cases fin
  finSent := by
    intro fin
    cases fin

theorem goBack_flow (flow : Flow t) (notOpening : t.state.opening = false) : Flow (goBack now t) :=
  (tcpOutput_flow (rolledBack_flow flow notOpening)).window t.sndWnd

/-- What the timer does to a block that waits for an acknowledgement. -/
inductive Expired (hz now : Nat) (t : Tcb) : Tcb → Prop where
  | waiting : Expired hz now t t
  | gaveUp (tried : Tcb) (quiet : tried = { t with retries := t.retries + 1 } ∨
      tried = tcpSend { t with retries := t.retries + 1 } thRst t.sndNxt []) :
      Expired hz now t (tcpDied tried)
  | retried (due : t.rtxDue ≠ 0) (tried : Tcb)
      (same : tried = { t with
        retries := t.retries + 1, rto := backOff hz t.rto, timing := false }) :
      Expired hz now t
        { retransmit now tried with rtxDue := ulong (now + (retransmit now tried).rto) }

/-- What `tcp_timers` does, by the state of the block. -/
theorem tcpTimers_cases (hz now : Nat) (t : Tcb) :
    (t.state = .timeWait ∧ (tcpTimers hz now t = tcbFinish t ∨ tcpTimers hz now t = t)) ∨
    (t.state = .closed ∧
      (tcpTimers hz now t = t ∨
        (tcpTimers hz now t = tcbFree t ∧ (t.conv = true → t.rlen = 0)))) ∨
    (t.state ≠ .timeWait ∧ t.state ≠ .closed ∧ Expired hz now t (tcpTimers hz now t)) := by
  have expired : Expired hz now t
      (if t.rtxDue = 0 ∨ now < t.rtxDue then t
      else
        let tried := { t with retries := t.retries + 1 }
        if tried.retries > tcpMaxRetries then
          tcpDied (if t.state = .synSent then tried else tcpSend tried thRst t.sndNxt [])
        else
          let sent := retransmit now
            { tried with rto := backOff hz t.rto, timing := false }
          { sent with rtxDue := ulong (now + sent.rto) }) := by
    by_cases waits : t.rtxDue = 0 ∨ now < t.rtxDue
    · rw [if_pos waits]
      exact .waiting
    · rw [if_neg waits]
      by_cases enough : t.retries + 1 > tcpMaxRetries
      · rw [if_pos enough]
        refine .gaveUp _ ?_
        split
        · exact .inl rfl
        · exact .inr rfl
      · rw [if_neg enough]
        exact .retried (fun off => waits (.inl off)) _ rfl
  unfold tcpTimers
  cases state : t.state with
  | timeWait =>
    refine .inl ⟨rfl, ?_⟩
    simp only
    split
    · exact .inl rfl
    · exact .inr rfl
  | closed =>
    refine .inr (.inl ⟨rfl, ?_⟩)
    by_cases gone : (!t.conv) = true ∨ t.rlen = 0
    · rw [if_pos gone]
      refine .inr ⟨rfl, fun kept => gone.resolve_left ?_⟩
      simp [kept]
    · rw [if_neg gone]
      exact .inl rfl
  | _ =>
    refine .inr (.inr ⟨by simp, by simp, ?_⟩)
    simp only [state] at expired
    exact expired

theorem Flow.timed (flow : Flow t) (retries rto : Nat) (timing : Bool) :
    Flow { t with retries := retries, rto := rto, timing := timing } :=
  ⟨flow.mss, flow.full, flow.opening, flow.finFlight, flow.finSent⟩

theorem retransmit_flow (flow : Flow t) : Flow (retransmit now t) := by
  unfold retransmit
  cases state : t.state with
  | synSent => exact flow.send _ _ _
  | synRcvd => exact flow.send _ _ _
  | _ => exact goBack_flow flow (by rw [state]; rfl)

theorem Expired.flow {after : Tcb} (outcome : Expired hz now t after) (flow : Flow t) :
    Flow after := by
  cases outcome with
  | waiting => exact flow
  | gaveUp _ quiet =>
    rcases quiet with rfl | rfl
    · exact (flow.timed _ t.rto t.timing).died
    · exact ((flow.timed _ t.rto t.timing).send _ _ _).died
  | retried _ _ same =>
    subst same
    have sent : Flow (retransmit now { t with
      retries := t.retries + 1, rto := backOff hz t.rto, timing := false }) :=
      retransmit_flow (flow.timed _ _ _)
    exact ⟨sent.mss, sent.full, sent.opening, sent.finFlight, sent.finSent⟩

theorem tcbFree_flow (flow : Flow t) : Flow (tcbFree t) :=
  ⟨flow.mss, flow.full, flow.opening, flow.finFlight, flow.finSent⟩

theorem tcpTimers_flow (flow : Flow t) : Flow (tcpTimers hz now t) := by
  rcases tcpTimers_cases hz now t with
    ⟨_, done | same⟩ | ⟨_, same | ⟨freed, _⟩⟩ | ⟨_, _, expired⟩
  · rw [done]
    exact flow.finish
  · rw [same]
    exact flow
  · rw [same]
    exact flow
  · rw [freed]
    exact tcbFree_flow flow
  · exact expired.flow flow

/-- What `tcp_write` does. -/
theorem tcpWrite_cases (now : Nat) (t : Tcb) (data : List Byte) :
    ((tcpWrite now t data).2 = t ∧ (tcpWrite now t data).1 = -1) ∨
    (t.state.writes = true ∧ t.wantFin = false ∧
      (tcpWrite now t data).1 = (min data.length (tcpBuf - t.sbuf.length) : Nat) ∧
      (tcpWrite now t data).2 = tcpOutput now
        { t with sbuf := t.sbuf ++ data.take (min data.length (tcpBuf - t.sbuf.length)) }) := by
  unfold tcpWrite
  by_cases used : t.used = true
  · simp only [used, Bool.not_true, Bool.false_eq_true, if_false]
    by_cases refused : t.reset = true ∨ t.wantFin = true
    · rw [if_pos refused]
      exact .inl ⟨rfl, rfl⟩
    · rw [if_neg refused]
      by_cases writes : t.state.writes = true
      · simp only [writes]
        exact .inr ⟨trivial, by simpa using fun wanted => refused (.inr wanted), rfl, rfl⟩
      · simp only [writes, Bool.not_false, if_true]
        exact .inl ⟨trivial, trivial⟩
  · simp only [used, Bool.not_false, if_true]
    exact .inl ⟨trivial, trivial⟩

theorem writes_unclosed {state : TcbState} (writes : state.writes = true) :
    state.unclosed = true := by
  cases state <;> simp_all [TcbState.writes, TcbState.unclosed]

theorem buffered_flow (flow : Flow t) (writes : t.state.writes = true) (data : List Byte) :
    Flow { t with sbuf := t.sbuf ++ data.take (min data.length (tcpBuf - t.sbuf.length)) } where
  mss := flow.mss
  full := by
    have bound := flow.full
    simp only [List.length_append, List.length_take]
    omega
  opening := flow.opening
  finFlight := by
    intro fin
    have sent : t.finSent = true := fin
    rw [flow.unclosed (writes_unclosed writes)] at sent
    cases sent
  finSent := flow.finSent

theorem tcpWrite_flow (flow : Flow t) (data : List Byte) : Flow (tcpWrite now t data).2 := by
  rcases tcpWrite_cases now t data with ⟨same, _⟩ | ⟨writes, _, _, output⟩
  · rw [same]
    exact flow
  · rw [output]
    exact tcpOutput_flow (buffered_flow flow writes data)

/-- The block after `count` bytes are read. -/
def readOut (t : Tcb) (count : Nat) : Tcb :=
  { t with rhead := (t.rhead + count) % tcpBuf, rlen := t.rlen - count }

/-- What `tcp_read` returns and does to the block. -/
inductive Reading (t : Tcb) (max : Nat) : Int × List Byte × Tcb → Prop where
  | gone (value : Int) (unused : t.used = false)
      (ended : value = 0 → t.convState = .closed) : Reading t max (value, [], t)
  | empty (value : Int) (used : t.used = true) (drained : t.rlen = 0)
      (ended : value = 0 → t.finRcvd = true) : Reading t max (value, [], t)
  | freed (used : t.used = true) (drained : t.rlen = 0) (closed : t.state = .closed) :
      Reading t max (0, [], tcbFree t)
  | bytes (used : t.used = true) (filled : t.rlen ≠ 0) (read : Tcb)
      (which : read = readOut t (min t.rlen max) ∨
        read = tcpSend (readOut t (min t.rlen max)) thAck t.sndNxt []) :
      Reading t max
        ((min t.rlen max : Nat), Ring.read tcpBuf t.rbuf t.rhead (min t.rlen max), read)

theorem tcpRead_cases (t : Tcb) (max : Nat) : Reading t max (tcpRead t max) := by
  unfold tcpRead
  by_cases used : t.used = true
  · rw [if_neg (by simp [used])]
    by_cases drained : t.rlen = 0
    · rw [if_pos drained]
      by_cases reset : t.reset = true
      · rw [if_pos reset]
        exact .empty _ used drained fun zero => (by cases zero)
      · rw [if_neg reset]
        by_cases closed : t.state = .closed
        · rw [if_pos closed]
          exact .freed used drained closed
        · rw [if_neg closed]
          by_cases fin : t.finRcvd = true
          · rw [if_pos fin]
            exact .empty _ used drained fun _ => fin
          · rw [if_neg fin]
            exact .empty _ used drained fun zero => (by cases zero)
    · simp only [if_neg drained]
      refine .bytes used drained _ ?_
      split
      · exact .inr rfl
      · exact .inl rfl
  · simp only [Bool.not_eq_true] at used
    simp only [used]
    refine .gone _ used fun zero => ?_
    by_contra other
    rw [if_neg other] at zero
    cases zero

theorem tcpRead_flow (flow : Flow t) (max : Nat) : Flow (tcpRead t max).2.2 := by
  have outcome := tcpRead_cases t max
  generalize tcpRead t max = result at outcome
  cases outcome with
  | gone => exact flow
  | empty => exact flow
  | freed => exact tcbFree_flow flow
  | bytes _ _ _ which =>
    rcases which with rfl | rfl
    · exact ⟨flow.mss, flow.full, flow.opening, flow.finFlight, flow.finSent⟩
    · exact ⟨flow.mss, flow.full, flow.opening, flow.finFlight, flow.finSent⟩

theorem Flow.closing (flow : Flow t) (conv wantFin : Bool) :
    Flow { t with conv := conv, wantFin := wantFin } :=
  ⟨flow.mss, flow.full, flow.opening, flow.finFlight, flow.finSent⟩

theorem hangup_cases (now : Nat) (t : Tcb) :
    hangup now t = { t with conv := false } ∨
    hangup now t = tcbFree { t with conv := false, state := .closed } ∨
    hangup now t = tcpOutput now { t with conv := false, wantFin := true } := by
  unfold hangup tcpAbort
  by_cases used : t.used = true
  · rw [if_pos used]
    cases t.state with
    | listen => exact .inr (.inl rfl)
    | synSent => exact .inr (.inl rfl)
    | synRcvd => exact .inr (.inr rfl)
    | established => exact .inr (.inr rfl)
    | closeWait => exact .inr (.inr rfl)
    | _ => exact .inl rfl
  · rw [if_neg used]
    exact .inl rfl

theorem hangup_flow (flow : Flow t) : Flow (hangup now t) := by
  rcases hangup_cases now t with alone | stopped | closes
  · rw [alone]
    exact flow.closing false t.wantFin
  · rw [stopped]
    exact ⟨flow.mss, flow.full, fun early => (by cases early), flow.finFlight, fun _ => rfl⟩
  · rw [closes]
    exact tcpOutput_flow (flow.closing false true)

theorem tcpShutdown_flow (flow : Flow t) : Flow (tcpShutdown now t) := by
  unfold tcpShutdown
  split
  · exact tcpOutput_flow (flow.closing t.conv true)
  · exact flow

theorem Born.flow {c : Connection} (born : Born hz c) : Flow c.tcb := by
  cases born with
  | connect =>
    exact ⟨Nat.succ_pos _, Nat.zero_le _, fun _ => ⟨rfl, rfl⟩, fun fin => (by cases fin),
      fun fin => (by cases fin)⟩
  | listen =>
    exact ⟨Nat.succ_pos _, Nat.zero_le _, fun early => (by cases early),
      fun fin => (by cases fin), fun fin => (by cases fin)⟩
  | accept _ rbuf _ seg =>
    have mss : 0 < offerMss (tcbAlloc hz rbuf) seg.peerMss :=
      offerMss_pos (t := tcbAlloc hz rbuf) (Nat.succ_pos _) _
    exact ⟨mss, Nat.zero_le _, fun _ => ⟨rfl, rfl⟩, fun fin => (by cases fin),
      fun fin => (by cases fin)⟩

theorem step_flow {c after : Connection} {action : Action} (flow : Flow c.tcb)
    (stepped : step hz c action = some after) : Flow after.tcb := by
  obtain ⟨now, event⟩ := action
  cases step_cases stepped with
  | write data =>
    exact tcpWrite_flow flow data
  | read max =>
    exact tcpRead_flow flow max
  | shutdown =>
    exact tcpShutdown_flow flow
  | hangup =>
    exact hangup_flow flow
  | segment =>
    exact tcpInput_flow flow
  | timers =>
    exact tcpTimers_flow flow

end Racccoon.Tcp
