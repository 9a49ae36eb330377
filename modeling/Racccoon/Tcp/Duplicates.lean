import Racccoon.Tcp.Sender

/-!
Segments that bring again what was received before. Such a segment is answered because it
is out of place, because its data is taken in, or because the block has something of its
own to send; a lone FIN that has been taken already may be left without an answer.
-/

namespace Racccoon.Tcp

open Run

/-- ESTABLISHED and later. -/
def TcbState.late : TcbState → Bool
  | .closed | .listen | .synSent | .synRcvd => false
  | _ => true

variable (t : Tcb) (seg : Segment)

def carriesReceived : Prop :=
  seqLt seg.seq t.rcvNxt = true ∧ (0 < seg.dlen ∨ seg.flags.fin = true)

instance : Decidable (carriesReceived t seg) :=
  inferInstanceAs (Decidable (_ ∧ _))

def Answered (before after : Tcb) : Prop :=
  ∃ more, after.segsOut = before.segsOut ++ more ∧
    ∃ sent ∈ more, sent.flags.ack = true ∧ sent.ack = after.rcvNxt

def unacked : Seq := if ackValid t seg.ack then seg.ack else t.sndUna

def buffered : Nat :=
  if ackValid t seg.ack then t.sbuf.length - t.bytesAcked seg.ack else t.sbuf.length

def inFlight : Nat := (t.sndNxt - unacked t seg).toNat

def hasOwnWork : Prop :=
  t.state.sends = true ∧ t.finSent = false ∧
    (inFlight t seg < buffered t seg ∧ inFlight t seg < seg.wnd ∨
      inFlight t seg = buffered t seg ∧ t.wantFin = true)

def getsAnswer : Prop :=
  t.state = .timeWait ∧ seg.flags.fin = true ∨ acceptable t seg = false ∨
    takesPayload t seg = true ∨ hasOwnWork t seg

variable {hz now : Nat} {t : Tcb} {seg : Segment}

/-- `more` has been sent, each segment acknowledging all that was received. -/
structure Extends (before after : Tcb) (more : List Sent) : Prop where
  rcvNxt : after.rcvNxt = before.rcvNxt
  sent : after.segsOut = before.segsOut ++ more
  acks : ∀ sent ∈ more, sent.flags.ack = true ∧ sent.ack = before.rcvNxt

theorem Extends.refl (t : Tcb) : Extends t t [] :=
  ⟨rfl, (List.append_nil _).symm, fun _ none => absurd none List.not_mem_nil⟩

theorem Extends.trans {before middle after : Tcb} {first second : List Sent}
    (one : Extends before middle first) (two : Extends middle after second) :
    Extends before after (first ++ second) := by
  refine ⟨two.rcvNxt.trans one.rcvNxt, ?_, ?_⟩
  · rw [two.sent, one.sent, List.append_assoc]
  · intro sent member
    rcases List.mem_append.mp member with early | late
    · exact one.acks sent early
    · rw [← one.rcvNxt]
      exact two.acks sent late

theorem Extends.answered {before after : Tcb} {more : List Sent}
    (extended : Extends before after more) : Answered before after ↔ more ≠ [] := by
  constructor
  · rintro ⟨other, same, sent, member, _⟩ rfl
    rw [extended.sent] at same
    rw [← List.append_cancel_left same] at member
    cases member
  · intro filled
    obtain ⟨sent, member⟩ := List.exists_mem_of_ne_nil more filled
    obtain ⟨flag, ack⟩ := extended.acks sent member
    exact ⟨more, extended.sent, sent, member, flag, ack.trans extended.rcvNxt.symm⟩

theorem sendData_extends (t : Tcb) (size : Nat) :
    ∃ sent, Extends t (sendData now t size) [sent] := by
  refine ⟨_, rfl, rfl, ?_⟩
  intro sent member
  rw [List.mem_singleton.mp member]
  exact ⟨rfl, rfl⟩

theorem sendFin_extends (t : Tcb) : ∃ sent, Extends t (sendFin now t) [sent] := by
  refine ⟨_, rfl, rfl, ?_⟩
  intro sent member
  rw [List.mem_singleton.mp member]
  exact ⟨rfl, rfl⟩

theorem outputData_extends (fuel : Nat) (t : Tcb) :
    ∃ more, Extends t (outputData now fuel t) more := by
  induction fuel generalizing t with
  | zero => exact ⟨[], .refl t⟩
  | succ _ ih =>
    rw [outputData]
    by_cases last : t.nextSize = 0
    · rw [if_pos last]
      exact ⟨[], .refl t⟩
    · rw [if_neg last]
      obtain ⟨sent, first⟩ := @sendData_extends now t t.nextSize
      obtain ⟨more, rest⟩ := ih (sendData now t t.nextSize)
      exact ⟨[sent] ++ more, first.trans rest⟩

/-- What `tcp_output` has to send when it is called. -/
def Tcb.Speaks (t : Tcb) : Prop :=
  t.state.sends = true ∧ t.finSent = false ∧
    (t.flight < t.sbuf.length ∧ t.flight < t.sndWnd ∨
      t.flight = t.sbuf.length ∧ t.wantFin = true)

theorem nextSize_iff (flow : Flow t) :
    t.nextSize ≠ 0 ↔ t.finSent = false ∧ t.flight < t.sbuf.length ∧ t.flight < t.sndWnd := by
  constructor
  · intro more
    obtain ⟨noFin, behind, _⟩ := flow.nextSize more
    obtain ⟨unsent, window, _⟩ := nextSize_pos more
    exact ⟨noFin, behind ▸ unsent, window⟩
  · rintro ⟨noFin, unsent, window⟩
    have mss := flow.mss
    have behind : t.dataSent = t.flight := by simp [Tcb.dataSent, noFin]
    rw [Tcb.nextSize, if_neg (by omega), if_neg (by omega)]
    omega

theorem tcpOutput_extends (flow : Flow t) :
    ∃ more, Extends t (tcpOutput now t) more ∧ (more ≠ [] ↔ t.Speaks) := by
  have finish : ∀ (first : List Sent) (middle : Tcb), Extends t middle first →
      (first ≠ [] ∨ finDue middle = true ↔ t.Speaks) →
      ∃ more, Extends t (if finDue middle then sendFin now middle else middle) more ∧
        (more ≠ [] ↔ t.Speaks) := by
    intro first middle extended speaks
    by_cases due : finDue middle = true
    · rw [if_pos due]
      obtain ⟨sent, last⟩ := @sendFin_extends now middle
      exact ⟨first ++ [sent], extended.trans last,
        fun _ => speaks.mp (.inr due), fun _ => by simp⟩
    · rw [if_neg due]
      exact ⟨first, extended, by simpa [due] using speaks⟩
  unfold tcpOutput
  by_cases sends : t.state.sends = true
  · rw [if_pos sends]
    by_cases last : t.nextSize = 0
    · have still : outputData now t.sbuf.length t = t := by
        cases t.sbuf.length with
        | zero => rfl
        | succ => rw [outputData, if_pos last]
      have shut : ¬ (t.finSent = false ∧ t.flight < t.sbuf.length ∧ t.flight < t.sndWnd) :=
        fun room => (nextSize_iff flow).mpr room last
      rw [still]
      apply finish [] t (.refl t)
      simp only [finDue, Tcb.Speaks, Bool.and_eq_true, Bool.not_eq_true', beq_iff_eq]
      tauto
    · obtain ⟨noFin, unsent, window⟩ := (nextSize_iff flow).mp last
      obtain ⟨fuel, size⟩ : ∃ fuel, t.sbuf.length = fuel + 1 :=
        ⟨t.sbuf.length - 1, by omega⟩
      rw [size, outputData, if_neg last]
      obtain ⟨sent, first⟩ := @sendData_extends now t t.nextSize
      obtain ⟨more, rest⟩ := @outputData_extends now fuel (sendData now t t.nextSize)
      apply finish _ _ (first.trans rest)
      exact ⟨fun _ => ⟨sends, noFin, .inl ⟨unsent, window⟩⟩, fun _ => .inl (by simp)⟩
  · rw [if_neg sends]
    exact ⟨[], .refl t, fun none => absurd rfl none, fun speaks => absurd speaks.1 sends⟩

theorem late_past (late : t.state.late = true) : synchronized t := by
  right
  cases state : t.state with
  | synSent =>
    rw [state] at late
    cases late
  | synRcvd =>
    rw [state] at late
    cases late
  | _ => rfl

theorem late_input (late : t.state.late = true) :
    tcpInput hz now t seg = inputSynchronized hz now t seg := by
  unfold tcpInput
  cases state : t.state with
  | closed | listen | synSent =>
    rw [state] at late
    cases late
  | _ => rfl

/-- The block once the acknowledgement of a segment is taken in, field by field. -/
theorem takeAck_fields (late : t.state.late = true) :
    ∃ acked, takeAck hz now t seg = some acked ∧ acked.state = t.state ∧
      acked.receiver = t.receiver ∧ acked.segsOut = t.segsOut ∧ acked.finSent = t.finSent ∧
      acked.wantFin = t.wantFin ∧ acked.flight = inFlight t seg ∧
      acked.sbuf.length = buffered t seg ∧ acked.sndWnd = seg.wnd := by
  have opened : t.state ≠ .synRcvd := by
    intro early
    rw [early] at late
    cases late
  rw [takeAck, if_neg opened]
  by_cases valid : ackValid t seg.ack = true
  · obtain ⟨_, _, _, _, _, eq, _⟩ := tcpAcked_eq hz now t (ackValid_new valid)
    refine ⟨{ tcpAcked hz now t seg.ack with sndWnd := seg.wnd }, by rw [if_pos valid], ?_⟩
    rw [eq]
    refine ⟨rfl, rfl, rfl, rfl, rfl, ?_, ?_, rfl⟩
    · simp [Tcb.flight, inFlight, unacked, valid]
    · simp [buffered, valid]
  · refine ⟨{ t with sndWnd := seg.wnd }, by rw [if_neg valid], rfl, rfl, rfl, rfl, rfl, ?_, ?_, rfl⟩
    · simp [Tcb.flight, inFlight, unacked, valid]
    · simp [buffered, valid]

theorem afterFin_early (early : t.finSent = false) : afterFin hz now t = t := by
  rw [afterFin, finAcked, early]
  rfl

theorem afterFin_fields : (afterFin hz now t).segsOut = t.segsOut ∧
    (afterFin hz now t).finSent = t.finSent ∧
    (afterFin hz now t).state.receives = t.state.receives := by
  unfold afterFin
  split
  · split <;> simp_all [TcbState.receives]
  · exact ⟨rfl, rfl, rfl⟩

theorem duplicate_no_fin (dup : carriesReceived t seg) (here : acceptable t seg = true) :
    (seg.stop == t.rcvNxt) = false := by
  rw [beq_eq_false_iff_ne]
  intro stops
  have older : seg.seq ≠ t.rcvNxt := by
    intro same
    have below := dup.1
    rw [same, seqLt_iff] at below
    simp at below
  by_cases empty : seg.dlen = 0
  · rw [Segment.stop, empty] at stops
    simp at stops
    exact older stops
  · simp only [acceptable, inWindow, beq_eq_false_iff_ne.mpr older, Bool.false_or,
      Bool.or_eq_true, Bool.and_eq_true, beq_iff_eq, empty, false_and, or_false] at here
    have beyond := here.2
    rw [stops, seqLt_iff] at beyond
    simp at beyond

theorem tcbFinish_segsOut (t : Tcb) : (tcbFinish t).segsOut = t.segsOut := by
  unfold tcbFinish
  split <;> rfl

theorem tcbFinish_rcvNxt (t : Tcb) : (tcbFinish t).rcvNxt = t.rcvNxt := by
  unfold tcbFinish
  split <;> rfl

theorem taken_segsOut (hz now : Nat) (t : Tcb) (seg : Segment) :
    (taken hz now t seg).segsOut = t.segsOut := by
  unfold taken takeFin takePayload
  repeat' split
  all_goals rfl

/-- What the acknowledged block does with a duplicate: it answers when it takes data in, and
otherwise sends what it has of its own. -/
theorem inputData_answers (flow : Flow t) (notOpening : t.state.opening = false)
    (attached : t.conv = true) (stops : (seg.stop == t.rcvNxt) = false) :
    Answered t (inputData hz now t seg) ↔ takesPayload t seg = true ∨ t.Speaks := by
  have conv : (taken hz now t seg).conv = true := taken_conv.trans attached
  by_cases takes : takesPayload t seg = true
  · have same : inputData hz now t seg =
        tcpOutput now (tcpSend (taken hz now t seg) thAck (taken hz now t seg).sndNxt []) := by
      change (if !(taken hz now t seg).conv && seg.dlen > 0 then _ else tcpOutput now
        (if takesPayload t seg || _ then _ else _)) = _
      rw [conv, takes]
      rfl
    have held : Flow (taken hz now t seg) := taken_flow flow notOpening
    obtain ⟨more, extended, _⟩ := @tcpOutput_extends now _
      (held.send thAck (taken hz now t seg).sndNxt [])
    refine ⟨fun _ => .inl takes, fun _ => ?_⟩
    let reply : Sent := ⟨thAck, (taken hz now t seg).sndNxt, (taken hz now t seg).rcvNxt,
      min (tcpRwnd (taken hz now t seg)) 65535, []⟩
    rw [same]
    refine ⟨reply :: more, ?_, reply, List.mem_cons_self, rfl, extended.rcvNxt.symm⟩
    rw [extended.sent, tcpSend, taken_segsOut, List.append_assoc]
    rfl
  · have idle : takesPayload t seg = false := by simpa using takes
    have filled : takePayload t seg = t := by
      rw [takePayload, if_neg fun both => takes both.1]
    have same : inputData hz now t seg = tcpOutput now t := by
      have whole : taken hz now t seg = t := by
        rw [taken, filled, stops, Bool.and_false]
        rfl
      change (if !(taken hz now t seg).conv && seg.dlen > 0 then _ else tcpOutput now
        (if takesPayload t seg || (finLeft t seg && seg.stop == (takePayload t seg).rcvNxt) then _
          else taken hz now t seg)) = _
      rw [whole, attached, idle, filled, stops, Bool.and_false]
      rfl
    obtain ⟨more, extended, speaks⟩ := @tcpOutput_extends now t flow
    rw [same, extended.answered, speaks, idle]
    simp

/-- What is left to send after the acknowledgement, seen from before it. -/
theorem speaks_iff {acked : Tcb} (state : acked.state = t.state)
    (finSent : acked.finSent = t.finSent) (wantFin : acked.wantFin = t.wantFin)
    (flight : acked.flight = inFlight t seg) (held : acked.sbuf.length = buffered t seg)
    (window : acked.sndWnd = seg.wnd) : (afterFin hz now acked).Speaks ↔ hasOwnWork t seg := by
  cases fin : acked.finSent with
  | true =>
    have behind : (afterFin hz now acked).finSent = true := afterFin_fields.2.1.trans fin
    constructor
    · intro speaks
      rw [speaks.2.1] at behind
      cases behind
    · intro work
      have early := finSent.trans work.2.1
      rw [fin] at early
      cases early
  | false =>
    rw [afterFin_early fin, Tcb.Speaks, hasOwnWork, state, finSent, wantFin, flight, held, window]

/-- In every connection, a segment of data or a FIN received before is answered exactly when
it is out of place, brings data to a block that takes data, or comes when the block has
something of its own to send. -/
theorem duplicates_answered_iff {start c : Connection} (born : Born hz start)
    (run : Reach (step hz) (fun _ _ => True) start c) (late : c.tcb.state.late = true)
    (attached : c.tcb.conv = true) (ack : seg.flags.ack = true) (noSyn : seg.flags.syn = false)
    (noRst : seg.flags.rst = false) (dup : carriesReceived c.tcb seg) :
    Answered c.tcb (tcpInput hz now c.tcb seg) ↔ getsAnswer c.tcb seg := by
  have flow : Flow c.tcb :=
    run.invariant (fun c => Flow c.tcb) born.flow fun _ _ _ held _ stepped => step_flow held stepped
  generalize c.tcb = t at late attached dup flow
  rw [late_input late, inputSynchronized, getsAnswer]
  by_cases lingers : t.state = .timeWait ∧ seg.flags.fin = true
  · rw [if_pos lingers]
    exact ⟨fun _ => .inl lingers, fun _ => ⟨_, rfl, _, List.mem_cons_self, rfl, rfl⟩⟩
  · rw [if_neg lingers]
    cases here : acceptable t seg with
    | false =>
      simp only [noRst]
      exact ⟨fun _ => .inr (.inl trivial), fun _ => ⟨_, rfl, _, List.mem_cons_self, rfl, rfl⟩⟩
    | true =>
      obtain ⟨acked, took, state, receiver, segsOut, finSent, wantFin, flight, held, window⟩ :=
        @takeAck_fields hz now t seg late
      simp only [Bool.not_true, Bool.false_eq_true, if_false, noRst, noSyn, ack, took]
      have stops := duplicate_no_fin dup here
      by_cases ends : finAcked acked = true ∧ acked.state = .lastAck
      · -- the last acknowledgement ends the connection without a word
        rw [if_pos ends]
        have fin : t.finSent = true := by
          rw [← finSent]
          exact (Bool.and_eq_true_iff.mp ends.1).1
        have idle : takesPayload t seg = false := by
          rw [takesPayload, ← state, ends.2]
          exact Bool.and_false _
        have quiet : Extends t (tcbFinish acked) [] := by
          refine ⟨?_, ?_, fun _ none => absurd none List.not_mem_nil⟩
          · rw [tcbFinish_rcvNxt]
            exact congrArg Receiver.rcvNxt receiver
          · rw [tcbFinish_segsOut, segsOut, List.append_nil]
        rw [quiet.answered]
        refine ⟨fun none => absurd rfl none, ?_⟩
        rintro (wait | out | takes | work)
        · exact absurd wait lingers
        · cases out
        · rw [idle] at takes
          cases takes
        · have early := work.2.1
          rw [fin] at early
          cases early
      · rw [if_neg ends]
        obtain ⟨kept, notOpening⟩ := takeAck_flow flow (late_past late) took
        obtain ⟨kept, notOpening⟩ := afterFin_flow hz now kept notOpening
        have received : (afterFin hz now acked).receiver = t.receiver :=
          afterFin_receiver.trans receiver
        have takes : takesPayload (afterFin hz now acked) seg = takesPayload t seg := by
          rw [takesPayload, takesPayload, afterFin_fields.2.2, state]
        have answers := @inputData_answers hz now _ seg kept notOpening
          ((congrArg Receiver.conv received).trans attached)
          ((congrArg (seg.stop == ·.rcvNxt) received).trans stops)
        rw [takes, speaks_iff state finSent wantFin flight held window, Answered,
          afterFin_fields.1, segsOut] at answers
        rw [Answered, answers]
        constructor
        · exact fun work => .inr (.inr work)
        · rintro (wait | out | work)
          · exact absurd wait lingers
          · cases out
          · exact work

theorem Answered.speaks {before after : Tcb} (answered : Answered before after) :
    after.segsOut ≠ before.segsOut := by
  obtain ⟨more, sent, segment, member, _⟩ := answered
  intro silent
  rw [sent, List.append_right_eq_self] at silent
  rw [silent] at member
  cases member

instance (t : Tcb) (seg : Segment) : Decidable (hasOwnWork t seg) :=
  inferInstanceAs (Decidable (_ ∧ _))

instance (t : Tcb) (seg : Segment) : Decidable (getsAnswer t seg) :=
  inferInstanceAs (Decidable (_ ∨ _))

/-- The connection opened by us once the peer has answered and `arrived` has come. -/
def arrivedOnce (arrived : Segment) : Connection :=
  outcome (step 10000000) (fun _ _ => True) dialled
    [⟨2, .segment ⟨1000, 1, thSynAck, 10, 1460, []⟩⟩, ⟨3, .segment arrived⟩]

def peerByte : Segment := ⟨1001, 1, thAck, 10, 0, [7]⟩
def peerFin : Segment := ⟨1001, 1, thFinAck, 10, 0, []⟩

theorem duplicate_byte_answered :
    Answered (arrivedOnce peerByte).tcb (tcpInput 10000000 4 (arrivedOnce peerByte).tcb peerByte) :=
  (duplicates_answered_iff (.connect 1 (fun _ => 0) 0)
    (outcome_reach _ dialled (by decide)) (by decide) (by decide) rfl rfl
    rfl (by decide)).mpr (by decide)

/-- The FIN taken in CLOSE_WAIT comes again, and nothing answers it. -/
theorem duplicate_fin_unanswered :
    ¬ ∀ (hz now : Nat) (start c : Connection) (seg : Segment), Born hz start →
      Reach (step hz) (fun _ _ => True) start c → c.tcb.state.late = true →
      c.tcb.conv = true → seg.flags.ack = true → seg.flags.syn = false →
      seg.flags.rst = false → carriesReceived c.tcb seg →
      Answered c.tcb (tcpInput hz now c.tcb seg) := by
  intro always
  have reached : Reach (step 10000000) (fun _ _ => True) dialled (arrivedOnce peerFin) :=
    outcome_reach _ dialled (by decide)
  have answered := always 10000000 4 dialled _ peerFin (.connect 1 (fun _ => 0) 0) reached
    (by decide) (by decide) rfl rfl rfl (by decide)
  exact answered.speaks (by decide)

end Racccoon.Tcp
