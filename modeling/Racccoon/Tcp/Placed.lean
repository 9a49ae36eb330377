import Racccoon.Tcp.Sender

/-!
What is sent where. As long as the peer acknowledges only what was sent, the buffer holds
the accepted bytes from the first unacknowledged one on, and every byte goes out under the
sequence number of its place.
-/

namespace Racccoon.Tcp

/-- The sequence number of a place in a stream whose SYN has the number `first`. -/
def seqAt (first : Seq) (place : Nat) : Seq := first + 1 + BitVec.ofNat 32 place

def carries (iss : Seq) (accepted : List Byte) (sent : Sent) : Prop :=
  sent.data ≠ [] →
    ∃ place, sent.seq = seqAt iss place ∧ sent.data <+: accepted.drop place

/-- An acknowledgement of what was accepted, SYN and FIN counted, less than 2^31 numbers
behind the last one. -/
def honestAck (iss : Seq) (accepted acked : Nat) (seg : Segment) : Prop :=
  seg.flags.ack = true →
    ∃ count, seg.ack = iss + BitVec.ofNat 32 count ∧ count ≤ accepted + 2 ∧
      acked < count + 2 ^ 31

structure Placed (accepted : List Byte) (acked : Nat) (t : Tcb) : Prop where
  una : t.sndUna = t.iss + BitVec.ofNat 32 acked
  opening : t.state.opening = true → t.sbuf = accepted ∧ acked = 0
  buffer : t.state.sends = true →
    1 ≤ acked ∧ acked ≤ accepted.length + 1 ∧ t.sbuf = accepted.drop (acked - 1)
  ahead : t.state.sends = true → t.flight ≤ t.sbuf.length + (if t.finSent then 1 else 0)
  sent : ∀ sent ∈ t.segsOut, carries t.iss accepted sent

variable {hz now acked : Nat} {t : Tcb} {seg : Segment} {accepted : List Byte}

theorem carries_empty {iss : Seq} {sent : Sent} (empty : sent.data = []) :
    carries iss accepted sent := fun bytes => absurd empty bytes

theorem carries_append {iss : Seq} {sent : Sent} (more : List Byte)
    (held : carries iss accepted sent) : carries iss (accepted ++ more) sent := by
  intro bytes
  obtain ⟨place, seq, within⟩ := held bytes
  refine ⟨place, seq, within.trans ?_⟩
  rw [List.drop_append]
  exact List.prefix_append _ _

/-- What the receiving side and the timers may do to a block whose bytes are placed. -/
theorem Placed.moved {after : Tcb} (placed : Placed accepted acked t) (iss : after.iss = t.iss)
    (una : after.sndUna = t.sndUna) (nxt : after.sndNxt = t.sndNxt) (sbuf : after.sbuf = t.sbuf)
    (fin : after.finSent = t.finSent) (segsOut : after.segsOut = t.segsOut)
    (opening : after.state.opening = true → t.state.opening = true)
    (sends : after.state.sends = true → t.state.sends = true) : Placed accepted acked after where
  una := by rw [una, iss, placed.una]
  opening := by
    intro early
    rw [sbuf]
    exact placed.opening (opening early)
  buffer := by
    intro goes
    rw [sbuf]
    exact placed.buffer (sends goes)
  ahead := by
    intro goes
    have bound := placed.ahead (sends goes)
    unfold Tcb.flight at *
    rw [sbuf, fin, una, nxt]
    exact bound
  sent := by
    rw [iss, segsOut]
    exact placed.sent

theorem Placed.send (placed : Placed accepted acked t) (flags : Flags) (seq : Seq) :
    Placed accepted acked (tcpSend t flags seq []) where
  una := placed.una
  opening := placed.opening
  buffer := placed.buffer
  ahead := placed.ahead
  sent := by
    intro sent mem
    rcases List.mem_append.mp mem with old | new
    · exact placed.sent sent old
    · rw [List.mem_singleton] at new
      rw [new]
      exact carries_empty rfl

theorem sndNxt_eq (t : Tcb) : t.sndNxt = t.sndUna + BitVec.ofNat 32 t.flight := by
  unfold Tcb.flight
  bv_omega

section
variable (flow : Flow t) (placed : Placed accepted acked t)
include flow placed

theorem sendData_placed (sends : t.state.sends = true) (more : t.nextSize ≠ 0) :
    Placed accepted acked (sendData now t t.nextSize) where
  una := placed.una
  opening := placed.opening
  buffer := placed.buffer
  ahead := by
    intro _
    rw [sendData_flight flow more]
    have within := (flow.nextSize more).2.2
    change t.flight + t.nextSize ≤ t.sbuf.length + _
    omega
  sent := by
    intro sent mem
    rcases List.mem_append.mp mem with old | new
    · exact placed.sent sent old
    · rw [List.mem_singleton] at new
      obtain ⟨_, same, _⟩ := flow.nextSize more
      obtain ⟨begun, _, buffer⟩ := placed.buffer sends
      intro _
      refine ⟨acked - 1 + t.flight, ?_, ?_⟩
      · rw [new]
        change t.sndNxt = t.iss + 1 + _
        rw [sndNxt_eq, placed.una]
        bv_omega
      · rw [new]
        rw [same, buffer, List.drop_drop]
        exact List.take_prefix _ _

theorem sendFin_placed (sends : t.state.sends = true) (due : finDue t = true) :
    Placed accepted acked (sendFin now t) where
  una := placed.una
  opening := by
    intro early
    rw [unclosed_not_opening (sendFin_unclosed sends)] at early
    cases early
  buffer := fun _ => placed.buffer sends
  ahead := by
    intro _
    rw [sendFin_flight flow due]
    exact Nat.le_refl _
  sent := (placed.send thFinAck t.sndNxt).sent

theorem tcpOutput_placed : Placed accepted acked (tcpOutput now t) := by
  have kept : Flow (tcpOutput now t) ∧ Placed accepted acked (tcpOutput now t) := by
    refine tcpOutput_invariant (fun s => Flow s ∧ Placed accepted acked s)
      ⟨flow, placed⟩ ?_ ?_
    · rintro before ⟨held, stands⟩ sends more
      exact ⟨sendData_flow held sends more, sendData_placed held stands sends more⟩
    · rintro before ⟨held, stands⟩ sends due
      exact ⟨sendFin_flow held sends due, sendFin_placed held stands sends due⟩
  exact kept.2

/-- An acknowledgement that is honest and taken covers no more than what is in flight. -/
theorem honest_within (sends : t.state.sends = true) (ack : seg.flags.ack = true)
    (honest : honestAck t.iss accepted.length acked seg) (valid : ackValid t seg.ack = true) :
    (seg.ack - t.sndUna).toNat ≤ t.flight := by
  have bound := flow.full
  have ahead := placed.ahead sends
  unfold tcpBuf at bound
  have near : t.flight < 2 ^ 31 := by
    split at ahead <;> omega
  by_cases idle : t.flight = 0
  · -- Half way around is neither ahead of what was accepted nor too far behind.
    have half := ackValid_idle idle valid
    obtain ⟨count, same, within, late⟩ := honest ack
    obtain ⟨begun, _, buffer⟩ := placed.buffer sends
    have length : t.sbuf.length = accepted.length - (acked - 1) := by
      rw [buffer, List.length_drop]
    rw [placed.una] at half
    have apart : (BitVec.ofNat 32 count - BitVec.ofNat 32 acked).toNat = 2 ^ 31 := by
      bv_omega
    simp only [BitVec.toNat_sub, BitVec.toNat_ofNat] at apart
    omega
  · exact ((ackValid_iff (Nat.pos_of_ne_zero idle) near seg.ack).mp valid).2

end

theorem una_moves (una : t.sndUna = t.iss + BitVec.ofNat 32 acked) {ack : Seq} :
    ack = t.iss + BitVec.ofNat 32 (acked + (ack - t.sndUna).toNat) := by
  bv_omega

/-- An acknowledgement of bytes only, or of a block that sends no more. -/
theorem tcpAcked_placed (hz now : Nat) (placed : Placed accepted acked t)
    (notOpening : t.state.opening = false) {ack : Seq} (valid : ackValid t ack = true)
    (within : t.state.sends = true → (ack - t.sndUna).toNat ≤ t.flight)
    (bytes : t.state.sends = true → ¬ (t.finSent = true ∧ ack = t.sndNxt)) :
    Placed accepted (acked + (ack - t.sndUna).toNat) (tcpAcked hz now t ack) := by
  have new := ackValid_new valid
  obtain ⟨_, _, _, _, _, same, _⟩ := tcpAcked_eq hz now t new
  rw [same]
  -- In a state that sends, every number acknowledged is that of a byte of the buffer.
  have covered (sends : t.state.sends = true) :
      t.bytesAcked ack = (ack - t.sndUna).toNat ∧
        (ack - t.sndUna).toNat ≤ t.sbuf.length := by
    have low := within sends
    have ahead := placed.ahead sends
    have part : t.bytesAcked ack = min (ack - t.sndUna).toNat t.sbuf.length := by
      by_cases all : ack = t.sndNxt
      · have noFin : t.finSent = false := by
          simpa using fun fin => bytes sends ⟨fin, all⟩
        rw [all, bytesAcked_all notOpening, if_neg (by simp [noFin])]
        rfl
      · exact bytesAcked_part notOpening all
    have small : (ack - t.sndUna).toNat ≤ t.sbuf.length := by
      by_cases fin : t.finSent = true
      · have below : ack ≠ t.sndNxt := fun all => bytes sends ⟨fin, all⟩
        rw [if_pos fin] at ahead
        unfold Tcb.flight at *
        bv_omega
      · rw [if_neg fin] at ahead
        omega
    exact ⟨by omega, small⟩
  refine ⟨?_, ?_, ?_, ?_, placed.sent⟩
  · exact una_moves placed.una
  · intro early
    have opening : t.state.opening = true := early
    rw [notOpening] at opening
    cases opening
  · intro sends
    obtain ⟨begun, behind, buffer⟩ := placed.buffer sends
    obtain ⟨all, small⟩ := covered sends
    have length : t.sbuf.length = accepted.length - (acked - 1) := by
      rw [buffer, List.length_drop]
    refine ⟨by omega, by omega, ?_⟩
    change t.sbuf.drop (t.bytesAcked ack) = _
    rw [buffer, List.drop_drop]
    congr 1
    omega
  · intro sends
    obtain ⟨all, small⟩ := covered sends
    have low := within sends
    have ahead := placed.ahead sends
    change (t.sndNxt - ack).toNat ≤ (t.sbuf.drop (t.bytesAcked ack)).length + _
    rw [List.length_drop]
    have less : (t.sndNxt - ack).toNat = t.flight - (ack - t.sndUna).toNat := by
      unfold Tcb.flight at *
      bv_omega
    change _ ≤ _ + if t.finSent then 1 else 0
    omega

/-- The acknowledgement of our SYN. -/
theorem established_placed (hz now : Nat) (flow : Flow t) (placed : Placed accepted acked t)
    (opening : t.state.opening = true) {ack : Seq} (all : ack = t.sndNxt) :
    Placed accepted (acked + (ack - t.sndUna).toNat)
      { tcpAcked hz now t ack with state := .established } := by
  obtain ⟨una, nxt⟩ := flow.opening opening
  obtain ⟨buffer, none⟩ := placed.opening opening
  have new : ack ≠ t.sndUna := by
    bv_omega
  have one : (ack - t.sndUna).toNat = 1 := by
    rw [all]
    exact flight_opening una nxt
  have noBytes := bytesAcked_opening flow opening
  rw [← all] at noBytes
  obtain ⟨_, _, _, _, _, same, _⟩ := tcpAcked_eq hz now t new
  rw [same, noBytes, one, none]
  refine ⟨?_, ?_, ?_, ?_, placed.sent⟩
  · rw [all, nxt]
    rfl
  · intro early
    cases early
  · intro _
    exact ⟨by omega, by omega, buffer⟩
  · intro _
    change (t.sndNxt - ack).toNat ≤ _
    rw [all]
    simp

theorem afterFin_placed (hz now : Nat) (placed : Placed accepted acked t) :
    Placed accepted acked (afterFin hz now t) := by
  unfold afterFin
  repeat' split
  all_goals first
    | exact placed.moved rfl rfl rfl rfl rfl rfl (fun early => (by cases early))
        (fun sends => (by cases sends))
    | exact placed

/-- A block whose FIN was sent and that does not send any more. -/
theorem Placed.finished {after : Tcb} (una : after.sndUna = after.iss + BitVec.ofNat 32 acked)
    (sent : ∀ sent ∈ after.segsOut, carries after.iss accepted sent)
    (opening : after.state.opening = false) (sends : after.state.sends = false) :
    Placed accepted acked after := by
  refine ⟨una, ?_, ?_, ?_, sent⟩
  · intro early
    rw [opening] at early
    cases early
  · intro goes
    rw [sends] at goes
    cases goes
  · intro goes
    rw [sends] at goes
    cases goes

theorem afterFin_done (fin : finAcked t = true) (closed : t.state.unclosed = false)
    (last : t.state ≠ .lastAck) : (afterFin hz now t).state.sends = false := by
  unfold afterFin
  cases state : t.state <;> simp_all [TcbState.unclosed, TcbState.sends]

theorem afterFin_kept (hz now : Nat) (t : Tcb) : (afterFin hz now t).iss = t.iss ∧
    (afterFin hz now t).sndUna = t.sndUna ∧ (afterFin hz now t).segsOut = t.segsOut := by
  unfold afterFin
  repeat' split
  all_goals exact ⟨rfl, rfl, rfl⟩

theorem takeAck_sent {acks : Tcb} (took : takeAck hz now t seg = some acks) :
    acks.iss = t.iss ∧ acks.segsOut = t.segsOut := by
  have same : (tcpAcked hz now t seg.ack).iss = t.iss ∧
      (tcpAcked hz now t seg.ack).segsOut = t.segsOut := by
    unfold tcpAcked tcpRttSample
    repeat' split
    all_goals exact ⟨rfl, rfl⟩
  rcases takeAck_cases took with ⟨_, _, rfl⟩ | ⟨_, _, rfl⟩ | ⟨_, _, rfl⟩
  · exact same
  · exact same
  · exact ⟨rfl, rfl⟩

theorem takeAck_placed (flow : Flow t) (placed : Placed accepted acked t) (past : synchronized t)
    (ack : seg.flags.ack = true) (honest : honestAck t.iss accepted.length acked seg) {acks : Tcb}
    (took : takeAck hz now t seg = some acks)
    (goes : ¬ (finAcked acks = true ∧ acks.state = .lastAck)) :
    Placed accepted (acked + (acks.sndUna - t.sndUna).toNat) (afterFin hz now acks) := by
  rcases takeAck_cases took with ⟨early, valid, rfl⟩ | ⟨late, valid, rfl⟩ | ⟨late, _, rfl⟩
  · have opening : t.state.opening = true := by rw [early]; rfl
    have kept := established_placed hz now flow placed opening
      (ackValid_opening flow opening valid)
    apply afterFin_placed
    rw [tcpAcked_sndUna]
    exact kept.moved rfl rfl rfl rfl rfl rfl id id
  · have notOpening := past.resolve_left late
    rw [tcpAcked_sndUna]
    by_cases final : t.finSent = true ∧ seg.ack = t.sndNxt
    · obtain ⟨_, _, _, _, _, same, _⟩ := tcpAcked_eq hz now t (ackValid_new valid)
      have fin : finAcked { tcpAcked hz now t seg.ack with sndWnd := seg.wnd } = true := by
        rw [same]
        simp [finAcked, final]
      have state : (tcpAcked hz now t seg.ack).state = t.state := tcpAcked_state t
      have closed : ({ tcpAcked hz now t seg.ack with sndWnd := seg.wnd } : Tcb).state.unclosed
          = false := state ▸ flow.finSent final.1
      have last := fun ends => goes ⟨fin, ends⟩
      obtain ⟨iss, una, segsOut⟩ := afterFin_kept hz now
        { tcpAcked hz now t seg.ack with sndWnd := seg.wnd }
      refine .finished ?_ ?_ (afterFin_flow hz now ?_ ?_).2 (afterFin_done fin closed last)
      · rw [iss, una]
        rw [same]
        exact una_moves placed.una
      · rw [iss, segsOut, same]
        exact placed.sent
      · exact (tcpAcked_flow flow notOpening valid).window seg.wnd
      · exact state ▸ notOpening
    · apply afterFin_placed
      have kept := tcpAcked_placed hz now placed notOpening valid
        (fun sends => honest_within flow placed sends ack honest valid) (fun _ => final)
      exact kept.moved rfl rfl rfl rfl rfl rfl id id
  · apply afterFin_placed
    have kept : Placed accepted acked { t with sndWnd := seg.wnd } :=
      placed.moved rfl rfl rfl rfl rfl rfl id id
    simpa using kept

theorem takePayload_placed (placed : Placed accepted acked t) :
    Placed accepted acked (takePayload t seg) := by
  unfold takePayload
  split
  · exact placed.moved rfl rfl rfl rfl rfl rfl id id
  · exact placed

theorem takeFin_placed (placed : Placed accepted acked t)
    (notOpening : t.state.opening = false) : Placed accepted acked (takeFin hz now t) := by
  unfold takeFin
  split
  · next state =>
      exact placed.moved rfl rfl rfl rfl rfl rfl (fun early => (by cases early))
        (fun _ => (by rw [state]; rfl))
  · next state =>
      rw [state] at notOpening
      cases notOpening
  · next state =>
      refine placed.moved rfl rfl rfl rfl rfl rfl ?_ (fun _ => (by rw [state]; rfl))
      intro early
      split at early <;> cases early
  · exact placed.moved rfl rfl rfl rfl rfl rfl (fun early => (by cases early))
      (fun sends => (by cases sends))
  · exact placed.moved rfl rfl rfl rfl rfl rfl id id

theorem taken_placed (hz now : Nat) (seg : Segment) (placed : Placed accepted acked t)
    (notOpening : t.state.opening = false) : Placed accepted acked (taken hz now t seg) := by
  unfold taken
  split
  · exact takeFin_placed (takePayload_placed placed) (by rw [takePayload_state]; exact notOpening)
  · exact takePayload_placed placed

theorem Placed.died (placed : Placed accepted acked t) : Placed accepted acked (tcpDied t) :=
  placed.moved rfl rfl rfl rfl rfl rfl (fun early => (by cases early))
    (fun sends => (by cases sends))

theorem Placed.finish (una : t.sndUna = t.iss + BitVec.ofNat 32 acked)
    (sent : ∀ sent ∈ t.segsOut, carries t.iss accepted sent) :
    Placed accepted acked (tcbFinish t) := by
  unfold tcbFinish
  split
  · exact .finished una sent rfl rfl
  · exact .finished una sent rfl rfl

theorem inputData_placed (flow : Flow t) (placed : Placed accepted acked t)
    (notOpening : t.state.opening = false) : Placed accepted acked (inputData hz now t seg) := by
  have flows : Flow (taken hz now t seg) := taken_flow flow notOpening
  have kept := taken_placed hz now seg placed notOpening
  rcases inputData_cases hz now t seg with ⟨died, _⟩ | ⟨_, sent, which, output⟩
  · rw [died]
    exact (kept.send _ _).died
  · rw [output]
    rcases which with rfl | rfl
    · exact tcpOutput_placed flows kept
    · exact tcpOutput_placed (flows.send _ _ _) (kept.send _ _)

theorem Input.placed {after : Tcb} (outcome : Input hz now t seg after) (flow : Flow t)
    (placed : Placed accepted acked t) (past : synchronized t)
    (honest : honestAck t.iss accepted.length acked seg) :
    Placed accepted (acked + (after.sndUna - t.sndUna).toNat) after := by
  cases outcome with
  | dropped => simpa using placed
  | answered =>
    have same : (t.sndUna - t.sndUna).toNat = 0 := by simp
    change Placed accepted (acked + (t.sndUna - t.sndUna).toNat) _
    rw [same]
    exact (placed.send _ _).moved rfl rfl rfl rfl rfl rfl id id
  | reset sent quiet =>
    have kept : Placed accepted acked (tcpDied sent) := by
      rcases quiet with rfl | rfl
      · exact placed.died
      · exact (placed.send _ _).died
    have una : (tcpDied sent).sndUna = t.sndUna := by
      rcases quiet with rfl | rfl <;> rfl
    rw [una]
    simpa using kept
  | finished _ _ took =>
    obtain ⟨iss, segsOut⟩ := takeAck_sent took
    rw [tcbFinish_sndUna]
    apply Placed.finish
    · rw [iss]
      exact una_moves placed.una
    · rw [iss, segsOut]
      exact placed.sent
  | data acks reaches took goes =>
    obtain ⟨flows, notOpening⟩ := takeAck_flow flow past took
    obtain ⟨flows', notOpening'⟩ := afterFin_flow hz now flows notOpening
    rw [inputData_sndUna, (afterFin_kept hz now acks).2.1]
    exact inputData_placed flows'
      (takeAck_placed flow placed past reaches.2.2.2 honest took goes) notOpening'

theorem Opening.placed {after : Tcb} (outcome : Opening hz now t seg after) (flow : Flow t)
    (placed : Placed accepted acked t) (opening : t.state.opening = true) :
    Placed accepted (acked + (after.sndUna - t.sndUna).toNat) after := by
  cases outcome with
  | dropped => simpa using placed
  | refused =>
    have una : (tcpDied t).sndUna = t.sndUna := rfl
    rw [una]
    simpa using placed.died
  | opened _ _ fits =>
    have all := opened_ack flow opening fits
    have begun : Flow (offered t seg) := offered_flow flow
    have told : Placed accepted acked (offered t seg) :=
      placed.moved rfl rfl rfl rfl rfl rfl id id
    have kept := established_placed hz now begun told opening all
    have una : (tcpAcked hz now (offered t seg) seg.ack).sndUna = seg.ack := tcpAcked_sndUna _
    rw [tcpOutput_sndUna]
    change Placed accepted
      (acked + ((tcpAcked hz now (offered t seg) seg.ack).sndUna - t.sndUna).toNat) _
    rw [una]
    exact tcpOutput_placed ((established_flow begun opening all).send _ _ _)
      (kept.send _ _)
  | crossed =>
    have same : (t.sndUna - t.sndUna).toNat = 0 := by simp
    change Placed accepted (acked + (t.sndUna - t.sndUna).toNat) _
    rw [same]
    have crossed : Placed accepted acked { offered t seg with state := .synRcvd } :=
      placed.moved rfl rfl rfl rfl rfl rfl (fun _ => opening) (fun sends => (by cases sends))
    exact crossed.send _ _

theorem tcpInput_placed (flow : Flow t) (placed : Placed accepted acked t)
    (honest : honestAck t.iss accepted.length acked seg) :
    Placed accepted (acked + ((tcpInput hz now t seg).sndUna - t.sndUna).toNat)
      (tcpInput hz now t seg) := by
  unfold tcpInput
  cases state : t.state with
  | closed => simpa using placed
  | listen => simpa using placed
  | synSent => exact (inputSynSent_cases t seg).placed flow placed (by rw [state]; rfl)
  | synRcvd => exact (inputSynchronized_cases t seg).placed flow placed (.inl state) honest
  | _ => exact (inputSynchronized_cases t seg).placed flow placed (.inr (by rw [state]; rfl)) honest

theorem rolledBack_placed (placed : Placed accepted acked t) :
    Placed accepted acked (rolledBack t) where
  una := placed.una
  opening := placed.opening
  buffer := placed.buffer
  ahead := by
    have none : (rolledBack t).flight = 0 := by simp [Tcb.flight, rolledBack]
    omega
  sent := placed.sent

theorem retransmit_placed (flow : Flow t) (placed : Placed accepted acked t) :
    Placed accepted acked (retransmit now t) := by
  have back (notOpening : t.state.opening = false) : Placed accepted acked (goBack now t) :=
    (tcpOutput_placed (rolledBack_flow flow notOpening) (rolledBack_placed placed)).moved
      rfl rfl rfl rfl rfl rfl id id
  unfold retransmit
  cases state : t.state with
  | synSent => exact placed.send _ _
  | synRcvd => exact placed.send _ _
  | _ => exact back (by rw [state]; rfl)

theorem Expired.placed {after : Tcb} (outcome : Expired hz now t after) (flow : Flow t)
    (placed : Placed accepted acked t) : Placed accepted acked after := by
  cases outcome with
  | waiting => exact placed
  | gaveUp _ quiet =>
    have told : Placed accepted acked { t with retries := t.retries + 1 } :=
      placed.moved rfl rfl rfl rfl rfl rfl id id
    rcases quiet with rfl | rfl
    · exact told.died
    · exact (told.send _ _).died
  | retried _ _ same =>
    subst same
    have told : Placed accepted acked { t with
        retries := t.retries + 1, rto := backOff hz t.rto, timing := false } :=
      placed.moved rfl rfl rfl rfl rfl rfl id id
    exact (retransmit_placed (flow.timed _ _ _) told).moved rfl rfl rfl rfl rfl rfl id id

theorem tcpTimers_placed (flow : Flow t) (placed : Placed accepted acked t) :
    Placed accepted acked (tcpTimers hz now t) := by
  rcases tcpTimers_cases hz now t with
    ⟨_, done | same⟩ | ⟨_, same | ⟨freed, _⟩⟩ | ⟨_, _, expired⟩
  · rw [done]
    exact .finish placed.una placed.sent
  · rw [same]
    exact placed
  · rw [same]
    exact placed
  · rw [freed]
    exact placed.moved rfl rfl rfl rfl rfl rfl id id
  · exact expired.placed flow placed

theorem Placed.write (placed : Placed accepted acked t) (data : List Byte) :
    Placed (accepted ++ data) acked { t with sbuf := t.sbuf ++ data } where
  una := placed.una
  opening := by
    intro early
    obtain ⟨buffer, none⟩ := placed.opening early
    exact ⟨by rw [buffer], none⟩
  buffer := by
    intro sends
    obtain ⟨begun, within, buffer⟩ := placed.buffer sends
    refine ⟨begun, ?_, ?_⟩
    · rw [List.length_append]
      omega
    · rw [buffer, List.drop_append_of_le_length (by omega)]
  ahead := by
    intro sends
    have bound := placed.ahead sends
    change t.flight ≤ (t.sbuf ++ data).length + if t.finSent then 1 else 0
    rw [List.length_append]
    omega
  sent := fun sent mem => carries_append data (placed.sent sent mem)

theorem tcpWrite_placed (flow : Flow t) (placed : Placed accepted acked t) (data : List Byte) :
    Placed (accepted ++ data.take (tcpWrite now t data).1.toNat) acked
      (tcpWrite now t data).2 := by
  rcases tcpWrite_cases now t data with ⟨same, count⟩ | ⟨writes, _, count, output⟩
  · rw [same, count]
    simpa using placed
  · rw [output, count]
    exact tcpOutput_placed (buffered_flow flow writes data) (placed.write _)

theorem tcpRead_placed (placed : Placed accepted acked t) (max : Nat) :
    Placed accepted acked (tcpRead t max).2.2 := by
  have outcome := tcpRead_cases t max
  generalize tcpRead t max = result at outcome
  cases outcome with
  | gone => exact placed
  | empty => exact placed
  | freed => exact placed.moved rfl rfl rfl rfl rfl rfl id id
  | bytes _ _ _ which =>
    have kept : Placed accepted acked (readOut t (min t.rlen max)) :=
      placed.moved rfl rfl rfl rfl rfl rfl id id
    rcases which with rfl | rfl
    · exact kept
    · exact kept.send _ _

section
variable (flow : Flow t) (placed : Placed accepted acked t)
include flow placed

theorem closing_placed (conv : Bool) :
    Placed accepted acked (tcpOutput now { t with conv := conv, wantFin := true }) :=
  tcpOutput_placed (flow.closing conv true) (placed.moved rfl rfl rfl rfl rfl rfl id id)

theorem hangup_placed : Placed accepted acked (hangup now t) := by
  rcases hangup_cases now t with alone | stopped | closes
  · rw [alone]
    exact placed.moved rfl rfl rfl rfl rfl rfl id id
  · rw [stopped]
    exact .finished placed.una placed.sent rfl rfl
  · rw [closes]
    exact closing_placed flow placed false

theorem tcpShutdown_placed : Placed accepted acked (tcpShutdown now t) := by
  unfold tcpShutdown
  split
  · exact closing_placed flow placed t.conv
  · exact placed

end

/-- The condition on the acknowledgements of a run. -/
def Honest (c : Connection) (action : Action) : Prop :=
  match action.event with
  | .segment seg => honestAck c.tcb.iss c.accepted.length c.acked seg
  | _ => True

def Connection.Placed (c : Connection) : Prop :=
  Flow c.tcb ∧ Tcp.Placed c.accepted c.acked c.tcb

theorem Born.placed {c : Connection} (born : Born hz c) : c.Placed := by
  refine ⟨born.flow, ?_⟩
  cases born with
  | connect =>
    refine ⟨by simp [tcpConnect, tcpSend, tcpArmRtx], fun _ => ⟨rfl, rfl⟩,
      fun sends => (by cases sends), fun sends => (by cases sends), ?_⟩
    intro sent mem
    obtain rfl := List.mem_singleton.mp mem
    exact carries_empty rfl
  | listen =>
    exact ⟨rfl, fun early => (by cases early), fun sends => (by cases sends),
      fun sends => (by cases sends), fun sent mem => (by cases mem)⟩
  | accept =>
    refine ⟨by simp [inputListen, tcpSend, tcpArmRtx], fun _ => ⟨rfl, rfl⟩,
      fun sends => (by cases sends), fun sends => (by cases sends), ?_⟩
    intro sent mem
    obtain rfl := List.mem_singleton.mp mem
    exact carries_empty rfl

theorem step_placed {c after : Connection} {action : Action} (held : c.Placed)
    (honest : Honest c action) (stepped : step hz c action = some after) : after.Placed := by
  obtain ⟨flow, placed⟩ := held
  refine ⟨step_flow flow stepped, ?_⟩
  obtain ⟨now, event⟩ := action
  cases step_cases stepped with
  | write data =>
    exact tcpWrite_placed flow placed data
  | read max =>
    exact tcpRead_placed placed max
  | shutdown =>
    exact tcpShutdown_placed flow placed
  | hangup =>
    exact hangup_placed flow placed
  | segment =>
    exact tcpInput_placed flow placed honest
  | timers =>
    exact tcpTimers_placed flow placed

end Racccoon.Tcp
