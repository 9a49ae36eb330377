import Racccoon.Lib.Run
import Racccoon.Tcp.Model

/-!
A connection over its whole life: calls on its conversation, segments that arrive and runs
of `tcp_timers`, in any order and at any times. Besides the control block a connection
carries what is not in the source: the bytes `tcp_write` accepted, the bytes `tcp_read`
returned, how far the peer has acknowledged (its SYN counts 1), and whether a FIN arrived.
-/

namespace Racccoon.Tcp

structure Connection where
  tcb : Tcb
  accepted : List Byte
  returned : List Byte
  acked : Nat
  finArrived : Bool

inductive Event where
  | write (data : List Byte)
  | read (max : Nat)
  | shutdown
  | hangup
  | segment (seg : Segment)
  | timers

structure Action where
  now : Nat
  event : Event

/-- A hangup leaves the control block to finish the close, `conv_free`. -/
def hangup (now : Nat) (t : Tcb) : Tcb :=
  if t.used then tcpAbort now t else { t with conv := false }

def Connection.become (c : Connection) (tcb : Tcb) : Connection := { c with tcb := tcb }

/-- Calls need the conversation, segments and timers a block in use. -/
def step (hz : Nat) (c : Connection) (action : Action) : Option Connection :=
  match action.event with
  | .write data =>
    if c.tcb.conv then
      let written := tcpWrite action.now c.tcb data
      some { c with tcb := written.2, accepted := c.accepted ++ data.take written.1.toNat }
    else none
  | .read max =>
    if c.tcb.conv then
      let read := tcpRead c.tcb max
      some { c with tcb := read.2.2, returned := c.returned ++ read.2.1 }
    else none
  | .shutdown => if c.tcb.conv then some (c.become (tcpShutdown action.now c.tcb)) else none
  | .hangup => if c.tcb.conv then some (c.become (hangup action.now c.tcb)) else none
  | .segment seg =>
    if c.tcb.used then
      let tcb := tcpInput hz action.now c.tcb seg
      some { c with
        tcb := tcb
        acked := c.acked + (tcb.sndUna - c.tcb.sndUna).toNat
        finArrived := c.finArrived || seg.flags.fin }
    else none
  | .timers => if c.tcb.used then some (c.become (tcpTimers hz action.now c.tcb)) else none

inductive Stepped (hz now : Nat) (c : Connection) : Event → Connection → Prop where
  | write (data : List Byte) : Stepped hz now c (.write data) { c with
      tcb := (tcpWrite now c.tcb data).2
      accepted := c.accepted ++ data.take (tcpWrite now c.tcb data).1.toNat }
  | read (max : Nat) : Stepped hz now c (.read max) { c with
      tcb := (tcpRead c.tcb max).2.2, returned := c.returned ++ (tcpRead c.tcb max).2.1 }
  | shutdown : Stepped hz now c .shutdown (c.become (tcpShutdown now c.tcb))
  | hangup : Stepped hz now c .hangup (c.become (hangup now c.tcb))
  | segment (seg : Segment) (used : c.tcb.used = true) : Stepped hz now c (.segment seg) { c with
      tcb := tcpInput hz now c.tcb seg
      acked := c.acked + ((tcpInput hz now c.tcb seg).sndUna - c.tcb.sndUna).toNat
      finArrived := c.finArrived || seg.flags.fin }
  | timers (used : c.tcb.used = true) :
      Stepped hz now c .timers (c.become (tcpTimers hz now c.tcb))

theorem step_cases {hz : Nat} {c after : Connection} {action : Action}
    (stepped : step hz c action = some after) : Stepped hz action.now c action.event after := by
  unfold step at stepped
  cases event : action.event <;>
    simp only [event, Option.ite_none_right_eq_some, Option.some.injEq] at stepped <;>
    obtain ⟨used, rfl⟩ := stepped
  · exact .write _
  · exact .read _
  · exact .shutdown
  · exact .hangup
  · exact .segment _ used
  · exact .timers used

/-- The connections there are at first: a call of `tcp_connect` or `tcp_listen`, or a SYN
that a listener took. -/
inductive Born (hz : Nat) : Connection → Prop where
  | connect (now : Nat) (rbuf : Nat → Byte) (iss : Seq) :
      Born hz ⟨tcpConnect hz now rbuf iss, [], [], 0, false⟩
  | listen (rbuf : Nat → Byte) : Born hz ⟨tcpListen hz rbuf, [], [], 0, false⟩
  | accept (now : Nat) (rbuf : Nat → Byte) (iss : Seq) (seg : Segment) :
      Born hz ⟨inputListen hz now rbuf iss seg, [], [], 0, false⟩

def dialled : Connection := ⟨tcpConnect 10000000 1 (fun _ => 0) 0, [], [], 0, false⟩

theorem seqLt_iff (a b : Seq) : seqLt a b = true ↔ 2 ^ 31 ≤ (a - b).toNat := by
  simp only [seqLt, decide_eq_true_eq, BitVec.toInt_eq_toNat_cond]
  split <;> omega

theorem seqLe_iff (a b : Seq) : seqLe a b = true ↔ a = b ∨ 2 ^ 31 ≤ (a - b).toNat := by
  simp only [seqLe, decide_eq_true_eq, BitVec.toInt_eq_toNat_cond]
  constructor
  · intro low
    by_cases same : a = b
    · exact .inl same
    · split at low <;> bv_omega
  · rintro (rfl | far)
    · simp
    · split <;> omega

/-- With something in flight, an acknowledgement is taken if it covers part of that. -/
theorem ackValid_iff {t : Tcb} (flying : 0 < t.flight) (near : t.flight < 2 ^ 31) (ack : Seq) :
    ackValid t ack = true ↔ ack ≠ t.sndUna ∧ (ack - t.sndUna).toNat ≤ t.flight := by
  simp only [ackValid, Bool.and_eq_true, seqLt_iff, seqLe_iff, Tcb.flight] at *
  constructor
  · rintro ⟨above, within⟩
    rcases within with rfl | within <;> constructor <;> bv_omega
  · rintro ⟨new, within⟩
    constructor
    · bv_omega
    · by_cases all : ack = t.sndNxt
      · exact .inl all
      · exact .inr (by bv_omega)

theorem ackValid_idle {t : Tcb} (idle : t.flight = 0) {ack : Seq}
    (valid : ackValid t ack = true) : (ack - t.sndUna).toNat = 2 ^ 31 := by
  simp only [ackValid, Bool.and_eq_true, seqLt_iff, seqLe_iff, Tcb.flight] at *
  rcases valid.2 with rfl | within <;> bv_omega

theorem flight_eq_zero {t : Tcb} : t.flight = 0 ↔ t.sndUna = t.sndNxt := by
  unfold Tcb.flight
  constructor
  · bv_omega
  · intro same
    simp [same]

section Output
variable {now : Nat} {t : Tcb}

theorem outputData_invariant (inv : Tcb → Prop) (fuel : Nat) (initial : inv t)
    (keeps : ∀ before, inv before → before.nextSize ≠ 0 →
      inv (sendData now before before.nextSize)) : inv (outputData now fuel t) := by
  induction fuel generalizing t with
  | zero => exact initial
  | succ _ ih =>
    rw [outputData]
    by_cases last : t.nextSize = 0
    · rw [if_pos last]
      exact initial
    · rw [if_neg last]
      exact ih (keeps t initial last)

/-- What the rounds of the loop and the FIN keep, `tcp_output` keeps. -/
theorem tcpOutput_invariant (inv : Tcb → Prop) (initial : inv t)
    (data : ∀ before, inv before → before.state.sends = true → before.nextSize ≠ 0 →
      inv (sendData now before before.nextSize))
    (fin : ∀ before, inv before → before.state.sends = true → finDue before = true →
      inv (sendFin now before)) : inv (tcpOutput now t) := by
  unfold tcpOutput
  by_cases sends : t.state.sends = true
  · rw [if_pos sends]
    have kept : inv (outputData now t.sbuf.length t) ∧
        (outputData now t.sbuf.length t).state.sends = true := by
      refine outputData_invariant (fun t => inv t ∧ t.state.sends = true) _
        ⟨initial, sends⟩ ?_
      intro before held more
      exact ⟨data before held.1 held.2 more, held.2⟩
    by_cases due : finDue (outputData now t.sbuf.length t) = true
    · rw [if_pos due]
      exact fin _ kept.1 kept.2 due
    · rw [if_neg due]
      exact kept.1
  · rw [if_neg sends]
    exact initial

end Output

/-- The fields the sending functions do not write. -/
structure Receiver where
  used : Bool
  conv : Bool
  convState : ConvState
  reset : Bool
  rcvNxt : Seq
  rbuf : Nat → Byte
  rhead : Nat
  rlen : Nat
  finRcvd : Bool

def Tcb.receiver (t : Tcb) : Receiver :=
  ⟨t.used, t.conv, t.convState, t.reset, t.rcvNxt, t.rbuf, t.rhead, t.rlen, t.finRcvd⟩

section Frames
variable {hz now : Nat} {t : Tcb}

theorem tcpOutput_receiver (t : Tcb) : (tcpOutput now t).receiver = t.receiver :=
  tcpOutput_invariant (fun after => after.receiver = t.receiver) rfl
    (fun _ held _ _ => held) (fun _ held _ _ => held)

theorem tcpAcked_receiver (t : Tcb) (ack : Seq) :
    (tcpAcked hz now t ack).receiver = t.receiver := by
  unfold tcpAcked tcpRttSample
  repeat' split
  all_goals rfl

theorem retransmit_receiver (t : Tcb) : (retransmit now t).receiver = t.receiver := by
  unfold retransmit
  split
  · rfl
  · rfl
  · exact tcpOutput_receiver _

end Frames

end Racccoon.Tcp
