import Mathlib.Data.List.Infix
import Racccoon.Tcp.Placed

/-!
What arrives from a peer that conforms. Its segments carry pieces of one stream at their
places, its FIN stands behind the last byte, and it acknowledges nothing that was not sent.
What is queued for the reader is then always the next piece of that stream. The places are
told apart by 32-bit numbers, so a segment must not be a whole turn of them late.
-/

namespace Racccoon.Tcp

open Run

structure Peer where
  irs : Seq
  stream : List Byte

def Peer.sends (peer : Peer) (places : Nat → Prop) (seg : Segment) : Prop :=
  if seg.flags.syn then seg.seq = peer.irs
  else seg.flags.rst = true ∨
    ∃ place, places place ∧ seg.seq = seqAt peer.irs place ∧
      seg.data <+: peer.stream.drop place ∧
      (seg.flags.fin = true → place + seg.dlen = peer.stream.length)

def near (received : Nat) (seg : Segment) (place : Nat) : Prop :=
  received < place + 2 ^ 32 ∧ place + seg.dlen < received + 2 ^ 32

def received (returned : List Byte) (t : Tcb) : Nat :=
  returned.length + t.rlen + if t.finRcvd then 1 else 0

inductive Phase where
  | finished | waiting | going | ended
  deriving DecidableEq

/-- How far the peer's half of the connection is. -/
def TcbState.phase : TcbState → Phase
  | .closed => .finished
  | .listen | .synSent => .waiting
  | .synRcvd | .established | .finWait1 | .finWait2 => .going
  | .closeWait | .closing | .lastAck | .timeWait => .ended

structure Receiving (peer : Peer) (returned : List Byte) (t : Tcb) : Prop where
  room : t.rlen ≤ tcpBuf
  content : returned ++ Ring.read tcpBuf t.rbuf t.rhead t.rlen =
    peer.stream.take (returned.length + t.rlen)
  fresh : t.state.phase = .waiting → returned = [] ∧ t.rlen = 0
  place : t.state.phase = .going ∨ t.state.phase = .ended →
    t.rcvNxt = seqAt peer.irs (received returned t)
  whole : t.finRcvd = true → returned.length + t.rlen = peer.stream.length
  unended : t.state.phase = .waiting ∨ t.state.phase = .going → t.finRcvd = false
  ended : t.state.phase = .ended → t.finRcvd = true
  finished : t.used = true → t.state.phase = .finished → t.finRcvd = true
  live : t.used = true → t.reset = false ∧ t.convState ≠ .closed
  freed : t.used = false → t.convState = .closed → t.finRcvd = true ∧ t.rlen = 0

variable {hz now : Nat} {t : Tcb} {seg : Segment} {peer : Peer} {returned : List Byte}
variable {after : Tcb}

theorem Receiving.moved (held : Receiving peer returned t) (same : after.receiver = t.receiver)
    (phase : after.state.phase = t.state.phase) : Receiving peer returned after := by
  have used : after.used = t.used := congrArg Receiver.used same
  have convState : after.convState = t.convState := congrArg Receiver.convState same
  have reset : after.reset = t.reset := congrArg Receiver.reset same
  have rcvNxt : after.rcvNxt = t.rcvNxt := congrArg Receiver.rcvNxt same
  have rbuf : after.rbuf = t.rbuf := congrArg Receiver.rbuf same
  have rhead : after.rhead = t.rhead := congrArg Receiver.rhead same
  have rlen : after.rlen = t.rlen := congrArg Receiver.rlen same
  have finRcvd : after.finRcvd = t.finRcvd := congrArg Receiver.finRcvd same
  constructor
  · rw [rlen]
    exact held.room
  · rw [rbuf, rhead, rlen]
    exact held.content
  · rw [phase, rlen]
    exact held.fresh
  · unfold received
    rw [phase, rcvNxt, rlen, finRcvd]
    exact held.place
  · rw [finRcvd, rlen]
    exact held.whole
  · rw [phase, finRcvd]
    exact held.unended
  · rw [phase, finRcvd]
    exact held.ended
  · rw [used, phase, finRcvd]
    exact held.finished
  · rw [used, reset, convState]
    exact held.live
  · rw [used, convState, finRcvd, rlen]
    exact held.freed

theorem Receiving.send (held : Receiving peer returned t) (flags : Flags) (seq : Seq)
    (data : List Byte) : Receiving peer returned (tcpSend t flags seq data) :=
  held.moved rfl rfl

theorem Receiving.fits (held : Receiving peer returned t) :
    returned.length + t.rlen ≤ peer.stream.length := by
  have lengths := congrArg List.length held.content
  simp only [List.length_append, Ring.read_length, List.length_take] at lengths
  omega

theorem tcpOutput_phase (t : Tcb) : (tcpOutput now t).state.phase = t.state.phase := by
  apply tcpOutput_invariant (fun after => after.state.phase = t.state.phase) rfl
  · intro _ held _ _
    exact held
  · intro before held _ _
    rw [← held]
    rw [sendFin_state]
    cases before.state <;> rfl

theorem tcpOutput_receiving (held : Receiving peer returned t) :
    Receiving peer returned (tcpOutput now t) :=
  held.moved (tcpOutput_receiver t) (tcpOutput_phase t)

theorem seqAt_add (first : Seq) (place more : Nat) :
    seqAt first place + BitVec.ofNat 32 more = seqAt first (place + more) := by
  unfold seqAt
  bv_omega

variable {place : Nat}

/-- A segment from behind is skipped up to what is missing; one from ahead altogether. -/
theorem skipped_eq (rcvNxt : t.rcvNxt = seqAt peer.irs (received returned t))
    (seq : seg.seq = seqAt peer.irs place) (close : near (received returned t) seg place) :
    (place ≤ received returned t ∧ skipped t seg = received returned t - place) ∨
      seg.dlen ≤ skipped t seg := by
  obtain ⟨late, early⟩ := close
  have apart : skipped t seg =
      (2 ^ 32 - place % 2 ^ 32 + received returned t % 2 ^ 32) % 2 ^ 32 := by
    unfold skipped
    rw [rcvNxt, seq]
    have same : seqAt peer.irs (received returned t) - seqAt peer.irs place =
        BitVec.ofNat 32 (received returned t) - BitVec.ofNat 32 place := by
      unfold seqAt
      bv_omega
    rw [same, BitVec.toNat_sub, BitVec.toNat_ofNat, BitVec.toNat_ofNat]
  omega

/-- What is kept of a segment is the next piece of the stream. -/
theorem kept_next (data : seg.data <+: peer.stream.drop place)
    (behind : place ≤ received returned t) (skips : skipped t seg = received returned t - place) :
    (seg.data.drop (skipped t seg)).take (kept t seg) =
        (peer.stream.drop (received returned t)).take (kept t seg) ∧
      ((seg.data.drop (skipped t seg)).take (kept t seg)).length = kept t seg := by
  have next : seg.data.drop (skipped t seg) <+: peer.stream.drop (received returned t) := by
    have dropped := data.drop (skipped t seg)
    rw [List.drop_drop, skips, show place + (received returned t - place) = received returned t by
      omega] at dropped
    rw [skips]
    exact dropped
  have length : ((seg.data.drop (skipped t seg)).take (kept t seg)).length = kept t seg := by
    simp only [List.length_take, List.length_drop, kept, Segment.dlen]
    omega
  refine ⟨?_, length⟩
  have piece := ((List.take_prefix (kept t seg) _).trans next)
  rw [List.prefix_iff_eq_take.mp piece, length]

theorem takePayload_receiving (held : Receiving peer returned t)
    (phase : t.state.phase = .going ∨ t.state.phase = .ended) (seq : seg.seq = seqAt peer.irs place)
    (data : seg.data <+: peer.stream.drop place) (close : near (received returned t) seg place) :
    Receiving peer returned (takePayload t seg) := by
  unfold takePayload
  by_cases takes : takesPayload t seg = true ∧ skipped t seg < seg.dlen
  · rw [if_pos takes]
    obtain ⟨receives, new⟩ := takes
    have going : t.state.phase = .going := by
      unfold takesPayload at receives
      cases state : t.state <;> simp_all [TcbState.receives, TcbState.phase]
    have noFin := held.unended (.inr going)
    have count : received returned t = returned.length + t.rlen := by simp [received, noFin]
    have room := held.room
    obtain ⟨behind, skips⟩ :=
      (skipped_eq (held.place phase) seq close).resolve_right (by omega)
    obtain ⟨piece, length⟩ := kept_next data behind skips
    have filled : t.rlen + kept t seg ≤ tcpBuf := by
      unfold kept tcpRwnd
      omega
    have content : returned ++ Ring.read tcpBuf (Ring.write tcpBuf t.rbuf (t.rhead + t.rlen)
        ((seg.data.drop (skipped t seg)).take (kept t seg))) t.rhead (t.rlen + kept t seg) =
        peer.stream.take (returned.length + (t.rlen + kept t seg)) := by
      have queued := @Ring.read_write _ tcpBuf t.rbuf t.rhead t.rlen
        ((seg.data.drop (skipped t seg)).take (kept t seg)) (by rw [length]; exact filled)
      rw [length] at queued
      rw [queued, ← List.append_assoc, held.content, piece, count, ← List.take_add, Nat.add_assoc]
    refine ⟨filled, content, ?_, ?_, ?_, held.unended, held.ended, held.finished, held.live, ?_⟩
    · intro waiting
      have same : t.state.phase = .waiting := waiting
      rw [going] at same
      cases same
    · intro _
      change t.rcvNxt + BitVec.ofNat 32 (kept t seg) = _
      rw [held.place phase, seqAt_add]
      congr 1
      simp only [received]
      omega
    · intro fin
      have taken : t.finRcvd = true := fin
      rw [noFin] at taken
      cases taken
    · intro unused closed
      have gone := held.freed unused closed
      rw [noFin] at gone
      cases gone.1
  · rw [if_neg takes]
    exact held

theorem seqAt_inj {first : Seq} {other : Nat} (same : seqAt first place = seqAt first other)
    (below : place < other + 2 ^ 32) (above : other < place + 2 ^ 32) : place = other := by
  have equal : BitVec.ofNat 32 place = BitVec.ofNat 32 other := by
    unfold seqAt at same
    bv_omega
  have mods := congrArg BitVec.toNat equal
  rw [BitVec.toNat_ofNat, BitVec.toNat_ofNat] at mods
  omega

theorem takePayload_grows (returned : List Byte) (t : Tcb) (seg : Segment) :
    received returned t ≤ received returned (takePayload t seg) ∧
      (takePayload t seg).finRcvd = t.finRcvd := by
  unfold takePayload
  split
  · refine ⟨?_, rfl⟩
    simp only [received]
    omega
  · exact ⟨Nat.le_refl _, rfl⟩

/-- A FIN taken stands right behind the last byte received. -/
theorem fin_last (held : Receiving peer returned (takePayload t seg))
    (phase : t.state.phase = .going ∨ t.state.phase = .ended) (seq : seg.seq = seqAt peer.irs place)
    (close : near (received returned t) seg place) (last : place + seg.dlen = peer.stream.length)
    (stops : seg.stop = (takePayload t seg).rcvNxt) :
    t.state.phase = .going ∧
      returned.length + (takePayload t seg).rlen = peer.stream.length := by
  have phase' : (takePayload t seg).state.phase = .going ∨
      (takePayload t seg).state.phase = .ended := by
    rw [takePayload_state]
    exact phase
  have fits := held.fits
  obtain ⟨grows, finRcvd⟩ := takePayload_grows returned t seg
  unfold Segment.stop at stops
  rw [seq, seqAt_add, held.place phase', last] at stops
  have bound : received returned (takePayload t seg) ≤ peer.stream.length + 1 := by
    simp only [received]
    split <;> omega
  have all : peer.stream.length = received returned (takePayload t seg) :=
    seqAt_inj stops (by have := close.2; omega) (by omega)
  have going : t.state.phase = .going := by
    refine phase.resolve_right fun ends => ?_
    have fin : (takePayload t seg).finRcvd = true :=
      held.ended (by rw [takePayload_state]; exact ends)
    have whole := held.whole fin
    simp only [received, if_pos fin] at all
    omega
  have noFin : (takePayload t seg).finRcvd = false :=
    held.unended (.inr (by rw [takePayload_state]; exact going))
  refine ⟨going, ?_⟩
  simp only [received, noFin] at all
  simpa using all.symm

section
variable (held : Receiving peer returned t)
include held

theorem takeFin_receiving (going : t.state.phase = .going)
    (whole : returned.length + t.rlen = peer.stream.length) :
    Receiving peer returned (takeFin hz now t) := by
  have noFin := held.unended (.inr going)
  have ends (state : TcbState) (due : Nat) (phase : state.phase = .ended) :
      Receiving peer returned { t with
        rcvNxt := t.rcvNxt + 1, finRcvd := true, state := state, twDue := due } := by
    refine ⟨held.room, held.content, ?_, ?_, fun _ => whole, ?_, fun _ => rfl, fun _ _ => rfl,
      held.live, ?_⟩
    · intro waits
      have same : state.phase = .waiting := waits
      rw [phase] at same
      cases same
    · intro _
      change t.rcvNxt + BitVec.ofNat 32 1 = _
      rw [held.place (.inl going), seqAt_add]
      simp [received, noFin]
    · intro goes
      have same : state.phase = .waiting ∨ state.phase = .going := goes
      rw [phase] at same
      rcases same with same | same <;> cases same
    · intro unused closed
      have gone := held.freed unused closed
      rw [noFin] at gone
      cases gone.1
  unfold takeFin
  cases state : t.state with
  | established => exact ends _ t.twDue rfl
  | synRcvd => exact ends _ t.twDue rfl
  | finWait1 => exact ends _ _ (by split <;> rfl)
  | finWait2 => exact ends _ _ rfl
  | _ =>
    rw [state] at going
    cases going

theorem taken_receiving (phase : t.state.phase = .going ∨ t.state.phase = .ended)
    (seq : seg.seq = seqAt peer.irs place) (data : seg.data <+: peer.stream.drop place)
    (fin : seg.flags.fin = true → place + seg.dlen = peer.stream.length)
    (close : near (received returned t) seg place) :
    Receiving peer returned (taken hz now t seg) := by
  have kept := takePayload_receiving held phase seq data close
  unfold taken
  by_cases ends : finLeft t seg = true ∧ seg.stop = (takePayload t seg).rcvNxt
  · rw [if_pos (by simp [ends])]
    have flag : seg.flags.fin = true := by
      have left := ends.1
      simp only [finLeft, Bool.and_eq_true] at left
      exact left.1
    obtain ⟨going, whole⟩ := fin_last kept phase seq close (fin flag) ends.2
    exact takeFin_receiving kept (by rw [takePayload_state]; exact going) whole
  · rw [if_neg (by simpa using ends)]
    exact kept

/-- A block given up keeps what its reader is owed. -/
theorem Receiving.freed_block (rlen : after.rlen = t.rlen) (rbuf : after.rbuf = t.rbuf)
    (rhead : after.rhead = t.rhead) (finRcvd : after.finRcvd = t.finRcvd)
    (finished : after.state.phase = .finished) (unused : after.used = false)
    (freed : after.convState = .closed → t.finRcvd = true ∧ t.rlen = 0) :
    Receiving peer returned after := by
  constructor
  · rw [rlen]
    exact held.room
  · rw [rbuf, rhead, rlen]
    exact held.content
  · intro waits
    rw [finished] at waits
    cases waits
  · intro goes
    rw [finished] at goes
    rcases goes with goes | goes <;> cases goes
  · rw [finRcvd, rlen]
    exact held.whole
  · intro goes
    rw [finished] at goes
    rcases goes with goes | goes <;> cases goes
  · intro ends
    rw [finished] at ends
    cases ends
  · intro used
    rw [unused] at used
    cases used
  · intro used
    rw [unused] at used
    cases used
  · intro _ closed
    rw [finRcvd, rlen]
    exact freed closed

theorem Receiving.died (used : t.used = true) : Receiving peer returned (tcpDied t) := by
  refine held.freed_block rfl rfl rfl rfl rfl rfl ?_
  intro closed
  have alive := (held.live used).2
  unfold tcpDied tcbFree at closed
  cases conv : t.conv <;> simp [conv, alive] at closed

theorem Receiving.finish (used : t.used = true) (fin : t.finRcvd = true) :
    Receiving peer returned (tcbFinish t) := by
  have alive := held.live used
  unfold tcbFinish
  by_cases unread : t.conv = true ∧ t.rlen > 0
  · rw [if_pos unread]
    refine ⟨held.room, held.content, fun waits => (by cases waits), ?_, held.whole, ?_,
      fun ends => (by cases ends), fun _ _ => fin, held.live, held.freed⟩
    · rintro (goes | goes) <;> cases goes
    · rintro (goes | goes) <;> cases goes
  · rw [if_neg unread]
    refine held.freed_block rfl rfl rfl rfl rfl rfl ?_
    intro closed
    refine ⟨fin, ?_⟩
    cases conv : t.conv with
    | true =>
      simp only [conv, true_and] at unread
      omega
    | false => simp [tcbFree, conv, alive.2] at closed

def TcbState.started (state : TcbState) : Prop :=
  state.phase = .going ∨ state.phase = .ended

theorem takeAck_receiving (started : t.state.started) {acks : Tcb}
    (took : takeAck hz now t seg = some acks) :
    Receiving peer returned acks ∧ acks.state.started ∧
      received returned acks = received returned t := by
  have receiver := takeAck_receiver took
  have phase : acks.state.phase = t.state.phase := by
    rcases takeAck_cases took with ⟨early, _, rfl⟩ | ⟨_, _, rfl⟩ | ⟨_, _, rfl⟩
    · rw [early]
      rfl
    · exact congrArg TcbState.phase (tcpAcked_state t)
    · rfl
  have rlen : acks.rlen = t.rlen := congrArg Receiver.rlen receiver
  have finRcvd : acks.finRcvd = t.finRcvd := congrArg Receiver.finRcvd receiver
  refine ⟨held.moved receiver phase, ?_, by simp only [received, rlen, finRcvd]⟩
  unfold TcbState.started
  rw [phase]
  exact started

end

theorem afterFin_phase (hz now : Nat) (t : Tcb) : (afterFin hz now t).state.phase = t.state.phase := by
  unfold afterFin
  split
  · split
    · next state => rw [state]; rfl
    · next state => rw [state]; rfl
    · rfl
  · rfl

theorem inputData_receiving (held : Receiving peer returned t) (used : t.used = true)
    (started : t.state.started) (seq : seg.seq = seqAt peer.irs place)
    (data : seg.data <+: peer.stream.drop place)
    (fin : seg.flags.fin = true → place + seg.dlen = peer.stream.length)
    (close : near (received returned t) seg place) :
    Receiving peer returned (inputData hz now t seg) := by
  have kept : Receiving peer returned (taken hz now t seg) :=
    taken_receiving held started seq data fin close
  have stays : (taken hz now t seg).used = true := by
    rw [← used]
    unfold taken takeFin takePayload
    repeat' split
    all_goals rfl
  rcases inputData_cases hz now t seg with ⟨died, _⟩ | ⟨_, sent, which, output⟩
  · rw [died]
    exact (kept.send _ _ _).died stays
  · rw [output]
    rcases which with rfl | rfl
    · exact tcpOutput_receiving kept
    · exact tcpOutput_receiving (kept.send _ _ _)

theorem Input.receiving (outcome : Input hz now t seg after) (held : Receiving peer returned t)
    (used : t.used = true) (started : t.state.started)
    (conforms : peer.sends (near (received returned t) seg) seg) :
    Receiving peer returned after := by
  cases outcome with
  | dropped => exact held
  | answered => exact held.moved rfl rfl
  | reset _ quiet =>
    rcases quiet with rfl | rfl
    · exact held.died used
    · exact (held.send _ _ _).died used
  | finished acks _ took _ last =>
    obtain ⟨kept, _, _⟩ := takeAck_receiving held started took
    have used' : acks.used = true := (congrArg Receiver.used (takeAck_receiver took)).trans used
    exact kept.finish used' (kept.ended (by rw [last]; rfl))
  | data acks reaches took =>
    obtain ⟨kept, started', same⟩ := takeAck_receiving held started took
    have receiver : (afterFin hz now acks).receiver = t.receiver :=
      afterFin_receiver.trans (takeAck_receiver took)
    have phase := afterFin_phase hz now acks
    have same' : received returned (afterFin hz now acks) = received returned t := by
      have rlen : (afterFin hz now acks).rlen = t.rlen := congrArg Receiver.rlen receiver
      have finRcvd : (afterFin hz now acks).finRcvd = t.finRcvd :=
        congrArg Receiver.finRcvd receiver
      simp only [received, rlen, finRcvd]
    obtain ⟨_, noRst, noSyn, _⟩ := reaches
    unfold Peer.sends at conforms
    rw [if_neg (by simp [noSyn])] at conforms
    obtain ⟨place, close, seq, data, fin⟩ := conforms.resolve_left (by simp [noRst])
    refine inputData_receiving (kept.moved afterFin_receiver phase)
      ((congrArg Receiver.used receiver).trans used) ?_ seq data fin ?_
    · unfold TcbState.started
      rw [phase]
      exact started'
    · rw [same']
      exact close

theorem offered_receiving (held : Receiving peer returned t) (waiting : t.state.phase = .waiting)
    (syn : seg.seq = peer.irs) (state : TcbState) (phase : state.phase = .going) :
    Receiving peer returned { offered t seg with state := state } := by
  obtain ⟨none, empty⟩ := held.fresh waiting
  have noFin := held.unended (.inl waiting)
  refine ⟨held.room, held.content, fun waits => ?_, fun _ => ?_, held.whole, fun _ => noFin,
    fun ends => ?_, fun _ finished => ?_, held.live, held.freed⟩
  · have same : state.phase = .waiting := waits
    rw [phase] at same
    cases same
  · change seg.seq + 1 = seqAt peer.irs (returned.length + t.rlen + if t.finRcvd then 1 else 0)
    rw [syn, none, empty, noFin]
    simp [seqAt]
  · have same : state.phase = .ended := ends
    rw [phase] at same
    cases same
  · have same : state.phase = .finished := finished
    rw [phase] at same
    cases same

theorem Opening.receiving (outcome : Opening hz now t seg after) (held : Receiving peer returned t)
    (used : t.used = true) (state : t.state = .synSent)
    (conforms : peer.sends (near (received returned t) seg) seg) :
    Receiving peer returned after := by
  have waiting : t.state.phase = .waiting := by rw [state]; rfl
  cases outcome with
  | dropped => exact held
  | refused => exact held.died used
  | opened syn =>
    unfold Peer.sends at conforms
    rw [if_pos syn] at conforms
    have begun := offered_receiving held waiting conforms .established rfl
    apply tcpOutput_receiving
    exact begun.moved (tcpAcked_receiver (offered t seg) seg.ack) rfl
  | crossed syn =>
    unfold Peer.sends at conforms
    rw [if_pos syn] at conforms
    exact (offered_receiving held waiting conforms .synRcvd rfl).send _ _ _

theorem tcpInput_receiving (held : Receiving peer returned t) (used : t.used = true)
    (conforms : peer.sends (near (received returned t) seg) seg) :
    Receiving peer returned (tcpInput hz now t seg) := by
  unfold tcpInput
  cases state : t.state with
  | closed => exact held
  | listen => exact held
  | synSent => exact (inputSynSent_cases t seg).receiving held used state conforms
  | synRcvd | established | finWait1 | finWait2 =>
    exact (inputSynchronized_cases t seg).receiving held used (.inl (by rw [state]; rfl)) conforms
  | closeWait | closing | lastAck | timeWait =>
    exact (inputSynchronized_cases t seg).receiving held used (.inr (by rw [state]; rfl)) conforms

theorem Expired.receiving (outcome : Expired hz now t after) (held : Receiving peer returned t)
    (used : t.used = true) : Receiving peer returned after := by
  cases outcome with
  | waiting => exact held
  | gaveUp _ quiet =>
    rcases quiet with rfl | rfl
    · exact (held.moved rfl rfl : Receiving peer returned
        { t with retries := t.retries + 1 }).died used
    · exact (held.moved rfl rfl : Receiving peer returned
        (tcpSend { t with retries := t.retries + 1 } thRst t.sndNxt [])).died used
  | retried _ tried same =>
    subst same
    have phase : ∀ tried : Tcb, (retransmit now tried).state.phase = tried.state.phase := by
      intro tried
      unfold retransmit
      split
      · rfl
      · rfl
      · exact tcpOutput_phase (rolledBack tried)
    exact held.moved (retransmit_receiver _) (phase _)

section
variable (held : Receiving peer returned t)
include held

theorem tcpTimers_receiving (used : t.used = true) :
    Receiving peer returned (tcpTimers hz now t) := by
  rcases tcpTimers_cases hz now t with
    ⟨lingers, done | same⟩ | ⟨finished, same | ⟨freed, drained⟩⟩ | ⟨_, _, expired⟩
  · rw [done]
    exact held.finish used (held.ended (by rw [lingers]; rfl))
  · rw [same]
    exact held
  · rw [same]
    exact held
  · rw [freed]
    have phase : t.state.phase = .finished := by rw [finished]; rfl
    refine held.freed_block rfl rfl rfl rfl phase rfl ?_
    intro closed
    refine ⟨held.finished used phase, ?_⟩
    cases conv : t.conv with
    | true => exact drained conv
    | false => simp [tcbFree, conv, (held.live used).2] at closed
  · exact expired.receiving held used

/-- Bytes read move from the queue to what was returned. -/
theorem readOut_receiving (used : t.used = true) (count : Nat) :
    Receiving peer
      (returned ++ Ring.read tcpBuf t.rbuf t.rhead (min t.rlen count))
      (readOut t (min t.rlen count)) := by
  have length : (returned ++ Ring.read tcpBuf t.rbuf t.rhead (min t.rlen count)).length +
      (t.rlen - min t.rlen count) = returned.length + t.rlen := by
    rw [List.length_append, Ring.read_length]
    omega
  have room := held.room
  refine ⟨?_, ?_, ?_, ?_, ?_, held.unended, held.ended, held.finished, held.live, ?_⟩
  · change t.rlen - min t.rlen count ≤ tcpBuf
    omega
  · change _ ++ Ring.read tcpBuf t.rbuf ((t.rhead + min t.rlen count) % tcpBuf)
      (t.rlen - min t.rlen count) = peer.stream.take (_ + (t.rlen - min t.rlen count))
    rw [length, ← held.content, List.append_assoc, Ring.read_drop]
    have whole := List.take_append_drop (min t.rlen count)
      (Ring.read tcpBuf t.rbuf t.rhead t.rlen)
    rw [← Ring.read_take, Nat.min_eq_right (Nat.min_le_left t.rlen count)] at whole
    rw [whole]
  · intro waits
    obtain ⟨none, empty⟩ := held.fresh waits
    rw [none, empty]
    refine ⟨by simp [Ring.read_zero], ?_⟩
    change t.rlen - _ = 0
    omega
  · intro goes
    change t.rcvNxt = seqAt peer.irs (_ + (t.rlen - min t.rlen count) +
      if t.finRcvd then 1 else 0)
    rw [length]
    exact held.place goes
  · intro fin
    change _ + (t.rlen - min t.rlen count) = _
    rw [length]
    exact held.whole fin
  · intro unused
    have gone : t.used = false := unused
    rw [used] at gone
    cases gone

theorem tcpRead_receiving (max : Nat) :
    Receiving peer (returned ++ (tcpRead t max).2.1) (tcpRead t max).2.2 := by
  have outcome := tcpRead_cases t max
  generalize tcpRead t max = result at outcome
  cases outcome with
  | gone => simpa using held
  | empty => simpa using held
  | freed used drained closed =>
    have phase : t.state.phase = .finished := by rw [closed]; rfl
    rw [List.append_nil]
    exact held.freed_block rfl rfl rfl rfl phase rfl fun _ => ⟨held.finished used phase, drained⟩
  | bytes used _ _ which =>
    have kept := readOut_receiving held used max
    rcases which with rfl | rfl
    · exact kept
    · exact kept.send _ _ _

theorem Receiving.end_of_file {max : Nat} (asked : 0 < max)
    (zero : (tcpRead t max).1 = 0) : returned = peer.stream ∧ t.finRcvd = true := by
  have done (fin : t.finRcvd = true) (drained : t.rlen = 0) :
      returned = peer.stream ∧ t.finRcvd = true := by
    refine ⟨?_, fin⟩
    have content := held.content
    have whole := held.whole fin
    rw [drained, Ring.read_zero, List.append_nil] at content
    rw [drained] at whole
    rw [content, whole, List.take_length]
  have outcome := tcpRead_cases t max
  generalize tcpRead t max = result at outcome zero
  cases outcome with
  | gone _ unused ended =>
    obtain ⟨fin, drained⟩ := held.freed unused (ended zero)
    exact done fin drained
  | empty _ _ drained ended => exact done (ended zero) drained
  | freed used drained closed => exact done (held.finished used (by rw [closed]; rfl)) drained
  | bytes =>
    omega

theorem Receiving.asked (conv wantFin : Bool) :
    Receiving peer returned { t with conv := conv, wantFin := wantFin } :=
  ⟨held.room, held.content, held.fresh, held.place, held.whole, held.unended, held.ended,
    held.finished, held.live, held.freed⟩

theorem hangup_receiving : Receiving peer returned (hangup now t) := by
  by_cases used : t.used = true
  · rcases hangup_cases now t with alone | stopped | closes
    · rw [alone]
      exact held.asked false t.wantFin
    · rw [stopped]
      refine held.freed_block rfl rfl rfl rfl rfl rfl ?_
      intro closed
      simp [tcbFree, (held.live used).2] at closed
    · rw [closes]
      exact tcpOutput_receiving (held.asked false true)
  · unfold hangup
    rw [if_neg used]
    exact held.asked false t.wantFin

theorem tcpShutdown_receiving : Receiving peer returned (tcpShutdown now t) := by
  unfold tcpShutdown
  split
  · exact tcpOutput_receiving (held.asked t.conv true)
  · exact held

theorem tcpWrite_receiving (data : List Byte) :
    Receiving peer returned (tcpWrite now t data).2 := by
  rcases tcpWrite_cases now t data with ⟨same, _⟩ | ⟨_, _, _, output⟩
  · rw [same]
    exact held
  · rw [output]
    apply tcpOutput_receiving
    exact held.moved rfl rfl

end
/-- The condition on a step: a segment is the peer's, from a place close to what is received,
and acknowledges what was accepted. -/
def Conforms (close : Nat → Segment → Nat → Prop) (peer : Peer) (c : Connection)
    (action : Action) : Prop :=
  Honest c action ∧
    match action.event with
    | .segment seg => peer.sends (close (received c.returned c.tcb) seg) seg
    | _ => True

def Peer.greets (peer : Peer) (c : Connection) : Prop :=
  c.tcb.state = .synRcvd → c.tcb.rcvNxt = peer.irs + 1

def Connection.Receiving (peer : Peer) (c : Connection) : Prop :=
  Tcp.Receiving peer c.returned c.tcb

theorem Born.receiving {c : Connection} (born : Born hz c) (greets : peer.greets c) :
    c.Receiving peer := by
  cases born with
  | connect =>
    refine ⟨Nat.zero_le _, rfl, fun _ => ⟨rfl, rfl⟩, ?_, fun fin => (by cases fin),
      fun _ => rfl, fun ends => (by cases ends), fun _ finished => (by cases finished),
      fun _ => ⟨rfl, fun done => (by cases done)⟩, fun unused => (by cases unused)⟩
    rintro (goes | goes) <;> cases goes
  | listen =>
    refine ⟨Nat.zero_le _, rfl, fun _ => ⟨rfl, rfl⟩, ?_, fun fin => (by cases fin),
      fun _ => rfl, fun ends => (by cases ends), fun _ finished => (by cases finished),
      fun _ => ⟨rfl, fun done => (by cases done)⟩, fun unused => (by cases unused)⟩
    rintro (goes | goes) <;> cases goes
  | accept =>
    refine ⟨Nat.zero_le _, rfl, fun _ => ⟨rfl, rfl⟩, ?_, fun fin => (by cases fin),
      fun _ => rfl, fun ends => (by cases ends), fun _ finished => (by cases finished),
      fun _ => ⟨rfl, fun done => (by cases done)⟩, fun unused => (by cases unused)⟩
    have first := greets rfl
    rw [first]
    simp [seqAt, received, inputListen, tcpSend, tcpArmRtx, tcbAlloc]

theorem step_receiving {c after : Connection} {action : Action} (held : c.Receiving peer)
    (conforms : Conforms near peer c action) (stepped : step hz c action = some after) :
    after.Receiving peer := by
  have conforms := conforms.2
  obtain ⟨now, event⟩ := action
  cases step_cases stepped with
  | write data =>
    exact tcpWrite_receiving held data
  | read max =>
    exact tcpRead_receiving held max
  | shutdown =>
    exact tcpShutdown_receiving held
  | hangup =>
    exact hangup_receiving held
  | segment _ used =>
    exact tcpInput_receiving held used conforms
  | timers used =>
    exact tcpTimers_receiving held used

/-- Every byte sent stands at its place in what was accepted; what was read is the peer's
stream from its start; and a read of at least one byte returns 0 only after all of it. -/
structure Integrity (peer : Peer) (c : Connection) : Prop where
  placed : ∀ sent ∈ c.tcb.segsOut, carries c.tcb.iss c.accepted sent
  inOrder : c.returned <+: peer.stream
  endOfFile : ∀ max, 0 < max → (tcpRead c.tcb max).1 = 0 →
    c.returned = peer.stream ∧ c.tcb.finRcvd = true

theorem stream_integrity (hz : Nat) (peer : Peer) {start c : Connection} (born : Born hz start)
    (greets : peer.greets start) (run : Reach (step hz) (Conforms near peer) start c) :
    Integrity peer c := by
  have kept : c.Placed ∧ c.Receiving peer := by
    refine run.invariant (fun c => c.Placed ∧ c.Receiving peer)
      ⟨born.placed, born.receiving greets⟩ ?_
    intro before action after held conforms stepped
    exact ⟨step_placed held.1 conforms.1 stepped, step_receiving held.2 conforms stepped⟩
  obtain ⟨⟨_, placed⟩, receiving⟩ := kept
  refine ⟨placed.sent, ?_, fun max asked zero => receiving.end_of_file asked zero⟩
  have front := List.prefix_append c.returned
    (Ring.read tcpBuf c.tcb.rbuf c.tcb.rhead c.tcb.rlen)
  rw [receiving.content] at front
  exact front.trans (List.take_prefix _ _)

def synAck : Action := ⟨2, .segment ⟨1000, 1, ⟨false, true, false, true⟩, 0, 0, []⟩⟩

def zeroAt (place : Nat) : Segment := ⟨seqAt 1000 place, 1, thAck, 0, 0, [0]⟩

/-- A block that sends nothing, after `count` bytes were received and read. -/
structure Quiet (count : Nat) (t : Tcb) : Prop where
  used : t.used = true
  conv : t.conv = true
  state : t.state = .established
  una : t.sndUna = 1
  iss : t.iss = 0
  unwanted : t.wantFin = false
  sbuf : t.sbuf = []
  rlen : t.rlen = 0
  rcvNxt : t.rcvNxt = seqAt 1000 count

theorem tcpOutput_quiet (sbuf : t.sbuf = []) (unwanted : t.wantFin = false) :
    tcpOutput now t = t := by
  unfold tcpOutput
  split
  · simp [sbuf, outputData, finDue, unwanted]
  · rfl

def zeroQueued (count : Nat) (t : Tcb) : Tcb :=
  { t with
    rbuf := Ring.write tcpBuf t.rbuf (t.rhead + t.rlen) [0]
    rlen := 1
    rcvNxt := seqAt 1000 (count + 1) }

variable {count : Nat}

theorem inputData_zero (quiet : Quiet count t) :
    inputData hz now t (zeroAt count) =
      tcpSend (zeroQueued count t) thAck t.sndNxt [] := by
  have none : skipped t (zeroAt count) = 0 := by simp [skipped, zeroAt, quiet.rcvNxt]
  have length : (zeroAt count).dlen = 1 := rfl
  have one : kept t (zeroAt count) = 1 := by
    simp [kept, none, length, tcpRwnd, quiet.rlen, tcpBuf]
  have takes : takesPayload t (zeroAt count) = true := by
    simp [takesPayload, quiet.state, TcbState.receives, zeroAt, Segment.dlen]
  have fills : takePayload t (zeroAt count) = zeroQueued count t := by
    unfold takePayload
    rw [if_pos ⟨takes, by simp [none, length]⟩, one, none, quiet.rcvNxt, seqAt_add]
    simp [zeroQueued, zeroAt, quiet.rlen]
  have left : finLeft t (zeroAt count) = false := by simp [finLeft, zeroAt, thAck]
  have conv : (zeroQueued count t).conv = true := quiet.conv
  unfold inputData
  simp only [left, Bool.false_and, Bool.false_eq_true, if_false, fills, conv, takes]
  exact tcpOutput_quiet quiet.sbuf quiet.unwanted

theorem tcpInput_zero (hz now : Nat) (quiet : Quiet count t) :
    tcpInput hz now t (zeroAt count) =
      tcpSend (zeroQueued count { t with sndWnd := 0 }) thAck t.sndNxt [] := by
  have past : tcpInput hz now t (zeroAt count) = inputSynchronized hz now t (zeroAt count) := by
    unfold tcpInput
    rw [quiet.state]
  have here : acceptable t (zeroAt count) = true := by
    simp [acceptable, inWindow, zeroAt, quiet.rcvNxt]
  have acks : takeAck hz now t (zeroAt count) = some { t with sndWnd := 0 } := by
    unfold takeAck
    rw [if_neg (by simp [quiet.state]),
      if_neg (by simp [ackValid, seqLt, zeroAt, quiet.una])]
    rfl
  have shut : Quiet count { t with sndWnd := 0 } :=
    ⟨quiet.used, quiet.conv, quiet.state, quiet.una, quiet.iss, quiet.unwanted, quiet.sbuf,
      quiet.rlen, quiet.rcvNxt⟩
  have goes : afterFin hz now { t with sndWnd := 0 } = { t with sndWnd := 0 } := by
    generalize { t with sndWnd := 0 } = after at shut
    simp [afterFin, shut.state]
  rw [past]
  unfold inputSynchronized
  rw [if_neg (by simp [quiet.state]), if_neg (by simp [here]), acks]
  change (if finAcked { t with sndWnd := 0 } = true ∧ t.state = .lastAck then _ else _) = _
  rw [if_neg (by simp [quiet.state]), goes]
  exact inputData_zero shut

/-- A quiet connection on which zeros were received and read. -/
structure Listening (count : Nat) (c : Connection) : Prop where
  quiet : Quiet count c.tcb
  accepted : c.accepted = []
  acked : c.acked = 1
  returned : c.returned = List.replicate count 0

theorem zeroQueued_read (quiet : Quiet count t) (wnd : Nat) :
    Ring.read tcpBuf (zeroQueued count { t with sndWnd := wnd }).rbuf t.rhead 1 = [0] := by
  have queued := @Ring.read_write Byte tcpBuf t.rbuf t.rhead 0 [0] (by decide)
  rw [quiet.rlen]
  exact queued

theorem tcpRead_zero (quiet : Quiet count t) (sent : Tcb)
    (queued : sent = tcpSend (zeroQueued count { t with sndWnd := 0 }) thAck t.sndNxt []) :
    (tcpRead sent 1).2.1 = [0] ∧ Quiet (count + 1) (tcpRead sent 1).2.2 := by
  have used : sent.used = true := by rw [queued]; exact quiet.used
  have rlen : sent.rlen = 1 := by rw [queued]; rfl
  have bytes : Ring.read tcpBuf sent.rbuf sent.rhead 1 = [0] := by
    rw [queued]
    exact zeroQueued_read quiet 0
  have out : Quiet (count + 1) (readOut sent (min sent.rlen 1)) := by
    rw [queued]
    exact ⟨quiet.used, quiet.conv, quiet.state, quiet.una, quiet.iss, quiet.unwanted,
      quiet.sbuf, rfl, rfl⟩
  have outcome := tcpRead_cases sent 1
  generalize tcpRead sent 1 = result at outcome
  cases outcome with
  | gone _ unused =>
    rw [used] at unused
    cases unused
  | empty _ _ drained =>
    rw [rlen] at drained
    cases drained
  | freed _ drained =>
    rw [rlen] at drained
    cases drained
  | bytes _ _ _ which =>
    rw [rlen] at which ⊢
    refine ⟨bytes, ?_⟩
    rw [rlen] at out
    rcases which with rfl | rfl
    · exact out
    · exact ⟨out.used, out.conv, out.state, out.una, out.iss, out.unwanted, out.sbuf, out.rlen,
        out.rcvNxt⟩

/-- One more zero arrives and is read. -/
theorem Listening.next (hz : Nat) {c : Connection} {peer : Peer} (listening : Listening count c)
    (sends : peer.sends (fun _ => True) (zeroAt count)) :
    ∃ after, Reach (step hz) (Conforms (fun _ _ _ => True) peer) c after ∧
      Listening (count + 1) after := by
  have quiet := listening.quiet
  have tcb := tcpInput_zero hz 3 quiet
  obtain ⟨middle, heard, same, accepted, returned, acked⟩ : ∃ middle,
      step hz c ⟨3, .segment (zeroAt count)⟩ = some middle ∧
        middle.tcb = tcpSend (zeroQueued count { c.tcb with sndWnd := 0 }) thAck c.tcb.sndNxt [] ∧
        middle.accepted = c.accepted ∧ middle.returned = c.returned ∧ middle.acked = 1 := by
    refine ⟨_, if_pos quiet.used, tcb, rfl, rfl, ?_⟩
    rw [tcb, listening.acked]
    change 1 + (c.tcb.sndUna - c.tcb.sndUna).toNat = 1
    simp
  obtain ⟨bytes, quiet'⟩ := tcpRead_zero quiet middle.tcb same
  have conv : middle.tcb.conv = true := by
    rw [same]
    exact quiet.conv
  have read : step hz middle ⟨4, .read 1⟩ = some { middle with
      tcb := (tcpRead middle.tcb 1).2.2
      returned := middle.returned ++ (tcpRead middle.tcb 1).2.1 } := by
    simp only [step, conv, if_true]
  have honest : Honest c ⟨3, .segment (zeroAt count)⟩ := by
    intro _
    refine ⟨1, ?_, by omega, by rw [listening.acked]; decide⟩
    rw [quiet.iss]
    rfl
  have arrived : Reach (step hz) (Conforms (fun _ _ _ => True) peer) c middle :=
    .next ⟨3, .segment (zeroAt count)⟩ .start ⟨honest, sends⟩ heard
  refine ⟨_, .next ⟨4, .read 1⟩ arrived ⟨trivial, trivial⟩ read, quiet', ?_, acked, ?_⟩
  · exact accepted.trans listening.accepted
  · rw [bytes, returned, listening.returned, List.replicate_succ']

def heard : Connection := (step 10000000 dialled synAck).get (by decide)

theorem heard_reach (close : Nat → Segment → Nat → Prop) (stream : List Byte) :
    Reach (step 10000000) (Conforms close ⟨1000, stream⟩) dialled heard := by
  refine .next synAck .start ⟨?_, rfl⟩ (Option.some_get (by decide)).symm
  intro _
  exact ⟨1, rfl, by decide, by decide⟩

theorem heard_listening : Listening 0 heard :=
  ⟨⟨by decide, by decide, by decide, by decide, by decide,
    by decide, by decide, by decide, by decide⟩,
    by decide, by decide, by decide⟩

def manyZeros (zeros : Nat) : Peer := ⟨1000, List.replicate zeros 0 ++ [1]⟩

theorem zero_sent {zeros : Nat} (places : Nat → Prop) (place : Nat) (within : place < zeros)
    (allowed : places place) (same : seqAt 1000 count = seqAt 1000 place) :
    (manyZeros zeros).sends places (zeroAt count) := by
  refine .inr ⟨place, allowed, same, ?_, fun fin => (by cases fin)⟩
  change [(0 : Byte)] <+: (List.replicate zeros (0 : Byte) ++ [1]).drop place
  rw [List.drop_append_of_le_length (by simpa using Nat.le_of_lt within), List.drop_replicate]
  obtain ⟨rest, more⟩ := Nat.exists_eq_succ_of_ne_zero (Nat.sub_ne_zero_of_lt within)
  rw [more]
  exact ⟨_, rfl⟩

theorem zeros_received {zeros : Nat} (within : count ≤ zeros) :
    ∃ c, Reach (step 10000000) (Conforms (fun _ _ _ => True) (manyZeros zeros)) dialled c ∧
      Listening count c := by
  induction count with
  | zero => exact ⟨heard, heard_reach _ _, heard_listening⟩
  | succ count ih =>
    obtain ⟨before, run, listening⟩ := ih (by omega)
    obtain ⟨after, more, listening'⟩ := listening.next 10000000
      (zero_sent (fun _ => True) count within trivial rfl)
    exact ⟨after, run.trans more, listening'⟩

/-- After a turn of the sequence numbers the first zero, come again, is taken for the one. -/
theorem late_zero_returned (zeros : Nat) (begins : 0 < zeros)
    (turn : seqAt 1000 zeros = seqAt 1000 0) :
    ∃ c, Reach (step 10000000) (Conforms (fun _ _ _ => True) (manyZeros zeros)) dialled c ∧
      ¬ c.returned <+: (manyZeros zeros).stream := by
  obtain ⟨before, run, listening⟩ := zeros_received (Nat.le_refl zeros)
  obtain ⟨after, more, listening'⟩ := listening.next 10000000
    (zero_sent (fun _ => True) 0 begins trivial turn)
  refine ⟨after, run.trans more, fun inOrder => ?_⟩
  rw [listening'.returned] at inOrder
  have same := inOrder.eq_of_length (by simp [manyZeros])
  rw [List.replicate_succ'] at same
  have last := List.append_cancel_left same
  exact absurd last (by decide)

def twoBytes : Peer := ⟨1000, [0, 7]⟩

def Early (c : Connection) (action : Action) : Prop :=
  match action.event with
  | .segment seg => c.acked < 3 ∧ received c.returned c.tcb < 4 ∧ seg.flags.syn = false ∧
      (∃ count < 3, seg.ack = c.tcb.iss + BitVec.ofNat 32 count) ∧
      ∃ place < 3, seg.seq = seqAt 1000 place ∧ seg.data <+: twoBytes.stream.drop place ∧
        (seg.flags.fin = true → place + seg.dlen = 2)
  | _ => True

instance (c : Connection) : ∀ action, Decidable (Early c action)
  | ⟨_, .segment _⟩ => inferInstanceAs (Decidable (_ ∧ _))
  | ⟨_, .write _⟩ | ⟨_, .read _⟩ | ⟨_, .shutdown⟩ | ⟨_, .hangup⟩ | ⟨_, .timers⟩ => .isTrue trivial

theorem Early.conforms (early : Early c action) : Conforms near twoBytes c action := by
  obtain ⟨now, event⟩ := action
  cases event with
  | segment seg =>
    obtain ⟨acked, got, syn, ⟨count, counts, acks⟩, place, within, here, carried, fin⟩ := early
    refine ⟨fun _ => ⟨count, acks, by omega, by omega⟩, ?_⟩
    change Peer.sends _ _ seg
    rw [Peer.sends, if_neg (by simp [syn])]
    have short : seg.dlen ≤ 2 - place := by
      simpa [twoBytes, Segment.dlen] using carried.length_le
    exact .inr ⟨place, ⟨by omega, by omega⟩, here, carried, fin⟩
  | _ => exact ⟨trivial, trivial⟩

/-- The second byte comes first, the first one twice, and what was written is acknowledged. -/
def reordered : List Action :=
  let first : Segment := ⟨1001, 1, thAck, 512, 0, [0]⟩
  let second : Segment := ⟨1002, 2, thFinAck, 512, 0, [7]⟩
  [⟨3, .write [5]⟩, ⟨3, .segment { second with ack := 1 }⟩, ⟨4, .segment first⟩, ⟨5, .read 4⟩,
    ⟨6, .segment first⟩, ⟨7, .segment second⟩, ⟨8, .read 4⟩]


def talk (count : Nat) : Connection :=
  outcome (step 10000000) Early heard (reordered.take count)

theorem talk_reach
    (complete : (replay (step 10000000) Early heard (reordered.take count)).isSome = true) :
    Reach (step 10000000) (Conforms near twoBytes) dialled (talk count) :=
  (heard_reach near twoBytes.stream).trans
    ((outcome_reach _ heard complete).mono fun _ _ => Early.conforms)

theorem unread_integrity : Integrity twoBytes (talk 7) ∧
    (talk 7).accepted = [5] ∧ (talk 7).returned = [0, 7] :=
  ⟨stream_integrity 10000000 twoBytes (.connect 1 (fun _ => 0) 0) (fun early => (by cases early))
    (talk_reach (by decide)), by decide, by decide⟩

/-- A read of nothing returns 0 before the end, and a segment a turn late is not told from
the next one. -/
theorem early_zero_and_late_segment :
    (¬ ∀ (hz : Nat) (peer : Peer) (start c : Connection), Born hz start → peer.greets start →
      Reach (step hz) (Conforms near peer) start c →
      ∀ max, (tcpRead c.tcb max).1 = 0 → c.returned = peer.stream) ∧
    ¬ ∀ (hz : Nat) (peer : Peer) (start c : Connection), Born hz start → peer.greets start →
      Reach (step hz) (Conforms (fun _ _ _ => True) peer) start c →
      c.returned <+: peer.stream := by
  constructor
  · intro always
    have done := always 10000000 twoBytes dialled (talk 3) (.connect 1 (fun _ => 0) 0)
      (fun early => (by cases early)) (talk_reach (by decide)) 0 (by decide)
    exact absurd done (by decide)
  · intro always
    obtain ⟨c, run, broken⟩ := late_zero_returned (2 ^ 32) (by decide) (by decide)
    exact broken (always 10000000 (manyZeros (2 ^ 32)) dialled c (.connect 1 (fun _ => 0) 0)
      (fun early => (by cases early)) run)

end Racccoon.Tcp
