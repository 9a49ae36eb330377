import Racccoon.Tcp.Sender

/-!
The peer's window. Every segment that is taken in sets it, old ones too, and it counts from
`snd_una`, which may have moved since the segment was sent. With each connection stand the
right edges its peer has advertised, as places in the stream; our SYN is at place 0.
-/

namespace Racccoon.Tcp

open Run

structure Offers where
  connection : Connection
  edges : List Int

/-- The place of an acknowledgement, as near to `snd_una` as it can be. -/
def Connection.place (c : Connection) (ack : Seq) : Int :=
  c.acked + (ack - c.tcb.sndUna).toInt

def Event.edges (c : Connection) : Event → List Int
  | .segment seg => if seg.flags.ack then [c.place seg.ack + seg.wnd] else []
  | _ => []

def offer (hz : Nat) (offers : Offers) (action : Action) : Option Offers :=
  (step hz offers.connection action).map fun after =>
    ⟨after, offers.edges ++ action.event.edges offers.connection⟩

variable (offers : Offers)

/-- The window of an older acknowledgement is taken in and reaches, counted from `snd_una`,
beyond every edge. With nothing in flight one half way around is older and yet valid. -/
def Stale (seg : Segment) : Prop :=
  let t := offers.connection.tcb
  t.state.sends = true ∧ reachesAck t seg ∧ (seg.ack - t.sndUna).toInt < 0 ∧
    (ackValid t seg.ack = true ∨ ∀ edge ∈ offers.edges, edge < offers.connection.acked + seg.wnd)

instance (seg : Segment) : Decidable (Stale offers seg) :=
  inferInstanceAs (Decidable (_ ∧ _))

def Current (action : Action) : Prop :=
  match action.event with
  | .segment seg => ¬ Stale offers seg
  | _ => True

instance (action : Action) : Decidable (Current offers action) := by
  obtain ⟨now, event⟩ := action
  cases event with
  | segment seg => exact inferInstanceAs (Decidable (¬ Stale offers seg))
  | _ => exact inferInstanceAs (Decidable True)

/-- What the step sent ends before an edge, or is the probe of a closed window. -/
def Respects (before after : Offers) (action : Action) : Prop :=
  let t := after.connection.tcb
  ∃ new, t.segsOut = before.connection.tcb.segsOut ++ new ∧ ∀ sent ∈ new, sent.data ≠ [] →
    (∃ edge ∈ after.edges,
      after.connection.acked + (sent.seq - t.sndUna).toNat + sent.data.length ≤ edge) ∨
    action.event = .timers ∧ before.connection.tcb.sndWnd = 0 ∧ sent.seq = t.sndUna ∧
      sent.data.length = 1

/-- Segments sent since `before`, with data up to `limit` bytes behind `snd_una`. -/
def Sends (limit : Nat) (before after : Tcb) : Prop :=
  ∃ new, after.segsOut = before.segsOut ++ new ∧ ∀ sent ∈ new, sent.data ≠ [] →
    (sent.seq - after.sndUna).toNat + sent.data.length ≤ limit

section Sending
variable {hz now limit : Nat} {before t : Tcb}

theorem Sends.refl (t : Tcb) : Sends limit t t :=
  ⟨[], by simp, by simp⟩

section
variable (sends : Sends limit before t)
include sends

theorem Sends.moved {after : Tcb} (log : after.segsOut = t.segsOut) (una : after.sndUna = t.sndUna) :
    Sends limit before after := by
  obtain ⟨new, grown, near⟩ := sends
  exact ⟨new, log.trans grown, una ▸ near⟩

theorem Sends.mono {more : Nat} (le : limit ≤ more) : Sends more before t := by
  obtain ⟨new, grown, near⟩ := sends
  exact ⟨new, grown, fun sent member data => Nat.le_trans (near sent member data) le⟩

theorem Sends.empty (flags : Flags) (seq : Seq) : Sends limit before (tcpSend t flags seq []) := by
  obtain ⟨new, grown, near⟩ := sends
  refine ⟨new ++ [_], (congrArg (· ++ [_]) grown).trans (List.append_assoc _ _ _), ?_⟩
  intro sent member data
  rcases List.mem_append.mp member with old | last
  · exact near sent old data
  · rw [List.mem_singleton.mp last] at data
    exact absurd rfl data

theorem Sends.round (wnd : t.sndWnd ≤ limit) (more : t.nextSize ≠ 0) :
    Sends limit before (sendData now t t.nextSize) := by
  obtain ⟨new, grown, near⟩ := sends
  obtain ⟨_, inside, _, size⟩ := nextSize_pos more
  refine ⟨new ++ [_], (congrArg (· ++ [_]) grown).trans (List.append_assoc _ _ _), ?_⟩
  intro sent member data
  rcases List.mem_append.mp member with old | last
  · exact near sent old data
  · rw [List.mem_singleton.mp last]
    have length := List.length_take_le t.nextSize (t.sbuf.drop t.dataSent)
    change t.flight + ((t.sbuf.drop t.dataSent).take t.nextSize).length ≤ limit
    omega

/-- The bytes `tcp_output` may have in flight. -/
def Tcb.credit (t : Tcb) : Nat := if t.state.sends then t.sndWnd else 0

theorem tcpOutput_sends (credit : t.credit ≤ limit) : Sends limit before (tcpOutput now t) := by
  unfold Tcb.credit at credit
  have kept := @tcpOutput_invariant now t
    (fun after => Sends limit before after ∧ after.sndWnd = t.sndWnd ∧
      (after.state.sends = true → t.sndWnd ≤ limit))
    ⟨sends, rfl, fun open_ => by simpa [open_] using credit⟩
    (fun after held open_ more =>
      ⟨held.1.round (held.2.1 ▸ held.2.2 open_) more, held.2.1, held.2.2⟩)
    (fun after held open_ _ =>
      ⟨(held.1.empty thFinAck after.sndNxt).moved rfl rfl, held.2.1, fun _ => held.2.2 open_⟩)
  exact kept.1

end

theorem tcpOutput_sndWnd (t : Tcb) : (tcpOutput now t).sndWnd = t.sndWnd :=
  tcpOutput_invariant (fun after => after.sndWnd = t.sndWnd) rfl
    (fun _ held _ _ => held) (fun _ held _ _ => held)

/-- `tcp_output` sends nothing in a state that does not send, and never leaves one that does not. -/
theorem tcpOutput_from (open_ : (tcpOutput now t).state.sends = true) : t.state.sends = true := by
  by_contra shut
  rw [tcpOutput, if_neg shut] at open_
  exact shut open_

end Sending

/-- A step that takes in no window. -/
structure Steady (limit : Nat) (before after : Tcb) : Prop where
  sends : Sends limit before after
  una : after.sndUna = before.sndUna
  wnd : after.sndWnd = before.sndWnd
  open_ : after.state.sends = true → before.state.sends = true

section Steps
variable {hz now limit : Nat} {t : Tcb} {seg : Segment}

theorem Steady.output {start : Tcb} (log : start.segsOut = t.segsOut)
    (una : start.sndUna = t.sndUna) (wnd : start.sndWnd = t.sndWnd)
    (state : start.state = t.state) : Steady t.credit t (tcpOutput now start) where
  sends := tcpOutput_sends ((Sends.refl t).moved log una)
    (Nat.le_of_eq (by rw [Tcb.credit, Tcb.credit, state, wnd]))
  una := tcpOutput_sndUna.trans una
  wnd := (tcpOutput_sndWnd start).trans wnd
  open_ := fun open_ => state ▸ tcpOutput_from open_

theorem Steady.shut {after : Tcb} (sends : Sends limit t after) (una : after.sndUna = t.sndUna)
    (wnd : after.sndWnd = t.sndWnd) (shut : after.state.sends = false) : Steady limit t after :=
  ⟨sends, una, wnd, fun open_ => by simp [shut] at open_⟩

theorem tcpWrite_steady (now : Nat) (t : Tcb) (data : List Byte) :
    Steady t.credit t (tcpWrite now t data).2 := by
  rcases tcpWrite_cases now t data with ⟨same, _⟩ | ⟨_, _, _, output⟩
  · rw [same]
    exact ⟨.refl t, rfl, rfl, id⟩
  · rw [output]
    exact .output rfl rfl rfl rfl

theorem tcpRead_steady (t : Tcb) (max : Nat) : Steady t.credit t (tcpRead t max).2.2 := by
  have outcome := tcpRead_cases t max
  generalize tcpRead t max = result at outcome
  cases outcome with
  | gone | empty => exact ⟨.refl t, rfl, rfl, id⟩
  | freed => exact ⟨(Sends.refl t).moved rfl rfl, rfl, rfl, id⟩
  | bytes _ _ read which =>
    have read : Sends t.credit t (readOut t (min t.rlen max)) := (Sends.refl t).moved rfl rfl
    rcases which with rfl | rfl
    · exact ⟨read, rfl, rfl, id⟩
    · exact ⟨read.empty _ _, rfl, rfl, id⟩

theorem hangup_steady (now : Nat) (t : Tcb) : Steady t.credit t (hangup now t) := by
  rcases hangup_cases now t with alone | stopped | closes
  · rw [alone]
    exact ⟨(Sends.refl t).moved rfl rfl, rfl, rfl, id⟩
  · rw [stopped]
    exact .shut ((Sends.refl t).moved rfl rfl) rfl rfl rfl
  · rw [closes]
    exact .output rfl rfl rfl rfl

theorem tcpShutdown_steady (now : Nat) (t : Tcb) : Steady t.credit t (tcpShutdown now t) := by
  unfold tcpShutdown
  split
  · exact .output rfl rfl rfl rfl
  · exact ⟨.refl t, rfl, rfl, id⟩

theorem tcbFinish_steady (t : Tcb) : Steady limit t (tcbFinish t) := by
  unfold tcbFinish
  split <;> exact .shut ((Sends.refl t).moved rfl rfl) rfl rfl rfl

def Tcb.probing (t : Tcb) : Nat :=
  if t.state.sends then (if t.sndWnd = 0 then 1 else t.sndWnd) else 0

theorem goBack_steady {tried : Tcb} (log : tried.segsOut = t.segsOut)
    (una : tried.sndUna = t.sndUna) (wnd : tried.sndWnd = t.sndWnd)
    (state : tried.state = t.state) : Steady t.probing t (goBack now tried) where
  sends := by
    have output := @tcpOutput_sends now t.probing t (rolledBack tried)
      ((Sends.refl t).moved log una) (by
        unfold Tcb.credit Tcb.probing
        rw [← wnd, ← state]
        exact Nat.le_refl _)
    exact output.moved rfl rfl
  una := tcpOutput_sndUna.trans una
  wnd := wnd
  open_ := fun open_ => state ▸ (tcpOutput_from open_ : (rolledBack tried).state.sends = true)

theorem tcpTimers_steady (hz now : Nat) (t : Tcb) : Steady t.probing t (tcpTimers hz now t) := by
  have same : Steady t.probing t t := ⟨.refl t, rfl, rfl, id⟩
  rcases tcpTimers_cases hz now t with ⟨_, ends | waits⟩ | ⟨closed, waits | ⟨ends, _⟩⟩ |
    ⟨_, _, expired⟩
  · rw [ends]
    exact tcbFinish_steady t
  · rw [waits]
    exact same
  · rw [waits]
    exact same
  · rw [ends]
    exact ⟨(Sends.refl t).moved rfl rfl, rfl, rfl, id⟩
  · generalize tcpTimers hz now t = after at expired
    cases expired with
    | waiting => exact same
    | gaveUp _ quiet =>
      rcases quiet with rfl | rfl
      · exact .shut ((Sends.refl t).moved rfl rfl) rfl rfl rfl
      · exact .shut (((Sends.refl t).empty thRst t.sndNxt).moved rfl rfl) rfl rfl rfl
    | retried _ tried copy =>
      have sent : Steady t.probing t (retransmit now tried) := by
        subst copy
        cases state : t.state with
        | synSent | synRcvd =>
          exact .shut (((Sends.refl t).moved rfl rfl).empty _ _) rfl rfl rfl
        | _ => exact goBack_steady rfl rfl rfl state.symm
      exact ⟨sent.sends.moved rfl rfl, sent.una, sent.wnd, sent.open_⟩

theorem Steady.credit_le {after : Tcb} (steady : Steady limit t after) :
    after.credit ≤ t.credit := by
  unfold Tcb.credit
  by_cases open_ : after.state.sends = true
  · exact Nat.le_of_eq (by rw [if_pos open_, if_pos (steady.open_ open_), steady.wnd])
  · rw [if_neg open_]
    exact Nat.zero_le _

theorem Steady.onward {middle after : Tcb} (log : middle.segsOut = t.segsOut)
    (moved : Steady 0 t middle) (onward : Steady middle.credit middle after) :
    Steady t.credit t after where
  sends := by
    obtain ⟨new, grown, near⟩ := onward.sends.mono moved.credit_le
    exact ⟨new, log ▸ grown, near⟩
  una := onward.una.trans moved.una
  wnd := onward.wnd.trans moved.wnd
  open_ := fun open_ => moved.open_ (onward.open_ open_)

theorem afterFin_steady (hz now : Nat) (t : Tcb) :
    (afterFin hz now t).segsOut = t.segsOut ∧ Steady 0 t (afterFin hz now t) := by
  unfold afterFin
  split
  · split
    · exact ⟨rfl, .shut ((Sends.refl t).moved rfl rfl) rfl rfl rfl⟩
    · exact ⟨rfl, .shut ((Sends.refl t).moved rfl rfl) rfl rfl rfl⟩
    · exact ⟨rfl, .refl t, rfl, rfl, id⟩
  · exact ⟨rfl, .refl t, rfl, rfl, id⟩

theorem takeFin_open (notOpening : t.state.opening = false)
    (open_ : (takeFin hz now t).state.sends = true) : t.state.sends = true := by
  unfold takeFin at open_
  cases state : t.state <;>
    simp_all only [TcbState.opening, TcbState.sends]

theorem taken_steady (hz now : Nat) (seg : Segment) (notOpening : t.state.opening = false) :
    (taken hz now t seg).segsOut = t.segsOut ∧ Steady 0 t (taken hz now t seg) := by
  have log : (taken hz now t seg).segsOut = t.segsOut := by
    unfold taken takeFin takePayload
    repeat' split
    all_goals rfl
  have wnd : (taken hz now t seg).sndWnd = t.sndWnd := by
    unfold taken takeFin takePayload
    repeat' split
    all_goals rfl
  have una := (taken_sender hz now t seg).2.1
  refine ⟨log, (Sends.refl t).moved log una, una, wnd, fun open_ => ?_⟩
  unfold taken at open_
  split at open_
  · have open_ := takeFin_open (by rw [takePayload_state]; exact notOpening) open_
    rwa [takePayload_state] at open_
  · rwa [takePayload_state] at open_

theorem inputData_steady (hz now : Nat) (seg : Segment) (notOpening : t.state.opening = false) :
    Steady t.credit t (inputData hz now t seg) := by
  obtain ⟨log, moved⟩ := taken_steady hz now seg notOpening
  refine .onward log moved ?_
  rcases inputData_cases hz now t seg with ⟨died, _⟩ | ⟨_, sent, which, output⟩
  · rw [died]
    exact .shut (((Sends.refl _).empty thRst _).moved rfl rfl) rfl rfl rfl
  · rw [output]
    rcases which with rfl | rfl
    · exact .output rfl rfl rfl rfl
    · exact ⟨tcpOutput_sends ((Sends.refl _).empty thAck _) (Nat.le_refl _), tcpOutput_sndUna,
        tcpOutput_sndWnd _, tcpOutput_from⟩

/-- What a segment may do to the window: nothing, set it where nothing is sent yet or any
more, set it for the first time, or set it in a synchronized state. -/
inductive Windowed (t : Tcb) (seg : Segment) (after : Tcb) : Prop where
  | kept (steady : Steady 0 t after)
  | unused (una : after.sndUna = t.sndUna) (sends : Sends 0 t after)
      (shut : after.state.sends = false)
  | opened (ack : seg.flags.ack = true) (next : seg.ack = t.sndUna + 1)
      (una : after.sndUna = seg.ack) (wnd : after.sndWnd = seg.wnd)
      (sends : Sends seg.wnd t after)
  | taken (reaches : reachesAck t seg)
      (una : after.sndUna = if ackValid t seg.ack then seg.ack else t.sndUna)
      (wnd : after.sndWnd = seg.wnd)
      (sends : Sends (if t.state.sends then seg.wnd else 0) t after)
      (open_ : after.state.sends = true → t.state.sends = true)

theorem takeAck_took {acked : Tcb} (took : takeAck hz now t seg = some acked) :
    acked.segsOut = t.segsOut ∧ acked.sndWnd = seg.wnd ∧
      acked.sndUna = (if ackValid t seg.ack then seg.ack else t.sndUna) ∧
      acked.state = (if t.state = .synRcvd then .established else t.state) ∧
      (t.state = .synRcvd → ackValid t seg.ack = true) := by
  have log : ackValid t seg.ack = true → (tcpAcked hz now t seg.ack).segsOut = t.segsOut := by
    intro valid
    obtain ⟨_, _, _, _, _, same, _⟩ := tcpAcked_eq hz now t (ackValid_new valid)
    rw [same]
  rcases takeAck_cases took with ⟨early, valid, rfl⟩ | ⟨past, valid, rfl⟩ | ⟨past, old, rfl⟩
  · exact ⟨log valid, rfl, by rw [if_pos valid]; exact tcpAcked_sndUna t, (if_pos early).symm,
      fun _ => valid⟩
  · exact ⟨log valid, rfl, by rw [if_pos valid]; exact tcpAcked_sndUna t,
      by rw [if_neg past]; exact tcpAcked_state t, fun early => absurd early past⟩
  · exact ⟨rfl, rfl, by rw [old]; rfl, by rw [if_neg past], fun early => absurd early past⟩

theorem Sends.onward {limit more : Nat} {before middle after : Tcb}
    (log : middle.segsOut = before.segsOut) (sends : Sends more middle after)
    (le : more ≤ limit) : Sends limit before after := by
  obtain ⟨new, grown, near⟩ := sends.mono le
  exact ⟨new, log ▸ grown, near⟩

theorem Input.windowed {after : Tcb} (outcome : Input hz now t seg after) (flow : Flow t)
    (past : synchronized t) : Windowed t seg after := by
  cases outcome with
  | dropped => exact .kept ⟨.refl t, rfl, rfl, id⟩
  | answered => exact .kept ⟨((Sends.refl t).empty _ _).moved rfl rfl, rfl, rfl, id⟩
  | reset _ quiet =>
    rcases quiet with rfl | rfl
    · exact .kept (.shut ((Sends.refl _).moved rfl rfl) rfl rfl rfl)
    · exact .kept (.shut (((Sends.refl t).empty thRst t.sndNxt).moved rfl rfl) rfl rfl rfl)
  | finished acked reaches took =>
    obtain ⟨log, wnd, una, state, early⟩ := takeAck_took took
    have ends : Steady 0 acked (tcbFinish acked) := tcbFinish_steady acked
    have shut : (tcbFinish acked).state.sends = false := by
      rw [tcbFinish_state]
      rfl
    refine .taken reaches (ends.una.trans una) (ends.wnd.trans wnd)
      (ends.sends.onward log (Nat.zero_le _)) fun open_ => ?_
    rw [shut] at open_
    cases open_
  | data acked reaches took =>
    obtain ⟨log, wnd, una, state, early⟩ := takeAck_took took
    obtain ⟨kept, notOpening⟩ := takeAck_flow flow past took
    obtain ⟨log', fin⟩ := afterFin_steady hz now acked
    have notOpening' := (afterFin_flow hz now kept notOpening).2
    have whole : Steady acked.credit acked (inputData hz now (afterFin hz now acked) seg) :=
      .onward log' fin (inputData_steady hz now seg notOpening')
    have credit : acked.credit ≤ seg.wnd := by
      unfold Tcb.credit
      split
      · exact Nat.le_of_eq wnd
      · exact Nat.zero_le _
    by_cases opening : t.state = .synRcvd
    · have valid := early opening
      rw [if_pos valid] at una
      have syn : t.state.opening = true := by
        rw [opening]
        rfl
      have next : seg.ack = t.sndUna + 1 := by
        rw [ackValid_opening flow syn valid, (flow.opening syn).2, (flow.opening syn).1]
      exact .opened reaches.2.2.2 next (whole.una.trans una) (whole.wnd.trans wnd)
        (whole.sends.onward log credit)
    · rw [if_neg opening] at state
      refine .taken reaches (whole.una.trans una) (whole.wnd.trans wnd)
        (whole.sends.onward log (Nat.le_of_eq ?_)) fun open_ => state ▸ whole.open_ open_
      rw [Tcb.credit, state, wnd]

theorem Opening.windowed {after : Tcb} (outcome : Opening hz now t seg after) (flow : Flow t)
    (opening : t.state.opening = true) : Windowed t seg after := by
  cases outcome with
  | dropped => exact .kept ⟨.refl t, rfl, rfl, id⟩
  | refused => exact .kept (.shut ((Sends.refl t).moved rfl rfl) rfl rfl rfl)
  | opened _ ack fits =>
    have next : seg.ack = t.sndUna + 1 := by
      rw [opened_ack flow opening fits, (flow.opening opening).2, (flow.opening opening).1]
    have new : seg.ack ≠ (offered t seg).sndUna := by
      change seg.ack ≠ t.sndUna
      bv_omega
    obtain ⟨_, _, _, _, _, same, _⟩ := tcpAcked_eq hz now (offered t seg) new
    have begun : Sends seg.wnd t
        { tcpAcked hz now (offered t seg) seg.ack with state := .established } := by
      rw [same]
      exact (Sends.refl _).onward rfl (Nat.le_refl _)
    have wnd : (tcpAcked hz now (offered t seg) seg.ack).sndWnd = seg.wnd := by
      rw [same]
      rfl
    exact .opened ack next (tcpOutput_sndUna.trans (tcpAcked_sndUna _))
      ((tcpOutput_sndWnd _).trans wnd)
      (tcpOutput_sends (begun.empty thAck _) (Nat.le_of_eq wnd))
  | crossed =>
    have started : Sends 0 t { offered t seg with state := .synRcvd } :=
      (Sends.refl t).moved rfl rfl
    exact .unused rfl (started.empty _ _) rfl

theorem tcpInput_windowed (flow : Flow t) : Windowed t seg (tcpInput hz now t seg) := by
  unfold tcpInput
  cases state : t.state with
  | closed | listen => exact .kept ⟨.refl t, rfl, rfl, id⟩
  | synSent => exact (inputSynSent_cases t seg).windowed flow (by rw [state]; rfl)
  | synRcvd => exact (inputSynchronized_cases t seg).windowed flow (.inl state)
  | _ => exact (inputSynchronized_cases t seg).windowed flow (.inr (by rw [state]; rfl))

end Steps

section Runs
variable {hz : Nat} {before after : Offers} {action : Action}

def Offers.Covered (offers : Offers) : Prop :=
  offers.connection.tcb.state.sends = true →
    ∃ edge ∈ offers.edges, offers.connection.acked + offers.connection.tcb.sndWnd ≤ edge

/-- What a step sends respects the edges once the window it is sent into does. -/
theorem respects_of_sends {limit : Nat}
    (sends : Sends limit before.connection.tcb after.connection.tcb)
    (covered : 0 < limit → ∃ edge ∈ after.edges, after.connection.acked + limit ≤ edge) :
    Respects before after action := by
  obtain ⟨new, grown, near⟩ := sends
  refine ⟨new, grown, fun sent member data => .inl ?_⟩
  have inside := near sent member data
  have some_ := List.length_pos_iff.mpr data
  obtain ⟨edge, advertised, below⟩ := covered (by omega)
  exact ⟨edge, advertised, by omega⟩

/-- A step that takes in no window leaves the place of `snd_una` and all edges. -/
theorem steady_offer (covered : before.Covered)
    (steady : Steady before.connection.tcb.credit before.connection.tcb after.connection.tcb)
    (acked : after.connection.acked = before.connection.acked)
    (edges : before.edges ⊆ after.edges) :
    after.Covered ∧ Respects before after action := by
  constructor
  · intro open_
    obtain ⟨edge, advertised, below⟩ := covered (steady.open_ open_)
    exact ⟨edge, edges advertised, by rw [acked, steady.wnd]; exact below⟩
  · refine respects_of_sends steady.sends fun some_ => ?_
    unfold Tcb.credit at some_ ⊢
    split at some_
    · next open_ =>
        obtain ⟨edge, advertised, below⟩ := covered open_
        rw [if_pos open_]
        exact ⟨edge, edges advertised, by rw [acked]; exact below⟩
    · omega

/-- The probe is the one byte that a closed window does not cover. -/
theorem timers_offer (covered : before.Covered)
    (steady : Steady before.connection.tcb.probing before.connection.tcb after.connection.tcb)
    (acked : after.connection.acked = before.connection.acked) (edges : before.edges ⊆ after.edges)
    (timers : action.event = .timers) : after.Covered ∧ Respects before after action := by
  have kept : after.Covered := by
    intro open_
    obtain ⟨edge, advertised, below⟩ := covered (steady.open_ open_)
    exact ⟨edge, edges advertised, by rw [acked, steady.wnd]; exact below⟩
  refine ⟨kept, ?_⟩
  by_cases closed : before.connection.tcb.sndWnd = 0
  · obtain ⟨new, grown, near⟩ := steady.sends
    refine ⟨new, grown, fun sent member data => .inr ⟨timers, closed, ?_⟩⟩
    have inside := near sent member data
    have some_ := List.length_pos_iff.mpr data
    have one : before.connection.tcb.probing ≤ 1 := by
      unfold Tcb.probing
      split <;> omega
    exact ⟨by bv_omega, by omega⟩
  · refine respects_of_sends steady.sends fun some_ => ?_
    unfold Tcb.probing at some_ ⊢
    rw [if_neg closed] at some_ ⊢
    split at some_
    · next open_ =>
        obtain ⟨edge, advertised, below⟩ := covered open_
        rw [if_pos open_]
        exact ⟨edge, edges advertised, by rw [acked]; exact below⟩
    · omega

/-- A window taken in that is not stale ends before an edge, its own at the latest. -/
theorem current_covered {seg : Segment} (current : ¬ Stale before seg)
    (sends : before.connection.tcb.state.sends = true)
    (reaches : reachesAck before.connection.tcb seg)
    (una : after.connection.tcb.sndUna =
      if ackValid before.connection.tcb seg.ack then seg.ack else before.connection.tcb.sndUna)
    (acked : after.connection.acked = before.connection.acked +
      (after.connection.tcb.sndUna - before.connection.tcb.sndUna).toNat)
    (edges : after.edges = before.edges ++ Event.edges before.connection (.segment seg)) :
    ∃ edge ∈ after.edges, after.connection.acked + seg.wnd ≤ edge := by
  rw [edges]
  by_cases old : (seg.ack - before.connection.tcb.sndUna).toInt < 0
  · have rest : ¬ (ackValid before.connection.tcb seg.ack = true ∨
        ∀ edge ∈ before.edges, edge < before.connection.acked + seg.wnd) :=
      fun fails => current ⟨sends, reaches, old, fails⟩
    push Not at rest
    obtain ⟨invalid, edge, advertised, below⟩ := rest
    rw [if_neg invalid] at una
    rw [acked, una]
    exact ⟨edge, List.mem_append_left _ advertised, by simpa using below⟩
  · have own : before.connection.place seg.ack + seg.wnd ∈
        Event.edges before.connection (.segment seg) := by
      simp [Event.edges, reaches.2.2.2]
    refine ⟨_, List.mem_append_right _ own, ?_⟩
    rw [acked, una]
    unfold Connection.place
    split
    · rw [BitVec.toInt_eq_toNat_cond] at old ⊢
      split at old <;> omega
    · simp only [BitVec.sub_self, BitVec.toNat_zero]
      omega

theorem segment_offer {seg : Segment} {now : Nat} (flow : Flow before.connection.tcb)
    (covered : before.Covered) (current : ¬ Stale before seg)
    (tcb : after.connection.tcb = tcpInput hz now before.connection.tcb seg)
    (acked : after.connection.acked = before.connection.acked +
      (after.connection.tcb.sndUna - before.connection.tcb.sndUna).toNat)
    (edges : after.edges = before.edges ++ Event.edges before.connection (.segment seg)) :
    after.Covered ∧ Respects before after action := by
  have outcome := @tcpInput_windowed hz now before.connection.tcb seg flow
  rw [← tcb] at outcome
  have grown : before.edges ⊆ after.edges := edges ▸ List.subset_append_left _ _
  cases outcome with
  | kept steady =>
    refine steady_offer covered ⟨steady.sends.mono (Nat.zero_le _), steady.una, steady.wnd,
      steady.open_⟩ ?_ grown
    rw [acked, steady.una, BitVec.sub_self]
    rfl
  | unused _ sends shut =>
    refine ⟨fun open_ => ?_, respects_of_sends sends fun some_ => absurd some_ (by omega)⟩
    rw [shut] at open_
    cases open_
  | opened ack _ una wnd sends =>
    have place : ∃ edge ∈ after.edges, after.connection.acked + seg.wnd ≤ edge := by
      have own : before.connection.place seg.ack + seg.wnd ∈
          Event.edges before.connection (.segment seg) := by
        simp [Event.edges, ack]
      refine ⟨_, edges ▸ List.mem_append_right _ own, ?_⟩
      have one : seg.ack - before.connection.tcb.sndUna = 1 := by bv_omega
      rw [acked, una, Connection.place, one]
      exact Int.le_refl _
    exact ⟨fun _ => wnd ▸ place, respects_of_sends sends fun _ => place⟩
  | taken reaches una wnd sends open_ =>
    constructor
    · intro sending
      rw [wnd]
      exact current_covered current (open_ sending) reaches una acked edges
    · refine respects_of_sends sends fun some_ => ?_
      split at some_
      · next sending =>
          rw [if_pos sending]
          exact current_covered current sending reaches una acked edges
      · omega

theorem offer_covered (flow : Flow before.connection.tcb) (covered : before.Covered)
    (current : Current before action) (offered : offer hz before action = some after) :
    after.Covered ∧ Respects before after action := by
  obtain ⟨connection, stepped, rfl⟩ := Option.map_eq_some_iff.mp offered
  obtain ⟨now, event⟩ := action
  cases step_cases stepped with
  | segment =>
    exact segment_offer flow covered current rfl rfl rfl
  | timers =>
    exact timers_offer covered (tcpTimers_steady hz _ _) rfl (List.subset_append_left _ _) rfl
  | write data =>
    exact steady_offer covered (tcpWrite_steady _ _ data) rfl (List.subset_append_left _ _)
  | read max =>
    exact steady_offer covered (tcpRead_steady _ max) rfl (List.subset_append_left _ _)
  | shutdown =>
    exact steady_offer covered (tcpShutdown_steady _ _) rfl (List.subset_append_left _ _)
  | hangup =>
    exact steady_offer covered (hangup_steady _ _) rfl (List.subset_append_left _ _)

end Runs

/-- In every run that takes in no stale window, no data is sent at or beyond the highest
edge, but the probe. -/
theorem peer_window_respected (hz : Nat) {c : Connection} {offers after : Offers}
    {action : Action} (born : Born hz c) (run : Reach (offer hz) Current ⟨c, []⟩ offers)
    (current : Current offers action) (stepped : offer hz offers action = some after) :
    Respects offers after action := by
  have kept : Flow offers.connection.tcb ∧ offers.Covered := by
    refine run.invariant (fun offers => Flow offers.connection.tcb ∧ offers.Covered)
      ⟨born.flow, ?_⟩ ?_
    · intro open_
      cases born <;> cases open_
    · intro before action after held current stepped
      have moved := offer_covered held.1 held.2 current stepped
      obtain ⟨connection, moves, rfl⟩ := Option.map_eq_some_iff.mp stepped
      exact ⟨step_flow held.1 moves, moved.1⟩
  exact (offer_covered kept.1 kept.2 current stepped).2

def shutWindow : List Action :=
  [⟨2, .segment ⟨1000, 1, ⟨false, true, false, true⟩, 10, 1460, []⟩⟩,
    ⟨3, .write (List.replicate 20 7)⟩, ⟨4, .segment ⟨1001, 11, thAck, 0, 0, []⟩⟩]

def dialledOffers : Offers := ⟨dialled, []⟩

def afterShut : Offers := outcome (offer 10000000) Current dialledOffers shutWindow

def nextAck : Action := ⟨5, .segment ⟨1001, 11, thAck, 5, 0, []⟩⟩

theorem peer_window_respected_reopened :
    Respects afterShut ((offer 10000000 afterShut nextAck).get (by decide)) nextAck :=
  peer_window_respected 10000000 (.connect 1 (fun _ => 0) 0)
    (outcome_reach shutWindow dialledOffers (by decide)) (by decide)
    (Option.some_get _).symm

def oldAck : Action := ⟨5, .segment ⟨1001, 1, thAck, 10, 0, []⟩⟩

/-- It opens the shut window, counted from behind the ten bytes, and ten more are sent. -/
theorem old_ack_reopens_window :
    ¬ ∀ (hz : Nat) (c : Connection) (offers after : Offers) (action : Action), Born hz c →
      Reach (offer hz) (fun _ _ => True) ⟨c, []⟩ offers → offer hz offers action = some after →
      Respects offers after action := by
  intro always
  have reached : Reach (offer 10000000) (fun _ _ => True) dialledOffers afterShut :=
    (outcome_reach shutWindow dialledOffers (by decide)).mono fun _ _ _ => trivial
  obtain ⟨new, grown, near⟩ := always 10000000 dialled afterShut
    ((offer 10000000 afterShut oldAck).get (by decide)) oldAck
    (.connect 1 (fun _ => 0) 0) reached (Option.some_get _).symm
  have sent : new = [⟨thAck, 11, 1001, 8192, List.replicate 10 7⟩] := by
    refine List.append_cancel_left (grown.symm.trans ?_)
    decide
  subst sent
  rcases near _ List.mem_cons_self (by decide) with ⟨edge, advertised, below⟩ | ⟨timers, _⟩
  · revert edge
    decide
  · cases timers

end Racccoon.Tcp
