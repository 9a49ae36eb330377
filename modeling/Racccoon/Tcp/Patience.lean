import Racccoon.Tcp.Sender

/-!
Giving a peer up. `retries` counts the retransmission timeouts, and only an acknowledgement
between `snd_una` and `snd_nxt`, which a timeout has rolled back, clears it. With each
connection stand the highest place sent so far, our SYN being at place 0, and the timeouts
since the peer was heard.
-/

namespace Racccoon.Tcp

open Run

structure Patience where
  connection : Connection
  highest : Nat
  silent : Nat

variable (p : Patience)

/-- A segment acceptable in sequence that acknowledges nothing beyond what was ever sent. In
TIME_WAIT nothing waits for an acknowledgement. -/
def hears (seg : Segment) : Prop :=
  let t := p.connection.tcb
  match t.state with
  | .closed | .listen | .timeWait => False
  | .synSent =>
    seg.flags.rst = false ∧ seg.flags.syn = true ∧ seg.flags.ack = true ∧
      ¬ (seqLe seg.ack t.iss = true ∨ seqLt t.sndNxt seg.ack = true)
  | _ => reachesAck t seg ∧ p.connection.acked + (seg.ack - t.sndUna).toNat ≤ p.highest

instance (seg : Segment) : Decidable (hears p seg) := by
  unfold hears
  dsimp only
  split <;> infer_instance

def expires (now : Nat) (t : Tcb) : Prop :=
  t.state ≠ .timeWait ∧ t.state ≠ .closed ∧ ¬ (t.rtxDue = 0 ∨ now < t.rtxDue)

instance (now : Nat) (t : Tcb) : Decidable (expires now t) :=
  inferInstanceAs (Decidable (_ ∧ _))

variable (action : Action)

def Patience.silence : Nat :=
  match action.event with
  | .segment seg => if hears p seg then 0 else p.silent
  | .timers => if expires action.now p.connection.tcb then p.silent + 1 else p.silent
  | _ => p.silent

def wait (hz : Nat) (p : Patience) (action : Action) : Option Patience :=
  (step hz p.connection action).map fun after =>
    ⟨after, max p.highest (after.acked + after.tcb.flight), p.silence action⟩

/-- A peer heard after a timeout acknowledges something new, up to `snd_nxt`. -/
def Heeded : Prop :=
  match action.event with
  | .segment seg =>
    hears p seg → p.connection.tcb.retries = 0 ∨ ackValid p.connection.tcb seg.ack = true
  | _ => True

instance : Decidable (Heeded p action) := by
  unfold Heeded
  split <;> infer_instance

def GivesUpInSilence (before after : Patience) (action : Action) : Prop :=
  action.event = .timers → before.connection.tcb.reset = false →
    after.connection.tcb.reset = true → tcpMaxRetries ≤ before.silent

section Retries
variable {hz now : Nat} {t : Tcb} {seg : Segment}

@[simp] theorem tcpOutput_retries (t : Tcb) : (tcpOutput now t).retries = t.retries :=
  tcpOutput_invariant (fun after => after.retries = t.retries) rfl
    (fun _ held _ _ => held) (fun _ held _ _ => held)

@[simp] theorem tcbFinish_retries (t : Tcb) : (tcbFinish t).retries = t.retries := by
  unfold tcbFinish
  split <;> rfl

theorem tcpAcked_retries (t : Tcb) {ack : Seq} (new : ack ≠ t.sndUna) :
    (tcpAcked hz now t ack).retries = 0 := by
  unfold tcpAcked
  rw [if_neg new]

theorem inputData_retries (t : Tcb) :
    (inputData hz now (afterFin hz now t) seg).retries = t.retries := by
  have begun : (afterFin hz now t).retries = t.retries := by
    unfold afterFin
    repeat' split
    all_goals rfl
  have filled : (taken hz now (afterFin hz now t) seg).retries = (afterFin hz now t).retries := by
    unfold taken takeFin takePayload
    repeat' split
    all_goals rfl
  rcases inputData_cases hz now (afterFin hz now t) seg with
    ⟨died, _⟩ | ⟨_, sent, rfl | rfl, output⟩
  · rw [died, ← begun, ← filled]
    rfl
  · rw [output, tcpOutput_retries, filled, begun]
  · rw [output, tcpOutput_retries, ← begun, ← filled]
    rfl

theorem takeAck_retries {acked : Tcb} (took : takeAck hz now t seg = some acked) :
    (ackValid t seg.ack = true ∧ acked.retries = 0) ∨
      (ackValid t seg.ack = false ∧ acked.retries = t.retries) := by
  rcases takeAck_cases took with ⟨_, valid, rfl⟩ | ⟨_, valid, rfl⟩ | ⟨_, invalid, rfl⟩
  · exact .inl ⟨valid, tcpAcked_retries t (ackValid_new valid)⟩
  · exact .inl ⟨valid, tcpAcked_retries t (ackValid_new valid)⟩
  · exact .inr ⟨invalid, rfl⟩

theorem tcpInput_retries (t : Tcb) :
    (tcpInput hz now t seg).retries = t.retries ∨ (tcpInput hz now t seg).retries = 0 := by
  have synchronized : (inputSynchronized hz now t seg).retries = t.retries ∨
      (inputSynchronized hz now t seg).retries = 0 := by
    have outcome : Input hz now t seg _ := inputSynchronized_cases t seg
    generalize inputSynchronized hz now t seg = after at outcome
    cases outcome with
    | dropped => exact .inl rfl
    | answered => exact .inl rfl
    | reset _ quiet => rcases quiet with rfl | rfl <;> exact .inl rfl
    | finished _ _ took =>
      rw [tcbFinish_retries]
      exact (takeAck_retries took).elim (fun new => .inr new.2) fun old => .inl old.2
    | data _ _ took =>
      rw [inputData_retries]
      exact (takeAck_retries took).elim (fun new => .inr new.2) fun old => .inl old.2
  unfold tcpInput
  cases t.state with
  | closed => exact .inl rfl
  | listen => exact .inl rfl
  | synSent =>
    have outcome : Opening hz now t seg _ := inputSynSent_cases t seg
    generalize inputSynSent hz now t seg = after at outcome
    cases outcome with
    | dropped => exact .inl rfl
    | refused => exact .inl rfl
    | opened =>
      rw [tcpOutput_retries]
      by_cases same : seg.ack = t.sndUna
      · simp [tcpAcked, same, offered, tcpSend]
      · exact .inr (tcpAcked_retries (offered t seg) same)
    | crossed => exact .inl rfl
  | _ => exact synchronized

/-- A peer that is heard and acknowledges something new clears the count. -/
theorem tcpInput_clears {p : Patience} (heard : hears p seg)
    (valid : ackValid p.connection.tcb seg.ack = true) :
    (tcpInput hz now p.connection.tcb seg).retries = 0 := by
  have taken : p.connection.tcb.state ≠ .timeWait → reachesAck p.connection.tcb seg →
      (inputSynchronized hz now p.connection.tcb seg).retries = 0 := by
    rintro going ⟨here, rst, syn, ack⟩
    unfold inputSynchronized
    rw [if_neg fun lingers => going lingers.1, if_neg (by simp [here]), if_neg (by simp [rst]),
      if_neg (by simp [syn]), if_neg (by simp [ack])]
    cases took : takeAck hz now p.connection.tcb seg with
    | none =>
      unfold takeAck at took
      split at took <;> cases took
    | some acked =>
      have cleared : acked.retries = 0 :=
        (takeAck_retries took).elim And.right fun old => absurd valid (by simp [old.1])
      dsimp only
      split
      · rw [tcbFinish_retries, cleared]
      · rw [inputData_retries, cleared]
  unfold hears at heard
  unfold tcpInput
  cases state : p.connection.tcb.state with
  | closed => simp [state] at heard
  | listen => simp [state] at heard
  | timeWait => simp [state] at heard
  | synSent =>
    simp only [state] at heard
    obtain ⟨rst, syn, ack, fits⟩ := heard
    unfold inputSynSent
    rw [if_neg fun wrong => fits wrong.2]
    simp only [rst, syn, ack, Bool.false_eq_true, if_false, if_true, Bool.not_true,
      tcpOutput_retries]
    exact tcpAcked_retries (offered p.connection.tcb seg) (ackValid_new valid)
  | _ =>
    simp only [state] at heard
    exact taken (by simp [state]) heard.1

theorem retransmit_retries (t : Tcb) : (retransmit now t).retries = t.retries := by
  unfold retransmit goBack
  split
  · rfl
  · rfl
  · exact tcpOutput_retries _

/-- A run of the timers counts a timeout, and resets the connection for too many only. -/
theorem tcpTimers_counts (hz now : Nat) (t : Tcb) :
    (tcpTimers hz now t).retries = (if expires now t then t.retries + 1 else t.retries) ∧
      ((tcpTimers hz now t).reset = t.reset ∨ tcpMaxRetries ≤ t.retries) := by
  have waits : t.state = .timeWait ∨ t.state = .closed ∨ t.rtxDue = 0 ∨ now < t.rtxDue →
      ¬ expires now t := by
    rintro (ended | ended | off) ⟨going, open_, due⟩
    · exact going ended
    · exact open_ ended
    · exact due off
  have timed : t.state ≠ .timeWait → t.state ≠ .closed →
      (tcpTimers hz now t).retries = (if expires now t then t.retries + 1 else t.retries) ∧
        ((tcpTimers hz now t).reset = t.reset ∨ tcpMaxRetries ≤ t.retries) := by
    intro going open_
    unfold tcpTimers
    split
    · next ended => exact absurd ended going
    · next ended => exact absurd ended open_
    · by_cases off : t.rtxDue = 0 ∨ now < t.rtxDue
      · rw [if_pos off, if_neg (waits (.inr (.inr off)))]
        exact ⟨rfl, .inl rfl⟩
      · rw [if_neg off, if_pos (show expires now t from ⟨going, open_, off⟩)]
        dsimp only
        split
        · next many =>
            refine ⟨?_, .inr (Nat.le_of_lt_succ many)⟩
            split <;> rfl
        · exact ⟨retransmit_retries _, .inl (congrArg Receiver.reset (retransmit_receiver _))⟩
  by_cases lingers : t.state = .timeWait
  · rw [if_neg (waits (.inl lingers))]
    simp only [tcpTimers, lingers]
    split
    · exact ⟨tcbFinish_retries t, .inl (tcbFinish_reset t)⟩
    · exact ⟨rfl, .inl rfl⟩
  · by_cases closed : t.state = .closed
    · rw [if_neg (waits (.inr (.inl closed)))]
      simp only [tcpTimers, closed]
      split <;> exact ⟨rfl, .inl rfl⟩
    · exact timed lingers closed

end Retries

theorem wait_patient {hz : Nat} {before after : Patience} {action : Action}
    (counted : before.connection.tcb.retries ≤ before.silent) (heeded : Heeded before action)
    (waited : wait hz before action = some after) :
    after.connection.tcb.retries ≤ after.silent ∧ GivesUpInSilence before after action := by
  obtain ⟨moved, stepped, rfl⟩ := Option.map_eq_some_iff.mp waited
  have outcome := step_cases stepped
  unfold Patience.silence Heeded GivesUpInSilence at *
  generalize event : action.event = e at *
  cases outcome with
  | write data =>
    refine ⟨?_, fun timers => by cases timers⟩
    rcases tcpWrite_cases action.now before.connection.tcb data with
      ⟨same, _⟩ | ⟨_, _, _, output⟩
    · rw [same]
      exact counted
    · rw [output, tcpOutput_retries]
      exact counted
  | read max =>
    refine ⟨?_, fun timers => by cases timers⟩
    have outcome := tcpRead_cases before.connection.tcb max
    generalize tcpRead before.connection.tcb max = result at outcome
    cases outcome with
    | bytes _ _ _ which => rcases which with rfl | rfl <;> exact counted
    | _ => exact counted
  | shutdown =>
    refine ⟨?_, fun timers => by cases timers⟩
    dsimp only [Connection.become, tcpShutdown]
    split
    · rw [tcpOutput_retries]
      exact counted
    · exact counted
  | hangup =>
    refine ⟨?_, fun timers => by cases timers⟩
    dsimp only [Connection.become]
    rcases hangup_cases action.now before.connection.tcb with alone | stopped | closes
    · rw [alone]
      exact counted
    · rw [stopped]
      exact counted
    · rw [closes, tcpOutput_retries]
      exact counted
  | segment seg =>
    refine ⟨?_, fun timers => by cases timers⟩
    have kept : (tcpInput hz action.now before.connection.tcb seg).retries = _ ∨ _ :=
      tcpInput_retries before.connection.tcb
    dsimp only at heeded ⊢
    split
    · next heard =>
        rcases heeded heard with none | valid
        · omega
        · exact Nat.le_of_eq (tcpInput_clears heard valid)
    · omega
  | timers =>
    have counts := tcpTimers_counts hz action.now before.connection.tcb
    dsimp only [Connection.become]
    refine ⟨?_, fun _ alive dead => ?_⟩
    · rw [counts.1]
      split <;> omega
    · rcases counts.2 with same | many
      · simp [same, alive] at dead
      · exact Nat.le_trans many counted

/-- In every run in which whatever is heard of the peer after a timeout acknowledges
something new, the timers reset the connection only after so many timeouts in silence. -/
theorem gives_up_in_silence (hz : Nat) {c : Connection} {before after : Patience}
    {action : Action} (born : Born hz c)
    (run : Reach (wait hz) Heeded ⟨c, c.tcb.flight, 0⟩ before) (heeded : Heeded before action)
    (waited : wait hz before action = some after) : GivesUpInSilence before after action := by
  have counted : before.connection.tcb.retries ≤ before.silent := by
    refine run.invariant (fun p => p.connection.tcb.retries ≤ p.silent) ?_ ?_
    · cases born <;> exact Nat.le_refl 0
    · intro before action after held heeded waited
      exact (wait_patient held heeded waited).1
  exact (wait_patient counted heeded waited).2

def dialledPatience : Patience := ⟨dialled, 1, 0⟩

def unanswered : List Action := (List.range 8).map fun n => ⟨(n + 1) * 10 ^ 9, .timers⟩

def afterSilence : Patience := outcome (wait 10000000) Heeded dialledPatience unanswered

def lastTimer : Action := ⟨10 ^ 10, .timers⟩

theorem gives_up_in_silence_dialled :
    GivesUpInSilence afterSilence
      ((wait 10000000 afterSilence lastTimer).get (by decide)) lastTimer :=
  gives_up_in_silence 10000000 (.connect 1 (fun _ => 0) 0)
    (outcome_reach unanswered dialledPatience (by decide)) (by decide)
    (Option.some_get _).symm

/-- The peer takes five bytes of ten, shuts its window and answers eight probes. -/
def probed : List Action :=
  [⟨2, .segment ⟨1000, 1, thSynAck, 10, 1460, []⟩⟩, ⟨3, .write (List.replicate 20 7)⟩,
    ⟨4, .segment ⟨1001, 6, thAck, 0, 0, []⟩⟩] ++
  (List.range 8).flatMap fun n =>
    [⟨(n + 1) * 10 ^ 9, .timers⟩, ⟨(n + 1) * 10 ^ 9 + 1, .segment ⟨1001, 6, thAck, 0, 0, []⟩⟩]

def afterProbes : Patience := outcome (wait 10000000) (fun _ _ => True) dialledPatience probed

/-- It was heard after the eighth timeout, and the ninth resets the connection. -/
theorem answered_probes_time_out :
    ¬ ∀ (hz : Nat) (c : Connection) (before after : Patience) (action : Action), Born hz c →
      Reach (wait hz) (fun _ _ => True) ⟨c, c.tcb.flight, 0⟩ before →
      wait hz before action = some after → GivesUpInSilence before after action := by
  intro always
  have silent := always 10000000 dialled afterProbes
    ((wait 10000000 afterProbes lastTimer).get (by decide)) lastTimer
    (.connect 1 (fun _ => 0) 0) (outcome_reach probed dialledPatience (by decide))
    (Option.some_get _).symm rfl (by decide) (by decide)
  revert silent
  decide

end Racccoon.Tcp
