import Racccoon.Ipc.Exchange

/-!
Who can be found asleep after a step. Whatever changes what a sleeping process waits
for also wakes it, so a process that is blocked has either just gone to sleep, with
nothing to wait for at hand, or was blocked before and nothing happened to it.
-/

namespace Racccoon.Ipc

variable {procsMax : Nat} {kernel after middle : Kernel} {pid current : Nat} {action : Action}

theorem endCall_kept (kernel : Kernel) (current : Nat) :
    SameRing kernel (endCall procsMax kernel current) :=
  ((((SameRing.refl kernel).modify _ _ (.set rfl rfl rfl)).inboxFreed current).modify _ _
    (.set rfl rfl rfl)).modify _ _ (.set rfl rfl rfl)

theorem unblock_kept (alive : live kernel current) :
    SameRing kernel (kernel.modify current Process.unblock) :=
  (SameRing.refl kernel).modify _ _
    ⟨by simp [Process.unblock, show _ ≠ _ from alive], rfl, rfl, by simp [Process.unblock]⟩

theorem abort_kept (alive : live kernel current) (op : Op) :
    SameRing kernel (abort procsMax kernel current op) := by
  have left : ∀ left : Kernel, SameRing kernel left → SameRing kernel
      (((setPc (left.modify current Process.unblock) current .user).record (.failed op)).give none) := by
    intro left kept
    have still : live left current := mt (kept.2 current).alive.mp alive
    exact ((((kept.trans (unblock_kept still)).trans (setPc_kept ..)).record _).give none)
  refine left _ ?_
  split
  · exact endCall_kept kernel current
  · exact (SameRing.refl kernel).modify _ _ (.set rfl rfl rfl)

theorem succeed_kept (kernel : Kernel) (current : Nat) (op : Op) (id : Nat) :
    SameRing kernel (succeed kernel current op id) :=
  ((((SameRing.refl kernel).modify _ _ (.set rfl rfl rfl)).trans (setPc_kept ..)).record _).give none

theorem yank_kept (kernel : Kernel) (current target : Nat) :
    SameRing kernel (yank procsMax kernel current target) := by
  simp only [yank]
  split
  · exact ((SameRing.refl kernel).modify _ _ (.set rfl rfl rfl)).inboxFreed target
  · exact .refl kernel

/-- The inbox as `ipc_recv` leaves it, before the ack. -/
theorem emptied_kept (kernel : Kernel) (current : Nat) : SameRing kernel (ipcInboxFreed procsMax
    (ipcNoteReplyOwed (clearInbox kernel current) current) current) :=
  (((SameRing.refl kernel).modify _ _ (.set rfl rfl rfl)).modify _ _ (.set rfl rfl rfl)).inboxFreed
    current

theorem collected_kept (kernel : Kernel) (current : Nat) :
    SameRing kernel (endCall procsMax (clearInbox kernel current) current) :=
  ((SameRing.refl kernel).modify _ _ (.set rfl rfl rfl)).trans (endCall_kept ..)

theorem takeMessage_kept (kernel : Kernel) (current : Nat) (len : Int) :
    SameRing kernel (takeMessage procsMax kernel current len) :=
  ((((emptied_kept kernel current).ack _).trans (setPc_kept ..)).record _).give none

theorem takeReply_kept (kernel : Kernel) (current : Nat) (op : Op) (id : Nat) :
    SameRing kernel (takeReply procsMax kernel current op id) :=
  ((((((collected_kept kernel current).ack _).trans (setPc_kept ..)).record _).record _).record
    _).give none

theorem SameRing.found (kept : SameRing kernel after) (pid : Nat) :
    procByPid procsMax after pid = procByPid procsMax kernel pid := by
  simp only [procByPid, ne_eq, (kept.2 pid).alive]

theorem rouse_awake (proc : Process) : proc.rouse.state ≠ .blocked := by
  unfold Process.rouse
  split
  · simp
  · assumption

theorem ipcAck_awake {sender : Nat} (found : procByPid procsMax kernel sender = true) :
    ((ipcAck procsMax kernel sender).procs sender).state ≠ .blocked := by
  simp [ipcAck, found, rouse_awake]

theorem setPc_state (kernel : Kernel) (pid current : Nat) (pc : Pc) :
    ((setPc kernel current pc).procs pid).state = (kernel.procs pid).state := by
  by_cases same : pid = current
  · subst same
    simp [setPc]
  · simp [setPc, same]

theorem evict_awake (kernel : Kernel) (current : Nat)
    (blocked : ((evict procsMax kernel current).procs pid).state = .blocked) :
    ((evict procsMax kernel current).views pid).pc = (kernel.views pid).pc ∧
      ((evict procsMax kernel current).views pid).wait = (kernel.views pid).wait := by
  refine ⟨(evict_outside kernel current pid).1, ?_⟩
  cases full : (kernel.views current).inbox.hasMessage with
  | false => rw [evict_nothing full]
  | true =>
    have spared : ¬ (pid = (kernel.views current).inbox.msgFrom ∧
        procByPid procsMax kernel pid = true ∧
        (kernel.views pid).generation = (kernel.views current).inbox.msgFromGeneration) := by
      rintro ⟨rfl, found, generation⟩
      have cleared (event : Event) : SameRing kernel ((clearInbox kernel current).record event) :=
        ((SameRing.refl kernel).modify _ _ (.set rfl rfl rfl)).record event
      have same (sender : Nat) (event : Event) :
          (((clearInbox kernel current).record event).procs sender).generation =
            (kernel.procs sender).generation := by
        by_cases own : sender = current
        · subst own
          simp [clearInbox, Kernel.record]
        · simp [clearInbox, Kernel.record, own]
      have inbox : (kernel.procs current).inbox = (kernel.views current).inbox := rfl
      simp only [evict, inbox] at blocked
      rw [if_pos full, if_pos ⟨((cleared _).found _).trans found, (same ..).trans generation⟩]
        at blocked
      rw [modify_self] at blocked
      exact rouse_awake _ blocked
    rw [views_evict _ _ _ full]
    split <;> rfl

theorem ipcWakeWaitersOn_kept (kernel : Kernel) (victim : Nat) :
    SameRing kernel (ipcWakeWaitersOn procsMax kernel victim) := by
  refine ⟨Nat.le_refl _, fun pid => ?_⟩
  simp only [ipcWakeWaitersOn, peerDied]
  split
  · split
    · exact .refl _
    · split
      · exact .rousing rfl rfl rfl
      · exact .refl _
  · exact .refl _

theorem ipcWakeWaitersOn_awake (kernel : Kernel) (victim : Nat)
    (blocked : ((ipcWakeWaitersOn procsMax kernel victim).procs pid).state = .blocked) :
    (kernel.procs pid).state = .blocked ∧
      ((ipcWakeWaitersOn procsMax kernel victim).procs pid) = kernel.procs pid := by
  simp only [ipcWakeWaitersOn, peerDied] at blocked ⊢
  split at blocked
  · split at blocked
    · simp_all
    · split at blocked
      · exact absurd blocked (rouse_awake _)
      · simp_all
  · next outside => exact ⟨blocked, if_neg outside⟩

theorem procDestroy_asleep (kernel : Kernel) (victim : Nat)
    (blocked : ((procDestroy procsMax kernel victim).procs pid).state = .blocked) :
    pid ≠ victim ∧ ((ipcWakeWaitersOn procsMax kernel victim).procs pid).state = .blocked := by
  have other : pid ≠ victim := by
    rintro rfl
    simp [procDestroy] at blocked
  obtain ⟨link, eq⟩ := (relinked_remove procsMax
    (ipcWakeWaitersOn procsMax kernel victim) victim).2.2 pid
  exact ⟨other, by simpa [procDestroy, setHead, other, eq] using blocked⟩

theorem abort_awake (kernel : Kernel) (current : Nat) (op : Op) :
    ((abort procsMax kernel current op).procs current).state = .runnable := by
  simp [abort, setPc, Kernel.record, Kernel.give, Process.unblock]

/-- Giving up changes nothing for the processes that are still asleep. -/
theorem abort_asleep {left : Kernel} (alive : live left current) (op : Op)
    (blocked : ((abort procsMax left current op).procs pid).state = .blocked) :
    pid ≠ current ∧ (left.procs pid).state = .blocked ∧
      (abort procsMax left current op).views pid = left.views pid := by
  have other : pid ≠ current := by
    rintro rfl
    rw [abort_awake] at blocked
    cases blocked
  refine ⟨other, ((abort_kept alive op).2 pid).waking blocked, ?_⟩
  rw [views_abort alive]
  simp [other]

theorem acked_asleep (sender : Nat) {view : View} (emptied : SameRing kernel middle)
    (blocked : ((ipcAck procsMax middle sender).procs pid).state = .blocked) :
    ackedIf procsMax kernel sender pid view = view := by
  refine if_neg ?_
  rintro ⟨rfl, found⟩
  exact ipcAck_awake ((emptied.found pid).trans found) blocked

/-- The process slept before, and nothing happened to it. -/
def Undisturbed (kernel after : Kernel) (pid : Nat) : Prop :=
  (kernel.procs pid).state = .blocked ∧ (after.views pid).pc = (kernel.views pid).pc ∧
    (after.views pid).wait = (kernel.views pid).wait

theorem start_asleep {base prepared : Kernel} {op : Op} {owed : Owed}
    (runs : running kernel current) (evicts : base = kernel ∨ base = evict procsMax kernel current)
    (views : prepared.views =
      Function.update base.views current ((base.views current).facing op owed))
    (ring : SameRing base prepared)
    (blocked : ((joinQueue procsMax prepared current op).procs pid).state = .blocked) :
    Undisturbed kernel (joinQueue procsMax prepared current op) pid := by
  have asleep : (base.procs pid).state = .blocked :=
    (ring.2 pid).waking ((joinQueue_state ..).symm.trans blocked)
  have same : Undisturbed kernel base pid := by
    rcases evicts with rfl | rfl
    · exact ⟨asleep, rfl, rfl⟩
    · exact ⟨((evict_kept kernel current).2 pid).waking asleep, evict_awake kernel current asleep⟩
  have other : pid ≠ current := by
    rintro rfl
    rw [Undisturbed, runs.1] at same
    cases same.1
  obtain ⟨target, joinedBorn, view⟩ := joinQueue_view procsMax prepared current op pid
  rw [Undisturbed, view, if_neg other, views, Function.update_of_ne other]
  exact same

theorem leaveQueue_asleep {op : Op} {noted : Bool} (alive : live kernel current)
    (blocked : ((abortQueued procsMax kernel current op noted).procs pid).state = .blocked) :
    Undisturbed kernel (abortQueued procsMax kernel current op noted) pid := by
  have still : live (if noted = true then interrupted kernel current else kernel) current := by
    cases noted
    · exact alive
    · exact live_interrupted.mpr alive
  obtain ⟨other, asleep, -⟩ := abort_asleep ((live_remove current).mpr still) op blocked
  rw [Undisturbed, views_abortQueued alive, Function.update_of_ne other]
  refine ⟨?_, rfl, rfl⟩
  obtain ⟨link, eq⟩ := (relinked_remove procsMax
    (if noted = true then interrupted kernel current else kernel) current).2.2 pid
  rw [eq] at asleep
  cases noted
  · exact asleep
  · simpa [interrupted, other] using asleep

theorem redeliver_asleep {op : Op} (other : (kernel.procs pid).state = .blocked → pid ≠ current)
    (blocked : ((joinQueue procsMax (clearBounced kernel current) current op).procs pid).state =
      .blocked) :
    Undisturbed kernel (joinQueue procsMax (clearBounced kernel current) current op) pid := by
  have asleep : (kernel.procs pid).state = .blocked := by
    refine Eq.trans ?_ ((joinQueue_state ..).symm.trans blocked)
    by_cases own : pid = current
    · subst own
      simp [clearBounced]
    · simp [clearBounced, own]
  obtain ⟨target, joinedBorn, view⟩ :=
    joinQueue_view procsMax (clearBounced kernel current) current op pid
  rw [Undisturbed, view, if_neg (other asleep), views_clearBounced,
    Function.update_of_ne (other asleep)]
  exact ⟨asleep, rfl, rfl⟩

theorem destroy_asleep {victim : Nat}
    (blocked : ((procDestroy procsMax kernel victim).procs pid).state = .blocked) :
    Undisturbed kernel (procDestroy procsMax kernel victim) pid := by
  obtain ⟨other, woken⟩ := procDestroy_asleep kernel victim blocked
  obtain ⟨link, eq⟩ := (relinked_remove procsMax
    (ipcWakeWaitersOn procsMax kernel victim) victim).2.2 pid
  obtain ⟨asleep, same⟩ := ipcWakeWaitersOn_awake kernel victim woken
  refine ⟨asleep, ?_, ?_⟩ <;>
    simp [procDestroy, setHead, other, Kernel.views, Process.view, eq, same]

/-- A blocked process was blocked before and nothing happened to it, or it has just
gone to sleep. -/
theorem Move.asleep (move : Move procsMax kernel action after) (executes : Executes kernel)
    (blocked : (after.procs pid).state = .blocked) :
    Undisturbed kernel after pid ∨
      (kernel.turn = some pid ∧ Stuck procsMax kernel pid ∧
        (after.views pid).pc = (kernel.views pid).pc ∧
        (after.views pid).wait = (kernel.views pid).wait) ∨
      (after.views pid).pc = .elsewhere := by
  have awake (current : Nat) (turn : kernel.turn = some current)
      (asleep : (kernel.procs pid).state = .blocked) : pid ≠ current := by
    rintro rfl
    rw [(executes pid turn).1] at asleep
    cases asleep
  unfold Undisturbed
  -- only `rest` and `doze` block a process that was not blocked
  cases move with
  | quiet views _ ring =>
    rw [views]
    exact .inl ⟨(ring.2 pid).waking blocked, rfl, rfl⟩
  | schedule => exact .inl ⟨blocked, rfl, rfl⟩
  | @rest current _ turn alive stuck =>
    by_cases own : pid = current
    · subst own
      rw [views_sleep alive]
      exact .inr (.inl ⟨turn, stuck, rfl, rfl⟩)
    · rw [views_sleep alive]
      exact .inl ⟨by simpa [sleep, own, Kernel.give] using blocked, rfl, rfl⟩
  | @wander _ current _ _ ready _ _ views _ ring =>
    have asleep := (ring.2 pid).waking blocked
    have other : pid ≠ current := by
      rintro rfl
      rw [ready] at asleep
      cases asleep
    rw [views]
    simp [other, asleep]
  | @doze _ current _ alive =>
    by_cases own : pid = current
    · subst own
      have still : live (setPc kernel pid .elsewhere) pid := by simpa [live, setPc] using alive
      rw [views_sleep still, views_setPc]
      simp
    · simp only [sleep, setPc, Kernel.give, modify_other own] at blocked
      refine .inl ⟨blocked, ?_⟩
      simp [sleep, setPc, Kernel.give, Kernel.views, own]
  | @settle _ current _ _ views _ ring =>
    rw [views]
    by_cases own : pid = current
    · subst own
      simp [(ring.2 pid).waking blocked]
    · simp [own, (ring.2 pid).waking blocked]
  | start _ _ _ runs evicts _ _ _ _ _ _ _ views _ ring =>
    exact .inl (start_asleep runs (evicts.imp And.right And.right) views ring blocked)
  | @deposit current op bytes turn =>
    have asleep := (ipcDeposit_kept procsMax kernel current op bytes pid).2 blocked
    rw [views_ipcDeposit]
    simp only [awake current turn asleep, ↓reduceIte]
    split <;> exact .inl ⟨asleep, rfl, rfl⟩
  | leaveQueue _ _ alive => exact .inl (leaveQueue_asleep alive blocked)
  | redeliver turn => exact .inl (redeliver_asleep (awake _ turn) blocked)
  | @accept current _ _ _ turn =>
    have asleep := (setPc_state ..).symm.trans blocked
    rw [views_setPc, Function.update_of_ne (awake current turn asleep)]
    exact .inl ⟨asleep, rfl, rfl⟩
  | @finish current op id _ turn _ kind =>
    have asleep := ((succeed_kept kernel current op id).2 pid).waking blocked
    rw [views_succeed current op id kind, Function.update_of_ne (awake current turn asleep)]
    exact .inl ⟨asleep, rfl, rfl⟩
  | @timeOut current op _ _ _ alive =>
    obtain ⟨other, asleep, same⟩ := abort_asleep ((live_yank ..).mpr alive) op blocked
    rw [same, views_yank]
    split <;> exact .inl ⟨((yank_kept kernel current op.dest).2 pid).waking asleep, rfl, rfl⟩
  | @desert current op id bytes turn alive pc | @hangUp current op id bytes turn alive pc =>
    obtain ⟨other, asleep, same⟩ := abort_asleep alive op blocked
    rw [same]
    exact .inl ⟨asleep, rfl, rfl⟩
  | @collect current op id _ turn =>
    have asleep := ((takeReply_kept kernel current op id).2 pid).waking blocked
    have unacked := blocked
    simp only [takeReply, Kernel.give, Kernel.record, setPc_state] at unacked
    rw [views_takeReply, acked_asleep (kernel.views current).inbox.msgFrom
      (collected_kept kernel current) unacked,
      if_neg (awake current turn asleep)]
    exact .inl ⟨asleep, rfl, rfl⟩
  | @take _ current len ready =>
    have asleep := ((takeMessage_kept kernel current len).2 pid).waking blocked
    have other : pid ≠ current := by
      rintro rfl
      rw [ready] at asleep
      cases asleep
    have unacked := blocked
    simp only [takeMessage, Kernel.give, Kernel.record, setPc_state] at unacked
    rw [views_takeMessage, acked_asleep (kernel.views current).inbox.msgFrom
      (emptied_kept kernel current) unacked, if_neg other]
    exact .inl ⟨asleep, rfl, rfl⟩
  | destroy => exact .inl (destroy_asleep blocked)
  | @create _ slot _ _ _ _ fresh =>
    by_cases own : pid = slot
    · subst own
      simp [Kernel.record, fresh.state] at blocked
    · refine .inl ⟨by simpa [Kernel.record, own] using blocked, ?_, ?_⟩ <;>
        simp [Kernel.record, Kernel.views, own]

end Racccoon.Ipc
