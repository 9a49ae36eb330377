import Racccoon.Ipc.SendQueue

/-!
No missed wake: who may deposit is not asleep. An inbox that frees up wakes its whole
queue, and from then on the head stays awake until it has run, and then it deposits.
The head may also leave by being killed before it runs; the next in the queue may have
run meanwhile, found that it was not the head, and gone back to sleep.
-/

namespace Racccoon.Ipc

open LinkedQueue

variable (kernel : Kernel)

def receptive (target : Nat) : Prop :=
  live kernel target ∧ (kernel.procs target).inbox.hasMessage = false ∧
    (kernel.procs target).wait.inCallReplyWait = false

instance (target : Nat) : Decidable (receptive kernel target) :=
  inferInstanceAs (Decidable (_ ∧ _ ∧ _))

def Kernel.head (target : Nat) : Nat := (kernel.procs target).link.ipcQHead

/-- The victim is the head of the queue of a process that could take its message, and
the next in the queue is asleep. -/
def strands (victim : Nat) : Prop :=
  let target := (kernel.procs victim).link.ipcQTarget
  receptive kernel target ∧ kernel.head target = victim ∧
    (kernel.procs (kernel.next victim)).state = .blocked

instance (victim : Nat) : Decidable (strands kernel victim) :=
  inferInstanceAs (Decidable (_ ∧ _ ∧ _))

def destroying : Action → Option Nat
  | .destroy victim => some victim
  | _ => none

def Orderly (procsMax : Nat) (kernel : Kernel) (action : Action) : Prop :=
  Reaches procsMax kernel action ∧ ∀ victim ∈ destroying action, ¬ strands kernel victim

instance (procsMax : Nat) (kernel : Kernel) (action : Action) :
    Decidable (Orderly procsMax kernel action) :=
  inferInstanceAs (Decidable (_ ∧ ∀ victim ∈ destroying action, _))

def Wakeful : Prop :=
  ∀ target, receptive kernel target → kernel.head target ≠ 0 →
    (kernel.procs (kernel.head target)).state ≠ .blocked

variable {procsMax : Nat} {kernel after : Kernel} {pid target current : Nat} {action : Action}

theorem SameRing.head (same : SameRing kernel after) : after.head = kernel.head := by
  funext target
  exact congrArg Link.ipcQHead (same.2 target).link

theorem setTarget_keeps (pid slot joinedAt joinedBorn target : Nat) :
    (setTarget kernel pid slot joinedAt joinedBorn).head target = kernel.head target := by
  by_cases same : target = pid
  · subst same
    simp [Kernel.head, setTarget]
  · simp [Kernel.head, setTarget, same]

theorem ipcQUnlink_head (kernel : Kernel) (self slot target : Nat) :
    (ipcQUnlink procsMax kernel self slot).head target =
      if kernel.head slot = self ∧ self ≠ 0 ∧ target = slot then kernel.next self
      else kernel.head target := by
  simp only [ipcQUnlink]
  split
  · next empty => rw [if_neg (by rintro ⟨rfl, present, -⟩; exact present empty)]
  · next present =>
      split
      · next front =>
          by_cases same : target = slot
          · subst same
            rw [if_pos ⟨front, front ▸ present, rfl⟩]
            simp [Kernel.head, setHead]
          · simp [same, Kernel.head, setHead_head _ _ _ same]
      · next behind =>
          rw [if_neg fun all => behind all.1]
          split
          · rfl
          · exact setNext_head ..

theorem ipcQRemove_head (kernel : Kernel) (self target : Nat) :
    (ipcQRemove procsMax kernel self).head target =
      if kernel.head target = self ∧ self ≠ 0 ∧ target = (kernel.procs self).link.ipcQTarget ∧
          target ≠ 0 then kernel.next self
      else kernel.head target := by
  simp only [ipcQRemove, setTarget_keeps]
  split
  · rw [ipcQUnlink_head]
    grind
  · grind

theorem joinQueue_head (kernel : Kernel) (current : Nat) (op : Op) (target : Nat) :
    (joinQueue procsMax kernel current op).head target =
      if target = op.dest ∧ kernel.head target = 0 then current else kernel.head target := by
  have moved : (joinQueue procsMax kernel current op).head =
      (ipcQEnqueue procsMax kernel current op.dest).head :=
    ((setPc_kept _ current (.queued op)).record _).head
  have head (slot : Nat) : ∀ joinedAt joinedBorn, ((setTarget kernel current slot joinedAt
      joinedBorn).procs op.dest).link.ipcQHead = kernel.head op.dest :=
    fun joinedAt joinedBorn => setTarget_keeps ..
  simp only [moved, ipcQEnqueue, head]
  by_cases same : target = op.dest
  · subst same
    split
    · next empty =>
        rw [if_pos ⟨rfl, empty⟩]
        simp [Kernel.head, setHead]
    · next present =>
        simp only [present]
        exact (setNext_head ..).trans (setTarget_keeps ..)
  · simp only [same]
    split
    · exact (setHead_head _ _ _ same).trans (setTarget_keeps ..)
    · exact (setNext_head ..).trans (setTarget_keeps ..)

variable (procsMax) in
theorem procDestroy_head (kernel : Kernel) {victim : Nat} (other : target ≠ victim) :
    (procDestroy procsMax kernel victim).head target =
      if kernel.head target = victim ∧ victim ≠ 0 ∧
          target = (kernel.procs victim).link.ipcQTarget ∧ target ≠ 0 then kernel.next victim
      else kernel.head target := by
  have woken : SameRing kernel (ipcWakeWaitersOn procsMax kernel victim) :=
    ipcWakeWaitersOn_kept kernel victim
  have removed : (procDestroy procsMax kernel victim).head target =
      (ipcQRemove procsMax (ipcWakeWaitersOn procsMax kernel victim) victim).head target := by
    simp [Kernel.head, procDestroy, setHead, other]
  rw [removed, ipcQRemove_head, woken.head]
  simp only [Kernel.next, (woken.2 victim).link]

theorem receptive_views : receptive kernel target ↔ (kernel.views target).live = true ∧
    (kernel.views target).inbox.hasMessage = false ∧
    (kernel.views target).wait.inCallReplyWait = false := by
  rw [views_live]
  rfl

theorem ipcInboxFreed_awake (kernel : Kernel) (slots : procsMax ≠ 0)
    (present : kernel.head target ≠ 0) :
    ((ipcInboxFreed procsMax kernel target).procs (kernel.head target)).state ≠ .blocked := by
  obtain ⟨guard, rfl⟩ := Nat.exists_eq_succ_of_ne_zero slots
  have head : (kernel.procs target).link.ipcQHead = kernel.head target := rfl
  rw [ipcInboxFreed, head, rouseQueue, if_neg present]
  have kept : SameRing (kernel.modify (kernel.head target) Process.rouse)
      (rouseQueue (kernel.modify (kernel.head target) Process.rouse)
        (kernel.next (kernel.head target)) guard) := (SameRing.refl _).rouseQueue ..
  refine fun blocked => rouse_awake (kernel.procs (kernel.head target)) ?_
  simpa using (kept.2 (kernel.head target)).waking blocked

theorem SameRing.awake (middle : Kernel) (kept : SameRing (ipcInboxFreed procsMax middle target) after)
    (slots : procsMax ≠ 0) (present : after.head target ≠ 0) :
    (after.procs (after.head target)).state ≠ .blocked := by
  have same : after.head = middle.head :=
    kept.head.trans ((SameRing.refl middle).inboxFreed target).head
  rw [same] at present ⊢
  exact mt (kept.2 _).waking (ipcInboxFreed_awake middle slots present)

theorem head_queued (lines : Lines procsMax kernel) (present : kernel.head target ≠ 0) :
    Queued kernel (kernel.head target) target := by
  obtain ⟨cells, chain, members, -⟩ := lines.rings.linked target
  cases cells with
  | nil => exact absurd (chain.first_eq_zero.mpr rfl) present
  | cons first =>
    have head : kernel.head target = first := chain.starts
    exact (members _).mp (head ▸ List.mem_cons_self)

/-- While the head stays the same and nobody else gets the inbox, it stays awake. -/
theorem Wakeful.stays (wakeful : Wakeful kernel) (move : Move procsMax kernel action after)
    (executes : Executes kernel) (lines : Lines procsMax after)
    (free : receptive kernel target) (same : after.head target = kernel.head target)
    (present : after.head target ≠ 0) : (after.procs (after.head target)).state ≠ .blocked := by
  intro blocked
  have queued := head_queued lines present
  have joined : (after.views (after.head target)).target = target := queued.2.1
  have seat : ∃ op, (after.views (after.head target)).pc = .queued op ∧ op.dest = target := by
    by_cases waiting : ∃ op, (after.views (after.head target)).pc = .queued op
    · obtain ⟨op, pc⟩ := waiting
      exact ⟨op, pc, ((lines.placed _).seat op pc).symm.trans joined⟩
    · have out := (lines.placed _).free fun op at_ => waiting ⟨op, at_⟩
      have slot := lines.rings.slots target queued.2.2.1
      omega
  obtain ⟨op, pc, dest⟩ := seat
  rcases move.asleep executes blocked with ⟨asleep, -⟩ | ⟨turn, stuck, still, -⟩ | elsewhere
  · rw [same] at present asleep
    exact wakeful target free present asleep
  · rw [still] at pc
    rw [Stuck, pc] at stuck
    have can : ipcCanDeposit kernel (after.head target) target = true := by
      have head : (kernel.procs target).link.ipcQHead = after.head target := same.symm
      simp [ipcCanDeposit, ipcInboxAvailable, free.2, head]
    have cannot : ipcCanDeposit kernel (after.head target) op.dest = false := stuck.1
    rw [dest, can] at cannot
    cases cannot
  · rw [pc] at elsewhere
    cases elsewhere

theorem sleep_head (kernel : Kernel) (current : Nat) : (sleep kernel current).head = kernel.head := by
  funext target
  by_cases same : target = current
  · subst same
    simp [Kernel.head, sleep, Kernel.give]
  · simp [Kernel.head, sleep, Kernel.give, same]

variable (procsMax) in
theorem endCall_freed (kernel : Kernel) (current : Nat) :
    ∃ lifted, SameRing (ipcInboxFreed procsMax lifted current) (endCall procsMax kernel current) :=
  ⟨_, ((SameRing.refl _).modify _ _ (.set rfl rfl rfl)).modify _ _ (.set rfl rfl rfl)⟩

variable (procsMax) in
theorem evict_spares (kernel : Kernel) (apart : pid ≠ current) :
    ((evict procsMax kernel current).views pid).live = (kernel.views pid).live ∧
      ((evict procsMax kernel current).views pid).inbox = (kernel.views pid).inbox ∧
      ((evict procsMax kernel current).views pid).wait.inCallReplyWait =
        (kernel.views pid).wait.inCallReplyWait := by
  cases full : (kernel.views current).inbox.hasMessage with
  | false => rw [evict_nothing full]; exact ⟨rfl, rfl, rfl⟩
  | true =>
    rw [views_evict _ _ _ full]
    grind [View.bounced]

/-- Giving up a call frees the caller's inbox; giving up anything else frees none. -/
theorem abort_frees {left : Kernel} (alive : live left current) {op : Op} (slots : procsMax ≠ 0)
    (free : receptive (abort procsMax left current op) target)
    (present : (abort procsMax left current op).head target ≠ 0) :
    receptive left target ∨ ((abort procsMax left current op).procs
      ((abort procsMax left current op).head target)).state ≠ .blocked := by
  by_cases ends : target = current ∧ op.kind = .call
  · obtain ⟨rfl, call⟩ := ends
    obtain ⟨lifted, freed⟩ := endCall_freed procsMax left target
    have still : live (endCall procsMax left target) target :=
      mt ((endCall_kept left target).2 target).alive.mp alive
    refine .inr (SameRing.awake lifted ?_ slots present)
    rw [abort, if_pos call]
    exact (((freed.trans (unblock_kept still)).trans (setPc_kept ..)).record _).give none
  · rw [receptive_views] at free ⊢
    rw [views_abort alive] at free
    grind [Wait.over]

/-- The head of a queue is awake, or it was the head already and could deposit. -/
def Attended (kernel after : Kernel) (target : Nat) : Prop :=
  (after.procs (after.head target)).state ≠ .blocked ∨
    receptive kernel target ∧ after.head target = kernel.head target

theorem joinQueue_attended {prepared : Kernel} {op : Op} (ring : SameRing kernel prepared)
    (runs : ((joinQueue procsMax prepared current op).procs current).state = .runnable)
    (free : receptive kernel target) :
    Attended kernel (joinQueue procsMax prepared current op) target := by
  by_cases joins : target = op.dest ∧ prepared.head target = 0
  · left
    rw [joinQueue_head, if_pos joins, runs]
    simp
  · exact .inr ⟨free, ((joinQueue_head ..).trans (if_neg joins)).trans (congrFun ring.head target)⟩

theorem start_receptive {base prepared : Kernel} {op : Op} {owed : Owed}
    (evicts : op.kind ≠ .call ∧ base = kernel ∨
      op.kind = .call ∧ base = evict procsMax kernel current)
    (views : prepared.views =
      Function.update base.views current ((base.views current).facing op owed))
    (free : receptive (joinQueue procsMax prepared current op) target) : receptive kernel target := by
  rw [receptive_views] at free ⊢
  rw [views_joinQueue, views] at free
  rcases evicts with ⟨kind, rfl⟩ | ⟨kind, rfl⟩
  · grind [View.facing]
  · by_cases own : target = current
    · subst own
      simp [View.facing, kind] at free
    · have spared := evict_spares procsMax kernel own
      grind

theorem leaveQueue_attended {op : Op} {noted : Bool} (slots : procsMax ≠ 0)
    (alive : live kernel current) (seat : (kernel.procs current).link.ipcQTarget = op.dest)
    (cannot : ipcCanDeposit kernel current op.dest = false)
    (free : receptive (abortQueued procsMax kernel current op noted) target)
    (present : (abortQueued procsMax kernel current op noted).head target ≠ 0) :
    Attended kernel (abortQueued procsMax kernel current op noted) target := by
  have kept : SameRing kernel (if noted = true then interrupted kernel current else kernel) := by
    split
    · exact interrupted_kept ..
    · exact .refl _
  have here : live (ipcQRemove procsMax (if noted = true then interrupted kernel current
      else kernel) current) current :=
    (live_remove current).mpr (mt (kept.2 current).alive.mp alive)
  rcases abort_frees here slots free present with left | awake
  · have noting : (if noted = true then interrupted kernel current else kernel).views =
        kernel.views := by
      cases noted <;> simp
    have same : receptive kernel target := by
      rw [receptive_views, views_ipcQRemove, noting] at left
      rw [receptive_views]
      grind
    refine .inr ⟨same, (congrFun (abort_kept here op).head target).trans ?_⟩
    rw [ipcQRemove_head, (kept.2 current).link, kept.head, if_neg]
    rintro ⟨front, -, rfl, -⟩
    rw [seat] at front same
    -- the head of a receptive process's queue deposits
    have head : (kernel.procs op.dest).link.ipcQHead = current := front
    have can : ipcCanDeposit kernel current op.dest = true := by
      simp [ipcCanDeposit, ipcInboxAvailable, same.2, head]
    rw [can] at cannot
    cases cannot
  · exact .inl awake

theorem timeOut_attended {op : Op} (slots : procsMax ≠ 0) (alive : live kernel current)
    (free : receptive (abort procsMax (yank procsMax kernel current op.dest) current op) target)
    (present : (abort procsMax (yank procsMax kernel current op.dest) current op).head target ≠ 0) :
    Attended kernel (abort procsMax (yank procsMax kernel current op.dest) current op) target := by
  have here : live (yank procsMax kernel current op.dest) current := (live_yank ..).mpr alive
  rcases abort_frees here slots free present with before | awake
  · by_cases pulled : target = op.dest ∧ (kernel.views target).inbox.hasMessage = true ∧
        (kernel.views target).inbox.msgFrom = current ∧
        (kernel.views target).inbox.msgFromGeneration = (kernel.views current).generation
    · obtain ⟨rfl, message⟩ := pulled
      refine .inl (SameRing.awake (clearInbox kernel op.dest) ?_ slots present)
      have freed : yank procsMax kernel current op.dest =
          ipcInboxFreed procsMax (clearInbox kernel op.dest) op.dest := if_pos message
      rw [← freed]
      exact abort_kept here op
    · refine .inr ⟨?_, congrFun ((yank_kept ..).trans (abort_kept here op)).head target⟩
      rw [receptive_views, views_yank] at before
      rw [receptive_views]
      grind
  · exact .inl awake

theorem destroy_attended {victim : Nat} (orderly : ¬ strands kernel victim)
    (free : receptive (procDestroy procsMax kernel victim) target) :
    Attended kernel (procDestroy procsMax kernel victim) target := by
  rw [receptive_views, views_procDestroy] at free
  have other : target ≠ victim := by
    rintro rfl
    rw [if_pos rfl] at free
    cases free.1
  have same : receptive kernel target := by
    rw [receptive_views]
    grind [View.peerDied]
  have head := procDestroy_head procsMax kernel other
  by_cases front : kernel.head target = victim ∧ victim ≠ 0 ∧
      target = (kernel.procs victim).link.ipcQTarget ∧ target ≠ 0
  · rw [if_pos front] at head
    refine .inl ?_
    rw [head]
    intro blocked
    have asleep := (ipcWakeWaitersOn_awake kernel victim
      (procDestroy_asleep kernel victim blocked).2).1
    obtain ⟨first, -, queued, -⟩ := front
    rw [queued] at same first
    exact orderly ⟨same, first, asleep⟩
  · exact .inr ⟨same, head.trans (if_neg front)⟩

theorem Wakeful.next (wakeful : Wakeful kernel) (move : Move procsMax kernel action after)
    (executes : Executes kernel) (admitted : Orderly procsMax kernel action)
    (before : Lines procsMax kernel) (lines : Lines procsMax after) : Wakeful after := by
  intro target free present
  have slots : procsMax ≠ 0 := by
    have slot := lines.rings.slots target free.1
    omega
  have runs := move.executes executes
  have stays (free : receptive kernel target) (same : after.head target = kernel.head target) :=
    wakeful.stays move executes lines free same
  have attended : Attended kernel after target → (after.procs (after.head target)).state ≠ .blocked :=
    Or.rec id fun ⟨free, same⟩ => stays free same present
  rw [receptive_views] at stays
  have freed := receptive_views.mp free
  -- where the head of the queue is another than before, the step attends to it
  cases move with
  | quiet views _ ring =>
    rw [views] at freed
    exact stays freed (congrFun ring.head target) present
  | schedule => exact stays freed rfl present
  | rest _ alive =>
    rw [views_sleep alive] at freed
    exact stays freed (congrFun (sleep_head ..) target) present
  | @wander _ _ _ _ _ _ _ views _ ring =>
    refine stays ?_ (congrFun ring.head target) present
    rw [views] at freed
    grind
  | @doze _ _ _ alive =>
    refine stays ?_ ((congrFun (sleep_head ..) target).trans
      (congrFun (setPc_kept ..).head target)) present
    rw [views_sleep (by simpa [live, setPc] using alive), views_setPc] at freed
    grind
  | @settle _ _ _ _ views _ ring =>
    refine stays ?_ (congrFun ring.head target) present
    rw [views] at freed
    grind
  | start _ _ _ _ evicts _ _ _ _ _ _ _ views _ ring =>
    refine attended (joinQueue_attended (SameRing.trans ?_ ring) (runs _ rfl).1
      (start_receptive evicts views free))
    rcases evicts with ⟨-, rfl⟩ | ⟨-, rfl⟩
    · exact .refl _
    · exact evict_kept ..
  | @deposit current op _ _ pc =>
    rw [views_ipcDeposit] at freed
    have other : target ≠ op.dest := by
      grind [sentTo, landed]
    have seat : (kernel.procs current).link.ipcQTarget = op.dest := (before.placed current).seat op pc
    refine stays (by grind) ((congrFun (deposited_kept ..).head target).trans ?_) present
    rw [ipcQRemove_head, seat, if_neg fun all => other all.2.2.1]
  | leaveQueue _ _ alive pc cannot =>
    exact attended (leaveQueue_attended slots alive ((before.placed _).seat _ pc) cannot free present)
  | @redeliver current op _ _ turn =>
    rw [views_joinQueue, views_clearBounced] at freed
    exact attended (joinQueue_attended ((SameRing.refl kernel).modify _ _ (.set rfl rfl rfl))
      (runs current ((joinQueue_turn ..).trans turn)).1 (receptive_views.mpr (by grind)))
  | accept =>
    refine stays ?_ (congrFun (setPc_kept ..).head target) present
    rw [views_setPc] at freed
    grind
  | @finish current op id _ _ _ kind =>
    refine stays ?_ (congrFun (succeed_kept ..).head target) present
    rw [views_succeed current op id kind] at freed
    grind [Wait.over]
  | timeOut _ alive => exact attended (timeOut_attended slots alive free present)
  | @desert current op id bytes turn alive pc | @hangUp current op id bytes turn alive pc =>
    rcases abort_frees alive slots free present with before | awake
    · exact stays (receptive_views.mp before) (congrFun (abort_kept alive op).head target) present
    · exact awake
  | @collect current =>
    by_cases own : target = current
    · subst own
      obtain ⟨lifted, ended⟩ := endCall_freed procsMax (clearInbox kernel target) target
      refine SameRing.awake lifted ?_ slots present
      exact (((((ended.ack _).trans (setPc_kept ..)).record _).record _).record _).give none
    · refine stays ?_ (congrFun (takeReply_kept ..).head target) present
      rw [views_takeReply, ackedIf] at freed
      grind [View.acked]
  | @take _ current =>
    by_cases own : target = current
    · subst own
      refine SameRing.awake (ipcNoteReplyOwed (clearInbox kernel target) target) ?_ slots
        present
      exact ((((SameRing.refl _).ack _).trans (setPc_kept ..)).record _).give none
    · refine stays ?_ (congrFun (takeMessage_kept ..).head target) present
      rw [views_takeMessage, ackedIf] at freed
      grind [View.acked]
  | destroy => exact attended (destroy_attended (admitted.2 _ rfl) free)
  | @create _ slot _ _ _ _ fresh =>
    by_cases own : target = slot
    · subst own
      exact absurd (by simp [Kernel.head, Kernel.record, fresh.link]) present
    · refine stays ?_ (by simp [Kernel.head, Kernel.record, own]) present
      rw [views_record, views_modify, Function.update_of_ne own] at freed
      exact freed

theorem boot_wakeful : Wakeful boot := by
  intro target free present
  exact absurd rfl free.1

theorem run_wakeful (run : Run.Reach (step procsMax) (Orderly procsMax) boot kernel) :
    Lines procsMax kernel ∧ Wakeful kernel := by
  induction run with
  | start => exact ⟨boot_lines, boot_wakeful⟩
  | next _ before admitted stepped ih =>
    obtain ⟨lines, wakeful⟩ := ih
    obtain ⟨executes, seats⟩ := run_seats before
    have move := step_move executes stepped
    have next : Lines procsMax _ := ⟨move.rings admitted.1 lines.rings seats lines.placed,
      move.placed admitted.1 lines.rings seats lines.placed⟩
    exact ⟨next, wakeful.next move executes admitted lines next⟩

/-- While a live process has an empty inbox and is in no call, the head of its queue is
not asleep. So the diagnostic of `ipc_timeout_sweep` is never printed. -/
theorem no_missed_wake (run : Run.Reach (step procsMax) (Orderly procsMax) boot kernel) :
    (∀ target, receptive kernel target → kernel.head target ≠ 0 →
      (kernel.procs (kernel.head target)).state ≠ .blocked) ∧
    ∀ pid target, (kernel.procs pid).state = .blocked →
      (kernel.procs pid).link.ipcQTarget = target → target ≠ 0 →
      ¬ ((kernel.procs target).inbox.hasMessage = false ∧
        (kernel.procs target).wait.inCallReplyWait = false ∧ kernel.head target = pid) := by
  obtain ⟨lines, wakeful⟩ := run_wakeful run
  refine ⟨wakeful, ?_⟩
  rintro pid target blocked - - ⟨empty, unreserved, front⟩
  have present : kernel.head target ≠ 0 := by
    have slot := lines.rings.slots pid (by rw [live, blocked]; decide)
    omega
  have alive := (head_queued lines present).2.2.1
  exact wakeful target ⟨alive, empty, unreserved⟩ present (front ▸ blocked)

/-- Processes 4 and 5 queue for process 2, which receives the message of process 3. -/
def freedUp : Kernel :=
  Run.outcome (step 64) (Orderly 64) boot [.create, .create, .create, .create, .create,
    .send 3 2 1 1 true, .run [1], .run [], .send 4 2 1 1 true, .run [], .send 5 2 1 1 true, .run [],
    .recv 2 8 true, .run [], .schedule 5, .run []]

theorem no_missed_wake_freedUp : receptive freedUp 2 ∧ freedUp.head 2 = 4 ∧
    (freedUp.procs 5).state = .blocked ∧ (freedUp.procs (freedUp.head 2)).state ≠ .blocked :=
  have free : receptive freedUp 2 := by decide
  have head : freedUp.head 2 = 4 := by decide
  have present : freedUp.head 2 ≠ 0 := by decide
  ⟨free, head, by decide,
    (no_missed_wake (Run.outcome_reach _ _ (by decide))).1 2 free present⟩

/-- Process 5 has found that it is not the head; process 4 is killed before it runs. -/
def passedOver : Kernel :=
  Run.outcome (step 64) (fun _ _ => True) boot [.create, .create, .create, .create, .create,
    .send 3 2 1 1 true, .run [1], .run [], .send 4 2 1 1 true, .run [], .send 5 2 1 1 true, .run [],
    .recv 2 8 true, .run [], .schedule 5, .run [], .destroy 4]

theorem missed_wake : Run.Reach (step 64) (fun _ _ => True) boot passedOver ∧
    receptive passedOver 2 ∧ passedOver.head 2 = 5 ∧ (passedOver.procs 5).state = .blocked :=
  ⟨Run.outcome_reach _ _ (by decide), by decide, by decide, by decide⟩

end Racccoon.Ipc
