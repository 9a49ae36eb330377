import Racccoon.Ipc.Queues
import Racccoon.Ipc.Seats
import Racccoon.Ipc.Sleep

/-!
The send queues over whole runs. `Placed` ties `ipc_q_target` to the loop a process is
in and to the death of its target; together with `Rings` it gives the members of every
queue in the kernel's own terms. The queues hold up as long as no message that was
handed back is sent again after its target has died: a dead slot has no pid to store.
-/

namespace Racccoon.Ipc
open Function (update_self update_of_ne)

open LinkedQueue

def redelivering (kernel : Kernel) : Option Nat :=
  kernel.turn.bind fun current =>
    match (kernel.procs current).pc with
    | .acking op _ =>
      if op.kind ≠ .reply ∧ (kernel.procs current).wait.ipcBounced then some current else none
    | _ => none

def Reaches (procsMax : Nat) (kernel : Kernel) (_ : Action) : Prop :=
  ∀ current ∈ redelivering kernel, ipcPeerGone procsMax kernel current = false

instance (procsMax : Nat) (kernel : Kernel) (action : Action) :
    Decidable (Reaches procsMax kernel action) :=
  inferInstanceAs (Decidable (∀ current ∈ redelivering kernel, _ = false))

/-- Where a process queues, and whether that is still the process it queued for. -/
structure Placed (views : Nat → View) (pid : Nat) : Prop where
  seat : ∀ op, (views pid).pc = .queued op → (views pid).target = op.dest
  free : (∀ op, (views pid).pc ≠ .queued op) → (views pid).target = 0
  stamp : ∀ op, (views pid).pc = .queued op → ((views pid).wait.ipcPeerDied = false ↔
    (views op.dest).live = true ∧ (views pid).joinedBorn = (views op.dest).born)

structure Lines (procsMax : Nat) (kernel : Kernel) : Prop where
  rings : Rings procsMax kernel
  placed : ∀ pid, Placed kernel.views pid

variable {procsMax : Nat} {kernel after : Kernel} {pid current : Nat} {action : Action}

/-- What the queues do not see of a process may change. -/
structure Steady (view changed : View) : Prop where
  queued : ∀ op, changed.pc = .queued op ↔ view.pc = .queued op
  target : changed.target = view.target
  joined : changed.joinedBorn = view.joinedBorn
  died : ∀ op, view.pc = .queued op → changed.wait.ipcPeerDied = view.wait.ipcPeerDied
  alive : changed.live = view.live
  born : changed.born = view.born

theorem Steady.refl (view : View) : Steady view view := ⟨fun _ => .rfl, rfl, rfl, fun _ _ => rfl, rfl, rfl⟩

theorem Placed.steady {views changed : Nat → View} (placed : Placed views pid)
    (own : Steady (views pid) (changed pid))
    (peer : ∀ op, (views pid).pc = .queued op →
      (changed op.dest).live = (views op.dest).live ∧ (changed op.dest).born = (views op.dest).born) :
    Placed changed pid := by
  refine ⟨fun op queued => ?_, fun idle => ?_, fun op queued => ?_⟩
  · rw [own.target]
    exact placed.seat op ((own.queued op).mp queued)
  · rw [own.target]
    exact placed.free fun op => mt (own.queued op).mpr (idle op)
  · have inside := (own.queued op).mp queued
    rw [own.died op inside, own.joined, (peer op inside).1, (peer op inside).2]
    exact placed.stamp op inside

theorem Placed.quiet {views changed : Nat → View} (placed : ∀ pid, Placed views pid)
    (steady : ∀ pid, Steady (views pid) (changed pid)) (pid : Nat) : Placed changed pid :=
  (placed pid).steady (steady pid) fun op _ => ⟨(steady op.dest).alive, (steady op.dest).born⟩

theorem Placed.gone {views : Nat → View} (idle : ∀ op, (views pid).pc ≠ .queued op)
    (target : (views pid).target = 0) : Placed views pid :=
  ⟨fun op queued => absurd queued (idle op), fun _ => target, fun op queued => absurd queued (idle op)⟩

variable (kernel) in
theorem Placed.joins (placed : ∀ pid, Placed kernel.views pid) {op : Op} (alive : live kernel op.dest)
    (died : (kernel.views current).wait.ipcPeerDied = false) (pid : Nat) :
    Placed (joinQueue procsMax kernel current op).views pid := by
  have dest : kernel.pid op.dest = op.dest := if_neg alive
  have peer (slot : Nat) :
      ((joinQueue procsMax kernel current op).views slot).live = (kernel.views slot).live ∧
      ((joinQueue procsMax kernel current op).views slot).born = (kernel.views slot).born := by
    rw [views_joinQueue]
    by_cases same : slot = current
    · subst same
      simp
    · simp [same]
  by_cases own : pid = current
  · subst own
    have view : (joinQueue procsMax kernel pid op).views pid = { kernel.views pid with
        pc := .queued op
        target := kernel.pid op.dest
        joinedBorn := (kernel.views op.dest).born } := by
      rw [views_joinQueue, update_self]
    refine ⟨?_, ?_, ?_⟩
    · intro other queued
      rw [view] at queued ⊢
      cases queued
      exact dest
    · intro none
      exact absurd (by rw [view]) (none op)
    · intro other queued
      rw [(peer other.dest).1, (peer other.dest).2]
      rw [view] at queued ⊢
      cases queued
      simp [died, views_live.mpr alive]
  · refine (placed pid).steady ?_ fun op _ => peer op.dest
    rw [views_joinQueue, update_of_ne own]
    exact .refl _

theorem ipcPeerGone_false (named : (kernel.views current).wait.ipcWaitPid ≠ 0)
    (here : ipcPeerGone procsMax kernel current = false) :
    (kernel.views current).wait.ipcPeerDied = false ∧
      live kernel (kernel.views current).wait.ipcWaitPid := by
  have named : (kernel.procs current).wait.ipcWaitPid ≠ 0 := named
  simp only [ipcPeerGone, named, ne_eq, not_false_eq_true, decide_true, Bool.true_and,
    Bool.or_eq_false_iff, Bool.not_eq_false', procByPid, Bool.and_eq_true, decide_eq_true_eq] at here
  exact ⟨here.1.1, here.1.2.2⟩

theorem Reaches.alive (admitted : Reaches procsMax kernel action)
    (seats : Seats procsMax kernel.exchange) {op : Op} {id : Nat} (turn : kernel.turn = some current)
    (pc : (kernel.views current).pc = .acking op id) (kind : op.kind ≠ .reply)
    (bounced : (kernel.views current).wait.ipcBounced = true) :
    (kernel.views current).wait.ipcPeerDied = false ∧ live kernel op.dest := by
  have inside : (kernel.exchange.views current).pc.op = some op := congrArg Pc.op pc
  have acking : (kernel.procs current).pc = .acking op id := pc
  have flagged : (kernel.procs current).wait.ipcBounced = true := bounced
  have here := admitted current (by simp [redelivering, turn, acking, kind, flagged])
  have dest : (kernel.views current).wait.ipcWaitPid = op.dest :=
    ((seats.seated current).waits op inside).1
  rw [← dest]
  exact ipcPeerGone_false (dest ▸ (seats.seated current).named op inside) here

theorem evict_steady (kernel : Kernel) (current pid : Nat) :
    Steady (kernel.views pid) ((evict procsMax kernel current).views pid) := by
  cases full : (kernel.views current).inbox.hasMessage with
  | false => rw [evict_nothing full]; exact .refl _
  | true =>
    rw [views_evict _ _ _ full]
    constructor <;> grind [View.bounced]

theorem destroy_placed (placed : ∀ pid, Placed kernel.views pid)
    (seats : Seats procsMax kernel.exchange) {victim : Nat} (pid : Nat) :
    Placed (procDestroy procsMax kernel victim).views pid := by
  have views (other : Nat) := views_procDestroy procsMax kernel victim other
  by_cases own : pid = victim
  · have gone := views pid
    rw [if_pos own] at gone
    exact .gone (by simp [gone]) (by simp [gone])
  · have mine := views pid
    rw [if_neg own] at mine
    refine ⟨fun op queued => ?_, fun idle => ?_, fun op queued => ?_⟩
    · have inside : (kernel.views pid).pc = .queued op := by grind [View.peerDied]
      rw [← (placed pid).seat op inside, mine]
      split <;> rfl
    · rw [← (placed pid).free (by grind [View.peerDied]), mine]
      split <;> rfl
    · have inside : (kernel.views pid).pc = .queued op := by grind [View.peerDied]
      have inOp : (kernel.exchange.views pid).pc.op = some op := congrArg Pc.op inside
      have stamp := (placed pid).stamp op inside
      have waits : (kernel.views pid).wait.ipcWaitPid = op.dest ∧
          (kernel.views pid).wait.ipcWaitGeneration = op.destGeneration :=
        (seats.seated pid).waits op inOp
      have alive : live kernel pid := views_live.mp ((seats.seated pid).alive op inOp)
      have slot := (seats.seated pid).slot (views_live.mpr alive)
      have peer (here : (kernel.views pid).wait.ipcPeerDied = false) :
          (kernel.views op.dest).generation = op.destGeneration := (seats.peer pid op inOp here).2
      by_cases dest : op.dest = victim
      · -- every sender that still waits for the victim is told
        refine iff_of_false ?_ ?_
        · grind [View.peerDied]
        · rw [views op.dest, if_pos dest]
          simp
      · grind [View.peerDied]

theorem create_placed (placed : ∀ pid, Placed kernel.views pid) (rings : Rings procsMax kernel)
    (seats : Seats procsMax kernel.exchange) {slot : Nat} {proc : Process} (dead : ¬ live kernel slot)
    (fresh : Fresh kernel slot proc) (event : Event) (pid : Nat) :
    Placed ((kernel.modify slot fun _ => proc).record event).views pid := by
  rw [views_record, views_modify]
  have view : proc.view.pc = .user ∧ proc.view.target = 0 ∧ proc.view.born = kernel.log.length :=
    ⟨fresh.pc, by simp [Process.view, fresh.link], fresh.born⟩
  by_cases own : pid = slot
  · subst own
    exact .gone (by simp [view.1]) (by simp [view.2.1])
  · refine ⟨fun op queued => ?_, fun idle => ?_, fun op queued => ?_⟩ <;>
      rw [update_of_ne own] at *
    · exact (placed pid).seat op queued
    · exact (placed pid).free idle
    · have stamp := (placed pid).stamp op queued
      by_cases dest : op.dest = slot
      · subst dest
        have inOp : (kernel.exchange.views pid).pc.op = some op := congrArg Pc.op queued
        have alive : live kernel pid := views_live.mp ((seats.seated pid).alive op inOp)
        have joins : (kernel.views pid).target ≠ 0 :=
          (placed pid).seat op queued ▸ (seats.seated pid).named op inOp
        have older : (kernel.views pid).joinedBorn < kernel.log.length :=
          (rings.joined pid alive joins).2
        refine iff_of_false ?_ ?_
        · exact fun here => dead (views_live.mp (stamp.mp here).1)
        · rw [update_self]
          omega
      · rw [update_of_ne dest]
        exact stamp

theorem Move.placed (move : Move procsMax kernel action after)
    (admitted : Reaches procsMax kernel action) (rings : Rings procsMax kernel)
    (seats : Seats procsMax kernel.exchange) (placed : ∀ pid, Placed kernel.views pid) (pid : Nat) :
    Placed after.views pid := by
  -- only `start` and `redeliver` put a process into a queue
  cases move with
  | quiet views => rw [views]; exact placed pid
  | schedule => exact placed pid
  | rest _ alive => rw [views_sleep alive]; exact placed pid
  | @wander _ _ _ _ _ _ _ views =>
    rw [views]
    refine .quiet placed (fun slot => ?_) pid
    constructor <;> grind [Pc.outside]
  | @doze _ _ _ alive =>
    rw [views_sleep (by simpa [live, setPc] using alive), views_setPc]
    refine .quiet placed (fun slot => ?_) pid
    constructor <;> grind [Pc.outside]
  | @settle _ _ _ _ views =>
    rw [views]
    refine .quiet placed (fun slot => ?_) pid
    constructor <;> grind
  | @start _ current op base prepared owed idle runs evicts found caller dest started seq debt calls
      views log ring =>
      have user : (kernel.views current).pc = .user := runs.2
      have alive : live kernel op.dest := by
        simp only [procByPid, Bool.and_eq_true, decide_eq_true_eq] at found
        exact found.2
      have same : (∀ pid, Steady (kernel.views pid) (base.views pid)) ∧ SameRing kernel base := by
        rcases evicts with ⟨-, rfl⟩ | ⟨-, rfl⟩
        · exact ⟨fun pid => .refl _, .refl _⟩
        · exact ⟨evict_steady kernel current, evict_kept kernel current⟩
      refine Placed.joins prepared (.quiet (.quiet placed same.1) fun slot => ?_) ?_ ?_ pid
      · have idle (op : Op) : (base.views current).pc ≠ .queued op := by
          simp [(same.1 current).queued, user]
        rw [views]
        constructor <;> grind [View.facing]
      · exact mt ((same.2.trans ring).2 op.dest).alive.mp alive
      · rw [views, update_self]
        rfl
  | @deposit current op =>
    by_cases own : pid = current
    · refine .gone (fun other => ?_) ?_ <;> rw [views_ipcDeposit] <;> simp [own]
    · refine (placed pid).steady ?_ fun op _ => ?_
      · rw [views_ipcDeposit]
        constructor <;> grind
      · rw [views_ipcDeposit]
        grind
  | @leaveQueue current op _ _ _ alive =>
    rw [views_abortQueued alive]
    by_cases own : pid = current
    · exact .gone (by simp [own]) (by simp [own])
    · refine (placed pid).steady ?_ fun op _ => ?_
      · rw [update_of_ne own]
        exact .refl _
      · grind
  | @redeliver current op _ _ turn pc kind bounced =>
    obtain ⟨here, alive⟩ := admitted.alive seats turn pc kind bounced
    have kept : SameRing kernel (clearBounced kernel current) :=
      (SameRing.refl kernel).modify _ _ (.set rfl rfl rfl)
    refine Placed.joins (clearBounced kernel current) (.quiet placed fun slot => ?_)
      (mt (kept.2 op.dest).alive.mp alive) ?_ pid
    · rw [views_clearBounced]
      constructor <;> grind
    · rw [views_clearBounced, update_self]
      exact here
  | accept =>
    rw [views_setPc]
    refine .quiet placed (fun slot => ?_) pid
    constructor <;> grind
  | @finish current op id _ _ _ kind =>
    rw [views_succeed current op id kind]
    refine .quiet placed (fun slot => ?_) pid
    constructor <;> grind [Wait.over]
  | @timeOut _ _ _ _ _ alive =>
    rw [views_abort ((live_yank ..).mpr alive)]
    refine .quiet placed (fun slot => ?_) pid
    rw [Function.update_apply, views_yank, views_yank]
    constructor <;> grind [Wait.over]
  | @desert _ _ _ _ _ alive | @hangUp _ _ _ _ _ alive =>
    rw [views_abort alive]
    refine .quiet placed (fun slot => ?_) pid
    constructor <;> grind [Wait.over]
  | collect =>
    refine .quiet placed (fun slot => ?_) pid
    rw [views_takeReply, ackedIf]
    constructor <;> grind [View.acked]
  | take =>
    refine .quiet placed (fun slot => ?_) pid
    rw [views_takeMessage, ackedIf]
    constructor <;> grind [View.acked, Pc.outside]
  | destroy => exact destroy_placed placed seats pid
  | create _ unused _ fresh =>
    exact create_placed placed rings seats (unusedSlot_spec unused).2 fresh _ pid

theorem procByPid_live (found : procByPid procsMax kernel pid = true) : live kernel pid := by
  simp only [procByPid, Bool.and_eq_true, decide_eq_true_eq] at found
  exact found.2

theorem Rings.join (rings : Rings procsMax after) (kept : SameRing kernel after) {op : Op}
    (left : (kernel.procs current).link.ipcQTarget = 0) (here : live kernel current)
    (alive : live kernel op.dest) : Rings procsMax (joinQueue procsMax after current op) := by
  have queued := rings.enqueue (by rw [(kept.2 current).link, left])
    (mt (kept.2 current).alive.mp here) (mt (kept.2 op.dest).alive.mp alive) (.enqueued op)
  exact queued.same (setPc_kept ..)

theorem interrupted_kept (kernel : Kernel) (current : Nat) :
    SameRing kernel (interrupted kernel current) :=
  (SameRing.refl kernel).modify _ _ (.set rfl rfl rfl)

theorem Move.rings (move : Move procsMax kernel action after)
    (admitted : Reaches procsMax kernel action) (rings : Rings procsMax kernel)
    (seats : Seats procsMax kernel.exchange) (placed : ∀ pid, Placed kernel.views pid) :
    Rings procsMax after := by
  have free {slot : Nat} (idle : ∀ op, (kernel.views slot).pc ≠ .queued op) :
      (kernel.procs slot).link.ipcQTarget = 0 := (placed slot).free idle
  cases move with
  | quiet _ _ ring => exact rings.same ring
  | schedule => exact rings.same ((SameRing.refl kernel).give _)
  | rest _ alive => exact rings.sleep alive
  | wander _ _ _ _ _ _ ring => exact rings.same ring
  | doze _ alive =>
    exact (rings.same (setPc_kept ..)).sleep (by simpa [live, setPc] using alive)
  | settle _ _ _ ring => exact rings.same ring
  | @start _ current op base prepared owed idle runs evicts found caller dest started seq debt calls
      views log ring =>
      have kept : SameRing kernel base := by
        rcases evicts with ⟨-, rfl⟩ | ⟨-, rfl⟩
        · exact .refl _
        · exact evict_kept kernel current
      have user : (kernel.views current).pc = .user := runs.2
      have joined : Rings procsMax (joinQueue procsMax prepared current op) :=
        (rings.same (kept.trans ring)).join (kept.trans ring) (free (by simp [user]))
          (running_live runs) (procByPid_live found)
      exact joined.same ((SameRing.refl _).give _)
  | @deposit current => exact (rings.remove current).same (deposited_kept ..)
  | @leaveQueue current op _ noted _ alive =>
    cases noted with
    | false => exact (rings.remove current).same (abort_kept ((live_remove current).mpr alive) op)
    | true =>
      exact ((rings.same (interrupted_kept ..)).remove current).same
        (abort_kept ((live_remove current).mpr (live_interrupted.mpr alive)) op)
  | @redeliver current op _ _ turn pc kind bounced =>
    have kept : SameRing kernel (clearBounced kernel current) :=
      (SameRing.refl kernel).modify _ _ (.set rfl rfl rfl)
    have here : live kernel current :=
      views_live.mp ((seats.seated current).alive op (congrArg Pc.op pc))
    exact (rings.same kept).join kept (free (by simp [pc])) here
      (admitted.alive seats turn pc kind bounced).2
  | accept => exact rings.same (setPc_kept ..)
  | finish => exact rings.same (succeed_kept ..)
  | timeOut turn alive pc kind =>
    exact rings.same ((yank_kept ..).trans (abort_kept ((live_yank ..).mpr alive) _))
  | desert turn alive | hangUp turn alive => exact rings.same (abort_kept alive _)
  | collect turn pc full => exact rings.same (takeReply_kept ..)
  | take awake outside full consumes => exact rings.same (takeMessage_kept ..)
  | @destroy victim idle found =>
    have woken : Rings procsMax (ipcWakeWaitersOn procsMax kernel victim) :=
      rings.same (ipcWakeWaitersOn_kept kernel victim)
    exact (woken.remove victim).bury (ipcQRemove_stamps procsMax _ victim).1
  | create idle unused creates fresh =>
    have spec := unusedSlot_spec unused
    exact rings.born_slot spec.1 spec.2 fresh.born fresh.link _

theorem boot_lines : Lines procsMax boot := by
  refine ⟨⟨?_, fun target => ⟨[], .nil, ?_, .nil⟩, ?_, ?_⟩, fun pid => .gone ?_ rfl⟩ <;>
    simp [live, boot, Queued, Kernel.views, Process.view]

theorem run_lines (run : Run.Reach (step procsMax) (Reaches procsMax) boot kernel) :
    Lines procsMax kernel := by
  induction run with
  | start => exact boot_lines
  | next action before admitted stepped ih =>
    obtain ⟨executes, seats⟩ := run_seats before
    have move := step_move executes stepped
    exact ⟨move.rings admitted ih.rings seats ih.placed,
      move.placed admitted ih.rings seats ih.placed⟩

theorem Lines.member (lines : Lines procsMax kernel) {slot : Nat} (inside : 1 ≤ slot) : Queued kernel pid slot ↔ live kernel pid ∧
      (kernel.procs pid).link.ipcQTarget = slot ∧ (kernel.procs pid).wait.ipcPeerDied = false := by
  have placed := lines.placed pid
  constructor
  · rintro ⟨alive, joined, here, stamp⟩
    have target : (kernel.views pid).target = slot := joined
    by_cases queued : ∃ op, (kernel.views pid).pc = .queued op
    · obtain ⟨op, queued⟩ := queued
      obtain rfl : op.dest = slot := (placed.seat op queued).symm.trans target
      exact ⟨alive, joined, (placed.stamp op queued).mpr ⟨views_live.mpr here, stamp⟩⟩
    · have out := placed.free fun op at_ => queued ⟨op, at_⟩
      omega
  · rintro ⟨alive, joined, waits⟩
    have target : (kernel.views pid).target = slot := joined
    by_cases queued : ∃ op, (kernel.views pid).pc = .queued op
    · obtain ⟨op, queued⟩ := queued
      obtain rfl : op.dest = slot := (placed.seat op queued).symm.trans target
      obtain ⟨here, stamp⟩ := (placed.stamp op queued).mp waits
      exact ⟨alive, joined, views_live.mp here, stamp⟩
    · have out := placed.free fun op at_ => queued ⟨op, at_⟩
      omega

theorem Lines.waits (lines : Lines procsMax kernel) (seats : Seats procsMax kernel.exchange)
    {slot : Nat} (inside : 1 ≤ slot) (queued : Queued kernel pid slot) :
    ∃ op, (kernel.procs pid).pc = .queued op ∧ op.dest = slot ∧
      op.destGeneration = (kernel.procs slot).generation ∧
      (kernel.procs pid).wait.ipcWaitPid = slot ∧
      (kernel.procs pid).wait.ipcWaitGeneration = (kernel.procs slot).generation := by
  have placed := lines.placed pid
  have here := ((lines.member inside).mp queued).2.2
  have target : (kernel.views pid).target = slot := queued.2.1
  by_cases waiting : ∃ op, (kernel.views pid).pc = .queued op
  · obtain ⟨op, pc⟩ := waiting
    obtain rfl : op.dest = slot := (placed.seat op pc).symm.trans target
    have inOp : (kernel.exchange.views pid).pc.op = some op := congrArg Pc.op pc
    have waits := (seats.seated pid).waits op inOp
    have peer := (seats.peer pid op inOp here).2
    exact ⟨op, pc, rfl, peer.symm, waits.1, waits.2.trans peer.symm⟩
  · have out := placed.free fun op at_ => waiting ⟨op, at_⟩
    omega

/-- Every slot's list is finite, free of duplicates and in the order of arrival. On it
are the live processes whose `ipc_q_target` is the slot and whose target has not died;
they all queue for the slot's present occupant. -/
theorem send_queue (run : Run.Reach (step procsMax) (Reaches procsMax) boot kernel) (slot : Nat)
    (inside : 1 ≤ slot) :
    ∃ cells, Chain kernel.next (kernel.procs slot).link.ipcQHead cells ∧ cells.Nodup ∧
      (∀ pid, pid ∈ cells ↔ live kernel pid ∧ (kernel.procs pid).link.ipcQTarget = slot ∧
        (kernel.procs pid).wait.ipcPeerDied = false) ∧
      (∀ pid ∈ cells, live kernel slot ∧
        (kernel.procs pid).link.joinedBorn = (kernel.procs slot).born ∧
        (kernel.procs pid).wait.ipcWaitPid = slot ∧
        (kernel.procs pid).wait.ipcWaitGeneration = (kernel.procs slot).generation) ∧
      cells.Pairwise fun first second =>
        (kernel.procs first).link.joinedAt < (kernel.procs second).link.joinedAt := by
  have lines := run_lines run
  have seats := (run_seats run).2
  obtain ⟨cells, chain, members, sorted⟩ := lines.rings.linked slot
  refine ⟨cells, chain, chain.nodup, fun pid => (members pid).trans (lines.member inside),
    fun pid inQueue => ?_, sorted⟩
  have queued := (members pid).mp inQueue
  obtain ⟨op, -, -, -, waits⟩ := lines.waits seats inside queued
  exact ⟨queued.2.2.1, queued.2.2.2, waits⟩

/-- Process 3's message fills the inbox of process 2; processes 4 and 5 queue. -/
def crowded : Kernel :=
  Run.outcome (step 64) (Reaches 64) boot [.create, .create, .create, .create, .create,
    .send 3 2 1 1 true, .run [1], .run [], .send 4 2 1 1 true, .run [], .send 5 2 1 1 true, .run []]

theorem send_queue_crowded : 1 ≤ 2 ∧
    ∃ cells, Chain crowded.next (crowded.procs 2).link.ipcQHead cells ∧ cells.Nodup ∧
      (∀ pid, pid ∈ cells ↔ live crowded pid ∧ (crowded.procs pid).link.ipcQTarget = 2 ∧
        (crowded.procs pid).wait.ipcPeerDied = false) ∧
      (∀ pid ∈ cells, live crowded 2 ∧
        (crowded.procs pid).link.joinedBorn = (crowded.procs 2).born ∧
        (crowded.procs pid).wait.ipcWaitPid = 2 ∧
        (crowded.procs pid).wait.ipcWaitGeneration = (crowded.procs 2).generation) ∧
      cells.Pairwise fun first second =>
        (crowded.procs first).link.joinedAt < (crowded.procs second).link.joinedAt :=
  ⟨by decide, send_queue (Run.outcome_reach _ _ (by decide)) 2 (by decide)⟩

/-- Process 4 waits in the queue of process 2 when that is killed. -/
def orphaned : Kernel :=
  Run.outcome (step 64) (Reaches 64) boot [.create, .create, .create, .create,
    .send 3 2 1 1 true, .run [1], .run [], .send 4 2 1 1 true, .run [], .destroy 2]

theorem send_queue_orphaned : Run.Reach (step 64) (Reaches 64) boot orphaned ∧
    live orphaned 4 ∧ (orphaned.procs 4).link.ipcQTarget = 2 ∧
    ∀ cells, Chain orphaned.next (orphaned.procs 2).link.ipcQHead cells → 4 ∉ cells := by
  refine ⟨Run.outcome_reach _ _ (by decide), by decide, by decide,
    fun cells chain => ?_⟩
  simp [chain.first_eq_zero.mp rfl]

end Racccoon.Ipc
