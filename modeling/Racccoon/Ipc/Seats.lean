import Racccoon.Ipc.Exchange

/-!
What holds between a process, the operation it is in and the target it waits for,
in every run and under any rules.
-/

namespace Racccoon.Ipc

variable {procsMax pid : Nat} {rules : Rules} {before after : Exchange} {view changed : View}

/-- What a process's own view says about its operation. -/
structure Seated (procsMax pid : Nat) (view : View) : Prop where
  slot : view.live = true → 1 ≤ pid ∧ pid ≤ procsMax
  alive : ∀ op, view.pc.op = some op → view.live = true
  waits : ∀ op, view.pc.op = some op →
    view.wait.ipcWaitPid = op.dest ∧ view.wait.ipcWaitGeneration = op.destGeneration
  named : ∀ op, view.pc.op = some op → op.dest ≠ 0
  caller : ∀ op, view.pc.op = some op → op.caller = pid ∧ op.callerGeneration = view.generation
  inCall : view.live = true → (view.wait.inCallReplyWait = true ↔ ∃ op, view.pc.call = some op)
  awaits : ∀ op id, view.pc = .awaiting op id → op.kind = .call

/-- What it says about the target: until its death is noticed, it is the instance
the operation was started against. -/
structure Seats (procsMax : Nat) (ex : Exchange) : Prop where
  seated : ∀ pid, Seated procsMax pid (ex.views pid)
  peer : ∀ pid op, (ex.views pid).pc.op = some op → (ex.views pid).wait.ipcPeerDied = false →
    (ex.views op.dest).live = true ∧ (ex.views op.dest).generation = op.destGeneration

theorem Seated.same (seated : Seated procsMax pid view) (live : changed.live = view.live)
    (generation : changed.generation = view.generation) (pc : changed.pc = view.pc)
    (waitPid : changed.wait.ipcWaitPid = view.wait.ipcWaitPid)
    (waitGeneration : changed.wait.ipcWaitGeneration = view.wait.ipcWaitGeneration)
    (inCall : changed.wait.inCallReplyWait = view.wait.inCallReplyWait) :
    Seated procsMax pid changed := by
  obtain ⟨slot, alive, waits, named, caller, reserved, awaits⟩ := seated
  constructor <;> simp only [live, generation, pc, waitPid, waitGeneration, inCall] <;> assumption

theorem Pc.call_of_op {pc : Pc} {op : Op} (inside : pc.op = some op) :
    pc.call = if op.kind = .call then some op else none := by
  cases pc <;> simp_all [Pc.op, Pc.call]

theorem Pc.op_of_call {pc : Pc} {op : Op} (inside : pc.call = some op) :
    pc.op = some op ∧ op.kind = .call := by
  cases pc <;> simp_all [Pc.op, Pc.call] <;> grind

theorem Pc.outside_op {pc : Pc} (outside : pc.outside = true) : pc.op = none ∧ pc.call = none := by
  cases pc <;> simp_all [Pc.outside, Pc.op, Pc.call]

/-- An operation that moves on to its next loop. -/
theorem Seated.moves (seated : Seated procsMax pid view) (op : Op) (inside : view.pc.op = some op)
    (live : changed.live = view.live) (generation : changed.generation = view.generation)
    (waitPid : changed.wait.ipcWaitPid = view.wait.ipcWaitPid)
    (waitGeneration : changed.wait.ipcWaitGeneration = view.wait.ipcWaitGeneration)
    (inCall : changed.wait.inCallReplyWait = view.wait.inCallReplyWait)
    (still : changed.pc.op = some op)
    (awaits : ∀ op id, changed.pc = .awaiting op id → op.kind = .call) :
    Seated procsMax pid changed := by
  refine ⟨by rw [live]; exact seated.slot, fun other same => ?_, fun other same => ?_,
    fun other same => ?_, fun other same => ?_, fun alive => ?_, awaits⟩
  · rw [live]
    exact seated.alive op inside
  · obtain rfl : op = other := Option.some.inj (still.symm.trans same)
    rw [waitPid, waitGeneration]
    exact seated.waits op inside
  · exact Option.some.inj (still.symm.trans same) ▸ seated.named op inside
  · obtain rfl : op = other := Option.some.inj (still.symm.trans same)
    rw [generation]
    exact seated.caller op inside
  · rw [inCall, seated.inCall (live ▸ alive), Pc.call_of_op inside, Pc.call_of_op still]

/-- An operation that ends. -/
theorem Seated.ends (seated : Seated procsMax pid view) (op : Op) (inside : view.pc.op = some op)
    (live : changed.live = view.live) (inCall : changed.wait.inCallReplyWait =
      if op.kind = .call then false else view.wait.inCallReplyWait)
    (pc : changed.pc = .user) : Seated procsMax pid changed := by
  refine ⟨by rw [live]; exact seated.slot, by simp [pc, Pc.op], by simp [pc, Pc.op],
    by simp [pc, Pc.op], by simp [pc, Pc.op], fun alive => ?_, by simp [pc]⟩
  rw [inCall, pc]
  by_cases kind : op.kind = .call
  · simp [kind, Pc.call]
  · rw [if_neg kind, seated.inCall (live ▸ alive), Pc.call_of_op inside]
    simp [kind, Pc.call]

theorem Calm.seated (calm : Calm view changed) (seated : Seated procsMax pid view) :
    Seated procsMax pid changed := by
  obtain ⟨pc, owed, rfl, moved, -⟩ := calm
  rcases moved with rfl | ⟨alive, outside, still⟩
  · exact seated.same rfl rfl rfl rfl rfl rfl
  · have none := Pc.outside_op still
    refine ⟨seated.slot, by simp [none], by simp [none], by simp [none], by simp [none],
      fun _ => ?_, ?_⟩
    · simp only [none]
      rw [seated.inCall alive, (Pc.outside_op outside).2]
    · rintro op id rfl
      cases still

def SamePlaces (before after : Exchange) : Prop := ∀ pid,
  (after.views pid).live = (before.views pid).live ∧
    (after.views pid).generation = (before.views pid).generation

section
variable (deed : Deed procsMax rules before after)
include deed

theorem Deed.places :
    SamePlaces before after ∨
      (∃ victim, (before.views victim).live = true ∧ (after.views victim).live = false ∧
        ∀ pid, (after.views pid).generation = (before.views pid).generation ∧
          (pid ≠ victim → (after.views pid).live = (before.views pid).live ∧
            ((before.views pid).found procsMax pid = true →
              (before.views pid).wait.ipcWaitPid = victim →
              (before.views pid).wait.ipcWaitGeneration = (before.views victim).generation →
              (after.views pid).wait.ipcPeerDied = true))) ∨
      ∃ slot, (before.views slot).live = false ∧ (after.views slot).live = true ∧
        rules.create (before.views slot).generation ∧
        (after.views slot).generation = ((before.views slot).generation + 1) % 2 ^ 32 ∧
        (after.views slot).inbox.hasMessage = false ∧
        ∀ pid ≠ slot, after.views pid = before.views pid := by
  cases deed with
  | calm views =>
    refine .inl fun pid => ?_
    obtain ⟨pc, owed, same, -⟩ := views pid
    rw [same]
    exact ⟨rfl, rfl⟩
  | start _ _ _ _ _ _ _ _ _ _ views =>
    refine .inl fun pid => ?_
    obtain ⟨target, joinedBorn, view⟩ := views pid
    rw [view]
    split
    · next same => subst same; exact ⟨rfl, rfl⟩
    · exact ⟨rfl, rfl⟩
  | redeliver _ _ _ views =>
    refine .inl fun pid => ?_
    obtain ⟨target, joinedBorn, view⟩ := views pid
    rw [view]
    split
    · next same => subst same; exact ⟨rfl, rfl⟩
    · exact ⟨rfl, rfl⟩
  | fail _ _ views =>
    refine .inl fun pid => ?_
    obtain ⟨target, view⟩ := views pid
    rw [view]
    split <;> split <;> exact ⟨rfl, rfl⟩
  | evict alive outside full rule views | collect pc full rule views | take alive outside full rule views
  | deposit _ _ _ _ views =>
    refine .inl fun pid => ?_
    rw [views]
    split <;> split <;> exact ⟨rfl, rfl⟩
  | accept pc kind bounced acked views | finish pc kind bounced acked views =>
    refine .inl fun pid => ?_
    rw [views]
    split
    · next same => subst same; exact ⟨rfl, rfl⟩
    · exact ⟨rfl, rfl⟩
  | @destroy victim found views =>
    refine .inr (.inl ⟨victim, ?_, ?_, fun pid => ⟨?_, fun apart => ?_⟩⟩)
    · simp only [View.found, Bool.and_eq_true] at found
      exact found.2
    · rw [views, if_pos rfl]
    · rw [views]
      split
      · rfl
      · split <;> rfl
    · rw [views, if_neg apart]
      split
      · exact ⟨rfl, fun _ _ _ => rfl⟩
      · next skipped => exact ⟨rfl, fun found wait same => absurd ⟨found, wait, same⟩ skipped⟩
  | @create slot _ _ dead rule alive generation fresh views =>
    refine .inr (.inr ⟨slot, dead, ?_, rule, ?_, ?_, fun pid apart => by rw [views, if_neg apart]⟩)
    · rw [views, if_pos rfl, alive]
    · rw [views, if_pos rfl, generation]
    · rw [views, if_pos rfl, fresh.2.1]

theorem Deed.seated (seats : Seats procsMax before)
    (pid : Nat) : Seated procsMax pid (after.views pid) := by
  have seated := seats.seated pid
  -- a deed moves the process it is about on, or ends its operation; others keep theirs
  cases deed with
  | calm views => exact (views pid).seated seated
  | @start _ op _ alive outside _ _ found caller _ _ _ _ views =>
    obtain ⟨target, joinedBorn, view⟩ := views pid
    rw [view]
    split
    · next same =>
        subst same
        refine ⟨seated.slot, fun _ _ => alive, ?_, ?_, ?_, fun _ => ?_, by simp⟩
        · rintro other ⟨rfl⟩
          exact ⟨rfl, rfl⟩
        · rintro other ⟨rfl⟩ nowhere
          simp [View.found, nowhere] at found
        · rintro other ⟨rfl⟩
          exact caller
        · have idle := seated.inCall alive
          rw [(Pc.outside_op outside).2] at idle
          by_cases kind : op.kind = .call
          · simp [View.facing, Pc.call, kind]
          · simpa [View.facing, Pc.call, kind] using idle
    · exact seated
  | @redeliver _ op _ pc _ _ views =>
    obtain ⟨target, joinedBorn, view⟩ := views pid
    rw [view]
    split
    · next same =>
        subst same
        exact seated.moves op (by rw [pc]; rfl) rfl rfl rfl rfl rfl rfl (by simp)
    · exact seated
  | @fail _ op _ pc _ views =>
    obtain ⟨target, view⟩ := views pid
    rw [view]
    simp only
    split
    · next same =>
        subst same
        refine seated.ends op pc ?_ ?_ rfl <;> simp only <;> split <;> rfl
    · split
      · exact seated.same rfl rfl rfl rfl rfl rfl
      · exact seated
  | evict _ _ _ _ views =>
    rw [views]
    split <;> split <;> exact seated.same rfl rfl rfl rfl rfl rfl
  | @collect current op id pc _ _ views =>
    have kind := (seats.seated current).awaits op id pc
    rw [views]
    simp only
    split
    · next acked =>
        split
        · next same =>
            subst same
            exact seated.ends op (by rw [pc]; rfl) rfl (by simp [kind]; rfl) rfl
        · exact seated.same rfl rfl rfl rfl rfl rfl
    · split
      · next same =>
          subst same
          exact seated.ends op (by rw [pc]; rfl) rfl (by simp [kind]; rfl) rfl
      · exact seated
  | @take current _ alive outside _ _ views =>
    have left : Calm (before.views current) { before.views current with pc := .user } :=
      ⟨.user, _, rfl, .inr ⟨alive, outside, rfl⟩, .inl rfl⟩
    rw [views]
    simp only
    by_cases same : pid = current
    · subst same
      simp only [↓reduceIte]
      split <;> exact (left.seated seated).same rfl rfl rfl rfl rfl rfl
    · split
      · exact seated.same rfl rfl rfl rfl rfl rfl
      · exact seated
  | @deposit _ op _ pc _ _ views =>
    rw [views]
    simp only
    split
    · next same =>
        subst same
        refine seated.moves op (by rw [pc]; rfl) ?_ ?_ ?_ ?_ ?_ rfl (by simp) <;>
          simp only <;> split <;> rfl
    · split
      · exact seated.same rfl rfl rfl rfl rfl rfl
      · exact seated
  | @accept _ op _ pc kind _ _ views =>
    rw [views]
    split
    · next same =>
        subst same
        refine seated.moves op (by rw [pc]; rfl) rfl rfl rfl rfl rfl rfl ?_
        rintro other _ ⟨rfl⟩
        exact kind
    · exact seated
  | @finish _ op _ pc _ _ _ views =>
    rw [views]
    split
    · next same =>
        subst same
        exact seated.ends op (by rw [pc]; rfl) rfl (by simp [Wait.over]) rfl
    · exact seated
  | @destroy _ _ views =>
    rw [views]
    split
    · exact ⟨by simp, by simp [Pc.op], by simp [Pc.op], by simp [Pc.op], by simp [Pc.op], by simp,
        by simp⟩
    · split
      · exact seated.same rfl rfl rfl rfl rfl rfl
      · exact seated
  | @create _ _ inside _ _ _ _ fresh views =>
    rw [views]
    split
    · next same =>
        subst same
        obtain ⟨-, -, -, -, inCall, -, -, pc⟩ := fresh
        exact ⟨fun _ => inside, by simp [pc, Pc.op], by simp [pc, Pc.op], by simp [pc, Pc.op],
          by simp [pc, Pc.op], by simp [pc, inCall, Pc.call], by simp [pc]⟩
    · exact seated

/-- An operation a process is in is an old one, or it has just been started. -/
theorem Deed.op {op : Op} (inside : (after.views pid).pc.op = some op) :
    (before.views pid).pc.op = some op ∧ (after.views pid).live = (before.views pid).live ∧
        ((after.views pid).wait.ipcPeerDied = false → (before.views pid).wait.ipcPeerDied = false) ∨
      ((before.views op.dest).live = true ∧
          (before.views op.dest).generation = op.destGeneration) ∧
        (after.views pid).wait.ipcPeerDied = false ∧
        (op.started = before.log.length ∧ before.log.length < after.log.length) ∧
        SamePlaces before after := by
  cases deed with
  | calm views =>
    obtain ⟨pc, owed, same, moved, -⟩ := views pid
    rw [same] at inside ⊢
    rcases moved with rfl | ⟨-, -, outside⟩
    · exact .inl ⟨inside, rfl, id⟩
    · simp only [(Pc.outside_op outside).1] at inside
      cases inside
  | @start _ started _ _ _ _ _ found _ dest begun _ _ views log =>
    obtain ⟨target, joinedBorn, view⟩ := views pid
    have seen (slot : Nat) : (after.views slot).live = (before.views slot).live ∧
        (after.views slot).generation = (before.views slot).generation := by
      obtain ⟨_, _, seen⟩ := views slot
      rw [seen]
      split
      · next same => subst same; exact ⟨rfl, rfl⟩
      · exact ⟨rfl, rfl⟩
    rw [view] at inside ⊢
    split at inside
    · simp only [View.found, Bool.and_eq_true] at found
      obtain rfl : started = op := by simpa [Pc.op] using inside
      refine .inr ⟨⟨found.2, dest.symm⟩, ?_, ⟨begun, by simp [log]⟩, seen⟩
      rw [if_pos ‹_›]
      rfl
    · rw [if_neg ‹_›]
      exact .inl ⟨inside, rfl, id⟩
  | @redeliver _ redone _ pc _ _ views =>
    obtain ⟨target, joinedBorn, view⟩ := views pid
    rw [view] at inside ⊢
    split at inside
    · next same =>
        subst same
        obtain rfl : redone = op := by simpa [Pc.op] using inside
        exact .inl ⟨by rw [pc]; rfl, by simp⟩
    · rw [if_neg ‹_›]
      exact .inl ⟨inside, rfl, id⟩
  | @fail _ _ _ _ _ views =>
    obtain ⟨target, view⟩ := views pid
    rw [view] at inside ⊢
    simp only at inside ⊢
    split at inside
    · cases inside
    · split at inside <;> split <;> exact .inl ⟨inside, rfl, id⟩
  | evict _ _ _ _ views =>
    left
    rw [views] at inside ⊢
    split at inside <;> split at inside <;> exact ⟨inside, by grind [View.bounced, View.emptied]⟩
  | @collect current _ _ pc full rule views | @take current _ alive outside full rule views =>
    left
    rw [views] at inside ⊢
    simp only at inside ⊢
    by_cases same : pid = current
    · subst same
      simp only [↓reduceIte] at inside
      split at inside <;> cases inside
    · split at inside <;> exact ⟨inside, by split <;> exact ⟨rfl, id⟩⟩
  | @deposit _ sent _ pc _ _ views =>
    left
    rw [views] at inside ⊢
    simp only at inside ⊢
    split at inside
    · next same =>
        subst same
        obtain rfl : sent = op := by simpa [Pc.op] using inside
        refine ⟨by rw [pc]; rfl, ?_⟩
        simp only [↓reduceIte]
        split <;> exact ⟨rfl, id⟩
    · split at inside <;> exact ⟨inside, by split <;> exact ⟨rfl, id⟩⟩
  | @accept _ taken _ pc _ _ _ views =>
    left
    rw [views] at inside ⊢
    split at inside
    · next same =>
        subst same
        obtain rfl : taken = op := by simpa [Pc.op] using inside
        exact ⟨by rw [pc]; rfl, by simp⟩
    · rw [if_neg ‹_›]
      exact ⟨inside, rfl, id⟩
  | @finish _ _ _ _ _ _ _ views =>
    left
    rw [views] at inside ⊢
    split at inside
    · cases inside
    · rw [if_neg ‹_›]
      exact ⟨inside, rfl, id⟩
  | @destroy _ _ views =>
    left
    rw [views] at inside ⊢
    split at inside
    · cases inside
    · rw [if_neg ‹_›]
      split at inside
      · rw [if_pos ‹_›]
        exact ⟨inside, rfl, by simp [View.peerDied]⟩
      · rw [if_neg ‹_›]
        exact ⟨inside, rfl, id⟩
  | @create _ _ _ _ _ _ _ fresh views =>
    left
    rw [views] at inside ⊢
    split at inside
    · rw [fresh.2.2.2.2.2.2.2] at inside
      cases inside
    · rw [if_neg ‹_›]
      exact ⟨inside, rfl, id⟩

theorem Deed.seats (seats : Seats procsMax before) : Seats procsMax after := by
  refine ⟨deed.seated seats, fun pid op inside here => ?_⟩
  rcases deed.op inside with ⟨old, alive, noticed⟩ | ⟨target, -, -, places⟩
  · have target := seats.peer pid op old (noticed here)
    rcases deed.places with places | ⟨victim, -, gone, others⟩ | ⟨slot, dead, -, -, -, -, others⟩
    · rw [(places op.dest).1, (places op.dest).2]
      exact target
    · rw [(others op.dest).1]
      have present := (seats.seated pid).alive op old
      by_cases same : op.dest = victim
      · have waits := (seats.seated pid).waits op old
        have survives : pid ≠ victim := by
          rintro rfl
          rw [gone, present] at alive
          cases alive
        have found : (before.views pid).found procsMax pid = true := by
          simp [View.found, present, (seats.seated pid).slot present]
        rw [((others pid).2 survives).2 found (waits.1.trans same)
          (waits.2.trans (same ▸ target.2.symm))] at here
        cases here
      · rw [((others op.dest).2 same).1]
        exact target
    · rw [others op.dest (by rintro same; rw [same, dead] at target; cases target.1)]
      exact target
  · rw [(places op.dest).1, (places op.dest).2]
    exact target

/-- The flag `ipc_peer_died` is only raised when the target dies. -/
theorem Deed.noticed (seats : Seats procsMax before)
    {op : Op} (inside : (after.views pid).pc.op = some op)
    (died : (after.views pid).wait.ipcPeerDied = true) :
    (before.views pid).pc.op = some op ∧ (before.views pid).wait.ipcPeerDied = true ∨
      (after.views op.dest).live = false := by
  rcases deed.op inside with ⟨old, -, -⟩ | ⟨-, here, -⟩
  · by_cases known : (before.views pid).wait.ipcPeerDied = true
    · exact .inl ⟨old, known⟩
    · refine .inr ?_
      cases deed with
      | calm views | start _ _ _ _ _ _ _ _ _ _ views | redeliver _ _ _ views | fail _ _ views =>
        have view := views pid
        grind [Calm, View.facing, View.emptied, Wait.over]
      | @destroy victim _ views =>
        have waits := (seats.seated pid).waits op old
        have dest : op.dest = victim := by
          grind
        rw [views, if_pos dest]
      | evict alive outside full rule views | collect pc full rule views
      | take alive outside full rule views | deposit bytes pc free rule views
      | accept pc kind bounced acked views | finish pc kind bounced acked views
      | create =>
        grind [View.emptied, View.bounced, View.acked, Wait.over]
  · rw [here] at died
    cases died

end
theorem boot_seats : Seats procsMax boot.exchange := by
  refine ⟨fun pid => ⟨?_, ?_, ?_, ?_, ?_, ?_, ?_⟩, ?_⟩ <;>
    simp [Kernel.exchange, Kernel.views, Process.view, boot, Pc.op]

def anyRules : Rules := ⟨fun _ _ _ => True, fun _ _ => True, fun _ _ => True, fun _ => True, fun _ => True⟩

theorem run_seats {admits : Kernel → Action → Prop} {kernel : Kernel}
    (run : Run.Reach (step procsMax) admits boot kernel) :
    Executes kernel ∧ Seats procsMax kernel.exchange := by
  have relaxed : Run.Reach (step procsMax) (Fair anyRules procsMax) boot kernel :=
    run.mono fun _ _ _ => ⟨fun _ _ => trivial, fun _ _ => trivial, fun _ _ => ⟨trivial, trivial⟩,
      fun _ _ => trivial⟩
  obtain ⟨executes, deeds⟩ := run_deeds relaxed
  refine ⟨executes, ?_⟩
  generalize kernel.exchange = reached at deeds
  induction deeds with
  | refl => exact boot_seats
  | tail _ deed ih => exact deed.seats ih

end Racccoon.Ipc
