import Racccoon.Futex

/-!
When SYS_FUTEX_WAKE loses a waiter. The wake passes over waiters that are not
`PROC_BLOCKED`; a waiter that SYS_WAKE or a note posted during its note handler
made runnable still has its `futex_addr` and goes back to sleep. `Ready` is the
state a waiter must be in for the wake to count, `Released` what the wake then
establishes and every later step keeps.
-/

namespace Racccoon.Futex

open Run

/-- What one step can do to one process, as far as SYS_FUTEX_WAIT is concerned. -/
inductive Change (kernel after : Kernel) (pid : Nat) : Prop where
  | outside (away : ∀ ticket, (after.procs pid).place ≠ .futexWait ticket)
  | entered (place : (after.procs pid).place = .futexWait kernel.tickets)
      (fresh : kernel.tickets < after.tickets) (state : (after.procs pid).state = .blocked)
      (addr : (after.procs pid).futexAddr ≠ 0)
  | kept (place : (after.procs pid).place = (kernel.procs pid).place)
      (addr : (after.procs pid).futexAddr = (kernel.procs pid).futexAddr)
      (state : (after.procs pid).state = (kernel.procs pid).state ∨
        (after.procs pid).state = .runnable)
      (notes : noteDeliverable (kernel.procs pid) = true →
        noteDeliverable (after.procs pid) = true)
  | woken (place : (after.procs pid).place = (kernel.procs pid).place)
      (addr : (after.procs pid).futexAddr = 0) (state : (after.procs pid).state = .runnable)
  | slept (place : (after.procs pid).place = (kernel.procs pid).place)
      (addr : (after.procs pid).futexAddr ≠ 0) (waited : (kernel.procs pid).futexAddr ≠ 0)
      (quiet : noteDeliverable (kernel.procs pid) = false)
      (state : (after.procs pid).state = .blocked)

structure Changes (procsMax : Nat) (kernel after : Kernel) : Prop where
  procs : ∀ pid, Change kernel after pid
  slots : ∀ pid, (after.procs pid).state ≠ .unused →
    (kernel.procs pid).state ≠ .unused ∨ inTable procsMax pid
  tickets : kernel.tickets ≤ after.tickets

variable {procsMax : Nat} {kernel after : Kernel} {pid : Nat}

theorem Change.same (procs : after.procs pid = kernel.procs pid) : Change kernel after pid :=
  .kept (by rw [procs]) (by rw [procs]) (.inl (by rw [procs])) (by rw [procs]; exact id)

theorem Changes.refl (kernel : Kernel) : Changes procsMax kernel kernel :=
  ⟨fun _ => .same rfl, fun _ => .inl, Nat.le_refl _⟩

theorem Changes.set (tickets : Nat) {proc : Proc}
    (change : Change kernel { kernel.set pid proc with tickets := tickets } pid)
    (slot : proc.state ≠ .unused → (kernel.procs pid).state ≠ .unused ∨ inTable procsMax pid)
    (later : kernel.tickets ≤ tickets) :
    Changes procsMax kernel { kernel.set pid proc with tickets := tickets } where
  procs other := by
    by_cases same : other = pid
    · exact same ▸ change
    · exact .same (by simp [Kernel.set, same])
  slots other used := by
    by_cases same : other = pid
    · subst same
      exact slot (by simpa [Kernel.set] using used)
    · exact .inl (by simpa [Kernel.set, same] using used)
  tickets := later

theorem Changes.outside {proc : Proc} (away : ∀ ticket, proc.place ≠ .futexWait ticket)
    (slot : proc.state ≠ .unused → (kernel.procs pid).state ≠ .unused ∨ inTable procsMax pid) :
    Changes procsMax kernel (kernel.set pid proc) :=
  Changes.set kernel.tickets (.outside (by simpa [Kernel.set] using away)) slot
    (Nat.le_refl _)

/-- A step that makes a process runnable without taking it out of a wait. -/
theorem Changes.rouse {proc : Proc} (place : proc.place = (kernel.procs pid).place)
    (addr : proc.futexAddr = (kernel.procs pid).futexAddr)
    (state : proc.state = (kernel.procs pid).state)
    (notes : noteDeliverable (kernel.procs pid) = true → noteDeliverable proc = true) :
    Changes procsMax kernel (kernel.set pid proc.rouse) := by
  have roused : proc.rouse.place = proc.place ∧ proc.rouse.futexAddr = proc.futexAddr ∧
      noteDeliverable proc.rouse = noteDeliverable proc ∧
      (proc.rouse.state = proc.state ∨ proc.rouse.state = .runnable ∧ proc.state = .blocked) := by
    unfold Proc.rouse
    split
    · next blocked => exact ⟨rfl, rfl, rfl, .inr ⟨rfl, blocked⟩⟩
    · exact ⟨rfl, rfl, rfl, .inl rfl⟩
  obtain ⟨samePlace, sameAddr, sameNotes, states⟩ := roused
  refine Changes.set kernel.tickets (.kept ?_ ?_ ?_ ?_) (fun used => .inl ?_)
    (Nat.le_refl _)
  · simpa [Kernel.set, samePlace] using place
  · simpa [Kernel.set, sameAddr] using addr
  · rcases states with still | ⟨moved, -⟩
    · exact .inl (by simpa [Kernel.set, still] using state)
    · exact .inr (by simpa [Kernel.set] using moved)
  · simpa [Kernel.set, sameNotes] using notes
  · rcases states with still | ⟨-, blocked⟩
    · rwa [← state, ← still]
    · simp [← state, blocked]

theorem unusedSlot_inTable (found : unusedSlot procsMax kernel = some pid) :
    inTable procsMax pid := by
  have member := List.mem_of_find?_eq_some found
  rw [List.mem_range'_1] at member
  exact ⟨by omega, by omega⟩

theorem changes_born (found : unusedSlot procsMax kernel = some pid)
    (space uid handler : Nat) (inNote savedIntr : Bool) :
    Changes procsMax kernel
      (kernel.set pid (born (kernel.procs pid) space uid handler inNote savedIntr)) :=
  .outside (by simp [born]) fun _ => .inr (unusedSlot_inTable found)

theorem changes_destroy (kernel : Kernel) (victim : Nat) :
    Changes procsMax kernel (procDestroy kernel victim) :=
  .outside (by simp) fun used => absurd rfl used

theorem changes_futexWait (caller futexAddr : Nat) (futexExpected : Int)
    (live : running kernel caller) :
    Changes procsMax kernel (sysFutexWait kernel caller futexAddr futexExpected).2 := by
  simp only [sysFutexWait]
  split
  · exact .refl kernel
  · next paddr found =>
      split
      · exact .refl kernel
      · have mapped : futexAddr ≠ 0 := by
          rintro rfl
          simp [kernel.map.nullUnmapped] at found
        refine .set _ (.entered ?_ ?_ ?_ ?_) (fun _ => .inl (by simp [live.1])) (by simp)
        · simp [Kernel.set]
        · simp
        · simp [Kernel.set]
        · simpa [Kernel.set] using mapped

theorem changes_futexWake (caller wakeAddr : Nat) :
    Changes procsMax kernel (sysFutexWake procsMax kernel caller wakeAddr).2 := by
  simp only [sysFutexWake]
  split
  · exact .refl kernel
  · next paddr found =>
      refine ⟨fun pid => ?_, fun pid used => ?_, Nat.le_refl _⟩
      · by_cases inside : inTable procsMax pid
        · by_cases hit : (kernel.procs pid).state = .blocked ∧ (kernel.procs pid).futexAddr ≠ 0 ∧
              (kernel.procs pid).futexPaddr = paddr
          · exact .woken (by simp [inside, wakeWaiter, hit]) (by simp [inside, wakeWaiter, hit])
              (by simp [inside, wakeWaiter, hit])
          · refine .same ?_
            simp only [wakeWaiter]
            grind
        · exact .same (by simp [inside])
      · by_cases inside : inTable procsMax pid
        · exact .inr inside
        · exact .inl (by simpa [inside] using used)

theorem changes_resume {returns : Bool} (resumed : resume kernel pid returns = some after) :
    Changes procsMax kernel after := by
  simp only [resume] at resumed
  split at resumed
  · cases resumed
  · next state =>
      have runnable : (kernel.procs pid).state = .runnable := by simpa using state
      split at resumed
      · cases resumed
      · simp only [Option.some.injEq] at resumed
        subst resumed
        simp only [resumeFutexWait]
        split
        · exact .outside (by simp) fun _ => .inl (by simp [runnable])
        · next waited =>
            split
            · exact .outside (by simp [noteInterrupted]) fun _ => .inl (by simp [runnable])
            · next quiet =>
                refine .set kernel.tickets (.slept ?_ ?_ waited ?_ ?_)
                  (fun _ => .inl (by simp [runnable])) (Nat.le_refl _)
                · simp [Kernel.set]
                · simpa [Kernel.set] using waited
                · simpa using quiet
                · simp [Kernel.set]
      · next place =>
          simp only [Option.some.injEq] at resumed
          subst resumed
          refine .outside ?_ fun _ => .inl (by simp [runnable])
          cases returns <;> simp [place]

theorem changes_notePost (target : Nat) (msg : String) :
    Changes procsMax kernel (notePost kernel target msg).2 := by
  simp only [notePost]
  split
  · exact .refl kernel
  · refine .rouse rfl rfl rfl ?_
    simp only [noteDeliverable, Bool.and_eq_true, and_imp]
    intro _ outside
    simp [outside]

theorem changes_wake (caller target generation : Nat) :
    Changes procsMax kernel (sysWake procsMax kernel caller target generation).2 := by
  simp only [sysWake]
  split
  · exact .refl kernel
  · next proc found =>
      split
      · exact .refl kernel
      · have same : proc = kernel.procs target := by
          simp only [procByPid] at found
          split at found
          · exact (Option.some.inj found).symm
          · cases found
        subst same
        exact .rouse rfl rfl rfl id

theorem changes_deliver (caller : Nat) (stackOk : Bool) (live : running kernel caller) :
    Changes procsMax kernel (noteDeliver kernel caller stackOk) := by
  simp only [noteDeliver]
  split
  · split
    · have twice (proc : Proc) : procDestroy (kernel.set caller proc) caller =
          kernel.set caller { proc with state := .unused, place := .user } := by
        simp [procDestroy, Kernel.set]
      rw [twice]
      exact .outside (by simp) fun used => absurd rfl used
    · exact .outside (by simp [live.2]) fun _ => .inl (by simp [live.1])
  · exact .refl kernel

theorem changes_noted (caller : Nat) (how : Int) (live : running kernel caller) :
    Changes procsMax kernel (noteNoted kernel caller how) := by
  simp only [noteNoted]
  split
  · exact .refl kernel
  · split
    · exact changes_destroy kernel caller
    · exact .outside (by simp [live.2]) fun _ => .inl (by simp [live.1])

theorem step_changes {action : Action} (stepped : step procsMax kernel action = some after) :
    Changes procsMax kernel after := by
  simp only [step] at stepped
  split at stepped
  case isFalse => cases stepped
  case isTrue callers =>
  have idle (proc : Proc) (caller : Nat) (live : running kernel caller)
      (place : proc.place = (kernel.procs caller).place) :
      Changes procsMax kernel (kernel.set caller proc) :=
    .outside (by simp [place, live.2]) fun _ => .inl (by simp [live.1])
  cases action with
  | create =>
    simp only [perform, createProcess, Option.some.injEq] at stepped
    split at stepped
    · exact stepped ▸ .refl kernel
    · next found => exact stepped ▸ changes_born found ..
  | rfork =>
    simp only [perform, sysRfork, Option.some.injEq] at stepped
    split at stepped
    · exact stepped ▸ .refl kernel
    · next found => exact stepped ▸ changes_born found ..
  | futexWait caller futexAddr futexExpected =>
    exact Option.some.inj stepped ▸
      changes_futexWait caller futexAddr futexExpected (callers caller rfl)
  | futexWake caller wakeAddr => exact Option.some.inj stepped ▸ changes_futexWake caller wakeAddr
  | wake caller target generation =>
    exact Option.some.inj stepped ▸ changes_wake caller target generation
  | notePost target msg =>
    obtain ⟨_, _, rfl⟩ := Option.map_eq_some_iff.mp stepped
    exact changes_notePost target msg
  | notify caller =>
    exact Option.some.inj stepped ▸ idle _ caller (callers caller rfl) rfl
  | noted caller how =>
    exact Option.some.inj stepped ▸ changes_noted caller how (callers caller rfl)
  | deliver caller stackOk =>
    exact Option.some.inj stepped ▸ changes_deliver caller stackOk (callers caller rfl)
  | interrupted caller =>
    exact Option.some.inj stepped ▸ idle _ caller (callers caller rfl) rfl
  | block caller =>
    exact Option.some.inj stepped ▸
      .outside (by simp) fun _ => .inl (by simp [(callers caller rfl).1])
  | resume => exact changes_resume stepped
  | kill victim =>
    obtain ⟨_, _, rfl⟩ := Option.map_eq_some_iff.mp stepped
    exact changes_destroy kernel victim
  | store =>
    exact Option.some.inj stepped ▸ ⟨fun _ => .same rfl, fun _ => .inl, Nat.le_refl _⟩
  | remap =>
    exact Option.some.inj stepped ▸ ⟨fun _ => .same rfl, fun _ => .inl, Nat.le_refl _⟩

structure Sound (procsMax : Nat) (kernel : Kernel) : Prop where
  slots : ∀ pid, (kernel.procs pid).state ≠ .unused → inTable procsMax pid
  waiting : ∀ pid ticket, (kernel.procs pid).place = .futexWait ticket →
    (kernel.procs pid).state ≠ .unused ∧ ticket < kernel.tickets
  asleep : ∀ pid ticket, (kernel.procs pid).place = .futexWait ticket →
    (kernel.procs pid).state = .blocked → (kernel.procs pid).futexAddr ≠ 0

theorem sound_boot (procsMax : Nat) : Sound procsMax boot where
  slots pid used := by simp [boot] at used
  waiting pid ticket place := by simp [boot] at place
  asleep pid ticket place := by simp [boot] at place

theorem Sound.step (sound : Sound procsMax kernel) (changes : Changes procsMax kernel after) :
    Sound procsMax after where
  slots pid used := by
    rcases changes.slots pid used with before | inside
    · exact sound.slots pid before
    · exact inside
  waiting pid ticket place := by
    have later := changes.tickets
    cases changes.procs pid with
    | outside away => exact absurd place (away ticket)
    | entered entered fresh state =>
      obtain rfl : kernel.tickets = ticket := by simpa [entered] using place
      exact ⟨by simp [state], fresh⟩
    | kept same _ state =>
      obtain ⟨used, bound⟩ := sound.waiting pid ticket (by rw [← same, place])
      refine ⟨?_, by omega⟩
      rcases state with still | runnable
      · rwa [still]
      · simp [runnable]
    | woken same _ state =>
      have bound := (sound.waiting pid ticket (by rw [← same, place])).2
      exact ⟨by simp [state], by omega⟩
    | slept same _ _ _ state =>
      have bound := (sound.waiting pid ticket (by rw [← same, place])).2
      exact ⟨by simp [state], by omega⟩
  asleep pid ticket place blocked := by
    cases changes.procs pid with
    | outside away => exact absurd place (away ticket)
    | entered _ _ _ addr => exact addr
    | kept same addr state =>
      rw [addr]
      refine sound.asleep pid ticket (by rw [← same, place]) ?_
      rcases state with still | runnable
      · rwa [← still]
      · simp [runnable] at blocked
    | woken _ _ state => simp [state] at blocked
    | slept _ addr => exact addr

theorem sound_reach (run : Reach (Futex.step procsMax) (fun _ _ => True) boot kernel) :
    Sound procsMax kernel :=
  run.invariant _ (sound_boot procsMax) fun _ _ _ sound _ stepped => sound.step (step_changes stepped)

def waitsOn (kernel : Kernel) (pid ticket paddr : Nat) : Prop :=
  (kernel.procs pid).place = .futexWait ticket ∧ (kernel.procs pid).futexPaddr = paddr

instance (kernel : Kernel) (pid ticket paddr : Nat) : Decidable (waitsOn kernel pid ticket paddr) :=
  inferInstanceAs (Decidable (_ ∧ _))

def Ready (proc : Proc) : Prop :=
  proc.state = .blocked ∨ proc.futexAddr = 0 ∨ noteDeliverable proc = true

/-- If the process is still in this wait it is schedulable, and the next time it
is scheduled SYS_FUTEX_WAIT returns. -/
def Returns (kernel : Kernel) (pid ticket : Nat) : Prop :=
  (kernel.procs pid).place = .futexWait ticket →
    (kernel.procs pid).state = .runnable ∧ (resumeFutexWait kernel pid).1.isSome = true

theorem resume_returns (kernel : Kernel) (pid : Nat) :
    (resumeFutexWait kernel pid).1.isSome = true ↔
      (kernel.procs pid).futexAddr = 0 ∨ noteDeliverable (kernel.procs pid) = true := by
  simp only [resumeFutexWait]
  split
  · next woken => simp [woken]
  · next waited =>
      split
      · next noted => simp [noted]
      · next quiet => simp [waited, quiet]

theorem Returns.step {ticket : Nat} (returns : Returns kernel pid ticket)
    (issued : ticket < kernel.tickets) (changes : Changes procsMax kernel after) :
    Returns after pid ticket := by
  intro place
  cases changes.procs pid with
  | outside away => exact absurd place (away ticket)
  | entered entered =>
    have same : kernel.tickets = ticket := by simpa [entered] using place
    omega
  | kept same addr state notes =>
    obtain ⟨runnable, ends⟩ := returns (by rw [← same, place])
    constructor
    · rcases state with still | now
      · rwa [still]
      · exact now
    · rw [resume_returns] at ends ⊢
      rw [addr]
      exact ends.imp_right notes
  | woken _ addr state => exact ⟨state, (resume_returns after pid).mpr (.inl addr)⟩
  | slept same _ waited quiet =>
    have ends := (resume_returns kernel pid).mp (returns (by rw [← same, place])).2
    simp [waited, quiet] at ends

theorem Returns.run {ticket : Nat} (returns : Returns kernel pid ticket)
    (issued : ticket < kernel.tickets)
    (run : Reach (Futex.step procsMax) (fun _ _ => True) kernel after) :
    Returns after pid ticket := by
  refine (run.invariant (fun later => Returns later pid ticket ∧ ticket < later.tickets)
    ⟨returns, issued⟩ ?_).1
  rintro before action later ⟨held, bound⟩ _ stepped
  have changes := step_changes stepped
  exact ⟨held.step bound changes, Nat.lt_of_lt_of_le bound changes.tickets⟩

/-- The wake itself: right after it a waiter on the word returns when next
scheduled exactly if it was ready. -/
theorem returns_after_wake (sound : Sound procsMax kernel) {ticket wakePaddr caller wakeAddr : Nat}
    (mapped : kernel.map.lookup (kernel.procs caller).space wakeAddr = some wakePaddr)
    (waits : waitsOn kernel pid ticket wakePaddr) :
    Returns (sysFutexWake procsMax kernel caller wakeAddr).2 pid ticket ↔
      Ready (kernel.procs pid) := by
  obtain ⟨place, paddr⟩ := waits
  have used := (sound.waiting pid ticket place).1
  have inside := sound.slots pid used
  have asleep := sound.asleep pid ticket place
  simp only [Returns, resume_returns, sysFutexWake, mapped, inside, Ready]
  cases state : (kernel.procs pid).state with
  | unused => exact absurd state used
  | blocked =>
    have waited := asleep state
    simp [wakeWaiter, state, waited, paddr]
  | runnable => simp [wakeWaiter, state, place]

/-- SYS_FUTEX_WAKE loses no waiter, whatever happens afterwards, exactly when
every process inside SYS_FUTEX_WAIT on that physical word is ready for it. -/
theorem futex_wake_delivers (procsMax : Nat) (kernel after : Kernel)
    (caller wakeAddr wakePaddr : Nat)
    (run : Reach (Futex.step procsMax) (fun _ _ => True) boot kernel)
    (mapped : kernel.map.lookup (kernel.procs caller).space wakeAddr = some wakePaddr)
    (woken : Futex.step procsMax kernel (.futexWake caller wakeAddr) = some after) :
    (∀ pid ticket, waitsOn kernel pid ticket wakePaddr → ∀ later,
        Reach (Futex.step procsMax) (fun _ _ => True) after later → Returns later pid ticket) ↔
      ∀ pid ticket, waitsOn kernel pid ticket wakePaddr → Ready (kernel.procs pid) := by
  have sound := sound_reach run
  have changes := step_changes woken
  have result : (sysFutexWake procsMax kernel caller wakeAddr).2 = after := by
    simp only [Futex.step] at woken
    split at woken
    · exact Option.some.inj woken
    · cases woken
  constructor
  · intro delivered pid ticket waits
    rw [← returns_after_wake sound mapped waits, result]
    exact delivered pid ticket waits after .start
  · intro ready pid ticket waits later rest
    have returns := (returns_after_wake sound mapped waits).mpr (ready pid ticket waits)
    rw [result] at returns
    have issued := (sound.waiting pid ticket waits.1).2
    exact returns.run (Nat.lt_of_lt_of_le issued changes.tickets) rest

/-- One space for everyone, mapped everywhere except at address 0. -/
def threadMap : AddressMap :=
  ⟨fun _ addr => if addr = 0 then none else some addr, fun _ => rfl⟩

/-- The idle process, a waiter asleep on the word at 4096, and a third process. -/
def waiterAsleep : Kernel :=
  outcome (step 64) (fun _ _ => True) boot
    [.create 0, .create 0, .create 0, .remap threadMap, .futexWait 2 4096 0]

theorem waiterAsleep_reach : Reach (step 64) (fun _ _ => True) boot waiterAsleep :=
  outcome_reach _ _ (by decide)

theorem futex_wake_delivers_asleep :
    waitsOn waiterAsleep 2 0 4096 ∧ ∀ later,
      Reach (step 64) (fun _ _ => True) (sysFutexWake 64 waiterAsleep 3 4096).2 later →
        Returns later 2 0 := by
  refine ⟨by decide, fun later rest => ?_⟩
  have ready : ∀ pid < 65, (waiterAsleep.procs pid).place = .user ∨
      (waiterAsleep.procs pid).state = .blocked := by decide
  refine (futex_wake_delivers 64 waiterAsleep _ 3 4096 4096 waiterAsleep_reach rfl rfl).mpr
    (fun pid ticket waits => ?_) 2 0 (by decide) later rest
  have sound := sound_reach waiterAsleep_reach
  have inside := sound.slots pid (sound.waiting pid ticket waits.1).1
  rcases ready pid (Nat.lt_succ_of_le inside.2) with user | blocked
  · simp [waits.1] at user
  · exact .inl blocked

/-- SYS_WAKE makes the waiter runnable, SYS_FUTEX_WAKE then passes over it, and when
it is scheduled it goes back to sleep. -/
def wokenByWake : Kernel := outcome (step 64) (fun _ _ => True) waiterAsleep [.wake 3 2 0]

def passedOver : Kernel := outcome (step 64) (fun _ _ => True) wokenByWake [.futexWake 3 4096]

def asleepAgain : Kernel := outcome (step 64) (fun _ _ => True) passedOver [.resume 2 true]

theorem wake_passes_over_waiter :
    Reach (step 64) (fun _ _ => True) boot wokenByWake ∧ waitsOn wokenByWake 2 0 4096 ∧
      (sysFutexWake 64 wokenByWake 3 4096).1 = 0 ∧
      Reach (step 64) (fun _ _ => True) (sysFutexWake 64 wokenByWake 3 4096).2 asleepAgain ∧
      (asleepAgain.procs 2).state = .blocked ∧ ¬ Returns asleepAgain 2 0 := by
  refine ⟨waiterAsleep_reach.trans (outcome_reach _ _ (by decide)), by decide, by decide,
    ?_, by decide, fun returns => ?_⟩
  case refine_2 => exact absurd (returns (by decide)).1 (by decide)
  have woken : passedOver = (sysFutexWake 64 wokenByWake 3 4096).2 := rfl
  exact woken ▸ outcome_reach _ _ (by decide)

end Racccoon.Futex
