import Mathlib.Algebra.GroupWithZero.Nat
import Racccoon.Lib.Run

/-!
Timed waits: `sys_await` with a timeout and the fixed deadline of `sys_ipc_call`, the one
minimum kept over all sleepers and the timer set to it. A wait carries the time it began and
the interval it was asked for; the source keeps only the deadline. Clock readings are 64 bits
wide and do not go back.
-/

namespace Racccoon.Deadlines
open Function (update update_self update_of_ne)

open Run

def noDeadline : Nat := 2 ^ 64 - 1

/-- `ulong` arithmetic. -/
def ulong (value : Nat) : Nat := value % 2 ^ 64

inductive ProcState where
  | unused | runnable | blocked | reserved
  deriving DecidableEq

/-- The system call a process waits in, with its locals. -/
inductive Wait where
  | none
  | await (start timeout deadline : Nat) (poll : Bool)
  | call (start : Nat)
  deriving DecidableEq

structure Proc where
  state : ProcState
  sleepDeadline : Nat
  ipcCallDeadline : Nat
  ipcTimedOut : Bool
  wait : Wait

structure Kernel where
  procs : Nat → Proc
  sleepNext : Nat
  tickDue : Nat
  housekeepingDeadline : Nat
  timerAt : Nat
  now : Nat

def Kernel.set (kernel : Kernel) (slot : Nat) (proc : Proc) : Kernel :=
  { kernel with procs := Function.update kernel.procs slot proc }

def armNextTimer (kernel : Kernel) : Kernel :=
  { kernel with
    timerAt := if kernel.tickDue < kernel.sleepNext then kernel.tickDue else kernel.sleepNext }

/-- One process in the loop of `timed_wakeups`. -/
def wakeSlot (now : Nat) (proc : Proc) : Proc :=
  if proc.sleepDeadline = 0 then proc
  else if proc.state = .unused ∨ proc.state = .reserved then { proc with sleepDeadline := 0 }
  else if now ≥ proc.sleepDeadline then
    { proc with
      sleepDeadline := 0
      state := if proc.state = .blocked then .runnable else proc.state }
  else proc

def nextDeadline (procs : Nat → Proc) (slots : List Nat) : Nat :=
  slots.foldl (fun next slot =>
    if (procs slot).sleepDeadline ≠ 0 ∧ (procs slot).sleepDeadline < next then
      (procs slot).sleepDeadline
    else next) noDeadline

/-- One process in the loop of `ipc_timeout_sweep`. -/
def sweepSlot (now : Nat) (proc : Proc) : Proc :=
  if proc.ipcCallDeadline ≠ 0 ∧ now ≥ proc.ipcCallDeadline then
    { proc with
      ipcTimedOut := true
      ipcCallDeadline := 0
      state := if proc.state = .blocked then .runnable else proc.state }
  else proc

section Slots
variable (procsMax hz : Nat)

def onSlots (procs : Nat → Proc) (change : Proc → Proc) : Nat → Proc :=
  fun slot => if slot < procsMax then change (procs slot) else procs slot

variable (kernel : Kernel) (now : Nat)

def timedWakeups : Kernel :=
  if now < kernel.sleepNext then kernel
  else
    let procs := onSlots procsMax kernel.procs (wakeSlot now)
    { kernel with procs := procs, sleepNext := nextDeadline procs (List.range procsMax) }

def sleepUntil (slot deadline : Nat) : Kernel :=
  let asleep := kernel.set slot { kernel.procs slot with sleepDeadline := deadline }
  if deadline < kernel.sleepNext then armNextTimer { asleep with sleepNext := deadline }
  else asleep

def ipcTimeoutSweep : Kernel :=
  if now < kernel.housekeepingDeadline then kernel
  else { kernel with
    housekeepingDeadline := ulong (now + hz)
    procs := onSlots procsMax kernel.procs (sweepSlot now) }

/-- `IPC_CALL_DEADLINE_TICKS`. -/
def callTicks : Nat := hz * 15

def sysAwait (proc : Proc) (now timeout : Nat) (poll : Bool) : Proc :=
  { proc with
    wait := .await now timeout (if timeout ≠ 0 then ulong (now + timeout) else 0) poll }

def sysIpcCall (proc : Proc) (now : Nat) : Proc :=
  { proc with
    ipcTimedOut := false
    ipcCallDeadline := ulong (now + callTicks hz)
    wait := .call now }

def expired (proc : Proc) (now : Nat) : Bool :=
  match proc.wait with
  | .none => false
  | .await _ _ deadline _ => deadline ≠ 0 && now ≥ deadline
  | .call _ => proc.ipcTimedOut

def Wait.elapsed : Wait → Prop
  | .none => True
  | .await start timeout _ _ => start + timeout ≤ now
  | .call start => start + callTicks hz ≤ now

/-- One round of the loop of the system call a process waits in; `ready`: what it waits for
is there, or the wait is broken off. -/
def pass (slot now : Nat) (ready : Bool) : Kernel :=
  let proc := kernel.procs slot
  match proc.wait with
  | .none => kernel
  | .await _ _ deadline poll =>
    if ready || expired proc now then
      kernel.set slot { proc with state := .runnable, sleepDeadline := 0, wait := .none }
    else if poll then kernel
    else
      let asleep := if deadline ≠ 0 then sleepUntil kernel slot deadline else kernel
      asleep.set slot { asleep.procs slot with state := .blocked }
  | .call _ =>
    if ready || expired proc now then
      kernel.set slot { proc with state := .runnable, ipcCallDeadline := 0, wait := .none }
    else kernel.set slot { proc with state := .blocked }

inductive Event where
  | create (slot : Nat)
  | die (slot : Nat)
  | await (slot timeout : Nat) (poll : Bool)
  | call (slot : Nat)
  | pass (slot : Nat) (ready : Bool)
  | wake (slot : Nat)
  | sweep
  | wakeups
  | interrupt

structure Action where
  now : Nat
  event : Event

def freshProc : Proc := ⟨.runnable, 0, 0, false, .none⟩

def perform : Event → Option Kernel
  | .create slot =>
    if slot < procsMax ∧ (kernel.procs slot).state = .unused then
      some (kernel.set slot freshProc)
    else none
  | .die slot =>
    if slot < procsMax then
      some (kernel.set slot { kernel.procs slot with state := .unused, wait := .none })
    else none
  | .await slot timeout poll =>
    if slot < procsMax ∧ (kernel.procs slot).state = .runnable ∧
        (kernel.procs slot).wait = .none ∧ timeout < 2 ^ 64 then
      some (kernel.set slot (sysAwait (kernel.procs slot) kernel.now timeout poll))
    else none
  | .call slot =>
    if slot < procsMax ∧ (kernel.procs slot).state = .runnable ∧
        (kernel.procs slot).wait = .none then
      some (kernel.set slot (sysIpcCall hz (kernel.procs slot) kernel.now))
    else none
  | .pass slot ready =>
    if slot < procsMax ∧ (kernel.procs slot).state = .runnable then
      some (pass kernel slot kernel.now ready)
    else none
  | .wake slot =>
    if slot < procsMax ∧ (kernel.procs slot).state = .blocked then
      some (kernel.set slot { kernel.procs slot with state := .runnable })
    else none
  | .sweep => some (ipcTimeoutSweep procsMax hz kernel kernel.now)
  | .wakeups => some (timedWakeups procsMax kernel kernel.now)
  | .interrupt =>
    let woken := timedWakeups procsMax kernel kernel.now
    some (armNextTimer
      { woken with
        tickDue := if kernel.now ≥ woken.tickDue then ulong (kernel.now + hz) else woken.tickDue })

def step (action : Action) : Option Kernel :=
  if kernel.now ≤ action.now ∧ action.now < 2 ^ 64 then
    perform procsMax hz { kernel with now := action.now } action.event
  else none

/-- `enable_timer_interrupts`, before there are processes. -/
def booted : Kernel :=
  armNextTimer
    { procs := fun _ => ⟨.unused, 0, 0, false, .none⟩
      sleepNext := noDeadline
      tickDue := ulong (now + hz)
      housekeepingDeadline := 0
      timerAt := 0
      now := now }

def intervalFits : Event → Prop
  | .await _ timeout _ => now + timeout ≤ 2 ^ 64
  | .call _ => now + callTicks hz ≤ 2 ^ 64
  | _ => True

/-- The condition on a step: the end of an interval does not pass the end of the counter. -/
def Fits (_ : Kernel) (action : Action) : Prop := intervalFits hz action.now action.event

instance : (event : Event) → Decidable (intervalFits hz now event)
  | .await _ _ _ => inferInstanceAs (Decidable (_ ≤ _))
  | .call _ => inferInstanceAs (Decidable (_ ≤ _))
  | .create _ | .die _ | .pass _ _ | .wake _ | .sweep | .wakeups | .interrupt => .isTrue trivial

instance (action : Action) : Decidable (Fits hz kernel action) :=
  inferInstanceAs (Decidable (intervalFits _ _ _))

end Slots

section Earliest
variable {procs : Nat → Proc} {slots : List Nat} {bound : Nat}

/-- The loop with any start: the result is the least of the start and the deadlines. -/
theorem foldl_least (bound : Nat) (slots : List Nat) (first : Nat) :
    let next := slots.foldl (fun next slot =>
      if (procs slot).sleepDeadline ≠ 0 ∧ (procs slot).sleepDeadline < next then
        (procs slot).sleepDeadline
      else next) first
    next ≤ first ∧ (∀ slot ∈ slots, (procs slot).sleepDeadline ≠ 0 →
      next ≤ (procs slot).sleepDeadline) ∧
      (bound ≤ first → (∀ slot ∈ slots, (procs slot).sleepDeadline ≠ 0 →
        bound ≤ (procs slot).sleepDeadline) → bound ≤ next) := by
  induction slots generalizing first with
  | nil => exact ⟨Nat.le_refl _, by simp, fun low _ => low⟩
  | cons slot rest ih =>
    simp only [List.foldl_cons]
    by_cases earlier : (procs slot).sleepDeadline ≠ 0 ∧ (procs slot).sleepDeadline < first
    · rw [if_pos earlier]
      obtain ⟨below, least, above⟩ := ih (procs slot).sleepDeadline
      refine ⟨by omega, ?_, ?_⟩
      · intro other mem pending
        rcases List.mem_cons.mp mem with rfl | mem
        · exact below
        · exact least other mem pending
      · intro _ all
        exact above (all slot List.mem_cons_self earlier.1)
          fun other mem => all other (List.mem_cons_of_mem _ mem)
    · rw [if_neg earlier]
      obtain ⟨below, least, above⟩ := ih first
      refine ⟨below, ?_, ?_⟩
      · intro other mem pending
        rcases List.mem_cons.mp mem with rfl | mem
        · omega
        · exact least other mem pending
      · intro low all
        exact above low fun other mem => all other (List.mem_cons_of_mem _ mem)

theorem nextDeadline_le {slot : Nat} (mem : slot ∈ slots)
    (pending : (procs slot).sleepDeadline ≠ 0) :
    nextDeadline procs slots ≤ (procs slot).sleepDeadline :=
  (foldl_least 0 slots noDeadline).2.1 slot mem pending

theorem le_nextDeadline (low : bound ≤ noDeadline)
    (all : ∀ slot ∈ slots, (procs slot).sleepDeadline ≠ 0 →
      bound ≤ (procs slot).sleepDeadline) : bound ≤ nextDeadline procs slots :=
  (foldl_least bound slots noDeadline).2.2 low all

end Earliest

section Sound
variable {procsMax hz now slot : Nat} {kernel after : Kernel} {proc : Proc}

/-- What the deadlines of a process stand for. -/
def waitSound (hz now : Nat) (proc : Proc) : Prop :=
  match proc.wait with
  | .none => True
  | .await start timeout deadline _ =>
    start + timeout ≤ 2 ^ 64 ∧ deadline = if timeout ≠ 0 then ulong (start + timeout) else 0
  | .call start =>
    (proc.ipcCallDeadline ≠ 0 → start + callTicks hz ≤ proc.ipcCallDeadline) ∧
      (proc.ipcTimedOut = true → start + callTicks hz ≤ now)

structure Sound (procsMax hz : Nat) (kernel : Kernel) : Prop where
  inside : kernel.sleepNext ≤ noDeadline
  least : ∀ slot < procsMax, (kernel.procs slot).sleepDeadline ≠ 0 →
    kernel.sleepNext ≤ (kernel.procs slot).sleepDeadline
  armed : kernel.timerAt ≤ kernel.sleepNext
  waits : ∀ slot, waitSound hz kernel.now (kernel.procs slot)

theorem waitSound.later {later : Nat} (sound : waitSound hz now proc) (on : now ≤ later) :
    waitSound hz later proc := by
  unfold waitSound at *
  cases wait : proc.wait with
  | none => trivial
  | await start timeout deadline poll =>
    simp only [wait] at sound
    exact sound
  | call start =>
    simp only [wait] at sound
    exact ⟨sound.1, fun timedOut => Nat.le_trans (sound.2 timedOut) on⟩

theorem expired_elapsed (sound : waitSound hz now proc) (passed : expired proc now = true) :
    proc.wait.elapsed hz now := by
  unfold waitSound at sound
  unfold expired at passed
  cases wait : proc.wait with
  | none => trivial
  | await start timeout deadline poll =>
    simp only [wait, Bool.and_eq_true, decide_eq_true_eq] at sound passed
    obtain ⟨fits, same⟩ := sound
    change start + timeout ≤ now
    by_cases asked : timeout = 0
    · simp only [asked] at same
      exact absurd same passed.1
    · rw [if_pos asked] at same
      unfold ulong at same
      by_cases last : start + timeout = 2 ^ 64
      · rw [last] at same
        exact absurd same passed.1
      · omega
  | call start =>
    simp only [wait] at sound passed
    exact sound.2 passed

/-- A change of one process that leaves its deadline alone or takes it away. -/
theorem Sound.set (sound : Sound procsMax hz kernel) {proc : Proc}
    (deadline : proc.sleepDeadline = 0 ∨
      proc.sleepDeadline = (kernel.procs slot).sleepDeadline)
    (waits : waitSound hz kernel.now proc) : Sound procsMax hz (kernel.set slot proc) where
  inside := sound.inside
  least := by
    intro other below pending
    change kernel.sleepNext ≤ (update kernel.procs slot proc other).sleepDeadline
    change (update kernel.procs slot proc other).sleepDeadline ≠ 0 at pending
    by_cases here : other = slot
    · subst here
      rw [update_self] at pending ⊢
      rcases deadline with gone | same
      · exact absurd gone pending
      · rw [same] at pending ⊢
        exact sound.least other below pending
    · rw [update_of_ne here] at pending ⊢
      exact sound.least other below pending
  armed := sound.armed
  waits := by
    intro other
    change waitSound hz kernel.now (update kernel.procs slot proc other)
    by_cases here : other = slot
    · subst here
      rw [update_self]
      exact waits
    · rw [update_of_ne here]
      exact sound.waits other

theorem armNextTimer_le (kernel : Kernel) :
    (armNextTimer kernel).timerAt ≤ (armNextTimer kernel).sleepNext := by
  change (if kernel.tickDue < kernel.sleepNext then kernel.tickDue else kernel.sleepNext) ≤ _
  change _ ≤ kernel.sleepNext
  split <;> omega

theorem wakeSlot_deadline (now : Nat) (proc : Proc) :
    (wakeSlot now proc).sleepDeadline = 0 ∨
      (wakeSlot now proc).sleepDeadline = proc.sleepDeadline := by
  unfold wakeSlot
  repeat' split
  all_goals first
    | exact .inl rfl
    | exact .inr rfl

theorem wakeSlot_waits (sound : waitSound hz now proc) (at_ : Nat) :
    waitSound hz now (wakeSlot at_ proc) := by
  unfold wakeSlot
  repeat' split
  all_goals exact sound

theorem timedWakeups_sound (sound : Sound procsMax hz kernel) (now : Nat) :
    Sound procsMax hz (timedWakeups procsMax kernel now) := by
  unfold timedWakeups
  by_cases early : now < kernel.sleepNext
  · rw [if_pos early]
    exact sound
  · rw [if_neg early]
    have woken : ∀ slot < procsMax, onSlots procsMax kernel.procs (wakeSlot now) slot =
        wakeSlot now (kernel.procs slot) := fun slot below => if_pos below
    have later : kernel.sleepNext ≤ nextDeadline (onSlots procsMax kernel.procs (wakeSlot now))
        (List.range procsMax) := by
      refine le_nextDeadline sound.inside ?_
      intro slot mem pending
      have below := List.mem_range.mp mem
      rw [woken slot below] at pending ⊢
      rcases wakeSlot_deadline now (kernel.procs slot) with gone | same
      · exact absurd gone pending
      · rw [same] at pending ⊢
        exact sound.least slot below pending
    refine ⟨?_, ?_, Nat.le_trans sound.armed later, ?_⟩
    · exact (foldl_least 0 (List.range procsMax) noDeadline).1
    · intro slot below pending
      exact nextDeadline_le (List.mem_range.mpr below) pending
    · intro slot
      change waitSound hz kernel.now (onSlots procsMax kernel.procs (wakeSlot now) slot)
      unfold onSlots
      split
      · exact wakeSlot_waits (sound.waits slot) now
      · exact sound.waits slot

/-- A wakeup at a deadline, or after it, wakes the process. -/
theorem timedWakeups_wakes (sound : Sound procsMax hz kernel) (below : slot < procsMax)
    (blocked : (kernel.procs slot).state = .blocked)
    (pending : (kernel.procs slot).sleepDeadline ≠ 0)
    (due : (kernel.procs slot).sleepDeadline ≤ now) :
    ((timedWakeups procsMax kernel now).procs slot).state = .runnable := by
  have least := sound.least slot below pending
  unfold timedWakeups
  rw [if_neg (by omega)]
  change (onSlots procsMax kernel.procs (wakeSlot now) slot).state = _
  unfold onSlots wakeSlot
  rw [if_pos below, if_neg pending, if_pos due]
  simp [blocked]

end Sound

section Runs
variable {procsMax hz now slot : Nat} {kernel after : Kernel}

theorem sleepUntil_sound (slot deadline : Nat) (sound : Sound procsMax hz kernel) :
    Sound procsMax hz (sleepUntil kernel slot deadline) ∧
      (sleepUntil kernel slot deadline).procs slot =
        { kernel.procs slot with sleepDeadline := deadline } := by
  have at_slot (other : Nat) : (update kernel.procs slot
      { kernel.procs slot with sleepDeadline := deadline }) other =
        if other = slot then { kernel.procs slot with sleepDeadline := deadline }
        else kernel.procs other := by
    by_cases here : other = slot
    · subst here
      simp
    · simp [here]
  have waits (other : Nat) : waitSound hz kernel.now ((update kernel.procs slot
      { kernel.procs slot with sleepDeadline := deadline }) other) := by
    rw [at_slot]
    split
    · exact sound.waits slot
    · exact sound.waits other
  unfold sleepUntil
  by_cases earlier : deadline < kernel.sleepNext
  · rw [if_pos earlier]
    refine ⟨⟨?_, ?_, armNextTimer_le _, waits⟩, by simp [armNextTimer, Kernel.set]⟩
    · have inside := sound.inside
      change deadline ≤ noDeadline
      omega
    · intro other below pending
      change deadline ≤ (update kernel.procs slot _ other).sleepDeadline
      change (update kernel.procs slot
        { kernel.procs slot with sleepDeadline := deadline } other).sleepDeadline ≠ 0 at pending
      rw [at_slot] at pending ⊢
      by_cases here : other = slot
      · exact Nat.le_of_eq (by rw [if_pos here])
      · rw [if_neg here] at pending ⊢
        have least := sound.least other below pending
        omega
  · rw [if_neg earlier]
    refine ⟨⟨sound.inside, ?_, sound.armed, waits⟩, by simp [Kernel.set]⟩
    intro other below pending
    change kernel.sleepNext ≤ (update kernel.procs slot _ other).sleepDeadline
    change (update kernel.procs slot
      { kernel.procs slot with sleepDeadline := deadline } other).sleepDeadline ≠ 0 at pending
    rw [at_slot] at pending ⊢
    by_cases here : other = slot
    · rw [if_pos here]
      change kernel.sleepNext ≤ deadline
      omega
    · rw [if_neg here] at pending ⊢
      exact sound.least other below pending

theorem pass_sound (sound : Sound procsMax hz kernel) (ready : Bool) :
    Sound procsMax hz (pass kernel slot now ready) := by
  have waits := sound.waits slot
  unfold pass
  dsimp only
  cases wait : (kernel.procs slot).wait with
  | none => exact sound
  | await start timeout deadline poll =>
    simp only
    by_cases passed : (ready || expired (kernel.procs slot) now) = true
    · rw [if_pos passed]
      exact sound.set (.inl rfl) trivial
    · rw [if_neg passed]
      by_cases polls : poll = true
      · rw [if_pos polls]
        exact sound
      · rw [if_neg polls]
        by_cases timed : deadline ≠ 0
        · rw [if_pos timed]
          obtain ⟨asleep, here⟩ := sleepUntil_sound slot deadline sound
          exact asleep.set (.inr rfl) (asleep.waits slot)
        · rw [if_neg timed]
          exact sound.set (.inr rfl) waits
  | call start =>
    by_cases passed : (ready || expired (kernel.procs slot) now) = true
    · rw [if_pos passed]
      exact sound.set (.inr rfl) trivial
    · rw [if_neg passed]
      refine sound.set (.inr rfl) ?_
      simpa [waitSound, wait] using waits

theorem sweepSlot_deadline (now : Nat) (proc : Proc) :
    (sweepSlot now proc).sleepDeadline = proc.sleepDeadline := by
  unfold sweepSlot
  split <;> rfl

theorem sweepSlot_waits {proc : Proc} (sound : waitSound hz now proc) :
    waitSound hz now (sweepSlot now proc) := by
  unfold sweepSlot
  by_cases passed : proc.ipcCallDeadline ≠ 0 ∧ now ≥ proc.ipcCallDeadline
  · rw [if_pos passed]
    unfold waitSound at *
    cases wait : proc.wait with
    | none => trivial
    | await start timeout deadline poll =>
      simp only [wait] at sound
      exact sound
    | call start =>
      simp only [wait] at sound
      exact ⟨fun left => absurd rfl left, fun _ => Nat.le_trans (sound.1 passed.1) passed.2⟩
  · rw [if_neg passed]
    exact sound

theorem ipcTimeoutSweep_sound (sound : Sound procsMax hz kernel) :
    Sound procsMax hz (ipcTimeoutSweep procsMax hz kernel kernel.now) := by
  unfold ipcTimeoutSweep
  by_cases early : kernel.now < kernel.housekeepingDeadline
  · rw [if_pos early]
    exact sound
  · rw [if_neg early]
    refine ⟨sound.inside, ?_, sound.armed, ?_⟩
    · intro slot below pending
      change kernel.sleepNext ≤
        (onSlots procsMax kernel.procs (sweepSlot kernel.now) slot).sleepDeadline
      change (onSlots procsMax kernel.procs (sweepSlot kernel.now) slot).sleepDeadline ≠ 0
        at pending
      unfold onSlots at pending ⊢
      rw [if_pos below, sweepSlot_deadline] at pending ⊢
      exact sound.least slot below pending
    · intro slot
      change waitSound hz kernel.now (onSlots procsMax kernel.procs (sweepSlot kernel.now) slot)
      unfold onSlots
      split
      · exact sweepSlot_waits (sound.waits slot)
      · exact sound.waits slot

theorem sysAwait_waits {proc : Proc} {timeout : Nat} (fits : now + timeout ≤ 2 ^ 64)
    (poll : Bool) : waitSound hz now (sysAwait proc now timeout poll) := ⟨fits, rfl⟩

theorem sysIpcCall_waits {proc : Proc} (fits : now + callTicks hz ≤ 2 ^ 64) :
    waitSound hz now (sysIpcCall hz proc now) := by
  refine ⟨fun armed => ?_, fun timedOut => (by cases timedOut)⟩
  change ulong (now + callTicks hz) ≠ 0 at armed
  change now + callTicks hz ≤ ulong (now + callTicks hz)
  unfold ulong at *
  by_cases last : now + callTicks hz = 2 ^ 64
  · rw [last] at armed
    exact absurd rfl armed
  · omega

theorem perform_sound {event : Event} (sound : Sound procsMax hz kernel)
    (fits : intervalFits hz kernel.now event)
    (performed : perform procsMax hz kernel event = some after) : Sound procsMax hz after := by
  cases event with
  | create slot =>
    simp only [perform, Option.ite_none_right_eq_some, Option.some.injEq] at performed
    obtain ⟨_, rfl⟩ := performed
    exact sound.set (.inl rfl) trivial
  | die slot =>
    simp only [perform, Option.ite_none_right_eq_some, Option.some.injEq] at performed
    obtain ⟨_, rfl⟩ := performed
    exact sound.set (.inr rfl) trivial
  | await slot timeout poll =>
    simp only [perform, Option.ite_none_right_eq_some, Option.some.injEq] at performed
    obtain ⟨_, rfl⟩ := performed
    exact sound.set (.inr rfl) (sysAwait_waits fits poll)
  | call slot =>
    simp only [perform, Option.ite_none_right_eq_some, Option.some.injEq] at performed
    obtain ⟨_, rfl⟩ := performed
    exact sound.set (.inr rfl) (sysIpcCall_waits fits)
  | pass slot ready =>
    simp only [perform, Option.ite_none_right_eq_some, Option.some.injEq] at performed
    obtain ⟨_, rfl⟩ := performed
    exact pass_sound sound ready
  | wake slot =>
    simp only [perform, Option.ite_none_right_eq_some, Option.some.injEq] at performed
    obtain ⟨_, rfl⟩ := performed
    exact sound.set (.inr rfl) (sound.waits slot)
  | sweep =>
    obtain rfl := Option.some.inj performed
    exact ipcTimeoutSweep_sound sound
  | wakeups =>
    obtain rfl := Option.some.inj performed
    exact timedWakeups_sound sound kernel.now
  | interrupt =>
    obtain rfl := Option.some.inj performed
    have woken := timedWakeups_sound sound kernel.now
    exact ⟨woken.inside, woken.least, armNextTimer_le _, woken.waits⟩

theorem step_sound {action : Action} (sound : Sound procsMax hz kernel)
    (fits : Fits hz kernel action) (stepped : step procsMax hz kernel action = some after) :
    Sound procsMax hz after := by
  simp only [step, Option.ite_none_right_eq_some] at stepped
  obtain ⟨⟨on, _⟩, performed⟩ := stepped
  have later : Sound procsMax hz { kernel with now := action.now } :=
    ⟨sound.inside, sound.least, sound.armed, fun slot => (sound.waits slot).later on⟩
  exact perform_sound later fits performed

/-- What is wanted of a reached state: the minimum and the timer are no later than any
pending deadline, a wakeup at a deadline wakes the sleeper, and a wait that finds its time
over has lasted as long as it was asked to. -/
structure TimersSound (procsMax hz : Nat) (kernel : Kernel) : Prop where
  least : ∀ slot < procsMax, (kernel.procs slot).state = .blocked →
    (kernel.procs slot).sleepDeadline ≠ 0 →
    kernel.sleepNext ≤ (kernel.procs slot).sleepDeadline ∧
      kernel.timerAt ≤ (kernel.procs slot).sleepDeadline
  wakes : ∀ slot < procsMax, ∀ now, (kernel.procs slot).state = .blocked →
    (kernel.procs slot).sleepDeadline ≠ 0 → (kernel.procs slot).sleepDeadline ≤ now →
    ((timedWakeups procsMax kernel now).procs slot).state = .runnable
  lasts : ∀ slot now, kernel.now ≤ now → expired (kernel.procs slot) now = true →
    (kernel.procs slot).wait.elapsed hz now

theorem booted_sound (procsMax hz now : Nat) : Sound procsMax hz (booted hz now) :=
  ⟨Nat.le_refl _, fun _ _ pending => absurd rfl pending, armNextTimer_le _, fun _ => trivial⟩

theorem timers_sound (procsMax hz boot : Nat) {kernel : Kernel}
    (run : Reach (step procsMax hz) (Fits hz) (booted hz boot) kernel) :
    TimersSound procsMax hz kernel := by
  have sound : Sound procsMax hz kernel := by
    refine run.invariant (Sound procsMax hz) (booted_sound procsMax hz boot) ?_
    intro before action after held fits stepped
    exact step_sound held fits stepped
  refine ⟨?_, ?_, ?_⟩
  · intro slot below _ pending
    have least := sound.least slot below pending
    exact ⟨least, Nat.le_trans sound.armed least⟩
  · intro slot below now blocked pending due
    exact timedWakeups_wakes sound below blocked pending due
  · intro slot now on passed
    exact expired_elapsed ((sound.waits slot).later on) passed

/-- A process asks for `timeout` ticks, at tick 5. -/
def sleeps (timeout : Nat) : List Action :=
  [⟨5, .create 1⟩, ⟨5, .await 1 timeout false⟩]

theorem short_sleep_sound :
    TimersSound 64 10000000
      (outcome (step 64 10000000) (Fits 10000000) (booted 10000000 0) (sleeps 1000)) :=
  timers_sound 64 10000000 0 (outcome_reach (sleeps 1000) _ (by decide))

/-- The deadline of an endless sleep lies before its beginning. -/
theorem endless_sleep_expires :
    ¬ ∀ (procsMax hz boot : Nat) (kernel : Kernel),
      Reach (step procsMax hz) (fun _ _ => True) (booted hz boot) kernel →
      TimersSound procsMax hz kernel := by
  intro always
  have reached : Reach (step 64 10000000) (fun _ _ => True) (booted 10000000 0)
      (outcome (step 64 10000000) (fun _ _ => True) (booted 10000000 0)
        (sleeps (2 ^ 64 - 1))) := outcome_reach _ _ (by decide)
  have lasted := (always 64 10000000 0 _ reached).lasts 1 5 (by decide)
    (by decide)
  change 5 + (2 ^ 64 - 1) ≤ 5 at lasted
  omega

end Runs

end Racccoon.Deadlines
