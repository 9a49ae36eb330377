import Racccoon.Lib.Ring
import Racccoon.Lib.Run
import Racccoon.TrapFrame

/-!
Notes, as `note.c3` posts and delivers them at the tail of `handle_trap`. The history kept
of each process is not in the source: which notes its queue accepted, when its handler was
entered and what the process continued with afterwards.
-/

namespace Racccoon.Notes
open Function (update update_self update_of_ne)

open Run TrapFrame

def nnote : Nat := 5
def noteMax : Nat := 64
def ncont : Int := 0

abbrev Buffer := Nat → UInt8

inductive ProcState where
  | unused | runnable | blocked
  deriving DecidableEq

inductive Cause where
  | interrupt | ecall | lazyFault | userFault
  deriving DecidableEq

structure Process where
  pid : Nat
  state : ProcState
  uid : Int
  noteg : Int
  /-- Why the process is in the kernel, and at which address; `none` in user mode. -/
  trap : Option (Cause × Word)
  frame : TrapFrame
  fp : FpArea
  savedSepc : Word
  notes : Nat → Buffer
  noteHead : Nat
  noteCount : Nat
  noteHandler : Word
  inNote : Bool
  noteIntr : Bool
  noteSavedIntr : Bool
  noteResumed : Bool
  noteFrame : TrapFrame
  noteSepc : Word
  noteFp : FpArea

/-- What a process goes on with. -/
structure Context where
  frame : TrapFrame
  sepc : Word
  fp : FpArea
  intr : Bool

def Process.context (p : Process) : Context := ⟨p.frame, p.savedSepc, p.fp, p.noteIntr⟩

def Process.parked (p : Process) : Context := ⟨p.noteFrame, p.noteSepc, p.noteFp, p.noteSavedIntr⟩

abbrev Text := List UInt8

def text (buffer : Buffer) : Nat → Nat → Text
  | 0, _ => []
  | left + 1, i => if buffer i = 0 then [] else buffer i :: text buffer left (i + 1)

def cstr (bytes : Text) : Buffer := fun i => bytes.getD i 0

def kill : Text := [107, 105, 108, 108]

def interrupt : Text := [105, 110, 116, 101, 114, 114, 117, 112, 116]

section Queue

/-- `note_post`'s loop. -/
def copyNote (msg : Buffer) (slot : Buffer) : Nat → Nat → Buffer
  | 0, i => Function.update slot i 0
  | left + 1, i =>
    if msg i = 0 then Function.update slot i 0
    else copyNote msg (Function.update slot i (msg i)) left (i + 1)

variable (p : Process)

def notePost (msg : Buffer) : Bool × Process :=
  if p.noteCount ≥ nnote then (false, p)
  else
    let slot := (p.noteHead + p.noteCount) % nnote
    (true,
      { p with
        notes := Function.update p.notes slot (copyNote msg (p.notes slot) (noteMax - 1) 0)
        noteCount := p.noteCount + 1
        state := if p.state = .blocked then .runnable else p.state })

def noteDeliverable : Bool := decide (0 < p.noteCount) && !p.inNote

def noteInterrupted : Process := { p with noteIntr := true, state := .runnable }

def procDestroy : Process := { p with state := .unused, trap := none }

inductive Happening where
  | accepted (note : Text)
  /-- The handler is entered; the context is the one it interrupts. -/
  | entered (note : Text) (interrupted : Context)
  /-- A note with no handler, or "kill". -/
  | killed (note : Text)
  /-- The handler is done, and the process goes on with a context. -/
  | resumed (continued : Context)
  /-- `exec` took the handler away while it ran. -/
  | abandoned
  /-- The process was forked inside its parent's handler. -/
  | inherited (interrupted : Context)

def noteDeliver (stackFits : Bool) : Process × List Happening :=
  if p.noteCount = 0 || p.inNote then (p, [])
  else
    let note := text (p.notes p.noteHead) noteMax 0
    let taken := { p with
      noteHead := (p.noteHead + 1) % nnote
      noteCount := p.noteCount - 1 }
    if p.noteHandler = 0 || note = kill || !stackFits then
      (procDestroy taken, [.killed note])
    else
      let msgAt : Word := (p.frame sp - 128) &&& ~~~15
      ({ taken with
          noteFrame := p.frame
          noteSepc := p.savedSepc
          noteSavedIntr := p.noteIntr
          noteFp := p.fp
          inNote := true
          frame := Function.update (Function.update (Function.update p.frame a0 msgAt) sp msgAt) ra 0
          savedSepc := p.noteHandler },
        [.entered note p.context])

/-- The answer tells whether the parked context was restored. -/
def noteNoted (how : Int) : Bool × Process :=
  if !p.inNote then (false, { p with frame := Function.update p.frame a0 (-1) })
  else if how ≠ ncont then (false, procDestroy p)
  else
    (true,
      { p with
        frame := p.noteFrame
        savedSepc := p.noteSepc
        noteIntr := p.noteSavedIntr
        fp := p.noteFp
        inNote := false })

end Queue

inductive Syscall where
  | rfork | exec | postnote | notify | noted | interrupted | ordinary
  deriving DecidableEq

def syscallOf (number : Word) : Syscall :=
  if number = 11 then .rfork
  else if number = 24 then .exec
  else if number = 61 then .postnote
  else if number = 62 then .notify
  else if number = 63 then .noted
  else if number = 64 then .interrupted
  else .ordinary

structure Seat where
  process : Process
  history : List Happening

structure World where
  seats : Nat → Seat
  consoleNoteg : Int

/-- What the rest of the system contributes to a trap: an ordinary call's result and the
uid it leaves, the user's memory at `a2`, the image `exec` commits to (argc, argv, entry),
the slot `rfork` claims, and whether the message fits the user's stack. -/
structure Given where
  result : Word
  uid : Int
  memory : Nat → Option UInt8
  image : Option (Word × Word × Word)
  child : Option Nat
  stackFits : Bool

def Seat.change (seat : Seat) (change : Process → Process) : Seat :=
  { seat with process := change seat.process }

def Seat.log (seat : Seat) (happened : List Happening) : Seat :=
  { seat with history := seat.history ++ happened }

def World.set (world : World) (slot : Nat) (seat : Seat) : World :=
  { world with seats := Function.update world.seats slot seat }

def Seat.post (seat : Seat) (msg : Buffer) : Bool × Seat :=
  match notePost seat.process msg with
  | (true, posted) =>
    (true, { process := posted, history := seat.history ++ [.accepted (text msg (noteMax - 1) 0)] })
  | (false, same) => (false, { seat with process := same })

/-- A round of `note_post_group`'s loop. -/
def postMember (g : Int) (msg : Buffer) (uid : Int) (sofar : Nat × World) (slot : Nat) :
    Nat × World :=
  let seat := sofar.2.seats slot
  if seat.process.state = .unused || seat.process.pid = 0 then sofar
  else if seat.process.noteg ≠ g then sofar
  else if uid > 0 && seat.process.uid ≠ uid then sofar
  else
    let (posted, next) := seat.post msg
    (if posted then sofar.1 + 1 else sofar.1, sofar.2.set slot next)

section Table
variable (procsMax : Nat)
variable (world : World)

def notePostGroup (g : Int) (msg : Buffer) (uid : Int) : Nat × World :=
  (List.range procsMax).foldl (postMember g msg uid) (0, world)

def procByPid (pid : Int) : Option Nat :=
  if pid < 1 || pid > procsMax then none
  else
    let slot := (pid - 1).toNat
    let p := (world.seats slot).process
    if (p.pid : Int) ≠ pid || p.state = .unused then none else some slot

/-- The bytes `sys_postnote` reads, up to a NUL; `none` where one is not readable. -/
def readNote (memory : Nat → Option UInt8) : Nat → Nat → Option Text
  | 0, _ => some []
  | left + 1, i =>
    match memory i with
    | none => none
    | some byte =>
      if byte = 0 then some [] else (readNote memory left (i + 1)).map (byte :: ·)

def setA0 (value : Word) (p : Process) : Process :=
  { p with frame := Function.update p.frame a0 value }

def sysPostnote (slot : Nat) (memory : Nat → Option UInt8) : World :=
  let caller := (world.seats slot).process
  let answer (world : World) (n : Nat) : World :=
    world.set slot ((world.seats slot).change (setA0 (if n > 0 then BitVec.ofNat 64 n else -1)))
  match readNote memory (noteMax - 1) 0 with
  | none => answer world 0
  | some msg =>
    if caller.frame a1 = 1 then
      let (n, posted) := notePostGroup procsMax world (int (caller.frame a0)) (cstr msg) caller.uid
      answer posted n
    else
      match procByPid procsMax world (int (caller.frame a0)) with
      | none => answer world 0
      | some target =>
        let seat := world.seats target
        if caller.uid = 0 || caller.uid = seat.process.uid then
          let (posted, next) := seat.post (cstr msg)
          answer (world.set target next) (if posted then 1 else 0)
        else answer world 0

/-- The note fields of a new process, over whatever its slot held before. -/
def createProcess (old : Process) (slot : Nat) (uid : Int) : Process :=
  { old with
    pid := slot + 1
    state := .runnable
    uid := uid
    noteg := slot + 1
    trap := none
    noteHead := 0
    noteCount := 0
    noteHandler := 0
    inNote := false
    noteIntr := false
    noteResumed := false }

variable (p : Process)

def rforkFlags : BitVec 32 := (p.frame a0).setWidth 32

/-- The child of `sys_rfork`. It starts behind the call, with `a0` zero. -/
def forked (old parent : Process) (slot : Nat) (userPc : Word) : Process :=
  { old with
    pid := slot + 1
    state := .runnable
    uid := parent.uid
    noteg := if rforkFlags parent &&& 4 ≠ 0 then slot + 1 else parent.noteg
    trap := none
    frame := Function.update parent.frame a0 0
    fp := parent.fp
    savedSepc := userPc + 4
    noteHead := 0
    noteCount := 0
    noteHandler := parent.noteHandler
    inNote := parent.inNote
    noteIntr := false
    noteSavedIntr := false
    noteResumed := false
    noteFrame := parent.noteFrame
    noteSepc := parent.noteSepc
    noteFp := parent.noteFp }

def sysRfork (slot : Nat) (userPc : Word) (child : Option Nat) : World :=
  let parent := world.seats slot
  match child with
  | none => world.set slot (parent.change (setA0 (-1)))
  | some childSlot =>
    let old := world.seats childSlot
    if childSlot < procsMax ∧ old.process.state = .unused then
      let born := forked old.process parent.process childSlot userPc
      let seat : Seat :=
        { process := born, history := if born.inNote then [.inherited born.parked] else [] }
      (world.set childSlot seat).set slot
        (parent.change (setA0 (BitVec.ofNat 64 (childSlot + 1))))
    else world.set slot (parent.change (setA0 (-1)))

/-- What `sys_exec` does to the caller's notes and registers when it commits. -/
def committed (argc argv entry : Word) : Process :=
  { p with
    noteHandler := 0
    inNote := false
    savedSepc := entry
    fp := fun _ => 0
    frame := Function.update (Function.update (Function.update p.frame a0 argc) a1 argv) tp 0 }

def sysExec (seat : Seat) (image : Option (Word × Word × Word)) : Seat :=
  match image with
  | none => seat.change (setA0 (-1))
  | some (argc, argv, entry) =>
    (seat.change fun p => committed p argc argv entry).log
      (if seat.process.inNote then [.abandoned] else [])

/-- The case of `SYS_NOTED`. -/
def sysNoted : Process :=
  let noted := noteNoted p (int (p.frame a0))
  if noted.1 then { noted.2 with noteResumed := true } else noted.2

/-- `handle_syscall`, behind its first line. -/
def handleSyscall (slot : Nat) (userPc : Word) (given : Given) : World :=
  let seat := world.seats slot
  match syscallOf (seat.process.frame a3) with
  | .postnote => sysPostnote procsMax world slot given.memory
  | .notify => world.set slot (seat.change fun p =>
    setA0 0 { p with noteHandler := p.frame a0 })
  | .noted => world.set slot (seat.change sysNoted)
  | .interrupted => world.set slot (seat.change fun p =>
    { setA0 (if p.noteIntr then 1 else 0) p with noteIntr := false })
  | .exec => world.set slot (sysExec seat given.image)
  | .rfork => sysRfork procsMax world slot userPc given.child
  | .ordinary => world.set slot (seat.change fun p => setA0 given.result { p with uid := given.uid })

/-- Where the process goes on after its call. -/
def resumeAt (syscall : Syscall) (userPc : Word) (seat : Seat) : Seat :=
  let justExecd := syscall = .exec && decide (0 ≤ (seat.process.frame a0).toInt)
  if seat.process.noteResumed then
    let next := { seat.process with noteResumed := false }
    { process := next, history := seat.history ++ [.resumed next.context] }
  else if !justExecd then seat.change fun p => { p with savedSepc := userPc + 4 }
  else seat

/-- The tail of `handle_trap`. -/
def trapTail (stackFits : Bool) (seat : Seat) : Seat :=
  let (next, happened) :=
    if seat.process.noteCount > 0 then noteDeliver seat.process stackFits else (seat.process, [])
  { process := { next with trap := none }, history := seat.history ++ happened }

/-- The head of `handle_trap`, with `handle_syscall`'s first line. -/
def trapEntry (cause : Cause) (frame : TrapFrame) (pc : Word) (fp : FpArea) : Process :=
  { p with
    trap := some (cause, pc)
    frame := frame
    fp := fp
    savedSepc := pc
    noteIntr := if cause = .ecall ∧ syscallOf (frame a3) ≠ .interrupted then false else p.noteIntr }

/-- The rest of `handle_trap`. -/
def trapFinish (slot : Nat) (given : Given) : Option World :=
  let seat := world.seats slot
  match seat.process.trap with
  | none => none
  | some (cause, userPc) =>
    match cause with
    | .interrupt | .lazyFault => some (world.set slot (trapTail given.stackFits seat))
    | .userFault => some (world.set slot (seat.change procDestroy))
    | .ecall =>
      let handled := handleSyscall procsMax world slot userPc given
      let after := handled.seats slot
      if after.process.state = .unused then some handled
      else some (handled.set slot (trapTail given.stackFits
        (resumeAt (syscallOf (seat.process.frame a3)) userPc after)))

/-- Between a trap's entry and its end a process may sleep and be woken, by a note or by
something else; a wait that finds a note gives up. -/
inductive Action where
  | create (slot : Nat) (uid : Int) (shell : Bool)
  | destroy (slot : Nat)
  /-- ^C on the console. -/
  | interruptKey
  | enter (slot : Nat) (cause : Cause) (frame : TrapFrame) (pc : Word) (fp : FpArea)
  | sleep (slot : Nat)
  | wake (slot : Nat)
  | bail (slot : Nat)
  | finish (slot : Nat) (given : Given)

def waiting : Bool :=
  match p.trap with
  | some (.ecall, _) => syscallOf (p.frame a3) = .ordinary
  | _ => false

def step : Action → Option World
  | .create slot uid shell =>
    let old := (world.seats slot).process
    if slot < procsMax ∧ old.state = .unused then
      let created := world.set slot { process := createProcess old slot uid, history := [] }
      some (if shell then { created with consoleNoteg := slot + 1 } else created)
    else none
  | .destroy slot =>
    if (world.seats slot).process.pid = 0 then none
    else some (world.set slot ((world.seats slot).change procDestroy))
  | .interruptKey => some (notePostGroup procsMax world world.consoleNoteg (cstr interrupt) (-1)).2
  | .enter slot cause frame pc fp =>
    let p := (world.seats slot).process
    if p.state = .runnable ∧ p.pid ≠ 0 ∧ p.trap = none then
      some (world.set slot ((world.seats slot).change fun p => trapEntry p cause frame pc fp))
    else none
  | .sleep slot =>
    if waiting (world.seats slot).process then
      some (world.set slot ((world.seats slot).change fun p => { p with state := .blocked }))
    else none
  | .wake slot =>
    if (world.seats slot).process.state = .blocked then
      some (world.set slot ((world.seats slot).change fun p => { p with state := .runnable }))
    else none
  | .bail slot =>
    let p := (world.seats slot).process
    if p.state = .runnable ∧ waiting p ∧ noteDeliverable p then
      some (world.set slot ((world.seats slot).change noteInterrupted))
    else none
  | .finish slot given =>
    if (world.seats slot).process.state = .runnable then trapFinish procsMax world slot given
    else none

end Table

def delivered (history : List Happening) : List Text :=
  history.filterMap fun
    | .entered note _ => some note
    | .killed note => some note
    | _ => none

def accepted (history : List Happening) : List Text :=
  history.filterMap fun
    | .accepted note => some note
    | _ => none

def pending (p : Process) : List Text :=
  Ring.read nnote (fun slot => text (p.notes slot) noteMax 0) p.noteHead p.noteCount

def Happening.leaves : Happening → Bool
  | .resumed _ | .abandoned => true
  | _ => false

/-- A history is nested if a handler is only entered outside of one and only left for the
context it interrupted. -/
inductive Follows : Option Context → Happening → Option Context → Prop where
  | accepted {active : Option Context} (note : Text) : Follows active (.accepted note) active
  | entered (note : Text) (interrupted : Context) :
      Follows none (.entered note interrupted) (some interrupted)
  | killed (note : Text) : Follows none (.killed note) none
  | resumed (interrupted : Context) : Follows (some interrupted) (.resumed interrupted) none
  | abandoned (interrupted : Context) : Follows (some interrupted) .abandoned none
  | inherited (interrupted : Context) :
      Follows none (.inherited interrupted) (some interrupted)

def Nested : Option Context → List Happening → Option Context → Prop
  | active, [], final => final = active
  | active, event :: rest, final => ∃ next, Follows active event next ∧ Nested next rest final

def frames : Option Context → Nat
  | none => 0
  | some _ => 1

section Histories
variable {active final : Option Context}

theorem nested_append (earlier later : List Happening) :
    Nested active (earlier ++ later) final ↔
      ∃ middle, Nested active earlier middle ∧ Nested middle later final := by
  induction earlier generalizing active with
  | nil => simp [Nested]
  | cons event rest ih =>
    simp only [List.cons_append, Nested, ih]
    constructor
    · rintro ⟨next, follows, middle, left, right⟩
      exact ⟨middle, ⟨next, follows, left⟩, right⟩
    · rintro ⟨middle, ⟨next, follows, left⟩, right⟩
      exact ⟨next, follows, middle, left, right⟩

theorem Nested.snoc {history : List Happening} {event : Happening} {next : Option Context}
    (nested : Nested active history final) (follows : Follows final event next) :
    Nested active (history ++ [event]) next :=
  (nested_append _ _).mpr ⟨final, nested, next, follows, rfl⟩

theorem Nested.quiet {interrupted : Context} {during : List Happening}
    (nested : Nested (some interrupted) during final)
    (stays : ∀ event ∈ during, event.leaves = false) : final = some interrupted := by
  induction during with
  | nil => exact nested
  | cons event rest ih =>
    obtain ⟨next, follows, tail⟩ := nested
    have here := stays event (List.mem_cons_self ..)
    cases follows with
    | accepted note => exact ih tail fun later member => stays later (List.mem_cons_of_mem _ member)
    | resumed => simp [Happening.leaves] at here
    | abandoned => simp [Happening.leaves] at here

end Histories

def openContext (p : Process) : Option Context := if p.inNote then some p.parked else none

variable {seat : Seat}

section Invariants

def Process.noteState (p : Process) : (Nat → Buffer) × Nat × Nat × Bool × Context × Bool :=
  (p.notes, p.noteHead, p.noteCount, p.inNote, p.parked, p.noteResumed)

structure Queued (seat : Seat) : Prop where
  order : delivered seat.history ++ pending seat.process = accepted seat.history
  room : seat.process.noteCount ≤ nnote
  place : seat.process.noteHead < nnote

structure Kept (seat : Seat) : Prop extends Queued seat where
  nested : Nested none seat.history (openContext seat.process)
  steady : seat.process.noteResumed = false

/-- Between `note_noted` and the end of its trap. -/
structure Restored (seat : Seat) : Prop extends Queued seat where
  outside : seat.process.inNote = false
  nested : Nested none seat.history (some seat.process.context)
  resumed : seat.process.noteResumed = true
  alive : seat.process.state ≠ .unused

theorem Kept.change (kept : Kept seat) (change : Process → Process)
    (same : (change seat.process).noteState = seat.process.noteState) :
    Kept (seat.change change) := by
  obtain ⟨⟨order, room, place⟩, nested, steady⟩ := kept
  simp only [Process.noteState, Prod.mk.injEq] at same
  obtain ⟨notes, head, count, inNote, parked, resumed⟩ := same
  refine ⟨⟨?_, ?_, ?_⟩, ?_, ?_⟩
  · simpa only [Seat.change, pending, notes, head, count] using order
  · simpa only [Seat.change, count] using room
  · simpa only [Seat.change, head] using place
  · simpa only [Seat.change, openContext, inNote, parked] using nested
  · simpa only [Seat.change, resumed] using steady

variable {p : Process}

/-- A process without notes whose history is only its birth. -/
theorem Kept.born {history : List Happening} (empty : p.noteHead = 0 ∧ p.noteCount = 0)
    (nothing : delivered history = [] ∧ accepted history = [])
    (nested : Nested none history (openContext p)) (steady : p.noteResumed = false) :
    Kept { process := p, history := history } where
  order := by simp [nothing, pending, empty, Ring.read_zero]
  room := by simp [empty]
  place := by simp [empty, nnote]
  nested := nested
  steady := steady

variable (earlier later : List Happening)

theorem delivered_append : delivered (earlier ++ later) = delivered earlier ++ delivered later :=
  List.filterMap_append

theorem accepted_append : accepted (earlier ++ later) = accepted earlier ++ accepted later :=
  List.filterMap_append

section Posting

theorem copyNote_before (msg slot : Buffer) (left i : Nat) {j : Nat} (before : j < i) :
    copyNote msg slot left i j = slot j := by
  induction left generalizing slot i with
  | zero => exact update_of_ne (by omega) _ _
  | succ left ih =>
    rw [copyNote]
    split
    · exact update_of_ne (by omega) _ _
    · rw [ih _ _ (by omega)]
      exact update_of_ne (by omega) _ _

theorem text_copyNote (msg slot : Buffer) (left i : Nat) :
    text (copyNote msg slot left i) (left + 1) i = text msg left i := by
  induction left generalizing slot i with
  | zero => simp [copyNote, text]
  | succ left ih =>
    rw [copyNote]
    split
    · next nul => simp [text, nul]
    · next byte =>
        conv_rhs => rw [text, if_neg byte]
        rw [text, copyNote_before _ _ _ _ (Nat.lt_succ_self i), update_self, if_neg byte]
        rw [ih]

theorem pending_post {posted : Process} {msg : Buffer} (post : notePost p msg = (true, posted)) :
    pending posted = pending p ++ [text msg (noteMax - 1) 0] ∧ posted.noteCount ≤ nnote := by
  unfold notePost at post
  split at post
  · cases post
  · next room =>
      simp only [Prod.mk.injEq, true_and] at post
      subst post
      have short : p.noteCount < nnote := by omega
      refine ⟨?_, short⟩
      have texts : (fun slot => text (update p.notes ((p.noteHead + p.noteCount) % nnote)
            (copyNote msg (p.notes ((p.noteHead + p.noteCount) % nnote)) (noteMax - 1) 0) slot)
            noteMax 0) =
          update (fun slot => text (p.notes slot) noteMax 0)
            ((p.noteHead + p.noteCount) % nnote) (text msg (noteMax - 1) 0) := by
        rw [← text_copyNote msg (p.notes ((p.noteHead + p.noteCount) % nnote))]
        exact Function.comp_update (fun buffer => text buffer noteMax 0) p.notes _ _
      simp only [pending]
      rw [texts, Ring.read_succ, update_self, Ring.read_update (Nat.le_refl _) (by omega)]

theorem post_frame {posted : Process} {msg : Buffer} {done : Bool}
    (post : notePost p msg = (done, posted)) :
    posted.inNote = p.inNote ∧ posted.parked = p.parked ∧ posted.noteResumed = p.noteResumed ∧
      posted.noteHead = p.noteHead := by
  unfold notePost at post
  split at post
  all_goals
    obtain ⟨-, rfl⟩ := post
    exact ⟨rfl, rfl, rfl, rfl⟩

theorem Kept.post (kept : Kept seat) (msg : Buffer) : Kept (seat.post msg).2 := by
  cases posted : notePost seat.process msg with
  | mk done next =>
    obtain ⟨inNote, parked, resumed, head⟩ := post_frame posted
    cases done with
    | false =>
      have same : next = seat.process := by
        unfold notePost at posted
        split at posted <;> simp_all
      simpa only [Seat.post, posted, same] using kept
    | true =>
      obtain ⟨queue, room⟩ := pending_post posted
      simp only [Seat.post, posted]
      refine ⟨⟨?_, room, by rw [head]; exact kept.place⟩, ?_, ?_⟩
      · simp only [accepted_append, queue, ← kept.order]
        simp [delivered, accepted]
      · simp only [openContext, inNote, parked]
        exact kept.nested.snoc (.accepted _)
      · exact resumed.trans kept.steady

end Posting

section Delivery

theorem pending_take (waits : p.noteCount ≠ 0) (place : p.noteHead < nnote) :
    pending p = text (p.notes p.noteHead) noteMax 0 ::
      Ring.read nnote (fun slot => text (p.notes slot) noteMax 0)
        ((p.noteHead + 1) % nnote) (p.noteCount - 1) := by
  rw [Ring.read_drop, pending]
  obtain ⟨count, more⟩ := Nat.exists_eq_succ_of_ne_zero waits
  simp [Ring.read, more, List.range_succ_eq_map, Nat.mod_eq_of_lt place]

/-- Taking the oldest note off the queue, whatever becomes of it. -/
theorem Queued.take {seat : Seat} (queued : Queued seat) (waits : seat.process.noteCount ≠ 0)
    {next : Process} {event : Happening} (notes : next.notes = seat.process.notes)
    (head : next.noteHead = (seat.process.noteHead + 1) % nnote)
    (count : next.noteCount = seat.process.noteCount - 1)
    (takes : delivered [event] = [text (seat.process.notes seat.process.noteHead) noteMax 0])
    (posts : accepted [event] = []) :
    Queued { process := next, history := seat.history ++ [event] } := by
  obtain ⟨order, room, place⟩ := queued
  rw [pending_take waits place] at order
  refine ⟨?_, ?_, ?_⟩
  · rw [delivered_append, accepted_append, takes, posts, ← order]
    simp [pending, notes, head, count]
  · simp only [count]
    omega
  · simp only [head]
    exact Nat.mod_lt _ (by decide)

theorem Kept.tail (kept : Kept seat) (stackFits : Bool) : Kept (trapTail stackFits seat) := by
  by_cases waits : 0 < seat.process.noteCount
  · have some_note : seat.process.noteCount ≠ 0 := by omega
    have delivers : trapTail stackFits seat =
        { process := { (noteDeliver seat.process stackFits).1 with trap := none }
          history := seat.history ++ (noteDeliver seat.process stackFits).2 } := by
      simp [trapTail, waits]
    rw [delivers]
    by_cases inside : seat.process.inNote
    · have idle : noteDeliver seat.process stackFits = (seat.process, []) := by
        simp [noteDeliver, inside]
      simp only [idle, List.append_nil]
      exact kept.change (fun p => { p with trap := none }) rfl
    · have outside : seat.process.inNote = false := by simpa using inside
      have nested : Nested none seat.history none := by
        simpa [openContext, outside] using kept.nested
      rw [noteDeliver, if_neg (by simp [some_note, outside])]
      dsimp only
      split
      · refine ⟨kept.toQueued.take some_note rfl rfl rfl rfl rfl, ?_, kept.steady⟩
        simpa [openContext, procDestroy, outside] using nested.snoc (.killed _)
      · refine ⟨kept.toQueued.take some_note rfl rfl rfl rfl rfl, ?_, kept.steady⟩
        exact nested.snoc (.entered _ _)
  · have idle : trapTail stackFits seat = seat.change fun p => { p with trap := none } := by
      simp [trapTail, waits, Seat.change]
    rw [idle]
    exact kept.change _ rfl

end Delivery

section Calls

theorem openContext_inside (inside : p.inNote = true) : openContext p = some p.parked := by
  simp [openContext, inside]

theorem noteNoted_inside (inside : p.inNote = true) :
    noteNoted p ncont =
      (true,
        { p with
          frame := p.noteFrame
          savedSepc := p.noteSepc
          noteIntr := p.noteSavedIntr
          fp := p.noteFp
          inNote := false }) := by
  simp [noteNoted, inside]

theorem Kept.noted (kept : Kept seat) (alive : seat.process.state ≠ .unused) :
    Kept (seat.change sysNoted) ∨ Restored (seat.change sysNoted) := by
  by_cases inside : seat.process.inNote = true
  · by_cases resume : int (seat.process.frame a0) = ncont
    · right
      have nested := kept.nested
      rw [openContext_inside inside] at nested
      have back : sysNoted seat.process =
          { seat.process with
            frame := seat.process.noteFrame
            savedSepc := seat.process.noteSepc
            noteIntr := seat.process.noteSavedIntr
            fp := seat.process.noteFp
            inNote := false
            noteResumed := true } := by
        simp only [sysNoted, resume, noteNoted_inside inside, if_true]
      simp only [Seat.change, back]
      exact ⟨⟨kept.order, kept.room, kept.place⟩, rfl, nested, rfl, alive⟩
    · left
      apply kept.change
      simp [sysNoted, noteNoted, inside, resume, procDestroy, Process.noteState, Process.parked]
  · left
    apply kept.change
    simp [sysNoted, noteNoted, inside, Process.noteState, Process.parked]

theorem Kept.exec (kept : Kept seat) (image : Option (Word × Word × Word)) :
    Kept (sysExec seat image) := by
  cases image with
  | none => exact kept.change _ rfl
  | some loaded =>
    obtain ⟨argc, argv, entry⟩ := loaded
    obtain ⟨⟨order, room, place⟩, nested, steady⟩ := kept
    cases inside : seat.process.inNote with
    | false =>
      have same : sysExec seat (some (argc, argv, entry)) =
          seat.change fun p => committed p argc argv entry := by
        simp [sysExec, Seat.log, inside]
      rw [same]
      refine Kept.change ⟨⟨order, room, place⟩, nested, steady⟩ _ ?_
      simp [committed, Process.noteState, Process.parked, inside]
    | true =>
      rw [openContext_inside inside] at nested
      have left : sysExec seat (some (argc, argv, entry)) =
          { process := committed seat.process argc argv entry
            history := seat.history ++ [.abandoned] } := by
        simp [sysExec, Seat.log, Seat.change, inside]
      rw [left]
      refine ⟨⟨?_, room, place⟩, nested.snoc (.abandoned _), steady⟩
      simp only [accepted_append, ← order]
      simp [delivered, accepted, pending, committed]

end Calls

section Worlds
variable {procsMax : Nat} {world : World}

def Orderly (world : World) : Prop := ∀ slot, Kept (world.seats slot)

@[simp] theorem set_self (world : World) (slot : Nat) (seat : Seat) :
    (world.set slot seat).seats slot = seat :=
  update_self ..

variable {slot : Nat}

theorem set_other {other : Nat} (apart : other ≠ slot) (world : World) (seat : Seat) :
    (world.set slot seat).seats other = world.seats other :=
  update_of_ne apart ..

section
variable (orderly : Orderly world)
include orderly

theorem Orderly.set (kept : Kept seat) : Orderly (world.set slot seat) := by
  intro other
  by_cases same : other = slot
  · subst same
    simpa using kept
  · rw [set_other same]
    exact orderly other

theorem Orderly.change (slot : Nat) (change : Process → Process)
    (same : ∀ p, (change p).noteState = p.noteState) :
    Orderly (world.set slot ((world.seats slot).change change)) :=
  orderly.set ((orderly slot).change change (same _))

theorem Orderly.member (g : Int) (msg : Buffer) (uid : Int) (n slot : Nat) :
    Orderly (postMember g msg uid (n, world) slot).2 := by
  unfold postMember
  dsimp only
  split
  · exact orderly
  · split
    · exact orderly
    · split
      · exact orderly
      · exact orderly.set ((orderly slot).post msg)

theorem Orderly.members (g : Int) (msg : Buffer) (uid : Int) (n : Nat) (slots : List Nat) :
    Orderly (slots.foldl (postMember g msg uid) (n, world)).2 := by
  induction slots generalizing world n with
  | nil => exact orderly
  | cons slot rest ih => exact ih (orderly.member g msg uid n slot) _

theorem Orderly.group (g : Int) (msg : Buffer) (uid : Int) :
    Orderly (notePostGroup procsMax world g msg uid).2 :=
  orderly.members g msg uid 0 _

theorem Orderly.postnote (slot : Nat) (memory : Nat → Option UInt8) :
    Orderly (sysPostnote procsMax world slot memory) := by
  have answers : ∀ (world : World) (n : Nat), Orderly world →
      Orderly (world.set slot
        ((world.seats slot).change (setA0 (if n > 0 then BitVec.ofNat 64 n else -1)))) := by
    intro world n held
    exact held.change slot _ fun _ => rfl
  unfold sysPostnote
  dsimp only
  split
  · exact answers _ 0 orderly
  · split
    · exact answers _ _ (orderly.group _ _ _)
    · split
      · exact answers _ 0 orderly
      · next target _ =>
          split
          · exact answers _ _ (orderly.set ((orderly target).post _))
          · exact answers _ 0 orderly

end

theorem forked_kept (old parent : Process) (slot : Nat) (userPc : Word) :
    Kept { process := forked old parent slot userPc
           history := if (forked old parent slot userPc).inNote
             then [.inherited (forked old parent slot userPc).parked] else [] } := by
  cases inside : (forked old parent slot userPc).inNote with
  | false =>
    refine Kept.born ⟨rfl, rfl⟩ ⟨rfl, rfl⟩ ?_ rfl
    simp [Nested, openContext, inside]
  | true =>
    refine Kept.born ⟨rfl, rfl⟩ ⟨rfl, rfl⟩ ?_ rfl
    rw [openContext_inside inside]
    exact ⟨_, .inherited _, rfl⟩

theorem Orderly.rfork (orderly : Orderly world) (slot : Nat) (userPc : Word) (child : Option Nat) :
    Orderly (sysRfork procsMax world slot userPc child) := by
  unfold sysRfork
  cases child with
  | none => exact orderly.change slot _ fun _ => rfl
  | some childSlot =>
    dsimp only
    split
    · apply (orderly.set (forked_kept _ _ childSlot userPc)).set
      exact (orderly slot).change _ rfl
    · exact orderly.change slot _ fun _ => rfl

def Underway (world : World) (slot : Nat) : Prop :=
  (∀ other, other ≠ slot → Kept (world.seats other)) ∧
    (Kept (world.seats slot) ∨ Restored (world.seats slot))

theorem Orderly.underway (orderly : Orderly world) (slot : Nat) : Underway world slot :=
  ⟨fun other _ => orderly other, .inl (orderly slot)⟩

theorem Underway.orderly (underway : Underway world slot) (kept : Kept seat) :
    Orderly (world.set slot seat) := by
  intro other
  by_cases same : other = slot
  · subst same
    simpa using kept
  · rw [set_other same]
    exact underway.1 other same

end Worlds

end Invariants

section Runs

def booted (slots : Process) : World where
  seats slot :=
    { process := { slots with
        pid := 0
        state := if slot = 0 then .runnable else .unused
        trap := none
        noteHead := 0
        noteCount := 0
        inNote := false
        noteResumed := false }
      history := [] }
  consoleNoteg := 0

/-- The handler's entries, with what each of them interrupts. -/
def entries (history : List Happening) : List (Text × Context) :=
  history.filterMap fun
    | .entered note interrupted => some (note, interrupted)
    | _ => none

/-- How a handler starts: the note's text lies at `msgAt`, which is its stack pointer. -/
def handlerFrame (interrupted : TrapFrame) : TrapFrame :=
  let msgAt : Word := (interrupted sp - 128) &&& ~~~15
  update (update (update interrupted a0 msgAt) sp msgAt) ra 0

/-- What the end of a trap does for a process that survives it. -/
structure Heeded (before after : Seat) : Prop where
  /-- No note is left waiting outside of a handler. -/
  waits : after.process.inNote = true ∨ after.process.noteCount = 0
  /-- A handler that is entered runs next. -/
  entered : ∀ happened note interrupted, after.history = before.history ++ happened →
    .entered note interrupted ∈ happened →
    after.process.savedSepc = after.process.noteHandler ∧
      after.process.frame = handlerFrame interrupted.frame

def Quiet (before after : World) : Prop :=
  ∀ slot, entries (after.seats slot).history = entries (before.seats slot).history

section Quiet
variable {world : World} {slot : Nat}

theorem Quiet.trans {before middle after : World} (first : Quiet before middle)
    (second : Quiet middle after) : Quiet before after :=
  fun slot => (second slot).trans (first slot)

theorem Quiet.set (same : entries seat.history = entries (world.seats slot).history) :
    Quiet world (world.set slot seat) := by
  intro other
  by_cases here : other = slot
  · rw [here, set_self, same]
  · rw [set_other here]

end Quiet

def calling (number argument : Word) : TrapFrame :=
  Function.update (Function.update (fun _ => 0) a0 argument) a3 number

def given (result : Word) : Given where
  result := result
  uid := 0
  memory _ := none
  image := none
  child := none
  stackFits := true

def blank : Process where
  pid := 0
  state := .unused
  uid := 0
  noteg := 0
  trap := none
  frame _ := 0
  fp _ := 0
  savedSepc := 0
  notes _ _ := 0
  noteHead := 0
  noteCount := 0
  noteHandler := 0
  inNote := false
  noteIntr := false
  noteSavedIntr := false
  noteResumed := false
  noteFrame _ := 0
  noteSepc := 0
  noteFp _ := 0

/-- ^C cuts a read short; a second one arrives while the handler runs. -/
def keys : List Action :=
  [.create 1 0 true,
    .enter 1 .ecall (calling 62 4096) 100 (fun _ => 0), .finish 1 (given 0),
    .enter 1 .ecall (calling 2 0) 104 (fun _ => 0), .sleep 1, .interruptKey, .bail 1,
    .finish 1 (given (-1)),
    .enter 1 .ecall (calling 1 33) 4096 (fun _ => 1), .interruptKey, .finish 1 (given 0),
    .enter 1 .ecall (calling 63 0) 4100 (fun _ => 1), .finish 1 (given 0)]

end Runs

end Racccoon.Notes
