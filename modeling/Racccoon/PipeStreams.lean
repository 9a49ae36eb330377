import Racccoon.Lib.Ring
import Racccoon.PipeReads

/-!
Pipes as byte streams. A call that finds the pipe full or empty waits in its loop and looks
at the pipe again each time its process runs; SYS_WRITE and SYS_GETCHAR look up the process's
end anew each time. `past` is history: the bytes of a pipe since `pipe_alloc` handed it out.
A write to a pipe without readers is swallowed: its bytes count as accepted, not as kept.
-/

namespace Racccoon.Pipes
open Function (update update_self update_of_ne)

open Run

inductive Waiting where
  | read (rid : Int) (rmax : Nat)
  | getchar
  | write (wid : Int) (bytes : List UInt8)
  | stdout (bytes : List UInt8)

structure Past where
  accepted : List UInt8
  kept : List UInt8
  returned : List UInt8

structure EndOfFile where
  valid : Bool
  count : Nat
  writers : Int

structure Streams where
  kernel : Kernel
  calls : Nat → Option Waiting
  past : Nat → Past
  ends : List EndOfFile

def Past.write (past : Past) (bytes : List UInt8) (swallowed : Bool) : Past :=
  { past with
    accepted := past.accepted ++ bytes
    kept := if swallowed then past.kept else past.kept ++ bytes }

def Past.read (past : Past) (bytes : List UInt8) : Past :=
  { past with returned := past.returned ++ bytes }

variable (s : Streams)

def finish (pid : Nat) : Streams :=
  { s with calls := Function.update s.calls pid none }

def wait (pid : Nat) (note : Bool) (waiting : Waiting) : Streams :=
  if note then finish s pid else { s with calls := Function.update s.calls pid (some waiting) }

def readTurn (pid : Nat) (note : Bool) (rid : Int) (rmax : Nat) (waiting : Waiting) : Streams :=
  let pass := sysPipeRead s.kernel.pipes rid rmax
  if pass.1 ≠ [] then
    finish { s with
      kernel.pipes := pass.2
      past := Function.update s.past rid.toNat ((s.past rid.toNat).read pass.1) } pid
  else
    match (pipeTryGet s.kernel.pipes rid).1 with
    | .eof =>
      let pipe := s.kernel.pipes rid.toNat
      finish { s with
        ends := ⟨pipeValid s.kernel.pipes rid, pipe.count, pipe.writers⟩ :: s.ends } pid
    | _ => wait s pid note waiting

def writeTurn (pid : Nat) (note : Bool) (wid : Int) (bytes : List UInt8)
    (waiting : List UInt8 → Waiting) : Streams :=
  let pass := sysPipeWrite s.kernel.pipes wid bytes
  let done := bytes.take (bytes.length - pass.1.length)
  let written : Streams := { s with
    kernel.pipes := pass.2
    past := if pipeValid s.kernel.pipes wid then
        Function.update s.past wid.toNat ((s.past wid.toNat).write done
          (decide ((s.kernel.pipes wid.toNat).readers = 0)))
      else s.past }
  if pass.1 = [] then finish written pid else wait written pid note (waiting pass.1)

/-- A turn of a call; `note`: a note is deliverable if the pass does not end it. Without an
end of its own a process writes to the console. -/
def turn (pid : Nat) (note : Bool) : Waiting → Streams
  | .read rid rmax => readTurn s pid note rid rmax (.read rid rmax)
  | .getchar => readTurn s pid note (s.kernel.procs pid).stdinPipe 1 .getchar
  | .write wid bytes => writeTurn s pid note wid bytes (.write wid)
  | .stdout bytes =>
    if (s.kernel.procs pid).stdoutPipe < 0 then finish s pid
    else writeTurn s pid note (s.kernel.procs pid).stdoutPipe bytes .stdout

/-- What a call asks for once its arguments are checked. SYS_PUTCHAR is a SYS_WRITE of one
byte, and a SYS_GETCHAR without a pipe reads the console. -/
def admitted (pid : Nat) : Waiting → Bool
  | .read rid _ => pipeValid s.kernel.pipes rid
  | .getchar => decide (0 ≤ (s.kernel.procs pid).stdinPipe)
  | .write wid _ => pipeValid s.kernel.pipes wid
  | .stdout _ => true

inductive Event where
  | call (pid : Nat) (request : Waiting) (note : Bool)
  | resume (pid : Nat) (note : Bool)
  | other (action : Action)

def traffic : Action → Bool
  | .read .. | .write .. => true
  | _ => false

variable (procsMax : Nat)

/-- The calls that move ends. A pipe that is handed out has no past, and a dead process
waits for nothing. -/
def otherCall (s : Streams) (action : Action) : Option Streams :=
  if traffic action || (action.caller.bind s.calls).isSome then none
  else (step procsMax s.kernel action).map fun kernel =>
    { s with
      kernel := kernel
      calls := fun pid => if (kernel.procs pid).live then s.calls pid else none
      past := match action with
        | .pipe _ =>
          if 0 ≤ (pipeAlloc s.kernel.pipes).1 then
            Function.update s.past (pipeAlloc s.kernel.pipes).1.toNat ⟨[], [], []⟩
          else s.past
        | _ => s.past }

def streamStep (s : Streams) : Event → Option Streams
  | .call pid request note =>
    if (s.kernel.procs pid).live && (s.calls pid).isNone then
      some (if admitted s pid request then turn s pid note request else s)
    else none
  | .resume pid note =>
    if (s.kernel.procs pid).live then (s.calls pid).map (turn s pid note) else none
  | .other action => otherCall procsMax s action

def quiet : Streams := ⟨boot, fun _ => none, fun _ => ⟨[], [], []⟩, []⟩

def buffered (pipe : Pipe) : List UInt8 := Ring.read pipeBuf pipe.data pipe.head pipe.count

structure Flowing (pipe : Pipe) (past : Past) : Prop where
  placed : pipe.head < pipeBuf
  bounded : pipe.count ≤ pipeBuf
  stream : past.returned ++ buffered pipe = past.kept

theorem buffered_cons {pipe : Pipe} (placed : pipe.head < pipeBuf) (filled : 0 < pipe.count) :
    buffered pipe = pipe.data pipe.head ::
      buffered { pipe with head := (pipe.head + 1) % pipeBuf, count := pipe.count - 1 } := by
  simp only [buffered, Ring.read_drop]
  cases count : pipe.count with
  | zero => omega
  | succ left => simp [Ring.read, List.range_succ_eq_map, Nat.mod_eq_of_lt placed]

theorem buffered_snoc {pipe : Pipe} (room : pipe.count < pipeBuf) (byte : UInt8) :
    buffered { pipe with
      data := update pipe.data ((pipe.head + pipe.count) % pipeBuf) byte
      count := pipe.count + 1 } = buffered pipe ++ [byte] := by
  simp only [buffered, Ring.read_succ, update_self]
  rw [Ring.read_update (Nat.le_refl _) (by omega)]

variable {pipes : Nat → Pipe} {past : Nat → Past}

theorem afterGet_flowing {rid : Int} (filled : Filled pipes rid)
    (flowing : ∀ id, Flowing (pipes id) (past id)) (id : Nat) :
    Flowing (afterGet pipes rid id)
      (update past rid.toNat
        ((past rid.toNat).read [(pipes rid.toNat).data (pipes rid.toNat).head]) id) := by
  by_cases here : id = rid.toNat
  · subst here
    have before := flowing rid.toNat
    simp only [afterGet, update_self]
    refine ⟨Nat.mod_lt _ (by decide), (Nat.sub_le _ _).trans before.bounded, ?_⟩
    have stream := before.stream
    rw [buffered_cons before.placed filled.2] at stream
    simpa [Past.read] using stream
  · simpa only [afterGet, update_of_ne here] using flowing id

theorem Past.read_read (past : Past) (first second : List UInt8) :
    (past.read first).read second = past.read (first ++ second) := by
  simp [Past.read]

/-- A pass of a read returns what it takes out of the ring. -/
theorem readPass_flowing (rid : Int) (more : Nat) (flowing : ∀ id, Flowing (pipes id) (past id))
    (id : Nat) :
    Flowing ((readPass pipes rid more).2 id)
      (update past rid.toNat
        ((past rid.toNat).read (readPass pipes rid more).1) id) := by
  induction more generalizing pipes past with
  | zero =>
    by_cases filled : Filled pipes rid
    · rw [readPass_zero filled]
      exact afterGet_flowing filled flowing id
    · simpa [readPass_empty filled, Past.read] using flowing id
  | succ more ih =>
    by_cases filled : Filled pipes rid
    · rw [readPass_succ filled]
      have rest := ih (afterGet_flowing filled flowing)
      simpa [Past.read_read] using rest
    · simpa [readPass_empty filled, Past.read] using flowing id

/-- The put found room, or the pipe swallows what it is given. -/
theorem pipeTryPut_cases (pipes : Nat → Pipe) (wid : Int) (byte : UInt8) :
    (pipeValid pipes wid = true ∧ (pipes wid.toNat).readers ≠ 0 ∧
      ((pipeTryPut pipes wid byte = (false, pipes)) ∨
        ((pipes wid.toNat).count < pipeBuf ∧ pipeTryPut pipes wid byte =
          (true, update pipes wid.toNat { pipes wid.toNat with
            data := update (pipes wid.toNat).data
              (((pipes wid.toNat).head + (pipes wid.toNat).count) % pipeBuf) byte
            count := (pipes wid.toNat).count + 1 })))) ∨
    ((pipeValid pipes wid = false ∨ (pipes wid.toNat).readers = 0) ∧
      pipeTryPut pipes wid byte = (true, pipes)) := by
  cases valid : pipeValid pipes wid with
  | false => exact .inr ⟨.inl rfl, by simp [pipeTryPut, valid]⟩
  | true =>
    by_cases alone : (pipes wid.toNat).readers = 0
    · exact .inr ⟨.inr alone, by simp [pipeTryPut, alone]⟩
    · refine .inl ⟨rfl, alone, ?_⟩
      by_cases full : pipeBuf ≤ (pipes wid.toNat).count
      · exact .inl (by simp [pipeTryPut, valid, alone, full])
      · exact .inr ⟨by omega, by simp [pipeTryPut, valid, alone, full]⟩

theorem Past.write_write (past : Past) (first second : List UInt8) (swallowed : Bool) :
    (past.write first swallowed).write second swallowed =
      past.write (first ++ second) swallowed := by
  cases swallowed <;> simp [Past.write]

theorem Flowing.swallow {pipe : Pipe} {past : Past} (flowing : Flowing pipe past)
    (bytes : List UInt8) : Flowing pipe (past.write bytes true) :=
  ⟨flowing.placed, flowing.bounded, flowing.stream⟩

theorem Flowing.put {pipe : Pipe} {past : Past} (flowing : Flowing pipe past)
    (room : pipe.count < pipeBuf) (byte : UInt8) :
    Flowing { pipe with
      data := update pipe.data ((pipe.head + pipe.count) % pipeBuf) byte
      count := pipe.count + 1 } (past.write [byte] false) := by
  refine ⟨flowing.placed, room, ?_⟩
  rw [buffered_snoc room byte]
  simp [Past.write, ← flowing.stream]

/-- What a pass of a write has done: a part of the bytes stands behind what was buffered, or
the pipe is as it was. -/
theorem sysPipeWrite_flowing (wid : Int) (bytes : List UInt8)
    (flowing : ∀ id, Flowing (pipes id) (past id)) :
    ∃ done, bytes = done ++ (sysPipeWrite pipes wid bytes).1 ∧ ∀ id,
      Flowing ((sysPipeWrite pipes wid bytes).2 id)
        (if pipeValid pipes wid then
          update past wid.toNat ((past wid.toNat).write done
            (decide ((pipes wid.toNat).readers = 0))) id
        else past id) := by
  have still : update past wid.toNat ((past wid.toNat).write []
      (decide ((pipes wid.toNat).readers = 0))) = past := by
    simp [Past.write]
  induction bytes generalizing pipes past with
  | nil => exact ⟨[], rfl, fun id => by simpa [still, sysPipeWrite] using flowing id⟩
  | cons byte rest ih =>
    rw [sysPipeWrite]
    rcases pipeTryPut_cases pipes wid byte with ⟨valid, open_, full | ⟨room, put⟩⟩ | ⟨gone, put⟩
    · rw [full]
      exact ⟨[], rfl, fun id => by simpa [still] using flowing id⟩
    · rw [put]
      generalize moved : update pipes wid.toNat { pipes wid.toNat with
        data := update (pipes wid.toNat).data
          (((pipes wid.toNat).head + (pipes wid.toNat).count) % pipeBuf) byte
        count := (pipes wid.toNat).count + 1 } = after
      have valid' : pipeValid after wid = true := by simpa [← moved, pipeValid] using valid
      have open' : (after wid.toNat).readers ≠ 0 := by simpa [← moved] using open_
      have stepped : ∀ id, Flowing (after id)
          (update past wid.toNat ((past wid.toNat).write [byte] false) id) := by
        intro id
        by_cases here : id = wid.toNat
        · subst here
          simpa [← moved] using (flowing wid.toNat).put room byte
        · simpa only [← moved, update_of_ne here] using flowing id
      obtain ⟨done, split, rest_⟩ := ih stepped (by simp [Past.write])
      refine ⟨byte :: done, by rw [List.cons_append, ← split], fun id => ?_⟩
      have final := rest_ id
      rw [if_pos valid'] at final
      rw [if_pos valid]
      simpa [open', open_, Past.write_write] using final
    · rw [put]
      cases valid : pipeValid pipes wid with
      | false =>
        obtain ⟨done, split, rest_⟩ := ih flowing still
        refine ⟨byte :: done, by rw [List.cons_append, ← split], fun id => ?_⟩
        simpa [valid] using rest_ id
      | true =>
        have alone := gone.resolve_left (by simp [valid])
        have stepped : ∀ id, Flowing (pipes id)
            (update past wid.toNat ((past wid.toNat).write [byte] true) id) := by
          intro id
          by_cases here : id = wid.toNat
          · subst here
            simpa using (flowing wid.toNat).swallow [byte]
          · simpa only [update_of_ne here] using flowing id
        obtain ⟨done, split, rest_⟩ := ih stepped (by simp [Past.write])
        refine ⟨byte :: done, by rw [List.cons_append, ← split], fun id => ?_⟩
        simpa [valid, alone, Past.write_write] using rest_ id

def SameRing (before after : Pipe) : Prop :=
  after.data = before.data ∧ after.head = before.head ∧ after.count = before.count

theorem SameRing.refl (pipe : Pipe) : SameRing pipe pipe := ⟨rfl, rfl, rfl⟩

theorem SameRing.trans {first second third : Pipe} (one : SameRing first second)
    (two : SameRing second third) : SameRing first third :=
  ⟨two.1.trans one.1, two.2.1.trans one.2.1, two.2.2.trans one.2.2⟩

theorem Flowing.same {before after : Pipe} {past : Past} (flowing : Flowing before past)
    (same : SameRing before after) : Flowing after past := by
  obtain ⟨data, head, count⟩ := same
  refine ⟨head ▸ flowing.placed, count ▸ flowing.bounded, ?_⟩
  rw [← flowing.stream, buffered, buffered, data, head, count]

def SameRings (before after : Nat → Pipe) : Prop := ∀ id, SameRing (before id) (after id)

theorem SameRings.refl (pipes : Nat → Pipe) : SameRings pipes pipes := fun id => .refl (pipes id)

theorem SameRings.trans {first second third : Nat → Pipe} (one : SameRings first second)
    (two : SameRings second third) : SameRings first third := fun id => (one id).trans (two id)

theorem sameRings_update {slot : Nat} {pipe : Pipe} (same : SameRing (pipes slot) pipe) :
    SameRings pipes (update pipes slot pipe) := by
  intro id
  by_cases here : id = slot
  · subst here
    simpa using same
  · simpa only [update_of_ne here] using .refl (pipes id)

theorem setRefs_ring (pipe : Pipe) (asWriter : Bool) (value : Int) :
    SameRing pipe (pipe.setRefs asWriter value) := by
  cases asWriter <;> exact ⟨rfl, rfl, rfl⟩

theorem pipeAttach_rings (id : Int) (asWriter : Bool) :
    SameRings pipes (pipeAttach pipes id asWriter) :=
  sameRings_update (setRefs_ring _ _ _)

theorem pipeDetach_rings (id : Int) (asWriter : Bool) :
    SameRings pipes (pipeDetach pipes id asWriter) := by
  have idle : ∀ pipes, SameRings pipes (pipeFreeIfIdle pipes id) := by
    intro pipes
    unfold pipeFreeIfIdle
    split
    · exact sameRings_update ⟨rfl, rfl, rfl⟩
    · exact .refl pipes
  unfold pipeDetach
  split
  · exact .refl pipes
  · refine SameRings.trans ?_ (idle _)
    split
    · exact sameRings_update (setRefs_ring _ _ _)
    · exact .refl pipes

variable (kernel : Kernel)

theorem sysPipeSetEnd_rings (current : Nat) (spid spipe : Int) (asWriter : Bool) :
    SameRings kernel.pipes
      (sysPipeSetEnd procsMax kernel current spid spipe asWriter).2.pipes := by
  unfold sysPipeSetEnd
  split
  · exact .refl _
  · split
    · exact .refl _
    · simp only
      split
      · refine SameRings.trans ?_ (pipeAttach_rings spipe asWriter)
        split
        · exact pipeDetach_rings _ _
        · exact .refl _
      · split
        · exact pipeDetach_rings _ _
        · exact .refl _

theorem sysPipeHold_rings (hid : Int) (asWriter : Bool) (delta : Int) :
    SameRings kernel.pipes (sysPipeHold kernel hid asWriter delta).2.pipes := by
  unfold sysPipeHold
  split
  · exact .refl _
  · split
    · exact pipeAttach_rings hid asWriter
    · exact pipeDetach_rings hid asWriter

theorem dropEnd_rings (pid : Nat) (asWriter : Bool) :
    SameRings kernel.pipes (dropEnd kernel pid asWriter).pipes := by
  unfold dropEnd
  simp only
  split
  · exact pipeDetach_rings _ _
  · exact .refl _

theorem procDestroy_rings (pid : Nat) : SameRings kernel.pipes (procDestroy kernel pid).pipes :=
  (dropEnd_rings kernel pid true).trans (dropEnd_rings _ pid false)

theorem inheritEnd_rings (parent child : Nat) (rfmem : Bool)
    (explicitPipe : Int) (asWriter : Bool) :
    SameRings kernel.pipes
      (inheritEnd kernel parent child rfmem explicitPipe asWriter).pipes := by
  unfold inheritEnd
  simp only
  split
  · exact pipeAttach_rings _ _
  · exact .refl _

theorem sysRfork_rings (parent : Nat) (rfmem : Bool) (outPipe inPipe : Int) :
    SameRings kernel.pipes (sysRfork procsMax kernel parent rfmem outPipe inPipe).2.pipes := by
  unfold sysRfork
  split
  · exact .refl _
  · next child _ =>
      let claimed := { kernel with procs := update kernel.procs child (bornProc parent) }
      exact (inheritEnd_rings claimed parent child rfmem outPipe true).trans
        (inheritEnd_rings _ parent child rfmem inPipe false)

theorem perform_rings (action : Action)
    (moves : traffic action = false) (makes : ∀ caller, action ≠ .pipe caller) :
    SameRings kernel.pipes (perform procsMax kernel action).pipes := by
  cases action with
  | create =>
    simp only [perform, createProcess]
    split <;> exact .refl _
  | pipe caller => exact absurd rfl (makes caller)
  | setEnd caller spid spipe asWriter => exact sysPipeSetEnd_rings procsMax kernel caller spid spipe asWriter
  | hold _ hid asWriter delta => exact sysPipeHold_rings kernel hid asWriter delta
  | read => cases moves
  | write => cases moves
  | rfork caller rfmem outPipe inPipe =>
    exact sysRfork_rings procsMax kernel caller rfmem outPipe inPipe
  | exec => exact .refl _
  | exit caller => exact procDestroy_rings kernel caller
  | kill caller target =>
    simp only [perform]
    split
    · exact .refl _
    · split
      · exact .refl _
      · exact procDestroy_rings kernel _

theorem flowing_empty {pipe : Pipe} (head : pipe.head = 0) (count : pipe.count = 0) :
    Flowing pipe ⟨[], [], []⟩ := by
  refine ⟨?_, by simp [count], by simp [buffered, count, Ring.read]⟩
  rw [head]
  decide

/-- A pipe that is handed out is empty, and so is its past. -/
theorem pipeAlloc_flowing (flowing : ∀ id, Flowing (pipes id) (past id)) (id : Nat) :
    Flowing ((pipeAlloc pipes).2 id)
      (if 0 ≤ (pipeAlloc pipes).1 then
        update past (pipeAlloc pipes).1.toNat ⟨[], [], []⟩ id else past id) := by
  unfold pipeAlloc
  split
  · simpa using flowing id
  · next slot _ =>
      simp only [Int.natCast_nonneg, ↓reduceIte, Int.toNat_natCast]
      by_cases here : id = slot
      · subst here
        simp only [update_self]
        exact flowing_empty rfl rfl
      · simpa only [update_of_ne here] using flowing id

structure Sound (s : Streams) : Prop where
  flowing : ∀ id, Flowing (s.kernel.pipes id) (s.past id)
  ends : ∀ told ∈ s.ends, told.valid = false ∨ (told.count = 0 ∧ told.writers = 0)

variable {s : Streams}

section
variable (sound : Sound s) (pid : Nat)
include sound pid

theorem Sound.finish : Sound (finish s pid) :=
  ⟨sound.flowing, sound.ends⟩

theorem Sound.wait (note : Bool) (waiting : Waiting) : Sound (wait s pid note waiting) := by
  unfold Pipes.wait
  split
  · exact sound.finish pid
  · exact ⟨sound.flowing, sound.ends⟩

theorem Sound.readTurn (note : Bool) (rid : Int) (rmax : Nat) (waiting : Waiting) :
    Sound (readTurn s pid note rid rmax waiting) := by
  unfold Pipes.readTurn
  simp only
  split
  · exact ⟨readPass_flowing rid (rmax - 1) sound.flowing, sound.ends⟩
  · split
    · next eof =>
        refine ⟨sound.flowing, ?_⟩
        rintro told (_ | ⟨_, old⟩)
        · exact (pipeTryGet_eof_iff _ _).mp eof
        · exact sound.ends told old
    · exact sound.wait pid note waiting

theorem Sound.writeTurn (note : Bool) (wid : Int) (bytes : List UInt8)
    (waiting : List UInt8 → Waiting) : Sound (writeTurn s pid note wid bytes waiting) := by
  obtain ⟨done, split_, flowing⟩ := sysPipeWrite_flowing wid bytes sound.flowing
  have taken : bytes.take (bytes.length -
      (sysPipeWrite s.kernel.pipes wid bytes).1.length) = done := by
    generalize (sysPipeWrite s.kernel.pipes wid bytes).1 = rest at split_
    subst split_
    simp
  unfold Pipes.writeTurn
  simp only [taken]
  have written : Sound { s with
      kernel.pipes := (sysPipeWrite s.kernel.pipes wid bytes).2
      past := if pipeValid s.kernel.pipes wid then
          update s.past wid.toNat ((s.past wid.toNat).write done
            (decide ((s.kernel.pipes wid.toNat).readers = 0)))
        else s.past } := by
    refine ⟨fun id => ?_, sound.ends⟩
    have here := flowing id
    split at here
    · next valid => rwa [if_pos valid]
    · next gone => rwa [if_neg gone]
  split
  · exact written.finish pid
  · exact written.wait pid note _

theorem Sound.turn (note : Bool) (request : Waiting) : Sound (turn s pid note request) := by
  cases request with
  | read rid rmax => exact sound.readTurn pid note rid rmax _
  | getchar => exact sound.readTurn pid note _ 1 _
  | write wid bytes => exact sound.writeTurn pid note wid bytes _
  | stdout bytes =>
    simp only [Pipes.turn]
    split
    · exact sound.finish pid
    · exact sound.writeTurn pid note _ bytes _

end

theorem Sound.otherCall {procsMax : Nat} {after : Streams} {action : Action} (sound : Sound s)
    (stepped : otherCall procsMax s action = some after) : Sound after := by
  unfold Pipes.otherCall at stepped
  split at stepped
  · cases stepped
  · next free =>
      obtain ⟨kernel, moved, rfl⟩ := Option.map_eq_some_iff.mp stepped
      have performed : kernel = perform procsMax s.kernel action := by
        unfold step at moved
        split at moved
        · exact (Option.some.inj moved).symm
        · cases moved
      refine ⟨fun id => ?_, sound.ends⟩
      by_cases makes : ∃ caller, action = .pipe caller
      · obtain ⟨caller, rfl⟩ := makes
        have made := pipeAlloc_flowing sound.flowing id
        simp only [performed]
        split at made
        · next taken => rwa [if_pos taken]
        · next full => rwa [if_neg full]
      · rw [Bool.or_eq_true, not_or] at free
        have still := perform_rings procsMax s.kernel action (by simpa using free.1)
          fun caller is => makes ⟨caller, is⟩
        have kept := (sound.flowing id).same (still id)
        cases action <;> first | exact performed ▸ kept | exact absurd ⟨_, rfl⟩ makes

theorem Sound.step {procsMax : Nat} {after : Streams} {event : Event} (sound : Sound s)
    (stepped : streamStep procsMax s event = some after) : Sound after := by
  cases event with
  | call pid request note =>
    simp only [streamStep] at stepped
    split at stepped
    · cases stepped
      split
      · exact sound.turn pid note request
      · exact sound
    · cases stepped
  | resume pid note =>
    simp only [streamStep] at stepped
    split at stepped
    · obtain ⟨waiting, -, rfl⟩ := Option.map_eq_some_iff.mp stepped
      exact sound.turn pid note waiting
    · cases stepped
  | other action => exact sound.otherCall stepped

/-- What was accepted while there was a reader comes out in order, once and with nothing left
out; a reader is told the end of a pipe that is gone, or empty without a writer. -/
structure Lossless (s : Streams) : Prop where
  stream : ∀ id, (s.past id).returned <+: (s.past id).kept
  nothingLost : ∀ id,
    (s.past id).returned ++ buffered (s.kernel.pipes id) = (s.past id).kept
  bounded : ∀ id, (s.kernel.pipes id).count ≤ pipeBuf
  ends : ∀ told ∈ s.ends, told.valid = false ∨ (told.count = 0 ∧ told.writers = 0)

/-- For every interleaving of calls, turns and moves of the ends. -/
theorem pipes_lossless (procsMax : Nat) (s : Streams)
    (run : Reach (streamStep procsMax) (fun _ _ => True) quiet s) : Lossless s := by
  have sound : Sound s := by
    refine run.invariant Sound ⟨fun id => flowing_empty rfl rfl, nofun⟩ ?_
    exact fun _ _ _ sound _ stepped => sound.step stepped
  exact {
    stream := fun id => ⟨_, (sound.flowing id).stream⟩
    nothingLost := fun id => (sound.flowing id).stream
    bounded := fun id => (sound.flowing id).bounded
    ends := sound.ends }

/-- A reader comes back after a byte was swallowed. -/
def rejoined : Streams :=
  outcome (streamStep 64) (fun _ _ => True) quiet
    [.other .create, .other (.pipe 1), .other (.hold 1 0 true 1), .other (.hold 1 0 false 1),
      .call 1 (.write 0 [97]) false, .call 1 (.read 0 4) false, .other (.hold 1 0 false (-1)),
      .call 1 (.write 0 [98]) false, .other (.hold 1 0 false 1),
      .call 1 (.write 0 [99]) false, .call 1 (.read 0 4) false]

theorem rejoined_reach : Reach (streamStep 64) (fun _ _ => True) quiet rejoined :=
  outcome_reach _ _ (by decide)

theorem pipes_lossless_rejoined : Lossless rejoined ∧ (rejoined.past 0).returned = [97, 99] :=
  ⟨pipes_lossless 64 rejoined rejoined_reach, by decide⟩

/-- All three writes were accepted, and the second byte never comes out. -/
theorem swallowed_byte_missing :
    Reach (streamStep 64) (fun _ _ => True) quiet rejoined ∧
      (rejoined.past 0).accepted = [97, 98, 99] ∧
      ¬ (rejoined.past 0).returned <+: (rejoined.past 0).accepted :=
  ⟨rejoined_reach, by decide, by decide⟩

end Racccoon.Pipes
