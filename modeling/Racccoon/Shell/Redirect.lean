import Racccoon.FileServer
import Racccoon.Shell.Words

/-!
The tail of `shell_run_pipeline` (`user/shell_common.c3`): the stages are spawned, what the
last one puts out is pumped to the file of `>` or `>>`, and the stages are joined.
-/

namespace Racccoon.Shell.Redirect

open Racccoon.FileServer Racccoon.Splices

def fsMsgMax : Nat := 8192

variable (file : Option ServedFile)

/-- `fs_write_at`: one message holds at most `FS_MSG_MAX - 108` bytes. -/
def fsWriteAt (data : List Byte) (offset : Nat) (answer : WriteAnswer) : Option ServedFile × Int :=
  serverWriteAt file (data.take (fsMsgMax - 108)) offset answer

def chunkMax : Nat := 512

/-- A read of the pipe that brought bytes, with the server's answer to their write. -/
structure Round where
  chunk : List Byte
  filled : chunk ≠ [] ∧ chunk.length ≤ chunkMax
  answer : WriteAnswer

/-- The loop of the pump, up to the read that brings nothing. The flag is `redir_failed`. -/
def pump : List Round → Option ServedFile → Nat → Option ServedFile × Bool
  | [], file, _ => (file, false)
  | round :: rest, file, off =>
    let (file, w) := fsWriteAt file round.chunk off round.answer
    if w < 0 then (file, true) else pump rest file ((off + w.toNat) % 2 ^ 32)

/-- What the system calls for one stage answer: `pipe_new` for the pipe behind it,
`shell_spawn_stage`, and `join` with the exit status. -/
structure Stage where
  pipe : Int
  pid : Int
  status : Int

/-- A parsed pipeline with `>` or `>>`, and what happens around it. -/
structure Redirection where
  /-- The stages before the last one. -/
  earlier : List Stage
  last : Stage
  /-- What `fs_read` returns for the file of `<`, and the pipe that feeds it in. -/
  infile : Option (Int × Int)
  outPipe : Int
  append : Bool
  old : Option ServedFile
  /-- Whether the server carries out the truncation of `>`, or the `FS_STAT` of `>>`. -/
  prepared : Bool
  rounds : List Round
  /-- What a failed read of the pipe left in it; nothing at its end. -/
  unread : List Byte

/-- The status that is returned, the last stage's own status where it was joined, and the
file afterwards. -/
structure Outcome where
  status : Int
  own : Option Int
  file : Option ServedFile

namespace Redirection
variable (r : Redirection)

def pipesFail : Bool :=
  r.earlier.any (·.pipe < 0) || r.infile.any (·.2 < 0) || r.outPipe < 0

def spawnFails : Bool := r.earlier.any (·.pid < 0) || r.last.pid < 0

def prepare : Option ServedFile × Nat :=
  if r.append then (r.old, if r.prepared then (contentOf r.old).length else 0)
  else (if r.prepared then some ⟨[], by simp⟩ else r.old, 0)

end Redirection

def shellRunPipeline (r : Redirection) : Outcome :=
  if r.infile.any (·.1 < 0) then ⟨2, none, r.old⟩
  else if r.pipesFail then ⟨2, none, r.old⟩
  else if r.spawnFails then ⟨2, none, r.old⟩
  else
    let (file, redirFailed) := pump r.rounds r.prepare.1 r.prepare.2
    ⟨if redirFailed then 3 else r.last.status, some r.last.status, file⟩

/-- The bytes written from a place with `room` up to the last offset. -/
def taken : Nat → List Round → List Byte
  | _, [] => []
  | room, round :: rest =>
    match round.answer with
    | .refuses => []
    | .takes count =>
      let kept := (round.chunk.take count).take room
      kept ++ taken (room - kept.length) rest

variable (rounds : List Round)

def refused : Bool := rounds.any (·.answer = .refuses)

def touched : Bool := rounds.head?.any (·.answer ≠ .refuses)

def Round.takesWhole (round : Round) : Bool :=
  match round.answer with
  | .refuses => false
  | .takes count => round.chunk.length ≤ count

theorem serverWriteAt_takes {file : Option ServedFile} {off : Nat} (data : List Byte)
    (count : Nat) (inside : off ≤ (contentOf file).length) :
    ∃ after : ServedFile, serverWriteAt file data off (.takes count) =
        (some after, (((data.take count).take (fsOffsetAppend - off)).length : Int)) ∧
      after.bytes = splice (contentOf file) off ((data.take count).take (fsOffsetAppend - off)) := by
  have place : (if off = fsOffsetAppend then (contentOf file).length else off) = off := by
    split
    · have := contentOf_le file
      omega
    · rfl
  refine ⟨⟨_, splice_fits _ (contentOf_le file) inside⟩, ?_, rfl⟩
  simp only [serverWriteAt, place, inside, dite_true]

/-- The pump writes what the server takes in one piece, and reports a refusal. -/
theorem pump_spec (file : Option ServedFile) (off : Nat) (inside : off ≤ (contentOf file).length) :
    (pump rounds file off).1.map ServedFile.bytes =
        (if touched rounds then
          some (splice (contentOf file) off (taken (fsOffsetAppend - off) rounds))
        else file.map ServedFile.bytes) ∧
      (pump rounds file off).2 = refused rounds := by
  induction rounds generalizing file off with
  | nil => simp [pump, touched, refused]
  | cons round rest ih =>
    have whole : round.chunk.take (fsMsgMax - 108) = round.chunk := by
      apply List.take_of_length_le
      have := round.filled.2
      simp only [chunkMax, fsMsgMax] at this ⊢
      omega
    cases answered : round.answer with
    | refuses =>
      simp [pump, fsWriteAt, serverWriteAt, answered, touched, refused]
    | takes count =>
      obtain ⟨after, written, bytes⟩ := serverWriteAt_takes round.chunk count inside
      have content : contentOf (some after) = after.bytes := rfl
      generalize keptIs : (round.chunk.take count).take (fsOffsetAppend - off) = kept at *
      have keptFits : kept.length ≤ fsOffsetAppend - off := by
        rw [← keptIs]
        simp only [List.length_take]
        omega
      have limit := contentOf_le file
      have noWrap : (off + kept.length) % 2 ^ 32 = off + kept.length := by
        simp only [fsOffsetAppend] at *
        omega
      have further : off + kept.length ≤ (contentOf (some after)).length := by
        rw [content, bytes, length_splice inside]
        omega
      obtain ⟨stored, reported⟩ := ih (some after) (off + kept.length) further
      have steps : pump (round :: rest) file off =
          pump rest (some after) (off + kept.length) := by
        simp only [pump, fsWriteAt, whole, answered, written]
        rw [if_neg (by omega), Int.toNat_natCast, noWrap]
      have takenIs : taken (fsOffsetAppend - off) (round :: rest) =
          kept ++ taken (fsOffsetAppend - (off + kept.length)) rest := by
        simp only [taken, answered, keptIs, Nat.sub_sub]
      constructor
      · rw [steps, stored, takenIs, content, bytes, splice_splice inside]
        by_cases more : touched rest = true
        · rw [if_pos more, if_pos (by simp [touched, answered])]
        · have nothing : taken (fsOffsetAppend - (off + kept.length)) rest = [] := by
            cases rest with
            | nil => rfl
            | cons next =>
              have : next.answer = .refuses := by simpa [touched] using more
              simp [taken, this]
          rw [if_neg more, if_pos (by simp [touched, answered]), nothing]
          simp [bytes]
      · rw [steps, reported]
        simp [refused, answered]

theorem taken_length_le (room : Nat) (rounds : List Round) :
    (taken room rounds).length ≤ (rounds.flatMap (·.chunk)).length ∧
      (taken room rounds).length ≤ room := by
  induction rounds generalizing room with
  | nil => simp [taken]
  | cons round _ ih =>
    cases answered : round.answer with
    | refuses => simp [taken, answered]
    | takes count =>
      have tail := ih (room - ((round.chunk.take count).take room).length)
      simp only [taken, answered, List.flatMap_cons, List.length_append, List.length_take]
        at tail ⊢
      omega

/-- All of the chunks is taken when every answer takes its whole chunk and there is room. -/
theorem taken_whole_iff (room : Nat) (rounds : List Round) :
    taken room rounds = rounds.flatMap (·.chunk) ↔
      (∀ round ∈ rounds, round.takesWhole = true) ∧
        (rounds.flatMap (·.chunk)).length ≤ room := by
  induction rounds generalizing room with
  | nil => simp [taken]
  | cons round rest ih =>
    cases answered : round.answer with
    | refuses =>
      have filled := round.filled.1
      simp [taken, answered, Round.takesWhole, filled]
    | takes count =>
      have bound := (taken_length_le (room - ((round.chunk.take count).take room).length) rest).1
      simp only [taken, answered, List.flatMap_cons, List.forall_mem_cons, Round.takesWhole,
        decide_eq_true_eq, List.length_append]
      constructor
      · intro same
        have lengths := congrArg List.length same
        simp only [List.length_append, List.length_take] at lengths bound
        have front : (round.chunk.take count).take room = round.chunk := by
          rw [List.take_of_length_le (i := count), List.take_of_length_le] <;> omega
        rw [front] at same
        obtain ⟨answers, fits⟩ := (ih _).1 (List.append_cancel_left same)
        exact ⟨⟨by omega, answers⟩, by omega⟩
      · rintro ⟨⟨all, answers⟩, fits⟩
        have front : (round.chunk.take count).take room = round.chunk := by
          rw [List.take_of_length_le all, List.take_of_length_le]
          omega
        rw [front, (ih _).2 ⟨answers, by omega⟩]

namespace Redirection
variable (r : Redirection)

/-- Everything the last stage puts out. -/
def output : List Byte := r.rounds.flatMap (·.chunk) ++ r.unread

def wanted : Option (List Byte) :=
  if r.append ∧ r.output = [] then r.old.map ServedFile.bytes
  else if r.append then some (contentOf r.old ++ r.output)
  else some r.output

def givesUp : Bool := r.infile.any (·.1 < 0) || r.pipesFail || r.spawnFails

/-- Every read succeeds, every write is taken whole, and the file stays within its size
field; `start` is where the output begins. -/
def Untroubled (start : Nat) : Prop :=
  r.unread = [] ∧ (∀ round ∈ r.rounds, round.takesWhole = true) ∧
    start + r.output.length ≤ fsOffsetAppend

def takenAtZero : List Byte := taken fsOffsetAppend r.rounds

/-- When the file ends up as wanted. Behind a failed truncation the old bytes may happen to
be the ones that are missing; behind a failed stat there must be nothing to keep. -/
def Stored : Prop :=
  match r.append, r.prepared with
  | false, true => r.Untroubled 0
  | false, false =>
    (r.old.isSome ∨ touched r.rounds = true) ∧
      r.takenAtZero <+: r.output ∧
      (contentOf r.old).drop r.takenAtZero.length = r.output.drop r.takenAtZero.length
  | true, true => r.Untroubled (contentOf r.old).length
  | true, false => r.output = [] ∨ contentOf r.old = [] ∧ r.Untroubled 0

/-- When the status tells the truth: nothing was started, the file is as wanted, or a
refused write is reported by a status that is not the stage's own. -/
def Honest : Prop :=
  r.givesUp = true ∨ r.Stored ∨ (refused r.rounds = true ∧ r.last.status ≠ 3)

variable {r}

theorem untroubled_iff {start : Nat} (small : start ≤ fsOffsetAppend) :
    taken (fsOffsetAppend - start) r.rounds = r.output ↔ r.Untroubled start := by
  have bound := (taken_length_le (fsOffsetAppend - start) r.rounds).1
  constructor
  · intro same
    have noneLeft : r.unread = [] := by
      have lengths := congrArg List.length same
      simp only [output, List.length_append] at lengths
      exact List.eq_nil_of_length_eq_zero (by omega)
    have chunks : r.output = r.rounds.flatMap (·.chunk) := by simp [output, noneLeft]
    obtain ⟨answers, fits⟩ := (taken_whole_iff _ _).1 (same.trans chunks)
    exact ⟨noneLeft, answers, by rw [chunks]; omega⟩
  · rintro ⟨noneLeft, answers, fits⟩
    have chunks : r.output = r.rounds.flatMap (·.chunk) := by simp [output, noneLeft]
    rw [chunks] at fits ⊢
    exact (taken_whole_iff _ _).2 ⟨answers, by omega⟩

theorem no_rounds (noOutput : r.output = []) : r.rounds = [] := by
  cases rounds : r.rounds with
  | nil => rfl
  | cons round =>
    have filled := round.filled.1
    simp [output, rounds, filled] at noOutput

theorem taken_untouched (rounds : List Round) (room : Nat)
    (untouched : ¬ touched rounds = true) : taken room rounds = [] := by
  cases rounds with
  | nil => rfl
  | cons round =>
    have : round.answer = .refuses := by simpa [touched] using untouched
    simp [taken, this]

/-- Behind the old bytes the pump ends up as wanted exactly when nothing goes wrong. -/
theorem appended_iff {old : Option ServedFile} {start : Nat}
    (behind : start = (contentOf old).length) :
    (pump r.rounds old start).1.map ServedFile.bytes =
        (if r.output = [] then old.map ServedFile.bytes
        else some (contentOf old ++ r.output)) ↔ r.Untroubled start := by
  have small : start ≤ fsOffsetAppend := behind ▸ contentOf_le old
  rw [(pump_spec r.rounds old start (Nat.le_of_eq behind)).1, ← untroubled_iff small]
  rw [behind, splice_end]
  by_cases noOutput : r.output = []
  · simp [noOutput, no_rounds noOutput, touched, taken]
  · rw [if_neg noOutput]
    by_cases start_taken : touched r.rounds = true
    · simp [start_taken]
    · simp only [start_taken, taken_untouched _ _ start_taken]
      constructor
      · intro same
        exfalso
        cases old with
        | none => simp at same
        | some old =>
          have lengths := congrArg List.length (Option.some.inj same)
          have : r.output.length = 0 := by simpa [contentOf] using lengths
          exact noOutput (List.eq_nil_of_length_eq_zero this)
      · intro nothing
        exact absurd nothing.symm noOutput

theorem overwritten_ne {old : Option ServedFile} (some_output : r.output ≠ [])
    (some_old : contentOf old ≠ []) :
    (pump r.rounds old 0).1.map ServedFile.bytes ≠ some (contentOf old ++ r.output) := by
  intro same
  have there : old.map ServedFile.bytes = some (contentOf old) := by
    cases old with
    | none => exact absurd rfl some_old
    | some old => rfl
  have taken_le := (taken_length_le fsOffsetAppend r.rounds).1
  have more : 0 < r.output.length := List.length_pos_of_ne_nil some_output
  have kept : 0 < (contentOf old).length := List.length_pos_of_ne_nil some_old
  rw [(pump_spec r.rounds old 0 (Nat.zero_le _)).1, there, splice_zero] at same
  split at same
  · have lengths := congrArg List.length (Option.some.inj same)
    simp only [List.length_append, List.length_drop, Nat.sub_zero, output] at lengths more
    omega
  · have lengths := congrArg List.length (Option.some.inj same)
    simp only [List.length_append] at lengths
    omega

theorem stored_iff :
    (pump r.rounds r.prepare.1 r.prepare.2).1.map ServedFile.bytes = r.wanted ↔ r.Stored := by
  cases appending : r.append <;> cases ready : r.prepared
  · -- The truncation failed: the old bytes stay behind what is written over them.
    simp only [prepare, appending, ready, wanted, Stored, Bool.false_eq_true, if_false,
      takenAtZero]
    rw [(pump_spec r.rounds r.old 0 (Nat.zero_le _)).1, splice_zero]
    generalize putIs : taken fsOffsetAppend r.rounds = put at *
    have split_iff : put ++ (contentOf r.old).drop put.length = r.output ↔
        put <+: r.output ∧ (contentOf r.old).drop put.length = r.output.drop put.length := by
      constructor
      · intro same
        exact ⟨⟨_, same⟩, by rw [← same, List.drop_left]⟩
      · rintro ⟨⟨rest, same⟩, behind⟩
        rw [behind, ← same, List.drop_left]
    rw [← split_iff]
    by_cases first : touched r.rounds = true
    · simp [first]
    · have nothing : put = [] := by rw [← putIs]; exact taken_untouched _ _ first
      cases held : r.old with
      | none => simp [first]
      | some old => simp [nothing, contentOf]
  · have ends := @appended_iff r (some ⟨[], by simp⟩) 0 rfl
    have wantedIs : (if r.output = [] then some [] else some r.output) = some r.output := by
      split <;> simp_all
    simpa [prepare, appending, ready, wanted, Stored, contentOf, wantedIs] using ends
  · simp only [prepare, appending, ready, wanted, Stored]
    by_cases noOutput : r.output = []
    · simp [noOutput, no_rounds noOutput, pump]
    · by_cases empty : contentOf r.old = []
      · have ends := @appended_iff r r.old 0 (by simp [empty])
        simpa [noOutput, empty] using ends
      · simpa [noOutput, empty] using overwritten_ne noOutput empty
  · have ends := @appended_iff r r.old _ rfl
    simpa [prepare, appending, ready, wanted, Stored] using ends

end Redirection

def Outcome.StoresOrReports (out : Outcome) (wanted : Option (List Byte)) : Prop :=
  (out.own = some out.status → out.file.map ServedFile.bytes = wanted) ∧
    (out.own ≠ some out.status → out.status ≠ 0)

/-- The status of a redirection vouches for the file exactly when the truncation, the stat,
the reads and the writes go well, apart from old bytes that happen to fit and from refused
writes, which are reported. -/
theorem redirection_honest_iff (r : Redirection) :
    (shellRunPipeline r).StoresOrReports r.wanted ↔ r.Honest := by
  unfold Redirection.Honest
  by_cases gone : r.givesUp = true
  · have early : shellRunPipeline r = ⟨2, none, r.old⟩ := by
      simp only [Redirection.givesUp] at gone
      unfold shellRunPipeline
      split_ifs <;> first | rfl | simp_all
    simp [early, gone, Outcome.StoresOrReports]
  · have pumped : shellRunPipeline r =
        ⟨if (pump r.rounds r.prepare.1 r.prepare.2).2 then 3 else r.last.status,
          some r.last.status, (pump r.rounds r.prepare.1 r.prepare.2).1⟩ := by
      simp only [Redirection.givesUp, Bool.or_eq_true, not_or] at gone
      simp only [shellRunPipeline, gone, if_false, Bool.false_eq_true]
    have inside : r.prepare.2 ≤ (contentOf r.prepare.1).length := by
      unfold Redirection.prepare
      split_ifs <;> simp
    have reported := (pump_spec r.rounds r.prepare.1 r.prepare.2 inside).2
    simp only [pumped, reported, Outcome.StoresOrReports, ← r.stored_iff, gone]
    cases failed : refused r.rounds with
    | false => simp
    | true =>
      by_cases three : r.last.status = 3
      · simp [three]
      · simp [three]

/-- Two bytes of which the server takes the first, and a third one. -/
def shortWrite : Redirection where
  earlier := []
  last := ⟨-1, 5, 0⟩
  infile := none
  outPipe := 0
  append := false
  old := none
  prepared := true
  rounds := [⟨[0x61, 0x62], by decide, .takes 1⟩, ⟨[0x63], by decide, .takes 1⟩]
  unread := []

/-- The second byte is lost, the third one takes its place, and the status is 0. -/
theorem short_write_unreported :
    (shellRunPipeline shortWrite).status = 0 ∧
      (shellRunPipeline shortWrite).file.map ServedFile.bytes = some [0x61, 0x63] ∧
      ¬ (shellRunPipeline shortWrite).StoresOrReports shortWrite.wanted :=
  ⟨rfl, rfl, fun held => absurd (held.1 rfl) (by decide)⟩

end Racccoon.Shell.Redirect
