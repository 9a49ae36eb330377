import Mathlib.Algebra.Group.Int.Defs
import Racccoon.Libc.StreamLaw

/-!
Each call of a stream against the stream without a buffer, and any sequence of calls up to
`fclose` or `exit`.
-/

namespace Racccoon.Libc

open Racccoon.Run Racccoon.FileServer Racccoon.Splices

variable {f : Stream} {m : Plain} {server : Server}

theorem Plain.fgetc_cases (m : Plain) :
    (m.unread = [] ∧ m.fgetc = (m, none)) ∨
      ∃ c rest, m.unread = c :: rest ∧ m.fgetc = (m.advance 1, some c) ∧
        (m.advance 1).unread = rest := by
  cases unread : m.unread with
  | nil => exact .inl ⟨rfl, by rw [Plain.fgetc, unread]⟩
  | cons c rest =>
    refine .inr ⟨c, rest, rfl, by rw [Plain.fgetc, unread], ?_⟩
    unfold Plain.unread Plain.advance at *
    cases pushed : m.pushed with
    | some =>
      rw [pushed] at unread
      simpa using (List.cons.inj unread).2
    | none =>
      rw [pushed] at unread
      have next : m.content.drop m.place = c :: rest := unread
      have behind : m.content.drop (m.place + 1) = rest := by
        rw [← List.drop_drop, next]
        rfl
      simpa using behind

theorem Plain.advance_advance (m : Plain) (count : Nat) :
    (m.advance 1).advance count = m.advance (count + 1) := by
  unfold Plain.advance
  by_cases zero : count = 0
  · simp [zero]
  · cases pushed : m.pushed with
    | none =>
      simp [zero]
      omega
    | some => simp [zero]

theorem ungetc_related (related : Related f m) (c : Option Byte) :
    Alike (f.ungetc c) (m.ungetc c) := by
  cases c with
  | none => exact ⟨rfl, related⟩
  | some c =>
    cases pushed : f.ungot with
    | some =>
      simp only [Stream.ungetc, Plain.ungetc, related.pushed, pushed]
      exact ⟨rfl, related⟩
    | none =>
      simp only [Stream.ungetc, Plain.ungetc, related.pushed, pushed]
      have back := related.repushed (some c)
      exact ⟨rfl, back.below, back.pushed,
        back.state.imp
          (fun reading => ⟨reading.wlen, reading.front, reading.room, reading.content,
            reading.off, reading.ahead, reading.whole, reading.place⟩)
          (fun writing => ⟨writing.behind, writing.room, writing.nothing, writing.off,
            writing.inside, writing.content, writing.place⟩),
        back.unbuffered, fun inMem => ⟨(back.mem inMem).buffered, (back.mem inMem).nothing,
          (back.mem inMem).off, (back.mem inMem).place⟩⟩

section
variable (related : Related f m) (takes : ∀ off, 0 < server.accept off)
include related takes

theorem freadLoop_related (missing : Nat) :
    (Stream.freadLoop server missing f).2 = m.unread.take missing ∧
      Related (Stream.freadLoop server missing f).1 (m.advance (m.unread.take missing).length) := by
  induction missing generalizing f m with
  | zero => exact ⟨rfl, by simpa [Stream.freadLoop, Plain.advance] using related⟩
  | succ _ ih =>
    obtain ⟨same, still⟩ := fgetc_related related takes
    unfold Stream.freadLoop
    rcases m.fgetc_cases with ⟨unread, plain⟩ | ⟨c, rest, unread, plain, behind⟩
    · rw [plain] at same still
      cases got : f.fgetc server with
      | mk g c =>
        rw [got] at same still
        obtain rfl : c = none := same
        rw [unread]
        exact ⟨rfl, by simpa [Plain.advance] using still⟩
    · rw [plain] at same still
      cases got : f.fgetc server with
      | mk g c' =>
        rw [got] at same still
        obtain rfl : c' = some c := same
        obtain ⟨bytes, further⟩ := @ih g (m.advance 1) still
        rw [behind] at bytes further
        rw [unread, List.take_succ_cons, List.length_cons, ← Plain.advance_advance]
        exact ⟨by simp only [bytes], further⟩

theorem fread_related (size nmemb : Nat) : Alike (f.fread server size nmemb) (m.fread size nmemb) := by
  unfold Stream.fread Plain.fread
  by_cases nothing : size = 0 ∨ nmemb = 0
  · have zero : size * nmemb = 0 := Nat.mul_eq_zero.2 nothing
    rw [if_pos nothing, zero]
    refine ⟨?_, by simpa [Plain.advance] using related⟩
    simp
  · obtain ⟨bytes, further⟩ := freadLoop_related related takes (size * nmemb)
    have some_size : size ≠ 0 := fun zero => nothing (.inl zero)
    rw [if_neg nothing]
    dsimp only
    rw [if_neg some_size]
    exact ⟨by simp only [bytes], further⟩

theorem fgetsLoop_related (room : Nat) :
    (Stream.fgetsLoop server room f).2 = Plain.lineOf (m.unread.take room) ∧
      Related (Stream.fgetsLoop server room f).1
        (m.advance (Plain.lineOf (m.unread.take room)).length) := by
  induction room generalizing f m with
  | zero => exact ⟨rfl, by simpa [Stream.fgetsLoop, Plain.advance, Plain.lineOf] using related⟩
  | succ room ih =>
    obtain ⟨same, still⟩ := fgetc_related related takes
    unfold Stream.fgetsLoop
    rcases m.fgetc_cases with ⟨unread, plain⟩ | ⟨c, rest, unread, plain, behind⟩
    · rw [plain] at same still
      cases got : f.fgetc server with
      | mk g c =>
        rw [got] at same still
        obtain rfl : c = none := same
        rw [unread]
        exact ⟨rfl, by simpa [Plain.advance, Plain.lineOf] using still⟩
    · rw [plain] at same still
      cases got : f.fgetc server with
      | mk g c' =>
        rw [got] at same still
        obtain rfl : c' = some c := same
        rw [unread, List.take_succ_cons, Plain.lineOf]
        dsimp only
        by_cases ends : c = newline
        · rw [if_pos ends, if_pos ends]
          exact ⟨rfl, still⟩
        · obtain ⟨line, further⟩ := @ih g (m.advance 1) still
          rw [behind] at line further
          rw [if_neg ends, if_neg ends, List.length_cons, ← Plain.advance_advance]
          exact ⟨by simp only [line], further⟩

theorem fgets_related (n : Int) : Alike (f.fgets server n) (m.fgets n) := by
  unfold Stream.fgets Plain.fgets
  by_cases no_room : n ≤ 0
  · rw [if_pos no_room, if_pos no_room]
    exact ⟨rfl, related⟩
  · obtain ⟨line, further⟩ := fgetsLoop_related related takes (n - 1).toNat
    rw [if_neg no_room, if_neg no_room]
    exact ⟨by simp only [line], further⟩

end
/-- No byte has been read since the stream was last positioned or at its end, and the position
is not behind the end of the file. -/
def Puttable (f : Stream) (m : Plain) : Prop :=
  f.rlen = 0 ∧ f.ungot = none ∧ m.place ≤ m.content.length

theorem take_set_succ {buf : List Byte} {place : Nat} (c : Byte) (inside : place < buf.length) :
    (buf.set place c).take (place + 1) = buf.take place ++ [c] := by
  have there : place < (buf.set place c).length := by rwa [List.length_set]
  rw [List.take_succ_eq_append_getElem there, List.getElem_set_self,
    List.take_set_of_le (Nat.le_refl place)]

theorem Plain.put_length {data : List Byte} (inside : m.place ≤ m.content.length) :
    (m.put data).place ≤ (m.put data).content.length ∧
      (m.place = m.content.length → (m.put data).place = (m.put data).content.length) := by
  have length : (m.put data).content.length = max m.content.length (m.place + data.length) :=
    length_splice inside
  have place : (m.put data).place = m.place + data.length := rfl
  constructor
  · omega
  · omega

theorem buffered_writing (related : Related f m) (puts : Puttable f m) (c : Byte) :
    Writing { f with buf := f.buf.set f.wlen c, wlen := f.wlen + 1 } (m.put [c]) := by
  obtain ⟨empty, -, inside⟩ := puts
  have pending : (f.buf.set f.wlen c).take (f.wlen + 1) = f.pending ++ [c] :=
    take_set_succ c related.below
  have room : f.wlen + 1 ≤ (f.buf.set f.wlen c).length := by
    rw [List.length_set]
    exact related.below
  rcases related.state with reading | writing
  · have start : f.rpos = 0 := by
      have := reading.front
      omega
    have place : m.place = f.pos := by rw [reading.place, start, Nat.add_zero]
    have none_pending : f.pending = [] := by rw [Stream.pending, reading.wlen, List.take_zero]
    refine ⟨Nat.succ_pos _, room, ⟨start, empty⟩, ?_, ?_, ?_, ?_⟩
    · rw [reading.off, empty, Nat.add_zero]
    · rw [reading.content, ← place]
      exact inside
    · change splice m.content m.place [c] = splice f.under.content f.pos _
      rw [Stream.pending, pending, none_pending, reading.content, place, List.nil_append]
    · change m.place + 1 = f.pos + (f.wlen + 1)
      rw [place, reading.wlen]
  · have pendingLength : f.pending.length = f.wlen := by
      rw [Stream.pending, List.length_take]
      exact Nat.min_eq_left writing.room
    refine ⟨Nat.succ_pos _, room, writing.nothing, writing.off, writing.inside, ?_, ?_⟩
    · have two := @splice_splice Byte f.under.content f.pending [c] f.pos writing.inside
      change splice m.content m.place [c] = splice f.under.content f.pos _
      rw [Stream.pending, pending, writing.content, writing.place, ← pendingLength, two]
    · change m.place + 1 = f.pos + (f.wlen + 1)
      rw [writing.place, Nat.add_assoc]

theorem buffered_mem (related : Related f m) (puts : Puttable f m) (c : Byte)
    (inMem : f.mem = true) :
    InMemory { f with buf := f.buf.set f.wlen c, wlen := f.wlen + 1 } (m.put [c]) := by
  have state := related.mem inMem
  exact ⟨state.buffered, state.nothing, state.off, (Plain.put_length puts.2.2).2 state.place⟩

section
variable (related : Related f m) (takes : ∀ off, 0 < server.accept off) (puts : Puttable f m)
variable (c : Byte)
include related takes puts c

theorem putByte_related :
    Alike (f.putByte server c) (m.fputc c) ∧ Puttable (f.putByte server c).1 (m.put [c]) := by
  obtain ⟨empty, unpushed, inside⟩ := puts
  have inside' := (@Plain.put_length m [c] inside).1
  have pushed : (m.put [c]).pushed = f.ungot := related.pushed
  unfold Stream.putByte
  by_cases unbuffered : f.bufmode = .none
  · have notMem : ¬ f.mem = true := fun inMem => (related.mem inMem).buffered unbuffered
    have reading := related.reading (related.unbuffered unbuffered)
    have start : f.rpos = 0 := by
      have := reading.front
      omega
    have place : m.place = f.pos := by rw [reading.place, start, Nat.add_zero]
    have off : f.under.off = m.place := by rw [reading.off, empty, place, Nat.add_zero]
    have kept : [c].take (server.accept f.under.off) = [c] :=
      List.take_of_length_le (takes f.under.off)
    rw [if_pos unbuffered, if_neg notMem,
      Under.write_eq (by rw [off, reading.content]; exact inside), kept]
    have state : Reading { f with
        under := ⟨splice f.under.content f.under.off [c], f.under.off + [c].length⟩
        pos := f.pos + 1 } (m.put [c]) := by
      refine ⟨reading.wlen, reading.front, reading.room, ?_, ?_, ?_, .inl empty, ?_⟩
      · change splice f.under.content f.under.off [c] = splice m.content m.place [c]
        rw [reading.content, off]
      · change f.under.off + 1 = f.pos + 1 + f.rlen
        rw [off, place, empty]
      · rw [empty, List.take_zero, List.take_zero]
      · change m.place + 1 = f.pos + 1 + f.rpos
        rw [place, start]
    exact ⟨⟨rfl, related.below, pushed, .inl state, related.unbuffered,
      fun inMem => absurd inMem notMem⟩, empty, unpushed, inside'⟩
  · rw [if_neg unbuffered]
    have writing := buffered_writing related ⟨empty, unpushed, inside⟩ c
    have mem := buffered_mem related ⟨empty, unpushed, inside⟩ c
    have cap : 0 < (f.buf.set f.wlen c).length := by
      have := related.below
      rw [List.length_set]
      omega
    by_cases full : f.wlen + 1 = (f.buf.set f.wlen c).length ∨ f.bufmode = .line ∧ c = newline
    · rw [if_pos full]
      obtain ⟨under, pos, is, reading, atEnd⟩ := flushWrite_spec takes (.inr writing) mem
      rw [is]
      refine ⟨⟨rfl, cap, pushed, .inl reading, fun _ => rfl, fun inMem => ?_⟩, empty, unpushed,
        inside'⟩
      have state := mem inMem
      exact ⟨state.buffered, state.nothing, atEnd inMem, state.place⟩
    · rw [if_neg full]
      refine ⟨⟨rfl, ?_, pushed, .inr writing, fun is => absurd is unbuffered, mem⟩, empty,
        unpushed, inside'⟩
      have room := writing.room
      change f.wlen + 1 < (f.buf.set f.wlen c).length
      change f.wlen + 1 ≤ (f.buf.set f.wlen c).length at room
      omega

theorem fputc_related :
    Alike (f.fputc server c) (m.fputc c) ∧ Puttable (f.fputc server c).1 (m.put [c]) := by
  have same : f.fputc server c = f.putByte server c := by
    have empty := puts.1
    rw [Stream.fputc]
    rw [puts.2.1]
    simp [empty]
  rw [same]
  exact putByte_related related takes puts c

end

theorem Plain.put_put (inside : m.place ≤ m.content.length) (c : Byte) (data : List Byte) :
    (m.put [c]).put data = m.put (c :: data) := by
  have two := @splice_splice Byte m.content [c] data m.place inside
  simp only [Plain.put, List.length_singleton] at two ⊢
  rw [List.length_cons]
  congr 1
  omega

section
variable (related : Related f m) (takes : ∀ off, 0 < server.accept off)
include related takes

theorem fwriteLoop_related (data : List Byte) (puts : data ≠ [] → Puttable f m) :
    (Stream.fwriteLoop server data f).2 = data.length ∧
      Related (Stream.fwriteLoop server data f).1 (m.put data) := by
  induction data generalizing f m with
  | nil => exact ⟨rfl, by simpa [Stream.fwriteLoop, Plain.put, splice_nil] using related⟩
  | cons c rest ih =>
    have here := puts (List.cons_ne_nil _ _)
    obtain ⟨⟨same, still⟩, puts'⟩ := fputc_related related takes here c
    unfold Stream.fwriteLoop
    cases put : f.fputc server c with
    | mk g b =>
      rw [put] at same still puts'
      obtain rfl : b = some c := same
      obtain ⟨count, further⟩ := @ih g (m.put [c]) still fun _ => puts'
      rw [Plain.put_put here.2.2] at further
      exact ⟨by simp only [count, List.length_cons], further⟩

theorem fwrite_related {size nmemb : Nat} {data : List Byte} (whole : data.length = size * nmemb)
    (puts : data ≠ [] → Puttable f m) :
    Alike (f.fwrite server size nmemb data) (m.fwrite size nmemb data) := by
  have all : data.take (size * nmemb) = data := List.take_of_length_le (Nat.le_of_eq whole)
  unfold Stream.fwrite Plain.fwrite
  rw [all]
  by_cases nothing : size = 0 ∨ nmemb = 0
  · have zero : size * nmemb = 0 := Nat.mul_eq_zero.2 nothing
    obtain rfl : data = [] := List.length_eq_zero_iff.1 (by omega)
    rw [if_pos nothing]
    refine ⟨?_, by simpa [Plain.put, splice_nil] using related⟩
    by_cases no_size : size = 0
    · simp [no_size]
    · simp [nothing.resolve_left no_size]
  · obtain ⟨count, further⟩ := fwriteLoop_related related takes data puts
    have some_size : size ≠ 0 := fun zero => nothing (.inl zero)
    rw [if_neg nothing, if_neg some_size]
    refine ⟨?_, further⟩
    simp only [count, whole]
    exact Nat.mul_div_cancel_left nmemb (Nat.pos_of_ne_zero some_size)

theorem fflush_related : Alike (f.fflush server) (m, (0 : Int)) := by
  obtain ⟨done, flushed, -⟩ := related.flush takes
  refine ⟨?_, flushed⟩
  change (if (f.flushWrite server).2 = true then (0 : Int) else -1) = 0
  rw [if_pos done]

end

theorem ftell_related (related : Related f m) (unpushed : f.ungot = none) : f.ftell = m.ftell := by
  have pushed : m.pushed = none := related.pushed.trans unpushed
  have plain : m.ftell = m.place := by simp [Plain.ftell, pushed]
  rw [plain]
  unfold Stream.ftell
  rcases related.state with reading | writing
  · rw [reading.wlen, reading.place]
    simp
  · have := writing.behind
    rw [if_pos (by omega), writing.place]
    simp

/-- What a seek needs: a descriptor, no bytes ahead where it starts from the current place, and
nothing to lose where it fails. -/
def Seekable (f : Stream) (m : Plain) (off : Int) (whence : Whence) : Prop :=
  f.mem = false ∧ (whence = .cur → f.rpos = f.rlen ∧ f.ungot = none) ∧
    (0 ≤ m.target off whence ∨ f.rlen = 0 ∧ f.ungot = none)

theorem fseek_related (related : Related f m) (takes : ∀ off, 0 < server.accept off) {off : Int}
    {whence : Whence} (seeks : Seekable f m off whence) :
    Alike (f.fseek server off whence) (m.fseek off whence) := by
  obtain ⟨notMem, fromHere, fails⟩ := seeks
  obtain ⟨under, pos, is, reading, -⟩ := flushWrite_spec takes related.state related.mem
  have cap : 0 < f.buf.length := by
    have := related.below
    omega
  have base : whence.base under.off under.content.length + off = m.target off whence := by
    have content : under.content = m.content := reading.content
    have underOff : under.off = pos + f.rlen := reading.off
    cases whence with
    | set => simp [Whence.base, Plain.target]
    | cur =>
      obtain ⟨read, unpushed⟩ := fromHere rfl
      have pushed : m.pushed = none := related.pushed.trans unpushed
      have place : m.place = pos + f.rpos := reading.place
      simp [Whence.base, Plain.target, Plain.ftell, pushed, underOff, place, read]
    | endOfFile => rw [Whence.base, Plain.target, content]
  simp only [Plain.fseek, Stream.fseek, is, notMem, if_false, Bool.false_eq_true, Under.lseek,
    base]
  by_cases negative : m.target off whence < 0
  · obtain ⟨empty, unpushed⟩ := fails.resolve_left (by omega)
    have read : f.rpos = 0 := by
      have : f.rpos ≤ f.rlen := reading.front
      omega
    rw [if_pos negative, if_pos negative]
    refine ⟨rfl, cap, related.pushed.trans unpushed, .inl ?_, fun _ => rfl, fun inMem => ?_⟩
    · refine ⟨rfl, Nat.le_refl 0, Nat.zero_le _, reading.content, ?_, rfl, .inl rfl, ?_⟩
      · rw [← empty]
        exact reading.off
      · rw [← read]
        exact reading.place
    · simp at inMem
  · rw [if_neg negative, if_neg negative]
    rw [if_neg negative]
    refine ⟨rfl, cap, rfl, .inl ?_, fun _ => rfl, fun inMem => ?_⟩
    · exact ⟨rfl, Nat.le_refl 0, Nat.zero_le _, reading.content, rfl, rfl, .inl rfl, rfl⟩
    · simp at inMem

inductive StreamAction where
  | fgetc
  | ungetc (c : Option Byte)
  | fread (size nmemb : Nat)
  | fgets (n : Int)
  | fputc (c : Byte)
  | fwrite (size nmemb : Nat) (data : List Byte)
  | fseek (off : Int) (whence : Whence)
  | ftell
  | fflush
  | fclose
  | exit

structure StreamCall where
  action : StreamAction
  server : Server

inductive StreamOutcome where
  | byte (c : Option Byte)
  | block (bytes : List Byte) (count : Nat)
  | line (bytes : Option (List Byte))
  | count (n : Nat)
  | value (n : Int)
  | gone
  deriving DecidableEq

def Stream.calls (f : Stream) (call : StreamCall) : Stream × StreamOutcome :=
  match call.action with
  | .fgetc => Prod.map id .byte (f.fgetc call.server)
  | .ungetc c => Prod.map id .byte (f.ungetc c)
  | .fread size nmemb =>
    Prod.map id (fun got => .block got.1 got.2) (f.fread call.server size nmemb)
  | .fgets n => Prod.map id .line (f.fgets call.server n)
  | .fputc c => Prod.map id .byte (f.fputc call.server c)
  | .fwrite size nmemb data => Prod.map id .count (f.fwrite call.server size nmemb data)
  | .fseek off whence => Prod.map id .value (f.fseek call.server off whence)
  | .ftell => (f, .value f.ftell)
  | .fflush => Prod.map id .value (f.fflush call.server)
  | .fclose => Prod.map id .value (f.fclose call.server)
  | .exit => (f.exit call.server, .gone)

def Plain.calls (m : Plain) (action : StreamAction) : Plain × StreamOutcome :=
  match action with
  | .fgetc => Prod.map id .byte m.fgetc
  | .ungetc c => Prod.map id .byte (m.ungetc c)
  | .fread size nmemb => Prod.map id (fun got => .block got.1 got.2) (m.fread size nmemb)
  | .fgets n => Prod.map id .line (m.fgets n)
  | .fputc c => Prod.map id .byte (m.fputc c)
  | .fwrite size nmemb data => Prod.map id .count (m.fwrite size nmemb data)
  | .fseek off whence => Prod.map id .value (m.fseek off whence)
  | .ftell => (m, .value m.ftell)
  | .fflush => (m, .value 0)
  | .fclose => (m, .value 0)
  | .exit => (m, .gone)

structure Mirrored where
  stream : Stream
  plain : Plain
  /-- `fclose` or `exit` has returned. -/
  closed : Bool

def StreamAction.closes : StreamAction → Bool
  | .fclose | .exit => true
  | _ => false

/-- `fwrite` is given as many bytes as it is told to write. -/
def StreamAction.whole : StreamAction → Bool
  | .fwrite size nmemb data => data.length == size * nmemb
  | _ => true

namespace Mirrored
variable (s : Mirrored)

def step (call : StreamCall) : Option Mirrored :=
  if s.closed || !call.action.whole then none
  else some ⟨(s.stream.calls call).1, (s.plain.calls call.action).1, call.action.closes⟩

/-- Every write below stores something; nothing is written where bytes were read ahead or
behind the end; a seek can be undone; no position is asked for with a byte pushed back; and a
stream that `exit` does not flush has nothing pending then. Sizes and places fit 64 bits. -/
def Fits (call : StreamCall) : Prop :=
  (∀ off, 0 < call.server.accept off) ∧ match call.action with
    | .fputc _ => Puttable s.stream s.plain
    | .fread size nmemb => size * nmemb < 2 ^ 64
    | .fwrite size nmemb data => size * nmemb < 2 ^ 64 ∧ (data ≠ [] → Puttable s.stream s.plain)
    | .fseek off whence => Seekable s.stream s.plain off whence ∧
        -2 ^ 63 ≤ s.plain.target off whence ∧ s.plain.target off whence < 2 ^ 63
    | .ftell => s.stream.ungot = none
    | .exit => s.stream.wlen = 0 ∨ s.stream.standard = true
    | _ => True

end Mirrored

theorem Alike.map {α β : Type} {stream : Stream × α} {plain : Plain × α} (alike : Alike stream plain)
    (view : α → β) : Alike (Prod.map id view stream) (Prod.map id view plain) :=
  ⟨congrArg view alike.1, alike.2⟩

theorem calls_related {s : Mirrored} (related : Related s.stream s.plain) {call : StreamCall}
    (fits : s.Fits call) (whole : call.action.whole = true)
    (stays : call.action ≠ .exit) : Alike (s.stream.calls call) (s.plain.calls call.action) := by
  obtain ⟨action, server⟩ := call
  obtain ⟨takes, fits⟩ := fits
  cases action with
  | fgetc => exact (fgetc_related related takes).map _
  | ungetc c => exact (ungetc_related related c).map _
  | fread size nmemb => exact (fread_related related takes size nmemb).map _
  | fgets n => exact (fgets_related related takes n).map _
  | fputc c => exact (fputc_related related takes fits c).1.map _
  | fwrite size nmemb data =>
    exact (fwrite_related related takes (by simpa [StreamAction.whole] using whole) fits.2).map _
  | fseek off whence => exact (fseek_related related takes fits.1).map _
  | ftell => exact ⟨congrArg StreamOutcome.value (ftell_related related fits), related⟩
  | fflush => exact (fflush_related related takes).map _
  | fclose => exact (fflush_related related takes).map _
  | exit => exact absurd rfl stays

theorem exit_content (related : Related f m) (takes : ∀ off, 0 < server.accept off)
    (fits : f.wlen = 0 ∨ f.standard = true) : (f.exit server).under.content = m.content := by
  unfold Stream.exit
  split
  · exact (related.flush takes).2.2.content
  · rename_i other
    exact (related.reading (fits.resolve_right other)).content

def Kept (s : Mirrored) : Prop :=
  if s.closed then s.stream.under.content = s.plain.content else Related s.stream s.plain

theorem step_kept {s after : Mirrored} {call : StreamCall} (kept : Kept s) (fits : s.Fits call)
    (stepped : s.step call = some after) :
    (s.stream.calls call).2 = (s.plain.calls call.action).2 ∧ Kept after := by
  unfold Mirrored.step at stepped
  split at stepped
  · cases stepped
  · rename_i checks
    obtain rfl := Option.some.inj stepped
    simp only [Bool.or_eq_true, Bool.not_eq_true', not_or, Bool.not_eq_true,
      Bool.not_eq_false] at checks
    rw [Kept, checks.1] at kept
    have related : Related s.stream s.plain := kept
    by_cases leaves : call.action = .exit
    · obtain ⟨action, server⟩ := call
      obtain rfl : action = .exit := leaves
      exact ⟨rfl, exit_content related fits.1 fits.2⟩
    · have alike := calls_related related fits checks.2 leaves
      refine ⟨alike.1, ?_⟩
      by_cases closing : call.action = .fclose
      · obtain ⟨action, server⟩ := call
        obtain rfl : action = .fclose := closing
        exact (related.flush fits.1).2.2.content
      · have stays : call.action.closes = false := by
          cases action : call.action <;> simp_all [StreamAction.closes]
        rw [stays]
        exact alike.2

/-- A new stream on a descriptor, or without one for `open_memstream`. -/
def mirror (under : Under) (mem standard : Bool) (bufmode : BufMode) (buf : List Byte) : Mirrored :=
  ⟨openStream under mem standard bufmode buf, ⟨under.content, under.off, none⟩, false⟩

/-- In a run whose calls fit, on a stream that starts at offset 0, every call returns what the
stream without a buffer returns, and once `fclose` or `exit` has returned the file has every
byte. -/
theorem stream_law {under : Under} {mem standard : Bool} {bufmode : BufMode} {buf : List Byte}
    (start : under.off = 0) (cap : 0 < buf.length)
    (inMemory : mem = true → bufmode ≠ .none ∧ under.content = []) {s : Mirrored}
    (run : Reach Mirrored.step Mirrored.Fits (mirror under mem standard bufmode buf) s) :
    (∀ call after, s.Fits call → s.step call = some after →
      (s.stream.calls call).2 = (s.plain.calls call.action).2) ∧
    (s.closed = true → s.stream.under.content = s.plain.content) := by
  have first : Kept (mirror under mem standard bufmode buf) := by
    refine ⟨cap, rfl, .inl ?_, fun _ => rfl, fun inMem => ?_⟩
    · exact ⟨rfl, Nat.le_refl 0, Nat.zero_le _, rfl, start, rfl, .inl rfl, start⟩
    · obtain ⟨buffered, empty⟩ := inMemory inMem
      exact ⟨buffered, rfl, by simp [mirror, openStream, start, empty],
        by simp [mirror, start, empty]⟩
  have kept := run.invariant Kept first fun _ _ _ kept fits stepped =>
    (step_kept kept fits stepped).2
  refine ⟨fun call after fits stepped => (step_kept kept fits stepped).1, fun closed => ?_⟩
  rw [Kept, closed] at kept
  exact kept

def Mirrored.after (s : Mirrored) (action : StreamAction) : Mirrored :=
  ⟨(s.stream.calls ⟨action, ready⟩).1, (s.plain.calls action).1, action.closes⟩

theorem Mirrored.step_after {s : Mirrored} {action : StreamAction} (runs : s.closed = false)
    (whole : action.whole = true) : s.step ⟨action, ready⟩ = some (s.after action) := by
  rw [Mirrored.step, runs, whole]
  rfl

def twoBytes : Mirrored := mirror ⟨[0x61, 0x62], 0⟩ false false .full [0, 0, 0, 0]

def rewound : Mirrored := (twoBytes.after (.fputc 0x78)).after (.fseek 0 .set)

/-- A byte is written over the first of two, and both are read back in one `fread`. -/
theorem two_bytes_read :
    (rewound.stream.calls ⟨.fread 1 2, ready⟩).2 = .block [0x78, 0x62] 2 := by
  have takes : ∀ off, 0 < ready.accept off := fun _ => (by decide : 0 < 8192)
  have run : Reach Mirrored.step Mirrored.Fits twoBytes rewound :=
    (Reach.start.next ⟨.fputc 0x78, ready⟩ ⟨takes, rfl, rfl, by decide⟩
      (Mirrored.step_after rfl rfl)).next ⟨.fseek 0 .set, ready⟩
      ⟨takes, ⟨rfl, by decide, by decide⟩, by decide, by decide⟩ (Mirrored.step_after rfl rfl)
  exact (@stream_law ⟨[0x61, 0x62], 0⟩ false false .full [0, 0, 0, 0] rfl (by decide)
    (fun inMem => nomatch inMem) rewound run).1 ⟨.fread 1 2, ready⟩ _ ⟨takes, by decide⟩
    (Mirrored.step_after rfl rfl)

/-- A byte is read and the next one written: the stream reports position 1, not 2. And a byte
that was put to a stream still open at `exit` is not in the file. -/
theorem position_and_byte_lost :
    (Reach Mirrored.step (fun _ _ => True) twoBytes ((twoBytes.after .fgetc).after (.fputc 0x78)) ∧
      ((twoBytes.after .fgetc).after (.fputc 0x78)).stream.ftell = 1 ∧
      ((twoBytes.after .fgetc).after (.fputc 0x78)).plain.ftell = 2) ∧
    (Reach Mirrored.step (fun _ _ => True) twoBytes ((twoBytes.after (.fputc 0x78)).after .exit) ∧
      ((twoBytes.after (.fputc 0x78)).after .exit).stream.under.content = [0x61, 0x62] ∧
      ((twoBytes.after (.fputc 0x78)).after .exit).plain.content = [0x78, 0x62]) := by
  refine ⟨⟨?_, rfl, rfl⟩, ?_, rfl, rfl⟩
  · exact (Reach.start.next ⟨.fgetc, ready⟩ trivial (Mirrored.step_after rfl rfl)).next
      ⟨.fputc 0x78, ready⟩ trivial (Mirrored.step_after rfl rfl)
  · exact (Reach.start.next ⟨.fputc 0x78, ready⟩ trivial (Mirrored.step_after rfl rfl)).next
      ⟨.exit, ready⟩ trivial (Mirrored.step_after rfl rfl)

end Racccoon.Libc
