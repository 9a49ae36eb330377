import Racccoon.Libc.Streams
import Racccoon.Lib.Run

/-!
The buffered stream beside the one without a buffer. Two states of the buffer matter: it is
ahead of the position with bytes that were read, or behind it with bytes not yet written.
-/

namespace Racccoon.Libc

open Racccoon.Run Racccoon.FileServer Racccoon.Splices

/-- The buffer holds what follows `pos` in the file, or nothing. -/
structure Reading (f : Stream) (m : Plain) : Prop where
  wlen : f.wlen = 0
  front : f.rpos ≤ f.rlen
  room : f.rlen ≤ f.buf.length
  content : f.under.content = m.content
  off : f.under.off = f.pos + f.rlen
  ahead : f.buf.take f.rlen = (m.content.drop f.pos).take f.rlen
  whole : f.rlen = 0 ∨ f.pos + f.rlen ≤ m.content.length
  place : m.place = f.pos + f.rpos

/-- The buffer holds what is still to be written at `pos`. -/
structure Writing (f : Stream) (m : Plain) : Prop where
  behind : 0 < f.wlen
  room : f.wlen ≤ f.buf.length
  nothing : f.rpos = 0 ∧ f.rlen = 0
  off : f.under.off = f.pos
  inside : f.pos ≤ f.under.content.length
  content : m.content = splice f.under.content f.pos f.pending
  place : m.place = f.pos + f.wlen

/-- A stream of `open_memstream` is written at its end only. -/
structure InMemory (f : Stream) (m : Plain) : Prop where
  buffered : f.bufmode ≠ .none
  nothing : f.rlen = 0
  off : f.under.off = f.under.content.length
  place : m.place = m.content.length

structure Related (f : Stream) (m : Plain) : Prop where
  below : f.wlen < f.buf.length
  pushed : m.pushed = f.ungot
  state : Reading f m ∨ Writing f m
  unbuffered : f.bufmode = .none → f.wlen = 0
  mem : f.mem = true → InMemory f m

variable {f : Stream} {m : Plain} {server : Server}

theorem Related.reading (related : Related f m) (none_pending : f.wlen = 0) : Reading f m := by
  rcases related.state with reading | writing
  · exact reading
  · have := writing.behind
    omega

theorem Under.write_eq {u : Under} (inside : u.off ≤ u.content.length) (data : List Byte) :
    u.write server data =
      ((⟨splice u.content u.off (data.take (server.accept u.off)),
        u.off + (data.take (server.accept u.off)).length⟩ : Under),
        ((data.take (server.accept u.off)).length : Int)) := by
  rw [Under.write, if_neg (by omega)]

/-- Short writes are made up for, as long as each one stores something. -/
theorem flushLoop_eq (takes : ∀ off, 0 < server.accept off) {rounds : Nat} {u : Under}
    {data : List Byte} (inside : u.off ≤ u.content.length) (enough : data.length ≤ rounds) :
    Stream.flushLoop server rounds u data =
      (⟨splice u.content u.off data, u.off + data.length⟩, true) := by
  induction rounds generalizing u data with
  | zero =>
    obtain rfl : data = [] := List.length_eq_zero_iff.1 (by omega)
    simp [Stream.flushLoop, splice_nil]
  | succ _ ih =>
    unfold Stream.flushLoop
    by_cases done : data = []
    · simp [done, splice_nil]
    · have positive := takes u.off
      have some_data := List.length_pos_iff.2 done
      set n := (data.take (server.accept u.off)).length with nIs
      have kept : data.take (server.accept u.off) = data.take n := by
        rw [nIs, List.length_take, ← List.take_take, List.take_length]
      have bounds : 0 < n ∧ n ≤ data.length := by
        rw [nIs, List.length_take]
        omega
      have length : (data.take n).length = n := by
        rw [List.length_take]
        omega
      rw [if_neg done, Under.write_eq inside, kept, length]
      simp only [Int.toNat_natCast]
      rw [if_neg (by omega)]
      have further := @ih ⟨splice u.content u.off (data.take n), u.off + n⟩ (data.drop n)
        (by
          rw [length_splice inside, length]
          exact Nat.le_max_right _ _)
        (by
          rw [List.length_drop]
          omega)
      have two := @splice_splice Byte u.content (data.take n) (data.drop n) u.off inside
      rw [length, List.take_append_drop] at two
      rw [further, two, List.length_drop]
      simp only [Prod.mk.injEq, Under.mk.injEq, true_and, and_true]
      omega

theorem flushWrite_spec (takes : ∀ off, 0 < server.accept off)
    (state : Reading f m ∨ Writing f m) (mem : f.mem = true → InMemory f m) :
    ∃ under pos, f.flushWrite server = ({ f with under := under, pos := pos, wlen := 0 }, true) ∧
      Reading { f with under := under, pos := pos, wlen := 0 } m ∧
      (f.mem = true → under.off = under.content.length) := by
  rcases state with reading | writing
  · have same : { f with wlen := 0 } = f := by
      rw [← reading.wlen]
    refine ⟨f.under, f.pos, ?_, ?_, fun inMem => (mem inMem).off⟩
    · rw [Stream.flushWrite, if_pos reading.wlen]
      exact Prod.ext same.symm rfl
    · exact same.symm ▸ reading
  · have pendingLength : f.pending.length = f.wlen := by
      rw [Stream.pending, List.length_take]
      exact Nat.min_eq_left writing.room
    have below : f.under.off ≤ f.under.content.length := by
      rw [writing.off]
      exact writing.inside
    have stored : m.content = splice f.under.content f.under.off f.pending := by
      rw [writing.off]
      exact writing.content
    refine ⟨⟨m.content, f.under.off + f.wlen⟩, f.pos + f.wlen, ?_, ?_, ?_⟩
    · have some_pending : f.wlen ≠ 0 := by
        have := writing.behind
        omega
      rw [Stream.flushWrite, if_neg some_pending]
      split
      · rename_i inMem
        have appended : f.under.content ++ f.pending = m.content := by
          rw [stored, (mem inMem).off, splice_end]
        rw [appended]
      · rw [flushLoop_eq takes below (Nat.le_of_eq pendingLength), ← stored, pendingLength]
        rfl
    · refine ⟨rfl, ?_, ?_, rfl, ?_, ?_, .inl writing.nothing.2, ?_⟩
      · exact Nat.le_of_eq (writing.nothing.1.trans writing.nothing.2.symm)
      · exact (Nat.le_of_eq writing.nothing.2).trans (Nat.zero_le _)
      · rw [writing.nothing.2, writing.off]
        rfl
      · rw [writing.nothing.2]
        exact List.take_zero.symm
      · rw [writing.nothing.1, writing.place]
        rfl
    · intro inMem
      have length : m.content.length = max f.under.content.length (f.under.off + f.wlen) := by
        rw [stored, length_splice below, pendingLength]
      have atEnd := (mem inMem).off
      change f.under.off + f.wlen = m.content.length
      omega

theorem Related.flush (related : Related f m) (takes : ∀ off, 0 < server.accept off) :
    (f.flushWrite server).2 = true ∧ Related (f.flushWrite server).1 m ∧
      Reading (f.flushWrite server).1 m := by
  obtain ⟨under, pos, is, reading, atEnd⟩ := flushWrite_spec takes related.state related.mem
  have cap : 0 < f.buf.length := by
    have := related.below
    omega
  rw [is]
  refine ⟨rfl, ⟨cap, related.pushed, .inl reading, fun _ => rfl, fun inMem => ?_⟩, reading⟩
  exact ⟨(related.mem inMem).buffered, (related.mem inMem).nothing, atEnd inMem,
    (related.mem inMem).place⟩

theorem Plain.fgetc_next (unpushed : m.pushed = none) {c : Byte}
    (next : m.content[m.place]? = some c) :
    m.fgetc = ({ m with place := m.place + 1 }, some c) := by
  obtain ⟨inside, is⟩ := List.getElem?_eq_some_iff.1 next
  have unread : m.unread = c :: m.content.drop (m.place + 1) := by
    rw [Plain.unread, unpushed, List.drop_eq_getElem_cons inside, is]
    rfl
  have same : m.advance 1 = { m with place := m.place + 1 } := by
    simp [Plain.advance, unpushed]
  rw [Plain.fgetc, unread]
  exact Prod.ext same rfl

theorem Plain.fgetc_end (unpushed : m.pushed = none) (atEnd : m.content.length ≤ m.place) :
    m.fgetc = (m, none) := by
  have unread : m.unread = [] := by
    rw [Plain.unread, unpushed, List.drop_eq_nil_of_le atEnd]
    rfl
  rw [Plain.fgetc, unread]

theorem Plain.fgetc_pushed {c : Byte} (pushed : m.pushed = some c) :
    m.fgetc = ({ m with pushed := none }, some c) := by
  have same : m.advance 1 = { m with pushed := none } := by
    simp [Plain.advance, pushed]
  have unread : m.unread = c :: m.content.drop m.place := by
    rw [Plain.unread, pushed]
    rfl
  rw [Plain.fgetc, unread]
  exact Prod.ext same rfl

def Alike {α : Type} (stream : Stream × α) (plain : Plain × α) : Prop :=
  stream.2 = plain.2 ∧ Related stream.1 plain.1

section
variable (related : Related f m)
include related

theorem Related.repushed (pushed : Option Byte) :
    Related { f with ungot := pushed } { m with pushed := pushed } := by
  refine ⟨related.below, rfl, related.state.imp (fun reading => ?_) fun writing => ?_,
    related.unbuffered, fun inMem => ?_⟩
  · exact ⟨reading.wlen, reading.front, reading.room, reading.content, reading.off, reading.ahead,
      reading.whole, reading.place⟩
  · exact ⟨writing.behind, writing.room, writing.nothing, writing.off, writing.inside,
      writing.content, writing.place⟩
  · have state := related.mem inMem
    exact ⟨state.buffered, state.nothing, state.off, state.place⟩

theorem nextByte_related (reading : Reading f m) (unpushed : f.ungot = none)
    (more : f.rpos < f.rlen) : Alike f.nextByte m.fgetc := by
  have whole := reading.whole.resolve_left (by omega)
  have inside : f.pos + f.rpos < m.content.length := by omega
  have held : f.buf[f.rpos]? = some m.content[f.pos + f.rpos] := by
    have front : (f.buf.take f.rlen)[f.rpos]? = f.buf[f.rpos]? := List.getElem?_take_of_lt more
    rw [← front, reading.ahead, List.getElem?_take_of_lt more, List.getElem?_drop,
      List.getElem?_eq_getElem inside]
  have next : m.content[m.place]? = some m.content[f.pos + f.rpos] := by
    rw [reading.place, List.getElem?_eq_getElem inside]
  rw [Plain.fgetc_next (related.pushed.trans unpushed) next]
  have notMem : f.mem = true → False := fun inMem => by
    have := (related.mem inMem).nothing
    omega
  refine ⟨held, related.below, related.pushed, .inl ?_, related.unbuffered,
    fun inMem => (notMem inMem).elim⟩
  exact ⟨reading.wlen, more, reading.room, reading.content, reading.off, reading.ahead,
    reading.whole, by
      change m.place + 1 = f.pos + (f.rpos + 1)
      rw [reading.place]
      omega⟩

/-- What `refill` does once nothing is pending. -/
def refillRead (f : Stream) (server : Server) : Stream × Bool :=
  { f with pos := f.pos + f.rlen, rpos := 0, rlen := 0 }.refill server

theorem refill_flushed (takes : ∀ off, 0 < server.accept off) :
    f.refill server = refillRead (f.flushWrite server).1 server := by
  obtain ⟨under, pos, is, reading, -⟩ := flushWrite_spec takes related.state related.mem
  by_cases none_pending : f.wlen = 0
  · have same : (f.flushWrite server).1 = f := by rw [Stream.flushWrite, if_pos none_pending]
    rw [same, refillRead, Stream.refill, Stream.refill]
    simp [none_pending]
  · rw [refillRead, Stream.refill, Stream.refill]
    simp [none_pending, is]

/-- At the end of the buffer, a refill brings the next bytes of the file, or none are left. -/
theorem refillRead_spec (reading : Reading f m) (unpushed : f.ungot = none)
    (atEnd : f.rlen ≤ f.rpos) :
    ((refillRead f server).2 = false ∧ m.content.length ≤ m.place ∧
        Related (refillRead f server).1 m) ∨
      ((refillRead f server).2 = true ∧ (refillRead f server).1.ungot = none ∧
        (refillRead f server).1.rpos < (refillRead f server).1.rlen ∧
        Related (refillRead f server).1 m ∧ Reading (refillRead f server).1 m) := by
  have read : f.rpos = f.rlen := Nat.le_antisymm reading.front atEnd
  have place : m.place = f.pos + f.rlen := by rw [reading.place, read]
  have cap : 0 < f.buf.length := by
    have := related.below
    omega
  unfold refillRead Stream.refill
  simp only [reading.wlen, ne_eq, not_true_eq_false, if_false, Nat.add_zero]
  by_cases inMem : f.mem = true
  · rw [if_pos inMem]
    have state := related.mem inMem
    refine .inl ⟨rfl, Nat.le_of_eq state.place.symm, cap, related.pushed, .inl ?_,
      fun _ => rfl, fun _ => ⟨state.buffered, rfl, state.off, state.place⟩⟩
    exact ⟨rfl, Nat.le_refl 0, Nat.zero_le _, reading.content, reading.off, rfl, .inl rfl, place⟩
  · rw [if_neg inMem]
    simp only [Under.read, reading.content, reading.off]
    set got := (m.content.drop (f.pos + f.rlen)).take
      (min f.buf.length (server.give (f.pos + f.rlen) + 1)) with gotIs
    by_cases nothing : got = []
    · rw [if_pos nothing]
      have beyond : m.content.length ≤ f.pos + f.rlen := by
        rcases List.take_eq_nil_iff.1 (gotIs.symm.trans nothing) with zero | empty
        · omega
        · exact List.drop_eq_nil_iff.1 empty
      refine .inl ⟨rfl, by omega, cap, related.pushed, .inl ?_, fun _ => rfl,
        fun is => absurd is inMem⟩
      refine ⟨rfl, Nat.le_refl 0, Nat.zero_le _, rfl, ?_, rfl, .inl rfl, place⟩
      rw [nothing, List.length_nil, Nat.add_zero]
    · rw [if_neg nothing]
      have some_got := List.length_pos_iff.2 nothing
      have fits : got.length ≤ f.buf.length := by
        rw [List.length_take]
        omega
      have front : got = (m.content.drop (f.pos + f.rlen)).take got.length := by
        rw [List.take_eq_take_iff, List.length_take]
        omega
      have whole : f.pos + f.rlen + got.length ≤ m.content.length := by
        have : got.length ≤ (m.content.drop (f.pos + f.rlen)).length := List.length_take_le' _ _
        rw [List.length_drop] at this
        omega
      have filled : (got ++ f.buf.drop got.length).length = f.buf.length := by
        rw [List.length_append, List.length_drop]
        omega
      have state : Reading { f with
          pos := f.pos + f.rlen
          rpos := 0
          under := ⟨m.content, f.pos + f.rlen + got.length⟩
          buf := got ++ f.buf.drop got.length
          rlen := got.length
          wlen := 0 } m := by
        refine ⟨rfl, Nat.zero_le _, ?_, rfl, rfl, ?_, .inr whole, place⟩
        · rw [filled]
          exact fits
        · rw [List.take_left]
          exact front
      refine .inr ⟨rfl, unpushed, some_got, ⟨?_, related.pushed, .inl state, fun _ => rfl,
        fun is => absurd is inMem⟩, state⟩
      rw [filled]
      exact cap

theorem fgetc_related (takes : ∀ off, 0 < server.accept off) : Alike (f.fgetc server) m.fgetc := by
  unfold Stream.fgetc
  cases pushed : f.ungot with
  | some =>
    rw [Plain.fgetc_pushed (related.pushed.trans pushed)]
    exact ⟨rfl, related.repushed none⟩
  | none =>
    dsimp only
    by_cases beyond : f.rpos ≥ f.rlen
    · rw [if_pos beyond, refill_flushed related takes]
      obtain ⟨under, pos, is, -, -⟩ := flushWrite_spec takes related.state related.mem
      obtain ⟨-, flushed, reading⟩ := related.flush takes
      have unpushed : (f.flushWrite server).1.ungot = none := by rw [is]; exact pushed
      have atEnd : (f.flushWrite server).1.rlen ≤ (f.flushWrite server).1.rpos := by
        rw [is]
        exact beyond
      rcases @refillRead_spec _ m server flushed reading unpushed atEnd with
        ⟨nothing, done, left⟩ | ⟨there, none_pushed, more, filled, ahead⟩
      · rw [nothing, Plain.fgetc_end (related.pushed.trans pushed) done]
        exact ⟨rfl, left⟩
      · rw [there]
        exact nextByte_related filled ahead none_pushed more
    · rw [if_neg beyond]
      have reading : Reading f m := by
        rcases related.state with reading | writing
        · exact reading
        · have := writing.nothing
          omega
      exact nextByte_related related reading pushed (by omega)

end

end Racccoon.Libc
