import Racccoon.FileServer

/-!
The file calls under the descriptors of the C library: `__rc_fs_read_at`, `__rc_fs_write_at`
and `__rc_fs_delete` (`racccoon-libc/src/rc_fs.c`), on a server that keeps each file as an
array of bytes, and the loops of `read` and `write` over them (`rc_posix.c`).
-/

namespace Racccoon.Libc

open Racccoon.FileServer Racccoon.Splices

def rcFsMsgMax : Nat := 8192
def rcFsWriteAtMaxchunk : Nat := rcFsMsgMax - 108

/-- How much the server handles in one call, by offset: a read returns at most one byte more
than `give`, a write stores at most `accept` bytes. -/
structure Server where
  give : Nat → Nat
  accept : Nat → Nat

def ready : Server := ⟨fun _ => 4096, fun _ => 8192⟩

theorem nil_fits : ([] : List Byte).length ≤ fsOffsetAppend := Nat.zero_le _

def emptyFile : ServedFile := ⟨[], nil_fits⟩

def rcFsReadAt (server : Server) (file : Option ServedFile) (len off : Nat) :
    Option (List Byte) :=
  file.map fun file =>
    (file.bytes.drop (off % 2 ^ 32)).take
      (min (len % 2 ^ 32) (server.give (off % 2 ^ 32) + 1))

def rcFsWriteAt (server : Server) (file : Option ServedFile) (data : List Byte) (off : Nat) :
    Option ServedFile × Int :=
  serverWriteAt file (data.take rcFsWriteAtMaxchunk) (off % 2 ^ 32)
    (.takes (server.accept (off % 2 ^ 32)))

/-- The loop of `read`, with as many rounds as bytes are asked for. A call that fails behind
the first one ends it. -/
def readLoop (server : Server) (file : Option ServedFile) : Nat → Nat → Nat → Option (List Byte)
  | 0, _, _ => some []
  | rounds + 1, left, off =>
    if left = 0 then some []
    else
      match rcFsReadAt server file left off with
      | none => none
      | some got =>
        if got = [] then some []
        else
          some (got ++ (readLoop server file rounds (left - got.length)
            (off + got.length)).getD [])

/-- The loop of `write`: it ends with the first call that is cut short. -/
def writeLoop (server : Server) : Nat → Option ServedFile → List Byte → Nat →
    Option ServedFile × Int
  | 0, file, _, _ => (file, 0)
  | rounds + 1, file, data, off =>
    if data = [] then (file, 0)
    else
      let chunk := data.take rcFsWriteAtMaxchunk
      let (written, w) := rcFsWriteAt server file chunk off
      if w < 0 then (written, -1)
      else if w < chunk.length then (written, w)
      else
        let (final, more) := writeLoop server rounds written (data.drop chunk.length)
          (off + w.toNat)
        (final, w + max more 0)

variable {server : Server} {file : ServedFile} {data : List Byte} {rounds left off : Nat}

/-- The loop of `read` returns what stands at the offset, up to the end of the file. -/
theorem readLoop_eq (enough : left ≤ rounds) (small : left < 2 ^ 32) (near : off < 2 ^ 32) :
    readLoop server (some file) rounds left off = some ((file.bytes.drop off).take left) := by
  induction rounds generalizing left off with
  | zero =>
    obtain rfl : left = 0 := by omega
    simp [readLoop]
  | succ rounds ih =>
    unfold readLoop
    by_cases done : left = 0
    · simp [done]
    · rw [if_neg done]
      simp only [rcFsReadAt, Option.map_some, Nat.mod_eq_of_lt small, Nat.mod_eq_of_lt near]
      set most := min left (server.give off + 1) with mostIs
      by_cases atEnd : (file.bytes.drop off).take most = []
      · have nothing : file.bytes.drop off = [] := by
          rcases List.take_eq_nil_iff.1 atEnd with zero | empty
          · omega
          · exact empty
        simp [nothing]
      · rw [if_neg atEnd]
        have some_got : 0 < ((file.bytes.drop off).take most).length :=
          List.length_pos_iff.2 atEnd
        have fits := file.fits
        have inside : off + ((file.bytes.drop off).take most).length ≤ file.bytes.length := by
          simp only [List.length_take, List.length_drop] at some_got ⊢
          omega
        simp only [fsOffsetAppend] at fits
        rw [ih (by omega) (by omega) (by omega), Option.getD_some]
        refine congrArg some ?_
        generalize tail : file.bytes.drop off = rest at *
        have behind : file.bytes.drop (off + (rest.take most).length) =
            rest.drop (rest.take most).length := by rw [← List.drop_drop, tail]
        rw [behind]
        by_cases short : rest.length ≤ most
        · have whole : rest.take most = rest := List.take_of_length_le short
          rw [whole, List.drop_length, List.take_nil, List.append_nil,
            List.take_of_length_le (by omega)]
        · have exact_ : (rest.take most).length = most := by
            rw [List.length_take]
            omega
          rw [exact_, ← List.take_add]
          congr 1
          omega

theorem rcFsWriteAt_eq (server : Server) (inside : off ≤ file.bytes.length)
    (room : off + data.length < fsOffsetAppend) (chunk : data.length ≤ rcFsWriteAtMaxchunk) :
    ∃ (n : Nat) (after : ServedFile), n ≤ data.length ∧
      after.bytes = splice file.bytes off (data.take n) ∧
      (data.length ≤ server.accept off → n = data.length) ∧
      rcFsWriteAt server (some file) data off = (some after, (n : Int)) := by
  simp only [fsOffsetAppend] at room
  have near : off % 2 ^ 32 = off := Nat.mod_eq_of_lt (by omega)
  have notEnd : off ≠ fsOffsetAppend := by
    simp only [fsOffsetAppend]
    omega
  have whole : data.take rcFsWriteAtMaxchunk = data := List.take_of_length_le chunk
  have kept : (data.take (server.accept off)).take (fsOffsetAppend - off) =
      data.take (server.accept off) := by
    apply List.take_of_length_le
    simp only [List.length_take, fsOffsetAppend]
    omega
  have clipped : data.take (data.take (server.accept off)).length =
      data.take (server.accept off) := by
    rw [List.length_take, ← List.take_take, List.take_length]
  refine ⟨(data.take (server.accept off)).length,
    ⟨splice file.bytes off ((data.take (server.accept off)).take (fsOffsetAppend - off)),
      splice_fits _ file.fits inside⟩, List.length_take_le' _ _, ?_, ?_, ?_⟩
  · simp only [kept, clipped]
  · rw [List.length_take]
    omega
  · simp only [rcFsWriteAt, near, whole, serverWriteAt, contentOf, Option.map_some,
      Option.getD_some, if_neg notEnd, dif_pos inside, kept]

/-- The loop of `write` stores the front of the data, as much as it counts. -/
theorem writeLoop_eq (server : Server) (enough : data.length ≤ rounds)
    (inside : off ≤ file.bytes.length) (room : off + data.length < fsOffsetAppend) :
    ∃ (n : Nat) (after : ServedFile), n ≤ data.length ∧
      after.bytes = splice file.bytes off (data.take n) ∧
      writeLoop server rounds (some file) data off = (some after, (n : Int)) := by
  induction rounds generalizing file data off with
  | zero =>
    refine ⟨0, file, Nat.zero_le _, by simp [splice_nil], rfl⟩
  | succ rounds ih =>
    unfold writeLoop
    by_cases done : data = []
    · exact ⟨0, file, Nat.zero_le _, by simp [splice_nil], by simp [done]⟩
    · rw [if_neg done]
      have most : (data.take rcFsWriteAtMaxchunk).length ≤ rcFsWriteAtMaxchunk :=
        List.length_take_le _ _
      have front : (data.take rcFsWriteAtMaxchunk).length ≤ data.length :=
        List.length_take_le' _ _
      have progress : 0 < (data.take rcFsWriteAtMaxchunk).length := by
        have := List.length_pos_iff.2 done
        simp only [List.length_take, rcFsWriteAtMaxchunk, rcFsMsgMax]
        omega
      obtain ⟨n, after, atMost, stored, -, is⟩ :=
        rcFsWriteAt_eq server inside (by omega) most
      have frontTake : (data.take rcFsWriteAtMaxchunk).take n = data.take n := by
        rw [List.take_take, Nat.min_eq_left (by omega)]
      rw [frontTake] at stored
      simp only [is]
      rw [if_neg (by omega)]
      by_cases short : (n : Int) < (data.take rcFsWriteAtMaxchunk).length
      · rw [if_pos short]
        exact ⟨n, after, by omega, stored, rfl⟩
      · have full : n = (data.take rcFsWriteAtMaxchunk).length := by omega
        have length : after.bytes.length = max file.bytes.length (off + n) := by
          rw [stored, length_splice inside, List.length_take, Nat.min_eq_left (by omega)]
        have rest : (data.drop n).length = data.length - n := List.length_drop
        obtain ⟨m, final, atMost', stored', is'⟩ :=
          @ih after (data.drop n) (off + n) (by omega) (by omega) (by omega)
        rw [← full, Int.toNat_natCast, is']
        refine ⟨n + m, final, by omega, ?_, ?_⟩
        · have two := @splice_splice Byte file.bytes (data.take n) ((data.drop n).take m) off inside
          rw [List.length_take, Nat.min_eq_left (by omega)] at two
          rw [stored', stored, two, ← List.take_add]
        · simp

end Racccoon.Libc
