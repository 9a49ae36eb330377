import Racccoon.Pipes
import Racccoon.UserRanges

/-!
Where SYS_PIPE_READ stores: the range check, the wait and the copy. The loop takes a byte
before it compares with the length, and no range is checked for a length of 0.
-/

namespace Racccoon.Pipes

open UserRanges PageAllocator Paging

/-- The pipes as a pass of the loop finds them, and whether a note is deliverable once the
pass came up empty. -/
structure Turn where
  pipes : Nat → Pipe
  note : Bool

/-- The loop of SYS_PIPE_READ over the turns the process gets: its result and the bytes
stored. `none`: it waits still. -/
def readTurns (rid : Int) (rmax : Nat) : List Turn → Option (Int × List UInt8)
  | [] => none
  | turn :: later =>
    let bytes := (sysPipeRead turn.pipes rid rmax).1
    if bytes ≠ [] then some (bytes.length, bytes)
    else
      match (pipeTryGet turn.pipes rid).1 with
      | .eof => some (0, [])
      | _ => if turn.note then some (-1, []) else readTurns rid rmax later

/-- `rbuf[rn] = rc` for each byte. -/
def storesAt (rbuf : Nat) (bytes : List UInt8) : List (Nat × UInt8) :=
  bytes.mapIdx fun rn rc => (rbuf + rn, rc)

/-- `(int)f.a2`, and 0 for what is negative. -/
def requested (a2 : BitVec 64) : Nat := (a2.setWidth 32).toInt.toNat

section Call
variable (pool : Pool) (heap : Heap) (build : Build)

def rangeChecked (a1 a2 : BitVec 64) : Bool :=
  (userRangeValid pool heap true build a1.toNat (requested a2) true).1

def pipeRead (now : Turn) (later : List Turn) (a0 a1 a2 : BitVec 64) :
    Option (Int × List (Nat × UInt8)) :=
  let rid := (a0.setWidth 32).toInt
  if !pipeValid now.pipes rid || !rangeChecked pool heap build a1 a2 then some (-1, [])
  else (readTurns rid (requested a2) (now :: later)).map fun (rn, bytes) =>
    (rn, storesAt a1.toNat bytes)

end Call

def holds (rid : Int) (turn : Turn) : Bool :=
  pipeValid turn.pipes rid && decide (0 < (turn.pipes rid.toNat).count)

def waits (rid : Int) (turn : Turn) : Bool :=
  pipeValid turn.pipes rid && decide ((turn.pipes rid.toNat).count = 0) &&
    decide ((turn.pipes rid.toNat).writers ≠ 0) && !turn.note

def byteComes (rid : Int) : List Turn → Bool
  | [] => false
  | turn :: later => holds rid turn || (waits rid turn && byteComes rid later)

def afterGet (pipes : Nat → Pipe) (rid : Int) : Nat → Pipe :=
  Function.update pipes rid.toNat { pipes rid.toNat with
    head := ((pipes rid.toNat).head + 1) % pipeBuf
    count := (pipes rid.toNat).count - 1 }

def Filled (pipes : Nat → Pipe) (rid : Int) : Prop :=
  pipeValid pipes rid = true ∧ 0 < (pipes rid.toNat).count

variable {pipes : Nat → Pipe}
variable {rid : Int}

theorem pipeTryGet_filled (filled : Filled pipes rid) :
    pipeTryGet pipes rid =
      (.byte ((pipes rid.toNat).data (pipes rid.toNat).head), afterGet pipes rid) := by
  simp [pipeTryGet, afterGet, filled.1, filled.2]

theorem pipeTryGet_empty (empty : ¬ Filled pipes rid) :
    pipeTryGet pipes rid =
      (if pipeValid pipes rid = false ∨ (pipes rid.toNat).writers = 0 then .eof else .empty,
        pipes) := by
  cases valid : pipeValid pipes rid with
  | false => simp [pipeTryGet, valid]
  | true =>
    have drained : ¬ 0 < (pipes rid.toNat).count := fun some => empty ⟨valid, some⟩
    simp [pipeTryGet, valid, drained]

theorem readPass_empty (empty : ¬ Filled pipes rid) (more : Nat) :
    readPass pipes rid more = ([], pipes) := by
  cases more <;> rw [readPass, pipeTryGet_empty empty] <;> split_ifs <;> rfl

theorem readPass_zero (filled : Filled pipes rid) :
    readPass pipes rid 0 =
      ([(pipes rid.toNat).data (pipes rid.toNat).head], afterGet pipes rid) := by
  rw [readPass, pipeTryGet_filled filled]

theorem readPass_succ (filled : Filled pipes rid) (more : Nat) :
    readPass pipes rid (more + 1) =
      ((pipes rid.toNat).data (pipes rid.toNat).head ::
        (readPass (afterGet pipes rid) rid more).1,
        (readPass (afterGet pipes rid) rid more).2) := by
  rw [readPass, pipeTryGet_filled filled]

theorem readPass_nil_iff (pipes : Nat → Pipe) (rid : Int) (more : Nat) :
    (readPass pipes rid more).1 = [] ↔ ¬ Filled pipes rid := by
  by_cases filled : Filled pipes rid
  · refine iff_of_false ?_ (not_not.mpr filled)
    cases more with
    | zero => simp [readPass_zero filled]
    | succ more => simp [readPass_succ filled]
  · exact iff_of_true (by rw [readPass_empty filled]) filled

theorem readPass_length (pipes : Nat → Pipe) (rid : Int) (more : Nat) :
    (readPass pipes rid more).1.length ≤ more + 1 := by
  induction more generalizing pipes with
  | zero =>
    by_cases filled : Filled pipes rid
    · simp [readPass_zero filled]
    · simp [readPass_empty filled]
  | succ more ih =>
    by_cases filled : Filled pipes rid
    · simpa [readPass_succ filled] using ih _
    · simp [readPass_empty filled]

theorem sysPipeRead_length (pipes : Nat → Pipe) (rid : Int) (rmax : Nat) :
    (sysPipeRead pipes rid rmax).1.length ≤ max rmax 1 := by
  have := readPass_length pipes rid (rmax - 1)
  unfold sysPipeRead
  omega

theorem sysPipeRead_nil_iff (rid : Int) (rmax : Nat) (turn : Turn) :
    (sysPipeRead turn.pipes rid rmax).1 = [] ↔ holds rid turn = false := by
  rw [sysPipeRead, readPass_nil_iff]
  simp [holds, Filled]

theorem pipeTryGet_eof_iff (pipes : Nat → Pipe) (rid : Int) :
    (pipeTryGet pipes rid).1 = .eof ↔ pipeValid pipes rid = false ∨
      ((pipes rid.toNat).count = 0 ∧ (pipes rid.toNat).writers = 0) := by
  by_cases filled : Filled pipes rid
  · rw [pipeTryGet_filled filled]
    simp [filled.1, Nat.ne_of_gt filled.2]
  · rw [pipeTryGet_empty filled]
    cases valid : pipeValid pipes rid with
    | false => simp
    | true =>
      have drained : (pipes rid.toNat).count = 0 :=
        Nat.eq_zero_of_not_pos fun some => filled ⟨valid, some⟩
      by_cases last : (pipes rid.toNat).writers = 0 <;> simp [drained]

/-- A turn ends the read or leaves it waiting. -/
theorem readTurns_cons (rid : Int) (rmax : Nat) (turn : Turn) (later : List Turn) :
    readTurns rid rmax (turn :: later) =
      if holds rid turn then
        some (((sysPipeRead turn.pipes rid rmax).1.length : Int),
          (sysPipeRead turn.pipes rid rmax).1)
      else if waits rid turn then readTurns rid rmax later
      else some (if waits rid { turn with note := false } then -1 else 0, []) := by
  rw [readTurns]
  cases here : holds rid turn with
  | true =>
    have filled : (sysPipeRead turn.pipes rid rmax).1 ≠ [] := by
      rw [ne_eq, sysPipeRead_nil_iff, here]
      decide
    simp [filled]
  | false =>
    have empty := (sysPipeRead_nil_iff rid rmax turn).mpr here
    by_cases ended : (pipeTryGet turn.pipes rid).1 = .eof
    · have still : ∀ note, waits rid { turn with note } = false := by
        rcases (pipeTryGet_eof_iff _ _).mp ended with gone | ⟨-, last⟩
        · simp [waits, gone]
        · simp [waits, last]
      simp [empty, ended, still]
    · have still : ∀ note, waits rid { turn with note } = !note := by
        have unended := mt (pipeTryGet_eof_iff turn.pipes rid).mpr ended
        simp only [holds] at here
        simp only [waits]
        grind
      have ends : (match (pipeTryGet turn.pipes rid).1 with
          | .eof => some (0, [])
          | _ => if turn.note then some (-1, []) else readTurns rid rmax later) =
            if turn.note then some (-1, []) else readTurns rid rmax later := by
        split
        · next eof => exact absurd eof ended
        · rfl
      refine (if_neg (not_not.mpr empty)).trans (ends.trans ?_)
      simp only [still]
      cases turn.note <;> rfl

theorem readTurns_length {rmax : Nat} {turns : List Turn} {rn : Int} {bytes : List UInt8}
    (returned : readTurns rid rmax turns = some (rn, bytes)) : bytes.length ≤ max rmax 1 := by
  induction turns with
  | nil => cases returned
  | cons turn later ih =>
    rw [readTurns_cons] at returned
    split_ifs at returned
    · cases returned
      exact sysPipeRead_length turn.pipes rid rmax
    · exact ih returned
    all_goals
      cases returned
      exact Nat.zero_le _

theorem readTurns_stores_iff (rid : Int) (rmax : Nat) (turns : List Turn) :
    (∃ rn bytes, readTurns rid rmax turns = some (rn, bytes) ∧ bytes ≠ []) ↔
      byteComes rid turns = true := by
  induction turns with
  | nil => simp [readTurns, byteComes]
  | cons turn later ih =>
    rw [readTurns_cons, byteComes, Bool.or_eq_true, Bool.and_eq_true, ← ih]
    cases here : holds rid turn with
    | true =>
      have filled := mt (sysPipeRead_nil_iff rid rmax turn).mp (by simp [here])
      simp [filled]
    | false =>
      cases waits rid turn with
      | true => simp
      | false =>
        simp only [Bool.false_eq_true, ↓reduceIte, false_and, or_self, iff_false]
        rintro ⟨rn, bytes, returned, filled⟩
        split_ifs at returned <;> cases returned <;> exact filled rfl

theorem mem_storesAt {rbuf : Nat} {bytes : List UInt8} {store : Nat × UInt8}
    (member : store ∈ storesAt rbuf bytes) : rbuf ≤ store.1 ∧ store.1 < rbuf + bytes.length := by
  obtain ⟨rn, inside, rfl⟩ := List.mem_mapIdx.mp member
  exact ⟨Nat.le_add_right _ _, Nat.add_lt_add_left inside _⟩

section Call
variable (pool : Pool) (heap : Heap) (build : Build)

/-- A call that returns has stored no more bytes than were asked for, all of them in the
range that was checked. -/
def StoresInside (now : Turn) (later : List Turn) (a0 a1 a2 : BitVec 64) : Prop :=
  ∀ rn stores, pipeRead pool heap build now later a0 a1 a2 = some (rn, stores) →
    stores.length ≤ requested a2 ∧
      ∀ store ∈ stores, rangeChecked pool heap build a1 a2 = true ∧
        a1.toNat ≤ store.1 ∧ store.1 < a1.toNat + requested a2

theorem rangeChecked_empty {a1 a2 : BitVec 64} (empty : requested a2 = 0) :
    rangeChecked pool heap build a1 a2 = true := by
  simp [rangeChecked, userRangeValid, empty]

/-- What is stored in a range that was checked. -/
theorem readTurns_inside {now : Turn} {later : List Turn} {a0 a1 a2 : BitVec 64}
    (checked : rangeChecked pool heap build a1 a2 = true)
    (valid : pipeValid now.pipes (a0.setWidth 32).toInt = true) :
    StoresInside pool heap build now later a0 a1 a2 ↔
      ∀ rn bytes, readTurns (a0.setWidth 32).toInt (requested a2) (now :: later) =
        some (rn, bytes) → bytes.length ≤ requested a2 := by
  unfold StoresInside pipeRead
  simp only [valid, checked]
  constructor
  · intro inside rn bytes returned
    have := (inside rn (storesAt a1.toNat bytes) (by rw [returned]; rfl)).1
    simpa [storesAt] using this
  · intro few rn stores returned
    obtain ⟨⟨result, bytes⟩, ended, same⟩ := Option.map_eq_some_iff.mp returned
    obtain ⟨rfl, rfl⟩ := Prod.mk.inj same
    have short := few result bytes ended
    refine ⟨by simpa [storesAt] using short, fun store member => ⟨trivial, ?_⟩⟩
    have placed := mem_storesAt member
    exact ⟨placed.1, placed.2.trans_le (Nat.add_le_add_left short _)⟩

/-- The copy stays in the range that was checked unless the range is empty and a byte
comes. -/
theorem stores_inside_iff (now : Turn) (later : List Turn) (a0 a1 a2 : BitVec 64) :
    StoresInside pool heap build now later a0 a1 a2 ↔
      0 < (a2.setWidth 32).toInt ∨ pipeValid now.pipes (a0.setWidth 32).toInt = false ∨
        byteComes (a0.setWidth 32).toInt (now :: later) = false := by
  by_cases refused : (!pipeValid now.pipes (a0.setWidth 32).toInt ||
      !rangeChecked pool heap build a1 a2) = true
  · refine iff_of_true ?_ ?_
    · intro rn stores returned
      rw [pipeRead, if_pos refused] at returned
      cases returned
      exact ⟨Nat.zero_le _, nofun⟩
    · by_cases positive : 0 < (a2.setWidth 32).toInt
      · exact .inl positive
      · have empty : requested a2 = 0 := Int.toNat_of_nonpos (by omega)
        rw [rangeChecked_empty pool heap build empty] at refused
        exact .inr (.inl (by simpa using refused))
  · obtain ⟨valid, checked⟩ : pipeValid now.pipes (a0.setWidth 32).toInt = true ∧
        rangeChecked pool heap build a1 a2 = true := by simpa using refused
    rw [readTurns_inside pool heap build checked valid, valid]
    by_cases positive : 0 < (a2.setWidth 32).toInt
    · refine iff_of_true (fun rn bytes returned => ?_) (.inl positive)
      have few := readTurns_length returned
      have asked : 0 < requested a2 := by
        unfold requested
        omega
      omega
    · have empty : requested a2 = 0 := Int.toNat_of_nonpos (by omega)
      simp only [positive, false_or, Bool.true_eq_false, empty]
      rw [← Bool.not_eq_true, ← readTurns_stores_iff _ 0]
      constructor
      · rintro few ⟨rn, bytes, returned, filled⟩
        exact filled (List.length_eq_zero_iff.mp (Nat.le_zero.mp (few rn bytes returned)))
      · intro quiet rn bytes returned
        by_contra filled
        exact quiet ⟨rn, bytes, returned, fun none_ => filled (by simp [none_])⟩

end Call

def oneByte : Turn where
  pipes := fun _ => ⟨fun _ => 120, 0, 1, 1, 1, true⟩
  note := false

def noPages : Build := ⟨⟨fun _ => 0, 0⟩, ⟨⟨∅, ∅⟩, fun _ => none⟩⟩

/-- A read of no bytes stores one at an address of the kernel that nobody checked. -/
theorem empty_read_stores :
    pipeRead smallPool smallHeap.toHeap noPages oneByte [] 0 0x80200000 0 =
        some (1, [(0x80200000, 120)]) ∧
      ¬ StoresInside smallPool smallHeap.toHeap noPages oneByte [] 0 0x80200000 0 := by
  have stored : pipeRead smallPool smallHeap.toHeap noPages oneByte [] 0 0x80200000 0 =
      some (1, [(0x80200000, 120)]) := by
    decide
  refine ⟨stored, fun inside => ?_⟩
  have few := (inside _ _ stored).1
  revert few
  decide

end Racccoon.Pipes
