import Mathlib.Data.List.Basic

/-!
A queue in a ring: an array of `capacity` places, the place of its first element and the
number of elements. What is queued is read from the first place on, wrapping around.
-/

namespace Racccoon.Ring

universe u
variable {Value : Type u}

def write (capacity : Nat) (cells : Nat → Value) : Nat → List Value → Nat → Value
  | _, [] => cells
  | place, value :: rest =>
    write capacity (Function.update cells (place % capacity) value) (place + 1) rest

def read (capacity : Nat) (cells : Nat → Value) (head length : Nat) : List Value :=
  (List.range length).map fun index => cells ((head + index) % capacity)

variable {capacity : Nat} {cells : Nat → Value}

@[simp] theorem read_length (head length : Nat) :
    (read capacity cells head length).length = length := by
  simp [read]

theorem read_zero (head : Nat) : read capacity cells head 0 = [] := rfl

theorem read_succ (head length : Nat) :
    read capacity cells head (length + 1) =
      read capacity cells head length ++ [cells ((head + length) % capacity)] := by
  simp [read, List.range_succ]

theorem mod_ne {head index place : Nat} (apart : head + index < place)
    (near : place < head + capacity) : (head + index) % capacity ≠ place % capacity := by
  intro same
  have wrapped := Nat.sub_mod_eq_zero_of_mod_eq same.symm
  have divides : capacity ∣ place - (head + index) := Nat.dvd_of_mod_eq_zero wrapped
  have large := Nat.le_of_dvd (by omega) divides
  omega

/-- A place behind the queue is not one of its places. -/
theorem read_update {head length place : Nat} {value : Value} (behind : head + length ≤ place)
    (near : place < head + capacity) :
    read capacity (Function.update cells (place % capacity) value) head length =
      read capacity cells head length := by
  apply List.map_congr_left
  intro index within
  have low := List.mem_range.mp within
  exact Function.update_of_ne (mod_ne (by omega) near) _ _

/-- What is written behind the queue is queued. -/
theorem read_write {head length : Nat} (values : List Value)
    (room : length + values.length ≤ capacity) :
    read capacity (write capacity cells (head + length) values) head (length + values.length) =
      read capacity cells head length ++ values := by
  induction values generalizing cells length with
  | nil => simp [write]
  | cons value rest ih =>
    simp only [List.length_cons] at room
    have grown := @ih (Function.update cells ((head + length) % capacity) value) (length + 1)
      (by omega)
    rw [read_succ, read_update (Nat.le_refl _) (by omega)] at grown
    rw [write, List.length_cons, show length + (rest.length + 1) = length + 1 + rest.length by omega]
    rw [show head + length + 1 = head + (length + 1) by omega, grown]
    simp

theorem read_drop (head length count : Nat) :
    read capacity cells ((head + count) % capacity) (length - count) =
      (read capacity cells head length).drop count := by
  apply List.ext_getElem
  · simp
  · intro index low _
    simp only [read, List.getElem_map, List.getElem_range, List.getElem_drop]
    rw [Nat.mod_add_mod, Nat.add_assoc]

theorem read_take (head length count : Nat) :
    read capacity cells head (min length count) =
      (read capacity cells head length).take count := by
  apply List.ext_getElem
  · simp [Nat.min_comm]
  · simp [read]

end Racccoon.Ring
