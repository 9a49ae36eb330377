import Mathlib.Data.List.Basic

/-!
A file as the list of its items, written in place. A splice replaces the items from a
place on, and what stands behind the end is added.
-/

namespace Racccoon.Splices

universe u
variable {α : Type u} {content items more : List α} {place : Nat}

def splice (content : List α) (place : Nat) (items : List α) : List α :=
  content.take place ++ items ++ content.drop (place + items.length)

theorem splice_nil (content : List α) (place : Nat) : splice content place [] = content := by
  simp [splice]

theorem splice_zero (content items : List α) :
    splice content 0 items = items ++ content.drop items.length := by
  simp [splice]

theorem splice_end (content items : List α) :
    splice content content.length items = content ++ items := by
  simp [splice]

theorem length_splice (inside : place ≤ content.length) :
    (splice content place items).length = max content.length (place + items.length) := by
  simp only [splice, List.length_append, List.length_take, List.length_drop]
  omega

theorem getElem?_splice (inside : place ≤ content.length) (index : Nat) :
    (splice content place items)[index]? =
      if place ≤ index ∧ index < place + items.length then items[index - place]?
      else content[index]? := by
  unfold splice
  have front : (content.take place).length = place := by
    rw [List.length_take, Nat.min_eq_left inside]
  by_cases below : index < place
  · rw [List.append_assoc, List.getElem?_append_left (by omega), List.getElem?_take_of_lt below,
      if_neg (by omega)]
  · by_cases within : index < place + items.length
    · rw [List.getElem?_append_left (by rw [List.length_append]; omega),
        List.getElem?_append_right (by omega), front, if_pos ⟨by omega, within⟩]
    · rw [List.getElem?_append_right (by rw [List.length_append]; omega), List.getElem?_drop,
        List.length_append, front, if_neg (by omega)]
      congr 1
      omega

theorem splice_splice (inside : place ≤ content.length) :
    splice (splice content place items) (place + items.length) more =
      splice content place (items ++ more) := by
  have front : (content.take place ++ items).length = place + items.length := by
    simp [Nat.min_eq_left inside]
  have kept : (splice content place items).take (place + items.length) =
      content.take place ++ items := by
    rw [splice, List.take_append_of_le_length (Nat.le_of_eq front.symm), ← front,
      List.take_length]
  have rest : (splice content place items).drop (place + items.length + more.length) =
      content.drop (place + items.length + more.length) := by
    rw [splice, List.drop_append]
    simp [front]
  rw [splice, kept, rest, splice]
  simp [Nat.add_assoc]

end Racccoon.Splices
