import Mathlib.Data.List.Basic

/-!
A memory whose values stand in groups of equal copies, and a buffer that holds one
group back: items change the value of their group, and the buffer is written to all
copies when an item of another group comes. Written out, the memory is the one that
changing every copy at once for each item leaves.
-/

namespace Racccoon.WriteBack

universe u v w x
variable {Item : Type u} {Group : Type v} {Key : Type w} {Value : Type x}

variable {change : Value → Value}

section Rewriting
variable [DecidableEq Key]

def rewrite (change : Value → Value) (keys : List Key) (memory : Key → Value) : Key → Value :=
  keys.foldl (fun memory key => Function.update memory key (change (memory key))) memory

theorem rewrite_apply (again : ∀ value, change (change value) = change value) (keys : List Key)
    (memory : Key → Value) (key : Key) :
    rewrite change keys memory key =
      if key ∈ keys then change (memory key) else memory key := by
  induction keys generalizing memory with
  | nil => simp [rewrite]
  | cons first rest ih =>
    have stepped : rewrite change (first :: rest) memory =
        rewrite change rest (Function.update memory first (change (memory first))) := rfl
    rw [stepped, ih]
    by_cases here : key = first
    · subst here
      simp [again]
    · simp [here]

theorem rewrite_of_mem {change : Value → Value}
    (again : ∀ value, change (change value) = change value)
    {keys : List Key} {key : Key} (member : key ∈ keys) (memory : Key → Value) :
    rewrite change keys memory key = change (memory key) := by
  rw [rewrite_apply again, if_pos member]

theorem rewrite_of_not_mem (change : Value → Value) {keys : List Key} {key : Key}
    (apart : key ∉ keys) (memory : Key → Value) : rewrite change keys memory key = memory key := by
  induction keys generalizing memory with
  | nil => rfl
  | cons first rest ih =>
    have parts := List.ne_and_not_mem_of_not_mem_cons apart
    have stepped : rewrite change (first :: rest) memory =
        rewrite change rest (Function.update memory first (change (memory first))) := rfl
    rw [stepped, ih parts.2, Function.update_of_ne parts.1]

end Rewriting

structure Layout (Group : Type v) (Key : Type w) where
  used : Group → Prop
  first : Group → Key
  copies : Group → List Key
  first_mem : ∀ group, first group ∈ copies group
  apart : ∀ group other key, used group → used other →
    key ∈ copies group → key ∈ copies other → group = other

def Mirrored (layout : Layout Group Key) (memory : Key → Value) : Prop :=
  ∀ group key, layout.used group → key ∈ layout.copies group →
    memory key = memory (layout.first group)

section Buffers
variable [DecidableEq Key] {layout : Layout Group Key}

variable {group : Group}

theorem Mirrored.rewrite {memory : Key → Value} (mirrored : Mirrored layout memory)
    (again : ∀ value, change (change value) = change value) (used : layout.used group) :
    Mirrored layout (rewrite change (layout.copies group) memory) := by
  intro other key usedOther copy
  by_cases member : key ∈ layout.copies group
  · obtain rfl := layout.apart group other key used usedOther member copy
    rw [rewrite_of_mem again member, rewrite_of_mem again (layout.first_mem group),
      mirrored group key used copy]
  · have outside : layout.first other ∉ layout.copies group := by
      intro inside
      obtain rfl := layout.apart group other _ used usedOther inside (layout.first_mem other)
      exact member copy
    rw [rewrite_of_not_mem change member, rewrite_of_not_mem change outside,
      mirrored other key usedOther copy]

def flush (layout : Layout Group Key) : Option (Group × Value) → (Key → Value) → Key → Value
  | none, memory => memory
  | some (group, value), memory => rewrite (fun _ => value) (layout.copies group) memory

theorem flush_of_mem {key : Key} (member : key ∈ layout.copies group) (value : Value)
    (memory : Key → Value) : flush layout (some (group, value)) memory key = value := by
  have written : rewrite (fun _ => value) (layout.copies group) memory key = value :=
    @rewrite_of_mem _ _ _ (fun _ => value) (fun _ => rfl) _ _ member memory
  exact written

theorem flush_of_not_mem {key : Key} (apart : key ∉ layout.copies group) (value : Value)
    (memory : Key → Value) : flush layout (some (group, value)) memory key = memory key := by
  have kept : rewrite (fun _ => value) (layout.copies group) memory key = memory key :=
    rewrite_of_not_mem _ apart memory
  exact kept

/-- A change of the value held back. -/
theorem flush_change (again : ∀ value, change (change value) = change value) (group : Group)
    (value : Value) (memory : Key → Value) :
    flush layout (some (group, change value)) memory =
      rewrite change (layout.copies group) (flush layout (some (group, value)) memory) := by
  funext key
  rw [rewrite_apply again]
  by_cases member : key ∈ layout.copies group
  · rw [if_pos member, flush_of_mem member, flush_of_mem member]
  · rw [if_neg member, flush_of_not_mem member, flush_of_not_mem member]

/-- A change of a value just read from the memory. -/
theorem flush_load {memory : Key → Value} (mirrored : Mirrored layout memory)
    (again : ∀ value, change (change value) = change value) (used : layout.used group) :
    flush layout (some (group, change (memory (layout.first group)))) memory =
      rewrite change (layout.copies group) memory := by
  funext key
  rw [rewrite_apply again]
  by_cases member : key ∈ layout.copies group
  · rw [if_pos member, flush_of_mem member, mirrored group key used member]
  · rw [if_neg member, flush_of_not_mem member]

/-- What a view of a group shows, when the change made to a group leaves the view. -/
theorem rewrite_view {View : Type*} {change : Value → Value}
    (again : ∀ value, change (change value) = change value) {view : Value → View}
    {group other : Group} (used : layout.used group) (usedOther : layout.used other)
    (kept : group = other → ∀ value, view (change value) = view value) (memory : Key → Value) :
    view (rewrite change (layout.copies group) memory (layout.first other)) =
      view (memory (layout.first other)) := by
  by_cases member : layout.first other ∈ layout.copies group
  · have same := layout.apart group other _ used usedOther member (layout.first_mem other)
    rw [rewrite_of_mem again member, kept same]
  · rw [rewrite_of_not_mem change member]

end Buffers

end Racccoon.WriteBack
