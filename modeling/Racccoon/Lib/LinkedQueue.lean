import Mathlib.Data.List.Basic

/-!
Singly linked queues threaded through a table: `next` maps a cell to its
successor and 0 is the null link. `Chain next first cells` says that following
`next` from `first` visits exactly `cells` and then ends. The two loops of an
intrusive queue (walk to the last cell, search for the link that points at a
cell) take a bound on their passes, as code does that must not hang on a cycle.
-/

namespace Racccoon.LinkedQueue
open Function (update update_self update_of_ne)

inductive Chain (next : Nat → Nat) : Nat → List Nat → Prop where
  | nil : Chain next 0 []
  | cons {first : Nat} {rest : List Nat} (present : first ≠ 0)
      (tail : Chain next (next first) rest) : Chain next first (first :: rest)

/-- The last cell reached from `cell` in at most `guard` passes. -/
def lastFrom (next : Nat → Nat) : Nat → Nat → Nat
  | cell, 0 => cell
  | cell, guard + 1 => if next cell ≠ 0 then lastFrom next (next cell) guard else cell

/-- The cell after `cell` whose link points at `target`, if at most `guard` links
have to be read to find it. -/
def linkTo (next : Nat → Nat) (target : Nat) : Nat → Nat → Option Nat
  | _, 0 => none
  | cell, guard + 1 =>
    if next cell = 0 then none
    else if next cell = target then some cell
    else linkTo next target (next cell) guard

variable {next changed : Nat → Nat} {first cell : Nat} {cells rest : List Nat}

theorem Chain.first_eq_zero (chain : Chain next first cells) : first = 0 ↔ cells = [] := by
  cases chain with
  | nil => simp
  | cons present => simp [present]

theorem Chain.starts {start : Nat} (chain : Chain next start (first :: rest)) : start = first := by
  cases chain
  rfl

section
variable (chain : Chain next first cells)
include chain

theorem Chain.present (member : cell ∈ cells) : cell ≠ 0 := by
  induction chain with
  | nil => cases member
  | cons present _ ih =>
    rcases List.mem_cons.mp member with same | later
    · exact same ▸ present
    · exact ih later

theorem Chain.unique (other : Chain next first rest) : cells = rest := by
  induction chain generalizing rest with
  | nil =>
    cases other with
    | nil => rfl
    | cons present => exact absurd rfl present
  | cons present _ ih =>
    cases other with
    | nil => exact absurd rfl present
    | cons _ tail => rw [ih tail]

theorem Chain.suffix (member : cell ∈ cells) :
    ∃ before after, cells = before ++ cell :: after ∧ Chain next cell (cell :: after) := by
  induction chain with
  | nil => cases member
  | @cons first rest present tail ih =>
    rcases List.mem_cons.mp member with same | later
    · subst same
      exact ⟨[], rest, rfl, .cons present tail⟩
    · obtain ⟨before, after, split, chain⟩ := ih later
      exact ⟨first :: before, after, by rw [split, List.cons_append], chain⟩

theorem Chain.nodup : cells.Nodup := by
  induction chain with
  | nil => exact List.nodup_nil
  | @cons first rest present tail ih =>
    refine List.nodup_cons.mpr ⟨fun again => ?_, ih⟩
    obtain ⟨before, after, split, chain⟩ := tail.suffix again
    have shorter : first :: after = first :: rest := chain.unique (.cons present tail)
    have lengths := congrArg List.length split
    rw [List.cons.inj shorter |>.2] at lengths
    simp only [List.length_append, List.length_cons] at lengths
    omega

theorem Chain.congr (same : ∀ cell ∈ cells, changed cell = next cell) : Chain changed first cells := by
  induction chain with
  | nil => exact .nil
  | @cons first _ present _ ih =>
    refine .cons present ?_
    rw [same first List.mem_cons_self]
    exact ih fun cell member => same cell (List.mem_cons_of_mem _ member)

theorem Chain.update_outside (outside : cell ∉ cells)
    (link : Nat) : Chain (update next cell link) first cells :=
  chain.congr fun other member =>
    update_of_ne (fun same => outside (by rwa [← same])) _ _

end
theorem Chain.lastFrom (chain : Chain next first (first :: rest)) {guard : Nat}
    (enough : rest.length ≤ guard) :
    lastFrom next first guard = (first :: rest).getLast (List.cons_ne_nil _ _) := by
  induction rest generalizing first guard with
  | nil =>
    cases chain with
    | cons _ tail =>
      have ends : next first = 0 := tail.first_eq_zero.mpr rfl
      cases guard <;> simp [LinkedQueue.lastFrom, ends]
  | cons second _ ih =>
    cases chain with
    | cons _ tail =>
      have second_eq : next first = second := tail.starts
      rw [second_eq] at tail
      cases guard with
      | zero => simp at enough
      | succ =>
        have continues : next first ≠ 0 := by
          rw [second_eq]
          exact tail.present List.mem_cons_self
        rw [LinkedQueue.lastFrom, if_pos continues, second_eq, ih tail (by simpa using enough)]
        simp

/-- Linking a fresh cell behind the last one appends it. -/
theorem Chain.append {last : Nat} {before : List Nat} (chain : Chain next first (before ++ [last]))
    (fresh : cell ∉ before ++ [last]) (present : cell ≠ 0) (ends : next cell = 0) :
    Chain (update next last cell) first (before ++ [last] ++ [cell]) := by
  induction before generalizing first with
  | nil =>
    cases chain with
    | cons occupied =>
      have apart : cell ≠ last := by simpa using fresh
      refine .cons occupied ?_
      rw [update_self]
      refine .cons present ?_
      rw [update_of_ne apart, ends]
      exact .nil
  | cons head _ ih =>
    cases chain with
    | cons occupied tail =>
      have nodup := (Chain.cons occupied tail).nodup
      have apart : head ≠ last := by
        rintro rfl
        simp at nodup
      refine .cons occupied ?_
      rw [update_of_ne apart]
      exact ih tail (fun member => fresh (List.mem_cons_of_mem _ member))

/-- Redirecting the link before `cell` past it removes it. -/
theorem Chain.unlink {link : Nat} {before after : List Nat}
    (chain : Chain next first (before ++ link :: cell :: after)) :
    Chain (update next link (next cell)) first (before ++ link :: after) := by
  induction before generalizing first with
  | nil =>
    cases chain with
    | cons occupied tail =>
      have nodup := (Chain.cons occupied tail).nodup
      have second_eq : next link = cell := tail.starts
      rw [second_eq] at tail
      cases tail with
      | cons _ tail =>
        refine .cons occupied ?_
        rw [update_self]
        refine tail.update_outside ?_ _
        simp only [List.nodup_cons, List.mem_cons, not_or] at nodup
        exact nodup.1.2
  | cons head _ ih =>
    cases chain with
    | cons occupied tail =>
      have nodup := (Chain.cons occupied tail).nodup
      have apart : head ≠ link := by
        rintro rfl
        simp at nodup
      refine .cons occupied ?_
      rw [update_of_ne apart]
      exact ih tail

/-- The search finds the predecessor of a member that is not the first cell. -/
theorem Chain.linkTo_mem (chain : Chain next first (first :: rest)) (member : cell ∈ rest)
    (guard : Nat) (enough : rest.length ≤ guard) :
    ∃ before link after, first :: rest = before ++ link :: cell :: after ∧
      linkTo next cell first guard = some link := by
  induction rest generalizing first guard with
  | nil => cases member
  | cons second rest ih =>
    cases chain with
    | cons _ tail =>
      have second_eq : next first = second := tail.starts
      rw [second_eq] at tail
      have continues : second ≠ 0 := tail.present List.mem_cons_self
      cases guard with
      | zero => simp at enough
      | succ guard =>
        by_cases hit : second = cell
        · subst hit
          refine ⟨[], first, rest, rfl, ?_⟩
          simp [LinkedQueue.linkTo, second_eq, continues]
        · have later : cell ∈ rest := by
            simpa [Ne.symm hit] using member
          obtain ⟨before, link, after, split, found⟩ :=
            ih tail later guard (by simpa using enough)
          refine ⟨first :: before, link, after, by rw [split, List.cons_append], ?_⟩
          simp [LinkedQueue.linkTo, second_eq, continues, hit, found]

theorem Chain.linkTo_none (chain : Chain next first (first :: rest)) (absent : cell ∉ rest)
    (guard : Nat) : linkTo next cell first guard = none := by
  induction rest generalizing first guard with
  | nil =>
    cases chain with
    | cons _ tail =>
      have ends : next first = 0 := tail.first_eq_zero.mpr rfl
      cases guard <;> simp [LinkedQueue.linkTo, ends]
  | cons second _ ih =>
    cases chain with
    | cons _ tail =>
      have second_eq : next first = second := tail.starts
      rw [second_eq] at tail
      simp only [List.mem_cons, not_or] at absent
      cases guard with
      | zero => rfl
      | succ =>
        simp [LinkedQueue.linkTo, second_eq, Ne.symm absent.1, ih tail absent.2]

end Racccoon.LinkedQueue
