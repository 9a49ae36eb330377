import Mathlib.Algebra.GroupWithZero.Nat
import Mathlib.Data.List.DropRight
import Mathlib.Data.List.Infix

/-!
Paths as texts over an alphabet with a separator. A text is read as the nonempty runs
between separators, two names stand for the directory itself and for the one above it,
and a list of components is written with or without a separator in front. The last part
is about a text of bounded length that is kept in place of the list: what it loses, and
when it is right in the end all the same.
-/

namespace Racccoon.PathForms

universe u
variable {α : Type u} [DecidableEq α]
variable (sep : α)

def segments (text : List α) : List (List α) := (text.splitOn sep).filter (· ≠ [])

def IsName (name : List α) : Prop := name ≠ [] ∧ sep ∉ name

def settleStep (here up : List α) (stack : List (List α)) (run : List α) : List (List α) :=
  if run = here then stack
  else if run = up then stack.dropLast
  else stack ++ [run]

def settle (here up : List α) (runs : List (List α)) : List (List α) :=
  runs.foldl (settleStep here up) []

def written (rooted : Bool) (components : List (List α)) : List α :=
  (components.flatMap (sep :: ·)).drop (if rooted then 0 else 1)

def backed (text : List α) : List α := (text.rdropWhile (· ≠ sep)).dropLast

def lead (rooted : Bool) (text : List α) : List α :=
  if rooted = true ∨ text ≠ [] then [sep] else []

def depth (rooted : Bool) (text : List α) : Nat :=
  text.count sep + if rooted = true ∨ text = [] then 0 else 1

variable {sep : α} {here up name text : List α} {stack runs : List (List α)} {rooted : Bool}

theorem segments_nil : segments sep [] = [] := by simp [segments]

theorem segments_append_sep (sep : α) (before after : List α) :
    segments sep (before ++ sep :: after) = segments sep before ++ segments sep after := by
  simp [segments, List.splitOn_append_cons_self]

theorem segments_sep (after : List α) : segments sep (sep :: after) = segments sep after := by
  simpa [segments_nil] using segments_append_sep sep [] after

theorem segments_name (is : IsName sep name) : segments sep name = [name] := by
  simp [segments, List.splitOn_eq_singleton is.2, is.1]

theorem not_mem_splitOn {piece : List α} (member : piece ∈ text.splitOn sep) : sep ∉ piece := by
  induction text generalizing piece with
  | nil =>
    simp only [List.splitOn_nil, List.mem_singleton] at member
    simp [member]
  | cons item rest ih =>
    rw [List.splitOn_cons_eq_if_modifyHead] at member
    by_cases same : item = sep
    · rw [if_pos (by simp [same])] at member
      rcases List.mem_cons.1 member with rfl | later
      · exact List.not_mem_nil
      · exact ih later
    · rw [if_neg (by simp [same])] at member
      obtain ⟨first, others, split⟩ :=
        List.exists_cons_of_ne_nil (List.splitOn_ne_nil sep rest)
      rw [split] at member
      rcases List.mem_cons.1 member with rfl | later
      · have kept : sep ∉ first := ih (by rw [split]; exact List.mem_cons_self)
        simp [kept, Ne.symm same]
      · exact ih (by rw [split]; exact List.mem_cons_of_mem _ later)

theorem segments_isName {run : List α} (member : run ∈ segments sep text) : IsName sep run := by
  obtain ⟨piece, nonempty⟩ := List.mem_filter.1 member
  exact ⟨by simpa using nonempty, not_mem_splitOn piece⟩

theorem settle_snoc (runs : List (List α)) (run : List α) :
    settle here up (runs ++ [run]) = settleStep here up (settle here up runs) run := by
  simp [settle]

theorem settle_subset {component : List α} (member : component ∈ settle here up runs) :
    component ∈ runs := by
  induction runs using List.reverseRecOn with
  | nil => simp [settle] at member
  | append_singleton _ _ ih =>
    rw [settle_snoc, settleStep] at member
    split at member
    · exact List.mem_append_left _ (ih member)
    · split at member
      · exact List.mem_append_left _ (ih (List.mem_of_mem_dropLast member))
      · rcases List.mem_append.1 member with kept | last
        · exact List.mem_append_left _ (ih kept)
        · exact List.mem_append_right _ last

omit [DecidableEq α] in
theorem written_nil : written sep rooted [] = [] := by simp [written]

section
variable (names : ∀ component ∈ stack, IsName sep component)
include names

omit [DecidableEq α] in
theorem written_eq_nil : written sep rooted stack = [] ↔ stack = [] := by
  cases stack with
  | nil => simp [written_nil]
  | cons first =>
    have nonempty := (names first List.mem_cons_self).1
    cases rooted <;> simp [written, nonempty]

theorem written_snoc : written sep rooted (stack ++ [name]) =
      written sep rooted stack ++ lead sep rooted (written sep rooted stack) ++ name := by
  cases rooted with
  | true => simp [written, lead]
  | false =>
    cases stack with
    | nil => simp [written, lead]
    | cons first =>
      have nonempty := (names first List.mem_cons_self).1
      simp [written, lead, nonempty]

theorem depth_written : depth sep rooted (written sep rooted stack) = stack.length := by
  have slashed : (stack.flatMap (sep :: ·)).count sep = stack.length := by
    induction stack with
    | nil => rfl
    | cons first _ ih =>
      have kept := ih fun component member => names component (List.mem_cons_of_mem _ member)
      rw [List.flatMap_cons, List.count_append, List.count_cons_self,
        List.count_eq_zero_of_not_mem (names first List.mem_cons_self).2, List.length_cons]
      omega
  cases rooted with
  | true => simpa [depth, written] using slashed
  | false =>
    cases stack with
    | nil => simp [depth, written]
    | cons first =>
      have nonempty := (names first List.mem_cons_self).1
      simpa [depth, written, nonempty] using slashed

end

def weight (runs : List (List α)) : Nat := (runs.map fun run => run.length + 1).sum

omit [DecidableEq α] in
theorem weight_append (before after : List (List α)) :
    weight (before ++ after) = weight before + weight after := by simp [weight]

omit [DecidableEq α] in
theorem weight_cons (run : List α) (rest : List (List α)) :
    weight (run :: rest) = run.length + 1 + weight rest := by simp [weight]

omit [DecidableEq α] in
theorem weight_sublist {before after : List (List α)} (inside : before.Sublist after) :
    weight before ≤ weight after := by
  induction inside with
  | slnil => exact Nat.le_refl _
  | cons _ _ ih =>
    simp only [weight, List.map_cons, List.sum_cons] at ih ⊢
    omega
  | cons_cons _ _ ih =>
    simp only [weight, List.map_cons, List.sum_cons] at ih ⊢
    omega

theorem weight_splitOn (sep : α) (text : List α) : weight (text.splitOn sep) = text.length + 1 := by
  induction text with
  | nil => rfl
  | cons _ rest ih =>
    rw [List.splitOn_cons_eq_if_modifyHead, List.length_cons, ← ih]
    split
    · simp [weight, Nat.add_comm]
    · obtain ⟨first, others, split⟩ :=
        List.exists_cons_of_ne_nil (List.splitOn_ne_nil sep rest)
      simp only [split, weight, List.modifyHead_cons, List.map_cons, List.sum_cons,
        List.length_cons]
      omega

theorem weight_segments (sep : α) (text : List α) : weight (segments sep text) ≤ text.length + 1 := by
  rw [← weight_splitOn sep]
  exact weight_sublist List.filter_sublist

omit [DecidableEq α] in
theorem length_bare (stack : List (List α)) :
    (written sep false stack).length = weight stack - 1 := by
  simp [written, weight]

theorem weight_settle (here up : List α) (runs : List (List α)) : weight (settle here up runs) ≤ weight runs := by
  induction runs using List.reverseRecOn with
  | nil => exact Nat.le_refl _
  | append_singleton _ _ ih =>
    rw [settle_snoc, settleStep, weight_append]
    split
    · omega
    · split
      · exact Nat.le_trans (weight_sublist (List.dropLast_sublist _))
          (Nat.le_trans ih (Nat.le_add_right _ _))
      · rw [weight_append]
        omega

theorem rdropWhile_name (plain : sep ∉ name) (text : List α) :
    (text ++ [sep] ++ name).rdropWhile (· ≠ sep) = text ++ [sep] := by
  induction name using List.reverseRecOn with
  | nil => simp
  | append_singleton name item ih =>
    obtain ⟨kept, other⟩ : sep ∉ name ∧ sep ≠ item := by simpa using plain
    rw [← List.append_assoc, List.rdropWhile_concat_pos _ _ _ (by simp [Ne.symm other])]
    exact ih kept

theorem rdropWhile_append_sep (before after : List α) :
    (before ++ sep :: after).rdropWhile (· ≠ sep) =
      before ++ sep :: after.rdropWhile (· ≠ sep) := by
  induction after using List.reverseRecOn with
  | nil => simp
  | append_singleton _ item ih =>
    rw [← List.cons_append, ← List.append_assoc]
    by_cases same : item = sep
    · rw [List.rdropWhile_concat_neg _ _ _ (by simp [same]),
        List.rdropWhile_concat_neg _ _ _ (by simp [same])]
      simp
    · rw [List.rdropWhile_concat_pos _ _ _ (by simp [same]),
        List.rdropWhile_concat_pos _ _ _ (by simp [same]), ih]

theorem backed_name (plain : sep ∉ name) (text : List α) :
    backed sep (text ++ [sep] ++ name) = text := by
  rw [backed, rdropWhile_name plain, List.dropLast_concat]

theorem backed_plain (plain : sep ∉ text) : backed sep text = [] := by
  have gone : text.rdropWhile (· ≠ sep) = [] :=
    List.rdropWhile_eq_nil_iff.2 fun item member =>
      decide_eq_true fun same => plain (same ▸ member)
  rw [backed, gone, List.dropLast_nil]

theorem split_last (sep : α) (text : List α) :
    sep ∉ text ∨ ∃ before name, sep ∉ name ∧ text = before ++ [sep] ++ name := by
  by_cases present : sep ∈ text
  · obtain ⟨after, rest, last, split⟩ := List.eq_append_cons_of_mem (List.mem_reverse.2 present)
    refine .inr ⟨rest.reverse, after.reverse, by simpa using split, ?_⟩
    simpa using congrArg List.reverse last
  · exact .inl present

theorem depth_backed (sep : α) (rooted : Bool) (text : List α) :
    depth sep rooted (backed sep text) ≤ depth sep rooted text - 1 := by
  rcases split_last sep text with plain | ⟨before, name, plain, rfl⟩
  · rw [backed_plain plain]
    simp [depth]
  · rw [backed_name plain]
    simp only [depth]
    split <;> split <;> simp_all

theorem backed_of_depth (flat : depth sep rooted text = 0) : backed sep text = [] := by
  refine backed_plain fun present => ?_
  have counted : 0 < text.count sep := List.count_pos_iff.2 present
  simp only [depth] at flat
  omega

section Bounded

/-- One more run, taken in by a text that holds `cap` items. -/
def capStep (sep : α) (here up : List α) (cap : Nat) (rooted : Bool) (text run : List α) :
    List α :=
  if run = here then text
  else if run = up then backed sep text
  else (text ++ lead sep rooted text ++ run).take cap

def capped (sep : α) (here up : List α) (cap : Nat) (rooted : Bool) (runs : List (List α)) :
    List α :=
  runs.foldl (capStep sep here up cap rooted) []

/-- Some run goes up to a directory that does not fit with a separator behind it, and no
later one is back at the root. -/
def Forgets (sep : α) (here up : List α) (cap : Nat) (rooted : Bool) (runs : List (List α)) :
    Prop :=
  ∃ before after, runs = before ++ up :: after ∧
    cap ≤ (written sep rooted (settle here up (before ++ [up]))).length ∧
    ∀ part, part <+: after → settle here up (before ++ up :: part) ≠ []

variable {cap : Nat} {run : List α}

theorem capped_snoc (runs : List (List α)) (run : List α) :
    capped sep here up cap rooted (runs ++ [run]) =
      capStep sep here up cap rooted (capped sep here up cap rooted runs) run := by
  simp [capped]

theorem Forgets.settle_ne (forgets : Forgets sep here up cap rooted runs) :
    settle here up runs ≠ [] := by
  obtain ⟨before, after, rfl, -, away⟩ := forgets
  exact away after (List.prefix_refl after)

theorem forgets_snoc :
    Forgets sep here up cap rooted (runs ++ [run]) ↔
      (Forgets sep here up cap rooted runs ∨
          run = up ∧ cap ≤ (written sep rooted (settle here up (runs ++ [up]))).length) ∧
        settle here up (runs ++ [run]) ≠ [] := by
  constructor
  · intro forgets
    refine ⟨?_, forgets.settle_ne⟩
    obtain ⟨before, after, split, far, away⟩ := forgets
    rcases List.eq_nil_or_concat after with rfl | ⟨earlier, last, rfl⟩
    · obtain ⟨rfl, same⟩ := List.append_inj' split rfl
      exact .inr ⟨by simpa using same, far⟩
    · rw [List.concat_eq_append, ← List.cons_append, ← List.append_assoc] at split
      obtain ⟨rfl, -⟩ := List.append_inj' split rfl
      exact .inl ⟨before, earlier, rfl, far, fun part inside =>
        away part (inside.trans (by rw [List.concat_eq_append]; exact List.prefix_append _ _))⟩
  · rintro ⟨⟨before, after, rfl, far, away⟩ | ⟨rfl, far⟩, still⟩
    · refine ⟨before, after ++ [run], by simp, far, fun part inside => ?_⟩
      rcases List.prefix_concat_iff.1 inside with rfl | shorter
      · simpa using still
      · exact away part shorter
    · refine ⟨runs, [], rfl, far, fun part inside => ?_⟩
      rw [List.prefix_nil.1 inside]
      exact still

theorem backed_take (names : ∀ component ∈ stack, IsName sep component) (is : IsName sep name)
    (fits : (written sep rooted stack).length < cap) :
    backed sep ((written sep rooted (stack ++ [name])).take cap) = written sep rooted stack := by
  have plain : sep ∉ name.take (cap - (written sep rooted stack).length - 1) :=
    fun inside => is.2 (List.mem_of_mem_take inside)
  rw [written_snoc names, List.append_assoc, List.take_append, List.take_of_length_le fits.le]
  unfold lead
  split
  · have behind : 1 ≤ cap - (written sep rooted stack).length := by omega
    rw [List.take_append, List.take_of_length_le behind, List.length_singleton,
      ← List.append_assoc, backed_name plain]
  · next alone =>
      obtain ⟨-, empty⟩ := not_or.1 alone
      rw [not_not.1 empty]
      exact backed_plain fun inside => is.2 (List.mem_of_mem_take inside)

theorem depth_take (sep : α) (rooted : Bool) (text : List α) (cap : Nat) :
    depth sep rooted (text.take cap) ≤ depth sep rooted text := by
  have fewer : (text.take cap).count sep ≤ text.count sep :=
    (List.take_sublist cap text).count_le sep
  by_cases ahead : rooted = true ∨ text = []
  · have still : rooted = true ∨ text.take cap = [] := ahead.imp_right fun empty => by simp [empty]
    rw [depth, depth, if_pos ahead, if_pos still]
    exact fewer
  · rw [depth, depth]
    split <;> omega

theorem depth_push (rooted : Bool) (cap : Nat) (is : IsName sep name) (text : List α) :
    depth sep rooted ((text ++ lead sep rooted text ++ name).take cap) ≤
      depth sep rooted text + 1 := by
  refine Nat.le_trans (depth_take sep rooted _ cap) ?_
  have plain := List.count_eq_zero_of_not_mem is.2
  by_cases behind : rooted = true ∨ text ≠ []
  · have some_text : text ++ [sep] ++ name ≠ [] := by simp
    rw [lead, if_pos behind, depth, depth, List.count_append, List.count_append, plain,
      List.count_singleton_self]
    rcases behind with rooted | nonempty
    · simp [rooted]
    · simp only [nonempty, some_text]
      omega
  · obtain ⟨bare, empty⟩ := not_or.1 behind
    rw [not_not.1 empty]
    simp [lead, depth, bare, plain, is.1]

omit [DecidableEq α] in
theorem take_push (text : List α) :
    (text.take cap ++ lead sep rooted (text.take cap) ++ name).take cap =
      (text ++ lead sep rooted text ++ name).take cap := by
  by_cases fits : text.length ≤ cap
  · rw [List.take_of_length_le fits]
  · have full : (text.take cap).length = cap := List.length_take_of_le (by omega)
    rw [List.append_assoc, List.append_assoc, List.take_append_of_le_length full.ge,
      List.take_append_of_le_length (by omega), List.take_of_length_le full.le]

/-- The text is the first `cap` items of what is written, until a run goes up to where
that does not fit. From then on it has too few components, until it is back at the root. -/
theorem capped_cases (rooted : Bool) (distinct : here ≠ up) (room : 0 < cap)
    (names : ∀ run ∈ runs, IsName sep run) :
    (¬ Forgets sep here up cap rooted runs → capped sep here up cap rooted runs =
        (written sep rooted (settle here up runs)).take cap) ∧
      (Forgets sep here up cap rooted runs →
        depth sep rooted (capped sep here up cap rooted runs) < (settle here up runs).length) := by
  induction runs using List.reverseRecOn with
  | nil =>
    refine ⟨fun _ => by simp [capped, settle, written], fun forgets => ?_⟩
    exact absurd rfl forgets.settle_ne
  | append_singleton runs run ih =>
    obtain ⟨kept, lost⟩ := ih fun run member => names run (List.mem_append_left _ member)
    have is : IsName sep run := names run (by simp)
    have components : ∀ component ∈ settle here up runs, IsName sep component :=
      fun component member => names component (List.mem_append_left _ (settle_subset member))
    rw [forgets_snoc, capped_snoc, settle_snoc, settle_snoc]
    by_cases same : run = here
    · simp only [settleStep, capStep, same, distinct, false_and, or_false]
      exact ⟨fun still => kept fun forgets => still ⟨forgets, forgets.settle_ne⟩,
        fun forgets => lost forgets.1⟩
    by_cases above : run = up
    · subst above
      simp only [settleStep, capStep, same, if_true, if_false, true_and]
      rcases List.eq_nil_or_concat (settle here run runs) with empty | ⟨init, last, split⟩
      · have remembers : ¬ Forgets sep here run cap rooted runs :=
          fun forgets => forgets.settle_ne empty
        rw [kept remembers, empty]
        simp [written, backed]
      rw [List.concat_eq_append] at split
      obtain ⟨inits, lastIs⟩ : (∀ component ∈ init, IsName sep component) ∧ IsName sep last := by
        rw [split] at components
        exact ⟨fun component member => components component (List.mem_append_left _ member),
          components last (by simp)⟩
      rw [split, List.dropLast_concat]
      constructor
      · intro still
        by_cases root : init = []
        · subst root
          rw [written_nil, List.take_nil]
          by_cases forgets : Forgets sep here run cap rooted runs
          · have fewer := lost forgets
            rw [split] at fewer
            exact backed_of_depth (Nat.lt_one_iff.1 fewer)
          · rw [kept forgets, split, backed_take inits lastIs (by simpa [written_nil] using room),
              written_nil]
        · obtain ⟨remembers, near⟩ := not_or.1 fun either => still ⟨either, root⟩
          rw [kept remembers, split, backed_take inits lastIs (Nat.not_le.1 near),
            List.take_of_length_le (Nat.le_of_not_le near)]
      · rintro ⟨either, away⟩
        have some_init := List.length_pos_iff.2 away
        have back := depth_backed sep rooted
          (capped sep here run cap rooted runs)
        by_cases forgets : Forgets sep here run cap rooted runs
        · have fewer := lost forgets
          rw [split, List.length_append, List.length_singleton] at fewer
          omega
        · have far := either.resolve_left forgets
          have cut : capped sep here run cap rooted runs =
              (written sep rooted init).take cap := by
            rw [kept forgets, split, written_snoc inits, List.append_assoc,
              List.take_append_of_le_length far]
          have atMost := depth_take sep rooted
            (written sep rooted init) cap
          rw [depth_written inits, ← cut] at atMost
          omega
    · simp only [settleStep, capStep, same, above, if_false, false_and, or_false]
      constructor
      · intro still
        have before := kept fun forgets => still ⟨forgets, by simp⟩
        rw [before, written_snoc components, take_push]
      · intro forgets
        have fewer := lost forgets.1
        have pushed := depth_push rooted cap is
          (capped sep here up cap rooted runs)
        rw [List.length_append, List.length_singleton]
        omega

/-- What the text is in the end right for. -/
theorem capped_eq_iff (distinct : here ≠ up) (room : 0 < cap)
    (names : ∀ run ∈ runs, IsName sep run) :
    capped sep here up cap rooted runs = written sep rooted (settle here up runs) ↔
      (written sep rooted (settle here up runs)).length ≤ cap ∧
        ¬ Forgets sep here up cap rooted runs := by
  obtain ⟨kept, lost⟩ := capped_cases rooted distinct room names
  have components : ∀ component ∈ settle here up runs, IsName sep component :=
    fun component member => names component (settle_subset member)
  constructor
  · intro right
    have remembers : ¬ Forgets sep here up cap rooted runs := by
      intro forgets
      have fewer := lost forgets
      rw [right, depth_written components] at fewer
      exact Nat.lt_irrefl _ fewer
    refine ⟨?_, remembers⟩
    rw [kept remembers] at right
    exact List.take_eq_self_iff _ |>.1 right
  · rintro ⟨fits, remembers⟩
    rw [kept remembers, List.take_of_length_le fits]

end Bounded

end Racccoon.PathForms
