import Mathlib.Algebra.GroupWithZero.Nat
import Mathlib.Data.List.Infix
import Mathlib.Logic.Relation
import Racccoon.Shell.Expansion

/-!
File name patterns and brace groups (`user/shell_words.c3`). `glob_match` compares with one
place to come back to, the last star, and tries the literal comparison before the star;
`shell_brace_rec` looks at the first brace of a word only, and reads each word it has
assembled again from the start.
-/

namespace Racccoon.Shell

/-- What is left of the pattern and of the name, and both behind the last star. -/
def globLoop : Nat → List Byte → List Byte → Option (List Byte × List Byte) → Option Bool
  | 0, _, _, _ => none
  | _ + 1, pat, [], _ => some ((pat.dropWhile (· = star)).isEmpty)
  | fuel + 1, pat, c :: name, saved =>
    if pat.head? = some questionMark ∨ pat.head? = some c then
      globLoop fuel pat.tail name saved
    else if pat.head? = some star then
      globLoop fuel pat.tail (c :: name) (some (pat.tail, c :: name))
    else
      match saved with
      | some (behind, rest) => globLoop fuel behind rest.tail (some (behind, rest.tail))
      | none => some false

def globFuel (pat name : List Byte) : Nat :=
  (name.length + 1) * (pat.length + name.length + 1) + pat.length + name.length + 1

/-- `glob_match`, with fuel for its loop. -/
def globMatch (pat name : List Byte) : Option Bool := globLoop (globFuel pat name) pat name none

def InGlob : List Byte → List Byte → Prop
  | [], name => name = []
  | p :: pat, name =>
    if p = star then ∃ late, late <:+ name ∧ InGlob pat late
    else ∃ c rest, name = c :: rest ∧ (p = questionMark ∨ p = c) ∧ InGlob pat rest

def Answers (verdict : Option Bool) (holds : Prop) : Prop :=
  ∃ answer, verdict = some answer ∧ (answer = true ↔ holds)

variable {pat name behind kept : List Byte} {p c : Byte} {fuel : Nat}

theorem inGlob_star : InGlob (star :: pat) name ↔ ∃ late, late <:+ name ∧ InGlob pat late := by
  rw [InGlob, if_pos rfl]

theorem inGlob_one (plain : p ≠ star) :
    InGlob (p :: pat) name ↔
      ∃ c rest, name = c :: rest ∧ (p = questionMark ∨ p = c) ∧ InGlob pat rest := by
  rw [InGlob, if_neg plain]

theorem inGlob_star_of (held : InGlob pat name) : InGlob (star :: pat) name :=
  inGlob_star.mpr ⟨name, List.suffix_rfl, held⟩

theorem inGlob_star_cons :
    InGlob (star :: pat) (c :: name) ↔ InGlob pat (c :: name) ∨ InGlob (star :: pat) name := by
  simp only [inGlob_star, List.suffix_cons_iff, or_and_right, exists_or, exists_eq_left]

theorem inGlob_nil : InGlob pat [] ↔ (pat.dropWhile (· = star)).isEmpty = true := by
  induction pat with
  | nil => simp [InGlob]
  | cons p pat ih =>
    by_cases wild : p = star
    · subst wild
      rw [inGlob_star, List.dropWhile_cons_of_pos (by simp), ← ih]
      simp
    · rw [inGlob_one wild, List.dropWhile_cons_of_neg (by simpa using wild)]
      simp

/-- Behind a star that was passed at `kept`: a match from there is a match from here, and a
later one leaves a later one here. -/
structure Passed (behind kept pat name : List Byte) : Prop where
  same : InGlob behind kept ↔ InGlob pat name
  later : ∀ late, late <:+ kept → InGlob behind late → ∃ rest, rest <:+ name ∧ InGlob pat rest
  inPat : pat.length ≤ behind.length
  inName : name.length ≤ kept.length

theorem Passed.here : Passed pat name pat name :=
  ⟨Iff.rfl, fun late inside held => ⟨late, inside, held⟩, le_rfl, le_rfl⟩

theorem inGlob_one_cons (plain : p ≠ star) :
    InGlob (p :: pat) (c :: name) ↔ (p = questionMark ∨ p = c) ∧ InGlob pat name := by
  rw [inGlob_one plain]
  constructor
  · rintro ⟨c', rest, same, alike, held⟩
    obtain ⟨rfl, rfl⟩ := List.cons.inj same
    exact ⟨alike, held⟩
  · rintro ⟨alike, held⟩
    exact ⟨c, name, rfl, alike, held⟩

theorem Passed.next (passed : Passed behind kept (p :: pat) (c :: name)) (plain : p ≠ star)
    (alike : p = questionMark ∨ p = c) : Passed behind kept pat name where
  same := by rw [passed.same, inGlob_one_cons plain, and_iff_right alike]
  later late inside held := by
    obtain ⟨rest, within, matched⟩ := passed.later late inside held
    obtain ⟨d, rest, rfl, -, matched⟩ := (inGlob_one plain).mp matched
    refine ⟨rest, ?_, matched⟩
    rcases List.suffix_cons_iff.mp within with same | deeper
    · rw [(List.cons.inj same).2]
    · exact (List.suffix_cons d rest).trans deeper
  inPat := by have := passed.inPat; simp at this; omega
  inName := by have := passed.inName; simp at this; omega

/-- From a saved star on, the loop decides whether some later place matches. -/
theorem globLoop_passed (bound : Nat) (clean : star ∉ kept) (passed : Passed behind kept pat name)
    (inside : name <:+ kept) (small : behind.length + kept.length ≤ bound)
    (enough : kept.length * bound + pat.length + name.length < fuel) :
    Answers (globLoop fuel pat name (some (behind, kept))) (InGlob (star :: behind) kept) := by
  induction fuel generalizing pat name behind kept with
  | zero => omega
  | succ fuel ih =>
    cases name with
    | nil =>
      refine ⟨_, rfl, ?_⟩
      rw [← inGlob_nil]
      constructor
      · exact fun held => ⟨kept, List.suffix_rfl, passed.same.mpr held⟩
      · rintro ⟨late, within, held⟩
        obtain ⟨rest, none_, matched⟩ := passed.later late within held
        rwa [List.suffix_nil.mp none_] at matched
    | cons c name =>
      have fresh : c ≠ star := fun same =>
        clean (inside.subset (same ▸ List.mem_cons_self))
      obtain ⟨first, kept', rfl⟩ : ∃ first kept', kept = first :: kept' := by
        cases kept with
        | nil => simp at inside
        | cons first kept' => exact ⟨first, kept', rfl⟩
      rw [globLoop]
      have retry (missed : ¬ InGlob pat (c :: name)) :
          Answers (globLoop fuel behind kept' (some (behind, kept')))
            (InGlob (star :: behind) (first :: kept')) := by
        rw [inGlob_star_cons, passed.same, or_iff_right missed]
        refine ih (fun held => clean (List.mem_cons_of_mem _ held)) .here List.suffix_rfl
          (by simp at small; omega) ?_
        simp only [List.length_cons, Nat.succ_mul] at small enough
        omega
      cases pat with
      | nil =>
        exact retry (by simp [InGlob])
      | cons p pat =>
        simp only [List.head?_cons, List.tail_cons, Option.some.injEq]
        by_cases alike : p = questionMark ∨ p = c
        · have plain : p ≠ star := by
            rintro rfl
            rcases alike with mark | same
            · exact absurd mark (by decide)
            · exact fresh same.symm
          rw [if_pos alike]
          refine ih clean (passed.next plain alike)
            ((List.suffix_cons c name).trans inside) small ?_
          simp only [List.length_cons] at enough ⊢
          omega
        · rw [if_neg alike]
          by_cases wild : p = star
          · subst wild
            have shorter : kept'.length + 1 ≥ name.length + 1 := passed.inName
            have scaled := Nat.mul_le_mul_right bound shorter
            have inBehind := passed.inPat
            have whole : InGlob (star :: behind) (first :: kept') ↔
                InGlob (star :: pat) (c :: name) := by
              constructor
              · intro held
                obtain ⟨late, within, matched⟩ := inGlob_star.mp held
                obtain ⟨rest, within, matched⟩ := passed.later late within matched
                obtain ⟨late, deeper, matched⟩ := inGlob_star.mp matched
                exact inGlob_star.mpr ⟨late, deeper.trans within, matched⟩
              · exact fun held => inGlob_star_of (passed.same.mpr held)
            rw [whole]
            refine ih (fun held => clean (inside.subset held)) .here List.suffix_rfl ?_ ?_
            · simp only [List.length_cons] at small inBehind ⊢
              omega
            · simp only [List.length_cons] at enough ⊢
              omega
          · rw [if_neg wild]
            exact retry fun held => alike ((inGlob_one_cons wild).mp held).1

theorem globLoop_decides {bound : Nat} (clean : star ∉ name)
    (small : pat.length + name.length ≤ bound)
    (enough : (name.length + 1) * bound + pat.length + name.length < fuel) :
    Answers (globLoop fuel pat name none) (InGlob pat name) := by
  induction fuel generalizing pat name with
  | zero => omega
  | succ fuel ih =>
    cases name with
    | nil => exact ⟨_, rfl, inGlob_nil.symm⟩
    | cons c name =>
      rw [globLoop]
      cases pat with
      | nil => exact ⟨false, by simp, by simp [InGlob]⟩
      | cons p pat =>
        simp only [List.head?_cons, List.tail_cons, Option.some.injEq]
        have scaled : (name.length + 1) * bound ≤ (name.length + 1 + 1) * bound :=
          Nat.mul_le_mul_right bound (Nat.le_succ _)
        simp only [List.length_cons] at small enough
        by_cases alike : p = questionMark ∨ p = c
        · have plain : p ≠ star := by
            rintro rfl
            rcases alike with mark | same
            · exact absurd mark (by decide)
            · exact clean (same ▸ List.mem_cons_self)
          rw [if_pos alike, inGlob_one_cons plain, and_iff_right alike]
          exact ih (fun held => clean (List.mem_cons_of_mem _ held)) (by omega) (by omega)
        · rw [if_neg alike]
          by_cases wild : p = star
          · subst wild
            refine globLoop_passed bound clean .here List.suffix_rfl
              (by simp only [List.length_cons]; omega) ?_
            simp only [List.length_cons]
            omega
          · rw [if_neg wild]
            exact ⟨false, rfl, by simp [inGlob_one_cons wild, alike]⟩

theorem globMatch_decides (clean : star ∉ name) : Answers (globMatch pat name) (InGlob pat name) :=
  globLoop_decides clean (Nat.le_succ _) (Nat.lt_succ_self _)

/-- A pattern that is passed byte by byte saves no star. -/
theorem globLoop_literal (text : List Byte) :
    globLoop (fuel + text.length) (text ++ pat) (text ++ name) none =
      globLoop fuel pat name none := by
  induction text with
  | nil => rfl
  | cons c text ih =>
    rw [List.length_cons, ← Nat.add_assoc, List.cons_append, List.cons_append, globLoop,
      if_pos (.inr rfl)]
    exact ih

theorem globLoop_marks (left : List Byte) (enough : left.length < fuel) :
    globLoop fuel (List.replicate (left.length + 1) questionMark) left none = some false := by
  induction left generalizing fuel with
  | nil =>
    obtain ⟨fuel, rfl⟩ := Nat.exists_eq_add_one.mpr (Nat.zero_lt_of_lt enough)
    rfl
  | cons c left ih =>
    obtain ⟨fuel, rfl⟩ := Nat.exists_eq_add_one.mpr (Nat.zero_lt_of_lt enough)
    exact ih (by simpa using enough)

theorem inGlob_literal {text : List Byte} (clean : star ∉ text) (held : InGlob pat name) :
    InGlob (text ++ pat) (text ++ name) := by
  induction text with
  | nil => exact held
  | cons c text ih =>
    have plain : c ≠ star := fun same => clean (same ▸ List.mem_cons_self)
    rw [List.cons_append, List.cons_append, inGlob_one_cons plain]
    exact ⟨.inr rfl, ih fun inside => clean (List.mem_cons_of_mem _ inside)⟩

theorem inGlob_marks (name : List Byte) :
    InGlob (List.replicate name.length questionMark) name := by
  induction name with
  | nil => rfl
  | cons c name ih =>
    rw [List.length_cons, List.replicate_succ, inGlob_one_cons (by decide)]
    exact ⟨.inl rfl, ih⟩

/-- A name with a star is missed by the pattern that is the name up to there and marks behind. -/
theorem globMatch_misses (starred : star ∈ name) :
    ∃ pat, globMatch pat name = some false ∧ InGlob pat name := by
  obtain ⟨before, after, rfl, clean⟩ := List.eq_append_cons_of_mem starred
  refine ⟨before ++ star :: List.replicate (after.length + 1) questionMark, ?_, ?_⟩
  · have room : before.length + after.length + 2 ≤
        globFuel (before ++ star :: List.replicate (after.length + 1) questionMark)
          (before ++ star :: after) := by
      simp only [globFuel, List.length_append, List.length_cons]
      omega
    obtain ⟨fuel, whole⟩ := Nat.exists_eq_add_of_le room
    rw [globMatch, whole, show before.length + after.length + 2 + fuel =
      after.length + 1 + fuel + 1 + before.length by omega, globLoop_literal]
    exact globLoop_marks after (by omega)
  · exact inGlob_literal clean (inGlob_star_of (inGlob_marks (star :: after)))

def comma : Byte := 0x2C

def braceMax : Nat := 24
def braceDepth : Nat := 8

/-- `combo[256]`, with its NUL. -/
def comboMax : Nat := 255

/-- What an unquoted byte is to the brace scan. -/
inductive Mark where
  | opens | closes | separates | text
  deriving DecidableEq

def markOf (b : Out) : Mark :=
  if b.2 then .text
  else if b.1 = openBrace then .opens
  else if b.1 = closeBrace then .closes
  else if b.1 = comma then .separates
  else .text

/-- The text of a group between its commas, and what stands behind it. -/
structure Group where
  first : List Out
  others : List (List Out)
  post : List Out

def Group.alts (group : Group) : List (List Out) := group.first :: group.others

def depthAfter (depth : Nat) : Mark → Nat
  | .opens => depth + 1
  | .closes => depth - 1
  | _ => depth

/-- A group read behind its brace, with `depth` more braces open. -/
def groupFrom : Nat → List Out → Option Group
  | _, [] => none
  | depth, b :: rest =>
    if depth = 0 ∧ markOf b = .closes then some ⟨[], [], rest⟩
    else if depth = 0 ∧ markOf b = .separates then
      (groupFrom 0 rest).map fun group => ⟨[], group.alts, group.post⟩
    else (groupFrom (depthAfter depth (markOf b)) rest).map fun group =>
      { group with first := b :: group.first }

/-- `shell_brace_split`: the first unquoted brace, when it is matched. -/
def braceSplit : List Out → Option (List Out × Group)
  | [] => none
  | b :: rest =>
    if markOf b = .opens then (groupFrom 0 rest).map fun group => ([], group)
    else (braceSplit rest).map fun (pre, group) => (b :: pre, group)

/-- `buf` up to `*bo`, and the words in it. -/
structure Packed where
  used : Nat
  words : List (List Byte)

def bytes (text : List Out) : List Byte := text.map Prod.fst

/-- The text whose `qm` is null. -/
def unmasked (text : List Out) : List Out := text.map fun b => (b.1, false)

def braceEmit (bufCap resMax : Nat) (text : List Out) (out : Packed) : Packed :=
  if resMax ≤ out.words.length ∨ bufCap - 1 ≤ out.used + text.length then out
  else ⟨out.used + text.length + 1, out.words ++ [bytes text]⟩

/-- `shell_brace_rec`, this far from `BRACE_DEPTH`. -/
def braceRec (bufCap resMax : Nat) : Nat → List Out → Packed → Packed
  | 0, text, out => braceEmit bufCap resMax text out
  | left + 1, text, out =>
    match braceSplit text with
    | none => braceEmit bufCap resMax text out
    | some (pre, group) =>
      if group.others.length = 0 ∨ braceMax ≤ group.others.length ∨
          resMax ≤ out.words.length then
        braceEmit bufCap resMax text out
      else
        group.alts.foldl (fun out alt =>
          braceRec bufCap resMax left (unmasked ((pre ++ alt ++ group.post).take comboMax)) out)
          out

/-- `shell_brace_expand`, behind what is packed already. -/
def braceExpand (bufCap resMax used : Nat) (text : List Out) : List (List Byte) :=
  (braceRec bufCap resMax braceDepth text ⟨used, []⟩).words

def groupAt (b : Out) (rest : List Out) : Option Group :=
  if markOf b = .opens then (groupFrom 0 rest).filter fun group => group.others.length ≠ 0 else none

/-- The ways a group is read. -/
inductive Reads : Nat → List Out → Group → Prop
  | ends {b rest} : markOf b = .closes → Reads 0 (b :: rest) ⟨[], [], rest⟩
  | comma {b rest group} : markOf b = .separates → Reads 0 rest group →
      Reads 0 (b :: rest) ⟨[], group.alts, group.post⟩
  | byte {depth b rest group} : (depth = 0 → markOf b ≠ .closes ∧ markOf b ≠ .separates) →
      Reads (depthAfter depth (markOf b)) rest group →
      Reads depth (b :: rest) { group with first := b :: group.first }

variable {text rest tail pre : List Out} {group : Group} {b : Out} {depth left : Nat}

theorem groupFrom_reads : groupFrom depth text = some group ↔ Reads depth text group := by
  constructor
  · intro found
    induction text generalizing depth group with
    | nil => cases found
    | cons b rest ih =>
      rw [groupFrom] at found
      split at found
      next ends =>
        obtain rfl := Option.some.inj found
        exact ends.1 ▸ .ends ends.2
      next inner =>
        split at found
        next splits =>
          obtain ⟨group, read, rfl⟩ := Option.map_eq_some_iff.mp found
          exact splits.1 ▸ .comma splits.2 (ih read)
        next other =>
          obtain ⟨group, read, rfl⟩ := Option.map_eq_some_iff.mp found
          exact .byte (fun top => ⟨fun h => inner ⟨top, h⟩, fun h => other ⟨top, h⟩⟩) (ih read)
  · intro reads
    induction reads with
    | ends close => simp [groupFrom, close]
    | comma split _ ih => simp [groupFrom, split, ih]
    | byte inner _ ih =>
      rw [groupFrom, if_neg fun h => (inner h.1).1 h.2, if_neg fun h => (inner h.1).2 h.2, ih,
        Option.map_some]

theorem Reads.parts (reads : Reads depth text group) :
    group.post <:+ text ∧ group.first <+: text ∧ ∀ alt ∈ group.others, alt <:+: text := by
  induction reads with
  | ends => exact ⟨List.suffix_cons _ _, List.nil_prefix, by simp⟩
  | @comma b rest _ _ _ ih =>
    have within := List.suffix_cons b rest
    exact ⟨ih.1.trans within, List.nil_prefix, List.forall_mem_cons.mpr
      ⟨ih.2.1.isInfix.trans within.isInfix, fun alt mem => (ih.2.2 alt mem).trans within.isInfix⟩⟩
  | @byte _ b rest _ _ _ ih =>
    have within := List.suffix_cons b rest
    exact ⟨ih.1.trans within, List.cons_prefix_cons.mpr ⟨rfl, ih.2.1⟩,
      fun alt mem => (ih.2.2 alt mem).trans within.isInfix⟩

theorem Reads.alts_inside (reads : Reads depth text group) : ∀ alt ∈ group.alts, alt <:+: text :=
  List.forall_mem_cons.mpr ⟨reads.parts.2.1.isInfix, reads.parts.2.2⟩

theorem Reads.append (reads : Reads depth text group) :
    Reads depth (text ++ tail) { group with post := group.post ++ tail } := by
  induction reads with
  | ends close => exact .ends close
  | comma split _ ih => exact .comma split ih
  | byte inner _ ih => exact .byte inner ih

theorem groupAt_some (found : groupAt b rest = some group) :
    markOf b = .opens ∧ Reads 0 rest group ∧ group.others.length ≠ 0 := by
  rw [groupAt] at found
  split at found
  next brace =>
    obtain ⟨read, several⟩ := Option.filter_eq_some_iff.mp found
    exact ⟨brace, groupFrom_reads.mp read, by simpa using several⟩
  next => cases found

/-- The words of a text: a group with a comma stands for each of its alternatives in turn,
before all that follows it; every other byte for itself. -/
def expansions : List Out → List (List Byte)
  | [] => [[]]
  | b :: rest =>
    match _found : groupAt b rest with
    | none => (expansions rest).map (b.1 :: ·)
    | some group =>
      (group.alts.attach.flatMap fun alt => expansions alt.1).flatMap fun word =>
        (expansions group.post).map (word ++ ·)
termination_by text => text.length
decreasing_by
  · simp
  · have := (groupAt_some _found).2.1.parts.1.length_le
    simp only [List.length_cons]
    omega
  · have := ((groupAt_some _found).2.1.alts_inside alt.1 alt.2).length_le
    simp only [List.length_cons]
    omega

theorem expansions_one (plain : groupAt b rest = none) :
    expansions (b :: rest) = (expansions rest).map (b.1 :: ·) := by
  rw [expansions]
  split
  next => rfl
  next found => rw [plain] at found; cases found

theorem expansions_group (found : groupAt b rest = some group) :
    expansions (b :: rest) = (group.alts.flatMap expansions).flatMap fun word =>
      (expansions group.post).map (word ++ ·) := by
  rw [expansions]
  split
  next plain => rw [found] at plain; cases plain
  next other =>
    rw [found] at other
    obtain rfl := Option.some.inj other
    simp

def Closed : List Out → Prop
  | [] => True
  | b :: rest => (markOf b = .opens → (groupFrom 0 rest).isSome) ∧ Closed rest

theorem Closed.suffix (closed : Closed text) (inside : rest <:+ text) : Closed rest := by
  induction text with
  | nil => rw [List.suffix_nil.mp inside]; trivial
  | cons b text ih =>
    rcases List.suffix_cons_iff.mp inside with rfl | inside
    · exact closed
    · exact ih closed.2 inside

theorem depthAfter_add {mark : Mark} (inner : depth = 0 → mark ≠ .closes) (outer : Nat) :
    depthAfter (outer + depth) mark = outer + depthAfter depth mark := by
  cases mark with
  | closes =>
    have := Nat.pos_of_ne_zero fun top => inner top rfl
    simp only [depthAfter]
    omega
  | _ => rfl

/-- How many commas a group has, read from here. -/
def width (depth : Nat) (text : List Out) : Option Nat :=
  (groupFrom depth text).map fun group => group.others.length

theorem width_cons (depth : Nat) (b : Out) (rest : List Out) :
    width depth (b :: rest) =
      if depth = 0 ∧ markOf b = .closes then some 0
      else if depth = 0 ∧ markOf b = .separates then (width 0 rest).map (· + 1)
      else width (depthAfter depth (markOf b)) rest := by
  unfold width
  rw [groupFrom]
  split
  · rfl
  · split <;> simp [Function.comp_def, Group.alts]

/-- An alternative counts for nothing in the groups around it, and so does the whole group. -/
theorem Reads.width (reads : Reads depth text group) (outer : Nat) :
    Shell.width (outer + 1 + depth) text = Shell.width outer group.post ∧
      (∀ tail, Shell.width (outer + depth) (group.first ++ tail) = Shell.width outer tail) ∧
      ∀ alt ∈ group.others, ∀ tail, Shell.width outer (alt ++ tail) = Shell.width outer tail := by
  induction reads with
  | ends close =>
    simp [width_cons, depthAfter, close]
  | comma split _ ih =>
    refine ⟨?_, fun _ => rfl, List.forall_mem_cons.mpr ⟨ih.2.1, ih.2.2⟩⟩
    rw [← ih.1]
    simp [width_cons, depthAfter, split]
  | @byte depth b rest group inner _ ih =>
    refine ⟨?_, fun tail => ?_, ih.2.2⟩
    · rw [width_cons, if_neg (by omega), if_neg (by omega),
        depthAfter_add fun top => (inner top).1]
      exact ih.1
    · rw [List.cons_append, width_cons, if_neg fun h => (inner (by omega)).1 h.2,
        if_neg fun h => (inner (by omega)).2 h.2, depthAfter_add fun top => (inner top).1]
      exact ih.2.1 tail

theorem Reads.closed (reads : Reads depth text group) :
    (∀ outer < depth, (groupFrom outer group.first).isSome) ∧
      ∀ alt ∈ group.alts, Closed alt := by
  induction reads with
  | ends => exact ⟨by omega, by simp [Group.alts, Closed]⟩
  | comma _ _ ih => exact ⟨by omega, List.forall_mem_cons.mpr ⟨trivial, ih.2⟩⟩
  | @byte depth b rest group inner _ ih =>
    obtain ⟨first, others⟩ := List.forall_mem_cons.mp ih.2
    refine ⟨fun outer less => ?_, List.forall_mem_cons.mpr ⟨⟨fun brace => ?_, first⟩, others⟩⟩
    · have deeper (mark : Mark) (open_ : ¬ (outer = 0 ∧ mark = .closes)) :
          depthAfter outer mark < depthAfter depth mark := by
        cases mark <;> simp [depthAfter] at open_ ⊢ <;> omega
      rw [groupFrom]
      split
      · rfl
      next open_ =>
        have read := ih.1 _ (deeper _ open_)
        split
        next split => simpa [split.1, split.2, depthAfter] using read
        next => simpa using read
    · exact ih.1 0 (by rw [brace]; exact Nat.succ_pos _)

theorem groupAt_append (found : groupAt b rest = some group) :
    groupAt b (rest ++ tail) = some { group with post := group.post ++ tail } := by
  obtain ⟨brace, reads, several⟩ := groupAt_some found
  rw [groupAt, if_pos brace, groupFrom_reads.mpr reads.append, Option.filter_some,
    if_pos (by simpa using several)]

theorem expansions_append (closed : Closed text) :
    expansions (text ++ tail) =
      (expansions text).flatMap fun word => (expansions tail).map (word ++ ·) := by
  fun_induction expansions text with
  | case1 => simp
  | case2 b rest plain ih =>
    have still : groupAt b (rest ++ tail) = none := by
      unfold groupAt at plain ⊢
      split
      next brace =>
        rw [if_pos brace] at plain
        obtain ⟨group, read⟩ := Option.isSome_iff_exists.mp (closed.1 brace)
        rw [groupFrom_reads.mpr (groupFrom_reads.mp read).append]
        rw [read] at plain
        simpa using plain
      next => rfl
    rw [List.cons_append, expansions_one still, ih closed.2, List.map_flatMap, List.flatMap_map]
    simp [Function.comp_def]
  | case3 b rest group found ihPost =>
    have behind := ihPost (closed.2.suffix (groupAt_some found).2.1.parts.1)
    rw [List.cons_append, expansions_group (groupAt_append found)]
    simp only [behind, List.flatMap_assoc, List.map_flatMap, List.flatMap_map, List.flatMap_subtype, List.unattach_attach]
    simp [Function.comp_def, Group.alts]

/-- The first group with a comma, and what stands before it. -/
def firstGroup : List Out → Option (List Out × Group)
  | [] => none
  | b :: rest =>
    match groupAt b rest with
    | some group => some ([], group)
    | none => (firstGroup rest).map fun (pre, group) => (b :: pre, group)

/-- The text expanded as `shell_brace_expand` documents it: quoting is honoured at the first
group, and in a word it has assembled every brace counts. -/
def expandWord (text : List Out) : List (List Byte) :=
  match firstGroup text with
  | none => [bytes text]
  | some (pre, group) =>
    group.alts.flatMap fun alt => expansions (unmasked (pre ++ alt ++ group.post))

theorem firstGroup_found (found : firstGroup text = some (pre, group)) :
    ∃ b rest, text = pre ++ b :: rest ∧ groupAt b rest = some group := by
  induction text generalizing pre with
  | nil => cases found
  | cons b rest ih =>
    rw [firstGroup] at found
    cases here : groupAt b rest with
    | some group' =>
      rw [here] at found
      cases found
      exact ⟨b, rest, rfl, here⟩
    | none =>
      rw [here] at found
      obtain ⟨⟨pre, group⟩, deeper, same⟩ := Option.map_eq_some_iff.mp found
      cases same
      obtain ⟨first, behind, rfl, at_⟩ := ih deeper
      exact ⟨first, behind, rfl, at_⟩

theorem width_append (same : ∀ depth, width depth text = width depth rest) (pre : List Out)
    (depth : Nat) : width depth (pre ++ text) = width depth (pre ++ rest) := by
  induction pre generalizing depth with
  | nil => exact same depth
  | cons b pre ih => simp only [List.cons_append, width_cons, ih]

theorem groupAt_width (found : groupAt b rest = some group) {alt : List Out}
    (inside : alt ∈ group.alts) (depth : Nat) :
    width depth (alt ++ group.post) = width depth (b :: rest) := by
  obtain ⟨brace, reads, -⟩ := groupAt_some found
  rw [width_cons, if_neg (by simp [brace]), if_neg (by simp [brace]), brace]
  obtain ⟨whole, first, others⟩ := reads.width depth
  refine Eq.trans ?_ whole.symm
  rcases List.mem_cons.mp inside with rfl | inside
  · exact first _
  · exact others _ inside _

theorem expansions_none (plain : firstGroup text = none) : expansions text = [bytes text] := by
  induction text with
  | nil => rw [expansions]; rfl
  | cons b rest ih =>
    rw [firstGroup] at plain
    cases here : groupAt b rest with
    | some group => rw [here] at plain; cases plain
    | none =>
      rw [here] at plain
      rw [expansions_one here, ih (Option.map_eq_none_iff.mp plain)]
      rfl

theorem groupAt_of_width (same : width 0 text = width 0 rest) :
    groupAt b text = none ↔ groupAt b rest = none := by
  have none_iff (text : List Out) : groupAt b text = none ↔
      (markOf b = .opens → ∀ commas ∈ width 0 text, commas = 0) := by
    unfold groupAt width
    split
    next brace => simp [brace]
    next brace => simp [brace]
  rw [none_iff, none_iff, same]

/-- The product of the alternatives with what follows is the same as to expand each word that
an alternative gives. -/
theorem expansions_split (found : firstGroup text = some (pre, group)) :
    expansions text = group.alts.flatMap fun alt => expansions (pre ++ alt ++ group.post) := by
  induction text generalizing pre with
  | nil => cases found
  | cons b rest ih =>
    rw [firstGroup] at found
    cases here : groupAt b rest with
    | some group' =>
      rw [here] at found
      cases found
      rw [expansions_group here, List.flatMap_assoc]
      refine List.flatMap_congr fun alt inside => ?_
      exact (expansions_append ((groupAt_some here).2.1.closed.2 alt inside)).symm
    | none =>
      rw [here] at found
      obtain ⟨⟨pre, group⟩, deeper, same⟩ := Option.map_eq_some_iff.mp found
      cases same
      rw [expansions_one here, ih deeper, List.map_flatMap]
      refine List.flatMap_congr fun alt inside => ?_
      obtain ⟨first, behind, rfl, at_⟩ := firstGroup_found deeper
      refine (expansions_one ((groupAt_of_width ?_).mpr here)).symm
      rw [List.append_assoc]
      exact width_append (groupAt_width at_ inside) pre 0

theorem unmasked_plain (plain : ∀ b ∈ text, b.2 = false) : unmasked text = text := by
  refine (List.map_congr_left fun b mem => ?_).trans (List.map_id text)
  exact Prod.ext rfl (plain b mem).symm

/-- Without quotes the two agree. -/
theorem expandWord_plain (plain : ∀ b ∈ text, b.2 = false) : expandWord text = expansions text := by
  unfold expandWord
  cases found : firstGroup text with
  | none => exact (expansions_none found).symm
  | some split =>
    rw [expansions_split found]
    obtain ⟨b, rest, rfl, at_⟩ := firstGroup_found found
    have reads := (groupAt_some at_).2.1
    refine List.flatMap_congr fun alt inside => ?_
    rw [unmasked_plain fun c mem => plain c ?_]
    rcases List.mem_append.mp mem with mem | mem
    · rcases List.mem_append.mp mem with mem | mem
      · exact List.mem_append_left _ mem
      · exact List.mem_append_right _ (.tail _ ((reads.alts_inside alt inside).subset mem))
    · exact List.mem_append_right _ (.tail _ (reads.parts.1.subset mem))

/-- The group of the first unquoted brace, when it has a comma. -/
def headGroup (text : List Out) : Option (List Out × Group) :=
  (braceSplit text).filter fun split => split.2.others.length ≠ 0

theorem headGroup_first {split : List Out × Group} (found : headGroup text = some split) :
    firstGroup text = some split := by
  obtain ⟨read, several⟩ := Option.filter_eq_some_iff.mp found
  clear found
  induction text generalizing split with
  | nil => cases read
  | cons b rest ih =>
    rw [braceSplit] at read
    rw [firstGroup, groupAt]
    split at read
    next brace =>
      obtain ⟨group, inner, rfl⟩ := Option.map_eq_some_iff.mp read
      rw [if_pos brace, inner, Option.filter_some, if_pos several]
    next brace =>
      obtain ⟨deeper, inner, rfl⟩ := Option.map_eq_some_iff.mp read
      rw [if_neg brace, ih inner several]
      rfl

def assembled (split : List Out × Group) (alt : List Out) : List Out :=
  unmasked (split.1 ++ alt ++ split.2.post)

/-- One alternative taken of the group at the first brace. -/
inductive Chosen (text : List Out) : List Out → Prop
  | take {split alt} : headGroup text = some split → alt ∈ split.2.alts →
      Chosen text (assembled split alt)

/-- However alternatives are chosen, no brace that stays literal stands before a group with a
comma. -/
def GroupsFirst (text : List Out) : Prop :=
  ∀ later, Relation.ReflTransGen Chosen text later → headGroup later = none →
    firstGroup later = none

/-- The capacities of the way to the words: alternatives, levels, bytes of a word. -/
def Roomy : Nat → List Out → Prop
  | 0, text => headGroup text = none
  | left + 1, text => ∀ split, headGroup text = some split →
      split.2.others.length < braceMax ∧ ∀ alt ∈ split.2.alts,
        (split.1 ++ alt ++ split.2.post).length ≤ comboMax ∧ Roomy left (assembled split alt)

def packedBytes (words : List (List Byte)) : Nat := (words.map fun word => word.length + 1).sum

structure Within (bufCap resMax used : Nat) (text : List Out) : Prop where
  roomy : Roomy braceDepth text
  words : (expandWord text).length ≤ resMax
  bytes : used + packedBytes (expandWord text) < bufCap

theorem expansions_ne_nil (text : List Out) : expansions text ≠ [] := by
  fun_induction expansions text with
  | case1 => simp
  | case2 => simpa
  | case3 b rest group found ihPost ihAlts =>
    obtain ⟨first, mem⟩ := List.exists_mem_of_ne_nil _ (ihAlts ⟨group.first, List.mem_cons_self⟩)
    obtain ⟨last, mem'⟩ := List.exists_mem_of_ne_nil _ ihPost
    refine List.ne_nil_of_mem (a := first ++ last) (List.mem_flatMap.mpr ⟨first, ?_, ?_⟩)
    · exact List.mem_flatMap.mpr ⟨_, List.mem_attach _ _, mem⟩
    · exact List.mem_map_of_mem mem'

theorem expandWord_several {split : List Out × Group} (found : firstGroup text = some split) :
    1 < (expandWord text).length := by
  obtain ⟨b, rest, -, at_⟩ := firstGroup_found found
  obtain ⟨alt, others, more⟩ := List.exists_cons_of_length_pos
    (Nat.pos_of_ne_zero (groupAt_some at_).2.2)
  have one (text : List Out) : 0 < (expansions text).length :=
    List.length_pos_iff.mpr (expansions_ne_nil text)
  have here := one (unmasked (split.1 ++ split.2.first ++ split.2.post))
  have next := one (unmasked (split.1 ++ alt ++ split.2.post))
  rw [expandWord, found]
  simp only [Group.alts, more, List.flatMap_cons, List.length_append]
  omega

theorem groupsFirst_iff : GroupsFirst text ↔
    (headGroup text = none → firstGroup text = none) ∧
      ∀ split, headGroup text = some split → ∀ alt ∈ split.2.alts,
        GroupsFirst (assembled split alt) := by
  constructor
  · exact fun first => ⟨first text .refl, fun split found alt inside later chosen =>
      first later (.head (.take found inside) chosen)⟩
  · rintro ⟨here, deeper⟩ later chosen
    rcases Relation.ReflTransGen.cases_head chosen with rfl | ⟨next, step, chosen⟩
    · exact here
    · cases step with
      | take found inside => exact deeper _ found _ inside later chosen

variable {bufCap resMax : Nat} {out next after : Packed} {words : List (List Byte)} {first : Prop}

/-- What a part of the run adds: these words if the groups come first and there is room, never
more of them, and fewer if a brace stands before a group. -/
structure Adds (bufCap resMax : Nat) (out after : Packed) (words : List (List Byte))
    (first : Prop) : Prop where
  whole : first → out.words.length + words.length ≤ resMax →
    out.used + packedBytes words < bufCap →
    after = ⟨out.used + packedBytes words, out.words ++ words⟩
  atMost : after.words.length ≤ out.words.length + words.length
  fewer : ¬ first → after.words.length < out.words.length + words.length

theorem packedBytes_append (words more : List (List Byte)) :
    packedBytes (words ++ more) = packedBytes words + packedBytes more := by
  simp [packedBytes]

theorem Adds.fold {α : Type} {add : Packed → α → Packed} {words : α → List (List Byte)}
    {first : α → Prop} (items : List α)
    (each : ∀ item ∈ items, ∀ out, Adds bufCap resMax out (add out item) (words item) (first item))
    (out : Packed) :
    Adds bufCap resMax out (items.foldl add out) (items.flatMap words)
      (∀ item ∈ items, first item) := by
  induction items generalizing out with
  | nil => exact ⟨fun _ _ _ => by simp [packedBytes], le_rfl, by simp⟩
  | cons item items ih =>
    have here := each item List.mem_cons_self out
    have later := ih (fun item mem => each item (.tail _ mem)) (add out item)
    rw [List.foldl_cons, List.flatMap_cons]
    refine ⟨fun all count room => ?_, ?_, fun missed => ?_⟩
    · rw [List.length_append] at count
      rw [packedBytes_append] at room ⊢
      have whole := here.whole (all item List.mem_cons_self) (by omega) (by omega)
      rw [later.whole (fun item mem => all item (.tail _ mem)) ?_ ?_, whole]
      · simp [Nat.add_assoc]
      · rw [whole, List.length_append]
        omega
      · rw [whole]
        dsimp only
        omega
    · have := here.atMost
      have := later.atMost
      rw [List.length_append]
      omega
    · have := here.atMost
      have := later.atMost
      rw [List.length_append]
      rcases Classical.em (first item) with held | held
      · have := later.fewer fun all => missed (List.forall_mem_cons.mpr ⟨held, all⟩)
        omega
      · have := here.fewer held
        omega

theorem braceEmit_adds (bufCap resMax : Nat) (text : List Out) (out : Packed) :
    Adds bufCap resMax out (braceEmit bufCap resMax text out) [bytes text] True := by
  have size : packedBytes [bytes text] = text.length + 1 := by simp [packedBytes, bytes]
  unfold braceEmit
  refine ⟨fun _ count room => ?_, ?_, by simp⟩
  · rw [size] at room ⊢
    rw [List.length_singleton] at count
    rw [if_neg (by omega)]
    rfl
  · split <;> simp

theorem braceEmit_stops (head : headGroup text = none) (out : Packed) :
    Adds bufCap resMax out (braceEmit bufCap resMax text out) (expandWord text)
      (GroupsFirst text) := by
  have adds := braceEmit_adds bufCap resMax text out
  rw [groupsFirst_iff]
  cases first : firstGroup text with
  | none => simpa [head, expandWord, first] using adds
  | some split =>
    have several := expandWord_several first
    have atMost := adds.atMost
    rw [List.length_singleton] at atMost
    exact ⟨fun held => by simp [head] at held, by omega, fun _ => by omega⟩

theorem braceRec_adds (bufCap resMax : Nat) (roomy : Roomy left text) (out : Packed) :
    Adds bufCap resMax out (braceRec bufCap resMax left text out) (expandWord text)
      (GroupsFirst text) := by
  induction left generalizing text out with
  | zero => exact braceEmit_stops roomy out
  | succ left ih =>
    rw [braceRec]
    cases head : headGroup text with
    | none =>
      split
      next => exact braceEmit_stops head out
      next pre group read =>
        have alone := head
        rw [headGroup, read] at alone
        rw [if_pos (.inl (by simpa using alone))]
        exact braceEmit_stops head out
    | some split =>
      obtain ⟨pre, group⟩ := split
      obtain ⟨read, several⟩ := Option.filter_eq_some_iff.mp head
      obtain ⟨few, deeper⟩ := roomy _ head
      have first := headGroup_first head
      rw [read]
      dsimp only at few several ⊢
      by_cases full : resMax ≤ out.words.length
      · rw [if_pos (.inr (.inr full)), braceEmit, if_pos (.inl full)]
        have := expandWord_several first
        exact ⟨fun _ count => by omega, by omega, fun _ => by omega⟩
      · have words : expandWord text =
            group.alts.flatMap fun alt => expandWord (assembled (pre, group) alt) := by
          rw [expandWord, first]
          refine List.flatMap_congr fun alt _ => (expandWord_plain fun b mem => ?_).symm
          obtain ⟨b, -, rfl⟩ := List.mem_map.mp mem
          rfl
        have all : GroupsFirst text ↔
            ∀ alt ∈ group.alts, GroupsFirst (assembled (pre, group) alt) := by
          rw [groupsFirst_iff, head]
          simp
        rw [if_neg (by simp only [decide_eq_true_eq] at several; omega), words, all]
        refine Adds.fold group.alts (fun alt inside out => ?_) out
        rw [List.take_of_length_le (deeper alt inside).1]
        exact ih (deeper alt inside).2 out

/-- `glob_match` is right about a name for every pattern when the name has no star, and
`shell_brace_expand` gives the words of the reference when no brace that stays literal comes
before a group. -/
theorem patterns_right_iff (name : List Byte) (bufCap resMax used : Nat) (text : List Out) :
    ((∀ pat, Answers (globMatch pat name) (InGlob pat name)) ↔ star ∉ name) ∧
      (Within bufCap resMax used text →
        (braceExpand bufCap resMax used text = expandWord text ↔ GroupsFirst text)) := by
  refine ⟨⟨fun right starred => ?_, fun clean pat => globMatch_decides clean⟩, fun within => ?_⟩
  · obtain ⟨pat, missed, held⟩ := globMatch_misses starred
    obtain ⟨answer, given, right⟩ := right pat
    obtain rfl := Option.some.inj (missed.symm.trans given)
    cases right.mpr held
  · have adds := braceRec_adds bufCap resMax within.roomy ⟨used, []⟩
    constructor
    · intro same
      by_contra missed
      have fewer := adds.fewer missed
      rw [← braceExpand, same] at fewer
      simp at fewer
    · intro first
      rw [braceExpand, adds.whole first (by simpa using within.words) within.bytes]
      rfl

/-- Two groups, the first without a comma. -/
def twoGroups : List Out :=
  [0x7B, 0x61, 0x7D, 0x7B, 0x62, 0x2C, 0x63, 0x7D].map fun c => (c, false)

theorem literal_group_first : braceExpand 1024 24 0 twoGroups ≠ expandWord twoGroups := by
  have head : headGroup twoGroups = none := rfl
  have words : expandWord twoGroups = [[0x7B, 0x61, 0x7D, 0x62], [0x7B, 0x61, 0x7D, 0x63]] := by
    have first : firstGroup twoGroups =
        some (twoGroups.take 3, ⟨[(0x62, false)], [[(0x63, false)]], []⟩) := rfl
    rw [expandWord, first]
    simp only [Group.alts, List.flatMap_cons]
    rw [expansions_none rfl, expansions_none rfl]
    rfl
  have within : Within 1024 24 0 twoGroups := by
    refine ⟨fun split found => ?_, ?_, ?_⟩
    · cases found
    · rw [words]
      decide
    · rw [words]
      decide
  intro same
  have first := ((patterns_right_iff [] 1024 24 0 twoGroups).2 within).mp same
  cases first twoGroups .refl head

/-- The pattern of all names, and a name that begins with a star. -/
theorem star_misses_starred :
    ¬ Answers (globMatch [star] [star, 0x61]) (InGlob [star] [star, 0x61]) := by
  rintro ⟨answer, given, right⟩
  obtain rfl := Option.some.inj given
  exact absurd (right.mpr (inGlob_star.mpr ⟨[], List.nil_suffix, rfl⟩)) (by decide)

end Racccoon.Shell
