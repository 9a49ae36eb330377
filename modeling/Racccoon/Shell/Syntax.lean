import Racccoon.Shell.Stages

/-!
Which texts a value may be without changing the structure of a command. What a name or
command in double quotes stands for never does, behind the anchor of its quotes; what an
unquoted one stands for keeps its blanks and operators, as long as two values hold none the
structure is one.
-/

namespace Racccoon.Shell

def operatorByte (c : Byte) : Bool := c = pipe || c = lessThan || c = greaterThan

variable (metas : Byte → Bool)

/-- Some text, and in it no blank, no operator and no byte of `metas`. -/
def Harmless (text : List Byte) : Prop :=
  text ≠ [] ∧ ∀ c ∈ text, c ≠ 0 ∧ c ≠ blank ∧ operatorByte c = false ∧ metas c = false

instance (text : List Byte) : Decidable (Harmless metas text) :=
  inferInstanceAs (Decidable (_ ∧ _))

def ItemComparable (item : Item) (text₁ text₂ : List Byte) : Prop :=
  match item with
  | .variable _ true | .command _ true => 0 ∉ text₁ ∧ 0 ∉ text₂
  | .variable _ false | .command _ false =>
    text₁ = text₂ ∨ Harmless metas text₁ ∧ Harmless metas text₂
  | _ => True

def Comparable (metas : Byte → Bool) (env₁ env₂ : Env) : List Piece → Prop
  | [] => True
  | piece :: rest =>
    (∀ item ∈ piece.items,
      ItemComparable metas item (env₁ rest.length item) (env₂ rest.length item)) ∧
    Comparable metas env₁ env₂ rest

instance (item : Item) (text₁ text₂ : List Byte) :
    Decidable (ItemComparable metas item text₁ text₂) :=
  match item with
  | .variable _ true | .command _ true => inferInstanceAs (Decidable (_ ∧ _))
  | .variable _ false | .command _ false => inferInstanceAs (Decidable (_ ∨ _))
  | .byte _ _ | .anchor => inferInstanceAs (Decidable True)

instance decidableComparable (metas : Byte → Bool) (env₁ env₂ : Env) :
    (pieces : List Piece) → Decidable (Comparable metas env₁ env₂ pieces)
  | [] => inferInstanceAs (Decidable True)
  | _ :: rest =>
    have := decidableComparable metas env₁ env₂ rest
    inferInstanceAs (Decidable (_ ∧ _))

/-- The outputs differ in quoted bytes behind an anchor, and in harmless texts. `covered`
says that the byte before is quoted and behind an anchor. -/
inductive Alike (metas : Byte → Bool) : Bool → List Out → List Out → Prop where
  | nil (covered) : Alike metas covered [] []
  | both {covered out₁ out₂} (place : Out)
      (rest : Alike metas (place.2 && (covered || place.1 == shQmark)) out₁ out₂) :
      Alike metas covered (place :: out₁) (place :: out₂)
  | first {out₁ out₂} (c : Byte) (nonzero : c ≠ 0) (rest : Alike metas true out₁ out₂) :
      Alike metas true ((c, true) :: out₁) out₂
  | second {out₁ out₂} (c : Byte) (nonzero : c ≠ 0) (rest : Alike metas true out₁ out₂) :
      Alike metas true out₁ ((c, true) :: out₂)
  | texts {covered out₁ out₂} (text₁ text₂ : List Byte) (harmless₁ : Harmless metas text₁)
      (harmless₂ : Harmless metas text₂) (rest : Alike metas false out₁ out₂) :
      Alike metas covered (text₁.map (·, false) ++ out₁) (text₂.map (·, false) ++ out₂)

variable {metas : Byte → Bool}
variable {text : List Byte}
variable {out₁ out₂ : List Out}

theorem Alike.left (nonzero : 0 ∉ text) (rest : Alike metas true out₁ out₂) :
    Alike metas true (text.map (·, true) ++ out₁) out₂ := by
  induction text with
  | nil => exact rest
  | cons c _ ih =>
    simp only [List.mem_cons, not_or] at nonzero
    exact .first c (Ne.symm nonzero.1) (ih nonzero.2)

theorem Alike.right (nonzero : 0 ∉ text) (rest : Alike metas true out₁ out₂) :
    Alike metas true out₁ (text.map (·, true) ++ out₂) := by
  induction text with
  | nil => exact rest
  | cons c text ih =>
    simp only [List.mem_cons, not_or] at nonzero
    exact .second c (Ne.symm nonzero.1) (ih nonzero.2)

theorem Alike.same (rest : ∀ covered, Alike metas covered out₁ out₂) (covered : Bool) :
    Alike metas covered (text.map (·, false) ++ out₁) (text.map (·, false) ++ out₂) := by
  induction text generalizing covered with
  | nil => exact rest covered
  | cons c text ih => exact .both (c, false) (ih _)

theorem Harmless.take {text : List Byte} (harmless : Harmless metas text) {n : Nat}
    (positive : 0 < n) : Harmless metas (text.take n) := by
  obtain ⟨nonempty, all⟩ := harmless
  refine ⟨?_, fun c member => all c (List.mem_of_mem_take member)⟩
  cases text with
  | nil => exact absurd rfl nonempty
  | cons c rest =>
    obtain ⟨n, rfl⟩ := Nat.exists_eq_succ_of_ne_zero (Nat.pos_iff_ne_zero.mp positive)
    simp

/-- A name or a command outside quotes. -/
theorem Alike.outside {text₁ text₂ : List Byte}
    (texts : text₁ = text₂ ∨ Harmless metas text₁ ∧ Harmless metas text₂) {n : Nat}
    (positive : 0 < n) (rest : ∀ covered, Alike metas covered out₁ out₂) (covered : Bool) :
    Alike metas covered ((text₁.take n).map (·, false) ++ out₁)
      ((text₂.take n).map (·, false) ++ out₂) := by
  rcases texts with rfl | ⟨harmless₁, harmless₂⟩
  · exact .same rest covered
  · exact .texts _ _ (harmless₁.take positive) (harmless₂.take positive) (rest false)

/-- A name or a command inside double quotes. -/
theorem Alike.inside {text₁ text₂ : List Byte} (nonzero : 0 ∉ text₁ ∧ 0 ∉ text₂) (n : Nat)
    (rest : Alike metas true out₁ out₂) :
    Alike metas true ((text₁.take n).map (·, true) ++ out₁)
      ((text₂.take n).map (·, true) ++ out₂) :=
  .left (fun member => nonzero.1 (List.mem_of_mem_take member))
    (.right (fun member => nonzero.2 (List.mem_of_mem_take member)) rest)

/-- What a round puts out, by the loop it is in and the loop it leaves for. -/
inductive Puts : Mode → List Item → Mode → Prop where
  | nothing (mode) : Puts mode [] .plain
  | byte {mode next} (c : Byte) (quoted : Bool)
      (stays : next = .double → mode = .double ∧ quoted = true) :
      Puts mode [.byte c quoted] next
  | anchor {mode next} : Puts mode [.anchor] next
  | value {mode} (name : List Byte) : Puts mode [.variable name (mode = .double)] mode
  | result {mode} (text : List Byte) : Puts mode [.command text (mode = .double)] mode

theorem replacement_puts (mode : Mode) {c : Byte} {rest : List Byte} {item : Item} {span : Nat}
    (found : replacement (mode = .double) c rest = some (item, span)) : Puts mode [item] mode := by
  rw [replacement] at found
  split_ifs at found with named commanded
  · obtain ⟨⟨name, length⟩, -, parts⟩ := Option.map_eq_some_iff.mp found
    cases parts
    exact .value name
  · obtain ⟨⟨text, length⟩, -, parts⟩ := Option.map_eq_some_iff.mp found
    cases parts
    exact .result text

theorem round_puts (mode : Mode) (c : Byte) (rest : List Byte) :
    Puts mode (round mode c rest).piece.items (round mode c rest).mode := by
  cases mode with
  | plain =>
    simp only [round, plainRound]
    split_ifs
    · exact .byte _ true (by simp)
    · exact .anchor
    · exact .anchor
    · split
      · rename_i found
        exact replacement_puts .plain found
      · exact .byte c false (by simp)
  | single =>
    simp only [round, singleRound]
    split_ifs
    · exact .byte tick true (by simp)
    · exact .nothing .single
    · exact .byte c true (by simp)
  | double =>
    simp only [round, doubleRound]
    split_ifs
    · exact .nothing .double
    · exact .byte _ true (by simp)
    · split
      · rename_i found
        exact replacement_puts .double found
      · exact .byte c true (by simp)

/-- From a place of the text on the two outputs are alike. -/
theorem emitted_alike {env₁ env₂ : Env} {mode : Mode} {skip : Nat} {shield : Bool}
    {text : List Byte} (same : Comparable metas env₁ env₂ (scanText mode skip shield text))
    {covered : Bool} (anchored : mode = .double → covered = true) :
    Alike metas covered (emitted env₁ (scanText mode skip shield text))
      (emitted env₂ (scanText mode skip shield text)) := by
  induction text generalizing mode skip shield covered with
  | nil => cases mode <;> cases skip <;> exact .nil covered
  | cons c rest ih =>
    cases skip with
    | succ skip => exact ih same.2 anchored
    | zero =>
      rw [scanText] at same ⊢
      have next := fun covered => @ih _ _ _ same.2 covered
      have items := same.1
      have puts := round_puts mode c rest
      rw [emitted, emitted]
      generalize scanText (round mode c rest).mode (round mode c rest).skip
        (round mode c rest).shield rest = behind at next items
      generalize (round mode c rest).piece.items = put at items puts
      generalize (round mode c rest).mode = left at puts next
      cases puts with
      | nothing => exact next covered (by simp)
      | byte c quoted stays =>
        refine .both (c, quoted) (next _ fun double => ?_)
        obtain ⟨before, masked⟩ := stays double
        simp [masked, anchored before]
      | anchor => exact .both (shQmark, true) (next _ fun _ => by simp)
      | value =>
        have item := items _ (List.mem_singleton.mpr rfl)
        by_cases double : mode = .double
        · simp only [double, List.flatMap_singleton] at item ⊢
          rw [anchored double]
          exact .inside item valueMax (next true (by simp))
        · simp only [double, List.flatMap_singleton] at item ⊢
          exact .outside item (n := valueMax) (by decide)
            (fun covered => next covered (by simp [double])) covered
      | result =>
        have item := items _ (List.mem_singleton.mpr rfl)
        by_cases double : mode = .double
        · simp only [double, List.flatMap_singleton] at item ⊢
          rw [anchored double]
          exact .inside item outputMax (next true (by simp))
        · simp only [double, List.flatMap_singleton] at item ⊢
          exact .outside item (n := outputMax) (by decide)
            (fun covered => next covered (by simp [double])) covered

variable {covered : Bool}

theorem Alike.beforeNul (alike : Alike metas covered out₁ out₂) :
    Alike metas covered (beforeNul out₁) (beforeNul out₂) := by
  induction alike with
  | nil covered => exact .nil covered
  | both place _ ih =>
    rw [beforeNul_cons, beforeNul_cons]
    split_ifs with ends
    · exact .nil _
    · exact .both place ih
  | first c nonzero _ ih =>
    rw [beforeNul_cons, if_neg nonzero]
    exact .first c nonzero ih
  | second c nonzero _ ih =>
    rw [beforeNul_cons, if_neg nonzero]
    exact .second c nonzero ih
  | texts text₁ text₂ harmless₁ harmless₂ _ ih =>
    have whole : ∀ {text : List Byte} {out : List Out}, Harmless metas text →
        Shell.beforeNul (text.map (·, false) ++ out) =
          text.map (·, false) ++ Shell.beforeNul out := by
      intro text out harmless
      refine List.takeWhile_append_of_pos fun place member => ?_
      obtain ⟨c, inside, rfl⟩ := List.mem_map.mp member
      simpa using (harmless.2 c inside).1
    rw [whole harmless₁, whole harmless₂]
    exact .texts text₁ text₂ harmless₁ harmless₂ ih

def Inert (token : Token) : Prop := ∃ place ∈ token, operatorByte place.1 = false

theorem tokOp_inert {token : Token} (inert : Inert token) : tokOp token = none := by
  obtain ⟨place, member, other⟩ := inert
  cases token with
  | nil => rfl
  | cons head rest =>
    obtain ⟨c, quoted⟩ := head
    cases quoted with
    | true => rfl
    | false =>
      have never : ∀ text : List Byte, (∀ b ∈ text, operatorByte b = true) →
          ((c, false) :: rest).map Prod.fst ≠ text := by
        intro text all same
        have op := all place.1 (same ▸ List.mem_map_of_mem member)
        rw [other] at op
        cases op
      simp only [tokOp, never [pipe] (by decide), never [lessThan] (by decide),
        never [greaterThan] (by decide), never [greaterThan, greaterThan] (by decide), if_false]

def sortOf (metas : Byte → Bool) (token : Token) : Option Op × Bool :=
  (tokOp token, unquoted metas token)

def Begun (metas : Byte → Bool) (covered : Bool) (token₁ token₂ : Option Token) : Prop :=
  (covered = true → ∃ token, token₁ = some token ∧ Inert token) ∧
  (token₁ = token₂ ∨ ∃ started₁ started₂, token₁ = some started₁ ∧ token₂ = some started₂ ∧
    Inert started₁ ∧ Inert started₂ ∧ unquoted metas started₁ = unquoted metas started₂)

variable {token₁ token₂ : Option Token}

theorem Begun.sorts (begun : Begun metas covered token₁ token₂) :
    token₁.toList.map (sortOf metas) = token₂.toList.map (sortOf metas) := by
  rcases begun.2 with rfl | ⟨started₁, started₂, rfl, rfl, inert₁, inert₂, same⟩
  · rfl
  · simp [sortOf, tokOp_inert inert₁, tokOp_inert inert₂, same]

theorem Begun.inert (begun : Begun metas true token₁ token₂) :
    ∃ started₁ started₂, token₁ = some started₁ ∧ token₂ = some started₂ ∧
      Inert started₁ ∧ Inert started₂ ∧ unquoted metas started₁ = unquoted metas started₂ := by
  obtain ⟨token, rfl, inert⟩ := begun.1 rfl
  rcases begun.2 with rfl | started
  · exact ⟨token, token, rfl, rfl, inert, inert, rfl⟩
  · exact started

theorem Inert.append {token : Token} (inert : Inert token) (more : List Out) :
    Inert (token ++ more) := by
  obtain ⟨place, member, other⟩ := inert
  exact ⟨place, List.mem_append_left more member, other⟩

theorem unquoted_append (token more : List Out) :
    unquoted metas (token ++ more) = (unquoted metas token || unquoted metas more) :=
  List.any_append

theorem tokensFrom_quoted (token : Option Token) (c : Byte) (out : List Out) :
    tokensFrom token ((c, true) :: out) =
      tokensFrom (some (token.getD [] ++ [(c, true)])) out := by
  rw [tokensFrom, if_neg (by simp)]

theorem tokensFrom_texts {token : Option Token} {out : List Out} (harmless : Harmless metas text) :
    tokensFrom token (text.map (·, false) ++ out) =
      tokensFrom (some (token.getD [] ++ text.map (·, false))) out := by
  obtain ⟨nonempty, all⟩ := harmless
  induction text generalizing token with
  | nil => exact absurd rfl nonempty
  | cons c rest ih =>
    obtain ⟨-, unblank, -, -⟩ := all c (by simp)
    rw [List.map_cons, List.cons_append, tokensFrom, if_neg (by simp [unblank])]
    cases rest with
    | nil => rfl
    | cons =>
      rw [ih (by simp) fun b member => all b (List.mem_cons_of_mem c member)]
      simp

theorem Harmless.inert (harmless : Harmless metas text) (token : Token) :
    Inert (token ++ text.map (·, false)) ∧ unquoted metas (text.map (·, false)) = false := by
  obtain ⟨nonempty, all⟩ := harmless
  constructor
  · obtain ⟨c, rest, rfl⟩ := List.exists_cons_of_ne_nil nonempty
    exact ⟨(c, false), by simp, (all c (by simp)).2.2.1⟩
  · simp only [unquoted, List.any_map, List.any_eq_false]
    intro c member
    simp [(all c member).2.2.2]

theorem Begun.place (begun : Begun metas covered token₁ token₂) (place : Out) :
    Begun metas (place.2 && (covered || place.1 == shQmark))
      (some (token₁.getD [] ++ [place])) (some (token₂.getD [] ++ [place])) := by
  constructor
  · intro masked
    simp only [Bool.and_eq_true, Bool.or_eq_true, beq_iff_eq] at masked
    refine ⟨_, rfl, ?_⟩
    rcases masked.2 with covered | anchor
    · obtain ⟨token, rfl, inert⟩ := begun.1 covered
      exact inert.append [place]
    · exact ⟨place, by simp, by rw [anchor]; decide⟩
  · rcases begun.2 with rfl | ⟨started₁, started₂, rfl, rfl, inert₁, inert₂, same⟩
    · exact .inl rfl
    · exact .inr ⟨_, _, rfl, rfl, inert₁.append [place], inert₂.append [place], by
        simp only [Option.getD_some, unquoted_append, same]⟩

theorem Alike.tokens (alike : Alike metas covered out₁ out₂)
    (begun : Begun metas covered token₁ token₂) :
    (tokensFrom token₁ out₁).map (sortOf metas) = (tokensFrom token₂ out₂).map (sortOf metas) := by
  induction alike generalizing token₁ token₂ with
  | nil covered => exact begun.sorts
  | both place rest ih =>
    obtain ⟨c, quoted⟩ := place
    rw [tokensFrom, tokensFrom]
    split_ifs with parts
    · obtain ⟨-, rfl⟩ := parts
      rw [List.map_append, List.map_append, begun.sorts]
      exact congrArg _ (ih ⟨by simp, .inl rfl⟩)
    · exact ih (begun.place (c, quoted))
  | first c nonzero rest ih =>
    obtain ⟨started₁, started₂, rfl, rfl, inert₁, inert₂, same⟩ := begun.inert
    rw [tokensFrom_quoted]
    refine ih ⟨fun _ => ⟨_, rfl, inert₁.append _⟩,
      .inr ⟨_, _, rfl, rfl, inert₁.append _, inert₂, ?_⟩⟩
    rw [Option.getD_some, unquoted_append, same]
    simp [unquoted]
  | second c nonzero rest ih =>
    obtain ⟨started₁, started₂, rfl, rfl, inert₁, inert₂, same⟩ := begun.inert
    rw [tokensFrom_quoted]
    refine ih ⟨fun _ => ⟨_, rfl, inert₁⟩,
      .inr ⟨_, _, rfl, rfl, inert₁, inert₂.append _, ?_⟩⟩
    rw [same]
    simp [unquoted]
  | texts text₁ text₂ harmless₁ harmless₂ rest ih =>
    rw [tokensFrom_texts harmless₁, tokensFrom_texts harmless₂]
    obtain ⟨inert₁, none₁⟩ := harmless₁.inert (token₁.getD [])
    obtain ⟨inert₂, none₂⟩ := harmless₂.inert (token₂.getD [])
    refine ih ⟨by simp, .inr ⟨_, _, rfl, rfl, inert₁, inert₂, ?_⟩⟩
    rw [unquoted_append, unquoted_append, none₁, none₂]
    rcases begun.2 with rfl | ⟨started₁, started₂, rfl, rfl, -, -, same⟩
    · rfl
    · simpa using same

theorem beforeNul_take {out : List Out} {n : Nat} (short : (beforeNul (out.take n)).length < n) :
    beforeNul (out.take n) = beforeNul out := by
  rw [beforeNul, ← List.take_takeWhile] at short ⊢
  rw [List.length_take] at short
  exact List.take_of_length_le (by omega)

/-- A segment that is not refused has the words of its whole expansion, up to a NUL. -/
theorem segmentTokens_eq {env : Env} {seg : List Byte} {tokens : List Token}
    (found : segmentTokens env seg = .ok tokens) :
    tokens = tokensFrom none (beforeNul (emitted env (pieces seg))) := by
  rw [segmentTokens] at found
  split_ifs at found with long
  cases expanded : expandQ env expSize seg with
  | none => simp [expanded] at found
  | some out =>
    simp only [expanded] at found
    split_ifs at found with full many
    have cut : out = (emitted env (pieces seg)).take (expSize - 1) := by
      rw [expandQ] at expanded
      split_ifs at expanded
      exact (Option.some.inj expanded).symm
    cases found
    rw [cut] at full ⊢
    exact congrArg (tokensFrom none) (beforeNul_take (by omega))

/-- Under comparable environments the words of a command are of the same sorts, so its
operators stand at the same places, and its stages and redirections follow one plan, or one
refusal, whatever the directories hold. -/
theorem structure_alike (seg : List Byte) (bg : Bool) (metas : Byte → Bool) (env₁ env₂ : Env)
    (same : Comparable metas env₁ env₂ (pieces seg)) (tokens₁ tokens₂ : List Token)
    (found₁ : segmentTokens env₁ seg = .ok tokens₁)
    (found₂ : segmentTokens env₂ seg = .ok tokens₂) (files₁ files₂ : Listing)
    (fits₁ : Fits (pipeline files₁ bg tokens₁)) (fits₂ : Fits (pipeline files₂ bg tokens₂)) :
    tokens₁.map tokOp = tokens₂.map tokOp ∧ numbered bg tokens₁ = numbered bg tokens₂ ∧
      Realises (Carries files₁ tokens₁) (numbered bg tokens₁) (pipeline files₁ bg tokens₁) ∧
      Realises (Carries files₂ tokens₂) (numbered bg tokens₁) (pipeline files₂ bg tokens₂) ∧
      tokens₁.map (unquoted metas) = tokens₂.map (unquoted metas) := by
  have alike : Alike metas false (emitted env₁ (pieces seg)) (emitted env₂ (pieces seg)) :=
    emitted_alike same (by simp)
  have sorts : tokens₁.map (sortOf metas) = tokens₂.map (sortOf metas) := by
    rw [segmentTokens_eq found₁, segmentTokens_eq found₂]
    exact alike.beforeNul.tokens ⟨by simp, .inl rfl⟩
  have ops : tokens₁.map tokOp = tokens₂.map tokOp := by
    simpa [sortOf, Function.comp_def] using congrArg (List.map Prod.fst) sorts
  have plans : numbered bg tokens₁ = numbered bg tokens₂ := by
    rw [numbered, numbered, ops]
  refine ⟨ops, plans, layout_carries bg fits₁, plans ▸ layout_carries bg fits₂, ?_⟩
  simpa [sortOf, Function.comp_def] using congrArg (List.map Prod.snd) sorts

/-- `e "$x" | f $y*` -/
def quotedAndBare : List Byte :=
  [0x65, blank, quote, dollar, 0x78, quote, blank, pipe, blank, 0x66, blank, dollar, 0x79,
    star]

def valued (inside outside : List Byte) : Env := fun _ item =>
  match item with
  | .variable _ true => inside
  | _ => outside

/-- The last word matches two names in the first run and stays literal in the second. -/
theorem quotedAndBare_alike :
    ∃ tokens₁ tokens₂,
      segmentTokens (valued [pipe, blank] [0x76]) quotedAndBare = .ok tokens₁ ∧
      segmentTokens (valued [] [0x77, 0x77]) quotedAndBare = .ok tokens₂ ∧
      tokens₁ ≠ tokens₂ ∧ tokens₁.map tokOp = tokens₂.map tokOp ∧
      numbered false tokens₁ = numbered false tokens₂ ∧
      Realises (Carries (fun _ => some [[0x76], [0x76, 0x76]]) tokens₁) (numbered false tokens₁)
        (pipeline (fun _ => some [[0x76], [0x76, 0x76]]) false tokens₁) ∧
      Realises (Carries (fun _ => none) tokens₂) (numbered false tokens₁)
        (pipeline (fun _ => none) false tokens₂) ∧
      tokens₁.map (unquoted globMetas) = tokens₂.map (unquoted globMetas) := by
  have same : Comparable globMetas (valued [pipe, blank] [0x76]) (valued [] [0x77, 0x77])
      (pieces quotedAndBare) := by decide
  refine ⟨_, _, rfl, rfl, by decide, ?_⟩
  exact structure_alike quotedAndBare false globMetas _ _ same _ _ rfl rfl _ _ trivial trivial

/-- `e $x` -/
def echoBare : List Byte := [0x65, blank, dollar, 0x78]

/-- With `a` for `x` there is one stage, with `| b` there are two. -/
theorem unquoted_value_makes_stage :
    ∃ tokens₁ tokens₂, segmentTokens (valued [] [0x61]) echoBare = .ok tokens₁ ∧
      segmentTokens (valued [] [pipe, blank, 0x62]) echoBare = .ok tokens₂ ∧
      pipeline (fun _ => none) false tokens₁ = .ok ⟨[[[0x65], [0x61]]], none, none⟩ ∧
      pipeline (fun _ => none) false tokens₂ = .ok ⟨[[[0x65]], [[0x62]]], none, none⟩ ∧
      tokens₁.map tokOp ≠ tokens₂.map tokOp :=
  ⟨_, _, rfl, rfl, rfl, rfl, by decide⟩

end Racccoon.Shell
