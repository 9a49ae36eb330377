import Mathlib.Data.List.Sort
import Racccoon.Shell.Patterns

/-!
The stages and redirections of a pipeline (`shell_run_pipeline`, `user/shell_common.c3`). A
word is brace-expanded and each result is globbed, into buffers that all the words share; what
a directory lists comes from outside. A plan is the same with one word for each token.
-/

namespace Racccoon.Shell

inductive Refusal where
  | tooLong | unterminated | tooLongExpanded | tooManyWords | globTooMuch
  | pipelineTooLong | inputNotFirst | malformed | outputNotLast | background
  deriving DecidableEq

def Refusal.message : Refusal → String
  | .tooLong => "shell: command too long\n"
  | .unterminated => "shell: unterminated quote\n"
  | .tooLongExpanded => "shell: command too long after expansion\n"
  | .tooManyWords => "shell: too many words\n"
  | .globTooMuch => "shell: glob matched too much\n"
  | .pipelineTooLong => "shell: pipeline too long\n"
  | .inputNotFirst => "shell: `<` redirect only on the first pipeline stage\n"
  | .malformed => "shell: malformed pipeline\n"
  | .outputNotLast => "shell: `>` redirect only on the last pipeline stage\n"
  | .background => "shell: a background job can't use < / > / >>\n"

def maxStages : Nat := 6
def stageWordsMax : Nat := maxStages * 32
def globNamesBuf : Nat := 4096
def braceBuf : Nat := 1024

/-- What the words so far take up: `sw`, `gnb` and `bbo`. -/
structure Room where
  words : Nat
  names : Nat
  braces : Nat

/-- `fs_list`; `none` where it fails. -/
abbrev Listing := List Byte → Option (List (List Byte))

/-- The loop of `shell_glob_into` over the names of a directory. -/
def globNames (lead base : List Byte) : Room → List (List Byte) → Room × List (List Byte)
  | room, [] => (room, [])
  | room, name :: rest =>
    if globMatch base name ≠ some true then globNames lead base room rest
    else if room.words ≥ stageWordsMax ∨
        room.names + lead.length + name.length ≥ globNamesBuf - 1 then (room, [])
    else
      let (after, words) := globNames lead base { room with
        words := room.words + 1
        names := room.names + lead.length + name.length + 1 } rest
      (after, (lead ++ name) :: words)

/-- The pattern up to its last slash, and behind it. -/
def lastSlash (pat : List Byte) : List Byte × List Byte :=
  let base := (pat.reverse.takeWhile (· ≠ 0x2F)).reverse
  (pat.take (pat.length - base.length), base)

variable (files : Listing)

def globInto (room : Room) (pat : List Byte) : Room × List (List Byte) :=
  let (lead, base) := lastSlash pat
  if lead ≠ [] ∧ base = [] then (room, [])
  else
    match files (if lead = [] then [0x2E] else lead.take 99) with
    | none => (room, [])
    | some listed =>
      let (after, words) := globNames lead base room (listed.take 64)
      (after, words.insertionSort fun first second => ¬ second < first)

/-- A round of the loop over what the braces of a token gave. -/
def addWord (globbed : Bool) (room : Room) (w : List Byte) :
    Except Refusal (Room × List (List Byte)) :=
  if room.words ≥ stageWordsMax then .error .tooManyWords
  else if globbed then
    let (after, matched) := globInto files room w
    if after.words ≥ stageWordsMax ∨ after.names ≥ globNamesBuf - 100 then .error .globTooMuch
    else if matched = [] then .ok ({ after with words := after.words + 1 }, [w])
    else .ok (after, matched)
  else .ok ({ room with words := room.words + 1 }, [w])

def addWords (files : Listing) (globbed : Bool) :
    Room → List (List Byte) → Except Refusal (Room × List (List Byte))
  | room, [] => .ok (room, [])
  | room, w :: rest =>
    match addWord files globbed room w with
    | .error refusal => .error refusal
    | .ok (next, words) =>
      match addWords files globbed next rest with
      | .error refusal => .error refusal
      | .ok (after, more) => .ok (after, words ++ more)

/-- The words a token makes. Its quote anchors are gone by then. -/
def widen (room : Room) (token : Token) : Except Refusal (Room × List (List Byte)) :=
  let text := token.filter fun place => place.1 ≠ shQmark
  let globbed := unquoted globMetas token
  if unquoted (· = openBrace) text then
    let packed := braceRec braceBuf braceMax braceDepth text ⟨room.braces, []⟩
    addWords files globbed { room with braces := packed.used }
      (if packed.words = [] then [bytes text] else packed.words)
  else addWords files globbed room [bytes text]

/-- The words of each stage and the redirections; the target of one is a token, its quote anchors
still in it. -/
structure Layout (α β : Type) where
  stages : List (List β)
  input : Option α
  output : Option (α × Bool)
  deriving DecidableEq

/-- The locals of the stage loop: the stages before `current`, and the target, the kind and
the stage of a `>`. -/
structure Parse (α β : Type) where
  room : Room
  closed : List (List β)
  current : List β
  input : Option α
  output : Option (α × Bool × Nat)

section Loop
variable {α β : Type} (widen : Room → α → Except Refusal (Room × List β))

def stageLoop : Parse α β → List (Option Op × α) → Except Refusal (Parse α β)
  | parse, [] => .ok parse
  | parse, (none, token) :: rest =>
    match widen parse.room token with
    | .error refusal => .error refusal
    | .ok (room, words) =>
      stageLoop { parse with room := room, current := parse.current ++ words } rest
  | parse, (some .pipe, _) :: rest =>
    if parse.closed.length + 1 ≥ maxStages then .error .pipelineTooLong
    else stageLoop { parse with closed := parse.closed ++ [parse.current], current := [] } rest
  | parse, (some op, _) :: (none, target) :: rest =>
    if op = .input then
      if parse.closed ≠ [] then .error .inputNotFirst
      else stageLoop { parse with input := some target } rest
    else
      stageLoop { parse with output := some (target, op = .append, parse.closed.length) } rest
  | _, _ => .error .malformed

/-- What is checked behind the stage loop. -/
def laidOut (bg : Bool) (parse : Parse α β) : Except Refusal (Layout α β) :=
  let stages := parse.closed ++ [parse.current]
  if stages.any List.isEmpty then .error .malformed
  else if parse.output.any fun (_, _, stage) => stage ≠ parse.closed.length then
    .error .outputNotLast
  else if bg && (parse.input.isSome || parse.output.isSome) then .error .background
  else .ok ⟨stages, parse.input, parse.output.map fun (target, append, _) => (target, append)⟩

def layoutOf (bg : Bool) (tokens : List (Option Op × α)) : Except Refusal (Layout α β) :=
  if tokens.isEmpty then .ok ⟨[], none, none⟩
  else
    match stageLoop widen ⟨⟨0, 0, 0⟩, [], [], none, none⟩ tokens with
    | .error refusal => .error refusal
    | .ok parse => laidOut bg parse

end Loop

/-- The stages and redirections `shell_run_pipeline` makes of a segment's tokens. -/
def pipeline (files : Listing) (bg : Bool) (tokens : List Token) :
    Except Refusal (Layout Token (List Byte)) :=
  layoutOf (widen files) bg (tokens.map fun token => (tokOp token, token))

/-- `PL_RAW`, `PL_EXP` and `PL_MAX_TOKENS` -/
def rawSize : Nat := 1024
def expSize : Nat := 2048
def maxTokens : Nat := 64

/-- The words that `shell_run_pipeline` finds in a segment. -/
def segmentTokens (env : Env) (seg : List Byte) : Except Refusal (List Token) :=
  if seg.length > rawSize - 1 then .error .tooLong
  else
    match expandQ env expSize seg with
    | none => .error .unterminated
    | some out =>
      let text := beforeNul out
      let tokens := tokensFrom none text
      if text.length ≥ expSize - 1 then .error .tooLongExpanded
      else if tokens.length > maxTokens then .error .tooManyWords
      else .ok tokens

/-- Of each token its number is the only word. -/
def numbered (bg : Bool) (tokens : List Token) : Except Refusal (Layout Nat Nat) :=
  layoutOf (fun room i => .ok (room, [i])) bg (tokens.map tokOp).zipIdx

/-- Not refused for what the words expand to. -/
def Fits {γ : Type} : Except Refusal γ → Prop
  | .error .tooManyWords | .error .globTooMuch => False
  | _ => True

section Plan
variable (files : Listing) (tokens : List Token)

/-- The words that the tokens of these numbers make. -/
inductive Spread : List Nat → List (List Byte) → Prop where
  | nil : Spread [] []
  | snoc {numbers : List Nat} {words more : List (List Byte)} {i : Nat} {token : Token}
      {room after : Room} (spread : Spread numbers words) (listed : tokens[i]? = some token)
      (widened : widen files room token = .ok (after, more)) :
      Spread (numbers ++ [i]) (words ++ more)

def Numbers (i : Nat) (token : Token) : Prop := tokens[i]? = some token

structure Carries (plan : Layout Nat Nat) (layout : Layout Token (List Byte)) : Prop where
  stages : List.Forall₂ (Spread files tokens) plan.stages layout.stages
  input : Option.Rel (Numbers tokens) plan.input layout.input
  output : Option.Rel (fun planned given => Numbers tokens planned.1 given.1 ∧ planned.2 = given.2)
    plan.output layout.output

def Realises {γ δ : Type} (carries : γ → δ → Prop) : Except Refusal γ → Except Refusal δ → Prop
  | .ok plan, .ok made => carries plan made
  | .error refusal, .error given => given = refusal
  | _, _ => False

structure CarriesParse (plan : Parse Nat Nat) (parse : Parse Token (List Byte)) : Prop where
  closed : List.Forall₂ (Spread files tokens) plan.closed parse.closed
  current : Spread files tokens plan.current parse.current
  input : Option.Rel (Numbers tokens) plan.input parse.input
  output : Option.Rel (fun planned given => Numbers tokens planned.1 given.1 ∧ planned.2 = given.2)
    plan.output parse.output

variable {files tokens}

theorem addWord_made {globbed : Bool} {room : Room} {w : List Byte} :
    (∃ refusal, addWord files globbed room w = .error refusal ∧
      (refusal = .tooManyWords ∨ refusal = .globTooMuch)) ∨
    ∃ after words, addWord files globbed room w = .ok (after, words) ∧ words ≠ [] := by
  unfold addWord
  dsimp only
  split
  · exact .inl ⟨_, rfl, .inl rfl⟩
  · split
    · split
      · exact .inl ⟨_, rfl, .inr rfl⟩
      · split
        · exact .inr ⟨_, _, rfl, List.cons_ne_nil _ _⟩
        · next filled => exact .inr ⟨_, _, rfl, filled⟩
    · exact .inr ⟨_, _, rfl, List.cons_ne_nil _ _⟩

theorem addWords_made {globbed : Bool} {room : Room} (w : List Byte) (rest : List (List Byte)) :
    (∃ refusal, addWords files globbed room (w :: rest) = .error refusal ∧
      (refusal = .tooManyWords ∨ refusal = .globTooMuch)) ∨
    ∃ after words, addWords files globbed room (w :: rest) = .ok (after, words) ∧ words ≠ [] := by
  induction rest generalizing room w with
  | nil =>
    rw [addWords]
    rcases @addWord_made files globbed room w with ⟨refusal, made, which⟩ | ⟨next, words, made, filled⟩
    · exact .inl ⟨refusal, by rw [made], which⟩
    · exact .inr ⟨next, words, by rw [made]; simp [addWords], filled⟩
  | cons w' rest ih =>
    rw [addWords]
    rcases @addWord_made files globbed room w with ⟨refusal, made, which⟩ | ⟨next, words, made, filled⟩
    · exact .inl ⟨refusal, by rw [made], which⟩
    · rcases @ih next w' with ⟨refusal, later, which⟩ | ⟨after, more, later, -⟩
      · exact .inl ⟨refusal, by rw [made]; dsimp only; rw [later], which⟩
      · exact .inr ⟨after, words ++ more, by rw [made]; dsimp only; rw [later],
          List.append_ne_nil_of_left_ne_nil filled _⟩

theorem widen_made (room : Room) (token : Token) :
    (∃ refusal, widen files room token = .error refusal ∧
      (refusal = .tooManyWords ∨ refusal = .globTooMuch)) ∨
    ∃ after words, widen files room token = .ok (after, words) ∧ words ≠ [] := by
  unfold widen
  dsimp only
  split
  · split
    · exact addWords_made _ _
    · next filled =>
        obtain ⟨w, rest, is⟩ := List.exists_cons_of_ne_nil filled
        rw [is]
        exact addWords_made w rest
  · exact addWords_made _ _

theorem Spread.isEmpty {numbers : List Nat} {words : List (List Byte)}
    (spread : Spread files tokens numbers words) : words.isEmpty = numbers.isEmpty := by
  cases spread with
  | nil => rfl
  | @snoc _ _ _ i token room _ _ _ widened =>
    rcases @widen_made files room token with ⟨_, refused, -⟩ | ⟨_, _, made, filled⟩
    · rw [widened] at refused
      cases refused
    · rw [widened] at made
      cases made
      rw [List.isEmpty_eq_false_iff.mpr (List.append_ne_nil_of_right_ne_nil _ filled),
        List.isEmpty_eq_false_iff.mpr (List.append_ne_nil_of_right_ne_nil _ (List.cons_ne_nil i []))]

theorem stageLoop_carries {plan : Parse Nat Nat} {parse : Parse Token (List Byte)} {k : Nat}
    (carries : CarriesParse files tokens plan parse) (listed : List (Option Op × Token))
    (numbers : ∀ j op token, listed[j]? = some (op, token) → tokens[k + j]? = some token)
    (fits : Fits (stageLoop (widen files) parse listed)) :
    Realises (CarriesParse files tokens)
      (stageLoop (fun room i => .ok (room, [i])) plan ((listed.map Prod.fst).zipIdx k))
      (stageLoop (widen files) parse listed) := by
  have length := carries.closed.length_eq
  fun_induction stageLoop (widen files) parse listed generalizing plan k with
  | case1 parse => exact carries
  | case2 parse token rest refusal refused =>
    rcases @widen_made files parse.room token with ⟨_, same, which⟩ | ⟨_, _, made, -⟩
    · rw [refused] at same
      cases same
      rcases which with rfl | rfl <;> exact fits.elim
    · rw [refused] at made
      cases made
  | case3 parse token rest room words made ih =>
    have more := carries.current.snoc (numbers 0 none token rfl) made
    exact ih ⟨carries.closed, more, carries.input, carries.output⟩
      (fun j op token at_ => by rw [Nat.add_right_comm]; exact numbers (j + 1) op token at_) fits length
  | case4 parse _ rest full =>
    simp only [List.map_cons, List.zipIdx_cons, stageLoop]
    rw [if_pos (by omega)]
    rfl
  | case5 parse _ rest short ih =>
    simp only [List.map_cons, List.zipIdx_cons, stageLoop]
    rw [if_neg (by omega)]
    exact ih ⟨List.rel_append carries.closed (.cons carries.current .nil), .nil, carries.input,
      carries.output⟩ (fun j op token given => by
        rw [Nat.add_right_comm]
        exact numbers (j + 1) op token given) fits (by simp [length])
  | case6 parse _ target rest later _ =>
    have behind : plan.closed ≠ [] := fun none => later (by simpa [none] using length.symm)
    simp only [List.map_cons, List.zipIdx_cons, stageLoop]
    rw [if_pos trivial, if_pos behind]
    rfl
  | case7 parse _ target rest first _ ih =>
    have front : plan.closed = [] := by
      rw [not_not] at first
      simpa [first] using length
    simp only [List.map_cons, List.zipIdx_cons, stageLoop]
    rw [if_pos trivial, if_neg (by simp [front])]
    exact ih ⟨carries.closed, carries.current, .some (numbers 1 none target rfl), carries.output⟩
      (fun j op token given => by
        have shift : k + 1 + 1 + j = k + (j + 2) := by omega
        exact shift ▸ numbers (j + 2) op token given) fits length
  | case8 parse op _ target rest unpiped other ih =>
    have written : Option.Rel (fun planned given => Numbers tokens planned.1 given.1 ∧
        planned.2 = given.2) (some (k + 1, decide (op = .append), plan.closed.length))
        (some (target, decide (op = .append), parse.closed.length)) :=
      .some ⟨numbers 1 none target rfl, by rw [length]⟩
    have onward := @ih
      { plan with output := some (k + 1, decide (op = .append), plan.closed.length) } (k + 1 + 1)
      ⟨carries.closed, carries.current, carries.input, written⟩ (fun j op token given => by
        have shift : k + 1 + 1 + j = k + (j + 2) := by omega
        exact shift ▸ numbers (j + 2) op token given) fits length
    cases op with
    | pipe => exact absurd rfl unpiped
    | input => exact absurd rfl other
    | output | append => exact onward
  | case9 t parse filled noWord noPipe noTarget =>
    match t with
    | [] => exact absurd rfl filled
    | (none, token) :: rest => exact absurd rfl (noWord token rest)
    | (some .pipe, token) :: rest => exact absurd rfl (noPipe token rest)
    | (some op, token) :: (none, target) :: rest => exact absurd rfl (noTarget op token target rest)
    | [(some .input, _)] | [(some .output, _)] | [(some .append, _)] => rfl
    | (some .input, _) :: (some _, _) :: _ | (some .output, _) :: (some _, _) :: _
    | (some .append, _) :: (some _, _) :: _ => rfl

theorem laidOut_carries {plan : Parse Nat Nat} {parse : Parse Token (List Byte)}
    (carries : CarriesParse files tokens plan parse) (bg : Bool) :
    Realises (Carries files tokens) (laidOut bg plan) (laidOut bg parse) := by
  obtain ⟨closed, current, input, output⟩ := carries
  have stages : List.Forall₂ (Spread files tokens) (plan.closed ++ [plan.current])
      (parse.closed ++ [parse.current]) := List.rel_append closed (.cons current .nil)
  have empty : (parse.closed ++ [parse.current]).any List.isEmpty =
      (plan.closed ++ [plan.current]).any List.isEmpty := by
    generalize plan.closed ++ [plan.current] = planned at stages ⊢
    generalize parse.closed ++ [parse.current] = made at stages ⊢
    induction stages with
    | nil => rfl
    | cons spread _ ih => rw [List.any_cons, List.any_cons, spread.isEmpty, ih]
  have length := closed.length_eq
  obtain ⟨_, planClosed, planCurrent, planInput, planOutput⟩ := plan
  obtain ⟨_, madeClosed, madeCurrent, madeInput, madeOutput⟩ := parse
  dsimp only at input output length stages empty
  unfold laidOut
  dsimp only
  rw [empty]
  split
  · rfl
  · have inputs : madeInput.isSome = planInput.isSome := by
      cases input <;> rfl
    cases output with
    | none =>
      simp only [Option.any_none, Option.isSome_none, Option.map_none, inputs]
      split
      · contradiction
      · split
        · rfl
        · exact ⟨stages, input, .none⟩
    | some same =>
      obtain ⟨target, rest⟩ := same
      simp only [Option.any_some, Option.isSome_some, Option.map_some, inputs, rest, length]
      split
      · rfl
      · split
        · rfl
        · exact ⟨stages, input, .some ⟨target, rfl⟩⟩

theorem layout_carries (bg : Bool) (fits : Fits (pipeline files bg tokens)) :
    Realises (Carries files tokens) (numbered bg tokens) (pipeline files bg tokens) := by
  cases tokens with
  | nil => exact ⟨.nil, .none, .none⟩
  | cons first rest =>
    have ops : ((first :: rest).map fun token => (tokOp token, token)).map Prod.fst =
        (first :: rest).map tokOp := by
      simp
    have numbers (j : Nat) (op : Option Op) (token : Token)
        (given : ((first :: rest).map fun token => (tokOp token, token))[j]? = some (op, token)) :
        (first :: rest)[0 + j]? = some token := by
      rw [List.getElem?_map, Option.map_eq_some_iff] at given
      obtain ⟨_, found, is⟩ := given
      cases is
      rwa [Nat.zero_add]
    have start : CarriesParse files (first :: rest) ⟨⟨0, 0, 0⟩, [], [], none, none⟩
        ⟨⟨0, 0, 0⟩, [], [], none, none⟩ := ⟨.nil, .nil, .none, .none⟩
    have loop := stageLoop_carries start _ numbers
    rw [ops] at loop
    rw [pipeline, layoutOf, if_neg (by simp)] at fits ⊢
    rw [numbered, layoutOf, if_neg (by simp)]
    generalize stageLoop (widen files) _ _ = made at loop fits ⊢
    generalize stageLoop _ _ _ = plan at loop ⊢
    cases made with
    | error refusal =>
      have same := loop (by cases refusal <;> exact fits)
      cases plan with
      | error => exact same
      | ok => exact same.elim
    | ok parse =>
      have carries := loop trivial
      cases plan with
      | error => exact carries.elim
      | ok => exact laidOut_carries carries bg

end Plan

end Racccoon.Shell
