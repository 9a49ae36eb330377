import Racccoon.Shell.Words

/-!
The quoting of a block of shell text, read by five loops (`user/shell_common.c3`,
`user/shell_words.c3`): the end of a statement, the end of a group, the balance of a
half-typed block, the sequencing operators and the word expansion. The first four are one
loop with different marks and escapes. They agree with the expansion on every text whose
quoted regions hold no mark of their own.
-/

namespace Racccoon.Shell

/-- Which bytes open a quote, and inside which quote a backslash takes the next byte. -/
structure Scanner where
  opens : Byte → Bool
  escapes : Option Byte → Bool

/-- Each byte with whether it is a quote mark, inside quotes or part of an escape; `q` is the
open quote, and `escaped` says that the byte before was a backslash that takes this one. -/
def Scanner.walk (s : Scanner) : Option Byte → Bool → List Byte → List (Byte × Bool)
  | _, _, [] => []
  | q, true, c :: rest => (c, true) :: s.walk q false rest
  | q, false, c :: rest =>
    if c = backslash ∧ rest ≠ [] ∧ s.escapes q = true then (c, true) :: s.walk q true rest
    else
      match q with
      | some mark => (c, true) :: s.walk (if c = mark then none else q) false rest
      | none =>
        if s.opens c then (c, true) :: s.walk (some c) false rest
        else (c, false) :: s.walk none false rest

def Scanner.places (s : Scanner) (text : List Byte) : List (Byte × Bool) := s.walk none false text

def Scanner.marks (s : Scanner) (text : List Byte) : List Bool := (s.places text).map Prod.snd

def plainScanner : Scanner := ⟨fun c => c = tick ∨ c = quote ∨ c = grave, fun q => q = none⟩

def groupScanner : Scanner := ⟨fun c => c = tick ∨ c = quote, fun q => q = none⟩

def balanceScanner : Scanner := ⟨fun c => c = tick ∨ c = quote ∨ c = grave, fun q => q = none⟩

def lineScanner : Scanner := ⟨fun c => c = tick ∨ c = quote, fun q => q ≠ some tick⟩

variable (text : List Byte)

/-- `sh_plain_end` -/
def plainEnd : Nat :=
  (plainScanner.places text).findIdx fun (c, shielded) =>
    !shielded && (c = newline || c = semicolon)

/-- The place behind the close that brings `depth` to zero. -/
def closeSpan (openMark closeMark : Byte) : Int → List (Byte × Bool) → Option Nat
  | _, [] => none
  | depth, (c, shielded) :: rest =>
    if shielded then (closeSpan openMark closeMark depth rest).map (· + 1)
    else if c = openMark then (closeSpan openMark closeMark (depth + 1) rest).map (· + 1)
    else if c = closeMark then
      if depth - 1 = 0 then some 1
      else (closeSpan openMark closeMark (depth - 1) rest).map (· + 1)
    else (closeSpan openMark closeMark depth rest).map (· + 1)

/-- `sh_span_group`, for a text that starts with the opening mark. -/
def spanGroup : Option Nat :=
  match text with
  | [] => none
  | c :: _ => closeSpan c (if c = openParen then closeParen else closeBrace) 0
      (groupScanner.places text)

inductive SeqOp where
  | semi | both | either | background
  deriving DecidableEq

/-- `sh_seq_op_at`: the operator that a line starts with, and its bytes with the blanks. -/
def seqOpAt : List Byte → Option (SeqOp × Nat)
  | [] => none
  | c :: more =>
    if c ≠ blank then none
    else if more[0]? = some semicolon then
      if more[1]? = some blank then some (.semi, 3)
      else if more[1]? = none then some (.semi, 2) else none
    else if more[0]? = some ampersand ∧ more[1]? = some ampersand then
      if more[2]? = some blank then some (.both, 4)
      else if more[2]? = none then some (.both, 3) else none
    else if more[0]? = some pipe ∧ more[1]? = some pipe then
      if more[2]? = some blank then some (.either, 4)
      else if more[2]? = none then some (.either, 3) else none
    else if more[0]? = some ampersand then
      if more[1]? = some blank then some (.background, 3)
      else if more[1]? = none then some (.background, 2) else none
    else none

/-- The operators that `shell_exec_line` cuts at: where each starts, and its bytes. -/
def cutsFrom : Nat → Nat → List (Byte × Bool) → List (Nat × Nat)
  | _, _, [] => []
  | place, skip + 1, _ :: rest => cutsFrom (place + 1) skip rest
  | place, 0, (c, shielded) :: rest =>
    match if shielded then none else seqOpAt (c :: rest.map Prod.fst) with
    | some (_, span) => (place, span) :: cutsFrom (place + 1) (span - 1) rest
    | none => cutsFrom (place + 1) 0 rest

/-- Where `shell_exec_line` cuts. A cut's own bytes are no marks, so the loop reads them as
it would have. -/
def lineCuts : List (Nat × Nat) := cutsFrom 0 0 (lineScanner.places text)

/-- The place at `place` is outside quotes, quote marks and escapes for the expansion. -/
def Outside (place : Nat) : Prop := (expandMarks text)[place]? = some false

/-- Every layer takes the places for quoted or escaped that the expansion does, so none ends
a statement, closes a group or cuts a line inside of them. -/
structure LayersAgree (text : List Byte) : Prop where
  plain_end : plainScanner.marks text = expandMarks text
  span_group : groupScanner.marks text = expandMarks text
  balanced : balanceScanner.marks text = expandMarks text
  exec_line : lineScanner.marks text = expandMarks text
  statement : plainEnd text < text.length → Outside text (plainEnd text)
  group : ∀ span, spanGroup text = some span → Outside text (span - 1)
  cuts : ∀ cut ∈ lineCuts text, ∀ i, i < cut.2 → Outside text (cut.1 + i)

def bare (c : Byte) : Bool := c ≠ backslash && c ≠ tick && c ≠ quote && c ≠ grave

/-- What may stand in a round: outside quotes a backslash has a byte behind it, a backquote
is escaped and a name holds no mark; inside double quotes no `"` is consumed but the one
that closes them. -/
def evenRound (mode : Mode) (c : Byte) (rest : List Byte) : Bool :=
  let taken := rest.take (round mode c rest).skip
  match mode with
  | .plain => if c = backslash then !rest.isEmpty else c ≠ grave && taken.all bare
  | .single => true
  | .double => taken.all (· ≠ quote)

def evenFrom : Mode → Nat → List Byte → Bool
  | _, _, [] => true
  | mode, skip + 1, _ :: rest => evenFrom mode skip rest
  | mode, 0, c :: rest =>
    let next := round mode c rest
    evenRound mode c rest && evenFrom next.mode next.skip rest

def EvenlyQuoted : Prop := evenFrom .plain 0 text = true

instance : Decidable (EvenlyQuoted text) :=
  inferInstanceAs (Decidable (_ = _))

/-- What the four layers have in common. -/
structure Scanner.Standard (s : Scanner) : Prop where
  tick : s.opens tick = true
  quote : s.opens quote = true
  bare : ∀ c, bare c = true → s.opens c = false
  escapes : s.escapes none = true
  literal : s.escapes (some Shell.tick) = false

theorem plainScanner_standard : plainScanner.Standard :=
  ⟨rfl, rfl, fun c => by simp +contextual [bare, plainScanner], rfl, rfl⟩

theorem groupScanner_standard : groupScanner.Standard :=
  ⟨rfl, rfl, fun c => by simp +contextual [bare, groupScanner], rfl, rfl⟩

theorem balanceScanner_standard : balanceScanner.Standard :=
  ⟨rfl, rfl, fun c => by simp +contextual [bare, balanceScanner], rfl, rfl⟩

theorem lineScanner_standard : lineScanner.Standard :=
  ⟨rfl, rfl, fun c => by simp +contextual [bare, lineScanner], rfl, rfl⟩

/-- The rest of what a round inside double quotes consumes. A backslash that takes a byte
for the scanner may not take one behind it. -/
structure Inside (s : Scanner) (skip : Nat) (text : List Byte) (escaped : Bool) : Prop where
  no_quote : quote ∉ text.take skip
  ordinary : skip = 0 → escaped = true → escapedInDouble text.head? = false
  last : s.escapes (some quote) = true → 0 < skip →
    skip = 1 ∧ escaped = true ∨ (text.take skip).getLast? ≠ some backslash

/-- Where the expansion and a scanner may be at one place. -/
inductive InStep (s : Scanner) :
    Mode → Nat → Bool → List Byte → Option Byte → Bool → Prop where
  | plain (shield text) : InStep s .plain 0 shield text none false
  | escaped (next rest) : InStep s .plain 1 true (next :: rest) none true
  | named (skip text) (names : (text.take skip).all bare = true) :
      InStep s .plain skip false text none false
  | single (shield text) : InStep s .single 0 shield text (some tick) false
  | doubled (rest) : InStep s .single 1 true (tick :: rest) none false
  | double (skip text escaped) (inside : Inside s skip text escaped) :
      InStep s .double skip true text (some quote) escaped

variable {s : Scanner}
variable {c : Byte}
variable {rest text : List Byte}
variable {escaped : Bool}

theorem Inside.behind {skip : Nat} (inside : Inside s (skip + 1) (c :: rest) escaped) (next : Bool)
    (takes : next = true → c = backslash ∧ s.escapes (some quote) = true ∧ escaped = false) :
    Inside s skip rest next where
  no_quote member := inside.no_quote (List.mem_cons_of_mem c member)
  ordinary emptied escapes := by
    obtain ⟨same, able, free⟩ := takes escapes
    subst same free emptied
    rcases inside.last able Nat.one_pos with ⟨-, absurd_⟩ | last
    · cases absurd_
    · simp at last
  last able positive := by
    rcases inside.last able (Nat.succ_pos skip) with ⟨same, -⟩ | last
    · omega
    · right
      cases taken : rest.take skip with
      | nil => simp
      | cons b more => simpa [taken] using last

/-- The scanner sees the place `c` as `next` has it, and is in step behind it. -/
def Follows (s : Scanner) (next : Round) (q : Option Byte) (escaped : Bool) (c : Byte)
    (rest : List Byte) : Prop :=
  ∃ q' escaped', s.walk q escaped (c :: rest) =
      (c, next.piece.shielded) :: s.walk q' escaped' rest ∧
    InStep s next.mode next.skip next.shield rest q' escaped'

theorem plainRound_follows (standard : s.Standard) (even : evenRound .plain c rest = true) :
    Follows s (plainRound c rest) none false c rest := by
  by_cases escape : c = backslash
  · subst escape
    cases rest with
    | nil => exact absurd even (by decide)
    | cons next rest =>
      refine ⟨none, true, ?_, .escaped next rest⟩
      simp [Scanner.walk, standard.escapes, plainRound]
  have ungraved : c ≠ grave := by
    rintro rfl
    simp [evenRound, escape] at even
  by_cases opens : c = tick
  · subst opens
    refine ⟨some tick, false, ?_, .single true rest⟩
    rw [Scanner.walk]
    simp [standard.tick, plainRound, escape]
  by_cases opens' : c = quote
  · subst opens'
    refine ⟨some quote, false, ?_, .double 0 rest false ⟨by simp, by simp, by simp⟩⟩
    rw [Scanner.walk]
    simp [standard.quote, plainRound, escape, opens]
  have free : s.opens c = false :=
    standard.bare c (by simp [bare, escape, opens, opens', ungraved])
  have walked : s.walk none false (c :: rest) = (c, false) :: s.walk none false rest := by
    rw [Scanner.walk, if_neg (by simp [escape])]
    simp [free]
  cases found : replacement false c rest with
  | none =>
    have same : plainRound c rest = ⟨⟨false, [.byte c false], true⟩, .plain, 0, true⟩ := by
      simp [plainRound, escape, opens, opens', found]
    rw [same]
    exact ⟨none, false, walked, .plain true rest⟩
  | some taken =>
    have same : plainRound c rest = ⟨⟨false, [taken.1], true⟩, .plain, taken.2, false⟩ := by
      simp [plainRound, escape, opens, opens', found, ungraved]
    rw [evenRound] at even
    simp only [round, same, if_neg escape, Bool.and_eq_true] at even
    rw [same]
    exact ⟨none, false, walked, .named taken.2 rest even.2⟩

theorem singleRound_follows (standard : s.Standard) (c : Byte) (rest : List Byte) :
    Follows s (singleRound c rest) (some tick) false c rest := by
  have walked : s.walk (some tick) false (c :: rest) =
      (c, true) :: s.walk (if c = tick then none else some tick) false rest := by
    rw [Scanner.walk, if_neg (by simp [standard.literal])]
  by_cases closes : c = tick
  · subst closes
    by_cases twice : rest.head? = some tick
    · obtain ⟨rest, rfl⟩ : ∃ more, rest = tick :: more := by
        cases rest with
        | nil => cases twice
        | cons next more => exact ⟨more, by simpa using twice⟩
      refine ⟨none, false, ?_, ?_⟩
      · rw [walked]
        simp [singleRound]
      · simpa [singleRound] using InStep.doubled rest
    · refine ⟨none, false, ?_, ?_⟩
      · rw [walked]
        simp [singleRound, twice]
      · simpa [singleRound, twice] using InStep.plain true rest
  · refine ⟨some tick, false, ?_, ?_⟩
    · rw [walked]
      simp [singleRound, closes]
    · simpa [singleRound, closes] using InStep.single true rest

theorem doubleRound_plain (closes : c ≠ quote)
    (escape : ¬ (c = backslash ∧ escapedInDouble rest.head? = true))
    (found : replacement true c rest = none) :
    doubleRound c rest = ⟨⟨true, [.byte c true], false⟩, .double, 0, true⟩ := by
  simp [doubleRound, closes, escape, found]

theorem replacement_ordinary {quoted : Bool} (ordinary : escapedInDouble (some c) = false) :
    replacement quoted c rest = none := by
  simp only [escapedInDouble, Option.some.injEq, Bool.or_eq_false_iff, decide_eq_false_iff_not]
    at ordinary
  simp [replacement, ordinary]

theorem doubleRound_follows (even : evenRound .double c rest = true) :
    Follows s (doubleRound c rest) (some quote) false c rest := by
  by_cases closes : c = quote
  · subst closes
    refine ⟨none, false, ?_, by simpa [doubleRound] using InStep.plain true rest⟩
    rw [Scanner.walk, if_neg (by simp [show quote ≠ backslash by decide])]
    simp [doubleRound]
  have unquoted : quote ∉ rest.take (doubleRound c rest).skip := by
    intro member
    have := List.all_eq_true.mp even quote member
    simp at this
  have shielded : (doubleRound c rest).piece.shielded = true := by
    unfold doubleRound
    repeat' split
    all_goals rfl
  have stays : (doubleRound c rest).mode = .double ∧ (doubleRound c rest).shield = true := by
    unfold doubleRound
    repeat' split
    all_goals simp_all
  rw [Follows, shielded, stays.1, stays.2]
  by_cases taken : c = backslash ∧ rest ≠ [] ∧ s.escapes (some quote) = true
  · refine ⟨some quote, true, by rw [Scanner.walk, if_pos taken], .double _ rest true ?_⟩
    obtain ⟨rfl, nonempty, able⟩ := taken
    by_cases special : escapedInDouble rest.head? = true
    · have one : (doubleRound backslash rest).skip = 1 := by simp [doubleRound, closes, special]
      rw [one] at unquoted ⊢
      exact ⟨unquoted, by simp, fun _ _ => .inl ⟨rfl, rfl⟩⟩
    · have none_ : (doubleRound backslash rest).skip = 0 := by
        rw [doubleRound_plain closes (by simp [special])
          (by rw [replacement, if_neg (by decide), if_neg (by decide)])]
      rw [none_] at unquoted ⊢
      exact ⟨unquoted, fun _ _ => by simpa using special, by simp⟩
  · refine ⟨some quote, false, ?_, .double _ rest false ⟨unquoted, by simp, ?_⟩⟩
    · rw [Scanner.walk, if_neg taken]
      simp [closes]
    · intro able positive
      by_cases escape : c = backslash ∧ escapedInDouble rest.head? = true
      · have emptied : rest = [] := by
          by_contra nonempty
          exact taken ⟨escape.1, nonempty, able⟩
        simp [emptied]
      · cases found : replacement true c rest with
        | none => simp [doubleRound_plain closes escape found] at positive
        | some inner =>
          have same : (doubleRound c rest).skip = inner.2 := by
            simp [doubleRound, closes, escape, found]
          obtain ⟨b, ends, other⟩ := replacement_ends found
          rw [same, ends.getLast]
          simpa using other

theorem taken_follows (ordinary : escapedInDouble (some c) = false) :
    Follows s (doubleRound c rest) (some quote) true c rest := by
  have kept := ordinary
  simp only [escapedInDouble, Option.some.injEq, Bool.or_eq_false_iff, decide_eq_false_iff_not]
    at kept
  rw [doubleRound_plain kept.1.1.1 (by simp [kept]) (replacement_ordinary ordinary)]
  exact ⟨some quote, false, rfl, .double 0 rest false ⟨by simp, by simp, by simp⟩⟩

/-- From a common place on, a scanner sees the places as the expansion does. -/
theorem InStep.marks_eq (standard : s.Standard) {mode : Mode} {skip : Nat} {shield : Bool}
    {q : Option Byte} (step : InStep s mode skip shield text q escaped)
    (even : evenFrom mode skip text = true) :
    (s.walk q escaped text).map Prod.snd =
      (scanText mode skip shield text).map Piece.shielded := by
  induction text generalizing mode skip shield q escaped with
  | nil => cases mode <;> cases skip <;> cases escaped <;> rfl
  | cons c rest ih =>
    -- a round starts at this place
    have starts : ∀ {mode : Mode} {shield : Bool} {q escaped},
        Follows s (round mode c rest) q escaped c rest →
        evenFrom (round mode c rest).mode (round mode c rest).skip rest = true →
        (s.walk q escaped (c :: rest)).map Prod.snd =
          (scanText mode 0 shield (c :: rest)).map Piece.shielded := by
      rintro mode shield q escaped ⟨q', escaped', walked, behind⟩ even
      rw [walked, scanText, List.map_cons, List.map_cons, ih behind even]
    cases step with
    | plain =>
      rw [evenFrom, Bool.and_eq_true] at even
      exact starts (plainRound_follows standard even.1) even.2
    | escaped => exact congrArg (true :: ·) (ih (.plain true rest) even)
    | named skip _ names =>
      cases skip with
      | zero =>
        rw [evenFrom, Bool.and_eq_true] at even
        exact starts (plainRound_follows standard even.1) even.2
      | succ skip =>
        simp only [List.take_succ_cons, List.all_cons, Bool.and_eq_true] at names
        have escape : c ≠ backslash := by
          rintro rfl
          exact absurd names.1 (by decide)
        rw [Scanner.walk, if_neg (by simp [escape])]
        simp only [standard.bare c names.1]
        exact congrArg (false :: ·) (ih (.named skip rest names.2) even)
    | single =>
      rw [evenFrom, Bool.and_eq_true] at even
      exact starts (singleRound_follows standard c rest) even.2
    | doubled =>
      rw [Scanner.walk]
      simp only [standard.tick]
      exact congrArg (true :: ·) (ih (.single true rest) even)
    | double skip _ escaped inside =>
      cases skip with
      | zero =>
        rw [evenFrom, Bool.and_eq_true] at even
        cases escaped with
        | false => exact starts (doubleRound_follows even.1) even.2
        | true => exact starts (taken_follows (inside.ordinary rfl rfl)) even.2
      | succ skip =>
        have other : c ≠ quote := by
          rintro rfl
          exact inside.no_quote (by simp)
        cases escaped with
        | true =>
          exact congrArg (true :: ·)
            (ih (.double skip rest false (inside.behind false (by simp))) even)
        | false =>
          by_cases taken : c = backslash ∧ rest ≠ [] ∧ s.escapes (some quote) = true
          · rw [Scanner.walk, if_pos taken]
            exact congrArg (true :: ·) (ih (.double skip rest true
              (inside.behind true fun _ => ⟨taken.1, taken.2.2, rfl⟩)) even)
          · rw [Scanner.walk, if_neg taken]
            simp only [if_neg other]
            exact congrArg (true :: ·)
              (ih (.double skip rest false (inside.behind false (by simp))) even)

theorem walk_bytes (s : Scanner) (q : Option Byte) (escaped : Bool) (text : List Byte) :
    (s.walk q escaped text).map Prod.fst = text := by
  fun_induction Scanner.walk s q escaped text <;> simp_all

theorem getElem_walk {q : Option Byte} {i : Nat} {place : Byte × Bool}
    (found : (s.walk q escaped text)[i]? = some place) :
    text[i]? = some place.1 ∧ ((s.walk q escaped text).map Prod.snd)[i]? = some place.2 := by
  constructor
  · rw [← walk_bytes s q escaped text, List.getElem?_map, found]
    rfl
  · rw [List.getElem?_map, found]
    rfl

theorem closeSpan_outside {openMark closeMark : Byte} {depth : Int} {places : List (Byte × Bool)}
    {span : Nat} (found : closeSpan openMark closeMark depth places = some span) :
    0 < span ∧ (places.map Prod.snd)[span - 1]? = some false := by
  have behind : ∀ {place : Byte × Bool} {rest : List (Byte × Bool)} {short : Nat},
      0 < short ∧ (rest.map Prod.snd)[short - 1]? = some false →
      0 < short + 1 ∧ ((place :: rest).map Prod.snd)[short + 1 - 1]? = some false := by
    rintro place rest short ⟨positive, last⟩
    refine ⟨by omega, ?_⟩
    rw [List.map_cons, List.getElem?_cons, if_neg (by omega)]
    exact last
  induction places generalizing depth span with
  | nil => simp [closeSpan] at found
  | cons place rest ih =>
    rw [closeSpan] at found
    split_ifs at found with covered opens closes ends
    · obtain ⟨short, same, rfl⟩ := Option.map_eq_some_iff.mp found
      exact behind (ih same)
    · obtain ⟨short, same, rfl⟩ := Option.map_eq_some_iff.mp found
      exact behind (ih same)
    · cases found
      exact ⟨Nat.one_pos, by simpa using covered⟩
    · obtain ⟨short, same, rfl⟩ := Option.map_eq_some_iff.mp found
      exact behind (ih same)
    · obtain ⟨short, same, rfl⟩ := Option.map_eq_some_iff.mp found
      exact behind (ih same)

theorem seqOpAt_bare {more : List Byte} {op : SeqOp} {span : Nat}
    (found : seqOpAt more = some (op, span)) :
    span ≤ more.length ∧ ∀ b ∈ more.take span, bare b = true := by
  have blank_bare : bare blank = true := by decide
  have semi_bare : bare semicolon = true := by decide
  have and_bare : bare ampersand = true := by decide
  have or_bare : bare pipe = true := by decide
  cases more with
  | nil => simp [seqOpAt] at found
  | cons c more =>
    rw [seqOpAt] at found
    rcases more with _ | ⟨x, _ | ⟨y, _ | ⟨z, rest⟩⟩⟩
    all_goals
      simp only [List.getElem?_nil, List.getElem?_cons_zero, List.getElem?_cons_succ,
        reduceCtorEq, if_false] at found
      split_ifs at found
    all_goals
      obtain ⟨-, rfl⟩ := found
      simp_all

theorem walk_bare (standard : s.Standard) {span : Nat} (fits : span ≤ text.length)
    (all : ∀ b ∈ text.take span, bare b = true) {i : Nat} (inside : i < span) :
    ((s.walk none false text).map Prod.snd)[i]? = some false := by
  induction text generalizing span i with
  | nil => simp at fits; omega
  | cons c _ ih =>
    cases span with
    | zero => omega
    | succ =>
      have first : bare c = true := all c (by simp)
      have escape : c ≠ backslash := by
        rintro rfl
        exact absurd first (by decide)
      rw [Scanner.walk, if_neg (by simp [escape])]
      simp only [standard.bare c first]
      cases i with
      | zero => rfl
      | succ =>
        exact ih (by simpa using fits)
          (fun b member => all b (by simp [member])) (by omega)

theorem walk_cons (s : Scanner) (q : Option Byte) (escaped : Bool) (c : Byte)
    (rest : List Byte) : ∃ shielded q' escaped', s.walk q escaped (c :: rest) =
      (c, shielded) :: s.walk q' escaped' rest ∧ (shielded = false → q = none ∧ escaped = false) := by
  cases escaped with
  | true => exact ⟨true, q, false, by rw [Scanner.walk], by simp⟩
  | false =>
    cases q with
    | some =>
      rw [Scanner.walk]
      split_ifs with taken
      · exact ⟨true, _, true, rfl, by simp⟩
      · exact ⟨true, _, false, rfl, by simp⟩
      · exact ⟨true, _, false, rfl, by simp⟩
    | none =>
      rw [Scanner.walk]
      split_ifs with taken opens
      · exact ⟨true, _, true, rfl, by simp⟩
      · exact ⟨true, _, false, rfl, by simp⟩
      · exact ⟨false, _, false, rfl, by simp⟩

theorem cutsFrom_outside (standard : s.Standard) {start skip : Nat} {q : Option Byte}
    {cut : Nat × Nat} (member : cut ∈ cutsFrom start skip (s.walk q escaped text)) {i : Nat}
    (inside : i < cut.2) :
    start ≤ cut.1 ∧
      ((s.walk q escaped text).map Prod.snd)[cut.1 - start + i]? = some false := by
  induction text generalizing start skip q escaped with
  | nil => simp [Scanner.walk, cutsFrom] at member
  | cons c rest ih =>
    obtain ⟨shielded, q', escaped', walked, outside⟩ := walk_cons s q escaped c rest
    have later : ∀ {skip}, cut ∈ cutsFrom (start + 1) skip (s.walk q' escaped' rest) →
        start ≤ cut.1 ∧
          ((s.walk q escaped (c :: rest)).map Prod.snd)[cut.1 - start + i]? = some false := by
      intro skip member
      obtain ⟨behind, found⟩ := ih member
      refine ⟨by omega, ?_⟩
      rw [walked, List.map_cons, List.getElem?_cons, if_neg (by omega)]
      rwa [show cut.1 - start + i - 1 = cut.1 - (start + 1) + i by omega]
    cases skip with
    | succ => exact later (by rwa [walked] at member)
    | zero =>
      rw [walked, cutsFrom, walk_bytes] at member
      split at member
      · rename_i op span found
        rcases List.mem_cons.mp member with rfl | member
        · cases shielded with
          | true => simp at found
          | false =>
            obtain ⟨rfl, rfl⟩ := outside rfl
            obtain ⟨fits, all⟩ := seqOpAt_bare (by simpa using found)
            refine ⟨Nat.le_refl _, ?_⟩
            rw [Nat.sub_self, Nat.zero_add]
            exact walk_bare standard fits all inside
        · exact later member
      · exact later member

/-- On evenly quoted text all layers agree with the expansion. -/
theorem layers_agree_of_evenlyQuoted (text : List Byte) (even : EvenlyQuoted text) :
    LayersAgree text := by
  have same : ∀ s : Scanner, s.Standard → s.marks text = expandMarks text :=
    fun s standard => (InStep.plain true text).marks_eq standard even
  refine ⟨same _ plainScanner_standard, same _ groupScanner_standard,
    same _ balanceScanner_standard, same _ lineScanner_standard, ?_, ?_, ?_⟩
  · intro stops
    have length : (plainScanner.places text).length = text.length := by
      simpa [Scanner.places] using
        congrArg List.length (walk_bytes plainScanner none false text)
    rw [← length] at stops
    have found := List.findIdx_getElem (w := stops)
    simp only [Bool.and_eq_true, Bool.not_eq_true'] at found
    rw [Outside, ← same _ plainScanner_standard, ← found.1]
    exact (getElem_walk (List.getElem?_eq_getElem stops)).2
  · intro span closed
    cases text with
    | nil => simp [spanGroup] at closed
    | cons =>
      rw [Outside, ← same _ groupScanner_standard]
      exact (closeSpan_outside closed).2
  · intro cut member i inside
    obtain ⟨-, found⟩ := cutsFrom_outside lineScanner_standard member inside
    rw [Outside, ← same _ lineScanner_standard]
    exact found

/-- `'a;b' "c;d"` -/
def quotedSemicolons : List Byte :=
  [tick, 0x61, semicolon, 0x62, tick, blank, quote, 0x63, semicolon, 0x64, quote]

theorem quotedSemicolons_agree : LayersAgree quotedSemicolons ∧ plainEnd quotedSemicolons = 11 :=
  ⟨layers_agree_of_evenlyQuoted quotedSemicolons (by decide), by decide⟩

/-- `"a\";b"`: the escaped quote closes the quotes for the splitter, not for the expansion. -/
def escapedQuote : List Byte := [quote, 0x61, backslash, quote, semicolon, 0x62, quote]

theorem escaped_quote_ends_statement :
    plainEnd escapedQuote = 4 ∧ (expandMarks escapedQuote)[4]? = some true ∧
      ¬ LayersAgree escapedQuote := by
  have ends : plainEnd escapedQuote = 4 := by decide
  have quoted : (expandMarks escapedQuote)[4]? = some true := by decide
  refine ⟨ends, quoted, fun agree => ?_⟩
  have outside := agree.statement (by decide)
  cases outside

end Racccoon.Shell
