import Mathlib.Data.List.Basic

/-!
The word expansion of the shell (`user/shell_words.c3`): one piece of command text, its
quotes removed and its variables and backquoted commands replaced. A text is the bytes
before its NUL. Each of its places is read once; `Piece` says whether the place is inside
quotes, a quote mark or part of an escape, and what is put out there.
-/

namespace Racccoon.Shell

abbrev Byte := BitVec 8

def tick : Byte := 0x27
def quote : Byte := 0x22
def grave : Byte := 0x60
def backslash : Byte := 0x5C
def dollar : Byte := 0x24
def openBrace : Byte := 0x7B
def closeBrace : Byte := 0x7D
def openParen : Byte := 0x28
def closeParen : Byte := 0x29
def blank : Byte := 0x20
def newline : Byte := 0x0A
def semicolon : Byte := 0x3B
def ampersand : Byte := 0x26
def pipe : Byte := 0x7C
def lessThan : Byte := 0x3C
def greaterThan : Byte := 0x3E
def star : Byte := 0x2A
def questionMark : Byte := 0x3F

/-- The quote anchor. -/
def shQmark : Byte := 1

variable (c : Byte)

def shNameStart : Bool :=
  0x61 ≤ c && c ≤ 0x7A || 0x41 ≤ c && c ≤ 0x5A || c == 0x5F

def shNameChar : Bool := shNameStart c || 0x30 ≤ c && c ≤ 0x39

def nameMax : Nat := 31

/-- `sh_read_varname`: the name behind a dollar sign and how many bytes it takes. -/
def readVarname : List Byte → Option (List Byte × Nat)
  | [] => none
  | c :: rest =>
    if c = openBrace then
      let name := (rest.takeWhile (· != closeBrace)).take nameMax
      if rest[name.length]? = some closeBrace ∧ name ≠ [] then some (name, name.length + 2)
      else none
    else if c = 0x23 ∨ c = star ∨ 0x31 ≤ c ∧ c ≤ 0x39 then some ([c], 1)
    else if shNameStart c then
      let name := ((c :: rest).takeWhile shNameChar).take nameMax
      some (name, name.length)
    else none

/-- How many bytes there are through the brace that closes the ones open at `depth`. -/
def braceSpan : Nat → List Byte → Option Nat
  | _, [] => none
  | depth, c :: rest =>
    if c = openBrace then (braceSpan (depth + 1) rest).map (· + 1)
    else if c = closeBrace then
      if depth ≤ 1 then some 1 else (braceSpan (depth - 1) rest).map (· + 1)
    else (braceSpan depth rest).map (· + 1)

/-- The bytes before the next backquote that is not escaped, without the escapes. -/
def graveText : List Byte → Option (List Byte × Nat)
  | [] => none
  | c :: rest =>
    if c = grave then some ([], 1)
    else if c = backslash then
      match rest with
      | [] => none
      | next :: rest => (graveText rest).map fun (inner, span) => (next :: inner, span + 2)
    else (graveText rest).map fun (inner, span) => (c :: inner, span + 1)

def commandMax : Nat := 255

variable (text : List Byte)

/-- `sh_read_cmdsub`: the command behind a backquote and how many bytes it takes. -/
def readCmdsub : Option (List Byte × Nat) :=
  match text with
  | [] => none
  | c :: rest =>
    if c = openBrace then
      (braceSpan 0 text).map fun span => ((rest.take (span - 2)).take commandMax, span)
    else (graveText text).map fun (inner, span) => (inner.take commandMax, span)

inductive Item where
  | byte (c : Byte) (quoted : Bool)
  | anchor
  | variable (name : List Byte) (quoted : Bool)
  | command (text : List Byte) (quoted : Bool)
  deriving DecidableEq

structure Piece where
  shielded : Bool
  items : List Item
  /-- A round of the outer loop starts here. -/
  outer : Bool
  deriving DecidableEq

inductive Mode where
  | plain | single | double
  deriving DecidableEq

def escapedInDouble (next : Option Byte) : Bool :=
  next = some quote || next = some backslash || next = some dollar || next = some grave

/-- The name or command that `c`, with `rest` behind it, begins. -/
def replacement (quoted : Bool) (c : Byte) (rest : List Byte) : Option (Item × Nat) :=
  if c = dollar then (readVarname rest).map fun (name, span) => (.variable name quoted, span)
  else if c = grave then (readCmdsub rest).map fun (text, span) => (.command text quoted, span)
  else none

/-- One round of a loop: the place it starts at, the loop it leaves for, and how many more
places it consumes, inside quotes or an escape if `shield` is set. -/
structure Round where
  piece : Piece
  mode : Mode
  skip : Nat
  shield : Bool

variable (rest : List Byte)

def plainRound : Round :=
  if c = backslash then ⟨⟨true, [.byte (rest.head?.getD backslash) true], true⟩, .plain, 1, true⟩
  else if c = tick then ⟨⟨true, [.anchor], true⟩, .single, 0, true⟩
  else if c = quote then ⟨⟨true, [.anchor], true⟩, .double, 0, true⟩
  else
    match replacement false c rest with
    | some (item, span) => ⟨⟨c == grave, [item], true⟩, .plain, span, c == grave⟩
    | none => ⟨⟨false, [.byte c false], true⟩, .plain, 0, true⟩

def singleRound : Round :=
  if c = tick then
    if rest.head? = some tick then ⟨⟨true, [.byte tick true], false⟩, .single, 1, true⟩
    else ⟨⟨true, [], false⟩, .plain, 0, true⟩
  else ⟨⟨true, [.byte c true], false⟩, .single, 0, true⟩

def doubleRound : Round :=
  if c = quote then ⟨⟨true, [], false⟩, .plain, 0, true⟩
  else if c = backslash ∧ escapedInDouble rest.head? = true then
    ⟨⟨true, [.byte (rest.head?.getD backslash) true], false⟩, .double, 1, true⟩
  else
    match replacement true c rest with
    | some (item, span) => ⟨⟨true, [item], false⟩, .double, span, true⟩
    | none => ⟨⟨true, [.byte c true], false⟩, .double, 0, true⟩

def round : Mode → Byte → List Byte → Round
  | .plain => plainRound
  | .single => singleRound
  | .double => doubleRound

/-- The loops of `shell_expand_q`, place by place; `skip` places more belong to the round
before. -/
def scanText : Mode → Nat → Bool → List Byte → List Piece
  | _, _, _, [] => []
  | mode, skip + 1, shield, _ :: rest => ⟨shield, [], false⟩ :: scanText mode skip shield rest
  | mode, 0, _, c :: rest =>
    let next := round mode c rest
    next.piece :: scanText next.mode next.skip next.shield rest

/-- The loop that the end of the text is met in. -/
def endMode : Mode → Nat → List Byte → Mode
  | mode, _, [] => mode
  | mode, skip + 1, _ :: rest => endMode mode skip rest
  | mode, 0, c :: rest =>
    let next := round mode c rest
    endMode next.mode next.skip rest

def expandMarks : List Bool :=
  (scanText .plain 0 true text).map Piece.shielded

/-- The `span` bytes that `text` starts with end in `b`. -/
def EndsIn (span : Nat) (b : Byte) : Prop :=
  0 < span ∧ text[span - 1]? = some b

variable {text : List Byte}
variable {span : Nat}

theorem EndsIn.behind {b : Byte} (ends : EndsIn text span b) (c : Byte) :
    EndsIn (c :: text) (span + 1) b := by
  obtain ⟨positive, last⟩ := ends
  refine ⟨by omega, ?_⟩
  rw [List.getElem?_cons, if_neg (by omega)]
  exact last

theorem EndsIn.getLast {b : Byte} (ends : EndsIn text span b) :
    (text.take span).getLast? = some b := by
  obtain ⟨positive, last⟩ := ends
  rw [List.getLast?_take, if_neg (by omega), last]
  rfl

theorem braceSpan_ends {depth : Nat} (found : braceSpan depth text = some span) :
    EndsIn text span closeBrace := by
  induction text generalizing depth span with
  | nil => simp [braceSpan] at found
  | cons c rest ih =>
    rw [braceSpan] at found
    split_ifs at found with opens closes shallow
    · obtain ⟨short, same, rfl⟩ := Option.map_eq_some_iff.mp found
      exact (ih same).behind c
    · cases found
      exact ⟨Nat.one_pos, by simp [closes]⟩
    · obtain ⟨short, same, rfl⟩ := Option.map_eq_some_iff.mp found
      exact (ih same).behind c
    · obtain ⟨short, same, rfl⟩ := Option.map_eq_some_iff.mp found
      exact (ih same).behind c

theorem graveText_ends {inner : List Byte} (found : graveText text = some (inner, span)) :
    EndsIn text span grave := by
  induction text using graveText.induct generalizing inner span with
  | case1 => simp [graveText] at found
  | case2 rest =>
    rw [graveText.eq_def] at found
    cases found
    exact ⟨Nat.one_pos, rfl⟩
  | case3 opened => simp [graveText, opened] at found
  | case4 next rest opened ih =>
    obtain ⟨⟨short, span⟩, same, parts⟩ := Option.map_eq_some_iff.mp found
    cases parts
    exact ((ih same).behind next).behind backslash
  | case5 c rest opened plain ih =>
    rw [graveText.eq_def] at found
    simp only [if_neg opened, if_neg plain] at found
    obtain ⟨⟨short, span⟩, same, parts⟩ := Option.map_eq_some_iff.mp found
    cases parts
    exact (ih same).behind c

theorem shNameChar_ne_backslash {c : Byte} (named : shNameChar c = true) : c ≠ backslash := by
  rintro rfl
  exact absurd named (by decide)

theorem readVarname_ends {name : List Byte} (found : readVarname text = some (name, span)) :
    ∃ b, EndsIn text span b ∧ b ≠ backslash := by
  cases text with
  | nil => simp [readVarname] at found
  | cons c rest =>
    rw [readVarname] at found
    split at found
    · dsimp only at found
      split at found
      · rename_i closed
        cases found
        exact ⟨closeBrace, ⟨by omega, by simpa using closed.1⟩, by decide⟩
      · simp at found
    · split at found
      · rename_i special
        cases found
        refine ⟨c, ⟨Nat.one_pos, rfl⟩, ?_⟩
        rintro rfl
        revert special
        decide
      · split at found
        · rename_i starts
          cases found
          have named : shNameChar c = true := by simp [shNameChar, starts]
          have nonempty : 0 < (((c :: rest).takeWhile shNameChar).take nameMax).length := by
            simp [named, nameMax]
          have short : ((c :: rest).takeWhile shNameChar).take nameMax <+: c :: rest :=
            (List.take_prefix _ _).trans (List.takeWhile_prefix _)
          have all : ∀ b ∈ ((c :: rest).takeWhile shNameChar).take nameMax,
              shNameChar b = true :=
            fun b member => List.all_eq_true.mp List.all_takeWhile b (List.mem_of_mem_take member)
          generalize ((c :: rest).takeWhile shNameChar).take nameMax = name at *
          have inside : name.length - 1 < name.length := by omega
          exact ⟨name[name.length - 1],
            ⟨nonempty, List.prefix_iff_getElem?.mp short _ inside⟩,
            shNameChar_ne_backslash (all _ (List.getElem_mem inside))⟩
        · simp at found

theorem replacement_ends {quoted : Bool} {c : Byte} {rest : List Byte} {item : Item}
    (found : replacement quoted c rest = some (item, span)) :
    ∃ b, EndsIn rest span b ∧ b ≠ backslash := by
  rw [replacement] at found
  split_ifs at found with named commanded
  · obtain ⟨⟨name, length⟩, same, parts⟩ := Option.map_eq_some_iff.mp found
    cases parts
    exact readVarname_ends same
  · obtain ⟨⟨text, length⟩, same, parts⟩ := Option.map_eq_some_iff.mp found
    cases parts
    cases rest with
    | nil => simp [readCmdsub] at same
    | cons next rest =>
      rw [readCmdsub] at same
      split_ifs at same with braced
      · obtain ⟨short, closed, parts⟩ := Option.map_eq_some_iff.mp same
        cases parts
        exact ⟨closeBrace, braceSpan_ends closed, by decide⟩
      · obtain ⟨⟨short, length⟩, closed, parts⟩ := Option.map_eq_some_iff.mp same
        cases parts
        exact ⟨grave, graveText_ends closed, by decide⟩

end Racccoon.Shell
