import Racccoon.Shell.Words

/-!
One pipeline segment (`shell_run_pipeline`, `user/shell_common.c3`): the text is expanded
into bytes with their quote mask, split into words at the unquoted blanks, and its operators
make the stages and redirections. What a name or a command stands for comes from outside;
it may be another text at each place.
-/

namespace Racccoon.Shell

/-- A byte of the expansion, and whether its mask says that it was quoted. -/
abbrev Out := Byte × Bool

/-- What each place of a text is replaced by: counted from the end of the text. -/
abbrev Env := Nat → Item → List Byte

/-- `val[256]` and `cv[512]`, each with a NUL. -/
def valueMax : Nat := 255
def outputMax : Nat := 511

def expansion (value : Item → List Byte) : Item → List Out
  | .byte c quoted => [(c, quoted)]
  | .anchor => [(shQmark, true)]
  | .variable name quoted =>
    ((value (.variable name quoted)).take valueMax).map fun c => (c, quoted)
  | .command text quoted =>
    ((value (.command text quoted)).take outputMax).map fun c => (c, quoted)

def emitted (env : Env) : List Piece → List Out
  | [] => []
  | piece :: rest => piece.items.flatMap (expansion (env rest.length)) ++ emitted env rest

def stopsEarly (env : Env) : Nat → List Piece → Bool
  | _, [] => false
  | room, piece :: rest =>
    piece.outer && room == 0 ||
      stopsEarly env (room - (piece.items.flatMap (expansion (env rest.length))).length) rest

def pieces (text : List Byte) : List Piece := scanText .plain 0 true text

/-- `shell_expand_q` into a buffer of `cap` bytes; `none` for an unterminated quote. -/
def expandQ (env : Env) (cap : Nat) (text : List Byte) : Option (List Out) :=
  if stopsEarly env (cap - 1) (pieces text) || endMode .plain 0 text = .plain then
    some ((emitted env (pieces text)).take (cap - 1))
  else none

def beforeNul (out : List Out) : List Out := out.takeWhile fun place => place.1 ≠ 0

theorem beforeNul_cons (place : Out) (out : List Out) :
    beforeNul (place :: out) = if place.1 = 0 then [] else place :: beforeNul out := by
  by_cases ends : place.1 = 0 <;> simp [beforeNul, List.takeWhile_cons]

abbrev Token := List Out

/-- The words of `out`; `token` is the one that has begun. -/
def tokensFrom : Option Token → List Out → List Token
  | token, [] => token.toList
  | token, (c, quoted) :: rest =>
    if c = blank ∧ quoted = false then token.toList ++ tokensFrom none rest
    else tokensFrom (some (token.getD [] ++ [(c, quoted)])) rest

inductive Op where
  | pipe | input | output | append
  deriving DecidableEq

/-- `tok_op`: the mask of the first byte and the text of the token decide. -/
def tokOp (token : Token) : Option Op :=
  match token with
  | (_, true) :: _ => none
  | _ =>
    let text := token.map Prod.fst
    if text = [Shell.pipe] then some .pipe
    else if text = [lessThan] then some .input
    else if text = [greaterThan] then some .output
    else if text = [greaterThan, greaterThan] then some .append
    else none

/-- The token has an unquoted byte of `metas`: `tok_glob` and `has_brace`. -/
def unquoted (metas : Byte → Bool) (token : Token) : Bool :=
  token.any fun place => !place.2 && metas place.1

def globMetas (c : Byte) : Bool := c = star ∨ c = questionMark

end Racccoon.Shell
