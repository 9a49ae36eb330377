import Racccoon.Lib.PathForms
import Racccoon.Namespace.Translate

/-!
How the native library makes a path absolute: `path_collapse`, `fs_abspath` and
`exec_path` of `user/user.c3`. A C string is the list of its characters before the NUL.
A buffer is what has been written to it so far, and a write behind its end has no result.
-/

namespace Racccoon.Paths

open Racccoon.PathForms
open Racccoon.Namespace (Text)

def dot : Text := ['.']
def dotdot : Text := ['.', '.']

/-- `out[o] = char; o++;` -/
def put (size : Nat) (out : Text) (char : Char) : Option Text :=
  if out.length < size then some (out ++ [char]) else none

/-- The copying loops, which stop at the end of the source and at `limit`. -/
def copyUpTo (size limit : Nat) : Text → Text → Option Text
  | [], out => some out
  | char :: rest, out =>
    if out.length < limit then (put size out char).bind (copyUpTo size limit rest)
    else some out

/-- `out[o] = 0;` -/
def terminated (size : Nat) (out : Text) : Option Text :=
  if out.length < size then some out else none

theorem copyUpTo_eq {size limit : Nat} (inside : limit ≤ size) (source out : Text) :
    copyUpTo size limit source out = some (out ++ source.take (limit - out.length)) := by
  induction source generalizing out with
  | nil => simp [copyUpTo]
  | cons char rest ih =>
    unfold copyUpTo
    split
    · next room =>
        have left : limit - out.length = (limit - (out ++ [char]).length) + 1 := by
          rw [List.length_append, List.length_singleton]
          omega
        rw [put, if_pos (Nat.lt_of_lt_of_le room inside), Option.bind_some, ih, left,
          List.take_succ_cons, List.append_assoc, List.singleton_append]
    · next full => rw [Nat.sub_eq_zero_of_le (Nat.not_lt.1 full), List.take_zero, List.append_nil]

theorem terminated_eq {size : Nat} {out : Text} (room : out.length < size) :
    terminated size out = some out := if_pos room

/-- The process's `cwd`, which the kernel keeps in 100 bytes; empty is the root. -/
structure WorkingDir where
  text : Text
  short : text.length ≤ 99

variable (cwd : WorkingDir)

/-- `SYS_GETCWD` into a buffer of `cap` bytes. -/
def getcwd (cap : Nat) : Text := cwd.text.take (cap - 1)

theorem getcwd_eq {cap : Nat} (room : 100 ≤ cap) : getcwd cwd cap = cwd.text :=
  List.take_of_length_le (by have := cwd.short; omega)

def collapseStep (rooted : Bool) (out run : Text) : Option Text :=
  if run = dot then some out
  else if run = dotdot then some (backed '/' out)
  else
    (if (rooted = true ∨ out ≠ []) ∧ out.length < 99 then put 100 out '/' else some out).bind
      (copyUpTo 100 99 run)

def pathCollapse (raw : Text) (rooted : Bool) : Option Text :=
  ((segments '/' raw).foldlM (collapseStep rooted) []).bind (terminated 100)

variable (rel : Text)

/-- The text before it is collapsed, and whether the result is rooted. -/
def fsAbspathRaw : Option (Text × Bool) :=
  if rel.head? = some '/' then (copyUpTo 128 127 rel []).map (·, true)
  else do
    let cw := getcwd cwd 100
    let raw ← copyUpTo 128 127 cw []
    if rel = [] then pure (raw, decide (cw ≠ []))
    else
      let raw ← if raw ≠ [] ∧ raw.length < 127 then put 128 raw '/' else some raw
      let raw ← copyUpTo 128 127 rel raw
      pure (raw, decide (cw ≠ []))

def fsAbspath : Option Text := do
  let (raw, absolute) ← fsAbspathRaw cwd rel
  let raw ← terminated 128 raw
  pathCollapse raw absolute

def pathVarMax : Nat := 64

variable (value : Option Text)

/-- What is read of `/env/PATH`, and what stands in for it. -/
def searchList : Text :=
  match value.map (List.take (pathVarMax - 1)) with
  | some (char :: rest) => char :: rest
  | _ => "/bin/".toList

def execCandidate (name entry : Text) : Option Text := do
  let candidate ← copyUpTo 128 100 entry []
  let candidate ← copyUpTo 128 127 name candidate
  terminated 128 candidate

/-- The paths given to `exec`, each when the ones before it have failed. -/
def execCandidates (name : Text) : Option (List Text) :=
  (segments ':' (searchList value)).mapM (execCandidate name)

def joined : Text :=
  if rel.head? = some '/' ∨ cwd.text = [] then rel
  else if rel = [] then cwd.text
  else cwd.text ++ '/' :: rel

def isRooted : Bool :=
  decide (rel.head? = some '/' ∨ cwd.text ≠ [])

def components : List Text :=
  settle dot dotdot (segments '/' (joined cwd rel))

def named : Text :=
  written '/' (isRooted cwd rel) (components cwd rel)

theorem append_take {out more : Text} {limit : Nat} (short : out.length ≤ limit) :
    out ++ more.take (limit - out.length) = (out ++ more).take limit := by
  rw [List.take_append, List.take_of_length_le short]

theorem backed_length_le (out : Text) : (backed '/' out).length ≤ out.length := by
  rw [backed, List.length_dropLast]
  exact Nat.le_trans (Nat.sub_le _ _) (List.rdropWhile_prefix _ _).length_le

theorem capStep_short (rooted : Bool) {out : Text} (run : Text) (short : out.length ≤ 99) :
    (capStep '/' dot dotdot 99 rooted out run).length ≤ 99 := by
  unfold capStep
  split
  · exact short
  split
  · exact Nat.le_trans (backed_length_le out) short
  · exact List.length_take_le 99 _

theorem collapseStep_eq {rooted : Bool} {out run : Text} (short : out.length ≤ 99) :
    collapseStep rooted out run = some (capStep '/' dot dotdot 99 rooted out run) := by
  unfold collapseStep capStep
  split
  · rfl
  split
  · rfl
  by_cases behind : rooted = true ∨ out ≠ []
  · rw [lead, if_pos behind]
    by_cases room : out.length < 99
    · rw [if_pos ⟨behind, room⟩, put, if_pos (by omega), Option.bind_some,
        copyUpTo_eq (by omega), append_take (by simp; omega)]
    · have full : out.length = 99 := Nat.le_antisymm short (Nat.not_lt.1 room)
      rw [if_neg fun both => room both.2, Option.bind_some, copyUpTo_eq (by omega), full,
        List.take_zero, List.append_nil, List.append_assoc, ← full, List.take_left]
  · rw [lead, if_neg behind, if_neg fun both => behind both.1, Option.bind_some,
      copyUpTo_eq (by omega), append_take short, List.append_nil]

theorem foldlM_collapseStep (rooted : Bool) (runs : List Text) {out : Text}
    (short : out.length ≤ 99) :
    runs.foldlM (collapseStep rooted) out =
        some (runs.foldl (capStep '/' dot dotdot 99 rooted) out) ∧
      (runs.foldl (capStep '/' dot dotdot 99 rooted) out).length ≤ 99 := by
  induction runs generalizing out with
  | nil => exact ⟨rfl, short⟩
  | cons run _ ih =>
    obtain ⟨is, still⟩ := ih (capStep_short rooted run short)
    rw [List.foldlM_cons, collapseStep_eq short]
    exact ⟨is, still⟩

theorem pathCollapse_eq (raw : Text) (rooted : Bool) :
    pathCollapse raw rooted = some (capped '/' dot dotdot 99 rooted (segments '/' raw)) := by
  obtain ⟨is, short⟩ := foldlM_collapseStep rooted (segments '/' raw)
    (show ([] : Text).length ≤ 99 from Nat.zero_le 99)
  rw [pathCollapse, is]
  exact terminated_eq (by omega)

theorem fsAbspathRaw_eq :
    fsAbspathRaw cwd rel = some ((joined cwd rel).take 127, isRooted cwd rel) := by
  have short := cwd.short
  unfold fsAbspathRaw joined isRooted
  by_cases absolute : rel.head? = some '/'
  · simp [absolute, copyUpTo_eq]
  · rw [getcwd_eq cwd (Nat.le_refl 100)]
    by_cases root : cwd.text = []
    · by_cases empty : rel = []
      · simp [root, empty, copyUpTo_eq]
      · simp [root, absolute, copyUpTo_eq]
    · by_cases empty : rel = []
      · simp [root, empty, copyUpTo_eq]
      · have room : (cwd.text ++ ['/']).length ≤ 127 := by simp; omega
        simp only [absolute, root, empty, copyUpTo_eq, put, List.length_nil, List.nil_append, List.take_of_length_le (by omega : cwd.text.length ≤ 127), ne_eq,
          if_true, Nat.le_succ,
          (by omega : cwd.text.length < 127), (by omega : cwd.text.length < 128),
          Option.bind_eq_bind, Option.bind_some]
        rw [append_take room, List.append_assoc]
        rfl

theorem fsAbspath_eq : fsAbspath cwd rel = some (capped '/' dot dotdot 99 (isRooted cwd rel)
      (segments '/' ((joined cwd rel).take 127))) := by
  have room : ((joined cwd rel).take 127).length < 128 :=
    Nat.lt_succ_of_le (List.length_take_le 127 _)
  simp only [fsAbspath, fsAbspathRaw_eq, Option.bind_eq_bind, Option.bind_some,
    terminated_eq room, pathCollapse_eq]

theorem execCandidate_eq (name entry : Text) :
    execCandidate name entry = some (entry.take 100 ++ name.take (127 - min 100 entry.length)) := by
  have room : (entry.take 100 ++ name.take (127 - min 100 entry.length)).length < 128 := by
    simp only [List.length_append, List.length_take]
    omega
  simp only [execCandidate, copyUpTo_eq (by omega : 100 ≤ 128), copyUpTo_eq (by omega : 127 ≤ 128),
    Option.bind_eq_bind, Option.bind_some, List.nil_append, List.length_nil, List.length_take, terminated_eq room]

theorem execCandidates_eq (name : Text) :
    execCandidates value name = some ((segments ':' (searchList value)).map fun entry =>
      entry.take 100 ++ name.take (127 - min 100 entry.length)) := by
  rw [execCandidates, funext (execCandidate_eq name)]
  exact List.mapM_pure

theorem runs_are_names (text : Text) : ∀ run ∈ segments '/' text, IsName '/' run :=
  fun _ member => segments_isName member

/-- A path that fits `raw` is given its normal form, unless that is too long or a `..` on
the way went up to a directory of 99 characters or more. -/
theorem fsAbspath_named_iff {cwd : WorkingDir} {rel : Text} (fits : (joined cwd rel).length ≤ 127) :
    fsAbspath cwd rel = some (named cwd rel) ↔ (named cwd rel).length ≤ 99 ∧
      ¬ Forgets '/' dot dotdot 99 (isRooted cwd rel) (segments '/' (joined cwd rel)) := by
  rw [fsAbspath_eq, List.take_of_length_le fits, Option.some_inj]
  exact capped_eq_iff (by decide) (by decide) (runs_are_names _)

end Racccoon.Paths
