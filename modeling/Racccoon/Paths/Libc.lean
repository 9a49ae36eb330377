import Racccoon.Paths.Native

/-!
The same in the C library: `rc_normalize` and `__rc_abspath` of
`lib/racccoon-libc/src/rc_fs.c`. Its buffers hold 128 bytes, a path it makes begins with
a slash, and a directory it has gone back to may still end in one.
-/

namespace Racccoon.Paths

open Racccoon.PathForms
open Racccoon.Namespace (Text)

/-- `o--; while (o > 1 && tmp[o - 1] != '/') o--;` -/
def dropBack (out : Text) : Text :=
  let kept := out.dropLast.rdropWhile (· ≠ '/')
  if kept = [] then out.take 1 else kept

def normalizeStep (out run : Text) : Option Text :=
  if run = dot then some out
  else if run = dotdot then some (if 1 < out.length then dropBack out else out)
  else
    (if 1 < out.length ∧ out.getLast? ≠ some '/' then put 128 out '/' else some out).bind
      (copyUpTo 128 127 run)

def rcNormalize (path : Text) : Option Text := do
  let out ← put 128 [] '/'
  let out ← (segments '/' path).foldlM normalizeStep out
  let out := if 1 < out.length ∧ out.getLast? = some '/' then out.dropLast else out
  terminated 128 out

variable (cwd : WorkingDir)

def rcGetcwd : Text :=
  let cw := getcwd cwd 128
  if cw = [] then ['/'] else cw

variable (rel : Text)

/-- The text in `out` before it is normalised. -/
def rcAbspathRaw : Option Text :=
  if rel.head? = some '/' then copyUpTo 128 127 rel []
  else if rel = [] then copyUpTo 128 127 (rcGetcwd cwd) []
  else do
    let out ← copyUpTo 128 127 (rcGetcwd cwd) []
    let out ← if out.length < 127 ∧ out.getLast? ≠ some '/' then put 128 out '/' else some out
    copyUpTo 128 127 rel out

def rcAbspath : Option Text := do
  let out ← rcAbspathRaw cwd rel
  let out ← terminated 128 out
  rcNormalize out

/-- The path that a path under a working directory stands for, as the C library puts the
two together. -/
def libcJoined : Text :=
  let cw := if cwd.text = [] then ['/'] else cwd.text
  if rel.head? = some '/' then rel
  else if rel = [] then cw
  else if cw.getLast? = some '/' then cw ++ rel
  else cw ++ '/' :: rel

def libcNamed : Text :=
  '/' :: written '/' false (components cwd rel)

theorem libcNamed_short {cwd : WorkingDir} {rel : Text} (short : (named cwd rel).length ≤ 99) :
    (libcNamed cwd rel).length ≤ 127 := by
  rw [named, written, List.length_drop] at short
  rw [libcNamed, List.length_cons, written, List.length_drop]
  split at short <;> simp only [Bool.false_eq_true] <;> omega

theorem segments_libcJoined :
    segments '/' (libcJoined cwd rel) = segments '/' (joined cwd rel) := by
  unfold libcJoined joined
  by_cases absolute : rel.head? = some '/'
  · simp [absolute]
  by_cases root : cwd.text = [] <;> by_cases empty : rel = []
  · simp [root, empty, segments_sep]
  · simp [root, absolute, empty, segments_sep]
  · simp [root, empty]
  · simp only [root, absolute, empty, if_false, or_self]
    by_cases slash : cwd.text.getLast? = some '/'
    · obtain ⟨front, split⟩ := List.getLast?_eq_some_iff.1 slash
      rw [if_pos slash, segments_append_sep, split, List.append_assoc, List.singleton_append,
        segments_append_sep, segments_append_sep, segments_nil, List.append_nil]
    · rw [if_neg slash]

theorem rcGetcwd_eq : rcGetcwd cwd = if cwd.text = [] then ['/'] else cwd.text := by
  rw [rcGetcwd, getcwd_eq cwd (by omega)]

theorem rcAbspathRaw_eq : rcAbspathRaw cwd rel = some ((libcJoined cwd rel).take 127) := by
  have short : (rcGetcwd cwd).length ≤ 99 := by
    rw [rcGetcwd_eq]
    split
    · exact Nat.le_of_ble_eq_true rfl
    · exact cwd.short
  unfold rcAbspathRaw libcJoined
  rw [rcGetcwd_eq] at short ⊢
  set cw := if cwd.text = [] then ['/'] else cwd.text
  have whole : cw.take 127 = cw := List.take_of_length_le (by omega)
  by_cases absolute : rel.head? = some '/'
  · simp [absolute, copyUpTo_eq]
  by_cases empty : rel = []
  · simp [empty, copyUpTo_eq]
  rw [if_neg absolute, copyUpTo_eq (by omega)]
  simp only [absolute, empty, List.length_nil, List.nil_append, whole, if_false,
    Option.bind_eq_bind, Option.bind_some]
  by_cases slash : cw.getLast? = some '/'
  · rw [if_neg fun both => both.2 slash, if_pos slash]
    exact (copyUpTo_eq (by omega) _ _).trans (by rw [append_take (by omega)])
  · have room : (cw ++ ['/']).length ≤ 127 := by
      rw [List.length_append, List.length_singleton]
      omega
    rw [if_pos ⟨by omega, slash⟩, if_neg slash, put, if_pos (by omega), Option.bind_some,
      copyUpTo_eq (by omega), append_take room, List.append_assoc, List.singleton_append]

def Bounded (out : Text) : Prop :=
  out.length ≤ 127 ∨ out.length = 128 ∧ out.getLast? = some '/'

theorem dropBack_length {out : Text} (long : 1 < out.length) :
    (dropBack out).length ≤ out.length - 1 := by
  simp only [dropBack]
  split
  · rw [List.length_take]
    omega
  · rw [← List.length_dropLast]
    exact (List.rdropWhile_prefix _ _).length_le

theorem normalizeStep_bounded {out : Text} (run : Text) (bounded : Bounded out) :
    ∃ after, normalizeStep out run = some after ∧ Bounded after := by
  have small : out.length ≤ 128 := by
    rcases bounded with small | ⟨full, -⟩ <;> omega
  have copied : ∀ before : Text, Bounded before →
      ∃ after, copyUpTo 128 127 run before = some after ∧ Bounded after := by
    intro before bounded
    refine ⟨_, copyUpTo_eq (by omega) run before, ?_⟩
    by_cases room : before.length < 127
    · left
      rw [append_take (Nat.le_of_lt room)]
      exact List.length_take_le 127 _
    · rw [Nat.sub_eq_zero_of_le (Nat.not_lt.1 room), List.take_zero, List.append_nil]
      exact bounded
  unfold normalizeStep
  split
  · exact ⟨out, rfl, bounded⟩
  split
  · refine ⟨_, rfl, ?_⟩
    split
    · next long =>
        left
        have shorter := dropBack_length long
        omega
    · exact bounded
  split
  · next asked =>
      have room : out.length ≤ 127 := bounded.resolve_right fun full => asked.2 full.2
      rw [put, if_pos (by omega)]
      refine copied _ ?_
      by_cases last : out.length = 127
      · exact .inr ⟨by simp [last], by simp⟩
      · left
        rw [List.length_append, List.length_singleton]
        omega
  · exact copied out bounded

theorem foldlM_normalizeStep_bounded (runs : List Text) {out : Text} (bounded : Bounded out) :
    ∃ after, runs.foldlM normalizeStep out = some after ∧ Bounded after := by
  induction runs generalizing out with
  | nil => exact ⟨out, rfl, bounded⟩
  | cons run _ ih =>
    obtain ⟨next, is, still⟩ := normalizeStep_bounded run bounded
    rw [List.foldlM_cons, is]
    exact ih still

theorem rcNormalize_some (path : Text) : ∃ out, rcNormalize path = some out ∧ out.length ≤ 127 := by
  obtain ⟨out, is, bounded⟩ := foldlM_normalizeStep_bounded (segments '/' path)
    (show Bounded ['/'] from .inl (by decide))
  have fits : (if 1 < out.length ∧ out.getLast? = some '/' then out.dropLast else out).length
      < 128 := by
    rcases bounded with small | ⟨full, slash⟩
    · split
      · rw [List.length_dropLast]
        omega
      · omega
    · rw [if_pos ⟨by omega, slash⟩, List.length_dropLast]
      omega
  refine ⟨_, ?_, Nat.le_of_lt_succ fits⟩
  simp only [rcNormalize, put, List.length_nil, List.nil_append, Nat.zero_lt_succ, if_true,
    Option.bind_eq_bind, Option.bind_some, is, terminated_eq fits]

theorem rcAbspath_eq : rcAbspath cwd rel = rcNormalize ((libcJoined cwd rel).take 127) := by
  have room : ((libcJoined cwd rel).take 127).length < 128 :=
    Nat.lt_succ_of_le (List.length_take_le 127 _)
  simp only [rcAbspath, rcAbspathRaw_eq, Option.bind_eq_bind, Option.bind_some,
    terminated_eq room]

def Holds (out : Text) (stack : List Text) : Prop :=
  ∃ tail, (tail = [] ∨ tail = ['/'] ∧ stack ≠ []) ∧
    out = '/' :: written '/' false stack ++ tail

variable {stack : List Text} {out name : Text}

theorem written_last (names : ∀ component ∈ stack, IsName '/' component) :
    (written '/' false stack).getLast? ≠ some '/' := by
  rcases List.eq_nil_or_concat stack with rfl | ⟨init, last, rfl⟩
  · simp [written]
  · rw [List.concat_eq_append] at names ⊢
    obtain ⟨nonempty, plain⟩ := names last (by simp)
    rw [written_snoc fun component member => names component (List.mem_append_left _ member),
      List.getLast?_append_of_ne_nil _ nonempty]
    exact fun slash => plain (List.mem_of_getLast? slash)

theorem normalizeStep_name (here : name ≠ dot) (up : name ≠ dotdot) (out : Text) :
    normalizeStep out name =
      (if 1 < out.length ∧ out.getLast? ≠ some '/' then put 128 out '/' else some out).bind
        (copyUpTo 128 127 name) := by
  rw [normalizeStep, if_neg here, if_neg up]

theorem Holds.push (names : ∀ component ∈ stack, IsName '/' component) (here : name ≠ dot)
    (up : name ≠ dotdot) (holds : Holds out stack)
    (fits : ('/' :: written '/' false (stack ++ [name])).length ≤ 127) :
    ∃ after, normalizeStep out name = some after ∧ Holds after (stack ++ [name]) := by
  refine ⟨'/' :: written '/' false (stack ++ [name]), ?_, [], .inl rfl, (List.append_nil _).symm⟩
  rw [written_snoc names] at fits ⊢
  rw [normalizeStep_name here up]
  obtain ⟨tail, which, rfl⟩ := holds
  by_cases root : stack = []
  · obtain rfl : tail = [] := which.resolve_right fun both => both.2 root
    subst root
    simp only [written_nil, lead] at fits ⊢
    have short : name.length ≤ 126 := by
      simp at fits
      omega
    simp [copyUpTo_eq, List.take_of_length_le short]
  · have some_text : written '/' false stack ≠ [] := fun empty =>
      root ((written_eq_nil names).1 empty)
    have long := List.length_pos_iff.2 some_text
    have slash : lead '/' false (written '/' false stack) = ['/'] := if_pos (.inr some_text)
    rw [slash] at fits ⊢
    have slashed : ('/' :: written '/' false stack ++ ['/']).length + name.length ≤ 127 := by
      rwa [← List.length_append]
    have copied : copyUpTo 128 127 name ('/' :: written '/' false stack ++ ['/']) =
        some ('/' :: (written '/' false stack ++ ['/'] ++ name)) := by
      rw [copyUpTo_eq (by omega), List.take_of_length_le (by omega)]
      simp
    rcases which with rfl | ⟨rfl, -⟩
    · have open_ended : ('/' :: written '/' false stack).getLast? ≠ some '/' := by
        rw [← List.singleton_append, List.getLast?_append_of_ne_nil _ some_text]
        exact written_last names
      rw [List.append_nil, if_pos ⟨by simpa using long, open_ended⟩, put,
        if_pos (by simp at slashed ⊢; omega)]
      exact copied
    · have closed : ('/' :: written '/' false stack ++ ['/']).getLast? = some '/' :=
        List.getLast?_concat
      rw [if_neg fun both => both.2 closed]
      exact copied

/-- Going back leaves the components above, with the slash they were followed by. -/
theorem dropBack_eq {init : List Text} (names : ∀ component ∈ init, IsName '/' component)
    (is : IsName '/' name) {tail : Text} (which : tail = [] ∨ tail = ['/']) :
    dropBack ('/' :: written '/' false (init ++ [name]) ++ tail) =
      '/' :: written '/' false init ++ lead '/' false (written '/' false init) := by
  obtain ⟨before, split⟩ : ∃ before : Text,
      '/' :: written '/' false init ++ lead '/' false (written '/' false init) =
        before ++ ['/'] := by
    by_cases root : written '/' false init = []
    · exact ⟨[], by simp [root, lead]⟩
    · exact ⟨'/' :: written '/' false init, by simp [root, lead]⟩
  rw [written_snoc names, ← List.cons_append, ← List.cons_append, split, dropBack]
  have strip : ∀ rest : Text, '/' ∉ rest →
      (before ++ ['/'] ++ rest).rdropWhile (· ≠ '/') = before ++ ['/'] :=
    fun rest plain => rdropWhile_name plain before
  rcases which with rfl | rfl
  · obtain ⟨front, last, nameIs⟩ := (List.eq_nil_or_concat name).resolve_left is.1
    rw [List.concat_eq_append] at nameIs
    have plain : '/' ∉ front := fun inside => is.2 (nameIs ▸ List.mem_append_left _ inside)
    rw [List.append_nil, nameIs, ← List.append_assoc, List.dropLast_concat, strip front plain]
    simp
  · rw [List.dropLast_concat, strip name is.2]
    simp

theorem Holds.up (names : ∀ component ∈ stack, IsName '/' component) (holds : Holds out stack) :
    Holds (if 1 < out.length then dropBack out else out) stack.dropLast := by
  obtain ⟨tail, which, rfl⟩ := holds
  rcases List.eq_nil_or_concat stack with rfl | ⟨init, last, rfl⟩
  · obtain rfl : tail = [] := which.resolve_right fun both => both.2 rfl
    exact ⟨[], .inl rfl, by simp [written_nil]⟩
  · rw [List.concat_eq_append] at names ⊢
    have inits : ∀ component ∈ init, IsName '/' component :=
      fun component member => names component (List.mem_append_left _ member)
    have is := names last (by simp)
    have long : 1 < ('/' :: written '/' false (init ++ [last]) ++ tail).length := by
      have some_text := List.length_pos_iff.2 is.1
      rw [written_snoc inits]
      simp only [List.length_append, List.length_cons]
      omega
    rw [if_pos long, dropBack_eq inits is (which.imp_right And.left), List.dropLast_concat]
    refine ⟨_, ?_, rfl⟩
    by_cases root : init = []
    · exact .inl (by simp [root, written_nil, lead])
    · have some_text : written '/' false init ≠ [] := fun empty =>
        root ((written_eq_nil inits).1 empty)
      exact .inr ⟨if_pos (.inr some_text), root⟩

/-- A path of at most 127 characters whose normal form has no more is normalised. -/
theorem foldlM_normalizeStep_eq {runs : List Text} (names : ∀ run ∈ runs, IsName '/' run)
    (fits : ∀ part, part <+: runs →
      ('/' :: written '/' false (settle dot dotdot part)).length ≤ 127) :
    ∃ out, runs.foldlM normalizeStep ['/'] = some out ∧ Holds out (settle dot dotdot runs) := by
  induction runs using List.reverseRecOn with
  | nil => exact ⟨['/'], rfl, [], .inl rfl, rfl⟩
  | append_singleton runs run ih =>
    obtain ⟨out, is, holds⟩ := ih (fun run member => names run (List.mem_append_left _ member))
      fun part inside => fits part (inside.trans (List.prefix_append _ _))
    have whole := fits (runs ++ [run]) (List.prefix_refl _)
    have components : ∀ component ∈ settle dot dotdot runs, IsName '/' component :=
      fun component member => names component (List.mem_append_left _ (settle_subset member))
    rw [List.foldlM_append, is]
    rw [settle_snoc, settleStep] at whole ⊢
    by_cases here : run = dot
    · rw [if_pos here]
      exact ⟨out, by simp [normalizeStep, here], holds⟩
    by_cases up : run = dotdot
    · rw [if_neg here, if_pos up]
      refine ⟨_, ?_, holds.up components⟩
      simp only [List.foldlM_cons, normalizeStep, if_neg here, if_pos up]
      rfl
    · rw [if_neg here, if_neg up] at whole ⊢
      obtain ⟨after, pushed, still⟩ := holds.push components here up whole
      exact ⟨after, by simp [pushed], still⟩

/-- What stands for a part of the path needs no more room than that part. -/
theorem settle_fits {path : Text} (short : path.length ≤ 127)
    (final : ('/' :: written '/' false (settle dot dotdot (segments '/' path))).length ≤ 127)
    {part : List Text} (inside : part <+: segments '/' path) :
    ('/' :: written '/' false (settle dot dotdot part)).length ≤ 127 := by
  obtain ⟨rest, split⟩ := inside
  cases rest with
  | nil =>
    rw [List.append_nil] at split
    rwa [split]
  | cons =>
    have all := weight_segments '/' path
    have settled := weight_settle dot dotdot part
    rw [← split, weight_append, weight_cons] at all
    rw [List.length_cons, length_bare]
    omega

/-- The C library gives a path that fits its buffers its normal form. -/
theorem rcNormalize_eq {path : Text} (short : path.length ≤ 127)
    (final : ('/' :: written '/' false (settle dot dotdot (segments '/' path))).length ≤ 127) :
    rcNormalize path =
      some ('/' :: written '/' false (settle dot dotdot (segments '/' path))) := by
  obtain ⟨out, is, tail, which, rfl⟩ := foldlM_normalizeStep_eq
    (fun run member => segments_isName member) fun part inside => settle_fits short final inside
  have components : ∀ component ∈ settle dot dotdot (segments '/' path), IsName '/' component :=
    fun component member => segments_isName (settle_subset member)
  have trimmed : ∀ out : Text, out = '/' :: written '/' false
        (settle dot dotdot (segments '/' path)) ++ tail →
      (if 1 < out.length ∧ out.getLast? = some '/' then out.dropLast else out) =
        '/' :: written '/' false (settle dot dotdot (segments '/' path)) := by
    rintro out rfl
    rcases which with rfl | ⟨rfl, away⟩
    · rw [List.append_nil]
      split
      · next both =>
          have some_text := List.length_pos_iff.1 (Nat.lt_of_succ_lt_succ both.1)
          rw [← List.singleton_append, List.getLast?_append_of_ne_nil _ some_text] at both
          exact absurd both.2 (written_last components)
      · rfl
    · rw [if_pos ⟨by simp, List.getLast?_concat⟩, List.dropLast_concat]
  simp only [rcNormalize, put, List.length_nil, List.nil_append, Nat.zero_lt_succ, if_true,
    Option.bind_eq_bind, Option.bind_some, is, trimmed _ rfl, terminated_eq (Nat.lt_succ_of_le final)]

theorem rcAbspath_named_iff {cwd : WorkingDir} {rel : Text}
    (fits : (libcJoined cwd rel).length ≤ 127) :
    rcAbspath cwd rel = some (libcNamed cwd rel) ↔ (libcNamed cwd rel).length ≤ 127 := by
  rw [rcAbspath_eq, List.take_of_length_le fits]
  constructor
  · intro is
    obtain ⟨out, right, short⟩ := rcNormalize_some (libcJoined cwd rel)
    rw [right, Option.some_inj] at is
    rwa [← is]
  · intro short
    have same : libcNamed cwd rel = '/' :: written '/' false
        (settle dot dotdot (segments '/' (libcJoined cwd rel))) := by
      rw [segments_libcJoined, libcNamed, components]
    rw [same] at short ⊢
    exact rcNormalize_eq fits short

end Racccoon.Paths
