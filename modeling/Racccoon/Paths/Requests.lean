import Racccoon.Paths.Walks

/-!
A request for a path, from the text a program gives to the name a server looks up. Both
libraries put the path behind the working directory and normalise it, the kernel's
translation finds the server and the path there, and the request carries that in its
first 100 bytes. What a text does not have room for is cut off without a word, except
where the kernel translates.
-/

namespace Racccoon.Paths

open Racccoon.PathForms
open Racccoon.Namespace (Text Mount nsTranslateCore serverPath_some pick bestLen createIndex
  nsPrefixCovers)

def fsMsgMax : Nat := 8192
def fsXlateMax : Nat := 160

section

variable (live : Nat → Option Nat) (table : List Mount) (cwd : WorkingDir)

/-- The server and the path of a native call's request to one member, if there is one. -/
def nativeRequest (rel : Text) (member : Int) : Option (Option (Nat × Text)) := do
  let filename ← fsAbspath cwd rel
  match nsTranslateCore live table filename member fsXlateMax with
  | none => some none
  | some (pid, stripped) => do
      let req ← copyUpTo fsMsgMax 99 stripped []
      let req ← terminated fsMsgMax req
      some (some (pid, req))

def libcRequest (rel : Text) (member : Int) : Option (Option (Nat × Text)) := do
  let ap ← rcAbspath cwd rel
  some (nsTranslateCore live table ap member 100)

/-- The native library asks for the path that is meant, all of it, or for none, and every
server looks for it where it says. -/
structure NativeRight (rel : Text) : Prop where
  native_whole : fsAbspathRaw cwd rel = some (joined cwd rel, isRooted cwd rel)
  native_named : fsAbspath cwd rel = some (named cwd rel)
  native_asked : ∀ member pid text,
    nativeRequest live table cwd rel member = some (some (pid, text)) →
      ∃ outMax, nsTranslateCore live table (named cwd rel) member outMax = some (pid, text)
  native_walked : ∀ member pid text,
    nativeRequest live table cwd rel member = some (some (pid, text)) →
      ∀ backend, Walked backend text

/-- So do both libraries. -/
structure RequestRight (rel : Text) : Prop extends NativeRight live table cwd rel where
  libc_whole : rcAbspathRaw cwd rel = some (libcJoined cwd rel)
  libc_named : rcAbspath cwd rel = some (libcNamed cwd rel)
  libc_asked : ∀ member pid text,
    libcRequest live table cwd rel member = some (some (pid, text)) →
      ∃ outMax, nsTranslateCore live table (libcNamed cwd rel) member outMax = some (pid, text)
  libc_walked : ∀ member pid text,
    libcRequest live table cwd rel member = some (some (pid, text)) →
      ∀ backend, Walked backend text

/-- The path fits wherever the native library writes it down. -/
structure NativeFits (rel : Text) : Prop where
  native_raw : (joined cwd rel).length ≤ 127
  form : (named cwd rel).length ≤ 99
  climbs : ¬ Forgets '/' dot dotdot 99 (isRooted cwd rel) (segments '/' (joined cwd rel))
  translated : ∀ member pid text,
    nsTranslateCore live table (named cwd rel) member fsXlateMax = some (pid, text) →
      text.length ≤ 99
  native_names : ∀ member pid text,
    nsTranslateCore live table (named cwd rel) member fsXlateMax = some (pid, text) →
      ∀ name ∈ dirNames text, name.length ≤ 63

structure RequestFits (rel : Text) : Prop extends NativeFits live table cwd rel where
  libc_raw : (libcJoined cwd rel).length ≤ 127
  libc_names : ∀ member pid text,
    nsTranslateCore live table (libcNamed cwd rel) member 100 = some (pid, text) →
      ∀ name ∈ dirNames text, name.length ≤ 63

def programList : Option Text → Text
  | some (char :: rest) => char :: rest
  | _ => "/bin/".toList

structure ProgramRight (value : Option Text) (name : Text) : Prop where
  search_whole : searchList value = programList value
  candidates : execCandidates value name =
    some ((segments ':' (programList value)).map (· ++ name))
  asked : ∀ entry ∈ segments ':' (programList value),
    NativeRight live table cwd (entry ++ name)

structure ProgramFits (value : Option Text) (name : Text) : Prop where
  search : (programList value).length ≤ 63
  asked : ∀ entry ∈ segments ':' (programList value),
    NativeFits live table cwd (entry ++ name)

end

variable {live : Nat → Option Nat} {table : List Mount} {cwd : WorkingDir} {rel : Text}

theorem translate_same {path : Text} {member left right : Int} {first second : Nat × Text}
    (one : nsTranslateCore live table path member left = some first)
    (other : nsTranslateCore live table path member right = some second) : first = second := by
  unfold nsTranslateCore at one other
  simp only at one other
  split at one
  · cases one
  · next covered =>
      rw [if_neg covered] at other
      obtain ⟨mount, picked, made⟩ := Option.bind_eq_some_iff.1 one
      obtain ⟨same, again, remade⟩ := Option.bind_eq_some_iff.1 other
      obtain rfl := Option.some_inj.1 (picked.symm.trans again)
      obtain ⟨text, written, rfl⟩ := Option.map_eq_some_iff.1 made
      obtain ⟨retext, rewritten, rfl⟩ := Option.map_eq_some_iff.1 remade
      rw [serverPath_some written, serverPath_some rewritten]

variable (live : Nat → Option Nat) (table : List Mount) (cwd : WorkingDir)

theorem nativeRequest_eq
    (rel : Text) (member : Int) {filename : Text} (is : fsAbspath cwd rel = some filename) :
    nativeRequest live table cwd rel member =
      some ((nsTranslateCore live table filename member fsXlateMax).map fun answer =>
        (answer.1, answer.2.take 99)) := by
  have room : ∀ text : Text, (text.take 99).length < fsMsgMax := fun text =>
    Nat.lt_of_le_of_lt (List.length_take_le 99 text) (by decide)
  rw [nativeRequest, is]
  simp only [Option.bind_eq_bind, Option.bind_some]
  cases nsTranslateCore live table filename member fsXlateMax with
  | none => rfl
  | some =>
    simp only [copyUpTo_eq (by decide : 99 ≤ fsMsgMax), List.nil_append, List.length_nil,
      Option.bind_some, terminated_eq (room _), Option.map_some]

theorem libcRequest_eq (rel : Text) (member : Int) {ap : Text} (is : rcAbspath cwd rel = some ap) :
    libcRequest live table cwd rel member =
      some (nsTranslateCore live table ap member 100) := by
  rw [libcRequest, is]
  rfl

theorem take_whole {text : Text} {limit : Nat} :
    some (text.take limit) = some text ↔ text.length ≤ limit := by
  rw [Option.some_inj, List.take_eq_self_iff]

theorem native_right_iff
    (rel : Text) : NativeRight live table cwd rel ↔ NativeFits live table cwd rel := by
  constructor
  · intro right
    have raw : (joined cwd rel).length ≤ 127 := by
      have whole := right.native_whole
      rw [fsAbspathRaw_eq, Option.some_inj, Prod.mk.injEq] at whole
      exact List.take_eq_self_iff _ |>.1 whole.1
    obtain ⟨form, climbs⟩ := (fsAbspath_named_iff raw).1 right.native_named
    have asked : ∀ member pid text,
        nsTranslateCore live table (named cwd rel) member fsXlateMax = some (pid, text) →
          nativeRequest live table cwd rel member = some (some (pid, text.take 99)) := by
      intro member pid text translated
      rw [nativeRequest_eq live table cwd rel member right.native_named, translated]
      rfl
    have whole : ∀ member pid text,
        nsTranslateCore live table (named cwd rel) member fsXlateMax = some (pid, text) →
          text.length ≤ 99 := by
      intro member pid text translated
      obtain ⟨outMax, same⟩ := right.native_asked member pid _ (asked member pid text translated)
      have cut := translate_same same translated
      rw [Prod.mk.injEq] at cut
      exact List.take_eq_self_iff _ |>.1 cut.2
    refine ⟨raw, form, climbs, whole, fun member pid text translated => ?_⟩
    have all := right.native_walked member pid _ (asked member pid text translated)
    rw [List.take_of_length_le (whole member pid text translated)] at all
    exact (walked_everywhere_iff text).1 all
  · intro fits
    have nativeNamed := (fsAbspath_named_iff fits.native_raw).2 ⟨fits.form, fits.climbs⟩
    have translated : ∀ member pid text,
        nativeRequest live table cwd rel member = some (some (pid, text)) →
          nsTranslateCore live table (named cwd rel) member fsXlateMax = some (pid, text) := by
      intro member pid text asked
      rw [nativeRequest_eq live table cwd rel member nativeNamed, Option.some_inj] at asked
      obtain ⟨⟨server, stripped⟩, found, same⟩ := Option.map_eq_some_iff.1 asked
      rw [List.take_of_length_le (fits.translated member server stripped found)] at same
      rw [found, same]
    refine ⟨?_, nativeNamed, ?_, ?_⟩
    · rw [fsAbspathRaw_eq, List.take_of_length_le fits.native_raw]
    · exact fun member pid text asked => ⟨_, translated member pid text asked⟩
    · exact fun member pid text asked => (walked_everywhere_iff text).2
        (fits.native_names member pid text (translated member pid text asked))

theorem request_right_iff
    (rel : Text) : RequestRight live table cwd rel ↔ RequestFits live table cwd rel := by
  constructor
  · intro right
    have raw : (libcJoined cwd rel).length ≤ 127 :=
      take_whole.1 ((rcAbspathRaw_eq cwd rel).symm.trans right.libc_whole)
    refine ⟨(native_right_iff live table cwd rel).1 right.toNativeRight, raw,
      fun member pid text translated =>
        (walked_everywhere_iff text).1 (right.libc_walked member pid text ?_)⟩
    rw [libcRequest_eq live table cwd rel member right.libc_named, translated]
  · intro fits
    have named := (rcAbspath_named_iff fits.libc_raw).2 (libcNamed_short fits.form)
    have translated : ∀ member pid text,
        libcRequest live table cwd rel member = some (some (pid, text)) →
          nsTranslateCore live table (libcNamed cwd rel) member 100 = some (pid, text) := by
      intro member pid text asked
      rwa [libcRequest_eq live table cwd rel member named, Option.some_inj] at asked
    refine ⟨(native_right_iff live table cwd rel).2 fits.toNativeFits, ?_, named, ?_, ?_⟩
    · rw [rcAbspathRaw_eq, List.take_of_length_le fits.libc_raw]
    · exact fun member pid text asked => ⟨_, translated member pid text asked⟩
    · exact fun member pid text asked => (walked_everywhere_iff text).2
        (fits.libc_names member pid text (translated member pid text asked))

theorem joined_long (rel : Text) : rel.length ≤ (joined cwd rel).length := by
  unfold joined
  split
  · exact Nat.le_refl _
  split
  · next empty => simp [empty]
  · rw [List.length_append, List.length_cons]
    omega

theorem searchList_whole_iff (value : Option Text) :
    searchList value = programList value ↔ (programList value).length ≤ 63 := by
  rcases value with _ | _ | ⟨char, rest⟩
  · exact ⟨fun _ => by decide, fun _ => rfl⟩
  · exact ⟨fun _ => by decide, fun _ => rfl⟩
  · have read : searchList (some (char :: rest)) = (char :: rest).take 63 := rfl
    rw [read, programList, List.take_eq_self_iff]

theorem segments_length {sep : Char} {text run : Text} (member : run ∈ segments sep text) :
    run.length ≤ text.length := by
  have all := weight_segments sep text
  have one := weight_sublist (List.singleton_sublist.2 member)
  rw [weight_cons] at one
  omega

theorem program_right_iff (value : Option Text) (name : Text) :
    ProgramRight live table cwd value name ↔ ProgramFits live table cwd value name := by
  constructor
  · intro right
    exact ⟨(searchList_whole_iff value).1 right.search_whole, fun entry member =>
      (native_right_iff live table cwd _).1 (right.asked entry member)⟩
  · intro fits
    have whole := (searchList_whole_iff value).2 fits.search
    refine ⟨whole, ?_, fun entry member =>
      (native_right_iff live table cwd _).2 (fits.asked entry member)⟩
    rw [execCandidates_eq, whole]
    refine congrArg some (List.map_congr_left fun entry member => ?_)
    have entryFits := Nat.le_trans (segments_length member) fits.search
    have bothFit := Nat.le_trans (joined_long cwd (entry ++ name))
      (fits.asked entry member).native_raw
    rw [List.length_append] at bothFit
    rw [List.take_of_length_le (by omega), List.take_of_length_le (by omega)]

/-- A path request acts on the path that is meant exactly as long as that path fits every
buffer on its way: the text put together, the normal form and every directory gone up to,
what the translation makes of it, and each directory's name. The same holds for a program
looked up along the search list. No text of any length is written past a buffer's end. -/
theorem path_requests_right_iff (live : Nat → Option Nat) (table : List Mount)
    (cwd : WorkingDir) :
    (∀ rel, RequestRight live table cwd rel ↔ RequestFits live table cwd rel) ∧
      (∀ value name, ProgramRight live table cwd value name ↔
        ProgramFits live table cwd value name) ∧
      (∀ rel member, (fsAbspath cwd rel).isSome ∧ (rcAbspath cwd rel).isSome ∧
        (nativeRequest live table cwd rel member).isSome ∧
        (libcRequest live table cwd rel member).isSome) ∧
      (∀ value name, (execCandidates value name).isSome) ∧
      ∀ (Dir : Type) (find : Dir → Text → Option Dir) backend root path,
        (resolveDir find backend root path).isSome := by
  refine ⟨request_right_iff live table cwd, program_right_iff live table cwd, ?_, ?_, ?_⟩
  · intro rel member
    obtain ⟨ap, libc, -⟩ := rcNormalize_some ((libcJoined cwd rel).take 127)
    rw [← rcAbspath_eq] at libc
    have native := fsAbspath_eq cwd rel
    rw [nativeRequest_eq live table cwd rel member native,
      libcRequest_eq live table cwd rel member libc, native, libc]
    exact ⟨rfl, rfl, rfl, rfl⟩
  · intro value name
    rw [execCandidates_eq]
    rfl
  · intro Dir find backend root path
    rw [resolveDir_eq]
    rfl

/-- A directory of 98 characters at the root, and the way there through one of its own. -/
def longClimb : Text := '/' :: List.replicate 98 'a' ++ "/b/..".toList

set_option maxRecDepth 4000

/-- The native library takes it for the root and asks the server for that. -/
theorem long_climb_asks_root :
    fsAbspath ⟨[], by decide⟩ longClimb = some [] ∧
      named ⟨[], by decide⟩ longClimb = '/' :: List.replicate 98 'a' ∧
      nativeRequest (fun _ => some 1) [⟨['/'], 3, 1, [], 0⟩] ⟨[], by decide⟩ longClimb 0 =
        some (some (3, [])) ∧
      ¬ RequestRight (fun _ => some 1) [⟨['/'], 3, 1, [], 0⟩] ⟨[], by decide⟩ longClimb := by
  have root : fsAbspath ⟨[], by decide⟩ longClimb = some [] := by decide
  have meant : named ⟨[], by decide⟩ longClimb = '/' :: List.replicate 98 'a' := by
    decide
  refine ⟨root, meant, by decide, fun right => ?_⟩
  have same := root.symm.trans right.native_named
  cases same

end Racccoon.Paths
