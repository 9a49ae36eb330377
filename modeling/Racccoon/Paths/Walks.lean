import Racccoon.Paths.Libc

/-!
How a file server follows the path it is asked for: `exfat_resolve_dir`,
`fat32_resolve_dir` and `ext2_resolve_dir`, which open one directory for each component
but the last and copy its name into `seg_buf` first. The lookup in one directory is a
parameter here.
-/

namespace Racccoon.Paths

open Racccoon.PathForms
open Racccoon.Namespace (Text)

inductive Backend where
  | fat32
  | ext2
  | exfat
  deriving DecidableEq

/-- The size of `seg_buf`. -/
def Backend.segBuf : Backend → Nat
  | .fat32 => 64
  | .ext2 => 256
  | .exfat => 64

section Walk

variable {Dir : Type} (find : Dir → Text → Option Dir)

/-- The walk from a directory on, `segment` being what was read since the last slash. -/
def resolveFrom (backend : Backend) : Dir → Text → Text → Option (Option Dir)
  | dir, _, [] => some (some dir)
  | dir, segment, char :: rest =>
    if char ≠ '/' then resolveFrom backend dir (segment ++ [char]) rest
    else if segment = [] then resolveFrom backend dir [] rest
    else
      ((copyUpTo backend.segBuf (backend.segBuf - 1) segment []).bind
        (terminated backend.segBuf)).bind fun segBuf =>
          match find dir segBuf with
          | none => some none
          | some next => resolveFrom backend next [] rest

variable (backend : Backend)

def resolveDir (root : Dir) (path : Text) : Option (Option Dir) :=
  resolveFrom find backend root [] path

def dirNames (path : Text) : List Text := segments '/' (path.rdropWhile (· ≠ '/'))

theorem rdropWhile_plain {segment : Text} (plain : '/' ∉ segment) :
    segment.rdropWhile (· ≠ '/') = [] :=
  List.rdropWhile_eq_nil_iff.2 fun _ member => decide_eq_true fun same => plain (same ▸ member)

theorem dirNames_plain {segment : Text} (plain : '/' ∉ segment) : dirNames segment = [] := by
  rw [dirNames, rdropWhile_plain plain, segments_nil]

theorem dirNames_slash (segment rest : Text) :
    dirNames (segment ++ '/' :: rest) = segments '/' segment ++ dirNames rest := by
  rw [dirNames, rdropWhile_append_sep, segments_append_sep, dirNames]

/-- The walk looks every directory up in the one before it, by what fits `seg_buf`. -/
theorem resolveFrom_eq (dir : Dir) {segment : Text} (plain : '/' ∉ segment) (path : Text) :
    resolveFrom find backend dir segment path =
      some (((dirNames (segment ++ path)).map (List.take (backend.segBuf - 1))).foldlM find dir) := by
  have inside : backend.segBuf - 1 ≤ backend.segBuf ∧ 0 < backend.segBuf := by
    cases backend <;> decide
  induction path generalizing dir segment with
  | nil => simp [resolveFrom, dirNames_plain plain]
  | cons char _ ih =>
    unfold resolveFrom
    by_cases slash : char = '/'
    · rw [slash, dirNames_slash]
      by_cases empty : segment = []
      · rw [empty]
        exact ih dir List.not_mem_nil
      · have room : (segment.take (backend.segBuf - 1)).length < backend.segBuf := by
          have := List.length_take_le (backend.segBuf - 1) segment
          omega
        rw [if_neg empty, segments_name ⟨empty, plain⟩, copyUpTo_eq inside.1]
        simp only [List.length_nil, Nat.sub_zero, List.nil_append, Option.bind_some,
          terminated_eq room, List.map_cons, List.singleton_append, List.foldlM_cons]
        cases find dir (segment.take (backend.segBuf - 1)) with
        | none => rfl
        | some next => exact ih next List.not_mem_nil
    · have still : '/' ∉ segment ++ [char] := by
        simp [plain, Ne.symm slash]
      rw [if_pos slash, ih dir still, List.append_assoc, List.singleton_append]

theorem resolveDir_eq (root : Dir) (path : Text) : resolveDir find backend root path =
      some (((dirNames path).map (List.take (backend.segBuf - 1))).foldlM find root) :=
  resolveFrom_eq find backend root List.not_mem_nil path

end Walk

/-- Whatever the directories hold, a walk that does not fail is in the directory that the
path names. -/
def Walked (backend : Backend) (path : Text) : Prop :=
  ∀ (Dir : Type) (find : Dir → Text → Option Dir) (root last : Dir),
    resolveDir find backend root path = some (some last) →
      (dirNames path).foldlM find root = some last

theorem foldlM_record (names done : List Text) :
    names.foldlM (fun done name => some (done ++ [name])) done = some (done ++ names) := by
  induction names generalizing done with
  | nil => simp
  | cons _ _ ih => simp [ih]

theorem walked_iff (backend : Backend) (path : Text) :
    Walked backend path ↔ ∀ name ∈ dirNames path, name.length ≤ backend.segBuf - 1 := by
  constructor
  · intro walked name member
    have same := walked (List Text) (fun done name => some (done ++ [name])) [] _
      (by rw [resolveDir_eq, foldlM_record])
    rw [foldlM_record, Option.some_inj] at same
    have cut := List.map_inj_left.1 (same.symm.trans (List.map_id' _).symm) name member
    exact List.take_eq_self_iff _ |>.1 cut
  · intro short Dir find root last reached
    rw [resolveDir_eq, Option.some_inj] at reached
    rwa [List.map_congr_left fun name member => List.take_of_length_le (short name member),
      List.map_id'] at reached

theorem walked_everywhere_iff (path : Text) :
    (∀ backend, Walked backend path) ↔ ∀ name ∈ dirNames path, name.length ≤ 63 := by
  constructor
  · intro walked
    exact (walked_iff .exfat path).1 (walked .exfat)
  · intro short backend
    refine (walked_iff backend path).2 fun name member => Nat.le_trans (short name member) ?_
    cases backend <;> decide

end Racccoon.Paths
