import Mathlib.Data.List.Infix

/-!
A process's namespace and its path translation: `Mount` of `src/process.c3`,
`ns_prefix_covers` and `ns_translate_core` of `src/syscalls.c3`. A C string is the
list of its characters before the NUL. A table is the list of its slots in array
order; `live` is the generation of the process `proc_by_pid` finds for a pid.
-/

namespace Racccoon.Namespace

abbrev Text := List Char

def nsMountsMax : Nat := 16
def nsPrefixMax : Nat := 32
def nsTargetMax : Nat := 64
def mntCreate : BitVec 32 := 1

/-- A zero `serverPid` marks an unused slot; its other fields are left over. -/
structure Mount where
  mountPrefix : Text
  serverPid : Nat
  serverGeneration : Nat
  target : Text
  flags : BitVec 32
  deriving DecidableEq

variable (live : Nat → Option Nat)

def serving (mount : Mount) : Prop :=
  mount.serverPid ≠ 0 ∧ live mount.serverPid = some mount.serverGeneration

instance (mount : Mount) : Decidable (serving live mount) := inferInstanceAs (Decidable (_ ∧ _))

def nsPrefixCovers (path mountPrefix : Text) : Option Nat :=
  if mountPrefix <+: path then some mountPrefix.length
  else if mountPrefix.getLast? = some '/' ∧ path = mountPrefix.dropLast then
    some (mountPrefix.length - 1)
  else none

variable (path : Text)

def candidate (mount : Mount) : Prop :=
  serving live mount ∧ (nsPrefixCovers path mount.mountPrefix).isSome

instance (mount : Mount) : Decidable (candidate live path mount) :=
  inferInstanceAs (Decidable (_ ∧ _))

/-- Pass 1: the length of the longest covering prefix, `best` so far. -/
def bestLen (path : Text) : List Mount → Int → Int
  | [], best => best
  | mount :: rest, best =>
    if candidate live path mount ∧ best < mount.mountPrefix.length then
      bestLen path rest mount.mountPrefix.length
    else bestLen path rest best

def winner (best : Int) (mount : Mount) : Prop :=
  candidate live path mount ∧ (mount.mountPrefix.length : Int) = best

instance (best : Int) (mount : Mount) : Decidable (winner live path best mount) :=
  inferInstanceAs (Decidable (_ ∧ _))

def createIndex (path : Text) (best : Int) : List Mount → Int → Int
  | [], _ => 0
  | mount :: rest, scanned =>
    if ¬ winner live path best mount then createIndex path best rest scanned
    else if mount.flags &&& mntCreate ≠ 0 then scanned
    else createIndex path best rest (scanned + 1)

/-- Pass 2: the `member`-th winner, `seen` of them passed so far. -/
def pick (path : Text) (best member : Int) : List Mount → Int → Option Mount
  | [], _ => none
  | mount :: rest, seen =>
    if ¬ winner live path best mount then pick path best member rest seen
    else if seen ≠ member then pick path best member rest (seen + 1)
    else some mount

/-- Appends to `out`, whose capacity is `outMax` with the NUL. -/
def putAll (outMax : Int) : Text → Text → Option Text
  | out, [] => some out
  | out, char :: rest =>
    if (out.length : Int) ≥ outMax - 1 then none else putAll outMax (out ++ [char]) rest

def serverPath (outMax : Int) (target remainder : Text) : Option Text :=
  (putAll outMax [] target).bind fun out =>
    (if out ≠ [] ∧ out.getLast? ≠ some '/' ∧ remainder ≠ [] ∧ remainder.head? ≠ some '/' then
        putAll outMax out ['/']
      else some out).bind fun joined => putAll outMax joined remainder

def nsTranslateCore (table : List Mount) (path : Text) (member outMax : Int) :
    Option (Nat × Text) :=
  let best := bestLen live path table (-1)
  if best < 0 then none
  else
    let member := if member < 0 then createIndex live path best table 0 else member
    (pick live path best member table 0).bind fun mount =>
      (serverPath outMax mount.target
        (path.drop ((nsPrefixCovers path mount.mountPrefix).getD 0))).map fun out =>
          (mount.serverPid, out)

def Covers (path mountPrefix : Text) : Prop :=
  mountPrefix <+: path ∨ mountPrefix = path ++ ['/']

structure Longest (table : List Mount) (path mountPrefix : Text) : Prop where
  mounted : ∃ mount ∈ table, serving live mount ∧ mount.mountPrefix = mountPrefix
  covers : Covers path mountPrefix
  longest : ∀ mount ∈ table, serving live mount → Covers path mount.mountPrefix →
    mount.mountPrefix.length ≤ mountPrefix.length

def membersAt (table : List Mount) (mountPrefix : Text) : List Mount :=
  table.filter fun mount => serving live mount ∧ mount.mountPrefix = mountPrefix

/-- Any negative index asks for the first member flagged for creation, or the
first one if there is none. -/
def chosen (members : List Mount) (member : Int) : Option Mount :=
  if member < 0 then
    (members.find? fun mount => mount.flags &&& mntCreate ≠ 0).or members.head?
  else members[member.toNat]?

/-- The path on the server: what is behind the prefix goes behind the target, with a slash
between two that have none there. -/
def relative (target remainder : Text) : Text :=
  if target = [] ∨ remainder = [] ∨ target.getLast? = some '/' ∨ remainder.head? = some '/' then
    target ++ remainder
  else target ++ '/' :: remainder

/-- An empty path is answered whatever the capacity is: its NUL is stored unasked. -/
def served (outMax : Int) (mount : Mount) : Option (Nat × Text) :=
  let out := relative mount.target (path.drop mount.mountPrefix.length)
  if out = [] ∨ (out.length : Int) < outMax then some (mount.serverPid, out) else none

theorem nsPrefixCovers_isSome (path mountPrefix : Text) :
    (nsPrefixCovers path mountPrefix).isSome ↔ Covers path mountPrefix := by
  unfold nsPrefixCovers Covers
  by_cases starts : mountPrefix <+: path
  · simp [starts]
  · rw [if_neg starts]
    constructor
    · intro found
      split at found
      · next slash =>
          right
          obtain ⟨init, rfl⟩ := List.getLast?_eq_some_iff.mp slash.1
          rw [slash.2, List.dropLast_concat]
      · cases found
    · rintro (begins | rfl)
      · exact absurd begins starts
      · simp

variable {mountPrefix path : Text}

theorem remainder_eq (covers : Covers path mountPrefix) :
    path.drop ((nsPrefixCovers path mountPrefix).getD 0) = path.drop mountPrefix.length := by
  unfold nsPrefixCovers
  by_cases starts : mountPrefix <+: path
  · simp [starts]
  · rcases covers with begins | rfl
    · exact absurd begins starts
    · simp [starts]

theorem covers_unique {left right : Text} (coversLeft : Covers path left)
    (coversRight : Covers path right) (same : left.length = right.length) : left = right := by
  rcases coversLeft with beginsLeft | rfl <;> rcases coversRight with beginsRight | rfl
  · exact (List.prefix_of_prefix_length_le beginsLeft beginsRight same.le).eq_of_length same
  · have short := beginsLeft.length_le
    simp at same
    omega
  · have short := beginsRight.length_le
    simp at same
    omega
  · rfl

variable (outMax : Int)

theorem putAll_eq (out text : Text) : putAll outMax out text =
      if text = [] ∨ ((out ++ text).length : Int) < outMax then some (out ++ text) else none := by
  induction text generalizing out with
  | nil => simp [putAll]
  | cons char rest ih =>
    rw [putAll, ih, List.append_assoc, List.singleton_append]
    simp only [List.length_append, List.length_cons, reduceCtorEq, false_or]
    by_cases fits : (out.length : Int) ≥ outMax - 1
    · rw [if_pos fits, if_neg (by push_cast; omega)]
    · rw [if_neg fits]
      by_cases last : rest = []
      · subst last
        rw [if_pos (.inl rfl), if_pos (by simp only [List.length_nil]; push_cast; omega)]
      · simp only [last, false_or]

theorem putAll_append (out first rest : Text) : putAll outMax out (first ++ rest) =
      (putAll outMax out first).bind fun out => putAll outMax out rest := by
  induction first generalizing out with
  | nil => rfl
  | cons char first ih =>
    rw [List.cons_append, putAll, putAll]
    split
    · rfl
    · exact ih _

theorem serverPath_putAll (target remainder : Text) :
    serverPath outMax target remainder = putAll outMax [] (relative target remainder) := by
  have target_put : ∀ out, putAll outMax [] target = some out → out = target := by
    intro out put
    rw [putAll_eq] at put
    split at put
    · exact (Option.some.inj put).symm
    · cases put
  unfold serverPath relative
  by_cases plain : target = [] ∨ remainder = [] ∨ target.getLast? = some '/' ∨
      remainder.head? = some '/'
  · rw [if_pos plain, putAll_append]
    refine Option.bind_congr fun out put => ?_
    obtain rfl := target_put out put
    rw [if_neg (by tauto), Option.bind_some]
  · rw [if_neg plain, putAll_append]
    refine Option.bind_congr fun out put => ?_
    obtain rfl := target_put out put
    rw [if_pos (by tauto), ← putAll_append, List.singleton_append]

theorem serverPath_some {outMax : Int} {target remainder text : Text}
    (done : serverPath outMax target remainder = some text) : text = relative target remainder := by
  rw [serverPath_putAll, putAll_eq] at done
  split at done
  · exact (Option.some.inj done).symm
  · cases done

theorem served_eq (mount : Mount) :
    (serverPath outMax mount.target (path.drop mount.mountPrefix.length)).map
      (fun out => (mount.serverPid, out)) = served path outMax mount := by
  rw [serverPath_putAll, putAll_eq, List.nil_append]
  exact apply_ite _ _ _ _

variable {live}

theorem candidate_iff {mount : Mount} :
    candidate live path mount ↔ serving live mount ∧ Covers path mount.mountPrefix := by
  rw [candidate, nsPrefixCovers_isSome]

variable (live) in
/-- Pass 1 returns the start value or the length of a candidate, and nothing shorter
than any of them. -/
theorem bestLen_spec (path : Text) (table : List Mount) (best : Int) :
    best ≤ bestLen live path table best ∧
      (∀ mount ∈ table, candidate live path mount →
        (mount.mountPrefix.length : Int) ≤ bestLen live path table best) ∧
      (bestLen live path table best = best ∨
        ∃ mount ∈ table, candidate live path mount ∧
          (mount.mountPrefix.length : Int) = bestLen live path table best) := by
  induction table generalizing best with
  | nil => simp [bestLen]
  | cons mount rest ih =>
    rw [bestLen]
    split
    · next better =>
        obtain ⟨above, bounds, attained⟩ := ih mount.mountPrefix.length
        refine ⟨by omega, fun other member found => ?_, .inr ?_⟩
        · rcases List.mem_cons.mp member with rfl | later
          · exact above
          · exact bounds other later found
        · rcases attained with same | ⟨other, later, found, length⟩
          · exact ⟨mount, List.mem_cons_self, better.1, same.symm⟩
          · exact ⟨other, List.mem_cons_of_mem _ later, found, length⟩
    · next kept =>
        obtain ⟨above, bounds, attained⟩ := ih best
        refine ⟨above, fun other member found => ?_, attained.imp id ?_⟩
        · rcases List.mem_cons.mp member with rfl | later
          · have shorter := not_and.mp kept found
            omega
          · exact bounds other later found
        · rintro ⟨other, later, found, length⟩
          exact ⟨other, List.mem_cons_of_mem _ later, found, length⟩

/-- Pass 2 indexes the list of winners. -/
theorem pick_eq (path : Text) (best member : Int) (table : List Mount) (seen : Int)
    (ahead : seen ≤ member) :
    pick live path best member table seen =
      (table.filter fun mount => winner live path best mount)[(member - seen).toNat]? := by
  induction table generalizing seen with
  | nil => simp [pick]
  | cons mount rest ih =>
    rw [pick]
    by_cases wins : winner live path best mount
    · rw [if_neg (not_not.mpr wins), List.filter_cons_of_pos (by simpa using wins)]
      by_cases reached : seen = member
      · simp [reached]
      · have further : (member - seen).toNat = (member - (seen + 1)).toNat + 1 := by omega
        rw [if_pos reached, ih (seen + 1) (by omega), further, List.getElem?_cons_succ]
    · rw [if_pos wins, ih seen ahead, List.filter_cons_of_neg (by simpa using wins)]

variable (live) in
theorem createIndex_spec (path : Text) (best : Int) (table : List Mount) (scanned : Int)
    (started : 0 ≤ scanned) :
    let winners := table.filter fun mount => winner live path best mount
    (∃ mount, winners.find? (fun mount => mount.flags &&& mntCreate ≠ 0) = some mount ∧
        scanned ≤ createIndex live path best table scanned ∧
        winners[(createIndex live path best table scanned - scanned).toNat]? = some mount) ∨
      (winners.find? (fun mount => mount.flags &&& mntCreate ≠ 0) = none ∧
        createIndex live path best table scanned = 0) := by
  induction table generalizing scanned with
  | nil => simp [createIndex]
  | cons mount rest ih =>
    rw [createIndex]
    by_cases wins : winner live path best mount
    · rw [if_neg (not_not.mpr wins), List.filter_cons_of_pos (by simpa using wins)]
      by_cases flagged : mount.flags &&& mntCreate = 0
      · rw [if_neg (not_not.mpr flagged)]
        rcases ih (scanned + 1) (by omega) with ⟨found, first, later, index⟩ | ⟨none, zero⟩
        · refine .inl ⟨found, ?_, by omega, ?_⟩
          · simpa [flagged] using first
          · have further : (createIndex live path best rest (scanned + 1) - scanned).toNat =
                (createIndex live path best rest (scanned + 1) - (scanned + 1)).toNat + 1 := by
              omega
            rw [further, List.getElem?_cons_succ, index]
        · exact .inr ⟨by simpa [flagged] using none, zero⟩
      · rw [if_pos flagged]
        refine .inl ⟨mount, ?_, Int.le_refl scanned, by simp⟩
        exact List.find?_cons_of_pos (by simpa using flagged)
    · rw [if_pos wins, List.filter_cons_of_neg (by simpa using wins)]
      exact ih scanned started
variable {table : List Mount}

/-- The winners are the members at the longest covering prefix. -/
theorem winners_eq {best : Int} (covers : Covers path mountPrefix)
    (length : (mountPrefix.length : Int) = best) :
    (table.filter fun mount => winner live path best mount) =
      membersAt live table mountPrefix := by
  refine List.filter_congr fun mount _ => ?_
  rw [decide_eq_decide, winner, candidate_iff]
  constructor
  · rintro ⟨⟨alive, reaches⟩, same⟩
    exact ⟨alive, covers_unique reaches covers (by omega)⟩
  · rintro ⟨alive, rfl⟩
    exact ⟨⟨alive, covers⟩, length⟩

theorem chosen_mem {members : List Mount} {member : Int} {mount : Mount}
    (found : chosen members member = some mount) : mount ∈ members := by
  unfold chosen at found
  split at found
  · rcases Option.or_eq_some_iff.mp found with first | ⟨-, head⟩
    · exact List.mem_of_find?_eq_some first
    · exact List.mem_of_head? head
  · exact List.mem_of_getElem? found

theorem find_of_chosen {winners : List Mount} {member : Int} (negative : member < 0) :
    chosen winners member =
      (winners.find? fun mount => mount.flags &&& mntCreate ≠ 0).or winners.head? := by
  rw [chosen, if_pos negative]

/-- Both index conventions, resolved to a member. -/
theorem pick_chosen (path : Text) (best member : Int) (table : List Mount) :
    pick live path best (if member < 0 then createIndex live path best table 0 else member)
        table 0 =
      chosen (table.filter fun mount => winner live path best mount) member := by
  by_cases negative : member < 0
  · rw [if_pos negative, find_of_chosen negative]
    rcases createIndex_spec live path best table 0 (Int.le_refl 0) with
      ⟨mount, first, later, index⟩ | ⟨none, zero⟩
    · rw [pick_eq path best _ table 0 later, index, first]
      rfl
    · rw [zero, pick_eq path best 0 table 0 (Int.le_refl 0), none, List.head?_eq_getElem?]
      rfl
  · rw [if_neg negative, pick_eq path best member table 0 (by omega), chosen, if_neg negative]
    simp

theorem bestLen_longest (longest : Longest live table path mountPrefix) :
    bestLen live path table (-1) = mountPrefix.length := by
  obtain ⟨-, bounds, attained⟩ := bestLen_spec live path table (-1)
  obtain ⟨mount, member, alive, rfl⟩ := longest.mounted
  have bound := bounds mount member (candidate_iff.mpr ⟨alive, longest.covers⟩)
  rcases attained with none | ⟨other, listed, found, length⟩
  · omega
  · obtain ⟨otherAlive, otherCovers⟩ := candidate_iff.mp found
    have shorter := longest.longest other listed otherAlive otherCovers
    omega

theorem translate_members (longest : Longest live table path mountPrefix) (member outMax : Int) :
    nsTranslateCore live table path member outMax =
      (chosen (membersAt live table mountPrefix) member).bind (served path outMax) := by
  have length := bestLen_longest longest
  have matched : ¬ bestLen live path table (-1) < 0 := by omega
  simp only [nsTranslateCore, matched]
  rw [pick_chosen, winners_eq longest.covers length.symm]
  refine Option.bind_congr fun mount picked => ?_
  have same : mount.mountPrefix = mountPrefix := by
    have listed := (List.mem_filter.mp (chosen_mem picked)).2
    simp only [decide_eq_true_eq] at listed
    exact listed.2
  rw [remainder_eq (same ▸ longest.covers), served_eq]

theorem translate_unmatched (unmatched : bestLen live path table (-1) < 0) (member outMax : Int) :
    nsTranslateCore live table path member outMax = none := by
  simp [nsTranslateCore, unmatched]

/-- Translation enumerates, by member index and in array order, exactly the live
entries with the longest live prefix covering the path, and answers a negative index
with the create member; where no live prefix covers the path it answers nothing. -/
theorem translate_longest (live : Nat → Option Nat) (table : List Mount) (path : Text) :
    (∃ mountPrefix, Longest live table path mountPrefix ∧
        ∀ member outMax, nsTranslateCore live table path member outMax =
          (chosen (membersAt live table mountPrefix) member).bind (served path outMax)) ∨
      ((∀ mount ∈ table, serving live mount → ¬ Covers path mount.mountPrefix) ∧
        ∀ member outMax, nsTranslateCore live table path member outMax = none) := by
  obtain ⟨-, bounds, attained⟩ := bestLen_spec live path table (-1)
  by_cases unmatched : bestLen live path table (-1) < 0
  · right
    refine ⟨fun mount member alive covers => ?_, translate_unmatched unmatched⟩
    have bound := bounds mount member (candidate_iff.mpr ⟨alive, covers⟩)
    omega
  · left
    rcases attained with none | ⟨mount, member, found, length⟩
    · omega
    obtain ⟨alive, covers⟩ := candidate_iff.mp found
    have longest : Longest live table path mount.mountPrefix := by
      refine ⟨⟨mount, member, alive, rfl⟩, covers, fun other listed otherAlive otherCovers => ?_⟩
      have bound := bounds other listed (candidate_iff.mpr ⟨otherAlive, otherCovers⟩)
      omega
    exact ⟨mount.mountPrefix, longest, translate_members longest⟩

def OnBoundary (path mountPrefix : Text) : Prop :=
  Covers path mountPrefix ∧ (mountPrefix = [] ∨ mountPrefix.getLast? = some '/' ∨
    mountPrefix.length = path.length ∨ path[mountPrefix.length]? = some '/')

/-- A server mounted at "/bin", without the slash, is asked for "ary" when the path
is "/binary". -/
theorem translate_inside_component :
    nsTranslateCore (fun pid => if pid = 3 then some 1 else none)
        [⟨"/bin".toList, 3, 1, [], 0⟩] "/binary".toList 0 64 = some (3, "ary".toList) ∧
      ¬ OnBoundary "/binary".toList "/bin".toList := by
  refine ⟨by decide, fun boundary => ?_⟩
  rcases boundary.2 with empty | slash | whole | next
  · exact absurd empty (by decide)
  · exact absurd slash (by decide)
  · exact absurd whole (by decide)
  · exact absurd next (by decide)

end Racccoon.Namespace
