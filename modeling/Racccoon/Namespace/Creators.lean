import Racccoon.Namespace.UnionOrder

/-!
Which member of a union takes the creates, and what SYS_NS_BIND leaves of the table when
it fails. The call clears the create flag of the other members before it looks for a free
slot, and it compares the prefix it was given but stores one cut to NS_PREFIX_MAX.
-/

namespace Racccoon.Namespace

open Run

/-- SYS_NS_BIND; `none` is a range that `user_range_valid` refuses. -/
def nsBind (procsMax : Nat) (kernel : Kernel) (caller : Nat) (mountPrefix source : Option Text)
    (flags : BitVec 32) : Int × Kernel :=
  match mountPrefix, source with
  | some mountPrefix, some source => sysNsBind procsMax kernel caller mountPrefix source flags
  | _, _ => (-1, kernel)

def creates (mount : Mount) : Prop := mount.serverPid ≠ 0 ∧ mount.flags &&& mntCreate ≠ 0

instance (mount : Mount) : Decidable (creates mount) := inferInstanceAs (Decidable (_ ∧ _))

def notBoth (left right : Mount) : Prop :=
  creates left → creates right → left.mountPrefix ≠ right.mountPrefix

instance (left right : Mount) : Decidable (notBoth left right) :=
  inferInstanceAs (Decidable (_ → _ → _))

variable (table : List Mount)

def OneCreator : Prop := table.Pairwise notBoth

instance : Decidable (OneCreator table) :=
  inferInstanceAs (Decidable (List.Pairwise _ _))

variable (mountPrefix : Text) (add create : Bool)
variable (mount : Mount)

def stays : Prop :=
  ¬ (mount.mountPrefix = mountPrefix ∧ (add = false ∨ create = true))

instance : Decidable (stays mountPrefix add create mount) := inferInstanceAs (Decidable (¬ (_ ∧ _)))

def Full (add : Bool) : Prop :=
  ∀ mount ∈ table, mount.serverPid ≠ 0 ∧ (add = true ∨ mount.mountPrefix ≠ mountPrefix)

instance (add : Bool) :
    Decidable (Full table mountPrefix add) := inferInstanceAs (Decidable (∀ _ ∈ _, _ ∧ _))

/-- In a full table no member has a flag to lose. Else the members that stay have one
creator at a prefix, and with -c none at the prefix the new entry is stored under. -/
def BindAllowed : Prop :=
  if Full table mountPrefix add then
    ¬ (create = true ∧ ∃ mount ∈ table, creates mount ∧ mount.mountPrefix = mountPrefix)
  else
    OneCreator (table.filter fun mount => stays mountPrefix add create mount) ∧
      (create = true → ∀ mount ∈ table, stays mountPrefix add create mount → creates mount →
        mount.mountPrefix ≠ strCopy mountPrefix nsPrefixMax)

theorem clear_create (flags : BitVec 32) : (flags &&& ~~~mntCreate) &&& mntCreate = 0 := by
  rw [BitVec.and_assoc]
  exact BitVec.and_zero

theorem clear_create_eq_iff (flags : BitVec 32) :
    flags &&& ~~~mntCreate = flags ↔ flags &&& mntCreate = 0 := by
  constructor
  · intro same
    rw [← same]
    exact clear_create flags
  · intro clear
    apply BitVec.eq_of_getLsbD_eq
    intro bit inside
    have bitClear := congrArg (fun word => word.getLsbD bit) clear
    simp only [BitVec.getLsbD_and] at bitClear ⊢
    cases set : flags.getLsbD bit with
    | false => rfl
    | true => simp_all

theorem creates_clearForBind_iff : creates (clearForBind mountPrefix add create mount) ↔
      creates mount ∧ stays mountPrefix add create mount := by
  by_cases hit : taken mountPrefix mount
  · cases add <;> cases create <;> simp [clearForBind, hit, creates, stays, hit.2, clear_create]
  · rw [clearForBind, if_neg hit]
    refine (and_iff_left_of_imp ?_).symm
    exact fun used same => hit ⟨used.1, same.1⟩

@[simp] theorem clearForBind_prefix :
    (clearForBind mountPrefix add create mount).mountPrefix = mount.mountPrefix := by
  unfold clearForBind
  split_ifs <;> rfl

variable {mountPrefix : Text}
variable {add create : Bool}

/-- What a bind leaves alone when it takes no entry away. -/
theorem clearForBind_eq_iff {mount : Mount} (used : mount.serverPid ≠ 0)
    (kept : add = true ∨ mount.mountPrefix ≠ mountPrefix) :
    clearForBind mountPrefix add create mount = mount ↔
      ¬ (create = true ∧ creates mount ∧ mount.mountPrefix = mountPrefix) := by
  by_cases same : mount.mountPrefix = mountPrefix
  · obtain rfl : add = true := kept.resolve_right fun apart => apart same
    have hit : taken mountPrefix mount := ⟨used, same⟩
    cases create with
    | false => simp [clearForBind]
    | true =>
      have fields : clearForBind mountPrefix true true mount = mount ↔
          mount.flags &&& ~~~mntCreate = mount.flags := by
        simp only [clearForBind, hit, ↓reduceIte, Bool.not_true, Bool.false_eq_true]
        exact ⟨fun whole => congrArg Mount.flags whole, fun flags => by rw [flags]⟩
      rw [fields, clear_create_eq_iff]
      simp [creates, used, same]
  · have miss : ¬ taken mountPrefix mount := fun hit => same hit.2
    simp [clearForBind, miss, same]

theorem freeSlot_cleared_iff (table : List Mount) (mountPrefix : Text) (add create : Bool) :
    freeSlot (table.map (clearForBind mountPrefix add create)) = none ↔
      Full table mountPrefix add := by
  simp only [freeSlot, List.findIdx?_eq_none_iff, List.mem_map, forall_exists_index, and_imp,
    forall_apply_eq_imp_iff₂, decide_eq_false_iff_not]
  refine forall₂_congr fun mount _ => ?_
  by_cases hit : taken mountPrefix mount
  · cases add <;> cases create <;> simp [clearForBind, hit, hit.2]
  · rw [clearForBind, if_neg hit]
    exact ⟨fun used => ⟨used, .inr fun same => hit ⟨used, same⟩⟩, And.left⟩

variable {table : List Mount}

theorem full_unchanged_iff (full : Full table mountPrefix add) :
    table.map (clearForBind mountPrefix add create) = table ↔
      ¬ (create = true ∧ ∃ mount ∈ table, creates mount ∧ mount.mountPrefix = mountPrefix) := by
  have fixed : table.map (clearForBind mountPrefix add create) = table ↔
      ∀ mount ∈ table, clearForBind mountPrefix add create mount = mount := by
    conv_lhs => rhs; rw [← List.map_id table]
    exact List.map_inj_left
  rw [fixed]
  constructor
  · rintro same ⟨flag, mount, member, creator, here⟩
    exact (clearForBind_eq_iff (full mount member).1 (full mount member).2).mp
      (same mount member) ⟨flag, creator, here⟩
  · intro none_ mount member
    refine (clearForBind_eq_iff (full mount member).1 (full mount member).2).mpr ?_
    exact fun loses => none_ ⟨loses.1, mount, member, loses.2⟩

theorem oneCreator_cleared_iff (table : List Mount) (mountPrefix : Text) (add create : Bool) :
    OneCreator (table.map (clearForBind mountPrefix add create)) ↔
      OneCreator (table.filter fun mount => stays mountPrefix add create mount) := by
  rw [OneCreator, OneCreator, List.pairwise_map, List.pairwise_filter]
  refine List.Pairwise.iff fun left right => ?_
  simp only [notBoth, creates_clearForBind_iff, clearForBind_prefix, decide_eq_true_eq]
  tauto

theorem oneCreator_set_iff {slot : Nat} (entry : Mount) (free : freeSlot table = some slot) :
    OneCreator (table.set slot entry) ↔
      OneCreator table ∧ ∀ mount ∈ table, notBoth mount entry := by
  obtain ⟨before, unused, after, rfl, rfl, empty, -⟩ := split_at_slot free
  have idle : ¬ creates unused := fun used => used.1 (of_decide_eq_true empty)
  have quiet : ∀ mount, notBoth mount unused := fun mount _ used => absurd used idle
  have quiet' : ∀ mount, notBoth unused mount := fun mount used => absurd used idle
  rw [set_slot]
  simp only [OneCreator, List.pairwise_append, List.pairwise_cons, List.mem_cons,
    List.mem_append, quiet, quiet', or_imp, forall_and, forall_eq, implies_true, true_and]
  tauto

theorem creates_boundMount_iff {target : Text} {pid generation : Nat} (server : pid ≠ 0) :
    creates (boundMount mountPrefix pid generation target create) ↔ create = true := by
  cases create <;> simp [creates, boundMount, server, mntCreate]

theorem bindTable_none {target : Text} {pid generation : Nat}
    (full : freeSlot (table.map (clearForBind mountPrefix add create)) = none) :
    bindTable table mountPrefix pid generation target add create =
      (-1, table.map (clearForBind mountPrefix add create)) := by
  simp only [bindTable, full]

theorem bindTable_some {target : Text} {pid generation slot : Nat}
    (free : freeSlot (table.map (clearForBind mountPrefix add create)) = some slot) :
    bindTable table mountPrefix pid generation target add create =
      (0, (table.map (clearForBind mountPrefix add create)).set slot
        (boundMount mountPrefix pid generation target create)) := by
  simp only [bindTable, free]

/-- The second half of SYS_NS_BIND as a whole. -/
theorem bindTable_atomic_iff {table : List Mount} {mountPrefix target : Text}
    {pid generation : Nat} {add create : Bool} (server : pid ≠ 0) :
    (((bindTable table mountPrefix pid generation target add create).1 ≠ 0 →
        (bindTable table mountPrefix pid generation target add create).2 = table) ∧
      ((bindTable table mountPrefix pid generation target add create).1 = 0 →
        OneCreator (bindTable table mountPrefix pid generation target add create).2)) ↔
      BindAllowed table mountPrefix add create := by
  unfold BindAllowed
  cases free : freeSlot (table.map (clearForBind mountPrefix add create)) with
  | none =>
    have full := (freeSlot_cleared_iff table mountPrefix add create).mp free
    rw [bindTable_none free, if_pos full, ← full_unchanged_iff full]
    simp
  | some slot =>
    have room : ¬ Full table mountPrefix add := by
      rw [← freeSlot_cleared_iff table mountPrefix add create, free]
      simp
    rw [bindTable_some free, if_neg room]
    simp only [ne_eq, not_true_eq_false, false_implies, true_and,
      true_implies, oneCreator_set_iff _ free, oneCreator_cleared_iff, notBoth,
      creates_boundMount_iff server, List.mem_map, forall_exists_index, and_imp,
      forall_apply_eq_imp_iff₂, creates_clearForBind_iff, clearForBind_prefix]
    refine and_congr_right fun _ => ?_
    constructor
    · exact fun apart flag mount member kept creator => apart mount member creator kept flag
    · exact fun apart mount member creator kept flag => apart flag mount member kept creator

theorem setMounts_eq_iff (kernel : Kernel) (caller : Nat) (mounts : List Mount) :
    kernel.setMounts caller mounts = kernel ↔ mounts = (kernel.procs caller).mounts := by
  constructor
  · intro same
    have here := congrArg (fun after : Kernel => (after.procs caller).mounts) same
    simpa [Kernel.setMounts, Kernel.set] using here
  · rintro rfl
    simp [Kernel.setMounts, Kernel.set]

/-- A call that fails changes nothing; after one that succeeds at most one member of each
union takes creates. -/
structure Atomic (procsMax : Nat) (kernel : Kernel) (caller : Nat)
    (mountPrefix source : Option Text) (flags : BitVec 32) : Prop where
  failed : (nsBind procsMax kernel caller mountPrefix source flags).1 ≠ 0 →
    (nsBind procsMax kernel caller mountPrefix source flags).2 = kernel
  bound : (nsBind procsMax kernel caller mountPrefix source flags).1 = 0 →
    OneCreator ((nsBind procsMax kernel caller mountPrefix source flags).2.procs caller).mounts

theorem ns_bind_atomic_iff (procsMax : Nat) (kernel : Kernel) (caller : Nat)
    (mountPrefix source : Option Text) (flags : BitVec 32) :
    Atomic procsMax kernel caller mountPrefix source flags ↔
      ∀ text ∈ mountPrefix, ∀ path ∈ source, (bindSource procsMax kernel caller path).isSome →
        BindAllowed (kernel.procs caller).mounts text (flags &&& 1 ≠ 0) (flags &&& 4 ≠ 0) := by
  have refused : ∀ result, result = ((-1, kernel) : Int × Kernel) →
      (result.1 ≠ 0 → result.2 = kernel) ∧
        (result.1 = 0 → OneCreator (result.2.procs caller).mounts) := by
    rintro result rfl
    exact ⟨fun _ => rfl, fun zero => absurd zero (by simp)⟩
  cases mountPrefix with
  | none => exact iff_of_true ⟨(refused _ rfl).1, (refused _ rfl).2⟩ (by simp)
  | some text =>
    cases source with
    | none => exact iff_of_true ⟨(refused _ rfl).1, (refused _ rfl).2⟩ (by simp)
    | some path =>
      simp only [Option.mem_def, Option.some.injEq, forall_eq']
      cases found : bindSource procsMax kernel caller path with
      | none =>
        have fails : nsBind procsMax kernel caller (some text) (some path) flags =
            (-1, kernel) := by
          simp [nsBind, sysNsBind, found]
        exact iff_of_true ⟨(refused _ fails).1, (refused _ fails).2⟩ (by simp)
      | some server =>
        obtain ⟨pid, generation, target⟩ := server
        rw [← @bindTable_atomic_iff (kernel.procs caller).mounts text target pid generation
          (flags &&& 1 ≠ 0) (flags &&& 4 ≠ 0) (bindSource_pid found)]
        simp only [Option.isSome_some, forall_const]
        have after : nsBind procsMax kernel caller (some text) (some path) flags =
            ((bindTable (kernel.procs caller).mounts text pid generation target
              (flags &&& 1 ≠ 0) (flags &&& 4 ≠ 0)).1,
            kernel.setMounts caller (bindTable (kernel.procs caller).mounts text pid
              generation target (flags &&& 1 ≠ 0) (flags &&& 4 ≠ 0)).2) := by
          simp [nsBind, sysNsBind, found]
        have table : ∀ mounts, ((kernel.setMounts caller mounts).procs caller).mounts =
            mounts := by
          simp [Kernel.setMounts, Kernel.set]
        constructor
        · rintro ⟨failed, bound⟩
          rw [after] at failed bound
          simp only [setMounts_eq_iff, table] at failed bound
          exact ⟨failed, bound⟩
        · rintro ⟨failed, bound⟩
          refine ⟨?_, ?_⟩ <;> rw [after] <;> simp only [setMounts_eq_iff, table]
          · exact failed
          · exact bound

/-- A process whose table is full: its first member of "/u/" takes the creates. -/
def crowded : Kernel :=
  outcome (step 64) (fun _ _ => True) boot
    ([.boot (some "/x/".toList), .boot (some "/y/".toList), .create,
      .nsBind 3 "/u/".toList "/x/".toList 4] ++
      List.replicate 13 (.nsBind 3 "/u/".toList "/x/".toList 1))

/-- A bind with -a and -c that finds no slot has cleared the flag already. -/
theorem failed_bind_clears_flag :
    Reach (step 64) (fun _ _ => True) boot crowded ∧
      (nsBind 64 crowded 3 (some "/u/".toList) (some "/y/".toList) 5).1 = -1 ∧
      ¬ Atomic 64 crowded 3 (some "/u/".toList) (some "/y/".toList) 5 := by
  have fails : (nsBind 64 crowded 3 (some "/u/".toList) (some "/y/".toList) 5).1 = -1 := by
    decide
  refine ⟨outcome_reach _ _ (by decide), fails, fun atomic => ?_⟩
  have same := atomic.failed (by rw [fails]; decide)
  have flags := congrArg (fun after : Kernel => (after.procs 3).mounts.map Mount.flags) same
  revert flags
  decide

end Racccoon.Namespace
