import Racccoon.Namespace.Ledger

/-!
The search order of a union. Its members are what translation visits: a server and
the path it is asked under. The order the calls define is a list for each prefix; it
knows nothing of slots. A bind goes to the first free slot of the table, which may lie
below a slot of its own union.
-/

namespace Racccoon.Namespace

open Run

structure Member where
  pid : Nat
  generation : Nat
  target : Text
  deriving DecidableEq

def memberOf (mount : Mount) : Member := ⟨mount.serverPid, mount.serverGeneration, mount.target⟩

def unionAt (table : List Mount) (mountPrefix : Text) : List Member :=
  (table.filter fun mount => taken mountPrefix mount).map memberOf

namespace Union

abbrev Orders := Text → List Member

/-- A mount binds the first member again, or makes the prefix's only one. -/
def mount (table : List Mount) (orders : Orders) (mountPrefix : Text) (pid generation : Nat) :
    Orders :=
  match orders mountPrefix, (freeSlot table).bind fun slot => table[slot]? with
  | first :: rest, _ =>
    Function.update orders mountPrefix ({ first with pid := pid, generation := generation } :: rest)
  | [], some free => Function.update orders mountPrefix [⟨pid, generation, free.target⟩]
  | [], none => orders

def bind (table : List Mount) (orders : Orders) (mountPrefix : Text) (pid generation : Nat)
    (target : Text) (add create : Bool) : Orders :=
  if freeSlot (table.map (clearForBind mountPrefix add create)) = none then orders
  else Function.update orders mountPrefix
    ((if add then orders mountPrefix else []) ++
      [memberOf (boundMount mountPrefix pid generation target create)])

def unmount (orders : Orders) (mountPrefix : Text) : Orders :=
  Function.update orders mountPrefix (orders mountPrefix).tail

def reseat (oldPid newPid newGeneration : Nat) (orders : Orders) : Orders :=
  fun mountPrefix => if oldPid = 0 then orders mountPrefix else
    (orders mountPrefix).map fun entry =>
      if entry.pid = oldPid then { entry with pid := newPid, generation := newGeneration }
      else entry

end Union

variable {table : List Mount}

theorem split_at_slot {test : Mount → Bool} {slot : Nat} (found : table.findIdx? test = some slot) :
    ∃ before mount after, table = before ++ mount :: after ∧ before.length = slot ∧
      test mount = true ∧ ∀ other ∈ before, test other = false := by
  obtain ⟨bound, hit, passed⟩ := List.findIdx?_eq_some_iff_getElem.mp found
  refine ⟨table.take slot, table[slot], table.drop (slot + 1), ?_, ?_, hit, ?_⟩
  · rw [List.getElem_cons_drop, List.take_append_drop]
  · rw [List.length_take]
    omega
  · intro other member
    obtain ⟨index, inside, rfl⟩ := List.mem_take_iff_getElem.mp member
    simpa using passed index (by omega)

theorem modify_slot (before after : List Mount) (mount : Mount) (change : Mount → Mount) :
    (before ++ mount :: after).modify before.length change = before ++ change mount :: after := by
  induction before with
  | nil => rfl
  | cons _ _ ih => simp [ih]

theorem set_slot (before after : List Mount) (mount entry : Mount) :
    (before ++ mount :: after).set before.length entry = before ++ entry :: after := by
  induction before with
  | nil => rfl
  | cons _ _ ih => simp [ih]

theorem unionAt_append (left right : List Mount) (mountPrefix : Text) :
    unionAt (left ++ right) mountPrefix = unionAt left mountPrefix ++ unionAt right mountPrefix := by
  simp [unionAt]

variable {mountPrefix : Text}

theorem unionAt_cons_taken {mount : Mount} (hit : taken mountPrefix mount) (after : List Mount) :
    unionAt (mount :: after) mountPrefix = memberOf mount :: unionAt after mountPrefix := by
  simp [unionAt, hit]

theorem unionAt_cons_other {mount : Mount} (miss : ¬ taken mountPrefix mount) (after : List Mount) :
    unionAt (mount :: after) mountPrefix = unionAt after mountPrefix := by
  simp [unionAt, miss]

theorem unionAt_nil_iff (table : List Mount) (mountPrefix : Text) :
    unionAt table mountPrefix = [] ↔ ∀ mount ∈ table, ¬ taken mountPrefix mount := by
  simp [unionAt]

theorem strCopy_short {text : Text} {max : Nat} (short : text.length < max) :
    strCopy text max = text :=
  List.take_of_length_le (by omega)

theorem takenSlot_none (absent : takenSlot table mountPrefix = none) :
    unionAt table mountPrefix = [] := by
  rw [unionAt_nil_iff]
  intro mount member
  simpa using List.findIdx?_eq_none_iff.mp absent mount member

/-- A slot that is free, or that has another prefix, is in no member list of this one. -/
theorem not_taken_free {mount : Mount} (free : mount.serverPid = 0) (mountPrefix : Text) :
    ¬ taken mountPrefix mount :=
  fun hit => hit.1 free

theorem not_taken_other {mount : Mount} {other : Text} (same : mount.mountPrefix = mountPrefix)
    (apart : other ≠ mountPrefix) : ¬ taken other mount :=
  fun hit => apart (hit.2.symm.trans same)

theorem mount_union {pid generation : Nat} (short : mountPrefix.length < nsPrefixMax)
    (server : pid ≠ 0) :
    unionAt ((mountTable table mountPrefix pid generation).getD table) =
      Union.mount table (unionAt table) mountPrefix pid generation := by
  unfold mountTable
  cases found : takenSlot table mountPrefix with
  | some slot =>
    obtain ⟨before, mount, after, rfl, rfl, hit, passed⟩ := split_at_slot found
    have first : taken mountPrefix mount := of_decide_eq_true hit
    have empty : unionAt before mountPrefix = [] :=
      (unionAt_nil_iff before mountPrefix).mpr fun other member =>
        of_decide_eq_false (passed other member)
    have rebound : taken mountPrefix
        { mount with serverPid := pid, serverGeneration := generation } := ⟨server, first.2⟩
    simp only [Option.getD_some, modify_slot, Union.mount, unionAt_append, empty,
      unionAt_cons_taken first, List.nil_append]
    funext other
    by_cases same : other = mountPrefix
    · subst same
      rw [unionAt_append, empty, unionAt_cons_taken rebound, Function.update_self]
      rfl
    · rw [Function.update_of_ne same, unionAt_append, unionAt_append,
        unionAt_cons_other (not_taken_other rebound.2 same),
        unionAt_cons_other (not_taken_other first.2 same)]
  | none =>
    have absent := takenSlot_none found
    simp only [Union.mount, absent]
    cases unused : freeSlot table with
    | none => rfl
    | some =>
      obtain ⟨before, mount, after, rfl, rfl, free, -⟩ := split_at_slot unused
      have unfilled : mount.serverPid = 0 := of_decide_eq_true free
      rw [unionAt_append, unionAt_cons_other (not_taken_free unfilled mountPrefix),
        List.append_eq_nil_iff] at absent
      simp only [Option.map_some, Option.getD_some, modify_slot, Option.bind_some,
        List.getElem?_append_right (Nat.le_refl _), Nat.sub_self, List.getElem?_cons_zero,
        strCopy_short short]
      funext other
      by_cases same : other = mountPrefix
      · subst same
        rw [unionAt_append, absent.1, unionAt_cons_taken ⟨server, rfl⟩, absent.2,
          Function.update_self]
        rfl
      · rw [Function.update_of_ne same, unionAt_append, unionAt_append,
          unionAt_cons_other (not_taken_other rfl same),
          unionAt_cons_other (not_taken_free unfilled other)]

theorem unmount_union (table : List Mount) (mountPrefix : Text) :
    unionAt ((unmountTable table mountPrefix).getD table) =
      Union.unmount (unionAt table) mountPrefix := by
  unfold unmountTable
  cases found : takenSlot table mountPrefix with
  | none =>
    simp only [Option.map_none, Option.getD_none, Union.unmount, takenSlot_none found,
      List.tail_nil]
    rw [← takenSlot_none found, Function.update_eq_self]
  | some =>
    obtain ⟨before, mount, after, rfl, rfl, hit, passed⟩ := split_at_slot found
    have first : taken mountPrefix mount := of_decide_eq_true hit
    have empty : unionAt before mountPrefix = [] :=
      (unionAt_nil_iff before mountPrefix).mpr fun other member =>
        of_decide_eq_false (passed other member)
    simp only [Option.map_some, Option.getD_some, modify_slot, Union.unmount]
    funext other
    rw [unionAt_append, unionAt_cons_other (not_taken_free rfl other)]
    by_cases same : other = mountPrefix
    · subst same
      rw [Function.update_self, unionAt_append, empty, unionAt_cons_taken first]
      rfl
    · rw [Function.update_of_ne same, unionAt_append,
        unionAt_cons_other (not_taken_other first.2 same)]

theorem reseat_union (table : List Mount) {oldPid newPid : Nat} (newGeneration : Nat)
    (new : newPid ≠ 0) :
    unionAt (if oldPid = 0 then table
        else table.map (reseatMount oldPid newPid newGeneration)) =
      Union.reseat oldPid newPid newGeneration (unionAt table) := by
  unfold Union.reseat
  funext mountPrefix
  by_cases old : oldPid = 0
  · simp [old]
  simp only [old, ↓reduceIte]
  have kept : ∀ mount, taken mountPrefix (reseatMount oldPid newPid newGeneration mount) ↔
      taken mountPrefix mount := by
    intro mount
    by_cases hit : mount.serverPid = oldPid <;> simp [reseatMount, taken, hit, old, new]
  simp only [unionAt, List.filter_map, List.map_map]
  have same : ((fun mount => decide (taken mountPrefix mount)) ∘
      reseatMount oldPid newPid newGeneration) = fun mount => decide (taken mountPrefix mount) :=
    funext fun mount => decide_eq_decide.mpr (kept mount)
  rw [same]
  refine List.map_congr_left fun mount _ => ?_
  by_cases hit : mount.serverPid = oldPid <;> simp [reseatMount, memberOf, hit]

theorem cleared_union (table : List Mount) (mountPrefix other : Text) (add create : Bool) :
    unionAt (table.map (clearForBind mountPrefix add create)) other =
      if other = mountPrefix ∧ add = false then [] else unionAt table other := by
  induction table with
  | nil => simp [unionAt]
  | cons mount rest ih =>
    rw [List.map_cons]
    by_cases hit : taken mountPrefix mount
    · by_cases same : other = mountPrefix
      · subst same
        cases add with
        | false =>
          have freed : ¬ taken other (clearForBind other false create mount) :=
            not_taken_free (by simp [clearForBind, hit]) other
          rw [unionAt_cons_other freed, ih]
          simp
        | true =>
          have stays : taken other (clearForBind other true create mount) ∧
              memberOf (clearForBind other true create mount) = memberOf mount := by
            obtain ⟨used, named⟩ := hit
            cases create <;> simp [clearForBind, taken, memberOf, used, named]
          rw [unionAt_cons_taken stays.1, unionAt_cons_taken hit, ih, stays.2]
          simp
      · have apart : ¬ taken other (clearForBind mountPrefix add create mount) := by
          obtain ⟨used, named⟩ := hit
          apply not_taken_other _ same
          cases add <;> cases create <;> simp [clearForBind, taken, used, named]
        rw [unionAt_cons_other apart, ih, unionAt_cons_other (not_taken_other hit.2 same)]
    · have kept : clearForBind mountPrefix add create mount = mount := if_neg hit
      rw [kept]
      by_cases counted : taken other mount
      · have apart : other ≠ mountPrefix := fun same => hit (same ▸ counted)
        rw [unionAt_cons_taken counted, unionAt_cons_taken counted, ih]
        simp [apart]
      · rw [unionAt_cons_other counted, unionAt_cons_other counted, ih]

/-- The members in the slots above the one a bind fills are copies of the new one, if
there are any. -/
def comesLast (table : List Mount) (mountPrefix : Text) (pid generation : Nat) (target : Text)
    (add create : Bool) : Prop :=
  let cleared := table.map (clearForBind mountPrefix add create)
  ∀ slot ∈ freeSlot cleared, ∀ entry ∈ unionAt (cleared.drop slot) mountPrefix,
    entry = memberOf (boundMount mountPrefix pid generation target create)

instance (table : List Mount) (mountPrefix : Text) (pid generation : Nat) (target : Text)
    (add create : Bool) :
    Decidable (comesLast table mountPrefix pid generation target add create) :=
  inferInstanceAs (Decidable (∀ slot ∈ _, ∀ entry ∈ _, _))

theorem cons_eq_concat_iff {Entry : Type} (entry : Entry) (list : List Entry) :
    entry :: list = list ++ [entry] ↔ ∀ other ∈ list, other = entry := by
  induction list with
  | nil => simp
  | cons head tail ih =>
    rw [List.cons_append, List.cons.injEq, List.forall_mem_cons, eq_comm (a := entry)]
    refine and_congr_right fun same => ?_
    rw [same]
    exact ih

theorem full_union {add create : Bool}
    (full : freeSlot (table.map (clearForBind mountPrefix add create)) = none)
    (replaces : add = false) : unionAt table mountPrefix = [] := by
  subst replaces
  rw [unionAt_nil_iff]
  intro mount member hit
  have freed := List.findIdx?_eq_none_iff.mp full _ (List.mem_map_of_mem member)
  simp [clearForBind, hit] at freed

/-- A bind at a prefix that fits puts its member where the order wants it exactly if
no other member lies above the slot it fills. -/
theorem bind_union_iff {target : Text} {pid generation : Nat} {add create : Bool}
    (short : mountPrefix.length < nsPrefixMax) (server : pid ≠ 0) :
    unionAt (bindTable table mountPrefix pid generation target add create).2 =
        Union.bind table (unionAt table) mountPrefix pid generation target add create ↔
      comesLast table mountPrefix pid generation target add create := by
  simp only [bindTable, Union.bind, comesLast]
  have left := cleared_union table mountPrefix
  cases unused : freeSlot (table.map (clearForBind mountPrefix add create)) with
  | none =>
    refine iff_of_true ?_ (fun slot found => by cases found)
    funext other
    simp only [left]
    split
    · next replaced =>
        rw [replaced.1]
        exact (full_union unused replaced.2).symm
    · rfl
  | some slot =>
    obtain ⟨before, mount, after, cut, rfl, free, -⟩ := split_at_slot unused
    have unfilled : mount.serverPid = 0 := of_decide_eq_true free
    have rest : ∀ other, unionAt before other ++ unionAt after other =
        if other = mountPrefix ∧ add = false then [] else unionAt table other := by
      intro other
      rw [← left other add create, cut, unionAt_append,
        unionAt_cons_other (not_taken_free unfilled other)]
    have named : (boundMount mountPrefix pid generation target create).mountPrefix =
        mountPrefix := strCopy_short short
    have bound : taken mountPrefix (boundMount mountPrefix pid generation target create) :=
      ⟨server, named⟩
    have kept : (if add then unionAt table mountPrefix else []) =
        unionAt before mountPrefix ++ unionAt after mountPrefix := by
      rw [rest]
      cases add <;> simp
    simp only [cut, set_slot, reduceCtorEq, ↓reduceIte, Option.mem_def, Option.some.injEq,
      forall_eq', List.drop_left, unionAt_cons_other (not_taken_free unfilled mountPrefix), kept]
    rw [← cons_eq_concat_iff, funext_iff]
    constructor
    · intro agree
      have here := agree mountPrefix
      rw [Function.update_self, unionAt_append, unionAt_cons_taken bound,
        List.append_assoc] at here
      exact List.append_cancel_left here
    · intro last other
      rw [unionAt_append]
      by_cases same : other = mountPrefix
      · subst same
        rw [Function.update_self, unionAt_cons_taken bound, last, List.append_assoc]
      · rw [unionAt_cons_other (not_taken_other named same),
          rest other]
        simp [same]

/-- The search order. The rules: a prefix fits its field, and no member of the union
lies above the slot a bind fills. -/
def searchOrder : Ledger Union.Orders where
  read := unionAt
  mount := Union.mount
  bind := Union.bind
  unmount := Union.unmount
  reseat oldPid _ newPid newGeneration := Union.reseat oldPid newPid newGeneration
  mountRule _ mountPrefix := mountPrefix.length < nsPrefixMax
  bindRule table mountPrefix pid generation target add create :=
    mountPrefix.length < nsPrefixMax ∧
      comesLast table mountPrefix pid generation target add create
  reseatRule _ _ _ := True
  read_mount _ _ _ _ short server := mount_union short server
  read_bind _ _ _ _ _ _ _ rule server := (bind_union_iff rule.1 server).mpr rule.2
  read_unmount := unmount_union
  read_reseat table _ _ _ newGeneration _ new := reseat_union table newGeneration new

variable (live : Nat → Option Nat)

def up (entry : Member) : Prop := live entry.pid = some entry.generation

instance (entry : Member) : Decidable (up live entry) :=
  inferInstanceAs (Decidable (_ = _))

theorem membersAt_union (table : List Mount) (mountPrefix : Text) :
    (membersAt live table mountPrefix).map memberOf =
      (unionAt table mountPrefix).filter fun entry => up live entry := by
  rw [unionAt, List.filter_map, List.filter_filter]
  refine congrArg (List.map memberOf) (List.filter_congr fun mount _ => ?_)
  rw [Bool.eq_iff_iff]
  simp only [Function.comp_apply, Bool.and_eq_true, decide_eq_true_eq]
  constructor
  · rintro ⟨⟨used, alive⟩, named⟩
    exact ⟨alive, used, named⟩
  · rintro ⟨alive, used, named⟩
    exact ⟨⟨used, alive⟩, named⟩

theorem translate_member {live : Nat → Option Nat} {path : Text}
    (longest : Longest live table path mountPrefix) (member : Nat) (outMax : Int) :
    nsTranslateCore live table path member outMax =
      (((unionAt table mountPrefix).filter fun entry => up live entry)[member]?).bind fun entry =>
        (serverPath outMax entry.target (path.drop mountPrefix.length)).map fun out =>
          (entry.pid, out) := by
  rw [translate_members longest, ← membersAt_union, List.getElem?_map, Option.bind_map]
  refine Option.bind_congr fun mount found => ?_
  have listed := (List.mem_filter.mp (List.mem_of_getElem? found)).2
  simp only [decide_eq_true_eq] at listed
  rw [← served_eq, listed.2]
  rfl

/-- In every run whose mounts and binds are at prefixes that fit, and whose binds fill
no slot below a member of their union, path translation visits the live members of
the longest covering prefix in the order the calls define, by member index. -/
theorem union_search_order (procsMax : Nat) (history : History Union.Orders)
    (run : Reach (historyStep searchOrder procsMax)
      (fun past action => ruled searchOrder procsMax past.kernel action)
      (blank searchOrder) history) :
    ∀ slot < procsMax, (history.kernel.procs slot).used → ∀ path mountPrefix,
      Longest (instances procsMax history.kernel) (history.kernel.procs slot).mounts path
        mountPrefix →
      ∀ (member : Nat) (outMax : Int),
        nsTranslateCore (instances procsMax history.kernel) (history.kernel.procs slot).mounts
            path member outMax =
          (((history.books slot mountPrefix).filter fun entry =>
              up (instances procsMax history.kernel) entry)[member]?).bind fun entry =>
            (serverPath outMax entry.target (path.drop mountPrefix.length)).map fun out =>
              (entry.pid, out) := by
  intro slot inside used path mountPrefix longest member outMax
  have order : unionAt (history.kernel.procs slot).mounts = history.books slot :=
    kept_run run slot inside used
  rw [← order]
  exact translate_member longest member outMax

instance (kernel : Kernel) :
    (action : Action) → Decidable (ruled searchOrder 64 kernel action)
  | .nsMount .. => inferInstanceAs (Decidable (_ → _ < nsPrefixMax))
  | .nsBind .. => inferInstanceAs (Decidable (∀ server ∈ _, (_ < _ ∧ comesLast _ _ _ _ _ _ _)))
  | .tick .. => .isTrue fun _ _ _ => ⟨fun _ _ _ => trivial, fun _ _ => trivial⟩
  | .create | .boot _ | .rfork .. | .die _ | .setuid .. | .srvPost .. | .nsUnmount .. =>
    .isTrue trivial

/-- Two servers joined at one prefix. -/
def joined : History Union.Orders :=
  outcome (historyStep searchOrder 64)
    (fun past action => ruled searchOrder 64 past.kernel action) (blank searchOrder)
    [.boot (some "/x/".toList), .boot (some "/y/".toList), .create,
      .nsBind 3 "/u/".toList "/x/".toList 0, .nsBind 3 "/u/".toList "/y/".toList 1]

theorem joined_reach : Reach (historyStep searchOrder 64)
    (fun past action => ruled searchOrder 64 past.kernel action) (blank searchOrder) joined :=
  outcome_reach _ _ (by decide)

theorem union_search_order_joined :
    nsTranslateCore (instances 64 joined.kernel) (joined.kernel.procs 3).mounts
        "/u/f".toList (1 : Nat) 64 = some (3, "f".toList) := by
  have longest : Longest (instances 64 joined.kernel) (joined.kernel.procs 3).mounts
      "/u/f".toList "/u/".toList := by
    refine ⟨by decide, .inl (by decide), ?_⟩
    have short : ∀ mount ∈ (joined.kernel.procs 3).mounts, mount.mountPrefix.length ≤ 3 := by
      decide
    exact fun mount member _ _ => short mount member
  refine (union_search_order 64 joined joined_reach 3 (by decide) (by decide) _ _
    longest 1 64).trans ?_
  decide

/-- The default mount of "/x/" is given up before "/y/" joins the union, so "/y/" gets
a slot below it and is visited first. -/
def beforeJoin : Kernel :=
  outcome (step 64) (fun _ _ => True) boot
    [.boot (some "/x/".toList), .boot (some "/y/".toList), .create,
      .nsBind 3 "/u/".toList "/x/".toList 0, .nsUnmount 3 "/x/".toList]

def afterJoin : Kernel :=
  outcome (step 64) (fun _ _ => True) beforeJoin [.nsBind 3 "/u/".toList "/y/".toList 1]

theorem joined_member_first :
    Reach (step 64) (fun _ _ => True) boot beforeJoin ∧
      unionAt (beforeJoin.procs 3).mounts "/u/".toList = [⟨2, 1, []⟩] ∧
      (sysNsBind 64 beforeJoin 3 "/u/".toList "/y/".toList 1).1 = 0 ∧
      Reach (step 64) (fun _ _ => True) beforeJoin afterJoin ∧
      nsTranslateCore (instances 64 afterJoin) (afterJoin.procs 3).mounts "/u/f".toList 0 64 =
        some (3, "f".toList) ∧
      nsTranslateCore (instances 64 afterJoin) (afterJoin.procs 3).mounts "/u/f".toList 1 64 =
        some (2, "f".toList) := by
  refine ⟨outcome_reach _ _ (by decide), by decide, by decide,
    outcome_reach _ _ (by decide), by decide, by decide⟩

end Racccoon.Namespace
