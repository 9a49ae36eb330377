import Racccoon.Env.Model

/-!
The inheritance of `env_maybe_inherit`: the copy loop takes free slots first and then the
slots of dead instances in their order, so that it never overwrites a variable of a dead
parent before it is copied. With a slot to spare the child ends up with every variable.
-/

namespace Racccoon.Env

open Racccoon.Slots

variable {live : Live} {child parent : Instance} {table : Table}

variable {e : Entry}
variable {i : Instance}

theorem Entry.owner_eq_some : e.owner = some i ↔ e.pid ≠ 0 ∧ e.pid = i.1 ∧ e.generation = i.2 := by
  unfold Entry.owner
  split
  · simp_all
  · rename_i pid
    constructor
    · rintro same
      obtain rfl := Option.some.inj same
      exact ⟨pid, rfl, rfl⟩
    · rintro ⟨-, first, second⟩
      exact congrArg some (Prod.ext first second)

theorem Entry.key_eq_some {name : Name} :
    e.key = some (i, name) ↔ e.owner = some i ∧ e.name = name := by
  unfold Entry.key
  cases owned : e.owner with
  | none => simp
  | some => simp

theorem owner_mk (pid : i.1 ≠ 0) (name : Name) (value : List Byte) :
    (Entry.mk i.1 i.2 name value).owner = some i :=
  Entry.owner_eq_some.2 ⟨pid, rfl, rfl⟩

theorem key_mk (pid : i.1 ≠ 0) (name : Name) (value : List Byte) :
    (Entry.mk i.1 i.2 name value).key = some (i, name) :=
  Entry.key_eq_some.2 ⟨owner_mk pid name value, rfl⟩

theorem vacant_of_owner (owned : e.owner = some i) : vacant live e = (live i.1 != some i.2) := by
  obtain ⟨pid, first, second⟩ := Entry.owner_eq_some.1 owned
  have used : (e.pid == 0) = false := by simpa using pid
  rw [vacant, dead, used, first, second, Bool.false_or]

theorem not_vacant_of_live (owned : e.owner = some i) (alive : live i.1 = some i.2) :
    vacant live e = false := by
  simp [vacant_of_owner owned, alive]

variable {slot : Nat}

theorem carries_iff (pid : i.1 ≠ 0) {name : Name} :
    (e.pid == i.1 && e.generation == i.2 && e.name == name) = true ↔ e.key = some (i, name) := by
  simp only [Entry.key_eq_some, Entry.owner_eq_some, Bool.and_eq_true, beq_iff_eq]
  constructor
  · rintro ⟨⟨first, second⟩, third⟩
    exact ⟨⟨first ▸ pid, first, second⟩, third⟩
  · rintro ⟨⟨-, first, second⟩, third⟩
    exact ⟨⟨first, second⟩, third⟩

theorem envFind_some_iff (distinct : Distinct Entry.key table) (pid : i.1 ≠ 0) {name : Name} :
    envFind table i name = some slot ↔ ∃ e, table[slot]? = some e ∧ e.key = some (i, name) := by
  unfold envFind
  rw [List.findIdx?_eq_some_iff_getElem]
  constructor
  · rintro ⟨inside, holds, -⟩
    exact ⟨_, List.getElem?_eq_getElem inside, (carries_iff pid).1 holds⟩
  · rintro ⟨e, held, key⟩
    obtain ⟨inside, rfl⟩ := List.getElem?_eq_some_iff.1 held
    refine ⟨inside, (carries_iff pid).2 key, fun other before holds => ?_⟩
    have otherInside : other < table.length := Nat.lt_trans before inside
    have same := distinct other slot _ _ _ (List.getElem?_eq_getElem otherInside) held
      ((carries_iff pid).1 holds) key
    omega

theorem envFind_none_iff (pid : i.1 ≠ 0) {name : Name} :
    envFind table i name = none ↔ lookup Entry.key table (i, name) = none := by
  unfold envFind
  rw [List.findIdx?_eq_none_iff, lookup_eq_none_iff]
  simp only [← Bool.not_eq_true, carries_iff pid, List.mem_iff_getElem?]
  exact ⟨fun none a e held => none e ⟨a, held⟩, fun none e ⟨a, held⟩ => none a e held⟩

/-- The slot that is found is free, or no slot is free and it is the first dead one. -/
theorem envFindFreeOrReclaim_some (found : envFindFreeOrReclaim live table = some slot) :
    ∃ e, table[slot]? = some e ∧ (e.pid = 0 ∨
      dead live e = true ∧ ∀ (a : Nat) f, a < slot → table[a]? = some f → dead live f = false) := by
  unfold envFindFreeOrReclaim at found
  cases free : table.findIdx? (·.pid == 0) with
  | some =>
    rw [free] at found
    obtain rfl := Option.some.inj found
    obtain ⟨inside, holds, -⟩ := List.findIdx?_eq_some_iff_getElem.1 free
    exact ⟨_, List.getElem?_eq_getElem inside, .inl (by simpa using holds)⟩
  | none =>
    rw [free] at found
    obtain ⟨inside, holds, earlier⟩ := List.findIdx?_eq_some_iff_getElem.1 found
    refine ⟨_, List.getElem?_eq_getElem inside, .inr ⟨holds, fun a f before held => ?_⟩⟩
    obtain ⟨_, rfl⟩ := List.getElem?_eq_some_iff.1 held
    simpa using earlier a before

theorem envFindFreeOrReclaim_isSome (some_vacant : 0 < table.countP (vacant live)) :
    ∃ slot, envFindFreeOrReclaim live table = some slot := by
  unfold envFindFreeOrReclaim
  obtain ⟨e, member, isVacant⟩ := List.countP_pos_iff.1 some_vacant
  cases free : table.findIdx? (·.pid == 0) with
  | some slot => exact ⟨slot, rfl⟩
  | none =>
    have used := List.findIdx?_eq_none_iff.1 free e member
    cases found : table.findIdx? (dead live) with
    | some slot => exact ⟨slot, rfl⟩
    | none =>
      have alive := List.findIdx?_eq_none_iff.1 found e member
      simp [vacant, used, alive] at isVacant

theorem vacant_of_found (found : envFindFreeOrReclaim live table = some slot)
    (held : table[slot]? = some e) : vacant live e = true := by
  obtain ⟨f, there, free | ⟨isDead, -⟩⟩ := envFindFreeOrReclaim_some found <;>
    obtain rfl := Option.some.inj (held.symm.trans there)
  · simp [vacant, free]
  · simp [vacant, isDead]

def Grown (live : Live) (child : Instance) (table after : Table) : Prop :=
  after.length = table.length ∧ ∀ (a : Nat) e, after[a]? = some e →
    table[a]? = some e ∨
      e.owner = some child ∧ ∃ old, table[a]? = some old ∧ vacant live old = true

theorem Grown.refl : Grown live child table table := ⟨rfl, fun _ _ held => .inl held⟩

theorem Grown.set {after : Table} (grown : Grown live child table after) (pid : child.1 ≠ 0)
    (alive : live child.1 = some child.2) (found : envFindFreeOrReclaim live after = some slot)
    (name : Name) (value : List Byte) :
    Grown live child table (after.set slot ⟨child.1, child.2, name, value⟩) := by
  refine ⟨by rw [List.length_set, grown.1], fun a e held => ?_⟩
  rcases getElem?_set_cases held with ⟨rfl, rfl, inside⟩ | ⟨-, there⟩
  · refine .inr ⟨owner_mk pid name value, ?_⟩
    obtain ⟨old, was, -⟩ := envFindFreeOrReclaim_some found
    have isVacant := vacant_of_found found was
    rcases grown.2 a old was with same | ⟨owned, -⟩
    · exact ⟨old, same, isVacant⟩
    · rw [not_vacant_of_live owned alive] at isVacant
      cases isVacant
  · exact grown.2 a e there

theorem Grown.others {after : Table} (grown : Grown live child table after) (other : i ≠ child)
    {a : Nat} (held : after[a]? = some e) (owned : e.owner = some i) : table[a]? = some e := by
  rcases grown.2 a e held with same | ⟨owner, -⟩
  · exact same
  · exact absurd (Option.some.inj (owned.symm.trans owner)) other

theorem parentVar_iff (pid : parent.1 ≠ 0) :
    parentVar parent e = true ↔ e.owner = some parent ∧ e.name ≠ inheritedMarker := by
  simp only [parentVar, Entry.owner_eq_some, Bool.and_eq_true, beq_iff_eq, bne_iff_ne]
  constructor
  · rintro ⟨⟨first, second⟩, third⟩
    exact ⟨⟨first ▸ pid, first, second⟩, third⟩
  · rintro ⟨⟨-, first, second⟩, third⟩
    exact ⟨⟨first, second⟩, third⟩

def Holds (table : Table) (i : Instance) (name : Name) (value : List Byte) : Prop :=
  ∃ (a : Nat) (e : Entry), table[a]? = some e ∧ e.key = some (i, name) ∧ e.value = value

/-- A variable of the parent stands in front of index `i`. -/
def ParentHolds (table : Table) (parent : Instance) (i : Nat) (name : Name)
    (value : List Byte) : Prop :=
  ∃ (a : Nat) (e : Entry), a < i ∧ table[a]? = some e ∧ parentVar parent e = true ∧
    e.name = name ∧ e.value = value

/-- The loop has copied the parent's variables in front of index `i`. -/
structure Copied (live : Live) (child parent : Instance) (table : Table) (i : Nat)
    (now : Table) : Prop where
  grown : Grown live child table now
  distinct : Distinct Entry.key now
  /-- The child has just those variables. -/
  copies : ∀ name value, Holds now child name value ↔ ParentHolds table parent i name value
  /-- What is still to be copied has not been overwritten. -/
  unread : ∀ (a : Nat) (e : Entry), i ≤ a → table[a]? = some e → parentVar parent e = true →
    now[a]? = some e
  /-- Every copy has taken one vacant slot. -/
  spent : now.countP (vacant live) + (table.take i).countP (parentVar parent) =
    table.countP (vacant live)

theorem countP_take_succ (p : Entry → Bool) {i : Nat} (held : table[i]? = some e) :
    (table.take (i + 1)).countP p = (table.take i).countP p + if p e then 1 else 0 := by
  rw [List.take_add_one, held]
  simp [List.countP_cons]

theorem parentHolds_succ {i : Nat} (held : table[i]? = some e) (name : Name) (value : List Byte) :
    ParentHolds table parent (i + 1) name value ↔
      ParentHolds table parent i name value ∨
        (parentVar parent e = true ∧ e.name = name ∧ e.value = value) := by
  constructor
  · rintro ⟨a, f, before, there, isVar, rest⟩
    by_cases last : a = i
    · subst last
      obtain rfl := Option.some.inj (held.symm.trans there)
      exact .inr ⟨isVar, rest⟩
    · exact .inl ⟨a, f, by omega, there, isVar, rest⟩
  · rintro (⟨a, f, before, rest⟩ | ⟨isVar, rest⟩)
    · exact ⟨a, f, by omega, rest⟩
    · exact ⟨i, e, by omega, held, isVar, rest⟩

theorem Copied.pass {now : Table} {i : Nat} (copied : Copied live child parent table i now)
    (held : now[i]? = some e) (skipped : parentVar parent e = false) :
    Copied live child parent table (i + 1) now := by
  have inside : i < table.length := by
    rw [← copied.grown.1]
    exact (List.getElem?_eq_some_iff.1 held).1
  have was := List.getElem?_eq_getElem inside
  have notVar : parentVar parent table[i] = false := by
    rw [← Bool.not_eq_true]
    intro isVar
    obtain rfl := Option.some.inj (held.symm.trans (copied.unread i _ (Nat.le_refl _) was isVar))
    rw [skipped] at isVar
    cases isVar
  refine ⟨copied.grown, copied.distinct, fun name value => ?_, fun a f later => ?_, ?_⟩
  · rw [copied.copies, parentHolds_succ was, notVar]
    simp
  · exact copied.unread a f (by omega)
  · rw [countP_take_succ _ was, notVar]
    simpa using copied.spent

/-- A variable of the parent is copied to the slot that is found. -/
theorem Copied.copy (childPid : child.1 ≠ 0) (parentPid : parent.1 ≠ 0) (apart : child ≠ parent)
    (alive : live child.1 = some child.2) (tableDistinct : Distinct Entry.key table) {now : Table}
    {i : Nat} (copied : Copied live child parent table i now) (held : now[i]? = some e)
    (isVar : parentVar parent e = true) (fits : e.name.length < envNameMax)
    (found : envFindFreeOrReclaim live now = some slot) :
    Copied live child parent table (i + 1)
      (now.set slot ⟨child.1, child.2, envCopyName e.name, e.value⟩) := by
  have whole : envCopyName e.name = e.name := by
    apply List.take_of_length_le
    omega
  rw [whole]
  obtain ⟨owned, named⟩ := (parentVar_iff parentPid).1 isVar
  have was : table[i]? = some e := copied.grown.others (Ne.symm apart) held owned
  obtain ⟨old, there, place⟩ := envFindFreeOrReclaim_some found
  have oldVacant := vacant_of_found found there
  have inside : slot < now.length := (List.getElem?_eq_some_iff.1 there).1
  -- Nothing the child owns stands in the slot.
  have oldOwner : old.owner ≠ some child := by
    intro owner
    rw [not_vacant_of_live owner alive] at oldVacant
    cases oldVacant
  have newDistinct : Distinct Entry.key (now.set slot ⟨child.1, child.2, e.name, e.value⟩) := by
    refine copied.distinct.set fun a f k away heldF carries same => ?_
    rw [key_mk childPid] at carries
    obtain rfl := Option.some.inj carries
    obtain ⟨b, g, before, heldG, varG, nameG, -⟩ :=
      (copied.copies e.name f.value).1 ⟨a, f, heldF, same, rfl⟩
    obtain ⟨ownerG, -⟩ := (parentVar_iff parentPid).1 varG
    have := tableDistinct b i g e (parent, e.name) heldG was
      (Entry.key_eq_some.2 ⟨ownerG, nameG⟩) (Entry.key_eq_some.2 ⟨owned, rfl⟩)
    omega
  refine ⟨copied.grown.set childPid alive found _ _, newDistinct, fun name value => ?_,
    fun a f later heldF varF => ?_, ?_⟩
  · rw [parentHolds_succ was, ← copied.copies]
    constructor
    · rintro ⟨a, f, heldF, key, valued⟩
      rcases getElem?_set_cases heldF with ⟨-, rfl, -⟩ | ⟨-, heldF⟩
      · rw [key_mk childPid] at key
        obtain rfl := (Prod.mk.inj (Option.some.inj key)).2
        exact .inr ⟨isVar, rfl, valued⟩
      · exact .inl ⟨a, f, heldF, key, valued⟩
    · rintro (⟨a, f, heldF, key, valued⟩ | ⟨-, rfl, rfl⟩)
      · refine ⟨a, f, ?_, key, valued⟩
        rw [List.getElem?_set_ne, heldF]
        rintro rfl
        obtain rfl := Option.some.inj (there.symm.trans heldF)
        exact oldOwner (Entry.key_eq_some.1 key).1
      · exact ⟨slot, _, List.getElem?_set_self inside, key_mk childPid _ _, rfl⟩
  · have unmoved := copied.unread a f (by omega) heldF varF
    rw [List.getElem?_set_ne, unmoved]
    rintro rfl
    -- A dead slot in front of it would have been taken: the parent's own at index `i`.
    obtain ⟨ownerF, -⟩ := (parentVar_iff parentPid).1 varF
    obtain rfl := Option.some.inj (there.symm.trans unmoved)
    rcases place with free | ⟨isDead, earlier⟩
    · exact (Entry.owner_eq_some.1 ownerF).1 free
    · have aliveE := earlier i e (by omega) held
      obtain ⟨-, pidE, genE⟩ := Entry.owner_eq_some.1 owned
      obtain ⟨-, pidF, genF⟩ := Entry.owner_eq_some.1 ownerF
      rw [dead, pidE, genE] at aliveE
      rw [dead, pidF, genF, aliveE] at isDead
      cases isDead
  · have positive : 0 < now.countP (vacant live) :=
      List.countP_pos_iff.2 ⟨old, List.mem_of_getElem? there, oldVacant⟩
    have oldIs : now[slot] = old := Option.some.inj
      ((List.getElem?_eq_getElem inside).symm.trans there)
    have newUsed : vacant live ⟨child.1, child.2, e.name, e.value⟩ = false :=
      not_vacant_of_live (owner_mk childPid _ _) alive
    rw [List.countP_set inside, oldIs, oldVacant, newUsed, countP_take_succ _ was, isVar]
    have := copied.spent
    simp only [if_true, Bool.false_eq_true, if_false]
    omega

theorem copyLoop_copied (childPid : child.1 ≠ 0) (parentPid : parent.1 ≠ 0)
    (apart : child ≠ parent) (alive : live child.1 = some child.2)
    (distinct : Distinct Entry.key table) (fit : ∀ e ∈ table, e.name.length < envNameMax)
    (room : table.countP (parentVar parent) < table.countP (vacant live)) (count i : Nat)
    (now : Table) (copied : Copied live child parent table i now)
    (whole : i + count = table.length) :
    Copied live child parent table table.length (copyLoop live child parent count i now) := by
  induction count generalizing i now with
  | zero =>
    obtain rfl : i = table.length := by omega
    exact copied
  | succ _ ih =>
    have inside : i < now.length := by
      rw [copied.grown.1]
      omega
    have held := List.getElem?_eq_getElem inside
    rw [copyLoop, held]
    dsimp only
    by_cases isVar : parentVar parent now[i] = true
    · obtain ⟨owned, -⟩ := (parentVar_iff parentPid).1 isVar
      have was := copied.grown.others (Ne.symm apart) held owned
      have more : (table.take i).countP (parentVar parent) ≤ table.countP (parentVar parent) :=
        (List.take_sublist i table).countP_le
      have spent := copied.spent
      have room : 0 < now.countP (vacant live) := by omega
      obtain ⟨slot, found⟩ := envFindFreeOrReclaim_isSome room
      rw [if_pos isVar, found]
      exact ih (i + 1) _ (copied.copy childPid parentPid apart alive distinct held isVar
        (fit _ (List.mem_of_getElem? was)) found) (by omega)
    · rw [if_neg isVar]
      exact ih (i + 1) now (copied.pass held (by simpa using isVar)) (by omega)

def parentCount (parent : Option Instance) (table : Table) : Nat :=
  match parent with
  | none => 0
  | some parent => table.countP (parentVar parent)

def Room (live : Live) (parent : Option Instance) (table : Table) : Prop :=
  parentCount parent table < table.countP (vacant live)

section
variable {parent : Option Instance} (childPid : child.1 ≠ 0)
  (parentPid : ∀ p, parent = some p → p.1 ≠ 0 ∧ child ≠ p) (alive : live child.1 = some child.2)
  (size : table.length = envMax) (distinct : Distinct Entry.key table)
  (fit : ∀ e ∈ table, e.name.length < envNameMax) (none_yet : ∀ e ∈ table, e.owner ≠ some child)
  (room : Room live parent table)
include childPid parentPid alive size distinct fit none_yet room

/-- What the copying leaves, before the marker is set. -/
theorem copied_first :
    Grown live child table (copyVars live parent table child) ∧
      Distinct Entry.key (copyVars live parent table child) ∧
      (∀ name value, Holds (copyVars live parent table child) child name value ↔
        name ≠ inheritedMarker ∧ ∃ p, parent = some p ∧ Holds table p name value) ∧
      0 < (copyVars live parent table child).countP (vacant live) := by
  have nothing : ∀ name value, ¬ Holds table child name value := by
    rintro name value ⟨a, e, held, key, -⟩
    exact none_yet e (List.mem_of_getElem? held) (Entry.key_eq_some.1 key).1
  cases parent with
  | none =>
    refine ⟨.refl, distinct, fun name value => ?_, Nat.zero_lt_of_lt room⟩
    change Holds table child name value ↔ _
    simp [nothing]
  | some parent =>
    obtain ⟨pid, apart⟩ := parentPid parent rfl
    have start : Copied live child parent table 0 table := by
      refine ⟨.refl, distinct, fun name value => ?_, fun a e _ held _ => held, by simp⟩
      simp [nothing, ParentHolds]
    have done := copyLoop_copied childPid pid apart alive distinct fit room envMax 0 table start
      (by omega)
    refine ⟨done.grown, done.distinct, fun name value => ?_, ?_⟩
    · change Holds (copyLoop live child parent envMax 0 table) child name value ↔ _
      rw [done.copies]
      constructor
      · rintro ⟨a, e, -, held, isVar, rfl, rfl⟩
        obtain ⟨owned, named⟩ := (parentVar_iff pid).1 isVar
        exact ⟨named, parent, rfl, a, e, held, Entry.key_eq_some.2 ⟨owned, rfl⟩, rfl⟩
      · rintro ⟨named, p, same, a, e, held, key, valued⟩
        obtain rfl := Option.some.inj same
        obtain ⟨owned, rfl⟩ := Entry.key_eq_some.1 key
        exact ⟨a, e, (List.getElem?_eq_some_iff.1 held).1, held,
          (parentVar_iff pid).2 ⟨owned, named⟩, rfl, valued⟩
    · have spent := done.spent
      rw [List.take_length] at spent
      have left : table.countP (parentVar parent) < table.countP (vacant live) := room
      rw [copyVars]
      omega

/-- With room, the first request leaves the child with the parent's variables and marked. -/
theorem envMaybeInherit_first :
    Grown live child table (envMaybeInherit live parent table child) ∧
      Distinct Entry.key (envMaybeInherit live parent table child) ∧
      (∀ name value, name ≠ inheritedMarker →
        (Holds (envMaybeInherit live parent table child) child name value ↔
          ∃ p, parent = some p ∧ Holds table p name value)) ∧
      ∃ value, Holds (envMaybeInherit live parent table child) child inheritedMarker value := by
  have unmarked : envFind table child inheritedMarker = none := by
    rw [envFind_none_iff childPid, lookup_eq_none_iff]
    intro a e held key
    exact none_yet e (List.mem_of_getElem? held) (Entry.key_eq_some.1 key).1
  obtain ⟨grown, nowDistinct, copies, left⟩ :=
    copied_first childPid parentPid alive size distinct fit none_yet room
  unfold envMaybeInherit
  rw [unmarked]
  generalize copyVars live parent table child = now at *
  obtain ⟨slot, found⟩ := envFindFreeOrReclaim_isSome left
  rw [if_neg (by simp)]
  dsimp only
  rw [found]
  obtain ⟨old, there, -⟩ := envFindFreeOrReclaim_some found
  have inside : slot < now.length := (List.getElem?_eq_some_iff.1 there).1
  have oldOwner : old.owner ≠ some child := by
    intro owner
    have isVacant := vacant_of_found found there
    rw [not_vacant_of_live owner alive] at isVacant
    cases isVacant
  refine ⟨grown.set childPid alive found _ _, ?_, fun name value other => ?_, ?_⟩
  · refine nowDistinct.set fun a f k away held carries same => ?_
    rw [key_mk childPid] at carries
    obtain rfl := Option.some.inj carries
    exact ((copies inheritedMarker f.value).1 ⟨a, f, held, same, rfl⟩).1 rfl
  · rw [← and_iff_right (a := name ≠ inheritedMarker) other (b := ∃ p, _), ← copies]
    constructor
    · rintro ⟨a, f, held, key, valued⟩
      rcases getElem?_set_cases held with ⟨-, rfl, -⟩ | ⟨-, held⟩
      · rw [key_mk childPid] at key
        exact absurd (Prod.mk.inj (Option.some.inj key)).2.symm other
      · exact ⟨a, f, held, key, valued⟩
    · rintro ⟨a, f, held, key, valued⟩
      refine ⟨a, f, ?_, key, valued⟩
      rw [List.getElem?_set_ne, held]
      rintro rfl
      obtain rfl := Option.some.inj (there.symm.trans held)
      exact oldOwner (Entry.key_eq_some.1 key).1
  · exact ⟨_, slot, _, List.getElem?_set_self inside, key_mk childPid _ _, rfl⟩

end
theorem envMaybeInherit_marked {parent : Option Instance}
    (marked : envFind table child inheritedMarker ≠ none) :
    envMaybeInherit live parent table child = table := by
  unfold envMaybeInherit
  rw [if_pos]
  exact Option.isSome_iff_ne_none.2 marked

end Racccoon.Env
