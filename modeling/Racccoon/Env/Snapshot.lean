import Racccoon.Env.World
import Mathlib.Data.List.Induction
import Mathlib.Data.List.Nodup

/-!
Inheritance as one snapshot: the first request of an instance leaves it with the complete map
of its parent, and from then on only its own requests change its map.
-/

namespace Racccoon.Env

open Racccoon.Run Racccoon.Slots

variable (w : World)

def completeMap (i : Instance) : EnvMap :=
  if w.live i.1 = some i.2 then mapOf w.table i else w.atExit i

def parentMap (i : Instance) : EnvMap :=
  match w.parent i with
  | none => fun _ => none
  | some p => completeMap w p

def ParentIntact (i : Instance) : Prop :=
  ∀ p, w.parent i = some p → mapOf w.table p = completeMap w p

def FitsExactly (action : Action) : Prop :=
  Fits w action ∧ match action with
    | .request i request =>
      request.verb = .other ∨ (envFind w.table i inheritedMarker = none → ParentIntact w i)
    | _ => True

variable {table after : Table} {i p : Instance}

theorem mapOf_eq_of_holds (distinct : Distinct Entry.key table) (distinct' : Distinct Entry.key after)
    (same : ∀ name value, name ≠ inheritedMarker →
      (Holds after i name value ↔ Holds table p name value)) :
    mapOf after i = mapOf table p := by
  funext name
  unfold mapOf
  cases hidden : reserved name with
  | true => rfl
  | false =>
    have shown : name ≠ inheritedMarker := by
      rintro rfl
      cases hidden
    have texts : ∀ value, (∃ e, lookup Entry.key after (i, name) = some e ∧ e.value = value) ↔
        ∃ e, lookup Entry.key table (p, name) = some e ∧ e.value = value := by
      intro value
      rw [← holds_iff_lookup distinct', ← holds_iff_lookup distinct, same name value shown]
    cases found : lookup Entry.key after (i, name) with
    | none =>
      cases found' : lookup Entry.key table (p, name) with
      | none => rfl
      | some e =>
        obtain ⟨f, there, -⟩ := (texts e.value).2 ⟨e, found', rfl⟩
        rw [found] at there
        cases there
    | some e =>
      obtain ⟨f, there, valued⟩ := (texts e.value).1 ⟨e, found, rfl⟩
      rw [there, Option.map_some, Option.map_some, valued]

theorem mapOf_nothing (none_there : ∀ name value, name ≠ inheritedMarker →
    ¬ Holds after i name value) (distinct : Distinct Entry.key after) :
    mapOf after i = fun _ => none := by
  funext name
  unfold mapOf
  cases hidden : reserved name with
  | true => rfl
  | false =>
    have shown : name ≠ inheritedMarker := by
      rintro rfl
      cases hidden
    cases found : lookup Entry.key after (i, name) with
    | none => rfl
    | some e =>
      exact absurd ((holds_iff_lookup distinct).2 ⟨e, found, rfl⟩) (none_there name e.value shown)

/-- The first request takes over what the table holds of the parent. -/
theorem first_map {w : World} (inv : Inv w) (known : i ∈ w.lived)
    (alive : w.live i.1 = some i.2) (unmarked : envFind w.table i inheritedMarker = none)
    (room : Room w.live (parentInfo w i.1) w.table) :
    mapOf (inherited w i) i =
      match w.parent i with
      | none => fun _ => none
      | some p => mapOf w.table p := by
  have parentPid : ∀ p, parentInfo w i.1 = some p → p.1 ≠ 0 ∧ i ≠ p := by
    intro p is
    rw [parentInfo_live alive] at is
    obtain ⟨lived, apart⟩ := inv.parents i p is
    exact ⟨inv.pids p lived, apart⟩
  obtain ⟨-, distinct, holds, -⟩ := envMaybeInherit_first (inv.pids i known) parentPid alive
    inv.tidy.size inv.tidy.distinct (fun e member => (inv.tidy.sound e member).1)
    (inv.unmarked alive unmarked) room
  rw [parentInfo_live alive] at distinct holds
  have is : inherited w i = envMaybeInherit w.live (w.parent i) w.table i := by
    rw [inherited, parentInfo_live alive]
  rw [is]
  cases parent : w.parent i with
  | none =>
    rw [parent] at distinct holds
    refine mapOf_nothing (fun name value shown held => ?_) distinct
    obtain ⟨p, absurdity, -⟩ := (holds name value shown).1 held
    cases absurdity
  | some p =>
    rw [parent] at distinct holds
    refine mapOf_eq_of_holds inv.tidy.distinct distinct fun name value shown => ?_
    rw [holds name value shown]
    constructor
    · rintro ⟨p', same, held⟩
      obtain rfl := Option.some.inj same
      exact held
    · exact fun held => ⟨p, rfl, held⟩

theorem exactly_inv {w : World} (run : Reach step FitsExactly boot w) : Inv w :=
  run.invariant Inv boot_inv fun _ _ _ inv fits stepped => step_inv inv fits.1 stepped

/-- Steps of others leave the map of a live instance alone. -/
theorem mapOf_step {w next : World} (inv : Inv w) (alive : w.live i.1 = some i.2) {action : Action}
    (fits : Fits w action) (stepped : step w action = some next)
    (others : ∀ request, action ≠ .request i request) : mapOf next.table i = mapOf w.table i := by
  cases action with
  | starts =>
    simp only [step] at stepped
    split at stepped
    · cases stepped
    · obtain rfl := Option.some.inj stepped
      rfl
  | exits =>
    simp only [step, Option.map_eq_some_iff] at stepped
    obtain ⟨generation, -, rfl⟩ := stepped
    rfl
  | request j request =>
    simp only [step] at stepped
    split at stepped
    · rename_i known
      obtain rfl := Option.some.inj stepped
      have apart : i ≠ j := by
        rintro rfl
        exact others request rfl
      rcases fits with other | fits
      · obtain ⟨verb, name⟩ := request
        obtain rfl : verb = .other := other
        rfl
      · by_cases supported : request.verb = .other
        · obtain ⟨verb, name⟩ := request
          obtain rfl : verb = .other := supported
          rfl
        · obtain ⟨ready, changed⟩ := served_changed inv known supported fits
          have touched := ready.touched.trans changed.touched
          have tidy := changed.tidy ready.tidy
          exact mapOf_eq_of_lookup fun name => touched.lookup_eq tidy.distinct apart alive name
    · cases stepped

/-- In a run where first requests find room and their parents' variables, inheritance is one
exact snapshot: the first request brings exactly the parent's map, later ones bring nothing,
and only the instance's own requests change its map. -/
theorem inherits_exactly_once {w : World} (run : Reach step FitsExactly boot w)
    (alive : w.live i.1 = some i.2) :
    (∀ request, request.verb ≠ .other → FitsExactly w (.request i request) →
      (i ∉ w.asked → mapOf (inherited w i) i = parentMap w i) ∧
      (i ∈ w.asked → inherited w i = w.table)) ∧
    ∀ action next, FitsExactly w action → step w action = some next →
      (∀ request, action ≠ .request i request) → mapOf next.table i = mapOf w.table i := by
  have inv := exactly_inv run
  have known := inv.liveLived i alive
  refine ⟨fun request supported fits => ⟨fun new => ?_, fun asked => ?_⟩,
    fun action next fits stepped others => mapOf_step inv alive fits.1 stepped others⟩
  · have unmarked : envFind w.table i inheritedMarker = none := by
      rw [envFind_none_iff (inv.pids i known), lookup_eq_none_iff]
      intro a e held key
      exact new (inv.owners e (List.mem_of_getElem? held) i (Entry.key_eq_some.1 key).1)
    have room := ((fits.1.resolve_left supported).1 unmarked).2
    have intact := (fits.2.resolve_left supported) unmarked
    rw [first_map inv known alive unmarked room, parentMap]
    cases parent : w.parent i with
    | none => rfl
    | some p => exact intact p parent
  · exact envMaybeInherit_marked (inv.marked i asked alive)

def started : World :=
  { boot with
    live := Function.update boot.live 1 (some 1)
    lived := [(1, 1)]
    parent := Function.update boot.parent (1, 1) none }

def firstWrite : Request := ⟨.write [0x76], [0x61]⟩

def written : World :=
  { started with table := (served started (1, 1) firstWrite).1, asked := [(1, 1)] }

def forked : World :=
  { written with
    live := Function.update written.live 2 (some 1)
    lived := [(2, 1), (1, 1)]
    parent := Function.update written.parent (2, 1) (some (1, 1)) }

set_option maxRecDepth 4000

theorem forked_reached : Reach step FitsExactly boot forked := by
  have atStarted : Reach step FitsExactly boot started :=
    Reach.start.next (.starts (1, 1) none) ⟨trivial, trivial⟩ rfl
  have atWritten : Reach step FitsExactly boot written := by
    refine atStarted.next (.request (1, 1) firstWrite) ⟨.inr ⟨fun _ => ⟨rfl, ?_⟩, .inr ?_⟩, .inr ?_⟩ rfl
    · have : parentCount (parentInfo started 1) started.table <
          started.table.countP (vacant started.live) := by decide
      exact this
    · decide
    · exact fun _ p is => nomatch is
  exact atWritten.next (.starts (2, 1) (some (1, 1))) ⟨trivial, trivial⟩ rfl

/-- The child of a process with one variable inherits it. -/
theorem forked_inherits :
    mapOf (inherited forked (2, 1)) (2, 1) = parentMap forked (2, 1) ∧
      parentMap forked (2, 1) [0x61] = some [0x76] := by
  have room : parentCount (parentInfo forked 2) forked.table <
      forked.table.countP (vacant forked.live) := by decide
  have intact : ParentIntact forked (2, 1) := by
    intro p is
    obtain rfl := Option.some.inj is
    rfl
  have fits : FitsExactly forked (.request (2, 1) ⟨.read, [0x61]⟩) :=
    ⟨.inr ⟨fun _ => ⟨rfl, room⟩, trivial⟩, .inr fun _ => intact⟩
  exact ⟨((inherits_exactly_once forked_reached rfl).1 ⟨.read, [0x61]⟩ nofun fits).1 (by decide),
    by decide⟩

def blank : Entry := ⟨0, 0, [], List.replicate envValueMax 0⟩

def variableOf (name : Name) : Entry :=
  ⟨1, 1, name, putValue (List.replicate envValueMax 0) 0 [0x76]⟩

variable (names : List Name)

def filled : Table :=
  ⟨1, 1, inheritedMarker, List.replicate envValueMax 0⟩ ::
    (names.map variableOf ++ List.replicate (envMax - 1 - names.length) blank)

def crowded : World :=
  { boot with
    table := filled names
    live := Function.update boot.live 1 (some 1)
    lived := [(1, 1)]
    parent := Function.update boot.parent (1, 1) none
    asked := List.replicate (names.length + 1) (1, 1) }

theorem filled_new {names : List Name} {name : Name} (new : name ∉ names)
    (shown : reserved name = false) : envFind (filled names) (1, 1) name = none := by
  have marker : inheritedMarker ≠ name := by
    rintro rfl
    cases shown
  unfold envFind
  rw [List.findIdx?_eq_none_iff]
  intro e member
  simp only [filled, List.mem_cons, List.mem_append, List.mem_map, List.mem_replicate] at member
  rcases member with rfl | ⟨other, there, rfl⟩ | ⟨-, rfl⟩
  · simpa using marker
  · have : other ≠ name := fun same => new (same ▸ there)
    simpa [variableOf] using this
  · rfl

theorem filled_free {names : List Name} (room : names.length < envMax - 1) (live : Live) :
    envFindFreeOrReclaim live (filled names) = some (names.length + 1) := by
  have free : (filled names).findIdx? (·.pid == 0) = some (names.length + 1) := by
    obtain ⟨more, is⟩ : ∃ more, envMax - 1 - names.length = more + 1 := ⟨_, (Nat.succ_pred (by omega)).symm⟩
    have used : (names.map variableOf).findIdx? (·.pid == 0) = none := by
      rw [List.findIdx?_eq_none_iff]
      intro e member
      obtain ⟨name, -, rfl⟩ := List.mem_map.1 member
      rfl
    simp [filled, List.findIdx?_cons, used, is, blank]
  simp [envFindFreeOrReclaim, free]

theorem filled_set {names : List Name} {name : Name} (room : names.length < envMax - 1) :
    (filled names).set (names.length + 1) (variableOf name) = filled (names ++ [name]) := by
  obtain ⟨more, is⟩ : ∃ more, envMax - 1 - names.length = more + 1 :=
    ⟨_, (Nat.succ_pred (by omega)).symm⟩
  have rest : envMax - 1 - (names.length + 1) = more := by omega
  simp [filled, is, rest, List.replicate_succ]

theorem crowded_write {names : List Name} {name : Name} (room : names.length < envMax - 1)
    (new : name ∉ names) (shown : reserved name = false) (short : name.length < envNameMax) :
    step (crowded names) (.request (1, 1) ⟨.write [0x76], name⟩) =
      some (crowded (names ++ [name])) := by
  have raw : rawValue (filled names) (names.length + 1) = List.replicate envValueMax 0 := by
    obtain ⟨more, is⟩ : ∃ more, envMax - 1 - names.length = more + 1 :=
      ⟨_, (Nat.succ_pred (by omega)).symm⟩
    simp [rawValue, filled, is, blank]
  have written : (served (crowded names) (1, 1) ⟨.write [0x76], name⟩).1 =
      filled (names ++ [name]) := by
    have is : served (crowded names) (1, 1) ⟨.write [0x76], name⟩ =
        envWrite (crowded names).live (filled names) (1, 1) name [0x76] := by
      rfl
    rw [is, ← filled_set room]
    simp only [envWrite, writeSlot, shown, filled_new new shown, filled_free room, raw,
      envCopyName_eq short, Bool.false_eq_true, if_false, if_true]
    rfl
  rw [step, written]
  simp [crowded, List.replicate_succ]

theorem crowded_reached (small : names.length ≤ envMax - 1) (nodup : names.Nodup)
    (plain : ∀ name ∈ names, reserved name = false ∧ name.length < envNameMax) :
    Reach step (fun _ _ => True) boot (crowded names) := by
  induction names using List.reverseRecOn with
  | nil =>
    have starts : step boot (.starts (1, 1) none) = some started := rfl
    have marks : (served started (1, 1) ⟨.read, []⟩).1 = filled [] := by decide
    refine (Reach.start.next (.starts (1, 1) none) trivial starts).next
      (.request (1, 1) ⟨.read, []⟩) trivial ?_
    rw [step, marks]
    rfl
  | append_singleton _ name ih =>
    rw [List.length_append, List.length_singleton] at small
    obtain ⟨before, -, apart⟩ := List.nodup_append.1 nodup
    obtain ⟨shown, short⟩ := plain name (by simp)
    refine (ih (by omega) before fun other member => plain other (by simp [member])).next
      (.request (1, 1) ⟨.write [0x76], name⟩) trivial
      (crowded_write (by omega) (fun member => ?_) shown short)
    exact apart name member name (by simp) rfl

/-- 255 names of two letters. -/
def manyNames : List Name :=
  (List.range (envMax - 1)).map fun k =>
    [BitVec.ofNat 8 (97 + k % 16), BitVec.ofNat 8 (97 + k / 16)]

theorem manyNames_nodup : manyNames.Nodup := by
  refine List.Nodup.map_on ?_ List.nodup_range
  intro a small b small' same
  simp only [List.mem_range, envMax] at small small'
  simp only [List.cons.injEq, and_true] at same
  have low := congrArg BitVec.toNat same.1
  have high := congrArg BitVec.toNat same.2
  simp only [BitVec.toNat_ofNat] at low high
  omega

theorem manyNames_plain : ∀ name ∈ manyNames, reserved name = false ∧ name.length < envNameMax := by
  intro name member
  obtain ⟨k, -, rfl⟩ := List.mem_map.1 member
  refine ⟨?_, by simp [envNameMax]⟩
  have apart : BitVec.ofNat 8 (97 + k % 16) ≠ dot := by
    intro same
    have := congrArg BitVec.toNat same
    have is : dot.toNat = 46 := rfl
    rw [BitVec.toNat_ofNat] at this
    omega
  simpa [reserved] using apart

/-- The parent has filled the table with its variables when its child starts. -/
def crowdedFork : World :=
  { crowded manyNames with
    live := Function.update (crowded manyNames).live 2 (some 1)
    lived := [(2, 1), (1, 1)]
    parent := Function.update (crowded manyNames).parent (2, 1) (some (1, 1)) }

/-- The child of a live parent with 255 variables reads nothing: its first request inherits
none of them and is not refused, it lists no name, and there is no marker that it has come. -/
theorem full_table_inherits_nothing :
    Reach step (fun _ _ => True) boot crowdedFork ∧
      mapOf (inherited crowdedFork (2, 1)) (2, 1) [0x61, 0x61] = none ∧
      parentMap crowdedFork (2, 1) [0x61, 0x61] = some [0x76] ∧
      (served crowdedFork (2, 1) ⟨.list 0, []⟩).2 = .names [] ∧
      envFind (inherited crowdedFork (2, 1)) (2, 1) inheritedMarker = none := by
  refine ⟨?_, by decide, by decide, by decide, by decide⟩
  refine (crowded_reached manyNames (by simp [manyNames]) manyNames_nodup manyNames_plain).next
    (.starts (2, 1) (some (1, 1))) trivial ?_
  rfl

end Racccoon.Env
