import Racccoon.Env.Inherit
import Racccoon.Lib.Run

/-!
The server among the processes: instances start, fork, exit and send requests in any order.
As long as names fit and a first request finds room, the table keeps one entry for each
variable, the marker of every live instance that has asked, and nothing of those that have not.
-/

namespace Racccoon.Env

open Racccoon.Slots

abbrev EnvMap := Name → Option (List Byte)

def mapOf (table : Table) (i : Instance) : EnvMap := fun name =>
  if reserved name then none
  else (lookup Entry.key table (i, name)).map fun e => text e.value

structure World where
  table : Table
  live : Live
  /-- Every instance that ever started, and the instance it was forked from. -/
  lived : List Instance
  parent : Instance → Option Instance
  /-- The instances that have sent a request, and what the dead ones had when they exited. The
  server keeps neither. -/
  asked : List Instance
  atExit : Instance → EnvMap

def boot : World where
  table := List.replicate envMax ⟨0, 0, [], List.replicate envValueMax 0⟩
  live := fun _ => none
  lived := []
  parent := fun _ => none
  asked := []
  atExit := fun _ _ => none

inductive Action where
  | starts (i : Instance) (parent : Option Instance)
  | exits (pid : Nat)
  | request (i : Instance) (request : Request)

variable (w : World)

/-- `parent_info`: it is asked by pid. -/
def parentInfo (pid : Nat) : Option Instance :=
  (w.live pid).bind fun generation => w.parent (pid, generation)

variable (i : Instance)

def inherited : Table :=
  envMaybeInherit w.live (parentInfo w i.1) w.table i

def served (request : Request) : Table × Reply :=
  serve w.live (parentInfo w i.1) w.table i request

def step : Action → Option World
  | .starts i parent =>
    if i.1 = 0 ∨ i ∈ w.lived ∨ w.live i.1 ≠ none ∨
        parent.any (fun p => w.live p.1 != some p.2) then none
    else some { w with
      live := Function.update w.live i.1 (some i.2)
      lived := i :: w.lived
      parent := Function.update w.parent i parent }
  | .exits pid =>
    (w.live pid).map fun generation => { w with
      live := Function.update w.live pid none
      atExit := Function.update w.atExit (pid, generation) (mapOf w.table (pid, generation)) }
  | .request i request =>
    if i ∈ w.lived then
      some { w with
        table := (served w i request).1
        asked := if request.verb matches .other then w.asked else i :: w.asked }
    else none

/-- A name that is stored fits, and no value is written past its end. -/
def WriteFits (request : Request) : Prop :=
  match request.verb with
  | .write _ =>
    writeSlot w.live (inherited w i) i request.name 0 = none ∨ request.name.length < envNameMax
  | .writeAt offset _ =>
    writeSlot w.live (inherited w i) i request.name offset = none ∨
      offset < envValueMax ∧ (offset = 0 → request.name.length < envNameMax)
  | _ => True

def FirstFits : Prop :=
  envFind w.table i inheritedMarker = none →
    w.live i.1 = some i.2 ∧ Room w.live (parentInfo w i.1) w.table

def Fits : Action → Prop
  | .request i request =>
    request.verb = .other ∨ FirstFits w i ∧ WriteFits w i request
  | _ => True

def Entry.Sound (e : Entry) : Prop := e.name.length < envNameMax ∧ e.value.length = envValueMax

structure Tidy (table : Table) : Prop where
  size : table.length = envMax
  distinct : Distinct Entry.key table
  sound : ∀ e ∈ table, e.Sound

structure Inv (w : World) : Prop where
  tidy : Tidy w.table
  owners : ∀ e ∈ w.table, ∀ i, e.owner = some i → i ∈ w.asked
  pids : ∀ i ∈ w.lived, i.1 ≠ 0
  liveLived : ∀ i : Instance, w.live i.1 = some i.2 → i ∈ w.lived
  askedLived : ∀ i ∈ w.asked, i ∈ w.lived
  parents : ∀ i p, w.parent i = some p → p ∈ w.lived ∧ i ≠ p
  marked : ∀ i ∈ w.asked, w.live i.1 = some i.2 → envFind w.table i inheritedMarker ≠ none

theorem boot_inv : Inv boot where
  tidy := {
    size := List.length_replicate
    distinct := by
      intro a b e f k heldE heldF carriesE
      obtain rfl := (List.mem_replicate.1 (List.mem_of_getElem? heldE)).2
      cases carriesE
    sound := by
      intro e member
      obtain rfl := (List.mem_replicate.1 member).2
      exact ⟨by decide, List.length_replicate⟩ }
  owners := by
    intro e member i owned
    obtain rfl := (List.mem_replicate.1 member).2
    cases owned
  pids := nofun
  liveLived := nofun
  askedLived := nofun
  parents := nofun
  marked := nofun

variable {slot offset : Nat}

theorem sound_set {table : Table} (sound : ∀ e ∈ table, e.Sound) {new : Entry}
    (newSound : new.Sound) : ∀ e ∈ table.set slot new, e.Sound := by
  intro e member
  rcases List.mem_or_eq_of_mem_set member with old | rfl
  · exact sound e old
  · exact newSound

theorem envCopyName_lt (name : Name) : (envCopyName name).length < envNameMax := by
  simp only [envCopyName, List.length_take, envNameMax]
  omega

theorem copyLoop_sound (live : Live) (child parent : Instance) (count i : Nat) (table : Table)
    (sound : ∀ e ∈ table, e.Sound) : ∀ e ∈ copyLoop live child parent count i table, e.Sound := by
  induction count generalizing i table with
  | zero => exact sound
  | succ _ ih =>
    unfold copyLoop
    cases held : table[i]? with
    | none => exact sound
    | some e =>
      have copy : (Entry.mk child.1 child.2 (envCopyName e.name) e.value).Sound :=
        ⟨envCopyName_lt _, (sound e (List.mem_of_getElem? held)).2⟩
      dsimp only
      split
      · split
        · exact sound
        · exact ih _ _ (sound_set sound copy)
      · exact ih _ _ sound

theorem rawValue_length {table : Table} (sound : ∀ e ∈ table, e.Sound) {e : Entry}
    (held : table[slot]? = some e) : (rawValue table slot).length = envValueMax := by
  simp [rawValue, held, (sound e (List.mem_of_getElem? held)).2]

theorem envMaybeInherit_sound (live : Live) (parent : Option Instance) (table : Table)
    (i : Instance) (sound : ∀ e ∈ table, e.Sound) :
    ∀ e ∈ envMaybeInherit live parent table i, e.Sound := by
  have copied : ∀ e ∈ copyVars live parent table i, e.Sound := by
    cases parent with
    | none => exact sound
    | some parent => exact copyLoop_sound live i parent envMax 0 table sound
  unfold envMaybeInherit
  split
  · exact sound
  · dsimp only
    split
    · exact copied
    · rename_i slot found
      obtain ⟨old, held, -⟩ := envFindFreeOrReclaim_some found
      refine sound_set copied ⟨envCopyName_lt _, ?_⟩
      rw [List.length_set]
      exact rawValue_length copied held

/-- What a live instance other than the sender sees stays as it is when only vacant slots and
slots of the sender are changed. -/
def Touched (live : Live) (sender : Instance) (table after : Table) : Prop :=
  after.length = table.length ∧ ∀ (a : Nat) e, after[a]? = some e → table[a]? = some e ∨
    (e.owner = some sender ∨ e.owner = none) ∧
      ∃ old, table[a]? = some old ∧ (vacant live old = true ∨ old.owner = some sender)

variable {live : Live} {sender : Instance} {table after : Table}

theorem Grown.touched (grown : Grown live sender table after) : Touched live sender table after := by
  refine ⟨grown.1, fun a e held => ?_⟩
  rcases grown.2 a e held with same | ⟨owner, old, was, isVacant⟩
  · exact .inl same
  · exact .inr ⟨.inl owner, old, was, .inl isVacant⟩

theorem Touched.refl (live : Live) (sender : Instance) (table : Table) :
    Touched live sender table table := ⟨rfl, fun _ _ held => .inl held⟩

variable {i : Instance}

theorem Touched.entry_iff (touched : Touched live sender table after) (other : i ≠ sender)
    (alive : live i.1 = some i.2) {a : Nat} {e : Entry} (owned : e.owner = some i) :
    after[a]? = some e ↔ table[a]? = some e := by
  constructor
  · intro held
    rcases touched.2 a e held with same | ⟨owner | free, -⟩
    · exact same
    · exact absurd (Option.some.inj (owned.symm.trans owner)) other
    · rw [owned] at free
      cases free
  · intro held
    have inside : a < after.length := by
      rw [touched.1]
      exact (List.getElem?_eq_some_iff.1 held).1
    have there := List.getElem?_eq_getElem inside
    rcases touched.2 a _ there with same | ⟨-, old, was, isVacant | owner⟩
    · rw [there, ← same, held]
    · obtain rfl := Option.some.inj (held.symm.trans was)
      rw [not_vacant_of_live owned alive] at isVacant
      cases isVacant
    · obtain rfl := Option.some.inj (held.symm.trans was)
      exact absurd (Option.some.inj (owned.symm.trans owner)) other

theorem Touched.lookup_eq (touched : Touched live sender table after)
    (distinct : Distinct Entry.key after) (other : i ≠ sender) (alive : live i.1 = some i.2)
    (name : Name) : lookup Entry.key after (i, name) = lookup Entry.key table (i, name) := by
  cases found : lookup Entry.key table (i, name) with
  | none =>
    refine lookup_eq_none_iff.2 fun a e held key => ?_
    have was := (touched.entry_iff other alive (Entry.key_eq_some.1 key).1).1 held
    exact lookup_eq_none_iff.1 found a e was key
  | some =>
    obtain ⟨key, a, held⟩ := lookup_carries found
    exact distinct.lookup_eq ((touched.entry_iff other alive (Entry.key_eq_some.1 key).1).2 held) key

theorem mapOf_eq_of_lookup
    (same : ∀ name, lookup Entry.key after (i, name) = lookup Entry.key table (i, name)) :
    mapOf after i = mapOf table i := by
  funext name
  simp only [mapOf, same]

theorem Touched.trans {middle : Table} (first : Touched live sender table middle)
    (second : Touched live sender middle after) : Touched live sender table after := by
  refine ⟨second.1.trans first.1, fun a e held => ?_⟩
  rcases second.2 a e held with same | ⟨owner, old, was, place⟩
  · exact first.2 a e same
  · rcases first.2 a old was with before | ⟨-, before⟩
    · exact .inr ⟨owner, old, before, place⟩
    · exact .inr ⟨owner, before⟩

variable {w : World}

theorem parentInfo_live (alive : w.live i.1 = some i.2) : parentInfo w i.1 = w.parent i := by
  simp [parentInfo, alive]

theorem Inv.unmarked (inv : Inv w) (alive : w.live i.1 = some i.2)
    (unmarked : envFind w.table i inheritedMarker = none) : ∀ e ∈ w.table, e.owner ≠ some i :=
  fun e member owned => inv.marked i (inv.owners e member i owned) alive unmarked

theorem holds_iff_lookup (distinct : Distinct Entry.key table) {name : Name} {value : List Byte} :
    Holds table i name value ↔
      ∃ e, lookup Entry.key table (i, name) = some e ∧ e.value = value := by
  constructor
  · rintro ⟨a, e, held, key, valued⟩
    exact ⟨e, distinct.lookup_eq held key, valued⟩
  · rintro ⟨e, found, valued⟩
    obtain ⟨key, a, held⟩ := lookup_carries found
    exact ⟨a, e, held, key, valued⟩

theorem holds_of_envFind (distinct : Distinct Entry.key table) (pid : i.1 ≠ 0) {name : Name} :
    envFind table i name ≠ none ↔ ∃ value, Holds table i name value := by
  rw [Option.ne_none_iff_exists']
  constructor
  · rintro ⟨slot, found⟩
    obtain ⟨e, held, key⟩ := (envFind_some_iff distinct pid).1 found
    exact ⟨e.value, slot, e, held, key, rfl⟩
  · rintro ⟨value, slot, e, held, key, -⟩
    exact ⟨slot, (envFind_some_iff distinct pid).2 ⟨e, held, key⟩⟩

theorem owners_of_touched (touched : Touched live sender table after) {asked : List Instance}
    (owners : ∀ e ∈ table, ∀ i, e.owner = some i → i ∈ asked) :
    ∀ e ∈ after, ∀ i, e.owner = some i → i ∈ sender :: asked := by
  intro e member i owned
  obtain ⟨a, inside, rfl⟩ := List.getElem_of_mem member
  rcases touched.2 a _ (List.getElem?_eq_getElem inside) with same | ⟨owner | free, -⟩
  · exact List.mem_cons_of_mem _ (owners _ (List.mem_of_getElem? same) i owned)
  · obtain rfl := Option.some.inj (owned.symm.trans owner)
    exact List.mem_cons_self
  · rw [owned] at free
    cases free

structure Ready (w : World) (i : Instance) : Prop where
  tidy : Tidy (inherited w i)
  touched : Touched w.live i w.table (inherited w i)
  marked : envFind (inherited w i) i inheritedMarker ≠ none

theorem Inv.ready (inv : Inv w) (known : i ∈ w.lived) (first : FirstFits w i) : Ready w i := by
  have sound := envMaybeInherit_sound w.live (parentInfo w i.1) w.table i inv.tidy.sound
  by_cases unmarked : envFind w.table i inheritedMarker = none
  · obtain ⟨alive, room⟩ := first unmarked
    have parentPid : ∀ p, parentInfo w i.1 = some p → p.1 ≠ 0 ∧ i ≠ p := by
      intro p is
      rw [parentInfo_live alive] at is
      obtain ⟨lived, apart⟩ := inv.parents i p is
      exact ⟨inv.pids p lived, apart⟩
    obtain ⟨grown, distinct, -, value, holds⟩ := envMaybeInherit_first (inv.pids i known) parentPid
      alive inv.tidy.size inv.tidy.distinct (fun e member => (inv.tidy.sound e member).1)
      (inv.unmarked alive unmarked) room
    exact ⟨⟨grown.1.trans inv.tidy.size, distinct, sound⟩, grown.touched,
      (holds_of_envFind distinct (inv.pids i known)).2 ⟨value, holds⟩⟩
  · have same : inherited w i = w.table := envMaybeInherit_marked unmarked
    exact ⟨by rw [same]; exact inv.tidy, by rw [same]; exact Touched.refl _ _ _,
      by rw [same]; exact unmarked⟩

/-- The slot of a write holds the name already, or it is vacant and the name is new. -/
theorem writeSlot_some (distinct : Distinct Entry.key table) (pid : i.1 ≠ 0) {name : Name}
    (found : writeSlot live table i name offset = some slot) :
    reserved name = false ∧ ∃ old, table[slot]? = some old ∧
      (old.key = some (i, name) ∨
        offset = 0 ∧ vacant live old = true ∧ lookup Entry.key table (i, name) = none) := by
  unfold writeSlot at found
  split at found
  · cases found
  · rename_i free
    refine ⟨by simpa using free, ?_⟩
    cases set : envFind table i name with
    | some =>
      rw [set] at found
      obtain rfl := Option.some.inj found
      obtain ⟨e, held, key⟩ := (envFind_some_iff distinct pid).1 set
      exact ⟨e, held, .inl key⟩
    | none =>
      rw [set] at found
      dsimp only at found
      split at found
      · rename_i start
        obtain ⟨old, held, -⟩ := envFindFreeOrReclaim_some found
        exact ⟨old, held, .inr ⟨start, vacant_of_found found held, (envFind_none_iff pid).1 set⟩⟩
      · cases found

theorem putValue_length {old : List Byte} (full : old.length = envValueMax) (offset : Nat)
    (data : List Byte) (inside : offset + data.length < envValueMax) :
    (putValue old offset data).length = envValueMax := by
  rw [putValue, List.length_set, Splices.length_splice (by omega)]
  omega

/-- Three things can happen to the table: nothing, one variable of the sender is stored, or one
is removed. -/
inductive Changed (live : Live) (i : Instance) (name : Name) (table after : Table) : Prop where
  | same (is : after = table)
  | stored (slot : Nat) (old new : Entry) (shown : reserved name = false)
      (held : table[slot]? = some old) (key : new.key = some (i, name)) (sound : new.Sound)
      (place : old.key = some (i, name) ∨
        vacant live old = true ∧ lookup Entry.key table (i, name) = none)
      (is : after = table.set slot new)
  | removed (slot : Nat) (old new : Entry) (shown : reserved name = false)
      (held : table[slot]? = some old) (key : old.key = some (i, name)) (sound : new.Sound) (freed : new.owner = none)
      (is : after = table.set slot new)

variable {i : Instance} {name : Name}

section
variable (changed : Changed live i name table after)
include changed

theorem Changed.touched : Touched live i table after := by
  cases changed with
  | same is => exact is ▸ Touched.refl _ _ _
  | stored _ old _ _ held key _ place is =>
    subst is
    refine ⟨List.length_set, fun a e there => ?_⟩
    rcases getElem?_set_cases there with ⟨rfl, rfl, -⟩ | ⟨-, there⟩
    · refine .inr ⟨.inl (Entry.key_eq_some.1 key).1, old, held, ?_⟩
      exact place.elim (fun owned => .inr (Entry.key_eq_some.1 owned).1) fun free => .inl free.1
    · exact .inl there
  | removed _ old _ _ held key _ freed is =>
    subst is
    refine ⟨List.length_set, fun a e there => ?_⟩
    rcases getElem?_set_cases there with ⟨rfl, rfl, -⟩ | ⟨-, there⟩
    · exact .inr ⟨.inr freed, old, held, .inr (Entry.key_eq_some.1 key).1⟩
    · exact .inl there

theorem Changed.tidy (tidy : Tidy table) : Tidy after := by
  cases changed with
  | same is => exact is ▸ tidy
  | stored slot old _ _ held key sound place is =>
    subst is
    refine ⟨List.length_set.trans tidy.size, ?_, sound_set tidy.sound sound⟩
    refine tidy.distinct.set fun a e k away there carries same => ?_
    obtain rfl := Option.some.inj (key.symm.trans carries)
    rcases place with owned | ⟨-, absent⟩
    · exact away (tidy.distinct a slot e old _ there held same owned)
    · exact lookup_eq_none_iff.1 absent a e there same
  | removed _ _ _ _ _ _ sound freed is =>
    subst is
    refine ⟨List.length_set.trans tidy.size, ?_, sound_set tidy.sound sound⟩
    refine tidy.distinct.set fun a e k away there carries => ?_
    simp [Entry.key, freed] at carries

/-- Every other name of the sender is found as before, as long as the sender is live. -/
theorem Changed.other_name (tidy : Tidy table) (alive : live i.1 = some i.2) {other : Name}
    (different : other ≠ name) :
    lookup Entry.key after (i, other) = lookup Entry.key table (i, other) := by
  have tidyAfter := changed.tidy tidy
  have apart : ∀ e : Entry, e.key = some (i, name) → e.key ≠ some (i, other) := by
    intro e key key'
    exact different (Prod.mk.inj (Option.some.inj (key'.symm.trans key))).2
  cases changed with
  | same is => rw [is]
  | stored _ old new _ held key _ place is =>
    subst is
    refine lookup_set_other tidyAfter.distinct (fun e there => ?_) (apart new key)
    obtain rfl := Option.some.inj (held.symm.trans there)
    rcases place with owned | ⟨isVacant, -⟩
    · exact apart old owned
    · intro key'
      rw [not_vacant_of_live (Entry.key_eq_some.1 key').1 alive] at isVacant
      cases isVacant
  | removed slot old new shown held key sound freed is =>
    subst is
    refine lookup_set_other tidyAfter.distinct (fun e there => ?_) (by simp [Entry.key, freed])
    obtain rfl := Option.some.inj (held.symm.trans there)
    exact apart old key

end

theorem envCopyName_eq (fits : name.length < envNameMax) : envCopyName name = name := by
  apply List.take_of_length_le
  omega

theorem keptAt_fits (inside : offset < envValueMax) (data : List Byte) :
    offset + (keptAt offset data).length < envValueMax := by
  simp only [keptAt, List.length_take] at inside ⊢
  omega

/-- What `FS_WRITE_AT` stores when it stays within the value. -/
def storedAt (old : List Byte) (offset : Nat) (data : List Byte) : List Byte :=
  if offset + (keptAt offset data).length > 0 then putValue old offset (keptAt offset data) else old

theorem storedAt_length {old : List Byte} (full : old.length = envValueMax)
    (inside : offset < envValueMax) (data : List Byte) :
    (storedAt old offset data).length = envValueMax := by
  unfold storedAt
  split
  · exact putValue_length full offset _ (keptAt_fits inside data)
  · exact full

theorem envWrite_stored (tidy : Tidy table) (pid : i.1 ≠ 0) (fits : name.length < envNameMax)
    (data : List Byte) (found : writeSlot live table i name 0 = some slot) :
    ∃ old new, reserved name = false ∧ table[slot]? = some old ∧
      new.key = some (i, name) ∧ new.Sound ∧
      (old.key = some (i, name) ∨
        vacant live old = true ∧ lookup Entry.key table (i, name) = none) ∧
      new.value = putValue old.value 0 (data.take (envValueMax - 1)) ∧
      envWrite live table i name data =
        (table.set slot new, .result (data.take (envValueMax - 1)).length) := by
  obtain ⟨shown, old, held, place⟩ := writeSlot_some tidy.distinct pid found
  have full : old.value.length = envValueMax := (tidy.sound old (List.mem_of_getElem? held)).2
  have raw : rawValue table slot = old.value := by simp [rawValue, held]
  refine ⟨old, ⟨i.1, i.2, name, putValue old.value 0 (data.take (envValueMax - 1))⟩, shown, held,
    key_mk pid _ _, ⟨fits, putValue_length full 0 _ ?_⟩, place.imp_right And.right, rfl, ?_⟩
  · simp only [List.length_take, envValueMax]
    omega
  · simp only [envWrite, found, raw, envCopyName_eq fits]

theorem envWriteAt_stored (tidy : Tidy table) (pid : i.1 ≠ 0) (inside : offset < envValueMax)
    (fits : offset = 0 → name.length < envNameMax) (data : List Byte)
    (found : writeSlot live table i name offset = some slot) :
    ∃ old new, reserved name = false ∧ table[slot]? = some old ∧
      new.key = some (i, name) ∧ new.Sound ∧
      (old.key = some (i, name) ∨
        offset = 0 ∧ vacant live old = true ∧ lookup Entry.key table (i, name) = none) ∧
      new.value = storedAt old.value offset data ∧
      envWriteAt live table i name offset data = (table.set slot new, .result data.length) := by
  obtain ⟨shown, old, held, place⟩ := writeSlot_some tidy.distinct pid found
  have oldSound := tidy.sound old (List.mem_of_getElem? held)
  have raw : rawValue table slot = old.value := by simp [rawValue, held]
  have near : ¬ offset ≥ envValueMax := by omega
  have full := storedAt_length oldSound.2 inside data
  by_cases start : offset = 0
  · subst start
    refine ⟨old, ⟨i.1, i.2, name, storedAt old.value 0 data⟩, shown, held, key_mk pid _ _,
      ⟨fits rfl, full⟩, place, rfl, ?_⟩
    simp only [envWriteAt, found, raw, near, if_true, if_false, envCopyName_eq (fits rfl),
      storedAt]
  · have owned : old.key = some (i, name) := place.resolve_right fun other => start other.1
    refine ⟨old, { old with value := storedAt old.value offset data }, shown, held, owned,
      ⟨oldSound.1, full⟩, place, rfl, ?_⟩
    simp only [envWriteAt, found, raw, near, start, if_false, modify_eq_set _ held, storedAt]

theorem envDelete_cases (tidy : Tidy table) (pid : i.1 ≠ 0) :
    (envDelete table i name = (table, .result (-1)) ∧
        (reserved name = true ∨ lookup Entry.key table (i, name) = none)) ∨
      ∃ slot old, reserved name = false ∧ table[slot]? = some old ∧ old.key = some (i, name) ∧
        envDelete table i name = (table.set slot { old with pid := 0 }, .result 0) := by
  unfold envDelete
  cases hidden : reserved name with
  | true => exact .inl ⟨by simp, .inl rfl⟩
  | false =>
    cases found : envFind table i name with
    | none => exact .inl ⟨by simp, .inr ((envFind_none_iff pid).1 found)⟩
    | some slot =>
      obtain ⟨old, held, key⟩ := (envFind_some_iff tidy.distinct pid).1 found
      exact .inr ⟨slot, old, rfl, held, key, by simp [modify_eq_set _ held]⟩

variable {request : Request}

/-- `WriteFits`, over the table the request finds. -/
def Storable (live : Nat → Option Nat) (table : Table) (i : Instance) (request : Request) : Prop :=
  match request.verb with
  | .write _ => writeSlot live table i request.name 0 = none ∨ request.name.length < envNameMax
  | .writeAt offset _ => writeSlot live table i request.name offset = none ∨
      offset < envValueMax ∧ (offset = 0 → request.name.length < envNameMax)
  | _ => True

/-- A request that fits changes one variable of its sender at most. -/
theorem handle_changed (tidy : Tidy table) (pid : i.1 ≠ 0)
    (fits : Storable live table i request) :
    Changed live i request.name table (handle live table i request).1 := by
  obtain ⟨verb, name⟩ := request
  cases verb with
  | read => exact .same rfl
  | list start => exact .same rfl
  | other => exact .same rfl
  | write data =>
    cases found : writeSlot live table i name 0 with
    | none => exact .same (by simp [handle, envWrite, found])
    | some slot =>
      have short := fits.resolve_left (by simp [found])
      obtain ⟨old, new, shown, held, key, sound, place, -, is⟩ :=
        envWrite_stored tidy pid short data found
      exact .stored slot old new shown held key sound place (by simp [handle, is])
  | writeAt offset data =>
    cases found : writeSlot live table i name offset with
    | none => exact .same (by simp [handle, envWriteAt, found])
    | some slot =>
      obtain ⟨inside, short⟩ := fits.resolve_left (by simp [found])
      obtain ⟨old, new, shown, held, key, sound, place, -, is⟩ :=
        envWriteAt_stored tidy pid inside short data found
      exact .stored slot old new shown held key sound (place.imp_right And.right) (by simp [handle, is])
  | delete =>
    rcases @envDelete_cases table i name tidy pid with ⟨is, -⟩ | ⟨slot, old, shown, held, key, is⟩
    · exact .same (by simp [handle, is])
    · have oldSound := tidy.sound old (List.mem_of_getElem? held)
      exact .removed slot old { old with pid := 0 } shown held key oldSound rfl (by simp [handle, is])

theorem serve_eq {parent : Option Instance} (supported : request.verb ≠ .other) :
    serve live parent table i request =
      handle live (envMaybeInherit live parent table i) i request := by
  unfold serve
  split
  · rename_i other
    exact absurd other supported
  · rfl

theorem served_changed (inv : Inv w) (known : i ∈ w.lived) (supported : request.verb ≠ .other)
    (fits : FirstFits w i ∧ WriteFits w i request) :
    Ready w i ∧ Changed w.live i request.name (inherited w i) (served w i request).1 := by
  have ready := inv.ready known fits.1
  refine ⟨ready, ?_⟩
  unfold served
  rw [serve_eq supported]
  exact handle_changed ready.tidy (inv.pids i known) fits.2

theorem marked_of_lookup {j : Instance} (pid : j.1 ≠ 0)
    (same : lookup Entry.key after (j, inheritedMarker) =
      lookup Entry.key table (j, inheritedMarker))
    (marked : envFind table j inheritedMarker ≠ none) :
    envFind after j inheritedMarker ≠ none := by
  intro none
  rw [envFind_none_iff pid, same, ← envFind_none_iff pid] at none
  exact marked none

/-- The marker of a live sender stays. -/
theorem Changed.marked (changed : Changed live i name table after) (tidy : Tidy table)
    (pid : i.1 ≠ 0) (alive : live i.1 = some i.2)
    (marked : envFind table i inheritedMarker ≠ none) :
    envFind after i inheritedMarker ≠ none := by
  by_cases different : inheritedMarker = name
  · subst different
    cases changed with
    | same is => rwa [is]
    | stored _ _ _ shown => cases shown
    | removed _ _ _ shown => cases shown
  · exact marked_of_lookup pid (changed.other_name tidy alive different) marked

theorem request_inv (inv : Inv w) (known : i ∈ w.lived) (supported : request.verb ≠ .other)
    (fits : FirstFits w i ∧ WriteFits w i request) :
    Inv { w with table := (served w i request).1, asked := i :: w.asked } := by
  obtain ⟨ready, changed⟩ := served_changed inv known supported fits
  have pid := inv.pids i known
  have touched := ready.touched.trans changed.touched
  have tidy := changed.tidy ready.tidy
  refine ⟨tidy, owners_of_touched touched inv.owners, inv.pids, inv.liveLived, ?_, inv.parents, ?_⟩
  · intro j member
    rcases List.mem_cons.1 member with rfl | old
    · exact known
    · exact inv.askedLived j old
  · intro j member alive
    by_cases same : j = i
    · subst same
      exact changed.marked ready.tidy pid alive ready.marked
    · have old := (List.mem_cons.1 member).resolve_left same
      exact marked_of_lookup (inv.pids j (inv.askedLived j old))
        (touched.lookup_eq tidy.distinct same alive _) (inv.marked j old alive)

theorem step_inv {after : World} (inv : Inv w) {action : Action} (fits : Fits w action)
    (stepped : step w action = some after) : Inv after := by
  cases action with
  | starts i parent =>
    simp only [step] at stepped
    split at stepped
    · cases stepped
    · rename_i checks
      obtain rfl := Option.some.inj stepped
      simp only [not_or, Option.any_eq_true, not_exists] at checks
      obtain ⟨pid, new, unused, forked⟩ := checks
      have before : ∀ j ∈ w.lived, j ≠ i := fun j lived same => new (same ▸ lived)
      refine ⟨inv.tidy, inv.owners, ?_, ?_, ?_, ?_, ?_⟩
      · intro j member
        rcases List.mem_cons.1 member with rfl | old
        · exact pid
        · exact inv.pids j old
      · intro j alive
        by_cases same : j.1 = i.1
        · have : j.2 = i.2 := by
            simpa [same] using alive.symm
          exact List.mem_cons.2 (.inl (Prod.ext same this))
        · exact List.mem_cons_of_mem _ (inv.liveLived j (by simpa [same] using alive))
      · exact fun j member => List.mem_cons_of_mem _ (inv.askedLived j member)
      · intro j p is
        by_cases same : j = i
        · subst same
          obtain rfl : parent = some p := by simpa using is
          have alive : w.live p.1 = some p.2 := by simpa using forked p
          have lived := inv.liveLived p alive
          exact ⟨List.mem_cons_of_mem _ lived, fun same => new (same ▸ lived)⟩
        · have old : w.parent j = some p := by simpa [same] using is
          exact ⟨List.mem_cons_of_mem _ (inv.parents j p old).1, (inv.parents j p old).2⟩
      · intro j member alive
        have apart : j ≠ i := before j (inv.askedLived j member)
        by_cases same : j.1 = i.1
        · have : j.2 = i.2 := by
            simpa [same] using alive.symm
          exact absurd (Prod.ext same this) apart
        · exact inv.marked j member (by simpa [same] using alive)
  | exits pid =>
    simp only [step, Option.map_eq_some_iff] at stepped
    obtain ⟨generation, was, rfl⟩ := stepped
    have still : ∀ j : Instance, Function.update w.live pid none j.1 = some j.2 →
        w.live j.1 = some j.2 := by
      intro j alive
      by_cases same : j.1 = pid
      · simp [same] at alive
      · simpa [same] using alive
    exact ⟨inv.tidy, inv.owners, inv.pids, fun j alive => inv.liveLived j (still j alive),
      inv.askedLived, inv.parents, fun j member alive => inv.marked j member (still j alive)⟩
  | request i request =>
    simp only [step] at stepped
    split at stepped
    · rename_i known
      obtain rfl := Option.some.inj stepped
      obtain ⟨verb, name⟩ := request
      cases verb with
      | other => exact inv
      | read => exact request_inv inv known nofun (fits.resolve_left nofun)
      | write => exact request_inv inv known nofun (fits.resolve_left nofun)
      | writeAt => exact request_inv inv known nofun (fits.resolve_left nofun)
      | list => exact request_inv inv known nofun (fits.resolve_left nofun)
      | delete => exact request_inv inv known nofun (fits.resolve_left nofun)
    · cases stepped

end Racccoon.Env
