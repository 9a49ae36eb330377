import Racccoon.Env.Snapshot

/-!
What each process sees of the environment: a private map. Beside the server a record is kept
of the map each instance should see, which only its own requests change; the replies agree
with it as long as names and values fit.
-/

namespace Racccoon.Env
open Function (update update_self update_of_ne)

open Racccoon.Run Racccoon.Slots Racccoon.Splices

structure Observed where
  world : World
  /-- The map of each instance that has sent a request. -/
  maps : Instance → Option EnvMap

/-- The own map after a request that was answered so. A write stores as many bytes as it
reports; a write at an offset cuts the value there and puts its bytes behind. -/
def applied (own : EnvMap) (request : Request) (reply : Reply) : EnvMap :=
  match request.verb, reply with
  | .write data, .result n =>
    if n < 0 then own else Function.update own request.name (some (data.take n.toNat))
  | .writeAt offset data, .result n =>
    if n < 0 then own
    else Function.update own request.name
      (some (((own request.name).getD []).take offset ++ data.take n.toNat))
  | .delete, .result n => if n < 0 then own else Function.update own request.name none
  | _, _ => own

variable (s : Observed)

def ownMap (i : Instance) : EnvMap :=
  (s.maps i).getD (mapOf (inherited s.world i) i)

def observe (action : Action) : Option Observed :=
  (step s.world action).map fun next =>
    ⟨next, match action with
      | .request i request =>
        if request.verb matches .other then s.maps
        else Function.update s.maps i
          (some (applied (ownMap s i) request (served s.world i request).2))
      | _ => s.maps⟩

/-- The bytes that are stored contain no NUL, none of them is cut off, and a write at an offset
starts within the value it adds to. -/
def Plain (i : Instance) (request : Request) : Prop :=
  match request.verb with
  | .write data =>
    writeSlot s.world.live (inherited s.world i) i request.name 0 = none ∨
      ∀ b ∈ data.take (envValueMax - 1), b ≠ 0
  | .writeAt offset data =>
    writeSlot s.world.live (inherited s.world i) i request.name offset = none ∨
      (∀ b ∈ data, b ≠ 0) ∧ 0 < offset + data.length ∧ offset + data.length < envValueMax ∧
        offset ≤ ((ownMap s i request.name).getD []).length
  | _ => True

def FitsPlainly (action : Action) : Prop :=
  Fits s.world action ∧ match action with
    | .request i request => request.verb = .other ∨ Plain s i request
    | _ => True

/-- The reply is what the map says; `names` are the names that are set, each once. -/
def Answers (own : EnvMap) (names : List Name) (request : Request) (reply : Reply) : Prop :=
  match request.verb with
  | .read =>
    reply = match own request.name with
      | some value => .value value
      | none => .result (-1)
  | .write data =>
    reply = .result (data.take (envValueMax - 1)).length ∨
      reply = .result (-1) ∧ own request.name = none
  | .writeAt _ data =>
    reply = .result data.length ∨ reply = .result (-1) ∧ own request.name = none
  | .delete => reply = .result (if own request.name = none then -1 else 0)
  | .list start => reply = .names ((names.drop start).take listPage)
  | .other => reply = .result (-1)

theorem text_front {front rest : List Byte} (plain : ∀ b ∈ front, b ≠ 0) :
    text (front ++ 0 :: rest) = front := by
  unfold text
  rw [List.takeWhile_append_of_pos (by simpa using plain)]
  simp

variable {value : List Byte}
variable {offset : Nat}

theorem text_take (within : offset ≤ (text value).length) :
    value.take offset = (text value).take offset ∧ ∀ b ∈ value.take offset, b ≠ 0 := by
  have split : value = text value ++ value.dropWhile (· ≠ 0) :=
    (List.takeWhile_append_dropWhile).symm
  have same : value.take offset = (text value).take offset := by
    conv => lhs; rw [split]
    exact List.take_append_of_le_length within
  refine ⟨same, fun b member => ?_⟩
  rw [same] at member
  have all := List.all_eq_true.1 (List.all_takeWhile (p := fun b : Byte => decide (b ≠ 0))
    (l := value)) b (List.mem_of_mem_take member)
  simpa using all

/-- What is put at an offset within the text ends the text. -/
theorem text_putValue {old data : List Byte} (full : old.length = envValueMax)
    (within : offset ≤ (text old).length) (fits : offset + data.length < envValueMax)
    (plain : ∀ b ∈ data, b ≠ 0) :
    text (putValue old offset data) = (text old).take offset ++ data := by
  obtain ⟨front, frontPlain⟩ := text_take within
  have length : (old.take offset ++ data).length = offset + data.length := by
    rw [List.length_append, List.length_take]
    omega
  obtain ⟨b, rest, more⟩ : ∃ b rest, old.drop (offset + data.length) = b :: rest := by
    cases tail : old.drop (offset + data.length) with
    | nil =>
      have := List.drop_eq_nil_iff.1 tail
      omega
    | cons b rest => exact ⟨b, rest, rfl⟩
  have put : putValue old offset data = (old.take offset ++ data) ++ 0 :: rest := by
    rw [putValue, splice, more, List.set_append_right _ _ (by omega), length, Nat.sub_self]
    rfl
  rw [put, text_front, front]
  intro b member
  rcases List.mem_append.1 member with old | new
  · exact frontPlain b old
  · exact plain b new

theorem keptAt_whole {data : List Byte} (fits : offset + data.length < envValueMax) :
    keptAt offset data = data := by
  apply List.take_of_length_le
  omega

variable {live : Live} {table after : Table} {i : Instance} {name : Name}

def Within (first second : EnvMap) : Prop := ∀ name value, first name = some value →
  second name = some value

theorem mapOf_of_key (distinct : Distinct Entry.key table) (shown : reserved name = false)
    {slot : Nat} {e : Entry} (held : table[slot]? = some e) (key : e.key = some (i, name)) :
    mapOf table i name = some (text e.value) := by
  simp [mapOf, shown, distinct.lookup_eq held key]

/-- A request that fits leaves the sender's map alone, or puts the map it asks for at its name. -/
theorem handle_maps (tidy : Tidy table) (pid : i.1 ≠ 0) {own : EnvMap}
    (within : Within (mapOf table i) own) {request : Request}
    (fits : Storable live table i request)
    (plain : match request.verb with
      | .write data => writeSlot live table i request.name 0 = none ∨
          ∀ b ∈ data.take (envValueMax - 1), b ≠ 0
      | .writeAt offset data => writeSlot live table i request.name offset = none ∨
          (∀ b ∈ data, b ≠ 0) ∧ 0 < offset + data.length ∧ offset + data.length < envValueMax ∧
            offset ≤ ((own request.name).getD []).length
      | _ => True) :
    ((handle live table i request).1 = table ∧
        applied own request (handle live table i request).2 = own) ∨
      ∃ now, mapOf (handle live table i request).1 i request.name = now ∧
        applied own request (handle live table i request).2 =
          update own request.name now := by
  have tidyAfter := (handle_changed tidy pid fits).tidy tidy
  obtain ⟨verb, name⟩ := request
  cases verb with
  | read => exact .inl ⟨rfl, by simp [applied]⟩
  | list => exact .inl ⟨rfl, by simp [applied]⟩
  | other => exact .inl ⟨rfl, by simp [applied]⟩
  | write data =>
    cases found : writeSlot live table i name 0 with
    | none => exact .inl ⟨by simp [handle, envWrite, found], by simp [handle, envWrite, found, applied]⟩
    | some slot =>
      have short := fits.resolve_left (by simp [found])
      have noNul := plain.resolve_left (by simp [found])
      obtain ⟨old, new, shown, held, key, sound, -, valued, is⟩ :=
        envWrite_stored tidy pid short data found
      have full := (tidy.sound old (List.mem_of_getElem? held)).2
      have keptShort : 0 + (data.take (envValueMax - 1)).length < envValueMax := by
        rw [List.length_take]
        simp only [envValueMax]
        omega
      have handled : handle live table i ⟨.write data, name⟩ =
          (table.set slot new, .result (data.take (envValueMax - 1)).length) := by
        rw [← is]
        rfl
      rw [handled] at tidyAfter ⊢
      have inside : slot < table.length := (List.getElem?_eq_some_iff.1 held).1
      refine .inr ⟨some (data.take (envValueMax - 1)), ?_, ?_⟩
      · rw [mapOf_of_key tidyAfter.distinct shown (List.getElem?_set_self inside) key, valued,
          text_putValue full (Nat.zero_le _) keptShort noNul]
        simp
      · simp only [applied, Int.toNat_natCast]
        have all : data.take (data.take (envValueMax - 1)).length =
            data.take (envValueMax - 1) := by
          rw [List.length_take, ← List.take_take, List.take_length]
        rw [if_neg (by omega), all]
  | writeAt offset data =>
    cases found : writeSlot live table i name offset with
    | none =>
      exact .inl ⟨by simp [handle, envWriteAt, found], by simp [handle, envWriteAt, found, applied]⟩
    | some slot =>
      obtain ⟨inside, short⟩ := fits.resolve_left (by simp [found])
      obtain ⟨noNul, some_byte, whole, reached⟩ := plain.resolve_left (by simp [found])
      obtain ⟨old, new, shown, held, key, sound, place, valued, is⟩ :=
        envWriteAt_stored tidy pid inside short data found
      have full := (tidy.sound old (List.mem_of_getElem? held)).2
      have handled : handle live table i ⟨.writeAt offset data, name⟩ =
          (table.set slot new, .result data.length) := by
        rw [← is]
        rfl
      rw [handled] at tidyAfter ⊢
      have there : slot < table.length := (List.getElem?_eq_some_iff.1 held).1
      -- Past the front, the name is set already and the map has its text.
      have front : offset ≤ (text old.value).length ∧
          (text old.value).take offset = ((own name).getD []).take offset := by
        rcases place with owned | ⟨rfl, -⟩
        · have was := within name _ (mapOf_of_key tidy.distinct shown held owned)
          rw [was] at reached ⊢
          exact ⟨reached, rfl⟩
        · exact ⟨Nat.zero_le _, by simp⟩
      refine .inr ⟨some (((own name).getD []).take offset ++ data), ?_, ?_⟩
      · rw [mapOf_of_key tidyAfter.distinct shown (List.getElem?_set_self there) key, valued,
          storedAt, keptAt_whole whole, if_pos some_byte,
          text_putValue full front.1 whole noNul, front.2]
      · simp only [applied, Int.toNat_natCast, List.take_length]
        rw [if_neg (by omega)]
  | delete =>
    rcases @envDelete_cases table i name tidy pid with ⟨is, -⟩ | ⟨slot, old, shown, held, key, is⟩
    · exact .inl ⟨by simp [handle, is], by simp [handle, is, applied]⟩
    · refine .inr ⟨none, ?_, by simp [handle, is, applied]⟩
      have gone : lookup Entry.key (table.set slot { old with pid := 0 }) (i, name) = none :=
        lookup_set_gone tidy.distinct held key (by rintro ⟨⟩)
      simp [handle, is, mapOf, gone]

variable {j : Instance}

/-- What a changed table has under another name of an instance, it had before. -/
theorem Changed.before (changed : Changed live i name table after) (tidy : Tidy table)
    {other : Name} (different : (j, other) ≠ (i, name)) {e : Entry}
    (found : lookup Entry.key after (j, other) = some e) :
    lookup Entry.key table (j, other) = some e := by
  obtain ⟨key, a, held⟩ := lookup_carries found
  cases changed with
  | same is => rwa [← is]
  | stored _ _ _ _ _ keyNew _ _ is =>
    subst is
    rcases getElem?_set_cases held with ⟨-, rfl, -⟩ | ⟨-, was⟩
    · exact absurd (Option.some.inj (key.symm.trans keyNew)) different
    · exact tidy.distinct.lookup_eq was key
  | removed _ _ _ _ _ _ _ freed is =>
    subst is
    rcases getElem?_set_cases held with ⟨-, rfl, -⟩ | ⟨-, was⟩
    · simp [Entry.key, freed] at key
    · exact tidy.distinct.lookup_eq was key

theorem within_of_lookup (before : ∀ name e, lookup Entry.key after (j, name) = some e →
      lookup Entry.key table (j, name) = some e) : Within (mapOf after j) (mapOf table j) := by
  intro name value seen
  unfold mapOf at seen ⊢
  split at seen
  · cases seen
  · rename_i shown
    obtain ⟨e, found, valued⟩ := Option.map_eq_some_iff.1 seen
    rw [if_neg shown, before name e found, Option.map_some, valued]

theorem Touched.before (touched : Touched live i table after) (distinct : Distinct Entry.key table)
    (other : j ≠ i) {e : Entry} (found : lookup Entry.key after (j, name) = some e) :
    lookup Entry.key table (j, name) = some e := by
  obtain ⟨key, a, held⟩ := lookup_carries found
  have owned := (Entry.key_eq_some.1 key).1
  rcases touched.2 a e held with same | ⟨owner | free, -⟩
  · exact distinct.lookup_eq same key
  · exact absurd (Option.some.inj (owned.symm.trans owner)) other
  · rw [owned] at free
    cases free

theorem envFind_of_mapOf (tidy : Tidy table) (pid : i.1 ≠ 0) (shown : reserved name = false) :
    (envFind table i name = none ∧ mapOf table i name = none) ∨
      ∃ slot e, envFind table i name = some slot ∧ table[slot]? = some e ∧
        mapOf table i name = some (text e.value) := by
  cases found : envFind table i name with
  | none =>
    have := (envFind_none_iff pid).1 found
    exact .inl ⟨rfl, by simp [mapOf, this]⟩
  | some slot =>
    obtain ⟨e, held, key⟩ := (envFind_some_iff tidy.distinct pid).1 found
    exact .inr ⟨slot, e, rfl, held, mapOf_of_key tidy.distinct shown held key⟩

theorem mapOf_reserved (hidden : reserved name = true) : mapOf table i name = none := by
  simp [mapOf, hidden]

theorem writeSlot_none (tidy : Tidy table) (pid : i.1 ≠ 0)
    (refused : writeSlot live table i name offset = none) : mapOf table i name = none := by
  unfold writeSlot at refused
  split at refused
  · exact mapOf_reserved ‹_›
  · rename_i shown
    rcases @envFind_of_mapOf table i name tidy pid (by simpa using shown) with
      ⟨-, absent⟩ | ⟨slot, e, found, -⟩
    · exact absent
    · rw [found] at refused
      cases refused

theorem shownNames_spec (tidy : Tidy table) (pid : i.1 ≠ 0) :
    (shownNames table i).Nodup ∧ ∀ name, name ∈ shownNames table i ↔ mapOf table i name ≠ none := by
  have shows : ∀ e : Entry, (e.pid == i.1 && e.generation == i.2 && !reserved e.name) = true ↔
      e.key = some (i, e.name) ∧ reserved e.name = false := by
    intro e
    simp only [Entry.key_eq_some, Entry.owner_eq_some, Bool.and_eq_true, beq_iff_eq, Bool.not_eq_true',
      and_true]
    constructor
    · rintro ⟨⟨first, second⟩, shown⟩
      exact ⟨⟨first ▸ pid, first, second⟩, shown⟩
    · rintro ⟨⟨-, first, second⟩, shown⟩
      exact ⟨⟨first, second⟩, shown⟩
  constructor
  · unfold shownNames List.Nodup
    rw [List.pairwise_map, List.pairwise_filter, List.pairwise_iff_getElem]
    intro a b insideA insideB before showsA showsB same
    have keyA := ((shows _).1 showsA).1
    have keyB := ((shows _).1 showsB).1
    rw [same] at keyA
    have := tidy.distinct a b _ _ _ (List.getElem?_eq_getElem insideA)
      (List.getElem?_eq_getElem insideB) keyA keyB
    omega
  · intro name
    simp only [shownNames, List.mem_map, List.mem_filter, shows]
    constructor
    · rintro ⟨e, ⟨member, key, shown⟩, rfl⟩
      obtain ⟨a, inside, same⟩ := List.getElem_of_mem member
      rw [mapOf_of_key tidy.distinct shown (by rw [List.getElem?_eq_getElem inside, same]) key]
      nofun
    · intro set
      cases hidden : reserved name with
      | true => exact absurd (mapOf_reserved hidden) set
      | false =>
        rcases envFind_of_mapOf tidy pid hidden with ⟨-, absent⟩ | ⟨slot, e, found, held, -⟩
        · exact absurd absent set
        · obtain ⟨e', held', key⟩ := (envFind_some_iff tidy.distinct pid).1 found
          have named := (Entry.key_eq_some.1 key).2
          subst named
          exact ⟨e', ⟨List.mem_of_getElem? held', key, hidden⟩, rfl⟩

theorem handle_answers (tidy : Tidy table) (pid : i.1 ≠ 0) (request : Request) :
    Answers (mapOf table i) (shownNames table i) request (handle live table i request).2 := by
  obtain ⟨verb, name⟩ := request
  cases verb with
  | list => rfl
  | other => rfl
  | read =>
    change envRead table i name = _
    unfold envRead
    cases hidden : reserved name with
    | true => simp [mapOf_reserved hidden]
    | false =>
      rcases envFind_of_mapOf tidy pid hidden with ⟨found, is⟩ | ⟨slot, e, found, held, is⟩
      · simp [found, is]
      · simp [found, is, rawValue, held]
  | write =>
    cases found : writeSlot live table i name 0 with
    | none => exact .inr ⟨by simp [handle, envWrite, found], writeSlot_none tidy pid found⟩
    | some => exact .inl (by simp [handle, envWrite, found])
  | writeAt offset =>
    cases found : writeSlot live table i name offset with
    | none => exact .inr ⟨by simp [handle, envWriteAt, found], writeSlot_none tidy pid found⟩
    | some => exact .inl (by simp [handle, envWriteAt, found])
  | delete =>
    change (envDelete table i name).2 = _
    unfold envDelete
    cases hidden : reserved name with
    | true => simp [mapOf_reserved hidden]
    | false =>
      rcases envFind_of_mapOf tidy pid hidden with ⟨found, is⟩ | ⟨slot, e, found, held, is⟩
      · simp [found, is]
      · simp [found, is]

/-- Every map has all the table has of its instance, and for a live instance nothing else. -/
structure Watched (s : Observed) : Prop where
  inv : Inv s.world
  asked : ∀ j, j ∈ s.world.asked ↔ ∃ own, s.maps j = some own
  within : ∀ j own, s.maps j = some own → Within (mapOf s.world.table j) own
  exact : ∀ j own, s.maps j = some own → s.world.live j.1 = some j.2 →
    mapOf s.world.table j = own

def start : Observed := ⟨boot, fun _ => none⟩

theorem start_watched : Watched start :=
  ⟨boot_inv, fun _ => ⟨nofun, nofun⟩, nofun, nofun⟩

theorem Within.refl (own : EnvMap) : Within own own := fun _ _ => id

theorem Within.trans {first second third : EnvMap} (one : Within first second)
    (two : Within second third) : Within first third :=
  fun name value seen => two name value (one name value seen)

theorem Inv.owner_of_mapOf {w : World} (inv : Inv w) (set : mapOf w.table i name = some value) :
    i ∈ w.asked := by
  unfold mapOf at set
  split at set
  · cases set
  · obtain ⟨e, found, -⟩ := Option.map_eq_some_iff.1 set
    obtain ⟨key, a, held⟩ := lookup_carries found
    exact inv.owners e (List.mem_of_getElem? held) i (Entry.key_eq_some.1 key).1

variable {s : Observed}

section
variable (watched : Watched s)
include watched

theorem Watched.inherited_eq {own : EnvMap} (asked : s.maps i = some own)
    (first : FirstFits s.world i) : inherited s.world i = s.world.table := by
  by_cases unmarked : envFind s.world.table i inheritedMarker = none
  · exact absurd unmarked (watched.inv.marked i ((watched.asked i).2 ⟨own, asked⟩) (first unmarked).1)
  · exact envMaybeInherit_marked unmarked

theorem Watched.ownMap_within (first : FirstFits s.world i) :
    Within (mapOf (inherited s.world i) i) (ownMap s i) ∧
      (s.world.live i.1 = some i.2 → mapOf (inherited s.world i) i = ownMap s i) := by
  unfold ownMap
  cases asked : s.maps i with
  | none => exact ⟨Within.refl _, fun _ => rfl⟩
  | some own =>
    rw [watched.inherited_eq asked first]
    exact ⟨watched.within i own asked, watched.exact i own asked⟩

/-- The sender's map follows its request. -/
theorem Watched.sender (known : i ∈ s.world.lived) {request : Request}
    (supported : request.verb ≠ .other) (fits : FirstFits s.world i ∧ WriteFits s.world i request)
    (plain : Plain s i request) :
    Within (mapOf (served s.world i request).1 i)
        (applied (ownMap s i) request (served s.world i request).2) ∧
      (s.world.live i.1 = some i.2 → mapOf (served s.world i request).1 i =
        applied (ownMap s i) request (served s.world i request).2) := by
  obtain ⟨ready, changed⟩ := served_changed watched.inv known supported fits
  obtain ⟨within, agrees⟩ := watched.ownMap_within fits.1
  have pid := watched.inv.pids i known
  have is : served s.world i request =
      handle s.world.live (inherited s.world i) i request := serve_eq supported
  rw [is] at changed ⊢
  rcases handle_maps ready.tidy pid within fits.2 plain with ⟨same, kept⟩ | ⟨now, here, put⟩
  · rw [same, kept]
    exact ⟨within, agrees⟩
  · rw [put]
    constructor
    · intro name value seen
      by_cases asked : name = request.name
      · subst asked
        rw [update_self, ← here, seen]
      · rw [update_of_ne asked]
        refine within name value ?_
        have apart : (i, name) ≠ (i, request.name) := fun same => asked (Prod.mk.inj same).2
        unfold mapOf at seen ⊢
        split at seen
        · cases seen
        · rename_i shown
          obtain ⟨e, found, valued⟩ := Option.map_eq_some_iff.1 seen
          rw [if_neg shown, changed.before ready.tidy apart found, Option.map_some, valued]
    · intro alive
      funext name
      by_cases asked : name = request.name
      · subst asked
        rw [update_self, here]
      · rw [update_of_ne asked, ← agrees alive]
        simp only [mapOf, changed.other_name ready.tidy alive asked]

theorem Watched.others (known : i ∈ s.world.lived) {request : Request}
    (supported : request.verb ≠ .other) (fits : FirstFits s.world i ∧ WriteFits s.world i request)
    (other : j ≠ i) :
    Within (mapOf (served s.world i request).1 j) (mapOf s.world.table j) ∧
      (s.world.live j.1 = some j.2 →
        mapOf (served s.world i request).1 j = mapOf s.world.table j) := by
  obtain ⟨ready, changed⟩ := served_changed watched.inv known supported fits
  have touched := ready.touched.trans changed.touched
  have tidy := changed.tidy ready.tidy
  exact ⟨within_of_lookup fun name e found => touched.before watched.inv.tidy.distinct other found,
    fun alive => mapOf_eq_of_lookup fun name => touched.lookup_eq tidy.distinct other alive name⟩

theorem Watched.request (known : i ∈ s.world.lived) {request : Request}
    (supported : request.verb ≠ .other) (fits : FirstFits s.world i ∧ WriteFits s.world i request)
    (plain : Plain s i request) :
    Watched ⟨{ s.world with table := (served s.world i request).1, asked := i :: s.world.asked },
      update s.maps i
        (some (applied (ownMap s i) request (served s.world i request).2))⟩ := by
  have sender := watched.sender known supported fits plain
  refine ⟨request_inv watched.inv known supported fits, ?_, ?_, ?_⟩
  · intro j
    rw [List.mem_cons, watched.asked]
    by_cases same : j = i
    · simp [same]
    · simp [same]
  · intro j own (set : update s.maps i _ j = some own)
    by_cases same : j = i
    · subst same
      rw [update_self] at set
      exact Option.some.inj set ▸ sender.1
    · rw [update_of_ne same] at set
      exact (watched.others known supported fits same).1.trans (watched.within j own set)
  · intro j own (set : update s.maps i _ j = some own) alive
    by_cases same : j = i
    · subst same
      rw [update_self] at set
      exact Option.some.inj set ▸ sender.2 alive
    · rw [update_of_ne same] at set
      exact ((watched.others known supported fits same).2 alive).trans
        (watched.exact j own set alive)

theorem observe_watched {after : Observed} {action : Action} (fits : FitsPlainly s action)
    (stepped : observe s action = some after) : Watched after := by
  obtain ⟨next, moved, rfl⟩ := Option.map_eq_some_iff.1 stepped
  have inv := step_inv watched.inv fits.1 moved
  cases action with
  | starts i parent =>
    simp only [step] at moved
    split at moved
    · cases moved
    · rename_i checks
      obtain rfl := Option.some.inj moved
      simp only [not_or] at checks
      refine ⟨inv, watched.asked, watched.within, fun j own set alive => ?_⟩
      have lived := watched.inv.askedLived j ((watched.asked j).2 ⟨own, set⟩)
      refine watched.exact j own set ?_
      by_cases same : j.1 = i.1
      · have : j.2 = i.2 := by simpa [same] using alive.symm
        exact absurd (Prod.ext same this ▸ lived) checks.2.1
      · simpa [same] using alive
  | exits pid =>
    simp only [step, Option.map_eq_some_iff] at moved
    obtain ⟨generation, was, rfl⟩ := moved
    refine ⟨inv, watched.asked, watched.within, fun j own set alive => ?_⟩
    refine watched.exact j own set ?_
    by_cases same : j.1 = pid
    · simp [same] at alive
    · simpa [same] using alive
  | request i request =>
    simp only [step] at moved
    split at moved
    · rename_i known
      obtain rfl := Option.some.inj moved
      obtain ⟨verb, name⟩ := request
      obtain ⟨fits, plain⟩ := fits
      cases verb with
      | other => exact ⟨inv, watched.asked, watched.within, watched.exact⟩
      | read => exact watched.request known (by rintro ⟨⟩) (fits.resolve_left (by rintro ⟨⟩)) trivial
      | write data =>
        exact watched.request known (by rintro ⟨⟩) (fits.resolve_left (by rintro ⟨⟩))
          (plain.resolve_left (by rintro ⟨⟩))
      | writeAt offset data =>
        exact watched.request known (by rintro ⟨⟩) (fits.resolve_left (by rintro ⟨⟩))
          (plain.resolve_left (by rintro ⟨⟩))
      | list start => exact watched.request known (by rintro ⟨⟩) (fits.resolve_left (by rintro ⟨⟩)) trivial
      | delete => exact watched.request known (by rintro ⟨⟩) (fits.resolve_left (by rintro ⟨⟩)) trivial
    · cases moved

end

theorem watched_of_run (run : Reach observe FitsPlainly start s) : Watched s :=
  run.invariant Watched start_watched fun _ _ _ watched fits stepped =>
    observe_watched watched fits stepped

theorem Watched.inherits (watched : Watched s) (alive : s.world.live i.1 = some i.2)
    (first : FirstFits s.world i) (new : s.maps i = none) (set : ownMap s i name = some value) :
    ∃ p, s.world.parent i = some p ∧ ∃ own, s.maps p = some own ∧ own name = some value := by
  have known := watched.inv.liveLived i alive
  have unmarked : envFind s.world.table i inheritedMarker = none := by
    rw [envFind_none_iff (watched.inv.pids i known), lookup_eq_none_iff]
    intro a e held key
    obtain ⟨own, is⟩ := (watched.asked i).1
      (watched.inv.owners e (List.mem_of_getElem? held) i (Entry.key_eq_some.1 key).1)
    rw [new] at is
    cases is
  rw [ownMap, new, first_map watched.inv known alive unmarked (first unmarked).2] at set
  cases parent : s.world.parent i with
  | none =>
    rw [parent] at set
    cases set
  | some p =>
    rw [parent] at set
    obtain ⟨own, is⟩ := (watched.asked p).1 (watched.inv.owner_of_mapOf set)
    exact ⟨p, rfl, own, is, watched.within p own is name value set⟩

/-- In a run where names and values fit, every request of a live instance is answered from its
own map, and what an instance inherits its parent has set. -/
theorem private_maps {s : Observed} (run : Reach observe FitsPlainly start s)
    (alive : s.world.live i.1 = some i.2) {request : Request} (supported : request.verb ≠ .other)
    (fits : FitsPlainly s (.request i request)) :
    (∃ names, names.Nodup ∧ (∀ name, name ∈ names ↔ ownMap s i name ≠ none) ∧
      Answers (ownMap s i) names request (served s.world i request).2) ∧
    (s.maps i = none → ∀ name value, ownMap s i name = some value →
      ∃ p, s.world.parent i = some p ∧ ∃ own, s.maps p = some own ∧ own name = some value) := by
  have watched := watched_of_run run
  have known := watched.inv.liveLived i alive
  have fit := fits.1.resolve_left supported
  have ready := watched.inv.ready known fit.1
  have pid := watched.inv.pids i known
  have is : served s.world i request =
      handle s.world.live (inherited s.world i) i request := serve_eq supported
  refine ⟨⟨shownNames (inherited s.world i) i, ?_⟩, fun new name value set =>
    watched.inherits alive fit.1 new set⟩
  obtain ⟨nodup, members⟩ := shownNames_spec ready.tidy pid
  rw [← (watched.ownMap_within fit.1).2 alive, is]
  exact ⟨nodup, members, handle_answers ready.tidy pid request⟩

/-- Instance (1, 1) once it has written one byte under a name. -/
def noted (name : Name) : Observed where
  world := { started with
    table := (served started (1, 1) ⟨.write [0x76], name⟩).1
    asked := [(1, 1)] }
  maps := Function.update start.maps (1, 1)
    (some (applied (ownMap ⟨started, start.maps⟩ (1, 1)) ⟨.write [0x76], name⟩
      (served started (1, 1) ⟨.write [0x76], name⟩).2))

theorem noted_reached {admits : Observed → Action → Prop} (name : Name)
    (starts : admits start (.starts (1, 1) none))
    (writes : admits ⟨started, start.maps⟩ (.request (1, 1) ⟨.write [0x76], name⟩)) :
    Reach observe admits start (noted name) :=
  (Reach.start.next (.starts (1, 1) none) starts rfl).next _ writes rfl

theorem Answers.read {own : EnvMap} {names : List Name} {reply : Reply}
    (answers : Answers own names ⟨.read, name⟩ reply) (set : own name = some value) :
    reply = .value value := by
  simpa only [Answers, set] using answers

set_option maxRecDepth 4000

/-- What was written under a short name is read back. -/
theorem short_name_read : (served (noted [0x61]).world (1, 1) ⟨.read, [0x61]⟩).2 = .value [0x76] := by
  have room : parentCount (parentInfo started 1) started.table <
      started.table.countP (vacant started.live) := by decide
  have fits : FitsPlainly ⟨started, start.maps⟩ (.request (1, 1) ⟨.write [0x76], [0x61]⟩) :=
    ⟨.inr ⟨fun _ => ⟨rfl, room⟩, .inr (by decide)⟩, .inr (.inr (by decide))⟩
  have marked : envFind (noted [0x61]).world.table (1, 1) inheritedMarker ≠ none := by
    decide
  have reads : FitsPlainly (noted [0x61]) (.request (1, 1) ⟨.read, [0x61]⟩) :=
    ⟨.inr ⟨fun none => absurd none marked, trivial⟩, .inr trivial⟩
  have own : ownMap (noted [0x61]) (1, 1) [0x61] = some [0x76] := by decide
  have supported : Verb.read ≠ .other := nofun
  have run := noted_reached [0x61] ⟨trivial, trivial⟩ fits
  obtain ⟨⟨names, -, -, answer⟩, -⟩ := private_maps run rfl supported reads
  exact answer.read own

def longName : Name := List.replicate envNameMax 0x61

/-- A name of 32 bytes is stored, and no read finds it: the write succeeds, the read does not. -/
theorem long_name_lost :
    Reach observe (fun _ _ => True) start (noted longName) ∧
      ownMap (noted longName) (1, 1) longName = some [0x76] ∧
      (served started (1, 1) ⟨.write [0x76], longName⟩).2 = .result 1 ∧
      (served (noted longName).world (1, 1) ⟨.read, longName⟩).2 = .result (-1) := by
  refine ⟨noted_reached longName trivial trivial, ?_, ?_, ?_⟩
  · decide
  · decide
  · decide

end Racccoon.Env
