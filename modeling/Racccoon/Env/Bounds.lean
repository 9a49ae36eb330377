import Racccoon.Env.Model
import Racccoon.Lib.Run
import Racccoon.Lib.Touches
import Racccoon.Lib.Words

/-!
What a request touches of `envd`'s message and table. The loops over texts stop at the NULs
that the table promises to have; the one sum that nothing bounds is the place of the NUL
behind a value.
-/

namespace Racccoon.Env.Bounds

open Racccoon.Words

abbrev Bytes := Nat → UInt8

/-- The arrays of an entry, and what a stray index would find behind them. -/
structure Entry where
  pid : Nat
  generation : Nat
  name : Bytes
  value : Bytes

abbrev Table := Nat → Entry

inductive Field where
  | owner (i : Nat)
  | name (i : Nat)
  | value (i : Nat)
  | message
  | path
  | marker
  deriving DecidableEq

def size : Field → Nat
  | .owner i => if i < envMax then 8 else 0
  | .name i => if i < envMax then 32 else 0
  | .value i => if i < envMax then 64 else 0
  | .message => 8192
  | .path => 100
  | .marker => 11

abbrev Touches := List (Touch Field)

def front (field : Field) (count : Nat) : Touch Field := .bytes field 0 count

/-- Where a loop stops. One that runs as far as `most` has left its field by then. -/
def stopAt (stops : Nat → Bool) (most : Nat) : Nat :=
  ((List.range most).find? stops).getD most

def textEnd (bytes : Bytes) (most : Nat) : Nat := stopAt (bytes · == 0) most

/-- Where `strcmp` stops. -/
def parting (name text : Bytes) : Nat := stopAt (fun k => name k == 0 || name k != text k) 100

def named (e : Entry) (text : Bytes) : Bool :=
  e.name (parting e.name text) == text (parting e.name text)

def owns (e : Entry) (sender : Instance) : Bool := e.pid == sender.1 && e.generation == sender.2

/-- The entries that a search looks at. -/
def visited (found : Option Nat) : List Nat := List.range ((found.map (· + 1)).getD envMax)

def search (p : Nat → Bool) : Option Nat := (List.range envMax).find? p

variable (table : Table)

def envFind (sender : Instance) (text : Bytes) : Option Nat :=
  search fun i => owns (table i) sender && named (table i) text

def compares (i : Nat) (source : Field) (text : Bytes) : Touches :=
  [front (.name i) (parting (table i).name text + 1),
    front source (parting (table i).name text + 1)]

def finds (sender : Instance) (source : Field) (text : Bytes) : Touches :=
  (visited (envFind table sender text)).flatMap fun i =>
    front (.owner i) 8 :: if owns (table i) sender then compares table i source text else []

def freeSlot : Option Nat := search fun i => (table i).pid == 0

variable (live : Live)

def reclaimed (table : Table) : Option Nat :=
  search fun i => live (table i).pid != some (table i).generation

def envFindFreeOrReclaim (table : Table) : Option Nat :=
  (freeSlot table).or (reclaimed live table)

def reclaims (table : Table) : Touches :=
  (visited (freeSlot table) ++ if freeSlot table = none then visited (reclaimed live table)
    else []).map fun i => front (.owner i) 8

abbrev Served := Touches × Table

def before (touches : Touches) (served : Served) : Served := (touches ++ served.1, served.2)

def overlay (old : Bytes) (place count : Nat) (src : Bytes) : Bytes := fun k =>
  if place ≤ k ∧ k < place + count then src (k - place) else old k

/-- The owner and the name of an entry: `env_copy_name` cuts the name to 31 bytes. -/
def setNamed (slot : Nat) (sender : Instance) (source : Field) (text : Bytes) : Served :=
  let ends := textEnd text 31
  ([front (.owner slot) 8, front source (ends + 1), front (.name slot) (ends + 1)],
    Function.update table slot ⟨sender.1, sender.2,
      overlay (overlay (table slot).name 0 ends text) ends 1 fun _ => 0, (table slot).value⟩)

def setValue (slot place count : Nat) (src : Bytes) : Served :=
  ([.bytes (.value slot) place count], Function.update table slot
    { table slot with value := overlay (table slot).value place count src })

def marker : Bytes := fun k => (".inherited".toList.map fun c => UInt8.ofNat c.toNat).getD k 0

def copyLoop (live : Live) (child parent : Instance) : Nat → Nat → Table → Served
  | 0, _, table => ([], table)
  | count + 1, i, table =>
    let rest := copyLoop live child parent count (i + 1)
    before [front (.owner i) 8] <|
      if owns (table i) parent then
        before (compares table i .marker marker) <|
          if named (table i) marker then rest table
          else
            before (reclaims live table) <|
              match envFindFreeOrReclaim live table with
              | none => ([], table)
              | some slot =>
                let copied := setNamed table slot child (.name i) (table i).name
                let put := setValue copied.2 slot 0 64 (copied.2 i).value
                before (copied.1 ++ front (.value i) 64 :: put.1) (rest put.2)
      else rest table

def marks (table : Table) (sender : Instance) : Served :=
  before (reclaims live table) <|
    match envFindFreeOrReclaim live table with
    | none => ([], table)
    | some slot =>
      let set := setNamed table slot sender .marker marker
      before set.1 (setValue set.2 slot 0 1 fun _ => 0)

def envMaybeInherit (parent : Option Instance) (table : Table) (sender : Instance) : Served :=
  before (finds table sender .marker marker) <|
    if (envFind table sender marker).isSome then ([], table)
    else
      let copied := match parent with
        | none => ([], table)
        | some parent => copyLoop live sender parent envMax 0 table
      before copied.1 (marks live copied.2 sender)

inductive Verb where
  | read
  | write
  | writeAt
  | list
  | delete
  | other
  deriving DecidableEq

/-- A message of `FS_MSG_MAX` bytes, and what the kernel says about its sender. -/
structure Request where
  verb : Verb
  sender : Instance
  bytes : Bytes

namespace Request

def len (r : Request) : Nat := word r.bytes 25
def off (r : Request) : Nat := word r.bytes 26
def dotted (r : Request) : Bool := r.bytes 0 == 0x2E

end Request

variable (table : Table)

def find (r : Request) : Option Nat :=
  if r.dotted then none else envFind table r.sender r.bytes

def looks (r : Request) : Touches :=
  front .path 1 :: if r.dotted then [] else finds table r.sender .path r.bytes

def fsRead (r : Request) : Served :=
  before (looks table r) <|
    match find table r with
    | none => ([], table)
    | some i =>
      let vlen := textEnd (table i).value 64
      ([front (.value i) (vlen + 1), .bytes .message 4 vlen], table)

variable (live : Live)

/-- The slot that a write goes to: a new one only where `creates`. -/
def writeSlot (table : Table) (r : Request) (creates : Bool) : Touches × Option Nat :=
  if (find table r).isNone && !r.dotted && creates then
    (looks table r ++ reclaims live table, envFindFreeOrReclaim live table)
  else (looks table r, find table r)

/-- Bytes of the message go to a value from `offset` on, and a NUL behind them. -/
def putText (i offset count : Nat) (r : Request) (data : Nat) : Served :=
  let put := setValue table i offset count fun k => r.bytes (data + k)
  before (.bytes .message data count :: put.1) (setValue put.2 i (offset + count) 1 fun _ => 0)

def fsWrite (table : Table) (r : Request) : Served :=
  let slot := writeSlot live table r true
  before (.bytes .message 100 4 :: slot.1) <|
    match slot.2 with
    | none => ([], table)
    | some i =>
      let set := setNamed table i r.sender .path r.bytes
      before set.1 (putText set.2 i 0 (min r.len 63) r 104)

def fsWriteAt (table : Table) (r : Request) : Served :=
  let slot := writeSlot live table r (r.off == 0)
  before (.bytes .message 100 8 :: slot.1) <|
    match slot.2 with
    | none => ([], table)
    | some i =>
      let set := if r.off = 0 then setNamed table i r.sender .path r.bytes else ([], table)
      let wrote := min r.len (63 - r.off)
      before set.1 (if r.off + wrote > 0 then putText set.2 i r.off wrote r 108 else ([], set.2))

def listLoop (table : Table) (sender : Instance) (start : Nat) : Nat → Nat → Nat → Nat → Touches
  | 0, _, _, _ => []
  | fuel + 1, i, seen, count =>
    if count < listPage then
      front (.owner i) 8 ::
        if owns (table i) sender then
          front (.name i) 1 ::
            if (table i).name 0 = 0x2E then listLoop table sender start fuel (i + 1) seen count
            else if seen < start then listLoop table sender start fuel (i + 1) (seen + 1) count
            else
              let n := textEnd (table i).name 32
              [front (.name i) (n + 1), .bytes .message (4 + 36 * count) (n + 1),
                  .bytes .message (4 + 36 * count + 32) 1] ++
                listLoop table sender start fuel (i + 1) (seen + 1) (count + 1)
        else listLoop table sender start fuel (i + 1) seen count
    else []

def fsDelete (r : Request) : Served :=
  before (looks table r) <|
    match find table r with
    | none => ([], table)
    | some i => ([front (.owner i) 8], Function.update table i { table i with pid := 0 })

def handle (table : Table) (r : Request) : Served :=
  match r.verb with
  | .read => fsRead table r
  | .write => fsWrite live table r
  | .writeAt => fsWriteAt live table r
  | .list => (.bytes .message 104 4 :: listLoop table r.sender r.off envMax 0 0 0, table)
  | .delete => fsDelete table r
  | .other => ([], table)

/-- One turn of the loop of `main`; the reply goes to the front of the message. -/
def serve (parent : Option Instance) (table : Table) (r : Request) : Served :=
  if r.verb = .other then ([front .message 4], table)
  else
    let inherits := envMaybeInherit live parent table r.sender
    before (inherits.1 ++ [front .message 100, front .path 100, front .message 4])
      (handle live inherits.2 r)

def Ended (bytes : Bytes) (most : Nat) : Prop := ∃ k < most, bytes k = 0

structure Entry.Ends (e : Entry) : Prop where
  name : Ended e.name 32
  value : Ended e.value 64

def Terminated : Prop := ∀ i < envMax, (table i).Ends

structure Kept (served : Served) : Prop where
  within : AllWithin size served.1
  ends : Terminated served.2

section Texts
variable {stops : Nat → Bool} {most k : Nat} {name text old : Bytes}

@[simp] theorem front_within {field : Field} {count : Nat} :
    (front field count).Within size ↔ count ≤ size field := by
  simp only [front, within_bytes]
  omega

theorem stopAt_le_of (hit : stops k = true) (inside : k < most) : stopAt stops most ≤ k := by
  unfold stopAt
  cases found : (List.range most).find? stops with
  | none => exact absurd hit (List.find?_eq_none.mp found k (List.mem_range.mpr inside))
  | some =>
    refine Nat.le_of_not_lt fun later => ?_
    have missed := (List.find?_range_eq_some.mp found).2.2 k later
    rw [hit] at missed
    cases missed

theorem textEnd_le : textEnd text most ≤ most := by
  unfold textEnd stopAt
  cases found : (List.range most).find? (text · == 0) with
  | none => exact Nat.le_refl _
  | some j => exact Nat.le_of_lt (List.mem_range.mp (List.mem_of_find?_eq_some found))

theorem Ended.textEnd_lt (ended : Ended text most) : textEnd text most < most := by
  obtain ⟨k, inside, nul⟩ := ended
  exact Nat.lt_of_le_of_lt (stopAt_le_of (by simp [nul]) inside) inside

/-- A comparison ends with whichever text ends first. -/
theorem parting_le (nul : name k = 0 ∨ text k = 0) (inside : k < 100) : parting name text ≤ k := by
  refine stopAt_le_of ?_ inside
  by_cases ends : name k = 0
  · simp [ends]
  · simp [nul.resolve_left ends, ends]

theorem Ended.parting_lt (ended : Ended name 32) : parting name text < 32 := by
  obtain ⟨k, inside, nul⟩ := ended
  exact Nat.lt_of_le_of_lt (parting_le (.inl nul) (by omega)) inside

theorem parting_marker : parting name marker < 11 :=
  Nat.lt_succ_of_le (parting_le (.inr rfl) (by decide))

theorem ended_overlay (room : k < most) : Ended (overlay old k 1 fun _ => 0) most :=
  ⟨k, room, if_pos (by omega)⟩

end Texts

section Requests
variable {live : Live} {table : Table} {sender : Instance} {source : Field} {text : Bytes}
variable {slot i : Nat} {r : Request} {p : Nat → Bool}

theorem Kept.before {touches : Touches} {served : Served} (within : AllWithin size touches)
    (kept : Kept served) : Kept (before touches served) :=
  ⟨allWithin_append.mpr ⟨within, kept.within⟩, kept.ends⟩

theorem Terminated.quiet (ends : Terminated table) : Kept ([], table) := ⟨allWithin_nil, ends⟩

theorem Terminated.update (ends : Terminated table) {e : Entry} (new : e.Ends) :
    Terminated (Function.update table slot e) := by
  intro i inside
  by_cases own : i = slot
  · subst own
    rwa [Function.update_self]
  · rw [Function.update_of_ne own]
    exact ends i inside

theorem search_lt (found : search p = some slot) : slot < envMax :=
  List.mem_range.mp (List.mem_of_find?_eq_some found)

theorem visited_lt (member : i ∈ visited (search p)) : i < envMax := by
  have below := List.mem_range.mp member
  cases found : search p with
  | none => simpa [found] using below
  | some j =>
    have last := search_lt found
    simp only [found, Option.map_some, Option.getD_some] at below
    omega

theorem envFindFreeOrReclaim_lt (found : envFindFreeOrReclaim live table = some slot) :
    slot < envMax := by
  rcases Option.or_eq_some_iff.mp found with free | ⟨-, reclaimed⟩
  · exact search_lt free
  · exact search_lt reclaimed

theorem owner_within (inside : i < envMax) : (front (.owner i) 8).Within size := by
  simp [size, inside]

theorem reclaims_within : AllWithin size (reclaims live table) := by
  intro touch member
  obtain ⟨i, seen, rfl⟩ := List.mem_map.mp member
  refine owner_within ?_
  rcases List.mem_append.mp seen with free | dead
  · exact visited_lt free
  · split at dead
    · exact visited_lt dead
    · cases dead

section
variable (ends : Terminated table)
include ends

theorem compares_within (inside : i < envMax) (reach : parting (table i).name text < size source) :
    AllWithin size (compares table i source text) := by
  have name : parting (table i).name text < 32 := (ends i inside).name.parting_lt
  simp only [compares, allWithin_cons, front_within, allWithin_nil, and_true, size, inside]
  exact ⟨name, reach⟩

theorem finds_within (reach : ∀ i < envMax, parting (table i).name text < size source) :
    AllWithin size (finds table sender source text) := by
  refine allWithin_flatMap fun i seen => allWithin_cons.mpr ⟨owner_within (visited_lt seen), ?_⟩
  exact .ite (fun _ => compares_within ends (visited_lt seen) (reach i (visited_lt seen)))
    fun _ => allWithin_nil

theorem setNamed_kept (inside : slot < envMax) (reach : textEnd text 31 < size source) :
    Kept (setNamed table slot sender source text) := by
  have short : textEnd text 31 < 32 := Nat.lt_succ_of_le textEnd_le
  constructor
  · simp only [setNamed, allWithin_cons, front_within, allWithin_nil, and_true, size, inside]
    exact ⟨Nat.le_refl 8, reach, short⟩
  · exact ends.update ⟨ended_overlay short, (ends slot inside).value⟩

theorem setPath_kept (inside : slot < envMax) : Kept (setNamed table slot sender .path text) :=
  setNamed_kept ends inside (Nat.lt_of_le_of_lt textEnd_le (by decide))

end

theorem copyLoop_kept {child parent : Instance} (count : Nat) (ends : Terminated table)
    (inside : i + count ≤ envMax) : Kept (copyLoop live child parent count i table) := by
  induction count generalizing i table with
  | zero => exact ends.quiet
  | succ count ih =>
    have here : i < envMax := by omega
    refine .before (allWithin_cons.mpr ⟨owner_within here, allWithin_nil⟩) ?_
    split
    · refine .before (compares_within ends here parting_marker) ?_
      split
      · exact ih ends (by omega)
      · refine .before reclaims_within ?_
        split
        · exact ends.quiet
        · next slot found =>
            have room := envFindFreeOrReclaim_lt found
            have copied : Kept (setNamed table slot child (.name i) (table i).name) := by
              refine setNamed_kept ends room ?_
              simp only [size, here]
              exact Nat.lt_succ_of_le textEnd_le
            obtain ⟨k, short, nul⟩ := (copied.ends i here).value
            refine .before (allWithin_append.mpr ⟨copied.within, ?_⟩) (ih ?_ (by omega))
            · simp [size, here, room, setValue]
            · refine copied.ends.update ⟨(copied.ends slot room).name, k, short, ?_⟩
              exact (if_pos (by omega)).trans nul
    · exact ih ends (by omega)

theorem marks_kept (ends : Terminated table) : Kept (marks live table sender) := by
  refine .before reclaims_within ?_
  split
  · exact ends.quiet
  · next slot found =>
      have room := envFindFreeOrReclaim_lt found
      have set : Kept (setNamed table slot sender .marker marker) :=
        setNamed_kept ends room (by decide)
      refine .before set.within ⟨?_, set.ends.update ⟨(set.ends slot room).name, ?_⟩⟩
      · simp [setValue, size, room]
      · exact ended_overlay (by decide)

theorem envMaybeInherit_kept (ends : Terminated table) (parent : Option Instance) :
    Kept (envMaybeInherit live parent table sender) := by
  refine .before (finds_within ends fun _ _ => parting_marker) ?_
  split
  · exact ends.quiet
  · cases parent with
    | none => exact .before allWithin_nil (marks_kept ends)
    | some parent =>
      have copied : Kept (copyLoop live sender parent envMax 0 table) :=
        copyLoop_kept envMax ends (Nat.le_of_eq (Nat.zero_add _))
      exact .before copied.within (marks_kept copied.ends)

theorem find_lt (found : find table r = some i) : i < envMax := by
  unfold find at found
  split at found
  · cases found
  · exact search_lt found

theorem looks_within (ends : Terminated table) : AllWithin size (looks table r) := by
  refine allWithin_cons.mpr ⟨by simp [size], .ite (fun _ => allWithin_nil) fun _ => ?_⟩
  exact finds_within ends fun i inside =>
    Nat.lt_trans (ends i inside).name.parting_lt (by decide)

theorem writeSlot_within (ends : Terminated table) (creates : Bool) :
    AllWithin size (writeSlot live table r creates).1 := by
  unfold writeSlot
  split
  · exact allWithin_append.mpr ⟨looks_within ends, reclaims_within⟩
  · exact looks_within ends

theorem writeSlot_lt {creates : Bool} (found : (writeSlot live table r creates).2 = some i) :
    i < envMax := by
  unfold writeSlot at found
  split at found
  · exact envFindFreeOrReclaim_lt found
  · exact find_lt found

section
variable (ends : Terminated table)
include ends

theorem putText_kept (inside : i < envMax) {offset count data : Nat} (room : offset + count < 64)
    (whole : data ≤ 108) : Kept (putText table i offset count r data) := by
  constructor
  · simp only [putText, before, setValue, allWithin_append, allWithin_cons, within_bytes,
      allWithin_nil, and_true, size, inside, ↓reduceIte]
    omega
  · simp only [putText, setValue, Function.update_self, Function.update_idem]
    exact ends.update ⟨(ends i inside).name, ended_overlay room⟩

theorem fsRead_kept : Kept (fsRead table r) := by
  refine .before (looks_within ends) ?_
  split
  · exact ends.quiet
  · next i found =>
      have inside := find_lt found
      have short := (ends i inside).value.textEnd_lt
      refine ⟨?_, ends⟩
      simp only [allWithin_cons, front_within, within_bytes, allWithin_nil, and_true, size, inside,
        ↓reduceIte]
      omega

theorem fsWrite_kept : Kept (fsWrite live table r) := by
  refine .before (allWithin_cons.mpr ⟨by simp [size], writeSlot_within ends true⟩) ?_
  split
  · exact ends.quiet
  · next i found =>
      have inside := writeSlot_lt found
      have set : Kept (setNamed table i r.sender .path r.bytes) := setPath_kept ends inside
      exact .before set.within (putText_kept set.ends inside (by omega) (by decide))

theorem listLoop_within (start fuel seen count : Nat) (inside : i + fuel ≤ envMax) :
    AllWithin size (listLoop table sender start fuel i seen count) := by
  induction fuel generalizing i seen count with
  | zero => exact allWithin_nil
  | succ fuel ih =>
    have here : i < envMax := by omega
    have rest (seen count : Nat) := @ih (i + 1) seen count (by omega)
    refine .ite (fun room => allWithin_cons.mpr ⟨owner_within here, ?_⟩) fun _ => allWithin_nil
    refine .ite (fun _ => allWithin_cons.mpr ⟨by simp [size, here], ?_⟩) fun _ => rest _ _
    refine .ite (fun _ => rest _ _) fun _ => .ite (fun _ => rest _ _) fun _ =>
      allWithin_append.mpr ⟨?_, rest _ _⟩
    have short := (ends i here).name.textEnd_lt
    simp only [listPage] at room
    simp only [allWithin_cons, front_within, within_bytes, allWithin_nil, and_true, size, here,
      ↓reduceIte]
    omega

theorem fsDelete_kept : Kept (fsDelete table r) := by
  refine .before (looks_within ends) ?_
  split
  · exact ends.quiet
  · next i found =>
      have inside := find_lt found
      exact ⟨allWithin_cons.mpr ⟨owner_within inside, allWithin_nil⟩,
        ends.update ⟨(ends i inside).name, (ends i inside).value⟩⟩

/-- A write behind a value: an offset over 63, for a variable that the sender has. -/
def Strays (table : Table) (r : Request) : Prop :=
  r.verb = .writeAt ∧ 64 ≤ r.off ∧ find table r ≠ none

theorem fsWriteAt_kept (near : 64 ≤ r.off → find table r = none) :
    Kept (fsWriteAt live table r) := by
  refine .before (allWithin_cons.mpr ⟨by simp [size], writeSlot_within ends _⟩) ?_
  split
  · exact ends.quiet
  · next i found =>
      have inside := writeSlot_lt found
      have low : r.off < 64 := by
        by_contra high
        have missing := near (Nat.le_of_not_lt high)
        have later : r.off ≠ 0 := by omega
        simp [writeSlot, missing, later] at found
      have set : Kept (if r.off = 0 then setNamed table i r.sender .path r.bytes
          else ([], table)) := by
        split
        · exact setPath_kept ends inside
        · exact ends.quiet
      refine .before set.within ?_
      split
      · exact putText_kept set.ends inside (by omega) (by decide)
      · exact set.ends.quiet

end

theorem fsWriteAt_strays (high : 64 ≤ r.off) (present : find table r ≠ none) :
    ¬ AllWithin size (fsWriteAt live table r).1 := by
  obtain ⟨i, found⟩ := Option.ne_none_iff_exists'.mp present
  have later : r.off ≠ 0 := by omega
  have slot : (writeSlot live table r (r.off == 0)).2 = some i := by
    simp [writeSlot, found]
  have none_ : 63 - r.off = 0 := by omega
  intro within
  have nul := within (.bytes (.value i) (r.off + 0) 1) (by
    simp [fsWriteAt, slot, none_, putText, setValue, before, Nat.pos_of_ne_zero later])
  have inside := find_lt found
  simp only [within_bytes, size, inside, ↓reduceIte] at nul
  omega

end Requests

structure World where
  live : Live
  parent : Option Instance
  request : Request

/-- The condition for a request: after the inheriting, it writes behind no value. -/
def Fits (table : Table) (w : World) : Prop :=
  ¬ Strays (envMaybeInherit w.live w.parent table w.request.sender).2 w.request

def step (table : Table) (w : World) : Option Table :=
  some (serve w.live w.parent table w.request).2

def boot : Table := fun _ => ⟨0, 0, fun _ => 0, fun _ => 0⟩

theorem serve_kept_iff {table : Table} (ends : Terminated table) (w : World) :
    Kept (serve w.live w.parent table w.request) ↔ Fits table w := by
  have inherits : Kept (envMaybeInherit w.live w.parent table w.request.sender) :=
    envMaybeInherit_kept ends w.parent
  unfold serve Fits
  generalize envMaybeInherit w.live w.parent table w.request.sender = now at inherits
  by_cases other : w.request.verb = .other
  · rw [if_pos other]
    exact iff_of_true ⟨by simp [size], ends⟩ fun strays => by cases strays.1.symm.trans other
  rw [if_neg other]
  have heads : AllWithin size (now.1 ++ [front .message 100, front .path 100, front .message 4]) :=
    allWithin_append.mpr ⟨inherits.within, by decide⟩
  by_cases strays : Strays now.2 w.request
  · refine iff_of_false (fun kept => ?_) fun fits => fits strays
    have within := (allWithin_append.mp kept.within).2
    rw [handle, strays.1] at within
    exact fsWriteAt_strays strays.2.1 strays.2.2 within
  · refine iff_of_true (.before heads ?_) strays
    unfold handle
    cases verb : w.request.verb with
    | read => exact fsRead_kept inherits.ends
    | write => exact fsWrite_kept inherits.ends
    | writeAt =>
      exact fsWriteAt_kept inherits.ends fun high => by_contra fun there => strays ⟨verb, high, there⟩
    | list =>
      refine ⟨allWithin_cons.mpr ⟨by simp [size], ?_⟩, inherits.ends⟩
      exact listLoop_within inherits.ends _ _ _ _ (Nat.le_of_eq (Nat.zero_add _))
    | delete => exact fsDelete_kept inherits.ends
    | other => exact absurd verb other

/-- As long as no write went behind a value, every text ends in its field, and the next request
stays inside exactly if it does not write behind a value either. -/
theorem requests_stay_inside_iff (table : Table)
    (run : Run.Reach step Fits boot table) (w : World) :
    Terminated table ∧ (Kept (serve w.live w.parent table w.request) ↔ Fits table w) := by
  have ends : Terminated table := by
    refine run.invariant Terminated (fun _ _ => ⟨⟨0, by decide, rfl⟩, 0, by decide, rfl⟩) ?_
    rintro before w after ends fits stepped
    cases stepped
    exact ((serve_kept_iff ends w).mpr fits).ends
  exact ⟨ends, serve_kept_iff ends w⟩

/-- `x`, written at an offset. -/
def writeX (offset : Nat) : World where
  live := fun pid => if pid = 1 then some 1 else none
  parent := none
  request := ⟨.writeAt, (1, 1), setWord (setWord (setWord (fun _ => 0) 0 0x78) 25 1) 26 offset⟩

def chunk (offset : Nat) : World :=
  { writeX offset with request.bytes := setWord (writeX offset).request.bytes 27 0x79 }

def readBack : World := { chunk 0 with request.verb := .read }

/-- A value in two chunks, read back, and then one more at the end of the field. -/
theorem requests_stay_inside_chunks : ∃ first second third, step boot (chunk 0) = some first ∧
    step first (chunk 1) = some second ∧ step second readBack = some third ∧
    (third 1).value 1 = 0x79 ∧ Terminated third ∧
    (Kept (serve (chunk 65535).live (chunk 65535).parent third (chunk 65535).request) ↔
      Fits third (chunk 65535)) := by
  have early (before : Table) (offset : Nat) (front : (chunk offset).request.off < 64) :
      Fits before (chunk offset) := fun strays => Nat.not_le.mpr front strays.2.1
  refine ⟨_, _, _, rfl, rfl, rfl, by decide, requests_stay_inside_iff _ ?_ (chunk 65535)⟩
  refine .next readBack ?_ (fun strays => nomatch strays.1) rfl
  exact .next (chunk 1) (.next (chunk 0) .start (early _ 0 (by decide)) rfl)
    (early _ 1 (by decide)) rfl

/-- The variable is there after the first request, and the second clears a byte behind the
table. -/
theorem write_behind_value : ∃ table, step boot (writeX 0) = some table ∧
    Run.Reach step Fits boot table ∧
    ¬ AllWithin size (serve (writeX 65535).live (writeX 65535).parent table
      (writeX 65535).request).1 := by
  have fits : Fits boot (writeX 0) := fun strays => absurd strays.2.1 (by decide)
  refine ⟨_, rfl, .next (writeX 0) .start fits rfl, ?_⟩
  decide

end Racccoon.Env.Bounds
