import Racccoon.Namespace.Ledger

/-!
What each entry of a namespace was given by the call that installed it. The abstract
table forgets unused slots, so nothing is left over in it: installing an entry writes
all of it. The tables of the kernel agree with it, apart from the leftovers.
-/

namespace Racccoon.Namespace

open Run

abbrev Entries := List (Option Mount)

def view (mount : Mount) : Option Mount := if mount.serverPid = 0 then none else some mount

def viewTable (table : List Mount) : Entries := table.map view

namespace Entries

def at_ (mountPrefix : Text) : Option Mount → Bool
  | none => false
  | some entry => entry.mountPrefix = mountPrefix

variable (entries : Entries)

def install (entry : Mount) : Option Entries :=
  (entries.findIdx? Option.isNone).map fun slot => entries.set slot (some entry)

variable (mountPrefix : Text)

def mount (pid generation : Nat) : Option Entries :=
  match entries.findIdx? (at_ mountPrefix) with
  | some slot => some (entries.set slot (some ⟨mountPrefix, pid, generation, [], 0⟩))
  | none => entries.install ⟨strCopy mountPrefix nsPrefixMax, pid, generation, [], 0⟩

def unmount : Option Entries :=
  (entries.findIdx? (at_ mountPrefix)).map fun slot => entries.set slot none

def clear (add create : Bool) : Option Mount → Option Mount
  | none => none
  | some entry =>
    if entry.mountPrefix = mountPrefix then
      if !add then none
      else if create then some { entry with flags := entry.flags &&& ~~~mntCreate }
      else some entry
    else some entry

/-- A bind replaces the entries at its prefix or joins them; the create flag passes
to the member that asks for it. -/
def bind (pid generation : Nat) (target : Text) (add create : Bool) : Option Entries :=
  (Entries.install (entries.map (clear mountPrefix add create)))
    (boundMount mountPrefix pid generation target create)

def reseat (oldPid oldGeneration newPid newGeneration : Nat) (entries : Entries) : Entries :=
  entries.map <| Option.map fun entry =>
    if entry.serverPid = oldPid ∧ entry.serverGeneration = oldGeneration then
      { entry with serverPid := newPid, serverGeneration := newGeneration }
    else entry

end Entries

theorem view_at (mountPrefix : Text) (mount : Mount) :
    Entries.at_ mountPrefix (view mount) = decide (taken mountPrefix mount) := by
  by_cases free : mount.serverPid = 0 <;> simp [view, free, Entries.at_, taken]

theorem view_isNone (mount : Mount) : (view mount).isNone = decide (mount.serverPid = 0) := by
  by_cases free : mount.serverPid = 0 <;> simp [view, free]

theorem viewTable_taken (table : List Mount) (mountPrefix : Text) :
    (viewTable table).findIdx? (Entries.at_ mountPrefix) = takenSlot table mountPrefix := by
  rw [viewTable, List.findIdx?_map]
  exact congrArg (List.findIdx? · table) (funext fun mount => view_at mountPrefix mount)

theorem viewTable_free (table : List Mount) :
    (viewTable table).findIdx? Option.isNone = freeSlot table := by
  rw [viewTable, List.findIdx?_map]
  exact congrArg (List.findIdx? · table) (funext fun mount => view_isNone mount)

variable {table : List Mount}

theorem viewTable_modify {slot : Nat} {mount : Mount} (inside : table[slot]? = some mount)
    (change : Mount → Mount) :
    viewTable (table.modify slot change) = (viewTable table).set slot (view (change mount)) := by
  refine List.ext_getElem? fun index => ?_
  by_cases same : slot = index
  · subst same
    obtain ⟨bound, rfl⟩ := List.getElem?_eq_some_iff.mp inside
    simp [viewTable, bound]
  · simp [viewTable, same]

theorem viewTable_set (table : List Mount) (slot : Nat) (mount : Mount) :
    viewTable (table.set slot mount) = (viewTable table).set slot (view mount) := by
  rw [viewTable, List.map_set, viewTable]

variable {mountPrefix : Text}

theorem takenSlot_get {slot : Nat} (found : takenSlot table mountPrefix = some slot) :
    ∃ mount, table[slot]? = some mount ∧ taken mountPrefix mount := by
  obtain ⟨bound, hit, -⟩ := List.findIdx?_eq_some_iff_getElem.mp found
  exact ⟨table[slot], List.getElem?_eq_getElem bound, of_decide_eq_true hit⟩

theorem freeSlot_get {slot : Nat} (found : freeSlot table = some slot) :
    ∃ mount, table[slot]? = some mount ∧ mount.serverPid = 0 := by
  obtain ⟨bound, hit, -⟩ := List.findIdx?_eq_some_iff_getElem.mp found
  exact ⟨table[slot], List.getElem?_eq_getElem bound, of_decide_eq_true hit⟩

def clean (table : List Mount) (mountPrefix : Text) : Prop :=
  ∀ mount ∈ ((takenSlot table mountPrefix).or (freeSlot table)).bind fun slot => table[slot]?,
    mount.target = [] ∧ mount.flags = 0

instance (table : List Mount) (mountPrefix : Text) : Decidable (clean table mountPrefix) :=
  inferInstanceAs (Decidable (∀ mount ∈ Option.bind _ _, _))

theorem mountTable_view {pid generation : Nat} (unsoiled : clean table mountPrefix)
    (server : pid ≠ 0) :
    (mountTable table mountPrefix pid generation).map viewTable =
      (viewTable table).mount mountPrefix pid generation := by
  unfold mountTable Entries.mount Entries.install
  rw [viewTable_taken, viewTable_free]
  cases found : takenSlot table mountPrefix with
  | some =>
    obtain ⟨mount, inside, -, same⟩ := takenSlot_get found
    obtain ⟨target, flags⟩ := unsoiled mount (by simp [found, inside])
    simp [viewTable_modify inside, view, server, target, flags, same]
  | none =>
    cases unused : freeSlot table with
    | none => rfl
    | some =>
      obtain ⟨mount, inside, -⟩ := freeSlot_get unused
      obtain ⟨target, flags⟩ := unsoiled mount (by simp [found, unused, inside])
      simp [viewTable_modify inside, view, server, target, flags]

theorem unmountTable_view (table : List Mount) (mountPrefix : Text) :
    (unmountTable table mountPrefix).map viewTable = (viewTable table).unmount mountPrefix := by
  unfold unmountTable Entries.unmount
  rw [viewTable_taken]
  cases found : takenSlot table mountPrefix with
  | none => rfl
  | some =>
    obtain ⟨mount, inside, -⟩ := takenSlot_get found
    simp [viewTable_modify inside, view]

theorem clear_view (mountPrefix : Text) (add create : Bool) (mount : Mount) :
    view (clearForBind mountPrefix add create mount) =
      Entries.clear mountPrefix add create (view mount) := by
  unfold clearForBind taken
  by_cases free : mount.serverPid = 0
  · simp [view, free, Entries.clear]
  · by_cases same : mount.mountPrefix = mountPrefix
    · cases add <;> cases create <;> simp [view, free, same, Entries.clear]
    · simp [view, free, same, Entries.clear]

theorem cleared_view (table : List Mount) (mountPrefix : Text) (add create : Bool) :
    viewTable (table.map (clearForBind mountPrefix add create)) =
      (viewTable table).map (Entries.clear mountPrefix add create) := by
  rw [viewTable, viewTable, List.map_map, List.map_map]
  exact List.map_congr_left fun mount _ => clear_view mountPrefix add create mount

/-- A plain bind frees the slots of its prefix, so it fails only where it frees none. -/
theorem clear_unchanged {add create : Bool}
    (full : freeSlot (table.map (clearForBind mountPrefix add create)) = none)
    (keeps : ¬ (add ∧ create)) : table.map (clearForBind mountPrefix add create) = table := by
  refine (List.map_congr_left fun mount member => ?_).trans (List.map_id table)
  by_cases hit : taken mountPrefix mount
  · cases add with
    | true =>
      cases create with
      | true => exact absurd ⟨rfl, rfl⟩ keeps
      | false => simp [clearForBind]
    | false =>
      -- the entry is freed, so there is a free slot after all
      have freed := List.findIdx?_eq_none_iff.mp full _ (List.mem_map_of_mem member)
      simp [clearForBind, hit] at freed
  · simp [clearForBind, hit]

theorem bindTable_view {target : Text} {pid generation : Nat} {add create : Bool} (server : pid ≠ 0)
    (room : freeSlot (table.map (clearForBind mountPrefix add create)) ≠ none ∨
      ¬ (add ∧ create)) :
    viewTable (bindTable table mountPrefix pid generation target add create).2 =
      ((viewTable table).bind mountPrefix pid generation target add create).getD
        (viewTable table) := by
  simp only [bindTable, Entries.bind, Entries.install]
  rw [← cleared_view, viewTable_free]
  cases unused : freeSlot (table.map (clearForBind mountPrefix add create)) with
  | some slot =>
    have whole : view (boundMount mountPrefix pid generation target create) =
        some (boundMount mountPrefix pid generation target create) := if_neg server
    simp [viewTable_set, whole]
  | none =>
    have keeps := room.resolve_left (by simp [unused])
    simp [clear_unchanged unused keeps]

/-- The entries that name `oldPid` all name the instance of that generation. -/
def sameInstance (oldPid oldGeneration : Nat) (mounts : List Mount) : Prop :=
  ∀ mount ∈ mounts, mount.serverPid = oldPid → mount.serverGeneration = oldGeneration

instance (oldPid oldGeneration : Nat) (mounts : List Mount) :
    Decidable (sameInstance oldPid oldGeneration mounts) :=
  inferInstanceAs (Decidable (∀ mount ∈ mounts, _))

theorem reseat_view {oldPid oldGeneration newPid newGeneration : Nat}
    (named : sameInstance oldPid oldGeneration table) (new : newPid ≠ 0) :
    viewTable (if oldPid = 0 then table
        else table.map (reseatMount oldPid newPid newGeneration)) =
      (viewTable table).reseat oldPid oldGeneration newPid newGeneration := by
  split
  · next none =>
      subst none
      rw [Entries.reseat, viewTable, List.map_map]
      refine List.map_congr_left fun mount _ => ?_
      by_cases free : mount.serverPid = 0 <;> simp [view, free]
  · next old =>
      rw [viewTable, viewTable, Entries.reseat, List.map_map, List.map_map]
      refine List.map_congr_left fun mount member => ?_
      simp only [Function.comp_apply, reseatMount]
      by_cases hit : mount.serverPid = oldPid
      · have generation := named mount member hit
        subst hit generation
        simp [view, old, new]
      · rw [if_neg hit]
        by_cases free : mount.serverPid = 0
        · simp [view, free]
        · simp [view, free, hit]

/-- What each entry was given. The rules: a mount lands on no leftovers, a bind -a -c
has a free slot left, and a respawn meets the dead instance's pid in no entry that
names another instance. -/
def provenance : Ledger Entries where
  read := viewTable
  mount _ entries mountPrefix pid generation :=
    (entries.mount mountPrefix pid generation).getD entries
  bind _ entries mountPrefix pid generation target add create :=
    (entries.bind mountPrefix pid generation target add create).getD entries
  unmount entries mountPrefix := (entries.unmount mountPrefix).getD entries
  reseat oldPid oldGeneration newPid newGeneration entries :=
    entries.reseat oldPid oldGeneration newPid newGeneration
  mountRule := clean
  bindRule table mountPrefix _ _ _ add create :=
    freeSlot (table.map (clearForBind mountPrefix add create)) ≠ none ∨ ¬ (add ∧ create)
  reseatRule := sameInstance
  read_mount table mountPrefix pid generation unsoiled server := by
    rw [← mountTable_view unsoiled server]
    cases mountTable table mountPrefix pid generation <;> rfl
  read_bind _ _ _ _ _ _ _ room server := bindTable_view server room
  read_unmount table mountPrefix := by
    rw [← unmountTable_view]
    cases unmountTable table mountPrefix <;> rfl
  read_reseat _ _ _ _ _ named new := reseat_view named new

/-- In every run whose mounts land on no leftovers, whose bind -a -c calls find a
free slot and whose respawns meet the dead instance's pid nowhere else, every entry
of every live namespace is what the call that installed it gave, or the reseat that
replaced that very instance, but for the create flag that a bind -a -c passes on. -/
theorem mounts_as_given (procsMax : Nat) (history : History Entries)
    (run : Reach (historyStep provenance procsMax)
      (fun past action => ruled provenance procsMax past.kernel action)
      (blank provenance) history) :
    ∀ slot < procsMax, (history.kernel.procs slot).used →
      viewTable (history.kernel.procs slot).mounts = history.books slot :=
  kept_run run

instance (kernel : Kernel) :
    (action : Action) → Decidable (ruled provenance 64 kernel action)
  | .nsMount .. => inferInstanceAs (Decidable (_ → clean _ _))
  | .nsBind .. => inferInstanceAs (Decidable (∀ server ∈ _, (_ ∨ ¬ (_ ∧ _))))
  | .tick .. => inferInstanceAs (Decidable (∀ service ∈ _, _ →
      (∀ slot < 64, _ → sameInstance _ _ _) ∧ ∀ slot ∈ _, sameInstance _ _ _))
  | .create | .boot _ | .rfork .. | .die _ | .setuid .. | .srvPost .. | .nsUnmount .. =>
    .isTrue trivial

/-- A file server at "", a posted server mounted and bound elsewhere, a fork, the
file server's death and its restart. -/
def busy : History Entries :=
  outcome (historyStep provenance 64) (fun past action => ruled provenance 64 past.kernel action)
    (blank provenance)
    [.boot (some []), .create, .create, .srvPost 2 "echo".toList,
      .nsMount 3 "/e/".toList "echo".toList, .nsBind 3 "/b/".toList "/e/x".toList 5,
      .nsUnmount 3 "/e/".toList, .rfork 3 true, .die 1, .tick 0 true]

theorem mounts_as_given_busy :
    viewTable (busy.kernel.procs 4).mounts = busy.books 4 ∧ (busy.books 4).take 3 =
      [some ⟨[], 2, 2, [], 0⟩, none, some ⟨"/b/".toList, 3, 1, "x".toList, mntCreate⟩] :=
  ⟨mounts_as_given 64 busy (outcome_reach _ _ (by decide)) 4 (by decide)
    (by decide), by decide⟩

/-- Two servers bound with -a and -c at one prefix, one after the other. -/
def boundOnce : Kernel :=
  outcome (step 64) (fun _ _ => True) boot
    [.boot (some "/x/".toList), .boot (some "/y/".toList), .create,
      .nsBind 3 "/u/".toList "/x/".toList 5]

def boundTwice : Kernel :=
  outcome (step 64) (fun _ _ => True) boundOnce [.nsBind 3 "/u/".toList "/y/".toList 5]

theorem create_flag_passes_on :
    Reach (step 64) (fun _ _ => True) boot boundOnce ∧
      (boundOnce.procs 3).mounts[2]? = some (boundMount "/u/".toList 2 1 [] true) ∧
      (sysNsBind 64 boundOnce 3 "/u/".toList "/y/".toList 5).1 = 0 ∧
      Reach (step 64) (fun _ _ => True) boundOnce boundTwice ∧
      (boundTwice.procs 3).mounts[2]? = some (boundMount "/u/".toList 2 1 [] false) ∧
      boundMount "/u/".toList 2 1 [] true ≠ boundMount "/u/".toList 2 1 [] false := by
  refine ⟨outcome_reach _ _ (by decide), by decide, by decide,
    outcome_reach _ _ (by decide), by decide, by decide⟩

end Racccoon.Namespace
