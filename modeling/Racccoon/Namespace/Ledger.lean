import Racccoon.Namespace.Model

/-!
Books kept beside the kernel. A ledger says what a table amounts to and what each
call makes of that, under its rules; the history of a run carries the book of every
process from call to call. In a run that keeps the rules the books agree with the
tables.
-/

namespace Racccoon.Namespace

open Run

universe u

/-- `read` is what a table amounts to. The other operations are what a call means for
it; a mount and a bind may look at the table they edit. -/
structure Ledger (Book : Type u) where
  read : List Mount → Book
  mount : List Mount → Book → Text → Nat → Nat → Book
  bind : List Mount → Book → Text → Nat → Nat → Text → Bool → Bool → Book
  unmount : Book → Text → Book
  reseat : Nat → Nat → Nat → Nat → Book → Book
  mountRule : List Mount → Text → Prop
  bindRule : List Mount → Text → Nat → Nat → Text → Bool → Bool → Prop
  reseatRule : Nat → Nat → List Mount → Prop
  read_mount : ∀ table mountPrefix pid generation, mountRule table mountPrefix → pid ≠ 0 →
    read ((mountTable table mountPrefix pid generation).getD table) =
      mount table (read table) mountPrefix pid generation
  read_bind : ∀ table mountPrefix pid generation target add create,
    bindRule table mountPrefix pid generation target add create → pid ≠ 0 →
    read (bindTable table mountPrefix pid generation target add create).2 =
      bind table (read table) mountPrefix pid generation target add create
  read_unmount : ∀ table mountPrefix,
    read ((unmountTable table mountPrefix).getD table) = unmount (read table) mountPrefix
  read_reseat : ∀ table oldPid oldGeneration newPid newGeneration,
    reseatRule oldPid oldGeneration table → newPid ≠ 0 →
    read (if oldPid = 0 then table else table.map (reseatMount oldPid newPid newGeneration)) =
      reseat oldPid oldGeneration newPid newGeneration (read table)

variable {Book : Type u} (ledger : Ledger Book) (procsMax : Nat)

structure History (Book : Type u) where
  kernel : Kernel
  books : Nat → Book

variable (kernel : Kernel)
variable (books : Nat → Book)

def openBook : Nat → Book :=
  match unusedSlot procsMax kernel with
  | none => books
  | some slot =>
    Function.update books slot (ledger.read (bornProc procsMax kernel slot).mounts)

def lowered (index : Nat) : Kernel :=
  kernel.setService index fun service => { service with pid := 0 }

/-- A tick that respawns a service reseats every namespace. -/
def reseatBooks (index : Nat) (service : Service) : Nat → Book :=
  match unusedSlot procsMax (lowered kernel index) with
  | none => books
  | some slot => fun owner =>
    ledger.reseat service.pid service.generation (slot + 1)
      (bornProc procsMax (lowered kernel index) slot).generation
      (openBook ledger procsMax (lowered kernel index) books owner)

def respawns (service : Service) : Prop :=
  service.givenUp = false ∧ instances procsMax kernel service.pid ≠ some service.generation ∧
    service.restarts < svcRestartLimit

instance (service : Service) : Decidable (respawns procsMax kernel service) :=
  inferInstanceAs (Decidable (_ ∧ _))

def enter : Action → Nat → Book
  | .create | .boot _ => openBook ledger procsMax kernel books
  | .rfork caller fits =>
    match unusedSlot procsMax kernel with
    | none => books
    | some slot => if fits then Function.update books slot (books caller) else books
  | .nsMount caller mountPrefix srvName =>
    match srvLookup procsMax kernel srvName with
    | none => books
    | some (pid, generation) => Function.update books caller
        (ledger.mount (kernel.procs caller).mounts (books caller) mountPrefix pid generation)
  | .nsBind caller mountPrefix source flags =>
    match bindSource procsMax kernel caller source with
    | none => books
    | some (pid, generation, target) => Function.update books caller
        (ledger.bind (kernel.procs caller).mounts (books caller) mountPrefix pid generation
          target (flags &&& 1 ≠ 0) (flags &&& 4 ≠ 0))
  | .nsUnmount caller mountPrefix =>
    Function.update books caller (ledger.unmount (books caller) mountPrefix)
  | .tick index fits =>
    match kernel.services[index]? with
    | none => books
    | some service =>
      if respawns procsMax kernel service ∧ fits then
        reseatBooks ledger procsMax kernel books index service
      else books
  | .die _ | .setuid .. | .srvPost .. => books

def historyStep (history : History Book) (action : Action) : Option (History Book) :=
  (step procsMax history.kernel action).map fun after =>
    ⟨after, enter ledger procsMax history.kernel history.books action⟩

def blank : History Book := ⟨boot, fun slot => ledger.read (boot.procs slot).mounts⟩

def ruled : Action → Prop
  | .nsMount caller mountPrefix srvName => srvLookup procsMax kernel srvName ≠ none →
      ledger.mountRule (kernel.procs caller).mounts mountPrefix
  | .nsBind caller mountPrefix source flags => ∀ server ∈ bindSource procsMax kernel caller source,
      ledger.bindRule (kernel.procs caller).mounts mountPrefix server.1 server.2.1 server.2.2
        (flags &&& 1 ≠ 0) (flags &&& 4 ≠ 0)
  | .tick index _ => ∀ service ∈ kernel.services[index]?, respawns procsMax kernel service →
      (∀ slot < procsMax, (kernel.procs slot).used →
        ledger.reseatRule service.pid service.generation (kernel.procs slot).mounts) ∧
      ∀ slot ∈ unusedSlot procsMax (lowered kernel index),
        ledger.reseatRule service.pid service.generation
          (bornProc procsMax (lowered kernel index) slot).mounts
  | _ => True

def Kept (history : History Book) : Prop :=
  ∀ slot < procsMax, (history.kernel.procs slot).used →
    ledger.read (history.kernel.procs slot).mounts = history.books slot

variable {ledger procsMax}
variable {kernel : Kernel} {books : Nat → Book} {slot caller : Nat}

section
variable (kept : Kept ledger procsMax ⟨kernel, books⟩)
include kept

theorem Kept.own (inside : slot < procsMax)
    (used : (kernel.procs slot).used) : ledger.read (kernel.procs slot).mounts = books slot :=
  kept slot inside used

theorem kept_set (proc : Proc) :
    Kept ledger procsMax
      ⟨kernel.set slot proc, Function.update books slot (ledger.read proc.mounts)⟩ := by
  intro owner inside used
  by_cases same : owner = slot
  · subst same
    simp [Kernel.set]
  · simp only [Kernel.set, Function.update_of_ne same] at used ⊢
    exact kept owner inside used

theorem kept_setMounts {table : List Mount} {book : Book} (agree : ledger.read table = book) :
    Kept ledger procsMax ⟨kernel.setMounts caller table, Function.update books caller book⟩ := by
  subst agree
  exact kept_set kept { kernel.procs caller with mounts := table }

theorem kept_same {book : Book} (agree : book = books caller) :
    Kept ledger procsMax ⟨kernel, Function.update books caller book⟩ := by
  rw [agree, Function.update_eq_self]
  exact kept

/-- A change of a process that keeps its namespace. -/
theorem kept_proc (proc : Proc) (same : proc.mounts = (kernel.procs slot).mounts)
    (alive : proc.used → (kernel.procs slot).used) :
    Kept ledger procsMax ⟨kernel.set slot proc, books⟩ := by
  intro owner inside used
  by_cases hit : owner = slot
  · subst hit
    simp only [Kernel.set, Function.update_self] at used ⊢
    rw [same]
    exact kept owner inside (alive used)
  · simp only [Kernel.set, Function.update_of_ne hit] at used ⊢
    exact kept owner inside used

end
theorem createProcess_eq {fits : Bool} {created : Kernel}
    (success : createProcess procsMax kernel fits = some (slot, created)) :
    unusedSlot procsMax kernel = some slot ∧ fits = true ∧
      created = kernel.set slot (bornProc procsMax kernel slot) := by
  unfold createProcess at success
  cases free : unusedSlot procsMax kernel with
  | none => simp [free] at success
  | some fresh =>
    cases fits with
    | false => simp [free] at success
    | true =>
      simp only [free] at success
      obtain ⟨rfl, rfl⟩ := success
      exact ⟨rfl, rfl, rfl⟩

theorem kept_create (kept : Kept ledger procsMax ⟨kernel, books⟩) {fits : Bool}
    {created : Kernel} (success : createProcess procsMax kernel fits = some (slot, created)) :
    Kept ledger procsMax ⟨created, openBook ledger procsMax kernel books⟩ := by
  obtain ⟨free, -, rfl⟩ := createProcess_eq success
  simp only [openBook, free]
  exact kept_set kept _

theorem instances_pid {pid generation : Nat}
    (found : instances procsMax kernel pid = some generation) : pid ≠ 0 := by
  obtain ⟨slot, live, -⟩ := Option.map_eq_some_iff.mp found
  unfold procByPid at live
  split at live
  · next alive => omega
  · cases live

theorem srvLookup_pid {srvName : Text} {pid generation : Nat}
    (found : srvLookup procsMax kernel srvName = some (pid, generation)) : pid ≠ 0 := by
  obtain ⟨entry, listed, alive⟩ := Option.bind_eq_some_iff.mp found
  split at alive
  · next live =>
      obtain ⟨rfl, -⟩ := Prod.mk.inj (Option.some.inj alive)
      exact instances_pid live
  · cases alive

theorem bindSource_pid {source target : Text} {pid generation : Nat}
    (found : bindSource procsMax kernel caller source = some (pid, generation, target)) :
    pid ≠ 0 := by
  obtain ⟨⟨server, path⟩, -, alive⟩ := Option.bind_eq_some_iff.mp found
  obtain ⟨number, live, same⟩ := Option.map_eq_some_iff.mp alive
  obtain ⟨rfl, -⟩ := Prod.mk.inj same
  exact instances_pid live

section
variable (kept : Kept ledger procsMax ⟨kernel, books⟩)
include kept

section
variable (running : running procsMax kernel caller)
include running

theorem kept_mount (mountPrefix srvName : Text)
    (rule : ruled ledger procsMax kernel (.nsMount caller mountPrefix srvName)) :
    Kept ledger procsMax ⟨(sysNsMount procsMax kernel caller mountPrefix srvName).2,
      enter ledger procsMax kernel books (.nsMount caller mountPrefix srvName)⟩ := by
  have own := kept.own running.1 running.2.1
  simp only [sysNsMount, enter]
  cases found : srvLookup procsMax kernel srvName with
  | none => exact kept
  | some server =>
    obtain ⟨pid, generation⟩ := server
    have mounted := ledger.read_mount (kernel.procs caller).mounts mountPrefix pid generation
      (rule (by simp [found])) (srvLookup_pid found)
    rw [own] at mounted
    cases edited : mountTable (kernel.procs caller).mounts mountPrefix pid generation with
    | none =>
      rw [edited] at mounted
      simp only [edited]
      exact kept_same kept (mounted.symm.trans own)
    | some table =>
      rw [edited] at mounted
      simp only [edited]
      exact kept_setMounts kept mounted

theorem kept_unmount (mountPrefix : Text) :
    Kept ledger procsMax ⟨(sysNsUnmount kernel caller mountPrefix).2,
      enter ledger procsMax kernel books (.nsUnmount caller mountPrefix)⟩ := by
  have own := kept.own running.1 running.2.1
  have removed := ledger.read_unmount (kernel.procs caller).mounts mountPrefix
  rw [own] at removed
  simp only [sysNsUnmount]
  cases edited : unmountTable (kernel.procs caller).mounts mountPrefix with
  | none =>
    rw [edited] at removed
    exact kept_same kept (removed.symm.trans own)
  | some table =>
    rw [edited] at removed
    exact kept_setMounts kept removed

theorem kept_bind (mountPrefix source : Text) (flags : BitVec 32)
    (rule : ruled ledger procsMax kernel (.nsBind caller mountPrefix source flags)) :
    Kept ledger procsMax ⟨(sysNsBind procsMax kernel caller mountPrefix source flags).2,
      enter ledger procsMax kernel books (.nsBind caller mountPrefix source flags)⟩ := by
  have own := kept.own running.1 running.2.1
  simp only [sysNsBind, enter]
  cases found : bindSource procsMax kernel caller source with
  | none => exact kept
  | some server =>
    apply kept_setMounts kept
    rw [← own]
    exact ledger.read_bind _ _ _ _ _ _ _ (rule server found) (bindSource_pid found)

theorem kept_rfork (fits : Bool) :
    Kept ledger procsMax ⟨(sysRfork procsMax kernel caller fits).2,
      enter ledger procsMax kernel books (.rfork caller fits)⟩ := by
  have own := kept.own running.1 running.2.1
  simp only [sysRfork, enter]
  cases free : unusedSlot procsMax kernel with
  | none => exact kept
  | some slot =>
    cases fits with
    | false => exact kept
    | true =>
      rw [← own]
      exact kept_set kept _

end

theorem kept_reseat {oldPid oldGeneration newPid newGeneration : Nat} (new : newPid ≠ 0)
    (rule : ∀ slot < procsMax, (kernel.procs slot).used →
      ledger.reseatRule oldPid oldGeneration (kernel.procs slot).mounts) :
    Kept ledger procsMax ⟨reseatNamespaceMounts procsMax kernel oldPid newPid newGeneration,
      fun owner => ledger.reseat oldPid oldGeneration newPid newGeneration (books owner)⟩ := by
  intro slot inside used
  unfold reseatNamespaceMounts at used ⊢
  by_cases old : oldPid = 0
  · subst old
    simp only [↓reduceIte] at used ⊢
    have reseated := ledger.read_reseat _ _ _ _ newGeneration (rule slot inside used) new
    rw [if_pos rfl, kept.own inside used] at reseated
    rw [kept.own inside used]
    exact reseated
  · simp only [old, ↓reduceIte] at used ⊢
    by_cases alive : (kernel.procs slot).used
    · have reseated := ledger.read_reseat _ _ _ _ newGeneration (rule slot inside alive) new
      rw [if_neg old, kept.own inside alive] at reseated
      rw [if_pos ⟨inside, alive⟩]
      exact reseated
    · rw [if_neg fun live => alive live.2] at used
      exact absurd used alive

theorem kept_spawn {index : Nat} {service : Service} (fits : Bool)
    (live : ∀ slot < procsMax, (kernel.procs slot).used →
      ledger.reseatRule service.pid service.generation (kernel.procs slot).mounts)
    (born : ∀ slot ∈ unusedSlot procsMax (lowered kernel index),
      ledger.reseatRule service.pid service.generation
        (bornProc procsMax (lowered kernel index) slot).mounts) :
    Kept ledger procsMax ⟨supervisorSpawn procsMax kernel index service.pid fits,
      if fits then reseatBooks ledger procsMax kernel books index service else books⟩ := by
  simp only [supervisorSpawn, serviceInstantiate, reseatBooks]
  have keptLowered : Kept ledger procsMax ⟨lowered kernel index, books⟩ := kept
  rw [← lowered]
  cases made : createProcess procsMax (lowered kernel index) fits with
  | none =>
    unfold createProcess at made
    cases free : unusedSlot procsMax (lowered kernel index) with
    | none => simpa using kept
    | some slot =>
      cases fits with
      | false => exact kept
      | true => simp [free] at made
  | some fresh =>
    obtain ⟨slot, created⟩ := fresh
    obtain ⟨free, rfl, rfl⟩ := createProcess_eq made
    have keptCreated := kept_create keptLowered made
    have self : ((lowered kernel index).set slot
        (bornProc procsMax (lowered kernel index) slot)).procs slot =
        bornProc procsMax (lowered kernel index) slot := by simp [Kernel.set]
    simp only [free, Option.map_some, Kernel.setService, self]
    apply kept_reseat
    · exact keptCreated
    · exact Nat.succ_ne_zero slot
    intro owner inside used
    by_cases hit : owner = slot
    · subst hit
      simp only [self]
      exact born owner free
    · simp only [Kernel.set, Function.update_of_ne hit] at used ⊢
      exact live owner inside used

theorem kept_tick (index : Nat) (fits : Bool)
    (rule : ruled ledger procsMax kernel (.tick index fits)) :
    Kept ledger procsMax ⟨supervise procsMax kernel index fits,
      enter ledger procsMax kernel books (.tick index fits)⟩ := by
  simp only [supervise, enter]
  cases listed : kernel.services[index]? with
  | none => exact kept
  | some service =>
    by_cases respawning : respawns procsMax kernel service
    · obtain ⟨live, born⟩ := rule service listed respawning
      have spawned := kept_spawn kept fits live born
      obtain ⟨up, dead, allowed⟩ := respawning
      have limit : ¬ service.restarts ≥ svcRestartLimit := by omega
      simp only [limit]
      simpa [respawns, up, dead, allowed] using spawned
    · simp only [respawning]
      split
      · exact kept
      split
      · exact kept
      split
      · exact kept
      · next up alive limit => exact absurd ⟨by simpa using up, alive, by omega⟩ respawning

end
/-- One call that keeps the rules. -/
theorem kept_step {history after : History Book} {action : Action}
    (kept : Kept ledger procsMax history) (rule : ruled ledger procsMax history.kernel action)
    (stepped : historyStep ledger procsMax history action = some after) :
    Kept ledger procsMax after := by
  obtain ⟨kernel, books⟩ := history
  obtain ⟨finish, moved, rfl⟩ := Option.map_eq_some_iff.mp stepped
  simp only [step] at moved
  split at moved
  case isFalse => cases moved
  next running =>
    cases action with
    | create =>
      obtain ⟨⟨slot, created⟩, made, rfl⟩ := Option.map_eq_some_iff.mp moved
      exact kept_create kept made
    | boot =>
      simp only [perform, serviceBoot] at moved
      split at moved
      · obtain ⟨⟨slot, created⟩, made, rfl⟩ := Option.map_eq_some_iff.mp moved
        have keptCreated := kept_create kept made
        exact fun owner inside used => keptCreated owner inside used
      · cases moved
    | rfork caller fits =>
      obtain rfl := Option.some.inj moved
      exact kept_rfork kept (running caller rfl) fits
    | die =>
      obtain rfl := Option.some.inj moved
      exact kept_proc kept _ rfl (by simp)
    | setuid caller uid =>
      obtain rfl := Option.some.inj moved
      simp only [sysSetuid]
      split
      · exact kept
      · exact kept_proc kept _ rfl id
    | srvPost caller name =>
      obtain rfl := Option.some.inj moved
      have same : (sysSrvPost procsMax kernel caller name).2.procs = kernel.procs := by
        simp only [sysSrvPost]
        repeat' split
        all_goals rfl
      intro slot inside used
      rw [same] at used ⊢
      exact kept slot inside used
    | nsMount caller mountPrefix srvName =>
      obtain rfl := Option.some.inj moved
      exact kept_mount kept (running caller rfl) mountPrefix srvName rule
    | nsBind caller mountPrefix source flags =>
      obtain rfl := Option.some.inj moved
      exact kept_bind kept (running caller rfl) mountPrefix source flags rule
    | nsUnmount caller mountPrefix =>
      obtain rfl := Option.some.inj moved
      exact kept_unmount kept (running caller rfl) mountPrefix
    | tick index fits =>
      obtain rfl := Option.some.inj moved
      exact kept_tick kept index fits rule

/-- In every run that keeps the rules the books agree with the tables. -/
theorem kept_run {history : History Book}
    (run : Reach (historyStep ledger procsMax)
      (fun past action => ruled ledger procsMax past.kernel action) (blank ledger) history) :
    Kept ledger procsMax history := by
  refine run.invariant (Kept ledger procsMax) (fun _ _ _ => rfl) ?_
  intro before action after kept rule stepped
  exact kept_step kept rule stepped

end Racccoon.Namespace
