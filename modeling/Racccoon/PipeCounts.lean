import Racccoon.Pipes

/-!
The reference counts of `Racccoon.Pipes`. A claim on a pipe is a live process
end that names it or an unreleased hold. `Balanced` says that the two counts of
every pipe in use are its claims and that only pipes in use are claimed; it does
not mention processes, so the seven operations that move a count reduce to
"one claim more", "one claim fewer" and "no claim moved".
-/

namespace Racccoon.Pipes
open Function (update update_self update_of_ne update_idem)

open Census Run

def naming (id : Nat) (asWriter : Bool) (proc : Proc) : Prop :=
  proc.live = true ∧ proc.pipeEnd asWriter = id

instance (id : Nat) (asWriter : Bool) : DecidablePred (naming id asWriter) := fun _ =>
  inferInstanceAs (Decidable (_ ∧ _))

def claims (procsMax : Nat) (kernel : Kernel) (id : Nat) (asWriter : Bool) : Nat :=
  census (procsMax + 1) kernel.procs (naming id asWriter) + kernel.holds id asWriter

structure Balanced (pipes : Nat → Pipe) (claimed : Nat → Bool → Nat) : Prop where
  used : ∀ (id : Nat) asWriter, 0 < claimed id asWriter → pipeValid pipes id = true
  counted : ∀ (id : Nat) asWriter, pipeValid pipes id = true →
    (pipes id).refs asWriter = claimed id asWriter
  bounded : ∀ id asWriter, (claimed id asWriter : Int) ≤ intMax

structure Counted (procsMax : Nat) (kernel : Kernel) : Prop where
  slots : ∀ pid, (kernel.procs pid).live = true → 1 ≤ pid ∧ pid ≤ procsMax
  balanced : Balanced kernel.pipes (claims procsMax kernel)

@[simp] theorem refs_setRefs (pipe : Pipe) (asWriter side : Bool) (value : Int) :
    (pipe.setRefs asWriter value).refs side = if side = asWriter then value else pipe.refs side := by
  cases asWriter <;> cases side <;> simp [Pipe.refs, Pipe.setRefs]

@[simp] theorem used_setRefs (pipe : Pipe) (asWriter : Bool) (value : Int) :
    (pipe.setRefs asWriter value).used = pipe.used := by
  cases asWriter <;> rfl

@[simp] theorem pipeEnd_setEnd (proc : Proc) (asWriter side : Bool) (value : Int) :
    (proc.setEnd asWriter value).pipeEnd side =
      if side = asWriter then value else proc.pipeEnd side := by
  cases asWriter <;> cases side <;> simp [Proc.pipeEnd, Proc.setEnd]

@[simp] theorem live_setEnd (proc : Proc) (asWriter : Bool) (value : Int) :
    (proc.setEnd asWriter value).live = proc.live := by
  cases asWriter <;> rfl

@[simp] theorem setEnd_setEnd (proc : Proc) (asWriter : Bool) (first second : Int) :
    (proc.setEnd asWriter first).setEnd asWriter second = proc.setEnd asWriter second := by
  cases asWriter <;> rfl

theorem pipeValid_nat (pipes : Nat → Pipe) (id : Nat) :
    pipeValid pipes id = true ↔ id < pipesMax ∧ (pipes id).used = true := by
  simp [pipeValid]

theorem pipeValid_cast {pipes : Nat → Pipe} {id : Int} (valid : pipeValid pipes id = true) :
    ∃ slot : Nat, id = slot ∧ slot < pipesMax ∧ (pipes slot).used = true := by
  simp only [pipeValid, Bool.and_eq_true, decide_eq_true_eq] at valid
  refine ⟨id.toNat, by omega, by omega, valid.2⟩

variable {pipes : Nat → Pipe} {claimed moved : Nat → Bool → Nat} {id : Nat} {asWriter : Bool}

/-- `pipe_attach`: one claim more on a pipe in use whose count has room. -/
theorem Balanced.attach (balanced : Balanced pipes claimed)
    (valid : pipeValid pipes id = true) (room : (pipes id).refs asWriter < intMax)
    (gained : ∀ other side, moved other side =
      claimed other side + if other = id ∧ side = asWriter then 1 else 0) :
    Balanced (pipeAttach pipes id asWriter) moved := by
  have still : ∀ other : Nat,
      pipeValid (pipeAttach pipes id asWriter) other = pipeValid pipes other := by
    intro other
    by_cases same : other = id
    · subst same
      simp [pipeValid, pipeAttach]
    · simp [pipeValid, pipeAttach, update_of_ne same]
  constructor
  · intro other side some
    rw [still]
    by_cases same : other = id
    · exact same ▸ valid
    · exact balanced.used other side (by simpa [gained, same] using some)
  · intro other side stillValid
    rw [still] at stillValid
    have before := balanced.counted other side stillValid
    by_cases same : other = id
    · subst same
      by_cases own : side = asWriter
      · subst own
        have raised : increment (claimed other side) = claimed other side + 1 := by
          simp only [increment]
          split <;> omega
        simp [pipeAttach, gained, before, raised]
      · simp [pipeAttach, gained, own, before]
    · simp [pipeAttach, gained, same, before]
  · intro other side
    have before := balanced.bounded other side
    by_cases own : other = id ∧ side = asWriter
    · obtain ⟨rfl, rfl⟩ := own
      have count := balanced.counted other side valid
      simp only [gained, and_self, ↓reduceIte]
      omega
    · simpa [gained, own] using before

/-- What `pipe_detach` does to a pipe that has the reference it drops. -/
theorem pipeDetach_drops (valid : pipeValid pipes id = true)
    (positive : 0 < (pipes id).refs asWriter) :
    pipeDetach pipes id asWriter = update pipes id
      { (pipes id).setRefs asWriter ((pipes id).refs asWriter - 1) with
        used := !decide ((pipes id).refs asWriter = 1 ∧ (pipes id).refs (!asWriter) = 0) } := by
  have inside := (pipeValid_nat pipes id).mp valid
  have kept : pipeValid (update pipes id
      ((pipes id).setRefs asWriter ((pipes id).refs asWriter - 1))) id = true := by
    simp [pipeValid_nat, inside]
  simp only [pipeDetach, valid, Bool.not_true, ↓reduceIte, Int.toNat_natCast,
    positive, pipeFreeIfIdle, kept, update_idem]
  cases asWriter <;> simp only [Pipe.refs, Pipe.setRefs, ↓reduceIte, Bool.false_eq_true] <;> split <;> congr 2 <;> simp_all <;> omega

/-- `pipe_detach`: one claim fewer. The pipe goes back to the pool exactly when
no claim is left on either side. -/
theorem Balanced.detach (balanced : Balanced pipes claimed)
    (lost : ∀ other side, claimed other side =
      moved other side + if other = id ∧ side = asWriter then 1 else 0) :
    Balanced (pipeDetach pipes id asWriter) moved := by
  have present : claimed id asWriter = moved id asWriter + 1 := by simpa using lost id asWriter
  have valid : pipeValid pipes id = true := balanced.used id asWriter (by omega)
  have count := balanced.counted id asWriter valid
  have opposite := balanced.counted id (!asWriter) valid
  have opposed : claimed id (!asWriter) = moved id (!asWriter) := by
    simpa using lost id (!asWriter)
  rw [pipeDetach_drops valid (by omega)]
  constructor
  · intro other side some
    by_cases same : other = id
    · subst same
      have inside := (pipeValid_nat pipes other).mp valid
      have unfreed : ¬ ((pipes other).refs asWriter = 1 ∧ (pipes other).refs (!asWriter) = 0) := by
        rcases Bool.eq_or_eq_not side asWriter with own | own
        · subst own
          omega
        · subst own
          omega
      simp only [pipeValid_nat, inside, update_self, unfreed, decide_false, Bool.not_false,
        and_self]
    · have claim := balanced.used other side (by simpa [lost, same] using some)
      simpa [pipeValid_nat, update_of_ne same] using claim
  · intro other side stillValid
    by_cases same : other = id
    · subst same
      by_cases own : side = asWriter
      · subst own
        have shown : ((pipes other).setRefs side ((pipes other).refs side - 1)).refs side =
            moved other side := by
          rw [refs_setRefs, if_pos rfl]
          omega
        simpa [Pipe.refs] using shown
      · have shown : ((pipes other).setRefs asWriter ((pipes other).refs asWriter - 1)).refs side =
            moved other side := by
          have even : claimed other side = moved other side := by simpa [own] using lost other side
          rw [refs_setRefs, if_neg own, balanced.counted other side valid, even]
        simpa [Pipe.refs] using shown
    · have before := balanced.counted other side
        (by simpa [pipeValid_nat, update_of_ne same] using stillValid)
      simpa [lost, same] using before
  · intro other side
    have before := balanced.bounded other side
    have fewer := lost other side
    omega

/-- Ring traffic: neither the counts nor the used flags move. -/
theorem Balanced.traffic {after : Nat → Pipe} (balanced : Balanced pipes claimed)
    (used : ∀ id, (after id).used = (pipes id).used)
    (refs : ∀ id asWriter, (after id).refs asWriter = (pipes id).refs asWriter) :
    Balanced after claimed := by
  have still (id : Nat) : pipeValid after id = pipeValid pipes id := by simp [pipeValid, used]
  constructor
  · intro id asWriter some
    rw [still]
    exact balanced.used id asWriter some
  · intro id asWriter valid
    rw [still] at valid
    rw [refs]
    exact balanced.counted id asWriter valid
  · exact balanced.bounded

/-- `pipe_alloc`: the slot handed out has no claim, so its zeroed counts are right. -/
theorem Balanced.alloc (balanced : Balanced pipes claimed) :
    Balanced (pipeAlloc pipes).2 claimed := by
  unfold pipeAlloc
  split
  · exact balanced
  · next slot found =>
      have free : (pipes slot).used = false := by simpa using List.find?_some found
      have unclaimed (side : Bool) : claimed slot side = 0 := by
        by_contra some
        have valid := balanced.used slot side (Nat.pos_of_ne_zero some)
        simp [pipeValid_nat, free] at valid
      constructor
      · intro other side some
        by_cases same : other = slot
        · subst same
          simp [unclaimed] at some
        · simpa [pipeValid_nat, update_of_ne same] using balanced.used other side some
      · intro other side valid
        by_cases same : other = slot
        · subst same
          cases side <;> simp [Pipe.refs, unclaimed]
        · simp only [update_of_ne same]
          exact balanced.counted other side
            (by simpa [pipeValid_nat, update_of_ne same] using valid)
      · exact balanced.bounded

variable {procsMax : Nat} {kernel : Kernel}

variable (kernel) in
theorem claims_update (pid : Nat) (inside : pid ≤ procsMax) (proc : Proc)
    (pipes : Nat → Pipe) (id : Nat) (asWriter : Bool) :
    claims procsMax { kernel with procs := update kernel.procs pid proc, pipes := pipes }
        id asWriter + weight (naming id asWriter) (kernel.procs pid) =
      claims procsMax kernel id asWriter + weight (naming id asWriter) proc := by
  have moved := census_update kernel.procs (naming id asWriter) pid
    (show pid < procsMax + 1 by omega) proc
  simp only [claims]
  omega

def takeEnd (kernel : Kernel) (pid : Nat) (asWriter : Bool) (id : Nat) : Kernel :=
  { kernel with
    procs := Function.update kernel.procs pid ((kernel.procs pid).setEnd asWriter id)
    pipes := pipeAttach kernel.pipes id asWriter }

def closeEnd (kernel : Kernel) (pid : Nat) (asWriter : Bool) (value : Int) : Kernel :=
  { kernel with
    procs := Function.update kernel.procs pid ((kernel.procs pid).setEnd asWriter value) }

variable {pid : Nat}

theorem slots_update (counted : Counted procsMax kernel) {proc : Proc}
    (keeps : proc.live = true → 1 ≤ pid ∧ pid ≤ procsMax) (other : Nat)
    (live : (update kernel.procs pid proc other).live = true) : 1 ≤ other ∧ other ≤ procsMax := by
  by_cases same : other = pid
  · subst same
    exact keeps (by simpa using live)
  · exact counted.slots other (by simpa [same] using live)

theorem weight_naming (id : Nat) (asWriter : Bool) (proc : Proc) :
    weight (naming id asWriter) proc =
      if proc.live = true ∧ proc.pipeEnd asWriter = id then 1 else 0 := rfl

section
variable (counted : Counted procsMax kernel) (live : (kernel.procs pid).live = true)
include counted live

theorem Counted.takeEnd (closed : (kernel.procs pid).pipeEnd asWriter < 0)
    (valid : pipeValid kernel.pipes id = true) (room : (kernel.pipes id).refs asWriter < intMax) :
    Counted procsMax (takeEnd kernel pid asWriter id) where
  slots := slots_update counted fun _ => counted.slots pid live
  balanced := counted.balanced.attach valid room fun other side => by
    have moved := claims_update kernel pid (counted.slots pid live).2
      ((kernel.procs pid).setEnd asWriter id) (pipeAttach kernel.pipes id asWriter) other side
    simp only [weight_naming, live, live_setEnd] at moved
    by_cases own : side = asWriter
    · subst own
      have apart : (kernel.procs pid).pipeEnd side ≠ other := by omega
      have swapped : (id : Int) = other ↔ other = id := by omega
      simpa [Pipes.takeEnd, apart, swapped] using moved
    · simpa [Pipes.takeEnd, own] using moved

theorem Counted.closeEnd (closed : (kernel.procs pid).pipeEnd asWriter < 0) (value : Int)
    (negative : value < 0) :
    Counted procsMax (closeEnd kernel pid asWriter value) where
  slots := slots_update counted fun _ => counted.slots pid live
  balanced := by
    have same : claims procsMax (Pipes.closeEnd kernel pid asWriter value) =
        claims procsMax kernel := by
      funext other side
      have moved := claims_update kernel pid (counted.slots pid live).2
        ((kernel.procs pid).setEnd asWriter value) kernel.pipes other side
      simp only [weight_naming, live_setEnd] at moved
      by_cases own : side = asWriter
      · subst own
        have apart : (kernel.procs pid).pipeEnd side ≠ other := by omega
        have parted : value ≠ other := by omega
        simpa [Pipes.closeEnd, apart, parted] using moved
      · simpa [Pipes.closeEnd, own] using moved
    rw [same]
    exact counted.balanced

theorem Counted.dropEnd (asWriter : Bool) : Counted procsMax (dropEnd kernel pid asWriter) := by
  unfold Pipes.dropEnd
  by_cases holding : 0 ≤ (kernel.procs pid).pipeEnd asWriter
  · obtain ⟨old, named⟩ := Int.eq_ofNat_of_zero_le holding
    simp only [named]
    refine ⟨slots_update counted fun _ => counted.slots pid live,
      counted.balanced.detach fun other side => ?_⟩
    have moved := claims_update kernel pid (counted.slots pid live).2
      ((kernel.procs pid).setEnd asWriter (-1)) (pipeDetach kernel.pipes old asWriter) other side
    simp only [weight_naming, live, live_setEnd] at moved
    by_cases own : side = asWriter
    · subst own
      have swapped : (old : Int) = other ↔ other = old := by omega
      simpa [named, swapped] using moved.symm
    · simpa [own] using moved.symm
  · simpa [holding] using counted

end

@[simp] theorem dropEnd_live (kernel : Kernel) (pid : Nat) (asWriter : Bool) (other : Nat) :
    ((dropEnd kernel pid asWriter).procs other).live = (kernel.procs other).live := by
  simp only [dropEnd]
  split
  · by_cases same : other = pid
    · subst same
      simp
    · simp [same]
  · rfl

theorem dropEnd_closed (kernel : Kernel) (pid : Nat) (asWriter : Bool) :
    ((dropEnd kernel pid asWriter).procs pid).pipeEnd asWriter < 0 := by
  simp only [dropEnd]
  split
  · simp
  · omega

theorem dropEnd_other_end (kernel : Kernel) (pid : Nat) (asWriter side : Bool)
    (other : side ≠ asWriter) :
    ((dropEnd kernel pid asWriter).procs pid).pipeEnd side = (kernel.procs pid).pipeEnd side := by
  simp only [dropEnd]
  split
  · simp [other]
  · rfl

theorem Counted.relabel {after : Kernel} (counted : Counted procsMax kernel) (pid : Nat)
    (proc : Proc) (inside : 1 ≤ pid ∧ pid ≤ procsMax)
    (before : (kernel.procs pid).live = true → ∀ side, (kernel.procs pid).pipeEnd side < 0)
    (closed : proc.live = true → ∀ side, proc.pipeEnd side < 0)
    (procs : after.procs = update kernel.procs pid proc)
    (pipes : after.pipes = kernel.pipes) (holds : after.holds = kernel.holds) :
    Counted procsMax after where
  slots := by
    rw [procs]
    exact slots_update counted fun _ => inside
  balanced := by
    have silent (entry : Proc) (shut : entry.live = true → ∀ side, entry.pipeEnd side < 0)
        (id : Nat) (side : Bool) : ¬ naming id side entry := by
      rintro ⟨live, named⟩
      have negative := shut live side
      omega
    have same : claims procsMax after = claims procsMax kernel := by
      funext id side
      have moved := census_update_same kernel.procs (naming id side) pid
        (show pid < procsMax + 1 by omega) proc
        (iff_of_false (silent proc closed id side) (silent _ before id side))
      simp only [claims, procs, holds, moved]
    rw [same, pipes]
    exact counted.balanced

theorem Counted.procDestroy (counted : Counted procsMax kernel)
    (live : (kernel.procs pid).live = true) : Counted procsMax (procDestroy kernel pid) := by
  have still : ((Pipes.dropEnd kernel pid true).procs pid).live = true := by simpa using live
  have dropped := (counted.dropEnd live true).dropEnd still false
  refine dropped.relabel pid _ (counted.slots pid live) (fun _ side => ?_) (fun dead => ?_) rfl rfl rfl
  · cases side
    · exact dropEnd_closed ..
    · rw [dropEnd_other_end _ _ _ _ (by decide)]
      exact dropEnd_closed ..
  · simp at dead

theorem unusedSlot_spec (found : unusedSlot procsMax kernel = some pid) :
    (1 ≤ pid ∧ pid ≤ procsMax) ∧ (kernel.procs pid).live = false := by
  have member := List.mem_of_find?_eq_some found
  rw [List.mem_range'_1] at member
  exact ⟨by omega, by simpa using List.find?_some found⟩

theorem Counted.born (counted : Counted procsMax kernel) (parent : Nat)
    (found : unusedSlot procsMax kernel = some pid) :
    Counted procsMax
      { kernel with procs := update kernel.procs pid (bornProc parent) } := by
  obtain ⟨inside, dead⟩ := unusedSlot_spec found
  refine counted.relabel pid _ inside (fun live => ?_) (fun _ side => ?_) rfl rfl rfl
  · simp [dead] at live
  · cases side <;> simp [bornProc, Proc.pipeEnd]

theorem claims_holds (id : Nat) (asWriter : Bool) (count : Nat) (pipes : Nat → Pipe)
    (other : Nat) (side : Bool) :
    claims procsMax { kernel with
      pipes := pipes
      holds := update kernel.holds id
        (update (kernel.holds id) asWriter count) } other side =
    if other = id ∧ side = asWriter then
      census (procsMax + 1) kernel.procs (naming other side) + count
    else claims procsMax kernel other side := by
  by_cases same : other = id
  · subst same
    by_cases own : side = asWriter
    · subst own
      simp [claims]
    · simp [claims, own]
  · simp [claims, same]

theorem Counted.sysPipeHold (counted : Counted procsMax kernel) (hid : Int) (asWriter : Bool)
    (delta : Int)
    (matched : pipeValid kernel.pipes hid = true → delta < 0 →
      0 < kernel.holds hid.toNat asWriter)
    (room : pipeValid kernel.pipes hid = true → 0 ≤ delta →
      (kernel.pipes hid.toNat).refs asWriter < intMax) :
    Counted procsMax (sysPipeHold kernel hid asWriter delta).2 := by
  unfold Pipes.sysPipeHold
  by_cases valid : pipeValid kernel.pipes hid = true
  · obtain ⟨id, rfl, -⟩ := pipeValid_cast valid
    simp only [valid, Bool.not_true, Bool.false_eq_true, Int.toNat_natCast]
    by_cases claim : 0 ≤ delta
    · simp only [claim, ↓reduceIte]
      refine ⟨counted.slots, counted.balanced.attach valid (room valid claim) fun other side => ?_⟩
      rw [claims_holds]
      split
      · next own =>
          obtain ⟨rfl, rfl⟩ := own
          simp only [claims]
          omega
      · omega
    · simp only [claim, ↓reduceIte]
      have some := matched valid (by omega)
      simp only [Int.toNat_natCast] at some
      refine ⟨counted.slots, counted.balanced.detach fun other side => ?_⟩
      rw [claims_holds]
      split
      · next own =>
          obtain ⟨rfl, rfl⟩ := own
          simp only [claims]
          omega
      · omega
  · simpa [valid] using counted

theorem dropEnd_update (kernel : Kernel) (pid : Nat) (asWriter : Bool) (value : Int) :
    update (dropEnd kernel pid asWriter).procs pid
        (((dropEnd kernel pid asWriter).procs pid).setEnd asWriter value) =
      update kernel.procs pid ((kernel.procs pid).setEnd asWriter value) := by
  simp only [dropEnd]
  split <;> simp

theorem dropEnd_pipes (kernel : Kernel) (pid : Nat) (asWriter : Bool) :
    (dropEnd kernel pid asWriter).pipes =
      if 0 ≤ (kernel.procs pid).pipeEnd asWriter then
        pipeDetach kernel.pipes ((kernel.procs pid).pipeEnd asWriter) asWriter
      else kernel.pipes := by
  simp only [dropEnd]
  split <;> rfl

@[simp] theorem dropEnd_holds (kernel : Kernel) (pid : Nat) (asWriter : Bool) :
    (dropEnd kernel pid asWriter).holds = kernel.holds := by
  simp only [dropEnd]
  split <;> rfl

theorem Counted.claims_pos (counted : Counted procsMax kernel)
    (live : (kernel.procs pid).live = true) (named : (kernel.procs pid).pipeEnd asWriter = id) :
    0 < claims procsMax kernel id asWriter := by
  have inside := (counted.slots pid live).2
  have some : 0 < census (procsMax + 1) kernel.procs (naming id asWriter) :=
    census_pos pid (by omega) ⟨live, named⟩
  simp only [claims]
  omega

/-- Dropping one reference to a pipe leaves `id` usable: another pipe is not
touched, and the pipe itself stays if the reference is not its only one. -/
theorem Counted.after_drop (counted : Counted procsMax kernel)
    (live : (kernel.procs pid).live = true) (valid : pipeValid kernel.pipes id = true)
    (shared : (kernel.procs pid).pipeEnd asWriter = id →
      ¬ ((kernel.pipes id).refs asWriter = 1 ∧ (kernel.pipes id).refs (!asWriter) = 0))
    (room : (kernel.procs pid).pipeEnd asWriter ≠ id → (kernel.pipes id).refs asWriter < intMax) :
    pipeValid (Pipes.dropEnd kernel pid asWriter).pipes id = true ∧
      ((Pipes.dropEnd kernel pid asWriter).pipes id).refs asWriter < intMax := by
  have inside := (pipeValid_nat kernel.pipes id).mp valid
  rw [dropEnd_pipes]
  split
  · next holding =>
      obtain ⟨old, named⟩ := Int.eq_ofNat_of_zero_le holding
      have claim := counted.claims_pos live named
      have oldValid := counted.balanced.used old asWriter claim
      have count := counted.balanced.counted old asWriter oldValid
      have bound := counted.balanced.bounded old asWriter
      rw [named, pipeDetach_drops oldValid (by omega)]
      by_cases same : id = old
      · subst same
        constructor
        · simpa [pipeValid_nat, inside, Decidable.imp_iff_not_or] using shared named
        · have lowered : ((kernel.pipes id).setRefs asWriter
              ((kernel.pipes id).refs asWriter - 1)).refs asWriter < intMax := by
            rw [refs_setRefs, if_pos rfl]
            omega
          simpa [Pipe.refs] using lowered
      · have apart : (kernel.procs pid).pipeEnd asWriter ≠ id := by omega
        simpa [pipeValid_nat, inside, same] using room apart
  · next open_ =>
      exact ⟨valid, room (by omega)⟩

theorem procByPid_spec {pid : Int} {target : Nat}
    (found : procByPid procsMax kernel pid = some target) : (kernel.procs target).live = true := by
  unfold procByPid at found
  split at found
  · next inside =>
      simp only [Option.some.injEq] at found
      exact found ▸ inside.2.2
  · cases found

/-- An end is re-pointed at the pipe it already names while it is the only
reference that pipe has: `pipe_detach` frees the pipe the call then attaches. -/
def selfRepoint (kernel : Kernel) (target : Nat) (spipe : Int) (asWriter : Bool) : Prop :=
  (kernel.procs target).pipeEnd asWriter = spipe ∧
    (kernel.pipes spipe.toNat).refs asWriter = 1 ∧
    (kernel.pipes spipe.toNat).refs (!asWriter) = 0

instance (kernel : Kernel) (target : Nat) (spipe : Int) (asWriter : Bool) :
    Decidable (selfRepoint kernel target spipe asWriter) :=
  inferInstanceAs (Decidable (_ ∧ _ ∧ _))

def roomy (kernel : Kernel) (id : Int) (asWriter : Bool) : Prop :=
  (kernel.pipes id.toNat).refs asWriter < intMax

theorem Counted.sysPipeSetEnd (counted : Counted procsMax kernel) (current : Nat)
    (spid spipe : Int) (asWriter : Bool)
    (spared : ∀ target, procByPid procsMax kernel spid = some target →
      setEndAllowed kernel current target spipe = true → 0 ≤ spipe →
      ¬ selfRepoint kernel target spipe asWriter ∧
        ((kernel.procs target).pipeEnd asWriter ≠ spipe → roomy kernel spipe asWriter)) :
    Counted procsMax (sysPipeSetEnd procsMax kernel current spid spipe asWriter).2 := by
  unfold Pipes.sysPipeSetEnd
  cases found : procByPid procsMax kernel spid with
  | none => exact counted
  | some target =>
    have live := procByPid_spec found
    have dropped := counted.dropEnd live asWriter
    have closed := dropEnd_closed kernel target asWriter
    by_cases allowed : setEndAllowed kernel current target spipe = true
    · simp only [allowed, Bool.not_true, Bool.false_eq_true]
      by_cases attaching : 0 ≤ spipe
      · obtain ⟨id, rfl⟩ := Int.eq_ofNat_of_zero_le attaching
        have valid : pipeValid kernel.pipes id = true := by
          have attached : ¬ ((id : Int) < 0) := by omega
          simpa [attached] using (Bool.and_eq_true_iff.mp allowed).2
        obtain ⟨unshared, room⟩ := spared target found allowed attaching
        obtain ⟨still, left⟩ := counted.after_drop live valid
          (fun named sole => unshared ⟨named, by simpa using sole⟩)
          (fun apart => by simpa [roomy] using room apart)
        have taken := dropped.takeEnd (by simpa using live) closed still left
        simpa only [Pipes.takeEnd, dropEnd_update, dropEnd_pipes, dropEnd_holds, attaching,
          ↓reduceIte] using taken
      · have shut := dropped.closeEnd (by simpa using live) closed spipe (by omega)
        simpa only [Pipes.closeEnd, dropEnd_update, dropEnd_pipes, dropEnd_holds, attaching,
          ↓reduceIte] using shut
    · simpa [allowed] using counted

theorem Counted.inheritEnd (counted : Counted procsMax kernel) (parent child : Nat)
    (live : (kernel.procs child).live = true)
    (closed : (kernel.procs child).pipeEnd asWriter < 0) (rfmem : Bool) (explicitPipe : Int)
    (room : ∀ wanted, wanted = wantedEnd kernel parent rfmem explicitPipe asWriter →
      pipeValid kernel.pipes wanted = true → roomy kernel wanted asWriter) :
    Counted procsMax (inheritEnd kernel parent child rfmem explicitPipe asWriter) := by
  simp only [Pipes.inheritEnd]
  split
  · next wanted =>
      obtain ⟨id, named, -⟩ := pipeValid_cast wanted.2
      have left := room _ rfl wanted.2
      rw [named] at wanted left ⊢
      exact counted.takeEnd live closed wanted.2 (by simpa [roomy] using left)
  · exact counted.closeEnd live closed (-1) (by decide)

theorem pipeAttach_valid (pipes : Nat → Pipe) (id other : Int) (asWriter : Bool) :
    pipeValid (pipeAttach pipes id asWriter) other = pipeValid pipes other := by
  by_cases same : other.toNat = id.toNat
  · simp [pipeValid, pipeAttach, same]
  · simp [pipeValid, pipeAttach, update_of_ne same]

theorem pipeAttach_refs_other (pipes : Nat → Pipe) (id other : Int) (asWriter side : Bool)
    (apart : side ≠ asWriter) :
    (pipeAttach pipes id asWriter other.toNat).refs side = (pipes other.toNat).refs side := by
  by_cases same : other.toNat = id.toNat
  · simp [pipeAttach, same, apart]
  · simp [pipeAttach, update_of_ne same]

theorem inheritEnd_frame (kernel : Kernel) (parent child : Nat) (apart : parent ≠ child)
    (rfmem : Bool) (first second : Int) (asWriter side : Bool) (sides : side ≠ asWriter) :
    let after := inheritEnd kernel parent child rfmem first asWriter
    (∀ id, pipeValid after.pipes id = pipeValid kernel.pipes id) ∧
      (∀ id : Int, (after.pipes id.toNat).refs side = (kernel.pipes id.toNat).refs side) ∧
      wantedEnd after parent rfmem second side = wantedEnd kernel parent rfmem second side ∧
      (after.procs child).live = (kernel.procs child).live ∧
      (after.procs child).pipeEnd side = (kernel.procs child).pipeEnd side := by
  simp only [inheritEnd]
  split
  · next =>
      refine ⟨fun id => pipeAttach_valid _ _ _ _,
        fun id => pipeAttach_refs_other _ _ _ _ _ sides, ?_, ?_, ?_⟩
      · simp [wantedEnd, pipeAttach_valid, apart]
      · simp
      · simp [sides]
  · refine ⟨fun _ => rfl, fun _ => rfl, ?_, ?_, ?_⟩
    · simp [wantedEnd, apart]
    · simp
    · simp [sides]

theorem Counted.sysRfork (counted : Counted procsMax kernel) {parent : Nat}
    (caller : (kernel.procs parent).live = true) (rfmem : Bool) (outPipe inPipe : Int)
    (room : ∀ asWriter wanted,
      wanted = wantedEnd kernel parent rfmem (if asWriter then outPipe else inPipe) asWriter →
      pipeValid kernel.pipes wanted = true → roomy kernel wanted asWriter) :
    Counted procsMax (sysRfork procsMax kernel parent rfmem outPipe inPipe).2 := by
  unfold Pipes.sysRfork
  cases found : unusedSlot procsMax kernel with
  | none => exact counted
  | some child =>
    have dead := (unusedSlot_spec found).2
    have apart : parent ≠ child := by
      rintro rfl
      simp [dead] at caller
    have born := counted.born parent found
    simp only
    generalize start : ({ kernel with
      procs := update kernel.procs child (bornProc parent) } : Kernel) = claimed
        at born ⊢
    have same (explicitPipe : Int) (side : Bool) :
        wantedEnd claimed parent rfmem explicitPipe side =
          wantedEnd kernel parent rfmem explicitPipe side := by
      subst start
      simp [wantedEnd, apart]
    have samePipes : claimed.pipes = kernel.pipes := by rw [← start]
    have live : (claimed.procs child).live = true := by simp [← start, bornProc]
    have closed (side : Bool) : (claimed.procs child).pipeEnd side < 0 := by
      cases side <;> simp [← start, bornProc, Proc.pipeEnd]
    obtain ⟨valid, refs, wanted, stillLive, stillClosed⟩ :=
      inheritEnd_frame claimed parent child apart rfmem outPipe inPipe true false (by decide)
    refine (born.inheritEnd parent child live (closed true) rfmem outPipe
      fun id named used => ?_).inheritEnd parent child (by rw [stillLive, live])
        (by rw [stillClosed]; exact closed false) rfmem inPipe fun id named used => ?_
    · simp only [roomy, samePipes] at used ⊢
      exact room true id (by simpa [same] using named) used
    · simp only [roomy, refs, valid, samePipes] at used ⊢
      exact room false id (by simpa [wanted, same] using named) used

theorem pipeTryPut_traffic (pipes : Nat → Pipe) (id : Int) (byte : UInt8) (other : Nat) :
    ((pipeTryPut pipes id byte).2 other).used = (pipes other).used ∧
      ∀ side, ((pipeTryPut pipes id byte).2 other).refs side = (pipes other).refs side := by
  simp only [pipeTryPut]
  split
  · simp
  · split
    · simp
    · by_cases same : other = id.toNat
      · subst same
        simp [Pipe.refs]
      · simp [same]

theorem pipeTryGet_traffic (pipes : Nat → Pipe) (id : Int) (other : Nat) :
    ((pipeTryGet pipes id).2 other).used = (pipes other).used ∧
      ∀ side, ((pipeTryGet pipes id).2 other).refs side = (pipes other).refs side := by
  simp only [pipeTryGet]
  split
  · simp
  · split
    · by_cases same : other = id.toNat
      · subst same
        simp [Pipe.refs]
      · simp [same]
    · simp

theorem readPass_balanced (more : Nat) (pipes : Nat → Pipe) (id : Int)
    (balanced : Balanced pipes claimed) : Balanced (readPass pipes id more).2 claimed := by
  have traffic (pipes : Nat → Pipe) (balanced : Balanced pipes claimed) :
      Balanced (pipeTryGet pipes id).2 claimed :=
    balanced.traffic (fun other => (pipeTryGet_traffic pipes id other).1)
      fun other => (pipeTryGet_traffic pipes id other).2
  induction more generalizing pipes with
  | zero =>
    have once := traffic pipes balanced
    simp only [readPass]
    split <;> simp_all
  | succ _ ih =>
    have once := traffic pipes balanced
    simp only [readPass]
    split
    · exact ih _ (by simp_all)
    · simp_all

theorem sysPipeWrite_balanced (bytes : List UInt8) (pipes : Nat → Pipe) (id : Int)
    (balanced : Balanced pipes claimed) : Balanced (sysPipeWrite pipes id bytes).2 claimed := by
  induction bytes generalizing pipes with
  | nil => exact balanced
  | cons byte rest ih =>
    have once : Balanced (pipeTryPut pipes id byte).2 claimed :=
      balanced.traffic (fun other => (pipeTryPut_traffic pipes id byte other).1)
        fun other => (pipeTryPut_traffic pipes id byte other).2
    simp only [sysPipeWrite]
    split
    · exact ih _ (by simp_all)
    · simp_all

/-- Every SYS_PIPE_HOLD with a negative delta gives back an earlier claim. -/
def Matched (kernel : Kernel) : Action → Prop
  | .hold _ hid asWriter delta =>
    pipeValid kernel.pipes hid = true → delta < 0 → 0 < kernel.holds hid.toNat asWriter
  | _ => True

instance (kernel : Kernel) (action : Action) : Decidable (Matched kernel action) :=
  match action with
  | .hold _ hid asWriter delta => inferInstanceAs (Decidable (pipeValid kernel.pipes hid = true →
      delta < 0 → 0 < kernel.holds hid.toNat asWriter))
  | .create | .pipe _ | .setEnd .. | .read .. | .write .. | .rfork .. | .exec _ | .exit _
  | .kill .. => isTrue trivial

/-- The steps that keep the counts right: no end that is a pipe's only reference
is re-pointed at that pipe, and no count is raised past what an `int` holds. -/
def Spared (procsMax : Nat) (kernel : Kernel) : Action → Prop
  | .setEnd caller spid spipe asWriter =>
    ∀ target ∈ procByPid procsMax kernel spid,
      setEndAllowed kernel caller target spipe = true → 0 ≤ spipe →
      ¬ selfRepoint kernel target spipe asWriter ∧
        ((kernel.procs target).pipeEnd asWriter ≠ spipe → roomy kernel spipe asWriter)
  | .hold _ hid asWriter delta =>
    pipeValid kernel.pipes hid = true → 0 ≤ delta → roomy kernel hid asWriter
  | .rfork caller rfmem outPipe inPipe => ∀ asWriter,
      pipeValid kernel.pipes
        (wantedEnd kernel caller rfmem (if asWriter then outPipe else inPipe) asWriter) = true →
      roomy kernel
        (wantedEnd kernel caller rfmem (if asWriter then outPipe else inPipe) asWriter) asWriter
  | _ => True

def Admitted (procsMax : Nat) (kernel : Kernel) (action : Action) : Prop :=
  Matched kernel action ∧ Spared procsMax kernel action

theorem Counted.perform (counted : Counted procsMax kernel) (action : Action)
    (callers : ∀ caller ∈ action.caller, (kernel.procs caller).live = true)
    (admitted : Admitted procsMax kernel action) :
    Counted procsMax (perform procsMax kernel action) := by
  obtain ⟨matched, spared⟩ := admitted
  cases action with
  | create =>
    simp only [Pipes.perform, createProcess]
    split
    · exact counted
    · next pid found => exact counted.born 0 found
  | pipe caller => exact ⟨counted.slots, counted.balanced.alloc⟩
  | setEnd caller spid spipe asWriter => exact counted.sysPipeSetEnd caller spid spipe asWriter spared
  | hold caller hid asWriter delta => exact counted.sysPipeHold hid asWriter delta matched spared
  | read caller rid rmax =>
    exact ⟨counted.slots, readPass_balanced (rmax - 1) kernel.pipes rid counted.balanced⟩
  | write caller wid bytes =>
    exact ⟨counted.slots, sysPipeWrite_balanced bytes kernel.pipes wid counted.balanced⟩
  | rfork caller rfmem outPipe inPipe =>
    refine counted.sysRfork (callers caller rfl) rfmem outPipe inPipe ?_
    rintro asWriter wanted rfl used
    exact spared asWriter used
  | exec caller => exact counted
  | exit caller => exact counted.procDestroy (callers caller rfl)
  | kill caller target =>
    simp only [Pipes.perform]
    split
    · exact counted
    · next victim found =>
        split
        · exact counted
        · exact counted.procDestroy (procByPid_spec found)

theorem counted_boot (procsMax : Nat) : Counted procsMax boot where
  slots pid live := by simp [boot] at live
  balanced := by
    have none (id : Nat) (asWriter : Bool) : claims procsMax boot id asWriter = 0 := by
      simp [claims, boot, census, naming]
    refine ⟨fun id asWriter some => ?_, fun id asWriter valid => ?_, fun id asWriter => ?_⟩
    · simp [none] at some
    · simp [boot, pipeValid] at valid
    · simp [none, intMax]

/-- What exact reference counting promises of one state. -/
structure Exact (procsMax : Nat) (kernel : Kernel) : Prop where
  counts : ∀ id : Nat, pipeValid kernel.pipes id = true → ∀ asWriter,
    (kernel.pipes id).refs asWriter =
      census (procsMax + 1) kernel.procs (naming id asWriter) + kernel.holds id asWriter
  ends : ∀ pid asWriter, (kernel.procs pid).live = true →
    0 ≤ (kernel.procs pid).pipeEnd asWriter →
    pipeValid kernel.pipes ((kernel.procs pid).pipeEnd asWriter) = true
  handout : ∀ id : Nat, (pipeAlloc kernel.pipes).1 = id → ∀ pid asWriter,
    (kernel.procs pid).live = true → (kernel.procs pid).pipeEnd asWriter ≠ id

theorem pipeAlloc_unused (handed : (pipeAlloc pipes).1 = id) : pipeValid pipes id = false := by
  simp only [pipeAlloc] at handed
  split at handed
  · omega
  · next slot found =>
      have free : (pipes slot).used = false := by simpa using List.find?_some found
      obtain rfl : slot = id := by omega
      simp [pipeValid, free]

theorem Counted.exact (counted : Counted procsMax kernel) : Exact procsMax kernel := by
  have ends : ∀ pid asWriter, (kernel.procs pid).live = true →
      0 ≤ (kernel.procs pid).pipeEnd asWriter →
      pipeValid kernel.pipes ((kernel.procs pid).pipeEnd asWriter) = true := by
    intro pid asWriter live holding
    obtain ⟨id, named⟩ := Int.eq_ofNat_of_zero_le holding
    rw [named]
    exact counted.balanced.used id asWriter (counted.claims_pos live named)
  refine ⟨fun id valid asWriter => ?_, ends, fun id handed pid asWriter live named => ?_⟩
  · have count := counted.balanced.counted id asWriter valid
    simpa [claims] using count
  · have used := ends pid asWriter live (by omega)
    rw [named, pipeAlloc_unused handed] at used
    cases used

/-- In every run whose holds are matched and whose steps are spared, the counts of
each pipe in use are exact, no end dangles, and no named pipe is handed out. -/
theorem pipe_counts_exact (procsMax : Nat) (kernel : Kernel)
    (run : Reach (step procsMax) (Admitted procsMax) boot kernel) : Exact procsMax kernel := by
  refine Counted.exact (run.invariant _ (counted_boot procsMax) ?_)
  intro before action after counted admitted stepped
  simp only [step] at stepped
  split at stepped
  · next callers =>
      simp only [Option.some.injEq] at stepped
      exact stepped ▸ counted.perform action callers admitted
  · cases stepped

instance (kernel : Kernel) (action : Action) : Decidable (Spared procsMax kernel action) :=
  match action with
  | .setEnd caller spid spipe asWriter =>
    inferInstanceAs (Decidable (∀ target ∈ procByPid procsMax kernel spid,
      setEndAllowed kernel caller target spipe = true → 0 ≤ spipe →
      ¬ selfRepoint kernel target spipe asWriter ∧
        ((kernel.procs target).pipeEnd asWriter ≠ spipe →
          (kernel.pipes spipe.toNat).refs asWriter < intMax)))
  | .hold _ hid asWriter delta =>
    inferInstanceAs (Decidable (pipeValid kernel.pipes hid = true → 0 ≤ delta →
      (kernel.pipes hid.toNat).refs asWriter < intMax))
  | .rfork caller rfmem outPipe inPipe =>
    inferInstanceAs (Decidable (∀ asWriter : Bool,
      let wanted := wantedEnd kernel caller rfmem (if asWriter then outPipe else inPipe) asWriter
      pipeValid kernel.pipes wanted = true →
        (kernel.pipes wanted.toNat).refs asWriter < intMax))
  | .create | .pipe _ | .read .. | .write .. | .exec _ | .exit _ | .kill .. => isTrue trivial

instance (kernel : Kernel) (action : Action) : Decidable (Admitted procsMax kernel action) :=
  inferInstanceAs (Decidable (_ ∧ _))

def sharedPipe : Kernel :=
  outcome (step 64) (Admitted 64) boot
    [.create, .pipe 1, .setEnd 1 1 0 true, .hold 1 0 false 1, .rfork 1 false (-1) (-1)]

theorem pipe_counts_exact_shared :
    (sharedPipe.pipes 0).writers = 2 ∧ Exact 64 sharedPipe :=
  ⟨by decide, pipe_counts_exact 64 sharedPipe (outcome_reach _ _ (by decide))⟩

/-- SYS_PIPE, then SYS_PIPE_SETOUT of oneself to that pipe twice. -/
def repointed : Kernel :=
  outcome (step 64) Matched boot [.create, .pipe 1, .setEnd 1 1 0 true, .setEnd 1 1 0 true]

/-- The second call frees the pipe, so the live end names an unused slot and
`pipe_alloc` hands that slot to the next caller. -/
theorem repointed_end_dangles :
    Reach (step 64) Matched boot repointed ∧ (pipeAlloc repointed.pipes).1 = 0 ∧
      ¬ Exact 64 repointed :=
  ⟨outcome_reach _ _ (by decide), by decide,
    fun exact_ => exact_.handout 0 (by decide) 1 true (by decide) (by decide)⟩

end Racccoon.Pipes
