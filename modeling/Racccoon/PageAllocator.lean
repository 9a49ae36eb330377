import Mathlib.Order.Interval.Finset.Nat
import Racccoon.Lib.Bitmap
import Racccoon.Lib.Run

/-!
The physical page allocator of `src/allocation.c3`: a bitmap over the page pool
scanned from a rover. `Pool` holds the two linker symbols. A scan returns 0 for
"no run", as the source does, so the pool must not start at address 0. The
zero-fill of a claimed run writes page contents, which nothing here reads.
-/

namespace Racccoon.PageAllocator

def pageSize : Nat := 4096
def ramSize : Nat := 1920 * 1024 * 1024
def bitsPerWord : Nat := 32
def totalPages : Nat := ramSize / pageSize

/-- `__free_ram` and `__free_ram_end`, as a board's linker script places them. -/
structure Pool where
  freeRam : Nat
  freeRamEnd : Nat
  notNull : 0 < freeRam

structure Allocator where
  bitmap : Nat → BitVec bitsPerWord
  allocRover : Nat

def initial : Allocator := ⟨fun _ => 0, 0⟩

variable (pool : Pool)

def Pool.ramPageCount : Nat :=
  let pages := (pool.freeRamEnd - pool.freeRam) / pageSize
  if pages < totalPages then pages else totalPages

variable (alloc : Allocator)

def bitIsSet (pageIdx : Nat) : Bool := Bitmap.test alloc.bitmap pageIdx

def freePageCount : Nat :=
  (List.range pool.ramPageCount).countP fun page => !bitIsSet alloc page

/-- The loop of `alloc_scan`; `fuel` is `hi - i`. A page found set restarts the
run, and the run is claimed as soon as it is `n` pages long. -/
def scanFrom (pool : Pool) (n : Nat) : Nat → Nat → Nat → Nat → Allocator → Nat × Allocator
  | 0, _, _, _, alloc => (0, alloc)
  | fuel + 1, i, runStart, runLen, alloc =>
    if bitIsSet alloc i then scanFrom pool n fuel (i + 1) runStart 0 alloc
    else
      let runStart := if runLen = 0 then i else runStart
      let runLen := runLen + 1
      if runLen = n then
        (pool.freeRam + runStart * pageSize,
          ⟨Bitmap.insertRange alloc.bitmap runStart (i + 1 - runStart), i + 1⟩)
      else scanFrom pool n fuel (i + 1) runStart runLen alloc

def allocScan (lo hi n : Nat) : Nat × Allocator :=
  scanFrom pool n (hi - lo) lo 0 0 alloc

def resetRover : Allocator :=
  if alloc.allocRover ≥ pool.ramPageCount then { alloc with allocRover := 0 } else alloc

def tryAllocPages (n : Nat) : Nat × Allocator :=
  let start := resetRover pool alloc
  let first := allocScan pool start start.allocRover pool.ramPageCount n
  if first.1 = 0 ∧ first.2.allocRover > 0 then
    allocScan pool first.2 0 first.2.allocRover n
  else first

/-- `none` is the panic. -/
def allocPages (n : Nat) : Option (Nat × Allocator) :=
  let result := tryAllocPages pool alloc n
  if result.1 = 0 then none else some result

def pageIndex (paddr : Nat) : Nat := (paddr - pool.freeRam) / pageSize

def freePages (paddr n : Nat) : Allocator :=
  if paddr < pool.freeRam ∨ paddr ≥ pool.freeRamEnd then alloc
  else
    let startIdx := pageIndex pool paddr
    { bitmap := Bitmap.removeRange alloc.bitmap startIdx n
      allocRover := if startIdx < alloc.allocRover then startIdx else alloc.allocRover }

@[simp] theorem bits_positive : 0 < bitsPerWord := by decide

/-- What a scan that found a run did: the run was clear and is set now, nothing
else moved, and the address handed out is the run's first page. -/
structure Claimed (pool : Pool) (lo hi n : Nat) (before : Allocator) (paddr : Nat)
    (after : Allocator) : Prop where
  run : ∃ first, lo ≤ first ∧ first + n ≤ hi ∧ paddr = pool.freeRam + first * pageSize ∧
    (∀ page, first ≤ page → page < first + n → bitIsSet before page = false) ∧
    ∀ page, bitIsSet after page = (decide (first ≤ page ∧ page < first + n) || bitIsSet before page)
  sized : 0 < n

variable {pool : Pool}
variable {n paddr : Nat}
variable {before : Allocator}

theorem Claimed.not_null {lo hi : Nat} {after : Allocator}
    (claimed : Claimed pool lo hi n before paddr after) : paddr ≠ 0 := by
  obtain ⟨first, _, _, rfl, _⟩ := claimed.run
  have := pool.notNull
  omega

/-- The loop carries a run of clear pages that ends just before `i`. -/
theorem scanFrom_claims (pool : Pool) (n lo hi : Nat) (fuel i runStart runLen : Nat)
    (alloc : Allocator) (bound : i + fuel = hi) (short : runLen < n ∨ n = 0)
    (inside : 0 < runLen → lo ≤ runStart ∧ runStart + runLen = i) (above : lo ≤ i)
    (clear : 0 < runLen → ∀ page, runStart ≤ page → page < i → bitIsSet alloc page = false) :
    scanFrom pool n fuel i runStart runLen alloc = (0, alloc) ∨
      Claimed pool lo hi n alloc (scanFrom pool n fuel i runStart runLen alloc).1
        (scanFrom pool n fuel i runStart runLen alloc).2 := by
  induction fuel generalizing i runStart runLen with
  | zero => exact Or.inl rfl
  | succ fuel ih =>
    rw [scanFrom]
    by_cases used : bitIsSet alloc i = true
    · rw [if_pos used]
      exact ih (i + 1) runStart 0 (by omega) (by omega) (by omega) (by omega) (by omega)
    · rw [if_neg used]
      have freePage : bitIsSet alloc i = false := by simpa using used
      -- The run now includes page `i`, whether it starts there or continues.
      have begins : lo ≤ (if runLen = 0 then i else runStart) ∧
          (if runLen = 0 then i else runStart) + (runLen + 1) = i + 1 := by
        by_cases fresh : runLen = 0
        · simp [fresh, above]
        · simp only [fresh, ↓reduceIte]
          omega
      have extends' : ∀ page, (if runLen = 0 then i else runStart) ≤ page → page < i + 1 →
          bitIsSet alloc page = false := by
        intro page low high
        by_cases same : page = i
        · rw [same]; exact freePage
        · by_cases fresh : runLen = 0
          · omega
          · simp only [fresh] at low
            exact clear (by omega) page low (by omega)
      generalize (if runLen = 0 then i else runStart) = start at begins extends'
      by_cases full : runLen + 1 = n
      · right
        simp only [full, ↓reduceIte]
        refine ⟨⟨start, begins.1, by omega, rfl, ?_, ?_⟩, by omega⟩
        · intro page low high
          exact extends' page low (by omega)
        · intro page
          have span : start + (i + 1 - start) = start + n := by omega
          simp only [bitIsSet, Bitmap.test_insertRange bits_positive, span]
      · simp only [full]
        exact ih (i + 1) start (runLen + 1) (by omega) (by omega) (fun _ => begins)
          (by omega) (fun _ => extends')

theorem allocScan_claims (pool : Pool) (alloc : Allocator) (lo hi n : Nat) :
    allocScan pool alloc lo hi n = (0, alloc) ∨
      Claimed pool lo hi n alloc (allocScan pool alloc lo hi n).1
        (allocScan pool alloc lo hi n).2 := by
  unfold allocScan
  by_cases order : lo ≤ hi
  · exact scanFrom_claims pool n lo hi (hi - lo) lo 0 0 alloc (by omega) (by omega)
      (by omega) (Nat.le_refl lo) (by omega)
  · have empty : hi - lo = 0 := by omega
    rw [empty]
    exact Or.inl rfl

theorem resetRover_bits (pool : Pool) (alloc : Allocator) (page : Nat) :
    bitIsSet (resetRover pool alloc) page = bitIsSet alloc page := by
  unfold resetRover
  split <;> rfl

theorem resetRover_le (pool : Pool) (alloc : Allocator) :
    (resetRover pool alloc).allocRover ≤ pool.ramPageCount := by
  unfold resetRover
  split
  · exact Nat.zero_le _
  · omega

/-- Whatever the rover was, a call either finds nothing and moves no bit, or
claims one run inside the pool. -/
theorem tryAllocPages_claims (pool : Pool) (alloc : Allocator) (n : Nat) :
    ((tryAllocPages pool alloc n).1 = 0 ∧
      ∀ page, bitIsSet (tryAllocPages pool alloc n).2 page = bitIsSet alloc page) ∨
    Claimed pool 0 pool.ramPageCount n alloc (tryAllocPages pool alloc n).1
      (tryAllocPages pool alloc n).2 := by
  have sameBits := resetRover_bits pool alloc
  have rover := resetRover_le pool alloc
  rw [tryAllocPages]
  generalize resetRover pool alloc = start at *
  have widen : ∀ {lo hi paddr : Nat} {after : Allocator}, hi ≤ pool.ramPageCount →
      Claimed pool lo hi n start paddr after →
      Claimed pool 0 pool.ramPageCount n alloc paddr after := by
    rintro lo hi paddr after high ⟨⟨first, _, upper, address, clear, set⟩, sized⟩
    refine ⟨⟨first, Nat.zero_le _, by omega, address, ?_, ?_⟩, sized⟩
    · intro page low below
      rw [← sameBits]
      exact clear page low below
    · intro page
      rw [set, sameBits]
  rcases allocScan_claims pool start start.allocRover pool.ramPageCount n with missed | claimed
  · simp only [missed]
    split
    · rcases allocScan_claims pool start 0 start.allocRover n with missedAgain | claimed
      · rw [missedAgain]
        exact Or.inl ⟨rfl, sameBits⟩
      · exact Or.inr (widen rover claimed)
    · exact Or.inl ⟨rfl, sameBits⟩
  · simp only [claimed.not_null]
    exact Or.inr (widen (Nat.le_refl _) claimed)

structure PageRun where
  paddr : Nat
  pages : Nat
  deriving DecidableEq

def PageRun.Covers (pool : Pool) (run : PageRun) (page : Nat) : Prop :=
  pageIndex pool run.paddr ≤ page ∧ page < pageIndex pool run.paddr + run.pages

structure Machine where
  alloc : Allocator
  live : List PageRun

inductive Action where
  | tryAlloc (n : Nat)
  | alloc (n : Nat)
  | free (paddr n : Nat)

def step (pool : Pool) (machine : Machine) : Action → Option Machine
  | .tryAlloc n =>
    let result := tryAllocPages pool machine.alloc n
    some ⟨result.2, if result.1 = 0 then machine.live else ⟨result.1, n⟩ :: machine.live⟩
  | .alloc n => (allocPages pool machine.alloc n).map fun result =>
    ⟨result.2, ⟨result.1, n⟩ :: machine.live⟩
  | .free paddr n =>
    some ⟨freePages pool machine.alloc paddr n, machine.live.erase ⟨paddr, n⟩⟩

def Outside (pool : Pool) (paddr : Nat) : Prop :=
  paddr < pool.freeRam ∨ paddr ≥ pool.freeRamEnd

def Admits (pool : Pool) (machine : Machine) : Action → Prop
  | .free paddr n => ⟨paddr, n⟩ ∈ machine.live ∨ Outside pool paddr
  | _ => True

instance (pool : Pool) (machine : Machine) : (action : Action) →
    Decidable (Admits pool machine action)
  | .free _ _ => inferInstanceAs (Decidable (_ ∨ _ ∨ _))
  | .tryAlloc _ | .alloc _ => isTrue trivial

def PageRun.Placed (pool : Pool) (run : PageRun) : Prop :=
  0 < run.pages ∧ ∃ first, run.paddr = pool.freeRam + first * pageSize ∧
    first + run.pages ≤ pool.ramPageCount

structure WellFormed (pool : Pool) (machine : Machine) : Prop where
  placed : ∀ run ∈ machine.live, run.Placed pool
  disjoint : machine.live.Pairwise fun left right =>
    ∀ page, ¬ (left.Covers pool page ∧ right.Covers pool page)
  exact : ∀ page, bitIsSet machine.alloc page = true ↔
    ∃ run ∈ machine.live, run.Covers pool page

theorem pageIndex_at (pool : Pool) (first : Nat) :
    pageIndex pool (pool.freeRam + first * pageSize) = first := by
  simp [pageIndex, pageSize]

theorem ramPageCount_span (pool : Pool) :
    pool.ramPageCount * pageSize ≤ pool.freeRamEnd - pool.freeRam := by
  have whole := Nat.div_mul_le_self (pool.freeRamEnd - pool.freeRam) pageSize
  unfold Pool.ramPageCount
  simp only
  split
  · exact whole
  · exact Nat.le_trans (Nat.mul_le_mul_right _ (by omega)) whole

theorem PageRun.Placed.inside {run : PageRun} (placed : run.Placed pool) :
    pool.freeRam ≤ run.paddr ∧ run.paddr + run.pages * pageSize ≤ pool.freeRamEnd := by
  obtain ⟨positive, first, address, fits⟩ := placed
  have span := ramPageCount_span pool
  simp only [pageSize] at *
  omega

theorem initial_wellFormed (pool : Pool) : WellFormed pool ⟨initial, []⟩ where
  placed := by simp
  disjoint := .nil
  exact := by simp [initial, bitIsSet, Bitmap.test]

theorem Claimed.wellFormed {after : Allocator} {live : List PageRun}
    (valid : WellFormed pool ⟨before, live⟩)
    (claimed : Claimed pool 0 pool.ramPageCount n before paddr after) :
    WellFormed pool ⟨after, ⟨paddr, n⟩ :: live⟩ := by
  obtain ⟨⟨first, _, fits, rfl, clear, set⟩, sized⟩ := claimed
  have covers : ∀ page, PageRun.Covers pool ⟨pool.freeRam + first * pageSize, n⟩ page ↔
      first ≤ page ∧ page < first + n := by
    intro page
    simp only [PageRun.Covers, pageIndex_at]
  constructor
  · intro run member
    rcases List.mem_cons.mp member with rfl | old
    · exact ⟨sized, first, rfl, fits⟩
    · exact valid.placed run old
  · refine List.Pairwise.cons ?_ valid.disjoint
    rintro run member page ⟨new, old⟩
    have used := (valid.exact page).mpr ⟨run, member, old⟩
    have free := clear page ((covers page).mp new).1 ((covers page).mp new).2
    simp only [used] at free
    cases free
  · intro page
    simp only [set, Bool.or_eq_true, decide_eq_true_eq, List.mem_cons, exists_eq_or_imp, covers]
    exact or_congr Iff.rfl (valid.exact page)

variable {after machine : Machine}

theorem tryAlloc_wellFormed (valid : WellFormed pool machine)
    (stepped : step pool machine (.tryAlloc n) = some after) : WellFormed pool after := by
  simp only [step, Option.some.injEq] at stepped
  subst stepped
  rcases tryAllocPages_claims pool machine.alloc n with ⟨failed, same⟩ | claimed
  · simp only [failed]
    exact ⟨valid.placed, valid.disjoint, fun page => by rw [same]; exact valid.exact page⟩
  · rw [if_neg claimed.not_null]
    exact claimed.wellFormed valid

theorem alloc_wellFormed (valid : WellFormed pool machine)
    (stepped : step pool machine (.alloc n) = some after) : WellFormed pool after := by
  simp only [step, allocPages, Option.map_eq_some_iff] at stepped
  obtain ⟨result, found, rfl⟩ := stepped
  split at found
  · cases found
  · next failed =>
      cases found
      rcases tryAllocPages_claims pool machine.alloc n with ⟨zero, _⟩ | claimed
      · exact absurd zero failed
      · exact claimed.wellFormed valid

theorem freePages_outside (pool : Pool) (alloc : Allocator) (paddr n : Nat)
    (outside : Outside pool paddr) : freePages pool alloc paddr n = alloc := by
  exact if_pos outside

theorem free_wellFormed (valid : WellFormed pool machine)
    (admitted : Admits pool machine (.free paddr n))
    (stepped : step pool machine (.free paddr n) = some after) : WellFormed pool after := by
  simp only [step, Option.some.injEq] at stepped
  subst stepped
  by_cases member : (⟨paddr, n⟩ : PageRun) ∈ machine.live
  · have inside := (valid.placed _ member).inside
    have positive := (valid.placed _ member).1
    have inPool : ¬ Outside pool paddr := by
      simp only [Outside, pageSize] at *
      omega
    -- The freed run and the runs that stay live are still pairwise disjoint.
    have split : (⟨paddr, n⟩ :: machine.live.erase ⟨paddr, n⟩).Pairwise fun left right =>
        ∀ page, ¬ (left.Covers pool page ∧ right.Covers pool page) := by
      refine ((List.perm_cons_erase member).pairwise_iff ?_).mp valid.disjoint
      intro left right apart page both
      exact apart page both.symm
    obtain ⟨apart, rest⟩ := List.pairwise_cons.mp split
    refine ⟨fun run kept => valid.placed run (List.mem_of_mem_erase kept), rest, ?_⟩
    intro page
    simp only [freePages, Outside] at inPool ⊢
    simp only [inPool, ↓reduceIte, bitIsSet, Bitmap.test_removeRange bits_positive,
      Bool.and_eq_true, Bool.not_eq_true', decide_eq_false_iff_not]
    constructor
    · rintro ⟨other, used⟩
      obtain ⟨run, old, covers⟩ := (valid.exact page).mp used
      refine ⟨run, (List.mem_erase_of_ne ?_).mpr old, covers⟩
      rintro rfl
      exact other covers
    · rintro ⟨run, kept, covers⟩
      exact ⟨fun freed => apart run kept page ⟨freed, covers⟩,
        (valid.exact page).mpr ⟨run, List.mem_of_mem_erase kept, covers⟩⟩
  · have outside := admitted.resolve_left member
    rw [freePages_outside pool _ paddr n outside, List.erase_of_not_mem member]
    exact valid

theorem step_wellFormed {action : Action} (valid : WellFormed pool machine)
    (admitted : Admits pool machine action) (stepped : step pool machine action = some after) :
    WellFormed pool after := by
  cases action with
  | tryAlloc => exact tryAlloc_wellFormed valid stepped
  | alloc => exact alloc_wellFormed valid stepped
  | free paddr n => exact free_wellFormed valid admitted stepped

theorem run_wellFormed (run : Run.Reach (step pool) (Admits pool) ⟨initial, []⟩ machine) :
    WellFormed pool machine :=
  run.invariant _ (initial_wellFormed pool) fun _ _ _ valid admitted stepped =>
    step_wellFormed valid admitted stepped

theorem freePageCount_card (pool : Pool) (alloc : Allocator) :
    freePageCount pool alloc =
      ((Finset.range pool.ramPageCount).filter fun page => bitIsSet alloc page = false).card := by
  have sameTest : (fun page => !bitIsSet alloc page) =
      fun page => decide (bitIsSet alloc page = false) := by
    funext page
    cases bitIsSet alloc page <;> rfl
  rw [freePageCount, List.countP_eq_length_filter, sameTest]
  rfl

/-- What the allocator's callers rely on. -/
structure Safe (pool : Pool) (machine : Machine) : Prop where
  disjoint : machine.live.Pairwise fun left right =>
    ∀ page, ¬ (left.Covers pool page ∧ right.Covers pool page)
  inside : ∀ held ∈ machine.live,
    pool.freeRam ≤ held.paddr ∧ held.paddr + held.pages * pageSize ≤ pool.freeRamEnd
  bits : ∀ page, bitIsSet machine.alloc page = true ↔
    ∃ held ∈ machine.live, held.Covers pool page
  count : freePageCount pool machine.alloc =
    ((Finset.range pool.ramPageCount).filter fun page => bitIsSet machine.alloc page = false).card
  device : ∀ paddr n, Outside pool paddr → freePages pool machine.alloc paddr n = machine.alloc

theorem allocator_safe (pool : Pool) (machine : Machine)
    (run : Run.Reach (step pool) (Admits pool) ⟨initial, []⟩ machine) : Safe pool machine where
  disjoint := (run_wellFormed run).disjoint
  inside held member := ((run_wellFormed run).placed held member).inside
  bits := (run_wellFormed run).exact
  count := freePageCount_card pool machine.alloc
  device := freePages_outside pool machine.alloc

/-- Sixteen pages of RAM, and a history that reuses a freed run and frees a
device address. -/
def smallPool : Pool := ⟨0x80400000, 0x80410000, by decide⟩

def smallHistory : List Action :=
  [.tryAlloc 2, .alloc 3, .free 0x80400000 2, .tryAlloc 1, .free 0x10001000 1]

def smallMachine : Machine :=
  (Run.replay (step smallPool) (Admits smallPool) ⟨initial, []⟩ smallHistory).getD ⟨initial, []⟩

theorem allocator_safe_small : Safe smallPool smallMachine ∧
    smallMachine.live = [⟨0x80400000, 1⟩, ⟨0x80402000, 3⟩] :=
  ⟨allocator_safe smallPool smallMachine (Run.replay_reach smallHistory _ _ rfl), rfl⟩

/-- No page is lost or counted twice: in every state the free pages and those of the live runs
are all the pages of the pool. -/
theorem pages_conserved (run : Run.Reach (step pool) (Admits pool) ⟨initial, []⟩ machine) :
    freePageCount pool machine.alloc + (machine.live.map PageRun.pages).sum =
      pool.ramPageCount := by
  have valid := run_wellFormed run
  let covered := machine.live.flatMap fun run => List.range' (pageIndex pool run.paddr) run.pages
  have mem (page : Nat) : page ∈ covered ↔ bitIsSet machine.alloc page = true := by
    simp only [covered, List.mem_flatMap, List.mem_range'_1, valid.exact, PageRun.Covers]
  have nodup : covered.Nodup := by
    refine List.nodup_flatMap.mpr ⟨fun _ _ => List.nodup_range' .., valid.disjoint.imp ?_⟩
    intro left right apart page mine theirs
    exact apart page ⟨List.mem_range'_1.mp mine, List.mem_range'_1.mp theirs⟩
  have used : (Finset.range pool.ramPageCount).filter (bitIsSet machine.alloc · = true) =
      covered.toFinset := by
    ext page
    rw [Finset.mem_filter, Finset.mem_range, List.mem_toFinset, mem, and_iff_right_of_imp]
    intro taken
    obtain ⟨run, member, covers⟩ := (valid.exact page).mp taken
    obtain ⟨-, first, address, fits⟩ := valid.placed run member
    rw [PageRun.Covers, address, pageIndex_at] at covers
    omega
  have length : covered.length = (machine.live.map PageRun.pages).sum := by
    simp only [covered, List.length_flatMap, List.length_range']
  rw [freePageCount_card, ← length, ← List.toFinset_card_of_nodup nodup, ← used, Nat.add_comm]
  simp only [← Bool.not_eq_true]
  rw [Finset.card_filter_add_card_filter_not, Finset.card_range]

theorem pages_conserved_small :
    freePageCount smallPool smallMachine.alloc + (smallMachine.live.map PageRun.pages).sum = 16 :=
  pages_conserved (Run.replay_reach smallHistory _ _ rfl)

def FreeRun (alloc : Allocator) (n first : Nat) : Prop :=
  ∀ page, first ≤ page → page < first + n → bitIsSet alloc page = false

/-- A scan that gave up has passed no run that starts behind the pages it carried. -/
theorem scanFrom_misses (pool : Pool) (n fuel i runStart runLen : Nat) (alloc : Allocator)
    (short : runLen < n) (missed : (scanFrom pool n fuel i runStart runLen alloc).1 = 0)
    (first : Nat) (low : i ≤ first + runLen) (high : first + n ≤ i + fuel) :
    ¬ FreeRun alloc n first := by
  intro free
  induction fuel generalizing i runStart runLen with
  | zero => omega
  | succ fuel ih =>
    rw [scanFrom] at missed
    by_cases used : bitIsSet alloc i = true
    · rw [if_pos used] at missed
      have outside : ¬ (first ≤ i ∧ i < first + n) := fun inside => by
        rw [free i inside.1 inside.2] at used
        cases used
      exact ih (i + 1) runStart 0 (by omega) missed (by omega) (by omega)
    · rw [if_neg used] at missed
      by_cases full : runLen + 1 = n
      · have := pool.notNull
        simp only [full, ↓reduceIte] at missed
        omega
      · simp only [full] at missed
        exact ih (i + 1) _ (runLen + 1) (by omega) missed (by omega) (by omega)

theorem allocScan_misses_iff (pool : Pool) (alloc : Allocator) {lo hi n : Nat} (positive : 0 < n) :
    (allocScan pool alloc lo hi n).1 = 0 ↔
      ∀ first, lo ≤ first → first + n ≤ hi → ¬ FreeRun alloc n first := by
  constructor
  · intro missed first low high
    exact scanFrom_misses pool n (hi - lo) lo _ 0 alloc positive missed first low (by omega)
  · intro absent
    rcases allocScan_claims pool alloc lo hi n with missed | claimed
    · rw [missed]
    · obtain ⟨first, low, high, -, clear, -⟩ := claimed.run
      exact absurd clear (absent first low high)

/-- Where `try_alloc_pages` splits its search. -/
def searchStart (pool : Pool) (alloc : Allocator) : Nat := (resetRover pool alloc).allocRover

def Straddles (pool : Pool) (alloc : Allocator) (n first : Nat) : Prop :=
  first < searchStart pool alloc ∧ searchStart pool alloc < first + n

/-- A call fails when the pool has no run but those that straddle the rover. -/
theorem tryAllocPages_misses_iff (pool : Pool) (alloc : Allocator) (positive : 0 < n) :
    (tryAllocPages pool alloc n).1 = 0 ↔
      ∀ first, first + n ≤ pool.ramPageCount → FreeRun alloc n first →
        Straddles pool alloc n first := by
  have rover := resetRover_le pool alloc
  have sameRuns : ∀ first, FreeRun (resetRover pool alloc) n first ↔ FreeRun alloc n first := by
    intro first
    simp only [FreeRun, resetRover_bits]
  simp only [← sameRuns, Straddles, searchStart, tryAllocPages]
  generalize resetRover pool alloc = start at rover
  have upper := @allocScan_misses_iff pool start start.allocRover pool.ramPageCount n positive
  have lower := @allocScan_misses_iff pool start 0 start.allocRover n positive
  rcases allocScan_claims pool start start.allocRover pool.ramPageCount n with missed | claimed
  · have noneAbove := upper.mp (by rw [missed])
    simp only [missed, true_and]
    constructor
    · intro failed first inside free
      have below : first < start.allocRover := by
        by_contra above
        exact noneAbove first (by omega) inside free
      rw [if_pos (by omega)] at failed
      exact ⟨below, by_contra fun ends =>
        lower.mp failed first (Nat.zero_le _) (by omega) free⟩
    · intro straddle
      split
      · refine lower.mpr fun first _ ends free => ?_
        have := straddle first (by omega) free
        omega
      · rfl
  · simp only [claimed.not_null, false_and, ↓reduceIte]
    obtain ⟨first, low, high, -, clear, -⟩ := claimed.run
    refine iff_of_false not_false fun straddle => ?_
    have := straddle first high clear
    omega

theorem tryAllocPages_one (pool : Pool) (alloc : Allocator)
    (missed : (tryAllocPages pool alloc 1).1 = 0) (page : Nat) (inside : page < pool.ramPageCount) :
    bitIsSet alloc page = true := by
  by_contra clear
  have free : FreeRun alloc 1 page := by
    intro other low high
    obtain rfl : other = page := by omega
    simpa using clear
  have split := (tryAllocPages_misses_iff pool alloc Nat.one_pos).mp missed page inside free
  obtain ⟨below, above⟩ := split
  omega

/-- A call fails only when the pool has no `n` free pages in a row. -/
def FindsRun (pool : Pool) (alloc : Allocator) (n : Nat) : Prop :=
  (tryAllocPages pool alloc n).1 = 0 →
    ∀ first, first + n ≤ pool.ramPageCount → ¬ FreeRun alloc n first

/-- The search is complete unless every free run straddles the rover. -/
theorem finds_run_iff (pool : Pool) (alloc : Allocator) (n : Nat) (positive : 0 < n) :
    FindsRun pool alloc n ↔
      ((∃ first, first + n ≤ pool.ramPageCount ∧ FreeRun alloc n first) →
        ∃ first, first + n ≤ pool.ramPageCount ∧ FreeRun alloc n first ∧
          ¬ Straddles pool alloc n first) := by
  rw [FindsRun, tryAllocPages_misses_iff pool alloc positive]
  constructor
  · rintro complete ⟨first, inside, free⟩
    by_contra split
    exact complete (fun other inPool clear => by_contra fun whole =>
      split ⟨other, inPool, clear, whole⟩) first inside free
  · intro found straddle first inside free
    obtain ⟨other, inPool, clear, whole⟩ := found ⟨first, inside, free⟩
    exact whole (straddle other inPool clear)

theorem finds_run_fresh : 0 < 3 ∧ FindsRun smallPool initial 3 := by
  refine ⟨by decide, (finds_run_iff smallPool initial 3 (by decide)).mpr fun _ => ⟨0, ?_⟩⟩
  refine ⟨by decide, ?_, fun straddles => absurd straddles.1 (Nat.not_lt_zero 0)⟩
  intro page _ _
  simp [bitIsSet, initial, Bitmap.test]

/-- Six pages; in the end pages 1 and 2 are free and the rover stands at page 2. -/
def tightPool : Pool := ⟨0x80400000, 0x80406000, by decide⟩

def tightHistory : List Action :=
  [.tryAlloc 1, .tryAlloc 1, .tryAlloc 1, .tryAlloc 1, .free 0x80401000 1, .tryAlloc 2,
    .free 0x80402000 1]

def tightMachine : Machine :=
  (Run.replay (step tightPool) (Admits tightPool) ⟨initial, []⟩ tightHistory).getD ⟨initial, []⟩

/-- Two free pages in a row, one on each side of the rover, are not found. -/
theorem straddling_run_missed :
    Run.Reach (step tightPool) (Admits tightPool) ⟨initial, []⟩ tightMachine ∧
      ¬ FindsRun tightPool tightMachine.alloc 2 := by
  refine ⟨Run.replay_reach tightHistory _ _ rfl, fun complete => ?_⟩
  refine complete (by decide) 1 (by decide) fun page low high => ?_
  obtain rfl | rfl : page = 1 ∨ page = 2 := by omega
  all_goals decide

theorem freePageCount_congr (pool : Pool) {after : Allocator}
    (same : ∀ page, bitIsSet after page = bitIsSet before page) :
    freePageCount pool after = freePageCount pool before := by
  simp only [freePageCount, same]

theorem Claimed.freePageCount {after : Allocator}
    (claimed : Claimed pool 0 pool.ramPageCount n before paddr after) :
    freePageCount pool after + n = PageAllocator.freePageCount pool before := by
  obtain ⟨first, -, fits, -, clear, set⟩ := claimed.run
  have parts : (Finset.range pool.ramPageCount).filter (fun page => bitIsSet before page = false) =
      (Finset.range pool.ramPageCount).filter (fun page => bitIsSet after page = false) ∪
        Finset.Ico first (first + n) := by
    ext page
    simp only [Finset.mem_filter, Finset.mem_range, Finset.mem_union, Finset.mem_Ico, set,
      Bool.or_eq_false_iff, decide_eq_false_iff_not]
    constructor
    · rintro ⟨inside, free⟩
      by_cases taken : first ≤ page ∧ page < first + n
      · exact .inr taken
      · exact .inl ⟨inside, taken, free⟩
    · rintro (⟨inside, -, free⟩ | taken)
      · exact ⟨inside, free⟩
      · exact ⟨by omega, clear page taken.1 taken.2⟩
  have apart : Disjoint
      ((Finset.range pool.ramPageCount).filter fun page => bitIsSet after page = false)
      (Finset.Ico first (first + n)) := by
    rw [Finset.disjoint_left]
    intro page left right
    have free := (Finset.mem_filter.mp left).2
    rw [set, decide_eq_true (Finset.mem_Ico.mp right)] at free
    cases free
  rw [freePageCount_card, freePageCount_card, parts, Finset.card_union_of_disjoint apart,
    Nat.card_Ico]
  omega

/-- `alloc_pages(1)` panics exactly when the pool is empty and otherwise takes one
page. -/
theorem allocPages_one (pool : Pool) (alloc : Allocator) :
    (allocPages pool alloc 1 = none → freePageCount pool alloc = 0) ∧
      ∀ result ∈ allocPages pool alloc 1,
        freePageCount pool result.2 + 1 = freePageCount pool alloc := by
  unfold allocPages
  simp only
  split
  · next missed =>
      refine ⟨fun _ => ?_, by simp⟩
      have full := tryAllocPages_one pool alloc missed
      rw [freePageCount, List.countP_eq_zero]
      intro page inside
      simp [full page (List.mem_range.mp inside)]
  · next found =>
      refine ⟨by simp, ?_⟩
      rintro result ⟨rfl⟩
      rcases tryAllocPages_claims pool alloc 1 with ⟨missed, -⟩ | claimed
      · exact absurd missed found
      · exact claimed.freePageCount

theorem tryAllocPages_count (pool : Pool) (alloc : Allocator) (n : Nat) :
    freePageCount pool (tryAllocPages pool alloc n).2 +
        (if (tryAllocPages pool alloc n).1 = 0 then 0 else n) = freePageCount pool alloc := by
  rcases tryAllocPages_claims pool alloc n with ⟨missed, same⟩ | claimed
  · rw [if_pos missed]
    exact freePageCount_congr pool same
  · rw [if_neg claimed.not_null]
    exact claimed.freePageCount

end Racccoon.PageAllocator
