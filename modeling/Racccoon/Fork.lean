import Racccoon.DemandPages

/-!
The memory side of `sys_rfork`: the check of the out-pointer, which faults in pages of the
heap, the slot's buffers, the estimate it checks before it starts, and the child's page table.
Page contents are left out; `none` is the panic of `alloc_pages`.
-/

namespace Racccoon.Fork

open PageAllocator Budget Paging
open UserRanges (Heap userRangeValid CheckFree addressEnd)

/-- What a board's linker script and `board.c3` fix. -/
structure Board where
  pool : Pool
  kernelMapBase : Nat
  plicBase : Nat
  plicPhysBase : Nat
  plicCtx : Nat
  consoleMmioPage : Nat
  consoleMmioPhys : Nat

def procsMax : Nat := 64
def stackPages : Nat := 65536 / pageSize
def msgPages : Nat := (8192 + pageSize - 1) / pageSize

/-- `kstack` and `msgData` are null (0) until the slot is first used. -/
structure Slot where
  used : Bool
  kstack : Nat
  msgData : Nat
  pageTable : PageTable
  heap : Heap
  attachments : Nat

structure Kernel where
  alloc : Allocator
  procs : Nat → Slot
  segAttachFreeSlots : Nat

variable (board : Board)

def devicePage (vaddr paddr : Nat) : Nat × Leaf := (vpnOf vaddr, ⟨paddr, 0b011, false, false⟩)

def identityMap : List (Nat × Leaf) :=
  (List.range ((board.pool.freeRamEnd - board.kernelMapBase + pageSize - 1) / pageSize)).map
    fun k =>
      let paddr := board.kernelMapBase + k * pageSize
      (vpnOf paddr, ⟨paddr, 0b111, false, false⟩)

def pageOf (address : Nat) : Nat := address / pageSize * pageSize

def plicPage (offset : Nat) : Nat × Leaf :=
  let page := pageOf (board.plicBase + offset)
  devicePage page (page + board.plicPhysBase - board.plicBase)

def mapPlic : List (Nat × Leaf) :=
  [plicPage board 0, plicPage board (0x2000 + board.plicCtx * 0x80),
    plicPage board (0x200004 + board.plicCtx * 0x1000)]

def mapConsoleMmio : List (Nat × Leaf) :=
  if board.consoleMmioPage ≠ 0 then [devicePage board.consoleMmioPage board.consoleMmioPhys]
  else []

def kernelPages : List (Nat × Leaf) :=
  identityMap board ++ mapPlic board ++ mapConsoleMmio board

def kernelMapTablePages : Nat :=
  let span := board.pool.freeRamEnd - board.kernelMapBase
  span / (2 * 1024 * 1024) + span / (1024 * 1024 * 1024) + 8

def rfLeaves (table : PageTable) : Nat :=
  (walk table).countP fun page => pteOwnedUserLeaf page.2

/-- What `sys_rfork` takes the copy to need. -/
def estimate (parent : PageTable) : Nat :=
  rfLeaves parent + rfLeaves parent / 256 + kernelMapTablePages board + 4

def slotBuffer (alloc : Allocator) (held pages : Nat) : Nat × Allocator :=
  if held = 0 then tryAllocPages board.pool alloc pages else (held, alloc)

def procSlotBuffers (alloc : Allocator) (slot : Slot) : Bool × Allocator × Slot :=
  let stack := slotBuffer board alloc slot.kstack stackPages
  if stack.1 = 0 then (false, stack.2, slot)
  else
    let inbox := slotBuffer board stack.2 slot.msgData msgPages
    if inbox.1 = 0 then (false, inbox.2, { slot with kstack := stack.1 })
    else (true, inbox.2, { slot with kstack := stack.1, msgData := inbox.1 })

def copyLeaf (build : Build) (vpn : Nat) (leaf : Leaf) : Option Build :=
  if pteOwnedUserLeaf leaf then
    (allocPages board.pool build.alloc 1).bind fun page =>
      mapPage board.pool { build with alloc := page.2 } vpn { leaf with paddr := page.1 }
  else mapPage board.pool build vpn { leaf with shared := true }

def copyLeaves (build : Build) : List (Nat × Leaf) → Option Build
  | [] => some build
  | (vpn, leaf) :: rest =>
    (copyLeaf board build vpn leaf).bind fun build => copyLeaves build rest

def userLeaves (table : PageTable) : List (Nat × Leaf) := (walk table).filter fun page => page.2.user

def copyTable (alloc : Allocator) (parent : PageTable) : Option Build :=
  ((allocPages board.pool alloc 1).map fun root => Build.mk root.2 emptyTable).bind fun build =>
    (mapPages board.pool build (kernelPages board)).bind fun build =>
      copyLeaves board build (userLeaves parent)

variable (kernel : Kernel)

def unusedSlot : Option Nat :=
  (List.range procsMax).find? fun slot => !(kernel.procs slot).used

/-- The flags of a call, `RFPROC` and `RFMEM`, and its out-pointer, 0 if it has none. -/
structure Flags where
  rfproc : Bool
  rfmem : Bool
  genOut : BitVec 64

variable (caller : Nat)

def genOutValid (genOut : BitVec 64) : Bool × Build :=
  let parent := kernel.procs caller
  if genOut = 0 then (true, ⟨kernel.alloc, parent.pageTable⟩)
  else
    userRangeValid board.pool parent.heap true ⟨kernel.alloc, parent.pageTable⟩ genOut.toNat 4
      true

def Kernel.checked (build : Build) : Kernel :=
  { kernel with
    alloc := build.alloc
    procs := Function.update kernel.procs caller
      { kernel.procs caller with pageTable := build.table } }

def Kernel.buffered (child : Nat) (alloc : Allocator) (slot : Slot) : Kernel :=
  { kernel with alloc := alloc, procs := Function.update kernel.procs child slot }

def Kernel.started (child : Nat) (alloc : Allocator) (table : PageTable) (parent : Slot) : Kernel :=
  { kernel with
    alloc := alloc
    procs := Function.update kernel.procs child
      { kernel.procs child with
        used := true, pageTable := table, heap := parent.heap, attachments := parent.attachments } }

/-- A call from the search for a slot on. -/
def startChild (rfmem : Bool) : Option (Kernel × Int) :=
  let parent := kernel.procs caller
  match unusedSlot kernel with
  | none => some (kernel, -1)
  | some child =>
    let (found, alloc, slot) := procSlotBuffers board kernel.alloc (kernel.procs child)
    let kernel := kernel.buffered child alloc slot
    if found = false then some (kernel, -1)
    else if rfmem then some (kernel.started child alloc parent.pageTable parent, child + 1)
    else if freePageCount board.pool alloc < estimate board parent.pageTable ∨
        kernel.segAttachFreeSlots < parent.attachments then
      some (kernel, -1)
    else
      (copyTable board alloc parent.pageTable).map fun build =>
        ({ kernel.started child build.alloc build.table parent with
            segAttachFreeSlots := kernel.segAttachFreeSlots - parent.attachments },
          child + 1)

def sysRfork (flags : Flags) : Option (Kernel × Int) :=
  if flags.rfproc = false then some (kernel, -1)
  else
    let (valid, build) := genOutValid board kernel caller flags.genOut
    let kernel := kernel.checked caller build
    if valid = false then some (kernel, -1) else startChild board kernel caller flags.rfmem

def tableNeed (parent : PageTable) : Nat :=
  1 + ((⟨∅, ∅⟩ : Tables).growth
      ((kernelPages board).map Prod.fst ++ (userLeaves parent).map Prod.fst) +
    rfLeaves parent)

def bufferPages (slot : Slot) : Nat :=
  (if slot.kstack = 0 then stackPages else 0) + (if slot.msgData = 0 then msgPages else 0)

/-- A call from `before` has started a child. -/
def Started (before : Kernel) (outcome : Option (Kernel × Int)) : Prop :=
  ∃ after, ∃ child : Nat, outcome = some (after, (child : Int) + 1) ∧
    (before.procs child).used = false ∧ (after.procs child).used = true

/-- A call from `before` has failed without a trace. -/
def Refused (before : Kernel) (outcome : Option (Kernel × Int)) : Prop :=
  ∃ after, outcome = some (after, -1) ∧
    freePageCount board.pool after.alloc = freePageCount board.pool before.alloc ∧
    ∀ slot, (after.procs slot).used = (before.procs slot).used

def neverPanics (flags : Flags) : Prop :=
  Refused board kernel (sysRfork board kernel caller flags) ∨
    Started kernel (sysRfork board kernel caller flags)

/-- When a call with room for the slot's buffers is in order: sharing memory needs no
more; a copy must fit if the estimate says it does, and be of no slot that has just been
given buffers if the estimate says it does not. -/
def copyFits (parent slot : Slot) : Prop :=
  let free := freePageCount board.pool kernel.alloc - bufferPages slot
  if free < estimate board parent.pageTable ∨ kernel.segAttachFreeSlots < parent.attachments then
    bufferPages slot = 0
  else tableNeed board parent.pageTable ≤ free

def startFits (rfmem : Bool) : Prop :=
  ∀ child ∈ unusedSlot kernel,
    let slot := kernel.procs child
    if (procSlotBuffers board kernel.alloc slot).1 then
      rfmem = false → copyFits board kernel (kernel.procs caller) slot
    else slot.kstack = 0 → (tryAllocPages board.pool kernel.alloc stackPages).1 = 0

/-- A slot is free and gets its buffers, and a copy passes the estimate and fits. -/
def startSucceeds (rfmem : Bool) : Prop :=
  ∃ child ∈ unusedSlot kernel,
    let slot := kernel.procs child
    let parent := kernel.procs caller
    let free := freePageCount board.pool kernel.alloc - bufferPages slot
    (procSlotBuffers board kernel.alloc slot).1 = true ∧
      (rfmem = false → estimate board parent.pageTable ≤ free ∧
        parent.attachments ≤ kernel.segAttachFreeSlots ∧ tableNeed board parent.pageTable ≤ free)

/-- The check of the out-pointer faults in nothing. -/
def checkFree (genOut : BitVec 64) : Prop :=
  genOut = 0 ∨
    CheckFree (freePageCount board.pool kernel.alloc) (kernel.procs caller).heap
      (kernel.procs caller).pageTable genOut.toNat 4

/-- A call whose check takes no page must be in order behind it; one whose check does must
not fail any more. -/
def forkFits (flags : Flags) : Prop :=
  let checked := genOutValid board kernel caller flags.genOut
  flags.rfproc = true →
    (checkFree board kernel caller flags.genOut →
      checked.1 = true → startFits board kernel caller flags.rfmem) ∧
    (¬ checkFree board kernel caller flags.genOut →
      checked.1 = true ∧ startSucceeds board (kernel.checked caller checked.2) caller flags.rfmem)

variable {board}

theorem copyLeaf_spends (build : Build) (vpn : Nat) (leaf : Leaf) :
    Spends (Build.left board.pool) build
      (build.table.tables.growth [vpn] + if pteOwnedUserLeaf leaf then 1 else 0)
      (fun after => after.table.tables = build.table.tables.cover vpn)
      (copyLeaf board build vpn leaf) := by
  unfold copyLeaf
  split
  · next owned =>
      have counted := allocPages_one board.pool build.alloc
      cases taken : allocPages board.pool build.alloc 1 with
      | none =>
        have empty := counted.1 taken
        exact ⟨fun _ => by simp [Build.left, empty], by simp⟩
      | some page =>
        have used := counted.2 page taken
        obtain ⟨fails, uses⟩ : Spends (Build.left board.pool) { build with alloc := page.2 } _ _
            (mapPage board.pool _ vpn { leaf with paddr := page.1 }) :=
          mapPage_spends { build with alloc := page.2 } vpn { leaf with paddr := page.1 }
        constructor
        · intro failed
          have short := fails failed
          simp only [Build.left] at short ⊢
          omega
        · intro after done
          obtain ⟨left, reached⟩ := uses after done
          simp only [Build.left] at left ⊢
          exact ⟨by omega, reached⟩
  · exact mapPage_spends build vpn _

theorem copyLeaves_spends (pages : List (Nat × Leaf)) (build : Build) :
    Spends (Build.left board.pool) build
      (build.table.tables.growth (pages.map Prod.fst) +
        pages.countP fun page => pteOwnedUserLeaf page.2)
      (fun _ => True) (copyLeaves board build pages) := by
  induction pages generalizing build with
  | nil =>
    rw [List.map_nil, Tables.growth, Tables.coverAll, List.foldl_nil, Nat.sub_self]
    exact Spends.nothing trivial
  | cons page rest ih =>
    obtain ⟨vpn, leaf⟩ := page
    have split : build.table.tables.growth (((vpn, leaf) :: rest).map Prod.fst) +
          ((vpn, leaf) :: rest).countP (fun page => pteOwnedUserLeaf page.2) =
        (build.table.tables.growth [vpn] + if pteOwnedUserLeaf leaf then 1 else 0) +
          ((build.table.tables.cover vpn).growth (rest.map Prod.fst) +
            rest.countP fun page => pteOwnedUserLeaf page.2) := by
      rw [List.map_cons, growth_cons, List.countP_cons]
      dsimp only
      omega
    rw [split]
    refine (copyLeaf_spends build vpn leaf).bind ?_
    intro middle reached
    have later := ih middle
    rw [reached] at later
    exact later

/-- Owned pages are user pages: the copying walk meets every one the counting walk
did. -/
theorem userLeaves_owned (table : PageTable) :
    ((userLeaves table).countP fun page => pteOwnedUserLeaf page.2) = rfLeaves table := by
  rw [userLeaves, List.countP_filter]
  refine List.countP_congr ?_
  intro page _
  simp only [pteOwnedUserLeaf, Bool.and_eq_true]
  exact ⟨fun both => both.1, fun owned => ⟨owned, owned.1⟩⟩

section
variable (alloc : Allocator)
include alloc

theorem copyTable_spends (parent : PageTable) :
    Spends (Build.left board.pool) ⟨alloc, emptyTable⟩ (tableNeed board parent) (fun _ => True)
      (copyTable board alloc parent) := by
  rw [tableNeed, growth_append, Nat.add_assoc]
  refine Spends.bind (alloc_spends ⟨alloc, emptyTable⟩ _
    (fun build => build.table = emptyTable) (fun _ => rfl) fun _ => rfl) ?_
  intro build fresh
  have identity : Spends (Build.left board.pool) build _ _
      (mapPages board.pool build (kernelPages board)) :=
    mapPages_spends (kernelPages board) build
  rw [fresh] at identity
  refine identity.bind ?_
  intro mapped reached
  have copied : Spends (Build.left board.pool) mapped _ _
      (copyLeaves board mapped (userLeaves parent)) :=
    copyLeaves_spends (userLeaves parent) mapped
  rw [reached, userLeaves_owned] at copied
  exact copied

theorem copyTable_none_iff (parent : PageTable) :
    copyTable board alloc parent = none ↔
      freePageCount board.pool alloc < tableNeed board parent :=
  (copyTable_spends alloc parent).none_iff

theorem slotBuffer_found (held pages : Nat) (found : (slotBuffer board alloc held pages).1 ≠ 0) :
    freePageCount board.pool (slotBuffer board alloc held pages).2 +
      (if held = 0 then pages else 0) = freePageCount board.pool alloc := by
  have counted := tryAllocPages_count board.pool alloc pages
  unfold slotBuffer at found ⊢
  split at found
  · rw [if_neg found] at counted
    simp only [↓reduceIte, *]
  · simp only [↓reduceIte, *, Nat.add_zero]

theorem slotBuffer_missed (held pages : Nat) (missed : (slotBuffer board alloc held pages).1 = 0) :
    freePageCount board.pool (slotBuffer board alloc held pages).2 =
        freePageCount board.pool alloc ∧
      held = 0 ∧ (tryAllocPages board.pool alloc pages).1 = 0 := by
  have counted := tryAllocPages_count board.pool alloc pages
  unfold slotBuffer at missed ⊢
  split at missed
  · next lacking =>
      rw [if_pos missed] at counted
      rw [if_pos lacking]
      exact ⟨counted, lacking, missed⟩
  · next present => exact absurd missed present

/-- Buffers in full take what the slot lacks of them. -/
theorem procSlotBuffers_found (slot : Slot) (found : (procSlotBuffers board alloc slot).1 = true) :
    freePageCount board.pool (procSlotBuffers board alloc slot).2.1 + bufferPages slot =
      freePageCount board.pool alloc := by
  by_cases stack : (slotBuffer board alloc slot.kstack stackPages).1 = 0
  · simp [procSlotBuffers, stack] at found
  · by_cases inbox : (slotBuffer board (slotBuffer board alloc slot.kstack stackPages).2
        slot.msgData msgPages).1 = 0
    · simp [procSlotBuffers, stack, inbox] at found
    · have first := slotBuffer_found alloc slot.kstack stackPages stack
      have second := slotBuffer_found _ slot.msgData msgPages inbox
      simp only [procSlotBuffers, stack, inbox, ↓reduceIte, bufferPages]
      omega

end

/-- Without a run for the stack nothing is taken; without one for the inbox the slot
keeps the stack. -/
theorem procSlotBuffers_missed (alloc : Allocator) (slot : Slot)
    (missed : (procSlotBuffers board alloc slot).1 = false) :
    freePageCount board.pool (procSlotBuffers board alloc slot).2.1 =
        freePageCount board.pool alloc ↔
      (slot.kstack = 0 → (tryAllocPages board.pool alloc stackPages).1 = 0) := by
  by_cases stack : (slotBuffer board alloc slot.kstack stackPages).1 = 0
  · obtain ⟨same, -, none⟩ := slotBuffer_missed alloc slot.kstack stackPages stack
    simp only [procSlotBuffers, stack]
    exact ⟨fun _ _ => none, fun _ => same⟩
  · by_cases inbox : (slotBuffer board (slotBuffer board alloc slot.kstack stackPages).2
        slot.msgData msgPages).1 = 0
    · have first := slotBuffer_found alloc slot.kstack stackPages stack
      have second := (slotBuffer_missed _ slot.msgData msgPages inbox).1
      have positive : 0 < stackPages := by decide
      simp only [procSlotBuffers, stack, inbox, ↓reduceIte, second]
      by_cases lacking : slot.kstack = 0
      · have found : (tryAllocPages board.pool alloc stackPages).1 ≠ 0 := by
          simpa [slotBuffer, lacking] using stack
        rw [if_pos lacking] at first
        constructor
        · omega
        · intro none
          exact absurd (none lacking) found
      · rw [if_neg lacking, Nat.add_zero] at first
        simp [first, lacking]
    · simp [procSlotBuffers, stack, inbox] at missed

variable (board) in
theorem procSlotBuffers_used (alloc : Allocator) (slot : Slot) :
    (procSlotBuffers board alloc slot).2.2.used = slot.used := by
  unfold procSlotBuffers
  dsimp only
  split
  · rfl
  · split <;> rfl

variable {kernel : Kernel} {caller child : Nat} {flags : Flags}

theorem unusedSlot_unused (claimed : unusedSlot kernel = some child) :
    (kernel.procs child).used = false := by
  simpa using List.find?_some claimed

section
variable (claimed : (kernel.procs child).used = false)
include claimed

theorem buffered_used (alloc : Allocator) (slot : Slot) (unused : slot.used = false) (other : Nat) :
    ((kernel.buffered child alloc slot).procs other).used = (kernel.procs other).used := by
  by_cases same : other = child
  · subst same
    simp [Kernel.buffered, claimed, unused]
  · simp [Kernel.buffered, same]

end

theorem slotBuffer_left_le (alloc : Allocator) (held pages : Nat) :
    freePageCount board.pool (slotBuffer board alloc held pages).2 ≤
      freePageCount board.pool alloc := by
  have counted := tryAllocPages_count board.pool alloc pages
  unfold slotBuffer
  split
  · omega
  · exact Nat.le_refl _

theorem procSlotBuffers_left_le (alloc : Allocator) (slot : Slot) :
    freePageCount board.pool (procSlotBuffers board alloc slot).2.1 ≤
      freePageCount board.pool alloc := by
  have stack := @slotBuffer_left_le board alloc slot.kstack stackPages
  have inbox := @slotBuffer_left_le board (slotBuffer board alloc slot.kstack stackPages).2
    slot.msgData msgPages
  unfold procSlotBuffers
  dsimp only
  split
  · exact stack
  · split <;> exact inbox.trans stack

variable (board) in
/-- What a call that starts nothing may have come to: a panic, or a refusal that has taken
something, unless it is in order. -/
structure Stopped (kernel : Kernel) (fits : Prop) (outcome : Option (Kernel × Int)) : Prop where
  panics : outcome = none → ¬ fits
  refuses : ∀ after result, outcome = some (after, result) → result = -1 ∧
    (∀ slot, (after.procs slot).used = (kernel.procs slot).used) ∧
    freePageCount board.pool after.alloc ≤ freePageCount board.pool kernel.alloc ∧
    (freePageCount board.pool after.alloc = freePageCount board.pool kernel.alloc ↔ fits)

theorem Stopped.at_once {fits : Prop} (holds : fits) :
    Stopped board kernel fits (some (kernel, -1)) := by
  refine ⟨by simp, fun after result same => ?_⟩
  cases same
  exact ⟨rfl, fun _ => rfl, Nat.le_refl _, iff_of_true rfl holds⟩

theorem Stopped.handed_back {fits : Prop} {alloc : Allocator} {slot : Slot}
    (unused : (kernel.procs child).used = false) (same : slot.used = (kernel.procs child).used)
    (less : freePageCount board.pool alloc ≤ freePageCount board.pool kernel.alloc)
    (kept : freePageCount board.pool alloc = freePageCount board.pool kernel.alloc ↔ fits) :
    Stopped board kernel fits (some (kernel.buffered child alloc slot, -1)) := by
  refine ⟨by simp, fun after result done => ?_⟩
  cases done
  exact ⟨rfl, buffered_used unused alloc slot (same.trans unused), less, kept⟩

/-- A copy, once the slot has its buffers. -/
theorem copy_outcome (claimed : unusedSlot kernel = some child)
    (found : (procSlotBuffers board kernel.alloc (kernel.procs child)).1 = true) :
    startSucceeds board kernel caller false ∧
        Started kernel (startChild board kernel caller false) ∨
      ¬ startSucceeds board kernel caller false ∧
        Stopped board kernel (copyFits board kernel (kernel.procs caller) (kernel.procs child))
          (startChild board kernel caller false) := by
  have unused := unusedSlot_unused claimed
  have counted := procSlotBuffers_found kernel.alloc (kernel.procs child) found
  have kept := procSlotBuffers_used board kernel.alloc (kernel.procs child)
  have succeeds : startSucceeds board kernel caller false ↔
      estimate board (kernel.procs caller).pageTable ≤
          freePageCount board.pool kernel.alloc - bufferPages (kernel.procs child) ∧
        (kernel.procs caller).attachments ≤ kernel.segAttachFreeSlots ∧
        tableNeed board (kernel.procs caller).pageTable ≤
          freePageCount board.pool kernel.alloc - bufferPages (kernel.procs child) := by
    simp [startSucceeds, claimed, found]
  rw [succeeds]
  obtain ⟨parts, buffers⟩ : ∃ parts,
      procSlotBuffers board kernel.alloc (kernel.procs child) = parts := ⟨_, rfl⟩
  obtain ⟨got, alloc, slot⟩ := parts
  rw [buffers] at counted kept found
  simp only at counted kept found
  subst found
  have left : freePageCount board.pool kernel.alloc - bufferPages (kernel.procs child) =
      freePageCount board.pool alloc := by omega
  unfold copyFits
  simp only [left]
  by_cases short : freePageCount board.pool alloc < estimate board (kernel.procs caller).pageTable ∨
      kernel.segAttachFreeSlots < (kernel.procs caller).attachments
  · have result : startChild board kernel caller false =
        some (kernel.buffered child alloc slot, -1) := by
      simp only [startChild, claimed, buffers, Kernel.buffered, short]
      simp
    rw [if_pos short, result]
    exact .inr ⟨by omega, Stopped.handed_back unused kept (by omega) (by omega)⟩
  · have dry : copyTable board alloc (kernel.procs caller).pageTable = none ↔
        freePageCount board.pool alloc < tableNeed board (kernel.procs caller).pageTable :=
      copyTable_none_iff alloc _
    rw [if_neg short]
    have forked : startChild board kernel caller false =
        (copyTable board alloc (kernel.procs caller).pageTable).map fun build =>
          ({ (kernel.buffered child alloc slot).started child build.alloc build.table
                (kernel.procs caller) with
              segAttachFreeSlots := kernel.segAttachFreeSlots -
                (kernel.procs caller).attachments },
            (child : Int) + 1) := by
      simp only [startChild, claimed, buffers, Kernel.buffered, short]
      simp
    cases copied : copyTable board alloc (kernel.procs caller).pageTable with
    | none =>
      rw [copied] at forked
      have lacking := dry.mp copied
      refine .inr ⟨by omega, ?_⟩
      rw [forked]
      exact ⟨fun _ => by omega, by simp⟩
    | some build =>
      rw [copied] at forked
      have enough : ¬ freePageCount board.pool alloc <
          tableNeed board (kernel.procs caller).pageTable := by
        rw [← dry, copied]
        simp
      refine .inl ⟨by omega, _, child, forked, unused, ?_⟩
      simp [Kernel.started]

/-- A call from the search for a slot on starts a child exactly when nothing is lacking, and
otherwise stops as what it takes to be in order says. -/
theorem startChild_outcome (board : Board) (kernel : Kernel) (caller : Nat) (rfmem : Bool) :
    startSucceeds board kernel caller rfmem ∧
        Started kernel (startChild board kernel caller rfmem) ∨
      ¬ startSucceeds board kernel caller rfmem ∧
        Stopped board kernel (startFits board kernel caller rfmem)
          (startChild board kernel caller rfmem) := by
  cases claimed : unusedSlot kernel with
  | none =>
    have result : startChild board kernel caller rfmem = some (kernel, -1) := by
      simp [startChild, claimed]
    refine .inr ⟨by simp [startSucceeds, claimed], ?_⟩
    rw [result]
    exact Stopped.at_once (by simp [startFits, claimed])
  | some child =>
    have unused := unusedSlot_unused claimed
    by_cases found : (procSlotBuffers board kernel.alloc (kernel.procs child)).1 = true
    · cases rfmem with
      | false =>
        have fits : startFits board kernel caller false ↔
            copyFits board kernel (kernel.procs caller) (kernel.procs child) := by
          simp [startFits, claimed, found]
        rw [fits]
        exact copy_outcome claimed found
      | true =>
        refine .inl ⟨by simp [startSucceeds, claimed, found], ?_⟩
        obtain ⟨parts, buffers⟩ : ∃ parts,
            procSlotBuffers board kernel.alloc (kernel.procs child) = parts := ⟨_, rfl⟩
        obtain ⟨got, alloc, slot⟩ := parts
        rw [buffers] at found
        subst found
        have result : startChild board kernel caller true =
            some ((kernel.buffered child alloc slot).started child alloc
              (kernel.procs caller).pageTable (kernel.procs caller), (child : Int) + 1) := by
          simp [startChild, claimed, buffers]
        exact ⟨_, child, result, unused, by simp [Kernel.started]⟩
    · have missed : (procSlotBuffers board kernel.alloc (kernel.procs child)).1 = false := by
        simpa using found
      have result : startChild board kernel caller rfmem = some (kernel.buffered child
          (procSlotBuffers board kernel.alloc (kernel.procs child)).2.1
          (procSlotBuffers board kernel.alloc (kernel.procs child)).2.2, -1) := by
        simp [startChild, claimed, missed]
      refine .inr ⟨by simp [startSucceeds, claimed, missed], ?_⟩
      rw [result]
      refine Stopped.handed_back unused (procSlotBuffers_used board _ _)
        (procSlotBuffers_left_le _ _) ?_
      rw [procSlotBuffers_missed _ _ missed]
      simp [startFits, claimed, missed]

theorem checked_used (build : Build) (slot : Nat) :
    ((kernel.checked caller build).procs slot).used = (kernel.procs slot).used := by
  by_cases same : slot = caller
  · subst same
    simp [Kernel.checked]
  · simp [Kernel.checked, same]

section
variable (board) (kernel caller) (genOut : BitVec 64)

theorem genOutValid_left_le :
    (genOutValid board kernel caller genOut).2.left board.pool ≤
      freePageCount board.pool kernel.alloc := by
  unfold genOutValid
  dsimp only
  split
  · exact Nat.le_refl _
  · exact UserRanges.userRangeValid_left_le genOut.isLt (by decide)

theorem genOutValid_kept_iff :
    (genOutValid board kernel caller genOut).2.left board.pool =
        freePageCount board.pool kernel.alloc ↔ checkFree board kernel caller genOut := by
  unfold genOutValid checkFree
  dsimp only
  split
  · next null => exact iff_of_true rfl (.inl null)
  · next given =>
      rw [or_iff_right given]
      exact UserRanges.userRangeValid_kept_iff genOut.isLt (by decide)

theorem genOutValid_idle (free : checkFree board kernel caller genOut)
    (valid : (genOutValid board kernel caller genOut).1 = true) :
    kernel.checked caller (genOutValid board kernel caller genOut).2 = kernel := by
  have same : (genOutValid board kernel caller genOut).2 =
      ⟨kernel.alloc, (kernel.procs caller).pageTable⟩ := by
    unfold genOutValid at valid ⊢
    dsimp only at valid ⊢
    split
    · rfl
    · next given =>
        rw [if_neg given] at valid
        exact UserRanges.userRangeValid_idle genOut.isLt (by decide) (free.resolve_left given) valid
  rw [same]
  simp [Kernel.checked]

end

theorem startChild_in_order (board : Board) (kernel : Kernel) (caller : Nat) (rfmem : Bool) :
    Refused board kernel (startChild board kernel caller rfmem) ∨
        Started kernel (startChild board kernel caller rfmem) ↔
      startFits board kernel caller rfmem := by
  rcases startChild_outcome board kernel caller rfmem with ⟨succeeds, started⟩ | ⟨-, stopped⟩
  · refine iff_of_true (.inr started) fun child claimed => ?_
    obtain ⟨other, same, found, room⟩ := succeeds
    obtain rfl := Option.mem_unique claimed same
    dsimp only
    rw [if_pos found]
    intro copies
    obtain ⟨enough, slots, fits⟩ := room copies
    unfold copyFits
    rw [if_neg (by omega)]
    exact fits
  · constructor
    · rintro (⟨after, done, kept, -⟩ | ⟨after, child, done, -⟩)
      · exact (stopped.refuses after (-1) done).2.2.2.mp kept
      · have refused := (stopped.refuses after _ done).1
        omega
    · intro fits
      cases done : startChild board kernel caller rfmem with
      | none => exact absurd fits (stopped.panics done)
      | some outcome =>
        obtain ⟨after, result⟩ := outcome
        obtain ⟨rfl, used, -, kept⟩ := stopped.refuses after result done
        exact .inl ⟨after, rfl, kept.mpr fits, used⟩

/-- A fork ends in -1 with nothing taken or in a child exactly when what it starts
fits. -/
theorem fork_safe_iff (board : Board) (kernel : Kernel) (caller : Nat) (flags : Flags) :
    neverPanics board kernel caller flags ↔ forkFits board kernel caller flags := by
  have less := genOutValid_left_le board kernel caller flags.genOut
  have kept := genOutValid_kept_iff board kernel caller flags.genOut
  have idle := genOutValid_idle board kernel caller flags.genOut
  unfold neverPanics forkFits
  cases rfproc : flags.rfproc with
  | false =>
    have result : sysRfork board kernel caller flags = some (kernel, -1) := by
      rw [sysRfork, if_pos rfproc]
    rw [result]
    exact iff_of_true (.inl ⟨kernel, rfl, rfl, fun _ => rfl⟩) (by simp)
  | true =>
    have result : sysRfork board kernel caller flags =
        if (genOutValid board kernel caller flags.genOut).1 = false then
          some (kernel.checked caller (genOutValid board kernel caller flags.genOut).2, -1)
        else startChild board
          (kernel.checked caller (genOutValid board kernel caller flags.genOut).2) caller
          flags.rfmem := by
      simp [sysRfork, rfproc]
    rw [result]
    simp only [true_implies]
    have used := @checked_used kernel caller (genOutValid board kernel caller flags.genOut).2
    cases valid : (genOutValid board kernel caller flags.genOut).1 with
    | false =>
      simp only [if_true, Bool.false_eq_true, false_implies, implies_true, false_and, true_and]
      rw [← kept, imp_false, not_not]
      constructor
      · rintro (⟨after, done, same, -⟩ | ⟨after, child, done, -⟩)
        · cases done
          exact same
        · have refused := congrArg Prod.snd (Option.some.inj done)
          simp only at refused
          omega
      · intro same
        exact .inl ⟨_, rfl, same, used⟩
    | true =>
      simp only [Bool.true_eq_false, if_false, true_implies, true_and]
      by_cases free : checkFree board kernel caller flags.genOut
      · simp only [free, true_implies, not_true_eq_false, false_implies, and_true]
        rw [idle free valid]
        exact startChild_in_order board kernel caller flags.rfmem
      · simp only [free, false_implies, not_false_eq_true, true_implies, true_and]
        have taken := mt kept.mp free
        generalize (genOutValid board kernel caller flags.genOut).2 = build at *
        rcases startChild_outcome board (kernel.checked caller build) caller flags.rfmem with
          ⟨succeeds, after, child, done, unused, now⟩ | ⟨fails, stopped⟩
        · refine iff_of_true (.inr ⟨after, child, done, ?_, now⟩) succeeds
          rwa [← used child]
        · refine iff_of_false ?_ fails
          rintro (⟨after, done, same, -⟩ | ⟨after, child, done, -⟩)
          · have fewer := (stopped.refuses after (-1) done).2.2.1
            change freePageCount board.pool after.alloc ≤ build.left board.pool at fewer
            omega
          · have refused := (stopped.refuses after _ done).1
            omega

theorem rfLeaves_card (table : PageTable) :
    rfLeaves table = ((Finset.range (entries * entries * entries)).filter fun vpn =>
      ((found table vpn).map pteOwnedUserLeaf).getD false = true).card := by
  have sameTest : (fun vpn => (((found table vpn).map ((vpn, ·) : Leaf → Nat × Leaf)).map
        fun page => pteOwnedUserLeaf page.2).getD false) =
      fun vpn => decide (((found table vpn).map pteOwnedUserLeaf).getD false = true) := by
    funext vpn
    cases found table vpn <;> simp
  rw [rfLeaves, walk_eq, List.countP_filterMap, sameTest, List.countP_eq_length_filter]
  rfl

def duo : Board :=
  { pool := ⟨0x80300000, 0x83F40000, by decide⟩
    kernelMapBase := 0x80200000
    plicBase := 0x70000000
    plicPhysBase := 0x70000000
    plicCtx := 1
    consoleMmioPage := 0
    consoleMmioPhys := 0 }

def sparsePage (vpn : Nat) : Prop := 0x1000 ≤ vpn ∧ vpn < 0x1E00 ∧ vpn % 512 = 0

instance (vpn : Nat) : Decidable (sparsePage vpn) := inferInstanceAs (Decidable (_ ∧ _ ∧ _))

def sparseLeaf (vpn : Nat) : Leaf := ⟨0x81000000 + vpn * pageSize, 0b111, true, false⟩

/-- A one-page image and a heap that has been touched once every 2 MiB. -/
def sparse : PageTable :=
  { tables := ⟨{0, 1, 2}, Finset.Ico 8 15 ∪ {0x380, 0x381} ∪ Finset.Ico 0x401 0x420⟩
    leaves := fun vpn =>
      if sparsePage vpn then some (sparseLeaf vpn)
      else if 0x80200 ≤ vpn ∧ vpn < 0x83F40 then some ⟨vpn * pageSize, 0b111, false, false⟩
      else if vpn = 0x70000 ∨ vpn = 0x70002 ∨ vpn = 0x70201 then
        some ⟨vpn * pageSize, 0b011, false, false⟩
      else none }

/-- Every slot has had a process; fifty pages are left. -/
def starved : Kernel :=
  { alloc := ⟨Bitmap.insertRange (fun _ => 0) 0 15374, 0⟩
    procs := fun slot =>
      ⟨slot = 0, 0x80300000 + slot * 0x12000, 0x80310000 + slot * 0x12000, sparse,
        ⟨0x1001000, 0x1E00000⟩, 0⟩
    segAttachFreeSlots := 64 }

theorem sparse_found {vpn : Nat} (page : sparsePage vpn) :
    found sparse vpn = some (sparseLeaf vpn) := by
  have middle : middleOf vpn = 0 := by
    simp only [sparsePage, middleOf, entries] at *
    omega
  have leafTable : 8 ≤ leafTableOf vpn ∧ leafTableOf vpn < 15 := by
    simp only [sparsePage, leafTableOf, entries] at *
    omega
  simp [found, sparse, middle, leafTable, page]

theorem sparse_owned (vpn : Nat) :
    ((found sparse vpn).map pteOwnedUserLeaf).getD false = true ↔ sparsePage vpn := by
  by_cases page : sparsePage vpn
  · simp [sparse_found page, page, sparseLeaf, pteOwnedUserLeaf]
  · refine iff_of_false ?_ page
    unfold found
    split
    · simp only [sparse, page, ↓reduceIte]
      split
      · simp [pteOwnedUserLeaf]
      · split <;> simp [pteOwnedUserLeaf]
    · simp

theorem sparse_leaves : rfLeaves sparse = 7 := by
  have owned : ((Finset.range (entries * entries * entries)).filter fun vpn =>
      ((found sparse vpn).map pteOwnedUserLeaf).getD false = true) =
      (Finset.range 7).image fun k => 0x1000 + k * 512 := by
    ext vpn
    rw [Finset.mem_filter, sparse_owned, Finset.mem_image]
    simp only [Finset.mem_range, sparsePage, entries]
    constructor
    · rintro ⟨-, page⟩
      exact ⟨(vpn - 0x1000) / 512, by omega, by omega⟩
    · omega
  rw [rfLeaves_card, owned]
  decide

/-- One page for each leaf table the child cannot do without. -/
def spread : List Nat :=
  (List.range 31).map (fun k => 0x80200 + k * 512) ++ [0x70000, 0x70201] ++
    (List.range 7).map fun k => 0x1000 + k * 512

theorem identityMap_mem {k : Nat} (inside : k < 15680) :
    0x80200 + k ∈ (identityMap duo).map Prod.fst := by
  simp only [identityMap, List.map_map, List.mem_map, List.mem_range]
  refine ⟨k, inside, ?_⟩
  simp only [Function.comp_apply, vpnOf, duo, pageSize, entries]
  omega

theorem spread_mapped (vpn : Nat) (listed : vpn ∈ spread) :
    vpn ∈ (kernelPages duo).map Prod.fst ++ (userLeaves sparse).map Prod.fst := by
  simp only [spread, List.mem_append, List.mem_map, List.mem_range] at listed
  simp only [kernelPages, List.map_append, List.mem_append]
  rcases listed with (⟨k, inside, rfl⟩ | plic) | ⟨k, inside, rfl⟩
  · exact .inl (.inl (.inl (identityMap_mem (by omega))))
  · have pages : (mapPlic duo).map Prod.fst = [0x70000, 0x70002, 0x70201] := by decide
    rw [pages]
    simp only [List.mem_cons, List.not_mem_nil, or_false] at plic ⊢
    omega
  · refine .inr (List.mem_map.mpr ⟨(0x1000 + k * 512, sparseLeaf (0x1000 + k * 512)), ?_, rfl⟩)
    have page : sparsePage (0x1000 + k * 512) := by
      unfold sparsePage
      omega
    rw [userLeaves, List.mem_filter, mem_walk, sparse_found page]
    refine ⟨⟨?_, rfl⟩, rfl⟩
    unfold entries
    omega

theorem sparse_need : 51 ≤ tableNeed duo sparse := by
  have tables := growth_mono ⟨∅, ∅⟩ spread_mapped
  have counted : (⟨∅, ∅⟩ : Tables).growth spread = 43 := by decide
  rw [tableNeed, sparse_leaves]
  omega

theorem starved_free : freePageCount duo.pool starved.alloc = 50 := by
  have taken (page : Nat) : bitIsSet starved.alloc page = decide (page < 15374) := by
    have clear : Bitmap.test (fun _ => (0 : BitVec bitsPerWord)) page = false := by
      simp [Bitmap.test]
    rw [bitIsSet, starved, Bitmap.test_insertRange bits_positive, clear]
    simp
  have free : ((Finset.range duo.pool.ramPageCount).filter fun page =>
      bitIsSet starved.alloc page = false) = Finset.Ico 15374 15424 := by
    have pages : duo.pool.ramPageCount = 15424 := by decide
    ext page
    simp only [Finset.mem_filter, Finset.mem_range, Finset.mem_Ico, taken,
      decide_eq_false_iff_not]
    omega
  rw [freePageCount_card, free, Nat.card_Ico]

/-- The estimate lets the copy start and the pool runs dry in `map_page`. -/
theorem sparse_fork_panics :
    estimate duo sparse = 49 ∧ freePageCount duo.pool starved.alloc = 50 ∧
      sysRfork duo starved 0 ⟨true, false, 0⟩ = none ∧
      ¬ neverPanics duo starved 0 ⟨true, false, 0⟩ := by
  have need : estimate duo sparse = 49 := by
    rw [estimate, sparse_leaves]
    decide
  have dry : copyTable duo starved.alloc sparse = none := by
    have := sparse_need
    rw [copyTable_none_iff, starved_free]
    omega
  have claimed : unusedSlot starved = some 1 := by decide
  have buffers : procSlotBuffers duo starved.alloc (starved.procs 1) =
      (true, starved.alloc, starved.procs 1) := by rfl
  have unchecked : starved.checked 0 ⟨starved.alloc, sparse⟩ = starved := by
    simp [Kernel.checked, starved]
  have panics : sysRfork duo starved 0 ⟨true, false, 0⟩ = none := by
    have parent : (starved.procs 0).pageTable = sparse := rfl
    have attached : ¬ starved.segAttachFreeSlots < (starved.procs 0).attachments := by decide
    simp [sysRfork, genOutValid, unchecked, startChild, claimed, buffers, parent, need,
      starved_free, dry, Kernel.buffered, attached]
  refine ⟨need, starved_free, panics, ?_⟩
  unfold neverPanics
  rw [panics]
  simp [Refused, Started]

end Racccoon.Fork
