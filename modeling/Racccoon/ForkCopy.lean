import Racccoon.AddressSpace.Lifetime
import Racccoon.Exec.Staging
import Racccoon.Fork

/-!
`sys_rfork` with the bytes of the pages it copies and the segments it passes on
(`src/syscalls.c3`, `src/segment.c3`). An address space is named by the address of its root
table. The bytes of page tables are whatever the entries come to: `entryBytes` stands for
them. `tables` and `copies` list the pages a copy has taken and are not in the source.
-/

namespace Racccoon.ForkCopy
open Function (update update_self update_of_ne)

open Paging Census
open PageAllocator (Allocator Pool bitIsSet freePageCount pageSize)
open Exec (Machine Memory Segment Stages copied pageBase)
open AddressSpace (SegAttach segAttachMax)
open Fork (Board estimate kernelPages userLeaves)

/-- A copy under construction: its page table, the pages taken for tables, and the page
taken for each leaf the parent owns. -/
structure Copy where
  machine : Machine
  table : PageTable
  tables : List Nat
  copies : List (Nat × Nat)

def Copy.taken (copy : Copy) : List Nat := copy.tables ++ copy.copies.map Prod.snd

def newPages (pool : Pool) (before after : Allocator) : List Nat :=
  ((List.range pool.ramPageCount).filter fun index =>
    !bitIsSet before index && bitIsSet after index).map (pageBase pool)

def scribbled (bytes : Memory) (pages : List Nat) (memory : Memory) : Memory := fun addr =>
  if pages.any fun page => decide (page ≤ addr) && decide (addr < page + pageSize) then bytes addr
  else memory addr

def grownTo (pool : Pool) (bytes : Memory) (machine : Machine) (after : Allocator) : Machine :=
  { machine with
    alloc := after
    memory := scribbled bytes (newPages pool machine.alloc after) machine.memory }

section Copying
variable (board : Board) (entryBytes : Memory)

def mapIn (copy : Copy) (vpn : Nat) (leaf : Leaf) : Option Copy :=
  (mapPage board.pool ⟨copy.machine.alloc, copy.table⟩ vpn leaf).map fun build =>
    { copy with
      machine := grownTo board.pool entryBytes copy.machine build.alloc
      table := build.table
      tables := newPages board.pool copy.machine.alloc build.alloc ++ copy.tables }

def mapAllIn (copy : Copy) : List (Nat × Leaf) → Option Copy
  | [] => some copy
  | (vpn, leaf) :: rest =>
    (mapIn board entryBytes copy vpn leaf).bind fun copy => mapAllIn copy rest

/-- A page of the child's own with the parent's bytes. -/
def takeCopy (copy : Copy) (vpn paddr : Nat) : Option (Nat × Copy) :=
  let page := copy.machine.tryAlloc board.pool
  if page.1 = 0 then none
  else some (page.1, { copy with
    machine := { page.2 with
      memory := copied page.2.memory page.1 (fun i => page.2.memory (paddr + i)) pageSize }
    copies := (vpn, page.1) :: copy.copies })

def copyLeaf (copy : Copy) (vpn : Nat) (leaf : Leaf) : Option Copy :=
  if pteOwnedUserLeaf leaf then
    (takeCopy board copy vpn leaf.paddr).bind fun (page, copy) =>
      mapIn board entryBytes copy vpn { leaf with paddr := page }
  else mapIn board entryBytes copy vpn { leaf with shared := true }

def copyLeaves (copy : Copy) : List (Nat × Leaf) → Option Copy
  | [] => some copy
  | (vpn, leaf) :: rest =>
    (copyLeaf board entryBytes copy vpn leaf).bind fun copy => copyLeaves copy rest

def takeRoot (machine : Machine) : Option (Nat × Copy) :=
  let page := machine.tryAlloc board.pool
  if page.1 = 0 then none
  else some (page.1, ⟨{ page.2 with memory := scribbled entryBytes [page.1] page.2.memory },
    emptyTable, [page.1], []⟩)

def copyTable (machine : Machine) (parent : PageTable) : Option (Nat × Copy) :=
  (takeRoot board entryBytes machine).bind fun (root, copy) =>
    (mapAllIn board entryBytes copy (kernelPages board)).bind fun copy =>
      (copyLeaves board entryBytes copy (userLeaves parent)).map fun copy => (root, copy)

end Copying

structure Segments where
  segments : Nat → Segment
  attachments : Nat → SegAttach

variable (attachments : Nat → SegAttach)

def attached (table index : Nat) : Bool :=
  (attachments index).used && (attachments index).table == table

def segAttachFreeSlots : Nat :=
  (List.range segAttachMax).countP fun index => !(attachments index).used

def segAttachmentsOf (table : Nat) : Nat :=
  (List.range segAttachMax).countP (attached attachments table)

/-- One more attachment in the first free slot, and its reference. -/
def addAttachment (segs : Segments) (si table vaddr : Nat) : Segments :=
  match (List.range segAttachMax).find? fun index => !(segs.attachments index).used with
  | some index =>
    { segments := Function.update segs.segments si
        { segs.segments si with refs := (segs.segments si).refs + 1 }
      attachments := Function.update segs.attachments index ⟨true, si, table, vaddr⟩ }
  | none => segs

def dupAttachment (parent child : Nat) (segs : Segments) (index : Nat) : Segments :=
  let attach := segs.attachments index
  if attached segs.attachments parent index then addAttachment segs attach.seg child attach.vaddr
  else segs

def segDupAttachments (segs : Segments) (parent child : Nat) : Segments :=
  (List.range segAttachMax).foldl (dupAttachment parent child) segs

structure Proc where
  used : Bool
  kstack : Nat
  msgData : Nat
  root : Nat

structure World where
  machine : Machine
  procs : Nat → Proc
  tables : Nat → PageTable
  segs : Segments

def unusedSlot (world : World) : Option Nat :=
  (List.range Fork.procsMax).find? fun slot => !(world.procs slot).used

section Call
variable (board : Board) (entryBytes : Memory)

/-- `proc_slot_buffers`; pages fresh from the allocator are zero. -/
def slotBuffers (machine : Machine) (proc : Proc) : Bool × Machine × Proc :=
  let got := Fork.procSlotBuffers board machine.alloc
    ⟨proc.used, proc.kstack, proc.msgData, emptyTable, ⟨0, 0⟩, 0⟩
  (got.1, grownTo board.pool (fun _ => 0) machine got.2.1,
    { proc with kstack := got.2.2.kstack, msgData := got.2.2.msgData })

def World.started (world : World) (child root : Nat) : World :=
  { world with
    procs := Function.update world.procs child
      { world.procs child with used := true, root := root } }

/-- The part of a call behind the checks of the slot, when memory is not shared. -/
def forkCopy (world : World) (parent child : Nat) : Option (World × Int) :=
  if freePageCount board.pool world.machine.alloc < estimate board (world.tables parent) ∨
      segAttachFreeSlots world.segs.attachments <
        segAttachmentsOf world.segs.attachments parent then
    some (world, -1)
  else
    (copyTable board entryBytes world.machine (world.tables parent)).map fun (root, copy) =>
      ({ world.started child root with
          machine := copy.machine
          tables := Function.update world.tables root copy.table
          segs := segDupAttachments world.segs parent root },
        (child : Int) + 1)

/-- `RFPROC`, `RFMEM`, and what `user_range_valid` has said of the out-pointer, or that it is
null. -/
structure Flags where
  rfproc : Bool
  rfmem : Bool
  genOutValid : Bool

/-- A call from the world that the check of the out-pointer leaves, the pages it has faulted in
being the parent's already, to the generation that is written through the pointer, which is left
out. -/
def sysRfork (world : World) (caller : Nat) (flags : Flags) : Option (World × Int) :=
  if flags.rfproc = false ∨ flags.genOutValid = false then some (world, -1)
  else
    match unusedSlot world with
    | none => some (world, -1)
    | some child =>
      let (found, machine, proc) := slotBuffers board world.machine (world.procs child)
      let buffered : World :=
        { world with machine := machine, procs := Function.update world.procs child proc }
      if found = false then some (buffered, -1)
      else if flags.rfmem then
        some (buffered.started child (world.procs caller).root, (child : Int) + 1)
      else forkCopy board entryBytes buffered (world.procs caller).root child

end Call

variable {vpn : Nat}
variable {leaf : Leaf}
variable {machine mid : Machine}

section Pages
variable {pool : Pool} {before after later : Allocator}

structure Grows (pool : Pool) (before after : Allocator) : Prop where
  kept : ∀ index, bitIsSet before index = true → bitIsSet after index = true
  inside : ∀ index, pool.ramPageCount ≤ index → bitIsSet after index = bitIsSet before index

theorem Grows.refl (pool : Pool) (alloc : Allocator) : Grows pool alloc alloc :=
  ⟨fun _ set => set, fun _ _ => rfl⟩

theorem Grows.trans (first : Grows pool before after) (second : Grows pool after later) :
    Grows pool before later :=
  ⟨fun index set => second.kept index (first.kept index set), fun index outside =>
    (second.inside index outside).trans (first.inside index outside)⟩

theorem tryAllocPages_grows (pool : Pool) (alloc : Allocator) (n : Nat) :
    Grows pool alloc (PageAllocator.tryAllocPages pool alloc n).2 := by
  rcases PageAllocator.tryAllocPages_claims pool alloc n with ⟨-, same⟩ | claimed
  · exact ⟨fun index set => (same index).trans set, fun index _ => same index⟩
  · obtain ⟨first, -, fits, -, -, set⟩ := claimed.run
    refine ⟨fun index before => ?_, fun index outside => ?_⟩
    · rw [set, before, Bool.or_true]
    · have away : ¬ (first ≤ index ∧ index < first + n) := by omega
      rw [set, decide_eq_false away, Bool.false_or]

theorem allocPages_grows {alloc : Allocator} {n : Nat} {page : Nat × Allocator}
    (done : PageAllocator.allocPages pool alloc n = some page) : Grows pool alloc page.2 := by
  unfold PageAllocator.allocPages at done
  dsimp only at done
  split at done
  · cases done
  · cases done
    exact tryAllocPages_grows pool alloc n

theorem mapPage_grows {build after : Build} (done : mapPage pool build vpn leaf = some after) :
    Grows pool build.alloc after.alloc := by
  obtain ⟨walked, walk, rfl⟩ := Option.map_eq_some_iff.mp done
  obtain ⟨middle, first, second⟩ := Option.bind_eq_some_iff.mp walk
  refine @Grows.trans _ _ middle.alloc _ ?_ ?_
  · unfold addMiddle at first
    split at first
    · cases first
      exact .refl _ _
    · obtain ⟨page, taken, rfl⟩ := Option.map_eq_some_iff.mp first
      exact allocPages_grows taken
  · unfold addLeafTable at second
    split at second
    · cases second
      exact .refl _ _
    · obtain ⟨page, taken, rfl⟩ := Option.map_eq_some_iff.mp second
      exact allocPages_grows taken

theorem mem_newPages {page : Nat} : page ∈ newPages pool before after ↔
    ∃ index, index < pool.ramPageCount ∧ bitIsSet before index = false ∧
      bitIsSet after index = true ∧ page = pageBase pool index := by
  simp only [newPages, List.mem_map, List.mem_filter, List.mem_range, Bool.and_eq_true,
    Bool.not_eq_true']
  constructor
  · rintro ⟨index, ⟨inside, clear, set⟩, rfl⟩
    exact ⟨index, inside, clear, set, rfl⟩
  · rintro ⟨index, inside, clear, set, rfl⟩
    exact ⟨index, ⟨inside, clear, set⟩, rfl⟩

theorem grownTo_stages (grows : Grows pool machine.alloc after) (bytes : Memory) :
    Stages pool machine (grownTo pool bytes machine after) (newPages pool machine.alloc after) := by
  have apart : ∀ addr, (∀ page ∈ newPages pool machine.alloc after,
      ¬ (page ≤ addr ∧ addr < page + pageSize)) →
      (grownTo pool bytes machine after).memory addr = machine.memory addr := by
    intro addr outside
    refine if_neg fun within => ?_
    obtain ⟨page, member, here⟩ := List.any_eq_true.mp within
    exact outside page member (by simpa using here)
  refine ⟨⟨?_, ?_, ?_, ?_⟩, apart, rfl⟩
  · exact (List.nodup_range.filter _).map fun _ _ same => Exec.pageBase_inj same
  · intro page member
    obtain ⟨index, inside, clear, -, rfl⟩ := mem_newPages.mp member
    exact ⟨index, inside, rfl, clear⟩
  · intro index
    have listed : pageBase pool index ∈ newPages pool machine.alloc after ↔
        index < pool.ramPageCount ∧ bitIsSet machine.alloc index = false ∧
          bitIsSet after index = true := by
      rw [mem_newPages]
      constructor
      · rintro ⟨other, inside, clear, set, same⟩
        rw [Exec.pageBase_inj same]
        exact ⟨inside, clear, set⟩
      · rintro ⟨inside, clear, set⟩
        exact ⟨index, inside, clear, set, rfl⟩
    change bitIsSet after index = _
    cases was : bitIsSet machine.alloc index with
    | true => rw [grows.kept index was, Bool.true_or]
    | false =>
      rw [Bool.false_or]
      by_cases inside : index < pool.ramPageCount
      · cases now : bitIsSet after index with
        | true => rw [decide_eq_true (listed.mpr ⟨inside, was, now⟩)]
        | false =>
          rw [decide_eq_false fun member => ?_]
          rw [(listed.mp member).2.2] at now
          cases now
      · rw [grows.inside index (by omega), was, decide_eq_false fun member => ?_]
        exact inside (listed.mp member).1
  · intro addr used
    refine apart addr fun page member within => ?_
    obtain ⟨index, -, clear, -, rfl⟩ := mem_newPages.mp member
    have set := used index within
    rw [clear] at set
    cases set

theorem Stages.trans {first second third : Machine} {pages more : List Nat}
    (begins : Stages pool first second pages) (goes : Stages pool second third more) :
    Stages pool first third (more ++ pages) := by
  have free : ∀ index, bitIsSet second.alloc index = false → bitIsSet first.alloc index = false ∧
      pageBase pool index ∉ pages := by
    intro index clear
    have bits := begins.bits index
    rw [clear] at bits
    obtain ⟨was, outside⟩ := Bool.or_eq_false_iff.mp bits.symm
    exact ⟨was, by simpa using outside⟩
  refine ⟨⟨?_, ?_, ?_, ?_⟩, ?_, goes.log.trans begins.log⟩
  · refine List.Nodup.append goes.nodup begins.nodup ?_
    intro page new old
    obtain ⟨index, -, rfl, clear⟩ := goes.fresh page new
    exact (free index clear).2 old
  · intro page member
    rcases List.mem_append.mp member with new | old
    · obtain ⟨index, inside, rfl, clear⟩ := goes.fresh page new
      exact ⟨index, inside, rfl, (free index clear).1⟩
    · exact begins.fresh page old
  · intro index
    rw [goes.bits, begins.bits, Bool.or_assoc, ← Bool.decide_or]
    simp only [List.mem_append, or_comm]
  · intro addr used
    have kept := begins.kept addr used
    refine (goes.kept addr fun index within => ?_).trans kept
    rw [begins.bits, used index within, Bool.true_or]
  · intro addr outside
    have later := goes.apart addr fun page member => outside page (List.mem_append_left _ member)
    exact later.trans
      (begins.apart addr fun page member => outside page (List.mem_append_right _ member))

theorem Stages.untouched {pages : List Nat} (stages : Stages pool mid machine pages) {addr : Nat}
    (used : ∀ index, index < pool.ramPageCount → Exec.InPage pool index addr →
      bitIsSet mid.alloc index = true) : machine.memory addr = mid.memory addr := by
  refine stages.apart addr fun page member within => ?_
  obtain ⟨index, inside, rfl, clear⟩ := stages.fresh page member
  rw [used index inside within] at clear
  cases clear

end Pages

section Leaves
variable {board : Board} {entryBytes : Memory} {mid : Machine} {copy after : Copy}

structure Advances (pool : Pool) (copy after : Copy) (vpn : Nat) : Prop where
  pages : ∃ new, Stages pool copy.machine after.machine new ∧ after.taken.Perm (new ++ copy.taken)
  copies : ∀ entry ∈ copy.copies, entry ∈ after.copies
  found : ∀ other leaf, other ≠ vpn → found copy.table other = some leaf →
    Paging.found after.table other = some leaf
  leaves : ∀ other, other ≠ vpn → after.table.leaves other = copy.table.leaves other

theorem mapIn_advances (done : mapIn board entryBytes copy vpn leaf = some after) :
    Advances board.pool copy after vpn ∧ found after.table vpn = some leaf ∧
      after.table.leaves vpn = some leaf ∧ after.copies = copy.copies := by
  obtain ⟨build, mapped, rfl⟩ := Option.map_eq_some_iff.mp done
  have tables : build.table.tables = copy.table.tables.cover vpn :=
    ((mapPage_spends ⟨copy.machine.alloc, copy.table⟩ vpn leaf).uses build mapped).2
  have leaves : build.table.leaves = update copy.table.leaves vpn (some leaf) :=
    mapPage_leaves mapped
  have grows : Grows board.pool copy.machine.alloc build.alloc := mapPage_grows mapped
  refine ⟨⟨⟨_, grownTo_stages grows entryBytes, ?_⟩, fun _ member => member, ?_, ?_⟩, ?_, ?_, rfl⟩
  · simp only [Copy.taken, List.append_assoc, List.Perm.refl]
  · intro other there different present
    unfold Paging.found at present ⊢
    split at present
    · next tablesThere =>
        simp only [tables, Tables.cover, Finset.mem_insert, tablesThere, or_true, leaves, update_of_ne different]
        exact present
    · cases present
  · intro other different
    simp only [leaves, update_of_ne different]
  · simp only [Paging.found, tables, Tables.cover, Finset.mem_insert, true_or, and_self, if_true,
      leaves, update_self]
  · simp only [leaves, update_self]

/-- The child's leaf for one of the parent's: a page of its own with the same bytes, or
the same page marked as not its own. -/
def IsCopy (mid : Machine) (copy : Copy) (vpn : Nat) (leaf : Leaf) : Prop :=
  if pteOwnedUserLeaf leaf then
    ∃ page, (vpn, page) ∈ copy.copies ∧
      found copy.table vpn = some { leaf with paddr := page } ∧
      ∀ i, i < pageSize → copy.machine.memory (page + i) = mid.memory (leaf.paddr + i)
  else found copy.table vpn = some { leaf with shared := true }

theorem IsCopy.advance {other : Nat} (done : IsCopy mid copy other leaf)
    (stages : Stages board.pool mid copy.machine copy.taken)
    (advances : Advances board.pool copy after vpn) (different : other ≠ vpn) :
    IsCopy mid after other leaf := by
  unfold IsCopy at done ⊢
  split
  · next owned =>
      rw [if_pos owned] at done
      obtain ⟨page, listed, present, bytes⟩ := done
      obtain ⟨new, goes, -⟩ := advances.pages
      have member : page ∈ copy.taken :=
        List.mem_append_right _ (List.mem_map.mpr ⟨_, listed, rfl⟩)
      refine ⟨page, advances.copies _ listed, advances.found other _ different present, ?_⟩
      intro i within
      rw [goes.kept _ (stages.used member (by omega) (by omega))]
      exact bytes i within
  · next shared =>
      rw [if_neg shared] at done
      exact advances.found other _ different done

theorem Advances.stages (advances : Advances board.pool copy after vpn)
    (stages : Stages board.pool mid copy.machine copy.taken) :
    Stages board.pool mid after.machine after.taken := by
  obtain ⟨new, goes, perm⟩ := advances.pages
  exact (Stages.trans stages goes).perm perm

/-- The copy so far: the parent's leaves that are done, and nothing else of the user's. -/
structure Copying (pool : Pool) (mid : Machine) (done : List (Nat × Leaf)) (copy : Copy) :
    Prop where
  stages : Stages pool mid copy.machine copy.taken
  copied : ∀ entry ∈ done, IsCopy mid copy entry.1 entry.2
  rest : ∀ vpn leaf, (∀ entry ∈ done, entry.1 ≠ vpn) → copy.table.leaves vpn = some leaf →
    leaf.user = false

def InUse (pool : Pool) (machine : Machine) (leaf : Leaf) : Prop :=
  ∀ i, i < pageSize → ∀ index, index < pool.ramPageCount →
    Exec.InPage pool index (leaf.paddr + i) → bitIsSet machine.alloc index = true

theorem takeCopy_advances {paddr page : Nat}
    (done : takeCopy board copy vpn paddr = some (page, after)) :
    Advances board.pool copy after vpn ∧ (vpn, page) ∈ after.copies ∧
      ∀ i, i < pageSize →
        after.machine.memory (page + i) =
          (copy.machine.tryAlloc board.pool).2.memory (paddr + i) := by
  unfold takeCopy at done
  dsimp only at done
  split at done
  · cases done
  · next found =>
      cases done
      have taken := (Stages.start board.pool copy.machine).take found
      have written := taken.write (List.mem_singleton_self _) (Nat.le_refl _) (Nat.le_refl _)
        fun i => (copy.machine.tryAlloc board.pool).2.memory (paddr + i)
      refine ⟨⟨⟨_, written, ?_⟩, fun _ member => List.mem_cons_of_mem _ member,
        fun _ _ _ present => present, fun _ _ => rfl⟩, List.mem_cons_self, ?_⟩
      · exact List.perm_middle
      · intro i within
        simp only [copied]
        rw [if_pos (by omega), Nat.add_sub_cancel_left]

theorem takeCopy_found {paddr : Nat} {result : Nat × Copy}
    (done : takeCopy board copy vpn paddr = some result) :
    (copy.machine.tryAlloc board.pool).1 ≠ 0 := by
  intro missed
  simp [takeCopy, missed] at done

theorem copyLeaf_copying {done : List (Nat × Leaf)} (copying : Copying board.pool mid done copy)
    (used : pteOwnedUserLeaf leaf = true →
      InUse board.pool mid leaf) (new : ∀ entry ∈ done, entry.1 ≠ vpn)
    (copies : copyLeaf board entryBytes copy vpn leaf = some after) :
    Copying board.pool mid ((vpn, leaf) :: done) after := by
  unfold copyLeaf at copies
  by_cases owned : pteOwnedUserLeaf leaf = true
  · rw [if_pos owned] at copies
    obtain ⟨⟨page, middle⟩, taken, mapped⟩ := Option.bind_eq_some_iff.mp copies
    obtain ⟨first, listed, bytes⟩ := takeCopy_advances taken
    obtain ⟨second, present, -, kept⟩ := mapIn_advances mapped
    have staged := first.stages copying.stages
    have own : page ∈ middle.taken :=
      List.mem_append_right _ (List.mem_map.mpr ⟨_, listed, rfl⟩)
    refine ⟨second.stages staged, fun entry member => ?_, fun other child absent there => ?_⟩
    · rcases List.mem_cons.mp member with rfl | old
      · unfold IsCopy
        rw [if_pos owned]
        refine ⟨page, second.copies _ listed, present, fun i within => ?_⟩
        obtain ⟨fresh, goes, -⟩ := second.pages
        rw [goes.kept _ (staged.used own (by omega) (by omega)), bytes i within]
        -- the parent's page is on no page taken so far
        have before := (Stages.trans copying.stages ((Stages.start board.pool copy.machine).take
          (takeCopy_found taken)))
        exact Stages.untouched before (used owned i within)
      · exact ((copying.copied entry old).advance copying.stages first (new entry old)).advance
          staged second (new entry old)
    · have different : other ≠ vpn := fun same => absent _ List.mem_cons_self same.symm
      rw [second.leaves other different, first.leaves other different] at there
      exact copying.rest other child (fun entry member => absent entry
        (List.mem_cons_of_mem _ member)) there
  · rw [if_neg owned] at copies
    obtain ⟨advances, present, -⟩ := mapIn_advances copies
    refine ⟨advances.stages copying.stages, fun entry member => ?_,
      fun other child absent there => ?_⟩
    · rcases List.mem_cons.mp member with rfl | old
      · unfold IsCopy
        rw [if_neg owned]
        exact present
      · exact (copying.copied entry old).advance copying.stages advances (new entry old)
    · have different : other ≠ vpn := fun same => absent _ List.mem_cons_self same.symm
      rw [advances.leaves other different] at there
      exact copying.rest other child (fun entry member => absent entry
        (List.mem_cons_of_mem _ member)) there

theorem copyLeaves_copying (leaves : List (Nat × Leaf)) {done : List (Nat × Leaf)}
    (copying : Copying board.pool mid done copy)
    (used : ∀ entry ∈ leaves, pteOwnedUserLeaf entry.2 = true → InUse board.pool mid entry.2)
    (new : ∀ entry ∈ leaves, ∀ old ∈ done, old.1 ≠ entry.1)
    (distinct : leaves.Pairwise fun first second => first.1 ≠ second.1)
    (copies : copyLeaves board entryBytes copy leaves = some after) :
    Copying board.pool mid (leaves.reverse ++ done) after := by
  induction leaves generalizing copy done with
  | nil =>
    cases copies
    exact copying
  | cons _ _ ih =>
    obtain ⟨middle, first, later⟩ := Option.bind_eq_some_iff.mp copies
    obtain ⟨apart, distinct⟩ := List.pairwise_cons.mp distinct
    have copied := copyLeaf_copying copying (used _ List.mem_cons_self)
      (new _ List.mem_cons_self) first
    rw [List.reverse_cons, List.append_assoc]
    refine ih copied (fun other member => used other (List.mem_cons_of_mem _ member)) ?_
      distinct later
    intro other member old listed
    rcases List.mem_cons.mp listed with rfl | listed
    · exact apart other member
    · exact new other (List.mem_cons_of_mem _ member) old listed

/-- Pages for the kernel alone are no leaves of the user's. -/
theorem mapAllIn_copying (pages : List (Nat × Leaf)) (copying : Copying board.pool mid [] copy)
    (kernel : ∀ entry ∈ pages, entry.2.user = false)
    (done : mapAllIn board entryBytes copy pages = some after) :
    Copying board.pool mid [] after := by
  induction pages generalizing copy with
  | nil =>
    cases done
    exact copying
  | cons entry _ ih =>
    obtain ⟨vpn, leaf⟩ := entry
    obtain ⟨middle, first, later⟩ := Option.bind_eq_some_iff.mp done
    obtain ⟨advances, -, placed, -⟩ := mapIn_advances first
    refine ih ⟨advances.stages copying.stages, by simp, ?_⟩
      (fun other member => kernel other (List.mem_cons_of_mem _ member)) later
    intro other child _ there
    by_cases same : other = vpn
    · subst same
      rw [placed] at there
      cases there
      exact kernel _ List.mem_cons_self
    · rw [advances.leaves other same] at there
      exact copying.rest other child (by simp) there

theorem kernelPages_kernel : ∀ entry ∈ kernelPages board, entry.2.user = false := by
  intro entry member
  simp only [kernelPages, Fork.identityMap, Fork.mapPlic, Fork.mapConsoleMmio, List.mem_append,
    List.mem_map, List.mem_cons, List.not_mem_nil, or_false] at member
  rcases member with (⟨k, -, rfl⟩ | rfl | rfl | rfl) | console
  · rfl
  · rfl
  · rfl
  · rfl
  · split at console
    · rw [List.mem_singleton.mp console]
      rfl
    · cases console

theorem takeRoot_copying {root : Nat} (done : takeRoot board entryBytes machine = some (root, copy)) :
    Copying board.pool machine [] copy ∧ root ∈ copy.tables := by
  unfold takeRoot at done
  dsimp only at done
  split at done
  · cases done
  · next found =>
      cases done
      have taken := (Stages.start board.pool machine).take found
      refine ⟨⟨?_, by simp, by simp [emptyTable]⟩, List.mem_singleton_self _⟩
      refine ⟨⟨taken.nodup, taken.fresh, taken.bits, ?_⟩, ?_, taken.log⟩
      · intro addr used
        refine (if_neg ?_).trans (taken.kept addr used)
        intro within
        obtain ⟨page, member, here⟩ := List.any_eq_true.mp within
        obtain ⟨index, -, rfl, clear⟩ := taken.fresh page member
        have set := used index (by simpa [Exec.InPage] using here)
        rw [clear] at set
        cases set
      · intro addr outside
        refine (if_neg ?_).trans (taken.apart addr outside)
        intro within
        obtain ⟨page, member, here⟩ := List.any_eq_true.mp within
        exact outside page member (by simpa using here)

theorem mapIn_tables (done : mapIn board entryBytes copy vpn leaf = some after) :
    ∀ page ∈ copy.tables, page ∈ after.tables := by
  obtain ⟨build, -, rfl⟩ := Option.map_eq_some_iff.mp done
  exact fun page member => List.mem_append_right _ member

theorem copyLeaves_tables (leaves : List (Nat × Leaf))
    (done : copyLeaves board entryBytes copy leaves = some after) :
    ∀ page ∈ copy.tables, page ∈ after.tables := by
  induction leaves generalizing copy with
  | nil =>
    cases done
    exact fun _ member => member
  | cons _ _ ih =>
    obtain ⟨middle, first, later⟩ := Option.bind_eq_some_iff.mp done
    intro page member
    refine ih later page ?_
    unfold copyLeaf at first
    split at first
    · obtain ⟨⟨own, taken⟩, took, mapped⟩ := Option.bind_eq_some_iff.mp first
      refine mapIn_tables mapped page ?_
      unfold takeCopy at took
      dsimp only at took
      split at took
      · cases took
      · cases took
        exact member
    · exact mapIn_tables first page member

theorem mapAllIn_tables (pages : List (Nat × Leaf))
    (done : mapAllIn board entryBytes copy pages = some after) :
    ∀ page ∈ copy.tables, page ∈ after.tables := by
  induction pages generalizing copy with
  | nil =>
    cases done
    exact fun _ member => member
  | cons _ _ ih =>
    obtain ⟨middle, first, later⟩ := Option.bind_eq_some_iff.mp done
    exact fun page member => ih later page (mapIn_tables first page member)

theorem walk_distinct (table : PageTable) :
    (walk table).Pairwise fun first second => first.1 ≠ second.1 := by
  rw [walk_eq, List.pairwise_filterMap]
  refine List.nodup_range.imp ?_
  intro first second differ left one right two
  obtain ⟨_, -, rfl⟩ := Option.map_eq_some_iff.mp one
  obtain ⟨_, -, rfl⟩ := Option.map_eq_some_iff.mp two
  exact differ

theorem copyTable_copying {parent : PageTable} {root : Nat}
    (used : ∀ entry ∈ userLeaves parent, pteOwnedUserLeaf entry.2 = true →
      InUse board.pool machine entry.2)
    (done : copyTable board entryBytes machine parent = some (root, copy)) :
    Copying board.pool machine (userLeaves parent).reverse copy ∧ root ∈ copy.tables := by
  obtain ⟨⟨first, fresh⟩, rooted, later⟩ := Option.bind_eq_some_iff.mp done
  obtain ⟨mapped, kernel, last⟩ := Option.bind_eq_some_iff.mp later
  obtain ⟨copied, leaves, same⟩ := Option.map_eq_some_iff.mp last
  cases same
  obtain ⟨start, listed⟩ := takeRoot_copying rooted
  have ready := mapAllIn_copying _ start kernelPages_kernel kernel
  have all := copyLeaves_copying (userLeaves parent) ready used (by simp)
    ((walk_distinct parent).filter _) leaves
  rw [List.append_nil] at all
  exact ⟨all, copyLeaves_tables _ leaves _ (mapAllIn_tables _ kernel _ listed)⟩

end Leaves

section Attachments
variable {segs : Segments} {parent child : Nat}

def Names (table : Nat) (kind : Nat → Nat → Bool) (attach : SegAttach) : Prop :=
  attach.used ∧ attach.table = table ∧ kind attach.seg attach.vaddr = true

instance (table : Nat) (kind : Nat → Nat → Bool) : DecidablePred (Names table kind) :=
  fun attach => inferInstanceAs (Decidable (attach.used = true ∧ attach.table = table ∧ _))

variable (attachments : Nat → SegAttach)

def attachCount (table : Nat) (kind : Nat → Nat → Bool) : Nat :=
  census segAttachMax attachments (Names table kind)

def ofSegment (si seg _vaddr : Nat) : Bool := seg == si

theorem freeSlots_census : segAttachFreeSlots attachments =
      census segAttachMax attachments fun attach => attach.used = false := by
  rw [← countP_census, segAttachFreeSlots]
  congr 1
  funext index
  cases (attachments index).used <;> rfl

structure Duplicates (segs after : Segments) (parent child index : Nat) : Prop where
  segments : ∀ si, after.segments si = { segs.segments si with
    refs := (segs.segments si).refs +
      weight (Names parent (ofSegment si)) (segs.attachments index) }
  gained : ∀ kind, attachCount after.attachments child kind =
    attachCount segs.attachments child kind + weight (Names parent kind) (segs.attachments index)
  kept : ∀ kind other, Names parent kind (after.attachments other) ↔
    Names parent kind (segs.attachments other)
  room : segAttachFreeSlots segs.attachments = segAttachFreeSlots after.attachments +
    weight (Names parent fun _ _ => true) (segs.attachments index)

theorem dupAttachment_duplicates {index : Nat} (apart : parent ≠ child)
    (room : weight (Names parent fun _ _ => true) (segs.attachments index) ≤
      segAttachFreeSlots segs.attachments) :
    Duplicates segs (dupAttachment parent child segs index) parent child index := by
  unfold dupAttachment
  by_cases held : attached segs.attachments parent index = true
  · rw [if_pos held]
    simp only [attached, Bool.and_eq_true, beq_iff_eq] at held
    have names : ∀ kind, weight (Names parent kind) (segs.attachments index) =
        if kind (segs.attachments index).seg (segs.attachments index).vaddr then 1 else 0 := by
      simp [weight, Names, held.1, held.2]
    rw [names, if_pos rfl] at room
    have free : ∃ slot, (List.range segAttachMax).find?
        (fun index => !(segs.attachments index).used) = some slot := by
      refine Option.ne_none_iff_exists'.mp fun none => ?_
      have full : segAttachFreeSlots segs.attachments = 0 :=
        List.countP_eq_zero.mpr (List.find?_eq_none.mp none)
      omega
    obtain ⟨slot, found⟩ := free
    have low : slot < segAttachMax := List.mem_range.mp (List.mem_of_find?_eq_some found)
    have unused : (segs.attachments slot).used = false := by simpa using List.find?_some found
    simp only [addAttachment, found]
    refine ⟨fun si => ?_, fun kind => ?_, fun kind other => ?_, ?_⟩
    · rw [names]
      by_cases same : si = (segs.attachments index).seg
      · subst same
        simp [ofSegment]
      · have other : ofSegment si (segs.attachments index).seg (segs.attachments index).vaddr =
            false := by simpa [ofSegment] using Ne.symm same
        simp [same, other]
    · have moved := census_update segs.attachments (Names child kind) slot low
        ⟨true, (segs.attachments index).seg, child, (segs.attachments index).vaddr⟩
      rw [names]
      simp only [weight, Names, unused, true_and] at moved
      exact moved
    · by_cases same : other = slot
      · subst same
        simp [Names, unused, apart.symm]
      · simp [same]
    · rw [names, freeSlots_census, freeSlots_census]
      exact (census_update_loss slot low _ unused (by simp)).symm
  · rw [if_neg held]
    have absent : ∀ kind, weight (Names parent kind) (segs.attachments index) = 0 := by
      intro kind
      refine if_neg fun present => held ?_
      simp [attached, present.1, present.2.1]
    exact ⟨fun si => by simp [absent], fun kind => by simp [absent], fun _ _ => Iff.rfl,
      by simp [absent]⟩

theorem dup_rounds (indices : List Nat) (apart : parent ≠ child)
    (room : (indices.map fun index =>
      weight (Names parent fun _ _ => true) (segs.attachments index)).sum ≤
        segAttachFreeSlots segs.attachments) :
    (∀ si, (indices.foldl (dupAttachment parent child) segs).segments si = { segs.segments si with
        refs := (segs.segments si).refs + (indices.map fun index =>
          weight (Names parent (ofSegment si)) (segs.attachments index)).sum }) ∧
      ∀ kind, attachCount (indices.foldl (dupAttachment parent child) segs).attachments child kind =
        attachCount segs.attachments child kind +
          (indices.map fun index => weight (Names parent kind) (segs.attachments index)).sum := by
  induction indices generalizing segs with
  | nil => simp
  | cons index _ ih =>
    simp only [List.map_cons, List.sum_cons] at room ⊢
    have once := @dupAttachment_duplicates segs parent child index apart (by omega)
    have same : ∀ kind other,
        weight (Names parent kind) ((dupAttachment parent child segs index).attachments other) =
          weight (Names parent kind) (segs.attachments other) := by
      intro kind other
      simp only [weight, once.kept]
    obtain ⟨segments, gained⟩ := @ih (dupAttachment parent child segs index) (by
      have left := once.room
      simp only [same]
      omega)
    rw [List.foldl_cons]
    refine ⟨fun si => ?_, fun kind => ?_⟩
    · rw [segments, once.segments]
      simp only [same, Int.natCast_add, Int.add_assoc]
    · rw [gained, once.gained]
      simp only [same]
      omega

theorem sum_range_weight (table : Nat) (kind : Nat → Nat → Bool) :
    ((List.range segAttachMax).map fun index =>
      weight (Names table kind) (attachments index)).sum = attachCount attachments table kind := by
  rw [attachCount, census_sum]
  rfl

/-- Every segment gains as many references as the child gains attachments to it. -/
theorem segDupAttachments_counts (apart : parent ≠ child)
    (room : segAttachmentsOf segs.attachments parent ≤ segAttachFreeSlots segs.attachments) :
    (∀ si, (segDupAttachments segs parent child).segments si = { segs.segments si with
        refs := (segs.segments si).refs + attachCount segs.attachments parent (ofSegment si) }) ∧
      ∀ kind, attachCount (segDupAttachments segs parent child).attachments child kind =
        attachCount segs.attachments child kind + attachCount segs.attachments parent kind := by
  have all : segAttachmentsOf segs.attachments parent =
      attachCount segs.attachments parent fun _ _ => true := by
    rw [attachCount, ← countP_census, segAttachmentsOf]
    congr 1
    funext index
    rw [Bool.eq_iff_iff]
    simp [attached, Names]
  have rounds := @dup_rounds segs parent child (List.range segAttachMax) apart
    (by rw [sum_range_weight, ← all]; exact room)
  simp only [sum_range_weight] at rounds
  rw [segDupAttachments]
  exact rounds

end Attachments

def userLeaf (table : PageTable) (vpn : Nat) : Option Leaf := (found table vpn).filter (·.user)

def LeafCopied (before after : Memory) (copies : List (Nat × Nat)) (parent child : PageTable)
    (vpn : Nat) : Prop :=
  match userLeaf parent vpn with
  | none => userLeaf child vpn = none
  | some leaf =>
    if pteOwnedUserLeaf leaf then
      ∃ page, (vpn, page) ∈ copies ∧ userLeaf child vpn = some { leaf with paddr := page } ∧
        ∀ i, i < pageSize → after (page + i) = before (leaf.paddr + i)
    else userLeaf child vpn = some leaf

/-- A child with a copy of its parent's address space. The pages of its tables, of its
buffers and of its copies were free, and no two of them are the same. -/
structure ForkCopies (pool : Pool) (before after : World) (caller child : Nat)
    (others : List Nat) (copies : List (Nat × Nat)) : Prop where
  started : (before.procs child).used = false ∧ (after.procs child).used = true
  pages : Stages pool before.machine after.machine (others ++ copies.map Prod.snd)
  root : (after.procs child).root ∈ others
  leaves : ∀ vpn, vpn < entries * entries * entries →
    LeafCopied before.machine.memory after.machine.memory copies
      (before.tables (before.procs caller).root) (after.tables (after.procs child).root) vpn
  parent : ∀ root, root ≠ (after.procs child).root → after.tables root = before.tables root
  attachments : ∀ kind, attachCount after.segs.attachments (after.procs child).root kind =
    attachCount before.segs.attachments (before.procs caller).root kind
  segments : ∀ si, after.segs.segments si = { before.segs.segments si with
    refs := (before.segs.segments si).refs +
      attachCount after.segs.attachments (after.procs child).root (ofSegment si) }

section Fork
variable {board : Board} {entryBytes : Memory} {world after : World} {caller : Nat} {flags : Flags}

structure Accounted (pool : Pool) (world : World) (caller : Nat) : Prop where
  leaves : ∀ entry ∈ userLeaves (world.tables (world.procs caller).root),
    pteOwnedUserLeaf entry.2 = true → InUse pool world.machine entry.2
  root : ∀ index, index < pool.ramPageCount → (world.procs caller).root = pageBase pool index →
    bitIsSet world.machine.alloc index = true
  named : ∀ slot, slot < segAttachMax → (world.segs.attachments slot).used →
    ∀ index, index < pool.ramPageCount →
      (world.segs.attachments slot).table = pageBase pool index →
      bitIsSet world.machine.alloc index = true

theorem slotBuffer_grows (alloc : Allocator) (held pages : Nat) :
    Grows board.pool alloc (Fork.slotBuffer board alloc held pages).2 := by
  unfold Fork.slotBuffer
  split
  · exact tryAllocPages_grows _ _ _
  · exact .refl _ _

theorem procSlotBuffers_grows (alloc : Allocator) (slot : Fork.Slot) :
    Grows board.pool alloc (Fork.procSlotBuffers board alloc slot).2.1 := by
  have stack := @slotBuffer_grows board alloc slot.kstack Fork.stackPages
  unfold Fork.procSlotBuffers
  dsimp only
  split
  · exact stack
  · have inbox := @slotBuffer_grows board
      (Fork.slotBuffer board alloc slot.kstack Fork.stackPages).2 slot.msgData Fork.msgPages
    split
    · exact stack.trans inbox
    · exact stack.trans inbox

theorem leafCopied_of_copying {copy : Copy} {parent : PageTable} {memory : Memory}
    (copying : Copying board.pool mid (userLeaves parent).reverse copy)
    (same : ∀ entry ∈ userLeaves parent, pteOwnedUserLeaf entry.2 = true →
      ∀ i, i < pageSize → mid.memory (entry.2.paddr + i) = memory (entry.2.paddr + i))
    (inside : vpn < entries * entries * entries) :
    LeafCopied memory copy.machine.memory copy.copies parent copy.table vpn := by
  unfold LeafCopied
  cases there : userLeaf parent vpn with
  | none =>
    have absent : ∀ entry ∈ (userLeaves parent).reverse, entry.1 ≠ vpn := by
      rintro ⟨other, leaf⟩ member rfl
      obtain ⟨walked, user⟩ := List.mem_filter.mp (List.mem_reverse.mp member)
      have present := ((mem_walk parent _ _).mp walked).2
      rw [userLeaf, present, Option.filter_some, if_pos user] at there
      cases there
    unfold userLeaf
    cases child : found copy.table vpn with
    | none => rfl
    | some leaf =>
      have placed : copy.table.leaves vpn = some leaf := by
        unfold found at child
        split at child
        · exact child
        · cases child
      rw [Option.filter_some, copying.rest vpn leaf absent placed, if_neg (by simp)]
  | some leaf =>
    obtain ⟨present, user⟩ := Option.filter_eq_some_iff.mp there
    have member : (vpn, leaf) ∈ userLeaves parent :=
      List.mem_filter.mpr ⟨(mem_walk parent _ _).mpr ⟨inside, present⟩, user⟩
    have copied := copying.copied _ (List.mem_reverse.mpr member)
    unfold IsCopy at copied
    dsimp only
    split
    · next owned =>
        rw [if_pos owned] at copied
        obtain ⟨page, listed, child, bytes⟩ := copied
        refine ⟨page, listed, ?_, fun i within => ?_⟩
        · rw [userLeaf, child, Option.filter_some, if_pos user]
        · rw [bytes i within, same _ member owned i within]
    · next shared =>
        rw [if_neg shared] at copied
        have marked : leaf.shared = true := by
          by_contra own
          exact shared (by simp [pteOwnedUserLeaf, user, Bool.not_eq_true _ ▸ own])
        rw [userLeaf, copied, Option.filter_some, if_pos user, ← marked]

variable {pool : Pool}

theorem InUse.grows (used : InUse pool machine leaf) (grows : Grows pool machine.alloc mid.alloc) :
    InUse pool mid leaf :=
  fun i within index inside here => grows.kept index (used i within index inside here)

/-- A page just taken is on nobody's account. -/
theorem fresh_root {copied : Machine} {pages : List Nat} {root : Nat}
    (grows : Grows pool machine.alloc mid.alloc) (stages : Stages pool mid copied pages)
    (member : root ∈ pages) :
    ∃ index, index < pool.ramPageCount ∧ root = pageBase pool index ∧
      bitIsSet machine.alloc index = false := by
  obtain ⟨index, inside, here, clear⟩ := stages.fresh root member
  refine ⟨index, inside, here, ?_⟩
  by_contra set
  rw [grows.kept index (by simpa using set)] at clear
  cases clear

theorem sysRfork_copies {result : Int} (accounted : Accounted board.pool world caller)
    (separate : flags.rfmem = false)
    (done : sysRfork board entryBytes world caller flags = some (after, result))
    (success : result ≠ -1) :
    ∃ child : Nat, result = (child : Int) + 1 ∧
      ∃ others copies, ForkCopies board.pool world after caller child others copies := by
  unfold sysRfork at done
  split at done
  · cases done
    exact absurd rfl success
  · split at done
    · cases done
      exact absurd rfl success
    · next child claimed =>
        have unused : (world.procs child).used = false := by
          simpa using List.find?_some claimed
        have grown : Grows board.pool world.machine.alloc
            (slotBuffers board world.machine (world.procs child)).2.1.alloc :=
          procSlotBuffers_grows _ _
        have buffers := grownTo_stages grown fun _ => 0
        change Stages board.pool world.machine
          (slotBuffers board world.machine (world.procs child)).2.1 _ at buffers
        generalize slotBuffers board world.machine (world.procs child) = got at done grown buffers
        obtain ⟨found, mid, proc⟩ := got
        simp only [separate, Bool.false_eq_true, if_false] at done
        split at done
        · cases done
          exact absurd rfl success
        · unfold forkCopy at done
          split at done
          · cases done
            exact absurd rfl success
          · next room =>
              obtain ⟨⟨root, copy⟩, copies, same⟩ := Option.map_eq_some_iff.mp done
              cases same
              dsimp only [World.started] at room copies ⊢
              obtain ⟨copying, rooted⟩ := copyTable_copying (fun entry member owned =>
                (accounted.leaves entry member owned).grows grown) copies
              have member : root ∈ copy.taken := List.mem_append_left _ rooted
              obtain ⟨index, inside, here, clear⟩ := fresh_root grown copying.stages member
              have apart : (world.procs caller).root ≠ root := by
                intro same
                have set := accounted.root index inside (same.trans here)
                rw [clear] at set
                cases set
              have nobody : ∀ kind, attachCount world.segs.attachments root kind = 0 := by
                intro kind
                refine census_eq_zero.mpr fun slot low names => ?_
                have set := accounted.named slot low names.1 index inside (names.2.1.trans here)
                rw [clear] at set
                cases set
              have room : segAttachmentsOf world.segs.attachments (world.procs caller).root ≤
                  segAttachFreeSlots world.segs.attachments := by omega
              obtain ⟨segments, gained⟩ := segDupAttachments_counts apart room
              refine ⟨child, rfl, copy.tables ++ newPages board.pool world.machine.alloc mid.alloc,
                copy.copies, ⟨unused, by simp⟩, ?_, ?_, ?_, ?_, ?_, ?_⟩
              · refine (Stages.trans buffers copying.stages).perm ?_
                simp only [Copy.taken, List.append_assoc]
                exact (List.perm_append_comm).append_left _
              · simp only [update_self]
                exact List.mem_append_left _ rooted
              · intro vpn low
                simp only [update_self]
                exact leafCopied_of_copying copying (fun entry member owned i within =>
                  Stages.untouched buffers (accounted.leaves entry member owned i within)) low
              · intro other different
                simp only [update_self] at different
                exact update_of_ne different _ _
              · intro kind
                simp only [update_self]
                rw [gained, nobody, Nat.zero_add]
              · intro si
                simp only [update_self]
                rw [segments, gained, nobody, Nat.zero_add]

/-- The processes, tables, owned leaves and attachments of a world are those of a kernel of
`AddressSpace`, whose page numbers count from address 0; leaves of device memory lie
outside the pool. -/
structure Shows (pool : Pool) (space : AddressSpace.Board) (kernel : AddressSpace.Kernel)
    (world : World) (caller : Nat) : Prop where
  aligned : pageSize ∣ pool.freeRam
  taken : ∀ index, index < pool.ramPageCount →
    kernel.taken (pool.freeRam / pageSize + index) = true →
    bitIsSet world.machine.alloc index = true
  running : caller < space.procsMax ∧ (kernel.procs caller).used = true ∧
    (world.procs caller).root = (kernel.procs caller).pageTable * pageSize
  leaves : ∀ entry ∈ userLeaves (world.tables (world.procs caller).root),
    pteOwnedUserLeaf entry.2 = true →
    entry.2.paddr + pageSize ≤ pool.freeRam ∨
      pool.freeRam + pool.ramPageCount * pageSize ≤ entry.2.paddr ∨
      pageSize ∣ entry.2.paddr ∧
        (entry.1, (⟨entry.2.paddr / pageSize, false⟩ : AddressSpace.Leaf)) ∈
          kernel.spaces (kernel.procs caller).pageTable
  attachments : ∀ slot, slot < segAttachMax → (world.segs.attachments slot).used = true →
    (kernel.attachments slot).used = true ∧
      (world.segs.attachments slot).table = (kernel.attachments slot).table * pageSize

theorem Shows.page {space : AddressSpace.Board} {kernel : AddressSpace.Kernel}
    (shown : Shows pool space kernel world caller) {page index : Nat}
    (held : kernel.taken page = true) (inside : index < pool.ramPageCount)
    (here : page * pageSize = pageBase pool index) : bitIsSet world.machine.alloc index = true := by
  refine shown.taken index inside ?_
  have same : pool.freeRam / pageSize + index = page := by
    unfold pageBase at here
    unfold pageSize at *
    omega
  rw [same]
  exact held

theorem Shows.accounted {space : AddressSpace.Board} {kernel : AddressSpace.Kernel}
    (shown : Shows pool space kernel world caller)
    (run : Run.Reach (AddressSpace.step space) (fun _ _ => True) AddressSpace.boot kernel) :
    Accounted pool world caller := by
  have sound := AddressSpace.run_sound run
  obtain ⟨low, used, root⟩ := shown.running
  have alive : AddressSpace.live space kernel.procs (kernel.procs caller).pageTable :=
    ⟨caller, low, used, rfl⟩
  refine ⟨?_, ?_, ?_⟩
  · intro entry member owned i within index inside here
    rcases shown.leaves entry member owned with below | above | ⟨⟨page, whole⟩, listed⟩
    · unfold Exec.InPage pageBase at here
      omega
    · unfold Exec.InPage pageBase at here
      unfold pageSize at *
      omega
    · have held : kernel.taken (entry.2.paddr / pageSize) = true :=
        sound.custody.within (.leaf _ entry.1) _ ⟨alive, listed⟩
      refine shown.page held inside ?_
      obtain ⟨first, aligned⟩ := shown.aligned
      unfold Exec.InPage pageBase at here
      unfold pageBase
      unfold pageSize at *
      omega
  · intro index inside here
    rw [root] at here
    exact shown.page (sound.custody.within (.root _) _ ⟨alive, rfl⟩) inside here
  · intro slot small attached index inside here
    obtain ⟨known, table⟩ := shown.attachments slot small attached
    obtain ⟨-, -, running⟩ := sound.named slot small known
    rw [table] at here
    exact shown.page (sound.custody.within (.root _) _ ⟨running, rfl⟩) inside here

/-- In every reachable state a successful fork that shares no memory gives the child a copy
of the parent's address space. -/
theorem fork_copies_address_space {space : AddressSpace.Board} {kernel : AddressSpace.Kernel}
    (run : Run.Reach (AddressSpace.step space) (fun _ _ => True) AddressSpace.boot kernel)
    (shown : Shows board.pool space kernel world caller) {result : Int}
    (separate : flags.rfmem = false)
    (done : sysRfork board entryBytes world caller flags = some (after, result))
    (success : result ≠ -1) :
    ∃ child : Nat, result = (child : Int) + 1 ∧
      ∃ others copies, ForkCopies board.pool world after caller child others copies :=
  sysRfork_copies (shown.accounted run) separate done success

end Fork

def forkSpace : AddressSpace.Board := ⟨64, 4096, 0, 0⟩

theorem forkRam_pos : 0 < 0x80000000 := by decide

def forkBoard : Board where
  pool := ⟨0x80000000, 0x80000000 + 64 * 4096, forkRam_pos⟩
  kernelMapBase := 0x80000000
  plicBase := 0x10000000
  plicPhysBase := 0x10000000
  plicCtx := 1
  consoleMmioPage := 0
  consoleMmioPhys := 0

def loneKernel : AddressSpace.Kernel :=
  Run.outcome (AddressSpace.step forkSpace) (fun _ _ => True) AddressSpace.boot
    [.create 0x80000 [0x80001], .segattach 0 ['r', 'i', 'n', 'g'] 100 (some 0x80002) none]

def loneWorld : World where
  machine := ⟨⟨Bitmap.insertRange (fun _ => 0) 0 5, 0⟩, fun _ => 7, []⟩
  procs slot := ⟨slot = 0, 1, 1, 0x80000000⟩
  tables _ :=
    { tables := ⟨{0}, {8}⟩
      leaves := fun vpn =>
        if vpn = 4096 then some ⟨0x80001000, 0b101, true, false⟩
        else if vpn = 4097 then some ⟨0x80002000, 0b011, true, true⟩
        else none }
  segs :=
    { segments := fun si => ⟨si = 0, 0x80002000, 1, if si = 0 then 1 else 0⟩
      attachments := fun slot => ⟨slot = 0, 0, 0x80000000, 4097⟩ }

theorem fork_copies_address_space_lone :
    ∃ after others copies,
      sysRfork forkBoard (fun _ => 0) loneWorld 0 ⟨true, false, true⟩ = some (after, 2) ∧
      ForkCopies forkBoard.pool loneWorld after 0 1 others copies := by
  have run :
      Run.Reach (AddressSpace.step forkSpace) (fun _ _ => True) AddressSpace.boot loneKernel :=
    Run.outcome_reach _ _ (by decide)
  have shown : Shows forkBoard.pool forkSpace loneKernel loneWorld 0 :=
    ⟨by decide +kernel, by decide +kernel, by decide +kernel, by decide +kernel, by decide +kernel⟩
  have answer : (sysRfork forkBoard (fun _ => 0) loneWorld 0 ⟨true, false, true⟩).map Prod.snd =
      some 2 := by decide +kernel
  obtain ⟨⟨after, result⟩, done, same⟩ := Option.map_eq_some_iff.mp answer
  subst same
  obtain ⟨child, number, others, copies, copied⟩ :=
    fork_copies_address_space run shown rfl done (by decide)
  have first : child = 1 := by omega
  subst first
  exact ⟨after, others, copies, done, copied⟩

end Racccoon.ForkCopy
