import Racccoon.AddressSpace.Attachments

/-!
The calls of one process in its address space, SYS_SEGATTACH and SYS_SEGDETACH first:
each keeps the kernel sound.
-/

namespace Racccoon.AddressSpace
open Function (update update_self)

open Census Custody

variable {board : Board} {kernel after : Kernel} {except : Option Nat} {si table : Nat}

variable {caller : Nat}

theorem live_of_used (inside : caller < board.procsMax) (used : (kernel.procs caller).used = true) :
    live board kernel.procs (kernel.procs caller).pageTable :=
  ⟨caller, inside, used, rfl⟩

/-- Rewriting a process's heap bounds changes no address space. -/
theorem live_update_heap {procs : Nat → Proc} {proc : Proc} (used : proc.used = (procs caller).used)
    (here : proc.pageTable = (procs caller).pageTable) (table : Nat) :
    live board (update procs caller proc) table ↔
      live board procs table := by
  have same : ∀ slot, (update procs caller proc slot).used = (procs slot).used ∧
      (update procs caller proc slot).pageTable = (procs slot).pageTable := by
    intro slot
    by_cases mine : slot = caller
    · subst mine
      simp [used, here]
    · simp [mine]
  simp only [live, same]

theorem sysMap_sound (sound : Sound board except kernel) (caller bytes : Nat) :
    Sound board except (sysMap board kernel caller bytes) := by
  unfold sysMap
  dsimp only
  split
  · exact sound
  · split
    · exact sound
    · exact SameMemory.sound ⟨live_update_heap rfl rfl, rfl, rfl, rfl, rfl, rfl, rfl⟩ sound

theorem sysSetuid_sound (sound : Sound board except kernel) (caller uid : Nat) :
    Sound board except (sysSetuid kernel caller uid) := by
  unfold sysSetuid
  split
  · exact SameMemory.sound ⟨live_update_heap rfl rfl, rfl, rfl, rfl, rfl, rfl, rfl⟩ sound
  · exact sound

theorem touch_sound (sound : Sound board except kernel) {vpn page : Nat} {fault : Bool}
    (stepped : touch board kernel caller vpn page fault = some after) :
    Sound board except after := by
  unfold touch at stepped
  dsimp only at stepped
  split at stepped
  · cases stepped
    exact sound
  split at stepped
  · cases stepped
    exact sound
  split at stepped
  · cases stepped
    exact sound
  obtain ⟨ready, taken, rfl⟩ := Option.map_eq_some_iff.mp stepped
  obtain ⟨held, -, spare⟩ := sound.take taken
  obtain ⟨-, -, rfl⟩ := takePages_some taken
  refine held.setSpace _ _ ?_ ?_ ?_
  · intro _ place paddr listed
    rcases mem_mapLeaf listed with new | old
    · cases new
      exact .inr (spare page (by simp))
    · exact .inl old
  · intro alive place other paddr loose listed again
    have fresh : ∀ place, (place, ⟨paddr, false⟩) ∈ mapLeaf
        (kernel.spaces (kernel.procs caller).pageTable) vpn ⟨page, false⟩ → place = vpn := by
      intro place found
      rcases mem_mapLeaf found with new | old
      · exact congrArg Prod.fst new
      · exact absurd ⟨alive, old⟩ (loose.2 (.leaf _ place))
    rw [fresh place listed, fresh other again]
  · intro alive place paddr listed
    rcases mem_mapLeaf listed with new | old
    · cases new
    · exact held.covered _ place paddr alive old

theorem find_attached {vaddr index : Nat}
    (found : ((List.range segAttachMax).find? fun index =>
      attached kernel table index && (kernel.attachments index).vaddr == vaddr) = some index) :
    index < segAttachMax ∧ (kernel.attachments index).used = true ∧
      (kernel.attachments index).table = table ∧ (kernel.attachments index).vaddr = vaddr := by
  have inside := List.mem_range.mp (List.mem_of_find?_eq_some found)
  have holds := List.find?_some found
  simp only [Bool.and_eq_true, attached_iff, beq_iff_eq] at holds
  exact ⟨inside, holds.1.1, holds.1.2, holds.2⟩

theorem sysSegdetach_sound (sound : Sound board none kernel) (caller vaddr : Nat) :
    Sound board none (sysSegdetach kernel caller vaddr) := by
  unfold sysSegdetach
  dsimp only
  split
  · next index found =>
      obtain ⟨inside, used, here, place⟩ := find_attached found
      have cleared := sound.dropLeaves (kernel.procs caller).pageTable
        (clearRange (kernel.spaces (kernel.procs caller).pageTable) vaddr
          (kernel.segments (kernel.attachments index).seg).npages)
        (fun entry listed => (mem_clearRange.mp listed).1)
      refine cleared.detach inside used ?_
      intro root vpn page alive listed
      obtain ⟨other, covers⟩ := cleared.covered root vpn page alive listed
      refine ⟨other, ?_, covers⟩
      rintro rfl
      obtain ⟨-, -, there, low, high, -⟩ := covers
      have same : root = (kernel.procs caller).pageTable := there.symm.trans here
      subst same
      simp only [update_self] at listed
      refine (mem_clearRange.mp listed).2 ⟨?_, ?_⟩
      · rw [← place]
        exact low
      · rw [← place]
        exact high
  · exact sound

/-- A segment that could not be placed: one that existed is as before, a new one goes. -/
theorem undoCreate_sound (sound : Sound board (some si) kernel) (inside : si < segMax)
    (used : (kernel.segments si).used) {created : Bool}
    (old : created = false → Sound board none kernel)
    (new : created = true → attachCount kernel si = 0) :
    Sound board none (undoCreate kernel si created) := by
  cases created with
  | false => exact old rfl
  | true =>
    refine (sound.setRefs 1).unref inside ?_ ?_
    · simpa using used
    · have none : attachCount
          { kernel with
            segments := update kernel.segments si
              { kernel.segments si with refs := 1 } } si = 0 := new rfl
      simp [none]

theorem run_getElem {paddr npages k page : Nat} (found : (run paddr npages)[k]? = some page) :
    k < npages ∧ page = paddr + k := by
  obtain ⟨low, value⟩ := List.getElem?_eq_some_iff.mp found
  have inside : k < npages := by simpa [run] using low
  refine ⟨inside, ?_⟩
  rw [← value]
  simp [run]

/-- The leaves of a segment mapped and attached. -/
theorem place_sound {index : Nat} (base : Nat) (sound : Sound board (some si) kernel)
    (inside : si < segMax) (used : (kernel.segments si).used)
    (alive : live board kernel.procs (kernel.procs caller).pageTable)
    (counted : (kernel.segments si).refs = attachCount kernel si)
    (room : segAttachFreeSlots kernel ≠ 0) (found : freeAttachment kernel = some index) :
    Sound board none
      { addAttachment kernel si (kernel.procs caller).pageTable base with
        spaces := update kernel.spaces (kernel.procs caller).pageTable
          (mapLeaves (kernel.spaces (kernel.procs caller).pageTable) base true
            (run (kernel.segments si).paddr (kernel.segments si).npages)) } := by
  have attached := sound.attach inside used alive counted room base
  obtain ⟨low, -⟩ := freeAttachment_some found
  rw [addAttachment_eq found] at attached ⊢
  refine attached.setSpace _ _ ?_ ?_ ?_
  · intro _ vpn page listed
    rcases mem_mapLeaves listed with old | ⟨k, -, -, mode⟩
    · exact .inl old
    · cases mode
  · intro running vpn other page spare listed _
    rcases mem_mapLeaves listed with old | ⟨k, -, -, mode⟩
    · exact absurd ⟨running, old⟩ (spare.2 (.leaf _ vpn))
    · cases mode
  · intro running vpn page listed
    rcases mem_mapLeaves listed with old | ⟨k, place, here, -⟩
    · exact attached.covered _ vpn page running old
    · obtain ⟨short, value⟩ := run_getElem place
      simp only at here value
      refine ⟨index, low, ?_, ?_, ?_, ?_, ?_⟩
      · simp
      · simp
      · simp only [update_self]
        omega
      · simp only [update_self]
        omega
      · simp only [update_self]
        omega

theorem segPlace_sound (sound : Sound board (some si) kernel) {created : Bool} {stop : Option Nat}
    (inside : si < segMax) (used : (kernel.segments si).used)
    (alive : live board kernel.procs (kernel.procs caller).pageTable)
    (counted : (kernel.segments si).refs = attachCount kernel si)
    (room : segAttachFreeSlots kernel ≠ 0) (old : created = false → Sound board none kernel)
    (new : created = true → attachCount kernel si = 0) :
    Sound board none (segPlace board kernel caller si created stop) := by
  unfold segPlace
  dsimp only
  split
  · exact undoCreate_sound sound inside used old new
  · next base placed =>
      split
      · -- the pages mapped so far are unmapped again
        have fewer : ∀ entry ∈ clearRange
            (mapLeaves (kernel.spaces (kernel.procs caller).pageTable) base true
              (run (kernel.segments si).paddr (stop.getD 0))) base (stop.getD 0),
            entry ∈ kernel.spaces (kernel.procs caller).pageTable := by
          intro entry listed
          obtain ⟨listed, outside⟩ := mem_clearRange.mp listed
          rcases mem_mapLeaves listed with old | ⟨k, place, here, -⟩
          · exact old
          · have short := (run_getElem place).1
            omega
        exact undoCreate_sound (sound.dropLeaves _ _ fewer) inside used
          (fun mode => (old mode).dropLeaves _ _ fewer) new
      · obtain ⟨index, found⟩ := freeAttachment_exists room
        have attached := place_sound base sound inside used alive counted room found
        rw [addAttachment_eq found] at attached
        let mapped :=
          { kernel with
            spaces := update kernel.spaces (kernel.procs caller).pageTable
              (mapLeaves (kernel.spaces (kernel.procs caller).pageTable) base true
                (run (kernel.segments si).paddr (kernel.segments si).npages))
            procs := update kernel.procs caller
              { kernel.procs caller with heapTop := base + (kernel.segments si).npages }
            handed := ⟨(kernel.procs caller).pageTable, base, (kernel.segments si).npages⟩ ::
              kernel.handed
            highWater := update kernel.highWater (kernel.procs caller).pageTable
              (max (kernel.highWater (kernel.procs caller).pageTable)
                (base + (kernel.segments si).npages)) }
        have foundMapped : freeAttachment mapped = some index := found
        rw [addAttachment_eq foundMapped]
        apply SameMemory.sound ?_ attached
        exact ⟨live_update_heap rfl rfl, rfl, rfl, rfl, rfl, rfl, rfl⟩

variable {name : Text}

theorem segLookup_attach {size : Nat} (found : segLookup kernel caller name size = .attach si) :
    si < segMax ∧ (kernel.segments si).used ∧ segAttachFreeSlots kernel ≠ 0 := by
  unfold segLookup at found
  dsimp only at found
  split at found
  · cases found
  split at found
  · next named =>
      split at found
      · cases found
      split at found
      · cases found
      split at found
      · cases found
      split at found
      · cases found
      · next room =>
          cases found
          have inside := List.mem_range.mp (List.mem_of_find?_eq_some named)
          have active := List.find?_some named
          simp only [Bool.and_eq_true] at active
          exact ⟨inside, active.1, room⟩
  · split at found
    · cases found
    split at found
    · cases found
    split at found <;> cases found

theorem segLookup_create {size pages : Nat}
    (found : segLookup kernel caller name size = .create si pages) :
    si < segMax ∧ (kernel.segments si).used = false ∧ segAttachFreeSlots kernel ≠ 0 := by
  unfold segLookup at found
  dsimp only at found
  split at found
  · cases found
  split at found
  · split at found
    · cases found
    split at found
    · cases found
    split at found
    · cases found
    split at found <;> cases found
  · split at found
    · cases found
    next room =>
      split at found
      · cases found
      split at found
      · next vacant =>
          cases found
          refine ⟨List.mem_range.mp (List.mem_of_find?_eq_some vacant), ?_, room⟩
          simpa using List.find?_some vacant
      · cases found

theorem createSegment_sound (sound : Sound board none kernel) (inside : si < segMax)
    (unused : (kernel.segments si).used = false) {paddr npages : Nat}
    (done : createSegment kernel caller si name paddr npages = some after) :
    Sound board (some si) after ∧ after.procs = kernel.procs ∧
      after.attachments = kernel.attachments ∧ (after.segments si).used ∧
      (after.segments si).refs = 0 := by
  obtain ⟨ready, taken, rfl⟩ := Option.map_eq_some_iff.mp done
  obtain ⟨held, -, spare⟩ := sound.take taken
  obtain ⟨-, -, rfl⟩ := takePages_some taken
  refine ⟨held.createSegment inside unused _ rfl rfl ?_, rfl, rfl, ?_, ?_⟩
  · intro page low high
    exact spare page (List.mem_range'_1.mpr ⟨low, high⟩)
  · simp
  · simp

theorem sysSegattach_sound (sound : Sound board none kernel) {size : Nat} {paddr stop : Option Nat}
    (alive : live board kernel.procs (kernel.procs caller).pageTable)
    (stepped : sysSegattach board kernel caller name size paddr stop = some after) :
    Sound board none after := by
  unfold sysSegattach at stepped
  split at stepped
  · cases stepped
    exact sound
  · cases stepped
    exact sound
  · next si found =>
      cases stepped
      obtain ⟨inside, used, room⟩ := segLookup_attach found
      apply segPlace_sound (sound.relax (some si)) inside used alive
      · exact (sound.counted si inside (by simp) used).1
      · exact room
      · exact fun _ => sound
      · intro fresh
        cases fresh
  · next si pages found =>
      obtain ⟨inside, unused, room⟩ := segLookup_create found
      cases paddr with
      | none =>
        cases stepped
        exact sound
      | some =>
        obtain ⟨ready, created, rfl⟩ := Option.map_eq_some_iff.mp stepped
        obtain ⟨held, procs, attachments, used, refs⟩ := createSegment_sound sound inside unused created
        have unattached : attachCount ready si = 0 := by
          rw [attachCount, attachments]
          exact sound.unnamed unused
        apply segPlace_sound held inside used
        · rw [procs]
          exact alive
        · rw [refs, unattached]
          rfl
        · rw [segAttachFreeSlots, attachments]
          exact room
        · intro old
          cases old
        · exact fun _ => unattached

end Racccoon.AddressSpace
