import Racccoon.AddressSpace.Segments
import Racccoon.Lib.Run

/-!
The lifetime of shared segments: what processes coming, forking, loading and going keep,
and that over whole runs a segment in use has one reference for each attachment, and its
pages go back to the allocator once, with the last of them, when no page table maps them.
-/

namespace Racccoon.AddressSpace
open Function (update update_self update_of_ne update_idem)

open Census Custody Run

variable {board : Board} {kernel after : Kernel} {si table : Nat}

theorem unusedSlot_some {slot : Nat} (found : unusedSlot board kernel = some slot) :
    slot < board.procsMax ∧ (kernel.procs slot).used = false := by
  refine ⟨List.mem_range.mp (List.mem_of_find?_eq_some found), ?_⟩
  simpa using List.find?_some found

theorem rforkShared_sound (sound : Sound board none kernel) {caller : Nat}
    (alive : live board kernel.procs (kernel.procs caller).pageTable) :
    Sound board none (rforkShared board kernel caller) := by
  unfold rforkShared
  split
  · exact sound
  · next slot found => exact sound.spawn (unusedSlot_some found).2 (.inl alive)

/-- A process in an empty address space of its own, and what stays spare. -/
theorem Sound.spawnEmpty (sound : Sound board none kernel) (slot : Nat) (proc : Proc)
    (unused : (kernel.procs slot).used = false) (root : SparePage board kernel proc.pageTable) :
    let started :=
      { kernel with
        procs := update kernel.procs slot proc
        spaces := update kernel.spaces proc.pageTable [] }
    Sound board none started ∧
      ∀ page, SparePage board kernel page → page ≠ proc.pageTable → SparePage board started page := by
  have dead : ¬ live board kernel.procs proc.pageTable :=
    fun alive => root.2 (.root proc.pageTable) ⟨alive, rfl⟩
  have cleared := sound.dropLeaves proc.pageTable [] (fun entry listed => by cases listed)
  have same : Holds board
      { kernel with spaces := update kernel.spaces proc.pageTable [] } =
      Holds board kernel := by
    funext holder page
    rcases holder with table | ⟨table, vpn⟩ | si
    · rfl
    · by_cases here : table = proc.pageTable
      · subst here
        simp only [Holds, dead, false_and]
      · simp only [Holds, update_of_ne here]
    · rfl
  refine ⟨cleared.spawn unused (.inr ⟨?_, by simp⟩), ?_⟩
  · refine ⟨root.1, ?_⟩
    rw [same]
    exact root.2
  · intro page spare apart
    refine ⟨spare.1, ?_⟩
    -- the new process holds nothing but its root page
    have older : ∀ table, live board (update kernel.procs slot proc) table →
        live board kernel.procs table ∨ table = proc.pageTable := by
      rintro table ⟨owner, inside, used, here⟩
      by_cases mine : owner = slot
      · subst mine
        simp only [update_self] at here
        exact .inr here.symm
      · simp only [update_of_ne mine] at used here
        exact .inl ⟨owner, inside, used, here⟩
    rintro (table | ⟨table, vpn⟩ | si) held
    · obtain ⟨alive, rfl⟩ := held
      rcases older page alive with old | new
      · exact spare.2 (.root page) ⟨old, rfl⟩
      · exact apart new
    · obtain ⟨alive, listed⟩ := held
      by_cases here : table = proc.pageTable
      · subst here
        simp at listed
      · simp only [update_of_ne here] at listed
        rcases older table alive with old | new
        · exact spare.2 (.leaf table vpn) ⟨old, listed⟩
        · exact here new
    · exact spare.2 (.segment si) held

theorem createProcess_sound (sound : Sound board none kernel) {root : Nat} {image : List Nat}
    (stepped : createProcess board kernel root image = some after) : Sound board none after := by
  unfold createProcess at stepped
  split at stepped
  · cases stepped
    exact sound
  next slot found =>
  obtain ⟨ready, taken, rfl⟩ := Option.map_eq_some_iff.mp stepped
  obtain ⟨held, distinct, spare⟩ := sound.take taken
  obtain ⟨procs, -⟩ := takePages_frame taken
  obtain ⟨outside, distinct⟩ := List.nodup_cons.mp distinct
  let top := userBase + image.length
  obtain ⟨started, left⟩ := held.spawnEmpty slot ⟨true, root, top, top, 0⟩
    (procs ▸ (unusedSlot_some found).2) (spare root (by simp))
  have places : ∀ vpn page, (vpn, ⟨page, false⟩) ∈ mapLeaves [] userBase false image →
      ∃ k, image[k]? = some page ∧ vpn = userBase + k := by
    intro vpn page listed
    rcases mem_mapLeaves listed with old | ⟨k, place, here, -⟩
    · cases old
    · exact ⟨k, place, here⟩
  have loaded := started.setSpace root (mapLeaves [] userBase false image) ?_ ?_ ?_
  · apply SameMemory.sound ?_ loaded
    exact ⟨fun _ => Iff.rfl, by simp, rfl, rfl, rfl, rfl, rfl⟩
  · intro _ vpn page listed
    obtain ⟨k, place, -⟩ := places vpn page listed
    have member := List.mem_of_getElem? place
    refine .inr (left page (spare page (by simp [member])) ?_)
    rintro rfl
    exact outside member
  · intro _ vpn other page _ listed again
    obtain ⟨k, place, rfl⟩ := places vpn page listed
    obtain ⟨l, replace, rfl⟩ := places other page again
    have same : k = l :=
      (List.getElem?_inj (List.getElem?_eq_some_iff.mp place).1 distinct).mp
        (place.trans replace.symm)
    rw [same]
  · intro _ vpn page listed
    rcases mem_mapLeaves listed with old | ⟨k, -, -, mode⟩
    · cases old
    · cases mode

theorem Copied.spare {parent child : Nat} {indices : List Nat}
    (copied : Copied board kernel after parent child indices) {page : Nat}
    (spare : SparePage board kernel page) : SparePage board after page := by
  refine ⟨by simpa only [isTaken, copied.taken] using spare.1, ?_⟩
  have same : Holds board after = Holds board kernel := by
    funext holder page
    cases holder with
    | root => simp only [Holds, copied.procs]
    | leaf => simp only [Holds, copied.procs, copied.spaces]
    | segment => simp only [Holds, copied.segments]
  rw [same]
  exact spare.2

/-- The leaves of a copied space, in the child that has its attachments. -/
theorem Copied.setCopy {parent child : Nat} (sound : Sound board none kernel)
    (copied : Copied board kernel after parent child (List.range segAttachMax))
    (alive : live board kernel.procs parent) (space : Space) (copies : List Nat)
    (parents : kernel.spaces parent = space) (distinct : copies.Nodup)
    (enough : copies.length = (ownedPages space).length)
    (spare : ∀ page ∈ copies, SparePage board after page) :
    Sound board none
      { after with spaces := update after.spaces child (copySpace space copies) } := by
  apply copied.sound.setSpace
  · intro _ vpn page listed
    rcases mem_copySpace enough listed with ⟨mode, -⟩ | ⟨-, given⟩
    · cases mode
    · exact .inr (spare page given)
  · intro _ vpn other page _ listed again
    exact copySpace_once enough distinct listed again
  · intro _ vpn page listed
    rcases mem_copySpace enough listed with ⟨-, old⟩ | ⟨mode, -⟩
    · obtain ⟨index, inside, used, here, low, high, value⟩ :=
        sound.covered parent vpn page alive (parents ▸ old)
      obtain ⟨copy, small, same⟩ := copied.copied index (List.mem_range.mpr inside)
        ((attached_iff index).mpr ⟨used, here⟩)
      refine ⟨copy, small, ?_⟩
      rw [same]
      simp only [copied.segments, true_and]
      exact ⟨low, high, value⟩
    · cases mode

theorem rforkCopy_sound (sound : Sound board none kernel) {caller root : Nat} {copies : List Nat}
    (alive : live board kernel.procs (kernel.procs caller).pageTable)
    (stepped : rforkCopy board kernel caller root copies = some after) : Sound board none after := by
  unfold rforkCopy at stepped
  dsimp only at stepped
  split at stepped
  · cases stepped
    exact sound
  next slot found =>
  split at stepped
  · cases stepped
    exact sound
  next room =>
  split at stepped
  · cases stepped
  next enough =>
  obtain ⟨ready, taken, rfl⟩ := Option.map_eq_some_iff.mp stepped
  obtain ⟨held, distinct, spare⟩ := sound.take taken
  obtain ⟨procs, spaces, -, attachments⟩ := takePages_frame taken
  obtain ⟨outside, distinct⟩ := List.nodup_cons.mp distinct
  let parent := (kernel.procs caller).pageTable
  have running : live board ready.procs parent := procs ▸ alive
  have apart : parent ≠ root := by
    intro same
    exact (spare root (by simp)).2 (.root root) ⟨same ▸ running, rfl⟩
  obtain ⟨started, left⟩ := held.spawnEmpty slot
    { kernel.procs caller with used := true, pageTable := root }
    (procs ▸ (unusedSlot_some found).2) (spare root (by simp))
  let forked : Kernel :=
    { ready with
      procs := update ready.procs slot
        { kernel.procs caller with used := true, pageTable := root }
      spaces := update ready.spaces root []
      handed := (ready.handed.filter fun range => range.table ≠ root) ++
        ((ready.handed.filter fun range => range.table = parent).map
          fun range => { range with table := root })
      highWater := update ready.highWater root (ready.highWater parent) }
  have begun : Sound board none forked := by
    apply SameMemory.sound ?_ started
    exact ⟨fun _ => Iff.rfl, rfl, rfl, rfl, rfl, rfl, rfl⟩
  have fresh : live board forked.procs root :=
    ⟨slot, (unusedSlot_some found).1, by simp [forked], by simp [forked]⟩
  have parents : live board forked.procs parent := by
    obtain ⟨owner, inside, used, here⟩ := running
    have other : owner ≠ slot := by
      rintro rfl
      rw [procs, (unusedSlot_some found).2] at used
      cases used
    refine ⟨owner, inside, ?_, ?_⟩
    · simpa only [forked, update_of_ne other] using used
    · simpa only [forked, update_of_ne other] using here
  have copied := dup_all begun fresh apart ?_
  · have leaves := copied.setCopy begun parents (ready.spaces parent) copies
      (by simp [forked, apart]) distinct ?_ ?_
    · rw [copied.spaces] at leaves
      simp only [forked, update_idem] at leaves
      change Sound board none (segDupAttachments
        { forked with
          spaces := update ready.spaces root (copySpace (ready.spaces parent) copies) }
        parent root)
      rw [segDupAttachments_commutes]
      exact leaves
    · rw [spaces]
      exact Decidable.not_not.mp enough
    · intro page given
      apply copied.spare
      apply left page (spare page (by simp [given]))
      rintro rfl
      exact outside given
  · have same : segAttachFreeSlots forked = segAttachFreeSlots kernel := by
      simp only [segAttachFreeSlots, forked, attachments]
    have count : attached forked = attached kernel := by
      funext table index
      simp only [attached, forked, attachments]
    rw [same, segAttachmentsOf, count]
    exact Nat.not_lt.mp room

theorem Sound.wipe (sound : Sound board none kernel) (alive : live board kernel.procs table) :
    let wiped :=
      { freePages kernel (ownedPages (kernel.spaces table)) with
        spaces := update kernel.spaces table [] }
    Sound board none wiped ∧
      ∀ page, SparePage board kernel page → SparePage board wiped page := by
  have fewer : ∀ holder page, Holds board
      { kernel with spaces := update kernel.spaces table [] } holder page →
      Holds board kernel holder page ∧ page ∉ ownedPages (kernel.spaces table) := by
    have owner : ∀ holder page, Holds board kernel holder page →
        page ∈ ownedPages (kernel.spaces table) → ∃ vpn, holder = .leaf table vpn := by
      intro holder page held listed
      obtain ⟨vpn, leaf⟩ := mem_ownedPages.mp listed
      exact ⟨vpn, sound.custody.sole holder (.leaf table vpn) page held ⟨alive, leaf⟩⟩
    rintro (root | ⟨root, vpn⟩ | si) page held
    · refine ⟨held, fun listed => ?_⟩
      obtain ⟨vpn, same⟩ := owner (.root root) page held listed
      cases same
    · obtain ⟨running, listed⟩ := held
      by_cases here : root = table
      · subst here
        simp at listed
      · simp only [update_of_ne here] at listed
        refine ⟨⟨running, listed⟩, fun freed => ?_⟩
        obtain ⟨vpn, same⟩ := owner (.leaf root vpn) page ⟨running, listed⟩ freed
        cases same
        exact here rfl
    · refine ⟨held, fun listed => ?_⟩
      obtain ⟨vpn, same⟩ := owner (.segment si) page held listed
      cases same
  have cleared := sound.dropLeaves table [] (fun entry listed => by cases listed)
  refine ⟨cleared.free fun page listed holder held => (fewer holder page held).2 listed, ?_⟩
  intro page spare
  have kept : page ∉ ownedPages (kernel.spaces table) := by
    intro listed
    obtain ⟨vpn, leaf⟩ := mem_ownedPages.mp listed
    exact spare.2 (.leaf table vpn) ⟨alive, leaf⟩
  have within : kernel.taken page = true := spare.1
  refine ⟨by simp [isTaken, freePages, within, kept], ?_⟩
  intro holder held
  exact spare.2 holder (fewer holder page held).1

/-- The leaves of a freshly loaded image. -/
theorem mem_loaded {image : List (Option Nat)} {argv : List Nat} {vpn : Nat} {leaf : Leaf}
    (listed : (vpn, leaf) ∈ mapLeaves
      ((image.zipIdx userBase).filterMap fun entry =>
        entry.1.map fun page => (entry.2, Leaf.mk page false))
      (userBase + image.length) false argv) :
    leaf.shared = false ∧ ∃ k, vpn = userBase + k ∧
      (image ++ argv.map some)[k]? = some (some leaf.page) := by
  rcases mem_mapLeaves listed with old | ⟨k, place, here, mode⟩
  · obtain ⟨⟨slot, place⟩, found, made⟩ := List.mem_filterMap.mp old
    obtain ⟨page, rfl, same⟩ := Option.map_eq_some_iff.mp made
    obtain ⟨rfl, rfl⟩ := Prod.mk.inj same
    obtain ⟨low, found⟩ := List.mk_mem_zipIdx_iff_le_and_getElem?_sub.mp found
    refine ⟨rfl, place - userBase, by omega, ?_⟩
    rw [List.getElem?_append_left (List.getElem?_eq_some_iff.mp found).1]
    exact found
  · refine ⟨mode, image.length + k, by simpa [Nat.add_assoc] using here, ?_⟩
    rw [List.getElem?_append_right (Nat.le_add_right _ _), Nat.add_sub_cancel_left,
      List.getElem?_map, place]
    rfl

theorem place_once {slots : List (Option Nat)} (distinct : (slots.filterMap id).Nodup)
    {k l page : Nat} (first : slots[k]? = some (some page)) (second : slots[l]? = some (some page)) :
    k = l := by
  rw [List.Nodup, List.pairwise_filterMap, List.pairwise_iff_getElem] at distinct
  obtain ⟨low, here⟩ := List.getElem?_eq_some_iff.mp first
  obtain ⟨small, there⟩ := List.getElem?_eq_some_iff.mp second
  rcases Nat.lt_trichotomy k l with before | same | later
  · exact absurd rfl (distinct k l low small before page here page there)
  · exact same
  · exact absurd rfl (distinct l k small low later page there page here)

theorem sysExec_sound (sound : Sound board none kernel) {caller : Nat} {image : List (Option Nat)}
    {argv : List Nat} (alive : live board kernel.procs (kernel.procs caller).pageTable)
    (stepped : sysExec board kernel caller image argv = some after) : Sound board none after := by
  obtain ⟨ready, taken, rfl⟩ := Option.map_eq_some_iff.mp stepped
  obtain ⟨held, distinct, spare⟩ := sound.take taken
  obtain ⟨procs, -⟩ := takePages_frame taken
  let table := (kernel.procs caller).pageTable
  have running : live board ready.procs table := procs ▸ alive
  obtain ⟨wiped, left⟩ := held.wipe running
  have empty : update ready.spaces table [] table = [] := update_self ..
  have released := release_all wiped empty
  have pages : (image ++ argv.map some).filterMap id = image.filterMap id ++ argv := by simp
  have loaded := released.sound.setSpace table
    (mapLeaves
      ((image.zipIdx userBase).filterMap fun entry =>
        entry.1.map fun page => (entry.2, Leaf.mk page false))
      (userBase + image.length) false argv) ?_ ?_ ?_
  · apply SameMemory.sound ?_ loaded
    refine ⟨?_, rfl, rfl, rfl, rfl, rfl, rfl⟩
    dsimp only
    rw [released.procs]
    apply live_update_heap
    · exact congrArg (fun procs => (procs caller).used) procs.symm
    · exact congrArg (fun procs => (procs caller).pageTable) procs.symm
  · intro _ vpn page listed
    obtain ⟨-, k, -, found⟩ := mem_loaded listed
    refine .inr (released.spare page (left page (spare page ?_)))
    rw [← pages]
    exact List.mem_filterMap.mpr ⟨_, List.mem_of_getElem? found, rfl⟩
  · intro _ vpn other page _ listed again
    obtain ⟨-, k, rfl, found⟩ := mem_loaded listed
    obtain ⟨-, l, rfl, refound⟩ := mem_loaded again
    rw [place_once (pages ▸ distinct) found refound]
  · intro _ vpn page listed
    obtain ⟨mode, -⟩ := mem_loaded listed
    cases mode

/-- The last process of an address space goes: its attachments have been released, its
pages and page table are freed. -/
theorem procDestroy_sound (sound : Sound board none kernel) {slot : Nat}
    (inside : slot < board.procsMax) (used : (kernel.procs slot).used = true) :
    Sound board none (procDestroy board kernel slot) := by
  let gone : Proc := { kernel.procs slot with used := false }
  have alive := live_of_used inside used
  unfold procDestroy
  dsimp only
  by_cases shared : tableShared board kernel slot = true
  · rw [if_pos shared]
    exact sound.kill rfl (.inl shared)
  rw [if_neg shared]
  have nothing : ∀ entry ∈ ([] : Space), entry ∈ kernel.spaces (kernel.procs slot).pageTable :=
    List.forall_mem_nil _
  have released := release_all (sound.dropLeaves _ [] nothing) (update_self ..)
  obtain ⟨procs, spaces, -⟩ := segReleaseTable_undisturbed kernel (kernel.procs slot).pageTable
  rw [segReleaseTable_commutes] at released
  generalize segReleaseTable kernel (kernel.procs slot).pageTable = last at released procs spaces ⊢
  let table := (kernel.procs slot).pageTable
  let left : Kernel :=
    { last with
      spaces := update kernel.spaces table []
      procs := update last.procs slot gone }
  have killed : Sound board none left := by
    refine released.sound.kill rfl (.inr ?_)
    intro index low held
    have still := (released.fewer index ?_).2
    · exact still (List.mem_range.mpr low)
    · simpa only [procs] using held
  have older : ∀ holder page, Holds board left holder page → Holds board kernel holder page :=
    fun holder page held => holds_dropLeaves nothing
      (released.holds holder page (holds_kill rfl held))
  have dead : ¬ live board left.procs table := by
    rintro ⟨owner, low, running, here⟩
    by_cases same : owner = slot
    · subst same
      simp [left] at running
    · simp only [left, update_of_ne same, procs] at running here
      exact shared ((tableShared_iff slot).mpr ⟨owner, low, same, running, here⟩)
  have nobody : ∀ page ∈ table :: ownedPages (kernel.spaces table), ∀ holder,
      ¬ Holds board left holder page := by
    intro page freed holder held
    have before := older holder page held
    rcases List.mem_cons.mp freed with rfl | owned
    · have mine := sound.custody.sole holder (.root table) table before ⟨alive, rfl⟩
      subst mine
      exact dead held.1
    · obtain ⟨vpn, leaf⟩ := mem_ownedPages.mp owned
      have mine := sound.custody.sole holder (.leaf table vpn) page before ⟨alive, leaf⟩
      subst mine
      exact dead held.1
  rw [spaces]
  exact killed.free nobody

def SameSegment (sg later : Segment) : Prop :=
  later.used ∧ later.serial = sg.serial ∧ later.paddr = sg.paddr ∧ later.npages = sg.npages

structure GivesBack (kernel after : Kernel) : Prop where
  fewer : ∀ page, after.taken page = true → kernel.taken page = true
  more : ∀ serial ∈ kernel.returned, serial ∈ after.returned
  back : ∀ si, (kernel.segments si).used →
    SameSegment (kernel.segments si) (after.segments si) ∨
      (kernel.segments si).serial ∈ after.returned ∧
        ∀ page ∈ run (kernel.segments si).paddr (kernel.segments si).npages,
          after.taken page = false

theorem SameSegment.refl {sg : Segment} (used : sg.used) : SameSegment sg sg :=
  ⟨used, rfl, rfl, rfl⟩

theorem GivesBack.of_same (fewer : ∀ page, after.taken page = true → kernel.taken page = true)
    (segments : after.segments = kernel.segments) (returned : after.returned = kernel.returned) :
    GivesBack kernel after := by
  refine ⟨fewer, fun _ listed => returned ▸ listed, fun si used => .inl ?_⟩
  rw [segments]
  exact .refl used

theorem GivesBack.refl (kernel : Kernel) : GivesBack kernel kernel :=
  .of_same (fun _ held => held) rfl rfl

theorem GivesBack.trans {middle : Kernel} (first : GivesBack kernel middle)
    (second : GivesBack middle after) : GivesBack kernel after := by
  refine ⟨fun page held => first.fewer page (second.fewer page held),
    fun serial listed => second.more serial (first.more serial listed), fun si used => ?_⟩
  rcases first.back si used with ⟨still, serial, paddr, npages⟩ | ⟨listed, free⟩
  · rcases second.back si still with ⟨later, same, first, length⟩ | ⟨listed, free⟩
    · exact .inl ⟨later, same.trans serial, first.trans paddr, length.trans npages⟩
    · rw [serial, paddr, npages] at *
      exact .inr ⟨listed, free⟩
  · refine .inr ⟨second.more _ listed, fun page inside => ?_⟩
    by_contra held
    have before := second.fewer page (by simpa using held)
    rw [free page inside] at before
    cases before

theorem GivesBack.rounds {round : Kernel → Nat → Kernel}
    (once : ∀ kernel index, GivesBack kernel (round kernel index)) (indices : List Nat)
    (kernel : Kernel) : GivesBack kernel (indices.foldl round kernel) := by
  induction indices generalizing kernel with
  | nil => exact .refl kernel
  | cons index _ ih => exact (once kernel index).trans (ih (round kernel index))

theorem setRefs_givesBack (kernel : Kernel) (si : Nat) (refs : Int) :
    GivesBack kernel
      { kernel with
        segments := update kernel.segments si
          { kernel.segments si with refs := refs } } := by
  refine ⟨fun _ held => held, fun _ listed => listed, fun other used => .inl ?_⟩
  obtain ⟨still, paddr, npages, serial⟩ := recounted_fields kernel.segments si refs other
  exact ⟨still.trans used, serial, paddr, npages⟩

theorem segUnref_givesBack (kernel : Kernel) (si : Nat) : GivesBack kernel (segUnref kernel si) := by
  unfold segUnref
  dsimp only
  split
  · refine ⟨?_, ?_, ?_⟩
    · intro page held
      simp only [freePages, Bool.and_eq_true] at held
      exact held.1
    · intro serial listed
      exact List.mem_cons_of_mem _ listed
    · intro other used
      by_cases same : other = si
      · subst same
        refine .inr ⟨List.mem_cons_self, fun page inside => ?_⟩
        simp [freePages, inside]
      · simp only [update_of_ne same]
        exact .inl (.refl used)
  · exact setRefs_givesBack kernel si _

theorem dropAttachment_givesBack (kernel : Kernel) (index : Nat) :
    GivesBack kernel (dropAttachment kernel index) := by
  refine GivesBack.trans ?_ (segUnref_givesBack _ _)
  exact .of_same (fun _ held => held) rfl rfl

theorem segReleaseTable_givesBack (kernel : Kernel) (table : Nat) :
    GivesBack kernel (segReleaseTable kernel table) := by
  apply GivesBack.rounds
  intro kernel index
  split
  · exact dropAttachment_givesBack kernel index
  · exact .refl kernel

theorem addAttachment_givesBack (kernel : Kernel) (si table vaddr : Nat) :
    GivesBack kernel (addAttachment kernel si table vaddr) := by
  unfold addAttachment
  split
  · obtain ⟨fewer, more, back⟩ := setRefs_givesBack kernel si ((kernel.segments si).refs + 1)
    exact ⟨fewer, more, back⟩
  · exact .refl kernel

theorem segDupAttachments_givesBack (kernel : Kernel) (parent child : Nat) :
    GivesBack kernel (segDupAttachments kernel parent child) := by
  apply GivesBack.rounds
  intro kernel index
  split
  · exact addAttachment_givesBack kernel _ child _
  · exact .refl kernel

theorem undoCreate_givesBack (kernel : Kernel) (si : Nat) (created : Bool) :
    GivesBack kernel (undoCreate kernel si created) := by
  unfold undoCreate
  split
  · exact (setRefs_givesBack kernel si 1).trans (segUnref_givesBack _ si)
  · exact .refl kernel

theorem segPlace_givesBack (kernel : Kernel) (caller si : Nat) (created : Bool)
    (stop : Option Nat) : GivesBack kernel (segPlace board kernel caller si created stop) := by
  unfold segPlace
  dsimp only
  split
  · exact undoCreate_givesBack kernel si created
  · split
    · refine GivesBack.trans ?_ (undoCreate_givesBack _ si created)
      exact .of_same (fun _ held => held) rfl rfl
    · refine GivesBack.trans ?_ (addAttachment_givesBack _ si _ _)
      exact .of_same (fun _ held => held) rfl rfl

theorem sysSegattach_givesBack {caller size : Nat} {name : Text} {paddr stop : Option Nat}
    (stepped : sysSegattach board kernel caller name size paddr stop = some after) :
    ∃ ready, ready.segments = kernel.segments ∧ GivesBack ready after := by
  unfold sysSegattach at stepped
  split at stepped
  · cases stepped
    exact ⟨kernel, rfl, .refl kernel⟩
  · cases stepped
    exact ⟨kernel, rfl, .refl kernel⟩
  · next si found =>
      cases stepped
      exact ⟨kernel, rfl, segPlace_givesBack kernel caller si false stop⟩
  · next si pages found =>
      cases paddr with
      | none =>
        cases stepped
        exact ⟨kernel, rfl, .refl kernel⟩
      | some =>
        obtain ⟨created, made, rfl⟩ := Option.map_eq_some_iff.mp stepped
        obtain ⟨ready, taken, rfl⟩ := Option.map_eq_some_iff.mp made
        have segments : ready.segments = kernel.segments := (takePages_frame taken).2.2.1
        refine ⟨ready, segments, GivesBack.trans ?_ (segPlace_givesBack _ caller si true stop)⟩
        refine ⟨fun _ held => held, fun _ listed => listed, fun other used => .inl ?_⟩
        have different : other ≠ si := by
          rintro rfl
          rw [segments, (segLookup_create found).2.1] at used
          cases used
        simp only [update_of_ne different]
        exact .refl used

theorem sysExec_givesBack {caller : Nat} {image : List (Option Nat)} {argv : List Nat}
    (stepped : sysExec board kernel caller image argv = some after) :
    ∃ ready, ready.segments = kernel.segments ∧ GivesBack ready after := by
  obtain ⟨ready, taken, rfl⟩ := Option.map_eq_some_iff.mp stepped
  refine ⟨ready, (takePages_frame taken).2.2.1, ?_⟩
  let table := (kernel.procs caller).pageTable
  let wiped :=
    { freePages ready (ownedPages (ready.spaces table)) with
      spaces := update ready.spaces table [] }
  have freed : GivesBack ready wiped := .of_same (fun page held => (Bool.and_eq_true_iff.mp held).1) rfl rfl
  have released := freed.trans (segReleaseTable_givesBack wiped table)
  generalize segReleaseTable wiped table = last at released ⊢
  exact released.trans (.of_same (fun _ held => held) rfl rfl)

theorem procDestroy_givesBack (kernel : Kernel) (slot : Nat) :
    GivesBack kernel (procDestroy board kernel slot) := by
  unfold procDestroy
  dsimp only
  split
  · exact .of_same (fun _ held => held) rfl rfl
  · have released := segReleaseTable_givesBack kernel (kernel.procs slot).pageTable
    generalize segReleaseTable kernel (kernel.procs slot).pageTable = last at released ⊢
    refine released.trans (.of_same ?_ rfl rfl)
    intro page held
    exact (Bool.and_eq_true_iff.mp held).1

theorem step_givesBack {action : Action} (stepped : step board kernel action = some after) :
    ∃ ready, ready.segments = kernel.segments ∧ GivesBack ready after := by
  unfold step at stepped
  split at stepped
  swap
  · cases stepped
  cases action with
  | create =>
    simp only [perform, createProcess] at stepped
    split at stepped
    · cases stepped
      exact ⟨kernel, rfl, .refl kernel⟩
    · obtain ⟨ready, taken, rfl⟩ := Option.map_eq_some_iff.mp stepped
      exact ⟨ready, (takePages_frame taken).2.2.1, .of_same (fun _ held => held) rfl rfl⟩
  | rforkShared =>
    cases stepped
    refine ⟨kernel, rfl, ?_⟩
    unfold rforkShared
    split
    · exact .refl kernel
    · exact .of_same (fun _ held => held) rfl rfl
  | rforkCopy _ root =>
    simp only [perform, rforkCopy] at stepped
    split at stepped
    · cases stepped
      exact ⟨kernel, rfl, .refl kernel⟩
    split at stepped
    · cases stepped
      exact ⟨kernel, rfl, .refl kernel⟩
    split at stepped
    · cases stepped
    obtain ⟨ready, taken, rfl⟩ := Option.map_eq_some_iff.mp stepped
    refine ⟨ready, (takePages_frame taken).2.2.1, ?_⟩
    refine GivesBack.trans ?_ (segDupAttachments_givesBack _ _ root)
    exact .of_same (fun _ held => held) rfl rfl
  | exec => exact sysExec_givesBack stepped
  | destroy slot =>
    cases stepped
    exact ⟨kernel, rfl, procDestroy_givesBack kernel slot⟩
  | map =>
    cases stepped
    refine ⟨kernel, rfl, ?_⟩
    unfold sysMap
    dsimp only
    split
    · exact .refl kernel
    split
    · exact .refl kernel
    · exact .of_same (fun _ held => held) rfl rfl
  | touch =>
    simp only [perform, touch] at stepped
    split at stepped
    · cases stepped
      exact ⟨kernel, rfl, .refl kernel⟩
    split at stepped
    · cases stepped
      exact ⟨kernel, rfl, .refl kernel⟩
    split at stepped
    · cases stepped
      exact ⟨kernel, rfl, .refl kernel⟩
    obtain ⟨ready, taken, rfl⟩ := Option.map_eq_some_iff.mp stepped
    exact ⟨ready, (takePages_frame taken).2.2.1, .of_same (fun _ held => held) rfl rfl⟩
  | segattach => exact sysSegattach_givesBack stepped
  | segdetach =>
    cases stepped
    refine ⟨kernel, rfl, ?_⟩
    unfold sysSegdetach
    dsimp only
    split
    · refine GivesBack.trans ?_ (dropAttachment_givesBack _ _)
      exact .of_same (fun _ held => held) rfl rfl
    · exact .refl kernel
  | setuid =>
    cases stepped
    refine ⟨kernel, rfl, ?_⟩
    unfold sysSetuid
    split
    · exact .of_same (fun _ held => held) rfl rfl
    · exact .refl kernel

theorem step_sound (sound : Sound board none kernel) {action : Action}
    (stepped : step board kernel action = some after) : Sound board none after := by
  unfold step at stepped
  split at stepped
  · next admitted =>
    have alive : ∀ caller, action.caller = some caller →
        live board kernel.procs (kernel.procs caller).pageTable :=
      fun caller mine => live_of_used (admitted caller mine).1 (admitted caller mine).2
    cases action with
    | create => exact createProcess_sound sound stepped
    | rforkShared caller =>
      cases stepped
      exact rforkShared_sound sound (alive caller rfl)
    | rforkCopy caller => exact rforkCopy_sound sound (alive caller rfl) stepped
    | exec caller => exact sysExec_sound sound (alive caller rfl) stepped
    | destroy slot =>
      cases stepped
      exact procDestroy_sound sound (admitted slot rfl).1 (admitted slot rfl).2
    | map caller bytes =>
      cases stepped
      exact sysMap_sound sound caller bytes
    | touch => exact touch_sound sound stepped
    | segattach caller =>
      exact sysSegattach_sound sound (alive caller rfl) stepped
    | segdetach caller vaddr =>
      cases stepped
      exact sysSegdetach_sound sound caller vaddr
    | setuid caller uid =>
      cases stepped
      exact sysSetuid_sound sound caller uid
  · cases stepped

theorem run_sound (run : Reach (step board) (fun _ _ => True) boot kernel) :
    Sound board none kernel :=
  run.invariant (Sound board none) (boot_sound board) fun _ _ _ sound _ stepped =>
    step_sound sound stepped

def inUse (kernel : Kernel) (serial : Nat) : Prop :=
  ∃ si < segMax, (kernel.segments si).used ∧ (kernel.segments si).serial = serial

/-- References, attachments, pages and the leaves of running processes in agreement. -/
structure InOrder (board : Board) (kernel : Kernel) : Prop where
  counted : ∀ si < segMax, (kernel.segments si).used →
    (kernel.segments si).refs = attachCount kernel si ∧ 0 < (kernel.segments si).refs
  named : ∀ index < segAttachMax, (kernel.attachments index).used →
    (kernel.attachments index).seg < segMax ∧
      (kernel.segments (kernel.attachments index).seg).used ∧
      live board kernel.procs (kernel.attachments index).table
  kept : ∀ si < segMax, (kernel.segments si).used →
    ∀ page ∈ run (kernel.segments si).paddr (kernel.segments si).npages, kernel.taken page = true
  returnedOnce : ∀ serial < kernel.created,
    (inUse kernel serial → kernel.returned.count serial = 0) ∧
      (¬ inUse kernel serial → kernel.returned.count serial = 1)
  mapped : ∀ table vpn leaf, live board kernel.procs table → (vpn, leaf) ∈ kernel.spaces table →
    kernel.taken leaf.page = true
  shares : ∀ table vpn page, live board kernel.procs table →
    (vpn, ⟨page, true⟩) ∈ kernel.spaces table → ∃ si < segMax, (kernel.segments si).used ∧
      page ∈ run (kernel.segments si).paddr (kernel.segments si).npages ∧
      ∃ index < segAttachMax, (kernel.attachments index).used ∧
        (kernel.attachments index).seg = si ∧ (kernel.attachments index).table = table

theorem inUse_iff (serial : Nat) :
    inUse kernel serial ↔ census segMax kernel.segments (numbered serial) ≠ 0 := by
  rw [Ne, census_eq_zero, inUse]
  simp only [numbered, not_forall, not_not, exists_prop]

theorem Sound.inOrder (sound : Sound board none kernel) : InOrder board kernel := by
  have kept : ∀ si < segMax, (kernel.segments si).used →
      ∀ page ∈ run (kernel.segments si).paddr (kernel.segments si).npages,
        kernel.taken page = true := by
    intro si inside used page listed
    obtain ⟨low, high⟩ := List.mem_range'_1.mp listed
    exact sound.custody.within (.segment si) page ⟨inside, used, low, high⟩
  have shares : ∀ table vpn page, live board kernel.procs table →
      (vpn, ⟨page, true⟩) ∈ kernel.spaces table → ∃ si < segMax, (kernel.segments si).used ∧
        page ∈ run (kernel.segments si).paddr (kernel.segments si).npages ∧
        ∃ index < segAttachMax, (kernel.attachments index).used ∧
          (kernel.attachments index).seg = si ∧ (kernel.attachments index).table = table := by
    intro table vpn page alive listed
    obtain ⟨index, inside, used, here, low, high, value⟩ :=
      sound.covered table vpn page alive listed
    obtain ⟨bound, active, -⟩ := sound.named index inside used
    refine ⟨_, bound, active, List.mem_range'_1.mpr ⟨by omega, by omega⟩, index, inside, used,
      rfl, here⟩
  refine ⟨?_, sound.named, kept, ?_, ?_, shares⟩
  · intro si inside used
    obtain ⟨refs, some⟩ := sound.counted si inside (by simp) used
    exact ⟨refs, by omega⟩
  · intro serial old
    have total := sound.once serial
    rw [if_pos old] at total
    rw [inUse_iff]
    constructor
    · omega
    · omega
  · intro table vpn leaf alive listed
    obtain ⟨page, shared⟩ := leaf
    cases shared with
    | false => exact sound.custody.within (.leaf table vpn) page ⟨alive, listed⟩
    | true =>
      obtain ⟨si, inside, used, here, -⟩ := shares table vpn page alive listed
      exact kept si inside used page here

/-- In every state of every run the segments are in order, and whatever call comes next,
a segment in use stays attached or its pages go back to the allocator, once. -/
theorem segment_lifetime (run : Reach (step board) (fun _ _ => True) boot kernel) :
    InOrder board kernel ∧ ∀ action after, step board kernel action = some after →
      ∀ si < segMax, (kernel.segments si).used →
        SameSegment (kernel.segments si) (after.segments si) ∧ 0 < attachCount after si ∨
        after.returned.count (kernel.segments si).serial = 1 ∧
          ¬ inUse after (kernel.segments si).serial ∧
          ∀ page ∈ AddressSpace.run (kernel.segments si).paddr (kernel.segments si).npages,
            after.taken page = false := by
  have sound := run_sound run
  refine ⟨sound.inOrder, fun action after stepped si inside used => ?_⟩
  have later := step_sound sound stepped
  obtain ⟨ready, segments, back⟩ := step_givesBack stepped
  rw [← segments] at used ⊢
  rcases back.back si used with ⟨still, same⟩ | ⟨listed, free⟩
  · exact .inl ⟨⟨still, same⟩, (later.counted si inside (by simp) still).2⟩
  · have total := later.once (ready.segments si).serial
    have some := List.count_pos_iff.mpr listed
    refine .inr ⟨?_, ?_, free⟩
    · split at total <;> omega
    · rw [inUse_iff]
      split at total <;> omega

/-- A segment made by one process, copied to its child, and dropped by both: the last
one, which loads another image, gives the page back. -/
def afterSharing : Kernel :=
  outcome (step ⟨64, 4096, 0, 0⟩) (fun _ _ => True) boot
    [.create 1 [2, 3], .segattach 0 ['r', 'i', 'n', 'g'] 100 (some 4) none, .rforkCopy 0 5 [6, 7],
      .segdetach 0 4098]

set_option maxRecDepth 4000

theorem segment_lifetime_sharing :
    InOrder ⟨64, 4096, 0, 0⟩ afterSharing ∧ (afterSharing.segments 0).refs = 1 ∧
      ∃ after, step ⟨64, 4096, 0, 0⟩ afterSharing (.exec 1 [some 8] []) = some after ∧
        after.returned.count 0 = 1 ∧ after.taken 4 = false := by
  have reached : Reach (step ⟨64, 4096, 0, 0⟩) (fun _ _ => True) boot afterSharing :=
    outcome_reach _ _ (by decide)
  have lifetime := segment_lifetime reached
  let loaded := step ⟨64, 4096, 0, 0⟩ afterSharing (.exec 1 [some 8] [])
  have gone : loaded.map (fun after => (after.segments 0).used) = some false := by decide
  obtain ⟨after, stepped, unused⟩ := Option.map_eq_some_iff.mp gone
  refine ⟨lifetime.1, by decide, after, stepped, ?_⟩
  have used : (afterSharing.segments 0).used = true := by decide
  have serial : (afterSharing.segments 0).serial = 0 := by decide
  have page : 4 ∈ AddressSpace.run (afterSharing.segments 0).paddr
      (afterSharing.segments 0).npages := by decide
  rcases lifetime.2 _ after stepped 0 (by decide) used with ⟨⟨still, -⟩, -⟩ | ⟨once, -, free⟩
  · rw [unused] at still
    cases still
  · rw [serial] at once
    exact ⟨once, free 4 page⟩

end Racccoon.AddressSpace
