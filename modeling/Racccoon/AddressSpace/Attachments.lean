import Racccoon.AddressSpace.Pages

/-!
The loops over the attachment table, and processes and leaves as they come and go:
what each keeps of a sound kernel.
-/

namespace Racccoon.AddressSpace
open Function (update update_self update_of_ne)

open Census Custody

variable {board : Board} {kernel after : Kernel} {except : Option Nat} {si table : Nat}

theorem segUnref_attachments (kernel : Kernel) (si : Nat) :
    (segUnref kernel si).attachments = kernel.attachments := by
  unfold segUnref
  dsimp only
  split <;> rfl

/-- Processes, their leaves and the ranges they were handed stay as they are. -/
structure Undisturbed (kernel after : Kernel) : Prop where
  procs : after.procs = kernel.procs
  spaces : after.spaces = kernel.spaces
  handed : after.handed = kernel.handed
  highWater : after.highWater = kernel.highWater

theorem Undisturbed.refl (kernel : Kernel) : Undisturbed kernel kernel := ⟨rfl, rfl, rfl, rfl⟩

theorem Undisturbed.trans {middle : Kernel} (first : Undisturbed kernel middle)
    (second : Undisturbed middle after) : Undisturbed kernel after :=
  ⟨second.procs.trans first.procs, second.spaces.trans first.spaces,
    second.handed.trans first.handed, second.highWater.trans first.highWater⟩

theorem Undisturbed.rounds {round : Kernel → Nat → Kernel}
    (once : ∀ kernel index, Undisturbed kernel (round kernel index)) (indices : List Nat)
    (kernel : Kernel) : Undisturbed kernel (indices.foldl round kernel) := by
  induction indices generalizing kernel with
  | nil => exact .refl kernel
  | cons index _ ih => exact (once kernel index).trans (ih (round kernel index))

theorem takePages_undisturbed {pages : List Nat} (done : takePages kernel pages = some after) :
    Undisturbed kernel after := by
  obtain ⟨-, -, rfl⟩ := takePages_some done
  exact ⟨rfl, rfl, rfl, rfl⟩

theorem segUnref_undisturbed (kernel : Kernel) (si : Nat) :
    Undisturbed kernel (segUnref kernel si) := by
  unfold segUnref
  dsimp only
  split <;> exact ⟨rfl, rfl, rfl, rfl⟩

theorem dropAttachment_undisturbed (kernel : Kernel) (index : Nat) :
    Undisturbed kernel (dropAttachment kernel index) := by
  refine Undisturbed.trans ?_ (segUnref_undisturbed _ _)
  exact ⟨rfl, rfl, rfl, rfl⟩

theorem segReleaseTable_undisturbed (kernel : Kernel) (table : Nat) :
    Undisturbed kernel (segReleaseTable kernel table) := by
  apply Undisturbed.rounds
  intro kernel index
  split
  · exact dropAttachment_undisturbed kernel index
  · exact .refl kernel

theorem addAttachment_undisturbed (kernel : Kernel) (si table vaddr : Nat) :
    Undisturbed kernel (addAttachment kernel si table vaddr) := by
  unfold addAttachment
  split <;> exact ⟨rfl, rfl, rfl, rfl⟩

theorem segDupAttachments_undisturbed (kernel : Kernel) (parent child : Nat) :
    Undisturbed kernel (segDupAttachments kernel parent child) := by
  apply Undisturbed.rounds
  intro kernel index
  split
  · exact addAttachment_undisturbed kernel _ child _
  · exact .refl kernel

theorem dropAttachment_commutes (kernel : Kernel) (index : Nat) (spaces : Nat → Space) :
    dropAttachment { kernel with spaces := spaces } index =
      { dropAttachment kernel index with spaces := spaces } := by
  unfold dropAttachment segUnref
  dsimp only
  split <;> rfl

/-- One round of `seg_release_table`. -/
def releaseAt (table : Nat) (kernel : Kernel) (index : Nat) : Kernel :=
  if attached kernel table index then dropAttachment kernel index else kernel

theorem releaseAt_commutes (kernel : Kernel) (table index : Nat) (spaces : Nat → Space) :
    releaseAt table { kernel with spaces := spaces } index =
      { releaseAt table kernel index with spaces := spaces } := by
  unfold releaseAt
  have same : attached { kernel with spaces := spaces } table index =
      attached kernel table index := rfl
  rw [same]
  split
  · exact dropAttachment_commutes kernel index spaces
  · rfl

theorem segReleaseTable_commutes (kernel : Kernel) (table : Nat) (spaces : Nat → Space) :
    segReleaseTable { kernel with spaces := spaces } table =
      { segReleaseTable kernel table with spaces := spaces } := by
  have rounds : ∀ (indices : List Nat) (kernel : Kernel),
      indices.foldl (releaseAt table) { kernel with spaces := spaces } =
        { indices.foldl (releaseAt table) kernel with spaces := spaces } := by
    intro indices
    induction indices with
    | nil => exact fun _ => rfl
    | cons _ _ ih =>
      intro kernel
      rw [List.foldl_cons, List.foldl_cons, releaseAt_commutes, ih]
  exact rounds (List.range segAttachMax) kernel

theorem attached_iff (index : Nat) : attached kernel table index = true ↔
    (kernel.attachments index).used = true ∧ (kernel.attachments index).table = table := by
  simp [attached]

variable {page index slot vpn : Nat}

theorem segUnref_holds {holder : Holder} (held : Holds board (segUnref kernel si) holder page) :
    Holds board kernel holder page := by
  obtain ⟨procs, spaces, -⟩ := segUnref_undisturbed kernel si
  rcases holder with root | ⟨root, vpn⟩ | other
  · simpa only [Holds, procs] using held
  · simpa only [Holds, procs, spaces] using held
  · unfold segUnref at held
    dsimp only at held
    split at held
    · by_cases same : other = si
      · subst same
        simp [Holds] at held
      · simpa only [Holds, update_of_ne same] using held
    · have fields := recounted_fields kernel.segments si ((kernel.segments si).refs - 1)
      simpa only [Holds, fields] using held

theorem segUnref_spare (inside : si < segMax) (used : (kernel.segments si).used)
    (spare : SparePage board kernel page) : SparePage board (segUnref kernel si) page := by
  have outside : page ∉ run (kernel.segments si).paddr (kernel.segments si).npages := by
    intro listed
    obtain ⟨low, high⟩ := List.mem_range'_1.mp listed
    exact spare.2 (.segment si) ⟨inside, used, low, high⟩
  have within : kernel.taken page = true := spare.1
  refine ⟨?_, fun holder held => spare.2 holder (segUnref_holds held)⟩
  unfold segUnref
  dsimp only
  split
  · simp [isTaken, freePages, within, outside]
  · exact within

theorem holds_attachments (attachments : Nat → SegAttach) :
    Holds board { kernel with attachments := attachments } = Holds board kernel := by
  funext holder page
  cases holder <;> rfl

theorem dropAttachment_holds {holder : Holder}
    (held : Holds board (dropAttachment kernel index) holder page) :
    Holds board kernel holder page := by
  rw [← holds_attachments]
  exact segUnref_holds held

theorem dropAttachment_spare (inside : (kernel.attachments index).seg < segMax)
    (used : (kernel.segments (kernel.attachments index).seg).used)
    (spare : SparePage board kernel page) : SparePage board (dropAttachment kernel index) page := by
  refine segUnref_spare ?_ ?_ ⟨spare.1, ?_⟩
  · exact inside
  · exact used
  · exact spare.2

/-- What a teardown has done to the attachments of an address space without leaves. -/
structure Released (board : Board) (kernel after : Kernel) (table : Nat) (indices : List Nat) :
    Prop where
  sound : Sound board none after
  procs : after.procs = kernel.procs
  spaces : after.spaces = kernel.spaces
  fewer : ∀ index, attached after table index → attached kernel table index ∧ index ∉ indices
  holds : ∀ holder page, Holds board after holder page → Holds board kernel holder page
  spare : ∀ page, SparePage board kernel page → SparePage board after page

theorem release_round (sound : Sound board none kernel) (empty : kernel.spaces table = [])
    (inside : index < segAttachMax) :
    Released board kernel (releaseAt table kernel index) table [index] := by
  unfold releaseAt
  split
  · next held =>
      obtain ⟨used, here⟩ := (attached_iff index).mp held
      obtain ⟨bound, active, -⟩ := sound.named index inside used
      obtain ⟨procs, spaces, -⟩ := dropAttachment_undisturbed kernel index
      refine ⟨sound.detach inside used ?_, procs, spaces, ?_, fun _ _ => dropAttachment_holds, ?_⟩
      · intro root vpn page alive listed
        obtain ⟨other, covers⟩ := sound.covered root vpn page alive listed
        refine ⟨other, ?_, covers⟩
        rintro rfl
        have same : root = table := covers.2.2.1.symm.trans here
        rw [same, empty] at listed
        cases listed
      · intro other still
        rw [attached_iff, dropAttachment, segUnref_attachments] at still
        by_cases same : other = index
        · subst same
          simp at still
        · simp only [update_of_ne same] at still
          exact ⟨(attached_iff other).mpr still, by simpa using same⟩
      · intro page spare
        exact dropAttachment_spare bound active spare
  · next loose =>
      refine ⟨sound, rfl, rfl, ?_, fun _ _ held => held, fun _ spare => spare⟩
      intro other still
      refine ⟨still, ?_⟩
      intro same
      rw [List.mem_singleton.mp same] at still
      exact loose still

theorem Released.trans {middle : Kernel} {first rest : List Nat}
    (before : Released board kernel middle table first)
    (later : Released board middle after table rest) :
    Released board kernel after table (first ++ rest) := by
  refine ⟨later.sound, later.procs.trans before.procs, later.spaces.trans before.spaces, ?_,
    fun holder page held => before.holds holder page (later.holds holder page held), ?_⟩
  · intro index still
    obtain ⟨held, outside⟩ := later.fewer index still
    obtain ⟨held, apart⟩ := before.fewer index held
    exact ⟨held, by simp [apart, outside]⟩
  · intro page spare
    exact later.spare page (before.spare page spare)

theorem release_rounds (indices : List Nat) (inside : ∀ index ∈ indices, index < segAttachMax)
    (sound : Sound board none kernel) (empty : kernel.spaces table = []) :
    Released board kernel (indices.foldl (releaseAt table) kernel) table indices := by
  induction indices generalizing kernel with
  | nil =>
    exact ⟨sound, rfl, rfl, fun index still => ⟨still, by simp⟩, fun _ _ held => held,
      fun _ spare => spare⟩
  | cons index _ ih =>
    have first := release_round sound empty (inside index (by simp))
    have later := ih (fun other listed => inside other (by simp [listed])) first.sound
      (first.spaces ▸ empty)
    exact first.trans later

theorem release_all (sound : Sound board none kernel) (empty : kernel.spaces table = []) :
    Released board kernel (segReleaseTable kernel table) table (List.range segAttachMax) :=
  release_rounds _ (fun _ listed => List.mem_range.mp listed) sound empty

theorem tableShared_iff (slot : Nat) : tableShared board kernel slot = true ↔
    ∃ other < board.procsMax, other ≠ slot ∧ (kernel.procs other).used = true ∧
      (kernel.procs other).pageTable = (kernel.procs slot).pageTable := by
  simp [tableShared, and_assoc]

variable {proc : Proc}

theorem live_update_unused {procs : Nat → Proc} (gone : proc.used = false)
    (alive : live board (update procs slot proc) table) : live board procs table := by
  obtain ⟨owner, inside, used, here⟩ := alive
  by_cases same : owner = slot
  · subst same
    simp [gone] at used
  · simp only [update_of_ne same] at used here
    exact ⟨owner, inside, used, here⟩

theorem holds_kill (gone : proc.used = false) {holder : Holder}
    (held : Holds board { kernel with procs := update kernel.procs slot proc } holder page) :
    Holds board kernel holder page := by
  rcases holder with root | ⟨root, vpn⟩ | si
  · exact ⟨live_update_unused gone held.1, held.2⟩
  · exact ⟨live_update_unused gone held.1, held.2⟩
  · exact held

/-- A process goes: its address space has other processes, or no attachments left. -/
theorem Sound.kill (sound : Sound board none kernel) (gone : proc.used = false)
    (clean : tableShared board kernel slot = true ∨ ∀ index < segAttachMax,
      ¬ attached kernel (kernel.procs slot).pageTable index) :
    Sound board none { kernel with procs := update kernel.procs slot proc } := by
  refine ⟨sound.custody.shrink (fun _ _ => holds_kill gone) fun _ _ _ within => within, ?_,
    sound.counted, ?_, sound.once⟩
  · intro index inside used
    obtain ⟨bound, active, owner, low, running, here⟩ := sound.named index inside used
    refine ⟨bound, active, ?_⟩
    by_cases same : owner = slot
    · subst same
      rcases clean with shared | none
      · obtain ⟨other, small, apart, alive, there⟩ := (tableShared_iff owner).mp shared
        refine ⟨other, small, ?_, ?_⟩
        · simpa only [update_of_ne apart] using alive
        · simpa only [update_of_ne apart] using there.trans here
      · exact absurd ((attached_iff index).mpr ⟨used, here.symm⟩) (none index inside)
    · refine ⟨owner, low, ?_, ?_⟩
      · simpa only [update_of_ne same] using running
      · simpa only [update_of_ne same] using here
  · intro root vpn page alive listed
    exact sound.covered root vpn page (live_update_unused gone alive) listed

/-- A process comes, in an address space there is or in an empty one on a spare page. -/
theorem Sound.spawn (sound : Sound board none kernel) (unused : (kernel.procs slot).used = false)
    (room : live board kernel.procs proc.pageTable ∨
      SparePage board kernel proc.pageTable ∧ kernel.spaces proc.pageTable = []) :
    Sound board none { kernel with procs := update kernel.procs slot proc } := by
  have more : ∀ table, live board kernel.procs table →
      live board (update kernel.procs slot proc) table := by
    rintro table ⟨owner, inside, used, here⟩
    have apart : owner ≠ slot := by
      rintro rfl
      rw [unused] at used
      cases used
    exact ⟨owner, inside, by simpa [apart] using used, by simpa [apart] using here⟩
  have fewer : ∀ table, live board (update kernel.procs slot proc) table →
      live board kernel.procs table ∨
        SparePage board kernel table ∧ kernel.spaces table = [] := by
    rintro table ⟨owner, inside, used, here⟩
    by_cases same : owner = slot
    · subst same
      simp only [update_self] at here
      subst here
      exact room
    · simp only [update_of_ne same] at used here
      exact .inl ⟨owner, inside, used, here⟩
  refine ⟨sound.custody.hand ?_ ?_, ?_, sound.counted, ?_, sound.once⟩
  · rintro (root | ⟨root, vpn⟩ | si) page held
    · obtain ⟨alive, rfl⟩ := held
      exact (fewer page alive).imp (fun old => ⟨old, rfl⟩) fun fresh => fresh.1
    · obtain ⟨alive, listed⟩ := held
      rcases fewer root alive with old | ⟨-, empty⟩
      · exact .inl ⟨old, listed⟩
      · simp [empty] at listed
    · exact .inl held
  · -- a spare page can only have become the root of the new address space
    have here : ∀ holder page, SparePage board kernel page →
        Holds board { kernel with procs := update kernel.procs slot proc } holder page →
        holder = .root page := by
      rintro (root | ⟨root, vpn⟩ | si) page spare held
      · rw [held.2]
      · obtain ⟨alive, listed⟩ := held
        rcases fewer root alive with old | ⟨-, empty⟩
        · exact absurd ⟨old, listed⟩ (spare.2 (.leaf root vpn))
        · simp [empty] at listed
      · exact absurd held (spare.2 (.segment si))
    intro holder other page spare held again
    rw [here holder page spare held, here other page spare again]
  · intro index inside used
    obtain ⟨bound, active, alive⟩ := sound.named index inside used
    exact ⟨bound, active, more _ alive⟩
  · intro root vpn page alive listed
    rcases fewer root alive with old | ⟨-, empty⟩
    · exact sound.covered root vpn page old listed
    · simp [empty] at listed

/-- One round of `seg_dup_attachments`. -/
def dupAt (parent child : Nat) (kernel : Kernel) (index : Nat) : Kernel :=
  let attach := kernel.attachments index
  if attached kernel parent index then addAttachment kernel attach.seg child attach.vaddr
  else kernel

structure Copied (board : Board) (kernel after : Kernel) (parent child : Nat)
    (indices : List Nat) : Prop where
  sound : Sound board none after
  procs : after.procs = kernel.procs
  spaces : after.spaces = kernel.spaces
  taken : after.taken = kernel.taken
  segments : ∀ si, (after.segments si).used = (kernel.segments si).used ∧
    (after.segments si).paddr = (kernel.segments si).paddr ∧
    (after.segments si).npages = (kernel.segments si).npages
  kept : ∀ index, (kernel.attachments index).used →
    after.attachments index = kernel.attachments index
  original : ∀ index, attached after parent index = attached kernel parent index
  room : segAttachFreeSlots kernel =
    segAttachFreeSlots after + indices.countP (attached kernel parent)
  copied : ∀ index ∈ indices, attached kernel parent index → ∃ copy < segAttachMax,
    after.attachments copy =
      ⟨true, (kernel.attachments index).seg, child, (kernel.attachments index).vaddr⟩

theorem freeSlots_census (kernel : Kernel) : segAttachFreeSlots kernel =
    census segAttachMax kernel.attachments fun attach => attach.used = false := by
  rw [← countP_census, segAttachFreeSlots]
  congr 1
  funext index
  cases (kernel.attachments index).used <;> rfl

theorem addAttachment_eq (found : freeAttachment kernel = some index) (table vaddr : Nat) :
    addAttachment kernel si table vaddr =
      { kernel with
        attachments := update kernel.attachments index ⟨true, si, table, vaddr⟩
        segments := update kernel.segments si
          { kernel.segments si with refs := (kernel.segments si).refs + 1 } } := by
  rw [addAttachment, found]

theorem dup_round {parent child : Nat} (sound : Sound board none kernel)
    (alive : live board kernel.procs child) (apart : parent ≠ child) (inside : index < segAttachMax)
    (room : [index].countP (attached kernel parent) ≤ segAttachFreeSlots kernel) :
    Copied board kernel (dupAt parent child kernel index) parent child [index] := by
  unfold dupAt
  by_cases held : attached kernel parent index = true
  · rw [if_pos held]
    rw [List.countP_singleton, if_pos held] at room
    obtain ⟨used, here⟩ := (attached_iff index).mp held
    obtain ⟨bound, active, -⟩ := sound.named index inside used
    obtain ⟨counted, -⟩ := sound.counted _ bound (by simp) active
    have left : segAttachFreeSlots kernel ≠ 0 := by omega
    obtain ⟨slot, found⟩ := freeAttachment_exists left
    obtain ⟨low, unused⟩ := freeAttachment_some found
    have gained := Sound.attach (sound.relax (some (kernel.attachments index).seg)) bound active
      alive counted left (kernel.attachments index).vaddr
    rw [addAttachment_eq found] at gained ⊢
    have fields := recounted_fields kernel.segments (kernel.attachments index).seg
      ((kernel.segments (kernel.attachments index).seg).refs + 1)
    refine ⟨gained, rfl, rfl, rfl, fun si => ?_, ?_, ?_, ?_, ?_⟩
    · exact ⟨(fields si).1, (fields si).2.1, (fields si).2.2.1⟩
    · intro other busy
      have different : other ≠ slot := by
        rintro rfl
        rw [unused] at busy
        cases busy
      simp only [update_of_ne different]
    · intro other
      by_cases same : other = slot
      · subst same
        simp [attached, unused, apart.symm]
      · simp [attached, same]
    · rw [List.countP_singleton, if_pos held, freeSlots_census, freeSlots_census]
      exact (census_update_loss slot low _ unused (by simp)).symm
    · intro other listed _
      rw [List.mem_singleton.mp listed]
      exact ⟨slot, low, by simp⟩
  · rw [if_neg held]
    refine ⟨sound, rfl, rfl, rfl, fun _ => ⟨rfl, rfl, rfl⟩, fun _ _ => rfl, fun _ => rfl, ?_, ?_⟩
    · simp [held]
    · intro other listed still
      rw [List.mem_singleton.mp listed] at still
      exact absurd still held

theorem Copied.trans {middle : Kernel} {parent child : Nat} {first rest : List Nat}
    (before : Copied board kernel middle parent child first)
    (later : Copied board middle after parent child rest) :
    Copied board kernel after parent child (first ++ rest) := by
  have same : attached middle parent = attached kernel parent := funext before.original
  have still : ∀ index, attached kernel parent index →
      middle.attachments index = kernel.attachments index :=
    fun index held => before.kept index ((attached_iff index).mp held).1
  refine ⟨later.sound, later.procs.trans before.procs, later.spaces.trans before.spaces,
    later.taken.trans before.taken, fun si => ?_, ?_, ?_, ?_, ?_⟩
  · obtain ⟨used, paddr, npages⟩ := before.segments si
    obtain ⟨usedLater, paddrLater, npagesLater⟩ := later.segments si
    exact ⟨usedLater.trans used, paddrLater.trans paddr, npagesLater.trans npages⟩
  · intro index used
    have first := before.kept index used
    exact (later.kept index (first ▸ used)).trans first
  · intro index
    rw [later.original, before.original]
  · have first := before.room
    have rest := later.room
    rw [same] at rest
    rw [List.countP_append]
    omega
  · intro index listed held
    rcases List.mem_append.mp listed with here | here
    · obtain ⟨copy, low, copied⟩ := before.copied index here held
      exact ⟨copy, low, (later.kept copy (by rw [copied])).trans copied⟩
    · obtain ⟨copy, low, copied⟩ := later.copied index here (same ▸ held)
      rw [still index held] at copied
      exact ⟨copy, low, copied⟩

theorem dup_rounds {parent child : Nat} (indices : List Nat)
    (inside : ∀ index ∈ indices, index < segAttachMax) (sound : Sound board none kernel)
    (alive : live board kernel.procs child) (apart : parent ≠ child)
    (room : indices.countP (attached kernel parent) ≤ segAttachFreeSlots kernel) :
    Copied board kernel (indices.foldl (dupAt parent child) kernel) parent child indices := by
  induction indices generalizing kernel with
  | nil =>
    refine ⟨sound, rfl, rfl, rfl, fun _ => ⟨rfl, rfl, rfl⟩, fun _ _ => rfl, fun _ => rfl, rfl, ?_⟩
    simp
  | cons index _ ih =>
    rw [← List.singleton_append, List.countP_append] at room
    have first := dup_round sound alive apart (inside index (by simp)) (by omega)
    have same : attached (dupAt parent child kernel index) parent = attached kernel parent :=
      funext first.original
    have left := first.room
    refine first.trans (ih (fun other listed => inside other (by simp [listed])) first.sound
      (first.procs ▸ alive) ?_)
    rw [same]
    omega

theorem dup_all {parent child : Nat} (sound : Sound board none kernel)
    (alive : live board kernel.procs child) (apart : parent ≠ child)
    (room : segAttachmentsOf kernel parent ≤ segAttachFreeSlots kernel) :
    Copied board kernel (segDupAttachments kernel parent child) parent child
      (List.range segAttachMax) :=
  dup_rounds _ (fun _ listed => List.mem_range.mp listed) sound alive apart room

theorem dupAt_commutes (kernel : Kernel) (parent child index : Nat) (spaces : Nat → Space) :
    dupAt parent child { kernel with spaces := spaces } index =
      { dupAt parent child kernel index with spaces := spaces } := by
  have same : attached { kernel with spaces := spaces } parent index =
      attached kernel parent index := rfl
  have free : freeAttachment { kernel with spaces := spaces } = freeAttachment kernel := rfl
  unfold dupAt
  rw [same]
  split
  · unfold addAttachment
    rw [free]
    split <;> rfl
  · rfl

theorem segDupAttachments_commutes (kernel : Kernel) (parent child : Nat)
    (spaces : Nat → Space) :
    segDupAttachments { kernel with spaces := spaces } parent child =
      { segDupAttachments kernel parent child with spaces := spaces } := by
  have rounds : ∀ (indices : List Nat) (kernel : Kernel),
      indices.foldl (dupAt parent child) { kernel with spaces := spaces } =
        { indices.foldl (dupAt parent child) kernel with spaces := spaces } := by
    intro indices
    induction indices with
    | nil => exact fun _ => rfl
    | cons _ _ ih =>
      intro kernel
      rw [List.foldl_cons, List.foldl_cons, dupAt_commutes, ih]
  exact rounds (List.range segAttachMax) kernel

variable {space : Space}
variable {entry : Nat × Leaf}

theorem mem_clearLeaf : entry ∈ clearLeaf space vpn ↔ entry ∈ space ∧ entry.1 ≠ vpn := by
  simp [clearLeaf]

theorem mem_clearRange {base pages : Nat} :
    entry ∈ clearRange space base pages ↔
      entry ∈ space ∧ ¬ (base ≤ entry.1 ∧ entry.1 < base + pages) := by
  have swept : ∀ (vpns : List Nat) (space : Space),
      entry ∈ vpns.foldl clearLeaf space ↔ entry ∈ space ∧ entry.1 ∉ vpns := by
    intro vpns
    induction vpns with
    | nil => simp
    | cons _ _ ih =>
      intro space
      rw [List.foldl_cons, ih, mem_clearLeaf, List.mem_cons, not_or, and_assoc]
  rw [clearRange, swept, run, List.mem_range'_1]

theorem mem_mapLeaf {leaf : Leaf} (listed : entry ∈ mapLeaf space vpn leaf) :
    entry = (vpn, leaf) ∨ entry ∈ space := by
  rcases List.mem_cons.mp listed with here | there
  · exact .inl here
  · exact .inr (mem_clearLeaf.mp there).1

/-- What is found after mapping consecutive pages was there before or is one of them. -/
theorem mem_mapLeaves {pages : List Nat} {base : Nat} {shared : Bool}
    (listed : entry ∈ mapLeaves space base shared pages) :
    entry ∈ space ∨ ∃ k, pages[k]? = some entry.2.page ∧ entry.1 = base + k ∧
      entry.2.shared = shared := by
  induction pages generalizing space base with
  | nil => exact .inl listed
  | cons _ _ ih =>
    rcases ih listed with old | ⟨k, found, place, mode⟩
    · rcases mem_mapLeaf old with rfl | old
      · exact .inr ⟨0, rfl, rfl, rfl⟩
      · exact .inl old
    · exact .inr ⟨k + 1, found, by omega, mode⟩

theorem mem_ownedPages : page ∈ ownedPages space ↔ ∃ vpn, (vpn, ⟨page, false⟩) ∈ space := by
  rw [ownedPages, List.mem_filterMap]
  constructor
  · rintro ⟨⟨vpn, leaf⟩, listed, owned⟩
    obtain ⟨paddr, shared⟩ := leaf
    cases shared
    · cases owned
      exact ⟨vpn, listed⟩
    · cases owned
  · rintro ⟨vpn, listed⟩
    exact ⟨_, listed, rfl⟩

/-- The leaves of a copy: what was shared still is, what was owned has a page of its
own. -/
theorem mem_copySpace {copies : List Nat} {shared : Bool}
    (enough : copies.length = (ownedPages space).length)
    (listed : (vpn, ⟨page, shared⟩) ∈ copySpace space copies) :
    shared = true ∧ (vpn, ⟨page, true⟩) ∈ space ∨ shared = false ∧ page ∈ copies := by
  induction space generalizing copies with
  | nil => simp [copySpace] at listed
  | cons entry rest ih =>
    obtain ⟨place, paddr, mode⟩ := entry
    cases mode with
    | true =>
      simp only [copySpace, ↓reduceIte, List.mem_cons] at listed
      rcases listed with ⟨rfl, rfl, rfl⟩ | later
      · exact .inl ⟨rfl, List.mem_cons_self⟩
      · exact (ih enough later).imp_left fun ⟨mode, old⟩ => ⟨mode, List.mem_cons_of_mem _ old⟩
    | false =>
      have more : ownedPages ((place, ⟨paddr, false⟩) :: rest) = paddr :: ownedPages rest := by
        simp [ownedPages]
      rw [more] at enough
      cases copies with
      | nil => simp at enough
      | cons =>
        simp only [List.length_cons, Nat.add_right_cancel_iff] at enough
        simp only [copySpace, Bool.false_eq_true, ↓reduceIte, List.mem_cons] at listed
        rcases listed with ⟨rfl, rfl, rfl⟩ | later
        · exact .inr ⟨rfl, List.mem_cons_self⟩
        · rcases ih enough later with ⟨mode, old⟩ | ⟨mode, given⟩
          · exact .inl ⟨mode, List.mem_cons_of_mem _ old⟩
          · exact .inr ⟨mode, List.mem_cons_of_mem _ given⟩

/-- Each page of the copy is at one place. -/
theorem copySpace_once {copies : List Nat} {other : Nat}
    (enough : copies.length = (ownedPages space).length) (distinct : copies.Nodup)
    (listed : (vpn, ⟨page, false⟩) ∈ copySpace space copies)
    (again : (other, ⟨page, false⟩) ∈ copySpace space copies) : vpn = other := by
  induction space generalizing copies with
  | nil => simp [copySpace] at listed
  | cons entry rest ih =>
    obtain ⟨place, paddr, mode⟩ := entry
    cases mode with
    | true =>
      simp only [copySpace, ↓reduceIte, List.mem_cons, Prod.mk.injEq, Leaf.mk.injEq,
        Bool.false_eq_true, and_false, false_or] at listed again
      exact ih enough distinct listed again
    | false =>
      have more : ownedPages ((place, ⟨paddr, false⟩) :: rest) = paddr :: ownedPages rest := by
        simp [ownedPages]
      rw [more] at enough
      cases copies with
      | nil => simp at enough
      | cons copy others =>
        obtain ⟨apart, distinct⟩ := List.nodup_cons.mp distinct
        simp only [List.length_cons, Nat.add_right_cancel_iff] at enough
        simp only [copySpace, Bool.false_eq_true, ↓reduceIte, List.mem_cons, Prod.mk.injEq, Leaf.mk.injEq, and_true] at listed again
        have later : ∀ place, (place, ⟨page, false⟩) ∈ copySpace rest others → page ≠ copy := by
          rintro place found rfl
          rcases mem_copySpace enough found with ⟨mode, -⟩ | ⟨-, given⟩
          · cases mode
          · exact apart given
        rcases listed with ⟨rfl, here⟩ | found
        · rcases again with ⟨rfl, -⟩ | refound
          · rfl
          · exact absurd here (later other refound)
        · rcases again with ⟨-, here⟩ | refound
          · exact absurd here (later vpn found)
          · exact ih enough distinct found refound

end Racccoon.AddressSpace
