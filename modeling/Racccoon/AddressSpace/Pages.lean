import Racccoon.Lib.Census
import Racccoon.Lib.Custody
import Racccoon.AddressSpace.Model

/-!
Who holds which physical page, and what keeps the segment table in order. `Sound` may
leave one segment out of the count: the one whose reference is about to change.
-/

namespace Racccoon.AddressSpace
open Function (update update_self update_of_ne)

open Census Custody

inductive Holder where
  | root (table : Nat)
  | leaf (table vpn : Nat)
  | segment (si : Nat)

variable (board : Board)

def live (procs : Nat → Proc) (table : Nat) : Prop :=
  ∃ slot < board.procsMax, (procs slot).used ∧ (procs slot).pageTable = table

variable (kernel : Kernel)

def Holds : Holder → Nat → Prop
  | .root table, page => live board kernel.procs table ∧ page = table
  | .leaf table vpn, page => live board kernel.procs table ∧ (vpn, ⟨page, false⟩) ∈ kernel.spaces table
  | .segment si, page => si < segMax ∧ (kernel.segments si).used ∧
      (kernel.segments si).paddr ≤ page ∧
      page < (kernel.segments si).paddr + (kernel.segments si).npages

abbrev isTaken (page : Nat) : Prop := kernel.taken page = true

abbrev SparePage (page : Nat) : Prop :=
  Spare (Holds board kernel) (isTaken kernel) page

def names (si : Nat) (attach : SegAttach) : Prop := attach.used ∧ attach.seg = si

instance (si : Nat) : DecidablePred (names si) :=
  fun attach => inferInstanceAs (Decidable (attach.used = true ∧ attach.seg = si))

def attachCount (si : Nat) : Nat :=
  census segAttachMax kernel.attachments (names si)

def numbered (serial : Nat) (sg : Segment) : Prop := sg.used ∧ sg.serial = serial

instance (serial : Nat) : DecidablePred (numbered serial) :=
  fun sg => inferInstanceAs (Decidable (sg.used = true ∧ sg.serial = serial))

/-- The attachment in one slot of the table accounts for a shared leaf. -/
def CoversAt (index table vpn page : Nat) : Prop :=
  index < segAttachMax ∧ (kernel.attachments index).used ∧
    (kernel.attachments index).table = table ∧ (kernel.attachments index).vaddr ≤ vpn ∧
    vpn < (kernel.attachments index).vaddr +
      (kernel.segments (kernel.attachments index).seg).npages ∧
    page = (kernel.segments (kernel.attachments index).seg).paddr +
      (vpn - (kernel.attachments index).vaddr)

structure Sound (except : Option Nat) (kernel : Kernel) : Prop where
  custody : Exclusive (Holds board kernel) (isTaken kernel)
  named : ∀ index < segAttachMax, (kernel.attachments index).used →
    (kernel.attachments index).seg < segMax ∧
      (kernel.segments (kernel.attachments index).seg).used ∧
      live board kernel.procs (kernel.attachments index).table
  counted : ∀ si < segMax, except ≠ some si → (kernel.segments si).used →
    (kernel.segments si).refs = attachCount kernel si ∧ 0 < attachCount kernel si
  covered : ∀ table vpn page, live board kernel.procs table →
    (vpn, ⟨page, true⟩) ∈ kernel.spaces table → ∃ index, CoversAt kernel index table vpn page
  once : ∀ serial, census segMax kernel.segments (numbered serial) +
    kernel.returned.count serial = if serial < kernel.created then 1 else 0

variable {board} {kernel after : Kernel} {except : Option Nat} {si table : Nat}

theorem boot_sound (board : Board) : Sound board none boot := by
  have nobody : ∀ table, ¬ live board boot.procs table := by
    rintro table ⟨slot, -, used, -⟩
    cases used
  refine ⟨⟨?_, ?_⟩, ?_, ?_, ?_, ?_⟩
  · rintro (table | ⟨table, vpn⟩ | si) page held
    · exact absurd held.1 (nobody table)
    · exact absurd held.1 (nobody table)
    · cases held.2.1
  · rintro (table | ⟨table, vpn⟩ | si) other page held _
    · exact absurd held.1 (nobody table)
    · exact absurd held.1 (nobody table)
    · cases held.2.1
  · intro index _ used
    cases used
  · intro si _ _ used
    cases used
  · intro table vpn page alive _
    exact absurd alive (nobody table)
  · intro serial
    rfl

theorem Sound.relax (sound : Sound board none kernel) (except : Option Nat) :
    Sound board except kernel :=
  ⟨sound.custody, sound.named, fun si inside _ => sound.counted si inside (by simp),
    sound.covered, sound.once⟩

/-- What the soundness of a kernel reads of it. -/
structure SameMemory (board : Board) (kernel after : Kernel) : Prop where
  live : ∀ table, live board after.procs table ↔ AddressSpace.live board kernel.procs table
  spaces : after.spaces = kernel.spaces
  segments : after.segments = kernel.segments
  attachments : after.attachments = kernel.attachments
  taken : after.taken = kernel.taken
  created : after.created = kernel.created
  returned : after.returned = kernel.returned

theorem SameMemory.sound (same : SameMemory board kernel after)
    (sound : Sound board except kernel) : Sound board except after := by
  obtain ⟨alive, spaces, segments, attachments, taken, created, returned⟩ := same
  have holds : Holds board after = Holds board kernel := by
    funext holder page
    cases holder <;> simp only [Holds, alive, spaces, segments]
  obtain ⟨custody, named, counted, covered, once⟩ := sound
  refine ⟨?_, ?_, ?_, ?_, ?_⟩
  · unfold isTaken
    rw [holds, taken]
    exact custody
  · simpa only [attachments, segments, alive] using named
  · simpa only [attachCount, attachments, segments] using counted
  · simpa only [CoversAt, attachments, segments, alive, spaces] using covered
  · simpa only [segments, returned, created] using once

theorem takePages_some {pages : List Nat} (done : takePages kernel pages = some after) :
    pages.Nodup ∧ (∀ page ∈ pages, kernel.taken page = false) ∧
      after = { kernel with taken := fun page => kernel.taken page || page ∈ pages } := by
  unfold takePages at done
  split at done
  · next free =>
      cases done
      exact ⟨free.1, free.2, rfl⟩
  · cases done

theorem takePages_frame {pages : List Nat} (done : takePages kernel pages = some after) :
    after.procs = kernel.procs ∧ after.spaces = kernel.spaces ∧
      after.segments = kernel.segments ∧ after.attachments = kernel.attachments := by
  obtain ⟨-, -, rfl⟩ := takePages_some done
  exact ⟨rfl, rfl, rfl, rfl⟩

section
variable (sound : Sound board except kernel)
include sound

theorem Sound.setTaken {taken : Nat → Bool}
    (kept : ∀ holder page, Holds board kernel holder page → taken page = true) :
    Sound board except { kernel with taken := taken } := by
  refine ⟨?_, sound.named, sound.counted, sound.covered, sound.once⟩
  exact sound.custody.shrink (fun _ _ held => held) fun holder page held _ => kept holder page held

theorem Sound.take {pages : List Nat} (done : takePages kernel pages = some after) :
    Sound board except after ∧ pages.Nodup ∧ ∀ page ∈ pages, SparePage board after page := by
  obtain ⟨distinct, free, rfl⟩ := takePages_some done
  refine ⟨sound.setTaken ?_, distinct, ?_⟩
  · intro holder page held
    have within : kernel.taken page = true := sound.custody.within holder page held
    simp [within]
  · intro page listed
    refine ⟨by simp [isTaken, listed], ?_⟩
    exact sound.custody.fresh (by simp [free page listed])

theorem Sound.free {pages : List Nat}
    (nobody : ∀ page ∈ pages, ∀ holder, ¬ Holds board kernel holder page) :
    Sound board except (freePages kernel pages) := by
  refine sound.setTaken ?_
  intro holder page held
  have within : kernel.taken page = true := sound.custody.within holder page held
  have outside : page ∉ pages := fun listed => nobody page listed holder held
  simp [within, outside]

/-- A space changed leaf by leaf: what it owns it owned, or is a spare page at one
place, and what it shares is attached. -/
theorem Sound.setSpace (table : Nat) (space : Space)
    (owned : live board kernel.procs table → ∀ vpn page, (vpn, ⟨page, false⟩) ∈ space →
      (vpn, ⟨page, false⟩) ∈ kernel.spaces table ∨ SparePage board kernel page)
    (placed : live board kernel.procs table → ∀ vpn other page, SparePage board kernel page →
      (vpn, ⟨page, false⟩) ∈ space → (other, ⟨page, false⟩) ∈ space → vpn = other)
    (shares : live board kernel.procs table → ∀ vpn page, (vpn, ⟨page, true⟩) ∈ space →
      ∃ index, CoversAt kernel index table vpn page) :
    Sound board except
      { kernel with spaces := update kernel.spaces table space } := by
  refine ⟨?_, sound.named, sound.counted, ?_, sound.once⟩
  · refine sound.custody.hand ?_ ?_
    · rintro (root | ⟨root, vpn⟩ | si) page held
      · exact .inl held
      · obtain ⟨alive, listed⟩ := held
        by_cases same : root = table
        · subst same
          simp only [update_self] at listed
          exact (owned alive vpn page listed).imp (fun old => ⟨alive, old⟩) id
        · simp only [update_of_ne same] at listed
          exact .inl ⟨alive, listed⟩
      · exact .inl held
    · have here : ∀ holder page, SparePage board kernel page →
          Holds board { kernel with spaces := update kernel.spaces table space }
            holder page → live board kernel.procs table ∧
          ∃ vpn, holder = .leaf table vpn ∧ (vpn, ⟨page, false⟩) ∈ space := by
        rintro (root | ⟨root, vpn⟩ | si) page spare held
        · exact absurd held (spare.2 (.root root))
        · obtain ⟨alive, listed⟩ := held
          by_cases same : root = table
          · subst same
            simp only [update_self] at listed
            exact ⟨alive, vpn, rfl, listed⟩
          · simp only [update_of_ne same] at listed
            exact absurd ⟨alive, listed⟩ (spare.2 (.leaf root vpn))
        · exact absurd held (spare.2 (.segment si))
      intro holder other page spare held again
      obtain ⟨alive, vpn, rfl, listed⟩ := here holder page spare held
      obtain ⟨-, place, rfl, relisted⟩ := here other page spare again
      rw [placed alive vpn place page spare listed relisted]
  · intro root vpn page alive listed
    by_cases same : root = table
    · subst same
      simp only [update_self] at listed
      exact shares alive vpn page listed
    · simp only [update_of_ne same] at listed
      exact sound.covered root vpn page alive listed

end

/-- Fewer leaves hold fewer pages. -/
theorem holds_dropLeaves {space : Space} (fewer : ∀ entry ∈ space, entry ∈ kernel.spaces table)
    {holder : Holder} {page : Nat}
    (held : Holds board
      { kernel with spaces := update kernel.spaces table space } holder page) :
    Holds board kernel holder page := by
  rcases holder with root | ⟨root, vpn⟩ | si
  · exact held
  · obtain ⟨alive, listed⟩ := held
    by_cases same : root = table
    · subst same
      simp only [update_self] at listed
      exact ⟨alive, fewer _ listed⟩
    · simp only [update_of_ne same] at listed
      exact ⟨alive, listed⟩
  · exact held

/-- Leaves go; their pages stay taken. -/
theorem Sound.dropLeaves (sound : Sound board except kernel) (table : Nat) (space : Space)
    (fewer : ∀ entry ∈ space, entry ∈ kernel.spaces table) :
    Sound board except
      { kernel with spaces := update kernel.spaces table space } := by
  refine sound.setSpace table space ?_ ?_ ?_
  · intro _ vpn page listed
    exact .inl (fewer _ listed)
  · intro alive vpn other page spare listed _
    exact absurd ⟨alive, fewer _ listed⟩ (spare.2 (.leaf table vpn))
  · intro alive vpn page listed
    exact sound.covered table vpn page alive (fewer _ listed)

theorem recounted_fields (segments : Nat → Segment) (si : Nat) (refs : Int) (other : Nat) :
    let sg := update segments si { segments si with refs := refs } other
    sg.used = (segments other).used ∧ sg.paddr = (segments other).paddr ∧
      sg.npages = (segments other).npages ∧ sg.serial = (segments other).serial := by
  by_cases same : other = si
  · subst same
    simp
  · simp [same]

section
variable (sound : Sound board (some si) kernel)
include sound

/-- The count of the excepted segment is no part of soundness. -/
theorem Sound.setRefs (refs : Int) : Sound board (some si) { kernel with
        segments := update kernel.segments si { kernel.segments si with refs := refs } } := by
  have fields := recounted_fields kernel.segments si refs
  have holds :
      Holds board
        { kernel with
          segments := update kernel.segments si
            { kernel.segments si with refs := refs } } =
        Holds board kernel := by
    funext holder page
    cases holder with
    | root table => rfl
    | leaf table vpn => rfl
    | segment other => simp only [Holds, fields]
  refine ⟨?_, ?_, ?_, ?_, ?_⟩
  · rw [holds]
    exact sound.custody
  · intro index inside used
    simpa only [fields] using sound.named index inside used
  · intro other inside apart used
    have different : other ≠ si := fun same => apart (congrArg some same.symm)
    simp only [update_of_ne different] at used ⊢
    exact sound.counted other inside apart used
  · intro table vpn page alive listed
    obtain ⟨index, covers⟩ := sound.covered table vpn page alive listed
    refine ⟨index, ?_⟩
    simpa only [CoversAt, fields] using covers
  · intro serial
    have same : census segMax (update kernel.segments si
        { kernel.segments si with refs := refs }) (numbered serial) =
        census segMax kernel.segments (numbered serial) := by
      refine congrArg Finset.card (Finset.filter_congr fun other _ => ?_)
      simp only [numbered, fields]
    rw [same]
    exact sound.once serial

/-- The count is right again. -/
theorem Sound.settle (counted : (kernel.segments si).used →
      (kernel.segments si).refs = attachCount kernel si ∧ 0 < attachCount kernel si) :
    Sound board none kernel := by
  refine ⟨sound.custody, sound.named, ?_, sound.covered, sound.once⟩
  intro other inside _ used
  by_cases same : other = si
  · subst same
    exact counted used
  · exact sound.counted other inside (fun only => same (Option.some.inj only).symm) used

/-- A segment without attachments goes, and its pages with it. -/
theorem Sound.retire (inside : si < segMax)
    (used : (kernel.segments si).used) (unnamed : attachCount kernel si = 0) :
    Sound board none
      { freePages kernel (run (kernel.segments si).paddr (kernel.segments si).npages) with
        segments := update kernel.segments si
          { kernel.segments si with used := false, refs := 0 }
        returned := (kernel.segments si).serial :: kernel.returned } := by
  have unattached : ∀ index < segAttachMax, (kernel.attachments index).used →
      (kernel.attachments index).seg ≠ si := by
    intro index low held same
    exact census_eq_zero.mp unnamed index low ⟨held, same⟩
  let retired :=
    { freePages kernel (run (kernel.segments si).paddr (kernel.segments si).npages) with
      segments := update kernel.segments si
        { kernel.segments si with used := false, refs := 0 }
      returned := (kernel.segments si).serial :: kernel.returned }
  have fewer : ∀ holder page, Holds board retired holder page →
      Holds board kernel holder page ∧ holder ≠ .segment si := by
    rintro (table | ⟨table, vpn⟩ | other) page held
    · exact ⟨held, by simp⟩
    · exact ⟨held, by simp⟩
    · by_cases same : other = si
      · subst same
        simp [Holds, retired] at held
      · refine ⟨?_, by simpa using same⟩
        simpa only [Holds, retired, update_of_ne same] using held
  refine ⟨sound.custody.shrink (fun holder page held => (fewer holder page held).1) ?_,
    ?_, ?_, ?_, ?_⟩
  · intro holder page held within
    obtain ⟨theirs, apart⟩ := fewer holder page held
    have outside : page ∉ run (kernel.segments si).paddr (kernel.segments si).npages := by
      intro listed
      obtain ⟨low, high⟩ := List.mem_range'_1.mp listed
      have mine : Holds board kernel (.segment si) page := ⟨inside, used, low, high⟩
      exact apart (sound.custody.sole _ _ page theirs mine)
    simp [isTaken, freePages, outside, within]
  · intro index low held
    obtain ⟨bound, active, alive⟩ := sound.named index low held
    have different := unattached index low held
    refine ⟨bound, ?_, alive⟩
    simpa only [freePages_attachments, update_of_ne different] using active
  · intro other low _ active
    have different : other ≠ si := by
      intro same
      simp [same] at active
    simp only [update_of_ne different] at active ⊢
    exact sound.counted other low (fun only => different (Option.some.inj only).symm) active
  · intro table vpn page alive listed
    obtain ⟨index, covers⟩ := sound.covered table vpn page alive listed
    have different := unattached index covers.1 covers.2.1
    refine ⟨index, ?_⟩
    simpa only [CoversAt, freePages_attachments, update_of_ne different] using covers
  · intro serial
    have before := sound.once serial
    let gone : Segment := { kernel.segments si with used := false, refs := 0 }
    have total : census segMax (update kernel.segments si gone) (numbered serial) +
        ((kernel.segments si).serial :: kernel.returned).count serial =
        if serial < kernel.created then 1 else 0 := by
      rw [List.count_cons]
      by_cases mine : (kernel.segments si).serial = serial
      · have lost : census segMax (update kernel.segments si gone) (numbered serial) +
            1 = census segMax kernel.segments (numbered serial) :=
          census_update_loss si inside gone ⟨used, mine⟩ (by simp [numbered])
        simp only [mine, beq_self_eq_true, ↓reduceIte]
        omega
      · have same := census_update_same kernel.segments (numbered serial) si inside gone
          (by simp [numbered, mine])
        simp only [same, beq_iff_eq, mine]
        exact before
    exact total

/-- One reference less: the segment goes with the last one. -/
theorem Sound.unref (inside : si < segMax) (used : (kernel.segments si).used)
    (counted : (kernel.segments si).refs = attachCount kernel si + 1) :
    Sound board none (segUnref kernel si) := by
  unfold segUnref
  by_cases last : (kernel.segments si).refs - 1 ≤ 0
  · rw [if_pos last]
    exact sound.retire inside used (by omega)
  · rw [if_neg last]
    refine (sound.setRefs _).settle fun _ => ?_
    have same : attachCount { kernel with
        segments := update kernel.segments si
          { kernel.segments si with refs := (kernel.segments si).refs - 1 } } si =
        attachCount kernel si := rfl
    simp only [same, update_self]
    omega

end

/-- An attachment whose leaves are gone, or are accounted for by others, can go. -/
theorem Sound.detach (sound : Sound board none kernel) {index : Nat}
    (inside : index < segAttachMax) (used : (kernel.attachments index).used)
    (elsewhere : ∀ table vpn page, live board kernel.procs table →
      (vpn, ⟨page, true⟩) ∈ kernel.spaces table →
      ∃ other, other ≠ index ∧ CoversAt kernel other table vpn page) :
    Sound board none (dropAttachment kernel index) := by
  obtain ⟨bound, active, -⟩ := sound.named index inside used
  obtain ⟨refs, -⟩ := sound.counted _ bound (by simp) active
  let gone : SegAttach := { kernel.attachments index with used := false }
  have lost : census segAttachMax (update kernel.attachments index gone)
      (names (kernel.attachments index).seg) + 1 =
      attachCount kernel (kernel.attachments index).seg :=
    census_update_loss index inside gone ⟨used, rfl⟩ (by simp [names])
  refine Sound.unref ⟨sound.custody, ?_, ?_, ?_, sound.once⟩ bound active ?_
  · intro other low held
    by_cases same : other = index
    · subst same
      simp at held
    · simp only [update_of_ne same] at held ⊢
      exact sound.named other low held
  · intro other low apart held
    have different : (kernel.attachments index).seg ≠ other := fun same => apart (congrArg some same)
    have kept : census segAttachMax (update kernel.attachments index gone)
        (names other) = attachCount kernel other :=
      census_update_same _ _ index inside gone (by simp [names, different])
    have before := sound.counted other low (by simp) held
    rw [← kept] at before
    exact before
  · intro table vpn page alive listed
    obtain ⟨other, apart, covers⟩ := elsewhere table vpn page alive listed
    refine ⟨other, ?_⟩
    simpa only [CoversAt, update_of_ne apart] using covers
  · have counted : (kernel.segments (kernel.attachments index).seg).refs =
        census segAttachMax (update kernel.attachments index gone)
          (names (kernel.attachments index).seg) + 1 := by omega
    exact counted

theorem freeAttachment_some {index : Nat} (found : freeAttachment kernel = some index) :
    index < segAttachMax ∧ (kernel.attachments index).used = false := by
  refine ⟨List.mem_range.mp (List.mem_of_find?_eq_some found), ?_⟩
  simpa using List.find?_some found

theorem freeAttachment_exists (room : segAttachFreeSlots kernel ≠ 0) :
    ∃ index, freeAttachment kernel = some index := by
  refine Option.ne_none_iff_exists'.mp fun none => room ?_
  rw [segAttachFreeSlots, List.countP_eq_zero]
  exact List.find?_eq_none.mp none

/-- A new attachment of a segment in use to an address space in use. -/
theorem Sound.attach (sound : Sound board (some si) kernel) (inside : si < segMax)
    (used : (kernel.segments si).used) (alive : live board kernel.procs table)
    (counted : (kernel.segments si).refs = attachCount kernel si)
    (room : segAttachFreeSlots kernel ≠ 0) (vaddr : Nat) :
    Sound board none (addAttachment kernel si table vaddr) := by
  obtain ⟨index, found⟩ := freeAttachment_exists room
  obtain ⟨low, unused⟩ := freeAttachment_some found
  have gained : census segAttachMax
      (update kernel.attachments index ⟨true, si, table, vaddr⟩) (names si) =
      attachCount kernel si + 1 :=
    census_update_gain index low _ (by simp [names, unused]) ⟨rfl, rfl⟩
  have attached : Sound board (some si)
      { kernel with
        attachments := update kernel.attachments index ⟨true, si, table, vaddr⟩ } := by
    refine ⟨sound.custody, ?_, ?_, ?_, sound.once⟩
    · intro other small held
      by_cases same : other = index
      · subst same
        simp only [update_self]
        exact ⟨inside, used, alive⟩
      · simp only [update_of_ne same] at held ⊢
        exact sound.named other small held
    · intro other small apart held
      have different : si ≠ other := fun same => apart (congrArg some same)
      have kept : census segAttachMax
          (update kernel.attachments index ⟨true, si, table, vaddr⟩) (names other) =
          attachCount kernel other :=
        census_update_same _ _ index low _ (by simp [names, unused, different])
      have before := sound.counted other small apart held
      rw [← kept] at before
      exact before
    · intro root vpn page running listed
      obtain ⟨other, covers⟩ := sound.covered root vpn page running listed
      have different : other ≠ index := by
        intro same
        have held := covers.2.1
        rw [same, unused] at held
        cases held
      refine ⟨other, ?_⟩
      simpa only [CoversAt, update_of_ne different] using covers
  unfold addAttachment
  rw [found]
  refine (attached.setRefs _).settle fun _ => ?_
  have total : attachCount
      { kernel with
        attachments := update kernel.attachments index ⟨true, si, table, vaddr⟩
        segments := update kernel.segments si
          { kernel.segments si with refs := (kernel.segments si).refs + 1 } } si =
      attachCount kernel si + 1 := gained
  simp only [total, update_self]
  omega

theorem Sound.unnamed (sound : Sound board except kernel)
    (unused : (kernel.segments si).used = false) : attachCount kernel si = 0 := by
  refine census_eq_zero.mpr ?_
  rintro index inside ⟨held, rfl⟩
  have active := (sound.named index inside held).2.1
  rw [unused] at active
  cases active

/-- A new segment on spare pages, not attached yet. -/
theorem Sound.createSegment (sound : Sound board none kernel) (inside : si < segMax)
    (unused : (kernel.segments si).used = false) (sg : Segment) (used : sg.used = true)
    (numbered : sg.serial = kernel.created)
    (spare : ∀ page, sg.paddr ≤ page → page < sg.paddr + sg.npages → SparePage board kernel page) :
    Sound board (some si)
      { kernel with
        segments := update kernel.segments si sg
        created := kernel.created + 1 } := by
  have apart : ∀ index < segAttachMax, (kernel.attachments index).used →
      (kernel.attachments index).seg ≠ si := by
    rintro index low held rfl
    exact census_eq_zero.mp (sound.unnamed unused) index low ⟨held, rfl⟩
  refine ⟨sound.custody.hand ?_ ?_, ?_, ?_, ?_, ?_⟩
  · rintro (root | ⟨root, vpn⟩ | other) page held
    · exact .inl held
    · exact .inl held
    · by_cases same : other = si
      · subst same
        simp only [Holds, update_self] at held
        exact .inr (spare page held.2.2.1 held.2.2.2)
      · simp only [Holds, update_of_ne same] at held
        exact .inl held
  · have here : ∀ holder page, SparePage board kernel page →
        Holds board { kernel with
          segments := update kernel.segments si sg
          created := kernel.created + 1 } holder page → holder = .segment si := by
      rintro (root | ⟨root, vpn⟩ | other) page loose held
      · exact absurd held (loose.2 (.root root))
      · exact absurd held (loose.2 (.leaf root vpn))
      · by_cases same : other = si
        · rw [same]
        · simp only [Holds, update_of_ne same] at held
          exact absurd held (loose.2 (.segment other))
    intro holder other page loose held again
    rw [here holder page loose held, here other page loose again]
  · intro index low held
    obtain ⟨bound, active, alive⟩ := sound.named index low held
    refine ⟨bound, ?_, alive⟩
    simpa only [update_of_ne (apart index low held)] using active
  · intro other low except active
    have different : other ≠ si := fun same => except (congrArg some same.symm)
    simp only [update_of_ne different] at active ⊢
    exact sound.counted other low (by simp) active
  · intro root vpn page alive listed
    obtain ⟨index, covers⟩ := sound.covered root vpn page alive listed
    refine ⟨index, ?_⟩
    simpa only [CoversAt, update_of_ne (apart index covers.1 covers.2.1)] using covers
  · intro serial
    have before := sound.once serial
    by_cases mine : serial = kernel.created
    · subst mine
      have gained : census segMax (update kernel.segments si sg)
            (AddressSpace.numbered kernel.created) =
          census segMax kernel.segments (AddressSpace.numbered kernel.created) + 1 :=
        census_update_gain si inside sg (by simp [AddressSpace.numbered, unused])
          ⟨used, numbered⟩
      simp only [Nat.lt_irrefl, Nat.lt_succ_self, ↓reduceIte] at before ⊢
      omega
    · have same := census_update_same kernel.segments (AddressSpace.numbered serial) si inside sg
        (by simp [AddressSpace.numbered, unused, numbered, Ne.symm mine])
      have bound : serial < kernel.created + 1 ↔ serial < kernel.created := by omega
      simp only [same, bound]
      exact before

end Racccoon.AddressSpace
