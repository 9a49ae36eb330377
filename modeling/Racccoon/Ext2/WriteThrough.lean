import Mathlib.Data.List.Find
import Racccoon.Ext2.BitmapCache

/-!
The bitmap cache refines write-through allocation. `effective` is the disk as it
would be with everything cached written out; every request keeps it equal to the
disk of the reference, because the cached bitmap is the group's and the bytes below
the scan hint are full.
-/

namespace Racccoon.Ext2.Bitmaps

open Simulation

/-- `found` is the first clear bit of `first ≤ bit < last`, if there is one. -/
def FirstClear (bitmap : Bytes) (first last : Nat) : Option Nat → Prop
  | none => ∀ bit, first ≤ bit → bit < last → Bitmap.test bitmap bit = true
  | some found => first ≤ found ∧ found < last ∧ Bitmap.test bitmap found = false ∧
      ∀ bit, first ≤ bit → bit < found → Bitmap.test bitmap bit = true

variable {bitmap : Bytes} {first last : Nat}

theorem FirstClear.unique {left right : Option Nat} (one : FirstClear bitmap first last left)
    (two : FirstClear bitmap first last right) : left = right := by
  cases left with
  | none =>
    cases right with
    | none => rfl
    | some found =>
      have full := one found two.1 two.2.1
      rw [two.2.2.1] at full
      cases full
  | some here =>
    cases right with
    | none =>
      have full := two here one.1 one.2.1
      rw [one.2.2.1] at full
      cases full
    | some there =>
      rcases Nat.lt_trichotomy here there with before | same | behind
      · have full := two.2.2.2 here one.1 before
        rw [one.2.2.1] at full
        cases full
      · rw [same]
      · have full := one.2.2.2 there two.1 behind
        rw [two.2.2.1] at full
        cases full

/-- Bits known to be set may be left out of a scan. -/
theorem FirstClear.widen {start : Nat} {found : Option Nat}
    (scan : FirstClear bitmap first last found)
    (full : ∀ bit, start ≤ bit → bit < first → Bitmap.test bitmap bit = true)
    (later : start ≤ first) : FirstClear bitmap start last found := by
  have below : ∀ bit, start ≤ bit → (first ≤ bit → Bitmap.test bitmap bit = true) →
      Bitmap.test bitmap bit = true := by
    intro bit low set
    by_cases skipped : bit < first
    · exact full bit low skipped
    · exact set (by omega)
  cases found with
  | none =>
    intro bit low high
    exact below bit low fun reached => scan bit reached high
  | some =>
    refine ⟨Nat.le_trans later scan.1, scan.2.1, scan.2.2.1, ?_⟩
    intro bit low high
    exact below bit low fun reached => scan.2.2.2 bit reached high

theorem scanBits_first (bitmap : Bytes) (count : Nat) :
    FirstClear bitmap 0 count (scanBits bitmap count) := by
  cases scanned : scanBits bitmap count with
  | none =>
    intro bit _ high
    have clear := List.find?_eq_none.mp scanned bit (List.mem_range.mpr high)
    simpa using clear
  | some found =>
    obtain ⟨clear, before, after, split, earlier⟩ := List.find?_eq_some_iff_append.mp scanned
    have length : before.length = found := by
      have spot := congrArg (fun bits => bits[before.length]?) split
      simp only [List.getElem?_append_right (Nat.le_refl _), Nat.sub_self] at spot
      rw [List.getElem?_range (by
        have := congrArg List.length split
        simp only [List.length_range, List.length_append, List.length_cons] at this
        omega)] at spot
      exact Option.some.inj spot
    have inside : found < count := by
      have := congrArg List.length split
      simp only [List.length_range, List.length_append, List.length_cons] at this
      omega
    refine ⟨Nat.zero_le _, inside, by simpa using clear, ?_⟩
    intro bit _ high
    have member : bit ∈ before := by
      have spot := congrArg (fun bits => bits[bit]?) split
      simp only [List.getElem?_append_left (length.symm ▸ high)] at spot
      rw [List.getElem?_range (by omega)] at spot
      exact List.mem_of_getElem? spot.symm
    simpa using earlier bit member

theorem byte_full_iff (bitmap : Bytes) (byte : Nat) :
    bitmap byte = 0xFF#8 ↔ ∀ bit < 8, Bitmap.test bitmap (byte * 8 + bit) = true := by
  have position : ∀ bit < 8,
      Bitmap.test bitmap (byte * 8 + bit) = (bitmap byte).getLsbD bit := by
    intro bit small
    have inByte : (byte * 8 + bit) / 8 = byte := by omega
    have inBit : (byte * 8 + bit) % 8 = bit := by omega
    rw [Bitmap.test_getLsbD (by decide), inByte, inBit]
  constructor
  · intro full bit small
    rw [position bit small, full]
    have cases8 : ∀ bit < 8, (0xFF#8).getLsbD bit = true := by decide
    exact cases8 bit small
  · intro all
    apply BitVec.eq_of_getLsbD_eq
    intro bit small
    rw [← position bit small, all bit small]
    have cases8 : ∀ bit < 8, true = (0xFF#8).getLsbD bit := by decide
    exact cases8 bit small

theorem scanBytes_first (bitmap : Bytes) (fuel byte : Nat) :
    FirstClear bitmap (byte * 8) ((byte + fuel) * 8) (scanBytes bitmap fuel byte) := by
  induction fuel generalizing byte with
  | zero =>
    intro bit low high
    omega
  | succ fuel ih =>
    have next : FirstClear bitmap ((byte + 1) * 8) ((byte + (fuel + 1)) * 8)
        (scanBytes bitmap fuel (byte + 1)) := by
      have := ih (byte + 1)
      rwa [show byte + 1 + fuel = byte + (fuel + 1) by omega] at this
    rw [scanBytes]
    by_cases full : bitmap byte = 0xFF#8
    · rw [if_pos full]
      apply next.widen _ (by omega)
      intro bit low high
      have set := (byte_full_iff bitmap byte).mp full (bit - byte * 8) (by omega)
      rwa [show byte * 8 + (bit - byte * 8) = bit by omega] at set
    · rw [if_neg full]
      -- The bits of this byte are scanned like those of a bitmap shifted to it.
      have inByte := scanBits_first (fun word => bitmap (byte + word)) 8
      have shifted : ∀ bit < 8, Bitmap.test (fun word => bitmap (byte + word)) bit =
          Bitmap.test bitmap (byte * 8 + bit) := by
        intro bit small
        have quotient : (byte * 8 + bit) / 8 = byte + bit / 8 := by omega
        have remainder : (byte * 8 + bit) % 8 = bit % 8 := by omega
        rw [Bitmap.test_getLsbD (by decide), Bitmap.test_getLsbD (by decide), quotient,
          remainder]
      have same : scanBits (fun word => bitmap (byte + word)) 8 =
          (List.range 8).find? fun bit => !Bitmap.test bitmap (byte * 8 + bit) := by
        apply List.find?_congr
        intro bit member
        rw [shifted bit (List.mem_range.mp member)]
      rw [← same]
      cases scanned : scanBits (fun word => bitmap (byte + word)) 8 with
      | none =>
        exfalso
        rw [scanned] at inByte
        apply full
        rw [byte_full_iff]
        intro bit small
        rw [← shifted bit small]
        exact inByte bit (Nat.zero_le _) small
      | some found =>
        rw [scanned] at inByte
        obtain ⟨_, small, clear, earlier⟩ := inByte
        refine ⟨by omega, by omega, ?_, ?_⟩
        · rw [← shifted found small]
          exact clear
        · intro bit low high
          have set := earlier (bit - byte * 8) (Nat.zero_le _) (by omega)
          rw [shifted (bit - byte * 8) (by omega)] at set
          rwa [show byte * 8 + (bit - byte * 8) = bit by omega] at set

theorem scanBytes_eq_scanBits (bitmap : Bytes) (hint bytes : Nat) (inside : hint ≤ bytes)
    (full : ∀ bit < hint * 8, Bitmap.test bitmap bit = true) :
    scanBytes bitmap (bytes - hint) hint = scanBits bitmap (bytes * 8) := by
  have fromHint := scanBytes_first bitmap (bytes - hint) hint
  rw [show hint + (bytes - hint) = bytes by omega] at fromHint
  exact (fromHint.widen (fun bit _ high => full bit high) (Nat.zero_le _)).unique
    (scanBits_first bitmap (bytes * 8))

def effective (fs : Driver) : Disk :=
  if fs.bm.loaded then
    (fs.disk.writeBlockBitmap fs.bm.group fs.bm.bitmap).adjustFreeBlocks fs.bm.group fs.bm.delta
  else fs.disk

structure Sound (geometry : Geometry) (fs : Driver) : Prop where
  idle : fs.bm.loaded = false → fs.bm.dirty = false ∧ fs.bm.delta = 0
  clean : fs.bm.loaded = true → fs.bm.dirty = false →
    fs.bm.bitmap = fs.disk.blockBitmap fs.bm.group
  full : fs.bm.loaded = true → ∀ bit < fs.bm.scanFrom * 8, Bitmap.test fs.bm.bitmap bit = true
  inside : fs.bm.loaded = true → fs.bm.scanFrom ≤ geometry.blocksPerGroup / 8

@[simp] theorem Disk.adjustFreeBlocks_zero (disk : Disk) (group : Nat) :
    disk.adjustFreeBlocks group 0 = disk := by
  simp [Disk.adjustFreeBlocks]

theorem Disk.writeBlockBitmap_same (disk : Disk) (group : Nat) :
    disk.writeBlockBitmap group (disk.blockBitmap group) = disk := by
  simp [Disk.writeBlockBitmap]

variable {geometry : Geometry} {fs : Driver}

theorem effective_blockBitmap (loaded : fs.bm.loaded = true) :
    (effective fs).blockBitmap fs.bm.group = fs.bm.bitmap := by
  simp [effective, loaded, Disk.writeBlockBitmap, Disk.adjustFreeBlocks]

def written (fs : Driver) : Driver :=
  { fs with
    disk := effective fs
    bm := { fs.bm with dirty := false, delta := 0 } }

theorem flushDelta_eq (fs : Driver) :
    flushDelta fs = { fs with
      disk := fs.disk.adjustFreeBlocks fs.bm.group fs.bm.delta
      bm := { fs.bm with delta := 0 } } := by
  obtain ⟨disk, ⟨loaded, dirty, group, delta, scanFrom, bitmap⟩, hint, other⟩ := fs
  unfold flushDelta
  by_cases pending : delta = 0
  · subst pending
    simp
  · simp [pending]

theorem flushBitmap_eq (clean : fs.bm.dirty = false →
      fs.bm.bitmap = fs.disk.blockBitmap fs.bm.group) :
    flushBitmap fs = { fs with
      disk := fs.disk.writeBlockBitmap fs.bm.group fs.bm.bitmap
      bm := { fs.bm with dirty := false } } := by
  obtain ⟨disk, ⟨loaded, dirty, group, delta, scanFrom, bitmap⟩, hint, other⟩ := fs
  unfold flushBitmap
  cases dirty with
  | true => rfl
  | false =>
    have same : bitmap = disk.blockBitmap group := clean rfl
    subst same
    simp [Disk.writeBlockBitmap_same]

theorem bmFlushGroup_eq (sound : Sound geometry fs) : bmFlushGroup fs = written fs := by
  unfold bmFlushGroup
  by_cases loaded : fs.bm.loaded = true
  · rw [if_pos loaded, flushBitmap_eq (sound.clean loaded), flushDelta_eq, written, effective,
      if_pos loaded]
  · rw [if_neg loaded]
    have unloaded : fs.bm.loaded = false := by simpa using loaded
    obtain ⟨clean, settled⟩ := sound.idle unloaded
    rw [written, effective, if_neg loaded, ← clean, ← settled]

theorem effective_written (fs : Driver) : effective (written fs) = effective fs := by
  by_cases loaded : fs.bm.loaded = true
  · have held : (written fs).bm.loaded = true := loaded
    rw [effective, if_pos held]
    simp only [written, Disk.adjustFreeBlocks_zero]
    rw [← effective_blockBitmap loaded, Disk.writeBlockBitmap_same]
  · have held : ¬(written fs).bm.loaded = true := loaded
    rw [effective, if_neg held]
    rfl

theorem sound_written (sound : Sound geometry fs) : Sound geometry (written fs) :=
  { idle := fun _ => ⟨rfl, rfl⟩
    clean := by
      intro loaded _
      have held : fs.bm.loaded = true := loaded
      exact (effective_blockBitmap held).symm
    full := sound.full
    inside := sound.inside }

/-- What `ext2_bm_load` gives: the group's bitmap in the cache and no change to the
disk as it will be. -/
structure Ready (geometry : Geometry) (fs : Driver) (group : Nat) (ready : Driver) : Prop where
  sound : Sound geometry ready
  same : effective ready = effective fs
  loaded : ready.bm.loaded = true
  group : ready.bm.group = group
  blockGroupHint : ready.blockGroupHint = fs.blockGroupHint
  inodeGroupHint : ready.inodeGroupHint = fs.inodeGroupHint

theorem sound_readGroup (geometry : Geometry) (fs : Driver) (group : Nat) :
    Sound geometry (readGroup (written fs) group) := by
  constructor
  · intro unloaded
    cases unloaded
  · intro _ _
    rfl
  · intro _ bit low
    simp [readGroup] at low
  · intro _
    exact Nat.zero_le _

theorem bmLoad_ready (sound : Sound geometry fs) (group : Nat) :
    Ready geometry fs group (bmLoad fs group) := by
  unfold bmLoad
  by_cases held : fs.bm.loaded = true ∧ fs.bm.group = group
  · rw [if_pos held]
    exact ⟨sound, rfl, held.1, held.2, rfl, rfl⟩
  · rw [if_neg held, bmFlushGroup_eq sound]
    refine ⟨sound_readGroup geometry fs group, ?_, rfl, rfl, rfl, rfl⟩
    simp [effective, readGroup, written, Disk.writeBlockBitmap_same]

theorem Ready.blockBitmap {group : Nat} {ready : Driver} (load : Ready geometry fs group ready) :
    ready.bm.bitmap = (effective fs).blockBitmap group := by
  rw [← load.same, ← load.group, effective_blockBitmap load.loaded]

/-- The reference's state stands for the driver's. -/
structure Refines (geometry : Geometry) (fs : Driver) (through : Through) : Prop where
  sound : Sound geometry fs
  disk : through.disk = effective fs
  blockGroupHint : through.blockGroupHint = fs.blockGroupHint
  inodeGroupHint : through.inodeGroupHint = fs.inodeGroupHint

theorem mounted_refines (geometry : Geometry) (disk : Disk) :
    Refines geometry (mounted disk) (Through.mounted disk) := by
  refine ⟨⟨fun _ => ⟨rfl, rfl⟩, ?_, ?_, ?_⟩, rfl, rfl, rfl⟩
  all_goals
    intro loaded
    cases loaded

theorem takeBit_effective (fs : Driver) (loaded : fs.bm.loaded = true) (bit : Nat) :
    effective (takeBit fs fs.bm.group bit) = (effective fs).takeBlock fs.bm.group bit := by
  simp [effective, loaded, takeBit, Disk.writeBlockBitmap, Disk.adjustFreeBlocks,
    Disk.takeBlock, Int.sub_eq_add_neg, BitVec.ofInt_add, BitVec.add_assoc,
    BitVec.sub_eq_add_neg, BitVec.ofInt_neg]

theorem clearBit_effective (fs : Driver) (loaded : fs.bm.loaded = true) (bit : Nat) :
    effective (clearBit fs bit) = (effective fs).giveBlock fs.bm.group bit := by
  simp [effective, loaded, clearBit, Disk.writeBlockBitmap, Disk.adjustFreeBlocks,
    Disk.giveBlock, BitVec.ofInt_add, BitVec.add_assoc]

section
variable (sound : Sound geometry fs) (loaded : fs.bm.loaded = true)
include sound loaded

theorem takeBit_sound (bit : Nat)
    (scan : FirstClear fs.bm.bitmap (fs.bm.scanFrom * 8) (geometry.blocksPerGroup / 8 * 8)
      (some bit)) : Sound geometry (takeBit fs fs.bm.group bit) := by
  obtain ⟨reached, inside, _, skipped⟩ := scan
  constructor
  · intro unloaded
    exact absurd (loaded.symm.trans unloaded) (by decide)
  · intro _ clean
    cases clean
  · intro _ position low
    simp only [takeBit] at low ⊢
    rw [Bitmap.test_insert (by decide)]
    have before : position < bit := by omega
    by_cases below : position < fs.bm.scanFrom * 8
    · rw [sound.full loaded position below, Bool.or_true]
    · rw [skipped position (by omega) before, Bool.or_true]
  · simp only [takeBit]
    omega

theorem clearBit_sound (bit : Nat) : Sound geometry (clearBit fs bit) := by
  constructor
  · intro unloaded
    exact absurd (loaded.symm.trans unloaded) (by decide)
  · intro _ clean
    cases clean
  · intro _ position low
    simp only [clearBit] at low ⊢
    rw [Bitmap.test_remove (by decide)]
    -- The hint is now at or below both the cleared bit's byte and the old hint.
    have apart : position ≠ bit ∧ position < fs.bm.scanFrom * 8 := by
      split at low
      all_goals omega
    rw [sound.full loaded position apart.2]
    simp [apart.1]
  · have := sound.inside loaded
    simp only [clearBit]
    split
    all_goals omega

theorem groupFull_sound (scan : FirstClear fs.bm.bitmap 0 (geometry.blocksPerGroup / 8 * 8) none) :
    Sound geometry (groupFull fs (geometry.blocksPerGroup / 8)) := by
  constructor
  · intro unloaded
    exact absurd (loaded.symm.trans unloaded) (by decide)
  · intro _ clean
    exact sound.clean loaded clean
  · intro _ bit low
    exact scan bit (Nat.zero_le _) low
  · intro _
    exact Nat.le_refl _

end

theorem blocks_in_bytes (geometry : Geometry) :
    geometry.blocksPerGroup / 8 * 8 = geometry.blocksPerGroup := by
  have := geometry.wholeBytes
  omega

/-- The cached scan of a group finds what the reference finds on its disk. -/
theorem scan_agrees {group : Nat} {ready : Driver} (load : Ready geometry fs group ready) :
    scanBytes ready.bm.bitmap (geometry.blocksPerGroup / 8 - ready.bm.scanFrom)
        ready.bm.scanFrom =
      scanBits ((effective fs).blockBitmap group) geometry.blocksPerGroup := by
  rw [scanBytes_eq_scanBits _ _ _ (load.sound.inside load.loaded) (load.sound.full load.loaded),
    blocks_in_bytes, load.blockBitmap]

theorem allocBlockFrom_refines (left k : Nat) (fs : Driver) (through : Through)
    (refines : Refines geometry fs through) :
    (allocBlockFrom geometry left k fs).1 = (Through.allocBlockFrom geometry left k through).1 ∧
      Refines geometry (allocBlockFrom geometry left k fs).2
        (Through.allocBlockFrom geometry left k through).2 := by
  induction left generalizing k fs through with
  | zero => exact ⟨rfl, refines⟩
  | succ _ ih =>
    rw [allocBlockFrom, Through.allocBlockFrom, refines.blockGroupHint]
    generalize (fs.blockGroupHint + k) % geometry.groupCount = group
    have load := bmLoad_ready refines.sound group
    have agrees := scan_agrees load
    rw [← refines.disk] at agrees
    generalize bmLoad fs group = ready at load agrees
    rw [agrees]
    have scan := scanBytes_first ready.bm.bitmap
      (geometry.blocksPerGroup / 8 - ready.bm.scanFrom) ready.bm.scanFrom
    have reach := load.sound.inside load.loaded
    rw [show ready.bm.scanFrom + (geometry.blocksPerGroup / 8 - ready.bm.scanFrom) =
      geometry.blocksPerGroup / 8 by omega, agrees] at scan
    obtain ⟨sound, same, loaded, rfl, hint, inodeHint⟩ := load
    cases found : scanBits (through.disk.blockBitmap ready.bm.group)
        geometry.blocksPerGroup with
    | some bit =>
      rw [found] at scan
      refine ⟨rfl, takeBit_sound sound loaded bit scan, ?_, rfl, ?_⟩
      · rw [takeBit_effective ready loaded, same, ← refines.disk]
      · exact refines.inodeGroupHint.trans inodeHint.symm
    | none =>
      rw [found] at scan
      have whole := scan.widen
        (fun bit _ low => sound.full loaded bit low) (Nat.zero_le _)
      apply ih
      refine ⟨groupFull_sound sound loaded whole, ?_, ?_, ?_⟩
      · exact refines.disk.trans same.symm
      · exact refines.blockGroupHint.trans hint.symm
      · exact refines.inodeGroupHint.trans inodeHint.symm

theorem Through.freeBlock_eq (fs : Through) (block : Nat) :
    Through.freeBlock geometry fs block =
      if groupOf geometry block ≥ geometry.groupCount then (false, fs)
      else if Bitmap.test (fs.disk.blockBitmap (groupOf geometry block))
          (bitOf geometry block) = true then
        (true, { fs with
          disk := fs.disk.giveBlock (groupOf geometry block) (bitOf geometry block) })
      else (true, fs) := rfl

theorem Through.freeInode_eq (fs : Through) (inodeNum : Nat) :
    Through.freeInode geometry fs inodeNum =
      if minus inodeNum 1 / geometry.inodesPerGroup ≥ geometry.groupCount then (false, fs)
      else
        (true, { fs with
          disk := fs.disk.giveInode (minus inodeNum 1 / geometry.inodesPerGroup)
            (minus inodeNum 1 % geometry.inodesPerGroup) }) := rfl

theorem freeBlock_refines (through : Through) (refines : Refines geometry fs through)
    (block : Nat) :
    (freeBlock geometry fs block).1 = (Through.freeBlock geometry through block).1 ∧
      Refines geometry (freeBlock geometry fs block).2
        (Through.freeBlock geometry through block).2 := by
  rw [freeBlock, Through.freeBlock_eq]
  by_cases outside : groupOf geometry block ≥ geometry.groupCount
  · simp only [if_pos outside]
    exact ⟨trivial, refines⟩
  · simp only [if_neg outside]
    have load := bmLoad_ready refines.sound (groupOf geometry block)
    have bitmap := load.blockBitmap
    generalize bmLoad fs (groupOf geometry block) = ready at load bitmap
    obtain ⟨sound, same, loaded, group, hint, inodeHint⟩ := load
    rw [refines.disk, ← bitmap]
    have hints : through.blockGroupHint = ready.blockGroupHint ∧
        through.inodeGroupHint = ready.inodeGroupHint :=
      ⟨refines.blockGroupHint.trans hint.symm, refines.inodeGroupHint.trans inodeHint.symm⟩
    by_cases used : Bitmap.test ready.bm.bitmap (bitOf geometry block) = true
    · simp only [if_pos used]
      refine ⟨trivial, clearBit_sound sound loaded _, ?_, hints.1, hints.2⟩
      rw [clearBit_effective ready loaded, group, same]
    · simp only [if_neg used]
      exact ⟨trivial, sound, refines.disk.trans same.symm, hints.1, hints.2⟩

theorem effective_takeInode (fs : Driver) (group bit hint : Nat) :
    effective { fs with
      disk := (fs.disk.writeInodeBitmap group
        (Bitmap.insert (fs.disk.inodeBitmap group) bit)).decFreeInodes group
      inodeGroupHint := hint } = (effective fs).takeInode group bit := by
  unfold effective
  by_cases loaded : fs.bm.loaded = true
  · simp only [if_pos loaded]
    rfl
  · simp only [if_neg loaded]
    rfl

theorem effective_giveInode (fs : Driver) (group bit : Nat) :
    effective { fs with
      disk := (fs.disk.writeInodeBitmap group
        (Bitmap.remove (fs.disk.inodeBitmap group) bit)).incFreeInodes group } =
      (effective fs).giveInode group bit := by
  unfold effective
  by_cases loaded : fs.bm.loaded = true
  · simp only [if_pos loaded]
    rfl
  · simp only [if_neg loaded]
    rfl

theorem effective_inodeBitmap (fs : Driver) : (effective fs).inodeBitmap = fs.disk.inodeBitmap := by
  unfold effective
  by_cases loaded : fs.bm.loaded = true
  · rw [if_pos loaded]
    rfl
  · rw [if_neg loaded]

theorem Sound.withInodes (sound : Sound geometry fs) (disk : Disk) (hint : Nat)
    (same : disk.blockBitmap = fs.disk.blockBitmap) :
    Sound geometry { fs with disk := disk, inodeGroupHint := hint } := by
  refine ⟨sound.idle, ?_, sound.full, sound.inside⟩
  intro loaded clean
  rw [same]
  exact sound.clean loaded clean

def withInodes (fs : Driver) (inodes : Inodes) : Driver :=
  { fs with disk := inodes.disk, inodeGroupHint := inodes.hint }

theorem allocInodeFrom_refines (left k : Nat) (fs : Driver) (through : Through)
    (refines : Refines geometry fs through) :
    (allocInodeFrom geometry left k ⟨fs.disk, fs.inodeGroupHint⟩).1 =
        (Through.allocInodeFrom geometry left k through).1 ∧
      Refines geometry
        (withInodes fs (allocInodeFrom geometry left k ⟨fs.disk, fs.inodeGroupHint⟩).2)
        (Through.allocInodeFrom geometry left k through).2 := by
  induction left generalizing k with
  | zero => exact ⟨rfl, refines⟩
  | succ _ ih =>
    rw [allocInodeFrom, Through.allocInodeFrom, refines.inodeGroupHint, refines.disk,
      effective_inodeBitmap]
    dsimp only
    generalize (fs.inodeGroupHint + k) % geometry.groupCount = group
    cases scanBits (fs.disk.inodeBitmap group) geometry.inodesPerGroup with
    | some bit =>
      exact ⟨rfl, refines.sound.withInodes _ _ rfl, (effective_takeInode fs group bit group).symm,
        refines.blockGroupHint, rfl⟩
    | none => exact ih (k + 1)

section
variable (through : Through) (refines : Refines geometry fs through)
include through refines

theorem freeInode_refines (inodeNum : BitVec 32) :
    (step geometry fs (.freeInode inodeNum)).1 =
        (Through.step geometry through (.freeInode inodeNum)).1 ∧
      Refines geometry (step geometry fs (.freeInode inodeNum)).2
        (Through.step geometry through (.freeInode inodeNum)).2 := by
  simp only [step, Through.step, freeInode, Through.freeInode_eq]
  by_cases outside : minus inodeNum.toNat 1 / geometry.inodesPerGroup ≥ geometry.groupCount
  · simp only [if_pos outside]
    exact ⟨trivial, refines⟩
  · simp only [if_neg outside]
    refine ⟨trivial, refines.sound.withInodes _ fs.inodeGroupHint rfl, ?_,
      refines.blockGroupHint, refines.inodeGroupHint⟩
    rw [refines.disk, ← effective_giveInode]

theorem sync_refines : Refines geometry (sync fs) through := by
  rw [sync, bmFlushGroup_eq refines.sound]
  exact ⟨sound_written refines.sound, refines.disk.trans (effective_written fs).symm,
    refines.blockGroupHint, refines.inodeGroupHint⟩

end

theorem step_refines (geometry : Geometry) :
    Keeps (step geometry) (Through.step geometry) (fun _ _ => True) (Refines geometry) := by
  intro fs through action refines _
  cases action with
  | allocBlock =>
    obtain ⟨number, kept⟩ := allocBlockFrom_refines geometry.groupCount 0 fs through refines
    exact ⟨congrArg Reply.number number, kept⟩
  | freeBlock block =>
    obtain ⟨ok, kept⟩ := freeBlock_refines through refines block.toNat
    exact ⟨congrArg Reply.done ok, kept⟩
  | allocInode =>
    obtain ⟨number, kept⟩ := allocInodeFrom_refines geometry.groupCount 0 fs through refines
    exact ⟨congrArg Reply.number number, kept⟩
  | freeInode inodeNum => exact freeInode_refines through refines inodeNum
  | sync => exact ⟨rfl, sync_refines through refines⟩

def Used (bitmaps : Nat → Bytes) (group bit : Nat) : Prop :=
  Bitmap.test (bitmaps group) bit = true

/-- `number` counts the bits of all groups from `base`, and the one taken was free in
`before` and is used in `after`; 0 means that no group has a free bit. -/
structure Taken (groupCount perGroup base : Nat) (before after : Nat → Bytes)
    (number : Nat) : Prop where
  free : number ≠ 0 → ∃ group bit, group < groupCount ∧ bit < perGroup ∧
    number = base + group * perGroup + bit ∧ ¬ Used before group bit ∧ Used after group bit
  full : number = 0 → ∀ group bit, group < groupCount → bit < perGroup → Used before group bit

/-- The groups tried from `hint` on are all of them. -/
theorem group_tried {groupCount : Nat} (hint group : Nat) (inside : group < groupCount) :
    ∃ k < groupCount, (hint + k) % groupCount = group := by
  have small := Nat.mod_lt hint (by omega : groupCount > 0)
  refine ⟨(group + (groupCount - hint % groupCount)) % groupCount, Nat.mod_lt _ (by omega), ?_⟩
  rw [Nat.add_mod_mod]
  have split := Nat.div_add_mod hint groupCount
  have sum : hint + (group + (groupCount - hint % groupCount)) =
      group + groupCount * (hint / groupCount + 1) := by
    rw [Nat.mul_add]
    omega
  rw [sum, Nat.add_mul_mod_self_left, Nat.mod_eq_of_lt inside]

theorem scanBits_some {bitmap : Bytes} {count bit : Nat}
    (found : scanBits bitmap count = some bit) :
    bit < count ∧ Bitmap.test bitmap bit = false := by
  have scan := scanBits_first bitmap count
  rw [found] at scan
  exact ⟨scan.2.1, scan.2.2.1⟩

theorem scanBits_none {bitmap : Bytes} {count : Nat} (found : scanBits bitmap count = none) :
    ∀ bit < count, Bitmap.test bitmap bit = true := by
  have scan := scanBits_first bitmap count
  rw [found] at scan
  exact fun bit high => scan bit (Nat.zero_le _) high

/-- The first group with a clear bit, from the `k`-th behind the hint on. -/
def tryGroups (groupCount perGroup hint : Nat) (bitmaps : Nat → Bytes) (left k : Nat) :
    Option (Nat × Nat) :=
  (List.range' k left).findSome? fun j =>
    (scanBits (bitmaps ((hint + j) % groupCount)) perGroup).map ((hint + j) % groupCount, ·)

theorem tryGroups_succ {groupCount perGroup hint left k : Nat} {bitmaps : Nat → Bytes} :
    tryGroups groupCount perGroup hint bitmaps (left + 1) k =
      match scanBits (bitmaps ((hint + k) % groupCount)) perGroup with
      | some bit => some ((hint + k) % groupCount, bit)
      | none => tryGroups groupCount perGroup hint bitmaps left (k + 1) := by
  rw [tryGroups, List.range'_succ, List.findSome?_cons]
  cases scanBits (bitmaps ((hint + k) % groupCount)) perGroup <;> rfl

theorem tryGroups_some {groupCount perGroup hint group bit : Nat} {bitmaps : Nat → Bytes}
    (found : tryGroups groupCount perGroup hint bitmaps groupCount 0 = some (group, bit)) :
    group < groupCount ∧ bit < perGroup ∧ ¬ Used bitmaps group bit := by
  obtain ⟨j, tried, here⟩ := List.exists_of_findSome?_eq_some found
  obtain ⟨bit, scanned, same⟩ := Option.map_eq_some_iff.mp here
  cases same
  obtain ⟨inside, clear⟩ := scanBits_some scanned
  have below := List.mem_range'_1.mp tried
  exact ⟨Nat.mod_lt _ (by omega), inside, by simp [Used, clear]⟩

theorem tryGroups_none {groupCount perGroup hint group bit : Nat} {bitmaps : Nat → Bytes}
    (found : tryGroups groupCount perGroup hint bitmaps groupCount 0 = none)
    (inGroup : group < groupCount) (inBit : bit < perGroup) : Used bitmaps group bit := by
  obtain ⟨k, low, rfl⟩ := group_tried hint group inGroup
  have failed := List.findSome?_eq_none_iff.mp found k (List.mem_range'_1.mpr (by omega))
  exact scanBits_none (Option.map_eq_none_iff.mp failed) bit inBit

theorem Through.allocBlockFrom_eq (left k : Nat) (fs : Through) :
    Through.allocBlockFrom geometry left k fs =
      match tryGroups geometry.groupCount geometry.blocksPerGroup fs.blockGroupHint
        fs.disk.blockBitmap left k with
      | some (group, bit) =>
        (geometry.firstDataBlock + group * geometry.blocksPerGroup + bit,
          { fs with disk := fs.disk.takeBlock group bit, blockGroupHint := group })
      | none => (0, fs) := by
  induction left generalizing k with
  | zero => rfl
  | succ _ ih =>
    rw [Through.allocBlockFrom, tryGroups_succ]
    cases scanBits (fs.disk.blockBitmap ((fs.blockGroupHint + k) % geometry.groupCount))
        geometry.blocksPerGroup with
    | none => exact ih (k + 1)
    | some => rfl

theorem allocInodeFrom_eq (left k : Nat) (inodes : Inodes) :
    allocInodeFrom geometry left k inodes =
      match tryGroups geometry.groupCount geometry.inodesPerGroup inodes.hint
        inodes.disk.inodeBitmap left k with
      | some (group, bit) =>
        (group * geometry.inodesPerGroup + bit + 1,
          { disk := (inodes.disk.writeInodeBitmap group
              (Bitmap.insert (inodes.disk.inodeBitmap group) bit)).decFreeInodes group
            hint := group })
      | none => (0, inodes) := by
  induction left generalizing k with
  | zero => rfl
  | succ _ ih =>
    rw [allocInodeFrom, tryGroups_succ]
    cases scanBits (inodes.disk.inodeBitmap ((inodes.hint + k) % geometry.groupCount))
        geometry.inodesPerGroup with
    | none => exact ih (k + 1)
    | some => rfl

theorem used_insert {bitmaps : Nat → Bytes} {group bit group' bit' : Nat} :
    Used (Function.update bitmaps group (Bitmap.insert (bitmaps group) bit)) group' bit' ↔
      Used bitmaps group' bit' ∨ (group' = group ∧ bit' = bit) := by
  unfold Used
  by_cases same : group' = group
  · subst same
    rw [Function.update_self, Bitmap.test_insert (by decide)]
    simp [or_comm]
  · simp [same]

/-- Either one bit is set that was clear, or every group is full and nothing happens. -/
theorem Through.allocBlock_cases (geometry : Geometry) (fs : Through) :
    (∃ group bit, group < geometry.groupCount ∧ bit < geometry.blocksPerGroup ∧
      ¬ Used fs.disk.blockBitmap group bit ∧
      (Through.allocBlock geometry fs).1 =
        geometry.firstDataBlock + group * geometry.blocksPerGroup + bit ∧
      ∀ group' bit', Used (Through.allocBlock geometry fs).2.disk.blockBitmap group' bit' ↔
        Used fs.disk.blockBitmap group' bit' ∨ (group' = group ∧ bit' = bit)) ∨
    (Through.allocBlock geometry fs = (0, fs) ∧ ∀ group bit, group < geometry.groupCount →
      bit < geometry.blocksPerGroup → Used fs.disk.blockBitmap group bit) := by
  rw [Through.allocBlock, Through.allocBlockFrom_eq]
  cases found : tryGroups geometry.groupCount geometry.blocksPerGroup fs.blockGroupHint
      fs.disk.blockBitmap geometry.groupCount 0 with
  | none => exact .inr ⟨rfl, fun _ _ => tryGroups_none found⟩
  | some =>
    obtain ⟨inGroup, inBit, clear⟩ := tryGroups_some found
    exact .inl ⟨_, _, inGroup, inBit, clear, rfl, fun _ _ => used_insert⟩

def BootBlockHeld (geometry : Geometry) (disk : Disk) : Prop :=
  geometry.firstDataBlock = 0 → Used disk.blockBitmap 0 0

theorem BootBlockHeld.number_ne {disk : Disk} {group bit : Nat} (boot : BootBlockHeld geometry disk)
    (inBit : bit < geometry.blocksPerGroup) (clear : ¬ Used disk.blockBitmap group bit) :
    geometry.firstDataBlock + group * geometry.blocksPerGroup + bit ≠ 0 := by
  intro zero
  have atStart : group = 0 := by
    by_contra later
    have := Nat.mul_pos (Nat.pos_of_ne_zero later) (by omega : 0 < geometry.blocksPerGroup)
    omega
  have firstBit : bit = 0 := by omega
  subst atStart firstBit
  exact clear (boot (by omega))

theorem Through.allocBlock_taken (fs : Through) (boot : BootBlockHeld geometry fs.disk) :
    Taken geometry.groupCount geometry.blocksPerGroup geometry.firstDataBlock
      fs.disk.blockBitmap (Through.allocBlock geometry fs).2.disk.blockBitmap
      (Through.allocBlock geometry fs).1 := by
  rcases Through.allocBlock_cases geometry fs with
    ⟨group, bit, inGroup, inBit, clear, number, used⟩ | ⟨failed, full⟩
  · refine ⟨fun _ => ⟨group, bit, inGroup, inBit, number, clear, (used _ _).mpr (.inr ⟨rfl, rfl⟩)⟩,
      fun zero => ?_⟩
    exact absurd (number.symm.trans zero) (boot.number_ne inBit clear)
  · rw [failed]
    exact ⟨fun found => absurd rfl found, fun _ => full⟩

theorem allocInode_taken (inodes : Inodes) :
    Taken geometry.groupCount geometry.inodesPerGroup 1 inodes.disk.inodeBitmap
      (allocInode geometry inodes).2.disk.inodeBitmap (allocInode geometry inodes).1 := by
  rw [allocInode, allocInodeFrom_eq]
  cases found : tryGroups geometry.groupCount geometry.inodesPerGroup inodes.hint
      inodes.disk.inodeBitmap geometry.groupCount 0 with
  | none => exact ⟨fun failed => absurd rfl failed, fun _ _ _ => tryGroups_none found⟩
  | some =>
    obtain ⟨inGroup, inBit, clear⟩ := tryGroups_some found
    refine ⟨fun _ => ⟨_, _, inGroup, inBit, ?_, clear, used_insert.mpr (.inr ⟨rfl, rfl⟩)⟩,
      fun zero => absurd zero (Nat.succ_ne_zero _)⟩
    dsimp only
    omega

theorem Through.allocInodeFrom_blockBitmap (left k : Nat) (fs : Through) :
    (Through.allocInodeFrom geometry left k fs).2.disk.blockBitmap = fs.disk.blockBitmap := by
  induction left generalizing k with
  | zero => rfl
  | succ _ ih =>
    rw [Through.allocInodeFrom]
    split
    · rfl
    · exact ih (k + 1)

theorem freeBlock_boot (fs : Through) (boot : BootBlockHeld geometry fs.disk)
    (block : BitVec 32) (real : block ≠ 0) :
    BootBlockHeld geometry (Through.freeBlock geometry fs block.toNat).2.disk := by
  intro atZero
  have held := boot atZero
  rw [Through.freeBlock_eq]
  split
  · exact held
  · split
    · simp only [Used, Disk.giveBlock] at held ⊢
      by_cases first : 0 = groupOf geometry block.toNat
      · rw [← first, Function.update_self, Bitmap.test_remove (by decide), held]
        -- Block 0 would be the only one with this bit.
        have other : ¬ 0 = bitOf geometry block.toNat := by
          intro same
          apply real
          have whole := Nat.div_add_mod (minus block.toNat 0) geometry.blocksPerGroup
          simp only [groupOf, bitOf, atZero] at first same
          rw [← first, ← same] at whole
          have zero : block.toNat = 0 := by
            simp only [minus] at whole
            omega
          exact BitVec.eq_of_toNat_eq zero
        simp [other]
      · rw [Function.update_of_ne first]
        exact held
    · exact held

/-- The callers of `ext2_free_block` skip pointers that are 0. -/
def Real : Action → Prop
  | .freeBlock block => block ≠ 0
  | _ => True

theorem through_boot (fs : Through) (action : Action) (real : Real action)
    (boot : BootBlockHeld geometry fs.disk) :
    BootBlockHeld geometry (Through.step geometry fs action).2.disk := by
  cases action with
  | allocBlock =>
    intro atZero
    rcases Through.allocBlock_cases geometry fs with ⟨_, _, _, _, _, _, used⟩ | ⟨failed, _⟩
    · exact (used 0 0).mpr (.inl (boot atZero))
    · simp only [Through.step, failed]
      exact boot atZero
  | freeBlock block => exact freeBlock_boot fs boot block real
  | allocInode =>
    intro atZero
    simp only [Through.step, Through.allocInode, Through.allocInodeFrom_blockBitmap]
    exact boot atZero
  | freeInode =>
    intro atZero
    simp only [Through.step, Through.freeInode_eq]
    split
    · exact boot atZero
    · exact boot atZero
  | sync => exact boot

theorem after_boot (actions : List Action) (fs : Through)
    (real : ∀ action ∈ actions, Real action) (boot : BootBlockHeld geometry fs.disk) :
    BootBlockHeld geometry (after (Through.step geometry) fs actions).disk := by
  induction actions generalizing fs with
  | nil => exact boot
  | cons action _ ih =>
    apply ih
    · exact fun next member => real next (List.mem_cons_of_mem action member)
    · exact through_boot fs action (real action List.mem_cons_self) boot

/-- Every answer is that of write-through allocation, a sync leaves its disk, and what
an allocation returns was free on it. -/
theorem bitmap_cache_refines (geometry : Geometry) (disk : Disk) (actions : List Action)
    (boot : BootBlockHeld geometry disk) (real : ∀ action ∈ actions, Real action) :
    let fs := after (step geometry) (mounted disk) actions
    let through := after (Through.step geometry) (Through.mounted disk) actions
    replies (step geometry) (mounted disk) actions =
        replies (Through.step geometry) (Through.mounted disk) actions ∧
      (sync fs).disk = through.disk ∧
      Taken geometry.groupCount geometry.blocksPerGroup geometry.firstDataBlock
        through.disk.blockBitmap (sync (allocBlock geometry fs).2).disk.blockBitmap
        (allocBlock geometry fs).1 ∧
      Taken geometry.groupCount geometry.inodesPerGroup 1 through.disk.inodeBitmap
        (allocInode geometry ⟨fs.disk, fs.inodeGroupHint⟩).2.disk.inodeBitmap
        (allocInode geometry ⟨fs.disk, fs.inodeGroupHint⟩).1 := by
  intro fs through
  have admitted : Admitted (step geometry) (fun _ _ => True) (mounted disk) actions :=
    admitted_of_forall _ actions fun _ _ => trivial
  have refines : Refines geometry fs through :=
    (step_refines geometry).after_related _ _ actions (mounted_refines geometry disk) admitted
  have held : BootBlockHeld geometry through.disk :=
    after_boot actions (Through.mounted disk) real boot
  refine ⟨?_, ?_, ?_, ?_⟩
  · exact (step_refines geometry).replies_eq _ _ actions (mounted_refines geometry disk) admitted
  · rw [sync, bmFlushGroup_eq refines.sound, refines.disk]
    rfl
  · obtain ⟨number, next⟩ := allocBlockFrom_refines geometry.groupCount 0 fs through refines
    have taken := through.allocBlock_taken held
    rw [sync, allocBlock, bmFlushGroup_eq next.sound, number]
    change Taken _ _ _ _ (effective _).blockBitmap _
    rw [← next.disk]
    exact taken
  · rw [refines.disk, effective_inodeBitmap]
    exact allocInode_taken ⟨fs.disk, fs.inodeGroupHint⟩

def twoGroups : Geometry := ⟨1, 2, 8, 8, rfl, by decide, by decide⟩

def blank : Disk := ⟨fun _ _ => 0, fun _ _ => 0, fun _ => 8, fun _ => 8, 16, 16⟩

/-- The free of block 9 switches to the second group, the next allocation stays in the
first. -/
def switching : List Action :=
  [.allocBlock, .allocBlock, .freeBlock 9, .freeBlock 1, .sync, .allocInode, .allocBlock]

theorem bitmap_cache_refines_switching :
    (∀ action ∈ switching, Real action) ∧
    replies (step twoGroups) (mounted blank) switching =
      [.number 1, .number 2, .done true, .done true, .done true, .number 1, .number 1] ∧
    replies (step twoGroups) (mounted blank) switching =
      replies (Through.step twoGroups) (Through.mounted blank) switching := by
  have real : ∀ action ∈ switching, Real action := by
    simp [switching, Real]
  refine ⟨real, by decide, ?_⟩
  exact (bitmap_cache_refines twoGroups blank switching (fun atZero => by cases atZero) real).1

end Racccoon.Ext2.Bitmaps
