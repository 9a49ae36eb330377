import Racccoon.Ext2.BlockWalks

/-!
What the five walks do on a block whose records tile it: none of them leaves it, and placing
a record cuts the one it is packed into to the bytes it uses, gives the new one the rest
and changes nothing else.
-/

namespace Racccoon.Ext2.Walks

section Fields
variable {block other : Block} {offset : Nat}

def Same (block other : Block) (first last : Nat) : Prop :=
  ∀ position, first ≤ position → position < last → other position = block position

theorem Same.sub {first last inner outer : Nat} (same : Same block other first last)
    (after : first ≤ inner) (before : outer ≤ last) : Same block other inner outer :=
  fun position low high => same position (by omega) (by omega)

theorem leAt_congr {width : Nat} (same : Same block other offset (offset + width)) :
    leAt other offset width = leAt block offset width := by
  induction width generalizing offset with
  | zero => rfl
  | succ _ ih =>
    rw [leAt, leAt, same offset (by omega) (by omega), ih (same.sub (by omega) (by omega))]

theorem leAt_lt (block : Block) (offset width : Nat) : leAt block offset width < 256 ^ width := by
  induction width generalizing offset with
  | zero => simp [leAt]
  | succ _ ih =>
    have low : (block offset).toNat < 256 := (block offset).toNat_lt
    have high := ih (offset + 1)
    rw [leAt]
    omega

theorem leAt_of_bytes {width value : Nat} (small : value < 256 ^ width)
    (holds : ∀ k < width, (block (offset + k)).toNat = value / 256 ^ k % 256) :
    leAt block offset width = value := by
  induction width generalizing offset value with
  | zero =>
    rw [leAt]
    omega
  | succ _ ih =>
    have low := holds 0 (by omega)
    rw [Nat.add_zero] at low
    have high := @ih (offset + 1) (value / 256) (by omega)
      (fun k inside => by
        have byte := holds (k + 1) (by omega)
        rw [Nat.pow_succ', ← Nat.div_div_eq_div_mul] at byte
        rw [Nat.add_assoc, Nat.add_comm 1 k]
        exact byte)
    rw [leAt]
    omega

theorem inodeAt_congr (same : Same block other offset (offset + 4)) :
    inodeAt other offset = inodeAt block offset := leAt_congr same

theorem recLenAt_congr (same : Same block other (offset + 4) (offset + 6)) :
    recLenAt other offset = recLenAt block offset := leAt_congr same

theorem nameLenAt_congr (same : Same block other (offset + 6) (offset + 7)) :
    nameLenAt other offset = nameLenAt block offset := by
  rw [nameLenAt, nameLenAt, same (offset + 6) (by omega) (by omega)]

theorem nameAt_congr (length : nameLenAt other offset = nameLenAt block offset)
    (same : Same block other (offset + 8) (offset + 8 + nameLenAt block offset)) :
    nameAt other offset = nameAt block offset := by
  rw [nameAt, length]
  refine List.map_congr_left fun k inside => ?_
  rw [List.mem_range] at inside
  exact same _ (by omega) (by omega)

/-- A record's live entry is in the bytes before and behind its length. -/
theorem liveHere_congr (front : Same block other offset (offset + 4))
    (back : inodeAt block offset ≠ 0 →
      Same block other (offset + 6) (offset + 8 + nameLenAt block offset)) :
    liveHere other offset = liveHere block offset := by
  rw [liveHere, liveHere, inodeAt_congr front]
  split
  · rfl
  · next live =>
      have length := nameLenAt_congr ((back live).sub (Nat.le_refl _) (by omega))
      rw [nameAt_congr length ((back live).sub (by omega) (Nat.le_refl _))]

theorem recLenAt_lt (block : Block) (offset : Nat) : recLenAt block offset < 2 ^ 16 :=
  leAt_lt block (offset + 4) 2

theorem nameLenAt_lt (block : Block) (offset : Nat) : nameLenAt block offset < 256 :=
  (block (offset + 6)).toNat_lt

end Fields

section Tilings
variable {size : Nat} {block other : Block} {offset : Nat}

theorem Tiled.le (tiled : Tiled size block offset) : offset ≤ size := by
  induction tiled with
  | done => exact Nat.le_refl _
  | record _ _ ih => exact Nat.le_trans (Nat.le_add_right _ _) ih

theorem Tiled.split (tiled : Tiled size block offset) (inside : offset < size) :
    Shaped block offset ∧ Tiled size block (offset + recLenAt block offset) := by
  cases tiled with
  | done => omega
  | record shaped rest => exact ⟨shaped, rest⟩

theorem Shaped.congr (shaped : Shaped block offset)
    (same : Same block other offset (offset + recLenAt block offset)) :
    Shaped other offset ∧ recLenAt other offset = recLenAt block offset ∧
      liveHere other offset = liveHere block offset := by
  have header := shaped.header
  have length := recLenAt_congr (same.sub (Nat.le_add_right offset 4) (by omega))
  have inode := inodeAt_congr (same.sub (Nat.le_refl _) (by omega))
  have name := nameLenAt_congr (same.sub (Nat.le_add_right offset 6) (by omega))
  refine ⟨⟨by omega, length ▸ shaped.aligned, ?_⟩, length, ?_⟩
  · rw [inode, name, length]
    exact shaped.named
  · refine liveHere_congr (same.sub (Nat.le_refl _) (by omega)) fun live => ?_
    have named := shaped.named live
    exact same.sub (by omega) (by omega)

theorem liveFrom_end : liveFrom size block size = [] := by
  rw [liveFrom, if_pos (Or.inl (Nat.le_refl _))]

theorem liveFrom_record (shaped : Shaped block offset) (inside : offset < size) :
    liveFrom size block offset =
      liveHere block offset ++ liveFrom size block (offset + recLenAt block offset) := by
  have header := shaped.header
  rw [liveFrom, if_neg (by omega)]

theorem Tiled.congr (tiled : Tiled size block offset) (same : Same block other offset size) :
    Tiled size other offset ∧ liveFrom size other offset = liveFrom size block offset := by
  induction tiled with
  | done => exact ⟨.done, by rw [liveFrom_end, liveFrom_end]⟩
  | @record _ shaped rest ih =>
    have header := shaped.header
    have inside := rest.le
    obtain ⟨shaped', length, live⟩ := shaped.congr (same.sub (Nat.le_refl _) inside)
    obtain ⟨rest', links⟩ := ih (same.sub (by omega) (Nat.le_refl _))
    refine ⟨.record shaped' (length ▸ rest'), ?_⟩
    rw [liveFrom_record shaped' (by omega), liveFrom_record shaped (by omega), live, length,
      links]

theorem Shaped.used_le (shaped : Shaped block offset) :
    usedAt block offset ≤ recLenAt block offset := by
  unfold usedAt
  split
  · exact Nat.zero_le _
  · next live =>
      have named := shaped.named live
      obtain ⟨words, whole⟩ := shaped.aligned
      unfold ext2DirentIdeal
      omega

theorem slackOf_eq {recLen used : Nat} (le : used ≤ recLen) (short : recLen < 2 ^ 16) :
    slackOf recLen used = recLen - used := by
  rw [slackOf, show recLen + 2 ^ 32 - used = recLen - used + 2 ^ 32 by omega, Nat.add_mod_right,
    Nat.mod_eq_of_lt (by omega)]

end Tilings

section Packing
variable {size : Nat} {block : Block} {offset child : Nat} {name : List UInt8}

structure Roomy (name : List UInt8) (block : Block) (offset : Nat) : Prop where
  shaped : Shaped block offset
  room : usedAt block offset + ext2DirentIdeal name.length ≤ recLenAt block offset

theorem name_fits (length : Nat) : 8 + length ≤ ext2DirentIdeal length := by
  unfold ext2DirentIdeal
  omega

theorem live_uses (live : inodeAt block offset ≠ 0) :
    8 + nameLenAt block offset ≤ usedAt block offset := by
  rw [usedAt, if_neg live]
  exact name_fits _

theorem packAt_name_byte {position : Nat} (after : offset + usedAt block offset + 8 ≤ position)
    (before : position < offset + usedAt block offset + 8 + name.length) :
    packAt name child block offset position =
      name.getD (position - (offset + usedAt block offset + 8)) 0 := by
  unfold packAt
  rw [if_pos ⟨after, before⟩]

/-- Outside the new record and the length of the old one nothing changes. -/
theorem packAt_other {position : Nat}
    (apart : position < offset + usedAt block offset ∨
      offset + usedAt block offset + 8 + name.length ≤ position)
    (length : usedAt block offset = 0 ∨ position < offset + 4 ∨ offset + 6 ≤ position) :
    packAt name child block offset position = block position := by
  unfold packAt
  rw [if_neg (by omega)]
  simp only [putLe]
  rw [if_neg (by omega), if_neg (by omega), if_neg (by omega), if_neg (by omega)]
  split
  · exact if_neg (by omega)
  · rfl

theorem packAt_shrunk (used : usedAt block offset ≠ 0) (short : usedAt block offset < 2 ^ 16)
    (long : 8 ≤ usedAt block offset) :
    recLenAt (packAt name child block offset) offset = usedAt block offset := by
  refine leAt_of_bytes short fun k inside => ?_
  unfold packAt
  rw [if_neg (by omega)]
  simp only [putLe]
  rw [if_neg (by omega), if_neg (by omega), if_neg (by omega), if_neg (by omega), if_pos used,
    putLe, if_pos (by omega), Nat.add_sub_cancel_left]
  exact UInt8.toNat_ofNat'

theorem packAt_inode (word : child < 2 ^ 32) :
    inodeAt (packAt name child block offset) (offset + usedAt block offset) = child := by
  refine leAt_of_bytes word fun k inside => ?_
  unfold packAt
  rw [if_neg (by omega)]
  simp only [putLe]
  rw [if_neg (by omega), if_neg (by omega), if_neg (by omega), if_pos (by omega),
    Nat.add_sub_cancel_left]
  exact UInt8.toNat_ofNat'

theorem packAt_recLen (roomy : Roomy name block offset) :
    recLenAt (packAt name child block offset) (offset + usedAt block offset) =
      recLenAt block offset - usedAt block offset := by
  have short := recLenAt_lt block offset
  refine leAt_of_bytes (show _ < 2 ^ 16 by omega) fun k inside => ?_
  unfold packAt
  rw [if_neg (by omega)]
  simp only [putLe]
  rw [if_neg (by omega), if_neg (by omega), if_pos (by omega),
    slackOf_eq roomy.shaped.used_le short, Nat.add_sub_cancel_left]
  exact UInt8.toNat_ofNat'

theorem packAt_nameLen :
    nameLenAt (packAt name child block offset) (offset + usedAt block offset) =
      name.length % 256 := by
  unfold nameLenAt packAt
  rw [if_neg (by omega)]
  simp only [putLe]
  rw [if_neg (by omega), if_pos (by omega), Nat.sub_self, Nat.pow_zero, Nat.div_one]
  exact UInt8.toNat_ofNat'

theorem packAt_name :
    nameAt (packAt name child block offset) (offset + usedAt block offset) = storedName name := by
  have short : name.length % 256 ≤ name.length := Nat.mod_le _ _
  rw [nameAt, packAt_nameLen, storedName]
  refine List.ext_getElem (by simp [short]) fun k inside stored => ?_
  simp only [List.length_map, List.length_range] at inside
  rw [List.getElem_map, List.getElem_range, packAt_name_byte (by omega) (by omega),
    Nat.add_sub_cancel_left, List.getD_eq_getElem?_getD, List.getElem?_eq_getElem (by omega),
    Option.getD_some, List.getElem_take]

/-- The new record has the right shape and is live. -/
theorem packed_record (roomy : Roomy name block offset) (live : child ≠ 0) (word : child < 2 ^ 32) :
    Shaped (packAt name child block offset) (offset + usedAt block offset) ∧
      liveHere (packAt name child block offset) (offset + usedAt block offset) =
        [(offset + usedAt block offset, child, storedName name)] := by
  have fits := name_fits name.length
  have room := roomy.room
  constructor
  · refine ⟨?_, ?_, fun _ => ?_⟩
    · rw [packAt_recLen roomy]
      omega
    · rw [packAt_recLen roomy]
      refine Nat.dvd_sub roomy.shaped.aligned ?_
      unfold usedAt
      split
      · exact Nat.dvd_zero 4
      · exact Nat.dvd_mul_left 4 _
    · rw [packAt_recLen roomy, packAt_nameLen]
      omega
  · rw [liveHere, packAt_inode word, if_neg live, packAt_name]

/-- The record packed into stands where it stood, cut to what it uses. -/
theorem packed_old (live : inodeAt block offset ≠ 0) :
    Shaped (packAt name child block offset) offset ∧
      recLenAt (packAt name child block offset) offset = usedAt block offset ∧
      liveHere (packAt name child block offset) offset = liveHere block offset := by
  have uses := live_uses live
  have name_short := nameLenAt_lt block offset
  have used : usedAt block offset = ext2DirentIdeal (nameLenAt block offset) := if_neg live
  have short : usedAt block offset < 2 ^ 16 := by
    rw [used]
    unfold ext2DirentIdeal
    omega
  have front : Same block (packAt name child block offset) offset (offset + 4) :=
    fun position low high => packAt_other (by omega) (by omega)
  have back : Same block (packAt name child block offset) (offset + 6)
      (offset + 8 + nameLenAt block offset) :=
    fun position low high => packAt_other (by omega) (by omega)
  have length := @packAt_shrunk block offset child name (by omega) short (by omega)
  have named := nameLenAt_congr (back.sub (Nat.le_refl _) (by omega))
  refine ⟨⟨by omega, ?_, fun _ => by omega⟩, length, liveHere_congr front fun _ => back⟩
  rw [length, used]
  exact Nat.dvd_mul_left 4 _

theorem packed_tiled (roomy : Roomy name block offset) (inside : offset < size)
    (rest : Tiled size block (offset + recLenAt block offset)) (live : child ≠ 0)
    (word : child < 2 ^ 32) :
    Tiled size (packAt name child block offset) offset ∧
      liveFrom size (packAt name child block offset) offset =
        liveHere block offset ++ (offset + usedAt block offset, child, storedName name) ::
          liveFrom size block (offset + recLenAt block offset) := by
  have fits := name_fits name.length
  have room := roomy.room
  have ends := rest.le
  obtain ⟨shaped, link⟩ := packed_record roomy live word
  obtain ⟨rest', links⟩ := rest.congr (fun position low high =>
    packAt_other (by omega) (by omega) :
      Same block (packAt name child block offset) (offset + recLenAt block offset) size)
  have behind : offset + usedAt block offset +
      recLenAt (packAt name child block offset) (offset + usedAt block offset) =
        offset + recLenAt block offset := by
    rw [packAt_recLen roomy]
    omega
  have tail : Tiled size (packAt name child block offset) (offset + usedAt block offset) :=
    .record shaped (behind ▸ rest')
  have listed : liveFrom size (packAt name child block offset) (offset + usedAt block offset) =
      (offset + usedAt block offset, child, storedName name) ::
        liveFrom size block (offset + recLenAt block offset) := by
    rw [liveFrom_record shaped (by omega), link, behind, links]
    rfl
  by_cases deleted : inodeAt block offset = 0
  · have used : usedAt block offset = 0 := if_pos deleted
    rw [used] at tail listed
    rw [used, liveHere, if_pos deleted]
    exact ⟨tail, listed⟩
  · obtain ⟨shaped', length, same⟩ := @packed_old block offset child name deleted
    refine ⟨.record shaped' (length ▸ tail), ?_⟩
    rw [liveFrom_record shaped' inside, same, length, listed]

end Packing

section Placing
variable {size : Nat} {block packed : Block} {offset child : Nat} {name : List UInt8}

/-- A round of the placer on a tiling packs into the record or goes on behind it. -/
theorem placeFrom_record {fuel : Nat} (shaped : Shaped block offset)
    (ends : offset + recLenAt block offset ≤ size) :
    (placeFrom size name child block (fuel + 1) offset).2 =
      if ext2DirentIdeal name.length ≤ recLenAt block offset - usedAt block offset then
        some (some (offset, packAt name child block offset))
      else (placeFrom size name child block fuel (offset + recLenAt block offset)).2 := by
  have header := shaped.header
  rw [placeFrom, if_pos (by omega)]
  dsimp only
  rw [if_neg (by omega), slackOf_eq shaped.used_le (recLenAt_lt block offset)]
  split <;> rfl

/-- Records before the one packed into keep their bytes, and the new record is listed in
its place among the live ones. -/
theorem placeFrom_tiled {fuel spot : Nat} (tiled : Tiled size block offset) (live : child ≠ 0)
    (word : child < 2 ^ 32)
    (placed : (placeFrom size name child block fuel offset).2 = some (some (spot, packed))) :
    Same block packed 0 offset ∧ Tiled size packed offset ∧ ∃ front back made,
      liveFrom size block offset = front ++ back ∧
        liveFrom size packed offset = front ++ (made, child, storedName name) :: back := by
  induction fuel generalizing offset with
  | zero => cases placed
  | succ _ ih =>
    by_cases inside : offset < size
    · obtain ⟨shaped, rest⟩ := tiled.split inside
      have ends := rest.le
      rw [placeFrom_record shaped ends] at placed
      split at placed
      · next room =>
          cases placed
          have used := shaped.used_le
          have roomy : Roomy name block spot := ⟨shaped, by omega⟩
          obtain ⟨tiled', links⟩ := packed_tiled roomy inside rest live word
          exact ⟨fun position _ before => packAt_other (by omega) (by omega), tiled',
            liveHere block spot, _, _, liveFrom_record shaped inside, links⟩
      · obtain ⟨same, tiled', front, back, made, before, after⟩ := ih rest placed
        obtain ⟨shaped', length, here⟩ :=
          shaped.congr (same.sub (Nat.zero_le _) (Nat.le_refl _))
        refine ⟨same.sub (Nat.le_refl _) (by omega), .record shaped' (length ▸ tiled'),
          liveHere block offset ++ front, back, made, ?_, ?_⟩
        · rw [liveFrom_record shaped inside, before, List.append_assoc]
        · rw [liveFrom_record shaped' inside, here, length, after, List.append_assoc]
    · rw [placeFrom, if_neg (by omega)] at placed
      cases placed

end Placing

theorem keeps (size : Nat) (block : Block) (walk : Walk) : walk.Keeps size block := by
  cases walk with
  | place _ child =>
    intro tiled fuel spot packed placed
    exact (placeFrom_tiled tiled child.live child.word placed).2
  | find | list | dirIsEmpty | deleteContents => trivial

/-- A walk stays in the block and ends, and placing keeps a tiling, exactly if its records
fit. -/
theorem walk_stays_in_block_iff (size : Nat) (block : Block) (walk : Walk) :
    walk.Safe size block ∧ walk.Keeps size block ↔ walk.Fits size block :=
  (and_iff_left (keeps size block walk)).trans (safe_iff size block walk)

/-- One deleted record of 4092 bytes, which leaves the last four for the next one. -/
def shortTail : Block := fun position =>
  if position = 4 then 0xFC else if position = 5 then 0x0F else 0

/-- The lookup reads the length of the next record behind the end of the block. -/
theorem lookup_reads_behind_block :
    ¬ ((Walk.find [0x61]).Safe 4096 shortTail ∧ (Walk.find [0x61]).Keeps 4096 shortTail) := by
  rintro ⟨⟨_, within⟩, _⟩
  revert within
  decide

end Racccoon.Ext2.Walks
