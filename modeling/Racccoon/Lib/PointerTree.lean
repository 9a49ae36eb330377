import Mathlib.Data.List.Nodup
import Mathlib.Data.List.Pairwise

/-!
Trees of pointers in numbered tables. A slot holds the number of a root, a table holds
numbers of further tables or of leaves, and 0 is no pointer. A node is addressed by its
slot and the indices on the way to it, the last one first.
-/

namespace Racccoon.PointerTree

def follow (entries : Nat → Nat → Nat) (table index : Nat) : Nat :=
  if table = 0 then 0 else entries table index

def node (roots : Nat → Nat) (entries : Nat → Nat → Nat) (slot : Nat) : List Nat → Nat
  | [] => roots slot
  | index :: path => follow entries (node roots entries slot path) index

structure Shape where
  depth : Nat → Nat
  width : Nat

structure Shape.Valid (shape : Shape) (slot : Nat) (path : List Nat) : Prop where
  short : path.length ≤ shape.depth slot
  inside : ∀ index ∈ path, index < shape.width

def Separated (shape : Shape) (roots : Nat → Nat) (entries : Nat → Nat → Nat) : Prop :=
  ∀ slot path slot' path', shape.Valid slot path → shape.Valid slot' path' →
    node roots entries slot path ≠ 0 →
    node roots entries slot path = node roots entries slot' path' →
      slot = slot' ∧ path = path'

variable {shape : Shape} {roots roots' : Nat → Nat} {entries entries' : Nat → Nat → Nat}
  {slot fresh : Nat} {path : List Nat}

@[simp] theorem follow_zero (index : Nat) : follow entries 0 index = 0 := rfl

theorem follow_of_ne {table : Nat} (real : table ≠ 0) (index : Nat) :
    follow entries table index = entries table index :=
  if_neg real

theorem Shape.Valid.tail {index : Nat} (valid : shape.Valid slot (index :: path)) :
    shape.Valid slot path := by
  refine ⟨?_, fun next member => valid.inside next (List.mem_cons_of_mem _ member)⟩
  have := valid.short
  simp only [List.length_cons] at this
  omega

theorem Shape.Valid.head {index : Nat} (valid : shape.Valid slot (index :: path)) :
    index < shape.width :=
  valid.inside index List.mem_cons_self

def Table (shape : Shape) (roots : Nat → Nat) (entries : Nat → Nat → Nat)
    (block : Nat) : Prop :=
  ∃ slot path, shape.Valid slot path ∧ path.length < shape.depth slot ∧
    node roots entries slot path = block

/-- The nodes are those of tables that agree where the trees go. -/
theorem node_congr (same : ∀ slot, roots' slot = roots slot)
    (agree : ∀ table, table ≠ 0 → Table shape roots entries table →
      ∀ index, index < shape.width → entries' table index = entries table index)
    (valid : shape.Valid slot path) :
    node roots' entries' slot path = node roots entries slot path := by
  induction path with
  | nil => exact same slot
  | cons index path ih =>
    rw [node, node, ih valid.tail, follow, follow]
    split
    · rfl
    · next real =>
        exact agree _ real ⟨slot, path, valid.tail, valid.short, rfl⟩ index valid.head

/-- One address gets a new number, and what was elsewhere stays. -/
structure Linked (shape : Shape) (roots : Nat → Nat) (entries : Nat → Nat → Nat)
    (roots' : Nat → Nat) (entries' : Nat → Nat → Nat) (slot : Nat) (path : List Nat)
    (fresh : Nat) : Prop where
  here : node roots' entries' slot path = fresh
  elsewhere : ∀ other way, shape.Valid other way → ¬ (other = slot ∧ way = path) →
    node roots' entries' other way = node roots entries other way

/-- A new root with nothing below it. -/
theorem linked_root (absent : roots slot = 0) (here : roots' slot = fresh)
    (others : ∀ other, other ≠ slot → roots' other = roots other)
    (agree : ∀ table, table ≠ 0 → Table shape roots entries table →
      ∀ index, index < shape.width → entries' table index = entries table index)
    (blank : 0 < shape.depth slot → ∀ index, index < shape.width → entries' fresh index = 0) :
    Linked shape roots entries roots' entries' slot [] fresh := by
  refine ⟨here, fun other way valid apart => ?_⟩
  induction way with
  | nil => exact others other fun same => apart ⟨same, rfl⟩
  | cons index way ih =>
    by_cases below : other = slot ∧ way = []
    · obtain ⟨rfl, rfl⟩ := below
      have deep := valid.short
      simp only [List.length_cons] at deep
      rw [node, node, node, node, absent, here, follow]
      split
      · rfl
      · exact blank (by omega) index valid.head
    · rw [node, node, ih valid.tail below, follow, follow]
      split
      · rfl
      · next real =>
          exact agree _ real ⟨other, way, valid.tail, valid.short, rfl⟩ index valid.head

section Entry
variable {index : Nat}

/-- Changing one entry of a table changes no node elsewhere whose table stays. -/
theorem node_step {other next : Nat} {way : List Nat} (separated : Separated shape roots entries)
    (valid : shape.Valid slot (index :: path)) (real : node roots entries slot path ≠ 0)
    (agree : ∀ table, table ≠ 0 → Table shape roots entries table →
      ∀ next, next < shape.width → ¬ (table = node roots entries slot path ∧ next = index) →
        entries' table next = entries table next) (there : shape.Valid other (next :: way))
    (apart : ¬ (other = slot ∧ next :: way = index :: path))
    (kept : node roots' entries' other way = node roots entries other way) :
    node roots' entries' other (next :: way) = node roots entries other (next :: way) := by
  rw [node, node, kept, follow, follow]
  split
  · rfl
  · next table =>
      apply agree _ table ⟨other, way, there.tail, there.short, rfl⟩ next there.head
      rintro ⟨same, rfl⟩
      obtain ⟨rfl, rfl⟩ := separated _ _ _ _ valid.tail there.tail real same.symm
      exact apart ⟨rfl, rfl⟩

/-- A new entry of a table, with nothing below it. -/
theorem linked_entry (separated : Separated shape roots entries)
    (valid : shape.Valid slot (index :: path)) (real : node roots entries slot path ≠ 0)
    (absent : node roots entries slot (index :: path) = 0) (same : ∀ slot, roots' slot = roots slot)
    (here : entries' (node roots entries slot path) index = fresh)
    (agree : ∀ table, table ≠ 0 → Table shape roots entries table →
      ∀ next, next < shape.width → ¬ (table = node roots entries slot path ∧ next = index) →
        entries' table next = entries table next)
    (blank : path.length + 1 < shape.depth slot →
      ∀ next, next < shape.width → entries' fresh next = 0) :
    Linked shape roots entries roots' entries' slot (index :: path) fresh := by
  -- First the nodes no deeper than the table, so that the table stays where it is.
  have above : ∀ other way, shape.Valid other way → way.length ≤ path.length →
      node roots' entries' other way = node roots entries other way := by
    intro other way there
    induction way with
    | nil => exact fun _ => same other
    | cons next way ih =>
      intro short
      simp only [List.length_cons] at short
      apply node_step separated valid real agree there _ (ih there.tail (by omega))
      rintro ⟨-, equal⟩
      have := congrArg List.length equal
      simp only [List.length_cons] at this
      omega
  have linked : node roots' entries' slot (index :: path) = fresh := by
    rw [node, above slot path valid.tail (Nat.le_refl _), follow_of_ne real, here]
  refine ⟨linked, fun other way there apart => ?_⟩
  induction way with
  | nil => exact same other
  | cons next way ih =>
    by_cases below : other = slot ∧ way = index :: path
    · obtain ⟨rfl, rfl⟩ := below
      have deep := there.short
      simp only [List.length_cons] at deep
      change follow entries' (node roots' entries' other (index :: path)) next =
        follow entries (node roots entries other (index :: path)) next
      rw [linked, absent, follow]
      split
      · rfl
      · exact blank (by omega) next there.head
    · exact node_step separated valid real agree there apart (ih there.tail below)

end Entry

/-- A number that stood nowhere leaves the trees separated. -/
theorem Linked.separated (linked : Linked shape roots entries roots' entries' slot path fresh)
    (separated : Separated shape roots entries)
    (unused : ∀ other way, shape.Valid other way → node roots entries other way ≠ 0 →
      node roots entries other way ≠ fresh) : Separated shape roots' entries' := by
  intro first way second way' firstValid secondValid real same
  by_cases firstHere : first = slot ∧ way = path
  · by_cases secondHere : second = slot ∧ way' = path
    · exact ⟨firstHere.1.trans secondHere.1.symm, firstHere.2.trans secondHere.2.symm⟩
    · obtain ⟨rfl, rfl⟩ := firstHere
      rw [linked.elsewhere second way' secondValid secondHere] at same
      rw [same] at real
      exact absurd (same.symm.trans linked.here) (unused second way' secondValid real)
  · rw [linked.elsewhere first way firstValid firstHere] at real same
    by_cases secondHere : second = slot ∧ way' = path
    · obtain ⟨rfl, rfl⟩ := secondHere
      exact absurd (same.trans linked.here) (unused first way firstValid real)
    · rw [linked.elsewhere second way' secondValid secondHere] at same
      exact separated first way second way' firstValid secondValid real same

theorem node_of_suffix {way : List Nat} (above : path <:+ way)
    (real : node roots entries slot way ≠ 0) : node roots entries slot path ≠ 0 := by
  induction way with
  | nil => rwa [List.suffix_nil.mp above]
  | cons index way ih =>
    rcases List.suffix_cons_iff.mp above with same | below
    · rwa [same]
    · apply ih below
      intro none
      rw [node, none] at real
      exact real rfl

/-- The places at and below one, to a depth, each after those below it. -/
def walk (width : Nat) (roots : Nat → Nat) (entries : Nat → Nat → Nat) (slot : Nat) :
    Nat → List Nat → List (List Nat)
  | 0, path => if node roots entries slot path = 0 then [] else [path]
  | levels + 1, path =>
    if node roots entries slot path = 0 then []
    else (List.range width).flatMap
      (fun index => walk width roots entries slot levels (index :: path)) ++ [path]

section Walk
variable {width levels : Nat} {way : List Nat}

theorem walk_empty (none : node roots entries slot path = 0) :
    walk width roots entries slot levels path = [] := by
  cases levels <;> exact if_pos none

theorem walk_zero (real : node roots entries slot path ≠ 0) :
    walk width roots entries slot 0 path = [path] :=
  if_neg real

theorem walk_succ (real : node roots entries slot path ≠ 0) :
    walk width roots entries slot (levels + 1) path = (List.range width).flatMap
      (fun index => walk width roots entries slot levels (index :: path)) ++ [path] :=
  if_neg real

theorem mem_walk (inside : ∀ index ∈ path, index < width) :
    way ∈ walk width roots entries slot levels path ↔
      path <:+ way ∧ way.length ≤ path.length + levels ∧ (∀ index ∈ way, index < width) ∧
        node roots entries slot way ≠ 0 := by
  by_cases real : node roots entries slot path = 0
  · rw [walk_empty real]
    constructor
    · rintro ⟨⟩
    · rintro ⟨above, -, -, there⟩
      exact absurd real (node_of_suffix above there)
  · induction levels generalizing path with
    | zero =>
      rw [walk_zero real, List.mem_singleton]
      constructor
      · rintro rfl
        exact ⟨List.suffix_refl _, Nat.le_refl _, inside, real⟩
      · rintro ⟨above, short, -, -⟩
        exact (above.eq_of_length_le short).symm
    | succ levels ih =>
      rw [walk_succ real, List.mem_append, List.mem_singleton, List.mem_flatMap]
      constructor
      · rintro (⟨index, member, found⟩ | rfl)
        · have next : node roots entries slot (index :: path) ≠ 0 := by
            intro none
            rw [walk_empty none] at found
            cases found
          have within : ∀ other ∈ index :: path, other < width :=
            List.forall_mem_cons.mpr ⟨List.mem_range.mp member, inside⟩
          obtain ⟨above, short, small, there⟩ := (ih within next).mp found
          simp only [List.length_cons] at short
          exact ⟨(List.suffix_cons index path).trans above, by omega, small, there⟩
        · exact ⟨List.suffix_refl _, by omega, inside, real⟩
      · rintro ⟨⟨front, rfl⟩, short, small, there⟩
        rcases List.eq_nil_or_concat front with rfl | ⟨start, index, rfl⟩
        · exact .inr rfl
        · have above : index :: path <:+ start.concat index ++ path := ⟨start, by simp⟩
          have first : index < width := small index (above.subset List.mem_cons_self)
          have within : ∀ other ∈ index :: path, other < width :=
            List.forall_mem_cons.mpr ⟨first, inside⟩
          refine .inl ⟨index, List.mem_range.mpr first, (ih within
            (node_of_suffix above there)).mpr ⟨above, ?_, small, there⟩⟩
          simp only [List.length_cons] at short ⊢
          omega

theorem mem_walk_top :
    way ∈ walk width roots entries slot levels [] ↔
      way.length ≤ levels ∧ (∀ index ∈ way, index < width) ∧ node roots entries slot way ≠ 0 := by
  rw [mem_walk (by simp)]
  simp

theorem walk_below (member : way ∈ walk width roots entries slot levels path) : path <:+ way := by
  induction levels generalizing path with
  | zero =>
    rw [walk] at member
    split at member
    · cases member
    · obtain rfl := List.mem_singleton.mp member
      exact List.suffix_refl _
  | succ levels ih =>
    rw [walk] at member
    split at member
    · cases member
    · rcases List.mem_append.mp member with below | here
      · obtain ⟨index, _, found⟩ := List.mem_flatMap.mp below
        exact (List.suffix_cons index path).trans (ih found)
      · obtain rfl := List.mem_singleton.mp here
        exact List.suffix_refl _

theorem walk_nodup : (walk width roots entries slot levels path).Nodup := by
  induction levels generalizing path with
  | zero =>
    rw [walk]
    split
    · exact List.nodup_nil
    · exact List.nodup_singleton path
  | succ levels ih =>
    rw [walk]
    split
    · exact List.nodup_nil
    · refine List.nodup_append.mpr ⟨?_, List.nodup_singleton path, ?_⟩
      · refine List.nodup_flatMap.mpr ⟨fun index _ => ih, ?_⟩
        refine List.nodup_range.imp fun {one other} apart => ?_
        intro way here there
        have below := List.suffix_of_suffix_length_le (walk_below here) (walk_below there)
          (by simp)
        have same := below.eq_of_length (by simp)
        exact apart (List.cons.inj same).1
      · rintro way below other here rfl
        obtain ⟨index, _, found⟩ := List.mem_flatMap.mp below
        have long := (walk_below found).length_le
        rw [List.mem_singleton.mp here, List.length_cons] at long
        omega

end Walk

def numbers (shape : Shape) (roots : Nat → Nat) (entries : Nat → Nat → Nat) (slot : Nat) :
    List Nat :=
  (walk shape.width roots entries slot (shape.depth slot) []).map (node roots entries slot)

theorem mem_numbers {number : Nat} :
    number ∈ numbers shape roots entries slot ↔
      ∃ path, shape.Valid slot path ∧ node roots entries slot path ≠ 0 ∧
        node roots entries slot path = number := by
  simp only [numbers, List.mem_map, mem_walk_top]
  constructor
  · rintro ⟨way, ⟨short, inside, real⟩, same⟩
    exact ⟨way, ⟨short, inside⟩, real, same⟩
  · rintro ⟨way, valid, real, same⟩
    exact ⟨way, ⟨valid.short, valid.inside, real⟩, same⟩

theorem numbers_nodup (separated : Separated shape roots entries) (slots : List Nat)
    (nodup : slots.Nodup) : (slots.flatMap (numbers shape roots entries)).Nodup := by
  refine List.nodup_flatMap.mpr ⟨fun slot _ => ?_, nodup.imp fun {one other} apart => ?_⟩
  · refine List.Nodup.map_on (fun way here other there same => ?_) walk_nodup
    rw [mem_walk_top] at here there
    obtain ⟨short, inside, real⟩ := here
    obtain ⟨short', inside', -⟩ := there
    exact (separated slot way slot other ⟨short, inside⟩ ⟨short', inside'⟩ real same).2
  · intro number here there
    obtain ⟨way, valid, real, rfl⟩ := mem_numbers.mp here
    obtain ⟨way', valid', -, same⟩ := mem_numbers.mp there
    exact apart (separated one way other way' valid valid' real same.symm).1

theorem separated_of_nodup (slots : List Nat) (all : ∀ slot, slot ∉ slots → roots slot = 0)
    (nodup : (slots.flatMap (numbers shape roots entries)).Nodup) :
    Separated shape roots entries := by
  obtain ⟨each, apart⟩ := List.nodup_flatMap.mp nodup
  have member : ∀ slot path, node roots entries slot path ≠ 0 → slot ∈ slots := by
    intro slot path real
    by_contra outside
    exact node_of_suffix List.nil_suffix real (all slot outside)
  intro slot path slot' path' valid valid' real same
  have here : node roots entries slot path ∈ numbers shape roots entries slot :=
    mem_numbers.mpr ⟨path, valid, real, rfl⟩
  have there : node roots entries slot path ∈ numbers shape roots entries slot' :=
    mem_numbers.mpr ⟨path', valid', same ▸ real, same.symm⟩
  have slots : slot = slot' := by
    by_contra differ
    have symmetric : Std.Symm (Function.onFun List.Disjoint (numbers shape roots entries)) :=
      ⟨fun _ _ disjoint _ there here => disjoint here there⟩
    exact apart.forall (member slot path real) (member slot' path' (same ▸ real)) differ here there
  subst slots
  refine ⟨rfl, List.inj_on_of_nodup_map (each slot (member slot path real)) ?_ ?_ same⟩
  · exact mem_walk_top.mpr ⟨valid.short, valid.inside, real⟩
  · exact mem_walk_top.mpr ⟨valid'.short, valid'.inside, same ▸ real⟩

end Racccoon.PointerTree
