import Racccoon.Net.Accepting

/-!
What every request, segment, timer and death does to the accept queues of ipd, and what an
accept returns in a run that keeps them in order.
-/

namespace Racccoon.Net

open Run
open Racccoon.Tcp (Tcb Seq Segment Byte tcpAbort tcpConnect tcpListen tcpShutdown inputListen
  tcpInput tcpTimers tcpRead tcpWrite)

variable {cj l ti ci li pid tj : Nat}

section Allocated
variable {s grown : Tables} {procs : Procs} {proto : Proto} {pid ci : Nat}

/-- The conversation found was free, and is a new one now. -/
theorem convAlloc_spec (made : convAlloc s procs proto pid = some (ci, grown)) :
    freeConv s = some ci ∧ ci < convMax ∧ (s.convs ci).state = .free ∧
      grown.blocks = s.blocks ∧ grown.births = s.births + 1 ∧
      (∀ cj, cj ≠ ci → grown.convs cj = s.convs cj) ∧
      (grown.convs ci).state = .opened ∧ (grown.convs ci).proto = proto ∧
      (grown.convs ci).tcb = none ∧ (grown.convs ci).born = s.births ∧
      (grown.convs ci).origin = none ∧ (grown.convs ci).handed = false := by
  obtain ⟨found, first, same⟩ := Option.map_eq_some_iff.mp made
  cases same
  have free := List.find?_some first
  have small := List.mem_range.mp (List.mem_of_find?_eq_some first)
  refine ⟨first, small, by simpa using free, rfl, rfl, fun cj other => ?_, ?_⟩
  · exact Function.update_of_ne other ..
  · simp [Tables.setConv]

theorem convAlloc_waiting (made : convAlloc s procs proto pid = some (ci, grown)) (e l : Nat) :
    Waiting grown e l ↔ Waiting s e l := by
  obtain ⟨-, -, free, -, -, others, -, -, -, -, origin, -⟩ := convAlloc_spec made
  by_cases here : e = ci
  · subst here
    simp [Waiting, free, origin]
  · simp only [Waiting, others e here]

theorem convAlloc_linked (linked : Linked s) (fresh : FreshNumber s)
    (made : convAlloc s procs proto pid = some (ci, grown)) : Linked grown := by
  obtain ⟨first, small, free, blocks, births, others, -, -, alone, born, -, -⟩ :=
    convAlloc_spec made
  have unserved : ∀ {ti cj : Nat}, (s.blocks ti).tcb.used = true →
      (s.blocks ti).conv = some cj → cj ≠ ci := by
    rintro ti cj used held rfl
    exact linked.taken used held free
  constructor
  case conv_block =>
    intro cj ti held
    by_cases here : cj = ci
    · subst here
      rw [alone] at held
      cases held
    · rw [others cj here] at held
      rw [blocks]
      exact linked.conv_block cj ti held
  case block_conv =>
    intro ti cj used held
    rw [blocks] at used held
    rw [others cj (unserved used held)]
    exact linked.block_conv ti cj used held
  case free =>
    intro cj free
    by_cases here : cj = ci
    · subst here
      exact alone
    · rw [others cj here] at free ⊢
      exact linked.free cj free
  case small =>
    intro cj taken
    by_cases here : cj = ci
    · subst here
      exact small
    · rw [others cj here] at taken
      exact linked.small cj taken
  case tcp =>
    intro cj other
    by_cases here : cj = ci
    · subst here
      exact alone
    · rw [others cj here] at other ⊢
      exact linked.tcp cj other
  case earlier =>
    intro cj taken
    rw [births]
    by_cases here : cj = ci
    · subst here
      omega
    · rw [others cj here] at taken ⊢
      exact Nat.lt_succ_of_lt (linked.earlier cj taken)
  case inside =>
    intro ti
    rw [blocks]
    exact linked.inside ti
  case births =>
    intro cj ck taken taken' same
    by_cases here : cj = ci
    · by_cases there : ck = ci
      · exact here.trans there.symm
      -- the new birth is later than every other
      · subst here
        rw [others ck there] at taken' same
        have before := linked.earlier ck taken'
        omega
    · by_cases there : ck = ci
      · subst there
        rw [others cj here] at taken same
        have before := linked.earlier cj taken
        omega
      · rw [others cj here] at taken same
        rw [others ck there] at taken' same
        exact linked.births cj ck taken taken' same
  case quiet =>
    intro li
    rw [blocks]
    exact linked.quiet li
  case idle =>
    intro ti
    rw [blocks]
    exact linked.idle ti
  case nodup =>
    intro ti
    rw [blocks]
    exact linked.nodup ti
  case made =>
    intro li cj e used held member taken
    rw [blocks] at used held member
    have queued : e ≠ ci := by
      rintro rfl
      by_cases listens : (s.blocks li).tcb.state = .listen
      · exact fresh li (linked.inside li used) (by simp [Block.listens, used, listens]) e member
          first
      · rw [linked.idle li used listens] at member
        cases member
    rw [others e queued] at taken
    rw [convAlloc_waiting made, others cj (unserved used held)]
    exact linked.made li cj e used held member taken

theorem convAlloc_hears (made : convAlloc s procs proto pid = some (ci, grown)) {lj : Nat}
    (hears : Hears s cj lj l) : Hears grown cj lj l := by
  obtain ⟨-, -, free, blocks, -, others, -⟩ := convAlloc_spec made
  obtain ⟨born, taken, tcb, listens⟩ := hears
  have other : cj ≠ ci := by
    rintro rfl
    exact taken free
  exact ⟨by rwa [others cj other], by rwa [others cj other], by rwa [others cj other],
    by rwa [blocks]⟩

theorem convAlloc_attended (attended : Attended s)
    (made : convAlloc s procs proto pid = some (ci, grown)) : Attended grown := by
  intro e l waits
  obtain ⟨-, -, free, -, -, others, -⟩ := convAlloc_spec made
  rw [convAlloc_waiting made] at waits
  have other : e ≠ ci := by
    rintro rfl
    exact waits.1 free
  obtain ⟨held, cj, lj, hears⟩ := attended e l waits
  exact ⟨by rwa [others e other], cj, lj, convAlloc_hears made hears⟩

end Allocated

theorem freeBlock_unused {s : Tables} (found : freeBlock s = some ti) :
    (s.blocks ti).tcb.used = false := by
  have free := List.find?_some found
  simpa using free

theorem freeBlock_small {s : Tables} (found : freeBlock s = some ti) : ti < tcbMax :=
  List.mem_range.mp (List.mem_of_find?_eq_some found)

/-- The block `ti`, unused before, serves the conversation `ci`, which had none. -/
structure Serves (s after : Tables) (ti ci : Nat) : Prop where
  small : ti < tcbMax
  unused : (s.blocks ti).tcb.used = false
  taken : (s.convs ci).state ≠ .free
  alone : (s.convs ci).tcb = none
  kind : (s.convs ci).proto = .tcp
  away : ∀ tj, tj ≠ ti → after.blocks tj = s.blocks tj
  used : (after.blocks ti).tcb.used = true
  conv : (after.blocks ti).conv = some ci
  empty : (after.blocks ti).aq = []
  quiet : (after.blocks ti).tcb.state = .listen → (after.blocks ti).tcb.rtxDue = 0
  others : ∀ cj, cj ≠ ci → after.convs cj = s.convs cj
  still : (after.convs ci).state ≠ .free
  tcb : (after.convs ci).tcb = some ti
  proto : (after.convs ci).proto = .tcp
  born : (after.convs ci).born = (s.convs ci).born
  origin : (s.convs ci).origin = none ∨ (after.convs ci).origin = (s.convs ci).origin
  handed : (after.convs ci).handed = (s.convs ci).handed
  births : after.births = s.births

section Served
variable {s after : Tables} {ti ci : Nat} (serves : Serves s after ti ci)
include serves

theorem Serves.free_iff (cj : Nat) :
    (after.convs cj).state = .free ↔ (s.convs cj).state = .free := by
  by_cases here : cj = ci
  · subst here
    simp [serves.still, serves.taken]
  · rw [serves.others cj here]

theorem Serves.born_eq (cj : Nat) : (after.convs cj).born = (s.convs cj).born := by
  by_cases here : cj = ci
  · subst here
    exact serves.born
  · rw [serves.others cj here]

theorem Serves.waits {e : Nat} (waits : Waiting s e l) : Waiting after e l := by
  obtain ⟨taken, origin, fresh⟩ := waits
  by_cases here : e = ci
  · subst here
    refine ⟨serves.still, ?_, serves.handed.trans fresh⟩
    rcases serves.origin with none_ | same
    · rw [none_] at origin
      cases origin
    · exact same.trans origin
  · rw [Waiting, serves.others e here]
    exact ⟨taken, origin, fresh⟩

theorem Serves.hears (linked : Linked s) {lj : Nat} (hears : Hears s cj lj l) :
    Hears after cj lj l := by
  obtain ⟨born, taken, tcb, listens⟩ := hears
  have other : cj ≠ ci := by
    rintro rfl
    rw [serves.alone] at tcb
    cases tcb
  have away : lj ≠ ti := by
    rintro rfl
    have used := (linked.conv_block cj lj tcb).1
    rw [serves.unused] at used
    cases used
  rw [Hears, serves.others cj other, serves.away lj away]
  exact ⟨born, taken, tcb, listens⟩

theorem Serves.linked (linked : Linked s) : Linked after where
  conv_block cj tj held := by
    by_cases here : cj = ci
    · subst here
      rw [serves.tcb] at held
      cases held
      exact ⟨serves.used, serves.conv⟩
    · rw [serves.others cj here] at held
      obtain ⟨used, served⟩ := linked.conv_block cj tj held
      have away : tj ≠ ti := by
        rintro rfl
        rw [serves.unused] at used
        cases used
      rw [serves.away tj away]
      exact ⟨used, served⟩
  block_conv tj cj used held := by
    by_cases here : tj = ti
    · subst here
      rw [serves.conv] at held
      cases held
      exact serves.tcb
    · rw [serves.away tj here] at used held
      have other : cj ≠ ci := by
        rintro rfl
        have owned := linked.block_conv tj cj used held
        rw [serves.alone] at owned
        cases owned
      rw [serves.others cj other]
      exact linked.block_conv tj cj used held
  free cj free := by
    have other : cj ≠ ci := by
      rintro rfl
      exact serves.still free
    rw [serves.others cj other] at free ⊢
    exact linked.free cj free
  small cj taken := linked.small cj fun free => taken ((serves.free_iff cj).mpr free)
  tcp cj other := by
    have away : cj ≠ ci := by
      rintro rfl
      exact other serves.proto
    rw [serves.others cj away] at other ⊢
    exact linked.tcp cj other
  earlier cj taken := by
    rw [serves.born_eq, serves.births]
    exact linked.earlier cj fun free => taken ((serves.free_iff cj).mpr free)
  inside tj used := by
    by_cases here : tj = ti
    · subst here
      exact serves.small
    · rw [serves.away tj here] at used
      exact linked.inside tj used
  births cj ck taken taken' same := by
    rw [serves.born_eq, serves.born_eq] at same
    exact linked.births cj ck (fun free => taken ((serves.free_iff cj).mpr free))
      (fun free => taken' ((serves.free_iff ck).mpr free)) same
  quiet li used listens := by
    by_cases here : li = ti
    · subst here
      exact serves.quiet listens
    · rw [serves.away li here] at used listens ⊢
      exact linked.quiet li used listens
  idle tj used other := by
    by_cases here : tj = ti
    · subst here
      exact serves.empty
    · rw [serves.away tj here] at used other ⊢
      exact linked.idle tj used other
  nodup tj used := by
    by_cases here : tj = ti
    · subst here
      rw [serves.empty]
      exact List.nodup_nil
    · rw [serves.away tj here] at used ⊢
      exact linked.nodup tj used
  made li cj e used held member taken := by
    by_cases here : li = ti
    · subst here
      rw [serves.empty] at member
      cases member
    · rw [serves.away li here] at used held member
      rw [serves.born_eq]
      exact serves.waits (linked.made li cj e used held member fun free =>
        taken ((serves.free_iff e).mpr free))

theorem Serves.attended (linked : Linked s) (attended : Attended s)
    (heard : ∀ l, Waiting after ci l → ∃ cj lj, Hears s cj lj l) : Attended after := by
  intro e l waits
  by_cases here : e = ci
  · subst here
    obtain ⟨cj, lj, hears⟩ := heard l waits
    exact ⟨by rw [serves.tcb]; rfl, cj, lj, serves.hears linked hears⟩
  · rw [Waiting, serves.others e here] at waits
    obtain ⟨held, cj, lj, hears⟩ := attended e l waits
    exact ⟨by rwa [serves.others e here], cj, lj, serves.hears linked hears⟩

end Served

/-- Only the queues changed, the marks that an accept makes, and owners. -/
structure Requeued (s after : Tables) : Prop where
  blocks : ∀ ti, (after.blocks ti).tcb = (s.blocks ti).tcb ∧
    (after.blocks ti).conv = (s.blocks ti).conv
  convs : ∀ ci, (after.convs ci).state = (s.convs ci).state ∧
    (after.convs ci).tcb = (s.convs ci).tcb ∧ (after.convs ci).proto = (s.convs ci).proto ∧
    (after.convs ci).born = (s.convs ci).born ∧ (after.convs ci).origin = (s.convs ci).origin
  handed : ∀ ci, (after.convs ci).handed = false → (s.convs ci).handed = false
  births : after.births = s.births

section Queues
variable {s after : Tables}

theorem Requeued.linked (requeued : Requeued s after) (linked : Linked s)
    (idle : ∀ ti, (s.blocks ti).tcb.used = true → (s.blocks ti).tcb.state ≠ .listen →
      (after.blocks ti).aq = [])
    (nodup : ∀ ti, (s.blocks ti).tcb.used = true → (after.blocks ti).aq.Nodup)
    (made : ∀ li ci e, (s.blocks li).tcb.used = true → (s.blocks li).conv = some ci →
      e ∈ (after.blocks li).aq → (s.convs e).state ≠ .free →
        Waiting s e (s.convs ci).born ∧ (after.convs e).handed = false) : Linked after where
  conv_block ci ti := by
    rw [(requeued.convs ci).2.1, (requeued.blocks ti).1, (requeued.blocks ti).2]
    exact linked.conv_block ci ti
  block_conv ti ci := by
    rw [(requeued.convs ci).2.1, (requeued.blocks ti).1, (requeued.blocks ti).2]
    exact linked.block_conv ti ci
  free ci := by
    rw [(requeued.convs ci).1, (requeued.convs ci).2.1]
    exact linked.free ci
  small ci := by
    rw [(requeued.convs ci).1]
    exact linked.small ci
  tcp ci := by
    rw [(requeued.convs ci).2.1, (requeued.convs ci).2.2.1]
    exact linked.tcp ci
  earlier ci := by
    rw [(requeued.convs ci).1, (requeued.convs ci).2.2.2.1, requeued.births]
    exact linked.earlier ci
  inside ti := by
    rw [(requeued.blocks ti).1]
    exact linked.inside ti
  births ci cj := by
    rw [(requeued.convs ci).1, (requeued.convs cj).1, (requeued.convs ci).2.2.2.1,
      (requeued.convs cj).2.2.2.1]
    exact linked.births ci cj
  quiet li := by
    rw [(requeued.blocks li).1]
    exact linked.quiet li
  idle ti := by
    rw [(requeued.blocks ti).1]
    exact idle ti
  nodup ti := by
    rw [(requeued.blocks ti).1]
    exact nodup ti
  made li ci e := by
    rw [(requeued.blocks li).1, (requeued.blocks li).2, (requeued.convs ci).2.2.2.1, Waiting, (requeued.convs e).1, (requeued.convs e).2.2.2.2]
    intro used held member taken
    obtain ⟨⟨-, origin, -⟩, fresh⟩ := made li ci e used held member taken
    exact ⟨taken, origin, fresh⟩

theorem Requeued.attended (requeued : Requeued s after) (attended : Attended s) :
    Attended after := by
  intro e l ⟨taken, origin, fresh⟩
  rw [(requeued.convs e).1] at taken
  rw [(requeued.convs e).2.2.2.2] at origin
  obtain ⟨held, ci, li, born, busy, tcb, listens⟩ :=
    attended e l ⟨taken, origin, requeued.handed e fresh⟩
  refine ⟨by rwa [(requeued.convs e).2.1], ci, li, ?_⟩
  rw [Hears, (requeued.convs ci).1, (requeued.convs ci).2.1, (requeued.convs ci).2.2.2.1,
    (requeued.blocks li).1]
  exact ⟨born, busy, tcb, listens⟩

theorem setQueue_requeued (s : Tables) (li : Nat) (queue : List Nat) :
    Requeued s (setQueue s li queue) where
  blocks ti := by
    by_cases here : ti = li
    · subst here
      simp [setQueue, Tables.setBlock]
    · simp [setQueue, Tables.setBlock, here]
  convs _ := ⟨rfl, rfl, rfl, rfl, rfl⟩
  handed _ fresh := fresh
  births := rfl

theorem setQueue_at (s : Tables) (li : Nat) (queue : List Nat) :
    ((setQueue s li queue).blocks li).aq = queue := by
  simp [setQueue, Tables.setBlock]

theorem setQueue_away (s : Tables) (queue : List Nat) (other : tj ≠ li) :
    (setQueue s li queue).blocks tj = s.blocks tj := by
  simp [setQueue, Tables.setBlock, other]

/-- What a scan leaves, and what it finds: a conversation that was queued and has a block. -/
theorem scanQueue_spec (s : Tables) (queue : List Nat) :
    (scanQueue s queue).1.Sublist queue ∧ ∀ nc, (scanQueue s queue).2 = some nc →
      nc ∈ queue ∧ (s.convs nc).state ≠ .free ∧
        (queue.Nodup → nc ∉ (scanQueue s queue).1) := by
  induction queue with
  | nil => exact ⟨.refl _, fun nc found => by cases found⟩
  | cons ci rest ih =>
    obtain ⟨kept, found⟩ := ih
    have dropped : (scanQueue s rest).1.Sublist (ci :: rest) ∧
        ∀ nc, (scanQueue s rest).2 = some nc → nc ∈ ci :: rest ∧
          (s.convs nc).state ≠ .free ∧ ((ci :: rest).Nodup → nc ∉ (scanQueue s rest).1) := by
      refine ⟨kept.cons ci, fun nc first => ?_⟩
      obtain ⟨member, taken, gone⟩ := found nc first
      exact ⟨List.mem_cons_of_mem ci member, taken, fun nodup => gone nodup.of_cons⟩
    rw [scanQueue]
    split
    · exact dropped
    · exact dropped
    · rename_i ti tcb taken
      split_ifs
      · refine ⟨kept.cons_cons ci, fun nc first => ?_⟩
        obtain ⟨member, taken, gone⟩ := found nc first
        refine ⟨List.mem_cons_of_mem ci member, taken, fun nodup => ?_⟩
        rw [List.nodup_cons] at nodup
        rw [List.mem_cons, not_or]
        refine ⟨?_, gone nodup.2⟩
        rintro rfl
        exact nodup.1 member
      · refine ⟨List.sublist_cons_self ci rest, fun nc first => ?_⟩
        cases first
        exact ⟨List.mem_cons_self, taken, fun nodup => (List.nodup_cons.mp nodup).1⟩

theorem listensOn_spec (listens : listensOn s ci = some li) :
    (s.convs ci).tcb = some li ∧ (s.blocks li).tcb.state = .listen := by
  simpa [listensOn] using listens

/-- An accept that returns a conversation. -/
theorem accept_found {procs : Procs} {nc : Nat} (found : (tcpAccept s procs ci pid).1 = some nc) :
    ∃ li, (s.convs ci).tcb = some li ∧ (s.blocks li).tcb.state = .listen ∧
      (scanQueue s (s.blocks li).aq).2 = some nc ∧
      (tcpAccept s procs ci pid).2 =
        handOver (setQueue s li (scanQueue s (s.blocks li).aq).1) procs nc pid := by
  unfold tcpAccept at found ⊢
  split at found
  · cases found
  · rename_i li listens
    dsimp only at found ⊢
    split at found
    · cases found
    · rename_i mc scanned
      cases found
      obtain ⟨tcb, state⟩ := listensOn_spec listens
      exact ⟨li, tcb, state, scanned, rfl⟩

/-- An accept that returns none. -/
theorem accept_none {procs : Procs} (none_ : (tcpAccept s procs ci pid).1 = none) :
    (tcpAccept s procs ci pid).2 = s ∨ ∃ li, (s.convs ci).tcb = some li ∧
      (s.blocks li).tcb.state = .listen ∧
      (tcpAccept s procs ci pid).2 = setQueue s li (scanQueue s (s.blocks li).aq).1 := by
  unfold tcpAccept at none_ ⊢
  split at none_
  · exact .inl rfl
  · rename_i li listens
    dsimp only at none_ ⊢
    split at none_
    · obtain ⟨tcb, state⟩ := listensOn_spec listens
      exact .inr ⟨li, tcb, state, rfl⟩
    · cases none_

theorem handOver_requeued (s : Tables) (procs : Procs) (nc pid : Nat) :
    Requeued s (handOver s procs nc pid) where
  blocks ti := by
    unfold handOver
    dsimp only
    split
    · rename_i tj tcb
      by_cases here : ti = tj
      · subst here
        simp [Tables.setBlock, Tables.setConv]
      · simp [Tables.setBlock, Tables.setConv, here]
    · exact ⟨rfl, rfl⟩
  convs ci := by
    unfold handOver
    dsimp only
    by_cases here : ci = nc
    · subst here
      split <;> simp [Tables.setBlock, Tables.setConv]
    · split <;> simp [Tables.setBlock, Tables.setConv, here]
  handed ci := by
    unfold handOver
    dsimp only
    by_cases here : ci = nc
    · subst here
      split <;> simp [Tables.setBlock, Tables.setConv]
    · split <;> simp [Tables.setBlock, Tables.setConv, here]
  births := by
    unfold handOver
    dsimp only
    split <;> rfl

theorem handOver_aq (s : Tables) (procs : Procs) (nc pid ti : Nat) :
    ((handOver s procs nc pid).blocks ti).aq = (s.blocks ti).aq := by
  unfold handOver
  dsimp only
  split
  · rename_i tj tcb
    by_cases here : ti = tj
    · subst here
      simp [Tables.setBlock, Tables.setConv]
    · simp [Tables.setBlock, Tables.setConv, here]
  · rfl

theorem handOver_other (s : Tables) (procs : Procs) {nc : Nat} (pid : Nat) (other : cj ≠ nc) :
    (handOver s procs nc pid).convs cj = s.convs cj := by
  unfold handOver
  dsimp only
  split <;> simp [Tables.setBlock, Tables.setConv, other]

theorem setQueue_linked (linked : Linked s) {queue : List Nat}
    (used : (s.blocks li).tcb.used = true) (listens : (s.blocks li).tcb.state = .listen)
    (sublist : queue.Sublist (s.blocks li).aq) : Linked (setQueue s li queue) := by
  refine (setQueue_requeued s li queue).linked linked ?_ ?_ ?_
  · intro ti busy other
    have away : ti ≠ li := by
      rintro rfl
      exact other listens
    rw [setQueue_away s queue away]
    exact linked.idle ti busy other
  · intro ti busy
    by_cases here : ti = li
    · subst here
      rw [setQueue_at]
      exact (linked.nodup ti used).sublist sublist
    · rw [setQueue_away s queue here]
      exact linked.nodup ti busy
  · intro lj ci e busy held member taken
    have before : e ∈ (s.blocks lj).aq := by
      by_cases here : lj = li
      · subst here
        rw [setQueue_at] at member
        exact sublist.subset member
      · rwa [setQueue_away s queue here] at member
    have waits := linked.made lj ci e busy held before taken
    exact ⟨waits, waits.2.2⟩

theorem handOver_linked (linked : Linked s) {procs : Procs} {nc : Nat}
    (gone : ∀ li ci, (s.blocks li).tcb.used = true → (s.blocks li).conv = some ci →
      nc ∉ (s.blocks li).aq) : Linked (handOver s procs nc pid) := by
  refine (handOver_requeued s procs nc pid).linked linked ?_ ?_ ?_
  · intro ti used other
    rw [handOver_aq]
    exact linked.idle ti used other
  · intro ti used
    rw [handOver_aq]
    exact linked.nodup ti used
  · intro li ci e used held member taken
    rw [handOver_aq] at member
    have waits := linked.made li ci e used held member taken
    refine ⟨waits, ?_⟩
    have other : e ≠ nc := by
      rintro rfl
      exact gone li ci used held member
    rw [handOver_other s procs pid other]
    exact waits.2.2

theorem accept_linked (linked : Linked s) (procs : Procs) (ci pid : Nat) :
    Linked (tcpAccept s procs ci pid).2 := by
  cases found : (tcpAccept s procs ci pid).1 with
  | none =>
    rcases accept_none found with same | ⟨li, tcb, listens, same⟩
    · rwa [same]
    · rw [same]
      exact setQueue_linked linked (linked.conv_block ci li tcb).1 listens
        (scanQueue_spec s _).1
  | some nc =>
    obtain ⟨li, tcb, listens, scanned, same⟩ := accept_found found
    obtain ⟨used, served⟩ := linked.conv_block ci li tcb
    obtain ⟨sublist, spec⟩ := scanQueue_spec s (s.blocks li).aq
    obtain ⟨member, taken, popped⟩ := spec nc scanned
    rw [same]
    refine handOver_linked (setQueue_linked linked used listens sublist) ?_
    intro lj cj busy held queued
    rw [((setQueue_requeued s li _).blocks lj).1] at busy
    rw [((setQueue_requeued s li _).blocks lj).2] at held
    by_cases here : lj = li
    · subst here
      rw [setQueue_at] at queued
      exact popped (linked.nodup lj used) queued
    · -- two listeners do not wait for one conversation
      rw [setQueue_away s _ here] at queued
      have first := linked.made li ci nc used served member taken
      have second := linked.made lj cj nc busy held queued taken
      have born : (s.convs cj).born = (s.convs ci).born :=
        Option.some.inj (second.2.1.symm.trans first.2.1)
      have equal := linked.births cj ci (linked.taken busy held) (linked.taken used served) born
      subst equal
      have tcb' := linked.block_conv lj cj busy held
      rw [tcb] at tcb'
      exact here (Option.some.inj tcb').symm

theorem accept_attended (attended : Attended s) (procs : Procs) (ci pid : Nat) :
    Attended (tcpAccept s procs ci pid).2 := by
  cases found : (tcpAccept s procs ci pid).1 with
  | none =>
    rcases accept_none found with same | ⟨li, -, -, same⟩
    · rwa [same]
    · rw [same]
      exact (setQueue_requeued s li _).attended attended
  | some nc =>
    obtain ⟨li, -, -, -, same⟩ := accept_found found
    rw [same]
    exact (handOver_requeued _ procs nc pid).attended
      ((setQueue_requeued s li _).attended attended)

theorem isolated (linked : Linked s) (attended : Attended s) : Isolated s where
  returned procs ci pid nc found := by
    obtain ⟨li, tcb, -, scanned, -⟩ := accept_found found
    obtain ⟨used, served⟩ := linked.conv_block ci li tcb
    obtain ⟨member, taken, -⟩ := (scanQueue_spec s _).2 nc scanned
    exact linked.made li ci nc used served member taken
  others procs ci pid cj other := by
    cases found : (tcpAccept s procs ci pid).1 with
    | none =>
      rcases accept_none found with same | ⟨li, -, -, same⟩
      · rw [same]
      · rw [same]
        rfl
    | some =>
      obtain ⟨li, -, -, -, same⟩ := accept_found found
      rw [same, handOver_other]
      · rfl
      · rintro rfl
        exact other found
  attended := attended

end Queues

variable {t : Tcb}

section Freed
variable {s : Tables} {now ci : Nat}

theorem convFree_other (other : cj ≠ ci) : (convFree s now ci).convs cj = s.convs cj := by
  unfold convFree
  dsimp only
  split <;> simp [Tables.setConv, Tables.setBlock, other]

theorem convFree_own : (convFree s now ci).convs ci =
    { s.convs ci with tcb := none, state := .free } := by
  unfold convFree
  dsimp only
  split <;> simp [Tables.setConv]

theorem convFree_births : (convFree s now ci).births = s.births := by
  unfold convFree
  dsimp only
  split <;> rfl

theorem convFree_away (other : (s.convs ci).tcb ≠ some tj) :
    (convFree s now ci).blocks tj = s.blocks tj := by
  unfold convFree
  dsimp only
  split
  · rename_i ti kind tcb
    have away : tj ≠ ti := by
      rintro rfl
      exact other tcb
    simp [Tables.setConv, Tables.setBlock, away]
  · rfl

theorem convFree_at (linked : Linked s) (tcb : (s.convs ci).tcb = some ti) :
    (convFree s now ci).blocks ti =
      { s.blocks ti with tcb := tcpAbort now (viewed s ti), conv := none } := by
  have kind : (s.convs ci).proto = .tcp := by
    by_contra other
    rw [linked.tcp ci other] at tcb
    cases tcb
  unfold convFree
  simp only [kind, tcb]
  simp [Tables.setConv, Tables.setBlock]

theorem convFree_waiting {e : Nat} : Waiting (convFree s now ci) e l ↔ e ≠ ci ∧ Waiting s e l := by
  by_cases here : e = ci
  · subst here
    simp [Waiting, convFree_own]
  · simp [Waiting, convFree_other here, here]

theorem abort_unlistening : (tcpAbort now t).state ≠ .listen := by
  unfold tcpAbort
  split
  · simp [Tcp.tcbFree]
  · simp [Tcp.tcbFree]
  · rename_i same
    exact output_unlistening (by simp [same])
  · rename_i same
    exact output_unlistening (by simp [same])
  · rename_i same
    exact output_unlistening (by simp [same])
  · rename_i other _ _ _ _
    exact other

theorem abort_used (used : (tcpAbort now t).used = true) : t.used = true := by
  unfold tcpAbort at used
  split at used
  · simp [Tcp.tcbFree] at used
  · simp [Tcp.tcbFree] at used
  · rwa [tcpOutput_used] at used
  · rwa [tcpOutput_used] at used
  · rwa [tcpOutput_used] at used
  · exact used

theorem abort_listener (listens : t.state = .listen) : (tcpAbort now t).used = false := by
  simp [tcpAbort, listens, Tcp.tcbFree]

theorem convFree_linked (linked : Linked s) : Linked (convFree s now ci) := by
  have freed : ∀ {cj}, ((convFree s now ci).convs cj).state ≠ .free → cj ≠ ci := by
    rintro cj taken rfl
    exact taken (by rw [convFree_own])
  have served : ∀ {tj cj}, ((convFree s now ci).blocks tj).tcb.used = true →
      ((convFree s now ci).blocks tj).conv = some cj →
        (convFree s now ci).blocks tj = s.blocks tj ∧ cj ≠ ci := by
    intro tj cj used held
    by_cases own : (s.convs ci).tcb = some tj
    · rw [convFree_at linked own] at held
      cases held
    · have same : (convFree s now ci).blocks tj = s.blocks tj := convFree_away own
      rw [same] at used held
      refine ⟨same, ?_⟩
      rintro rfl
      exact own (linked.block_conv tj cj used held)
  constructor
  case conv_block =>
    intro cj tj held
    by_cases here : cj = ci
    · subst here
      rw [convFree_own] at held
      cases held
    · rw [convFree_other here] at held
      obtain ⟨used, owned⟩ := linked.conv_block cj tj held
      have own : (s.convs ci).tcb ≠ some tj := by
        intro own
        rw [(linked.conv_block ci tj own).2] at owned
        exact here (Option.some.inj owned).symm
      rw [convFree_away own]
      exact ⟨used, owned⟩
  case block_conv =>
    intro tj cj used held
    obtain ⟨same, other⟩ := served used held
    rw [same] at used held
    rw [convFree_other other]
    exact linked.block_conv tj cj used held
  case free =>
    intro cj free
    by_cases here : cj = ci
    · subst here
      rw [convFree_own]
    · rw [convFree_other here] at free ⊢
      exact linked.free cj free
  case small =>
    intro cj taken
    have here := freed taken
    rw [convFree_other here] at taken
    exact linked.small cj taken
  case tcp =>
    intro cj other
    by_cases here : cj = ci
    · subst here
      rw [convFree_own]
    · rw [convFree_other here] at other ⊢
      exact linked.tcp cj other
  case earlier =>
    intro cj taken
    have here := freed taken
    rw [convFree_other here] at taken ⊢
    rw [convFree_births]
    exact linked.earlier cj taken
  case inside =>
    intro tj used
    by_cases own : (s.convs ci).tcb = some tj
    · rw [convFree_at linked own] at used
      exact linked.inside tj (abort_used (t := viewed s tj) used)
    · rw [convFree_away own] at used
      exact linked.inside tj used
  case births =>
    intro cj ck taken taken' same
    have here := freed taken
    have there := freed taken'
    rw [convFree_other here] at taken same
    rw [convFree_other there] at taken' same
    exact linked.births cj ck taken taken' same
  case quiet =>
    intro li used listens
    by_cases own : (s.convs ci).tcb = some li
    · rw [convFree_at linked own] at used listens
      exact absurd listens abort_unlistening
    · rw [convFree_away own] at used listens ⊢
      exact linked.quiet li used listens
  case idle =>
    intro tj used other
    by_cases own : (s.convs ci).tcb = some tj
    · rw [convFree_at linked own] at used ⊢
      have before : (s.blocks tj).tcb.state ≠ .listen := by
        intro listens
        rw [abort_listener (t := viewed s tj) listens] at used
        cases used
      exact linked.idle tj (abort_used (t := viewed s tj) used) before
    · rw [convFree_away own] at used other ⊢
      exact linked.idle tj used other
  case nodup =>
    intro tj used
    by_cases own : (s.convs ci).tcb = some tj
    · rw [convFree_at linked own] at used ⊢
      exact linked.nodup tj (abort_used (t := viewed s tj) used)
    · rw [convFree_away own] at used ⊢
      exact linked.nodup tj used
  case made =>
    intro li cj e used held member taken
    obtain ⟨same, other⟩ := served used held
    have here := freed taken
    rw [same] at used held member
    rw [convFree_other here] at taken
    rw [convFree_waiting, convFree_other other]
    exact ⟨here, linked.made li cj e used held member taken⟩

theorem convFree_hears (linked : Linked s) {lj : Nat} (other : cj ≠ ci) (hears : Hears s cj lj l) :
    Hears (convFree s now ci) cj lj l := by
  obtain ⟨born, taken, tcb, listens⟩ := hears
  have own : (s.convs ci).tcb ≠ some lj := by
    intro own
    have owned := (linked.conv_block cj lj tcb).2
    rw [(linked.conv_block ci lj own).2] at owned
    exact other (Option.some.inj owned).symm
  rw [Hears, convFree_other other, convFree_away own]
  exact ⟨born, taken, tcb, listens⟩

theorem convFree_attended (linked : Linked s) (attended : Attended s)
    (none_ : NoneLeft s ci) : Attended (convFree s now ci) := by
  intro e l freed
  obtain ⟨here, waits⟩ := convFree_waiting.mp freed
  obtain ⟨held, cj, lj, hears⟩ := attended e l waits
  have other : cj ≠ ci := by
    rintro rfl
    rw [← hears.1] at waits
    exact none_ e (linked.small e waits.1) waits
  exact ⟨by rwa [convFree_other here], cj, lj, convFree_hears linked other hears⟩

end Freed

variable {after : Tables}
variable {iss : Seq}

section Opened
variable {hz now : Nat} {s : Tables}

theorem Serves.unheard (serves : Serves s after ti ci) (attended : Attended s)
    (origin : (after.convs ci).origin = (s.convs ci).origin) (l : Nat) : ¬ Waiting after ci l := by
  intro waits
  have before : Waiting s ci l :=
    ⟨serves.taken, origin.symm.trans waits.2.1, serves.handed.symm.trans waits.2.2⟩
  have held := (attended ci l before).1
  rw [serves.alone] at held
  cases held

section
variable (taken : (s.convs ci).state ≠ .free) (kind : (s.convs ci).proto = .tcp)
variable (alone : (s.convs ci).tcb = none) (found : freeBlock s = some ti)
include taken kind alone found

theorem connectBlock_serves : Serves s (connectBlock hz s now ci iss) ti ci := by
  constructor
  all_goals
    simp +contextual [connectBlock, alone, found, Tables.setConv, Tables.setBlock, tcpConnect,
      Tcp.tcpArmRtx, Tcp.tcpSend, Tcp.tcbAlloc, freeBlock_unused found, freeBlock_small found,
      taken, kind]

theorem listenBlock_serves : Serves s (listenBlock hz s ci) ti ci := by
  constructor
  all_goals
    simp +contextual [listenBlock, alone, found, Tables.setConv, Tables.setBlock, tcpListen,
      Tcp.tcbAlloc, freeBlock_unused found, freeBlock_small found, taken, kind]

end

structure Ordered (s : Tables) : Prop where
  linked : Linked s
  attended : Attended s

theorem Serves.ordered (serves : Serves s after ti ci) (ordered : Ordered s)
    (origin : (after.convs ci).origin = (s.convs ci).origin) : Ordered after :=
  ⟨serves.linked ordered.linked, serves.attended ordered.linked ordered.attended
    fun l waits => (serves.unheard ordered.attended origin l waits).elim⟩

section
variable (ordered : Ordered s) (taken : (s.convs ci).state ≠ .free)
variable (kind : (s.convs ci).proto = .tcp)
include ordered taken kind

theorem connectBlock_ordered : Ordered (connectBlock hz s now ci iss) := by
  cases alone : (s.convs ci).tcb with
  | some => simpa [connectBlock, alone] using ordered
  | none =>
    cases found : freeBlock s with
    | none => simpa [connectBlock, found] using ordered
    | some =>
      refine (connectBlock_serves taken kind alone found).ordered ordered ?_
      simp [connectBlock, alone, found, Tables.setConv]

theorem listenBlock_ordered : Ordered (listenBlock hz s ci) := by
  cases alone : (s.convs ci).tcb with
  | some => simpa [listenBlock, alone] using ordered
  | none =>
    cases found : freeBlock s with
    | none => simpa [listenBlock, found] using ordered
    | some =>
      refine (listenBlock_serves taken kind alone found).ordered ordered ?_
      simp [listenBlock, alone, found, Tables.setConv]

end

/-- What a listener makes for a SYN is queued at it. -/
theorem Serves.queued {lc : Nat} (ti : Nat) (serves : Serves s after ti ci) (ordered : Ordered s)
    (used : (s.blocks li).tcb.used = true) (listens : (s.blocks li).tcb.state = .listen)
    (served : (s.blocks li).conv = some lc) (new : ci ∉ (s.blocks li).aq)
    (waits : Waiting after ci (s.convs lc).born) :
    Ordered (setQueue after li ((after.blocks li).aq ++ [ci])) := by
  obtain ⟨linked, attended⟩ := ordered
  have tcb := linked.block_conv li lc used served
  have hears : Hears s lc li (s.convs lc).born :=
    ⟨rfl, linked.taken used served, tcb, listens⟩
  have away : li ≠ ti := by
    rintro rfl
    rw [serves.unused] at used
    cases used
  have same := serves.away li away
  have linked' := serves.linked linked
  have requeued := setQueue_requeued after li ((after.blocks li).aq ++ [ci])
  refine ⟨requeued.linked linked' ?_ ?_ ?_, requeued.attended ?_⟩
  · intro tj busy other
    have apart : tj ≠ li := by
      rintro rfl
      rw [same] at other
      exact other listens
    rw [setQueue_away _ _ apart]
    exact linked'.idle tj busy other
  · intro tj busy
    by_cases here : tj = li
    · subst here
      rw [setQueue_at, same]
      rw [List.nodup_append]
      refine ⟨linked.nodup tj used, by simp, fun e member e' single => ?_⟩
      rw [List.mem_singleton] at single
      subst single
      rintro rfl
      exact new member
    · rw [setQueue_away _ _ here]
      exact linked'.nodup tj busy
  · intro lj cj e busy held member taken
    have waits' : Waiting after e (after.convs cj).born := by
      by_cases here : lj = li
      · subst here
        rw [setQueue_at, List.mem_append, List.mem_singleton] at member
        rcases member with queued | rfl
        · exact linked'.made lj cj e busy held queued taken
        · rw [same, served] at held
          cases held
          rwa [serves.born_eq]
      · rw [setQueue_away _ _ here] at member
        exact linked'.made lj cj e busy held member taken
    exact ⟨waits', waits'.2.2⟩
  · refine serves.attended linked attended fun l again => ⟨lc, li, ?_⟩
    rwa [Option.some.inj (again.2.1.symm.trans waits.2.1)]

end Opened

section Arriving
variable {hz now : Nat} {s : Tables} {procs : Procs}

theorem lookup_used {route : Route} (found : tcbLookup s route = some ti) :
    (s.blocks ti).tcb.used = true := by
  rw [tcbLookup, Option.or_eq_some_iff] at found
  rcases found with first | ⟨-, second⟩
  · have taken := List.find?_some first
    have live := (takes_clashes taken).1
    simp only [Block.live, Bool.and_eq_true] at live
    exact live.1.1
  · have listens := List.find?_some second
    simp only [Block.listens, Bool.and_eq_true] at listens
    exact listens.1.1

theorem discarded_ordered (ordered : Ordered s) {grown : Tables} {proto : Proto}
    (fresh : FreshNumber s) (made : convAlloc s procs proto pid = some (ci, grown)) :
    Ordered (grown.setConv ci { grown.convs ci with state := .free }) := by
  have linked := convAlloc_linked ordered.linked fresh made
  have attended := convAlloc_attended ordered.attended made
  obtain ⟨-, -, -, -, births, -, -, -, alone, born, -⟩ := convAlloc_spec made
  have same : convFree grown 0 ci =
      grown.setConv ci { grown.convs ci with state := .free } := by
    unfold convFree
    dsimp only
    split
    · rename_i ti kind tcb
      rw [alone] at tcb
      cases tcb
    · rw [← alone]
  rw [← same]
  refine ⟨convFree_linked linked, convFree_attended linked attended fun e _ waits => ?_⟩
  -- no listener has the number of the last birth
  rw [born, convAlloc_waiting made] at waits
  obtain ⟨-, cj, lj, before, taken, -⟩ := ordered.attended e s.births waits
  have earlier := ordered.linked.earlier cj taken
  omega

theorem synInput_ordered (ordered : Ordered s) {route : Route} {seg : Segment}
    (used : (s.blocks li).tcb.used = true) (listens : (s.blocks li).tcb.state = .listen)
    (fresh : FreshNumber s) : Ordered (synInput hz s now procs li route seg iss) := by
  unfold synInput
  dsimp only
  split
  · exact ordered
  · split
    · exact ordered
    · rename_i lc served
      split
      · exact ordered
      · rename_i ci grown made
        split
        · exact discarded_ordered ordered fresh made
        · rename_i ni found
          obtain ⟨first, small, free, blocks, births, others, opened, kind, alone, born, origin,
            unhanded⟩ := convAlloc_spec made
          have grown_ordered : Ordered grown :=
            ⟨convAlloc_linked ordered.linked fresh made,
              convAlloc_attended ordered.attended made⟩
          have other : lc ≠ ci := by
            rintro rfl
            exact ordered.linked.taken used served free
          rw [← blocks] at used listens served
          have new : ci ∉ (grown.blocks li).aq := by
            rw [blocks] at used listens ⊢
            intro member
            exact fresh li (ordered.linked.inside li used)
              (by simp [Block.listens, used, listens]) ci member first
          refine Serves.queued ni ?_ grown_ordered used listens served new ?_
          · constructor
            all_goals
              simp +contextual [Tables.setConv, Tables.setBlock, inputListen,
                Tcp.tcpArmRtx, Tcp.tcpSend, Tcp.tcbAlloc, freeBlock_unused found,
                freeBlock_small found, opened, kind, alone, origin]
          · simp [Waiting, Tables.setConv, Tables.setBlock, others lc other, unhanded]

theorem segmentInput_ordered (ordered : Ordered s) {route : Route} {seg : Segment}
    (orderly : Orderly hz s ⟨now, procs, .segment route seg iss⟩) :
    Ordered (segmentInput hz s now procs route seg iss) := by
  unfold segmentInput
  split
  · exact ordered
  · rename_i ti found
    have holds := orderly ti found
    have used := lookup_used found
    split
    · rename_i listens
      rw [if_pos listens] at holds
      exact synInput_ordered ordered used listens holds
    · rename_i other
      rw [if_neg other] at holds
      have goes : Goes s ti fun t => tcpInput hz now t seg :=
        ⟨used, fun listens => absurd listens other, fun _ =>
          input_unlistening (t := viewed s ti) seg other⟩
      exact ⟨onBlock_linked ordered.linked goes,
        onBlock_attended ordered.linked ordered.attended goes holds⟩

end Arriving

section Sweeps
variable {hz now : Nat} {s : Tables} {procs : Procs}

theorem onBlock_viewed {f : Tcb → Tcb} (linked : Linked s) (used : (s.blocks ti).tcb.used = true)
    (used' : (s.blocks tj).tcb.used = true) (other : tj ≠ ti) :
    viewed (onBlock s ti f) tj = viewed s tj := by
  unfold viewed
  rw [onBlock_away other]
  cases held : (s.blocks tj).conv with
  | none => rfl
  | some ci =>
    have apart : (s.blocks ti).conv ≠ some ci := by
      intro own
      have first := linked.block_conv ti ci used own
      rw [linked.block_conv tj ci used' held] at first
      exact other (Option.some.inj first)
    simp only [onBlock_other apart]

theorem onBlock_serves {f : Tcb → Tcb} (linked : Linked s) (used : (s.blocks ti).tcb.used = true)
    (other : tj ≠ ti) : serves (onBlock s ti f) tj ↔ serves s tj := by
  simp only [serves, onBlock_away other, onBlock_waiting linked used, (onBlock_fixed _).2.1]

def Survive (hz now : Nat) (s : Tables) (tis : List Nat) : Prop :=
  ∀ ti, ti ∈ tis → (s.blocks ti).tcb.used = true →
    Outlives s ti (tcpTimers hz now (viewed s ti))

theorem timers_goes (used : (s.blocks ti).tcb.used = true) : Goes s ti (tcpTimers hz now) :=
  ⟨used, fun listens quiet => timers_heeds (viewed s ti) used listens quiet,
    fun other => timers_unlistening (t := viewed s ti) other⟩

theorem timers_ordered (ordered : Ordered s) (tis : List Nat) (nodup : tis.Nodup)
    (survive : Survive hz now s tis) : Ordered (tis.foldl (timerAt hz now) s) := by
  induction tis generalizing s with
  | nil => exact ordered
  | cons ti _ ih =>
    obtain ⟨new, apart⟩ := List.nodup_cons.mp nodup
    rw [List.foldl_cons]
    by_cases used : (s.blocks ti).tcb.used = true
    · rw [timerAt, if_pos used]
      have goes : Goes s ti (tcpTimers hz now) := timers_goes used
      refine ih ⟨onBlock_linked ordered.linked goes,
        onBlock_attended ordered.linked ordered.attended goes
          (survive ti List.mem_cons_self used)⟩ apart ?_
      intro tj member busy waits
      have other : tj ≠ ti := by
        rintro rfl
        exact new member
      rw [onBlock_away other] at busy
      rw [onBlock_serves ordered.linked used other] at waits
      rw [onBlock_viewed ordered.linked used busy other]
      exact survive tj (List.mem_cons_of_mem ti member) busy waits
    · rw [timerAt, if_neg used]
      exact ih ordered apart fun tj member => survive tj (List.mem_cons_of_mem ti member)

/-- While orphans are freed: what waits still has its listener, or is an orphan itself, and
the orphans left are still to come. -/
structure Reaping (procs : Procs) (s : Tables) (rest : List Nat) : Prop where
  linked : Linked s
  left : ∀ e, orphaned procs (s.convs e) = true → e ∈ rest
  both : ∀ ci e, orphaned procs (s.convs ci) = true → Waiting s e (s.convs ci).born →
    orphaned procs (s.convs e) = true
  attended : ∀ e l, Waiting s e l → (s.convs e).tcb.isSome = true ∧
    ((∃ ci li, Hears s ci li l) ∨ orphaned procs (s.convs e) = true)

theorem orphaned_freed {e : Nat} (orphan : orphaned procs ((convFree s now ci).convs e) = true) :
    e ≠ ci ∧ orphaned procs (s.convs e) = true := by
  by_cases here : e = ci
  · subst here
    simp [orphaned, convFree_own] at orphan
  · rw [convFree_other here] at orphan
    exact ⟨here, orphan⟩

theorem Reaping.freed {rest : List Nat} (reaping : Reaping procs s (ci :: rest))
    (orphan : orphaned procs (s.convs ci) = true) :
    Reaping procs (convFree s now ci) rest where
  linked := convFree_linked reaping.linked
  left e orphan' := by
    obtain ⟨other, before⟩ := orphaned_freed orphan'
    exact (List.mem_cons.mp (reaping.left e before)).resolve_left other
  both cj e orphan' waits := by
    obtain ⟨other, before⟩ := orphaned_freed orphan'
    rw [convFree_other other] at waits
    obtain ⟨here, waited⟩ := convFree_waiting.mp waits
    rw [convFree_other here]
    exact reaping.both cj e before waited
  attended e l waits := by
    obtain ⟨here, waited⟩ := convFree_waiting.mp waits
    rw [convFree_other here]
    obtain ⟨held, heard⟩ := reaping.attended e l waited
    refine ⟨held, ?_⟩
    rcases heard with ⟨cj, lj, hears⟩ | also
    · by_cases own : cj = ci
      · subst own
        rw [← hears.1] at waited
        exact .inr (reaping.both cj e orphan waited)
      · exact .inl ⟨cj, lj, convFree_hears reaping.linked own hears⟩
    · exact .inr also

theorem Reaping.ordered (reaping : Reaping procs s []) : Ordered s := by
  refine ⟨reaping.linked, fun e l waits => ?_⟩
  obtain ⟨held, heard | orphan⟩ := reaping.attended e l waits
  · exact ⟨held, heard⟩
  · cases reaping.left e orphan

theorem reap_ordered (rest : List Nat) (reaping : Reaping procs s rest) :
    Ordered (rest.foldl (reapAt now procs) s) := by
  induction rest generalizing s with
  | nil => exact reaping.ordered
  | cons ci _ ih =>
    rw [List.foldl_cons]
    by_cases orphan : orphaned procs (s.convs ci) = true
    · rw [reapAt, if_pos orphan]
      exact ih (reaping.freed orphan)
    · rw [reapAt, if_neg orphan]
      refine ih { reaping with left := fun e orphan' => ?_ }
      refine (List.mem_cons.mp (reaping.left e orphan')).resolve_left ?_
      rintro rfl
      exact orphan orphan'

theorem Linked.orphan_small (linked : Linked s) (orphan : orphaned procs (s.convs ci) = true) :
    ci < convMax := by
  refine linked.small ci ?_
  simp only [orphaned, Bool.and_eq_true, decide_eq_true_eq] at orphan
  exact orphan.1.1

/-- At the start every orphan is still to come. -/
theorem Ordered.reaping (ordered : Ordered s)
    (both : ∀ ci, ci < convMax → ∀ e, e < convMax → orphaned procs (s.convs ci) = true →
      Waiting s e (s.convs ci).born → orphaned procs (s.convs e) = true) :
    Reaping procs s (List.range convMax) where
  linked := ordered.linked
  left _ orphan := List.mem_range.mpr (ordered.linked.orphan_small orphan)
  both ci e orphan waits := both ci (ordered.linked.orphan_small orphan) e
    (ordered.linked.small e waits.1) orphan waits
  attended e l waits :=
    have before := ordered.attended e l waits
    ⟨before.1, .inl before.2⟩

end Sweeps

section Requests
variable {hz now : Nat} {s : Tables} {procs : Procs}

theorem onTcb_ordered (ordered : Ordered s) {f : Tcb → Tcb} (heeds : Heeds f)
    (others : ∀ t, t.state ≠ .listen → (f t).state ≠ .listen)
    (lives : ∀ ti, (s.convs ci).tcb = some ti → Outlives s ti (f (viewed s ti))) :
    Ordered (onTcb s ci f) := by
  unfold onTcb
  split
  · rename_i ti tcb
    have goes : Goes s ti f :=
      ⟨(ordered.linked.conv_block ci ti tcb).1,
        fun listens quiet => heeds (viewed s ti) (ordered.linked.conv_block ci ti tcb).1 listens
          quiet, fun other => others (viewed s ti) other⟩
    exact ⟨onBlock_linked ordered.linked goes,
      onBlock_attended ordered.linked ordered.attended goes (lives ti tcb)⟩
  · exact ordered

theorem SameLinks.ordered (same : SameLinks s after) (ordered : Ordered s) :
    Ordered after := ⟨same.linked ordered.linked, same.attended ordered.attended⟩

theorem accept_ordered (ordered : Ordered s) (ci pid : Nat) :
    Ordered (tcpAccept s procs ci pid).2 :=
  ⟨accept_linked ordered.linked procs ci pid, accept_attended ordered.attended procs ci pid⟩

theorem targeted_same (ci ip port source : Nat) : SameLinks s (targeted s ci ip port source) :=
  ⟨fun cj => by
    by_cases here : cj = ci
    · subst here
      constructor <;> simp [targeted, Tables.setConv]
    · simpa [targeted, Tables.setConv, here] using SameConv.refl (s.convs cj), rfl, rfl⟩

theorem named_same {port : Nat} (found : named s ci port = some after) : SameLinks s after := by
  unfold named at found
  dsimp only at found
  split_ifs at found
  cases found
  exact sameLinks_setConv ⟨.rfl, rfl, rfl, rfl, rfl, rfl⟩

theorem restated_same {state : ConvStatus} (taken : (s.convs ci).state ≠ .free)
    (still : state ≠ .free) : SameLinks s (s.setConv ci { s.convs ci with state := state }) :=
  sameLinks_setConv ⟨by simp [taken, still], rfl, rfl, rfl, rfl, rfl⟩

theorem tcpShutdown_used : (tcpShutdown now t).used = t.used := by
  unfold tcpShutdown
  split
  · exact tcpOutput_used
  · rfl

theorem tcpWrite_used (data : List Byte) : (tcpWrite now t data).2.used = t.used := by
  unfold tcpWrite
  split_ifs
  · rfl
  · rfl
  · rfl
  · exact tcpOutput_used

theorem convCtl_ordered (ordered : Ordered s) {caller : Nat} {command : Command}
    (taken : (s.convs ci).state ≠ .free) (remains : command = .hangup → NoneLeft s ci) :
    Ordered (convCtl hz s now procs caller ci command) := by
  cases command with
  | connect ip port source =>
    rw [convCtl]
    dsimp only
    have same : SameLinks s (targeted s ci ip port source) := targeted_same ci ip port source
    have busy : ((targeted s ci ip port source).convs ci).state ≠ .free := fun free =>
      taken ((same.convs ci).free.mp free)
    split_ifs with refused tcp
    · exact ordered
    · exact connectBlock_ordered (same.ordered ordered) busy tcp
    · exact (restated_same busy (by simp)).ordered (same.ordered ordered)
  | bind port =>
    rw [convCtl]
    cases found : named s ci port with
    | none => exact ordered
    | some => exact (named_same found).ordered ordered
  | announce =>
    rw [convCtl]
    split
    · exact ordered
    · rename_i after found
      dsimp only
      have same := named_same found
      have busy : (after.convs ci).state ≠ .free := fun free =>
        taken ((same.convs ci).free.mp free)
      have announced :
          Ordered (after.setConv ci { after.convs ci with state := .announced }) :=
        (restated_same busy (by simp)).ordered (same.ordered ordered)
      split_ifs with tcp
      · exact listenBlock_ordered announced (by simp [Tables.setConv]) tcp
      · exact announced
  | close =>
    rw [convCtl]
    split
    · rename_i ti kind tcb
      have used := (ordered.linked.conv_block ci ti tcb).1
      have goes : Goes s ti (tcpShutdown now) :=
        ⟨used, fun listens quiet => shutdown_heeds (viewed s ti) used listens quiet,
          fun other => shutdown_unlistening (t := viewed s ti) other⟩
      exact ⟨onBlock_linked ordered.linked goes,
        onBlock_attended ordered.linked ordered.attended goes
          fun _ => tcpShutdown_used.trans used⟩
    · exact ordered
  | hangup =>
    exact ⟨convFree_linked ordered.linked,
      convFree_attended ordered.linked ordered.attended (remains rfl)⟩
  | own =>
    refine SameLinks.ordered (sameLinks_setConv ?_) ordered
    exact ⟨.rfl, rfl, rfl, rfl, rfl, rfl⟩

theorem serve_ordered (ordered : Ordered s) {caller : Nat} {request : Request}
    (orderly : Orderly hz s ⟨now, procs, .request caller request⟩)
    (served : serve hz s now procs caller request = some after) : Ordered after := by
  have busy : ∀ {proto ci}, mayUse s procs caller proto ci = true →
      (s.convs ci).state ≠ .free := by
    intro proto ci allowed
    simp only [mayUse, Bool.and_eq_true, decide_eq_true_eq] at allowed
    exact allowed.1.1.2
  cases request with
  | clone =>
    obtain ⟨⟨ci, grown⟩, made, rfl⟩ := Option.map_eq_some_iff.mp served
    exact ⟨convAlloc_linked ordered.linked orderly made,
      convAlloc_attended ordered.attended made⟩
  | ctl =>
    simp only [serve] at served
    split_ifs at served with allowed
    obtain rfl := Option.some.inj served
    refine convCtl_ordered ordered (busy allowed) ?_
    rintro rfl
    exact orderly
  | listen ci =>
    simp only [serve] at served
    split_ifs at served
    obtain rfl := Option.some.inj served
    exact accept_ordered ordered ci caller
  | read _ max =>
    simp only [serve] at served
    split_ifs at served
    obtain rfl := Option.some.inj served
    exact onTcb_ordered ordered (read_heeds max) (fun _ => read_unlistening max) orderly
  | write ci data =>
    simp only [serve] at served
    split_ifs at served
    obtain rfl := Option.some.inj served
    exact onTcb_ordered ordered (write_heeds data) (fun _ => write_unlistening data)
      fun ti tcb _ => (tcpWrite_used data).trans (ordered.linked.conv_block ci ti tcb).1

theorem step_ordered {action : Action} (ordered : Ordered s) (orderly : Orderly hz s action)
    (stepped : step hz s action = some after) : Ordered after := by
  obtain ⟨now, procs, event⟩ := action
  cases event with
  | request => exact serve_ordered ordered orderly stepped
  | parkedListen ci pid =>
    simp only [step] at stepped
    split_ifs at stepped
    obtain rfl := Option.some.inj stepped
    exact accept_ordered ordered ci pid
  | parkedRead _ max =>
    simp only [step] at stepped
    split_ifs at stepped
    obtain rfl := Option.some.inj stepped
    exact onTcb_ordered ordered (read_heeds max) (fun _ => read_unlistening max) orderly
  | segment =>
    obtain rfl := Option.some.inj stepped
    exact segmentInput_ordered ordered orderly
  | timers =>
    obtain rfl := Option.some.inj stepped
    exact timers_ordered ordered _ List.nodup_range fun ti member =>
      orderly ti (List.mem_range.mp member)
  | reap =>
    obtain rfl := Option.some.inj stepped
    exact reap_ordered _ (ordered.reaping orderly)

end Requests

theorem booted_ordered (hz : Nat) : Ordered (booted hz) := by
  constructor
  · constructor <;> simp [booted]
  · intro e l waits
    exact absurd rfl waits.1

/-- In an orderly run an accept returns only what was made for its listener and handed to
nobody, and what waits is attended. -/
theorem orderly_isolated (hz : Nat) (s : Tables) (run : Runs hz (Orderly hz) s) :
    Isolated s := by
  have ordered : Ordered s := run.invariant Ordered (booted_ordered hz)
    fun _ _ _ held orderly stepped => step_ordered held orderly stepped
  exact isolated ordered.linked ordered.attended

def fiveAndSix : Procs := fun pid =>
  if pid = 5 then some (1, 100) else if pid = 6 then some (1, 200) else none

def asked (caller : Nat) (request : Request) : Action := ⟨0, fiveAndSix, .request caller request⟩

def plainSyn : Segment := ⟨100, 0, ⟨false, true, false, false⟩, 8192, 0, []⟩

def plainAck : Segment := ⟨101, 1, ⟨false, false, false, true⟩, 8192, 0, []⟩

def arrives (seg : Segment) : Action :=
  ⟨0, fiveAndSix, .segment ⟨0x0A000202, 0x0A00020F, 7000, 80⟩ seg 0⟩

/-- Process 5 listens, and a peer connects. -/
def oneVisitor : List Action :=
  [asked 5 (.clone .tcp), asked 5 (.ctl .tcp 0 (.announce 80)), arrives plainSyn]

def visited : Tables :=
  outcome (step 10) (Orderly 10) (booted 10) (oneVisitor ++ [arrives plainAck])

theorem visitor_is_returned : (tcpAccept visited fiveAndSix 0 5).1 = some 1 ∧
    Waiting visited 1 0 ∧ Isolated visited := by
  have run : Runs 10 (Orderly 10) visited :=
    outcome_reach (oneVisitor ++ [arrives plainAck]) (booted 10) (by decide)
  exact ⟨by decide, by decide, orderly_isolated 10 visited run⟩

/-- Process 5 hangs up what waits for it, and process 6 gets the number for a connection of
its own. -/
def intruded : List Action :=
  oneVisitor ++ [asked 5 (.ctl .tcp 1 .hangup), asked 6 (.clone .tcp),
    asked 6 (.ctl .tcp 1 (.connect 0x0A000202 22 0x0A00020F 0))]

def intrudedTables : Tables := outcome (step 10) (fun _ _ => True) (booted 10) intruded

/-- The accept returns the connection of process 6 to process 5. -/
theorem intruded_not_isolated :
    Runs 10 (fun _ _ => True) intrudedTables ∧ ¬ Isolated intrudedTables := by
  have run : Runs 10 (fun _ _ => True) intrudedTables :=
    outcome_reach intruded (booted 10) (by decide)
  refine ⟨run, fun isolated => ?_⟩
  have waits := isolated.returned fiveAndSix 0 5 1 (by decide)
  exact absurd waits (by decide)

end Racccoon.Net
