import Mathlib.Data.List.Perm.Subperm
import Racccoon.Ipc.Frames

/-!
The send queues of `Racccoon.Ipc.Model`. `Linked` says that every slot's list is
finite, ordered by arrival and has given members; `Rings` fixes the members: the
live processes that joined the slot's present occupant and have not left. The
other modules of the kernel see the queue operations only through `Relinked`.
-/

namespace Racccoon.Ipc

open LinkedQueue

def Queued (kernel : Kernel) (pid target : Nat) : Prop :=
  live kernel pid ∧ (kernel.procs pid).link.ipcQTarget = target ∧ live kernel target ∧
    (kernel.procs pid).link.joinedBorn = (kernel.procs target).born

def Linked (kernel : Kernel) (members : Nat → Nat → Prop) : Prop :=
  ∀ target, ∃ cells, Chain kernel.next (kernel.procs target).link.ipcQHead cells ∧
    (∀ pid, pid ∈ cells ↔ members pid target) ∧
    cells.Pairwise fun first second =>
      (kernel.procs first).link.joinedAt < (kernel.procs second).link.joinedAt

structure Rings (procsMax : Nat) (kernel : Kernel) : Prop where
  slots : ∀ pid, live kernel pid → 1 ≤ pid ∧ pid ≤ procsMax
  linked : Linked kernel (Queued kernel)
  born : ∀ pid, live kernel pid → (kernel.procs pid).born < kernel.log.length
  joined : ∀ pid, live kernel pid → (kernel.procs pid).link.ipcQTarget ≠ 0 →
    (kernel.procs pid).link.joinedAt < kernel.log.length ∧
      (kernel.procs pid).link.joinedBorn < kernel.log.length

variable {procsMax : Nat} {kernel after : Kernel} {pid self target current : Nat}

theorem Rings.length (rings : Rings procsMax kernel) {cells : List Nat} (nodup : cells.Nodup)
    (members : ∀ pid ∈ cells, live kernel pid) : cells.length ≤ procsMax := by
  have inside : cells ⊆ List.range' 1 procsMax := by
    intro pid member
    have slot := rings.slots pid (members pid member)
    rw [List.mem_range'_1]
    omega
  simpa using (nodup.subperm inside).length_le

theorem setHead_next (pid head : Nat) : (setHead kernel pid head).next = kernel.next := by
  funext other
  by_cases same : other = pid
  · subst same
    simp [Kernel.next, setHead]
  · simp [Kernel.next, setHead, same]

theorem setNext_next (pid next : Nat) :
    (setNext kernel pid next).next = Function.update kernel.next pid next := by
  funext other
  by_cases same : other = pid
  · subst same
    simp [Kernel.next, setNext]
  · simp [Kernel.next, setNext, same]

theorem setTarget_next (pid target joinedAt joinedBorn : Nat) :
    (setTarget kernel pid target joinedAt joinedBorn).next =
      Function.update kernel.next pid 0 := by
  funext other
  by_cases same : other = pid
  · subst same
    simp [Kernel.next, setTarget]
  · simp [Kernel.next, setTarget, same]

theorem setNext_head (pid next other : Nat) :
    ((setNext kernel pid next).procs other).link.ipcQHead =
      (kernel.procs other).link.ipcQHead := by
  by_cases same : other = pid
  · subst same
    simp [setNext]
  · simp [setNext, same]

theorem setHead_head (pid head other : Nat) (apart : other ≠ pid) :
    ((setHead kernel pid head).procs other).link.ipcQHead =
      (kernel.procs other).link.ipcQHead := by
  simp [setHead, apart]

variable (self) in
/-- What the search does, by the place of `self` on the target's list. -/
theorem ipcQUnlink_cases {cells : List Nat}
    (chain : Chain kernel.next (kernel.procs target).link.ipcQHead cells)
    (bound : cells.length ≤ procsMax) :
    (self ∉ cells ∧ ipcQUnlink procsMax kernel self target = kernel) ∨
    (∃ rest, cells = self :: rest ∧
      ipcQUnlink procsMax kernel self target = setHead kernel target (kernel.next self)) ∨
    ∃ before link rest, cells = before ++ link :: self :: rest ∧
      ipcQUnlink procsMax kernel self target = setNext kernel link (kernel.next self) := by
  cases cells with
  | nil =>
    have empty := chain.first_eq_zero.mpr rfl
    exact .inl ⟨List.not_mem_nil, by simp [ipcQUnlink, empty]⟩
  | cons first rest =>
    have head := chain.starts
    have present : first ≠ 0 := chain.present List.mem_cons_self
    rw [head] at chain
    by_cases front : first = self
    · subst front
      exact .inr (.inl ⟨rest, rfl, by simp [ipcQUnlink, head, present]⟩)
    · by_cases inside : self ∈ rest
      · obtain ⟨before, link, after, split, found⟩ :=
          chain.linkTo_mem inside (procsMax - 1) (by
            simp only [List.length_cons] at bound
            omega)
        exact .inr (.inr ⟨before, link, after, split,
          by simp [ipcQUnlink, head, present, front, found]⟩)
      · refine .inl ⟨?_, ?_⟩
        · simp [Ne.symm front, inside]
        · simp [ipcQUnlink, head, front, chain.linkTo_none inside]

section
variable (rings : Rings procsMax kernel)
include rings

/-- The search of `ipc_q_remove` takes `self` out of its list and no one else. -/
theorem Rings.unlink (joined : (kernel.procs self).link.ipcQTarget = target) :
    Linked (ipcQUnlink procsMax kernel self target)
      fun pid slot => Queued kernel pid slot ∧ pid ≠ self := by
  intro slot
  obtain ⟨cells, chain, members, sorted⟩ := rings.linked slot
  obtain ⟨own, ownChain, ownMembers, -⟩ := rings.linked target
  have stamps := sameStamps_unlink procsMax kernel self target
  have bound := rings.length ownChain.nodup fun pid member => ((ownMembers pid).mp member).1
  have order (left : List Nat) (part : left.Sublist cells) : left.Pairwise fun first second =>
      ((ipcQUnlink procsMax kernel self target).procs first).link.joinedAt <
        ((ipcQUnlink procsMax kernel self target).procs second).link.joinedAt := by
    simpa only [(stamps _).2.1] using sorted.sublist part
  have nodup := chain.nodup
  by_cases here : slot = target
  · subst here
    obtain rfl := chain.unique ownChain
    rcases ipcQUnlink_cases self chain bound with
      ⟨out, eq⟩ | ⟨rest, split, eq⟩ | ⟨before, link, rest, split, eq⟩
    · refine ⟨cells, by rw [eq]; exact chain, fun pid => ?_, order _ (List.Sublist.refl _)⟩
      beta_reduce
      rw [← members pid]
      exact ⟨fun member => ⟨member, fun same => out (same ▸ member)⟩, And.left⟩
    · subst split
      refine ⟨rest, ?_, fun pid => ?_, order _ (List.sublist_cons_self ..)⟩
      · have head := chain.starts
        rw [head] at chain
        rw [eq, setHead_next]
        cases chain with
        | cons _ tail => simpa [setHead] using tail
      · grind
    · subst split
      refine ⟨before ++ link :: rest, ?_, fun pid => ?_, order _ ?_⟩
      · rw [eq, setNext_next, setNext_head]
        exact chain.unlink
      · grind
      · exact List.Sublist.append_left ((List.sublist_cons_self ..).cons_cons link) before
  · have out : self ∉ cells := fun member =>
      here (((members self).mp member).2.1.symm.trans joined)
    refine ⟨cells, ?_, fun pid => ?_, order _ (List.Sublist.refl _)⟩
    · rcases ipcQUnlink_cases self ownChain bound with
        ⟨-, eq⟩ | ⟨rest, -, eq⟩ | ⟨before, link, rest, split, eq⟩
      · rw [eq]
        exact chain
      · rw [eq, setHead_next, setHead_head _ _ _ here]
        exact chain
      · rw [eq, setNext_next, setNext_head]
        refine chain.update_outside (fun member => here ?_) _
        have other := ((ownMembers link).mp (by rw [split]; simp)).2.1
        exact ((members link).mp member).2.1.symm.trans other
    · beta_reduce
      rw [← members pid]
      exact ⟨fun member => ⟨member, fun same => out (same ▸ member)⟩, And.left⟩

theorem Rings.still (later : kernel.log.length ≤ after.log.length)
    (alive : ∀ pid, live after pid ↔ live kernel pid)
    (kept : ∀ pid, (after.procs pid).born = (kernel.procs pid).born ∧
      (after.procs pid).link = (kernel.procs pid).link) : Rings procsMax after := by
  have next : after.next = kernel.next := by
    funext pid
    simp only [Kernel.next, (kept pid).2]
  have queued (pid target : Nat) : Queued after pid target ↔ Queued kernel pid target := by
    simp only [Queued, alive, (kept target).1, (kept pid).2]
  constructor
  · intro pid now
    exact rings.slots pid ((alive pid).mp now)
  · intro target
    obtain ⟨cells, chain, members, sorted⟩ := rings.linked target
    refine ⟨cells, ?_, fun pid => (members pid).trans (queued pid target).symm, ?_⟩
    · rw [next, (kept target).2]
      exact chain
    · simpa only [(kept _).2] using sorted
  · intro pid now
    rw [(kept pid).1]
    exact Nat.lt_of_lt_of_le (rings.born pid ((alive pid).mp now)) later
  · intro pid now joined
    rw [(kept pid).2] at joined ⊢
    obtain ⟨at_, born⟩ := rings.joined pid ((alive pid).mp now) joined
    exact ⟨by omega, by omega⟩

theorem Rings.same (same : SameRing kernel after) : Rings procsMax after :=
  rings.still same.1 (fun pid => not_congr (same.2 pid).alive)
    fun pid => ⟨(same.2 pid).born, (same.2 pid).link⟩

theorem Rings.sleep (alive : live kernel current) : Rings procsMax (sleep kernel current) := by
  refine rings.still (Nat.le_refl _) (fun pid => ?_) fun pid => ?_ <;>
    by_cases same : pid = current
  · subst same
    simp [live, Ipc.sleep, Kernel.give, show (kernel.procs pid).state ≠ _ from alive]
  · simp [live, Ipc.sleep, Kernel.give, same]
  · subst same
    simp [Ipc.sleep, Kernel.give]
  · simp [Ipc.sleep, Kernel.give, same]

theorem Rings.not_queued (left : (kernel.procs pid).link.ipcQTarget = 0) (target : Nat) :
    ¬ Queued kernel pid target := by
  rintro ⟨-, same, alive, -⟩
  have slot := rings.slots target alive
  omega

end

theorem Linked.setTarget {members : Nat → Nat → Prop} (linked : Linked kernel members)
    (out : ∀ slot, ¬ members pid slot) (target joinedAt joinedBorn : Nat) :
    Linked (setTarget kernel pid target joinedAt joinedBorn) members := by
  intro slot
  obtain ⟨cells, chain, member, sorted⟩ := linked slot
  have absent : pid ∉ cells := fun inside => out slot ((member pid).mp inside)
  refine ⟨cells, ?_, member, ?_⟩
  · have head : ((Ipc.setTarget kernel pid target joinedAt joinedBorn).procs slot).link.ipcQHead =
        (kernel.procs slot).link.ipcQHead := by
      by_cases same : slot = pid
      · subst same
        simp [Ipc.setTarget]
      · simp [Ipc.setTarget, same]
    rw [setTarget_next, head]
    exact chain.update_outside absent 0
  · refine sorted.imp_of_mem fun {first second} firstIn secondIn before => ?_
    have firstApart : first ≠ pid := fun same => absent (same ▸ firstIn)
    have secondApart : second ≠ pid := fun same => absent (same ▸ secondIn)
    simpa [Ipc.setTarget, firstApart, secondApart] using before

section
variable (rings : Rings procsMax kernel)
include rings

theorem Rings.removed (self : Nat) :
    Linked (ipcQRemove procsMax kernel self)
      fun pid slot => Queued kernel pid slot ∧ pid ≠ self := by
  refine Linked.setTarget ?_ (by simp) _ _ _
  split
  · exact rings.unlink rfl
  · next left =>
      have out := rings.not_queued (show (kernel.procs self).link.ipcQTarget = 0 by simpa using left)
      intro slot
      obtain ⟨cells, chain, members, sorted⟩ := rings.linked slot
      refine ⟨cells, chain, fun pid => ?_, sorted⟩
      rw [members pid]
      exact ⟨fun queued => ⟨queued, fun same => out slot (same ▸ queued)⟩, And.left⟩

theorem Rings.remove (self : Nat) : Rings procsMax (ipcQRemove procsMax kernel self) := by
  have relinked := relinked_remove procsMax kernel self
  obtain ⟨gone, stamps⟩ := ipcQRemove_stamps procsMax kernel self
  have length : (ipcQRemove procsMax kernel self).log = kernel.log := relinked.1
  refine ⟨fun pid alive => rings.slots pid (relinked.live_iff.mp alive), fun slot => ?_,
    fun pid alive => ?_, fun pid alive joined => ?_⟩
  · obtain ⟨cells, chain, members, sorted⟩ := rings.removed self slot
    refine ⟨cells, chain, fun pid => (members pid).trans ?_, sorted⟩
    by_cases same : pid = self
    · subst same
      refine iff_of_false (fun both => both.2 rfl) ?_
      rintro ⟨-, target, alive, -⟩
      have inside := rings.slots slot (relinked.live_iff.mp alive)
      omega
    · simp only [Queued, relinked.live_iff, relinked.born]
      grind
  · rw [relinked.born, length]
    exact rings.born pid (relinked.live_iff.mp alive)
  · have apart : pid ≠ self := by
      rintro rfl
      exact joined gone
    rw [(stamps pid apart).1] at joined
    rw [(stamps pid apart).2.1, (stamps pid apart).2.2, length]
    exact rings.joined pid (relinked.live_iff.mp alive) joined

/-- `ipc_q_enqueue` puts the caller behind everyone already on the target's list. -/
theorem Rings.enqueued (left : (kernel.procs current).link.ipcQTarget = 0) (here : live kernel current)
    (alive : live kernel target) :
    Linked (ipcQEnqueue procsMax kernel current target)
      fun pid slot => Queued kernel pid slot ∨ (pid = current ∧ slot = target) := by
  have out := rings.not_queued left
  obtain ⟨stampTarget, stampAt, -, others⟩ :=
    ipcQEnqueue_stamps procsMax kernel current target
  intro slot
  obtain ⟨cells, chain, members, sorted⟩ :=
    Linked.setTarget rings.linked out (kernel.pid target) kernel.log.length
      (kernel.procs target).born slot
  obtain ⟨own, ownChain, ownMembers, -⟩ :=
    Linked.setTarget rings.linked out (kernel.pid target) kernel.log.length
      (kernel.procs target).born target
  have ends : (setTarget kernel current (kernel.pid target) kernel.log.length
      (kernel.procs target).born).next current = 0 := by
    rw [setTarget_next, Function.update_self]
  have absent : current ∉ cells := fun inside => out slot ((members current).mp inside)
  have older : ∀ pid ∈ cells, (kernel.procs pid).link.joinedAt < kernel.log.length := by
    intro pid inside
    have queued := (members pid).mp inside
    refine (rings.joined pid queued.1 ?_).1
    have bound := rings.slots slot queued.2.2.1
    rw [queued.2.1]
    omega
  have order : (cells ++ [current]).Pairwise fun first second =>
      ((ipcQEnqueue procsMax kernel current target).procs first).link.joinedAt <
        ((ipcQEnqueue procsMax kernel current target).procs second).link.joinedAt := by
    refine List.pairwise_append.mpr ⟨?_, by simp, ?_⟩
    · refine sorted.imp_of_mem fun {first second} firstIn secondIn before => ?_
      have firstApart : first ≠ current := fun same => absent (same ▸ firstIn)
      have secondApart : second ≠ current := fun same => absent (same ▸ secondIn)
      rw [(others first firstApart).2.1, (others second secondApart).2.1]
      simpa [setTarget, firstApart, secondApart] using before
    · intro first firstIn second secondIn
      have firstApart : first ≠ current := fun same => absent (same ▸ firstIn)
      obtain rfl : second = current := by simpa using secondIn
      rw [(others first firstApart).2.1, stampAt]
      exact older first firstIn
  have present : current ≠ 0 := by
    have bound := rings.slots current here
    omega
  have bound := rings.length ownChain.nodup fun pid member => ((ownMembers pid).mp member).1
  generalize start : setTarget kernel current (kernel.pid target) kernel.log.length
    (kernel.procs target).born = linked at chain ownChain ends
  have reached (first : Nat) (rest : List Nat) (split : own = first :: rest) :
      lastFrom linked.next first procsMax = own.getLast (by simp [split]) := by
    subst split
    have head := ownChain.starts
    rw [head] at ownChain
    rw [ownChain.lastFrom (by simp only [List.length_cons] at bound; omega)]
  by_cases same : slot = target
  · subst same
    obtain rfl := chain.unique ownChain
    refine ⟨cells ++ [current], ?_, fun pid => ?_, order⟩
    · simp only [ipcQEnqueue, start]
      cases cells with
      | nil =>
        have empty := chain.first_eq_zero.mpr rfl
        rw [if_pos empty, setHead_next]
        have head : ((setHead linked slot current).procs slot).link.ipcQHead = current := by
          simp [setHead]
        rw [head]
        exact .cons present (ends ▸ .nil)
      | cons first rest =>
        have occupied : (linked.procs slot).link.ipcQHead ≠ 0 := by
          rw [chain.starts]
          exact chain.present List.mem_cons_self
        rw [if_neg occupied, setNext_next, setNext_head, chain.starts, reached first rest rfl]
        have split := List.dropLast_append_getLast (List.cons_ne_nil first rest)
        have whole := chain
        rw [chain.starts, ← split] at whole
        rw [← split] at absent
        have appended := whole.append absent present ends
        rwa [split] at appended
    · rw [List.mem_append, members pid]
      simp
  · refine ⟨cells, ?_, fun pid => ?_, order.sublist (List.sublist_append_left ..)⟩
    · simp only [ipcQEnqueue, start]
      split
      · rw [setHead_next, setHead_head _ _ _ same]
        exact chain
      · next occupied =>
          rw [setNext_next, setNext_head]
          refine chain.update_outside (fun inside => same ?_) _
          cases own with
          | nil => exact absurd (ownChain.first_eq_zero.mpr rfl) occupied
          | cons first rest =>
            rw [ownChain.starts, reached first rest rfl] at inside
            have there := ((ownMembers _).mp (List.getLast_mem (List.cons_ne_nil first rest))).2.1
            exact ((members _).mp inside).2.1.symm.trans there
    · rw [members pid]
      simp [same]

theorem Rings.enqueue (left : (kernel.procs current).link.ipcQTarget = 0) (here : live kernel current)
    (alive : live kernel target) (event : Event) :
    Rings procsMax ((ipcQEnqueue procsMax kernel current target).record event) := by
  have relinked := relinked_enqueue procsMax kernel current target
  obtain ⟨stampTarget, stampAt, stampBorn, others⟩ :=
    ipcQEnqueue_stamps procsMax kernel current target
  have pidTarget : kernel.pid target = target := if_neg alive
  have length : ((ipcQEnqueue procsMax kernel current target).record event).log.length =
      kernel.log.length + 1 := by
    simp [Kernel.record]
  refine ⟨fun pid now => rings.slots pid (relinked.live_iff.mp now), fun slot => ?_,
    fun pid now => ?_, fun pid now joined => ?_⟩
  · obtain ⟨cells, chain, members, sorted⟩ := rings.enqueued left here alive slot
    refine ⟨cells, chain, fun pid => (members pid).trans ?_, sorted⟩
    have queued : Queued ((ipcQEnqueue procsMax kernel current target).record event) pid slot ↔
        Queued (ipcQEnqueue procsMax kernel current target) pid slot := Iff.rfl
    rw [queued]
    by_cases own : pid = current
    · subst own
      constructor
      · rintro (queued | ⟨-, rfl⟩)
        · exact absurd queued (rings.not_queued left slot)
        · exact ⟨relinked.live_iff.mpr here, stampTarget.trans pidTarget,
            relinked.live_iff.mpr alive, by rw [stampBorn, relinked.born]⟩
      · rintro ⟨-, joined, -, -⟩
        exact .inr ⟨rfl, by rw [← joined, stampTarget, pidTarget]⟩
    · simp only [Queued, relinked.live_iff, (others pid own).1, (others pid own).2.2,
        relinked.born]
      simp [own]
  · have before := rings.born pid (relinked.live_iff.mp now)
    have same := relinked.born pid
    simp only [Kernel.record] at length ⊢
    omega
  · have before := rings.born target alive
    by_cases own : pid = current
    · subst own
      simp only [Kernel.record] at length ⊢
      omega
    · have bounds := rings.joined pid (relinked.live_iff.mp now)
        (by simpa [Kernel.record, (others pid own).1] using joined)
      simp only [Kernel.record, (others pid own).2] at length ⊢
      omega

theorem Rings.bury {victim : Nat} (left : (kernel.procs victim).link.ipcQTarget = 0) :
    Rings procsMax ((setHead kernel victim 0).modify victim fun proc =>
      { proc with state := .unused, pc := .user }) := by
  generalize buried : ((setHead kernel victim 0).modify victim fun proc =>
    { proc with state := .unused, pc := .user }) = after
  have own : (after.procs victim).state = .unused ∧ (after.procs victim).link.ipcQHead = 0 ∧
      (after.procs victim).link.ipcQTarget = 0 ∧
      (after.procs victim).link.ipcQNext = (kernel.procs victim).link.ipcQNext := by
    simp [← buried, setHead, left]
  have other (pid : Nat) (apart : pid ≠ victim) : after.procs pid = kernel.procs pid := by
    simp [← buried, setHead, apart]
  have log : after.log = kernel.log := by simp [← buried, setHead]
  have survivor (pid : Nat) (now : live after pid) : pid ≠ victim := by
    rintro rfl
    exact now own.1
  have alive (pid : Nat) (now : live after pid) : live kernel pid := by
    simpa [live, other pid (survivor pid now)] using now
  have next : after.next = kernel.next := by
    funext pid
    by_cases same : pid = victim
    · subst same
      exact own.2.2.2
    · simp only [Kernel.next, other pid same]
  have out := rings.not_queued left
  constructor
  · exact fun pid now => rings.slots pid (alive pid now)
  · intro slot
    by_cases gone : slot = victim
    · subst gone
      refine ⟨[], by rw [own.2.1]; exact .nil, fun pid => ?_, .nil⟩
      exact iff_of_false (by simp) fun queued => survivor slot queued.2.2.1 rfl
    · obtain ⟨cells, chain, members, sorted⟩ := rings.linked slot
      have stays (pid : Nat) (inside : pid ∈ cells) : pid ≠ victim := by
        rintro rfl
        exact out slot ((members pid).mp inside)
      refine ⟨cells, by rw [next, other slot gone]; exact chain, fun pid => ?_, ?_⟩
      · rw [members pid]
        by_cases same : pid = victim
        · subst same
          exact iff_of_false (out slot) fun queued => survivor pid queued.1 rfl
        · simp only [Queued, live, other pid same, other slot gone]
      · refine sorted.imp_of_mem fun {first second} firstIn secondIn before => ?_
        rwa [other first (stays first firstIn), other second (stays second secondIn)]
  · intro pid now
    rw [other pid (survivor pid now), log]
    exact rings.born pid (alive pid now)
  · intro pid now joined
    rw [other pid (survivor pid now)] at joined ⊢
    rw [log]
    exact rings.joined pid (alive pid now) joined

theorem Rings.born_slot {slot : Nat} {proc : Process} (inside : 1 ≤ slot ∧ slot ≤ procsMax)
    (dead : ¬ live kernel slot) (born : proc.born = kernel.log.length)
    (link : proc.link = ⟨0, 0, 0, 0, 0⟩) (event : Event) :
    Rings procsMax ((kernel.modify slot fun _ => proc).record event) := by
  generalize created : ((kernel.modify slot fun _ => proc).record event) = after
  have own : after.procs slot = proc := by simp [← created, Kernel.record]
  have other (pid : Nat) (apart : pid ≠ slot) : after.procs pid = kernel.procs pid := by
    simp [← created, Kernel.record, apart]
  have length : after.log.length = kernel.log.length + 1 := by simp [← created]
  have alive (pid : Nat) (apart : pid ≠ slot) : live after pid ↔ live kernel pid := by
    simp [live, other pid apart]
  have next : after.next = Function.update kernel.next slot 0 := by
    funext pid
    by_cases same : pid = slot
    · subst same
      simp [Kernel.next, own, link]
    · simp [Kernel.next, other pid same, same]
  constructor
  · intro pid now
    by_cases same : pid = slot
    · exact same ▸ inside
    · exact rings.slots pid ((alive pid same).mp now)
  · intro target
    by_cases fresh : target = slot
    · subst fresh
      refine ⟨[], by rw [own, link]; exact .nil, fun pid => iff_of_false (by simp) ?_, .nil⟩
      rintro ⟨now, joined, -, stamp⟩
      by_cases same : pid = target
      · subst same
        rw [own, link] at joined
        simp only at joined
        omega
      · rw [other pid same] at joined stamp
        rw [own] at stamp
        have bound := (rings.joined pid ((alive pid same).mp now) (by omega)).2
        omega
    · obtain ⟨cells, chain, members, sorted⟩ := rings.linked target
      have stays (pid : Nat) (member : pid ∈ cells) : pid ≠ slot := by
        rintro rfl
        exact dead ((members pid).mp member).1
      refine ⟨cells, ?_, fun pid => ?_, ?_⟩
      · rw [next, other target fresh]
        exact chain.update_outside (fun member => stays slot member rfl) 0
      · rw [members pid]
        by_cases same : pid = slot
        · subst same
          refine iff_of_false (fun queued => dead queued.1) ?_
          rintro ⟨-, joined, now, -⟩
          rw [own, link] at joined
          have bound := rings.slots target ((alive target fresh).mp now)
          simp only at joined
          omega
        · simp only [Queued, alive pid same, alive target fresh, other pid same,
            other target fresh]
      · refine sorted.imp_of_mem fun {first second} firstIn secondIn before => ?_
        rwa [other first (stays first firstIn), other second (stays second secondIn)]
  · intro pid now
    by_cases same : pid = slot
    · rw [same, own]
      omega
    · rw [other pid same]
      have before := rings.born pid ((alive pid same).mp now)
      omega
  · intro pid now joined
    by_cases same : pid = slot
    · rw [same, own, link] at joined
      exact absurd rfl joined
    · rw [other pid same] at joined ⊢
      have before := rings.joined pid ((alive pid same).mp now) joined
      omega

end
end Racccoon.Ipc
