import Racccoon.Lib.Census
import Racccoon.Net.Parking
import Mathlib.Data.List.Nodup

/-!
The answers of ipd to the requests it received. Each is answered once, and the answer gets to
its caller if that still waits. But what is read is taken out of its queue first, and an answer
is addressed to a process, not to its call. So a read must not be served for a caller that left
while there is something to read, and no process may begin or make a call while ipd holds a
request that could be taken for its own.
-/

namespace Racccoon.Net.Parked
open Function (update update_self update_of_ne)

open Run
open Racccoon.Census (census)
open Racccoon.Tcp (tcpRead)

structure Sound (a : Answer) : Prop where
  gets : a.waited = true →
    a.reached = some ⟨a.caller.pid, a.caller.gen, some a.caller.call⟩
  only : ∀ r ∈ a.reached, r.pid = a.caller.pid ∧ r.gen = a.caller.gen ∧
    ∀ c ∈ r.call, c = a.caller.call
  taken : a.taken ≠ .nothing → a.waited = true

/-- The slot holds the request that `caller` made. -/
def holds (caller : Caller) (slot : Option Pend) : Prop := ∃ pend ∈ slot, pend.caller = caller

instance (caller : Caller) : DecidablePred (holds caller) :=
  fun slot => inferInstanceAs (Decidable (∃ pend ∈ slot, pend.caller = caller))

/-- How often a request is parked or was answered. -/
def Books.placed (b : Books) (caller : Caller) : Nat :=
  census pendMax b.slots (holds caller) + (b.log.map Answer.caller).count caller

/-- A request that was received is parked or was answered, not both, and neither twice; a
round after its deadline answers it. -/
structure Lossless (s : Daemon) : Prop where
  once : ∀ caller, s.books.placed caller = if caller ∈ s.books.heard then 1 else 0
  due : ∀ i, ∀ pend ∈ s.books.slots i, pend.deadline ≤ s.now →
    (s.serviceAt i).books.slots i = none
  sound : ∀ a ∈ s.books.log, Sound a

/-- ipd holds no request that is taken for one of this process. -/
def Books.Apart (b : Books) (pid gen : Nat) : Prop :=
  (∀ mail ∈ b.mail, mail.caller.pid ≠ pid) ∧
    ∀ i < pendMax, ∀ pend ∈ b.slots i, pend.caller.pid = pid → pend.gen ≠ 0 ∧ pend.gen ≠ gen

instance (b : Books) (pid gen : Nat) : Decidable (b.Apart pid gen) :=
  inferInstanceAs (Decidable (_ ∧ ∀ i < pendMax, ∀ pend ∈ b.slots i, _))

/-- There is nothing to take for this read. -/
def Stock.vacant (s : Stock) (pend : Pend) : Bool :=
  match pend.kind with
  | .data =>
    match (s.tables.convs pend.conv).proto, (s.tables.convs pend.conv).tcb with
    | .tcp, none => true
    | .tcp, some ti => pend.maxlen = 0 || (s.tables.blocks ti).tcb.rlen = 0
    | _, _ => (s.grams pend.conv).isEmpty
  | .listen =>
    match listensOn s.tables pend.conv with
    | none => true
    | some li => (scanQueue s.tables (s.tables.blocks li).aq).2.isNone

namespace Daemon

/-- The read that a message asks for, if its sender may make it. -/
def asked (hz : Nat) (s : Daemon) (mail : Mail) : Option Pend :=
  let caller := mail.caller
  let gen := (identity s.books.procInfo caller.pid).1
  let allowed := mayUse s.stock.tables s.books.procInfo caller.pid
  match mail.body with
  | .read proto ci max =>
    if allowed proto ci then some (s.pendOf hz .data caller gen ci max) else none
  | .listen ci => if allowed .tcp ci then some (s.pendOf hz .listen caller gen ci 0) else none
  | _ => none

/-- The read that a step serves. -/
def reader (hz : Nat) (s : Daemon) : Event → Option Pend
  | .poll =>
    match s.books.mail with
    | [] => none
    | mail :: rest => (s.taken mail rest).asked hz mail
  | .service i => s.books.slots i
  | _ => none

variable (s : Daemon)

/-- Where the caller of a read left, there is nothing to read. -/
def FairRead (pend : Pend) : Prop :=
  s.books.Waits pend.caller ∨ s.stock.vacant pend = true

instance (pend : Pend) : Decidable (s.FairRead pend) :=
  inferInstanceAs (Decidable (_ ∨ _))

/-- No process begins or makes a call while ipd holds a request that is taken for its own. -/
def FairCall : Event → Prop
  | .spawn pid _ => s.books.Apart pid (s.books.gens + 1)
  | .call pid _ => ∀ p ∈ s.books.procs pid, s.books.Apart pid p.gen
  | _ => True

instance (event : Event) : Decidable (s.FairCall event) := by
  unfold FairCall
  split <;> infer_instance

def Fair (hz : Nat) (s : Daemon) (event : Event) : Prop :=
  (∀ pend ∈ s.reader hz event, s.FairRead pend) ∧ s.FairCall event

instance (hz : Nat) (s : Daemon) (event : Event) : Decidable (s.Fair hz event) :=
  inferInstanceAs (Decidable ((∀ pend ∈ s.reader hz event, s.FairRead pend) ∧ _))

end Daemon

/-- A reply to `caller` finds its process, or none, and in no other call. -/
structure Known (procs : Nat → Option Proc) (caller : Caller) (gen : Nat) : Prop where
  gone : gen = 0 → procs caller.pid = none
  same : gen ≠ 0 → gen = caller.gen
  only : ∀ p ∈ procs caller.pid, p.gen = caller.gen → ∀ c ∈ p.call, c = caller.call

/-- `hand` are the requests that are neither parked nor answered at the moment, with the
generation that `proc_info` found. -/
structure Sane (hand : List (Caller × Nat)) (b : Books) : Prop where
  once : ∀ caller, (hand.map Prod.fst).count caller + b.placed caller =
    if caller ∈ b.heard then 1 else 0
  unread : (b.mail.map Mail.caller).Nodup
  fresh : ∀ m ∈ b.mail, m.caller ∉ b.heard
  asked : ∀ caller, caller ∈ b.heard ∨ caller ∈ b.mail.map Mail.caller →
    caller.gen ≤ b.gens ∧ caller.call < b.asked
  alive : ∀ pid, ∀ p ∈ b.procs pid, p.gen ≠ 0 ∧ p.gen ≤ b.gens
  sender : ∀ m ∈ b.mail, ∀ p ∈ b.procs m.caller.pid,
    p.gen = m.caller.gen ∧ ∀ c ∈ p.call, c = m.caller.call
  inHand : ∀ h ∈ hand, Known b.procs h.1 h.2
  parked : ∀ i < pendMax, ∀ pend ∈ b.slots i, Known b.procs pend.caller pend.gen
  owed : ∀ o ∈ b.owed, o ∈ b.heard ∧ ∀ p ∈ b.procs o.pid, p.gen = o.gen →
    (∃ h ∈ hand, h.1 = o) ∨ ∃ i < pendMax, ∃ pend ∈ b.slots i, pend.caller = o

/-- Processes only stop waiting, end or begin; nothing else is new. -/
structure Calms (hand : List (Caller × Nat)) (b after : Books) : Prop where
  procs : ∀ pid, ∀ p ∈ after.procs pid,
    (∃ q ∈ b.procs pid, p.gen = q.gen ∧ ∀ c ∈ p.call, c ∈ q.call) ∨
      hand = [] ∧ b.gens < p.gen ∧ p.gen ≤ after.gens ∧ b.Apart pid p.gen
  gens : b.gens ≤ after.gens
  asked : after.asked = b.asked
  mail : after.mail.Sublist b.mail
  owed : ∀ o ∈ after.owed, o ∈ b.owed
  slots : after.slots = b.slots
  heard : after.heard = b.heard
  log : after.log = b.log

variable {hand : List (Caller × Nat)} {b after : Books} {caller : Caller} {gen i : Nat}
variable {pend : Pend}

theorem Known.calms (known : Known b.procs caller gen) (procs : ∀ p ∈ after.procs caller.pid,
    ∃ q ∈ b.procs caller.pid, p.gen = q.gen ∧ ∀ c ∈ p.call, c ∈ q.call) :
    Known after.procs caller gen where
  gone zero := by
    refine Option.eq_none_iff_forall_not_mem.mpr fun p alive => ?_
    obtain ⟨q, old, -⟩ := procs p alive
    rw [known.gone zero] at old
    cases old
  same := known.same
  only p alive same c waits := by
    obtain ⟨q, old, equal, call⟩ := procs p alive
    exact known.only q old (equal.symm.trans same) c (call c waits)

theorem Calms.sane (calms : Calms hand b after) (sane : Sane hand b) : Sane hand after where
  once caller := by
    rw [Books.placed, calms.slots, calms.log, calms.heard]
    exact sane.once caller
  unread := sane.unread.sublist (calms.mail.map _)
  fresh m inside := calms.heard ▸ sane.fresh m (calms.mail.subset inside)
  asked caller member := by
    rw [calms.heard] at member
    obtain ⟨young, call⟩ := sane.asked caller (member.imp_right ((calms.mail.map _).subset ·))
    exact ⟨Nat.le_trans young calms.gens, calms.asked ▸ call⟩
  alive pid p alive := by
    rcases calms.procs pid p alive with ⟨q, old, gen, -⟩ | ⟨-, more, young, -⟩
    · obtain ⟨some_, young⟩ := sane.alive pid q old
      exact ⟨gen ▸ some_, gen ▸ Nat.le_trans young calms.gens⟩
    · exact ⟨Nat.ne_of_gt (Nat.zero_lt_of_lt more), young⟩
  sender m inside p alive := by
    have before := calms.mail.subset inside
    rcases calms.procs _ p alive with ⟨q, old, gen, call⟩ | ⟨-, -, -, apart⟩
    · obtain ⟨same, only⟩ := sane.sender m before q old
      exact ⟨gen.trans same, fun c waits => only c (call c waits)⟩
    · exact absurd rfl (apart.1 m before)
  inHand h member := by
    refine (sane.inHand h member).calms fun p alive => ?_
    rcases calms.procs _ p alive with old | ⟨none_, -⟩
    · exact old
    · rw [none_] at member
      cases member
  parked i inside pend held := by
    rw [calms.slots] at held
    have known := sane.parked i inside pend held
    by_cases old : ∀ p ∈ after.procs pend.caller.pid,
        ∃ q ∈ b.procs pend.caller.pid, p.gen = q.gen ∧ ∀ c ∈ p.call, c ∈ q.call
    · exact known.calms old
    · simp only [not_forall] at old
      obtain ⟨p, alive, new⟩ := old
      obtain ⟨-, more, -, apart⟩ := (calms.procs _ p alive).resolve_left new
      obtain ⟨some_, other⟩ := apart.2 i inside pend held rfl
      refine ⟨fun zero => absurd zero some_, known.same, fun q alive' same => ?_⟩
      cases Option.some.inj (alive.symm.trans alive')
      exact absurd ((known.same some_).trans same.symm) other
  owed o inside := by
    obtain ⟨heard, held⟩ := sane.owed o (calms.owed o inside)
    rw [calms.heard, calms.slots]
    refine ⟨heard, fun p alive same => ?_⟩
    rcases calms.procs _ p alive with ⟨q, old, gen, -⟩ | ⟨-, more, -⟩
    · exact held q old (gen.symm.trans same)
    · have young := (sane.asked o (.inl heard)).1
      omega

/-- Where a reply to a request in hand goes. -/
theorem Sane.target (sane : Sane hand b) (known : Known b.procs caller gen) :
    (b.Waits caller → b.target caller.pid gen = some ⟨caller.pid, caller.gen, some caller.call⟩) ∧
      ∀ r ∈ b.target caller.pid gen,
        r.pid = caller.pid ∧ r.gen = caller.gen ∧ ∀ c ∈ r.call, c = caller.call := by
  unfold Books.target
  constructor
  · rintro ⟨p, alive, same, call⟩
    have found : b.procs caller.pid = some p := alive
    have some_ : gen ≠ 0 := fun zero => by simp [known.gone zero] at found
    have settled : (b.settles caller.pid p).any (fun owed => p.call ≠ some owed.call) = false := by
      rw [Option.any_eq_false]
      intro o inside
      obtain ⟨owed, matched⟩ := Option.filter_eq_some_iff.mp inside
      simp only [Bool.and_eq_true, decide_eq_true_eq] at matched
      have mine : ∃ g, Known b.procs o g := by
        rcases (sane.owed o owed).2 p (matched.1 ▸ alive) matched.2.symm with
          ⟨h, member, rfl⟩ | ⟨j, low, pend, held, rfl⟩
        · exact ⟨_, sane.inHand h member⟩
        · exact ⟨_, sane.parked j low pend held⟩
      obtain ⟨g, known⟩ := mine
      have equal := known.only p (matched.1 ▸ alive) matched.2.symm caller.call call
      simp [call, equal]
    simp only [found]
    rw [if_neg fun other => other.2 (same.trans (known.same some_).symm), settled,
      if_neg (by simp), same, call]
  · intro r left
    cases alive : b.procs caller.pid with
    | none => simp [alive] at left
    | some p =>
      simp only [alive] at left
      split_ifs at left with foreign stale
      · cases left
      · cases left
      · obtain rfl := Option.some.inj left
        have some_ : gen ≠ 0 := fun zero => by simp [known.gone zero] at alive
        have same : p.gen = caller.gen := by
          have equal := known.same some_
          omega
        exact ⟨rfl, same, known.only p alive same⟩

structure Kept (hand : List (Caller × Nat)) (b : Books) : Prop where
  sane : Sane hand b
  sound : ∀ a ∈ b.log, Sound a

theorem replyInt_calms (value : Int) (taken : Taken) :
    Calms hand b { b.replyInt caller gen value taken with log := b.log } where
  procs pid p alive := by
    refine .inl ?_
    simp only [Books.replyInt] at alive
    split_ifs at alive
    · by_cases here : pid = caller.pid
      · subst here
        rw [update_self] at alive
        obtain ⟨q, old, rfl⟩ := Option.map_eq_some_iff.mp alive
        exact ⟨q, old, rfl, fun c waits => by cases waits⟩
      · rw [update_of_ne here] at alive
        exact ⟨p, alive, rfl, fun _ waits => waits⟩
    · exact ⟨p, alive, rfl, fun _ waits => waits⟩
  gens := Nat.le_refl _
  asked := rfl
  mail := .refl _
  owed o inside := (Option.filter_eq_some_iff.mp inside).1
  slots := rfl
  heard := rfl
  log := rfl

/-- A request in hand is answered. -/
theorem replyInt_kept {value : Int} {taken : Taken} (kept : Kept ((caller, gen) :: hand) b)
    (took : taken = .nothing ∨ b.Waits caller) :
    Kept hand (b.replyInt caller gen value taken) := by
  have known : Known b.procs caller gen := kept.sane.inHand (caller, gen) List.mem_cons_self
  obtain ⟨gets, only⟩ := kept.sane.target known
  have calms : Calms ((caller, gen) :: hand) b
      { b.replyInt caller gen value taken with log := b.log } := replyInt_calms value taken
  have calm := calms.sane kept.sane
  refine ⟨⟨fun other => ?_, calm.unread, calm.fresh, calm.asked, calm.alive, calm.sender,
    fun h member => calm.inHand h (List.mem_cons_of_mem _ member), calm.parked,
    fun o inside => ?_⟩, fun a member => ?_⟩
  · refine Eq.trans ?_ (kept.sane.once other)
    simp only [Books.placed, Books.replyInt, List.map_cons, List.map_append, List.count_cons,
      List.count_append, List.map_nil, List.count_nil]
    omega
  · obtain ⟨heard, held⟩ := calm.owed o inside
    refine ⟨heard, fun p alive same => ?_⟩
    rcases held p alive same with ⟨h, member, mine⟩ | parked
    · rcases List.mem_cons.mp member with rfl | later
      · exfalso
        obtain ⟨-, open_⟩ := Option.filter_eq_some_iff.mp inside
        obtain rfl : caller = o := mine
        obtain ⟨q, old, gen_, -⟩ | ⟨none_, -⟩ := calms.procs _ p alive
        · have found : b.procs caller.pid = some q := old
          have some_ : gen ≠ 0 := fun zero => by simp [known.gone zero] at found
          have equal := known.same some_
          have mine : caller.gen = q.gen := same.symm.trans gen_
          simp [found, ← equal] at open_
          omega
        · cases none_
      · exact .inl ⟨h, later, mine⟩
    · exact .inr parked
  · rcases List.mem_append.mp member with old | new
    · exact kept.sound a old
    · rw [List.mem_singleton.mp new]
      exact ⟨fun waited => gets (of_decide_eq_true waited), only,
        fun some_ => decide_eq_true (took.resolve_left some_)⟩

/-- A parked request is taken in hand. -/
theorem emptied_kept (kept : Kept hand b) (inside : i < pendMax) (held : b.slots i = some pend) :
    Kept ((pend.caller, pend.gen) :: hand) (b.setSlot i none) := by
  obtain ⟨sane, sound⟩ := kept
  have before : ∀ {j : Nat} {other : Pend}, other ∈ (b.setSlot i none).slots j →
      other ∈ b.slots j := by
    intro j other inside
    by_cases here : j = i
    · subst here
      simp [Books.setSlot] at inside
    · simpa [Books.setSlot, here] using inside
  have known := sane.parked i inside pend held
  refine ⟨⟨fun other => ?_, sane.unread, sane.fresh, sane.asked, sane.alive, sane.sender,
    fun h member => ?_, fun j low other inside => ?_, fun o owed => ?_⟩, sound⟩
  · have moved := Census.census_update b.slots (holds other) i inside none
    refine Eq.trans ?_ (sane.once other)
    simp only [Books.placed, Books.setSlot, List.map_cons, List.count_cons]
    by_cases mine : pend.caller = other
    · simp [Census.weight, holds, held, mine] at moved ⊢
      omega
    · simp [Census.weight, holds, held, mine] at moved ⊢
      omega
  · rcases List.mem_cons.mp member with rfl | later
    · exact known
    · exact sane.inHand h later
  · exact sane.parked j low other (before inside)
  · obtain ⟨heard, held'⟩ := sane.owed o owed
    refine ⟨heard, fun p alive same => ?_⟩
    rcases held' p alive same with ⟨h, member, mine⟩ | ⟨j, low, other, there, mine⟩
    · exact .inl ⟨h, List.mem_cons_of_mem _ member, mine⟩
    · by_cases here : j = i
      · subst here
        cases Option.some.inj (held.symm.trans there)
        exact .inl ⟨_, List.mem_cons_self, mine⟩
      · exact .inr ⟨j, low, other, by simpa [Books.setSlot, here] using there, mine⟩

/-- A request in hand is parked, or told to come again. -/
theorem pendAdd_kept (kept : Kept ((pend.caller, pend.gen) :: hand) b) :
    Kept hand (b.pendAdd pend) := by
  unfold Books.pendAdd
  split
  · rename_i i found
    obtain ⟨sane, sound⟩ := kept
    have inside : i < pendMax := List.mem_range.mp (List.mem_of_find?_eq_some found)
    have free : b.slots i = none := by
      have empty := List.find?_some found
      simpa using empty
    have before : ∀ {j : Nat} {other : Pend}, other ∈ (b.setSlot i (some pend)).slots j →
        other = pend ∨ other ∈ b.slots j := by
      intro j other inside
      by_cases here : j = i
      · subst here
        simp only [Books.setSlot, update_self] at inside
        exact .inl (Option.some.inj inside).symm
      · exact .inr (by simpa [Books.setSlot, here] using inside)
    refine ⟨⟨fun other => ?_, sane.unread, sane.fresh, sane.asked, sane.alive, sane.sender,
      fun h member => sane.inHand h (List.mem_cons_of_mem _ member), fun j low other there => ?_,
      fun o owed => ?_⟩, sound⟩
    · have moved := Census.census_update b.slots (holds other) i inside (some pend)
      refine Eq.trans ?_ (sane.once other)
      simp only [Books.placed, Books.setSlot, List.map_cons, List.count_cons]
      by_cases mine : pend.caller = other
      · simp [Census.weight, holds, free, mine] at moved ⊢
        omega
      · simp [Census.weight, holds, free, mine] at moved ⊢
        omega
    · rcases before there with rfl | old
      · exact sane.inHand (other.caller, other.gen) List.mem_cons_self
      · exact sane.parked j low other old
    · obtain ⟨heard, held⟩ := sane.owed o owed
      refine ⟨heard, fun p alive same => ?_⟩
      rcases held p alive same with ⟨h, member, mine⟩ | ⟨j, low, other, there, mine⟩
      · rcases List.mem_cons.mp member with rfl | later
        · exact .inr ⟨i, inside, pend, by simp [Books.setSlot], mine⟩
        · exact .inl ⟨h, later, mine⟩
      · have away : j ≠ i := by
          rintro rfl
          rw [free] at there
          cases there
        exact .inr ⟨j, low, other, by simpa [Books.setSlot, away] using there, mine⟩
  · exact replyInt_kept kept (.inl rfl)

section Drops
variable {conv : Nat}

theorem dropAt_kept (inside : i < pendMax) (kept : Kept hand b) : Kept hand (b.dropAt conv i) := by
  unfold Books.dropAt
  split
  · rename_i pend held
    split
    · exact replyInt_kept (emptied_kept kept inside held) (.inl rfl)
    · exact kept
  · exact kept

theorem pendDropConv_kept (kept : Kept hand b) : Kept hand (b.pendDropConv conv) := by
  unfold Books.pendDropConv
  have inside : ∀ i ∈ List.range pendMax, i < pendMax := fun i => List.mem_range.mp
  generalize List.range pendMax = slots at inside
  induction slots generalizing b with
  | nil => exact kept
  | cons i rest ih =>
    exact ih (dropAt_kept (inside i List.mem_cons_self) kept)
      fun j member => inside j (List.mem_cons_of_mem i member)

theorem drops_kept (convs : List Nat) (kept : Kept hand b) :
    Kept hand (convs.foldl Books.pendDropConv b) := by
  induction convs generalizing b with
  | nil => exact kept
  | cons _ _ ih => exact ih (pendDropConv_kept kept)

end Drops

theorem takenBytes_nil {data : List Tcp.Byte} (empty : data = []) :
    Stock.takenBytes data = .nothing := by rw [empty]; rfl

theorem tcpRead_nothing {t : Tcp.Tcb} {max : Nat} (none_ : max = 0 ∨ t.rlen = 0) :
    (tcpRead t max).2.1 = [] := by
  unfold tcpRead
  rcases none_ with rfl | empty
  · split_ifs <;> simp [Ring.read]
  · split_ifs <;> rfl

theorem Stock.vacant_readNow {s : Stock} {procs : Procs} (vacant : s.vacant pend = true) :
    (s.readNow procs pend).2.1 = .nothing := by
  unfold Stock.vacant at vacant
  unfold Stock.readNow
  cases kind : pend.kind with
  | data =>
    simp only [kind] at vacant ⊢
    unfold Stock.convReadNow
    dsimp only
    have queued : (s.tables.convs pend.conv).proto ≠ .tcp → s.grams pend.conv = [] := by
      intro other
      cases proto : (s.tables.convs pend.conv).proto with
      | tcp => exact absurd proto other
      | udp | icmp => simpa [proto] using vacant
    cases proto : (s.tables.convs pend.conv).proto with
    | udp | icmp => simp only [queued (by simp [proto])]
    | tcp =>
      cases tcb : (s.tables.convs pend.conv).tcb with
      | none => rfl
      | some =>
        simp only [proto, tcb, Bool.or_eq_true, decide_eq_true_eq] at vacant
        refine takenBytes_nil (tcpRead_nothing (vacant.imp (fun zero => ?_) id))
        rw [zero, Nat.zero_min]
  | listen =>
    simp only [kind] at vacant ⊢
    unfold Stock.acceptNow
    split
    · rfl
    · rename_i li listens
      simp only [listens, Option.isNone_iff_eq_none] at vacant
      have none_ : (tcpAccept s.tables procs pend.conv pend.caller.pid).1 = none := by
        simp only [tcpAccept, listens, vacant]
      simp only [none_]

section Steps
variable {hz : Nat} {s : Daemon}

theorem Daemon.FairRead.took (fair : s.FairRead pend) :
    (s.stock.readNow s.books.procInfo pend).2.1 = .nothing ∨ s.books.Waits pend.caller :=
  fair.symm.imp_left Stock.vacant_readNow

theorem serviceAt_kept (kept : Kept hand s.books) (inside : i < pendMax)
    (fair : ∀ pend ∈ s.books.slots i, s.FairRead pend) : Kept hand (s.serviceAt i).books := by
  unfold Daemon.serviceAt
  split
  · exact kept
  · rename_i pend held
    dsimp only
    split
    · exact kept
    · exact replyInt_kept (emptied_kept kept inside held) (fair pend held).took

theorem serveRead_kept (kept : Kept ((pend.caller, pend.gen) :: hand) s.books)
    (fair : s.FairRead pend) : Kept hand (s.serveRead pend).books := by
  unfold Daemon.serveRead
  dsimp only
  split
  · exact pendAdd_kept kept
  · exact replyInt_kept kept fair.took

theorem serveOther_kept {request : Request} (kept : Kept [(caller, gen)] s.books) :
    Kept [] (s.serveOther hz caller gen request).books := by
  unfold Daemon.serveOther
  split
  · exact replyInt_kept kept (.inl rfl)
  · exact replyInt_kept (drops_kept _ kept) (.inl rfl)

/-- A message is taken: its request is in hand. -/
theorem taken_kept {mail : Mail} {rest : List Mail} (kept : Kept [] s.books)
    (first : s.books.mail = mail :: rest) :
    Kept [(mail.caller, (identity s.books.procInfo mail.caller.pid).1)]
      (s.taken mail rest).books := by
  obtain ⟨sane, sound⟩ := kept
  have member : mail ∈ s.books.mail := first ▸ List.mem_cons_self
  have later : ∀ m ∈ rest, m ∈ s.books.mail := fun m inside =>
    first ▸ List.mem_cons_of_mem mail inside
  have apart := sane.unread
  rw [first, List.map_cons, List.nodup_cons] at apart
  have new := sane.fresh mail member
  have sender := sane.sender mail member
  refine ⟨⟨fun other => ?_, apart.2, fun m inside => ?_, fun other known => ?_, sane.alive,
    fun m inside => sane.sender m (later m inside), fun h inside => ?_, sane.parked,
    fun o owed => ?_⟩, sound⟩
  · have before := sane.once other
    simp only [List.map_nil, List.count_nil, Nat.zero_add] at before
    change List.count other [mail.caller] + s.books.placed other =
      if other ∈ s.books.heard ++ [mail.caller] then 1 else 0
    rw [before]
    by_cases mine : mail.caller = other
    · subst mine
      simp [new]
    · simp [mine, Ne.symm mine]
  · have other : m.caller ≠ mail.caller := fun same =>
      apart.1 (List.mem_map.mpr ⟨m, inside, same⟩)
    simpa [Daemon.taken, other] using sane.fresh m (later m inside)
  · refine sane.asked other ?_
    rcases known with known | inside
    · rcases List.mem_append.mp known with old | new
      · exact .inl old
      · exact .inr (List.mem_map.mpr ⟨mail, member, (List.mem_singleton.mp new).symm⟩)
    · obtain ⟨m, inside, same⟩ := List.mem_map.mp inside
      exact .inr (List.mem_map.mpr ⟨m, later m inside, same⟩)
  · obtain rfl := List.mem_singleton.mp inside
    cases alive : s.books.procs mail.caller.pid with
    | none =>
      refine ⟨fun _ => alive, fun some_ => ?_, fun p found => ?_⟩
      · simp [identity, Books.procInfo, alive] at some_
      · have found : s.books.procs mail.caller.pid = some p := found
        rw [alive] at found
        cases found
    | some p =>
      have gen : (identity s.books.procInfo mail.caller.pid).1 = mail.caller.gen := by
        simpa [identity, Books.procInfo, alive] using (sender p alive).1
      refine ⟨fun zero => ?_, fun _ => gen, fun q found _ => (sender q found).2⟩
      exact absurd ((sender p alive).1.trans (gen.symm.trans zero))
        (sane.alive _ p alive).1
  · obtain rfl := Option.some.inj owed
    exact ⟨List.mem_append_right _ List.mem_cons_self,
      fun _ _ _ => .inl ⟨_, List.mem_cons_self, rfl⟩⟩

theorem serveMail_kept {mail : Mail}
    (kept : Kept [(mail.caller, (identity s.books.procInfo mail.caller.pid).1)] s.books)
    (fair : ∀ pend ∈ s.asked hz mail, s.FairRead pend) :
    Kept [] (s.serveMail hz mail).books := by
  unfold Daemon.asked at fair
  unfold Daemon.serveMail
  cases body : mail.body with
  | read =>
    simp only [body] at fair ⊢
    split_ifs at fair ⊢
    · exact serveRead_kept kept (fair _ rfl)
    · exact replyInt_kept kept (.inl rfl)
  | listen =>
    simp only [body] at fair ⊢
    split_ifs at fair ⊢
    · exact serveRead_kept kept (fair _ rfl)
    · exact replyInt_kept kept (.inl rfl)
  | clone => exact serveOther_kept kept
  | ctl => exact serveOther_kept kept
  | write => exact serveOther_kept kept
  | headers =>
    dsimp only
    split_ifs
    · exact replyInt_kept kept (.inl rfl)
    · exact replyInt_kept kept (.inl rfl)
  | text => exact replyInt_kept kept (.inl rfl)

end Steps

section Processes
variable {pid : Nat}

/-- One process changes, and it may withdraw its message. -/
theorem setProc_calms {p : Option Proc} (withdrawn : Bool) (gens : Nat) (more : b.gens ≤ gens)
    (changed : ∀ q ∈ p, (∃ old ∈ b.procs pid, q.gen = old.gen ∧ q.call = none) ∨
      b.gens < q.gen ∧ q.gen ≤ gens ∧ b.Apart pid q.gen) :
    Calms [] b { b.setProc pid p with gens := gens, mail := b.withdraw pid withdrawn } where
  procs pid' q alive := by
    by_cases here : pid' = pid
    · subst here
      simp only [Books.setProc, update_self] at alive
      rcases changed q alive with ⟨old, held, gen, quiet⟩ | new
      · refine .inl ⟨old, held, gen, fun c waits => ?_⟩
        rw [quiet] at waits
        cases waits
      · exact .inr ⟨rfl, new⟩
    · simp only [Books.setProc, update_of_ne here] at alive
      exact .inl ⟨q, alive, rfl, fun _ waits => waits⟩
  gens := more
  asked := rfl
  mail := by
    dsimp only [Books.withdraw]
    split
    · exact List.filter_sublist
    · exact .refl _
  owed _ inside := inside
  slots := rfl
  heard := rfl
  log := rfl

theorem spawn_calms {uid : Nat} (apart : b.Apart pid (b.gens + 1))
    (spawned : b.spawn pid uid = some after) : Calms [] b after := by
  unfold Books.spawn at spawned
  split at spawned
  · cases spawned
  · obtain rfl := Option.some.inj spawned
    refine setProc_calms false (b.gens + 1) (Nat.le_succ _) fun q same => ?_
    cases same
    exact .inr ⟨Nat.lt_succ_self _, Nat.le_refl _, apart⟩

theorem exit_calms (pid : Nat) (withdrawn : Bool) : Calms [] b (b.exit pid withdrawn) :=
  setProc_calms withdrawn b.gens (Nat.le_refl _) fun _ gone => by cases gone

theorem stop_calms {withdrawn : Bool} (stopped : b.stop pid withdrawn = some after) :
    Calms [] b after := by
  obtain ⟨p, alive, rfl⟩ := Option.map_eq_some_iff.mp stopped
  refine setProc_calms withdrawn b.gens (Nat.le_refl _) fun q same => ?_
  cases same
  exact .inl ⟨p, alive, rfl, rfl⟩

theorem call_kept {body : Body} (kept : Kept [] b) (apart : ∀ p ∈ b.procs pid, b.Apart pid p.gen)
    (called : b.call pid body = some after) : Kept [] after := by
  obtain ⟨sane, sound⟩ := kept
  unfold Books.call at called
  split at called
  · rename_i gen uid alive
    obtain rfl := Option.some.inj called
    obtain ⟨unread, unparked⟩ := apart _ alive
    have young := sane.alive pid _ alive
    have procs : ∀ {pid' : Nat} {p : Proc},
        p ∈ (update b.procs pid (some ⟨gen, uid, some b.asked⟩)) pid' →
          (p.gen = gen ∧ p.call = some b.asked ∧ pid' = pid) ∨ pid' ≠ pid ∧ p ∈ b.procs pid' := by
      intro pid' p inside
      by_cases here : pid' = pid
      · subst here
        rw [update_self] at inside
        cases inside
        exact .inl ⟨rfl, rfl, rfl⟩
      · rw [update_of_ne here] at inside
        exact .inr ⟨here, inside⟩
    have unasked : ∀ other, other ∈ b.heard ∨ other ∈ b.mail.map Mail.caller →
        other ≠ ⟨pid, gen, b.asked⟩ := by
      rintro _ known rfl
      exact absurd (sane.asked _ known).2 (Nat.lt_irrefl _)
    refine ⟨⟨sane.once, ?_, fun m inside => ?_, fun other known => ?_, fun pid' p inside => ?_,
      fun m inside p there => ?_, fun _ none_ => (by cases none_), fun i low pend held => ?_,
      fun o owed => ?_⟩, sound⟩
    · rw [List.map_append, List.nodup_append]
      refine ⟨sane.unread, by simp, fun other old new same => ?_⟩
      exact fun equal => unasked other (.inr old) (equal.trans (List.mem_singleton.mp same))
    · rcases List.mem_append.mp inside with old | new
      · exact sane.fresh m old
      · rw [List.mem_singleton.mp new]
        exact fun heard => unasked _ (.inl heard) rfl
    · have old : other ∈ b.heard ∨ other ∈ b.mail.map Mail.caller ∨
          other = ⟨pid, gen, b.asked⟩ := by simpa [Books.setProc] using known
      rcases or_assoc.mpr old with old | rfl
      · obtain ⟨gens, call⟩ := sane.asked other old
        exact ⟨gens, Nat.lt_succ_of_lt call⟩
      · exact ⟨young.2, Nat.lt_succ_self _⟩
    · rcases procs inside with ⟨same, -⟩ | ⟨-, old⟩
      · exact same ▸ young
      · exact sane.alive pid' p old
    · rcases procs there with ⟨same, call, mine⟩ | ⟨away, old⟩
      · rcases List.mem_append.mp inside with before | new
        · exact absurd mine (unread m before)
        · rw [List.mem_singleton.mp new]
          exact ⟨same, fun c waits => Option.some.inj (waits.symm.trans call)⟩
      · rcases List.mem_append.mp inside with before | new
        · exact sane.sender m before p old
        · rw [List.mem_singleton.mp new] at away
          exact absurd rfl away
    · obtain ⟨gone, same, only⟩ := sane.parked i low pend held
      refine ⟨fun zero => ?_, same, fun p there equal => ?_⟩
      · have away : pend.caller.pid ≠ pid := fun mine => (unparked i low pend held mine).1 zero
        simpa [Books.setProc, away] using gone zero
      · rcases procs there with ⟨mine, -, here⟩ | ⟨-, old⟩
        · obtain ⟨some_, other⟩ := unparked i low pend held here
          exact absurd ((same some_).trans (equal.symm.trans mine)) other
        · exact only p old equal
    · obtain ⟨heard, held⟩ := sane.owed o owed
      refine ⟨heard, fun p there same => ?_⟩
      rcases procs there with ⟨mine, -, here⟩ | ⟨-, old⟩
      · exact held _ (here ▸ alive) (mine.symm.trans same)
      · exact held p old same
  · cases called

theorem Calms.kept (calms : Calms hand b after) (kept : Kept hand b) : Kept hand after :=
  ⟨calms.sane kept.sane, fun a inside => kept.sound a (calms.log ▸ inside)⟩

end Processes

theorem step_kept {hz : Nat} {s after : Daemon} {event : Event} (kept : Kept [] s.books)
    (fair : s.Fair hz event) (stepped : step hz s event = some after) : Kept [] after.books := by
  obtain ⟨reads, calls⟩ := fair
  have moved : ∀ event, ((tableEvent event).bind fun event =>
      Net.step hz s.stock.tables ⟨s.now, s.books.procInfo, event⟩).map s.moveTables =
        some after → Kept [] after.books := by
    intro event done
    obtain ⟨tables, -, rfl⟩ := Option.map_eq_some_iff.mp done
    exact drops_kept _ kept
  cases event with
  | spawn =>
    obtain ⟨books, spawned, rfl⟩ := Option.map_eq_some_iff.mp stepped
    exact (spawn_calms calls spawned).kept kept
  | exit pid withdrawn =>
    obtain rfl := Option.some.inj stepped
    exact (exit_calms pid withdrawn).kept kept
  | call =>
    obtain ⟨books, called, rfl⟩ := Option.map_eq_some_iff.mp stepped
    exact call_kept kept calls called
  | stop =>
    obtain ⟨books, stopped, rfl⟩ := Option.map_eq_some_iff.mp stepped
    exact (stop_calms stopped).kept kept
  | clock =>
    simp only [step] at stepped
    split_ifs at stepped
    obtain rfl := Option.some.inj stepped
    exact kept
  | poll =>
    simp only [step] at stepped
    simp only [Daemon.reader] at reads
    cases mail : s.books.mail with
    | nil => simp [mail] at stepped
    | cons =>
      simp only [mail] at stepped reads
      obtain rfl := Option.some.inj stepped
      exact serveMail_kept (taken_kept kept mail) reads
  | service i =>
    simp only [step] at stepped
    split_ifs at stepped with inside
    obtain rfl := Option.some.inj stepped
    exact serviceAt_kept kept inside reads
  | datagram ci dgram =>
    simp only [step] at stepped
    split_ifs at stepped
    obtain rfl := Option.some.inj stepped
    exact kept
  | segment route seg iss => exact moved (.segment route seg iss) stepped
  | timers => exact moved .timers stepped
  | reap => exact moved .reap stepped

end Racccoon.Net.Parked
