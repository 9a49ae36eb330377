import Racccoon.Net.Connections

/-!
The accept queues of ipd. A queue holds bare numbers of conversations, and nothing takes a
number out when its conversation is freed or dies. As long as no number is given out again
while it is queued, no queued connection dies and no listener leaves one behind, an accept
returns only what was made for its listener and handed to nobody.
-/

namespace Racccoon.Net

open Run
open Racccoon.Tcp (Tcb Seq Segment Byte tcpAbort tcpConnect tcpListen tcpShutdown inputListen
  tcpInput tcpTimers tcpRead tcpWrite)

variable (s : Tables)

/-- Made for a SYN to the listener that was born as `l`, and not handed out yet. -/
def Waiting (e l : Nat) : Prop :=
  (s.convs e).state ≠ .free ∧ (s.convs e).origin = some l ∧ (s.convs e).handed = false

/-- The conversation `ci`, born as `l`, listens through the block `li`. -/
def Hears (ci li l : Nat) : Prop :=
  (s.convs ci).born = l ∧ (s.convs ci).state ≠ .free ∧ (s.convs ci).tcb = some li ∧
    (s.blocks li).tcb.state = .listen

/-- An accept returns a conversation that was made for this listener and went to nobody
else, and no other changes its owner; what waits has its connection and its listener. -/
structure Isolated (s : Tables) : Prop where
  returned : ∀ procs ci pid nc, (tcpAccept s procs ci pid).1 = some nc →
    Waiting s nc (s.convs ci).born
  others : ∀ procs ci pid cj, (tcpAccept s procs ci pid).1 ≠ some cj →
    ((tcpAccept s procs ci pid).2.convs cj) = s.convs cj
  attended : ∀ e l, Waiting s e l →
    (s.convs e).tcb.isSome = true ∧ ∃ ci li, Hears s ci li l

instance (e l : Nat) : Decidable (Waiting s e l) :=
  inferInstanceAs (Decidable (_ ∧ _ ∧ _))

def FreshNumber : Prop :=
  ∀ li, li < tcbMax → (s.blocks li).listens = true → ∀ ci ∈ (s.blocks li).aq,
    freeConv s ≠ some ci

instance : Decidable (FreshNumber s) :=
  inferInstanceAs (Decidable (∀ li, li < tcbMax → _))

variable (ti : Nat)

def serves : Prop :=
  ∃ e ∈ (s.blocks ti).conv, ∃ l ∈ (s.convs e).origin, Waiting s e l

instance : Decidable (serves s ti) :=
  inferInstanceAs (Decidable (∃ e ∈ (s.blocks ti).conv, _))

def NoneLeft (ci : Nat) : Prop :=
  ∀ e, e < convMax → ¬ Waiting s e (s.convs ci).born

instance (ci : Nat) : Decidable (NoneLeft s ci) :=
  inferInstanceAs (Decidable (∀ e, e < convMax → _))

/-- A step that the owner of a waiting conversation, its peer or a timer takes at its block
leaves the block in use. -/
def Outlives (after : Tcb) : Prop := serves s ti → after.used = true

instance (after : Tcb) : Decidable (Outlives s ti after) :=
  inferInstanceAs (Decidable (_ → _))

/-- No number is given out again while it is queued, no step ends the connection of a
conversation that waits, and no listener goes away with one waiting, unless both lose their
owner at once. -/
def Orderly (hz : Nat) (s : Tables) (action : Action) : Prop :=
  match action.event with
  | .request _ (.clone _) => FreshNumber s
  | .request _ (.ctl _ ci .hangup) => NoneLeft s ci
  | .request _ (.read ci max) | .parkedRead ci max =>
    ∀ ti ∈ (s.convs ci).tcb, Outlives s ti (tcpRead (viewed s ti) max).2.2
  | .segment route seg _ =>
    ∀ ti ∈ tcbLookup s route,
      if (s.blocks ti).tcb.state = .listen then FreshNumber s
      else Outlives s ti (tcpInput hz action.now (viewed s ti) seg)
  | .timers =>
    ∀ ti, ti < tcbMax → (s.blocks ti).tcb.used = true →
      Outlives s ti (tcpTimers hz action.now (viewed s ti))
  | .reap =>
    ∀ ci, ci < convMax → ∀ e, e < convMax → orphaned action.procs (s.convs ci) = true →
      Waiting s e (s.convs ci).born → orphaned action.procs (s.convs e) = true
  | _ => True

instance (hz : Nat) (s : Tables) : (action : Action) → Decidable (Orderly hz s action)
  | ⟨_, _, .request _ (.clone _)⟩ => inferInstanceAs (Decidable (FreshNumber s))
  | ⟨_, _, .request _ (.ctl _ ci .hangup)⟩ => inferInstanceAs (Decidable (NoneLeft s ci))
  | ⟨_, _, .request _ (.read ci _)⟩ | ⟨_, _, .parkedRead ci _⟩ =>
    inferInstanceAs (Decidable (∀ ti ∈ (s.convs ci).tcb, _))
  | ⟨_, _, .segment route _ _⟩ => inferInstanceAs (Decidable (∀ ti ∈ tcbLookup s route, _))
  | ⟨_, _, .timers⟩ => inferInstanceAs (Decidable (∀ ti, ti < tcbMax → _))
  | ⟨_, _, .reap⟩ => inferInstanceAs (Decidable (∀ ci, ci < convMax → _))
  | ⟨_, _, .request _ (.ctl _ _ (.connect ..))⟩ | ⟨_, _, .request _ (.ctl _ _ (.bind _))⟩
  | ⟨_, _, .request _ (.ctl _ _ (.announce _))⟩ | ⟨_, _, .request _ (.ctl _ _ .close)⟩
  | ⟨_, _, .request _ (.ctl _ _ .own)⟩ | ⟨_, _, .request _ (.listen _)⟩
  | ⟨_, _, .request _ (.write ..)⟩ | ⟨_, _, .parkedListen ..⟩ => inferInstanceAs (Decidable True)

structure Linked (s : Tables) : Prop where
  conv_block : ∀ ci ti, (s.convs ci).tcb = some ti →
    (s.blocks ti).tcb.used = true ∧ (s.blocks ti).conv = some ci
  block_conv : ∀ ti ci, (s.blocks ti).tcb.used = true → (s.blocks ti).conv = some ci →
    (s.convs ci).tcb = some ti
  free : ∀ ci, (s.convs ci).state = .free → (s.convs ci).tcb = none
  small : ∀ ci, (s.convs ci).state ≠ .free → ci < convMax
  tcp : ∀ ci, (s.convs ci).proto ≠ .tcp → (s.convs ci).tcb = none
  earlier : ∀ ci, (s.convs ci).state ≠ .free → (s.convs ci).born < s.births
  inside : ∀ ti, (s.blocks ti).tcb.used = true → ti < tcbMax
  births : ∀ ci cj, (s.convs ci).state ≠ .free → (s.convs cj).state ≠ .free →
    (s.convs ci).born = (s.convs cj).born → ci = cj
  quiet : ∀ li, (s.blocks li).tcb.used = true → (s.blocks li).tcb.state = .listen →
    (s.blocks li).tcb.rtxDue = 0
  idle : ∀ ti, (s.blocks ti).tcb.used = true → (s.blocks ti).tcb.state ≠ .listen →
    (s.blocks ti).aq = []
  nodup : ∀ ti, (s.blocks ti).tcb.used = true → (s.blocks ti).aq.Nodup
  made : ∀ li ci e, (s.blocks li).tcb.used = true → (s.blocks li).conv = some ci →
    e ∈ (s.blocks li).aq → (s.convs e).state ≠ .free → Waiting s e (s.convs ci).born

def Attended : Prop :=
  ∀ e l, Waiting s e l → (s.convs e).tcb.isSome = true ∧ ∃ ci li, Hears s ci li l

/-- The fields of a conversation that accepting depends on are the same. -/
structure SameConv (before after : Conv) : Prop where
  free : after.state = .free ↔ before.state = .free
  tcb : after.tcb = before.tcb
  proto : after.proto = before.proto
  born : after.born = before.born
  origin : after.origin = before.origin
  handed : after.handed = before.handed

theorem SameConv.refl (conv : Conv) : SameConv conv conv := ⟨.rfl, rfl, rfl, rfl, rfl, rfl⟩

structure SameLinks (before after : Tables) : Prop where
  convs : ∀ ci, SameConv (before.convs ci) (after.convs ci)
  blocks : after.blocks = before.blocks
  births : after.births = before.births

theorem sameLinks_setConv {s : Tables} {ci : Nat} {conv : Conv}
    (same : SameConv (s.convs ci) conv) : SameLinks s (s.setConv ci conv) where
  convs cj := by
    by_cases here : cj = ci
    · subst here
      simpa [Tables.setConv] using same
    · simpa [Tables.setConv, here] using SameConv.refl (s.convs cj)
  blocks := rfl
  births := rfl

section Same
variable {before after : Tables} (same : SameLinks before after)
include same

theorem SameLinks.waiting (e l : Nat) : Waiting after e l ↔ Waiting before e l := by
  simp only [Waiting, (same.convs e).origin, (same.convs e).handed, ne_eq, (same.convs e).free]

theorem SameLinks.hears (ci li l : Nat) : Hears after ci li l ↔ Hears before ci li l := by
  simp only [Hears, (same.convs ci).born, (same.convs ci).tcb, ne_eq, (same.convs ci).free,
    same.blocks]

theorem SameLinks.linked (linked : Linked before) : Linked after where
  conv_block ci ti held := by
    rw [(same.convs ci).tcb] at held
    rw [same.blocks]
    exact linked.conv_block ci ti held
  block_conv ti ci used held := by
    rw [same.blocks] at used held
    rw [(same.convs ci).tcb]
    exact linked.block_conv ti ci used held
  free ci free := by
    rw [(same.convs ci).tcb]
    exact linked.free ci ((same.convs ci).free.mp free)
  small ci taken := linked.small ci fun free => taken ((same.convs ci).free.mpr free)
  tcp ci other := by
    rw [(same.convs ci).proto] at other
    rw [(same.convs ci).tcb]
    exact linked.tcp ci other
  earlier ci taken := by
    rw [(same.convs ci).born, same.births]
    exact linked.earlier ci fun free => taken ((same.convs ci).free.mpr free)
  inside ti := by
    rw [same.blocks]
    exact linked.inside ti
  births ci cj taken taken' equal := by
    rw [(same.convs ci).born, (same.convs cj).born] at equal
    exact linked.births ci cj (fun free => taken ((same.convs ci).free.mpr free))
      (fun free => taken' ((same.convs cj).free.mpr free)) equal
  quiet li := by
    rw [same.blocks]
    exact linked.quiet li
  idle ti := by
    rw [same.blocks]
    exact linked.idle ti
  nodup ti := by
    rw [same.blocks]
    exact linked.nodup ti
  made li ci e used held member taken := by
    rw [same.blocks] at used held member
    rw [same.waiting, (same.convs ci).born]
    exact linked.made li ci e used held member fun free => taken ((same.convs e).free.mpr free)

theorem SameLinks.attended (attended : Attended before) : Attended after := by
  intro e l waits
  obtain ⟨held, ci, li, hears⟩ := attended e l ((same.waiting e l).mp waits)
  refine ⟨by rwa [(same.convs e).tcb], ci, li, (same.hears ci li l).mpr hears⟩

end Same

theorem statusOf_ne_free (state : Tcp.ConvState) : statusOf state ≠ .free := by
  cases state <;> simp [statusOf]

def Heeds (f : Tcb → Tcb) : Prop :=
  ∀ t, t.used = true → t.state = .listen → t.rtxDue = 0 →
    (f t).used = true ∧ (f t).state = .listen ∧ (f t).rtxDue = 0

theorem onBlock_other {s : Tables} {ti : Nat} {f : Tcb → Tcb} {ci : Nat}
    (other : (s.blocks ti).conv ≠ some ci) : (onBlock s ti f).convs ci = s.convs ci := by
  unfold onBlock
  dsimp only
  split
  · rfl
  · rename_i served held
    refine Function.update_of_ne ?_ ..
    rintro rfl
    exact other held

theorem onBlock_own {s : Tables} {ti : Nat} {f : Tcb → Tcb} {ci : Nat}
    (held : (s.blocks ti).conv = some ci) :
    ∃ state, (state = .free → (s.convs ci).state = .free) ∧
      (onBlock s ti f).convs ci = { s.convs ci with
        state := state
        tcb := if !(f (viewed s ti)).used ∧ (s.convs ci).tcb = some ti then none
          else (s.convs ci).tcb } := by
  unfold onBlock
  simp only [held]
  refine ⟨_, ?_, Function.update_self ..⟩
  intro same
  split_ifs at same with quiet
  · exact same
  · exact absurd same (statusOf_ne_free _)

section Listeners
variable {hz now : Nat} {t : Tcb}

theorem output_unlistening (other : t.state ≠ .listen) : (Tcp.tcpOutput now t).state ≠ .listen := by
  refine Tcp.tcpOutput_invariant (fun after => after.state ≠ .listen) other
    (fun _ held _ _ => held) fun before held _ _ => ?_
  simp only [Tcp.sendFin, Tcp.armIfOff]
  split <;> simp_all

theorem takeAck_unlistening {seg : Segment} {acked : Tcb} (other : t.state ≠ .listen)
    (took : Tcp.takeAck hz now t seg = some acked) : acked.state ≠ .listen := by
  rcases Tcp.takeAck_cases took with ⟨-, -, rfl⟩ | ⟨-, -, rfl⟩ | ⟨-, -, rfl⟩
  · simp
  · exact (Tcp.tcpAcked_state t).trans_ne other
  · exact other

theorem data_unlistening {seg : Segment} (other : t.state ≠ .listen) :
    (Tcp.inputData hz now (Tcp.afterFin hz now t) seg).state ≠ .listen := by
  have acked : (Tcp.afterFin hz now t).state ≠ .listen := by
    unfold Tcp.afterFin
    split
    · split
      · simp
      · simp
      · exact other
    · exact other
  have took : (Tcp.taken hz now (Tcp.afterFin hz now t) seg).state ≠ .listen := by
    have filled : (Tcp.takePayload (Tcp.afterFin hz now t) seg).state ≠ .listen :=
      Tcp.takePayload_state.trans_ne acked
    unfold Tcp.taken
    split
    · unfold Tcp.takeFin
      split
      · simp
      · simp
      · split <;> simp
      · simp
      · exact filled
    · exact filled
  rcases Tcp.inputData_cases hz now (Tcp.afterFin hz now t) seg with
    ⟨same, -⟩ | ⟨-, sent, which, same⟩
  · rw [same]
    simp [Tcp.tcpDied, Tcp.tcbFree]
  · rw [same]
    refine output_unlistening ?_
    rcases which with rfl | rfl
    · exact took
    · exact took

theorem input_unlistening (seg : Segment) (other : t.state ≠ .listen) :
    (tcpInput hz now t seg).state ≠ .listen := by
  have died : ∀ t : Tcb, (Tcp.tcpDied t).state ≠ .listen := fun t => by
    simp [Tcp.tcpDied, Tcp.tcbFree]
  have late : (Tcp.inputSynchronized hz now t seg).state ≠ .listen := by
    have outcome : Tcp.Input hz now t seg _ := Tcp.inputSynchronized_cases t seg
    generalize Tcp.inputSynchronized hz now t seg = after at outcome
    cases outcome with
    | dropped => exact other
    | answered => exact other
    | reset sent => exact died sent
    | finished => rw [Tcp.tcbFinish_state]; simp
    | data _ _ took => exact data_unlistening (takeAck_unlistening other took)
  have early : (Tcp.inputSynSent hz now t seg).state ≠ .listen := by
    have outcome : Tcp.Opening hz now t seg _ := Tcp.inputSynSent_cases t seg
    generalize Tcp.inputSynSent hz now t seg = after at outcome
    cases outcome with
    | dropped => exact other
    | refused => exact died t
    | opened => exact output_unlistening (by simp [Tcp.tcpSend])
    | crossed => simp [Tcp.tcpSend]
  unfold tcpInput
  split
  · exact other
  · exact other
  · exact early
  · exact late

theorem timers_unlistening (other : t.state ≠ .listen) : (tcpTimers hz now t).state ≠ .listen := by
  rcases Tcp.tcpTimers_cases hz now t with ⟨-, same | same⟩ | ⟨closed, same | ⟨same, -⟩⟩ |
    ⟨-, -, outcome⟩
  · rw [same, Tcp.tcbFinish_state]
    simp
  · rwa [same]
  · rwa [same]
  · rw [same]
    simpa [Tcp.tcbFree] using other
  · generalize tcpTimers hz now t = after at outcome
    cases outcome with
    | waiting => exact other
    | gaveUp => simp [Tcp.tcpDied, Tcp.tcbFree]
    | retried _ _ same =>
      subst same
      dsimp only [Tcp.retransmit]
      split
      · exact other
      · exact other
      · exact output_unlistening other

theorem read_unlistening (max : Nat) (other : t.state ≠ .listen) :
    (tcpRead t max).2.2.state ≠ .listen := (Tcp.tcpRead_state max).trans_ne other

theorem write_unlistening (data : List Byte) (other : t.state ≠ .listen) :
    (tcpWrite now t data).2.state ≠ .listen := by
  unfold tcpWrite
  split_ifs
  · exact other
  · exact other
  · exact other
  · exact output_unlistening other

theorem shutdown_unlistening (other : t.state ≠ .listen) : (tcpShutdown now t).state ≠ .listen := by
  unfold tcpShutdown
  split
  · exact output_unlistening other
  · exact other

theorem shutdown_heeds : Heeds (tcpShutdown now) := by
  intro t used listens quiet
  rw [tcpShutdown, if_pos used,
    tcpOutput_sleeping (t := { t with wantFin := true }) (.inr listens)]
  exact ⟨used, listens, quiet⟩

theorem read_heeds (max : Nat) : Heeds fun t => (tcpRead t max).2.2 := by
  intro t used listens quiet
  simp only [tcpRead]
  split_ifs <;> simp_all [Tcp.tcpSend]

theorem write_heeds (data : List Byte) : Heeds fun t => (tcpWrite now t data).2 := by
  intro t used listens quiet
  have same : (tcpWrite now t data).2 = t := by
    simp only [tcpWrite, listens, Tcp.TcbState.writes, Bool.not_false]
    split_ifs <;> rfl
  simp only [same]
  exact ⟨used, listens, quiet⟩

theorem timers_heeds : Heeds (tcpTimers hz now) := by
  intro t used listens quiet
  have same : tcpTimers hz now t = t := by
    simp only [tcpTimers, listens, quiet, true_or, if_true]
  rw [same]
  exact ⟨used, listens, quiet⟩

end Listeners

/-- How one block in use goes on: a listener stays one, and no other becomes one. -/
structure Goes (s : Tables) (ti : Nat) (f : Tcb → Tcb) : Prop where
  used : (s.blocks ti).tcb.used = true
  heeds : (s.blocks ti).tcb.state = .listen → (s.blocks ti).tcb.rtxDue = 0 →
    (f (viewed s ti)).used = true ∧ (f (viewed s ti)).state = .listen ∧
      (f (viewed s ti)).rtxDue = 0
  others : (s.blocks ti).tcb.state ≠ .listen → (f (viewed s ti)).state ≠ .listen

section Stirred
variable {s : Tables} {ti : Nat} {f : Tcb → Tcb}

theorem onBlock_at : (onBlock s ti f).blocks ti = { s.blocks ti with tcb := f (viewed s ti) } := by
  rw [onBlock_blocks, Function.update_self]

theorem onBlock_away {tj : Nat} (other : tj ≠ ti) : (onBlock s ti f).blocks tj = s.blocks tj := by
  rw [onBlock_blocks, Function.update_of_ne other]

theorem onBlock_births : (onBlock s ti f).births = s.births := by
  unfold onBlock
  dsimp only
  split <;> rfl

/-- The conversation's fields that a step of its block never changes. -/
theorem onBlock_fixed (ci : Nat) :
    ((onBlock s ti f).convs ci).born = (s.convs ci).born ∧
      ((onBlock s ti f).convs ci).origin = (s.convs ci).origin ∧
      ((onBlock s ti f).convs ci).handed = (s.convs ci).handed ∧
      ((onBlock s ti f).convs ci).proto = (s.convs ci).proto ∧
      (((onBlock s ti f).convs ci).state = .free → (s.convs ci).state = .free) := by
  by_cases held : (s.blocks ti).conv = some ci
  · obtain ⟨state, free, same⟩ := onBlock_own (f := f) held
    rw [same]
    exact ⟨rfl, rfl, rfl, rfl, free⟩
  · rw [onBlock_other held]
    exact ⟨rfl, rfl, rfl, rfl, id⟩

section
variable (linked : Linked s) (used : (s.blocks ti).tcb.used = true)
include linked used

theorem onBlock_tcb {ci : Nat}
    (held : (s.blocks ti).conv = some ci) : ((onBlock s ti f).convs ci).tcb =
      if (f (viewed s ti)).used then some ti else none := by
  obtain ⟨state, -, same⟩ := onBlock_own (f := f) held
  rw [same]
  simp only [linked.block_conv ti ci used held]
  cases (f (viewed s ti)).used <;> simp

theorem Linked.taken {ci : Nat}
    (held : (s.blocks ti).conv = some ci) : (s.convs ci).state ≠ .free := by
  intro free
  have none_ := linked.free ci free
  rw [linked.block_conv ti ci used held] at none_
  cases none_

theorem onBlock_free (ci : Nat) :
    ((onBlock s ti f).convs ci).state = .free ↔ (s.convs ci).state = .free := by
  refine ⟨(onBlock_fixed ci).2.2.2.2, fun free => ?_⟩
  have other : (s.blocks ti).conv ≠ some ci := fun held => linked.taken used held free
  rw [onBlock_other other]
  exact free

theorem onBlock_waiting (e l : Nat) : Waiting (onBlock s ti f) e l ↔ Waiting s e l := by
  simp only [Waiting, ne_eq, onBlock_free linked used, (onBlock_fixed e).2.1,
    (onBlock_fixed e).2.2.1]

end
theorem onBlock_linked (linked : Linked s) (goes : Goes s ti f) : Linked (onBlock s ti f) where
  conv_block ci tj held := by
    by_cases own : (s.blocks ti).conv = some ci
    · rw [onBlock_tcb linked goes.used own] at held
      split_ifs at held with alive
      cases held
      rw [onBlock_at]
      exact ⟨alive, own⟩
    · rw [onBlock_other own] at held
      obtain ⟨used, served⟩ := linked.conv_block ci tj held
      have other : tj ≠ ti := by
        rintro rfl
        exact own served
      rw [onBlock_away other]
      exact ⟨used, served⟩
  block_conv tj ci used held := by
    by_cases here : tj = ti
    · subst here
      rw [onBlock_at] at used held
      rw [onBlock_tcb linked goes.used held, if_pos used]
    · rw [onBlock_away here] at used held
      have other : (s.blocks ti).conv ≠ some ci := by
        intro own
        have first := linked.block_conv ti ci goes.used own
        rw [linked.block_conv tj ci used held] at first
        exact here (Option.some.inj first)
      rw [onBlock_other other]
      exact linked.block_conv tj ci used held
  free ci free := by
    rw [onBlock_free linked goes.used] at free
    have other : (s.blocks ti).conv ≠ some ci := fun held => linked.taken goes.used held free
    rw [onBlock_other other]
    exact linked.free ci free
  small ci taken :=
    linked.small ci fun free => taken ((onBlock_free linked goes.used ci).mpr free)
  tcp ci other := by
    rw [(onBlock_fixed ci).2.2.2.1] at other
    have unserved : (s.blocks ti).conv ≠ some ci := by
      intro held
      have none_ := linked.tcp ci other
      rw [linked.block_conv ti ci goes.used held] at none_
      cases none_
    rw [onBlock_other unserved]
    exact linked.tcp ci other
  earlier ci taken := by
    rw [(onBlock_fixed ci).1, onBlock_births]
    exact linked.earlier ci fun free => taken ((onBlock_free linked goes.used ci).mpr free)
  inside tj used := by
    by_cases here : tj = ti
    · subst here
      exact linked.inside tj goes.used
    · rw [onBlock_away here] at used
      exact linked.inside tj used
  births ci cj taken taken' same := by
    rw [(onBlock_fixed ci).1, (onBlock_fixed cj).1] at same
    exact linked.births ci cj
      (fun free => taken ((onBlock_free linked goes.used ci).mpr free))
      (fun free => taken' ((onBlock_free linked goes.used cj).mpr free)) same
  quiet li used listens := by
    by_cases here : li = ti
    · subst here
      rw [onBlock_at] at used listens ⊢
      by_cases before : (s.blocks li).tcb.state = .listen
      · exact (goes.heeds before (linked.quiet li goes.used before)).2.2
      · exact absurd listens (goes.others before)
    · rw [onBlock_away here] at used listens ⊢
      exact linked.quiet li used listens
  idle tj used other := by
    by_cases here : tj = ti
    · subst here
      rw [onBlock_at] at used other ⊢
      refine linked.idle tj goes.used fun before => other ?_
      exact (goes.heeds before (linked.quiet tj goes.used before)).2.1
    · rw [onBlock_away here] at used other ⊢
      exact linked.idle tj used other
  nodup tj used := by
    by_cases here : tj = ti
    · subst here
      rw [onBlock_at]
      exact linked.nodup tj goes.used
    · rw [onBlock_away here] at used ⊢
      exact linked.nodup tj used
  made li ci e used held member taken := by
    rw [onBlock_waiting linked goes.used, (onBlock_fixed ci).1]
    have taken' : (s.convs e).state ≠ .free := fun free =>
      taken ((onBlock_free linked goes.used e).mpr free)
    by_cases here : li = ti
    · subst here
      rw [onBlock_at] at held member
      exact linked.made li ci e goes.used held member taken'
    · rw [onBlock_away here] at used held member
      exact linked.made li ci e used held member taken'

theorem onBlock_attended (linked : Linked s) (attended : Attended s) (goes : Goes s ti f)
    (lives : Outlives s ti (f (viewed s ti))) : Attended (onBlock s ti f) := by
  intro e l waits
  rw [onBlock_waiting linked goes.used] at waits
  obtain ⟨held, ci, li, born, taken, tcb, listens⟩ := attended e l waits
  constructor
  · by_cases own : (s.blocks ti).conv = some e
    · rw [onBlock_tcb linked goes.used own, if_pos (lives ⟨e, own, l, waits.2.1, waits⟩)]
      rfl
    · rwa [onBlock_other own]
  · refine ⟨ci, li, (onBlock_fixed ci).1.trans born,
      fun free => taken ((onBlock_free linked goes.used ci).mp free), ?_⟩
    obtain ⟨used, served⟩ := linked.conv_block ci li tcb
    by_cases here : li = ti
    · subst here
      obtain ⟨alive, still, -⟩ := goes.heeds listens (linked.quiet li used listens)
      rw [onBlock_tcb linked used served, if_pos alive, onBlock_at]
      exact ⟨rfl, still⟩
    · have other : (s.blocks ti).conv ≠ some ci := by
        intro own
        rw [linked.block_conv ti ci goes.used own] at tcb
        exact here (Option.some.inj tcb).symm
      rw [onBlock_other other, onBlock_away here]
      exact ⟨tcb, listens⟩

end Stirred

end Racccoon.Net
