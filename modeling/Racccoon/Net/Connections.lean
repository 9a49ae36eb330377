import Mathlib.Data.Fintype.Pigeonhole
import Racccoon.Net.Tables
import Racccoon.Tcp.Close

/-!
The control blocks of ipd as connections. A port is looked for among the conversations only,
and a control block outlives its conversation: two live blocks may come to have the same
ends. Where no connect asks for the ends of a live block, every segment finds the block of
its connection. A connect without a port of its own gets the first one, from the counter on,
that no conversation has; there always is one, since there are more ports than conversations.
-/

namespace Racccoon.Net
open Function (update update_self update_of_ne)

open Run
open Racccoon.Tcp (Tcb Seq Segment Byte TcbState tcpAbort tcpConnect tcpListen tcpShutdown
  inputListen tcpInput tcpTimers tcpRead tcpWrite)

def Block.clashes (block : Block) (laddr lport raddr rport : Nat) : Bool :=
  block.lport = lport && block.raddr = raddr && block.rport = rport &&
    (block.laddr = laddr || block.laddr = 0 || laddr = 0)

variable (s : Tables)

def Clear (laddr lport raddr rport : Nat) : Prop :=
  ∀ ti, ti < tcbMax → (s.blocks ti).live = true →
    (s.blocks ti).clashes laddr lport raddr rport = false

def Unique : Prop :=
  ∀ ti tj, ti < tcbMax → tj < tcbMax → ti ≠ tj → (s.blocks ti).live = true →
    (s.blocks tj).live = true →
      (s.blocks ti).clashes (s.blocks tj).laddr (s.blocks tj).lport (s.blocks tj).raddr
        (s.blocks tj).rport = false

instance (laddr lport raddr rport : Nat) : Decidable (Clear s laddr lport raddr rport) :=
  inferInstanceAs (Decidable (∀ ti, ti < tcbMax → _))

def Taken (port : Nat) : Prop :=
  ∃ ci, ci < convMax ∧ (s.convs ci).state ≠ .free ∧ (s.convs ci).proto = .tcp ∧
    (s.convs ci).lport = port

instance (port : Nat) : Decidable (Taken s port) :=
  inferInstanceAs (Decidable (∃ ci, ci < convMax ∧ _))

/-- The port behind this one, among the 16384 last ones. -/
def following (port : Nat) : Nat := if port ≥ 65535 then 49152 else port + 1

/-- The first port from `next` on that no TCP conversation has. -/
inductive FirstFree (s : Tables) : Nat → Nat → Prop where
  | here {port : Nat} (free : ¬ Taken s port) : FirstFree s port port
  | later {next port : Nat} (taken : Taken s next) (rest : FirstFree s (following next) port) :
      FirstFree s next port

/-- The segment is a SYN for a listener, and there is room for what it opens. -/
def opensFor (route : Route) (seg : Segment) : Prop :=
  ∃ li, tcbLookup s route = some li ∧ (s.blocks li).tcb.state = .listen ∧
    ¬ (seg.flags.rst ∨ seg.flags.ack ∨ !seg.flags.syn ∨ (s.blocks li).aq.length ≥ acceptQ) ∧
    (s.blocks li).conv ≠ none ∧ freeConv s ≠ none ∧ freeBlock s ≠ none

/-- The ends that a step gives to a new block without a look at the others: those of a
connect, and those of a segment that was addressed to no address at all. -/
def Asks (action : Action) (laddr lport raddr rport : Nat) : Prop :=
  match action.event with
  | .request caller (.ctl .tcp ci (.connect ip port source _)) =>
    mayUse s action.procs caller .tcp ci = true ∧ validPort port = true ∧
      (s.convs ci).tcb = none ∧ freeBlock s ≠ none ∧
      (if (s.convs ci).lport = 0 then FirstFree s s.nextPort lport
        else lport = (s.convs ci).lport) ∧
      laddr = source ∧ raddr = ip ∧ rport = port
  | .segment route seg _ =>
    route.dst = 0 ∧ opensFor s route seg ∧
      laddr = 0 ∧ lport = route.dport ∧ raddr = route.src ∧ rport = route.sport
  | _ => False

def FreshEnds (action : Action) : Prop :=
  ∀ laddr lport raddr rport, Asks s action laddr lport raddr rport →
    Clear s laddr lport raddr rport

section Ports
variable {s : Tables} {next : Nat}

def InRange (port : Nat) : Prop := 49152 ≤ port ∧ port ≤ 65535

theorem following_range (range : InRange next) : InRange (following next) := by
  unfold InRange following at *
  split <;> omega

theorem following_wraps (n : Nat) : following (49152 + n % 16384) = 49152 + (n + 1) % 16384 := by
  rw [following]
  split <;> omega

theorem following_iterate (range : InRange next) (k : Nat) :
    following^[k] next = 49152 + (next - 49152 + k) % 16384 := by
  obtain ⟨low, high⟩ := range
  induction k with
  | zero =>
    rw [Function.iterate_zero, id_eq]
    omega
  | succ k ih => rw [Function.iterate_succ_apply', ih, following_wraps, Nat.add_assoc]

/-- There are more ports than conversations. -/
theorem exists_free (range : InRange next) : ∃ k, k ≤ convMax ∧ ¬ Taken s (following^[k] next) := by
  by_contra none
  have taken (k : Fin (convMax + 1)) : Taken s (following^[k] next) := by
    by_contra free
    exact none ⟨k, Nat.lt_succ_iff.mp k.isLt, free⟩
  choose holder inside _ _ holds using taken
  obtain ⟨k, other, differ, same⟩ := Fintype.exists_ne_map_eq_of_card_lt
    (fun k => (⟨holder k, inside k⟩ : Fin convMax)) (by simp)
  have ports : following^[k] next = following^[other] next := by
    rw [← holds k, ← holds other, Fin.mk.inj same]
  rw [following_iterate range, following_iterate range] at ports
  have small : k.val < 33 := k.isLt
  have small' : other.val < 33 := other.isLt
  exact differ (Fin.ext (by omega))

theorem portInUse_iff {port : Nat} : portInUse s .tcp port = true ↔ Taken s port := by
  simp [portInUse, Taken, List.any_eq_true, and_assoc]

theorem ephemeralFrom_first {tries k : Nat} (free : ¬ Taken s (following^[k] next))
    (enough : k < tries) : FirstFree s next (ephemeralFrom s .tcp tries next).1 := by
  induction tries generalizing next k with
  | zero => omega
  | succ tries ih =>
    rw [ephemeralFrom]
    split
    · next used =>
        have taken := portInUse_iff.mp used
        cases k with
        | zero => exact absurd taken free
        | succ k => exact .later taken (ih free (by omega))
    · next unused => exact .here (mt portInUse_iff.mpr unused)

theorem ephemeralFrom_range (proto : Proto) (tries : Nat) (range : InRange next) :
    InRange (ephemeralFrom s proto tries next).2 := by
  induction tries generalizing next with
  | zero => exact range
  | succ tries ih =>
    rw [ephemeralFrom]
    split
    · exact ih (following_range range)
    · exact following_range range

theorem ephemeralPort_first (range : InRange s.nextPort) :
    FirstFree s s.nextPort (ephemeralPort s .tcp).1 := by
  obtain ⟨k, few, free⟩ := exists_free range
  exact ephemeralFrom_first free (by rw [ephemeralTries, convMax] at *; omega)

end Ports

def Sleeping (t : Tcb) : Prop := t.used = false ∨ t.state = .closed ∨ t.state = .listen

variable {block : Block}

theorem live_false_iff : block.live = false ↔ Sleeping block.tcb := by
  simp only [Block.live, Sleeping, Bool.and_eq_false_iff, decide_eq_false_iff_not]
  tauto

section Sleep
variable {hz now : Nat} {t : Tcb}

theorem tcpOutput_sleeping (sleeps : t.state = .closed ∨ t.state = .listen) :
    Tcp.tcpOutput now t = t := by
  unfold Tcp.tcpOutput
  rcases sleeps with same | same <;> simp [same, TcbState.sends]

theorem tcpOutput_used : (Tcp.tcpOutput now t).used = t.used :=
  congrArg Tcp.Receiver.used (Tcp.tcpOutput_receiver t)

theorem shutdown_sleeping (sleeps : Sleeping t) : Sleeping (tcpShutdown now t) := by
  unfold tcpShutdown
  split
  · rename_i used
    rcases sleeps with unused | sleeps
    · simp [used] at unused
    · exact .inr (by rwa [tcpOutput_sleeping (t := { t with wantFin := true }) sleeps])
  · exact sleeps

theorem read_sleeping (sleeps : Sleeping t) (max : Nat) : Sleeping (tcpRead t max).2.2 := by
  rcases sleeps with unused | sleeps
  · exact .inl (by simp [tcpRead, unused])
  · exact .inr (by rwa [Tcp.tcpRead_state])

theorem write_sleeping (sleeps : Sleeping t) (data : List Byte) :
    Sleeping (tcpWrite now t data).2 := by
  rcases sleeps with unused | sleeps
  · exact .inl (by simp [tcpWrite, unused])
  · have silent : t.state.writes = false := by
      rcases sleeps with same | same <;> simp [same, TcbState.writes]
    have same : (tcpWrite now t data).2 = t := by
      simp only [tcpWrite, silent, Bool.not_false]
      split_ifs <;> rfl
    exact .inr (by rwa [same])

theorem abort_sleeping (sleeps : Sleeping t) : Sleeping (tcpAbort now t) := by
  rcases sleeps with unused | closed | listens
  · refine .inl ?_
    unfold tcpAbort
    split
    · rfl
    · rfl
    · rw [tcpOutput_used, unused]
    · rw [tcpOutput_used, unused]
    · rw [tcpOutput_used, unused]
    · exact unused
  · exact .inr (.inl (by simp [tcpAbort, closed]))
  · exact .inl (by simp [tcpAbort, listens, Tcp.tcbFree])

theorem timers_sleeping (sleeps : t.state = .closed ∨ t.state = .listen) :
    Sleeping (tcpTimers hz now t) := by
  rcases sleeps with closed | listens
  · simp only [tcpTimers, closed]
    split_ifs
    · exact .inl rfl
    · exact .inr (.inl closed)
  · simp only [tcpTimers, listens]
    split_ifs
    · exact .inr (.inr listens)
    · exact .inl rfl
    · exact .inl rfl
    · exact .inr (.inr (by simp [Tcp.retransmit, Tcp.goBack, Tcp.tcpOutput, TcbState.sends]))

end Sleep

def Block.ends (block : Block) : Nat × Nat × Nat × Nat :=
  (block.laddr, block.lport, block.raddr, block.rport)

structure Kept (before after : Tables) : Prop where
  blocks : ∀ ti, (after.blocks ti).live = true →
    (before.blocks ti).live = true ∧ (after.blocks ti).ends = (before.blocks ti).ends
  ports : InRange before.nextPort → InRange after.nextPort

theorem Kept.refl (s : Tables) : Kept s s := ⟨fun _ live => ⟨live, rfl⟩, id⟩

theorem Kept.trans {first middle last : Tables} (early : Kept first middle)
    (late : Kept middle last) : Kept first last := by
  refine ⟨fun ti live => ?_, late.ports ∘ early.ports⟩
  obtain ⟨between, same⟩ := late.blocks ti live
  obtain ⟨start, equal⟩ := early.blocks ti between
  exact ⟨start, same.trans equal⟩

variable {after before s : Tables}

theorem Kept.of_blocks (same : after.blocks = before.blocks)
    (ports : after.nextPort = before.nextPort) : Kept before after :=
  ⟨fun ti live => by rw [same] at live ⊢; exact ⟨live, rfl⟩, fun range => by rwa [ports]⟩

variable {ti ci : Nat}

theorem Kept.of_block (same : after.blocks = update s.blocks ti block)
    (ports : after.nextPort = s.nextPort) (ends : block.ends = (s.blocks ti).ends)
    (sleeps : (s.blocks ti).live = false → block.live = false) : Kept s after := by
  refine ⟨fun tj live => ?_, fun range => by rwa [ports]⟩
  rw [same] at live ⊢
  by_cases here : tj = ti
  · subst here
    rw [update_self] at live ⊢
    refine ⟨?_, ends⟩
    by_contra asleep
    simp [sleeps (by simpa using asleep)] at live
  · rw [update_of_ne here] at live ⊢
    exact ⟨live, rfl⟩

theorem onBlock_blocks (s : Tables) (ti : Nat) (f : Tcb → Tcb) :
    (onBlock s ti f).blocks =
      update s.blocks ti { s.blocks ti with tcb := f (viewed s ti) } := by
  unfold onBlock
  dsimp only
  split <;> rfl

theorem onBlock_ports (s : Tables) (ti : Nat) (f : Tcb → Tcb) :
    (onBlock s ti f).nextPort = s.nextPort := by
  unfold onBlock
  dsimp only
  split <;> rfl

theorem onBlock_kept {f : Tcb → Tcb}
    (sleeps : Sleeping (s.blocks ti).tcb → Sleeping (f (viewed s ti))) : Kept s (onBlock s ti f) :=
  .of_block (onBlock_blocks s ti f) (onBlock_ports s ti f) rfl fun asleep =>
    live_false_iff.mpr (sleeps (live_false_iff.mp asleep))

theorem onTcb_kept {f : Tcb → Tcb} (sleeps : ∀ t, Sleeping t → Sleeping (f t)) :
    Kept s (onTcb s ci f) := by
  unfold onTcb
  split
  · exact onBlock_kept fun asleep => sleeps _ asleep
  · exact .refl s

theorem convFree_kept (s : Tables) (now ci : Nat) : Kept s (convFree s now ci) := by
  unfold convFree
  dsimp only
  split
  · exact .of_block rfl rfl rfl fun asleep =>
      live_false_iff.mpr (abort_sleeping (live_false_iff.mp asleep))
  · exact .of_blocks rfl rfl

theorem foldl_kept {f : Tables → Nat → Tables} (each : ∀ s ti, Kept s (f s ti))
    (tis : List Nat) (s : Tables) : Kept s (tis.foldl f s) := by
  induction tis generalizing s with
  | nil => exact .refl s
  | cons ti _ ih => exact (each s ti).trans (ih (f s ti))

theorem timers_kept (hz : Nat) (s : Tables) (now : Nat) : Kept s (timers hz s now) := by
  refine foldl_kept (fun s ti => ?_) _ s
  unfold timerAt
  split
  · rename_i used
    refine onBlock_kept fun asleep => ?_
    rcases asleep with unused | sleeps
    · simp [used] at unused
    · exact timers_sleeping sleeps
  · exact .refl s

theorem reap_kept (s : Tables) (now : Nat) (procs : Procs) :
    Kept s (reapDeadOwners s now procs) := by
  refine foldl_kept (fun s ci => ?_) _ s
  unfold reapAt
  split
  · exact convFree_kept s now ci
  · exact .refl s

theorem convAlloc_blocks {grown : Tables} {procs : Procs} {proto : Proto} {pid : Nat}
    (made : convAlloc s procs proto pid = some (ci, grown)) :
    grown.blocks = s.blocks ∧ grown.nextPort = s.nextPort := by
  obtain ⟨found, -, same⟩ := Option.map_eq_some_iff.mp made
  cases same
  exact ⟨rfl, rfl⟩

theorem setQueue_kept (s : Tables) (li : Nat) (queue : List Nat) :
    Kept s (setQueue s li queue) := .of_block rfl rfl rfl fun asleep => asleep

theorem handOver_kept (s : Tables) (procs : Procs) (nc pid : Nat) :
    Kept s (handOver s procs nc pid) := by
  unfold handOver
  dsimp only
  split
  · exact .of_block rfl rfl rfl fun asleep => asleep
  · exact .of_blocks rfl rfl

theorem accept_kept (s : Tables) (procs : Procs) (ci pid : Nat) :
    Kept s (tcpAccept s procs ci pid).2 := by
  unfold tcpAccept
  split
  · exact .refl s
  · dsimp only
    split
    · exact setQueue_kept s _ _
    · exact (setQueue_kept s _ _).trans (handOver_kept _ procs _ pid)

/-- One block is another one now, with these ends. -/
def Opened (before after : Tables) (laddr lport raddr rport : Nat) : Prop :=
  (∃ ti block, after.blocks = Function.update before.blocks ti block ∧
    block.ends = (laddr, lport, raddr, rport)) ∧ after.nextPort = before.nextPort

theorem Unique.kept (unique : Unique before) (kept : Kept before after) : Unique after := by
  intro ti tj small small' other live live'
  obtain ⟨old, same⟩ := kept.blocks ti live
  obtain ⟨old', same'⟩ := kept.blocks tj live'
  have apart := unique ti tj small small' other old old'
  simp only [Block.ends, Prod.mk.injEq] at same same'
  simpa only [Block.clashes, same, same'] using apart

theorem clashes_comm {other : Block} :
    block.clashes other.laddr other.lport other.raddr other.rport =
      other.clashes block.laddr block.lport block.raddr block.rport := by
  simp only [Block.clashes, eq_comm (a := block.lport), eq_comm (a := block.raddr),
    eq_comm (a := block.rport), eq_comm (a := block.laddr) (b := other.laddr)]
  ac_rfl

theorem Unique.opened {laddr lport raddr rport : Nat} (unique : Unique before)
    (opened : Opened before after laddr lport raddr rport)
    (clear : Clear before laddr lport raddr rport) : Unique after := by
  obtain ⟨⟨ti, block, same, ends⟩, _⟩ := opened
  simp only [Block.ends, Prod.mk.injEq] at ends
  intro tj tk small small' other live live'
  rw [same] at live live' ⊢
  by_cases here : tj = ti
  · subst here
    rw [update_of_ne (Ne.symm other)] at live' ⊢
    rw [update_self, clashes_comm, ends.1, ends.2.1, ends.2.2.1, ends.2.2.2]
    exact clear tk small' live'
  · rw [update_of_ne here] at live ⊢
    by_cases there : tk = ti
    · subst there
      rw [update_self, ends.1, ends.2.1, ends.2.2.1, ends.2.2.2]
      exact clear tj small live
    · rw [update_of_ne there] at live' ⊢
      exact unique tj tk small small' other live live'

/-- What a step does to the live blocks: at most one is new, and none changes its ends. -/
inductive Moves (before after : Tables) : Prop where
  | kept (kept : Kept before after)
  | opened {first second : Tables} (laddr lport raddr rport : Nat)
      (clear : Clear before laddr lport raddr rport) (early : Kept before first)
      (opened : Opened first second laddr lport raddr rport) (late : Kept second after)

theorem Clear.kept {laddr lport raddr rport : Nat} (clear : Clear before laddr lport raddr rport)
    (kept : Kept before after) : Clear after laddr lport raddr rport := by
  intro ti small live
  obtain ⟨old, same⟩ := kept.blocks ti live
  simp only [Block.ends, Prod.mk.injEq] at same
  simpa only [Block.clashes, same] using clear ti small old

theorem Moves.unique (moves : Moves before after) (unique : Unique before) : Unique after := by
  cases moves with
  | kept kept => exact unique.kept kept
  | opened _ _ _ _ clear early opened late =>
    exact ((unique.kept early).opened opened (clear.kept early)).kept late

theorem Moves.ports (moves : Moves before after) (range : InRange before.nextPort) :
    InRange after.nextPort := by
  cases moves with
  | kept kept => exact kept.ports range
  | opened _ _ _ _ _ early opened late =>
    exact late.ports (by rw [opened.2]; exact early.ports range)

theorem Moves.after_kept (early : Kept before s) (back : s.blocks = before.blocks)
    (moves : Moves s after) : Moves before after := by
  cases moves with
  | kept kept => exact .kept (early.trans kept)
  | opened laddr lport raddr rport clear first opened late =>
    refine .opened laddr lport raddr rport (fun ti small live => ?_) (early.trans first) opened late
    rw [← back] at live ⊢
    exact clear ti small live

variable {route : Route}

theorem takes_clashes (takes : block.takes route = true) :
    block.live = true ∧
      block.clashes route.dst route.dport route.src route.sport = true := by
  simp only [Block.takes, Block.clashes, Bool.and_eq_true, Bool.or_eq_true] at *
  obtain ⟨⟨⟨⟨live, lport⟩, rport⟩, raddr⟩, laddr⟩ := takes
  exact ⟨live, ⟨⟨lport, raddr⟩, rport⟩, .inl laddr⟩

theorem takes_of_clashes (live : block.live = true) (addressed : route.dst ≠ 0)
    (clashes : block.clashes route.dst route.dport route.src route.sport = true) :
    block.takes route = true := by
  simp only [Block.takes, Block.clashes, Bool.and_eq_true, Bool.or_eq_true,
    decide_eq_true_eq] at *
  obtain ⟨⟨⟨lport, raddr⟩, rport⟩, laddr⟩ := clashes
  refine ⟨⟨⟨⟨live, lport⟩, rport⟩, raddr⟩, laddr.resolve_right addressed⟩

theorem lookup_listener {li : Nat} (found : tcbLookup s route = some li)
    (listens : (s.blocks li).tcb.state = .listen) :
    ∀ ti, ti < tcbMax → (s.blocks ti).takes route = false := by
  intro ti small
  by_contra takes
  rw [Bool.not_eq_false] at takes
  have some_ : ((List.range tcbMax).find? fun ti => (s.blocks ti).takes route).isSome := by
    rw [List.find?_isSome]
    exact ⟨ti, List.mem_range.mpr small, takes⟩
  obtain ⟨tj, first⟩ := Option.isSome_iff_exists.mp some_
  rw [tcbLookup, first, Option.some_or, Option.some.injEq] at found
  have taken := List.find?_some first
  rw [found] at taken
  have live := (takes_clashes taken).1
  simp [Block.live, listens] at live

theorem lookup_live (found : tcbLookup s route = some ti)
    (other : (s.blocks ti).tcb.state ≠ .listen) : (s.blocks ti).live = true := by
  rw [tcbLookup, Option.or_eq_some_iff] at found
  rcases found with first | ⟨-, second⟩
  · have taken := List.find?_some first
    exact (takes_clashes taken).1
  · have listens := List.find?_some second
    simp [Block.listens, other] at listens

theorem synInput_moves {hz : Nat} {now : Nat} {procs : Procs} {li : Nat} {seg : Segment} {iss : Seq}
    (clear : ¬ (seg.flags.rst ∨ seg.flags.ack ∨ !seg.flags.syn ∨
        (s.blocks li).aq.length ≥ acceptQ) → (s.blocks li).conv ≠ none → freeConv s ≠ none →
      freeBlock s ≠ none → Clear s route.dst route.dport route.src route.sport) :
    Moves s (synInput hz s now procs li route seg iss) := by
  unfold synInput
  dsimp only
  split
  · exact .kept (.refl s)
  · next welcome =>
    split
    · exact .kept (.refl s)
    · next lconv serves =>
      split
      · exact .kept (.refl s)
      · rename_i ci grown made
        obtain ⟨blocks, ports⟩ := convAlloc_blocks made
        have conv : freeConv s ≠ none := by
          obtain ⟨found, room, -⟩ := Option.map_eq_some_iff.mp made
          simp [room]
        split
        · exact .kept (.of_blocks blocks ports)
        · rename_i ni free
          have block : freeBlock s ≠ none := by
            simpa [freeBlock, blocks] using Option.ne_none_iff_exists'.mpr ⟨ni, free⟩
          exact .opened _ _ _ _ (clear welcome (by simp [serves]) conv block)
            (.of_blocks blocks ports) ⟨⟨ni, _, rfl, rfl⟩, by rfl⟩ (setQueue_kept _ li _)

theorem segmentInput_moves {hz : Nat} {now : Nat} {procs : Procs} {seg : Segment} {iss : Seq}
    (fresh : route.dst = 0 → opensFor s route seg →
      Clear s 0 route.dport route.src route.sport) :
    Moves s (segmentInput hz s now procs route seg iss) := by
  unfold segmentInput
  split
  · exact .kept (.refl s)
  · rename_i ti found
    split
    · rename_i listens
      refine synInput_moves fun welcome serves conv block => ?_
      by_cases addressed : route.dst = 0
      · rw [addressed]
        exact fresh addressed ⟨ti, found, listens, welcome, serves, conv, block⟩
      · intro tj small live
        by_contra clashes
        rw [Bool.not_eq_false] at clashes
        have taken := takes_of_clashes live addressed clashes
        simp [lookup_listener found listens tj small] at taken
    · rename_i other
      refine .kept (onBlock_kept fun asleep => ?_)
      have live := lookup_live found other
      rw [live_false_iff.mpr asleep] at live
      cases live

section Requests
variable {hz now : Nat} {s : Tables} {procs : Procs}

theorem connectBlock_moves {iss : Seq} (clear : (s.convs ci).tcb = none → freeBlock s ≠ none →
      Clear s (s.convs ci).laddr (s.convs ci).lport (s.convs ci).raddr (s.convs ci).rport) :
    Moves s (connectBlock hz s now ci iss) := by
  unfold connectBlock
  dsimp only
  split
  · exact .kept (.refl s)
  · rename_i alone
    split
    · exact .kept (.refl s)
    · rename_i ti free
      exact .opened _ _ _ _ (clear (by simpa using alone) (by simp [free])) (.refl s)
        ⟨⟨ti, _, rfl, rfl⟩, by rfl⟩ (.refl _)

theorem listenBlock_kept (ci : Nat) : Kept s (listenBlock hz s ci) := by
  unfold listenBlock
  dsimp only
  split
  · exact .refl s
  · split
    · exact .refl s
    · rename_i ti free
      refine ⟨fun tj live => ?_, id⟩
      simp only [Tables.setConv, Tables.setBlock] at live ⊢
      by_cases here : tj = ti
      · subst here
        simp [Block.live, tcpListen] at live
      · rw [update_of_ne here] at live ⊢
        exact ⟨live, rfl⟩

theorem named_blocks {named_ : Tables} {port : Nat} (found : named s ci port = some named_) :
    named_.blocks = s.blocks ∧ named_.nextPort = s.nextPort := by
  unfold named at found
  dsimp only at found
  split_ifs at found
  cases found
  exact ⟨rfl, rfl⟩

theorem named_kept {named_ : Tables} {port : Nat} (found : named s ci port = some named_) :
    Kept s named_ :=
  .of_blocks (named_blocks found).1 (named_blocks found).2

theorem targeted_kept (s : Tables) (ci ip port source : Nat) :
    Kept s (targeted s ci ip port source) := by
  refine ⟨fun ti live => ⟨live, rfl⟩, fun range => ?_⟩
  unfold targeted
  dsimp only
  split
  · exact ephemeralFrom_range _ _ range
  · exact range

theorem convCtl_moves {caller : Nat} {command : Command} (range : InRange s.nextPort)
    (fresh : (s.convs ci).proto = .tcp → FreshEnds s
      ⟨now, procs, .request caller (.ctl .tcp ci command)⟩)
    (allowed : (s.convs ci).proto = .tcp → mayUse s procs caller .tcp ci = true) :
    Moves s (convCtl hz s now procs caller ci command) := by
  cases command with
  | connect ip port source iss =>
    rw [convCtl]
    dsimp only
    have early := targeted_kept s ci ip port source
    split_ifs with refused tcp
    · exact .kept (.refl s)
    · have kind : (s.convs ci).proto = .tcp := by simpa [targeted, Tables.setConv] using tcp
      have valid : validPort port = true := by simpa [kind] using refused
      refine Moves.after_kept early rfl (connectBlock_moves fun alone free => ?_)
      have dialled : ((targeted s ci ip port source).convs ci).laddr = source ∧
          ((targeted s ci ip port source).convs ci).raddr = ip ∧
          ((targeted s ci ip port source).convs ci).rport = port ∧
          ((targeted s ci ip port source).convs ci).lport =
            if (s.convs ci).lport = 0 then (ephemeralPort s .tcp).1 else (s.convs ci).lport := by
        simp only [targeted, Tables.setConv, update_self, kind]
        split <;> simp_all
      have alone : (s.convs ci).tcb = none := by simpa [targeted, Tables.setConv] using alone
      rw [dialled.1, dialled.2.1, dialled.2.2.1, dialled.2.2.2]
      have clear := fresh kind source
        (if (s.convs ci).lport = 0 then (ephemeralPort s .tcp).1 else (s.convs ci).lport) ip port
        ⟨allowed kind, valid, alone, free, ?_, rfl, rfl, rfl⟩
      · exact clear
      · split
        · exact ephemeralPort_first range
        · rfl
    · exact .kept (early.trans (.of_blocks rfl rfl))
  | bind port =>
    rw [convCtl]
    cases found : named s ci port with
    | none => exact .kept (.refl s)
    | some => exact .kept (named_kept found)
  | announce =>
    rw [convCtl]
    split
    · exact .kept (.refl s)
    · rename_i after found
      dsimp only
      have early : Kept s (after.setConv ci { after.convs ci with state := .announced }) :=
        (named_kept found).trans (.of_blocks rfl rfl)
      split_ifs
      · exact .kept (early.trans (listenBlock_kept ci))
      · exact .kept early
  | close =>
    rw [convCtl]
    split
    · exact .kept (onBlock_kept fun asleep => shutdown_sleeping asleep)
    · exact .kept (.refl s)
  | hangup => exact .kept (convFree_kept s now ci)
  | own => exact .kept (.of_blocks rfl rfl)

theorem serve_moves {caller : Nat} {request : Request} (range : InRange s.nextPort)
    (fresh : FreshEnds s ⟨now, procs, .request caller request⟩)
    (served : serve hz s now procs caller request = some after) : Moves s after := by
  cases request with
  | clone =>
    obtain ⟨⟨ci, grown⟩, made, rfl⟩ := Option.map_eq_some_iff.mp served
    obtain ⟨blocks, ports⟩ := convAlloc_blocks made
    exact .kept (.of_blocks blocks ports)
  | ctl proto ci command =>
    simp only [serve] at served
    split_ifs at served with allowed
    cases served
    have same (tcp : (s.convs ci).proto = .tcp) : proto = .tcp := by
      simp only [mayUse, Bool.and_eq_true, decide_eq_true_eq] at allowed
      rw [← allowed.1.2, tcp]
    exact convCtl_moves range (fun tcp => by rwa [same tcp] at fresh)
      fun tcp => by rwa [same tcp] at allowed
  | listen ci =>
    simp only [serve] at served
    split_ifs at served
    cases served
    exact .kept (accept_kept s procs ci caller)
  | read ci max =>
    simp only [serve] at served
    split_ifs at served
    cases served
    exact .kept (onTcb_kept fun t asleep => read_sleeping asleep max)
  | write ci data =>
    simp only [serve] at served
    split_ifs at served
    cases served
    exact .kept (onTcb_kept fun t asleep => write_sleeping asleep data)

theorem step_moves {action : Action} (range : InRange s.nextPort) (fresh : FreshEnds s action)
    (stepped : step hz s action = some after) : Moves s after := by
  obtain ⟨now, procs, event⟩ := action
  cases event with
  | request caller request => exact serve_moves range fresh stepped
  | parkedListen ci pid =>
    simp only [step] at stepped
    split_ifs at stepped
    cases stepped
    exact .kept (accept_kept s procs ci pid)
  | parkedRead ci max =>
    simp only [step] at stepped
    split_ifs at stepped
    cases stepped
    exact .kept (onTcb_kept fun t asleep => read_sleeping asleep max)
  | segment route seg iss =>
    obtain rfl := Option.some.inj stepped
    exact segmentInput_moves fun unaddressed opens =>
      fresh _ _ _ _ ⟨unaddressed, opens, rfl, rfl, rfl, rfl⟩
  | timers =>
    rw [← Option.some.inj stepped]
    exact .kept (timers_kept hz s now)
  | reap =>
    rw [← Option.some.inj stepped]
    exact .kept (reap_kept s now procs)

end Requests

abbrev Runs (hz : Nat) (admits : Tables → Action → Prop) (s : Tables) : Prop :=
  Reach (step hz) admits (booted hz) s

theorem booted_unique (hz : Nat) : Unique (booted hz) := by
  intro ti tj _ _ _ live
  simp [booted, Block.live] at live

theorem Unique.lookup (unique : Unique s) (small : ti < tcbMax)
    (takes : (s.blocks ti).takes route = true) : tcbLookup s route = some ti := by
  have some_ : ((List.range tcbMax).find? fun ti => (s.blocks ti).takes route).isSome := by
    rw [List.find?_isSome]
    exact ⟨ti, List.mem_range.mpr small, takes⟩
  obtain ⟨tj, first⟩ := Option.isSome_iff_exists.mp some_
  have taken := List.find?_some first
  have inside : tj < tcbMax := List.mem_range.mp (List.mem_of_find?_eq_some first)
  rw [tcbLookup, first, Option.some_or, Option.some.injEq]
  by_contra other
  have apart := unique tj ti inside small other (takes_clashes taken).1 (takes_clashes takes).1
  simp only [Block.takes, Bool.and_eq_true, Bool.or_eq_true, decide_eq_true_eq] at taken takes
  obtain ⟨⟨⟨⟨-, lport⟩, rport⟩, raddr⟩, laddr⟩ := taken
  obtain ⟨⟨⟨⟨-, lport'⟩, rport'⟩, raddr'⟩, laddr'⟩ := takes
  simp only [Block.clashes, lport, lport', rport, rport', raddr, raddr', decide_true,
    Bool.true_and, Bool.or_eq_false_iff, decide_eq_false_iff_not] at apart
  rcases laddr with laddr | laddr
  · rcases laddr' with laddr' | laddr'
    · exact apart.1.1 (laddr.trans laddr'.symm)
    · exact apart.2 laddr'
  · exact apart.1.2 laddr

/-- In a run whose connects ask for fresh ends there is at most one live block per
connection, and every segment gets to it. -/
theorem one_block_per_connection (hz : Nat) (s : Tables) (run : Runs hz FreshEnds s) :
    Unique s ∧ ∀ route ti, ti < tcbMax → (s.blocks ti).takes route = true →
      tcbLookup s route = some ti := by
  have held : Unique s ∧ InRange s.nextPort := by
    apply run.invariant (fun s => Unique s ∧ InRange s.nextPort)
      ⟨booted_unique hz, Nat.le_refl 49152, Nat.le_of_ble_eq_true rfl⟩
    intro before action after ⟨unique, range⟩ fresh stepped
    have moves := step_moves range fresh stepped
    exact ⟨moves.unique unique, moves.ports range⟩
  exact ⟨held.1, fun route ti small takes => held.1.lookup small takes⟩

/-- Process 5, of user 100. -/
def onlyFive : Procs := fun pid => if pid = 5 then some (1, 100) else none

def fromFive (request : Request) : Action := ⟨0, onlyFive, .request 5 request⟩

def dialOut (ci : Nat) : List Action :=
  [fromFive (.clone .tcp), fromFive (.ctl .tcp ci (.bind 5000)),
    fromFive (.ctl .tcp ci (.connect 0x0A000202 80 0x0A00020F 0))]

def synAck : Segment := ⟨100, 1, ⟨false, true, false, true⟩, 8192, 0, []⟩

/-- Two connections to one server, from two ports. -/
def twoDialled : List Action :=
  dialOut 0 ++
    [fromFive (.clone .tcp), fromFive (.ctl .tcp 1 (.connect 0x0A000202 80 0x0A00020F 0))]

def dialledTables (count : Nat) : Tables :=
  (twoDialled.take count).foldl (fun s action => (step 10 s action).getD s) (booted 10)

/-- A bound port is fresh as it is, one that is chosen is the first at the counter. -/
theorem two_dialled_apart :
    Unique (dialledTables 5) ∧ ((dialledTables 5).blocks 0).live = true ∧
      ((dialledTables 5).blocks 1).live = true ∧
      tcbLookup (dialledTables 5) ⟨0x0A000202, 0x0A00020F, 80, 49152⟩ = some 1 := by
  have one : Runs 10 FreshEnds (dialledTables 1) :=
    .next (fromFive (.clone .tcp)) .start (fun _ _ _ _ asks => asks.elim) rfl
  have two : Runs 10 FreshEnds (dialledTables 2) :=
    .next (fromFive (.ctl .tcp 0 (.bind 5000))) one (fun _ _ _ _ asks => asks.elim) rfl
  have three : Runs 10 FreshEnds (dialledTables 3) := by
    refine .next (fromFive (.ctl .tcp 0 (.connect 0x0A000202 80 0x0A00020F 0))) two ?_ rfl
    rintro _ _ _ _ ⟨-, -, -, -, rfl, rfl, rfl, rfl⟩
    decide
  have four : Runs 10 FreshEnds (dialledTables 4) :=
    .next (fromFive (.clone .tcp)) three (fun _ _ _ _ asks => asks.elim) rfl
  have five : Runs 10 FreshEnds (dialledTables 5) := by
    refine .next (fromFive (.ctl .tcp 1 (.connect 0x0A000202 80 0x0A00020F 0))) four ?_ rfl
    rintro _ _ _ _ ⟨-, -, -, -, first, rfl, rfl, rfl⟩
    have free : ¬ Taken (dialledTables 4) 49152 := by decide
    cases first with
    | here => decide
    | later taken => exact absurd taken free
  obtain ⟨unique, lookup⟩ := one_block_per_connection 10 (dialledTables 5) five
  exact ⟨unique, by decide, by decide, lookup _ 1 (by decide) (by decide)⟩

def rebound : List Action :=
  dialOut 0 ++
    [⟨0, onlyFive, .segment ⟨0x0A000202, 0x0A00020F, 80, 5000⟩ synAck 0⟩,
      fromFive (.ctl .tcp 0 .hangup)] ++ dialOut 0

def reboundTables : Tables := outcome (step 10) (fun _ _ => True) (booted 10) rebound

/-- Both blocks are live, with the same ends. -/
theorem rebound_port_clashes :
    Runs 10 (fun _ _ => True) reboundTables ∧ ¬ Unique reboundTables := by
  have run : Runs 10 (fun _ _ => True) reboundTables :=
    outcome_reach rebound (booted 10) (by decide)
  refine ⟨run, fun unique => ?_⟩
  have apart := unique 0 1 (by decide) (by decide) (by decide) (by decide)
    (by decide)
  exact absurd apart (by decide)

end Racccoon.Net
