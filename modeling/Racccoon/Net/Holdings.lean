import Racccoon.Net.Connections
import Racccoon.Net.Parking
import Racccoon.Tcp.Sizes

/-!
The control blocks and queues of ipd in every state it can come to. What lasts whatever is
done to a control block lasts in the table of them (`Lasting`). So control blocks fit
(`Racccoon.Tcp.Fits`), and no queued datagram is longer than its slot.
-/

namespace Racccoon.Net

open Racccoon.Tcp (Tcb Fits ConvState Segment Seq)

/-- What is done to a control block that is not read. -/
inductive Worked (hz now : Nat) (t : Tcb) : Tcb → Prop where
  | input (seg : Segment) : Worked hz now t (Tcp.tcpInput hz now t seg)
  | timers : Worked hz now t (Tcp.tcpTimers hz now t)
  | write (data : List Tcp.Byte) : Worked hz now t (Tcp.tcpWrite now t data).2
  | shutdown : Worked hz now t (Tcp.tcpShutdown now t)
  | abort : Worked hz now t (Tcp.tcpAbort now t)

/-- How a control block begins. -/
inductive Begun (hz now : Nat) : Tcb → Prop where
  | connect (rbuf : Nat → Tcp.Byte) (iss : Seq) : Begun hz now (Tcp.tcpConnect hz now rbuf iss)
  | listen (rbuf : Nat → Tcp.Byte) : Begun hz now (Tcp.tcpListen hz rbuf)
  | heard (rbuf : Nat → Tcp.Byte) (iss : Seq) (seg : Segment) :
      Begun hz now (Tcp.inputListen hz now rbuf iss seg)

/-- What lasts of the block with each number; the blocks in `free` may begin anew. -/
structure Lasting (hz now : Nat) (free : Nat → Prop) (holds : Nat → Block → Prop) : Prop where
  worked : ∀ ti block conv state (t : Tcb) owner, holds ti block →
    Worked hz now { block.tcb with conv := conv, convState := state } t →
    holds ti { block with tcb := t, conv := owner }
  queued : ∀ ti block queue, holds ti block → holds ti { block with aq := block.aq ++ queue }
  begun : ∀ ti block, free ti → Begun hz now block.tcb → holds ti block

def Tables.Hold (s : Tables) (holds : Nat → Block → Prop) : Prop := ∀ ti, holds ti (s.blocks ti)

section Lasting
variable {hz now : Nat} {s after : Tables} {procs : Procs} {free : Nat → Prop}
variable {holds : Nat → Block → Prop}

section
variable (held : s.Hold holds)
include held

theorem Tables.Hold.of_blocks (same : after.blocks = s.blocks) : after.Hold holds :=
  fun ti => same ▸ held ti

theorem Tables.Hold.of_block {ti : Nat} {block : Block}
    (same : after.blocks = Function.update s.blocks ti block) (here : holds ti block) :
    after.Hold holds := by
  intro tj
  rw [same]
  by_cases equal : tj = ti
  · subst equal
    rwa [Function.update_self]
  · rw [Function.update_of_ne equal]
    exact held tj

end

theorem foldl_hold {f : Tables → Nat → Tables}
    (each : ∀ s ti, s.Hold holds → (f s ti).Hold holds) (tis : List Nat) (held : s.Hold holds) :
    (tis.foldl f s).Hold holds := by
  induction tis generalizing s with
  | nil => exact held
  | cons ti _ ih => exact ih (each s ti held)

variable (lasting : Lasting hz now free holds)
include lasting

theorem onBlock_hold {ti : Nat} {f : Tcb → Tcb} (worked : ∀ t, Worked hz now t (f t))
    (held : s.Hold holds) : (onBlock s ti f).Hold holds :=
  held.of_block (onBlock_blocks s ti f)
    (lasting.worked ti _ _ _ _ (s.blocks ti).conv (held ti) (worked (viewed s ti)))

theorem convFree_hold (ci : Nat) (held : s.Hold holds) : (convFree s now ci).Hold holds := by
  unfold convFree
  dsimp only
  split
  · rename_i ti _ _
    exact held.of_block rfl (lasting.worked ti _ _ _ _ none (held ti) .abort)
  · exact held.of_blocks rfl

theorem timers_hold (held : s.Hold holds) : (timers hz s now).Hold holds := by
  refine foldl_hold (fun s ti held => ?_) _ held
  unfold timerAt
  split
  · exact onBlock_hold lasting (fun _ => .timers) held
  · exact held

theorem reap_hold (held : s.Hold holds) : (reapDeadOwners s now procs).Hold holds := by
  refine foldl_hold (fun s ci held => ?_) _ held
  unfold reapAt
  split
  · exact convFree_hold lasting ci held
  · exact held

variable (frees : ∀ ti, (s.blocks ti).tcb.used = false → free ti) (held : s.Hold holds)
include frees held

omit lasting held in
theorem freeBlock_free {ti : Nat} (same : after.blocks = s.blocks)
    (found : freeBlock after = some ti) : free ti := by
  have unused := List.find?_some found
  rw [same] at unused
  exact frees ti (by simpa using unused)

theorem synInput_hold {li : Nat} {route : Route} {seg : Segment} {iss : Seq} :
    (synInput hz s now procs li route seg iss).Hold holds := by
  unfold synInput
  dsimp only
  split
  · exact held
  · split
    · exact held
    · split
      · exact held
      · rename_i ci grown made
        have same := (convAlloc_blocks made).1
        split
        · exact held.of_blocks same
        · rename_i ni found
          have queue : ∀ {built : Tables}, built.Hold holds →
              (setQueue built li ((built.blocks li).aq ++ [ci])).Hold holds :=
            fun built => built.of_block rfl (lasting.queued li _ [ci] (built li))
          refine queue (Tables.Hold.of_block (held.of_blocks same) rfl ?_)
          exact lasting.begun ni _ (freeBlock_free frees same found) (.heard _ _ _)

theorem segmentInput_hold {route : Route} {seg : Segment} {iss : Seq} :
    (segmentInput hz s now procs route seg iss).Hold holds := by
  unfold segmentInput
  split
  · exact held
  · split
    · exact synInput_hold lasting frees held
    · exact onBlock_hold lasting (fun _ => .input seg) held

theorem connectBlock_hold (ci : Nat) (iss : Seq) (same : after.blocks = s.blocks) :
    (connectBlock hz after now ci iss).Hold holds := by
  unfold connectBlock
  dsimp only
  split
  · exact held.of_blocks same
  · split
    · exact held.of_blocks same
    · rename_i ti found
      exact (held.of_blocks same).of_block rfl
        (lasting.begun ti _ (freeBlock_free frees same found) (.connect _ _))

theorem listenBlock_hold (ci : Nat) (same : after.blocks = s.blocks) :
    (listenBlock hz after ci).Hold holds := by
  unfold listenBlock
  dsimp only
  split
  · exact held.of_blocks same
  · split
    · exact held.of_blocks same
    · rename_i ti found
      exact (held.of_blocks same).of_block rfl
        (lasting.begun ti _ (freeBlock_free frees same found) (.listen _))

theorem convCtl_hold (caller ci : Nat) (command : Command) :
    (convCtl hz s now procs caller ci command).Hold holds := by
  cases command with
  | connect ip port source iss =>
    rw [convCtl]
    dsimp only
    split_ifs
    · exact held
    · exact connectBlock_hold lasting frees held ci iss rfl
    · exact held.of_blocks rfl
  | bind port =>
    rw [convCtl]
    cases found : named s ci port with
    | none => exact held
    | some => exact held.of_blocks (named_blocks found).1
  | announce =>
    rw [convCtl]
    split
    · exact held
    · rename_i after found
      have same := (named_blocks found).1
      dsimp only
      split_ifs
      · exact listenBlock_hold lasting frees held ci same
      · exact held.of_blocks same
  | close =>
    rw [convCtl]
    split
    · exact onBlock_hold lasting (fun _ => .shutdown) held
    · exact held
  | hangup => exact convFree_hold lasting ci held
  | own => exact held.of_blocks rfl

/-- A request keeps what lasts if, where it reads, the read does. -/
theorem serve_hold {caller : Nat} {request : Request}
    (served : serve hz s now procs caller request = some after)
    (accepts : ∀ ci, request = .listen ci → (tcpAccept s procs ci caller).2.Hold holds)
    (reads : ∀ ci max, request = .read ci max →
      (onTcb s ci fun t => (Tcp.tcpRead t max).2.2).Hold holds) : after.Hold holds := by
  cases request with
  | clone =>
    obtain ⟨⟨ci, grown⟩, made, rfl⟩ := Option.map_eq_some_iff.mp served
    exact held.of_blocks (convAlloc_blocks made).1
  | ctl _ ci command =>
    simp only [serve] at served
    split_ifs at served
    cases served
    exact convCtl_hold lasting frees held caller ci command
  | listen ci =>
    simp only [serve] at served
    split_ifs at served
    cases served
    exact accepts ci rfl
  | read ci max =>
    simp only [serve] at served
    split_ifs at served
    cases served
    exact reads ci max rfl
  | write ci data =>
    simp only [serve] at served
    split_ifs at served
    cases served
    unfold onTcb
    split
    · exact onBlock_hold lasting (fun _ => .write data) held
    · exact held

end Lasting

def Sized (s : Tables) : Prop := ∀ ti, Fits (s.blocks ti).tcb

section Sized
variable {hz now : Nat} {s after : Tables} {procs : Procs}

theorem fits_lasting : Lasting hz now (fun _ => True) fun _ block => Fits block.tcb where
  worked _ block conv state _ _ fits worked := by
    have seen : Fits { block.tcb with conv := conv, convState := state } :=
      fits.same rfl (Nat.le_refl _) rfl rfl
    cases worked with
    | input => exact Tcp.tcpInput_fits seen
    | timers => exact Tcp.tcpTimers_fits seen
    | write data => exact Tcp.tcpWrite_fits seen data
    | shutdown => exact Tcp.tcpShutdown_fits seen
    | abort => exact Tcp.tcpAbort_fits seen
  queued _ _ _ fits := fits
  begun _ block _ begun := by
    generalize block.tcb = t at begun
    cases begun with
    | connect => exact Tcp.tcpConnect_fits _ _
    | listen => exact Tcp.tcpListen_fits _
    | heard => exact Tcp.inputListen_fits _ _

section
variable (sized : Sized s)
include sized

theorem Sized.viewed (ti : Nat) : Fits (viewed s ti) :=
  (sized ti).same rfl (Nat.le_refl _) rfl rfl

theorem onBlock_sized (ti max : Nat) :
    Sized (onBlock s ti fun t => (Tcp.tcpRead t max).2.2) := by
  have held : s.Hold fun _ block => Fits block.tcb := sized
  exact held.of_block (onBlock_blocks s ti _) (Tcp.tcpRead_fits (sized.viewed ti) max)

theorem onTcb_sized (ci max : Nat) :
    Sized (onTcb s ci fun t => (Tcp.tcpRead t max).2.2) := by
  unfold onTcb
  split
  · exact onBlock_sized sized _ max
  · exact sized

theorem accept_sized (ci pid : Nat) : Sized (tcpAccept s procs ci pid).2 := by
  have held : s.Hold fun _ block => Fits block.tcb := sized
  have queue : ∀ li queue, (setQueue s li queue).Hold fun _ block => Fits block.tcb :=
    fun li _ => held.of_block rfl (sized li)
  unfold tcpAccept
  split
  · exact sized
  · rename_i li _
    dsimp only
    split
    · exact queue li _
    · unfold handOver
      dsimp only
      split
      · rename_i ti _
        exact (queue li _).of_block rfl (queue li _ ti)
      · exact queue li _

theorem serve_sized {caller : Nat} {request : Request}
    (served : serve hz s now procs caller request = some after) : Sized after :=
  serve_hold fits_lasting (fun _ _ => trivial) sized served
    (fun ci _ => accept_sized sized ci caller) fun ci max _ => onTcb_sized sized ci max

theorem step_sized {action : Action} (stepped : step hz s action = some after) : Sized after := by
  obtain ⟨now, procs, event⟩ := action
  have lasting : Lasting hz now (fun _ => True) fun _ block => Fits block.tcb := fits_lasting
  change after.Hold fun _ block => Fits block.tcb
  cases event with
  | request => exact serve_sized sized stepped
  | parkedListen ci pid =>
    simp only [step] at stepped
    split_ifs at stepped
    cases stepped
    exact accept_sized sized ci pid
  | parkedRead ci max =>
    simp only [step] at stepped
    split_ifs at stepped
    cases stepped
    exact onTcb_sized sized ci max
  | segment =>
    obtain rfl := Option.some.inj stepped
    exact segmentInput_hold lasting (fun _ _ => trivial) sized
  | timers =>
    obtain rfl := Option.some.inj stepped
    exact timers_hold lasting sized
  | reap =>
    obtain rfl := Option.some.inj stepped
    exact reap_hold lasting sized

end

theorem booted_sized (hz : Nat) : Sized (booted hz) := by
  intro ti
  have fresh : Fits (Tcp.tcbAlloc hz fun _ => 0) := Tcp.tcbAlloc_fits _
  exact fresh.same rfl (Nat.le_refl _) rfl rfl

end Sized

namespace Parked

/-- Control blocks fit, and so do the datagrams in the queues. -/
structure StockFits (s : Stock) : Prop where
  blocks : Sized s.tables
  grams : ∀ ci, ∀ dgram ∈ s.grams ci, dgram.data.length ≤ dgramBytes

section StockFits
variable {hz : Nat} {s : Stock} {d after : Daemon} {procs : Procs}

section
variable (fit : StockFits s)
include fit

theorem StockFits.withTables {tables : Tables} (sized : Sized tables) :
    StockFits (s.withTables tables) where
  blocks := sized
  grams ci dgram member := by
    simp only [Stock.withTables] at member
    split at member
    · exact fit.grams ci dgram member
    · cases member

theorem convReadNow_stockFits (ci maxlen : Nat) : StockFits (s.convReadNow ci maxlen).2.2 := by
  unfold Stock.convReadNow
  dsimp only
  split
  · exact fit
  · exact ⟨onBlock_sized fit.blocks _ _, fit.grams⟩
  · split
    · exact fit
    · rename_i dgram rest queued
      refine ⟨fit.blocks, fun cj other member => fit.grams cj other ?_⟩
      dsimp only at member
      by_cases here : cj = ci
      · subst here
        rw [Function.update_self] at member
        rw [queued]
        exact List.mem_cons_of_mem _ member
      · rwa [Function.update_of_ne here] at member

theorem acceptNow_stockFits (ci pid : Nat) : StockFits (s.acceptNow procs ci pid).2.2 := by
  unfold Stock.acceptNow
  split
  · exact fit
  · dsimp only
    split
    · exact ⟨accept_sized fit.blocks ci pid, fit.grams⟩
    · exact ⟨accept_sized fit.blocks ci pid, fit.grams⟩

theorem readNow_stockFits (pend : Pend) : StockFits (s.readNow procs pend).2.2 := by
  unfold Stock.readNow
  split
  · exact convReadNow_stockFits fit _ _
  · exact acceptNow_stockFits fit _ _

theorem dgramPush_stockFits (ci : Nat) (dgram : Dgram) : StockFits (s.dgramPush ci dgram) := by
  unfold Stock.dgramPush
  split
  · exact fit
  · refine ⟨fit.blocks, fun cj other member => ?_⟩
    by_cases here : cj = ci
    · subst here
      dsimp only at member
      rw [Function.update_self] at member
      rcases List.mem_append.mp member with old | new
      · exact fit.grams cj other old
      · rw [List.mem_singleton.mp new]
        exact List.length_take_le _ _
    · dsimp only at member
      rw [Function.update_of_ne here] at member
      exact fit.grams cj other member

end

section
variable (fit : StockFits d.stock)
include fit

theorem serviceAt_stockFits (i : Nat) : StockFits (d.serviceAt i).stock := by
  unfold Daemon.serviceAt
  split
  · exact fit
  · dsimp only
    split
    · exact readNow_stockFits fit _
    · exact readNow_stockFits fit _

theorem serveRead_stockFits (pend : Pend) : StockFits (d.serveRead pend).stock := by
  unfold Daemon.serveRead
  dsimp only
  split
  · exact readNow_stockFits fit _
  · exact readNow_stockFits fit _

theorem serveOther_stockFits (caller : Caller) (gen : Nat) (request : Request) :
    StockFits (d.serveOther hz caller gen request).stock := by
  unfold Daemon.serveOther
  split
  · exact fit
  · rename_i tables served
    exact fit.withTables (serve_sized fit.blocks served)

theorem serveMail_stockFits (mail : Mail) : StockFits (d.serveMail hz mail).stock := by
  unfold Daemon.serveMail
  dsimp only
  split
  · split
    · exact serveRead_stockFits fit _
    · exact fit
  · split
    · exact serveRead_stockFits fit _
    · exact fit
  · exact serveOther_stockFits fit _ _ _
  · exact serveOther_stockFits fit _ _ _
  · exact serveOther_stockFits fit _ _ _
  · split
    · exact ⟨fit.blocks, fit.grams⟩
    · exact fit
  · exact fit

end

theorem moveTables_stockFits (hz : Nat) (fit : StockFits d.stock) (event : Event)
    (stepped : ((tableEvent event).bind fun event =>
      Net.step hz d.stock.tables ⟨d.now, d.books.procInfo, event⟩).map d.moveTables =
        some after) : StockFits after.stock := by
  obtain ⟨tables, moved, rfl⟩ := Option.map_eq_some_iff.mp stepped
  obtain ⟨_, -, tabled⟩ := Option.bind_eq_some_iff.mp moved
  exact fit.withTables (step_sized fit.blocks tabled)

theorem step_stockFits {event : Event} (fit : StockFits d.stock)
    (stepped : step hz d event = some after) : StockFits after.stock := by
  cases event with
  | spawn | call | stop =>
    obtain ⟨books, -, rfl⟩ := Option.map_eq_some_iff.mp stepped
    exact fit
  | exit =>
    obtain rfl := Option.some.inj stepped
    exact fit
  | clock =>
    simp only [step] at stepped
    split_ifs at stepped
    obtain rfl := Option.some.inj stepped
    exact fit
  | poll =>
    simp only [step] at stepped
    split at stepped
    · cases stepped
    · obtain rfl := Option.some.inj stepped
      exact serveMail_stockFits (d := d.taken _ _) fit _
  | service i =>
    simp only [step] at stepped
    split_ifs at stepped
    obtain rfl := Option.some.inj stepped
    exact serviceAt_stockFits fit i
  | datagram ci dgram =>
    simp only [step] at stepped
    split_ifs at stepped
    obtain rfl := Option.some.inj stepped
    exact dgramPush_stockFits fit ci dgram
  | segment route seg iss =>
    exact moveTables_stockFits hz fit (.segment route seg iss) stepped
  | timers => exact moveTables_stockFits hz fit .timers stepped
  | reap => exact moveTables_stockFits hz fit .reap stepped

theorem run_stockFits (run : Run.Reach (step hz) (fun _ _ => True) (started hz) d) :
    StockFits d.stock :=
  run.invariant (fun d => StockFits d.stock)
    ⟨booted_sized hz, fun _ _ member => by cases member⟩
    fun _ _ _ held _ stepped => step_stockFits held stepped

end StockFits

end Parked

end Racccoon.Net
