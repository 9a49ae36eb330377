import Racccoon.Ipc.Rendezvous
import Racccoon.Ipc.Sleep

/-!
Bounced messages. A process that waits for an ack has its message in its target's
inbox until the message is consumed, handed back or lost with the target; a message
that was handed back is deposited again before its operation returns success. This
fails only for `sys_ipc_reply`, whose ack wait does not look at `ipc_bounced`.
-/

namespace Racccoon.Ipc

variable (ex : Exchange)

/-- `ipc_call` evicts no reply of a process that still waits for its ack. -/
def sparesReply (current : Nat) : Prop :=
  let inbox := (ex.views current).inbox
  inbox.hasMessage = true → inbox.msgOp.kind = .reply →
    (ex.views inbox.msgFrom).live = true →
      (ex.views inbox.msgFrom).generation ≠ inbox.msgFromGeneration

def bounceRules : Rules := { sendRules with evict := sparesReply }

instance : DecidableRules bounceRules :=
  { (inferInstance : DecidableRules sendRules) with
    evict := fun _ _ => inferInstanceAs (Decidable (_ → _ → _ → _)) }

theorem bounceRules_within : bounceRules.Within sendRules :=
  ⟨fun _ _ _ => id, fun _ _ => id, fun _ _ _ => trivial, fun _ => id, fun _ => id⟩

/-- Message `id` of `sender` is in the inbox it was sent to. -/
structure Waits (ex : Exchange) (sender : Nat) (op : Op) (id : Nat) : Prop where
  full : (ex.views op.dest).inbox.hasMessage = true
  number : (ex.views op.dest).inbox.msgId = id
  msgFrom : (ex.views op.dest).inbox.msgFrom = sender
  generation : (ex.views op.dest).inbox.msgFromGeneration = (ex.views sender).generation

def Waiting (view : View) (op : Op) : Prop :=
  view.wait.msgAcked = false ∧ (op.kind ≠ .reply → view.wait.ipcBounced = false) ∧
    view.wait.ipcPeerDied = false

def Over (op : Op) (last : Nat) : Prop :=
  op.started < ex.log.length ∧ (∀ pid, (ex.views pid).pc.op ≠ some op) ∧
    (∀ pid, (ex.views pid).live = true → (ex.views pid).inbox.hasMessage = true →
      (ex.views pid).inbox.msgOp ≠ op) ∧
    (∀ id moment, .evicted id op moment ∈ ex.log → moment < last) ∧
    ∃ bytes during, .deposited last op bytes during ∈ ex.log

structure Bounces (ex : Exchange) : Prop where
  held : ∀ pid op id, (ex.views pid).pc = .acking op id → Waiting (ex.views pid) op →
    Waits ex pid op id
  past : ∀ id op moment, .evicted id op moment ∈ ex.log → moment < ex.log.length
  redelivers : ∀ pid op last id moment, (ex.views pid).pc = .acking op last →
    .evicted id op moment ∈ ex.log →
      moment < last ∨ op.kind ≠ .reply ∧ (ex.views pid).wait.ipcBounced = true
  redelivered : ∀ pid op last id moment, (ex.views pid).pc = .awaiting op last →
    .evicted id op moment ∈ ex.log → moment < last
  begun : ∀ pid op, (ex.views pid).pc.op = some op → op.started < ex.log.length
  ended : ∀ op last, .succeeded op last ∈ ex.log → Over ex op last

variable {procsMax pid : Nat} {rules : Rules} {before after : Exchange}
variable {id moment last : Nat}

theorem Waits.stay {op : Op} (waits : Waits before pid op id)
    (inbox : (after.views op.dest).inbox = (before.views op.dest).inbox)
    (generation : (after.views pid).generation = (before.views pid).generation) :
    Waits after pid op id := by
  obtain ⟨full, number, msgFrom, same⟩ := waits
  constructor <;> simp only [inbox, generation] <;> assumption

/-- The message an operation waits for is its own. -/
theorem Waits.op (letters : Letters before) (seats : Seats procsMax before) {op : Op}
    (waits : Waits before pid op id) (inside : (before.views pid).pc = .acking op id)
    (noticed : (before.views pid).wait.ipcPeerDied = false) :
    (before.views op.dest).live = true ∧ (before.views op.dest).inbox.msgOp = op := by
  have inOp : (before.views pid).pc.op = some op := by
    rw [inside]
    rfl
  have dest := (seats.peer pid op inOp noticed).1
  have custody := letters.custody op.dest pid dest waits.full waits.msgFrom
    ((seats.seated pid).alive op inOp) waits.generation.symm
  have same := custody.pc.symm.trans inside
  simp only [Pc.acking.injEq] at same
  exact ⟨dest, same.1⟩

/-- A process that waits for an ack waited before, or it has just deposited. -/
theorem Deed.waited (deed : Deed procsMax rules before after) {op : Op}
    (inside : (after.views pid).pc = .acking op id) (waiting : Waiting (after.views pid) op) :
    ((before.views pid).pc = .acking op id ∧ Waiting (before.views pid) op ∧
        (after.views pid).generation = (before.views pid).generation) ∨
      ∃ bytes, Delivers rules before after pid op bytes ∧ id = before.log.length := by
  cases deed with
  | calm views | start _ _ _ _ _ _ _ _ _ _ views | redeliver _ _ _ views | fail _ _ views =>
    have view := views pid
    grind [Calm, Waiting, Pc.outside, View.emptied]
  | @deposit current sent bytes queued free rule _ log =>
    by_cases own : pid = current
    · subst own
      have same : op = sent ∧ id = before.log.length := by
        grind
      obtain ⟨rfl, rfl⟩ := same
      refine .inr ⟨bytes, ⟨queued, free, rule, inside, ?_, ?_, fun pid => ?_, ?_, log⟩, rfl⟩
      all_goals
        grind
    · grind [Waiting]
  | evict here outside full rule views | collect ending full rule views
  | take here outside full rule views | accept acking kind bounced acked views
  | finish acking kind bounced acked views | destroy found views
  | create =>
    grind [Waiting, View.emptied, View.bounced, View.acked, View.peerDied]

/-- While it waits, its message stays where it is. -/
theorem Waits.undisturbed (deed : Deed procsMax rules before after) (letters : Letters before)
    (seats : Seats procsMax before) (strict : rules.Within bounceRules) {op : Op}
    (old : Waits before pid op id) (acking : (before.views pid).pc = .acking op id)
    (calm : Waiting (before.views pid) op) (inside : (after.views pid).pc = .acking op id)
    (waiting : Waiting (after.views pid) op) :
    (after.views op.dest).inbox = (before.views op.dest).inbox := by
  have inOp : (before.views pid).pc.op = some op := congrArg Pc.op acking
  have alive := (seats.seated pid).alive op inOp
  have slot := (seats.seated pid).slot alive
  have found : (before.views pid).found procsMax pid = true := by
    simp [View.found, alive, slot]
  have msgFrom := old.msgFrom
  have generation := old.generation
  have occupied := old.full
  cases deed with
  | calm views =>
    obtain ⟨pc, owed, dest, -⟩ := views op.dest
    rw [dest]
  | start here outside empty rule found caller dest begun seq debt views
  | redeliver _ _ _ views =>
    obtain ⟨target, joinedBorn, dest⟩ := views op.dest
    grind [View.facing]
  | @fail _ _ _ _ _ views =>
    obtain ⟨target, view⟩ := views pid
    obtain ⟨destTarget, dest⟩ := views op.dest
    grind
  | @evict current _ _ full rule =>
    have apart : op.dest ≠ current := by
      intro same
      have own := (old.op letters seats acking calm.2.2).2
      have spares := strict.evict _ _ rule full
      rw [same] at own msgFrom generation
      rw [own, msgFrom] at spares
      by_cases kind : op.kind = .reply
      · exact spares kind alive generation.symm
      · have flagged := waiting.2.1 kind
        grind [View.bounced]
    grind [View.bounced]
  | @collect current _ _ ending full rule views | @take current _ here outside full rule views =>
    have apart : op.dest ≠ current := by
      have unacked := waiting.1
      grind [View.acked]
    grind [View.acked]
  | @deposit _ _ _ _ free =>
    have empty := free.1
    grind
  | accept acking kind bounced acked views | finish acking kind bounced acked views =>
    grind
  | destroy =>
    grind [View.peerDied]
  | create =>
    have peer := seats.peer pid op inOp calm.2.2
    grind

theorem Bounces.held_after (bounces : Bounces before) (deed : Deed procsMax rules before after)
    (letters : Letters before) (seats : Seats procsMax before) (strict : rules.Within bounceRules)
    {op : Op} (inside : (after.views pid).pc = .acking op id)
    (waiting : Waiting (after.views pid) op) : Waits after pid op id := by
  rcases deed.waited inside waiting with ⟨acking, calm, generation⟩ | ⟨bytes, delivers, rfl⟩
  · have old := bounces.held pid op id acking calm
    exact old.stay (old.undisturbed deed letters seats strict acking calm inside waiting) generation
  · constructor <;> rw [delivers.inbox]
    · rfl
    · rfl
    · rfl
    · exact (delivers.places pid).2.symm

section
variable {op : Op} (deed : Deed procsMax rules before after)
include deed

/-- An eviction is an old one or the one that has just been made. -/
theorem Deed.evicted (evicted : .evicted id op moment ∈ after.log) :
    .evicted id op moment ∈ before.log ∨ moment = before.log.length ∧ ∃ current,
      (before.views current).live = true ∧ (before.views current).inbox.hasMessage = true ∧
      (before.views current).inbox.msgOp = op ∧ rules.evict before current ∧
      after.log = .evicted id op moment :: before.log ∧
      ∀ pid, (after.views pid).pc = (before.views pid).pc ∧
        ((before.views pid).live = true → 1 ≤ pid ∧ pid ≤ procsMax →
          (before.views current).inbox.msgFrom = pid →
          (before.views current).inbox.msgFromGeneration = (before.views pid).generation →
            (after.views pid).wait.ipcBounced = true) := by
  cases deed with
  | @evict current here _ full rule _ log =>
    rw [log] at evicted
    simp only [List.mem_cons] at evicted
    rcases evicted with ⟨rfl, rfl, rfl⟩ | old
    · refine .inr ⟨rfl, current, here, full, rfl, rule, log, fun pid => ⟨?_, ?_⟩⟩
      · grind [View.emptied, View.bounced]
      · intro alive slot msgFrom generation
        have found : (before.views pid).found procsMax pid = true := by
          simp [View.found, alive, slot]
        grind [View.bounced]
    · exact .inl old
  | calm | start | deposit | fail | redeliver | accept | take | finish | collect | destroy | create =>
    simp_all

/-- An ack wait goes on, or it starts with a deposit; the last wait of a call goes on, or it
starts with an ack. -/
theorem Deed.waits : ((after.views pid).pc = .acking op id → (before.views pid).pc = .acking op id ∧
        ((before.views pid).wait.ipcBounced = true → (after.views pid).wait.ipcBounced = true) ∨
      id = before.log.length) ∧
    ((after.views pid).pc = .awaiting op id → (before.views pid).pc = .awaiting op id ∨
      (before.views pid).pc = .acking op id ∧ (before.views pid).wait.ipcBounced = false ∧
        after.log = before.log) := by
  cases deed with
  | calm views | start _ _ _ _ _ _ _ _ _ _ views | redeliver _ _ _ views | fail _ _ views
  | evict _ _ _ _ views | collect _ _ _ views | take _ _ _ _ views | deposit _ _ _ _ views
  | accept _ _ _ _ views | finish _ _ _ _ views | destroy _ views | create _ _ _ _ _ _ views =>
    have view := views pid
    grind [Calm, Pc.outside, View.emptied, View.bounced, View.acked, View.peerDied]

/-- A success is an old one, or its operation has just come to its end. -/
theorem Deed.succeeded (success : .succeeded op last ∈ after.log) : .succeeded op last ∈ before.log ∨
      ∃ current, ((before.views current).pc = .acking op last ∧
            (op.kind ≠ .reply → (before.views current).wait.ipcBounced = false) ∧
            (before.views current).wait.msgAcked = true ∨
          (before.views current).pc = .awaiting op last) ∧
        (after.views current).pc = .user ∧
        (∀ pid ≠ current, (after.views pid).pc = (before.views pid).pc) ∧
        SamePlaces before after := by
  cases deed with
  | @finish current _ _ acking _ bounced acked views log =>
    rw [log] at success
    simp only [List.mem_cons] at success
    rcases success with ⟨rfl, rfl⟩ | old
    · exact .inr ⟨current, .inl ⟨acking, bounced, acked⟩, by rw [views, if_pos rfl],
        fun pid other => by rw [views, if_neg other], fun pid => by grind⟩
    · exact .inl old
  | @collect current _ _ ending _ _ _ log =>
    rw [log] at success
    simp only [List.mem_cons, reduceCtorEq, false_or] at success
    rcases success with ⟨rfl, rfl⟩ | old
    · refine .inr ⟨current, .inr ending, ?_, fun pid other => ?_, fun pid => ?_⟩
      all_goals
        grind [View.acked, View.emptied]
    · exact .inl old
  | calm | start | deposit | fail | redeliver | accept | take | evict | destroy | create => simp_all

end
/-- The operation of a message whose sender is still in it. -/
theorem Letters.named (letters : Letters before) (seats : Seats procsMax before) {current : Nat}
    {op : Op} (full : (before.views current).inbox.hasMessage = true)
    (own : (before.views current).inbox.msgOp = op) (inside : (before.views pid).pc.op = some op) :
    (before.views pid).live = true ∧ (before.views current).inbox.msgFrom = pid ∧
      (before.views current).inbox.msgFromGeneration = (before.views pid).generation := by
  have origin := letters.origin current full
  have caller := (seats.seated pid).caller op inside
  rw [← own] at caller
  exact ⟨(seats.seated pid).alive op inside, origin.caller.symm.trans caller.1,
    origin.generation.symm.trans caller.2⟩

section
variable {op : Op} (bounces : Bounces before) (deed : Deed procsMax rules before after)
include bounces deed

theorem Bounces.redelivers_after (letters : Letters before)
    (seats : Seats procsMax before) (strict : rules.Within bounceRules)
    (inside : (after.views pid).pc = .acking op last) (evicted : .evicted id op moment ∈ after.log) :
    moment < last ∨ op.kind ≠ .reply ∧ (after.views pid).wait.ipcBounced = true := by
  rcases deed.evicted evicted with old | ⟨rfl, current, here, full, own, rule, log, views⟩
  · rcases deed.waits.1 inside with ⟨acking, stays⟩ | rfl
    · rcases bounces.redelivers pid op last id moment acking old with earlier | ⟨kind, bounced⟩
      · exact .inl earlier
      · exact .inr ⟨kind, stays bounced⟩
    · exact .inl (bounces.past id op moment old)
  · have inOp : (before.views pid).pc.op = some op := by
      rw [← (views pid).1, inside]
      rfl
    obtain ⟨alive, msgFrom, generation⟩ := letters.named seats full own inOp
    refine .inr ⟨fun kind => ?_, (views pid).2 alive ((seats.seated pid).slot alive) msgFrom generation⟩
    have spares := strict.evict _ _ rule full (by rw [own, kind])
    rw [msgFrom] at spares
    exact spares alive generation.symm

theorem Bounces.redelivered_after (letters : Letters before) (seats : Seats procsMax before)
    (inside : (after.views pid).pc = .awaiting op last)
    (evicted : .evicted id op moment ∈ after.log) : moment < last := by
  rcases deed.evicted evicted with old | ⟨rfl, current, here, full, own, rule, log, views⟩
  · rcases deed.waits.2 inside with awaiting | ⟨acking, unbounced, -⟩
    · exact bounces.redelivered pid op last id moment awaiting old
    · rcases bounces.redelivers pid op last id moment acking old with earlier | ⟨-, bounced⟩
      · exact earlier
      · rw [unbounced] at bounced
        cases bounced
  · -- a message of a call that has been acked is in no inbox
    have awaiting := (views pid).1.symm.trans inside
    have inOp : (before.views pid).pc.op = some op := by
      rw [awaiting]
      rfl
    obtain ⟨alive, msgFrom, generation⟩ := letters.named seats full own inOp
    have custody := letters.custody current pid here full msgFrom alive generation.symm
    have acking := custody.pc
    rw [awaiting] at acking
    cases acking

theorem Bounces.begun_after (inside : (after.views pid).pc.op = some op) : op.started < after.log.length := by
  rcases deed.op inside with ⟨old, -⟩ | ⟨-, -, ⟨now, longer⟩, -⟩
  · exact Nat.lt_of_lt_of_le (bounces.begun pid op old) deed.length_le
  · rw [now]
    exact longer

theorem Bounces.past_after (evicted : .evicted id op moment ∈ after.log) :
    moment < after.log.length := by
  rcases deed.evicted evicted with old | ⟨rfl, -, -, -, -, -, log, -⟩
  · exact Nat.lt_of_lt_of_le (bounces.past id op moment old) deed.length_le
  · simp [log]

end
theorem Deed.holder_live (deed : Deed procsMax rules before after)
    (alive : (after.views pid).live = true) (full : (after.views pid).inbox.hasMessage = true) :
    (before.views pid).live = true := by
  rcases deed.places with places | ⟨victim, -, gone, others⟩ | ⟨slot, -, -, -, -, empty, others⟩
  · exact (places pid).1 ▸ alive
  · have survives : pid ≠ victim := by
      rintro rfl
      rw [gone] at alive
      cases alive
    exact ((others pid).2 survives).1 ▸ alive
  · have apart : pid ≠ slot := by
      rintro rfl
      rw [empty] at full
      cases full
    exact others pid apart ▸ alive

theorem Over.next {op : Op} (past : Over before op last) (deed : Deed procsMax rules before after) :
    Over after op last := by
  obtain ⟨started, nowhere, lost, redelivered, bytes, during, sent⟩ := past
  refine ⟨Nat.lt_of_lt_of_le started deed.length_le, fun pid inside => ?_,
    fun pid alive full own => ?_, fun id moment evicted => ?_, bytes, during, deed.grows sent⟩
  · rcases deed.op inside with ⟨old, -⟩ | ⟨-, -, ⟨now, -⟩, -⟩
    · exact nowhere pid old
    · omega
  · rcases deed.inbox full with same | ⟨current, sent, bytes, rfl, delivers⟩
    · rw [same] at full own
      exact lost pid (deed.holder_live alive (same ▸ full)) full own
    · rw [delivers.inbox] at own
      exact nowhere current (by rw [delivers.pc]; exact congrArg some own)
  · rcases deed.evicted evicted with old | ⟨-, current, here, full, own, -⟩
    · exact redelivered id moment old
    · exact absurd own (lost current here full)

/-- The end of an operation whose message has been consumed. -/
theorem Bounces.ends (bounces : Bounces before) (deed : Deed procsMax rules before after)
    (letters : Letters before) (seats : Seats procsMax before) (strict : rules.Within sendRules)
    {current : Nat} {op : Op} (success : .succeeded op last ∈ after.log)
    (fresh : .succeeded op last ∉ before.log)
    (ending : (before.views current).pc = .acking op last ∧
        (op.kind ≠ .reply → (before.views current).wait.ipcBounced = false) ∧
        (before.views current).wait.msgAcked = true ∨
      (before.views current).pc = .awaiting op last) (done : (after.views current).pc = .user)
    (others : ∀ pid ≠ current, (after.views pid).pc = (before.views pid).pc)
    (places : SamePlaces before after) : Over after op last := by
  have inOp : (before.views current).pc.op = some op := by
    rcases ending with ⟨acking, -⟩ | awaiting
    · rw [acking]
      rfl
    · rw [awaiting]
      rfl
  have caller := (seats.seated current).caller op inOp
  have alone (pid : Nat) (inside : (before.views pid).pc.op = some op) : pid = current :=
    ((seats.seated pid).caller op inside).1.symm.trans caller.1
  refine ⟨Nat.lt_of_lt_of_le (bounces.begun current op inOp) deed.length_le, fun pid inside => ?_,
    fun pid alive full own => ?_, fun id moment evicted => ?_, ?_⟩
  · by_cases same : pid = current
    · subst same
      rw [done] at inside
      cases inside
    · rw [others pid same] at inside
      exact same (alone pid inside)
  · rcases deed.inbox full with inbox | ⟨depositor, sent, bytes, rfl, delivers⟩
    · obtain ⟨here, msgFrom, generation⟩ := letters.named seats (inbox ▸ full) (inbox ▸ own) inOp
      have custody := (letters.custody_before deed strict inbox alive full
        (by rw [inbox, msgFrom, (places current).1]; exact here)
        (by rw [inbox, msgFrom, (places current).2]; exact generation.symm)).1
      rw [inbox, msgFrom] at custody
      have acking := custody.pc
      rcases ending with ⟨-, -, acked⟩ | awaiting
      · rw [custody.unacked] at acked
        cases acked
      · rw [awaiting] at acking
        cases acking
    · rw [delivers.inbox] at own
      have queued := delivers.pc
      rw [alone depositor (by rw [queued]; exact congrArg some own)] at queued
      rw [queued] at ending
      rcases ending with ⟨acking, -⟩ | awaiting
      · cases acking
      · cases awaiting
  · rcases deed.evicted evicted with old | ⟨-, -, -, -, -, -, log, -⟩
    · rcases ending with ⟨acking, unbounced, -⟩ | awaiting
      · rcases bounces.redelivers current op last id moment acking old with earlier | ⟨kind, bounced⟩
        · exact earlier
        · rw [unbounced kind] at bounced
          cases bounced
      · exact bounces.redelivered current op last id moment awaiting old
    · rw [log] at success
      exact absurd (by simpa using success) fresh
  · obtain ⟨bytes, during, sent⟩ := letters.sent current op last (ending.imp And.left id)
    exact ⟨bytes, during, deed.grows sent⟩

theorem Bounces.next (bounces : Bounces before) (deed : Deed procsMax rules before after)
    (letters : Letters before) (seats : Seats procsMax before) (strict : rules.Within bounceRules) :
    Bounces after where
  held _ _ _ inside waiting := bounces.held_after deed letters seats strict inside waiting
  past _ _ _ evicted := bounces.past_after deed evicted
  redelivers _ _ _ _ _ inside evicted :=
    bounces.redelivers_after deed letters seats strict inside evicted
  redelivered _ _ _ _ _ inside evicted := bounces.redelivered_after deed letters seats inside evicted
  begun _ _ inside := bounces.begun_after deed inside
  ended op last success := by
    by_cases old : .succeeded op last ∈ before.log
    · exact (bounces.ended op last old).next deed
    · rcases deed.succeeded success with earlier | ⟨current, ending, done, others, places⟩
      · exact absurd earlier old
      · exact bounces.ends deed letters seats (strict.trans bounceRules_within) success old ending
          done others places

theorem boot_bounces : Bounces boot.exchange := by
  constructor <;> simp [Kernel.exchange, Kernel.views, Process.view, boot, Pc.op]

theorem deeds_bounces (strict : rules.Within bounceRules)
    (deeds : Relation.ReflTransGen (Deed procsMax rules) boot.exchange after) :
    Seats procsMax after ∧ Letters after ∧ Bounces after := by
  induction deeds with
  | refl => exact ⟨boot_seats, boot_letters, boot_bounces⟩
  | tail _ deed ih =>
    exact ⟨deed.seats ih.1, ih.2.1.next deed ih.1 (strict.trans bounceRules_within),
      ih.2.2.next deed ih.2.1 ih.1 strict⟩

variable {kernel finish : Kernel} {action : Action}

def Dozing (kernel : Kernel) : Prop := ∀ pid op id, (kernel.procs pid).state = .blocked →
  (kernel.views pid).pc = .acking op id → Waiting (kernel.views pid) op

theorem Dozing.step (dozing : Dozing kernel) (move : Move procsMax kernel action finish)
    (executes : Executes kernel) (seats : Seats procsMax kernel.exchange) : Dozing finish := by
  intro pid op id blocked inside
  rcases move.asleep executes blocked with ⟨asleep, pc, wait⟩ | ⟨-, stuck, pc, wait⟩ | elsewhere
  · rw [Waiting, wait]
    exact dozing pid op id asleep (pc ▸ inside)
  · have acking := pc.symm.trans inside
    rw [Stuck, acking] at stuck
    obtain ⟨unacked, unbounced, here⟩ := stuck
    have inOp : (kernel.exchange.views pid).pc.op = some op := by
      have same : (kernel.exchange.views pid).pc = .acking op id := acking
      rw [same]
      rfl
    have waits := (seats.seated pid).waits op inOp
    have named := (seats.seated pid).named op inOp
    rw [Waiting, wait]
    refine ⟨unacked, unbounced, ?_⟩
    have target : (kernel.procs pid).wait.ipcWaitPid ≠ 0 := by
      have same : (kernel.procs pid).wait.ipcWaitPid = op.dest := waits.1
      rw [same]
      exact named
    simp only [ipcPeerGone, Bool.and_eq_false_iff, decide_eq_false_iff_not, not_not,
      Bool.or_eq_false_iff] at here
    rcases here with nobody | ⟨⟨alive, -⟩, -⟩
    · exact absurd nobody target
    · exact alive
  · rw [elsewhere] at inside
    cases inside

theorem run_dozing (run : Run.Reach (step procsMax) (Fair bounceRules procsMax) boot kernel) :
    Dozing kernel := by
  induction run with
  | start => simp [Dozing, boot]
  | next _ before _ stepped ih =>
    obtain ⟨executes, deeds⟩ := run_deeds before
    have seats := (deeds_bounces (.refl bounceRules) deeds).1
    exact ih.step (step_move executes stepped) executes seats

/-- An evicted message is deposited again before its operation returns success, and
a process that waits for an ack has its message in the target's inbox, or it has been
acked, is about to deposit again, or has lost its target; asleep, it is the first. -/
theorem bounced_redelivered
    (run : Run.Reach (step procsMax) (Fair bounceRules procsMax) boot kernel) :
    (∀ id op moment last, .evicted id op moment ∈ kernel.log → .succeeded op last ∈ kernel.log →
      moment < last ∧ ∃ bytes during, .deposited last op bytes during ∈ kernel.log) ∧
    ∀ pid op id, (kernel.procs pid).pc = .acking op id →
      let wait := (kernel.procs pid).wait
      let inbox := (kernel.procs op.dest).inbox
      let held := inbox.hasMessage = true ∧ inbox.msgId = id ∧ inbox.msgOp = op
      (held ∨ wait.msgAcked = true ∨ op.kind ≠ .reply ∧ wait.ipcBounced = true ∨
        wait.ipcPeerDied = true) ∧ ((kernel.procs pid).state = .blocked → held) := by
  obtain ⟨seats, letters, bounces⟩ := deeds_bounces (.refl bounceRules) (run_deeds run).2
  refine ⟨fun id op moment last evicted success => ?_, fun pid op id inside => ?_⟩
  · obtain ⟨-, -, -, redelivered, sent⟩ := bounces.ended op last success
    exact ⟨redelivered id moment evicted, sent⟩
  · have acking : (kernel.exchange.views pid).pc = .acking op id := inside
    have held (waiting : Waiting (kernel.exchange.views pid) op) :
        (kernel.procs op.dest).inbox.hasMessage = true ∧
          (kernel.procs op.dest).inbox.msgId = id ∧ (kernel.procs op.dest).inbox.msgOp = op := by
      have waits := bounces.held pid op id acking waiting
      exact ⟨waits.full, waits.number, (waits.op letters seats acking waiting.2.2).2⟩
    refine ⟨?_, fun blocked => held (run_dozing run pid op id blocked acking)⟩
    by_cases waiting : Waiting (kernel.exchange.views pid) op
    · exact .inl (held waiting)
    · have reason : ¬ ((kernel.procs pid).wait.msgAcked = false ∧
          (op.kind ≠ .reply → (kernel.procs pid).wait.ipcBounced = false) ∧
          (kernel.procs pid).wait.ipcPeerDied = false) := waiting
      grind

/-- Process 2 sends to process 3, which calls process 4 before it reads; the message
is deposited again when the call is over. -/
def handedBack : Kernel :=
  Run.outcome (step 64) (Fair bounceRules 64) boot [.create, .create, .create, .create,
    .send 2 3 7 1 true, .run [9], .run [], .call 3 4 1 1 8 true 0, .run [5], .run [],
    .schedule 2, .run [], .run [], .recv 4 8 true, .run [], .schedule 3, .run [], .run [],
    .reply 4 3 2 1 0 true, .run [6], .run [], .schedule 3, .run [], .schedule 2, .run [9], .run [],
    .recv 3 8 true, .run [], .schedule 2, .run []]

def patient : Op := ⟨4, .send, 2, 1, 3, 1, 7, 1, 0, 0, 0⟩

theorem bounced_redelivered_handedBack :
    .evicted 5 patient 6 ∈ handedBack.log ∧ .succeeded patient 16 ∈ handedBack.log ∧
      (6 < 16 ∧ ∃ bytes during, .deposited 16 patient bytes during ∈ handedBack.log) :=
  have evicted : .evicted 5 patient 6 ∈ handedBack.log := by decide
  have success : .succeeded patient 16 ∈ handedBack.log := by decide
  ⟨evicted, success,
    (bounced_redelivered (Run.outcome_reach _ _ (by decide))).1 _ _ _ _ evicted success⟩

/-- Process 3 replies to process 2, which enters a call before it reads. -/
def stranded : Kernel :=
  Run.outcome (step 64) (fun _ _ => True) boot [.create, .create, .create, .create,
    .reply 3 2 5 1 0 true, .run [9], .run [], .call 2 4 1 0 0 true 0, .run [], .run [],
    .schedule 3, .run []]

def forgotten : Op := ⟨4, .reply, 3, 1, 2, 1, 5, 1, 0, 0, 0⟩

theorem reply_stranded : Run.Reach (step 64) (fun _ _ => True) boot stranded ∧
    .evicted 5 forgotten 6 ∈ stranded.log ∧ (stranded.procs 3).pc = .acking forgotten 5 ∧
    (stranded.procs 3).state = .blocked ∧ ∀ pid ≤ 64,
      (stranded.procs pid).inbox.hasMessage = true → (stranded.procs pid).inbox.msgId ≠ 5 :=
  ⟨Run.outcome_reach _ _ (by decide), by decide, by decide,
    by decide, by decide⟩

end Racccoon.Ipc
