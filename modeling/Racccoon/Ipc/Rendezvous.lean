import Racccoon.Ipc.Seats

/-!
Acks: when an operation is acknowledged, whose message has been consumed?

The ack is a flag on the process in slot `msg_from`, whoever that is by now. `Letters`
ties it to the message: the sender of a message in an inbox, if it is still the same
instance, is waiting for the ack of that very message. It holds as long as no message
of a dead process is consumed while its slot's next occupant waits for an ack of its
own, and nothing is redelivered to the next occupant of its target's slot.
-/

namespace Racccoon.Ipc

def Pc.waitsForAck : Pc → Bool
  | .acking _ _ => true
  | _ => false

variable (ex : Exchange)

/-- The process in slot `msg_from` is the sender, or waits for no ack. -/
def acksSender (reader : Nat) : Prop :=
  let inbox := (ex.views reader).inbox
  (ex.views inbox.msgFrom).live = true →
    (ex.views inbox.msgFrom).generation ≠ inbox.msgFromGeneration →
      (ex.views inbox.msgFrom).pc.waitsForAck = false

def reachesTarget (_current : Nat) (op : Op) : Prop :=
  (ex.views op.dest).generation = op.destGeneration

def generationLeft (generation : Nat) : Prop := generation + 1 < 2 ^ 32

def sendRules : Rules where
  deposit := reachesTarget
  take := acksSender
  evict _ _ := True
  call _ := True
  create := generationLeft

instance : DecidableRules sendRules where
  deposit _ _ _ := inferInstanceAs (Decidable (_ = _))
  take _ _ := inferInstanceAs (Decidable (_ → _ → _))
  evict _ _ := inferInstanceAs (Decidable True)
  call _ := inferInstanceAs (Decidable True)
  create _ := inferInstanceAs (Decidable (_ < _))

/-- Rules that allow nothing that others forbid. -/
structure Rules.Within (rules weaker : Rules) : Prop where
  deposit : ∀ ex current op, rules.deposit ex current op → weaker.deposit ex current op
  take : ∀ ex reader, rules.take ex reader → weaker.take ex reader
  evict : ∀ ex current, rules.evict ex current → weaker.evict ex current
  call : ∀ callSeq, rules.call callSeq → weaker.call callSeq
  create : ∀ generation, rules.create generation → weaker.create generation

theorem Rules.Within.refl (rules : Rules) : rules.Within rules :=
  ⟨fun _ _ _ => id, fun _ _ => id, fun _ _ => id, fun _ => id, fun _ => id⟩

theorem Rules.Within.trans {strict middle weaker : Rules} (first : strict.Within middle)
    (second : middle.Within weaker) : strict.Within weaker :=
  ⟨fun _ _ _ => second.deposit _ _ _ ∘ first.deposit _ _ _, fun _ _ => second.take _ _ ∘ first.take _ _,
    fun _ _ => second.evict _ _ ∘ first.evict _ _, fun _ => second.call _ ∘ first.call _,
    fun _ => second.create _ ∘ first.create _⟩

/-- A reader that asked for `cap` bytes was handed so many at most, of `bytes` as many as fit. -/
def Handed (bytes : List UInt8) (cap : Nat) (handed : List UInt8) : Prop :=
  bytes.take cap <+: handed ∧ handed.length ≤ cap

theorem Handed.of_starts {bytes data : List UInt8} {cap : Nat} (starts : bytes <+: data) :
    Handed bytes cap (data.take cap) := by
  refine ⟨?_, List.length_take_le ..⟩
  obtain ⟨rest, rfl⟩ := starts
  rw [List.take_append]
  exact List.prefix_append ..

/-- The message in an inbox was deposited by the operation it names. -/
structure Origin (ex : Exchange) (inbox : Inbox) : Prop where
  caller : inbox.msgOp.caller = inbox.msgFrom
  generation : inbox.msgOp.callerGeneration = inbox.msgFromGeneration
  past : inbox.msgFromGeneration ≤ (ex.views inbox.msgFrom).generation
  sent : ∃ bytes during, .deposited inbox.msgId inbox.msgOp bytes during ∈ ex.log ∧
    bytes <+: inbox.msgData ∧ inbox.msgType = inbox.msgOp.type

/-- `sender` deposited the message that `holder` has, and waits for its ack. -/
structure Custody (ex : Exchange) (holder sender : Nat) : Prop where
  pc : (ex.views sender).pc = .acking (ex.views holder).inbox.msgOp (ex.views holder).inbox.msgId
  dest : (ex.views holder).inbox.msgOp.dest = holder
  destGeneration : (ex.views holder).inbox.msgOp.destGeneration = (ex.views holder).generation
  unacked : (ex.views sender).wait.msgAcked = false
  kept : (ex.views holder).inbox.msgOp.kind ≠ .reply → (ex.views sender).wait.ipcBounced = false

structure Letters (ex : Exchange) : Prop where
  older : ∀ pid op, (ex.views pid).pc.op = some op →
    op.destGeneration ≤ (ex.views op.dest).generation
  dead : ∀ pid op, (ex.views pid).pc.op = some op → (ex.views pid).wait.ipcPeerDied = true →
    (ex.views op.dest).live = true → op.destGeneration < (ex.views op.dest).generation
  origin : ∀ pid, (ex.views pid).inbox.hasMessage = true → Origin ex (ex.views pid).inbox
  custody : ∀ holder sender, (ex.views holder).live = true →
    (ex.views holder).inbox.hasMessage = true → (ex.views holder).inbox.msgFrom = sender →
    (ex.views sender).live = true →
    (ex.views sender).generation = (ex.views holder).inbox.msgFromGeneration →
    Custody ex holder sender
  clean : ∀ pid op, (ex.views pid).pc = .queued op → op.kind ≠ .reply →
    (ex.views pid).wait.ipcBounced = false
  sent : ∀ pid op id, (ex.views pid).pc = .acking op id ∨ (ex.views pid).pc = .awaiting op id →
    ∃ bytes during, .deposited id op bytes during ∈ ex.log
  acked : ∀ pid op id, (ex.views pid).pc = .acking op id → (ex.views pid).wait.msgAcked = true →
    ∃ moment cap handed, .consumed id op op.dest op.destGeneration moment cap handed ∈ ex.log
  done : ∀ op id, .succeeded op id ∈ ex.log → op.kind ≠ .call →
    ∃ moment cap handed, .consumed id op op.dest op.destGeneration moment cap handed ∈ ex.log
  handed : ∀ id op reader generation moment cap handed,
    .consumed id op reader generation moment cap handed ∈ ex.log →
      ∃ bytes during, .deposited id op bytes during ∈ ex.log ∧ Handed bytes cap handed

variable {procsMax pid : Nat} {rules : Rules} {before after : Exchange}

section
variable (deed : Deed procsMax rules before after)
include deed

theorem Deed.grows {event : Event} (past : event ∈ before.log) : event ∈ after.log := by
  cases deed <;> simp_all

theorem Deed.length_le : before.log.length ≤ after.log.length := by
  cases deed <;> simp_all
  omega

/-- `current` has just put the message of `op` into the inbox of its target. -/
structure Delivers (rules : Rules) (before after : Exchange) (current : Nat) (op : Op)
    (bytes : List UInt8) : Prop where
  pc : (before.views current).pc = .queued op
  free : before.available current op.dest
  rule : rules.deposit before current op
  acking : (after.views current).pc = .acking op before.log.length
  unacked : (after.views current).wait.msgAcked = false
  bounced : (after.views current).wait.ipcBounced = (before.views current).wait.ipcBounced
  places : SamePlaces before after
  inbox : (after.views op.dest).inbox = landed (before.views op.dest).inbox current
    (before.views current).generation (before.views current).callSeq op (bytes.take op.len)
    before.log.length
  log : after.log = .deposited before.log.length op (bytes.take op.len)
    (((before.views op.dest).pc.call).map Op.started) :: before.log

/-- A message in an inbox was there before, or it has just been deposited. -/
theorem Deed.inbox (here : (after.views pid).inbox.hasMessage = true) :
    (after.views pid).inbox = (before.views pid).inbox ∨
      ∃ current op bytes, op.dest = pid ∧ Delivers rules before after current op bytes := by
  cases deed with
  | calm views =>
    obtain ⟨pc, owed, same, -⟩ := views pid
    rw [same]
    exact .inl rfl
  | start alive outside empty rule found caller dest begun seq debt views
  | redeliver _ _ _ views =>
    obtain ⟨target, joinedBorn, view⟩ := views pid
    rw [view]
    split
    · next same => subst same; exact .inl rfl
    · exact .inl rfl
  | fail _ _ views =>
    obtain ⟨target, view⟩ := views pid
    grind [View.emptied]
  | evict alive outside full rule views | collect pc full rule views | take alive outside full rule views =>
    grind [View.emptied, View.bounced, View.acked]
  | @deposit current op bytes pc free rule views log =>
    by_cases own : op.dest = pid
    · subst own
      refine .inr ⟨current, op, bytes, rfl, pc, free, rule, ?_, ?_, ?_, fun pid => ?_, ?_, log⟩
      all_goals
        grind
    · left
      rw [views]
      simp only [Ne.symm own]
      split <;> rfl
  | accept pc kind bounced acked views | finish pc kind bounced acked views =>
    rw [views]
    split
    · next same => subst same; exact .inl rfl
    · exact .inl rfl
  | destroy =>
    grind [View.peerDied]
  | create _ _ _ _ _ fresh views =>
    rw [views] at here ⊢
    split at here
    · rw [fresh.2.1] at here
      cases here
    · rw [if_neg ‹_›]
      exact .inl rfl

theorem Deed.generation_le
    (create : ∀ generation, rules.create generation → generationLeft generation) (pid : Nat) :
    (before.views pid).generation ≤ (after.views pid).generation := by
  rcases deed.places with places | ⟨victim, -, -, others⟩ | ⟨slot, -, -, rule, generation, -, others⟩
  · exact Nat.le_of_eq (places pid).2.symm
  · exact Nat.le_of_eq (others pid).1.symm
  · by_cases same : pid = slot
    · have left := create _ rule
      rw [same, generation, Nat.mod_eq_of_lt left]
      omega
    · exact Nat.le_of_eq (congrArg View.generation (others pid same).symm)

end

variable {op : Op}

theorem Letters.older_after (letters : Letters before) (deed : Deed procsMax rules before after)
    (strict : rules.Within sendRules) (inside : (after.views pid).pc.op = some op) :
    op.destGeneration ≤ (after.views op.dest).generation := by
  have later := deed.generation_le strict.create op.dest
  rcases deed.op inside with ⟨old, -⟩ | ⟨⟨-, same⟩, -⟩
  · exact Nat.le_trans (letters.older pid op old) later
  · exact same ▸ later

theorem Letters.dead_after (letters : Letters before) (deed : Deed procsMax rules before after)
    (seats : Seats procsMax before) (strict : rules.Within sendRules)
    (inside : (after.views pid).pc.op = some op) (died : (after.views pid).wait.ipcPeerDied = true)
    (alive : (after.views op.dest).live = true) :
    op.destGeneration < (after.views op.dest).generation := by
  rcases deed.noticed seats inside died with ⟨old, known⟩ | gone
  · have older := letters.older pid op old
    have dead := letters.dead pid op old known
    rcases deed.places with places | ⟨victim, -, gone, others⟩ | ⟨slot, unused, -, rule, generation, -, others⟩
    · rw [(places op.dest).2]
      exact dead ((places op.dest).1 ▸ alive)
    · have survives : op.dest ≠ victim := by
        rintro rfl
        rw [gone] at alive
        cases alive
      rw [(others op.dest).1]
      exact dead (((others op.dest).2 survives).1 ▸ alive)
    · by_cases same : op.dest = slot
      · have left := strict.create _ rule
        rw [same] at older ⊢
        rw [generation, Nat.mod_eq_of_lt left]
        omega
      · rw [others op.dest same] at alive ⊢
        exact dead alive
  · rw [gone] at alive
    cases alive

/-- What was in an inbox still has its origin in the history. -/
theorem Deed.origin (deed : Deed procsMax rules before after) (seats : Seats procsMax before)
    (create : ∀ generation, rules.create generation → generationLeft generation)
    (origin : ∀ pid, (before.views pid).inbox.hasMessage = true →
      Origin before (before.views pid).inbox)
    (full : (after.views pid).inbox.hasMessage = true) : Origin after (after.views pid).inbox := by
  rcases deed.inbox full with same | ⟨current, op, bytes, rfl, delivers⟩
  · rw [same] at full ⊢
    obtain ⟨caller, generation, past, bytes, during, sent, starts⟩ := origin pid full
    exact ⟨caller, generation, Nat.le_trans past (deed.generation_le create _), bytes, during,
      deed.grows sent, starts⟩
  · have own := (seats.seated current).caller op (by rw [delivers.pc]; rfl)
    rw [delivers.inbox]
    refine ⟨own.1, own.2, deed.generation_le create current, bytes.take op.len,
      ((before.views op.dest).pc.call).map Op.started, ?_, List.prefix_append .., rfl⟩
    rw [delivers.log]
    exact List.mem_cons_self

variable {sender holder id : Nat}

theorem Custody.holder_unique {first second : Nat} (custody : Custody before first sender)
    (other : Custody before second sender) : first = second := by
  have same := custody.pc.symm.trans other.pc
  simp only [Pc.acking.injEq] at same
  rw [← custody.dest, ← other.dest, same.1]

/-- What a deed leaves alone stays in custody. -/
theorem Custody.kept_by (custody : Custody before holder sender)
    (inbox : (after.views holder).inbox = (before.views holder).inbox)
    (generation : (after.views holder).generation = (before.views holder).generation)
    (pc : (after.views sender).pc = (before.views sender).pc)
    (acked : (after.views sender).wait.msgAcked = (before.views sender).wait.msgAcked)
    (bounced : (after.views sender).wait.ipcBounced = (before.views sender).wait.ipcBounced) :
    Custody after holder sender := by
  obtain ⟨acking, dest, destGeneration, unacked, unbounced⟩ := custody
  constructor <;> simp only [inbox, generation, pc, acked, bounced] <;> assumption

/-- A message that was in an inbox before the deed was in custody then. -/
theorem Letters.custody_before (letters : Letters before) (deed : Deed procsMax rules before after)
    (strict : rules.Within sendRules)
    (inbox : (after.views holder).inbox = (before.views holder).inbox)
    (alive : (after.views holder).live = true) (full : (after.views holder).inbox.hasMessage = true)
    (present : (after.views (after.views holder).inbox.msgFrom).live = true)
    (same : (after.views (after.views holder).inbox.msgFrom).generation =
      (after.views holder).inbox.msgFromGeneration) :
    Custody before holder (after.views holder).inbox.msgFrom ∧
      (after.views holder).generation = (before.views holder).generation ∧
      (before.views (after.views holder).inbox.msgFrom).generation =
        (before.views holder).inbox.msgFromGeneration := by
  rcases deed.places with places | ⟨victim, -, gone, others⟩ |
    ⟨slot, unused, -, rule, generation, empty, others⟩
  · have old := (places _).2.symm.trans (same.trans (by rw [inbox]))
    exact ⟨letters.custody holder _ ((places holder).1 ▸ alive) (inbox ▸ full) (by rw [inbox])
      ((places _).1 ▸ present) old, (places holder).2, old⟩
  · have survives (pid : Nat) (alive : (after.views pid).live = true) : pid ≠ victim := by
      rintro rfl
      rw [gone] at alive
      cases alive
    have old := (others _).1.symm.trans (same.trans (by rw [inbox]))
    exact ⟨letters.custody holder _ (((others holder).2 (survives _ alive)).1 ▸ alive)
      (inbox ▸ full) (by rw [inbox]) (((others _).2 (survives _ present)).1 ▸ present) old,
      (others holder).1, old⟩
  · have apart : holder ≠ slot := by
      rintro rfl
      rw [empty] at full
      cases full
    have older : (after.views holder).inbox.msgFrom ≠ slot := by
      intro own
      have past := (letters.origin holder (inbox ▸ full)).past
      have left := strict.create _ rule
      rw [← inbox, own] at past
      rw [own, generation, Nat.mod_eq_of_lt left] at same
      omega
    have old := (congrArg View.generation (others _ older)).symm.trans (same.trans (by rw [inbox]))
    rw [others _ older] at present
    rw [others _ apart] at alive
    exact ⟨letters.custody holder _ alive (inbox ▸ full) (by rw [inbox]) present old,
      congrArg View.generation (others holder apart), old⟩

variable (procsMax) in
/-- The sender of one message is not the sender of another. -/
theorem Letters.not_named (letters : Letters before) {current : Nat}
    (custody : Custody before holder sender) (here : (before.views current).live = true)
    (held : (before.views current).inbox.hasMessage = true) (apart : holder ≠ current) :
    ¬ (sender = (before.views current).inbox.msgFrom ∧
      (before.views sender).found procsMax sender = true ∧
      (before.views sender).generation = (before.views current).inbox.msgFromGeneration) := by
  rintro ⟨named, found, generation⟩
  simp only [View.found, Bool.and_eq_true] at found
  exact apart (custody.holder_unique
    (letters.custody current sender here held named.symm found.2 generation))

variable (procsMax) in
theorem Letters.not_acked (letters : Letters before) {current : Nat}
    (custody : Custody before holder sender) (here : (before.views current).live = true)
    (held : (before.views current).inbox.hasMessage = true) (apart : holder ≠ current)
    (rule : acksSender before current) : ¬ (sender = (before.views current).inbox.msgFrom ∧
      (before.views sender).found procsMax sender = true) := by
  rintro ⟨named, found⟩
  by_cases generation : (before.views sender).generation =
      (before.views current).inbox.msgFromGeneration
  · exact letters.not_named procsMax custody here held apart ⟨named, found, generation⟩
  · simp only [View.found, Bool.and_eq_true] at found
    have idle := rule (named ▸ found.2) (named ▸ generation)
    rw [← named, custody.pc] at idle
    cases idle

/-- A sender whose message is in its target's inbox has no reason to give up but a
timeout, and then it takes the message back. -/
theorem Custody.not_failing {pulled : Bool} (custody : Custody before holder sender)
    (letters : Letters before) (seats : Seats procsMax before)
    (alive : (after.views holder).live = true) (full : (after.views holder).inbox.hasMessage = true)
    (msgFrom : (before.views holder).inbox.msgFrom = sender)
    (generation : (before.views sender).generation = (before.views holder).inbox.msgFromGeneration)
    (failing : (before.views sender).pc.op = some op) (reason : before.fails procsMax sender pulled)
    (views : ∀ pid, ∃ target, after.views pid =
      let view := if pulled = true ∧ pid = op.dest ∧
          (before.views pid).inbox.hasMessage = true ∧ (before.views pid).inbox.msgFrom = sender ∧
          (before.views pid).inbox.msgFromGeneration = (before.views sender).generation then
        (before.views pid).emptied else before.views pid
      if pid = sender then { view with
        wait := view.wait.over op.kind
        pc := .user
        target := target }
      else view) : False := by
  obtain ⟨target, view⟩ := views holder
  have dest := custody.dest
  obtain rfl : (before.views holder).inbox.msgOp = op := by
    rw [custody.pc] at failing
    exact Option.some.inj failing
  have here : (before.views holder).live = true := by
    grind [View.emptied]
  rw [Exchange.fails, custody.pc] at reason
  rcases reason with ⟨rfl, -⟩ | ⟨rfl, gone⟩
  · grind [View.emptied]
  · have waits := (seats.seated sender).waits _ failing
    have slot := (seats.seated holder).slot here
    simp only [Exchange.peerGone, waits, dest] at gone
    rcases gone with died | lost | changed
    · have newer := letters.dead sender _ failing died (dest.symm ▸ here)
      rw [dest, custody.destGeneration] at newer
      exact Nat.lt_irrefl _ newer
    · simp [View.found, here, slot] at lost
    · exact changed custody.destGeneration.symm

section
variable (letters : Letters before) (deed : Deed procsMax rules before after)
include letters deed

/-- While its message stays where it is, nothing happens to a waiting sender. -/
theorem Letters.sender_waits (seats : Seats procsMax before) (strict : rules.Within sendRules)
    (custody : Custody before holder sender)
    (alive : (after.views holder).live = true) (full : (after.views holder).inbox.hasMessage = true)
    (msgFrom : (before.views holder).inbox.msgFrom = sender)
    (generation : (before.views sender).generation = (before.views holder).inbox.msgFromGeneration)
    (present : (after.views sender).live = true) :
    (after.views sender).pc = (before.views sender).pc ∧
      (after.views sender).wait.msgAcked = (before.views sender).wait.msgAcked ∧
      (after.views sender).wait.ipcBounced = (before.views sender).wait.ipcBounced := by
  have pc := custody.pc
  have inside : (before.views sender).pc.op = some (before.views holder).inbox.msgOp := by
    rw [pc]
    rfl
  cases deed with
  | calm views =>
    obtain ⟨changed, owed, view, moved, -⟩ := views sender
    grind [Pc.outside]
  | start _ _ _ _ _ _ _ _ _ _ views =>
    obtain ⟨target, joinedBorn, view⟩ := views sender
    grind [Pc.outside]
  | redeliver _ _ _ views =>
    obtain ⟨target, joinedBorn, view⟩ := views sender
    have kept := custody.kept
    grind
  | @fail current _ _ failing reason views =>
    have apart : sender ≠ current := by
      rintro rfl
      exact custody.not_failing letters seats alive full msgFrom generation failing reason views
    obtain ⟨target, view⟩ := views sender
    grind [View.emptied]
  | @evict current here _ held =>
    have apart : holder ≠ current := by
      grind [View.emptied, View.bounced]
    have other := letters.not_named procsMax custody here held apart
    grind [View.emptied]
  | @collect current op _ ending held rule =>
    have apart : holder ≠ current := by
      grind [View.emptied]
    have here := (seats.seated current).alive op (by rw [ending]; rfl)
    have other := letters.not_acked procsMax custody here held apart (strict.take _ _ rule)
    grind
  | @take current _ here _ held rule =>
    have apart : holder ≠ current := by
      grind [View.emptied, View.acked]
    have other := letters.not_acked procsMax custody here held apart (strict.take _ _ rule)
    grind [Pc.outside]
  | deposit =>
    grind
  | accept =>
    have unacked := custody.unacked
    grind
  | finish =>
    have unacked := custody.unacked
    grind
  | destroy =>
    grind [View.peerDied]
  | create =>
    have here := (seats.seated sender).alive _ inside
    grind

theorem Letters.custody_after (seats : Seats procsMax before) (strict : rules.Within sendRules)
    (alive : (after.views holder).live = true) (full : (after.views holder).inbox.hasMessage = true)
    (msgFrom : (after.views holder).inbox.msgFrom = sender)
    (present : (after.views sender).live = true)
    (same : (after.views sender).generation = (after.views holder).inbox.msgFromGeneration) :
    Custody after holder sender := by
  subst msgFrom
  rcases deed.inbox full with inbox | ⟨current, op, bytes, rfl, delivers⟩
  · obtain ⟨custody, generation, named⟩ :=
      letters.custody_before deed strict inbox alive full present same
    obtain ⟨pc, acked, bounced⟩ := letters.sender_waits deed seats strict custody alive full
      (by rw [inbox]) named present
    exact custody.kept_by inbox generation pc acked bounced
  · have from_ : (after.views op.dest).inbox.msgFrom = current := by
      rw [delivers.inbox]
      rfl
    have fields : (after.views op.dest).inbox.msgOp = op ∧
        (after.views op.dest).inbox.msgId = before.log.length := by
      rw [delivers.inbox]
      exact ⟨rfl, rfl⟩
    rw [from_]
    constructor
    · rw [fields.1, fields.2, delivers.acking]
    · rw [fields.1]
    · rw [fields.1, (delivers.places op.dest).2]
      exact (strict.deposit _ _ _ delivers.rule).symm
    · exact delivers.unacked
    · rw [fields.1, delivers.bounced]
      exact letters.clean current op delivers.pc

theorem Letters.clean_after (waiting : (after.views pid).pc = .queued op) (kind : op.kind ≠ .reply) :
    (after.views pid).wait.ipcBounced = false := by
  have clean := letters.clean pid op
  cases deed with
  | calm views | start _ _ _ _ _ _ _ _ _ _ views | redeliver _ _ _ views | fail _ _ views =>
    have view := views pid
    grind [Calm, Pc.outside, View.facing, View.emptied]
  | @evict current here _ held =>
    -- the flag goes to a process that waits for an ack
    have custody := letters.custody current pid here held
    have acking (custody : Custody before current pid) := custody.pc
    grind [View.emptied, View.bounced, View.found]
  | collect ending held rule views | take here outside held rule views
  | deposit bytes queued free rule views | accept acking kind bounced acked views
  | finish acking kind bounced acked views | destroy found views
  | create =>
    grind [View.acked, View.peerDied]

theorem Letters.sent_after (inside : (after.views pid).pc = .acking op id ∨ (after.views pid).pc = .awaiting op id) :
    ∃ bytes during, .deposited id op bytes during ∈ after.log := by
  have old (here : (before.views pid).pc = .acking op id ∨ (before.views pid).pc = .awaiting op id) :
      ∃ bytes during, .deposited id op bytes during ∈ after.log := by
    obtain ⟨bytes, during, past⟩ := letters.sent pid op id here
    exact ⟨bytes, during, deed.grows past⟩
  cases deed with
  | calm views | start _ _ _ _ _ _ _ _ _ _ views | redeliver _ _ _ views | fail _ _ views =>
    have view := views pid
    grind [Calm, Pc.outside, View.emptied]
  | deposit =>
    by_cases own : (before.views pid).pc = .acking op id ∨ (before.views pid).pc = .awaiting op id
    · exact old own
    · grind
  | evict here outside held rule views | collect ending held rule views
  | take here outside held rule views | accept acking kind bounced acked views
  | finish acking kind bounced acked views | destroy found views
  | create =>
    grind [View.emptied, View.acked, View.peerDied, View.bounced]

end
variable (procsMax pid) in
/-- A process that waits for an ack when `current` consumes a message from its slot
is the one whose message it is. -/
theorem Letters.acks (letters : Letters before) {current : Nat} (op : Op) (id : Nat)
    (here : (before.views current).live = true)
    (held : (before.views current).inbox.hasMessage = true) (rule : acksSender before current)
    (named : pid = (before.views current).inbox.msgFrom)
    (found : (before.views pid).found procsMax pid = true)
    (inside : (before.views pid).pc = .acking op id) :
    op = (before.views current).inbox.msgOp ∧ id = (before.views current).inbox.msgId ∧
      op.dest = current ∧ op.destGeneration = (before.views current).generation := by
  simp only [View.found, Bool.and_eq_true] at found
  have generation : (before.views pid).generation = (before.views current).inbox.msgFromGeneration := by
    by_contra changed
    have idle := rule (named ▸ found.2) (named ▸ changed)
    rw [← named, inside] at idle
    cases idle
  have custody := letters.custody current pid here held named.symm found.2 generation
  have same := inside.symm.trans custody.pc
  simp only [Pc.acking.injEq] at same
  rw [same.1]
  exact ⟨rfl, same.2, custody.dest, custody.destGeneration⟩

section
variable (letters : Letters before) (deed : Deed procsMax rules before after)
variable (seats : Seats procsMax before)
include letters deed seats

theorem Letters.acked_after (strict : rules.Within sendRules)
    (inside : (after.views pid).pc = .acking op id) (acked : (after.views pid).wait.msgAcked = true) :
    ∃ moment cap handed, .consumed id op op.dest op.destGeneration moment cap handed ∈ after.log := by
  have old (here : (before.views pid).pc = .acking op id)
      (known : (before.views pid).wait.msgAcked = true) :
      ∃ moment cap handed, .consumed id op op.dest op.destGeneration moment cap handed ∈ after.log := by
    obtain ⟨moment, cap, handed, past⟩ := letters.acked pid op id here known
    exact ⟨moment, cap, handed, deed.grows past⟩
  cases deed with
  | calm views | start _ _ _ _ _ _ _ _ _ _ views | redeliver _ _ _ views | fail _ _ views =>
    have view := views pid
    grind [Calm, Pc.outside, View.emptied]
  | @collect current ended _ ending held rule _ log =>
    have here := (seats.seated current).alive ended (by rw [ending]; rfl)
    have acks := letters.acks procsMax pid op id here held
      (strict.take _ _ rule)
    by_cases now : pid = (before.views current).inbox.msgFrom ∧
        (before.views pid).found procsMax pid = true ∧ (before.views pid).pc = .acking op id
    · obtain ⟨same, number, dest, generation⟩ := acks now.1 now.2.1 now.2.2
      refine ⟨before.log.length, ended.cap, (before.views current).inbox.msgData.take ended.cap, ?_⟩
      rw [log, dest, generation, number, same]
      simp
    · grind [View.acked]
  | @take current len here _ held rule _ log =>
    have acks := letters.acks procsMax pid op id here held
      (strict.take _ _ rule)
    by_cases now : pid = (before.views current).inbox.msgFrom ∧
        (before.views pid).found procsMax pid = true ∧ (before.views pid).pc = .acking op id
    · obtain ⟨same, number, dest, generation⟩ := acks now.1 now.2.1 now.2.2
      refine ⟨before.log.length, copyLen len, (before.views current).inbox.msgData.take (copyLen len), ?_⟩
      rw [log, dest, generation, number, same]
      simp
    · grind [View.acked]
  | evict here outside held rule views | deposit bytes queued free rule views
  | accept acking kind bounced known views | finish acking kind bounced known views
  | destroy found views | create range dead rule alive generation fresh views =>
    grind [View.emptied, View.peerDied, View.bounced]

theorem Letters.done_after (success : .succeeded op id ∈ after.log) (kind : op.kind ≠ .call) :
    ∃ moment cap handed, .consumed id op op.dest op.destGeneration moment cap handed ∈ after.log := by
  have old (past : .succeeded op id ∈ before.log) :
      ∃ moment cap handed, .consumed id op op.dest op.destGeneration moment cap handed ∈ after.log := by
    obtain ⟨moment, cap, handed, known⟩ := letters.done op id past kind
    exact ⟨moment, cap, handed, deed.grows known⟩
  cases deed with
  | @finish current _ _ acking _ _ acked =>
    have known := letters.acked current _ _ acking acked
    grind
  | @collect current _ _ ending =>
    have call := (seats.seated current).awaits _ _ ending
    grind
  | calm | start | deposit | fail | redeliver | accept | evict | take | destroy | create =>
    simp_all

end

/-- A message that has been consumed was in its reader's inbox. -/
theorem Deed.consumed (deed : Deed procsMax rules before after) {reader generation moment cap : Nat}
    {handed : List UInt8} (consumed : .consumed id op reader generation moment cap handed ∈ after.log) :
    .consumed id op reader generation moment cap handed ∈ before.log ∨
      (before.views reader).inbox.hasMessage = true ∧ id = (before.views reader).inbox.msgId ∧
        op = (before.views reader).inbox.msgOp ∧ generation = (before.views reader).generation ∧
        (moment = before.log.length ∧ moment < after.log.length) ∧
        handed = (before.views reader).inbox.msgData.take cap := by
  cases deed with
  | collect ending held rule views log | take here outside held rule views log =>
    rw [log] at consumed ⊢
    simp only [List.mem_cons, reduceCtorEq, false_or] at consumed
    rcases consumed with ⟨rfl, rfl, rfl, rfl, rfl, rfl, rfl⟩ | past
    · exact .inr ⟨held, rfl, rfl, rfl, ⟨rfl, by simp only [List.length_cons]; omega⟩, rfl⟩
    · exact .inl past
  | calm | start | deposit | fail | redeliver | accept | evict | finish | destroy | create =>
    simp_all

theorem Deed.handed (deed : Deed procsMax rules before after)
    (origin : ∀ pid, (before.views pid).inbox.hasMessage = true →
      Origin before (before.views pid).inbox)
    (history : ∀ id op reader generation moment cap handed,
      .consumed id op reader generation moment cap handed ∈ before.log →
        ∃ bytes during, .deposited id op bytes during ∈ before.log ∧ Handed bytes cap handed)
    {reader generation moment cap : Nat} {handed : List UInt8}
    (consumed : .consumed id op reader generation moment cap handed ∈ after.log) :
    ∃ bytes during, .deposited id op bytes during ∈ after.log ∧ Handed bytes cap handed := by
  rcases deed.consumed consumed with past | ⟨held, rfl, rfl, -, -, rfl⟩
  · obtain ⟨bytes, during, known, prefixes⟩ := history _ _ _ _ _ _ _ past
    exact ⟨bytes, during, deed.grows known, prefixes⟩
  · obtain ⟨-, -, -, bytes, during, sent, starts, -⟩ := origin reader held
    exact ⟨bytes, during, deed.grows sent, .of_starts starts⟩

theorem Letters.next (letters : Letters before) (deed : Deed procsMax rules before after)
    (seats : Seats procsMax before) (strict : rules.Within sendRules) : Letters after where
  older _ _ inside := letters.older_after deed strict inside
  dead _ _ inside died alive := letters.dead_after deed seats strict inside died alive
  origin _ full := deed.origin seats strict.create letters.origin full
  custody _ _ alive full msgFrom present same :=
    letters.custody_after deed seats strict alive full msgFrom present same
  clean _ _ queued kind := letters.clean_after deed queued kind
  sent _ _ _ inside := letters.sent_after deed inside
  acked _ _ _ inside acked := letters.acked_after deed seats strict inside acked
  done _ _ ended kind := letters.done_after deed seats ended kind
  handed _ _ _ _ _ _ _ consumed := deed.handed letters.origin letters.handed consumed

theorem boot_letters : Letters boot.exchange := by
  constructor <;> simp [Kernel.exchange, Kernel.views, Process.view, boot, Pc.op]

theorem deeds_letters (strict : rules.Within sendRules)
    (deeds : Relation.ReflTransGen (Deed procsMax rules) boot.exchange after) :
    Seats procsMax after ∧ Letters after := by
  induction deeds with
  | refl => exact ⟨boot_seats, boot_letters⟩
  | tail _ deed ih => exact ⟨deed.seats ih.1, ih.2.next deed ih.1 strict⟩

/-- A send that returns 0 does so because the instance it was sent to has consumed
the very message this send deposited. -/
theorem send_acked {kernel : Kernel} {op : Op} {id : Nat}
    (run : Run.Reach (step procsMax) (Fair sendRules procsMax) boot kernel)
    (kind : op.kind = .send) (returned : .succeeded op id ∈ kernel.log) :
    ∃ bytes during moment cap handed, .deposited id op bytes during ∈ kernel.log ∧
      .consumed id op op.dest op.destGeneration moment cap handed ∈ kernel.log ∧
      Handed bytes cap handed := by
  obtain ⟨-, letters⟩ := deeds_letters (.refl sendRules) (run_deeds run).2
  obtain ⟨moment, cap, handed, consumed⟩ := letters.done op id returned (by simp [kind])
  obtain ⟨bytes, during, deposited, same⟩ := letters.handed _ _ _ _ _ _ _ consumed
  exact ⟨bytes, during, moment, cap, handed, deposited, consumed, same⟩

/-- Process 2 sends three bytes to process 3, which reads them. -/
def delivered : Kernel :=
  Run.outcome (step 64) (Fair sendRules 64) boot [.create, .create, .create, .send 2 3 7 3 true,
    .run [1, 2, 3], .run [], .recv 3 16 true, .run [], .schedule 2, .run []]

def greeting : Op := ⟨3, .send, 2, 1, 3, 1, 7, 3, 0, 0, 0⟩

theorem send_acked_delivered : greeting.kind = .send ∧ .succeeded greeting 4 ∈ delivered.log ∧
    ∃ bytes during moment cap handed, .deposited 4 greeting bytes during ∈ delivered.log ∧
      .consumed 4 greeting greeting.dest greeting.destGeneration moment cap handed ∈ delivered.log ∧
      Handed bytes cap handed :=
  ⟨rfl, by decide, send_acked (Run.outcome_reach _ _ (by decide)) rfl (by decide)⟩

/-- Process 3 sends to process 2 and is killed; the new process in its slot sends to
process 4. When process 2 reads the dead process's message, it acks the new one. -/
def misdirected : Kernel :=
  Run.outcome (step 64) (fun _ _ => True) boot [.create, .create, .create, .create,
    .send 3 2 7 1 true, .run [1], .run [], .destroy 3, .create,
    .send 3 4 9 1 true, .run [5], .run [], .recv 2 16 true, .run [], .schedule 3, .run []]

def unread : Op := ⟨7, .send, 3, 2, 4, 1, 9, 1, 0, 0, 0⟩

theorem send_acked_for_another : Run.Reach (step 64) (fun _ _ => True) boot misdirected ∧
    unread.kind = .send ∧ .succeeded unread 8 ∈ misdirected.log ∧
    ∀ reader generation moment cap handed,
      .consumed 8 unread reader generation moment cap handed ∉ misdirected.log := by
  have log : misdirected.log = .succeeded unread 8 ::
      .consumed 5 ⟨4, .send, 3, 1, 2, 1, 7, 1, 0, 0, 0⟩ 2 1 9 16 [1] ::
      .deposited 8 unread [5] none :: .enqueued unread :: .created 3 ::
      .deposited 5 ⟨4, .send, 3, 1, 2, 1, 7, 1, 0, 0, 0⟩ [1] none ::
      .enqueued ⟨4, .send, 3, 1, 2, 1, 7, 1, 0, 0, 0⟩ ::
      [.created 4, .created 3, .created 2, .created 1] := by
    decide
  refine ⟨Run.outcome_reach _ _ (by decide), rfl, ?_, ?_⟩ <;> simp [log]

end Racccoon.Ipc
