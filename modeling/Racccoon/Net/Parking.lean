import Racccoon.Net.Tables

/-!
Reads of `/net` that find nothing are parked (`Pend` in `user/net/ipd_conv.c3`) and answered
later, while their callers may die, be interrupted or give up. The kernel's part is a reply
as ipd sees it: to which process it goes, and to which call of that process.

A `Caller` names the call that a request is, and the log says what became of every answer:
the source keeps neither. The values of the answers to requests that are not reads of `data`
or `listen` are left out but for success and failure.
-/

namespace Racccoon.Net.Parked

open Racccoon.Tcp (Byte Segment Seq tcpRead netRetry)

def pendMax : Nat := 32
def dgramN : Nat := 8
def dgramBytes : Nat := 1480
def fsMsgMax : Nat := 8192
def pendWaitMs : Nat := 1000

/-- `call` is the call to ipd that the process waits in. -/
structure Proc where
  gen : Nat
  uid : Nat
  call : Option Nat
  deriving DecidableEq

/-- A call, and the process that made it. -/
structure Caller where
  pid : Nat
  gen : Nat
  call : Nat
  deriving DecidableEq

/-- Requests whose path was parsed; `text` is one that moves no conversation. -/
inductive Body where
  | read (proto : Proto) (ci max : Nat)
  | listen (ci : Nat)
  | clone (proto : Proto)
  | ctl (proto : Proto) (ci : Nat) (command : Command)
  | headers (proto : Proto) (ci : Nat)
  | write (ci : Nat) (data : List Byte)
  | text

structure Mail where
  caller : Caller
  body : Body

inductive PendKind where
  | data | listen
  deriving DecidableEq

/-- The caller's pid is `from`; `gen` is what `proc_info` said of it. -/
structure Pend where
  kind : PendKind
  caller : Caller
  gen : Nat
  conv : Nat
  maxlen : Nat
  deadline : Nat

structure Dgram where
  addr : Nat
  port : Nat
  data : List Byte
  deriving DecidableEq

/-- What was taken out of a queue for an answer. -/
inductive Taken where
  | nothing
  | bytes (data : List Byte)
  | datagram (dgram : Dgram)
  | connection (nc : Nat)
  deriving DecidableEq

/-- The process that a reply was left with, and the call it waited in. -/
structure Receiver where
  pid : Nat
  gen : Nat
  call : Option Nat
  deriving DecidableEq

/-- `waited`: the caller was still in its call. -/
structure Answer where
  caller : Caller
  value : Int
  taken : Taken
  waited : Bool
  reached : Option Receiver
  deriving DecidableEq

/-- Processes and requests, as opposed to what there is to read. `gens` and `asked` count
the generations and the calls, `heard` are the requests that ipd received. -/
structure Books where
  procs : Nat → Option Proc
  gens : Nat
  asked : Nat
  mail : List Mail
  owed : Option Caller
  slots : Nat → Option Pend
  heard : List Caller
  log : List Answer

structure Stock where
  tables : Tables
  grams : Nat → List Dgram
  headers : Nat → Bool

structure Daemon where
  now : Nat
  stock : Stock
  books : Books

namespace Books

variable (b : Books)

def procInfo : Procs := fun pid => (b.procs pid).map fun p => (p.gen, p.uid)

def Waits (caller : Caller) : Prop :=
  ∃ p ∈ b.procs caller.pid, p.gen = caller.gen ∧ p.call = some caller.call

instance (caller : Caller) : Decidable (b.Waits caller) :=
  inferInstanceAs (Decidable (∃ p ∈ b.procs caller.pid, _))

def settles (dest : Nat) (p : Proc) : Option Caller :=
  b.owed.filter fun owed => owed.pid = dest && owed.gen = p.gen

/-- Whom `sys_ipc_reply` leaves a reply with; any generation will do for 0. -/
def target (dest gen : Nat) : Option Receiver :=
  match b.procs dest with
  | none => none
  | some p =>
    if gen ≠ 0 ∧ p.gen ≠ gen then none
    else if (b.settles dest p).any fun owed => p.call ≠ some owed.call then none
    else some ⟨dest, p.gen, p.call⟩

/-- `reply_int` -/
def replyInt (caller : Caller) (gen : Nat) (value : Int) (taken : Taken) : Books :=
  let reached := b.target caller.pid gen
  { b with
    owed := b.owed.filter fun owed => (b.procs caller.pid).all fun p =>
      (gen ≠ 0 && p.gen ≠ gen) || !(owed.pid = caller.pid && owed.gen = p.gen)
    procs :=
      if reached.isSome then
        Function.update b.procs caller.pid
          ((b.procs caller.pid).map fun p => { p with call := none })
      else b.procs
    log := b.log ++ [⟨caller, value, taken, b.Waits caller, reached⟩] }

def freeSlot : Option Nat :=
  (List.range pendMax).find? fun i => (b.slots i).isNone

def setSlot (i : Nat) (pend : Option Pend) : Books :=
  { b with slots := Function.update b.slots i pend }

/-- `pend_add` -/
def pendAdd (pend : Pend) : Books :=
  match b.freeSlot with
  | some i => b.setSlot i (some pend)
  | none => b.replyInt pend.caller pend.gen netRetry .nothing

def dropAt (conv : Nat) (b : Books) (i : Nat) : Books :=
  match b.slots i with
  | some pend =>
    if pend.conv = conv then
      (b.setSlot i none).replyInt pend.caller pend.gen
        (if pend.kind = .data then 0 else -1) .nothing
    else b
  | none => b

/-- `pend_drop_conv` -/
def pendDropConv (conv : Nat) : Books :=
  (List.range pendMax).foldl (dropAt conv) b

end Books

namespace Stock

def takenBytes : List Byte → Taken
  | [] => .nothing
  | data => .bytes data

variable (s : Stock)

/-- `conv_read_now` -/
def convReadNow (ci maxlen : Nat) : Int × Taken × Stock :=
  let maxlen := min maxlen (fsMsgMax - 4)
  let conv := s.tables.convs ci
  match conv.proto, conv.tcb with
  | .tcp, none => (if conv.state = .closed then 0 else -1, .nothing, s)
  | .tcp, some ti =>
    let result := tcpRead (viewed s.tables ti) maxlen
    (result.1, takenBytes result.2.1,
      { s with tables := onBlock s.tables ti fun t => (tcpRead t maxlen).2.2 })
  | _, _ =>
    match s.grams ci with
    | [] => (netRetry, .nothing, s)
    | dgram :: rest =>
      let head := if s.headers ci then 6 else 0
      let n := if dgram.data.length + head > maxlen then maxlen - head
        else dgram.data.length
      (n + head, .datagram dgram, { s with grams := Function.update s.grams ci rest })

/-- `tcp_accept` and its result. -/
def acceptNow (procs : Procs) (ci pid : Nat) : Int × Taken × Stock :=
  match listensOn s.tables ci with
  | none => (-1, .nothing, s)
  | some _ =>
    let accepted := tcpAccept s.tables procs ci pid
    match accepted.1 with
    | some nc => (nc, .connection nc, { s with tables := accepted.2 })
    | none => (netRetry, .nothing, { s with tables := accepted.2 })

def readNow (procs : Procs) (pend : Pend) : Int × Taken × Stock :=
  match pend.kind with
  | .data => s.convReadNow pend.conv pend.maxlen
  | .listen => s.acceptNow procs pend.conv pend.caller.pid

/-- A conversation that `conv_alloc` gave out has no datagrams and no headers. -/
def withTables (tables : Tables) : Stock where
  tables := tables
  grams ci := if (tables.convs ci).born = (s.tables.convs ci).born then s.grams ci else []
  headers ci := (tables.convs ci).born = (s.tables.convs ci).born && s.headers ci

/-- `dgram_push` -/
def dgramPush (ci : Nat) (dgram : Dgram) : Stock :=
  if (s.grams ci).length ≥ dgramN then s
  else
    let kept := { dgram with data := dgram.data.take dgramBytes }
    { s with grams := Function.update s.grams ci (s.grams ci ++ [kept]) }

end Stock

def replyValue (kind : PendKind) (result : Int) : Int :=
  match kind with
  | .data => result
  | .listen => if result < 0 then result else (toString result.toNat).length + 1

/-- The conversations that `conv_free` freed on the way from one table to the next. -/
def freedBy (before after : Tables) : List Nat :=
  (List.range convMax).filter fun ci =>
    (before.convs ci).state ≠ .free && (after.convs ci).state = .free

section Clock
variable (hz : Nat)

namespace Daemon

variable (s : Daemon)

def moveTables (tables : Tables) : Daemon :=
  { s with
    stock := s.stock.withTables tables
    books := (freedBy s.stock.tables tables).foldl Books.pendDropConv s.books }

/-- A round of `pend_service`. -/
def serviceAt (i : Nat) : Daemon :=
  match s.books.slots i with
  | none => s
  | some pend =>
    let (result, taken, stock) := s.stock.readNow s.books.procInfo pend
    if result = netRetry ∧ s.now < pend.deadline then { s with stock := stock }
    else
      { s with
        stock := stock
        books := (s.books.setSlot i none).replyInt pend.caller pend.gen
          (replyValue pend.kind result) taken }

/-- A read that may be parked. -/
def serveRead (pend : Pend) : Daemon :=
  let (result, taken, stock) := s.stock.readNow s.books.procInfo pend
  if result = netRetry then { s with stock := stock, books := s.books.pendAdd pend }
  else
    { s with
      stock := stock
      books := s.books.replyInt pend.caller pend.gen (replyValue pend.kind result) taken }

def reply (caller : Caller) (gen : Nat) (value : Int) : Daemon :=
  { s with books := s.books.replyInt caller gen value .nothing }

/-- A request that is not a read of `data` or `listen`, with what it makes of the tables. -/
def serveOther (caller : Caller) (gen : Nat) (request : Request) : Daemon :=
  match serve hz s.stock.tables s.now s.books.procInfo caller.pid request with
  | none => s.reply caller gen (-1)
  | some tables => (s.moveTables tables).reply caller gen 0

def pendOf (kind : PendKind) (caller : Caller) (gen conv maxlen : Nat) : Pend where
  kind := kind
  caller := caller
  gen := gen
  conv := conv
  maxlen := maxlen
  deadline := s.now + Tcp.msTicks hz pendWaitMs

/-- `net_serve_one`, once the message is taken. -/
def serveMail (mail : Mail) : Daemon :=
  let caller := mail.caller
  let gen := (identity s.books.procInfo caller.pid).1
  let allowed := mayUse s.stock.tables s.books.procInfo caller.pid
  match mail.body with
  | .read proto ci max =>
    if allowed proto ci then s.serveRead (s.pendOf hz .data caller gen ci max)
    else s.reply caller gen (-1)
  | .listen ci =>
    if allowed .tcp ci then s.serveRead (s.pendOf hz .listen caller gen ci 0)
    else s.reply caller gen (-1)
  | .clone proto => s.serveOther hz caller gen (.clone proto)
  | .ctl proto ci command => s.serveOther hz caller gen (.ctl proto ci command)
  | .write ci data => s.serveOther hz caller gen (.write ci data)
  | .headers proto ci =>
    if allowed proto ci then
      let stock := { s.stock with headers := Function.update s.stock.headers ci true }
      { s with stock := stock }.reply caller gen 0
    else s.reply caller gen (-1)
  | .text => s.reply caller gen 0

/-- `ipc_poll_type` takes a message, and a reply to its call is owed. -/
def taken (mail : Mail) (rest : List Mail) : Daemon :=
  { s with
    books := { s.books with
      mail := rest
      owed := some mail.caller
      heard := s.books.heard ++ [mail.caller] } }

end Daemon

/-- `stop` ends a call without an answer, `withdrawn` if its message was not delivered yet. -/
inductive Event where
  | spawn (pid uid : Nat)
  | exit (pid : Nat) (withdrawn : Bool)
  | call (pid : Nat) (body : Body)
  | stop (pid : Nat) (withdrawn : Bool)
  | clock (now : Nat)
  | poll
  | service (i : Nat)
  | datagram (ci : Nat) (dgram : Dgram)
  | segment (route : Route) (seg : Segment) (iss : Seq)
  | timers
  | reap

namespace Books

variable (b : Books)
variable (pid : Nat) (withdrawn : Bool)

def withdraw : List Mail :=
  if withdrawn then b.mail.filter fun mail => mail.caller.pid ≠ pid else b.mail

def setProc (p : Option Proc) : Books :=
  { b with procs := Function.update b.procs pid p }

def spawn (pid uid : Nat) : Option Books :=
  match b.procs pid with
  | some _ => none
  | none => some { b.setProc pid (some ⟨b.gens + 1, uid, none⟩) with gens := b.gens + 1 }

def exit : Books :=
  { b.setProc pid none with mail := b.withdraw pid withdrawn }

def stop : Option Books :=
  (b.procs pid).map fun p =>
    { b.setProc pid (some { p with call := none }) with mail := b.withdraw pid withdrawn }

/-- A process that waits in no call makes one. -/
def call (body : Body) : Option Books :=
  match b.procs pid with
  | some ⟨gen, uid, none⟩ =>
    some { b.setProc pid (some ⟨gen, uid, some b.asked⟩) with
      asked := b.asked + 1
      mail := b.mail ++ [⟨⟨pid, gen, b.asked⟩, body⟩] }
  | _ => none

end Books

/-- The part of ipd's own work on the tables that no request asks for. -/
def tableEvent : Event → Option Net.Event
  | .segment route seg iss => some (.segment route seg iss)
  | .timers => some .timers
  | .reap => some .reap
  | _ => none

def step (s : Daemon) (event : Event) : Option Daemon :=
  match event with
  | .spawn pid uid => (s.books.spawn pid uid).map fun books => { s with books := books }
  | .exit pid withdrawn => some { s with books := s.books.exit pid withdrawn }
  | .call pid body => (s.books.call pid body).map fun books => { s with books := books }
  | .stop pid withdrawn => (s.books.stop pid withdrawn).map fun books => { s with books := books }
  | .clock now => if s.now ≤ now then some { s with now := now } else none
  | .poll =>
    match s.books.mail with
    | [] => none
    | mail :: rest => some ((s.taken mail rest).serveMail hz mail)
  | .service i => if i < pendMax then some (s.serviceAt i) else none
  | .datagram ci dgram =>
    if ci < convMax ∧ (s.stock.tables.convs ci).state ≠ .free ∧
        (s.stock.tables.convs ci).proto ≠ .tcp then
      some { s with stock := s.stock.dgramPush ci dgram }
    else none
  | .segment .. | .timers | .reap =>
    ((tableEvent event).bind fun event =>
      Net.step hz s.stock.tables ⟨s.now, s.books.procInfo, event⟩).map s.moveTables

def started : Daemon where
  now := 0
  stock := ⟨booted hz, fun _ => [], fun _ => false⟩
  books := ⟨fun _ => none, 0, 0, [], none, fun _ => none, [], []⟩

end Clock

end Racccoon.Net.Parked
