import Racccoon.Lib.Run
import Racccoon.Tcp.Model

/-!
The conversations of ipd (`user/net/ipd_conv.c3`) and its TCP control blocks
(`user/net/ipd_tcp.c3`), both fixed tables, under file requests of any processes, arriving
segments, timers and the deaths of owners. What happens inside one control block is
`Racccoon.Tcp`. The datagram queues, the packet counters and the texts of the files are left
out, and so are parked requests, but for what an answer to one does here.

Besides the tables there is what the source does not keep: which allocation of its number a
conversation is, which listener it was made for and whether an accept returned it.
-/

namespace Racccoon.Net

open Racccoon.Tcp (Tcb Seq Segment Byte ConvState tcpAbort tcpConnect tcpListen tcpShutdown
  inputListen tcpInput tcpTimers tcpRead tcpWrite tcbAlloc)

def convMax : Nat := 32
def tcbMax : Nat := 32
def acceptQ : Nat := 8

inductive Proto where
  | udp | tcp | icmp
  deriving DecidableEq

inductive ConvStatus where
  | free | opened | connected | announced | closed | reset
  deriving DecidableEq

/-- `born` numbers the allocations, `origin` is that of the listener's conversation. -/
structure Conv where
  state : ConvStatus
  proto : Proto
  ownerPid : Nat
  ownerGen : Nat
  ownerUid : Nat
  laddr : Nat
  lport : Nat
  raddr : Nat
  rport : Nat
  tcb : Option Nat
  born : Nat
  origin : Option Nat
  handed : Bool

/-- `conv` is `none` once the conversation hung up. -/
structure Block where
  tcb : Tcb
  conv : Option Nat
  listener : Option Nat
  laddr : Nat
  lport : Nat
  raddr : Nat
  rport : Nat
  accepted : Bool
  aq : List Nat

structure Tables where
  convs : Nat → Conv
  blocks : Nat → Block
  nextPort : Nat
  births : Nat

/-- What `proc_info` finds for a pid: its generation and uid. -/
abbrev Procs := Nat → Option (Nat × Nat)

/-- The locals that `proc_info` leaves as they are for a process that is gone. -/
def identity (procs : Procs) (pid : Nat) : Nat × Nat := (procs pid).getD (0, 0)

namespace Tables

def setConv (s : Tables) (ci : Nat) (conv : Conv) : Tables :=
  { s with convs := Function.update s.convs ci conv }

def setBlock (s : Tables) (ti : Nat) (block : Block) : Tables :=
  { s with blocks := Function.update s.blocks ti block }

end Tables

variable (s : Tables)

def freeConv : Option Nat :=
  (List.range convMax).find? fun ci => (s.convs ci).state = .free

/-- `conv_alloc` -/
def convAlloc (procs : Procs) (proto : Proto) (pid : Nat) : Option (Nat × Tables) :=
  (freeConv s).map fun ci =>
    let (gen, uid) := identity procs pid
    (ci, { s.setConv ci ⟨.opened, proto, pid, gen, uid, 0, 0, 0, 0, none, s.births, none, false⟩
      with births := s.births + 1 })

def portInUse (proto : Proto) (port : Nat) : Bool :=
  (List.range convMax).any fun ci =>
    (s.convs ci).state ≠ .free && (s.convs ci).proto = proto && (s.convs ci).lport = port

/-- The loop of `ephemeral_port`: the port, 0 without one, and the next one to try. -/
def ephemeralFrom (s : Tables) (proto : Proto) : Nat → Nat → Nat × Nat
  | 0, next => (0, next)
  | tries + 1, next =>
    let after := if next ≥ 65535 then 49152 else next + 1
    if portInUse s proto next then ephemeralFrom s proto tries after else (next, after)

def ephemeralTries : Nat := 16384

def ephemeralPort (proto : Proto) : Nat × Nat :=
  ephemeralFrom s proto ephemeralTries s.nextPort

def freeBlock : Option Nat :=
  (List.range tcbMax).find? fun ti => !(s.blocks ti).tcb.used

/-- The state of a conversation, for the block that serves it. -/
def ConvStatus.seen : ConvStatus → ConvState
  | .announced => .announced
  | .closed => .closed
  | .reset => .reset
  | _ => .connected

def statusOf : ConvState → ConvStatus
  | .announced => .announced
  | .connected => .connected
  | .closed => .closed
  | .reset => .reset

/-- The block as a connection of its own. -/
def viewed (ti : Nat) : Tcb :=
  { (s.blocks ti).tcb with
    conv := (s.blocks ti).conv.isSome
    convState :=
      match (s.blocks ti).conv with
      | some ci => (s.convs ci).state.seen
      | none => .closed }

/-- A step of one control block. Its conversation hears that it closed or was reset, and
loses the block if that is freed. -/
def onBlock (ti : Nat) (f : Tcb → Tcb) : Tables :=
  let block := s.blocks ti
  let before := viewed s ti
  let after := f before
  let stepped := s.setBlock ti { block with tcb := after }
  match block.conv with
  | none => stepped
  | some ci =>
    let conv := s.convs ci
    stepped.setConv ci { conv with
      state := if after.convState = before.convState then conv.state
        else statusOf after.convState
      tcb := if !after.used ∧ conv.tcb = some ti then none else conv.tcb }

/-- `conv_free`, with `tcp_abort` -/
def convFree (now ci : Nat) : Tables :=
  let conv := s.convs ci
  let aborted :=
    match conv.proto, conv.tcb with
    | .tcp, some ti =>
      s.setBlock ti { s.blocks ti with tcb := tcpAbort now (viewed s ti), conv := none }
    | _, _ => s
  aborted.setConv ci { conv with tcb := none, state := .free }

section Clock
variable (hz : Nat)
variable (s : Tables)

/-- `tcp_connect` -/
def connectBlock (now ci : Nat) (iss : Seq) : Tables :=
  let conv := s.convs ci
  if conv.tcb.isSome then s
  else
    match freeBlock s with
    | none => s
    | some ti =>
      (s.setBlock ti {
        tcb := tcpConnect hz now (s.blocks ti).tcb.rbuf iss
        conv := some ci
        listener := none
        laddr := conv.laddr
        lport := conv.lport
        raddr := conv.raddr
        rport := conv.rport
        accepted := false
        aq := [] }).setConv ci { conv with tcb := some ti, state := .connected }

/-- `tcp_listen` -/
def listenBlock (ci : Nat) : Tables :=
  let conv := s.convs ci
  if conv.tcb.isSome then s
  else
    match freeBlock s with
    | none => s
    | some ti =>
      (s.setBlock ti {
        tcb := tcpListen hz (s.blocks ti).tcb.rbuf
        conv := some ci
        listener := none
        laddr := 0
        lport := conv.lport
        raddr := 0
        rport := 0
        accepted := false
        aq := [] }).setConv ci { conv with tcb := some ti }

/-- The commands whose text was parsed; `source` is what `source_for` finds for the peer. -/
inductive Command where
  | connect (ip port source : Nat) (iss : Seq)
  | bind (port : Nat)
  | announce (port : Nat)
  | close
  | hangup
  | own
  deriving DecidableEq

/-- `connect`, before the protocol's part. -/
def targeted (ci ip port source : Nat) : Tables :=
  let conv := s.convs ci
  let ports := if conv.proto ≠ .icmp ∧ conv.lport = 0 then ephemeralPort s conv.proto
    else (conv.lport, s.nextPort)
  { s.setConv ci { conv with raddr := ip, rport := port, laddr := source, lport := ports.1 }
    with nextPort := ports.2 }

def validPort (port : Nat) : Bool := port ≠ 0 && port ≤ 65535

/-- `announce` and `bind`, up to the listening. -/
def named (ci port : Nat) : Option Tables :=
  let conv := s.convs ci
  if !validPort port || portInUse s conv.proto port && conv.lport ≠ port then none
  else some (s.setConv ci { conv with lport := port })

variable (now : Nat) (procs : Procs)

/-- `conv_ctl`, and `own` -/
def convCtl (caller ci : Nat) : Command → Tables
  | .connect ip port source iss =>
    if (s.convs ci).proto ≠ .icmp ∧ !validPort port then s
    else
      let s := targeted s ci ip port source
      if (s.convs ci).proto = .tcp then connectBlock hz s now ci iss
      else s.setConv ci { s.convs ci with state := .connected }
  | .bind port => (named s ci port).getD s
  | .announce port =>
    match named s ci port with
    | none => s
    | some s =>
      let s := s.setConv ci { s.convs ci with state := .announced }
      if (s.convs ci).proto = .tcp then listenBlock hz s ci else s
  | .close =>
    match (s.convs ci).proto, (s.convs ci).tcb with
    | .tcp, some ti => onBlock s ti (tcpShutdown now)
    | _, _ => s
  | .hangup => convFree s now ci
  | .own =>
    let (gen, uid) := identity procs caller
    s.setConv ci { s.convs ci with ownerPid := caller, ownerGen := gen, ownerUid := uid }

/-- The loop over the accept queue: what stays in it, and the first conversation that is
ready. One without a control block is dropped on the way. -/
def scanQueue (s : Tables) : List Nat → List Nat × Option Nat
  | [] => ([], none)
  | ci :: rest =>
    match (s.convs ci).state, (s.convs ci).tcb with
    | .free, _ | _, none => scanQueue s rest
    | _, some ti =>
      if (s.blocks ti).tcb.state = .synRcvd then
        let later := scanQueue s rest
        (ci :: later.1, later.2)
      else (rest, some ci)

def listensOn (ci : Nat) : Option Nat :=
  (s.convs ci).tcb.filter fun ti => (s.blocks ti).tcb.state = .listen

/-- The conversation taken out of the queue goes to `pid`. -/
def handOver (nc pid : Nat) : Tables :=
  let conv := s.convs nc
  let (gen, uid) := identity procs pid
  let owned := s.setConv nc
    { conv with ownerPid := pid, ownerGen := gen, ownerUid := uid, handed := true }
  match conv.tcb with
  | some ti => owned.setBlock ti { owned.blocks ti with accepted := true }
  | none => owned

def setQueue (li : Nat) (queue : List Nat) : Tables :=
  s.setBlock li { s.blocks li with aq := queue }

/-- `tcp_accept`, and the conversation it returns. -/
def tcpAccept (ci pid : Nat) : Option Nat × Tables :=
  match listensOn s ci with
  | none => (none, s)
  | some li =>
    let scanned := scanQueue s (s.blocks li).aq
    let popped := setQueue s li scanned.1
    match scanned.2 with
    | none => (none, popped)
    | some nc => (nc, handOver popped procs nc pid)

/-- The addresses and ports of a segment. -/
structure Route where
  src : Nat
  dst : Nat
  sport : Nat
  dport : Nat
  deriving DecidableEq

def Block.live (block : Block) : Bool :=
  block.tcb.used && block.tcb.state ≠ .listen && block.tcb.state ≠ .closed

def Block.listens (block : Block) : Bool := block.tcb.used && block.tcb.state = .listen

def Block.takes (block : Block) (route : Route) : Bool :=
  block.live && block.lport = route.dport && block.rport = route.sport &&
    block.raddr = route.src && (block.laddr = route.dst || block.laddr = 0)

/-- `tcb_lookup` -/
def tcbLookup (route : Route) : Option Nat :=
  ((List.range tcbMax).find? fun ti => (s.blocks ti).takes route).or
    ((List.range tcbMax).find? fun ti =>
      (s.blocks ti).listens && (s.blocks ti).lport = route.dport)

/-- A SYN that reached the listener `li`. -/
def synInput (li : Nat) (route : Route) (seg : Segment) (iss : Seq) : Tables :=
  let listener := s.blocks li
  if seg.flags.rst ∨ seg.flags.ack ∨ !seg.flags.syn ∨ listener.aq.length ≥ acceptQ then s
  else
    match listener.conv with
    | none => s
    | some lconv =>
      match convAlloc s procs .tcp (s.convs lconv).ownerPid with
      | none => s
      | some (ci, grown) =>
        match freeBlock grown with
        | none => grown.setConv ci { grown.convs ci with state := .free }
        | some ni =>
          let made := grown.setConv ci { grown.convs ci with
            ownerUid := (s.convs lconv).ownerUid
            state := .connected
            tcb := some ni
            laddr := route.dst
            lport := route.dport
            raddr := route.src
            rport := route.sport
            origin := some (s.convs lconv).born }
          let built := made.setBlock ni {
            tcb := inputListen hz now (s.blocks ni).tcb.rbuf iss seg
            conv := some ci
            listener := some lconv
            laddr := route.dst
            lport := route.dport
            raddr := route.src
            rport := route.sport
            accepted := false
            aq := [] }
          setQueue built li ((built.blocks li).aq ++ [ci])

def segmentInput (route : Route) (seg : Segment) (iss : Seq) : Tables :=
  match tcbLookup s route with
  | none => s
  | some ti =>
    if (s.blocks ti).tcb.state = .listen then synInput hz s now procs ti route seg iss
    else onBlock s ti fun t => tcpInput hz now t seg

def timerAt (s : Tables) (ti : Nat) : Tables :=
  if (s.blocks ti).tcb.used then onBlock s ti (tcpTimers hz now) else s

def timers : Tables :=
  (List.range tcbMax).foldl (timerAt hz now) s

def orphaned (conv : Conv) : Bool :=
  conv.state ≠ .free && conv.ownerPid ≠ 0 &&
    (procs conv.ownerPid).all fun (gen, _) => gen ≠ conv.ownerGen

def reapAt (s : Tables) (ci : Nat) : Tables :=
  if orphaned procs (s.convs ci) then convFree s now ci else s

/-- `conv_reap_dead_owners` -/
def reapDeadOwners : Tables :=
  (List.range convMax).foldl (reapAt now procs) s

/-- The file requests that move the tables: a read of `clone` or `listen`, a write of `ctl`,
and reads and writes of `data`. -/
inductive Request where
  | clone (proto : Proto)
  | ctl (proto : Proto) (ci : Nat) (command : Command)
  | listen (ci : Nat)
  | read (ci max : Nat)
  | write (ci : Nat) (data : List Byte)
  deriving DecidableEq

/-- `parkedListen` and `parkedRead` are rounds of `pend_service`. -/
inductive Event where
  | request (caller : Nat) (request : Request)
  | parkedListen (ci pid : Nat)
  | parkedRead (ci max : Nat)
  | segment (route : Route) (seg : Segment) (iss : Seq)
  | timers
  | reap

structure Action where
  now : Nat
  procs : Procs
  event : Event

/-- `net_parse` and `may_use` -/
def mayUse (caller : Nat) (proto : Proto) (ci : Nat) : Bool :=
  ci < convMax && (s.convs ci).state ≠ .free && (s.convs ci).proto = proto &&
    ((identity procs caller).2 = 0 || (identity procs caller).2 = (s.convs ci).ownerUid)

def onTcb (ci : Nat) (f : Tcb → Tcb) : Tables :=
  match (s.convs ci).tcb with
  | some ti => onBlock s ti f
  | none => s

def serve (caller : Nat) : Request → Option Tables
  | .clone proto => (convAlloc s procs proto caller).map Prod.snd
  | .ctl proto ci command =>
    if mayUse s procs caller proto ci then some (convCtl hz s now procs caller ci command)
    else none
  | .listen ci =>
    if mayUse s procs caller .tcp ci then some (tcpAccept s procs ci caller).2 else none
  | .read ci max =>
    if mayUse s procs caller .tcp ci then some (onTcb s ci fun t => (tcpRead t max).2.2)
    else none
  | .write ci data =>
    if mayUse s procs caller .tcp ci then some (onTcb s ci fun t => (tcpWrite now t data).2)
    else none

/-- A conversation of a parked request is not free, `pend_drop_conv`. -/
def step (action : Action) : Option Tables :=
  match action.event with
  | .request caller request => serve hz s action.now action.procs caller request
  | .parkedListen ci pid =>
    if ci < convMax ∧ (s.convs ci).state ≠ .free then
      some (tcpAccept s action.procs ci pid).2
    else none
  | .parkedRead ci max =>
    if ci < convMax ∧ (s.convs ci).state ≠ .free then
      some (onTcb s ci fun t => (tcpRead t max).2.2)
    else none
  | .segment route seg iss => some (segmentInput hz s action.now action.procs route seg iss)
  | .timers => some (timers hz s action.now)
  | .reap => some (reapDeadOwners s action.now action.procs)

/-- `conv_init` and `tcp_init`: nothing is in use. -/
def booted : Tables where
  convs := fun _ => ⟨.free, .udp, 0, 0, 0, 0, 0, 0, 0, none, 0, none, false⟩
  blocks := fun _ =>
    ⟨{ tcbAlloc hz (fun _ => 0) with used := false }, none, none, 0, 0, 0, 0, false, []⟩
  nextPort := 49152
  births := 0

end Clock

end Racccoon.Net
