import Racccoon.Lib.Touches
import Racccoon.Net.Parking

/-!
What ipd does to memory for a frame or a looped packet: ARP, IP, ICMP, UDP, DHCP and TCP
input (`user/net/ipd.c3`, `dhcp.c3`, `eth_proto.c3`, `ipd_conv.c3`, `ipd_tcp.c3`), with what
they send in answer. A packet is its first byte's place in the frame and its length. What
changes in the daemon's tables is left out, but for what TCP needs to know what it sends.
-/

namespace Racccoon.Net.Bounds

open Racccoon.Tcp (Byte Tcb Segment)
open Racccoon.Net.Parked (Stock dgramN dgramBytes fsMsgMax)

def ifMax : Nat := 4
def linkFrameMax : Nat := 2040
def ipPayloadMax : Nat := 1480
def loopMax : Nat := 16

/-- The buffers, `received` being the one of the frame or packet that came in. -/
inductive Buf where
  | received | linkSlot | arpReply | arpRequest | pendFrame | dhcpMessage | outFrame
  | loopSlot | echo | dgram | tcpSegment | segment | sbuf | rbuf
  | request | path | command | text | page | number | reply
  deriving DecidableEq

/-- Their sizes in bytes, `room` being that of `received`. -/
def size (room : Nat) : Buf → Nat
  | .received => room
  | .linkSlot => 2040
  | .arpReply | .arpRequest => 64
  | .pendFrame | .outFrame | .loopSlot => 1600
  | .dhcpMessage => 600
  | .echo | .dgram | .segment => 1480
  | .tcpSegment => 1500
  | .sbuf | .rbuf | .request | .page | .reply => 8192
  | .path => 100
  | .command => 128
  | .text => 1024
  | .number => 16

abbrev Touches := List (Touch Buf)

/-- `count` bytes of a buffer from `start`. -/
def touch (buffer : Buf) (start count : Nat) : Touch Buf := .bytes buffer start count

abbrev Bytes := Nat → Byte

variable (bytes : Bytes)

def byte (i : Nat) : Nat := (bytes i).toNat

/-- `read_be16` -/
def be16 (i : Nat) : Nat := byte bytes i * 256 + byte bytes (i + 1)

/-- `read_be32` -/
def be32 (i : Nat) : Nat := be16 bytes i * 65536 + be16 bytes (i + 2)

/-- `checksum_partial_sum` -/
def partialSum (bytes : Bytes) : (start len : Nat) → Nat
  | _, 0 => 0
  | start, 1 => byte bytes start * 256
  | start, len + 2 => be16 bytes start + partialSum bytes (start + 2) len

/-- The loop of `checksum_finalize`; a sum of 32 bits takes three rounds at most. -/
def foldCarry : Nat → Nat → Nat
  | 0, sum => sum
  | rounds + 1, sum =>
    if sum / 65536 = 0 then sum else foldCarry rounds (sum % 65536 + sum / 65536)

def ihl (base : Nat) : Nat := byte bytes base % 16 * 4

def total (base : Nat) : Nat := be16 bytes (base + 2)

def checksumFinalize (sum : Nat) : Nat := 65535 - foldCarry 3 sum

def ipChecksum (start len : Nat) : Nat :=
  checksumFinalize (partialSum bytes start len)

/-- `udp_checksum` and `tcp_checksum`, over the pseudo-header too. -/
def pseudoChecksum (proto src dst : Nat) (bytes : Bytes) (start len : Nat) : Nat :=
  checksumFinalize (src / 65536 + src % 65536 + dst / 65536 + dst % 65536 + proto + len % 65536 +
    partialSum bytes start len)

inductive Dhcp where
  | idle | selecting | requesting | bound | wait
  deriving DecidableEq

/-- `txRoom`: the ring to the driver is not full. -/
structure Iface where
  used : Bool
  name : List Char
  short : name.length ≤ 7
  mac : List Byte
  six : mac.length = 6
  ip : Nat
  mask : Nat
  gw : Nat
  dns : Nat
  dhcp : Dhcp
  xid : Nat
  linkUp : Bool
  rxFrames : Nat
  txFrames : Nat
  drops : Nat
  txRoom : Bool

structure ArpEntry where
  valid : Bool
  ifc : Nat
  ip : Nat
  mac : List Byte
  six : mac.length = 6
  expires : Nat

/-- A frame that waits for an address; `ip_output` parks none that is longer. -/
structure ArpPend where
  used : Bool
  ifc : Nat
  nexthop : Nat
  len : Nat
  short : len ≤ 14 + 20 + ipPayloadMax

/-- `rxPkts` and `txPkts` count the packets of a conversation. -/
structure Host where
  now : Nat
  procs : Procs
  ifaces : Nat → Iface
  arp : List ArpEntry
  arpPends : List ArpPend
  loopCount : Nat
  stock : Stock
  rxPkts : Nat → Nat
  txPkts : Nat → Nat
  pendsFull : Bool

namespace Host

variable (h : Host)

def arpFind (ifc ip : Nat) : Bool :=
  h.arp.any fun e => e.valid && e.ifc = ifc && e.ip = ip && h.now < e.expires

def isLocalIp (ip : Nat) : Bool :=
  ip / 2 ^ 24 = 127 || (List.range ifMax).any fun i =>
    (h.ifaces i).used && (h.ifaces i).ip ≠ 0 && (h.ifaces i).ip = ip

def ipOnLink (f : Iface) (ip : Nat) : Bool :=
  f.ip ≠ 0 && f.mask ≠ 0 && ip &&& f.mask = f.ip &&& f.mask

def route (dst : Nat) : Option (Nat × Nat) :=
  (((List.range ifMax).find? fun i => (h.ifaces i).used && ipOnLink (h.ifaces i) dst).map
    fun i => (i, dst)).or
    (((List.range ifMax).find? fun i =>
      (h.ifaces i).used && (h.ifaces i).ip ≠ 0 && (h.ifaces i).gw ≠ 0).map
      fun i => (i, (h.ifaces i).gw))

def isBroadcastFor (f : Iface) (ip : Nat) : Bool :=
  ip = 0xFFFFFFFF || f.mask ≠ 0 && ip = f.ip ||| (f.mask ^^^ 0xFFFFFFFF)

/-- `ipd_send_frame`, with `link_put` -/
def sendFrame (ifc : Nat) (buffer : Buf) (len : Nat) : Touches :=
  if len > linkFrameMax ∨ !(h.ifaces ifc).txRoom then []
  else [touch buffer 0 len, touch .linkSlot 0 len]

def arpRequest (ifc : Nat) : Touches :=
  touch .arpRequest 0 42 :: h.sendFrame ifc .arpRequest 42

/-- `ip_output` of `plen` bytes of a buffer. -/
def ipOutput (dst : Nat) (buffer : Buf) (start plen : Nat) : Touches :=
  if plen > ipPayloadMax then []
  else
    let flen := 14 + 20 + plen
    [touch .outFrame 14 20, touch buffer start plen, touch .outFrame 34 plen] ++
      if h.isLocalIp dst then
        if h.loopCount ≥ loopMax then []
        else [touch .outFrame 14 (20 + plen), touch .loopSlot 0 (20 + plen)]
      else
        match h.route dst with
        | none => []
        | some (ifc, nexthop) =>
          touch .outFrame 6 8 ::
            if isBroadcastFor (h.ifaces ifc) dst ∨ h.arpFind ifc nexthop then
              touch .outFrame 0 6 :: h.sendFrame ifc .outFrame flen
            else if h.arpPends.any fun p => !p.used then
              [touch .outFrame 0 flen, touch .pendFrame 0 flen] ++ h.arpRequest ifc
            else []

/-- `arp_learn` of the address at `mac`: what waits for it goes out. -/
def arpLearn (ifc ip mac : Nat) : Touches :=
  if ip = 0 then []
  else
    touch .received mac 6 ::
      (h.arpPends.filter fun p => p.used && p.ifc = ifc && p.nexthop = ip).flatMap fun p =>
        [touch .received mac 6, touch .pendFrame 0 6] ++ h.sendFrame ifc .pendFrame p.len

/-- `eth_proto_respond`, as `arp_input` calls it. -/
def arpRespond (ifc : Nat) : Touches :=
  [touch .received 12 2, touch .received 20 2, touch .received 38 4, touch .received 22 10,
    touch .arpReply 0 42] ++ h.sendFrame ifc .arpReply 42

def arpInput (ifc : Nat) (bytes : Bytes) (len : Nat) : Touches :=
  if len < 42 then []
  else
    let f := h.ifaces ifc
    let oper := be16 bytes 20
    let spa := be32 bytes 28
    let tpa := be32 bytes 38
    [touch .received 20 2, touch .received 28 4, touch .received 38 4] ++
      (if tpa = f.ip ∨ h.arpFind ifc spa ∨ oper = 2 then h.arpLearn ifc spa 22 else []) ++
      if oper = 1 ∧ f.ip ≠ 0 ∧ tpa = f.ip then h.arpRespond ifc else []

/-- `dgram_push` of `len` bytes of the frame. -/
def dgramPush (ci start len : Nat) : Touches :=
  if (h.stock.grams ci).length ≥ dgramN then []
  else [touch .received start (min len dgramBytes), touch .dgram 0 (min len dgramBytes)]

def icmpEchoReply (id start len : Nat) : Touches :=
  if id / 256 ≠ 0x52 then []
  else
    let i := id % 256
    let conv := h.stock.tables.convs i
    if i ≥ convMax ∨ conv.state = .free ∨ conv.proto ≠ .icmp then []
    else h.dgramPush i start len

def icmpInput (src : Nat) (bytes : Bytes) (base len : Nat) : Touches :=
  if len < 8 then []
  else
    touch .received base len ::
      if ipChecksum bytes base len ≠ 0 then []
      else if byte bytes base = 8 then
        [touch .received base len, touch .echo 0 len, touch .echo 0 4, touch .echo 0 len] ++
          h.ipOutput src .echo 0 len
      else if byte bytes base = 0 then
        [touch .received (base + 4) 2, .minus len 8] ++
          h.icmpEchoReply (be16 bytes (base + 4)) (base + 8) (len - 8)
      else []

/-- The conversation that a datagram is for: connected to its sender, or else the first one
that takes datagrams of anyone. -/
def udpTarget (src sport dport : Nat) : Option Nat :=
  let bound := fun i => (h.stock.tables.convs i).state ≠ .free &&
    (h.stock.tables.convs i).proto = .udp && (h.stock.tables.convs i).lport = dport
  ((List.range convMax).find? fun i => bound i && (h.stock.tables.convs i).state = .connected &&
    (h.stock.tables.convs i).raddr = src && (h.stock.tables.convs i).rport = sport).or
    ((List.range convMax).find? fun i => bound i &&
      ((h.stock.tables.convs i).state = .announced || (h.stock.tables.convs i).state = .opened))

def udpInput (src dst : Nat) (bytes : Bytes) (base len : Nat) : Touches :=
  if len < 8 then []
  else
    let ulen := be16 bytes (base + 4)
    touch .received base 6 ::
      if ulen < 8 ∨ ulen > len then []
      else
        touch .received (base + 6) 2 :: touch .received base ulen ::
          if be16 bytes (base + 6) ≠ 0 ∧ pseudoChecksum 17 src dst bytes base ulen ≠ 0 then []
          else
            match h.udpTarget src (be16 bytes base) (be16 bytes (base + 2)) with
            | none => []
            | some ci => .minus ulen 8 :: h.dgramPush ci (base + 8) (ulen - 8)

/-- `tcp_send`, `syn` with the MSS option. -/
def tcpSend (dst : Nat) (syn : Bool) (len : Nat) : Touches :=
  let hl := if syn then 24 else 20
  [touch .tcpSegment 0 hl, touch .tcpSegment hl len, touch .tcpSegment 0 (hl + len)] ++
    h.ipOutput dst .tcpSegment 0 (hl + len)

/-- The options from `o` on, and the peer's MSS. -/
def tcpOptions (bytes : Bytes) (base hl : Nat) : (fuel o mss : Nat) → Touches × Nat
  | 0, _, mss => ([], mss)
  | fuel + 1, o, mss =>
    if o + 1 < hl then
      let kind := byte bytes (base + o)
      let olen := byte bytes (base + o + 1)
      if kind = 0 then ([touch .received (base + o) 1], mss)
      else if kind = 1 then
        let rest := tcpOptions bytes base hl fuel (o + 1) mss
        (touch .received (base + o) 1 :: rest.1, rest.2)
      else if olen < 2 ∨ o + olen > hl then ([touch .received (base + o) 2], mss)
      else if kind = 2 ∧ olen = 4 then
        let rest := tcpOptions bytes base hl fuel (o + olen) (be16 bytes (base + o + 2))
        (touch .received (base + o) 2 :: touch .received (base + o + 2) 2 :: rest.1, rest.2)
      else
        let rest := tcpOptions bytes base hl fuel (o + olen) mss
        (touch .received (base + o) 2 :: rest.1, rest.2)
    else ([], mss)

def bit (value place : Nat) : Bool := value / 2 ^ place % 2 = 1

/-- The segment behind a header of `hl` bytes. -/
def segmentAt (bytes : Bytes) (base hl len peerMss : Nat) : Segment where
  seq := BitVec.ofNat 32 (be32 bytes (base + 4))
  ack := BitVec.ofNat 32 (be32 bytes (base + 8))
  flags :=
    let flags := byte bytes (base + 13)
    ⟨bit flags 0, bit flags 1, bit flags 2, bit flags 4⟩
  wnd := be16 bytes (base + 14)
  peerMss := peerMss
  data := (List.range (len - hl)).map fun i => bytes (base + hl + i)

/-- The control block with which a segment of its connection gets to its payload. -/
def dataTcb (hz now : Nat) (t : Tcb) (seg : Segment) : Option Tcb :=
  match t.state with
  | .closed | .listen | .synSent => none
  | _ =>
    if t.state = .timeWait ∧ seg.flags.fin then none
    else if !Tcp.acceptable t seg || seg.flags.rst || seg.flags.syn || !seg.flags.ack then none
    else
      (Tcp.takeAck hz now t seg).bind fun acked =>
        if Tcp.finAcked acked ∧ acked.state = .lastAck then none
        else some (Tcp.afterFin hz now acked)

/-- The new part of the payload, at `data`. -/
def payload (t : Tcb) (seg : Segment) (data : Nat) : Touches :=
  if Tcp.takesPayload t seg ∧ Tcp.skipped t seg < seg.dlen then
    [.minus seg.dlen (Tcp.skipped t seg), .minus Tcp.tcpBuf t.rlen,
      touch .received (data + Tcp.skipped t seg) (Tcp.kept t seg)] ++
      (List.range (Tcp.kept t seg)).map fun i =>
        touch .rbuf ((t.rhead + t.rlen + i) % Tcp.tcpBuf) 1
  else []

def sendRst (src : Nat) (seg : Segment) : Touches :=
  if seg.flags.rst then [] else h.tcpSend src false 0

def listenInput (li src : Nat) (seg : Segment) : Touches :=
  let listener := h.stock.tables.blocks li
  if seg.flags.rst then []
  else if seg.flags.ack then h.sendRst src seg
  else if !seg.flags.syn ∨ listener.aq.length ≥ acceptQ then []
  else
    match listener.conv with
    | none => []
    | some lconv =>
      match convAlloc h.stock.tables h.procs .tcp (h.stock.tables.convs lconv).ownerPid with
      | none => []
      | some (_, grown) => if (freeBlock grown).isNone then [] else h.tcpSend src true 0

/-- The segments that a control block sends on the way to `after`, to `raddr`. -/
def answers (raddr : Nat) (before after : Tcb) : Touches :=
  (after.segsOut.drop before.segsOut.length).flatMap fun sent =>
    h.tcpSend raddr sent.flags.syn sent.data.length

def tcpInput (hz : Nat) (h : Host) (src dst : Nat) (bytes : Bytes) (base len : Nat) : Touches :=
  if len < 20 then []
  else
    touch .received base len ::
      if pseudoChecksum 6 src dst bytes base len ≠ 0 then []
      else
        let hl := byte bytes (base + 12) / 16 * 4
        touch .received base 16 ::
          if hl < 20 ∨ hl > len then []
          else
            let options := tcpOptions bytes base hl hl 20 0
            let seg := segmentAt bytes base hl len options.2
            let route : Route := ⟨src, dst, be16 bytes base, be16 bytes (base + 2)⟩
            .minus len hl :: options.1 ++
              match tcbLookup h.stock.tables route with
              | none => h.sendRst src seg
              | some ti =>
                if (h.stock.tables.blocks ti).tcb.state = .listen then h.listenInput ti src seg
                else
                  let t := viewed h.stock.tables ti
                  (match dataTcb hz h.now t seg with
                    | some t => payload t seg (base + hl)
                    | none => h.sendRst src seg) ++
                    h.answers (h.stock.tables.blocks ti).raddr t (Tcp.tcpInput hz h.now t seg)

/-- What the protocol of a packet gets. -/
def protocolInput (hz : Nat) (h : Host) (bytes : Bytes) (base : Nat) : Touches :=
  let src := be32 bytes (base + 12)
  let dst := be32 bytes (base + 16)
  let payload := base + ihl bytes base
  let plen := total bytes base - ihl bytes base
  if byte bytes (base + 9) = 1 then h.icmpInput src bytes payload plen
  else if byte bytes (base + 9) = 17 then h.udpInput src dst bytes payload plen
  else if byte bytes (base + 9) = 6 then h.tcpInput hz src dst bytes payload plen
  else []

/-- `ip_input`; `ifc` is none for a looped packet. -/
def ipInput (hz : Nat) (h : Host) (ifc : Option Nat) (bytes : Bytes) (base len : Nat) : Touches :=
  if len < 20 then []
  else
    touch .received base 1 ::
      if byte bytes base / 16 ≠ 4 then []
      else
        let ihl := ihl bytes base
        let total := total bytes base
        touch .received (base + 2) 2 ::
          if ihl < 20 ∨ total < ihl ∨ total > len then []
          else
            touch .received base ihl ::
              if ipChecksum bytes base ihl ≠ 0 then []
              else
                touch .received (base + 6) 2 ::
                  -- more fragments, or not the first one
                  if be16 bytes (base + 6) % 0x4000 ≠ 0 then []
                  else
                    let dst := be32 bytes (base + 16)
                    touch .received (base + 12) 8 ::
                      if ifc.any fun i => !h.isLocalIp dst && !isBroadcastFor (h.ifaces i) dst then
                        []
                      else
                        [touch .received (base + 9) 1, .minus total ihl] ++
                          h.protocolInput hz bytes base

end Host

/-- A `uint` difference. -/
def minus32 (whole part : Nat) : Nat := (whole + 2 ^ 32 - part) % 2 ^ 32

/-- What `dhcp_parse_message` finds; no message has type 0. -/
structure DhcpReply where
  type : Nat
  yiaddr : Nat
  server : Nat
  router : Nat
  mask : Nat
  dns : Nat

def noReply : DhcpReply := ⟨0, 0, 0, 0, 0, 0⟩

def before {Result : Type} (touches : Touches) (rest : Touches × Result) : Touches × Result :=
  (touches ++ rest.1, rest.2)

def expects (bytes : Bytes) : List (Nat × Nat) → Touches × Bool
  | [] => ([], true)
  | (i, value) :: others =>
    before [touch .received i 1]
      (if byte bytes i = value then expects bytes others else ([], false))

def optionValue (opt len : Nat) : Nat :=
  if opt = 53 then min len 1
  else if (opt = 54 ∨ opt = 3 ∨ opt = 1 ∨ opt = 6) ∧ len ≥ 4 then 4
  else 0

def DhcpReply.takes (reply : DhcpReply) (bytes : Bytes) (opt len value : Nat) : DhcpReply :=
  if opt = 53 ∧ len ≥ 1 then { reply with type := byte bytes value }
  else if opt = 54 ∧ len ≥ 4 then { reply with server := be32 bytes value }
  else if opt = 3 ∧ len ≥ 4 then { reply with router := be32 bytes value }
  else if opt = 1 ∧ len ≥ 4 then { reply with mask := be32 bytes value }
  else if opt = 6 ∧ len ≥ 4 then { reply with dns := be32 bytes value }
  else reply

/-- The options of a message of `dhcpLen` bytes at `dhcp`, from `i` on. -/
def dhcpOptions (bytes : Bytes) (dhcp dhcpLen : Nat) :
    (fuel i : Nat) → DhcpReply → Touches × DhcpReply
  | 0, _, reply => ([], reply)
  | fuel + 1, i, reply =>
    if i < dhcpLen then
      let opt := byte bytes (dhcp + i)
      let len := byte bytes (dhcp + i + 1)
      before [touch .received (dhcp + i) 1]
        (if opt = 255 then ([], reply)
        else if opt = 0 then dhcpOptions bytes dhcp dhcpLen fuel (i + 1) reply
        else if i + 1 ≥ dhcpLen then ([], reply)
        else
          before [touch .received (dhcp + i + 1) 1]
            (if i + 2 + len > dhcpLen then ([], reply)
            else
              before [touch .received (dhcp + i + 2) (optionValue opt len)]
                (dhcpOptions bytes dhcp dhcpLen fuel (i + 2 + len)
                  (reply.takes bytes opt len (dhcp + i + 2)))))
    else ([], reply)

def cookie (dhcp : Nat) : List (Nat × Nat) :=
  [(dhcp + 236, 99), (dhcp + 237, 130), (dhcp + 238, 83), (dhcp + 239, 99)]

/-- The message of `dhcpLen` bytes at `dhcp`. -/
def dhcpMessage (bytes : Bytes) (xid dhcp dhcpLen : Nat) : Touches × DhcpReply :=
  before [touch .received dhcp 1]
    (if byte bytes dhcp ≠ 2 then ([], noReply)
    else
      before [touch .received (dhcp + 4) 4]
        (if be32 bytes (dhcp + 4) ≠ xid then ([], noReply)
        else
          let magic := expects bytes (cookie dhcp)
          before magic.1
            (if !magic.2 then ([], noReply)
            else
              before [touch .received (dhcp + 16) 4]
                (dhcpOptions bytes dhcp dhcpLen dhcpLen 240
                  { noReply with yiaddr := be32 bytes (dhcp + 16) }))))

/-- `dhcp_parse_message` -/
def dhcpParse (bytes : Bytes) (len xid : Nat) : Touches × DhcpReply :=
  if len < 14 + 20 + 8 + 236 + 4 then ([], noReply)
  else
    let ihl := ihl bytes 14
    let total := total bytes 14
    let udp := 14 + ihl
    let udpLen := minus32 total ihl
    let dhcpLen := minus32 udpLen 8
    before [touch .received 12 2, touch .received 14 1]
      (if be16 bytes 12 ≠ 0x0800 ∨ byte bytes 14 / 16 ≠ 4 then ([], noReply)
      else
        before [touch .received 23 1]
          (if byte bytes 23 ≠ 17 then ([], noReply)
          else
            before [touch .received udp 2]
              (if be16 bytes udp ≠ 67 then ([], noReply)
              else
                before [touch .received (udp + 2) 2]
                  (if be16 bytes (udp + 2) ≠ 68 then ([], noReply)
                  else
                    before [touch .received 16 2, .minus total ihl, .minus udpLen 8]
                      (if dhcpLen < 236 + 4 then ([], noReply)
                      else dhcpMessage bytes xid (udp + 8) dhcpLen)))))

/-- The address that an acknowledgement brings. -/
def Iface.acked (f : Iface) (reply : DhcpReply) : Iface :=
  { f with
    ip := reply.yiaddr
    mask := if reply.mask ≠ 0 then reply.mask else 0xFFFFFF00
    gw := reply.router
    dns := reply.dns
    dhcp := .bound }

namespace Host

/-- `dhcp_input`, and the interface as it leaves it. -/
def dhcpInput (h : Host) (ifc : Nat) (bytes : Bytes) (len : Nat) : Touches × Iface :=
  let f := h.ifaces ifc
  let parsed := dhcpParse bytes len f.xid
  before parsed.1
    (if f.dhcp = .selecting ∧ parsed.2.type = 2 then
      (touch .dhcpMessage 0 303 :: h.sendFrame ifc .dhcpMessage 303, { f with dhcp := .requesting })
    else if f.dhcp = .requesting ∧ parsed.2.type = 5 then ([], f.acked parsed.2)
    else if f.dhcp = .requesting ∧ parsed.2.type = 6 then ([], { f with dhcp := .wait })
    else ([], f))

def withIface (h : Host) (ifc : Nat) (f : Iface) : Host :=
  { h with ifaces := Function.update h.ifaces ifc f }

/-- `eth_input` -/
def ethInput (hz : Nat) (h : Host) (ifc : Nat) (bytes : Bytes) (len : Nat) : Touches :=
  if len < 14 then []
  else
    touch .received 12 2 ::
      if be16 bytes 12 = 0x0806 then h.arpInput ifc bytes len
      else if be16 bytes 12 ≠ 0x0800 then []
      else if (h.ifaces ifc).dhcp = .selecting ∨ (h.ifaces ifc).dhcp = .requesting then
        let dhcp := h.dhcpInput ifc bytes len
        dhcp.1 ++ .minus len 14 ::
          ipInput hz (h.withIface ifc dhcp.2) (some ifc) bytes 14 (len - 14)
      else .minus len 14 :: ipInput hz h (some ifc) bytes 14 (len - 14)

end Host

end Racccoon.Net.Bounds
