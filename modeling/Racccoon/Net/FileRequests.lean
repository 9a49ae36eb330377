import Racccoon.Net.Frames

/-!
What ipd does to memory for a file request on `/net`: `net_serve_one`, `net_parse`,
`text_file`, `net_list`, `conv_read_now` and `conv_ctl` of `user/net/ipd_conv.c3`. The message
is the whole of `g_req`, what is behind its end being whatever was there. `digits` is how many
bytes `format_uint` writes for a number.
-/

namespace Racccoon.Net.Bounds

open Racccoon.Net.Parked (fsMsgMax)
open Racccoon.Tcp (Tcb netRetry)

def fsListEntrySize : Nat := 36

section Texts
variable (buffer : Buf) (text : Bytes)

/-- The loops of `path_seg` and `str_has_prefix`. -/
def spells : (i : Nat) → List Char → Touches × Bool
  | _, [] => ([], true)
  | i, c :: others =>
    before [touch buffer i 1]
      (if byte text i = c.toNat then spells (i + 1) others else ([], false))

def isDigit (c : Nat) : Bool := 48 ≤ c && c ≤ 57

/-- The loop of `parse_uint`; no text is longer than its buffer. -/
def numberFrom : (fuel i value : Nat) → Touches × Option (Nat × Nat)
  | 0, _, _ => ([], none)
  | fuel + 1, i, value =>
    before [touch buffer i 1]
      (if isDigit (byte text i) then
        let value := value * 10 + (byte text i - 48)
        if value > 0xFFFFFFF then ([], none) else numberFrom fuel (i + 1) value
      else ([], some (value, i)))

/-- `parse_uint`: the number and where it ends. -/
def parseUint (i : Nat) : Touches × Option (Nat × Nat) :=
  before [touch buffer i 1]
    (if isDigit (byte text i) then numberFrom buffer text (size 0 buffer) i 0 else ([], none))

/-- `parse_ip`, with `parts` numbers to come. -/
def parseIp : (parts i ip : Nat) → Touches × Option (Nat × Nat)
  | 0, i, ip => ([], some (ip, i))
  | parts + 1, i, ip =>
    let number := parseUint buffer text i
    before number.1
      (match number.2 with
      | none => ([], none)
      | some (value, j) =>
        if value > 255 then ([], none)
        else if parts = 0 then ([], some (ip * 256 + value, j))
        else
          before [touch buffer j 1]
            (if byte text j = '.'.toNat then parseIp parts (j + 1) (ip * 256 + value)
            else ([], none)))

end Texts

inductive FileKind where
  | none | rootDir | protoDir | convDir | clone | ctl | data | localEnd | remoteEnd | status
  | listen | ipifcDir | ifDir | ifStatus | arp
  deriving DecidableEq

structure Npath where
  kind : FileKind
  proto : Option Proto
  conv : Option Nat
  ifc : Option Nat

/-- `path_seg`: a whole component, and where it ends. -/
def pathSeg (p : Bytes) (i : Nat) (name : List Char) : Touches × Option Nat :=
  let found := spells .path p i name
  before found.1
    (if found.2 then
      let j := i + name.length
      before [touch .path j 1]
        ([], if byte p j = 0 ∨ byte p j = '/'.toNat then some j else none)
    else ([], none))

/-- The first of several components that is there. -/
def pathAny {Item : Type} (p : Bytes) (i : Nat) :
    List (List Char × Item) → Touches × Option (Item × Nat)
  | [] => ([], none)
  | (name, item) :: others =>
    let seg := pathSeg p i name
    before seg.1
      (match seg.2 with
      | some j => ([], some (item, j))
      | none => pathAny p i others)

/-- The kind of file if the path ends at `i`. -/
def endsAs (p : Bytes) (i : Nat) (np : Npath) (kind : FileKind) : Touches × Npath :=
  ([touch .path i 1], { np with kind := if byte p i = 0 then kind else .none })

def protoNames : List (List Char × Proto) :=
  [(['u', 'd', 'p'], .udp), (['t', 'c', 'p'], .tcp), (['i', 'c', 'm', 'p'], .icmp)]

def convFiles : List (List Char × FileKind) :=
  [(['c', 't', 'l'], .ctl), (['d', 'a', 't', 'a'], .data),
    (['l', 'o', 'c', 'a', 'l'], .localEnd), (['r', 'e', 'm', 'o', 't', 'e'], .remoteEnd),
    (['s', 't', 'a', 't', 'u', 's'], .status), (['l', 'i', 's', 't', 'e', 'n'], .listen)]

def nowhere : Npath := ⟨.none, none, none, none⟩

namespace Host

/-- Behind `ipifc`. -/
def ipifcPath (h : Host) (p : Bytes) (i : Nat) : Touches × Npath :=
  before [touch .path i 1]
    (if byte p i = 0 then ([], { nowhere with kind := .ipifcDir })
    else
      let number := parseUint .path p (i + 1)
      before number.1
        (match number.2 with
        | none => ([], nowhere)
        | some (n, j) =>
          if n ≥ ifMax ∨ !(h.ifaces n).used then ([], nowhere)
          else
            let np := { nowhere with ifc := some n }
            before [touch .path j 1]
              (if byte p j = 0 then ([], { np with kind := .ifDir })
              else
                let seg := pathSeg p (j + 1) ['s', 't', 'a', 't', 'u', 's']
                before seg.1
                  (match seg.2 with
                  | none => ([], np)
                  | some k => endsAs p k np .ifStatus))))

/-- Behind the number of a conversation. -/
def convPath (p : Bytes) (i : Nat) (proto : Proto) (np : Npath) : Touches × Npath :=
  before [touch .path i 1]
    (if byte p i = 0 then ([], { np with kind := .convDir })
    else
      let file := pathAny p (i + 1) convFiles
      before file.1
        (match file.2 with
        | none => endsAs p (i + 1) np .none
        | some (kind, j) =>
          endsAs p j np (if kind = .listen ∧ proto ≠ .tcp then .none else kind)))

/-- Behind the name of a protocol. -/
def protoPath (h : Host) (p : Bytes) (i : Nat) (proto : Proto) : Touches × Npath :=
  let np := { nowhere with proto := some proto }
  before [touch .path i 1]
    (if byte p i = 0 then ([], { np with kind := .protoDir })
    else
      let clone := pathSeg p (i + 1) ['c', 'l', 'o', 'n', 'e']
      before clone.1
        (match clone.2 with
        | some j => endsAs p j np .clone
        | none =>
          let number := parseUint .path p (i + 1)
          before number.1
            (match number.2 with
            | none => ([], np)
            | some (n, j) =>
              let conv := h.stock.tables.convs n
              if n ≥ convMax ∨ conv.state = .free ∨ conv.proto ≠ proto then ([], np)
              else convPath p j proto { np with conv := some n })))

/-- `net_parse` -/
def netParse (h : Host) (p : Bytes) : Touches × Npath :=
  let i := if byte p 0 = '/'.toNat then 1 else 0
  before [touch .path 0 1, touch .path i 1]
    (if byte p i = 0 then ([], { nowhere with kind := .rootDir })
    else
      let arp := pathSeg p i ['a', 'r', 'p']
      before arp.1
        (match arp.2 with
        | some j => endsAs p j nowhere .arp
        | none =>
          let ipifc := pathSeg p i ['i', 'p', 'i', 'f', 'c']
          before ipifc.1
            (match ipifc.2 with
            | some j => h.ipifcPath p j
            | none =>
              let proto := pathAny p i protoNames
              before proto.1
                (match proto.2 with
                | some (proto, j) => h.protoPath p j proto
                | none => ([], nowhere)))))

end Host

/-- `tcp_state_name` -/
def tcpStateName : Tcp.TcbState → List Char
  | .listen => "Listen".toList
  | .synSent => "Syn_sent".toList
  | .synRcvd => "Syn_received".toList
  | .established => "Established".toList
  | .finWait1 => "Finwait1".toList
  | .finWait2 => "Finwait2".toList
  | .closeWait => "Close_wait".toList
  | .closing => "Closing".toList
  | .lastAck => "Last_ack".toList
  | .timeWait => "Time_wait".toList
  | .closed => "Closed".toList

def convStateName (s : Tables) (ci : Nat) : List Char :=
  match (s.convs ci).proto, (s.convs ci).tcb with
  | .tcp, some ti => tcpStateName (s.blocks ti).tcb.state
  | _, _ =>
    match (s.convs ci).state with
    | .opened => "Open".toList
    | .connected => "Connected".toList
    | .announced => "Announced".toList
    | .reset => "Reset".toList
    | _ => "Closed".toList

def protoName : Proto → List Char
  | .udp => "udp".toList
  | .tcp => "tcp".toList
  | .icmp => "icmp".toList

/-- The `uint` of a counter. -/
def uint (value : Nat) : Nat := value % 2 ^ 32

section Format
variable (digits : Nat → Nat)

/-- What `fmt_ip` writes, in bytes. -/
def fmtIp (ip : Nat) : Nat :=
  digits (ip / 2 ^ 24 % 256) + 1 + digits (ip / 2 ^ 16 % 256) + 1 + digits (ip / 2 ^ 8 % 256) + 1 +
    digits (ip % 256)

def fmtHostport (ip port : Nat) : Nat := fmtIp digits ip + 1 + digits (uint port) + 1

def fmtMac : Nat := 17

def ifStatusText (f : Iface) : Nat :=
  f.name.length + " mac ".toList.length + fmtMac + " ip ".toList.length + fmtIp digits f.ip +
    " mask ".toList.length + fmtIp digits f.mask + " gw ".toList.length + fmtIp digits f.gw +
    " dns ".toList.length + fmtIp digits f.dns +
    (if f.linkUp then " link up".toList else " link down".toList).length +
    (if f.dhcp = .bound then " dhcp bound".toList else " dhcp waiting".toList).length +
    " rx ".toList.length + digits (uint f.rxFrames) +
    " tx ".toList.length + digits (uint f.txFrames) +
    " drops ".toList.length + digits (uint f.drops) + 1

/-- The loop over the table of addresses, with `n` bytes written. -/
def arpText (h : Host) (n : Nat) : List ArpEntry → Nat
  | [] => n
  | e :: others =>
    if n < 900 then
      arpText h
        (if !e.valid ∨ h.now ≥ e.expires then n
        else n + (h.ifaces e.ifc).name.length + 1 + fmtIp digits e.ip + 1 + fmtMac + 1) others
    else n

def statusText (h : Host) (ci : Nat) : Nat :=
  (protoName (h.stock.tables.convs ci).proto).length + 1 + digits (uint ci) + 1 +
    (convStateName h.stock.tables ci).length + " rx ".toList.length + digits (uint (h.rxPkts ci)) +
    " tx ".toList.length + digits (uint (h.txPkts ci)) + 1

/-- `text_file`: the length of the text, if the file has one. -/
def textFile (h : Host) (np : Npath) : Option Nat :=
  match np.kind, np.ifc, np.conv with
  | .ifStatus, some i, _ => some (ifStatusText digits (h.ifaces i))
  | .arp, _, _ => some (arpText digits h 0 h.arp)
  | .ctl, _, some ci => some (digits (uint ci) + 1)
  | .localEnd, _, some ci =>
    some (fmtHostport digits (h.stock.tables.convs ci).laddr (h.stock.tables.convs ci).lport)
  | .remoteEnd, _, some ci =>
    some (fmtHostport digits (h.stock.tables.convs ci).raddr (h.stock.tables.convs ci).rport)
  | .status, _, some ci => some (statusText digits h ci)
  | _, _, _ => none

/-- `reply_int` with `datalen` bytes behind the value. -/
def replyInt (datalen : Nat) : Touches := [touch .reply 0 4, touch .reply 0 (4 + datalen)]

def replyNumber (n : Nat) : Touches :=
  touch .reply 4 (digits (uint n) + 1) :: replyInt (digits (uint n) + 1)

inductive Entry where
  | word (name : List Char)
  | number (n : Nat)

namespace Host

variable (h : Host)

/-- `conv_read_now`, into the reply. -/
def convReadNow (ci maxlen : Nat) : Touches :=
  let maxlen := min maxlen (fsMsgMax - 4)
  let conv := h.stock.tables.convs ci
  match conv.proto, conv.tcb with
  | .tcp, none => []
  | .tcp, some ti =>
    let t := viewed h.stock.tables ti
    let n := (Tcp.tcpRead t maxlen).2.1.length
    touch .reply 4 n :: (List.range n).map fun i => touch .rbuf ((t.rhead + i) % Tcp.tcpBuf) 1
  | _, _ =>
    match h.stock.grams ci with
    | [] => []
    | dgram :: _ =>
      let head := if h.stock.headers ci then 6 else 0
      let n := if dgram.data.length + head > maxlen then maxlen - head
        else dgram.data.length
      [touch .reply 4 head, touch .dgram 0 n, touch .reply (4 + head) n]

/-- A read that got `result`, or is parked: the number of an accepted connection is a text. -/
def answerRead (listens : Bool) (result : Int) : Touches :=
  if result = netRetry then if h.pendsFull then replyInt 0 else []
  else if result < 0 then replyInt 0
  else if listens then replyNumber digits result.toNat
  else replyInt result.toNat

/-- `may_use` -/
def mayUse (caller ci : Nat) : Bool :=
  (identity h.procs caller).2 = 0 ||
    (identity h.procs caller).2 = (h.stock.tables.convs ci).ownerUid

/-- A read of `len` bytes from `off` on. -/
def readFile (np : Npath) (caller len off : Nat) : Touches :=
  if np.kind = .clone then
    if off > 0 then replyInt 0
    else
      match convAlloc h.stock.tables h.procs (np.proto.getD .udp) caller with
      | none => replyInt 0
      | some (ci, _) => replyNumber digits ci
  else if np.conv.any fun ci => !h.mayUse caller ci then replyInt 0
  else
    match np.kind, np.conv with
    | .data, some ci =>
      h.convReadNow ci len ++ h.answerRead digits false (h.stock.convReadNow ci len).1
    | .listen, some ci => h.answerRead digits true (h.stock.acceptNow h.procs ci caller).1
    | _, _ =>
      match textFile digits h np with
      | none => replyInt 0
      | some n =>
        let avail := min (n - off) len
        [touch .text 0 n, touch .text off avail, touch .reply 4 avail] ++ replyInt avail

def entries (np : Npath) : Option (List Entry) :=
  match np.kind with
  | .rootDir =>
    some [.word "arp".toList, .word "ipifc".toList, .word "udp".toList, .word "tcp".toList,
      .word "icmp".toList]
  | .ipifcDir => some (((List.range ifMax).filter fun i => (h.ifaces i).used).map .number)
  | .ifDir => some [.word "status".toList]
  | .protoDir =>
    some (.word "clone".toList :: ((List.range convMax).filter fun ci =>
      (h.stock.tables.convs ci).state ≠ .free &&
        np.proto = some (h.stock.tables.convs ci).proto).map .number)
  | .convDir =>
    some ([.word "ctl".toList, .word "data".toList, .word "local".toList,
      .word "remote".toList, .word "status".toList] ++
      if np.proto = some .tcp then [.word "listen".toList] else [])
  | _ => none

end Host

/-- `list_add`, `count` entries being there. -/
def listAdd (count name : Nat) : Touches :=
  [touch .page (4 + count * fsListEntrySize) (min name 31 + 1),
    touch .page (4 + count * fsListEntrySize + 32) 1]

/-- Those of the numbers are made in a buffer. -/
def listAdds : (count : Nat) → List Entry → Touches
  | _, [] => []
  | count, .word name :: others => listAdd count name.length ++ listAdds (count + 1) others
  | count, .number n :: others =>
    touch .number 0 (digits (uint n) + 1) :: listAdd count (digits (uint n)) ++
      listAdds (count + 1) others

end Format

/-- What is left of `count` entries from `start` on, in `int`. -/
def keep (count start : Nat) : BitVec 32 :=
  if (count : Int) > (BitVec.ofNat 32 start).toInt then
    BitVec.ofNat 32 count - BitVec.ofNat 32 start
  else 0

/-- The loop that moves them to the beginning; its indices are of type `int` too. -/
def listShift (count start : Nat) : Touches :=
  (List.range (keep count start * 36).toInt.toNat).flatMap fun b =>
    [.bytes .page (4 + BitVec.ofNat 32 start * 36 + BitVec.ofNat 32 b).toInt 1,
      .bytes .page (4 + BitVec.ofNat 32 b).toInt 1]

def listSent (count : BitVec 32) : Touch Buf :=
  touch .page 0 (4 + count * 36).toInt.toNat

/-- `net_list` -/
def netList (digits : Nat → Nat) (h : Host) (np : Npath) (start : Nat) : Touches :=
  match h.entries np with
  | none => [touch .page 0 4]
  | some entries =>
    listAdds digits 0 entries ++
      if start > 0 then
        listShift entries.length start ++
          [touch .page 0 4, listSent (keep entries.length start)]
      else [touch .page 0 4, listSent (BitVec.ofNat 32 entries.length)]

def trimmed (text : Bytes) : Nat → Nat
  | 0 => 0
  | n + 1 => if byte text n = 10 ∨ byte text n = 32 then trimmed text n else n + 1

def command (bytes : Bytes) (start len : Nat) : Bytes := fun i =>
  let text := fun i => bytes (start + i)
  if i < trimmed text (min len 127) then text i else 0

namespace Host

variable (h : Host) (ci : Nat)

def blockOutput (f : Tcb → Tcb) : Touches :=
  match (h.stock.tables.convs ci).proto, (h.stock.tables.convs ci).tcb with
  | .tcp, some ti =>
    let t := viewed h.stock.tables ti
    h.answers (h.stock.tables.blocks ti).raddr t (f t)
  | _, _ => []

/-- `connect`, with the number of a port unless the protocol has none. -/
def ctlConnect (s : Bytes) : Touches :=
  let conv := h.stock.tables.convs ci
  let ip := parseIp .command s 4 8 0
  ip.1 ++
    match ip.2 with
    | none => []
    | some (ip, i) =>
      if conv.proto = .icmp then []
      else
        touch .command i 1 ::
          if byte s i ≠ '!'.toNat then []
          else
            let port := parseUint .command s (i + 1)
            port.1 ++
              match port.2 with
              | none => []
              | some (port, _) =>
                if validPort port ∧ conv.proto = .tcp ∧ conv.tcb.isNone ∧
                    (freeBlock h.stock.tables).isSome then
                  h.tcpSend ip true 0
                else []

/-- `announce` and `bind` of the port whose text is at `i`. -/
def ctlPort (s : Bytes) (i : Nat) : Touches :=
  touch .command i 1 ::
    if byte s i = '*'.toNat then
      touch .command (i + 1) 1 ::
        (parseUint .command s (if byte s (i + 1) = '!'.toNat then i + 2 else i)).1
    else (parseUint .command s i).1

/-- `conv_ctl`: the words it knows, and what each does. -/
def ctlWords (s : Bytes) : List (List Char × Touches) :=
  [("connect ".toList, h.ctlConnect ci s), ("announce ".toList, ctlPort s 9),
    ("bind ".toList, ctlPort s 5), ("headers".toList, []),
    ("close".toList,
      if (h.stock.tables.convs ci).proto = .tcp then h.blockOutput ci (Tcp.tcpShutdown h.now)
      else (spells .command s 0 "hangup".toList).1),
    ("hangup".toList, h.blockOutput ci (Tcp.tcpAbort h.now) ++ replyInt 0)]

def firstWord (s : Bytes) : List (List Char × Touches) → Touches
  | [] => []
  | (word, does) :: others =>
    let found := spells .command s 0 word
    found.1 ++ if found.2 then does else firstWord s others

variable (bytes : Bytes) (start len : Nat)

def convCtl : Touches :=
  let n := min len 127
  [touch .request start n, touch .command 0 (n + 1)] ++
    firstWord (command bytes start len) (h.ctlWords ci (command bytes start len))

/-- `udp_output` and `icmp_output` of `len` bytes of the request. -/
def dgramOutput (dst start len : Nat) : Touches :=
  if len > 1472 then []
  else
    [touch .request start len, touch .segment 0 8, touch .segment 8 len,
      touch .segment 0 (8 + len)] ++ h.ipOutput dst .segment 0 (8 + len)

/-- `tcp_write` -/
def tcpWrite : Touches :=
  match (h.stock.tables.convs ci).tcb with
  | none => []
  | some ti =>
    let t := viewed h.stock.tables ti
    if t.reset ∨ t.wantFin ∨ !t.state.writes then []
    else
      let n := min len (Tcp.tcpBuf - t.sbuf.length)
      let data := (List.range len).map fun i => bytes (start + i)
      [.minus Tcp.tcpBuf t.sbuf.length, touch .request start n, touch .sbuf t.sbuf.length n] ++
        h.answers (h.stock.tables.blocks ti).raddr t (Tcp.tcpWrite h.now t data).2

/-- A write of `len` bytes to `data`. -/
def writeData : Touches :=
  let conv := h.stock.tables.convs ci
  match conv.proto with
  | .tcp => h.tcpWrite ci bytes start len
  | .icmp => if conv.raddr = 0 then [] else h.dgramOutput conv.raddr start len
  | .udp =>
    if h.stock.headers ci then
      if len ≥ 6 then
        [touch .request start 6, .minus len 6] ++
          h.dgramOutput (be32 bytes start) (start + 6) (len - 6)
      else []
    else if conv.state = .connected then h.dgramOutput conv.raddr start len
    else []

/-- Whether a command is `own`, which is looked for in the request itself. -/
def isOwn : Bool :=
  3 ≤ len && byte bytes start = 'o'.toNat && byte bytes (start + 1) = 'w'.toNat &&
    byte bytes (start + 2) = 'n'.toNat

def writeCtl : Touches :=
  (if 3 ≤ len then [touch .request start 3] else []) ++
    if isOwn bytes start len then [] else h.convCtl ci bytes start len

/-- A write whose bytes begin at `start`. -/
def writeFile (np : Npath) (caller : Nat) (bytes : Bytes) (start len : Nat) : Touches :=
  let len := min len (fsMsgMax - 108)
  match np.conv with
  | none => replyInt 0
  | some ci =>
    if !h.mayUse caller ci then replyInt 0
    else
      (match np.kind with
        | .ctl => h.writeCtl ci bytes start len
        | .data => h.writeData ci bytes start len
        | _ => []) ++ replyInt 0

end Host

inductive Verb where
  | list | stat | read | readAt | write | writeAt | other
  deriving DecidableEq

structure FileRequest where
  verb : Verb
  caller : Nat
  bytes : Bytes

/-- `get_le32` -/
def le32 (bytes : Bytes) (i : Nat) : Nat :=
  byte bytes i + byte bytes (i + 1) * 2 ^ 8 + byte bytes (i + 2) * 2 ^ 16 +
    byte bytes (i + 3) * 2 ^ 24

namespace FileRequest

variable (r : FileRequest)

def path : Bytes := fun i => if i = 99 then 0 else r.bytes i

def len : Nat := le32 r.bytes 100
def off : Nat := le32 r.bytes 104

end FileRequest

/-- `net_serve_one`, once the message is there. -/
def Host.serveOne (digits : Nat → Nat) (h : Host) (r : FileRequest) : Touches :=
  let np := h.netParse r.path
  [touch .request 0 100, touch .path 0 100, touch .request 100 8] ++ np.1 ++
    match r.verb with
    | .list => netList digits h np.2 r.off
    | .stat => touch .reply 4 6 :: replyInt 6
    | .read => h.readFile digits np.2 r.caller r.len 0
    | .readAt => h.readFile digits np.2 r.caller r.len r.off
    | .write => h.writeFile np.2 r.caller r.bytes 104 r.len
    | .writeAt => h.writeFile np.2 r.caller r.bytes 108 r.len
    | .other => replyInt 0

end Racccoon.Net.Bounds
