import Mathlib.Algebra.GroupWithZero.Nat
import Racccoon.Lib.Ring

/-!
One connection of `user/net/ipd_tcp.c3`: its control block and its conversation. The
segments that reach it are those `tcb_lookup` gives it, parsed, with a correct checksum;
answers to segments that are not of the connection are left out. `segsOut` holds the
segments sent, where the source counts them. `c.tcb < 0` is a block not in use.
-/

namespace Racccoon.Tcp

abbrev Byte := BitVec 8
abbrev Seq := BitVec 32

def tcpBuf : Nat := 8192
def tcpMss : Nat := 1460
def tcpMaxRetries : Nat := 8
def netRetry : Int := -2

/-- `ulong` arithmetic. -/
def ulong (value : Nat) : Nat := value % 2 ^ 64

inductive TcbState where
  | closed | listen | synSent | synRcvd | established
  | finWait1 | finWait2 | closeWait | closing | lastAck | timeWait
  deriving DecidableEq

inductive ConvState where
  | announced | connected | closed | reset
  deriving DecidableEq

/-- The bits TH_FIN, TH_SYN, TH_RST and TH_ACK. -/
structure Flags where
  fin : Bool
  syn : Bool
  rst : Bool
  ack : Bool
  deriving DecidableEq

/-- A segment that arrived. `peerMss` is 0 without the option. -/
structure Segment where
  seq : Seq
  ack : Seq
  flags : Flags
  wnd : Nat
  peerMss : Nat
  data : List Byte

/-- A segment sent, up to its ports and options. -/
structure Sent where
  flags : Flags
  seq : Seq
  ack : Seq
  wnd : Nat
  data : List Byte
  deriving DecidableEq

/-- `sbuf` are the bytes from `snd_una` on; `conv` is false once the conversation hung up. -/
structure Tcb where
  used : Bool
  state : TcbState
  conv : Bool
  convState : ConvState
  iss : Seq
  sndUna : Seq
  sndNxt : Seq
  sndWnd : Nat
  rcvNxt : Seq
  mss : Nat
  sbuf : List Byte
  rbuf : Nat → Byte
  rhead : Nat
  rlen : Nat
  finRcvd : Bool
  wantFin : Bool
  finSent : Bool
  reset : Bool
  rto : Nat
  srtt : Nat
  rttvar : Nat
  rttValid : Bool
  timing : Bool
  rttSeq : Seq
  rttStart : Nat
  rtxDue : Nat
  retries : Nat
  twDue : Nat
  segsOut : List Sent

def seqLt (a b : Seq) : Bool := (a - b).toInt < 0
def seqLe (a b : Seq) : Bool := (a - b).toInt ≤ 0

def Segment.dlen (seg : Segment) : Nat := seg.data.length

def Segment.stop (seg : Segment) : Seq := seg.seq + BitVec.ofNat 32 seg.dlen

variable (t : Tcb)

def tcpRwnd : Nat := tcpBuf - t.rlen

def tcpSend (flags : Flags) (seq : Seq) (data : List Byte) : Tcb :=
  { t with
    segsOut := t.segsOut ++
      [⟨flags, seq, if flags.ack then t.rcvNxt else 0, min (tcpRwnd t) 65535, data⟩] }

def thAck : Flags := ⟨false, false, false, true⟩
def thFinAck : Flags := ⟨true, false, false, true⟩
def thSyn : Flags := ⟨false, true, false, false⟩
def thSynAck : Flags := ⟨false, true, false, true⟩
def thRst : Flags := ⟨false, false, true, false⟩

def tcbFree : Tcb :=
  { t with
    used := false
    convState :=
      if t.conv ∧ t.convState ≠ .reset then .closed else t.convState }

def tcbFinish : Tcb :=
  let closed := { t with state := .closed, rtxDue := 0 }
  if t.conv ∧ t.rlen > 0 then closed else tcbFree closed

def tcpDied : Tcb :=
  tcbFree { t with
    reset := true
    state := .closed
    convState := if t.conv then .reset else t.convState }

section Clock
variable (hz now : Nat)

def msTicks (ms : Nat) : Nat := ulong (hz * ms) / 1000

variable (t : Tcb)

def tcpArmRtx : Tcb := { t with rtxDue := ulong (now + t.rto) }

def armIfOff : Tcb :=
  { t with rtxDue := if t.rtxDue = 0 then ulong (now + t.rto) else t.rtxDue }

def TcbState.sends : TcbState → Bool
  | .established | .closeWait | .finWait1 | .closing | .lastAck => true
  | _ => false

/-- `sent`, with a sent FIN. -/
def Tcb.flight : Nat := (t.sndNxt - t.sndUna).toNat

/-- `data_sent`, in `uint`. -/
def Tcb.dataSent : Nat :=
  if t.finSent then (t.sndNxt - t.sndUna - 1).toNat else t.flight

/-- One segment of data out of the buffer. -/
def sendData (size : Nat) : Tcb :=
  let timed := { t with
    timing := true
    rttSeq := if t.timing then t.rttSeq else t.sndNxt + BitVec.ofNat 32 size
    rttStart := if t.timing then t.rttStart else now }
  let sent := tcpSend timed thAck t.sndNxt ((t.sbuf.drop t.dataSent).take size)
  armIfOff now { sent with sndNxt := t.sndNxt + BitVec.ofNat 32 size }

/-- How much the next segment takes; 0 where the loop of `tcp_output` breaks. -/
def Tcb.nextSize : Nat :=
  if t.dataSent ≥ t.sbuf.length then 0
  else if t.flight ≥ t.sndWnd then 0
  else min (min (t.sbuf.length - t.dataSent) (t.sndWnd - t.flight)) t.mss

/-- The loop of `tcp_output`. A round sends a byte at least. -/
def outputData : Nat → Tcb → Tcb
  | 0, t => t
  | fuel + 1, t => if t.nextSize = 0 then t else outputData fuel (sendData now t t.nextSize)

def finDue : Bool :=
  t.wantFin && !t.finSent && t.flight == t.sbuf.length

def sendFin : Tcb :=
  let sent := tcpSend t thFinAck t.sndNxt []
  armIfOff now
    { sent with
      sndNxt := t.sndNxt + 1
      finSent := true
      state :=
        match t.state with
        | .established => .finWait1
        | .closeWait => .lastAck
        | other => other }

def tcpOutput : Tcb :=
  if t.state.sends then
    let t := outputData now t.sbuf.length t
    if finDue t then sendFin now t else t
  else t

def rttDistance (r srtt : Nat) : Nat := if r > srtt then r - srtt else srtt - r

def clampRto (rto : Nat) : Nat :=
  let low := if rto < msTicks hz 200 then msTicks hz 200 else rto
  if low > ulong (hz * 60) then ulong (hz * 60) else low

def tcpRttSample (r : Nat) : Tcb :=
  let srtt := if t.rttValid then ulong (7 * t.srtt + r) / 8 else r
  let rttvar :=
    if t.rttValid then ulong (3 * t.rttvar + rttDistance r t.srtt) / 4 else r / 2
  { t with
    srtt := srtt
    rttvar := rttvar
    rttValid := true
    rto := clampRto hz (ulong (srtt + 4 * rttvar)) }

def Tcb.bytesAcked (ack : Seq) : Nat :=
  let n := (ack - t.sndUna).toNat
  let data := if t.state = .synSent ∨ t.state = .synRcvd then n - 1 else n
  let bytes := if t.finSent ∧ ack = t.sndNxt then data - 1 else data
  min bytes t.sbuf.length

def tcpAcked (ack : Seq) : Tcb :=
  if ack = t.sndUna then t
  else
    let shifted := { t with sbuf := t.sbuf.drop (t.bytesAcked ack), sndUna := ack }
    let sampled :=
      if t.timing ∧ seqLe t.rttSeq ack then
        let stopped := { shifted with timing := false }
        if t.retries = 0 then tcpRttSample hz stopped (ulong (now + 2 ^ 64 - t.rttStart))
        else stopped
      else shifted
    { sampled with
      retries := 0
      rtxDue := if ack = t.sndNxt then 0 else ulong (now + sampled.rto) }

def offerMss (peerMss : Nat) : Nat :=
  if peerMss ≠ 0 then min peerMss tcpMss else t.mss

variable (seg : Segment)

def inputSynSent : Tcb :=
  if seg.flags.ack ∧ (seqLe seg.ack t.iss ∨ seqLt t.sndNxt seg.ack) then t
  else if seg.flags.rst then
    if seg.flags.ack then tcpDied t else t
  else if !seg.flags.syn then t
  else
    let offered := { t with
      rcvNxt := seg.seq + 1, sndWnd := seg.wnd, mss := offerMss t seg.peerMss }
    if seg.flags.ack then
      let opened := { tcpAcked hz now offered seg.ack with state := .established }
      tcpOutput now (tcpSend opened thAck opened.sndNxt [])
    else tcpSend { offered with state := .synRcvd } thSynAck t.iss []

def inWindow : Bool :=
  seg.seq == t.rcvNxt ||
    (seg.dlen > 0 && seqLt seg.seq t.rcvNxt && seqLt t.rcvNxt seg.stop)

def acceptable : Bool :=
  inWindow t seg || (seg.dlen == 0 && seqLe seg.seq t.rcvNxt)

def ackValid (ack : Seq) : Bool := seqLt t.sndUna ack && seqLe ack t.sndNxt

/-- The acknowledgement and the window taken in. `none`: a connection not yet established
takes no other acknowledgement than that of its SYN. -/
def takeAck : Option Tcb :=
  if t.state = .synRcvd then
    if ackValid t seg.ack then
      some { tcpAcked hz now t seg.ack with state := .established, sndWnd := seg.wnd }
    else none
  else if ackValid t seg.ack then some { tcpAcked hz now t seg.ack with sndWnd := seg.wnd }
  else some { t with sndWnd := seg.wnd }

def finAcked : Bool := t.finSent && t.sndUna == t.sndNxt

/-- What an acknowledged FIN does to the state, apart from the end of LAST_ACK. -/
def afterFin : Tcb :=
  if finAcked t then
    match t.state with
    | .finWait1 => { t with state := .finWait2 }
    | .closing => { t with state := .timeWait, twDue := ulong (now + hz * 2) }
    | _ => t
  else t

def TcbState.receives : TcbState → Bool
  | .established | .finWait1 | .finWait2 => true
  | _ => false

def skipped : Nat := (t.rcvNxt - seg.seq).toNat

def kept : Nat := min (seg.dlen - skipped t seg) (tcpRwnd t)

def takesPayload : Bool := seg.dlen > 0 && t.state.receives

def takePayload : Tcb :=
  if takesPayload t seg ∧ skipped t seg < seg.dlen then
    { t with
      rbuf := Ring.write tcpBuf t.rbuf (t.rhead + t.rlen)
        ((seg.data.drop (skipped t seg)).take (kept t seg))
      rlen := t.rlen + kept t seg
      rcvNxt := t.rcvNxt + BitVec.ofNat 32 (kept t seg) }
  else t

def finLeft : Bool :=
  seg.flags.fin &&
    !(takesPayload t seg && skipped t seg < seg.dlen &&
      skipped t seg + kept t seg < seg.dlen)

def takeFin : Tcb :=
  let taken := { t with rcvNxt := t.rcvNxt + 1, finRcvd := true }
  match t.state with
  | .established | .synRcvd => { taken with state := .closeWait }
  | .finWait1 =>
    { taken with
      state := if t.sndUna = t.sndNxt then .timeWait else .closing
      twDue := ulong (now + hz * 2) }
  | .finWait2 => { taken with state := .timeWait, twDue := ulong (now + hz * 2) }
  | _ => taken

def inputData : Tcb :=
  let filled := takePayload t seg
  let finNow := finLeft t seg && seg.stop == filled.rcvNxt
  let taken := if finNow then takeFin hz now filled else filled
  if !taken.conv && seg.dlen > 0 then tcpDied (tcpSend taken thRst taken.sndNxt [])
  else
    tcpOutput now
      (if takesPayload t seg || finNow then tcpSend taken thAck taken.sndNxt [] else taken)

def inputSynchronized : Tcb :=
  if t.state = .timeWait ∧ seg.flags.fin then
    { tcpSend t thAck t.sndNxt [] with twDue := ulong (now + hz * 2) }
  else if !acceptable t seg then
    if seg.flags.rst then t else tcpSend t thAck t.sndNxt []
  else if seg.flags.rst then tcpDied t
  else if seg.flags.syn then tcpDied (tcpSend t thRst t.sndNxt [])
  else if !seg.flags.ack then t
  else
    match takeAck hz now t seg with
    | none => t
    | some acked =>
      if finAcked acked ∧ acked.state = .lastAck then tcbFinish acked
      else inputData hz now (afterFin hz now acked) seg

def tcpInput : Tcb :=
  match t.state with
  | .closed | .listen => t
  | .synSent => inputSynSent hz now t seg
  | _ => inputSynchronized hz now t seg

def goBack : Tcb :=
  let back := { t with
    sndNxt := t.sndUna, finSent := false, sndWnd := if t.sndWnd = 0 then 1 else t.sndWnd }
  { tcpOutput now back with sndWnd := t.sndWnd }

def backOff (rto : Nat) : Nat :=
  if ulong (rto * 2) > ulong (hz * 60) then ulong (hz * 60) else ulong (rto * 2)

def retransmit : Tcb :=
  match t.state with
  | .synSent => tcpSend t thSyn t.iss []
  | .synRcvd => tcpSend t thSynAck t.iss []
  | _ => goBack now t

def tcpTimers : Tcb :=
  match t.state with
  | .timeWait => if now ≥ t.twDue then tcbFinish t else t
  | .closed => if !t.conv ∨ t.rlen = 0 then tcbFree t else t
  | _ =>
    if t.rtxDue = 0 ∨ now < t.rtxDue then t
    else
      let tried := { t with retries := t.retries + 1 }
      if tried.retries > tcpMaxRetries then
        tcpDied (if t.state = .synSent then tried else tcpSend tried thRst t.sndNxt [])
      else
        let sent := retransmit now
          { tried with rto := backOff hz t.rto, timing := false }
        { sent with rtxDue := ulong (now + sent.rto) }

variable (rbuf : Nat → Byte)

/-- `tcb_alloc`, for a conversation. -/
def tcbAlloc : Tcb where
  used := true
  state := .closed
  conv := true
  convState := .connected
  iss := 0
  sndUna := 0
  sndNxt := 0
  sndWnd := tcpBuf
  rcvNxt := 0
  mss := 536
  sbuf := []
  rbuf := rbuf
  rhead := 0
  rlen := 0
  finRcvd := false
  wantFin := false
  finSent := false
  reset := false
  rto := hz
  srtt := 0
  rttvar := 0
  rttValid := false
  timing := false
  rttSeq := 0
  rttStart := 0
  rtxDue := 0
  retries := 0
  twDue := 0
  segsOut := []

def tcpConnect (iss : Seq) : Tcb :=
  let t := { tcbAlloc hz rbuf with
    iss := iss, sndUna := iss, sndNxt := iss + 1, state := .synSent }
  tcpArmRtx now (tcpSend t thSyn iss [])

def tcpListen : Tcb :=
  { tcbAlloc hz rbuf with state := .listen, convState := .announced }

def inputListen (iss : Seq) (seg : Segment) : Tcb :=
  let fresh := tcbAlloc hz rbuf
  let t := { fresh with
    rcvNxt := seg.seq + 1, iss := iss, sndUna := iss, sndNxt := iss + 1, sndWnd := seg.wnd
    mss := offerMss fresh seg.peerMss, state := .synRcvd }
  tcpArmRtx now (tcpSend t thSynAck iss [])

/-- The value returned, the bytes read and the block. -/
def tcpRead (max : Nat) : Int × List Byte × Tcb :=
  if !t.used then (if t.convState = .closed then 0 else -1, [], t)
  else if t.rlen = 0 then
    if t.reset then (-1, [], t)
    else if t.state = .closed then (0, [], tcbFree t)
    else if t.finRcvd then (0, [], t)
    else (netRetry, [], t)
  else
    let n := min t.rlen max
    let read := { t with rhead := (t.rhead + n) % tcpBuf, rlen := t.rlen - n }
    (n, Ring.read tcpBuf t.rbuf t.rhead n,
      if tcpRwnd t < t.mss ∧ tcpRwnd read ≥ t.mss ∧ t.state ≠ .synSent then
        tcpSend read thAck read.sndNxt []
      else read)

def TcbState.writes : TcbState → Bool
  | .established | .closeWait | .synSent | .synRcvd => true
  | _ => false

def tcpWrite (data : List Byte) : Int × Tcb :=
  if !t.used then (-1, t)
  else if t.reset ∨ t.wantFin then (-1, t)
  else if !t.state.writes then (-1, t)
  else
    let n := min data.length (tcpBuf - t.sbuf.length)
    (n, tcpOutput now { t with sbuf := t.sbuf ++ data.take n })

def tcpAbort : Tcb :=
  let alone := { t with conv := false }
  match t.state with
  | .listen | .synSent => tcbFree { alone with state := .closed }
  | .synRcvd | .established | .closeWait => tcpOutput now { alone with wantFin := true }
  | _ => alone

def tcpShutdown : Tcb :=
  if t.used then tcpOutput now { t with wantFin := true } else t

end Clock

end Racccoon.Tcp
