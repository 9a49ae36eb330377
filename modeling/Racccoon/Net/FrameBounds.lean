import Racccoon.Net.Frames
import Racccoon.Net.Holdings
import Mathlib.Logic.Relation

/-!
Where the touches of `Frames` stay inside. Everything but two paths is bounded by the checks
of the received lengths: an echo request is copied to a buffer of IP_PAYLOAD_MAX bytes
whatever its length, and a DHCP message is taken to be as long as its IP header says.
-/

namespace Racccoon.Net.Bounds

open Racccoon.Net.Parked (StockFits dgramN dgramBytes)
open Racccoon.Tcp (Tcb Segment Fits)
open Host (tcpOptions dataTcb payload segmentAt isBroadcastFor protocolInput)

section Frames
variable {room hz : Nat} {h : Host} {bytes : Bytes}

variable {start len base : Nat}

@[simp] theorem touch_within {buffer : Buf} {count : Nat} :
    (touch buffer start count).Within (size room) ↔
      (0 < count → start + count ≤ size room buffer) := by
  simp only [touch, within_bytes]
  omega

variable (ifc : Nat)

theorem sendFrame_within {buffer : Buf} (fits : len ≤ size room buffer) :
    AllWithin (size room) (h.sendFrame ifc buffer len) := by
  refine .ite (fun _ => allWithin_nil) fun sendable => ?_
  have slot : size room .linkSlot = linkFrameMax := rfl
  simp only [allWithin_cons, touch_within, allWithin_nil, and_true]
  omega

theorem arpRequest_within : AllWithin (size room) (h.arpRequest ifc) := by
  refine allWithin_cons.mpr ⟨by simp [size], sendFrame_within ifc (by simp [size])⟩

theorem ipOutput_within (dst : Nat) {buffer : Buf} {plen : Nat}
    (fits : start + plen ≤ size room buffer) :
    AllWithin (size room) (h.ipOutput dst buffer start plen) := by
  refine .ite (fun _ => allWithin_nil) fun sendable => ?_
  have short : plen ≤ 1480 := by simpa [ipPayloadMax] using sendable
  refine allWithin_append.mpr ⟨?_, .ite (fun _ => .ite (fun _ => allWithin_nil) ?_) ?_⟩
  · simp only [allWithin_cons, touch_within, allWithin_nil, size]
    exact ⟨fun _ => by omega, fun _ => fits, fun _ => by omega, trivial⟩
  · intro _
    simp only [allWithin_cons, touch_within, allWithin_nil, size]
    exact ⟨fun _ => by omega, fun _ => by omega, trivial⟩
  · intro _
    split
    · exact allWithin_nil
    · rename_i ifc nexthop _
      have whole : 14 + 20 + plen ≤ size room .outFrame := by
        simp only [size]
        omega
      refine allWithin_cons.mpr ⟨by simp [size], .ite (fun _ => ?_) fun _ => .ite ?_ ?_⟩
      · exact allWithin_cons.mpr ⟨by simp [size], sendFrame_within ifc whole⟩
      · intro _
        refine allWithin_append.mpr ⟨?_, arpRequest_within ifc⟩
        simp only [allWithin_cons, touch_within, allWithin_nil, size]
        exact ⟨fun _ => by omega, fun _ => by omega, trivial⟩
      · exact fun _ => allWithin_nil

theorem arpLearn_within (ifc ip : Nat) {mac : Nat} (held : mac + 6 ≤ room) :
    AllWithin (size room) (h.arpLearn ifc ip mac) := by
  refine .ite (fun _ => allWithin_nil) fun _ => ?_
  have address : (touch .received mac 6).Within (size room) := by
    rw [touch_within]
    exact fun _ => held
  refine allWithin_cons.mpr ⟨address, allWithin_flatMap fun p _ => ?_⟩
  have short : p.len ≤ size room .pendFrame := by
    have most := p.short
    simp only [size, ipPayloadMax] at most ⊢
    omega
  refine allWithin_append.mpr ⟨?_, sendFrame_within ifc short⟩
  exact allWithin_cons.mpr ⟨address, by simp [size]⟩

theorem arpRespond_within (held : 42 ≤ room) : AllWithin (size room) (h.arpRespond ifc) := by
  refine allWithin_append.mpr ⟨?_, sendFrame_within ifc (by simp [size])⟩
  simp only [allWithin_cons, touch_within, allWithin_nil, size, and_true]
  omega

theorem arpInput_within (held : len ≤ room) : AllWithin (size room) (h.arpInput ifc bytes len) := by
  refine .ite (fun _ => allWithin_nil) fun whole => ?_
  refine allWithin_append.mpr ⟨allWithin_append.mpr ⟨?_, .ite (fun _ => ?_) fun _ => ?_⟩,
    .ite (fun _ => ?_) fun _ => ?_⟩
  · simp only [allWithin_cons, touch_within, allWithin_nil, size, and_true]
    omega
  · exact arpLearn_within ifc _ (by omega)
  · exact allWithin_nil
  · exact arpRespond_within ifc (by omega)
  · exact allWithin_nil

theorem dgramPush_within (ci : Nat) (held : start + len ≤ room) :
    AllWithin (size room) (h.dgramPush ci start len) := by
  refine .ite (fun _ => allWithin_nil) fun _ => ?_
  simp only [allWithin_cons, touch_within, allWithin_nil, size, dgramBytes, and_true]
  omega

theorem icmpEchoReply_within (id : Nat) (held : start + len ≤ room) :
    AllWithin (size room) (h.icmpEchoReply id start len) := by
  refine .ite (fun _ => allWithin_nil) fun _ => ?_
  exact .ite (fun _ => allWithin_nil) fun _ => dgramPush_within _ held

/-- A message of `len` bytes at `base` is an echo request. -/
def EchoAsked (bytes : Bytes) (base len : Nat) : Prop :=
  8 ≤ len ∧ ipChecksum bytes base len = 0 ∧ byte bytes base = 8

theorem icmpInput_within_iff (src : Nat) (held : base + len ≤ room) :
    AllWithin (size room) (h.icmpInput src bytes base len) ↔
      (EchoAsked bytes base len → len ≤ ipPayloadMax) := by
  have received : (touch .received base len).Within (size room) := by
    rw [touch_within]
    exact fun _ => held
  unfold Host.icmpInput
  by_cases short : len < 8
  · rw [if_pos short]
    exact ⟨fun _ asked => absurd asked.1 (by omega), fun _ => allWithin_nil⟩
  rw [if_neg short, allWithin_cons, and_iff_right received]
  by_cases broken : ipChecksum bytes base len ≠ 0
  · rw [if_pos broken]
    exact ⟨fun _ asked => absurd asked.2.1 broken, fun _ => allWithin_nil⟩
  rw [if_neg broken]
  by_cases request : byte bytes base = 8
  · rw [if_pos request]
    have asked : EchoAsked bytes base len := ⟨by omega, not_not.mp broken, request⟩
    constructor
    · intro within _
      have copied : (touch .echo 0 len).Within (size room) := within _ (by simp)
      rw [touch_within] at copied
      simpa [size, ipPayloadMax] using copied (by omega)
    · intro fits
      have short : len ≤ 1480 := fits asked
      refine allWithin_append.mpr ⟨?_, ipOutput_within src (by simpa [size] using short)⟩
      simp only [allWithin_cons, touch_within, allWithin_nil, size, and_true]
      omega
  rw [if_neg request]
  refine ⟨fun _ asked => absurd asked.2.2 request, fun _ => .ite (fun _ => ?_) ?_⟩
  · refine allWithin_append.mpr ⟨?_, icmpEchoReply_within _ (by omega)⟩
    simp only [allWithin_cons, touch_within, within_minus, allWithin_nil, size, and_true]
    omega
  · exact fun _ => allWithin_nil

theorem udpInput_within (src dst : Nat) (held : base + len ≤ room) :
    AllWithin (size room) (h.udpInput src dst bytes base len) := by
  refine .ite (fun _ => allWithin_nil) fun whole => ?_
  refine allWithin_cons.mpr ⟨by rw [touch_within]; simp only [size]; omega, ?_⟩
  refine .ite (fun _ => allWithin_nil) fun sane => ?_
  have length : 8 ≤ be16 bytes (base + 4) ∧ be16 bytes (base + 4) ≤ len := by omega
  refine allWithin_cons.mpr ⟨by rw [touch_within]; simp only [size]; omega, ?_⟩
  refine allWithin_cons.mpr ⟨by rw [touch_within]; simp only [size]; omega, ?_⟩
  refine .ite (fun _ => allWithin_nil) fun _ => ?_
  split
  · exact allWithin_nil
  · exact allWithin_cons.mpr ⟨length.1, dgramPush_within _ (by omega)⟩

theorem tcpSend_within (dst : Nat) {syn : Bool} (short : len ≤ Tcp.tcpMss)
    (empty : syn = true → len = 0) : AllWithin (size room) (h.tcpSend dst syn len) := by
  have whole : (if syn then 24 else 20) + len ≤ 1480 := by
    simp only [Tcp.tcpMss] at short
    cases syn with
    | true =>
      have none := empty rfl
      simp only [if_true]
      omega
    | false =>
      simp only [Bool.false_eq_true, if_false]
      omega
  refine allWithin_append.mpr ⟨?_, ipOutput_within dst ?_⟩
  · simp only [allWithin_cons, touch_within, allWithin_nil, size, and_true]
    omega
  · simp only [size]
    omega

theorem tcpOptions_within {hl : Nat} (held : base + hl ≤ room) (fuel o mss : Nat) :
    AllWithin (size room) (tcpOptions bytes base hl fuel o mss).1 := by
  induction fuel generalizing o mss with
  | zero => exact allWithin_nil
  | succ _ ih =>
    rw [tcpOptions]
    split
    · dsimp only
      split_ifs with last pad broken offer
      · simp only [allWithin_cons, touch_within, allWithin_nil, size, and_true]
        omega
      · refine allWithin_cons.mpr ⟨?_, ih _ _⟩
        rw [touch_within]
        simp only [size]
        omega
      · simp only [allWithin_cons, touch_within, allWithin_nil, size, and_true]
        omega
      · refine allWithin_cons.mpr ⟨?_, allWithin_cons.mpr ⟨?_, ih _ _⟩⟩
        · rw [touch_within]
          simp only [size]
          omega
        · rw [touch_within]
          simp only [size]
          omega
      · refine allWithin_cons.mpr ⟨?_, ih _ _⟩
        rw [touch_within]
        simp only [size]
        omega
    · exact allWithin_nil

theorem dataTcb_fits {now : Nat} {t acked : Tcb} {seg : Segment} (fits : Fits t)
    (found : dataTcb hz now t seg = some acked) : Fits acked := by
  unfold dataTcb at found
  split at found
  · cases found
  · cases found
  · cases found
  · split_ifs at found
    obtain ⟨taken, took, rest⟩ := Option.bind_eq_some_iff.mp found
    split_ifs at rest
    obtain rfl := Option.some.inj rest
    exact Tcp.afterFin_fits (Tcp.takeAck_fits fits took)

theorem payload_within {t : Tcb} {seg : Segment} {data : Nat} (fits : Fits t)
    (held : data + seg.dlen ≤ room) : AllWithin (size room) (payload t seg data) := by
  refine .ite (fun fresh => ?_) fun _ => allWithin_nil
  have begins := fresh.2
  have read : data + Tcp.skipped t seg + Tcp.kept t seg ≤ room := by
    simp only [Tcp.kept]
    omega
  refine allWithin_append.mpr ⟨?_, fun touch' member => ?_⟩
  · simp only [allWithin_cons, touch_within, allWithin_nil, and_true]
    exact ⟨Nat.le_of_lt begins, fits.room, fun _ => read⟩
  · obtain ⟨i, -, rfl⟩ := List.mem_map.mp member
    rw [touch_within]
    intro _
    exact Nat.mod_lt _ (by decide)

theorem answers_within (raddr : Nat) (before : Tcb) {after : Tcb} (fits : Fits after) :
    AllWithin (size room) (h.answers raddr before after) := by
  refine allWithin_flatMap fun sent member => ?_
  obtain ⟨short, empty⟩ := fits.sent sent (List.mem_of_mem_drop member)
  exact tcpSend_within raddr short fun syn => by rw [empty syn, List.length_nil]

theorem sendRst_within (src : Nat) (seg : Segment) : AllWithin (size room) (h.sendRst src seg) := by
  exact .ite (fun _ => allWithin_nil) fun _ =>
    tcpSend_within src (Nat.zero_le _) fun syn => by cases syn

theorem listenInput_within (li src : Nat) (seg : Segment) :
    AllWithin (size room) (h.listenInput li src seg) := by
  refine .ite (fun _ => allWithin_nil) fun _ => .ite (fun _ => sendRst_within src seg) fun _ =>
    .ite (fun _ => allWithin_nil) fun _ => ?_
  split
  · exact allWithin_nil
  · split
    · exact allWithin_nil
    · exact .ite (fun _ => allWithin_nil) fun _ =>
        tcpSend_within src (Nat.zero_le _) fun _ => rfl

theorem tcpInput_within (fit : StockFits h.stock) (src dst : Nat) (held : base + len ≤ room) :
    AllWithin (size room) (h.tcpInput hz src dst bytes base len) := by
  refine .ite (fun _ => allWithin_nil) fun whole => ?_
  refine allWithin_cons.mpr ⟨by rw [touch_within]; exact fun _ => held, ?_⟩
  refine .ite (fun _ => allWithin_nil) fun _ => ?_
  refine allWithin_cons.mpr ⟨by rw [touch_within]; simp only [size]; omega, ?_⟩
  refine .ite (fun _ => allWithin_nil) fun sane => ?_
  refine allWithin_cons.mpr ⟨by rw [within_minus]; omega,
    allWithin_append.mpr ⟨tcpOptions_within (by omega) _ _ _, ?_⟩⟩
  split
  · exact sendRst_within src _
  · rename_i ti _
    refine .ite (fun _ => listenInput_within ti src _) fun _ => ?_
    have fits : Fits (viewed h.stock.tables ti) := fit.blocks.viewed ti
    refine allWithin_append.mpr ⟨?_, answers_within _ _ (Tcp.tcpInput_fits fits)⟩
    split
    · rename_i t found
      refine payload_within (dataTcb_fits fits found) ?_
      simp only [segmentAt, Segment.dlen, List.length_map, List.length_range]
      omega
    · exact sendRst_within src _

/-- A packet that `ip_input` gives to its protocol. -/
structure Accepted (h : Host) (ifc : Option Nat) (bytes : Bytes) (base len : Nat) : Prop where
  headed : 20 ≤ len
  version : byte bytes base / 16 = 4
  header : 20 ≤ ihl bytes base
  covers : ihl bytes base ≤ total bytes base
  whole : total bytes base ≤ len
  checked : ipChecksum bytes base (ihl bytes base) = 0
  alone : be16 bytes (base + 6) % 0x4000 = 0
  ours : ∀ i, ifc = some i → h.isLocalIp (be32 bytes (base + 16)) = true ∨
    isBroadcastFor (h.ifaces i) (be32 bytes (base + 16)) = true

def Echoes (h : Host) (ifc : Option Nat) (bytes : Bytes) (base len : Nat) : Prop :=
  Accepted h ifc bytes base len ∧ byte bytes (base + 9) = 1 ∧
    EchoAsked bytes (base + ihl bytes base) (total bytes base - ihl bytes base)

theorem protocolInput_within_iff (fit : StockFits h.stock) (held : base + total bytes base ≤ room)
    (covers : ihl bytes base ≤ total bytes base) :
    AllWithin (size room) (protocolInput hz h bytes base) ↔
      (byte bytes (base + 9) = 1 →
        EchoAsked bytes (base + ihl bytes base) (total bytes base - ihl bytes base) →
          total bytes base - ihl bytes base ≤ ipPayloadMax) := by
  have inside : base + ihl bytes base + (total bytes base - ihl bytes base) ≤ room := by omega
  unfold protocolInput
  split_ifs with icmp udp tcp
  · rw [icmpInput_within_iff _ inside]
    exact ⟨fun fits _ => fits, fun fits => fits icmp⟩
  · exact ⟨fun _ echo => absurd echo icmp, fun _ => udpInput_within _ _ inside⟩
  · exact ⟨fun _ echo => absurd echo icmp, fun _ => tcpInput_within fit _ _ inside⟩
  · exact ⟨fun _ echo => absurd echo icmp, fun _ => allWithin_nil⟩

theorem ipInput_within_iff (fit : StockFits h.stock) (ifc : Option Nat) (held : base + len ≤ room) :
    AllWithin (size room) (h.ipInput hz ifc bytes base len) ↔
      (Echoes h ifc bytes base len → total bytes base - ihl bytes base ≤ ipPayloadMax) := by
  have refuted : ∀ {touches : Touches}, ¬ Accepted h ifc bytes base len →
      AllWithin (size room) touches → (AllWithin (size room) touches ↔
        (Echoes h ifc bytes base len → total bytes base - ihl bytes base ≤ ipPayloadMax)) :=
    fun refused within => ⟨fun _ echo => absurd echo.1 refused, fun _ => within⟩
  have reads : ∀ start count, start + count ≤ base + len →
      (touch .received start count).Within (size room) := by
    intro start count inside
    rw [touch_within]
    simp only [size]
    omega
  unfold Host.ipInput
  by_cases short : len < 20
  · rw [if_pos short]
    exact refuted (fun accepted => absurd accepted.headed (by omega)) allWithin_nil
  rw [if_neg short, allWithin_cons, and_iff_right (reads base 1 (by omega))]
  by_cases other : byte bytes base / 16 ≠ 4
  · rw [if_pos other]
    exact refuted (fun accepted => other accepted.version) allWithin_nil
  rw [if_neg other]
  rw [allWithin_cons, and_iff_right (reads (base + 2) 2 (by omega))]
  by_cases wrong : ihl bytes base < 20 ∨ total bytes base < ihl bytes base ∨
      total bytes base > len
  · rw [if_pos wrong]
    refine refuted (fun accepted => ?_) allWithin_nil
    have header := accepted.header
    have covers := accepted.covers
    have whole := accepted.whole
    omega
  rw [if_neg wrong, allWithin_cons, and_iff_right (reads base _ (by omega))]
  by_cases broken : ipChecksum bytes base (ihl bytes base) ≠ 0
  · rw [if_pos broken]
    exact refuted (fun accepted => broken accepted.checked) allWithin_nil
  rw [if_neg broken, allWithin_cons, and_iff_right (reads (base + 6) 2 (by omega))]
  by_cases fragment : be16 bytes (base + 6) % 0x4000 ≠ 0
  · rw [if_pos fragment]
    exact refuted (fun accepted => fragment accepted.alone) allWithin_nil
  rw [if_neg fragment, allWithin_cons, and_iff_right (reads (base + 12) 8 (by omega))]
  by_cases foreign : ifc.any (fun i => !h.isLocalIp (be32 bytes (base + 16)) &&
      !isBroadcastFor (h.ifaces i) (be32 bytes (base + 16))) = true
  · rw [if_pos foreign]
    refine refuted (fun accepted => ?_) allWithin_nil
    cases ifc with
    | none => exact absurd foreign Bool.false_ne_true
    | some i =>
      rw [Option.any_some] at foreign
      obtain ⟨away, unheard⟩ := Bool.and_eq_true_iff.mp foreign
      rw [Bool.not_eq_true'] at away unheard
      rcases accepted.ours i rfl with here | here
      · exact absurd (away.symm.trans here) Bool.false_ne_true
      · exact absurd (unheard.symm.trans here) Bool.false_ne_true
  rw [if_neg foreign, allWithin_append]
  have accepted : Accepted h ifc bytes base len := by
    refine ⟨by omega, not_not.mp other, by omega, by omega, by omega, not_not.mp broken,
      not_not.mp fragment, fun i same => ?_⟩
    subst same
    rw [Option.any_some, Bool.and_eq_true_iff, Bool.not_eq_true', Bool.not_eq_true'] at foreign
    by_contra neither
    obtain ⟨away, unheard⟩ := not_or.mp neither
    exact foreign ⟨Bool.eq_false_iff.mpr away, Bool.eq_false_iff.mpr unheard⟩
  have heads : AllWithin (size room)
      [touch .received (base + 9) 1, .minus (total bytes base) (ihl bytes base)] := by
    simp only [allWithin_cons, within_minus, allWithin_nil, and_true]
    exact ⟨reads _ _ (by omega), by omega⟩
  rw [and_iff_right heads, protocolInput_within_iff fit (by omega) (by omega)]
  exact ⟨fun fits echo => fits echo.2.1 echo.2.2,
    fun fits icmp asked => fits ⟨accepted, icmp, asked⟩⟩

@[simp] theorem before_fst {Result : Type} (touches : Touches) (rest : Touches × Result) :
    (before touches rest).1 = touches ++ rest.1 := rfl

@[simp] theorem before_snd {Result : Type} (touches : Touches) (rest : Touches × Result) :
    (before touches rest).2 = rest.2 := rfl

def PlacesFit (bytes : Bytes) (room : Nat) (places : List (Nat × Nat)) : Prop :=
  ∀ early place late, places = early ++ place :: late →
    (∀ other ∈ early, byte bytes other.1 = other.2) → place.1 < room

theorem expects_within_iff (places : List (Nat × Nat)) :
    AllWithin (size room) (expects bytes places).1 ↔ PlacesFit bytes room places := by
  induction places with
  | nil =>
    refine ⟨fun _ early place late split => ?_, fun _ => allWithin_nil⟩
    cases early <;> cases split
  | cons first others ih =>
    obtain ⟨i, value⟩ := first
    rw [expects, before_fst, List.singleton_append, allWithin_cons, touch_within]
    constructor
    · rintro ⟨inside, rest⟩ early place late split same
      cases early with
      | nil =>
        cases split
        exact inside Nat.one_pos
      | cons _ early =>
        obtain ⟨rfl, rfl⟩ := List.cons.inj split
        have found : byte bytes i = value := same _ List.mem_cons_self
        rw [if_pos found] at rest
        exact ih.mp rest early place late rfl fun other member =>
          same other (List.mem_cons_of_mem _ member)
    · intro fits
      refine ⟨fun _ => fits [] (i, value) others rfl (fun _ member => by cases member), ?_⟩
      split
      · rename_i found
        refine ih.mpr fun early place late split same => ?_
        refine fits ((i, value) :: early) place late (by rw [split]; rfl) ?_
        exact List.forall_mem_cons.mpr ⟨found, same⟩
      · exact allWithin_nil

theorem expects_snd (places : List (Nat × Nat)) :
    (expects bytes places).2 = true ↔ ∀ place ∈ places, byte bytes place.1 = place.2 := by
  induction places with
  | nil => simp [expects]
  | cons _ _ ih =>
    rw [expects, before_snd, List.forall_mem_cons]
    split
    · rename_i found
      rw [ih, and_iff_right found]
    · rename_i other
      exact ⟨(fun wrong => by cases wrong), fun all => absurd all.1 other⟩

/-- The option at `i` is followed by another one. -/
inductive Follows (bytes : Bytes) (dhcp dhcpLen i : Nat) : Nat → Prop where
  | pad (inside : i < dhcpLen) (zero : byte bytes (dhcp + i) = 0) :
      Follows bytes dhcp dhcpLen i (i + 1)
  | value (inside : i + 1 < dhcpLen) (real : byte bytes (dhcp + i) ≠ 0)
      (last : byte bytes (dhcp + i) ≠ 255)
      (fits : i + 2 + byte bytes (dhcp + i + 1) ≤ dhcpLen) :
      Follows bytes dhcp dhcpLen i (i + 2 + byte bytes (dhcp + i + 1))

/-- How much of the option at `i` is looked at. -/
def optionRead (bytes : Bytes) (dhcp dhcpLen i : Nat) : Nat :=
  let opt := byte bytes (dhcp + i)
  let len := byte bytes (dhcp + i + 1)
  if opt = 0 ∨ opt = 255 ∨ i + 1 ≥ dhcpLen then 1
  else if i + 2 + len > dhcpLen then 2
  else 2 + optionValue opt len

/-- Every option of a message of `dhcpLen` bytes, from `i` on, lies in the frame as far as it
is looked at. -/
def OptionsFit (bytes : Bytes) (dhcp dhcpLen room i : Nat) : Prop :=
  ∀ j, Relation.ReflTransGen (Follows bytes dhcp dhcpLen) i j → j < dhcpLen →
    dhcp + j + optionRead bytes dhcp dhcpLen j ≤ room

theorem optionsFit_iff {dhcp dhcpLen i : Nat} :
    OptionsFit bytes dhcp dhcpLen room i ↔
      (i < dhcpLen → dhcp + i + optionRead bytes dhcp dhcpLen i ≤ room) ∧
        ∀ j, Follows bytes dhcp dhcpLen i j → OptionsFit bytes dhcp dhcpLen room j := by
  constructor
  · intro fits
    exact ⟨fits i .refl, fun j next k later => fits k (.head next later)⟩
  · rintro ⟨first, others⟩ j later
    rcases later.cases_head with rfl | ⟨k, next, rest⟩
    · exact first
    · exact others k next j rest

theorem dhcpOptions_within_iff {dhcp dhcpLen fuel i : Nat} (reply : DhcpReply)
    (enough : dhcpLen ≤ fuel + i) :
    AllWithin (size room) (dhcpOptions bytes dhcp dhcpLen fuel i reply).1 ↔
      OptionsFit bytes dhcp dhcpLen room i := by
  have none_ : ∀ {i}, ¬ i < dhcpLen → OptionsFit bytes dhcp dhcpLen room i := by
    intro i behind
    refine optionsFit_iff.mpr ⟨fun inside => absurd inside behind, fun j next => ?_⟩
    cases next with
    | pad inside => exact absurd inside behind
    | value => omega
  induction fuel generalizing i reply with
  | zero => exact ⟨fun _ => none_ (by omega), fun _ => allWithin_nil⟩
  | succ fuel ih =>
    rw [dhcpOptions]
    by_cases inside : i < dhcpLen
    case neg =>
      rw [if_neg inside]
      exact ⟨fun _ => none_ inside, fun _ => allWithin_nil⟩
    rw [if_pos inside, optionsFit_iff]
    by_cases last : byte bytes (dhcp + i) = 255
    · have ends : ∀ j, ¬ Follows bytes dhcp dhcpLen i j := by
        rintro j (⟨-, zero⟩ | ⟨-, -, other, -⟩)
        · omega
        · exact other last
      simp [last, ends, optionRead, inside, size]
    by_cases zero : byte bytes (dhcp + i) = 0
    · have next : ∀ j, Follows bytes dhcp dhcpLen i j ↔ j = i + 1 := by
        refine fun j => ⟨?_, fun same => same ▸ .pad inside zero⟩
        rintro (_ | ⟨-, real, -, -⟩)
        · rfl
        · exact absurd zero real
      simp [zero, next, optionRead, inside, size, ih _ (show dhcpLen ≤ fuel + (i + 1) by omega)]
    by_cases cut : i + 1 ≥ dhcpLen
    · have ends : ∀ j, ¬ Follows bytes dhcp dhcpLen i j := by
        rintro j (⟨-, zero'⟩ | ⟨room', -, -, -⟩)
        · exact zero zero'
        · omega
      simp [zero, cut, ends, optionRead, inside, size]
    by_cases long : i + 2 + byte bytes (dhcp + i + 1) > dhcpLen
    · have ends : ∀ j, ¬ Follows bytes dhcp dhcpLen i j := by
        rintro j (⟨-, zero'⟩ | ⟨-, -, -, fits⟩)
        · exact zero zero'
        · omega
      simp [last, zero, cut, long, ends, optionRead, size]
      omega
    · have next : ∀ j, Follows bytes dhcp dhcpLen i j ↔
          j = i + 2 + byte bytes (dhcp + i + 1) := by
        refine fun j => ⟨?_, fun same => same ▸ .value (by omega) zero last (by omega)⟩
        rintro (⟨-, zero'⟩ | _)
        · exact absurd zero' zero
        · rfl
      simp [last, zero, cut, long, next, optionRead, size,
        ih _ (show dhcpLen ≤ fuel + (i + 2 + byte bytes (dhcp + i + 1)) by omega)]
      rw [← and_assoc, ← and_assoc]
      refine and_congr_left fun _ => ?_
      omega

/-- A reply of `dhcpLen` bytes at `dhcp` to the request `xid`. -/
def MessageFits (bytes : Bytes) (xid dhcp dhcpLen room : Nat) : Prop :=
  byte bytes dhcp = 2 → be32 bytes (dhcp + 4) = xid →
    PlacesFit bytes room (cookie dhcp) ∧
      ((∀ place ∈ cookie dhcp, byte bytes place.1 = place.2) →
        OptionsFit bytes dhcp dhcpLen room 240)

theorem dhcpMessage_within_iff (xid : Nat) {dhcp dhcpLen : Nat} (held : dhcp + 20 ≤ room) :
    AllWithin (size room) (dhcpMessage bytes xid dhcp dhcpLen).1 ↔
      MessageFits bytes xid dhcp dhcpLen room := by
  have reads : ∀ start count, start + count ≤ dhcp + 20 →
      AllWithin (size room) [touch .received start count] := by
    simp only [allWithin_cons, touch_within, allWithin_nil, size, and_true]
    omega
  unfold dhcpMessage MessageFits
  rw [before_fst, allWithin_append, and_iff_right (reads dhcp 1 (by omega))]
  by_cases kind : byte bytes dhcp = 2
  case neg =>
    rw [if_pos kind]
    exact ⟨fun _ reply => absurd reply kind, fun _ => allWithin_nil⟩
  rw [if_neg (not_not.mpr kind), before_fst, allWithin_append,
    and_iff_right (reads (dhcp + 4) 4 (by omega))]
  by_cases ours : be32 bytes (dhcp + 4) = xid
  case neg =>
    rw [if_pos ours]
    exact ⟨fun _ _ same => absurd same ours, fun _ => allWithin_nil⟩
  rw [if_neg (not_not.mpr ours)]
  rw [before_fst, allWithin_append, expects_within_iff]
  have magic : (expects bytes (cookie dhcp)).2 = true ↔
      ∀ place ∈ cookie dhcp, byte bytes place.1 = place.2 := expects_snd _
  cases same : (expects bytes (cookie dhcp)).2 with
  | false =>
    rw [same] at magic
    refine ⟨fun within _ _ => ⟨within.1, fun all => ?_⟩, fun fits => ?_⟩
    · cases magic.mpr all
    · exact ⟨(fits kind ours).1, allWithin_nil⟩
  | true =>
    have all := magic.mp same
    simp only [Bool.not_true, Bool.false_eq_true, if_false, before_fst, allWithin_append]
    rw [and_iff_right (reads (dhcp + 16) 4 (by omega)),
      dhcpOptions_within_iff _ (Nat.le_add_right _ _)]
    exact ⟨fun within _ _ => ⟨within.1, fun _ => within.2⟩,
      fun fits => ⟨(fits kind ours).1, (fits kind ours).2 all⟩⟩

structure FromDhcpServer (bytes : Bytes) (len : Nat) : Prop where
  headed : 14 + 20 + 8 + 236 + 4 ≤ len
  packet : be16 bytes 12 = 0x0800
  version : byte bytes 14 / 16 = 4
  udp : byte bytes 23 = 17
  source : be16 bytes (14 + ihl bytes 14) = 67
  dest : be16 bytes (14 + ihl bytes 14 + 2) = 68

def DhcpFits (bytes : Bytes) (xid room : Nat) : Prop :=
  ihl bytes 14 + 8 ≤ total bytes 14 ∧
    (236 + 4 ≤ total bytes 14 - ihl bytes 14 - 8 →
      MessageFits bytes xid (14 + ihl bytes 14 + 8) (total bytes 14 - ihl bytes 14 - 8) room)

theorem byte_lt (bytes : Bytes) (i : Nat) : byte bytes i < 256 := (bytes i).isLt

theorem total_lt (bytes : Bytes) (base : Nat) : total bytes base < 65536 := by
  have high := byte_lt bytes (base + 2)
  have low := byte_lt bytes (base + 2 + 1)
  simp only [total, be16]
  omega

theorem ihl_le (bytes : Bytes) (base : Nat) : ihl bytes base ≤ 60 := by
  simp only [ihl]
  omega

theorem dhcpParse_within_iff (xid : Nat) (held : len ≤ room) :
    AllWithin (size room) (dhcpParse bytes len xid).1 ↔
      (FromDhcpServer bytes len → DhcpFits bytes xid room) := by
  have refuted : ∀ {touches : Touches}, ¬ FromDhcpServer bytes len →
      AllWithin (size room) touches → (AllWithin (size room) touches ↔
        (FromDhcpServer bytes len → DhcpFits bytes xid room)) :=
    fun other within => ⟨fun _ asked => absurd asked other, fun _ => within⟩
  have header := ihl_le bytes 14
  unfold dhcpParse
  by_cases short : len < 14 + 20 + 8 + 236 + 4
  · rw [if_pos short]
    exact refuted (fun asked => absurd asked.headed (by omega)) allWithin_nil
  rw [if_neg short]
  have reads : ∀ start count, start + count ≤ 14 + 20 + 8 + 236 + 4 →
      (touch .received start count).Within (size room) := by
    intro start count inside
    rw [touch_within]
    simp only [size]
    omega
  rw [before_fst, allWithin_append, allWithin_cons, allWithin_cons,
    and_iff_right ⟨reads 12 2 (by omega), reads 14 1 (by omega), allWithin_nil⟩]
  by_cases packet : be16 bytes 12 ≠ 0x0800 ∨ byte bytes 14 / 16 ≠ 4
  · rw [if_pos packet]
    refine refuted (fun asked => ?_) allWithin_nil
    rcases packet with other | other
    · exact other asked.packet
    · exact other asked.version
  rw [if_neg packet, before_fst, allWithin_append, allWithin_cons,
    and_iff_right ⟨reads 23 1 (by omega), allWithin_nil⟩]
  by_cases udp : byte bytes 23 ≠ 17
  · rw [if_pos udp]
    exact refuted (fun asked => udp asked.udp) allWithin_nil
  rw [if_neg udp, before_fst, allWithin_append, allWithin_cons,
    and_iff_right ⟨reads _ 2 (by omega), allWithin_nil⟩]
  by_cases source : be16 bytes (14 + ihl bytes 14) ≠ 67
  · rw [if_pos source]
    exact refuted (fun asked => source asked.source) allWithin_nil
  rw [if_neg source, before_fst, allWithin_append, allWithin_cons,
    and_iff_right ⟨reads _ 2 (by omega), allWithin_nil⟩]
  by_cases dest : be16 bytes (14 + ihl bytes 14 + 2) ≠ 68
  · rw [if_pos dest]
    exact refuted (fun asked => dest asked.dest) allWithin_nil
  have asked : FromDhcpServer bytes len :=
    ⟨by omega, by omega, by omega, not_not.mp udp, not_not.mp source, not_not.mp dest⟩
  have small := total_lt bytes 14
  rw [if_neg dest, before_fst, allWithin_append, allWithin_cons, allWithin_cons, allWithin_cons,
    and_iff_right (reads 16 2 (by omega)), within_minus, within_minus]
  by_cases wraps : ihl bytes 14 + 8 ≤ total bytes 14
  case neg =>
    refine ⟨fun within => ?_, fun fits => absurd (fits asked).1 wraps⟩
    obtain ⟨⟨first, second, -⟩, -⟩ := within
    simp only [minus32] at second
    omega
  have udpLen : minus32 (total bytes 14) (ihl bytes 14) = total bytes 14 - ihl bytes 14 := by
    simp only [minus32]
    omega
  have dhcpLen : minus32 (total bytes 14 - ihl bytes 14) 8 = total bytes 14 - ihl bytes 14 - 8 := by
    simp only [minus32]
    omega
  rw [udpLen, dhcpLen, and_iff_right ⟨by omega, by omega, allWithin_nil⟩]
  by_cases brief : total bytes 14 - ihl bytes 14 - 8 < 236 + 4
  · rw [if_pos brief]
    exact ⟨fun _ _ => ⟨wraps, fun long => absurd long (by omega)⟩, fun _ => allWithin_nil⟩
  rw [if_neg brief, dhcpMessage_within_iff xid (by omega)]
  exact ⟨fun fits _ => ⟨wraps, fun _ => fits⟩, fun fits => (fits asked).2 (by omega)⟩

theorem dhcpInput_within_iff (held : len ≤ room) :
    AllWithin (size room) (h.dhcpInput ifc bytes len).1 ↔
      (FromDhcpServer bytes len → DhcpFits bytes (h.ifaces ifc).xid room) := by
  unfold Host.dhcpInput
  rw [before_fst, allWithin_append, dhcpParse_within_iff _ held]
  refine and_iff_left ?_
  split_ifs
  · refine allWithin_cons.mpr ⟨?_, sendFrame_within ifc (by simp [size])⟩
    simp [size]
  · exact allWithin_nil
  · exact allWithin_nil
  · exact allWithin_nil

theorem dhcpInput_other (ifc len : Nat) (other : byte bytes 23 ≠ 17) :
    (h.dhcpInput ifc bytes len).2 = h.ifaces ifc := by
  have none_ : (dhcpParse bytes len (h.ifaces ifc).xid).2 = noReply := by
    simp only [dhcpParse]
    split
    · rfl
    · split
      · rfl
      · rfl
  unfold Host.dhcpInput
  dsimp only
  rw [none_]
  simp [noReply]

theorem withIface_self : h.withIface ifc (h.ifaces ifc) = h := by
  unfold Host.withIface
  rw [Function.update_eq_self]

/-- The condition for a frame of `len` bytes in a buffer of `room`. -/
structure FrameFits (h : Host) (ifc : Nat) (bytes : Bytes) (len room : Nat) : Prop where
  dhcp : (h.ifaces ifc).dhcp = .selecting ∨ (h.ifaces ifc).dhcp = .requesting →
    FromDhcpServer bytes len → DhcpFits bytes (h.ifaces ifc).xid room
  echo : be16 bytes 12 = 0x0800 → Echoes h (some ifc) bytes 14 (len - 14) →
    total bytes 14 - ihl bytes 14 ≤ ipPayloadMax

theorem ethInput_within_iff (fit : StockFits h.stock) (ifc : Nat) (held : len ≤ room) :
    AllWithin (size room) (h.ethInput hz ifc bytes len) ↔ FrameFits h ifc bytes len room := by
  unfold Host.ethInput
  by_cases short : len < 14
  · rw [if_pos short]
    refine ⟨fun _ => ⟨fun _ asked => ?_, fun _ echo => ?_⟩, fun _ => allWithin_nil⟩
    · exact absurd asked.headed (by omega)
    · exact absurd echo.1.headed (by omega)
  have type : (touch .received 12 2).Within (size room) := by
    rw [touch_within]
    simp only [size]
    omega
  rw [if_neg short, allWithin_cons, and_iff_right type]
  by_cases arp : be16 bytes 12 = 0x0806
  · rw [if_pos arp]
    refine ⟨fun _ => ⟨fun _ asked => ?_, fun packet => ?_⟩, fun _ => arpInput_within ifc held⟩
    · exact absurd (arp.symm.trans asked.packet) (by decide)
    · exact absurd (arp.symm.trans packet) (by decide)
  rw [if_neg arp]
  by_cases packet : be16 bytes 12 = 0x0800
  case neg =>
    rw [if_pos packet]
    exact ⟨fun _ => ⟨fun _ asked => absurd asked.packet packet, fun same => absurd same packet⟩,
      fun _ => allWithin_nil⟩
  rw [if_neg (not_not.mpr packet)]
  have behind : 14 + (len - 14) ≤ room := by omega
  have minus : (Touch.minus len 14 : Touch Buf).Within (size room) := by
    rw [within_minus]
    omega
  by_cases asking : (h.ifaces ifc).dhcp = .selecting ∨ (h.ifaces ifc).dhcp = .requesting
  case neg =>
    rw [if_neg asking, allWithin_cons, and_iff_right minus, ipInput_within_iff fit _ behind]
    exact ⟨fun fits => ⟨fun asks => absurd asks asking, fun _ => fits⟩,
      fun fits => fits.echo packet⟩
  rw [if_pos asking]
  rw [allWithin_append, allWithin_cons, and_iff_right minus, dhcpInput_within_iff ifc held,
    ipInput_within_iff (h := h.withIface ifc _) fit _ behind]
  -- an echo request is no reply of a server, and finds the interface as it was
  have same : Echoes (h.withIface ifc (h.dhcpInput ifc bytes len).2) (some ifc) bytes 14
      (len - 14) ↔ Echoes h (some ifc) bytes 14 (len - 14) := by
    by_cases icmp : byte bytes (14 + 9) = 1
    · rw [dhcpInput_other ifc len (by rw [icmp]; decide), withIface_self]
    · exact ⟨fun echo => absurd echo.2.1 icmp, fun echo => absurd echo.2.1 icmp⟩
  rw [same]
  exact ⟨fun within => ⟨fun _ => within.1, fun _ => within.2⟩,
    fun fits => ⟨fits.dhcp asking, fits.echo packet⟩⟩

end Frames

end Racccoon.Net.Bounds
