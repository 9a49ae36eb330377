import Mathlib.Algebra.Group.Int.Defs
import Racccoon.Net.FileRequests
import Racccoon.Net.FrameBounds

/-!
Where the touches of `FileRequests` stay inside: everywhere but in the moving of a list to a
start index that is negative as an `int`. With `FrameBounds` this is what holds of whatever
ipd is given.
-/

namespace Racccoon.Net.Bounds

open Racccoon.Net.Parked (StockFits fsMsgMax dgramBytes)
open Racccoon.Tcp (Tcb Fits)

section Requests
variable {room hz : Nat} {h : Host} {bytes : Bytes}

/-- A scan whose touches lie inside and whose results end at the NUL at the latest. -/
structure Scanned {Result : Type} (room stop : Nat) (ends : Result → Nat)
    (scan : Touches × Option Result) : Prop where
  within : AllWithin (size room) scan.1
  ends : ∀ result, scan.2 = some result → ends result ≤ stop

section Texts
variable {Result : Type} {ends : Result → Nat} {buffer : Buf} {text : Bytes} {stop i : Nat}

theorem Scanned.none : Scanned room stop ends ([], Option.none) :=
  ⟨allWithin_nil, fun _ found => by cases found⟩

theorem Scanned.some {result : Result} (inside : ends result ≤ stop) :
    Scanned room stop ends ([], some result) := by
  refine ⟨allWithin_nil, fun other found => ?_⟩
  obtain rfl := Option.some.inj found
  exact inside

theorem Scanned.before {touches : Touches} {scan : Touches × Option Result}
    (within : AllWithin (size room) touches) (rest : Scanned room stop ends scan) :
    Scanned room stop ends (before touches scan) :=
  ⟨allWithin_append.mpr ⟨within, rest.within⟩, rest.ends⟩

structure Ended (room : Nat) (buffer : Buf) (text : Bytes) (stop : Nat) : Prop where
  nul : byte text stop = 0
  inside : stop < size room buffer

section
variable (ended : Ended room buffer text stop) (early : i ≤ stop)
include ended early

theorem Ended.read : AllWithin (size room) [touch buffer i 1] := by
  have inside := ended.inside
  simp only [allWithin_cons, touch_within, allWithin_nil, and_true]
  omega

theorem Ended.next (more : byte text i ≠ 0) : i + 1 ≤ stop := by
  have other : i ≠ stop := fun same => more (same ▸ ended.nul)
  omega

def full (word : List Char) : Bool := word.all fun c => c.toNat != 0

theorem spells_within (word : List Char) (whole : full word = true) :
    AllWithin (size room) (spells buffer text i word).1 ∧
      ((spells buffer text i word).2 = true → i + word.length ≤ stop) := by
  induction word generalizing i with
  | nil => exact ⟨allWithin_nil, fun _ => early⟩
  | cons c others ih =>
    obtain ⟨first, rest⟩ := Bool.and_eq_true_iff.mp whole
    rw [spells, before_fst, allWithin_append, and_iff_right (ended.read early)]
    split
    · rename_i same
      have later : i + 1 ≤ stop := ended.next early (same ▸ bne_iff_ne.mp first)
      obtain ⟨within, ends⟩ := ih later rest
      refine ⟨within, fun found => ?_⟩
      have behind := ends found
      rw [List.length_cons]
      omega
    · exact ⟨allWithin_nil, fun wrong => by cases wrong⟩

end

theorem isDigit_ne_zero {c : Nat} (digit : isDigit c = true) : c ≠ 0 := by
  rintro rfl
  cases digit

theorem numberFrom_within (ended : Ended room buffer text stop) (fuel value : Nat)
    (early : i ≤ stop) : Scanned room stop Prod.snd (numberFrom buffer text fuel i value) := by
  induction fuel generalizing i value with
  | zero => exact .none
  | succ fuel ih =>
    refine .before (ended.read early) ?_
    split
    · rename_i digit
      dsimp only
      split
      · exact .none
      · exact ih _ (ended.next early (isDigit_ne_zero digit))
    · exact .some early

theorem parseUint_within (ended : Ended room buffer text stop) (early : i ≤ stop) :
    Scanned room stop Prod.snd (parseUint buffer text i) := by
  refine .before (ended.read early) ?_
  split
  · exact numberFrom_within ended _ 0 early
  · exact .none

theorem parseIp_within (ended : Ended room buffer text stop) (parts ip : Nat)
    (early : i ≤ stop) : Scanned room stop Prod.snd (parseIp buffer text parts i ip) := by
  induction parts generalizing i ip with
  | zero => exact .some early
  | succ parts ih =>
    have number := parseUint_within ended early
    refine .before number.within ?_
    split
    · exact .none
    · rename_i value j found
      have inside : j ≤ stop := number.ends _ found
      split_ifs
      · exact .none
      · exact .some inside
      · rename_i dot
        exact .before (ended.read inside) (ih _ (ended.next inside (by rw [dot]; decide)))
      · exact .before (ended.read inside) .none

end Texts

section Paths
variable {p : Bytes} {stop i : Nat}

section
variable (ended : Ended room .path p stop) (early : i ≤ stop)
include ended early

theorem pathSeg_within (name : List Char)
    (whole : full name = true) : Scanned room stop id (pathSeg p i name) := by
  obtain ⟨within, ends⟩ := spells_within ended early name whole
  refine .before within ?_
  split
  · rename_i found
    refine .before (ended.read (ends found)) ⟨allWithin_nil, fun j same => ?_⟩
    split_ifs at same
    obtain rfl := Option.some.inj same
    exact ends found
  · exact .none

theorem pathAny_within {Item : Type}
    (names : List (List Char × Item)) (whole : names.all (fun name => full name.1) = true) :
    Scanned room stop Prod.snd (pathAny p i names) := by
  induction names with
  | nil => exact .none
  | cons first others ih =>
    obtain ⟨name, item⟩ := first
    obtain ⟨here, rest⟩ := Bool.and_eq_true_iff.mp whole
    have seg := pathSeg_within ended early name here
    refine .before seg.within ?_
    split
    · rename_i j found
      exact .some (seg.ends j found)
    · exact ih rest

theorem endsAs_within (np : Npath)
    (kind : FileKind) : AllWithin (size room) (endsAs p i np kind).1 := ended.read early

theorem ipifcPath_within : AllWithin (size room) (h.ipifcPath p i).1 := by
  refine allWithin_append.mpr ⟨ended.read early, ?_⟩
  split
  · exact allWithin_nil
  · rename_i more
    have number := parseUint_within ended (ended.next early more)
    refine allWithin_append.mpr ⟨number.within, ?_⟩
    split
    · exact allWithin_nil
    · rename_i n j found
      have inside : j ≤ stop := number.ends _ found
      split
      · exact allWithin_nil
      · refine allWithin_append.mpr ⟨ended.read inside, ?_⟩
        split
        · exact allWithin_nil
        · rename_i other
          have seg := pathSeg_within ended (ended.next inside other)
            ['s', 't', 'a', 't', 'u', 's'] rfl
          refine allWithin_append.mpr ⟨seg.within, ?_⟩
          split
          · exact allWithin_nil
          · rename_i k ends
            exact endsAs_within ended (seg.ends k ends) _ _

theorem convPath_within (proto : Proto)
    (np : Npath) : AllWithin (size room) (Host.convPath p i proto np).1 := by
  refine allWithin_append.mpr ⟨ended.read early, ?_⟩
  split
  · exact allWithin_nil
  · rename_i more
    have later := ended.next early more
    have file := pathAny_within ended later convFiles rfl
    refine allWithin_append.mpr ⟨file.within, ?_⟩
    split
    · exact endsAs_within ended later _ _
    · rename_i kind j found
      exact endsAs_within ended (file.ends _ found) _ _

theorem protoPath_within (proto : Proto) : AllWithin (size room) (h.protoPath p i proto).1 := by
  refine allWithin_append.mpr ⟨ended.read early, ?_⟩
  split
  · exact allWithin_nil
  · rename_i more
    have later := ended.next early more
    have clone := pathSeg_within ended later ['c', 'l', 'o', 'n', 'e'] rfl
    refine allWithin_append.mpr ⟨clone.within, ?_⟩
    split
    · rename_i j found
      exact endsAs_within ended (clone.ends j found) _ _
    · have number := parseUint_within ended later
      refine allWithin_append.mpr ⟨number.within, ?_⟩
      split
      · exact allWithin_nil
      · rename_i n j found
        dsimp only
        split
        · exact allWithin_nil
        · exact convPath_within ended (number.ends _ found) _ _

end
theorem netParse_within (ended : Ended room .path p stop) :
    AllWithin (size room) (h.netParse p).1 := by
  unfold Host.netParse
  generalize first : (if byte p 0 = '/'.toNat then 1 else 0) = i
  have early : i ≤ stop := by
    split_ifs at first with slash
    · exact first ▸ ended.next (Nat.zero_le _) (by rw [slash]; decide)
    · exact first ▸ Nat.zero_le _
  have heads : AllWithin (size room) [touch .path 0 1, touch .path i 1] :=
    allWithin_append.mpr ⟨ended.read (Nat.zero_le _), ended.read early⟩
  refine allWithin_append.mpr ⟨heads, ?_⟩
  split
  · exact allWithin_nil
  · have arp := pathSeg_within ended early ['a', 'r', 'p'] rfl
    refine allWithin_append.mpr ⟨arp.within, ?_⟩
    split
    · rename_i j found
      exact endsAs_within ended (arp.ends j found) _ _
    · have ipifc := pathSeg_within ended early ['i', 'p', 'i', 'f', 'c'] rfl
      refine allWithin_append.mpr ⟨ipifc.within, ?_⟩
      split
      · rename_i j found
        exact ipifcPath_within ended (ipifc.ends j found)
      · have proto := pathAny_within ended early protoNames rfl
        refine allWithin_append.mpr ⟨proto.within, ?_⟩
        split
        · rename_i kind j found
          exact protoPath_within ended (proto.ends _ found) kind
        · exact allWithin_nil

end Paths

theorem replyInt_within {datalen : Nat} (fits : datalen ≤ fsMsgMax - 4) :
    AllWithin (size room) (replyInt datalen) := by
  simp only [fsMsgMax] at fits
  simp only [replyInt, allWithin_cons, touch_within, allWithin_nil, size, and_true]
  omega

theorem tcpRead_le (t : Tcb) (maxlen : Nat) :
    (Tcp.tcpRead t maxlen).2.1.length ≤ maxlen ∧ (Tcp.tcpRead t maxlen).1 ≤ maxlen := by
  have none_ : ∀ value : Int, value ≤ 0 → ([] : List Tcp.Byte).length ≤ maxlen ∧
      value ≤ maxlen := fun value low => ⟨Nat.zero_le _, by omega⟩
  unfold Tcp.tcpRead
  split_ifs
  · exact none_ 0 (by decide)
  · exact none_ (-1) (by decide)
  · exact none_ (-1) (by decide)
  · exact none_ 0 (by decide)
  · exact none_ 0 (by decide)
  · exact none_ Tcp.netRetry (by decide)
  · dsimp only
    rw [Ring.read_length]
    omega

theorem convReadNow_le (s : Parked.Stock) (ci maxlen : Nat) :
    (s.convReadNow ci maxlen).1 ≤ ((fsMsgMax - 4 : Nat) : Int) := by
  unfold Parked.Stock.convReadNow
  simp only [fsMsgMax]
  split
  · dsimp only
    split <;> decide
  · have most := (tcpRead_le (viewed s.tables ‹Nat›) (min maxlen (8192 - 4))).2
    omega
  · split
    · show Tcp.netRetry ≤ _
      decide
    · split_ifs <;> omega

theorem convReadNow_within (fit : StockFits h.stock) (ci maxlen : Nat) :
    AllWithin (size room) (h.convReadNow ci maxlen) := by
  unfold Host.convReadNow
  simp only [fsMsgMax]
  split
  · exact allWithin_nil
  · rename_i ti _ _
    have most := (tcpRead_le (viewed h.stock.tables ti) (min maxlen (8192 - 4))).1
    refine allWithin_cons.mpr ⟨?_, fun touch' member => ?_⟩
    · rw [touch_within]
      simp only [size]
      omega
    · obtain ⟨i, -, rfl⟩ := List.mem_map.mp member
      rw [touch_within]
      intro _
      exact Nat.mod_lt _ (by decide)
  · split
    · exact allWithin_nil
    · rename_i dgram rest queued
      have most := fit.grams ci dgram (queued ▸ List.mem_cons_self)
      simp only [dgramBytes] at most
      simp only [allWithin_cons, touch_within, allWithin_nil, size, and_true]
      split_ifs <;> omega

theorem convStateName_le (s : Tables) (ci : Nat) : (convStateName s ci).length ≤ 12 := by
  unfold convStateName
  split
  · unfold tcpStateName
    split <;> decide
  · split <;> decide

section Format
variable {digits : Nat → Nat} (short : ∀ value, value < 2 ^ 32 → digits value ≤ 10)
include short

theorem uint_digits (value : Nat) : digits (uint value) ≤ 10 :=
  short _ (Nat.mod_lt _ (by decide))

theorem fmtIp_le (ip : Nat) : fmtIp digits ip ≤ 43 := by
  have byte_ : ∀ value, digits (value % 256) ≤ 10 := fun value =>
    short _ (Nat.lt_of_lt_of_le (Nat.mod_lt _ (by decide)) (by decide))
  have first := byte_ (ip / 2 ^ 24)
  have second := byte_ (ip / 2 ^ 16)
  have third := byte_ (ip / 2 ^ 8)
  have last := byte_ ip
  unfold fmtIp
  omega

theorem fmtHostport_le (ip port : Nat) : fmtHostport digits ip port ≤ 55 := by
  have address := fmtIp_le short ip
  have number := uint_digits short port
  unfold fmtHostport
  omega

theorem ifStatusText_le (f : Iface) : ifStatusText digits f ≤ 1024 := by
  have name := f.short
  have ip := fmtIp_le short f.ip
  have mask := fmtIp_le short f.mask
  have gw := fmtIp_le short f.gw
  have dns := fmtIp_le short f.dns
  have rx := uint_digits short f.rxFrames
  have tx := uint_digits short f.txFrames
  have drops := uint_digits short f.drops
  have link : (if f.linkUp then " link up".toList else " link down".toList).length ≤ 10 := by
    split <;> decide
  have dhcp : (if f.dhcp = .bound then " dhcp bound".toList
      else " dhcp waiting".toList).length ≤ 13 := by
    split <;> decide
  have words : " mac ".toList.length = 5 ∧ " ip ".toList.length = 4 ∧
      " mask ".toList.length = 6 ∧ " gw ".toList.length = 4 ∧ " dns ".toList.length = 5 ∧
      " rx ".toList.length = 4 ∧ " tx ".toList.length = 4 ∧ " drops ".toList.length = 7 := by
    decide
  unfold ifStatusText fmtMac
  omega

theorem arpText_le (arp : List ArpEntry) {n : Nat} (begun : n ≤ 1024) :
    arpText digits h n arp ≤ 1024 := by
  induction arp generalizing n with
  | nil => exact begun
  | cons e others ih =>
    rw [arpText]
    split
    · refine ih ?_
      have name := (h.ifaces e.ifc).short
      have address := fmtIp_le short e.ip
      unfold fmtMac
      split_ifs
      · exact begun
      · omega
    · exact begun

theorem statusText_le (ci : Nat) : statusText digits h ci ≤ 1024 := by
  have proto : (protoName (h.stock.tables.convs ci).proto).length ≤ 4 := by
    unfold protoName
    split <;> decide
  have state := convStateName_le h.stock.tables ci
  have number := uint_digits short ci
  have rx := uint_digits short (h.rxPkts ci)
  have tx := uint_digits short (h.txPkts ci)
  have words : " rx ".toList.length = 4 ∧ " tx ".toList.length = 4 := by decide
  unfold statusText
  omega

/-- Every text fits in the buffer that `net_serve_one` has for it. -/
theorem textFile_le {np : Npath} {n : Nat} (found : textFile digits h np = some n) : n ≤ 1024 := by
  unfold textFile at found
  split at found
  · exact Option.some.inj found ▸ ifStatusText_le short _
  · exact Option.some.inj found ▸ arpText_le short h.arp (Nat.zero_le _)
  · have number := uint_digits short ‹Nat›
    have same := Option.some.inj found
    omega
  · have most := fmtHostport_le short
    exact Option.some.inj found ▸ Nat.le_trans (most _ _) (by decide)
  · have most := fmtHostport_le short
    exact Option.some.inj found ▸ Nat.le_trans (most _ _) (by decide)
  · exact Option.some.inj found ▸ statusText_le short _
  · cases found

theorem replyNumber_within (n : Nat) : AllWithin (size room) (replyNumber digits n) := by
  have number := uint_digits short n
  refine allWithin_cons.mpr ⟨?_, replyInt_within ?_⟩
  · rw [touch_within]
    simp only [size]
    omega
  · simp only [fsMsgMax]
    omega

theorem answerRead_within (listens : Bool) {result : Int}
    (fits : result ≤ ((fsMsgMax - 4 : Nat) : Int) ∨ listens = true) :
    AllWithin (size room) (h.answerRead digits listens result) := by
  have bare : AllWithin (size room) (replyInt 0) := replyInt_within (Nat.zero_le _)
  unfold Host.answerRead
  split_ifs with retry full failed text
  · exact bare
  · exact allWithin_nil
  · exact bare
  · exact replyNumber_within short _
  · refine replyInt_within ?_
    have inside := fits.resolve_right text
    omega

theorem readFile_within (fit : StockFits h.stock) (np : Npath) (caller len off : Nat) :
    AllWithin (size room) (h.readFile digits np caller len off) := by
  have bare : AllWithin (size room) (replyInt 0) := replyInt_within (Nat.zero_le _)
  unfold Host.readFile
  split
  · split
    · exact bare
    · split
      · exact bare
      · exact replyNumber_within short _
  · split
    · exact bare
    · split
      · rename_i ci _ _
        exact allWithin_append.mpr ⟨convReadNow_within fit ci len,
          answerRead_within short false (.inl (convReadNow_le _ _ _))⟩
      · exact answerRead_within short true (.inr rfl)
      · split
        · exact bare
        · rename_i n found
          have most := textFile_le short found
          refine allWithin_append.mpr ⟨?_, replyInt_within ?_⟩
          · simp only [allWithin_cons, touch_within, allWithin_nil, size, and_true]
            omega
          · simp only [fsMsgMax]
            omega

end Format

theorem trimmed_le (text : Bytes) (n : Nat) : trimmed text n ≤ n := by
  induction n with
  | zero => exact Nat.le_refl 0
  | succ n ih =>
    rw [trimmed]
    split
    · exact Nat.le_succ_of_le ih
    · exact Nat.le_refl _

theorem command_ended (start len : Nat) :
    Ended room .command (command bytes start len)
      (trimmed (fun i => bytes (start + i)) (min len 127)) where
  nul := by simp [command, byte]
  inside := by
    have most := trimmed_le (fun i => bytes (start + i)) (min len 127)
    simp only [size]
    omega

theorem blockOutput_within (fit : StockFits h.stock) (ci : Nat) {f : Tcb → Tcb}
    (fits : ∀ t, Fits t → Fits (f t)) : AllWithin (size room) (h.blockOutput ci f) := by
  unfold Host.blockOutput
  split
  · exact answers_within _ _ (fits _ (fit.blocks.viewed _))
  · exact allWithin_nil

section Commands
variable {s : Bytes} {stop : Nat}

theorem ctlConnect_within (ended : Ended room .command s stop) (ci : Nat) (early : 8 ≤ stop) :
    AllWithin (size room) (h.ctlConnect ci s) := by
  have ip := parseIp_within ended 4 0 early
  refine allWithin_append.mpr ⟨ip.within, ?_⟩
  split
  · exact allWithin_nil
  · rename_i address i found
    have inside : i ≤ stop := ip.ends _ found
    refine .ite (fun _ => allWithin_nil) fun _ => ?_
    refine allWithin_append.mpr ⟨ended.read inside, .ite (fun _ => allWithin_nil) fun mark => ?_⟩
    have port := parseUint_within ended
      (ended.next inside (by rw [not_not.mp mark]; decide))
    refine allWithin_append.mpr ⟨port.within, ?_⟩
    split
    · exact allWithin_nil
    · exact .ite (fun _ => tcpSend_within _ (Nat.zero_le _) fun _ => rfl) fun _ => allWithin_nil

theorem ctlPort_within (ended : Ended room .command s stop) {i : Nat} (early : i ≤ stop) :
    AllWithin (size room) (Host.ctlPort s i) := by
  refine allWithin_append.mpr ⟨ended.read early, .ite (fun any => ?_) fun _ => ?_⟩
  · have later : i + 1 ≤ stop := ended.next early (by rw [any]; decide)
    refine allWithin_append.mpr ⟨ended.read later, ?_⟩
    split
    · rename_i mark
      exact (parseUint_within ended (ended.next later (by rw [mark]; decide))).within
    · exact (parseUint_within ended early).within
  · exact (parseUint_within ended early).within

theorem firstWord_within (ended : Ended room .command s stop) (words : List (List Char × Touches))
    (each : ∀ word ∈ words, full word.1 = true ∧
      (word.1.length ≤ stop → AllWithin (size room) word.2)) :
    AllWithin (size room) (Host.firstWord s words) := by
  induction words with
  | nil => exact allWithin_nil
  | cons first others ih =>
    obtain ⟨⟨whole, does⟩, rest⟩ := List.forall_mem_cons.mp each
    obtain ⟨within, ends⟩ := spells_within ended (Nat.zero_le stop) first.1 whole
    refine allWithin_append.mpr ⟨within, .ite (fun found => does ?_) fun _ => ih rest⟩
    have behind := ends found
    omega

theorem ctlWords_within (fit : StockFits h.stock) (ended : Ended room .command s stop)
    (ci : Nat) : ∀ word ∈ h.ctlWords ci s, full word.1 = true ∧
      (word.1.length ≤ stop → AllWithin (size room) word.2) := by
  have hangup : full "hangup".toList = true := rfl
  simp only [Host.ctlWords, List.forall_mem_cons]
  refine ⟨⟨rfl, ctlConnect_within ended ci⟩, ⟨rfl, ctlPort_within ended⟩,
    ⟨rfl, ctlPort_within ended⟩, ⟨rfl, fun _ => allWithin_nil⟩,
    ⟨rfl, fun _ => .ite (fun _ => ?_) fun _ => ?_⟩, ⟨hangup, fun _ => ?_⟩, ?_⟩
  · exact blockOutput_within fit ci fun _ => Tcp.tcpShutdown_fits
  · exact (spells_within ended (Nat.zero_le stop) _ hangup).1
  · exact allWithin_append.mpr ⟨blockOutput_within fit ci fun _ => Tcp.tcpAbort_fits,
      replyInt_within (Nat.zero_le _)⟩
  · exact fun _ member => by cases member

end Commands

theorem request_within {start count : Nat} (inside : start + count ≤ fsMsgMax) :
    (touch .request start count).Within (size room) := by
  rw [touch_within]
  exact fun _ => inside

theorem convCtl_within (fit : StockFits h.stock) (ci : Nat) {start len : Nat}
    (inside : start + len ≤ fsMsgMax) : AllWithin (size room) (h.convCtl ci bytes start len) := by
  have ended : Ended room .command (command bytes start len)
      (trimmed (fun i => bytes (start + i)) (min len 127)) := command_ended start len
  refine allWithin_append.mpr ⟨allWithin_cons.mpr ⟨request_within ?_, ?_⟩,
    firstWord_within ended _ (ctlWords_within fit ended ci)⟩
  · omega
  · simp only [allWithin_cons, touch_within, allWithin_nil, size, and_true]
    omega

theorem dgramOutput_within (dst : Nat) {start len : Nat} (inside : start + len ≤ fsMsgMax) :
    AllWithin (size room) (h.dgramOutput dst start len) := by
  refine .ite (fun _ => allWithin_nil) fun short => ?_
  refine allWithin_append.mpr ⟨allWithin_cons.mpr ⟨request_within inside, ?_⟩,
    ipOutput_within dst ?_⟩
  · simp only [allWithin_cons, touch_within, allWithin_nil, size, and_true]
    omega
  · simp only [size]
    omega

section
variable {start len : Nat} (fit : StockFits h.stock) (ci : Nat) (inside : start + len ≤ fsMsgMax)
include fit ci inside

theorem tcpWrite_within : AllWithin (size room) (h.tcpWrite ci bytes start len) := by
  unfold Host.tcpWrite
  split
  · exact allWithin_nil
  · rename_i ti _
    have fits : Fits (viewed h.stock.tables ti) := fit.blocks.viewed ti
    have queued := fits.queued
    refine .ite (fun _ => allWithin_nil) fun _ => ?_
    refine allWithin_append.mpr ⟨?_, answers_within _ _ (Tcp.tcpWrite_fits fits _)⟩
    refine allWithin_cons.mpr ⟨queued, allWithin_cons.mpr ⟨request_within (by omega), ?_⟩⟩
    have ring : size room .sbuf = Tcp.tcpBuf := rfl
    simp only [allWithin_cons, touch_within, allWithin_nil, and_true]
    omega

theorem writeData_within : AllWithin (size room) (h.writeData ci bytes start len) := by
  unfold Host.writeData
  dsimp only
  split
  · exact tcpWrite_within fit ci inside
  · exact .ite (fun _ => allWithin_nil) fun _ => dgramOutput_within _ inside
  · refine .ite (fun _ => .ite (fun headed => ?_) fun _ => allWithin_nil) fun _ =>
      .ite (fun _ => dgramOutput_within _ inside) fun _ => allWithin_nil
    refine allWithin_append.mpr ⟨?_, dgramOutput_within _ (by omega)⟩
    refine allWithin_cons.mpr ⟨request_within (by omega), ?_⟩
    simpa using headed

theorem writeCtl_within : AllWithin (size room) (h.writeCtl ci bytes start len) := by
  refine allWithin_append.mpr ⟨.ite (fun long => ?_) fun _ => allWithin_nil,
    .ite (fun _ => allWithin_nil) fun _ => convCtl_within fit ci inside⟩
  exact allWithin_cons.mpr ⟨request_within (by omega), allWithin_nil⟩

end
theorem writeFile_within (fit : StockFits h.stock) (np : Npath) (caller len : Nat) {start : Nat}
    (begins : start ≤ 108) : AllWithin (size room) (h.writeFile np caller bytes start len) := by
  have bare : AllWithin (size room) (replyInt 0) := replyInt_within (Nat.zero_le _)
  have inside : start + min len (fsMsgMax - 108) ≤ fsMsgMax := by
    simp only [fsMsgMax]
    omega
  unfold Host.writeFile
  split
  · exact bare
  · refine .ite (fun _ => bare) fun _ => allWithin_append.mpr ⟨?_, bare⟩
    split
    · exact writeCtl_within fit _ inside
    · exact writeData_within fit _ inside
    · exact allWithin_nil

def listMost : Nat := convMax + 1

theorem entries_le {np : Npath} {entries : List Entry} (found : h.entries np = some entries) :
    entries.length ≤ listMost := by
  unfold Host.entries at found
  have filtered : ∀ (size : Nat) (keeps : Nat → Bool),
      ((List.range size).filter keeps).length ≤ size := fun size keeps => by
    have most := List.length_filter_le keeps (List.range size)
    rwa [List.length_range] at most
  have convs := filtered convMax
  have ifaces := filtered ifMax
  split at found
  · cases found
    decide
  · cases found
    rw [List.length_map]
    exact Nat.le_trans (ifaces _) (by decide)
  · cases found
    decide
  · cases found
    rw [List.length_cons, List.length_map]
    exact Nat.succ_le_succ (convs _)
  · cases found
    split <;> decide
  · cases found

theorem listAdd_within {count : Nat} (name : Nat) (early : count < listMost) :
    AllWithin (size room) (listAdd count name) := by
  simp only [listMost, convMax] at early
  simp only [listAdd, fsListEntrySize, allWithin_cons, touch_within, allWithin_nil, size, and_true]
  omega

theorem listAdds_within {digits : Nat → Nat} (short : ∀ value, value < 2 ^ 32 → digits value ≤ 10)
    (entries : List Entry) {count : Nat} (early : count + entries.length ≤ listMost) :
    AllWithin (size room) (listAdds digits count entries) := by
  induction entries generalizing count with
  | nil => exact allWithin_nil
  | cons first others ih =>
    rw [List.length_cons] at early
    have rest : AllWithin (size room) (listAdds digits (count + 1) others) := ih (by omega)
    cases first with
    | word name => exact allWithin_append.mpr ⟨listAdd_within _ (by omega), rest⟩
    | number n =>
      have number := uint_digits short n
      refine allWithin_append.mpr
        ⟨allWithin_cons.mpr ⟨?_, listAdd_within _ (by omega)⟩, rest⟩
      rw [touch_within]
      simp only [size]
      omega

/-- The bytes that stay of `count` entries from `start` on, as an `int`. -/
def moved (count start : Nat) : Int := (36 * ((count : Int) - start)).bmod (2 ^ 32)

/-- The condition for a list: the start index is no negative `int`, or so few bytes are moved
that it is none of the list's own. -/
def ListFits (count start : Nat) : Prop := start < 2 ^ 31 ∨ moved count start ≤ 36 * count + 4

section Shift
variable {count start : Nat}

theorem toInt_index (i : Nat) : (4 + BitVec.ofNat 32 i).toInt = (4 + (i : Int)).bmod (2 ^ 32) := by
  simp [BitVec.toInt_ofNat']

theorem toInt_source (start i : Nat) :
    (4 + BitVec.ofNat 32 start * 36 + BitVec.ofNat 32 i).toInt =
      (4 + 36 * (start : Int) + i).bmod (2 ^ 32) := by
  simp [BitVec.toInt_ofNat', Int.mul_comm]

theorem toInt_moved (count start : Nat) :
    ((BitVec.ofNat 32 count - BitVec.ofNat 32 start) * 36).toInt = moved count start := by
  simp [moved, BitVec.toInt_ofNat', Int.mul_comm]

theorem keep_bytes_low (low : start < 2 ^ 31) (few : count ≤ listMost) :
    (keep count start * 36).toInt = 36 * ((count - start : Nat) : Int) := by
  have same : (BitVec.ofNat 32 start).toInt = start := by
    rw [BitVec.toInt_ofNat', Int.bmod_def]
    omega
  simp only [listMost, convMax] at few
  unfold keep
  split
  · rw [toInt_moved, moved, Int.bmod_def]
    omega
  · have none_ : count - start = 0 := by omega
    rw [none_]
    rfl

theorem keep_bytes_high (high : ¬ start < 2 ^ 31) (word : start < 2 ^ 32) :
    (keep count start * 36).toInt = moved count start := by
  have negative : (BitVec.ofNat 32 start).toInt < 0 := by
    rw [BitVec.toInt_ofNat', Int.bmod_def]
    omega
  unfold keep
  rw [if_pos (by omega), toInt_moved]

/-- Where a byte comes from: as far behind the beginning as what stays is short of the list. -/
theorem source_moved (count start i : Nat) :
    ∃ rounds : Int, (4 + 36 * (start : Int) + i).bmod (2 ^ 32) =
      4 + 36 * count - moved count start + i + 2 ^ 32 * rounds := by
  have index : (4 + 36 * (start : Int) + i).bmod (2 ^ 32) +
      2 ^ 32 * (4 + 36 * (start : Int) + i).bdiv (2 ^ 32) = 4 + 36 * (start : Int) + i :=
    Int.bmod_add_bdiv _ _
  have bytes : moved count start + 2 ^ 32 * (36 * ((count : Int) - start)).bdiv (2 ^ 32) =
      36 * ((count : Int) - start) := Int.bmod_add_bdiv _ _
  refine ⟨-((4 + 36 * (start : Int) + i).bdiv (2 ^ 32)) -
    (36 * ((count : Int) - start)).bdiv (2 ^ 32), ?_⟩
  omega

theorem listShift_within_iff :
    AllWithin (size room) (listShift count start) ↔
      ∀ i < (keep count start * 36).toInt.toNat,
        (0 ≤ (4 + 36 * (start : Int) + i).bmod (2 ^ 32) ∧
          (4 + 36 * (start : Int) + i).bmod (2 ^ 32) < 8192) ∧
        (0 ≤ (4 + (i : Int)).bmod (2 ^ 32) ∧ (4 + (i : Int)).bmod (2 ^ 32) < 8192) := by
  have page : size room .page = 8192 := rfl
  have moves : ∀ i : Nat, AllWithin (size room)
      [.bytes .page (4 + BitVec.ofNat 32 start * 36 + BitVec.ofNat 32 i).toInt 1,
        .bytes .page (4 + BitVec.ofNat 32 i).toInt 1] ↔
      (0 ≤ (4 + 36 * (start : Int) + i).bmod (2 ^ 32) ∧
          (4 + 36 * (start : Int) + i).bmod (2 ^ 32) < 8192) ∧
        (0 ≤ (4 + (i : Int)).bmod (2 ^ 32) ∧ (4 + (i : Int)).bmod (2 ^ 32) < 8192) := fun i => by
    rw [allWithin_cons, allWithin_cons, within_bytes, within_bytes, toInt_source, toInt_index]
    simp only [allWithin_nil, and_true]
    omega
  constructor
  · intro within i inside
    exact (moves i).mp fun touch' member =>
      within touch' (List.mem_flatMap.mpr ⟨i, List.mem_range.mpr inside, member⟩)
  · intro all
    exact allWithin_flatMap fun i member => (moves i).mpr (all i (List.mem_range.mp member))

theorem listShift_within (few : count ≤ listMost) (word : start < 2 ^ 32) :
    AllWithin (size room) (listShift count start) ↔ ListFits count start := by
  simp only [listMost, convMax] at few
  rw [listShift_within_iff, ListFits]
  by_cases low : start < 2 ^ 31
  · refine ⟨fun _ => .inl low, fun _ i inside => ?_⟩
    rw [keep_bytes_low low few] at inside
    rw [Int.bmod_def, Int.bmod_def]
    omega
  rw [keep_bytes_high low word]
  constructor
  · intro all
    by_contra many
    -- the first byte comes from before the page, or the last one goes behind it
    by_cases long : 8188 < moved count start
    · have last := (all 8188 (by omega)).2.2
      rw [Int.bmod_def] at last
      omega
    · have first := (all 0 (by omega)).1
      obtain ⟨rounds, same⟩ := source_moved count start 0
      omega
  · intro fits i inside
    obtain ⟨rounds, same⟩ := source_moved count start i
    have word : 0 < 2 ^ 32 := by decide
    have least : -((2 ^ 32 : Nat) / 2 : Int) ≤ (4 + 36 * (start : Int) + i).bmod (2 ^ 32) :=
      Int.le_bmod word
    have most : (4 + 36 * (start : Int) + i).bmod (2 ^ 32) < ((2 ^ 32 : Nat) + 1 : Int) / 2 :=
      Int.bmod_lt word
    rw [same] at least most ⊢
    rw [Int.bmod_def]
    omega

theorem listSent_within (few : count ≤ listMost) (word : start < 2 ^ 32)
    (fits : ListFits count start) : (listSent (keep count start)).Within (size room) := by
  simp only [listMost, convMax] at few
  have page : size room .page = 8192 := rfl
  rw [listSent, touch_within, BitVec.toInt_add]
  have four : (4 : BitVec 32).toInt = 4 := rfl
  by_cases low : start < 2 ^ 31
  · rw [keep_bytes_low low few, Int.bmod_eq_of_le (by omega) (by omega)]
    omega
  · have bytes : moved count start ≤ 36 * count + 4 := fits.resolve_left low
    have word : 0 < 2 ^ 32 := by decide
    have least : -((2 ^ 32 : Nat) / 2 : Int) ≤ moved count start := Int.le_bmod word
    rw [keep_bytes_high low ‹_›, Int.bmod_eq_of_le (by omega) (by omega)]
    omega

end Shift

theorem netList_within_iff {digits : Nat → Nat}
    (short : ∀ value, value < 2 ^ 32 → digits value ≤ 10) (np : Npath) {start : Nat}
    (word : start < 2 ^ 32) :
    AllWithin (size room) (netList digits h np start) ↔
      ∀ entries, h.entries np = some entries → ListFits entries.length start := by
  have head : (touch .page 0 4).Within (size room) := by
    simp [size]
  unfold netList
  cases found : h.entries np with
  | none =>
    exact iff_of_true (allWithin_cons.mpr ⟨head, allWithin_nil⟩) (by rintro _ ⟨⟩)
  | some entries =>
    have few := entries_le found
    have sent : ListFits entries.length start →
        (listSent (keep entries.length start)).Within (size room) := listSent_within few word
    rw [allWithin_append, and_iff_right (listAdds_within short entries (by omega))]
    split
    · rw [allWithin_append, listShift_within few word, allWithin_cons, allWithin_cons,
        and_iff_right head, and_iff_left allWithin_nil]
      constructor
      · rintro ⟨fits, -⟩ other same
        exact Option.some.inj same ▸ fits
      · exact fun fits => ⟨fits entries rfl, sent (fits entries rfl)⟩
    · obtain rfl : start = 0 := by omega
      have fits : ListFits entries.length 0 := .inl (by decide)
      refine ⟨fun _ other same => Option.some.inj same ▸ fits, fun _ => ?_⟩
      refine allWithin_cons.mpr ⟨head, allWithin_cons.mpr ⟨?_, allWithin_nil⟩⟩
      have whole : keep entries.length 0 = BitVec.ofNat 32 entries.length := by
        by_cases empty : entries.length = 0
        · rw [empty]
          rfl
        · have some_ : ((entries.length : Nat) : Int) > (BitVec.ofNat 32 0).toInt := by
            rw [show (BitVec.ofNat 32 0).toInt = 0 from rfl]
            omega
          rw [keep, if_pos some_, BitVec.sub_zero]
      exact whole ▸ listSent_within few (by decide) fits

theorem le32_lt (bytes : Bytes) (i : Nat) : le32 bytes i < 2 ^ 32 := by
  have first := byte_lt bytes i
  have second := byte_lt bytes (i + 1)
  have third := byte_lt bytes (i + 2)
  have last := byte_lt bytes (i + 3)
  unfold le32
  omega

def RequestFits (h : Host) (r : FileRequest) : Prop :=
  r.verb = .list → ∀ entries, h.entries (h.netParse r.path).2 = some entries →
    ListFits entries.length r.off

theorem serveOne_within_iff {digits : Nat → Nat}
    (short : ∀ value, value < 2 ^ 32 → digits value ≤ 10) (fit : StockFits h.stock)
    (r : FileRequest) : AllWithin (size room) (h.serveOne digits r) ↔ RequestFits h r := by
  have ended : Ended room .path r.path 99 := ⟨rfl, by simp [size]⟩
  have heads : AllWithin (size room)
      [touch .request 0 100, touch .path 0 100, touch .request 100 8] := by
    simp [size]
  have bare : AllWithin (size room) (replyInt 0) := replyInt_within (Nat.zero_le _)
  unfold Host.serveOne RequestFits
  rw [allWithin_append, allWithin_append, and_iff_right ⟨heads, netParse_within ended⟩]
  cases r.verb with
  | list =>
    refine (netList_within_iff short (h.netParse r.path).2 (le32_lt r.bytes 104)).trans ?_
    exact ⟨fun fits _ => fits, fun fits => fits rfl⟩
  | stat =>
    refine iff_of_true (allWithin_cons.mpr ⟨by simp [size], replyInt_within ?_⟩) (by rintro ⟨⟩)
    decide
  | read => exact iff_of_true (readFile_within short fit _ _ _ _) (by rintro ⟨⟩)
  | readAt => exact iff_of_true (readFile_within short fit _ _ _ _) (by rintro ⟨⟩)
  | write => exact iff_of_true (writeFile_within fit _ _ _ (by decide)) (by rintro ⟨⟩)
  | writeAt => exact iff_of_true (writeFile_within fit _ _ _ (by decide)) (by rintro ⟨⟩)
  | other => exact iff_of_true bare (by rintro ⟨⟩)

end Requests

/-- What ipd is given: a frame, a packet that `ip_output` looped, or a request. -/
inductive Input where
  | frame (ifc : Nat) (bytes : Bytes) (len : Nat)
  | looped (bytes : Bytes) (len : Nat) (short : len ≤ 20 + ipPayloadMax)
  | request (r : FileRequest)

namespace Input

def len : Input → Nat
  | .frame _ _ len => len
  | .looped _ len _ => len
  | .request _ => 0

def touches (digits : Nat → Nat) (hz : Nat) (h : Host) : Input → Touches
  | .frame ifc bytes len => h.ethInput hz ifc bytes len
  | .looped bytes len _ => h.ipInput hz none bytes 0 len
  | .request r => h.serveOne digits r

/-- When they all stay inside, `room` being the size of the buffer of a frame. -/
def Harmless (h : Host) (room : Nat) : Input → Prop
  | .frame ifc bytes len => FrameFits h ifc bytes len room
  | .looped .. => True
  | .request r => RequestFits h r

end Input

/-- In every state that the daemon comes to, what it does to memory for its input lies within
its buffers, and no length wraps, exactly if the input is harmless. -/
theorem within_iff_harmless (hz : Nat) (digits : Nat → Nat)
    (short : ∀ value, value < 2 ^ 32 → digits value ≤ 10) (d : Parked.Daemon)
    (run : Run.Reach (Parked.step hz) (fun _ _ => True) (Parked.started hz) d) (h : Host)
    (same : h.stock = d.stock) (input : Input) (room : Nat) (held : input.len ≤ room) :
    AllWithin (size room) (input.touches digits hz h) ↔ input.Harmless h room := by
  have fit : StockFits h.stock := same ▸ Parked.run_stockFits run
  cases input with
  | frame ifc bytes len => exact ethInput_within_iff fit ifc held
  | looped bytes len brief =>
    refine iff_of_true ((ipInput_within_iff fit none ((Nat.zero_add len).symm ▸ held)).mpr ?_) trivial
    intro echo
    have whole := echo.1.whole
    have header := echo.1.header
    omega
  | request r => exact serveOne_within_iff short fit r

/-- 10.0.2.15 on the first interface. -/
def homeIface (dhcp : Dhcp) : Iface where
  used := true
  name := "ether0".toList
  short := by decide
  mac := [2, 0, 0, 0, 0, 1]
  six := rfl
  ip := 0x0A00020F
  mask := 0xFFFFFF00
  gw := 0x0A000202
  dns := 0x0A000203
  dhcp := dhcp
  xid := 1
  linkUp := true
  rxFrames := 0
  txFrames := 0
  drops := 0
  txRoom := true

def home (dhcp : Dhcp) : Host where
  now := 0
  procs := fun _ => none
  ifaces := fun _ => homeIface dhcp
  arp := []
  arpPends := []
  loopCount := 0
  stock := (Parked.started 10).stock
  rxPkts := fun _ => 0
  txPkts := fun _ => 0
  pendsFull := false

def startingWith (head : List Nat) : Bytes := fun i => BitVec.ofNat 8 (head.getD i 0)

/-- An echo request from 10.0.2.2 whose IP header says `total` bytes. -/
def echoRequest (total sum : Nat) : Bytes :=
  startingWith [
    2, 0, 0, 0, 0, 1, 2, 0, 0, 0, 0, 2, 0x08, 0x00,
    0x45, 0, total / 256, total % 256, 0, 0, 0, 0, 64, 1, sum / 256, sum % 256,
    10, 0, 2, 2, 10, 0, 2, 15,
    8, 0, 0xF7, 0xFF]

/-- One byte more than the buffer of the reply holds. -/
def bigPing : Input := .frame 0 (echoRequest 1501 0x5D10) 1515

def smallPing : Input := .frame 0 (echoRequest 28 0x62D1) 42

/-- From a DHCP server, with a total length of 0. -/
def emptyOffer : Input :=
  .frame 0 (startingWith [
    2, 0, 0, 0, 0, 1, 2, 0, 0, 0, 0, 2, 0x08, 0x00,
    0x45, 0, 0, 0, 0, 0, 0, 0, 64, 17, 0, 0, 10, 0, 2, 2, 10, 0, 2, 15,
    0, 67, 0, 68]) 282

def listFromLast : Input :=
  .request ⟨.list, 1, fun i => if i = 0 then 47 else if 104 ≤ i ∧ i < 108 then 255 else 0⟩

/-- `format_uint` as it is documented. -/
def decimal (value : Nat) : Nat := (Nat.toDigits 10 value).length

theorem decimal_short (value : Nat) (word : value < 2 ^ 32) : decimal value ≤ 10 :=
  (Nat.length_toDigits_le_iff (by decide) (by decide)).mpr (by omega)

/-- A small echo request is answered from the buffer. -/
theorem small_ping_within :
    AllWithin (size 42) (smallPing.touches decimal 10 (home .idle)) ∧
      touch .echo 0 8 ∈ smallPing.touches decimal 10 (home .idle) := by
  refine ⟨(within_iff_harmless 10 decimal decimal_short (Parked.started 10) .start (home .idle)
    rfl smallPing 42 (by decide)).mpr ⟨fun asking => ?_, fun _ _ => ?_⟩, by decide⟩
  · rcases asking with wrong | wrong <;> cases wrong
  · decide

theorem partialSum_quiet {bytes : Bytes} (start len : Nat)
    (quiet : ∀ i, start ≤ i → byte bytes i = 0) : partialSum bytes start len = 0 := by
  induction start, len using partialSum.induct with
  | case1 start => rfl
  | case2 start => rw [partialSum, quiet start (Nat.le_refl start)]
  | case3 start len ih =>
    rw [partialSum, be16, quiet start (Nat.le_refl start), quiet (start + 1) (Nat.le_succ start),
      ih fun i later => quiet i (by omega)]

theorem startingWith_quiet {head : List Nat} {i : Nat} (behind : head.length ≤ i) :
    byte (startingWith head) i = 0 := by
  rw [byte, startingWith, List.getD_eq_getElem?_getD, List.getElem?_eq_none behind]
  rfl

theorem echo_sum (len : Nat) : partialSum (echoRequest 1501 0x5D10) 34 (len + 2 + 2) = 65535 := by
  have rest : partialSum (echoRequest 1501 0x5D10) (34 + 2 + 2) len = 0 :=
    partialSum_quiet (34 + 2 + 2) len fun i later => startingWith_quiet later
  have words : be16 (echoRequest 1501 0x5D10) 34 = 2048 ∧
      be16 (echoRequest 1501 0x5D10) (34 + 2) = 63487 := by decide
  rw [partialSum, partialSum, rest, words.1, words.2]

theorem big_echo_asked : EchoAsked (echoRequest 1501 0x5D10) 34 1481 :=
  ⟨by decide, congrArg checksumFinalize (echo_sum 1477), by decide⟩

theorem big_echo_accepted :
    Accepted (home .idle) (some 0) (echoRequest 1501 0x5D10) 14 1501 where
  headed := by decide
  version := by decide
  header := by decide
  covers := by decide
  whole := by decide
  checked := by decide
  alone := by decide
  ours i same := by
    exact .inl (by decide)

/-- A big one is copied beyond the buffer of the reply, the length of a DHCP message wraps, and
a list is moved from before its page. -/
theorem three_inputs_stray :
    ¬ AllWithin (size linkFrameMax) (bigPing.touches decimal 10 (home .idle)) ∧
      ¬ AllWithin (size linkFrameMax) (emptyOffer.touches decimal 10 (home .selecting)) ∧
      ¬ AllWithin (size linkFrameMax) (listFromLast.touches decimal 10 (home .idle)) := by
  refine ⟨fun within => ?_, ?_, ?_⟩
  · have started : Run.Reach (Parked.step 10) (fun _ _ => True) (Parked.started 10)
        (Parked.started 10) := .start
    have fits := (ethInput_within_iff (Parked.run_stockFits started) 0
      (Nat.le_of_ble_eq_true rfl)).mp within
    have short := fits.echo (by decide) ⟨big_echo_accepted, by decide, ?_⟩
    · exact absurd short (by decide)
    · exact big_echo_asked
  · decide
  · decide

end Racccoon.Net.Bounds
