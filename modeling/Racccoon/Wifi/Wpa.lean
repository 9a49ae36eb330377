import Mathlib.Algebra.GroupWithZero.Nat
import Mathlib.Data.List.Basic

/-!
The WPA2 handshakes of the station (`user/usb/rtl_wpa.c3`) and the data frames it sends
(`rtl_send_data` in `user/usb/rtl8192eu.c3`). The hash and the cipher are parameters; the
keys in the chip's table and the frames handed to it are part of the state.
-/

namespace Racccoon.Wifi

abbrev Byte := BitVec 8

/-- Six bytes. -/
abbrev Mac := List Byte

/-- 32 bytes. -/
abbrev Nonce := List Byte

variable {Pmk Kck Kek Tk : Type}

/-- The pairwise key: the part that signs the handshake, the part that wraps its key data
and the part the data frames are encrypted with. -/
structure Ptk (Kck Kek Tk : Type) where
  kck : Kck
  kek : Kek
  tk : Tk

/-- What the pairwise key is derived from, besides the passphrase. -/
structure PrfInput where
  lowMac : Mac
  highMac : Mac
  lowNonce : Nonce
  highNonce : Nonce
  deriving DecidableEq

structure Crypto (Pmk Kck Kek Tk : Type) where
  prfSha1 : Pmk → PrfInput → Ptk Kck Kek Tk
  /-- 20 bytes. -/
  hmacSha1 : Kck → List Byte → List Byte
  aesKeyUnwrap : Kek → List Byte → Option (List Byte)

/-- What an ideal hash promises: the encryption key tells what it was derived from. -/
def Crypto.Ideal (c : Crypto Pmk Kck Kek Tk) : Prop :=
  ∀ pmk pmk' input input', (c.prfSha1 pmk input).tk = (c.prfSha1 pmk' input').tk →
    input = input'

inductive CamKey (Tk : Type) where
  | pairwise (tk : Tk)
  | group (gtk : List Byte)

structure CamEntry (Tk : Type) where
  keyidx : Nat
  group : Bool
  mac : Mac
  key : CamKey Tk

/-- A frame handed to the chip. A protected one carries the low 48 bits of the packet
number and is encrypted with the key in slot 0. -/
structure TxFrame (Tk : Type) where
  ccmp : Option (Option (CamEntry Tk) × Nat)
  da : Mac
  sa : Mac
  etype : Nat
  payload : List Byte

structure Wpa (Pmk Kck Kek Tk : Type) where
  secure : Bool
  bssid : Mac
  pmk : Pmk
  ptk : Ptk Kck Kek Tk
  ptkOk : Bool
  anonce : Nonce
  snonce : Nonce
  keyed : Bool
  gtkIdx : Nat
  pn : Nat
  handshakes : Nat
  rekeys : Nat
  micFail : Nat
  /-- The chip: whether it encrypts, its key table, and how often a key was put in. -/
  secEnabled : Bool
  cam : Nat → Option (CamEntry Tk)
  camWrites : Nat
  sent : List (TxFrame Tk)
  /-- The replay counters of the frames that set a key, and every nonce a pairwise key was
  derived from. The driver keeps neither. -/
  accepted : List Nat
  nonces : List Nonce

variable (c : Crypto Pmk Kck Kek Tk) (rtlMac : Mac)
variable (s : Wpa Pmk Kck Kek Tk)

def wpaReset : Wpa Pmk Kck Kek Tk :=
  { s with ptkOk := false, keyed := false, pn := 1 }

/-- `rtl_keys_clear`: invalidate the key table, then `wpa_reset`. -/
def rtlKeysClear : Wpa Pmk Kck Kek Tk :=
  wpaReset { s with cam := fun _ => none, secEnabled := false }

/-- `rtl_join_start` as far as the keys go. -/
def rtlJoinStart (secure : Bool) (bssid : Mac) (pmk : Pmk) : Wpa Pmk Kck Kek Tk :=
  { rtlKeysClear s with secure := secure, bssid := bssid, pmk := pmk }

/-- `rtl_send_data`; the packet number is a 64-bit variable. -/
def rtlSendData (da sa : Mac) (etype : Nat) (payload : List Byte) : Wpa Pmk Kck Kek Tk :=
  if payload.length + 40 > 1600 then s
  else if s.keyed then
    { s with
      pn := (s.pn + 1) % 2 ^ 64
      sent := s.sent ++ [⟨some (s.cam 0, s.pn % 2 ^ 48), da, sa, etype, payload⟩] }
  else { s with sent := s.sent ++ [⟨none, da, sa, etype, payload⟩] }

def eapolKeyHdr : Nat := 99

def byteAt (e : List Byte) (i : Nat) : Nat := (e.getD i 0).toNat

def be16 (e : List Byte) (i : Nat) : Nat := byteAt e i * 256 + byteAt e (i + 1)

def putBe16 (v : Nat) : List Byte := [BitVec.ofNat 8 (v / 256), BitVec.ofNat 8 v]

def bigEndian (bytes : List Byte) : Nat := bytes.foldl (fun sum b => sum * 256 + b.toNat) 0

/-- The fields of a frame that passes the checks of its header. -/
structure KeyFrame where
  frame : List Byte
  ver : Byte
  info : Nat
  replay : List Byte
  nonce : Nonce
  kd : List Byte

variable (k : KeyFrame)

def KeyFrame.pairwise : Bool := k.info &&& 0x0008 ≠ 0
def KeyFrame.mic : Bool := k.info &&& 0x0100 ≠ 0
def KeyFrame.encData : Bool := k.info &&& 0x1000 ≠ 0
def KeyFrame.counter : Nat := bigEndian k.replay

/-- The checks in front of `wpa_eapol_rx`; `e` holds the `len` bytes of the frame. -/
def keyFrame (e : List Byte) : Option KeyFrame :=
  let total := 4 + be16 e 2
  let info := be16 e 5
  let kdlen := be16 e 97
  if e.length < eapolKeyHdr ∨ byteAt e 1 ≠ 3 then none
  else if total > e.length ∨ total < eapolKeyHdr then none
  else if byteAt e 4 ≠ 2 then none
  else if info &&& 0x0007 ≠ 2 then none
  else if info &&& 0x0080 = 0 then none
  else if eapolKeyHdr + kdlen > total then none
  else some ⟨e.take total, e.getD 0 0, info, (e.drop 9).take 8, (e.drop 17).take 32,
    (e.drop 99).take kdlen⟩

def bytesLess : List Byte → List Byte → Bool
  | a :: as, b :: bs => if a ≠ b then a < b else bytesLess as bs
  | _, _ => false

def prfInput (bssid anonce snonce : List Byte) : PrfInput :=
  let macsUp := bytesLess bssid rtlMac
  let noncesUp := bytesLess anonce snonce
  ⟨if macsUp then bssid else rtlMac, if macsUp then rtlMac else bssid,
    if noncesUp then anonce else snonce, if noncesUp then snonce else anonce⟩

def wpaDerivePtk : Wpa Pmk Kck Kek Tk :=
  { s with
    ptk := c.prfSha1 s.pmk (prfInput rtlMac s.bssid s.anonce s.snonce)
    ptkOk := true
    nonces := s.anonce :: s.snonce :: s.nonces }

variable (ptk : Ptk Kck Kek Tk)

def wpaMic (frame : List Byte) : List Byte :=
  (c.hmacSha1 ptk.kck frame).take 16

def wpaMicOk (frame : List Byte) : Bool :=
  if frame.length > 1600 then false
  else
    let cleared := frame.take 81 ++ List.replicate 16 0 ++ frame.drop 97
    wpaMic c ptk cleared == (frame.drop 81).take 16

/-- `wpa_send_key`: one EAPOL-Key frame to the access point. -/
def wpaSendKey (ver : Byte) (info : Nat) (replay : List Byte)
    (nonce : Option Nonce) (kd : List Byte) : Wpa Pmk Kck Kek Tk :=
  let blen := 95 + kd.length
  if 4 + blen > 256 then s
  else
    let front := ver :: 3 :: putBe16 blen ++ 2 :: putBe16 info ++ [0, 0] ++ replay ++
      nonce.getD (List.replicate 32 0) ++ List.replicate 32 0
    let back := putBe16 kd.length ++ kd
    let mic := wpaMic c s.ptk (front ++ List.replicate 16 0 ++ back)
    rtlSendData s s.bssid rtlMac 0x888E (front ++ mic ++ back)

/-- `wpa_find_gtk` at the front of the key data: each element takes two bytes or more, so
its length is fuel enough. -/
def findGtkFrom : Nat → List Byte → Option (Nat × List Byte)
  | 0, _ => none
  | fuel + 1, kd =>
    match kd with
    | id :: l :: rest =>
      if id = 0xDD ∧ l = 0 then none
      else if l.toNat > rest.length then none
      else if id = 0xDD ∧ 6 + 16 ≤ l.toNat ∧ rest.take 4 = [0x00, 0x0F, 0xAC, 1] then
        some (byteAt rest 4 &&& 3, (rest.drop 6).take 16)
      else findGtkFrom fuel (rest.drop l.toNat)
    | _ => none

def wpaFindGtk (kd : List Byte) : Option (Nat × List Byte) := findGtkFrom kd.length kd

def wpaUnwrap (kd : List Byte) : Option (List Byte) :=
  if kd.length < 24 ∨ kd.length % 8 ≠ 0 ∨ kd.length > 512 then none
  else (c.aesKeyUnwrap ptk.kek kd).map (·.take (kd.length - 8))

def gtkOf (k : KeyFrame) : Option (Nat × List Byte) :=
  if k.encData then (wpaUnwrap c ptk k.kd).bind wpaFindGtk else none

def rtlCamWrite (slot keyidx : Nat) (group : Bool) (mac : Mac)
    (key : CamKey Tk) : Wpa Pmk Kck Kek Tk :=
  { s with
    cam := Function.update s.cam slot (some ⟨keyidx, group, mac, key⟩)
    camWrites := s.camWrites + 1 }

def wpaInstallGtk (idx : Nat) (gtk : List Byte) : Wpa Pmk Kck Kek Tk :=
  let idx := if idx = 0 then 1 else idx
  { rtlCamWrite s idx idx true s.bssid (.group gtk) with gtkIdx := idx }

/-- Our RSN element. -/
def wpaRsnIe : List Byte :=
  [0x30, 20, 1, 0, 0x00, 0x0F, 0xAC, 4, 1, 0, 0x00, 0x0F, 0xAC, 4, 1, 0, 0x00, 0x0F, 0xAC, 2, 0, 0]

def messageOne (snonce : Nonce) : Wpa Pmk Kck Kek Tk :=
  let derived := wpaDerivePtk c rtlMac { s with anonce := k.nonce, snonce := snonce }
  wpaSendKey c rtlMac derived k.ver (2 ||| 0x0008 ||| 0x0100) k.replay (some snonce) wpaRsnIe

def messageThree (gidx : Nat) (gtk : List Byte) : Wpa Pmk Kck Kek Tk :=
  let answered :=
    wpaSendKey c rtlMac s k.ver (2 ||| 0x0008 ||| 0x0100 ||| 0x0200) k.replay none []
  let paired := rtlCamWrite { answered with secEnabled := true } 0 0 false s.bssid
    (.pairwise s.ptk.tk)
  { wpaInstallGtk paired gidx gtk with
    keyed := true
    pn := 1
    handshakes := s.handshakes + 1
    accepted := k.counter :: s.accepted }

def messageGroup (gidx : Nat) (gtk : List Byte) : Wpa Pmk Kck Kek Tk :=
  let answered := wpaSendKey c rtlMac s k.ver (2 ||| 0x0100 ||| 0x0200) k.replay none []
  { wpaInstallGtk answered gidx gtk with
    rekeys := s.rekeys + 1
    accepted := k.counter :: s.accepted }

/-- `wpa_eapol_rx`; `snonce` is what `wpa_random` gives if it is asked. -/
def wpaEapolRx (e : List Byte) (snonce : Nonce) : Wpa Pmk Kck Kek Tk :=
  if s.secure = false then s
  else
    match keyFrame e with
    | none => s
    | some k =>
      if k.pairwise ∧ ¬ k.mic then messageOne c rtlMac s k snonce
      else if s.ptkOk = false then s
      else if wpaMicOk c s.ptk k.frame = false then { s with micFail := s.micFail + 1 }
      else
        match gtkOf c s.ptk k with
        | none => s
        | some (gidx, gtk) =>
          if k.pairwise then messageThree c rtlMac s k gidx gtk
          else messageGroup c rtlMac s k gidx gtk

inductive Action (Pmk : Type) where
  | eapol (e : List Byte) (snonce : Nonce)
  | send (da sa : Mac) (etype : Nat) (payload : List Byte)
  | clear
  | join (secure : Bool) (bssid : Mac) (pmk : Pmk)

def step : Action Pmk → Option (Wpa Pmk Kck Kek Tk)
  | .eapol e snonce => some (wpaEapolRx c rtlMac s e snonce)
  | .send da sa etype payload => some (rtlSendData s da sa etype payload)
  | .clear => some (rtlKeysClear s)
  | .join secure bssid pmk => some (rtlJoinStart s secure bssid pmk)

/-- A driver that has not joined yet: `ptk`, `pmk` and the nonces hold no key. -/
def boot (pmk : Pmk) (ptk : Ptk Kck Kek Tk) : Wpa Pmk Kck Kek Tk where
  secure := false
  bssid := []
  pmk := pmk
  ptk := ptk
  ptkOk := false
  anonce := List.replicate 32 0
  snonce := List.replicate 32 0
  keyed := false
  gtkIdx := 0
  pn := 0
  handshakes := 0
  rekeys := 0
  micFail := 0
  secEnabled := false
  cam := fun _ => none
  camWrites := 0
  sent := []
  accepted := []
  nonces := []

end Racccoon.Wifi
