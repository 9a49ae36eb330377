import Racccoon.Lib.Run
import Racccoon.Wifi.Wpa

/-!
What the handshakes promise about keys: no packet number is used twice under one pairwise
key, and keys are only set by signed frames in the order of their replay counters. The
driver keeps these promises as long as the frames it is given keep to an order of their own.
-/

namespace Racccoon.Wifi

open Racccoon.Run

variable {Pmk Kck Kek Tk : Type} {c : Crypto Pmk Kck Kek Tk} {rtlMac : Mac}
variable {s after : Wpa Pmk Kck Kek Tk}

def isFirst (s : Wpa Pmk Kck Kek Tk) (e : List Byte) : Bool :=
  s.secure && (keyFrame e).any fun k => k.pairwise && !k.mic

def validMic (c : Crypto Pmk Kck Kek Tk) (s : Wpa Pmk Kck Kek Tk) (e : List Byte) : Bool :=
  s.ptkOk && (keyFrame e).any fun k => wpaMicOk c s.ptk k.frame

def accepts (c : Crypto Pmk Kck Kek Tk) (s : Wpa Pmk Kck Kek Tk) (e : List Byte) :
    Option (KeyFrame × Nat × List Byte) :=
  if s.secure = false ∨ isFirst s e = true ∨ validMic c s e = false then none
  else (keyFrame e).bind fun k => (gtkOf c s.ptk k).map fun gtk => (k, gtk)

variable (c rtlMac) in
theorem wpaEapolRx_cases (s : Wpa Pmk Kck Kek Tk) (e : List Byte) (snonce : Nonce) :
    (∃ fails, wpaEapolRx c rtlMac s e snonce = { s with micFail := fails }) ∨
      (∃ k, isFirst s e = true ∧ wpaEapolRx c rtlMac s e snonce = messageOne c rtlMac s k snonce) ∨
      (∃ k gidx gtk, accepts c s e = some (k, gidx, gtk) ∧ k.pairwise = true ∧
        wpaEapolRx c rtlMac s e snonce = messageThree c rtlMac s k gidx gtk) ∨
      (∃ k gidx gtk, accepts c s e = some (k, gidx, gtk) ∧ k.pairwise = false ∧
        wpaEapolRx c rtlMac s e snonce = messageGroup c rtlMac s k gidx gtk) := by
  have unmoved : wpaEapolRx c rtlMac s e snonce = s →
      ∃ fails, wpaEapolRx c rtlMac s e snonce = { s with micFail := fails } :=
    fun same => ⟨s.micFail, same⟩
  by_cases secure : s.secure = false
  · exact .inl (unmoved (by simp [wpaEapolRx, secure]))
  cases parsed : keyFrame e with
  | none => exact .inl (unmoved (by simp [wpaEapolRx, parsed]))
  | some k =>
    by_cases first : k.pairwise = true ∧ ¬ k.mic = true
    · refine .inr (.inl ⟨k, ?_, ?_⟩)
      · simpa [isFirst, parsed, first] using secure
      · simp [wpaEapolRx, secure, parsed, first]
    · have notFirst : isFirst s e = false := by
        simp only [isFirst, parsed]
        simpa using fun _ => first
      have behind (out : Wpa Pmk Kck Kek Tk) :
          (if s.secure = false then s
            else if k.pairwise = true ∧ ¬ k.mic = true then messageOne c rtlMac s k snonce
            else out) = out :=
        (if_neg secure).trans (if_neg first)
      by_cases derived : s.ptkOk = false
      · refine .inl (unmoved ?_)
        simp only [wpaEapolRx, parsed]
        exact (behind _).trans (if_pos derived)
      by_cases signed : wpaMicOk c s.ptk k.frame = false
      · refine .inl ⟨s.micFail + 1, ?_⟩
        simp only [wpaEapolRx, parsed]
        exact (behind _).trans ((if_neg derived).trans (if_pos signed))
      have valid : validMic c s e = true := by simpa [validMic, parsed, derived] using signed
      cases found : gtkOf c s.ptk k with
      | none =>
        refine .inl (unmoved ?_)
        simp only [wpaEapolRx, parsed, found]
        exact (behind _).trans ((if_neg derived).trans (if_neg signed))
      | some gtk =>
        have accepted : accepts c s e = some (k, gtk.1, gtk.2) := by
          simp [accepts, secure, notFirst, valid, parsed, found]
        have taken : wpaEapolRx c rtlMac s e snonce =
            if k.pairwise = true then messageThree c rtlMac s k gtk.1 gtk.2
            else messageGroup c rtlMac s k gtk.1 gtk.2 := by
          simp only [wpaEapolRx, parsed, found]
          exact (behind _).trans ((if_neg derived).trans (if_neg signed))
        by_cases pair : k.pairwise = true
        · exact .inr (.inr (.inl ⟨k, gtk.1, gtk.2, accepted, pair,
            taken.trans (if_pos pair)⟩))
        · exact .inr (.inr (.inr ⟨k, gtk.1, gtk.2, accepted, by simpa using pair,
            taken.trans (if_neg pair)⟩))

theorem accepts_signed {e : List Byte} {found : KeyFrame × Nat × List Byte}
    (accepted : accepts c s e = some found) :
    keyFrame e = some found.1 ∧ s.ptkOk = true ∧ wpaMicOk c s.ptk found.1.frame = true := by
  unfold accepts at accepted
  split at accepted
  · cases accepted
  · rename_i checks
    simp only [not_or] at checks
    cases parsed : keyFrame e with
    | none => simp [parsed] at accepted
    | some k =>
      have valid : s.ptkOk = true ∧ wpaMicOk c s.ptk k.frame = true := by
        simpa [validMic, parsed] using checks.2.2
      obtain ⟨gtk, -, rfl⟩ : ∃ gtk, gtkOf c s.ptk k = some gtk ∧ (k, gtk) = found := by
        simpa [parsed] using accepted
      exact ⟨rfl, valid⟩

theorem rtlSendData_frame (s : Wpa Pmk Kck Kek Tk) (da sa : Mac) (etype : Nat)
    (payload : List Byte) :
    ∃ pn sent, rtlSendData s da sa etype payload = { s with pn := pn, sent := sent } := by
  unfold rtlSendData
  split
  · exact ⟨s.pn, s.sent, rfl⟩
  · split
    · exact ⟨_, _, rfl⟩
    · exact ⟨s.pn, _, rfl⟩

variable (c rtlMac) in
theorem wpaSendKey_frame (s : Wpa Pmk Kck Kek Tk) (ver : Byte) (info : Nat)
    (replay : List Byte) (nonce : Option Nonce) (kd : List Byte) :
    ∃ pn sent, wpaSendKey c rtlMac s ver info replay nonce kd =
      { s with pn := pn, sent := sent } := by
  unfold wpaSendKey
  dsimp only
  split
  · exact ⟨s.pn, s.sent, rfl⟩
  · exact rtlSendData_frame _ _ _ _ _

def TxFrame.UnderPairwise (f : TxFrame Tk) (tk : Tk) (number : Nat) : Prop :=
  ∃ entry, f.ccmp = some (some entry, number) ∧ entry.key = .pairwise tk

def NoReuse (s : Wpa Pmk Kck Kek Tk) : Prop :=
  s.sent.Pairwise fun f g => ∀ tk number, f.UnderPairwise tk number → ¬ g.UnderPairwise tk number

def Agreed (c : Crypto Pmk Kck Kek Tk) (rtlMac : Mac) (s : Wpa Pmk Kck Kek Tk) : Prop :=
  s.ptkOk = true ∧ s.ptk = c.prfSha1 s.pmk (prfInput rtlMac s.bssid s.anonce s.snonce)

def SetBySigned (c : Crypto Pmk Kck Kek Tk) (rtlMac : Mac) (s after : Wpa Pmk Kck Kek Tk)
    (action : Action Pmk) : Prop :=
  after.camWrites ≠ s.camWrites → ∃ e snonce k, action = .eapol e snonce ∧
    keyFrame e = some k ∧ Agreed c rtlMac s ∧ wpaMicOk c s.ptk k.frame = true ∧
    ∀ earlier ∈ s.accepted, earlier < k.counter

/-- A frame without a valid signature leaves the pairwise key of a keyed connection alone,
the one of the handshake and the one in the chip. -/
def KeptByUnsigned (c : Crypto Pmk Kck Kek Tk) (s after : Wpa Pmk Kck Kek Tk) :
    Action Pmk → Prop
  | .eapol e _ => s.keyed = true → validMic c s e = false →
      after.ptk = s.ptk ∧ after.cam 0 = s.cam 0
  | _ => True

def Installed (s : Wpa Pmk Kck Kek Tk) (tk : Tk) : Prop :=
  s.keyed = true ∧ ∃ entry, s.cam 0 = some entry ∧ entry.key = .pairwise tk

def NumbersLeft (s : Wpa Pmk Kck Kek Tk) : Prop := s.keyed = true → s.pn ≤ 2 ^ 48

/-- What the driver does not check itself: an unsigned message 1 only reaches a connection
without keys, a message 3 does not install a pairwise key for the second time, and what sets
a key has a higher replay counter than anything before it. -/
def Orderly (c : Crypto Pmk Kck Kek Tk) (s : Wpa Pmk Kck Kek Tk) : Action Pmk → Prop
  | .eapol e _ =>
    (isFirst s e = true → NumbersLeft s ∧ (s.keyed = true → validMic c s e = true)) ∧
    ∀ k gidx gtk, accepts c s e = some (k, gidx, gtk) →
      NumbersLeft s ∧ (∀ earlier ∈ s.accepted, earlier < k.counter) ∧
      (k.pairwise = true → ¬ Installed s s.ptk.tk)
  | .send _ _ _ payload => payload.length + 40 ≤ 1600 → NumbersLeft s
  | _ => True

def FreshNonce (s : Wpa Pmk Kck Kek Tk) : Action Pmk → Prop
  | .eapol _ snonce => snonce ∉ s.nonces
  | _ => True

def Known (c : Crypto Pmk Kck Kek Tk) (s : Wpa Pmk Kck Kek Tk) (tk : Tk) : Prop :=
  ∃ pmk input, tk = (c.prfSha1 pmk input).tk ∧ input.lowNonce ∈ s.nonces ∧
    input.highNonce ∈ s.nonces

structure Inv (c : Crypto Pmk Kck Kek Tk) (rtlMac : Mac) (s : Wpa Pmk Kck Kek Tk) : Prop where
  noReuse : NoReuse s
  installed : s.keyed = true → ∃ tk, Installed s tk
  counting : s.keyed = true → 1 ≤ s.pn ∧ s.pn ≤ 2 ^ 48 + 1
  numbers : ∀ f ∈ s.sent, ∀ tk number, f.UnderPairwise tk number → Installed s tk →
    ∃ count, 1 ≤ count ∧ count < s.pn ∧ number = count % 2 ^ 48
  sentKnown : ∀ f ∈ s.sent, ∀ tk number, f.UnderPairwise tk number → Known c s tk
  installedKnown : ∀ tk, Installed s tk → Known c s tk
  derivedKnown : s.ptkOk = true → Known c s s.ptk.tk
  /-- A derived key that is not installed has not encrypted anything. -/
  unused : s.ptkOk = true → ¬ Installed s s.ptk.tk →
    ∀ f ∈ s.sent, ∀ number, ¬ f.UnderPairwise s.ptk.tk number
  agreed : s.ptkOk = true → Agreed c rtlMac s

theorem boot_inv (pmk : Pmk) (ptk : Ptk Kck Kek Tk) : Inv c rtlMac (boot pmk ptk) where
  noReuse := .nil
  installed := nofun
  counting := nofun
  numbers := nofun
  sentKnown := nofun
  installedKnown := fun _ held => nomatch held.1
  derivedKnown := nofun
  unused := nofun
  agreed := nofun

theorem Installed.unique {tk other : Tk} (first : Installed s tk) (second : Installed s other) :
    tk = other := by
  obtain ⟨-, entry, held, key⟩ := first
  obtain ⟨-, entry', held', key'⟩ := second
  obtain rfl : entry = entry' := Option.some.inj (held.symm.trans held')
  exact CamKey.pairwise.inj (key.symm.trans key')

theorem rtlSendData_inv (inv : Inv c rtlMac s) (da sa : Mac) (etype : Nat)
    (payload : List Byte) (left : payload.length + 40 ≤ 1600 → NumbersLeft s) :
    Inv c rtlMac (rtlSendData s da sa etype payload) := by
  unfold rtlSendData
  split
  · exact inv
  by_cases keyed : s.keyed = true
  · have low := inv.counting keyed
    have high := left (by omega) keyed
    rw [if_pos keyed]
    -- Whatever the new frame is encrypted under is the installed key.
    have under : ∀ tk number,
        TxFrame.UnderPairwise ⟨some (s.cam 0, s.pn % 2 ^ 48), da, sa, etype, payload⟩ tk number →
          Installed s tk ∧ number = s.pn % 2 ^ 48 := by
      rintro tk number ⟨entry, ccmp, key⟩
      obtain ⟨held, numbered⟩ := Prod.mk.inj (Option.some.inj ccmp)
      exact ⟨⟨keyed, entry, held, key⟩, numbered.symm⟩
    constructor
    · refine List.pairwise_append.2 ⟨inv.noReuse, List.pairwise_singleton _ _, ?_⟩
      intro f sent g new tk number first second
      obtain rfl := List.mem_singleton.1 new
      obtain ⟨held, rfl⟩ := under tk number second
      obtain ⟨count, positive, earlier, same⟩ := inv.numbers f sent tk _ first held
      omega
    · exact fun _ => inv.installed keyed
    · exact fun _ => ⟨by dsimp only; omega, by dsimp only; omega⟩
    · intro f sent tk number first held
      rcases List.mem_append.1 sent with old | new
      · obtain ⟨count, positive, earlier, same⟩ := inv.numbers f old tk number first held
        exact ⟨count, positive, by dsimp only; omega, same⟩
      · obtain rfl := List.mem_singleton.1 new
        exact ⟨s.pn, low.1, by dsimp only; omega, (under tk number first).2⟩
    · intro f sent tk number first
      rcases List.mem_append.1 sent with old | new
      · exact inv.sentKnown f old tk number first
      · obtain rfl := List.mem_singleton.1 new
        exact inv.installedKnown tk (under tk number first).1
    · exact inv.installedKnown
    · exact inv.derivedKnown
    · intro derived apart f sent number first
      rcases List.mem_append.1 sent with old | new
      · exact inv.unused derived apart f old number first
      · obtain rfl := List.mem_singleton.1 new
        exact apart (under _ number first).1
    · exact inv.agreed
  · rw [if_neg keyed]
    have clear : ∀ tk number,
        ¬ (⟨none, da, sa, etype, payload⟩ : TxFrame Tk).UnderPairwise tk number := by
      rintro tk number ⟨entry, ccmp, -⟩
      cases ccmp
    constructor
    · refine List.pairwise_append.2 ⟨inv.noReuse, List.pairwise_singleton _ _, ?_⟩
      intro f sent g new tk number first second
      obtain rfl := List.mem_singleton.1 new
      exact clear tk number second
    · exact inv.installed
    · exact inv.counting
    · intro f sent tk number first held
      exact absurd held.1 keyed
    · intro f sent tk number first
      rcases List.mem_append.1 sent with old | new
      · exact inv.sentKnown f old tk number first
      · obtain rfl := List.mem_singleton.1 new
        exact absurd first (clear tk number)
    · exact inv.installedKnown
    · exact inv.derivedKnown
    · intro derived apart f sent number first
      rcases List.mem_append.1 sent with old | new
      · exact inv.unused derived apart f old number first
      · obtain rfl := List.mem_singleton.1 new
        exact clear _ number first
    · exact inv.agreed

theorem wpaSendKey_inv (inv : Inv c rtlMac s) (ver : Byte) (info : Nat) (replay : List Byte)
    (nonce : Option Nonce) (kd : List Byte) (left : NumbersLeft s) :
    Inv c rtlMac (wpaSendKey c rtlMac s ver info replay nonce kd) := by
  unfold wpaSendKey
  dsimp only
  split
  · exact inv
  · exact rtlSendData_inv inv _ _ _ _ (fun _ => left)

variable (rtlMac) in
theorem fresh_unknown (ideal : c.Ideal) {snonce : Nonce} (fresh : snonce ∉ s.nonces)
    (bssid anonce : List Byte) (pmk : Pmk) :
    ¬ Known c s (c.prfSha1 pmk (prfInput rtlMac bssid anonce snonce)).tk := by
  rintro ⟨pmk', input, same, low, high⟩
  obtain rfl := ideal _ _ _ _ same
  unfold prfInput at low high
  cases noncesUp : bytesLess anonce snonce with
  | true => exact fresh (by simpa [noncesUp] using high)
  | false => exact fresh (by simpa [noncesUp] using low)

theorem derive_inv (ideal : c.Ideal) (inv : Inv c rtlMac s) (anonce : Nonce) {snonce : Nonce}
    (fresh : snonce ∉ s.nonces) :
    Inv c rtlMac (wpaDerivePtk c rtlMac { s with anonce := anonce, snonce := snonce }) := by
  have new := fresh_unknown rtlMac ideal fresh s.bssid anonce s.pmk
  have still : ∀ tk, Known c s tk → Known c
      (wpaDerivePtk c rtlMac { s with anonce := anonce, snonce := snonce }) tk := by
    rintro tk ⟨pmk, input, same, low, high⟩
    exact ⟨pmk, input, same, List.mem_cons_of_mem _ (List.mem_cons_of_mem _ low),
      List.mem_cons_of_mem _ (List.mem_cons_of_mem _ high)⟩
  constructor
  · exact inv.noReuse
  · exact inv.installed
  · exact inv.counting
  · exact inv.numbers
  · exact fun f sent tk number under => still tk (inv.sentKnown f sent tk number under)
  · exact fun tk held => still tk (inv.installedKnown tk held)
  · refine fun _ => ⟨s.pmk, _, rfl, ?_, ?_⟩
    · unfold prfInput
      dsimp only [wpaDerivePtk]
      split <;> simp
    · unfold prfInput
      dsimp only [wpaDerivePtk]
      split <;> simp
  · intro _ _ f sent number under
    exact new (inv.sentKnown f sent _ number under)
  · exact fun _ => ⟨rfl, rfl⟩

theorem clear_inv (inv : Inv c rtlMac s) : Inv c rtlMac (rtlKeysClear s) where
  noReuse := inv.noReuse
  installed := nofun
  counting := nofun
  numbers := fun _ _ _ _ _ held => nomatch held.1
  sentKnown := inv.sentKnown
  installedKnown := fun _ held => nomatch held.1
  derivedKnown := nofun
  unused := nofun
  agreed := nofun

theorem wpaInstallGtk_slot (s : Wpa Pmk Kck Kek Tk) (idx : Nat) (gtk : List Byte) :
    (wpaInstallGtk s idx gtk).cam 0 = s.cam 0 := by
  have away : (if idx = 0 then 1 else idx) ≠ 0 := by
    split <;> omega
  simp [wpaInstallGtk, rtlCamWrite, Function.update_of_ne away.symm]

/-- The invariant looks at the handshake, at slot 0 and at what was sent. -/
theorem Inv.of_same (inv : Inv c rtlMac s) (keyed : after.keyed = s.keyed) (pn : after.pn = s.pn)
    (sent : after.sent = s.sent) (slot : after.cam 0 = s.cam 0) (ptkOk : after.ptkOk = s.ptkOk)
    (ptk : after.ptk = s.ptk) (pmk : after.pmk = s.pmk) (bssid : after.bssid = s.bssid)
    (anonce : after.anonce = s.anonce) (snonce : after.snonce = s.snonce)
    (nonces : after.nonces = s.nonces) : Inv c rtlMac after := by
  have held : ∀ tk, Installed after tk ↔ Installed s tk := by
    simp only [Installed, keyed, slot, implies_true]
  have known : ∀ tk, Known c after tk ↔ Known c s tk := by
    simp only [Known, nonces, implies_true]
  constructor
  · simpa only [NoReuse, sent] using inv.noReuse
  · simpa only [keyed, held] using inv.installed
  · simpa only [keyed, pn] using inv.counting
  · simpa only [sent, pn, held] using inv.numbers
  · simpa only [sent, known] using inv.sentKnown
  · simpa only [held, known] using inv.installedKnown
  · simpa only [ptkOk, ptk, known] using inv.derivedKnown
  · simpa only [ptkOk, ptk, held, sent] using inv.unused
  · simpa only [Agreed, ptkOk, ptk, pmk, bssid, anonce, snonce] using inv.agreed

/-- Installing a derived key that is not installed yet starts its packet numbers afresh. -/
theorem install_inv (inv : Inv c rtlMac s) (derived : s.ptkOk = true)
    (apart : ¬ Installed s s.ptk.tk) (keyed : after.keyed = true) (pn : after.pn = 1)
    (sent : after.sent = s.sent)
    (slot : ∃ entry, after.cam 0 = some entry ∧ entry.key = .pairwise s.ptk.tk)
    (ptkOk : after.ptkOk = s.ptkOk) (ptk : after.ptk = s.ptk) (pmk : after.pmk = s.pmk)
    (bssid : after.bssid = s.bssid) (anonce : after.anonce = s.anonce)
    (snonce : after.snonce = s.snonce) (nonces : after.nonces = s.nonces) : Inv c rtlMac after := by
  have held : Installed after s.ptk.tk := ⟨keyed, slot⟩
  have known : ∀ tk, Known c after tk ↔ Known c s tk := by
    simp only [Known, nonces, implies_true]
  constructor
  · simpa only [NoReuse, sent] using inv.noReuse
  · exact fun _ => ⟨_, held⟩
  · omega
  · intro f was tk number under now
    obtain rfl := now.unique held
    exact absurd under (inv.unused derived apart f (sent ▸ was) number)
  · simpa only [sent, known] using inv.sentKnown
  · intro tk now
    obtain rfl := now.unique held
    exact (known _).2 (inv.derivedKnown derived)
  · simpa only [ptkOk, ptk, known] using inv.derivedKnown
  · intro _ other
    exact absurd (ptk ▸ held) other
  · simpa only [Agreed, ptkOk, ptk, pmk, bssid, anonce, snonce] using inv.agreed

theorem messageOne_inv (ideal : c.Ideal) (inv : Inv c rtlMac s) (k : KeyFrame) {snonce : Nonce}
    (fresh : snonce ∉ s.nonces) (left : NumbersLeft s) :
    Inv c rtlMac (messageOne c rtlMac s k snonce) :=
  wpaSendKey_inv (derive_inv ideal inv k.nonce fresh) k.ver (2 ||| 0x0008 ||| 0x0100) k.replay
    (some snonce) wpaRsnIe left

theorem messageThree_inv (inv : Inv c rtlMac s) (derived : s.ptkOk = true) (k : KeyFrame)
    (gidx : Nat) (gtk : List Byte) (left : NumbersLeft s) (apart : ¬ Installed s s.ptk.tk) :
    Inv c rtlMac (messageThree c rtlMac s k gidx gtk) := by
  have answered := wpaSendKey_inv inv k.ver (2 ||| 0x0008 ||| 0x0100 ||| 0x0200) k.replay none
    [] left
  unfold messageThree
  obtain ⟨pn, sent, same⟩ := wpaSendKey_frame c rtlMac s k.ver
    (2 ||| 0x0008 ||| 0x0100 ||| 0x0200) k.replay none []
  rw [same] at answered ⊢
  refine install_inv answered derived apart rfl rfl rfl
    ⟨⟨0, false, s.bssid, .pairwise s.ptk.tk⟩, ?_, rfl⟩ rfl rfl rfl rfl rfl rfl rfl
  refine (wpaInstallGtk_slot _ _ _).trans ?_
  simp [rtlCamWrite]

theorem messageGroup_inv (inv : Inv c rtlMac s) (k : KeyFrame) (gidx : Nat) (gtk : List Byte)
    (left : NumbersLeft s) : Inv c rtlMac (messageGroup c rtlMac s k gidx gtk) := by
  have answered := wpaSendKey_inv inv k.ver (2 ||| 0x0100 ||| 0x0200) k.replay none [] left
  unfold messageGroup
  obtain ⟨pn, sent, same⟩ := wpaSendKey_frame c rtlMac s k.ver
    (2 ||| 0x0100 ||| 0x0200) k.replay none []
  rw [same] at answered ⊢
  exact answered.of_same rfl rfl rfl (wpaInstallGtk_slot _ _ _) rfl rfl rfl rfl rfl rfl rfl

def Admits (c : Crypto Pmk Kck Kek Tk) (s : Wpa Pmk Kck Kek Tk) (action : Action Pmk) : Prop :=
  FreshNonce s action ∧ Orderly c s action

theorem step_inv (ideal : c.Ideal) (inv : Inv c rtlMac s) {action : Action Pmk}
    (admitted : Admits c s action) (stepped : step c rtlMac s action = some after) :
    Inv c rtlMac after := by
  obtain ⟨fresh, orderly⟩ := admitted
  cases action with
  | eapol e snonce =>
    obtain rfl := Option.some.inj stepped
    obtain ⟨firstOk, accepting⟩ := orderly
    rcases wpaEapolRx_cases c rtlMac s e snonce with
      ⟨fails, is⟩ | ⟨k, first, is⟩ | ⟨k, gidx, gtk, accepted, pair, is⟩ |
      ⟨k, gidx, gtk, accepted, -, is⟩
    · rw [is]
      exact inv.of_same rfl rfl rfl rfl rfl rfl rfl rfl rfl rfl rfl
    · rw [is]
      exact messageOne_inv ideal inv k fresh (firstOk first).1
    · obtain ⟨left, -, apart⟩ := accepting k gidx gtk accepted
      rw [is]
      exact messageThree_inv inv (accepts_signed accepted).2.1 k gidx gtk left (apart pair)
    · rw [is]
      exact messageGroup_inv inv k gidx gtk (accepting k gidx gtk accepted).1
  | send da sa etype payload =>
    obtain rfl := Option.some.inj stepped
    exact rtlSendData_inv inv da sa etype payload orderly
  | clear =>
    obtain rfl := Option.some.inj stepped
    exact clear_inv inv
  | join secure bssid pmk =>
    obtain rfl := Option.some.inj stepped
    have cleared := clear_inv inv
    exact ⟨cleared.noReuse, nofun, nofun, cleared.numbers, cleared.sentKnown,
      cleared.installedKnown, nofun, nofun, nofun⟩

theorem reach_inv (ideal : c.Ideal) (pmk : Pmk) (ptk : Ptk Kck Kek Tk)
    (run : Reach (step c rtlMac) (Admits c) (boot pmk ptk) s) : Inv c rtlMac s :=
  run.invariant (Inv c rtlMac) (boot_inv pmk ptk)
    fun _ _ _ inv admitted stepped => step_inv ideal inv admitted stepped

theorem setBySigned (inv : Inv c rtlMac s) {action : Action Pmk} (admitted : Admits c s action)
    (stepped : step c rtlMac s action = some after) : SetBySigned c rtlMac s after action := by
  intro set
  cases action with
  | eapol e snonce =>
    obtain rfl := Option.some.inj stepped
    have signed : ∀ k gidx gtk, accepts c s e = some (k, gidx, gtk) →
        ∃ e' snonce' k, (Action.eapol e snonce : Action Pmk) = .eapol e' snonce' ∧
          keyFrame e' = some k ∧ Agreed c rtlMac s ∧ wpaMicOk c s.ptk k.frame = true ∧
          ∀ earlier ∈ s.accepted, earlier < k.counter := by
      intro k gidx gtk accepted
      obtain ⟨parsed, derived, mic⟩ := accepts_signed accepted
      exact ⟨e, snonce, k, rfl, parsed, inv.agreed derived, mic,
        (admitted.2.2 k gidx gtk accepted).2.1⟩
    rcases wpaEapolRx_cases c rtlMac s e snonce with
      ⟨fails, is⟩ | ⟨k, first, is⟩ | ⟨k, gidx, gtk, accepted, -⟩ | ⟨k, gidx, gtk, accepted, -⟩
    · exact absurd (by rw [is]) set
    · obtain ⟨pn, sent, same⟩ := wpaSendKey_frame c rtlMac
        (wpaDerivePtk c rtlMac { s with anonce := k.nonce, snonce := snonce }) k.ver
        (2 ||| 0x0008 ||| 0x0100) k.replay (some snonce) wpaRsnIe
      refine absurd ?_ set
      rw [is, messageOne, same]
      rfl
    · exact signed k gidx gtk accepted
    · exact signed k gidx gtk accepted
  | send da sa etype payload =>
    obtain rfl := Option.some.inj stepped
    obtain ⟨pn, sent, same⟩ := rtlSendData_frame s da sa etype payload
    exact absurd (by rw [same]) set
  | clear =>
    obtain rfl := Option.some.inj stepped
    exact absurd rfl set
  | join secure bssid pmk =>
    obtain rfl := Option.some.inj stepped
    exact absurd rfl set

theorem keptByUnsigned {action : Action Pmk} (admitted : Admits c s action)
    (stepped : step c rtlMac s action = some after) : KeptByUnsigned c s after action := by
  cases action with
  | eapol e snonce =>
    intro keyed unsigned
    obtain rfl := Option.some.inj stepped
    have refused : ∀ found, accepts c s e ≠ some found := by
      intro found accepted
      simp [accepts, unsigned] at accepted
    rcases wpaEapolRx_cases c rtlMac s e snonce with
      ⟨fails, is⟩ | ⟨k, first, -⟩ | ⟨k, gidx, gtk, accepted, -⟩ | ⟨k, gidx, gtk, accepted, -⟩
    · rw [is]
      exact ⟨rfl, rfl⟩
    · have signed := (admitted.2.1 first).2 keyed
      rw [unsigned] at signed
      cases signed
    · exact absurd accepted (refused _)
    · exact absurd accepted (refused _)
  | _ => trivial

/-- In a run whose frames keep their order, with ideal hash and nonces, no packet number is
used twice under a pairwise key, keys are only set by signed frames with rising replay
counters, and an unsigned frame never moves the pairwise key of a keyed connection. -/
theorem keys_never_reused (ideal : c.Ideal) (pmk : Pmk) (ptk : Ptk Kck Kek Tk)
    (run : Reach (step c rtlMac) (Admits c) (boot pmk ptk) s) :
    NoReuse s ∧ ∀ action after, Admits c s action → step c rtlMac s action = some after →
      SetBySigned c rtlMac s after action ∧ KeptByUnsigned c s after action := by
  have inv := reach_inv ideal pmk ptk run
  exact ⟨inv.noReuse, fun _ _ admitted stepped =>
    ⟨setBySigned inv admitted stepped, keptByUnsigned admitted stepped⟩⟩

set_option maxRecDepth 4000

namespace Sample

/-- An ideal derivation, with a checksum for the signature. -/
def crypto : Crypto Unit Byte Unit PrfInput where
  prfSha1 _ input := ⟨0x5A, (), input⟩
  hmacSha1 kck frame := List.replicate 20 (frame.foldl (· ^^^ ·) kck)
  aesKeyUnwrap _ kd := some (kd.drop 8)

theorem crypto_ideal : crypto.Ideal := fun _ _ _ _ same => same

def mac : Mac := [2, 0, 0, 0, 0, 1]
def bssid : Mac := [2, 0, 0, 0, 0, 9]
def anonce : Nonce := List.replicate 32 0xAA
def snonce : Nonce := List.replicate 32 0x55

/-- Message 1 with replay counter 1. -/
def messageOneBytes : List Byte :=
  [2, 3, 0, 95, 2, 0x00, 0x8A, 0, 16] ++ [0, 0, 0, 0, 0, 0, 0, 1] ++ anonce ++
    List.replicate 48 0 ++ [0, 0]

def messageThreeBytes (counter mic : Byte) : List Byte :=
  [2, 3, 0, 127, 2, 0x13, 0xCA, 0, 16] ++ [0, 0, 0, 0, 0, 0, 0, counter] ++ anonce ++
    List.replicate 32 0 ++ List.replicate 16 mic ++ [0, 32] ++ List.replicate 8 0 ++
    [0xDD, 22, 0x00, 0x0F, 0xAC, 1, 1, 0] ++ List.replicate 16 0x77

def packet : Action Unit := .send bssid mac 0x0800 [1, 2, 3]

def start : Wpa Unit Byte Unit PrfInput := boot () ⟨0, (), ⟨[], [], [], []⟩⟩
def joined := rtlJoinStart start true bssid ()
def paired := wpaEapolRx crypto mac joined messageOneBytes snonce
def keyed := wpaEapolRx crypto mac paired (messageThreeBytes 2 0xA5) []
def sending := rtlSendData keyed bssid mac 0x0800 [1, 2, 3]
def again := wpaEapolRx crypto mac sending (messageThreeBytes 3 0xA4) []
def resending := rtlSendData again bssid mac 0x0800 [1, 2, 3]

def under (f : TxFrame PrfInput) : Option (PrfInput × Nat) :=
  match f.ccmp with
  | some (some entry, number) =>
    match entry.key with
    | .pairwise tk => some (tk, number)
    | .group _ => none
  | _ => none

theorem underPairwise_of_under {f : TxFrame PrfInput} {tk : PrfInput} {number : Nat}
    (found : under f = some (tk, number)) : f.UnderPairwise tk number := by
  unfold under at found
  split at found
  · rename_i entry number' ccmp
    split at found
    · rename_i tk' key
      obtain ⟨rfl, rfl⟩ := Prod.mk.inj (Option.some.inj found)
      exact ⟨entry, ccmp, key⟩
    · cases found
  · cases found

theorem paired_unkeyed : paired.keyed = false := by decide

theorem snonce_fresh : snonce ∉ joined.nonces := by decide

theorem sending_orderly : Reach (step crypto mac) (Admits crypto) start sending := by
  have atJoined : Reach (step crypto mac) (Admits crypto) start joined :=
    Reach.start.next (.join true bssid ()) ⟨trivial, trivial⟩ rfl
  have atPaired : Reach (step crypto mac) (Admits crypto) start paired := by
    refine atJoined.next (.eapol messageOneBytes snonce) ⟨snonce_fresh, ?_, ?_⟩ rfl
    · exact fun _ => ⟨nofun, nofun⟩
    · exact fun _ _ _ _ => ⟨nofun, nofun, fun _ held => nomatch held.1⟩
  have atKeyed : Reach (step crypto mac) (Admits crypto) start keyed := by
    have fresh : [] ∉ paired.nonces := by decide
    have unset : paired.accepted = [] := by decide
    have numbers : NumbersLeft paired := by simp [NumbersLeft, paired_unkeyed]
    refine atPaired.next (.eapol (messageThreeBytes 2 0xA5) []) ⟨fresh, ?_, ?_⟩ rfl
    · exact fun _ => ⟨numbers, by simp [paired_unkeyed]⟩
    · exact fun _ _ _ _ => ⟨numbers, by simp [unset], fun _ held =>
        absurd held.1 (by simp [paired_unkeyed])⟩
  refine atKeyed.next packet ⟨trivial, fun _ _ => ?_⟩ rfl
  decide

theorem resending_reached : Reach (step crypto mac) FreshNonce start resending := by
  have atSending := sending_orderly.mono fun _ _ admitted => admitted.1
  have fresh : [] ∉ sending.nonces := by decide
  have atAgain : Reach (step crypto mac) FreshNonce start again :=
    atSending.next (.eapol (messageThreeBytes 3 0xA4) []) fresh rfl
  exact atAgain.next packet trivial rfl

theorem under_getElem {frames : List (TxFrame PrfInput)} {keys : List (Option (PrfInput × Nat))}
    (same : frames.map under = keys) (i : Nat) (inside : i < frames.length) :
    some (under frames[i]) = keys[i]? := by
  simp [← same, inside]

end Sample

open Sample

/-- One handshake and one packet: all the promises hold. -/
theorem first_packet_safe : crypto.Ideal ∧ NoReuse sending ∧ sending.sent.length = 3 :=
  ⟨crypto_ideal, (keys_never_reused crypto_ideal () _ sending_orderly).1, by decide⟩

/-- A second message 3, retransmitted with a higher replay counter, starts the packet numbers
again: two frames go out under one key with number 1. -/
theorem retransmission_reuses : crypto.Ideal ∧
    Reach (step crypto mac) FreshNonce start resending ∧ ¬ NoReuse resending := by
  refine ⟨crypto_ideal, resending_reached, fun safe => ?_⟩
  let tk := prfInput mac bssid anonce snonce
  have numbers : resending.sent.map under =
      [none, none, some (tk, 1), some (tk, 2), some (tk, 1)] := by decide
  have count : resending.sent.length = 5 := by
    simpa using congrArg List.length numbers
  have third := under_getElem numbers 2 (by omega)
  have fifth := under_getElem numbers 4 (by omega)
  exact (List.pairwise_iff_getElem.1 safe) 2 4 (by omega) (by omega) (by omega) tk 1
    (underPairwise_of_under (Option.some.inj third))
    (underPairwise_of_under (Option.some.inj fifth))

end Racccoon.Wifi
