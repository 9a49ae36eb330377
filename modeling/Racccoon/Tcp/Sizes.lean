import Racccoon.Tcp.Sender

/-!
The sizes that a control block sends and receives: no segment is longer than TCP_MSS, one
with a SYN is empty, and neither buffer ever holds more than it can.
-/

namespace Racccoon.Tcp

structure Fits (t : Tcb) : Prop where
  mss : t.mss ≤ tcpMss
  queued : t.sbuf.length ≤ tcpBuf
  room : t.rlen ≤ tcpBuf
  sent : ∀ sent ∈ t.segsOut, sent.data.length ≤ tcpMss ∧
    (sent.flags.syn = true → sent.data = [])

section Sizes
variable {hz now : Nat} {t : Tcb} {seg : Segment}

theorem Fits.same {after : Tcb} (fits : Fits t) (mss : after.mss = t.mss)
    (sbuf : after.sbuf.length ≤ t.sbuf.length) (rlen : after.rlen = t.rlen)
    (segsOut : after.segsOut = t.segsOut) : Fits after where
  mss := mss ▸ fits.mss
  queued := Nat.le_trans sbuf fits.queued
  room := rlen ▸ fits.room
  sent := segsOut ▸ fits.sent

theorem Fits.send (fits : Fits t) {flags : Flags} (seq : Seq) {data : List Byte}
    (short : data.length ≤ tcpMss) (empty : flags.syn = true → data = []) :
    Fits (tcpSend t flags seq data) where
  mss := fits.mss
  queued := fits.queued
  room := fits.room
  sent sent member := by
    rcases List.mem_append.mp member with old | new
    · exact fits.sent sent old
    · rw [List.mem_singleton.mp new]
      exact ⟨short, empty⟩

theorem Fits.control (fits : Fits t) (flags : Flags) (seq : Seq) :
    Fits (tcpSend t flags seq []) := fits.send seq (Nat.zero_le _) fun _ => rfl

theorem nextSize_le (t : Tcb) : t.nextSize ≤ t.mss := by
  unfold Tcb.nextSize
  split_ifs
  · exact Nat.zero_le _
  · exact Nat.zero_le _
  · exact Nat.min_le_right _ _

section
variable (fits : Fits t)
include fits

theorem tcpOutput_fits : Fits (tcpOutput now t) := by
  refine tcpOutput_invariant Fits fits (fun before held _ _ => ?_) fun before held _ _ => ?_
  · have short : ((before.sbuf.drop before.dataSent).take before.nextSize).length ≤ tcpMss :=
      Nat.le_trans (List.length_take_le _ _) (Nat.le_trans (nextSize_le before) held.mss)
    exact (held.send before.sndNxt short fun syn => by cases syn).same rfl (Nat.le_refl _) rfl rfl
  · exact (held.control thFinAck before.sndNxt).same rfl (Nat.le_refl _) rfl rfl

theorem tcpAcked_fits (ack : Seq) : Fits (tcpAcked hz now t ack) := by
  by_cases old : ack = t.sndUna
  · rwa [tcpAcked, if_pos old]
  · rw [tcpAcked]
    have shifted : (t.sbuf.drop (t.bytesAcked ack)).length ≤ t.sbuf.length := by simp
    refine fits.same ?_ (Nat.le_trans (Nat.le_of_eq ?_) shifted) ?_ ?_
    all_goals
      split_ifs <;> rfl

theorem tcbFinish_fits : Fits (tcbFinish t) := by
  unfold tcbFinish
  split_ifs
  · exact fits.same rfl (Nat.le_refl _) rfl rfl
  · exact fits.same rfl (Nat.le_refl _) rfl rfl

theorem takeAck_fits {acked : Tcb} (took : takeAck hz now t seg = some acked) : Fits acked := by
  rcases takeAck_cases took with ⟨-, -, rfl⟩ | ⟨-, -, rfl⟩ | ⟨-, -, rfl⟩
  · exact (tcpAcked_fits fits seg.ack).same rfl (Nat.le_refl _) rfl rfl
  · exact (tcpAcked_fits fits seg.ack).same rfl (Nat.le_refl _) rfl rfl
  · exact fits.same rfl (Nat.le_refl _) rfl rfl

theorem afterFin_fits : Fits (afterFin hz now t) := by
  unfold afterFin
  split
  · split
    · exact fits.same rfl (Nat.le_refl _) rfl rfl
    · exact fits.same rfl (Nat.le_refl _) rfl rfl
    · exact fits
  · exact fits

theorem takePayload_fits : Fits (takePayload t seg) := by
  unfold takePayload
  split
  · refine ⟨fits.mss, fits.queued, ?_, fits.sent⟩
    have room := fits.room
    simp only [kept, tcpRwnd]
    omega
  · exact fits

theorem taken_fits : Fits (taken hz now t seg) := by
  have filled : Fits (takePayload t seg) := takePayload_fits fits
  unfold taken
  split
  · unfold takeFin
    split
    · exact filled.same rfl (Nat.le_refl _) rfl rfl
    · exact filled.same rfl (Nat.le_refl _) rfl rfl
    · exact filled.same rfl (Nat.le_refl _) rfl rfl
    · exact filled.same rfl (Nat.le_refl _) rfl rfl
    · exact filled.same rfl (Nat.le_refl _) rfl rfl
  · exact filled

theorem inputData_fits : Fits (inputData hz now t seg) := by
  have kept : Fits (taken hz now t seg) := taken_fits fits
  rcases inputData_cases hz now t seg with ⟨same, -⟩ | ⟨-, sent, which, same⟩
  · rw [same]
    exact (kept.control _ _).same rfl (Nat.le_refl _) rfl rfl
  · rw [same]
    rcases which with rfl | rfl
    · exact tcpOutput_fits kept
    · exact tcpOutput_fits (kept.control _ _)

end

theorem Input.fits {after : Tcb} (outcome : Input hz now t seg after) (fits : Fits t) :
    Fits after := by
  cases outcome with
  | dropped => exact fits
  | answered => exact (fits.control thAck t.sndNxt).same rfl (Nat.le_refl _) rfl rfl
  | reset _ quiet =>
    rcases quiet with rfl | rfl
    · exact fits.same rfl (Nat.le_refl _) rfl rfl
    · exact (fits.control thRst t.sndNxt).same rfl (Nat.le_refl _) rfl rfl
  | finished _ _ took => exact tcbFinish_fits (takeAck_fits fits took)
  | data _ _ took => exact inputData_fits (afterFin_fits (takeAck_fits fits took))

theorem offerMss_le (small : t.mss ≤ tcpMss) (peerMss : Nat) : offerMss t peerMss ≤ tcpMss := by
  unfold offerMss
  split
  · exact Nat.min_le_right _ _
  · exact small

theorem Opening.fits {after : Tcb} (outcome : Opening hz now t seg after) (fits : Fits t) :
    Fits after := by
  have begun : Fits (offered t seg) := ⟨offerMss_le fits.mss _, fits.queued, fits.room, fits.sent⟩
  cases outcome with
  | dropped => exact fits
  | refused => exact fits.same rfl (Nat.le_refl _) rfl rfl
  | opened =>
    have acked : Fits (tcpAcked hz now (offered t seg) seg.ack) := tcpAcked_fits begun seg.ack
    have established : Fits { tcpAcked hz now (offered t seg) seg.ack with state := .established } :=
      acked.same rfl (Nat.le_refl _) rfl rfl
    exact tcpOutput_fits (established.control thAck _)
  | crossed =>
    have answered : Fits { offered t seg with state := .synRcvd } := begun.same rfl (Nat.le_refl _) rfl rfl
    exact answered.control thSynAck t.iss

theorem tcpInput_fits (fits : Fits t) : Fits (tcpInput hz now t seg) := by
  unfold tcpInput
  split
  · exact fits
  · exact fits
  · exact (inputSynSent_cases t seg).fits fits
  · exact (inputSynchronized_cases t seg).fits fits

theorem goBack_fits (fits : Fits t) : Fits (goBack now t) := by
  have back : Fits (rolledBack t) := fits.same rfl (Nat.le_refl _) rfl rfl
  exact (tcpOutput_fits back).same rfl (Nat.le_refl _) rfl rfl

theorem retransmit_fits (fits : Fits t) : Fits (retransmit now t) := by
  unfold retransmit
  split
  · exact fits.control _ _
  · exact fits.control _ _
  · exact goBack_fits fits

theorem Expired.fits {after : Tcb} (outcome : Expired hz now t after) (fits : Fits t) :
    Fits after := by
  cases outcome with
  | waiting => exact fits
  | gaveUp _ quiet =>
    rcases quiet with rfl | rfl
    · exact fits.same rfl (Nat.le_refl _) rfl rfl
    · exact (fits.control thRst t.sndNxt).same rfl (Nat.le_refl _) rfl rfl
  | retried _ _ same =>
    subst same
    have again : Fits { t with
      retries := t.retries + 1, rto := backOff hz t.rto, timing := false } :=
      fits.same rfl (Nat.le_refl _) rfl rfl
    exact (retransmit_fits again).same rfl (Nat.le_refl _) rfl rfl

theorem tcpTimers_fits (fits : Fits t) : Fits (tcpTimers hz now t) := by
  rcases tcpTimers_cases hz now t with
    ⟨-, done | same⟩ | ⟨-, same | ⟨freed, -⟩⟩ | ⟨-, -, expired⟩
  · rw [done]
    exact tcbFinish_fits fits
  · rwa [same]
  · rwa [same]
  · rw [freed]
    exact fits.same rfl (Nat.le_refl _) rfl rfl
  · exact expired.fits fits

theorem tcpWrite_fits (fits : Fits t) (data : List Byte) : Fits (tcpWrite now t data).2 := by
  rcases tcpWrite_cases now t data with ⟨same, -⟩ | ⟨-, -, -, output⟩
  · rwa [same]
  · rw [output]
    refine tcpOutput_fits ⟨fits.mss, ?_, fits.room, fits.sent⟩
    have queued := fits.queued
    simp only [List.length_append, List.length_take]
    omega

theorem tcpRead_fits (fits : Fits t) (max : Nat) : Fits (tcpRead t max).2.2 := by
  have reading := tcpRead_cases t max
  generalize tcpRead t max = result at reading
  have drained : ∀ count, Fits (readOut t count) := fun count =>
    ⟨fits.mss, fits.queued, Nat.le_trans (Nat.sub_le _ _) fits.room, fits.sent⟩
  cases reading with
  | gone => exact fits
  | empty => exact fits
  | freed => exact fits.same rfl (Nat.le_refl _) rfl rfl
  | bytes _ _ _ which =>
    rcases which with rfl | rfl
    · exact drained _
    · exact (drained _).control _ _

theorem tcpShutdown_fits (fits : Fits t) : Fits (tcpShutdown now t) := by
  unfold tcpShutdown
  split
  · exact tcpOutput_fits (fits.same rfl (Nat.le_refl _) rfl rfl)
  · exact fits

theorem tcpAbort_fits (fits : Fits t) : Fits (tcpAbort now t) := by
  unfold tcpAbort
  split
  · exact fits.same rfl (Nat.le_refl _) rfl rfl
  · exact fits.same rfl (Nat.le_refl _) rfl rfl
  · exact tcpOutput_fits (fits.same rfl (Nat.le_refl _) rfl rfl)
  · exact tcpOutput_fits (fits.same rfl (Nat.le_refl _) rfl rfl)
  · exact tcpOutput_fits (fits.same rfl (Nat.le_refl _) rfl rfl)
  · exact fits.same rfl (Nat.le_refl _) rfl rfl

variable (rbuf : Nat → Byte)

theorem tcbAlloc_fits : Fits (tcbAlloc hz rbuf) where
  mss := by
    show 536 ≤ tcpMss
    decide
  queued := Nat.zero_le _
  room := Nat.zero_le _
  sent _ member := by cases member

theorem tcpConnect_fits (iss : Seq) : Fits (tcpConnect hz now rbuf iss) := by
  have fresh : Fits (tcbAlloc hz rbuf) := tcbAlloc_fits rbuf
  have begun : Fits { tcbAlloc hz rbuf with
      iss := iss, sndUna := iss, sndNxt := iss + 1, state := .synSent } :=
    fresh.same rfl (Nat.le_refl _) rfl rfl
  exact (begun.control thSyn iss).same rfl (Nat.le_refl _) rfl rfl

theorem tcpListen_fits : Fits (tcpListen hz rbuf) := by
  have fresh : Fits (tcbAlloc hz rbuf) := tcbAlloc_fits rbuf
  exact fresh.same rfl (Nat.le_refl _) rfl rfl

theorem inputListen_fits (iss : Seq) : Fits (inputListen hz now rbuf iss seg) := by
  have fresh : Fits (tcbAlloc hz rbuf) := tcbAlloc_fits rbuf
  have made : Fits { tcbAlloc hz rbuf with
      rcvNxt := seg.seq + 1, iss := iss, sndUna := iss, sndNxt := iss + 1, sndWnd := seg.wnd
      mss := offerMss (tcbAlloc hz rbuf) seg.peerMss, state := .synRcvd } :=
    ⟨offerMss_le fresh.mss _, fresh.queued, fresh.room, fresh.sent⟩
  exact (made.control thSynAck iss).same rfl (Nat.le_refl _) rfl rfl

end Sizes

end Racccoon.Tcp
