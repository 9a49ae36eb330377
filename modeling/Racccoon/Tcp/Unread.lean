import Mathlib.Data.List.Infix
import Racccoon.Tcp.Sender

/-!
The bytes that wait in a control block for their reader. Only a read takes any of them, from
the front; whatever else happens to the block, all of them are still there, and a segment may
add more behind.
-/

namespace Racccoon.Tcp

def Tcb.unread (t : Tcb) : List Byte := Ring.read tcpBuf t.rbuf t.rhead t.rlen

section Unread
variable {hz now : Nat} {t after : Tcb} {seg : Segment}

theorem unread_same (same : after.receiver = t.receiver) : after.unread = t.unread := by
  have rbuf : after.rbuf = t.rbuf := congrArg Receiver.rbuf same
  have rhead : after.rhead = t.rhead := congrArg Receiver.rhead same
  have rlen : after.rlen = t.rlen := congrArg Receiver.rlen same
  rw [Tcb.unread, rbuf, rhead, rlen, Tcb.unread]

theorem takePayload_unread : t.unread <+: (takePayload t seg).unread := by
  unfold takePayload
  split
  · have length : ((seg.data.drop (skipped t seg)).take (kept t seg)).length = kept t seg := by
      simp only [List.length_take, List.length_drop, kept, Segment.dlen]
      omega
    by_cases room : t.rlen + kept t seg ≤ tcpBuf
    · have queued := @Ring.read_write _ tcpBuf t.rbuf t.rhead t.rlen
        ((seg.data.drop (skipped t seg)).take (kept t seg)) (by rw [length]; exact room)
      rw [length] at queued
      exact ⟨_, queued.symm⟩
    · have none_ : kept t seg = 0 := by
        simp only [kept, tcpRwnd] at room ⊢
        omega
      rw [none_]
      exact List.prefix_rfl
  · exact List.prefix_rfl

theorem takeFin_unread : (takeFin hz now t).unread = t.unread := by
  unfold takeFin
  split <;> rfl

theorem taken_unread : t.unread <+: (taken hz now t seg).unread := by
  unfold taken
  split
  · rw [takeFin_unread]
    exact takePayload_unread
  · exact takePayload_unread

theorem inputData_unread : t.unread <+: (inputData hz now t seg).unread := by
  have kept : t.unread <+: (taken hz now t seg).unread := taken_unread
  rcases inputData_cases hz now t seg with ⟨same, -⟩ | ⟨-, sent, which, same⟩
  · rw [same]
    exact kept
  · rw [same, unread_same (tcpOutput_receiver sent)]
    rcases which with rfl | rfl
    · exact kept
    · exact kept

theorem tcbFinish_unread (t : Tcb) : (tcbFinish t).unread = t.unread := by
  unfold tcbFinish
  split_ifs
  · rfl
  · rfl

theorem Input.unread (outcome : Input hz now t seg after) : t.unread <+: after.unread := by
  cases outcome with
  | dropped => exact List.prefix_rfl
  | answered => exact List.prefix_rfl
  | reset _ quiet =>
    rcases quiet with rfl | rfl
    · exact List.prefix_rfl
    · exact List.prefix_rfl
  | finished acked _ took =>
    rw [tcbFinish_unread, unread_same (takeAck_receiver took)]
  | data acked _ took =>
    have same : (afterFin hz now acked).unread = t.unread :=
      (unread_same afterFin_receiver).trans (unread_same (takeAck_receiver took))
    rw [← same]
    exact inputData_unread

theorem Opening.unread (outcome : Opening hz now t seg after) : after.unread = t.unread := by
  cases outcome with
  | dropped => rfl
  | refused => rfl
  | opened =>
    have acked : (tcpAcked hz now (offered t seg) seg.ack).unread = (offered t seg).unread :=
      unread_same (tcpAcked_receiver _ _)
    exact (unread_same (tcpOutput_receiver _)).trans acked
  | crossed => rfl

theorem Expired.unread (outcome : Expired hz now t after) : after.unread = t.unread := by
  cases outcome with
  | waiting => rfl
  | gaveUp _ quiet =>
    rcases quiet with rfl | rfl
    · rfl
    · rfl
  | retried _ _ same =>
    subst same
    exact unread_same (retransmit_receiver _)

end Unread

end Racccoon.Tcp
