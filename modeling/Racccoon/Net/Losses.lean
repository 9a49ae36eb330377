import Racccoon.Net.Answers
import Racccoon.Net.Handover
import Racccoon.Net.Holdings
import Racccoon.Tcp.Unread

/-!
What leaves the queues of ipd: the datagrams and the bytes of its conversations, and the
connections that wait to be accepted. Only a read takes anything, from the front, and in a
fair run it takes it for a caller that waits and gets it.
-/

namespace Racccoon.Net.Parked
open Function (update update_self update_of_ne)

open Run
open Racccoon.Tcp (Byte Tcb tcpRead netRetry)

def Taken.grams : Taken → List Dgram
  | .datagram dgram => [dgram]
  | _ => []

def Taken.stream : Taken → List Byte
  | .bytes data => data
  | _ => []

/-- A connection that no accept can return any more. -/
def Stock.Gone (s : Stock) (nc : Nat) : Prop :=
  (s.tables.convs nc).state = .free ∨ (s.tables.convs nc).tcb = none

/-- `taken` stood first in a queue of the conversation `ci` and is out of it; all else that
was queued still is, and more may have arrived behind it. The queues are those of the
conversations that were not given out anew, and of the control blocks in use. -/
structure Passes (before after : Stock) (ci : Nat) (taken : Taken) : Prop where
  grams : ∀ cj, (after.tables.convs cj).born = (before.tables.convs cj).born →
    ∃ rest, before.grams cj = (if cj = ci then taken.grams else []) ++ rest ∧
      rest <+: after.grams cj
  bytes : ∀ ti, (before.tables.blocks ti).tcb.used = true →
    ∃ rest, (before.tables.blocks ti).tcb.unread =
        (if (before.tables.convs ci).tcb = some ti then taken.stream else []) ++ rest ∧
      rest <+: (after.tables.blocks ti).tcb.unread
  calls : ∀ ti, (before.tables.blocks ti).tcb.used = true →
    ∀ nc ∈ (before.tables.blocks ti).aq, nc ∈ (after.tables.blocks ti).aq ∨ before.Gone nc ∨
      listensOn before.tables ci = some ti ∧ taken = .connection nc
  listed : ∀ nc, taken = .connection nc → ∃ ti, listensOn before.tables ci = some ti ∧
    nc ∈ (before.tables.blocks ti).aq

/-- What is taken for `pend` goes to its caller, which waits for it. -/
structure Served (s after : Daemon) (pend : Pend) (taken : Taken) : Prop where
  waits : s.books.Waits pend.caller
  answered : ∃ value : Int, after.books.log = s.books.log ++ [⟨pend.caller, value, taken, true,
      some ⟨pend.caller.pid, pend.caller.gen, some pend.caller.call⟩⟩] ∧
    ∀ data, taken = .bytes data → value = data.length
  owned : ∀ nc, taken = .connection nc →
    (after.stock.tables.convs nc).ownerPid = pend.caller.pid ∧
    (after.stock.tables.convs nc).ownerGen = pend.caller.gen

section Passes
variable {s : Stock} {ci : Nat}

/-- What a control block holds for its readers is still there. -/
def Grown (before : Tables) (ti : Nat) (block : Block) : Prop :=
  (before.blocks ti).tcb.used = true →
    (before.blocks ti).tcb.unread <+: block.tcb.unread ∧ (before.blocks ti).aq <+: block.aq

theorem Passes.grown {after : Stock} (grams : ∀ cj,
      (after.tables.convs cj).born = (s.tables.convs cj).born → s.grams cj <+: after.grams cj)
    (grown : after.tables.Hold (Grown s.tables)) (ci : Nat) : Passes s after ci .nothing where
  grams cj same := ⟨s.grams cj, by simp [Taken.grams], grams cj same⟩
  bytes ti used := ⟨_, by simp [Taken.stream], (grown ti used).1⟩
  calls ti used nc member := .inl ((grown ti used).2.subset member)
  listed _ none_ := by cases none_

theorem Tables.grown_refl (s : Tables) : s.Hold (Grown s) :=
  fun _ _ => ⟨List.prefix_rfl, List.prefix_rfl⟩

theorem Passes.refl (s : Stock) (ci : Nat) : Passes s s ci .nothing :=
  .grown (fun _ _ => List.prefix_rfl) (Tables.grown_refl s.tables) ci

/-- Whatever was queued is still queued, cannot be returned, or is what the scan found. -/
theorem scanQueue_left (queue : List Nat) : ∀ nc ∈ queue, nc ∈ (scanQueue s.tables queue).1 ∨
    s.Gone nc ∨ (scanQueue s.tables queue).2 = some nc := by
  induction queue with
  | nil => simp
  | cons cj rest ih =>
    intro nc member
    rw [scanQueue]
    split
    · rename_i state
      rcases List.mem_cons.mp member with rfl | later
      · exact .inr (.inl (.inl state))
      · exact ih nc later
    · rename_i tcb _
      rcases List.mem_cons.mp member with rfl | later
      · exact .inr (.inl (.inr tcb))
      · exact ih nc later
    · split_ifs
      · rcases List.mem_cons.mp member with rfl | later
        · exact .inl List.mem_cons_self
        · exact (ih nc later).imp_left (List.mem_cons_of_mem _)
      · rcases List.mem_cons.mp member with rfl | later
        · exact .inr (.inr rfl)
        · exact .inl later

/-- An accept moves the connections that wait, and nothing else. -/
theorem Passes.accepted {tables : Tables} {taken : Taken} {li : Nat}
    (stream : taken.stream = []) (grams : taken.grams = [])
    (tcb : ∀ ti, (tables.blocks ti).tcb = (s.tables.blocks ti).tcb)
    (listens : listensOn s.tables ci = some li)
    (aq : ∀ ti, (tables.blocks ti).aq =
      if ti = li then (scanQueue s.tables (s.tables.blocks li).aq).1 else (s.tables.blocks ti).aq)
    (found : ∀ nc, taken = .connection nc ↔
      (scanQueue s.tables (s.tables.blocks li).aq).2 = some nc) :
    Passes s { s with tables := tables } ci taken where
  grams cj _ := ⟨_, by simp [grams], List.prefix_rfl⟩
  bytes ti _ := by
    refine ⟨(s.tables.blocks ti).tcb.unread, by simp [stream], ?_⟩
    dsimp only
    rw [tcb ti]
  calls ti _ nc member := by
    dsimp only
    rw [aq ti]
    split_ifs with here
    · subst here
      rcases scanQueue_left (s := s) _ nc member with kept | gone | first
      · exact .inl kept
      · exact .inr (.inl gone)
      · exact .inr (.inr ⟨listens, (found nc).mpr first⟩)
    · exact .inl member
  listed nc same := ⟨li, listens, ((scanQueue_spec s.tables _).2 nc ((found nc).mp same)).1⟩

end Passes

section Values
variable {s : Stock} {procs : Procs} {pend : Pend}

end Values

section Steps
variable {hz : Nat} {s : Daemon} {hand : List (Caller × Nat)} {pend : Pend} {i : Nat}

/-- A read takes nothing, or is answered. -/
def Reads (s after : Daemon) (pend : Pend) : Prop :=
  ∃ taken, Passes s.stock after.stock pend.conv taken ∧
    (taken = .nothing ∨ Served s after pend taken)

end Steps

/-- Process 5 reads a conversation for datagrams, where there is nothing yet. -/
def readerParks : List Event :=
  [.spawn 5 100, .call 5 (.clone .udp), .poll, .call 5 (.read .udp 0 512), .poll]

/-- So does process 6, which ends; its number is given out again before the answer. -/
def otherDies : List Event :=
  [.spawn 6 100, .call 6 (.clone .udp), .poll, .call 6 (.read .udp 1 512), .poll,
    .exit 6 false, .spawn 6 100, .call 6 .text, .clock 10, .service 1, .poll]

def lateGram : Dgram := ⟨0x0A000202, 53, [1, 2, 3]⟩

def waiting : Daemon :=
  outcome (step 10) (Daemon.Fair 10) (started 10) (readerParks ++ otherDies ++ [.datagram 0 lateGram])

def answered : Daemon := (step 10 waiting (.service 0)).getD waiting

def interrupted : Daemon :=
  outcome (step 10) (fun _ _ => True) (started 10)
    (readerParks ++ [.stop 5 false, .datagram 0 lateGram])

end Racccoon.Net.Parked
