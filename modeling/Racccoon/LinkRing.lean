import Mathlib.Data.List.Sublists
import Racccoon.Lib.Ring
import Racccoon.Lib.Run

/-!
A ring of a network link (`user/net/link.c3`): slots in shared memory, a driver and ipd that
put and get frames, and drivers that die and are started again. The processes take turns at
every access to the shared memory that another one may write to in between; a copy is one
access for each byte, and only the head is no step of its own for the process that puts. Besides
the memory and the calls in progress, the state keeps the frames put and got so far.
-/

namespace Racccoon.LinkRing

open Run

abbrev Byte := BitVec 8
abbrev Frame := List Byte

def linkSlots : Nat := 32
def linkFrameMax : Nat := 2040

/-- RX: the driver produces and ipd consumes. TX: the other way round. -/
inductive Direction where
  | rx | tx
  deriving DecidableEq

structure Slot where
  len : Nat
  data : Nat → Byte

/-- A call of `link_put`, with the slot it has taken the address of. -/
inductive Producing where
  | idle
  | copying (place : Nat) (frame : Frame) (count : Nat)
  | filled (place : Nat) (frame : Frame)
  deriving DecidableEq

/-- A call of `link_get`: it has loaded the tail, found a frame, taken the address of its slot,
loaded its length, and last loaded the tail once more. -/
inductive Consuming where
  | idle
  | checking (tail : BitVec 32)
  | opening
  | opened (place : Nat)
  | copying (place len : Nat) (out : Frame)
  | advancing (tail : BitVec 32) (out : Frame)
  deriving DecidableEq

/-- The driver process; `link_create` loads the head before it stores it as the tail. -/
inductive Driver where
  | dead
  | creating (head : BitVec 32)
  | running
  deriving DecidableEq

def Driver.creates : Driver → Bool
  | .creating _ => true
  | _ => false

structure Link where
  head : BitVec 32
  tail : BitVec 32
  slots : Nat → Slot
  producing : Producing
  consuming : Consuming
  driver : Driver
  put : List Frame
  got : List Frame

inductive Action where
  | put (frame : Frame)
  | fill
  | take
  | die
  | create

/-- `head % LINK_SLOTS` -/
def slotOf (counter : BitVec 32) : Nat := counter.toNat % linkSlots

variable (link : Link)

/-- The check at the start of `link_put`. -/
def beginPut (frame : Frame) : Link :=
  if frame.length > linkFrameMax then link
  else if (link.head - link.tail).toNat ≥ linkSlots then link
  else { link with producing := .copying (slotOf link.head) frame 0 }

def setByte (slot : Slot) (index : Nat) (byte : Byte) : Slot :=
  { slot with data := Function.update slot.data index byte }

/-- The next access of a `link_put`. -/
def fillSlot : Option Link :=
  match link.producing with
  | .idle => none
  | .copying place frame count =>
    match frame[count]? with
    | some byte =>
      some { link with
        slots := Function.update link.slots place (setByte (link.slots place) count byte)
        producing := .copying place frame (count + 1) }
    | none =>
      some { link with
        slots := Function.update link.slots place
          { link.slots place with len := frame.length }
        producing := .filled place frame }
  | .filled _ frame =>
    some { link with head := link.head + 1, producing := .idle, put := link.put ++ [frame] }

/-- The next access of a `link_get`; the slot's length is cut to what `out` holds. -/
def takeSlot : Link :=
  match link.consuming with
  | .idle => { link with consuming := .checking link.tail }
  | .checking tail =>
    { link with consuming := if tail = link.head then .idle else .opening }
  | .opening => { link with consuming := .opened (slotOf link.tail) }
  | .opened place =>
    let len := (link.slots place).len
    { link with consuming := .copying place (if len > linkFrameMax then 0 else len) [] }
  | .copying place len out =>
    if out.length < len then
      { link with
        consuming := .copying place len (out ++ [(link.slots place).data out.length]) }
    else { link with consuming := .advancing link.tail out }
  | .advancing tail out =>
    { link with tail := tail + 1, consuming := .idle, got := link.got ++ [out] }

variable (direction : Direction)

def stopDriver (link : Link) : Link :=
  match direction with
  | .rx => { link with driver := .dead, producing := .idle }
  | .tx => { link with driver := .dead, consuming := .idle }

/-- `link_create`, as far as this ring goes: `h.rx_tail = h.rx_head`. -/
def createLink : Option Link :=
  match link.driver with
  | .dead => some { link with driver := .creating link.head }
  | .creating head => some { link with tail := head, driver := .running }
  | .running => none

def step (link : Link) : Action → Option Link
  | .put frame =>
    if link.producing = .idle ∧ (direction = .rx → link.driver = .running) then
      some (beginPut link frame)
    else none
  | .fill => if direction = .rx → link.driver = .running then fillSlot link else none
  | .take => if direction = .tx → link.driver = .running then some (takeSlot link) else none
  | .die => some (stopDriver direction link)
  | .create => createLink link

def freshLink : Link :=
  ⟨0, 0, fun _ => ⟨0, fun _ => 0⟩, .idle, .idle, .dead, [], []⟩

/-- The condition on a step: `link_create` does not store the tail of a ring that ipd is
inside a `link_get` on. -/
def Undisturbed (link : Link) : Action → Prop
  | .create => direction = .rx → link.driver.creates = true → link.consuming = .idle
  | _ => True

def Slot.Holds (slot : Slot) (frame : Frame) : Prop :=
  slot.len = frame.length ∧ ∀ index byte, frame[index]? = some byte → slot.data index = byte

/-- The number of frames waiting, as the counters tell it. -/
def Link.waiting : Nat := (link.head - link.tail).toNat

def Link.readsFilled : Prop :=
  match link.consuming with
  | .idle | .checking _ => True
  | .opening | .advancing _ _ => 0 < link.waiting
  | .opened place | .copying place _ _ => 0 < link.waiting ∧ place = slotOf link.tail

structure Fifo (link : Link) : Prop where
  bounded : link.waiting ≤ linkSlots
  order : List.Sublist link.got link.put
  filled : link.readsFilled
  waiting : ∀ index frame, index < link.waiting →
    link.put[link.put.length - link.waiting + index]? = some frame →
    (link.slots (slotOf (link.tail + BitVec.ofNat 32 index))).Holds frame

/-- The slot of the `index`-th frame put since the segment was made. -/
def slotNumber (index : Nat) : Nat := index % linkSlots

theorem slotOf_ofNat (index : Nat) : slotOf (BitVec.ofNat 32 index) = slotNumber index := by
  exact Nat.mod_mod_of_dvd index (by decide)

theorem distance {taken count : Nat} (behind : taken ≤ count) (near : count ≤ taken + linkSlots) :
    (BitVec.ofNat 32 count - BitVec.ofNat 32 taken).toNat = count - taken := by
  rw [linkSlots] at near
  rw [BitVec.toNat_sub, BitVec.toNat_ofNat, BitVec.toNat_ofNat]
  omega

theorem slotNumber_ne {taken count index : Nat} (since : taken ≤ index) (before : index < count)
    (near : count < taken + linkSlots) : slotNumber index ≠ slotNumber count := by
  obtain ⟨more, rfl⟩ := Nat.exists_eq_add_of_le since
  exact Ring.mod_ne before near

/-- What a `link_put` in progress has done: `count` bytes of its frame, then its length. -/
def Filling (taken : Nat) : Prop :=
  match link.producing with
  | .idle => True
  | .copying place frame count =>
    place = slotNumber link.put.length ∧ link.put.length < taken + linkSlots ∧
      frame.length ≤ linkFrameMax ∧
      ∀ index byte, index < count → frame[index]? = some byte →
        (link.slots place).data index = byte
  | .filled place frame =>
    place = slotNumber link.put.length ∧ link.put.length < taken + linkSlots ∧
      frame.length ≤ linkFrameMax ∧ (link.slots place).Holds frame

/-- What a `link_get` in progress has of the oldest waiting frame. -/
def Emptying (taken : Nat) : Prop :=
  match link.consuming with
  | .idle => True
  | .checking tail => tail = BitVec.ofNat 32 taken
  | .opening => taken < link.put.length
  | .opened place => place = slotNumber taken ∧ taken < link.put.length
  | .copying place len out =>
    place = slotNumber taken ∧
      ∃ frame, link.put[taken]? = some frame ∧ len = frame.length ∧ out <+: frame
  | .advancing tail out => tail = BitVec.ofNat 32 taken ∧ link.put[taken]? = some out

/-- A driver that has loaded the head will store a tail between the two counters. -/
def Starting (link : Link) (taken : Nat) : Prop :=
  match link.driver with
  | .running => True
  | .dead => (direction = .rx → link.producing = .idle) ∧ (direction = .tx → link.consuming = .idle)
  | .creating head =>
    (direction = .rx → link.producing = .idle ∧ head = link.head) ∧
      (direction = .tx → link.consuming = .idle) ∧
      ∃ loaded, head = BitVec.ofNat 32 loaded ∧ taken ≤ loaded ∧ loaded ≤ link.put.length

/-- `taken` frames are behind the tail. -/
structure Sound (direction : Direction) (link : Link) (taken : Nat) : Prop where
  head : link.head = BitVec.ofNat 32 link.put.length
  tail : link.tail = BitVec.ofNat 32 taken
  behind : taken ≤ link.put.length
  near : link.put.length ≤ taken + linkSlots
  order : List.Sublist link.got (link.put.take taken)
  short : ∀ frame ∈ link.put, frame.length ≤ linkFrameMax
  holds : ∀ index frame, taken ≤ index → link.put[index]? = some frame →
    (link.slots (slotNumber index)).Holds frame
  filling : Filling link taken
  emptying : Emptying link taken
  starting : Starting direction link taken

variable {direction : Direction} {link after : Link} {taken : Nat}

theorem Sound.waiting (sound : Sound direction link taken) :
    link.waiting = link.put.length - taken := by
  rw [Link.waiting, sound.head, sound.tail]
  exact distance sound.behind sound.near

theorem Sound.fifo (sound : Sound direction link taken) : Fifo link := by
  have waits := sound.waiting
  have near := sound.near
  refine ⟨by omega, sound.order.trans (List.take_sublist taken link.put), ?_, ?_⟩
  · have held := sound.emptying
    unfold Emptying at held
    unfold Link.readsFilled
    rw [waits, sound.tail, slotOf_ofNat]
    cases reading : link.consuming with
    | idle | checking => trivial
    | opening =>
      rw [reading] at held
      exact Nat.sub_pos_of_lt held
    | opened =>
      rw [reading] at held
      exact ⟨Nat.sub_pos_of_lt held.2, held.1⟩
    | copying =>
      rw [reading] at held
      obtain ⟨same, frame, here, _⟩ := held
      obtain ⟨inside, _⟩ := List.getElem?_eq_some_iff.mp here
      exact ⟨Nat.sub_pos_of_lt inside, same⟩
    | advancing =>
      rw [reading] at held
      obtain ⟨inside, _⟩ := List.getElem?_eq_some_iff.mp held.2
      exact Nat.sub_pos_of_lt inside
  · intro index frame inside here
    rw [sound.tail, ← BitVec.ofNat_add, slotOf_ofNat]
    apply sound.holds (taken + index) frame (Nat.le_add_right taken index)
    rw [← here]
    congr 1
    omega

theorem fresh_sound (direction : Direction) : Sound direction freshLink 0 :=
  ⟨rfl, rfl, Nat.le_refl 0, Nat.zero_le _, List.Sublist.refl _, fun _ none => absurd none
    List.not_mem_nil, fun _ _ _ none => (by cases none), trivial, trivial,
    ⟨fun _ => rfl, fun _ => rfl⟩⟩

theorem Filling.later {more : Nat} (filling : Filling link taken) (since : taken ≤ more)
    (producing : after.producing = link.producing) (put : after.put = link.put)
    (slots : after.slots = link.slots) : Filling after more := by
  unfold Filling at *
  rw [producing, put, slots]
  cases state : link.producing with
  | idle => trivial
  | copying | filled =>
    rw [state] at filling
    exact ⟨filling.1, by omega, filling.2.2⟩

/-- What the producer does leaves a starting driver alone. -/
theorem Starting.produced (starting : Starting direction link taken)
    (free : direction = .rx → link.driver = .running) (driver : after.driver = link.driver)
    (consuming : after.consuming = link.consuming)
    (longer : link.put.length ≤ after.put.length) : Starting direction after taken := by
  unfold Starting at *
  rw [driver, consuming]
  cases state : link.driver with
  | running => trivial
  | dead =>
    rw [state] at starting free
    exact ⟨fun rx => (by cases free rx), starting.2⟩
  | creating =>
    rw [state] at starting free
    obtain ⟨_, calm, loaded, same, above, below⟩ := starting
    exact ⟨fun rx => (by cases free rx), calm, loaded, same, above, Nat.le_trans below longer⟩

theorem beginPut_sound (sound : Sound direction link taken)
    (free : direction = .rx → link.driver = .running) (frame : Frame) :
    Sound direction (beginPut link frame) taken := by
  unfold beginPut
  by_cases long : frame.length > linkFrameMax
  · rw [if_pos long]
    exact sound
  · rw [if_neg long]
    have waits : (link.head - link.tail).toNat = link.put.length - taken := sound.waiting
    have behind := sound.behind
    by_cases full : (link.head - link.tail).toNat ≥ linkSlots
    · rw [if_pos full]
      exact sound
    · rw [if_neg full]
      refine ⟨sound.head, sound.tail, behind, sound.near, sound.order, sound.short, sound.holds,
        ⟨?_, ?_, by omega, fun _ _ none => absurd none (Nat.not_lt_zero _)⟩, sound.emptying,
        sound.starting.produced free rfl rfl (Nat.le_refl _)⟩
      · rw [sound.head, slotOf_ofNat]
      · change link.put.length < taken + linkSlots
        omega

/-- Slots of waiting frames are not the one that is being filled. -/
theorem Sound.untouched (sound : Sound direction link taken)
    (room : link.put.length < taken + linkSlots) {index : Nat} {frame : Frame}
    (least : taken ≤ index) (here : link.put[index]? = some frame) (slot : Slot) :
    (Function.update link.slots (slotNumber link.put.length) slot (slotNumber index)).Holds
      frame := by
  obtain ⟨inside, _⟩ := List.getElem?_eq_some_iff.mp here
  rw [Function.update_of_ne (slotNumber_ne least inside room)]
  exact sound.holds index frame least here

theorem fillSlot_sound (sound : Sound direction link taken)
    (free : direction = .rx → link.driver = .running) (filled : fillSlot link = some after) :
    Sound direction after taken := by
  have filling := sound.filling
  unfold Filling at filling
  unfold fillSlot at filled
  cases producing : link.producing with
  | idle =>
    rw [producing] at filled
    cases filled
  | copying _ frame count =>
    rw [producing] at filled filling
    obtain ⟨rfl, room, short, copied⟩ := filling
    dsimp only at filled
    cases next : frame[count]? with
    | some =>
      rw [next, Option.some.injEq] at filled
      subst filled
      refine ⟨sound.head, sound.tail, sound.behind, sound.near, sound.order, sound.short,
        fun index frame least here => sound.untouched room least here _,
        ⟨rfl, room, short, ?_⟩, sound.emptying,
        sound.starting.produced free rfl rfl (Nat.le_refl _)⟩
      intro index other before here
      dsimp only
      rw [Function.update_self]
      by_cases last : index = count
      · rw [last, next, Option.some.injEq] at here
        rw [last, here]
        exact Function.update_self ..
      · exact (Function.update_of_ne last _ _).trans (copied index other (by omega) here)
    | none =>
      rw [next, Option.some.injEq] at filled
      subst filled
      have all := List.getElem?_eq_none_iff.mp next
      refine ⟨sound.head, sound.tail, sound.behind, sound.near, sound.order, sound.short,
        fun index frame least here => sound.untouched room least here _,
        ⟨rfl, room, short, ?_⟩, sound.emptying,
        sound.starting.produced free rfl rfl (Nat.le_refl _)⟩
      dsimp only
      rw [Function.update_self]
      refine ⟨rfl, fun index byte here => ?_⟩
      obtain ⟨inside, _⟩ := List.getElem?_eq_some_iff.mp here
      exact copied index byte (by omega) here
  | filled place frame =>
    rw [producing, Option.some.injEq] at filled
    rw [producing] at filling
    subst filled
    obtain ⟨rfl, room, short, whole⟩ := filling
    have behind := sound.behind
    have longer : (link.put ++ [frame]).length = link.put.length + 1 := by simp
    -- the slot is whole by now, so it may join the frames put
    refine ⟨?_, sound.tail, ?_, ?_, ?_, ?_, ?_, trivial, ?_,
      sound.starting.produced free rfl rfl (by simp)⟩
    · rw [longer, sound.head, BitVec.ofNat_add]
      rfl
    · change taken ≤ (link.put ++ [frame]).length
      omega
    · change (link.put ++ [frame]).length ≤ taken + linkSlots
      omega
    · rw [List.take_append_of_le_length behind]
      exact sound.order
    · intro other member
      rcases List.mem_append.mp member with old | new
      · exact sound.short other old
      · rw [List.mem_singleton.mp new]
        exact short
    · intro index other least here
      change (link.put ++ [frame])[index]? = some other at here
      by_cases old : index < link.put.length
      · rw [List.getElem?_append_left old] at here
        exact sound.holds index other least here
      · obtain ⟨inside, _⟩ := List.getElem?_eq_some_iff.mp here
        obtain rfl : index = link.put.length := by omega
        rw [List.getElem?_concat_length, Option.some.injEq] at here
        rw [← here]
        exact whole
    · have emptying := sound.emptying
      unfold Emptying at emptying ⊢
      dsimp only
      cases consuming : link.consuming with
      | idle => trivial
      | checking =>
        rw [consuming] at emptying
        exact emptying
      | opening =>
        rw [consuming] at emptying
        exact Nat.lt_of_lt_of_le emptying (by simp)
      | opened =>
        rw [consuming] at emptying
        exact ⟨emptying.1, by omega⟩
      | copying =>
        rw [consuming] at emptying
        obtain ⟨same, other, here, rest⟩ := emptying
        obtain ⟨inside, _⟩ := List.getElem?_eq_some_iff.mp here
        exact ⟨same, other, by rw [List.getElem?_append_left inside, here], rest⟩
      | advancing =>
        rw [consuming] at emptying
        obtain ⟨inside, _⟩ := List.getElem?_eq_some_iff.mp emptying.2
        exact ⟨emptying.1, by rw [List.getElem?_append_left inside, emptying.2]⟩

/-- What the consumer does leaves a starting driver alone. -/
theorem Starting.consumed {later : Nat} (starting : Starting direction link taken)
    (head : link.head = BitVec.ofNat 32 link.put.length)
    (free : direction = .tx → link.driver = .running) (driver : after.driver = link.driver)
    (producing : after.producing = link.producing) (same : after.head = link.head)
    (put : after.put = link.put) (behind : later ≤ link.put.length) :
    Starting direction after later := by
  unfold Starting at *
  rw [driver, producing, same, put]
  cases state : link.driver with
  | running => trivial
  | dead =>
    rw [state] at starting free
    exact ⟨starting.1, fun tx => (by cases free tx)⟩
  | creating =>
    rw [state] at starting free
    have rx : direction = .rx := by
      cases direction with
      | rx => rfl
      | tx => cases free rfl
    obtain ⟨still, _, _⟩ := starting
    exact ⟨still, fun tx => (by cases free tx), link.put.length, (still rx).2.trans head, behind,
      Nat.le_refl _⟩

section
variable (sound : Sound direction link taken)
include sound

theorem takeSlot_sound (free : direction = .tx → link.driver = .running) :
    ∃ later, Sound direction (takeSlot link) later := by
  have emptying := sound.emptying
  have behind := sound.behind
  have near := sound.near
  unfold Emptying at emptying
  unfold takeSlot
  cases consuming : link.consuming with
  | idle =>
    exact ⟨taken, sound.head, sound.tail, behind, near, sound.order, sound.short, sound.holds,
      sound.filling, sound.tail, sound.starting.consumed sound.head free rfl rfl rfl rfl behind⟩
  | checking tail =>
    rw [consuming] at emptying
    dsimp only at emptying ⊢
    by_cases empty : tail = link.head
    · rw [if_pos empty]
      exact ⟨taken, sound.head, sound.tail, behind, near, sound.order, sound.short, sound.holds,
        sound.filling, trivial, sound.starting.consumed sound.head free rfl rfl rfl rfl behind⟩
    · rw [if_neg empty]
      refine ⟨taken, sound.head, sound.tail, behind, near, sound.order, sound.short, sound.holds,
        sound.filling, Nat.lt_of_le_of_ne behind fun same => ?_,
        sound.starting.consumed sound.head free rfl rfl rfl rfl behind⟩
      rw [emptying, sound.head, same] at empty
      exact empty rfl
  | opening =>
    rw [consuming] at emptying
    refine ⟨taken, sound.head, sound.tail, behind, near, sound.order, sound.short, sound.holds,
      sound.filling, ⟨?_, emptying⟩, sound.starting.consumed sound.head free rfl rfl rfl rfl behind⟩
    rw [sound.tail, slotOf_ofNat]
  | opened =>
    rw [consuming] at emptying
    obtain ⟨rfl, inside⟩ := emptying
    have here : link.put[taken]? = some link.put[taken] := List.getElem?_eq_getElem inside
    have held := sound.holds taken _ (Nat.le_refl _) here
    have short := sound.short _ (List.getElem_mem inside)
    refine ⟨taken, sound.head, sound.tail, behind, near, sound.order, sound.short, sound.holds,
      sound.filling, ⟨rfl, _, here, ?_, List.nil_prefix⟩,
      sound.starting.consumed sound.head free rfl rfl rfl rfl behind⟩
    rw [held.1, if_neg (by omega)]
  | copying place _ out =>
    rw [consuming] at emptying
    obtain ⟨rfl, frame, here, rfl, rest, rfl⟩ := emptying
    have held := sound.holds taken _ (Nat.le_refl _) here
    obtain ⟨inside, _⟩ := List.getElem?_eq_some_iff.mp here
    dsimp only
    cases rest with
    | cons byte rest =>
      rw [if_pos (by simp)]
      refine ⟨taken, sound.head, sound.tail, behind, near, sound.order, sound.short,
        sound.holds, sound.filling, ⟨rfl, _, here, rfl, ?_⟩,
        sound.starting.consumed sound.head free rfl rfl rfl rfl behind⟩
      rw [held.2 out.length byte (by simp)]
      exact ⟨rest, by simp⟩
    | nil =>
      rw [List.append_nil] at here held ⊢
      rw [if_neg (Nat.lt_irrefl _)]
      exact ⟨taken, sound.head, sound.tail, behind, near, sound.order, sound.short, sound.holds,
        sound.filling, ⟨sound.tail, here⟩,
        sound.starting.consumed sound.head free rfl rfl rfl rfl behind⟩
  | advancing =>
    rw [consuming] at emptying
    obtain ⟨rfl, here⟩ := emptying
    obtain ⟨inside, _⟩ := List.getElem?_eq_some_iff.mp here
    refine ⟨taken + 1, sound.head, ?_, inside, ?_, ?_, sound.short, ?_,
      sound.filling.later (Nat.le_succ taken) rfl rfl rfl, trivial,
      sound.starting.consumed sound.head free rfl rfl rfl rfl inside⟩
    · exact (BitVec.ofNat_add ..).symm
    · change link.put.length ≤ taken + 1 + linkSlots
      omega
    · rw [List.take_add_one, here]
      exact sound.order.append (List.Sublist.refl _)
    · intro index other least found
      exact sound.holds index other (by omega) found

theorem stopDriver_sound : Sound direction (stopDriver direction link) taken := by
  cases direction with
  | rx =>
    exact ⟨sound.head, sound.tail, sound.behind, sound.near, sound.order, sound.short,
      sound.holds, trivial, sound.emptying, ⟨fun _ => rfl, fun tx => (by cases tx)⟩⟩
  | tx =>
    exact ⟨sound.head, sound.tail, sound.behind, sound.near, sound.order, sound.short,
      sound.holds, sound.filling, trivial, ⟨fun rx => (by cases rx), fun _ => rfl⟩⟩

theorem createLink_sound (calm : Undisturbed direction link .create)
    (created : createLink link = some after) : ∃ later, Sound direction after later := by
  have starting := sound.starting
  have near := sound.near
  unfold Starting at starting
  unfold createLink at created
  cases state : link.driver with
  | running =>
    rw [state] at created
    cases created
  | dead =>
    rw [state, Option.some.injEq] at created
    rw [state] at starting
    subst created
    refine ⟨taken, sound.head, sound.tail, sound.behind, near, sound.order, sound.short,
      sound.holds, sound.filling, sound.emptying, ⟨fun rx => ⟨starting.1 rx, rfl⟩, starting.2,
        link.put.length, sound.head, sound.behind, Nat.le_refl _⟩⟩
  | creating head =>
    rw [state, Option.some.injEq] at created
    rw [state] at starting
    subst created
    obtain ⟨_, stopped, loaded, rfl, above, below⟩ := starting
    -- nobody is reading: the driver itself on TX, ipd by the condition on RX
    have idle : link.consuming = .idle := by
      cases direction with
      | rx => exact calm rfl (by rw [state]; rfl)
      | tx => exact stopped rfl
    refine ⟨loaded, sound.head, rfl, below, ?_, ?_, sound.short, ?_,
      sound.filling.later above rfl rfl rfl, ?_, trivial⟩
    · change link.put.length ≤ loaded + linkSlots
      omega
    · exact sound.order.trans (List.take_prefix_take_left above).sublist
    · intro index frame least here
      exact sound.holds index frame (Nat.le_trans above least) here
    · unfold Emptying
      rw [idle]
      trivial

theorem step_sound {action : Action} (calm : Undisturbed direction link action)
    (stepped : step direction link action = some after) : ∃ later, Sound direction after later := by
  cases action with
  | put frame =>
    simp only [step, Option.ite_none_right_eq_some, Option.some.injEq] at stepped
    obtain ⟨⟨_, free⟩, rfl⟩ := stepped
    exact ⟨taken, beginPut_sound sound free frame⟩
  | fill =>
    simp only [step, Option.ite_none_right_eq_some] at stepped
    exact ⟨taken, fillSlot_sound sound stepped.1 stepped.2⟩
  | take =>
    simp only [step, Option.ite_none_right_eq_some, Option.some.injEq] at stepped
    obtain ⟨free, rfl⟩ := stepped
    exact takeSlot_sound sound free
  | die =>
    simp only [step, Option.some.injEq] at stepped
    subst stepped
    exact ⟨taken, stopDriver_sound sound⟩
  | create => exact createLink_sound sound calm stepped

end

/-- While no driver stores the tail of a ring that ipd is taking a frame from, a ring is a
bounded FIFO, whatever the order of the steps and however often the driver is started. -/
theorem link_fifo (direction : Direction)
    (run : Reach (step direction) (Undisturbed direction) freshLink link) : Fifo link := by
  have sound : ∃ taken, Sound direction link taken := by
    apply run.invariant (fun link => ∃ taken, Sound direction link taken)
      ⟨0, fresh_sound direction⟩
    rintro before action after ⟨taken, sound⟩ calm stepped
    exact step_sound sound calm stepped
  obtain ⟨taken, sound⟩ := sound
  exact sound.fifo

instance (direction : Direction) (link : Link) :
    (action : Action) → Decidable (Undisturbed direction link action)
  | .create => inferInstanceAs (Decidable (_ → _ → _))
  | .put _ | .fill | .take | .die => .isTrue trivial

/-- The driver creates the link and puts a frame, and ipd finds it. -/
def oneFrame : List Action :=
  [.create, .create, .put [0xAB, 0xCD], .fill, .fill, .fill, .fill, .take, .take, .take]

def restarted : List Action := oneFrame ++ [.die, .create]

/-- What is left of the `link_get`: the length, two bytes, and the tail. -/
def finishGet : List Action := List.replicate 5 .take

theorem restarted_fifo :
    let link := outcome (step .rx) (Undisturbed .rx) freshLink
      (restarted ++ finishGet ++ [.create, .put [0xEF], .fill, .fill, .fill])
    link.got = [[0xAB, 0xCD]] ∧ link.put = [[0xAB, 0xCD], [0xEF]] ∧ Fifo link :=
  ⟨by decide, by decide, link_fifo .rx (outcome_reach _ freshLink (by decide))⟩

/-- With the tail stored in between, ipd takes a frame more than there ever was. -/
theorem restart_breaks_fifo :
    ¬ ∀ (direction : Direction) (link : Link),
      Reach (step direction) (fun _ _ => True) freshLink link → Fifo link := by
  intro always
  have fifo := always .rx _
    (outcome_reach (restarted ++ [.create] ++ finishGet) freshLink (by decide))
  exact absurd fifo.bounded (by decide)

end Racccoon.LinkRing
