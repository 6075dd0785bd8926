import M2M.Lib.Region
import M2M.Shaper.NetShaper

/-! The time between the packets that a shaper sends at a fixed rate. -/

universe u

namespace M2M.Shaper

open M2M.Lib

variable {ω : Type u}

/-- What the loop of `netshaper_expires` sends, with the clock that it reads for each packet. -/
def transmitted : Int → List Nat → List (QueuedPacket ω) → List (Packet ω × Int)
  | _, _, [] => []
  | now, waits, packet :: next =>
    if packet.expiration > now then []
    else (packet.packet, now) :: transmitted (now + waits.headD 0) waits.tail next

/-- A shaper at a time, with the packets passed to `send_func` and the clock at each. -/
structure Line (ω : Type u) where
  shaper : NetShaper ω
  clock : Int
  transmissions : List (Packet ω × Int)

inductive Traffic (ω : Type u)
  | send (packet : Packet ω) (now : Int)
  /-- `netshaper_expires` is called, early, at its time or late. -/
  | expire (now : Int) (waits : List Nat)

namespace Line

/-- `duration` is `size*inv_rate` in units of the clock. -/
def step (duration : Nat → Nat) : Machine.Step (Line ω) (Traffic ω)
  | w, .send packet now =>
    let result := netshaperSendAux w.shaper packet (duration packet.data.length) now
    if w.clock ≤ now then
      some ⟨result.1, now, w.transmissions ++ result.2.map fun packet => (packet, now)⟩
    else none
  | w, .expire now waits =>
    if w.clock ≤ now then
      some ⟨(netshaperExpires { w.shaper with timer := none } now waits).1, now + waits.sum,
        w.transmissions ++ transmitted now waits w.shaper.packets⟩
    else none

/-- An active shaper whose rate has just been set. -/
def Init (w : Line ω) : Prop :=
  (∃ shaper rate, 1 < rate ∧ w.shaper = (netshaperSetRate shaper rate).1) ∧ w.transmissions = []

def External : Traffic ω → Prop
  | .send packet _ => packetIsInternal packet.data = false
  | .expire _ _ => True

/-- Of two packets sent one after the other, the second waits until the first is over. -/
def Spaced (duration : Nat → Nat) (transmissions : List (Packet ω × Int)) : Prop :=
  transmissions.IsChain fun p q : Packet ω × Int => p.2 + (duration p.1.data.length : Int) ≤ q.2

section Schedule

variable (duration : Nat → Nat)

def sentSlot (p : Packet ω × Int) : Slot := ⟨p.2, duration p.1.data.length⟩

def queuedSlot (q : QueuedPacket ω) : Slot := ⟨q.expiration, duration q.packet.data.length⟩

/-- The handler has sent each packet that is due before the next packet in the queue expires. -/
def Punctual : Int → List Nat → List (QueuedPacket ω) → Prop
  | _, _, [] => True
  | now, waits, packet :: next =>
    packet.expiration ≤ now →
      (∀ q ∈ next.head?, (sentSlot duration (packet.packet, now)).Before (queuedSlot duration q)) ∧
        Punctual (now + waits.headD 0) waits.tail next

/-- The clock at which a packet is given. Once `netshaper_expires` has emptied the queue,
`block_until` says nothing about the packet that it sent last: none comes before that one is
over. -/
def ClearNow (w : Line ω) (now : Int) : Prop :=
  w.shaper.blockUntil = -1 →
    ∀ p ∈ w.transmissions.getLast?, p.2 + (duration p.1.data.length : Int) ≤ now

/-- The slot that a packet takes among those that the queue waits for. -/
def ClearSlot (w : Line ω) (now : Int) (length : Nat) : Prop :=
  if now ≥ w.shaper.blockUntil then
    ∀ q ∈ w.shaper.packets.head?, (⟨now, length⟩ : Slot).Before (queuedSlot duration q)
  else
    ∀ q ∈ w.shaper.packets,
      if q.expiration ≤ w.shaper.blockUntil then
        (queuedSlot duration q).Before ⟨w.shaper.blockUntil, length⟩
      else (⟨w.shaper.blockUntil, length⟩ : Slot).Before (queuedSlot duration q)

/-- When packets are given and the timer fires. -/
def Clear (w : Line ω) : Traffic ω → Prop
  | .send packet now =>
    w.ClearNow duration now ∧ w.ClearSlot duration now (duration packet.data.length)
  | .expire now waits => Punctual duration now waits w.shaper.packets

/-- The transmissions, and those that the queue waits for. -/
def schedule (transmissions : List (Packet ω × Int)) (packets : List (QueuedPacket ω)) :
    List Slot :=
  transmissions.map (sentSlot duration) ++ packets.map (queuedSlot duration)

/-- The transmissions and the queue form a schedule, and the shaper blocks until the last
transmission is over, but for the reset of `netshaper_expires`. -/
structure Scheduled (w : Line ω) : Prop where
  active : w.shaper.active = true
  inOrder : Slot.InOrder (schedule duration w.transmissions w.shaper.packets)
  blocked : w.shaper.blockUntil ≠ -1 → ∀ p ∈ w.transmissions.getLast?,
    (sentSlot duration p).finish ≤ w.shaper.blockUntil

variable {duration} {w w' : Line ω} {event : Traffic ω} {packets : List (QueuedPacket ω)}
  {transmissions : List (Packet ω × Int)}

theorem exists_enqueue (packet : QueuedPacket ω) (packets : List (QueuedPacket ω)) :
    ∃ front back, packets = front ++ back ∧ enqueue packet packets = front ++ packet :: back ∧
      (∀ q ∈ front, q.expiration ≤ packet.expiration) ∧
      ∀ q ∈ back.head?, packet.expiration < q.expiration := by
  induction packets with
  | nil => exact ⟨[], [], rfl, rfl, nofun, nofun⟩
  | cons node next ih =>
    unfold enqueue
    rw [List.orderedInsert_cons]
    split
    case isTrue hlater =>
      refine ⟨[], node :: next, rfl, rfl, nofun, ?_⟩
      intro q hq
      cases hq
      exact hlater
    case isFalse hlater =>
      obtain ⟨front, back, rfl, henqueue, hfront, hback⟩ := ih
      refine ⟨node :: front, back, rfl, congrArg (node :: ·) henqueue, ?_, hback⟩
      rw [List.forall_mem_cons]
      exact ⟨Int.not_lt.mp hlater, hfront⟩

theorem forall_mem_getLast?_map {α β : Type*} {f : α → β} {p : β → Prop} {l : List α}
    (h : ∀ a ∈ l.getLast?, p (f a)) : ∀ b ∈ (l.map f).getLast?, p b := by
  rw [List.getLast?_map]
  intro b hb
  obtain ⟨a, ha, rfl⟩ := Option.mem_map.mp hb
  exact h a ha

theorem forall_mem_head?_map {α β : Type*} {f : α → β} {p : β → Prop} {l : List α}
    (h : ∀ a ∈ l.head?, p (f a)) : ∀ b ∈ (l.map f).head?, p b := by
  rw [List.head?_map]
  intro b hb
  obtain ⟨a, ha, rfl⟩ := Option.mem_map.mp hb
  exact h a ha

theorem schedule_send {packet : Packet ω} {now : Int}
    (h : Slot.InOrder (schedule duration transmissions packets))
    (hlast : ∀ p ∈ transmissions.getLast?,
      (sentSlot duration p).Before (sentSlot duration (packet, now)))
    (hhead : ∀ q ∈ packets.head?,
      (sentSlot duration (packet, now)).Before (queuedSlot duration q)) :
    Slot.InOrder (schedule duration (transmissions ++ [(packet, now)]) packets) := by
  have hinsert := Slot.InOrder.insert h (forall_mem_getLast?_map hlast) (forall_mem_head?_map hhead)
  rw [schedule, List.map_append, List.append_assoc]
  exact hinsert

theorem schedule_enqueue {packet : QueuedPacket ω}
    (h : Slot.InOrder (schedule duration transmissions packets))
    (hlast : ∀ p ∈ transmissions.getLast?,
      (sentSlot duration p).Before (queuedSlot duration packet))
    (hqueue : ∀ q ∈ packets,
      if q.expiration ≤ packet.expiration then
        (queuedSlot duration q).Before (queuedSlot duration packet)
      else (queuedSlot duration packet).Before (queuedSlot duration q)) :
    Slot.InOrder (schedule duration transmissions (enqueue packet packets)) := by
  obtain ⟨front, back, rfl, henqueue, hfront, hback⟩ := exists_enqueue packet packets
  rw [List.forall_mem_append] at hqueue
  rw [schedule, List.map_append, ← List.append_assoc] at h
  rw [schedule, henqueue, List.map_append, List.map_cons, ← List.append_assoc]
  refine h.insert ?_ (forall_mem_head?_map ?_)
  · intro a ha
    rw [List.getLast?_append, Option.mem_def, Option.or_eq_some_iff] at ha
    rcases ha with ha | ⟨-, ha⟩
    · obtain ⟨q, hq, rfl⟩ := List.mem_map.mp (List.mem_of_getLast? ha)
      have hearlier := hqueue.1 q hq
      rwa [if_pos (hfront q hq)] at hearlier
    · exact forall_mem_getLast?_map (p := fun a => a.Before (queuedSlot duration packet)) hlast a ha
  · intro q hq
    have hlater := hqueue.2 q (List.mem_of_head? hq)
    rwa [if_neg (Int.not_le.mpr (hback q hq))] at hlater

theorem schedule_transmitted {now : Int} {waits : List Nat}
    (h : Slot.InOrder (schedule duration transmissions packets))
    (hpunctual : Punctual duration now waits packets) :
    Slot.InOrder (schedule duration (transmissions ++ transmitted now waits packets)
      (expiresLoop now waits packets).2) := by
  induction packets generalizing now waits transmissions with
  | nil => rwa [transmitted, List.append_nil]
  | cons packet next ih =>
    rw [transmitted, expiresLoop]
    split
    case isTrue => rwa [List.append_nil]
    case isFalse hdue =>
      obtain ⟨hnext, hrest⟩ := hpunctual (Int.not_lt.mp hdue)
      have hdelay :
          Slot.InOrder (schedule duration (transmissions ++ [(packet.packet, now)]) next) := by
        rw [schedule, List.map_append, List.append_assoc]
        exact Slot.InOrder.delay h (Int.not_lt.mp hdue) (forall_mem_head?_map hnext)
      have hloop := ih hdelay hrest
      rw [List.append_assoc] at hloop
      exact hloop

theorem Scheduled.over {now start : Int} (hw : w.Scheduled duration)
    (hnow : w.ClearNow duration now) (hgiven : now ≤ start)
    (hstart : w.shaper.blockUntil ≤ start) :
    ∀ p ∈ w.transmissions.getLast?, (sentSlot duration p).finish ≤ start := by
  intro p hp
  by_cases hreset : w.shaper.blockUntil = -1
  · exact Int.le_trans (hnow hreset p hp) hgiven
  · exact Int.le_trans (hw.blocked hreset p hp) hstart

theorem Scheduled.send {packet : Packet ω} {now : Int} (hw : w.Scheduled duration)
    (hext : packetIsInternal packet.data = false)
    (hclear : w.Clear duration (.send packet now))
    (h : w.step duration (.send packet now) = some w') : w'.Scheduled duration := by
  obtain ⟨-, rfl⟩ := Option.ite_some_none_eq_some.mp h
  obtain ⟨hnow, hslot⟩ := hclear
  rw [ClearSlot] at hslot
  rw [netshaperSendAux, hw.active, hext, if_neg (by decide)]
  split
  case isTrue hdue =>
    rw [if_pos hdue] at hslot
    refine ⟨rfl, schedule_send hw.inOrder (hw.over hnow (Int.le_refl now) hdue) hslot, ?_⟩
    intro _ p hp
    obtain rfl : (packet, now) = p := by simpa using hp
    exact Int.le_refl _
  case isFalse hdue =>
    rw [if_neg hdue] at hslot
    have hover := hw.over hnow (Int.le_of_lt (Int.not_le.mp hdue)) (Int.le_refl _)
    constructor
    case active => rfl
    case inOrder =>
      dsimp only
      rw [List.map_nil, List.append_nil]
      exact schedule_enqueue hw.inOrder hover hslot
    case blocked =>
      intro _ p hp
      rw [List.map_nil, List.append_nil] at hp
      exact Int.le_trans (hover p hp) (Int.le_add_of_nonneg_right (Int.natCast_nonneg _))

theorem Scheduled.expire {now : Int} {waits : List Nat} (hw : w.Scheduled duration)
    (hclear : w.Clear duration (.expire now waits))
    (h : w.step duration (.expire now waits) = some w') : w'.Scheduled duration := by
  obtain ⟨-, rfl⟩ := Option.ite_some_none_eq_some.mp h
  have hsent := schedule_transmitted hw.inOrder hclear
  constructor
  case active =>
    dsimp only
    rw [netshaperExpires_active]
    exact hw.active
  case inOrder =>
    dsimp only
    rw [netshaperExpires_packets]
    exact hsent
  case blocked =>
    dsimp only
    rw [netshaperExpires]
    dsimp only
    split
    case h_1 => exact fun hreset => absurd rfl hreset
    case h_2 packet next hcons =>
      -- the shaper blocks until the head of the queue expires
      intro _ p hp
      rw [hcons, schedule, List.map_cons] at hsent
      exact (List.pairwise_append.mp hsent).2.2 _ (List.mem_map_of_mem (List.mem_of_getLast? hp)) _
        List.mem_cons_self

theorem Scheduled.step (hw : w.Scheduled duration) (hext : External event)
    (hclear : w.Clear duration event) (h : w.step duration event = some w') :
    w'.Scheduled duration := by
  cases event with
  | send packet now => exact hw.send hext hclear h
  | expire now waits => exact hw.expire hclear h

theorem Init.scheduled (h : w.Init) : w.Scheduled duration := by
  obtain ⟨⟨shaper, rate, hrate, hshaper⟩, htransmissions⟩ := h
  constructor
  case active =>
    rw [hshaper]
    exact decide_eq_true hrate
  case inOrder =>
    rw [hshaper, htransmissions]
    exact .nil
  case blocked =>
    rw [htransmissions]
    nofun

theorem Scheduled.spaced (hw : w.Scheduled duration) : Spaced duration w.transmissions := by
  have hsent : Slot.InOrder (w.transmissions.map (sentSlot duration)) :=
    (List.pairwise_append.mp hw.inOrder).1
  exact (List.pairwise_map.mp hsent).isChain

/-- If the timer fires in time and packets are given while `block_until` is right, the shaper keeps
its rate. -/
theorem transmissions_spaced (duration : Nat → Nat) (w : Line ω)
    (h : Machine.ReachableWhen Init (step duration)
      (fun w event => External event ∧ w.Clear duration event) w) :
    Spaced duration w.transmissions := by
  have hw : w.Scheduled duration := by
    apply Machine.ReachableWhen.invariant _ _ h
    · exact fun _ hinit => hinit.scheduled
    · exact fun _ _ _ hw hok hstep => hw.step hok.1 hok.2 hstep
  exact hw.spaced

end Schedule

section Runs

instance : ∀ event : Traffic ω, Decidable (External event)
  | .send packet _ => inferInstanceAs (Decidable (packetIsInternal packet.data = false))
  | .expire _ _ => .isTrue trivial

instance decidablePunctual (duration : Nat → Nat) : ∀ (now : Int) (waits : List Nat)
    (packets : List (QueuedPacket ω)), Decidable (Punctual duration now waits packets)
  | _, _, [] => .isTrue trivial
  | now, waits, packet :: next =>
    have := decidablePunctual duration (now + waits.headD 0) waits.tail next
    inferInstanceAs (Decidable (packet.expiration ≤ now →
      (∀ q ∈ next.head?, (sentSlot duration (packet.packet, now)).Before (queuedSlot duration q)) ∧
        Punctual duration (now + waits.headD 0) waits.tail next))

instance (duration : Nat → Nat) (w : Line ω) (now : Int) : Decidable (w.ClearNow duration now) :=
  inferInstanceAs (Decidable (w.shaper.blockUntil = -1 → _))

instance (duration : Nat → Nat) (w : Line ω) (now : Int) (length : Nat) :
    Decidable (w.ClearSlot duration now length) :=
  inferInstanceAs (Decidable (
    if now ≥ w.shaper.blockUntil then
      ∀ q ∈ w.shaper.packets.head?, (⟨now, length⟩ : Slot).Before (queuedSlot duration q)
    else
      ∀ q ∈ w.shaper.packets,
        if q.expiration ≤ w.shaper.blockUntil then
          (queuedSlot duration q).Before ⟨w.shaper.blockUntil, length⟩
        else (⟨w.shaper.blockUntil, length⟩ : Slot).Before (queuedSlot duration q)))

instance (duration : Nat → Nat) (w : Line ω) : ∀ event, Decidable (w.Clear duration event)
  | .send packet now => inferInstanceAs (Decidable
    (w.ClearNow duration now ∧ w.ClearSlot duration now (duration packet.data.length)))
  | .expire now waits => decidablePunctual duration now waits w.shaper.packets

/-- A shaper at 8000 bits per second, for which a byte takes one millisecond. -/
def line : Line Nat := ⟨(netshaperSetRate netshaperCreate 8000).1, 0, []⟩

def tenBytes (i : Nat) (now : Int) : Traffic Nat := .send ⟨List.replicate 10 0, i⟩ now

theorem init_line : line.Init := ⟨⟨netshaperCreate, 8000, by norm_num, rfl⟩, rfl⟩

theorem transmissions_spaced_queue : ∃ w : Line Nat,
    w.transmissions.map Prod.snd = [0, 10, 20, 31, 41] ∧ Spaced id w.transmissions := by
  obtain ⟨w, hw, h⟩ := Machine.exists_reachableWhen Init (step id)
    (fun w event => External event ∧ w.Clear id event)
    [tenBytes 0 0, tenBytes 1 1, tenBytes 2 2, .expire 5 [], .expire 10 [], .expire 20 [],
      tenBytes 3 31, tenBytes 4 41]
    (fun w => decide (w.transmissions.map Prod.snd = [0, 10, 20, 31, 41])) init_line
    (by decide +kernel)
  exact ⟨w, of_decide_eq_true h, transmissions_spaced id w hw⟩

instance (duration : Nat → Nat) (transmissions : List (Packet ω × Int)) :
    Decidable (Spaced duration transmissions) :=
  inferInstanceAs (Decidable (List.IsChain _ _))

/-- A packet given after the timer has emptied the queue is sent at once, although the timer was
exact. -/
theorem not_spaced : ∃ w : Line Nat,
    Machine.ReachableWhen Init (step id) (fun _ event => External event) w ∧
      ¬Spaced id w.transmissions := by
  obtain ⟨w, hw, h⟩ := Machine.exists_reachableWhen Init (step id) (fun _ event => External event)
    [tenBytes 0 0, tenBytes 1 1, .expire 10 [], tenBytes 2 11]
    (fun w => decide (¬Spaced id w.transmissions)) init_line (by decide +kernel)
  exact ⟨w, hw, of_decide_eq_true h⟩

end Runs

end Line

end M2M.Shaper
