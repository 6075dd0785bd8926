import M2M.Lib.Machine
import Mathlib

universe u

namespace M2M.Shaper

open M2M.Lib

/-- What a caller gives to the shaper. -/
structure Packet (ω : Type u) where
  data : List UInt8
  opaqueArg : ω
  deriving DecidableEq

def packetIsInternal (data : List UInt8) : Bool :=
  if data.length < 40 then false
  else if data.getD 12 0 ≠ 0x08 ∨ data.getD 13 0 ≠ 0x00 then false
  -- the rest counts from the IP header
  else if data.getD 14 0 >>> 4 ≠ 4 ∨ data.getD 14 0 &&& 15 < 5 then false
  else data.getD (14 + 12) 0 = 10 ∧ data.getD (14 + 16) 0 = 10

structure QueuedPacket (ω : Type u) where
  expiration : Int
  packet : Packet ω

/-- A shaper with the expiration of its timer, if the timer is armed. -/
structure NetShaper (ω : Type u) where
  packets : List (QueuedPacket ω)
  numPackets : Int
  active : Bool
  blockUntil : Int
  timer : Option Int

variable {ω : Type u}

def netshaperCreate : NetShaper ω := ⟨[], 0, false, -1, none⟩

/-- The loop of `netshaper_expires`: what is sent and what stays in the queue. Between two
readings of the clock passes what `waits` says. -/
def expiresLoop : Int → List Nat → List (QueuedPacket ω) → List (Packet ω) × List (QueuedPacket ω)
  | _, _, [] => ([], [])
  | now, waits, packet :: next =>
    if packet.expiration > now then ([], packet :: next)
    else
      let rest := expiresLoop (now + waits.headD 0) waits.tail next
      (packet.packet :: rest.1, rest.2)

/-- The shaper after `netshaper_expires`, and the packets sent. -/
def netshaperExpires (shaper : NetShaper ω) (now : Int) (waits : List Nat) :
    NetShaper ω × List (Packet ω) :=
  let loop := expiresLoop now waits shaper.packets
  let shaper := { shaper with
    packets := loop.2, numPackets := shaper.numPackets - loop.1.length }
  (match loop.2 with
  | [] => { shaper with blockUntil := -1 }
  | packet :: _ => { shaper with blockUntil := packet.expiration, timer := some packet.expiration },
  loop.1)

def netshaperSetRate (shaper : NetShaper ω) (rate : Rat) : NetShaper ω × List (Packet ω) :=
  ({ shaper with
    packets := []
    numPackets := if shaper.packets.isEmpty then shaper.numPackets else 0
    active := decide (1 < rate)
    blockUntil := -1 },
  shaper.packets.map QueuedPacket.packet)

def enqueue (packet : QueuedPacket ω) (packets : List (QueuedPacket ω)) : List (QueuedPacket ω) :=
  packets.orderedInsert (fun packet node => node.expiration > packet.expiration) packet

/-- `duration` is the time `size*inv_rate` that the packet takes. -/
def netshaperSendAux (shaper : NetShaper ω) (packet : Packet ω) (duration : Nat) (now : Int) :
    NetShaper ω × List (Packet ω) :=
  if !shaper.active || packetIsInternal packet.data then (shaper, [packet])
  else if now ≥ shaper.blockUntil then
    ({ shaper with blockUntil := now + duration }, [packet])
  else
    let queued : QueuedPacket ω := ⟨shaper.blockUntil, packet⟩
    -- the new node comes first if the list was empty or its head expires later
    let first := shaper.packets.head?.all (fun node => node.expiration > queued.expiration)
    ({ shaper with
      packets := enqueue queued shaper.packets
      timer := if first then some queued.expiration else shaper.timer
      numPackets := shaper.numPackets + 1
      blockUntil := shaper.blockUntil + duration }, [])

/-- A shaper at a time, with the packets given to it and those it has sent. -/
structure World (ω : Type u) where
  shaper : NetShaper ω
  clock : Int
  given : List (Packet ω)
  sent : List (Packet ω)

inductive Event (ω : Type u)
  | send (packet : Packet ω) (duration : Nat) (now : Int)
  | setRate (rate : Rat)
  /-- The timer fires, at its time or late. -/
  | expire (now : Int) (waits : List Nat)

def step : Machine.Step (World ω) (Event ω)
  | w, .send packet duration now =>
    let result := netshaperSendAux w.shaper packet duration now
    if w.clock ≤ now then
      some ⟨result.1, now, w.given ++ [packet], w.sent ++ result.2⟩
    else none
  | w, .setRate rate =>
    let result := netshaperSetRate w.shaper rate
    some { w with shaper := result.1, sent := w.sent ++ result.2 }
  | w, .expire now waits =>
    -- the timer is disarmed before its callback runs
    let result := netshaperExpires { w.shaper with timer := none } now waits
    if w.clock ≤ now ∧ ∃ armed ∈ w.shaper.timer, armed ≤ now then
      some ⟨result.1, now + waits.sum, w.given, w.sent ++ result.2⟩
    else none

/-- A new shaper, at any time. -/
def Init (w : World ω) : Prop :=
  w.shaper = netshaperCreate ∧ w.given = [] ∧ w.sent = []

section Queue

variable {packet : QueuedPacket ω} {packets : List (QueuedPacket ω)}

def Sorted (packets : List (QueuedPacket ω)) : Prop :=
  packets.Pairwise (fun p q => p.expiration ≤ q.expiration)

theorem enqueue_perm : (enqueue packet packets).Perm (packet :: packets) :=
  List.perm_orderedInsert _ packet packets

theorem enqueue_sorted (h : Sorted packets) : Sorted (enqueue packet packets) := by
  induction packets with
  | nil => exact List.pairwise_singleton _ packet
  | cons node next ih =>
    obtain ⟨hnode, hnext⟩ := List.pairwise_cons.mp h
    unfold enqueue
    rw [List.orderedInsert_cons]
    split
    case isTrue hlater =>
      apply List.pairwise_cons.mpr ⟨_, h⟩
      intro q hq
      cases hq with
      | head => exact Int.le_of_lt hlater
      | tail _ hq => exact Int.le_trans (Int.le_of_lt hlater) (hnode q hq)
    case isFalse hlater =>
      apply List.pairwise_cons.mpr ⟨_, ih hnext⟩
      intro q hq
      cases List.mem_cons.mp (enqueue_perm.mem_iff.mp hq) with
      | inl h => exact h ▸ Int.not_lt.mp hlater
      | inr hq => exact hnode q hq

theorem enqueue_eq_append (h : ∀ q ∈ packets, q.expiration ≤ packet.expiration) :
    enqueue packet packets = packets ++ [packet] := by
  induction packets with
  | nil => rfl
  | cons node next ih =>
    obtain ⟨hnode, hnext⟩ := List.forall_mem_cons.mp h
    unfold enqueue
    rw [List.orderedInsert_cons, if_neg (Int.not_lt.mpr hnode)]
    exact congrArg (node :: ·) (ih hnext)

theorem head?_enqueue : (enqueue packet packets).head? =
    if packets.head?.all (fun node => node.expiration > packet.expiration) then some packet
    else packets.head? := by
  cases packets with
  | nil => rfl
  | cons node next =>
    unfold enqueue
    rw [List.orderedInsert_cons]
    by_cases h : node.expiration > packet.expiration
    · simp [h]
    · simp [h]

theorem expiresLoop_append (now : Int) (waits : List Nat) (packets : List (QueuedPacket ω)) :
    ∃ front, (expiresLoop now waits packets).1 = front.map QueuedPacket.packet ∧
      front ++ (expiresLoop now waits packets).2 = packets := by
  induction packets generalizing now waits with
  | nil => exact ⟨[], rfl, rfl⟩
  | cons packet next ih =>
    unfold expiresLoop
    split
    case isTrue => exact ⟨[], rfl, rfl⟩
    case isFalse =>
      obtain ⟨front, hsent, hrest⟩ := ih (now + waits.headD 0) waits.tail
      exact ⟨packet :: front, congrArg (packet.packet :: ·) hsent, congrArg (packet :: ·) hrest⟩

end Queue

section Books

/-- The queue is in order and counted, and its first packet has a timer. -/
structure Tidy (shaper : NetShaper ω) : Prop where
  sorted : Sorted shaper.packets
  counted : shaper.numPackets = shaper.packets.length
  armed : ∀ packet ∈ shaper.packets.head?, ∃ armed ∈ shaper.timer, armed ≤ packet.expiration

def handled (result : NetShaper ω × List (Packet ω)) : List (Packet ω) :=
  result.2 ++ result.1.packets.map QueuedPacket.packet

variable {shaper : NetShaper ω}

theorem netshaperCreate_tidy : Tidy (netshaperCreate (ω := ω)) := ⟨.nil, rfl, nofun⟩

theorem netshaperSetRate_tidy (h : Tidy shaper) (rate : Rat) :
    Tidy (netshaperSetRate shaper rate).1 := by
  refine ⟨.nil, ?_, nofun⟩
  unfold netshaperSetRate
  split
  case isTrue hempty =>
    rw [h.counted, List.isEmpty_iff.mp hempty]
  case isFalse => rfl

theorem netshaperSetRate_handled (rate : Rat) :
    handled (netshaperSetRate shaper rate) = shaper.packets.map QueuedPacket.packet :=
  List.append_nil _

theorem netshaperExpires_packets (now : Int) (waits : List Nat) :
    (netshaperExpires shaper now waits).1.packets = (expiresLoop now waits shaper.packets).2 := by
  unfold netshaperExpires
  dsimp only
  split <;> rfl

theorem netshaperExpires_active (now : Int) (waits : List Nat) :
    (netshaperExpires shaper now waits).1.active = shaper.active := by
  unfold netshaperExpires
  dsimp only
  split <;> rfl

theorem netshaperExpires_handled (now : Int) (waits : List Nat) :
    handled (netshaperExpires shaper now waits) = shaper.packets.map QueuedPacket.packet := by
  obtain ⟨front, hsent, happend⟩ := expiresLoop_append now waits shaper.packets
  calc
    (expiresLoop now waits shaper.packets).1 ++
        (netshaperExpires shaper now waits).1.packets.map QueuedPacket.packet =
      front.map QueuedPacket.packet ++
        (expiresLoop now waits shaper.packets).2.map QueuedPacket.packet := by
        rw [hsent, netshaperExpires_packets]
    _ = shaper.packets.map QueuedPacket.packet := by rw [← List.map_append, happend]

/-- The handler arms the timer again, whatever its state was. -/
theorem netshaperExpires_tidy (hsorted : Sorted shaper.packets)
    (hcounted : shaper.numPackets = shaper.packets.length) (now : Int) (waits : List Nat) :
    Tidy (netshaperExpires shaper now waits).1 := by
  obtain ⟨front, hsent, happend⟩ := expiresLoop_append now waits shaper.packets
  have hrest : Sorted (expiresLoop now waits shaper.packets).2 := by
    unfold Sorted at hsorted
    rw [← happend] at hsorted
    exact (List.pairwise_append.mp hsorted).2.1
  have hlength : shaper.numPackets - (expiresLoop now waits shaper.packets).1.length =
      (expiresLoop now waits shaper.packets).2.length := by
    rw [hcounted, hsent, List.length_map]
    conv_lhs => rw [← happend, List.length_append]
    omega
  unfold netshaperExpires
  dsimp only
  split
  case h_1 hnil => exact ⟨hrest, hlength, by simp [hnil]⟩
  case h_2 packet next hcons =>
    refine ⟨hrest, hlength, ?_⟩
    intro first hfirst
    rw [hcons] at hfirst
    cases hfirst
    exact ⟨packet.expiration, rfl, Int.le_refl _⟩

theorem netshaperSendAux_tidy (h : Tidy shaper) (packet : Packet ω) (duration : Nat) (now : Int) :
    Tidy (netshaperSendAux shaper packet duration now).1 := by
  unfold netshaperSendAux
  split
  case isTrue => exact h
  case isFalse =>
    split
    case isTrue => exact ⟨h.sorted, h.counted, h.armed⟩
    case isFalse =>
      refine ⟨enqueue_sorted h.sorted, ?_, ?_⟩
      · dsimp only
        rw [h.counted, enqueue_perm.length_eq]
        rfl
      · intro first hfirst
        dsimp only at hfirst ⊢
        rw [head?_enqueue] at hfirst
        split at hfirst
        case isTrue hhead =>
          cases hfirst
          exact ⟨_, if_pos hhead, Int.le_refl _⟩
        case isFalse hhead =>
          rw [if_neg hhead]
          exact h.armed first hfirst

theorem netshaperSendAux_handled (packet : Packet ω) (duration : Nat) (now : Int) :
    (handled (netshaperSendAux shaper packet duration now)).Perm
      (shaper.packets.map QueuedPacket.packet ++ [packet]) := by
  unfold netshaperSendAux
  split
  case isTrue => exact List.perm_append_comm
  case isFalse =>
    split
    case isTrue => exact List.perm_append_comm
    case isFalse =>
      exact (enqueue_perm.map QueuedPacket.packet).trans (List.perm_append_singleton _ _).symm

end Books

section Runs

/-- Every packet given has been sent or is in the queue, and the queue is tidy. -/
structure Kept (w : World ω) : Prop where
  accounted : (w.sent ++ w.shaper.packets.map QueuedPacket.packet).Perm w.given
  tidy : Tidy w.shaper

variable {w w' : World ω} {event : Event ω}

/-- What a step may do to the world. -/
inductive Stepped (w : World ω) : Event ω → World ω → Prop
  | send {packet duration now} : w.clock ≤ now →
      Stepped w (.send packet duration now)
        ⟨(netshaperSendAux w.shaper packet duration now).1, now, w.given ++ [packet],
          w.sent ++ (netshaperSendAux w.shaper packet duration now).2⟩
  | setRate {rate} :
      Stepped w (.setRate rate) { w with
        shaper := (netshaperSetRate w.shaper rate).1
        sent := w.sent ++ (netshaperSetRate w.shaper rate).2 }
  | expire {now waits armed} : w.clock ≤ now → w.shaper.timer = some armed → armed ≤ now →
      Stepped w (.expire now waits)
        ⟨(netshaperExpires { w.shaper with timer := none } now waits).1, now + waits.sum, w.given,
          w.sent ++ (netshaperExpires { w.shaper with timer := none } now waits).2⟩

theorem stepped (h : step w event = some w') : Stepped w event w' := by
  cases event with
  | send packet duration now =>
    obtain ⟨hclock, rfl⟩ := Option.ite_some_none_eq_some.mp h
    exact .send hclock
  | setRate rate =>
    cases h
    exact .setRate
  | expire now waits =>
    obtain ⟨⟨hclock, armed, harmed, hle⟩, rfl⟩ := Option.ite_some_none_eq_some.mp h
    exact .expire hclock harmed hle

/-- What an event gives to the shaper. -/
def Event.given : Event ω → List (Packet ω)
  | .send packet _ _ => [packet]
  | .setRate _ | .expire _ _ => []

theorem Stepped.handled (h : Stepped w event w') : ∃ sent, w'.sent = w.sent ++ sent ∧
    w'.given = w.given ++ event.given ∧
    (sent ++ w'.shaper.packets.map QueuedPacket.packet).Perm
      (w.shaper.packets.map QueuedPacket.packet ++ event.given) := by
  cases h with
  | send hclock => exact ⟨_, rfl, rfl, netshaperSendAux_handled _ _ _⟩
  | setRate =>
    refine ⟨_, rfl, (List.append_nil _).symm, ?_⟩
    rw [Event.given, List.append_nil]
    exact .of_eq (netshaperSetRate_handled _)
  | expire =>
    refine ⟨_, rfl, (List.append_nil _).symm, ?_⟩
    rw [Event.given, List.append_nil]
    exact .of_eq (netshaperExpires_handled _ _)

theorem Kept.step (hw : Kept w) (h : step w event = some w') : Kept w' := by
  have hstepped := stepped h
  constructor
  case accounted =>
    obtain ⟨sent, hsent, hgiven, hhandled⟩ := hstepped.handled
    rw [hsent, hgiven, List.append_assoc]
    refine (hhandled.append_left w.sent).trans ?_
    rw [← List.append_assoc]
    exact hw.accounted.append_right _
  case tidy =>
    cases hstepped with
    | send hclock => exact netshaperSendAux_tidy hw.tidy _ _ _
    | setRate => exact netshaperSetRate_tidy hw.tidy _
    | expire =>
      apply netshaperExpires_tidy
      · exact hw.tidy.sorted
      · exact hw.tidy.counted

theorem Init.kept (h : Init w) : Kept w := by
  obtain ⟨hshaper, hgiven, hsent⟩ := h
  refine ⟨?_, hshaper ▸ netshaperCreate_tidy⟩
  rw [hshaper, hgiven, hsent]
  exact .nil

/-- The event that gives the packet `i` of ten bytes, which takes 10 ms at 8000 bits per second. -/
def give (i : Nat) (now : Int) : Event Nat := .send ⟨List.replicate 10 0, i⟩ 10 now

def world : World Nat := ⟨netshaperCreate, 0, [], []⟩

end Runs

section Order

/-- The packets of a run that are not internal. -/
def External : Event ω → Prop
  | .send packet _ _ => packetIsInternal packet.data = false
  | _ => True

/-- A packet is given when none is queued, or within the time for which the shaper blocks and
not before a queued packet expires. -/
def InTurn (w : World ω) : Event ω → Prop
  | .send _ _ now =>
    (now ≥ w.shaper.blockUntil → w.shaper.packets = []) ∧
      (now < w.shaper.blockUntil → ∀ q ∈ w.shaper.packets, q.expiration ≤ w.shaper.blockUntil)
  | _ => True

/-- The shaper is a queue, empty unless it is active. -/
structure Ordered (w : World ω) : Prop where
  accounted : w.sent ++ w.shaper.packets.map QueuedPacket.packet = w.given
  idle : w.shaper.active = false → w.shaper.packets = []

variable {w w' : World ω} {event : Event ω}

theorem netshaperSendAux_inTurn {shaper : NetShaper ω} {packet : Packet ω} {duration : Nat}
    {now : Int} (hext : packetIsInternal packet.data = false)
    (hidle : shaper.active = false → shaper.packets = [])
    (hdue : now ≥ shaper.blockUntil → shaper.packets = [])
    (hlast : now < shaper.blockUntil → ∀ q ∈ shaper.packets, q.expiration ≤ shaper.blockUntil) :
    handled (netshaperSendAux shaper packet duration now) =
      shaper.packets.map QueuedPacket.packet ++ [packet] := by
  unfold netshaperSendAux
  rw [hext, Bool.or_false]
  split
  case isTrue hactive =>
    have hnil := hidle (Bool.not_eq_true' _ ▸ hactive)
    unfold handled
    rw [hnil]
    rfl
  case isFalse =>
    split
    case isTrue hnow =>
      have hnil := hdue hnow
      unfold handled
      rw [hnil]
      rfl
    case isFalse hnow =>
      unfold handled
      dsimp only
      rw [enqueue_eq_append (hlast (Int.not_le.mp hnow)), List.map_append]
      rfl

theorem netshaperSendAux_active (shaper : NetShaper ω) (packet : Packet ω) (duration : Nat)
    (now : Int) (hidle : shaper.active = false → shaper.packets = []) :
    (netshaperSendAux shaper packet duration now).1.active = false →
      (netshaperSendAux shaper packet duration now).1.packets = [] := by
  unfold netshaperSendAux
  split
  case isTrue => exact hidle
  case isFalse hactive =>
    intro h
    exfalso
    apply hactive
    split at h <;> simp_all

theorem Ordered.step (hw : Ordered w) (hext : External event) (hturn : InTurn w event)
    (h : step w event = some w') : Ordered w' := by
  cases stepped h with
  | send hclock =>
    refine ⟨?_, netshaperSendAux_active _ _ _ _ hw.idle⟩
    dsimp only
    rw [List.append_assoc]
    refine (congrArg (w.sent ++ ·)
      (netshaperSendAux_inTurn hext hw.idle hturn.1 hturn.2)).trans ?_
    rw [← List.append_assoc, hw.accounted]
  | setRate =>
    refine ⟨?_, fun _ => rfl⟩
    dsimp only
    rw [List.append_assoc]
    exact (congrArg (w.sent ++ ·) (netshaperSetRate_handled _)).trans hw.accounted
  | expire =>
    constructor
    case accounted =>
      dsimp only
      rw [List.append_assoc]
      exact (congrArg (w.sent ++ ·) (netshaperExpires_handled _ _)).trans hw.accounted
    case idle =>
      intro hactive
      dsimp only at hactive ⊢
      rw [netshaperExpires_active] at hactive
      rw [netshaperExpires_packets, hw.idle hactive]
      rfl

/-- If every packet is given in turn, the packets are sent in their order. -/
theorem sent_prefix_given
    (h : Machine.ReachableWhen Init step (fun w event => External event ∧ InTurn w event) w) :
    w.sent <+: w.given := by
  have hw : Ordered w := by
    apply Machine.ReachableWhen.invariant _ _ h
    · rintro w ⟨hshaper, hgiven, hsent⟩
      refine ⟨?_, fun _ => ?_⟩
      · rw [hshaper, hgiven, hsent]
        rfl
      · rw [hshaper]
        rfl
    · exact fun _ _ _ hw hok hstep => hw.step hok.1 hok.2 hstep
  exact ⟨_, hw.accounted⟩

instance : ∀ event : Event ω, Decidable (External event)
  | .send packet _ _ => inferInstanceAs (Decidable (packetIsInternal packet.data = false))
  | .setRate _ => .isTrue trivial
  | .expire _ _ => .isTrue trivial

instance : ∀ (w : World ω) (event : Event ω), Decidable (InTurn w event)
  | w, .send _ _ now => inferInstanceAs (Decidable
      ((now ≥ w.shaper.blockUntil → w.shaper.packets = []) ∧
        (now < w.shaper.blockUntil → ∀ q ∈ w.shaper.packets, q.expiration ≤ w.shaper.blockUntil)))
  | _, .setRate _ => .isTrue trivial
  | _, .expire _ _ => .isTrue trivial

theorem sent_prefix_given_queued :
    ∃ w : World Nat, w.shaper.packets.length = 1 ∧ w.sent.length = 2 ∧ w.sent <+: w.given := by
  obtain ⟨w, hw, h⟩ := Machine.exists_reachableWhen Init step
    (fun w event => External event ∧ InTurn w event)
    [.setRate 8000, give 0 0, give 1 1, give 2 2, .expire 11 [1]]
    (fun w => decide (w.shaper.packets.length = 1 ∧ w.sent.length = 2))
    (s := world) ⟨rfl, rfl, rfl⟩ (by decide +kernel)
  obtain ⟨hqueue, hsent⟩ := of_decide_eq_true h
  exact ⟨w, hqueue, hsent, sent_prefix_given hw⟩

/-- A packet given after the timer fired overtakes one that was queued before, although the
timer is never late. -/
theorem overtaken : ∃ w : World Nat,
    Machine.ReachableWhen Init step (fun _ event => External event) w ∧ ¬w.sent <+: w.given := by
  obtain ⟨w, hw, h⟩ := Machine.exists_reachableWhen Init step (fun _ event => External event)
    [.setRate 8000, give 0 0, give 1 1, give 2 2, give 3 3, .expire 10 [], give 4 11,
      .expire 20 [], .expire 30 []]
    (fun w => decide (¬w.sent <+: w.given)) (s := world) ⟨rfl, rfl, rfl⟩ (by decide +kernel)
  exact ⟨w, hw, of_decide_eq_true h⟩

end Order

end M2M.Shaper
