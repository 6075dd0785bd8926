import M2M.Shaper.NetShaper

/-! The bytes that a shaper sends. `netshaper_create` does not store `do_copy`: the field holds
what `qemu_malloc` has left there. -/

universe u

namespace M2M.Shaper.DoCopy

open M2M.Lib

variable {ω : Type u}

def bytesAt (memory : Nat → UInt8) (pointer size : Nat) : List UInt8 :=
  (List.range size).map fun i => memory (pointer + i)

/-- The `data` of `queued_packet_create`, read when the packet is sent: the copy behind the record,
or what the caller has at its pointer by then. -/
def queuedData (doCopy : Bool) (memory : Nat → UInt8) (packet : Packet (Nat × ω)) : List UInt8 :=
  if doCopy then packet.data else bytesAt memory packet.opaqueArg.1 packet.data.length

/-- A shaper whose packets carry the pointer of the caller beside the opaque, the memory of the
callers, and the bytes that `send_func` has got for each packet sent. -/
structure State (ω : Type u) where
  world : World (Nat × ω)
  doCopy : Bool
  memory : Nat → UInt8
  passed : List (List UInt8)

inductive Act (ω : Type u)
  | send (pointer size : Nat) (opaqueArg : ω) (duration : Nat) (now : Int)
  | setRate (rate : Rat)
  | expire (now : Int) (waits : List Nat)
  /-- A caller writes to its memory. -/
  | write (address : Nat) (value : UInt8)

namespace State

/-- An event of the shaper, with the bytes of the packets that it sends. -/
def after (w : State ω) (event : Event (Nat × ω)) : Option (State ω) :=
  (Shaper.step w.world event).map fun world =>
    let sent := world.sent.drop w.world.sent.length
    { w with world := world, passed := w.passed ++ sent.map (queuedData w.doCopy w.memory) }

def step : Machine.Step (State ω) (Act ω)
  | w, .send pointer size opaqueArg duration now =>
    w.after (.send ⟨bytesAt w.memory pointer size, (pointer, opaqueArg)⟩ duration now)
  | w, .setRate rate => w.after (.setRate rate)
  | w, .expire now waits => w.after (.expire now waits)
  | w, .write address value =>
    some { w with memory := Function.update w.memory address value }

/-- A new shaper, with anything in the field. -/
def Init (w : State ω) : Prop := Shaper.Init w.world ∧ w.passed = []

/-- Each packet is sent, and waits in the queue, with the bytes that it was given with. -/
structure Intact (w : State ω) : Prop where
  passed : w.passed = w.world.sent.map Packet.data
  queued : ∀ q ∈ w.world.shaper.packets,
    queuedData w.doCopy w.memory q.packet = q.packet.data

/-- Every packet given has been sent once or is in the queue once, as it was given. -/
def Delivered (w : State ω) : Prop := Kept w.world ∧ w.Intact

/-- A shaper that does not copy waits with the buffers of its callers: none writes there. -/
def Undisturbed (w : State ω) : Act ω → Prop
  | .write address value =>
    w.doCopy = false → ∀ q ∈ w.world.shaper.packets, q.packet.opaqueArg.1 ≤ address →
      address < q.packet.opaqueArg.1 + q.packet.data.length → value = w.memory address
  | _ => True

variable {w w' : State ω} {event : Event (Nat × ω)} {act : Act ω}

theorem length_bytesAt (memory : Nat → UInt8) (pointer size : Nat) :
    (bytesAt memory pointer size).length = size := by
  rw [bytesAt, List.length_map, List.length_range]

theorem bytesAt_update_iff {memory : Nat → UInt8} {pointer size address : Nat} {value : UInt8} :
    bytesAt (Function.update memory address value) pointer size = bytesAt memory pointer size ↔
      (pointer ≤ address → address < pointer + size → value = memory address) := by
  rw [bytesAt, bytesAt, List.map_inj_left]
  constructor
  · intro h hle hlt
    have hbyte := h (address - pointer) (List.mem_range.mpr (by omega))
    rwa [Nat.add_sub_cancel' hle, Function.update_self] at hbyte
  · intro h i hi
    by_cases haddress : pointer + i = address
    · subst haddress
      rw [Function.update_self]
      exact h (Nat.le_add_right _ _) (Nat.add_lt_add_left (List.mem_range.mp hi) _)
    · exact Function.update_of_ne haddress _ _

theorem Intact.after (hw : w.Intact)
    (hgiven : ∀ packet ∈ event.given, queuedData w.doCopy w.memory packet = packet.data)
    (h : w.after event = some w') : w'.Intact := by
  obtain ⟨world, hworld, rfl⟩ := Option.map_eq_some_iff.mp h
  obtain ⟨sent, hsent, -, hhandled⟩ := (stepped hworld).handled
  have hall : ∀ packet ∈ sent ++ world.shaper.packets.map QueuedPacket.packet,
      queuedData w.doCopy w.memory packet = packet.data := by
    intro packet hpacket
    rcases List.mem_append.mp (hhandled.mem_iff.mp hpacket) with hold | hnew
    · obtain ⟨q, hq, rfl⟩ := List.mem_map.mp hold
      exact hw.queued q hq
    · exact hgiven packet hnew
  rw [List.forall_mem_append] at hall
  constructor
  case passed =>
    dsimp only
    rw [hsent, List.drop_left, hw.passed, List.map_append, List.map_congr_left hall.1]
  case queued => exact fun q hq => hall.2 _ (List.mem_map_of_mem hq)

theorem Intact.write_iff (hw : w.Intact) {address : Nat} {value : UInt8}
    (h : w.step (.write address value) = some w') :
    w'.Intact ↔ w.Undisturbed (.write address value) := by
  obtain rfl := Option.some.inj h
  rcases Bool.eq_false_or_eq_true w.doCopy with hcopy | hcopy
  case inl =>
    refine iff_of_true ⟨hw.passed, fun q _ => if_pos hcopy⟩ fun hno => ?_
    rw [hcopy] at hno
    cases hno
  case inr =>
    have hkept : ∀ q ∈ w.world.shaper.packets,
        (queuedData w.doCopy (Function.update w.memory address value) q.packet = q.packet.data ↔
          (q.packet.opaqueArg.1 ≤ address →
            address < q.packet.opaqueArg.1 + q.packet.data.length → value = w.memory address)) := by
      intro q hq
      have hbefore := hw.queued q hq
      rw [queuedData, hcopy, if_neg Bool.false_ne_true] at hbefore ⊢
      rw [← bytesAt_update_iff, hbefore]
    constructor
    · exact fun h' _ q hq => (hkept q hq).mp (h'.queued q hq)
    · exact fun hok => ⟨hw.passed, fun q hq => (hkept q hq).mpr (hok hcopy q hq)⟩

theorem kept_step (hw : Kept w.world) (h : w.step act = some w') : Kept w'.world := by
  have hafter : ∀ event, w.after event = some w' → Kept w'.world := by
    intro event h
    obtain ⟨world, hworld, rfl⟩ := Option.map_eq_some_iff.mp h
    exact hw.step hworld
  cases act with
  | send => exact hafter _ h
  | setRate => exact hafter _ h
  | expire => exact hafter _ h
  | write =>
    obtain rfl := Option.some.inj h
    exact hw

theorem Intact.step_iff (hw : w.Intact) (h : w.step act = some w') :
    w'.Intact ↔ w.Undisturbed act := by
  cases act with
  | send pointer size opaqueArg duration now =>
    refine iff_of_true (hw.after (fun packet hpacket => ?_) h) trivial
    obtain rfl := List.mem_singleton.mp hpacket
    rw [queuedData, length_bytesAt]
    exact ite_self _
  | setRate => exact iff_of_true (hw.after (List.forall_mem_nil _) h) trivial
  | expire => exact iff_of_true (hw.after (List.forall_mem_nil _) h) trivial
  | write => exact hw.write_iff h

/-- The shaper loses nothing and sends nothing twice, and what it sends is what it was given exactly
while it copies or no caller touches the buffer of a queued packet. -/
theorem always_delivered_iff (hw : w.Init) (acts : List (Act ω)) :
    Machine.Always step Delivered w acts ↔
      Machine.Throughout step (fun w act _ => w.Undisturbed act) w acts := by
  refine Machine.always_iff_throughout (fun w => Kept w.world) (fun _ _ _ => kept_step)
    (fun w act w' hkept hdelivered hstep => ?_) (Init.kept hw.1) ⟨Init.kept hw.1, ?_⟩ acts
  · rw [Delivered, hdelivered.2.step_iff hstep]
    exact and_iff_right (kept_step hkept hstep)
  · obtain ⟨⟨hshaper, -, hsent⟩, hpassed⟩ := hw
    refine ⟨?_, ?_⟩
    · rw [hpassed, hsent]
      rfl
    · rw [hshaper]
      nofun

/-- A shaper in memory that held zeros. -/
def blank : State Nat := ⟨⟨netshaperCreate, 0, [], []⟩, false, fun _ => 0, []⟩

theorem init_blank : blank.Init := ⟨⟨rfl, rfl, rfl⟩, rfl⟩

/-- Two packets of ten bytes, of which the second is queued. -/
def two : List (Act Nat) := [.setRate 8000, .send 0 10 0 10 0, .send 16 10 1 10 1]

theorem always_delivered_reuse :
    Machine.Always step Delivered blank (two ++ [Act.write 0 1, Act.expire 10 []]) := by
  refine (always_delivered_iff init_blank _).mpr ?_
  refine .cons rfl trivial (.cons rfl trivial (.cons rfl trivial (.cons rfl ?_
    (.cons rfl trivial (.nil _)))))
  intro _ q hq
  obtain rfl := List.mem_singleton.mp hq
  exact fun hle => absurd hle (by decide)

/-- The caller of the second packet reuses its buffer before the timer fires. -/
theorem not_always_delivered :
    ¬Machine.Always step Delivered blank (two ++ [Act.write 16 1, Act.expire 10 []]) := by
  intro h
  have hdelivered := h _ _ (List.prefix_refl _) rfl
  exact absurd hdelivered.2.passed (by decide)

end State

end M2M.Shaper.DoCopy
