import M2M.Lib.Machine
import M2M.Network.Arrival

/-! The virtual clock of a device (ZED or ZC) over a sequence of `m2m_send` and
`m2m_recv` calls.  The CPU thread is inside the call while it lasts, so the pipeline,
I/O and memory parts of the time only grow between calls. -/

namespace M2M.Network.DeviceClock

open M2M.Lib Route

structure Config where
  abi : Abi
  nodeType : UInt32 → DeviceType
  totalDeviceNum : Nat

/-- `spans` holds the time before and after each call, `subs` the two operands of each
64-bit unsigned difference that is added to the time. -/
structure Device where
  id : UInt32
  cpu : UInt64
  netsendQemu : UInt64
  netrecvQemu : UInt64
  totalTransTimes : UInt64
  localtime : UInt64
  spans : List (UInt64 × UInt64)
  subs : List (UInt64 × UInt64)

namespace Device

/-- `vpmu_estimated_execution_time_ns`, which `time_sync` returns on a ZED or ZC. -/
def time (d : Device) : UInt64 := d.cpu + (d.netsendQemu + d.netrecvQemu)

def chargeSend (d : Device) (x : UInt64) : Device :=
  let d := { d with
    totalTransTimes := d.totalTransTimes + x
    netsendQemu := d.netsendQemu + x }
  { d with localtime := d.time }

def chargeRecv (d : Device) (x : UInt64) : Device :=
  { d with
    totalTransTimes := d.totalTransTimes + x
    netrecvQemu := d.netrecvQemu + x }

def subtract (d : Device) (x y : UInt64) : Device := { d with subs := d.subs ++ [(x, y)] }

def span (d : Device) (start : UInt64) : Device :=
  { d with spans := d.spans ++ [(start, d.time)] }

end Device

/-- The header that `m2m_post_remote_msg` fills in. -/
def posted (d : Device) (size receiver : UInt32) (latency : UInt64) : HQe where
  tag := 0
  packetSize := size
  senderID := d.id
  receiverID := receiver
  forwardID := d.id
  entryNum := -1
  sendTime := d.time
  transTime := latency

/-- The SMALL branch of `m2m_post_remote_msg`.  It does not return when the size is
negative (`memcpy` takes it as a huge one) or when no acknowledgement ever comes. -/
def m2mPostRemoteMsg (net : Config) (d : Device) (size : Int) (receiver : UInt32)
    (latency failLatency : UInt64) (route : Route) : Option Device :=
  if latency = 0 then some (d.chargeSend failLatency)
  else if size < 0 then none
  else
    let h := posted d (.ofNat size.toNat) receiver latency
    let d := d.chargeSend latency
    match (route.carry net.abi net.nodeType h).acks with
    | [] => none
    | a :: _ =>
      some ((d.chargeSend (a.transtime - d.localtime)).subtract a.transtime d.localtime)

/-- `m2m_send`: a refused receiver and the LARGE scheme change no clock. -/
def m2mSend (net : Config) (d : Device) (sizeb receiverID : Int) (latency failLatency : UInt64)
    (route : Route) : Option Device :=
  if receiverID = d.id.toNat ∨ receiverID > net.totalDeviceNum ∨ receiverID < 0 then some d
  else if sizeb ≤ headerQueueEntrySize then
    m2mPostRemoteMsg net d sizeb (.ofNat receiverID.toNat) latency failLatency route
  else some d

/-- `m2m_get_local_msg` on the poll that finds the packet, `tmp_time` being the time at
which the device started to wait. -/
def m2mGetLocalMsg (d : Device) (packet : HQe) : Device :=
  let tmpTime := d.time
  let d := { d with localtime := tmpTime }
  let d := if d.localtime < packet.arrival then
      (d.chargeRecv (packet.arrival - d.localtime)).subtract packet.arrival d.localtime
    else d
  { d with localtime := d.time }

inductive Call
  | cpu (x : UInt64)
  | send (sizeb receiverID : Int) (latency failLatency : UInt64) (route : Route)
  | recv (packet : HQe)

def step (net : Config) (d : Device) : Call → Option Device
  | .cpu x => some { d with cpu := d.cpu + x }
  | .send sizeb receiverID latency failLatency route =>
    (m2mSend net d sizeb receiverID latency failLatency route).map (fun e => e.span d.time)
  | .recv packet => some ((m2mGetLocalMsg d packet).span d.time)

def Init (d : Device) : Prop := d.spans = [] ∧ d.subs = []

/-- The clock has never run backwards over a call and no difference has underflowed. -/
def Forward (d : Device) : Prop :=
  (∀ p ∈ d.spans, p.1 ≤ p.2) ∧ (∀ p ∈ d.subs, p.2 ≤ p.1)

/-- Where a single router other than the sender's own hands the packet to an end device,
its clock or its latency makes up for the latency of the hop before it, which it drops:
`goal` is the send time plus that latency. -/
def KeepsAhead (sender : UInt32) (goal : Nat) : Route → Nat → Prop
  | .self _, _ => True
  | .last r, sent => r.id = sender ∨ goal ≤ max r.localtime.toNat sent + r.latency.toNat
  | .via r rest, sent =>
    r.id = sender → KeepsAhead sender goal rest (max r.localtime.toNat sent)

/-- The condition on one call: no 64-bit overflow, no failure at a router, and the
route keeps ahead of the sender's clock. -/
def Safe (net : Config) (d : Device) : Call → Prop
  | .cpu _ => True
  | .recv _ => True
  | .send sizeb receiverID latency failLatency route =>
    sizeb ≤ headerQueueEntrySize →
    (latency = 0 → d.time.toNat + failLatency.toNat < 2 ^ 64) ∧
    (latency ≠ 0 →
      route.Valid net.nodeType (.ofNat receiverID.toNat) ∧
      (∀ r ∈ route.hops, r.latency ≠ 0) ∧
      route.idealArrival d.id d.time.toNat latency.toNat < 2 ^ 64 ∧
      KeepsAhead d.id (d.time.toNat + latency.toNat) route d.time.toNat)

theorem idealReported_ge_sent (sender : UInt32) (route : Route) (sent lat : Nat) :
    sent ≤ route.idealReported sender sent lat := by
  induction route generalizing sent lat with
  | self r =>
    simp only [idealReported]
    omega
  | last r =>
    simp only [idealReported]
    split <;> omega
  | via r rest ih =>
    simp only [idealReported]
    split
    · have := ih (max r.localtime.toNat sent) lat
      omega
    · have := ih (max r.localtime.toNat sent + lat) r.latency.toNat
      omega

theorem le_idealReported_iff (sender : UInt32) (route : Route) (goal sent lat : Nat)
    (h : goal ≤ sent + lat) :
    goal ≤ route.idealReported sender sent lat ↔ KeepsAhead sender goal route sent := by
  induction route generalizing sent with
  | self r =>
    simp only [idealReported, KeepsAhead, iff_true]
    omega
  | last r =>
    simp only [idealReported, KeepsAhead]
    by_cases hr : r.id = sender
    · simp only [hr, if_true, true_or, iff_true]
      omega
    · simp only [hr, if_false, false_or]
  | via r rest ih =>
    simp only [idealReported, KeepsAhead]
    by_cases hr : r.id = sender
    · simp only [hr, if_true, forall_const]
      exact ih _ (by omega)
    · simp only [hr, if_false, false_implies, iff_true]
      have := idealReported_ge_sent sender rest (max r.localtime.toNat sent + lat) r.latency.toNat
      omega

namespace Device

theorem time_chargeSend (d : Device) (x : UInt64) : (d.chargeSend x).time = d.time + x := by
  simp only [chargeSend, time, UInt64.add_assoc]
  rw [UInt64.add_comm x d.netrecvQemu]

theorem time_chargeRecv (d : Device) (x : UInt64) : (d.chargeRecv x).time = d.time + x := by
  simp only [chargeRecv, time, UInt64.add_assoc]

@[simp] theorem localtime_chargeSend (d : Device) (x : UInt64) :
    (d.chargeSend x).localtime = (d.chargeSend x).time := rfl

@[simp] theorem time_subtract (d : Device) (x y : UInt64) : (d.subtract x y).time = d.time := rfl

@[simp] theorem time_setLocaltime (d : Device) (x : UInt64) :
    Device.time { d with localtime := x } = d.time := rfl

end Device

theorem add_sub_self (x y : UInt64) : x + (y - x) = y := by
  rw [UInt64.add_comm, UInt64.sub_add_cancel]

theorem le_add_of_fits {x y : UInt64} (h : x.toNat + y.toNat < 2 ^ 64) : x ≤ x + y := by
  rw [UInt64.le_iff_toNat_le, UInt64.toNat_add, Nat.mod_eq_of_lt h]
  omega

/-- A posted packet whose route keeps ahead brings the sender to the reported time, which
is no earlier than its clock at the subtraction. -/
theorem post_reported (net : Config) (d : Device) (size : UInt32) {receiver : UInt32}
    {latency : UInt64}
    {route : Route} (ht : latency ≠ 0) (hv : route.Valid net.nodeType receiver)
    (hl : ∀ r ∈ route.hops, r.latency ≠ 0)
    (hfit : route.idealArrival d.id d.time.toNat latency.toNat < 2 ^ 64)
    (hk : KeepsAhead d.id (d.time.toNat + latency.toNat) route d.time.toNat) :
    ∃ a, (route.carry net.abi net.nodeType (posted d size receiver latency)).acks = [a] ∧
      d.time ≤ d.time + latency ∧ d.time + latency ≤ a.transtime := by
  let h := posted d size receiver latency
  obtain ⟨-, a, ha, -⟩ := @carry_ack net.abi net.nodeType route h hv ht hl
  have hrep := (@carry_ideal net.abi net.nodeType route h hv ht hl hfit).2
  rw [ha] at hrep
  simp only [List.map_cons, List.map_nil, List.cons.injEq, and_true] at hrep
  have hge := idealArrival_ge d.id route d.time.toNat latency.toNat
  have hsum : d.time.toNat + latency.toNat < 2 ^ 64 := by omega
  have hgoal := (le_idealReported_iff d.id route _ d.time.toNat latency.toNat le_rfl).mpr hk
  refine ⟨a, ha, le_add_of_fits hsum, ?_⟩
  rw [UInt64.le_iff_toNat_le, UInt64.toNat_add, Nat.mod_eq_of_lt hsum, hrep]
  exact hgoal

theorem Forward.extend {d e : Device} (h : Forward d) {start : UInt64} (he : start ≤ e.time)
    (hspans : e.spans = d.spans) (hsubs : ∀ p ∈ e.subs, p ∈ d.subs ∨ p.2 ≤ p.1) :
    Forward (e.span start) := by
  constructor
  · intro p hp
    simp only [Device.span, List.mem_append, List.mem_singleton] at hp
    rcases hp with hp | rfl
    · exact h.1 p (hspans ▸ hp)
    · exact he
  · intro p hp
    rcases hsubs p hp with hd | hle
    · exact h.2 p hd
    · exact hle

theorem step_forward {net : Config} {d e : Device} {c : Call} (hf : Forward d)
    (hs : Safe net d c) (ht : step net d c = some e) : Forward e := by
  cases c with
  | cpu x =>
    simp only [step, Option.some.injEq] at ht
    subst ht
    exact hf
  | recv packet =>
    simp only [step, Option.some.injEq] at ht
    subst ht
    unfold m2mGetLocalMsg
    by_cases hlt : d.time < packet.arrival
    · simp only [hlt, if_true]
      refine hf.extend ?_ rfl ?_
      · simp only [Device.time_setLocaltime, Device.time_subtract, Device.time_chargeRecv,
          add_sub_self]
        exact UInt64.le_of_lt hlt
      · intro p hp
        simp only [Device.subtract, Device.chargeRecv, List.mem_append, List.mem_singleton] at hp
        rcases hp with hp | rfl
        · exact .inl hp
        · exact .inr (UInt64.le_of_lt hlt)
    · simp only [hlt, if_false]
      exact hf.extend (UInt64.le_refl _) rfl (fun p hp => .inl hp)
  | send sizeb receiverID latency failLatency route =>
    simp only [step, Option.map_eq_some_iff, m2mSend] at ht
    obtain ⟨e, ht, rfl⟩ := ht
    split at ht
    · cases ht
      exact hf.extend (UInt64.le_refl _) rfl (fun p hp => .inl hp)
    · split at ht
      · rename_i hsize
        obtain ⟨hs₀, hs₁⟩ := hs hsize
        unfold m2mPostRemoteMsg at ht
        by_cases hz : latency = 0
        · simp only [hz, if_true, Option.some.injEq] at ht
          subst ht
          refine hf.extend ?_ rfl (fun p hp => .inl hp)
          rw [Device.time_chargeSend]
          exact le_add_of_fits (hs₀ hz)
        · obtain ⟨hv, hl, hfit, hk⟩ := hs₁ hz
          obtain ⟨a, ha, h₁, h₂⟩ := post_reported net d (.ofNat sizeb.toNat) hz hv hl hfit hk
          simp only [hz, if_false] at ht
          split at ht
          · cases ht
          · rw [ha] at ht
            cases ht
            refine hf.extend ?_ rfl ?_
            · simp only [Device.time_subtract, Device.time_chargeSend,
                Device.localtime_chargeSend, add_sub_self]
              exact UInt64.le_trans h₁ h₂
            · intro p hp
              simp only [Device.subtract, Device.localtime_chargeSend, List.mem_append,
                List.mem_singleton] at hp
              rcases hp with hp | rfl
              · exact .inl hp
              · refine .inr ?_
                rw [Device.time_chargeSend]
                exact h₂
      · cases ht
        exact hf.extend (UInt64.le_refl _) rfl (fun p hp => .inl hp)

/-- In every run of sends and receives that meet the condition, no call takes the device's
time backwards and no unsigned difference underflows. -/
theorem clock_forward (net : Config) (d : Device)
    (h : Machine.ReachableWhen Init (step net) (Safe net) d) :
    (∀ p ∈ d.spans, p.1 ≤ p.2) ∧ (∀ p ∈ d.subs, p.2 ≤ p.1) := by
  have hf : Forward d := by
    refine h.invariant ?_ (fun _ _ _ hf hs ht => step_forward hf hs ht)
    intro d hd
    simp [Forward, hd.1, hd.2]
  exact hf

def sampleNet : Config := ⟨.i386, sampleType, 4⟩

/-- End device 3 with `x` nanoseconds on its clock. -/
def sampleDevice (x : UInt64) : Device := ⟨3, x, 0, 0, 0, x, [], []⟩

def sampleSend : Call := .send 4 4 2496000 0 (.last ⟨2, 0, 3456000, 0⟩)

theorem sampleSend_safe : Safe sampleNet (sampleDevice 1000000) sampleSend := by
  intro _
  refine ⟨fun h => absurd h (by decide), fun _ => ⟨⟨by decide, by decide⟩, ?_, ?_, .inr ?_⟩⟩
  · decide
  · decide
  · decide

def sampleRecv : Call := .recv ⟨0, 4, 4, 3, 2, -1, 9000000, 2496000⟩

theorem clock_forward_two : ∃ d e,
    step sampleNet (sampleDevice 1000000) sampleSend = some d ∧
    step sampleNet d sampleRecv = some e ∧
    (∀ p ∈ e.spans, p.1 ≤ p.2) ∧ (∀ p ∈ e.subs, p.2 ≤ p.1) := by
  cases hd : step sampleNet (sampleDevice 1000000) sampleSend with
  | none => exact absurd hd (by decide)
  | some d =>
    refine ⟨d, _, rfl, rfl, clock_forward sampleNet _ ?_⟩
    exact .next (a := sampleRecv) (.next (.start ⟨rfl, rfl⟩) sampleSend_safe hd) trivial rfl

/-- Through one router to an end device the reported time drops the first latency, and
the difference underflows; a failure at the router reports an address as a time, and
the device's clock goes from ten seconds back to one and a half. -/
theorem clock_backwards :
    (∃ d, Machine.Reachable Init (step sampleNet) d ∧ ∃ p ∈ d.subs, p.1 < p.2) ∧
    (∃ d, Machine.Reachable Init (step sampleNet) d ∧ ∃ p ∈ d.spans, p.2 < p.1) := by
  constructor
  · obtain ⟨d, hd, hp⟩ := Machine.exists_reachable Init (step sampleNet)
      [.send 4 4 3456000 0 (.last ⟨2, 0, 2496000, 0⟩)]
      (fun d => d.subs.any (fun p => p.1 < p.2)) (s := sampleDevice 1000000) ⟨rfl, rfl⟩ (by decide)
    exact ⟨d, hd, by simpa using hp⟩
  · obtain ⟨d, hd, hp⟩ := Machine.exists_reachable Init (step sampleNet)
      [.send 4 4 2496000 0 (.last ⟨2, 0, 0, 0xbffff000⟩)]
      (fun d => d.spans.any (fun p => p.2 < p.1)) (s := sampleDevice 10000000000) ⟨rfl, rfl⟩
      (by decide +kernel)
    exact ⟨d, hd, by simpa using hp⟩

end M2M.Network.DeviceClock
