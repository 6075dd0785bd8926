import M2M.Lib.Runs
import M2M.Network.Packet
import Mathlib.Data.Finset.Card
import Mathlib.Data.Prod.Lex

/-! How `m2m_route_processor_create` chooses the packet to process: the scan for the
earliest packet, and the loop that waits until the clocks of the other devices have passed
it.  What the router reads from shared memory at each visit is left open. -/

namespace M2M.Network.WaitLoop

open M2M.Lib

/-- `SendTime + TransTime` -/
def arrivalTime (h : HQe) : UInt64 := h.sendTime + h.transTime

/-- A router thread, with what `route_discovery` returns for a receiver.  `NeighborNum` is
at most the size of the array `Neighbors`. -/
structure Router where
  deviceID : UInt32
  deviceType : DeviceType
  neighborNum : Nat
  neighbors : Nat → UInt32
  oneHopLatency : UInt64
  routeDiscovery : UInt32 → UInt32
  neighborNum_le : neighborNum ≤ nodeMaxLinks

/-- `packet_mintime`, `packet_sendtime`, `packet_from`, `packet_next` and `packet_ind` -/
structure Choice where
  packetMintime : UInt64
  packetSendtime : UInt64
  packetFrom : UInt32
  packetNext : UInt32
  packetInd : Nat
  deriving DecidableEq

/-- The values before the first scan: five times `-1`. -/
def Choice.unset : Choice := ⟨maxTime, maxTime, 4294967295, 4294967295, 4294967295⟩

/-- The comparison by which a packet replaces the chosen one. -/
def Choice.Later (c : Choice) (h : HQe) : Prop :=
  c.packetMintime > arrivalTime h ∨
    (c.packetMintime = arrivalTime h ∧ c.packetSendtime > h.sendTime)

instance (c : Choice) (h : HQe) : Decidable (c.Later h) := inferInstanceAs (Decidable (_ ∨ _))

/-- What the router reads at one index: the head of the queue, if there is one, and the
clock of the device. -/
structure Visit where
  head : Option HQe
  clock : UInt64

/-- The state of the wait loop; `deadline` is `neigbor_device_deadline`. -/
structure Wait where
  choice : Choice
  deadline : Nat → Bool
  count : Nat

def Wait.start (c : Choice) : Wait := ⟨c, fun _ => false, 0⟩

namespace Router

variable (r : Router)

def searchNum : Nat := if r.deviceType = .zr then r.neighborNum else r.neighborNum + 1

/-- Where queue and deadline of an index are; the last index is the device itself. -/
def slot (index : Nat) : Nat := if index = r.neighborNum then nodeMaxLinks + 1 else index

def device (index : Nat) : UInt32 := if index = r.neighborNum then r.deviceID else r.neighbors index

def take (index : Nat) (h : HQe) : Choice where
  packetMintime := arrivalTime h
  packetSendtime := h.sendTime
  packetFrom := h.forwardID
  packetNext := if r.deviceID ≠ h.receiverID then r.routeDiscovery h.receiverID else r.deviceID
  packetInd := r.slot index

/-- One index of the first scan. -/
def look (c : Choice) (index : Nat) : Option HQe → Choice
  | some h => if c.Later h then r.take index h else c
  | none => c

def firstScan (heads : Nat → Option HQe) : Choice :=
  (List.range r.searchNum).foldl (fun c index => r.look c index (heads index)) .unset

/-- An earlier packet in a queue starts the waiting anew. -/
def check (w : Wait) (index : Nat) : Option HQe → Wait
  | some h => if w.choice.Later h then .start (r.take index h) else w
  | none => w

/-- `tmp_packet_mintime` -/
def tmpMintime (c : Choice) : UInt64 :=
  if c.packetMintime > r.oneHopLatency then c.packetMintime - r.oneHopLatency else 0

def Passes (c : Choice) (index : Nat) (clock : UInt64) : Prop :=
  c.packetFrom ≠ r.device index ∧ r.tmpMintime c ≤ clock

instance (c : Choice) (index : Nat) (clock : UInt64) : Decidable (r.Passes c index clock) :=
  inferInstanceAs (Decidable (_ ∧ _))

/-- The device's clock is tested unless its deadline is set. -/
def test (w : Wait) (index : Nat) (clock : UInt64) : Wait :=
  if w.deadline (r.slot index) = false ∧ r.Passes w.choice index clock then
    { w with
      deadline := Function.update w.deadline (r.slot index) true
      count := w.count + 1 }
  else w

/-- One index of a scan of the wait loop. -/
def visit (w : Wait) (x : Nat × Visit) : Wait :=
  r.test (r.check w x.1 x.2.head) x.1 x.2.clock

def visits (obs : Nat → Visit) : List (Nat × Visit) :=
  (List.range r.searchNum).map fun index => (index, obs index)

def scan (w : Wait) (obs : Nat → Visit) : Wait := (r.visits obs).foldl r.visit w

/-- `while(!deadline)`, entered with `k` scans behind it; also the number of scans made. -/
def waitLoop (obs : Nat → Nat → Visit) : Nat → Nat → Wait → Option (Nat × Wait)
  | 0, _, _ => none
  | fuel + 1, k, w =>
    let w := r.scan w (obs k)
    if w.count + 2 = r.searchNum then some (k + 1, w) else waitLoop obs fuel (k + 1) w

/-- What the first `n` scans have read, in the order of time. -/
def history (obs : Nat → Nat → Visit) (n : Nat) : List (Nat × Visit) :=
  (List.range n).flatMap fun k => r.visits (obs k)

end Router

/-- The key of the selection. -/
def Choice.key (c : Choice) : Nat ×ₗ Nat := toLex (c.packetMintime.toNat, c.packetSendtime.toNat)

def packetKey (h : HQe) : Nat ×ₗ Nat := toLex ((arrivalTime h).toNat, h.sendTime.toNat)

theorem Choice.later_iff {c : Choice} {h : HQe} : c.Later h ↔ packetKey h < c.key := by
  simp only [Choice.Later, packetKey, Choice.key, Prod.Lex.lt_iff, ofLex_toLex, gt_iff_lt,
    UInt64.lt_iff_toNat_lt, ← UInt64.toNat_inj]
  rw [eq_comm]

def Choice.Beaten (c : Choice) (head : Option HQe) : Prop := ∃ h ∈ head, c.Later h

namespace Router

variable {r : Router}

@[simp] theorem key_take (i : Nat) (h : HQe) : (r.take i h).key = packetKey h := rfl

theorem slot_inj {i j : Nat} (hi : i < r.searchNum) (hj : j < r.searchNum)
    (h : r.slot i = r.slot j) : i = j := by
  have hle := r.neighborNum_le
  simp only [searchNum] at hi hj
  simp only [slot] at h
  split at hi <;> split at hj <;> split at h <;> split at h <;> omega

theorem look_of_beaten {c : Choice} {head : Option HQe} {i : Nat} {h : HQe} (hh : head = some h)
    (hl : c.Later h) : r.look c i head = r.take i h := by
  rw [hh, look, if_pos hl]

theorem look_of_not_beaten {c : Choice} {head : Option HQe} (i : Nat) (h : ¬ c.Beaten head) :
    r.look c i head = c := by
  cases head with
  | none => rfl
  | some p =>
    rw [look, if_neg]
    exact fun hp => h ⟨p, rfl, hp⟩

theorem check_of_beaten {w : Wait} {head : Option HQe} {i : Nat} {h : HQe} (hh : head = some h)
    (hl : w.choice.Later h) : r.check w i head = .start (r.take i h) := by
  rw [hh, check, if_pos hl]

theorem check_of_not_beaten {w : Wait} {head : Option HQe} (i : Nat)
    (h : ¬ w.choice.Beaten head) : r.check w i head = w := by
  cases head with
  | none => rfl
  | some p =>
    rw [check, if_neg]
    exact fun hp => h ⟨p, rfl, hp⟩

theorem choice_check (w : Wait) (i : Nat) (head : Option HQe) :
    (r.check w i head).choice = r.look w.choice i head := by
  cases head with
  | none => rfl
  | some p =>
    simp only [check, look]
    split <;> rfl

theorem choice_test (w : Wait) (i : Nat) (clock : UInt64) :
    (r.test w i clock).choice = w.choice := by
  rw [test]
  split <;> rfl

theorem choice_visit (w : Wait) (x : Nat × Visit) :
    (r.visit w x).choice = r.look w.choice x.1 x.2.head := by
  rw [visit, choice_test, choice_check]

def flagged (r : Router) (w : Wait) : Finset Nat :=
  (Finset.range r.searchNum).filter fun i => w.deadline (r.slot i) = true

@[simp] theorem flagged_start (c : Choice) : r.flagged (.start c) = ∅ := by
  simp [flagged, Wait.start]

theorem mem_flagged {w : Wait} {i : Nat} :
    i ∈ r.flagged w ↔ i < r.searchNum ∧ w.deadline (r.slot i) = true := by
  simp [flagged]

/-- `deadline_count` counts the deadlines that are set. -/
def Counted (r : Router) (w : Wait) : Prop := w.count = (r.flagged w).card

theorem counted_start (c : Choice) : r.Counted (.start c) := by
  rw [Counted, flagged_start, Finset.card_empty]
  rfl

theorem flagged_set (w : Wait) {i : Nat} (hi : i < r.searchNum) (n : Nat) :
    r.flagged { w with deadline := Function.update w.deadline (r.slot i) true, count := n } =
      insert i (r.flagged w) := by
  ext j
  simp only [mem_flagged, Finset.mem_insert]
  by_cases hj : j = i
  · simp [hj, hi]
  · by_cases hlt : j < r.searchNum
    · have hne : r.slot j ≠ r.slot i := fun h => hj (slot_inj hlt hi h)
      simp [Function.update_of_ne hne, hj]
    · simp [hlt, hj]

theorem flagged_test (w : Wait) {i : Nat} (hi : i < r.searchNum) (clock : UInt64) :
    r.flagged (r.test w i clock) =
      if r.Passes w.choice i clock then insert i (r.flagged w) else r.flagged w := by
  by_cases hp : r.Passes w.choice i clock
  · cases hd : w.deadline (r.slot i) with
    | true =>
      have hmem : i ∈ r.flagged w := mem_flagged.2 ⟨hi, hd⟩
      simp [test, hp, hd, Finset.insert_eq_of_mem hmem]
    | false => rw [test, if_pos ⟨hd, hp⟩, flagged_set w hi, if_pos hp]
  · simp [test, hp]

theorem Counted.check {w : Wait} (h : r.Counted w) (i : Nat) (head : Option HQe) :
    r.Counted (r.check w i head) := by
  cases head with
  | none => exact h
  | some p =>
    rw [Router.check]
    split
    · exact counted_start _
    · exact h

theorem Counted.test {w : Wait} (h : r.Counted w) {i : Nat} (hi : i < r.searchNum)
    (clock : UInt64) : r.Counted (r.test w i clock) := by
  rw [Router.test]
  split
  next hset =>
    have hmem : i ∉ r.flagged w := by simp [mem_flagged, hset.1]
    rw [Counted, flagged_set w hi, Finset.card_insert_of_notMem hmem, ← show w.count = _ from h]
  next => exact h

theorem Counted.visit {w : Wait} (h : r.Counted w) {x : Nat × Visit} (hx : x.1 < r.searchNum) :
    r.Counted (r.visit w x) :=
  (h.check x.1 x.2.head).test hx x.2.clock

theorem mem_visits {obs : Nat → Visit} {x : Nat × Visit} (hx : x ∈ r.visits obs) :
    x.1 < r.searchNum := by
  obtain ⟨i, hi, rfl⟩ := List.mem_map.1 hx
  exact List.mem_range.1 hi

theorem mem_history {obs : Nat → Nat → Visit} {n : Nat} {x : Nat × Visit}
    (hx : x ∈ r.history obs n) : x.1 < r.searchNum := by
  obtain ⟨k, -, hk⟩ := List.mem_flatMap.1 hx
  exact mem_visits hk

theorem Counted.foldl {w : Wait} (h : r.Counted w) {xs : List (Nat × Visit)}
    (hxs : ∀ x ∈ xs, x.1 < r.searchNum) : r.Counted (xs.foldl r.visit w) := by
  induction xs generalizing w with
  | nil => exact h
  | cons x xs ih =>
    exact ih (h.visit (hxs x List.mem_cons_self)) fun y hy => hxs y (List.mem_cons_of_mem x hy)

theorem history_succ (obs : Nat → Nat → Visit) (n : Nat) :
    r.history obs (n + 1) = r.history obs n ++ r.visits (obs n) := by
  simp [history, List.range_succ]

theorem waitLoop_eq_some {obs : Nat → Nat → Visit} {fuel : Nat} {w₀ w : Wait} {n : Nat} :
    ∀ {k : Nat}, r.waitLoop obs fuel k ((r.history obs k).foldl r.visit w₀) = some (n, w) →
      w = (r.history obs n).foldl r.visit w₀ ∧ w.count + 2 = r.searchNum := by
  induction fuel with
  | zero =>
    intro k h
    simp [waitLoop] at h
  | succ fuel ih =>
    intro k h
    have hscan : r.scan ((r.history obs k).foldl r.visit w₀) (obs k) =
        (r.history obs (k + 1)).foldl r.visit w₀ := by
      rw [history_succ, List.foldl_append, scan]
    rw [waitLoop, hscan] at h
    split at h
    next hcount =>
      obtain ⟨rfl, rfl⟩ := Prod.mk.inj (Option.some.inj h)
      exact ⟨rfl, hcount⟩
    next => exact ih h

end Router

def three : Router where
  deviceID := 4
  deviceType := .zr
  neighborNum := 3
  neighbors i := .ofNat (i + 1)
  oneHopLatency := 10
  routeDiscovery := id
  neighborNum_le := by decide

/-- A packet from device 1 to device 2. -/
def onward : Choice := ⟨100, 50, 1, 2, 0⟩

end M2M.Network.WaitLoop
