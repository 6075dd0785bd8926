import M2M.Network.Scan

/-! When a router processes packets in the order of their arrival times. -/

namespace M2M.Network.Scan

open M2M.Lib.Machine

def Adds (a b : UInt64) : Prop := a.toNat + b.toNat < 2 ^ 64

instance (a b : UInt64) : Decidable (Adds a b) := inferInstanceAs (Decidable (_ < _))

/-- The router's test would prefer nothing that the neighbour has in its queue, or has sent and
not published yet. -/
def NonePreferred (s : State) (best : Packet) (k : Nat) : Prop :=
  (∀ p ∈ s.queue k, p.earlier best = false) ∧
    ∀ p ∈ (s.nb k).unpublished, p.earlier best = false

/-- The neighbour's clock word can be taken for its time: no packet is overlooked, and a device
that waits in `m2m_recv` would pass the test with its own time. -/
def Vouched (c : Config) (s : State) (best : Packet) (k : Nat) : Prop :=
  NonePreferred s best k ∧
    ((s.nb k).waiting = true → c.reached best.arrival (s.clock k) = true)

instance (s : State) (best : Packet) (k : Nat) : Decidable (NonePreferred s best k) :=
  inferInstanceAs (Decidable (_ ∧ _))

instance (c : Config) (s : State) (best : Packet) (k : Nat) : Decidable (Vouched c s best k) :=
  inferInstanceAs (Decidable (_ ∧ (_ → _)))

/-- The router counts a clock that can be taken for the neighbour's time; and when it processes a
packet, the neighbours that it has not counted, and a router that sent the packet, would pass. -/
def ScanTrusted (c : Config) (s : State) : Phase → Prop
  | .clock index best deadline _ =>
    exceeds c s index best deadline = true → Vouched c s best.packet index
  | .ready best deadline =>
    (∀ k, k < c.searchNum → k ≠ best.link → deadline k = false →
      c.reached best.packet.arrival (s.word k) = true ∧ Vouched c s best.packet k) ∧
    (c.kind best.link = .router → c.reached best.packet.arrival (s.word best.link) = true)
  | _ => True

/-- Hops take at least `one_hop_latency`, nobody's clock is set back or wraps, and a neighbouring
router hands over nothing older than the clock it has published. -/
def Trusted (c : Config) (s : State) : Act → Prop
  | .scan => ScanTrusted c s s.phase
  | .cpu k d => Adds (s.clock k) d
  | .send k transTime => c.oneHop ≤ transTime ∧ Adds (s.clock k) transTime
  | .sendFail k failLatency => Adds (s.clock k) failLatency
  | .ack k transtime => s.word k ≤ transtime ∧ Adds (s.clock k) (transtime - s.word k)
  | .sync k t => s.word k ≤ t
  | .hand k p => s.word k ≤ p.sendTime ∧ c.oneHop ≤ p.transTime ∧ Adds p.sendTime p.transTime
  | _ => True

instance (c : Config) (s : State) : (p : Phase) → Decidable (ScanTrusted c s p)
  | .clock .. => inferInstanceAs (Decidable (_ → _))
  | .ready .. => inferInstanceAs (Decidable ((∀ k, k < c.searchNum → _ → _ → _) ∧ (_ → _)))
  | .empty _ | .find .. | .look .. => inferInstanceAs (Decidable True)

instance (c : Config) (s : State) : (a : Act) → Decidable (Trusted c s a)
  | .scan => inferInstanceAs (Decidable (ScanTrusted c s s.phase))
  | .cpu .. | .sendFail .. => inferInstanceAs (Decidable (Adds _ _))
  | .send .. | .ack .. => inferInstanceAs (Decidable (_ ≤ _ ∧ Adds _ _))
  | .sync .. => inferInstanceAs (Decidable (_ ≤ _))
  | .hand .. => inferInstanceAs (Decidable (_ ≤ _ ∧ _ ≤ _ ∧ Adds _ _))
  | .publish .. | .sendSync .. | .sendPost .. | .recv .. | .recvWait .. | .recvWake ..
  | .recvDone .. => inferInstanceAs (Decidable True)

theorem Adds.toNat_add {a b : UInt64} (h : Adds a b) : (a + b).toNat = a.toNat + b.toNat := by
  rw [UInt64.toNat_add, Nat.mod_eq_of_lt h]

theorem Adds.le {a b : UInt64} (h : Adds a b) : a ≤ a + b := by
  rw [UInt64.le_iff_toNat_le, h.toNat_add]
  omega

theorem Config.reached_iff {c : Config} {mintime t : UInt64} :
    c.reached mintime t = true ↔ mintime.toNat ≤ t.toNat + c.oneHop.toNat := by
  rw [Config.reached, decide_eq_true_eq, UInt64.le_iff_toNat_le]
  split
  · rename_i h
    rw [UInt64.toNat_sub_of_le _ _ (UInt64.le_of_lt h)]
    omega
  · rename_i h
    have hle := UInt64.le_iff_toNat_le.mp (UInt64.not_lt.mp h)
    simp only [UInt64.toNat_zero]
    omega

theorem Packet.arrival_le {p q : Packet} (h : p.earlier q = false) : q.arrival ≤ p.arrival := by
  simp only [Packet.earlier, Bool.or_eq_false_iff, decide_eq_false_iff_not] at h
  exact UInt64.not_lt.mp h.1

/-- What a neighbour's later packets cannot undercut: a device's own clock, or the word
that a neighbouring router has published. -/
def bound (c : Config) (s : State) (k : Nat) : UInt64 :=
  if c.kind k = .router then s.word k else s.clock k

/-- The neighbour has no packet that arrives before `t` in its queue or on the way to it. -/
def NoEarlier (s : State) (t : UInt64) (k : Nat) : Prop :=
  (∀ p ∈ s.queue k, t ≤ p.arrival) ∧ ∀ p ∈ (s.nb k).inFlight, t ≤ p.arrival

/-- No packet of the neighbour, present or future, arrives before `t`. -/
def Ahead (c : Config) (s : State) (t : UInt64) (k : Nat) : Prop :=
  NoEarlier s t k ∧ t.toNat ≤ (bound c s k).toNat + c.oneHop.toNat

/-- A device's clock is past all it has sent, and its published clock is its own time
except while it waits in `m2m_recv`. -/
structure DeviceOK (c : Config) (n : Neighbor) (clock word : UInt64) (q : Option Packet) :
    Prop where
  honest : n.waiting = false → word ≤ clock
  saved : ∀ t ∈ n.saved, t = clock
  woken : ∀ t, n = .recvWoken t → word = clock
  hidden : ∀ p, n = .posting p false → word.toNat + c.oneHop.toNat ≤ p.arrival.toNat
  sent : ∀ p ∈ n.inFlight, p.arrival ≤ clock
  queued : ∀ p ∈ q, p.arrival ≤ clock
  order : ∀ p ∈ q, ∀ p' ∈ n.inFlight, p.arrival ≤ p'.arrival

variable {c : Config} {s t : State}

theorem deviceStep_frame {k : Nat} {a : Act} (ht : deviceStep c s k a = some t) :
    t.phase = s.phase ∧ t.processed = s.processed ∧ ∀ j, j ≠ k →
      t.nb j = s.nb j ∧ t.clock j = s.clock j ∧ t.word j = s.word j ∧ t.queue j = s.queue j := by
  unfold deviceStep at ht
  repeat' split at ht
  all_goals
    cases ht
    try exact ⟨rfl, rfl, fun j hj => by simp [hj]⟩

namespace DeviceOK

variable {n : Neighbor} {clock clock' word word' : UInt64} {q : Option Packet} {p : Packet}

theorem run (h : DeviceOK c n clock word q) (hclock : clock ≤ clock') (hword : word' ≤ clock') :
    DeviceOK c .running clock' word' q where
  honest _ := hword
  saved _ ht := by cases ht
  woken _ ht := by cases ht
  hidden _ hp := by cases hp
  sent _ hp := by cases hp
  queued p hp := UInt64.le_trans (h.queued p hp) hclock
  order _ _ _ hp := by cases hp

theorem send (h : DeviceOK c .running clock word q) {transTime : UInt64}
    (hhop : c.oneHop ≤ transTime) (hadds : Adds clock transTime) :
    DeviceOK c (.posting ⟨clock, transTime⟩ false) (clock + transTime) word q where
  honest _ := UInt64.le_trans (h.honest rfl) hadds.le
  saved _ ht := by cases ht
  woken _ ht := by cases ht
  hidden p hp := by
    cases hp
    have hword := UInt64.le_iff_toNat_le.mp (h.honest rfl)
    have hhop := UInt64.le_iff_toNat_le.mp hhop
    have harrival : (Packet.arrival ⟨clock, transTime⟩).toNat = clock.toNat + transTime.toNat :=
      hadds.toNat_add
    omega
  sent p hp := by
    cases hp
    exact UInt64.le_refl _
  queued p hp := UInt64.le_trans (h.queued p hp) hadds.le
  order p hp p' hp' := by
    cases hp'
    exact UInt64.le_trans (h.queued p hp) hadds.le

theorem sendSync (h : DeviceOK c (.posting p false) clock word q) :
    DeviceOK c (.posting p true) clock clock q where
  honest _ := UInt64.le_refl _
  saved _ ht := by cases ht
  woken _ ht := by cases ht
  hidden _ hp := by cases hp
  sent := h.sent
  queued := h.queued
  order := h.order

theorem sendPost (h : DeviceOK c (.posting p true) clock word q) :
    DeviceOK c .waitAck clock word (some p) where
  honest := h.honest
  saved _ ht := by cases ht
  woken _ ht := by cases ht
  hidden _ hp := by cases hp
  sent _ hp := by cases hp
  queued := h.sent
  order _ _ _ hp := by cases hp

theorem recv (h : DeviceOK c n clock word q) : DeviceOK c (.recvSaved clock) clock clock q where
  honest _ := UInt64.le_refl _
  saved t ht := by
    cases ht
    rfl
  woken _ _ := rfl
  hidden _ hp := by cases hp
  sent _ hp := by cases hp
  queued := h.queued
  order _ _ _ hp := by cases hp

theorem recvWait {tmp : UInt64} (h : DeviceOK c (.recvSaved tmp) clock word q) :
    DeviceOK c (.recvWait tmp) clock word' q where
  honest hw := by cases hw
  saved := h.saved
  woken _ ht := by cases ht
  hidden _ hp := by cases hp
  sent _ hp := by cases hp
  queued := h.queued
  order _ _ _ hp := by cases hp

theorem recvWake {tmp : UInt64} (h : DeviceOK c (.recvWait tmp) clock word q) :
    DeviceOK c (.recvWoken tmp) clock tmp q where
  honest _ := UInt64.le_of_eq (h.saved tmp rfl)
  saved := h.saved
  woken _ _ := h.saved tmp rfl
  hidden _ hp := by cases hp
  sent _ hp := by cases hp
  queued := h.queued
  order _ _ _ hp := by cases hp

theorem recvDone {tmp : UInt64} (h : DeviceOK c (.recvWoken tmp) clock word q)
    (arrival : UInt64) :
    clock ≤ if word < arrival then clock + (arrival - word) else clock := by
  have hword := h.woken tmp rfl
  split
  · rename_i hlt
    have hadds : Adds clock (arrival - word) := by
      rw [Adds, UInt64.toNat_sub_of_le _ _ (UInt64.le_of_lt hlt), hword]
      have hmax := arrival.toNat_lt
      rw [hword, UInt64.lt_iff_toNat_lt] at hlt
      omega
    exact hadds.le
  · exact UInt64.le_refl _

theorem take (h : DeviceOK c n clock word q) : DeviceOK c n clock word none where
  honest := h.honest
  saved := h.saved
  woken := h.woken
  hidden := h.hidden
  sent := h.sent
  queued _ hp := by cases hp
  order _ hp := by cases hp

/-- A device whose clock word has been reached and can be taken for its time sends nothing
earlier from now on, and has sent nothing earlier. -/
theorem ahead {best : Packet} (h : DeviceOK c n clock word q)
    (hword : c.reached best.arrival word = true)
    (hqueue : ∀ p ∈ q, p.earlier best = false)
    (hposted : ∀ p ∈ n.unpublished, p.earlier best = false)
    (hwait : n.waiting = true → c.reached best.arrival clock = true) :
    ((∀ p ∈ q, best.arrival ≤ p.arrival) ∧ ∀ p ∈ n.inFlight, best.arrival ≤ p.arrival) ∧
      best.arrival.toNat ≤ clock.toNat + c.oneHop.toNat := by
  rw [Config.reached_iff] at hword hwait
  refine ⟨⟨fun p hp => Packet.arrival_le (hqueue p hp), ?_⟩, ?_⟩
  · intro p hp
    cases n with
    | posting p' synced =>
      obtain rfl := Option.some.inj hp
      cases synced with
      | false =>
        have hhidden := h.hidden p' rfl
        exact UInt64.le_iff_toNat_le.mpr (by omega)
      | true => exact Packet.arrival_le (hposted p' rfl)
    | running | waitAck | recvSaved | recvWait | recvWoken => cases hp
  · cases hw : n.waiting with
    | true => exact hwait hw
    | false =>
      have hhonest := UInt64.le_iff_toNat_le.mp (h.honest hw)
      omega

end DeviceOK

theorem deviceStep_ok {k : Nat} {a : Act} (hk : a.queue? = some k) (ha : Trusted c s a)
    (h : DeviceOK c (s.nb k) (s.clock k) (s.word k) (s.queue k))
    (ht : deviceStep c s k a = some t) :
    DeviceOK c (t.nb k) (t.clock k) (t.word k) (t.queue k) ∧ s.clock k ≤ t.clock k ∧
      (∀ p ∈ (t.nb k).inFlight, p ∈ (s.nb k).inFlight ∨
        (s.clock k).toNat + c.oneHop.toNat ≤ p.arrival.toNat) ∧
      (∀ p ∈ t.queue k, p ∈ s.queue k ∨ p ∈ (s.nb k).inFlight) := by
  cases a with
  | scan | sync | hand => cases ht
  | cpu k' d =>
    cases hk
    simp only [deviceStep] at ht
    split at ht
    · rename_i hrun
      cases ht
      rw [hrun] at h
      have hadds : Adds (s.clock k) d := ha
      have hok := h.run hadds.le (UInt64.le_trans (h.honest rfl) hadds.le)
      simpa [hrun, Neighbor.inFlight] using And.intro hok hadds.le
    · cases ht
  | publish k' =>
    simp only [deviceStep] at ht
    split at ht
    · rename_i hrun
      cases ht
      rw [hrun.1] at h
      have hok := h.run (UInt64.le_refl (s.clock k)) (UInt64.le_refl _)
      simpa [hrun.1, Neighbor.inFlight] using hok
    · cases ht
  | send k' l =>
    cases hk
    simp only [deviceStep] at ht
    split at ht
    · rename_i hrun
      cases ht
      rw [hrun.1] at h
      obtain ⟨hhop, hadds⟩ : c.oneHop ≤ l ∧ Adds (s.clock k) l := ha
      refine ⟨by simpa using h.send hhop hadds, by simpa using hadds.le, ?_,
        fun p hp => .inl hp⟩
      intro p hp
      right
      simp only [State.setNb, State.setClock, Function.update_self, Neighbor.inFlight,
        Option.mem_some_iff] at hp
      subst hp
      have hle := UInt64.le_iff_toNat_le.mp hhop
      rw [Packet.arrival, hadds.toNat_add]
      omega
    · cases ht
  | sendFail k' l =>
    cases hk
    simp only [deviceStep] at ht
    split at ht
    · rename_i hrun
      cases ht
      rw [hrun] at h
      have hadds : Adds (s.clock k) l := ha
      have hok := h.run hadds.le (UInt64.le_refl _)
      simpa [hrun, Neighbor.inFlight] using And.intro hok hadds.le
    · cases ht
  | sendSync k' =>
    simp only [deviceStep] at ht
    split at ht
    · rename_i p hp
      cases ht
      rw [hp] at h
      have hok := h.sendSync
      refine ⟨by simpa using hok, by simp, ?_, fun p hp => .inl hp⟩
      simp [hp, Neighbor.inFlight]
    · cases ht
  | sendPost k' =>
    simp only [deviceStep] at ht
    split at ht
    · rename_i p hp
      split at ht
      · cases ht
        rw [hp] at h
        have hok := h.sendPost
        simpa [hp, Neighbor.inFlight] using hok
      · cases ht
    · cases ht
  | ack k' v =>
    cases hk
    simp only [deviceStep] at ht
    split at ht
    · rename_i hwait
      cases ht
      obtain ⟨-, hadds⟩ : s.word k ≤ v ∧ Adds (s.clock k) (v - s.word k) := ha
      have hok := h.run hadds.le (UInt64.le_refl _)
      refine ⟨by simpa using hok, by simpa using hadds.le, ?_, fun p hp => .inl hp⟩
      simp [Neighbor.inFlight]
    · cases ht
  | recv k' =>
    simp only [deviceStep] at ht
    split at ht
    · cases ht
      refine ⟨by simpa using h.recv, by simp, ?_, fun p hp => .inl hp⟩
      simp [Neighbor.inFlight]
    · cases ht
  | recvWait k' =>
    simp only [deviceStep] at ht
    split at ht
    · rename_i tmp hp
      cases ht
      rw [hp] at h
      have hok : DeviceOK c _ _ (maxTime - 1) _ := h.recvWait
      simpa [hp, Neighbor.inFlight] using hok
    · cases ht
  | recvWake k' =>
    simp only [deviceStep] at ht
    split at ht
    · rename_i tmp hp
      cases ht
      rw [hp] at h
      have hok := h.recvWake
      simpa [hp, Neighbor.inFlight] using hok
    · cases ht
  | recvDone k' v =>
    simp only [deviceStep] at ht
    split at ht
    · rename_i tmp hp
      cases ht
      rw [hp] at h
      have hle := h.recvDone v
      have hok := h.run hle (UInt64.le_refl _)
      refine ⟨by simpa using hok, by simpa using hle, ?_, fun p hp => .inl hp⟩
      simp [Neighbor.inFlight]
    · cases ht

/-- The candidate of the search is still in its queue, and everybody counted is ahead. -/
def PhaseOK (c : Config) (s : State) : Phase → Prop
  | .empty _ => True
  | .find _ best => ∀ b ∈ best, b.link < c.searchNum ∧ s.queue b.link = some b.packet
  | .look _ b deadline _ | .clock _ b deadline _ | .ready b deadline =>
    b.link < c.searchNum ∧ s.queue b.link = some b.packet ∧
      ∀ k, deadline k = true → Ahead c s b.packet.arrival k

structure Ordered (c : Config) (s : State) : Prop where
  device : ∀ k, c.kind k ≠ .router → DeviceOK c (s.nb k) (s.clock k) (s.word k) (s.queue k)
  router : ∀ k, c.kind k = .router → s.nb k = .running
  phase : PhaseOK c s s.phase
  done : ∀ t ∈ s.processed, ∀ k, k < c.searchNum → Ahead c s t k
  sorted : s.processed.Pairwise (fun new old => old ≤ new)

theorem ordered_init : Ordered c State.init where
  device _ _ := by
    constructor <;> simp [State.init, Neighbor.saved, Neighbor.inFlight]
  router _ _ := rfl
  phase := trivial
  done _ ht := by cases ht
  sorted := .nil

/-- A step of a neighbour leaves the router alone, keeps what is in the queues and keeps
whoever is ahead ahead. -/
structure Advanced (c : Config) (s t : State) : Prop where
  phase : t.phase = s.phase
  processed : t.processed = s.processed
  queue : ∀ k p, s.queue k = some p → t.queue k = some p
  ahead : ∀ k a, Ahead c s a k → Ahead c t a k

theorem PhaseOK.mono {p : Phase} (h : PhaseOK c s p) (hst : Advanced c s t) : PhaseOK c t p := by
  cases p with
  | empty => trivial
  | find index best => exact fun b hb => ⟨(h b hb).1, hst.queue _ _ (h b hb).2⟩
  | look | clock | ready =>
    obtain ⟨hlink, hq, hahead⟩ := h
    exact ⟨hlink, hst.queue _ _ hq, fun k hk => hst.ahead k _ (hahead k hk)⟩

theorem Ordered.advance (h : Ordered c s) (hst : Advanced c s t)
    (hdevice : ∀ k, c.kind k ≠ .router → DeviceOK c (t.nb k) (t.clock k) (t.word k) (t.queue k))
    (hrouter : ∀ k, c.kind k = .router → t.nb k = .running) : Ordered c t where
  device := hdevice
  router := hrouter
  phase := by
    rw [hst.phase]
    exact h.phase.mono hst
  done a ha k hk := hst.ahead k a (h.done a (hst.processed ▸ ha) k hk)
  sorted := hst.processed ▸ h.sorted

theorem deviceStep_queue {k : Nat} {a : Act} (ht : deviceStep c s k a = some t) (j : Nat)
    (p : Packet) (hp : s.queue j = some p) : t.queue j = some p := by
  by_cases hj : j = k
  · subst hj
    unfold deviceStep at ht
    repeat' split at ht
    all_goals
      cases ht
      try exact hp
    rename_i hnone
    simp [hp] at hnone
  · rw [((deviceStep_frame ht).2.2 j hj).2.2.2, hp]

theorem ordered_device (h : Ordered c s) {k : Nat} {a : Act} (hk : a.queue? = some k)
    (hkind : c.kind k ≠ .router) (ha : Trusted c s a) (ht : deviceStep c s k a = some t) :
    Ordered c t := by
  obtain ⟨hphase, hproc, hframe⟩ := deviceStep_frame ht
  obtain ⟨hok, hclock, hflight, hqueue⟩ := deviceStep_ok hk ha (h.device k hkind) ht
  refine h.advance ⟨hphase, hproc, deviceStep_queue ht, ?_⟩ ?_ ?_
  · rintro j x ⟨⟨hq, hf⟩, hb⟩
    by_cases hj : j = k
    · subst hj
      simp only [bound, hkind, if_false] at hb
      refine ⟨⟨?_, ?_⟩, ?_⟩
      · intro p hp
        rcases hqueue p hp with hp | hp
        · exact hq p hp
        · exact hf p hp
      · intro p hp
        rcases hflight p hp with hp | hle
        · exact hf p hp
        · exact UInt64.le_iff_toNat_le.mpr (hb.trans hle)
      · have hle := UInt64.le_iff_toNat_le.mp hclock
        simp only [bound, hkind, if_false]
        omega
    · obtain ⟨hnb, hclk, hwd, hqu⟩ := hframe j hj
      simp only [Ahead, NoEarlier, bound, hnb, hclk, hwd, hqu]
      exact ⟨⟨hq, hf⟩, hb⟩
  · intro j hj
    by_cases hjk : j = k
    · subst hjk
      exact hok
    · obtain ⟨hnb, hclk, hwd, hqu⟩ := hframe j hjk
      rw [hnb, hclk, hwd, hqu]
      exact h.device j hj
  · intro j hj
    have hjk : j ≠ k := by
      rintro rfl
      exact hkind hj
    rw [(hframe j hjk).1]
    exact h.router j hj

theorem ordered_router (h : Ordered c s) {k : Nat} {a : Act} (hk : a.queue? = some k)
    (hkind : c.kind k = .router) (ha : Trusted c s a) (ht : routerStep s k a = some t) :
    Ordered c t := by
  have hother : ∀ j, c.kind j ≠ .router → j ≠ k := by
    rintro j hj rfl
    exact hj hkind
  cases a with
  | sync k' v =>
    cases hk
    cases ht
    have hv : s.word k ≤ v := ha
    refine h.advance ⟨rfl, rfl, fun _ _ hp => hp, ?_⟩ ?_ h.router
    · rintro j x ⟨hne, hb⟩
      refine ⟨hne, hb.trans (Nat.add_le_add_right ?_ _)⟩
      by_cases hj : j = k
      · subst hj
        simpa [bound, hkind] using UInt64.le_iff_toNat_le.mp hv
      · simp [bound, hj]
    · intro j hj
      simpa [hother j hj] using h.device j hj
  | hand k' p =>
    cases hk
    obtain ⟨hsend, hlat, hadds⟩ :
      s.word k ≤ p.sendTime ∧ c.oneHop ≤ p.transTime ∧ Adds p.sendTime p.transTime := ha
    simp only [routerStep] at ht
    split at ht
    · rename_i hnone
      replace hnone := hnone.1
      cases ht
      refine h.advance ⟨rfl, rfl, ?_, ?_⟩ ?_ h.router
      · intro j p' hp'
        have hj : j ≠ k := by
          rintro rfl
          simp [hnone] at hp'
        simpa [hj] using hp'
      · rintro j x ⟨⟨hq, hf⟩, hb⟩
        refine ⟨⟨?_, hf⟩, hb⟩
        by_cases hj : j = k
        · subst hj
          simp only [bound, hkind, if_true] at hb
          have hsend := UInt64.le_iff_toNat_le.mp hsend
          have hlat := UInt64.le_iff_toNat_le.mp hlat
          simp only [State.setQueue, Function.update_self, Option.mem_some_iff, forall_eq',
            Packet.arrival, UInt64.le_iff_toNat_le, hadds.toNat_add]
          omega
        · simpa [hj] using hq
      · intro j hj
        simpa [hother j hj] using h.device j hj
    · cases ht
  | scan | cpu | publish | send | sendFail | sendSync | sendPost | ack | recv | recvWait
  | recvWake | recvDone => cases ht

theorem Ordered.setPhase (h : Ordered c s) {p : Phase} (hp : PhaseOK c s p) :
    Ordered c (s.setPhase p) :=
  ⟨h.device, h.router, hp, h.done, h.sorted⟩

theorem improve_ok {best : Option Candidate} {index : Nat} (hi : index < c.searchNum)
    (h : ∀ b ∈ best, b.link < c.searchNum ∧ s.queue b.link = some b.packet) :
    ∀ b ∈ Candidate.improve best index (s.queue index),
      b.link < c.searchNum ∧ s.queue b.link = some b.packet := by
  cases hq : s.queue index with
  | none => exact h
  | some p =>
    simp only [Candidate.improve]
    split
    · rintro b ⟨⟩
      exact ⟨hi, hq⟩
    · exact h

/-- A neighbour whose published clock passes the router's test, and can be taken for its time, is
ahead of the packet. -/
theorem ahead_of_reached (h : Ordered c s) {best : Packet} {k : Nat}
    (hword : c.reached best.arrival (s.word k) = true) (hk : Vouched c s best k) :
    Ahead c s best.arrival k := by
  obtain ⟨⟨hqueue, hposted⟩, hwait⟩ := hk
  rw [Ahead, NoEarlier, bound]
  by_cases hkind : c.kind k = .router
  · rw [if_pos hkind, h.router k hkind]
    exact ⟨⟨fun p hp => Packet.arrival_le (hqueue p hp), nofun⟩, Config.reached_iff.mp hword⟩
  · rw [if_neg hkind]
    exact (h.device k hkind).ahead hword hqueue hposted hwait

/-- The packet that is processed is no earlier than those before it, and everybody is
ahead of it from now on. -/
theorem ordered_ready (h : Ordered c s) {best : Candidate} {deadline : Nat → Bool}
    (hp : PhaseOK c s (.ready best deadline)) (ht : ScanTrusted c s (.ready best deadline)) :
    Ordered c { (s.setQueue best.link none).setPhase (.empty 0) with
      processed := best.packet.arrival :: s.processed } := by
  obtain ⟨hlink, hq, hahead⟩ := hp
  obtain ⟨hothers, hrouter⟩ := ht
  have hless : ∀ {k x}, Ahead c s x k → Ahead c { (s.setQueue best.link none).setPhase (.empty 0)
      with processed := best.packet.arrival :: s.processed } x k := by
    rintro k x ⟨⟨hqk, hf⟩, hb⟩
    refine ⟨⟨?_, hf⟩, hb⟩
    by_cases hk : k = best.link
    · simp [hk]
    · simpa [hk] using hqk
  constructor
  case device =>
    intro k hk
    by_cases hkl : k = best.link
    · subst hkl
      simpa using (h.device best.link hk).take
    · simpa [hkl] using h.device k hk
  case router => exact h.router
  case phase => trivial
  case done =>
    intro x hx k hk
    rcases List.mem_cons.mp hx with rfl | hx
    · by_cases hkl : k = best.link
      · subst hkl
        refine ⟨⟨by simp, ?_⟩, ?_⟩
        · intro p hpf
          by_cases hkind : c.kind best.link = .router
          · have hrun := h.router best.link hkind
            simp [hrun, Neighbor.inFlight] at hpf
          · exact (h.device best.link hkind).order best.packet hq p hpf
        · by_cases hkind : c.kind best.link = .router
          · simpa [bound, hkind] using Config.reached_iff.mp (hrouter hkind)
          · have hle := UInt64.le_iff_toNat_le.mp
              ((h.device best.link hkind).queued best.packet hq)
            simp only [bound, hkind, if_false]
            exact hle.trans (Nat.le_add_right _ _)
      · cases hd : deadline k with
        | true => exact hless (hahead k hd)
        | false =>
          obtain ⟨hword, hvouched⟩ := hothers k hk hkl hd
          exact hless (ahead_of_reached h hword hvouched)
    · exact hless (h.done x hx k hk)
  case sorted =>
    refine .cons ?_ h.sorted
    intro x hx
    exact (h.done x hx best.link hlink).1.1 best.packet hq

theorem ordered_scan (h : Ordered c s) (ht : ScanTrusted c s s.phase) :
    Ordered c (scanStep c s) := by
  have hphase := h.phase
  unfold scanStep
  cases hp : s.phase with
  | empty index =>
    simp only
    split
    · split
      · exact h.setPhase nofun
      · exact h.setPhase trivial
    · exact h.setPhase trivial
  | find index best =>
    rw [hp] at hphase
    simp only
    split
    · rename_i hi
      exact h.setPhase (improve_ok hi hphase)
    · cases best with
      | none => exact h.setPhase trivial
      | some b =>
        obtain ⟨hlink, hq⟩ := hphase b rfl
        simp only
        split
        · exact h.setPhase ⟨hlink, hq, nofun⟩
        · exact h.setPhase ⟨hlink, hq, nofun⟩
  | look index best deadline count =>
    rw [hp] at hphase
    simp only
    split
    · rename_i hi
      cases hq : s.queue index with
      | none => exact h.setPhase hphase
      | some p =>
        simp only
        split
        · exact h.setPhase ⟨hi, hq, nofun⟩
        · exact h.setPhase hphase
    · split
      · exact h.setPhase hphase
      · exact h.setPhase hphase
  | clock index best deadline count =>
    rw [hp] at hphase ht
    simp only
    split
    · rename_i he
      obtain ⟨hlink, hq, hahead⟩ := hphase
      refine h.setPhase ⟨hlink, hq, ?_⟩
      intro k hk
      by_cases hki : k = index
      · subst hki
        have hword : c.reached best.packet.arrival (s.word k) = true := by
          simp only [exceeds, Bool.and_eq_true] at he
          exact he.2
        exact ahead_of_reached h hword (ht he)
      · exact hahead k (by simpa [hki] using hk)
    · exact h.setPhase hphase
  | ready best deadline =>
    rw [hp] at hphase ht
    exact ordered_ready h hphase ht

theorem ordered_step (h : Ordered c s) {a : Act} (ha : Trusted c s a) (ht : step c s a = some t) :
    Ordered c t := by
  simp only [step] at ht
  cases hq : a.queue? with
  | none =>
    simp only [hq] at ht
    cases a with
    | scan =>
      cases ht
      exact ordered_scan h ha
    | cpu | publish | send | sendFail | sendSync | sendPost | ack | recv | recvWait | recvWake
    | recvDone | sync | hand => cases hq
  | some k =>
    simp only [hq] at ht
    split at ht
    · split at ht
      · rename_i hkind
        exact ordered_router h hq hkind ha ht
      · rename_i hkind
        exact ordered_device h hq hkind ha ht
    · cases ht

/-- Two end devices and the coordinator's own device at its router. -/
def coordinator : Config where
  searchNum := 3
  kind k := if k = 2 then .own else .endDevice
  oneHop := 10

/-- Device 0 sends at 20 and device 1 at 50. The router counts one neighbour for each packet, and
the other one's clock is published before the packet is processed. -/
def patientRun : List Act :=
  List.flatten [
    [.cpu 2 200, .cpu 0 20, .cpu 1 50, .send 0 10, .sendSync 0, .send 1 10, .sendSync 1,
      .sendPost 1, .sendPost 0],
    List.replicate 12 .scan,
    [.publish 2],
    List.replicate 9 .scan,
    [.ack 0 70],
    List.replicate 6 .scan]

/-- Three end devices at a router. -/
def threeDevices : Config where
  searchNum := 3
  kind _ := .endDevice
  oneHop := 10

/-- Device 2 sends a packet to device 1, which waits in `m2m_recv` and finds it only after
the router has counted its clock for a packet of device 0. -/
def hastyRun : List Act :=
  List.flatten [
    [.cpu 1 1, .recv 1, .recvWait 1, .cpu 2 5, .send 2 10, .sendSync 2, .sendPost 2],
    List.replicate 15 .scan,
    [.ack 2 15, .cpu 0 100, .send 0 10, .sendSync 0, .sendPost 0],
    List.replicate 13 .scan,
    [.recvWake 1, .recvDone 1 25, .send 1 30, .sendSync 1, .sendPost 1],
    List.replicate 14 .scan]

end M2M.Network.Scan
