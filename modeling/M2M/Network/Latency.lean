import M2M.Network.Packet
import Mathlib.Algebra.Order.BigOperators.Group.List

/-! `transmission_latency`: what one hop costs, with the CSMA-CA loop in front of every
frame and the loop over unacknowledged frames. -/

namespace M2M.Network.Latency

def minBE : Nat := 2
def maxBE : Nat := 5
def maxCSMABackoffs : Nat := 4
def maxFrameRetries : Nat := 3
def ackWaitDuration : Nat := 864
def aUnitBackoffPeriod : Nat := 320
def ccaDetectionTime : Nat := 128
def headerSize : Nat := 43
def dataRate : Nat := 32

/-- `rand`, and whether `RandomHit` of a percentage returns 1. -/
structure Chance (σ : Type) where
  rand : σ → Nat × σ
  randomHit : Int → σ → Bool × σ

/-- `ChannelBusyRateCSMA * Percentage` and `ChannelBusyRateTx * Percentage` -/
structure BusyRates where
  csma : Int
  tx : Int

/-- One turn of the CSMA-CA loop: a record for the statements, the code keeps none. -/
structure Assessment where
  be : Nat
  backofftime : Nat
  csmaFail : Bool
  deriving DecidableEq

/-- One turn of the outer loop; a frame is only sent when the channel was clear. -/
structure Frame where
  assessments : List Assessment
  ackFail : Option Bool
  deriving DecidableEq

/-- The two counters of `GlobalVND` that the function updates. -/
structure Books where
  totalPacketTransTimes : UInt64
  totalPacketLossTimes : UInt64
  deriving DecidableEq

/-- How the CSMA-CA loop ends: `cdma_ca_success` is 1 or -1. -/
structure Csma (σ : Type) where
  success : Bool
  total : UInt64
  assessments : List Assessment
  rng : σ

def Csma.after (m : Csma σ) (a : Assessment) : Csma σ :=
  { m with assessments := a :: m.assessments }

/-- `rand()%tmpBE` and `RandomHit(ChannelBusyRateCSMA * Percentage)` -/
def Chance.assess (c : Chance σ) (rate : Int) (be : Nat) (s : σ) : Assessment × σ :=
  let (r, s) := c.rand s
  let (csmaFail, s) := c.randomHit rate s
  (⟨be, r % 2 ^ be, csmaFail⟩, s)

def csmaLoop (c : Chance σ) (rate : Int) : Nat → Nat → Nat → UInt64 → σ → Option (Csma σ)
  | 0, _, _, _, _ => none
  | fuel + 1, be, nbCsma, total, s =>
    let (a, s) := c.assess rate be s
    let total := total + .ofNat (a.backofftime * aUnitBackoffPeriod)
    let total := total + .ofNat ccaDetectionTime
    if a.csmaFail then
      let be := if be < maxBE then be + 1 else be
      if nbCsma = maxCSMABackoffs then some ⟨false, total, [a], s⟩
      else (csmaLoop c rate fuel be (nbCsma + 1) total s).map (·.after a)
    else some ⟨true, total, [a], s⟩

/-- How the outer loop ends. -/
structure Sent (σ : Type) where
  success : Bool
  total : UInt64
  frames : List Frame
  rng : σ

def Sent.after (m : Sent σ) (f : Frame) : Sent σ := { m with frames := f :: m.frames }

def frameLoop (c : Chance σ) (rates : BusyRates) (packetSize : UInt32) :
    Nat → Nat → UInt64 → σ → Option (Sent σ)
  | 0, _, _, _ => none
  | fuel + 1, nbAck, total, s =>
    (csmaLoop c rates.csma (fuel + 1) minBE 0 total s).bind fun m =>
      if m.success then
        let total := m.total + ((packetSize + .ofNat headerSize) * .ofNat dataRate).toUInt64
        let total := total + .ofNat ackWaitDuration
        let (ackFail, s) := c.randomHit rates.tx m.rng
        let f : Frame := ⟨m.assessments, some ackFail⟩
        if ackFail then
          if nbAck = maxFrameRetries then some ⟨false, total, [f], s⟩
          else (frameLoop c rates packetSize fuel (nbAck + 1) total s).map (·.after f)
        else some ⟨true, total, [f], s⟩
      else some ⟨false, m.total, [⟨m.assessments, none⟩], m.rng⟩

/-- `(uint64_t)(TotalTransTimeus * 1000.0)`: exact, the product stays far below `2 ^ 53`. -/
def nanoseconds (us : UInt64) : UInt64 := us * 1000

structure Result (σ : Type) where
  latency : UInt64
  failLatency : UInt64
  books : Books
  frames : List Frame
  rng : σ

/-- `failLatency` is what `*fail_latency` holds before. -/
def transmissionLatency (c : Chance σ) (rates : BusyRates) (msgInfo : HQe) (networktype : String)
    (fuel : Nat) (books : Books) (failLatency : UInt64) (s : σ) : Option (Result σ) :=
  let books := { books with totalPacketTransTimes := books.totalPacketTransTimes + 1 }
  if networktype = "zigbee" then
    (frameLoop c rates msgInfo.packetSize fuel 0 0 s).map fun m =>
      if m.success then ⟨nanoseconds m.total, failLatency, books, m.frames, m.rng⟩
      else
        let books := { books with totalPacketLossTimes := books.totalPacketLossTimes + 1 }
        ⟨0, nanoseconds m.total, books, m.frames, m.rng⟩
  else some ⟨nanoseconds 0, failLatency, books, [], s⟩

def Frame.Exhausted (f : Frame) : Prop :=
  f.assessments.length = maxCSMABackoffs + 1 ∧ ∀ a ∈ f.assessments, a.csmaFail = true

def Frame.Unacknowledged (f : Frame) : Prop := f.ackFail = some true

/-- One frame exhausted its channel assessments, or all frames were unacknowledged. -/
def Failed (frames : List Frame) : Prop :=
  (∃ f ∈ frames, f.Exhausted) ∨
    (frames.length = maxFrameRetries + 1 ∧ ∀ f ∈ frames, f.Unacknowledged)

instance (f : Frame) : Decidable f.Exhausted := inferInstanceAs (Decidable (_ ∧ _))

instance (f : Frame) : Decidable f.Unacknowledged := inferInstanceAs (Decidable (_ = _))

instance (frames : List Frame) : Decidable (Failed frames) := inferInstanceAs (Decidable (_ ∨ _))

def Assessment.time (a : Assessment) : Nat :=
  a.backofftime * aUnitBackoffPeriod + ccaDetectionTime

def waited (as : List Assessment) : Nat := (as.map Assessment.time).sum

def airtime (packetSize : UInt32) : Nat :=
  (packetSize.toNat + headerSize) * dataRate + ackWaitDuration

def Frame.time (packetSize : UInt32) (f : Frame) : Nat :=
  waited f.assessments + if f.ackFail.isSome then airtime packetSize else 0

def busyTime (packetSize : UInt32) (fs : List Frame) : Nat :=
  (fs.map (Frame.time packetSize)).sum

/-- The longest that `n` assessments take when the first backs off with exponent `be`. -/
def longest : Nat → Nat → Nat
  | 0, _ => 0
  | n + 1, be =>
    ((2 ^ be - 1) * aUnitBackoffPeriod + ccaDetectionTime) +
      longest n (if be < maxBE then be + 1 else be)

@[simp] theorem waited_nil : waited [] = 0 := rfl

@[simp] theorem waited_cons (a : Assessment) (as : List Assessment) :
    waited (a :: as) = a.time + waited as := by
  simp [waited]

@[simp] theorem busyTime_nil (packetSize : UInt32) : busyTime packetSize [] = 0 := rfl

@[simp] theorem busyTime_cons (packetSize : UInt32) (f : Frame) (fs : List Frame) :
    busyTime packetSize (f :: fs) = f.time packetSize + busyTime packetSize fs := by
  simp [busyTime]

theorem waited_pos {as : List Assessment} (h : as ≠ []) : ccaDetectionTime ≤ waited as := by
  cases as with
  | nil => exact absurd rfl h
  | cons a as =>
    simp only [waited_cons, Assessment.time]
    omega

theorem Assessment.time_add (a : Assessment) (total : UInt64) :
    total + .ofNat (a.backofftime * aUnitBackoffPeriod) + .ofNat ccaDetectionTime =
      total + .ofNat a.time := by
  rw [UInt64.add_assoc, ← UInt64.ofNat_add, Assessment.time]

theorem Chance.assess_time_le (c : Chance σ) (rate : Int) (be : Nat) (s : σ) :
    (c.assess rate be s).1.time ≤ (2 ^ be - 1) * aUnitBackoffPeriod + ccaDetectionTime := by
  have hlt : (c.assess rate be s).1.backofftime < 2 ^ be := Nat.mod_lt _ (Nat.two_pow_pos be)
  simp only [Assessment.time, aUnitBackoffPeriod, ccaDetectionTime]
  omega

/-- What the CSMA-CA loop has done that was entered with `n + 1` assessments left. -/
structure CsmaLaw (n be : Nat) (total : UInt64) (m : Csma σ) : Prop where
  total_eq : m.total = total + .ofNat (waited m.assessments)
  length_le : m.assessments.length ≤ n + 1
  ne_nil : m.assessments ≠ []
  be_mem : ∀ a ∈ m.assessments, minBE ≤ a.be ∧ a.be ≤ maxBE
  waited_le : waited m.assessments ≤ longest (n + 1) be
  success_iff : m.success = false ↔
    m.assessments.length = n + 1 ∧ ∀ a ∈ m.assessments, a.csmaFail = true

/-- The loop ends with its first assessment, because the channel is clear or because it
was the last one. -/
theorem CsmaLaw.single {n be : Nat} {total : UInt64} {a : Assessment} (hbe : a.be = be)
    (hmin : minBE ≤ be) (hmax : be ≤ maxBE)
    (htime : a.time ≤ (2 ^ be - 1) * aUnitBackoffPeriod + ccaDetectionTime)
    (hend : a.csmaFail = true → n = 0) (s : σ) :
    CsmaLaw n be total ⟨!a.csmaFail, total + .ofNat a.time, [a], s⟩ where
  total_eq := by simp
  length_le := by simp
  ne_nil := by simp
  be_mem := by simp [hbe, hmin, hmax]
  waited_le := by
    simp only [waited_cons, waited_nil, longest]
    omega
  success_iff := by
    simp only [Bool.not_eq_false', List.length_singleton, List.mem_singleton, forall_eq]
    exact ⟨fun h => ⟨by simp [hend h], h⟩, fun h => h.2⟩

theorem CsmaLaw.after {n be : Nat} {total : UInt64} {a : Assessment} {m : Csma σ}
    (hbe : a.be = be) (hmin : minBE ≤ be) (hmax : be ≤ maxBE)
    (htime : a.time ≤ (2 ^ be - 1) * aUnitBackoffPeriod + ccaDetectionTime)
    (hbusy : a.csmaFail = true)
    (hm : CsmaLaw n (if be < maxBE then be + 1 else be) (total + .ofNat a.time) m) :
    CsmaLaw (n + 1) be total (m.after a) where
  total_eq := by
    simp only [Csma.after, waited_cons, hm.total_eq, UInt64.ofNat_add]
    rw [UInt64.add_assoc]
  length_le := by simpa [Csma.after] using hm.length_le
  ne_nil := by simp [Csma.after]
  be_mem := by
    simp only [Csma.after, List.forall_mem_cons, hbe]
    exact ⟨⟨hmin, hmax⟩, hm.be_mem⟩
  waited_le := by
    have hrest := hm.waited_le
    simp only [Csma.after, waited_cons]
    rw [longest]
    omega
  success_iff := by
    simp only [Csma.after, List.length_cons, List.forall_mem_cons, hbusy, true_and,
      Nat.add_right_cancel_iff]
    exact hm.success_iff

theorem csmaLoop_succ (c : Chance σ) (rate : Int) (fuel be nbCsma : Nat) (total : UInt64) (s : σ) :
    csmaLoop c rate (fuel + 1) be nbCsma total s =
      let (a, s) := c.assess rate be s
      if a.csmaFail = true then
        if nbCsma = maxCSMABackoffs then some ⟨false, total + .ofNat a.time, [a], s⟩
        else (csmaLoop c rate fuel (if be < maxBE then be + 1 else be) (nbCsma + 1)
          (total + .ofNat a.time) s).map (·.after a)
      else some ⟨true, total + .ofNat a.time, [a], s⟩ := by
  simp only [csmaLoop, Assessment.time_add]

theorem csmaLoop_law (c : Chance σ) (rate : Int) (n : Nat) : ∀ (be nbCsma : Nat) (total : UInt64)
    (s : σ), minBE ≤ be → be ≤ maxBE → nbCsma + n = maxCSMABackoffs →
    ∃ m, (∀ fuel, csmaLoop c rate (fuel + n + 1) be nbCsma total s = some m) ∧
      CsmaLaw n be total m := by
  induction n with
  | zero =>
    intro be nbCsma total s hmin hmax hnb
    have htime := c.assess_time_le rate be s
    refine ⟨_, fun fuel => ?_, .single (a := (c.assess rate be s).1) rfl hmin hmax htime
      (fun _ => rfl) (c.assess rate be s).2⟩
    have hlast : nbCsma = maxCSMABackoffs := hnb
    rw [csmaLoop_succ]
    cases h : (c.assess rate be s).1.csmaFail <;> simp [hlast, h]
  | succ n ih =>
    intro be nbCsma total s hmin hmax hnb
    have htime := c.assess_time_le rate be s
    cases h : (c.assess rate be s).1.csmaFail with
    | false =>
      refine ⟨_, fun fuel => ?_, .single (a := (c.assess rate be s).1) rfl hmin hmax htime
        (fun hfail => by simp [h] at hfail) (c.assess rate be s).2⟩
      rw [csmaLoop_succ]
      simp [h]
    | true =>
      have hmore : nbCsma ≠ maxCSMABackoffs := by omega
      have hbe : minBE ≤ (if be < maxBE then be + 1 else be) ∧
          (if be < maxBE then be + 1 else be) ≤ maxBE := by
        split <;> omega
      obtain ⟨m, hrun, hm⟩ := ih _ (nbCsma + 1) (total + .ofNat (c.assess rate be s).1.time)
        (c.assess rate be s).2 hbe.1 hbe.2 (by omega)
      refine ⟨_, fun fuel => ?_, hm.after (a := (c.assess rate be s).1) rfl hmin hmax htime h⟩
      rw [csmaLoop_succ]
      simp only [h, hmore, if_true, if_false]
      rw [show fuel + (n + 1) = fuel + n + 1 by omega, hrun]
      rfl

/-- A frame as the loop leaves it: it was sent unless the channel was never clear. -/
structure Frame.Law (f : Frame) : Prop where
  length_le : f.assessments.length ≤ maxCSMABackoffs + 1
  ne_nil : f.assessments ≠ []
  be_mem : ∀ a ∈ f.assessments, minBE ≤ a.be ∧ a.be ≤ maxBE
  waited_le : waited f.assessments ≤ longest (maxCSMABackoffs + 1) minBE
  exhausted_iff : f.Exhausted ↔ f.ackFail = none

theorem CsmaLaw.frame {total : UInt64} {m : Csma σ} (h : CsmaLaw maxCSMABackoffs minBE total m)
    (ackFail : Option Bool) (hack : m.success = ackFail.isSome) :
    Frame.Law ⟨m.assessments, ackFail⟩ where
  length_le := h.length_le
  ne_nil := h.ne_nil
  be_mem := h.be_mem
  waited_le := h.waited_le
  exhausted_iff := by
    have hnone : m.success = false ↔ ackFail = none := by
      rw [hack]
      simp
    exact h.success_iff.symm.trans hnone

/-- What the outer loop has done that was entered with `n + 1` frames left. -/
structure SentLaw (packetSize : UInt32) (n : Nat) (total : UInt64) (m : Sent σ) : Prop where
  total_eq : m.total = total + .ofNat (busyTime packetSize m.frames)
  length_le : m.frames.length ≤ n + 1
  law : ∀ f ∈ m.frames, f.Law
  ne_nil : m.frames ≠ []
  sent : m.success = true → ∃ f ∈ m.frames, f.ackFail.isSome = true
  success_iff : m.success = false ↔ (∃ f ∈ m.frames, f.Exhausted) ∨
    (m.frames.length = n + 1 ∧ ∀ f ∈ m.frames, f.Unacknowledged)

theorem SentLaw.single {packetSize : UInt32} {n : Nat} {total : UInt64} {f : Frame} (hf : f.Law)
    (hend : f.Unacknowledged → n = 0) (s : σ) :
    SentLaw packetSize n total
      ⟨f.ackFail == some false, total + .ofNat (f.time packetSize), [f], s⟩ where
  total_eq := by simp
  length_le := by simp
  law := by simpa using hf
  ne_nil := by simp
  sent := by
    intro h
    have hack : f.ackFail = some false := by simpa using h
    exact ⟨f, by simp, by simp [hack]⟩
  success_iff := by
    simp only [List.mem_singleton, exists_eq_left, forall_eq, List.length_singleton,
      hf.exhausted_iff]
    rcases hack : f.ackFail with _ | _ | _
    · simp
    · simp [Frame.Unacknowledged, hack]
    · simp [Frame.Unacknowledged, hack, hend hack]

theorem SentLaw.after {packetSize : UInt32} {n : Nat} {total : UInt64} {f : Frame} {m : Sent σ}
    (hf : f.Law) (hack : f.Unacknowledged)
    (hm : SentLaw packetSize n (total + .ofNat (f.time packetSize)) m) :
    SentLaw packetSize (n + 1) total (m.after f) where
  total_eq := by
    simp only [Sent.after, busyTime_cons, hm.total_eq, UInt64.ofNat_add]
    rw [UInt64.add_assoc]
  length_le := by simpa [Sent.after] using hm.length_le
  law := by
    simp only [Sent.after, List.forall_mem_cons]
    exact ⟨hf, hm.law⟩
  ne_nil := by simp [Sent.after]
  sent := by
    intro _
    exact ⟨f, by simp [Sent.after], by simp [show f.ackFail = some true from hack]⟩
  success_iff := by
    have hnot : ¬ f.Exhausted := by
      rw [hf.exhausted_iff, show f.ackFail = some true from hack]
      simp
    simp only [Sent.after, List.mem_cons, exists_eq_or_imp, forall_eq_or_imp, List.length_cons,
      hnot, hack, false_or, true_and, Nat.add_right_cancel_iff]
    exact hm.success_iff

theorem airtime_add {packetSize : UInt32} (hp : packetSize ≤ 128) (total : UInt64) :
    total + ((packetSize + .ofNat headerSize) * .ofNat dataRate).toUInt64 +
      .ofNat ackWaitDuration = total + .ofNat (airtime packetSize) := by
  have hp : packetSize.toNat ≤ 128 := by simpa [UInt32.le_iff_toNat_le] using hp
  have hbytes : ((packetSize + .ofNat headerSize) * .ofNat dataRate).toUInt64 =
      UInt64.ofNat ((packetSize.toNat + headerSize) * dataRate) := by
    apply UInt64.toNat_inj.1
    simp only [UInt32.toNat_toUInt64, UInt32.toNat_mul, UInt32.toNat_add, UInt32.toNat_ofNat',
      UInt64.toNat_ofNat', headerSize, dataRate]
    omega
  rw [hbytes, UInt64.add_assoc, ← UInt64.ofNat_add, airtime]

def sentFrame (c : Chance σ) (rates : BusyRates) (m : Csma σ) : Frame :=
  ⟨m.assessments, some (c.randomHit rates.tx m.rng).1⟩

theorem frameLoop_succ {c : Chance σ} {rates : BusyRates} {packetSize : UInt32}
    (hp : packetSize ≤ 128) {fuel nbAck : Nat} {total : UInt64} {s : σ} {m : Csma σ}
    (hrun : csmaLoop c rates.csma (fuel + 1) minBE 0 total s = some m) {n : Nat} {be : Nat}
    (hm : CsmaLaw n be total m) :
    frameLoop c rates packetSize (fuel + 1) nbAck total s =
      if m.success = true then
        let f := sentFrame c rates m
        let s := (c.randomHit rates.tx m.rng).2
        if (c.randomHit rates.tx m.rng).1 = true then
          if nbAck = maxFrameRetries then
            some ⟨false, total + .ofNat (f.time packetSize), [f], s⟩
          else (frameLoop c rates packetSize fuel (nbAck + 1)
            (total + .ofNat (f.time packetSize)) s).map (·.after f)
        else some ⟨true, total + .ofNat (f.time packetSize), [f], s⟩
      else
        let f : Frame := ⟨m.assessments, none⟩
        some ⟨false, total + .ofNat (f.time packetSize), [f], m.rng⟩ := by
  have htime : m.total + ((packetSize + .ofNat headerSize) * .ofNat dataRate).toUInt64 +
      .ofNat ackWaitDuration = total + .ofNat ((sentFrame c rates m).time packetSize) := by
    rw [airtime_add hp, hm.total_eq, UInt64.add_assoc, ← UInt64.ofNat_add]
    simp [Frame.time, sentFrame]
  rw [frameLoop, hrun]
  simp only [Option.bind_some, htime]
  simp only [hm.total_eq, Frame.time, Option.isSome_none, sentFrame]
  rfl

theorem frameLoop_law (c : Chance σ) (rates : BusyRates) {packetSize : UInt32}
    (hp : packetSize ≤ 128) (n : Nat) : ∀ (nbAck : Nat) (total : UInt64) (s : σ),
    nbAck + n = maxFrameRetries →
    ∃ m, (∀ fuel, frameLoop c rates packetSize (fuel + n + maxCSMABackoffs + 1) nbAck total s =
      some m) ∧ SentLaw packetSize n total m := by
  induction n with
  | zero =>
    intro nbAck total s hnb
    have hlast : nbAck = maxFrameRetries := hnb
    obtain ⟨m, hrun, hm⟩ := csmaLoop_law c rates.csma maxCSMABackoffs minBE 0 total s
      (le_refl _) (by decide) (by simp)
    cases hsuccess : m.success with
    | false =>
      refine ⟨_, fun fuel => ?_, .single (f := ⟨m.assessments, none⟩)
        (hm.frame none (by simp [hsuccess])) (fun _ => rfl) m.rng⟩
      rw [frameLoop_succ hp (hrun _) hm]
      simp [hsuccess]
    | true =>
      refine ⟨_, fun fuel => ?_, .single (f := sentFrame c rates m)
        (hm.frame _ (by simp [hsuccess])) (fun _ => rfl) (c.randomHit rates.tx m.rng).2⟩
      rw [frameLoop_succ hp (hrun _) hm]
      cases h : (c.randomHit rates.tx m.rng).1 <;> simp [hsuccess, hlast, h, sentFrame]
  | succ n ih =>
    intro nbAck total s hnb
    have hmore : nbAck ≠ maxFrameRetries := by omega
    obtain ⟨m, hrun, hm⟩ := csmaLoop_law c rates.csma maxCSMABackoffs minBE 0 total s
      (le_refl _) (by decide) (by simp)
    cases hsuccess : m.success with
    | false =>
      refine ⟨_, fun fuel => ?_, .single (f := ⟨m.assessments, none⟩)
        (hm.frame none (by simp [hsuccess])) (fun h => by simp [Frame.Unacknowledged] at h) m.rng⟩
      rw [frameLoop_succ hp (hrun _) hm]
      simp [hsuccess]
    | true =>
      have hf : (sentFrame c rates m).Law := hm.frame _ (by simp [hsuccess])
      cases h : (c.randomHit rates.tx m.rng).1 with
      | false =>
        refine ⟨_, fun fuel => ?_, .single hf
          (fun hack => by simp [Frame.Unacknowledged, sentFrame, h] at hack)
          (c.randomHit rates.tx m.rng).2⟩
        rw [frameLoop_succ hp (hrun _) hm]
        simp [hsuccess, h, sentFrame]
      | true =>
        have hack : (sentFrame c rates m).Unacknowledged := by
          simp [Frame.Unacknowledged, sentFrame, h]
        obtain ⟨rest, hnext, hrest⟩ := ih (nbAck + 1)
          (total + .ofNat ((sentFrame c rates m).time packetSize))
          (c.randomHit rates.tx m.rng).2 (by omega)
        refine ⟨_, fun fuel => ?_, hrest.after hf hack⟩
        rw [frameLoop_succ hp (hrun (fuel + (n + 1))) hm]
        simp only [hsuccess, h, hmore, if_true, if_false]
        rw [show fuel + (n + 1) + maxCSMABackoffs = fuel + n + maxCSMABackoffs + 1 by omega, hnext]
        rfl

theorem Frame.Law.time_le {f : Frame} (h : f.Law) (packetSize : UInt32) :
    f.time packetSize ≤ airtime packetSize + 87 * aUnitBackoffPeriod + 5 * ccaDetectionTime := by
  have hwaited := h.waited_le
  rw [show longest (maxCSMABackoffs + 1) minBE =
    87 * aUnitBackoffPeriod + 5 * ccaDetectionTime from rfl] at hwaited
  rw [Frame.time]
  split <;> omega

theorem busyTime_le {packetSize : UInt32} {fs : List Frame} (h : ∀ f ∈ fs, f.Law) :
    busyTime packetSize fs ≤ fs.length *
      (airtime packetSize + 87 * aUnitBackoffPeriod + 5 * ccaDetectionTime) := by
  induction fs with
  | nil => simp
  | cons f fs ih =>
    have hf := (h f List.mem_cons_self).time_le packetSize
    have hrest := ih fun g hg => h g (List.mem_cons_of_mem f hg)
    rw [busyTime_cons, List.length_cons, Nat.add_one_mul]
    omega

theorem le_busyTime (packetSize : UInt32) {fs : List Frame} {f : Frame} (hf : f ∈ fs) :
    f.time packetSize ≤ busyTime packetSize fs :=
  List.single_le_sum (fun _ _ => Nat.zero_le _) _ (List.mem_map_of_mem hf)

theorem SentLaw.busyTime_le {packetSize : UInt32} {total : UInt64} {m : Sent σ}
    (h : SentLaw packetSize maxFrameRetries total m) :
    busyTime packetSize m.frames ≤
      4 * (airtime packetSize + 87 * aUnitBackoffPeriod + 5 * ccaDetectionTime) :=
  (Latency.busyTime_le h.law).trans (Nat.mul_le_mul_right _ h.length_le)

theorem SentLaw.le_busyTime {packetSize : UInt32} {n : Nat} {total : UInt64} {m : Sent σ}
    (h : SentLaw packetSize n total m) : ccaDetectionTime ≤ busyTime packetSize m.frames := by
  obtain ⟨f, hf⟩ := List.exists_mem_of_ne_nil _ h.ne_nil
  have hwaited := waited_pos (h.law f hf).ne_nil
  have hframe := Latency.le_busyTime packetSize hf
  rw [Frame.time] at hframe
  omega

theorem SentLaw.le_busyTime_of_success {packetSize : UInt32} {n : Nat} {total : UInt64}
    {m : Sent σ} (h : SentLaw packetSize n total m) (hsuccess : m.success = true) :
    airtime packetSize + ccaDetectionTime ≤ busyTime packetSize m.frames := by
  obtain ⟨f, hf, hsent⟩ := h.sent hsuccess
  have hwaited := waited_pos (h.law f hf).ne_nil
  have hframe := Latency.le_busyTime packetSize hf
  rw [Frame.time, if_pos hsent] at hframe
  omega

theorem toNat_nanoseconds {us : Nat} (h : us < 2 ^ 53) :
    (nanoseconds (.ofNat us)).toNat = 1000 * us := by
  have hus : us % 2 ^ 64 = us := Nat.mod_eq_of_lt (by omega)
  rw [nanoseconds, UInt64.toNat_mul, UInt64.toNat_ofNat', hus, UInt64.toNat_ofNat,
    show 1000 % 2 ^ 64 = 1000 from rfl]
  omega

theorem airtime_le {packetSize : UInt32} (hp : packetSize ≤ 128) : airtime packetSize ≤ 6336 := by
  have hp : packetSize.toNat ≤ 128 := by simpa [UInt32.le_iff_toNat_le] using hp
  simp only [airtime, headerSize, dataRate, ackWaitDuration]
  omega

/-- The retry loops stop, after at most five assessments for each of at most four frames;
the call fails exactly when a frame exhausts its assessments or no frame is acknowledged;
and a success takes at least one clear frame and at most four of the slowest. -/
theorem transmissionLatency_bounds (c : Chance σ) (rates : BusyRates) (msgInfo : HQe)
    (hp : msgInfo.packetSize ≤ 128) (books : Books) (failLatency : UInt64) (s : σ) :
    ∃ r, (∀ fuel, transmissionLatency c rates msgInfo "zigbee" (fuel + 8) books failLatency s =
        some r) ∧
      (r.frames.map (·.assessments.length)).sum ≤
        (maxFrameRetries + 1) * (maxCSMABackoffs + 1) ∧
      (∀ f ∈ r.frames, ∀ a ∈ f.assessments, minBE ≤ a.be ∧ a.be ≤ maxBE) ∧
      (r.latency = 0 ↔ Failed r.frames) ∧
      (Failed r.frames → 0 < r.failLatency ∧
        r.books.totalPacketLossTimes = books.totalPacketLossTimes + 1) ∧
      (¬ Failed r.frames → r.failLatency = failLatency ∧
        r.books.totalPacketLossTimes = books.totalPacketLossTimes ∧
        1000 * ((msgInfo.packetSize.toNat + 43) * 32 + 864 + 128) ≤ r.latency.toNat ∧
        r.latency.toNat ≤
          1000 * 4 * ((msgInfo.packetSize.toNat + 43) * 32 + 864 + 87 * 320 + 5 * 128)) ∧
      r.books.totalPacketTransTimes = books.totalPacketTransTimes + 1 := by
  obtain ⟨m, hrun, hm⟩ := frameLoop_law c rates hp maxFrameRetries 0 0 s (Nat.zero_add _)
  have hrun : ∀ fuel, frameLoop c rates msgInfo.packetSize (fuel + 8) 0 0 s = some m := hrun
  have htotal : m.total = .ofNat (busyTime msgInfo.packetSize m.frames) := by
    simpa using hm.total_eq
  have hair := airtime_le hp
  have hlow := hm.le_busyTime
  have hhigh := hm.busyTime_le
  have hcount : (m.frames.map (·.assessments.length)).sum ≤ m.frames.length • 5 := by
    rw [← List.length_map (·.assessments.length)]
    refine List.sum_le_card_nsmul _ _ fun k hk => ?_
    obtain ⟨f, hf, rfl⟩ := List.mem_map.1 hk
    exact (hm.law f hf).length_le
  have hns : (nanoseconds m.total).toNat = 1000 * busyTime msgInfo.packetSize m.frames := by
    rw [htotal]
    apply toNat_nanoseconds
    simp only [aUnitBackoffPeriod, ccaDetectionTime] at hhigh
    omega
  have hpos : 0 < nanoseconds m.total := by
    rw [UInt64.lt_iff_toNat_lt, hns]
    simp only [ccaDetectionTime] at hlow
    simp only [UInt64.toNat_zero]
    omega
  have hloss : m.success = false ↔ Failed m.frames := hm.success_iff
  cases hsuccess : m.success with
  | false =>
    have hfailed := hloss.1 hsuccess
    refine ⟨⟨0, nanoseconds m.total, ⟨books.totalPacketTransTimes + 1,
      books.totalPacketLossTimes + 1⟩, m.frames, m.rng⟩, fun fuel => ?_, ?_⟩
    · simp [transmissionLatency, hrun, hsuccess]
    · refine ⟨hcount.trans (Nat.mul_le_mul_right 5 hm.length_le), fun f hf => (hm.law f hf).be_mem,
        by simpa using hfailed, fun _ => ⟨hpos, rfl⟩, fun h => absurd hfailed h, rfl⟩
  | true =>
    have hfailed : ¬ Failed m.frames := by simp [← hloss, hsuccess]
    have hsent := hm.le_busyTime_of_success hsuccess
    have hne : nanoseconds m.total ≠ 0 := (UInt64.ne_of_lt hpos).symm
    refine ⟨⟨nanoseconds m.total, failLatency, ⟨books.totalPacketTransTimes + 1,
      books.totalPacketLossTimes⟩, m.frames, m.rng⟩, fun fuel => ?_, ?_⟩
    · simp [transmissionLatency, hrun, hsuccess]
    · refine ⟨hcount.trans (Nat.mul_le_mul_right 5 hm.length_le), fun f hf => (hm.law f hf).be_mem,
        by simpa [hfailed] using hne, fun h => absurd h hfailed, fun _ => ⟨rfl, rfl, ?_⟩, rfl⟩
      simp only [hns]
      simp only [airtime, headerSize, dataRate, ackWaitDuration, aUnitBackoffPeriod,
        ccaDetectionTime] at hsent hhigh
      omega

/-- A channel that is busy at every assessment but the last of the first frame. -/
def busyOnce : Chance Nat where
  rand n := (7 * n + 3, n)
  randomHit _ n := (n != 4, n + 1)

def probe : HQe := ⟨0, 128, 1, 2, 1, -1, 0, 0⟩

theorem transmissionLatency_bounds_busyOnce :
    ∃ r, (∀ fuel, transmissionLatency busyOnce ⟨0, 0⟩ probe "zigbee" (fuel + 8) ⟨0, 0⟩ 0 0 =
        some r) ∧
      (r.frames.map (·.assessments.length)).sum ≤
        (maxFrameRetries + 1) * (maxCSMABackoffs + 1) ∧
      (∀ f ∈ r.frames, ∀ a ∈ f.assessments, minBE ≤ a.be ∧ a.be ≤ maxBE) ∧
      (r.latency = 0 ↔ Failed r.frames) ∧
      (Failed r.frames → 0 < r.failLatency ∧ r.books.totalPacketLossTimes = 0 + 1) ∧
      (¬ Failed r.frames → r.failLatency = 0 ∧ r.books.totalPacketLossTimes = 0 ∧
        1000 * ((probe.packetSize.toNat + 43) * 32 + 864 + 128) ≤ r.latency.toNat ∧
        r.latency.toNat ≤
          1000 * 4 * ((probe.packetSize.toNat + 43) * 32 + 864 + 87 * 320 + 5 * 128)) ∧
      r.books.totalPacketTransTimes = 0 + 1 :=
  transmissionLatency_bounds busyOnce ⟨0, 0⟩ probe (by decide) ⟨0, 0⟩ 0 0

/-- The first frame is sent at the fifth assessment and lost; the next is never sent. -/
example : (transmissionLatency busyOnce ⟨0, 0⟩ probe "zigbee" 8 ⟨0, 0⟩ 0 0).map
    (fun r => (r.latency, r.frames.map (·.assessments.length), r.books)) =
      some (0, [5, 5], ⟨1, 1⟩) := by
  decide +kernel

end M2M.Network.Latency
