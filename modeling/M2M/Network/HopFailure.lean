import M2M.Network.DeliveryRun
import M2M.Network.Latency

/-! A transmission that fails at a router on the way: what the router does with the packet
and its clock, and what the sender hears. -/

namespace M2M.Network.Delivery

open M2M.Lib

/-- The router of `b`, which is neither sender nor receiver, takes the packet of a waiting
sender.  `transmission_latency` returns 0, and `failAddr` is the address of
`fail_latency`. -/
structure Failing (net : Net) (s : State) (b : UInt32) (q : Queue) (next : UInt32)
    (failAddr : UInt64) (s₁ s₂ : State) : Prop where
  notSelf : (s.queue q).head.header.receiverID ≠ b
  forwarding : (s.queue q).head.header.senderID ≠ b
  hop : next ≠ b
  found : (net.target b next).isSome
  waits : s.sender (s.queue q).head.header.senderID = .wait (s.queue q).head.call
  take : step net s (.take b q next 0 failAddr) = some s₁
  release : step net s₁ (.route b) = some s₂

/-- `router_localtime` once it has caught up with the packet's `SendTime`. -/
def raised (s : State) (b : UInt32) (h : HQe) : UInt64 :=
  if s.localtime b < h.sendTime then h.sendTime else s.localtime b

/-- The header that `transmission_latency` is given. -/
def rewritten (s : State) (b : UInt32) (h : HQe) : HQe :=
  { h with forwardID := b, sendTime := raised s b h + h.transTime }

/-- As long as nobody else writes its control flag, the next access of the sender ends its
`m2m_send` with `M2M_TRANS_FAIL`. -/
def SenderFails (net : Net) (s : State) (d : UInt32) (n : Nat) : Prop :=
  ∀ t, t.sender d = .wait n → t.conflag d = s.conflag d →
    ∃ t', step net t (.send d) = some t' ∧ t'.result n = some .transFail

/-- The packet, and nothing else, leaves its queue; no queue and no receiver gets anything;
the sender is told, and both times are later by the failure latency. -/
structure FailsCleanly (net : Net) (s : State) (b : UInt32) (q : Queue) (failLatency : UInt64)
    (s₁ s₂ : State) : Prop where
  removed : s₂.queue q = ((s.queue q).setHeader (s.queue q).consumer
    ⟨(s.queue q).head.call,
      { rewritten s b (s.queue q).head.header with transTime := 0 }⟩).release
  untouched : ∀ q', q' ≠ q → s₂.queue q' = s.queue q'
  placed : s₂.placed = s.placed
  dataflag : (s₂.conflag (s.queue q).head.header.senderID).dataflag = 44
  transtime : (s₂.conflag (s.queue q).head.header.senderID).transtime =
    (rewritten s b (s.queue q).head.header).sendTime + failLatency
  localtime : s₂.localtime b = raised s b (s.queue q).head.header + failLatency
  sender : SenderFails net s₁ (s.queue q).head.header.senderID (s.queue q).head.call

variable {net : Net} {s s₁ s₂ : State} {b : UInt32} {q : Queue} {next : UInt32}
  {failAddr : UInt64}

theorem processPacket_failing (abi : Abi) (nodeType : UInt32 → DeviceType) (s : State)
    (failAddr : UInt64) {h : HQe} (hnext : next ≠ b) (hs : h.senderID ≠ b) :
    processPacket abi nodeType ⟨b, s.localtime b, 0, failAddr⟩ next h =
      { localtime := abi.addrPlus failAddr (raised s b h)
        packet := { rewritten s b h with transTime := 0 }
        ack := some ⟨h.senderID, abi.addrPlus failAddr (rewritten s b h).sendTime, 44⟩
        transfail := true } := by
  simp [processPacket, hnext, forward, hs, raised, rewritten]

/-- The failing packet's header is rewritten, its sender signalled, and the router is left
with the entry to give back. -/
theorem Failing.take_eq (h : Failing net s b q next failAddr s₁ s₂) :
    s₁ = (((s.setQueue q ((s.queue q).setHeader (s.queue q).consumer
      ⟨(s.queue q).head.call,
        { rewritten s b (s.queue q).head.header with transTime := 0 }⟩)).setConflag
      (s.queue q).head.header.senderID
      ⟨44, net.abi.addrPlus failAddr (rewritten s b (s.queue q).head.header).sendTime⟩).setLocaltime
      b (net.abi.addrPlus failAddr (raised s b (s.queue q).head.header))).setRouter b
        (.drop q) := by
  have ht := h.take
  obtain ⟨dest, hdest⟩ := Option.isSome_iff_exists.1 h.found
  simp only [step, takePacket] at ht
  split at ht
  next =>
    split at ht
    next =>
      rw [if_neg h.notSelf, hdest] at ht
      simp only [processPacket_failing _ _ _ _ h.hop h.forwarding, if_true] at ht
      exact (Option.some.inj ht).symm
    next => cases ht
  next => cases ht

theorem Failing.release_eq (h : Failing net s b q next failAddr s₁ s₂) :
    s₂ = (s₁.setQueue q (s₁.queue q).release).setRouter b .idle := by
  have hr := h.release
  have hdrop : s₁.router b = .drop q := by
    rw [h.take_eq]
    exact Function.update_self _ _ _
  simp only [step, routeStep, hdrop] at hr
  exact (Option.some.inj hr).symm

theorem senderFails {d : UInt32} {n : Nat} (h : (s.conflag d).dataflag = 44) :
    SenderFails net s d n := by
  intro t hwait hflag
  have h44 : (t.conflag d).dataflag = 44 := by rw [hflag, h]
  refine ⟨_, by simp only [step, sendStep, hwait, h44]; rfl, ?_⟩
  exact Function.update_self _ _ _

/-- What the router does is as it should be, but for the two times: both are sums with the
address of `fail_latency`. -/
theorem Failing.failsCleanly_iff (h : Failing net s b q next failAddr s₁ s₂)
    (failLatency : UInt64) :
    FailsCleanly net s b q failLatency s₁ s₂ ↔
      net.abi.addrPlus failAddr (rewritten s b (s.queue q).head.header).sendTime =
          (rewritten s b (s.queue q).head.header).sendTime + failLatency ∧
        net.abi.addrPlus failAddr (raised s b (s.queue q).head.header) =
          raised s b (s.queue q).head.header + failLatency := by
  have htake := h.take_eq
  have hrelease := h.release_eq
  have hqueue : s₁.queue q = (s.queue q).setHeader (s.queue q).consumer
      ⟨(s.queue q).head.call,
        { rewritten s b (s.queue q).head.header with transTime := 0 }⟩ := by
    rw [htake]
    exact Function.update_self _ _ _
  have hflag : s₁.conflag (s.queue q).head.header.senderID =
      ⟨44, net.abi.addrPlus failAddr (rewritten s b (s.queue q).head.header).sendTime⟩ := by
    rw [htake]
    exact Function.update_self _ _ _
  have htime : s₁.localtime b = net.abi.addrPlus failAddr (raised s b (s.queue q).head.header) := by
    rw [htake]
    exact Function.update_self _ _ _
  have hflag₂ : s₂.conflag = s₁.conflag := by
    rw [hrelease]
    rfl
  have htime₂ : s₂.localtime = s₁.localtime := by
    rw [hrelease]
    rfl
  constructor
  · intro hc
    have htt := hc.transtime
    have hlt := hc.localtime
    rw [hflag₂, hflag] at htt
    rw [htime₂, htime] at hlt
    exact ⟨htt, hlt⟩
  · rintro ⟨htt, hlt⟩
    refine ⟨?_, fun q' hq' => ?_, ?_, ?_, ?_, ?_, ?_⟩
    · rw [← hqueue, hrelease]
      exact Function.update_self _ _ _
    · rw [hrelease, htake]
      exact (Function.update_of_ne hq' _ _).trans (Function.update_of_ne hq' _ _)
    · rw [hrelease, htake]
      rfl
    · rw [hflag₂, hflag]
    · rw [hflag₂, hflag]
      exact htt
    · rw [htime₂, htime]
      exact hlt
    · exact senderFails (by rw [hflag])

theorem toUInt32_signExtend (y : UInt32) : y.toInt32.toInt64.toUInt64.toUInt32 = y := by
  apply UInt32.toBitVec_inj.1
  show (y.toBitVec.signExtend 64).setWidth 32 = y.toBitVec
  ext i hi
  rw [BitVec.getElem_setWidth, BitVec.getLsbD_signExtend]
  simp [hi, Nat.lt_trans hi (by decide : 32 < 64)]

/-- Two sums with the scaled address differ by what their operands differ only if that is
nothing. -/
theorem addrPlus_add_iff (abi : Abi) (addr n d f : UInt64) :
    (abi.addrPlus addr (n + d) = n + d + f ∧ abi.addrPlus addr n = n + f) ↔
      d = 0 ∧ abi.addrPlus addr n = n + f := by
  constructor
  · rintro ⟨h, h₀⟩
    refine ⟨?_, h₀⟩
    cases abi with
    | x86_64 =>
      simp only [Abi.addrPlus] at h h₀
      grind
    | i386 =>
      simp only [Abi.addrPlus] at h h₀
      have hlow := congrArg UInt64.toUInt32 h
      have hlow₀ := congrArg UInt64.toUInt32 h₀
      rw [toUInt32_signExtend] at hlow hlow₀
      simp only [UInt64.toUInt32_add, UInt64.toUInt32_mul] at hlow hlow₀
      have h8 : UInt64.toUInt32 8 = 8 := rfl
      have hd : d.toUInt32 = 0 := by
        rw [h8] at hlow hlow₀
        grind
      have hsame : (addr + 8 * (n + d)).toUInt32 = (addr + 8 * n).toUInt32 := by
        simp [UInt64.toUInt32_add, UInt64.toUInt32_mul, hd]
      rw [hsame, h₀] at h
      grind
  · rintro ⟨rfl, h₀⟩
    simpa using h₀

/-- The failure is handled as it should be exactly for a packet that had no transmission
time before, on a stack where the scaled address of `fail_latency` happens to be right. -/
theorem hop_fails_iff (h : Failing net s b q next failAddr s₁ s₂) (failLatency : UInt64) :
    FailsCleanly net s b q failLatency s₁ s₂ ↔ (s.queue q).head.header.transTime = 0 ∧
      net.abi.addrPlus failAddr (raised s b (s.queue q).head.header) =
        raised s b (s.queue q).head.header + failLatency := by
  rw [h.failsCleanly_iff]
  exact addrPlus_add_iff _ _ _ _ _

/-- The end device has sent its packet to the router. -/
def posted : State :=
  (Machine.run (step line) start (.call (sampleCall 4) 2 1000000 3456000 ::
    List.replicate 3 (.send 3))).getD start

/-- `fail_latency` is at the address `0x7ffd00001000`. -/
def given : State := (step line posted (.take 2 (.link 3 2) 1 0 140724603457536)).getD start

def gone : State := (step line given (.route 2)).getD start

theorem given_failing : Failing line posted 2 (.link 3 2) 1 140724603457536 given gone where
  notSelf := by decide
  forwarding := by decide
  hop := by decide
  found := by decide
  waits := rfl
  take := rfl
  release := rfl

theorem hop_fails_iff_posted :
    FailsCleanly line posted 2 (.link 3 2) 640000 given gone ↔
      (posted.queue (.link 3 2)).head.header.transTime = 0 ∧
        line.abi.addrPlus 140724603457536
          (raised posted 2 (posted.queue (.link 3 2)).head.header) =
            raised posted 2 (posted.queue (.link 3 2)).head.header + 640000 :=
  hop_fails_iff given_failing 640000

/-- Every channel assessment finds the channel busy. -/
def jammed : Latency.Chance Unit where
  rand _ := (0, ())
  randomHit _ _ := (true, ())

theorem jammed_latency :
    ∃ r, Latency.transmissionLatency jammed ⟨0, 0⟩
        (rewritten posted 2 (posted.queue (.link 3 2)).head.header) "zigbee" 8 ⟨0, 0⟩ 0 () =
      some r ∧ r.latency = 0 :=
  ⟨_, rfl, rfl⟩

/-- The sender is told an address for the time of the failure. -/
theorem not_failsCleanly :
    ¬ ∀ (net : Net) (s : State) (b : UInt32) (q : Queue) (next : UInt32) (failAddr : UInt64)
      (s₁ s₂ : State) (c : Latency.Chance Unit) (r : Latency.Result Unit),
      Latency.transmissionLatency c ⟨0, 0⟩ (rewritten s b (s.queue q).head.header) "zigbee" 8
          ⟨0, 0⟩ 0 () = some r → r.latency = 0 →
        Failing net s b q next failAddr s₁ s₂ → FailsCleanly net s b q r.failLatency s₁ s₂ := by
  intro h
  obtain ⟨r, hr, hzero⟩ := jammed_latency
  have hclean := h line posted 2 (.link 3 2) 1 140724603457536 given gone jammed r hr hzero
    given_failing
  have htimes := given_failing.failsCleanly_iff r.failLatency |>.1 hclean
  have hsame := (addrPlus_add_iff _ _ _ _ _).1 htimes
  exact absurd hsame.1 (by decide)

end M2M.Network.Delivery
