import M2M.Network.Forward

namespace M2M.Network

open Route

variable {abi : Abi} {nodeType : UInt32 → DeviceType} {r : Hop} {next : UInt32} {h : HQe}

/-- `router_localtime` after it has been raised to the packet's send time. -/
def Hop.raised (r : Hop) (h : HQe) : UInt64 :=
  if r.localtime < h.sendTime then h.sendTime else r.localtime

theorem Hop.toNat_raised (r : Hop) (h : HQe) :
    (r.raised h).toNat = max r.localtime.toNat h.sendTime.toNat := by
  unfold Hop.raised
  split <;> rename_i hlt <;> rw [UInt64.lt_iff_toNat_lt] at hlt <;> omega

theorem deliverSelf_eq (r : Hop) (h : HQe) : deliverSelf r h =
    { localtime := r.raised h + h.transTime
      packet := { h with sendTime := r.raised h }
      ack := some ⟨h.senderID, r.raised h + h.transTime, 0⟩
      transfail := false } := by
  unfold deliverSelf Hop.raised
  by_cases hgt : r.localtime > h.sendTime
  · have hlt : ¬ r.localtime < h.sendTime := by
      rw [gt_iff_lt, UInt64.lt_iff_toNat_lt] at hgt
      rw [UInt64.lt_iff_toNat_lt]
      omega
    simp [hgt, hlt]
  · by_cases hlt : r.localtime < h.sendTime
    · simp [hgt, hlt]
    · have : r.localtime = h.sendTime := by
        rw [gt_iff_lt, UInt64.lt_iff_toNat_lt] at hgt
        rw [UInt64.lt_iff_toNat_lt] at hlt
        exact UInt64.toNat_inj.mp (by omega)
      simp [this]

/-- Forwarding the packet of another device: its previous latency moves into the send
time of the header but not into the router's own clock. -/
theorem forward_other (hs : h.senderID ≠ r.id) (hl : r.latency ≠ 0) :
    forward abi nodeType r next h =
      { localtime := r.raised h + r.latency
        packet := { h with
          forwardID := r.id
          sendTime := r.raised h + h.transTime
          transTime := r.latency }
        ack := if h.receiverID = next ∧ nodeType next = .zed then
            some ⟨h.senderID, r.raised h + r.latency, 0⟩ else none
        transfail := false } := by
  simp [forward, hs, hl, Hop.raised]

theorem forward_own (hs : h.senderID = r.id) (ht : h.transTime ≠ 0) :
    forward abi nodeType r next h =
      { localtime := r.raised h + h.transTime
        packet := { h with forwardID := r.id, sendTime := r.raised h }
        ack := if h.receiverID = next ∧ nodeType next = .zed then
            some ⟨h.senderID, r.raised h + h.transTime, 0⟩ else none
        transfail := false } := by
  simp [forward, hs, ht, Hop.raised]

theorem carry_self_eq : (Route.self r).carry abi nodeType h =
    .ofProcessed (processPacket abi nodeType r h.receiverID h) := rfl

theorem carry_last_eq : (Route.last r).carry abi nodeType h =
    .ofProcessed (processPacket abi nodeType r h.receiverID h) := rfl

theorem carry_via_eq {rest : Route}
    (hp : (processPacket abi nodeType r rest.first h).transfail = false) :
    (Route.via r rest).carry abi nodeType h =
      { rest.carry abi nodeType (processPacket abi nodeType r rest.first h).packet with
        acks := (processPacket abi nodeType r rest.first h).ack.toList ++
          (rest.carry abi nodeType (processPacket abi nodeType r rest.first h).packet).acks } :=
  if_neg (Bool.eq_false_iff.mp hp)

theorem carry_self (hr : r.id = h.receiverID) :
    (Route.self r).carry abi nodeType h =
      ⟨{ h with sendTime := r.raised h }, [⟨h.senderID, r.raised h + h.transTime, 0⟩], false⟩ := by
  simp [carry_self_eq, Outcome.ofProcessed, processPacket, hr, deliverSelf_eq]

theorem carry_last_other (hr : r.id ≠ h.receiverID) (hz : nodeType h.receiverID = .zed)
    (hs : h.senderID ≠ r.id) (hl : r.latency ≠ 0) :
    (Route.last r).carry abi nodeType h =
      ⟨{ h with
          forwardID := r.id
          sendTime := r.raised h + h.transTime
          transTime := r.latency },
        [⟨h.senderID, r.raised h + r.latency, 0⟩], false⟩ := by
  simp [carry_last_eq, Outcome.ofProcessed, processPacket, hr.symm, hz, forward_other hs hl]

theorem carry_last_own (hr : r.id ≠ h.receiverID) (hz : nodeType h.receiverID = .zed)
    (hs : h.senderID = r.id) (ht : h.transTime ≠ 0) :
    (Route.last r).carry abi nodeType h =
      ⟨{ h with forwardID := r.id, sendTime := r.raised h },
        [⟨h.senderID, r.raised h + h.transTime, 0⟩], false⟩ := by
  simp [carry_last_eq, Outcome.ofProcessed, processPacket, hr.symm, hz, forward_own hs ht]

theorem carry_via_other {rest : Route} (hr : rest.first ≠ r.id) (hz : nodeType rest.first ≠ .zed)
    (hs : h.senderID ≠ r.id) (hl : r.latency ≠ 0) :
    (Route.via r rest).carry abi nodeType h =
      rest.carry abi nodeType { h with
        forwardID := r.id
        sendTime := r.raised h + h.transTime
        transTime := r.latency } := by
  have hp : processPacket abi nodeType r rest.first h = forward abi nodeType r rest.first h :=
    if_neg hr
  rw [forward_other hs hl, if_neg fun hlast => hz hlast.2] at hp
  rw [carry_via_eq (by rw [hp]), hp]
  rfl

theorem carry_via_own {rest : Route} (hr : rest.first ≠ r.id) (hz : nodeType rest.first ≠ .zed)
    (hs : h.senderID = r.id) (ht : h.transTime ≠ 0) :
    (Route.via r rest).carry abi nodeType h =
      rest.carry abi nodeType { h with forwardID := r.id, sendTime := r.raised h } := by
  have hp : processPacket abi nodeType r rest.first h = forward abi nodeType r rest.first h :=
    if_neg hr
  rw [forward_own hs ht, if_neg fun hlast => hz hlast.2] at hp
  rw [carry_via_eq (by rw [hp]), hp]
  rfl

/-- A packet that no router loses is acknowledged once, by the last router, and the two
arrival times agree exactly on the routes that end at a coordinator or at the sender's
own router. -/
theorem carry_ack (route : Route) (h : HQe) (hv : route.Valid nodeType h.receiverID)
    (ht : h.transTime ≠ 0) (hl : ∀ r ∈ route.hops, r.latency ≠ 0) :
    (route.carry abi nodeType h).transfail = false ∧
      ∃ a, (route.carry abi nodeType h).acks = [a] ∧ a.senderID = h.senderID ∧ a.dataflag = 0 ∧
        (a.transtime = (route.carry abi nodeType h).packet.arrival ↔
          route.EndsAtSender h.senderID) := by
  induction route generalizing h with
  | self r =>
    rw [carry_self hv]
    exact ⟨rfl, _, rfl, rfl, rfl, iff_of_true rfl trivial⟩
  | last r =>
    have hlat := hl r (by simp [hops])
    by_cases hs : h.senderID = r.id
    · rw [carry_last_own hv.1 hv.2 hs ht]
      exact ⟨rfl, _, rfl, rfl, rfl, iff_of_true rfl hs.symm⟩
    · rw [carry_last_other hv.1 hv.2 hs hlat]
      refine ⟨rfl, _, rfl, rfl, rfl, iff_of_false ?_ (fun he => hs he.symm)⟩
      simpa [HQe.arrival] using ht
  | via r rest ih =>
    have hlat := hl r (by simp [hops])
    have hrest : ∀ r ∈ rest.hops, r.latency ≠ 0 := fun q hq => hl q (by simp [hops, hq])
    by_cases hs : h.senderID = r.id
    · rw [carry_via_own hv.1 hv.2.1 hs ht]
      exact ih _ hv.2.2 ht hrest
    · rw [carry_via_other hv.1 hv.2.1 hs hlat]
      exact ih _ hv.2.2 hlat hrest

theorem idealArrival_ge (sender : UInt32) (route : Route) (sent lat : Nat) :
    sent + lat + route.charged sender ≤ route.idealArrival sender sent lat := by
  induction route generalizing sent lat with
  | self r =>
    simp only [charged, idealArrival]
    omega
  | last r =>
    simp only [charged, idealArrival]
    split <;> omega
  | via r rest ih =>
    simp only [charged, idealArrival]
    split
    · have := ih (max r.localtime.toNat sent) lat
      omega
    · have := ih (max r.localtime.toNat sent + lat) r.latency.toNat
      omega

theorem carry_ideal (route : Route) (h : HQe) (hv : route.Valid nodeType h.receiverID)
    (ht : h.transTime ≠ 0) (hl : ∀ r ∈ route.hops, r.latency ≠ 0)
    (hfit : route.idealArrival h.senderID h.sendTime.toNat h.transTime.toNat < 2 ^ 64) :
    (route.carry abi nodeType h).packet.arrival.toNat =
        route.idealArrival h.senderID h.sendTime.toNat h.transTime.toNat ∧
      (route.carry abi nodeType h).acks.map (fun a => a.transtime.toNat) =
        [route.idealReported h.senderID h.sendTime.toNat h.transTime.toNat] := by
  induction route generalizing h with
  | self r =>
    rw [carry_self hv]
    simp only [idealArrival, idealReported, ← r.toNat_raised h] at hfit ⊢
    simp only [HQe.arrival, UInt64.toNat_add, Nat.mod_eq_of_lt hfit, List.map_cons, List.map_nil,
      and_self]
  | last r =>
    have hlat := hl r (by simp [hops])
    by_cases hs : h.senderID = r.id
    · rw [carry_last_own hv.1 hv.2 hs ht]
      simp only [idealArrival, idealReported, if_pos hs.symm, ← r.toNat_raised h] at hfit ⊢
      simp only [HQe.arrival, UInt64.toNat_add, Nat.mod_eq_of_lt hfit, List.map_cons,
        List.map_nil, and_self]
    · rw [carry_last_other hv.1 hv.2 hs hlat]
      simp only [idealArrival, idealReported, if_neg (Ne.symm hs), ← r.toNat_raised h] at hfit ⊢
      simp only [HQe.arrival, UInt64.toNat_add, List.map_cons, List.map_nil, List.cons.injEq,
        and_true]
      omega
  | via r rest ih =>
    have hlat := hl r (by simp [hops])
    have hrest : ∀ r ∈ rest.hops, r.latency ≠ 0 := fun q hq => hl q (by simp [hops, hq])
    by_cases hs : h.senderID = r.id
    · rw [carry_via_own hv.1 hv.2.1 hs ht]
      simp only [idealArrival, idealReported, if_pos hs.symm, ← r.toNat_raised h] at hfit ⊢
      exact ih _ hv.2.2 ht hrest hfit
    · rw [carry_via_other hv.1 hv.2.1 hs hlat]
      simp only [idealArrival, idealReported, if_neg (Ne.symm hs), ← r.toNat_raised h] at hfit ⊢
      have hsum : (r.raised h + h.transTime).toNat = (r.raised h).toNat + h.transTime.toNat := by
        have := idealArrival_ge h.senderID rest ((r.raised h).toNat + h.transTime.toNat)
          r.latency.toNat
        rw [UInt64.toNat_add]
        omega
      rw [← hsum] at hfit ⊢
      exact ih _ hv.2.2 hlat hrest hfit

/-- The arrival time reported to the sender is the one the receiver computes, and no
earlier than the send time plus all latencies charged, exactly when the last step is
the coordinator's delivery to itself or the sender's own router. -/
theorem arrival_agreement (abi : Abi) (nodeType : UInt32 → DeviceType) (route : Route) (h : HQe)
    (hv : route.Valid nodeType h.receiverID) (ht : h.transTime ≠ 0)
    (hl : ∀ r ∈ route.hops, r.latency ≠ 0) :
    ∃ a, (route.carry abi nodeType h).acks = [a] ∧ a.senderID = h.senderID ∧
      (a.transtime = (route.carry abi nodeType h).packet.arrival ↔
        route.EndsAtSender h.senderID) ∧
      (route.idealArrival h.senderID h.sendTime.toNat h.transTime.toNat < 2 ^ 64 →
        ((a.transtime = (route.carry abi nodeType h).packet.arrival ∧
          h.sendTime.toNat + h.transTime.toNat + route.charged h.senderID ≤ a.transtime.toNat) ↔
          route.EndsAtSender h.senderID)) := by
  obtain ⟨-, a, ha, hid, -, hiff⟩ := @carry_ack abi nodeType route h hv ht hl
  refine ⟨a, ha, hid, hiff, ?_⟩
  intro hfit
  constructor
  · intro hb
    exact hiff.mp hb.1
  · intro he
    have heq := hiff.mpr he
    refine ⟨heq, ?_⟩
    rw [heq, (carry_ideal route h hv ht hl hfit).1]
    exact idealArrival_ge _ _ _ _

def sampleType (id : UInt32) : DeviceType :=
  if id = 1 then .zc else if id = 2 then .zr else .zed

theorem arrival_agreement_coordinator :
    let route := Route.via ⟨2, 700, 2496000, 0⟩ (.self ⟨1, 5000000, 2496000, 0⟩)
    let h : HQe := ⟨0, 4, 3, 1, 3, -1, 1000000, 3456000⟩
    ∃ a, (route.carry .i386 sampleType h).acks = [a] ∧
      a.transtime = (route.carry .i386 sampleType h).packet.arrival := by
  intro route h
  obtain ⟨a, ha, -, hiff, -⟩ := arrival_agreement .i386 sampleType route h
    ⟨by decide, by decide, rfl⟩ (by decide) (by decide)
  exact ⟨a, ha, hiff.mpr trivial⟩

/-- End device 3 sends four bytes through router 2 to end device 4, with a long back-off
on the first hop: the sender is told 3496000 ns, the receiver computes 6952000 ns. -/
theorem arrival_disagrees :
    let route := Route.last ⟨2, 0, 2496000, 0⟩
    let h : HQe := ⟨0, 4, 3, 4, 3, -1, 1000000, 3456000⟩
    route.Valid sampleType h.receiverID ∧
      (route.carry .i386 sampleType h).acks = [⟨3, 3496000, 0⟩] ∧
      (route.carry .i386 sampleType h).packet.arrival = 6952000 ∧
      3496000 < h.sendTime.toNat + h.transTime.toNat + route.charged h.senderID :=
  ⟨⟨by decide, by decide⟩, by decide, by decide, by decide⟩

end M2M.Network
