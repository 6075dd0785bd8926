import M2M.Qemud.Loading
import M2M.Qemud.Working

/-! A multiplexer that has loaded the snapshot of another one. -/

open M2M.Lib

namespace M2M.Qemud.QemudMultiplexer

variable {ω δ : Type} {m m₀ m' : QemudMultiplexer ω δ} {code : ServiceCode ω δ}
  {names : List CString} {agree : ω → ω → Prop} {alike : List CString → δ → δ → Prop}
  {ρ : Nat → Nat}

section Load

/-- As how many clients the `int` in a snapshot counts `n` of them. -/
def announced (n : Nat) : Nat := ((n : Int).bmod (2 ^ 32)).toNat

theorem toNat_bmod_le (n k : Nat) : ((n : Int).bmod k).toNat ≤ n := by
  have hmod : (n : Int) % k = (n % k : Nat) := rfl
  have hle := Nat.mod_le n k
  rw [Int.bmod_def, hmod]
  split
  · omega
  · omega

theorem announced_le (n : Nat) : announced n ≤ n := toNat_bmod_le n _

theorem announced_eq_iff {n : Nat} : announced n = n ↔ n < 2 ^ 31 := by
  have hlt := Int.bmod_lt (x := (n : Int)) (m := 2 ^ 32) (Nat.two_pow_pos 32)
  have heq := Int.bmod_eq_of_le (n := (n : Int)) (m := 2 ^ 32)
  unfold announced
  generalize (n : Int).bmod (2 ^ 32) = v at hlt heq
  constructor
  · omega
  · intro h
    have hv := heq (by omega) (by omega)
    omega

/-- What a snapshot with the clients `l` of `m` makes of `m₀`. -/
structure LoadedFrom (ρ : Nat → Nat) (agree : ω → ω → Prop) (l : List (QemudClient ω))
    (m m₀ m' : QemudMultiplexer ω δ) : Prop where
  good : m'.Good
  serial : m'.serial = { m.serial with cs := m'.serial.cs }
  next : m'.next = m₀.next + l.length
  clients : ∃ l', List.Forall₂ (RestoredAs ρ agree) l l' ∧
    m'.clients = l'.reverse ++ [QemudClient.alloc 0 0 none]
  services : m'.services.map QemudService.face = (m.services.map QemudService.face).map
    fun face => (face.1, face.2.1,
      face.2.2 - .ofNat (countOf m₀.noncontrol face.1) + .ofNat (countOf l face.1))

theorem mem_noncontrol {c : QemudClient ω} :
    c ∈ m.noncontrol ↔ c ∈ m.clients ∧ 0 < c.channel := by
  rw [noncontrol, List.mem_filter, decide_eq_true_eq]

theorem channel_noncontrol (m : QemudMultiplexer ω δ) :
    ∀ c ∈ m.noncontrol, c ∈ m.clients ∧ c.channel ≠ 0 :=
  fun _ hc => (mem_noncontrol.mp hc).imp_right Int.ne_of_gt

theorem storable_noncontrol (h : m.Good) (hnames : ∀ name ∈ m.serviceNames, IsName name) :
    ∀ c ∈ m.noncontrol, Storable m.services c := by
  intro c hc
  obtain ⟨hmem, hpos⟩ := mem_noncontrol.mp hc
  have hplaced := h.placed c hmem
  rw [QemudClient.Placed] at hplaced
  cases hs : c.service with
  | none =>
    rw [hs] at hplaced
    exact absurd hplaced (Int.ne_of_gt hpos)
  | some p =>
    rw [hs] at hplaced
    have hknown := h.known c hmem p.1 (by rw [QemudClient.serviceName, hs]; rfl)
    exact ⟨hplaced, h.sound c hmem, h.sized c hmem, p.1, p.2, hs, hnames p.1 hknown, hknown⟩

theorem good_tellAll (h : m.Good) (svs : List QemudService) (serial : QemudSerial) (data : δ) :
    ({ m with serial, services := tellAll svs m.services, data } : QemudMultiplexer ω δ).Good := by
  have hsame := tellAll_same svs m.services
  have hnames := congrArg (List.map Prod.fst) hsame
  rw [List.map_map, List.map_map] at hnames
  refine { h with namesNodup := ?_, listed := fun sv hsv => ?_, known := fun c hc name hname => ?_ }
  · exact Eq.mpr (congrArg List.Nodup hnames) h.namesNodup
  · have hpair : (sv.name, sv.clients) ∈ m.services.map fun sv => (sv.name, sv.clients) :=
      hsame ▸ List.mem_map_of_mem hsv
    obtain ⟨sv', hsv', heq⟩ := List.mem_map.mp hpair
    obtain ⟨hname, hclients⟩ := Prod.mk.inj heq
    rw [← hname, ← hclients]
    exact h.listed sv' hsv'
  · have hknown := h.known c hc name hname
    exact Eq.mpr (congrArg (name ∈ ·) hnames) hknown


theorem closed_disconnectNoncontrol (hcode : Restores code names agree alike) {data : δ}
    (halike : alike names data m.data) (hgood : m.Good) :
    Closed m.noncontrol m (m.disconnectNoncontrol code) ∧
      alike names data (m.disconnectNoncontrol code).data :=
  closed_foldl hcode halike hgood (channel_noncontrol m)
    (hgood.idsNodup.sublist (List.filter_sublist.map _))

theorem load_parts {file f f₁ f₂ f₃ rest : List UInt8} {n k : Int} {serial : QemudSerial}
    {m₁ m' : QemudMultiplexer ω δ} (hserial : m.serial.load file = .ok (serial, f))
    (hn : getBe32 f = (n, f₁))
    (hservices : loadServices code n.toNat f₁ { m with serial } = .ok (f₂, m₁))
    (hk : getBe32 f₂ = (k, f₃))
    (hclients : (loadClients code k.toNat f₃ (m₁.disconnectNoncontrol code)).run =
      some (.ok (rest, m'))) :
    (m.load code qemudSaveVersion file).run = some (.ok m') := by
  have hone : ∀ {α : Type} (x : Except Int α),
      (ExceptT.mk (some x) : ExceptT Int Option α).run = some x := fun _ => rfl
  rw [load, if_neg (not_not.mpr rfl), ExceptT.run_bind, hone, hserial]
  -- how a number is read plays no part in the order of the parts
  generalize getBe32 = get at hn hk ⊢
  rw [Option.bind_eq_bind, Option.bind_some]
  dsimp only
  rw [hn, ExceptT.run_bind, hone, hservices]
  rw [Option.bind_eq_bind, Option.bind_some]
  dsimp only
  rw [hk, ExceptT.run_bind, hclients]
  rfl

theorem load_of (hcode : Restores code names agree alike) (hm : m.Working names)
    (hm₀ : m₀.Working names) (hnames : ∀ name ∈ names, IsName name)
    (hfew : names.length < 2 ^ 31) {l : List (QemudClient ω)}
    (hl : m.noncontrol.take (announced m.noncontrol.length) = l)
    (hρ : (l.map fun c => ρ c.id) = List.range' m₀.next l.length) :
    ∃ m', (m₀.load code qemudSaveVersion (m.save code)).run = some (.ok m') ∧
      alike names m.data m'.data ∧ LoadedFrom ρ agree l m m₀ m' := by
  have hlength : l.length = announced m.noncontrol.length := by
    rw [← hl, List.length_take, Nat.min_eq_left (announced_le _)]
  have hsplit : m.noncontrol.flatMap (clientSave code m.data) =
      l.flatMap (clientSave code m.data) ++
        (m.noncontrol.drop (announced m.noncontrol.length)).flatMap (clientSave code m.data) := by
    rw [← hl, ← List.flatMap_append, List.take_append_drop]
  have hstorable : ∀ c ∈ l, Storable m.services c := fun c hc =>
    storable_noncontrol hm.toGood (hm.names ▸ hnames) c (List.mem_of_mem_take (hl ▸ hc))
  have hsameNames : m₀.serviceNames = m.serviceNames := hm₀.names.trans hm.names.symm
  have hserial := QemudSerial.load_save hm.ranged hm.valid.data0 hm₀.valid.data0
  obtain ⟨data₁, hservices, halike₁⟩ := loadServices_of
    (m := { m₀ with serial := { m.serial with cs := m₀.serial.cs } })
    (fun sv hsv => hnames _ (hm.names ▸ List.mem_map_of_mem hsv))
    (fun sv hsv => Eq.mpr (congrArg (sv.name ∈ ·) hsameNames) (List.mem_map_of_mem hsv))
    (show [] ++ m.services.map (fun sv => sv.name) = names from hm.names) hcode
    (hcode.start m.data m₀.data)
    (putBe32 m.noncontrol.length ++ m.noncontrol.flatMap (clientSave code m.data))
  have hgood₁ := good_tellAll hm₀.toGood m.services { m.serial with cs := m₀.serial.cs } data₁
  have hfaces₁ := faces_tellAll hm.namesNodup hsameNames
  generalize hm₁ : ({ m₀ with
    serial := { m.serial with cs := m₀.serial.cs }
    services := tellAll m.services m₀.services
    data := data₁ } : QemudMultiplexer ω δ) = m₁ at hgood₁
  have hservices₁ : m₁.services = tellAll m.services m₀.services := hm₁ ▸ rfl
  have hlist : m₁.noncontrol = m₀.noncontrol := hm₁ ▸ rfl
  have halike₁ : alike names m.data m₁.data := hm₁ ▸ halike₁
  obtain ⟨hclosed, halike₂⟩ := closed_disconnectNoncontrol hcode halike₁ hgood₁
  have hclients₂ := clients_noncontrol hgood₁ hclosed
  generalize hm₂ : m₁.disconnectNoncontrol code = m₂ at hclosed halike₂ hclients₂
  have hnext : m₂.next = m₀.next := hclosed.next.trans (hm₁ ▸ rfl)
  have hnames₂ : (m₂.services.map fun sv => sv.name) = m.services.map fun sv => sv.name := by
    have hfst := congrArg (List.map Prod.fst) hclosed.services
    rw [hservices₁, hfaces₁, List.map_map, List.map_map, List.map_map] at hfst
    exact hfst
  obtain ⟨m', hclients, halike', hreloaded⟩ := loadClients_of hcode (ρ := ρ) halike₂ hclosed.good
    (fun c hc => (hstorable c hc).congr hnames₂) (hnext ▸ hρ)
    ((m.noncontrol.drop (announced m.noncontrol.length)).flatMap (clientSave code m.data))
  refine ⟨m', ?_, halike', hreloaded.good, ?_, ?_, ?_, ?_⟩
  · have hcount : FitsInt m.services.length := by
      have hlist' : m.services.length = names.length := by
        rw [← hm.names, serviceNames, List.length_map]
      exact fitsInt_natCast (hlist' ▸ hfew)
    rw [hlength, ← hm₂, ← hm₁, ← hsplit] at hclients
    rw [save]
    simp only [List.append_assoc]
    exact load_parts (hserial _) (getBe32_putBe32 hcount _) hservices (getBe32_append _ _) hclients
  · rw [hreloaded.serial, hclosed.serial, ← hm₁]
  · rw [hreloaded.next, hnext]
  · obtain ⟨l', hl', heq⟩ := hreloaded.clients
    exact ⟨l', hl', hclients₂ ▸ heq⟩
  · rw [hreloaded.services, hclosed.services, hservices₁, hfaces₁, List.map_map, hlist]
    rfl

end Load

section Addresses

/-- The address that a client of `m` gets in `m₀`: the clients of the snapshot are connected in
its order, and the later ones after them. -/
def readdress (m m₀ : QemudMultiplexer ω δ) (i : Nat) : Nat :=
  if i = 0 then 0
  else if m.next ≤ i then m₀.next + m.noncontrol.length + (i - m.next)
  else m₀.next + (m.noncontrol.map fun c => c.id).idxOf i

def InUse (m : QemudMultiplexer ω δ) (i : Nat) : Prop :=
  i = 0 ∨ i ∈ (m.noncontrol.map fun c => c.id) ∨ m.next ≤ i

theorem readdress_zero (m m₀ : QemudMultiplexer ω δ) : readdress m m₀ 0 = 0 := if_pos rfl

theorem nodup_noncontrol (h : m.Good) : (m.noncontrol.map fun c => c.id).Nodup :=
  h.idsNodup.sublist (List.filter_sublist.map _)

theorem id_noncontrol (h : m.Good) {i : Nat} (hi : i ∈ m.noncontrol.map fun c => c.id) :
    i ≠ 0 ∧ i < m.next := by
  obtain ⟨c, hc, rfl⟩ := List.mem_map.mp hi
  obtain ⟨hmem, hchannel⟩ := channel_noncontrol m c hc
  exact ⟨h.id_ne hmem hchannel, h.idsLt c hmem⟩

theorem readdress_client (h : m.Good) (m₀ : QemudMultiplexer ω δ) {i : Nat}
    (hi : i ∈ m.noncontrol.map fun c => c.id) :
    readdress m m₀ i = m₀.next + (m.noncontrol.map fun c => c.id).idxOf i := by
  obtain ⟨hne, hlt⟩ := id_noncontrol h hi
  rw [readdress, if_neg hne, if_neg (Nat.not_le.mpr hlt)]

theorem readdress_next (h : m.Good) (m₀ : QemudMultiplexer ω δ) {i : Nat} (hi : m.next ≤ i) :
    readdress m m₀ i = m₀.next + m.noncontrol.length + (i - m.next) := by
  have hpos : 0 < m.next := h.idsLt _ h.control
  rw [readdress, if_neg (by omega), if_pos hi]

theorem readdress_injective (h : m.Good) (hpos : 0 < m₀.next) {i j : Nat} (hi : m.InUse i)
    (hj : m.InUse j) (heq : readdress m m₀ i = readdress m m₀ j) : i = j := by
  have hlt : ∀ {k}, k ∈ (m.noncontrol.map fun c => c.id) →
      (m.noncontrol.map fun c => c.id).idxOf k < m.noncontrol.length := fun hk => by
    simpa using List.idxOf_lt_length_of_mem hk
  rcases hi with rfl | hi | hi <;> rcases hj with rfl | hj | hj
  · rfl
  · rw [readdress_zero, readdress_client h m₀ hj] at heq
    omega
  · rw [readdress_zero, readdress_next h m₀ hj] at heq
    omega
  · rw [readdress_zero, readdress_client h m₀ hi] at heq
    omega
  · rw [readdress_client h m₀ hi, readdress_client h m₀ hj] at heq
    exact (List.idxOf_inj hi).mp (Nat.add_left_cancel heq)
  · rw [readdress_client h m₀ hi, readdress_next h m₀ hj] at heq
    have hbound := hlt hi
    omega
  · rw [readdress_zero, readdress_next h m₀ hi] at heq
    omega
  · rw [readdress_next h m₀ hi, readdress_client h m₀ hj] at heq
    have hbound := hlt hj
    omega
  · rw [readdress_next h m₀ hi, readdress_next h m₀ hj] at heq
    omega

theorem map_readdress (h : m.Good) (m₀ : QemudMultiplexer ω δ) (k : Nat) {l : List (QemudClient ω)}
    (hl : m.noncontrol.take k = l) :
    (l.map fun c => readdress m m₀ c.id) = List.range' m₀.next l.length := by
  subst hl
  refine List.ext_getElem (by simp) fun i hi hi' => ?_
  have hlt : i < m.noncontrol.length := by
    simp only [List.length_map, List.length_take] at hi
    omega
  have hid : m.noncontrol[i].id ∈ m.noncontrol.map fun c => c.id :=
    List.mem_map_of_mem (List.getElem_mem hlt)
  have hidx : (m.noncontrol.map fun c => c.id).idxOf m.noncontrol[i].id = i := by
    have hget := (nodup_noncontrol h).idxOf_getElem i (by simpa using hlt)
    simpa using hget
  rw [List.getElem_map, List.getElem_take, readdress_client h m₀ hid, hidx, List.getElem_range']
  omega

end Addresses

section Twins

variable {c c' : QemudClient ω} {l l' : List (QemudClient ω)}

/-- A client that loses nothing in a snapshot: its header sink is empty, and it has only begun a
frame if it is framing. -/
def Whole (c : QemudClient ω) : Prop := c.header.used = 0 ∧ (c.framing = false → c.needHeader)

theorem twin_restored (hsound : c.Sound) (hwhole : Whole c) (h : RestoredAs ρ agree c c') :
    Twin ρ agree c c' := by
  obtain ⟨name, opq, opq', hs, hagree, rfl⟩ := h
  have hservice : Option.Rel (fun p p' => p'.1 = p.1 ∧ agree p.2 p'.2) c.service
      (c.service.map fun p => (p.1, opq')) := by
    rw [hs]
    exact .some ⟨rfl, hagree⟩
  have hheader : (⟨0, frameHeaderSize⟩ : QemudSink) = c.header := by
    rw [← hwhole.1, ← hsound.headerSize]
  cases hf : c.framing with
  | true =>
    rw [restored, hf, if_pos rfl]
    refine ⟨rfl, rfl, hservice, hf.symm, rfl, hheader, rfl, fun _ => rfl, fun hneed => ?_⟩
    have hlen := hsound.buff hneed
    have htake : (c.buff.takeD c.payload.size 0).length = c.payload.size := List.takeD_length ..
    rw [List.take_left' htake, List.takeD_eq_take _ (by omega)]
  | false =>
    have hneed : c.needHeader = true := hwhole.2 hf
    rw [restored, hf, if_neg Bool.false_ne_true]
    refine ⟨rfl, rfl, hservice, hf.symm, hneed.symm, hheader, ?_, fun h => ?_, fun h => ?_⟩
    · rw [hwhole.1, List.take_zero, List.take_zero]
    · exact Bool.noConfusion (hneed.symm.trans h)
    · exact Bool.noConfusion (hneed.symm.trans h)

theorem idsOn_eq (clients : List (QemudClient ω)) (channel : Int) :
    idsOn clients channel = (clients.filter fun c => c.channel = channel).map fun c => c.id := by
  rw [idsOn, List.filter_map, List.map_map]
  rfl

theorem idsOn_append (l l' : List (QemudClient ω)) (channel : Int) :
    idsOn (l ++ l') channel = idsOn l channel ++ idsOn l' channel := by
  rw [idsOn_eq, idsOn_eq, idsOn_eq, List.filter_append, List.map_append]

theorem idsOn_reverse (l : List (QemudClient ω)) (channel : Int) :
    idsOn l.reverse channel = (idsOn l channel).reverse := by
  rw [idsOn_eq, idsOn_eq, List.filter_reverse, List.map_reverse]

theorem idsOn_zero (h : m.Good) : idsOn m.clients 0 = [0] := by
  have hall : ∀ c ∈ m.clients.filter (fun c => c.channel = 0), c = .alloc 0 0 none := by
    intro c hc
    rw [List.mem_filter, decide_eq_true_eq] at hc
    exact h.others c hc.1 hc.2
  have hmem : .alloc 0 0 none ∈ m.clients.filter (fun c => c.channel = 0) :=
    List.mem_filter.mpr ⟨h.control, decide_eq_true rfl⟩
  have hnodup : (m.clients.filter fun c => c.channel = 0).Nodup := h.idsNodup.of_map.filter _
  rw [idsOn_eq]
  rw [List.eq_replicate_of_mem hall] at hnodup hmem ⊢
  have hle := List.nodup_replicate.mp hnodup
  have hpos := List.length_pos_of_mem hmem
  rw [List.length_replicate] at hpos
  rw [Nat.le_antisymm hle hpos]
  rfl

theorem idsOn_noncontrol {channel : Int} (hpos : 0 < channel) :
    idsOn m.noncontrol channel = idsOn m.clients channel := by
  rw [idsOn_eq, idsOn_eq, noncontrol, List.filter_filter]
  refine congrArg _ (List.filter_congr fun c _ => ?_)
  rw [← Bool.decide_and, decide_eq_decide, and_iff_left_iff_imp]
  rintro rfl
  exact hpos

theorem idsOn_of_neg (h : m.Good) {channel : Int} (hneg : channel < 0) :
    idsOn m.clients channel = [] := by
  rw [idsOn_eq, List.map_eq_nil_iff, List.filter_eq_nil_iff]
  intro c hc
  rw [decide_eq_true_eq]
  rintro rfl
  have hplaced := h.placed c hc
  rw [QemudClient.Placed] at hplaced
  split at hplaced
  · omega
  · omega

theorem idsOn_restored (h : List.Forall₂ (RestoredAs ρ agree) l l') (channel : Int) :
    idsOn l' channel = (idsOn l channel).map ρ := by
  have hpairs : (l'.map fun c => (c.id, c.channel)) = l.map fun c => (ρ c.id, c.channel) := by
    induction h with
    | nil => rfl
    | cons hc _ ih =>
      obtain ⟨name, opq, opq', hs, -, rfl⟩ := hc
      rw [List.map_cons, List.map_cons, ih, restored]
      split
      · rfl
      · rfl
  rw [idsOn, hpairs, idsOn, List.filter_map, List.filter_map, List.map_map, List.map_map,
    List.map_map]
  rfl

/-- There is at most one client on each channel. -/
def ChannelsOnce (m : QemudMultiplexer ω δ) : Prop := (m.noncontrol.map fun c => c.channel).Nodup

theorem reverse_idsOn (h : m.ChannelsOnce) (channel : Int) :
    (idsOn m.noncontrol channel).reverse = idsOn m.noncontrol channel := by
  have hcount : (idsOn m.noncontrol channel).length =
      (m.noncontrol.map fun c => c.channel).count channel := by
    rw [idsOn_eq, List.length_map, ← List.countP_eq_length_filter, List.count, List.countP_map]
    refine List.countP_congr fun c _ => ?_
    simp
  have hle : (idsOn m.noncontrol channel).length ≤ 1 :=
    hcount ▸ List.nodup_iff_count_le_one.mp h channel
  generalize idsOn m.noncontrol channel = is at hle ⊢
  rcases is with _ | ⟨i, _ | ⟨j, is⟩⟩
  · rfl
  · rfl
  · simp at hle

theorem control_or_noncontrol (h : m.Good) (hc : c ∈ m.clients) :
    c = .alloc 0 0 none ∨ c ∈ m.noncontrol := by
  by_cases hcontrol : c = .alloc 0 0 none
  · exact .inl hcontrol
  · exact .inr (mem_noncontrol.mpr ⟨hc, channel_pos h hc hcontrol⟩)

theorem client_of_next_le (hwf : m.Wf) {i : Nat} (hi : m.next ≤ i) : m.client i = none := by
  rw [client, Keyed.find, List.find?_eq_none]
  intro c hc
  rw [decide_eq_true_eq]
  have hlt := hwf.idsLt c hc
  omega

theorem LoadedFrom.client (h : LoadedFrom ρ agree l m m₀ m') (hc : c ∈ l) :
    ∃ c', m'.client (ρ c.id) = some c' ∧ RestoredAs ρ agree c c' := by
  obtain ⟨l', hl', hclients⟩ := h.clients
  obtain ⟨i, hi, rfl⟩ := List.getElem_of_mem hc
  have hi' : i < l'.length := hl'.length_eq ▸ hi
  have hrestored : RestoredAs ρ agree l[i] l'[i] := (List.forall₂_iff_get.mp hl').2 i hi hi'
  obtain ⟨name, opq, opq', hs, hagree, heq⟩ := id hrestored
  have hid : l'[i].id = ρ l[i].id := by
    rw [heq, restored]
    split
    · rfl
    · rfl
  refine ⟨l'[i], hid ▸ h.good.client_self ?_, hrestored⟩
  rw [hclients]
  exact List.mem_append_left _ (List.mem_reverse.mpr (List.getElem_mem hi'))

/-- With all clients whole and its services the same, it cannot be told apart from the
multiplexer of the snapshot. -/
theorem LoadedFrom.sim {alike : δ → δ → Prop}
    (h : LoadedFrom (readdress m m₀) agree m.noncontrol m m₀ m') (hm : m.Good)
    (hpos : 0 < m₀.next) (hdata : alike m.data m'.data)
    (hservices : m'.services.map QemudService.face = m.services.map QemudService.face)
    (hwhole : ∀ c ∈ m.noncontrol, Whole c) (honce : m.ChannelsOnce) :
    Sim (readdress m m₀) m.InUse agree alike m.calls m'.calls m m' := by
  constructor
  case injective => exact fun i j hi hj heq => readdress_injective hm hpos hi hj heq
  case good => exact hm
  case good' => exact h.good
  case serial => exact h.serial
  case services => exact hservices
  case data => exact hdata
  case next =>
    intro k
    refine ⟨.inr (.inr (Nat.le_add_right _ _)), ?_⟩
    rw [readdress_next hm m₀ (Nat.le_add_right _ _), h.next, Nat.add_sub_cancel_left]
  case known =>
    intro c hc
    rcases control_or_noncontrol hm hc with rfl | hc
    · exact .inl rfl
    · exact .inr (.inl (List.mem_map_of_mem hc))
  case client =>
    rintro i (rfl | hi | hi)
    · have hcontrol : ∀ {m : QemudMultiplexer ω δ}, m.Good →
          m.client 0 = some (.alloc 0 0 none) := fun h => h.client_self h.control
      rw [readdress_zero, hcontrol hm, hcontrol h.good]
      exact .some ⟨(readdress_zero m m₀).symm, rfl, .none, rfl, rfl, rfl, rfl, fun _ => rfl,
        fun _ => rfl⟩
    · obtain ⟨c, hc, rfl⟩ := List.mem_map.mp hi
      obtain ⟨c', hc', hrestored⟩ := h.client hc
      have hmem := (channel_noncontrol m c hc).1
      rw [hc', hm.client_self hmem]
      exact .some (twin_restored (hm.sound c hmem) (hwhole c hc) hrestored)
    · have hnext : m'.next ≤ readdress m m₀ i := by
        rw [h.next, readdress_next hm m₀ hi]
        exact Nat.le_add_right _ _
      rw [client_of_next_le hm.toWf hi, client_of_next_le h.good.toWf hnext]
      exact .none
  case channels =>
    intro channel
    obtain ⟨l', hl', hclients⟩ := h.clients
    rcases lt_trichotomy channel 0 with hneg | rfl | hchannel
    · rw [idsOn_of_neg hm hneg, idsOn_of_neg h.good hneg]
      rfl
    · rw [idsOn_zero hm, idsOn_zero h.good, List.map_singleton, readdress_zero]
    · have hcontrol : idsOn [QemudClient.alloc 0 0 (none : Option (CString × ω))] channel = [] := by
        rw [idsOn_eq, List.map_eq_nil_iff, List.filter_eq_nil_iff]
        refine List.forall_mem_singleton.mpr ?_
        rw [decide_eq_true_eq]
        exact Int.ne_of_lt hchannel
      rw [hclients, idsOn_append, hcontrol, List.append_nil, idsOn_reverse, idsOn_restored hl',
        ← List.map_reverse, reverse_idsOn honce, idsOn_noncontrol hchannel]
  case calls => exact ⟨[], (List.append_nil _).symm, (List.append_nil _).symm⟩

end Twins

end M2M.Qemud.QemudMultiplexer
