import M2M.Lib.Chunks
import M2M.Qemud.Callbacks

/-! Multiplexers that cannot be told apart by what they receive: the clients of one are those of
the other under other addresses, and in another order. -/

open M2M.Lib

namespace M2M.Qemud

variable {ω δ : Type}

/-- A callback under the address that the other client has. -/
def Call.rename (ρ : Nat → Nat) : Call → Call
  | .recv id msg => .recv (ρ id) msg
  | .close id => .close (ρ id)
  | .connect service channel => .connect service channel

def QemudService.face (sv : QemudService) : CString × Int32 × Int32 :=
  (sv.name, sv.maxClients, sv.numClients)

/-- Services that act alike on what is `alike` behind them and `agree`s behind their clients. -/
structure Respects (code : ServiceCode ω δ) (agree : ω → ω → Prop) (alike : δ → δ → Prop) :
    Prop where
  recv : ∀ name msg opq opq' data data', agree opq opq' → alike data data' →
    agree (code.clieRecv name msg opq data).1 (code.clieRecv name msg opq' data').1 ∧
      alike (code.clieRecv name msg opq data).2.1 (code.clieRecv name msg opq' data').2.1 ∧
      (code.clieRecv name msg opq data).2.2 = (code.clieRecv name msg opq' data').2.2
  close : ∀ name opq opq' data data', agree opq opq' → alike data data' →
    alike (code.clieClose name opq data) (code.clieClose name opq' data')
  connect : ∀ name channel data data', alike data data' →
    Option.Rel (fun p p' => agree p.1 p'.1 ∧ p.2 = p'.2) (code.servConnect name channel data).1
        (code.servConnect name channel data').1 ∧
      alike (code.servConnect name channel data).2 (code.servConnect name channel data').2

/-- Clients that cannot be told apart. -/
structure Twin (ρ : Nat → Nat) (agree : ω → ω → Prop) (c c' : QemudClient ω) : Prop where
  id : c'.id = ρ c.id
  channel : c'.channel = c.channel
  service : Option.Rel (fun p p' => p'.1 = p.1 ∧ agree p.2 p'.2) c.service c'.service
  framing : c'.framing = c.framing
  needHeader : c'.needHeader = c.needHeader
  header : c'.header = c.header
  header0 : c'.header0.take c.header.used = c.header0.take c.header.used
  payload : c.needHeader = false → c'.payload = c.payload
  buff : c.needHeader = false → c'.buff.take c.payload.size = c.buff.take c.payload.size

section Services

variable {ρ : Nat → Nat} {agree : ω → ω → Prop} {c c' : QemudClient ω}

theorem Twin.service_none (h : Twin ρ agree c c') (hs : c.service = none) : c'.service = none := by
  have hrel := h.service
  rw [hs] at hrel
  generalize c'.service = s' at hrel
  cases hrel
  rfl

theorem Twin.service_some (h : Twin ρ agree c c') {name : CString} {opq : ω}
    (hs : c.service = some (name, opq)) :
    ∃ opq', c'.service = some (name, opq') ∧ agree opq opq' := by
  have hrel := h.service
  rw [hs] at hrel
  generalize c'.service = s' at hrel
  cases hrel with
  | @some _ p' hp =>
    obtain ⟨name', opq'⟩ := p'
    obtain ⟨rfl, hopq⟩ := hp
    exact ⟨opq', rfl, hopq⟩

theorem Twin.serviceName (h : Twin ρ agree c c') : c'.serviceName = c.serviceName := by
  rw [QemudClient.serviceName, QemudClient.serviceName]
  rcases Option.eq_none_or_eq_some c.service with hs | ⟨p, hs⟩
  · rw [hs, h.service_none hs]
  · obtain ⟨opq', hs', -⟩ := h.service_some hs
    rw [hs, hs']
    rfl

end Services

def QemudClient.Sized {ω : Type} (c : QemudClient ω) : Prop :=
  c.payload.used ≤ c.payload.size ∧ c.payload.size < 2 ^ 16

namespace QemudMultiplexer

section Good

/-- Consistent lists, with the client of the control channel as it was at first. -/
structure Good (m : QemudMultiplexer ω δ) : Prop extends Wf m where
  control : .alloc 0 0 none ∈ m.clients
  others : ∀ c ∈ m.clients, c.channel = 0 → c = .alloc 0 0 none
  sized : ∀ c ∈ m.clients, c.Sized

/-- What a client may change, apart from what `Twin` compares. -/
structure Changes (c c₁ : QemudClient ω) : Prop where
  id : c₁.id = c.id
  serviceName : c₁.serviceName = c.serviceName
  channel : c₁.channel = c.channel
  sound : c.Sound → c₁.Sound
  sized : c.Sized → c₁.Sized

theorem Changes.refl (c : QemudClient ω) : Changes c c :=
  ⟨rfl, rfl, rfl, fun hs => hs, fun hs => hs⟩

variable {m m' : QemudMultiplexer ω δ} {c c₁ : QemudClient ω} {id : Nat}

theorem sized_alloc (id : Nat) (channel : Int) (service : Option (CString × ω)) :
    (QemudClient.alloc id channel service).Sized :=
  ⟨Nat.le_refl _, Nat.two_pow_pos 16⟩

theorem good_init {services : List (CString × Int32)} (h : (services.map Prod.fst).Nodup)
    (data : δ) : (init services data : QemudMultiplexer ω δ).Good :=
  { wf_init h data with
    control := List.mem_singleton_self _
    others := List.forall_mem_singleton.mpr fun _ => rfl
    sized := List.forall_mem_singleton.mpr (sized_alloc ..) }

theorem Good.channel_ne (h : m.Good) (hc : m.client id = some c) (hid : id ≠ 0) :
    c.channel ≠ 0 := by
  intro hchannel
  have hcontrol := h.others c (Keyed.mem_of_find hc) hchannel
  refine hid ((Keyed.key_of_find hc).symm.trans ?_)
  rw [hcontrol]
  rfl

theorem Good.id_ne (h : m.Good) (hc : c ∈ m.clients) (hchannel : c.channel ≠ 0) : c.id ≠ 0 := by
  intro hid
  have hcontrol := List.inj_on_of_nodup_map h.idsNodup hc h.control hid
  exact hchannel (hcontrol ▸ rfl)

theorem Good.next_ne (h : m.Good) : m.next ≠ 0 :=
  Nat.ne_of_gt (h.idsLt _ h.control)

theorem Good.same (h : m.Good) (hwf : m'.Wf) (hclients : m'.clients = m.clients) : m'.Good :=
  { hwf with
    control := hclients ▸ h.control
    others := hclients ▸ h.others
    sized := hclients ▸ h.sized }

theorem Good.setClient (h : m.Good) (hc : m.client id = some c) (hchannel : c.channel ≠ 0)
    (hchanges : Changes c c₁) : (m.setClient c₁).Good := by
  have hmem := Keyed.mem_of_find hc
  have hmoves := moves_setClient hmem hchanges.id hchanges.serviceName hchanges.channel
    hchanges.sound
  refine { hmoves.wf h.toWf with control := ?_, others := fun b hb => ?_, sized := fun b hb => ?_ }
  · refine List.mem_map.mpr ⟨_, h.control, if_neg fun hid => ?_⟩
    exact h.id_ne hmem hchannel (hchanges.id.symm.trans hid.symm)
  · cases Keyed.mem_replace hb with
    | inl heq =>
      rw [heq, hchanges.channel]
      exact fun hzero => absurd hzero hchannel
    | inr hold => exact h.others b hold
  · cases Keyed.mem_replace hb with
    | inl heq => exact heq ▸ hchanges.sized (h.sized c hmem)
    | inr hold => exact h.sized b hold

theorem Good.unlist (h : m.Good) (hc : c ∈ m.clients) (hchannel : c.channel ≠ 0)
    (hid : c₁.id = c.id) (hname : c₁.serviceName = c.serviceName) : (m.unlist c₁).Good := by
  refine { (moves_unlist hc hid hname).wf h.toWf with
    control := ?_, others := fun b hb => ?_, sized := fun b hb => ?_ }
  · rw [clients_unlist, Keyed.mem_without]
    exact ⟨h.control, fun hzero => h.id_ne hc hchannel (hid.symm.trans hzero.symm)⟩
  · rw [clients_unlist, Keyed.mem_without] at hb
    exact h.others b hb.1
  · rw [clients_unlist, Keyed.mem_without] at hb
    exact h.sized b hb.1

theorem Good.clientNew (h : m.Good) {name : CString} {channel : Int}
    (hname : name ∈ m.services.map fun sv => sv.name) (hchannel : 0 < channel ∧ channel < 256)
    (opq : ω) : (m.clientNew name channel opq).2.Good :=
  { (moves_clientNew hname hchannel opq).wf h.toWf with
    control := List.mem_cons_of_mem _ h.control
    others := List.forall_mem_cons.mpr
      ⟨fun hzero => absurd hzero (Int.ne_of_gt hchannel.1), h.others⟩
    sized := List.forall_mem_cons.mpr ⟨sized_alloc .., h.sized⟩ }

end Good

def idsOn (clients : List (QemudClient ω)) (channel : Int) : List Nat :=
  ((clients.map fun c => (c.id, c.channel)).filter fun p => p.2 = channel).map Prod.fst

variable (ρ : Nat → Nat) (used : Nat → Prop) (agree : ω → ω → Prop) (alike : δ → δ → Prop)
  (before before' : List Call)

/-- The one multiplexer is the other one with the addresses renamed, but for what was written to
the port and for the order of the lists.  The addresses that were or will be in use are not
confused. -/
structure Sim (m m' : QemudMultiplexer ω δ) : Prop where
  injective : ∀ i j, used i → used j → ρ i = ρ j → i = j
  good : m.Good
  good' : m'.Good
  serial : m'.serial = { m.serial with cs := m'.serial.cs }
  services : m'.services.map QemudService.face = m.services.map QemudService.face
  data : alike m.data m'.data
  next : ∀ k, used (m.next + k) ∧ ρ (m.next + k) = m'.next + k
  known : ∀ c ∈ m.clients, used c.id
  client : ∀ i, used i → Option.Rel (Twin ρ agree) (m.client i) (m'.client (ρ i))
  channels : ∀ channel, idsOn m'.clients channel = (idsOn m.clients channel).map ρ
  calls : ∃ calls, m.calls = before ++ calls ∧ m'.calls = before' ++ calls.map (Call.rename ρ)

variable {ρ used agree alike before before'} {m m' m₁ m₁' : QemudMultiplexer ω δ}

section Lookups

theorem head?_idsOn (m : QemudMultiplexer ω δ) (channel : Int) :
    (idsOn m.clients channel).head? = (m.onChannel channel).map fun c => c.id := by
  rw [idsOn, List.head?_map, List.head?_filter, List.find?_map, Option.map_map]
  rfl

theorem find?_face (m : QemudMultiplexer ω δ) (name : CString) :
    (m.services.map QemudService.face).find? (fun p => p.1 = name) =
      (m.findService name).map QemudService.face := by
  rw [List.find?_map]
  rfl

variable (h : Sim ρ used agree alike before before' m m')

include h

theorem Sim.writes (hw : Writes m m₁) (hw' : Writes m' m₁') :
    Sim ρ used agree alike before before' m₁ m₁' := by
  have hgood := h.good.same (hw.moves.wf h.good.toWf) hw.clients
  have hgood' := h.good'.same (hw'.moves.wf h.good'.toWf) hw'.clients
  obtain ⟨bytes, rfl⟩ := hw
  obtain ⟨bytes', rfl⟩ := hw'
  refine { h with good := hgood, good' := hgood', serial := ?_ }
  rw [h.serial]
  rfl

theorem Sim.of_client {id : Nat} {c : QemudClient ω} (hc : m.client id = some c) :
    ∃ c', m'.client (ρ id) = some c' ∧ Twin ρ agree c c' := by
  have hid := Keyed.key_of_find hc
  have hrel := h.client id (hid ▸ h.known c (Keyed.mem_of_find hc))
  rw [hc] at hrel
  generalize hc' : m'.client (ρ id) = r at hrel
  cases hrel with
  | some htwin => exact ⟨_, rfl, htwin⟩

theorem Sim.onChannel (channel : Int) :
    Option.Rel (Twin ρ agree) (m.onChannel channel) (m'.onChannel channel) := by
  have hhead := head?_idsOn m' channel
  rw [h.channels, List.head?_map, head?_idsOn, Option.map_map] at hhead
  cases hc : m.onChannel channel with
  | none =>
    rw [hc, Option.map_none, eq_comm, Option.map_eq_none_iff] at hhead
    rw [hhead]
    exact .none
  | some c =>
    rw [hc, Option.map_some, eq_comm, Option.map_eq_some_iff] at hhead
    obtain ⟨c', hc', hid⟩ := hhead
    obtain ⟨c'', hc'', htwin⟩ := h.of_client (h.good.client_onChannel hc)
    have hsame : c' = c'' := h.good'.eq_of_client hc'' (List.mem_of_find?_eq_some hc') hid
    rw [hc', hsame]
    exact .some htwin

theorem Sim.findService (name : CString) :
    Option.Rel (fun sv sv' => sv.face = sv'.face) (m.findService name) (m'.findService name) := by
  have hfind := find?_face m name
  rw [← h.services, find?_face] at hfind
  cases hsv : m.findService name with
  | none =>
    rw [hsv, Option.map_none, Option.map_eq_none_iff] at hfind
    rw [hfind]
    exact .none
  | some sv =>
    rw [hsv, Option.map_some, Option.map_eq_some_iff] at hfind
    obtain ⟨sv', hsv', hface⟩ := hfind
    rw [hsv']
    exact .some hface.symm

theorem Sim.data_call {data data' : δ} (hdata : alike data data') (callback : Call) :
    Sim ρ used agree alike before before' ({ m with data }.call callback)
      ({ m' with data := data' }.call (callback.rename ρ)) := by
  obtain ⟨calls, hcalls, hcalls'⟩ := h.calls
  refine { h with
    good := { h.good with }, good' := { h.good' with }, data := hdata
    calls := ⟨calls ++ [callback], ?_, ?_⟩ }
  · rw [call]
    dsimp only
    rw [hcalls, List.append_assoc]
  · rw [call]
    dsimp only
    rw [hcalls', List.append_assoc, List.map_append]
    rfl

end Lookups

section Changes

theorem client_setClient_map (m : QemudMultiplexer ω δ) (c : QemudClient ω) (i : Nat) :
    (m.setClient c).client i = (m.client i).map fun b => if b.id = c.id then c else b :=
  Keyed.find?_replace (fun c : QemudClient ω => c.id) (fun c => c.id = i) fun b _ hid => by
    rw [hid]

theorem idsOn_setClient {m : QemudMultiplexer ω δ} (hwf : m.Wf) {c c₁ : QemudClient ω} {id : Nat}
    (hc : m.client id = some c) (hchanges : Changes c c₁) (channel : Int) :
    idsOn (m.setClient c₁).clients channel = idsOn m.clients channel := by
  have hpairs : ((m.setClient c₁).clients.map fun c => (c.id, c.channel)) =
      m.clients.map fun c => (c.id, c.channel) := by
    refine Keyed.map_replace _ fun b hb hid => ?_
    rw [hwf.eq_of_client hc hb (hid.trans (hchanges.id.trans (Keyed.key_of_find hc))),
      hchanges.id, hchanges.channel]
  rw [idsOn, hpairs, idsOn]

variable (h : Sim ρ used agree alike before before' m m') {c c₁ c' c₁' : QemudClient ω} {id : Nat}

include h

theorem Sim.setClient (hc : m.client id = some c) (hc' : m'.client (ρ id) = some c')
    (hchannel : c.channel ≠ 0) (hchanges : Changes c c₁) (hchanges' : Changes c' c₁')
    (htwin : Twin ρ agree c₁ c₁') :
    Sim ρ used agree alike before before' (m.setClient c₁) (m'.setClient c₁') := by
  have hid : c₁.id = id := hchanges.id.trans (Keyed.key_of_find hc)
  have hid' : c₁'.id = ρ id := hchanges'.id.trans (Keyed.key_of_find hc')
  have hused : used id := Keyed.key_of_find hc ▸ h.known c (Keyed.mem_of_find hc)
  have hchannel' : c'.channel ≠ 0 := by
    rw [← hchanges'.channel, htwin.channel, hchanges.channel]
    exact hchannel
  refine { h with
    good := h.good.setClient hc hchannel hchanges
    good' := h.good'.setClient hc' hchannel' hchanges'
    known := ?_, client := fun i hi => ?_, channels := fun channel => ?_ }
  · intro b hb
    cases Keyed.mem_replace hb with
    | inl heq =>
      rw [heq, hid]
      exact hused
    | inr hmem => exact h.known b hmem
  · rw [client_setClient_map, client_setClient_map]
    have hrel := h.client i hi
    cases hb : m.client i with
    | none =>
      rw [hb] at hrel
      generalize m'.client (ρ i) = r at hrel
      cases hrel
      exact .none
    | some b =>
      obtain ⟨b', hb', hbtwin⟩ := h.of_client hb
      have hbid : b.id = i := Keyed.key_of_find hb
      rw [hb', Option.map_some, Option.map_some]
      refine .some ?_
      rw [hbtwin.id, hid, hid', hbid]
      by_cases heq : i = id
      · rw [if_pos heq, if_pos (congrArg ρ heq)]
        exact htwin
      · rw [if_neg heq, if_neg fun hρ => heq (h.injective i id hi hused hρ)]
        exact hbtwin
  · rw [idsOn_setClient h.good.toWf hc hchanges,
      idsOn_setClient h.good'.toWf hc' hchanges']
    exact h.channels channel

end Changes

section Lists

theorem client_unlist (m : QemudMultiplexer ω δ) (c : QemudClient ω) (i : Nat) :
    (m.unlist c).client i = if i = c.id then none else m.client i := by
  rw [client, clients_unlist]
  split
  · next heq =>
    rw [Keyed.find, List.find?_eq_none]
    intro b hb
    rw [heq]
    simpa using (Keyed.mem_without.mp hb).2
  · next hne =>
    exact Keyed.find?_without _ fun b _ hb => decide_eq_false fun heq => hne (heq.symm.trans hb)

theorem idsOn_unlist (m : QemudMultiplexer ω δ) (c : QemudClient ω) (channel : Int) :
    idsOn (m.unlist c).clients channel = (idsOn m.clients channel).filter fun i => i ≠ c.id := by
  rw [clients_unlist, idsOn, idsOn, Keyed.without]
  simp only [List.filter_map, List.map_map, List.filter_filter, Function.comp_def]
  congr 1
  exact List.filter_congr fun b _ => Bool.and_comm ..

theorem mem_idsOn {clients : List (QemudClient ω)} {id : Nat} {channel : Int} :
    id ∈ idsOn clients channel ↔ ∃ c ∈ clients, c.channel = channel ∧ c.id = id := by
  simp only [idsOn, List.mem_map, List.mem_filter, decide_eq_true_eq]
  constructor
  · rintro ⟨p, ⟨⟨c, hc, rfl⟩, hchannel⟩, rfl⟩
    exact ⟨c, hc, hchannel, rfl⟩
  · rintro ⟨c, hc, hchannel, rfl⟩
    exact ⟨_, ⟨⟨c, hc, rfl⟩, hchannel⟩, rfl⟩

theorem faces_unlist {m : QemudMultiplexer ω δ} (hwf : m.Wf) {c c₁ : QemudClient ω}
    (hc : c ∈ m.clients) (hid : c₁.id = c.id) (hname : c₁.serviceName = c.serviceName) :
    (m.unlist c₁).services.map QemudService.face =
      (m.services.map QemudService.face).map fun face =>
        if c.serviceName = some face.1 then (face.1, face.2.1, face.2.2 - 1) else face := by
  rw [unlist, hname]
  cases hservice : c.serviceName with
  | none => simp
  | some name =>
    dsimp only
    rw [setService, List.map_map, List.map_map]
    refine List.map_congr_left fun sv hsv => ?_
    by_cases heq : sv.name = name
    · have hmem : c₁.id ∈ sv.clients := by
        rw [hwf.listed sv hsv, hid]
        exact mem_idsOf.mpr ⟨c, hc, by rw [hservice, heq], rfl⟩
      simp [QemudService.face, heq, removeClient, hmem]
    · simp [QemudService.face, heq, Ne.symm heq]

theorem faces_clientNew (m : QemudMultiplexer ω δ) (name : CString) (channel : Int) (opq : ω) :
    (m.clientNew name channel opq).2.services.map QemudService.face =
      (m.services.map QemudService.face).map fun face =>
        if face.1 = name then (face.1, face.2.1, face.2.2 + 1) else face := by
  rw [clientNew, setService, List.map_map, List.map_map]
  refine List.map_congr_left fun sv _ => ?_
  by_cases heq : sv.name = name
  · simp [QemudService.face, heq, addClient]
  · simp [QemudService.face, heq]

variable (h : Sim ρ used agree alike before before' m m') {c c₁ c' c₁' : QemudClient ω}

include h

theorem Sim.unlist (hc : c ∈ m.clients) (hc' : c' ∈ m'.clients) (htwin : Twin ρ agree c c')
    (hchannel : c.channel ≠ 0) (hid : c₁.id = c.id) (hname : c₁.serviceName = c.serviceName)
    (hid' : c₁'.id = c'.id) (hname' : c₁'.serviceName = c'.serviceName) :
    Sim ρ used agree alike before before' (m.unlist c₁) (m'.unlist c₁') := by
  have hchannel' : c'.channel ≠ 0 := htwin.channel ▸ hchannel
  have hused := h.known c hc
  have hsame := unlist_same m c₁
  have hsame' := unlist_same m' c₁'
  constructor
  case injective => exact h.injective
  case good => exact h.good.unlist hc hchannel hid hname
  case good' => exact h.good'.unlist hc' hchannel' hid' hname'
  case serial =>
    rw [hsame, hsame']
    exact h.serial
  case services =>
    rw [faces_unlist h.good.toWf hc hid hname, faces_unlist h.good'.toWf hc' hid' hname',
      h.services, htwin.serviceName]
  case data =>
    rw [hsame, hsame']
    exact h.data
  case next =>
    rw [hsame, hsame']
    exact h.next
  case known =>
    intro b hb
    rw [clients_unlist] at hb
    exact h.known b (Keyed.mem_without.mp hb).1
  case client =>
    intro i hi
    rw [client_unlist, client_unlist, hid, hid', htwin.id]
    by_cases heq : i = c.id
    · rw [if_pos heq, if_pos (congrArg ρ heq)]
      exact .none
    · rw [if_neg heq, if_neg fun hρ => heq (h.injective i c.id hi hused hρ)]
      exact h.client i hi
  case channels =>
    intro channel
    rw [idsOn_unlist, idsOn_unlist, h.channels, List.filter_map, hid, hid', htwin.id]
    refine congrArg (List.map ρ) (List.filter_congr fun i hi => ?_)
    obtain ⟨b, hb, -, rfl⟩ := mem_idsOn.mp hi
    dsimp only [Function.comp_apply]
    rw [decide_eq_decide, not_iff_not]
    exact ⟨fun hρ => h.injective b.id c.id (h.known b hb) hused hρ, congrArg ρ⟩
  case calls =>
    rw [hsame, hsame']
    exact h.calls

end Lists

section Operations

variable {code : ServiceCode ω δ} (hcode : Respects code agree alike)
  (h : Sim ρ used agree alike before before' m m') {c c₁ c' c₁' : QemudClient ω} {id : Nat}
  {name : CString} {channel : Int} {msg : List UInt8}

theorem writes_if {p : Prop} [Decidable p] (m : QemudMultiplexer ω δ) (msg : List UInt8) :
    Writes m (if p then m.serialSend 0 false msg else m) := by
  split
  · exact writes_serialSend ..
  · exact .refl m

include h in
theorem Sim.names : (m'.services.map fun sv => sv.name) = m.services.map fun sv => sv.name := by
  have hmap := congrArg (List.map Prod.fst) h.services
  rwa [List.map_map, List.map_map] at hmap

include h in
theorem Sim.with_client {σ τ : Type} {S : σ → τ → Prop} (hid : used id)
    {f : QemudClient ω → Option σ} {g : QemudClient ω → Option τ}
    (hfg : ∀ c c', m.client id = some c → m'.client (ρ id) = some c' → Twin ρ agree c c' →
      Option.Rel S (f c) (g c')) :
    Option.Rel S ((m.client id).bind f) ((m'.client (ρ id)).bind g) := by
  cases hc : m.client id with
  | none =>
    have hrel := h.client id hid
    rw [hc] at hrel
    generalize m'.client (ρ id) = r at hrel
    cases hrel
    exact .none
  | some c =>
    obtain ⟨c', hc', htwin⟩ := h.of_client hc
    rw [hc']
    exact hfg c c' hc hc' htwin

include hcode h

theorem Sim.disconnect (hc : c ∈ m.clients) (hc' : c' ∈ m'.clients) (htwin : Twin ρ agree c c')
    (hchannel : c.channel ≠ 0) (hid : c₁.id = c.id) (hservice : c₁.service = c.service)
    (hid' : c₁'.id = c'.id) (hservice' : c₁'.service = c'.service) :
    Sim ρ used agree alike before before' (m.disconnect code c₁) (m'.disconnect code c₁') := by
  have hlists := h.unlist hc hc' htwin hchannel hid (congrArg (Option.map Prod.fst) hservice) hid'
    (congrArg (Option.map Prod.fst) hservice')
  have hsent := hlists.writes
    (writes_if (p := 0 < c₁.channel) _ (ascii "disconnect:" ++ format02x c₁.channel.toNat))
    (writes_if (p := 0 < c₁'.channel) _ (ascii "disconnect:" ++ format02x c₁'.channel.toNat))
  rw [disconnect_eq, disconnect_eq]
  dsimp only
  rcases Option.eq_none_or_eq_some c.service with hs | ⟨⟨name, opq⟩, hs⟩
  · rw [hservice, hservice', hs, htwin.service_none hs]
    exact hsent
  · obtain ⟨opq', hs', hopq⟩ := htwin.service_some hs
    have hcall : Call.close c₁'.id = (Call.close c₁.id).rename ρ := by
      rw [hid, hid', htwin.id]
      rfl
    rw [hservice, hservice', hs, hs', hcall]
    exact hsent.data_call (hcode.close name opq opq' _ _ hopq hsent.data) (.close c₁.id)

omit hcode in
theorem Sim.clientNew (hname : name ∈ m.services.map fun sv => sv.name)
    (hchannel : 0 < channel ∧ channel < 256) {opq opq' : ω} (hopq : agree opq opq') :
    Sim ρ used agree alike before before' (m.clientNew name channel opq).2
      (m'.clientNew name channel opq').2 := by
  have hname' : name ∈ m'.services.map fun sv => sv.name := by
    rw [h.names]
    exact hname
  have hnew : used m.next ∧ ρ m.next = m'.next := h.next 0
  constructor
  case injective => exact h.injective
  case good => exact h.good.clientNew hname hchannel opq
  case good' => exact h.good'.clientNew hname' hchannel opq'
  case serial => exact h.serial
  case services => rw [faces_clientNew, faces_clientNew, h.services]
  case data => exact h.data
  case next =>
    intro k
    have hk := h.next (1 + k)
    rwa [← Nat.add_assoc, ← Nat.add_assoc] at hk
  case known => exact List.forall_mem_cons.mpr ⟨hnew.1, h.known⟩
  case client =>
    intro i hi
    have hfind : ∀ (m : QemudMultiplexer ω δ) (opq : ω) (i : Nat),
        (m.clientNew name channel opq).2.client i =
          if m.next = i then some (.alloc m.next channel (some (name, opq))) else m.client i := by
      intro m opq i
      rw [QemudMultiplexer.client, Keyed.find, clients_clientNew, List.find?_cons]
      by_cases heq : m.next = i
      · rw [if_pos heq, decide_eq_true (show (QemudClient.alloc m.next channel
          (some (name, opq))).id = i from heq)]
      · rw [if_neg heq, decide_eq_false (show ¬(QemudClient.alloc m.next channel
          (some (name, opq))).id = i from heq)]
        rfl
    rw [hfind, hfind]
    by_cases heq : m.next = i
    · subst heq
      rw [if_pos rfl, if_pos hnew.2.symm]
      exact .some ⟨hnew.2.symm, rfl, .some ⟨rfl, hopq⟩, rfl, rfl, rfl, rfl, fun _ => rfl,
        fun _ => rfl⟩
    · have hne : m'.next ≠ ρ i := by
        intro hρ
        exact heq (h.injective _ _ hnew.1 hi (hnew.2.trans hρ))
      rw [if_neg heq, if_neg hne]
      exact h.client i hi
  case channels =>
    intro ch
    have hids : ∀ (m : QemudMultiplexer ω δ) (opq : ω),
        idsOn (m.clientNew name channel opq).2.clients ch =
          if channel = ch then m.next :: idsOn m.clients ch else idsOn m.clients ch := by
      intro m opq
      rw [clients_clientNew, idsOn, List.map_cons, List.filter_cons]
      by_cases heq : channel = ch
      · simp [QemudClient.alloc, heq, idsOn]
      · simp [QemudClient.alloc, heq, idsOn]
    rw [hids, hids, h.channels]
    split
    · rw [List.map_cons, hnew.2]
    · rfl
  case calls => exact h.calls

end Operations

end QemudMultiplexer

end M2M.Qemud
