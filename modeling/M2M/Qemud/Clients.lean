import M2M.Qemud.Multiplexer
import M2M.Qemud.Packets

/-! The lists of clients stay consistent, whatever the guest sends and the services call. -/

open M2M.Lib

namespace M2M.Qemud

def QemudClient.serviceName {ω : Type} (c : QemudClient ω) : Option CString :=
  c.service.map Prod.fst

/-- The sinks of a client between two messages. -/
structure QemudClient.Sound {ω : Type} (c : QemudClient ω) : Prop where
  headerSize : c.header.size = frameHeaderSize
  headerUsed : c.header.used ≤ frameHeaderSize
  header0 : c.header0.length = frameHeaderSize
  headerEmpty : c.needHeader = false → c.header.used = 0
  payloadUsed : c.needHeader = false → c.payload.used < c.payload.size
  buff : c.needHeader = false → c.buff.length = c.payload.size + 1

/-- Only the control channel has no service. -/
def QemudClient.Placed {ω : Type} (c : QemudClient ω) : Prop :=
  match c.service with
  | none => c.channel = 0
  | some _ => 0 < c.channel ∧ c.channel < 256

namespace QemudMultiplexer

variable {ω δ : Type} {m m' m'' : QemudMultiplexer ω δ}

def idsOf (clients : List (QemudClient ω)) (name : CString) : List Nat :=
  ((clients.map fun c => (c.id, c.serviceName)).filter fun p => p.2 = some name).map Prod.fst

/-- The lists belong together. -/
structure Wf (m : QemudMultiplexer ω δ) : Prop where
  idsNodup : (m.clients.map fun c => c.id).Nodup
  idsLt : ∀ c ∈ m.clients, c.id < m.next
  namesNodup : (m.services.map fun sv => sv.name).Nodup
  listed : ∀ sv ∈ m.services, sv.clients = idsOf m.clients sv.name
  known : ∀ c ∈ m.clients, ∀ name, c.serviceName = some name →
    name ∈ m.services.map fun sv => sv.name
  sound : ∀ c ∈ m.clients, c.Sound
  placed : ∀ c ∈ m.clients, c.Placed

/-- What all operations keep. -/
structure Moves (m m' : QemudMultiplexer ω δ) : Prop where
  wf : m.Wf → m'.Wf
  serial : m'.serial = { m.serial with cs := m'.serial.cs, version := m'.serial.version }
  services : (m'.services.map fun sv => (sv.name, sv.maxClients)) =
    m.services.map fun sv => (sv.name, sv.maxClients)

theorem Moves.refl (m : QemudMultiplexer ω δ) : Moves m m := ⟨id, rfl, rfl⟩

theorem Moves.trans (h : Moves m m') (h' : Moves m' m'') : Moves m m'' := by
  refine ⟨fun hwf => h'.wf (h.wf hwf), ?_, h'.services.trans h.services⟩
  rw [h'.serial, h.serial]

theorem Moves.names (h : Moves m m') :
    (m'.services.map fun sv => sv.name) = m.services.map fun sv => sv.name := by
  have hmap := congrArg (List.map Prod.fst) h.services
  rwa [List.map_map, List.map_map] at hmap

section Lists

variable {c c' : QemudClient ω} {id : Nat} {name : CString} {clients : List (QemudClient ω)}

theorem mem_idsOf :
    id ∈ idsOf clients name ↔ ∃ c ∈ clients, c.serviceName = some name ∧ c.id = id := by
  simp only [idsOf, List.mem_map, List.mem_filter, decide_eq_true_eq]
  constructor
  · rintro ⟨p, ⟨⟨c, hc, rfl⟩, hname⟩, rfl⟩
    exact ⟨c, hc, hname, rfl⟩
  · rintro ⟨c, hc, hname, rfl⟩
    exact ⟨_, ⟨⟨c, hc, rfl⟩, hname⟩, rfl⟩

theorem nodup_idsOf (h : (clients.map fun c => c.id).Nodup) (name : CString) :
    (idsOf clients name).Nodup := by
  have hids : (clients.map fun c => c.id) =
      (clients.map fun c => (c.id, c.serviceName)).map Prod.fst := by
    rw [List.map_map]
    rfl
  rw [hids] at h
  exact h.sublist (List.filter_sublist.map Prod.fst)

theorem idsOf_cons (c : QemudClient ω) (clients : List (QemudClient ω)) (name : CString) :
    idsOf (c :: clients) name =
      if c.serviceName = some name then c.id :: idsOf clients name else idsOf clients name := by
  rw [idsOf, List.map_cons, List.filter_cons]
  split
  · next h => rw [if_pos (of_decide_eq_true h), List.map_cons, idsOf]
  · next h => rw [if_neg (fun hname => h (decide_eq_true hname)), idsOf]

theorem idsOf_without (clients : List (QemudClient ω)) (id : Nat) (name : CString) :
    idsOf (Keyed.without (fun c => c.id) clients id) name =
      (idsOf clients name).filter fun i => i ≠ id := by
  induction clients with
  | nil => rfl
  | cons c clients ih =>
    rw [idsOf_cons, Keyed.without, List.filter_cons]
    by_cases hid : c.id = id
    · rw [if_neg (by simp [hid])]
      refine ih.trans ?_
      split
      · rw [List.filter_cons, if_neg (by simp [hid])]
      · rfl
    · rw [if_pos (by simp [hid]), idsOf_cons]
      split
      · rw [List.filter_cons, if_pos (by simp [hid])]
        exact congrArg (c.id :: ·) ih
      · exact ih

theorem placed_congr (hname : c'.serviceName = c.serviceName) (hchannel : c'.channel = c.channel) :
    c'.Placed ↔ c.Placed := by
  rw [QemudClient.serviceName, QemudClient.serviceName] at hname
  rw [QemudClient.Placed, QemudClient.Placed, hchannel]
  cases hs : c.service with
  | none =>
    rw [hs] at hname
    rw [Option.map_eq_none_iff.mp hname]
  | some p =>
    rw [hs] at hname
    obtain ⟨p', hp', -⟩ := Option.map_eq_some_iff.mp hname
    rw [hp']

end Lists

section Moves

variable {c c' : QemudClient ω} {id : Nat} {name : CString} {channel : Int}

theorem moves_call (m : QemudMultiplexer ω δ) (callback : Call) : Moves m (m.call callback) :=
  ⟨fun h => { h with }, rfl, rfl⟩

theorem moves_data (m : QemudMultiplexer ω δ) (data : δ) : Moves m { m with data } :=
  ⟨fun h => { h with }, rfl, rfl⟩

theorem moves_version (m : QemudMultiplexer ω δ) (version : QemudVersion) :
    Moves m { m with serial := { m.serial with version } } :=
  ⟨fun h => { h with }, rfl, rfl⟩

theorem moves_serialSend (m : QemudMultiplexer ω δ) (channel : Int) (framing : Bool)
    (msg : List UInt8) : Moves m (m.serialSend channel framing msg) := by
  obtain ⟨bytes, hbytes⟩ := m.serial.exists_send_eq_write channel framing msg
  refine ⟨fun h => { h with }, ?_, rfl⟩
  rw [serialSend, hbytes]
  rfl

theorem moves_setClient (hc : c ∈ m.clients) (hid : c'.id = c.id)
    (hname : c'.serviceName = c.serviceName) (hchannel : c'.channel = c.channel)
    (hsound : c.Sound → c'.Sound) : Moves m (m.setClient c') := by
  refine ⟨fun h => ?_, rfl, rfl⟩
  have hpairs : ((m.setClient c').clients.map fun c => (c.id, c.serviceName)) =
      m.clients.map fun c => (c.id, c.serviceName) := by
    refine Keyed.map_replace _ fun b hb hsame => ?_
    obtain rfl := List.inj_on_of_nodup_map h.idsNodup hb hc (hsame.trans hid)
    rw [hname, hid]
  have hold : ∀ {p : QemudClient ω → Prop}, p c' → (∀ c ∈ m.clients, p c) →
      ∀ c ∈ (m.setClient c').clients, p c := by
    intro p hp hall c hc
    rcases Keyed.mem_replace hc with rfl | hc
    · exact hp
    · exact hall c hc
  refine { h with
    idsNodup := ?_
    idsLt := ?_
    listed := fun sv hsv => ?_
    known := ?_
    sound := hold (hsound (h.sound c hc)) h.sound
    placed := hold ((placed_congr hname hchannel).mpr (h.placed c hc)) h.placed }
  · rw [show (m.setClient c').clients.map _ = m.clients.map _ from Keyed.map_key_replace ..]
    exact h.idsNodup
  · refine hold ?_ h.idsLt
    rw [hid]
    exact h.idsLt c hc
  · rw [h.listed sv hsv, idsOf, idsOf, hpairs]
  · exact hold (fun name hname' => h.known c hc name (hname ▸ hname')) h.known

theorem map_setService {β : Type} (m : QemudMultiplexer ω δ) (name : CString)
    {f : QemudService → QemudService} (g : QemudService → β) (h : ∀ sv, g (f sv) = g sv) :
    (m.setService name f).services.map g = m.services.map g := by
  rw [setService, List.map_map]
  refine List.map_congr_left fun sv _ => ?_
  simp only [Function.comp_apply]
  split
  · exact h sv
  · rfl

theorem mem_setService {f : QemudService → QemudService} {sv : QemudService}
    (hsv : sv ∈ (m.setService name f).services) :
    ∃ sv' ∈ m.services, sv = if sv'.name = name then f sv' else sv' := by
  obtain ⟨sv', hsv', rfl⟩ := List.mem_map.mp hsv
  exact ⟨sv', hsv', rfl⟩

theorem sound_alloc (id : Nat) (channel : Int) (service : Option (CString × ω)) :
    (QemudClient.alloc id channel service).Sound :=
  ⟨rfl, Nat.zero_le _, List.length_replicate .., fun h => (nomatch h), fun h => (nomatch h),
    fun h => (nomatch h)⟩

theorem wf_init {services : List (CString × Int32)} (h : (services.map Prod.fst).Nodup)
    (data : δ) : (init services data : QemudMultiplexer ω δ).Wf where
  idsNodup := List.nodup_singleton _
  idsLt := List.forall_mem_singleton.mpr Nat.one_pos
  namesNodup := by
    rw [init, List.map_map]
    exact h
  listed := by
    intro sv hsv
    obtain ⟨p, -, rfl⟩ := List.mem_map.mp hsv
    rfl
  known := List.forall_mem_singleton.mpr fun name hname => (nomatch hname)
  sound := List.forall_mem_singleton.mpr (sound_alloc ..)
  placed := List.forall_mem_singleton.mpr rfl

theorem moves_clientNew (hname : name ∈ m.services.map fun sv => sv.name)
    (hchannel : 0 < channel ∧ channel < 256) (opq : ω) :
    Moves m (m.clientNew name channel opq).2 := by
  refine ⟨fun h => ?_, rfl, map_setService _ _ _ fun sv => rfl⟩
  have hcons : ∀ {p : QemudClient ω → Prop}, p (.alloc m.next channel (some (name, opq))) →
      (∀ c ∈ m.clients, p c) → ∀ c ∈ (m.clientNew name channel opq).2.clients, p c :=
    fun hnew hold => List.forall_mem_cons.mpr ⟨hnew, hold⟩
  have hnames : ((m.clientNew name channel opq).2.services.map fun sv => sv.name) =
      m.services.map fun sv => sv.name := map_setService _ _ _ fun sv => rfl
  constructor
  · refine List.nodup_cons.mpr ⟨fun hmem => ?_, h.idsNodup⟩
    obtain ⟨c, hc, hid⟩ := List.mem_map.mp hmem
    exact Nat.ne_of_lt (h.idsLt c hc) hid
  · exact hcons (Nat.lt_succ_self _) fun c hc => Nat.lt_succ_of_lt (h.idsLt c hc)
  · rw [hnames]
    exact h.namesNodup
  · intro sv hsv
    obtain ⟨sv', hsv', rfl⟩ := mem_setService hsv
    have hids : ∀ x, idsOf (m.clientNew name channel opq).2.clients x =
        if name = x then m.next :: idsOf m.clients x else idsOf m.clients x := by
      intro x
      rw [show (m.clientNew name channel opq).2.clients = _ :: m.clients from rfl, idsOf_cons]
      exact if_congr Option.some_inj rfl rfl
    rw [hids]
    by_cases hsame : sv'.name = name
    · rw [if_pos hsame, if_pos (show name = (addClient m.next sv').name from hsame.symm), addClient,
        h.listed sv' hsv']
    · rw [if_neg hsame, if_neg (Ne.symm hsame), h.listed sv' hsv']
  · rw [hnames]
    refine hcons (fun x hx => ?_) h.known
    cases hx
    exact hname
  · exact hcons (sound_alloc ..) h.sound
  · exact hcons hchannel h.placed

theorem clients_removeClient (id : Nat) (sv : QemudService) :
    (removeClient id sv).clients = sv.clients.erase id := by
  rw [removeClient]
  split
  · rfl
  · next h => exact (List.erase_of_not_mem h).symm

theorem removeClient_same (id : Nat) (sv : QemudService) :
    (removeClient id sv).name = sv.name ∧ (removeClient id sv).maxClients = sv.maxClients := by
  rw [removeClient]
  split
  · exact ⟨rfl, rfl⟩
  · exact ⟨rfl, rfl⟩

variable (code : ServiceCode ω δ)

def unlist (m : QemudMultiplexer ω δ) (c : QemudClient ω) : QemudMultiplexer ω δ :=
  match c.serviceName with
  | none => { m with clients := Keyed.without (fun c => c.id) m.clients c.id }
  | some name =>
    { m with clients := Keyed.without (fun c => c.id) m.clients c.id }.setService name
      (removeClient c.id)

theorem clients_unlist (m : QemudMultiplexer ω δ) (c : QemudClient ω) :
    (m.unlist c).clients = Keyed.without (fun c => c.id) m.clients c.id := by
  rw [unlist]
  split
  · rfl
  · rfl

theorem unlist_same (m : QemudMultiplexer ω δ) (c : QemudClient ω) :
    m.unlist c = { m with clients := (m.unlist c).clients, services := (m.unlist c).services } := by
  rw [unlist]
  split
  · rfl
  · rfl

theorem Wf.listed_unlist (h : m.Wf) (hc : c ∈ m.clients) (hid : c'.id = c.id)
    (hname : c'.serviceName = c.serviceName) {sv : QemudService}
    (hsv : sv ∈ (m.unlist c').services) :
    sv.clients = (idsOf m.clients sv.name).filter fun i => i ≠ c'.id := by
  have howner : ∀ {x}, c'.id ∈ idsOf m.clients x → c'.serviceName = some x := by
    intro x hx
    obtain ⟨b, hb, hbname, hbid⟩ := mem_idsOf.mp hx
    have hsame := List.inj_on_of_nodup_map h.idsNodup hb hc (hbid.trans hid)
    rw [hname, ← hsame, hbname]
  have hother : ∀ {x}, c'.serviceName ≠ some x →
      (idsOf m.clients x).filter (fun i => i ≠ c'.id) = idsOf m.clients x := by
    intro x hx
    refine List.filter_eq_self.mpr fun i hi => decide_eq_true fun heq => hx (howner ?_)
    rwa [← heq]
  rw [unlist] at hsv
  split at hsv
  · next hnone =>
    rw [hother (by rw [hnone]; exact nofun)]
    exact h.listed sv hsv
  · next name hsome =>
    obtain ⟨sv', hsv', rfl⟩ := mem_setService hsv
    by_cases heq : sv'.name = name
    · rw [if_pos heq, clients_removeClient, (removeClient_same c'.id sv').1, h.listed sv' hsv']
      refine ((nodup_idsOf h.idsNodup _).erase_eq_filter _).trans (List.filter_congr fun i _ => ?_)
      by_cases hi : i = c'.id
      · simp [hi]
      · simp [hi]
    · rw [if_neg heq, hother (fun hx => heq (Option.some_inj.mp (hsome.symm.trans hx)).symm)]
      exact h.listed sv' hsv'

theorem moves_unlist (hc : c ∈ m.clients) (hid : c'.id = c.id)
    (hname : c'.serviceName = c.serviceName) : Moves m (m.unlist c') := by
  have hsame : ∀ {β : Type} (g : QemudService → β), (∀ i sv, g (removeClient i sv) = g sv) →
      (m.unlist c').services.map g = m.services.map g := by
    intro β g hg
    rw [unlist]
    split
    · rfl
    · exact map_setService _ _ _ (hg c'.id)
  have hclients := clients_unlist m c'
  have hnext : (m.unlist c').next = m.next := by rw [unlist_same]
  refine ⟨fun h => ?_, ?_, hsame _ fun i sv => ?_⟩
  · have hnames := hsame (fun sv => sv.name) fun i sv => (removeClient_same i sv).1
    have hsub : ∀ {p : QemudClient ω → Prop}, (∀ c ∈ m.clients, p c) →
        ∀ c ∈ (m.unlist c').clients, p c := by
      intro p hall c hc
      rw [hclients, Keyed.mem_without] at hc
      exact hall c hc.1
    constructor
    · rw [hclients]
      exact Keyed.nodup_without h.idsNodup _
    · rw [hnext]
      exact hsub h.idsLt
    · rw [hnames]
      exact h.namesNodup
    · intro sv hsv
      rw [hclients, idsOf_without]
      exact h.listed_unlist hc hid hname hsv
    · rw [hnames]
      exact hsub h.known
    · exact hsub h.sound
    · exact hsub h.placed
  · rw [unlist_same]
  · rw [(removeClient_same i sv).1, (removeClient_same i sv).2]

theorem disconnect_eq (m : QemudMultiplexer ω δ) (c : QemudClient ω) :
    m.disconnect code c =
      let m := m.unlist c
      let m := if 0 < c.channel then
          m.serialSend 0 false (ascii "disconnect:" ++ format02x c.channel.toNat)
        else m
      match c.service with
      | none => m
      | some (name, opq) =>
        { m with data := code.clieClose name opq m.data }.call (.close c.id) := by
  rw [disconnect, unlist, QemudClient.serviceName]
  cases c.service with
  | none => rfl
  | some p =>
    obtain ⟨name, opq⟩ := p
    by_cases hchannel : 0 < c.channel
    · simp only [if_pos hchannel, serialSend, setService, call, Option.map_some]
    · simp only [if_neg hchannel, setService, call, Option.map_some]

theorem moves_disconnect (hc : c ∈ m.clients) (hid : c'.id = c.id)
    (hservice : c'.service = c.service) : Moves m (m.disconnect code c') := by
  have hlists := moves_unlist hc hid (congrArg (Option.map Prod.fst) hservice)
  have hsend : Moves m (if 0 < c'.channel then
      (m.unlist c').serialSend 0 false (ascii "disconnect:" ++ format02x c'.channel.toNat)
      else m.unlist c') := by
    split
    · exact hlists.trans (moves_serialSend ..)
    · exact hlists
  rw [disconnect_eq]
  dsimp only
  split
  · exact hsend
  · exact (hsend.trans (moves_data _ _)).trans (moves_call _ _)

end Moves

section Runs

variable (code : ServiceCode ω δ) {id : Nat} {name : CString} {channel : Int} {msg : List UInt8}

theorem moves_clientSend (h : m.clientSend msg id = some m') : Moves m m' := by
  obtain ⟨c, -, hm'⟩ := Option.bind_eq_some_iff.mp h
  cases hm'
  exact moves_serialSend ..

theorem moves_setFraming {framing : Bool} (h : m.setFraming framing id = some m') : Moves m m' := by
  obtain ⟨c, hc, hm'⟩ := Option.bind_eq_some_iff.mp h
  cases hm'
  refine moves_setClient (Keyed.mem_of_find hc) rfl rfl rfl fun hsound => ?_
  have hneed : (c.needHeader || c.framing) = false → c.needHeader = false :=
    fun h => (Bool.or_eq_false_iff.mp h).1
  exact ⟨hsound.headerSize, hsound.headerUsed, hsound.header0,
    fun h => hsound.headerEmpty (hneed h),
    fun h => hsound.payloadUsed (hneed h), fun h => hsound.buff (hneed h)⟩

theorem moves_foldlM {α : Type} {step : QemudMultiplexer ω δ → α → Option (QemudMultiplexer ω δ)}
    (hstep : ∀ m a m', step m a = some m' → Moves m m') {as : List α}
    (h : as.foldlM step m = some m') : Moves m m' :=
  invariant_foldlM (fun m₁ a m₂ hm h => hm.trans (hstep m₁ a m₂ h)) (.refl m) h

theorem moves_broadcast (h : m.broadcast msg id = some m') : Moves m m' := by
  obtain ⟨c, -, h⟩ := Option.bind_eq_some_iff.mp h
  obtain ⟨p, -, h⟩ := Option.bind_eq_some_iff.mp h
  obtain ⟨sv, -, h⟩ := Option.bind_eq_some_iff.mp h
  exact moves_foldlM (fun _ _ _ => moves_clientSend) h

theorem moves_runCommand (command : Command) (h : m.runCommand code id command = some m') :
    Moves m m' := by
  cases command with
  | send msg => exact moves_clientSend h
  | setFraming framing => exact moves_setFraming h
  | broadcast msg => exact moves_broadcast h
  | close =>
    obtain ⟨c, hc, hm'⟩ := Option.bind_eq_some_iff.mp h
    cases hm'
    exact moves_disconnect code (Keyed.mem_of_find hc) rfl rfl

theorem moves_runCommands {commands : List Command}
    (h : m.runCommands code id commands = some m') : Moves m m' :=
  moves_foldlM (fun _ command _ => moves_runCommand code command) h

theorem moves_connectClient {r : Option Nat} (hname : name ∈ m.services.map fun sv => sv.name)
    (hchannel : 0 < channel ∧ channel < 256)
    (h : m.connectClient code name channel = some (r, m')) : Moves m m' := by
  rw [connectClient] at h
  dsimp only at h
  split at h
  · cases h
    exact (moves_call m _).trans (moves_data _ _)
  · next opq commands data _ =>
    obtain ⟨m₁, hm₁, hm'⟩ := Option.bind_eq_some_iff.mp h
    cases hm'
    have hcall := (moves_call m (.connect name channel)).trans (moves_data _ data)
    have hnew :=
      moves_clientNew (m := { m.call (.connect name channel) with data }) hname hchannel opq
    exact (hcall.trans hnew).trans (moves_runCommands code hm₁)

theorem moves_connect {ret : Int} (hchannel : 0 < channel ∧ channel < 256)
    (h : m.connect code name channel = some (ret, m')) : Moves m m' := by
  rw [connect] at h
  cases hfind : m.findService name with
  | none =>
    rw [hfind] at h
    cases h
    exact .refl m
  | some sv =>
    rw [hfind] at h
    dsimp only at h
    split at h
    · cases h
      exact .refl m
    · obtain ⟨⟨client, m₁⟩, hm₁, hm'⟩ := Option.bind_eq_some_iff.mp h
      cases hm'
      refine moves_connectClient code ?_ hchannel hm₁
      exact List.mem_map.mpr
        ⟨sv, List.mem_of_find?_eq_some hfind, by simpa using List.find?_some hfind⟩

theorem moves_disconnectChannel (m : QemudMultiplexer ω δ) (channel : Int) :
    Moves m (m.disconnectChannel code channel) := by
  rw [disconnectChannel]
  split
  · exact .refl m
  · next c hc =>
    exact moves_disconnect code (List.mem_of_find?_eq_some hc) rfl rfl

theorem nameAndId_eq_some {hex : List UInt8} (h : nameAndId msg = some (name, hex)) :
    hex.length = 2 := by
  rw [nameAndId] at h
  split at h
  · split at h
    · cases h
      rfl
    · cases h
  · cases h

theorem channel_of_parseControl (h : parseControl msg = .connect name channel ∨
    parseControl msg = .legacyConnect name channel) : 0 < channel ∧ channel < 256 := by
  have hid : ∀ {hex : List UInt8}, hex.length = 2 → ¬hex2int hex ≤ 0 →
      0 < hex2int hex ∧ hex2int hex < 256 := by
    intro hex hlen hpos
    have hlt := hex2int_lt hex
    rw [hlen] at hlt
    exact ⟨Int.not_le.mp hpos, hlt⟩
  rw [parseControl] at h
  split at h
  · split at h
    · rcases h with h | h <;> cases h
    · next hname =>
      split at h
      · rcases h with h | h <;> cases h
      · next hpos =>
        rcases h with h | h
        · cases h
          exact hid (nameAndId_eq_some hname) hpos
        · cases h
  · split at h
    · split at h
      · rcases h with h | h <;> cases h
      · rcases h with h | h <;> cases h
    · split at h
      · split at h
        · rcases h with h | h <;> cases h
        · next hname =>
          split at h
          · rcases h with h | h <;> cases h
          · next hpos =>
            rcases h with h | h
            · cases h
            · cases h
              exact hid (nameAndId_eq_some hname) hpos
      · rcases h with h | h <;> cases h

theorem moves_controlRecv (h : m.controlRecv code msg = some m') : Moves m m' := by
  rw [controlRecv] at h
  cases hparse : parseControl msg with
  | malformed =>
    rw [hparse] at h
    cases h
    exact .refl _
  | connect name channel =>
    rw [hparse] at h
    obtain ⟨⟨ret, m₁⟩, hm₁, hm'⟩ := Option.bind_eq_some_iff.mp h
    cases hm'
    have hchannel := channel_of_parseControl (.inl hparse)
    exact (moves_connect code hchannel hm₁).trans (moves_serialSend ..)
  | disconnect channel =>
    rw [hparse] at h
    cases h
    exact moves_disconnectChannel code m channel
  | legacyConnect name channel =>
    rw [hparse] at h
    dsimp only at h
    split at h
    · cases h
      exact .refl _
    · obtain ⟨⟨ret, m₁⟩, hm₁, hm'⟩ := Option.bind_eq_some_iff.mp h
      cases hm'
      have hchannel := channel_of_parseControl (.inr hparse)
      exact (moves_version m .legacy).trans (moves_connect code hchannel hm₁)
  | unknown =>
    rw [hparse] at h
    dsimp only at h
    split at h
    · cases h
      exact .refl _
    · cases h
      exact moves_serialSend ..

theorem moves_callRecv (h : m.callRecv code id msg = some m') : Moves m m' := by
  obtain ⟨c, hc, h⟩ := Option.bind_eq_some_iff.mp h
  have hcall := moves_call m (.recv id msg)
  dsimp only at h
  split at h
  · exact hcall.trans (moves_controlRecv code h)
  · next name opq hservice =>
    have hdata := moves_data (m.call (.recv id msg)) (code.clieRecv name msg opq m.data).2.1
    refine .trans ((hcall.trans hdata).trans ?_) (moves_runCommands code h)
    refine moves_setClient (Keyed.mem_of_find hc) rfl ?_ rfl fun hsound => ?_
    · rw [QemudClient.serviceName, QemudClient.serviceName, hservice]
      rfl
    · exact { hsound with }

variable {c c' : QemudClient ω} {rest : List UInt8}

theorem moves_readFrame (hc : c ∈ m.clients) (hid : c'.id = c.id)
    (hname : c'.serviceName = c.serviceName) (hchannel : c'.channel = c.channel)
    (hsound : c.Sound → c'.Sound ∧ c'.needHeader = false)
    (h : m.readFrame code c' msg = some (m', rest)) : Moves m m' := by
  have hfill : c.Sound → (sinkFill c'.payload c'.buff msg).buff.length = c'.payload.size + 1 ∧
      (sinkFill c'.payload c'.buff msg).sink.size = c'.payload.size ∧
        ((sinkFill c'.payload c'.buff msg).full = false →
          (sinkFill c'.payload c'.buff msg).sink.used < c'.payload.size) := by
    intro hs
    obtain ⟨hs', hneed⟩ := hsound hs
    have hlt := hs'.payloadUsed hneed
    rw [sinkFill_eq hlt]
    rcases length_take_needed c'.payload msg hlt with hlast | ⟨hmore, -, -⟩
    · refine ⟨?_, rfl, fun hfull => absurd (decide_eq_true hlast) (by simpa using hfull)⟩
      rw [← hs'.buff hneed]
      refine length_writeAt ?_
      rw [hlast, hs'.buff hneed]
      exact Nat.le_succ _
    · refine ⟨?_, rfl, fun _ => hmore⟩
      rw [← hs'.buff hneed]
      refine length_writeAt ?_
      rw [hs'.buff hneed]
      exact Nat.le_succ_of_le hmore.le
  rw [readFrame] at h
  dsimp only at h
  split at h
  · next hfull =>
    obtain ⟨m₁, hm₁, hm'⟩ := Option.bind_eq_some_iff.mp h
    cases hm'
    refine .trans ?_ (moves_callRecv code hm₁)
    refine moves_setClient hc hid hname hchannel fun hs => ?_
    obtain ⟨hs', -⟩ := hsound hs
    exact ⟨hs'.headerSize, hs'.headerUsed, hs'.header0, fun h => (nomatch h), fun h => (nomatch h),
      fun h => (nomatch h)⟩
  · next hfull =>
    cases h
    refine moves_setClient hc hid hname hchannel fun hs => ?_
    obtain ⟨hs', hneed⟩ := hsound hs
    obtain ⟨hbuff, hsize, hused⟩ := hfill hs
    refine ⟨hs'.headerSize, hs'.headerUsed, hs'.header0, hs'.headerEmpty,
      fun _ => ?_, fun _ => ?_⟩
    · rw [hsize]
      exact hused ((Bool.not_eq_true _).mp hfull)
    · rw [hsize]
      exact hbuff

theorem sound_fillHeader (hneed : c.needHeader) (hs : c.Sound) (msg : List UInt8) :
    { c with
      header := (sinkFill c.header c.header0 msg).sink
      header0 := (sinkFill c.header c.header0 msg).buff : QemudClient ω }.Sound := by
  have hfill : (sinkFill c.header c.header0 msg).sink.size = frameHeaderSize ∧
      (sinkFill c.header c.header0 msg).sink.used ≤ frameHeaderSize ∧
        (sinkFill c.header c.header0 msg).buff.length = frameHeaderSize := by
    by_cases hlt : c.header.used < c.header.size
    · rw [sinkFill_eq hlt]
      have hle : c.header.used + (msg.take c.header.needed).length ≤ frameHeaderSize := by
        rw [← hs.headerSize]
        rcases length_take_needed c.header msg hlt with hlast | ⟨hmore, -, -⟩
        · exact hlast.le
        · exact hmore.le
      refine ⟨hs.headerSize, hle, ?_⟩
      rw [← hs.header0]
      exact length_writeAt (hs.header0 ▸ hle)
    · have hneeded : c.header.needed = 0 := Nat.sub_eq_zero_of_le (Nat.not_lt.mp hlt)
      rw [sinkFill, if_pos hneeded]
      exact ⟨hs.headerSize, hs.headerUsed, hs.header0⟩
  exact ⟨hfill.1, hfill.2.1, hfill.2.2, fun h => Bool.noConfusion (hneed.symm.trans h),
    fun h => Bool.noConfusion (hneed.symm.trans h), fun h => Bool.noConfusion (hneed.symm.trans h)⟩

theorem moves_frameRound (h : m.frameRound code id msg = some (m', rest)) : Moves m m' := by
  obtain ⟨c, hc, h⟩ := Option.bind_eq_some_iff.mp h
  have hmem := Keyed.mem_of_find hc
  split at h
  · next hneed =>
    dsimp only at h
    split at h
    · split at h
      · cases h
        exact moves_setClient hmem rfl rfl rfl fun hs => sound_fillHeader hneed hs msg
      · next hpos =>
        refine moves_readFrame code hmem ?_ ?_ ?_ (fun hs => ⟨?_, ?_⟩) h
        · rfl
        · rfl
        · rfl
        · have hfill := sound_fillHeader hneed hs msg
          exact ⟨hfill.headerSize, Nat.zero_le _, hfill.header0, fun _ => rfl,
            fun _ => Int.lt_toNat.mpr (Int.not_le.mp hpos), fun _ => List.length_replicate ..⟩
        · rfl
    · cases h
      exact moves_setClient hmem rfl rfl rfl fun hs => sound_fillHeader hneed hs msg
  · next hneed =>
    exact moves_readFrame code hmem rfl rfl rfl (fun hs => ⟨hs, (Bool.not_eq_true _).mp hneed⟩) h

theorem moves_clientRecv (h : m.clientRecv code id msg = some m') : Moves m m' := by
  obtain ⟨c, -, h⟩ := Option.bind_eq_some_iff.mp h
  split at h
  · exact moves_callRecv code h
  · split at h
    · exact moves_callRecv code h
    · exact readAll_rel (fun _ _ _ _ h h' => h.trans (moves_frameRound code h')) (.refl m) h

theorem moves_serialRecv (h : m.serialRecv code channel msg = some m') : Moves m m' := by
  rw [serialRecv] at h
  split at h
  · cases h
    exact .refl _
  · exact moves_clientRecv code h

/-- The serial port of the multiplexer, which delivers to the clients. -/
def receiver : Receiver (QemudMultiplexer ω δ) where
  serial := serial
  setSerial := fun q m => { m with serial := q }
  recvFunc := serialRecv code
  serial_setSerial := fun _ _ => rfl
  setSerial_setSerial := fun _ _ _ => rfl
  setSerial_serial := fun _ => rfl
  sameReading := fun _ _ _ m' h =>
    have hserial := (moves_serialRecv code h).serial
    ⟨by rw [hserial], by rw [hserial]⟩

end Runs

end QemudMultiplexer

end M2M.Qemud
