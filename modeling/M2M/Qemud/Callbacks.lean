import M2M.Qemud.Clients

/-! Callbacks that close no client: what they leave as it is. -/

open M2M.Lib

namespace M2M.Qemud

def QemudClient.face {ω : Type} (c : QemudClient ω) : Nat × Bool × Bool × Nat :=
  (c.id, c.framing, c.needHeader, c.header.used)

/-- The messages that a client's `clie_recv` was called with. -/
def received (calls : List Call) (client : Nat) : List (List UInt8) :=
  calls.filterMap fun
    | .recv id msg => if id = client then some msg else none
    | _ => none

/-- A callback that leaves its client connected, and framed as it is. -/
def Command.Stays (framing : Bool) : Command → Prop
  | .setFraming framing' => framing' = framing
  | .close => False
  | .send _ | .broadcast _ => True

namespace QemudMultiplexer

variable {ω δ : Type} {m m' m'' : QemudMultiplexer ω δ} {used : Int → Prop}

/-- An operation that calls no `clie_recv` and leaves the clients of some channels. -/
structure Calm (used : Int → Prop) (m m' : QemudMultiplexer ω δ) : Prop extends Moves m m' where
  version : m'.serial.version = m.serial.version
  faces : ∀ channel, used channel →
    (m'.onChannel channel).map QemudClient.face = (m.onChannel channel).map QemudClient.face
  received : ∀ id, received m'.calls id = received m.calls id

theorem Calm.refl (m : QemudMultiplexer ω δ) : Calm used m m :=
  { Moves.refl m with
    version := rfl
    faces := fun _ _ => rfl
    received := fun _ => rfl }

theorem Calm.trans (h : Calm used m m') (h' : Calm used m' m'') : Calm used m m'' :=
  { h.toMoves.trans h'.toMoves with
    version := h'.version.trans h.version
    faces := fun channel hch => (h'.faces channel hch).trans (h.faces channel hch)
    received := fun id => (h'.received id).trans (h.received id) }

section Sends

variable {id : Nat} {c : QemudClient ω} {msg : List UInt8}

/-- Nothing but the port has changed, which was only written to. -/
def Writes (m m' : QemudMultiplexer ω δ) : Prop :=
  ∃ bytes, m' = { m with serial := m.serial.write bytes }

theorem Writes.refl (m : QemudMultiplexer ω δ) : Writes m m := by
  refine ⟨[], ?_⟩
  rw [QemudSerial.write, List.append_nil]

theorem Writes.trans (h : Writes m m') (h' : Writes m' m'') : Writes m m'' := by
  obtain ⟨bytes, rfl⟩ := h
  obtain ⟨bytes', rfl⟩ := h'
  exact ⟨bytes ++ bytes', by rw [QemudSerial.write_write]⟩

theorem Writes.clients (h : Writes m m') : m'.clients = m.clients := by
  obtain ⟨bytes, rfl⟩ := h
  rfl

theorem Writes.client (h : Writes m m') (id : Nat) : m'.client id = m.client id := by
  obtain ⟨bytes, rfl⟩ := h
  rfl

theorem Writes.moves (h : Writes m m') : Moves m m' := by
  obtain ⟨bytes, rfl⟩ := h
  exact ⟨fun hwf => { hwf with }, rfl, rfl⟩

theorem Writes.calm (h : Writes m m') : Calm used m m' := by
  have hmoves := h.moves
  obtain ⟨bytes, rfl⟩ := h
  exact
    { hmoves with
      version := rfl
      faces := fun _ _ => rfl
      received := fun _ => rfl }

theorem writes_serialSend (m : QemudMultiplexer ω δ) (channel : Int) (framing : Bool)
    (msg : List UInt8) : Writes m (m.serialSend channel framing msg) := by
  obtain ⟨bytes, hbytes⟩ := m.serial.exists_send_eq_write channel framing msg
  exact ⟨bytes, by rw [serialSend, hbytes]⟩

theorem clientSend_writes (msg : List UInt8) (hc : m.client id = some c) :
    ∃ m', m.clientSend msg id = some m' ∧ Writes m m' := by
  rw [clientSend, hc]
  exact ⟨_, rfl, writes_serialSend ..⟩

theorem foldlM_clientSend (msg : List UInt8) {l : List Nat}
    (hids : ∀ i ∈ l, (m.client i).isSome) :
    ∃ m', l.foldlM (clientSend msg) m = some m' ∧ Writes m m' := by
  induction l generalizing m with
  | nil => exact ⟨m, rfl, .refl m⟩
  | cons i l ih =>
    obtain ⟨c, hc⟩ := Option.isSome_iff_exists.mp (hids i List.mem_cons_self)
    obtain ⟨m₁, hm₁, hwrites⟩ := clientSend_writes msg hc
    obtain ⟨m', hm', hwrites'⟩ := ih (m := m₁) fun j hj => by
      rw [hwrites.client]
      exact hids j (List.mem_cons_of_mem i hj)
    refine ⟨m', ?_, hwrites.trans hwrites'⟩
    rw [List.foldlM_cons, hm₁]
    exact hm'

theorem broadcast_writes (hwf : m.Wf) (hc : m.client id = some c) {name : CString} {opq : ω}
    (hservice : c.service = some (name, opq)) (msg : List UInt8) :
    ∃ m', m.broadcast msg id = some m' ∧ Writes m m' := by
  have hname : c.serviceName = some name := by rw [QemudClient.serviceName, hservice]; rfl
  obtain ⟨sv, hsv, hsame⟩ := List.mem_map.mp (hwf.known c (Keyed.mem_of_find hc) name hname)
  have hfind : m.findService name = some sv :=
    (Keyed.find_eq_some_iff hwf.namesNodup).mpr ⟨hsv, hsame⟩
  obtain ⟨m', hm', hwrites⟩ := foldlM_clientSend (m := m) msg (l := sv.clients) fun i hi => by
    rw [hwf.listed sv hsv] at hi
    obtain ⟨b, hb, -, rfl⟩ := mem_idsOf.mp hi
    rw [client, Keyed.find_self hwf.idsNodup hb]
    rfl
  refine ⟨m', ?_, hwrites⟩
  rw [broadcast, hc]
  change (c.service.bind fun p => (m.findService p.1).bind fun sv => _) = _
  rw [hservice]
  change ((m.findService name).bind fun sv => _) = _
  rw [hfind]
  exact hm'

end Sends

section Clients

variable {c c' : QemudClient ω} {id : Nat}

theorem Wf.eq_of_client (hwf : m.Wf) (hc : m.client id = some c) (h : c' ∈ m.clients)
    (hid : c'.id = id) : c' = c :=
  List.inj_on_of_nodup_map hwf.idsNodup h (Keyed.mem_of_find hc)
    (hid.trans (Keyed.key_of_find hc).symm)

theorem Wf.client_self (hwf : m.Wf) (hc : c ∈ m.clients) : m.client c.id = some c :=
  Keyed.find_self hwf.idsNodup hc

theorem Wf.client_onChannel (hwf : m.Wf) {channel : Int} (hc : m.onChannel channel = some c) :
    m.client c.id = some c :=
  hwf.client_self (List.mem_of_find?_eq_some hc)

theorem channel_onChannel {channel : Int} (hc : m.onChannel channel = some c) :
    c.channel = channel := by
  simpa using List.find?_some hc

theorem client_setClient (hc : m.client c'.id = some c) :
    (m.setClient c').client c'.id = some c' := by
  have hfind := Keyed.find?_replace (l := m.clients) (a := c') (fun c : QemudClient ω => c.id)
    (fun c => c.id = c'.id) fun b _ hid => by rw [hid]
  rw [show m.clients.find? (fun c => c.id = c'.id) = some c from hc] at hfind
  refine hfind.trans ?_
  rw [Option.map_some, if_pos (Keyed.key_of_find hc)]

theorem onChannel_setClient (hwf : m.Wf) (hc : m.client c'.id = some c)
    (hchannel : c'.channel = c.channel) (channel : Int) :
    (m.setClient c').onChannel channel =
      (m.onChannel channel).map fun b => if b.id = c'.id then c' else b :=
  Keyed.find?_replace (fun c : QemudClient ω => c.id) (fun c => c.channel = channel)
    fun b hb hid => by rw [hwf.eq_of_client hc hb hid, hchannel]

end Clients

section Commands

variable (code : ServiceCode ω δ) {id : Nat} {c : QemudClient ω} {command : Command}
  {commands : List Command}

theorem runCommand_writes (hwf : m.Wf) (hc : m.client id = some c) (hservice : c.service.isSome)
    (hneed : c.framing → c.needHeader) (hstays : command.Stays c.framing) :
    ∃ m', m.runCommand code id command = some m' ∧ Writes m m' := by
  obtain ⟨⟨name, opq⟩, hservice⟩ := Option.isSome_iff_exists.mp hservice
  cases command with
  | send msg => exact clientSend_writes msg hc
  | broadcast msg => exact broadcast_writes hwf hc hservice msg
  | close => cases hstays
  | setFraming framing =>
    have hsame : { c with framing, needHeader := c.needHeader || c.framing } = c := by
      have hneed' : (c.needHeader || c.framing) = c.needHeader := by
        cases hf : c.framing with
        | false => exact Bool.or_false _
        | true => rw [hneed hf, Bool.or_true]
      rw [hneed', show framing = c.framing from hstays]
    refine ⟨m, ?_, .refl m⟩
    rw [runCommand, setFraming, hc]
    change some (m.setClient { c with framing, needHeader := c.needHeader || c.framing }) = some m
    rw [hsame, setClient, Keyed.replace_self hwf.idsNodup (Keyed.mem_of_find hc)]

theorem runCommands_writes (hwf : m.Wf) (hc : m.client id = some c) (hservice : c.service.isSome)
    (hneed : c.framing → c.needHeader) (hstays : ∀ command ∈ commands, command.Stays c.framing) :
    ∃ m', m.runCommands code id commands = some m' ∧ Writes m m' := by
  induction commands generalizing m with
  | nil => exact ⟨m, rfl, .refl m⟩
  | cons command commands ih =>
    obtain ⟨m₁, hm₁, hwrites⟩ := runCommand_writes code hwf hc hservice hneed
      (hstays command List.mem_cons_self)
    obtain ⟨m', hm', hwrites'⟩ := ih (m := m₁) (hwrites.moves.wf hwf)
      (by rw [hwrites.client, hc]) fun command' h => hstays command' (List.mem_cons_of_mem _ h)
    refine ⟨m', ?_, hwrites.trans hwrites'⟩
    rw [runCommands, List.foldlM_cons, hm₁]
    exact hm'

theorem calm_setClient {c' : QemudClient ω} (hwf : m.Wf) (hc : m.client c'.id = some c)
    (hmoves : Moves m (m.setClient c')) (hchannel : c'.channel = c.channel)
    (hface : used c.channel → c'.face = c.face) : Calm used m (m.setClient c') := by
  refine { hmoves with version := rfl, faces := fun channel hch => ?_, received := fun _ => rfl }
  rw [onChannel_setClient hwf hc hchannel, Option.map_map]
  cases hfind : m.onChannel channel with
  | none => rfl
  | some b =>
    have hb := List.mem_of_find?_eq_some hfind
    have hbchannel : b.channel = channel := by simpa using List.find?_some hfind
    refine congrArg some ?_
    dsimp only [Function.comp_apply]
    split
    · next hid =>
      obtain rfl := hwf.eq_of_client hc hb hid
      rw [hface (hbchannel.symm ▸ hch)]
    · rfl

theorem runCommand_calm (hwf : m.Wf) (hc : m.client id = some c) (hservice : c.service.isSome)
    (hunused : ¬used c.channel) (hclose : command ≠ .close) :
    ∃ m' c', m.runCommand code id command = some m' ∧ Calm used m m' ∧
      m'.client id = some c' ∧ c'.service.isSome ∧ c'.channel = c.channel := by
  obtain rfl := Keyed.key_of_find hc
  have hwrites : ∀ {r : Option (QemudMultiplexer ω δ)}, (∃ m', r = some m' ∧ Writes m m') →
      ∃ m' c', r = some m' ∧ Calm used m m' ∧ m'.client c.id = some c' ∧ c'.service.isSome ∧
        c'.channel = c.channel := by
    rintro r ⟨m', hm', hwrites⟩
    exact ⟨m', c, hm', hwrites.calm, (hwrites.client c.id).trans hc, hservice, rfl⟩
  cases command with
  | send msg => exact hwrites (clientSend_writes msg hc)
  | broadcast msg =>
    obtain ⟨⟨name, opq⟩, hservice⟩ := Option.isSome_iff_exists.mp hservice
    exact hwrites (broadcast_writes hwf hc hservice msg)
  | close => exact absurd rfl hclose
  | setFraming framing =>
    have hrun : m.setFraming framing c.id =
        some (m.setClient { c with framing, needHeader := c.needHeader || c.framing }) := by
      rw [setFraming, hc]
      rfl
    refine ⟨_, { c with framing, needHeader := c.needHeader || c.framing }, hrun,
      calm_setClient hwf hc (moves_setFraming hrun) rfl fun h => absurd h hunused,
      client_setClient hc, hservice, rfl⟩

theorem runCommands_calm (hwf : m.Wf) (hc : m.client id = some c) (hservice : c.service.isSome)
    (hunused : ¬used c.channel) (hclose : .close ∉ commands) :
    ∃ m', m.runCommands code id commands = some m' ∧ Calm used m m' := by
  induction commands generalizing m c with
  | nil => exact ⟨m, rfl, .refl m⟩
  | cons command commands ih =>
    obtain ⟨hne, hclose⟩ := not_or.mp (mt List.mem_cons.mpr hclose)
    obtain ⟨m₁, c₁, hm₁, hcalm, hc₁, hservice₁, hchannel⟩ :=
      runCommand_calm code hwf hc hservice hunused (Ne.symm hne)
    obtain ⟨m', hm', hcalm'⟩ := ih (hcalm.wf hwf) hc₁ hservice₁ (hchannel ▸ hunused) hclose
    refine ⟨m', ?_, hcalm.trans hcalm'⟩
    rw [runCommands, List.foldlM_cons, hm₁]
    exact hm'

end Commands

section Control

variable (code : ServiceCode ω δ) {name : CString} {channel : Int}

theorem received_append (calls : List Call) (callback : Call) (id : Nat) :
    Qemud.received (calls ++ [callback]) id =
      Qemud.received calls id ++ Qemud.received [callback] id :=
  List.filterMap_append

theorem calm_data (m : QemudMultiplexer ω δ) (data : δ) : Calm used m { m with data } :=
  { moves_data m data with
    version := rfl
    faces := fun _ _ => rfl
    received := fun _ => rfl }

theorem calm_call (m : QemudMultiplexer ω δ) {callback : Call}
    (h : ∀ id, Qemud.received [callback] id = []) : Calm used m (m.call callback) :=
  { moves_call m callback with
    version := rfl
    faces := fun _ _ => rfl
    received := fun id => by
      rw [call]
      dsimp only
      rw [received_append, h, List.append_nil] }

theorem clients_clientNew (m : QemudMultiplexer ω δ) (name : CString) (channel : Int) (opq : ω) :
    (m.clientNew name channel opq).2.clients =
      .alloc m.next channel (some (name, opq)) :: m.clients := rfl

theorem calm_clientNew (hname : name ∈ m.services.map fun sv => sv.name)
    (hchannel : 0 < channel ∧ channel < 256) (hunused : ¬used channel) (opq : ω) :
    Calm used m (m.clientNew name channel opq).2 := by
  refine { moves_clientNew hname hchannel opq with
    version := rfl
    faces := fun ch hch => ?_
    received := fun _ => rfl }
  have hne : ¬channel = ch := fun h => hunused (h ▸ hch)
  have hskip : (m.clientNew name channel opq).2.onChannel ch = m.onChannel ch := by
    exact List.find?_cons_of_neg fun h => hne (of_decide_eq_true h)
  rw [hskip]

/-- A service that is connected does not close its new client. -/
def Opens (code : ServiceCode ω δ) : Prop :=
  ∀ name channel data opq commands, (code.servConnect name channel data).1 = some (opq, commands) →
    .close ∉ commands

theorem newClient_calm (hwf : m.Wf) (hname : name ∈ m.services.map fun sv => sv.name)
    (hchannel : 0 < channel ∧ channel < 256) (hunused : ¬used channel) (opq : ω)
    {commands : List Command} (hclose : .close ∉ commands) :
    ∃ m', (m.clientNew name channel opq).2.runCommands code m.next commands = some m' ∧
      Calm used m m' := by
  have hnew : Calm used m (m.clientNew name channel opq).2 :=
    calm_clientNew hname hchannel hunused opq
  have hclient : (m.clientNew name channel opq).2.client m.next =
      some (.alloc m.next channel (some (name, opq))) := by
    rw [client, Keyed.find, clients_clientNew, List.find?_cons_of_pos]
    exact decide_eq_true rfl
  obtain ⟨m', hm', hcalm⟩ := runCommands_calm code (hnew.wf hwf) hclient rfl hunused hclose
  exact ⟨m', hm', hnew.trans hcalm⟩

theorem connectClient_calm (hwf : m.Wf) (hopens : Opens code)
    (hname : name ∈ m.services.map fun sv => sv.name) (hchannel : 0 < channel ∧ channel < 256)
    (hunused : ¬used channel) :
    ∃ r m', m.connectClient code name channel = some (r, m') ∧ Calm used m m' := by
  have hcall : Calm used m (m.call (.connect name channel)) := calm_call m fun _ => rfl
  rw [connectClient]
  dsimp only
  cases hconnect : code.servConnect name channel (m.call (.connect name channel)).data with
  | mk r data =>
    have hdata := hcall.trans (calm_data _ data)
    cases r with
    | none => exact ⟨none, _, rfl, hdata⟩
    | some p =>
      have hclose := hopens name channel _ p.1 p.2 (congrArg Prod.fst hconnect)
      obtain ⟨m', hm', hcalm⟩ := newClient_calm code (hdata.wf hwf) (hdata.names ▸ hname) hchannel
        hunused p.1 hclose
      refine ⟨some m.next, m', ?_, hdata.trans hcalm⟩
      exact congrArg (Option.bind · fun m' => some (some m.next, m')) hm'

theorem connect_calm (hwf : m.Wf) (hopens : Opens code) (hchannel : 0 < channel ∧ channel < 256)
    (hunused : ¬used channel) (name : CString) :
    ∃ ret m', m.connect code name channel = some (ret, m') ∧ Calm used m m' := by
  rw [connect]
  cases hfind : m.findService name with
  | none => exact ⟨-1, m, rfl, .refl m⟩
  | some sv =>
    dsimp only
    split
    · exact ⟨-2, m, rfl, .refl m⟩
    · have hname : name ∈ m.services.map fun sv => sv.name :=
        List.mem_map.mpr ⟨sv, Keyed.mem_of_find hfind, Keyed.key_of_find hfind⟩
      obtain ⟨r, m', hm', hcalm⟩ := connectClient_calm code hwf hopens hname hchannel hunused
      refine ⟨if r.isNone then -1 else 0, m', ?_, hcalm⟩
      rw [hm']
      rfl

variable {c c' : QemudClient ω}

theorem calm_unlist (hwf : m.Wf) (hc : c ∈ m.clients) (hid : c'.id = c.id)
    (hname : c'.serviceName = c.serviceName) (hunused : ¬used c.channel) :
    Calm used m (m.unlist c') := by
  refine { moves_unlist hc hid hname with
    version := by rw [unlist_same]
    faces := fun channel hch => ?_
    received := fun id => by rw [unlist_same] }
  have hskip : (m.unlist c').onChannel channel = m.onChannel channel := by
    rw [onChannel, clients_unlist]
    refine Keyed.find?_without _ fun b hb hbid => decide_eq_false fun h => ?_
    rw [hwf.eq_of_client (hwf.client_self hc) hb (hbid.trans hid)] at h
    exact hunused (h ▸ hch)
  rw [hskip]

theorem calm_disconnect (hwf : m.Wf) (hc : c ∈ m.clients) (hid : c'.id = c.id)
    (hservice : c'.service = c.service) (hunused : ¬used c.channel) :
    Calm used m (m.disconnect code c') := by
  have hlists : Calm used m (m.unlist c') :=
    calm_unlist hwf hc hid (congrArg (Option.map Prod.fst) hservice) hunused
  have hsend : Calm used m (if 0 < c'.channel then
      (m.unlist c').serialSend 0 false (ascii "disconnect:" ++ format02x c'.channel.toNat)
      else m.unlist c') := by
    split
    · exact hlists.trans (writes_serialSend ..).calm
    · exact hlists
  rw [disconnect_eq]
  dsimp only
  split
  · exact hsend
  · exact (hsend.trans (calm_data _ _)).trans (calm_call _ fun _ => rfl)

theorem disconnectChannel_calm (hwf : m.Wf) (hunused : ¬used channel) :
    Calm used m (m.disconnectChannel code channel) := by
  rw [disconnectChannel]
  split
  · exact .refl m
  · next c hc =>
    exact calm_disconnect code hwf (List.mem_of_find?_eq_some hc) rfl rfl
      (channel_onChannel hc ▸ hunused)

/-- The channel that a control message connects or disconnects. -/
def Control.subject : Control → Option Int
  | .connect _ channel | .disconnect channel | .legacyConnect _ channel => some channel
  | .malformed | .unknown => none

theorem controlRecv_calm (hwf : m.Wf) (hopens : Opens code) (hversion : m.serial.version ≠ .unknown)
    {msg : List UInt8} (hunused : ∀ channel, (parseControl msg).subject = some channel →
      ¬used channel) : ∃ m', m.controlRecv code msg = some m' ∧ Calm used m m' := by
  rw [controlRecv]
  cases hparse : parseControl msg with
  | malformed => exact ⟨m, rfl, .refl m⟩
  | connect name channel =>
    obtain ⟨ret, m₁, hm₁, hcalm⟩ := connect_calm code hwf hopens
      (channel_of_parseControl (.inl hparse)) (hunused channel (by rw [hparse]; rfl)) name
    refine ⟨m₁.serialSend 0 false (connectAnswer ret channel), ?_,
      hcalm.trans (writes_serialSend ..).calm⟩
    dsimp only
    rw [hm₁]
    rfl
  | disconnect channel =>
    exact ⟨_, rfl, disconnectChannel_calm code hwf (hunused channel (by rw [hparse]; rfl))⟩
  | legacyConnect name channel =>
    dsimp only
    split
    · exact ⟨m, rfl, .refl m⟩
    · next hnormal =>
      have hlegacy : m.serial.version = .legacy := by
        cases hv : m.serial.version with
        | unknown => exact absurd hv hversion
        | normal => exact absurd hv hnormal
        | legacy => rfl
      have hsame : { m with serial := { m.serial with version := .legacy } } = m := by
        rw [← hlegacy]
      rw [hsame]
      obtain ⟨ret, m₁, hm₁, hcalm⟩ := connect_calm code hwf hopens
        (channel_of_parseControl (.inr hparse)) (hunused channel (by rw [hparse]; rfl))
        (if name = ascii "control" then ascii "hw-control" else name)
      exact ⟨m₁, congrArg (Option.bind · fun p => some p.2) hm₁, hcalm⟩
  | unknown =>
    dsimp only
    split
    · exact ⟨m, rfl, .refl m⟩
    · exact ⟨_, rfl, (writes_serialSend ..).calm⟩

end Control

end QemudMultiplexer

end M2M.Qemud
