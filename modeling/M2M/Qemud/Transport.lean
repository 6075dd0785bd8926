import M2M.Qemud.Frames

/-! What one end of the serial port sends, the clients at the other end receive, however the bytes
are cut. -/

open M2M.Lib

namespace M2M.Qemud

def maxFramePayload : Nat := 65535

/-- A message for a channel. -/
structure Message where
  channel : Fin 256
  text : List UInt8
  nonempty : text ≠ []

def Message.delivered (framing : Fin 256 → Bool) (p : Message) : List (List UInt8) :=
  if framing p.channel then [p.text] else QemudSerial.payloads p.text.length p.text

/-- `qemud_serial_send` for one message after another. -/
def QemudSerial.sendAll (framing : Fin 256 → Bool) (q : QemudSerial) (msgs : List Message) :
    QemudSerial :=
  msgs.foldl (fun q p => q.send (p.channel : Nat) (framing p.channel) p.text) q

theorem QemudSerial.sendAll_eq (framing : Fin 256 → Bool) (q : QemudSerial)
    (msgs : List Message) : q.sendAll framing msgs =
      q.write (msgs.flatMap fun p => encode q.version p.channel (framing p.channel) p.text) := by
  induction msgs generalizing q with
  | nil => simp [sendAll, write]
  | cons p msgs ih =>
    have hsend := q.send_eq p.channel (framing p.channel) p.nonempty
    refine (ih _).trans ?_
    dsimp only
    rw [hsend, write_write, List.flatMap_cons]
    rfl

namespace QemudMultiplexer

variable {ω δ : Type} {m m' m'' : QemudMultiplexer ω δ} {used : Int → Prop}

section Heard

variable {new new' : Nat → List (List UInt8)}

/-- Some calls of `clie_recv`, which leave the clients of the channels that are used. -/
structure Heard (used : Int → Prop) (m m' : QemudMultiplexer ω δ)
    (new : Nat → List (List UInt8)) : Prop where
  wf : m'.Wf
  version : m'.serial.version = m.serial.version
  faces : ∀ channel, used channel →
    (m'.onChannel channel).map QemudClient.face = (m.onChannel channel).map QemudClient.face
  received : ∀ id, received m'.calls id = received m.calls id ++ new id

theorem Heard.refl (h : m.Wf) : Heard used m m fun _ => [] :=
  ⟨h, rfl, fun _ _ => rfl, fun _ => (List.append_nil _).symm⟩

theorem Heard.trans (h : Heard used m m' new) (h' : Heard used m' m'' new') :
    Heard used m m'' fun id => new id ++ new' id := by
  refine ⟨h'.wf, h'.version.trans h.version, fun channel hch => ?_, fun id => ?_⟩
  · exact (h'.faces channel hch).trans (h.faces channel hch)
  · rw [h'.received, h.received, List.append_assoc]

theorem Heard.congr (h : Heard used m m' new) (hnew : ∀ id, new id = new' id) :
    Heard used m m' new' :=
  ⟨h.wf, h.version, h.faces, fun id => hnew id ▸ h.received id⟩

theorem Calm.heard (h : Calm used m m') (hwf : m.Wf) : Heard used m m' fun _ => [] :=
  ⟨h.wf hwf, h.version, h.faces, fun id => (h.received id).trans (List.append_nil _).symm⟩

theorem heard_serial (hwf : m.Wf) {q : QemudSerial} (hq : q.version = m.serial.version) :
    Heard used m { m with serial := q } fun _ => [] :=
  ⟨{ hwf with }, hq, fun _ _ => rfl, fun _ => (List.append_nil _).symm⟩

theorem heard_call (hwf : m.Wf) (id : Nat) (text : List UInt8) :
    Heard used m (m.call (.recv id text)) fun i => if id = i then [text] else [] := by
  refine ⟨(moves_call m _).wf hwf, rfl, fun _ _ => rfl, fun i => ?_⟩
  rw [call]
  dsimp only
  rw [received_append]
  congr 1
  by_cases hi : id = i
  · rw [if_pos hi]
    simp [Qemud.received, hi]
  · rw [if_neg hi]
    simp [Qemud.received, hi]

def oneTo (id : Nat) (text : List UInt8) (i : Nat) : List (List UInt8) :=
  if id = i then [text] else []

end Heard

section Packets

variable (code : ServiceCode ω δ) {c c' : QemudClient ω} {text got bytes : List UInt8}
  {channel : Nat} {new : Nat → List (List UInt8)}

theorem calm_setOpaque (hwf : m.Wf) (hc : m.client c.id = some c) {name : CString} {opq : ω}
    (hservice : c.service = some (name, opq)) (opq' : ω) :
    Calm used m (m.setClient { c with service := some (name, opq') }) := by
  refine calm_setClient hwf hc ?_ rfl fun _ => rfl
  refine moves_setClient (Keyed.mem_of_find hc) rfl ?_ rfl fun hsound => { hsound with }
  rw [QemudClient.serviceName, QemudClient.serviceName, hservice]
  rfl

theorem callRecv_heard (hwf : m.Wf) (hversion : m.serial.version ≠ .unknown)
    (hc : m.client c.id = some c) (hneed : c.framing → c.needHeader) (hopens : Opens code)
    (hrecv : ∀ name opq data, ∀ command ∈ (code.clieRecv name text opq data).2.2,
      command.Stays c.framing)
    (hcontrol : c.service = none →
      ∀ channel, (parseControl text).subject = some channel → ¬used channel) :
    ∃ m', m.callRecv code c.id text = some m' ∧ Heard used m m' (oneTo c.id text) := by
  have hcall : Heard used m (m.call (.recv c.id text)) (oneTo c.id text) := heard_call hwf ..
  have hdone : ∀ {m'}, Calm used (m.call (.recv c.id text)) m' →
      Heard used m m' (oneTo c.id text) := fun hcalm =>
    (hcall.trans (hcalm.heard hcall.wf)).congr fun _ => List.append_nil _
  rw [callRecv, hc]
  dsimp only [Option.bind_eq_bind, Option.bind_some]
  cases hservice : c.service with
  | none =>
    obtain ⟨m', hm', hcalm⟩ := controlRecv_calm code hcall.wf hopens hversion (hcontrol hservice)
    exact ⟨m', hm', hdone hcalm⟩
  | some p =>
    obtain ⟨name, opq⟩ := p
    have hdata : Calm used (m.call (.recv c.id text))
        { m.call (.recv c.id text) with data := (code.clieRecv name text opq m.data).2.1 } :=
      calm_data _ _
    have hset := hdata.trans (calm_setOpaque (hdata.wf hcall.wf) hc hservice
      (code.clieRecv name text opq m.data).1)
    have hclient : ({ m.call (.recv c.id text) with
        data := (code.clieRecv name text opq m.data).2.1 }.setClient { c with
          service := some (name, (code.clieRecv name text opq m.data).1) }).client c.id = some _ :=
      client_setClient hc
    obtain ⟨m', hm', hwrites⟩ := runCommands_writes code (hset.wf hcall.wf) hclient rfl hneed
      (hrecv name opq m.data)
    exact ⟨m', hm', hdone (hset.trans hwrites.calm)⟩

theorem packet_reads (hidle : m.serial.Idle) (hversion : m.serial.version ≠ .unknown)
    (hchannel : channel < 256) (hbytes : bytes ≠ []) (hsize : bytes.length ≤ maxSerialPayload)
    (inv : QemudMultiplexer ω δ → Prop)
    (h : ∀ q, q.version = m.serial.version →
      ∃ m', { m with serial := q }.serialRecv code channel bytes = some m' ∧ inv m')
    (hinv : ∀ m' q, q.version = m'.serial.version → inv m' → inv { m' with serial := q }) :
    ∃ m', (QemudSerial.packet m.serial.version channel bytes).foldlM (receiver code).readByte m =
      some m' ∧ inv m' ∧ m'.serial.Idle := by
  obtain ⟨q, -, hq, hread, hdone⟩ :=
    (receiver code).foldlM_packet (s := m) hidle hversion hchannel hbytes hsize
  obtain ⟨m', hm', hrun⟩ := h q hq
  refine ⟨(receiver code).done m', ?_, hinv _ _ rfl hrun, hdone m' hm'⟩
  rw [show m.serial.version = ((receiver code).serial m).version from rfl, hread]
  exact congrArg (Option.map _) hm'

/-- The messages of a channel, for the client that has it. -/
def toOwner (m : QemudMultiplexer ω δ) (channel : Int) (texts : List (List UInt8)) (i : Nat) :
    List (List UInt8) :=
  if (m.onChannel channel).map (fun c => c.id) = some i then texts else []

theorem toOwner_of_onChannel {channel : Int} (hc : m.onChannel channel = some c)
    (text : List UInt8) (i : Nat) : toOwner m channel [text] i = oneTo c.id text i := by
  rw [toOwner, oneTo, hc, Option.map_some]
  exact if_congr Option.some_inj rfl rfl

theorem toOwner_of_none {channel : Int} (hc : m.onChannel channel = none)
    (texts : List (List UInt8)) (i : Nat) : toOwner m channel texts i = [] := by
  rw [toOwner, hc]
  exact if_neg nofun

theorem toOwner_append (m : QemudMultiplexer ω δ) (channel : Int)
    (texts texts' : List (List UInt8)) (i : Nat) :
    toOwner m channel (texts ++ texts') i =
      toOwner m channel texts i ++ toOwner m channel texts' i := by
  rw [toOwner, toOwner, toOwner]
  split
  · rfl
  · rfl

theorem Heard.toOwner_eq (h : Heard used m m' new) {channel : Int} (hused : used channel)
    (texts : List (List UInt8)) (i : Nat) :
    toOwner m' channel texts i = toOwner m channel texts i := by
  have hids := congrArg (Option.map Prod.fst) (h.faces channel hused)
  rw [Option.map_map, Option.map_map] at hids
  exact if_congr (iff_of_eq (congrArg (· = some i) hids)) rfl rfl

theorem plain_heard (hwf : m.Wf) (hversion : m.serial.version ≠ .unknown) (hopens : Opens code)
    {channel : Int}
    (hplain : ∀ c, m.onChannel channel = some c → c.framing = false)
    (hrecv : ∀ name opq data, ∀ command ∈ (code.clieRecv name bytes opq data).2.2,
      command.Stays false)
    (hcontrol : channel = 0 →
      ∀ channel, (parseControl bytes).subject = some channel → ¬used channel) :
    ∃ m', m.serialRecv code channel bytes = some m' ∧
      Heard used m m' (toOwner m channel [bytes]) := by
  rw [serialRecv]
  cases hc : m.onChannel channel with
  | none => exact ⟨m, rfl, (Heard.refl hwf).congr fun i => (toOwner_of_none hc _ i).symm⟩
  | some c =>
    have hframing := hplain c hc
    have hclient := hwf.client_onChannel hc
    have hplaced := hwf.placed c (Keyed.mem_of_find hclient)
    have hnone : c.service = none → channel = 0 := by
      intro hservice
      rw [QemudClient.Placed, hservice] at hplaced
      exact (channel_onChannel hc).symm.trans hplaced
    obtain ⟨m', hm', hheard⟩ := callRecv_heard code hwf hversion hclient
      (fun h => Bool.noConfusion (h.symm.trans hframing)) hopens (by rwa [hframing])
      fun hservice => hcontrol (hnone hservice)
    refine ⟨m', ?_, hheard.congr fun i => (toOwner_of_onChannel hc bytes i).symm⟩
    dsimp only
    rw [clientRecv, hclient]
    change (if ¬c.framing then _ else _) = _
    rw [if_pos (by simp [hframing])]
    exact hm'

theorem calm_endFrame (hwf : m.Wf) (hc : m.client c.id = some c) (hneed : c.needHeader)
    (hused : c.header.used = 0) (hsame : SameClient c c') (hneed' : c'.needHeader)
    (hheader : c'.header = ⟨0, frameHeaderSize⟩) (hheader0 : c'.header0.length = frameHeaderSize) :
    Calm used m (m.setClient c') := by
  have hname : c'.serviceName = c.serviceName := congrArg (Option.map Prod.fst) hsame.service
  have hmoves : Moves m (m.setClient c') := by
    refine moves_setClient (Keyed.mem_of_find hc) hsame.id hname hsame.channel fun _ => ?_
    exact ⟨by rw [hheader], by rw [hheader]; exact Nat.zero_le _, hheader0,
      fun h => (nomatch hneed'.symm.trans h), fun h => (nomatch hneed'.symm.trans h),
      fun h => (nomatch hneed'.symm.trans h)⟩
  refine calm_setClient hwf (hsame.id.symm ▸ hc) hmoves hsame.channel fun _ => ?_
  rw [QemudClient.face, QemudClient.face, hsame.id, hsame.framing, hneed, hneed', hheader, hused]

/-- The client has some bytes of a frame, and nothing else has changed but the port. -/
def Midway (m : QemudMultiplexer ω δ) (c : QemudClient ω) (text got : List UInt8)
    (s : QemudMultiplexer ω δ) : Prop :=
  ∃ c', s = { m.setClient c' with serial := s.serial } ∧ s.serial.version = m.serial.version ∧
    SameClient c c' ∧ Filling text got c'

variable {s : QemudMultiplexer ω δ} {q : QemudSerial} {rest : List UInt8}

theorem setClient_setClient (h : c'.id = c.id) :
    { m.setClient c with serial := q : QemudMultiplexer ω δ }.setClient c' =
      { m.setClient c' with serial := q } := by
  have hclients : Keyed.replace (fun c => c.id) (Keyed.replace (fun c => c.id) m.clients c) c' =
      Keyed.replace (fun c => c.id) m.clients c' := Keyed.replace_replace h.symm
  simp only [setClient, hclients]

theorem onChannel_midway (hwf : m.Wf) {channel : Int} (hc : m.onChannel channel = some c)
    (hsame : SameClient c c') :
    { m.setClient c' with serial := q : QemudMultiplexer ω δ }.onChannel channel = some c' := by
  have hclient := hwf.client_onChannel hc
  refine (onChannel_setClient hwf (hsame.id.symm ▸ hclient) hsame.channel channel).trans ?_
  rw [hc, Option.map_some, if_pos hsame.id.symm]

theorem client_midway (hclient : m.client c.id = some c) (hsame : SameClient c c') :
    { m.setClient c' with serial := q : QemudMultiplexer ω δ }.client c'.id = some c' :=
  client_setClient (hsame.id.symm ▸ hclient)

theorem midway_more (hwf : m.Wf) (hversion : m.serial.version ≠ .unknown)
    (hchannel : channel < 256) (hc : m.onChannel channel = some c) (hframing : c.framing)
    (hpos : 0 < text.length) (hsize : text.length < 65536) (hbytes : bytes ≠ [])
    (hlen : bytes.length ≤ maxSerialPayload) (hs : Midway m c text got s) (hidle : s.serial.Idle)
    (hframe : got ++ bytes ++ rest = QemudSerial.framed true text) (hrest : rest ≠ []) :
    ∃ s', (QemudSerial.packet m.serial.version channel bytes).foldlM (receiver code).readByte s =
      some s' ∧ Midway m c text (got ++ bytes) s' ∧ s'.serial.Idle := by
  obtain ⟨c', hs', hv, hsame, hfilling⟩ := hs
  rw [← hv]
  refine packet_reads code hidle (hv ▸ hversion) hchannel hbytes hlen
    (Midway m c text (got ++ bytes)) (fun q hq => ?_) fun m' q hq h => ?_
  · obtain ⟨c₁, hread, hsame₁, hfilling₁⟩ :=
      serialRecv_more code (onChannel_midway (q := q) hwf hc hsame)
        (client_midway (hwf.client_onChannel hc) hsame) (hsame.framing.trans hframing) hfilling
        hframe hbytes hrest hpos hsize
    rw [setClient_setClient hsame₁.id] at hread
    refine ⟨{ m.setClient c₁ with serial := q }, ?_, c₁, rfl, hq.trans hv, hsame.trans hsame₁,
      hfilling₁⟩
    rw [hs']
    exact hread
  · obtain ⟨c₁, hm', hv', hrest⟩ := h
    exact ⟨c₁, by rw [hm'], hq.trans hv', hrest⟩

theorem midway_last (hwf : m.Wf) (hversion : m.serial.version ≠ .unknown) (hopens : Opens code)
    (hchannel : channel < 256) (hc : m.onChannel channel = some c) (hframing : c.framing)
    (hneed : c.needHeader) (hused : c.header.used = 0) (hpos : 0 < text.length)
    (hsize : text.length < 65536)
    (hrecv : ∀ name opq data, ∀ command ∈ (code.clieRecv name text opq data).2.2,
      command.Stays c.framing)
    (hcontrol : c.service = none →
      ∀ channel, (parseControl text).subject = some channel → ¬used channel)
    (hbytes : bytes ≠ []) (hlen : bytes.length ≤ maxSerialPayload) (hs : Midway m c text got s)
    (hidle : s.serial.Idle) (hframe : got ++ bytes = QemudSerial.framed true text) :
    ∃ s', (QemudSerial.packet m.serial.version channel bytes).foldlM (receiver code).readByte s =
      some s' ∧ Heard used m s' (toOwner m channel [text]) ∧ s'.serial.Idle := by
  have hclient := hwf.client_onChannel hc
  obtain ⟨c', hs', hv, hsame, hfilling⟩ := hs
  rw [← hv]
  refine packet_reads code hidle (hv ▸ hversion) hchannel hbytes hlen _ (fun q hq => ?_)
    fun m' q hq h => (h.trans (heard_serial h.wf hq)).congr fun i => List.append_nil _
  obtain ⟨c₁, hread, hsame₁, hneed₁, hheader₁, hheader0₁⟩ :=
    serialRecv_last code (onChannel_midway (q := q) hwf hc hsame) (client_midway hclient hsame)
      (hsame.framing.trans hframing) hfilling hframe hbytes hpos hsize
  rw [setClient_setClient hsame₁.id] at hread
  have hsame' := hsame.trans hsame₁
  have hcalm : Calm used m (m.setClient c₁) :=
    calm_endFrame hwf hclient hneed hused hsame' hneed₁ hheader₁ hheader0₁
  have hend : Heard used m { m.setClient c₁ with serial := q } fun _ => [] :=
    ((hcalm.heard hwf).trans (heard_serial (hcalm.wf hwf) (hq.trans hv))).congr fun _ => rfl
  obtain ⟨m', hm', hheard⟩ := callRecv_heard code hend.wf (hend.version ▸ hversion)
    (client_midway hclient hsame') (fun _ => hneed₁) hopens (hsame'.framing ▸ hrecv)
    (hsame'.service ▸ hcontrol)
  refine ⟨m', ?_, (hend.trans hheard).congr fun i => ?_⟩
  · rw [hs', ← hm', hsame₁.id]
    exact hread
  · rw [toOwner_of_onChannel hc, hsame'.id]
    rfl

theorem frame_heard (hwf : m.Wf) (hversion : m.serial.version ≠ .unknown) (hopens : Opens code)
    (hchannel : channel < 256) (hc : m.onChannel channel = some c) (hframing : c.framing)
    (hneed : c.needHeader) (hused : c.header.used = 0) (hpos : 0 < text.length)
    (hsize : text.length < 65536)
    (hrecv : ∀ name opq data, ∀ command ∈ (code.clieRecv name text opq data).2.2,
      command.Stays c.framing)
    (hcontrol : c.service = none →
      ∀ channel, (parseControl text).subject = some channel → ¬used channel)
    {pieces : List (List UInt8)}
    (hpieces : ∀ bytes ∈ pieces, bytes ≠ [] ∧ bytes.length ≤ maxSerialPayload) (hne : pieces ≠ [])
    (hs : Midway m c text got s) (hidle : s.serial.Idle)
    (hframe : got ++ pieces.flatten = QemudSerial.framed true text) :
    ∃ s', (pieces.flatMap (QemudSerial.packet m.serial.version channel)).foldlM
        (receiver code).readByte s = some s' ∧
      Heard used m s' (toOwner m channel [text]) ∧ s'.serial.Idle := by
  induction pieces generalizing got s with
  | nil => exact absurd rfl hne
  | cons bytes pieces ih =>
    obtain ⟨⟨hbytes, hlen⟩, hrest⟩ := List.forall_mem_cons.mp hpieces
    rw [List.flatten_cons, ← List.append_assoc] at hframe
    rw [List.flatMap_cons]
    by_cases hlast : pieces = []
    · subst hlast
      rw [List.flatten_nil, List.append_nil] at hframe
      rw [List.flatMap_nil, List.append_nil]
      exact midway_last code hwf hversion hopens hchannel hc hframing hneed hused hpos hsize hrecv
        hcontrol hbytes hlen hs hidle hframe
    · have hmore : pieces.flatten ≠ [] := by
        obtain ⟨bytes', hbytes'⟩ := List.exists_mem_of_ne_nil pieces hlast
        exact fun h => (hrest bytes' hbytes').1 (List.flatten_eq_nil_iff.mp h bytes' hbytes')
      obtain ⟨s₁, hs₁, hmidway, hidle₁⟩ := midway_more code hwf hversion hchannel hc hframing hpos
        hsize hbytes hlen hs hidle hframe hmore
      obtain ⟨s', hs', hheard⟩ := ih hrest hlast hmidway hidle₁ hframe
      refine ⟨s', ?_, hheard⟩
      rw [List.foldlM_append, hs₁]
      exact hs'

theorem ignored_heard (hwf : m.Wf) (hversion : m.serial.version ≠ .unknown)
    (hchannel : channel < 256) (hc : m.onChannel channel = none) {pieces : List (List UInt8)}
    (hpieces : ∀ bytes ∈ pieces, bytes ≠ [] ∧ bytes.length ≤ maxSerialPayload)
    (hidle : m.serial.Idle) :
    ∃ m', (pieces.flatMap (QemudSerial.packet m.serial.version channel)).foldlM
        (receiver code).readByte m = some m' ∧
      Heard used m m' (fun _ => []) ∧ m'.serial.Idle := by
  induction pieces generalizing m with
  | nil => exact ⟨m, rfl, .refl hwf, hidle⟩
  | cons bytes pieces ih =>
    obtain ⟨⟨hbytes, hlen⟩, hpieces⟩ := List.forall_mem_cons.mp hpieces
    obtain ⟨m₁, hm₁, ⟨hheard, hc₁⟩, hidle₁⟩ := packet_reads code hidle hversion hchannel hbytes hlen
      (fun s => Heard used m s (fun _ => []) ∧ s.onChannel channel = none)
      (fun q hq => by
        have hc' : { m with serial := q }.onChannel channel = none := hc
        refine ⟨{ m with serial := q }, ?_, heard_serial hwf hq, hc'⟩
        rw [serialRecv, hc'])
      fun m' q hq h => ⟨(h.1.trans (heard_serial h.1.wf hq)).congr fun i => rfl, h.2⟩
    obtain ⟨m', hm', hheard', hidle'⟩ := ih hheard.wf (hheard.version ▸ hversion) hc₁ hpieces hidle₁
    refine ⟨m', ?_, (hheard.trans hheard').congr fun i => rfl, hidle'⟩
    rw [List.flatMap_cons, List.foldlM_append, hm₁]
    exact hheard.version ▸ hm'

theorem midway_start (hwf : m.Wf) (hc : m.client c.id = some c) (hneed : c.needHeader)
    (hused : c.header.used = 0) (text : List UInt8) : Midway m c text [] m := by
  have hmem := Keyed.mem_of_find hc
  have hsound := hwf.sound c hmem
  refine ⟨c, ?_, rfl, ⟨rfl, rfl, rfl, rfl⟩,
    .header [] c (by decide) ⟨hneed, ?_, hsound.header0, rfl⟩⟩
  · rw [setClient, Keyed.replace_self hwf.idsNodup hmem]
  · rw [List.length_nil, ← hsound.headerSize, ← hused]

end Packets

section Messages

variable (code : ServiceCode ω δ) {framing : Fin 256 → Bool} {msgs : List Message} {p : Message}

def OnUsed (msgs : List Message) (channel : Int) : Prop :=
  ∃ p ∈ msgs, ((p.channel : Nat) : Int) = channel

/-- The callbacks that some messages lead to close no client and leave their framing, and no
control message among them is about the channel of a message. -/
structure Stays (framing : Fin 256 → Bool) (msgs : List Message) : Prop where
  opens : Opens code
  recv : ∀ p ∈ msgs, ∀ text ∈ p.delivered framing, ∀ name opq data,
    ∀ command ∈ (code.clieRecv name text opq data).2.2, command.Stays (framing p.channel)
  control : ∀ p ∈ msgs, p.channel = 0 → ∀ text ∈ p.delivered framing,
    ∀ channel, (parseControl text).subject = some channel → ¬OnUsed msgs channel

/-- The multiplexer is between two messages, and its clients frame as the messages are sent. -/
structure Ready (framing : Fin 256 → Bool) (msgs : List Message) (m : QemudMultiplexer ω δ) :
    Prop where
  wf : m.Wf
  version : m.serial.version ≠ .unknown
  framing : ∀ p ∈ msgs, ∀ c, m.onChannel (p.channel : Nat) = some c → c.framing = framing p.channel
  idle : ∀ p ∈ msgs, ∀ c, m.onChannel (p.channel : Nat) = some c → c.framing →
    c.needHeader ∧ c.header.used = 0

theorem Ready.heard (h : Ready framing msgs m) {new : Nat → List (List UInt8)}
    (hheard : Heard (OnUsed msgs) m m' new) : Ready framing msgs m' := by
  have hface : ∀ p ∈ msgs, ∀ c', m'.onChannel (p.channel : Nat) = some c' →
      ∃ c, m.onChannel (p.channel : Nat) = some c ∧ c'.face = c.face := by
    intro p hp c' hc'
    have hfaces := hheard.faces _ ⟨p, hp, rfl⟩
    rw [hc', Option.map_some] at hfaces
    obtain ⟨c, hc, hface⟩ := Option.map_eq_some_iff.mp hfaces.symm
    exact ⟨c, hc, hface.symm⟩
  refine ⟨hheard.wf, hheard.version ▸ h.version, fun p hp c' hc' => ?_, fun p hp c' hc' => ?_⟩
  · obtain ⟨c, hc, hface⟩ := hface p hp c' hc'
    exact (congrArg (·.2.1) hface).trans (h.framing p hp c hc)
  · obtain ⟨c, hc, hface⟩ := hface p hp c' hc'
    rw [show c'.framing = c.framing from congrArg (·.2.1) hface,
      show c'.needHeader = c.needHeader from congrArg (·.2.2.1) hface,
      show c'.header.used = c.header.used from congrArg (·.2.2.2) hface]
    exact h.idle p hp c hc

theorem payloads_heard (hwf : m.Wf) (hversion : m.serial.version ≠ .unknown)
    (hstays : Stays code framing msgs) (hp : p ∈ msgs) (hplain : framing p.channel = false)
    (hframing : ∀ c, m.onChannel (p.channel : Nat) = some c → c.framing = false)
    {pieces : List (List UInt8)} (hpieces : ∀ bytes ∈ pieces, bytes ∈ p.delivered framing)
    (hsizes : ∀ bytes ∈ pieces, bytes ≠ [] ∧ bytes.length ≤ maxSerialPayload)
    (hidle : m.serial.Idle) :
    ∃ m', (pieces.flatMap (QemudSerial.packet m.serial.version p.channel)).foldlM
        (receiver code).readByte m = some m' ∧
      Heard (OnUsed msgs) m m' (toOwner m (p.channel : Nat) pieces) ∧ m'.serial.Idle := by
  induction pieces generalizing m with
  | nil =>
    refine ⟨m, rfl, (Heard.refl hwf).congr fun i => ?_, hidle⟩
    rw [toOwner]
    split
    · rfl
    · rfl
  | cons bytes pieces ih =>
    obtain ⟨hmem, hpieces⟩ := List.forall_mem_cons.mp hpieces
    obtain ⟨⟨hbytes, hlen⟩, hsizes⟩ := List.forall_mem_cons.mp hsizes
    have hused : OnUsed msgs (p.channel : Nat) := ⟨p, hp, rfl⟩
    obtain ⟨m₁, hm₁, hheard, hidle₁⟩ := packet_reads code hidle hversion p.channel.isLt hbytes hlen
      (Heard (OnUsed msgs) m · (toOwner m (p.channel : Nat) [bytes]))
      (fun q hq => by
        obtain ⟨m', hm', hheard⟩ := plain_heard (m := { m with serial := q }) code { hwf with }
          (hq ▸ hversion) hstays.opens hframing
          (fun name opq data => hplain ▸ hstays.recv p hp bytes hmem name opq data)
          fun hzero => hstays.control p hp (Fin.ext (Int.natCast_eq_zero.mp hzero)) bytes hmem
        exact ⟨m', hm', (heard_serial hwf hq).trans hheard⟩)
      fun m' q hq h => (h.trans (heard_serial h.wf hq)).congr fun i => List.append_nil _
    have hframing₁ : ∀ c, m₁.onChannel (p.channel : Nat) = some c → c.framing = false := by
      intro c hc
      have hface := hheard.faces _ hused
      rw [hc, Option.map_some] at hface
      obtain ⟨c₀, hc₀, hface₀⟩ := Option.map_eq_some_iff.mp hface.symm
      exact (congrArg (·.2.1) hface₀.symm).trans (hframing c₀ hc₀)
    obtain ⟨m', hm', hheard', hidle'⟩ :=
      ih hheard.wf (hheard.version ▸ hversion) hframing₁ hpieces hsizes hidle₁
    refine ⟨m', ?_, (hheard.trans hheard').congr fun i => ?_, hidle'⟩
    · rw [List.flatMap_cons, List.foldlM_append, hm₁]
      exact hheard.version ▸ hm'
    · rw [hheard.toOwner_eq hused, ← toOwner_append]
      rfl

theorem message_heard (hready : Ready framing msgs m) (hidle : m.serial.Idle)
    (hstays : Stays code framing msgs) (hp : p ∈ msgs)
    (hsize : framing p.channel → p.text.length ≤ maxFramePayload) :
    ∃ m', (QemudSerial.encode m.serial.version p.channel (framing p.channel) p.text).foldlM
        (receiver code).readByte m = some m' ∧
      Heard (OnUsed msgs) m m' (toOwner m (p.channel : Nat) (p.delivered framing)) ∧
        m'.serial.Idle := by
  obtain ⟨hwf, hversion, hframing, hquiet⟩ := hready
  have hpos : 0 < p.text.length := List.length_pos_iff.mpr p.nonempty
  have hall : ∀ bytes : List UInt8, bytes.length ≤ bytes.length * maxSerialPayload :=
    fun bytes => Nat.le_mul_of_pos_right _ (by decide)
  have hpieces : ∀ {bytes piece : List UInt8}, piece ∈ QemudSerial.payloads bytes.length bytes →
      piece ≠ [] ∧ piece.length ≤ maxSerialPayload := fun h => QemudSerial.mem_payloads h
  rw [QemudSerial.encode]
  cases hf : framing p.channel with
  | false =>
    have hdelivered : p.delivered framing = QemudSerial.payloads p.text.length p.text := by
      rw [Message.delivered, hf]
      exact if_neg Bool.false_ne_true
    rw [hdelivered]
    exact payloads_heard code hwf hversion hstays hp hf (fun c hc => hf ▸ hframing p hp c hc)
      (fun bytes hbytes => hdelivered ▸ hbytes) (fun bytes hbytes => hpieces hbytes) hidle
  | true =>
    have hdelivered : p.delivered framing = [p.text] := by
      rw [Message.delivered, hf]
      exact if_pos rfl
    rw [hdelivered]
    cases hc : m.onChannel (p.channel : Nat) with
    | none =>
      obtain ⟨m', hm', hheard, hidle'⟩ := ignored_heard code hwf hversion p.channel.isLt hc
        (fun bytes hbytes => hpieces hbytes) hidle
      exact ⟨m', hm', hheard.congr fun i => (toOwner_of_none hc _ i).symm, hidle'⟩
    | some c =>
      have hframe := QemudSerial.flatten_payloads (hall (QemudSerial.framed true p.text))
      have hne : QemudSerial.payloads (QemudSerial.framed true p.text).length
          (QemudSerial.framed true p.text) ≠ [] := by
        intro hnil
        rw [hnil, QemudSerial.framed, if_pos rfl] at hframe
        exact p.nonempty (List.append_eq_nil_iff.mp hframe.symm).2
      have hcf : c.framing := (hframing p hp c hc).trans hf
      obtain ⟨hneed, hused⟩ := hquiet p hp c hc hcf
      have hclient := hwf.client_onChannel hc
      refine frame_heard code hwf hversion hstays.opens p.channel.isLt hc hcf hneed hused hpos
        (Nat.lt_succ_of_le (hsize hf)) ?_ ?_ (fun bytes hbytes => hpieces hbytes) hne
        (midway_start hwf hclient hneed hused p.text) hidle hframe
      · rw [hframing p hp c hc]
        exact fun name opq data => hstays.recv p hp p.text (by simp [hdelivered]) name opq data
      · intro hservice
        have hplaced := hwf.placed c (Keyed.mem_of_find hclient)
        rw [QemudClient.Placed, hservice, channel_onChannel hc] at hplaced
        exact hstays.control p hp (Fin.ext (Int.natCast_eq_zero.mp hplaced)) p.text
          (by simp [hdelivered])

theorem messages_heard (hready : Ready framing msgs m) (hidle : m.serial.Idle)
    (hstays : Stays code framing msgs)
    (hsize : ∀ p ∈ msgs, framing p.channel → p.text.length ≤ maxFramePayload)
    {sent : List Message} (hsent : ∀ p ∈ sent, p ∈ msgs) :
    ∃ m', (sent.flatMap fun p =>
        QemudSerial.encode m.serial.version p.channel (framing p.channel) p.text).foldlM
          (receiver code).readByte m = some m' ∧
      Heard (OnUsed msgs) m m' (fun i => sent.flatMap fun p =>
        toOwner m (p.channel : Nat) (p.delivered framing) i) ∧ m'.serial.Idle := by
  induction sent generalizing m with
  | nil => exact ⟨m, rfl, .refl hready.wf, hidle⟩
  | cons p sent ih =>
    obtain ⟨hp, hsent⟩ := List.forall_mem_cons.mp hsent
    obtain ⟨m₁, hm₁, hheard, hidle₁⟩ := message_heard code hready hidle hstays hp (hsize p hp)
    obtain ⟨m', hm', hheard', hidle'⟩ := ih (hready.heard hheard) hidle₁ hsent
    refine ⟨m', ?_, (hheard.trans hheard').congr fun i => ?_, hidle'⟩
    · rw [List.flatMap_cons, List.foldlM_append, hm₁]
      exact hheard.version ▸ hm'
    · rw [List.flatMap_cons]
      refine congrArg (_ ++ ·) (List.flatMap_congr fun p' hp' => ?_)
      exact hheard.toOwner_eq ⟨p', hsent p' hp', rfl⟩ _ i

/-- The texts for a channel. -/
def textsFor (channel : Fin 256) (msgs : List Message) : List (List UInt8) :=
  (msgs.filter fun p => p.channel = channel).map fun p => p.text

theorem flatMap_toOwner (hwf : m.Wf) {channel : Fin 256} {c : QemudClient ω}
    (hc : m.onChannel (channel : Nat) = some c) (msgs : List Message) :
    (msgs.flatMap fun p => toOwner m (p.channel : Nat) (p.delivered framing) c.id) =
      (msgs.filter fun p => p.channel = channel).flatMap (Message.delivered framing) := by
  have howner : ∀ p : Message, toOwner m (p.channel : Nat) (p.delivered framing) c.id =
      if p.channel = channel then p.delivered framing else [] := by
    intro p
    refine if_congr ⟨fun h => ?_, fun h => ?_⟩ rfl rfl
    · obtain ⟨b, hb, hid⟩ := Option.map_eq_some_iff.mp h
      have hsame := hwf.eq_of_client (hwf.client_onChannel hc) (List.mem_of_find?_eq_some hb) hid
      have hchannel := (channel_onChannel hb).symm.trans (hsame ▸ channel_onChannel hc)
      exact Fin.ext (Int.natCast_inj.mp hchannel)
    · rw [h, hc, Option.map_some]
  simp only [howner]
  induction msgs with
  | nil => rfl
  | cons p msgs ih =>
    rw [List.flatMap_cons, List.filter_cons, ih]
    by_cases h : p.channel = channel
    · rw [if_pos h, if_pos (decide_eq_true h), List.flatMap_cons]
    · rw [if_neg h, if_neg (by simp [h]), List.nil_append]

theorem delivered_textsFor (framing : Fin 256 → Bool) (channel : Fin 256) (msgs : List Message) :
    let pieces := (msgs.filter fun p => p.channel = channel).flatMap (Message.delivered framing)
    if framing channel then pieces = textsFor channel msgs
    else pieces.flatten = (textsFor channel msgs).flatten ∧
      ∀ piece ∈ pieces, piece.length ≤ maxSerialPayload := by
  rw [textsFor]
  have hmem : ∀ p ∈ msgs.filter fun p => p.channel = channel, p.channel = channel :=
    fun p hp => of_decide_eq_true (List.mem_filter.mp hp).2
  generalize (msgs.filter fun p => p.channel = channel) = sent at hmem
  cases hf : framing channel with
  | true =>
    refine (List.flatMap_congr fun p hp => ?_).trans List.map_eq_flatMap.symm
    rw [Message.delivered, hmem p hp, hf]
    rfl
  | false =>
    have hcut : ∀ p ∈ sent, p.delivered framing = QemudSerial.payloads p.text.length p.text := by
      intro p hp
      rw [Message.delivered, hmem p hp, hf]
      rfl
    refine ⟨?_, fun piece hpiece => ?_⟩
    · rw [List.flatMap_congr hcut, List.flatMap_def, List.flatten_flatten, List.map_map]
      exact congrArg _ (List.map_congr_left fun p _ =>
        QemudSerial.flatten_payloads (Nat.le_mul_of_pos_right _ (by decide)))
    · obtain ⟨p, hp, hpiece⟩ := List.mem_flatMap.mp hpiece
      rw [hcut p hp] at hpiece
      exact (QemudSerial.mem_payloads hpiece).2

/-- What is sent on one end reaches the clients on the other end, however it is cut. -/
theorem sendAll_received (framing : Fin 256 → Bool) (msgs : List Message) (q : QemudSerial)
    (m : QemudMultiplexer ω δ) (chunks : List (List UInt8))
    (hversion : q.version = m.serial.version) (hready : Ready framing msgs m)
    (hidle : m.serial.Idle) (hstays : Stays code framing msgs)
    (hsize : ∀ p ∈ msgs, framing p.channel → p.text.length ≤ maxFramePayload)
    (hchunks : (q.sendAll framing msgs).cs = q.cs ++ chunks.flatten) :
    ∃ m', chunks.foldlM (receiver code).serialRead m = some m' ∧
      ∀ (channel : Fin 256) (c : QemudClient ω), m.onChannel (channel : Nat) = some c →
        ∃ pieces, received m'.calls c.id = received m.calls c.id ++ pieces ∧
          if c.framing then pieces = textsFor channel msgs
          else pieces.flatten = (textsFor channel msgs).flatten ∧
            ∀ piece ∈ pieces, piece.length ≤ maxSerialPayload := by
  have hbytes : chunks.flatten = msgs.flatMap fun p =>
      QemudSerial.encode m.serial.version p.channel (framing p.channel) p.text := by
    rw [QemudSerial.sendAll_eq, hversion] at hchunks
    exact (List.append_cancel_left hchunks).symm
  obtain ⟨m', hm', hheard, -⟩ :=
    messages_heard code hready hidle hstays hsize fun p (hp : p ∈ msgs) => hp
  refine ⟨m', ?_, fun channel c hc => ⟨_, hheard.received c.id, ?_⟩⟩
  · rw [(receiver code).serialRead_chunks hidle.toValid, hbytes]
    exact hm'
  · have hdelivered := delivered_textsFor framing channel msgs
    rw [flatMap_toOwner hready.wf hc]
    by_cases hused : ∃ p ∈ msgs, p.channel = channel
    · obtain ⟨p, hp, rfl⟩ := hused
      rw [hready.framing p hp c hc]
      exact hdelivered
    · have hnone : (msgs.filter fun p => p.channel = channel) = [] :=
        List.filter_eq_nil_iff.mpr fun p hp h => hused ⟨p, hp, of_decide_eq_true h⟩
      rw [textsFor, hnone]
      split
      · rfl
      · exact ⟨rfl, nofun⟩

end Messages

/-- Services that do nothing. -/
def silent : ServiceCode Unit Unit where
  clieRecv := fun _ _ _ _ => ((), (), [])
  clieClose := fun _ _ _ => ()
  clieSave := fun _ _ _ => []
  clieLoad := fun _ rest _ _ => (0, (), (), rest)
  servConnect := fun _ _ _ => (some ((), []), ())
  servSave := fun _ _ => []
  servLoad := fun _ rest _ => (0, (), rest)

/-- A framing client on channel 1. -/
def oneClient : QemudMultiplexer Unit Unit where
  serial := { QemudSerial.init with version := .normal }
  clients := [{ QemudClient.alloc 1 1 (some (ascii "gsm", ())) with framing := true },
    .alloc 0 0 none]
  services := [⟨ascii "gsm", 0, 1, [1]⟩]
  data := ()
  next := 2
  calls := []

/-- With its frame header it takes two packets. -/
def longMessage : Message := ⟨1, 7 :: List.replicate 4999 7, List.cons_ne_nil _ _⟩

def longBytes : List UInt8 :=
  ({ QemudSerial.init with version := .normal, cs := [] }.sendAll (fun _ => true) [longMessage]).cs

/-- The bytes are cut within the first packet. -/
theorem sendAll_received_oneClient :
    ∃ m', [longBytes.take 1000, longBytes.drop 1000].foldlM
        (receiver silent).serialRead oneClient = some m' ∧
      ∀ (channel : Fin 256) (c : QemudClient Unit), oneClient.onChannel (channel : Nat) = some c →
        ∃ pieces, received m'.calls c.id = received oneClient.calls c.id ++ pieces ∧
          if c.framing then pieces = textsFor channel [longMessage]
          else pieces.flatten = (textsFor channel [longMessage]).flatten ∧
            ∀ piece ∈ pieces, piece.length ≤ maxSerialPayload := by
  have hwf : oneClient.Wf := by
    have hcontrol : (QemudClient.alloc 0 0 (none : Option (CString × Unit))).Sound := sound_alloc ..
    refine ⟨by decide, by decide, by decide, by decide, ?_, ?_, ?_⟩
    · exact List.forall_mem_cons.mpr ⟨fun name hname => by cases hname; decide,
        List.forall_mem_singleton.mpr fun name hname => (nomatch hname)⟩
    · exact List.forall_mem_cons.mpr ⟨{ sound_alloc 1 1 (some (ascii "gsm", ())) with },
        List.forall_mem_singleton.mpr hcontrol⟩
    · exact List.forall_mem_cons.mpr ⟨⟨Int.one_pos, by decide⟩, List.forall_mem_singleton.mpr rfl⟩
  have hidle : oneClient.serial.Idle := { QemudSerial.idle_init with }
  have hclient : ∀ p ∈ [longMessage], ∀ c, oneClient.onChannel (p.channel : Nat) = some c →
      c.framing ∧ c.needHeader ∧ c.header.used = 0 := by
    refine List.forall_mem_singleton.mpr fun c hc => ?_
    cases hc
    exact ⟨rfl, rfl, rfl⟩
  refine sendAll_received silent (fun _ => true) [longMessage]
    { QemudSerial.init with version := .normal, cs := [] } oneClient
    [longBytes.take 1000, longBytes.drop 1000] rfl ⟨hwf, nofun, fun p hp c hc => ?_, ?_⟩ hidle
    ⟨?_, ?_, ?_⟩ ?_ ?_
  · exact (hclient p hp c hc).1
  · exact fun p hp c hc _ => (hclient p hp c hc).2
  · intro name channel data opq commands h
    cases h
    exact List.not_mem_nil
  · exact fun _ _ _ _ _ _ _ _ h => (nomatch h)
  · exact List.forall_mem_singleton.mpr fun h => absurd h (by decide)
  · refine List.forall_mem_singleton.mpr fun _ => ?_
    have hlength : longMessage.text.length = 4999 + 1 := by
      rw [longMessage, List.length_cons, List.length_replicate]
    exact hlength.trans_le (by decide)
  · simp only [List.flatten_cons, List.flatten_nil, List.append_nil, List.take_append_drop]
    rw [longBytes, List.nil_append]

end QemudMultiplexer

end M2M.Qemud
