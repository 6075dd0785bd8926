import M2M.Qemud.Snapshot
import M2M.Qemud.TwinRuns
import Mathlib.Data.List.TakeDrop

/-! What a snapshot of a multiplexer makes of another one that loads it. -/

open M2M.Lib

namespace M2M.Qemud

variable {ω δ : Type}

/-- Services that read what they saved, whatever they had before.  Data that is `alike` for some
services behaves alike for them, and so do clients whose data `agree`s. -/
structure Restores (code : ServiceCode ω δ) (names : List CString) (agree : ω → ω → Prop)
    (alike : List CString → δ → δ → Prop) : Prop where
  respects : Respects code agree (alike names)
  start : ∀ data data', alike [] data data'
  servLoad : ∀ loaded name data data' rest, alike loaded data data' →
    ∃ data₁, code.servLoad name (code.servSave name data ++ rest) data' = (0, data₁, rest) ∧
      alike (loaded ++ [name]) data data₁
  /-- A client that goes away takes nothing from the others. -/
  clieClose : ∀ name opq data data', alike names data data' →
    alike names data (code.clieClose name opq data')
  /-- A client is accepted, and not closed at once. -/
  servConnect : ∀ name channel data data', alike names data data' →
    ∃ opq commands data₁, code.servConnect name channel data' = (some (opq, commands), data₁) ∧
      .close ∉ commands ∧ alike names data data₁
  clieLoad : ∀ name opq opq' data data' rest, alike names data data' →
    ∃ opq₁ data₁, code.clieLoad name (code.clieSave name opq data ++ rest) opq' data' =
      (0, opq₁, data₁, rest) ∧ agree opq opq₁ ∧ alike names data data₁

namespace QemudMultiplexer

variable {m m' : QemudMultiplexer ω δ} {code : ServiceCode ω δ} {names : List CString}
  {agree : ω → ω → Prop} {alike : List CString → δ → δ → Prop}

section Services

/-- What a service is told about itself. -/
def tell (sv sv' : QemudService) : QemudService :=
  if sv'.name = sv.name then { sv' with maxClients := sv.maxClients, numClients := sv.numClients }
  else sv'

theorem tell_same (sv sv' : QemudService) :
    (tell sv sv').name = sv'.name ∧ (tell sv sv').clients = sv'.clients := by
  rw [tell]
  split
  · exact ⟨rfl, rfl⟩
  · exact ⟨rfl, rfl⟩

def tellAll (svs services : List QemudService) : List QemudService :=
  svs.foldl (fun services sv => services.map (tell sv)) services

theorem tellAll_same (svs services : List QemudService) :
    ((tellAll svs services).map fun sv => (sv.name, sv.clients)) =
      services.map fun sv => (sv.name, sv.clients) := by
  induction svs generalizing services with
  | nil => rfl
  | cons sv svs ih =>
    refine (ih (services.map (tell sv))).trans ?_
    rw [List.map_map]
    exact List.map_congr_left fun sv' _ => Prod.ext (tell_same sv sv').1 (tell_same sv sv').2

theorem face_mem_tellAll {face : CString × Int32 × Int32} {svs services : List QemudService}
    (hface : face ∈ services.map QemudService.face) (hother : ∀ sv ∈ svs, sv.name ≠ face.1) :
    face ∈ (tellAll svs services).map QemudService.face := by
  induction svs generalizing services with
  | nil => exact hface
  | cons sv svs ih =>
    refine ih ?_ fun sv' hsv' => hother sv' (List.mem_cons_of_mem sv hsv')
    obtain ⟨sv', hsv', rfl⟩ := List.mem_map.mp hface
    have hne : ¬sv'.name = sv.name := fun heq => hother sv List.mem_cons_self heq.symm
    refine List.mem_map.mpr ⟨sv', List.mem_map.mpr ⟨sv', hsv', ?_⟩, rfl⟩
    rw [tell, if_neg hne]

theorem mem_tellAll {svs services : List QemudService}
    (hnodup : (svs.map fun sv => sv.name).Nodup)
    (hmem : ∀ sv ∈ svs, sv.name ∈ services.map fun sv => sv.name) :
    ∀ sv ∈ svs, sv.face ∈ (tellAll svs services).map QemudService.face := by
  induction svs generalizing services with
  | nil => exact List.forall_mem_nil _
  | cons sv svs ih =>
    obtain ⟨hfirst, hrest⟩ := List.nodup_cons.mp hnodup
    obtain ⟨hsv, hsvs⟩ := List.forall_mem_cons.mp hmem
    refine List.forall_mem_cons.mpr ⟨?_, ih hrest fun sv' hsv' => ?_⟩
    · obtain ⟨sv', hsv', hname⟩ := List.mem_map.mp hsv
      change sv.face ∈ (tellAll svs (services.map (tell sv))).map QemudService.face
      refine face_mem_tellAll (List.mem_map.mpr ⟨tell sv sv', List.mem_map_of_mem hsv', ?_⟩)
        fun sv'' hsv'' heq => hfirst (List.mem_map.mpr ⟨sv'', hsv'', heq⟩)
      rw [tell, if_pos hname, QemudService.face, QemudService.face, hname]
    · obtain ⟨sv'', hsv'', hname⟩ := List.mem_map.mp (hsvs sv' hsv')
      rw [List.map_map]
      exact List.mem_map.mpr ⟨sv'', hsv'', (tell_same sv sv'').1.trans hname⟩

/-- Two lists with the same keys, in which no key is twice, are equal if one has the elements of
the other. -/
theorem eq_of_keys {α β : Type} {key : α → β} {l l' : List α} (hkeys : l'.map key = l.map key)
    (hnodup : (l.map key).Nodup) (hmem : ∀ a ∈ l, a ∈ l') : l' = l := by
  have hlength : l'.length = l.length := by
    rw [← List.length_map (f := key), hkeys, List.length_map]
  refine List.ext_getElem hlength fun i hi' hi => ?_
  have hkey : key l'[i] = key l[i] := by
    have hget := congrArg (fun ks => ks[i]?) hkeys
    simpa [hi, hi'] using hget
  have hnodup' : (l'.map key).Nodup := hkeys ▸ hnodup
  exact List.inj_on_of_nodup_map hnodup' (List.getElem_mem hi') (hmem _ (List.getElem_mem hi)) hkey

theorem faces_tellAll {svs services : List QemudService}
    (hnodup : (svs.map fun sv => sv.name).Nodup)
    (hnames : (services.map fun sv => sv.name) = svs.map fun sv => sv.name) :
    (tellAll svs services).map QemudService.face = svs.map QemudService.face := by
  have hkeys : ∀ l : List QemudService, (l.map QemudService.face).map Prod.fst =
      l.map fun sv => sv.name := fun l => List.map_map ..
  have hsame := congrArg (List.map Prod.fst) (tellAll_same svs services)
  rw [List.map_map, List.map_map] at hsame
  have hfirst : ((tellAll svs services).map QemudService.face).map Prod.fst =
      (svs.map QemudService.face).map Prod.fst := by
    rw [hkeys, hkeys, ← hnames]
    exact hsame
  refine eq_of_keys hfirst (hkeys svs ▸ hnodup) fun face hface => ?_
  obtain ⟨sv, hsv, rfl⟩ := List.mem_map.mp hface
  exact mem_tellAll hnodup (fun sv hsv => hnames ▸ List.mem_map_of_mem hsv) sv hsv

theorem serviceLoad_of {sv : QemudService} (hname : IsName sv.name)
    (hmem : sv.name ∈ m.services.map fun sv => sv.name) {data data₁ : δ} {rest : List UInt8}
    (hload : code.servLoad sv.name (code.servSave sv.name data ++ rest) m.data = (0, data₁, rest)) :
    m.serviceLoad code (serviceSave code data sv ++ rest) =
      .ok (rest, { m with services := m.services.map (tell sv), data := data₁ }) := by
  have hfind : (m.findService sv.name).isSome := Keyed.isSome_find_iff.mpr hmem
  obtain ⟨sv', hfind⟩ := Option.isSome_iff_exists.mp hfind
  rw [serviceLoad, serviceSave]
  simp only [List.append_assoc, loadName_saveName hname, Option.elim_some, pure_bind, hfind,
    getBe32_putBe32 (fitsInt_toInt _), Int32.ofInt_toInt, setService, hload]
  rfl

theorem loadServices_of {data : δ} {svs : List QemudService} (hname : ∀ sv ∈ svs, IsName sv.name)
    (hmem : ∀ sv ∈ svs, sv.name ∈ m.services.map fun sv => sv.name) {loaded : List CString}
    (hnames : loaded ++ svs.map (fun sv => sv.name) = names)
    (hcode : Restores code names agree alike) (halike : alike loaded data m.data)
    (rest : List UInt8) :
    ∃ data₁, loadServices code svs.length (svs.flatMap (serviceSave code data) ++ rest) m =
        .ok (rest, { m with
          services := tellAll svs m.services
          data := data₁ }) ∧
      alike names data data₁ := by
  induction svs generalizing m loaded with
  | nil =>
    rw [List.map_nil, List.append_nil] at hnames
    exact ⟨m.data, rfl, hnames ▸ halike⟩
  | cons sv svs ih =>
    obtain ⟨data₁, hload, halike₁⟩ := hcode.servLoad loaded sv.name data m.data
      (svs.flatMap (serviceSave code data) ++ rest) halike
    have hstep := serviceLoad_of (hname sv List.mem_cons_self) (hmem sv List.mem_cons_self) hload
    have htold : ((m.services.map (tell sv)).map fun sv => sv.name) =
        m.services.map fun sv => sv.name := by
      rw [List.map_map]
      exact List.map_congr_left fun sv' _ => (tell_same sv sv').1
    obtain ⟨data₂, hloop, halike₂⟩ := ih
      (m := { m with services := m.services.map (tell sv), data := data₁ })
      (fun sv' hsv' => hname sv' (List.mem_cons_of_mem sv hsv'))
      (fun sv' hsv' => htold ▸ hmem sv' (List.mem_cons_of_mem sv hsv'))
      (by rw [← hnames, List.append_assoc]; rfl) halike₁
    refine ⟨data₂, ?_, halike₂⟩
    rw [List.flatMap_cons, List.append_assoc, List.length_cons, loadServices, hstep]
    exact hloop

end Services

section Closing

def countOf (l : List (QemudClient ω)) (name : CString) : Nat :=
  l.countP fun c => c.serviceName = some name

/-- What is left when the clients `l` are gone. -/
structure Closed (l : List (QemudClient ω)) (m m' : QemudMultiplexer ω δ) : Prop where
  good : m'.Good
  serial : m'.serial = m.serial
  next : m'.next = m.next
  clients : m'.clients = m.clients.filter fun c => c.id ∉ l.map fun c => c.id
  services : m'.services.map QemudService.face = (m.services.map QemudService.face).map
    fun face => (face.1, face.2.1, face.2.2 - .ofNat (countOf l face.1))

theorem Closed.refl (h : m.Good) : Closed [] m m := by
  constructor
  case good => exact h
  case serial => rfl
  case next => rfl
  case clients => simp
  case services => simp [countOf]

theorem Closed.trans {l l' : List (QemudClient ω)} {m'' : QemudMultiplexer ω δ} (h : Closed l m m')
    (h' : Closed l' m' m'') : Closed (l ++ l') m m'' := by
  constructor
  case good => exact h'.good
  case serial => exact h'.serial.trans h.serial
  case next => exact h'.next.trans h.next
  case clients =>
    rw [h'.clients, h.clients, List.filter_filter, List.map_append]
    refine List.filter_congr fun c _ => ?_
    rw [← Bool.decide_and, decide_eq_decide, List.mem_append, not_or, and_comm]
  case services =>
    rw [h'.services, h.services, List.map_map]
    refine List.map_congr_left fun face _ => ?_
    rw [Function.comp_apply, Int32.sub_sub, ← Int32.ofNat_add, countOf, countOf, countOf,
      List.countP_append]

theorem disconnect_silent (hcode : Restores code names agree alike) {data : δ}
    (halike : alike names data m.data) {c : QemudClient ω} (hchannel : c.channel ≤ 0) :
    ∃ data' calls, m.disconnect code c = { m.unlist c with data := data', calls } ∧
      alike names data data' := by
  have hdata : (m.unlist c).data = m.data := by rw [unlist_same]
  rw [disconnect_eq]
  dsimp only
  rw [if_neg (Int.not_lt.mpr hchannel)]
  split
  · exact ⟨(m.unlist c).data, (m.unlist c).calls, rfl, hdata ▸ halike⟩
  · next name opq _ =>
    exact ⟨_, _, rfl, hcode.clieClose name opq data _ (hdata ▸ halike)⟩

theorem closed_disconnect (hcode : Restores code names agree alike) {data : δ}
    (halike : alike names data m.data) (hgood : m.Good) {c : QemudClient ω} (hc : c ∈ m.clients)
    (hchannel : c.channel ≠ 0) :
    Closed [c] m (m.disconnect code { c with channel := -1 }) ∧
      alike names data (m.disconnect code { c with channel := -1 }).data := by
  generalize hclosed : { c with channel := -1 } = c₁
  have hid : c₁.id = c.id := hclosed ▸ rfl
  have hname : c₁.serviceName = c.serviceName := hclosed ▸ rfl
  have hunlisted := hgood.unlist hc hchannel hid hname
  have hsame := unlist_same m c₁
  have hfaces := faces_unlist hgood.toWf hc hid hname
  obtain ⟨data', calls, hdone, halike'⟩ := disconnect_silent hcode halike (c := c₁)
    (hclosed ▸ (by decide : (-1 : Int) ≤ 0))
  rw [hdone]
  refine ⟨?_, halike'⟩
  constructor
  case good => exact hunlisted.same { hunlisted.toWf with } rfl
  case serial =>
    rw [hsame]
  case next =>
    rw [hsame]
  case clients =>
    refine (clients_unlist m _).trans (List.filter_congr fun b _ => ?_)
    simp [hid]
  case services =>
    refine hfaces.trans (List.map_congr_left fun face _ => ?_)
    by_cases hname : c.serviceName = some face.1
    · simp [countOf, hname]
    · simp [countOf, hname]

theorem closed_foldl (hcode : Restores code names agree alike) {data : δ}
    {l : List (QemudClient ω)} (halike : alike names data m.data) (hgood : m.Good)
    (hmem : ∀ c ∈ l, c ∈ m.clients ∧ c.channel ≠ 0) (hnodup : (l.map fun c => c.id).Nodup) :
    Closed l m (l.foldl (fun m c => m.disconnect code { c with channel := -1 }) m) ∧
      alike names data
        (l.foldl (fun m c => m.disconnect code { c with channel := -1 }) m).data := by
  induction l generalizing m with
  | nil => exact ⟨.refl hgood, halike⟩
  | cons c l ih =>
    obtain ⟨hc, hl⟩ := List.forall_mem_cons.mp hmem
    obtain ⟨hfirst, hrest⟩ := List.nodup_cons.mp hnodup
    obtain ⟨hclosed, halike₁⟩ := closed_disconnect hcode halike hgood hc.1 hc.2
    have hleft : ∀ b ∈ l, b ∈ (m.disconnect code { c with channel := -1 }).clients := by
      intro b hb
      rw [hclosed.clients, List.mem_filter]
      refine ⟨(hl b hb).1, decide_eq_true fun hid => hfirst ?_⟩
      rw [← List.mem_singleton.mp hid]
      exact List.mem_map.mpr ⟨b, hb, rfl⟩
    obtain ⟨hclosed', halike₂⟩ := ih halike₁ hclosed.good
      (fun b hb => ⟨hleft b hb, (hl b hb).2⟩) hrest
    exact ⟨hclosed.trans hclosed', halike₂⟩

theorem channel_pos (hgood : m.Good) {c : QemudClient ω} (hc : c ∈ m.clients)
    (hne : c ≠ .alloc 0 0 none) : 0 < c.channel := by
  have hplaced := hgood.placed c hc
  rw [QemudClient.Placed] at hplaced
  split at hplaced
  · exact absurd (hgood.others c hc hplaced) hne
  · exact hplaced.1

theorem clients_noncontrol (hgood : m.Good)
    (hclosed : Closed m.noncontrol m m') : m'.clients = [.alloc 0 0 none] := by
  have hall : ∀ c ∈ m'.clients, c = .alloc 0 0 none := by
    intro c hc
    rw [hclosed.clients, List.mem_filter] at hc
    by_contra hne
    refine of_decide_eq_true hc.2 (List.mem_map.mpr ⟨c, List.mem_filter.mpr ⟨hc.1, ?_⟩, rfl⟩)
    exact decide_eq_true (channel_pos hgood hc.1 hne)
  have hnodup : m'.clients.Nodup := hclosed.good.idsNodup.of_map
  rw [List.eq_replicate_of_mem hall] at hnodup ⊢
  have hle := List.nodup_replicate.mp hnodup
  have hpos := List.length_pos_of_mem hclosed.good.control
  rw [Nat.le_antisymm hle hpos]
  rfl

end Closing

section Connecting

variable {c : QemudClient ω} {id : Nat} {opq : ω}

theorem setClient_twice (m : QemudMultiplexer ω δ) {c c' : QemudClient ω} (h : c.id = c'.id) :
    (m.setClient c).setClient c' = m.setClient c' := by
  rw [setClient, setClient, setClient]
  dsimp only
  rw [Keyed.replace_replace h]

theorem setClient_self (hwf : m.Wf) (hc : m.client id = some c) : m.setClient c = m := by
  rw [setClient, Keyed.replace_self hwf.idsNodup (Keyed.mem_of_find hc)]

theorem Writes.setClient (h : Writes m m') (c : QemudClient ω) :
    Writes (m.setClient c) (m'.setClient c) := by
  obtain ⟨bytes, rfl⟩ := h
  exact ⟨bytes, rfl⟩

variable (code) in
theorem runCommands_open {commands : List Command} (hwf : m.Wf) (hc : m.client id = some c)
    (hservice : c.service.isSome) (hneed : c.needHeader) (hopen : .close ∉ commands) :
    ∃ m' framing, m.runCommands code id commands = some m' ∧
      Writes (m.setClient { c with framing }) m' := by
  induction commands generalizing m c with
  | nil =>
    refine ⟨m, c.framing, rfl, ?_⟩
    rw [setClient_self hwf hc]
    exact .refl m
  | cons command commands ih =>
    obtain ⟨hcommand, hcommands⟩ := not_or.mp (List.mem_cons.not.mp hopen)
    have hsend : ∀ m₁, m.runCommand code id command = some m₁ → Writes m m₁ →
        ∃ m' framing, m.runCommands code id (command :: commands) = some m' ∧
          Writes (m.setClient { c with framing }) m' := by
      intro m₁ hm₁ hwrites
      obtain ⟨m', framing, hm', hwrites'⟩ := ih (m := m₁) (hwrites.moves.wf hwf)
        (by rw [hwrites.client, hc]) hservice hneed hcommands
      refine ⟨m', framing, ?_, (hwrites.setClient _).trans hwrites'⟩
      rw [runCommands, List.foldlM_cons, hm₁]
      exact hm'
    obtain ⟨⟨name, opq⟩, hname⟩ := Option.isSome_iff_exists.mp hservice
    cases command with
    | close => exact absurd rfl hcommand
    | send msg =>
      obtain ⟨m₁, hm₁, hwrites⟩ := clientSend_writes msg hc
      exact hsend m₁ hm₁ hwrites
    | broadcast msg =>
      obtain ⟨m₁, hm₁, hwrites⟩ := broadcast_writes hwf hc hname msg
      exact hsend m₁ hm₁ hwrites
    | setFraming framing =>
      have hset : m.setFraming framing id = some (m.setClient { c with framing }) := by
        rw [setFraming, hc]
        simp [hneed]
      have hc₁ : (m.setClient { c with framing }).client id = some { c with framing } := by
        have hid : id = c.id := (Keyed.key_of_find hc).symm
        subst hid
        exact client_setClient hc
      obtain ⟨m', framing', hm', hwrites'⟩ := ih ((moves_setFraming hset).wf hwf) hc₁ hservice hneed
        hcommands
      have hsame : (m.setClient { c with framing }).setClient { c with framing := framing' } =
          m.setClient { c with framing := framing' } := setClient_twice m rfl
      refine ⟨m', framing', ?_, hsame ▸ hwrites'⟩
      rw [runCommands, List.foldlM_cons, runCommand, hset]
      exact hm'

def restored (id : Nat) (opq : ω) (c : QemudClient ω) : QemudClient ω :=
  let fresh : QemudClient ω := .alloc id c.channel (c.service.map fun p => (p.1, opq))
  if c.framing then
    { fresh with
      framing := true
      needHeader := c.needHeader
      header0 := c.header0
      payload := c.payload
      buff := c.buff.takeD c.payload.size 0 ++ [0] }
  else fresh

theorem framingLoad_of (id : Nat) (hsound : c.Sound) (hsized : c.Sized) (opq : ω) (framing : Bool)
    (rest : List UInt8) :
    framingLoad (framingSave c ++ rest) { QemudClient.alloc id c.channel
      (c.service.map fun p => (p.1, opq)) with framing } = .ok (rest, restored id opq c) := by
  have hused : c.payload.used < 2 ^ 31 := by
    have hle := hsized.1
    have hlt := hsized.2
    omega
  have hsize : c.payload.size < 2 ^ 31 := Nat.lt_trans hsized.2 (by omega)
  rw [framingSave, framingLoad, List.append_assoc, getBe32_putBe32 (fitsInt_toNat _)]
  cases hf : c.framing with
  | false =>
    rw [restored, hf]
    rfl
  | true =>
    have hheader := getBuffer_append c.header0
      (c.payload.save ++ (c.buff.takeD c.payload.size 0 ++ rest))
    have hbuff := getBuffer_append (c.buff.takeD c.payload.size 0) rest
    rw [hsound.header0] at hheader
    rw [List.takeD_length] at hbuff
    have hwrite : writeAt (List.replicate frameHeaderSize 0) 0 c.header0 = c.header0 := by
      rw [writeAt, List.take_zero, List.nil_append, Nat.zero_add, hsound.header0]
      exact List.append_nil _
    have hframe : FitsInt frameHeaderSize := fitsInt_natCast (by rw [frameHeaderSize]; omega)
    have hflag : decide ((c.needHeader.toNat : Int) ≠ 0) = c.needHeader := by
      cases c.needHeader <;> rfl
    simp only [Bool.toNat_true, if_true, List.append_assoc, getBe32_putBe32 (fitsInt_toNat _),
      getBe32_putBe32 hframe, hheader]
    rw [if_neg (by decide : ¬((1 : Nat) : Int) = 0), if_neg (Int.lt_irrefl _)]
    simp only [Option.elim_some, pure_bind, QemudSink.load_save hused hsize, hbuff, hflag]
    rw [restored, hf, if_pos rfl]
    dsimp only [QemudClient.alloc]
    rw [hwrite]
    rfl

/-- A client has joined. -/
structure Joined (c : QemudClient ω) (m m₁ : QemudMultiplexer ω δ) : Prop where
  good : m₁.Good
  serial : m₁.serial = { m.serial with cs := m₁.serial.cs }
  next : m₁.next = m.next + 1
  clients : m₁.clients = c :: m.clients
  services : m₁.services.map QemudService.face = (m.services.map QemudService.face).map
    fun face =>
      if c.serviceName = some face.1 then (face.1, face.2.1, face.2.2 + 1) else face

theorem joined_clientNew (hgood : m.Good) {name : CString} {channel : Int}
    (hname : name ∈ m.services.map fun sv => sv.name) (hchannel : 0 < channel ∧ channel < 256)
    (opq : ω) :
    Joined (.alloc m.next channel (some (name, opq))) m (m.clientNew name channel opq).2 := by
  constructor
  case good => exact hgood.clientNew hname hchannel opq
  case serial => rfl
  case next => rfl
  case clients => exact clients_clientNew ..
  case services =>
    refine (faces_clientNew ..).trans (List.map_congr_left fun face _ => ?_)
    have hiff : (QemudClient.alloc m.next channel (some (name, opq))).serviceName = some face.1 ↔
        face.1 = name := Option.some_inj.trans eq_comm
    simp only [hiff]

theorem Joined.client {m₁ : QemudMultiplexer ω δ} (h : Joined c m m₁) : m₁.client c.id = some c :=
  h.good.client_self (h.clients ▸ List.mem_cons_self)

theorem Joined.setClient {m₁ : QemudMultiplexer ω δ} {c₁ : QemudClient ω} (h : Joined c m m₁)
    (hchannel : c.channel ≠ 0) (hchanges : Changes c c₁) : Joined c₁ m (m₁.setClient c₁) := by
  have hgood := h.good.setClient h.client hchannel hchanges
  refine { h with good := hgood, clients := ?_, services := ?_ }
  · have hnodup := h.good.idsNodup
    rw [h.clients, List.map_cons, List.nodup_cons] at hnodup
    rw [QemudMultiplexer.setClient, Keyed.replace, h.clients, List.map_cons,
      if_pos hchanges.id.symm]
    refine congrArg (c₁ :: ·) ((List.map_congr_left fun b hb => if_neg fun hid => ?_).trans
      (List.map_id _))
    exact hnodup.1 (List.mem_map.mpr ⟨b, hb, hid.trans hchanges.id⟩)
  · rw [hchanges.serviceName]
    exact h.services

theorem Joined.writes {m₁ m₂ : QemudMultiplexer ω δ} (h : Joined c m m₁) (hw : Writes m₁ m₂) :
    Joined c m m₂ := by
  have hgood := h.good.same (hw.moves.wf h.good.toWf) hw.clients
  obtain ⟨bytes, rfl⟩ := hw
  exact { h with
    good := hgood
    serial := by
      rw [QemudSerial.write, h.serial] }

theorem Joined.setData {m₁ : QemudMultiplexer ω δ} (h : Joined c m m₁) (data : δ) :
    Joined c m { m₁ with data } :=
  { h with good := { h.good with } }

theorem changes_framing (c : QemudClient ω) (framing : Bool) : Changes c { c with framing } :=
  ⟨rfl, rfl, rfl, fun hs => { hs with }, fun hs => hs⟩

theorem connectClient_joins (hcode : Restores code names agree alike) {data : δ}
    (halike : alike names data m.data) (hgood : m.Good) {name : CString} {channel : Int}
    (hname : name ∈ m.services.map fun sv => sv.name) (hchannel : 0 < channel ∧ channel < 256) :
    ∃ m₁ opq framing, m.connectClient code name channel = some (some m.next, m₁) ∧
      alike names data m₁.data ∧
      Joined { QemudClient.alloc m.next channel (some (name, opq)) with framing } m m₁ := by
  obtain ⟨opq, commands, data₁, hconnect, hopen, halike₁⟩ :=
    hcode.servConnect name channel data m.data halike
  have hjoined : Joined (.alloc m.next channel (some (name, opq))) m
      (clientNew { m.call (.connect name channel) with data := data₁ } name channel opq).2 :=
    { joined_clientNew (m := { m.call (.connect name channel) with data := data₁ })
        { hgood with } hname hchannel opq with }
  obtain ⟨m₁, framing, hrun, hwrites⟩ := runCommands_open code hjoined.good.toWf
    hjoined.client rfl rfl hopen
  have hjoined₁ := (hjoined.setClient (Int.ne_of_gt hchannel.1)
    (changes_framing _ framing)).writes hwrites
  refine ⟨m₁, opq, framing, ?_, ?_, hjoined₁⟩
  · have hdata : (m.call (.connect name channel)).data = m.data := rfl
    rw [connectClient]
    dsimp only
    rw [hdata, hconnect]
    exact congrArg (Option.bind · fun m₁ => some (some m.next, m₁)) hrun
  · obtain ⟨bytes, rfl⟩ := hwrites
    exact halike₁

theorem changes_restored (id : Nat) {name : CString} {opq : ω} (hs : c.service = some (name, opq))
    (hsound : c.Sound) (hsized : c.Sized) (opq' opq₁ : ω) (framing : Bool) :
    Changes { QemudClient.alloc id c.channel (some (name, opq')) with framing }
      (restored id opq₁ c) := by
  have hbuff : (c.buff.takeD c.payload.size 0 ++ [0]).length = c.payload.size + 1 := by
    rw [List.length_append, List.takeD_length]
    rfl
  rw [restored, hs]
  dsimp only
  split
  · refine ⟨rfl, rfl, rfl, fun _ => ?_, fun _ => hsized⟩
    exact ⟨rfl, Nat.zero_le _, hsound.header0, fun _ => rfl, hsound.payloadUsed, fun _ => hbuff⟩
  · exact ⟨rfl, rfl, rfl, fun hs => { hs with }, fun hs => hs⟩

theorem clientRestore_of {b : QemudClient ω} {name : CString} {opq' opq₁ : ω} {data : δ}
    {f f' rest : List UInt8} (hb : m.client id = some b) (hs : b.service = some (name, opq'))
    (hload : code.clieLoad name f opq' m.data = (0, opq₁, data, f'))
    (hframing : framingLoad f' { b with service := some (name, opq₁) } = .ok (rest, c)) :
    (m.clientRestore code id f).run = some (.ok (rest, { m with data }.setClient c)) := by
  have hlift : (ExceptT.lift (some b) : ExceptT Int Option (QemudClient ω)) = pure b := rfl
  rw [clientRestore, hb, hlift, pure_bind]
  simp only [hs, hload]
  rw [if_neg (not_not.mpr rfl), hframing]
  rfl

theorem clientLoad_of (hcode : Restores code names agree alike) {data : δ}
    (halike : alike names data m.data) (hgood : m.Good) {name : CString}
    (hs : c.service = some (name, opq)) (hname : IsName name)
    (hmem : name ∈ m.services.map fun sv => sv.name) (hchannel : 0 < c.channel ∧ c.channel < 256)
    (hsound : c.Sound) (hsized : c.Sized) (rest : List UInt8) :
    ∃ m₁ opq₁, (m.clientLoad code (clientSave code data c ++ rest)).run = some (.ok (rest, m₁)) ∧
      agree opq opq₁ ∧ alike names data m₁.data ∧ Joined (restored m.next opq₁ c) m m₁ := by
  obtain ⟨m₁, opq', framing, hconnect, halike₁, hjoined⟩ :=
    connectClient_joins hcode halike hgood hmem hchannel
  obtain ⟨opq₁, data₂, hload, hagree, halike₂⟩ := hcode.clieLoad name opq opq' data m₁.data
    (framingSave c ++ rest) halike₁
  have hframing := framingLoad_of m.next hsound hsized opq₁ framing rest
  rw [hs] at hframing
  have hchanges := changes_restored m.next hs hsound hsized opq' opq₁ framing
  refine ⟨{ m₁ with data := data₂ }.setClient (restored m.next opq₁ c), opq₁, ?_, hagree, halike₂,
    (hjoined.setData data₂).setClient (Int.ne_of_gt hchannel.1) hchanges⟩
  have hfind : (m.findService name).isSome := Keyed.isSome_find_iff.mpr hmem
  obtain ⟨sv, hfind⟩ := Option.isSome_iff_exists.mp hfind
  have hfits : FitsInt c.channel := by
    constructor <;> omega
  have hlift : (ExceptT.lift (some (some m.next, m₁)) :
      ExceptT Int Option (Option Nat × QemudMultiplexer ω δ)) = pure (some m.next, m₁) := rfl
  have hrestore := clientRestore_of hjoined.client rfl hload hframing
  rw [clientLoad, clientSave, hs]
  simp only [List.append_assoc, loadName_saveName hname, Option.elim_some, pure_bind, hfind,
    getBe32_putBe32 hfits, if_neg (Int.ne_of_gt hchannel.1), hconnect, hlift]
  exact hrestore

end Connecting

section Clients

variable {ρ : Nat → Nat}

def RestoredAs (ρ : Nat → Nat) (agree : ω → ω → Prop) (c c' : QemudClient ω) : Prop :=
  ∃ name opq opq', c.service = some (name, opq) ∧ agree opq opq' ∧ c' = restored (ρ c.id) opq' c

/-- All clients of a list have joined, under new addresses. -/
structure Reloaded (ρ : Nat → Nat) (agree : ω → ω → Prop) (l : List (QemudClient ω))
    (m m₁ : QemudMultiplexer ω δ) : Prop where
  good : m₁.Good
  serial : m₁.serial = { m.serial with cs := m₁.serial.cs }
  next : m₁.next = m.next + l.length
  clients : ∃ l', List.Forall₂ (RestoredAs ρ agree) l l' ∧ m₁.clients = l'.reverse ++ m.clients
  services : m₁.services.map QemudService.face = (m.services.map QemudService.face).map
    fun face => (face.1, face.2.1, face.2.2 + .ofNat (countOf l face.1))

theorem Reloaded.refl (h : m.Good) : Reloaded ρ agree [] m m := by
  constructor
  case good => exact h
  case serial => rfl
  case next => rfl
  case clients => exact ⟨[], .nil, rfl⟩
  case services => simp [countOf]

theorem Joined.reloaded {c c' : QemudClient ω} {l : List (QemudClient ω)}
    {m₁ m₂ : QemudMultiplexer ω δ} (h : Joined c' m m₁) (hc : RestoredAs ρ agree c c')
    (hname : c'.serviceName = c.serviceName) (h' : Reloaded ρ agree l m₁ m₂) :
    Reloaded ρ agree (c :: l) m m₂ := by
  obtain ⟨l', hl', hclients⟩ := h'.clients
  constructor
  case good => exact h'.good
  case serial => rw [h'.serial, h.serial]
  case next => rw [h'.next, h.next, List.length_cons, Nat.add_assoc, Nat.add_comm 1]
  case clients =>
    refine ⟨c' :: l', .cons hc hl', ?_⟩
    rw [hclients, h.clients, List.reverse_cons, List.append_assoc]
    rfl
  case services =>
    rw [h'.services, h.services, List.map_map, hname]
    refine List.map_congr_left fun face _ => ?_
    by_cases heq : c.serviceName = some face.1
    · simp [countOf, heq, Int32.add_assoc, Int32.add_comm 1]
    · simp [countOf, heq]

theorem serviceName_restored (id : Nat) (opq : ω) (c : QemudClient ω) :
    (restored id opq c).serviceName = c.serviceName := by
  rw [restored]
  split
  · exact Option.map_map ..
  · exact Option.map_map ..

/-- A client that can be written: it has a service with a name. -/
structure Storable (services : List QemudService) (c : QemudClient ω) : Prop where
  channel : 0 < c.channel ∧ c.channel < 256
  sound : c.Sound
  sized : c.Sized
  service : ∃ name opq, c.service = some (name, opq) ∧ IsName name ∧
    name ∈ services.map fun sv => sv.name

theorem Storable.congr {services services' : List QemudService} {c : QemudClient ω}
    (h : Storable services c) (hnames : (services'.map fun sv => sv.name) =
      services.map fun sv => sv.name) : Storable services' c := by
  obtain ⟨name, opq, hs, hname, hmem⟩ := h.service
  exact { h with service := ⟨name, opq, hs, hname, hnames ▸ hmem⟩ }

theorem Joined.serviceNames {c : QemudClient ω} {m₁ : QemudMultiplexer ω δ} (h : Joined c m m₁) :
    (m₁.services.map fun sv => sv.name) = m.services.map fun sv => sv.name := by
  have hfst := congrArg (List.map Prod.fst) h.services
  rw [List.map_map, List.map_map, List.map_map] at hfst
  refine hfst.trans (List.map_congr_left fun sv _ => ?_)
  dsimp only [Function.comp_apply]
  split
  · rfl
  · rfl

theorem loadClients_of (hcode : Restores code names agree alike) {data : δ}
    {l : List (QemudClient ω)} (halike : alike names data m.data) (hgood : m.Good)
    (hl : ∀ c ∈ l, Storable m.services c)
    (hρ : (l.map fun c => ρ c.id) = List.range' m.next l.length) (rest : List UInt8) :
    ∃ m₁, (loadClients code l.length (l.flatMap (clientSave code data) ++ rest) m).run =
        some (.ok (rest, m₁)) ∧
      alike names data m₁.data ∧ Reloaded ρ agree l m m₁ := by
  induction l generalizing m with
  | nil => exact ⟨m, rfl, halike, .refl hgood⟩
  | cons c l ih =>
    obtain ⟨hc, hl⟩ := List.forall_mem_cons.mp hl
    obtain ⟨name, opq, hs, hname, hmem⟩ := hc.service
    rw [List.length_cons, List.range'_succ, List.map_cons, List.cons.injEq] at hρ
    obtain ⟨m₁, opq₁, hload, hagree, halike₁, hjoined⟩ := clientLoad_of hcode halike hgood hs
      hname hmem hc.channel hc.sound hc.sized (l.flatMap (clientSave code data) ++ rest)
    obtain ⟨m₂, hloop, halike₂, hreloaded⟩ := ih halike₁ hjoined.good
      (fun b hb => (hl b hb).congr hjoined.serviceNames) (hjoined.next ▸ hρ.2)
    refine ⟨m₂, ?_, halike₂, hjoined.reloaded ⟨name, opq, opq₁, hs, hagree, ?_⟩
      (serviceName_restored ..) hreloaded⟩
    · rw [List.flatMap_cons, List.append_assoc, List.length_cons, loadClients,
        ExceptT.run_bind, hload]
      exact hloop
    · rw [hρ.1]

end Clients

end QemudMultiplexer

end M2M.Qemud
