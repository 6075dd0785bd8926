import M2M.Qemud.Twins

/-! What two multiplexers that cannot be told apart do with the same input. -/

open M2M.Lib

namespace M2M.Qemud.QemudMultiplexer

variable {ω δ : Type} {ρ : Nat → Nat} {used : Nat → Prop} {agree : ω → ω → Prop}
  {alike : δ → δ → Prop} {before before' : List Call} {m m' : QemudMultiplexer ω δ}
  {code : ServiceCode ω δ} {c c₁ c' c₁' : QemudClient ω} {id : Nat} {name : CString}
  {channel : Int} {msg : List UInt8} {opq : ω}

section Serial

theorem Sim.setSerial (h : Sim ρ used agree alike before before' m m') (q q' : QemudSerial)
    (hq : q' = { q with cs := q'.cs }) :
    Sim ρ used agree alike before before' { m with serial := q } { m' with serial := q' } :=
  { h with good := { h.good with }, good' := { h.good' with }, serial := hq }

theorem Sim.version (h : Sim ρ used agree alike before before' m m') :
    m'.serial.version = m.serial.version := by
  rw [h.serial]

end Serial

section Clients

theorem channel_of_parseControl_disconnect (h : parseControl msg = .disconnect channel) :
    channel ≠ 0 := by
  rw [parseControl] at h
  split at h
  · split at h
    · cases h
    · split at h
      · cases h
      · cases h
  · split at h
    · split at h
      · cases h
      · next hpos =>
        cases h
        exact Int.ne_of_gt (Int.not_le.mp hpos)
    · split at h
      · split at h
        · cases h
        · split at h
          · cases h
          · cases h
      · cases h

theorem changes_service (hs : c.service = some (name, opq)) (opq₁ : ω) :
    Changes c { c with service := some (name, opq₁) } := by
  refine ⟨rfl, ?_, rfl, fun hs => { hs with }, fun hs => hs⟩
  rw [QemudClient.serviceName, QemudClient.serviceName, hs]
  rfl

theorem Good.channel_ne_of_service (h : m.Good) (hc : c ∈ m.clients)
    (hs : c.service = some (name, opq)) : c.channel ≠ 0 := by
  have hplaced := h.placed c hc
  rw [QemudClient.Placed, hs] at hplaced
  exact Int.ne_of_gt hplaced.1

end Clients

section Commands

variable (h : Sim ρ used agree alike before before' m m')

include h

theorem Sim.clientSend (hid : used id) (msg : List UInt8) :
    Option.Rel (Sim ρ used agree alike before before') (m.clientSend msg id)
      (m'.clientSend msg (ρ id)) := by
  refine h.with_client hid fun c c' _ _ htwin => ?_
  exact .some (h.writes (writes_serialSend ..) (writes_serialSend ..))

theorem Sim.setFraming (hid : used id) (hne : id ≠ 0) (framing : Bool) :
    Option.Rel (Sim ρ used agree alike before before') (m.setFraming framing id)
      (m'.setFraming framing (ρ id)) := by
  have hchanges : ∀ c : QemudClient ω,
      Changes c { c with framing, needHeader := c.needHeader || c.framing } := by
    intro c
    have hneed : (c.needHeader || c.framing) = false → c.needHeader = false :=
      fun h => (Bool.or_eq_false_iff.mp h).1
    refine ⟨rfl, rfl, rfl, fun hs => ?_, fun hs => hs⟩
    exact ⟨hs.headerSize, hs.headerUsed, hs.header0, fun h => hs.headerEmpty (hneed h),
      fun h => hs.payloadUsed (hneed h), fun h => hs.buff (hneed h)⟩
  refine h.with_client hid fun c c' hc hc' htwin => .some ?_
  refine h.setClient hc hc' (h.good.channel_ne hc hne) (hchanges c) (hchanges c') ?_
  have hneed : (c.needHeader || c.framing) = false → c.needHeader = false :=
    fun h => (Bool.or_eq_false_iff.mp h).1
  exact { htwin with
    framing := rfl
    needHeader := by
      dsimp only
      rw [htwin.needHeader, htwin.framing]
    payload := fun h => htwin.payload (hneed h)
    buff := fun h => htwin.buff (hneed h) }

theorem Sim.broadcast (hid : used id) (msg : List UInt8) :
    Option.Rel (Sim ρ used agree alike before before') (m.broadcast msg id)
      (m'.broadcast msg (ρ id)) := by
  refine h.with_client hid fun c c' hc hc' htwin => ?_
  rcases Option.eq_none_or_eq_some c.service with hs | ⟨⟨name, opq⟩, hs⟩
  · rw [hs, htwin.service_none hs]
    exact .none
  · obtain ⟨opq', hs', -⟩ := htwin.service_some hs
    obtain ⟨m₁, hm₁, hwrites⟩ := broadcast_writes h.good.toWf hc hs msg
    obtain ⟨m₁', hm₁', hwrites'⟩ := broadcast_writes h.good'.toWf hc' hs' msg
    rw [QemudMultiplexer.broadcast, hc] at hm₁
    rw [QemudMultiplexer.broadcast, hc'] at hm₁'
    exact rel_of_eq_some hm₁ hm₁' (h.writes hwrites hwrites')

variable (hcode : Respects code agree alike)

include hcode

theorem Sim.runCommand (hid : used id) (hne : id ≠ 0) (command : Command) :
    Option.Rel (Sim ρ used agree alike before before') (m.runCommand code id command)
      (m'.runCommand code (ρ id) command) := by
  cases command with
  | send msg => exact h.clientSend hid msg
  | setFraming framing => exact h.setFraming hid hne framing
  | broadcast msg => exact h.broadcast hid msg
  | close =>
    refine h.with_client hid fun c c' hc hc' htwin => .some ?_
    exact h.disconnect hcode (Keyed.mem_of_find hc) (Keyed.mem_of_find hc') htwin
      (h.good.channel_ne hc hne) rfl rfl rfl rfl

theorem Sim.runCommands (hid : used id) (hne : id ≠ 0) {commands commands' : List Command}
    (heq : commands = commands') :
    Option.Rel (Sim ρ used agree alike before before') (m.runCommands code id commands)
      (m'.runCommands code (ρ id) commands') := by
  subst heq
  exact rel_foldlM (fun _ _ command h => h.runCommand hcode hid hne command) h commands

theorem Sim.connectClient (hname : name ∈ m.services.map fun sv => sv.name)
    (hchannel : 0 < channel ∧ channel < 256) :
    Option.Rel (fun p q => q.1 = p.1.map ρ ∧ Sim ρ used agree alike before before' p.2 q.2)
      (m.connectClient code name channel) (m'.connectClient code name channel) := by
  obtain ⟨hrel, hdata⟩ := hcode.connect name channel m.data m'.data h.data
  have hcalled := h.data_call hdata (.connect name channel)
  rw [QemudMultiplexer.connectClient, QemudMultiplexer.connectClient]
  dsimp only [QemudMultiplexer.call] at hcalled ⊢
  generalize code.servConnect name channel m.data = r,
    code.servConnect name channel m'.data = r' at hrel hcalled
  obtain ⟨r, data⟩ := r
  obtain ⟨r', data'⟩ := r'
  dsimp only at hrel hcalled ⊢
  cases hrel with
  | none => exact .some ⟨rfl, hcalled⟩
  | @some p p' hp =>
    obtain ⟨opq, commands⟩ := p
    obtain ⟨opq', commands'⟩ := p'
    obtain ⟨hopq, rfl⟩ := hp
    have hnew := hcalled.clientNew hname hchannel hopq
    have hid : used m.next ∧ ρ m.next = m'.next := h.next 0
    have hrun := hnew.runCommands hcode hid.1 h.good.next_ne (Eq.refl commands)
    rw [hid.2] at hrun
    refine rel_bind hrun fun m₁ m₁' h₁ => .some ⟨?_, h₁⟩
    exact congrArg some hid.2.symm

theorem Sim.connect (hchannel : 0 < channel ∧ channel < 256) (name : CString) :
    Option.Rel (fun p q => q.1 = p.1 ∧ Sim ρ used agree alike before before' p.2 q.2)
      (m.connect code name channel) (m'.connect code name channel) := by
  have hrel := h.findService name
  rw [QemudMultiplexer.connect, QemudMultiplexer.connect]
  cases hfind : m.findService name with
  | none =>
    rw [hfind] at hrel
    generalize m'.findService name = r at hrel
    cases hrel
    exact .some ⟨rfl, h⟩
  | some sv =>
    have hname : name ∈ m.services.map fun sv => sv.name :=
      List.mem_map.mpr ⟨sv, Keyed.mem_of_find hfind, Keyed.key_of_find hfind⟩
    have hclient := h.connectClient hcode hname hchannel
    rw [hfind] at hrel
    generalize m'.findService name = r at hrel
    cases hrel with
    | @some _ sv' hface =>
      rw [QemudService.face, QemudService.face, Prod.mk.injEq, Prod.mk.injEq] at hface
      obtain ⟨-, hmax, hnum⟩ := hface
      dsimp only
      rw [← hmax, ← hnum]
      split
      · exact .some ⟨rfl, h⟩
      · refine rel_bind hclient fun p q hpq => .some ⟨?_, hpq.2⟩
        rw [hpq.1, Option.isNone_map]

theorem Sim.disconnectChannel (hchannel : channel ≠ 0) :
    Sim ρ used agree alike before before' (m.disconnectChannel code channel)
      (m'.disconnectChannel code channel) := by
  have hrel := h.onChannel channel
  rw [QemudMultiplexer.disconnectChannel, QemudMultiplexer.disconnectChannel]
  generalize hc : m.onChannel channel = r, hc' : m'.onChannel channel = r' at hrel
  cases hrel with
  | none => exact h
  | some htwin =>
    exact h.disconnect hcode (List.mem_of_find?_eq_some hc) (List.mem_of_find?_eq_some hc') htwin
      (channel_onChannel hc ▸ hchannel) rfl rfl rfl rfl

theorem Sim.controlRecv (msg : List UInt8) :
    Option.Rel (Sim ρ used agree alike before before') (m.controlRecv code msg)
      (m'.controlRecv code msg) := by
  have hversion := h.version
  rw [QemudMultiplexer.controlRecv, QemudMultiplexer.controlRecv]
  cases hparse : parseControl msg with
  | malformed => exact .some h
  | connect name channel =>
    refine rel_bind (h.connect hcode (channel_of_parseControl (.inl hparse)) name) ?_
    rintro ⟨ret, m₁⟩ ⟨ret', m₁'⟩ ⟨rfl, h₁⟩
    exact .some (h₁.writes (writes_serialSend ..) (writes_serialSend ..))
  | disconnect channel =>
    exact .some (h.disconnectChannel hcode (channel_of_parseControl_disconnect hparse))
  | legacyConnect name channel =>
    dsimp only
    rw [hversion]
    split
    · exact .some h
    · have hlegacy := h.setSerial { m.serial with version := .legacy }
        { m'.serial with version := .legacy } (by rw [h.serial])
      refine rel_bind (hlegacy.connect hcode (channel_of_parseControl (.inr hparse)) _) ?_
      rintro ⟨ret, m₁⟩ ⟨ret', m₁'⟩ ⟨rfl, h₁⟩
      exact .some h₁
  | unknown =>
    dsimp only
    rw [hversion]
    split
    · exact .some h
    · exact .some (h.writes (writes_serialSend ..) (writes_serialSend ..))

theorem Sim.callRecv (hid : used id) (msg : List UInt8) :
    Option.Rel (Sim ρ used agree alike before before') (m.callRecv code id msg)
      (m'.callRecv code (ρ id) msg) := by
  refine h.with_client hid fun c c' hc hc' htwin => ?_
  dsimp only
  rcases Option.eq_none_or_eq_some c.service with hs | ⟨⟨name, opq⟩, hs⟩
  · rw [hs, htwin.service_none hs]
    have hcalled := h.data_call h.data (.recv id msg)
    exact hcalled.controlRecv hcode msg
  · obtain ⟨opq', hs', hopq⟩ := htwin.service_some hs
    rw [hs, hs']
    obtain ⟨hopq₁, hdata, hcommands⟩ := hcode.recv name msg opq opq' m.data m'.data hopq h.data
    have hcalled := h.data_call hdata (.recv id msg)
    have hchannel := h.good.channel_ne_of_service (Keyed.mem_of_find hc) hs
    have htwin₁ : Twin ρ agree
        { c with service := some (name, (code.clieRecv name msg opq m.data).1) }
        { c' with service := some (name, (code.clieRecv name msg opq' m'.data).1) } :=
      { htwin with service := .some ⟨rfl, hopq₁⟩ }
    have hset := hcalled.setClient hc hc' hchannel (changes_service hs _) (changes_service hs' _)
      htwin₁
    have hne : id ≠ 0 := Keyed.key_of_find hc ▸ h.good.id_ne (Keyed.mem_of_find hc) hchannel
    exact hset.runCommands hcode hid hne hcommands

end Commands

section Frames

variable (h : Sim ρ used agree alike before before' m m') (hcode : Respects code agree alike)

theorem take_writeAt_congr {buff buff' p : List UInt8} {i : Nat} (h : buff'.take i = buff.take i)
    (hi : i ≤ buff.length) (hi' : i ≤ buff'.length) :
    (writeAt buff' i p).take (i + p.length) = (writeAt buff i p).take (i + p.length) := by
  have htake : ∀ {b : List UInt8}, i ≤ b.length →
      (writeAt b i p).take (i + p.length) = b.take i ++ p := by
    intro b hb
    rw [writeAt, List.take_left']
    rw [List.length_append, List.length_take, Nat.min_eq_left hb]
  rw [htake hi, htake hi', h]

/-- A sink of a twin is filled alike. -/
structure FillsAlike (n : Nat) (f f' : Fill) : Prop where
  full : f'.full = f.full
  sink : f'.sink = f.sink
  rest : f'.rest = f.rest
  buff : f'.buff.take n = f.buff.take n

theorem fillHeader_alike {ss : QemudSink} {buff buff' : List UInt8} (msg : List UInt8)
    (h : buff'.take ss.used = buff.take ss.used) (hle : ss.used ≤ ss.size)
    (hlen : buff.length = ss.size) (hlen' : buff'.length = ss.size) :
    FillsAlike (sinkFill ss buff msg).sink.used (sinkFill ss buff msg)
      (sinkFill ss buff' msg) := by
  rcases Nat.lt_or_eq_of_le hle with hlt | heq
  · rw [sinkFill_eq hlt, sinkFill_eq hlt]
    exact ⟨rfl, rfl, rfl, take_writeAt_congr h (hlen ▸ hle) (hlen' ▸ hle)⟩
  · have hneeded : ss.needed = 0 := Nat.sub_eq_zero_of_le heq.ge
    rw [sinkFill, sinkFill, if_pos hneeded, if_pos hneeded]
    exact ⟨rfl, rfl, rfl, h⟩

theorem writeAt_take {buff p : List UInt8} {i n : Nat} (h : i + p.length ≤ n)
    (hn : n ≤ buff.length) : (writeAt buff i p).take n = writeAt (buff.take n) i p := by
  have hfront : (buff.take i ++ p).length = i + p.length := by
    rw [List.length_append, List.length_take, Nat.min_eq_left (by omega)]
  rw [writeAt, List.take_append, hfront, List.take_of_length_le (hfront ▸ h), writeAt,
    List.take_take, Nat.min_eq_left (Nat.le_of_add_right_le h), List.drop_take]

theorem fillPayload_alike {ss : QemudSink} {buff buff' : List UInt8} (msg : List UInt8)
    (h : buff'.take ss.size = buff.take ss.size) (hlt : ss.used < ss.size)
    (hlen : ss.size ≤ buff.length) (hlen' : ss.size ≤ buff'.length) :
    FillsAlike ss.size (sinkFill ss buff msg) (sinkFill ss buff' msg) := by
  have hle : ss.used + (msg.take ss.needed).length ≤ ss.size := by
    rcases length_take_needed ss msg hlt with hlast | ⟨hmore, -, -⟩
    · exact hlast.le
    · exact hmore.le
  rw [sinkFill_eq hlt, sinkFill_eq hlt]
  refine ⟨rfl, rfl, rfl, ?_⟩
  dsimp only
  rw [writeAt_take hle hlen, writeAt_take hle hlen', h]

/-- What a payload sink and its buffer are after a fill. -/
structure Filled (ss : QemudSink) (f : Fill) : Prop where
  size : f.sink.size = ss.size
  used : f.sink.used ≤ ss.size
  more : f.full = false → f.sink.used < ss.size
  buff : f.buff.length = ss.size + 1

theorem filled_payload {ss : QemudSink} {buff : List UInt8} (hlt : ss.used < ss.size)
    (hlen : buff.length = ss.size + 1) (msg : List UInt8) : Filled ss (sinkFill ss buff msg) := by
  have hle : ss.used + (msg.take ss.needed).length ≤ ss.size := by
    rcases length_take_needed ss msg hlt with hlast | ⟨hmore, -, -⟩
    · exact hlast.le
    · exact hmore.le
  rw [sinkFill_eq hlt]
  refine ⟨rfl, hle, fun hfull => Nat.lt_of_le_of_ne hle (of_decide_eq_false hfull), ?_⟩
  rw [← hlen]
  exact length_writeAt (hlen ▸ Nat.le_succ_of_le hle)

theorem Changes.readFrame {c c₁ : QemudClient ω} {f : Fill} (h : Changes c c₁) (hs : c₁.Sound)
    (hsized : c₁.Sized) (hf : Filled c₁.payload f) (hneed : c₁.needHeader = false)
    (needHeader : Bool) (hmore : needHeader = false → f.full = false) :
    Changes c { c₁ with payload := f.sink, buff := f.buff, needHeader } where
  id := h.id
  serviceName := h.serviceName
  channel := h.channel
  sound := fun _ =>
    { headerSize := hs.headerSize
      headerUsed := hs.headerUsed
      header0 := hs.header0
      headerEmpty := fun _ => hs.headerEmpty hneed
      payloadUsed := fun hmid => hf.size ▸ hf.more (hmore hmid)
      buff := fun _ => hf.size ▸ hf.buff }
  sized := fun _ => ⟨hf.size ▸ hf.used, hf.size ▸ hsized.2⟩

theorem changes_fillHeader (hs : c.Sound) (hneed : c.needHeader) (msg : List UInt8) :
    Changes c { c with
      header := (sinkFill c.header c.header0 msg).sink
      header0 := (sinkFill c.header c.header0 msg).buff } :=
  ⟨rfl, rfl, rfl, fun _ => sound_fillHeader hneed hs msg, fun hsized => hsized⟩

theorem used_of_full {ss : QemudSink} (hle : ss.used ≤ ss.size) (buff msg : List UInt8)
    (h : (sinkFill ss buff msg).full) : (sinkFill ss buff msg).sink.used = ss.size := by
  rcases Nat.lt_or_eq_of_le hle with hlt | heq
  · rw [sinkFill_eq hlt] at h ⊢
    exact of_decide_eq_true h
  · have hneeded : ss.needed = 0 := Nat.sub_eq_zero_of_le heq.ge
    rw [sinkFill, if_pos hneeded]
    exact heq

/-- A client that begins to read a frame. -/
def beginFrame (c : QemudClient ω) (f : Fill) : QemudClient ω :=
  { c with
    payload := ⟨0, (hex2int (f.buff.take frameHeaderSize)).toNat⟩
    buff := List.replicate ((hex2int (f.buff.take frameHeaderSize)).toNat + 1) 0
    needHeader := false
    header := { f.sink with used := 0 }
    header0 := f.buff }

theorem changes_beginFrame (hs : c.Sound) (hneed : c.needHeader) (msg : List UInt8)
    (hpos : ¬hex2int ((sinkFill c.header c.header0 msg).buff.take frameHeaderSize) ≤ 0) :
    Changes c (beginFrame c (sinkFill c.header c.header0 msg)) := by
  have hfill := sound_fillHeader hneed hs msg
  refine ⟨rfl, rfl, rfl, fun _ => ?_, fun _ => ⟨Nat.zero_le _, ?_⟩⟩
  · exact ⟨hfill.headerSize, Nat.zero_le _, hfill.header0, fun _ => rfl,
      fun _ => Int.lt_toNat.mpr (Int.not_le.mp hpos), fun _ => List.length_replicate ..⟩
  · have hlt := hex2int_lt ((sinkFill c.header c.header0 msg).buff.take frameHeaderSize)
    have hlen : ((sinkFill c.header c.header0 msg).buff.take frameHeaderSize).length = 4 := by
      rw [List.length_take, hfill.header0]
      rfl
    rw [hlen] at hlt
    have hnat : (hex2int ((sinkFill c.header c.header0 msg).buff.take frameHeaderSize)).toNat <
        16 ^ 4 := by
      omega
    exact hnat

include h hcode

theorem Sim.readFrame (hc : m.client id = some c) (hc' : m'.client (ρ id) = some c')
    (hchannel : c.channel ≠ 0) (hchanges : Changes c c₁) (hchanges' : Changes c' c₁')
    (hneed : c₁.needHeader = false) (htwin : Twin ρ agree c₁ c₁') (msg : List UInt8) :
    Option.Rel (fun p q => Sim ρ used agree alike before before' p.1 q.1 ∧ p.2 = q.2)
      (m.readFrame code c₁ msg) (m'.readFrame code c₁' msg) := by
  have hmem := Keyed.mem_of_find hc
  have hmem' := Keyed.mem_of_find hc'
  have hsound := hchanges.sound (h.good.sound c hmem)
  have hsound' := hchanges'.sound (h.good'.sound c' hmem')
  have hneed' : c₁'.needHeader = false := htwin.needHeader.trans hneed
  have hpayload := htwin.payload hneed
  have hlen' : c₁'.buff.length = c₁.payload.size + 1 := hpayload ▸ hsound'.buff hneed'
  have hfilled := filled_payload (hsound.payloadUsed hneed) (hsound.buff hneed) msg
  have hfilled' : Filled c₁'.payload (sinkFill c₁.payload c₁'.buff msg) :=
    hpayload ▸ filled_payload (hsound.payloadUsed hneed) hlen' msg
  have hchange := hchanges.readFrame hsound (hchanges.sized (h.good.sized c hmem)) hfilled hneed
  have hchange' := hchanges'.readFrame hsound' (hchanges'.sized (h.good'.sized c' hmem')) hfilled'
    hneed'
  have hfill := fillPayload_alike msg (htwin.buff hneed) (hsound.payloadUsed hneed)
    (hsound.buff hneed ▸ Nat.le_succ _) (hlen' ▸ Nat.le_succ _)
  rw [QemudMultiplexer.readFrame, QemudMultiplexer.readFrame, hpayload]
  generalize sinkFill c₁.payload c₁.buff msg = f, sinkFill c₁.payload c₁'.buff msg = f' at *
  have htwins : ∀ needHeader, Twin ρ agree
      { c₁ with payload := f.sink, buff := f.buff, needHeader }
      { c₁' with payload := f'.sink, buff := f'.buff, needHeader } := by
    intro needHeader
    exact { htwin with
      needHeader := rfl
      payload := fun _ => hfill.sink
      buff := fun _ => by
        dsimp only
        rw [hfilled.size]
        exact hfill.buff }
  have htext : f'.buff.take f'.sink.size = f.buff.take f.sink.size := by
    rw [hfill.sink, hfilled.size]
    exact hfill.buff
  have hused : used c₁.id := hchanges.id ▸ h.known c hmem
  dsimp only
  rw [hfill.full, hfill.rest, htext]
  split
  · next hfull =>
    have hset :=
      h.setClient hc hc' hchannel (hchange true Bool.noConfusion) (hchange' true Bool.noConfusion)
      (htwins true)
    have hcall := hset.callRecv hcode hused (f.buff.take f.sink.size)
    rw [← htwin.id] at hcall
    exact rel_bind hcall fun m₁ m₁' h₁ => .some ⟨h₁, rfl⟩
  · next hmore =>
    have hmore : f.full = false := (Bool.not_eq_true _).mp hmore
    have hset := h.setClient hc hc' hchannel (hchange false fun _ => hmore)
      (hchange' false fun _ => hfill.full.trans hmore) (htwins false)
    rw [hneed, hneed']
    exact .some ⟨hset, rfl⟩

theorem Sim.frameRound (hid : used id) (hne : id ≠ 0) (msg : List UInt8) :
    Option.Rel (fun p q => Sim ρ used agree alike before before' p.1 q.1 ∧ p.2 = q.2)
      (m.frameRound code id msg) (m'.frameRound code (ρ id) msg) := by
  refine h.with_client hid fun c c' hc hc' htwin => ?_
  have hchannel := h.good.channel_ne hc hne
  have hsound := h.good.sound c (Keyed.mem_of_find hc)
  have hsound' := h.good'.sound c' (Keyed.mem_of_find hc')
  rw [htwin.needHeader]
  split
  · next hneed =>
    have hfill := fillHeader_alike msg htwin.header0 (hsound.headerSize ▸ hsound.headerUsed)
      (hsound.header0.trans hsound.headerSize.symm) (hsound'.header0.trans hsound.headerSize.symm)
    have hneed' : c'.needHeader := htwin.needHeader.trans hneed
    have hset := h.setClient hc hc' hchannel (changes_fillHeader hsound hneed msg)
      (changes_fillHeader hsound' hneed' msg)
    have hused : c.header.used ≤ c.header.size := hsound.headerSize ▸ hsound.headerUsed
    have hfull := used_of_full hused c.header0 msg
    have hframe := changes_beginFrame hsound hneed msg
    have hframe' := changes_beginFrame hsound' hneed' msg
    rw [htwin.header] at hset hframe' ⊢
    rw [hsound.headerSize] at hfull
    generalize sinkFill c.header c.header0 msg = f, sinkFill c.header c'.header0 msg = f' at *
    have htwin₁ : Twin ρ agree { c with header := f.sink, header0 := f.buff }
        { c' with header := f'.sink, header0 := f'.buff } :=
      { htwin with
        header := hfill.sink
        header0 := hfill.buff
        payload := fun hmid => (nomatch hneed.symm.trans hmid)
        buff := fun hmid => (nomatch hneed.symm.trans hmid) }
    have hset := hset htwin₁
    rw [htwin.needHeader] at hset
    dsimp only
    rw [hfill.full, hfill.rest]
    split
    · next hf =>
      have htext : f'.buff.take frameHeaderSize = f.buff.take frameHeaderSize :=
        hfull hf ▸ hfill.buff
      rw [htext] at hframe' ⊢
      split
      · exact .some ⟨hset, rfl⟩
      · next hpos =>
        have htwin₂ : Twin ρ agree (beginFrame c f) (beginFrame c' f') :=
          { htwin with
            needHeader := rfl
            header := by rw [beginFrame, beginFrame, hfill.sink]
            header0 := rfl
            payload := fun _ => by rw [beginFrame, beginFrame, htext]
            buff := fun _ => by rw [beginFrame, beginFrame, htext] }
        have hread := h.readFrame hcode hc hc' hchannel (hframe hpos) (hframe' hpos) rfl htwin₂
          f.rest
        rw [beginFrame, beginFrame, htext] at hread
        exact hread
    · exact .some ⟨hset, rfl⟩
  · next hneed =>
    have hneed : c.needHeader = false := (Bool.not_eq_true _).mp hneed
    exact h.readFrame hcode hc hc' hchannel (.refl c) (.refl c') hneed htwin msg

theorem Sim.clientRecv (hid : used id) (msg : List UInt8) :
    Option.Rel (Sim ρ used agree alike before before') (m.clientRecv code id msg)
      (m'.clientRecv code (ρ id) msg) := by
  refine h.with_client hid fun c c' hc _ htwin => ?_
  rw [htwin.framing, htwin.needHeader, htwin.header]
  split
  · exact h.callRecv hcode hid msg
  · next hframing =>
    split
    · exact h.callRecv hcode hid _
    · have hchannel : c.channel ≠ 0 := fun hzero =>
        hframing (h.good.others c (Keyed.mem_of_find hc) hzero ▸ nofun)
      have hne : id ≠ 0 := Keyed.key_of_find hc ▸ h.good.id_ne (Keyed.mem_of_find hc) hchannel
      exact rel_readAll (fun _ _ msg h => h.frameRound hcode hid hne msg) h msg

theorem Sim.serialRecv (channel : Int) (msg : List UInt8) :
    Option.Rel (Sim ρ used agree alike before before') (m.serialRecv code channel msg)
      (m'.serialRecv code channel msg) := by
  have hrel := h.onChannel channel
  rw [QemudMultiplexer.serialRecv, QemudMultiplexer.serialRecv]
  generalize hc : m.onChannel channel = r, m'.onChannel channel = r' at hrel
  cases hrel with
  | none => exact .some h
  | some htwin =>
    dsimp only
    rw [htwin.id]
    exact h.clientRecv hcode (h.known _ (List.mem_of_find?_eq_some hc)) msg

end Frames

section Bytes

variable (h : Sim ρ used agree alike before before' m m') (hcode : Respects code agree alike)

theorem afterHeader_cs (q : QemudSerial) (cs : List UInt8) :
    { q with cs }.afterHeader = { q.afterHeader with cs } := by
  have hparse : { q with cs }.parseHeader = { q.parseHeader with cs } := rfl
  rw [QemudSerial.afterHeader, QemudSerial.afterHeader, hparse]
  dsimp only
  split
  · rfl
  · split
    · rfl
    · rfl

theorem headerByte_cs (q : QemudSerial) (cs : List UInt8) (b : UInt8) :
    { q with cs }.headerByte b = { q.headerByte b with cs } := by
  have hfill : { q with cs }.fillHeader [b] = { q.fillHeader [b] with cs } := rfl
  rw [QemudSerial.headerByte, QemudSerial.headerByte, hfill, afterHeader_cs]
  dsimp only
  split
  · rfl
  · rfl

include h hcode

theorem Sim.deliver {q q' : QemudSerial} (hq : q' = { q with cs := q'.cs }) :
    Option.Rel (Sim ρ used agree alike before before') ((receiver code).deliver q m)
      ((receiver code).deliver q' m') := by
  rw [hq]
  have hset := h.setSerial q.terminated { q.terminated with cs := q'.cs } rfl
  have hrecv := hset.serialRecv hcode q.inChannel (q.terminated.data0.take q.payload.size)
  rw [Receiver.deliver_eq, Receiver.deliver_eq]
  refine rel_map hrecv fun m₁ m₁' h₁ => ?_
  exact h₁.setSerial { m₁.serial with needHeader := true } { m₁'.serial with needHeader := true }
    (by rw [h₁.serial])

theorem Sim.readByte (b : UInt8) :
    Option.Rel (Sim ρ used agree alike before before') ((receiver code).readByte m b)
      ((receiver code).readByte m' b) := by
  have hserial : (receiver code).serial m' =
      { (receiver code).serial m with cs := m'.serial.cs } := h.serial
  rw [Receiver.readByte, Receiver.readByte, hserial]
  dsimp only
  split
  · exact .some h
  · split
    · have hbyte := headerByte_cs ((receiver code).serial m) m'.serial.cs b
      exact .some (h.setSerial _ _ (by rw [hbyte]))
    · split
      · exact h.deliver hcode rfl
      · exact .some (h.setSerial _ _ rfl)

end Bytes

end M2M.Qemud.QemudMultiplexer
