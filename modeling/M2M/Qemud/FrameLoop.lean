import M2M.Qemud.Working

/-! The loop of `qemud_client_recv`: which messages it gets through, without touching a client that
has been closed. -/

open M2M.Lib

namespace M2M.Qemud

variable {ω δ : Type}

section Sinks

/-- What a client reads its frames with. -/
structure FrameSinks where
  needHeader : Bool
  header : QemudSink
  header0 : List UInt8
  payload : QemudSink
  buff : List UInt8
deriving DecidableEq

def QemudClient.sinks (c : QemudClient ω) : FrameSinks :=
  ⟨c.needHeader, c.header, c.header0, c.payload, c.buff⟩

def QemudClient.withSinks (c : QemudClient ω) (s : FrameSinks) : QemudClient ω :=
  { c with
    needHeader := s.needHeader
    header := s.header
    header0 := s.header0
    payload := s.payload
    buff := s.buff }

/-- What a round does with a message, and what it leaves of it. -/
inductive Piece
  | waits (sinks : FrameSinks) (rest : List UInt8)
  /-- The header of an empty or a corrupted frame is complete. -/
  | passes (sinks : FrameSinks) (rest : List UInt8)
  | frame (text : List UInt8) (sinks : FrameSinks) (rest : List UInt8)

def FrameSinks.readPayload (s : FrameSinks) (msg : List UInt8) : Piece :=
  let fill := sinkFill s.payload s.buff msg
  let s := { s with payload := fill.sink, buff := fill.buff }
  if fill.full then
    .frame (s.buff.take s.payload.size) { s with needHeader := true } fill.rest
  else .waits s fill.rest

/-- A round of the loop, up to the call of `clie_recv`. -/
def FrameSinks.read (s : FrameSinks) (msg : List UInt8) : Piece :=
  if s.needHeader then
    let fill := sinkFill s.header s.header0 msg
    let s := { s with header := fill.sink, header0 := fill.buff }
    if fill.full then
      let frameSize := hex2int (s.header0.take frameHeaderSize)
      if frameSize ≤ 0 then .passes s fill.rest
      else
        { s with
          payload := ⟨0, frameSize.toNat⟩
          buff := List.replicate (frameSize.toNat + 1) 0
          needHeader := false
          header := { s.header with used := 0 } }.readPayload fill.rest
    else .waits s fill.rest
  else s.readPayload msg

variable {s s' : FrameSinks} {msg rest text : List UInt8}

theorem readPayload_waits (h : s.payload.used < s.payload.size)
    (hread : s.readPayload msg = .waits s' rest) : rest = [] := by
  rw [FrameSinks.readPayload, sinkFill_eq h] at hread
  dsimp only at hread
  rcases length_take_needed s.payload msg h with hlast | ⟨hmore, -, hrest⟩
  · rw [if_pos (decide_eq_true hlast)] at hread
    cases hread
  · rw [decide_eq_false (Nat.ne_of_lt hmore), if_neg Bool.false_ne_true] at hread
    cases hread
    exact hrest

theorem readPayload_frame (h : s.payload.used < s.payload.size)
    (hread : s.readPayload msg = .frame text s' rest) :
    rest.length < msg.length ∧ s'.needHeader = true ∧ s'.header = s.header ∧
      s'.header0 = s.header0 := by
  rw [FrameSinks.readPayload, sinkFill_eq h] at hread
  dsimp only at hread
  split at hread
  · next hfull =>
    cases hread
    have hlast := of_decide_eq_true hfull
    rw [List.length_take] at hlast
    refine ⟨?_, rfl, rfl, rfl⟩
    rw [List.length_drop]
    have hneeded : s.payload.needed = s.payload.size - s.payload.used := rfl
    omega
  · cases hread

theorem readPayload_passes : s.readPayload msg ≠ .passes s' rest := by
  rw [FrameSinks.readPayload]
  dsimp only
  split
  · nofun
  · nofun

theorem length_sinkFill (ss : QemudSink) (buff msg : List UInt8) :
    (sinkFill ss buff msg).rest.length ≤ msg.length := by
  rw [sinkFill]
  split
  · exact Nat.le_refl _
  · rw [List.length_drop]
    exact Nat.sub_le ..

theorem sinkFill_waits {ss : QemudSink} {buff msg : List UInt8} (hused : ss.used ≤ ss.size)
    (h : (sinkFill ss buff msg).full = false) : (sinkFill ss buff msg).rest = [] := by
  rcases Nat.lt_or_eq_of_le hused with hlt | heq
  · rw [sinkFill_eq hlt] at h ⊢
    rcases length_take_needed ss msg hlt with hlast | ⟨-, -, hrest⟩
    · exact absurd hlast (of_decide_eq_false h)
    · exact hrest
  · have hneeded : ss.needed = 0 := Nat.sub_eq_zero_of_le heq.ge
    rw [sinkFill, if_pos hneeded] at h
    cases h

theorem sinkFill_full {ss : QemudSink} {buff msg : List UInt8} (hused : ss.used ≤ ss.size)
    (h : (sinkFill ss buff msg).full = true) (msg' : List UInt8) :
    sinkFill (sinkFill ss buff msg).sink (sinkFill ss buff msg).buff msg' =
      ⟨true, (sinkFill ss buff msg).sink, (sinkFill ss buff msg).buff, msg'⟩ := by
  have hneeded : (sinkFill ss buff msg).sink.needed = 0 := by
    rcases Nat.lt_or_eq_of_le hused with hlt | heq
    · rw [sinkFill_eq hlt] at h ⊢
      exact Nat.sub_eq_zero_of_le (of_decide_eq_true h).ge
    · have hneeded : ss.needed = 0 := Nat.sub_eq_zero_of_le heq.ge
      rw [sinkFill, if_pos hneeded]
      exact hneeded
  rw [sinkFill, if_pos hneeded]

theorem read_cases (s : FrameSinks) (msg : List UInt8) :
    (s.needHeader = true ∧ (sinkFill s.header s.header0 msg).full = true ∧
      hex2int ((sinkFill s.header s.header0 msg).buff.take frameHeaderSize) ≤ 0 ∧
      s.read msg = .passes
        { s with
          header := (sinkFill s.header s.header0 msg).sink
          header0 := (sinkFill s.header s.header0 msg).buff }
        (sinkFill s.header s.header0 msg).rest) ∨
    (s.needHeader = true ∧ (sinkFill s.header s.header0 msg).full = false ∧
      s.read msg = .waits
        { s with
          header := (sinkFill s.header s.header0 msg).sink
          header0 := (sinkFill s.header s.header0 msg).buff }
        (sinkFill s.header s.header0 msg).rest) ∨
    (s.needHeader = true ∧ ∃ s₁ : FrameSinks, s₁.payload.used < s₁.payload.size ∧
      s₁.header = { (sinkFill s.header s.header0 msg).sink with used := 0 } ∧
      s₁.header0 = (sinkFill s.header s.header0 msg).buff ∧
      s.read msg = s₁.readPayload (sinkFill s.header s.header0 msg).rest) ∨
    (s.needHeader = false ∧ s.read msg = s.readPayload msg) := by
  by_cases hneed : s.needHeader = true
  · by_cases hfull : (sinkFill s.header s.header0 msg).full = true
    · by_cases hsize : hex2int ((sinkFill s.header s.header0 msg).buff.take frameHeaderSize) ≤ 0
      · refine .inl ⟨hneed, hfull, hsize, ?_⟩
        exact ((if_pos hneed).trans (if_pos hfull)).trans (if_pos hsize)
      · refine .inr (.inr (.inl ⟨hneed, _, ?_, (by rfl), (by rfl),
          ((if_pos hneed).trans (if_pos hfull)).trans (if_neg hsize)⟩))
        exact Int.lt_toNat.mpr (Int.not_le.mp hsize)
    · exact .inr (.inl ⟨hneed, (Bool.not_eq_true _).mp hfull, (if_pos hneed).trans (if_neg hfull)⟩)
  · exact .inr (.inr (.inr ⟨(Bool.not_eq_true _).mp hneed, if_neg hneed⟩))

/-- The sinks are not overfull, and a payload that is awaited is not complete. -/
structure FrameSinks.Sound (s : FrameSinks) : Prop where
  header : s.header.used ≤ s.header.size
  payload : s.needHeader = false → s.payload.used < s.payload.size

theorem QemudClient.Sound.sinks {c : QemudClient ω} (h : c.Sound) : c.sinks.Sound :=
  ⟨h.headerSize.symm ▸ h.headerUsed, h.payloadUsed⟩

variable (hs : s.Sound)

include hs

theorem FrameSinks.Sound.read_waits (hread : s.read msg = .waits s' rest) : rest = [] := by
  rcases read_cases s msg with ⟨-, -, -, h⟩ | ⟨-, hfull, h⟩ | ⟨-, s₁, hlt, -, -, h⟩ | ⟨hneed, h⟩
  · cases h.symm.trans hread
  · cases h.symm.trans hread
    exact sinkFill_waits hs.header hfull
  · exact readPayload_waits hlt (h.symm.trans hread)
  · exact readPayload_waits (hs.payload hneed) (h.symm.trans hread)

theorem FrameSinks.Sound.read_frame (hread : s.read msg = .frame text s' rest) :
    rest.length < msg.length ∧ s'.needHeader = true := by
  rcases read_cases s msg with ⟨-, -, -, h⟩ | ⟨-, hfull, h⟩ | ⟨-, s₁, hlt, -, -, h⟩ | ⟨hneed, h⟩
  · cases h.symm.trans hread
  · cases h.symm.trans hread
  · obtain ⟨hlength, hneed', -⟩ := readPayload_frame hlt (h.symm.trans hread)
    exact ⟨Nat.lt_of_lt_of_le hlength (length_sinkFill ..), hneed'⟩
  · obtain ⟨hlength, hneed', -⟩ := readPayload_frame (hs.payload hneed) (h.symm.trans hread)
    exact ⟨hlength, hneed'⟩

theorem FrameSinks.Sound.read_passes (hread : s.read msg = .passes s' rest)
    (msg' : List UInt8) : s'.read msg' = .passes s' msg' := by
  rcases read_cases s msg with ⟨hneed, hfull, hsize, h⟩ | ⟨-, -, h⟩ | ⟨-, s₁, -, -, -, h⟩ | ⟨-, h⟩
  · cases h.symm.trans hread
    rw [FrameSinks.read]
    dsimp only
    rw [if_pos hneed, sinkFill_full hs.header hfull]
    dsimp only
    exact (if_pos rfl).trans (if_pos hsize)
  · cases h.symm.trans hread
  · exact absurd (h.symm.trans hread) readPayload_passes
  · exact absurd (h.symm.trans hread) readPayload_passes

omit hs in
theorem QemudClient.Sound.withSinks {c : QemudClient ω} (hc : c.Sound)
    (hread : c.sinks.read msg = .frame text s' rest) : (c.withSinks s').Sound := by
  have hneed' := (hc.sinks.read_frame hread).2
  have hsound : c.header.size = s'.header.size → s'.header.used ≤ frameHeaderSize →
      s'.header0.length = frameHeaderSize → (c.withSinks s').Sound := fun hsize hused hheader0 =>
    ⟨hsize ▸ hc.headerSize, hused, hheader0, fun h => (nomatch hneed'.symm.trans h),
      fun h => (nomatch hneed'.symm.trans h), fun h => (nomatch hneed'.symm.trans h)⟩
  rcases read_cases c.sinks msg with
    ⟨-, -, -, h⟩ | ⟨-, -, h⟩ | ⟨hneed, s₁, hlt, hheader, hheader0, h⟩ | ⟨hneed, h⟩
  · cases h.symm.trans hread
  · cases h.symm.trans hread
  · obtain ⟨-, -, hheader', hheader0'⟩ := readPayload_frame hlt (h.symm.trans hread)
    have hfill := QemudMultiplexer.sound_fillHeader (c := c) hneed hc msg
    refine hsound ?_ ?_ ?_
    · rw [hheader', hheader, hc.headerSize]
      exact hfill.headerSize.symm
    · rw [hheader', hheader]
      exact Nat.zero_le _
    · rw [hheader0', hheader0]
      exact hfill.header0
  · obtain ⟨-, -, hheader', hheader0'⟩ :=
      readPayload_frame (hc.payloadUsed hneed) (h.symm.trans hread)
    refine hsound (congrArg QemudSink.size hheader').symm ?_ ?_
    · rw [hheader']
      exact hc.headerUsed
    · rw [hheader0']
      exact hc.header0

end Sinks

namespace QemudMultiplexer

variable {m m' : QemudMultiplexer ω δ} {c c' : QemudClient ω} {id : Nat}

section Loop

variable (code : ServiceCode ω δ)

/-- What a round does to the multiplexer. -/
def act (m : QemudMultiplexer ω δ) (c : QemudClient ω) :
    Piece → Option (QemudMultiplexer ω δ × List UInt8)
  | .waits s rest => some (m.setClient (c.withSinks s), rest)
  | .passes s rest => some (m.setClient (c.withSinks s), rest)
  | .frame text s rest =>
    ((m.setClient (c.withSinks s)).callRecv code c.id text).map fun m => (m, rest)

theorem readFrame_eq (m : QemudMultiplexer ω δ) (c : QemudClient ω) (msg : List UInt8) :
    m.readFrame code c msg = m.act code c (c.sinks.readPayload msg) := by
  by_cases hfull : (sinkFill c.payload c.buff msg).full = true
  · refine (if_pos hfull).trans (.trans ?_ (congrArg (m.act code c) (if_pos hfull).symm))
    exact (Option.map_eq_bind ..).symm
  · refine (if_neg hfull).trans (.trans ?_ (congrArg (m.act code c) (if_neg hfull).symm))
    rfl

theorem frameRound_eq (hc : m.client id = some c) (msg : List UInt8) :
    m.frameRound code id msg = m.act code c (c.sinks.read msg) := by
  rw [frameRound, hc]
  change (if c.needHeader then _ else _) = _
  by_cases hneed : c.needHeader = true
  · refine (if_pos hneed).trans (.trans ?_ (congrArg (m.act code c) (if_pos hneed).symm))
    by_cases hfull : (sinkFill c.header c.header0 msg).full = true
    · refine (if_pos hfull).trans (.trans ?_ (congrArg (m.act code c) (if_pos hfull).symm))
      by_cases hsize : hex2int ((sinkFill c.header c.header0 msg).buff.take frameHeaderSize) ≤ 0
      · refine (if_pos hsize).trans (.trans ?_ (congrArg (m.act code c) (if_pos hsize).symm))
        rfl
      · refine (if_neg hsize).trans (.trans ?_ (congrArg (m.act code c) (if_neg hsize).symm))
        exact readFrame_eq code ..
    · refine (if_neg hfull).trans (.trans ?_ (congrArg (m.act code c) (if_neg hfull).symm))
      rfl
  · refine (if_neg hneed).trans (.trans ?_ (congrArg (m.act code c) (if_neg hneed).symm))
    exact readFrame_eq code ..

end Loop

section Commands

variable (code : ServiceCode ω δ) {name : CString} {opq : ω} {commands : List Command}

/-- A command other than closing leaves the sinks of the client and the data of its service. -/
structure Leaves (id : Nat) (c : QemudClient ω) (m m' : QemudMultiplexer ω δ) : Prop where
  wf : m'.Wf
  data : m'.data = m.data
  client : ∃ c', m'.client id = some c' ∧ c'.sinks = c.sinks ∧ c'.service = c.service

theorem Writes.leaves (h : Writes m m') (hwf : m.Wf) (hc : m.client id = some c) :
    Leaves id c m m' := by
  refine ⟨h.moves.wf hwf, ?_, c, (h.client id).trans hc, rfl, rfl⟩
  obtain ⟨bytes, rfl⟩ := h
  rfl

theorem runCommand_leaves (hwf : m.Wf) (hc : m.client id = some c)
    (hservice : c.service = some (name, opq)) (hneed : c.needHeader = true) {command : Command}
    (hclose : command ≠ .close) :
    ∃ m', m.runCommand code id command = some m' ∧ Leaves id c m m' := by
  have hwrites : ∀ {r : Option (QemudMultiplexer ω δ)}, (∃ m', r = some m' ∧ Writes m m') →
      ∃ m', r = some m' ∧ Leaves id c m m' := by
    rintro r ⟨m', hm', hwrites⟩
    exact ⟨m', hm', hwrites.leaves hwf hc⟩
  cases command with
  | send msg => exact hwrites (clientSend_writes msg hc)
  | broadcast msg => exact hwrites (broadcast_writes hwf hc hservice msg)
  | close => exact absurd rfl hclose
  | setFraming framing =>
    obtain rfl := Keyed.key_of_find hc
    have hrun : m.setFraming framing c.id =
        some (m.setClient { c with framing, needHeader := c.needHeader || c.framing }) := by
      rw [setFraming, hc]
      rfl
    refine ⟨_, hrun, (moves_setFraming hrun).wf hwf, rfl, _, client_setClient hc, ?_, rfl⟩
    rw [QemudClient.sinks, QemudClient.sinks, hneed, Bool.true_or]

theorem runCommands_leaves (hwf : m.Wf) (hc : m.client id = some c)
    (hservice : c.service = some (name, opq)) (hneed : c.needHeader = true)
    (hclose : .close ∉ commands) :
    ∃ m', m.runCommands code id commands = some m' ∧ Leaves id c m m' := by
  induction commands generalizing m c with
  | nil => exact ⟨m, rfl, hwf, rfl, c, hc, rfl, rfl⟩
  | cons command commands ih =>
    obtain ⟨hne, hclose⟩ := not_or.mp (mt List.mem_cons.mpr hclose)
    obtain ⟨m₁, hm₁, hwf₁, hdata, c₁, hc₁, hsinks, hservice₁⟩ :=
      runCommand_leaves code hwf hc hservice hneed (Ne.symm hne)
    have hneed₁ : c₁.needHeader = true := (congrArg FrameSinks.needHeader hsinks).trans hneed
    obtain ⟨m', hm', hwf', hdata', c', hc', hsinks', hservice'⟩ :=
      ih hwf₁ hc₁ (hservice₁.trans hservice) hneed₁ hclose
    refine ⟨m', ?_, hwf', hdata'.trans hdata, c', hc', hsinks'.trans hsinks,
      hservice'.trans hservice₁⟩
    rw [runCommands, List.foldlM_cons, hm₁]
    exact hm'

theorem client_disconnect (m : QemudMultiplexer ω δ) (c : QemudClient ω) :
    (m.disconnect code c).client c.id = none := by
  have hclients : (m.disconnect code c).clients = Keyed.without (fun c => c.id) m.clients c.id := by
    rw [← clients_unlist, disconnect_eq]
    dsimp only
    split
    · split
      · rfl
      · rfl
    · split
      · rfl
      · rfl
  rw [client, hclients, Keyed.find, List.find?_eq_none]
  intro c' hc'
  have hid := (Keyed.mem_without.mp hc').2
  simpa using hid

theorem runCommand_freed (h : m.client id = none) (command : Command) :
    m.runCommand code id command = none := by
  cases command with
  | send msg => rw [runCommand, clientSend, h]; rfl
  | setFraming framing => rw [runCommand, setFraming, h]; rfl
  | broadcast msg => rw [runCommand, broadcast, h]; rfl
  | close => rw [runCommand, h]; rfl

theorem runCommands_close (hwf : m.Wf) (hc : m.client id = some c)
    (hservice : c.service = some (name, opq)) (hneed : c.needHeader = true)
    {before behind : List Command} (hbefore : .close ∉ before) :
    (behind ≠ [] → m.runCommands code id (before ++ .close :: behind) = none) ∧
      ∃ m', m.runCommands code id (before ++ [Command.close]) = some m' ∧ m'.client id = none := by
  obtain ⟨m₁, hm₁, -, -, c₁, hc₁, -, -⟩ :=
    runCommands_leaves code hwf hc hservice hneed hbefore
  have hfreed : (m₁.disconnect code c₁).client id = none := by
    rw [← Keyed.key_of_find hc₁]
    exact client_disconnect code m₁ c₁
  have hclose : m₁.runCommand code id .close = some (m₁.disconnect code c₁) := by
    rw [runCommand, hc₁]
    rfl
  rw [runCommands] at hm₁
  refine ⟨fun hbehind => ?_, m₁.disconnect code c₁, ?_, hfreed⟩
  · obtain ⟨command, behind, rfl⟩ := List.exists_cons_of_ne_nil hbehind
    rw [runCommands, List.foldlM_append, hm₁]
    change (m₁.runCommand code id .close).bind _ = none
    rw [hclose]
    change ((m₁.disconnect code c₁).runCommand code id command).bind _ = none
    rw [runCommand_freed code hfreed]
    rfl
  · rw [runCommands, List.foldlM_append, hm₁]
    change (m₁.runCommand code id .close).bind _ = _
    rw [hclose]
    rfl

end Commands

section Callbacks

variable (code : ServiceCode ω δ) {name : CString} {opq : ω} (text : List UInt8)

theorem callRecv_eq (hc : m.client id = some c) (hservice : c.service = some (name, opq)) :
    m.callRecv code id text =
      ({ m.call (.recv id text) with data := (code.clieRecv name text opq m.data).2.1 }.setClient
        { c with service := some (name, (code.clieRecv name text opq m.data).1) }).runCommands
          code id (code.clieRecv name text opq m.data).2.2 := by
  rw [callRecv, hc]
  dsimp only [Option.bind_eq_bind, Option.bind_some]
  rw [hservice]
  rfl

theorem wf_called (hwf : m.Wf) (hc : m.client id = some c) (hservice : c.service = some (name, opq))
    (opq' : ω) (data : δ) :
    ({ m.call (.recv id text) with data }.setClient
      { c with service := some (name, opq') }).Wf := by
  have hmoves := (moves_call m (.recv id text)).trans (moves_data _ data)
  have hcalled := hmoves.wf hwf
  generalize hm₁ : ({ m.call (.recv id text) with data } : QemudMultiplexer ω δ) = m₁ at hcalled ⊢
  have hmem : c ∈ m₁.clients := hm₁ ▸ Keyed.mem_of_find hc
  have hname : { c with service := some (name, opq') : QemudClient ω }.serviceName =
      c.serviceName := by
    rw [QemudClient.serviceName, QemudClient.serviceName, hservice]
    rfl
  have hset : Moves m₁ (m₁.setClient { c with service := some (name, opq') }) :=
    moves_setClient hmem rfl hname rfl fun hsound => { hsound with }
  exact hset.wf hcalled

theorem callRecv_leaves (hwf : m.Wf) (hc : m.client id = some c)
    (hservice : c.service = some (name, opq)) (hneed : c.needHeader = true)
    (hclose : .close ∉ (code.clieRecv name text opq m.data).2.2) :
    ∃ m', m.callRecv code id text = some m' ∧ m'.Wf ∧
      m'.data = (code.clieRecv name text opq m.data).2.1 ∧ ∃ c', m'.client id = some c' ∧
        c'.sinks = c.sinks ∧
          c'.service = some (name, (code.clieRecv name text opq m.data).1) := by
  obtain rfl := Keyed.key_of_find hc
  obtain ⟨m', hm', hwf', hdata, hclient⟩ := runCommands_leaves code
    (wf_called text hwf hc hservice (code.clieRecv name text opq m.data).1
      (code.clieRecv name text opq m.data).2.1) (client_setClient hc) rfl hneed hclose
  exact ⟨m', (callRecv_eq code text hc hservice).trans hm', hwf', hdata, hclient⟩

theorem callRecv_close (hwf : m.Wf) (hc : m.client id = some c)
    (hservice : c.service = some (name, opq)) (hneed : c.needHeader = true)
    {before behind : List Command} (hbefore : .close ∉ before)
    (hcommands : (code.clieRecv name text opq m.data).2.2 = before ++ .close :: behind) :
    (behind ≠ [] → m.callRecv code id text = none) ∧
      (behind = [] → ∃ m', m.callRecv code id text = some m' ∧ m'.client id = none) := by
  obtain rfl := Keyed.key_of_find hc
  obtain ⟨hfails, hcloses⟩ := runCommands_close code
    (wf_called text hwf hc hservice (code.clieRecv name text opq m.data).1
      (code.clieRecv name text opq m.data).2.1) (client_setClient hc) rfl hneed hbefore
  rw [callRecv_eq code text hc hservice, hcommands]
  refine ⟨hfails, ?_⟩
  rintro rfl
  exact hcloses

end Callbacks

section Messages

variable (code : ServiceCode ω δ)

/-- A message that is a frame of its own, for a client whose header sink is full. -/
def ShortCut (c : QemudClient ω) (msg : List UInt8) : Prop :=
  frameHeaderSize < msg.length ∧ c.needHeader ∧ c.header.needed = 0 ∧
    (msg.length : Int) = hex2int (msg.take frameHeaderSize) + frameHeaderSize ∧
    0 ≤ hex2int (msg.take frameHeaderSize)

instance (c : QemudClient ω) (msg : List UInt8) : Decidable (ShortCut c msg) :=
  inferInstanceAs (Decidable (_ ∧ _ ∧ _ ∧ _ ∧ _))

/-- The loop of `qemud_client_recv` ends, and each of its rounds finds the client. -/
def LoopEnds (id : Nat) (m : QemudMultiplexer ω δ) (msg : List UInt8) : Prop :=
  Ends (frameRound code id) m msg ∧
    Finds (frameRound code id) (fun m => (m.client id).isSome) m msg

/-- A message with nothing behind an empty or a corrupted header, and nothing behind a frame
for which `clie_recv` closes the client. -/
inductive Harmless (clieRecv : List UInt8 → ω → δ → ω × δ × List Command) :
    FrameSinks → ω → δ → List UInt8 → Prop
  | empty {s opq data} : Harmless clieRecv s opq data []
  | waits {s s' opq data msg rest} : s.read msg = .waits s' rest → Harmless clieRecv s opq data msg
  | passes {s s' opq data msg} : s.read msg = .passes s' [] → Harmless clieRecv s opq data msg
  | closes {s s' opq data msg text} : s.read msg = .frame text s' [] →
      .close ∈ (clieRecv text opq data).2.2 → Harmless clieRecv s opq data msg
  /-- The callback itself uses the client that it has closed. -/
  | fails {s s' opq data msg text rest before command behind} :
      s.read msg = .frame text s' rest → .close ∉ before →
      (clieRecv text opq data).2.2 = before ++ .close :: command :: behind →
      Harmless clieRecv s opq data msg
  | frame {s s' opq data msg text rest} : s.read msg = .frame text s' rest →
      .close ∉ (clieRecv text opq data).2.2 →
      Harmless clieRecv s' (clieRecv text opq data).1 (clieRecv text opq data).2.1 rest →
      Harmless clieRecv s opq data msg

end Messages

section Safety

variable {code : ServiceCode ω δ} {name : CString} {opq : ω} {text msg rest : List UInt8}
  {s s' : FrameSinks}

theorem loopEnds_nil : LoopEnds code id m [] := ⟨ends_nil, finds_nil⟩

theorem loopEnds_of_none (hmsg : msg ≠ []) (hc : m.client id = some c)
    (h : m.frameRound code id msg = none) : LoopEnds code id m msg :=
  ⟨ends_of_none hmsg h, finds_of_none hmsg h (Option.isSome_of_mem hc)⟩

theorem loopEnds_iff_of_some (hmsg : msg ≠ []) (hc : m.client id = some c)
    (h : m.frameRound code id msg = some (m', rest)) :
    LoopEnds code id m msg ↔ LoopEnds code id m' rest := by
  rw [LoopEnds, ends_iff_of_some hmsg h, finds_iff_of_some hmsg h,
    and_iff_right (a := (m.client id).isSome = true) (Option.isSome_of_mem hc)]
  rfl

theorem LoopEnds.isSome (h : LoopEnds code id m msg) (hmsg : msg ≠ []) : (m.client id).isSome :=
  h.2 0 m msg hmsg rfl

variable (code) in
theorem frameRound_frame (hwf : m.Wf) (hc : m.client id = some c)
    (hservice : c.service = some (name, opq)) (hread : c.sinks.read msg = .frame text s' rest) :
    ∃ m₁ : QemudMultiplexer ω δ,
      m.frameRound code id msg = (m₁.callRecv code id text).map (fun m => (m, rest)) ∧ m₁.Wf ∧
      m₁.client id = some (c.withSinks s') ∧ m₁.data = m.data ∧
        (c.withSinks s').service = some (name, opq) ∧ (c.withSinks s').needHeader = true := by
  obtain rfl := Keyed.key_of_find hc
  have hsound := hwf.sound c (Keyed.mem_of_find hc)
  refine ⟨m.setClient (c.withSinks s'), ?_, ?_, client_setClient hc, rfl, hservice,
    (hsound.sinks.read_frame hread).2⟩
  · rw [frameRound_eq code hc, hread, act]
  · have hset : Moves m (m.setClient (c.withSinks s')) :=
      moves_setClient (Keyed.mem_of_find hc) rfl rfl rfl fun h => h.withSinks hread
    exact hset.wf hwf

theorem frameRound_silent (hc : m.client id = some c)
    (hread : c.sinks.read msg = .waits s' rest ∨ c.sinks.read msg = .passes s' rest) :
    m.frameRound code id msg = some (m.setClient (c.withSinks s'), rest) := by
  rw [frameRound_eq code hc]
  rcases hread with hread | hread
  · rw [hread, act]
  · rw [hread, act]

theorem not_ends_passes (hwf : m.Wf) (hc : m.client id = some c) (hmsg : msg ≠ [])
    (hread : c.sinks.read msg = .passes s' rest) (hrest : rest ≠ []) :
    ¬Ends (frameRound code id) m msg := by
  rw [ends_iff_of_some hmsg (frameRound_silent hc (.inr hread))]
  obtain rfl := Keyed.key_of_find hc
  have hsound := hwf.sound c (Keyed.mem_of_find hc)
  refine not_ends_of_stuck hrest ?_
  have hagain : (c.withSinks s').sinks.read rest = .passes s' rest :=
    hsound.sinks.read_passes hread rest
  refine (frameRound_silent (c := c.withSinks s') (client_setClient hc) (.inr hagain)).trans ?_
  have hsame : (m.setClient (c.withSinks s')).setClient ((c.withSinks s').withSinks s') =
      m.setClient (c.withSinks s') := by
    have hclients : Keyed.replace (fun c => c.id) (m.setClient (c.withSinks s')).clients
        ((c.withSinks s').withSinks s') = (m.setClient (c.withSinks s')).clients :=
      Keyed.replace_replace rfl
    rw [setClient, hclients]
  rw [hsame]

theorem loopEnds_of_harmless {data : δ} (h : Harmless (code.clieRecv name) s opq data msg)
    (hwf : m.Wf) (hc : m.client id = some c) (hservice : c.service = some (name, opq))
    (hsinks : c.sinks = s) (hdata : m.data = data) : LoopEnds code id m msg := by
  by_cases hmsg : msg = []
  · rw [hmsg]
    exact loopEnds_nil
  induction h generalizing m c with
  | empty => exact absurd rfl hmsg
  | waits hread =>
    subst hsinks
    have hsound := hwf.sound c (Keyed.mem_of_find hc)
    rw [loopEnds_iff_of_some hmsg hc (frameRound_silent hc (.inl hread)),
      hsound.sinks.read_waits hread]
    exact loopEnds_nil
  | passes hread =>
    subst hsinks
    rw [loopEnds_iff_of_some hmsg hc (frameRound_silent hc (.inr hread))]
    exact loopEnds_nil
  | @closes _ _ _ _ _ text hread hclose =>
    subst hsinks hdata
    obtain ⟨m₁, hround, -⟩ := frameRound_frame code hwf hc hservice hread
    cases hcall : m₁.callRecv code id text with
    | none => exact loopEnds_of_none hmsg hc (by rw [hround, hcall]; rfl)
    | some m' =>
      rw [loopEnds_iff_of_some hmsg hc (hround.trans (congrArg (Option.map _) hcall))]
      exact loopEnds_nil
  | fails hread hbefore hcommands =>
    subst hsinks hdata
    obtain ⟨m₁, hround, hwf₁, hc₁, hdata₁, hservice₁, hneed⟩ :=
      frameRound_frame code hwf hc hservice hread
    have hnone := (callRecv_close code _ hwf₁ hc₁ hservice₁ hneed hbefore (hdata₁ ▸ hcommands)).1
      (List.cons_ne_nil _ _)
    exact loopEnds_of_none hmsg hc (by rw [hround, hnone]; rfl)
  | @frame _ _ _ _ _ _ rest hread hclose _ ih =>
    subst hsinks hdata
    obtain ⟨m₁, hround, hwf₁, hc₁, hdata₁, hservice₁, hneed⟩ :=
      frameRound_frame code hwf hc hservice hread
    obtain ⟨m', hcall, hwf', hdata', c', hc', hsinks', hservice'⟩ :=
      callRecv_leaves code _ hwf₁ hc₁ hservice₁ hneed (hdata₁ ▸ hclose)
    rw [loopEnds_iff_of_some hmsg hc (hround.trans (congrArg (Option.map _) hcall))]
    by_cases hrest : rest = []
    · rw [hrest]
      exact loopEnds_nil
    · rw [hdata₁] at hdata' hservice'
      exact ih hwf' hc' hservice' hsinks' hdata' hrest

theorem harmless_of_loopEnds (h : LoopEnds code id m msg) (hwf : m.Wf)
    (hc : m.client id = some c) (hservice : c.service = some (name, opq)) :
    Harmless (code.clieRecv name) c.sinks opq m.data msg := by
  induction hn : msg.length using Nat.strong_induction_on generalizing m c msg opq with
  | _ n ih =>
    by_cases hmsg : msg = []
    · rw [hmsg]
      exact .empty
    have hsound := hwf.sound c (Keyed.mem_of_find hc)
    cases hread : c.sinks.read msg with
    | waits s' rest => exact .waits hread
    | passes s' rest =>
      have hrest : rest = [] := by
        by_contra hrest
        exact not_ends_passes hwf hc hmsg hread hrest h.1
      exact .passes (hrest ▸ hread)
    | frame text s' rest =>
      obtain ⟨m₁, hround, hwf₁, hc₁, hdata₁, hservice₁, hneed⟩ :=
        frameRound_frame code hwf hc hservice hread
      by_cases hclose : .close ∈ (code.clieRecv name text opq m.data).2.2
      · obtain ⟨before, behind, hcommands, hbefore⟩ := List.eq_append_cons_of_mem hclose
        have hcloses := callRecv_close code text hwf₁ hc₁ hservice₁ hneed hbefore
          (hdata₁ ▸ hcommands)
        cases behind with
        | cons command behind => exact .fails hread hbefore hcommands
        | nil =>
          obtain ⟨m', hcall, hfreed⟩ := hcloses.2 rfl
          rw [loopEnds_iff_of_some hmsg hc (hround.trans (congrArg (Option.map _) hcall))] at h
          have hrest : rest = [] := by
            by_contra hrest
            have hsome := h.isSome hrest
            rw [hfreed] at hsome
            cases hsome
          exact .closes (hrest ▸ hread) hclose
      · obtain ⟨m', hcall, hwf', hdata', c', hc', hsinks', hservice'⟩ :=
          callRecv_leaves code _ hwf₁ hc₁ hservice₁ hneed (hdata₁ ▸ hclose)
        rw [loopEnds_iff_of_some hmsg hc (hround.trans (congrArg (Option.map _) hcall))] at h
        rw [hdata₁] at hdata' hservice'
        have hlength := (hsound.sinks.read_frame hread).1
        have hrest := ih rest.length (hn ▸ hlength) h hwf' hc' hservice' rfl
        rw [hsinks', hdata'] at hrest
        exact .frame hread hclose hrest

end Safety

section Reached

/-- The states that a multiplexer comes to: it reads what the guest sends, and its services do
something for their clients or change their data on their own. -/
inductive Reached (code : ServiceCode ω δ) (services : List (CString × Int32)) :
    QemudMultiplexer ω δ → Prop
  | init (data : δ) : Reached code services (init services data)
  | read {m m' : QemudMultiplexer ω δ} (msg : List UInt8) (h : Reached code services m)
      (hm' : (receiver code).serialRead m msg = some m') : Reached code services m'
  | command {m m' : QemudMultiplexer ω δ} {id : Nat} (command : Command)
      (h : Reached code services m) (hne : id ≠ 0)
      (hm' : m.runCommand code id command = some m') : Reached code services m'
  | clientData {m : QemudMultiplexer ω δ} {id : Nat} {c : QemudClient ω} {name : CString} {opq : ω}
      (opq' : ω) (h : Reached code services m) (hc : m.client id = some c)
      (hs : c.service = some (name, opq)) :
      Reached code services (m.setClient { c with service := some (name, opq') })
  | data {m : QemudMultiplexer ω δ} (data : δ) (h : Reached code services m) :
      Reached code services { m with data }

variable {code : ServiceCode ω δ} {services : List (CString × Int32)}

theorem Reached.working (hservices : (services.map Prod.fst).Nodup)
    (h : Reached code services m) : m.Working (services.map Prod.fst) := by
  induction h with
  | init data => exact working_init hservices data
  | read msg _ hm' ih => exact ih.serialRead msg hm'
  | command command _ hne hm' ih => exact ih.runCommand hne hm'
  | clientData opq' _ hc hs ih => exact ih.setOpaque hc hs opq'
  | data data _ ih => exact ih.setData data

theorem Good.service_of_framing (h : m.Good) (hc : m.client id = some c)
    (hframing : c.framing = true) : ∃ name opq, c.service = some (name, opq) := by
  have hmem := Keyed.mem_of_find hc
  have hplaced := h.placed c hmem
  cases hservice : c.service with
  | some p => exact ⟨p.1, p.2, rfl⟩
  | none =>
    rw [QemudClient.Placed, hservice] at hplaced
    rw [h.others c hmem hplaced] at hframing
    cases hframing

/-- A message is received safely if and only if it is harmless: a closed client is not touched, and
the loop comes to its end. -/
theorem receives_iff_harmless (hservices : (services.map Prod.fst).Nodup)
    (h : Reached code services m) (hc : m.client id = some c) (hframing : c.framing = true)
    (msg : List UInt8) : ∃ name opq, c.service = some (name, opq) ∧
      ((¬ShortCut c msg → LoopEnds code id m msg) ↔
        (¬ShortCut c msg → Harmless (code.clieRecv name) c.sinks opq m.data msg)) := by
  have hgood := (h.working hservices).toGood
  obtain ⟨name, opq, hservice⟩ := hgood.service_of_framing hc hframing
  refine ⟨name, opq, hservice, forall_congr' fun _ => ?_⟩
  exact ⟨fun h => harmless_of_loopEnds h hgood.toWf hc hservice,
    fun h => loopEnds_of_harmless h hgood.toWf hc hservice rfl rfl⟩

/-- A service that closes its client after a `list`. -/
def listing : ServiceCode Unit Unit where
  clieRecv _ msg _ _ := ((), (), if msg = ascii "list" then [.close] else [])
  clieClose _ _ _ := ()
  clieSave _ _ _ := []
  clieLoad _ bytes _ _ := (0, (), (), bytes)
  servConnect _ _ _ := (some ((), [.setFraming true]), ())
  servSave _ _ := []
  servLoad _ bytes _ := (0, (), bytes)

def bootServices : List (CString × Int32) := [(ascii "boot-properties", 0)]

/-- A client of the service on the first channel. -/
def listed : QemudMultiplexer Unit Unit :=
  ((receiver listing).serialRead (init bootServices ())
    (ascii "00001aconnect:boot-properties:01")).getD (init [] ())

theorem reached_listed : Reached listing bootServices listed := by
  have hsome : ((receiver listing).serialRead (init bootServices ())
      (ascii "00001aconnect:boot-properties:01")).isSome := by decide +kernel
  obtain ⟨m, hm⟩ := Option.isSome_iff_exists.mp hsome
  rw [listed, hm]
  exact .read (ascii "00001aconnect:boot-properties:01") (.init ()) hm

def emptySinks : FrameSinks := (QemudClient.alloc 1 1 none : QemudClient Unit).sinks

theorem client_listed : ∃ c : QemudClient Unit, listed.client 1 = some c ∧ c.framing = true ∧
    c.service = some (ascii "boot-properties", ()) ∧ c.sinks = emptySinks := by
  have h : (listed.client 1).any (fun c => decide (c.framing = true ∧
      c.service = some (ascii "boot-properties", ()) ∧ c.sinks = emptySinks)) = true := by
    decide +kernel
  obtain ⟨c, hc, hfacts⟩ := (Option.any_eq_true _ _).mp h
  exact ⟨c, hc, of_decide_eq_true hfacts⟩

theorem not_shortCut_listed {c : QemudClient Unit} (hsinks : c.sinks = emptySinks)
    (msg : List UInt8) : ¬ShortCut c msg := by
  rintro ⟨-, -, hneeded, -⟩
  rw [show c.header = emptySinks.header from congrArg FrameSinks.header hsinks] at hneeded
  revert hneeded
  decide

theorem read_list : ∃ s, emptySinks.read (ascii "0004list") = .frame (ascii "list") s [] := ⟨_, rfl⟩

theorem read_empty : ∃ s, emptySinks.read (ascii "00000") = .passes s (ascii "0") := ⟨_, rfl⟩

theorem receives_list : LoopEnds listing 1 listed (ascii "0004list") := by
  obtain ⟨c, hc, hframing, hservice, hsinks⟩ := client_listed
  obtain ⟨name, opq, hservice', hiff⟩ :=
    receives_iff_harmless (by decide) reached_listed hc hframing (ascii "0004list")
  obtain ⟨rfl, rfl⟩ := Prod.ext_iff.mp (Option.some.inj (hservice'.symm.trans hservice))
  obtain ⟨s, hread⟩ := read_list
  exact hiff.mpr (fun _ => hsinks.symm ▸ .closes hread (by decide)) (not_shortCut_listed hsinks _)

/-- A byte behind an empty frame is never read, and behind a `list` the freed client is used. -/
theorem not_receives_behind : ∃ c : QemudClient Unit, listed.client 1 = some c ∧ c.framing = true ∧
    (¬ShortCut c (ascii "00000") ∧ ¬Ends (frameRound listing 1) listed (ascii "00000")) ∧
    ¬ShortCut c (ascii "0004list0") ∧
      ¬Finds (frameRound listing 1) (fun m => (m.client 1).isSome) listed (ascii "0004list0") := by
  obtain ⟨c, hc, hframing, -, hsinks⟩ := client_listed
  refine ⟨c, hc, hframing, ⟨not_shortCut_listed hsinks _, ?_⟩, not_shortCut_listed hsinks _, ?_⟩
  · obtain ⟨s, hread⟩ := read_empty
    have hwf := (reached_listed.working (by decide)).toWf
    exact not_ends_passes hwf hc (by decide) (hsinks.symm ▸ hread) (by decide)
  · intro hfinds
    have hafter : (after (frameRound listing 1) 1 listed (ascii "0004list0")).any (fun r =>
        decide (r.2 ≠ [] ∧ (r.1.client 1).isSome = false)) = true := by
      decide +kernel
    obtain ⟨r, hr, hfacts⟩ := (Option.any_eq_true _ _).mp hafter
    obtain ⟨hrest, hfreed⟩ := of_decide_eq_true hfacts
    exact Bool.false_ne_true (hfreed.symm.trans (hfinds 1 r.1 r.2 hrest hr))

end Reached

end QemudMultiplexer

end M2M.Qemud
