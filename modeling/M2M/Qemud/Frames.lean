import M2M.Qemud.Callbacks

/-! A framing client puts a frame together from the payloads that bring it. -/

open M2M.Lib

namespace M2M.Qemud.QemudMultiplexer

variable {ω δ : Type} {m : QemudMultiplexer ω δ} {c c' : QemudClient ω}
  {text got bytes : List UInt8}

/-- Another state of the same client. -/
structure SameClient (c c' : QemudClient ω) : Prop where
  id : c'.id = c.id
  channel : c'.channel = c.channel
  service : c'.service = c.service
  framing : c'.framing = c.framing

theorem SameClient.trans {c'' : QemudClient ω} (h : SameClient c c') (h' : SameClient c' c'') :
    SameClient c c'' :=
  ⟨h'.id.trans h.id, h'.channel.trans h.channel, h'.service.trans h.service,
    h'.framing.trans h.framing⟩

/-- The payload sink has taken some bytes of a text. -/
structure Collects (text got : List UInt8) (c : QemudClient ω) : Prop where
  needHeader : c.needHeader = false
  header : c.header = ⟨0, frameHeaderSize⟩
  header0 : c.header0.length = frameHeaderSize
  payload : c.payload = ⟨got.length, text.length⟩
  length_buff : c.buff.length = text.length + 1
  take_buff : c.buff.take got.length = got

/-- The header sink has taken some bytes. -/
structure ReadsHeader (got : List UInt8) (c : QemudClient ω) : Prop where
  needHeader : c.needHeader
  header : c.header = ⟨got.length, frameHeaderSize⟩
  header0 : c.header0.length = frameHeaderSize
  take_header0 : c.header0.take got.length = got

theorem take_writeAt_append {buff p p' : List UInt8} (hp : buff.take p.length = p) :
    (writeAt buff p.length p').take (p.length + p'.length) = p ++ p' := by
  rw [writeAt, hp, List.take_left' (by rw [List.length_append])]

variable (code : ServiceCode ω δ)

theorem readFrame_more (h : Collects text got c) (hlt : got.length + bytes.length < text.length) :
    ∃ c', m.readFrame code c bytes = some (m.setClient c', []) ∧ SameClient c c' ∧
      Collects text (got ++ bytes) c' := by
  have hneeded : c.payload.needed = text.length - got.length := by
    rw [h.payload]
    rfl
  have htake : bytes.take c.payload.needed = bytes := List.take_of_length_le (by omega)
  have hdrop : bytes.drop c.payload.needed = [] := List.drop_of_length_le (by omega)
  have hused : c.payload.used < c.payload.size := by
    rw [h.payload]
    exact Nat.lt_of_le_of_lt (Nat.le_add_right _ _) hlt
  have hmore : ¬got.length + bytes.length = text.length := Nat.ne_of_lt hlt
  refine ⟨{ c with
    payload := ⟨got.length + bytes.length, text.length⟩
    buff := writeAt c.buff got.length bytes }, ?_, ⟨rfl, rfl, rfl, rfl⟩, ?_⟩
  · rw [readFrame, sinkFill_eq hused, htake, hdrop, h.payload]
    simp only [decide_eq_false hmore, Bool.false_eq_true, if_false]
  · have hroom : got.length + bytes.length ≤ c.buff.length := by
      rw [h.length_buff]
      omega
    exact ⟨h.needHeader, h.header, h.header0, by rw [List.length_append],
      (length_writeAt hroom).trans h.length_buff, by
        rw [List.length_append]
        exact take_writeAt_append h.take_buff⟩

theorem readFrame_last (h : Collects text got c) (htext : got ++ bytes = text)
    (hbytes : bytes ≠ []) :
    ∃ c', m.readFrame code c bytes =
        ((m.setClient c').callRecv code c.id text).map (fun m' => (m', [])) ∧ SameClient c c' ∧
      c'.needHeader ∧ c'.header = ⟨0, frameHeaderSize⟩ ∧ c'.header0.length = frameHeaderSize := by
  have hlen : got.length + bytes.length = text.length := by rw [← htext, List.length_append]
  have hpos := List.length_pos_iff.mpr hbytes
  have hneeded : c.payload.needed = text.length - got.length := by
    rw [h.payload]
    rfl
  have htake : bytes.take c.payload.needed = bytes := List.take_of_length_le (by omega)
  have hdrop : bytes.drop c.payload.needed = [] := List.drop_of_length_le (by omega)
  have hused : c.payload.used < c.payload.size := by
    rw [h.payload]
    change got.length < text.length
    omega
  have hbuff : (writeAt c.buff got.length bytes).take text.length = text := by
    rw [← hlen, take_writeAt_append h.take_buff, htext]
  refine ⟨{ c with
    needHeader := true
    payload := ⟨got.length + bytes.length, text.length⟩
    buff := writeAt c.buff got.length bytes }, ?_, ⟨rfl, rfl, rfl, rfl⟩, rfl, h.header, h.header0⟩
  rw [readFrame, sinkFill_eq hused, htake, hdrop, h.payload]
  simp only [hlen, decide_true, if_true, hbuff, Option.map_eq_bind]
  rfl

theorem frameRound_partHeader (hc : m.client c.id = some c) (h : ReadsHeader got c)
    (hlt : got.length + bytes.length < frameHeaderSize) :
    ∃ c', m.frameRound code c.id bytes = some (m.setClient c', []) ∧ SameClient c c' ∧
      ReadsHeader (got ++ bytes) c' := by
  have hneeded : c.header.needed = frameHeaderSize - got.length := by
    rw [h.header]
    rfl
  have htake : bytes.take c.header.needed = bytes := List.take_of_length_le (by omega)
  have hdrop : bytes.drop c.header.needed = [] := List.drop_of_length_le (by omega)
  have hused : c.header.used < c.header.size := by
    rw [h.header]
    exact Nat.lt_of_le_of_lt (Nat.le_add_right _ _) hlt
  have hmore : ¬got.length + bytes.length = frameHeaderSize := Nat.ne_of_lt hlt
  have hround : m.frameRound code c.id bytes = some (m.setClient { c with
      header := ⟨got.length + bytes.length, frameHeaderSize⟩
      header0 := writeAt c.header0 got.length bytes }, []) := by
    rw [frameRound, hc]
    change (if c.needHeader then _ else _) = _
    rw [if_pos h.needHeader, sinkFill_eq hused, htake, hdrop, h.header]
    simp only [decide_eq_false hmore, Bool.false_eq_true, if_false]
    rfl
  have hroom : got.length + bytes.length ≤ c.header0.length := by
    rw [h.header0]
    exact hlt.le
  refine ⟨_, hround, ⟨rfl, rfl, rfl, rfl⟩, h.needHeader, by rw [List.length_append],
    (length_writeAt hroom).trans h.header0, ?_⟩
  rw [List.length_append]
  exact take_writeAt_append h.take_header0

theorem frameRound_header (hc : m.client c.id = some c) (h : ReadsHeader got c)
    (hlt : got.length < frameHeaderSize) (rest : List UInt8)
    (hheader : got ++ bytes = int2hex frameHeaderSize text.length) (hpos : 0 < text.length)
    (hsize : text.length < 65536) :
    ∃ c', m.frameRound code c.id (bytes ++ rest) = m.readFrame code c' rest ∧ SameClient c c' ∧
      Collects text [] c' := by
  have hlen : got.length + bytes.length = frameHeaderSize := by
    rw [← List.length_append, hheader, length_int2hex]
  have hneeded : c.header.needed = bytes.length := by
    rw [h.header]
    exact Nat.sub_eq_of_eq_add' hlen.symm
  have htake : (bytes ++ rest).take c.header.needed = bytes := by
    rw [hneeded, List.take_left' rfl]
  have hdrop : (bytes ++ rest).drop c.header.needed = rest := by
    rw [hneeded, List.drop_left' rfl]
  have hused : c.header.used < c.header.size := by
    rw [h.header]
    exact hlt
  have hread : (writeAt c.header0 got.length bytes).take frameHeaderSize =
      int2hex frameHeaderSize text.length := by
    rw [← hlen, take_writeAt_append h.take_header0, hheader, hlen]
  have hsize' : hex2int (int2hex frameHeaderSize text.length) = text.length :=
    hex2int_int2hex hsize
  have hpos' : ¬(text.length : Int) ≤ 0 := by omega
  refine ⟨{ c with
    payload := ⟨0, text.length⟩
    buff := List.replicate (text.length + 1) 0
    needHeader := false
    header := ⟨0, frameHeaderSize⟩
    header0 := writeAt c.header0 got.length bytes }, ?_, ⟨rfl, rfl, rfl, rfl⟩, ?_⟩
  · rw [frameRound, hc]
    change (if c.needHeader then _ else _) = _
    rw [if_pos h.needHeader, sinkFill_eq hused, htake, hdrop, h.header]
    simp only [hlen, decide_true, if_true, hread, hsize', if_neg hpos', Int.toNat_natCast]
  · have hroom : (writeAt c.header0 got.length bytes).length = c.header0.length :=
      length_writeAt (by rw [h.header0]; exact hlen.le)
    exact ⟨rfl, rfl, hroom.trans h.header0, rfl, List.length_replicate .., rfl⟩

/-- The client has taken some bytes of a frame. -/
inductive Filling (text : List UInt8) : List UInt8 → QemudClient ω → Prop
  | header (got : List UInt8) (c : QemudClient ω) : got.length < frameHeaderSize →
      ReadsHeader got c → Filling text got c
  | payload (got : List UInt8) (c : QemudClient ω) : Collects text got c →
      Filling text (int2hex frameHeaderSize text.length ++ got) c

theorem frameRound_payload (hc : m.client c.id = some c) (h : Collects text got c) :
    m.frameRound code c.id bytes = m.readFrame code c bytes := by
  rw [frameRound, hc]
  change (if c.needHeader then _ else _) = _
  rw [if_neg (by simp [h.needHeader])]

theorem split_header (hgot : got.length < frameHeaderSize) {rest : List UInt8}
    (hfull : frameHeaderSize ≤ got.length + bytes.length)
    (hframe : got ++ bytes ++ rest = QemudSerial.framed true text) :
    ∃ front back, bytes = front ++ back ∧ got ++ front = int2hex frameHeaderSize text.length ∧
      back ++ rest = text := by
  obtain ⟨n, hn⟩ := Nat.exists_eq_add_of_le hgot.le
  have hsplit := List.take_append_drop n bytes
  rw [QemudSerial.framed, if_pos rfl, ← hsplit, List.append_assoc, List.append_assoc,
    ← List.append_assoc] at hframe
  have hlen : (got ++ bytes.take n).length = (int2hex frameHeaderSize text.length).length := by
    rw [length_int2hex, List.length_append, List.length_take]
    omega
  obtain ⟨hheader, htext⟩ := List.append_inj hframe hlen
  exact ⟨bytes.take n, bytes.drop n, hsplit.symm, hheader, htext⟩

theorem frameRound_more (hc : m.client c.id = some c) (h : Filling text got c) {rest : List UInt8}
    (hframe : got ++ bytes ++ rest = QemudSerial.framed true text) (hrest : rest ≠ [])
    (hpos : 0 < text.length) (hsize : text.length < 65536) :
    ∃ c', m.frameRound code c.id bytes = some (m.setClient c', []) ∧ SameClient c c' ∧
      Filling text (got ++ bytes) c' := by
  have hrest' := List.length_pos_iff.mpr hrest
  cases h with
  | header _ _ hlt h =>
    by_cases hpart : got.length + bytes.length < frameHeaderSize
    · obtain ⟨c', hround, hsame, hread⟩ := frameRound_partHeader code hc h hpart
      exact ⟨c', hround, hsame, .header _ _ (by rwa [List.length_append]) hread⟩
    · obtain ⟨front, back, rfl, hheader, htext⟩ :=
        split_header hlt (Nat.not_lt.mp hpart) hframe
      obtain ⟨c₁, hround, hsame, hcollects⟩ :=
        frameRound_header code hc h hlt back hheader hpos hsize
      have hmore : ([] : List UInt8).length + back.length < text.length := by
        rw [← htext, List.length_append, List.length_nil]
        omega
      obtain ⟨c', hframe', hsame', hcollects'⟩ := readFrame_more (m := m) code hcollects hmore
      refine ⟨c', hround.trans hframe', hsame.trans hsame', ?_⟩
      rw [← List.append_assoc, hheader]
      exact .payload _ _ hcollects'
  | payload got _ h =>
    rw [QemudSerial.framed, if_pos rfl, List.append_assoc, List.append_assoc] at hframe
    have htext := List.append_cancel_left hframe
    have hmore : got.length + bytes.length < text.length := by
      rw [← htext, List.length_append, List.length_append]
      omega
    obtain ⟨c', hframe', hsame, hcollects⟩ := readFrame_more (m := m) code h hmore
    refine ⟨c', (frameRound_payload code hc h).trans hframe', hsame, ?_⟩
    rw [List.append_assoc]
    exact .payload _ _ hcollects

theorem frameRound_last (hc : m.client c.id = some c) (h : Filling text got c)
    (hframe : got ++ bytes = QemudSerial.framed true text) (hbytes : bytes ≠ [])
    (hpos : 0 < text.length) (hsize : text.length < 65536) :
    ∃ c', m.frameRound code c.id bytes =
        ((m.setClient c').callRecv code c.id text).map (fun m' => (m', [])) ∧ SameClient c c' ∧
      c'.needHeader ∧ c'.header = ⟨0, frameHeaderSize⟩ ∧ c'.header0.length = frameHeaderSize := by
  cases h with
  | header _ _ hlt h =>
    have hfull : frameHeaderSize ≤ got.length + bytes.length := by
      rw [← List.length_append, hframe, QemudSerial.framed, if_pos rfl, List.length_append,
        length_int2hex]
      exact Nat.le_add_right _ _
    obtain ⟨front, back, rfl, hheader, htext⟩ :=
      split_header hlt hfull ((List.append_nil _).trans hframe)
    rw [List.append_nil] at htext
    subst htext
    obtain ⟨c₁, hround, hsame, hcollects⟩ :=
      frameRound_header code hc h hlt back hheader hpos hsize
    obtain ⟨c', hframe', hsame', hidle⟩ := readFrame_last (m := m) code hcollects
      (List.nil_append back) (List.length_pos_iff.mp hpos)
    rw [hsame.id] at hframe'
    exact ⟨c', hround.trans hframe', hsame.trans hsame', hidle⟩
  | payload got _ h =>
    rw [QemudSerial.framed, if_pos rfl, List.append_assoc] at hframe
    obtain ⟨c', hframe', hsame, hidle⟩ :=
      readFrame_last (m := m) code h (List.append_cancel_left hframe) hbytes
    exact ⟨c', (frameRound_payload code hc h).trans hframe', hsame, hidle⟩

theorem clientRecv_eq (hc : m.client c.id = some c) (hframing : c.framing)
    (h : Filling text got c) :
    m.clientRecv code c.id bytes = readAll (frameRound code c.id) m bytes := by
  have hneeded : ¬c.header.needed = 0 := by
    cases h with
    | header _ _ hlt h =>
      rw [h.header]
      exact Nat.sub_ne_zero_of_lt hlt
    | payload _ _ h =>
      rw [h.header]
      decide
  rw [clientRecv, hc]
  change (if ¬c.framing then _ else _) = _
  rw [if_neg (not_not.mpr hframing), if_neg fun h => hneeded h.2.2.1]

theorem serialRecv_more {channel : Int} (hc : m.onChannel channel = some c)
    (hclient : m.client c.id = some c) (hframing : c.framing) (h : Filling text got c)
    {rest : List UInt8} (hframe : got ++ bytes ++ rest = QemudSerial.framed true text)
    (hbytes : bytes ≠ []) (hrest : rest ≠ []) (hpos : 0 < text.length)
    (hsize : text.length < 65536) :
    ∃ c', m.serialRecv code channel bytes = some (m.setClient c') ∧ SameClient c c' ∧
      Filling text (got ++ bytes) c' := by
  obtain ⟨c', hround, hsame, hfilling⟩ := frameRound_more code hclient h hframe hrest hpos hsize
  refine ⟨c', ?_, hsame, hfilling⟩
  rw [serialRecv, hc]
  exact (clientRecv_eq code hclient hframing h).trans (readAll_of_round hbytes hround)

theorem serialRecv_last {channel : Int} (hc : m.onChannel channel = some c)
    (hclient : m.client c.id = some c) (hframing : c.framing) (h : Filling text got c)
    (hframe : got ++ bytes = QemudSerial.framed true text) (hbytes : bytes ≠ [])
    (hpos : 0 < text.length) (hsize : text.length < 65536) :
    ∃ c', m.serialRecv code channel bytes = (m.setClient c').callRecv code c.id text ∧
      SameClient c c' ∧ c'.needHeader ∧ c'.header = ⟨0, frameHeaderSize⟩ ∧
        c'.header0.length = frameHeaderSize := by
  obtain ⟨c', hround, hsame⟩ := frameRound_last code hclient h hframe hbytes hpos hsize
  refine ⟨c', ?_, hsame⟩
  rw [serialRecv, hc]
  exact (clientRecv_eq code hclient hframing h).trans (readAll_of_round hbytes hround)

end M2M.Qemud.QemudMultiplexer
