import M2M.Qemud.Snapshot
import M2M.Qemud.TwinRuns

/-! What holds of a multiplexer at work, so that it can be written to a snapshot. -/

open M2M.Lib

namespace M2M.Qemud

theorem neg_one_le_hex2intFrom (result : Nat) (hex : List UInt8) : -1 ≤ hex2intFrom result hex := by
  induction hex generalizing result with
  | nil =>
    rw [hex2intFrom]
    omega
  | cons c hex ih =>
    rw [hex2intFrom]
    split
    · exact Int.le_refl _
    · exact ih _

theorem fitsInt_hex2int {hex : List UInt8} (h : hex.length ≤ 4) : FitsInt (hex2int hex) := by
  have hlt := hex2int_lt hex
  have hle : 16 ^ hex.length ≤ 16 ^ 4 := Nat.pow_le_pow_right (by omega) h
  have hlow : -1 ≤ hex2int hex := neg_one_le_hex2intFrom 0 hex
  constructor <;> omega

namespace QemudSerial

variable {q : QemudSerial}

theorem Ranged.parseHeader (h : q.Ranged) : q.parseHeader.Ranged where
  overflow := h.overflow
  inSize := fitsInt_hex2int (List.length_take_le ..)
  inChannel := fitsInt_hex2int ((List.length_take_le ..).trans (by omega))
  header := ⟨Nat.two_pow_pos 31, h.header.2⟩
  payload := h.payload

theorem Ranged.afterHeader (h : q.Ranged) : q.afterHeader.Ranged := by
  have hparse := h.parseHeader
  rw [QemudSerial.afterHeader]
  split
  · exact hparse
  · split
    · exact { hparse with overflow := hparse.inSize }
    · refine { hparse with payload := ⟨Nat.two_pow_pos 31, ?_⟩ }
      have hfits := hparse.inSize.2
      dsimp only
      omega

theorem Ranged.headerByte (h : q.Ranged) (hq : q.Valid) (b : UInt8) : (q.headerByte b).Ranged := by
  have hused : q.header.used + 1 < 2 ^ 31 := by
    have hlt := hq.headerUsed
    rw [Qemud.headerSize] at hlt
    omega
  have hfill : (q.fillHeader [b]).Ranged := { h with header := ⟨hused, h.header.2⟩ }
  rw [QemudSerial.headerByte]
  split
  · exact hfill.afterHeader
  · exact hfill

theorem Ranged.fillPayload (h : q.Ranged) (hq : q.Valid) (hneed : q.needHeader = false)
    (b : UInt8) :
    (q.fillPayload [b]).Ranged :=
  { h with payload := ⟨Nat.lt_of_le_of_lt (hq.payloadUsed hneed) h.payload.2, h.payload.2⟩ }

theorem SameReading.ranged {q' : QemudSerial} (h : q.SameReading q') (hq : q.Ranged) :
    q'.Ranged := by
  rw [h.same]
  exact { hq with }

theorem SameReading.valid {q' : QemudSerial} (h : q.SameReading q') (hq : q.Valid) : q'.Valid := by
  have hdata0 := h.length_data0.trans hq.data0
  rw [h.same]
  exact { hq with
    headerSize := hq.headerSize
    headerUsed := hq.headerUsed
    data0 := hdata0 }

end QemudSerial

theorem Twin.refl {ω : Type} (c : QemudClient ω) : Twin (fun i => i) Eq c c := by
  refine ⟨rfl, rfl, ?_, rfl, rfl, rfl, rfl, fun _ => rfl, fun _ => rfl⟩
  cases c.service with
  | none => exact .none
  | some p => exact .some ⟨rfl, rfl⟩

namespace QemudMultiplexer

variable {ω δ : Type} {m m' : QemudMultiplexer ω δ} {code : ServiceCode ω δ} {id : Nat}

section Alone

theorem respects_eq (code : ServiceCode ω δ) : Respects code Eq Eq where
  recv name msg opq opq' data data' hopq hdata := by
    subst hopq hdata
    exact ⟨rfl, rfl, rfl⟩
  close name opq opq' data data' hopq hdata := by
    subst hopq hdata
    rfl
  connect name channel data data' hdata := by
    subst hdata
    refine ⟨?_, rfl⟩
    cases (code.servConnect name channel data).1 with
    | none => exact .none
    | some p => exact .some ⟨rfl, rfl⟩

/-- A multiplexer cannot be told apart from itself. -/
theorem Good.sim (h : m.Good) :
    Sim (fun i => i) (fun _ => True) Eq Eq m.calls m.calls m m where
  injective _ _ _ _ heq := heq
  good := h
  good' := h
  serial := rfl
  services := rfl
  data := rfl
  next _ := ⟨trivial, rfl⟩
  known _ _ := trivial
  client i _ := by
    cases m.client i with
    | none => exact .none
    | some c => exact .some (.refl c)
  channels _ := (List.map_id' _).symm
  calls := ⟨[], (List.append_nil _).symm, (List.append_nil _).symm⟩

theorem good_of_rel {x y : Option (QemudMultiplexer ω δ)} {before before' : List Call}
    (h : Option.Rel (Sim (fun i => i) (fun _ => True) Eq Eq before before') x y)
    (hx : x = some m') : m'.Good := by
  subst hx
  cases h with
  | some h => exact h.good

end Alone

def serviceNames (m : QemudMultiplexer ω δ) : List CString := m.services.map fun sv => sv.name

/-- A multiplexer at work: the lists and the port are as they should be. -/
structure Working (names : List CString) (m : QemudMultiplexer ω δ) : Prop extends Good m where
  valid : m.serial.Valid
  ranged : m.serial.Ranged
  names : m.serviceNames = names

variable {names : List CString}

section Steps

theorem working_init {services : List (CString × Int32)} (h : (services.map Prod.fst).Nodup)
    (data : δ) : (init services data : QemudMultiplexer ω δ).Working (services.map Prod.fst) where
  toGood := good_init h data
  valid := QemudSerial.idle_init.toValid
  ranged :=
    { overflow := fitsInt_natCast (n := 0) (by omega)
      inSize := fitsInt_natCast (n := 0) (by omega)
      inChannel := (by decide : -2 ^ 31 ≤ (-1 : Int) ∧ (-1 : Int) < 2 ^ 31)
      header := ⟨Nat.two_pow_pos 31, (by decide : Qemud.headerSize < 2 ^ 31)⟩
      payload := ⟨Nat.two_pow_pos 31, Nat.two_pow_pos 31⟩ }
  names := by
    rw [serviceNames, init, List.map_map]
    rfl

theorem Working.sameReading (h : m.Working names) (hgood : m'.Good)
    (hread : m.serial.SameReading m'.serial) (hnames : m'.serviceNames = m.serviceNames) :
    m'.Working names :=
  ⟨hgood, hread.valid h.valid, hread.ranged h.ranged, hnames.trans h.names⟩

theorem Working.moves (h : m.Working names) (hmoves : Moves m m') (hgood : m'.Good) :
    m'.Working names := by
  refine h.sameReading hgood ⟨?_, ?_⟩ hmoves.names
  · rw [hmoves.serial]
  · rw [hmoves.serial]

theorem Working.runCommand (h : m.Working names) (hne : id ≠ 0) {command : Command}
    (hm' : m.runCommand code id command = some m') : m'.Working names :=
  h.moves (moves_runCommand code command hm')
    (good_of_rel (h.toGood.sim.runCommand (respects_eq code) trivial hne command) hm')

theorem Working.setOpaque (h : m.Working names) {c : QemudClient ω} (hc : m.client id = some c)
    {name : CString} {opq : ω} (hs : c.service = some (name, opq)) (opq' : ω) :
    (m.setClient { c with service := some (name, opq') }).Working names := by
  have hmem := Keyed.mem_of_find hc
  have hchanges := changes_service hs opq'
  exact h.moves (moves_setClient hmem hchanges.id hchanges.serviceName hchanges.channel
    hchanges.sound) (h.toGood.setClient hc (h.toGood.channel_ne_of_service hmem hs) hchanges)

theorem Working.setData (h : m.Working names) (data : δ) :
    ({ m with data } : QemudMultiplexer ω δ).Working names :=
  h.moves (moves_data m data) { h.toGood with }

theorem Working.readByte (h : m.Working names) (b : UInt8)
    (hm' : (receiver code).readByte m b = some m') : m'.Working names := by
  have hgood := good_of_rel (h.toGood.sim.readByte (respects_eq code) b) hm'
  have hvalid := (receiver code).valid_readByte (s := m) h.valid b hm'
  have hset : ∀ {q : QemudSerial}, m' = { m with serial := q } → q.Ranged → m'.Working names := by
    rintro q rfl hq
    exact ⟨hgood, hvalid, hq, h.names⟩
  rw [Receiver.readByte] at hm'
  split at hm'
  · cases hm'
    exact h
  · split at hm'
    · exact hset (Option.some.inj hm').symm (h.ranged.headerByte h.valid b)
    · next hneed =>
      have hfill := h.ranged.fillPayload h.valid ((Bool.not_eq_true _).mp hneed) b
      split at hm'
      · rw [Receiver.deliver_eq] at hm'
        obtain ⟨m₁, hm₁, rfl⟩ := Option.map_eq_some_iff.mp hm'
        have hmoves := moves_serialRecv code hm₁
        have hread := (receiver code).sameReading _ _ _ _ hm₁
        refine ⟨hgood, hvalid, ?_, hmoves.names.trans h.names⟩
        exact { hread.ranged { hfill with } with }
      · exact hset (Option.some.inj hm').symm hfill

theorem Working.serialRead (h : m.Working names) (msg : List UInt8)
    (hm' : (receiver code).serialRead m msg = some m') : m'.Working names := by
  have hread := (receiver code).serialRead_chunks (s := m) h.valid [msg]
  rw [List.foldlM_cons, hm', List.flatten_cons, List.flatten_nil, List.append_nil] at hread
  exact invariant_foldlM (fun m₁ b m₂ h₁ h₂ => h₁.readByte b h₂) h hread.symm

end Steps

end QemudMultiplexer

end M2M.Qemud
