import M2M.Qemud.Multiplexer

/-! What qemud writes to a snapshot file, and how it is read again: `hw-qemud.c`. -/

open M2M.Lib

namespace M2M.Qemud

/-- The error code `EIO`. -/
def eio : Int := 5

def qemudSaveVersion : Int := 1

section Files

/-- `qemu_put_be32`. -/
def putBe32 (v : Int) : List UInt8 :=
  let n := (v % 2 ^ 32).toNat
  [.ofNat (n / 2 ^ 24), .ofNat (n / 2 ^ 16), .ofNat (n / 2 ^ 8), .ofNat n]

/-- `qemu_get_be32`, as an `int`.  Behind its end, a file has zeroes. -/
def getBe32 (f : List UInt8) : Int × List UInt8 :=
  let byte i := (f.getD i 0).toNat
  (((byte 0 * 2 ^ 24 + byte 1 * 2 ^ 16 + byte 2 * 2 ^ 8 + byte 3 : Nat) : Int).bmod (2 ^ 32),
    f.drop 4)

/-- `qemu_get_buffer`: the bytes that are there, if they are as many as they should be. -/
def getBuffer (size : Int) (f : List UInt8) : Option (List UInt8 × List UInt8) :=
  if ((f.take size.toNat).length : Int) = size then some (f.take size.toNat, f.drop size.toNat)
  else none

/-- What fits into an `int`. -/
def FitsInt (v : Int) : Prop := -2 ^ 31 ≤ v ∧ v < 2 ^ 31

theorem fitsInt_natCast {n : Nat} (h : n < 2 ^ 31) : FitsInt n := by
  refine ⟨?_, Int.ofNat_lt.mpr h⟩
  omega

theorem fitsInt_toNat (b : Bool) : FitsInt b.toNat :=
  fitsInt_natCast (Nat.lt_of_le_of_lt b.toNat_le (by omega))

theorem fitsInt_toInt (n : Int32) : FitsInt n.toInt :=
  ⟨n.le_toInt, n.toInt_lt⟩

@[simp] theorem length_putBe32 (v : Int) : (putBe32 v).length = 4 := rfl

/-- A number is read as the `int` that it was written as, whatever comes after it. -/
theorem getBe32_append (v : Int) (rest : List UInt8) :
    getBe32 (putBe32 v ++ rest) = (v.bmod (2 ^ 32), rest) := by
  obtain ⟨n, hn⟩ := Int.eq_ofNat_of_zero_le (Int.emod_nonneg v (b := 2 ^ 32) (by omega))
  have hlt : n < 2 ^ 32 := by
    have hlt := Int.emod_lt_of_pos v (b := 2 ^ 32) (by omega)
    omega
  have hbytes : n / 2 ^ 24 % 2 ^ 8 * 2 ^ 24 + n / 2 ^ 16 % 2 ^ 8 * 2 ^ 16 +
      n / 2 ^ 8 % 2 ^ 8 * 2 ^ 8 + n % 2 ^ 8 = n := by
    omega
  have hv : (n : Int).bmod (2 ^ 32) = v.bmod (2 ^ 32) := by
    rw [← hn, show (2 ^ 32 : Int) = ((2 ^ 32 : Nat) : Int) from rfl, Int.emod_bmod]
  unfold getBe32 putBe32
  simp only [hn, Int.toNat_natCast, List.cons_append, List.nil_append,
    List.getD_cons_zero, List.getD_cons_succ, UInt8.toNat_ofNat', hbytes, hv, List.drop_succ_cons,
    List.drop_zero]

theorem getBe32_putBe32 {v : Int} (h : FitsInt v) (rest : List UInt8) :
    getBe32 (putBe32 v ++ rest) = (v, rest) := by
  rw [getBe32_append, Int.bmod_eq_of_le h.1 h.2]

theorem getBuffer_append (bytes rest : List UInt8) :
    getBuffer bytes.length (bytes ++ rest) = some (bytes, rest) := by
  rw [getBuffer, Int.toNat_natCast, List.take_left' rfl, List.drop_left' rfl, if_pos rfl]

/-- `qemud_sink_save`. -/
def QemudSink.save (s : QemudSink) : List UInt8 := putBe32 s.used ++ putBe32 s.size

/-- `qemud_sink_load`. -/
def QemudSink.load (f : List UInt8) : QemudSink × List UInt8 :=
  let (used, f) := getBe32 f
  let (size, f) := getBe32 f
  (⟨used.toNat, size.toNat⟩, f)

theorem QemudSink.load_save {ss : QemudSink} (hused : ss.used < 2 ^ 31) (hsize : ss.size < 2 ^ 31)
    (rest : List UInt8) : QemudSink.load (ss.save ++ rest) = (ss, rest) := by
  rw [QemudSink.save, List.append_assoc, QemudSink.load, getBe32_putBe32 (fitsInt_natCast hused)]
  dsimp only
  rw [getBe32_putBe32 (fitsInt_natCast hsize)]
  rfl

/-- `qemud_service_save_name`. -/
def saveName (name : CString) : List UInt8 := putBe32 (name.length + 1) ++ name ++ [0]

/-- `qemud_service_load_name`, where NULL is `none`. -/
def loadName (f : List UInt8) : Option (CString × List UInt8) := do
  let (nameLen, f) := getBe32 f
  let (bytes, f) ← getBuffer nameLen f
  if bytes.getLast? = some 0 then some (bytes.takeWhile (· ≠ 0), f) else none

/-- The name of a service: a C string that an `int` can measure. -/
structure IsName (name : CString) : Prop where
  noZero : (0 : UInt8) ∉ name
  short : name.length + 1 < 2 ^ 31

theorem loadName_saveName {name : CString} (h : IsName name) (rest : List UInt8) :
    loadName (saveName name ++ rest) = some (name, rest) := by
  have hlength : ((name ++ [0]).length : Int) = name.length + 1 := by
    rw [List.length_append]
    rfl
  have hname : (name ++ [0]).takeWhile (· ≠ 0) = name := by
    have hpos : ∀ b ∈ name, decide (b ≠ 0) = true := fun b hb =>
      decide_eq_true fun h0 => h.noZero (h0 ▸ hb)
    rw [List.takeWhile_append_of_pos hpos]
    exact List.append_nil _
  rw [saveName, loadName, List.append_assoc, List.append_assoc,
    getBe32_putBe32 (Int.natCast_succ name.length ▸ fitsInt_natCast h.short)]
  dsimp only
  rw [← List.append_assoc, ← hlength, getBuffer_append]
  change (if (name ++ [0]).getLast? = some 0 then some _ else none) = _
  rw [if_pos List.getLast?_concat, hname]

end Files

namespace QemudSerial

def versionCode : QemudVersion → Int
  | .unknown => 0
  | .legacy => 1
  | .normal => 2

def versionOfCode (code : Int) : QemudVersion :=
  if code = 0 then .unknown else if code = 1 then .legacy else .normal

/-- `qemud_serial_save`. -/
def save (s : QemudSerial) : List UInt8 :=
  putBe32 s.needHeader.toNat ++ putBe32 s.overflow ++ putBe32 s.inSize ++ putBe32 s.inChannel ++
    putBe32 (versionCode s.version) ++ s.header.save ++ s.payload.save ++
    putBe32 (maxSerialPayload + 1) ++ s.data0

/-- `qemud_serial_load`. -/
def load (s : QemudSerial) (f : List UInt8) : Except Int (QemudSerial × List UInt8) :=
  let (needHeader, f) := getBe32 f
  let (overflow, f) := getBe32 f
  let (inSize, f) := getBe32 f
  let (inChannel, f) := getBe32 f
  let (version, f) := getBe32 f
  let (header, f) := QemudSink.load f
  let (payload, f) := QemudSink.load f
  let (len, f) := getBe32 f
  if (maxSerialPayload : Int) < len - 1 then .error (-eio)
  else
    match getBuffer len f with
    | none => .error (-eio)
    | some (bytes, f) => .ok ({ s with
        needHeader := needHeader ≠ 0
        overflow
        inSize
        inChannel
        version := versionOfCode version
        header
        payload
        data0 := writeAt s.data0 0 bytes }, f)

theorem versionOfCode_versionCode (version : QemudVersion) :
    versionOfCode (versionCode version) = version := by
  cases version <;> rfl

theorem fitsInt_versionCode (version : QemudVersion) : FitsInt (versionCode version) := by
  cases version
  · exact fitsInt_natCast (n := 0) (by omega)
  · exact fitsInt_natCast (n := 1) (by omega)
  · exact fitsInt_natCast (n := 2) (by omega)

/-- What the fields of the port fit into. -/
structure Ranged (q : QemudSerial) : Prop where
  overflow : FitsInt q.overflow
  inSize : FitsInt q.inSize
  inChannel : FitsInt q.inChannel
  header : q.header.used < 2 ^ 31 ∧ q.header.size < 2 ^ 31
  payload : q.payload.used < 2 ^ 31 ∧ q.payload.size < 2 ^ 31

theorem load_save {q s : QemudSerial} (hq : q.Ranged)
    (hdata : q.data0.length = maxSerialPayload + 1) (hdata' : s.data0.length = maxSerialPayload + 1)
    (rest : List UInt8) : s.load (q.save ++ rest) = .ok ({ q with cs := s.cs }, rest) := by
  have hlen : FitsInt ((maxSerialPayload : Int) + 1) :=
    fitsInt_natCast (n := maxSerialPayload + 1) (by rw [maxSerialPayload]; omega)
  have hbuffer : getBuffer ((maxSerialPayload : Int) + 1) (q.data0 ++ rest) =
      some (q.data0, rest) := by
    have hread := getBuffer_append q.data0 rest
    rwa [hdata] at hread
  have hwrite : writeAt s.data0 0 q.data0 = q.data0 := by
    rw [writeAt, List.take_zero, List.nil_append, Nat.zero_add, hdata, ← hdata', List.drop_length,
      List.append_nil]
  have hflag : decide ((q.needHeader.toNat : Int) ≠ 0) = q.needHeader := by
    cases q.needHeader <;> rfl
  rw [save, load]
  simp only [List.append_assoc, getBe32_putBe32 (fitsInt_toNat _), getBe32_putBe32 hq.overflow,
    getBe32_putBe32 hq.inSize, getBe32_putBe32 hq.inChannel,
    getBe32_putBe32 (fitsInt_versionCode _), QemudSink.load_save hq.header.1 hq.header.2,
    QemudSink.load_save hq.payload.1 hq.payload.2, getBe32_putBe32 hlen, Int.add_sub_cancel,
    Int.lt_irrefl, if_false, hbuffer, hwrite, hflag, versionOfCode_versionCode]

end QemudSerial

namespace QemudMultiplexer

variable {ω δ : Type} (code : ServiceCode ω δ)

section Save

/-- `qemud_service_save`. -/
def serviceSave (data : δ) (sv : QemudService) : List UInt8 :=
  saveName sv.name ++ putBe32 sv.maxClients.toInt ++ putBe32 sv.numClients.toInt ++
    code.servSave sv.name data

/-- The framing configuration in `qemud_client_save`.  The payload buffer is written as it was
last, even if it was freed. -/
def framingSave (c : QemudClient ω) : List UInt8 :=
  putBe32 c.framing.toNat ++
    if c.framing then
      putBe32 c.needHeader.toNat ++ putBe32 frameHeaderSize ++ c.header0 ++ c.payload.save ++
        c.buff.takeD c.payload.size 0
    else []

/-- `qemud_client_save`, for a client with a service. -/
def clientSave (data : δ) (c : QemudClient ω) : List UInt8 :=
  match c.service with
  | none => []
  | some (name, opq) =>
    saveName name ++ putBe32 c.channel ++ code.clieSave name opq data ++ framingSave c

def noncontrol (m : QemudMultiplexer ω δ) : List (QemudClient ω) :=
  m.clients.filter fun c => 0 < c.channel

/-- `qemud_save`. -/
def save (m : QemudMultiplexer ω δ) : List UInt8 :=
  m.serial.save ++ putBe32 m.services.length ++ m.services.flatMap (serviceSave code m.data) ++
    putBe32 m.noncontrol.length ++ m.noncontrol.flatMap (clientSave code m.data)

end Save

section Load

/-- `qemud_service_load`. -/
def serviceLoad (f : List UInt8) (m : QemudMultiplexer ω δ) :
    Except Int (List UInt8 × QemudMultiplexer ω δ) := do
  let (name, f) ← (loadName f).elim (throw (-eio)) pure
  let _ ← (m.findService name).elim (throw (-eio)) pure
  let (maxClients, f) := getBe32 f
  let (numClients, f) := getBe32 f
  let m := m.setService name fun sv =>
    { sv with maxClients := .ofInt maxClients, numClients := .ofInt numClients }
  let (ret, data, f) := code.servLoad name f m.data
  if ret ≠ 0 then throw ret else return (f, { m with data })

/-- The loop of `qemud_load_services`. -/
def loadServices : Nat → List UInt8 → QemudMultiplexer ω δ →
    Except Int (List UInt8 × QemudMultiplexer ω δ)
  | 0, f, m => return (f, m)
  | n + 1, f, m => do
    let (f, m) ← m.serviceLoad code f
    loadServices n f m

/-- `qemud_multiplexer_disconnect_noncontrol`. -/
def disconnectNoncontrol (m : QemudMultiplexer ω δ) : QemudMultiplexer ω δ :=
  m.noncontrol.foldl (fun m c => m.disconnect code { c with channel := -1 }) m

/-- The framing configuration in `qemud_client_load`. -/
def framingLoad (f : List UInt8) (c : QemudClient ω) :
    Except Int (List UInt8 × QemudClient ω) := do
  let (framing, f) := getBe32 f
  let c := { c with framing := framing ≠ 0 }
  if framing = 0 then return (f, c)
  else
    let (needHeader, f) := getBe32 f
    let (headerSize, f) := getBe32 f
    if (frameHeaderSize : Int) < headerSize then throw (-eio)
    else
      let (header0, f) ← (getBuffer headerSize f).elim (throw (-eio)) pure
      let (payload, f) := QemudSink.load f
      let (bytes, f) ← (getBuffer payload.size f).elim (throw (-eio)) pure
      return (f, { c with
        needHeader := needHeader ≠ 0
        header0 := writeAt c.header0 0 header0
        payload
        buff := bytes ++ [0] })

/-- What a client that is connected again reads: `none` if it was freed. -/
def clientRestore (id : Nat) (f : List UInt8) (m : QemudMultiplexer ω δ) :
    ExceptT Int Option (List UInt8 × QemudMultiplexer ω δ) := do
  let c ← ExceptT.lift (m.client id)
  let (ret, service, data, f) := match c.service with
    | none => (0, none, m.data, f)
    | some (name, opq) =>
      let (ret, opq, data, f) := code.clieLoad name f opq m.data
      (ret, some (name, opq), data, f)
  if ret ≠ 0 then throw ret
  else
    let (f, c) ← ExceptT.mk (some (framingLoad f { c with service }))
    return (f, { m with data }.setClient c)

/-- `qemud_client_load`. -/
def clientLoad (f : List UInt8) (m : QemudMultiplexer ω δ) :
    ExceptT Int Option (List UInt8 × QemudMultiplexer ω δ) := do
  let (name, f) ← (loadName f).elim (throw (-eio)) pure
  let _ ← (m.findService name).elim (throw (-eio)) pure
  let (channel, f) := getBe32 f
  if channel = 0 then throw (-eio)
  else
    let (client, m) ← ExceptT.lift (m.connectClient code name channel)
    match client with
    | none => throw (-eio)
    | some id => m.clientRestore code id f

/-- The loop of `qemud_load_clients`. -/
def loadClients : Nat → List UInt8 → QemudMultiplexer ω δ →
    ExceptT Int Option (List UInt8 × QemudMultiplexer ω δ)
  | 0, f, m => return (f, m)
  | n + 1, f, m => do
    let (f, m) ← m.clientLoad code f
    loadClients n f m

/-- `qemud_load`: an error code if it is not 0, and `none` if it uses a freed client. -/
def load (version : Int) (f : List UInt8) (m : QemudMultiplexer ω δ) :
    ExceptT Int Option (QemudMultiplexer ω δ) := do
  if version ≠ qemudSaveVersion then throw (-1)
  else
    let (serial, f) ← ExceptT.mk (some (m.serial.load f))
    let (serviceCount, f) := getBe32 f
    let (f, m) ← ExceptT.mk (some (loadServices code serviceCount.toNat f { m with serial }))
    let (clientCount, f) := getBe32 f
    let (_, m) ← loadClients code clientCount.toNat f (m.disconnectNoncontrol code)
    return m

end Load

end QemudMultiplexer

end M2M.Qemud
