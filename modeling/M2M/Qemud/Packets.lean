import Mathlib.Data.List.Induction
import M2M.Qemud.Serial

/-! The serial port reads a stream byte by byte, however it is cut, and a packet is delivered
when its last byte is read. -/

open M2M.Lib

namespace M2M.Qemud

section Buffers

variable {buff p p' : List UInt8} {i : Nat}

@[simp] theorem length_writeAt (h : i + p.length ≤ buff.length) :
    (writeAt buff i p).length = buff.length := by
  simp [writeAt]
  omega

@[simp] theorem writeAt_nil (buff : List UInt8) (i : Nat) : writeAt buff i [] = buff := by
  simp [writeAt]

theorem writeAt_append (h : i + p.length ≤ buff.length) :
    writeAt (writeAt buff i p) (i + p.length) p' = writeAt buff i (p ++ p') := by
  have htake : (writeAt buff i p).take (i + p.length) = buff.take i ++ p := by
    rw [writeAt]
    exact List.take_left' (by simp; omega)
  have hdrop : (writeAt buff i p).drop (i + p.length + p'.length) =
      buff.drop (i + p.length + p'.length) := by
    rw [writeAt, Nat.add_assoc, ← Nat.add_assoc, ← List.drop_drop]
    rw [List.drop_left' (by simp; omega), List.drop_drop]
  rw [writeAt, htake, hdrop, writeAt]
  simp only [List.length_append, List.append_assoc, Nat.add_assoc]

theorem take_writeAt (h : i ≤ buff.length) : (writeAt buff i p).take i = buff.take i := by
  rw [writeAt, List.append_assoc, List.take_left' (List.length_take_of_le h)]

theorem sinkFill_eq {ss : QemudSink} (h : ss.used < ss.size) (buff msg : List UInt8) :
    sinkFill ss buff msg =
      ⟨ss.used + (msg.take ss.needed).length = ss.size,
        { ss with used := ss.used + (msg.take ss.needed).length },
        writeAt buff ss.used (msg.take ss.needed), msg.drop ss.needed⟩ := by
  have htake : msg.take (min ss.needed msg.length) = msg.take ss.needed := by
    rw [List.take_eq_take_iff]
    omega
  have hdrop : msg.drop (min ss.needed msg.length) = msg.drop ss.needed := by
    rw [List.drop_eq_drop_iff]
    omega
  have hneed : ¬ss.needed = 0 := Nat.sub_ne_zero_of_lt h
  rw [sinkFill, if_neg hneed]
  dsimp only
  rw [List.length_take, htake, hdrop]

theorem length_take_needed (ss : QemudSink) (msg : List UInt8) (h : ss.used < ss.size) :
    ss.used + (msg.take ss.needed).length = ss.size ∨
      ss.used + (msg.take ss.needed).length < ss.size ∧ msg.take ss.needed = msg ∧
        msg.drop ss.needed = [] := by
  have hneeded : ss.needed = ss.size - ss.used := rfl
  rw [List.length_take]
  by_cases hle : ss.needed ≤ msg.length
  · left
    omega
  · exact .inr ⟨by omega, List.take_of_length_le (by omega), List.drop_of_length_le (by omega)⟩

end Buffers

namespace QemudSerial

variable {q : QemudSerial} {p : List UInt8}

def payloads : Nat → List UInt8 → List (List UInt8)
  | 0, _ => []
  | n + 1, msg =>
    if msg.length = 0 then []
    else msg.take maxSerialPayload :: payloads n (msg.drop maxSerialPayload)

theorem payloads_succ (n : Nat) (msg : List UInt8) : payloads (n + 1) msg =
    if msg.length = 0 then []
    else msg.take maxSerialPayload :: payloads n (msg.drop maxSerialPayload) := rfl

/-- A packet on the serial port. -/
def packet (version : QemudVersion) (channel : Nat) (payload : List UInt8) : List UInt8 :=
  packetHeader version channel payload.length ++ payload

def framed (framing : Bool) (msg : List UInt8) : List UInt8 :=
  if framing then int2hex frameHeaderSize msg.length ++ msg else msg

/-- What is written for a message that is not empty. -/
def encode (version : QemudVersion) (channel : Nat) (framing : Bool) (msg : List UInt8) :
    List UInt8 :=
  (payloads (framed framing msg).length (framed framing msg)).flatMap (packet version channel)

theorem write_write (q : QemudSerial) (p p' : List UInt8) :
    (q.write p).write p' = q.write (p ++ p') := by
  rw [write, write, write, List.append_assoc]

theorem sendPackets_eq (channel n : Nat) (msg : List UInt8) (q : QemudSerial) :
    q.sendPackets channel n false msg =
      q.write ((payloads n msg).flatMap (packet q.version channel)) := by
  induction n generalizing msg q with
  | zero => simp [sendPackets, payloads, write]
  | succ n ih =>
    rw [sendPackets, payloads_succ]
    by_cases hempty : msg.length = 0
    · simp [hempty, write]
    · have htake : msg.take (min msg.length maxSerialPayload) = msg.take maxSerialPayload := by
        rw [List.take_eq_take_iff]
        omega
      have hdrop : msg.drop (min msg.length maxSerialPayload) = msg.drop maxSerialPayload := by
        rw [List.drop_eq_drop_iff]
        omega
      simp only [Bool.false_eq_true, if_false, if_neg hempty, List.length_nil, Nat.sub_zero,
        List.flatMap_cons]
      rw [ih, htake, hdrop, packet, List.length_take, Nat.min_comm]
      simp only [write, List.append_assoc, List.append_nil]

theorem sendPackets_framed (channel n : Nat) {msg : List UInt8} (q : QemudSerial) :
    q.sendPackets channel (n + 1) true msg =
      q.write ((payloads (n + 1) (framed true msg)).flatMap (packet q.version channel)) := by
  have hheader := length_int2hex frameHeaderSize msg.length
  have hlen : (framed true msg).length = msg.length + frameHeaderSize := by
    rw [framed, if_pos rfl, List.length_append, hheader, Nat.add_comm]
  have hsub : min (msg.length + frameHeaderSize) maxSerialPayload - frameHeaderSize =
      min msg.length (maxSerialPayload - frameHeaderSize) := by
    simp only [frameHeaderSize, maxSerialPayload]
    omega
  have htake : (framed true msg).take maxSerialPayload = int2hex frameHeaderSize msg.length ++
      msg.take (maxSerialPayload - frameHeaderSize) := by
    rw [framed, if_pos rfl, List.take_append, hheader,
      List.take_of_length_le (by rw [hheader]; decide)]
  have hdrop : (framed true msg).drop maxSerialPayload =
      msg.drop (maxSerialPayload - frameHeaderSize) := by
    rw [framed, if_pos rfl, List.drop_append, hheader,
      List.drop_of_length_le (by rw [hheader]; decide),
      List.nil_append]
  have htake' : msg.take (min msg.length (maxSerialPayload - frameHeaderSize)) =
      msg.take (maxSerialPayload - frameHeaderSize) := by
    rw [List.take_eq_take_iff]
    omega
  have hdrop' : msg.drop (min msg.length (maxSerialPayload - frameHeaderSize)) =
      msg.drop (maxSerialPayload - frameHeaderSize) := by
    rw [List.drop_eq_drop_iff]
    omega
  have hsize : ((framed true msg).take maxSerialPayload).length =
      min (msg.length + frameHeaderSize) maxSerialPayload := by
    rw [List.length_take, hlen, Nat.min_comm]
  have hpayloads : payloads (n + 1) (framed true msg) = (framed true msg).take maxSerialPayload ::
      payloads n ((framed true msg).drop maxSerialPayload) := by
    rw [payloads_succ, if_neg (by rw [hlen]; exact Nat.succ_ne_zero _)]
  rw [hpayloads, List.flatMap_cons, packet, hsize, hdrop, htake, sendPackets]
  simp only [if_true, hheader, hsub, htake', hdrop']
  rw [if_neg (by exact Nat.succ_ne_zero _), sendPackets_eq]
  simp only [write, List.append_assoc]

theorem payloads_eq {n n' : Nat} {msg : List UInt8} (h : msg.length ≤ n * maxSerialPayload)
    (h' : msg.length ≤ n' * maxSerialPayload) : payloads n msg = payloads n' msg := by
  induction n generalizing n' msg with
  | zero =>
    obtain rfl := List.length_eq_zero_iff.mp (Nat.le_zero.mp (Nat.zero_mul _ ▸ h))
    cases n' <;> rfl
  | succ n ih =>
    cases n' with
    | zero =>
      obtain rfl := List.length_eq_zero_iff.mp (Nat.le_zero.mp (Nat.zero_mul _ ▸ h'))
      rfl
    | succ n' =>
      rw [payloads_succ, payloads_succ]
      split
      · rfl
      · rw [Nat.succ_mul] at h h'
        have hdrop : (msg.drop maxSerialPayload).length = msg.length - maxSerialPayload :=
          List.length_drop ..
        rw [@ih n' _ (by omega) (by omega)]

theorem flatten_payloads {n : Nat} {msg : List UInt8} (h : msg.length ≤ n * maxSerialPayload) :
    (payloads n msg).flatten = msg := by
  induction n generalizing msg with
  | zero => exact (List.length_eq_zero_iff.mp (Nat.le_zero.mp (Nat.zero_mul _ ▸ h))).symm
  | succ n ih =>
    rw [payloads_succ]
    split
    · next hempty => exact (List.length_eq_zero_iff.mp hempty).symm
    · rw [Nat.succ_mul] at h
      rw [List.flatten_cons, ih (by rw [List.length_drop]; omega), List.take_append_drop]

theorem mem_payloads {n : Nat} {msg payload : List UInt8} (h : payload ∈ payloads n msg) :
    payload ≠ [] ∧ payload.length ≤ maxSerialPayload := by
  induction n generalizing msg with
  | zero => cases h
  | succ n ih =>
    rw [payloads_succ] at h
    split at h
    · cases h
    · next hne =>
      rcases List.mem_cons.mp h with rfl | h
      · refine ⟨fun hnil => ?_, List.length_take_le ..⟩
        rcases List.take_eq_nil_iff.mp hnil with hzero | hempty
        · cases hzero
        · exact hne (hempty ▸ rfl)
      · exact ih h

theorem send_eq (q : QemudSerial) (channel : Nat) (framing : Bool) {msg : List UInt8}
    (hmsg : msg ≠ []) :
    q.send channel framing msg = q.write (encode q.version channel framing msg) := by
  have hpos : 0 < msg.length := List.length_pos_iff.mpr hmsg
  have hlen : (framed framing msg).length ≤ msg.length + frameHeaderSize := by
    rw [framed]
    split
    · rw [List.length_append, length_int2hex, Nat.add_comm]
    · exact Nat.le_add_right _ _
  have hrounds : payloads msg.length (framed framing msg) =
      payloads (framed framing msg).length (framed framing msg) :=
    payloads_eq (hlen.trans (by simp only [frameHeaderSize, maxSerialPayload]; omega))
      (Nat.le_mul_of_pos_right _ (by decide))
  rw [send, if_neg (by omega), encode, ← hrounds, Int.toNat_natCast]
  cases framing with
  | false => exact sendPackets_eq ..
  | true =>
    obtain ⟨n, hn⟩ := Nat.exists_eq_succ_of_ne_zero (Nat.pos_iff_ne_zero.mp hpos)
    rw [hn]
    exact sendPackets_framed channel n q

theorem exists_send_eq_write (q : QemudSerial) (channel : Int) (framing : Bool) (msg : List UInt8) :
    ∃ bytes, q.send channel framing msg = q.write bytes := by
  by_cases h : msg.length = 0 ∨ channel < 0
  · refine ⟨[], ?_⟩
    rw [send, if_pos h, write, List.append_nil]
  · rw [not_or, Int.not_lt] at h
    obtain ⟨n, rfl⟩ := Int.eq_ofNat_of_zero_le h.2
    exact ⟨_, q.send_eq n framing fun hnil => h.1 (hnil ▸ rfl)⟩

/-- The header sink is not full, and `data0` has room for a payload and a zero. -/
structure Sized (q : QemudSerial) : Prop where
  headerSize : q.header.size = Qemud.headerSize
  headerUsed : q.header.used < Qemud.headerSize
  data0 : q.data0.length = maxSerialPayload + 1

/-- The state of the port between two bytes. -/
structure Valid (q : QemudSerial) : Prop extends Sized q where
  payloadUsed : q.needHeader = false → q.payload.used < q.payload.size
  payloadSize : q.needHeader = false → q.payload.size ≤ maxSerialPayload

def fillHeader (q : QemudSerial) (bytes : List UInt8) : QemudSerial :=
  { q with
    header := { q.header with used := q.header.used + bytes.length }
    data0 := writeAt q.data0 q.header.used bytes }

def terminated (q : QemudSerial) : QemudSerial :=
  { q with data0 := writeAt q.data0 q.payload.size [0] }

def fillPayload (q : QemudSerial) (bytes : List UInt8) : QemudSerial :=
  { q with
    payload := { q.payload with used := q.payload.used + bytes.length }
    data0 := writeAt q.data0 q.payload.used bytes }

theorem Valid.fillHeader_append (hq : q.Valid) (h : q.header.used + p.length < q.header.size)
    (p' : List UInt8) : (q.fillHeader p).fillHeader p' = q.fillHeader (p ++ p') := by
  have hle : q.header.used + p.length ≤ q.data0.length := by
    have hsize := hq.headerSize
    have hdata := hq.data0
    simp only [Qemud.headerSize, maxSerialPayload] at hsize hdata
    omega
  simp only [fillHeader, writeAt_append hle, List.length_append, Nat.add_assoc]

theorem Valid.fillPayload_append (hq : q.Valid) (hneed : q.needHeader = false)
    (h : q.payload.used + p.length < q.payload.size) (p' : List UInt8) :
    (q.fillPayload p).fillPayload p' = q.fillPayload (p ++ p') := by
  have hle : q.payload.used + p.length ≤ q.data0.length := by
    have hsize := hq.payloadSize hneed
    have hdata := hq.data0
    omega
  simp only [fillPayload, writeAt_append hle, List.length_append, Nat.add_assoc]

/-- The port between two packets. -/
structure Idle (q : QemudSerial) : Prop extends Valid q where
  needHeader : q.needHeader
  overflow : ¬0 < q.overflow
  headerEmpty : q.header.used = 0

theorem idle_init : init.Idle :=
  ⟨⟨⟨rfl, Nat.succ_pos _, List.length_replicate ..⟩, nofun, nofun⟩, rfl, Int.lt_irrefl 0, rfl⟩

/-- The size that a header announces. -/
def announced (version : QemudVersion) (header : List UInt8) : Int :=
  match version with
  | .legacy => hex2int ((header.drop 0).take 4)
  | _ => hex2int ((header.drop 2).take 4)

/-- The channel that a header is addressed to. -/
def addressed (version : QemudVersion) (header : List UInt8) : Int :=
  match version with
  | .legacy => hex2int ((header.drop 4).take 2)
  | _ => hex2int ((header.drop 0).take 2)

section Headers

variable {header : List UInt8} (hlength : header.length = Qemud.headerSize)

theorem announced_packetHeader (version : QemudVersion) (channel : Nat) {size : Nat}
    (hsize : size ≤ maxSerialPayload) :
    announced version (packetHeader version channel size) = size := by
  have hsize' : size < 16 ^ 4 := Nat.lt_of_le_of_lt hsize (by decide)
  have hchannel : (int2hex 2 channel).length = 2 := length_int2hex ..
  have hlength : (int2hex 4 size).length = 4 := length_int2hex ..
  have hnormal : hex2int (((int2hex 2 channel ++ int2hex 4 size).drop 2).take 4) = size := by
    rw [List.drop_left' hchannel, List.take_of_length_le hlength.le, hex2int_int2hex hsize']
  cases version with
  | legacy =>
    rw [announced, packetHeader, List.drop_zero, List.take_left' hlength, hex2int_int2hex hsize']
  | unknown => exact hnormal
  | normal => exact hnormal

theorem addressed_packetHeader (version : QemudVersion) {channel : Nat} (size : Nat)
    (hchannel : channel < 256) :
    addressed version (packetHeader version channel size) = channel := by
  have hchannel' : (int2hex 2 channel).length = 2 := length_int2hex ..
  have hlength : (int2hex 4 size).length = 4 := length_int2hex ..
  have hnormal : hex2int (((int2hex 2 channel ++ int2hex 4 size).drop 0).take 2) = channel := by
    rw [List.drop_zero, List.take_left' hchannel', hex2int_int2hex hchannel]
  cases version with
  | legacy =>
    rw [addressed, packetHeader, List.drop_left' hlength, List.take_of_length_le hchannel'.le,
      hex2int_int2hex hchannel]
  | unknown => exact hnormal
  | normal => exact hnormal

theorem length_packetHeader (version : QemudVersion) (channel size : Nat) :
    (packetHeader version channel size).length = Qemud.headerSize := by
  cases version <;> simp [packetHeader, Qemud.headerSize]

include hlength

theorem field_writeAt (buff : List UInt8) {i n : Nat} (h : i + n ≤ Qemud.headerSize) :
    ((writeAt buff 0 header).drop i).take n = (header.drop i).take n := by
  have hi : i ≤ header.length := by omega
  have hn : n ≤ (header.drop i).length := by
    rw [List.length_drop]
    omega
  rw [writeAt, List.take_zero, List.nil_append, List.drop_append_of_le_length hi,
    List.take_append_of_le_length hn]

theorem parseHeader_eq (hq : q.Idle) (hversion : q.version ≠ .unknown) :
    (q.fillHeader header).parseHeader =
      { q with
        inSize := announced q.version header
        inChannel := addressed q.version header
        data0 := writeAt q.data0 0 header } := by
  have hheader : ({ q.header with used := 0 } : QemudSink) = q.header := by
    rw [← hq.headerEmpty]
  have hfield := @field_writeAt header hlength q.data0
  simp only [parseHeader, fillHeader, hq.headerEmpty, detectVersion]
  cases hv : q.version with
  | unknown => exact absurd hv hversion
  | legacy =>
    simp only [hfield (i := 0) (n := 4) (by decide), hfield (i := 4) (n := 2) (by decide), hheader]
    rfl
  | normal =>
    simp only [hfield (i := 2) (n := 4) (by decide), hfield (i := 0) (n := 2) (by decide), hheader]
    rfl

theorem afterHeader_good (hq : q.Idle) (hversion : q.version ≠ .unknown) {size : Nat}
    (hchannel : 0 ≤ addressed q.version header) (hannounced : announced q.version header = size)
    (hpos : 0 < size) (hsize : size ≤ maxSerialPayload) :
    (q.fillHeader header).afterHeader =
      { q with
        needHeader := false
        inChannel := addressed q.version header
        inSize := size
        payload := ⟨0, size⟩
        data0 := writeAt q.data0 0 header } := by
  have hgood : ¬(announced q.version header ≤ 0 ∨ addressed q.version header < 0) := by
    omega
  have hfits : ¬(maxSerialPayload : Int) < announced q.version header := by
    omega
  rw [afterHeader, parseHeader_eq hlength hq hversion]
  dsimp only
  rw [if_neg hgood, if_neg hfits, hannounced, Int.toNat_natCast]

end Headers

def headerByte (q : QemudSerial) (b : UInt8) : QemudSerial :=
  if q.header.used + 1 = q.header.size then (q.fillHeader [b]).afterHeader else q.fillHeader [b]

theorem Valid.afterHeader (hsize : q.header.size = Qemud.headerSize)
    (hdata : q.data0.length = maxSerialPayload + 1) (hneed : q.needHeader) :
    q.afterHeader.Valid := by
  rw [QemudSerial.afterHeader]
  have hparse : q.parseHeader.Valid :=
    ⟨⟨hsize, Nat.succ_pos _, hdata⟩, fun h => (nomatch hneed.symm.trans h),
      fun h => (nomatch hneed.symm.trans h)⟩
  split
  · exact hparse
  · next hgood =>
    rw [not_or, Int.not_le, Int.not_lt] at hgood
    split
    · exact ⟨⟨hsize, Nat.succ_pos _, hdata⟩, hparse.payloadUsed, hparse.payloadSize⟩
    · next hfits =>
      refine ⟨⟨hsize, Nat.succ_pos _, hdata⟩, fun _ => ?_, fun _ => ?_⟩
      · exact Int.lt_toNat.mpr hgood.1
      · exact Int.toNat_le.mpr (Int.not_lt.mp hfits)

theorem Valid.fullHeader (hq : q.Valid) (hneed : q.needHeader)
    (hle : q.header.used + p.length ≤ q.header.size) : (q.fillHeader p).afterHeader.Valid := by
  have hdata : (writeAt q.data0 q.header.used p).length = q.data0.length := by
    refine length_writeAt (hle.trans ?_)
    rw [hq.headerSize, hq.data0]
    decide
  exact .afterHeader hq.headerSize (hdata.trans hq.data0) hneed

theorem overflow_afterHeader (hneed : q.needHeader) (hafter : q.afterHeader.needHeader = false) :
    q.afterHeader.overflow = q.overflow := by
  rw [QemudSerial.afterHeader] at hafter ⊢
  split
  · rfl
  · next hgood =>
    rw [if_neg hgood] at hafter
    split
    · next hhuge =>
      rw [if_pos hhuge] at hafter
      cases hneed.symm.trans hafter
    · rfl

theorem Valid.headerByte (hq : q.Valid) (hneed : q.needHeader) (b : UInt8) :
    (q.headerByte b).Valid := by
  have hlt : q.header.used + 1 ≤ q.header.size := hq.headerSize ▸ hq.headerUsed
  rw [QemudSerial.headerByte]
  split
  · exact hq.fullHeader (p := [b]) hneed hlt
  · next hne =>
    have hdata : (writeAt q.data0 q.header.used [b]).length = q.data0.length := by
      refine length_writeAt (hlt.trans ?_)
      rw [hq.headerSize, hq.data0]
      decide
    exact ⟨⟨hq.headerSize, Nat.lt_of_le_of_ne hq.headerUsed (hq.headerSize ▸ hne),
      hdata.trans hq.data0⟩, hq.payloadUsed, hq.payloadSize⟩

theorem Valid.sized_fillPayload (hq : q.Valid) (hneed : q.needHeader = false)
    (hle : q.payload.used + p.length ≤ q.payload.size) : (q.fillPayload p).Sized := by
  have hdata : (writeAt q.data0 q.payload.used p).length = q.data0.length := by
    refine length_writeAt (hle.trans ((hq.payloadSize hneed).trans ?_))
    rw [hq.data0]
    exact Nat.le_succ _
  exact ⟨hq.headerSize, hq.headerUsed, hdata.trans hq.data0⟩

end QemudSerial

namespace Receiver

variable {σ : Type} (r : Receiver σ) {s s' : σ} {q : QemudSerial} {p : List UInt8}

def readByte (s : σ) (b : UInt8) : Option σ :=
  let q := r.serial s
  if 0 < q.overflow then some s
  else if q.needHeader then some (r.setSerial (q.headerByte b) s)
  else if q.payload.used + 1 = q.payload.size then r.deliver (q.fillPayload [b]) s
  else some (r.setSerial (q.fillPayload [b]) s)

theorem deliver_setSerial (q q' : QemudSerial) (s : σ) :
    r.deliver q (r.setSerial q' s) = r.deliver q s := by
  rw [deliver, deliver]
  simp only [r.setSerial_setSerial]

theorem readByte_header (hover : ¬0 < q.overflow) (hneed : q.needHeader) (s : σ) (b : UInt8) :
    r.readByte (r.setSerial q s) b = some (r.setSerial (q.headerByte b) s) := by
  rw [readByte, r.serial_setSerial]
  rw [if_neg hover, if_pos hneed, r.setSerial_setSerial]

theorem readByte_payload (hover : ¬0 < q.overflow) (hneed : q.needHeader = false) (s : σ)
    (b : UInt8) : r.readByte (r.setSerial q s) b =
      if q.payload.used + 1 = q.payload.size then r.deliver (q.fillPayload [b]) s
      else some (r.setSerial (q.fillPayload [b]) s) := by
  rw [readByte, r.serial_setSerial]
  rw [if_neg hover, if_neg (by simp [hneed]), r.setSerial_setSerial, deliver_setSerial]

theorem readByte_overflow (h : 0 < (r.serial s).overflow) (b : UInt8) :
    r.readByte s b = some s := by
  rw [readByte, if_pos h]

theorem foldlM_overflow (h : 0 < (r.serial s).overflow) (p : List UInt8) :
    p.foldlM r.readByte s = some s := by
  induction p with
  | nil => rfl
  | cons b p ih =>
    rw [List.foldlM_cons, readByte_overflow r h]
    exact ih

theorem foldlM_header (hq : q.Valid) (hover : ¬0 < q.overflow) (hneed : q.needHeader)
    (hlt : q.header.used + p.length < q.header.size) :
    p.foldlM r.readByte (r.setSerial q s) = some (r.setSerial (q.fillHeader p) s) := by
  induction p using List.reverseRecOn with
  | nil => simp [QemudSerial.fillHeader]
  | append_singleton p b ih =>
    rw [List.length_append, List.length_singleton] at hlt
    have hne : ¬(q.fillHeader p).header.used + 1 = (q.fillHeader p).header.size :=
      Nat.ne_of_lt hlt
    rw [foldlM_concat_of (ih (by omega)), ← hq.fillHeader_append (by omega),
      r.readByte_header (q := q.fillHeader p) hover hneed]
    rw [QemudSerial.headerByte, if_neg hne]

theorem foldlM_fullHeader (hq : q.Valid) (hover : ¬0 < q.overflow) (hneed : q.needHeader)
    (heq : q.header.used + p.length = q.header.size) (hp : p ≠ []) :
    p.foldlM r.readByte (r.setSerial q s) =
      some (r.setSerial (q.fillHeader p).afterHeader s) := by
  obtain ⟨p, b, rfl⟩ : ∃ p' b, p = p' ++ [b] :=
    ⟨p.dropLast, p.getLast hp, (List.dropLast_append_getLast hp).symm⟩
  rw [List.length_append, List.length_singleton] at heq
  have hlast : (q.fillHeader p).header.used + 1 = (q.fillHeader p).header.size := heq
  rw [foldlM_concat_of (r.foldlM_header hq hover hneed (by omega)),
    ← hq.fillHeader_append (by omega), r.readByte_header (q := q.fillHeader p) hover hneed]
  rw [QemudSerial.headerByte, if_pos hlast]

theorem foldlM_payload (hq : q.Valid) (hover : ¬0 < q.overflow) (hneed : q.needHeader = false)
    (hlt : q.payload.used + p.length < q.payload.size) :
    p.foldlM r.readByte (r.setSerial q s) = some (r.setSerial (q.fillPayload p) s) := by
  induction p using List.reverseRecOn with
  | nil => simp [QemudSerial.fillPayload]
  | append_singleton p b ih =>
    rw [List.length_append, List.length_singleton] at hlt
    have hne : ¬(q.fillPayload p).payload.used + 1 = (q.fillPayload p).payload.size :=
      Nat.ne_of_lt hlt
    rw [foldlM_concat_of (ih (by omega)), ← hq.fillPayload_append hneed (by omega),
      r.readByte_payload (q := q.fillPayload p) hover hneed, if_neg hne]

theorem foldlM_fullPayload (hq : q.Valid) (hover : ¬0 < q.overflow) (hneed : q.needHeader = false)
    (heq : q.payload.used + p.length = q.payload.size) :
    p.foldlM r.readByte (r.setSerial q s) = r.deliver (q.fillPayload p) s := by
  have hp : p ≠ [] := by
    rintro rfl
    exact Nat.ne_of_lt (hq.payloadUsed hneed) heq
  obtain ⟨p, b, rfl⟩ : ∃ p' b, p = p' ++ [b] :=
    ⟨p.dropLast, p.getLast hp, (List.dropLast_append_getLast hp).symm⟩
  rw [List.length_append, List.length_singleton] at heq
  have hlast : (q.fillPayload p).payload.used + 1 = (q.fillPayload p).payload.size := heq
  rw [foldlM_concat_of (r.foldlM_payload hq hover hneed (by omega)),
    ← hq.fillPayload_append hneed (by omega),
    r.readByte_payload (q := q.fillPayload p) hover hneed, if_pos hlast]

/-- What follows a delivery. -/
def done (s : σ) : σ := r.setSerial { r.serial s with needHeader := true } s

theorem deliver_eq (q : QemudSerial) (s : σ) : r.deliver q s =
    (r.recvFunc q.inChannel (q.terminated.data0.take q.payload.size)
      (r.setSerial q.terminated s)).map r.done := by
  rw [deliver, Option.map_eq_bind]
  rfl

theorem valid_deliver (hq : q.Sized) (hsize : q.payload.size ≤ maxSerialPayload)
    (h : r.deliver q s = some s') : (r.serial s').Valid := by
  rw [deliver] at h
  obtain ⟨s₁, hrecv, hs'⟩ := Option.bind_eq_some_iff.mp h
  cases hs'
  obtain ⟨hsame, hlength⟩ := r.sameReading _ _ _ _ hrecv
  rw [r.serial_setSerial] at hsame hlength
  rw [r.serial_setSerial]
  have hheader : (r.serial s₁).header = q.header := by rw [hsame]
  have hdata : (r.serial s₁).data0.length = q.data0.length := by
    rw [hlength]
    exact length_writeAt (by rw [hq.data0]; exact Nat.succ_le_succ hsize)
  exact ⟨⟨hheader ▸ hq.headerSize, hheader ▸ hq.headerUsed, hdata.trans hq.data0⟩,
    fun h => (nomatch h), fun h => (nomatch h)⟩

theorem valid_readByte (hs : (r.serial s).Valid) (b : UInt8) (h : r.readByte s b = some s') :
    (r.serial s').Valid := by
  rw [readByte] at h
  split at h
  · cases h
    exact hs
  · split at h
    · next hneed =>
      cases h
      rw [r.serial_setSerial]
      exact hs.headerByte hneed b
    · next hneed =>
      have hneed : (r.serial s).needHeader = false := by simpa using hneed
      have hlt := hs.payloadUsed hneed
      split at h
      · next hlast =>
        exact r.valid_deliver (hs.sized_fillPayload (p := [b]) hneed hlt) (hs.payloadSize hneed) h
      · next hmore =>
        cases h
        rw [r.serial_setSerial]
        exact ⟨hs.sized_fillPayload (p := [b]) hneed hlt, fun _ => Nat.lt_of_le_of_ne hlt hmore,
          hs.payloadSize⟩

theorem readPayload_eq (hq : q.Valid) (hover : ¬0 < q.overflow) (hneed : q.needHeader = false)
    (s : σ) (msg : List UInt8) : r.readPayload q s msg =
      ((msg.take q.payload.needed).foldlM r.readByte (r.setSerial q s)).map
        fun s' => (s', msg.drop q.payload.needed) := by
  have hlt := hq.payloadUsed hneed
  rw [readPayload, sinkFill_eq hlt]
  rcases length_take_needed q.payload msg hlt with hlast | ⟨hmore, hall, -⟩
  · rw [r.foldlM_fullPayload hq hover hneed hlast, decide_eq_true hlast]
    change (r.deliver (q.fillPayload _) s).bind _ = _
    cases r.deliver (q.fillPayload (msg.take q.payload.needed)) s <;> rfl
  · rw [hall] at hmore ⊢
    rw [r.foldlM_payload hq hover hneed hmore, decide_eq_false (Nat.ne_of_lt hmore)]
    rfl

theorem readRound_fullHeader (hs : (r.serial s).Valid) (hover : ¬0 < (r.serial s).overflow)
    (hneed : (r.serial s).needHeader) {msg front rest : List UInt8}
    (hfront : msg.take (r.serial s).header.needed = front)
    (hrest : msg.drop (r.serial s).header.needed = rest)
    (hlast : (r.serial s).header.used + front.length = (r.serial s).header.size)
    (hq : ((r.serial s).fillHeader front).afterHeader = q) :
    r.readRound s msg =
      if q.needHeader then some (r.setSerial q s, rest) else r.readPayload q s rest := by
  subst hq hfront hrest
  rw [readRound, if_neg hover, if_pos hneed, sinkFill_eq (hs.headerSize ▸ hs.headerUsed),
    decide_eq_true hlast]
  rfl

theorem readRound_header (hs : (r.serial s).Valid) (hover : ¬0 < (r.serial s).overflow)
    (hneed : (r.serial s).needHeader) {msg : List UInt8}
    (hall : msg.take (r.serial s).header.needed = msg)
    (hrest : msg.drop (r.serial s).header.needed = [])
    (hmore : (r.serial s).header.used + msg.length < (r.serial s).header.size) :
    r.readRound s msg = some (r.setSerial ((r.serial s).fillHeader msg) s, []) := by
  rw [readRound, if_neg hover, if_pos hneed, sinkFill_eq (hs.headerSize ▸ hs.headerUsed), hall,
    hrest, decide_eq_false (Nat.ne_of_lt hmore)]
  rfl

theorem fullHeader_reads (hs : (r.serial s).Valid) (hover : ¬0 < (r.serial s).overflow)
    (hneed : (r.serial s).needHeader) {msg front rest : List UInt8} (hmsg : front ≠ [])
    (hfront : msg.take (r.serial s).header.needed = front)
    (hrest : msg.drop (r.serial s).header.needed = rest)
    (hlast : (r.serial s).header.used + front.length = (r.serial s).header.size) :
    RoundReads r.readRound r.readByte s msg := by
  have hround := r.readRound_fullHeader hs hover hneed hfront hrest hlast rfl
  have hheader := r.foldlM_fullHeader hs hover hneed hlast hmsg (s := s)
  have hvalid := hs.fullHeader hneed hlast.le
  have happend : msg = front ++ rest := by rw [← hfront, ← hrest, List.take_append_drop]
  rw [r.setSerial_serial] at hheader
  cases hbad : ((r.serial s).fillHeader front).afterHeader.needHeader with
  | true =>
    refine ⟨front, rest, hmsg, happend, ?_⟩
    rw [hround, if_pos hbad, hheader]
    rfl
  | false =>
    have hover' : ¬0 < ((r.serial s).fillHeader front).afterHeader.overflow := by
      rw [QemudSerial.overflow_afterHeader (q := (r.serial s).fillHeader front) hneed hbad]
      exact hover
    have hpayload := r.readPayload_eq hvalid hover' hbad s rest
    generalize ((r.serial s).fillHeader front).afterHeader.payload.needed = n at hpayload
    refine ⟨front ++ rest.take n, rest.drop n,
      fun hnil => hmsg (List.append_eq_nil_iff.mp hnil).1, ?_, ?_⟩
    · rw [List.append_assoc, List.take_append_drop, ← happend]
    · rw [hround, if_neg (by simp [hbad]), hpayload, List.foldlM_append, hheader]
      rfl

theorem readRound_reads (hs : (r.serial s).Valid) {msg : List UInt8} (hmsg : msg ≠ []) :
    RoundReads r.readRound r.readByte s msg := by
  have hfront : ∀ {n}, n ≠ 0 → msg.take n ≠ [] := fun hn hnil =>
    (List.take_eq_nil_iff.mp hnil).elim hn hmsg
  by_cases hover : 0 < (r.serial s).overflow
  · refine ⟨msg.take (r.serial s).overflow.toNat, msg.drop (r.serial s).overflow.toNat, hfront ?_,
      (List.take_append_drop ..).symm, ?_⟩
    · exact fun hzero => absurd hover (Int.not_lt.mpr (Int.toNat_eq_zero.mp hzero))
    · rw [readRound, if_pos hover, r.foldlM_overflow hover]
      rfl
  · by_cases hneed : (r.serial s).needHeader = true
    · have hlt : (r.serial s).header.used < (r.serial s).header.size :=
        hs.headerSize ▸ hs.headerUsed
      rcases length_take_needed _ msg hlt with hlast | ⟨hmore, hall, hrest⟩
      · exact r.fullHeader_reads hs hover hneed (hfront (Nat.sub_ne_zero_of_lt hlt)) rfl rfl hlast
      · rw [hall] at hmore
        have hheader := r.foldlM_header hs hover hneed hmore (s := s)
        rw [r.setSerial_serial] at hheader
        refine ⟨msg, [], hmsg, (List.append_nil _).symm, ?_⟩
        rw [r.readRound_header hs hover hneed hall hrest hmore, hheader]
        rfl
    · have hneed' : (r.serial s).needHeader = false := (Bool.not_eq_true _).mp hneed
      refine ⟨msg.take (r.serial s).payload.needed, msg.drop (r.serial s).payload.needed,
        hfront (Nat.sub_ne_zero_of_lt (hs.payloadUsed hneed')), (List.take_append_drop ..).symm, ?_⟩
      rw [readRound, if_neg hover, if_neg hneed, r.readPayload_eq hs hover hneed',
        r.setSerial_serial]

theorem serialRead_chunks (hs : (r.serial s).Valid) (chunks : List (List UInt8)) :
    chunks.foldlM r.serialRead s = chunks.flatten.foldlM r.readByte s := by
  have hinv : ∀ s b s', (r.serial s).Valid → r.readByte s b = some s' → (r.serial s').Valid :=
    fun s b s' hs h => r.valid_readByte hs b h
  refine foldlM_chunks (fun s chunk hs => ?_) hinv hs chunks
  exact readAll_eq (fun s msg hs hmsg => r.readRound_reads hs hmsg) hinv hs chunk

theorem foldlM_goodHeader (hs : (r.serial s).Idle) (hversion : (r.serial s).version ≠ .unknown)
    {header payload : List UInt8} (hlength : header.length = headerSize)
    (hchannel : 0 ≤ QemudSerial.addressed (r.serial s).version header)
    (hannounced : QemudSerial.announced (r.serial s).version header = payload.length)
    (hpayload : payload ≠ []) (hsize : payload.length ≤ maxSerialPayload) :
    ∃ q, q.cs = (r.serial s).cs ∧ q.version = (r.serial s).version ∧
      (header ++ payload).foldlM r.readByte s =
        (r.recvFunc (QemudSerial.addressed (r.serial s).version header) payload
          (r.setSerial q s)).map r.done ∧
      ∀ s', r.recvFunc (QemudSerial.addressed (r.serial s).version header) payload
        (r.setSerial q s) = some s' → (r.serial (r.done s')).Idle := by
  generalize hch : QemudSerial.addressed (r.serial s).version header = channel at hchannel ⊢
  have hpos := List.length_pos_iff.mpr hpayload
  have hfull : (r.serial s).header.used + header.length = (r.serial s).header.size := by
    rw [hs.headerEmpty, hlength, hs.headerSize, Nat.zero_add]
  have hvalid := hs.fullHeader hs.needHeader hfull.le
  have hheader := r.foldlM_fullHeader hs.toValid hs.overflow hs.needHeader hfull
    (List.ne_nil_of_length_eq_add_one hlength) (s := s)
  rw [r.setSerial_serial] at hheader
  rw [QemudSerial.afterHeader_good hlength hs hversion (hch ▸ hchannel) hannounced hpos hsize, hch]
    at hheader hvalid
  obtain ⟨q, hq⟩ : ∃ q, q = { r.serial s with
      needHeader := false
      inChannel := channel
      inSize := payload.length
      payload := ⟨0, payload.length⟩
      data0 := writeAt (r.serial s).data0 0 header } := ⟨_, rfl⟩
  rw [← hq] at hheader hvalid
  have hneed : q.needHeader = false := by rw [hq]
  have hover : ¬0 < q.overflow := by
    rw [hq]
    exact hs.overflow
  have hpayload' : q.payload = ⟨0, payload.length⟩ := by rw [hq]
  have hlast : q.payload.used + payload.length = q.payload.size := by
    rw [hpayload', Nat.zero_add]
  have hroom : payload.length ≤ q.data0.length := by
    rw [hvalid.data0]
    exact Nat.le_succ_of_le hsize
  have hsized := hvalid.sized_fillPayload hneed hlast.le
  have hmsg : (q.fillPayload payload).terminated.data0.take (q.fillPayload payload).payload.size =
      payload := by
    have hdata : (q.fillPayload payload).data0 = writeAt q.data0 0 payload := by
      rw [QemudSerial.fillPayload, hpayload']
    have hsize' : (q.fillPayload payload).payload.size = payload.length := by
      rw [QemudSerial.fillPayload, hpayload']
    rw [hsize', QemudSerial.terminated, hsize']
    dsimp only
    rw [take_writeAt (by rw [hsized.data0]; exact Nat.le_succ_of_le hsize), hdata, writeAt,
      List.take_zero, List.nil_append, List.take_left' rfl]
  have hchannel' : (q.fillPayload payload).inChannel = channel := by
    rw [hq]
    rfl
  have hdeliver := r.deliver_eq (q.fillPayload payload) s
  rw [hmsg, hchannel'] at hdeliver
  refine ⟨(q.fillPayload payload).terminated, ?_, ?_, ?_, fun s' hrecv => ?_⟩
  · rw [hq]
    rfl
  · rw [hq]
    rfl
  · rw [List.foldlM_append, hheader, ← hdeliver]
    exact r.foldlM_fullPayload hvalid hover hneed hlast
  · rw [hrecv] at hdeliver
    obtain ⟨hsame, -⟩ := r.sameReading _ _ _ _ hrecv
    rw [r.serial_setSerial] at hsame
    refine ⟨r.valid_deliver hsized (hvalid.payloadSize hneed) hdeliver, ?_, ?_, ?_⟩
    · rw [done, r.serial_setSerial]
    · rw [done, r.serial_setSerial, hsame]
      exact hover
    · rw [done, r.serial_setSerial, hsame, hq]
      exact hs.headerEmpty

theorem foldlM_packet (hs : (r.serial s).Idle) (hversion : (r.serial s).version ≠ .unknown)
    {channel : Nat} (hchannel : channel < 256) {payload : List UInt8} (hpayload : payload ≠ [])
    (hsize : payload.length ≤ maxSerialPayload) :
    ∃ q, q.cs = (r.serial s).cs ∧ q.version = (r.serial s).version ∧
      (QemudSerial.packet (r.serial s).version channel payload).foldlM r.readByte s =
        (r.recvFunc channel payload (r.setSerial q s)).map r.done ∧
      ∀ s', r.recvFunc channel payload (r.setSerial q s) = some s' →
        (r.serial (r.done s')).Idle := by
  have hannounced := QemudSerial.announced_packetHeader (r.serial s).version channel hsize
  have haddressed := QemudSerial.addressed_packetHeader (r.serial s).version payload.length hchannel
  have hgood := r.foldlM_goodHeader hs hversion (QemudSerial.length_packetHeader _ _ _)
    (haddressed ▸ Int.natCast_nonneg channel) hannounced hpayload hsize
  rwa [haddressed] at hgood

end Receiver

end M2M.Qemud
