import M2M.Lib.Chunks
import M2M.Qemud.Hex

/-! The serial port of qemud: `hw-qemud.c` up to its clients. -/

open M2M.Lib

namespace M2M.Qemud

def maxSerialPayload : Nat := 4000

def headerSize : Nat := 6

def frameHeaderSize : Nat := 4

/-- A sink without its buffer, which is part of another structure. -/
structure QemudSink where
  used : Nat
  size : Nat
deriving DecidableEq

/-- `qemud_sink_needed`. -/
def QemudSink.needed (ss : QemudSink) : Nat := ss.size - ss.used

/-- `memcpy` to a place in a buffer. -/
def writeAt (buff : List UInt8) (i : Nat) (bytes : List UInt8) : List UInt8 :=
  buff.take i ++ bytes ++ buff.drop (i + bytes.length)

/-- What `qemud_sink_fill` returns, and the sink, its buffer and the message after it. -/
structure Fill where
  full : Bool
  sink : QemudSink
  buff : List UInt8
  rest : List UInt8

/-- `qemud_sink_fill`. -/
def sinkFill (ss : QemudSink) (buff msg : List UInt8) : Fill :=
  if ss.needed = 0 then ⟨true, ss, buff, msg⟩
  else
    let avail := min ss.needed msg.length
    let used := ss.used + avail
    ⟨used = ss.size, { ss with used }, writeAt buff ss.used (msg.take avail), msg.drop avail⟩

inductive QemudVersion
  | unknown | legacy | normal
deriving DecidableEq

/-- The serial port: `cs` is what was written to it, the two sinks fill `data0`. -/
structure QemudSerial where
  cs : List UInt8
  needHeader : Bool
  overflow : Int
  inSize : Int
  inChannel : Int
  version : QemudVersion
  header : QemudSink
  payload : QemudSink
  data0 : List UInt8

namespace QemudSerial

/-- `qemu_chr_write`. -/
def write (s : QemudSerial) (bytes : List UInt8) : QemudSerial := { s with cs := s.cs ++ bytes }

def packetHeader (version : QemudVersion) (channel size : Nat) : List UInt8 :=
  match version with
  | .legacy => int2hex 4 size ++ int2hex 2 channel
  | _ => int2hex 2 channel ++ int2hex 4 size

/-- The loop of `qemud_serial_send`, with a bound on the number of packets. -/
def sendPackets (channel : Nat) : Nat → Bool → List UInt8 → QemudSerial → QemudSerial
  | 0, _, _, s => s
  | n + 1, framing, msg, s =>
    let len := if framing then msg.length + frameHeaderSize else msg.length
    if len = 0 then s
    else
      let avail := min len maxSerialPayload
      let s := s.write (packetHeader s.version channel avail)
      -- the frame header is only in the first packet
      let frame := if framing then int2hex frameHeaderSize msg.length else []
      let avail := avail - frame.length
      sendPackets channel n false (msg.drop avail) ((s.write frame).write (msg.take avail))

/-- `qemud_serial_send`. -/
def send (s : QemudSerial) (channel : Int) (framing : Bool) (msg : List UInt8) : QemudSerial :=
  if msg.length = 0 ∨ channel < 0 then s
  else sendPackets channel.toNat msg.length framing msg s

/-- What the version is found out with. -/
def legacyProbe : List UInt8 :=
  ascii "000100X" ++ ascii "000b00connect:gsm" ++ ascii "000b00connect:gps" ++
    ascii "000f00connect:control" ++ ascii "00c210" ++ List.replicate 194 0

/-- After `qemud_serial_init`. -/
def init : QemudSerial where
  cs := legacyProbe
  needHeader := true
  overflow := 0
  inSize := 0
  inChannel := -1
  version := .unknown
  header := ⟨0, headerSize⟩
  payload := ⟨0, 0⟩
  data0 := List.replicate (maxSerialPayload + 1) 0

/-- The version that the first header shows. -/
def detectVersion (s : QemudSerial) : QemudVersion :=
  match s.version with
  | .unknown => if s.data0.take headerSize = ascii "001200" then .legacy else .normal
  | version => version

def parseHeader (s : QemudSerial) : QemudSerial :=
  let version := s.detectVersion
  let (sizeAt, channelAt) := match version with
    | .legacy => (0, 4)
    | _ => (2, 0)
  { s with
    version
    inSize := hex2int ((s.data0.drop sizeAt).take 4)
    inChannel := hex2int ((s.data0.drop channelAt).take 2)
    header := { s.header with used := 0 } }

/-- What comes after a full header: the payload, if `needHeader` is reset. -/
def afterHeader (s : QemudSerial) : QemudSerial :=
  let s := s.parseHeader
  if s.inSize ≤ 0 ∨ s.inChannel < 0 then s
  else if maxSerialPayload < s.inSize then { s with overflow := s.inSize }
  else { s with needHeader := false, payload := ⟨0, s.inSize.toNat⟩ }

/-- `qemud_serial_can_read`. -/
def canRead (s : QemudSerial) : Int :=
  if 0 < s.overflow then s.overflow
  else if s.needHeader then s.header.needed
  else s.payload.needed

/-- The receiver may write to the port and into its message, and find out the version. -/
structure SameReading (s s' : QemudSerial) : Prop where
  same : s' = { s with cs := s'.cs, version := s'.version, data0 := s'.data0 }
  length_data0 : s'.data0.length = s.data0.length

end QemudSerial

/-- What the serial port is part of, with its receiver: `none` if it does not return. -/
structure Receiver (σ : Type) where
  serial : σ → QemudSerial
  setSerial : QemudSerial → σ → σ
  recvFunc : Int → List UInt8 → σ → Option σ
  serial_setSerial : ∀ q s, serial (setSerial q s) = q
  setSerial_setSerial : ∀ q q' s, setSerial q (setSerial q' s) = setSerial q s
  setSerial_serial : ∀ s, setSerial (serial s) s = s
  sameReading : ∀ channel msg s s', recvFunc channel msg s = some s' →
    (serial s).SameReading (serial s')

namespace Receiver

variable {σ : Type} (r : Receiver σ)

def deliver (q : QemudSerial) (s : σ) : Option σ := do
  let q := { q with data0 := writeAt q.data0 q.payload.size [0] }
  let s ← r.recvFunc q.inChannel (q.data0.take q.payload.size) (r.setSerial q s)
  return r.setSerial { r.serial s with needHeader := true } s

/-- The payload bytes of a round: if they are not all there, nothing is left to read. -/
def readPayload (q : QemudSerial) (s : σ) (msg : List UInt8) : Option (σ × List UInt8) := do
  let fill := sinkFill q.payload q.data0 msg
  let q := { q with payload := fill.sink, data0 := fill.buff }
  if fill.full then return (← r.deliver q s, fill.rest)
  else return (r.setSerial q s, fill.rest)

/-- A round of the loop in `qemud_serial_read`. -/
def readRound (s : σ) (msg : List UInt8) : Option (σ × List UInt8) :=
  let q := r.serial s
  if 0 < q.overflow then
    -- the overflow is compared with the message, and stays as it is
    some (s, msg.drop q.overflow.toNat)
  else if q.needHeader then
    let fill := sinkFill q.header q.data0 msg
    let q := { q with header := fill.sink, data0 := fill.buff }
    if fill.full then
      let q := q.afterHeader
      if q.needHeader then some (r.setSerial q s, fill.rest)
      else r.readPayload q s fill.rest
    else some (r.setSerial q s, fill.rest)
  else r.readPayload q s msg

/-- `qemud_serial_read`. -/
def serialRead : σ → List UInt8 → Option σ := readAll r.readRound

end Receiver

end M2M.Qemud
