import M2M.Lib.Keyed
import M2M.Qemud.Serial

/-! The clients, the services and the multiplexer of qemud: `hw-qemud.c`.  A client is known by
its `id`, which stands for its address, and the code of the services is a parameter. -/

open M2M.Lib

namespace M2M.Qemud

abbrev CString := List UInt8

/-- What a callback calls back for its client. -/
inductive Command
  | send (msg : List UInt8)
  | setFraming (framing : Bool)
  | broadcast (msg : List UInt8)
  | close
deriving DecidableEq

/-- The callbacks of the services, by their names.  A client has the data `ω` behind
`clie_opaque`, all services share `δ`, and a NULL callback is one that does nothing. -/
structure ServiceCode (ω δ : Type) where
  clieRecv : CString → List UInt8 → ω → δ → ω × δ × List Command
  clieClose : CString → ω → δ → δ
  clieSave : CString → ω → δ → List UInt8
  clieLoad : CString → List UInt8 → ω → δ → Int × ω × δ × List UInt8
  servConnect : CString → Int → δ → Option (ω × List Command) × δ
  servSave : CString → δ → List UInt8
  servLoad : CString → List UInt8 → δ → Int × δ × List UInt8

/-- A client: the control channel is the one without a service.  The payload sink fills `buff`. -/
structure QemudClient (ω : Type) where
  id : Nat
  channel : Int
  service : Option (CString × ω)
  framing : Bool
  needHeader : Bool
  header : QemudSink
  header0 : List UInt8
  payload : QemudSink
  buff : List UInt8

structure QemudService where
  name : CString
  maxClients : Int32
  numClients : Int32
  clients : List Nat
deriving DecidableEq

/-- A callback that was called, with the client that it was called for. -/
inductive Call
  | recv (client : Nat) (msg : List UInt8)
  | close (client : Nat)
  | connect (service : CString) (channel : Int)
deriving DecidableEq

/-- The multiplexer, the data of the services and the callbacks so far. -/
structure QemudMultiplexer (ω δ : Type) where
  serial : QemudSerial
  clients : List (QemudClient ω)
  services : List QemudService
  data : δ
  /-- The address of the next client. -/
  next : Nat
  calls : List Call

/-- `qemud_client_alloc`, apart from the list. -/
def QemudClient.alloc {ω : Type} (id : Nat) (channel : Int) (service : Option (CString × ω)) :
    QemudClient ω where
  id
  channel
  service
  framing := false
  needHeader := true
  header := ⟨0, frameHeaderSize⟩
  header0 := List.replicate frameHeaderSize 0
  payload := ⟨0, 0⟩
  buff := []

namespace QemudMultiplexer

variable {ω δ : Type}

/-- After `qemud_multiplexer_init` and the registration of the services. -/
def init (services : List (CString × Int32)) (data : δ) : QemudMultiplexer ω δ where
  serial := .init
  clients := [.alloc 0 0 none]
  services := services.map fun (name, maxClients) => ⟨name, maxClients, 0, []⟩
  data
  next := 1
  calls := []

section Clients

/-- What a pointer to a client points to: nothing, when the client is freed. -/
def client (m : QemudMultiplexer ω δ) (id : Nat) : Option (QemudClient ω) :=
  Keyed.find (fun c => c.id) m.clients id

/-- The first client of a channel. -/
def onChannel (m : QemudMultiplexer ω δ) (channel : Int) : Option (QemudClient ω) :=
  m.clients.find? fun c => c.channel = channel

def setClient (m : QemudMultiplexer ω δ) (c : QemudClient ω) : QemudMultiplexer ω δ :=
  { m with clients := Keyed.replace (fun c => c.id) m.clients c }

def setService (m : QemudMultiplexer ω δ) (name : CString) (f : QemudService → QemudService) :
    QemudMultiplexer ω δ :=
  { m with services := m.services.map fun sv => if sv.name = name then f sv else sv }

def call (m : QemudMultiplexer ω δ) (callback : Call) : QemudMultiplexer ω δ :=
  { m with calls := m.calls ++ [callback] }

/-- `qemud_serial_send` on the port of the multiplexer. -/
def serialSend (m : QemudMultiplexer ω δ) (channel : Int) (framing : Bool) (msg : List UInt8) :
    QemudMultiplexer ω δ :=
  { m with serial := m.serial.send channel framing msg }

/-- `qemud_service_find`. -/
def findService (m : QemudMultiplexer ω δ) (name : CString) : Option QemudService :=
  m.services.find? fun sv => sv.name = name

/-- `qemud_service_add_client`. -/
def addClient (id : Nat) (sv : QemudService) : QemudService :=
  { sv with clients := id :: sv.clients, numClients := sv.numClients + 1 }

/-- `qemud_service_remove_client`. -/
def removeClient (id : Nat) (sv : QemudService) : QemudService :=
  if id ∈ sv.clients then
    { sv with clients := sv.clients.erase id, numClients := sv.numClients - 1 }
  else sv

/-- A number in the format `%02x`. -/
def format02x (n : Nat) : List UInt8 :=
  if n < 256 then int2hex 2 n
  else (Nat.toDigits 16 n).map fun c => UInt8.ofNat c.toNat

/-- `qemud_client_new`, with the client's address. -/
def clientNew (m : QemudMultiplexer ω δ) (name : CString) (channel : Int) (opq : ω) :
    Nat × QemudMultiplexer ω δ :=
  (m.next, { m with
    clients := .alloc m.next channel (some (name, opq)) :: m.clients
    next := m.next + 1 }.setService name (addClient m.next))

/-- `qemud_client_send`. -/
def clientSend (msg : List UInt8) (m : QemudMultiplexer ω δ) (id : Nat) :
    Option (QemudMultiplexer ω δ) := do
  let c ← m.client id
  return m.serialSend c.channel c.framing msg

/-- `qemud_client_set_framing`. -/
def setFraming (framing : Bool) (m : QemudMultiplexer ω δ) (id : Nat) :
    Option (QemudMultiplexer ω δ) := do
  let c ← m.client id
  return m.setClient { c with framing, needHeader := c.needHeader || c.framing }

/-- `qemud_service_broadcast` to the service of a client. -/
def broadcast (msg : List UInt8) (m : QemudMultiplexer ω δ) (id : Nat) :
    Option (QemudMultiplexer ω δ) := do
  let (name, _) ← (← m.client id).service
  let sv ← m.findService name
  sv.clients.foldlM (clientSend msg) m

end Clients

section Callbacks

variable (code : ServiceCode ω δ)

/-- `qemud_client_disconnect`, for a client as it is there, which is freed. -/
def disconnect (m : QemudMultiplexer ω δ) (c : QemudClient ω) : QemudMultiplexer ω δ :=
  let m := { m with clients := Keyed.without (fun c => c.id) m.clients c.id }
  let m := if 0 < c.channel then
      m.serialSend 0 false (ascii "disconnect:" ++ format02x c.channel.toNat)
    else m
  match c.service with
  | none => m
  | some (name, opq) =>
    { m with data := code.clieClose name opq m.data }.call (.close c.id)
      |>.setService name (removeClient c.id)

def runCommand (id : Nat) (m : QemudMultiplexer ω δ) : Command → Option (QemudMultiplexer ω δ)
  | .send msg => m.clientSend msg id
  | .setFraming framing => m.setFraming framing id
  | .broadcast msg => m.broadcast msg id
  | .close => return m.disconnect code (← m.client id)

/-- What a callback calls, one after another: `none` if it uses a freed client. -/
def runCommands (id : Nat) (m : QemudMultiplexer ω δ) (commands : List Command) :
    Option (QemudMultiplexer ω δ) :=
  commands.foldlM (runCommand code id) m

/-- `qemud_service_connect_client`, with the client's address. -/
def connectClient (m : QemudMultiplexer ω δ) (name : CString) (channel : Int) :
    Option (Option Nat × QemudMultiplexer ω δ) :=
  let m := m.call (.connect name channel)
  match code.servConnect name channel m.data with
  | (none, data) => some (none, { m with data })
  | (some (opq, commands), data) => do
    let (id, m) := clientNew { m with data } name channel opq
    return (some id, ← m.runCommands code id commands)

/-- `qemud_multiplexer_connect`. -/
def connect (m : QemudMultiplexer ω δ) (name : CString) (channel : Int) :
    Option (Int × QemudMultiplexer ω δ) :=
  match m.findService name with
  | none => some (-1, m)
  | some sv =>
    if 0 < sv.maxClients ∧ sv.maxClients ≤ sv.numClients then some (-2, m)
    else do
      let (client, m) ← m.connectClient code name channel
      return (if client.isNone then -1 else 0, m)

/-- `qemud_multiplexer_disconnect`. -/
def disconnectChannel (m : QemudMultiplexer ω δ) (channel : Int) : QemudMultiplexer ω δ :=
  match m.onChannel channel with
  | none => m
  | some c => m.disconnect code { c with channel := -1 }

/-- A name, a colon and two characters, which end the message. -/
def nameAndId (msg : List UInt8) : Option (CString × List UInt8) :=
  match msg.dropWhile fun b => b ≠ 0x3a ∧ b ≠ 0 with
  | [colon, hi, lo] =>
    if colon = 0x3a then some (msg.takeWhile fun b => b ≠ 0x3a ∧ b ≠ 0, [hi, lo]) else none
  | _ => none

/-- A control message that is well-formed. -/
inductive Control
  | connect (name : CString) (channel : Int)
  | disconnect (channel : Int)
  | legacyConnect (name : CString) (channel : Int)
  | malformed
  | unknown
deriving DecidableEq

def parseControl (msg : List UInt8) : Control :=
  if 8 < msg.length ∧ msg.take 8 = ascii "connect:" then
    match nameAndId (msg.drop 8) with
    | none => .malformed
    | some (name, hex) => if hex2int hex ≤ 0 then .malformed else .connect name (hex2int hex)
  else if msg.length = 13 ∧ msg.take 11 = ascii "disconnect:" then
    if hex2int (msg.drop 11) ≤ 0 then .malformed else .disconnect (hex2int (msg.drop 11))
  else if 11 < msg.length ∧ msg.take 11 = ascii "ok:connect:" then
    match nameAndId (msg.drop 11) with
    | none => .malformed
    | some (name, hex) => if hex2int hex ≤ 0 then .malformed else .legacyConnect name (hex2int hex)
  else .unknown

def connectAnswer (ret : Int) (channel : Int) : List UInt8 :=
  if ret < 0 then
    ascii "ko:connect:" ++ format02x channel.toNat ++
      if ret = -1 then ascii ":unknown service" else ascii ":service busy"
  else ascii "ok:connect:" ++ format02x channel.toNat

/-- `qemud_multiplexer_control_recv`. -/
def controlRecv (msg : List UInt8) (m : QemudMultiplexer ω δ) : Option (QemudMultiplexer ω δ) :=
  match parseControl msg with
  | .malformed => some m
  | .connect name channel => do
    let (ret, m) ← m.connect code name channel
    return m.serialSend 0 false (connectAnswer ret channel)
  | .disconnect channel => some (m.disconnectChannel code channel)
  | .legacyConnect name channel =>
    if m.serial.version = .normal then some m
    else do
      let m := { m with serial := { m.serial with version := .legacy } }
      let name := if name = ascii "control" then ascii "hw-control" else name
      let (_, m) ← m.connect code name channel
      return m
  | .unknown =>
    if m.serial.version = .legacy then some m
    else some (m.serialSend 0 false (ascii "ko:unknown command"))

/-- A call of `clie_recv`. -/
def callRecv (id : Nat) (msg : List UInt8) (m : QemudMultiplexer ω δ) :
    Option (QemudMultiplexer ω δ) := do
  let c ← m.client id
  let m := m.call (.recv id msg)
  match c.service with
  | none => m.controlRecv code msg
  | some (name, opq) =>
    let (opq, data, commands) := code.clieRecv name msg opq m.data
    ({ m with data }.setClient { c with service := some (name, opq) }).runCommands code id commands

end Callbacks

section Frames

variable (code : ServiceCode ω δ)

/-- The payload bytes of a round: if they are not all there, nothing is left to read. -/
def readFrame (c : QemudClient ω) (m : QemudMultiplexer ω δ) (msg : List UInt8) :
    Option (QemudMultiplexer ω δ × List UInt8) :=
  let fill := sinkFill c.payload c.buff msg
  let c := { c with payload := fill.sink, buff := fill.buff }
  if fill.full then do
    let m ← (m.setClient { c with needHeader := true }).callRecv code c.id
      (c.buff.take c.payload.size)
    return (m, fill.rest)
  else some (m.setClient c, fill.rest)

/-- A round of the loop in `qemud_client_recv`. -/
def frameRound (id : Nat) (m : QemudMultiplexer ω δ) (msg : List UInt8) :
    Option (QemudMultiplexer ω δ × List UInt8) := do
  let c ← m.client id
  if c.needHeader then
    let fill := sinkFill c.header c.header0 msg
    let c := { c with header := fill.sink, header0 := fill.buff }
    if fill.full then
      let frameSize := hex2int (c.header0.take frameHeaderSize)
      -- an empty or a corrupted frame leaves the header sink full
      if frameSize ≤ 0 then return (m.setClient c, fill.rest)
      else
        -- the bytes of a new buffer are not read before they are written
        let c := { c with
          payload := ⟨0, frameSize.toNat⟩
          buff := List.replicate (frameSize.toNat + 1) 0
          needHeader := false
          header := { c.header with used := 0 } }
        m.readFrame code c fill.rest
    else return (m.setClient c, fill.rest)
  else m.readFrame code c msg

/-- `qemud_client_recv`: `none` if it does not return or uses a freed client. -/
def clientRecv (id : Nat) (msg : List UInt8) (m : QemudMultiplexer ω δ) :
    Option (QemudMultiplexer ω δ) := do
  let c ← m.client id
  if ¬c.framing then m.callRecv code id msg
  else if frameHeaderSize < msg.length ∧ c.needHeader ∧ c.header.needed = 0 ∧
      (msg.length : Int) = hex2int (msg.take frameHeaderSize) + frameHeaderSize ∧
      0 ≤ hex2int (msg.take frameHeaderSize) then
    m.callRecv code id (msg.drop frameHeaderSize)
  else readAll (frameRound code id) m msg

/-- `qemud_multiplexer_serial_recv`. -/
def serialRecv (channel : Int) (msg : List UInt8) (m : QemudMultiplexer ω δ) :
    Option (QemudMultiplexer ω δ) :=
  match m.onChannel channel with
  | none => some m
  | some c => m.clientRecv code c.id msg

end Frames

end QemudMultiplexer

end M2M.Qemud
