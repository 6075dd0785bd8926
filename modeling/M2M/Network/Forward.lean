import M2M.Network.Packet

/-! What a router does with the packet it has chosen: the SMALL scheme of
`m2m_route_processor_create` after the wait loop, and a packet's way through a sequence
of routers to its receiver. -/

namespace M2M.Network

/-- `n + &x` where `x` is a `uint64_t` at address `addr`: the compiler scales `n` by
eight, and on the 32-bit ABI the pointer is truncated and sign-extended when stored. -/
def Abi.addrPlus : Abi → UInt64 → UInt64 → UInt64
  | .x86_64, addr, n => addr + 8 * n
  | .i386, addr, n => (addr + 8 * n).toUInt32.toInt32.toInt64.toUInt64

/-- What a router leaves in the sender's `m2m_HQ_cf_t`. -/
structure Ack where
  senderID : UInt32
  transtime : UInt64
  dataflag : UInt32
  deriving DecidableEq

/-- A router at the moment it takes the packet: its `router_localtime`, the value that
`transmission_latency` returns for the next hop (0 on failure), and the address of its
local variable `fail_latency`. -/
structure Hop where
  id : UInt32
  localtime : UInt64
  latency : UInt64
  failAddr : UInt64

structure Processed where
  localtime : UInt64
  packet : HQe
  ack : Option Ack
  transfail : Bool

/-- `packet_next == GlobalVND.DeviceID`: the coordinator delivers to itself. -/
def deliverSelf (r : Hop) (h : HQe) : Processed :=
  let (sendTime, localtime) :=
    if r.localtime > h.sendTime then (r.localtime, r.localtime) else (h.sendTime, h.sendTime)
  let localtime := localtime + h.transTime
  { localtime
    packet := { h with sendTime }
    ack := some ⟨h.senderID, localtime, 0⟩
    transfail := false }

/-- The packet goes on to the neighbour `next`.  On failure the router adds the address
of `fail_latency`, as the source does. -/
def forward (abi : Abi) (nodeType : UInt32 → DeviceType) (r : Hop) (next : UInt32) (h : HQe) :
    Processed :=
  let localtime := if r.localtime < h.sendTime then h.sendTime else r.localtime
  let p := { h with forwardID := r.id, sendTime := localtime }
  let p := if p.senderID ≠ r.id then
      { p with sendTime := localtime + p.transTime, transTime := r.latency }
    else p
  if p.transTime = 0 then
    { localtime := abi.addrPlus r.failAddr localtime
      packet := p
      ack := some ⟨p.senderID, abi.addrPlus r.failAddr p.sendTime, 44⟩
      transfail := true }
  else
    let localtime := localtime + p.transTime
    { localtime
      packet := p
      ack := if p.receiverID = next ∧ nodeType next = .zed then some ⟨p.senderID, localtime, 0⟩
        else none
      transfail := false }

def processPacket (abi : Abi) (nodeType : UInt32 → DeviceType) (r : Hop) (next : UInt32)
    (h : HQe) : Processed :=
  if next = r.id then deliverSelf r h else forward abi nodeType r next h

/-- The routers a packet passes, from the one whose queue the sender posts to (the
sender's own when the coordinator sends) to the one that delivers it. -/
inductive Route
  | self (r : Hop)
  | last (r : Hop)
  | via (r : Hop) (rest : Route)

namespace Route

def first : Route → UInt32
  | .self r => r.id
  | .last r => r.id
  | .via r _ => r.id

def hops : Route → List Hop
  | .self r => [r]
  | .last r => [r]
  | .via r rest => r :: rest.hops

structure Outcome where
  packet : HQe
  acks : List Ack
  transfail : Bool

def Outcome.ofProcessed (p : Processed) : Outcome := ⟨p.packet, p.ack.toList, p.transfail⟩

def carry (abi : Abi) (nodeType : UInt32 → DeviceType) : Route → HQe → Outcome
  | .self r, h => .ofProcessed (processPacket abi nodeType r h.receiverID h)
  | .last r, h => .ofProcessed (processPacket abi nodeType r h.receiverID h)
  | .via r rest, h =>
    let p := processPacket abi nodeType r rest.first h
    if p.transfail then .ofProcessed p
    else
      let o := rest.carry abi nodeType p.packet
      { o with acks := p.ack.toList ++ o.acks }

/-- A route that ends at `receiver`: a coordinator takes its own packets, everybody else
who receives is an end device, and end devices route nothing. -/
def Valid (nodeType : UInt32 → DeviceType) (receiver : UInt32) : Route → Prop
  | .self r => r.id = receiver
  | .last r => r.id ≠ receiver ∧ nodeType receiver = .zed
  | .via r rest =>
    rest.first ≠ r.id ∧ nodeType rest.first ≠ .zed ∧ rest.Valid nodeType receiver

/-- The latencies drawn on the way for a packet of `sender`. -/
def charged (sender : UInt32) : Route → Nat
  | .self _ => 0
  | .last r => if r.id = sender then 0 else r.latency.toNat
  | .via r rest => (if r.id = sender then 0 else r.latency.toNat) + rest.charged sender

/-- The arrival time with clocks that do not wrap around at 64 bits. -/
def idealArrival (sender : UInt32) : Route → Nat → Nat → Nat
  | .self r, sent, lat => max r.localtime.toNat sent + lat
  | .last r, sent, lat =>
    if r.id = sender then max r.localtime.toNat sent + lat
    else max r.localtime.toNat sent + lat + r.latency.toNat
  | .via r rest, sent, lat =>
    if r.id = sender then rest.idealArrival sender (max r.localtime.toNat sent) lat
    else rest.idealArrival sender (max r.localtime.toNat sent + lat) r.latency.toNat

/-- The time reported to the sender, likewise. -/
def idealReported (sender : UInt32) : Route → Nat → Nat → Nat
  | .self r, sent, lat => max r.localtime.toNat sent + lat
  | .last r, sent, lat =>
    if r.id = sender then max r.localtime.toNat sent + lat
    else max r.localtime.toNat sent + r.latency.toNat
  | .via r rest, sent, lat =>
    if r.id = sender then rest.idealReported sender (max r.localtime.toNat sent) lat
    else rest.idealReported sender (max r.localtime.toNat sent + lat) r.latency.toNat

/-- The last step is the coordinator delivering to itself, or the sender's own router
handing its device's packet to a neighbouring end device. -/
def EndsAtSender (sender : UInt32) : Route → Prop
  | .self _ => True
  | .last r => r.id = sender
  | .via _ rest => rest.EndsAtSender sender

end Route

end M2M.Network
