import M2M.Lib.Machine
import M2M.Network.Forward
import Mathlib.Logic.Function.Basic

/-! The whole network in one machine: `m2m_send` on every device, the routers that carry
its packet from header queue to header queue, and the `hq_conflag` words through which
they answer the sender.  A run starts when all devices have completed
`m2m_send_recv_init`.  Which packet a router chooses, what `route_discovery` and
`transmission_latency` return, and when a process ends is left open. -/

namespace M2M.Network.Delivery

open M2M.Lib.Bytes

/-- The header queues of the segment: the one that `a` writes and the router of `b` reads,
the one between a coordinator's `m2m_send` and its own router, and the one that the
`m2m_get_local_msg` of `z` reads. -/
inductive Queue
  | link (a b : UInt32)
  | outgoing (d : UInt32)
  | incoming (z : UInt32)
  deriving DecidableEq

/-- The device whose router scans the queue. -/
def Queue.reader : Queue → Option UInt32
  | .link _ b => some b
  | .outgoing d => some d
  | .incoming _ => none

/-- The two threads of a device that write into header queues. -/
inductive Agent
  | sender (d : UInt32)
  | router (b : UInt32)
  deriving DecidableEq

/-- The network as its processes know it.  `neighbors a` is what `a` reads from
`GlobalVND.Neighbors` on, the words behind the `neighborNum a` valid ones included. -/
structure Net where
  abi : Abi
  nodeType : UInt32 → DeviceType
  totalDeviceNum : Int32
  neighborNum : UInt32 → Nat
  neighbors : UInt32 → Nat → UInt32

namespace Net

variable (net : Net)

/-- The first `count` below `TotalDeviceNum` with `GlobalVND.Neighbors[count] == next`. -/
def findNeighbor (a next : UInt32) : Option Nat :=
  (List.range net.totalDeviceNum.toInt.toNat).find? (fun count => net.neighbors a count == next)

def queueTo (a b : UInt32) : Queue := if net.nodeType b = .zed then .incoming b else .link a b

/-- The queue at `m2m_remote_hq_meta_start[count]`; there is none behind the neighbours. -/
def remote (a : UInt32) (count : Nat) : Option Queue :=
  if count < net.neighborNum a then some (net.queueTo a (net.neighbors a count)) else none

/-- Where `m2m_post_remote_msg` puts a packet; a router of reduced function has no queue
of its own. -/
def sendQueue (d : UInt32) : Option Queue :=
  match net.nodeType d with
  | .zed => net.remote d 0
  | .zc => some (.outgoing d)
  | .zr => none

/-- Where the router of `b` puts a packet whose next hop is `next`. -/
def target (b next : UInt32) : Option Queue :=
  if next = b then if net.nodeType b = .zc then some (.incoming b) else none
  else (net.findNeighbor b next).bind (net.remote b)

end Net

/-- One call of `m2m_send`; `srcData i` is the byte at `src_data + i`. -/
structure Call where
  device : UInt32
  sizeb : Int32
  receiverID : Int32
  tag : Int32
  srcData : Nat → UInt8

namespace Call

def bytes (c : Call) : List UInt8 := (List.range c.sizeb.toInt.toNat).map c.srcData

def header (c : Call) (sendTime transTime : UInt64) : HQe where
  tag := c.tag.toUInt32
  packetSize := c.sizeb.toUInt32
  senderID := c.device
  receiverID := c.receiverID.toUInt32
  forwardID := c.device
  entryNum := -1
  sendTime := sendTime
  transTime := transTime

/-- The receivers that `m2m_send` refuses. -/
def Refused (net : Net) (c : Call) : Prop :=
  c.receiverID.toUInt32 = c.device ∨ c.receiverID > net.totalDeviceNum ∨ c.receiverID < 0

instance (net : Net) (c : Call) : Decidable (c.Refused net) :=
  inferInstanceAs (Decidable (_ ∨ _ ∨ _))

/-- `sizeb <= HEADER_QUEUE_ENTRY_SIZE` -/
def Small (c : Call) : Prop := c.sizeb.toInt ≤ headerQueueEntrySize

instance (c : Call) : Decidable c.Small := inferInstanceAs (Decidable (_ ≤ _))

end Call

inductive M2MErr
  | error | success | transFail | transSuccess
  deriving DecidableEq

/-- The end of `m2m_send`: everything but a failure is reported as success. -/
def m2mSendResult (rc : M2MErr) : M2MErr := if rc = .transFail then .transFail else .transSuccess

/-- A header, with the number of the `m2m_send` call it belongs to. -/
structure Packet where
  call : Nat
  header : HQe
  deriving DecidableEq

/-- One header queue.  The indices are even and below four, so that `b` stands for `2 * b`:
the header is in entry `2 * b` and the payload in the entry behind it.  `writer` has
located its entry and not yet advanced `producer`. -/
structure Hq where
  producer : Bool
  consumer : Bool
  header : Bool → Packet
  payload : Bool → List UInt8
  writer : Option Agent

namespace Hq

def Waiting (l : Hq) : Prop := l.producer ≠ l.consumer

instance (l : Hq) : Decidable l.Waiting := inferInstanceAs (Decidable (_ ≠ _))

def head (l : Hq) : Packet := l.header l.consumer

def locate (l : Hq) (x : Agent) : Hq := { l with writer := some x }

def setHeader (l : Hq) (e : Bool) (p : Packet) : Hq :=
  { l with header := Function.update l.header e p }

def setPayload (l : Hq) (bs : List UInt8) : Hq :=
  { l with
    payload := Function.update l.payload l.producer (overwrite (l.payload l.producer) bs) }

def publish (l : Hq) : Hq := { l with producer := !l.producer, writer := none }

def release (l : Hq) : Hq := { l with consumer := !l.consumer }

end Hq

/-- A packet that `m2m_post_remote_msg` is putting into `queue`. -/
structure Post where
  queue : Queue
  entry : Bool
  packet : Packet
  args : Call

/-- A packet that a router is moving on to `next`; `time` is its `router_localtime`. -/
structure Move where
  source : Queue
  sourceEntry : Bool
  target : Queue
  targetEntry : Bool
  next : UInt32
  packet : Packet
  time : UInt64

inductive Sender
  | idle
  | fill (w : Post)
  | copy (w : Post)
  | publish (w : Post)
  | wait (call : Nat)
  | gone

inductive Router
  | idle
  | drop (q : Queue)
  | fill (v : Move)
  | copy (v : Move)
  | release (v : Move)
  | publish (v : Move)
  | ack (v : Move)
  | gone

/-- `m2m_HQ_cf_t` -/
structure Conflag where
  dataflag : UInt32
  transtime : UInt64

/-- A message in the queue that the `m2m_get_local_msg` of `device` reads. -/
structure Placed where
  device : UInt32
  packet : Packet
  payload : List UInt8

structure State where
  queue : Queue → Hq
  conflag : UInt32 → Conflag
  localtime : UInt32 → UInt64
  sender : UInt32 → Sender
  router : UInt32 → Router
  calls : List Call
  result : Nat → Option M2MErr
  placed : List Placed

def Init (s : State) : Prop :=
  (∀ q, (s.queue q).producer = false ∧ (s.queue q).consumer = false ∧ (s.queue q).writer = none) ∧
    (∀ d, s.sender d = .idle) ∧ (∀ b, s.router b = .idle) ∧ s.calls = [] ∧
    (∀ n, s.result n = none) ∧ s.placed = []

namespace State

variable (s : State)

def setQueue (q : Queue) (l : Hq) : State := { s with queue := Function.update s.queue q l }

def setSender (d : UInt32) (p : Sender) : State :=
  { s with sender := Function.update s.sender d p }

def setRouter (b : UInt32) (p : Router) : State :=
  { s with router := Function.update s.router b p }

def setConflag (d : UInt32) (c : Conflag) : State :=
  { s with conflag := Function.update s.conflag d c }

def setLocaltime (b : UInt32) (t : UInt64) : State :=
  { s with localtime := Function.update s.localtime b t }

def answer (n : Nat) (rc : M2MErr) : State :=
  { s with result := Function.update s.result n (some rc) }

/-- The process of `d` is no more: `exit(0)`, a wild access, or `NETWORK_EXIT`. -/
def exit (d : UInt32) : State := (s.setSender d .gone).setRouter d .gone

def signal : Option Ack → State
  | none => s
  | some a => s.setConflag a.senderID ⟨a.dataflag, a.transtime⟩

/-- The message that advancing the producer index shows to the queue's reader, if that is
the `m2m_get_local_msg` of a device. -/
def shows : Queue → List Placed
  | .incoming z =>
    let l := s.queue (.incoming z)
    let p := l.header l.producer
    [⟨z, p, (l.payload l.producer).take p.header.packetSize.toNat⟩]
  | _ => []

def publish (q : Queue) : State :=
  { s.setQueue q (s.queue q).publish with placed := s.placed ++ s.shows q }

end State

/-- `m2m_post_remote_msg` as far as the search for an entry; `latency` is what
`transmission_latency` returns. -/
def postRemoteMsg (net : Net) (s : State) (n : Nat) (c : Call) (next : UInt32)
    (sendTime latency : UInt64) : State :=
  match net.findNeighbor c.device next, net.sendQueue c.device with
  | some _, some q =>
    if latency = 0 then s.answer n (m2mSendResult .transFail)
    else
      let l := s.queue q
      (s.setQueue q (l.locate (.sender c.device))).setSender c.device
        (.fill ⟨q, l.producer, ⟨n, c.header sendTime latency⟩, c⟩)
  | _, _ => s.exit c.device

/-- `m2m_send` up to the copy of the header; the LARGE scheme is not implemented. -/
def m2mSend (net : Net) (s : State) (c : Call) (next : UInt32) (sendTime latency : UInt64) :
    Option State :=
  match s.sender c.device with
  | .idle =>
    let n := s.calls.length
    let s := { s with calls := s.calls ++ [c] }
    if c.Refused net then some (s.answer n .error)
    else if c.Small then some (postRemoteMsg net s n c next sendTime latency)
    else some (s.answer n (m2mSendResult .success))
  | _ => none

/-- The sender's next access to shared memory.  `memcpy` takes a negative size as a huge
one. -/
def sendStep (s : State) (d : UInt32) : Option State :=
  match s.sender d with
  | .fill w =>
    some ((s.setQueue w.queue ((s.queue w.queue).setHeader w.entry w.packet)).setSender d (.copy w))
  | .copy w =>
    if (s.queue w.queue).Waiting then none
    else if w.args.sizeb < 0 then some (s.exit d)
    else
      some (((s.setQueue w.queue ((s.queue w.queue).setPayload w.args.bytes)).setConflag d
        ⟨77, 0⟩).setSender d (.publish w))
  | .publish w => some ((s.publish w.queue).setSender d (.wait w.packet.call))
  | .wait n =>
    if (s.conflag d).dataflag = 77 then none
    else
      let rc := if (s.conflag d).dataflag ≠ 44 then M2MErr.transSuccess else .transFail
      some ((s.answer n (m2mSendResult rc)).setSender d .idle)
  | _ => none

/-- The router of `b` takes the packet it has chosen, one of the SMALL scheme.  `next` is
what `route_discovery` returns, `latency` what `transmission_latency` returns. -/
def takePacket (net : Net) (s : State) (b : UInt32) (q : Queue) (next : UInt32)
    (latency failAddr : UInt64) : Option State :=
  match s.router b with
  | .idle =>
    let l := s.queue q
    let p := l.head
    if net.nodeType b ≠ .zed ∧ q.reader = some b ∧ l.Waiting ∧ p.header.entryNum = -1 then
      let next := if p.header.receiverID = b then b else next
      match net.target b next with
      | none => some (s.exit b)
      | some dest =>
        let out := processPacket net.abi net.nodeType ⟨b, s.localtime b, latency, failAddr⟩ next
          p.header
        let p := ⟨p.call, out.packet⟩
        let s := s.setQueue q (l.setHeader l.consumer p)
        if out.transfail then
          some (((s.signal out.ack).setLocaltime b out.localtime).setRouter b (.drop q))
        else
          let time := if next = b then out.packet.sendTime else out.localtime
          some ((s.setQueue dest ((s.queue dest).locate (.router b))).setRouter b
            (.fill ⟨q, l.consumer, dest, (s.queue dest).producer, next, p, time⟩))
    else none
  | _ => none

/-- The answer to the sender, from header fields that the router reads in the entry it
has already released. -/
def answer (net : Net) (b : UInt32) (v : Move) (h : HQe) : UInt64 × Option Ack :=
  if v.next = b then
    let time := v.time + h.transTime
    (time, some ⟨h.senderID, time, 0⟩)
  else if h.receiverID = v.next ∧ net.nodeType v.next = .zed then
    (v.time, some ⟨h.senderID, v.time, 0⟩)
  else (v.time, none)

def routeStep (net : Net) (s : State) (b : UInt32) : Option State :=
  match s.router b with
  | .drop q => some ((s.setQueue q (s.queue q).release).setRouter b .idle)
  | .fill v =>
    let p := (s.queue v.source).header v.sourceEntry
    some ((s.setQueue v.target ((s.queue v.target).setHeader v.targetEntry p)).setRouter b
      (.copy v))
  | .copy v =>
    if (s.queue v.target).Waiting then none
    else
      let l := s.queue v.source
      let bs := (l.payload l.consumer).take (l.header v.sourceEntry).header.packetSize.toNat
      some ((s.setQueue v.target ((s.queue v.target).setPayload bs)).setRouter b (.release v))
  | .release v =>
    some ((s.setQueue v.source (s.queue v.source).release).setRouter b (.publish v))
  | .publish v => some ((s.publish v.target).setRouter b (.ack v))
  | .ack v =>
    let (time, a) := answer net b v ((s.queue v.source).header v.sourceEntry).header
    some (((s.signal a).setLocaltime b time).setRouter b .idle)
  | _ => none

/-- `m2m_get_local_msg` gives an entry back. -/
def receive (s : State) (z : UInt32) : Option State :=
  if (s.queue (.incoming z)).Waiting then
    some (s.setQueue (.incoming z) (s.queue (.incoming z)).release)
  else none

inductive Act
  | call (c : Call) (next : UInt32) (sendTime latency : UInt64)
  | send (d : UInt32)
  | take (b : UInt32) (q : Queue) (next : UInt32) (latency failAddr : UInt64)
  | route (b : UInt32)
  | recv (z : UInt32)
  | exit (d : UInt32)

def step (net : Net) (s : State) : Act → Option State
  | .call c next sendTime latency => m2mSend net s c next sendTime latency
  | .send d => sendStep s d
  | .take b q next latency failAddr => takePacket net s b q next latency failAddr
  | .route b => routeStep net s b
  | .recv z => receive s z
  | .exit d => some (s.exit d)

/-- What the receiver finds in the entries of call `c`. -/
structure Call.Delivered (c : Call) (m : Placed) : Prop where
  receiver : m.device = c.receiverID.toUInt32
  senderID : m.packet.header.senderID = c.device
  receiverID : m.packet.header.receiverID = c.receiverID.toUInt32
  payload : m.payload = c.bytes
  size : (m.payload.length : Int) = c.sizeb.toInt

/-- What has been reported in state `s`, seen from `s` or a later state `t`: a call that has
returned success has delivered its message, and of one that has returned anything else no
message is in the queue of any receiver. -/
def Truthful (s t : State) : Prop :=
  ∀ n c rc, s.calls[n]? = some c → s.result n = some rc →
    (rc = .transSuccess → ∃ m ∈ s.placed, m.packet.call = n ∧ c.Delivered m) ∧
    (rc ≠ .transSuccess → ∀ m ∈ t.placed, m.packet.call ≠ n)

/-- No process is in the middle of writing into the queue of an end device. -/
def Free (net : Net) (s : State) : Queue → Prop
  | .incoming z => net.nodeType z = .zed → (s.queue (.incoming z)).writer = none
  | _ => True

instance (net : Net) (s : State) (q : Queue) : Decidable (Free net s q) :=
  match q with
  | .incoming _ => inferInstanceAs (Decidable (_ → _))
  | .link _ _ => .isTrue trivial
  | .outgoing _ => .isTrue trivial

/-- The released entry still has the two IDs of the packet that the router moved. -/
def SameIDs (s : State) (v : Move) : Prop :=
  let h := ((s.queue v.source).header v.sourceEntry).header
  h.senderID = v.packet.header.senderID ∧ h.receiverID = v.packet.header.receiverID

instance (s : State) (v : Move) : Decidable (SameIDs s v) := inferInstanceAs (Decidable (_ ∧ _))

def InTime (s : State) : Router → Prop
  | .ack v => SameIDs s v
  | _ => True

instance (s : State) (p : Router) : Decidable (InTime s p) :=
  match p with
  | .ack v => inferInstanceAs (Decidable (SameIDs s v))
  | .idle | .drop _ | .fill _ | .copy _ | .release _ | .publish _ | .gone => .isTrue trivial

/-- The condition on a step: an accepted message fits into a queue entry, a router that
is not the receiver does not get its own ID from `route_discovery`, nobody else is
writing into the end device's queue that a packet is put into, and a router answers
before the entry it has released is filled with other IDs. -/
def Ok (net : Net) (s : State) : Act → Prop
  | .call c _ _ _ =>
    ¬ c.Refused net → c.Small ∧ ∀ q ∈ net.sendQueue c.device, Free net s q
  | .take b q next _ _ =>
    let r := (s.queue q).head.header.receiverID
    (r ≠ b → next ≠ b) ∧ ∀ dest ∈ net.target b (if r = b then b else next), Free net s dest
  | .route b => InTime s (s.router b)
  | _ => True

instance (net : Net) (s : State) (a : Act) : Decidable (Ok net s a) :=
  match a with
  | .call .. => inferInstanceAs (Decidable (_ → _))
  | .take .. => inferInstanceAs (Decidable (_ ∧ _))
  | .route b => inferInstanceAs (Decidable (InTime s (s.router b)))
  | .send _ | .recv _ | .exit _ => .isTrue trivial

end M2M.Network.Delivery
