import M2M.Lib.Machine
import M2M.Network.Packet
import Mathlib.Logic.Function.Basic

/-! A router's search for the earliest packet and its wait for the neighbours' clocks in
`m2m_route_processor_create`, interleaved with the `m2m_send` and `m2m_recv` calls of the
neighbours. -/

namespace M2M.Network.Scan

open M2M.Lib.Machine

/-- Who puts the packets into a queue of the router: the end device or the router at the
other side of the link, or the coordinator's own device. -/
inductive Kind
  | endDevice | router | own
  deriving DecidableEq

/-- The router's queues are `0..searchNum - 1`.  `oneHop` is the value of
`one_hop_latency("zigbee")`, which the source computes in floating point. -/
structure Config where
  searchNum : Nat
  kind : Nat → Kind
  oneHop : UInt64

structure Packet where
  sendTime : UInt64
  transTime : UInt64
  deriving DecidableEq

def Packet.arrival (p : Packet) : UInt64 := p.sendTime + p.transTime

def Packet.earlier (p q : Packet) : Bool :=
  q.arrival > p.arrival || q.arrival == p.arrival && q.sendTime > p.sendTime

/-- A neighbouring device.  In `posting` the header is filled in and not yet published; the
clock word is updated in between.  A receive saves the clock in `tmp_time`, publishes
`MAX_TIME - 1` while it waits, and restores the saved time; a poll that finds `tmp_time`
zero takes it for a first one. -/
inductive Neighbor
  | running
  | posting (p : Packet) (synced : Bool)
  | waitAck
  | recvSaved (tmpTime : UInt64)
  | recvWait (tmpTime : UInt64)
  | recvWoken (tmpTime : UInt64)
  deriving DecidableEq

namespace Neighbor

/-- The packet that is on its way into the queue. -/
def inFlight : Neighbor → Option Packet
  | posting p _ => some p
  | _ => none

/-- The clock word is past the packet, and the router cannot see it yet. -/
def unpublished : Neighbor → Option Packet
  | posting p true => some p
  | _ => none

def saved : Neighbor → Option UInt64
  | recvSaved t | recvWait t | recvWoken t => some t
  | _ => none

def waiting : Neighbor → Bool
  | recvWait _ => true
  | _ => false

end Neighbor

/-- `packet_ind` and the times of the earliest packet found so far. -/
structure Candidate where
  link : Nat
  packet : Packet
  deriving DecidableEq

/-- Where the router's thread is.  `empty` is the test for a packet at all, `find` the
search for the earliest one; each round of the wait loop looks at a queue (`look`) and
then at the clock of its neighbour (`clock`). -/
inductive Phase
  | empty (index : Nat)
  | find (index : Nat) (best : Option Candidate)
  | look (index : Nat) (best : Candidate) (deadline : Nat → Bool) (deadlineCount : Nat)
  | clock (index : Nat) (best : Candidate) (deadline : Nat → Bool) (deadlineCount : Nat)
  | ready (best : Candidate) (deadline : Nat → Bool)

/-- `clock` is a device's own time and `word` the one it has published; `queue` holds the
published packet (a queue has room for one).  `processed` lists the arrival times of the
processed packets, the last one first. -/
structure State where
  nb : Nat → Neighbor
  clock : Nat → UInt64
  word : Nat → UInt64
  queue : Nat → Option Packet
  phase : Phase
  processed : List UInt64

def State.init : State where
  nb _ := .running
  clock _ := 0
  word _ := 0
  queue _ := none
  phase := .empty 0
  processed := []

namespace State

variable (s : State)

@[simp] def setNb (k : Nat) (n : Neighbor) : State := { s with nb := Function.update s.nb k n }

@[simp] def setClock (k : Nat) (t : UInt64) : State :=
  { s with clock := Function.update s.clock k t }

@[simp] def setWord (k : Nat) (t : UInt64) : State :=
  { s with word := Function.update s.word k t }

@[simp] def setQueue (k : Nat) (q : Option Packet) : State :=
  { s with queue := Function.update s.queue k q }

@[simp] def setPhase (p : Phase) : State := { s with phase := p }

end State

def noDeadline : Nat → Bool := fun _ => false

/-- The search keeps the first of the earliest packets. Both times start from `MAX_TIME`. -/
def Candidate.improve (best : Option Candidate) (index : Nat) (q : Option Packet) :
    Option Candidate :=
  match q with
  | none => best
  | some p =>
    if p.earlier (best.elim ⟨maxTime, 0⟩ Candidate.packet) then some ⟨index, p⟩ else best

/-- `tmp_packet_mintime <= t` -/
def Config.reached (c : Config) (mintime t : UInt64) : Bool :=
  (if mintime > c.oneHop then mintime - c.oneHop else 0) ≤ t

/-- A neighbour that is not the sender and has not been counted yet is counted now. -/
def exceeds (c : Config) (s : State) (index : Nat) (best : Candidate) (deadline : Nat → Bool) :
    Bool :=
  !deadline index && index != best.link && c.reached best.packet.arrival (s.word index)

def scanStep (c : Config) (s : State) : State :=
  match s.phase with
  | .empty index =>
    if index < c.searchNum then
      s.setPhase (if (s.queue index).isSome then .find 0 none else .empty (index + 1))
    else s.setPhase (.empty 0)
  | .find index best =>
    if index < c.searchNum then
      s.setPhase (.find (index + 1) (Candidate.improve best index (s.queue index)))
    else
      s.setPhase (match best with
        | none => .empty 0
        | some b => if c.searchNum > 2 then .look 0 b noDeadline 0 else .ready b noDeadline)
  | .look index best deadline count =>
    if index < c.searchNum then
      s.setPhase (match s.queue index with
        | none => .clock index best deadline count
        | some p =>
          if p.earlier best.packet then .clock index ⟨index, p⟩ noDeadline 0
          else .clock index best deadline count)
    else
      s.setPhase (if count = c.searchNum - 2 then .ready best deadline
        else .look 0 best deadline count)
  | .clock index best deadline count =>
    s.setPhase (if exceeds c s index best deadline then
        .look (index + 1) best (Function.update deadline index true) (count + 1)
      else .look (index + 1) best deadline count)
  | .ready best _ =>
    { (s.setQueue best.link none).setPhase (.empty 0) with
      processed := best.packet.arrival :: s.processed }

/-- One step of the router (`scan`), of a device that sends or receives, of the
coordinator's CPU (`publish`), or of a neighbouring router (`sync`, `hand`).  The times
that `ack` and `recvDone` carry come from the routers behind. -/
inductive Act
  | scan
  | cpu (k : Nat) (d : UInt64)
  | publish (k : Nat)
  | send (k : Nat) (transTime : UInt64)
  | sendFail (k : Nat) (failLatency : UInt64)
  | sendSync (k : Nat)
  | sendPost (k : Nat)
  | ack (k : Nat) (transtime : UInt64)
  | recv (k : Nat)
  | recvWait (k : Nat)
  | recvWake (k : Nat)
  | recvDone (k : Nat) (arrival : UInt64)
  | sync (k : Nat) (t : UInt64)
  | hand (k : Nat) (p : Packet)

/-- A step of `m2m_post_remote_msg` or `m2m_get_local_msg` of the device at queue `k`. -/
def deviceStep (c : Config) (s : State) (k : Nat) : Act → Option State
  | .cpu _ d => if s.nb k = .running then some (s.setClock k (s.clock k + d)) else none
  | .publish _ =>
    if s.nb k = .running ∧ c.kind k = .own then some (s.setWord k (s.clock k)) else none
  | .send _ transTime =>
    -- a latency of 0 stands for a failure
    if s.nb k = .running ∧ transTime ≠ 0 then
      some ((s.setNb k (.posting ⟨s.clock k, transTime⟩ false)).setClock k
        (s.clock k + transTime))
    else none
  | .sendFail _ failLatency =>
    if s.nb k = .running then
      some ((s.setClock k (s.clock k + failLatency)).setWord k (s.clock k + failLatency))
    else none
  | .sendSync _ =>
    match s.nb k with
    | .posting p false => some ((s.setWord k (s.clock k)).setNb k (.posting p true))
    | _ => none
  | .sendPost _ =>
    match s.nb k with
    | .posting p true =>
      if s.queue k = none then some ((s.setQueue k (some p)).setNb k .waitAck) else none
    | _ => none
  | .ack _ transtime =>
    if s.nb k = .waitAck then
      let t := s.clock k + (transtime - s.word k)
      some (((s.setClock k t).setWord k t).setNb k .running)
    else none
  | .recv _ =>
    if s.nb k = .running ∨ s.nb k = .recvWait 0 then
      some ((s.setWord k (s.clock k)).setNb k (.recvSaved (s.clock k)))
    else none
  | .recvWait _ =>
    match s.nb k with
    | .recvSaved t => some ((s.setWord k (maxTime - 1)).setNb k (.recvWait t))
    | _ => none
  | .recvWake _ =>
    match s.nb k with
    | .recvWait t => some ((s.setWord k t).setNb k (.recvWoken t))
    | _ => none
  | .recvDone _ arrival =>
    match s.nb k with
    | .recvWoken _ =>
      let t := if s.word k < arrival then s.clock k + (arrival - s.word k) else s.clock k
      some (((s.setClock k t).setWord k t).setNb k .running)
    | _ => none
  | _ => none

/-- A neighbouring router writes what its `time_sync` returns, and hands packets over. -/
def routerStep (s : State) (k : Nat) : Act → Option State
  | .sync _ t => some (s.setWord k t)
  | .hand _ p =>
    if s.queue k = none ∧ p.transTime ≠ 0 then some (s.setQueue k (some p)) else none
  | _ => none

/-- The queue whose neighbour takes the step. -/
def Act.queue? : Act → Option Nat
  | .scan => none
  | .cpu k _ | .publish k | .send k _ | .sendFail k _ | .sendSync k | .sendPost k | .ack k _
  | .recv k | .recvWait k | .recvWake k | .recvDone k _ | .sync k _ | .hand k _ => some k

def step (c : Config) : Step State Act := fun s a =>
  match a.queue? with
  | none => some (scanStep c s)
  | some k =>
    if k < c.searchNum then
      if c.kind k = .router then routerStep s k a else deviceStep c s k a
    else none

def Init (s : State) : Prop := s = State.init

end M2M.Network.Scan
