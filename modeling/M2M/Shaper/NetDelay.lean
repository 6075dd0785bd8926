import M2M.Shaper.NetShaper

/-! The delay of new connections: `shaper.c`. -/

universe u

namespace M2M.Shaper

open M2M.Lib

variable {ω : Type u}

/-- What a session is found by. -/
structure SessionInfo where
  srcIp : UInt32
  dstIp : UInt32
  srcPort : UInt16
  dstPort : UInt16
  protocol : UInt8
deriving DecidableEq

/-- If there is a packet, then the connection is delayed. -/
structure Session (ω : Type u) where
  expiration : Int
  info : SessionInfo
  packet : Option (Packet ω)
deriving DecidableEq

def protocolTcp : UInt8 := 6

def protocolUdp : UInt8 := 17

def addressAt (data : List UInt8) (i : Nat) : UInt32 :=
  (data.getD i 0).toUInt32 <<< 24 ||| (data.getD (i + 1) 0).toUInt32 <<< 16 |||
    (data.getD (i + 2) 0).toUInt32 <<< 8 ||| (data.getD (i + 3) 0).toUInt32

def portAt (data : List UInt8) (i : Nat) : UInt16 :=
  (data.getD i 0).toUInt16 <<< 8 ||| (data.getD (i + 1) 0).toUInt16

/-- `_packet_SYN_flags`, with the session that it writes: `none` where it returns 0 before the
flags. -/
def packetSynFlags (data : List UInt8) : Option (SessionInfo × UInt8) :=
  -- the last four bytes are not counted
  if data.length < 14 + 4 then none
  else if data.getD 12 0 ≠ 0x08 ∨ data.getD 13 0 ≠ 0x00 then none
  else if data.length < 14 + 20 + 4 then none
  else if data.getD 14 0 &&& 15 < 5 ∨ data.getD 14 0 >>> 4 ≠ 4 then none
  else if data.getD (14 + 8) 0 = 0 then none
  else if data.getD (14 + 9) 0 ≠ protocolTcp ∧ data.getD (14 + 9) 0 ≠ protocolUdp then none
  else
    let header := 14 + 4 * (data.getD 14 0 &&& 15).toNat
    if data.length < header + 20 + 4 then none
    else
      some ({
        srcIp := addressAt data (14 + 12)
        dstIp := addressAt data (14 + 16)
        srcPort := portAt data header
        dstPort := portAt data (header + 2)
        protocol := data.getD (14 + 9) 0 }, data.getD (header + 13) 0 &&& 0x1f)

structure NetDelay (ω : Type u) where
  sessions : List (Session ω)
  numSessions : Int
  timer : Option Int
  active : Bool
  minMs : Int
  maxMs : Int

/-- `netdelay_lookup_session`. -/
def NetDelay.lookupSession (delay : NetDelay ω) (info : SessionInfo) : Option (Session ω) :=
  delay.sessions.find? fun node => node.info = info

def netdelayCreate : NetDelay ω := ⟨[], 0, none, false, 0, 0⟩

def rearmed (rearm : Option Int) (expiration : Int) : Option Int :=
  match rearm with
  | none => some expiration
  | some time => if expiration < time then some expiration else some time

/-- What the loop of `netdelay_expires` sends, the sessions that it leaves, and the time for which
the timer is armed. -/
def delayLoop (now : Int) : Option Int → List (Session ω) →
    List (Packet ω) × List (Session ω) × Option Int
  | rearm, [] => ([], [], rearm)
  | rearm, session :: next =>
    match session.packet with
    | none =>
      let rest := delayLoop now rearm next
      (rest.1, session :: rest.2.1, rest.2.2)
    | some packet =>
      if session.expiration ≤ now then
        let rest := delayLoop now rearm next
        (packet :: rest.1, { session with packet := none } :: rest.2.1, rest.2.2)
      else
        let rest := delayLoop now (rearmed rearm session.expiration) next
        (rest.1, session :: rest.2.1, rest.2.2)

/-- The delay after `netdelay_expires`, and the packets sent. -/
def netdelayExpires (delay : NetDelay ω) (now : Int) : NetDelay ω × List (Packet ω) :=
  let loop := delayLoop now none delay.sessions
  ({ delay with
    sessions := loop.2.1
    timer := loop.2.2.or delay.timer },
  loop.1)

def netdelaySetLatency (delay : NetDelay ω) (minMs maxMs : Int) : NetDelay ω × List (Packet ω) :=
  ({ delay with
    sessions := []
    numSessions := delay.numSessions - delay.sessions.length
    minMs
    maxMs
    active := minMs ≤ maxMs ∧ 0 < minMs },
  delay.sessions.filterMap Session.packet)

/-- `rand` is what `rand()` returns; between the two readings of the clock passes `wait`. -/
def netdelaySendAux (delay : NetDelay ω) (packet : Packet ω) (rand : Nat) (now : Int) (wait : Nat) :
    NetDelay ω × List (Packet ω) :=
  if delay.active && !packetIsInternal packet.data then
    match packetSynFlags packet.data with
    | none => (delay, [packet])
    | some (info, flags) =>
      if flags &&& 0x05 ≠ 0 then
        -- FIN or RST: drop connection
        match delay.lookupSession info with
        | none => (delay, [packet])
        | some _ =>
          ({ delay with
            sessions := delay.sessions.eraseP fun node => node.info = info
            numSessions := delay.numSessions - 1 }, [packet])
      else if flags &&& 0x12 = 0x02 then
        match delay.lookupSession info with
        | some session => if session.packet.isSome then (delay, []) else (delay, [packet])
        | none =>
          let range := delay.maxMs - delay.minMs
          let latency := if 0 < range then delay.minMs + rand % range else delay.minMs
          netdelayExpires { delay with
            sessions := ⟨now + latency, info, some packet⟩ :: delay.sessions
            numSessions := delay.numSessions + 1 } (now + wait)
      else (delay, [packet])
  else (delay, [packet])

/-- A frame that is never forwarded, and the other one because of which it is not: a held one that
it repeats, or a later one that drops the connection. -/
structure Loss (ω : Type u) where
  packet : Packet ω
  cause : Packet ω

/-- What `netdelay_send_aux` loses. -/
def losses (delay : NetDelay ω) (packet : Packet ω) : List (Loss ω) :=
  if delay.active && !packetIsInternal packet.data then
    match packetSynFlags packet.data with
    | none => []
    | some (info, flags) =>
      let held := ((delay.lookupSession info).bind Session.packet).toList
      if flags &&& 0x05 ≠ 0 then held.map fun held => ⟨held, packet⟩
      else if flags &&& 0x12 = 0x02 then held.map fun held => ⟨packet, held⟩
      else []
  else []

/-- A delay at a time, with the frames given to it, those it has sent and those it has lost. -/
structure Traced (ω : Type u) where
  delay : NetDelay ω
  clock : Int
  given : List (Packet ω)
  sent : List (Packet ω)
  lost : List (Loss ω)

namespace Traced

inductive Action (ω : Type u)
  | send (packet : Packet ω) (rand : Nat) (now : Int) (wait : Nat)
  | setLatency (minMs maxMs : Int)
  /-- The timer fires, at its time or late. -/
  | expire (now : Int)

def step : Machine.Step (Traced ω) (Action ω)
  | w, .send packet rand now wait =>
    let result := netdelaySendAux w.delay packet rand now wait
    if w.clock ≤ now then
      some ⟨result.1, now + wait, w.given ++ [packet], w.sent ++ result.2,
        w.lost ++ losses w.delay packet⟩
    else none
  | w, .setLatency minMs maxMs =>
    let result := netdelaySetLatency w.delay minMs maxMs
    some { w with delay := result.1, sent := w.sent ++ result.2 }
  | w, .expire now =>
    -- the timer is disarmed before its callback runs
    let result := netdelayExpires { w.delay with timer := none } now
    if w.clock ≤ now ∧ ∃ armed ∈ w.delay.timer, armed ≤ now then
      some { w with delay := result.1, clock := now, sent := w.sent ++ result.2 }
    else none

def Init (w : Traced ω) : Prop :=
  w.delay = netdelayCreate ∧ w.given = [] ∧ w.sent = [] ∧ w.lost = []

end Traced

end M2M.Shaper
