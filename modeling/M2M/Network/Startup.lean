import M2M.Lib.Machine
import M2M.Network.Packet
import Mathlib.Logic.Function.Basic

/-! The start-up of all devices as an interleaving machine: every device runs
`m2m_dbp_init`, `m2m_route_processor_init`, `m2m_send_recv_init` and `m2m_time_init`, and
a router's thread runs `time_sync` from its creation on.  Each access to a word of the
shared segment is one step. -/

namespace M2M.Network.Startup

open M2M.Lib.Machine

/-- The devices and their links; device 1 is the coordinator.  The parser of a device's
own line always stores at least one neighbour. -/
structure Config where
  n : Nat
  type : Nat → DeviceType
  neighbors : Nat → List Nat
  nonempty : 1 ≤ n
  coordinator : ∀ i, type i = .zc ↔ i = 1
  linked : ∀ i, neighbors i ≠ []
  inRange : ∀ i, ∀ j ∈ neighbors i, Device n j

/-- A coordinator and one other device, linked to each other. -/
def coordinatorAnd (type : DeviceType) (h : type ≠ .zc) : Config where
  n := 2
  type i := if i = 1 then .zc else type
  neighbors i := [if i = 1 then 2 else 1]
  nonempty := by decide
  coordinator i := by
    split <;> simp [*]
  linked i := by simp
  inRange i j hj := by
    simp only [List.mem_singleton] at hj
    subst hj
    split <;> decide

/-- Where a device's main thread is.  `reset` to `probeOne` are the coordinator's part of
`m2m_time_init`: `check` is the `while` test and `scan` the `for` loop of the counting. -/
inductive Pc
  | dbpInit
  | routeProcessorInit
  | sendRecvInit (queue : Nat)
  | reset (ind : Nat)
  | store
  | probeZero
  | check
  | scan (ind : Nat)
  | probeOne
  | wait
  | returned
  deriving DecidableEq

namespace Pc

/-- `m2m_send_recv_init` is complete. -/
def completed : Pc → Bool
  | dbpInit | routeProcessorInit | sendRecvInit _ => false
  | _ => true

/-- The start value has been stored in `m2m_time_init`. -/
def stored : Pc → Bool
  | dbpInit | routeProcessorInit | sendRecvInit _ | reset _ | store => false
  | _ => true

/-- A coordinator at this point has set the word of device `j` to `MAX_TIME`. -/
def hasReset : Pc → Nat → Bool
  | dbpInit, _ | routeProcessorInit, _ | sendRecvInit _, _ => false
  | reset ind, j => j < ind
  | _, _ => true

/-- Only the coordinator gets here. -/
def coordinates : Pc → Bool
  | reset _ | probeZero | check | scan _ | probeOne => true
  | _ => false

/-- The loops run from word 1 and from device 2. -/
def inBounds : Pc → Bool
  | reset ind => 1 ≤ ind
  | scan ind => 2 ≤ ind
  | _ => true

/-- The coordinator's `start` and `count` are in use. -/
def counting : Pc → Bool
  | check | scan _ | probeOne => true
  | _ => false

end Pc

/-- `time_sync` reads a neighbour's word up to three times. -/
inductive Read
  | warm | compare | take
  deriving DecidableEq

/-- A router's thread in `time_sync`: the neighbours left, `warmup` and `tmp_time`. -/
inductive Thread
  | off
  | sync (rest : List Nat) (warmup : Bool) (tmpTime : UInt64) (read : Read)
  deriving DecidableEq

/-- `word 0` is `action_probe` and `word i` the local time of device `i`; `start` and
`count` are locals of the coordinator, and `pending j k` counts the messages in queue `k`
of device `j`. -/
structure State where
  pc : Nat → Pc
  word : Nat → UInt64
  start : Nat → Bool
  count : Nat
  thread : Nat → Thread
  pending : Nat → Nat → Nat

/-- A zeroed segment. -/
def State.init : State where
  pc _ := .dbpInit
  word _ := 0
  start _ := false
  count := 0
  thread _ := .off
  pending _ _ := 0

namespace State

variable (s : State)

def setPc (i : Nat) (p : Pc) : State := { s with pc := Function.update s.pc i p }

def setWord (i : Nat) (v : UInt64) : State := { s with word := Function.update s.word i v }

def setThread (i : Nat) (t : Thread) : State := { s with thread := Function.update s.thread i t }

def setPending (j k m : Nat) : State :=
  { s with pending := Function.update s.pending j (Function.update (s.pending j) k m) }

/-- `start[ind] = 1; count++` -/
def arrive (ind : Nat) : State :=
  { s with start := Function.update s.start ind true, count := s.count + 1 }

variable (i j k m : Nat) (p : Pc) (v : UInt64) (t : Thread)

@[simp] theorem setPc_pc : (s.setPc i p).pc = Function.update s.pc i p := rfl
@[simp] theorem setPc_word : (s.setPc i p).word = s.word := rfl
@[simp] theorem setPc_start : (s.setPc i p).start = s.start := rfl
@[simp] theorem setPc_count : (s.setPc i p).count = s.count := rfl
@[simp] theorem setPc_thread : (s.setPc i p).thread = s.thread := rfl
@[simp] theorem setPc_pending : (s.setPc i p).pending = s.pending := rfl

@[simp] theorem setWord_pc : (s.setWord i v).pc = s.pc := rfl
@[simp] theorem setWord_word : (s.setWord i v).word = Function.update s.word i v := rfl
@[simp] theorem setWord_start : (s.setWord i v).start = s.start := rfl
@[simp] theorem setWord_count : (s.setWord i v).count = s.count := rfl
@[simp] theorem setWord_thread : (s.setWord i v).thread = s.thread := rfl
@[simp] theorem setWord_pending : (s.setWord i v).pending = s.pending := rfl

@[simp] theorem setThread_pc : (s.setThread i t).pc = s.pc := rfl
@[simp] theorem setThread_word : (s.setThread i t).word = s.word := rfl
@[simp] theorem setThread_start : (s.setThread i t).start = s.start := rfl
@[simp] theorem setThread_count : (s.setThread i t).count = s.count := rfl
@[simp] theorem setThread_thread : (s.setThread i t).thread = Function.update s.thread i t := rfl
@[simp] theorem setThread_pending : (s.setThread i t).pending = s.pending := rfl

@[simp] theorem setPending_pc : (s.setPending j k m).pc = s.pc := rfl
@[simp] theorem setPending_word : (s.setPending j k m).word = s.word := rfl
@[simp] theorem setPending_start : (s.setPending j k m).start = s.start := rfl
@[simp] theorem setPending_count : (s.setPending j k m).count = s.count := rfl
@[simp] theorem setPending_thread : (s.setPending j k m).thread = s.thread := rfl

@[simp] theorem arrive_pc : (s.arrive i).pc = s.pc := rfl
@[simp] theorem arrive_word : (s.arrive i).word = s.word := rfl
@[simp] theorem arrive_start : (s.arrive i).start = Function.update s.start i true := rfl
@[simp] theorem arrive_count : (s.arrive i).count = s.count + 1 := rfl
@[simp] theorem arrive_thread : (s.arrive i).thread = s.thread := rfl
@[simp] theorem arrive_pending : (s.arrive i).pending = s.pending := rfl

theorem setPending_zero {j k : Nat} (h : s.pending = fun _ _ => 0) :
    (s.setPending j k 0).pending = fun _ _ => 0 := by
  funext j' k'
  by_cases hj : j' = j
  · simp [setPending, h, hj]
  · simp [setPending, h]

end State

namespace Config

variable (c : Config)

/-- The words that `time_sync` reads: those of the end devices among the neighbours, or
else those of the routers. -/
def syncList (i : Nat) : List Nat :=
  let ends := (c.neighbors i).filter (fun j => c.type j = .zed)
  if ends ≠ [] then ends else (c.neighbors i).filter (fun j => c.type j ≠ .zed)

def startSync (i : Nat) : Thread := .sync (c.syncList i) false maxTime .warm

end Config

/-- The queues whose indices `m2m_send_recv_init` resets. -/
def queueNum : DeviceType → Nat
  | .zc => nodeMaxLinks + 2
  | .zr => nodeMaxLinks
  | .zed => 1

/-- The next step of device `i`'s main thread. -/
def mainStep (c : Config) (s : State) (i : Nat) : Option State :=
  match s.pc i with
  | .dbpInit => some (s.setPc i .routeProcessorInit)
  | .routeProcessorInit =>
    let s := s.setPc i (.sendRecvInit 0)
    some (if c.type i = .zr then s.setThread i (c.startSync i) else s)
  | .sendRecvInit queue =>
    if queue < queueNum (c.type i) then
      some ((s.setPending i queue 0).setPc i (.sendRecvInit (queue + 1)))
    else some (s.setPc i (if c.type i = .zc then .reset 1 else .store))
  | .reset ind =>
    if ind ≤ c.n then some ((s.setWord ind maxTime).setPc i (.reset (ind + 1)))
    else some (s.setPc i .store)
  | .store => some ((s.setWord i 0).setPc i (if c.type i = .zc then .probeZero else .wait))
  | .probeZero =>
    some (({ s with start := fun _ => false, count := 0 }.setWord 0 0).setPc i .check)
  | .check => some (s.setPc i (if s.count < c.n - 1 then .scan 2 else .probeOne))
  | .scan ind =>
    if ind ≤ c.n then
      some ((if s.start ind = false ∧ s.word ind ≠ maxTime then s.arrive ind else s).setPc i
        (.scan (ind + 1)))
    else some (s.setPc i .check)
  | .probeOne => some ((s.setWord 0 1).setPc i .returned)
  | .wait => if s.word 0 = 1 then some (s.setPc i .returned) else none
  | .returned => none

/-- The next step of router `i`'s thread: a read of `time_sync`, or the store of its
result, after which the thread calls it again. -/
def threadStep (c : Config) (s : State) (i : Nat) : Option State :=
  match s.thread i with
  | .off => none
  | .sync [] warmup tmpTime _ =>
    some ((s.setWord i (if warmup then 0 else tmpTime)).setThread i (c.startSync i))
  | .sync (j :: rest) warmup tmpTime .warm =>
    some (s.setThread i (if s.word j = maxTime then .sync rest true tmpTime .warm
      else .sync (j :: rest) warmup tmpTime .compare))
  | .sync (j :: rest) warmup tmpTime .compare =>
    some (s.setThread i (if tmpTime > s.word j then .sync (j :: rest) warmup tmpTime .take
      else .sync rest warmup tmpTime .warm))
  | .sync (j :: rest) warmup _ .take => some (s.setThread i (.sync rest warmup (s.word j) .warm))

/-- `publish`, `post` and `receive` are what a device does after its initialisation, and
`forward` is what a router's thread does with a message in one of its queues. -/
inductive Act
  | main (i : Nat)
  | thread (i : Nat)
  | publish (i : Nat) (v : UInt64)
  | post (i j queue : Nat)
  | receive (i queue : Nat)
  | forward (i queue j queue' : Nat)

def step (c : Config) : Step State Act
  | s, .main i => if Device c.n i then mainStep c s i else none
  | s, .thread i => if Device c.n i then threadStep c s i else none
  | s, .publish i v =>
    if Device c.n i ∧ s.pc i = .returned then some (s.setWord i v) else none
  | s, .post i j queue =>
    if Device c.n i ∧ s.pc i = .returned ∧ Device c.n j then
      some (s.setPending j queue (s.pending j queue + 1))
    else none
  | s, .receive i queue =>
    if Device c.n i ∧ s.pc i = .returned ∧ 0 < s.pending i queue then
      some (s.setPending i queue (s.pending i queue - 1))
    else none
  | s, .forward i queue j queue' =>
    if 0 < s.pending i queue then
      let s := s.setPending i queue (s.pending i queue - 1)
      some (s.setPending j queue' (s.pending j queue' + 1))
    else none

def Init (s : State) : Prop := s = State.init

end M2M.Network.Startup
