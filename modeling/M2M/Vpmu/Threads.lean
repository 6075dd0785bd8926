import M2M.Lib.Locked
import M2M.Lib.Machine
import M2M.Lib.Ring
import M2M.Vpmu.Dinero

/-! The CPU thread and the two worker threads of the build with `CONFIG_VPMU_THREAD`.
Each access to a variable that two threads use is one step. -/

universe u

namespace M2M.Vpmu.Threads

open M2M.Lib M2M.Lib.Locked

inductive Worker
  | branch | dinero
  deriving DecidableEq

/-- How far a worker is with its suspension: before `pthread_mutex_lock`, before
`pthread_cond_wait`, blocked in it, woken up and waiting for the mutex, before
`pthread_mutex_unlock`. -/
inductive Sleep
  | lock
  | wait
  | blocked
  | woken
  | unlock
  deriving DecidableEq

/-- One step of the suspension of `w`: where it is then (`none` when it is over) and who
holds `mutex_suspend`. -/
def Sleep.step (w : Worker) (mutex : Option Worker) :
    Sleep → Option (Option Sleep × Option Worker)
  | lock => if mutex = none then some (some .wait, some w) else none
  | wait => some (some .blocked, none)
  | blocked => none
  | woken => if mutex = none then some (some .unlock, some w) else none
  | unlock => some (none, none)

/-- Blocked or about to be: the worker looks at nothing before it is woken. -/
def Sleep.deaf : Sleep → Bool
  | lock | wait | blocked => true
  | woken | unlock => false

def branchQueueSize : Nat := 200
def traceQueueSize : Nat := 100
def traceSet : Nat := 500

/-- In `put_event`: not at all, or in the wait for a place.  The update of the count
follows. -/
inductive Put
  | idle
  | full
  deriving DecidableEq

/-- In `branch_thread`: the `while` tests, the read of the slot, its overwriting, the
suspension. -/
inductive BranchPc
  | enabled
  | empty
  | still
  | read
  | fill
  | asleep (z : Sleep)
  deriving DecidableEq

/-- `issued` and `seen` record the signals that `put_event` was called with and those that
`branch_set` was called with. -/
structure BranchQueue where
  branchTrace : Nat → UInt8
  branchBufferSize : Counter
  branchIndexHead : Nat
  put : Put
  branchIndexTail : Nat
  worker : BranchPc
  issued : List UInt32
  seen : List UInt8

namespace BranchQueue

def init : BranchQueue where
  branchTrace _ := 0
  branchBufferSize := .zero
  branchIndexHead := 0
  put := .idle
  branchIndexTail := 0
  worker := .enabled
  issued := []
  seen := []

variable (q : BranchQueue)

/-- The CPU thread is inside `put_event`. -/
def putting : Bool := q.put ≠ .idle || q.branchBufferSize.update .producer ≠ .idle

/-- `put_event(0xb, cur_sig)` up to its first access to the ring. -/
def putEvent (curSig : UInt32) : BranchQueue :=
  { q with
    branchTrace := Function.update q.branchTrace q.branchIndexHead curSig.toUInt8
    put := .full
    issued := q.issued ++ [curSig] }

def putStep : Option BranchQueue :=
  match q.put with
  | .full =>
    if q.branchBufferSize.value = branchQueueSize - 1 then some q
    else some { q with
      branchIndexHead := (q.branchIndexHead + 1) % branchQueueSize
      put := .idle
      branchBufferSize := q.branchBufferSize.start .producer }
  | .idle =>
    (q.branchBufferSize.step .producer (· + 1)).map
      (fun size => { q with branchBufferSize := size })

/-- A step of `branch_thread` outside its suspension. -/
def branchThread (vpmuEnabled : Bool) : Option BranchQueue :=
  if q.branchBufferSize.update .consumer ≠ .idle then
    (q.branchBufferSize.step .consumer (· - 1)).map
      (fun size => { q with branchBufferSize := size })
  else
    match q.worker with
    | .enabled => some { q with worker := if vpmuEnabled then .empty else .asleep .lock }
    | .empty =>
      some { q with worker := if q.branchBufferSize.value = 0 then .still else .read }
    | .still => some { q with worker := if vpmuEnabled then .empty else .asleep .lock }
    | .read =>
      some { q with seen := q.seen ++ [q.branchTrace q.branchIndexTail], worker := .fill }
    | .fill => some { q with
        branchTrace := Function.update q.branchTrace q.branchIndexTail 33
        branchIndexTail := (q.branchIndexTail + 1) % branchQueueSize
        branchBufferSize := q.branchBufferSize.start .consumer
        worker := .enabled }
    | .asleep _ => none

/-- A worker that returns from its suspension starts with the `while` test. -/
def setSleep (z : Option Sleep) : BranchQueue :=
  { q with worker := match z with
    | some z => .asleep z
    | none => .enabled }

end BranchQueue

/-- In `cache_ref`: the wait for a line, the write, and the start of a new line after the
update of the count. -/
inductive Ref
  | idle
  | full (r : MemRef)
  | write (r : MemRef)
  | advance
  deriving DecidableEq

namespace Ref

/-- The reference that is not in the buffer yet. -/
def unwritten : Ref → Option MemRef
  | full r | write r => some r
  | idle | advance => none

end Ref

/-- In `dinero_thread`: the two parts of the `while` test, the `if` test, the copy of a
reference, `d4ref`, and the step to the next line after the update of the count. -/
inductive DineroPc
  | enabled
  | used
  | any
  | read
  | simulate (r : MemRef)
  | advance
  | asleep (z : Sleep)
  deriving DecidableEq

/-- `issued` and `handed` record the calls of `cache_ref` and those of `d4ref`. -/
structure TraceBuffer where
  traceBuffer : Nat × Nat → MemRef
  setUsed : Counter
  set : Nat
  index : Nat
  ref : Ref
  readSet : Nat
  readIndex : Nat
  worker : DineroPc
  issued : List MemRef
  handed : List (CacheId × MemRef)

/-- `set++; if(set == TRACE_SET) set=0;` -/
def nextSet (set : Nat) : Nat := if set + 1 = traceSet then 0 else set + 1

namespace TraceBuffer

def init : TraceBuffer where
  traceBuffer _ := ⟨0, 0, 0⟩
  setUsed := .zero
  set := 0
  index := 0
  ref := .idle
  readSet := 0
  readIndex := 0
  worker := .enabled
  issued := []
  handed := []

variable (t : TraceBuffer)

/-- The CPU thread is inside `cache_ref`. -/
def referring : Bool := t.ref ≠ .idle

def cacheRef (r : MemRef) : TraceBuffer :=
  { t with ref := .full r, issued := t.issued ++ [r] }

def refStep : Option TraceBuffer :=
  match t.ref with
  | .idle => none
  | .full r => some { t with ref := if t.setUsed.value = traceSet then .full r else .write r }
  | .write r =>
    let t := { t with
      traceBuffer := Function.update t.traceBuffer (t.set, t.index) r
      index := t.index + 1 }
    if t.index = traceQueueSize then
      some { t with ref := .advance, setUsed := t.setUsed.start .producer }
    else some { t with ref := .idle }
  | .advance =>
    if t.setUsed.update .producer ≠ .idle then
      (t.setUsed.step .producer (· + 1)).map (fun used => { t with setUsed := used })
    else some { t with index := 0, set := nextSet t.set, ref := .idle }

/-- A step of `dinero_thread` outside its suspension, with the reference that it passes
to `d4ref`. -/
def dineroThread (vpmuEnabled : Bool) : Option (TraceBuffer × Option MemRef) :=
  match t.worker with
  | .enabled => some ({ t with worker := if vpmuEnabled then .any else .used }, none)
  | .used =>
    some ({ t with worker := if t.setUsed.value > 0 then .any else .asleep .lock }, none)
  | .any => some ({ t with worker := if t.setUsed.value > 0 then .read else .enabled }, none)
  | .read =>
    some ({ t with worker := .simulate (t.traceBuffer (t.readSet, t.readIndex)) }, none)
  | .simulate r =>
    let t := { t with readIndex := t.readIndex + 1, handed := t.handed ++ [(r.cache, r)] }
    if t.readIndex = traceQueueSize then
      some ({ t with worker := .advance, setUsed := t.setUsed.start .consumer }, some r)
    else some ({ t with worker := .read }, some r)
  | .advance =>
    if t.setUsed.update .consumer ≠ .idle then
      (t.setUsed.step .consumer (· - 1)).map (fun used => ({ t with setUsed := used }, none))
    else
      some ({ t with readIndex := 0, readSet := nextSet t.readSet, worker := .enabled }, none)
  | .asleep _ => none

def setSleep (z : Option Sleep) : TraceBuffer :=
  { t with worker := match z with
    | some z => .asleep z
    | none => .enabled }

end TraceBuffer

/-- What else the CPU thread is doing: `special_write` on the way to a timing model, step
by step, or `VPMU_sync_all`, which has just returned at `synced`. -/
inductive Cpu
  | run
  | enable (m : TimingModel)
  | model (m : TimingModel)
  | turnOn (m : TimingModel)
  | signalBranch (m : TimingModel)
  | signalCache (m : TimingModel)
  | sync
  | synced
  deriving DecidableEq

/-- `caches` is what `dinero_thread` simulates, `unthreaded` the same caches in the build
without `CONFIG_VPMU_THREAD`; `issuedAtReset` and `handedAtReset` count the references up
to the last `VPMU_reset`. -/
structure State (σ : Type u) where
  vpmuEnabled : Bool
  timingRegister : UInt32
  cpu : Cpu
  mutexSuspend : Option Worker
  branch : BranchQueue
  trace : TraceBuffer
  caches : σ
  unthreaded : σ
  issuedAtReset : Nat
  handedAtReset : Nat

namespace State

variable {σ : Type u} (s : State σ)

/-- The start of the program, with the caches as `d4setup` leaves them. -/
def init (caches : σ) : State σ where
  vpmuEnabled := false
  timingRegister := 0
  cpu := .run
  mutexSuspend := none
  branch := .init
  trace := .init
  caches := caches
  unthreaded := caches
  issuedAtReset := 0
  handedAtReset := 0

/-- The CPU thread is in none of the functions above. -/
def idle : Bool := s.cpu = .run && !s.branch.putting && !s.trace.referring

def branchOn : Bool := simulatorStatus s.timingRegister branchSim

def cacheOn : Bool := simulatorStatus s.timingRegister (dcacheSim ||| icacheSim)

/-- `VPMU_reset`, as far as the threads see it. -/
def reset (d : Simulator σ) : State σ :=
  { s with
    timingRegister := 0
    caches := d.resetCache s.caches
    unthreaded := d.resetCache s.unthreaded
    issuedAtReset := s.trace.issued.length
    handedAtReset := s.trace.handed.length }

/-- `pthread_cond_signal`, or a spurious wake-up. -/
def wake : Worker → State σ
  | .branch =>
    { s with branch := if s.branch.worker = .asleep .blocked then s.branch.setSleep (some .woken)
        else s.branch }
  | .dinero =>
    { s with trace := if s.trace.worker = .asleep .blocked then s.trace.setSleep (some .woken)
        else s.trace }

/-- The next step of `special_write` or `VPMU_sync_all`. -/
def cpuStep : Option (State σ) :=
  match s.cpu with
  | .run => none
  | .enable m => some { s with vpmuEnabled := true, cpu := .model m }
  | .model m => some { s with timingRegister := m.code, cpu := .turnOn m }
  | .turnOn m =>
    some { s with timingRegister := s.timingRegister ||| m.mask, cpu := .signalBranch m }
  | .signalBranch m =>
    let s := if simulatorStatus m.mask branchSim then s.wake .branch else s
    some { s with cpu := .signalCache m }
  | .signalCache m =>
    let s := if simulatorStatus m.mask (dcacheSim ||| icacheSim) then s.wake .dinero else s
    some { s with cpu := .run }
  | .sync => some { s with cpu := if s.trace.setUsed.value > 0 then .sync else .synced }
  | .synced => some { s with cpu := .run }

def branchStep : Option (State σ) :=
  match s.branch.worker with
  | .asleep z =>
    (z.step .branch s.mutexSuspend).map (fun (z, mutex) =>
      { s with branch := s.branch.setSleep z, mutexSuspend := mutex })
  | _ => (s.branch.branchThread s.vpmuEnabled).map (fun q => { s with branch := q })

def dineroStep (d : Simulator σ) : Option (State σ) :=
  match s.trace.worker with
  | .asleep z =>
    (z.step .dinero s.mutexSuspend).map (fun (z, mutex) =>
      { s with trace := s.trace.setSleep z, mutexSuspend := mutex })
  | _ =>
    (s.trace.dineroThread s.vpmuEnabled).map (fun (t, passed) =>
      { s with trace := t, caches := passed.elim s.caches (d.pass s.caches) })

end State

/-- `put` and `ref` are `HELPER(branch_predictor)` and the callers of `cache_ref`, which
test the flag and the simulators first; `enable` is `special_write` with a timing model. -/
inductive Act
  | put (curSig : UInt32)
  | putStep
  | ref (addr rw dataSize : UInt32)
  | refStep
  | enable (m : TimingModel)
  | disable
  | reset
  | sync
  | cpu
  | worker (w : Worker)
  | spurious (w : Worker)

def step {σ : Type u} (d : Simulator σ) : Machine.Step (State σ) Act := fun s a =>
  match a with
  | .put curSig =>
    if s.idle ∧ s.vpmuEnabled ∧ s.branchOn then
      some { s with branch := s.branch.putEvent curSig }
    else none
  | .putStep => s.branch.putStep.map (fun q => { s with branch := q })
  | .ref addr rw dataSize =>
    if s.idle ∧ s.vpmuEnabled ∧ s.cacheOn then
      let r := MemRef.ofArgs addr rw dataSize
      some { s with trace := s.trace.cacheRef r, unthreaded := d.pass s.unthreaded r }
    else none
  | .refStep => s.trace.refStep.map (fun t => { s with trace := t })
  | .enable m => if s.idle then some { s.reset d with cpu := .enable m } else none
  | .disable => if s.idle then some { s with vpmuEnabled := false } else none
  | .reset => if s.idle then some (s.reset d) else none
  | .sync =>
    if s.idle then some { s with cpu := if s.cacheOn then .sync else .run } else none
  | .cpu => s.cpuStep
  | .worker .branch => s.branchStep
  | .worker .dinero => s.dineroStep d
  | .spurious w => some (s.wake w)

def Init {σ : Type u} (caches : σ) (s : State σ) : Prop := s = State.init caches

/-- `special_write` up to the return of `vpmu_model_setup`. -/
def enableAll (m : TimingModel) : List Act := .enable m :: List.replicate 5 .cpu

def putAll (curSig : UInt32) : List Act := .put curSig :: List.replicate 5 .putStep

/-- A call of `cache_ref` that does not fill its line. -/
def refAll (addr rw dataSize : UInt32) : List Act :=
  .ref addr rw dataSize :: List.replicate 2 .refStep

/-- As many calls of `cache_ref` as fill a line. -/
def refLine (addr rw dataSize : UInt32) : List Act :=
  List.flatten [(List.replicate traceQueueSize (refAll addr rw dataSize)).flatten,
    List.replicate 5 .refStep]

/-- `dinero_thread` from one `while` test to the next, with a full line in the buffer. -/
def dineroRound : List Act := List.replicate (2 * traceQueueSize + 7) (.worker .dinero)

/-- `branch_thread` from one `while` test to the next, with a signal in the ring. -/
def branchRound : List Act := List.replicate 8 (.worker .branch)

end M2M.Vpmu.Threads
