import M2M.Memcheck.AllocMap
import M2M.Memcheck.MMRangeMap

/-! The descriptors of processes and threads: `memcheck_proc_management.c`.  A descriptor has a
handle, NULL is `none`, and a handler is `none` as soon as it uses a pointer to no descriptor. -/

open M2M.Lib

namespace M2M.Memcheck

abbrev CString := List UInt8

def procFlagExecuting : UInt32 := 1

def procFlagImagePathReplaced : UInt32 := 4

def procFlagLibcInitialized : UInt32 := 8

def mdescFlagTransitionEntry : UInt32 := 1

def mdescFlagInheritedOnFork : UInt32 := 2

structure ThreadCallStackEntry where
  callAddress : UInt32
  callAddressRel : UInt32
  retAddress : UInt32
  retAddressRel : UInt32
  modulePath : CString

structure ThreadDesc where
  process : Nat
  callStack : List ThreadCallStackEntry
  tid : UInt32

structure ProcDesc (τ υ : Type) where
  allocMap : τ
  mmrangeMap : υ
  threads : List Nat
  imagePath : Option CString
  pid : UInt32
  parentPid : UInt32
  flags : UInt32

/-- `procdesc_is_executing`. -/
def ProcDesc.isExecuting {τ υ : Type} (proc : ProcDesc τ υ) : Bool :=
  proc.flags &&& procFlagExecuting ≠ 0

/-- The descriptors in memory, the two lists of them, and the static variables. -/
structure ProcTables (τ υ : Type) where
  threads : Nat → Option ThreadDesc
  procs : Nat → Option (ProcDesc τ υ)
  threadList : List Nat
  procList : List Nat
  currentTid : UInt32
  currentThread : Option Nat
  currentProcess : Option Nat
  /-- The handle that `qemu_malloc` returns next. -/
  next : Nat

/-- After `memcheck_init_proc_management`. -/
def ProcTables.init {τ υ : Type} : ProcTables τ υ where
  threads := fun _ => none
  procs := fun _ => none
  threadList := []
  procList := []
  currentTid := 0
  currentThread := none
  currentProcess := none
  next := 0

namespace Handlers

variable {τ υ : Type}

abbrev Handler (τ υ α : Type) := StateT (ProcTables τ υ) Option α

def deref (pointer : Option Nat) : Handler τ υ Nat := monadLift pointer

def threadAt (thread : Nat) : Handler τ υ ThreadDesc := do
  monadLift ((← get).threads thread)

def procAt (proc : Nat) : Handler τ υ (ProcDesc τ υ) := do
  monadLift ((← get).procs proc)

def setProc (proc : Nat) (desc : ProcDesc τ υ) : Handler τ υ Unit :=
  modify fun s => { s with procs := Function.update s.procs proc (some desc) }

def freeProc (proc : Nat) : Handler τ υ Unit :=
  modify fun s => { s with procs := Function.update s.procs proc none }

/-- The first descriptor of a list with a key, as `QLIST_FOREACH` finds it. -/
def findDesc (keyOf : Nat → Handler τ υ UInt32) (key : UInt32) : List Nat → Handler τ υ (Option Nat)
  | [] => return none
  | desc :: rest => do
    if key = (← keyOf desc) then return some desc
    else findDesc keyOf key rest

def findThread (tid : UInt32) : List Nat → Handler τ υ (Option Nat) :=
  findDesc (fun thread => return (← threadAt thread).tid) tid

def findProc (pid : UInt32) : List Nat → Handler τ υ (Option Nat) :=
  findDesc (fun proc => return (← procAt proc).pid) pid

def getThreadFromTid (tid : UInt32) : Handler τ υ (Option Nat) := do
  let s ← get
  if tid = s.currentTid ∧ s.currentThread.isSome then return s.currentThread
  else
    let thread ← findThread tid s.threadList
    if thread.isSome ∧ tid = s.currentTid then modify fun s => { s with currentThread := thread }
    return thread

def getCurrentThread : Handler τ υ (Option Nat) := do
  let s ← get
  if s.currentThread.isSome then return s.currentThread
  else
    let thread ← findThread s.currentTid s.threadList
    if thread.isSome then modify fun s => { s with currentThread := thread }
    return thread

def processOf : Option Nat → Handler τ υ (Option Nat)
  | none => return none
  | some thread => return some (← threadAt thread).process

def getProcessFromTid (tid : UInt32) : Handler τ υ (Option Nat) := do
  processOf (← getThreadFromTid tid)

def getProcessFromPid (pid : UInt32) : Handler τ υ (Option Nat) := do
  let s ← get
  let process ← processOf s.currentThread
  match process with
  | none => findProc pid s.procList
  | some proc =>
    if (← procAt proc).pid = pid then
      modify fun s => { s with currentProcess := some proc }
      return some proc
    else findProc pid s.procList

def getCurrentProcess : Handler τ υ (Option Nat) := do
  let s ← get
  if s.currentProcess.isSome then return s.currentProcess
  else
    let process ← processOf (← getCurrentThread)
    if process.isSome then modify fun s => { s with currentProcess := process }
    return process

def createNewThread (proc : Nat) (tid : UInt32) : Handler τ υ Nat := do
  let s ← get
  let desc ← procAt proc
  set { s with
    threads := Function.update s.threads s.next (some { process := proc, callStack := [], tid })
    threadList := s.next :: s.threadList
    procs := Function.update s.procs proc (some { desc with threads := s.next :: desc.threads })
    next := s.next + 1 }
  return s.next

/-- `procdesc_set_image_path`. -/
def setImagePath (proc : Nat) (imagePath : Option CString) (setFlagsOnReplace : UInt32) :
    Handler τ υ Unit := do
  match imagePath with
  | none => return ()
  | some path =>
    let desc ← procAt proc
    if desc.imagePath = some path then return ()
    else setProc proc { desc with imagePath, flags := desc.flags ||| setFlagsOnReplace }

section Events

variable (allocs : RangeTree MallocDescEx τ) (ranges : RangeTree (MMRangeDesc CString) υ)

def mmrangemapCopy : List (MMRangeDesc CString) → υ → Int × υ
  | [], target => (0, target)
  | entry :: rest, target =>
    let ins := insertDesc ranges target entry false
    match ins.result with
    | .inserted => mmrangemapCopy rest ins.map
    | _ => (-1, ins.map)

/-- `mmrangemap_empty`, with a bound on the rounds. -/
def mmrangemapEmpty : Nat → υ → υ
  | 0, map => map
  | rounds + 1, map =>
    match pullFirst ranges map with
    | none => map
    | some (_, map) => mmrangemapEmpty rounds map

def copyMaps (newProc parentProc : Nat) : Handler τ υ Bool := do
  let parent ← procAt parentProc
  let desc ← procAt newProc
  let (failed, allocMap) := allocmapCopy allocs mdescFlagInheritedOnFork
    mdescFlagTransitionEntry (allocs.entries parent.allocMap) desc.allocMap
  if failed ≠ 0 then return false
  else
    let (failed, mmrangeMap) :=
      mmrangemapCopy ranges (ranges.entries parent.mmrangeMap) desc.mmrangeMap
    if failed ≠ 0 then return false
    else
      setProc newProc { desc with allocMap, mmrangeMap }
      return true

/-- What a new process has from its parent, if it has one: false if it cannot be had. -/
def inheritMaps (newProc : Nat) (parentPid : UInt32) : Handler τ υ Bool :=
  if parentPid = 0 then return true
  else do
    match ← getProcessFromPid parentPid with
    | none => return false
    | some parentProc => copyMaps allocs ranges newProc parentProc

def createNewProcess (pid parentPid : UInt32) : Handler τ υ (Option Nat) := do
  let newProc := (← get).next
  modify fun s => { s with next := s.next + 1 }
  setProc newProc
    { allocMap := allocs.empty
      mmrangeMap := ranges.empty
      threads := []
      imagePath := none
      pid
      parentPid
      flags := 0 }
  let inherited ← inheritMaps allocs ranges newProc parentPid
  if inherited then
    let _ ← createNewThread newProc pid
    modify fun s => { s with procList := newProc :: s.procList }
    return some newProc
  else
    freeProc newProc
    return none

def memcheckInitPid (newPid : UInt32) : Handler τ υ Unit := do
  let _ ← createNewProcess allocs ranges newPid 0
  return ()

def memcheckSwitch (tid : UInt32) : Handler τ υ Unit :=
  modify fun s => { s with currentThread := none, currentProcess := none, currentTid := tid }

def parentProcess (tgid newId : UInt32) : Handler τ υ (Option Nat) :=
  if newId = tgid then getCurrentProcess else getProcessFromTid tgid

/-- What `memcheck_fork` and `memcheck_clone` begin with. -/
def withParent (tgid newId : UInt32) (create : Nat → Handler τ υ Unit) : Handler τ υ Unit := do
  match ← parentProcess tgid newId with
  | none => return ()
  | some parentProc =>
    -- the pids of the parent and of the current process are compared for a message
    let _ ← procAt parentProc
    let _ ← procAt (← deref (← getCurrentProcess))
    create parentProc

def memcheckFork (tgid newPid : UInt32) : Handler τ υ Unit :=
  withParent tgid newPid fun parentProc => do
    match ← createNewProcess allocs ranges newPid (← procAt parentProc).pid with
    | none => return ()
    | some newProc => setImagePath newProc (← procAt parentProc).imagePath 0

def memcheckClone (tgid newTid : UInt32) : Handler τ υ Unit :=
  withParent tgid newTid fun parentProc => do
    let _ ← createNewThread parentProc newTid
    return ()

def firstArgument (cmdArg : List UInt8) (cmdlen : Nat) : CString :=
  ((cmdArg.take cmdlen).takeWhile (· ≠ 0x20)).takeWhile (· ≠ 0)

def memcheckSetCmdLine (cmdArg : List UInt8) (cmdlen : Nat) : Handler τ υ Unit := do
  match ← getCurrentProcess with
  | none => return ()
  | some currentProc =>
    setImagePath currentProc (some (firstArgument cmdArg cmdlen)) procFlagImagePathReplaced
    let desc ← procAt currentProc
    setProc currentProc
      { desc with
        flags := desc.flags ||| procFlagExecuting
        mmrangeMap :=
          mmrangemapEmpty ranges (ranges.entries desc.mmrangeMap).length desc.mmrangeMap }

/-- The blocks that are reported when a process exits, with a bound on the rounds. -/
def leaksReported : Nat → τ → Nat
  | 0, _ => 0
  | rounds + 1, map =>
    match allocmapPullFirst allocs map with
    | none => 0
    | some (leakedAlloc, map) =>
      if leakedAlloc.flags &&& mdescFlagInheritedOnFork = 0 ∧
          leakedAlloc.flags &&& mdescFlagTransitionEntry = 0 then
        leaksReported rounds map + 1
      else leaksReported rounds map

/-- `memcheck_exit`, with the number of leaks if a process terminates. -/
def memcheckExit : Handler τ υ (Option Nat) := do
  match ← getCurrentThread with
  | none => return none
  | some thread =>
    let proc := (← threadAt thread).process
    modify fun s => { s with currentThread := none }
    let desc ← procAt proc
    setProc proc { desc with threads := desc.threads.erase thread }
    modify fun s => { s with
      threadList := s.threadList.erase thread
      threads := Function.update s.threads thread none }
    if desc.threads.erase thread ≠ [] then return none
    else
      let leaks := leaksReported allocs (allocs.entries desc.allocMap).length desc.allocMap
      modify fun s => { s with currentProcess := none, procList := s.procList.erase proc }
      freeProc proc
      return some leaks

/-- `memcheck_guest_alloc`, with the descriptor that the guest passes. -/
def memcheckGuestAlloc (mallocDesc : MallocDesc) : Handler τ υ (Option RBTMapResult) := do
  match ← getProcessFromPid mallocDesc.allocatorPid with
  | none => return none
  | some proc =>
    let desc ← procAt proc
    let flags := if desc.isExecuting then 0 else mdescFlagTransitionEntry
    let thread ← threadAt (← deref (← getCurrentThread))
    let callStack := thread.callStack.reverse.map fun entry => entry.callAddress
    let ins := allocmapInsert allocs desc.allocMap { mallocDesc, callStack, flags } true
    setProc proc { desc with allocMap := ins.map }
    return some ins.result

inductive ProcEvent
  | initPid (newPid : UInt32)
  | switch (tid : UInt32)
  | fork (tgid newPid : UInt32)
  | clone (tgid newTid : UInt32)
  | setCmdLine (cmdArg : List UInt8) (cmdlen : Nat)
  | exit (exitCode : UInt32)
  | guestAlloc (mallocDesc : MallocDesc)

def handle : ProcEvent → Handler τ υ Unit
  | .initPid newPid => memcheckInitPid allocs ranges newPid
  | .switch tid => memcheckSwitch tid
  | .fork tgid newPid => memcheckFork allocs ranges tgid newPid
  | .clone tgid newTid => memcheckClone tgid newTid
  | .setCmdLine cmdArg cmdlen => memcheckSetCmdLine ranges cmdArg cmdlen
  | .exit _ => do
    let _ ← memcheckExit allocs
    return ()
  | .guestAlloc mallocDesc => do
    let _ ← memcheckGuestAlloc allocs mallocDesc
    return ()

end Events

end Handlers

end M2M.Memcheck
