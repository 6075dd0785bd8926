import M2M.Memcheck.Descriptors

/-! What the guest's libc and kernel report of the heap: `memcheck_guest_free` and
`memcheck_guest_libc_initialized` beside the handlers that there are, and the history of each
process that the leak report of `memcheck_exit` is to agree with. -/

open M2M.Lib

namespace M2M.Memcheck.Handlers

variable {τ υ : Type}

section Model

variable (allocs : RangeTree MallocDescEx τ) (ranges : RangeTree (MMRangeDesc CString) υ)

/-- `allocmap_empty`, with a bound on the rounds. -/
def allocmapEmpty : Nat → τ → τ
  | 0, map => map
  | rounds + 1, map =>
    match allocmapPullFirst allocs map with
    | none => map
    | some (_, map) => allocmapEmpty rounds map

/-- `memcheck_guest_free`, with the descriptor that the guest passes and what is in the local
that the search uses.  The entry that is pulled is only compared for a message. -/
def memcheckGuestFree (adesc : MallocDescEx) (ptr freePid : UInt32) :
    Handler τ υ (Option MallocDescEx) := do
  match ← getProcessFromPid freePid with
  | none => return none
  | some proc =>
    let desc ← procAt proc
    match allocmapPull allocs desc.allocMap adesc ptr with
    | none => return none
    | some (pulled, allocMap) =>
      setProc proc { desc with allocMap }
      return some pulled

def memcheckGuestLibcInitialized (pid : UInt32) : Handler τ υ Unit := do
  match ← getProcessFromPid pid with
  | none => return ()
  | some proc =>
    let desc ← procAt proc
    setProc proc
      { desc with
        flags := desc.flags ||| procFlagLibcInitialized
        allocMap := allocmapEmpty allocs (allocs.entries desc.allocMap).length desc.allocMap }

inductive GuestEvent
  | switch (tid : UInt32)
  | guestAlloc (mallocDesc : MallocDesc)
  | guestFree (adesc : MallocDescEx) (ptr freePid : UInt32)
  | fork (tgid newPid : UInt32)
  | clone (tgid newTid : UInt32)
  | setCmdLine (cmdArg : List UInt8) (cmdlen : Nat)
  | guestLibcInitialized (pid : UInt32)
  | exit (exitCode : UInt32)

/-- The handler of an event, with the leaks that it reports if it is the end of a process. -/
def handleGuest : GuestEvent → Handler τ υ (Option Nat)
  | .switch tid => do
    memcheckSwitch tid
    return none
  | .guestAlloc mallocDesc => do
    let _ ← memcheckGuestAlloc allocs mallocDesc
    return none
  | .guestFree adesc ptr freePid => do
    let _ ← memcheckGuestFree allocs adesc ptr freePid
    return none
  | .fork tgid newPid => do
    memcheckFork allocs ranges tgid newPid
    return none
  | .clone tgid newTid => do
    memcheckClone tgid newTid
    return none
  | .setCmdLine cmdArg cmdlen => do
    memcheckSetCmdLine ranges cmdArg cmdlen
    return none
  | .guestLibcInitialized pid => do
    memcheckGuestLibcInitialized allocs pid
    return none
  | .exit _ => memcheckExit allocs

def guestStep (s : ProcTables τ υ) (e : GuestEvent) : ProcTables τ υ :=
  match (handleGuest allocs ranges e).run s with
  | some (_, s') => s'
  | none => s

end Model

section Lookups

variable (s : ProcTables τ υ)

def threadOfTid (tid : UInt32) : Option Nat :=
  s.threadList.find? fun t => (s.threads t).any fun d => d.tid = tid

def procOfTid (tid : UInt32) : Option Nat :=
  (threadOfTid s tid).bind fun t => (s.threads t).map (·.process)

def procOfPid (pid : UInt32) : Option Nat :=
  s.procList.find? fun q => (s.procs q).any fun p => p.pid = pid

def parentOf (tgid newId : UInt32) : Option Nat :=
  procOfTid s (if newId = tgid then s.currentTid else tgid)

/-- The current thread is the last one of a process. -/
def IsLast (q : Nat) : Prop :=
  ∀ t ∈ s.threadList, (s.threads t).any (fun d => d.process = q) →
    (s.threads t).any fun d => d.tid = s.currentTid

instance (q : Nat) : Decidable (IsLast s q) := inferInstanceAs (Decidable (∀ _ ∈ _, _))

/-- The process whose map of blocks an event may change. -/
def subjectOf : GuestEvent → Option Nat
  | .guestAlloc mallocDesc => procOfPid s mallocDesc.allocatorPid
  | .guestFree _ _ freePid => procOfPid s freePid
  | .guestLibcInitialized pid => procOfPid s pid
  | .exit _ => procOfTid s s.currentTid
  | .switch _ | .fork .. | .clone .. | .setCmdLine .. => none

end Lookups

section History

/-- What happens in the life of a process that matters for its blocks. -/
inductive LifeEvent
  | alloc (block : MallocDesc)
  | free (ptr : UInt32)
  | exec
  | libcInit
  deriving DecidableEq

/-- A block is still there after the event. -/
def LifeEvent.spares (block : MallocDesc) : LifeEvent → Bool
  | .free ptr => ¬block.Intersects ptr.toNat 1
  | .libcInit => false
  | .alloc _ | .exec => true

/-- The blocks that are allocated and not gone in the end, the earliest event first, each with
whether the process was executing. -/
def survivors (executing : Bool) : List LifeEvent → List (Bool × MallocDesc)
  | [] => []
  | .alloc block :: later =>
    if later.all (LifeEvent.spares block) then (executing, block) :: survivors executing later
    else survivors executing later
  | .exec :: later => survivors true later
  | .free _ :: later | .libcInit :: later => survivors executing later

/-- A process: the blocks that it began with, and what happened since. -/
structure Life where
  inherited : List MallocDesc
  events : List LifeEvent

def Life.add (life : Life) (e : LifeEvent) : Life := { life with events := life.events ++ [e] }

/-- The blocks of a process, those that it began with first. -/
def Life.live (life : Life) : List MallocDesc :=
  life.inherited.filter (fun block => life.events.all (LifeEvent.spares block)) ++
    (survivors false life.events).map Prod.snd

def Life.leaks (life : Life) : Nat := (survivors false life.events).countP Prod.fst

/-- The tables with the lives of the processes that were ever in them. -/
structure Traced (τ υ : Type) where
  tables : ProcTables τ υ
  lives : Nat → Life

/-- An event is added to the life of a process, if there is one. -/
def note (lives : Nat → Life) (proc : Option Nat) (e : LifeEvent) : Nat → Life :=
  match proc with
  | none => lives
  | some q => Function.update lives q ((lives q).add e)

/-- The lives after an event; the children of the processes with the pids `heirs` begin with the
blocks of their parent. -/
def record (heirs : UInt32 → Bool) (t : Traced τ υ) : GuestEvent → Nat → Life
  | .switch _ | .clone .. | .exit _ => t.lives
  | .guestAlloc mallocDesc =>
    note t.lives (procOfPid t.tables mallocDesc.allocatorPid) (.alloc mallocDesc)
  | .guestFree _ ptr freePid => note t.lives (procOfPid t.tables freePid) (.free ptr)
  | .setCmdLine .. => note t.lives (procOfTid t.tables t.tables.currentTid) .exec
  | .guestLibcInitialized pid => note t.lives (procOfPid t.tables pid) .libcInit
  | .fork tgid newPid =>
    match parentOf t.tables tgid newPid with
    | none => t.lives
    | some q =>
      let heir := (t.tables.procs q).any fun p => heirs p.pid
      Function.update t.lives t.tables.next ⟨if heir then (t.lives q).live else [], []⟩

end History

section Claims

variable (allocs : RangeTree MallocDescEx τ) (ranges : RangeTree (MMRangeDesc CString) υ)
  (heirs : UInt32 → Bool)

/-- The tables with the processes that there are in the beginning. -/
def Traced.start (inits : List UInt32) : Traced τ υ where
  tables := (inits.map .initPid).foldl (procStep allocs ranges) ProcTables.init
  lives := fun _ => ⟨[], []⟩

def Traced.step (t : Traced τ υ) (e : GuestEvent) : Traced τ υ where
  tables := guestStep allocs ranges t.tables e
  lives := record heirs t e

/-- An event comes from a thread that is known, new processes and threads have numbers that are
not in use, and a block that is allocated is a part of memory that its process has not got yet. -/
def Admissible (t : Traced τ υ) : GuestEvent → Prop
  | .switch _ => True
  | .guestAlloc mallocDesc =>
    (threadOfTid t.tables t.tables.currentTid).isSome ∧
      ∀ q ∈ procOfPid t.tables mallocDesc.allocatorPid, mallocDesc.Valid ∧
        ∀ block ∈ (t.lives q).live, ¬block.Intersects mallocDesc.ptr.toNat mallocDesc.total
  | .fork _ newPid =>
    (threadOfTid t.tables t.tables.currentTid).isSome ∧
      procOfPid t.tables newPid = none ∧ threadOfTid t.tables newPid = none
  | .clone _ newTid =>
    (threadOfTid t.tables t.tables.currentTid).isSome ∧ threadOfTid t.tables newTid = none
  | .guestFree .. | .setCmdLine .. | .guestLibcInitialized _ | .exit _ =>
    (threadOfTid t.tables t.tables.currentTid).isSome

instance (t : Traced τ υ) : ∀ e, Decidable (Admissible t e)
  | .switch _ => inferInstanceAs (Decidable True)
  | .guestAlloc _ | .fork .. | .clone .. => inferInstanceAs (Decidable (_ ∧ _))
  | .guestFree .. | .setCmdLine .. | .guestLibcInitialized _ | .exit _ =>
    inferInstanceAs (Decidable (_ = true))

def leaksToReport (t : Traced τ υ) : GuestEvent → Option Nat
  | .exit _ =>
    (procOfTid t.tables t.tables.currentTid).bind fun q =>
      if IsLast t.tables q then some (t.lives q).leaks else none
  | _ => none

def inheritedCopy (entry : MallocDescEx) : MallocDescEx :=
  { entry with
    flags := entry.flags &&& ~~~mdescFlagTransitionEntry ||| mdescFlagInheritedOnFork }

def blocksOf (s : ProcTables τ υ) (q : Nat) : Option (List MallocDescEx) :=
  (s.procs q).map fun p => allocs.entries p.allocMap

/-- The process with a new pid has the copies of the blocks of its parent, if it is an heir. -/
structure ChildRight (s s' : ProcTables τ υ) (newPid : UInt32) (parent : Nat) : Prop where
  listed : procOfPid s' newPid = some s.next
  blocks : blocksOf allocs s' s.next =
    if (s.procs parent).any (fun p => heirs p.pid) then
      (blocksOf allocs s parent).map (List.map inheritedCopy)
    else some []

/-- What is claimed of the handling of an event. -/
structure EventRight (t : Traced τ υ) (e : GuestEvent) : Prop where
  reports : ((handleGuest allocs ranges e).run t.tables).map Prod.fst = some (leaksToReport t e)
  others : ∀ q ∈ t.tables.procList, subjectOf t.tables e ≠ some q →
    ((guestStep allocs ranges t.tables e).procs q).map (·.allocMap) =
      (t.tables.procs q).map (·.allocMap)
  child : ∀ tgid newPid, e = .fork tgid newPid → ∀ parent ∈ parentOf t.tables tgid newPid,
    ChildRight allocs heirs t.tables (guestStep allocs ranges t.tables e) newPid parent

end Claims

end M2M.Memcheck.Handlers
