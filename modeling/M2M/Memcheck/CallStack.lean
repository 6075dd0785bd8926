import M2M.Memcheck.Descriptors

/-! The calling stack of a thread: `memcheck_on_call` and `memcheck_on_ret`. -/

open M2M.Lib

namespace M2M.Memcheck.Handlers

variable {τ υ : Type}

def maxStack : Nat := 32

def stackEntry (rdesc : MMRangeDesc CString) (callAddress ret : UInt32) : ThreadCallStackEntry where
  callAddress := callAddress
  callAddressRel := rdesc.getModuleOffset callAddress
  retAddress := ret
  retAddressRel := rdesc.getModuleOffset ret
  modulePath := rdesc.path

section Model

variable (ranges : RangeTree (MMRangeDesc CString) υ)

/-- `memcheck_on_call`, with the contents of the local that `procdesc_find_mapentry` fills in. -/
def memcheckOnCall (uninit : MMRangeDesc CString) (callAddress ret : UInt32) :
    Handler τ υ Unit := do
  match ← getCurrentThread with
  | none => return ()
  | some thread =>
    let desc ← threadAt thread
    let proc ← procAt desc.process
    if proc.isExecuting then
      match findMapentry ranges proc.mmrangeMap uninit callAddress with
      | none => return ()
      | some rdesc =>
        if maxStack ≤ desc.callStack.length then return ()
        else
          modify fun s => { s with
            threads := Function.update s.threads thread (some { desc with
              callStack := desc.callStack ++ [stackEntry rdesc callAddress ret] }) }
    else return ()

/-- The loop of `memcheck_on_ret`, over the entries below `indx`. -/
def unwindLoop (callStack : List ThreadCallStackEntry) (ret : UInt32) :
    Nat → List ThreadCallStackEntry
  | 0 => callStack
  | indx + 1 =>
    if (callStack[indx]?).map (·.retAddress) = some ret then callStack.take indx
    else unwindLoop callStack ret indx

def memcheckOnRet (ret : UInt32) : Handler τ υ Unit := do
  match ← getCurrentThread with
  | none => return ()
  | some thread =>
    let desc ← threadAt thread
    let proc ← procAt desc.process
    if proc.isExecuting then
      modify fun s => { s with
        threads := Function.update s.threads thread
          (some { desc with callStack := unwindLoop desc.callStack ret desc.callStack.length }) }
    else return ()

inductive StackEvent
  | call (uninit : MMRangeDesc CString) (callAddress ret : UInt32)
  | ret (ret : UInt32)

def handleStack : StackEvent → Handler τ υ Unit
  | .call uninit callAddress ret => memcheckOnCall ranges uninit callAddress ret
  | .ret ret => memcheckOnRet ret

end Model

section Real

/-- A call that has not returned yet. -/
structure Frame where
  callAddress : UInt32
  retAddress : UInt32
  deriving DecidableEq

def frameOf (entry : ThreadCallStackEntry) : Frame :=
  ⟨entry.callAddress, entry.retAddress⟩

/-- The calls of a thread, the outermost first. -/
def realStep (real : List Frame) : StackEvent → List Frame
  | .call _ callAddress ret => real ++ [⟨callAddress, ret⟩]
  | .ret _ => real.dropLast

/-- A return goes where the innermost call says. -/
def Nests (real : List Frame) : StackEvent → Prop
  | .call .. => True
  | .ret ret => ∃ frame, real.getLast? = some frame ∧ frame.retAddress = ret

instance (real : List Frame) : ∀ e, Decidable (Nests real e)
  | .call .. => .isTrue trivial
  | .ret ret =>
    decidable_of_iff (real.getLast?.map Frame.retAddress = some ret) Option.map_eq_some_iff

/-- A call that was dropped does not return to where one of the recorded calls returns. -/
def Distinct (real : List Frame) : StackEvent → Prop
  | .call .. => True
  | .ret ret => maxStack < real.length → ∀ frame ∈ real.take maxStack, frame.retAddress ≠ ret

instance (real : List Frame) : ∀ e, Decidable (Distinct real e)
  | .call .. => .isTrue trivial
  | .ret _ => inferInstanceAs (Decidable (_ → ∀ frame ∈ real.take maxStack, _))

end Real

section Stacks

variable {stack : List ThreadCallStackEntry} {real : List Frame} {ret : UInt32}

theorem unwindLoop_eq_self {indx : Nat} (h : ∀ entry ∈ stack, entry.retAddress ≠ ret) :
    unwindLoop stack ret indx = stack := by
  induction indx with
  | zero => rfl
  | succ indx ih =>
    rw [unwindLoop, if_neg, ih]
    intro hsome
    obtain ⟨entry, hentry, hret⟩ := Option.map_eq_some_iff.mp hsome
    exact h entry (List.mem_of_getElem? hentry) hret

theorem length_unwindLoop_lt {indx j : Nat} {entry : ThreadCallStackEntry} (hj : j < indx)
    (hle : indx ≤ stack.length) (hentry : stack[j]? = some entry) (hret : entry.retAddress = ret) :
    (unwindLoop stack ret indx).length < stack.length := by
  induction indx with
  | zero => omega
  | succ indx ih =>
    rw [unwindLoop]
    split
    · rw [List.length_take]
      omega
    · next hother =>
      refine ih (lt_of_le_of_ne (by omega) ?_) (by omega)
      rintro rfl
      exact hother (by rw [hentry, Option.map_some, hret])

theorem unwindLoop_last {entry : ThreadCallStackEntry} (hlast : stack.getLast? = some entry)
    (hret : entry.retAddress = ret) : unwindLoop stack ret stack.length = stack.dropLast := by
  obtain ⟨below, rfl⟩ : ∃ below, stack = below ++ [entry] := by
    rw [List.getLast?_eq_some_iff] at hlast
    exact hlast
  rw [List.length_append, List.length_singleton, unwindLoop, if_pos, List.take_left,
    List.dropLast_concat]
  rw [List.getElem?_concat_length, Option.map_some, hret]

def pushed (stack : List ThreadCallStackEntry) (entry : ThreadCallStackEntry) :
    List ThreadCallStackEntry :=
  if maxStack ≤ stack.length then stack else stack ++ [entry]

theorem pushed_take {entry : ThreadCallStackEntry}
    (h : stack.map frameOf = real.take maxStack) :
    (pushed stack entry).map frameOf = (real ++ [frameOf entry]).take maxStack := by
  have hlen : stack.length = min maxStack real.length := by
    rw [← List.length_map frameOf, h, List.length_take]
  rw [pushed]
  split
  · rw [h, List.take_append_of_le_length (by omega)]
  · rw [List.map_append, h, List.take_of_length_le (by omega), List.take_of_length_le]
    · rfl
    · rw [List.length_append, List.length_singleton]
      omega

theorem unwind_take_iff (h : stack.map frameOf = real.take maxStack)
    (hnests : Nests real (.ret ret)) :
    (unwindLoop stack ret stack.length).map frameOf =
      real.dropLast.take maxStack ↔ Distinct real (.ret ret) := by
  obtain ⟨frame, hlast, hret⟩ := hnests
  have hlen : stack.length = min maxStack real.length := by
    rw [← List.length_map frameOf, h, List.length_take]
  by_cases hdeep : maxStack < real.length
  · have hdrop : real.dropLast.take maxStack = real.take maxStack := by
      rw [List.dropLast_eq_take, List.take_take, min_eq_left (by omega)]
    rw [hdrop]
    constructor
    · intro hsame _ other hmem hother
      rw [← h] at hmem
      obtain ⟨entry, hentry, rfl⟩ := List.mem_map.mp hmem
      obtain ⟨j, hj, hget⟩ := List.getElem_of_mem hentry
      have hshort := length_unwindLoop_lt hj le_rfl
        ((List.getElem?_eq_getElem hj).trans (congrArg some hget)) hother
      rw [← List.length_map frameOf, hsame, ← h, List.length_map] at hshort
      exact lt_irrefl _ hshort
    · intro hdistinct
      rw [unwindLoop_eq_self, h]
      intro entry hentry hother
      refine hdistinct hdeep (frameOf entry) ?_ hother
      rw [← h]
      exact List.mem_map_of_mem hentry
  · rw [List.take_of_length_le (by omega)] at h
    refine iff_of_true ?_ fun hlt => absurd hlt hdeep
    have hlast' : (stack.map frameOf).getLast? = some frame := h ▸ hlast
    rw [List.getLast?_map] at hlast'
    obtain ⟨entry, hentry, rfl⟩ := Option.map_eq_some_iff.mp hlast'
    rw [unwindLoop_last hentry hret, ← h, List.map_dropLast, List.take_of_length_le]
    rw [List.length_dropLast, List.length_map]
    omega

end Stacks

section Tables

variable {s : ProcTables τ υ} {t q : Nat} {p : ProcDesc τ υ} {stack : List ThreadCallStackEntry}

/-- The thread is in the cache, or is found when nothing is. -/
def IsCurrent (s : ProcTables τ υ) (t : Nat) : Prop :=
  s.currentThread = some t ∨ (s.currentThread = none ∧
    (findThread s.currentTid s.threadList : Handler τ υ _).run s = some (some t, s))

/-- The tables while thread `t` of the executing process `q` runs. -/
structure Executing (s : ProcTables τ υ) (t q : Nat) (p : ProcDesc τ υ)
    (stack : List ThreadCallStackEntry) : Prop where
  listed : Listed s
  current : IsCurrent s t
  thread : s.threads t = some { process := q, callStack := stack, tid := s.currentTid }
  proc : s.procs q = some p
  executing : p.isExecuting

theorem run_getCurrentThread_of (h : IsCurrent s t) : (getCurrentThread : Handler τ υ _).run s =
    some (some t, { s with currentThread := some t }) := by
  rcases h with hcached | ⟨hnone, hfind⟩
  · have hsame : s = { s with currentThread := some t } := by rw [← hcached]
    simp [getCurrentThread, hcached, ← hsame]
  · simp [getCurrentThread, hnone, hfind]

theorem run_findThread_cons {i : Nat} {d : ThreadDesc} (hd : s.threads i = some d) (tid : UInt32)
    (l : List Nat) : (findThread tid (i :: l) : Handler τ υ _).run s =
      if tid = d.tid then some (some i, s) else (findThread tid l).run s := by
  rw [findThread, findDesc, run_bind_of (run_tid_iff.mpr ⟨d, hd, rfl⟩)]
  split <;> rfl

theorem run_findThread_of (s' : ProcTables τ υ) (hthreads : s'.threads = s.threads) {tid : UInt32}
    {l : List Nat} {r : Option Nat}
    (h : (findThread tid l : Handler τ υ _).run s = some (r, s)) :
    (findThread tid l : Handler τ υ _).run s' = some (r, s') := by
  induction l with
  | nil =>
    cases h
    rfl
  | cons i l ih =>
    cases hd : s.threads i with
    | none => simp [findThread, findDesc, threadAt, hd] at h
    | some d =>
      rw [run_findThread_cons hd] at h
      rw [run_findThread_cons (hthreads ▸ hd)]
      split at h
      · next htid =>
        rw [if_pos htid]
        cases h
        rfl
      · next htid =>
        rw [if_neg htid]
        exact ih h

theorem IsCurrent.withProcess (h : IsCurrent s t) (c : Option Nat) :
    IsCurrent { s with currentProcess := c } t := by
  refine h.imp_right fun ⟨hnone, hfind⟩ => ⟨hnone, ?_⟩
  exact run_findThread_of (s := s) { s with currentProcess := c } rfl hfind

def withStack (s : ProcTables τ υ) (t q : Nat) (stack : List ThreadCallStackEntry) :
    ProcTables τ υ :=
  { s with
    currentThread := some t
    threads := Function.update s.threads t
      (some { process := q, callStack := stack, tid := s.currentTid }) }

theorem Executing.cached (h : Executing s t q p stack) :
    Looked s { s with currentThread := some t } := by
  obtain ⟨r, hr, hlooked, -⟩ := run_getCurrentThread h.listed
  have heq := Option.some.inj (hr.symm.trans (run_getCurrentThread_of h.current))
  have hsome : r = some t := congrArg Prod.fst heq
  exact hsome ▸ hlooked

theorem Executing.thread_cached (h : Executing s t q p stack) :
    ({ s with currentThread := some t } : ProcTables τ υ).threads t =
      some { process := q, callStack := stack, tid := s.currentTid } := h.thread

theorem Executing.proc_cached (h : Executing s t q p stack) :
    ({ s with currentThread := some t } : ProcTables τ υ).procs q = some p := h.proc

theorem Listed.setStack (h : Listed s) {d : ThreadDesc} (hd : s.threads t = some d)
    (stack : List ThreadCallStackEntry) : Listed { s with
      threads := Function.update s.threads t (some { d with callStack := stack }) } := by
  -- what the lists and the caches say of a thread is its process and its tid
  have hnew : ∀ {i d'}, s.threads i = some d' → ∃ d'', Function.update s.threads t
      (some { d with callStack := stack }) i = some d'' ∧ d''.process = d'.process ∧
        d''.tid = d'.tid := by
    intro i d' hi
    by_cases heq : i = t
    · subst heq
      cases hd.symm.trans hi
      exact ⟨_, Function.update_self .., rfl, rfl⟩
    · exact ⟨d', (Function.update_of_ne heq ..).trans hi, rfl, rfl⟩
  have hold : ∀ {i d''}, Function.update s.threads t (some { d with callStack := stack }) i =
      some d'' → ∃ d', s.threads i = some d' ∧ d''.process = d'.process := by
    intro i d'' hi
    by_cases heq : i = t
    · subst heq
      rw [Function.update_self] at hi
      cases hi
      exact ⟨d, hd, rfl⟩
    · rw [Function.update_of_ne heq] at hi
      exact ⟨d'', hi, rfl⟩
  refine { h with ofThread := ?_, ofProc := ?_, currentThread := ?_, fresh := ?_ }
  · intro i hi
    obtain ⟨d', hd', hlisted⟩ := h.ofThread i hi
    obtain ⟨d'', hd'', hprocess, -⟩ := hnew hd'
    exact ⟨d'', hd'', hprocess ▸ hlisted⟩
  · intro x hx
    obtain ⟨p', hp', hnodup, hmem⟩ := h.ofProc x hx
    refine ⟨p', hp', hnodup, fun i => (hmem i).trans (and_congr_right fun _ => ?_)⟩
    constructor
    · rintro ⟨d', hd', hprocess⟩
      obtain ⟨d'', hd'', hprocess', -⟩ := hnew hd'
      exact ⟨d'', hd'', hprocess'.trans hprocess⟩
    · rintro ⟨d'', hd'', hprocess⟩
      obtain ⟨d', hd', hprocess'⟩ := hold hd''
      exact ⟨d', hd', hprocess'.symm.trans hprocess⟩
  · intro i hi
    obtain ⟨hlisted, d', hd', htid⟩ := h.currentThread i hi
    obtain ⟨d'', hd'', -, htid'⟩ := hnew hd'
    exact ⟨hlisted, d'', hd'', htid'.trans htid⟩
  · intro i hi
    obtain ⟨hthread, hproc⟩ := h.fresh i hi
    refine ⟨?_, hproc⟩
    have hne : i ≠ t := fun heq => by
      rw [← heq, hthread] at hd
      cases hd
    exact (Function.update_of_ne hne ..).trans hthread

theorem Executing.withStack (h : Executing s t q p stack) (stack' : List ThreadCallStackEntry) :
    Executing (withStack s t q stack') t q p stack' where
  listed := h.cached.listed.setStack h.thread stack'
  current := .inl rfl
  thread := Function.update_self ..
  proc := h.proc
  executing := h.executing

variable (ranges : RangeTree (MMRangeDesc CString) υ)

def stackStep (s : ProcTables τ υ) (e : StackEvent) : ProcTables τ υ :=
  match (handleStack ranges e).run s with
  | some (_, s') => s'
  | none => s

/-- A call site is in a mapped module. -/
def Mapped (p : ProcDesc τ υ) : StackEvent → Prop
  | .call uninit callAddress _ =>
    (findMapentry ranges p.mmrangeMap uninit callAddress).isSome
  | .ret _ => True

theorem withStack_self (h : Executing s t q p stack) :
    withStack s t q stack = { s with currentThread := some t } := by
  rw [Handlers.withStack, ← h.thread, Function.update_eq_self]

theorem stackStep_call (h : Executing s t q p stack) {uninit : MMRangeDesc CString}
    {callAddress ret : UInt32} (hmapped : Mapped ranges p (.call uninit callAddress ret)) :
    ∃ entry, frameOf entry = ⟨callAddress, ret⟩ ∧
      stackStep ranges s (.call uninit callAddress ret) = withStack s t q (pushed stack entry) := by
  obtain ⟨rdesc, hrdesc⟩ := Option.isSome_iff_exists.mp hmapped
  refine ⟨stackEntry rdesc callAddress ret, rfl, ?_⟩
  have hrun : (handleStack ranges (.call uninit callAddress ret)).run s =
      some ((), withStack s t q (pushed stack (stackEntry rdesc callAddress ret))) := by
    rw [handleStack, memcheckOnCall, run_bind_of (run_getCurrentThread_of h.current)]
    refine (run_bind_of (run_threadAt h.thread_cached)).trans ?_
    refine (run_bind_of (run_procAt h.proc_cached)).trans ?_
    rw [if_pos h.executing]
    simp only [hrdesc]
    rw [pushed]
    split
    · rw [withStack_self h]
      rfl
    · rfl
  rw [stackStep, hrun]

theorem stackStep_ret (h : Executing s t q p stack) (ret : UInt32) :
    stackStep ranges s (.ret ret) = withStack s t q (unwindLoop stack ret stack.length) := by
  have hrun : (handleStack ranges (.ret ret) : Handler τ υ Unit).run s =
      some ((), withStack s t q (unwindLoop stack ret stack.length)) := by
    rw [handleStack, memcheckOnRet, run_bind_of (run_getCurrentThread_of h.current)]
    refine (run_bind_of (run_threadAt h.thread_cached)).trans ?_
    refine (run_bind_of (run_procAt h.proc_cached)).trans ?_
    rw [if_pos h.executing]
    rfl
  rw [stackStep, hrun]

/-- A block that is allocated now is stored with these callers, the innermost first. -/
def StoresCallers (allocs : RangeTree MallocDescEx τ) (s : ProcTables τ υ)
    (callers : List UInt32) : Prop :=
  ∀ mallocDesc : MallocDesc, HasPid s mallocDesc.allocatorPid → ∃ q p flags s',
    s.procs q = some p ∧
    (memcheckGuestAlloc allocs mallocDesc).run s =
      some (some (allocmapInsert allocs p.allocMap { mallocDesc, callStack := callers, flags }
        true).result, s') ∧
    s'.procs q = some { p with
      allocMap := (allocmapInsert allocs p.allocMap { mallocDesc, callStack := callers, flags }
        true).map }

theorem Executing.storesCallers (h : Executing s t q p stack) (allocs : RangeTree MallocDescEx τ) :
    StoresCallers allocs s (stack.reverse.map fun entry => entry.callAddress) := by
  intro mallocDesc hpid
  obtain ⟨r, c, hrun, hlooked, hlisted, hiff⟩ :=
    run_getProcessFromPid h.listed mallocDesc.allocatorPid
  obtain ⟨q', rfl⟩ := Option.isSome_iff_exists.mp (hiff.mpr hpid)
  obtain ⟨p', hp', -⟩ := h.listed.ofProc q' (hlisted q' rfl)
  have hcurrent := run_getCurrentThread_of (h.current.withProcess c)
  have hp'' : ({ s with currentProcess := c } : ProcTables τ υ).procs q' = some p' := hp'
  have hthread : ({ s with currentProcess := c, currentThread := some t } :
      ProcTables τ υ).threads t = some { process := q, callStack := stack, tid := s.currentTid } :=
    h.thread
  refine ⟨q', p', if p'.isExecuting then 0 else mdescFlagTransitionEntry,
    { s with
      currentProcess := c
      currentThread := some t
      procs := Function.update s.procs q' (some { p' with
        allocMap := (allocmapInsert allocs p'.allocMap
          { mallocDesc
            callStack := stack.reverse.map fun entry => entry.callAddress
            flags := if p'.isExecuting then 0 else mdescFlagTransitionEntry } true).map }) },
    hp', ?_, Function.update_self ..⟩
  rw [memcheckGuestAlloc, run_bind_of hrun]
  refine (run_bind_of (run_procAt hp'')).trans ?_
  rw [run_bind_of hcurrent, run_bind_of (run_deref t)]
  exact run_bind_of (run_threadAt hthread)

end Tables

section Runs

variable (allocs : RangeTree MallocDescEx τ) (ranges : RangeTree (MMRangeDesc CString) υ)

/-- The record of a thread, and what an allocation takes from it, while `real` are its calls. -/
structure Recorded (t : Nat) (s : ProcTables τ υ) (real : List Frame) : Prop where
  frames : ∃ d, s.threads t = some d ∧ d.callStack.map frameOf = real.take maxStack
  callers : real.length ≤ maxStack →
    StoresCallers allocs s (real.map Frame.callAddress).reverse

def tracedStep (state : ProcTables τ υ × List Frame) (e : StackEvent) :
    ProcTables τ υ × List Frame :=
  (stackStep ranges state.1 e, realStep state.2 e)

/-- After every event the record is that of the outermost calls. -/
def CallsRecorded (t : Nat) (s : ProcTables τ υ) (es : List StackEvent) : Prop :=
  ∀ before, before <+: es → Recorded allocs t (before.foldl (stackStep ranges) s)
    (before.foldl realStep [])

variable {s : ProcTables τ υ} {t q : Nat} {p : ProcDesc τ υ} {es : List StackEvent}

def Tracked (t q : Nat) (p : ProcDesc τ υ) (state : ProcTables τ υ × List Frame) : Prop :=
  ∃ stack, Executing state.1 t q p stack ∧ stack.map frameOf = state.2.take maxStack

theorem Tracked.recorded {state : ProcTables τ υ × List Frame} (h : Tracked t q p state) :
    Recorded allocs t state.1 state.2 := by
  obtain ⟨stack, hexec, hframes⟩ := h
  refine ⟨⟨_, hexec.thread, hframes⟩, fun hle => ?_⟩
  have hcallers := hexec.storesCallers allocs
  rw [List.take_of_length_le hle] at hframes
  rw [← hframes, List.map_map, ← List.map_reverse]
  exact hcallers

theorem Tracked.step {state : ProcTables τ υ × List Frame} (h : Tracked t q p state) {e : StackEvent}
    (hmapped : Mapped ranges p e) (hnests : Nests state.2 e) :
    (Recorded allocs t (tracedStep ranges state e).1 (tracedStep ranges state e).2 ↔
      Distinct state.2 e) ∧ (Distinct state.2 e → Tracked t q p (tracedStep ranges state e)) := by
  obtain ⟨stack, hexec, hframes⟩ := h
  cases e with
  | call uninit callAddress ret =>
    obtain ⟨entry, hentry, hstep⟩ := stackStep_call ranges hexec hmapped
    have htracked : Tracked t q p (tracedStep ranges state (.call uninit callAddress ret)) := by
      refine ⟨pushed stack entry, ?_, ?_⟩
      · rw [tracedStep, hstep]
        exact hexec.withStack _
      · rw [pushed_take hframes, hentry]
        rfl
    exact ⟨iff_of_true (htracked.recorded allocs) trivial, fun _ => htracked⟩
  | ret ret =>
    have hexec' := hexec.withStack (unwindLoop stack ret stack.length)
    have hiff := unwind_take_iff hframes hnests
    have htracked : Distinct state.2 (.ret ret) →
        Tracked t q p (tracedStep ranges state (.ret ret)) := by
      intro hdistinct
      refine ⟨_, ?_, hiff.mpr hdistinct⟩
      rw [tracedStep, stackStep_ret ranges hexec]
      exact hexec'
    refine ⟨⟨fun hrecorded => hiff.mp ?_, fun hdistinct =>
      (htracked hdistinct).recorded allocs⟩, htracked⟩
    obtain ⟨d, hd, hframes'⟩ := hrecorded.frames
    rw [tracedStep, stackStep_ret ranges hexec, hexec'.thread] at hd
    cases hd
    exact hframes'

theorem foldl_tracedStep (es : List StackEvent) (s : ProcTables τ υ) (real : List Frame) :
    es.foldl (tracedStep ranges) (s, real) =
      (es.foldl (stackStep ranges) s, es.foldl realStep real) := by
  induction es generalizing s real with
  | nil => rfl
  | cons e es ih => exact ih _ _

theorem along_tracedStep_iff {ok : List Frame → StackEvent → Prop} :
    Along (tracedStep ranges) (fun state e => ok state.2 e) (s, []) es ↔ Along realStep ok [] es := by
  refine forall₃_congr fun before e _ => ?_
  rw [foldl_tracedStep]

/-- The record of an executing thread is right throughout a properly nested run of calls from mapped
modules exactly if no dropped call returns like a recorded one. -/
theorem callsRecorded_iff (h : Executing s t q p []) (hmapped : ∀ e ∈ es, Mapped ranges p e)
    (hnests : Along realStep Nests [] es) :
    CallsRecorded allocs ranges t s es ↔ Along realStep Distinct [] es := by
  have hstart : Tracked t q p (s, []) := ⟨[], h, rfl⟩
  have htraced : CallsRecorded allocs ranges t s es ↔ Recorded allocs t s [] ∧
      Along (tracedStep ranges) (fun state e =>
        Recorded allocs t (tracedStep ranges state e).1 (tracedStep ranges state e).2) (s, []) es := by
    refine Iff.trans (forall₂_congr fun before _ => ?_) (@Along.forall_prefix_iff _ _
      (tracedStep ranges) (fun state => Recorded allocs t state.1 state.2) (s, []) es)
    rw [foldl_tracedStep]
  have hdom : Along (tracedStep ranges) (fun state e => Mapped ranges p e ∧ Nests state.2 e)
      (s, []) es := by
    rw [Along.and_iff, along_tracedStep_iff]
    refine ⟨fun before e he => hmapped e ?_, hnests⟩
    exact he.subset (List.mem_append_right _ (List.mem_singleton_self e))
  rw [htraced, and_iff_right (hstart.recorded allocs), ← along_tracedStep_iff ranges]
  exact Along.congr_of_invariant_of hdom
    (fun state e htracked hok => (htracked.step allocs ranges hok.1 hok.2).1)
    (fun state e htracked hok => (htracked.step allocs ranges hok.1 hok.2).2) hstart

/-- The descriptor of process 5 after it was started and a module was mapped. -/
def startedProc : ProcDesc (List MallocDescEx) (List (MMRangeDesc CString)) where
  allocMap := []
  mmrangeMap := [{ mapStart := 0x8000, mapEnd := 0x9000, execOffset := 0, path := [] }]
  threads := [1]
  imagePath := some []
  pid := 5
  parentPid := 0
  flags := procFlagImagePathReplaced ||| procFlagExecuting

/-- The tables with process 5 alone. -/
def started : ProcTables (List MallocDescEx) (List (MMRangeDesc CString)) :=
  let s := [.initPid 5, .switch 5, .setCmdLine [] 0].foldl
    (procStep RangeTree.onLists RangeTree.onLists) ProcTables.init
  { s with procs := Function.update s.procs 0 (some startedProc) }

theorem executing_started : Executing started 1 0 startedProc [] where
  listed := (listed_init.run RangeTree.onLists RangeTree.onLists
    [.initPid 5, .switch 5, .setCmdLine [] 0]).setListed (p := { startedProc with mmrangeMap := [] })
      rfl rfl
  current := .inl rfl
  thread := rfl
  proc := rfl
  executing := rfl

def callAgain : StackEvent := .call ⟨0, 0, 0, []⟩ 0x8000 0x8004

/-- 32 calls of a recursion and one of another place, which is dropped and returns. -/
def recursionOut : List StackEvent :=
  List.replicate 32 callAgain ++
    [StackEvent.call ⟨0, 0, 0, []⟩ 0x8100 0x8104, StackEvent.ret 0x8104, StackEvent.ret 0x8004]

theorem callsRecorded_deep : CallsRecorded RangeTree.onLists RangeTree.onLists 1 started
    recursionOut := by
  refine (callsRecorded_iff _ _ executing_started (fun e he => ?_) (by decide)).mpr (by decide)
  rcases List.mem_append.mp he with hmem | hmem
  · rw [List.eq_of_mem_replicate hmem]
    rfl
  · simp only [List.mem_cons, List.not_mem_nil, or_false] at hmem
    rcases hmem with rfl | rfl | rfl
    · rfl
    · trivial
    · trivial

/-- 33 calls of a recursion, the last of which returns. -/
def recursion : List StackEvent := List.replicate 33 callAgain ++ [StackEvent.ret 0x8004]

/-- The 33rd call is dropped, and its return takes the 32nd out of the record. -/
theorem not_callsRecorded_recursion :
    ¬CallsRecorded RangeTree.onLists RangeTree.onLists 1 started recursion := by
  intro h
  obtain ⟨d, hd, hframes⟩ := (h _ (List.prefix_refl _)).frames
  have hcount : ((recursion.foldl (stackStep RangeTree.onLists) started).threads 1).map
      (fun d => d.callStack.length) = some 31 := by decide +kernel
  have hreal : ((recursion.foldl realStep []).take maxStack).length = 32 := by decide
  rw [hd, Option.map_some, ← List.length_map frameOf, hframes, hreal] at hcount
  exact absurd hcount (by decide)

end Runs

end M2M.Memcheck.Handlers
