import M2M.Tracing.Records

/-! The call stacks of a traced process and the func records that are written for it. -/

open M2M.Lib

namespace M2M.Tracing.Replay

open Records

/-- The flags of `ProcessType` that the call stacks depend on. -/
structure ProcessType where
  kernel : Bool
  irq : Bool
  library : Bool
  userC : Bool
  deriving DecidableEq

/-- The fields of `SETProcess` that branches and interrupts use.  A stack has its top first. -/
structure Process where
  type : ProcessType
  objKernel : Records.ObjFile
  objTable : List Records.ObjFile
  user : List UInt32
  kernel : List UInt32
  ic : List UInt32
  irq : List UInt32
  returnAddr : UInt32
  deriving DecidableEq

/-- `SET_callstack_push`. -/
def push (stack : List UInt32) (addr : UInt32) : List UInt32 :=
  if stack.length < maxStackSize then addr :: stack else stack

/-- The last object of an ordered table whose text starts at or before the target. -/
def covering (target : UInt32) : Records.ObjFile → List Records.ObjFile → Records.ObjFile
  | obj, [] => obj
  | obj, next :: objs => if target < next.textStart then obj else covering target next objs

/-- The search of `objTable` for the object with the target in its text. -/
def findObj (target : UInt32) : List Records.ObjFile → Option Records.ObjFile
  | [] => none
  | obj :: objs =>
    if target ≥ obj.textStart then
      if target ≤ (covering target obj objs).textEnd then some (covering target obj objs) else none
    else none

def findReturn (target : UInt32) (stack : List UInt32) : Option Nat :=
  (stack.idxOf? target).map (· + 1)

/-- The search of `SET_event_branch_kernel` and `SET_event_branch_irq`, which goes on from depth
`i` after a return that it has found.  The depths of the returns, and the stack that is left. -/
def popReturns (target : UInt32) : Nat → Nat → List UInt32 → List Nat × List UInt32
  | 0, _, stack => ([], stack)
  | fuel + 1, i, stack =>
    if i ≤ stack.length then
      if stack[i - 1]? = some target then
        let (depths, rest) := popReturns target fuel (i + 1) (stack.drop i)
        (i :: depths, rest)
      else popReturns target fuel (i + 1) stack
    else ([], stack)

namespace Process

variable (p : Process) (target ret : UInt32)

/-- `SET_event_branch_user`. -/
def branchUser : Process × List Record :=
  if p.objTable = [] then (p, [])
  else
    match findObj target p.objTable with
    | some obj =>
      match obj.find target with
      | some f =>
        if p.returnAddr = 0 then ({ p with user := push p.user ret }, [.userEntry obj.id f])
        else
          ({ p with user := push p.user p.returnAddr, returnAddr := 0 }, [.userEntry obj.id f])
      | none =>
        match findReturn target p.user with
        | some i => ({ p with user := p.user.drop i }, [.userReturn i])
        | none => (p, [])
    | none =>
      if p.user ≠ [] ∧ p.user.getLast? = some target then
        ({ p with user := [] }, [.userReturn p.user.length])
      else ({ p with returnAddr := ret }, [])

/-- `SET_event_branch_kernel`. -/
def branchKernel : Process × List Record :=
  match p.objKernel.find target with
  | some f => ({ p with kernel := push p.kernel ret }, [.kernelEntry p.objKernel.id f])
  | none =>
    let (depths, rest) := popReturns target p.kernel.length 1 p.kernel
    ({ p with kernel := rest }, depths.map .kernelReturn)

/-- `SET_event_branch_irq`. -/
def branchIrq : Process × List Record :=
  match p.objKernel.find target with
  | some f => ({ p with ic := push p.ic ret }, [.icEntry f])
  | none =>
    let (depths, rest) := popReturns target p.ic.length 1 p.ic
    ({ p with ic := rest }, depths.map .icReturn)

/-- The return from an interrupt. -/
def returnIrq : Process × List Record :=
  if p.type.irq ∧ 0 < p.ic.length then
    ({ p with irq := p.irq.tail, ic := [] }, [.icReturn p.ic.length])
  else ({ p with irq := p.irq.tail }, [])

/-- The switch from SVC to USR mode. -/
def leaveKernel : Process × List Record :=
  if p.type.kernel ∧ 0 < p.kernel.length then
    ({ p with kernel := [] }, [.kernelReturn p.kernel.length])
  else (p, [])

/-- Where `SET_event_branch` takes a branch to belong. -/
inductive Place
  | returnIrq | irq | user | leaveKernel | kernel | elsewhere
  deriving DecidableEq

def place : Place :=
  if (p.type.kernel ∨ p.type.irq) ∧ 0 < p.irq.length then
    if p.irq.head? = some target then .returnIrq
    else if p.type.irq then .irq else .elsewhere
  else if target < 0xc0000000 then
    if ret < 0xc0000000 then
      if p.type.library ∨ p.type.userC then .user else .elsewhere
    else .leaveKernel
  else if p.type.kernel then .kernel else .elsewhere

/-- `SET_event_branch` for the process that is traced. -/
def branch : Process × List Record :=
  match p.place target ret with
  | .returnIrq => p.returnIrq
  | .irq => p.branchIrq target ret
  | .user => p.branchUser target ret
  | .leaveKernel => p.leaveKernel
  | .kernel => p.branchKernel target ret
  | .elsewhere => (p, [])

/-- `SET_event_interrupt`. -/
def interrupt : Process × List Record :=
  if p.type.kernel ∨ p.type.irq then ({ p with irq := push p.irq ret }, []) else (p, [])

end Process

/-- What happens to a traced process.  Its table of objects changes in between. -/
inductive TraceEvent
  | branch (target ret : UInt32)
  | interrupt (ret : UInt32)
  | objTable (objs : List Records.ObjFile)
  deriving DecidableEq

def Process.event (p : Process) : TraceEvent → Process × List Record
  | .branch target ret => p.branch target ret
  | .interrupt ret => p.interrupt ret
  | .objTable objs => ({ p with objTable := objs }, [])

/-- The stacks that a reader of the trace rebuilds, by their sizes. -/
structure Sizes where
  user : Nat
  kernel : Nat
  ic : Nat
  deriving DecidableEq

/-- An entry pushes one frame, and a return pops as many as it says, if there are so many. -/
def Sizes.read (z : Sizes) : Record → Option Sizes
  | .userEntry _ _ => some { z with user := z.user + 1 }
  | .userReturn i => if i ≤ z.user then some { z with user := z.user - i } else none
  | .kernelEntry _ _ => some { z with kernel := z.kernel + 1 }
  | .kernelReturn i => if i ≤ z.kernel then some { z with kernel := z.kernel - i } else none
  | .icEntry _ => some { z with ic := z.ic + 1 }
  | .icReturn i => if i ≤ z.ic then some { z with ic := z.ic - i } else none

def Sizes.replay (z : Sizes) (rs : List Record) : Option Sizes := rs.foldlM Sizes.read z

def Process.sizes (p : Process) : Sizes := ⟨p.user.length, p.kernel.length, p.ic.length⟩

/-- A process with the records that have been written for it. -/
structure Traced where
  process : Process
  records : List Record

namespace Traced

/-- The start of tracing, with empty stacks. -/
def start (type : ProcessType) (objKernel : Records.ObjFile) (objTable : List Records.ObjFile) :
    Traced :=
  ⟨⟨type, objKernel, objTable, [], [], [], [], 0⟩, []⟩

def step (t : Traced) (e : TraceEvent) : Traced :=
  ⟨(t.process.event e).1, t.records ++ (t.process.event e).2⟩

/-- The records say what the stacks are. -/
def Replays (t : Traced) : Prop := (Sizes.mk 0 0 0).replay t.records = some t.process.sizes

instance (t : Traced) : Decidable t.Replays := inferInstanceAs (Decidable (_ = _))

/-- No function is entered whose stack is full. -/
def RoomToEnter (t : Traced) : TraceEvent → Prop
  | .branch target ret => match t.process.place target ret with
    | .user => ((findObj target t.process.objTable).bind (·.find target)).isSome →
      t.process.user.length < maxStackSize
    | .kernel => (t.process.objKernel.find target).isSome → t.process.kernel.length < maxStackSize
    | .irq => (t.process.objKernel.find target).isSome → t.process.ic.length < maxStackSize
    | _ => True
  | _ => True

end Traced

@[simp] theorem replay_nil (z : Sizes) : z.replay [] = some z := rfl

theorem replay_cons (z : Sizes) (r : Record) (rs : List Record) :
    z.replay (r :: rs) = (z.read r).bind (fun z => z.replay rs) := rfl

@[simp] theorem replay_singleton (z : Sizes) (r : Record) : z.replay [r] = z.read r := by
  rw [replay_cons]
  cases z.read r <;> rfl

theorem replay_append (z : Sizes) (rs rs' : List Record) :
    z.replay (rs ++ rs') = (z.replay rs).bind (fun z => z.replay rs') := by
  rw [Sizes.replay, List.foldlM_append]
  rfl

theorem popReturns_succ (target : UInt32) (fuel i : Nat) (stack : List UInt32) :
    popReturns target (fuel + 1) i stack =
      if i ≤ stack.length then
        if stack[i - 1]? = some target then
          (i :: (popReturns target fuel (i + 1) (stack.drop i)).1,
            (popReturns target fuel (i + 1) (stack.drop i)).2)
        else popReturns target fuel (i + 1) stack
      else ([], stack) := rfl

theorem replay_popReturns (make : Nat → Record) (z : Nat → Sizes)
    (hread : ∀ n i, i ≤ n → (z n).read (make i) = some (z (n - i))) (target : UInt32)
    (fuel i : Nat) (stack : List UInt32) :
    (z stack.length).replay ((popReturns target fuel i stack).1.map make) =
      some (z (popReturns target fuel i stack).2.length) := by
  induction fuel generalizing i stack with
  | zero => rfl
  | succ fuel ih =>
    rw [popReturns_succ]
    split
    · rename_i hle
      split
      · rw [List.map_cons, replay_cons, hread _ _ hle, Option.bind_some, ← List.length_drop]
        exact ih (i + 1) (stack.drop i)
      · exact ih (i + 1) stack
    · rfl

theorem length_push_eq_iff (stack : List UInt32) (addr : UInt32) :
    stack.length + 1 = (push stack addr).length ↔ stack.length < maxStackSize := by
  rw [push]
  split
  · simp [*]
  · simp [*]

theorem findReturn_le {target : UInt32} {stack : List UInt32} {i : Nat}
    (h : findReturn target stack = some i) : i ≤ stack.length := by
  rw [findReturn, Option.map_eq_some_iff] at h
  obtain ⟨j, hj, rfl⟩ := h
  rw [List.idxOf?_eq_some_iff] at hj
  exact hj.1

namespace Process

variable (p : Process) (target ret : UInt32)

theorem replay_branchUser : p.sizes.replay (p.branchUser target ret).2 =
      some (p.branchUser target ret).1.sizes ↔
    (((findObj target p.objTable).bind (·.find target)).isSome →
      p.user.length < maxStackSize) := by
  have hpush : ∀ addr, some (Sizes.mk (p.user.length + 1) p.kernel.length p.ic.length) =
      some (Sizes.mk (push p.user addr).length p.kernel.length p.ic.length) ↔
        p.user.length < maxStackSize := fun addr => by
    rw [Option.some.injEq, Sizes.mk.injEq, ← length_push_eq_iff p.user addr]
    simp
  rw [branchUser]
  split
  · rename_i hnil
    simp [hnil, findObj]
  · cases hobj : findObj target p.objTable with
    | none =>
      simp only
      split <;> simp [sizes, Sizes.read]
    | some obj =>
      simp only
      cases hf : obj.find target with
      | some f =>
        simp only [Option.bind_some, hf, Option.isSome_some, true_imp_iff]
        split
        · exact hpush ret
        · exact hpush p.returnAddr
      | none =>
        simp only [Option.bind_some, hf, Option.isSome_none]
        cases hret : findReturn target p.user with
        | none => simp
        | some i => simp [sizes, Sizes.read, findReturn_le hret]

theorem replay_branchKernel : p.sizes.replay (p.branchKernel target ret).2 =
      some (p.branchKernel target ret).1.sizes ↔
    ((p.objKernel.find target).isSome → p.kernel.length < maxStackSize) := by
  rw [branchKernel]
  cases hf : p.objKernel.find target with
  | some f => simp [sizes, Sizes.read, length_push_eq_iff]
  | none =>
    have hpop := replay_popReturns .kernelReturn (fun n => ⟨p.user.length, n, p.ic.length⟩)
      (fun n i hi => by simp [Sizes.read, hi]) target p.kernel.length 1 p.kernel
    simpa [sizes] using hpop

theorem replay_branchIrq : p.sizes.replay (p.branchIrq target ret).2 =
      some (p.branchIrq target ret).1.sizes ↔
    ((p.objKernel.find target).isSome → p.ic.length < maxStackSize) := by
  rw [branchIrq]
  cases hf : p.objKernel.find target with
  | some f => simp [sizes, Sizes.read, length_push_eq_iff]
  | none =>
    have hpop := replay_popReturns .icReturn (fun n => ⟨p.user.length, p.kernel.length, n⟩)
      (fun n i hi => by simp [Sizes.read, hi]) target p.ic.length 1 p.ic
    simpa [sizes] using hpop

theorem replay_returnIrq : p.sizes.replay p.returnIrq.2 = some p.returnIrq.1.sizes := by
  rw [returnIrq]
  split <;> simp [sizes, Sizes.read]

theorem replay_leaveKernel : p.sizes.replay p.leaveKernel.2 = some p.leaveKernel.1.sizes := by
  rw [leaveKernel]
  split <;> simp [sizes, Sizes.read]

theorem replay_interrupt : p.sizes.replay (p.interrupt ret).2 = some (p.interrupt ret).1.sizes := by
  rw [interrupt]
  split <;> rfl

end Process

namespace Traced

theorem Replays.step_iff {t : Traced} (h : t.Replays) (e : TraceEvent) :
    (t.step e).Replays ↔ t.RoomToEnter e := by
  have hstep : (t.step e).Replays ↔ t.process.sizes.replay (t.process.event e).2 =
      some (t.process.event e).1.sizes := by
    rw [Replays, step, replay_append, h, Option.bind_some]
  rw [hstep]
  match e with
  | .objTable objs => exact iff_of_true rfl trivial
  | .interrupt ret => exact iff_of_true (t.process.replay_interrupt ret) trivial
  | .branch target ret =>
    simp only [Process.event, Process.branch, RoomToEnter]
    cases t.process.place target ret with
    | returnIrq => exact iff_of_true t.process.replay_returnIrq trivial
    | irq => exact t.process.replay_branchIrq target ret
    | user => exact t.process.replay_branchUser target ret
    | leaveKernel => exact iff_of_true t.process.replay_leaveKernel trivial
    | kernel => exact t.process.replay_branchKernel target ret
    | elsewhere => exact iff_of_true rfl trivial

/-- The records replay to the stacks after every event, exactly when no function is entered
whose stack is full. -/
theorem replays_iff (type : ProcessType) (objKernel : Records.ObjFile)
    (objTable : List Records.ObjFile) (es : List TraceEvent) :
    (∀ before, before <+: es → (before.foldl step (start type objKernel objTable)).Replays) ↔
      Along step RoomToEnter (start type objKernel objTable) es := by
  have hstart : (start type objKernel objTable).Replays := rfl
  rw [Along.forall_prefix_iff, and_iff_right hstart]
  exact Along.congr_of_invariant (fun _ e h => h.step_iff e) (fun _ e h hok => (h.step_iff e).2 hok)
    hstart

end Traced

def deepFile : Records.ObjFile := pushFuncs 2 [⟨0x8000, 16⟩]

def deepStart : Traced := .start ⟨false, false, false, true⟩ deepFile [deepFile]

def deepCall : TraceEvent := .branch 0x8000 0x8004

theorem findObj_deepFile : findObj 0x8000 [deepFile] = some deepFile := by decide

theorem find_deepFile : deepFile.find 0x8000 = some 0 := by decide

theorem deepStart_calls (n : Nat) (hn : n ≤ maxStackSize) :
    ((List.replicate n deepCall).foldl Traced.step deepStart).process =
      { deepStart.process with user := List.replicate n 0x8004 } := by
  induction n with
  | zero => rfl
  | succ n ih =>
    rw [List.replicate_succ', List.foldl_append, List.foldl_cons, List.foldl_nil, Traced.step,
      ih (Nat.le_of_succ_le hn)]
    simp [deepCall, deepStart, Traced.start, Process.event, Process.branch, Process.place,
      Process.branchUser, findObj_deepFile, find_deepFile, push, Nat.lt_of_succ_le hn,
      List.replicate_succ]

theorem lt_of_roomToEnter {t : Traced} {n : Nat}
    (h : t.process = { deepStart.process with user := List.replicate n 0x8004 })
    (hroom : t.RoomToEnter deepCall) : n < maxStackSize := by
  simpa [Traced.RoomToEnter, deepCall, h, Process.place, deepStart, Traced.start,
    findObj_deepFile, find_deepFile] using hroom

/-- The function calls itself more often than the stack has room for. -/
theorem Traced.recursion_lost :
    ¬∀ (type : ProcessType) (objKernel : Records.ObjFile) (objTable : List Records.ObjFile)
      (es : List TraceEvent),
      (es.foldl step (start type objKernel objTable)).Replays := by
  intro h
  have hdeep : ∀ n, ((List.replicate n deepCall).foldl step deepStart).Replays := fun n => h _ _ _ _
  have hless : ∀ n ≤ maxStackSize, n < maxStackSize := by
    intro n hn
    have hmore := hdeep (n + 1)
    rw [List.replicate_succ', List.foldl_append, List.foldl_cons, List.foldl_nil] at hmore
    exact lt_of_roomToEnter (deepStart_calls n hn) (((hdeep n).step_iff deepCall).1 hmore)
  exact Nat.lt_irrefl _ (hless _ (Nat.le_refl _))

end M2M.Tracing.Replay
