import M2M.Tracing.Replay

/-! How many frames a return pops: the searches of `SET_event_branch_kernel` and
`SET_event_branch_irq` against the one of `SET_event_branch_user`. -/

namespace M2M.Tracing.Replay

open Records

variable {target : UInt32} {stack : List UInt32}

/-- The depths of the returns, and the stack that is left, when the search ends at the topmost
frame with the target. -/
def popTop (target : UInt32) (stack : List UInt32) : List Nat × List UInt32 :=
  match findReturn target stack with
  | some i => ([i], stack.drop i)
  | none => ([], stack)

/-- Behind the frames that a return to `target` pops, the search goes on at the depth after the
one where it stood, and finds no such frame there. -/
def NoneBehind (target : UInt32) (stack : List UInt32) : Prop :=
  ∀ i ∈ findReturn target stack, target ∉ stack.drop (2 * i)

instance (target : UInt32) (stack : List UInt32) : Decidable (NoneBehind target stack) :=
  inferInstanceAs (Decidable (∀ i ∈ findReturn target stack, _))

theorem popReturns_eq_nil_iff (target : UInt32) {stack : List UInt32} {fuel i : Nat}
    (hfuel : stack.length < fuel + i) (hi : 0 < i) :
    (popReturns target fuel i stack).1 = [] ↔ target ∉ stack.drop (i - 1) := by
  induction fuel generalizing i with
  | zero => simp [popReturns, List.drop_eq_nil_of_le (show stack.length ≤ i - 1 by omega)]
  | succ fuel ih =>
    rw [popReturns_succ]
    by_cases hle : i ≤ stack.length
    · have hcons : stack.drop (i - 1) = stack[i - 1] :: stack.drop i := by
        rw [List.drop_eq_getElem_cons (by omega), Nat.sub_add_cancel hi]
      rw [if_pos hle, List.getElem?_eq_getElem (by omega), hcons, List.mem_cons, not_or]
      by_cases htop : stack[i - 1] = target
      · simp [htop]
      · rw [if_neg (by simpa using htop), ih (by omega) (Nat.succ_pos i), Nat.succ_sub_one]
        simp [Ne.symm htop]
    · rw [if_neg hle, List.drop_eq_nil_of_le (by omega)]
      simp

theorem popReturns_snd_of_nil {fuel i : Nat} (h : (popReturns target fuel i stack).1 = []) :
    (popReturns target fuel i stack).2 = stack := by
  induction fuel generalizing i with
  | zero => rfl
  | succ fuel ih =>
    rw [popReturns_succ] at h ⊢
    by_cases hle : i ≤ stack.length
    · by_cases htop : stack[i - 1]? = some target
      · simp [hle, htop] at h
      · rw [if_pos hle, if_neg htop] at h ⊢
        exact ih h
    · rw [if_neg hle]

theorem popReturns_skip {d : Nat} (hd : ∀ j < d, stack[j]? ≠ some target)
    (hlen : d ≤ stack.length) (fuel : Nat) :
    popReturns target (fuel + d) 1 stack = popReturns target fuel (d + 1) stack := by
  induction d generalizing fuel with
  | zero => rfl
  | succ d ih =>
    rw [← Nat.succ_add_eq_add_succ, ih (fun j hj => hd j (by omega)) (by omega),
      popReturns_succ, if_pos (by omega), if_neg (by simpa using hd d (Nat.lt_succ_self d))]

/-- The search of the kernel and the interrupt stack ends as that of the user stack does exactly
when it finds nothing behind. -/
theorem popReturns_eq_popTop_iff :
    popReturns target stack.length 1 stack = popTop target stack ↔ NoneBehind target stack := by
  cases hfind : findReturn target stack with
  | none =>
    have hnot : target ∉ stack := by simpa [findReturn] using hfind
    have hnil := (popReturns_eq_nil_iff target (Nat.lt_succ_self stack.length)
      Nat.one_pos).2 hnot
    simp [popTop, NoneBehind, hfind, Prod.ext_iff, hnil, popReturns_snd_of_nil hnil]
  | some i =>
    obtain ⟨j, hj, rfl⟩ := Option.map_eq_some_iff.1 hfind
    obtain ⟨hlt, hget, hfirst⟩ := List.idxOf?_eq_some_iff.1 hj
    have hother : ∀ k < j, stack[k]? ≠ some target := fun k hk => by
      simpa [List.getElem?_eq_getElem (hk.trans hlt)] using hfirst k hk
    have hskip := popReturns_skip hother hlt.le (stack.length - j)
    rw [Nat.sub_add_cancel hlt.le, ← Nat.sub_add_cancel (Nat.sub_pos_of_lt hlt),
      popReturns_succ, if_pos (Nat.succ_le_of_lt hlt), if_pos (by simpa [hlt] using hget)] at hskip
    have hfuel : (stack.drop (j + 1)).length < stack.length - j - 1 + (j + 2) := by
      rw [List.length_drop]
      omega
    have hbehind := popReturns_eq_nil_iff target hfuel (by omega)
    rw [List.drop_drop, show j + 1 + (j + 2 - 1) = 2 * (j + 1) by omega] at hbehind
    simp only [popTop, NoneBehind, hfind, Option.mem_some_iff, forall_eq', ← hbehind]
    rw [hskip]
    constructor
    · intro h
      simpa using congrArg Prod.fst h
    · intro h
      rw [h, popReturns_snd_of_nil h]

namespace Process

variable (p : Process) (ret : UInt32)

theorem branchKernel_of_not_entry (h : p.objKernel.find target = none) :
    p.branchKernel target ret =
      ({ p with kernel := (popReturns target p.kernel.length 1 p.kernel).2 },
        (popReturns target p.kernel.length 1 p.kernel).1.map .kernelReturn) := by
  rw [branchKernel, h]

theorem branchIrq_of_not_entry (h : p.objKernel.find target = none) :
    p.branchIrq target ret =
      ({ p with ic := (popReturns target p.ic.length 1 p.ic).2 },
        (popReturns target p.ic.length 1 p.ic).1.map .icReturn) := by
  rw [branchIrq, h]

theorem branchUser_of_not_entry {obj : Records.ObjFile}
    (hobj : findObj target p.objTable = some obj)
    (h : obj.find target = none) :
    p.branchUser target ret =
      ({ p with user := (popTop target p.user).2 },
        (popTop target p.user).1.map .userReturn) := by
  have htable : p.objTable ≠ [] := by
    rintro hnil
    simp [hnil, findObj] at hobj
  rw [branchUser, if_neg htable]
  simp only [hobj, h, popTop]
  cases findReturn target p.user <;> rfl

/-- The stack that is left and the depths of the returns can be told from the process and its
records. -/
theorem popped_eq_iff (setStack : List UInt32 → Process) (record : Nat → Record)
    (hset : setStack.Injective) (hrecord : record.Injective) {x y : List Nat × List UInt32} :
    (setStack x.2, x.1.map record) = (setStack y.2, y.1.map record) ↔ x = y := by
  rw [Prod.mk.injEq, hset.eq_iff, (List.map_injective_iff.mpr hrecord).eq_iff, and_comm,
    ← Prod.ext_iff]

/-- A return in the kernel. -/
def KernelPopsTop (target ret : UInt32) : Prop :=
  p.branchKernel target ret =
    ({ p with kernel := (popTop target p.kernel).2 },
      (popTop target p.kernel).1.map .kernelReturn)

/-- A return in the interrupt context. -/
def IrqPopsTop (target ret : UInt32) : Prop :=
  p.branchIrq target ret =
    ({ p with ic := (popTop target p.ic).2 }, (popTop target p.ic).1.map .icReturn)

instance (target ret : UInt32) : Decidable (p.KernelPopsTop target ret) :=
  inferInstanceAs (Decidable (_ = _))

instance (target ret : UInt32) : Decidable (p.IrqPopsTop target ret) :=
  inferInstanceAs (Decidable (_ = _))

variable (target)

/-- The searches of the kernel and the interrupt stack take off what that of the user stack
does exactly when they find nothing behind it. -/
theorem returns_popTop_iff (hentry : p.objKernel.find target = none) :
    (p.KernelPopsTop target ret ↔ NoneBehind target p.kernel) ∧
      (p.IrqPopsTop target ret ↔ NoneBehind target p.ic) ∧
      ∀ obj, findObj target p.objTable = some obj → obj.find target = none →
        p.branchUser target ret =
          ({ p with user := (popTop target p.user).2 },
            (popTop target p.user).1.map .userReturn) := by
  refine ⟨?_, ?_, fun obj hobj h => p.branchUser_of_not_entry ret hobj h⟩
  · rw [KernelPopsTop, p.branchKernel_of_not_entry ret hentry, ← popReturns_eq_popTop_iff]
    exact popped_eq_iff (fun kernel => { p with kernel }) .kernelReturn
      (fun _ _ h => (mk.inj h).2.2.2.2.1) fun _ _ => Record.kernelReturn.inj
  · rw [IrqPopsTop, p.branchIrq_of_not_entry ret hentry, ← popReturns_eq_popTop_iff]
    exact popped_eq_iff (fun ic => { p with ic }) .icReturn
      (fun _ _ h => (mk.inj h).2.2.2.2.2.1) fun _ _ => Record.icReturn.inj

/-- A kernel function that has called itself twice: three return addresses, all the same. -/
def recursing : Process where
  type := ⟨true, true, false, false⟩
  objKernel := pushFuncs 1 [⟨0xc0008000, 16⟩]
  objTable := []
  user := []
  kernel := [0xc0008004, 0xc0008004, 0xc0008004]
  ic := [0xc0008004, 0xc0009000]
  irq := []
  returnAddr := 0

theorem recursing_returns_popTop_iff :
    (recursing.KernelPopsTop 0xc0008004 0 ↔ NoneBehind 0xc0008004 recursing.kernel) ∧
      (recursing.IrqPopsTop 0xc0008004 0 ↔ NoneBehind 0xc0008004 recursing.ic) ∧
      ∀ obj, findObj 0xc0008004 recursing.objTable = some obj → obj.find 0xc0008004 = none →
        recursing.branchUser 0xc0008004 0 =
          ({ recursing with user := (popTop 0xc0008004 recursing.user).2 },
            (popTop 0xc0008004 recursing.user).1.map .userReturn) :=
  returns_popTop_iff 0xc0008004 recursing 0 (by decide)

/-- One return to the kernel function takes off its last frame and, with a second record, the
two behind it. -/
theorem recursing_pops_more :
    recursing.objKernel.find 0xc0008004 = none ∧
      recursing.branchKernel 0xc0008004 0 =
        ({ recursing with kernel := [] }, [.kernelReturn 1, .kernelReturn 2]) ∧
      popTop 0xc0008004 recursing.kernel = ([1], [0xc0008004, 0xc0008004]) ∧
      ¬recursing.KernelPopsTop 0xc0008004 0 := by
  decide

end Process

end M2M.Tracing.Replay
