import M2M.Lib.Loop
import M2M.Tcg.Liveness

/-! What the operations of a block mean, and that the analysis of their inputs keeps it, whatever
becomes of the inputs that it says are dead. -/

namespace M2M.Tcg

open Lib.Loop

variable {V W : Type}

/-- Where the execution goes on behind an operation. -/
inductive Control
  | next
  | jump (label : Nat)
  | leave (code : Nat)

structure Effect (V W : Type) where
  outs : Nat → V
  globals : Nat → V
  world : W
  control : Control

/-- What an operation does with its constants, the globals if it sees them, the world and its
inputs.  Only the end of a basic block is left by a jump. -/
structure Meaning (V W : Type) where
  eval : Opc → List Nat → Option (List V) → W → List V → Effect V W
  bbEnd_of_jump : ∀ opc cargs globals world ins label,
    (eval opc cargs globals world ins).control = .jump label → (tcgOpDefs opc).bbEnd = true

def globalValues (s : TcgContext) (temps : Nat → V) : List V := (List.range s.nbGlobals).map temps

namespace Op

/-- The operation uses the globals, or it may leave the block with them. -/
def seesGlobals (op : Op) : Bool :=
  if op.opc = .call then op.flags &&& tcgCallConst == 0
  else (tcgOpDefs op.opc).bbEnd || (tcgOpDefs op.opc).callClobber

def hasEffects (op : Op) : Bool :=
  if op.opc = .call then op.flags &&& tcgCallPure == 0 else (tcgOpDefs op.opc).sideEffects

def endsBlock (op : Op) : Bool := op.opc == .setLabel || (tcgOpDefs op.opc).bbEnd

def inputs (op : Op) (temps : Nat → V) : List V :=
  (op.iargs.filter (· ≠ tcgCallDummyArg)).map temps

def effect (m : Meaning V W) (s : TcgContext) (op : Op) (temps : Nat → V) (world : W) :
    Effect V W :=
  m.eval op.opc op.cargs (if op.seesGlobals then some (globalValues s temps) else none) world
    (op.inputs temps)

end Op

/-- The inputs with a bit lose their values. -/
def killInputs (dirt : Nat → V) (iargs : List Nat) (deadIargs : BitVec 16) (temps : Nat → V) :
    Nat → V := fun i =>
  if iargs.zipIdx.any fun r => r.1 == i && deadIargs.getLsbD r.2 then dirt i else temps i

def setGlobals (s : TcgContext) (globals temps : Nat → V) : Nat → V := fun i =>
  if i < s.nbGlobals then globals i else temps i

def setOutputs : List Nat → (Nat → V) → (Nat → V) → Nat → V
  | [], _, temps => temps
  | arg :: args, outs, temps =>
    setOutputs args (fun k => outs (k + 1)) (Function.update temps arg (outs 0))

def leaveBlock (s : TcgContext) (junk temps : Nat → V) : Nat → V := fun i =>
  if i < s.nbGlobals ∨ i < s.nbTemps ∧ s.tempLocal i = true then temps i else junk i

/-- The state before an operation, or what is left of it behind the block.  A state is lost where
the generated code ends or goes on at a label that there is not. -/
inductive Machine (V W : Type)
  | running (pc : Nat) (temps : Nat → V) (world : W)
  | left (globals : List V) (world : W) (code : Nat)
  | lost

def labelIndex (ops : List (Op × BitVec 16)) (label : Nat) : Option Nat :=
  ops.findIdx? fun r => r.1.opc == .setLabel && r.1.args.head? == some label

def tempsAfter (m : Meaning V W) (s : TcgContext) (junk dirt : Nat → V) (r : Op × BitVec 16)
    (temps : Nat → V) (world : W) : Nat → V :=
  let e := r.1.effect m s temps world
  let temps := killInputs dirt r.1.iargs r.2 temps
  let temps := if r.1.hasEffects && r.1.seesGlobals then setGlobals s e.globals temps else temps
  let temps := setOutputs r.1.oargs e.outs temps
  if r.1.endsBlock then leaveBlock s junk temps else temps

def execute (m : Meaning V W) (s : TcgContext) (junk dirt : Nat → V) (ops : List (Op × BitVec 16))
    (r : Op × BitVec 16) (pc : Nat) (temps : Nat → V) (world : W) : Machine V W :=
  let e := r.1.effect m s temps world
  let temps := tempsAfter m s junk dirt r temps world
  if r.1.hasEffects then
    if r.1.seesGlobals then
      match e.control with
      | .next => .running (pc + 1) temps e.world
      | .jump label =>
        match labelIndex ops label with
        | some pc => .running pc temps e.world
        | none => .lost
      | .leave code => .left ((List.range s.nbGlobals).map e.globals) e.world code
    else .running (pc + 1) temps e.world
  else .running (pc + 1) temps world

/-- One operation of a list with the bits of the inputs that are dead.  At each step, what is in a
temporary that has no value any more may be something else. -/
def step (m : Meaning V W) (s : TcgContext) (junk dirt : Nat → Nat → V)
    (ops : List (Op × BitVec 16)) (n : Nat) : Machine V W → Machine V W
  | .running pc temps world =>
    match ops[pc]? with
    | some r => execute m s (junk n) (dirt n) ops r pc temps world
    | none => .lost
  | .left globals world code => .left globals world code
  | .lost => .lost

def run (m : Meaning V W) (s : TcgContext) (junk dirt : Nat → Nat → V)
    (ops : List (Op × BitVec 16)) (temps : Nat → V) (world : W) (n : Nat) : Machine V W :=
  forUpTo (step m s junk dirt ops) (.running 0 temps world) n

/-- What there is to see from outside of the block. -/
def Machine.observe : Machine V W → Option Nat × Option W × Option (List V × Nat)
  | .running pc _ world => (some pc, some world, none)
  | .left globals world code => (none, some world, some (globals, code))
  | .lost => (none, none, none)

def Agree (dead : DeadTemps) (temps temps' : Nat → V) : Prop :=
  ∀ i, dead i = false → temps i = temps' i

section Inputs

variable {args : List Nat} {dead : DeadTemps} {i k j : Nat} {bits : BitVec 16}

theorem inputsLive_live (h : dead i = false) : (inputsLive k args dead bits).2 i = false := by
  induction args generalizing k dead bits with
  | nil => exact h
  | cons arg args ih =>
    unfold inputsLive
    split
    · exact ih h
    · refine ih ?_
      by_cases hi : i = arg
      · rw [hi, Function.update_self]
      · rw [Function.update_of_ne hi, h]

theorem inputsLive_input (hi : i ∈ args) (hne : i ≠ tcgCallDummyArg) :
    (inputsLive k args dead bits).2 i = false := by
  induction args generalizing k dead bits with
  | nil => simp at hi
  | cons arg args ih =>
    unfold inputsLive
    rcases List.mem_cons.1 hi with rfl | hi
    · rw [if_neg hne]
      exact inputsLive_live (Function.update_self ..)
    · split
      · exact ih hi
      · exact ih hi

theorem inputsLive_bit (h : (inputsLive k args dead bits).1.getLsbD j = true) :
    bits.getLsbD j = true ∨ ∃ l arg, args[l]? = some arg ∧ j = k + l ∧ dead arg = true := by
  induction args generalizing k dead bits with
  | nil => exact Or.inl h
  | cons arg args ih =>
    unfold inputsLive at h
    split at h
    · rcases ih h with hb | ⟨l, a, ha, rfl, hd⟩
      · exact Or.inl hb
      · exact Or.inr ⟨l + 1, a, ha, by omega, hd⟩
    · rcases ih h with hb | ⟨l, a, ha, rfl, hd⟩
      · split at hb
        · next hdead =>
          rw [BitVec.getLsbD_or, Bool.or_eq_true] at hb
          refine hb.imp_right fun hbit => ⟨0, arg, rfl, ?_, hdead⟩
          simp only [BitVec.getLsbD_shiftLeft, BitVec.getLsbD_one, Bool.and_eq_true,
            decide_eq_true_eq, Bool.not_eq_true', decide_eq_false_iff_not] at hbit
          omega
        · exact Or.inl hb
      · refine Or.inr ⟨l + 1, a, ha, by omega, ?_⟩
        by_cases hne : a = arg
        · rw [hne, Function.update_self] at hd
          cases hd
        · rwa [Function.update_of_ne hne] at hd

theorem killInputs_zero (dirt temps : Nat → V) : killInputs dirt args 0 temps = temps := by
  funext i
  simp [killInputs]

theorem killInputs_eq (dirt temps : Nat → V) (h : dead i = false) :
    killInputs dirt args (inputsLive 0 args dead 0).1 temps i = temps i := by
  refine if_neg fun hany => ?_
  obtain ⟨r, hr, hbit⟩ := List.any_eq_true.1 hany
  rw [Bool.and_eq_true, beq_iff_eq] at hbit
  rcases inputsLive_bit hbit.2 with hb | ⟨l, arg, harg, hl, hd⟩
  · simp at hb
  · have hget := List.mem_zipIdx_iff_getElem?.1 hr
    rw [Nat.zero_add] at hl
    rw [hl, harg, Option.some.injEq] at hget
    rw [hget, hbit.1, h] at hd
    cases hd

theorem setOutputs_of_notMem {outs temps : Nat → V} (h : i ∉ args) :
    setOutputs args outs temps i = temps i := by
  induction args generalizing outs temps with
  | nil => rfl
  | cons arg args ih =>
    rw [List.mem_cons, not_or] at h
    rw [setOutputs, ih h.2, Function.update_of_ne h.1]

theorem setOutputs_congr {outs temps temps' : Nat → V} (h : i ∉ args → temps i = temps' i) :
    setOutputs args outs temps i = setOutputs args outs temps' i := by
  induction args generalizing outs temps temps' with
  | nil => exact h (by simp)
  | cons arg args ih =>
    refine ih fun hi => ?_
    by_cases hne : i = arg
    · rw [hne, Function.update_self, Function.update_self]
    · rw [Function.update_of_ne hne, Function.update_of_ne hne, h (by simp [hne, hi])]

end Inputs

/-- What is dead between the inputs of an operation and its outputs. -/
structure Between (s : TcgContext) (op : Op) (dead between : DeadTemps) : Prop where
  globals : op.seesGlobals = true → ∀ i < s.nbGlobals, between i = false
  ends : op.endsBlock = true → ∀ i,
    i < s.nbGlobals ∨ i < s.nbTemps ∧ s.tempLocal i = true → between i = false
  outs : op.endsBlock = false → ∀ i, dead i = false → i ∈ op.oargs ∨ between i = false

/-- Nobody sees that the operation is not there. -/
structure Removable (op : Op) (dead : DeadTemps) : Prop where
  effects : op.hasEffects = false
  ends : op.endsBlock = false
  outs : ∀ i ∈ op.oargs, dead i = true

theorem setTemps_eq_false {dead : DeadTemps} {temps : List Nat} {i : Nat} :
    setTemps dead temps i = false ↔ i ∉ temps ∧ dead i = false := by
  simp [setTemps]

theorem mem_or_setTemps {dead : DeadTemps} {i : Nat} (temps : List Nat) (h : dead i = false) :
    i ∈ temps ∨ setTemps dead temps i = false := by
  rw [setTemps_eq_false]
  tauto

theorem globalsLive_of_lt {s : TcgContext} {dead : DeadTemps} {i : Nat} (h : i < s.nbGlobals) :
    globalsLive s dead i = false := by
  simp [globalsLive, h]

theorem globalsLive_of_eq_false {s : TcgContext} {dead : DeadTemps} {i : Nat}
    (h : dead i = false) : globalsLive s dead i = false := by
  simp [globalsLive, h]

theorem tcgLaBbEnd_eq_false {s : TcgContext} {dead : DeadTemps} {i : Nat}
    (h : i < s.nbGlobals ∨ i < s.nbTemps ∧ s.tempLocal i = true) :
    tcgLaBbEnd s dead i = false := by
  unfold tcgLaBbEnd
  split
  · rfl
  · next hglobal =>
    obtain ⟨htemp, hlocal⟩ := h.resolve_left hglobal
    rw [if_pos htemp, hlocal, Bool.not_true]

theorem bbEnd_of_sideEffects {opc : Opc} (h : (tcgOpDefs opc).sideEffects = false) :
    (tcgOpDefs opc).bbEnd = false := by
  cases opc <;> simp_all [tcgOpDefs]

section Analysis

variable {s : TcgContext} {op : Op} {dead : DeadTemps}

theorem between_call (hop : op.opc = .call) :
    Between s op dead (if op.flags &&& tcgCallConst = 0 then globalsLive s (setTemps dead op.oargs)
      else setTemps dead op.oargs) where
  globals hsees i hi := by
    have hconst : op.flags &&& tcgCallConst = 0 := by simpa [Op.seesGlobals, hop] using hsees
    rw [if_pos hconst]
    exact globalsLive_of_lt hi
  ends hends := by simp [Op.endsBlock, hop, tcgOpDefs] at hends
  outs _ i hi := by
    refine (mem_or_setTemps op.oargs hi).imp_right fun h => ?_
    split
    · exact globalsLive_of_eq_false h
    · exact h

theorem between_plain (hop : op.opc.Plain) :
    Between s op dead
      (if (tcgOpDefs op.opc).bbEnd then tcgLaBbEnd s (setTemps dead op.oargs)
        else if (tcgOpDefs op.opc).callClobber then globalsLive s (setTemps dead op.oargs)
        else setTemps dead op.oargs) where
  globals hsees i hi := by
    have hcall : op.opc ≠ .call := fun hc => hop (by simp [hc])
    rw [Op.seesGlobals, if_neg hcall, Bool.or_eq_true] at hsees
    split
    · exact tcgLaBbEnd_eq_false (Or.inl hi)
    · next hend =>
      rw [if_pos (hsees.resolve_left hend)]
      exact globalsLive_of_lt hi
  ends hends i hi := by
    have hlabel : op.opc ≠ .setLabel := fun hc => hop (by simp [hc])
    have hbb : (tcgOpDefs op.opc).bbEnd = true := by simpa [Op.endsBlock, hlabel] using hends
    rw [if_pos hbb]
    exact tcgLaBbEnd_eq_false hi
  outs hends i hi := by
    have hbb : ¬(tcgOpDefs op.opc).bbEnd = true := by
      simp only [Op.endsBlock, Bool.or_eq_false_iff] at hends
      simp [hends.2]
    rw [if_neg hbb]
    refine (mem_or_setTemps op.oargs hi).imp_right fun h => ?_
    split
    · exact globalsLive_of_eq_false h
    · exact h

theorem between_special (hend : op.endsBlock = false) (hsees : op.seesGlobals = false)
    {between : DeadTemps} (h : ∀ i, dead i = false → i ∈ op.oargs ∨ between i = false) :
    Between s op dead between where
  globals hs := by simp [hsees] at hs
  ends he := by simp [hend] at he
  outs _ := h

theorem analyse_idle (hop : op.opc = .debugInsnStart ∨ op.opc = .nopn ∨ op.opc = .endOp)
    (dead : DeadTemps) :
    ∃ between, Between s op dead between ∧ op.analyse s dead =
      ((op, (inputsLive 0 op.iargs between 0).1), (inputsLive 0 op.iargs between 0).2) := by
  refine ⟨dead, between_special ?_ ?_ fun i hi => Or.inr hi, ?_⟩
  · rcases hop with hop | hop | hop <;> simp [Op.endsBlock, hop, tcgOpDefs]
  · rcases hop with hop | hop | hop <;> simp [Op.seesGlobals, hop, tcgOpDefs]
  · rcases hop with hop | hop | hop <;>
      simp [Op.analyse, hop, Op.iargs, Op.nbIargs, tcgOpDefs, inputsLive]

/-- What the analysis makes of an operation: it is kept, and its inputs are live before it, or it
is not needed. -/
theorem analyse_cases (h : op.Ok) (dead : DeadTemps) :
    (∃ between, Between s op dead between ∧ op.analyse s dead =
      ((op, (inputsLive 0 op.iargs between 0).1), (inputsLive 0 op.iargs between 0).2)) ∨
    (Removable op dead ∧ op.analyse s dead = ((op.toNop, 0), dead)) := by
  rcases op.opc.special_or_plain with hop | hop | hop | hop | hop | hop | hop
  · by_cases hrem : op.flags &&& tcgCallPure ≠ 0 ∧ op.oargs.all dead
    · refine Or.inr ⟨⟨?_, ?_, ?_⟩, ?_⟩
      · simp [Op.hasEffects, hop, hrem.1]
      · simp [Op.endsBlock, hop, tcgOpDefs]
      · exact List.all_eq_true.1 hrem.2
      · simp only [Op.analyse, hop]
        rw [callLiveness, if_pos hrem]
    · refine Or.inl ⟨_, between_call hop, ?_⟩
      simp only [Op.analyse, hop]
      rw [callLiveness, if_neg hrem]
  · refine Or.inl ⟨tcgLaBbEnd s dead, ⟨?_, ?_, ?_⟩, ?_⟩
    · exact fun _ i hi => tcgLaBbEnd_eq_false (Or.inl hi)
    · exact fun _ i hi => tcgLaBbEnd_eq_false hi
    · simp [Op.endsBlock, hop]
    · simp [Op.analyse, hop, Op.iargs, Op.nbIargs, tcgOpDefs, inputsLive]
  · exact Or.inl (analyse_idle (Or.inl hop) dead)
  · exact Or.inl (analyse_idle (Or.inr (Or.inl hop)) dead)
  · refine Or.inl ⟨Function.update dead (op.args.getD 0 0) true,
      between_special ?_ ?_ fun i hi => ?_, ?_⟩
    · simp [Op.endsBlock, hop, tcgOpDefs]
    · simp [Op.seesGlobals, hop, tcgOpDefs]
    · have hlen : op.args.length = 1 := by simpa [Op.Ok, hop, tcgOpDefs, TcgOpDef.nbArgs] using h
      obtain ⟨arg, harg⟩ := List.length_eq_one_iff.1 hlen
      by_cases hne : i = arg
      · left
        simp [Op.oargs, Op.start, Op.nbOargs, hop, tcgOpDefs, harg, hne]
      · right
        rw [harg, List.getD_cons_zero, Function.update_of_ne hne, hi]
    · simp [Op.analyse, hop, Op.iargs, Op.nbIargs, tcgOpDefs, inputsLive]
  · exact Or.inl (analyse_idle (Or.inr (Or.inr hop)) dead)
  · rw [Op.analyse_plain hop]
    by_cases hrem : (tcgOpDefs op.opc).sideEffects = false ∧ (tcgOpDefs op.opc).nbOargs ≠ 0 ∧
        op.oargs.all dead
    · refine Or.inr ⟨⟨?_, ?_, ?_⟩, ?_⟩
      · have hcall : op.opc ≠ .call := fun hc => hop (by simp [hc])
        simp [Op.hasEffects, hcall, hrem.1]
      · have hlabel : op.opc ≠ .setLabel := fun hc => hop (by simp [hc])
        simp [Op.endsBlock, hlabel, bbEnd_of_sideEffects hrem.1]
      · exact List.all_eq_true.1 hrem.2.2
      · rw [opLiveness, if_pos hrem]
    · refine Or.inl ⟨_, between_plain hop, ?_⟩
      rw [opLiveness, if_neg hrem]

end Analysis

section Execution

variable {m : Meaning V W} {s : TcgContext} {op : Op} {dead between : DeadTemps}
  {temps temps' junk dirt dirt' : Nat → V} {world : W}

theorem effect_eq (hb : Between s op dead between)
    (h : Agree (inputsLive 0 op.iargs between 0).2 temps temps') :
    op.effect m s temps world = op.effect m s temps' world := by
  have hins : op.inputs temps = op.inputs temps' := by
    refine List.map_congr_left fun i hi => h i ?_
    obtain ⟨hmem, hne⟩ := List.mem_filter.1 hi
    exact inputsLive_input hmem (of_decide_eq_true hne)
  have hglobals : op.seesGlobals = true → globalValues s temps = globalValues s temps' := by
    intro hsees
    refine List.map_congr_left fun i hi => h i ?_
    exact inputsLive_live (hb.globals hsees i (List.mem_range.1 hi))
  unfold Op.effect
  rw [hins]
  split
  · next hsees => rw [hglobals hsees]
  · rfl

theorem outputs_eq (h : Agree (inputsLive 0 op.iargs between 0).2 temps temps') (e : Effect V W)
    (b : Bool) {i : Nat} (hi : i ∈ op.oargs ∨ between i = false) :
    setOutputs op.oargs e.outs (if b then setGlobals s e.globals temps else temps) i =
      setOutputs op.oargs e.outs
        (if b then setGlobals s e.globals
          (killInputs dirt op.iargs (inputsLive 0 op.iargs between 0).1 temps')
        else killInputs dirt op.iargs (inputsLive 0 op.iargs between 0).1 temps') i := by
  refine setOutputs_congr fun hout => ?_
  have hbetween := hi.resolve_left hout
  have hsame : temps i = killInputs dirt op.iargs (inputsLive 0 op.iargs between 0).1 temps' i := by
    rw [killInputs_eq dirt temps' hbetween]
    exact h i (inputsLive_live hbetween)
  split
  · unfold setGlobals
    split
    · rfl
    · exact hsame
  · exact hsame

theorem tempsAfter_agree (hb : Between s op dead between)
    (h : Agree (inputsLive 0 op.iargs between 0).2 temps temps') :
    Agree dead (tempsAfter m s junk dirt (op, 0) temps world)
      (tempsAfter m s junk dirt' (op, (inputsLive 0 op.iargs between 0).1) temps' world) := by
  intro i hi
  simp only [tempsAfter]
  rw [killInputs_zero, effect_eq hb h]
  split
  · next hends =>
    unfold leaveBlock
    split
    · next hlives => exact outputs_eq h _ _ (Or.inr (hb.ends hends i hlives))
    · rfl
  · next hends => exact outputs_eq h _ _ (hb.outs (Bool.eq_false_iff.2 hends) i hi)

theorem tempsAfter_eq (hb : Between s op dead between)
    (h : Agree (inputsLive 0 op.iargs between 0).2 temps temps') (hends : op.endsBlock = true) :
    tempsAfter m s junk dirt (op, 0) temps world =
      tempsAfter m s junk dirt' (op, (inputsLive 0 op.iargs between 0).1) temps' world := by
  funext i
  simp only [tempsAfter]
  rw [killInputs_zero, effect_eq hb h, if_pos hends, if_pos hends]
  unfold leaveBlock
  split
  · next hlives => exact outputs_eq h _ _ (Or.inr (hb.ends hends i hlives))
  · rfl

theorem tempsAfter_removable (hr : Removable op dead) (h : Agree dead temps temps') :
    Agree dead (tempsAfter m s junk dirt (op, 0) temps world) temps' := by
  intro i hi
  have hout : i ∉ op.oargs := fun hout => by simp [hr.outs i hout] at hi
  simp only [tempsAfter]
  rw [killInputs_zero, hr.effects, hr.ends, Bool.false_and, if_neg Bool.false_ne_true,
    if_neg Bool.false_ne_true, setOutputs_of_notMem hout]
  exact h i hi

end Execution

/-- The operations as they are before the analysis. -/
def unanalysed (ops : List Op) : List (Op × BitVec 16) := ops.map fun op => (op, 0)

/-- The original and the analysed operations at the same point. -/
inductive Same (s : TcgContext) (ops : List Op) : Machine V W → Machine V W → Prop
  | running {pc : Nat} {temps temps' : Nat → V} {world : W}
      (h : Agree (analyseAll s (ops.drop pc)).2 temps temps') :
      Same s ops (.running pc temps world) (.running pc temps' world)
  | left {globals : List V} {world : W} {code : Nat} :
      Same s ops (.left globals world code) (.left globals world code)
  | lost : Same s ops .lost .lost

section Simulation

variable {m : Meaning V W} {s : TcgContext} {ops : List Op} {junk dirt dirt' : Nat → V}

theorem execute_toNop (op : Op) (pc : Nat) (prog : List (Op × BitVec 16)) (temps : Nat → V)
    (world : W) :
    execute m s junk dirt prog (op.toNop, 0) pc temps world = .running (pc + 1) temps world := by
  have heffects : op.toNop.hasEffects = false := by
    unfold Op.toNop
    split <;> simp [Op.hasEffects, tcgOpDefs]
  have hends : op.toNop.endsBlock = false := by
    unfold Op.toNop
    split <;> simp [Op.endsBlock, tcgOpDefs]
  have houts : op.toNop.oargs = [] := by
    unfold Op.toNop
    split <;> simp [Op.oargs, Op.nbOargs, tcgOpDefs]
  simp only [execute, tempsAfter, heffects, hends, houts, setOutputs, Bool.false_and]
  rw [if_neg Bool.false_ne_true, if_neg Bool.false_ne_true, if_neg Bool.false_ne_true,
    killInputs_zero]

theorem getElem?_analyseAll (pc : Nat) :
    (analyseAll s ops).1[pc]? =
      ops[pc]?.map fun op => (op.analyse s (analyseAll s (ops.drop (pc + 1))).2).1 := by
  induction ops generalizing pc with
  | nil => rfl
  | cons op ops ih =>
    cases pc with
    | zero => rfl
    | succ pc => exact ih pc

theorem analyseAll_drop {op : Op} {pc : Nat} (h : ops[pc]? = some op) :
    (analyseAll s (ops.drop pc)).2 =
      (op.analyse s (analyseAll s (ops.drop (pc + 1))).2).2 := by
  obtain ⟨hlt, rfl⟩ := List.getElem?_eq_some_iff.1 h
  rw [List.drop_eq_getElem_cons hlt]
  rfl

theorem analyse_isLabel (op : Op) (dead : DeadTemps) (label : Nat) :
    ((op.analyse s dead).1.1.opc == .setLabel &&
        (op.analyse s dead).1.1.args.head? == some label) =
      (op.opc == .setLabel && op.args.head? == some label) := by
  by_cases hlabel : op.opc = .setLabel
  · simp only [Op.analyse, hlabel]
  · have hnop : op.toNop.opc ≠ .setLabel := by
      unfold Op.toNop
      split <;> simp
    rcases op.analyse_eq_or dead with he | he <;> rw [he]
    rw [beq_false_of_ne hlabel, beq_false_of_ne hnop, Bool.false_and, Bool.false_and]

theorem labelIndex_analyseAll (ops : List Op) (label : Nat) :
    labelIndex (analyseAll s ops).1 label = labelIndex (unanalysed ops) label := by
  unfold labelIndex
  induction ops with
  | nil => rfl
  | cons op ops ih =>
    simp only [analyseAll, unanalysed, List.map_cons, List.findIdx?_cons]
    rw [analyse_isLabel, ih]
    rfl

theorem same_execute {op : Op} {between : DeadTemps} {pc : Nat} {temps temps' : Nat → V}
    {world : W} (hb : Between s op (analyseAll s (ops.drop (pc + 1))).2 between)
    (h : Agree (inputsLive 0 op.iargs between 0).2 temps temps') :
    Same s ops (execute m s junk dirt (unanalysed ops) (op, 0) pc temps world)
      (execute m s junk dirt' (analyseAll s ops).1
        (op, (inputsLive 0 op.iargs between 0).1) pc temps' world) := by
  have hagree : Agree (analyseAll s (ops.drop (pc + 1))).2
      (tempsAfter m s junk dirt (op, 0) temps world)
      (tempsAfter m s junk dirt' (op, (inputsLive 0 op.iargs between 0).1) temps' world) :=
    tempsAfter_agree hb h
  unfold execute
  simp only
  rw [effect_eq hb h]
  split
  · split
    · split
      · exact Same.running hagree
      · next label hcontrol =>
        have hends : op.endsBlock = true := by
          rw [Op.endsBlock, m.bbEnd_of_jump _ _ _ _ _ _ hcontrol, Bool.or_true]
        have hsame : tempsAfter m s junk dirt (op, 0) temps world =
            tempsAfter m s junk dirt' (op, (inputsLive 0 op.iargs between 0).1) temps' world :=
          tempsAfter_eq hb h hends
        rw [labelIndex_analyseAll, hsame]
        split
        · exact Same.running fun _ _ => rfl
        · exact Same.lost
      · exact Same.left
    · exact Same.running hagree
  · exact Same.running hagree

theorem same_step (hok : ∀ op ∈ ops, op.Ok) {junk dirt dirt' : Nat → Nat → V}
    {x y : Machine V W} (h : Same s ops x y) (n : Nat) :
    Same s ops (step m s junk dirt (unanalysed ops) n x)
      (step m s junk dirt' (analyseAll s ops).1 n y) := by
  cases h with
  | @running pc temps temps' world h =>
    simp only [step]
    rw [getElem?_analyseAll, unanalysed, List.getElem?_map]
    cases hop : ops[pc]? with
    | none => exact Same.lost
    | some op =>
      simp only [Option.map_some]
      rw [analyseAll_drop hop] at h
      rcases analyse_cases (hok op (List.mem_of_getElem? hop))
        (analyseAll s (ops.drop (pc + 1))).2 with ⟨between, hb, he⟩ | ⟨hr, he⟩
      · rw [he] at h ⊢
        exact same_execute hb h
      · rw [he] at h ⊢
        rw [execute_toNop]
        have heffects : execute m s (junk n) (dirt n) (unanalysed ops) (op, 0) pc temps world =
            .running (pc + 1) (tempsAfter m s (junk n) (dirt n) (op, 0) temps world) world := by
          simp [execute, hr.effects]
        rw [← unanalysed, heffects]
        exact Same.running (tempsAfter_removable hr h)
  | left => exact Same.left
  | lost => exact Same.lost

/-- The two stay at the same point in every run, whatever becomes of the dead inputs. -/
theorem same_run (hok : ∀ op ∈ ops, op.Ok) (junk dirt dirt' : Nat → Nat → V)
    {temps temps' : Nat → V} (world : W) (h : Agree (analyseAll s ops).2 temps temps') (n : Nat) :
    Same s ops (run m s junk dirt (unanalysed ops) temps world n)
      (run m s junk dirt' (analyseAll s ops).1 temps' world n) :=
  forUpTo_rel (fun _ => Same s ops) (Same.running h) fun i _ _ _ h => same_step hok h (i + 1)

theorem Same.observe {x y : Machine V W} (h : Same s ops x y) : x.observe = y.observe := by
  cases h <;> rfl

end Simulation

/-- What the generator comes by behind the analysis does the same as the block itself, step by step,
in every run and for every meaning of the operations, even if all the inputs that the analysis says
are dead lose their values. -/
theorem run_tcgLivenessAnalysis (m : Meaning V W) (s : TcgContext) {ops : List Op}
    (hok : ∀ op ∈ ops, op.Ok) (hend : ∀ op ∈ ops, op.opc ≠ .endOp)
    {out : List (Opc × BitVec 16) × List Nat}
    (hout : tcgLivenessAnalysis s (opcodes (ops ++ [blockEnd])) (params (ops ++ [blockEnd])) =
      some out) (junk dirt : Nat → Nat → V) (temps : Nat → V) (world : W) (n : Nat) :
    (run m s junk dirt (tcgGenCode out.1 out.2) temps world n).observe =
      (run m s junk dirt (unanalysed ops) temps world n).observe := by
  rw [tcgLivenessAnalysis_eq s hok (length_le_of_analysis s hout), Option.some.injEq] at hout
  rw [← hout, tcgGenCode_analyseAll hok hend]
  exact (same_run hok junk dirt dirt world (fun _ _ => rfl) n).observe.symm

/-- The constants are outputs, and exits leave with them. -/
def constantsMeaning : Meaning Nat Nat where
  eval opc cargs globals world _ :=
    { outs := fun _ => cargs.getD 0 0
      globals := fun i => (globals.getD []).getD i 0
      world := world
      control := if opc = .exitTb then .leave (cargs.getD 0 0) else .next }
  bbEnd_of_jump opc cargs globals world ins label h := by
    simp only at h
    split at h <;> cases h

theorem run_unusedCall :
    ∃ out, tcgLivenessAnalysis smallContext (opcodes (unusedCall ++ [blockEnd]))
        (params (unusedCall ++ [blockEnd])) = some out ∧
      (run constantsMeaning smallContext (fun _ _ => 0) (fun _ _ => 0) (tcgGenCode out.1 out.2)
        (fun i => i + 8) 5 3).observe = (none, some 5, some ([8], 0)) := by
  refine ⟨_, tcgLivenessAnalysis_eq smallContext unusedCall_ok (by decide), ?_⟩
  rw [run_tcgLivenessAnalysis constantsMeaning smallContext unusedCall_ok (by decide)
    (tcgLivenessAnalysis_eq smallContext unusedCall_ok (by decide))]
  rfl

end M2M.Tcg
