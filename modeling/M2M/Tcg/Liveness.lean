import Mathlib

/-! `tcg_liveness_analysis`, which walks backward over the operations of a block and over their
arguments: it tells which inputs are dead, and removes the operations whose outputs are. -/

namespace M2M.Tcg

/-- The sizes of the operations that come in two. -/
inductive Width
  | i32
  | i64
  deriving DecidableEq

/-- The operations of a host with registers of 64 bits. -/
inductive Opc
  | endOp | nop | nop1 | nop2 | nop3 | nopn
  | discard | setLabel | call | jmp | br
  | mov (w : Width) | movi (w : Width) | setcond (w : Width)
  | ld8u (w : Width) | ld8s (w : Width) | ld16u (w : Width) | ld16s (w : Width)
  | ld32uI64 | ld32sI64 | ld (w : Width)
  | st8 (w : Width) | st16 (w : Width) | st32I64 | st (w : Width)
  | add (w : Width) | sub (w : Width) | mul (w : Width)
  | div (w : Width) | divu (w : Width) | rem (w : Width) | remu (w : Width)
  | div2 (w : Width) | divu2 (w : Width)
  | and (w : Width) | or (w : Width) | xor (w : Width)
  | shl (w : Width) | shr (w : Width) | sar (w : Width) | rotl (w : Width) | rotr (w : Width)
  | brcond (w : Width)
  | ext8s (w : Width) | ext16s (w : Width) | ext32sI64
  | ext8u (w : Width) | ext16u (w : Width) | ext32uI64
  | bswap16 (w : Width) | bswap32 (w : Width) | bswap64I64
  | not (w : Width) | neg (w : Width) | andc (w : Width) | orc (w : Width)
  | debugInsnStart | exitTb | gotoTb
  | qemuLd8u | qemuLd8s | qemuLd16u | qemuLd16s | qemuLd32u | qemuLd32s | qemuLd64
  | qemuSt8 | qemuSt16 | qemuSt32 | qemuSt64
  deriving DecidableEq

structure TcgOpDef where
  nbOargs : Nat
  nbIargs : Nat
  nbCargs : Nat
  bbEnd : Bool := false
  callClobber : Bool := false
  sideEffects : Bool := false

def TcgOpDef.nbArgs (d : TcgOpDef) : Nat := d.nbOargs + d.nbIargs + d.nbCargs

/-- The table that `tcg-opc.h` makes up. -/
def tcgOpDefs : Opc → TcgOpDef
  | .endOp | .nop => { nbOargs := 0, nbIargs := 0, nbCargs := 0 }
  | .nop1 | .nopn | .setLabel | .debugInsnStart => { nbOargs := 0, nbIargs := 0, nbCargs := 1 }
  | .nop2 => { nbOargs := 0, nbIargs := 0, nbCargs := 2 }
  | .nop3 => { nbOargs := 0, nbIargs := 0, nbCargs := 3 }
  | .discard => { nbOargs := 1, nbIargs := 0, nbCargs := 0 }
  | .call => { nbOargs := 0, nbIargs := 1, nbCargs := 2, sideEffects := true }
  | .jmp => { nbOargs := 0, nbIargs := 1, nbCargs := 0, bbEnd := true, sideEffects := true }
  | .br | .exitTb | .gotoTb =>
    { nbOargs := 0, nbIargs := 0, nbCargs := 1, bbEnd := true, sideEffects := true }
  | .movi _ => { nbOargs := 1, nbIargs := 0, nbCargs := 1 }
  | .setcond _ => { nbOargs := 1, nbIargs := 2, nbCargs := 1 }
  | .ld8u _ | .ld8s _ | .ld16u _ | .ld16s _ | .ld32uI64 | .ld32sI64 | .ld _ =>
    { nbOargs := 1, nbIargs := 1, nbCargs := 1 }
  | .st8 _ | .st16 _ | .st32I64 | .st _ =>
    { nbOargs := 0, nbIargs := 2, nbCargs := 1, sideEffects := true }
  | .add _ | .sub _ | .mul _ | .div _ | .divu _ | .rem _ | .remu _ | .and _ | .or _ | .xor _
  | .shl _ | .shr _ | .sar _ | .rotl _ | .rotr _ | .andc _ | .orc _ =>
    { nbOargs := 1, nbIargs := 2, nbCargs := 0 }
  | .div2 _ | .divu2 _ => { nbOargs := 2, nbIargs := 3, nbCargs := 0 }
  | .brcond _ => { nbOargs := 0, nbIargs := 2, nbCargs := 2, bbEnd := true, sideEffects := true }
  | .mov _ | .ext8s _ | .ext16s _ | .ext32sI64 | .ext8u _ | .ext16u _ | .ext32uI64
  | .bswap16 _ | .bswap32 _ | .bswap64I64 | .not _ | .neg _ =>
    { nbOargs := 1, nbIargs := 1, nbCargs := 0 }
  | .qemuLd8u | .qemuLd8s | .qemuLd16u | .qemuLd16s | .qemuLd32u | .qemuLd32s | .qemuLd64 =>
    { nbOargs := 1, nbIargs := 1, nbCargs := 1, callClobber := true, sideEffects := true }
  | .qemuSt8 | .qemuSt16 | .qemuSt32 | .qemuSt64 =>
    { nbOargs := 0, nbIargs := 2, nbCargs := 1, callClobber := true, sideEffects := true }

def tcgCallPure : Nat := 0x0010

def tcgCallConst : Nat := 0x0020

def tcgCallDummyArg : Nat := 2 ^ 64 - 1

/-- The temporaries of a block: the globals first, then those that are local to it. -/
structure TcgContext where
  nbGlobals : Nat
  nbTemps : Nat
  tempLocal : Nat → Bool

abbrev DeadTemps := Nat → Bool

def setTemps (dead : DeadTemps) (temps : List Nat) : DeadTemps := fun i =>
  decide (i ∈ temps) || dead i

/-- `memset(dead_temps, 0, s->nb_globals)` -/
def globalsLive (s : TcgContext) (dead : DeadTemps) : DeadTemps := fun i =>
  !decide (i < s.nbGlobals) && dead i

def tcgLaBbEnd (s : TcgContext) (dead : DeadTemps) : DeadTemps := fun i =>
  if i < s.nbGlobals then false else if i < s.nbTemps then !s.tempLocal i else dead i

/-- The inputs become live, from the one with a number on; those that were dead are noted. -/
def inputsLive : Nat → List Nat → DeadTemps → BitVec 16 → BitVec 16 × DeadTemps
  | _, [], dead, deadIargs => (deadIargs, dead)
  | i, arg :: args, dead, deadIargs =>
    if arg = tcgCallDummyArg then
      inputsLive (i + 1) args dead deadIargs
    else
      inputsLive (i + 1) args (Function.update dead arg false)
        (if dead arg then deadIargs ||| 1#16 <<< i else deadIargs)

/-- What becomes of a call, or `none` if it is removed. -/
def callLiveness (s : TcgContext) (flags : Nat) (oargs iargs : List Nat) (dead : DeadTemps) :
    Option (BitVec 16 × DeadTemps) :=
  if flags &&& tcgCallPure ≠ 0 ∧ oargs.all dead then
    none
  else
    let dead := setTemps dead oargs
    let dead := if flags &&& tcgCallConst = 0 then globalsLive s dead else dead
    some (inputsLive 0 iargs dead 0)

/-- The same of any other operation; no argument of one is a dummy. -/
def opLiveness (s : TcgContext) (d : TcgOpDef) (oargs iargs : List Nat) (dead : DeadTemps) :
    Option (BitVec 16 × DeadTemps) :=
  if d.sideEffects = false ∧ d.nbOargs ≠ 0 ∧ oargs.all dead then
    none
  else
    let dead := setTemps dead oargs
    let dead :=
      if d.bbEnd then tcgLaBbEnd s dead else if d.callClobber then globalsLive s dead else dead
    some (inputsLive 0 iargs dead 0)

/-- The walk behind an operation: the arguments before a pointer are still to come. -/
structure Walk where
  opc : Opc
  deadIargs : BitVec 16
  params : List Nat
  args : Nat
  dead : DeadTemps

def slice (params : List Nat) (start len : Nat) : List Nat :=
  (List.range len).map fun i => params.getD (start + i) 0

def tcgSetNop (params : List Nat) (args nbArgs : Nat) : Opc × List Nat :=
  if nbArgs = 0 then (.nop, params)
  else (.nopn, (params.set args nbArgs).set (args + (nbArgs - 1)) nbArgs)

/-- One operation. There is no result where the walk leaves the buffer of the arguments. -/
def livenessStep (s : TcgContext) (op : Opc) (params : List Nat) (args : Nat) (dead : DeadTemps) :
    Option Walk :=
  match op with
  | .call =>
    if args = 0 then none
    else
      let nbArgs := params.getD (args - 1) 0
      if args < nbArgs then none
      else
        let args := args - nbArgs
        let nbIargs := params.getD args 0 &&& 0xffff
        let nbOargs := params.getD args 0 >>> 16
        let flags := params.getD (args + 1 + (nbOargs + nbIargs)) 0
        match callLiveness s flags (slice params (args + 1) nbOargs)
            (slice params (args + 1 + nbOargs) nbIargs) dead with
        | some (deadIargs, dead) => some ⟨.call, deadIargs, params, args, dead⟩
        | none =>
          let (opc, params) := tcgSetNop params args nbArgs
          some ⟨opc, 0, params, args, dead⟩
  | .setLabel => if args < 1 then none else some ⟨op, 0, params, args - 1, tcgLaBbEnd s dead⟩
  | .debugInsnStart =>
    let nbArgs := (tcgOpDefs op).nbArgs
    if args < nbArgs then none else some ⟨op, 0, params, args - nbArgs, dead⟩
  | .nopn =>
    if args = 0 then none
    else
      let nbArgs := params.getD (args - 1) 0
      if args < nbArgs then none else some ⟨op, 0, params, args - nbArgs, dead⟩
  | .discard =>
    if args < 1 then none
    else some ⟨op, 0, params, args - 1, Function.update dead (params.getD (args - 1) 0) true⟩
  | .endOp => some ⟨op, 0, params, args, dead⟩
  | op =>
    let d := tcgOpDefs op
    if args < d.nbArgs then none
    else
      let args := args - d.nbArgs
      match opLiveness s d (slice params args d.nbOargs)
          (slice params (args + d.nbOargs) d.nbIargs) dead with
      | some (deadIargs, dead) => some ⟨op, deadIargs, params, args, dead⟩
      | none =>
        let (opc, params) := tcgSetNop params args d.nbArgs
        some ⟨opc, 0, params, args, dead⟩

/-- The operations from the last on, which are gathered with what is known of their inputs. -/
def livenessLoop (s : TcgContext) : List Opc → List Nat → Nat → DeadTemps →
    List (Opc × BitVec 16) → Option (List (Opc × BitVec 16) × List Nat)
  | [], params, args, _, done => if args = 0 then some (done, params) else none
  | op :: ops, params, args, dead, done =>
    (livenessStep s op params args dead).bind fun w =>
      livenessLoop s ops w.params w.args w.dead ((w.opc, w.deadIargs) :: done)

def opcBufSize : Nat := 2048

/-- The buffers of operations and arguments behind the analysis, with `op_dead_iargs`; there is no
result where it calls `tcg_abort`. -/
def tcgLivenessAnalysis (s : TcgContext) (opcs : List Opc) (params : List Nat) :
    Option (List (Opc × BitVec 16) × List Nat) :=
  -- `gen_opc_ptr` is still at the end operation, which is the last of them.
  if opcs.length - 1 > opcBufSize then none
  else livenessLoop s opcs.reverse params params.length (fun _ => true) []

/-- An operation with its own arguments. -/
structure Op where
  opc : Opc
  args : List Nat
  deriving DecidableEq

namespace Op

/-- How the arguments of a call are laid out, with their number behind them. -/
structure CallOk (args : List Nat) : Prop where
  last : args.getLast? = some args.length
  split : (args.getD 0 0 >>> 16) + (args.getD 0 0 &&& 0xffff) + 3 = args.length

/-- The operation has as many arguments as it should. -/
def Ok (op : Op) : Prop :=
  match op.opc with
  | .call => CallOk op.args
  | .nopn => op.args.head? = some op.args.length ∧ op.args.getLast? = some op.args.length
  | opc => op.args.length = (tcgOpDefs opc).nbArgs

def nbOargs (op : Op) : Nat :=
  if op.opc = .call then op.args.getD 0 0 >>> 16 else (tcgOpDefs op.opc).nbOargs

def nbIargs (op : Op) : Nat :=
  if op.opc = .call then op.args.getD 0 0 &&& 0xffff else (tcgOpDefs op.opc).nbIargs

/-- Where the outputs start. -/
def start (op : Op) : Nat := if op.opc = .call then 1 else 0

def oargs (op : Op) : List Nat := (op.args.drop op.start).take op.nbOargs

def iargs (op : Op) : List Nat := (op.args.drop (op.start + op.nbOargs)).take op.nbIargs

def cargs (op : Op) : List Nat := op.args.drop (op.start + op.nbOargs + op.nbIargs)

def flags (op : Op) : Nat := op.cargs.getD 0 0

def toNop (op : Op) : Op :=
  if op.args.length = 0 then ⟨.nop, []⟩
  else ⟨.nopn, (op.args.set 0 op.args.length).set (op.args.length - 1) op.args.length⟩

def analyse (s : TcgContext) (op : Op) (dead : DeadTemps) : (Op × BitVec 16) × DeadTemps :=
  match op.opc with
  | .call =>
    match callLiveness s op.flags op.oargs op.iargs dead with
    | some (deadIargs, dead) => ((op, deadIargs), dead)
    | none => ((op.toNop, 0), dead)
  | .setLabel => ((op, 0), tcgLaBbEnd s dead)
  | .debugInsnStart | .nopn | .endOp => ((op, 0), dead)
  | .discard => ((op, 0), Function.update dead (op.args.getD 0 0) true)
  | opc =>
    match opLiveness s (tcgOpDefs opc) op.oargs op.iargs dead with
    | some (deadIargs, dead) => ((op, deadIargs), dead)
    | none => ((op.toNop, 0), dead)

end Op

/-- The analysis of a list of operations, and the temporaries that are dead before it. -/
def analyseAll (s : TcgContext) : List Op → List (Op × BitVec 16) × DeadTemps
  | [] => ([], fun _ => true)
  | op :: ops =>
    let r := op.analyse s (analyseAll s ops).2
    (r.1 :: (analyseAll s ops).1, r.2)

def opcodes (ops : List Op) : List Opc := ops.map Op.opc

def params (ops : List Op) : List Nat := ops.flatMap Op.args

/-- How far `tcg_gen_code_common` goes on in the arguments. -/
def nbParams (opc : Opc) (args : List Nat) : Nat :=
  match opc with
  | .nopn => args.getD 0 0
  | .call =>
    (args.getD 0 0 &&& 0xffff) + (args.getD 0 0 >>> 16) + (tcgOpDefs .call).nbCargs + 1
  | opc => (tcgOpDefs opc).nbArgs

/-- The operations that `tcg_gen_code_common` comes by, with their arguments. -/
def tcgGenCode : List (Opc × BitVec 16) → List Nat → List (Op × BitVec 16)
  | [], _ => []
  | (opc, deadIargs) :: opcs, args =>
    if opc = .endOp then []
    else
      (⟨opc, args.take (nbParams opc args)⟩, deadIargs) ::
        tcgGenCode opcs (args.drop (nbParams opc args))

section Buffers

variable {s : TcgContext} {front back : List Nat}

theorem slice_eq (front back : List Nat) {args : List Nat} {i n : Nat} (h : i + n ≤ args.length) :
    slice (front ++ args ++ back) (front.length + i) n = (args.drop i).take n := by
  refine List.ext_getElem ?_ fun k hk hk' => ?_
  · simp [slice]
    omega
  · have hkn : k < n := by simpa [slice] using hk
    have hin : i + k < args.length := by omega
    simp only [slice, List.getElem_map, List.getElem_range, List.getElem_take, List.getElem_drop]
    rw [List.append_assoc, List.getD_append_right _ _ _ _ (by omega),
      List.getD_append _ _ _ _ (by omega), List.getD_eq_getElem _ _ (by omega)]
    congr 1
    omega

theorem getD_eq (front back : List Nat) {args : List Nat} {i : Nat} (h : i < args.length) :
    (front ++ args ++ back).getD (front.length + i) 0 = args.getD i 0 := by
  rw [List.append_assoc, List.getD_append_right _ _ _ _ (by omega),
    List.getD_append _ _ _ _ (by omega), Nat.add_sub_cancel_left]

theorem set_eq (front back : List Nat) {args : List Nat} {i : Nat} (h : i < args.length) (a : Nat) :
    (front ++ args ++ back).set (front.length + i) a = front ++ args.set i a ++ back := by
  rw [List.append_assoc, List.set_append_right _ _ (by omega), Nat.add_sub_cancel_left,
    List.set_append_left _ _ h, List.append_assoc]

theorem tcgSetNop_eq (front back : List Nat) (op : Op) :
    tcgSetNop (front ++ op.args ++ back) front.length op.args.length =
      (op.toNop.opc, front ++ op.toNop.args ++ back) := by
  unfold tcgSetNop Op.toNop
  by_cases hlen : op.args.length = 0
  · rw [if_pos hlen, if_pos hlen, List.eq_nil_of_length_eq_zero hlen]
  · have hfirst : (front ++ op.args ++ back).set front.length op.args.length =
        front ++ op.args.set 0 op.args.length ++ back :=
      set_eq front back (i := 0) (by omega) op.args.length
    rw [if_neg hlen, if_neg hlen, hfirst, set_eq front back (by rw [List.length_set]; omega)]

theorem Op.toNop_ok (op : Op) : op.toNop.Ok := by
  unfold Op.toNop
  by_cases hlen : op.args.length = 0
  · rw [if_pos hlen]
    rfl
  · rw [if_neg hlen]
    have hlast : op.args.length - 1 < op.args.length := by omega
    constructor
    · rw [List.head?_eq_getElem?]
      simpa [List.getElem?_set] using hlen
    · rw [List.getLast?_eq_getElem?, List.length_set, List.length_set,
        List.getElem?_set_self (by rw [List.length_set]; exact hlast)]

def Opc.Plain (opc : Opc) : Prop :=
  opc ∉ [.call, .setLabel, .debugInsnStart, .nopn, .discard, .endOp]

theorem Opc.special_or_plain (opc : Opc) :
    opc = .call ∨ opc = .setLabel ∨ opc = .debugInsnStart ∨ opc = .nopn ∨ opc = .discard ∨
      opc = .endOp ∨ opc.Plain := by
  simp only [Opc.Plain, List.mem_cons, List.not_mem_nil]
  tauto

theorem Op.ok_plain {op : Op} (h : op.opc.Plain) :
    op.Ok ↔ op.args.length = (tcgOpDefs op.opc).nbArgs := by
  unfold Op.Ok
  split <;> simp_all [Opc.Plain]

theorem Op.analyse_plain {op : Op} (h : op.opc.Plain) (dead : DeadTemps) :
    op.analyse s dead =
      match opLiveness s (tcgOpDefs op.opc) op.oargs op.iargs dead with
      | some (deadIargs, dead) => ((op, deadIargs), dead)
      | none => ((op.toNop, 0), dead) := by
  unfold Op.analyse
  split <;> simp_all [Opc.Plain]

theorem livenessStep_plain {opc : Opc} (h : opc.Plain) (params : List Nat) (args : Nat)
    (dead : DeadTemps) :
    livenessStep s opc params args dead =
      if args < (tcgOpDefs opc).nbArgs then none
      else
        match opLiveness s (tcgOpDefs opc)
            (slice params (args - (tcgOpDefs opc).nbArgs) (tcgOpDefs opc).nbOargs)
            (slice params (args - (tcgOpDefs opc).nbArgs + (tcgOpDefs opc).nbOargs)
              (tcgOpDefs opc).nbIargs) dead with
        | some (deadIargs, dead) =>
          some ⟨opc, deadIargs, params, args - (tcgOpDefs opc).nbArgs, dead⟩
        | none =>
          some ⟨(tcgSetNop params (args - (tcgOpDefs opc).nbArgs) (tcgOpDefs opc).nbArgs).1, 0,
            (tcgSetNop params (args - (tcgOpDefs opc).nbArgs) (tcgOpDefs opc).nbArgs).2,
            args - (tcgOpDefs opc).nbArgs, dead⟩ := by
  unfold livenessStep
  split <;> simp_all [Opc.Plain]

theorem livenessStep_eq_plain {op : Op} (hop : op.opc.Plain) (h : op.Ok) (front back : List Nat)
    (dead : DeadTemps) :
    livenessStep s op.opc (front ++ op.args ++ back) (front.length + op.args.length) dead =
      some ⟨(op.analyse s dead).1.1.opc, (op.analyse s dead).1.2,
        front ++ (op.analyse s dead).1.1.args ++ back, front.length, (op.analyse s dead).2⟩ := by
  have hlen := (Op.ok_plain hop).1 h
  have hparts : (tcgOpDefs op.opc).nbOargs + (tcgOpDefs op.opc).nbIargs ≤ op.args.length := by
    rw [hlen]
    exact Nat.le_add_right _ _
  have hcall : op.opc ≠ .call := fun hc => hop (by simp [hc])
  have houts : slice (front ++ op.args ++ back) front.length (tcgOpDefs op.opc).nbOargs =
      op.oargs := by
    have hslice : 0 + (tcgOpDefs op.opc).nbOargs ≤ op.args.length := by omega
    simpa [Op.oargs, Op.start, Op.nbOargs, hcall] using slice_eq front back hslice
  have hins : slice (front ++ op.args ++ back) (front.length + (tcgOpDefs op.opc).nbOargs)
      (tcgOpDefs op.opc).nbIargs = op.iargs := by
    rw [slice_eq front back hparts]
    simp [Op.iargs, Op.start, Op.nbOargs, Op.nbIargs, hcall]
  rw [livenessStep_plain hop, ← hlen, if_neg (by omega), Nat.add_sub_cancel, houts, hins,
    tcgSetNop_eq front back op, Op.analyse_plain hop]
  cases opLiveness s (tcgOpDefs op.opc) op.oargs op.iargs dead <;> rfl

theorem livenessStep_eq_call {op : Op} (hop : op.opc = .call) (h : op.Ok) (front back : List Nat)
    (dead : DeadTemps) :
    livenessStep s op.opc (front ++ op.args ++ back) (front.length + op.args.length) dead =
      some ⟨(op.analyse s dead).1.1.opc, (op.analyse s dead).1.2,
        front ++ (op.analyse s dead).1.1.args ++ back, front.length, (op.analyse s dead).2⟩ := by
  obtain ⟨hlast, hsplit⟩ : Op.CallOk op.args := by simpa [Op.Ok, hop] using h
  have hn : 0 < op.args.length := by omega
  have hnb : (front ++ op.args ++ back).getD (front.length + op.args.length - 1) 0 =
      op.args.length := by
    rw [Nat.add_sub_assoc hn, getD_eq front back (by omega)]
    rw [List.getLast?_eq_getElem?] at hlast
    rw [List.getD_eq_getElem?_getD, hlast, Option.getD_some]
  have hfirst : (front ++ op.args ++ back).getD front.length 0 = op.args.getD 0 0 := by
    have := getD_eq front back hn
    rwa [Nat.add_zero] at this
  have houts : slice (front ++ op.args ++ back) (front.length + 1) (op.args.getD 0 0 >>> 16) =
      op.oargs := by
    rw [slice_eq front back (by omega)]
    simp [Op.oargs, Op.start, Op.nbOargs, hop]
  have hins : slice (front ++ op.args ++ back) (front.length + 1 + op.args.getD 0 0 >>> 16)
      (op.args.getD 0 0 &&& 0xffff) = op.iargs := by
    rw [Nat.add_assoc, slice_eq front back (by omega)]
    simp [Op.iargs, Op.start, Op.nbOargs, Op.nbIargs, hop]
  have hflags : (front ++ op.args ++ back).getD
      (front.length + 1 + (op.args.getD 0 0 >>> 16 + (op.args.getD 0 0 &&& 0xffff))) 0 =
      op.flags := by
    rw [Nat.add_assoc, getD_eq front back (by omega)]
    simp [Op.flags, Op.cargs, Op.start, Op.nbOargs, Op.nbIargs, hop, Nat.add_assoc]
  simp only [livenessStep, Op.analyse, hop]
  rw [if_neg (by omega), hnb, if_neg (by omega), Nat.add_sub_cancel, hfirst, houts, hins, hflags,
    tcgSetNop_eq front back op]
  cases callLiveness s op.flags op.oargs op.iargs dead
  · rfl
  · simp only [hop]

theorem livenessStep_eq {op : Op} (h : op.Ok) (front back : List Nat) (dead : DeadTemps) :
    livenessStep s op.opc (front ++ op.args ++ back) (front.length + op.args.length) dead =
      some ⟨(op.analyse s dead).1.1.opc, (op.analyse s dead).1.2,
        front ++ (op.analyse s dead).1.1.args ++ back, front.length, (op.analyse s dead).2⟩ := by
  rcases op.opc.special_or_plain with hop | hop | hop | hop | hop | hop | hop
  · exact livenessStep_eq_call hop h front back dead
  · have hlen : op.args.length = 1 := by simpa [Op.Ok, hop, tcgOpDefs, TcgOpDef.nbArgs] using h
    simp only [livenessStep, Op.analyse, hop, hlen]
    rw [if_neg (by omega), Nat.add_sub_cancel]
  · have hlen : op.args.length = 1 := by simpa [Op.Ok, hop, tcgOpDefs, TcgOpDef.nbArgs] using h
    simp only [livenessStep, Op.analyse, hop, hlen, tcgOpDefs, TcgOpDef.nbArgs]
    rw [if_neg (by omega), Nat.add_sub_cancel]
  · obtain ⟨hhead, hlast⟩ :
        op.args.head? = some op.args.length ∧ op.args.getLast? = some op.args.length := by
      simpa [Op.Ok, hop] using h
    have hn : 0 < op.args.length := List.length_pos_of_mem (List.mem_of_head? hhead)
    have hnb : (front ++ op.args ++ back).getD (front.length + op.args.length - 1) 0 =
        op.args.length := by
      rw [Nat.add_sub_assoc hn, getD_eq front back (by omega)]
      rw [List.getLast?_eq_getElem?] at hlast
      rw [List.getD_eq_getElem?_getD, hlast, Option.getD_some]
    simp only [livenessStep, Op.analyse, hop]
    rw [if_neg (by omega), hnb, if_neg (by omega), Nat.add_sub_cancel]
  · have hlen : op.args.length = 1 := by simpa [Op.Ok, hop, tcgOpDefs, TcgOpDef.nbArgs] using h
    have hn : 0 < op.args.length := by omega
    have harg := getD_eq front back hn
    rw [Nat.add_zero] at harg
    simp only [livenessStep, Op.analyse, hop, hlen]
    rw [if_neg (by omega), Nat.add_sub_cancel, harg]
  · have hlen : op.args.length = 0 := by simpa [Op.Ok, hop, tcgOpDefs, TcgOpDef.nbArgs] using h
    simp only [livenessStep, Op.analyse, hop, hlen, Nat.add_zero]
  · exact livenessStep_eq_plain hop h front back dead

def notes (ops : List (Op × BitVec 16)) : List (Opc × BitVec 16) :=
  ops.map fun r => (r.1.opc, r.2)

theorem livenessLoop_eq {front : List Op} (h : ∀ op ∈ front, op.Ok) (back : List Op) :
    livenessLoop s (opcodes front).reverse
      (params front ++ params ((analyseAll s back).1.map Prod.fst)) (params front).length
      (analyseAll s back).2 (notes (analyseAll s back).1) =
    some (notes (analyseAll s (front ++ back)).1,
      params ((analyseAll s (front ++ back)).1.map Prod.fst)) := by
  induction front using List.reverseRecOn generalizing back with
  | nil => rfl
  | append_singleton front op ih =>
    have hop : op.Ok := h op (by simp)
    have hparams : params (front ++ [op]) = params front ++ op.args := by
      simp [params]
    have hopcodes : (opcodes (front ++ [op])).reverse = op.opc :: (opcodes front).reverse := by
      simp [opcodes]
    have hback : params ((analyseAll s (op :: back)).1.map Prod.fst) =
        (op.analyse s (analyseAll s back).2).1.1.args ++
          params ((analyseAll s back).1.map Prod.fst) := by
      simp [params, analyseAll]
    have hrest := ih (fun o ho => h o (by simp [ho])) (op :: back)
    rw [hback, ← List.append_assoc] at hrest
    rw [hparams, hopcodes, List.length_append, livenessLoop, livenessStep_eq hop,
      Option.bind_some, List.append_assoc front, List.singleton_append]
    exact hrest

theorem Op.toNop_ne_endOp (op : Op) : op.toNop.opc ≠ .endOp := by
  unfold Op.toNop
  split <;> simp

theorem Op.analyse_eq_or (op : Op) (dead : DeadTemps) :
    (op.analyse s dead).1.1 = op ∨ (op.analyse s dead).1.1 = op.toNop := by
  unfold Op.analyse
  split
  · split
    · exact Or.inl rfl
    · exact Or.inr rfl
  · exact Or.inl rfl
  · exact Or.inl rfl
  · exact Or.inl rfl
  · exact Or.inl rfl
  · exact Or.inl rfl
  · split
    · exact Or.inl rfl
    · exact Or.inr rfl

theorem Op.analyse_ok {op : Op} (h : op.Ok) (dead : DeadTemps) :
    (op.analyse s dead).1.1.Ok := by
  rcases op.analyse_eq_or dead with he | he <;> rw [he]
  · exact h
  · exact op.toNop_ok

theorem Op.analyse_ne_endOp {op : Op} (h : op.opc ≠ .endOp) (dead : DeadTemps) :
    (op.analyse s dead).1.1.opc ≠ .endOp := by
  rcases op.analyse_eq_or dead with he | he <;> rw [he]
  · exact h
  · exact op.toNop_ne_endOp

theorem nbParams_eq {op : Op} (h : op.Ok) (back : List Nat) :
    nbParams op.opc (op.args ++ back) = op.args.length := by
  unfold nbParams
  split
  · next hop =>
    obtain ⟨hhead, -⟩ :
        op.args.head? = some op.args.length ∧ op.args.getLast? = some op.args.length := by
      simpa [Op.Ok, hop] using h
    have hn : 0 < op.args.length := List.length_pos_of_mem (List.mem_of_head? hhead)
    rw [List.head?_eq_getElem?] at hhead
    rw [List.getD_append _ _ _ _ hn, List.getD_eq_getElem?_getD, hhead, Option.getD_some]
  · next hop =>
    obtain ⟨-, hsplit⟩ : Op.CallOk op.args := by simpa [Op.Ok, hop] using h
    have hn : 0 < op.args.length := by omega
    rw [List.getD_append _ _ _ _ hn]
    simp only [tcgOpDefs]
    omega
  · next hnopn hcall =>
    unfold Op.Ok at h
    split at h
    · next hop => exact absurd hop hcall
    · next hop => exact absurd hop hnopn
    · exact h.symm

theorem tcgGenCode_eq (ops : List (Op × BitVec 16)) (h : ∀ r ∈ ops, r.1.Ok)
    (hend : ∀ r ∈ ops, r.1.opc ≠ .endOp) (bits : BitVec 16) :
    tcgGenCode (notes ops ++ [(.endOp, bits)]) (params (ops.map Prod.fst)) = ops := by
  induction ops with
  | nil => rfl
  | cons r ops ih =>
    have hn : nbParams r.1.opc (params ((r :: ops).map Prod.fst)) = r.1.args.length := by
      rw [List.map_cons, params, List.flatMap_cons]
      exact nbParams_eq (h r (by simp)) _
    have hparams : params ((r :: ops).map Prod.fst) = r.1.args ++ params (ops.map Prod.fst) := by
      simp [params]
    have hrest := ih (fun o ho => h o (by simp [ho])) fun o ho => hend o (by simp [ho])
    rw [notes, List.map_cons, List.cons_append, tcgGenCode, if_neg (hend r (by simp)), hn,
      hparams, List.take_left, List.drop_left, ← notes, hrest]

/-- A block ends with an operation of its own. -/
def blockEnd : Op := ⟨.endOp, []⟩

theorem analyseAll_blockEnd (ops : List Op) :
    analyseAll s (ops ++ [blockEnd]) =
      ((analyseAll s ops).1 ++ [(blockEnd, 0)], (analyseAll s ops).2) := by
  induction ops with
  | nil => rfl
  | cons op ops ih =>
    rw [List.cons_append, analyseAll, ih]
    rfl

theorem forall_analyseAll {P : Op → Prop} {ops : List Op} (h : ∀ op ∈ ops, P op)
    (hP : ∀ op dead, P op → P (op.analyse s dead).1.1) : ∀ r ∈ (analyseAll s ops).1, P r.1 := by
  induction ops with
  | nil => simp [analyseAll]
  | cons op ops ih =>
    intro r hr
    rcases List.mem_cons.1 hr with rfl | hr
    · exact hP op _ (h op (by simp))
    · exact ih (fun o ho => h o (by simp [ho])) r hr

theorem length_opcodes_blockEnd (ops : List Op) :
    (opcodes (ops ++ [blockEnd])).length - 1 = ops.length := by
  simp [opcodes]

theorem length_le_of_analysis (s : TcgContext) {ops : List Op}
    {out : List (Opc × BitVec 16) × List Nat}
    (h : tcgLivenessAnalysis s (opcodes (ops ++ [blockEnd])) (params (ops ++ [blockEnd])) =
      some out) : ops.length ≤ opcBufSize := by
  by_contra hmany
  rw [tcgLivenessAnalysis, length_opcodes_blockEnd, if_pos (by omega)] at h
  cases h

theorem tcgLivenessAnalysis_eq (s : TcgContext) {ops : List Op} (h : ∀ op ∈ ops, op.Ok)
    (hfew : ops.length ≤ opcBufSize) :
    tcgLivenessAnalysis s (opcodes (ops ++ [blockEnd])) (params (ops ++ [blockEnd])) =
      some (notes (analyseAll s ops).1 ++ [(.endOp, 0)],
        params ((analyseAll s ops).1.map Prod.fst)) := by
  have hall : ∀ op ∈ ops ++ [blockEnd], op.Ok := by
    intro op hop
    rcases List.mem_append.1 hop with hop | hop
    · exact h op hop
    · rw [List.mem_singleton.1 hop]
      rfl
  have hloop := livenessLoop_eq (s := s) hall []
  have hnil : params ((analyseAll s []).1.map Prod.fst) = [] := rfl
  rw [hnil, List.append_nil, List.append_nil, analyseAll_blockEnd] at hloop
  rw [tcgLivenessAnalysis, length_opcodes_blockEnd, if_neg (by omega)]
  refine hloop.trans ?_
  simp [notes, params, blockEnd]

theorem tcgGenCode_analyseAll {ops : List Op} (h : ∀ op ∈ ops, op.Ok)
    (hend : ∀ op ∈ ops, op.opc ≠ .endOp) :
    tcgGenCode (notes (analyseAll s ops).1 ++ [(.endOp, 0)])
      (params ((analyseAll s ops).1.map Prod.fst)) = (analyseAll s ops).1 :=
  tcgGenCode_eq _ (forall_analyseAll h fun _ dead hop => Op.analyse_ok hop dead)
    (forall_analyseAll hend fun _ dead hop => Op.analyse_ne_endOp hop dead) 0

/-- The analysis of a block with well-formed operations aborts exactly when there are more than the
buffer has room for, and otherwise the generator comes by the same operations in the same order,
those that are removed as ones that do nothing, with the inputs that are dead. -/
theorem tcgGenCode_tcgLivenessAnalysis (s : TcgContext) {ops : List Op} (h : ∀ op ∈ ops, op.Ok)
    (hend : ∀ op ∈ ops, op.opc ≠ .endOp) :
    (tcgLivenessAnalysis s (opcodes (ops ++ [blockEnd])) (params (ops ++ [blockEnd])) = none ↔
        opcBufSize < ops.length) ∧
      (ops.length ≤ opcBufSize → ∃ out,
        tcgLivenessAnalysis s (opcodes (ops ++ [blockEnd])) (params (ops ++ [blockEnd])) =
          some out ∧ tcgGenCode out.1 out.2 = (analyseAll s ops).1) := by
  refine ⟨⟨fun hnone => ?_, fun hmany => ?_⟩, fun hfew => ?_⟩
  · by_contra hfew
    rw [tcgLivenessAnalysis_eq s h (by omega)] at hnone
    cases hnone
  · rw [tcgLivenessAnalysis, length_opcodes_blockEnd, if_pos hmany]
  · exact ⟨_, tcgLivenessAnalysis_eq s h hfew, tcgGenCode_analyseAll h hend⟩

end Buffers

/-- A global, a temporary of the block and two that are not. -/
def smallContext : TcgContext where
  nbGlobals := 1
  nbTemps := 4
  tempLocal i := i == 1

/-- A constant is only the input of a pure call whose output is not used. -/
def unusedCall : List Op :=
  [⟨.movi .i32, [2, 7]⟩, ⟨.call, [0x10001, 3, 2, tcgCallPure, 5]⟩, ⟨.exitTb, [0]⟩]

theorem unusedCall_ok : ∀ op ∈ unusedCall, op.Ok := by
  intro op hop
  simp only [unusedCall, List.mem_cons, List.not_mem_nil, or_false] at hop
  rcases hop with rfl | rfl | rfl
  · rfl
  · exact ⟨rfl, rfl⟩
  · rfl

theorem tcgGenCode_unusedCall :
    ∃ out, tcgLivenessAnalysis smallContext (opcodes (unusedCall ++ [blockEnd]))
        (params (unusedCall ++ [blockEnd])) = some out ∧
      (tcgGenCode out.1 out.2).map (fun r => r.1) =
        [⟨.nopn, [2, 2]⟩, ⟨.nopn, [5, 3, 2, 0x10, 5]⟩, ⟨.exitTb, [0]⟩] := by
  obtain ⟨out, hout, hcode⟩ :=
    (tcgGenCode_tcgLivenessAnalysis smallContext unusedCall_ok (by decide)).2 (by decide)
  exact ⟨out, hout, by rw [hcode]; decide⟩

end M2M.Tcg
