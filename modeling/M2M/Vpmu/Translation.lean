import M2M.Vpmu.DataSheet
import M2M.Vpmu.PcChanges
import M2M.Vpmu.Counters

/-! What the translation of a block of ARM instructions leaves in its `extra_tb_info`:
`disas_arm_insn` as far as it counts, and `dual_issue_check`. -/

namespace M2M.Vpmu.Translation

open M2M.Vpmu.ArmTicks

/-- The fields of `ExtraTBInfo` that translation writes, with those of the decoders. -/
structure ExtraTBInfo extends ArmTicks.ExtraTBInfo where
  insnCount : UInt32
  loadCount : UInt8
  storeCount : UInt8
  ticks : UInt64
  allChangesToPCCount : UInt32
  dualIssueReduceTicks : UInt64

def tbExtraInfoInit : ExtraTBInfo where
  armCount _ := 0
  insnBuf _ := 0
  insnBufIndex := 0
  branchCount := 0
  insnCount := 0
  loadCount := 0
  storeCount := 0
  ticks := 0
  allChangesToPCCount := 0
  dualIssueReduceTicks := 0

section DualIssue

/-- What the arrays `is_ls`, `is_arith`, `Rn`, `Rm` and `Rd` of `dual_issue_check` hold at one
index. -/
structure Locals where
  isLs : BitVec 32
  isArith : BitVec 32
  rn : BitVec 32
  rm : BitVec 32
  rd : BitVec 32
  deriving DecidableEq

/-- The loop body for a word, which leaves some of the cells as they are. -/
def Locals.assign (l : Locals) (insn : BitVec 32) : Locals :=
  if insn &&& 0x0f900000 = 0x03000000 then l
  else if Miscellaneous insn then l
  else if DataProcessing insn then
    { l with
      rd := insn >>> 12 &&& 0xf
      rn := insn >>> 16 &&& 0xf
      rm := insn &&& 0xf
      isArith := 1 }
  else
    { l with
      rd := insn >>> 12 &&& 0xf
      rn := insn >>> 16 &&& 0xf
      isLs := if insn >>> 24 &&& 0xf = 0x4 ∨ insn >>> 24 &&& 0xf = 0x5 then 1 else l.isLs }

def Disjoint (arith ls : Locals) : Prop :=
  arith.rd ≠ ls.rd ∧ arith.rd ≠ ls.rn ∧ arith.rm ≠ ls.rd ∧ arith.rn ≠ ls.rd

instance (arith ls : Locals) : Decidable (Disjoint arith ls) :=
  inferInstanceAs (Decidable (_ ∧ _))

/-- A pair for which `dual_issue_reduce_ticks` is raised. -/
def reduces (first second : Locals) : Bool :=
  if first.isArith = 1 ∧ second.isLs = 1 then Disjoint first second
  else if second.isArith = 1 ∧ first.isLs = 1 then Disjoint second first
  else false

/-- The arrays of `dual_issue_check` before they are assigned, and `rn` and `rd` of
`get_arm_ticks`. -/
structure Unset where
  first : Locals
  second : Locals
  rn : BitVec 32
  rd : BitVec 32

/-- A stack that happens to be clear. -/
def Unset.clear : Unset := ⟨⟨0, 0, 0, 0, 0⟩, ⟨0, 0, 0, 0, 0⟩, 0, 0⟩

namespace ExtraTBInfo

/-- A word of the buffer, which holds it with 64 bits. -/
def word (tb : ExtraTBInfo) (i : Nat) : BitVec 32 := (tb.insnBuf i).toBitVec.setWidth 32

def dualIssueCheck (tb : ExtraTBInfo) (u : Unset) : ExtraTBInfo :=
  { tb with
    dualIssueReduceTicks :=
      if reduces (u.first.assign (tb.word 0)) (u.second.assign (tb.word 1)) then
        tb.dualIssueReduceTicks + 1
      else tb.dualIssueReduceTicks
    insnBufIndex := 0 }

end ExtraTBInfo

end DualIssue

/-- What the translation of a block reads: the processor (`IS_M`, `IS_USER`), and the model,
the timing register and the latencies of VPMU. -/
structure Env where
  isM : Bool
  isUser : Bool
  cpuModel : Nat
  timingRegister : UInt32
  armInstrTime : Nat → UInt32

/-- A program in user mode after `vpmu_model_setup`. -/
def Env.user (cpuModel : Nat) (m : TimingModel) (armInstrTime : Nat → UInt32) : Env where
  isM := false
  isUser := true
  cpuModel := cpuModel
  timingRegister := m.register
  armInstrTime := armInstrTime

/-- The `extra_tb_info` of the block, and the statics of `get_insn_ticks`. -/
structure State where
  tb : ExtraTBInfo
  interlocks : DataSheet.Interlocks

/-- A block before its first instruction. -/
def State.start (interlocks : DataSheet.Interlocks) : State := ⟨tbExtraInfoInit, interlocks⟩

section Disas

variable (env : Env) (u : Unset) (insn : BitVec 32)

/-- `get_arm_ticks` is called. -/
def Env.RunsArmTicks : Prop :=
  simulatorStatus env.timingRegister pipelineSim = true ∧ env.cpuModel = 1

instance : Decidable env.RunsArmTicks := inferInstanceAs (Decidable (_ ∧ _))

/-- `get_arm_ticks`, and `dual_issue_check` when the buffer is full. -/
def armTicks (tb : ExtraTBInfo) : Option ExtraTBInfo :=
  (getArmTicks env.armInstrTime u.rn u.rd insn tb.toExtraTBInfo).map fun ⟨ticks, counted⟩ =>
    let tb : ExtraTBInfo :=
      { tb with toExtraTBInfo := counted, ticks := tb.ticks + ticks.toUInt64 }
    if tb.insnBufIndex = 2 then tb.dualIssueCheck u else tb

/-- The pipeline simulation.  There is no result when `insn_buf` overflows. -/
def pipelineTicks (s : State) : Option State :=
  if simulatorStatus env.timingRegister pipelineSim then
    if env.cpuModel = 1 then (armTicks env u insn s.tb).map fun tb => { s with tb := tb }
    else
      let issued := DataSheet.getInsnTicks env.armInstrTime insn s.interlocks
      some
        { tb := { s.tb with ticks := s.tb.ticks + UInt64.ofBitVec (issued.1.signExtend 64) }
          interlocks := issued.2 }
  else some s

def parseInsn (tb : ExtraTBInfo) : ExtraTBInfo :=
  if simulatorStatus env.timingRegister insnCountSim then
    { tb with allChangesToPCCount := PcChanges.getInsnParser insn tb.allChangesToPCCount }
  else tb

/-- What a path of `disas_arm_insn` counts. -/
inductive Path
  | branch | load | store | other
  deriving DecidableEq

/-- `do_ldst` and the load/store multiples, by the L bit. -/
def transferPath : Path := if insn.getLsbD 20 then .load else .store

/-- The path of a word in `disas_arm_insn`. -/
def path : Path :=
  if env.isM then .other
  else if insn >>> 28 = 0xf then .other
  else if insn &&& 0x0f900000 = 0x03000000 then .other
  else if Miscellaneous insn then
    -- `BX` and `BLX`
    if insn >>> 21 &&& 3 = 1 ∧ (insn >>> 4 &&& 0xf = 1 ∨ insn >>> 4 &&& 0xf = 3) then .branch
    else .other
  else if DataProcessing insn then .other
  else if insn >>> 24 &&& 0xf = 0x4 ∨ insn >>> 24 &&& 0xf = 0x5 then transferPath insn
  else if insn >>> 24 &&& 0xf = 0x6 ∨ insn >>> 24 &&& 0xf = 0x7 then
    if insn.getLsbD 4 then .other
    else if insn >>> 24 &&& 0xf = 0x7 ∧ insn &&& 0x00f000f0 = 0x00f000f0 then .other
    else transferPath insn
  else if insn >>> 24 &&& 0xf = 0x8 ∨ insn >>> 24 &&& 0xf = 0x9 then
    -- only usable in supervisor mode
    if insn.getLsbD 22 ∧ env.isUser then .other else transferPath insn
  else if insn >>> 24 &&& 0xf = 0xa ∨ insn >>> 24 &&& 0xf = 0xb then .branch
  else .other

def ExtraTBInfo.countPath (tb : ExtraTBInfo) : Path → ExtraTBInfo
  | .branch => { tb with toExtraTBInfo := tb.toExtraTBInfo.branch }
  | .load => { tb with loadCount := tb.loadCount + 1 }
  | .store => { tb with storeCount := tb.storeCount + 1 }
  | .other => tb

/-- `disas_arm_insn` and the instruction count. -/
def disasArmInsn (s : State) : Option State :=
  (pipelineTicks env u insn s).map fun s =>
    let tb := (parseInsn env insn s.tb).countPath (path env insn)
    { s with tb := { tb with insnCount := tb.insnCount + 1 } }

/-- The loop of `gen_intermediate_code_internal` on the words of a block.  What is on the stack
differs from call to call. -/
def translate (u : Nat → Unset) (s : State) : List (BitVec 32) → Option State
  | [] => some s
  | insn :: insns =>
    (disasArmInsn env (u 0) insn s).bind fun s => translate (fun n => u (n + 1)) s insns

end Disas

/-- The words of a block, which ends with its page at the latest. -/
structure Block where
  insns : List (BitVec 32)
  length_le : insns.length ≤ 1024

end M2M.Vpmu.Translation
