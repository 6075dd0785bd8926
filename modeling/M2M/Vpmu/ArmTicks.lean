import Mathlib

/-! `get_arm_ticks` and `analyze_arm_ticks` of `vpmu_insn_ticks.c`: the two decoders that count
the instructions of a block, the first of which also returns the latency from the table
`arm_instr_time`.  The tests of a word stand in the order of the source; `insn.getLsbD k` is
`insn & (1 << k)`.  What the locals `rn` and `rd` hold before they are set is a parameter. -/

namespace M2M.Vpmu.ArmTicks

/-- `enum arm_instructions` -/
inductive ArmInstruction where
  | b | bl | blx | bx | bxj | adc | add | and | bic | cmn | cmp | eor | mov | mvn | orr | rsb
  | rsc | sbc | sub | teq | tst | mul | muls | mla | mlas | smlaxy | smlal | smlals | smlalxy
  | smlawy | smuad | smusd | smlad | smlsd | smlald | smlsld | smmla | smmls | smmul | smulxy
  | smull | smulls | smulwy | umaal | umlal | umlals | umull | umulls | qadd | qdadd | qadd16
  | qaddsubx | qsubaddx | qsub16 | qadd8 | qsub8 | qsub | qdsub | sadd16 | saddsubx | ssubaddx
  | ssub16 | sadd8 | ssub8 | shadd16 | shaddsubx | shsubaddx | shsub16 | shadd8 | shsub8 | uadd16
  | uaddsubx | usubaddx | usub16 | uadd8 | usub8 | uhadd16 | uhaddsubx | uhsubaddx | uhsub16
  | uhadd8 | uhsub8 | uqadd16 | uqaddsubx | uqsubaddx | uqsub16 | uqadd8 | uqsub8 | sxtab16
  | sxtab | sxtah | sxtb16 | sxtb | sxth | uxtab16 | uxtab | uxtah | uxtb16 | uxtb | uxth | clz
  | usad8 | usada8 | pkh | pkhbt | pkhtb | rev | rev16 | revsh | sel | ssat | ssat16 | usat
  | usat16 | mrs | msr | cps | setend | ldr | ldrb | ldrbt | ldrd | ldrex | ldrh | ldrsb | ldrsh
  | ldrt | str | strb | strbt | strd | strex | strh | strt | ldm1 | ldm2 | ldm3 | stm1 | stm2
  | swp | swpb | bkpt | swi | cdp | ldc | mcr | mcrr | mrc | mrrc | stc | pld | rfe | srs | mcrr2
  | mrrc2 | stc2 | ldc2 | cdp2 | mcr2 | mrc2 | coprocessor | neonDp | neonLs | clrex | dsb | dmb
  | isb | movw | movt | unknown | notInstrumented | totalCount
  deriving DecidableEq

def ArmInstruction.index (c : ArmInstruction) : Nat := c.ctorIdx

/-- `ARM_INSTRUCTIONS`, the number of the entries of `arm_instr_time`. -/
def armInstructions : Nat := 172

/-- The fields of `ExtraTBInfo` that the decoders write. -/
structure ExtraTBInfo where
  armCount : Nat → UInt64
  insnBuf : Nat → UInt64
  insnBufIndex : Nat
  branchCount : UInt32

namespace ExtraTBInfo

/-- `arm_count[instr_index]+=1` -/
def countAt (s : ExtraTBInfo) (instrIndex : Nat) : ExtraTBInfo :=
  { s with armCount := Function.update s.armCount instrIndex (s.armCount instrIndex + 1) }

def count (s : ExtraTBInfo) (c : ArmInstruction) : ExtraTBInfo := s.countAt c.index

/-- `insn_buf[insn_buf_index] = insn; insn_buf_index++` -/
def buffered (s : ExtraTBInfo) (insn : BitVec 32) : ExtraTBInfo :=
  { s with
    insnBuf := Function.update s.insnBuf s.insnBufIndex (UInt64.ofBitVec (insn.setWidth 64))
    insnBufIndex := s.insnBufIndex + 1 }

def buffer (s : ExtraTBInfo) (insn : BitVec 32) : Option ExtraTBInfo :=
  if s.insnBufIndex < 2 then some (s.buffered insn) else none

theorem buffer_eq (s : ExtraTBInfo) (insn : BitVec 32) (h : s.insnBufIndex < 2) :
    s.buffer insn = some (s.buffered insn) :=
  if_pos h

/-- `branch_count += 1` -/
def branch (s : ExtraTBInfo) : ExtraTBInfo := { s with branchCount := s.branchCount + 1 }

end ExtraTBInfo

def Miscellaneous (insn : BitVec 32) : Prop :=
  insn &&& 0x0f900000 = 0x01000000 ∧ insn &&& 0x90 ≠ 0x90

instance (insn : BitVec 32) : Decidable (Miscellaneous insn) := inferInstanceAs (Decidable (_ ∧ _))

def DataProcessing (insn : BitVec 32) : Prop :=
  (insn &&& 0x0e000000 = 0 ∧ insn &&& 0x90 ≠ 0x90) ∨ insn &&& 0x0e000000 = 0x02000000

instance (insn : BitVec 32) : Decidable (DataProcessing insn) :=
  inferInstanceAs (Decidable (_ ∨ _))

/-- `switch(op1)` of the data processing instructions. -/
def dataProcessing (op1 : BitVec 32) : ArmInstruction :=
  match op1 with
  | 0x0 => .and
  | 0x1 => .eor
  | 0x2 => .sub
  | 0x3 => .rsb
  | 0x4 => .add
  | 0x5 => .adc
  | 0x6 => .sbc
  | 0x7 => .rsc
  | 0x8 => .tst
  | 0x9 => .teq
  | 0xa => .cmp
  | 0xb => .cmn
  | 0xc => .orr
  | 0xd => .mov
  | 0xe => .bic
  | _ => .mvn

/-- `case 0: case 1: case 2: case 3: case 6:`, the 32 bit multiplies. -/
def shortMul (op1 : BitVec 32) : Bool :=
  op1 = 0 ∨ op1 = 1 ∨ op1 = 2 ∨ op1 = 3 ∨ op1 = 6

/-- `instr_index` of the 32 bit multiplies. -/
def mulIndex (insn : BitVec 32) : Nat :=
  (if insn.getLsbD 22 then ArmInstruction.mul.index
    else if insn.getLsbD 21 then ArmInstruction.mla.index else ArmInstruction.mul.index) +
    if insn.getLsbD 20 then 1 else 0

/-- `instr_index` of the 64 bit multiplies. -/
def longMulIndex (insn : BitVec 32) : Nat :=
  (if insn.getLsbD 21 then
      if insn.getLsbD 22 then ArmInstruction.smlal.index else ArmInstruction.umlal.index
    else if insn.getLsbD 22 then ArmInstruction.smull.index else ArmInstruction.umull.index) +
    if insn.getLsbD 20 then 1 else 0

/-- `switch (op1)` of the extensions, before the base register is looked at. -/
def extendIndex (op1 : BitVec 32) : Option Nat :=
  match op1 with
  | 0 => some ArmInstruction.sxtb16.index
  | 2 => some ArmInstruction.sxtb.index
  | 3 => some ArmInstruction.sxth.index
  | 4 => some ArmInstruction.uxtb16.index
  | 6 => some ArmInstruction.uxtb.index
  | 7 => some ArmInstruction.uxth.index
  | _ => none

section Get

variable (armInstrTime : Nat → UInt32)

def countedAt (instrIndex : Nat) (s : ExtraTBInfo) : UInt32 × ExtraTBInfo :=
  (armInstrTime instrIndex, s.countAt instrIndex)

def counted (c : ArmInstruction) (s : ExtraTBInfo) : UInt32 × ExtraTBInfo :=
  countedAt armInstrTime c.index s

/-- `illegal_op`, and every `break` out of the last `switch`: the latency is 1. -/
def illegalOp (s : ExtraTBInfo) : UInt32 × ExtraTBInfo := (1, s)

def getUnconditional (insn : BitVec 32) (s : ExtraTBInfo) : UInt32 × ExtraTBInfo :=
  if insn >>> 25 &&& 7 = 1 then counted armInstrTime .neonDp s
  else if insn &&& 0x0f100000 = 0x04000000 then counted armInstrTime .neonLs s
  else if insn &&& 0x0d70f000 = 0x0550f000 then counted armInstrTime .pld s
  else if insn &&& 0x0ffffdff = 0x01010000 then counted armInstrTime .setend s
  else if insn &&& 0x0fffff00 = 0x057ff000 then
    if insn >>> 4 &&& 0xf = 1 then counted armInstrTime .clrex s
    else if insn >>> 4 &&& 0xf = 4 then counted armInstrTime .dsb s
    else if insn >>> 4 &&& 0xf = 5 then counted armInstrTime .dmb s
    else if insn >>> 4 &&& 0xf = 6 then counted armInstrTime .isb s
    else illegalOp s
  else if insn &&& 0x0e5fffe0 = 0x084d0500 then counted armInstrTime .srs s
  else if insn &&& 0x0e5fffe0 = 0x081d0a00 then counted armInstrTime .rfe s
  else if insn &&& 0x0e000000 = 0x0a000000 then counted armInstrTime .blx s
  else if insn &&& 0x0e000f00 = 0x0c000100 then
    if insn.getLsbD 20 then counted armInstrTime .ldc s else counted armInstrTime .stc s
  else if insn &&& 0x0fe00000 = 0x0c400000 then
    if insn.getLsbD 20 then counted armInstrTime .mrrc s else counted armInstrTime .mcrr s
  else if insn &&& 0x0f000010 = 0x0e000010 then
    if insn.getLsbD 20 then counted armInstrTime .mrc s else counted armInstrTime .mcr s
  else if insn &&& 0x0ff10020 = 0x01000000 then counted armInstrTime .cps s
  else illegalOp s

def getMiscellaneous (op1 sh : BitVec 32) (s : ExtraTBInfo) : UInt32 × ExtraTBInfo :=
  if sh = 0 then
    if op1 &&& 1 ≠ 0 then counted armInstrTime .msr s else counted armInstrTime .mrs s
  else if sh = 1 then
    if op1 = 1 then counted armInstrTime .bx s
    else if op1 = 3 then counted armInstrTime .clz s
    else illegalOp s
  else if sh = 2 then
    if op1 = 1 then counted armInstrTime .bxj s else illegalOp s
  else if sh = 3 then
    if op1 ≠ 1 then illegalOp s else counted armInstrTime .blx s
  else if sh = 5 then
    if op1 &&& 2 ≠ 0 then
      if op1 &&& 1 ≠ 0 then counted armInstrTime .qdsub s
      -- The latency is that of `QADD`.
      else (armInstrTime ArmInstruction.qadd.index, s.count .qdadd)
    else if op1 &&& 1 ≠ 0 then counted armInstrTime .qsub s
    else counted armInstrTime .qadd s
  else if sh = 7 then counted armInstrTime .bkpt s
  else if sh = 0x8 ∨ sh = 0xa ∨ sh = 0xc ∨ sh = 0xe then
    if op1 = 1 then
      if sh &&& 2 = 0 then counted armInstrTime .smlawy s else counted armInstrTime .smulwy s
    else if op1 = 3 then counted armInstrTime .smulxy s
    else if op1 = 2 then counted armInstrTime .smlalxy s
    else if op1 = 0 then counted armInstrTime .smlaxy s
    else illegalOp s
  else illegalOp s

/-- Multiplies, extra load/stores. -/
def getMultiply (op1 sh insn : BitVec 32) (s : ExtraTBInfo) : UInt32 × ExtraTBInfo :=
  if sh = 0 then
    if op1 = 0 then
      -- The 32 bit multiplies break out of the `switch` where the others return.
      if shortMul (insn >>> 20 &&& 0xf) then (1, s.countAt (mulIndex insn))
      else countedAt armInstrTime (longMulIndex insn) s
    else if insn.getLsbD 23 then
      -- The counter of `LDREX` stands before the first `case`.
      if insn.getLsbD 20 then (armInstrTime ArmInstruction.ldrex.index, s)
      else counted armInstrTime .strex s
    else if insn.getLsbD 22 then counted armInstrTime .swpb s
    else counted armInstrTime .swp s
  else if insn.getLsbD 20 then
    if sh = 1 then counted armInstrTime .ldrh s
    else if sh = 2 then counted armInstrTime .ldrsb s
    else if sh = 3 then illegalOp s
    else counted armInstrTime .ldrsh s
  else if sh &&& 2 ≠ 0 then
    if sh &&& 1 ≠ 0 then counted armInstrTime .strd s else counted armInstrTime .ldrd s
  else counted armInstrTime .strh s

/-- Armv6 media instructions with bits 24 and 23 equal to 01. -/
def getPacking (rn insn : BitVec 32) (s : ExtraTBInfo) : UInt32 × ExtraTBInfo :=
  if insn &&& 0x00700020 = 0 then
    if insn.getLsbD 6 then counted armInstrTime .pkhtb s else counted armInstrTime .pkhbt s
  else if insn &&& 0x00200020 = 0x00200000 then
    if insn >>> 16 &&& 0x1f ≠ 0 then
      if insn.getLsbD 22 then counted armInstrTime .usat s else counted armInstrTime .ssat s
    else illegalOp s
  else if insn &&& 0x00300fe0 = 0x00200f20 then
    if insn >>> 16 &&& 0x1f ≠ 0 then
      if insn.getLsbD 22 then counted armInstrTime .usat16 s else counted armInstrTime .ssat16 s
    else illegalOp s
  else if insn &&& 0x00700fe0 = 0x00000fa0 then counted armInstrTime .sel s
  else if insn &&& 0x000003e0 = 0x00000060 then
    (extendIndex (insn >>> 20 &&& 7)).elim (illegalOp s)
      (fun instrIndex => countedAt armInstrTime (if rn ≠ 15 then instrIndex - 3 else instrIndex) s)
  else if insn &&& 0x003f0f60 = 0x003f0f20 then
    if insn.getLsbD 22 then illegalOp s
    else if insn.getLsbD 7 then counted armInstrTime .rev16 s
    else counted armInstrTime .rev s
  else illegalOp s

/-- Multiplies (Type 3). -/
def getMultiplies (rd insn : BitVec 32) (s : ExtraTBInfo) : UInt32 × ExtraTBInfo :=
  if insn.getLsbD 20 then
    if rd ≠ 15 then
      if insn.getLsbD 6 then counted armInstrTime .smmls s else counted armInstrTime .smmla s
    else counted armInstrTime .smmul s
  else if insn.getLsbD 22 then
    countedAt armInstrTime ((if insn.getLsbD 6 then 1 else 0) + ArmInstruction.smlald.index) s
  else
    countedAt armInstrTime ((if insn.getLsbD 6 then 1 else 0) + (if rd ≠ 15 then 2 else 0) +
      ArmInstruction.smuad.index) s

/-- Armv6 media instructions. -/
def getMedia (rn rd insn : BitVec 32) (s : ExtraTBInfo) : UInt32 × ExtraTBInfo :=
  if insn >>> 23 &&& 3 = 1 then getPacking armInstrTime rn insn s
  else if insn >>> 23 &&& 3 = 2 then getMultiplies armInstrTime rd insn s
  else if insn >>> 23 &&& 3 = 3 then
    if (insn >>> 17 &&& 0x38#32) ||| (insn >>> 5 &&& 7#32) = 0 then
      if rd ≠ 15 then counted armInstrTime .usada8 s else counted armInstrTime .usad8 s
    -- Bitfield instructions are not counted.
    else illegalOp s
  else illegalOp s

/-- `do_ldst_tianman`: load/store byte/word. -/
def getLdst (op1 insn : BitVec 32) (s : ExtraTBInfo) : UInt32 × ExtraTBInfo :=
  if op1 = 7 ∧ insn &&& 0x00f000f0 = 0x00f000f0 then illegalOp s
  else if insn.getLsbD 20 then
    if insn.getLsbD 22 then counted armInstrTime .ldrb s else counted armInstrTime .ldr s
  else if insn.getLsbD 22 then counted armInstrTime .strb s
  else counted armInstrTime .str s

/-- Load/store multiple words: `switch (insn & 0x00500000 >> 20)`, where the shift binds
tighter. -/
def getMultiple (insn : BitVec 32) (s : ExtraTBInfo) : UInt32 × ExtraTBInfo :=
  if insn &&& 0x00500000#32 >>> 20 = 0 then counted armInstrTime .stm1 s
  else if insn &&& 0x00500000#32 >>> 20 = 1 then counted armInstrTime .ldm1 s
  else if insn &&& 0x00500000#32 >>> 20 = 4 then counted armInstrTime .stm2 s
  else if insn &&& 0x00500000#32 >>> 20 = 5 then
    if insn.getLsbD 15 then counted armInstrTime .ldm3 s else counted armInstrTime .ldm2 s
  else illegalOp s

def getOther (rn rd op1 insn : BitVec 32) (s : ExtraTBInfo) : UInt32 × ExtraTBInfo :=
  if op1 = 0x0 ∨ op1 = 0x1 then getMultiply armInstrTime op1 (insn >>> 5 &&& 3) insn s
  else if op1 = 0x4 ∨ op1 = 0x5 then getLdst armInstrTime op1 insn s
  else if op1 = 0x6 ∨ op1 = 0x7 then
    if insn.getLsbD 4 then getMedia armInstrTime rn rd insn s else getLdst armInstrTime op1 insn s
  else if op1 = 0x8 ∨ op1 = 0x9 then getMultiple armInstrTime insn s
  else if op1 = 0xa ∨ op1 = 0xb then counted armInstrTime .b s.branch
  else if op1 = 0xc ∨ op1 = 0xd ∨ op1 = 0xe then counted armInstrTime .coprocessor s
  else if op1 = 0xf then counted armInstrTime .swi s
  else illegalOp s

/-- `get_arm_ticks` once the word is in the buffer. -/
def getTicks (rn rd insn : BitVec 32) (s : ExtraTBInfo) : UInt32 × ExtraTBInfo :=
  if insn >>> 28 = 0xf then getUnconditional armInstrTime insn s
  else if insn &&& 0x0f900000 = 0x03000000 then
    if ¬ insn.getLsbD 21 then
      if ¬ insn.getLsbD 22 then counted armInstrTime .movw s else counted armInstrTime .movt s
    else if insn >>> 16 &&& 0xf = 0 then illegalOp s
    else counted armInstrTime .msr s
  else if Miscellaneous insn then
    getMiscellaneous armInstrTime (insn >>> 21 &&& 3) (insn >>> 4 &&& 0xf) s
  else if DataProcessing insn then
    counted armInstrTime (dataProcessing (insn >>> 21 &&& 0xf)) s
  else getOther armInstrTime rn rd (insn >>> 24 &&& 0xf) insn s

def getArmTicks (rn rd insn : BitVec 32) (s : ExtraTBInfo) : Option (UInt32 × ExtraTBInfo) :=
  (s.buffer insn).map (getTicks armInstrTime rn rd insn)

end Get

section Analyze

def analyzeUnconditional (insn : BitVec 32) (s : ExtraTBInfo) : ExtraTBInfo :=
  if insn >>> 25 &&& 7 = 1 then s.count .neonDp
  else if insn &&& 0x0f100000 = 0x04000000 then s.count .neonLs
  else if insn &&& 0x0d70f000 = 0x0550f000 then s.count .pld
  else if insn &&& 0x0ffffdff = 0x01010000 then s.count .setend
  else if insn &&& 0x0fffff00 = 0x057ff000 then
    if insn >>> 4 &&& 0xf = 1 then s.count .clrex
    -- The cases 4 and 5 run on into the next one.
    else if insn >>> 4 &&& 0xf = 4 then ((s.count .dsb).count .dmb).count .isb
    else if insn >>> 4 &&& 0xf = 5 then (s.count .dmb).count .isb
    else if insn >>> 4 &&& 0xf = 6 then s.count .isb
    else s
  else if insn &&& 0x0e5fffe0 = 0x084d0500 then s.count .srs
  else if insn &&& 0x0e5fffe0 = 0x081d0a00 then s.count .rfe
  else if insn &&& 0x0e000000 = 0x0a000000 then s.count .blx
  else if insn &&& 0x0e000f00 = 0x0c000100 then
    if insn.getLsbD 20 then s.count .ldc else s.count .stc
  else if insn &&& 0x0fe00000 = 0x0c400000 then
    if insn.getLsbD 20 then s.count .mrrc else s.count .mcrr
  else if insn &&& 0x0f000010 = 0x0e000010 then
    if insn.getLsbD 20 then s.count .mrc else s.count .mcr
  else if insn &&& 0x0ff10020 = 0x01000000 then s.count .cps
  else s

def analyzeMiscellaneous (op1 sh : BitVec 32) (s : ExtraTBInfo) : ExtraTBInfo :=
  if sh = 0 then
    if op1 &&& 1 ≠ 0 then s.count .msr else s.count .mrs
  else if sh = 1 then
    if op1 = 1 then s.count .bx
    else if op1 = 3 then s.count .clz
    else s
  else if sh = 2 then
    if op1 = 1 then s.count .bxj else s
  else if sh = 3 then
    if op1 ≠ 1 then s else s.count .blx
  else if sh = 5 then
    -- `QSUB` or `QADD` is counted whether the word doubles or not.
    let s := if op1 &&& 2 ≠ 0 then
        if op1 &&& 1 ≠ 0 then s.count .qdsub else s.count .qdadd
      else s
    if op1 &&& 1 ≠ 0 then s.count .qsub else s.count .qadd
  else if sh = 7 then s.count .bkpt
  else if sh = 0x8 ∨ sh = 0xa ∨ sh = 0xc ∨ sh = 0xe then
    if op1 = 1 then
      let s := if sh &&& 2 = 0 then s.count .smlawy else s
      s.count .smulwy
    else
      let s := if op1 = 3 then s.count .smulxy else s
      if op1 = 2 then s.count .smlalxy
      else if op1 = 0 then s.count .smlaxy
      else s
  else s

/-- Multiplies, extra load/stores. -/
def analyzeMultiply (op1 sh insn : BitVec 32) (s : ExtraTBInfo) : ExtraTBInfo :=
  if sh = 0 then
    if op1 = 0 then
      if shortMul (insn >>> 20 &&& 0xf) then s.countAt (mulIndex insn)
      else s.countAt (longMulIndex insn)
    else if insn.getLsbD 23 then
      if insn.getLsbD 20 then s else s.count .strex
    else if insn.getLsbD 22 then s.count .swpb
    else s.count .swp
  else if insn.getLsbD 20 then
    if sh = 1 then s.count .ldrh
    else if sh = 2 then s.count .ldrsb
    else if sh = 3 then s
    else s.count .ldrsh
  else if sh &&& 2 ≠ 0 then
    if sh &&& 1 ≠ 0 then s.count .strd else s.count .ldrd
  else s.count .strh

/-- Armv6 media instructions with bits 24 and 23 equal to 01. -/
def analyzePacking (rn insn : BitVec 32) (s : ExtraTBInfo) : ExtraTBInfo :=
  if insn &&& 0x00700020 = 0 then
    if insn.getLsbD 6 then s.count .pkhtb else s.count .pkhbt
  else if insn &&& 0x00200020 = 0x00200000 then
    if insn >>> 16 &&& 0x1f ≠ 0 then
      if insn.getLsbD 22 then s.count .usat else s.count .ssat
    else s
  else if insn &&& 0x00300fe0 = 0x00200f20 then
    if insn >>> 16 &&& 0x1f ≠ 0 then
      if insn.getLsbD 22 then s.count .usat16 else s.count .ssat16
    else s
  else if insn &&& 0x00700fe0 = 0x00000fa0 then s.count .sel
  else if insn &&& 0x000003e0 = 0x00000060 then
    (extendIndex (insn >>> 20 &&& 7)).elim s
      (fun instrIndex => s.countAt (if rn ≠ 15 then instrIndex - 3 else instrIndex))
  else if insn &&& 0x003f0f60 = 0x003f0f20 then
    if insn.getLsbD 22 then s
    else if insn.getLsbD 7 then s.count .rev16
    else s.count .rev
  else s

/-- Multiplies (Type 3). -/
def analyzeMultiplies (rd insn : BitVec 32) (s : ExtraTBInfo) : ExtraTBInfo :=
  if insn.getLsbD 20 then
    if rd ≠ 15 then
      if insn.getLsbD 6 then s.count .smmls else s.count .smmla
    else s.count .smmul
  else if insn.getLsbD 22 then
    s.countAt ((if insn.getLsbD 6 then 1 else 0) + ArmInstruction.smlald.index)
  else
    s.countAt ((if insn.getLsbD 6 then 1 else 0) + (if rd ≠ 15 then 2 else 0) +
      ArmInstruction.smuad.index)

/-- Armv6 media instructions. -/
def analyzeMedia (rn rd insn : BitVec 32) (s : ExtraTBInfo) : ExtraTBInfo :=
  if insn >>> 23 &&& 3 = 1 then analyzePacking rn insn s
  else if insn >>> 23 &&& 3 = 2 then analyzeMultiplies rd insn s
  else if insn >>> 23 &&& 3 = 3 then
    if (insn >>> 17 &&& 0x38#32) ||| (insn >>> 5 &&& 7#32) = 0 then
      let s := if rd ≠ 15 then s.count .usada8 else s
      s.count .usad8
    else s
  else s

/-- `do_ldst_tianman`: load/store byte/word. -/
def analyzeLdst (op1 insn : BitVec 32) (s : ExtraTBInfo) : ExtraTBInfo :=
  if op1 = 7 ∧ insn &&& 0x00f000f0 = 0x00f000f0 then s
  else if insn.getLsbD 20 then
    if insn.getLsbD 22 then s.count .ldrb else s.count .ldr
  else if insn.getLsbD 22 then s.count .strb
  else s.count .str

/-- Load/store multiple words. -/
def analyzeMultiple (insn : BitVec 32) (s : ExtraTBInfo) : ExtraTBInfo :=
  if insn &&& 0x00500000#32 >>> 20 = 0 then s.count .stm1
  else if insn &&& 0x00500000#32 >>> 20 = 1 then s.count .ldm1
  else if insn &&& 0x00500000#32 >>> 20 = 4 then s.count .stm2
  else if insn &&& 0x00500000#32 >>> 20 = 5 then
    if insn.getLsbD 15 then s.count .ldm3 else s.count .ldm2
  else s

def analyzeOther (rn rd op1 insn : BitVec 32) (s : ExtraTBInfo) : ExtraTBInfo :=
  if op1 = 0x0 ∨ op1 = 0x1 then analyzeMultiply op1 (insn >>> 5 &&& 3) insn s
  else if op1 = 0x4 ∨ op1 = 0x5 then analyzeLdst op1 insn s
  else if op1 = 0x6 ∨ op1 = 0x7 then
    if insn.getLsbD 4 then analyzeMedia rn rd insn s else analyzeLdst op1 insn s
  else if op1 = 0x8 ∨ op1 = 0x9 then analyzeMultiple insn s
  else if op1 = 0xa ∨ op1 = 0xb then s.branch.count .b
  else if op1 = 0xc ∨ op1 = 0xd ∨ op1 = 0xe then s.count .coprocessor
  else if op1 = 0xf then s.count .swi
  else s

/-- `analyze_arm_ticks` once the word is in the buffer. -/
def analyzeTicks (rn rd insn : BitVec 32) (s : ExtraTBInfo) : ExtraTBInfo :=
  if insn >>> 28 = 0xf then analyzeUnconditional insn s
  else if insn &&& 0x0f900000 = 0x03000000 then
    if ¬ insn.getLsbD 21 then
      if ¬ insn.getLsbD 22 then s.count .movw else s.count .movt
    else if insn >>> 16 &&& 0xf = 0 then s
    else s.count .msr
  else if Miscellaneous insn then
    analyzeMiscellaneous (insn >>> 21 &&& 3) (insn >>> 4 &&& 0xf) s
  else if DataProcessing insn then
    s.count (dataProcessing (insn >>> 21 &&& 0xf))
  else analyzeOther rn rd (insn >>> 24 &&& 0xf) insn s

def analyzeArmTicks (rn rd insn : BitVec 32) (s : ExtraTBInfo) : Option ExtraTBInfo :=
  (s.buffer insn).map (analyzeTicks rn rd insn)

end Analyze

end M2M.Vpmu.ArmTicks
