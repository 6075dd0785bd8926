import M2M.Vpmu.ArmWords

/-! `get_insn_ticks`, the data sheet model of `cpu_model` 0: the ticks of an instruction with the
interlocks on the registers that the instructions before it have defined.  An `int` is a word of
32 bits that wraps. -/

namespace M2M.Vpmu.DataSheet

open M2M.Vpmu.ArmTicks

/-- The statics `interlocks` and `interlock_base`. -/
structure Interlocks where
  interlocks : BitVec 4 → BitVec 32
  interlockBase : BitVec 32

namespace Interlocks

def start : Interlocks := ⟨fun _ => 0, 0⟩

variable (s : Interlocks)

/-- The locks are counted from the base. -/
def relative : BitVec 4 → BitVec 32 := fun r => s.interlocks r - s.interlockBase

def interlockDef (reg : BitVec 4) (delay : BitVec 32) : Interlocks :=
  { s with interlocks := Function.update s.interlocks reg (s.interlockBase + delay) }

def interlockUse (reg : BitVec 4) : BitVec 32 :=
  if (s.interlocks reg - s.interlockBase).slt 0 then 0 else s.interlocks reg - s.interlockBase

end Interlocks

/-- The field of a register at bit `k`. -/
def reg (insn : BitVec 32) (k : Nat) : BitVec 4 := insn.extractLsb' k 4

/-- The cycles that an instruction takes, and the registers that it defines with their delays.
In `get_insn_ticks` the uses of an instruction come before its definitions. -/
structure Issue where
  result : BitVec 32
  defs : List (BitVec 4 × BitVec 32)

section Issue

variable (time : ArmInstruction → BitVec 32) (use : BitVec 4 → BitVec 32) (insn : BitVec 32)

def lateUse (r : BitVec 4) : BitVec 32 := if (1#32).slt (use r) then use r - 1 else 0

/-- Multiply (accumulate). -/
def issueMul : Issue :=
  if insn.getLsbD 21 = false ∧ reg insn 12 ≠ 0 then ⟨1, []⟩
  else
    let accumulate := if insn.getLsbD 21 then lateUse use (reg insn 12) else 0
    let result := 1 + accumulate +
      (time (if insn.getLsbD 20 then .muls else .mul) - 1 + use (reg insn 0) + use (reg insn 8))
    ⟨result, [(reg insn 16, result + 1)]⟩

/-- Multiply (accumulate) long. -/
def issueMulLong : Issue :=
  let accumulate :=
    if insn.getLsbD 21 then lateUse use (reg insn 12) + lateUse use (reg insn 16) else 0
  let result := 1 + accumulate +
    (time (if insn.getLsbD 20 then .smulls else .smull) - 1 + use (reg insn 0) +
      use (reg insn 8))
  ⟨result, [(reg insn 12, result + 1), (reg insn 16, result + 1)]⟩

/-- Swap/swap byte. -/
def issueSwap : Issue :=
  let result := 2 + use (reg insn 0)
  ⟨result, [(reg insn 8, result + time (if insn.getLsbD 22 then .swpb else .swp) - 1)]⟩

/-- Load/store halfword, reg offset. -/
def issueHalfRegister : Issue :=
  let result := 1 + (use (reg insn 16) + use (reg insn 0))
  ⟨result, if insn.getLsbD 20 then [(reg insn 12, result + time .ldrh - 1)] else []⟩

/-- Load/store halfword, imm offset. -/
def issueHalfImmediate : Issue :=
  let result := 1 + use (reg insn 16)
  ⟨result, if insn.getLsbD 20 then [(reg insn 12, result + time .ldrh - 1)] else []⟩

/-- Load/store two words, reg offset. -/
def issueDoubleRegister : Issue :=
  let result := 1 + (1 + use (reg insn 16))
  ⟨result, if insn.getLsbD 5 = false ∧ reg insn 12 ≠ 15 then
    [(reg insn 12 + 1, result + time .ldr - 1)] else []⟩

/-- Load/store half/byte, reg offset. -/
def issueSignedRegister : Issue :=
  let result := 1 + (use (reg insn 16) + use (reg insn 0))
  ⟨result, if insn.getLsbD 20 then [(reg insn 12, result + time .ldrsh - 1)] else []⟩

/-- Load/store two words, imm offset: the delay leaves out the cycles of the instruction. -/
def issueDoubleImmediate : Issue :=
  ⟨1 + (1 + use (reg insn 16)), if insn.getLsbD 5 = false ∧ reg insn 12 ≠ 15 then
    [(reg insn 12 + 1, time .ldr - 1)] else []⟩

/-- Load/store half/byte, imm offset: the delay leaves out the cycles of the instruction. -/
def issueSignedImmediate : Issue :=
  ⟨1 + use (reg insn 16),
    if insn.getLsbD 20 then [(reg insn 12, time .ldrsh - 1)] else []⟩

/-- Multiplies, extra load/store. -/
def issueMultiplies : Issue :=
  if insn &&& 0x0fc000f0 = 0x00000090 then issueMul time use insn
  else if insn &&& 0x0f8000f0 = 0x00800090 then issueMulLong time use insn
  else if insn &&& 0x0fb00ff0 = 0x01000090 then issueSwap time use insn
  else if insn &&& 0x0e400ff0 = 0x000000b0 then issueHalfRegister time use insn
  else if insn &&& 0x0e4000f0 = 0x004000b0 then issueHalfImmediate time use insn
  else if insn &&& 0x0e500fd0 = 0x000000d0 then issueDoubleRegister time use insn
  else if insn &&& 0x0e500fd0 = 0x001000d0 then issueSignedRegister time use insn
  else if insn &&& 0x0e5000d0 = 0x004000d0 then issueDoubleImmediate time use insn
  else if insn &&& 0x0e5000d0 = 0x005000d0 then issueSignedImmediate time use insn
  else ⟨1, []⟩

/-- Misc. instructions. -/
def issueMiscellaneous : Issue :=
  if insn >>> 4 &&& 15 = 0 then
    if insn &&& 0x0fb0fff0 = 0x0120f000 then
      if insn >>> 16 &&& 0x0007 ≠ 0 then ⟨1 + (2 + use (reg insn 0)), []⟩
      else ⟨1 + use (reg insn 0), []⟩
    else if insn &&& 0x0fbf0fff = 0x010f0000 then ⟨1 + 1, []⟩
    else ⟨1, []⟩
  else if insn >>> 4 &&& 15 = 1 then
    if insn &&& 0x0ffffff0 = 0x012fff10 then ⟨1 + (time .bx - 1 + use (reg insn 0)), []⟩
    else if insn &&& 0x0fff0ff0 = 0x016f0f10 then ⟨1 + (time .clz - 1 + use (reg insn 0)), []⟩
    else ⟨1, []⟩
  else if insn >>> 4 &&& 15 = 3 then
    if insn &&& 0x0ffffff0 = 0x012fff30 then ⟨1 + (time .blx - 1 + use (reg insn 0)), []⟩
    else ⟨1, []⟩
  else ⟨1, []⟩

/-- Data processing. -/
def issueDataProcessing : Issue :=
  ⟨1 + (use (reg insn 16) + use (reg insn 0)) +
    (if insn.getLsbD 4 then 1 + use (reg insn 8) else 0) +
    if reg insn 12 = 15 then 2 else 0, []⟩

/-- Load/store immediate. -/
def issueImmediate : Issue :=
  let result := 1 + use (reg insn 16)
  if insn.getLsbD 20 then
    if reg insn 12 = 15 then ⟨result + 4, []⟩ else ⟨result, [(reg insn 12, result + 1)]⟩
  else ⟨result, []⟩

/-- Load/store register offset. -/
def issueRegister : Issue :=
  let result := 1 + (use (reg insn 0) + use (reg insn 16))
  if insn.getLsbD 20 then
    if reg insn 12 = 15 then ⟨if insn &&& 0xff0 = 0 then 5 else 6, []⟩
    else ⟨result, [(reg insn 12, result + 1)]⟩
  else ⟨if insn &&& 0xff0 = 0 then 1 else 2, []⟩

def registerList : List Nat := (List.range 15).filter fun k => insn.getLsbD k

/-- The number of bits set in `insn & 0xffff`. -/
def registerCount : Nat := ((List.range 16).filter fun k => insn.getLsbD k).length

/-- Load/store multiple. -/
def issueMultiple : Issue :=
  let count := BitVec.ofNat 32 (registerCount insn)
  let transfer := (if registerCount insn < 2 then 2 else count) - 1
  let first := if (registerList insn).head?.any fun k => use (BitVec.ofNat 4 k) = 1 then 2 else 0
  let result := 1 + first + use (reg insn 16)
  if insn.getLsbD 20 then
    let result := if insn.getLsbD 15 then count + 4 else result + transfer
    ⟨result, (registerList insn).map fun k => (BitVec.ofNat 4 k, result)⟩
  else ⟨result + transfer, []⟩

/-- `get_insn_ticks` up to `Exit`. -/
def issue : Issue :=
  if insn >>> 28 = 0xf then
    if insn >>> 25 = 0x7d then ⟨time .blx, []⟩
    else if insn &&& 0x0d70f000 = 0x0550f000 then ⟨time .pld, []⟩
    else ⟨1, []⟩
  else if insn >>> 25 &&& 7 = 0 then
    if insn &&& 0x90 = 0x90 then issueMultiplies time use insn
    else if insn &&& 0x0f900000 = 0x01000000 then issueMiscellaneous time use insn
    else issueDataProcessing use insn
  else if insn >>> 25 &&& 7 = 1 then
    if insn &&& 0x03b0f000 = 0x0320f000 then ⟨1, []⟩ else ⟨1 + use (reg insn 12), []⟩
  else if insn >>> 25 &&& 7 = 2 then issueImmediate use insn
  else if insn >>> 25 &&& 7 = 3 then
    if insn.getLsbD 4 then ⟨1, []⟩ else issueRegister use insn
  else if insn >>> 25 &&& 7 = 4 then issueMultiple use insn
  else if insn >>> 25 &&& 7 = 5 then ⟨3, []⟩
  else if insn >>> 25 &&& 7 = 6 then
    if insn.getLsbD 20 then ⟨1 + use (reg insn 16), []⟩ else ⟨1, []⟩
  else ⟨1, []⟩

end Issue

def Issue.define (i : Issue) (pending : BitVec 4 → BitVec 32) : BitVec 4 → BitVec 32 :=
  i.defs.foldl (fun u d => Function.update u d.1 d.2) pending

theorem Issue.define_cases (i : Issue) (u v : BitVec 4 → BitVec 32) (r : BitVec 4) :
    i.define u r = i.define v r ∨ i.define u r = u r ∧ i.define v r = v r := by
  rw [Issue.define, Issue.define]
  induction i.defs generalizing u v with
  | nil => exact .inr ⟨rfl, rfl⟩
  | cons d defs ih =>
    rcases ih (Function.update u d.1 d.2) (Function.update v d.1 d.2) with h | ⟨hu, hv⟩
    · exact .inl h
    · by_cases hr : r = d.1
      · subst hr
        exact .inl (by rw [List.foldl_cons, List.foldl_cons, hu, hv]; simp)
      · rw [Function.update_of_ne hr] at hu hv
        exact .inr ⟨hu, hv⟩

namespace Interlocks

variable (s : Interlocks) {t : Interlocks}

/-- The definitions of an instruction, and the cycles that have passed with it. -/
def issued (i : Issue) : Interlocks :=
  { i.defs.foldl (fun s d => s.interlockDef d.1 d.2) s with
    interlockBase := s.interlockBase + i.result }

theorem interlockUse_congr (h : s.relative = t.relative) : s.interlockUse = t.interlockUse := by
  funext r
  have hr := congrFun h r
  rw [relative, relative] at hr
  rw [interlockUse, interlockUse, hr]

theorem toInt_interlockUse (r : BitVec 4) :
    (s.interlockUse r).toInt = max 0 (s.relative r).toInt := by
  rw [interlockUse, relative]
  split
  · rename_i h
    have hneg := BitVec.slt_iff_toInt_lt.1 h
    have h0 : (0 : BitVec 32).toInt = 0 := rfl
    omega
  · rename_i h
    have hneg := mt BitVec.slt_iff_toInt_lt.2 h
    have h0 : (0 : BitVec 32).toInt = 0 := rfl
    omega

theorem interlockUse_eq_iff {r : BitVec 4} :
    s.interlockUse r = t.interlockUse r ↔
      max 0 (s.relative r).toInt = max 0 (t.relative r).toInt := by
  rw [← BitVec.toInt_inj, toInt_interlockUse, toInt_interlockUse]

theorem foldl_interlockDef (defs : List (BitVec 4 × BitVec 32)) :
    (defs.foldl (fun s d => s.interlockDef d.1 d.2) s).relative =
        defs.foldl (fun u d => Function.update u d.1 d.2) s.relative ∧
      (defs.foldl (fun s d => s.interlockDef d.1 d.2) s).interlockBase = s.interlockBase := by
  induction defs generalizing s with
  | nil => exact ⟨rfl, rfl⟩
  | cons d defs ih =>
    have hdef : (s.interlockDef d.1 d.2).relative = Function.update s.relative d.1 d.2 := by
      funext r
      by_cases hr : r = d.1
      · subst hr
        simp [relative, interlockDef, BitVec.add_comm s.interlockBase]
      · simp [relative, interlockDef, Function.update_of_ne hr]
    rw [List.foldl_cons, List.foldl_cons, (ih _).1, (ih _).2, hdef]
    exact ⟨rfl, rfl⟩

theorem relative_issued (i : Issue) (r : BitVec 4) :
    (s.issued i).relative r = i.define s.relative r - i.result := by
  obtain ⟨hrel, hbase⟩ := s.foldl_interlockDef i.defs
  rw [Issue.define, ← hrel]
  simp only [relative, issued, hbase]
  exact (BitVec.sub_sub _ _ _).symm

theorem interlockUse_issued {i : Issue} (h : s.interlockUse = t.interlockUse)
    (hi : 0 ≤ i.result.toInt)
    (hs : ∀ r, ¬BitVec.ssubOverflow (i.define s.relative r) i.result)
    (ht : ∀ r, ¬BitVec.ssubOverflow (i.define t.relative r) i.result) :
    (s.issued i).interlockUse = (t.issued i).interlockUse := by
  funext r
  rw [interlockUse_eq_iff, relative_issued, relative_issued,
    BitVec.toInt_sub_of_not_ssubOverflow (hs r), BitVec.toInt_sub_of_not_ssubOverflow (ht r)]
  rcases i.define_cases s.relative t.relative r with hr | ⟨hsr, htr⟩
  · rw [hr]
  · have huse : max 0 (s.relative r).toInt = max 0 (t.relative r).toInt := by
      rw [← toInt_interlockUse, ← toInt_interlockUse, h]
    rw [hsr, htr]
    omega

end Interlocks

section Ticks

variable (armInstrTime : Nat → UInt32)

/-- An entry of the latency table in the arithmetic of `get_insn_ticks`. -/
def latency (c : ArmInstruction) : BitVec 32 := (armInstrTime c.index).toBitVec

def getInsnTicks (insn : BitVec 32) (s : Interlocks) : BitVec 32 × Interlocks :=
  let i := issue (latency armInstrTime) s.interlockUse insn
  (i.result, s.issued i)

/-- `extra_tb_info.ticks` of a block, which starts at 0: a `uint64_t`. -/
def blockTicks (s : Interlocks) : List (BitVec 32) → BitVec 64
  | [] => 0
  | insn :: insns =>
    (getInsnTicks armInstrTime insn s).1.signExtend 64 +
      blockTicks (getInsnTicks armInstrTime insn s).2 insns

/-- The statics after a sequence of instructions. -/
def run (s : Interlocks) (insns : List (BitVec 32)) : Interlocks :=
  insns.foldl (fun s insn => (getInsnTicks armInstrTime insn s).2) s

/-- The statics after the translation of earlier blocks. -/
def after (history : List (List (BitVec 32))) : Interlocks :=
  run armInstrTime .start history.flatten

/-- No instruction takes a negative number of cycles, and no difference of a lock and the base
overflows. -/
def Steady (s : Interlocks) : List (BitVec 32) → Prop
  | [] => True
  | insn :: insns =>
    let i := issue (latency armInstrTime) s.interlockUse insn
    0 ≤ i.result.toInt ∧ (∀ r, ¬BitVec.ssubOverflow (i.define s.relative r) i.result) ∧
      Steady (s.issued i) insns

/-- The next instruction takes the same ticks, and so does all that follows while it is steady. -/
def SameTicks (s t : Interlocks) : Prop :=
  ∀ insns insn, Steady armInstrTime s insns → Steady armInstrTime t insns →
    blockTicks armInstrTime s (insns ++ [insn]) = blockTicks armInstrTime t (insns ++ [insn])

variable {armInstrTime} {s t : Interlocks}

theorem blockTicks_append (s : Interlocks) (insns insns' : List (BitVec 32)) :
    blockTicks armInstrTime s (insns ++ insns') = blockTicks armInstrTime s insns +
      blockTicks armInstrTime (run armInstrTime s insns) insns' := by
  induction insns generalizing s with
  | nil => exact (BitVec.zero_add _).symm
  | cons insn insns ih =>
    rw [List.cons_append, blockTicks, blockTicks, ih, BitVec.add_assoc]
    rfl

/-- The differences of the locks and the base are all of the statics that the ticks depend
on. -/
theorem blockTicks_congr (h : s.relative = t.relative) (insns : List (BitVec 32)) :
    blockTicks armInstrTime s insns = blockTicks armInstrTime t insns := by
  induction insns generalizing s t with
  | nil => rfl
  | cons insn insns ih =>
    have hnext : (getInsnTicks armInstrTime insn s).2.relative =
        (getInsnTicks armInstrTime insn t).2.relative := by
      funext r
      simp only [getInsnTicks, Interlocks.relative_issued, s.interlockUse_congr h, h]
    rw [blockTicks, blockTicks, ih hnext]
    simp only [getInsnTicks, s.interlockUse_congr h]

theorem sameTicks_of_interlockUse (h : s.interlockUse = t.interlockUse) :
    SameTicks armInstrTime s t := by
  intro insns insn hs ht
  induction insns generalizing s t with
  | nil => simp only [List.nil_append, blockTicks, getInsnTicks, h]
  | cons insn' insns ih =>
    obtain ⟨hresult, hs, hsrest⟩ := hs
    obtain ⟨-, ht, htrest⟩ := ht
    rw [← h] at ht htrest
    have hrest := ih (s.interlockUse_issued h hresult hs ht) hsrest htrest
    simp only [List.cons_append, blockTicks, getInsnTicks, ← h, hrest]

/-- `STR R0, [Rn]` -/
def storeAt (rn : BitVec 4) : BitVec 32 := 0xe5800000#32 ||| rn.setWidth 32 <<< 16

theorem storeAt_fields (rn : BitVec 4) :
    storeAt rn >>> 28 ≠ 0xf ∧ storeAt rn >>> 25 &&& 7 = 2 ∧ (storeAt rn).getLsbD 20 = false ∧
      reg (storeAt rn) 16 = rn := by
  revert rn
  decide

theorem blockTicks_storeAt (s : Interlocks) (rn : BitVec 4) :
    blockTicks armInstrTime s [storeAt rn] = (1 + s.interlockUse rn).signExtend 64 := by
  obtain ⟨hcond, hgroup, hload, hreg⟩ := storeAt_fields rn
  have hissue : issue (latency armInstrTime) s.interlockUse (storeAt rn) =
      issueImmediate s.interlockUse (storeAt rn) := by
    rw [issue, if_neg hcond, hgroup, if_neg (by decide), if_neg (by decide), if_pos rfl]
  simp only [blockTicks, getInsnTicks, hissue, issueImmediate, hload, hreg]
  simp

theorem interlockUse_of_storeAt {r : BitVec 4}
    (h : blockTicks armInstrTime s [storeAt r] = blockTicks armInstrTime t [storeAt r]) :
    s.interlockUse r = t.interlockUse r := by
  rw [blockTicks_storeAt, blockTicks_storeAt] at h
  have hsum : 1 + s.interlockUse r = 1 + t.interlockUse r := by
    apply BitVec.toInt_inj.1
    rw [← BitVec.toInt_signExtend_of_le (by decide : 32 ≤ 64), h,
      BitVec.toInt_signExtend_of_le (by decide)]
  exact (BitVec.add_right_inj _).1 hsum

theorem sameTicks_iff :
    SameTicks armInstrTime s t ↔ ∀ r, s.interlockUse r = t.interlockUse r :=
  ⟨fun h r => interlockUse_of_storeAt (h [] (storeAt r) trivial trivial),
    fun h => sameTicks_of_interlockUse (funext h)⟩

def nop : BitVec 32 := 0xe320f000

theorem issue_nop (time : ArmInstruction → BitVec 32) (use : BitVec 4 → BitVec 32) :
    issue time use nop = ⟨1, []⟩ := rfl

theorem relative_run_nops (s : Interlocks) (k : Nat) (r : BitVec 4) :
    (run armInstrTime s (List.replicate k nop)).relative r =
      s.relative r - BitVec.ofNat 32 k := by
  induction k generalizing s with
  | zero => simp [run]
  | succ k ih =>
    have hstep : (getInsnTicks armInstrTime nop s).2.relative r = s.relative r - 1 := by
      rw [getInsnTicks, issue_nop]
      exact s.relative_issued ⟨1, []⟩ r
    rw [List.replicate_succ, run, List.foldl_cons, ← run, ih, hstep, BitVec.sub_sub,
      BitVec.add_comm 1, ← BitVec.ofNat_add_ofNat]
    rfl

theorem blockTicks_nops (s t : Interlocks) (k : Nat) :
    blockTicks armInstrTime s (List.replicate k nop) =
      blockTicks armInstrTime t (List.replicate k nop) := by
  induction k generalizing s t with
  | zero => rfl
  | succ k ih =>
    simp only [List.replicate_succ, blockTicks, getInsnTicks, issue_nop]
    rw [ih]

theorem eq_of_max_toInt {x y : BitVec 32}
    (h : max 0 (x - (x - 1)).toInt = max 0 (y - (x - 1)).toInt) : x = y := by
  have hx : x - (x - 1) = 1 := by bv_omega
  have h1 : (1 : BitVec 32).toInt = 1 := rfl
  rw [hx] at h
  have hy : y - (x - 1) = 1 := BitVec.toInt_inj.1 (by omega)
  bv_omega

/-- Two histories leave the same ticks to every block exactly when they leave the same differences
of the locks and the base.  While nothing overflows, the pending delays decide. -/
theorem blockTicks_eq_iff (armInstrTime : Nat → UInt32)
    (history history' : List (List (BitVec 32))) :
    ((∀ insns, blockTicks armInstrTime (after armInstrTime history) insns =
        blockTicks armInstrTime (after armInstrTime history') insns) ↔
      ∀ r, (after armInstrTime history).relative r =
        (after armInstrTime history').relative r) ∧
    (SameTicks armInstrTime (after armInstrTime history) (after armInstrTime history') ↔
      ∀ r, (after armInstrTime history).interlockUse r =
        (after armInstrTime history').interlockUse r) := by
  refine ⟨⟨fun h r => ?_, fun h insns => blockTicks_congr (funext h) insns⟩, sameTicks_iff⟩
  have hticks := h (List.replicate
    ((after armInstrTime history).relative r - 1).toNat nop ++ [storeAt r])
  rw [blockTicks_append, blockTicks_append, blockTicks_nops _ (after armInstrTime history'),
    BitVec.add_right_inj] at hticks
  -- the first delay has run down to 1
  have huse := (Interlocks.interlockUse_eq_iff _).1 (interlockUse_of_storeAt hticks)
  rw [relative_run_nops, relative_run_nops, BitVec.ofNat_toNat, BitVec.setWidth_eq] at huse
  exact eq_of_max_toInt huse

/-- A block that stores at the register that the block before it has loaded. -/
theorem loaded_blockTicks :
    blockTicks (fun _ => 1) (after (fun _ => 1) []) [storeAt 0] = 1 ∧
      blockTicks (fun _ => 1) (after (fun _ => 1) [[0xe5910000]]) [storeAt 0] = 2 := by
  decide

end Ticks

end M2M.Vpmu.DataSheet
