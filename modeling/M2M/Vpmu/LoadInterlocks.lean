import M2M.Vpmu.DataSheet

/-! The interlocks of the extra loads by their addressing modes. -/

namespace M2M.Vpmu.DataSheet

open M2M.Lib.Masks M2M.Vpmu.ArmTicks

/-- The loads that have a form with a register offset and one with an immediate offset: halfword,
signed byte or halfword, and two words. -/
inductive Load
  | half | signed | double
  deriving DecidableEq

namespace Load

def IsRegister : Load → BitVec 32 → Prop
  | half, insn => insn &&& 0x0e400ff0 = 0x000000b0 ∧ insn.getLsbD 20 = true
  | signed, insn => insn &&& 0x0e500fd0 = 0x001000d0
  | double, insn => insn &&& 0x0e500fd0 = 0x000000d0 ∧ insn.getLsbD 5 = false

def IsImmediate : Load → BitVec 32 → Prop
  | half, insn => insn &&& 0x0e4000f0 = 0x004000b0 ∧ insn.getLsbD 20 = true
  | signed, insn => insn &&& 0x0e5000d0 = 0x005000d0
  | double, insn => insn &&& 0x0e5000d0 = 0x004000d0 ∧ insn.getLsbD 5 = false

instance : ∀ f insn, Decidable (IsRegister f insn)
  | half, _ | double, _ => inferInstanceAs (Decidable (_ ∧ _))
  | signed, _ => inferInstanceAs (Decidable (_ = _))

instance : ∀ f insn, Decidable (IsImmediate f insn)
  | half, _ | double, _ => inferInstanceAs (Decidable (_ ∧ _))
  | signed, _ => inferInstanceAs (Decidable (_ = _))

/-- The entry of the table that the load is locked by. -/
def timedBy : Load → ArmInstruction
  | half => .ldrh
  | signed => .ldrsh
  | double => .ldr

def destinations : Load → BitVec 32 → List (BitVec 4)
  | half, insn | signed, insn => [reg insn 12]
  | double, insn => [reg insn 12, reg insn 12 + 1]

def locked : Load → BitVec 32 → BitVec 4
  | half, insn | signed, insn => reg insn 12
  | double, insn => reg insn 12 + 1

/-- The cycles of a load that does not wait. -/
def cycles : Load → BitVec 32
  | half | signed => 1
  | double => 2

theorem locked_mem (f : Load) (insn : BitVec 32) : f.locked insn ∈ f.destinations insn := by
  cases f <;> simp [locked, destinations]

theorem locked_congr (f : Load) {a b : BitVec 32} (h : reg a 12 = reg b 12) :
    f.locked a = f.locked b := by
  cases f <;> simp only [locked, h]

end Load

variable {time : ArmInstruction → BitVec 32} {use : BitVec 4 → BitVec 32}
  {insn m n c d : BitVec 32}

theorem ite_of_overlap {α : Type} {x y : α} (h : insn &&& m = c) (hne : c &&& n ≠ d &&& m) :
    (if insn &&& n = d then x else y) = y :=
  if_neg fun h' => hne (overlap h h')

theorem issue_multiplies (hcond : Conditional insn) (h : insn &&& 0x0e000090 = 0x00000090) :
    issue time use insn = issueMultiplies time use insn := by
  have hgroup : insn >>> 25 &&& 7 = 0 :=
    (shiftRight_and_eq_iff (by decide) (by decide)).2 (and_of_and h (by decide))
  have hbits : insn &&& 0x90 = 0x90 := and_of_and h (by decide)
  rw [issue, if_neg hcond, if_pos hgroup, if_pos hbits]

theorem issue_halfRegister (hcond : Conditional insn) (h : insn &&& 0x0e400ff0 = 0x000000b0) :
    issue time use insn = issueHalfRegister time use insn := by
  rw [issue_multiplies hcond (and_of_and h (by decide)), issueMultiplies,
    ite_of_overlap h (by decide), ite_of_overlap h (by decide), ite_of_overlap h (by decide),
    if_pos h]

theorem issue_halfImmediate (hcond : Conditional insn) (h : insn &&& 0x0e4000f0 = 0x004000b0) :
    issue time use insn = issueHalfImmediate time use insn := by
  rw [issue_multiplies hcond (and_of_and h (by decide)), issueMultiplies,
    ite_of_overlap h (by decide), ite_of_overlap h (by decide), ite_of_overlap h (by decide),
    ite_of_overlap h (by decide), if_pos h]

theorem issue_doubleRegister (hcond : Conditional insn) (h : insn &&& 0x0e500fd0 = 0x000000d0) :
    issue time use insn = issueDoubleRegister time use insn := by
  rw [issue_multiplies hcond (and_of_and h (by decide)), issueMultiplies,
    ite_of_overlap h (by decide), ite_of_overlap h (by decide), ite_of_overlap h (by decide),
    ite_of_overlap h (by decide), ite_of_overlap h (by decide), if_pos h]

theorem issue_signedRegister (hcond : Conditional insn) (h : insn &&& 0x0e500fd0 = 0x001000d0) :
    issue time use insn = issueSignedRegister time use insn := by
  rw [issue_multiplies hcond (and_of_and h (by decide)), issueMultiplies,
    ite_of_overlap h (by decide), ite_of_overlap h (by decide), ite_of_overlap h (by decide),
    ite_of_overlap h (by decide), ite_of_overlap h (by decide), ite_of_overlap h (by decide),
    if_pos h]

theorem issue_doubleImmediate (hcond : Conditional insn)
    (h : insn &&& 0x0e5000d0 = 0x004000d0) :
    issue time use insn = issueDoubleImmediate time use insn := by
  rw [issue_multiplies hcond (and_of_and h (by decide)), issueMultiplies,
    ite_of_overlap h (by decide), ite_of_overlap h (by decide), ite_of_overlap h (by decide),
    ite_of_overlap h (by decide), ite_of_overlap h (by decide), ite_of_overlap h (by decide),
    ite_of_overlap h (by decide), if_pos h]

theorem issue_signedImmediate (hcond : Conditional insn)
    (h : insn &&& 0x0e5000d0 = 0x005000d0) :
    issue time use insn = issueSignedImmediate time use insn := by
  rw [issue_multiplies hcond (and_of_and h (by decide)), issueMultiplies,
    ite_of_overlap h (by decide), ite_of_overlap h (by decide), ite_of_overlap h (by decide),
    ite_of_overlap h (by decide), ite_of_overlap h (by decide), ite_of_overlap h (by decide),
    ite_of_overlap h (by decide), ite_of_overlap h (by decide), if_pos h]

theorem issue_register {f : Load} (hcond : Conditional insn) (h : f.IsRegister insn)
    (h15 : reg insn 12 ≠ 15) (hm : use (reg insn 0) = 0#32) :
    issue time use insn = ⟨f.cycles + use (reg insn 16),
      [(f.locked insn, f.cycles + use (reg insn 16) + time f.timedBy - 1)]⟩ := by
  cases f with
  | half =>
    rw [issue_halfRegister hcond h.1, issueHalfRegister, if_pos h.2, hm, BitVec.add_zero]
    rfl
  | signed =>
    have hload : insn.getLsbD 20 = true := getLsbD_of_and h (by decide)
    rw [issue_signedRegister hcond h, issueSignedRegister, if_pos hload, hm, BitVec.add_zero]
    rfl
  | double =>
    rw [issue_doubleRegister hcond h.1, issueDoubleRegister, if_pos ⟨h.2, h15⟩, ← BitVec.add_assoc]
    rfl

theorem issue_immediate {f : Load} (hcond : Conditional insn) (h : f.IsImmediate insn)
    (h15 : reg insn 12 ≠ 15) :
    issue time use insn = ⟨f.cycles + use (reg insn 16),
      [(f.locked insn,
        (if f = .half then f.cycles + use (reg insn 16) else 0#32) + time f.timedBy - 1)]⟩ := by
  cases f with
  | half =>
    rw [issue_halfImmediate hcond h.1, issueHalfImmediate, if_pos h.2]
    rfl
  | signed =>
    have hload : insn.getLsbD 20 = true := getLsbD_of_and h (by decide)
    rw [issue_signedImmediate hcond h, issueSignedImmediate, if_pos hload,
      if_neg (by decide), BitVec.zero_add]
    rfl
  | double =>
    rw [issue_doubleImmediate hcond h.1, issueDoubleImmediate, if_pos ⟨h.2, h15⟩,
      ← BitVec.add_assoc, if_neg (by decide), BitVec.zero_add]
    rfl

variable {armInstrTime : Nat → UInt32} {s : Interlocks} {a b : BitVec 32}

/-- The two loads leave the destination registers locked for the same time, and what follows
takes the same ticks. -/
def SameInterlock (armInstrTime : Nat → UInt32) (f : Load) (a b : BitVec 32)
    (s : Interlocks) : Prop :=
  (∀ r ∈ f.destinations a, (getInsnTicks armInstrTime a s).2.interlockUse r =
    (getInsnTicks armInstrTime b s).2.interlockUse r) ∧
  SameTicks armInstrTime (getInsnTicks armInstrTime a s).2 (getInsnTicks armInstrTime b s).2

theorem relative_getInsnTicks {i : Issue}
    (hissue : issue (latency armInstrTime) s.interlockUse insn = i) (r : BitVec 4) :
    (getInsnTicks armInstrTime insn s).2.relative r = i.define s.relative r - i.result := by
  rw [← hissue]
  exact s.relative_issued _ r

/-- A load that does not wait takes a cycle or two, and no delay is as long as `2 ^ 32` less two
cycles. -/
theorem cycles_add_use_ne_zero (f : Load) (s : Interlocks) (r : BitVec 4) :
    f.cycles + s.interlockUse r ≠ 0 := by
  have huse : 0 ≤ (s.interlockUse r).toInt := by
    rw [s.toInt_interlockUse]
    omega
  intro hzero
  have hneg : s.interlockUse r = -f.cycles := by
    rw [← BitVec.zero_sub, BitVec.eq_sub_iff_add_eq, BitVec.add_comm, hzero]
    rfl
  rw [hneg] at huse
  cases f
  · exact absurd huse (by decide)
  · exact absurd huse (by decide)
  · exact absurd huse (by decide)

theorem max_toInt_sub_iff {x y : BitVec 32} (hy : y ≠ 0) :
    max 0 x.toInt = max 0 (x - y).toInt ↔ x.toInt ≤ 0 ∧ (x - y).toInt ≤ 0 := by
  have hne : x.toInt ≠ (x - y).toInt := fun h => hy (by
    have heq := BitVec.toInt_inj.1 h
    bv_omega)
  omega

/-- The addressing mode of a load makes no difference to its interlock exactly for the halfword
loads and where neither form leaves a delay. -/
theorem sameInterlock_iff (armInstrTime : Nat → UInt32) (s : Interlocks) {f : Load}
    {a b : BitVec 32} (ha : Conditional a ∧ f.IsRegister a)
    (hb : Conditional b ∧ f.IsImmediate b) (hrd : reg a 12 = reg b 12)
    (hrn : reg a 16 = reg b 16) (h15 : reg a 12 ≠ 15)
    (hrm : s.interlockUse (reg a 0) = 0) :
    SameInterlock armInstrTime f a b s ↔ f = .half ∨
      (latency armInstrTime f.timedBy - 1).toInt ≤ 0 ∧
        (latency armInstrTime f.timedBy - 1 -
          (f.cycles + s.interlockUse (reg a 16))).toInt ≤ 0 := by
  obtain ⟨cost, hcost⟩ : ∃ cost, cost = f.cycles + s.interlockUse (reg a 16) := ⟨_, rfl⟩
  obtain ⟨delay, hdelay⟩ : ∃ delay, delay = latency armInstrTime f.timedBy := ⟨_, rfl⟩
  have hregister : ∀ r, (getInsnTicks armInstrTime a s).2.relative r =
      Function.update s.relative (f.locked a) (cost + delay - 1) r - cost := by
    have hissue : issue (latency armInstrTime) s.interlockUse a =
        ⟨cost, [(f.locked a, cost + delay - 1)]⟩ := by
      rw [hcost, hdelay]
      exact issue_register ha.1 ha.2 h15 hrm
    exact relative_getInsnTicks hissue
  have himmediate : ∀ r, (getInsnTicks armInstrTime b s).2.relative r =
      Function.update s.relative (f.locked a)
        ((if f = .half then cost else 0#32) + delay - 1) r - cost := by
    have hissue : issue (latency armInstrTime) s.interlockUse b =
        ⟨cost, [(f.locked a, (if f = .half then cost else 0#32) + delay - 1)]⟩ := by
      rw [hcost, hdelay, f.locked_congr hrd, hrn]
      exact issue_immediate hb.1 hb.2 (hrd ▸ h15)
    exact relative_getInsnTicks hissue
  have hother : ∀ r, r ≠ f.locked a → (getInsnTicks armInstrTime a s).2.interlockUse r =
      (getInsnTicks armInstrTime b s).2.interlockUse r := fun r hr => by
    rw [Interlocks.interlockUse_eq_iff, hregister, himmediate, Function.update_of_ne hr,
      Function.update_of_ne hr]
  have hlocked : (getInsnTicks armInstrTime a s).2.interlockUse (f.locked a) =
      (getInsnTicks armInstrTime b s).2.interlockUse (f.locked a) ↔
        f = .half ∨ (delay - 1).toInt ≤ 0 ∧ (delay - 1 - cost).toInt ≤ 0 := by
    have hrun : cost + delay - 1 - cost = delay - 1 := by bv_omega
    rw [Interlocks.interlockUse_eq_iff, hregister, himmediate, Function.update_self,
      Function.update_self, hrun]
    by_cases hhalf : f = .half
    · rw [if_pos hhalf, hrun]
      exact ⟨fun _ => .inl hhalf, fun _ => rfl⟩
    · have hcost₀ : cost ≠ 0 := hcost ▸ cycles_add_use_ne_zero f s (reg a 16)
      rw [if_neg hhalf, BitVec.zero_add, max_toInt_sub_iff hcost₀, or_iff_right hhalf]
  rw [← hdelay, ← hcost, ← hlocked]
  constructor
  · intro h
    exact h.1 _ (f.locked_mem a)
  · intro h
    have huse : ∀ r, (getInsnTicks armInstrTime a s).2.interlockUse r =
        (getInsnTicks armInstrTime b s).2.interlockUse r := fun r => by
      by_cases hr : r = f.locked a
      · exact hr ▸ h
      · exact hother r hr
    exact ⟨fun r _ => huse r, sameTicks_of_interlockUse (funext huse)⟩

/-- `LDRSH R0, [R1, R2]` and `LDRSH R0, [R1]` with a latency of three cycles. -/
theorem ldrsh_sameInterlock_iff :
    SameInterlock (fun _ => 3) .signed 0xe19100f2 0xe1d100f0 .start ↔
      Load.signed = .half ∨
        (3 - 1 : BitVec 32).toInt ≤ 0 ∧ (3 - 1 - (1 + 0) : BitVec 32).toInt ≤ 0 :=
  sameInterlock_iff (fun _ => 3) .start ⟨by decide, by decide⟩ ⟨by decide, by decide⟩ (by decide)
    (by decide) (by decide) (by decide)

/-- With a latency of three cycles a use of the register waits for two cycles after the first
load, and for one after the second. -/
theorem ldrsh_not_sameInterlock :
    (getInsnTicks (fun _ => 3) 0xe19100f2 .start).2.interlockUse 0 = 2 ∧
      (getInsnTicks (fun _ => 3) 0xe1d100f0 .start).2.interlockUse 0 = 1 ∧
      ¬SameInterlock (fun _ => 3) .signed 0xe19100f2 0xe1d100f0 .start := by
  refine ⟨by decide, by decide, fun h => ?_⟩
  have h0 := h.1 0 (by decide)
  revert h0
  decide

end M2M.Vpmu.DataSheet
