import M2M.Vpmu.TickConsistency

/-! Which counter a load/store multiple raises. -/

namespace M2M.Vpmu.ArmTicks

open M2M.Lib.Masks

variable {armInstrTime : Nat → UInt32} {rn rd insn : BitVec 32} {s : ExtraTBInfo}

/-- The form of a block transfer by its S bit, its L bit and the bit of the program counter. -/
def transferForm (user load pc : Bool) : ArmInstruction :=
  match user, load with
  | false, false => .stm1
  | false, true => .ldm1
  | true, false => .stm2
  | true, true => if pc then .ldm3 else .ldm2

theorem transferForm_injective {u l u' l' pc : Bool}
    (h : (transferForm u l pc).index = (transferForm u' l' pc).index) : u = u' ∧ l = l' := by
  revert u l u' l' pc
  decide

theorem selector_eq (insn : BitVec 32) :
    insn &&& 0x00500000#32 >>> 20 =
      (if insn.getLsbD 2 then 4#32 else 0#32) ||| (if insn.getLsbD 0 then 1#32 else 0#32) := by
  have h₂ := BitVec.and_twoPow insn 2
  have h₀ := BitVec.and_twoPow insn 0
  exact and_or h₂ h₀

theorem getMultiple_count :
    (getMultiple armInstrTime insn s).2 =
      s.count (transferForm (insn.getLsbD 2) (insn.getLsbD 0) (insn.getLsbD 15)) := by
  have hsel := selector_eq insn
  cases hs : insn.getLsbD 2 with
  | false =>
    cases hl : insn.getLsbD 0 with
    | false =>
      have hzero : insn &&& 0x00500000#32 >>> 20 = 0 := by
        rw [hsel, hs, hl]
        rfl
      rw [getMultiple, if_pos hzero]
      rfl
    | true =>
      have hone : insn &&& 0x00500000#32 >>> 20 = 1 := by
        rw [hsel, hs, hl]
        rfl
      rw [getMultiple, hone]
      rfl
  | true =>
    cases hl : insn.getLsbD 0 with
    | false =>
      have hfour : insn &&& 0x00500000#32 >>> 20 = 4 := by
        rw [hsel, hs, hl]
        rfl
      rw [getMultiple, hfour]
      rfl
    | true =>
      have hfive : insn &&& 0x00500000#32 >>> 20 = 5 := by
        rw [hsel, hs, hl]
        rfl
      rw [getMultiple, hfive]
      cases insn.getLsbD 15 <;> rfl

/-- A condition other than 15 and 100 in bits 27 to 25. -/
def BlockTransfer (insn : BitVec 32) : Prop := Conditional insn ∧ insn >>> 25 &&& 7 = 4

instance (insn : BitVec 32) : Decidable (BlockTransfer insn) :=
  inferInstanceAs (Decidable (_ ∧ _))

theorem op1_of_block (h : insn &&& 0x0e000000 = 0x08000000) :
    insn >>> 24 &&& 0xf = 8 ∨ insn >>> 24 &&& 0xf = 9 := by
  rw [op1_eq_iff 8 rfl, op1_eq_iff 9 rfl]
  rcases and_twoPow_cases insn 24 with hset | hclear
  · exact .inr (and_or h hset)
  · exact .inl (and_or h hclear)

theorem getTicks_multiple (hb : BlockTransfer insn) :
    getTicks armInstrTime rn rd insn s = getMultiple armInstrTime insn s := by
  obtain ⟨hc, hb⟩ := hb
  have hbits : insn &&& 0x0e000000 = 0x08000000 := (shiftRight_and_eq_iff rfl rfl).mp hb
  have hdp : ¬ DataProcessing insn := by
    rintro (⟨h, -⟩ | h)
    · exact not_both hbits (by decide) h
    · exact not_both hbits (by decide) h
  rw [getTicks_other hc (not_both hbits (by decide)) (fun hm => not_both hbits (by decide) hm.1)
    hdp]
  rcases op1_of_block hbits with h | h <;> rw [h] <;> rfl

/-- The counter is the one of the word's S and L bits exactly when the two lowest bits that the
selector takes, those of the registers 0 and 2, are the same as bits 20 and 22. -/
theorem blockTransfer_counted_iff (armInstrTime : Nat → UInt32) (rn rd : BitVec 32)
    (hb : BlockTransfer insn) (hindex : s.insnBufIndex < 2) :
    (∃ r, getArmTicks armInstrTime rn rd insn s = some r ∧
      r.2.armCount =
        (s.count (transferForm (insn.getLsbD 22) (insn.getLsbD 20) (insn.getLsbD 15))).armCount) ↔
    insn.getLsbD 0 = insn.getLsbD 20 ∧ insn.getLsbD 2 = insn.getLsbD 22 := by
  rw [getArmTicks, s.buffer_eq insn hindex, Option.map_some, getTicks_multiple hb]
  simp only [Option.some.injEq, exists_eq_left', getMultiple_count]
  constructor
  · intro h
    have hindex : (transferForm (insn.getLsbD 2) (insn.getLsbD 0) (insn.getLsbD 15)).index =
        (transferForm (insn.getLsbD 22) (insn.getLsbD 20) (insn.getLsbD 15)).index :=
      ExtraTBInfo.countAt_injective (s := s) h
    obtain ⟨hs, hl⟩ := transferForm_injective hindex
    exact ⟨hl, hs⟩
  · rintro ⟨hl, hs⟩
    rw [hs, hl]
    rfl

/-- `LDMIA r0, {r0, r1}` -/
theorem blockTransfer_counted_iff_ldm :
    (∃ r, getArmTicks cortexA9Time 0 0 0xe8900003 .fresh = some r ∧
      r.2.armCount = (ExtraTBInfo.fresh.count (transferForm
        ((0xe8900003 : BitVec 32).getLsbD 22) ((0xe8900003 : BitVec 32).getLsbD 20)
        ((0xe8900003 : BitVec 32).getLsbD 15))).armCount) ↔
    (0xe8900003 : BitVec 32).getLsbD 0 = (0xe8900003 : BitVec 32).getLsbD 20 ∧
      (0xe8900003 : BitVec 32).getLsbD 2 = (0xe8900003 : BitVec 32).getLsbD 22 :=
  blockTransfer_counted_iff cortexA9Time 0 0 (by decide) (by decide)

/-- `STMIA r0, {r0, r1}` is counted as a load. -/
theorem not_blockTransfer_counted :
    ¬ ∀ (insn : BitVec 32) (s : ExtraTBInfo), BlockTransfer insn → s.insnBufIndex < 2 →
      ∃ r, getArmTicks cortexA9Time 0 0 insn s = some r ∧
        r.2.armCount = (s.count
          (transferForm (insn.getLsbD 22) (insn.getLsbD 20) (insn.getLsbD 15))).armCount := by
  intro h
  obtain ⟨r, hr, hcount⟩ := h 0xe8800003 .fresh (by decide) (by decide)
  have hget : (getArmTicks cortexA9Time 0 0 0xe8800003 .fresh).map
      (fun r => r.2.armCount ArmInstruction.stm1.index) = some 0 := rfl
  rw [hr, Option.map_some, hcount] at hget
  exact absurd hget (by decide)

end M2M.Vpmu.ArmTicks
