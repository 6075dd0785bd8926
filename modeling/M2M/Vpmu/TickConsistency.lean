import M2M.Vpmu.ArmWords

namespace M2M.Vpmu.ArmTicks

open M2M.Lib.Masks

variable {armInstrTime : Nat → UInt32} {rn rd op1 sh insn : BitVec 32} {s t : ExtraTBInfo}

theorem ExtraTBInfo.armCount_countAt_self (s : ExtraTBInfo) (c : Nat) :
    (s.countAt c).armCount c = s.armCount c + 1 :=
  Function.update_self ..

theorem ExtraTBInfo.armCount_countAt_of_ne (s : ExtraTBInfo) {c d : Nat} (h : d ≠ c) :
    (s.countAt c).armCount d = s.armCount d :=
  Function.update_of_ne h ..

theorem add_one_ne (x : UInt64) : x + 1 ≠ x := by simp

theorem ExtraTBInfo.countAt_ne (s : ExtraTBInfo) (c : Nat) :
    (s.countAt c).armCount ≠ s.armCount := by
  intro h
  have hc := congrFun h c
  rw [s.armCount_countAt_self] at hc
  exact add_one_ne _ hc

theorem ExtraTBInfo.countAt_injective {c d : Nat}
    (h : (s.countAt c).armCount = (s.countAt d).armCount) : c = d := by
  by_contra hne
  have hc := congrFun h c
  rw [s.armCount_countAt_self, s.armCount_countAt_of_ne hne] at hc
  exact add_one_ne _ hc

/-- One counter goes up by one and the latency is the one at its index, or none does and the
latency is 1. -/
def Consistent (armInstrTime : Nat → UInt32) (s : ExtraTBInfo) (r : UInt32 × ExtraTBInfo) : Prop :=
  (∃ c, r.2.armCount = (s.countAt c).armCount ∧ r.1 = armInstrTime c) ∨
    r.2.armCount = s.armCount ∧ r.1 = 1

theorem consistent_countedAt (c : Nat) :
    Consistent armInstrTime s (countedAt armInstrTime c s) :=
  .inl ⟨c, rfl, rfl⟩

theorem consistent_counted (c : ArmInstruction) :
    Consistent armInstrTime s (counted armInstrTime c s) :=
  consistent_countedAt c.index

theorem consistent_illegalOp : Consistent armInstrTime s (illegalOp s) :=
  .inr ⟨rfl, rfl⟩

theorem consistent_countAt_iff {c : Nat} {l : UInt32} :
    Consistent armInstrTime s (l, s.countAt c) ↔ l = armInstrTime c := by
  constructor
  · rintro (⟨d, hd, hl⟩ | ⟨h, -⟩)
    · rwa [ExtraTBInfo.countAt_injective hd]
    · exact absurd h (s.countAt_ne c)
  · exact fun h => .inl ⟨c, rfl, h⟩

theorem consistent_uncounted_iff {l : UInt32} : Consistent armInstrTime s (l, s) ↔ l = 1 := by
  constructor
  · rintro (⟨d, hd, -⟩ | ⟨-, hl⟩)
    · exact absurd hd.symm (s.countAt_ne d)
    · exact hl
  · exact fun h => .inr ⟨rfl, h⟩

theorem consistent_ite {p : Prop} [Decidable p] {a b : UInt32 × ExtraTBInfo}
    (ha : p → Consistent armInstrTime s a) (hb : ¬ p → Consistent armInstrTime s b) :
    Consistent armInstrTime s (if p then a else b) := by
  by_cases h : p
  · simpa [h] using ha h
  · simpa [h] using hb h

theorem getUnconditional_consistent :
    Consistent armInstrTime s (getUnconditional armInstrTime insn s) := by
  unfold getUnconditional
  repeat' refine consistent_ite (fun _ => ?_) (fun _ => ?_)
  all_goals first | exact consistent_counted _ | exact consistent_illegalOp

theorem getMiscellaneous_consistent_iff (hop : op1 = 0 ∨ op1 = 1 ∨ op1 = 2 ∨ op1 = 3) :
    Consistent armInstrTime s (getMiscellaneous armInstrTime op1 sh s) ↔
      (sh = 5 ∧ op1 = 2 →
        armInstrTime ArmInstruction.qadd.index = armInstrTime ArmInstruction.qdadd.index) := by
  by_cases h : sh = 5 ∧ op1 = 2
  · obtain ⟨rfl, rfl⟩ := h
    have hget : getMiscellaneous armInstrTime 2 5 s =
        (armInstrTime ArmInstruction.qadd.index, s.count .qdadd) := rfl
    rw [hget, ExtraTBInfo.count, consistent_countAt_iff]
    simp
  · refine iff_of_true ?_ (fun h' => absurd h' h)
    unfold getMiscellaneous
    repeat' refine consistent_ite (fun _ => ?_) (fun _ => ?_)
    all_goals try first | exact consistent_counted _ | exact consistent_illegalOp
    rename_i h₅ h₂ h₁
    refine absurd ⟨h₅, ?_⟩ h
    rcases hop with rfl | rfl | rfl | rfl
    · exact absurd rfl h₂
    · exact absurd rfl h₂
    · rfl
    · exact absurd (by decide) h₁

theorem getMultiply_mul32_iff (hmul : shortMul (insn >>> 20 &&& 0xf)) :
    Consistent armInstrTime s (getMultiply armInstrTime 0 0 insn s) ↔
      armInstrTime (mulIndex insn) = 1 := by
  rw [getMultiply, if_pos rfl, if_pos rfl, if_pos hmul, consistent_countAt_iff, eq_comm]

theorem getMultiply_ldrex_iff (h₂₃ : insn.getLsbD 23 = true) (h₂₀ : insn.getLsbD 20 = true) :
    Consistent armInstrTime s (getMultiply armInstrTime 1 0 insn s) ↔
      armInstrTime ArmInstruction.ldrex.index = 1 := by
  rw [getMultiply, if_pos rfl, if_neg (by decide), if_pos h₂₃, if_pos h₂₀,
    consistent_uncounted_iff]

theorem getMultiply_consistent
    (hmul : ¬ (sh = 0 ∧ op1 = 0 ∧ shortMul (insn >>> 20 &&& 0xf) = true))
    (hldrex : ¬ (sh = 0 ∧ op1 ≠ 0 ∧ insn.getLsbD 23 = true ∧ insn.getLsbD 20 = true)) :
    Consistent armInstrTime s (getMultiply armInstrTime op1 sh insn s) := by
  unfold getMultiply
  refine consistent_ite (fun hsh => ?_) (fun _ => ?_)
  · refine consistent_ite (fun hop => ?_) (fun hop => ?_)
    · exact consistent_ite (fun h => absurd ⟨hsh, hop, h⟩ hmul) (fun _ => consistent_countedAt _)
    · refine consistent_ite (fun h₂₃ => ?_) (fun _ => ?_)
      · exact consistent_ite (fun h₂₀ => absurd ⟨hsh, hop, h₂₃, h₂₀⟩ hldrex)
          (fun _ => consistent_counted _)
      · exact consistent_ite (fun _ => consistent_counted _) (fun _ => consistent_counted _)
  · repeat' refine consistent_ite (fun _ => ?_) (fun _ => ?_)
    all_goals first | exact consistent_counted _ | exact consistent_illegalOp

theorem getPacking_consistent :
    Consistent armInstrTime s (getPacking armInstrTime rn insn s) := by
  unfold getPacking
  cases extendIndex (insn >>> 20 &&& 7) with
  | none =>
    repeat' refine consistent_ite (fun _ => ?_) (fun _ => ?_)
    all_goals first | exact consistent_counted _ | exact consistent_illegalOp
  | some instrIndex =>
    repeat' refine consistent_ite (fun _ => ?_) (fun _ => ?_)
    all_goals first
      | exact consistent_counted _ | exact consistent_illegalOp | exact consistent_countedAt _

theorem getMultiplies_consistent :
    Consistent armInstrTime s (getMultiplies armInstrTime rd insn s) := by
  unfold getMultiplies
  repeat' refine consistent_ite (fun _ => ?_) (fun _ => ?_)
  all_goals first | exact consistent_counted _ | exact consistent_countedAt _

theorem getMedia_consistent : Consistent armInstrTime s (getMedia armInstrTime rn rd insn s) := by
  refine consistent_ite (fun _ => getPacking_consistent) (fun _ => ?_)
  refine consistent_ite (fun _ => getMultiplies_consistent) (fun _ => ?_)
  repeat' refine consistent_ite (fun _ => ?_) (fun _ => ?_)
  all_goals first | exact consistent_counted _ | exact consistent_illegalOp

theorem getLdst_consistent : Consistent armInstrTime s (getLdst armInstrTime op1 insn s) := by
  unfold getLdst
  repeat' refine consistent_ite (fun _ => ?_) (fun _ => ?_)
  all_goals first | exact consistent_counted _ | exact consistent_illegalOp

theorem getMultiple_consistent : Consistent armInstrTime s (getMultiple armInstrTime insn s) := by
  unfold getMultiple
  repeat' refine consistent_ite (fun _ => ?_) (fun _ => ?_)
  all_goals first | exact consistent_counted _ | exact consistent_illegalOp

theorem getOther_consistent (h : op1 = 0 ∨ op1 = 1 →
    Consistent armInstrTime s (getMultiply armInstrTime op1 (insn >>> 5 &&& 3) insn s)) :
    Consistent armInstrTime s (getOther armInstrTime rn rd op1 insn s) := by
  refine consistent_ite h (fun _ => ?_)
  refine consistent_ite (fun _ => getLdst_consistent) (fun _ => ?_)
  refine consistent_ite (fun _ => ?_) (fun _ => ?_)
  · exact consistent_ite (fun _ => getMedia_consistent) (fun _ => getLdst_consistent)
  · refine consistent_ite (fun _ => getMultiple_consistent) (fun _ => ?_)
    refine consistent_ite (fun _ => .inl ⟨_, rfl, rfl⟩) (fun _ => ?_)
    repeat' refine consistent_ite (fun _ => ?_) (fun _ => ?_)
    all_goals first | exact consistent_counted _ | exact consistent_illegalOp

theorem getTicks_qdadd_iff (h : IsQdadd insn) :
    Consistent armInstrTime s (getTicks armInstrTime rn rd insn s) ↔
      armInstrTime ArmInstruction.qadd.index = armInstrTime ArmInstruction.qdadd.index := by
  obtain ⟨hc, hm, hsh, hop⟩ := isQdadd_iff.mp h
  rw [getTicks_miscellaneous hc hm, hsh, hop, getMiscellaneous_consistent_iff (by simp)]
  simp

theorem getTicks_mul32_iff (h : IsMul32 insn) :
    Consistent armInstrTime s (getTicks armInstrTime rn rd insn s) ↔
      armInstrTime (mulIndex insn) = 1 := by
  obtain ⟨hc, hbits, hop, hsh, hmul⟩ := isMul32_iff.mp h
  rw [getTicks_multiply hc hbits (.inl hop), hop, hsh, getMultiply_mul32_iff hmul]

theorem getTicks_ldrex_iff (h : IsLdrex insn) :
    Consistent armInstrTime s (getTicks armInstrTime rn rd insn s) ↔
      armInstrTime ArmInstruction.ldrex.index = 1 := by
  obtain ⟨hc, hbits, hop, hsh, h₂₃, h₂₀⟩ := isLdrex_iff.mp h
  rw [getTicks_multiply hc hbits (.inr hop), hop, hsh, getMultiply_ldrex_iff h₂₃ h₂₀]

theorem getTicks_consistent (hq : ¬ IsQdadd insn) (hm : ¬ IsMul32 insn) (hl : ¬ IsLdrex insn) :
    Consistent armInstrTime s (getTicks armInstrTime rn rd insn s) := by
  refine consistent_ite (fun _ => getUnconditional_consistent) (fun hc => ?_)
  refine consistent_ite (fun _ => ?_) (fun _ => ?_)
  · repeat' refine consistent_ite (fun _ => ?_) (fun _ => ?_)
    all_goals first | exact consistent_counted _ | exact consistent_illegalOp
  · refine consistent_ite (fun hmisc => ?_) (fun _ => ?_)
    · refine (getMiscellaneous_consistent_iff (and_three_cases _)).mpr ?_
      rintro ⟨hsh, hop⟩
      exact absurd (isQdadd_iff.mpr ⟨hc, hmisc, hsh, hop⟩) hq
    · refine consistent_ite (fun _ => consistent_counted _) (fun hdp => ?_)
      refine getOther_consistent (fun hop => ?_)
      have hbits := multiply_bits (zero_of_op1 hop) hdp
      refine getMultiply_consistent ?_ ?_
      · rintro ⟨hsh, hop, hmul⟩
        exact hm (isMul32_iff.mpr ⟨hc, hbits, hop, hsh, hmul⟩)
      · rintro ⟨hsh, hne, h₂₃, h₂₀⟩
        exact hl (isLdrex_iff.mpr ⟨hc, hbits, hop.resolve_left hne, hsh, h₂₃, h₂₀⟩)

/-- For every word, whatever `rn` and `rd` hold at first, one counter goes up and its own
latency is returned, or none does and 1 is returned, exactly when the table gives `QDADD` the
latency of `QADD` if the word is a `QDADD`, a 32 bit multiply the latency 1 if it is one, and
`LDREX` the latency 1 if it is one. -/
theorem getArmTicks_consistent_iff (armInstrTime : Nat → UInt32) (rn rd insn : BitVec 32)
    (hindex : s.insnBufIndex < 2) :
    (∃ r, getArmTicks armInstrTime rn rd insn s = some r ∧ Consistent armInstrTime s r) ↔
      (IsQdadd insn →
        armInstrTime ArmInstruction.qadd.index = armInstrTime ArmInstruction.qdadd.index) ∧
      (IsMul32 insn → armInstrTime (mulIndex insn) = 1) ∧
      (IsLdrex insn → armInstrTime ArmInstruction.ldrex.index = 1) := by
  have hbuffer : (∃ r, getArmTicks armInstrTime rn rd insn s = some r ∧
      Consistent armInstrTime s r) ↔
      Consistent armInstrTime s (getTicks armInstrTime rn rd insn (s.buffered insn)) := by
    rw [getArmTicks, s.buffer_eq insn hindex, Option.map_some]
    simp
  rw [hbuffer]
  change Consistent armInstrTime (s.buffered insn) _ ↔ _
  by_cases hq : IsQdadd insn
  · have hm : ¬ IsMul32 insn := fun h => absurd (overlap hq.2 h.2.1) (by decide)
    have hl : ¬ IsLdrex insn := fun h => absurd (overlap hq.2 h.2) (by decide)
    simp [getTicks_qdadd_iff hq, hq, hm, hl]
  · by_cases hm : IsMul32 insn
    · have hl : ¬ IsLdrex insn := fun h => absurd (overlap hm.2.1 h.2) (by decide)
      simp [getTicks_mul32_iff hm, hq, hm, hl]
    · by_cases hl : IsLdrex insn
      · simp [getTicks_ldrex_iff hl, hq, hm, hl]
      · simp [getTicks_consistent hq hm hl, hq, hm, hl]

/-- The latencies of `def-config-cortex-a9`. -/
def cortexA9Latencies : List UInt32 :=
  [1, 1, 1, 1, 1, 1, 1, 1, 1, 1, 1, 1, 1, 1, 1, 1, 1, 1, 1, 1, 1, 2, 2, 2, 2, 1, 3, 3, 2, 1,
    1, 1, 1, 1, 2, 2, 2, 2, 2, 1, 3, 3, 1, 3, 3, 3, 3, 3, 2, 3, 2, 1, 1, 2, 2, 2, 2, 3, 1, 1,
    1, 1, 1, 1, 2, 1, 1, 2, 2, 2, 1, 1, 1, 1, 1, 1, 2, 1, 1, 2, 2, 2, 2, 1, 1, 2, 2, 2, 3, 3,
    3, 2, 2, 2, 3, 3, 3, 2, 2, 2, 1, 1, 1, 1, 1, 1, 1, 1, 1, 1, 1, 1, 3, 1, 2, 1, 1, 1, 1, 2,
    1, 1, 1, 2, 2, 1, 1, 1, 2, 1, 1, 1, 2, 1, 1, 1, 1, 1, 1, 1, 1, 1, 1, 1, 1, 1, 1, 1, 1, 1,
    1, 1, 1, 1, 1, 1, 1, 1, 1, 1, 1, 1, 1, 1, 1, 1, 1, 1, 1, 0, 0, 0, 0]

def cortexA9Time (c : Nat) : UInt32 := cortexA9Latencies.getD c 0

/-- No instruction counted so far. -/
def ExtraTBInfo.fresh : ExtraTBInfo := ⟨fun _ => 0, fun _ => 0, 0, 0⟩

/-- `ADD r0, r0, r1` -/
theorem getArmTicks_consistent_iff_add :
    (∃ r, getArmTicks cortexA9Time 0 0 0xe0800001 .fresh = some r ∧
      Consistent cortexA9Time .fresh r) ↔
    (IsQdadd 0xe0800001 →
      cortexA9Time ArmInstruction.qadd.index = cortexA9Time ArmInstruction.qdadd.index) ∧
    (IsMul32 0xe0800001 → cortexA9Time (mulIndex 0xe0800001) = 1) ∧
    (IsLdrex 0xe0800001 → cortexA9Time ArmInstruction.ldrex.index = 1) :=
  getArmTicks_consistent_iff cortexA9Time 0 0 0xe0800001 (by decide)

/-- `MUL r1, r2, r3` counts one `MUL`, whose latency is 2, and returns 1. -/
theorem not_getArmTicks_consistent :
    ¬ ∀ (rn rd insn : BitVec 32) (s : ExtraTBInfo), s.insnBufIndex < 2 →
      ∃ r, getArmTicks cortexA9Time rn rd insn s = some r ∧ Consistent cortexA9Time s r := by
  intro h
  obtain ⟨r, hr, hcons⟩ := h 0 0 0xe0010392 .fresh (by decide)
  have hget : getArmTicks cortexA9Time 0 0 0xe0010392 .fresh =
      some (1, (ExtraTBInfo.fresh.buffered 0xe0010392).countAt ArmInstruction.mul.index) := rfl
  rw [hget, Option.some.injEq] at hr
  subst hr
  have htime : (1 : UInt32) = cortexA9Time ArmInstruction.mul.index :=
    consistent_countAt_iff.mp hcons
  exact absurd htime (by decide)

end M2M.Vpmu.ArmTicks
