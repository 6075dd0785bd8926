import M2M.Vpmu.TickConsistency

/-! Where the two decoders leave the same counters. -/

namespace M2M.Vpmu.ArmTicks

open M2M.Lib.Masks

variable {armInstrTime : Nat → UInt32} {rn rd rn' rd' op1 sh insn : BitVec 32}
variable {s t u : ExtraTBInfo}

theorem ne_count {c : ArmInstruction} (h : t.armCount c.index = u.armCount c.index) :
    t ≠ u.count c := by
  rintro rfl
  rw [ExtraTBInfo.count, u.armCount_countAt_self] at h
  exact add_one_ne _ h

theorem armCount_count_of_ne {c d : ArmInstruction} (h : d.index ≠ c.index) :
    (s.count c).armCount d.index = s.armCount d.index :=
  s.armCount_countAt_of_ne h

theorem count_ne_count {c d : ArmInstruction} (h : c.index ≠ d.index) : s.count c ≠ s.count d :=
  fun heq => h (ExtraTBInfo.countAt_injective (congrArg ExtraTBInfo.armCount heq))

theorem agree_ite {p : Prop} [Decidable p] {a b : UInt32 × ExtraTBInfo} {a' b' : ExtraTBInfo}
    (ha : p → a.2 = a') (hb : ¬ p → b.2 = b') :
    (if p then a else b).2 = if p then a' else b' := by
  by_cases h : p
  · rw [if_pos h, if_pos h, ha h]
  · rw [if_neg h, if_neg h, hb h]

theorem getUnconditional_agrees_iff :
    (getUnconditional armInstrTime insn s).2 = analyzeUnconditional insn s ↔
      ¬ (insn &&& 0x0fffff00 = 0x057ff000 ∧
        (insn >>> 4 &&& 0xf = 4 ∨ insn >>> 4 &&& 0xf = 5)) := by
  by_cases hb : insn &&& 0x0fffff00 = 0x057ff000
  · have hneon : insn >>> 25 &&& 7 ≠ 1 := by
      rw [ne_eq, shiftRight_and_eq_iff rfl rfl]
      exact not_both hb (by decide)
    have hget : getUnconditional armInstrTime insn s =
        if insn >>> 4 &&& 0xf = 1 then counted armInstrTime .clrex s
        else if insn >>> 4 &&& 0xf = 4 then counted armInstrTime .dsb s
        else if insn >>> 4 &&& 0xf = 5 then counted armInstrTime .dmb s
        else if insn >>> 4 &&& 0xf = 6 then counted armInstrTime .isb s
        else illegalOp s := by
      rw [getUnconditional, if_neg hneon, if_neg (not_both hb (by decide)),
        if_neg (not_both hb (by decide)), if_neg (not_both hb (by decide)), if_pos hb]
    have hanalyze : analyzeUnconditional insn s =
        if insn >>> 4 &&& 0xf = 1 then s.count .clrex
        else if insn >>> 4 &&& 0xf = 4 then ((s.count .dsb).count .dmb).count .isb
        else if insn >>> 4 &&& 0xf = 5 then (s.count .dmb).count .isb
        else if insn >>> 4 &&& 0xf = 6 then s.count .isb
        else s := by
      rw [analyzeUnconditional, if_neg hneon, if_neg (not_both hb (by decide)),
        if_neg (not_both hb (by decide)), if_neg (not_both hb (by decide)), if_pos hb]
    rw [hget, hanalyze]
    by_cases h₄ : insn >>> 4 &&& 0xf = 4
    · refine iff_of_false ?_ (fun h => h ⟨hb, .inl h₄⟩)
      rw [h₄]
      exact ne_count (armCount_count_of_ne (by decide)).symm
    · by_cases h₅ : insn >>> 4 &&& 0xf = 5
      · refine iff_of_false ?_ (fun h => h ⟨hb, .inr h₅⟩)
        rw [h₅]
        exact ne_count rfl
      · refine iff_of_true ?_ (fun h => h.2.elim h₄ h₅)
        refine agree_ite (fun _ => rfl) (fun _ => ?_)
        rw [if_neg h₄, if_neg h₄, if_neg h₅, if_neg h₅]
        exact agree_ite (fun _ => rfl) (fun _ => rfl)
  · refine iff_of_true ?_ (fun h => hb h.1)
    unfold getUnconditional analyzeUnconditional
    rw [if_neg hb, if_neg hb]
    repeat' refine agree_ite (fun _ => ?_) (fun _ => ?_)
    all_goals rfl

theorem saturating_agrees_iff :
    (getMiscellaneous armInstrTime op1 5 s).2 = analyzeMiscellaneous op1 5 s ↔
      ¬ (op1 &&& 2 ≠ 0) := by
  have hget : getMiscellaneous armInstrTime op1 5 s =
      if op1 &&& 2 ≠ 0 then
        if op1 &&& 1 ≠ 0 then counted armInstrTime .qdsub s
        else (armInstrTime ArmInstruction.qadd.index, s.count .qdadd)
      else if op1 &&& 1 ≠ 0 then counted armInstrTime .qsub s
      else counted armInstrTime .qadd s := rfl
  have hanalyze : analyzeMiscellaneous op1 5 s =
      if op1 &&& 1 ≠ 0 then
        (if op1 &&& 2 ≠ 0 then
          if op1 &&& 1 ≠ 0 then s.count .qdsub else s.count .qdadd
        else s).count .qsub
      else
        (if op1 &&& 2 ≠ 0 then
          if op1 &&& 1 ≠ 0 then s.count .qdsub else s.count .qdadd
        else s).count .qadd := rfl
  rw [hget, hanalyze]
  by_cases h₂ : op1 &&& 2 ≠ 0
  · refine iff_of_false ?_ (fun h => h h₂)
    by_cases h₁ : op1 &&& 1 ≠ 0
    · rw [if_pos h₂, if_pos h₁, if_pos h₁, if_pos h₂, if_pos h₁]
      exact ne_count rfl
    · rw [if_pos h₂, if_neg h₁, if_neg h₁, if_pos h₂, if_neg h₁]
      exact ne_count rfl
  · refine iff_of_true ?_ h₂
    rw [if_neg h₂, if_neg h₂]
    exact agree_ite (fun _ => rfl) (fun _ => rfl)

theorem getMiscellaneous_agrees_iff :
    (getMiscellaneous armInstrTime op1 sh s).2 = analyzeMiscellaneous op1 sh s ↔
      ¬ (sh = 5 ∧ op1 &&& 2 ≠ 0) ∧ ¬ (op1 = 1 ∧ (sh = 8 ∨ sh = 0xc)) := by
  by_cases h₅ : sh = 5
  · subst h₅
    have hsh : ¬ (op1 = 1 ∧ ((5 : BitVec 32) = 8 ∨ (5 : BitVec 32) = 0xc)) := by
      rintro ⟨-, h | h⟩ <;> exact absurd h (by decide)
    rw [saturating_agrees_iff]
    exact ⟨fun h => ⟨fun h' => h h'.2, hsh⟩, fun h h' => h.1 ⟨rfl, h'⟩⟩
  · by_cases hw : op1 = 1 ∧ (sh = 8 ∨ sh = 0xc)
    · refine iff_of_false ?_ (fun h => h.2 hw)
      obtain ⟨rfl, rfl | rfl⟩ := hw
      · exact ne_count rfl
      · exact ne_count rfl
    · refine iff_of_true ?_ ⟨fun h => h₅ h.1, hw⟩
      unfold getMiscellaneous analyzeMiscellaneous
      rw [if_neg h₅, if_neg h₅]
      refine agree_ite (fun _ => agree_ite (fun _ => rfl) (fun _ => rfl)) (fun _ => ?_)
      refine agree_ite (fun _ => ?_) (fun _ => ?_)
      · exact agree_ite (fun _ => rfl) (fun _ => agree_ite (fun _ => rfl) (fun _ => rfl))
      refine agree_ite (fun _ => agree_ite (fun _ => rfl) (fun _ => rfl)) (fun _ => ?_)
      refine agree_ite (fun _ => agree_ite (fun _ => rfl) (fun _ => rfl)) (fun _ => ?_)
      refine agree_ite (fun _ => rfl) (fun _ => ?_)
      refine agree_ite (fun hmul => ?_) (fun _ => rfl)
      refine agree_ite (fun hop => ?_) (fun _ => ?_)
      · have hset : ¬ sh &&& 2 = 0 := by
          rcases hmul with rfl | rfl | rfl | rfl
          · exact absurd ⟨hop, .inl rfl⟩ hw
          · decide
          · exact absurd ⟨hop, .inr rfl⟩ hw
          · decide
        rw [if_neg hset, if_neg hset]
        rfl
      · by_cases h₃ : op1 = 3
        · subst h₃
          rfl
        · rw [if_neg h₃, if_neg h₃]
          exact agree_ite (fun _ => rfl) (fun _ => agree_ite (fun _ => rfl) (fun _ => rfl))

theorem getMultiply_agrees :
    (getMultiply armInstrTime op1 sh insn s).2 = analyzeMultiply op1 sh insn s := by
  unfold getMultiply analyzeMultiply
  repeat' refine agree_ite (fun _ => ?_) (fun _ => ?_)
  all_goals rfl

theorem getLdst_agrees : (getLdst armInstrTime op1 insn s).2 = analyzeLdst op1 insn s := by
  unfold getLdst analyzeLdst
  repeat' refine agree_ite (fun _ => ?_) (fun _ => ?_)
  all_goals rfl

theorem getMultiple_agrees : (getMultiple armInstrTime insn s).2 = analyzeMultiple insn s := by
  unfold getMultiple analyzeMultiple
  repeat' refine agree_ite (fun _ => ?_) (fun _ => ?_)
  all_goals rfl

theorem extendIndex_le {i : Nat} (h : extendIndex op1 = some i) : 3 ≤ i := by
  unfold extendIndex at h
  split at h <;> first | cases h; decide | cases h

theorem countAt_eq_iff {a b : Nat} : s.countAt a = s.countAt b ↔ a = b :=
  ⟨fun h => ExtraTBInfo.countAt_injective (congrArg ExtraTBInfo.armCount h), fun h => h ▸ rfl⟩

theorem ite_eq_ite_iff {α : Type} {p q : Prop} [Decidable p] [Decidable q] {a b : α}
    (h : a ≠ b) : (if p then a else b) = (if q then a else b) ↔ (p ↔ q) := by
  by_cases hp : p <;> by_cases hq : q <;> simp [hp, hq, h, h.symm]

theorem getPacking_agrees_iff :
    (getPacking armInstrTime rn insn s).2 = analyzePacking rn' insn s ↔
      (insn &&& 0x3e0 = 0x60 ∧ (extendIndex (insn >>> 20 &&& 7)).isSome →
        (rn = 15 ↔ rn' = 15)) := by
  by_cases h : insn &&& 0x3e0 = 0x60
  · have hget : getPacking armInstrTime rn insn s =
        (extendIndex (insn >>> 20 &&& 7)).elim (illegalOp s) (fun instrIndex =>
          countedAt armInstrTime (if rn ≠ 15 then instrIndex - 3 else instrIndex) s) := by
      rw [getPacking, if_neg (not_both h (by decide)), if_neg (not_both h (by decide)),
        if_neg (not_both h (by decide)), if_neg (not_both h (by decide)), if_pos h]
    have hanalyze : analyzePacking rn' insn s =
        (extendIndex (insn >>> 20 &&& 7)).elim s (fun instrIndex =>
          s.countAt (if rn' ≠ 15 then instrIndex - 3 else instrIndex)) := by
      rw [analyzePacking, if_neg (not_both h (by decide)), if_neg (not_both h (by decide)),
        if_neg (not_both h (by decide)), if_neg (not_both h (by decide)), if_pos h]
    rw [hget, hanalyze]
    cases hext : extendIndex (insn >>> 20 &&& 7) with
    | none => exact iff_of_true rfl (fun h => absurd h.2 (by decide))
    | some i =>
      have hle := extendIndex_le hext
      have hiff : s.countAt (if rn ≠ 15 then i - 3 else i) =
          s.countAt (if rn' ≠ 15 then i - 3 else i) ↔ (rn ≠ 15 ↔ rn' ≠ 15) :=
        countAt_eq_iff.trans (ite_eq_ite_iff (by omega))
      refine hiff.trans ?_
      rw [not_iff_not]
      exact ⟨fun h' _ => h', fun h' => h' ⟨h, rfl⟩⟩
  · refine iff_of_true ?_ (fun h' => absurd h'.1 h)
    unfold getPacking analyzePacking
    rw [if_neg h, if_neg h]
    repeat' refine agree_ite (fun _ => ?_) (fun _ => ?_)
    all_goals rfl

theorem getMultiplies_agrees_iff :
    (getMultiplies armInstrTime rd insn s).2 = analyzeMultiplies rd' insn s ↔
      (insn.getLsbD 20 = true ∨ insn.getLsbD 22 = false → (rd = 15 ↔ rd' = 15)) := by
  unfold getMultiplies analyzeMultiplies
  cases h₂₀ : insn.getLsbD 20 with
  | true =>
    have hgoal : (true = true ∨ insn.getLsbD 22 = false → (rd = 15 ↔ rd' = 15)) ↔
        (rd ≠ 15 ↔ rd' ≠ 15) := by
      rw [not_iff_not]
      exact ⟨fun h => h (.inl rfl), fun h _ => h⟩
    rw [hgoal, if_pos rfl, if_pos rfl, apply_ite Prod.snd]
    cases insn.getLsbD 6 with
    | true => exact ite_eq_ite_iff (count_ne_count (by decide))
    | false => exact ite_eq_ite_iff (count_ne_count (by decide))
  | false =>
    rw [if_neg Bool.false_ne_true, if_neg Bool.false_ne_true]
    cases h₂₂ : insn.getLsbD 22 with
    | true => exact iff_of_true rfl (fun h => absurd h (by decide))
    | false =>
      have hgoal : (false = true ∨ false = false → (rd = 15 ↔ rd' = 15)) ↔
          (rd ≠ 15 ↔ rd' ≠ 15) := by
        rw [not_iff_not]
        exact ⟨fun h => h (.inr rfl), fun h _ => h⟩
      rw [hgoal, if_neg Bool.false_ne_true, if_neg Bool.false_ne_true]
      refine countAt_eq_iff.trans ?_
      rw [Nat.add_right_cancel_iff, Nat.add_left_cancel_iff]
      exact ite_eq_ite_iff (show 2 ≠ 0 by decide)

theorem usad8_agrees_iff :
    (if rd ≠ 15 then counted armInstrTime .usada8 s else counted armInstrTime .usad8 s).2 =
        (if rd' ≠ 15 then s.count .usada8 else s).count .usad8 ↔ rd = 15 ∧ rd' = 15 := by
  by_cases h : rd = 15
  · rw [if_neg (not_not_intro h)]
    by_cases h' : rd' = 15
    · rw [if_neg (not_not_intro h')]
      exact iff_of_true rfl ⟨h, h'⟩
    · rw [if_pos h']
      refine iff_of_false ?_ (fun h => h' h.2)
      intro heq
      have hcount := congrFun (congrArg ExtraTBInfo.armCount heq) ArmInstruction.usada8.index
      have hne : ArmInstruction.usada8.index ≠ ArmInstruction.usad8.index := by decide
      rw [armCount_count_of_ne hne, ExtraTBInfo.count, s.armCount_countAt_self] at hcount
      change (s.count .usad8).armCount _ = _ at hcount
      rw [armCount_count_of_ne hne] at hcount
      exact add_one_ne _ hcount.symm
  · rw [if_pos h]
    refine iff_of_false ?_ (fun h' => h h'.1)
    by_cases h' : rd' = 15
    · rw [if_neg (not_not_intro h')]
      exact count_ne_count (by decide)
    · rw [if_pos h']
      exact ne_count rfl

theorem getMedia_agrees_iff :
    (getMedia armInstrTime rn rd insn s).2 = analyzeMedia rn' rd' insn s ↔
      (insn >>> 23 &&& 3 = 1 ∧ insn &&& 0x3e0 = 0x60 ∧
        (extendIndex (insn >>> 20 &&& 7)).isSome → (rn = 15 ↔ rn' = 15)) ∧
      (insn >>> 23 &&& 3 = 2 ∧ (insn.getLsbD 20 = true ∨ insn.getLsbD 22 = false) →
        (rd = 15 ↔ rd' = 15)) ∧
      (insn >>> 23 &&& 3 = 3 ∧ (insn >>> 17 &&& 0x38#32) ||| (insn >>> 5 &&& 7#32) = 0 →
        rd = 15 ∧ rd' = 15) := by
  unfold getMedia analyzeMedia
  have hkind := and_three_cases (insn >>> 23)
  generalize insn >>> 23 &&& 3 = k at hkind ⊢
  have h₁₂ : ¬ (2 : BitVec 32) = 1 := by decide
  have h₁₃ : ¬ (3 : BitVec 32) = 1 := by decide
  have h₂₃ : ¬ (3 : BitVec 32) = 2 := by decide
  rcases hkind with rfl | rfl | rfl | rfl
  · exact iff_of_true rfl ⟨fun h => absurd h.1 (by decide), fun h => absurd h.1 (by decide),
      fun h => absurd h.1 (by decide)⟩
  · rw [if_pos rfl, if_pos rfl, getPacking_agrees_iff]
    exact ⟨fun h => ⟨fun h' => h h'.2, fun h' => absurd h'.1 (by decide),
      fun h' => absurd h'.1 (by decide)⟩, fun h h' => h.1 ⟨rfl, h'⟩⟩
  · rw [if_neg h₁₂, if_neg h₁₂, if_pos rfl, if_pos rfl, getMultiplies_agrees_iff]
    exact ⟨fun h => ⟨fun h' => absurd h'.1 (by decide), fun h' => h h'.2,
      fun h' => absurd h'.1 (by decide)⟩, fun h h' => h.2.1 ⟨rfl, h'⟩⟩
  · rw [if_neg h₁₃, if_neg h₁₃, if_neg h₂₃, if_neg h₂₃, if_pos rfl, if_pos rfl]
    by_cases hop : (insn >>> 17 &&& 0x38#32) ||| (insn >>> 5 &&& 7#32) = 0
    · rw [if_pos hop, if_pos hop, usad8_agrees_iff]
      exact ⟨fun h => ⟨fun h' => absurd h'.1 (by decide), fun h' => absurd h'.1 (by decide),
        fun _ => h⟩, fun h => h.2.2 ⟨rfl, hop⟩⟩
    · rw [if_neg hop, if_neg hop]
      exact iff_of_true rfl ⟨fun h => absurd h.1 (by decide), fun h => absurd h.1 (by decide),
        fun h => absurd h.2 hop⟩

/-- What makes the two decoders leave the same counters, with `rn` and `rd` the locals of
`get_arm_ticks` and `rn'` and `rd'` those of `analyze_arm_ticks`. -/
structure SameCounts (insn rn rd rn' rd' : BitVec 32) : Prop where
  barrier : ¬ IsBarrier insn
  doubling : ¬ IsDoubling insn
  smlawy : ¬ IsSmlawy insn
  extend : IsExtend insn → (rn = 15 ↔ rn' = 15)
  multiplies : IsMultiplies insn → (rd = 15 ↔ rd' = 15)
  usad8 : IsUsad8 insn → rd = 15 ∧ rd' = 15

theorem getOther_agrees (h : ¬ ((op1 = 6 ∨ op1 = 7) ∧ insn.getLsbD 4 = true)) :
    (getOther armInstrTime rn rd op1 insn s).2 = analyzeOther rn' rd' op1 insn s := by
  refine agree_ite (fun _ => getMultiply_agrees) (fun _ => ?_)
  refine agree_ite (fun _ => getLdst_agrees) (fun _ => ?_)
  refine agree_ite (fun hop => ?_) (fun _ => ?_)
  · exact agree_ite (fun h₄ => absurd ⟨hop, h₄⟩ h) (fun _ => getLdst_agrees)
  · refine agree_ite (fun _ => getMultiple_agrees) (fun _ => ?_)
    repeat' refine agree_ite (fun _ => ?_) (fun _ => ?_)
    all_goals rfl

theorem getTicks_agrees_iff :
    (getTicks armInstrTime rn rd insn s).2 = analyzeTicks rn' rd' insn s ↔
      SameCounts insn rn rd rn' rd' := by
  by_cases hc : insn >>> 28 = 0xf
  · rw [getTicks, if_pos hc, analyzeTicks, if_pos hc, getUnconditional_agrees_iff]
    constructor
    · intro h
      refine ⟨fun hb => h (isBarrier_iff.mp hb).2, ?_, ?_, ?_, ?_, ?_⟩
      all_goals exact fun h => absurd hc h.1
    · exact fun h hb => h.barrier (isBarrier_iff.mpr ⟨hc, hb⟩)
  have hbarrier : ¬ IsBarrier insn := fun h => hc (isBarrier_iff.mp h).1
  by_cases hm : Miscellaneous insn
  · have hmedia : ¬ Media insn := fun h => h.not_miscellaneous hm
    rw [getTicks_miscellaneous hc hm, analyzeTicks_miscellaneous hc hm,
      getMiscellaneous_agrees_iff]
    constructor
    · rintro ⟨h₁, h₂⟩
      refine ⟨hbarrier, fun h => h₁ (isDoubling_iff.mp h).2.2,
        fun h => h₂ (isSmlawy_iff.mp h).2.2, ?_, ?_, ?_⟩
      · exact fun h => absurd (isExtend_iff.mp h).2.1 hmedia
      · exact fun h => absurd (isMultiplies_iff.mp h).2.1 hmedia
      · exact fun h => absurd (isUsad8_iff.mp h).2.1 hmedia
    · exact fun h => ⟨fun h' => h.doubling (isDoubling_iff.mpr ⟨hc, hm, h'⟩),
        fun h' => h.smlawy (isSmlawy_iff.mpr ⟨hc, hm, h'⟩)⟩
  have hdoubling : ¬ IsDoubling insn := fun h => hm (isDoubling_iff.mp h).2.1
  have hsmlawy : ¬ IsSmlawy insn := fun h => hm (isSmlawy_iff.mp h).2.1
  by_cases hmedia : Media insn
  · rw [getTicks_media hc hmedia, analyzeTicks_media hc hmedia, getMedia_agrees_iff]
    constructor
    · rintro ⟨h₁, h₂, h₃⟩
      exact ⟨hbarrier, hdoubling, hsmlawy, fun h => h₁ (isExtend_iff.mp h).2.2,
        fun h => h₂ (isMultiplies_iff.mp h).2.2, fun h => h₃ (isUsad8_iff.mp h).2.2⟩
    · exact fun h => ⟨fun h' => h.extend (isExtend_iff.mpr ⟨hc, hmedia, h'⟩),
        fun h' => h.multiplies (isMultiplies_iff.mpr ⟨hc, hmedia, h'⟩),
        fun h' => h.usad8 (isUsad8_iff.mpr ⟨hc, hmedia, h'⟩)⟩
  · refine iff_of_true ?_ ⟨hbarrier, hdoubling, hsmlawy, ?_, ?_, ?_⟩
    · rw [getTicks, if_neg hc, analyzeTicks, if_neg hc]
      refine agree_ite (fun _ => ?_) (fun _ => ?_)
      · repeat' refine agree_ite (fun _ => ?_) (fun _ => ?_)
        all_goals rfl
      · rw [if_neg hm, if_neg hm]
        exact agree_ite (fun _ => rfl) (fun _ => getOther_agrees hmedia)
    · exact fun h => absurd (isExtend_iff.mp h).2.1 hmedia
    · exact fun h => absurd (isMultiplies_iff.mp h).2.1 hmedia
    · exact fun h => absurd (isUsad8_iff.mp h).2.1 hmedia

/-- From every state in which the buffer has room the two decoders leave the same counters
exactly when the word is none of those that `analyze_arm_ticks` counts twice, and the locals
that are read before they are set agree where the word looks at them. -/
theorem getArmTicks_agrees_iff (armInstrTime : Nat → UInt32) (insn rn rd rn' rd' : BitVec 32)
    (hindex : s.insnBufIndex < 2) :
    (∃ r t, getArmTicks armInstrTime rn rd insn s = some r ∧
      analyzeArmTicks rn' rd' insn s = some t ∧ r.2 = t) ↔
    SameCounts insn rn rd rn' rd' := by
  rw [getArmTicks, analyzeArmTicks, s.buffer_eq insn hindex, Option.map_some, Option.map_some,
    ← @getTicks_agrees_iff armInstrTime rn rd rn' rd' insn (s.buffered insn)]
  constructor
  · rintro ⟨_, _, hr, ht, h⟩
    rwa [← Option.some.inj hr, ← Option.some.inj ht] at h
  · exact fun h => ⟨_, _, rfl, rfl, h⟩

/-- `ADD r0, r0, r1` -/
theorem getArmTicks_agrees_iff_add :
    (∃ r t, getArmTicks cortexA9Time 0 0 0xe0800001 .fresh = some r ∧
      analyzeArmTicks 15 15 0xe0800001 .fresh = some t ∧ r.2 = t) ↔
    SameCounts 0xe0800001 0 0 15 15 :=
  getArmTicks_agrees_iff cortexA9Time 0xe0800001 0 0 15 15 (by decide)

/-- `QDADD r0, r1, r2` is a `QADD` for `analyze_arm_ticks` as well. -/
theorem not_getArmTicks_agrees :
    ¬ ∀ (insn rn rd rn' rd' : BitVec 32) (s : ExtraTBInfo), s.insnBufIndex < 2 →
      ∃ r t, getArmTicks cortexA9Time rn rd insn s = some r ∧
        analyzeArmTicks rn' rd' insn s = some t ∧ r.2 = t := by
  intro h
  obtain ⟨r, t, hr, ht, rfl⟩ := h 0xe1420051 0 0 0 0 .fresh (by decide)
  have hget : (getArmTicks cortexA9Time 0 0 0xe1420051 .fresh).map
      (fun r => r.2.armCount ArmInstruction.qadd.index) = some 0 := rfl
  have hanalyze : (analyzeArmTicks 0 0 0xe1420051 .fresh).map
      (fun t => t.armCount ArmInstruction.qadd.index) = some 1 := rfl
  rw [hr, Option.map_some] at hget
  rw [ht, Option.map_some, Option.some.inj hget] at hanalyze
  exact absurd hanalyze (by decide)

end M2M.Vpmu.ArmTicks
