import M2M.Vpmu.Translation

/-! The counters of a translated block: its branches, loads and stores. -/

namespace M2M.Vpmu.ArmTicks

open M2M.Lib.Masks

variable {armInstrTime : Nat → UInt32} {rn rd op1 sh insn : BitVec 32} {s : ExtraTBInfo}

/-- What `get_arm_ticks` can come to: a latency of the table or a single cycle, and at most one
counter more. -/
structure Outcome (armInstrTime : Nat → UInt32) (s : ExtraTBInfo) (x : UInt32 × ExtraTBInfo) :
    Prop where
  ticks : x.1 = 1 ∨ ∃ k < ArmInstruction.unknown.index, x.1 = armInstrTime k
  counted : x.2 = s ∨ ∃ k, x.2 = s.countAt k

theorem outcome_countedAt {k : Nat} (h : k < ArmInstruction.unknown.index) :
    Outcome armInstrTime s (countedAt armInstrTime k s) :=
  ⟨.inr ⟨k, h, rfl⟩, .inr ⟨k, rfl⟩⟩

theorem outcome_counted {c : ArmInstruction} (h : c.index < ArmInstruction.unknown.index) :
    Outcome armInstrTime s (counted armInstrTime c s) :=
  outcome_countedAt h

theorem outcome_illegalOp : Outcome armInstrTime s (illegalOp s) := ⟨.inl rfl, .inl rfl⟩

theorem outcome_ite {p : Prop} [Decidable p] {x y : UInt32 × ExtraTBInfo}
    (hx : p → Outcome armInstrTime s x) (hy : ¬p → Outcome armInstrTime s y) :
    Outcome armInstrTime s (if p then x else y) := by
  by_cases h : p
  · rw [if_pos h]
    exact hx h
  · rw [if_neg h]
    exact hy h

theorem getUnconditional_outcome :
    Outcome armInstrTime s (getUnconditional armInstrTime insn s) := by
  unfold getUnconditional
  repeat' refine outcome_ite (fun _ => ?_) (fun _ => ?_)
  all_goals first | exact outcome_counted (by decide) | exact outcome_illegalOp

theorem getMiscellaneous_outcome :
    Outcome armInstrTime s (getMiscellaneous armInstrTime op1 sh s) := by
  unfold getMiscellaneous
  repeat' refine outcome_ite (fun _ => ?_) (fun _ => ?_)
  all_goals try first | exact outcome_counted (by decide) | exact outcome_illegalOp
  exact ⟨.inr ⟨_, by decide, rfl⟩, .inr ⟨_, rfl⟩⟩

theorem longMulIndex_lt (insn : BitVec 32) : longMulIndex insn < ArmInstruction.unknown.index := by
  rw [longMulIndex]
  cases insn.getLsbD 20 <;> cases insn.getLsbD 21 <;> cases insn.getLsbD 22 <;> decide

theorem getMultiply_outcome :
    Outcome armInstrTime s (getMultiply armInstrTime op1 sh insn s) := by
  unfold getMultiply
  refine outcome_ite (fun _ => ?_) (fun _ => ?_)
  · refine outcome_ite (fun _ => ?_) (fun _ => ?_)
    · exact outcome_ite (fun _ => ⟨.inl rfl, .inr ⟨_, rfl⟩⟩)
        (fun _ => outcome_countedAt (longMulIndex_lt insn))
    · refine outcome_ite (fun _ => ?_) (fun _ => ?_)
      · exact outcome_ite (fun _ => ⟨.inr ⟨_, by decide, rfl⟩, .inl rfl⟩)
          (fun _ => outcome_counted (by decide))
      · exact outcome_ite (fun _ => outcome_counted (by decide))
          (fun _ => outcome_counted (by decide))
  · repeat' refine outcome_ite (fun _ => ?_) (fun _ => ?_)
    all_goals first | exact outcome_counted (by decide) | exact outcome_illegalOp

theorem extendIndex_lt {instrIndex : Nat} (h : extendIndex op1 = some instrIndex) :
    instrIndex < ArmInstruction.unknown.index := by
  unfold extendIndex at h
  split at h <;> first | exact Option.some.inj h ▸ (by decide) | cases h

theorem getPacking_outcome : Outcome armInstrTime s (getPacking armInstrTime rn insn s) := by
  unfold getPacking
  refine outcome_ite (fun _ => ?_) (fun _ => outcome_ite (fun _ => ?_) (fun _ => ?_))
  · exact outcome_ite (fun _ => outcome_counted (by decide)) (fun _ => outcome_counted (by decide))
  · repeat' refine outcome_ite (fun _ => ?_) (fun _ => ?_)
    all_goals first | exact outcome_counted (by decide) | exact outcome_illegalOp
  · refine outcome_ite (fun _ => ?_) (fun _ => outcome_ite (fun _ => outcome_counted (by decide))
      (fun _ => outcome_ite (fun _ => ?_) (fun _ => ?_)))
    · repeat' refine outcome_ite (fun _ => ?_) (fun _ => ?_)
      all_goals first | exact outcome_counted (by decide) | exact outcome_illegalOp
    · cases hindex : extendIndex (insn >>> 20 &&& 7) with
      | none => exact outcome_illegalOp
      | some instrIndex =>
        have hlt := extendIndex_lt hindex
        refine outcome_countedAt ?_
        split <;> omega
    · repeat' refine outcome_ite (fun _ => ?_) (fun _ => ?_)
      all_goals first | exact outcome_counted (by decide) | exact outcome_illegalOp

theorem getMultiplies_outcome : Outcome armInstrTime s (getMultiplies armInstrTime rd insn s) := by
  unfold getMultiplies
  refine outcome_ite (fun _ => ?_) (fun _ => outcome_ite (fun _ => outcome_countedAt ?_)
    (fun _ => outcome_countedAt ?_))
  · repeat' refine outcome_ite (fun _ => ?_) (fun _ => ?_)
    all_goals exact outcome_counted (by decide)
  · split <;> decide
  · split <;> split <;> decide

theorem getMedia_outcome : Outcome armInstrTime s (getMedia armInstrTime rn rd insn s) := by
  refine outcome_ite (fun _ => getPacking_outcome) (fun _ => ?_)
  refine outcome_ite (fun _ => getMultiplies_outcome) (fun _ => ?_)
  repeat' refine outcome_ite (fun _ => ?_) (fun _ => ?_)
  all_goals first | exact outcome_counted (by decide) | exact outcome_illegalOp

theorem getLdst_outcome : Outcome armInstrTime s (getLdst armInstrTime op1 insn s) := by
  unfold getLdst
  repeat' refine outcome_ite (fun _ => ?_) (fun _ => ?_)
  all_goals first | exact outcome_counted (by decide) | exact outcome_illegalOp

theorem getMultiple_outcome : Outcome armInstrTime s (getMultiple armInstrTime insn s) := by
  unfold getMultiple
  repeat' refine outcome_ite (fun _ => ?_) (fun _ => ?_)
  all_goals first | exact outcome_counted (by decide) | exact outcome_illegalOp

/-- `B` or `BL`. -/
def IsBranch (insn : BitVec 32) : Prop := Conditional insn ∧ insn &&& 0x0e000000 = 0x0a000000

instance (insn : BitVec 32) : Decidable (IsBranch insn) := inferInstanceAs (Decidable (_ ∧ _))

theorem branch_op1_iff : insn >>> 24 &&& 0xf = 0xa ∨ insn >>> 24 &&& 0xf = 0xb ↔
    insn &&& 0x0e000000 = 0x0a000000 := by
  rw [op1_eq_iff 0xa rfl, op1_eq_iff 0xb rfl]
  constructor
  · rintro (h | h)
    · exact and_of_and h (by decide)
    · exact and_of_and h (by decide)
  · intro h
    rcases and_twoPow_cases insn 24 with hbit | hbit
    · exact .inr (and_or h hbit)
    · exact .inl (and_or h hbit)

theorem IsBranch.not_movw (h : IsBranch insn) : insn &&& 0x0f900000 ≠ 0x03000000 :=
  not_both h.2 (by decide)

theorem IsBranch.not_miscellaneous (h : IsBranch insn) : ¬Miscellaneous insn :=
  fun hm => not_both h.2 (by decide) hm.1

theorem IsBranch.not_dataProcessing (h : IsBranch insn) : ¬DataProcessing insn := by
  rintro (hd | hd)
  · exact not_both h.2 (by decide) hd.1
  · exact not_both h.2 (by decide) hd

theorem getTicks_branch (h : IsBranch insn) :
    getTicks armInstrTime rn rd insn s = counted armInstrTime .b s.branch := by
  have hop := branch_op1_iff.2 h.2
  have hne : ∀ v : BitVec 32, v ≠ 0xa → v ≠ 0xb → insn >>> 24 &&& 0xf ≠ v := by
    rintro v ha hb rfl
    exact hop.elim ha hb
  rw [getTicks_other h.1 h.not_movw h.not_miscellaneous h.not_dataProcessing, getOther]
  simp only [hne 0x0 (by decide) (by decide), hne 0x1 (by decide) (by decide),
    hne 0x4 (by decide) (by decide), hne 0x5 (by decide) (by decide),
    hne 0x6 (by decide) (by decide), hne 0x7 (by decide) (by decide),
    hne 0x8 (by decide) (by decide), hne 0x9 (by decide) (by decide), or_self, if_false, hop,
    if_true]

theorem getOther_outcome (h : ¬(op1 = 0xa ∨ op1 = 0xb)) :
    Outcome armInstrTime s (getOther armInstrTime rn rd op1 insn s) := by
  refine outcome_ite (fun _ => getMultiply_outcome) (fun _ => ?_)
  refine outcome_ite (fun _ => getLdst_outcome) (fun _ => outcome_ite (fun _ => ?_) (fun _ => ?_))
  · exact outcome_ite (fun _ => getMedia_outcome) (fun _ => getLdst_outcome)
  · refine outcome_ite (fun _ => getMultiple_outcome) (fun _ => ?_)
    refine outcome_ite (fun hb => absurd hb h) (fun _ => ?_)
    repeat' refine outcome_ite (fun _ => ?_) (fun _ => ?_)
    all_goals first | exact outcome_counted (by decide) | exact outcome_illegalOp

theorem dataProcessing_lt (op1 : BitVec 32) :
    (dataProcessing op1).index < ArmInstruction.unknown.index := by
  unfold dataProcessing
  split <;> decide

theorem getTicks_outcome (h : ¬IsBranch insn) :
    Outcome armInstrTime s (getTicks armInstrTime rn rd insn s) := by
  refine outcome_ite (fun _ => getUnconditional_outcome) (fun hc => ?_)
  refine outcome_ite (fun _ => ?_) (fun _ => ?_)
  · repeat' refine outcome_ite (fun _ => ?_) (fun _ => ?_)
    all_goals first | exact outcome_counted (by decide) | exact outcome_illegalOp
  · refine outcome_ite (fun _ => getMiscellaneous_outcome) (fun _ => ?_)
    refine outcome_ite (fun _ => outcome_counted (dataProcessing_lt _)) (fun _ => ?_)
    exact getOther_outcome fun hop => h ⟨hc, branch_op1_iff.1 hop⟩

/-- What `get_arm_ticks` leaves in the buffer and in the branch count, and how long the
instruction takes at least. -/
theorem getTicks_spec (armInstrTime : Nat → UInt32) (rn rd insn : BitVec 32) (s : ExtraTBInfo) :
    (getTicks armInstrTime rn rd insn s).2.insnBuf = s.insnBuf ∧
      (getTicks armInstrTime rn rd insn s).2.insnBufIndex = s.insnBufIndex ∧
      (getTicks armInstrTime rn rd insn s).2.branchCount =
        s.branchCount + (if IsBranch insn then 1 else 0) ∧
      ((∀ k < ArmInstruction.unknown.index, 1 ≤ armInstrTime k) →
        1 ≤ (getTicks armInstrTime rn rd insn s).1) := by
  by_cases h : IsBranch insn
  · rw [getTicks_branch h, if_pos h]
    exact ⟨rfl, rfl, rfl, fun htime => htime _ (by decide)⟩
  · have houtcome : Outcome armInstrTime s (getTicks armInstrTime rn rd insn s) :=
      getTicks_outcome h
    obtain ⟨hticks, hcounted⟩ := houtcome
    have hkept : (getTicks armInstrTime rn rd insn s).2.insnBuf = s.insnBuf ∧
        (getTicks armInstrTime rn rd insn s).2.insnBufIndex = s.insnBufIndex ∧
        (getTicks armInstrTime rn rd insn s).2.branchCount = s.branchCount := by
      rcases hcounted with hsame | ⟨k, hone⟩
      · rw [hsame]
        exact ⟨rfl, rfl, rfl⟩
      · rw [hone]
        exact ⟨rfl, rfl, rfl⟩
    refine ⟨hkept.1, hkept.2.1, ?_, fun htime => ?_⟩
    · rw [hkept.2.2, if_neg h, UInt32.add_zero]
    · rcases hticks with hsingle | ⟨k, hk, hentry⟩
      · exact hsingle.symm ▸ UInt32.le_refl 1
      · rw [hentry]
        exact htime k hk

end M2M.Vpmu.ArmTicks

namespace M2M.Vpmu.Translation

open M2M.Lib.Masks M2M.Vpmu.ArmTicks

variable {env : Env} {u : Unset} {insn : BitVec 32} {s : State}

section Step

/-- What is left of a word that has been translated, in the counters of the block. -/
structure Counted (env : Env) (insn : BitVec 32) (tb t : ExtraTBInfo) : Prop where
  index : t.insnBufIndex < 2
  branches : t.branchCount = tb.branchCount +
    (if env.RunsArmTicks ∧ IsBranch insn then 1 else 0) + if path env insn = .branch then 1 else 0
  loads : t.loadCount = tb.loadCount + if path env insn = .load then 1 else 0
  stores : t.storeCount = tb.storeCount + if path env insn = .store then 1 else 0

/-- The block after `get_arm_ticks`, before a full buffer is checked. -/
def timed (env : Env) (u : Unset) (insn : BitVec 32) (tb : ExtraTBInfo) : ExtraTBInfo :=
  { tb with
    toExtraTBInfo := (getTicks env.armInstrTime u.rn u.rd insn (tb.toExtraTBInfo.buffered insn)).2
    ticks := tb.ticks +
      (getTicks env.armInstrTime u.rn u.rd insn (tb.toExtraTBInfo.buffered insn)).1.toUInt64 }

theorem insnBufIndex_timed (env : Env) (u : Unset) (insn : BitVec 32) (tb : ExtraTBInfo) :
    (timed env u insn tb).insnBufIndex = tb.insnBufIndex + 1 :=
  (getTicks_spec env.armInstrTime u.rn u.rd insn (tb.toExtraTBInfo.buffered insn)).2.1

theorem armTicks_eq (env : Env) (u : Unset) (insn : BitVec 32) (tb : ExtraTBInfo)
    (h : tb.insnBufIndex < 2) :
    armTicks env u insn tb = some
      (if (timed env u insn tb).insnBufIndex = 2 then (timed env u insn tb).dualIssueCheck u
        else timed env u insn tb) := by
  rw [armTicks, getArmTicks, tb.buffer_eq insn h, Option.map_some, Option.map_some]
  rfl

theorem armTicks_spec (env : Env) (u : Unset) (insn : BitVec 32) (tb : ExtraTBInfo)
    (h : tb.insnBufIndex < 2) :
    ∃ t, armTicks env u insn tb = some t ∧ t.insnBufIndex < 2 ∧
      t.branchCount = tb.branchCount + (if IsBranch insn then 1 else 0) ∧
      t.loadCount = tb.loadCount ∧ t.storeCount = tb.storeCount := by
  have hbranch : (timed env u insn tb).branchCount =
      tb.branchCount + (if IsBranch insn then 1 else 0) :=
    (getTicks_spec env.armInstrTime u.rn u.rd insn (tb.toExtraTBInfo.buffered insn)).2.2.1
  have hindex := insnBufIndex_timed env u insn tb
  refine ⟨_, armTicks_eq env u insn tb h, ?_⟩
  split
  · exact ⟨Nat.zero_lt_two, hbranch, rfl, rfl⟩
  · next hfull => exact ⟨by omega, hbranch, rfl, rfl⟩

theorem pipelineTicks_spec (env : Env) (u : Unset) (insn : BitVec 32) (s : State)
    (h : s.tb.insnBufIndex < 2) :
    ∃ t, pipelineTicks env u insn s = some t ∧ t.tb.insnBufIndex < 2 ∧
      t.tb.branchCount =
        s.tb.branchCount + (if env.RunsArmTicks ∧ IsBranch insn then 1 else 0) ∧
      t.tb.loadCount = s.tb.loadCount ∧ t.tb.storeCount = s.tb.storeCount := by
  by_cases hruns : env.RunsArmTicks
  · obtain ⟨t, ht, hindex, hbranch, hloads, hstores⟩ := armTicks_spec env u insn s.tb h
    refine ⟨⟨t, s.interlocks⟩, ?_, hindex, ?_, hloads, hstores⟩
    · rw [pipelineTicks, if_pos hruns.1, if_pos hruns.2, ht, Option.map_some]
    · simpa only [hruns, true_and] using hbranch
  · simp only [hruns, false_and, if_false, UInt32.add_zero]
    rw [pipelineTicks]
    split
    · next hsim =>
      rw [if_neg fun hmodel => hruns ⟨hsim, hmodel⟩]
      exact ⟨_, rfl, h, rfl, rfl, rfl⟩
    · exact ⟨s, rfl, h, rfl, rfl, rfl⟩

theorem parseInsn_kept (env : Env) (insn : BitVec 32) (tb : ExtraTBInfo) :
    (parseInsn env insn tb).insnBufIndex = tb.insnBufIndex ∧
      (parseInsn env insn tb).branchCount = tb.branchCount ∧
      (parseInsn env insn tb).loadCount = tb.loadCount ∧
      (parseInsn env insn tb).storeCount = tb.storeCount := by
  rw [parseInsn]
  split
  · exact ⟨rfl, rfl, rfl, rfl⟩
  · exact ⟨rfl, rfl, rfl, rfl⟩

theorem countPath_counts (tb : ExtraTBInfo) (p : Path) :
    (tb.countPath p).insnBufIndex = tb.insnBufIndex ∧
      (tb.countPath p).branchCount = tb.branchCount + (if p = .branch then 1 else 0) ∧
      (tb.countPath p).loadCount = tb.loadCount + (if p = .load then 1 else 0) ∧
      (tb.countPath p).storeCount = tb.storeCount + if p = .store then 1 else 0 := by
  cases p with
  | branch => simp [ExtraTBInfo.countPath, ArmTicks.ExtraTBInfo.branch]
  | load => simp [ExtraTBInfo.countPath]
  | store => simp [ExtraTBInfo.countPath]
  | other => simp [ExtraTBInfo.countPath]

theorem disasArmInsn_spec (env : Env) (u : Unset) (insn : BitVec 32) (s : State)
    (h : s.tb.insnBufIndex < 2) :
    ∃ t, disasArmInsn env u insn s = some t ∧ Counted env insn s.tb t.tb := by
  obtain ⟨t, ht, hindex, hbranch, hloads, hstores⟩ := pipelineTicks_spec env u insn s h
  obtain ⟨pindex, pbranch, ploads, pstores⟩ := parseInsn_kept env insn t.tb
  obtain ⟨cindex, cbranch, cloads, cstores⟩ :=
    countPath_counts (parseInsn env insn t.tb) (path env insn)
  refine ⟨_, by rw [disasArmInsn, ht, Option.map_some], ?_, ?_, ?_, ?_⟩
  · exact (cindex.trans pindex).trans_lt hindex
  · rw [cbranch, pbranch, hbranch]
  · rw [cloads, ploads, hloads]
  · rw [cstores, pstores, hstores]

end Step

section Run

theorem ofNat_countP_cons (p : BitVec 32 → Prop) [DecidablePred p] (insn : BitVec 32)
    (insns : List (BitVec 32)) :
    UInt32.ofNat ((insn :: insns).countP p) =
      (if p insn then 1 else 0) + UInt32.ofNat (insns.countP p) := by
  rw [List.countP_cons, UInt32.ofNat_add, UInt32.add_comm]
  by_cases h : p insn
  · simp [h]
  · simp [h]

theorem ofNat_countP_cons₈ (p : BitVec 32 → Prop) [DecidablePred p] (insn : BitVec 32)
    (insns : List (BitVec 32)) :
    UInt8.ofNat ((insn :: insns).countP p) =
      (if p insn then 1 else 0) + UInt8.ofNat (insns.countP p) := by
  rw [List.countP_cons, UInt8.ofNat_add, UInt8.add_comm]
  by_cases h : p insn
  · simp [h]
  · simp [h]

theorem translate_spec (env : Env) (u : Nat → Unset) (s : State) (insns : List (BitVec 32))
    (h : s.tb.insnBufIndex < 2) :
    ∃ t, translate env u s insns = some t ∧ t.tb.insnBufIndex < 2 ∧
      t.tb.branchCount = s.tb.branchCount +
        UInt32.ofNat (insns.countP fun insn => env.RunsArmTicks ∧ IsBranch insn) +
        UInt32.ofNat (insns.countP fun insn => path env insn = .branch) ∧
      t.tb.loadCount = s.tb.loadCount +
        UInt8.ofNat (insns.countP fun insn => path env insn = .load) ∧
      t.tb.storeCount = s.tb.storeCount +
        UInt8.ofNat (insns.countP fun insn => path env insn = .store) := by
  induction insns generalizing u s with
  | nil => exact ⟨s, rfl, h, by simp, by simp, by simp⟩
  | cons insn insns ih =>
    obtain ⟨t, ht, hcounted⟩ := disasArmInsn_spec env (u 0) insn s h
    obtain ⟨t', ht', hindex, hbranches, hloads, hstores⟩ :=
      ih (fun n => u (n + 1)) t hcounted.index
    refine ⟨t', ?_, hindex, ?_, ?_, ?_⟩
    · rw [translate, ht, Option.bind_some, ht']
    · rw [hbranches, hcounted.branches, ofNat_countP_cons, ofNat_countP_cons]
      ac_rfl
    · rw [hloads, hcounted.loads, ofNat_countP_cons₈, UInt8.add_assoc]
    · rw [hstores, hcounted.stores, ofNat_countP_cons₈, UInt8.add_assoc]

end Run

section Branches

/-- `BX`, and `BLX` of a register. -/
def IsExchange (insn : BitVec 32) : Prop :=
  Conditional insn ∧ (insn &&& 0x0ff000f0 = 0x01200010 ∨ insn &&& 0x0ff000f0 = 0x01200030)

instance (insn : BitVec 32) : Decidable (IsExchange insn) := inferInstanceAs (Decidable (_ ∧ _))

theorem isExchange_iff : IsExchange insn ↔ Conditional insn ∧ Miscellaneous insn ∧
    insn >>> 21 &&& 3 = 1 ∧ (insn >>> 4 &&& 0xf = 1 ∨ insn >>> 4 &&& 0xf = 3) := by
  rw [misc_sh_iff 1 rfl, misc_sh_iff 3 rfl, misc_op1_iff 1 rfl]
  constructor
  · rintro ⟨hc, h | h⟩
    · exact ⟨hc, ⟨and_of_and h rfl, not_both h (by decide)⟩, and_of_and h rfl,
        .inl (and_of_and h rfl)⟩
    · exact ⟨hc, ⟨and_of_and h rfl, not_both h (by decide)⟩, and_of_and h rfl,
        .inr (and_of_and h rfl)⟩
  · rintro ⟨hc, ⟨hm, -⟩, hop, hsh | hsh⟩
    · exact ⟨hc, .inl (and_or (and_or hm hop) hsh)⟩
    · exact ⟨hc, .inr (and_or (and_or hm hop) hsh)⟩

theorem transferPath_ne_branch (insn : BitVec 32) : transferPath insn ≠ .branch := by
  unfold transferPath
  split <;> decide

theorem path_branch_iff :
    path env insn = .branch ↔ env.isM = false ∧ (IsBranch insn ∨ IsExchange insn) := by
  rw [path]
  by_cases hm : env.isM = true
  · rw [if_pos hm]
    exact iff_of_false (by decide) fun h => Bool.false_ne_true (h.1.symm.trans hm)
  rw [if_neg hm]
  by_cases hc : insn >>> 28 = 0xf
  · rw [if_pos hc]
    refine iff_of_false (by decide) ?_
    rintro ⟨-, h | h⟩
    · exact h.1 hc
    · exact h.1 hc
  rw [if_neg hc]
  by_cases hmovw : insn &&& 0x0f900000 = 0x03000000
  · rw [if_pos hmovw]
    refine iff_of_false (by decide) ?_
    rintro ⟨-, h | h⟩
    · exact h.not_movw hmovw
    · exact not_both (isExchange_iff.1 h).2.1.1 (by decide) hmovw
  rw [if_neg hmovw]
  by_cases hmisc : Miscellaneous insn
  · have hbranch : ¬IsBranch insn := fun h => h.not_miscellaneous hmisc
    rw [if_pos hmisc, isExchange_iff]
    simp only [hm, hbranch, hmisc, false_or, true_and, Conditional, ne_eq, hc, not_false_eq_true]
    split <;> simp_all
  have hexchange : ¬IsExchange insn := fun h => hmisc (isExchange_iff.1 h).2.1
  rw [if_neg hmisc, or_iff_left hexchange]
  by_cases hd : DataProcessing insn
  · rw [if_pos hd]
    exact iff_of_false (by decide) fun h => h.2.not_dataProcessing hd
  rw [if_neg hd]
  have hop : IsBranch insn ↔ insn >>> 24 &&& 0xf = 0xa ∨ insn >>> 24 &&& 0xf = 0xb :=
    (and_iff_right hc).trans branch_op1_iff.symm
  have hother : ∀ {v w : BitVec 32}, insn >>> 24 &&& 0xf = v ∨ insn >>> 24 &&& 0xf = w →
      ¬(v = 0xa ∨ v = 0xb) → ¬(w = 0xa ∨ w = 0xb) → ¬IsBranch insn := by
    rintro v w (rfl | rfl) hv hw h
    · exact hv (hop.1 h)
    · exact hw (hop.1 h)
  have htransfer : transferPath insn ≠ .branch := transferPath_ne_branch insn
  split
  · next h =>
    exact iff_of_false htransfer fun hb => hother h (by decide) (by decide) hb.2
  split
  · next h =>
    refine iff_of_false ?_ fun hb => hother h (by decide) (by decide) hb.2
    split
    · decide
    · split
      · decide
      · exact htransfer
  split
  · next h =>
    refine iff_of_false ?_ fun hb => hother h (by decide) (by decide) hb.2
    split
    · decide
    · exact htransfer
  split
  · next h => exact iff_of_true rfl ⟨Bool.eq_false_iff.2 hm, hop.2 h⟩
  · next h => exact iff_of_false (by decide) fun hb => h (hop.1 hb.2)

/-- Where `get_arm_ticks` does not run, the branch count is that of the branches and exchanges of
the block. -/
theorem branchCount_eq (env : Env) (u : Nat → Unset) (interlocks : DataSheet.Interlocks)
    (b : Block) (h : ¬env.RunsArmTicks) :
    ∃ s, translate env u (.start interlocks) b.insns = some s ∧ s.tb.branchCount.toNat =
      if env.isM then 0 else b.insns.countP fun insn => IsBranch insn ∨ IsExchange insn := by
  obtain ⟨s, hs, -, hbranches, -, -⟩ :=
    translate_spec env u (.start interlocks) b.insns Nat.zero_lt_two
  have hle : b.insns.countP (fun insn => IsBranch insn ∨ IsExchange insn) ≤ 1024 :=
    List.countP_le_length.trans b.length_le
  have hstart : (State.start interlocks).tb.branchCount = 0 := rfl
  have hcount : s.tb.branchCount = UInt32.ofNat
      (if env.isM then 0 else b.insns.countP fun insn => IsBranch insn ∨ IsExchange insn) := by
    rw [hbranches, hstart]
    simp only [h, path_branch_iff, false_and, decide_false, List.countP_false]
    cases hm : env.isM with
    | true => simp
    | false => simp
  refine ⟨s, hs, ?_⟩
  rw [hcount, UInt32.toNat_ofNat_of_lt']
  split
  · decide
  · exact hle.trans_lt (by decide)

/-- A `BX` in a block for `cpu_model` 0. -/
theorem exchange_branchCount_eq :
    ∃ s, translate (.user 0 .b fun _ => 1) (fun _ => .clear) (.start .start) [0xe12fff1e] =
        some s ∧
      s.tb.branchCount.toNat = if (Env.user 0 .b fun _ => 1).isM then 0 else
        [0xe12fff1e].countP fun insn => IsBranch insn ∨ IsExchange insn :=
  branchCount_eq (.user 0 .b fun _ => 1) (fun _ => .clear) .start ⟨[0xe12fff1e], by decide⟩
    (by decide)

/-- For `cpu_model` 1 a `B` counts twice, and for `cpu_model` 0 a `BX` counts, too. -/
theorem branchCount_ne :
    ((translate (.user 1 .b fun _ => 1) (fun _ => .clear) (.start .start) [0xea000000]).map
        fun s => s.tb.branchCount) = some 2 ∧
      [(0xea000000 : BitVec 32)].countP IsBranch = 1 ∧
      ((translate (.user 0 .b fun _ => 1) (fun _ => .clear) (.start .start) [0xe12fff1e]).map
        fun s => s.tb.branchCount) = some 1 ∧
      [(0xe12fff1e : BitVec 32)].countP IsBranch = 0 :=
  ⟨rfl, by decide, rfl, by decide⟩

end Branches

section LoadStore

theorem toNat_ofNat_eq_iff (n : Nat) : (UInt8.ofNat n).toNat = n ↔ n < 256 := by
  rw [UInt8.toNat_ofNat']
  exact ⟨fun h => h ▸ Nat.mod_lt n (by decide), Nat.mod_eq_of_lt⟩

/-- The load and store counts of a block are right exactly up to 255 loads and 255 stores. -/
theorem loadStoreCounts_iff (env : Env) (u : Nat → Unset) (interlocks : DataSheet.Interlocks)
    (b : Block) :
    ∃ s, translate env u (.start interlocks) b.insns = some s ∧
      (s.tb.loadCount.toNat = b.insns.countP (fun insn => path env insn = .load) ∧
          s.tb.storeCount.toNat = b.insns.countP (fun insn => path env insn = .store) ↔
        b.insns.countP (fun insn => path env insn = .load) < 256 ∧
          b.insns.countP (fun insn => path env insn = .store) < 256) := by
  obtain ⟨s, hs, -, -, hloads, hstores⟩ :=
    translate_spec env u (.start interlocks) b.insns Nat.zero_lt_two
  have hload₀ : (State.start interlocks).tb.loadCount = 0 := rfl
  have hstore₀ : (State.start interlocks).tb.storeCount = 0 := rfl
  refine ⟨s, hs, ?_⟩
  rw [hloads, hstores, hload₀, hstore₀, UInt8.zero_add, UInt8.zero_add, toNat_ofNat_eq_iff,
    toNat_ofNat_eq_iff]

/-- The load count of a block of 256 load multiples is zero. -/
theorem loadCount_wraps :
    ∃ s, translate (.user 0 .b fun _ => 1) (fun _ => .clear) (.start .start)
        (List.replicate 256 0xe8900000) = some s ∧
      s.tb.loadCount = 0 ∧
      (List.replicate 256 0xe8900000).countP
        (fun insn => path (.user 0 .b fun _ => 1) insn = .load) = 256 := by
  obtain ⟨s, hs, -, -, hloads, -⟩ :=
    translate_spec (.user 0 .b fun _ => 1) (fun _ => .clear) (.start .start)
      (List.replicate 256 0xe8900000) Nat.zero_lt_two
  have hcount : (List.replicate 256 (0xe8900000 : BitVec 32)).countP
      (fun insn => path (.user 0 .b fun _ => 1) insn = .load) = 256 := by
    rw [List.countP_replicate]
    rfl
  refine ⟨s, hs, ?_, hcount⟩
  rw [hloads, hcount]
  rfl

end LoadStore

end M2M.Vpmu.Translation
