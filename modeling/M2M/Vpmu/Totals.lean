import M2M.Vpmu.Counters

/-! The totals over the modes against what has been executed. -/

universe u

namespace M2M.Vpmu.Counters

/-- The blocks that are executed, with their modes. -/
def blocks (es : List Exec) : List (UInt32 × ExtraTBInfo) :=
  es.filterMap (fun | .block mode tb => some (mode, tb) | _ => none)

def insnCount (es : List Exec) : UInt64 := ((blocks es).map (·.2.insnCount.toUInt64)).sum

def loadCount (es : List Exec) : UInt64 := ((blocks es).map (·.2.loadCount.toUInt64)).sum

def storeCount (es : List Exec) : UInt64 := ((blocks es).map (·.2.storeCount.toUInt64)).sum

def irqInsnCount (es : List Exec) : UInt64 :=
  insnCount (es.filter (fun | .block mode _ => mode == armCpuModeIrq | _ => false))

variable {β : Type u} {d : Dinero β} {cfg : Config} {v w t : GlobalVPMU β}
  {es es' : List Exec}

def Counting (v : GlobalVPMU β) : Prop :=
  v.vpmuEnabled = true ∧ v.simulatorStatus insnCountSim = true

def GlobalVPMU.modes (v : GlobalVPMU β) :=
  ((v.vpmuEnabled, v.timingRegister), v.usr, v.svc, v.irq, v.sysCall, v.sysRest)

theorem modes_icacheSimulate (tb : ExtraTBInfo) : (v.icacheSimulate d tb).modes = v.modes := by
  unfold GlobalVPMU.icacheSimulate
  split
  · split <;> rfl
  · rfl

theorem modes_pipelineSimulate (tb : ExtraTBInfo) :
    (v.pipelineSimulate cfg tb).modes = v.modes := by
  unfold GlobalVPMU.pipelineSimulate
  split
  · split <;> rfl
  · rfl

theorem modes_branchUpdate (taken : Bool) : (v.branchUpdate taken).modes = v.modes := by
  unfold GlobalVPMU.branchUpdate
  cases v.predictor <;> cases taken <;> rfl

theorem modes_branchSet (curSig : UInt32) : (v.branchSet curSig).modes = v.modes := by
  unfold GlobalVPMU.branchSet
  split
  · split
    · exact modes_branchUpdate false
    · exact modes_branchUpdate true
  · rfl

theorem Counting.of_modes (h : Counting v) (hm : t.modes = v.modes) : Counting t := by
  simp only [GlobalVPMU.modes, Prod.mk.injEq] at hm
  exact ⟨hm.1.1 ▸ h.1, by rw [GlobalVPMU.simulatorStatus, hm.1.2]; exact h.2⟩

/-- What execution adds to the counters, whatever the bucket. -/
structure Adds (v : GlobalVPMU β) (es : List Exec) (t : GlobalVPMU β) : Prop where
  counting : Counting t
  insn : vpmuTotalInsnCount t + t.irq.icount =
    vpmuTotalInsnCount v + v.irq.icount + insnCount es
  irq : t.irq.icount = v.irq.icount + irqInsnCount es
  load : vpmuTotalLoadCount t = vpmuTotalLoadCount v + loadCount es
  store : vpmuTotalStoreCount t = vpmuTotalStoreCount v + storeCount es
  ldst : vpmuTotalLdstCount t = vpmuTotalLdstCount v + (loadCount es + storeCount es)

theorem Adds.of_modes (h : Counting v) {e : Exec} (he : blocks [e] = [])
    (ht : t.modes = v.modes) : Adds v [e] t := by
  have hc := h.of_modes ht
  simp only [GlobalVPMU.modes, Prod.mk.injEq] at ht
  obtain ⟨-, husr, hsvc, hirq, hsysCall, hsysRest⟩ := ht
  have hnone : insnCount [e] = 0 ∧ irqInsnCount [e] = 0 ∧ loadCount [e] = 0 ∧
      storeCount [e] = 0 := by
    cases e with
    | block mode tb => simp [blocks] at he
    | _ => exact ⟨rfl, rfl, rfl, rfl⟩
  obtain ⟨hi, hq, hl, hs⟩ := hnone
  constructor
  case counting => exact hc
  case insn => simp only [vpmuTotalInsnCount, husr, hsvc, hirq, hsysCall, hsysRest, hi]; grind
  case irq => rw [hirq, hq, UInt64.add_zero]
  case load => simp only [vpmuTotalLoadCount, husr, hsvc, hirq, hsysCall, hsysRest, hl]; grind
  case store => simp only [vpmuTotalStoreCount, husr, hsvc, hirq, hsysCall, hsysRest, hs]; grind
  case ldst =>
    simp only [vpmuTotalLdstCount, husr, hsvc, hirq, hsysCall, hsysRest, hl, hs]; grind

theorem adds_countMode (h : Counting v) (mode : UInt32) (tb : ExtraTBInfo) :
    Adds v [.block mode tb] (v.countMode mode tb) := by
  have hirq : irqInsnCount [.block mode tb] =
      if mode = armCpuModeIrq then tb.insnCount.toUInt64 else 0 := by
    by_cases hm : mode = armCpuModeIrq <;> simp [irqInsnCount, insnCount, blocks, hm]
  have hinsn : insnCount [.block mode tb] = tb.insnCount.toUInt64 := by
    simp [insnCount, blocks]
  have hload : loadCount [.block mode tb] = tb.loadCount.toUInt64 := by
    simp [loadCount, blocks]
  have hstore : storeCount [.block mode tb] = tb.storeCount.toUInt64 := by
    simp [storeCount, blocks]
  have husr : armCpuModeUsr ≠ armCpuModeIrq := by decide
  have hsvc : armCpuModeSvc ≠ armCpuModeIrq := by decide
  constructor
  case counting =>
    unfold GlobalVPMU.countMode
    repeat' split
    all_goals exact h
  case insn => grind [GlobalVPMU.countMode, ModeCounts.add, vpmuTotalInsnCount]
  case irq => grind [GlobalVPMU.countMode, ModeCounts.add]
  case load => grind [GlobalVPMU.countMode, ModeCounts.add, vpmuTotalLoadCount]
  case store => grind [GlobalVPMU.countMode, ModeCounts.add, vpmuTotalStoreCount]
  case ldst => grind [GlobalVPMU.countMode, ModeCounts.add, vpmuTotalLdstCount]

theorem Adds.congr (h : Adds v es t) (hm : w.modes = v.modes) : Adds w es t := by
  simp only [GlobalVPMU.modes, Prod.mk.injEq] at hm
  obtain ⟨-, husr, hsvc, hirq, hsysCall, hsysRest⟩ := hm
  obtain ⟨hc, hinsn, hq, hload, hstore, hldst⟩ := h
  refine ⟨hc, ?_, ?_, ?_, ?_, ?_⟩ <;>
    simpa only [vpmuTotalInsnCount, vpmuTotalLoadCount, vpmuTotalStoreCount, vpmuTotalLdstCount,
      husr, hsvc, hirq, hsysCall, hsysRest]

theorem adds_exec (h : Counting v) (e : Exec) : Adds v [e] (v.exec d cfg e) := by
  cases e with
  | block mode tb =>
    have hm : ((v.icacheSimulate d tb).pipelineSimulate cfg tb).modes = v.modes := by
      rw [modes_pipelineSimulate, modes_icacheSimulate]
    have hc := h.of_modes hm
    have hb : (v.exec d cfg (.block mode tb)) =
        (((v.icacheSimulate d tb).pipelineSimulate cfg tb).countBranches tb).countMode mode tb := by
      simp [GlobalVPMU.exec, GlobalVPMU.calculate, h.1, GlobalVPMU.insnCountSimulate, hc.2]
    rw [hb]
    have hcb :=
      hc.of_modes (t := ((v.icacheSimulate d tb).pipelineSimulate cfg tb).countBranches tb) rfl
    exact (adds_countMode hcb mode tb).congr hm.symm
  | dineroAccess addr rw size =>
    refine .of_modes h rfl ?_
    simp only [GlobalVPMU.exec, GlobalVPMU.dineroAccess]
    repeat' split
    all_goals rfl
  | softmmuAccess addr rw size =>
    refine .of_modes h rfl ?_
    simp only [GlobalVPMU.exec, GlobalVPMU.softmmuAccess]
    split <;> rfl
  | ioAccess =>
    refine .of_modes h rfl ?_
    simp only [GlobalVPMU.exec, GlobalVPMU.ioAccess]
    split <;> rfl
  | branchPredictor curSig =>
    refine .of_modes h rfl ?_
    simp only [GlobalVPMU.exec, GlobalVPMU.branchPredictor]
    split
    · split
      · exact modes_branchSet curSig
      · rfl
    · rfl
  | network send recv => exact .of_modes h rfl rfl
  | swi fired => exact .of_modes h rfl rfl

theorem Adds.trans (h : Adds v es w) (h' : Adds w es' t) : Adds v (es ++ es') t := by
  have hblocks : blocks (es ++ es') = blocks es ++ blocks es' := List.filterMap_append ..
  have hinsn : insnCount (es ++ es') = insnCount es + insnCount es' := by
    simp only [insnCount, hblocks, List.map_append, List.sum_append]
  have hload : loadCount (es ++ es') = loadCount es + loadCount es' := by
    simp only [loadCount, hblocks, List.map_append, List.sum_append]
  have hstore : storeCount (es ++ es') = storeCount es + storeCount es' := by
    simp only [storeCount, hblocks, List.map_append, List.sum_append]
  have hirq : irqInsnCount (es ++ es') = irqInsnCount es + irqInsnCount es' := by
    simp only [irqInsnCount, insnCount, blocks, List.filter_append, List.filterMap_append,
      List.map_append, List.sum_append]
  obtain ⟨-, hi, hq, hl, hs, hls⟩ := h
  obtain ⟨hc, hi', hq', hl', hs', hls'⟩ := h'
  constructor
  case counting => exact hc
  case insn => grind
  case irq => grind
  case load => grind
  case store => grind
  case ldst => grind

theorem adds_run (h : Counting v) (es : List Exec) :
    Adds v es (es.foldl (GlobalVPMU.exec d cfg) v) := by
  induction es generalizing v with
  | nil =>
    refine ⟨h, ?_, ?_, ?_, ?_, ?_⟩ <;>
      simp [insnCount, irqInsnCount, loadCount, storeCount, blocks]
  | cons e es ih =>
    have he : Adds v [e] (v.exec d cfg e) := adds_exec h e
    exact he.trans (ih he.counting)

/-- From `VPMU_reset`, with the instruction counter on, the totals are the sums over the
executed blocks exactly when no instruction has been executed in IRQ mode. -/
theorem vpmuTotals_iff (v : GlobalVPMU β) (timingRegister : UInt32) (hen : v.vpmuEnabled = true)
    (hon : simulatorStatus timingRegister insnCountSim = true) (es : List Exec) :
    let t := es.foldl (GlobalVPMU.exec d cfg) { v.reset with timingRegister := timingRegister }
    (vpmuTotalInsnCount t = insnCount es ∧ vpmuTotalLoadCount t = loadCount es ∧
      vpmuTotalStoreCount t = storeCount es ∧
      vpmuTotalLdstCount t = vpmuTotalLoadCount t + vpmuTotalStoreCount t) ↔
    irqInsnCount es = 0 := by
  intro t
  have hreset : vpmuTotalInsnCount v.reset = 0 ∧ vpmuTotalLoadCount v.reset = 0 ∧
      vpmuTotalStoreCount v.reset = 0 ∧ vpmuTotalLdstCount v.reset = 0 ∧
      v.reset.irq.icount = 0 := ⟨rfl, rfl, rfl, rfl, rfl⟩
  have hc : Counting { v.reset with timingRegister := timingRegister } := ⟨hen, hon⟩
  have hadds : Adds { v.reset with timingRegister := timingRegister } es t := adds_run hc es
  obtain ⟨hi, hl, hs, hls, hq⟩ := hreset
  obtain ⟨-, hi', hq', hl', hs', hls'⟩ := hadds
  simp only [vpmuTotalInsnCount, vpmuTotalLoadCount, vpmuTotalStoreCount, vpmuTotalLdstCount] at *
  grind

def sampleBlock : ExtraTBInfo := ⟨10, 2, 1, 12, 0x8000, 40, 1, 1, 0⟩

/-- One block in user mode and one in supervisor mode. -/
theorem vpmuTotals_two :
    let v := { GlobalVPMU.start roomyCaches with vpmuEnabled := true }
    let es := [Exec.block armCpuModeUsr sampleBlock, .block armCpuModeSvc sampleBlock]
    let t := es.foldl (GlobalVPMU.exec roomyCaches cortexA9)
      { v.reset with timingRegister := TimingModel.e.register }
    vpmuTotalInsnCount t = insnCount es ∧ vpmuTotalLoadCount t = loadCount es ∧
      vpmuTotalStoreCount t = storeCount es ∧
      vpmuTotalLdstCount t = vpmuTotalLoadCount t + vpmuTotalStoreCount t :=
  (vpmuTotals_iff { GlobalVPMU.start roomyCaches with vpmuEnabled := true } _ rfl (by decide)
    [.block armCpuModeUsr sampleBlock, .block armCpuModeSvc sampleBlock]).mpr (by decide)

/-- A block in IRQ mode is left out of the instruction total. -/
theorem vpmuTotals_irq :
    let v := { GlobalVPMU.start roomyCaches with vpmuEnabled := true }
    let es := [Exec.block armCpuModeIrq sampleBlock]
    let t := es.foldl (GlobalVPMU.exec roomyCaches cortexA9)
      { v.reset with timingRegister := TimingModel.e.register }
    vpmuTotalInsnCount t = 0 ∧ insnCount es = 10 := by
  decide +kernel

end M2M.Vpmu.Counters
