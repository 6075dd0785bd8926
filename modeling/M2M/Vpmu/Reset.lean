import M2M.Lib.Machine
import M2M.Vpmu.Counters

/-! What `VPMU_reset` leaves behind of the measurement before it. -/

universe u

namespace M2M.Vpmu.Counters

open M2M.Lib

variable {β : Type u} {d : Dinero β} {cfg : Config} {v w t u : GlobalVPMU β}

def Init (d : Dinero β) (v : GlobalVPMU β) : Prop := v = .start d

def step (d : Dinero β) (cfg : Config) : Machine.Step (GlobalVPMU β) Op :=
  fun v a => some (v.op d cfg a)

/-- No reference goes to the caches and no conditional branch to the predictor. -/
def LeavesNothing (v : GlobalVPMU β) : Op → Prop
  | .exec (.block _ tb) => v.vpmuEnabled = true → v.simulatorStatus icacheSim = true →
      v.previousPc = tb.icacheAddress
  | .exec (.dineroAccess ..) => v.vpmuEnabled = true → v.simulatorStatus dcacheSim = true →
      v.iomemTest = true
  | .exec (.softmmuAccess ..) => (v.vpmuEnabled && v.simulatorStatus dcacheSim) = false
  | .exec (.branchPredictor curSig) => v.vpmuEnabled = true →
      v.simulatorStatus branchSim = true → curSig ≠ condSig
  | _ => True

instance (v : GlobalVPMU β) (a : Op) : Decidable (LeavesNothing v a) :=
  match a with
  | .exec (.block ..) => inferInstanceAs (Decidable (_ → _ → _))
  | .exec (.dineroAccess ..) => inferInstanceAs (Decidable (_ → _ → _))
  | .exec (.softmmuAccess ..) => inferInstanceAs (Decidable (_ = _))
  | .exec (.branchPredictor _) => inferInstanceAs (Decidable (_ → _ → _))
  | .exec .ioAccess | .exec (.network ..) | .exec (.swi _) | .reset | .modelSetup _
  | .enable _ => .isTrue trivial

/-- The caches and the static variables are as at the start of the program, up to the signals
that count for nothing. -/
structure Fresh (d : Dinero β) (v : GlobalVPMU β) : Prop where
  caches : v.caches = (GlobalVPMU.start d).caches
  previousPc : v.previousPc = 0
  lastSignal : v.lastSignal ≠ condSig
  predictor : v.predictor = .zero
  predictCorrect : v.predictCorrect = 0
  predictWrong : v.predictWrong = 0

/-- The state that `VPMU_reset` does not clear. -/
def GlobalVPMU.kept (v : GlobalVPMU β) :=
  ((v.caches, v.previousPc), v.lastSignal, v.predictor, v.predictCorrect, v.predictWrong)

theorem Fresh.frame (h : Fresh d v) (hk : w.kept = v.kept) : Fresh d w := by
  simp only [GlobalVPMU.kept, Prod.mk.injEq] at hk
  obtain ⟨⟨hcaches, hpc⟩, hlast, hpredictor, hcorrect, hwrong⟩ := hk
  exact ⟨hcaches ▸ h.caches, hpc ▸ h.previousPc, hlast ▸ h.lastSignal, hpredictor ▸ h.predictor,
    hcorrect ▸ h.predictCorrect, hwrong ▸ h.predictWrong⟩

theorem kept_calculate {mode : UInt32} {tb : ExtraTBInfo}
    (hok : LeavesNothing v (.exec (.block mode tb))) :
    (v.calculate d cfg mode tb).kept = v.kept := by
  have hi : v.vpmuEnabled = true → (v.icacheSimulate d tb).kept = v.kept := by
    intro hen
    unfold GlobalVPMU.icacheSimulate
    split
    · rename_i hon
      rw [if_pos (hok hen hon)]
      rfl
    · rfl
  have hp : ∀ u : GlobalVPMU β, (u.pipelineSimulate cfg tb).kept = u.kept := by
    intro u
    unfold GlobalVPMU.pipelineSimulate
    repeat' split
    all_goals rfl
  have hc : ∀ u : GlobalVPMU β, (u.insnCountSimulate mode tb).kept = u.kept := by
    intro u
    unfold GlobalVPMU.insnCountSimulate GlobalVPMU.countMode
    repeat' split
    all_goals rfl
  unfold GlobalVPMU.calculate
  split
  · rename_i hen
    rw [hc, hp, hi hen]
  · rfl

theorem Fresh.branchSet (h : Fresh d v) {curSig : UInt32} (hsig : curSig ≠ condSig) :
    Fresh d (v.branchSet curSig) := by
  rw [GlobalVPMU.branchSet, if_neg h.lastSignal]
  exact ⟨h.caches, h.previousPc, hsig, h.predictor, h.predictCorrect, h.predictWrong⟩

theorem Fresh.exec (h : Fresh d v) (e : Exec) (hok : LeavesNothing v (.exec e)) :
    Fresh d (v.exec d cfg e) := by
  cases e with
  | block mode tb => exact h.frame (kept_calculate hok)
  | dineroAccess addr rw size =>
    simp only [GlobalVPMU.exec, GlobalVPMU.dineroAccess]
    split
    · rename_i hen
      split
      · rename_i hon
        rw [if_pos (hok hen hon)]
        exact h.frame rfl
      · exact h
    · exact h
  | softmmuAccess addr rw size =>
    have hoff : (v.vpmuEnabled && v.simulatorStatus dcacheSim) = false := hok
    simp only [GlobalVPMU.exec, GlobalVPMU.softmmuAccess, hoff]
    exact h
  | ioAccess =>
    simp only [GlobalVPMU.exec, GlobalVPMU.ioAccess]
    split
    · exact h.frame rfl
    · exact h
  | branchPredictor curSig =>
    simp only [GlobalVPMU.exec, GlobalVPMU.branchPredictor]
    split
    · rename_i hen
      split
      · rename_i hon
        exact h.branchSet (hok hen hon)
      · exact h
    · exact h
  | network send recv => exact h.frame rfl
  | swi fired => exact h.frame rfl

theorem fresh_of_reachable (h : Machine.ReachableWhen (Init d) (step d cfg) LeavesNothing v) :
    Fresh d v := by
  refine Machine.ReachableWhen.invariant ?_ ?_ h
  · rintro v rfl
    exact ⟨rfl, rfl, show (0 : UInt32) ≠ condSig by decide, rfl, rfl, rfl⟩
  · intro v a w hi hok hw
    cases hw
    cases a with
    | exec e => exact hi.exec e hok
    | reset =>
      refine ⟨?_, hi.previousPc, hi.lastSignal, hi.predictor, hi.predictCorrect, hi.predictWrong⟩
      show v.caches.resetCache = _
      rw [hi.caches]
      rfl
    | modelSetup m => exact hi.frame rfl
    | enable on => exact hi.frame rfl

def GlobalVPMU.withSignal (v : GlobalVPMU β) (sig : UInt32) : GlobalVPMU β :=
  { v with lastSignal := sig }

theorem withSignal_ite {p : Prop} [Decidable p] (v w : GlobalVPMU β) (sig : UInt32) :
    (if p then v else w).withSignal sig = if p then v.withSignal sig else w.withSignal sig :=
  apply_ite (fun u : GlobalVPMU β => u.withSignal sig) p v w

theorem icacheSimulate_withSignal (sig : UInt32) (tb : ExtraTBInfo) :
    (v.withSignal sig).icacheSimulate d tb = (v.icacheSimulate d tb).withSignal sig := by
  simp only [GlobalVPMU.icacheSimulate, withSignal_ite]
  rfl

theorem pipelineSimulate_withSignal (sig : UInt32) (tb : ExtraTBInfo) :
    (v.withSignal sig).pipelineSimulate cfg tb = (v.pipelineSimulate cfg tb).withSignal sig := by
  simp only [GlobalVPMU.pipelineSimulate, withSignal_ite]
  rfl

theorem insnCountSimulate_withSignal (sig mode : UInt32) (tb : ExtraTBInfo) :
    (v.withSignal sig).insnCountSimulate mode tb =
      (v.insnCountSimulate mode tb).withSignal sig := by
  simp only [GlobalVPMU.insnCountSimulate, GlobalVPMU.countMode, withSignal_ite]
  rfl

/-- Everything but the predictor runs the same whatever the last signal was. -/
theorem exec_withSignal (sig : UInt32) (e : Exec) (he : ∀ curSig, e ≠ .branchPredictor curSig) :
    (v.withSignal sig).exec d cfg e = (v.exec d cfg e).withSignal sig := by
  cases e with
  | block mode tb =>
    simp only [GlobalVPMU.exec, GlobalVPMU.calculate, withSignal_ite,
      ← insnCountSimulate_withSignal, ← pipelineSimulate_withSignal, ← icacheSimulate_withSignal]
    rfl
  | dineroAccess addr rw size =>
    simp only [GlobalVPMU.exec, GlobalVPMU.dineroAccess, withSignal_ite]
    rfl
  | softmmuAccess addr rw size =>
    simp only [GlobalVPMU.exec, GlobalVPMU.softmmuAccess, withSignal_ite]
    rfl
  | ioAccess =>
    simp only [GlobalVPMU.exec, GlobalVPMU.ioAccess, withSignal_ite]
    rfl
  | branchPredictor curSig => exact absurd rfl (he curSig)
  | network send recv => rfl
  | swi fired => rfl

def Alike (v w : GlobalVPMU β) : Prop :=
  ∃ sig, w = v.withSignal sig ∧ (v.lastSignal = condSig ↔ sig = condSig)

theorem Alike.refl (v : GlobalVPMU β) : Alike v v := ⟨v.lastSignal, rfl, Iff.rfl⟩

theorem Alike.branchSet (h : Alike v w) (curSig : UInt32) :
    w.branchSet curSig = v.branchSet curSig := by
  obtain ⟨sig, rfl, hsig⟩ := h
  by_cases hlast : v.lastSignal = condSig
  · have hv : v.withSignal sig = v := by
      rw [hsig.mp hlast, ← hlast]
      rfl
    rw [hv]
  · rw [GlobalVPMU.branchSet, GlobalVPMU.branchSet, if_neg hlast,
      if_neg (show (v.withSignal sig).lastSignal ≠ condSig from fun h => hlast (hsig.mpr h))]
    rfl

theorem lastSignal_exec (e : Exec) (he : ∀ curSig, e ≠ .branchPredictor curSig) :
    (v.exec d cfg e).lastSignal = v.lastSignal := by
  have h : v.exec d cfg e = (v.exec d cfg e).withSignal v.lastSignal :=
    exec_withSignal v.lastSignal e he
  rw [h]
  rfl

theorem Alike.of_signal (h : Alike v w) (he : v.lastSignal = t.lastSignal)
    (hw : ∀ sig, w = v.withSignal sig → u = t.withSignal sig) : Alike t u := by
  obtain ⟨sig, hsig, hiff⟩ := h
  exact ⟨sig, hw sig hsig, he ▸ hiff⟩

theorem Alike.exec (h : Alike v w) (e : Exec) : Alike (v.exec d cfg e) (w.exec d cfg e) := by
  cases e with
  | branchPredictor curSig =>
    have hset := h.branchSet curSig
    have hcontrol : w.vpmuEnabled = v.vpmuEnabled ∧ w.timingRegister = v.timingRegister := by
      obtain ⟨sig, rfl, -⟩ := h
      exact ⟨rfl, rfl⟩
    simp only [GlobalVPMU.exec, GlobalVPMU.branchPredictor, GlobalVPMU.simulatorStatus,
      hcontrol.1, hcontrol.2, hset]
    by_cases hen : v.vpmuEnabled = true
    · by_cases hon : simulatorStatus v.timingRegister branchSim = true
      · simp only [hen, hon, if_true]
        exact .refl _
      · simpa only [hen, hon, if_true, Bool.false_eq_true, if_false] using h
    · simpa only [hen, Bool.false_eq_true, if_false] using h
  | _ =>
    refine h.of_signal (Eq.symm (lastSignal_exec _ nofun)) ?_
    rintro sig rfl
    exact exec_withSignal sig _ nofun

theorem Alike.run (h : Alike v w) (later : List Op) :
    Alike (later.foldl (GlobalVPMU.op d cfg) v) (later.foldl (GlobalVPMU.op d cfg) w) := by
  induction later generalizing v w with
  | nil => exact h
  | cons a later ih =>
    refine ih ?_
    cases a with
    | exec e => exact h.exec e
    | reset | modelSetup m | enable on =>
      refine h.of_signal rfl ?_
      rintro sig rfl
      rfl

theorem Alike.hardwareEventSelect (h : Alike v w) (evtsel : Nat) :
    hardwareEventSelect v cfg evtsel = hardwareEventSelect w cfg evtsel := by
  obtain ⟨sig, rfl, -⟩ := h
  rfl

theorem cycleCounts_reset (v : GlobalVPMU β) (cfg : Config) :
    vpmuPipelineCycleCount v.reset = 0 ∧ vpmuIoMemoryAccessCycleCount v.reset cfg = 0 ∧
      vpmuSysMemoryAccessCycleCount v.reset cfg = 0 ∧ vpmuCycleCount v.reset cfg = 0 := by
  have hmiss : vpmuL1DcacheMissCount v.reset = 0 ∧ vpmuL1IcacheMissCount v.reset = 0 ∧
      vpmuL2DcacheMissCount v.reset = 0 := ⟨rfl, rfl, rfl⟩
  obtain ⟨hd, hi, hl2⟩ := hmiss
  have hl1Now : l1NowMiss v.reset = 0 := by rw [l1NowMiss, hd, hi]; simp
  have hl2Now : l2NowMiss v.reset cfg = 0 := by rw [l2NowMiss, hl2, ite_self]
  have hio : v.reset.iomemQemu = 0 := rfl
  have hticks : v.reset.ticks = 0 := rfl
  refine ⟨hticks, ?_, ?_, ?_⟩
  · rw [vpmuIoMemoryAccessCycleCount, hio, UInt64.zero_mul]
  · simp [vpmuSysMemoryAccessCycleCount, hd, hi, hl2]
  · simp [vpmuCycleCount, hl1Now, hl2Now, hio, hticks]

/-- After `VPMU_reset` all events but those of the predictor read 0, whatever has been
executed. -/
theorem hardwareEventSelect_reset (v : GlobalVPMU β) (cfg : Config) {evtsel : Nat}
    (hcorrect : evtsel ≠ 0x21) (hwrong : evtsel ≠ 0x22) :
    hardwareEventSelect v.reset cfg evtsel = 0 := by
  obtain ⟨hpipeline, hio, hsys, hcycles⟩ := cycleCounts_reset v cfg
  have htime : vpmuEstimatedExecutionTimeNs v.reset cfg = 0 := by
    rw [vpmuEstimatedExecutionTimeNs, hpipeline, hio, hsys, cfg.toNs_zero]
    rfl
  unfold Counters.hardwareEventSelect
  split
  case h_23 => exact absurd rfl hcorrect
  case h_24 => exact absurd rfl hwrong
  all_goals first
    | rfl
    | simp only [hpipeline, hio, hsys, hcycles, htime, cfg.toNs_zero]; rfl

/-- When no reference has gone to the caches and no conditional branch to the predictor, all
events read 0 after `VPMU_reset`, and whatever is executed then is measured as from the start
of the program. -/
theorem reset_clean (h : Machine.ReachableWhen (Init d) (step d cfg) LeavesNothing v) :
    (∀ evtsel ≤ 0x57, hardwareEventSelect v.reset cfg evtsel = 0) ∧
      ∀ (later : List Op), ∀ evtsel ≤ 0x57,
        hardwareEventSelect (later.foldl (GlobalVPMU.op d cfg) v.reset) cfg evtsel =
          hardwareEventSelect (later.foldl (GlobalVPMU.op d cfg)
            { GlobalVPMU.start d with vpmuEnabled := v.vpmuEnabled }) cfg evtsel := by
  have hf := fresh_of_reachable h
  constructor
  · intro evtsel _
    by_cases hcorrect : evtsel = 0x21
    · subst hcorrect
      exact hf.predictCorrect
    · by_cases hwrong : evtsel = 0x22
      · subst hwrong
        exact hf.predictWrong
      · exact hardwareEventSelect_reset v cfg hcorrect hwrong
  · intro later evtsel _
    have halike : Alike { GlobalVPMU.start d with vpmuEnabled := v.vpmuEnabled } v.reset := by
      refine ⟨v.lastSignal, ?_, ?_⟩
      · simp only [GlobalVPMU.reset, GlobalVPMU.withSignal, hf.caches, hf.previousPc, hf.predictor,
          hf.predictCorrect, hf.predictWrong]
        rfl
      · simp only [hf.lastSignal, iff_false]
        exact show (0 : UInt32) ≠ condSig by decide
    exact ((halike.run later).hardwareEventSelect evtsel).symm

/-- A block that is counted, an I/O access and a branch that is not conditional. -/
theorem reset_clean_count : ∃ v : GlobalVPMU Blocks,
    Machine.ReachableWhen (Init roomyCaches) (step roomyCaches cortexA9) LeavesNothing v ∧
      v.usr.icount = 10 ∧
      (∀ evtsel ≤ 0x57, hardwareEventSelect v.reset cortexA9 evtsel = 0) ∧
      hardwareEventSelect ([Op.modelSetup .e, .exec (.softmmuAccess 0x1000 .read 4)].foldl
          (GlobalVPMU.op roomyCaches cortexA9) v.reset) cortexA9 0x32 =
        hardwareEventSelect ([Op.modelSetup .e, .exec (.softmmuAccess 0x1000 .read 4)].foldl
          (GlobalVPMU.op roomyCaches cortexA9)
          { GlobalVPMU.start roomyCaches with vpmuEnabled := v.vpmuEnabled }) cortexA9 0x32 := by
  obtain ⟨v, hv, hp⟩ := Machine.exists_reachableWhen (Init roomyCaches)
    (step roomyCaches cortexA9) LeavesNothing
    [.enable true, .modelSetup .f, .exec (.block armCpuModeUsr ⟨10, 2, 1, 12, 0x8000, 40, 1, 1, 0⟩),
      .modelSetup .e, .exec .ioAccess, .exec (.dineroAccess 0x1000 .read 4),
      .exec (.branchPredictor 0)]
    (fun v => v.usr.icount == 10) rfl (by decide +kernel)
  have hclean := reset_clean hv
  exact ⟨v, hv, by simpa using hp, hclean.1, hclean.2 _ 0x32 (by decide)⟩

/-- After `VPMU_reset` a wrong prediction made before it is still counted; and a load that
missed before it hits after it, where a fresh start has a miss. -/
theorem reset_leaves :
    (∃ v : GlobalVPMU Blocks, Machine.Reachable (Init roomyCaches) (step roomyCaches cortexA9) v ∧
      hardwareEventSelect v.reset cortexA9 0x22 = 1) ∧
    (∃ v : GlobalVPMU Blocks, Machine.Reachable (Init roomyCaches) (step roomyCaches cortexA9) v ∧
      hardwareEventSelect ([Op.modelSetup .e, .exec (.softmmuAccess 0x1000 .read 4)].foldl
          (GlobalVPMU.op roomyCaches cortexA9) v.reset) cortexA9 0x32 = 0 ∧
      hardwareEventSelect ([Op.modelSetup .e, .exec (.softmmuAccess 0x1000 .read 4)].foldl
          (GlobalVPMU.op roomyCaches cortexA9)
          { GlobalVPMU.start roomyCaches with vpmuEnabled := v.vpmuEnabled })
          cortexA9 0x32 = 1) := by
  constructor
  · obtain ⟨v, hv, hp⟩ := Machine.exists_reachable (Init roomyCaches) (step roomyCaches cortexA9)
      [.enable true, .modelSetup .e, .exec (.branchPredictor 99), .exec (.branchPredictor 0)]
      (fun v => hardwareEventSelect v.reset cortexA9 0x22 == 1) rfl (by decide +kernel)
    exact ⟨v, hv, by simpa using hp⟩
  · obtain ⟨v, hv, hp⟩ := Machine.exists_reachable (Init roomyCaches) (step roomyCaches cortexA9)
      [.enable true, .modelSetup .e, .exec (.softmmuAccess 0x1000 .read 4)]
      (fun v => hardwareEventSelect ([Op.modelSetup .e, .exec (.softmmuAccess 0x1000 .read 4)].foldl
          (GlobalVPMU.op roomyCaches cortexA9) v.reset) cortexA9 0x32 == 0 &&
        hardwareEventSelect ([Op.modelSetup .e, .exec (.softmmuAccess 0x1000 .read 4)].foldl
          (GlobalVPMU.op roomyCaches cortexA9)
          { GlobalVPMU.start roomyCaches with vpmuEnabled := v.vpmuEnabled }) cortexA9 0x32 == 1)
      rfl (by decide +kernel)
    simp only [Bool.and_eq_true, beq_iff_eq] at hp
    exact ⟨v, hv, hp⟩

end M2M.Vpmu.Counters
