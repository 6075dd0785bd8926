import M2M.Vpmu.Counters

/-! The cycle count against its three parts, and the miss counts against theirs. -/

universe u

namespace M2M.Vpmu.Counters

variable {β : Type u} {d : Dinero β} {cfg : Config} {v t : GlobalVPMU β} {m : TimingModel}

/-- The caches that a timing model leaves off have counted nothing. -/
structure CachesOff (m : TimingModel) (v : GlobalVPMU β) : Prop where
  timing : v.timingRegister = m.register
  icache : simulatorStatus m.register icacheSim = false → v.caches.l1i = .zero
  dcache : simulatorStatus m.register icacheSim = false →
    simulatorStatus m.register dcacheSim = false →
      v.caches.l1d = .zero ∧ v.caches.l2 = .zero

theorem CachesOff.frame (h : CachesOff m v) (htiming : t.timingRegister = v.timingRegister)
    (hcaches : t.caches = v.caches) : CachesOff m t :=
  ⟨htiming.trans h.timing, hcaches ▸ h.icache, hcaches ▸ h.dcache⟩

theorem CachesOff.icacheRef (h : CachesOff m v) (hon : v.simulatorStatus icacheSim = true)
    (r : MemRef) : CachesOff m (v.cacheRef d r) := by
  have hon' : simulatorStatus m.register icacheSim = true := h.timing ▸ hon
  exact ⟨h.timing, by simp [hon'], by simp [hon']⟩

theorem CachesOff.dcacheRef (h : CachesOff m v) (hon : v.simulatorStatus dcacheSim = true)
    (addr : UInt32) (rw : DataAccess) (size : UInt32) :
    CachesOff m (v.cacheRef d (.ofArgs addr rw.rw size)) := by
  have hon' : simulatorStatus m.register dcacheSim = true := h.timing ▸ hon
  have hcache : (MemRef.ofArgs addr rw.rw size).cache = .dcache := by cases rw <;> rfl
  refine ⟨h.timing, ?_, by simp [hon']⟩
  intro hoff
  simp only [GlobalVPMU.cacheRef, Simulator.pass, hcache, Dinero.simulator, d.dcache_l1i]
  exact h.icache hoff

theorem CachesOff.block (h : CachesOff m v) (mode : UInt32) (tb : ExtraTBInfo) :
    CachesOff m (v.calculate d cfg mode tb) := by
  have hi : CachesOff m (v.icacheSimulate d tb) := by
    unfold GlobalVPMU.icacheSimulate
    split
    · rename_i hon
      split
      · exact h.frame rfl rfl
      · exact (h.frame (t := { v with previousPc := tb.icacheAddress }) rfl rfl).icacheRef hon _
    · exact h
  have hp : CachesOff m ((v.icacheSimulate d tb).pipelineSimulate cfg tb) := by
    unfold GlobalVPMU.pipelineSimulate
    split
    · split <;> exact hi.frame rfl rfl
    · exact hi
  unfold GlobalVPMU.calculate GlobalVPMU.insnCountSimulate GlobalVPMU.countMode
  repeat' split
  all_goals first | exact hp.frame rfl rfl | exact h

theorem CachesOff.exec (h : CachesOff m v) (e : Exec) : CachesOff m (v.exec d cfg e) := by
  cases e with
  | block mode tb => exact h.block mode tb
  | dineroAccess addr rw size =>
    simp only [GlobalVPMU.exec, GlobalVPMU.dineroAccess]
    split
    · split
      · rename_i hon
        split
        · exact h.frame rfl rfl
        · exact h.dcacheRef hon addr rw size
      · exact h
    · exact h
  | softmmuAccess addr rw size =>
    simp only [GlobalVPMU.exec, GlobalVPMU.softmmuAccess]
    split
    · rename_i hon
      exact h.dcacheRef (Bool.and_eq_true_iff.mp hon).2 addr rw size
    · exact h
  | ioAccess =>
    simp only [GlobalVPMU.exec, GlobalVPMU.ioAccess]
    split
    · exact h.frame rfl rfl
    · exact h
  | branchPredictor curSig =>
    simp only [GlobalVPMU.exec, GlobalVPMU.branchPredictor, GlobalVPMU.branchSet,
      GlobalVPMU.branchUpdate]
    repeat' split
    all_goals first | exact h | exact h.frame rfl rfl
  | network send recv => exact h.frame rfl rfl
  | swi fired => exact h.frame rfl rfl

theorem cachesOff_run (v : GlobalVPMU β) (m : TimingModel) (es : List Exec) :
    CachesOff m (es.foldl (GlobalVPMU.exec d cfg) (v.reset.modelSetup m)) := by
  have hstart : CachesOff m (v.reset.modelSetup m) := ⟨rfl, fun _ => rfl, fun _ _ => ⟨rfl, rfl⟩⟩
  induction es using List.reverseRecOn with
  | nil => exact hstart
  | append_singleton es e ih =>
    rw [List.foldl_append]
    exact ih.exec e

/-- The model and cache depth of the two configuration files. -/
def Shipped (cfg : Config) : Prop :=
  cfg.cpuModel = 0 ∧ cfg.d4Maxlevel = 1 ∨ cfg.cpuModel = 1 ∧ cfg.d4Maxlevel = 2

theorem modelNumber_register (h : v.timingRegister = m.register) :
    modelNumber v = m.code := by
  rw [modelNumber, h]
  cases m <;> decide

theorem CachesOff.l1NowMiss (h : CachesOff m v) :
    l1NowMiss v = vpmuL1DcacheMissCount v + vpmuL1IcacheMissCount v := by
  have hnumber := modelNumber_register h.timing
  obtain ⟨-, hicache, hdcache⟩ := h
  cases m with
  | a | b =>
    have hi := hicache (by decide)
    have hd := (hdcache (by decide) (by decide)).1
    have hnone : Counters.l1NowMiss v = 0 := by
      rw [Counters.l1NowMiss, hnumber, if_neg (by decide), if_neg (by decide)]
    rw [hnone, vpmuL1DcacheMissCount, vpmuL1IcacheMissCount, hi, hd]
    rfl
  | c =>
    have hi := hicache (by decide)
    rw [Counters.l1NowMiss, hnumber, if_pos rfl, vpmuL1IcacheMissCount, hi]
    exact (UInt64.add_zero _).symm
  | d | e | f | g =>
    rw [Counters.l1NowMiss, hnumber, if_neg (by decide), if_pos (by decide)]

theorem CachesOff.l2NowMiss (h : CachesOff m v) :
    l2NowMiss v cfg = if cfg.d4Maxlevel > 1 then vpmuL2DcacheMissCount v else 0 := by
  have hnumber := modelNumber_register h.timing
  obtain ⟨-, -, hdcache⟩ := h
  rw [Counters.l2NowMiss, hnumber]
  cases m with
  | a | b =>
    have hl := (hdcache (by decide) (by decide)).2
    have hzero : vpmuL2DcacheMissCount v = 0 := by rw [vpmuL2DcacheMissCount, hl]; rfl
    rw [hzero, if_neg (fun h => absurd h.1 (by decide)), ite_self]
  | c | d | e | f | g => simp [TimingModel.code]

theorem CachesOff.cycleCount (h : CachesOff m v) (hcfg : Shipped cfg) :
    vpmuCycleCount v cfg = vpmuPipelineCycleCount v + vpmuSysMemoryAccessCycleCount v cfg +
      vpmuIoMemoryAccessCycleCount v cfg := by
  simp only [vpmuCycleCount, vpmuPipelineCycleCount, vpmuSysMemoryAccessCycleCount,
    vpmuIoMemoryAccessCycleCount, h.l1NowMiss, h.l2NowMiss]
  rcases hcfg with ⟨hmodel, hlevel⟩ | ⟨hmodel, hlevel⟩
  · simp only [hmodel, hlevel]
    grind
  · simp only [hmodel, hlevel]
    grind

theorem ofNat_add_ofNat (a b : Nat) : UInt64.ofNat a + UInt64.ofNat b = UInt64.ofNat (a + b) :=
  (UInt64.ofNat_add a b).symm

/-- From `VPMU_reset` and a timing model, the parts add up to the cycle count and the
first-level misses to theirs; the second-level misses do exactly when the second level has
missed on every write. -/
theorem cycleBreakdown_iff (hcfg : Shipped cfg) (v : GlobalVPMU β) (m : TimingModel)
    (es : List Exec) :
    let t := es.foldl (GlobalVPMU.exec d cfg) (v.reset.modelSetup m)
    (vpmuCycleCount t cfg = vpmuPipelineCycleCount t + vpmuSysMemoryAccessCycleCount t cfg +
        vpmuIoMemoryAccessCycleCount t cfg ∧
      vpmuL1DcacheReadMissCount t + vpmuL1DcacheWriteMissCount t = vpmuL1DcacheMissCount t ∧
      (cfg.d4Maxlevel = 2 →
        vpmuL2DcacheReadMissCount t + vpmuL2DcacheWriteMissCount t = vpmuL2DcacheMissCount t)) ↔
    (cfg.d4Maxlevel = 2 →
      UInt64.ofNat (t.caches.l2.fetch .write) = UInt64.ofNat (t.caches.l2.miss .write)) := by
  intro t
  have hoff : CachesOff m t := cachesOff_run v m es
  have hcycle := hoff.cycleCount hcfg
  have hl1 : vpmuL1DcacheReadMissCount t + vpmuL1DcacheWriteMissCount t =
      vpmuL1DcacheMissCount t := ofNat_add_ofNat _ _
  have hl2 : vpmuL2DcacheReadMissCount t + vpmuL2DcacheWriteMissCount t =
      vpmuL2DcacheMissCount t ↔
        UInt64.ofNat (t.caches.l2.fetch .write) = UInt64.ofNat (t.caches.l2.miss .write) := by
    rw [vpmuL2DcacheReadMissCount, vpmuL2DcacheWriteMissCount, vpmuL2DcacheMissCount,
      ← ofNat_add_ofNat]
    exact UInt64.add_right_inj _
  constructor
  · rintro ⟨-, -, h⟩ hlevel
    exact hl2.mp (h hlevel)
  · intro h
    exact ⟨hcycle, hl1, fun hlevel => hl2.mpr (h hlevel)⟩

def loadMiss : Exec := .softmmuAccess 0x1000 .read 4

/-- The load and a store that misses on both levels. -/
theorem cycleBreakdown_storeMiss :
    let t := [loadMiss, .softmmuAccess 0x2000 .write 4, .ioAccess].foldl
      (GlobalVPMU.exec roomyCaches cortexA9)
      ({ GlobalVPMU.start roomyCaches with vpmuEnabled := true }.reset.modelSetup .d)
    vpmuCycleCount t cortexA9 = vpmuPipelineCycleCount t +
        vpmuSysMemoryAccessCycleCount t cortexA9 + vpmuIoMemoryAccessCycleCount t cortexA9 ∧
      vpmuL2DcacheReadMissCount t + vpmuL2DcacheWriteMissCount t = vpmuL2DcacheMissCount t := by
  have h := (@cycleBreakdown_iff _ roomyCaches cortexA9 (.inr ⟨rfl, rfl⟩)
    { GlobalVPMU.start roomyCaches with vpmuEnabled := true } .d
    [loadMiss, .softmmuAccess 0x2000 .write 4, .ioAccess]).mpr (fun _ => by decide +kernel)
  exact ⟨h.1, h.2.2 rfl⟩

/-- A store to the other half of the loaded second-level block misses on the first level and
hits on the second, where it is counted as a write miss. -/
theorem cycleBreakdown_storeHit :
    let t := [loadMiss, .softmmuAccess 0x1020 .write 4].foldl
      (GlobalVPMU.exec roomyCaches cortexA9)
      ({ GlobalVPMU.start roomyCaches with vpmuEnabled := true }.reset.modelSetup .d)
    vpmuL2DcacheReadMissCount t = 1 ∧ vpmuL2DcacheWriteMissCount t = 1 ∧
      vpmuL2DcacheMissCount t = 1 := by
  decide +kernel

end M2M.Vpmu.Counters
