import M2M.Vpmu.BranchRing
import M2M.Vpmu.TraceRing

/-! When a worker thread sleeps although there is work for it. -/

universe u

namespace M2M.Vpmu.Threads

open M2M.Lib M2M.Lib.Locked

/-- Asleep, or on the way to the wait: the worker sees neither the flag nor its queue. -/
def BranchPc.deaf : BranchPc → Bool
  | .asleep z => z.deaf
  | _ => false

def DineroPc.deaf : DineroPc → Bool
  | .asleep z => z.deaf
  | _ => false

/-- The worker takes one more signal before it looks at the flag. -/
def BranchPc.committed : BranchPc → Nat
  | .empty | .read => 1
  | _ => 0

theorem Sleep.deaf_of_step {w : Worker} {mutex : Option Worker} {z : Sleep}
    {p : Option Sleep × Option Worker} (hp : z.step w mutex = some p)
    (hdeaf : p.1.any Sleep.deaf = true) : z.deaf = true := by
  cases z with
  | woken =>
    simp only [Sleep.step] at hp
    split at hp <;> cases hp
    cases hdeaf
  | unlock =>
    cases hp
    cases hdeaf
  | _ => rfl

theorem BranchQueue.setSleep_deaf (q : BranchQueue) (z : Option Sleep) :
    (q.setSleep z).worker.deaf = z.any Sleep.deaf := by
  cases z <;> rfl

theorem TraceBuffer.setSleep_deaf (b : TraceBuffer) (z : Option Sleep) :
    (b.setSleep z).worker.deaf = z.any Sleep.deaf := by
  cases z <;> rfl

namespace BranchQueue

variable {q r : BranchQueue} {e : Bool}

/-- No signal is left behind when the worker goes to sleep. -/
structure Quiet (enabled : Bool) (q : BranchQueue) : Prop where
  putting : q.putting = true → enabled = true
  stopping : enabled = false → q.issued.length ≤ q.seen.length + q.worker.committed
  asleep : q.worker.deaf = true → q.issued.length ≤ q.seen.length

theorem Quiet.branchThread (h : Quiet e q) (hc : Counted q) (hr : q.branchThread e = some r) :
    Quiet e r ∧ (r.worker.deaf = true → e = false) := by
  obtain ⟨hput, hstop, hasleep⟩ := h
  unfold BranchQueue.branchThread at hr
  split at hr
  · rename_i hbusy
    simp only [Option.map_eq_some_iff] at hr
    obtain ⟨size, hsize, rfl⟩ := hr
    have hw : q.worker = .enabled := by
      by_contra hw
      exact hbusy (hc.workerIdle hw)
    have hproducer := (Counter.step_spec hc.exclusive hsize).other .producer nofun
    refine ⟨⟨?_, hstop, hasleep⟩, by simp [hw, BranchPc.deaf]⟩
    simpa [BranchQueue.putting, hproducer] using hput
  · rename_i hidle
    have howed := Counter.owed_idle (not_not.mp hidle)
    have hzero := Counter.owed_idle (c := q.branchBufferSize) (s := .producer)
    have hupdate := Counter.setUpdate_ne q.branchBufferSize .lock
      (show Side.producer ≠ .consumer by decide)
    have hcount := hc.count
    simp only [BranchQueue.putting, Bool.or_eq_true, decide_eq_true_eq] at hput
    cases hw : q.worker with
    | asleep z => simp [hw] at hr
    | _ =>
      simp only [hw, Option.some.injEq] at hr
      subst hr
      refine ⟨⟨?_, ?_, ?_⟩, ?_⟩ <;>
        grind [BranchPc.deaf, BranchPc.committed, Sleep.deaf, fresh, stale, BranchQueue.putting,
          Counter.start]

theorem Quiet.setSleep (h : Quiet e q) {z : Sleep} (hz : q.worker = .asleep z) {z' : Option Sleep}
    (hdeaf : (q.setSleep z').worker.deaf = true → z.deaf = true) : Quiet e (q.setSleep z') := by
  obtain ⟨hput, hstop, hasleep⟩ := h
  constructor
  case putting => exact hput
  case stopping =>
    intro he
    have := hstop he
    simp only [hz, BranchPc.committed] at this
    exact Nat.le_trans this (Nat.le_add_right _ _)
  case asleep => exact fun hd => hasleep (by simpa [hz, BranchPc.deaf] using hdeaf hd)

theorem putStep_frame (hr : q.putStep = some r) :
    r.worker = q.worker ∧ r.issued = q.issued ∧ r.seen = q.seen := by
  unfold BranchQueue.putStep at hr
  cases hp : q.put with
  | full =>
    simp only [hp] at hr
    split at hr <;> cases hr <;> exact ⟨rfl, rfl, rfl⟩
  | idle =>
    simp only [hp, Option.map_eq_some_iff] at hr
    obtain ⟨size, -, rfl⟩ := hr
    exact ⟨rfl, rfl, rfl⟩

theorem Quiet.putStep (h : Quiet e q) (hc : Counted q) (hr : q.putStep = some r) : Quiet e r := by
  have hbusy : q.putting = true := by
    unfold BranchQueue.putStep at hr
    cases hp : q.put with
    | full => simp [BranchQueue.putting, hp]
    | idle =>
      simp only [hp, Option.map_eq_some_iff] at hr
      obtain ⟨size, hsize, -⟩ := hr
      simpa [BranchQueue.putting] using Or.inr (Counter.step_spec hc.exclusive hsize).busy
  have he := h.putting hbusy
  obtain ⟨hworker, hissued, hseen⟩ := putStep_frame hr
  refine ⟨fun _ => he, by simp [he], ?_⟩
  rw [hworker, hissued, hseen]
  exact h.asleep

end BranchQueue

section Runs

variable {σ : Type u} {d : Simulator σ} {s t : State σ}

namespace State

/-- The CPU thread is about to signal the worker's condition. -/
def signalPending (s : State σ) : Worker → Bool
  | .branch =>
    match s.cpu with
    | .signalBranch m => simulatorStatus m.mask branchSim
    | _ => false
  | .dinero =>
    match s.cpu with
    | .signalBranch m | .signalCache m => simulatorStatus m.mask (dcacheSim ||| icacheSim)
    | _ => false

/-- What the timing register holds on the way to a timing model. -/
def TimingOK (s : State σ) : Prop :=
  match s.cpu with
  | .enable _ | .model _ => s.timingRegister = 0
  | .turnOn m => s.timingRegister = m.code
  | .signalBranch m | .signalCache m => s.timingRegister = m.register
  | .run | .sync | .synced => True

theorem wake_control (s : State σ) (w : Worker) :
    (s.wake w).cpu = s.cpu ∧ (s.wake w).timingRegister = s.timingRegister ∧
      (s.wake w).vpmuEnabled = s.vpmuEnabled := by
  cases w <;> exact ⟨rfl, rfl, rfl⟩

theorem TimingOK.step {a : Act} (h : s.TimingOK) (ht : step d s a = some t) : t.TimingOK := by
  cases a with
  | cpu =>
    simp only [Threads.step, cpuStep] at ht
    unfold TimingOK at h
    cases hs : s.cpu with
    | run => simp [hs] at ht
    | enable m | model m =>
      simp only [hs, Option.some.injEq] at ht h
      subst ht
      simp [TimingOK, h]
    | sync | synced =>
      simp only [hs, Option.some.injEq] at ht
      subst ht
      grind [TimingOK]
    | turnOn m =>
      simp only [hs, Option.some.injEq] at ht h
      subst ht
      simp [TimingOK, h, TimingModel.register]
    | signalBranch m =>
      simp only [hs, Option.some.injEq] at ht h
      subst ht
      have := (wake_control s .branch).2.1
      simp only [TimingOK]
      split <;> simp [*]
    | signalCache m =>
      simp only [hs, Option.some.injEq] at ht h
      subst ht
      trivial
  | worker w =>
    cases w with
    | branch =>
      simp only [Threads.step, branchStep] at ht
      split at ht
      all_goals
        simp only [Option.map_eq_some_iff] at ht
        obtain ⟨p, -, rfl⟩ := ht
        exact h
    | dinero =>
      simp only [Threads.step, dineroStep] at ht
      split at ht
      all_goals
        simp only [Option.map_eq_some_iff] at ht
        obtain ⟨p, -, rfl⟩ := ht
        exact h
  | spurious w =>
    cases ht
    have := wake_control s w
    simpa [TimingOK, this.1, this.2.1] using h
  | putStep | refStep =>
    simp only [Threads.step, Option.map_eq_some_iff] at ht
    obtain ⟨q, -, rfl⟩ := ht
    exact h
  | put | ref | disable =>
    simp only [Threads.step] at ht
    split at ht <;> cases ht
    exact h
  | enable m =>
    simp only [Threads.step] at ht
    split at ht <;> cases ht
    rfl
  | reset =>
    simp only [Threads.step] at ht
    split at ht
    · rename_i hi
      cases ht
      simp only [idle, Bool.and_eq_true, decide_eq_true_eq] at hi
      simp [TimingOK, State.reset, hi.1.1]
    · cases ht
  | sync =>
    simp only [Threads.step] at ht
    split at ht <;> cases ht
    cases hc : s.cacheOn <;> simp [TimingOK]

end State

/-- A worker that is signalled in a step of the CPU thread is not on its way to the wait. -/
def Heard (s : State σ) : Cpu → Prop
  | .signalBranch m => simulatorStatus m.mask branchSim = true →
      s.branch.worker ≠ .asleep .lock ∧ s.branch.worker ≠ .asleep .wait
  | .signalCache m => simulatorStatus m.mask (dcacheSim ||| icacheSim) = true →
      s.trace.worker ≠ .asleep .lock ∧ s.trace.worker ≠ .asleep .wait ∧
        (s.trace.worker = .used → 0 < s.trace.setUsed.value)
  | _ => True

instance (s : State σ) (c : Cpu) : Decidable (Heard s c) :=
  match c with
  | .signalBranch _ => inferInstanceAs (Decidable (_ → _ ∧ _))
  | .signalCache _ => inferInstanceAs (Decidable (_ → _ ∧ _ ∧ (_ → _)))
  | .run | .enable _ | .model _ | .turnOn _ | .sync | .synced => .isTrue trivial

/-- VPMU is disabled when the branch predictor thread has consumed every signal, or is about
to; and the signals of `vpmu_simulator_turn_on` are heard. -/
def NoLostSignal (s : State σ) : Act → Prop
  | .disable => s.branch.branchBufferSize.value ≤
      s.branch.worker.committed + s.branch.stale + s.branch.branchBufferSize.owed .consumer
  | .cpu => Heard s s.cpu
  | _ => True

instance (s : State σ) (a : Act) : Decidable (NoLostSignal s a) :=
  match a with
  | .disable => inferInstanceAs (Decidable (_ ≤ _))
  | .cpu => inferInstanceAs (Decidable (Heard s s.cpu))
  | .put _ | .putStep | .ref .. | .refStep | .enable _ | .reset | .sync | .worker _
  | .spurious _ => .isTrue trivial

/-- The branch predictor thread does not sleep while it has work. -/
structure BranchAwake (s : State σ) : Prop where
  fifo : s.branch.Fifo
  timing : s.TimingOK
  quiet : BranchQueue.Quiet s.vpmuEnabled s.branch
  woken : s.branch.worker.deaf = true → s.vpmuEnabled = true → s.branchOn = true →
    s.signalPending .branch = true

theorem BranchAwake.frame (h : BranchAwake s) (ht : t.TimingOK) (hb : t.branch = s.branch)
    (he : t.vpmuEnabled = s.vpmuEnabled)
    (hp : t.branchOn = true → s.branchOn = true ∧
      (s.signalPending .branch = true → t.signalPending .branch = true)) : BranchAwake t := by
  constructor
  case fifo => exact hb ▸ h.fifo
  case timing => exact ht
  case quiet => rw [hb, he]; exact h.quiet
  case woken =>
    rw [hb, he]
    intro hdeaf hen hon
    obtain ⟨hon', hsig⟩ := hp hon
    exact hsig (h.woken hdeaf hen hon')

theorem branchAwake_wake (h : BranchAwake s) (w : Worker) : BranchAwake (s.wake w) := by
  obtain ⟨hcpu, htiming, he⟩ := State.wake_control s w
  have ht : (s.wake w).TimingOK := by
    have := h.timing
    unfold State.TimingOK at this ⊢
    rwa [hcpu, htiming]
  cases w with
  | dinero => exact h.frame ht rfl rfl fun hon => ⟨hon, id⟩
  | branch =>
    by_cases hw : s.branch.worker = .asleep .blocked
    · have hb : (s.wake .branch).branch = s.branch.setSleep (some .woken) := by
        simp [State.wake, hw]
      refine ⟨?_, ht, ?_, ?_⟩
      · exact h.fifo.moved (wake_branch s .branch)
      · rw [hb]
        exact h.quiet.setSleep hw (by rintro ⟨⟩)
      · rw [hb]
        rintro ⟨⟩
    · have hb : (s.wake .branch).branch = s.branch := by simp [State.wake, hw]
      exact h.frame ht hb rfl fun hon => ⟨hon, id⟩

theorem branchAwake_cpu (h : BranchAwake s) (hok : NoLostSignal s .cpu)
    (ht : s.cpuStep = some t) : BranchAwake t := by
  have htiming : t.TimingOK := h.timing.step (d := ⟨fun _ _ c => c, id⟩) (a := .cpu) ht
  have hold := h.timing
  unfold State.cpuStep at ht
  cases hs : s.cpu with
  | run => simp [hs] at ht
  | enable m =>
    simp only [hs, Option.some.injEq] at ht
    subst ht
    simp only [State.TimingOK, hs] at hold
    refine ⟨h.fifo, htiming, ?_, ?_⟩
    · exact ⟨fun _ => rfl, nofun, h.quiet.asleep⟩
    · intro _ _ hon
      simp [State.branchOn, hold] at hon
  | model m =>
    simp only [hs, Option.some.injEq] at ht
    subst ht
    refine h.frame htiming rfl rfl fun hon => ?_
    simp [State.branchOn, simulatorStatus_code] at hon
  | turnOn m =>
    simp only [hs, Option.some.injEq] at ht
    subst ht
    refine ⟨h.fifo, htiming, h.quiet, ?_⟩
    intro _ _ hon
    simp only [State.TimingOK, hs] at hold
    simp only [State.branchOn, hold] at hon
    exact (simulatorStatus_register m).1.symm.trans hon
  | signalBranch m =>
    simp only [hs, Option.some.injEq] at ht
    subst ht
    simp only [NoLostSignal, Heard, hs] at hok
    simp only [State.TimingOK, hs] at hold
    cases hm : simulatorStatus m.mask branchSim with
    | true =>
      simp only [hm, if_true] at htiming ⊢
      have hw := branchAwake_wake h .branch
      refine ⟨hw.fifo, htiming, hw.quiet, ?_⟩
      intro hdeaf
      exfalso
      have hne := hok hm
      cases hz : s.branch.worker with
      | asleep z =>
        cases z <;> simp_all [State.wake, BranchQueue.setSleep, BranchPc.deaf, Sleep.deaf]
      | _ => simp_all [State.wake, BranchPc.deaf]
    | false =>
      simp only [hm, Bool.false_eq_true, if_false] at htiming ⊢
      refine h.frame htiming rfl rfl fun hon => ?_
      simp only [State.branchOn, hold, (simulatorStatus_register m).1, hm] at hon
      cases hon
  | signalCache m =>
    simp only [hs, Option.some.injEq] at ht
    subst ht
    have hp : s.signalPending .branch = false := by simp [State.signalPending, hs]
    cases hm : simulatorStatus m.mask (dcacheSim ||| icacheSim) with
    | true =>
      simp only [hm, if_true] at htiming ⊢
      refine h.frame htiming rfl rfl fun hon => ⟨hon, ?_⟩
      simp [hp]
    | false =>
      simp only [hm, Bool.false_eq_true, if_false] at htiming ⊢
      refine h.frame htiming rfl rfl fun hon => ⟨hon, ?_⟩
      simp [hp]
  | sync | synced =>
    simp only [hs, Option.some.injEq] at ht
    subst ht
    refine h.frame htiming rfl rfl fun hon => ⟨hon, ?_⟩
    simp [State.signalPending, hs]

theorem BranchAwake.step {a : Act} (h : BranchAwake s) (hok : NoLostSignal s a)
    (ht : step d s a = some t) : BranchAwake t := by
  have htiming := h.timing.step ht
  have hf := h.fifo.moved (step_branch ht)
  have hidle : s.idle = true → s.branch.putting = false ∧ s.signalPending .branch = false := by
    intro hi
    simp only [State.idle, Bool.and_eq_true, decide_eq_true_eq, Bool.not_eq_true'] at hi
    exact ⟨hi.1.2, by simp [State.signalPending, hi.1.1]⟩
  cases a with
  | cpu => exact branchAwake_cpu h hok ht
  | spurious w =>
    cases ht
    exact branchAwake_wake h w
  | put curSig =>
    simp only [Threads.step] at ht
    split at ht
    · rename_i hi
      cases ht
      have hawake : s.branch.worker.deaf ≠ true := by
        intro hdeaf
        have := h.woken hdeaf hi.2.1 hi.2.2
        simp [(hidle hi.1).2] at this
      refine ⟨hf, htiming, ⟨fun _ => hi.2.1, ?_, ?_⟩, ?_⟩
      · simp [hi.2.1]
      · exact fun hdeaf => absurd hdeaf hawake
      · exact fun hdeaf => absurd hdeaf hawake
    · cases ht
  | putStep =>
    simp only [Threads.step, Option.map_eq_some_iff] at ht
    obtain ⟨r, hr, rfl⟩ := ht
    refine ⟨hf, htiming, h.quiet.putStep h.fifo.counted hr, ?_⟩
    rw [show r.worker = s.branch.worker from (BranchQueue.putStep_frame hr).1]
    exact h.woken
  | disable =>
    simp only [Threads.step] at ht
    split at ht
    · rename_i hi
      cases ht
      refine ⟨hf, htiming, ⟨?_, ?_, h.quiet.asleep⟩, by simp⟩
      · simp [(hidle hi).1]
      · intro _
        have hcount := h.fifo.counted.count
        have hle : s.branch.branchBufferSize.value ≤ s.branch.worker.committed +
          s.branch.stale + s.branch.branchBufferSize.owed .consumer := hok
        have hput := (hidle hi).1
        simp only [BranchQueue.putting, Bool.or_eq_false_iff, decide_eq_false_iff_not,
          not_not] at hput
        have howed := Counter.owed_idle hput.2
        have hfresh : s.branch.fresh = 0 := by simp [BranchQueue.fresh, hput.1]
        show s.branch.issued.length ≤ s.branch.seen.length + s.branch.worker.committed
        omega
    · cases ht
  | enable m | reset =>
    simp only [Threads.step] at ht
    split at ht <;> cases ht
    refine h.frame htiming rfl rfl fun hon => ?_
    simp [State.branchOn, State.reset] at hon
  | sync =>
    simp only [Threads.step] at ht
    split at ht
    · rename_i hi
      cases ht
      refine h.frame htiming rfl rfl fun hon => ⟨hon, ?_⟩
      simp [(hidle hi).2]
    · cases ht
  | worker w =>
    cases w with
    | branch =>
      simp only [Threads.step, State.branchStep] at ht
      split at ht
      · rename_i z hz
        simp only [Option.map_eq_some_iff] at ht
        obtain ⟨p, hp, rfl⟩ := ht
        have hdeaf : (s.branch.setSleep p.1).worker.deaf = true → z.deaf = true := by
          rw [BranchQueue.setSleep_deaf]
          exact Sleep.deaf_of_step hp
        refine ⟨hf, htiming, h.quiet.setSleep hz hdeaf, ?_⟩
        exact fun hd => h.woken (by simpa [hz, BranchPc.deaf] using hdeaf hd)
      · simp only [Option.map_eq_some_iff] at ht
        obtain ⟨r, hr, rfl⟩ := ht
        obtain ⟨hquiet, hstopped⟩ := h.quiet.branchThread h.fifo.counted hr
        refine ⟨hf, htiming, hquiet, ?_⟩
        intro hd he
        simp [hstopped hd] at he
    | dinero =>
      simp only [Threads.step, State.dineroStep] at ht
      split at ht
      all_goals
        simp only [Option.map_eq_some_iff] at ht
        obtain ⟨p, -, rfl⟩ := ht
        exact h.frame htiming rfl rfl fun hon => ⟨hon, id⟩
  | refStep =>
    simp only [Threads.step, Option.map_eq_some_iff] at ht
    obtain ⟨b, -, rfl⟩ := ht
    exact h.frame htiming rfl rfl fun hon => ⟨hon, id⟩
  | ref =>
    simp only [Threads.step] at ht
    split at ht <;> cases ht
    exact h.frame htiming rfl rfl fun hon => ⟨hon, id⟩

/-- The cache simulator thread does not sleep while it has work. -/
structure DineroAwake (s : State σ) : Prop where
  fifo : s.trace.Fifo
  timing : s.TimingOK
  referring : s.trace.ref ≠ .idle → s.cpu = .run ∧ s.vpmuEnabled = true ∧ s.cacheOn = true
  asleep : s.trace.worker.deaf = true → s.trace.setUsed.value = 0
  woken : s.trace.worker.deaf = true ∨ s.trace.worker = .used ∧ s.trace.setUsed.value = 0 →
    s.vpmuEnabled = true → s.cacheOn = true → s.signalPending .dinero = true

/-- A step that leaves the buffer alone, and the flag unless the CPU thread is in none of its
functions. -/
theorem DineroAwake.frame (h : DineroAwake s) (ht : t.TimingOK) (hb : t.trace = s.trace)
    (hr : s.trace.ref ≠ .idle → t.cpu = .run ∧ t.vpmuEnabled = true ∧ t.cacheOn = true)
    (hp : t.vpmuEnabled = true → t.cacheOn = true → s.vpmuEnabled = true ∧ s.cacheOn = true ∧
      (s.signalPending .dinero = true → t.signalPending .dinero = true)) : DineroAwake t := by
  constructor
  case fifo => exact hb ▸ h.fifo
  case timing => exact ht
  case referring => rw [hb]; exact hr
  case asleep => rw [hb]; exact h.asleep
  case woken =>
    rw [hb]
    intro hdeaf hen hon
    obtain ⟨hen', hon', hsig⟩ := hp hen hon
    exact hsig (h.woken hdeaf hen' hon')

theorem dineroThread_sleeps {b c : TraceBuffer} {e : Bool} {passed : Option MemRef}
    (hc : b.dineroThread e = some (c, passed)) :
    (c.worker.deaf = true → b.worker = .used ∧ b.setUsed.value = 0 ∧ c.setUsed.value = 0) ∧
      (c.worker = .used → e = false) := by
  unfold TraceBuffer.dineroThread at hc
  cases hw : b.worker with
  | simulate r =>
    simp only [hw] at hc
    split at hc <;> cases hc <;> exact ⟨nofun, nofun⟩
  | advance =>
    simp only [hw] at hc
    split at hc
    · simp only [Option.map_eq_some_iff] at hc
      obtain ⟨used, -, heq⟩ := hc
      cases heq
      exact ⟨nofun, nofun⟩
    · cases hc
      exact ⟨nofun, nofun⟩
  | asleep z => simp [hw] at hc
  | _ =>
    simp only [hw, Option.some.injEq, Prod.mk.injEq] at hc
    obtain ⟨rfl, -⟩ := hc
    grind [DineroPc.deaf]

theorem refStep_worker {b c : TraceBuffer} (hf : b.Fifo) (hc : b.refStep = some c) :
    c.worker = b.worker ∧ b.setUsed.value ≤ c.setUsed.value := by
  obtain ⟨l, m, hl⟩ := hf.lines
  unfold TraceBuffer.refStep at hc
  cases hr : b.ref with
  | idle => simp [hr] at hc
  | full r =>
    simp only [hr, Option.some.injEq] at hc
    subst hc
    exact ⟨rfl, Nat.le_refl _⟩
  | write r =>
    simp only [hr] at hc
    split at hc <;> cases hc <;> exact ⟨rfl, Nat.le_refl _⟩
  | advance =>
    simp only [hr] at hc
    split at hc
    · simp only [Option.map_eq_some_iff] at hc
      obtain ⟨used, hused, rfl⟩ := hc
      refine ⟨rfl, ?_⟩
      rcases (Counter.step_spec hl.exclusive hused).counted with ⟨hv, -⟩ | ⟨hv, -⟩ <;>
        simp [hv]
    · cases hc
      exact ⟨rfl, Nat.le_refl _⟩

theorem dineroAwake_wake (h : DineroAwake s) (w : Worker) : DineroAwake (s.wake w) := by
  obtain ⟨hcpu, htiming, he⟩ := State.wake_control s w
  have ht : (s.wake w).TimingOK := by
    have := h.timing
    unfold State.TimingOK at this ⊢
    rwa [hcpu, htiming]
  cases w with
  | branch => exact h.frame ht rfl h.referring fun hen hon => ⟨hen, hon, id⟩
  | dinero =>
    by_cases hw : s.trace.worker = .asleep .blocked
    · have hb : (s.wake .dinero).trace = s.trace.setSleep (some .woken) := by
        simp [State.wake, hw]
      refine ⟨h.fifo.moved (wake_trace s .dinero), ht, ?_, ?_, ?_⟩
      · rw [hb]
        exact h.referring
      · rw [hb]
        rintro ⟨⟩
      · rw [hb]
        rintro (hd | ⟨hd, -⟩) <;> cases hd
    · have hb : (s.wake .dinero).trace = s.trace := by simp [State.wake, hw]
      exact h.frame ht hb h.referring fun hen hon => ⟨hen, hon, id⟩

theorem dineroAwake_cpu (h : DineroAwake s) (hok : NoLostSignal s .cpu)
    (ht : s.cpuStep = some t) : DineroAwake t := by
  have htiming : t.TimingOK := h.timing.step (d := ⟨fun _ _ c => c, id⟩) (a := .cpu) ht
  have hold := h.timing
  have hidle : s.cpu ≠ .run → s.trace.ref = .idle := by
    intro hs
    by_contra hr
    exact hs (h.referring hr).1
  unfold State.cpuStep at ht
  cases hs : s.cpu with
  | run => simp [hs] at ht
  | enable m =>
    simp only [hs, Option.some.injEq] at ht
    subst ht
    simp only [State.TimingOK, hs] at hold
    refine h.frame htiming rfl (by simp [hidle, hs]) fun _ hon => ?_
    simp [State.cacheOn, hold] at hon
  | model m =>
    simp only [hs, Option.some.injEq] at ht
    subst ht
    refine h.frame htiming rfl (by simp [hidle, hs]) fun _ hon => ?_
    simp [State.cacheOn, simulatorStatus_code] at hon
  | turnOn m =>
    simp only [hs, Option.some.injEq] at ht
    subst ht
    refine ⟨h.fifo, htiming, by simp [hidle, hs], h.asleep, ?_⟩
    intro _ _ hon
    simp only [State.TimingOK, hs] at hold
    simp only [State.cacheOn, hold] at hon
    exact (simulatorStatus_register m).2.symm.trans hon
  | signalBranch m =>
    simp only [hs, Option.some.injEq] at ht
    subst ht
    cases hm : simulatorStatus m.mask branchSim with
    | true =>
      simp only [hm, if_true] at htiming ⊢
      refine h.frame htiming rfl (by simp [hidle, hs]) fun hen hon => ⟨hen, hon, ?_⟩
      simp [State.signalPending, hs]
    | false =>
      simp only [hm, Bool.false_eq_true, if_false] at htiming ⊢
      refine h.frame htiming rfl (by simp [hidle, hs]) fun hen hon => ⟨hen, hon, ?_⟩
      simp [State.signalPending, hs]
  | signalCache m =>
    simp only [hs, Option.some.injEq] at ht
    subst ht
    simp only [NoLostSignal, Heard, hs] at hok
    simp only [State.TimingOK, hs] at hold
    cases hm : simulatorStatus m.mask (dcacheSim ||| icacheSim) with
    | true =>
      simp only [hm, if_true] at htiming ⊢
      have hw := dineroAwake_wake h .dinero
      have href : (s.wake .dinero).trace.ref = .idle := by
        simp only [State.wake]
        split <;> exact hidle (by simp [hs])
      refine ⟨hw.fifo, htiming, fun hr => absurd href hr, hw.asleep, ?_⟩
      intro hdeaf
      exfalso
      obtain ⟨hlock, hwait, hused⟩ := hok hm
      cases hz : s.trace.worker with
      | asleep z =>
        cases z <;> simp_all [State.wake, TraceBuffer.setSleep, DineroPc.deaf, Sleep.deaf]
      | _ => simp_all [State.wake, DineroPc.deaf]
    | false =>
      simp only [hm, Bool.false_eq_true, if_false] at htiming ⊢
      refine h.frame htiming rfl (by simp [hidle, hs]) fun _ hon => ?_
      simp only [State.cacheOn, hold, (simulatorStatus_register m).2, hm] at hon
      cases hon
  | sync | synced =>
    simp only [hs, Option.some.injEq] at ht
    subst ht
    refine h.frame htiming rfl (by simp [hidle, hs]) fun hen hon => ⟨hen, hon, ?_⟩
    simp [State.signalPending, hs]

theorem DineroAwake.step {a : Act} (h : DineroAwake s) (hok : NoLostSignal s a)
    (ht : step d s a = some t) : DineroAwake t := by
  have htiming := h.timing.step ht
  have hf := h.fifo.moved (step_trace ht)
  have hidle : s.idle = true → s.cpu = .run ∧ s.trace.ref = .idle := by
    intro hi
    simp only [State.idle, Bool.and_eq_true, decide_eq_true_eq, TraceBuffer.referring,
      Bool.not_eq_true', decide_eq_false_iff_not, not_not] at hi
    exact ⟨hi.1.1, hi.2⟩
  have hawake : s.cpu = .run → s.vpmuEnabled = true → s.cacheOn = true →
      ¬ (s.trace.worker.deaf = true ∨ s.trace.worker = .used ∧ s.trace.setUsed.value = 0) := by
    intro hcpu hen hon hdeaf
    have := h.woken hdeaf hen hon
    simp [State.signalPending, hcpu] at this
  cases a with
  | cpu => exact dineroAwake_cpu h hok ht
  | spurious w =>
    cases ht
    exact dineroAwake_wake h w
  | ref addr rw dataSize =>
    simp only [Threads.step] at ht
    split at ht
    · rename_i hi
      cases ht
      exact ⟨hf, htiming, fun _ => ⟨(hidle hi.1).1, hi.2.1, hi.2.2⟩, h.asleep, h.woken⟩
    · cases ht
  | refStep =>
    simp only [Threads.step, Option.map_eq_some_iff] at ht
    obtain ⟨b, hb, rfl⟩ := ht
    obtain ⟨hworker, hvalue⟩ := refStep_worker h.fifo hb
    have hbusy : s.trace.ref ≠ .idle := by
      intro hr
      simp [TraceBuffer.refStep, hr] at hb
    obtain ⟨hcpu, hen, hon⟩ := h.referring hbusy
    have hup := hawake hcpu hen hon
    refine ⟨hf, htiming, fun _ => ⟨hcpu, hen, hon⟩, ?_, ?_⟩
    · intro hdeaf
      exact absurd (.inl (hworker ▸ hdeaf)) hup
    · rintro (hdeaf | ⟨hw, hv⟩)
      · exact absurd (.inl (hworker ▸ hdeaf)) hup
      · exact absurd (.inr ⟨hworker ▸ hw, Nat.le_zero.mp (hv ▸ hvalue)⟩) hup
  | put =>
    simp only [Threads.step] at ht
    split at ht <;> cases ht
    exact h.frame htiming rfl h.referring fun hen hon => ⟨hen, hon, id⟩
  | putStep =>
    simp only [Threads.step, Option.map_eq_some_iff] at ht
    obtain ⟨q, -, rfl⟩ := ht
    exact h.frame htiming rfl h.referring fun hen hon => ⟨hen, hon, id⟩
  | disable =>
    simp only [Threads.step] at ht
    split at ht
    · rename_i hi
      cases ht
      exact h.frame htiming rfl (by simp [(hidle hi).2]) (by simp)
    · cases ht
  | enable m | reset =>
    simp only [Threads.step] at ht
    split at ht
    · rename_i hi
      cases ht
      refine h.frame htiming rfl (by simp [(hidle hi).2]) fun _ hon => ?_
      simp [State.cacheOn, State.reset] at hon
    · cases ht
  | sync =>
    simp only [Threads.step] at ht
    split at ht
    · rename_i hi
      cases ht
      refine h.frame htiming rfl (by simp [(hidle hi).2]) fun hen hon => ⟨hen, hon, ?_⟩
      simp [State.signalPending, (hidle hi).1]
    · cases ht
  | worker w =>
    cases w with
    | branch =>
      simp only [Threads.step, State.branchStep] at ht
      split at ht
      all_goals
        simp only [Option.map_eq_some_iff] at ht
        obtain ⟨p, -, rfl⟩ := ht
        exact h.frame htiming rfl h.referring fun hen hon => ⟨hen, hon, id⟩
    | dinero =>
      simp only [Threads.step, State.dineroStep] at ht
      split at ht
      · rename_i z hz
        simp only [Option.map_eq_some_iff] at ht
        obtain ⟨p, hp, rfl⟩ := ht
        have hdeaf : (s.trace.setSleep p.1).worker.deaf = true → s.trace.worker.deaf = true := by
          rw [TraceBuffer.setSleep_deaf, hz]
          exact Sleep.deaf_of_step hp
        refine ⟨hf, htiming, h.referring, fun hd => h.asleep (hdeaf hd), ?_⟩
        rintro (hd | ⟨hd, -⟩)
        · exact h.woken (.inl (hdeaf hd))
        · obtain ⟨z' | z', m⟩ := p <;> cases hd
      · simp only [Option.map_eq_some_iff] at ht
        obtain ⟨⟨c, passed⟩, hc, rfl⟩ := ht
        obtain ⟨hsleeps, hused⟩ := dineroThread_sleeps hc
        have href := (dineroThread_passed hc).2.1
        refine ⟨hf, htiming, ?_, fun hd => (hsleeps hd).2.2, ?_⟩
        · rw [show c.ref = s.trace.ref from href]
          exact h.referring
        · rintro (hd | ⟨hd, -⟩) hen
          · exact h.woken (.inr ⟨(hsleeps hd).1, (hsleeps hd).2.1⟩) hen
          · rw [show s.vpmuEnabled = false from hused hd] at hen
            cases hen

theorem awake_of_reachable {caches : σ}
    (h : Machine.ReachableWhen (Init caches) (step d) NoLostSignal s) :
    BranchAwake s ∧ DineroAwake s := by
  refine @Machine.ReachableWhen.invariant _ _ _ _ _ (fun s => BranchAwake s ∧ DineroAwake s) ?_ ?_
    _ h
  · rintro s rfl
    exact ⟨⟨.init, trivial, ⟨nofun, fun _ => Nat.zero_le _, nofun⟩, nofun⟩,
      ⟨.init, trivial, fun h => absurd rfl h, nofun, by simp [State.init]⟩⟩
  · intro s a t hi hok ht
    exact ⟨hi.1.step hok ht, hi.2.step hok ht⟩

/-- A worker that waits, with no signal on its way, has an empty queue, and VPMU is not
enabled with a simulator that the worker runs. -/
theorem never_asleep_with_work {caches : σ}
    (h : Machine.ReachableWhen (Init caches) (step d) NoLostSignal s) :
    (s.branch.worker = .asleep .blocked → s.signalPending .branch = false →
      s.branch.branchBufferSize.value = 0 ∧ ¬ (s.vpmuEnabled = true ∧ s.branchOn = true)) ∧
    (s.trace.worker = .asleep .blocked → s.signalPending .dinero = false →
      s.trace.setUsed.value = 0 ∧ ¬ (s.vpmuEnabled = true ∧ s.cacheOn = true)) := by
  obtain ⟨hb, hd⟩ := awake_of_reachable h
  constructor
  · intro hw hp
    have hdeaf : s.branch.worker.deaf = true := by rw [hw]; rfl
    constructor
    · have hle := hb.quiet.asleep hdeaf
      have hcount := hb.fifo.counted.count
      have howed := Counter.owed_idle (hb.fifo.counted.workerIdle (by simp [hw]))
      have hstale : s.branch.stale = 0 := by simp [BranchQueue.stale, hw]
      omega
    · rintro ⟨hen, hon⟩
      simp [hb.woken hdeaf hen hon] at hp
  · intro hw hp
    have hdeaf : s.trace.worker.deaf = true := by rw [hw]; rfl
    refine ⟨hd.asleep hdeaf, ?_⟩
    rintro ⟨hen, hon⟩
    simp [hd.woken (.inl hdeaf) hen hon] at hp

end Runs

/-- The two workers from the `while` test into the wait. -/
def suspendBoth : List Act :=
  List.flatten [List.replicate 3 (.worker .branch), List.replicate 4 (.worker .dinero)]

/-- Both workers are woken up, a signal is consumed, and both sleep again. -/
theorem never_asleep_with_work_round : ∃ s : State (Nat × Nat),
    Machine.ReachableWhen (Init (0, 0)) (step accessCounts) NoLostSignal s ∧
      s.branch.seen = [99] ∧
      s.branch.worker = .asleep .blocked ∧ s.trace.worker = .asleep .blocked ∧
      s.branch.branchBufferSize.value = 0 ∧ ¬ (s.vpmuEnabled = true ∧ s.branchOn = true) ∧
      s.trace.setUsed.value = 0 ∧ ¬ (s.vpmuEnabled = true ∧ s.cacheOn = true) := by
  obtain ⟨s, hs, hp⟩ := Machine.exists_reachableWhen (Init (0, 0)) (step accessCounts) NoLostSignal
    (List.flatten [suspendBoth, enableAll .e, List.replicate 2 (.worker .branch), putAll 99,
      branchRound, List.replicate 2 (.worker .dinero), [.disable], suspendBoth])
    (fun s => s.branch.seen == [99] && s.branch.worker == .asleep .blocked &&
      s.trace.worker == .asleep .blocked && s.cpu == .run) rfl (by decide +kernel)
  simp only [Bool.and_eq_true, beq_iff_eq] at hp
  obtain ⟨⟨⟨hseen, hbranch⟩, htrace⟩, hcpu⟩ := hp
  obtain ⟨hb, hd⟩ := never_asleep_with_work hs
  have hpending : ∀ w, s.signalPending w = false := by
    intro w
    cases w <;> simp [State.signalPending, hcpu]
  exact ⟨s, hs, hseen, hbranch, htrace, (hb hbranch (hpending _)).1, (hb hbranch (hpending _)).2,
    (hd htrace (hpending _)).1, (hd htrace (hpending _)).2⟩

/-- Both workers are signalled on their way to the wait and sleep while their simulators are
on; and a signal stays in the ring when VPMU is disabled. -/
theorem asleep_with_work :
    (∃ s : State (Nat × Nat), Machine.Reachable (Init (0, 0)) (step accessCounts) s ∧
      s.signalPending .branch = false ∧ s.signalPending .dinero = false ∧
      s.branch.worker = .asleep .blocked ∧ 0 < s.branch.branchBufferSize.value ∧
      s.trace.worker = .asleep .blocked ∧
      s.vpmuEnabled = true ∧ s.branchOn = true ∧ s.cacheOn = true) ∧
    (∃ s : State (Nat × Nat), Machine.Reachable (Init (0, 0)) (step accessCounts) s ∧
      s.signalPending .branch = false ∧ s.branch.worker = .asleep .blocked ∧
      0 < s.branch.branchBufferSize.value) := by
  constructor
  · obtain ⟨s, hs, hp⟩ := Machine.exists_reachable (Init (0, 0)) (step accessCounts)
      (List.flatten [[.worker .branch, .worker .dinero, .worker .dinero], enableAll .e,
        List.replicate 2 (.worker .branch), List.replicate 2 (.worker .dinero), putAll 99])
      (fun s => s.signalPending .branch == false && s.signalPending .dinero == false &&
        s.branch.worker == .asleep .blocked && decide (0 < s.branch.branchBufferSize.value) &&
        s.trace.worker == .asleep .blocked && s.vpmuEnabled && s.branchOn && s.cacheOn)
      rfl (by decide +kernel)
    simp only [Bool.and_eq_true, beq_iff_eq, decide_eq_true_eq] at hp
    obtain ⟨⟨⟨⟨⟨⟨⟨hpb, hpd⟩, hbranch⟩, hvalue⟩, htrace⟩, hen⟩, hbon⟩, hcon⟩ := hp
    exact ⟨s, hs, hpb, hpd, hbranch, hvalue, htrace, hen, hbon, hcon⟩
  · obtain ⟨s, hs, hp⟩ := Machine.exists_reachable (Init (0, 0)) (step accessCounts)
      (List.flatten [enableAll .e, putAll 99, [.disable], List.replicate 3 (.worker .branch)])
      (fun s => s.signalPending .branch == false && s.branch.worker == .asleep .blocked &&
        decide (0 < s.branch.branchBufferSize.value)) rfl (by decide +kernel)
    simp only [Bool.and_eq_true, beq_iff_eq, decide_eq_true_eq] at hp
    obtain ⟨⟨hpb, hbranch⟩, hvalue⟩ := hp
    exact ⟨s, hs, hpb, hbranch, hvalue⟩

end M2M.Vpmu.Threads
