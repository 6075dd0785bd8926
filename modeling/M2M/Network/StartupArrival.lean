import M2M.Network.StartupLaws
import Mathlib

/-! Arrivals at start-up and the barrier: a stored start value stays visible to the coordinator,
unless its reset loop still has the word ahead of it, and no device goes on before all have
arrived. -/

namespace M2M.Network.Startup

open M2M.Lib.Machine

/-- The neighbour whose word a router's thread reads next. -/
def State.reading (s : State) (i : Nat) : Option Nat :=
  match s.thread i with
  | .sync (j :: _) _ _ _ => some j
  | _ => none

/-- A device stores its start value, and a router's thread reads a neighbour's word, only
after the coordinator has reset that word; and no clock that a device publishes after its
initialisation is `MAX_TIME`. -/
def AfterReset (s : State) : Act → Prop
  | .main i => s.pc i = .store → i ≠ 1 → (s.pc 1).hasReset i = true
  | .thread i => ∀ j ∈ s.reading i, (s.pc 1).hasReset j = true
  | .publish _ v => v ≠ maxTime
  | _ => True

instance (s : State) : (a : Act) → Decidable (AfterReset s a)
  | .main _ => inferInstanceAs (Decidable (_ → _ → _))
  | .thread i => inferInstanceAs (Decidable (∀ j ∈ s.reading i, _))
  | .publish .. => inferInstanceAs (Decidable (_ ≠ _))
  | .post .. | .receive .. | .forward .. => inferInstanceAs (Decidable True)

def Held (s : State) (j : Nat) : Prop := (s.pc 1).hasReset j = true ∧ s.word j ≠ maxTime

/-- A router's `time_sync` has either seen a device that is not warmed up, or a time. -/
def ThreadOK (c : Config) (s : State) (i : Nat) : Thread → Prop
  | .off => True
  | .sync rest warmup tmpTime read =>
    (∀ j ∈ rest, Device c.n j) ∧
    (warmup = true ∨ tmpTime ≠ maxTime ∨ rest = c.syncList i) ∧
    (read ≠ .warm → ∃ j, rest.head? = some j ∧ Held s j)

structure Arrived (c : Config) (s : State) : Prop where
  shape : Shape c s
  live : ∀ i, Device c.n i → (s.pc i).stored = true → Held s i
  threads : ∀ i, ThreadOK c s i (s.thread i)

variable {c : Config} {s t : State}

theorem arrived_init : Arrived c State.init where
  shape := shape_init
  live _ _ h := by simp [State.init, Pc.stored] at h
  threads _ := trivial

theorem Pc.hasReset_of_stored {p : Pc} (h : p.stored = true) (j : Nat) : p.hasReset j = true := by
  cases p <;> simp_all [Pc.stored, Pc.hasReset]

theorem zero_ne_maxTime : (0 : UInt64) ≠ maxTime := by decide

theorem lt_maxTime {v : UInt64} (h : v ≠ maxTime) : v < maxTime := by
  have hmax : maxTime.toNat = 2 ^ 64 - 1 := rfl
  have hne : v.toNat ≠ maxTime.toNat := fun heq => h (UInt64.toNat_inj.mp heq)
  have hlt := v.toNat_lt
  rw [UInt64.lt_iff_toNat_lt]
  omega

theorem syncList_ne_nil (c : Config) (i : Nat) : c.syncList i ≠ [] := by
  simp only [Config.syncList]
  split
  · assumption
  · rename_i hends
    obtain ⟨j, hj⟩ := List.exists_mem_of_ne_nil _ (c.linked i)
    intro hnil
    by_cases ht : c.type j = .zed
    · apply hends
      exact List.ne_nil_of_mem (List.mem_filter.mpr ⟨hj, by simpa using ht⟩)
    · have : j ∈ (c.neighbors i).filter (fun j => c.type j ≠ .zed) :=
        List.mem_filter.mpr ⟨hj, by simpa using ht⟩
      rw [hnil] at this
      cases this

theorem mem_syncList {i j : Nat} (h : j ∈ c.syncList i) : Device c.n j := by
  simp only [Config.syncList] at h
  split at h
  · exact c.inRange i j (List.mem_filter.mp h).1
  · exact c.inRange i j (List.mem_filter.mp h).1

theorem threadOK_startSync (c : Config) (s : State) (i : Nat) :
    ThreadOK c s i (c.startSync i) :=
  ⟨fun _ hj => mem_syncList hj, .inr (.inr rfl), fun h => absurd rfl h⟩

theorem ThreadOK.result_ne {i : Nat} {warmup : Bool} {tmpTime : UInt64} {read : Read}
    (h : ThreadOK c s i (.sync [] warmup tmpTime read)) :
    (if warmup then 0 else tmpTime) ≠ maxTime := by
  obtain ⟨-, h, -⟩ := h
  cases warmup with
  | true => exact zero_ne_maxTime
  | false =>
    rcases h with h | h | h
    · cases h
    · exact h
    · exact absurd h.symm (syncList_ne_nil c i)

theorem held_step (h : Arrived c s) {a : Act} (ha : AfterReset s a) (ht : step c s a = some t)
    {j : Nat} (hd : Device c.n j) (hj : Held s j) : Held t j := by
  cases a with
  | main i =>
    simp only [step] at ht
    split at ht
    · by_cases hi : i = 1
      · subst hi
        have hz := main_zc h.shape ht
        refine ⟨hz.mono j hj.1, ?_⟩
        rcases hz.word j hd.1 with heq | ⟨-, heq⟩ | hp
        · exact heq ▸ hj.2
        · exact heq ▸ zero_ne_maxTime
        · simp [Held, hp, Pc.hasReset] at hj
      · obtain ⟨-, hframe, hword, -, -, -⟩ := main_other h.shape hi ht
        refine ⟨(hframe 1 (Ne.symm hi)).2 ▸ hj.1, ?_⟩
        by_cases hji : j = i
        · subst hji
          rcases hword with heq | ⟨-, heq⟩
          · exact heq ▸ hj.2
          · exact heq ▸ zero_ne_maxTime
        · exact (hframe j hji).1 ▸ hj.2
    · cases ht
  | thread i =>
    simp only [step] at ht
    split at ht
    · obtain ⟨hpc, -, -, -, hword, -⟩ := thread_moved ht
      refine ⟨hpc ▸ hj.1, ?_⟩
      by_cases hji : j = i
      · subst hji
        have hok := h.threads j
        unfold threadStep at ht
        split at ht
        · cases ht
        · rename_i heq
          cases ht
          rw [heq] at hok
          simpa using hok.result_ne
        all_goals
          cases ht
          exact hj.2
      · exact (hword j hji) ▸ hj.2
    · cases ht
  | publish i v =>
    simp only [step] at ht
    split at ht
    · cases ht
      refine ⟨hj.1, ?_⟩
      by_cases hji : j = i
      · subst hji
        have hv : v ≠ maxTime := ha
        simpa using hv
      · simpa [hji] using hj.2
    · cases ht
  | post | receive | forward =>
    simp only [step] at ht
    split at ht
    · cases ht
      exact hj
    · cases ht

theorem ThreadOK.mono {i : Nat} {th : Thread} (h : ThreadOK c s i th)
    (hheld : ∀ j, Device c.n j → Held s j → Held t j) : ThreadOK c t i th := by
  cases th with
  | off => trivial
  | sync rest warmup tmpTime read =>
    obtain ⟨hrest, hval, hread⟩ := h
    refine ⟨hrest, hval, ?_⟩
    intro hr
    obtain ⟨j, hj, hheldj⟩ := hread hr
    exact ⟨j, hj, hheld j (hrest j (List.mem_of_mem_head? hj)) hheldj⟩

theorem threadOK_step {i : Nat} (h : ThreadOK c s i (s.thread i))
    (ha : ∀ j ∈ s.reading i, (s.pc 1).hasReset j = true) (ht : threadStep c s i = some t)
    (hheld : ∀ j, Device c.n j → Held s j → Held t j) : ThreadOK c t i (t.thread i) := by
  unfold threadStep at ht
  unfold State.reading at ha
  cases hth : s.thread i with
  | off => simp [hth] at ht
  | sync rest warmup tmpTime read =>
    rw [hth] at h ha
    obtain ⟨hrest, hval, hread⟩ := h
    cases rest with
    | nil =>
      simp only [hth, Option.some.injEq] at ht
      subst ht
      simpa using threadOK_startSync c _ i
    | cons j rest =>
      have hdev : ∀ j ∈ rest, Device c.n j := fun j hj => hrest j (List.mem_cons_of_mem _ hj)
      have hreset : (s.pc 1).hasReset j = true := ha j rfl
      cases read with
      | warm =>
        simp only [hth, Option.some.injEq] at ht
        subst ht
        simp only [State.setThread_thread, Function.update_self]
        split
        · exact ⟨hdev, .inl rfl, fun hr => absurd rfl hr⟩
        · rename_i hne
          exact ⟨hrest, hval, fun _ => ⟨j, rfl, hreset, hne⟩⟩
      | compare =>
        obtain ⟨j', hj', hheldj⟩ := hread nofun
        cases hj'
        simp only [hth, Option.some.injEq] at ht
        subst ht
        simp only [State.setThread_thread, Function.update_self]
        split
        · exact ⟨hrest, hval, fun _ => ⟨j, rfl, hheldj⟩⟩
        · rename_i hle
          refine ⟨hdev, .inr (.inl ?_), fun hr => absurd rfl hr⟩
          rintro rfl
          exact hle (lt_maxTime hheldj.2)
      | take =>
        obtain ⟨j', hj', hheldj⟩ := hread nofun
        cases hj'
        simp only [hth, Option.some.injEq] at ht
        subst ht
        simp only [State.setThread_thread, Function.update_self]
        exact ⟨hdev, .inr (.inl hheldj.2), fun hr => absurd rfl hr⟩

theorem arrived_step (h : Arrived c s) {a : Act} (ha : AfterReset s a)
    (ht : step c s a = some t) : Arrived c t := by
  have hshape := shape_step h.shape ht
  have hheld : ∀ j, Device c.n j → Held s j → Held t j :=
    fun j hd hj => held_step h ha ht hd hj
  have hkeep : ∀ j, ThreadOK c t j (s.thread j) := fun j => (h.threads j).mono hheld
  cases a with
  | main i =>
    simp only [step] at ht
    split at ht
    · by_cases hi : i = 1
      · subst hi
        have hz := main_zc h.shape ht
        refine ⟨hshape, ?_, ?_⟩
        · intro j hd hj
          by_cases hj1 : j = 1
          · subst hj1
            rcases hz.stored hj with hs | hw
            · exact hheld 1 hd (h.live 1 hd hs)
            · exact ⟨Pc.hasReset_of_stored hj 1, hw ▸ zero_ne_maxTime⟩
          · exact hheld j hd (h.live j hd (hz.pc j hj1 ▸ hj))
        · intro j
          rw [hz.thread]
          exact hkeep j
      · obtain ⟨-, hframe, -, -, hstored, hthread⟩ := main_other h.shape hi ht
        refine ⟨hshape, ?_, ?_⟩
        · intro j hd hj
          by_cases hji : j = i
          · subst hji
            rcases hstored hj with hs | ⟨hp, hw⟩
            · exact hheld j hd (h.live j hd hs)
            · exact ⟨(hframe 1 (Ne.symm hi)).2 ▸ ha hp hi, hw ▸ zero_ne_maxTime⟩
          · exact hheld j hd (h.live j hd ((hframe j hji).2 ▸ hj))
        · intro j
          rcases hthread j with heq | heq
          · exact heq ▸ hkeep j
          · exact heq ▸ threadOK_startSync c t j
    · cases ht
  | thread i =>
    simp only [step] at ht
    split at ht
    · obtain ⟨hpc, -, -, -, -, hthread⟩ := thread_moved ht
      refine ⟨hshape, ?_, ?_⟩
      · intro j hd hj
        exact hheld j hd (h.live j hd (hpc ▸ hj))
      · intro j
        by_cases hji : j = i
        · subst hji
          exact threadOK_step (h.threads j) ha ht hheld
        · rw [hthread j hji]
          exact hkeep j
    · cases ht
  | publish | post | receive | forward =>
    simp only [step] at ht
    split at ht
    · cases ht
      exact ⟨hshape, fun j hd hj => hheld j hd (h.live j hd hj), hkeep⟩
    · cases ht

theorem step_zc (c : Config) (s : State) : step c s (.main 1) = mainStep c s 1 := by
  simp only [step, if_pos (show Device c.n 1 from ⟨le_rfl, c.nonempty⟩)]

theorem scan_one {ind : Nat} (hp : s.pc 1 = .scan ind) (hn : ind ≤ c.n)
    (hw : s.word ind ≠ maxTime) :
    ∃ t, step c s (.main 1) = some t ∧ t.word = s.word ∧ t.pc 1 = .scan (ind + 1) ∧
      t.start ind = true ∧ ∀ i, s.start i = true → t.start i = true := by
  rw [step_zc]
  simp only [mainStep, hp, hn, if_true]
  refine ⟨_, rfl, ?_⟩
  cases hs : s.start ind with
  | true => simp [hs]
  | false =>
    simp only [hw, ne_eq, not_false_eq_true, and_self, if_true]
    refine ⟨rfl, by simp, by simp, ?_⟩
    intro i hi
    by_cases hii : i = ind
    · simp [hii]
    · simpa [hii] using hi

theorem scan_pass {k ind : Nat} (hk : c.n + 1 - ind = k) (h : Shape c s)
    (hword : ∀ i, Device c.n i → s.word i ≠ maxTime) (hp : s.pc 1 = .scan ind) :
    ∃ t, Repeats (step c) (.main 1) s t ∧ Shape c t ∧ t.word = s.word ∧ t.pc 1 = .check ∧
      (∀ i, s.start i = true → t.start i = true) ∧
      ∀ i, ind ≤ i → i ≤ c.n → t.start i = true := by
  induction k generalizing s ind with
  | zero =>
    have ht : step c s (.main 1) = some (s.setPc 1 .check) := by
      rw [step_zc]
      simp only [mainStep, hp, if_neg (show ¬ ind ≤ c.n by omega)]
    refine ⟨_, .once ht, shape_step h ht, rfl, by simp, fun _ hi => hi, ?_⟩
    intro i h₁ h₂
    omega
  | succ k ih =>
    have hind : 2 ≤ ind := by
      have := h.bounds
      simpa [hp, Pc.inBounds] using this
    obtain ⟨u, hu, huw, hup, hus, hmono⟩ :=
      scan_one hp (show ind ≤ c.n by omega) (hword ind ⟨by omega, by omega⟩)
    obtain ⟨t, hr, hshape, htw, htp, htmono, hts⟩ :=
      ih (show c.n + 1 - (ind + 1) = k by omega) (shape_step h hu) (huw.symm ▸ hword) hup
    refine ⟨t, .trans (.once hu) hr, hshape, htw.trans huw, htp, ?_, ?_⟩
    · intro i hi
      exact htmono i (hmono i hi)
    · intro i h₁ h₂
      by_cases hi : i = ind
      · exact htmono i (hi ▸ hus)
      · exact hts i (by omega) h₂

theorem check_done (h : Shape c s) (hp : s.pc 1 = .check)
    (hall : ∀ i, 2 ≤ i → i ≤ c.n → s.start i = true) :
    ∃ t, Repeats (step c) (.main 1) s t ∧ t.word 0 = 1 := by
  have hcount : s.count = c.n - 1 := by
    rw [h.count (by simp [hp, Pc.counting]), counted, Finset.filter_true_of_mem, Nat.card_Icc]
    · omega
    · intro i hi
      exact hall i (Finset.mem_Icc.mp hi).1 (Finset.mem_Icc.mp hi).2
  have h₁ : step c s (.main 1) = some (s.setPc 1 .probeOne) := by
    rw [step_zc]
    simp only [mainStep, hp, hcount, lt_irrefl, if_false]
  have h₂ : step c (s.setPc 1 .probeOne) (.main 1) =
      some (((s.setPc 1 .probeOne).setWord 0 1).setPc 1 .returned) := by
    rw [step_zc]
    simp only [mainStep, State.setPc_pc, Function.update_self]
  exact ⟨_, .trans (.once h₁) (.once h₂), by simp⟩

theorem count_completes_check (h : Shape c s) (hp : s.pc 1 = .check)
    (hword : ∀ i, Device c.n i → s.word i ≠ maxTime) :
    ∃ t, Repeats (step c) (.main 1) s t ∧ t.word 0 = 1 := by
  by_cases hc : s.count < c.n - 1
  · have h₁ : step c s (.main 1) = some (s.setPc 1 (.scan 2)) := by
      rw [step_zc]
      simp only [mainStep, hp, hc, if_true]
    obtain ⟨t, hr, hshape, -, htp, -, hts⟩ :=
      scan_pass rfl (shape_step h h₁) hword (show (s.setPc 1 (.scan 2)).pc 1 = .scan 2 by simp)
    obtain ⟨u, hu, hprobe⟩ := check_done hshape htp hts
    exact ⟨u, .trans (.trans (.once h₁) hr) hu, hprobe⟩
  · refine check_done h hp ?_
    intro i h₁ h₂
    exact counted_all h hp (by omega) ⟨by omega, h₂⟩ (by omega)

theorem count_completes (h : Shape c s) (hs : (s.pc 1).stored = true)
    (hword : ∀ i, Device c.n i → s.word i ≠ maxTime) :
    ∃ t, Repeats (step c) (.main 1) s t ∧ t.word 0 = 1 := by
  cases hp : s.pc 1 with
  | dbpInit | routeProcessorInit | sendRecvInit | reset | store =>
    simp [hp, Pc.stored] at hs
  | wait => exact absurd hp h.zc
  | returned => exact ⟨s, .refl s, h.probe.mpr hp⟩
  | check => exact count_completes_check h hp hword
  | probeZero =>
    have h₁ : step c s (.main 1) =
        some (({ s with start := fun _ => false, count := 0 }.setWord 0 0).setPc 1 .check) := by
      rw [step_zc]
      simp only [mainStep, hp]
    obtain ⟨t, hr, hprobe⟩ := count_completes_check (shape_step h h₁) (by simp) (by
      intro i hi
      simpa [show i ≠ 0 from Nat.ne_of_gt hi.1] using hword i hi)
    exact ⟨t, .trans (.once h₁) hr, hprobe⟩
  | scan ind =>
    obtain ⟨u, hr, hshape, huw, hup, -⟩ := scan_pass rfl h hword hp
    obtain ⟨t, hr', hprobe⟩ := count_completes_check hshape hup (huw.symm ▸ hword)
    exact ⟨t, .trans hr hr', hprobe⟩
  | probeOne =>
    have h₁ : step c s (.main 1) = some ((s.setWord 0 1).setPc 1 .returned) := by
      rw [step_zc]
      simp only [mainStep, hp]
    exact ⟨_, .once h₁, by simp⟩

theorem no_lost_arrival (c : Config) (s : State)
    (h : ReachableWhen Init (step c) AfterReset s) :
    (∀ i, Device c.n i → (s.pc i).stored = true → s.word i ≠ maxTime) ∧
      ((∀ i, Device c.n i → (s.pc i).stored = true) →
        ∃ t, Repeats (step c) (.main 1) s t ∧ t.word 0 = 1) := by
  have ha : Arrived c s := by
    refine ReachableWhen.invariant ?_ ?_ h
    · rintro s rfl
      exact arrived_init
    · intro s a t hs hok ht
      exact arrived_step hs hok ht
  refine ⟨fun i hd hs => (ha.live i hd hs).2, ?_⟩
  intro hall
  refine count_completes ha.shape (hall 1 ⟨le_rfl, c.nonempty⟩) ?_
  intro i hd
  exact (ha.live i hd (hall i hd)).2

/-- A coordinator and one end device. -/
def coordinatorAndEndDevice : Config := coordinatorAnd .zed nofun

theorem no_lost_arrival_two :
    ∃ s, ReachableWhen Init (step coordinatorAndEndDevice) AfterReset s ∧ s.pc 2 = .wait ∧
      s.word 2 ≠ maxTime ∧
      ∃ t, Repeats (step coordinatorAndEndDevice) (.main 1) s t ∧ t.word 0 = 1 := by
  obtain ⟨s, hs, hp⟩ := exists_reachableWhen Init (step coordinatorAndEndDevice) AfterReset
    (List.flatten [List.replicate 15 (.main 1), List.replicate 5 (.main 2),
      List.replicate 2 (.main 1)])
    (fun s => s.pc 1 = .probeZero ∧ s.pc 2 = .wait) rfl (by decide +kernel)
  obtain ⟨hp₁, hp₂⟩ : s.pc 1 = .probeZero ∧ s.pc 2 = .wait := by simpa using hp
  obtain ⟨hlive, hdone⟩ := no_lost_arrival coordinatorAndEndDevice s hs
  refine ⟨s, hs, hp₂, hlive 2 (by decide) (by rw [hp₂]; rfl), hdone ?_⟩
  rintro i ⟨h₁, h₂⟩
  have h₂ : i ≤ 2 := h₂
  obtain rfl | rfl : i = 1 ∨ i = 2 := by omega
  · rw [hp₁]
    rfl
  · rw [hp₂]
    rfl

/-- The end device arrives before the coordinator's reset loop, which wipes its start
value out: the coordinator counts to no end. -/
theorem arrival_lost :
    ∃ s, Reachable Init (step coordinatorAndEndDevice) s ∧ s.pc 1 = .check ∧ s.pc 2 = .wait ∧
      s.word 2 = maxTime := by
  obtain ⟨s, hs, hp⟩ := exists_reachable Init (step coordinatorAndEndDevice)
    (List.flatten [List.replicate 5 (.main 2), List.replicate 18 (.main 1)])
    (fun s => s.pc 1 = .check ∧ s.pc 2 = .wait ∧ s.word 2 = maxTime) rfl (by decide +kernel)
  exact ⟨s, hs, by simpa using hp⟩

/-- The router's next step stores the result of `time_sync` into its word. -/
def State.storing (s : State) (i : Nat) : Bool :=
  match s.thread i with
  | .sync [] _ _ _ => true
  | _ => false

/-- No router's thread stores into a word that the coordinator has reset before the
router has completed `m2m_send_recv_init`. -/
def NoEarlyStore (s : State) : Act → Prop
  | .thread i =>
    s.storing i = true → (s.pc 1).hasReset i = true → (s.pc i).completed = true
  | _ => True

instance (s : State) : (a : Act) → Decidable (NoEarlyStore s a)
  | .thread _ => inferInstanceAs (Decidable (_ → _ → _))
  | .main _ | .publish .. | .post .. | .receive .. | .forward .. => inferInstanceAs (Decidable True)

/-- The device has been seen by the coordinator only after `m2m_send_recv_init`. -/
structure Barrier (c : Config) (s : State) : Prop where
  shape : Shape c s
  arrived : ∀ i, Device c.n i → i ≠ 1 → (s.pc 1).hasReset i = true → s.word i ≠ maxTime →
    (s.pc i).completed = true
  counted : ∀ i, Device c.n i → i ≠ 1 → s.start i = true → (s.pc i).completed = true
  closed : s.pc 1 = .probeOne ∨ s.pc 1 = .returned →
    ∀ i, Device c.n i → (s.pc i).completed = true

variable {c : Config} {s t : State}

theorem barrier_init : Barrier c State.init where
  shape := shape_init
  arrived _ _ _ h := by simp [State.init, Pc.hasReset] at h
  counted _ _ _ h := by simp [State.init] at h
  closed h := by simp [State.init] at h

theorem barrier_main_other (h : Barrier c s) {i : Nat} (hi : i ≠ 1) (hshape : Shape c t)
    (ht : mainStep c s i = some t) : Barrier c t := by
  obtain ⟨hstart, hframe, hword, hmono, -, -⟩ := main_other h.shape hi ht
  have hpc1 : t.pc 1 = s.pc 1 := (hframe 1 (Ne.symm hi)).2
  have hcomp : ∀ j, (s.pc j).completed = true → (t.pc j).completed = true := by
    intro j hj
    by_cases hji : j = i
    · subst hji
      exact hmono hj
    · rwa [(hframe j hji).2]
  refine ⟨hshape, ?_, ?_, ?_⟩
  · intro j hd hj hr hw
    rw [hpc1] at hr
    apply hcomp
    by_cases hji : j = i
    · subst hji
      rcases hword with hw' | ⟨hp, -⟩
      · exact h.arrived j hd hj hr (hw' ▸ hw)
      · rw [hp]
        rfl
    · exact h.arrived j hd hj hr ((hframe j hji).1 ▸ hw)
  · intro j hd hj hs
    exact hcomp j (h.counted j hd hj (hstart ▸ hs))
  · rw [hpc1]
    intro hclosed j hd
    exact hcomp j (h.closed hclosed j hd)

theorem barrier_main_zc (h : Barrier c s) (hshape : Shape c t) (ht : mainStep c s 1 = some t) :
    Barrier c t := by
  have hz := main_zc h.shape ht
  refine ⟨hshape, ?_, ?_, ?_⟩
  · intro j hd hj hr hw
    rw [hz.pc j hj]
    rcases hz.reset j hd hr with hr | hmax
    · rcases hz.word j hd.1 with heq | ⟨hj1, -⟩ | hp
      · exact h.arrived j hd hj hr (heq ▸ hw)
      · exact absurd hj1 hj
      · simp [hp, Pc.hasReset] at hr
    · exact absurd hmax hw
  · intro j hd hj hs
    rw [hz.pc j hj]
    rcases hz.start j hs with hs | ⟨hp, hw⟩
    · exact h.counted j hd hj hs
    · exact h.arrived j hd hj (by simp [hp, Pc.hasReset]) hw
  · intro hclosed j hd
    by_cases hj : j = 1
    · subst hj
      rcases hclosed with hp | hp
      · rw [hp]
        rfl
      · rw [hp]
        rfl
    · rw [hz.pc j hj]
      rcases hclosed with hp | hp
      · obtain ⟨hcheck, hcount⟩ := hz.closed hp
        exact h.counted j hd hj (counted_all h.shape hcheck hcount hd hj)
      · exact h.closed (.inl (hz.returned hp)) j hd

theorem Barrier.stay (h : Barrier c s) (hshape : Shape c t) (hpc : t.pc = s.pc)
    (hstart : t.start = s.start)
    (hword : ∀ i, t.word i = s.word i ∨
      ((s.pc 1).hasReset i = true → (s.pc i).completed = true)) : Barrier c t := by
  refine ⟨hshape, ?_, ?_, ?_⟩
  · intro i hd hi hr hw
    rw [hpc] at hr ⊢
    rcases hword i with heq | hcomp
    · exact h.arrived i hd hi hr (heq ▸ hw)
    · exact hcomp hr
  · rw [hpc, hstart]
    exact h.counted
  · rw [hpc]
    exact h.closed

theorem threadStep_word {i : Nat} (ht : threadStep c s i = some t) (hs : s.storing i = false) :
    t.word = s.word := by
  unfold threadStep at ht
  unfold State.storing at hs
  split at ht
  · cases ht
  · rename_i heq
    simp [heq] at hs
  all_goals
    cases ht
    rfl

theorem barrier_step (h : Barrier c s) {a : Act} (ha : NoEarlyStore s a)
    (ht : step c s a = some t) : Barrier c t := by
  have hshape := shape_step h.shape ht
  cases a with
  | main i =>
    simp only [step] at ht
    split at ht
    · by_cases hi : i = 1
      · subst hi
        exact barrier_main_zc h hshape ht
      · exact barrier_main_other h hi hshape ht
    · cases ht
  | thread i =>
    simp only [step] at ht
    split at ht
    · obtain ⟨hpc, hstart, -, -, hword, -⟩ := thread_moved ht
      refine h.stay hshape hpc hstart ?_
      intro j
      by_cases hj : j = i
      · subst hj
        cases hs : s.storing j with
        | true => exact .inr (ha hs)
        | false => exact .inl (congrFun (threadStep_word ht hs) j)
      · exact .inl (hword j hj)
    · cases ht
  | publish i v =>
    simp only [step] at ht
    split at ht
    · rename_i hd
      cases ht
      refine h.stay hshape rfl rfl ?_
      intro j
      by_cases hj : j = i
      · subst hj
        exact .inr (fun _ => by rw [hd.2]; rfl)
      · exact .inl (by simp [hj])
    · cases ht
  | post i j queue =>
    simp only [step] at ht
    split at ht
    · cases ht
      exact h.stay hshape rfl rfl (fun _ => .inl rfl)
    · cases ht
  | receive i queue =>
    simp only [step] at ht
    split at ht
    · cases ht
      exact h.stay hshape rfl rfl (fun _ => .inl rfl)
    · cases ht
  | forward i queue j queue' =>
    simp only [step] at ht
    split at ht
    · cases ht
      exact h.stay hshape rfl rfl (fun _ => .inl rfl)
    · cases ht

/-- While no router's thread arrives for its device, whoever has returned from
`m2m_time_init` finds all queues initialised, and no index reset meets a message. -/
theorem startup_barrier (c : Config) (s : State)
    (h : ReachableWhen Init (step c) NoEarlyStore s) :
    ((∃ i, s.pc i = .returned) → ∀ j, Device c.n j → (s.pc j).completed = true) ∧
      ∀ i queue, Device c.n i → s.pc i = .sendRecvInit queue → s.pending = fun _ _ => 0 := by
  have hb : Barrier c s := by
    refine ReachableWhen.invariant ?_ ?_ h
    · rintro s rfl
      exact barrier_init
    · intro s a t hs ha ht
      exact barrier_step hs ha ht
  have hall : (∃ i, s.pc i = .returned) → ∀ j, Device c.n j → (s.pc j).completed = true := by
    rintro ⟨i, hi⟩
    exact hb.closed (.inr (hb.shape.ret i hi))
  refine ⟨hall, ?_⟩
  intro i queue hd hp
  apply hb.shape.posted
  intro hr
  have := hall ⟨1, hr⟩ i hd
  simp [hp, Pc.completed] at this

/-- A coordinator and one router. -/
def coordinatorAndRouter : Config := coordinatorAnd .zr nofun

theorem startup_barrier_two :
    ∃ s, ReachableWhen Init (step coordinatorAndRouter) NoEarlyStore s ∧ s.pc 2 = .returned ∧
      (s.pc 1).completed = true ∧ (s.pc 2).completed = true := by
  obtain ⟨s, hs, hp⟩ := exists_reachableWhen Init (step coordinatorAndRouter) NoEarlyStore
    (List.flatten [List.replicate 15 (.main 1), List.replicate 12 (.main 2),
      [.thread 2, .thread 2], List.replicate 8 (.main 1), [.main 2]])
    (fun s => s.pc 2 = .returned) rfl (by decide +kernel)
  have hret : s.pc 2 = .returned := by simpa using hp
  have hall := (startup_barrier coordinatorAndRouter s hs).1 ⟨2, hret⟩
  exact ⟨s, hs, hret, hall 1 (by decide), hall 2 (by decide)⟩

/-- The router's thread stores 0 into the word that the coordinator has just reset, and
the coordinator takes it for the router's arrival: it returns and posts a message into a
queue whose indices the router is about to reset. -/
theorem startup_barrier_passed_early :
    ∃ s, Reachable Init (step coordinatorAndRouter) s ∧ s.pc 1 = .returned ∧
      s.pc 2 = .sendRecvInit 0 ∧ s.pending 2 0 = 1 := by
  obtain ⟨s, hs, hp⟩ := exists_reachable Init (step coordinatorAndRouter)
    (List.flatten [List.replicate 15 (.main 1), [.main 2, .main 2, .thread 2, .thread 2],
      List.replicate 8 (.main 1), [.post 1 2 0]])
    (fun s => s.pc 1 = .returned ∧ s.pc 2 = .sendRecvInit 0 ∧ s.pending 2 0 = 1) rfl
    (by decide +kernel)
  exact ⟨s, hs, by simpa using hp⟩

end M2M.Network.Startup
