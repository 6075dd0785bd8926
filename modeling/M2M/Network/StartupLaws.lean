import M2M.Network.Startup
import Mathlib.Data.Finset.Card
import Mathlib.Order.Interval.Finset.Nat

namespace M2M.Network.Startup

open M2M.Lib.Machine

variable {c : Config} {s t : State}

def counted (c : Config) (s : State) : Finset Nat :=
  (Finset.Icc 2 c.n).filter (fun i => s.start i = true)

/-- What holds at every point of every start-up. -/
structure Shape (c : Config) (s : State) : Prop where
  other : ∀ i, i ≠ 1 → (s.pc i).coordinates = false
  zc : s.pc 1 ≠ .wait
  bounds : (s.pc 1).inBounds = true
  probe : s.word 0 = 1 ↔ s.pc 1 = .returned
  ret : ∀ i, s.pc i = .returned → s.pc 1 = .returned
  count : (s.pc 1).counting = true → s.count = (counted c s).card
  posted : s.pc 1 ≠ .returned → s.pending = fun _ _ => 0

theorem shape_init : Shape c State.init where
  other _ _ := rfl
  zc := nofun
  bounds := rfl
  probe := by simp [State.init]
  ret _ h := by simp [State.init] at h
  count h := by simp [State.init, Pc.counting] at h
  posted _ := rfl

namespace Shape

/-- A step of another device than the coordinator: it moves on and writes neither
`action_probe` nor the coordinator's locals. -/
theorem move_other (h : Shape c s) {i : Nat} {p : Pc} (hpc : t.pc = Function.update s.pc i p)
    (hi : i ≠ 1) (hp : p.coordinates = false) (hret : p = .returned → s.pc 1 = .returned)
    (hword : t.word 0 = s.word 0) (hstart : t.start = s.start) (hcount : t.count = s.count)
    (hpend : s.pc 1 ≠ .returned → t.pending = fun _ _ => 0) : Shape c t := by
  have hpc1 : t.pc 1 = s.pc 1 := by rw [hpc, Function.update_of_ne (Ne.symm hi)]
  constructor
  case other =>
    intro j hj
    rw [hpc, Function.update_apply]
    split
    · exact hp
    · exact h.other j hj
  case zc => rw [hpc1]; exact h.zc
  case bounds => rw [hpc1]; exact h.bounds
  case probe => rw [hpc1, hword]; exact h.probe
  case ret =>
    intro j hj
    rw [hpc1]
    rw [hpc, Function.update_apply] at hj
    split at hj
    · exact hret hj
    · exact h.ret j hj
  case count =>
    intro hc
    rw [hpc1] at hc
    simpa only [counted, hstart, hcount] using h.count hc
  case posted => rw [hpc1]; exact hpend

theorem move_zc (h : Shape c s) {p : Pc} (hpc : t.pc = Function.update s.pc 1 p)
    (hs : s.pc 1 ≠ .returned) (hp : p ≠ .wait) (hb : p.inBounds = true)
    (hword : t.word 0 = 1 ↔ p = .returned)
    (hcount : p.counting = true → t.count = (counted c t).card)
    (hpend : t.pending = fun _ _ => 0) : Shape c t := by
  have hpc1 : t.pc 1 = p := by rw [hpc, Function.update_self]
  constructor
  case other =>
    intro j hj
    rw [hpc, Function.update_of_ne hj]
    exact h.other j hj
  case zc => rwa [hpc1]
  case bounds => rwa [hpc1]
  case probe => rwa [hpc1]
  case ret =>
    intro j hj
    by_cases hj1 : j = 1
    · rw [← hj1, hj]
    · rw [hpc, Function.update_of_ne hj1] at hj
      exact absurd (h.ret j hj) hs
  case count => rwa [hpc1]
  case posted => exact fun _ => hpend

theorem stay (h : Shape c s) (hpc : t.pc = s.pc) (hword : t.word 0 = s.word 0)
    (hstart : t.start = s.start) (hcount : t.count = s.count)
    (hpend : s.pc 1 ≠ .returned → t.pending = fun _ _ => 0) : Shape c t where
  other := by rw [hpc]; exact h.other
  zc := by rw [hpc]; exact h.zc
  bounds := by rw [hpc]; exact h.bounds
  probe := by rw [hpc, hword]; exact h.probe
  ret := by rw [hpc]; exact h.ret
  count hc := by
    rw [hpc] at hc
    simpa only [counted, hstart, hcount] using h.count hc
  posted := by rw [hpc]; exact hpend

end Shape

theorem counted_arrive {ind : Nat} (h₂ : 2 ≤ ind) (hn : ind ≤ c.n) (hstart : s.start ind = false) :
    (counted c (s.arrive ind)).card = (counted c s).card + 1 := by
  have hset : counted c (s.arrive ind) = insert ind (counted c s) := by
    ext i
    simp only [counted, State.arrive_start, Finset.mem_filter, Finset.mem_insert, Finset.mem_Icc,
      Function.update_apply]
    by_cases hi : i = ind
    · simp [hi, h₂, hn]
    · simp [hi]
  rw [hset, Finset.card_insert_of_notMem (by simp [counted, hstart])]

theorem counted_all (h : Shape c s) (hp : s.pc 1 = .check) (hc : c.n - 1 ≤ s.count) {i : Nat}
    (hd : Device c.n i) (hi : i ≠ 1) : s.start i = true := by
  have hcard : s.count = (counted c s).card := h.count (by simp [hp, Pc.counting])
  have hsub : counted c s ⊆ Finset.Icc 2 c.n := Finset.filter_subset _ _
  have hall : counted c s = Finset.Icc 2 c.n := by
    refine Finset.eq_of_subset_of_card_le hsub ?_
    rw [Nat.card_Icc]
    omega
  have hmem : i ∈ counted c s := by
    rw [hall, Finset.mem_Icc]
    have := hd.1
    exact ⟨by omega, hd.2⟩
  exact (Finset.mem_filter.mp hmem).2

theorem type_of_ne {i : Nat} (hi : i ≠ 1) : c.type i ≠ .zc := by
  rwa [Ne, c.coordinator]

theorem shape_main_other (h : Shape c s) {i : Nat} (hd : Device c.n i) (hi : i ≠ 1)
    (ht : mainStep c s i = some t) : Shape c t := by
  have hi0 : i ≠ 0 := Nat.ne_of_gt hd.1
  have hnot := h.other i hi
  unfold mainStep at ht
  cases hp : s.pc i with
  | reset | probeZero | check | scan | probeOne => simp [hp, Pc.coordinates] at hnot
  | dbpInit =>
    simp only [hp, Option.some.injEq] at ht
    subst ht
    exact h.move_other rfl hi rfl nofun rfl rfl rfl h.posted
  | routeProcessorInit =>
    simp only [hp, Option.some.injEq] at ht
    subst ht
    split
    · exact h.move_other rfl hi rfl nofun rfl rfl rfl h.posted
    · exact h.move_other rfl hi rfl nofun rfl rfl rfl h.posted
  | sendRecvInit queue =>
    simp only [hp] at ht
    split at ht
    · cases ht
      exact h.move_other rfl hi rfl nofun rfl rfl rfl
        (fun hr => State.setPending_zero s (h.posted hr))
    · rw [if_neg (type_of_ne hi)] at ht
      cases ht
      exact h.move_other rfl hi rfl nofun rfl rfl rfl h.posted
  | store =>
    simp only [hp, Option.some.injEq] at ht
    rw [if_neg (type_of_ne hi)] at ht
    subst ht
    exact h.move_other rfl hi rfl nofun (by simp [Function.update_of_ne (Ne.symm hi0)]) rfl rfl
      h.posted
  | wait =>
    simp only [hp] at ht
    split at ht
    · rename_i hprobe
      cases ht
      exact h.move_other rfl hi rfl (fun _ => h.probe.mp hprobe) rfl rfl rfl h.posted
    · cases ht
  | returned => simp [hp] at ht

theorem shape_main_zc (h : Shape c s) (ht : mainStep c s 1 = some t) : Shape c t := by
  have htype : c.type 1 = .zc := (c.coordinator 1).mpr rfl
  have hbounds := h.bounds
  unfold mainStep at ht
  cases hp : s.pc 1 with
  | wait => exact absurd hp h.zc
  | returned => simp [hp] at ht
  | dbpInit =>
    have hr : s.pc 1 ≠ .returned := by simp [hp]
    simp only [hp, Option.some.injEq] at ht
    subst ht
    exact h.move_zc rfl hr nofun rfl (by simp [h.probe, hp]) nofun (h.posted hr)
  | routeProcessorInit =>
    have hr : s.pc 1 ≠ .returned := by simp [hp]
    simp only [hp, htype, reduceCtorEq, if_false, Option.some.injEq] at ht
    subst ht
    exact h.move_zc rfl hr nofun rfl (by simp [h.probe, hp]) nofun (h.posted hr)
  | sendRecvInit queue =>
    have hr : s.pc 1 ≠ .returned := by simp [hp]
    simp only [hp] at ht
    split at ht
    · cases ht
      exact h.move_zc rfl hr nofun rfl (by simp [h.probe, hp]) nofun
        (State.setPending_zero s (h.posted hr))
    · cases ht
      exact h.move_zc rfl hr nofun rfl (by simp [h.probe, hp]) nofun (h.posted hr)
  | reset ind =>
    have hr : s.pc 1 ≠ .returned := by simp [hp]
    simp only [hp, Pc.inBounds, decide_eq_true_eq] at hbounds
    simp only [hp] at ht
    split at ht
    · cases ht
      refine h.move_zc rfl hr nofun (by simp [Pc.inBounds]) ?_ nofun (h.posted hr)
      simp [Function.update_of_ne (show 0 ≠ ind by omega), h.probe, hp]
    · cases ht
      exact h.move_zc rfl hr nofun rfl (by simp [h.probe, hp]) nofun (h.posted hr)
  | store =>
    have hr : s.pc 1 ≠ .returned := by simp [hp]
    simp only [hp, htype, if_true, Option.some.injEq] at ht
    subst ht
    exact h.move_zc rfl hr nofun rfl (by simp [h.probe, hp]) nofun (h.posted hr)
  | probeZero =>
    have hr : s.pc 1 ≠ .returned := by simp [hp]
    simp only [hp, Option.some.injEq] at ht
    subst ht
    exact h.move_zc rfl hr nofun rfl (by simp) (fun _ => by simp [counted]) (h.posted hr)
  | check =>
    have hr : s.pc 1 ≠ .returned := by simp [hp]
    have hcount := h.count (by simp [hp, Pc.counting])
    simp only [hp, Option.some.injEq] at ht
    subst ht
    split
    · exact h.move_zc rfl hr nofun rfl (by simp [h.probe, hp]) (fun _ => hcount) (h.posted hr)
    · exact h.move_zc rfl hr nofun rfl (by simp [h.probe, hp]) (fun _ => hcount) (h.posted hr)
  | scan ind =>
    have hr : s.pc 1 ≠ .returned := by simp [hp]
    have hcount := h.count (by simp [hp, Pc.counting])
    simp only [hp, Pc.inBounds, decide_eq_true_eq] at hbounds
    simp only [hp] at ht
    split at ht
    · rename_i hn
      cases ht
      split
      · rename_i hnew
        refine h.move_zc rfl hr nofun (by simp [Pc.inBounds]; omega) (by simp [h.probe, hp]) ?_
          (h.posted hr)
        intro _
        exact (congrArg (· + 1) hcount).trans (counted_arrive hbounds hn hnew.1).symm
      · exact h.move_zc rfl hr nofun (by simp [Pc.inBounds]; omega) (by simp [h.probe, hp])
          (fun _ => hcount) (h.posted hr)
    · cases ht
      exact h.move_zc rfl hr nofun rfl (by simp [h.probe, hp]) (fun _ => hcount) (h.posted hr)
  | probeOne =>
    have hr : s.pc 1 ≠ .returned := by simp [hp]
    simp only [hp, Option.some.injEq] at ht
    subst ht
    exact h.move_zc rfl hr nofun rfl (by simp) nofun (h.posted hr)

/-- What a main thread other than the coordinator's can do. -/
structure OtherMoved (c : Config) (s t : State) (i : Nat) : Prop where
  start : t.start = s.start
  frame : ∀ j, j ≠ i → t.word j = s.word j ∧ t.pc j = s.pc j
  word : t.word i = s.word i ∨ s.pc i = .store ∧ t.word i = 0
  completed : (s.pc i).completed = true → (t.pc i).completed = true
  stored : (t.pc i).stored = true → (s.pc i).stored = true ∨ s.pc i = .store ∧ t.word i = 0
  thread : ∀ j, t.thread j = s.thread j ∨ t.thread j = c.startSync j

theorem main_other (h : Shape c s) {i : Nat} (hi : i ≠ 1) (ht : mainStep c s i = some t) :
    OtherMoved c s t i := by
  have hnot := h.other i hi
  unfold mainStep at ht
  cases hp : s.pc i with
  | reset | probeZero | check | scan | probeOne => simp [hp, Pc.coordinates] at hnot
  | returned => simp [hp] at ht
  | dbpInit =>
    simp only [hp, Option.some.injEq] at ht
    subst ht
    constructor <;> simp +contextual [hp, Pc.completed, Pc.stored]
  | routeProcessorInit =>
    simp only [hp, Option.some.injEq] at ht
    subst ht
    split
    · constructor
      case thread =>
        intro j
        by_cases hj : j = i
        · simp [hj]
        · simp [hj]
      all_goals simp +contextual [hp, Pc.completed, Pc.stored]
    · constructor <;> simp +contextual [hp, Pc.completed, Pc.stored]
  | sendRecvInit queue =>
    simp only [hp] at ht
    split at ht
    · cases ht
      constructor <;> simp +contextual [hp, Pc.completed, Pc.stored]
    · rw [if_neg (type_of_ne hi)] at ht
      cases ht
      constructor <;> simp +contextual [hp, Pc.completed, Pc.stored]
  | store =>
    simp only [hp, Option.some.injEq] at ht
    rw [if_neg (type_of_ne hi)] at ht
    subst ht
    constructor <;> simp +contextual [hp, Pc.completed, Pc.stored]
  | wait =>
    simp only [hp] at ht
    split at ht
    · cases ht
      constructor <;> simp +contextual [hp, Pc.completed, Pc.stored]
    · cases ht

/-- What the coordinator's main thread can do. -/
structure ZcMoved (c : Config) (s t : State) : Prop where
  pc : ∀ j, j ≠ 1 → t.pc j = s.pc j
  thread : t.thread = s.thread
  word : ∀ j, 1 ≤ j → t.word j = s.word j ∨ j = 1 ∧ t.word j = 0 ∨ s.pc 1 = .reset j
  mono : ∀ j, (s.pc 1).hasReset j = true → (t.pc 1).hasReset j = true
  reset : ∀ j, Device c.n j → (t.pc 1).hasReset j = true →
    (s.pc 1).hasReset j = true ∨ t.word j = maxTime
  start : ∀ j, t.start j = true →
    s.start j = true ∨ s.pc 1 = .scan j ∧ s.word j ≠ maxTime
  stored : (t.pc 1).stored = true → (s.pc 1).stored = true ∨ t.word 1 = 0
  closed : t.pc 1 = .probeOne → s.pc 1 = .check ∧ c.n - 1 ≤ s.count
  returned : t.pc 1 = .returned → s.pc 1 = .probeOne

theorem main_zc (h : Shape c s) (ht : mainStep c s 1 = some t) : ZcMoved c s t := by
  have htype : c.type 1 = .zc := (c.coordinator 1).mpr rfl
  unfold mainStep at ht
  cases hp : s.pc 1 with
  | wait => exact absurd hp h.zc
  | returned => simp [hp] at ht
  | dbpInit =>
    simp only [hp, Option.some.injEq] at ht
    subst ht
    constructor <;> simp +contextual [hp, Pc.hasReset, Pc.stored]
  | routeProcessorInit =>
    simp only [hp, htype, reduceCtorEq, if_false, Option.some.injEq] at ht
    subst ht
    constructor <;> simp +contextual [hp, Pc.hasReset, Pc.stored]
  | sendRecvInit queue =>
    simp only [hp] at ht
    split at ht
    · cases ht
      constructor <;> simp +contextual [hp, Pc.hasReset, Pc.stored]
    · cases ht
      constructor
      case reset =>
        intro j hj hr
        have := hj.1
        simp [Pc.hasReset] at hr
        omega
      all_goals simp +contextual [hp, Pc.hasReset, Pc.stored]
  | reset ind =>
    simp only [hp] at ht
    split at ht
    · cases ht
      constructor
      case word =>
        intro j _
        by_cases hj : j = ind
        · exact .inr (.inr (hj ▸ hp))
        · exact .inl (by simp [hj])
      case mono =>
        intro j hj
        simp only [hp, Pc.hasReset, decide_eq_true_eq] at hj
        simp only [State.setPc_pc, Function.update_self, Pc.hasReset, decide_eq_true_eq]
        omega
      case reset =>
        intro j _ hr
        simp only [State.setPc_pc, Function.update_self, Pc.hasReset, decide_eq_true_eq] at hr
        by_cases hj : j = ind
        · exact .inr (by simp [hj])
        · exact .inl (by simp only [hp, Pc.hasReset, decide_eq_true_eq]; omega)
      all_goals simp +contextual [hp, Pc.stored]
    · rename_i hind
      cases ht
      constructor
      case reset =>
        intro j hj _
        have := hj.2
        exact .inl (by simp only [hp, Pc.hasReset, decide_eq_true_eq]; omega)
      all_goals simp +contextual [hp, Pc.hasReset, Pc.stored]
  | store =>
    simp only [hp, htype, if_true, Option.some.injEq] at ht
    subst ht
    constructor
    case word =>
      intro j _
      by_cases hj : j = 1
      · exact .inr (.inl ⟨hj, by simp [hj]⟩)
      · exact .inl (by simp [hj])
    all_goals simp +contextual [hp, Pc.hasReset, Pc.stored]
  | probeZero =>
    simp only [hp, Option.some.injEq] at ht
    subst ht
    constructor
    case word =>
      intro j hj
      exact .inl (by simp [show j ≠ 0 by omega])
    all_goals simp +contextual [hp, Pc.hasReset, Pc.stored]
  | check =>
    simp only [hp, Option.some.injEq] at ht
    subst ht
    split
    · constructor <;> simp +contextual [hp, Pc.hasReset, Pc.stored]
    · rename_i hcount
      constructor
      case closed => exact fun _ => ⟨hp, by omega⟩
      all_goals simp +contextual [hp, Pc.hasReset, Pc.stored]
  | scan ind =>
    simp only [hp] at ht
    split at ht
    · cases ht
      split
      · rename_i hnew
        constructor
        case start =>
          intro j hj
          by_cases hji : j = ind
          · exact .inr ⟨hji ▸ hp, hji ▸ hnew.2⟩
          · exact .inl (by simpa [hji] using hj)
        all_goals simp +contextual [hp, Pc.hasReset, Pc.stored]
      · constructor <;> simp +contextual [hp, Pc.hasReset, Pc.stored]
    · cases ht
      constructor <;> simp +contextual [hp, Pc.hasReset, Pc.stored]
  | probeOne =>
    simp only [hp, Option.some.injEq] at ht
    subst ht
    constructor
    case word =>
      intro j hj
      exact .inl (by simp [show j ≠ 0 by omega])
    all_goals simp +contextual [hp, Pc.hasReset, Pc.stored]

/-- A router's thread moves itself and writes at most its own word. -/
structure ThreadMoved (s t : State) (i : Nat) : Prop where
  pc : t.pc = s.pc
  start : t.start = s.start
  count : t.count = s.count
  pending : t.pending = s.pending
  word : ∀ j, j ≠ i → t.word j = s.word j
  thread : ∀ j, j ≠ i → t.thread j = s.thread j

theorem thread_moved {i : Nat} (ht : threadStep c s i = some t) : ThreadMoved s t i := by
  unfold threadStep at ht
  split at ht
  · cases ht
  all_goals
    cases ht
    refine ⟨rfl, rfl, rfl, rfl, ?_, ?_⟩
    · intro j hj
      simp [hj]
    · intro j hj
      simp [hj]

theorem shape_step (h : Shape c s) {a : Act} (ht : step c s a = some t) : Shape c t := by
  cases a with
  | main i =>
    simp only [step] at ht
    split at ht
    · rename_i hd
      by_cases hi : i = 1
      · subst hi
        exact shape_main_zc h ht
      · exact shape_main_other h hd hi ht
    · cases ht
  | thread i =>
    simp only [step] at ht
    split at ht
    · rename_i hd
      obtain ⟨hpc, hstart, hcount, hpend, hword, -⟩ := thread_moved ht
      refine h.stay hpc (hword 0 ?_) hstart hcount ?_
      · exact (Nat.ne_of_gt hd.1).symm
      · rw [hpend]
        exact h.posted
    · cases ht
  | publish i v =>
    simp only [step] at ht
    split at ht
    · rename_i hd
      cases ht
      refine h.stay rfl ?_ rfl rfl h.posted
      simp [Function.update_of_ne (Nat.ne_of_gt hd.1.1).symm]
    · cases ht
  | post i j queue =>
    simp only [step] at ht
    split at ht
    · rename_i hd
      cases ht
      exact h.stay rfl rfl rfl rfl (fun hr => absurd (h.ret i hd.2.1) hr)
    · cases ht
  | receive i queue =>
    simp only [step] at ht
    split at ht
    · rename_i hd
      cases ht
      exact h.stay rfl rfl rfl rfl (fun hr => absurd (h.ret i hd.2.1) hr)
    · cases ht
  | forward i queue j queue' =>
    simp only [step] at ht
    split at ht
    · rename_i hpos
      cases ht
      refine h.stay rfl rfl rfl rfl ?_
      intro hr
      simp [h.posted hr] at hpos
    · cases ht

end M2M.Network.Startup
