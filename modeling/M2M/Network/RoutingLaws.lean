import M2M.Lib.Steps
import M2M.Network.Routing
import Mathlib.Data.Finset.Basic
import Mathlib.Data.Finset.Card
import Mathlib.Order.Interval.Finset.Nat
import Mathlib.Tactic.IntervalCases

namespace M2M.Network.Routing

open M2M.Lib M2M.Lib.Loop

def Link (nodeMap : Nat → Nat → Nat) (n a b : Nat) : Prop :=
  Device n a ∧ Device n b ∧ nodeMap a b ≠ 0

instance (nodeMap : Nat → Nat → Nat) (n a b : Nat) : Decidable (Link nodeMap n a b) :=
  inferInstanceAs (Decidable (_ ∧ _ ∧ _))

variable {nodeMap : Nat → Nat → Nat} {n src : Nat}

theorem initLoop_eq (n : Nat) (s : Search) (i : Nat) (hi : Device n i) :
    (initLoop n s).d i = maxSize ∧ (initLoop n s).prev i = -1 ∧
      (initLoop n s).visited i = false := by
  unfold initLoop
  induction n with
  | zero => exact absurd hi not_device_zero
  | succ n ih =>
    simp only [forUpTo, Function.update_apply]
    rcases device_succ.mp hi with rfl | hi
    · simp
    · have hne : i ≠ n + 1 := by
        have := hi.2
        omega
      simpa only [hne, if_false] using ih hi

theorem findMini_spec (n : Nat) (s : Search) :
    (findMini n s = none → ∀ i, Device n i → s.visited i = true) ∧
    (∀ m, findMini n s = some m →
      Device n m ∧ s.visited m = false ∧ ∀ i, Device n i → s.visited i = false →
        s.d m ≤ s.d i) := by
  unfold findMini
  refine forUpTo_induct (fun n mini =>
    (mini = none → ∀ i, Device n i → s.visited i = true) ∧
    (∀ m, mini = some m → Device n m ∧ s.visited m = false ∧
      ∀ i, Device n i → s.visited i = false → s.d m ≤ s.d i)) ?_ ?_
  · exact ⟨fun _ i hi => absurd hi not_device_zero, nofun⟩
  · intro k mini _ ih
    split
    · rename_i hc
      refine ⟨nofun, ?_⟩
      rintro m ⟨⟩
      refine ⟨⟨by omega, le_rfl⟩, hc.1, ?_⟩
      intro i hi hv
      rcases device_succ.mp hi with rfl | hi
      · exact le_rfl
      · cases hm : mini with
        | none => simp [ih.1 hm i hi] at hv
        | some m =>
          have h₁ := hc.2 m hm
          have h₂ := (ih.2 m hm).2.2 i hi hv
          omega
    · rename_i hc
      constructor
      · intro hm i hi
        rcases device_succ.mp hi with rfl | hi
        · by_contra hv
          exact hc ⟨by simpa using hv, by simp [hm]⟩
        · exact ih.1 hm i hi
      · intro m hm
        obtain ⟨hd, hv, hle⟩ := ih.2 m hm
        refine ⟨⟨hd.1, by have := hd.2; omega⟩, hv, ?_⟩
        intro i hi hvi
        rcases device_succ.mp hi with rfl | hi
        · by_contra hlt
          apply hc
          refine ⟨hvi, ?_⟩
          intro m' hm'
          rw [hm, Option.mem_some_iff] at hm'
          subst hm'
          omega
        · exact hle i hi hvi

/-- The inner loop shortens the path to `i` through `mini`. -/
def Relaxes (nodeMap : Nat → Nat → Nat) (mini : Nat) (s : Search) (i : Nat) : Prop :=
  nodeMap mini i ≠ 0 ∧ s.d mini + nodeMap mini i < s.d i

instance (mini : Nat) (s : Search) (i : Nat) : Decidable (Relaxes nodeMap mini s i) :=
  inferInstanceAs (Decidable (_ ∧ _))

theorem relaxOne_eq (mini j : Nat) (s : Search) :
    (∀ i, (relaxOne nodeMap mini j s).d i =
      if i = j ∧ Relaxes nodeMap mini s j then s.d mini + nodeMap mini j else s.d i) ∧
    (∀ i, (relaxOne nodeMap mini j s).prev i =
      if i = j ∧ Relaxes nodeMap mini s j then (mini : Int) else s.prev i) ∧
    (relaxOne nodeMap mini j s).visited = s.visited := by
  unfold relaxOne Relaxes
  by_cases h₁ : nodeMap mini j = 0
  · simp [h₁]
  · by_cases h₂ : s.d mini + nodeMap mini j < s.d j
    · simp [h₁, h₂, Function.update_apply]
    · simp [h₁, h₂]

theorem relax_eq (mini m : Nat) (s : Search) :
    (∀ i, (forUpTo (relaxOne nodeMap mini) s m).d i =
      if Device m i ∧ Relaxes nodeMap mini s i then s.d mini + nodeMap mini i else s.d i) ∧
    (∀ i, (forUpTo (relaxOne nodeMap mini) s m).prev i =
      if Device m i ∧ Relaxes nodeMap mini s i then (mini : Int) else s.prev i) ∧
    (forUpTo (relaxOne nodeMap mini) s m).visited = s.visited := by
  induction m with
  | zero => simp [forUpTo, not_device_zero]
  | succ m ih =>
    obtain ⟨hd, hp, hv⟩ := ih
    obtain ⟨hd', hp', hv'⟩ := relaxOne_eq mini (m + 1) (forUpTo (relaxOne nodeMap mini) s m)
    have hmini : (forUpTo (relaxOne nodeMap mini) s m).d mini = s.d mini := by
      rw [hd, if_neg]
      rintro ⟨-, hr⟩
      simp only [Relaxes] at hr
      omega
    have hlast : (forUpTo (relaxOne nodeMap mini) s m).d (m + 1) = s.d (m + 1) := by
      rw [hd, if_neg]
      rintro ⟨hdev, -⟩
      simp only [Device] at hdev
      omega
    have hrel : Relaxes nodeMap mini (forUpTo (relaxOne nodeMap mini) s m) (m + 1) ↔
        Relaxes nodeMap mini s (m + 1) := by
      simp only [Relaxes, hmini, hlast]
    have hnot : ¬ Device m (m + 1) := by
      simp only [Device]
      omega
    simp only [forUpTo]
    refine ⟨?_, ?_, hv'.trans hv⟩
    · intro i
      simp only [hd', hmini, hrel]
      by_cases hi : i = m + 1
      · subst hi
        simp [device_succ, hlast]
      · simp [device_succ, hi, hd]
    · intro i
      simp only [hp', hrel]
      by_cases hi : i = m + 1
      · subst hi
        simp [device_succ, hp, hnot]
      · simp [device_succ, hi, hp]

theorem round_eq (hbin : ∀ a b, nodeMap a b ≤ 1) {s : Search} {m : Nat}
    (hm : findMini n s = some m) :
    (∀ i, Device n i → (round nodeMap n s).d i =
      if Link nodeMap n m i ∧ s.d m + 1 < s.d i then s.d m + 1 else s.d i) ∧
    (∀ i, Device n i → (round nodeMap n s).prev i =
      if Link nodeMap n m i ∧ s.d m + 1 < s.d i then (m : Int) else s.prev i) ∧
    (round nodeMap n s).visited = Function.update s.visited m true := by
  obtain ⟨hd, hp, hv⟩ := @relax_eq nodeMap m n
    { s with visited := Function.update s.visited m true }
  have hdm : Device n m := ((findMini_spec n s).2 m hm).1
  have hcond : ∀ i, Device n i → (Device n i ∧ Relaxes nodeMap m
      { s with visited := Function.update s.visited m true } i ↔
        Link nodeMap n m i ∧ s.d m + 1 < s.d i) := by
    intro i hi
    have := hbin m i
    simp only [Relaxes, Link, hi, hdm, true_and]
    constructor
    · rintro ⟨h₁, h₂⟩
      exact ⟨h₁, by omega⟩
    · rintro ⟨h₁, h₂⟩
      exact ⟨h₁, by omega⟩
  unfold round
  simp only [hm]
  refine ⟨?_, ?_, hv⟩
  · intro i hi
    rw [hd]
    by_cases hc : Link nodeMap n m i ∧ s.d m + 1 < s.d i
    · rw [if_pos hc, if_pos ((hcond i hi).mpr hc)]
      have := hbin m i
      have := hc.1.2.2
      simp only
      omega
    · rw [if_neg hc, if_neg (fun h => hc ((hcond i hi).mp h))]
  · intro i hi
    rw [hp]
    by_cases hc : Link nodeMap n m i ∧ s.d m + 1 < s.d i
    · rw [if_pos hc, if_pos ((hcond i hi).mpr hc)]
    · rw [if_neg hc, if_neg (fun h => hc ((hcond i hi).mp h))]

/-- The labels of a search from `src`: every finite label is the length of a walk, visited
devices have passed their label on to their neighbours and lie below the others. -/
structure Labelled (nodeMap : Nat → Nat → Nat) (n src : Nat) (s : Search) : Prop where
  le_max : ∀ i, Device n i → s.d i ≤ maxSize
  d_src : s.d src = 0
  prev_src : s.prev src = -1
  walk : ∀ i, Device n i → s.d i < maxSize → Steps (Link nodeMap n) (s.d i) src i
  relaxed : ∀ u v, s.visited u = true → Link nodeMap n u v → s.d v ≤ s.d u + 1
  frontier : ∀ u v, Device n u → Device n v → s.visited u = true → s.visited v = false →
    s.d u ≤ s.d v
  parent : ∀ i, Device n i → i ≠ src → s.d i < maxSize →
    ∃ p : Nat, s.prev i = p ∧ Link nodeMap n p i ∧ s.visited p = true ∧ s.d i = s.d p + 1

theorem labelled_init (hsrc : Device n src) (s : Search) :
    Labelled nodeMap n src
      { initLoop n s with d := Function.update (initLoop n s).d src 0 } := by
  have hd : ∀ i, Device n i →
      Function.update (initLoop n s).d src 0 i = if i = src then 0 else maxSize := by
    intro i hi
    simp only [Function.update_apply, (initLoop_eq n s i hi).1]
  have hv : ∀ i, Device n i → (initLoop n s).visited i = false :=
    fun i hi => (initLoop_eq n s i hi).2.2
  constructor
  case le_max =>
    intro i hi
    simp only [hd i hi]
    split <;> omega
  case d_src => simp
  case prev_src => exact (initLoop_eq n s src hsrc).2.1
  case walk =>
    intro i hi hlt
    simp only [hd i hi] at hlt ⊢
    split at hlt
    · rename_i h
      subst h
      simpa using Steps.refl
    · omega
  case relaxed =>
    intro u v hu hl
    simp [hv u hl.1] at hu
  case frontier =>
    intro u v hu _ hvis
    simp [hv u hu] at hvis
  case parent =>
    intro i hi hne hlt
    simp only [hd i hi, hne, if_false] at hlt
    omega

theorem round_d_of_le (hbin : ∀ a b, nodeMap a b ≤ 1) {s : Search} {m u : Nat}
    (hm : findMini n s = some m) (hu : Device n u) (hle : s.d u ≤ s.d m) :
    (round nodeMap n s).d u = s.d u := by
  rw [(round_eq hbin hm).1 u hu, if_neg]
  rintro ⟨-, h⟩
  omega

theorem Labelled.round (hbin : ∀ a b, nodeMap a b ≤ 1) (hsrc : Device n src) {s : Search}
    (h : Labelled nodeMap n src s) : Labelled nodeMap n src (round nodeMap n s) := by
  cases hm : findMini n s with
  | none =>
    unfold Routing.round
    simpa only [hm] using h
  | some m =>
    obtain ⟨hdm, hvm, hmin⟩ := (findMini_spec n s).2 m hm
    obtain ⟨hd, hp, hv⟩ := round_eq hbin hm
    have hlow : ∀ u, Device n u → s.visited u = true → s.d u ≤ s.d m :=
      fun u hu hvis => h.frontier u m hu hdm hvis hvm
    have hvis : ∀ u, (Routing.round nodeMap n s).visited u = true →
        u = m ∨ s.visited u = true := by
      intro u hu
      rw [hv, Function.update_apply] at hu
      split at hu
      · exact .inl ‹_›
      · exact .inr hu
    have hkeep : ∀ u, Device n u → (Routing.round nodeMap n s).visited u = true →
        s.d u ≤ s.d m ∧ (Routing.round nodeMap n s).d u = s.d u := by
      intro u hu huv
      have hle : s.d u ≤ s.d m := by
        rcases hvis u huv with rfl | huv
        · exact le_rfl
        · exact hlow u hu huv
      exact ⟨hle, round_d_of_le hbin hm hu hle⟩
    constructor
    case le_max =>
      intro i hi
      have := h.le_max i hi
      rw [hd i hi]
      split <;> omega
    case d_src =>
      rw [round_d_of_le hbin hm hsrc (by rw [h.d_src]; omega), h.d_src]
    case prev_src =>
      rw [hp src hsrc, if_neg, h.prev_src]
      rintro ⟨-, hlt⟩
      have := h.d_src
      omega
    case walk =>
      intro i hi hlt
      rw [hd i hi] at hlt ⊢
      split at hlt
      · rename_i hc
        rw [if_pos hc]
        exact .snoc (h.walk m hdm (by omega)) hc.1
      · rename_i hc
        rw [if_neg hc]
        exact h.walk i hi hlt
    case relaxed =>
      intro u v hu hl
      have hdu := (hkeep u hl.1 hu).2
      rw [hdu, hd v hl.2.1]
      rcases hvis u hu with rfl | hu'
      · split
        · exact le_rfl
        · rename_i hc
          by_contra hlt
          exact hc ⟨hl, by omega⟩
      · have h₁ := h.relaxed u v hu' hl
        split <;> omega
    case frontier =>
      intro u v hu hv' huv hvv
      have hvv' : s.visited v = false := by
        rw [hv, Function.update_apply] at hvv
        split at hvv
        · cases hvv
        · exact hvv
      have hle := hmin v hv' hvv'
      obtain ⟨hum, hdu⟩ := hkeep u hu huv
      rw [hdu, hd v hv']
      split <;> omega
    case parent =>
      intro i hi hne hlt
      rw [hd i hi] at hlt ⊢
      rw [hp i hi]
      split at hlt
      · rename_i hc
        rw [if_pos hc, if_pos hc]
        have hvis' : (Routing.round nodeMap n s).visited m = true := by simp [hv]
        exact ⟨m, rfl, hc.1, hvis', by rw [(hkeep m hdm hvis').2]⟩
      · rename_i hc
        rw [if_neg hc, if_neg hc]
        obtain ⟨p, hpi, hpl, hpv, hpd⟩ := h.parent i hi hne hlt
        have hvis' : (Routing.round nodeMap n s).visited p = true := by
          rw [hv, Function.update_apply]
          split
          · rfl
          · exact hpv
        exact ⟨p, hpi, hpl, hvis', by rw [(hkeep p hpl.1 hvis').2, hpd]⟩

def visitedSet (n : Nat) (s : Search) : Finset Nat :=
  (Finset.Icc 1 n).filter (fun i => s.visited i = true)

theorem visitedSet_subset (s : Search) : visitedSet n s ⊆ Finset.Icc 1 n :=
  Finset.filter_subset _ _

theorem round_card (hbin : ∀ a b, nodeMap a b ≤ 1) {s : Search} {k : Nat} (hk : k < n)
    (h : k ≤ (visitedSet n s).card) : k + 1 ≤ (visitedSet n (round nodeMap n s)).card := by
  cases hm : findMini n s with
  | none =>
    have hall : visitedSet n s = Finset.Icc 1 n := by
      refine Finset.filter_true_of_mem ?_
      intro i hi
      exact (findMini_spec n s).1 hm i (Finset.mem_Icc.mp hi)
    have hround : round nodeMap n s = s := by
      unfold round
      rw [hm]
    rw [hround, hall, Nat.card_Icc]
    omega
  | some m =>
    obtain ⟨hdm, hvm, -⟩ := (findMini_spec n s).2 m hm
    have hset : visitedSet n (round nodeMap n s) = insert m (visitedSet n s) := by
      ext i
      simp only [visitedSet, Finset.mem_filter, Finset.mem_insert, Finset.mem_Icc,
        (round_eq hbin hm).2.2, Function.update_apply]
      by_cases hi : i = m
      · subst hi
        simp [hdm.1, hdm.2]
      · simp [hi]
    have hnew : m ∉ visitedSet n s := by simp [visitedSet, hvm]
    rw [hset, Finset.card_insert_of_notMem hnew]
    omega

theorem visited_of_card {s : Search} (h : n ≤ (visitedSet n s).card) (i : Nat)
    (hi : Device n i) : s.visited i = true := by
  have heq : visitedSet n s = Finset.Icc 1 n := by
    refine Finset.eq_of_subset_of_card_le (visitedSet_subset s) ?_
    rw [Nat.card_Icc]
    omega
  have hmem : i ∈ visitedSet n s := heq ▸ Finset.mem_Icc.mpr hi
  exact (Finset.mem_filter.mp hmem).2

theorem Labelled.d_le {s : Search} (h : Labelled nodeMap n src s)
    (hall : ∀ i, Device n i → s.visited i = true) {k i : Nat}
    (hs : Steps (Link nodeMap n) k src i) : s.d i ≤ k := by
  induction hs with
  | refl => exact h.d_src.le
  | snoc _ hl ih =>
    have h₁ := h.relaxed _ _ (hall _ hl.1) hl
    have h₂ := ih h
    omega

/-- The shortest-path tree that the globals hold after a search from `src`. -/
structure Tree (nodeMap : Nat → Nat → Nat) (n src : Nat) (prev : Nat → Int) : Prop where
  root : prev src = -1
  parent : ∀ i k, IsDist (Link nodeMap n) src i (k + 1) → k + 1 < maxSize →
    ∃ p : Nat, prev i = p ∧ Link nodeMap n p i ∧ IsDist (Link nodeMap n) src p k

theorem Labelled.isDist {s : Search} (h : Labelled nodeMap n src s)
    (hall : ∀ i, Device n i → s.visited i = true) {i : Nat} (hi : Device n i)
    (hlt : s.d i < maxSize) : IsDist (Link nodeMap n) src i (s.d i) :=
  ⟨h.walk i hi hlt, fun _ hj => h.d_le hall hj⟩

theorem Labelled.tree {s : Search} (h : Labelled nodeMap n src s)
    (hall : ∀ i, Device n i → s.visited i = true) : Tree nodeMap n src s.prev := by
  refine ⟨h.prev_src, ?_⟩
  intro i k hk hlt
  have hi : Device n i := by
    cases hk.1 with
    | snoc _ hl => exact hl.2.1
  have hle : s.d i ≤ k + 1 := h.d_le hall hk.1
  have hdi : s.d i = k + 1 := (h.isDist hall hi (by omega)).unique hk
  have hne : i ≠ src := by
    rintro rfl
    have := h.d_src
    omega
  obtain ⟨p, hp, hl, -, hd⟩ := h.parent i hi hne (by omega)
  have hdp : s.d p = k := by omega
  exact ⟨p, hp, hl, hdp ▸ h.isDist hall hl.1 (by omega)⟩

/-- The state of `dijkstra` after its loops. -/
def searched (nodeMap : Nat → Nat → Nat) (n : Nat) (visited : Nat → Bool) (g : Globals)
    (src : Nat) : Search :=
  forUpTo (fun _ => round nodeMap n)
    { initLoop n ⟨g.d, g.prev, visited⟩ with
      d := Function.update (initLoop n ⟨g.d, g.prev, visited⟩).d src 0 } n

theorem dijkstra_eq (visited : Nat → Bool) (g : Globals) (src : Nat) :
    dijkstra nodeMap n visited g src =
      { g with
        d := (searched nodeMap n visited g src).d
        prev := (searched nodeMap n visited g src).prev } := rfl

theorem searched_labelled (hbin : ∀ a b, nodeMap a b ≤ 1) (hsrc : Device n src)
    (visited : Nat → Bool) (g : Globals) :
    Labelled nodeMap n src (searched nodeMap n visited g src) ∧
      ∀ i, Device n i → (searched nodeMap n visited g src).visited i = true := by
  have hloop : Labelled nodeMap n src (searched nodeMap n visited g src) ∧
      n ≤ (visitedSet n (searched nodeMap n visited g src)).card := by
    refine forUpTo_induct
      (fun k s => Labelled nodeMap n src s ∧ k ≤ (visitedSet n s).card) ?_ ?_
    · exact ⟨labelled_init hsrc _, Nat.zero_le _⟩
    · intro k s hk hs
      exact ⟨hs.1.round hbin hsrc, round_card hbin hk hs.2⟩
  exact ⟨hloop.1, visited_of_card hloop.2⟩

theorem dijkstra_tree (hbin : ∀ a b, nodeMap a b ≤ 1) (hsrc : Device n src)
    (visited : Nat → Bool) (g : Globals) :
    Tree nodeMap n src (dijkstra nodeMap n visited g src).prev := by
  obtain ⟨hlabelled, hall⟩ := searched_labelled hbin hsrc visited g
  exact hlabelled.tree hall

theorem routePath_spec {g : Globals} (ht : Tree nodeMap n src g.prev) (hg : g.hops = -1)
    {k : Nat} (hk : k ≤ 40) : ∀ {fuel dest : Nat}, k < fuel →
    IsDist (Link nodeMap n) src dest k →
    ∃ g', routePath fuel g dest = some g' ∧ g'.hops = k ∧
      (0 < k → Link nodeMap n src (g'.path 0) ∧
        Steps (Link nodeMap n) (k - 1) (g'.path 0) dest) := by
  induction k with
  | zero =>
    intro fuel dest hf hd
    obtain rfl := hd.eq_of_zero
    obtain ⟨fuel, rfl⟩ : ∃ f, fuel = f + 1 := ⟨fuel - 1, by omega⟩
    refine ⟨{ g with path := Function.update g.path g.hops src, hops := g.hops + 1 }, ?_, ?_, ?_⟩
    · simp [routePath, ht.root, hg, routePathSize]
    · simp [hg]
    · omega
  | succ k ih =>
    intro fuel dest hf hd
    obtain ⟨fuel, rfl⟩ : ∃ f, fuel = f + 1 := ⟨fuel - 1, by omega⟩
    obtain ⟨p, hp, hl, hdp⟩ := ht.parent dest k hd (by unfold maxSize maxNodeNum; omega)
    obtain ⟨g', hr, hh, hpath⟩ := ih (by omega) (by omega : k < fuel) hdp
    have hne : g.prev dest ≠ -1 := by omega
    refine ⟨{ g' with path := Function.update g'.path g'.hops dest, hops := g'.hops + 1 },
      ?_, ?_, ?_⟩
    · have hlt : g'.hops < routePathSize := by
        unfold routePathSize
        omega
      simp [routePath, hp, hr, hlt, show ¬ (p : Int) = -1 by omega]
    · simp [hh]
    · intro _
      cases k with
      | zero =>
        obtain rfl := hdp.eq_of_zero
        simpa [hh] using And.intro hl Steps.refl
      | succ k =>
        obtain ⟨h₁, h₂⟩ := hpath (by omega)
        have h0 : (0 : Int) ≠ g'.hops := by omega
        simp only [Function.update_of_ne h0]
        exact ⟨h₁, .snoc h₂ hl⟩

theorem routeDiscovery_spec (hbin : ∀ a b, nodeMap a b ≤ 1) {start dest k : Nat}
    (hd : IsDist (Link nodeMap n) start dest (k + 1)) (hk : k + 1 ≤ 40)
    (visited : Nat → Bool) (g : Globals) :
    ∃ c g', routeDiscovery nodeMap n visited g start dest = some (c, g') ∧
      Link nodeMap n start c ∧ IsDist (Link nodeMap n) c dest k := by
  have hstart : Device n start := by
    obtain ⟨b, hl, -⟩ := hd.1.cons_inv
    exact hl.1
  obtain ⟨g', hr, -, hpath⟩ :=
    routePath_spec (g := clearPath (dijkstra nodeMap n visited g start))
      (dijkstra_tree hbin hstart visited g) rfl hk
      (show k + 1 < maxSize + 1 by unfold maxSize maxNodeNum; omega) hd
  obtain ⟨hl, hs⟩ := hpath (by omega)
  refine ⟨g'.path 0, g', ?_, hl, hd.tail hl hs⟩
  simp only [routeDiscovery, hr, Option.map_some]

theorem relaxOne_congr {nodeMap' : Nat → Nat → Nat} {mini i : Nat}
    (h : nodeMap mini i = nodeMap' mini i) (s : Search) :
    relaxOne nodeMap mini i s = relaxOne nodeMap' mini i s := by
  simp only [relaxOne, h]

theorem routeDiscovery_congr {nodeMap' : Nat → Nat → Nat}
    (h : ∀ a b, Device n a → Device n b → nodeMap a b = nodeMap' a b)
    (visited : Nat → Bool) (g : Globals) (start dest : Nat) :
    routeDiscovery nodeMap n visited g start dest =
      routeDiscovery nodeMap' n visited g start dest := by
  have hround : round nodeMap n = round nodeMap' n := by
    funext s
    unfold round
    cases hm : findMini n s with
    | none => rfl
    | some mini =>
      refine forUpTo_congr ?_
      intro i t hi
      exact relaxOne_congr (h mini i ((findMini_spec n s).2 mini hm).1 hi) t
  simp only [routeDiscovery, dijkstra, hround]

/-- `prev` is followed some times: `none` if there is no device before the last one. -/
def follow (prev : Nat → Int) : Nat → Nat → Option Nat
  | 0, i => some i
  | k + 1, i => if prev i = -1 then none else follow prev k (prev i).toNat

theorem lt_maxSize (hn : n < maxNodeNum) (hsrc : Device n src) {i k : Nat}
    (h : IsDist (Link nodeMap n) src i k) : k < maxSize := by
  have hcard : k < (Finset.Icc 1 n).card := by
    apply h.lt_card (Finset.mem_Icc.mpr hsrc)
    intro a b hab
    exact Finset.mem_Icc.mpr hab.2.1
  rw [Nat.card_Icc] at hcard
  unfold maxSize
  unfold maxNodeNum at *
  omega

theorem Tree.follow_eq {prev : Nat → Int} (ht : Tree nodeMap n src prev) {i k : Nat}
    (hi : IsDist (Link nodeMap n) src i k) (hk : k < maxSize) : follow prev k i = some src := by
  induction k generalizing i with
  | zero =>
    obtain rfl := hi.eq_of_zero
    rfl
  | succ k ih =>
    obtain ⟨p, hp, -, hpd⟩ := ht.parent i k hi hk
    have hne : prev i ≠ -1 := by
      rw [hp]
      exact nofun
    rw [follow, if_neg hne, hp, Int.toNat_natCast]
    exact ih hpd (Nat.lt_of_succ_lt hk)

theorem dijkstra_correct (hbin : ∀ a b, nodeMap a b ≤ 1) (hn : n < maxNodeNum)
    (hsrc : Device n src) (visited : Nat → Bool) (g : Globals) :
    (dijkstra nodeMap n visited g src).prev src = -1 ∧
      ∀ i, Device n i →
        ((∃ k, Steps (Link nodeMap n) k src i) →
          IsDist (Link nodeMap n) src i ((dijkstra nodeMap n visited g src).d i) ∧
          (i ≠ src → ∃ p : Nat, (dijkstra nodeMap n visited g src).prev i = p ∧
            Link nodeMap n p i ∧ (dijkstra nodeMap n visited g src).d i =
              (dijkstra nodeMap n visited g src).d p + 1) ∧
          follow (dijkstra nodeMap n visited g src).prev
            ((dijkstra nodeMap n visited g src).d i) i = some src) ∧
        ((¬∃ k, Steps (Link nodeMap n) k src i) →
          (dijkstra nodeMap n visited g src).d i = maxSize) := by
  obtain ⟨hlabelled, hall⟩ := searched_labelled hbin hsrc visited g
  rw [dijkstra_eq]
  dsimp only
  refine ⟨hlabelled.prev_src, ?_⟩
  intro i hi
  constructor
  case left =>
    intro hreach
    obtain ⟨k, hk⟩ := IsDist.exists_of_steps hreach
    have hlt : (searched nodeMap n visited g src).d i < maxSize :=
      (hlabelled.d_le hall hk.1).trans_lt (lt_maxSize hn hsrc hk)
    have hdist := hlabelled.isDist hall hi hlt
    refine ⟨hdist, ?_, ?_⟩
    · intro hne
      obtain ⟨p, hp, hl, -, hd⟩ := hlabelled.parent i hi hne hlt
      exact ⟨p, hp, hl, hd⟩
    · exact (hlabelled.tree hall).follow_eq hdist hlt
  case right =>
    intro hnot
    apply Nat.le_antisymm (hlabelled.le_max i hi)
    apply Nat.le_of_not_lt
    intro hlt
    exact hnot ⟨_, hlabelled.walk i hi hlt⟩

/-- A connected undirected network whose shortest paths fit into `route_path`. -/
structure Topology where
  n : Nat
  nodeMap : Nat → Nat → Nat
  size : n < maxNodeNum
  binary : ∀ a b, nodeMap a b ≤ 1
  symm : ∀ a b, nodeMap a b = nodeMap b a
  connected : ∀ a b, Device n a → Device n b → ∃ k, k ≤ 40 ∧ Steps (Link nodeMap n) k a b

namespace Topology

variable (t : Topology)

def Adj (a b : Nat) : Prop := Link t.nodeMap t.n a b

theorem Adj.symm {t : Topology} {a b : Nat} (h : t.Adj a b) : t.Adj b a :=
  ⟨h.2.1, h.1, t.symm b a ▸ h.2.2⟩

theorem dist_le {k a b : Nat} (h : IsDist t.Adj a b k) : k ≤ 40 := by
  cases k with
  | zero => omega
  | succ k =>
    obtain ⟨c, hl, -⟩ := h.1.cons_inv
    have hb : Device t.n b := by
      cases h.1 with
      | snoc _ hl => exact hl.2.1
    obtain ⟨j, hj, hs⟩ := t.connected a b hl.1 hb
    exact (h.2 j hs).trans hj

theorem relay_spec (visited : Nat → Nat → Bool) (mem : Nat → Globals) {dest : Nat} :
    ∀ {k start : Nat}, IsDist t.Adj start dest k →
    ∃ route : Nat → Nat,
      (∀ j, j ≤ k → relay t.nodeMap t.n visited mem dest j start = some (route j)) ∧
      (∀ j, j ≤ k → IsDist t.Adj (route j) dest (k - j)) ∧
      ∀ j, j < k → t.Adj (route j) (route (j + 1)) := by
  intro k
  induction k with
  | zero =>
    intro start hd
    refine ⟨fun _ => start, ?_, ?_, ?_⟩
    · intro j hj
      obtain rfl : j = 0 := by omega
      rfl
    · intro j hj
      simpa [show j = 0 by omega] using hd
    · intro j hj
      omega
  | succ k ih =>
    intro start hd
    obtain ⟨c, g', hr, hl, hc⟩ :=
      routeDiscovery_spec t.binary hd (t.dist_le hd) (visited start) (mem start)
    obtain ⟨route, h₁, h₂, h₃⟩ := ih hc
    have h₀ : route 0 = c := by
      have := h₁ 0 (Nat.zero_le k)
      simpa [relay] using this.symm
    refine ⟨fun j => if j = 0 then start else route (j - 1), ?_, ?_, ?_⟩
    · intro j hj
      cases j with
      | zero => rfl
      | succ j => simpa [relay, hr] using h₁ j (by omega)
    · intro j hj
      cases j with
      | zero => simpa using hd
      | succ j => simpa using h₂ j (by omega)
    · intro j hj
      cases j with
      | zero => simpa [h₀, Adj] using hl
      | succ j => simpa using h₃ j (by omega)

theorem hopByHop_delivers (type : Nat → DeviceType)
    (visited : Nat → Nat → Bool) (mem : Nat → Globals) {start dest : Nat}
    (hs : Device t.n start) (hd : Device t.n dest) (hne : start ≠ dest) :
    ∃ (k : Nat) (route : Nat → Nat), IsDist t.Adj start dest k ∧ 0 < k ∧
      (∀ j, j ≤ k → relay t.nodeMap t.n visited mem dest j start = some (route j)) ∧
      route k = dest ∧ (∀ j, j < k → route j ≠ dest) ∧
      (∀ j, j < k → t.Adj (route j) (route (j + 1))) ∧
      ((∀ z, Device t.n z → type z = .zed → ∃! b, t.Adj z b) →
        ∀ j, 0 < j → j < k → type (route j) ≠ .zed) := by
  obtain ⟨j, -, hj⟩ := t.connected start dest hs hd
  obtain ⟨k, hk⟩ := IsDist.exists_of_steps ⟨j, hj⟩
  obtain ⟨route, h₁, h₂, h₃⟩ := t.relay_spec visited mem hk
  have hend : route k = dest := by
    have := h₂ k le_rfl
    rw [Nat.sub_self] at this
    exact this.eq_of_zero
  have hpos : 0 < k := by
    rcases Nat.eq_zero_or_pos k with rfl | h
    · exact absurd hk.eq_of_zero hne
    · exact h
  have hnot : ∀ j, j < k → route j ≠ dest := by
    intro j hj heq
    have h₀ : IsDist t.Adj dest dest (k - j) := heq ▸ h₂ j hj.le
    have := h₀.2 0 .refl
    omega
  refine ⟨k, route, hk, hpos, h₁, hend, hnot, h₃, ?_⟩
  intro hzed j hj hjk hz
  obtain ⟨i, rfl⟩ : ∃ i, j = i + 1 := ⟨j - 1, by omega⟩
  have hback : t.Adj (route (i + 1)) (route i) := (h₃ i (by omega)).symm
  have hforth := h₃ (i + 1) hjk
  have heq : route i = route (i + 1 + 1) :=
    (hzed _ hforth.1 hz).unique hback hforth
  have hi := h₂ i (by omega)
  rw [heq] at hi
  have := hi.unique (h₂ (i + 1 + 1) hjk)
  omega

/-- A coordinator, a router and an end device in a line. -/
def line : Topology where
  n := 3
  nodeMap a b := if a + 1 = b ∨ b + 1 = a then 1 else 0
  size := by decide
  binary a b := by
    split <;> omega
  symm a b := by
    simp only [or_comm]
  connected a b ha hb := by
    have hup : ∀ i, 1 ≤ i → i ≤ 2 →
        Link (fun a b => if a + 1 = b ∨ b + 1 = a then 1 else 0) 3 i (i + 1) := by
      intro i h₁ h₂
      exact ⟨⟨h₁, by omega⟩, ⟨by omega, by omega⟩, by simp⟩
    have hdown : ∀ i, 1 ≤ i → i ≤ 2 →
        Link (fun a b => if a + 1 = b ∨ b + 1 = a then 1 else 0) 3 (i + 1) i := by
      intro i h₁ h₂
      exact ⟨⟨by omega, by omega⟩, ⟨h₁, by omega⟩, by simp⟩
    obtain ⟨ha₁, ha₂⟩ := ha
    obtain ⟨hb₁, hb₂⟩ := hb
    interval_cases a <;> interval_cases b
    · exact ⟨0, by omega, .refl⟩
    · exact ⟨1, by omega, .snoc .refl (hup 1 le_rfl (by omega))⟩
    · exact ⟨2, by omega, .snoc (.snoc .refl (hup 1 le_rfl (by omega))) (hup 2 (by omega) le_rfl)⟩
    · exact ⟨1, by omega, .snoc .refl (hdown 1 le_rfl (by omega))⟩
    · exact ⟨0, by omega, .refl⟩
    · exact ⟨1, by omega, .snoc .refl (hup 2 (by omega) le_rfl)⟩
    · exact ⟨2, by omega,
        .snoc (.snoc .refl (hdown 2 (by omega) le_rfl)) (hdown 1 le_rfl (by omega))⟩
    · exact ⟨1, by omega, .snoc .refl (hdown 2 (by omega) le_rfl)⟩
    · exact ⟨0, by omega, .refl⟩

def lineType (i : Nat) : DeviceType := if i = 1 then .zc else if i = 2 then .zr else .zed

theorem lineType_zed (z : Nat) (hd : Device line.n z) (hz : lineType z = .zed) :
    ∃! b, line.Adj z b := by
  have hrange : 1 ≤ z ∧ z ≤ 3 := hd
  obtain rfl : z = 3 := by
    simp only [lineType] at hz
    split at hz
    · cases hz
    · split at hz
      · cases hz
      · omega
  refine ⟨2, show Link line.nodeMap line.n 3 2 by decide, ?_⟩
  rintro b ⟨-, hb, hl⟩
  have hrange : 1 ≤ b ∧ b ≤ 3 := hb
  simp only [line, ne_eq, ite_eq_right_iff, one_ne_zero, imp_false, not_not] at hl
  omega

theorem hopByHop_delivers_line :
    ∃ (k : Nat) (route : Nat → Nat), IsDist line.Adj 1 3 k ∧
      relay line.nodeMap line.n (fun _ _ => true)
        (fun _ => ⟨fun _ => 7, fun _ => 5, fun _ => 9, 3⟩) 3 k 1 = some 3 ∧
      ∀ j, 0 < j → j < k → lineType (route j) ≠ .zed := by
  obtain ⟨k, route, hk, -, hr, hend, -, -, hz⟩ :=
    line.hopByHop_delivers lineType (fun _ _ => true)
      (fun _ => ⟨fun _ => 7, fun _ => 5, fun _ => 9, 3⟩)
      (show Device line.n 1 by decide) (show Device line.n 3 by decide) (by decide)
  exact ⟨k, route, hk, hend ▸ hr k le_rfl, hz lineType_zed⟩

end Topology

theorem dijkstra_correct_line :
    (dijkstra Topology.line.nodeMap 3 (fun _ => true) ⟨fun _ => 7, fun _ => 5, fun _ => 9, 3⟩
        1).prev 1 = -1 ∧
      IsDist (Link Topology.line.nodeMap 3) 1 3 ((dijkstra Topology.line.nodeMap 3 (fun _ => true)
        ⟨fun _ => 7, fun _ => 5, fun _ => 9, 3⟩ 1).d 3) := by
  have hcorrect := dijkstra_correct Topology.line.binary Topology.line.size
    (show Device 3 1 by decide) (fun _ => true) ⟨fun _ => 7, fun _ => 5, fun _ => 9, 3⟩
  obtain ⟨k, -, hk⟩ := Topology.line.connected 1 3 (by decide) (by decide)
  exact ⟨hcorrect.1, ((hcorrect.2 3 (by decide)).1 ⟨k, hk⟩).1⟩

end M2M.Network.Routing
