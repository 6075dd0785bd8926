import M2M.Network.RoutingLaws

/-! `route_discovery` after other calls: what the globals still hold of them. -/

namespace M2M.Network.Routing

open M2M.Lib M2M.Lib.Loop

variable {nodeMap : Nat → Nat → Nat} {n src : Nat}

section Searches

/-- Two searches are alike on the devices. -/
structure AlikeOn (n : Nat) (s s' : Search) : Prop where
  d : ∀ i, Device n i → s.d i = s'.d i
  prev : ∀ i, Device n i → s.prev i = s'.prev i
  visited : ∀ i, Device n i → s.visited i = s'.visited i

theorem findMini_alike {s s' : Search} (h : AlikeOn n s s') : findMini n s = findMini n s' := by
  unfold findMini
  refine (forUpTo_rel (fun k m m' => m = m' ∧ ∀ j ∈ m, Device n j) ⟨rfl, fun j hj =>
    absurd hj (Option.not_mem_none j)⟩ ?_).1
  intro i mini mini' hi hm
  obtain ⟨rfl, hdev⟩ := hm
  have hi' : Device n (i + 1) := ⟨Nat.succ_pos i, hi⟩
  have hcond : (s.visited (i + 1) = false ∧ ∀ m ∈ mini, s.d (i + 1) < s.d m) ↔
      (s'.visited (i + 1) = false ∧ ∀ m ∈ mini, s'.d (i + 1) < s'.d m) := by
    rw [h.visited _ hi', h.d _ hi']
    apply and_congr_right
    intro _
    apply forall₂_congr
    intro m hm
    rw [h.d m (hdev m hm)]
  constructor
  · simp only [hcond]
  · intro j hj
    split at hj
    · cases hj
      exact hi'
    · exact hdev j hj

theorem relaxOne_alike {s s' : Search} (h : AlikeOn n s s') {mini i : Nat} (hm : Device n mini)
    (hi : Device n i) : AlikeOn n (relaxOne nodeMap mini i s) (relaxOne nodeMap mini i s') := by
  unfold relaxOne
  rw [h.d mini hm, h.d i hi]
  split
  · split
    · constructor
      case d =>
        intro j hj
        simp only [Function.update_apply, h.d j hj]
      case prev =>
        intro j hj
        simp only [Function.update_apply, h.prev j hj]
      case visited => exact h.visited
    · exact h
  · exact h

theorem round_alike {s s' : Search} (h : AlikeOn n s s') :
    AlikeOn n (round nodeMap n s) (round nodeMap n s') := by
  unfold round
  rw [findMini_alike h]
  cases hm : findMini n s' with
  | none => exact h
  | some mini =>
    have hdev : Device n mini := ((findMini_spec n s').2 mini hm).1
    refine forUpTo_rel (fun _ t t' => AlikeOn n t t') ?_ ?_
    · constructor
      case d => exact h.d
      case prev => exact h.prev
      case visited =>
        intro i hi
        simp only [Function.update_apply, h.visited i hi]
    · intro i t t' hi ht
      exact relaxOne_alike ht hdev ⟨Nat.succ_pos i, hi⟩

theorem searched_alike (visited visited' : Nat → Bool) (g g' : Globals) (src : Nat) :
    AlikeOn n (searched nodeMap n visited g src) (searched nodeMap n visited' g' src) := by
  unfold searched
  refine forUpTo_rel (fun _ s s' => AlikeOn n s s') ?_ ?_
  · constructor
    case d =>
      intro i hi
      simp only [Function.update_apply, (initLoop_eq n _ i hi).1]
    case prev =>
      intro i hi
      rw [(initLoop_eq n _ i hi).2.1, (initLoop_eq n _ i hi).2.1]
    case visited =>
      intro i hi
      rw [(initLoop_eq n _ i hi).2.2, (initLoop_eq n _ i hi).2.2]
  · intro i s s' _ h
    exact round_alike h

theorem prev_of_maxSize (hbin : ∀ a b, nodeMap a b ≤ 1) (hsrc : Device n src)
    (visited : Nat → Bool) (g : Globals) {i : Nat} (hi : Device n i)
    (h : (searched nodeMap n visited g src).d i = maxSize) :
    (searched nodeMap n visited g src).prev i = -1 := by
  have hloop : Labelled nodeMap n src (searched nodeMap n visited g src) ∧
      ((searched nodeMap n visited g src).d i = maxSize →
        (searched nodeMap n visited g src).prev i = -1) := by
    refine forUpTo_induct
      (fun _ s => Labelled nodeMap n src s ∧ (s.d i = maxSize → s.prev i = -1)) ?_ ?_
    · exact ⟨labelled_init hsrc _, fun _ => (initLoop_eq n _ i hi).2.1⟩
    · intro k s _ hs
      refine ⟨hs.1.round hbin hsrc, ?_⟩
      cases hm : findMini n s with
      | none =>
        unfold round
        rw [hm]
        exact hs.2
      | some m =>
        obtain ⟨hd, hp, -⟩ := round_eq hbin hm
        have hle := hs.1.le_max i hi
        rw [hd i hi, hp i hi]
        split
        · intro heq
          omega
        · exact hs.2
  exact hloop.2 h

theorem prev_eq_neg_one_iff (hbin : ∀ a b, nodeMap a b ≤ 1) (hn : n < maxNodeNum)
    (hsrc : Device n src) (visited : Nat → Bool) (g : Globals) {i : Nat} (hi : Device n i) :
    (dijkstra nodeMap n visited g src).prev i = -1 ↔
      ¬(i ≠ src ∧ ∃ k, Steps (Link nodeMap n) k src i) := by
  obtain ⟨hroot, hrest⟩ := dijkstra_correct hbin hn hsrc visited g
  obtain ⟨hreach, hnot⟩ := hrest i hi
  constructor
  · rintro hprev ⟨hne, hsteps⟩
    obtain ⟨p, hp, -⟩ := (hreach hsteps).2.1 hne
    rw [hprev] at hp
    cases hp
  · intro h
    by_cases hsteps : ∃ k, Steps (Link nodeMap n) k src i
    · have heq : i = src := by
        by_contra hne
        exact h ⟨hne, hsteps⟩
      rw [heq]
      exact hroot
    · exact prev_of_maxSize hbin hsrc visited g hi (hnot hsteps)

end Searches

section Paths

theorem follow_alike {prev prev' : Nat → Int} (ht : Tree nodeMap n src prev)
    (hsame : ∀ i, Device n i → prev i = prev' i) {i k j : Nat}
    (hi : IsDist (Link nodeMap n) src i k) (hk : k < maxSize) (hj : j ≤ k) :
    follow prev j i = follow prev' j i := by
  induction j generalizing i k with
  | zero => rfl
  | succ j ih =>
    cases k with
    | zero => exact absurd hj (Nat.not_succ_le_zero j)
    | succ k =>
      obtain ⟨p, hp, hl, hpd⟩ := ht.parent i k hi hk
      have hne : (p : Int) ≠ -1 := by omega
      rw [follow, follow, ← hsame i hl.2.1, hp, if_neg hne, if_neg hne, Int.toNat_natCast]
      exact ih hpd (Nat.lt_of_succ_lt hk) (Nat.le_of_succ_le_succ hj)

theorem routePath_first {g : Globals} (ht : Tree nodeMap n src g.prev) (hg : g.hops = -1)
    {k : Nat} (hk : k + 1 ≤ 40) {fuel dest : Nat} (hf : k + 1 < fuel)
    (hd : IsDist (Link nodeMap n) src dest (k + 1)) :
    ∃ g', routePath fuel g dest = some g' ∧ g'.hops = (k + 1 : Nat) ∧
      follow g.prev k dest = some (g'.path 0) := by
  induction k generalizing fuel dest with
  | zero =>
    obtain ⟨fuel, rfl⟩ : ∃ f, fuel = f + 1 := ⟨fuel - 1, by omega⟩
    obtain ⟨p, hp, -, hpd⟩ := ht.parent dest 0 hd (by unfold maxSize maxNodeNum; omega)
    obtain ⟨g', hr, hh, -⟩ := routePath_spec ht hg (Nat.zero_le 40) (Nat.lt_of_succ_lt_succ hf) hpd
    have hlt : g'.hops < routePathSize := by
      rw [hh]
      decide
    have hne : g.prev dest ≠ -1 := by
      rw [hp]
      omega
    refine ⟨{ g' with path := Function.update g'.path g'.hops dest, hops := g'.hops + 1 },
      ?_, ?_, ?_⟩
    · rw [routePath, if_pos hne, hp, Int.toNat_natCast, hr]
      exact if_pos hlt
    · dsimp only
      rw [hh]
      rfl
    · rw [hh]
      exact congrArg some (Function.update_self (0 : Int) dest g'.path).symm
  | succ k ih =>
    obtain ⟨fuel, rfl⟩ : ∃ f, fuel = f + 1 := ⟨fuel - 1, by omega⟩
    obtain ⟨p, hp, -, hpd⟩ := ht.parent dest (k + 1) hd (by unfold maxSize maxNodeNum; omega)
    obtain ⟨g', hr, hh, hfirst⟩ := ih (Nat.le_of_succ_le hk) (Nat.lt_of_succ_lt_succ hf) hpd
    have hlt : g'.hops < routePathSize := by
      rw [hh, routePathSize]
      omega
    have hne : g.prev dest ≠ -1 := by
      rw [hp]
      omega
    refine ⟨{ g' with path := Function.update g'.path g'.hops dest, hops := g'.hops + 1 },
      ?_, ?_, ?_⟩
    · rw [routePath, if_pos hne, hp, Int.toNat_natCast, hr]
      exact if_pos hlt
    · dsimp only
      rw [hh]
      rfl
    · have h0 : (0 : Int) ≠ g'.hops := by
        rw [hh]
        omega
      rw [follow, if_neg hne, hp, Int.toNat_natCast, hfirst]
      dsimp only
      rw [Function.update_of_ne h0]

theorem routePath_long {g : Globals} (ht : Tree nodeMap n src g.prev) (hg : g.hops = -1)
    {k : Nat} (hk : 40 < k) (hmax : k < maxSize) {fuel dest : Nat} (hf : k < fuel)
    (hd : IsDist (Link nodeMap n) src dest k) : routePath fuel g dest = none := by
  induction k generalizing fuel dest with
  | zero => exact absurd hk (Nat.not_lt_zero 40)
  | succ k ih =>
    obtain ⟨fuel, rfl⟩ : ∃ f, fuel = f + 1 := ⟨fuel - 1, by omega⟩
    obtain ⟨p, hp, -, hpd⟩ := ht.parent dest k hd hmax
    have hne : g.prev dest ≠ -1 := by
      rw [hp]
      omega
    rw [routePath, if_pos hne, hp, Int.toNat_natCast]
    by_cases h40 : k = 40
    · subst h40
      obtain ⟨g', hr, hh, -⟩ :=
        routePath_spec ht hg (Nat.le_refl 40) (Nat.lt_of_succ_lt_succ hf) hpd
      have hnot : ¬g'.hops < routePathSize := by
        rw [hh]
        decide
      rw [hr]
      exact if_neg hnot
    · rw [ih (by omega) (Nat.lt_of_succ_lt hmax) (Nat.lt_of_succ_lt_succ hf) hpd]
      rfl

theorem routeDiscovery_stale (visited : Nat → Bool) (g : Globals) {start dest : Nat}
    (h : (dijkstra nodeMap n visited g start).prev dest = -1) :
    ∃ g', routeDiscovery nodeMap n visited g start dest = some (g.path 0, g') ∧
      g'.path 0 = g.path 0 := by
  have hpath : Function.update g.path (-1) dest 0 = g.path 0 :=
    Function.update_of_ne (by decide) _ _
  refine ⟨{ clearPath (dijkstra nodeMap n visited g start) with
    path := Function.update g.path (-1) dest, hops := 0 }, ?_, hpath⟩
  have hnot : ¬(clearPath (dijkstra nodeMap n visited g start)).prev dest ≠ -1 := not_not.mpr h
  have hroute : routePath (maxSize + 1) (clearPath (dijkstra nodeMap n visited g start)) dest =
      some { clearPath (dijkstra nodeMap n visited g start) with
        path := Function.update g.path (-1) dest, hops := 0 } := by
    rw [routePath, if_neg hnot]
    exact if_pos (e := none) (show (-1 : Int) < routePathSize by decide)
  rw [routeDiscovery, hroute]
  exact congrArg (fun hop => some (hop, _)) hpath

end Paths

section Histories

/-- A call of `route_discovery`, with the topology and the memory that it finds. -/
structure RouteCall where
  nodeMap : Nat → Nat → Nat
  visited : Nat → Bool
  start : Nat
  dest : Nat

structure RouteCall.Fits (n : Nat) (call : RouteCall) : Prop where
  binary : ∀ a b, call.nodeMap a b ≤ 1
  start : Device n call.start
  dest : Device n call.dest

def RouteCall.run (n : Nat) (g : Globals) (call : RouteCall) : Option Globals :=
  (routeDiscovery call.nodeMap n call.visited g call.start call.dest).map Prod.snd

/-- The globals of a new process. -/
def zeroed : Globals := ⟨fun _ => 0, fun _ => 0, fun _ => 0, 0⟩

def After (n : Nat) (g : Globals) : Prop :=
  ∃ calls : List RouteCall, (∀ call ∈ calls, call.Fits n) ∧
    calls.foldlM (RouteCall.run n) zeroed = some g

/-- All histories lead to the same next hop, which is no neighbour if there is no path. -/
def Forgets (nodeMap : Nat → Nat → Nat) (n start dest : Nat) : Prop :=
  ∃ hop,
    (∀ g, After n g → ∀ visited,
      (routeDiscovery nodeMap n visited g start dest).map Prod.fst = some hop) ∧
    ((¬∃ k, Steps (Link nodeMap n) k start dest) → ¬Link nodeMap n start hop)

theorem after_zeroed (n : Nat) : After n zeroed := ⟨[], nofun, rfl⟩

def full (_ _ : Nat) : Nat := 1

theorem exists_after_two (h2 : 2 ≤ n) : ∃ g, After n g ∧ g.path 0 = 2 := by
  have h1 : Device n 1 := ⟨Nat.le_refl 1, Nat.le_of_succ_le h2⟩
  have hlink : Link full n 1 2 := ⟨h1, ⟨one_le_two, h2⟩, Nat.one_ne_zero⟩
  have hdist : IsDist (Link full n) 1 2 (0 + 1) := by
    refine ⟨.snoc .refl hlink, ?_⟩
    intro j hj
    cases j with
    | zero => cases hj
    | succ j => exact Nat.succ_le_succ (Nat.zero_le j)
  have hbin : ∀ a b, full a b ≤ 1 := fun _ _ => Nat.le_refl 1
  obtain ⟨g', hr, -, hfirst⟩ :=
    routePath_first (g := clearPath (dijkstra full n (fun _ => false) zeroed 1))
      (dijkstra_tree hbin h1 (fun _ => false) zeroed) rfl (k := 0) (by decide)
      (show 0 + 1 < maxSize + 1 by decide) hdist
  refine ⟨g', ⟨[⟨full, fun _ => false, 1, 2⟩], ?_, ?_⟩, ?_⟩
  · exact List.forall_mem_singleton.mpr ⟨hbin, h1, ⟨one_le_two, h2⟩⟩
  · rw [List.foldlM_cons, RouteCall.run, routeDiscovery, hr]
    rfl
  · exact (Option.some_inj.mp hfirst).symm

theorem not_forgets (h2 : 2 ≤ n) {start dest : Nat}
    (h : ∀ visited g, (dijkstra nodeMap n visited g start).prev dest = -1) :
    ¬Forgets nodeMap n start dest := by
  rintro ⟨hop, hsame, -⟩
  have hpath : ∀ g, After n g → g.path 0 = hop := by
    intro g hg
    obtain ⟨g', hg', -⟩ := routeDiscovery_stale (fun _ => false) g (h (fun _ => false) g)
    have hhop := hsame g hg fun _ => false
    rw [hg'] at hhop
    exact Option.some_inj.mp hhop
  obtain ⟨g, hg, htwo⟩ := exists_after_two h2
  have hzero := hpath zeroed (after_zeroed n)
  rw [← hpath g hg, htwo] at hzero
  cases hzero

theorem path_of_one {g : Globals} (h : After 1 g) : g.path 0 = 0 := by
  obtain ⟨calls, hfits, hrun⟩ := h
  have hinv : ∀ g₀ : Globals, g₀.path 0 = 0 → calls.foldlM (RouteCall.run 1) g₀ = some g →
      g.path 0 = 0 := by
    clear hrun
    induction calls with
    | nil =>
      intro g₀ h₀ hrun
      cases hrun
      exact h₀
    | cons call calls ih =>
      obtain ⟨hcall, hcalls⟩ := List.forall_mem_cons.mp hfits
      intro g₀ h₀ hrun
      have hone : ∀ i, Device 1 i → i = 1 := fun i hi => Nat.le_antisymm hi.2 hi.1
      have hprev : (dijkstra call.nodeMap 1 call.visited g₀ call.start).prev call.dest = -1 := by
        apply (prev_eq_neg_one_iff hcall.binary (by decide) hcall.start call.visited g₀
          hcall.dest).mpr
        rintro ⟨hne, -⟩
        exact hne ((hone _ hcall.dest).trans (hone _ hcall.start).symm)
      obtain ⟨g', hg', hpath⟩ := routeDiscovery_stale call.visited g₀ hprev
      rw [List.foldlM_cons, RouteCall.run, hg'] at hrun
      exact ih hcalls g' (hpath.trans h₀) hrun
  exact hinv zeroed rfl hrun

/-- The next hop on a path that fits is the same whatever was called before. -/
theorem forgets_of_path (hbin : ∀ a b, nodeMap a b ≤ 1) {start dest k : Nat}
    (hstart : Device n start) (hd : IsDist (Link nodeMap n) start dest (k + 1)) (hk : k + 1 ≤ 40) :
    Forgets nodeMap n start dest := by
  have hmax : k + 1 < maxSize := by
    unfold maxSize maxNodeNum
    omega
  have hsearch : ∀ visited g, ∃ g', routeDiscovery nodeMap n visited g start dest =
      some (g'.path 0, g') ∧
        follow (dijkstra nodeMap n visited g start).prev k dest = some (g'.path 0) := by
    intro visited g
    obtain ⟨g', hr, -, hfirst⟩ :=
      routePath_first (g := clearPath (dijkstra nodeMap n visited g start))
        (dijkstra_tree hbin hstart visited g) rfl hk (show k + 1 < maxSize + 1 by omega) hd
    refine ⟨g', ?_, hfirst⟩
    rw [routeDiscovery, hr]
    rfl
  obtain ⟨g₀, -, hfirst₀⟩ := hsearch (fun _ => false) zeroed
  refine ⟨g₀.path 0, ?_, fun hnot => absurd ⟨k + 1, hd.1⟩ hnot⟩
  intro g _ visited
  obtain ⟨g', hr, hfirst⟩ := hsearch visited g
  have hsame := follow_alike (dijkstra_tree hbin hstart visited g)
    (searched_alike visited (fun _ => false) g zeroed start).prev hd hmax (Nat.le_succ k)
  rw [hfirst] at hsame
  rw [hr]
  exact hsame.trans hfirst₀

/-- The call forgets the calls before it if there is a path, and one that fits. -/
theorem forgets_iff (hbin : ∀ a b, nodeMap a b ≤ 1) (hn : n < maxNodeNum) {start dest : Nat}
    (hstart : Device n start) (hdest : Device n dest) :
    Forgets nodeMap n start dest ↔
      (n = 1 ∨ start ≠ dest ∧ ∃ k, Steps (Link nodeMap n) k start dest) ∧
        ∀ k, IsDist (Link nodeMap n) start dest k → k ≤ 40 := by
  have hstale := fun visited g => prev_eq_neg_one_iff hbin hn hstart visited g hdest
  constructor
  case mp =>
    intro h
    constructor
    · by_contra hnot
      obtain ⟨hne, hnot⟩ := not_or.mp hnot
      have h2 : 2 ≤ n := by
        have := hstart.1.trans hstart.2
        omega
      apply not_forgets h2 _ h
      intro visited g
      apply (hstale visited g).mpr
      rintro ⟨hd, hsteps⟩
      exact hnot ⟨hd.symm, hsteps⟩
    · intro k hk
      obtain ⟨hop, hsame, -⟩ := h
      by_contra hlong
      have hmax := lt_maxSize hn hstart hk
      have hnone := hsame zeroed (after_zeroed n) fun _ => false
      rw [routeDiscovery, routePath_long (g := clearPath (dijkstra nodeMap n (fun _ => false) zeroed
        start)) (dijkstra_tree hbin hstart _ zeroed) rfl (Nat.lt_of_not_le hlong) hmax
        (Nat.lt_succ_of_lt hmax) hk] at hnone
      cases hnone
  case mpr =>
    rintro ⟨hpath, hshort⟩
    by_cases hwalk : start ≠ dest ∧ ∃ k, Steps (Link nodeMap n) k start dest
    · obtain ⟨hne, hsteps⟩ := hwalk
      obtain ⟨k, hk⟩ := IsDist.exists_of_steps hsteps
      cases k with
      | zero => exact absurd hk.eq_of_zero hne
      | succ k => exact forgets_of_path hbin hstart hk (hshort _ hk)
    · obtain rfl : n = 1 := hpath.resolve_right hwalk
      refine ⟨0, ?_, fun _ hlink => absurd hlink.2.1.1 (Nat.not_succ_le_zero 0)⟩
      intro g hg visited
      have hprev := (hstale visited g).mpr fun h => hwalk ⟨h.1.symm, h.2⟩
      obtain ⟨g', hr, -⟩ := routeDiscovery_stale visited g hprev
      rw [hr, Option.map_some, path_of_one hg]

theorem forgets_iff_unlinked :
    ¬Forgets (fun _ _ => 0) 2 1 2 ↔ ¬((2 = 1 ∨ 1 ≠ 2 ∧ ∃ k, Steps (Link (fun _ _ => 0) 2) k 1 2) ∧
      ∀ k, IsDist (Link (fun _ _ => 0) 2) 1 2 k → k ≤ 40) :=
  not_congr (forgets_iff (fun _ _ => Nat.zero_le 1) (by decide) (by decide) (by decide))

/-- Between two devices that are not linked, the last path decides. -/
theorem unlinked_remembers : ¬Forgets (fun _ _ => 0) 2 1 2 := by
  apply not_forgets (Nat.le_refl 2)
  intro visited g
  apply (prev_eq_neg_one_iff (fun _ _ => Nat.zero_le 1) (by decide) (by decide) visited g
    (by decide)).mpr
  rintro ⟨-, k, hk⟩
  cases hk with
  | snoc _ hlink => exact hlink.2.2 rfl

end Histories

end M2M.Network.Routing
