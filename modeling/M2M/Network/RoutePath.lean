import M2M.Network.Memory
import M2M.Network.AcceptedReceivers

/-! The elements of `route_path` that a `route_discovery` writes. -/

namespace M2M.Network.Routing

open M2M.Lib

variable {nodeMap : Nat → Nat → Nat} {n : Nat}

/-- `routePath(dest)` with the indices it writes to, in their order, inside of `route_path` or
not. -/
def pathWrites : Nat → Globals → Nat → Option (List Int × Globals)
  | 0, _, _ => none
  | fuel + 1, g, dest => do
    let (written, g) ←
      if g.prev dest ≠ -1 then pathWrites fuel g (g.prev dest).toNat else some ([], g)
    return (written ++ [g.hops],
      { g with path := Function.update g.path g.hops dest, hops := g.hops + 1 })

theorem routePath_eq_pathWrites (fuel : Nat) (g : Globals) (dest : Nat) :
    routePath fuel g dest = (pathWrites fuel g dest).bind fun (written, g') =>
      if ∀ i ∈ written, i < routePathSize then some g' else none := by
  induction fuel generalizing dest with
  | zero => rfl
  | succ fuel ih =>
    by_cases hprev : g.prev dest ≠ -1
    · simp only [routePath, pathWrites, if_pos hprev, ih]
      cases pathWrites fuel g (g.prev dest).toNat with
      | none => rfl
      | some r =>
        simp only [Option.bind_eq_bind, Option.bind_some, Option.pure_def, List.forall_mem_append,
          List.forall_mem_singleton]
        by_cases hall : ∀ i ∈ r.1, i < routePathSize
        · rw [if_pos hall, Option.bind_some]
          simp only [and_iff_right hall]
        · rw [if_neg hall, Option.bind_none, if_neg fun h => hall h.1]
    · simp only [routePath, pathWrites, if_neg hprev, Option.bind_eq_bind, Option.bind_some,
        Option.pure_def, List.nil_append, List.forall_mem_singleton]

theorem pathWrites_eq {g : Globals} {k dest root : Nat} (hfollow : follow g.prev k dest = some root)
    (hroot : g.prev root = -1) :
    ∃ g', pathWrites (k + 1) g dest = some ((List.range (k + 1)).map fun i : Nat => g.hops + (i : Int), g') ∧
      g'.hops = g.hops + (k + 1 : Nat) := by
  induction k generalizing dest with
  | zero =>
    obtain rfl : dest = root := Option.some.inj hfollow
    simp [pathWrites, hroot]
  | succ k ih =>
    have hprev : g.prev dest ≠ -1 := by
      intro h
      rw [follow, if_pos h] at hfollow
      cases hfollow
    rw [follow, if_neg hprev] at hfollow
    obtain ⟨g', hwrites, hhops⟩ := ih hfollow
    refine ⟨{ g' with path := Function.update g'.path g'.hops dest, hops := g'.hops + 1 }, ?_, ?_⟩
    · rw [pathWrites, if_pos hprev, hwrites]
      simp only [Option.bind_eq_bind, Option.bind_some, Option.pure_def, hhops,
        @List.range_succ (k + 1), List.map_append, List.map_singleton]
    · simp only [hhops]
      omega

/-- Every element that `clearPath` and `routePath(dest)` write after the search from `start` is one
of `route_path`. -/
def WritesInside (nodeMap : Nat → Nat → Nat) (n : Nat) (visited : Nat → Bool) (g : Globals)
    (start dest : Nat) : Prop :=
  ∀ fuel written g', pathWrites fuel (clearPath (dijkstra nodeMap n visited g start)) dest =
    some (written, g') → ∀ i ∈ written, 0 ≤ i ∧ i < routePathSize

/-- The number of the hops from `start` to `dest`, or none where there is no path. -/
def Hops (nodeMap : Nat → Nat → Nat) (n start dest k : Nat) : Prop :=
  IsDist (Link nodeMap n) start dest k ∨
    k = 0 ∧ ¬∃ j, Steps (Link nodeMap n) j start dest

theorem exists_hops (nodeMap : Nat → Nat → Nat) (n start dest : Nat) :
    ∃ k, Hops nodeMap n start dest k := by
  by_cases hsteps : ∃ j, Steps (Link nodeMap n) j start dest
  · obtain ⟨k, hk⟩ := IsDist.exists_of_steps hsteps
    exact ⟨k, .inl hk⟩
  · exact ⟨0, .inr ⟨rfl, hsteps⟩⟩

theorem pathWrites_routeDiscovery (hbin : ∀ a b, nodeMap a b ≤ 1) (hn : n < maxNodeNum)
    {start dest k : Nat} (hstart : Device n start) (hdest : Device n dest)
    (hk : Hops nodeMap n start dest k) (visited : Nat → Bool) (g : Globals) :
    ∃ g', pathWrites (k + 1) (clearPath (dijkstra nodeMap n visited g start)) dest =
      some ((List.range (k + 1)).map fun i : Nat => -1 + (i : Int), g') := by
  have htree := dijkstra_tree hbin hstart visited g
  have hwrites : ∃ root, follow (dijkstra nodeMap n visited g start).prev k dest = some root ∧
      (dijkstra nodeMap n visited g start).prev root = -1 := by
    rcases hk with hdist | ⟨rfl, hnot⟩
    · exact ⟨start, htree.follow_eq hdist (lt_maxSize hn hstart hdist), htree.root⟩
    · refine ⟨dest, rfl, (prev_eq_neg_one_iff hbin hn hstart visited g hdest).mpr ?_⟩
      exact fun h => hnot h.2
  obtain ⟨root, hfollow, hroot⟩ := hwrites
  obtain ⟨g', hg', -⟩ :=
    pathWrites_eq (g := clearPath (dijkstra nodeMap n visited g start)) hfollow hroot
  exact ⟨g', hg'⟩

/-- The first element written, for the start, is the one in front of the array. -/
theorem not_writesInside (hbin : ∀ a b, nodeMap a b ≤ 1) (hn : n < maxNodeNum) {start dest : Nat}
    (hstart : Device n start) (hdest : Device n dest) (visited : Nat → Bool) (g : Globals) :
    ¬WritesInside nodeMap n visited g start dest := by
  intro h
  obtain ⟨k, hk⟩ := exists_hops nodeMap n start dest
  obtain ⟨g', hwrites⟩ := pathWrites_routeDiscovery hbin hn hstart hdest hk visited g
  have hfirst : (-1 : Int) ∈ (List.range (k + 1)).map fun i : Nat => -1 + (i : Int) :=
    List.mem_map.mpr ⟨0, List.mem_range.mpr (Nat.succ_pos k), rfl⟩
  exact absurd (h _ _ g' hwrites _ hfirst).1 (by decide)

theorem not_writesInside_line :
    ¬WritesInside Topology.line.nodeMap Topology.line.n (fun _ => false) zeroed 1 3 :=
  not_writesInside Topology.line.binary Topology.line.size (by decide) (by decide) _ _

/-- Device 1 looks for its neighbour 2. -/
theorem not_pathInside :
    ¬∀ (nodeMap : Nat → Nat → Nat) (n start dest : Nat) (visited : Nat → Bool) (g : Globals),
      (∀ a b, nodeMap a b ≤ 1) → n < maxNodeNum → Device n start → Device n dest →
        WritesInside nodeMap n visited g start dest := by
  intro h
  have hdist : Hops Topology.line.nodeMap Topology.line.n 1 2 1 := by
    refine .inl ⟨.snoc .refl (by decide), fun j hj => ?_⟩
    cases j with
    | zero => cases hj
    | succ j => omega
  obtain ⟨g', hwrites⟩ := pathWrites_routeDiscovery Topology.line.binary Topology.line.size
    (by decide) (by decide) hdist (fun _ => false) zeroed
  have hfirst := h Topology.line.nodeMap Topology.line.n 1 2 (fun _ => false) zeroed
    Topology.line.binary Topology.line.size (by decide) (by decide) _ _ g' hwrites (-1) (by decide)
  exact absurd hfirst.1 (by decide)

end M2M.Network.Routing
