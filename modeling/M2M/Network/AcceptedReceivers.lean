import M2M.Network.Dbp
import M2M.Network.Memory

/-! Which of the receivers that `m2m_send` accepts can be routed to. -/

namespace M2M.Network.Routing

open M2M.Lib M2M.Lib.Loop

variable {nodeMap : Nat → Nat → Nat} {n : Nat}

/-- The argument check of `m2m_send`. -/
def Accepted (deviceID totalDeviceNum receiverID : Int) : Prop :=
  ¬(receiverID = deviceID ∨ receiverID > totalDeviceNum ∨ receiverID < 0)

instance (deviceID totalDeviceNum receiverID : Int) :
    Decidable (Accepted deviceID totalDeviceNum receiverID) := inferInstanceAs (Decidable (¬_))

/-- The recursion of `routePath` comes to an end: every call reads its `prev` before it
calls itself and writes only afterwards. -/
inductive Unwinds (prev : Nat → Int) : Nat → Prop
  | root {dest} : prev dest = -1 → Unwinds prev dest
  | call {dest} : prev dest ≠ -1 → Unwinds prev (prev dest).toNat → Unwinds prev dest

theorem not_unwinds_of_loop {prev : Nat → Int} {dest : Nat} (hloop : prev dest = dest) :
    ¬ Unwinds prev dest := by
  intro h
  induction h with
  | root hroot => omega
  | call _ _ ih =>
    apply ih
    rw [hloop, Int.toNat_natCast, hloop]

theorem Tree.unwinds {src : Nat} {prev : Nat → Int} (ht : Tree nodeMap n src prev) {i k : Nat}
    (hi : IsDist (Link nodeMap n) src i k) (hk : k < maxSize) : Unwinds prev i := by
  induction k generalizing i with
  | zero =>
    obtain rfl := hi.eq_of_zero
    exact .root ht.root
  | succ k ih =>
    obtain ⟨p, hp, -, hdist⟩ := ht.parent i k hi hk
    refine .call (by omega) ?_
    rw [hp, Int.toNat_natCast]
    exact ih hdist (by omega)

theorem initLoop_zero (n : Nat) (s : Search) : (initLoop n s).prev 0 = s.prev 0 := by
  refine forUpTo_induct (fun _ (t : Search) => t.prev 0 = s.prev 0) rfl ?_
  intro i t _ ht
  rw [← ht]
  exact Function.update_of_ne (Nat.succ_ne_zero i).symm (-1) t.prev

theorem round_zero (s : Search) : (round nodeMap n s).prev 0 = s.prev 0 := by
  unfold round
  cases findMini n s with
  | none => rfl
  | some mini =>
    refine forUpTo_induct (fun _ (t : Search) => t.prev 0 = s.prev 0) rfl ?_
    intro i t _ ht
    rw [← ht, relaxOne]
    split
    · split
      · exact Function.update_of_ne (Nat.succ_ne_zero i).symm (mini : Int) t.prev
      · rfl
    · rfl

theorem dijkstra_zero (visited : Nat → Bool) (g : Globals) (src : Nat) :
    (dijkstra nodeMap n visited g src).prev 0 = g.prev 0 := by
  rw [dijkstra_eq]
  refine forUpTo_induct (fun _ (s : Search) => s.prev 0 = g.prev 0) (initLoop_zero n _) ?_
  intro i s _ hs
  rw [round_zero, hs]

theorem routePath_prev {fuel : Nat} {g g' : Globals} {dest : Nat}
    (h : routePath fuel g dest = some g') : g'.prev = g.prev := by
  induction fuel generalizing g' dest with
  | zero => cases h
  | succ fuel ih =>
    by_cases hp : g.prev dest = -1
    · rw [routePath, if_neg (not_not.2 hp)] at h
      simp only [Option.bind_eq_bind, Option.bind_some] at h
      split at h
      · cases h
        rfl
      · cases h
    · rw [routePath, if_pos hp] at h
      obtain ⟨g₁, hg₁, h⟩ := Option.bind_eq_some_iff.1 h
      beta_reduce at h
      split at h
      · cases h
        show g₁.prev = g.prev
        exact ih hg₁
      · cases h

theorem After.prev_zero {g : Globals} (h : After n g) : g.prev 0 = 0 := by
  obtain ⟨calls, -, hrun⟩ := h
  have hinv : ∀ g₀ : Globals, g₀.prev 0 = 0 → calls.foldlM (RouteCall.run n) g₀ = some g →
      g.prev 0 = 0 := by
    clear hrun
    induction calls with
    | nil =>
      intro g₀ h₀ hrun
      cases hrun
      exact h₀
    | cons call calls ih =>
      intro g₀ h₀ hrun
      rw [List.foldlM_cons] at hrun
      obtain ⟨g₁, hg₁, hrun⟩ := Option.bind_eq_some_iff.1 hrun
      refine ih g₁ ?_ hrun
      rw [RouteCall.run, routeDiscovery, Option.map_map] at hg₁
      obtain ⟨g₂, hg₂, rfl⟩ := Option.map_eq_some_iff.1 hg₁
      show g₂.prev 0 = 0
      rw [routePath_prev hg₂]
      exact (dijkstra_zero _ _ _).trans h₀
  exact hinv zeroed rfl hrun

/-- A call for receiver 0 never returns, whatever was called before. -/
theorem not_unwinds_zero {g : Globals} (h : After n g) (visited : Nat → Bool) (src : Nat) :
    ¬ Unwinds (dijkstra nodeMap n visited g src).prev 0 := by
  apply not_unwinds_of_loop
  rw [dijkstra_zero, h.prev_zero]
  rfl

/-- The queue of its own that a receiver reads: the only one of an end device, the one
behind the links of a router or coordinator. -/
def localQueue (type : DeviceType) : Nat := if type = .zed then 0 else nodeMaxLinks

/-- `m2m_dbp_init` of the receiver has set the addresses of that queue. -/
def HasLocalQueue (base : Nat) (type : DeviceType) : Prop :=
  (Dbp.hqMetaStart base (some type) (localQueue type)).isSome ∧
    ∀ ent < headerQueueEntryNum, (Dbp.hqBufferStart base (some type) (localQueue type) ent).isSome

theorem hasLocalQueue_iff (base : Nat) (type : DeviceType) :
    HasLocalQueue base type ↔ type ≠ .zr := by
  cases type with
  | zc => simp +contextual [HasLocalQueue, localQueue, Dbp.hqMetaStart, Dbp.hqBufferStart]
  | zr => simp [HasLocalQueue, localQueue, Dbp.hqMetaStart]
  | zed => simp +contextual [HasLocalQueue, localQueue, Dbp.hqMetaStart, Dbp.hqBufferStart]

/-- The packet can be routed on every device, whatever calls were made there before, and
its receiver has a queue for it. -/
def Routable (nodeMap : Nat → Nat → Nat) (n : Nat) (type : Nat → DeviceType) (receiver : Nat) :
    Prop :=
  (∀ start, Device n start → ∀ g, After n g → ∀ visited,
    Unwinds (dijkstra nodeMap n visited g start).prev receiver) ∧
  ∀ base, HasLocalQueue base (type receiver)

/-- An accepted receiver can be routed to unless it is 0 or a router. -/
theorem accepted_routable_iff (hbin : ∀ a b, nodeMap a b ≤ 1) (hn : n < maxNodeNum)
    (hconn : ∀ a b, Device n a → Device n b → ∃ k, Steps (Link nodeMap n) k a b)
    (type : Nat → DeviceType) (deviceID : Nat) (hdev : Device n deviceID) (receiverID : Int)
    (hacc : Accepted deviceID n receiverID) :
    Routable nodeMap n type receiverID.toNat ↔
      receiverID ≠ 0 ∧ type receiverID.toNat ≠ .zr := by
  simp only [Accepted, not_or, not_lt, gt_iff_lt] at hacc
  constructor
  · rintro ⟨hroute, hqueue⟩
    refine ⟨?_, (hasLocalQueue_iff 0 _).1 (hqueue 0)⟩
    rintro rfl
    exact not_unwinds_zero (after_zeroed n) _ _
      (hroute deviceID hdev zeroed (after_zeroed n) fun _ => false)
  · rintro ⟨hzero, htype⟩
    have hrecv : Device n receiverID.toNat := ⟨by omega, by omega⟩
    refine ⟨fun start hstart g _ visited => ?_, fun base => (hasLocalQueue_iff base _).2 htype⟩
    obtain ⟨k, hk⟩ := IsDist.exists_of_steps (hconn start _ hstart hrecv)
    exact (dijkstra_tree hbin hstart visited g).unwinds hk (lt_maxSize hn hstart hk)

theorem line_steps (a b : Nat) (ha : Device Topology.line.n a) (hb : Device Topology.line.n b) :
    ∃ k, Steps (Link Topology.line.nodeMap Topology.line.n) k a b := by
  obtain ⟨k, -, hk⟩ := Topology.line.connected a b ha hb
  exact ⟨k, hk⟩

theorem accepted_routable_iff_line :
    Routable Topology.line.nodeMap Topology.line.n Topology.lineType (3 : Int).toNat ↔
      (3 : Int) ≠ 0 ∧ Topology.lineType (3 : Int).toNat ≠ .zr :=
  accepted_routable_iff Topology.line.binary (by decide) line_steps Topology.lineType 1 (by decide)
    3 (by decide)

/-- Device 3 may send to receiver 0, and the recursion does not end. -/
theorem not_accepted_routable :
    ¬ ∀ (nodeMap : Nat → Nat → Nat) (n : Nat) (type : Nat → DeviceType) (deviceID : Nat)
      (receiverID : Int), (∀ a b, nodeMap a b ≤ 1) → n < maxNodeNum →
        (∀ a b, Device n a → Device n b → ∃ k, Steps (Link nodeMap n) k a b) →
        Device n deviceID → Accepted deviceID n receiverID →
          Routable nodeMap n type receiverID.toNat := by
  intro h
  obtain ⟨hroute, -⟩ := h Topology.line.nodeMap Topology.line.n Topology.lineType 3 0
    Topology.line.binary (by decide) line_steps
    (by decide) (by decide)
  exact not_unwinds_zero (after_zeroed Topology.line.n) _ _
    (hroute 3 (by decide) zeroed (after_zeroed Topology.line.n) fun _ => false)

end M2M.Network.Routing
