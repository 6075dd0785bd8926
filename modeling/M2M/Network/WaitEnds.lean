import M2M.Network.WaitLoop

/-! When the wait loop ends on queues and clocks that do not change. -/

namespace M2M.Network.WaitLoop

namespace Router

variable {r : Router} {snap : Nat → Visit} {c p : Choice} {k m : Nat}

/-- The packet that is chosen once the first `m` queues have been looked at, and the index
from which its deadlines count: the chosen packet itself when no head is earlier, else the
first of the earliest heads. -/
def SettlesAt (r : Router) (snap : Nat → Visit) (c : Choice) (m : Nat) (p : Choice) (k : Nat) :
    Prop :=
  (p = c ∧ k = 0 ∧ ∀ i < m, ∀ h ∈ (snap i).head, c.key ≤ packetKey h) ∨
    ∃ h ∈ (snap k).head, p = r.take k h ∧ k < m ∧ packetKey h < c.key ∧
      (∀ i < k, ∀ g ∈ (snap i).head, packetKey h < packetKey g) ∧
      ∀ i < m, ∀ g ∈ (snap i).head, packetKey h ≤ packetKey g

/-- The packet that stays chosen on this snapshot. -/
def Settles (r : Router) (snap : Nat → Visit) (c p : Choice) (k : Nat) : Prop :=
  r.SettlesAt snap c r.searchNum p k

/-- The indices from `k` on whose clock passes the test. -/
def passing (r : Router) (snap : Nat → Visit) (p : Choice) (k : Nat) : Finset Nat :=
  (Finset.range r.searchNum).filter fun i => k ≤ i ∧ r.Passes p i (snap i).clock

/-- Every neighbour but the forwarder has a clock of at least
`packet_mintime - one_hop_latency`. -/
def Ready (r : Router) (snap : Nat → Visit) (p : Choice) : Prop :=
  ∀ i < r.neighborNum, r.neighbors i ≠ p.packetFrom → r.tmpMintime p ≤ (snap i).clock

/-- The loop sets `deadline` after finitely many scans. -/
def Ends (r : Router) (snap : Nat → Visit) (c : Choice) : Prop :=
  ∃ fuel, (r.waitLoop (fun _ => snap) fuel 0 (.start c)).isSome

def NoEarlier (r : Router) (snap : Nat → Visit) (p : Choice) : Prop :=
  ∀ i < r.searchNum, ∀ h ∈ (snap i).head, p.key ≤ packetKey h

theorem not_beaten {p : Choice} {head : Option HQe} :
    ¬ p.Beaten head ↔ ∀ h ∈ head, p.key ≤ packetKey h := by
  simp [Choice.Beaten, Choice.later_iff]

theorem SettlesAt.noEarlier (h : r.SettlesAt snap c m p k) :
    ∀ i < m, ∀ g ∈ (snap i).head, p.key ≤ packetKey g := by
  rcases h with ⟨rfl, -, h⟩ | ⟨h, -, rfl, -, -, -, hle⟩
  · exact h
  · exact hle

theorem SettlesAt.keep (h : r.SettlesAt snap c m p k) (hm : ¬ p.Beaten (snap m).head) :
    r.SettlesAt snap c (m + 1) p k := by
  have hm := not_beaten.1 hm
  have hall : ∀ i < m + 1, ∀ g ∈ (snap i).head, p.key ≤ packetKey g := by
    intro i hi g hg
    rcases Nat.lt_succ_iff_lt_or_eq.1 hi with hi | rfl
    · exact h.noEarlier i hi g hg
    · exact hm g hg
  rcases h with ⟨rfl, rfl, -⟩ | ⟨h, hh, rfl, hk, hlt, hfirst, -⟩
  · exact .inl ⟨rfl, rfl, hall⟩
  · exact .inr ⟨h, hh, rfl, by omega, hlt, hfirst, hall⟩

theorem SettlesAt.replace (h : r.SettlesAt snap c m p k) {g : HQe} (hg : (snap m).head = some g)
    (hl : p.Later g) : r.SettlesAt snap c (m + 1) (r.take m g) m := by
  rw [Choice.later_iff] at hl
  have hfirst : ∀ i < m, ∀ f ∈ (snap i).head, packetKey g < packetKey f := fun i hi f hf =>
    hl.trans_le (h.noEarlier i hi f hf)
  have hc : p.key ≤ c.key := by
    rcases h with ⟨rfl, -, -⟩ | ⟨h, -, rfl, -, hlt, -, -⟩
    · exact le_rfl
    · exact hlt.le
  refine .inr ⟨g, hg, rfl, by omega, hl.trans_le hc, hfirst, fun i hi f hf => ?_⟩
  rcases Nat.lt_succ_iff_lt_or_eq.1 hi with hi | rfl
  · exact (hfirst i hi f hf).le
  · rw [hg] at hf
    rw [Option.some.inj hf]

theorem Settles.unique {p' : Choice} {k' : Nat} (h : r.Settles snap c p k)
    (h' : r.Settles snap c p' k') : p' = p ∧ k' = k := by
  rcases h with ⟨rfl, rfl, hno⟩ | ⟨g, hg, rfl, hk, hlt, hfirst, hle⟩
  · rcases h' with ⟨rfl, rfl, -⟩ | ⟨g', hg', -, hk', hlt', -, -⟩
    · exact ⟨rfl, rfl⟩
    · exact absurd hlt' (not_lt.2 (hno k' hk' g' hg'))
  · rcases h' with ⟨rfl, rfl, hno'⟩ | ⟨g', hg', rfl, hk', hlt', hfirst', hle'⟩
    · exact absurd hlt (not_lt.2 (hno' k hk g hg))
    · have hkk : k' = k := by
        rcases Nat.lt_trichotomy k' k with hlt | heq | hlt
        · exact absurd (hfirst k' hlt g' hg') (not_lt.2 (hle' k hk g hg))
        · exact heq
        · exact absurd (hfirst' k hlt g hg) (not_lt.2 (hle k' hk' g' hg'))
      subst hkk
      rw [hg] at hg'
      exact ⟨by rw [Option.some.inj hg'], rfl⟩

/-- A scan as far as index `m`. -/
def scanTo (r : Router) (snap : Nat → Visit) (w : Wait) (m : Nat) : Wait :=
  ((List.range m).map fun index => (index, snap index)).foldl r.visit w

theorem scanTo_succ (w : Wait) (m : Nat) :
    r.scanTo snap w (m + 1) = r.visit (r.scanTo snap w m) (m, snap m) := by
  simp [scanTo, List.range_succ]

theorem scan_eq (w : Wait) : r.scan w snap = r.scanTo snap w r.searchNum := rfl

theorem counted_scan {w : Wait} (h : r.Counted w) : r.Counted (r.scan w snap) :=
  h.foldl fun _ hx => mem_visits hx

theorem passing_to_succ (hk : k ≤ m) (hm : m < r.searchNum) :
    (r.passing snap p k).filter (· < m + 1) =
      if r.Passes p m (snap m).clock then insert m ((r.passing snap p k).filter (· < m))
      else (r.passing snap p k).filter (· < m) := by
  have hmem : m ∈ r.passing snap p k ↔ r.Passes p m (snap m).clock := by
    simp [passing, hm, hk]
  ext i
  simp only [apply_ite (i ∈ ·), Finset.mem_insert, Finset.mem_filter, Nat.lt_succ_iff_lt_or_eq]
  by_cases hi : i = m
  · subst hi
    simp [hmem]
  · simp [hi]

theorem passing_to_self (snap : Nat → Visit) (p : Choice) (m : Nat) :
    (r.passing snap p m).filter (· < m) = ∅ := by
  refine Finset.filter_eq_empty_iff.2 fun i hi => ?_
  have hmi : m ≤ i := (Finset.mem_filter.1 hi).2.1
  omega

theorem passing_to_searchNum (snap : Nat → Visit) (p : Choice) (k : Nat) :
    (r.passing snap p k).filter (· < r.searchNum) = r.passing snap p k :=
  Finset.filter_true_of_mem fun _ hi => Finset.mem_range.1 (Finset.mem_filter.1 hi).1

theorem SettlesAt.le (h : r.SettlesAt snap c m p k) : k ≤ m := by
  rcases h with ⟨-, rfl, -⟩ | ⟨-, -, -, hk, -⟩
  · exact Nat.zero_le m
  · exact hk.le

theorem firstScan_settles (snap : Nat → Visit) (c : Choice) (hm : m ≤ r.searchNum) :
    ∃ p k, r.SettlesAt snap c m p k ∧ (r.scanTo snap (.start c) m).choice = p ∧
      r.flagged (r.scanTo snap (.start c) m) = (r.passing snap p k).filter (· < m) := by
  induction m with
  | zero => exact ⟨c, 0, .inl ⟨rfl, rfl, by simp⟩, rfl, by simp [scanTo]⟩
  | succ m ih =>
    obtain ⟨p, k, hs, hchoice, hflag⟩ := ih (by omega)
    have hlt : m < r.searchNum := hm
    rw [scanTo_succ]
    by_cases hb : p.Beaten (snap m).head
    · obtain ⟨g, hg, hl⟩ := hb
      refine ⟨r.take m g, m, hs.replace hg hl, ?_, ?_⟩
      · rw [choice_visit, hchoice, look_of_beaten hg hl]
      · rw [visit, flagged_test _ hlt, check_of_beaten hg (hchoice ▸ hl), flagged_start]
        rw [passing_to_succ le_rfl hlt, passing_to_self]
        rfl
    · refine ⟨p, k, hs.keep hb, ?_, ?_⟩
      · rw [choice_visit, hchoice, look_of_not_beaten _ hb]
      · rw [visit, flagged_test _ hlt, check_of_not_beaten _ (hchoice.symm ▸ hb), hchoice, hflag,
          passing_to_succ hs.le hlt]

theorem scanTo_of_noEarlier {w : Wait} (hno : r.NoEarlier snap w.choice) (hm : m ≤ r.searchNum) :
    (r.scanTo snap w m).choice = w.choice ∧
      r.flagged (r.scanTo snap w m) =
        r.flagged w ∪ (r.passing snap w.choice 0).filter (· < m) := by
  induction m with
  | zero => simp [scanTo]
  | succ m ih =>
    obtain ⟨hchoice, hflag⟩ := ih (by omega)
    have hlt : m < r.searchNum := hm
    have hb : ¬ w.choice.Beaten (snap m).head := not_beaten.2 (hno m hlt)
    rw [scanTo_succ]
    constructor
    · rw [choice_visit, hchoice, look_of_not_beaten _ hb]
    · rw [visit, flagged_test _ hlt, check_of_not_beaten _ (hchoice.symm ▸ hb), hchoice, hflag,
        passing_to_succ (Nat.zero_le m) hlt]
      split
      · rw [Finset.union_insert]
      · rfl

theorem scan_of_noEarlier {w : Wait} (hno : r.NoEarlier snap w.choice)
    (hsub : r.flagged w ⊆ r.passing snap w.choice 0) :
    (r.scan w snap).choice = w.choice ∧
      r.flagged (r.scan w snap) = r.passing snap w.choice 0 := by
  obtain ⟨hchoice, hflag⟩ := scanTo_of_noEarlier hno (le_refl r.searchNum)
  rw [passing_to_searchNum, Finset.union_eq_right.2 hsub] at hflag
  exact ⟨hchoice, hflag⟩

theorem waitLoop_isSome_iff {w : Wait} (hcounted : r.Counted w) (hno : r.NoEarlier snap w.choice)
    (hsub : r.flagged w ⊆ r.passing snap w.choice 0) (k : Nat) :
    (∃ fuel, (r.waitLoop (fun _ => snap) fuel k w).isSome) ↔
      (r.passing snap w.choice 0).card + 2 = r.searchNum := by
  have hscan : ∀ {w : Wait}, r.Counted w → r.NoEarlier snap w.choice →
      r.flagged w ⊆ r.passing snap w.choice 0 →
      (r.scan w snap).count = (r.passing snap w.choice 0).card := by
    intro w hcounted hno hsub
    rw [← (scan_of_noEarlier hno hsub).2]
    exact counted_scan hcounted
  constructor
  · rintro ⟨fuel, hend⟩
    induction fuel generalizing k w with
    | zero => simp [waitLoop] at hend
    | succ fuel ih =>
      obtain ⟨hchoice, hflag⟩ := scan_of_noEarlier hno hsub
      rw [waitLoop] at hend
      split at hend
      next hcount => rwa [hscan hcounted hno hsub] at hcount
      next =>
        rw [← hchoice]
        refine ih (counted_scan hcounted) (hchoice.symm ▸ hno) ?_ (k + 1) hend
        rw [hflag, hchoice]
  · intro hcard
    refine ⟨1, ?_⟩
    rw [waitLoop, if_pos (by rw [hscan hcounted hno hsub, hcard])]
    rfl

theorem passing_subset (snap : Nat → Visit) (p : Choice) (k : Nat) :
    r.passing snap p k ⊆ r.passing snap p 0 :=
  Finset.monotone_filter_right _ fun i _ hi => ⟨Nat.zero_le i, hi.2⟩

/-- Only the counts of the first and of the later scans are compared with
`search_num - 2`. -/
theorem ends_iff (h : r.Settles snap c p k) :
    r.Ends snap c ↔ (r.passing snap p k).card + 2 = r.searchNum ∨
      (r.passing snap p 0).card + 2 = r.searchNum := by
  obtain ⟨p', k', hs, hchoice, hflag⟩ := firstScan_settles snap c (le_refl r.searchNum)
  obtain ⟨rfl, rfl⟩ := h.unique hs
  rw [passing_to_searchNum] at hflag
  rw [← scan_eq] at hchoice hflag
  have hcounted : r.Counted (r.scan (.start c) snap) := counted_scan (counted_start c)
  have hcount : (r.scan (.start c) snap).count = (r.passing snap p' k').card := by
    rw [← hflag]
    exact hcounted
  have hrest := waitLoop_isSome_iff hcounted (hchoice.symm ▸ hs.noEarlier)
    (by rw [hflag, hchoice]; exact passing_subset snap p' k') 1
  rw [hchoice] at hrest
  rw [← hrest]
  constructor
  · rintro ⟨fuel, hend⟩
    cases fuel with
    | zero => simp [waitLoop] at hend
    | succ fuel =>
      rw [waitLoop] at hend
      split at hend
      next hcard => exact .inl (hcount ▸ hcard)
      next => exact .inr ⟨fuel, hend⟩
  · rintro (hcard | ⟨fuel, hend⟩)
    · refine ⟨1, ?_⟩
      rw [waitLoop, if_pos (by rw [hcount, hcard])]
      rfl
    · refine ⟨fuel + 1, ?_⟩
      rw [waitLoop]
      split
      · rfl
      · exact hend

/-- With all neighbours ready, the loop ends exactly when the first scan or the later ones
count two devices less than they visit: the forwarder and one more. -/
theorem waitLoop_ends_iff (r : Router) (snap : Nat → Visit) (c p : Choice) (k : Nat)
    (h : r.Settles snap c p k) :
    (2 < r.searchNum → r.Ready snap p → r.Ends snap c) ↔
      (2 < r.searchNum → r.Ready snap p →
        (r.passing snap p k).card + 2 = r.searchNum ∨
          (r.passing snap p 0).card + 2 = r.searchNum) := by
  rw [ends_iff h]

end Router

/-- An earlier packet of device 2 has come in since it was chosen. -/
def overtaken (i : Nat) : Visit :=
  ⟨if i = 1 then some ⟨0, 1, 2, 3, 2, -1, 40, 50⟩ else none, 95⟩

def quiet (_ : Nat) : Visit := ⟨none, 95⟩

theorem waitLoop_ends_iff_overtaken :
    (2 < three.searchNum → three.Ready overtaken ⟨90, 40, 2, 3, 1⟩ → three.Ends overtaken onward) ↔
      (2 < three.searchNum → three.Ready overtaken ⟨90, 40, 2, 3, 1⟩ →
        (three.passing overtaken ⟨90, 40, 2, 3, 1⟩ 1).card + 2 = three.searchNum ∨
          (three.passing overtaken ⟨90, 40, 2, 3, 1⟩ 0).card + 2 = three.searchNum) :=
  Router.waitLoop_ends_iff three overtaken onward ⟨90, 40, 2, 3, 1⟩ 1
    (.inr ⟨⟨0, 1, 2, 3, 2, -1, 40, 50⟩, rfl, rfl, by decide, by decide, by decide, by decide⟩)

/-- The clocks of devices 2 and 3 pass in the same scan: the count goes from zero to two. -/
theorem not_waitLoop_ends :
    ¬ ∀ (r : Router) (snap : Nat → Visit) (c p : Choice) (k : Nat), r.Settles snap c p k →
      2 < r.searchNum → r.Ready snap p → r.Ends snap c := by
  intro h
  have hsettles : three.Settles quiet onward onward 0 := .inl ⟨rfl, rfl, by simp [quiet]⟩
  have hready : three.Ready quiet onward := by
    intro i _ _
    exact (by decide : (90 : UInt64) ≤ 95)
  have hends := h three quiet onward onward 0 hsettles (by decide) hready
  rw [Router.ends_iff hsettles] at hends
  exact absurd hends (by decide)

end M2M.Network.WaitLoop
