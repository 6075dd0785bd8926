import M2M.Network.WaitLoop

/-! Which devices the router has waited for when its wait loop ends. -/

namespace M2M.Network.WaitLoop

open M2M.Lib

namespace Router

variable {r : Router}

/-- Since the last change of the chosen packet, a visit of index `j` has read a clock of at
least `packet_mintime - one_hop_latency`. -/
def Observed (r : Router) (w₀ : Wait) (past : List (Nat × Visit)) (j : Nat) : Prop :=
  ∃ before v after, past = before ++ (j, v) :: after ∧
    r.tmpMintime (past.foldl r.visit w₀).choice ≤ v.clock ∧
    ∀ mid, mid <+: after → ((before ++ (j, v) :: mid).foldl r.visit w₀).choice =
      (past.foldl r.visit w₀).choice

/-- All devices but the packet's forwarder and its next hop have been observed. -/
def WaitedFor (r : Router) (w₀ : Wait) (past : List (Nat × Visit)) : Prop :=
  ∀ j, j < r.searchNum → r.device j ≠ (past.foldl r.visit w₀).choice.packetFrom →
    r.device j ≠ (past.foldl r.visit w₀).choice.packetNext → r.Observed w₀ past j

/-- Forwarder and next hop are two of the devices that the router scans. -/
def Between (r : Router) (c : Choice) : Prop :=
  (∃ i < r.searchNum, r.device i = c.packetFrom) ∧
    (∃ i < r.searchNum, r.device i = c.packetNext) ∧ c.packetFrom ≠ c.packetNext

instance (c : Choice) : Decidable (r.Between c) := inferInstanceAs (Decidable (_ ∧ _))

/-- The visit does not count the next hop. -/
def Spares (r : Router) (w : Wait) (x : Nat × Visit) : Prop :=
  r.Between (r.look w.choice x.1 x.2.head) ∧
    (r.device x.1 = (r.look w.choice x.1 x.2.head).packetNext →
      ¬ r.tmpMintime (r.look w.choice x.1 x.2.head) ≤ x.2.clock)

instance (w : Wait) (x : Nat × Visit) : Decidable (r.Spares w x) :=
  inferInstanceAs (Decidable (_ ∧ _))

theorem Observed.concat {w₀ : Wait} {past : List (Nat × Visit)} {j : Nat}
    (h : r.Observed w₀ past j) {x : Nat × Visit}
    (hx : (r.visit (past.foldl r.visit w₀) x).choice = (past.foldl r.visit w₀).choice) :
    r.Observed w₀ (past ++ [x]) j := by
  obtain ⟨before, v, after, rfl, hclock, hsame⟩ := h
  refine ⟨before, v, after ++ [x], by simp, ?_, fun mid hmid => ?_⟩
  · rw [List.foldl_concat, hx]
    exact hclock
  · rw [List.foldl_concat, hx]
    rcases List.prefix_concat_iff.1 hmid with rfl | hmid
    · rw [← List.cons_append, ← List.append_assoc, List.foldl_concat]
      exact hx
    · exact hsame mid hmid

theorem Observed.last {w₀ : Wait} (past : List (Nat × Visit)) {x : Nat × Visit}
    (hx : r.tmpMintime (r.visit (past.foldl r.visit w₀) x).choice ≤ x.2.clock) :
    r.Observed w₀ (past ++ [x]) x.1 := by
  refine ⟨past, x.2, [], rfl, ?_, fun mid hmid => ?_⟩
  · rw [List.foldl_concat]
    exact hx
  · rw [List.prefix_nil.1 hmid]

/-- What is known of the indices whose deadline is set. -/
structure Waiting (r : Router) (w₀ : Wait) (past : List (Nat × Visit)) : Prop where
  counted : r.Counted (past.foldl r.visit w₀)
  observed : ∀ j ∈ r.flagged (past.foldl r.visit w₀), r.Observed w₀ past j
  forwarder : ∀ j ∈ r.flagged (past.foldl r.visit w₀),
    r.device j ≠ (past.foldl r.visit w₀).choice.packetFrom

theorem mem_flagged_visit {w : Wait} {x : Nat × Visit} (hx : x.1 < r.searchNum) {j : Nat}
    (hj : j ∈ r.flagged (r.visit w x)) :
    (j = x.1 ∧ r.Passes (r.visit w x).choice x.1 x.2.clock) ∨
      (j ∈ r.flagged w ∧ (r.visit w x).choice = w.choice) := by
  have hold : j ∈ r.flagged (r.check w x.1 x.2.head) →
      j ∈ r.flagged w ∧ (r.visit w x).choice = w.choice := by
    intro h
    rw [choice_visit]
    by_cases hb : w.choice.Beaten x.2.head
    · obtain ⟨p, hp, hl⟩ := hb
      rw [check_of_beaten hp hl, flagged_start] at h
      exact absurd h (Finset.notMem_empty j)
    · rw [check_of_not_beaten _ hb] at h
      exact ⟨h, look_of_not_beaten _ hb⟩
  rw [visit, flagged_test _ hx] at hj
  split at hj
  next hp =>
    rcases Finset.mem_insert.1 hj with rfl | hj
    · exact .inl ⟨rfl, by rwa [visit, choice_test]⟩
    · exact .inr (hold hj)
  next => exact .inr (hold hj)

theorem Waiting.start (c : Choice) : r.Waiting (.start c) [] where
  counted := counted_start c
  observed := by simp
  forwarder := by simp

theorem Waiting.visit {w₀ : Wait} {past : List (Nat × Visit)} (h : r.Waiting w₀ past)
    {x : Nat × Visit} (hx : x.1 < r.searchNum) : r.Waiting w₀ (past ++ [x]) where
  counted := by
    rw [List.foldl_concat]
    exact h.counted.visit hx
  observed := by
    intro j hj
    rw [List.foldl_concat] at hj
    rcases mem_flagged_visit hx hj with ⟨rfl, hp⟩ | ⟨hold, hsame⟩
    · exact .last past hp.2
    · exact (h.observed j hold).concat hsame
  forwarder := by
    intro j hj
    rw [List.foldl_concat] at hj ⊢
    rcases mem_flagged_visit hx hj with ⟨rfl, hp⟩ | ⟨hold, hsame⟩
    · exact hp.1.symm
    · rw [hsame]
      exact h.forwarder j hold

theorem waiting_of_mem (c : Choice) {past : List (Nat × Visit)}
    (hpast : ∀ x ∈ past, x.1 < r.searchNum) : r.Waiting (.start c) past := by
  induction past using List.reverseRecOn with
  | nil => exact .start c
  | append_singleton past x ih =>
    exact (ih fun y hy => hpast y (List.mem_append_left _ hy)).visit (hpast x (by simp))

theorem next_not_flagged (c : Choice) {past : List (Nat × Visit)}
    (hpast : ∀ x ∈ past, x.1 < r.searchNum) (hs : Along r.visit r.Spares (.start c) past) :
    ∀ j ∈ r.flagged (past.foldl r.visit (.start c)),
      r.device j ≠ (past.foldl r.visit (.start c)).choice.packetNext := by
  induction past using List.reverseRecOn with
  | nil => simp
  | append_singleton past x ih =>
    intro j hj
    obtain ⟨hbefore, hx⟩ := Along.concat_iff.1 hs
    rw [List.foldl_concat] at hj ⊢
    rcases mem_flagged_visit (hpast x (by simp)) hj with ⟨rfl, hp⟩ | ⟨hold, hsame⟩
    · rw [choice_visit] at hp ⊢
      exact fun hnext => hx.2 hnext hp.2
    · rw [hsame]
      exact ih (fun y hy => hpast y (List.mem_append_left _ hy)) hbefore j hold

theorem between_of_spares {c : Choice} {past : List (Nat × Visit)} (hne : past ≠ [])
    (hs : Along r.visit r.Spares (.start c) past) :
    r.Between (past.foldl r.visit (.start c)).choice := by
  obtain ⟨before, x, rfl⟩ := List.eq_nil_or_concat past |>.resolve_left hne
  rw [List.concat_eq_append] at hs ⊢
  rw [List.foldl_concat, choice_visit]
  exact (Along.concat_iff.1 hs).2.1

theorem mem_flagged_of_count {w : Wait} (hcounted : r.Counted w)
    (hcount : w.count + 2 = r.searchNum) (hbetween : r.Between w.choice)
    (hfrom : ∀ j ∈ r.flagged w, r.device j ≠ w.choice.packetFrom)
    (hnext : ∀ j ∈ r.flagged w, r.device j ≠ w.choice.packetNext) {j : Nat}
    (hj : j < r.searchNum) (hjfrom : r.device j ≠ w.choice.packetFrom)
    (hjnext : r.device j ≠ w.choice.packetNext) : j ∈ r.flagged w := by
  obtain ⟨⟨p, hp, hpfrom⟩, ⟨q, hq, hqnext⟩, hne⟩ := hbetween
  by_contra hmem
  have hpq : p ≠ q := by
    rintro rfl
    exact hne (hpfrom.symm.trans hqnext)
  have hjp : j ≠ p := by
    rintro rfl
    exact hjfrom hpfrom
  have hjq : j ≠ q := by
    rintro rfl
    exact hjnext hqnext
  have hsub : insert j (insert p (insert q (r.flagged w))) ⊆ Finset.range r.searchNum := by
    intro i hi
    simp only [Finset.mem_insert, mem_flagged, Finset.mem_range] at hi ⊢
    rcases hi with rfl | rfl | rfl | hi
    · exact hj
    · exact hp
    · exact hq
    · exact hi.1
  have hpmem : p ∉ r.flagged w := fun h => hfrom p h hpfrom
  have hqmem : q ∉ r.flagged w := fun h => hnext q h hqnext
  have hcard := Finset.card_le_card hsub
  rw [Finset.card_insert_of_notMem (by simp [hjp, hjq, hmem]),
    Finset.card_insert_of_notMem (by simp [hpq, hpmem]), Finset.card_insert_of_notMem hqmem,
    Finset.card_range, ← show w.count = _ from hcounted] at hcard
  omega

/-- In a run that never counts the next hop, the wait loop ends with everybody else
observed. -/
theorem waitLoop_waitedFor (r : Router) (hsn : 2 < r.searchNum) (c : Choice)
    (obs : Nat → Nat → Visit) (fuel n : Nat) (w : Wait)
    (h : r.waitLoop obs fuel 0 (.start c) = some (n, w))
    (hs : Along r.visit r.Spares (.start c) (r.history obs n)) :
    w = (r.history obs n).foldl r.visit (.start c) ∧
      r.WaitedFor (.start c) (r.history obs n) := by
  obtain ⟨rfl, hcount⟩ := waitLoop_eq_some (k := 0) h
  have hpast : ∀ x ∈ r.history obs n, x.1 < r.searchNum := fun x hx => mem_history hx
  have hne : r.history obs n ≠ [] := by
    intro hnil
    rw [hnil, List.foldl_nil] at hcount
    have hcount : 0 + 2 = r.searchNum := hcount
    omega
  have hwaiting := waiting_of_mem c hpast
  refine ⟨rfl, fun j hj hfrom hnext => hwaiting.observed j ?_⟩
  exact mem_flagged_of_count hwaiting.counted hcount (between_of_spares hne hs)
    hwaiting.forwarder (next_not_flagged c hpast hs) hj hfrom hnext

end Router

/-- The clocks of devices 2 and 3 when the queues are empty. -/
def clocks (t u : UInt64) : Nat → Nat → Visit := fun _ i => ⟨none, if i = 1 then t else u⟩

theorem waitLoop_waitedFor_three :
    ⟨onward, Function.update (fun _ => false) 2 true, 1⟩ =
        (three.history (clocks 0 90) 1).foldl three.visit (.start onward) ∧
      three.WaitedFor (.start onward) (three.history (clocks 0 90) 1) :=
  Router.waitLoop_waitedFor three (by decide) onward (clocks 0 90) 1 1 _ rfl (by decide)

/-- The clock of the next hop is counted in the place of the clock of device 3. -/
theorem not_waitLoop_waitedFor :
    ¬ ∀ (r : Router) (c : Choice) (obs : Nat → Nat → Visit) (fuel n : Nat) (w : Wait),
      2 < r.searchNum → r.waitLoop obs fuel 0 (.start c) = some (n, w) →
        r.WaitedFor (.start c) (r.history obs n) := by
  intro h
  obtain ⟨before, v, after, hpast, hclock, -⟩ :=
    h three onward (clocks 90 0) 1 1 _ (by decide) rfl 2 (by decide) (by decide) (by decide)
  have hv : (2, v) ∈ three.history (clocks 90 0) 1 := by
    rw [hpast]
    simp
  have hv : v = ⟨none, 0⟩ := by
    have hv : (2, v) ∈ three.visits (clocks 90 0 0) := by simpa [Router.history] using hv
    obtain ⟨i, -, hi⟩ := List.mem_map.1 hv
    obtain ⟨rfl, rfl⟩ := Prod.mk.inj hi
    rfl
  have hmin : three.tmpMintime
      ((three.history (clocks 90 0) 1).foldl three.visit (.start onward)).choice = 90 := rfl
  rw [hmin, hv] at hclock
  exact absurd hclock (by decide)

end M2M.Network.WaitLoop
