import M2M.Network.WaitLoop

/-! The router processes the earliest packet it has seen: the first scan and the scans of
the wait loop on queues that gain packets meanwhile. -/

namespace M2M.Network.WaitLoop

/-- The contents of the queues at every visit, counted from the start of the first scan;
visit `t` is of index `t % search_num`.  The router is the only one that takes packets out,
and it does not while it looks. -/
structure Feed where
  queues : Nat → Nat → List HQe
  grows : ∀ t i, queues t i <+: queues (t + 1) i

namespace Feed

variable (f : Feed)

def head (t i : Nat) : Option HQe := (f.queues t i).head?

theorem head_succ {t i : Nat} {h : HQe} (hh : f.head t i = some h) : f.head (t + 1) i = some h := by
  have hgrow := f.grows t i
  simp only [head] at hh ⊢
  cases hq : f.queues t i with
  | nil => simp [hq] at hh
  | cons g rest =>
    rw [hq] at hh hgrow
    obtain ⟨more, hmore⟩ := hgrow
    rw [← hmore]
    simpa using hh

theorem head_of_le {s t i : Nat} {h : HQe} (hst : s ≤ t) (hh : f.head s i = some h) :
    f.head t i = some h := by
  induction hst with
  | refl => exact hh
  | step _ ih => exact f.head_succ ih

end Feed

namespace Router

variable (r : Router)

/-- The first scan and `n` scans of the wait loop. -/
def select (f : Feed) (clock : Nat → Nat → UInt64) (n : Nat) : Choice :=
  ((r.history (fun k i => ⟨f.head (r.searchNum * (k + 1) + i) i, clock k i⟩) n).foldl r.visit
    (.start (r.firstScan fun i => f.head i i))).choice

/-- The choice after `t` visits. -/
def choiceAt (f : Feed) : Nat → Choice
  | 0 => .unset
  | t + 1 => r.look (choiceAt f t) (t % r.searchNum) (f.head t (t % r.searchNum))

variable {r : Router} {f : Feed}

theorem choice_foldl_visit (w : Wait) (xs : List (Nat × Visit)) :
    (xs.foldl r.visit w).choice =
      xs.foldl (fun c x => r.look c x.1 x.2.head) w.choice := by
  induction xs generalizing w with
  | nil => rfl
  | cons x xs ih =>
    rw [List.foldl_cons, ih, choice_visit]
    rfl

theorem foldl_look (k m : Nat) (hm : m ≤ r.searchNum) :
    (List.range m).foldl (fun c i => r.look c i (f.head (r.searchNum * k + i) i))
      (r.choiceAt f (r.searchNum * k)) = r.choiceAt f (r.searchNum * k + m) := by
  induction m with
  | zero => rfl
  | succ m ih =>
    have hmod : (r.searchNum * k + m) % r.searchNum = m := by
      rw [Nat.mul_add_mod]
      exact Nat.mod_eq_of_lt hm
    rw [List.range_succ, List.foldl_concat, ih (by omega), ← Nat.add_assoc, choiceAt, hmod]

theorem select_eq (clock : Nat → Nat → UInt64) (n : Nat) :
    r.select f clock n = r.choiceAt f (r.searchNum * (n + 1)) := by
  induction n with
  | zero =>
    have h := foldl_look (f := f) 0 r.searchNum le_rfl
    simpa [select, history, firstScan, choiceAt, Wait.start] using h
  | succ n ih =>
    have h := foldl_look (f := f) (n + 1) r.searchNum le_rfl
    rw [select, history_succ, List.foldl_append, choice_foldl_visit, visits, List.foldl_map]
    rw [select] at ih
    rw [ih, h]
    rfl

/-- The choice after `t` visits: the head of a queue visited so far, unless no head had a
key below the initial one, and none of the visited heads is earlier. -/
structure Selected (r : Router) (f : Feed) (t : Nat) (c : Choice) : Prop where
  least : ∀ s < t, ∀ h, f.head s (s % r.searchNum) = some h → c.key ≤ packetKey h
  origin : c = .unset ∨ ∃ s < t, ∃ h, f.head s (s % r.searchNum) = some h ∧
    c = r.take (s % r.searchNum) h

theorem Selected.step {t : Nat} {c : Choice} (hc : r.Selected f t c) :
    r.Selected f (t + 1) (r.look c (t % r.searchNum) (f.head t (t % r.searchNum))) := by
  by_cases hb : c.Beaten (f.head t (t % r.searchNum))
  · obtain ⟨g, hg, hl⟩ := hb
    rw [look_of_beaten hg hl]
    rw [Choice.later_iff] at hl
    refine ⟨fun s hs h hh => ?_, .inr ⟨t, Nat.lt_succ_self t, g, hg, rfl⟩⟩
    rcases Nat.lt_succ_iff_lt_or_eq.1 hs with hs | rfl
    · exact hl.le.trans (hc.least s hs h hh)
    · rw [show f.head s (s % r.searchNum) = some g from hg] at hh
      rw [Option.some.inj hh, key_take]
  · rw [look_of_not_beaten _ hb]
    refine ⟨fun s hs h hh => ?_, ?_⟩
    · rcases Nat.lt_succ_iff_lt_or_eq.1 hs with hs | rfl
      · exact hc.least s hs h hh
      · rw [← not_lt, ← Choice.later_iff]
        exact fun hl => hb ⟨h, hh, hl⟩
    · rcases hc.origin with h | ⟨s, hs, h⟩
      · exact .inl h
      · exact .inr ⟨s, Nat.lt_succ_of_lt hs, h⟩

theorem choiceAt_selected (t : Nat) : r.Selected f t (r.choiceAt f t) := by
  induction t with
  | zero => exact ⟨by simp, .inl rfl⟩
  | succ t ih => exact ih.step

/-- The packet's key in unbounded numbers. -/
def naturalKey (h : HQe) : Nat ×ₗ Nat :=
  toLex (h.sendTime.toNat + h.transTime.toNat, h.sendTime.toNat)

theorem packetKey_eq {h : HQe} (hh : h.sendTime.toNat + h.transTime.toNat < maxTime.toNat) :
    packetKey h = naturalKey h := by
  have hmax : maxTime.toNat = 2 ^ 64 - 1 := rfl
  rw [packetKey, naturalKey, arrivalTime, UInt64.toNat_add, Nat.mod_eq_of_lt (by omega)]

theorem lt_key_unset {h : HQe} (hh : h.sendTime.toNat + h.transTime.toNat < maxTime.toNat) :
    packetKey h < Choice.unset.key := by
  rw [packetKey_eq hh, Prod.Lex.lt_iff]
  exact .inl hh

/-- What is chosen after the first scan and any number of scans of the wait loop is the
head of its queue, with its own forwarder, next hop and times, and no queue that had a
packet at its last visit has an earlier head. -/
theorem select_earliest (r : Router) (f : Feed) (clock : Nat → Nat → UInt64) (n : Nat)
    (hkey : ∀ t i, ∀ h ∈ f.queues t i, h.sendTime.toNat + h.transTime.toNat < maxTime.toNat)
    (hsome : ∃ i < r.searchNum, f.queues 0 i ≠ []) :
    ∃ i < r.searchNum, ∃ h, r.select f clock n = ⟨h.sendTime + h.transTime, h.sendTime,
        h.forwardID, if r.deviceID ≠ h.receiverID then r.routeDiscovery h.receiverID
          else r.deviceID, r.slot i⟩ ∧
      (∀ t, r.searchNum * (n + 1) ≤ t → (f.queues t i).head? = some h) ∧
      ∀ j < r.searchNum, ∀ g, (f.queues (r.searchNum * n + j) j).head? = some g →
        naturalKey h ≤ naturalKey g := by
  obtain ⟨i₀, hi₀, hne⟩ := hsome
  have hkey' : ∀ {t i h}, f.head t i = some h →
      h.sendTime.toNat + h.transTime.toNat < maxTime.toNat :=
    fun hh => hkey _ _ _ (List.mem_of_mem_head? hh)
  obtain ⟨hleast, horigin⟩ := choiceAt_selected (r := r) (f := f) (r.searchNum * (n + 1))
  rw [← select_eq clock n] at hleast horigin
  have hlast : ∀ j < r.searchNum, r.searchNum * n + j < r.searchNum * (n + 1) ∧
      (r.searchNum * n + j) % r.searchNum = j := by
    intro j hj
    rw [Nat.mul_succ, Nat.mul_add_mod, Nat.mod_eq_of_lt hj]
    exact ⟨by omega, rfl⟩
  rcases horigin with hunset | ⟨s, hs, h, hh, hchoice⟩
  · -- the queue that was not empty at the start has been looked at
    exfalso
    obtain ⟨g, hg⟩ := Option.isSome_iff_exists.1 (List.isSome_head?.2 hne)
    obtain ⟨hlt, hmod⟩ := hlast i₀ hi₀
    have hg : f.head (r.searchNum * n + i₀) i₀ = some g := f.head_of_le (Nat.zero_le _) hg
    have hle := hleast _ hlt g (by rw [hmod]; exact hg)
    rw [hunset] at hle
    exact absurd (lt_key_unset (hkey' hg)) (not_lt.2 hle)
  · refine ⟨s % r.searchNum, Nat.mod_lt _ (by omega), h, hchoice, fun t ht => ?_,
      fun j hj g hg => ?_⟩
    · exact f.head_of_le (hs.le.trans ht) hh
    · obtain ⟨hlt, hmod⟩ := hlast j hj
      have hle := hleast _ hlt g (by rw [hmod]; exact hg)
      rw [hchoice, key_take, packetKey_eq (hkey' hh), packetKey_eq (hkey' hg)] at hle
      exact hle

end Router

/-- A packet of device 1 waits, and one of device 2 comes in before its queue is visited. -/
def arriving : Feed where
  queues t i :=
    if i = 0 then [⟨0, 1, 1, 2, 1, -1, 50, 50⟩]
    else if i = 1 ∧ 1 ≤ t then [⟨0, 1, 2, 3, 2, -1, 40, 60⟩] else []
  grows := by
    intro t i
    by_cases hi : i = 0
    · simp [hi]
    · by_cases ht : i = 1 ∧ 1 ≤ t
      · simp [ht]
      · simp [hi, ht]

theorem select_earliest_arriving :
    ∃ i < three.searchNum, ∃ h, three.select arriving (fun _ _ => 0) 1 =
        ⟨h.sendTime + h.transTime, h.sendTime, h.forwardID,
          if three.deviceID ≠ h.receiverID then three.routeDiscovery h.receiverID
            else three.deviceID, three.slot i⟩ ∧
      (∀ t, three.searchNum * (1 + 1) ≤ t → (arriving.queues t i).head? = some h) ∧
      ∀ j < three.searchNum, ∀ g,
        (arriving.queues (three.searchNum * 1 + j) j).head? = some g →
          Router.naturalKey h ≤ Router.naturalKey g := by
  refine Router.select_earliest three arriving (fun _ _ => 0) 1 (fun t i h hh => ?_)
    ⟨0, by decide, by simp [arriving]⟩
  simp only [arriving] at hh
  split at hh
  · rw [List.mem_singleton.1 hh]
    decide
  · split at hh
    · rw [List.mem_singleton.1 hh]
      decide
    · simp at hh

end M2M.Network.WaitLoop
