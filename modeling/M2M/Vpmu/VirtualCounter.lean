import M2M.Vpmu.InterruptLine

/-! PMN0 as the guest sees it: the value it has written and the events selected since, with
the overflow flag for the event that rolls the counter over. -/

universe u v

open M2M.Lib

namespace M2M.Vpmu.Oprofile

theorem toNat_sub_of_eq {a b : UInt32} {n : Nat} (h : a = b + .ofNat n) :
    (a - b).toNat = n % 2 ^ 32 := by
  have hsub : a - b = .ofNat n := by rw [h, add_sub_cancel_left]
  rw [hsub, UInt32.toNat_ofNat']

/-- The device with what the documentation says of PMN0: `count` is the value last written and
the events selected since then, `seen` is `count` as of the last overflow test. -/
structure Counted (V : Type u) where
  pmu : Pmu V
  count : Nat
  seen : Nat

section Counting

variable {V : Type u} {Γ : Type v} (c : EventCounters V Γ)

namespace Counted

def access (s : Counted V) (a : Access Γ) : Counted V where
  pmu := s.pmu.access c a
  count := match a with
    | .pmnWrite i value => if i = pmn0 then value.toNat else s.count
    | .grow g => s.count + c.events s.pmu.vpmu g s.pmu.cp14.evtsel
    | _ => s.count
  seen := match a with
    | .pmnWrite i value => if i = pmn0 then value.toNat else s.seen
    | .overflowTesting => s.count
    | _ => s.seen

variable {c} in
theorem access_overflowTesting (s : Counted V) :
    s.access c (.overflowTesting : Access Γ) = ⟨s.pmu.overflowTesting c, s.count, s.count⟩ := rfl

variable {c} in
theorem access_perfWrite (s : Counted V) (reg : PerfReg) (value : UInt32) :
    s.access c (.perfWrite reg value : Access Γ) =
      ⟨s.pmu.perfWrite reg value, s.count, s.seen⟩ := rfl

variable {c} in
theorem access_pmnWrite (s : Counted V) (i : Fin 4) (value : UInt32) :
    s.access c (.pmnWrite i value : Access Γ) =
      ⟨s.pmu.pmnWrite c i value, if i = pmn0 then value.toNat else s.count,
        if i = pmn0 then value.toNat else s.seen⟩ := rfl

/-- PMN0 starts to count: it has just been written, or is as `qemu_mallocz` leaves it. -/
structure Fresh (s : Counted V) : Prop where
  count : s.count = (s.pmu.cp14.pmn 0).toNat
  seen : s.seen = s.count
  selected : s.pmu.selected c = s.pmu.cp14.pmnResetValue
  flag : ¬anySet s.pmu.cp14.flag pmn0Mask

/-- The counter has rolled over since the last test. -/
def Passed (s : Counted V) : Prop := s.seen / 2 ^ 32 < s.count / 2 ^ 32

instance (s : Counted V) : Decidable s.Passed := inferInstanceAs (Decidable (_ < _))

def ReadRight (s : Counted V) : Prop := s.pmu.pmn0Read c = .ofNat s.count

instance (s : Counted V) : Decidable (s.ReadRight c) := inferInstanceAs (Decidable (_ = _))

/-- The test sets bit 1 of FLAG exactly when the counter has rolled over. -/
def FlagRight (s : Counted V) : Prop :=
  anySet (s.pmu.overflowTesting c).cp14.flag pmn0Mask ↔
    anySet s.pmu.cp14.flag pmn0Mask ∨ s.Passed

instance (s : Counted V) : Decidable (s.FlagRight c) := inferInstanceAs (Decidable (_ ↔ _))

/-- What the documentation says of one access. -/
def Right (s : Counted V) (a : Access Γ) : Prop :=
  (s.access c a).ReadRight c ∧ (a = .overflowTesting → s.FlagRight c)

/-- No test is made once the counter has rolled over, and a new kind of event is selected only
when its counter agrees with the old one. -/
def Undisturbed (s : Counted V) : Access Γ → Prop
  | .overflowTesting => s.count < 2 ^ 32
  | .perfWrite .evtsel value => c.hardwareEventSelect s.pmu.vpmu value = s.pmu.selected c
  | _ => True

instance (s : Counted V) : ∀ a : Access Γ, Decidable (s.Undisturbed c a)
  | .overflowTesting => inferInstanceAs (Decidable (_ < _))
  | .perfWrite .evtsel _ => inferInstanceAs (Decidable (_ = _))
  | .perfWrite .pmnc _ => .isTrue trivial
  | .perfWrite .ccnt _ => .isTrue trivial
  | .perfWrite .inten _ => .isTrue trivial
  | .perfWrite .flag _ => .isTrue trivial
  | .perfWrite .bad _ => .isTrue trivial
  | .pmnWrite _ _ => .isTrue trivial
  | .grow _ => .isTrue trivial

/-- Fewer than 2^32 selected events between two tests. -/
def Sparse (s : Counted V) : Access Γ → Prop
  | .overflowTesting => s.count - s.seen < 2 ^ 32
  | _ => True

instance (s : Counted V) : ∀ a : Access Γ, Decidable (s.Sparse a)
  | .overflowTesting => inferInstanceAs (Decidable (_ < _))
  | .perfWrite _ _ => .isTrue trivial
  | .pmnWrite _ _ => .isTrue trivial
  | .grow _ => .isTrue trivial

/-- The counter has not rolled over before the last test, and the difference to the snapshot
is the number of events selected since PMN0 was written. -/
structure Counts (s : Counted V) : Prop where
  count : (s.pmu.cp14.pmn 0).toNat ≤ s.count
  seen : s.seen < 2 ^ 32
  selected : s.pmu.selected c =
    s.pmu.cp14.pmnResetValue + .ofNat (s.count - (s.pmu.cp14.pmn 0).toNat)
  flag : ¬anySet s.pmu.cp14.flag pmn0Mask

variable {c} {s : Counted V}

theorem Fresh.counts (h : s.Fresh c) : s.Counts c where
  count := h.count.ge
  seen := by
    rw [h.seen, h.count]
    exact (s.pmu.cp14.pmn 0).toNat_lt
  selected := by simp [h.count, h.selected]
  flag := h.flag

namespace Counts

variable (h : s.Counts c)

include h

theorem readRight : s.ReadRight c := by
  rw [ReadRight, Pmu.pmn0Read, h.selected, add_sub_cancel_left]
  refine (congrArg (_ + ·) (UInt32.ofNat_toNat).symm).trans ?_
  rw [← UInt32.ofNat_add, Nat.sub_add_cancel h.count]

/-- The test sees the roll-over of the events modulo 2^32 since PMN0 was written. -/
theorem overflowed_iff : s.pmu.Overflowed c ↔
    2 ^ 32 ≤ (s.count - (s.pmu.cp14.pmn 0).toNat) % 2 ^ 32 + (s.pmu.cp14.pmn 0).toNat := by
  have hlt := (s.pmu.cp14.pmn 0).toNat_lt
  rw [Pmu.Overflowed, Pmu.virValueInterval, toNat_sub_of_eq h.selected]
  omega

theorem not_overflowed (hlt : s.count < 2 ^ 32) : ¬s.pmu.Overflowed c := by
  have hcount := h.count
  rw [h.overflowed_iff, Nat.mod_eq_of_lt (by omega)]
  omega

theorem passed_iff : s.Passed ↔ 2 ^ 32 ≤ s.count := by
  have hseen := h.seen
  rw [Passed]
  omega

theorem not_readRight_of_overflowed (hover : s.pmu.Overflowed c) :
    ¬(s.access c (.overflowTesting : Access Γ)).ReadRight c := by
  have hcount := h.count
  have hlt := (s.pmu.cp14.pmn 0).toNat_lt
  have hread : (s.pmu.overflowTesting c).pmn0Read c = s.pmu.cp14.pmn 0 := by
    simp only [Pmu.overflowTesting, if_pos hover, Pmu.pmn0Read]
    split <;> simp [Pmu.selected, Pmu.raise]
  rw [h.overflowed_iff] at hover
  intro hright
  simp only [ReadRight, access_overflowTesting, hread] at hright
  have hmod : (s.pmu.cp14.pmn 0).toNat = s.count % 2 ^ 32 := by
    rw [hright, UInt32.toNat_ofNat']
  omega

theorem perfWrite_iff (reg : PerfReg) (value : UInt32) :
    (s.access c (.perfWrite reg value : Access Γ)).Counts c ↔
      s.Undisturbed c (.perfWrite reg value : Access Γ) := by
  have hflag := anySet_clear_iff value s.pmu.cp14.flag
  cases reg with
  | evtsel =>
    exact ⟨fun h' => h'.selected.trans h.selected.symm,
      fun heq => ⟨h.count, h.seen, heq.trans h.selected, h.flag⟩⟩
  | flag =>
    refine ⟨fun _ => trivial, fun _ => ?_⟩
    simp only [access_perfWrite, Pmu.perfWrite, Pmu.overflowHandled]
    split <;> exact ⟨h.count, h.seen, h.selected, fun hset => h.flag (hflag.1 hset).1⟩
  | pmnc | ccnt | inten | bad =>
    exact ⟨fun _ => trivial, fun _ => ⟨h.count, h.seen, h.selected, h.flag⟩⟩

theorem pmnWrite (i : Fin 4) (value : UInt32) :
    (s.access c (.pmnWrite i value : Access Γ)).Counts c := by
  by_cases hi : i = pmn0
  · subst hi
    refine Fresh.counts ⟨?_, rfl, rfl, h.flag⟩
    simp [access_pmnWrite, Pmu.pmnWrite]
  · have hother : Function.update s.pmu.cp14.pmn i value 0 = s.pmu.cp14.pmn 0 :=
      Function.update_of_ne (Ne.symm hi) _ _
    constructor <;> simp [access_pmnWrite, Pmu.pmnWrite, hi, hother]
    · exact h.count
    · exact h.seen
    · exact h.selected
    · exact h.flag

theorem grow (g : Γ) : (s.access c (.grow g)).Counts c where
  count := h.count.trans (Nat.le_add_right _ _)
  seen := h.seen
  selected := by
    have hcount := h.count
    simp only [access, Pmu.access, Pmu.selected, c.select_grow]
    have hold := h.selected
    rw [Pmu.selected] at hold
    rw [hold, add_assoc, ← UInt32.ofNat_add]
    congr 2
    omega
  flag := h.flag

theorem overflowTesting (hlt : s.count < 2 ^ 32) :
    (s.access c (.overflowTesting : Access Γ)).Counts c := by
  have hsame : s.pmu.overflowTesting c = s.pmu := if_neg (h.not_overflowed hlt)
  rw [access_overflowTesting, hsame]
  exact ⟨h.count, hlt, h.selected, h.flag⟩

theorem access {a : Access Γ} (hok : s.Undisturbed c a) : (s.access c a).Counts c := by
  cases a with
  | perfWrite reg value => exact (h.perfWrite_iff reg value).2 hok
  | pmnWrite i value => exact h.pmnWrite i value
  | overflowTesting => exact h.overflowTesting hok
  | grow g => exact h.grow g

theorem flagRight (hlt : s.count < 2 ^ 32) : s.FlagRight c := by
  have hpassed : ¬s.Passed := by
    rw [h.passed_iff]
    omega
  rw [FlagRight, Pmu.overflowTesting, if_neg (h.not_overflowed hlt)]
  simp [hpassed]

theorem lt_of_right (hright : s.Right c (.overflowTesting : Access Γ)) : s.count < 2 ^ 32 := by
  have hquiet : ¬s.pmu.Overflowed c := fun hover => h.not_readRight_of_overflowed hover hright.1
  have hflag := hright.2 rfl
  rw [FlagRight, Pmu.overflowTesting, if_neg hquiet, h.passed_iff] at hflag
  by_contra hle
  exact h.flag (hflag.2 (Or.inr (Nat.le_of_not_lt hle)))

theorem right_iff (a : Access Γ) : s.Right c a ↔ s.Undisturbed c a := by
  constructor
  · intro hright
    cases a with
    | overflowTesting => exact h.lt_of_right hright
    | perfWrite reg value =>
      cases reg with
      | evtsel =>
        have hread := hright.1.trans h.readRight.symm
        simp only [Pmu.pmn0Read, access_perfWrite, Pmu.perfWrite, add_left_inj,
          sub_left_inj] at hread
        exact hread
      | _ => exact trivial
    | _ => exact trivial
  · intro hok
    refine ⟨(h.access hok).readRight, ?_⟩
    cases a with
    | overflowTesting => exact fun _ => h.flagRight hok
    | _ => rintro ⟨⟩

end Counts

/-- Reads and the overflow flag are as documented all along a run, exactly when no test is made
after a roll-over and no new kind of event is selected whose counter differs. -/
theorem right_along_iff (hs : s.Fresh c) (as : List (Access Γ)) :
    Along (Counted.access c) (Right c) s as ↔ Along (Counted.access c) (Undisturbed c) s as :=
  Along.congr_of_invariant (fun _ a h => h.right_iff a) (fun _ _ h => h.access) hs.counts

end Counted

end Counting

def Counted.boot : Counted (UInt32 → Nat) := ⟨Oprofile.boot, 0, 0⟩

theorem Counted.boot_fresh : Counted.boot.Fresh eventCounts := ⟨rfl, rfl, rfl, by decide⟩

theorem Counted.right_along_boot :
    Along (Counted.access eventCounts) (Right eventCounts) Counted.boot
      [.pmnWrite 0 0xfffffff0, .grow fun _ => 9, .overflowTesting, .perfWrite .evtsel 1] :=
  (Counted.right_along_iff Counted.boot_fresh _).2 (by decide)

/-- One event rolls PMN0 over.  With INTEN as it is at the start no test tells the guest, and
the test takes the event back. -/
theorem Counted.overflow_lost :
    ¬∀ as : List (Access (UInt32 → Nat)),
      Along (Counted.access eventCounts) Sparse Counted.boot as →
        Along (Counted.access eventCounts) (Right eventCounts) Counted.boot as := by
  intro h
  have hright := h [.pmnWrite 0 0xffffffff, .grow fun _ => 1, .overflowTesting] (by decide)
  simp only [Along.cons_iff] at hright
  exact absurd hright.2.2.1.1 (by decide)

end M2M.Vpmu.Oprofile
