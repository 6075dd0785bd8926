import M2M.Vpmu.Oprofile

/-! The interrupt line of PMN0: raised by an overflow, and lowered by the guest that
acknowledges it in FLAG. -/

universe u v

open M2M.Lib

namespace M2M.Vpmu.Oprofile

theorem anySet_two_iff (x : UInt32) : anySet x pmn0Mask ↔ x.toBitVec.getLsbD 1 = true := by
  have hmask : ∀ i < 32, (2#32).getLsbD i = decide (i = 1) := by decide
  rw [anySet, Ne, ← UInt32.toBitVec_inj, BitVec.eq_of_getLsbD_eq_iff]
  constructor
  · intro h
    by_contra hx
    refine h fun i hi => ?_
    rw [UInt32.toBitVec_and, BitVec.getLsbD_and]
    refine (congrArg _ (hmask i hi)).trans ?_
    by_cases hone : i = 1
    · subst hone
      simpa using hx
    · simp [hone]
  · intro hx h
    have hone := h 1 (by decide)
    rw [UInt32.toBitVec_and, BitVec.getLsbD_and, hx] at hone
    exact absurd hone (by decide)

theorem anySet_or_self (x : UInt32) : anySet (x ||| pmn0Mask) pmn0Mask := by
  rw [anySet_two_iff, UInt32.toBitVec_or, BitVec.getLsbD_or]
  simp [pmn0Mask]

theorem anySet_clear_iff (value flag : UInt32) :
    anySet (~~~(value &&& flagMask) &&& flag) pmn0Mask ↔
      anySet flag pmn0Mask ∧ ¬anySet value pmn0Mask := by
  simp only [anySet_two_iff, UInt32.toBitVec_and, UInt32.toBitVec_not, BitVec.getLsbD_and,
    BitVec.getLsbD_not]
  have hmask : flagMask.toBitVec[1] = true := by decide
  simp [hmask, and_comm]

section Line

variable {V : Type u} {Γ : Type v} (c : EventCounters V Γ)

/-- A guest that has acknowledged the overflow does not see the line raised. -/
def Pmu.LineLow (p : Pmu V) : Prop := ¬anySet p.cp14.flag pmn0Mask → p.line = false

instance (p : Pmu V) : Decidable p.LineLow := inferInstanceAs (Decidable (_ → _))

/-- The overflow is acknowledged while the interrupt of PMN0 is enabled in INTEN. -/
def AckEnabled (p : Pmu V) : Access Γ → Prop
  | .perfWrite .flag value =>
    p.line = true → anySet value pmn0Mask → anySet p.cp14.inten pmn0Mask
  | _ => True

instance (p : Pmu V) : ∀ a : Access Γ, Decidable (AckEnabled p a)
  | .perfWrite .flag _ => inferInstanceAs (Decidable (_ → _ → _))
  | .perfWrite .pmnc _ => .isTrue trivial
  | .perfWrite .ccnt _ => .isTrue trivial
  | .perfWrite .inten _ => .isTrue trivial
  | .perfWrite .evtsel _ => .isTrue trivial
  | .perfWrite .bad _ => .isTrue trivial
  | .pmnWrite _ _ => .isTrue trivial
  | .overflowTesting => .isTrue trivial
  | .grow _ => .isTrue trivial

theorem Pmu.LineLow.flagWrite_iff {p : Pmu V} (h : p.LineLow) (value : UInt32) :
    (p.perfWrite .flag value).LineLow ↔
      (p.line = true → anySet value pmn0Mask → anySet p.cp14.inten pmn0Mask) := by
  have hclear := anySet_clear_iff value p.cp14.flag
  simp only [Pmu.perfWrite, Pmu.overflowHandled]
  by_cases hlow : p.line = false
  · -- a FLAG write never raises the line
    split <;> simp [Pmu.LineLow, hlow]
  · have hset : anySet p.cp14.flag pmn0Mask := not_not.1 fun hno => hlow (h hno)
    by_cases hinten : anySet p.cp14.inten pmn0Mask
    · by_cases hvalue : anySet value pmn0Mask <;>
        simp [Pmu.LineLow, hclear, hset, hinten, hvalue]
    · simp [Pmu.LineLow, hclear, hset, hinten, hlow]

theorem Pmu.LineLow.overflowTesting {p : Pmu V} (h : p.LineLow) :
    (p.overflowTesting c).LineLow := by
  unfold Pmu.overflowTesting
  split
  · by_cases hen : p.Enabled
    · intro hflag
      simp only [if_pos hen] at hflag
      exact absurd (anySet_or_self p.cp14.flag) hflag
    · simp only [if_neg hen]
      exact h
  · exact h

theorem Pmu.LineLow.access_iff {p : Pmu V} (h : p.LineLow) (a : Access Γ) :
    (p.access c a).LineLow ↔ AckEnabled p a := by
  match a with
  | .perfWrite .flag value => exact h.flagWrite_iff value
  | .perfWrite .pmnc _ | .perfWrite .ccnt _ | .perfWrite .inten _ | .perfWrite .evtsel _
  | .perfWrite .bad _ | .grow _ => exact ⟨fun _ => trivial, fun _ => h⟩
  | .pmnWrite i value =>
    refine ⟨fun _ => trivial, fun _ => ?_⟩
    simp only [Pmu.access, Pmu.pmnWrite]
    split <;> exact h
  | .overflowTesting => exact ⟨fun _ => trivial, fun _ => h.overflowTesting c⟩

/-- From a low line, the line is low whenever bit 1 of FLAG is clear, in every state of the
run, exactly when each overflow is acknowledged with its interrupt enabled. -/
theorem line_low_iff (p : Pmu V) (hline : p.line = false) (as : List (Access Γ)) :
    (∀ before, before <+: as → (before.foldl (Pmu.access c) p).LineLow) ↔
      Along (Pmu.access c) AckEnabled p as := by
  have hstart : p.LineLow := fun _ => hline
  rw [Along.forall_prefix_iff, and_iff_right hstart]
  exact Along.congr_of_invariant (fun p a hp => hp.access_iff c a)
    (fun p a hp ha => (hp.access_iff c a).2 ha) hstart

end Line

/-- The device at the start, before any event. -/
def boot : Pmu (UInt32 → Nat) := ⟨.zero, fun _ => 0, false⟩

/-- An overflow of PMN0 with its interrupt enabled. -/
def overflow : List (Access (UInt32 → Nat)) :=
  [.perfWrite .inten 2, .perfWrite .pmnc 1, .pmnWrite pmn0 0xffffffff, .grow fun _ => 1,
    .overflowTesting]

theorem line_low_acknowledged :
    ((overflow ++ [Access.perfWrite .flag 2, Access.perfWrite .inten 0]).foldl
      (Pmu.access eventCounts) boot).LineLow :=
  (line_low_iff eventCounts boot rfl _).2 (by decide) _ List.prefix_rfl

/-- The guest disables the interrupt before it acknowledges the overflow. -/
theorem line_stuck :
    ¬∀ as : List (Access (UInt32 → Nat)), (as.foldl (Pmu.access eventCounts) boot).LineLow := by
  intro h
  exact absurd (h (overflow ++ [Access.perfWrite .inten 0, Access.perfWrite .flag 2])) (by decide)

end M2M.Vpmu.Oprofile
