import Mathlib.Data.List.Basic

universe u v

namespace M2M.Lib

variable {σ : Type u} {α : Type v} {step : σ → α → σ}

/-- Every step of the run `as` from `s` meets `ok`, a condition on the state before it and
on the action. -/
def Along (step : σ → α → σ) (ok : σ → α → Prop) (s : σ) (as : List α) : Prop :=
  ∀ before a, before ++ [a] <+: as → ok (before.foldl step s) a

namespace Along

variable {ok good : σ → α → Prop} {inv : σ → Prop} {s : σ} {a : α} {as : List α}

@[simp] theorem nil : Along step ok s [] := by
  intro before a h
  simp at h

@[simp] theorem cons_iff : Along step ok s (a :: as) ↔ ok s a ∧ Along step ok (step s a) as := by
  constructor
  · intro h
    refine ⟨h [] a ?_, fun before b hb => h (a :: before) b ?_⟩
    · simp
    · simpa using hb
  · rintro ⟨ha, has⟩ before b hb
    cases before with
    | nil =>
      simp only [List.nil_append, List.cons_prefix_cons] at hb
      exact hb.1 ▸ ha
    | cons c before =>
      simp only [List.cons_append, List.cons_prefix_cons] at hb
      obtain ⟨rfl, hb⟩ := hb
      exact has before b hb

theorem concat_iff :
    Along step ok s (as ++ [a]) ↔ Along step ok s as ∧ ok (as.foldl step s) a := by
  induction as generalizing s with
  | nil => simp
  | cons b as ih =>
    rw [List.cons_append, cons_iff, cons_iff, ih, and_assoc]
    rfl

theorem forall_prefix_iff :
    (∀ before, before <+: as → inv (before.foldl step s)) ↔
      inv s ∧ Along step (fun s a => inv (step s a)) s as := by
  constructor
  · intro h
    refine ⟨h [] (List.nil_prefix), fun before a ha => ?_⟩
    simpa using h (before ++ [a]) ha
  · rintro ⟨hs, has⟩ before hb
    rcases List.eq_nil_or_concat before with rfl | ⟨before, a, rfl⟩
    · exact hs
    · simpa using has before a (by simpa using hb)

theorem and_iff :
    Along step (fun s a => ok s a ∧ good s a) s as ↔ Along step ok s as ∧ Along step good s as :=
  ⟨fun h => ⟨fun before a ha => (h before a ha).1, fun before a ha => (h before a ha).2⟩,
    fun h before a ha => ⟨h.1 before a ha, h.2 before a ha⟩⟩

theorem of_prefix {before : List α} (h : Along step ok s as) (hb : before <+: as) :
    Along step ok s before :=
  fun front a ha => h front a (ha.trans hb)

theorem mono (h : ∀ s a, good s a → ok s a) (hs : Along step good s as) : Along step ok s as :=
  fun before a ha => h _ _ (hs before a ha)

theorem invariant (h : ∀ s a, inv s → ok s a → inv (step s a)) (hs : inv s)
    (hok : Along step ok s as) : inv (as.foldl step s) := by
  induction as generalizing s with
  | nil => exact hs
  | cons a as ih =>
    rw [cons_iff] at hok
    exact ih (h s a hs hok.1) hok.2

/-- What a step keeps just where it meets `ok` holds at the end of just the runs of such steps,
among those whose steps meet `p`. -/
theorem invariant_iff {p : σ → α → Prop} (hdom : Along step p s as)
    (h : ∀ s a, p s a → (inv (step s a) ↔ inv s ∧ ok s a)) :
    inv (as.foldl step s) ↔ inv s ∧ Along step ok s as := by
  induction as generalizing s with
  | nil => simp
  | cons a as ih =>
    rw [cons_iff] at hdom
    rw [List.foldl_cons, ih hdom.2, h s a hdom.1, cons_iff, and_assoc]

/-- Two conditions that agree wherever an invariant holds, which the steps that meet the
second keep, are met along the same runs, among those whose steps meet `p`. -/
theorem congr_of_invariant_of {p : σ → α → Prop} (hdom : Along step p s as)
    (hiff : ∀ s a, inv s → p s a → (good s a ↔ ok s a))
    (hinv : ∀ s a, inv s → p s a → ok s a → inv (step s a)) (hs : inv s) :
    Along step good s as ↔ Along step ok s as := by
  induction as generalizing s with
  | nil => simp
  | cons a as ih =>
    rw [cons_iff] at hdom
    rw [cons_iff, cons_iff, hiff s a hs hdom.1]
    exact and_congr_right fun hok => ih hdom.2 (hinv s a hs hdom.1 hok)

theorem congr_of_invariant (hiff : ∀ s a, inv s → (good s a ↔ ok s a))
    (hinv : ∀ s a, inv s → ok s a → inv (step s a)) (hs : inv s) :
    Along step good s as ↔ Along step ok s as :=
  congr_of_invariant_of (p := fun _ _ => True) (fun _ _ _ => trivial) (fun s a h _ => hiff s a h)
    (fun s a h _ => hinv s a h) hs

instance decidable [∀ s a, Decidable (ok s a)] : ∀ s as, Decidable (Along step ok s as)
  | _, [] => .isTrue nil
  | s, a :: as =>
    have := decidable (step s a) as
    decidable_of_iff' _ cons_iff

end Along

end M2M.Lib
