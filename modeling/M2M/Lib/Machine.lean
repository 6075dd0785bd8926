import Mathlib.Data.List.Basic
import Mathlib.Data.List.Induction

universe u v

namespace M2M.Lib.Machine

variable {σ : Type u} {α : Type v}

/-- An interleaving machine: `step s a` is the state after the atomic action `a`,
or `none` when `a` is not enabled in `s`. -/
abbrev Step (σ : Type u) (α : Type v) := σ → α → Option σ

def run (step : Step σ α) : σ → List α → Option σ
  | s, [] => some s
  | s, a :: as => (step s a).bind (fun t => run step t as)

theorem run_append (step : Step σ α) (s : σ) (as bs : List α) :
    run step s (as ++ bs) = (run step s as).bind (fun t => run step t bs) := by
  induction as generalizing s with
  | nil => rfl
  | cons a as ih =>
    simp only [List.cons_append, run, Option.bind_assoc, ih]

/-- Repeating the one action `a` leads from `s` to `t`. -/
def Repeats (step : Step σ α) (a : α) (s t : σ) : Prop :=
  ∃ m, run step s (List.replicate m a) = some t

theorem Repeats.refl {step : Step σ α} {a : α} (s : σ) : Repeats step a s s := ⟨0, rfl⟩

theorem Repeats.once {step : Step σ α} {a : α} {s t : σ} (h : step s a = some t) :
    Repeats step a s t := ⟨1, by simp [run, h]⟩

theorem Repeats.trans {step : Step σ α} {a : α} {s t u : σ} (h : Repeats step a s t)
    (h' : Repeats step a t u) : Repeats step a s u := by
  obtain ⟨m, hm⟩ := h
  obtain ⟨k, hk⟩ := h'
  refine ⟨m + k, ?_⟩
  rw [List.replicate_add, run_append, hm]
  exact hk

/-- The states reached by runs all of whose steps meet `ok`, a condition on the
action and on the state before it. -/
inductive ReachableWhen (init : σ → Prop) (step : Step σ α) (ok : σ → α → Prop) : σ → Prop
  | start {s} : init s → ReachableWhen init step ok s
  | next {s a t} : ReachableWhen init step ok s → ok s a → step s a = some t →
      ReachableWhen init step ok t

def Reachable (init : σ → Prop) (step : Step σ α) : σ → Prop :=
  ReachableWhen init step (fun _ _ => True)

variable {init : σ → Prop} {step : Step σ α} {ok : σ → α → Prop} {inv : σ → Prop}

theorem ReachableWhen.invariant (h₀ : ∀ s, init s → inv s)
    (h₁ : ∀ s a t, inv s → ok s a → step s a = some t → inv t) {s : σ}
    (h : ReachableWhen init step ok s) : inv s := by
  induction h with
  | start hs => exact h₀ _ hs
  | next _ hok hstep ih => exact h₁ _ _ _ ih hok hstep

theorem Reachable.invariant (h₀ : ∀ s, init s → inv s)
    (h₁ : ∀ s a t, inv s → step s a = some t → inv t) {s : σ}
    (h : Reachable init step s) : inv s :=
  ReachableWhen.invariant h₀ (fun s a t hi _ hs => h₁ s a t hi hs) h

theorem run_invariant (h : ∀ s a t, inv s → step s a = some t → inv t) {s t : σ} {as : List α}
    (hs : inv s) (hr : run step s as = some t) : inv t := by
  induction as generalizing s with
  | nil => exact Option.some.inj hr ▸ hs
  | cons a as ih =>
    obtain ⟨u, hu, hr⟩ := Option.bind_eq_some_iff.mp hr
    exact ih (h s a u hs hu) hr

/-- Every step taken on the way along `as` from `s` meets `ok`, a condition on the states before
and after it and on the action. -/
def Throughout (step : Step σ α) (ok : σ → α → σ → Prop) (s : σ) (as : List α) : Prop :=
  ∀ before a t u, before ++ [a] <+: as → run step s before = some t → step t a = some u → ok t a u

theorem Throughout.nil {ok : σ → α → σ → Prop} (s : σ) : Throughout step ok s [] := by
  intro before a t u h
  simp at h

theorem Throughout.cons {ok : σ → α → σ → Prop} {s t : σ} {a : α} {as : List α}
    (ha : step s a = some t) (hok : ok s a t) (h : Throughout step ok t as) :
    Throughout step ok s (a :: as) := by
  intro before b u v hb hu hv
  cases before with
  | nil =>
    simp only [List.nil_append, List.cons_prefix_cons] at hb
    obtain ⟨rfl, -⟩ := hb
    obtain rfl := Option.some.inj hu
    obtain rfl := Option.some.inj (ha.symm.trans hv)
    exact hok
  | cons c before =>
    simp only [List.cons_append, List.cons_prefix_cons] at hb
    obtain ⟨rfl, hb⟩ := hb
    rw [run, ha] at hu
    exact h before b u v hb hu hv

theorem ReachableWhen.throughout {s t : σ} {as : List α} (h : ReachableWhen init step ok s)
    (hok : Throughout step (fun s a _ => ok s a) s as) (hr : run step s as = some t) :
    ReachableWhen init step ok t := by
  induction as generalizing s with
  | nil =>
    obtain rfl := Option.some.inj hr
    exact h
  | cons a as ih =>
    obtain ⟨u, hu, hr⟩ := Option.bind_eq_some_iff.mp hr
    have hfirst := hok [] a s u ⟨as, rfl⟩ rfl hu
    refine ih (h.next hfirst hu) (fun before b v w hb hv => ?_) hr
    refine hok (a :: before) b v w (List.cons_prefix_cons.mpr ⟨rfl, hb⟩) ?_
    rw [run, hu]
    exact hv

/-- Two conditions on steps that agree wherever an invariant of the machine holds. -/
theorem Throughout.congr {good ok : σ → α → σ → Prop} (inv : σ → Prop)
    (hinv : ∀ s a t, inv s → step s a = some t → inv t)
    (hiff : ∀ s a t, inv s → step s a = some t → (good s a t ↔ ok s a t)) {s : σ} (hs : inv s)
    (as : List α) : Throughout step good s as ↔ Throughout step ok s as := by
  have hat : ∀ before a t u, run step s before = some t → step t a = some u →
      (good t a u ↔ ok t a u) := fun before a t u ht hu =>
    hiff t a u (run_invariant hinv hs ht) hu
  constructor
  · intro h before a t u hb ht hu
    exact (hat before a t u ht hu).mp (h before a t u hb ht hu)
  · intro h before a t u hb ht hu
    exact (hat before a t u ht hu).mpr (h before a t u hb ht hu)

/-- What holds in every state on the way along `as` from `s`. -/
def Always (step : Step σ α) (p : σ → Prop) (s : σ) (as : List α) : Prop :=
  ∀ before t, before <+: as → run step s before = some t → p t

/-- A property that a step keeps exactly when it meets a condition, wherever an invariant holds. -/
theorem always_iff_throughout {p : σ → Prop} {ok : σ → α → σ → Prop} (inv : σ → Prop)
    (hinv : ∀ s a t, inv s → step s a = some t → inv t)
    (hiff : ∀ s a t, inv s → p s → step s a = some t → (p t ↔ ok s a t)) {s : σ} (hs : inv s)
    (hp : p s) (as : List α) : Always step p s as ↔ Throughout step ok s as := by
  constructor
  · intro h before a t u hb ht hu
    have hrun : run step s (before ++ [a]) = some u := by
      rw [run_append, ht, Option.bind_some, run, hu]
      rfl
    have hpt := h before t ((List.prefix_append before [a]).trans hb) ht
    exact (hiff t a u (run_invariant hinv hs ht) hpt hu).mp (h _ u hb hrun)
  · intro h before
    induction before using List.reverseRecOn with
    | nil => exact fun t _ ht => Option.some.inj ht ▸ hp
    | append_singleton before a ih =>
      intro u hb hu
      rw [run_append] at hu
      obtain ⟨t, ht, hu⟩ := Option.bind_eq_some_iff.mp hu
      rw [run] at hu
      obtain ⟨v, hv, hu⟩ := Option.bind_eq_some_iff.mp hu
      obtain rfl := Option.some.inj hu
      have hpt := ih t ((List.prefix_append before [a]).trans hb) ht
      exact (hiff t a v (run_invariant hinv hs ht) hpt hv).mpr (h before a t v hb ht hv)

/-- The machine that refuses the steps outside `ok`. -/
def guarded (step : Step σ α) (ok : σ → α → Prop) [∀ s a, Decidable (ok s a)] : Step σ α :=
  fun s a => if ok s a then step s a else none

theorem ReachableWhen.run [∀ s a, Decidable (ok s a)] {s t : σ} {as : List α}
    (h : ReachableWhen init step ok s) (hr : run (guarded step ok) s as = some t) :
    ReachableWhen init step ok t := by
  induction as generalizing s with
  | nil =>
    simp only [Machine.run, Option.some.injEq] at hr
    exact hr ▸ h
  | cons a as ih =>
    simp only [Machine.run, guarded, Option.bind_eq_some_iff] at hr
    obtain ⟨u, hu, hr⟩ := hr
    split at hu
    · rename_i hok
      exact ih (.next h hok hu) hr
    · cases hu

theorem exists_reachableWhen (init : σ → Prop) (step : Step σ α) (ok : σ → α → Prop)
    [∀ s a, Decidable (ok s a)] {s : σ} (as : List α) (p : σ → Bool) (hs : init s)
    (hr : (run (guarded step ok) s as).any p = true) :
    ∃ t, ReachableWhen init step ok t ∧ p t = true := by
  cases ht : run (guarded step ok) s as with
  | none => simp [ht] at hr
  | some t =>
    refine ⟨t, ReachableWhen.run (.start hs) ht, ?_⟩
    simpa [ht] using hr

theorem exists_reachable (init : σ → Prop) (step : Step σ α) {s : σ} (as : List α) (p : σ → Bool)
    (hs : init s) (hr : (run (guarded step (fun _ _ => True)) s as).any p = true) :
    ∃ t, Reachable init step t ∧ p t = true :=
  exists_reachableWhen init step (fun _ _ => True) as p hs hr

end M2M.Lib.Machine
