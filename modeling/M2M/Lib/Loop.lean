import Mathlib.Data.Nat.Count
import Mathlib.Data.Set.Finite.Basic
import Mathlib.Logic.Function.Basic
import Mathlib.Logic.Relation

/-! Loops with a counter, and loops without a bound on their rounds.  A round of these ends the loop
with a result, or goes on to another state. -/

universe u v

namespace M2M.Lib

namespace Loop

variable {σ τ : Type u}

/-- `for (i = 1; i <= n; ++i) f` on the state `s`. -/
def forUpTo (f : Nat → σ → σ) (s : σ) : Nat → σ
  | 0 => s
  | n + 1 => f (n + 1) (forUpTo f s n)

theorem forUpTo_induct {f : Nat → σ → σ} {s : σ} {n : Nat} (P : Nat → σ → Prop) (h₀ : P 0 s)
    (h₁ : ∀ i t, i < n → P i t → P (i + 1) (f (i + 1) t)) : P n (forUpTo f s n) := by
  suffices h : ∀ m, m ≤ n → P m (forUpTo f s m) from h n (Nat.le_refl n)
  intro m hm
  induction m with
  | zero => exact h₀
  | succ m ih => exact h₁ m _ hm (ih (Nat.le_of_succ_le hm))

theorem forUpTo_rel {f : Nat → σ → σ} {g : Nat → τ → τ} {s : σ} {t : τ} {n : Nat}
    (R : Nat → σ → τ → Prop) (h₀ : R 0 s t)
    (h₁ : ∀ i s t, i < n → R i s t → R (i + 1) (f (i + 1) s) (g (i + 1) t)) :
    R n (forUpTo f s n) (forUpTo g t n) := by
  suffices h : ∀ m, m ≤ n → R m (forUpTo f s m) (forUpTo g t m) from h n (Nat.le_refl n)
  intro m hm
  induction m with
  | zero => exact h₀
  | succ m ih => exact h₁ m _ _ hm (ih (Nat.le_of_succ_le hm))

theorem forUpTo_congr {f g : Nat → σ → σ} {s : σ} {n : Nat}
    (h : ∀ i t, 1 ≤ i ∧ i ≤ n → f i t = g i t) : forUpTo f s n = forUpTo g s n := by
  refine forUpTo_rel (fun _ s t => s = t) rfl ?_
  rintro i s _ hi rfl
  exact h (i + 1) s ⟨by omega, hi⟩

theorem forUpTo_count {p : Nat → Prop} [DecidablePred p] (h₀ : ¬ p 0) (n : Nat) :
    forUpTo (fun i count => if p i then count + 1 else count) 0 n = Nat.count p (n + 1) := by
  induction n with
  | zero => simp [forUpTo, Nat.count_succ, h₀]
  | succ n ih =>
    rw [Nat.count_succ, ← ih]
    simp only [forUpTo]
    split <;> rfl

theorem bijOn_count {l : List Nat} (h : l.Nodup) :
    Set.BijOn (Nat.count (· ∈ l)) {a | a ∈ l} {k | k < l.length} := by
  have hmaps : ∀ a ∈ l, Nat.count (· ∈ l) a < l.length := by
    intro a ha
    rw [Nat.count_eq_card_filter_range, ← List.toFinset_card_of_nodup h]
    refine Finset.card_lt_card ⟨?_, ?_⟩
    · intro b hb
      exact List.mem_toFinset.mpr (Finset.mem_filter.mp hb).2
    · intro hsub
      have := hsub (List.mem_toFinset.mpr ha)
      simp at this
  have hinj : Set.InjOn (Nat.count (· ∈ l)) (l.toFinset : Set Nat) := by
    intro a ha b hb heq
    exact Nat.count_injective (by simpa using ha) (by simpa using hb) heq
  refine ⟨hmaps, ?_, ?_⟩
  · intro a ha b hb heq
    exact Nat.count_injective ha hb heq
  · intro k hk
    have hsurj := Finset.surjOn_of_injOn_of_card_le (s := l.toFinset) (t := Finset.range l.length)
      (Nat.count (· ∈ l)) (fun a ha => by simpa using hmaps a (by simpa using ha)) hinj
      (by simp [List.toFinset_card_of_nodup h])
    obtain ⟨a, ha, hak⟩ := hsurj (by simpa using hk : k ∈ (Finset.range l.length : Set Nat))
    exact ⟨a, by simpa using ha, hak⟩

end Loop

variable {σ : Type u} {ρ : Type v}

/-- The result of a loop that ends within `fuel` rounds. -/
def loopWithin (round : σ → ρ ⊕ σ) : Nat → σ → Option ρ
  | 0, _ => none
  | fuel + 1, s =>
    match round s with
    | .inl r => some r
    | .inr s' => loopWithin round fuel s'

def Results (round : σ → ρ ⊕ σ) (s : σ) (r : ρ) : Prop := ∃ fuel, loopWithin round fuel s = some r

def Visits (round : σ → ρ ⊕ σ) : σ → σ → Prop :=
  Relation.ReflTransGen fun s s' => round s = .inr s'

variable {round : σ → ρ ⊕ σ} {s s' t : σ} {r r' : ρ}

theorem loopWithin_of_inl (h : round s = .inl r) (fuel : Nat) :
    loopWithin round (fuel + 1) s = some r := by
  rw [loopWithin, h]

theorem loopWithin_of_inr (h : round s = .inr s') (fuel : Nat) :
    loopWithin round (fuel + 1) s = loopWithin round fuel s' := by
  rw [loopWithin, h]

theorem results_of_inl (h : round s = .inl r) : Results round s r := ⟨1, loopWithin_of_inl h 0⟩

theorem results_iff_of_inr (h : round s = .inr s') : Results round s r ↔ Results round s' r := by
  constructor
  · rintro ⟨fuel, hfuel⟩
    cases fuel with
    | zero => cases hfuel
    | succ fuel =>
      rw [loopWithin_of_inr h] at hfuel
      exact ⟨fuel, hfuel⟩
  · rintro ⟨fuel, hfuel⟩
    refine ⟨fuel + 1, ?_⟩
    rw [loopWithin_of_inr h]
    exact hfuel

theorem Visits.results_iff (h : Visits round s t) : Results round s r ↔ Results round t r := by
  induction h with
  | refl => exact Iff.rfl
  | tail _ hround ih => exact ih.trans (results_iff_of_inr hround)

theorem Results.eq_of_inl (h : Results round s r) (hround : round s = .inl r') : r = r' := by
  obtain ⟨fuel, hfuel⟩ := h
  cases fuel with
  | zero => cases hfuel
  | succ fuel =>
    rw [loopWithin_of_inl hround] at hfuel
    exact (Option.some.inj hfuel).symm

theorem results_iff : Results round s r ↔ ∃ t, Visits round s t ∧ round t = .inl r := by
  constructor
  · rintro ⟨fuel, hfuel⟩
    induction fuel generalizing s with
    | zero => cases hfuel
    | succ fuel ih =>
      cases hround : round s with
      | inl r₀ =>
        rw [loopWithin_of_inl hround] at hfuel
        obtain rfl := Option.some.inj hfuel
        exact ⟨s, .refl, hround⟩
      | inr s' =>
        rw [loopWithin_of_inr hround] at hfuel
        obtain ⟨t, hvisits, ht⟩ := ih hfuel
        exact ⟨t, .head hround hvisits, ht⟩
  · rintro ⟨t, hvisits, ht⟩
    exact hvisits.results_iff.mpr (results_of_inl ht)

theorem Results.unique (h : Results round s r) (h' : Results round s r') : r = r' := by
  obtain ⟨t, hvisits, ht⟩ := results_iff.mp h'
  exact (hvisits.results_iff.mp h).eq_of_inl ht

theorem exists_loopWithin (μ : σ → Nat)
    (h : ∀ t t', Visits round s t → round t = .inr t' → μ t' < μ t) {fuel : Nat}
    (hfuel : μ s < fuel) : ∃ r, loopWithin round fuel s = some r := by
  induction fuel generalizing s with
  | zero => exact absurd hfuel (Nat.not_lt_zero _)
  | succ fuel ih =>
    cases hround : round s with
    | inl r => exact ⟨r, loopWithin_of_inl hround fuel⟩
    | inr s' =>
      have hlt := h s s' .refl hround
      rw [loopWithin_of_inr hround]
      exact ih (fun t t' hvisits => h t t' (.head hround hvisits)) (by omega)

theorem not_results_of_invariant (inv : σ → Prop) (hs : inv s)
    (h : ∀ t, inv t → ∃ t', round t = .inr t' ∧ inv t') : ¬Results round s r := by
  rintro ⟨fuel, hfuel⟩
  induction fuel generalizing s with
  | zero => cases hfuel
  | succ fuel ih =>
    obtain ⟨s', hround, hinv⟩ := h s hs
    rw [loopWithin_of_inr hround] at hfuel
    exact ih hinv hfuel

end M2M.Lib
