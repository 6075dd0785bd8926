import Mathlib.Data.Finset.Card
import Mathlib.Logic.Function.Basic
import Mathlib.Logic.Relation

/-! Graphs in which the edges of a node are numbered, and the walk that takes away all edges that
can be reached from a node. -/

universe u

namespace M2M.Lib

variable {α : Type u}

/-- Where the numbered edges of the nodes lead. -/
abbrev Edges (α : Type u) := α × Nat → Option α

namespace Edges

def Step (e : Edges α) (x y : α) : Prop := ∃ n, e (x, n) = some y

abbrev Reach (e : Edges α) : α → α → Prop := Relation.ReflTransGen e.Step

/-- The edges of all nodes that can be reached are taken away, and no others. -/
structure Cleared (e e' : Edges α) (t : α) : Prop where
  reached : ∀ x n, e.Reach t x → e' (x, n) = none
  kept : ∀ x n, ¬e.Reach t x → e' (x, n) = e (x, n)

theorem Cleared.eq_none {e e' : Edges α} {t : α} (h : Cleared e e' t) {c : α × Nat}
    (hc : e c = none) : e' c = none := by
  obtain ⟨x, n⟩ := c
  by_cases hx : e.Reach t x
  · exact h.reached x n hx
  · rw [h.kept x n hx, hc]

theorem Reach.mono {e e' : Edges α} (h : ∀ c y, e c = some y → e' c = some y) {t x : α}
    (hx : e.Reach t x) : e'.Reach t x := by
  have hstep : e.Step ≤ e'.Step := fun y z hyz => hyz.imp fun n hn => h _ _ hn
  exact Relation.ReflTransGen.mono hstep t x hx

variable [DecidableEq α]

theorem update_none_eq_some {e : Edges α} {a c : α × Nat} {y : α}
    (h : Function.update e a none c = some y) : e c = some y := by
  by_cases hc : c = a
  · rw [hc, Function.update_self] at h
    cases h
  · rwa [Function.update_of_ne hc] at h

/-- What is taken away behind one edge, and the edge itself. -/
structure Followed (e e' : Edges α) (a : α × Nat) : Prop where
  missing : e a = none → e' = e
  cleared : ∀ u, e a = some u → Cleared (Function.update e a none) e' u

namespace Followed

variable {e e' : Edges α} {a c : α × Nat} {t u x y : α} {n : Nat}

theorem self (h : Followed e e' a) : e' a = none := by
  cases hu : e a with
  | none => rw [h.missing hu, hu]
  | some u => exact (h.cleared u hu).eq_none (Function.update_self _ _ _)

theorem eq_none (h : Followed e e' a) (hc : e c = none) : e' c = none := by
  cases hu : e a with
  | none => rwa [h.missing hu]
  | some u =>
    refine (h.cleared u hu).eq_none ?_
    by_cases hca : c = a
    · rw [hca, Function.update_self]
    · rwa [Function.update_of_ne hca]

theorem eq_some (h : Followed e e' a) (hc : e' c = some y) : e c = some y := by
  cases hec : e c with
  | none => rw [h.eq_none hec] at hc; cases hc
  | some z =>
    cases hu : e a with
    | none => rw [h.missing hu, hec] at hc; exact hc
    | some u =>
      obtain ⟨x, n⟩ := c
      have hclear := h.cleared u hu
      by_cases hx : Reach (Function.update e a none) u x
      · rw [hclear.reached x n hx] at hc
        cases hc
      · rw [hclear.kept x n hx] at hc
        rw [← hec]
        exact update_none_eq_some hc

def On (e : Edges α) (a : α × Nat) (x : α) : Prop :=
  ∃ u, e a = some u ∧ Reach (Function.update e a none) u x

theorem eq_none_iff (h : Followed e e' a) (hc : e (x, n) ≠ none) :
    e' (x, n) = none ↔ (x, n) = a ∨ On e a x := by
  constructor
  · intro hnone
    by_contra hnot
    rw [not_or] at hnot
    cases hu : e a with
    | none => exact hc (h.missing hu ▸ hnone)
    | some u =>
      have hx : ¬Reach (Function.update e a none) u x := fun hx => hnot.2 ⟨u, hu, hx⟩
      rw [(h.cleared u hu).kept x n hx, Function.update_of_ne hnot.1] at hnone
      exact hc hnone
  · rintro (rfl | ⟨u, hu, hx⟩)
    · exact h.self
    · exact (h.cleared u hu).reached x n hx

theorem On.step (hx : On e a x) (hy : e (x, n) = some y) : (x, n) = a ∨ On e a y := by
  obtain ⟨u, hu, hreach⟩ := hx
  by_cases ha : (x, n) = a
  · exact .inl ha
  · refine .inr ⟨u, hu, hreach.tail ⟨n, ?_⟩⟩
    rwa [Function.update_of_ne ha]

theorem On.reach (hx : On e (t, n) x) : Reach e t x := by
  obtain ⟨u, hu, hreach⟩ := hx
  exact Relation.ReflTransGen.head ⟨n, hu⟩ (Reach.mono (fun _ _ => update_none_eq_some) hreach)

end Followed

theorem Cleared.of_followed {e e₁ e₂ : Edges α} {t : α} (h₀ : Followed e e₁ (t, 0))
    (h₁ : Followed e₁ e₂ (t, 1)) (htwo : ∀ n, e (t, n) ≠ none → n < 2) : Cleared e e₂ t := by
  -- the nodes from which edges are taken away are closed under the edges
  have hclosed : ∀ x, e.Reach t x →
      x = t ∨ Followed.On e (t, 0) x ∨ Followed.On e₁ (t, 1) x := by
    intro x hx
    induction hx with
    | refl => exact .inl rfl
    | @tail y z _ hyz ih =>
      obtain ⟨n, hn⟩ := hyz
      -- where the edges of the node itself lead
      have hself : ∀ n, e (t, n) = some z →
          Followed.On e (t, 0) z ∨ Followed.On e₁ (t, 1) z := by
        intro n hn
        have hlt := htwo n (by rw [hn]; exact Option.some_ne_none z)
        rcases Nat.lt_succ_iff_lt_or_eq.mp hlt with hzero | rfl
        · rw [Nat.lt_one_iff.mp hzero] at hn
          exact .inl ⟨z, hn, .refl⟩
        · by_cases hkept : e₁ (t, 1) = none
          · have hgone := (h₀.eq_none_iff (by rw [hn]; exact Option.some_ne_none z)).mp hkept
            rcases hgone with heq | hon
            · exact absurd (congrArg Prod.snd heq) Nat.one_ne_zero
            · exact .inl ((hon.step hn).resolve_left fun heq =>
                absurd (congrArg Prod.snd heq) Nat.one_ne_zero)
          · obtain ⟨v, hv⟩ := Option.ne_none_iff_exists'.mp hkept
            rw [h₀.eq_some hv] at hn
            exact .inr ⟨z, hv.trans hn, .refl⟩
      have hfirst : Followed.On e (t, 0) y → Followed.On e (t, 0) z ∨ Followed.On e₁ (t, 1) z := by
        intro hon
        rcases hon.step hn with heq | hon
        · obtain ⟨rfl, rfl⟩ := Prod.mk.inj heq
          exact hself 0 hn
        · exact .inl hon
      right
      rcases ih with rfl | hon | hon
      · exact hself n hn
      · exact hfirst hon
      · by_cases hkept : e₁ (y, n) = none
        · rcases (h₀.eq_none_iff (by rw [hn]; exact Option.some_ne_none z)).mp hkept with heq | hon'
          · obtain ⟨rfl, rfl⟩ := Prod.mk.inj heq
            exact hself 0 hn
          · exact hfirst hon'
        · obtain ⟨w, hw⟩ := Option.ne_none_iff_exists'.mp hkept
          have hwz : e₁ (y, n) = some z := by rw [hw, ← h₀.eq_some hw, hn]
          rcases hon.step hwz with heq | hon
          · obtain ⟨rfl, rfl⟩ := Prod.mk.inj heq
            exact hself 1 hn
          · exact .inr hon
  constructor
  · intro x n hx
    by_cases hnone : e (x, n) = none
    · exact h₁.eq_none (h₀.eq_none hnone)
    · by_cases hkept : e₁ (x, n) = none
      · exact h₁.eq_none hkept
      · refine (h₁.eq_none_iff hkept).mpr ?_
        rcases hclosed x hx with rfl | hon | hon
        · rcases Nat.lt_succ_iff_lt_or_eq.mp (htwo n hnone) with hzero | rfl
          · rw [Nat.lt_one_iff.mp hzero] at hkept
            exact absurd h₀.self hkept
          · exact .inl rfl
        · exact absurd ((h₀.eq_none_iff hnone).mpr (.inr hon)) hkept
        · exact .inr hon
  · intro x n hx
    have hxt : ∀ m, (x, n) ≠ (t, m) := by
      rintro m heq
      obtain ⟨rfl, -⟩ := Prod.mk.inj heq
      exact hx .refl
    have hon₁ : ¬Followed.On e₁ (t, 1) x := fun hon =>
      hx (Reach.mono (fun _ _ => h₀.eq_some) hon.reach)
    cases hec : e (x, n) with
    | none => exact h₁.eq_none (h₀.eq_none hec)
    | some y =>
      have hne : e (x, n) ≠ none := by rw [hec]; exact Option.some_ne_none y
      have hne₁ : e₁ (x, n) ≠ none := fun hnone =>
        ((h₀.eq_none_iff hne).mp hnone).elim (hxt 0) fun hon => hx hon.reach
      have hne₂ : e₂ (x, n) ≠ none := fun hnone =>
        ((h₁.eq_none_iff hne₁).mp hnone).elim (hxt 1) hon₁
      obtain ⟨z, hz⟩ := Option.ne_none_iff_exists'.mp hne₂
      rw [hz, ← hec, h₀.eq_some (h₁.eq_some hz)]

end Edges

end M2M.Lib
