import Mathlib.Data.Finset.Card
import Mathlib.Data.Nat.Find
import Mathlib.Order.Basic

universe u

namespace M2M.Lib

variable {α : Type u}

/-- `Steps r k a b`: a walk of exactly `k` steps of the relation leads from `a` to `b`. -/
inductive Steps (r : α → α → Prop) : Nat → α → α → Prop
  | refl {a} : Steps r 0 a a
  | snoc {k a b c} : Steps r k a b → r b c → Steps r (k + 1) a c

variable {r : α → α → Prop} {a b c : α} {j k : Nat}

namespace Steps

theorem cons (h : r a b) (hs : Steps r k b c) : Steps r (k + 1) a c := by
  induction hs with
  | refl => exact .snoc .refl h
  | snoc _ hr ih => exact .snoc (ih h) hr

theorem cons_inv (hs : Steps r (k + 1) a c) : ∃ b, r a b ∧ Steps r k b c := by
  induction k generalizing c with
  | zero =>
    cases hs with
    | snoc h hr =>
      cases h
      exact ⟨c, hr, .refl⟩
  | succ k ih =>
    cases hs with
    | snoc h hr =>
      obtain ⟨b, hab, hb⟩ := ih h
      exact ⟨b, hab, .snoc hb hr⟩

theorem eq_of_zero (h : Steps r 0 a b) : a = b := by
  cases h
  rfl

end Steps

/-- `k` is the length of a shortest walk from `a` to `b`. -/
def IsDist (r : α → α → Prop) (a b : α) (k : Nat) : Prop :=
  Steps r k a b ∧ ∀ j, Steps r j a b → k ≤ j

namespace IsDist

theorem unique (hj : IsDist r a b j) (hk : IsDist r a b k) : j = k :=
  Nat.le_antisymm (hj.2 k hk.1) (hk.2 j hj.1)

theorem exists_of_steps (h : ∃ k, Steps r k a b) : ∃ k, IsDist r a b k := by
  classical
  exact ⟨Nat.find h, Nat.find_spec h, fun j hj => Nat.find_min' h hj⟩

theorem eq_of_zero (h : IsDist r a b 0) : a = b := h.1.eq_of_zero

theorem tail (h : IsDist r a c (k + 1)) (hr : r a b) (hs : Steps r k b c) : IsDist r b c k := by
  refine ⟨hs, ?_⟩
  intro j hj
  exact Nat.le_of_succ_le_succ (h.2 (j + 1) (.cons hr hj))

theorem init (h : IsDist r a c (k + 1)) : ∃ b, IsDist r a b k ∧ r b c := by
  cases h.1 with
  | @snoc _ _ b _ hs hr =>
    refine ⟨b, ⟨hs, ?_⟩, hr⟩
    intro j hj
    exact Nat.le_of_succ_le_succ (h.2 (j + 1) (.snoc hj hr))

theorem exists_le (h : IsDist r a c k) (hj : j ≤ k) : ∃ b, IsDist r a b j := by
  induction k generalizing c with
  | zero => exact ⟨c, Nat.le_zero.mp hj ▸ h⟩
  | succ k ih =>
    cases hj with
    | refl => exact ⟨c, h⟩
    | step hj =>
      obtain ⟨b, hb, -⟩ := h.init
      exact ih hb hj

theorem lt_card {s : Finset α} (ha : a ∈ s) (hs : ∀ b c, r b c → c ∈ s) (h : IsDist r a c k) :
    k < s.card := by
  have hpoint : ∀ j ∈ Finset.range (k + 1), ∃ b, IsDist r a b j := fun j hj =>
    h.exists_le (Nat.le_of_lt_succ (Finset.mem_range.mp hj))
  have : Nonempty α := ⟨a⟩
  choose! f hf using hpoint
  have hmaps : ∀ j ∈ Finset.range (k + 1), f j ∈ s := by
    intro j hj
    cases (hf j hj).1 with
    | refl => exact ha
    | snoc _ hr => exact hs _ _ hr
  have hinj : Set.InjOn f (Finset.range (k + 1)) := by
    intro i hi j hj heq
    have hdist := hf i hi
    rw [heq] at hdist
    exact hdist.unique (hf j hj)
  have hcard := Finset.card_le_card_of_injOn f hmaps hinj
  rwa [Finset.card_range] at hcard

end IsDist

end M2M.Lib
