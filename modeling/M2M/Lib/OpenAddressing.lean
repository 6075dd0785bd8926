import M2M.Lib.Probing
import Mathlib.Data.Finset.Card

/-! Tables with linear probing in which entries are only put, each under a key of its own. -/

universe u v

namespace M2M.Lib.OpenAddressing

open Probing

variable {α : Type u} {κ : Type v}

/-- The table holds the entries of the list.  A search for the key of an entry from its home slot
on finds no empty slot before that entry. -/
structure Filled (n : Nat) (home : κ → Nat) (key : α → κ) (t : Nat → Option α) (l : List α) :
    Prop where
  entry : ∀ a ∈ l, ∃ d < n, t ((home (key a) + d) % n) = some a ∧
    ∀ j < d, t ((home (key a) + j) % n) ≠ none
  own : ∀ i < n, ∀ a, t i = some a → a ∈ l
  once : ∀ i < n, ∀ j < n, ∀ a, t i = some a → t j = some a → i = j

namespace Filled

variable {n : Nat} {home : κ → Nat} {key : α → κ} {t : Nat → Option α} {l : List α} {k : κ}

theorem empty (n : Nat) (home : κ → Nat) (key : α → κ) : Filled n home key (fun _ => none) [] where
  entry _ ha := absurd ha List.not_mem_nil
  own _ _ _ ha := absurd ha nofun
  once _ _ _ _ _ ha _ := absurd ha nofun

theorem exists_empty (h : Filled n home key t l) (hl : l.length < n) : ∃ i < n, t i = none := by
  classical
  by_contra hfull
  push Not at hfull
  have hslot : ∀ i ∈ Finset.range n, ∃ a, t i = some a := fun i hi =>
    Option.ne_none_iff_exists'.mp (hfull i (Finset.mem_range.mp hi))
  have : Nonempty α := ⟨(hslot 0 (Finset.mem_range.mpr (Nat.zero_lt_of_lt hl))).choose⟩
  choose! f hf using hslot
  have hmaps : Set.MapsTo f (Finset.range n) l.toFinset := by
    intro i hi
    exact List.mem_toFinset.mpr (h.own i (Finset.mem_range.mp hi) _ (hf i hi))
  have hinj : Set.InjOn f (Finset.range n) := by
    intro i hi j hj heq
    exact h.once i (Finset.mem_range.mp hi) j (Finset.mem_range.mp hj) (f i) (hf i hi)
      (heq ▸ hf j hj)
  have hcard := Finset.card_le_card_of_injOn f hmaps hinj
  rw [Finset.card_range] at hcard
  exact absurd (Nat.lt_of_lt_of_le hl hcard) (Nat.not_lt.mpr (List.toFinset_card_le l))

theorem search [DecidableEq κ] (h : Filled n home key t l) (hl : l.length < n) (hk : home k < n) :
    ∃ d < n, probe n t (fun a => key a = k) (home k) n = some ((home k + d) % n) ∧
      ((∃ a ∈ l, key a = k ∧ t ((home k + d) % n) = some a) ∨
        (∀ a ∈ l, key a ≠ k) ∧ t ((home k + d) % n) = none ∧
          ∀ j < d, t ((home k + j) % n) ≠ none) := by
  obtain ⟨i, hi, hempty⟩ := h.exists_empty hl
  have hstop : ¬Passes t (fun a => key a = k) i := by
    rintro ⟨a, ha, -⟩
    cases hempty.symm.trans ha
  obtain ⟨d, hd, hprobe, hpass, hend⟩ := exists_eq_some hk hi hstop
  refine ⟨d, hd, hprobe, ?_⟩
  cases hslot : t ((home k + d) % n) with
  | some a =>
    have hkey : key a = k := by
      by_contra hne
      exact hend ⟨a, hslot, decide_eq_false hne⟩
    exact .inl ⟨a, h.own _ (Nat.mod_lt _ (Nat.zero_lt_of_lt hd)) a hslot, hkey, rfl⟩
  | none =>
    refine .inr ⟨?_, rfl, fun j hj => ?_⟩
    · rintro a ha rfl
      obtain ⟨d', hd', hentry, hpath⟩ := h.entry a ha
      rcases Nat.lt_trichotomy d d' with hlt | rfl | hgt
      · exact hpath d hlt hslot
      · cases hslot.symm.trans hentry
      · -- the search would have stopped at the entry
        obtain ⟨b, hb, hnot⟩ := hpass d' hgt
        obtain rfl := Option.some.inj (hentry.symm.trans hb)
        exact absurd rfl (of_decide_eq_false hnot)
    · obtain ⟨a, ha, -⟩ := hpass j hj
      rw [ha]
      exact nofun

theorem put (h : Filled n home key t l) {a : α} {d : Nat} (hd : d < n)
    (hempty : t ((home (key a) + d) % n) = none)
    (hpath : ∀ j < d, t ((home (key a) + j) % n) ≠ none) (hnew : a ∉ l) :
    Filled n home key (Function.update t ((home (key a) + d) % n) (some a)) (l ++ [a]) := by
  have hkept : ∀ i b, t i = some b →
      Function.update t ((home (key a) + d) % n) (some a) i = some b := by
    intro i b hb
    rw [Function.update_of_ne, hb]
    rintro rfl
    cases hempty.symm.trans hb
  have htaken : ∀ i, t i ≠ none →
      Function.update t ((home (key a) + d) % n) (some a) i ≠ none := by
    intro i hi
    obtain ⟨b, hb⟩ := Option.ne_none_iff_exists'.mp hi
    rw [hkept i b hb]
    exact nofun
  have hslot : ∀ i b, Function.update t ((home (key a) + d) % n) (some a) i = some b →
      i = (home (key a) + d) % n ∧ b = a ∨ t i = some b := by
    intro i b hb
    by_cases hi : i = (home (key a) + d) % n
    · subst hi
      rw [Function.update_self, Option.some.injEq] at hb
      exact .inl ⟨rfl, hb.symm⟩
    · rw [Function.update_of_ne hi] at hb
      exact .inr hb
  refine ⟨fun b hb => ?_, fun i hi b hb => ?_, fun i hi j hj b hbi hbj => ?_⟩
  · rw [List.mem_append, List.mem_singleton] at hb
    rcases hb with hb | rfl
    · obtain ⟨d', hd', hentry, hpath'⟩ := h.entry b hb
      exact ⟨d', hd', hkept _ _ hentry, fun j hj => htaken _ (hpath' j hj)⟩
    · exact ⟨d, hd, Function.update_self _ _ _, fun j hj => htaken _ (hpath j hj)⟩
  · rw [List.mem_append, List.mem_singleton]
    exact (hslot i b hb).elim (fun hnew => .inr hnew.2) fun hold => .inl (h.own i hi b hold)
  · rcases hslot i b hbi with ⟨rfl, rfl⟩ | hi'
    · rcases hslot j b hbj with ⟨rfl, -⟩ | hj'
      · rfl
      · exact absurd (h.own j hj b hj') hnew
    · rcases hslot j b hbj with ⟨-, rfl⟩ | hj'
      · exact absurd (h.own i hi b hi') hnew
      · exact h.once i hi j hj b hi' hj'

end Filled

end M2M.Lib.OpenAddressing
