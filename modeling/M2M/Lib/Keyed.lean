import Mathlib.Data.List.Nodup

/-! Lists of records with distinct keys: a record is found, replaced and taken out by its key. -/

universe u v w

namespace M2M.Lib.Keyed

variable {α : Type u} {κ : Type v} [DecidableEq κ] (key : α → κ) {l : List α} {a b : α} {k : κ}

/-- The record with a key. -/
def find (l : List α) (k : κ) : Option α := l.find? fun a => key a = k

def replace (l : List α) (a : α) : List α := l.map fun b => if key b = key a then a else b

def without (l : List α) (k : κ) : List α := l.filter fun a => key a ≠ k

variable {key}

theorem mem_of_find (h : find key l k = some a) : a ∈ l := List.mem_of_find?_eq_some h

theorem key_of_find (h : find key l k = some a) : key a = k := by
  simpa using List.find?_some h

theorem find_eq_some_iff (hl : (l.map key).Nodup) : find key l k = some a ↔ a ∈ l ∧ key a = k := by
  refine ⟨fun h => ⟨mem_of_find h, key_of_find h⟩, ?_⟩
  rintro ⟨ha, rfl⟩
  cases hfind : find key l (key a) with
  | none =>
    rw [find, List.find?_eq_none] at hfind
    exact absurd (hfind a ha) (by simp)
  | some b => rw [List.inj_on_of_nodup_map hl (mem_of_find hfind) ha (key_of_find hfind)]

theorem find_self (hl : (l.map key).Nodup) (ha : a ∈ l) : find key l (key a) = some a :=
  (find_eq_some_iff hl).mpr ⟨ha, rfl⟩

theorem isSome_find_iff : (find key l k).isSome ↔ k ∈ l.map key := by
  rw [find, List.find?_isSome, List.mem_map]
  simp

variable (key) in
@[simp] theorem map_key_replace (l : List α) (a : α) : (replace key l a).map key = l.map key := by
  rw [replace, List.map_map]
  refine List.map_congr_left fun b _ => ?_
  simp only [Function.comp_apply]
  split
  · next h => exact h.symm
  · rfl

theorem replace_self (hl : (l.map key).Nodup) (ha : a ∈ l) : replace key l a = l := by
  refine (List.map_congr_left fun b hb => ?_).trans (List.map_id l)
  split
  · next h => exact (List.inj_on_of_nodup_map hl hb ha h).symm
  · rfl

theorem replace_replace (h : key a = key b) :
    replace key (replace key l a) b = replace key l b := by
  rw [replace, replace, List.map_map]
  refine List.map_congr_left fun c _ => ?_
  dsimp only [Function.comp_apply]
  by_cases hc : key c = key a
  · rw [if_pos hc, if_pos h, if_pos (hc.trans h)]
  · rw [if_neg hc]

theorem mem_replace (h : b ∈ replace key l a) : b = a ∨ b ∈ l := by
  obtain ⟨c, hc, rfl⟩ := List.mem_map.mp h
  split
  · exact .inl rfl
  · exact .inr hc

theorem map_replace {β : Type w} (f : α → β) (h : ∀ b ∈ l, key b = key a → f b = f a) :
    (replace key l a).map f = l.map f := by
  rw [replace, List.map_map]
  refine List.map_congr_left fun b hb => ?_
  simp only [Function.comp_apply]
  split
  · next heq => exact (h b hb heq).symm
  · rfl

variable (key) in
theorem find?_replace (p : α → Bool) (h : ∀ b ∈ l, key b = key a → p b = p a) :
    (replace key l a).find? p = (l.find? p).map fun b => if key b = key a then a else b := by
  rw [replace, List.find?_map]
  congr 1
  induction l with
  | nil => rfl
  | cons b l ih =>
    have hb : (p ∘ fun b => if key b = key a then a else b) b = p b := by
      simp only [Function.comp_apply]
      split
      · next heq => exact (h b List.mem_cons_self heq).symm
      · rfl
    rw [List.find?_cons, List.find?_cons, hb, ih fun c hc => h c (List.mem_cons_of_mem b hc)]

theorem nodup_without (hl : (l.map key).Nodup) (k : κ) : ((without key l k).map key).Nodup :=
  hl.sublist (List.filter_sublist.map key)

theorem mem_without : a ∈ without key l k ↔ a ∈ l ∧ key a ≠ k := by
  simp [without, List.mem_filter]

theorem find?_without (p : α → Bool) (h : ∀ a ∈ l, key a = k → p a = false) :
    (without key l k).find? p = l.find? p := by
  induction l with
  | nil => rfl
  | cons a l ih =>
    have hrest := ih fun b hb => h b (List.mem_cons_of_mem a hb)
    rw [without, List.filter_cons]
    by_cases hk : key a = k
    · rw [if_neg (by simp [hk]), List.find?_cons, h a List.mem_cons_self hk]
      exact hrest
    · rw [if_pos (by simp [hk]), List.find?_cons, List.find?_cons]
      cases p a with
      | true => rfl
      | false => exact hrest

end M2M.Lib.Keyed
