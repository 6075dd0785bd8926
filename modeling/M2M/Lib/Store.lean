import Mathlib.Data.List.Basic
import Mathlib.Logic.Function.Basic
import Mathlib.Order.Nat

universe u

namespace M2M.Lib.Store

variable {α : Type u}

/-- The array after the elements of `l` have been stored from its start on. -/
def store (l : List α) (array : Nat → α) : Nat → α := fun k => l.getD k (array k)

@[simp] theorem store_nil (array : Nat → α) : store [] array = array := rfl

theorem store_of_lt {l : List α} {k : Nat} (hk : k < l.length) (array : Nat → α) :
    store l array k = l[k] := by
  simp [store, List.getD_eq_getElem?_getD, List.getElem?_eq_getElem hk]

theorem store_of_le {l : List α} {k : Nat} (hk : l.length ≤ k) (array : Nat → α) :
    store l array k = array k := by
  simp [store, List.getD_eq_getElem?_getD, List.getElem?_eq_none hk]

theorem store_concat (l : List α) (x : α) (array : Nat → α) :
    store (l ++ [x]) array = Function.update (store l array) l.length x := by
  funext k
  rcases lt_trichotomy k l.length with hk | rfl | hk
  · rw [Function.update_of_ne hk.ne, store_of_lt hk, store_of_lt (by simp; omega)]
    exact List.getElem_append_left hk
  · rw [Function.update_self, store_of_lt (by simp)]
    simp
  · rw [Function.update_of_ne hk.ne', store_of_le (by simp; omega), store_of_le (by omega)]

theorem store_pair (x y : α) (array : Nat → α) :
    store [x, y] array = Function.update (Function.update array 0 x) 1 y := by
  rw [show [x, y] = [x] ++ [y] from rfl, store_concat, ← List.nil_append [x], store_concat]
  rfl

theorem store_triple (x y z : α) (array : Nat → α) :
    store [x, y, z] array =
      Function.update (Function.update (Function.update array 0 x) 1 y) 2 z := by
  rw [show [x, y, z] = [x, y] ++ [z] from rfl, store_concat, store_pair]
  rfl

theorem map_range_store (l : List α) (array : Nat → α) :
    (List.range l.length).map (store l array) = l := by
  refine List.ext_getElem (by simp) ?_
  intro k hk hk'
  simp [store_of_lt hk']

theorem store_store_iff {l₁ : List α} {x : α} (h : ∀ y ∈ l₁, y ≠ x) (l₂ : List α) :
    store l₂ (store l₁ fun _ => x) = store l₂ (fun _ => x) ↔ l₁.length ≤ l₂.length := by
  constructor
  · intro heq
    by_contra hlt
    have hk : l₂.length < l₁.length := by omega
    have hx := congrFun heq l₂.length
    rw [store_of_le le_rfl, store_of_le le_rfl, store_of_lt hk] at hx
    exact h l₁[l₂.length] (List.getElem_mem hk) hx
  · intro hle
    funext k
    rcases Nat.lt_or_ge k l₂.length with hk | hk
    · rw [store_of_lt hk, store_of_lt hk]
    · rw [store_of_le hk, store_of_le hk, store_of_le (hle.trans hk)]

/-- The memory holds the elements of a list from `ind` on. -/
def Holds (memory : Nat → α) : Nat → List α → Prop
  | _, [] => True
  | ind, x :: l => memory ind = x ∧ Holds memory (ind + 1) l

theorem holds_append {memory : Nat → α} {ind : Nat} {l₁ l₂ : List α} :
    Holds memory ind (l₁ ++ l₂) ↔ Holds memory ind l₁ ∧ Holds memory (ind + l₁.length) l₂ := by
  induction l₁ generalizing ind with
  | nil => simp [Holds]
  | cons x l₁ ih =>
    rw [List.cons_append, Holds, Holds, ih, List.length_cons, and_assoc,
      show ind + 1 + l₁.length = ind + (l₁.length + 1) by omega]

theorem holds_iff {memory : Nat → α} {ind : Nat} {l : List α} :
    Holds memory ind l ↔ ∀ k (hk : k < l.length), memory (ind + k) = l[k] := by
  induction l generalizing ind with
  | nil => simp [Holds]
  | cons x l ih =>
    rw [Holds, ih]
    constructor
    · rintro ⟨h₀, h⟩ k hk
      cases k with
      | zero => exact h₀
      | succ k =>
        rw [List.getElem_cons_succ, ← h k (by simpa using hk)]
        congr 1
        omega
    · intro h
      refine ⟨h 0 (by simp), ?_⟩
      intro k hk
      have := h (k + 1) (by simpa using hk)
      rwa [show ind + 1 + k = ind + (k + 1) by omega]

theorem holds_store (l : List α) (array : Nat → α) : Holds (store l array) 0 l := by
  refine holds_iff.mpr ?_
  intro k hk
  rw [Nat.zero_add, store_of_lt hk]

end M2M.Lib.Store
