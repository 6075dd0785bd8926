import Mathlib.Data.List.Basic
import Mathlib.Logic.Function.Basic

universe u v

namespace M2M.Lib.Ring

/-- The slots of a ring: position `i` of the stream goes to slot `slot i`, and positions
less than `cap` apart do not share a slot. -/
structure Slots (κ : Type u) where
  cap : Nat
  slot : Nat → κ
  slot_ne : ∀ {i j}, i < j → j < i + cap → slot i ≠ slot j

def Slots.mod (n : Nat) : Slots Nat where
  cap := n
  slot i := i % n
  slot_ne {i j} hij hjn h := by
    have hdiv : (j - i) % n = 0 := Nat.sub_mod_eq_zero_of_mod_eq h.symm
    rw [Nat.mod_eq_of_lt (by omega)] at hdiv
    omega

/-- A ring of lines: `rows` lines of `cols` slots. -/
def Slots.rows (rows cols : Nat) : Slots (Nat × Nat) where
  cap := rows * cols
  slot i := (i / cols % rows, i % cols)
  slot_ne {i j} hij hjn h := by
    obtain ⟨hrow, hcol⟩ := Prod.mk.inj h
    have hi := Nat.div_add_mod i cols
    have hj := Nat.div_add_mod j cols
    have hle : i / cols ≤ j / cols := Nat.div_le_div_right (Nat.le_of_lt hij)
    have hlt : j / cols < i / cols + rows := by
      by_contra hge
      have := Nat.mul_le_mul_left cols (Nat.le_of_not_lt hge)
      rw [Nat.mul_add] at this
      rw [Nat.mul_comm rows] at hjn
      omega
    have hdiv : (j / cols - i / cols) % rows = 0 := Nat.sub_mod_eq_zero_of_mod_eq hrow.symm
    rw [Nat.mod_eq_of_lt (by omega)] at hdiv
    have heq : i / cols = j / cols := by omega
    rw [heq] at hi
    omega

section Holds

variable {κ : Type u} {α : Type v} {S : Slots κ} {buf : κ → α} {items : List α}
  {lo hi : Nat}

/-- From position `lo` on the ring holds the items of the stream. -/
def Holds (S : Slots κ) (buf : κ → α) (items : List α) (lo : Nat) : Prop :=
  ∀ j, lo ≤ j → ∀ x ∈ items[j]?, buf (S.slot j) = x

theorem Holds.nil (S : Slots κ) (buf : κ → α) (lo : Nat) : Holds S buf [] lo := by
  intro j _ x hx
  cases hx

theorem Holds.read (h : Holds S buf items lo) (hlo : lo < items.length) :
    items[lo]? = some (buf (S.slot lo)) := by
  rw [List.getElem?_eq_getElem hlo, h lo (Nat.le_refl _) items[lo] (List.getElem?_eq_getElem hlo)]

theorem Holds.mono (h : Holds S buf items lo) (hle : lo ≤ hi) : Holds S buf items hi :=
  fun j hj x hx => h j (Nat.le_trans hle hj) x hx

variable [DecidableEq κ]

theorem Holds.overwrite (h : Holds S buf items (lo + 1)) (hlen : items.length ≤ lo + S.cap)
    (x : α) : Holds S (Function.update buf (S.slot lo) x) items (lo + 1) := by
  intro j hj y hy
  have hjl : j < items.length := (List.getElem?_eq_some_iff.mp hy).1
  rw [Function.update_of_ne (S.slot_ne (by omega) (by omega)).symm]
  exact h j hj y hy

theorem Holds.push (h : Holds S buf items lo) (hlen : items.length < lo + S.cap) (x : α) :
    Holds S (Function.update buf (S.slot items.length) x) (items ++ [x]) lo := by
  intro j hj y hy
  rcases Nat.lt_trichotomy j items.length with hlt | rfl | hgt
  · rw [Function.update_of_ne (S.slot_ne hlt (by omega))]
    rw [List.getElem?_append_left hlt] at hy
    exact h j hj y hy
  · simp only [List.getElem?_concat_length, Option.mem_some_iff] at hy
    rw [Function.update_self, hy]
  · rw [List.getElem?_eq_none (by simp; omega)] at hy
    cases hy

end Holds

theorem take_succ_of_getElem? {α : Type v} {items : List α} {n : Nat} {x : α}
    (h : items[n]? = some x) : items.take (n + 1) = items.take n ++ [x] := by
  rw [List.take_add_one, h]
  rfl

end M2M.Lib.Ring
