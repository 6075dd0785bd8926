import Mathlib.Data.List.Basic
import Mathlib.Data.List.Pairwise
import Mathlib.Order.Basic
import Mathlib.Order.Nat

/-! Regions of a memory, and slots of time, that do not overlap. -/

namespace M2M.Lib

/-- The bytes `[start, start + size)` of a memory. -/
structure Region where
  start : Nat
  size : Nat
  deriving DecidableEq

namespace Region

def Within (r : Region) (lo hi : Nat) : Prop := lo ≤ r.start ∧ r.start + r.size ≤ hi

def Apart (r r' : Region) : Prop := r.start + r.size ≤ r'.start ∨ r'.start + r'.size ≤ r.start

def shift (base : Nat) (r : Region) : Region := ⟨base + r.start, r.size⟩

theorem Apart.symm {r r' : Region} (h : r.Apart r') : r'.Apart r := Or.symm h

theorem Apart.shift {r r' : Region} (h : r.Apart r') (base : Nat) :
    (r.shift base).Apart (r'.shift base) := by
  simp only [Apart, Region.shift] at h ⊢
  omega

theorem Within.shift {r : Region} {lo hi : Nat} (h : r.Within lo hi) (base : Nat) :
    (r.shift base).Within (base + lo) (base + hi) := by
  simp only [Within, Region.shift] at h ⊢
  omega

theorem Within.mono {r : Region} {lo hi lo' hi' : Nat} (h : r.Within lo hi) (hlo : lo' ≤ lo)
    (hhi : hi ≤ hi') : r.Within lo' hi' :=
  ⟨hlo.trans h.1, h.2.trans hhi⟩

theorem Within.apart {r r' : Region} {lo mid hi : Nat} (h : r.Within lo mid)
    (h' : r'.Within mid hi) : r.Apart r' :=
  .inl (h.2.trans h'.1)

/-- The regions lie between `lo` and `hi` in the order of the list. -/
def Packed (lo hi : Nat) : List Region → Prop
  | [] => lo ≤ hi
  | r :: rs => lo ≤ r.start ∧ Packed (r.start + r.size) hi rs

def decidablePacked (hi : Nat) : (lo : Nat) → (rs : List Region) → Decidable (Packed lo hi rs)
  | lo, [] => inferInstanceAs (Decidable (lo ≤ hi))
  | lo, r :: rs =>
    have := decidablePacked hi (r.start + r.size) rs
    inferInstanceAs (Decidable (lo ≤ r.start ∧ Packed (r.start + r.size) hi rs))

instance (lo hi : Nat) (rs : List Region) : Decidable (Packed lo hi rs) :=
  decidablePacked hi lo rs

namespace Packed

variable {lo hi : Nat} {rs : List Region}

theorem le (h : Packed lo hi rs) : lo ≤ hi := by
  induction rs generalizing lo with
  | nil => exact h
  | cons r rs ih => exact h.1.trans ((Nat.le_add_right _ _).trans (ih h.2))

theorem within (h : Packed lo hi rs) : ∀ r ∈ rs, r.Within lo hi := by
  induction rs generalizing lo with
  | nil => exact nofun
  | cons r rs ih =>
    intro r' hr'
    rcases List.mem_cons.mp hr' with rfl | hr'
    · exact ⟨h.1, h.2.le⟩
    · exact (ih h.2 r' hr').mono (h.1.trans (Nat.le_add_right _ _)) le_rfl

theorem pairwise (h : Packed lo hi rs) : rs.Pairwise Apart := by
  induction rs generalizing lo with
  | nil => exact .nil
  | cons r rs ih =>
    refine .cons ?_ (ih h.2)
    intro r' hr'
    exact .inl (h.2.within r' hr').1

end Packed

end Region

structure Slot where
  start : Int
  length : Nat
deriving DecidableEq

namespace Slot

variable {a b c : Slot} {l r : List Slot}

def finish (a : Slot) : Int := a.start + a.length

def Before (a b : Slot) : Prop := a.finish ≤ b.start

instance (a b : Slot) : Decidable (a.Before b) := inferInstanceAs (Decidable (_ ≤ _))

theorem start_le_finish (a : Slot) : a.start ≤ a.finish :=
  Int.le_add_of_nonneg_right (Int.natCast_nonneg a.length)

theorem Before.start_le (h : a.Before b) : a.start ≤ b.start :=
  Int.le_trans a.start_le_finish h

theorem Before.trans (h : a.Before b) (h' : b.Before c) : a.Before c :=
  Int.le_trans h h'.start_le

/-- A schedule: each slot is over before the next ones start. -/
def InOrder (l : List Slot) : Prop := l.Pairwise Before

theorem InOrder.before_last (h : InOrder l) (hlast : ∀ a ∈ l.getLast?, a.Before b) :
    ∀ a ∈ l, a.Before b := by
  rcases List.eq_nil_or_concat l with rfl | ⟨front, c, rfl⟩
  · exact fun a ha => absurd ha List.not_mem_nil
  · rw [List.concat_eq_append] at h hlast ⊢
    have hc : c.Before b := hlast c List.getLast?_concat
    intro a ha
    rw [InOrder, List.pairwise_append] at h
    rcases List.mem_append.mp ha with hfront | ha
    · exact (h.2.2 a hfront c List.mem_cons_self).trans hc
    · exact List.mem_singleton.mp ha ▸ hc

theorem InOrder.after_head (h : InOrder r) (hhead : ∀ b ∈ r.head?, a.Before b) :
    ∀ b ∈ r, a.Before b := by
  cases r with
  | nil => exact fun b hb => absurd hb List.not_mem_nil
  | cons c r =>
    have hc : a.Before c := hhead c rfl
    rw [InOrder, List.pairwise_cons] at h
    rw [List.forall_mem_cons]
    exact ⟨hc, fun b hb => hc.trans (h.1 b hb)⟩

theorem InOrder.insert (h : InOrder (l ++ r)) (hl : ∀ a ∈ l.getLast?, a.Before b)
    (hr : ∀ c ∈ r.head?, b.Before c) : InOrder (l ++ b :: r) := by
  obtain ⟨hleft, hright, hcross⟩ := List.pairwise_append.mp h
  have hbefore := InOrder.before_last hleft hl
  have hafter := InOrder.after_head hright hr
  refine List.pairwise_append.mpr ⟨hleft, List.pairwise_cons.mpr ⟨hafter, hright⟩, ?_⟩
  intro a ha
  rw [List.forall_mem_cons]
  exact ⟨hbefore a ha, hcross a ha⟩

theorem InOrder.delay (h : InOrder (l ++ a :: r)) (hstart : a.start ≤ b.start)
    (hr : ∀ c ∈ r.head?, b.Before c) : InOrder (l ++ b :: r) := by
  have hcross := (List.pairwise_append.mp h).2.2
  have hrest : InOrder (l ++ r) := h.sublist ((List.sublist_cons_self a r).append_left l)
  refine hrest.insert (fun c hc => ?_) hr
  exact Int.le_trans (hcross c (List.mem_of_getLast? hc) a List.mem_cons_self) hstart

end Slot

end M2M.Lib
