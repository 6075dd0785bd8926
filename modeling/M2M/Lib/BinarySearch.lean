import Mathlib.Order.Basic
import Mathlib.Order.Lattice
import Mathlib.Data.List.Basic

/-! Binary search in a strictly increasing list, between two bounds that both count. -/

universe u

namespace M2M.Lib.BinarySearch

variable {α : Type u} [LinearOrder α]

/-- How a search ends: with the element, or with the last bound below which it is missing. -/
inductive Outcome
  | found
  | absent (last : Int)
  deriving DecidableEq

def item (l : List α) (i : Int) : Option α := if 0 ≤ i then l[i.toNat]? else none

/-- Looks at the element in the `middle` of the bounds, with a limit on its rounds. -/
def search (middle : Int → Int → Int) (l : List α) (a : α) : Nat → Int → Int → Option Outcome
  | 0, _, _ => none
  | rounds + 1, first, last =>
    if first ≤ last then
      (item l (middle first last)).bind fun saved =>
        if a = saved then some .found
        else if a < saved then search middle l a rounds first (middle first last - 1)
        else search middle l a rounds (middle first last + 1) last
    else some (.absent last)

/-- The elements up to an index are less, and those behind it are greater. -/
def Splits (l : List α) (a : α) (last : Int) : Prop :=
  ∃ front behind, l = front ++ behind ∧ (front.length : Int) = last + 1 ∧
    (∀ b ∈ front, b < a) ∧ ∀ b ∈ behind, a < b

theorem Splits.not_mem {l : List α} {a : α} {last : Int} (h : Splits l a last) : a ∉ l := by
  obtain ⟨front, behind, rfl, -, hfront, hbehind⟩ := h
  intro hmem
  rcases List.mem_append.mp hmem with hmem | hmem
  · exact lt_irrefl a (hfront a hmem)
  · exact lt_irrefl a (hbehind a hmem)

omit [LinearOrder α] in
theorem item_of_lt {l : List α} {i : Int} (h : 0 ≤ i) (hlt : i < l.length) :
    ∃ h : i.toNat < l.length, item l i = some l[i.toNat] := by
  have hin : i.toNat < l.length := by omega
  exact ⟨hin, by rw [item, if_pos h, List.getElem?_eq_getElem hin]⟩

section Search

variable {middle : Int → Int → Int} {l : List α} {a : α}

theorem search_spec (hsorted : l.Pairwise (· < ·))
    (hmiddle : ∀ first last : Int, 0 ≤ first → first ≤ last → last < l.length →
      first ≤ middle first last ∧ middle first last ≤ last)
    {rounds : Nat} {first last : Int} (hrounds : last - first + 1 < rounds) (hfirst : 0 ≤ first)
    (hle : first ≤ last + 1) (hlast : last < l.length)
    (hfront : ∀ (i : Nat) (h : i < l.length), i < first → l[i] < a)
    (hbehind : ∀ (i : Nat) (h : i < l.length), last < i → a < l[i]) :
    (a ∈ l ∧ search middle l a rounds first last = some .found) ∨
      ∃ last', Splits l a last' ∧ search middle l a rounds first last = some (.absent last') := by
  induction rounds generalizing first last with
  | zero => omega
  | succ rounds ih =>
    rw [search]
    by_cases hmore : first ≤ last
    · obtain ⟨hge, hle'⟩ := hmiddle first last hfirst hmore hlast
      obtain ⟨hin, hitem⟩ := item_of_lt (l := l) (i := middle first last) (by omega) (by omega)
      rw [if_pos hmore, hitem, Option.bind_some]
      have hmono : ∀ (i j : Nat) (hj : j < l.length) (hij : i < j), l[i] < l[j] := fun i j hj hij =>
        List.pairwise_iff_getElem.mp hsorted i j (hij.trans hj) hj hij
      by_cases heq : a = l[(middle first last).toNat]
      · rw [if_pos heq]
        exact .inl ⟨heq ▸ List.getElem_mem hin, rfl⟩
      rw [if_neg heq]
      by_cases hlt : a < l[(middle first last).toNat]
      · rw [if_pos hlt]
        refine ih (by omega) hfirst (by omega) (by omega) hfront fun i hi hmid => ?_
        rcases Nat.lt_or_ge (middle first last).toNat i with hbelow | hbelow
        · exact hlt.trans (hmono _ i hi hbelow)
        · have hmid : i = (middle first last).toNat := by omega
          exact hmid ▸ hlt
      · rw [if_neg hlt]
        have hgt := lt_of_le_of_ne (not_lt.mp hlt) (Ne.symm heq)
        refine ih (by omega) (by omega) (by omega) hlast (fun i hi hmid => ?_) hbehind
        rcases Nat.lt_or_ge i (middle first last).toNat with habove | habove
        · exact (hmono i _ hin habove).trans hgt
        · have hmid : i = (middle first last).toNat := by omega
          exact hmid ▸ hgt
    · rw [if_neg hmore]
      refine .inr ⟨last, ⟨l.take first.toNat, l.drop first.toNat, ?_, ?_, ?_, ?_⟩, rfl⟩
      · exact (List.take_append_drop _ _).symm
      · rw [List.length_take]
        omega
      · intro b hb
        obtain ⟨i, hi, rfl⟩ := List.mem_take_iff_getElem.mp hb
        exact hfront i (by omega) (by omega)
      · intro b hb
        obtain ⟨i, hi, rfl⟩ := List.mem_drop_iff_getElem.mp hb
        exact hbehind (first.toNat + i) (by omega) (by omega)

theorem search_all (hsorted : l.Pairwise (· < ·))
    (hmiddle : ∀ first last : Int, 0 ≤ first → first ≤ last → last < l.length →
      first ≤ middle first last ∧ middle first last ≤ last) :
    (a ∈ l ∧ search middle l a (l.length + 1) 0 (l.length - 1) = some .found) ∨
      ∃ last, Splits l a last ∧
        search middle l a (l.length + 1) 0 (l.length - 1) = some (.absent last) := by
  refine search_spec hsorted hmiddle (by omega) (by omega) (by omega) (by omega) ?_ ?_
  · intro i hi hlt
    omega
  · intro i hi hlt
    omega

end Search

end M2M.Lib.BinarySearch
