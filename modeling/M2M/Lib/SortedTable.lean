import Mathlib

/-! Arrays that are kept in the order of a key: insertion by a linear scan and a shift, and the
search for the last item whose key is not above a bound. -/

universe u v

namespace M2M.Lib

structure SortedTable (α : Type u) where
  item : Nat → α
  size : Nat

namespace SortedTable

variable {α : Type u} {κ : Type v} [LinearOrder κ] (key stop : α → κ)

/-- The first of `rounds` places, from `i` on, whose key is above `k`, or the one behind them. -/
def scan (item : Nat → α) (k : κ) : Nat → Nat → Nat
  | 0, i => i
  | rounds + 1, i => if k < key (item i) then i else scan item k rounds (i + 1)

/-- The items from place `i` to the last but `j` go up by one place, the last one first. -/
def shift (i : Nat) : Nat → (Nat → α) → Nat → α
  | 0, item => item
  | j + 1, item =>
    if j + 1 > i then shift i j (Function.update item (j + 1) (item j)) else item

/-- An item goes in front of the first one with a greater key. -/
def insert (t : SortedTable α) (x : α) : SortedTable α :=
  let i := scan key t.item (key x) t.size 0
  let item := if i < t.size then shift i t.size t.item else t.item
  ⟨Function.update item i x, t.size + 1⟩

/-- The item in front of the first one, from the second on, whose key is above `k`. -/
def covering (t : SortedTable α) (k : κ) : α := t.item (scan key t.item k (t.size - 1) 1 - 1)

/-- The item with `k` between its key and its end, which is looked for in one place. -/
def find (t : SortedTable α) (k : κ) : Option α :=
  if t.size = 0 then none
  else if k < key (t.item 0) then none
  else if k ≤ stop (t.covering key k) then some (t.covering key k) else none

def toList (t : SortedTable α) : List α := (List.range t.size).map t.item

def Contains (x : α) (k : κ) : Prop := key x ≤ k ∧ k ≤ stop x

instance (x : α) (k : κ) : Decidable (Contains key stop x k) :=
  inferInstanceAs (Decidable (_ ∧ _))

/-- No key lies between the key and the end of both. -/
def Apart (x y : α) : Prop := ∀ k, Contains key stop x k → ¬Contains key stop y k

def Sorted (l : List α) : Prop := l.Pairwise fun a b => key a ≤ key b

def Unhidden (l : List α) : Prop := l.Pairwise fun a b => stop b < key b → stop a < key b

variable {key stop} {t : SortedTable α} {x : α} {k : κ}

@[simp] theorem length_toList : t.toList.length = t.size := by simp [toList]

theorem getElem_toList {i : Nat} (hi : i < t.toList.length) : t.toList[i] = t.item i := by
  simp [toList]

theorem mem_toList_iff : x ∈ t.toList ↔ ∃ i < t.size, t.item i = x := by
  simp [toList]

variable (key) in
theorem scan_spec (item : Nat → α) (k : κ) (rounds i : Nat) :
    i ≤ scan key item k rounds i ∧ scan key item k rounds i ≤ i + rounds ∧
      (∀ p, i ≤ p → p < scan key item k rounds i → key (item p) ≤ k) ∧
      (scan key item k rounds i < i + rounds → k < key (item (scan key item k rounds i))) := by
  induction rounds generalizing i with
  | zero => exact ⟨Nat.le_refl i, Nat.le_refl i, fun p hp hlt => absurd hlt (Nat.not_lt.mpr hp),
      fun hlt => absurd hlt (Nat.lt_irrefl i)⟩
  | succ rounds ih =>
    rw [scan]
    split
    · rename_i habove
      exact ⟨Nat.le_refl i, Nat.le_add_right i _, fun p hp hlt => absurd hlt (Nat.not_lt.mpr hp),
        fun _ => habove⟩
    · rename_i hbelow
      obtain ⟨hlow, hhigh, hfront, hend⟩ := ih (i + 1)
      refine ⟨by omega, by omega, fun p hp hlt => ?_, fun hlt => hend (by omega)⟩
      rcases Nat.eq_or_lt_of_le hp with rfl | hp
      · exact not_lt.mp hbelow
      · exact hfront p hp hlt

theorem shift_apply (i j : Nat) (item : Nat → α) (p : Nat) :
    shift i j item p = if i < p ∧ p ≤ j then item (p - 1) else item p := by
  induction j generalizing item with
  | zero =>
    rw [shift, if_neg (by omega)]
  | succ j ih =>
    rw [shift]
    split
    · rename_i hgt
      rw [ih]
      by_cases hlast : p = j + 1
      · subst hlast
        rw [if_neg (by omega), if_pos (by omega), Function.update_self, Nat.add_sub_cancel]
      · rw [Function.update_of_ne hlast]
        by_cases hin : i < p ∧ p ≤ j
        · rw [if_pos hin, if_pos (by omega), Function.update_of_ne (by omega)]
        · rw [if_neg hin, if_neg (by omega)]
    · rw [if_neg (by omega)]

theorem toList_insert (t : SortedTable α) (x : α) :
    (t.insert key x).toList = t.toList.take (scan key t.item (key x) t.size 0) ++
      x :: t.toList.drop (scan key t.item (key x) t.size 0) := by
  obtain ⟨-, hle, -⟩ := scan_spec key t.item (key x) t.size 0
  simp only [insert]
  generalize scan key t.item (key x) t.size 0 = i at hle ⊢
  have hitem : ∀ n, (if i < t.size then shift i t.size t.item else t.item) n =
      if i < n ∧ n ≤ t.size then t.item (n - 1) else t.item n := by
    intro n
    split
    · exact shift_apply _ _ _ _
    · rw [if_neg (by omega)]
  have htake : (t.toList.take i).length = i := by
    rw [List.length_take, length_toList]
    omega
  refine List.ext_getElem ?_ fun n hn hn' => ?_
  · rw [length_toList, List.length_append, List.length_cons, List.length_drop, htake,
      length_toList]
    dsimp only
    omega
  · rw [length_toList] at hn
    rw [getElem_toList]
    dsimp only at hn ⊢
    rcases Nat.lt_trichotomy n i with hlt | rfl | hgt
    · rw [Function.update_of_ne (by omega), hitem, if_neg (by omega),
        List.getElem_append_left (by omega), List.getElem_take, getElem_toList]
    · rw [Function.update_self, List.getElem_append_right (by omega)]
      simp [htake]
    · rw [Function.update_of_ne (by omega), hitem, if_pos (by omega),
        List.getElem_append_right (by omega)]
      obtain ⟨m, rfl⟩ : ∃ m, n = i + (m + 1) := ⟨n - i - 1, by omega⟩
      have hindex : i + (m + 1) - (t.toList.take i).length = m + 1 := by omega
      simp only [hindex, List.getElem_cons_succ, List.getElem_drop, getElem_toList]
      rfl

theorem perm_insert (t : SortedTable α) (x : α) :
    (t.insert key x).toList.Perm (x :: t.toList) := by
  rw [toList_insert]
  refine List.perm_middle.trans ?_
  rw [List.take_append_drop]

theorem sorted_insert (h : Sorted key t.toList) (x : α) : Sorted key (t.insert key x).toList := by
  obtain ⟨-, -, hfront, hend⟩ := scan_spec key t.item (key x) t.size 0
  rw [toList_insert]
  generalize scan key t.item (key x) t.size 0 = i at hfront hend ⊢
  have hbelow : ∀ y ∈ t.toList.take i, key y ≤ key x := by
    intro y hy
    obtain ⟨n, hn, rfl⟩ := List.mem_take_iff_getElem.mp hy
    rw [getElem_toList]
    exact hfront n (Nat.zero_le n) (by omega)
  have habove : ∀ y ∈ t.toList.drop i, key x ≤ key y := by
    intro y hy
    obtain ⟨n, hn, rfl⟩ := List.mem_drop_iff_getElem.mp hy
    have hlt : i < t.size := by
      rw [length_toList] at hn
      omega
    have hfirst : key x < key (t.item i) := hend (by omega)
    rw [getElem_toList]
    refine le_of_lt (lt_of_lt_of_le hfirst ?_)
    rcases Nat.eq_zero_or_pos n with rfl | hpos
    · exact le_of_eq rfl
    · have hord := List.pairwise_iff_getElem.mp h i (n + i) (by simpa using hlt) hn (by omega)
      rwa [getElem_toList, getElem_toList, Nat.add_comm] at hord
  have hparts : Sorted key (t.toList.take i ++ t.toList.drop i) := by
    rwa [List.take_append_drop]
  obtain ⟨htake, hdrop, hcross⟩ := List.pairwise_append.mp hparts
  refine List.pairwise_append.mpr ⟨htake, List.pairwise_cons.mpr ⟨habove, hdrop⟩, ?_⟩
  intro y hy z hz
  rcases List.mem_cons.mp hz with rfl | hz
  · exact hbelow y hy
  · exact hcross y hy z hz

theorem item_le (h : Sorted key t.toList) {i j : Nat} (hij : i ≤ j) (hj : j < t.size) :
    key (t.item i) ≤ key (t.item j) := by
  rcases Nat.eq_or_lt_of_le hij with rfl | hlt
  · exact le_refl _
  · have hord := List.pairwise_iff_getElem.mp h i j (by rw [length_toList]; omega)
      (by rwa [length_toList]) hlt
    rwa [getElem_toList, getElem_toList] at hord

theorem covering_spec (hpos : 0 < t.size) (hfirst : key (t.item 0) ≤ k) :
    ∃ j < t.size, t.covering key k = t.item j ∧ key (t.item j) ≤ k ∧
      (j + 1 < t.size → k < key (t.item (j + 1))) := by
  obtain ⟨hlow, hhigh, hfront, hend⟩ := scan_spec key t.item k (t.size - 1) 1
  refine ⟨scan key t.item k (t.size - 1) 1 - 1, by omega, rfl, ?_, fun hlt => ?_⟩
  · rcases Nat.eq_or_lt_of_le hlow with heq | hlt
    · rw [← heq]
      exact hfirst
    · exact hfront _ (by omega) (by omega)
  · have habove := hend (by omega)
    rwa [← Nat.sub_add_cancel hlow] at habove

theorem find_eq_some_iff : t.find key stop k = some x ↔
    0 < t.size ∧ key (t.item 0) ≤ k ∧ t.covering key k = x ∧ k ≤ stop x := by
  rw [find]
  split
  · simp [*]
  · split
    · rename_i hfirst
      exact iff_of_false nofun fun h => not_le.mpr hfirst h.2.1
    · rename_i hsize hfirst
      have hpos : 0 < t.size := Nat.pos_of_ne_zero hsize
      split
      · rename_i hin
        rw [Option.some.injEq]
        constructor
        · rintro rfl
          exact ⟨hpos, not_lt.mp hfirst, rfl, hin⟩
        · exact fun h => h.2.2.1
      · rename_i hout
        refine iff_of_false nofun ?_
        rintro ⟨-, -, rfl, hin⟩
        exact hout hin

theorem eq_of_contains (hapart : t.toList.Pairwise (Apart key stop)) {i j : Nat} (hi : i < t.size)
    (hj : j < t.size) (hik : Contains key stop (t.item i) k)
    (hjk : Contains key stop (t.item j) k) : i = j := by
  have hnot : ∀ {m n}, m < n → n < t.size → Contains key stop (t.item m) k →
      ¬Contains key stop (t.item n) k := by
    intro m n hmn hn hm
    have hpair := List.pairwise_iff_getElem.mp hapart m n (by rw [length_toList]; omega)
      (by rwa [length_toList]) hmn
    rw [getElem_toList, getElem_toList] at hpair
    exact hpair k hm
  rcases Nat.lt_trichotomy i j with hlt | heq | hgt
  · exact absurd hjk (hnot hlt hj hik)
  · exact heq
  · exact absurd hik (hnot hgt hi hjk)

theorem covering_eq (hsorted : Sorted key t.toList)
    (hapart : t.toList.Pairwise (Apart key stop)) (hunhidden : Unhidden key stop t.toList) {i : Nat}
    (hi : i < t.size) (hik : Contains key stop (t.item i) k) : t.covering key k = t.item i := by
  have hfirst : key (t.item 0) ≤ k := le_trans (item_le hsorted (Nat.zero_le i) hi) hik.1
  obtain ⟨j, hj, hcover, hjk, hnext⟩ := covering_spec (Nat.zero_lt_of_lt hi) hfirst
  have hij : i ≤ j := by
    by_contra hlt
    have hle := item_le hsorted (show j + 1 ≤ i by omega) hi
    exact not_lt.mpr (le_trans hle hik.1) (hnext (by omega))
  rw [hcover]
  rcases Nat.eq_or_lt_of_le hij with rfl | hlt
  · rfl
  · by_cases hempty : stop (t.item j) < key (t.item j)
    · have hpair := List.pairwise_iff_getElem.mp hunhidden i j (by rw [length_toList]; omega)
        (by rwa [length_toList]) hlt
      rw [getElem_toList, getElem_toList] at hpair
      exact absurd (le_trans hjk hik.2) (not_le.mpr (hpair hempty))
    · -- both would contain the key of the one behind
      have hsame := eq_of_contains hapart hi hj (k := key (t.item j))
        ⟨item_le hsorted hij hj, le_trans hjk hik.2⟩ ⟨le_refl _, not_lt.mp hempty⟩
      rw [hsame]

/-- In a sorted table of items apart from each other, none of them hidden behind another one, the
one that contains `k` is found. -/
theorem find_right (hsorted : Sorted key t.toList)
    (hapart : t.toList.Pairwise (Apart key stop)) (hunhidden : Unhidden key stop t.toList) (k : κ)
    (x : α) : t.find key stop k = some x ↔ x ∈ t.toList ∧ Contains key stop x k := by
  rw [mem_toList_iff]
  constructor
  · intro hfind
    obtain ⟨hpos, hfirst, rfl, hin⟩ := find_eq_some_iff.mp hfind
    obtain ⟨j, hj, hcover, hjk, -⟩ := covering_spec hpos hfirst
    exact ⟨⟨j, hj, hcover.symm⟩, by rwa [hcover], hin⟩
  · rintro ⟨⟨i, hi, rfl⟩, hik⟩
    refine find_eq_some_iff.mpr ⟨Nat.zero_lt_of_lt hi, ?_,
      covering_eq hsorted hapart hunhidden hi hik, hik.2⟩
    exact le_trans (item_le hsorted (Nat.zero_le i) hi) hik.1

theorem unhidden_of_find (hsorted : Sorted key t.toList)
    (hapart : t.toList.Pairwise (Apart key stop))
    (h : ∀ y ∈ t.toList, ∀ x ∈ t.toList, Contains key stop x (key y) →
      t.find key stop (key y) = some x) : Unhidden key stop t.toList := by
  refine List.pairwise_iff_getElem.mpr fun i j hi hj hij hempty => ?_
  rw [length_toList] at hi hj
  rw [getElem_toList] at hempty ⊢
  rw [getElem_toList]
  by_contra hreach
  have hik : Contains key stop (t.item i) (key (t.item j)) :=
    ⟨item_le hsorted (Nat.le_of_lt hij) hj, not_lt.mp hreach⟩
  have hfind := h _ (mem_toList_iff.mpr ⟨j, hj, rfl⟩) _ (mem_toList_iff.mpr ⟨i, hi, rfl⟩) hik
  obtain ⟨hpos, hfirst, hcover, -⟩ := find_eq_some_iff.mp hfind
  -- the item looked at does not stand in front of the empty one
  obtain ⟨n, hn, hlast, -, hnext⟩ := covering_spec hpos hfirst
  have hjn : j ≤ n := by
    by_contra hlt
    have hle := item_le hsorted (show n + 1 ≤ j by omega) hj
    exact not_lt.mpr hle (hnext (by omega))
  have hsame := eq_of_contains hapart hi hn hik (by rwa [← hlast, hcover])
  omega

end SortedTable

end M2M.Lib
