import M2M.Lib.BinarySearch
import Mathlib

/-! The arrays of guest addresses: `memcheck_common.h`. -/

namespace M2M.Memcheck.AddrArray

open M2M.Lib M2M.Lib.BinarySearch

instance uint32LinearOrder : LinearOrder UInt32 where
  le_refl := UInt32.le_refl
  le_trans _ _ _ := UInt32.le_trans
  le_antisymm _ _ := UInt32.le_antisymm
  le_total := UInt32.le_total
  lt_iff_le_not_ge a b := by
    rw [UInt32.lt_iff_toNat_lt, UInt32.le_iff_toNat_le, UInt32.le_iff_toNat_le]
    omega
  toDecidableLE := inferInstance

/-- The value of an `int`. -/
def int (x : Int) : Int := x.bmod (2 ^ 32)

/-- `(m_min + m_max) >> 1`. -/
def middle (mMin mMax : Int) : Int := int (mMin + mMax) / 2

/-- May be odd for THUMB mode. -/
def cleared (addr : UInt32) : UInt32 := addr &&& ~~~1

/-- The number of elements, which is an `int`. -/
def num (arr : List UInt32) : Int := int arr.length

/-- The loop that both functions have. -/
def find (arr : List UInt32) (addr : UInt32) : Option Outcome :=
  search middle arr addr (arr.length + 1) 0 (int (num arr - 1))

/-- There is no result if the code reads outside the array. -/
def addrarrayCheck (arr : List UInt32) (addr : UInt32) : Option Int :=
  if num arr ≠ 0 then
    (find arr (cleared addr)).map fun
      | .found => 1
      | .absent _ => 0
  else some 0

/-- The new array, with the address behind the elements up to `mMax`. -/
def expand (arr : List UInt32) (addr : UInt32) (mMax : Int) : Option (List UInt32) :=
  let mMax := if mMax < 0 then 0 else mMax
  (item arr mMax).map fun saved =>
    if addr > saved then
      arr.take mMax.toNat ++ [saved] ++ [addr] ++ arr.drop (mMax.toNat + 1)
    else arr.take mMax.toNat ++ [addr] ++ arr.drop mMax.toNat

def addrarrayAdd (arr : List UInt32) (addr : UInt32) : Option (Int × List UInt32) :=
  let addr := cleared addr
  if num arr = 0 then some (1, [addr])
  else
    (find arr addr).bind fun
      | .found => some (-1, arr)
      | .absent mMax => (expand arr addr mMax).map fun arr => (1, arr)

def addAll : List UInt32 → List UInt32 → Option (List Int × List UInt32)
  | arr, [] => some ([], arr)
  | arr, addr :: adds =>
    (addrarrayAdd arr addr).bind fun added =>
      (addAll added.2 adds).map fun rest => (added.1 :: rest.1, rest.2)

/-- What the calls return, by the addresses that have been added before. -/
def answers : List UInt32 → List UInt32 → List Int
  | _, [] => []
  | seen, addr :: adds =>
    (if cleared addr ∈ seen then -1 else 1) :: answers (cleared addr :: seen) adds

/-- The array is the sorted set of the addresses added to it. -/
structure SortedSet (arr added : List UInt32) : Prop where
  sorted : arr.Pairwise (· < ·)
  mem_iff : ∀ addr, addr ∈ arr ↔ addr ∈ added

/-- Every call returns what it should, and so does a check of any address. -/
def Kept (adds : List UInt32) : Prop :=
  ∃ arr, addAll [] adds = some (answers [] adds, arr) ∧ SortedSet arr (adds.map cleared) ∧
    ∀ addr, addrarrayCheck arr addr = some (if cleared addr ∈ adds.map cleared then 1 else 0)

section Laws

variable {arr added : List UInt32}

theorem int_eq {x : Int} (hge : -2147483648 ≤ x) (hlt : x < 2147483648) : int x = x := by
  apply Int.bmod_eq_of_le
  · omega
  · omega

theorem num_eq (h : arr.length ≤ 1073741824) : num arr = arr.length :=
  int_eq (by omega) (by omega)

theorem middle_between (h : arr.length ≤ 1073741824) :
    ∀ first last : Int, 0 ≤ first → first ≤ last → last < arr.length →
      first ≤ middle first last ∧ middle first last ≤ last := by
  intro first last hfirst hle hlast
  rw [middle, int_eq (by omega) (by omega)]
  omega

theorem find_spec (h : SortedSet arr added) (hlength : arr.length ≤ 1073741824) (addr : UInt32) :
    (addr ∈ arr ∧ find arr addr = some .found) ∨
      ∃ mMax, Splits arr addr mMax ∧ find arr addr = some (.absent mMax) := by
  have hlast : int (num arr - 1) = arr.length - 1 := by
    rw [num_eq hlength]
    exact int_eq (by omega) (by omega)
  rw [find, hlast]
  exact search_all h.sorted (middle_between hlength)

theorem expand_eq {addr : UInt32} {mMax : Int} {front behind : List UInt32}
    (hne : front ++ behind ≠ []) (hlength : (front.length : Int) = mMax + 1)
    (hfront : ∀ b ∈ front, b < addr) (hbehind : ∀ b ∈ behind, addr < b) :
    expand (front ++ behind) addr mMax = some (front ++ addr :: behind) := by
  rw [expand]
  rcases List.eq_nil_or_concat front with rfl | ⟨before, b, rfl⟩
  · -- the new address comes first
    rw [List.length_nil] at hlength
    rw [if_pos (by omega)]
    cases behind with
    | nil => exact absurd rfl hne
    | cons b behind =>
      have hlt : ¬addr > b := not_lt.mpr (hbehind b List.mem_cons_self).le
      change some (if addr > b then _ else _) = _
      rw [if_neg hlt]
      rfl
  · simp only [List.concat_eq_append] at hlength hfront ⊢
    rw [List.length_append, List.length_singleton] at hlength
    have hmax : mMax.toNat = before.length := by omega
    have hgt : addr > b := hfront b (List.mem_append_right _ List.mem_cons_self)
    have hitem : item (before ++ [b] ++ behind) mMax = some b := by
      rw [item, if_pos (by omega), hmax, List.append_assoc,
        List.getElem?_append_right (Nat.le_refl _), Nat.sub_self]
      rfl
    have htake : (before ++ [b] ++ behind).take before.length = before := by
      rw [List.append_assoc]
      exact List.take_left
    have hdrop : (before ++ [b] ++ behind).drop (before.length + 1) = behind :=
      List.drop_left' (by simp)
    rw [if_neg (by omega), hitem, hmax, Option.map_some, if_pos hgt, htake, hdrop]
    simp

theorem SortedSet.insert (h : SortedSet arr added) {addr : UInt32} {mMax : Int}
    (hsplits : Splits arr addr mMax) (hne : arr ≠ []) :
    ∃ arr', expand arr addr mMax = some arr' ∧ SortedSet arr' (addr :: added) := by
  obtain ⟨front, behind, rfl, hlength, hfront, hbehind⟩ := hsplits
  refine ⟨_, expand_eq hne hlength hfront hbehind, ?_, fun b => ?_⟩
  · obtain ⟨hsorted, hsorted', hlt⟩ := List.pairwise_append.mp h.sorted
    refine List.pairwise_append.mpr ⟨hsorted, List.pairwise_cons.mpr ⟨hbehind, hsorted'⟩, ?_⟩
    intro a ha b hb
    rcases List.mem_cons.mp hb with rfl | hb
    · exact hfront a ha
    · exact hlt a ha b hb
  · rw [List.mem_cons, ← h.mem_iff, List.mem_append, List.mem_append, List.mem_cons]
    exact or_left_comm

theorem sortedSet_singleton (addr : UInt32) : SortedSet [addr] [addr] :=
  ⟨List.pairwise_singleton _ _, fun _ => Iff.rfl⟩

theorem addrarrayAdd_spec (h : SortedSet arr added) (hlength : arr.length ≤ 1073741824)
    (addr : UInt32) :
    ∃ arr', addrarrayAdd arr addr = some (if cleared addr ∈ added then -1 else 1, arr') ∧
      SortedSet arr' (cleared addr :: added) := by
  have hmem := h.mem_iff (cleared addr)
  rw [addrarrayAdd, num_eq hlength]
  by_cases hne : arr = []
  · subst hne
    have hadded : added = [] := List.eq_nil_iff_forall_not_mem.mpr fun b hb =>
      List.not_mem_nil ((h.mem_iff b).mpr hb)
    subst hadded
    exact ⟨[cleared addr], rfl, sortedSet_singleton _⟩
  · have hnum : ¬(arr.length : Int) = 0 := by
      rwa [Int.natCast_eq_zero, List.length_eq_zero_iff]
    rw [if_neg hnum]
    rcases find_spec h hlength (cleared addr) with ⟨hin, hfind⟩ | ⟨mMax, hsplits, hfind⟩
    · refine ⟨arr, ?_, h.sorted, fun b => ?_⟩
      · rw [hfind, if_pos (hmem.mp hin)]
        rfl
      · rw [h.mem_iff, List.mem_cons]
        exact ⟨Or.inr, fun hb => hb.elim (fun hb => hb ▸ hmem.mp hin) id⟩
    · obtain ⟨arr', hexpand, hsorted⟩ := h.insert hsplits hne
      refine ⟨arr', ?_, hsorted⟩
      rw [hfind, Option.bind_some]
      dsimp only
      rw [hexpand, if_neg fun hin => hsplits.not_mem (hmem.mpr hin)]
      rfl

theorem addrarrayCheck_spec (h : SortedSet arr added) (hlength : arr.length ≤ 1073741824)
    (addr : UInt32) :
    addrarrayCheck arr addr = some (if cleared addr ∈ added then 1 else 0) := by
  have hmem := h.mem_iff (cleared addr)
  rw [addrarrayCheck, num_eq hlength]
  split
  · rcases find_spec h hlength (cleared addr) with ⟨hin, hfind⟩ | ⟨mMax, hsplits, hfind⟩
    · rw [hfind, if_pos (hmem.mp hin)]
      rfl
    · rw [hfind, if_neg fun hin => hsplits.not_mem (hmem.mpr hin)]
      rfl
  · next hnum =>
    have hnil : arr = [] := by
      rwa [ne_eq, not_not, Int.natCast_eq_zero, List.length_eq_zero_iff] at hnum
    have hout : cleared addr ∉ added := fun hin => List.not_mem_nil (hnil ▸ hmem.mpr hin)
    rw [if_neg hout]

theorem SortedSet.length_eq (h : SortedSet arr added) : arr.length = added.toFinset.card := by
  have hnodup : arr.Nodup := h.sorted.imp fun hlt => hlt.ne
  rw [← List.toFinset_card_of_nodup hnodup]
  congr 1
  ext addr
  rw [List.mem_toFinset, List.mem_toFinset, h.mem_iff]

end Laws

section Runs

variable {arr added : List UInt32}

theorem SortedSet.congr {added' : List UInt32} (h : SortedSet arr added)
    (hmem : ∀ addr, addr ∈ added ↔ addr ∈ added') : SortedSet arr added' :=
  ⟨h.sorted, fun addr => (h.mem_iff addr).trans (hmem addr)⟩

theorem addAll_spec (h : SortedSet arr added) {adds : List UInt32}
    (hcard : (adds.map cleared ++ added).toFinset.card ≤ 1073741824) :
    ∃ arr', addAll arr adds = some (answers added adds, arr') ∧
      SortedSet arr' (adds.map cleared ++ added) := by
  induction adds generalizing arr added with
  | nil => exact ⟨arr, rfl, h⟩
  | cons addr adds ih =>
    have hmem : ∀ b, b ∈ adds.map cleared ++ cleared addr :: added ↔
        b ∈ (addr :: adds).map cleared ++ added := fun b => by
      rw [List.mem_append, List.mem_append, List.mem_cons, List.map_cons, List.mem_cons, or_assoc]
      exact or_left_comm
    have hfinset : (adds.map cleared ++ cleared addr :: added).toFinset =
        ((addr :: adds).map cleared ++ added).toFinset := by
      ext b
      rw [List.mem_toFinset, List.mem_toFinset, hmem]
    have hlength : arr.length ≤ 1073741824 := by
      refine h.length_eq.le.trans ((Finset.card_le_card fun b hb => ?_).trans hcard)
      exact List.mem_toFinset.mpr (List.mem_append_right _ (List.mem_toFinset.mp hb))
    obtain ⟨arr', hadd, hsorted⟩ := addrarrayAdd_spec h hlength addr
    obtain ⟨arr'', hrest, hsorted'⟩ := ih hsorted (hfinset ▸ hcard)
    refine ⟨arr'', ?_, hsorted'.congr hmem⟩
    rw [addAll, hadd, Option.bind_some, hrest]
    rfl

theorem int_of_ge {x : Int} (hge : 2147483648 ≤ x) (hlt : x < 4294967296) :
    int x = x - 4294967296 := by
  rw [int, Int.bmod_def]
  split
  · omega
  · omega

/-- A search for the last one of more than 2 ^ 30 addresses reads outside the array before it
comes to it. -/
theorem search_last (hsorted : arr.Pairwise (· < ·)) (hgt : 1073741824 < arr.length)
    (hle : arr.length ≤ 2147483648) (rounds : Nat) {first : Int} (hfirst : 0 ≤ first)
    (hlast : first ≤ arr.length - 1) :
    search middle arr (arr[arr.length - 1]) rounds first (arr.length - 1) = none := by
  induction rounds generalizing first with
  | zero => rfl
  | succ rounds ih =>
    rw [search, if_pos hlast]
    by_cases hsum : first + (arr.length - 1) < 2147483648
    · have hmiddle : middle first (arr.length - 1) = (first + (arr.length - 1)) / 2 := by
        rw [middle, int_eq (by omega) hsum]
      obtain ⟨hin, hitem⟩ := item_of_lt (l := arr) (i := middle first (arr.length - 1)) (by omega)
        (by omega)
      have hlt : arr[(middle first (arr.length - 1)).toNat] < arr[arr.length - 1] :=
        List.pairwise_iff_getElem.mp hsorted _ _ hin (by omega) (by omega)
      rw [hitem, Option.bind_some, if_neg hlt.ne', if_neg hlt.not_gt]
      exact ih (by omega) (by omega)
    · have hmiddle : ¬0 ≤ middle first (arr.length - 1) := by
        rw [middle, int_of_ge (by omega) (by omega)]
        omega
      rw [item, if_neg hmiddle]
      rfl

theorem cleared_even (addr : UInt32) : (cleared addr).toNat % 2 = 0 := by
  have hand : cleared addr &&& 1 = 0 := by
    rw [cleared, UInt32.and_assoc]
    exact UInt32.and_zero
  have hnat := congrArg UInt32.toNat hand
  rwa [UInt32.toNat_and, UInt32.toNat_one, Nat.and_one_is_mod] at hnat

theorem cleared_of_even {addr : UInt32} (h : addr.toNat % 2 = 0) : cleared addr = addr := by
  have hmask : (~~~1 : UInt32).toNat = (2 ^ 31 - 1) <<< 1 := by decide
  have hshift : addr.toNat = (addr.toNat / 2) <<< 1 := by
    rw [Nat.shiftLeft_eq]
    omega
  have hlt := addr.toNat_lt
  have hhalf : (addr.toNat / 2) % 2 ^ 31 = addr.toNat / 2 := by omega
  rw [← UInt32.toNat_inj, cleared, UInt32.toNat_and, hmask, hshift, ← Nat.shiftLeft_and_distrib,
    Nat.and_two_pow_sub_one_eq_mod, hhalf]

theorem card_cleared_le (adds : List UInt32) :
    (adds.map cleared).toFinset.card ≤ 2147483648 := by
  rw [← Finset.card_range 2147483648]
  refine Finset.card_le_card_of_injOn (fun addr => addr.toNat / 2) (fun addr _ => ?_) ?_
  · have hlt := addr.toNat_lt
    have hhalf : addr.toNat / 2 < 2147483648 := by omega
    exact Finset.mem_coe.mpr (Finset.mem_range.mpr hhalf)
  · intro addr haddr addr' haddr' heq
    obtain ⟨b, -, rfl⟩ := List.mem_map.mp (List.mem_toFinset.mp haddr)
    obtain ⟨b', -, rfl⟩ := List.mem_map.mp (List.mem_toFinset.mp haddr')
    have heven := cleared_even b
    have heven' := cleared_even b'
    dsimp only at heq
    exact UInt32.toNat_inj.mp (by omega)

theorem Kept.card_le {adds : List UInt32} (h : Kept adds) :
    (adds.map cleared).toFinset.card ≤ 1073741824 := by
  obtain ⟨arr, -, hsorted, hcheck⟩ := h
  have hle := card_cleared_le adds
  rw [← hsorted.length_eq] at hle ⊢
  by_contra hgt
  have hin : arr.length - 1 < arr.length := by omega
  have hmem := (hsorted.mem_iff arr[arr.length - 1]).mp (List.getElem_mem hin)
  obtain ⟨b, hb, hcleared⟩ := List.mem_map.mp hmem
  have hself : cleared arr[arr.length - 1] = arr[arr.length - 1] :=
    cleared_of_even (hcleared ▸ cleared_even b)
  have hfound := hcheck arr[arr.length - 1]
  have hnum : num arr ≠ 0 ∧ int (num arr - 1) = arr.length - 1 := by
    by_cases hlt : arr.length < 2147483648
    · rw [num, int_eq (by omega) (by omega), int_eq (by omega) (by omega)]
      omega
    · have heq : (arr.length : Int) = 2147483648 := by omega
      rw [num, heq]
      decide
  rw [hself, if_pos hmem, addrarrayCheck, if_pos hnum.1, hself, find, hnum.2,
    search_last hsorted.sorted (by omega) hle _ (by omega) (by omega)] at hfound
  cases hfound

/-- The array is a sorted set exactly as long as there are at most 2 ^ 30 addresses. -/
theorem kept_iff_card (adds : List UInt32) :
    Kept adds ↔ (adds.map cleared).toFinset.card ≤ 1073741824 := by
  refine ⟨Kept.card_le, fun hcard => ?_⟩
  have hempty : SortedSet [] [] := ⟨.nil, fun _ => Iff.rfl⟩
  have hfew : (adds.map cleared ++ []).toFinset.card ≤ 1073741824 := by rwa [List.append_nil]
  obtain ⟨arr, hadd, hsorted⟩ := addAll_spec hempty hfew
  rw [List.append_nil] at hsorted
  exact ⟨arr, hadd, hsorted, addrarrayCheck_spec hsorted (hsorted.length_eq ▸ hcard)⟩

/-- The first 2 ^ 30 + 1 even addresses. -/
def evenAddrs : List UInt32 := (List.range 1073741825).map fun i => .ofNat (2 * i)

theorem not_kept_evenAddrs : ¬Kept evenAddrs := by
  intro h
  have hcard := h.card_le
  have htoNat : ∀ i < 1073741825, (UInt32.ofNat (2 * i)).toNat = 2 * i := fun i hi => by
    rw [UInt32.toNat_ofNat', Nat.mod_eq_of_lt (by omega)]
  have hself : evenAddrs.map cleared = evenAddrs := by
    rw [evenAddrs, List.map_map]
    refine List.map_congr_left fun i hi => cleared_of_even ?_
    rw [htoNat i (List.mem_range.mp hi)]
    omega
  have hnodup : evenAddrs.Nodup := by
    refine List.Nodup.map_on (fun i hi j hj heq => ?_) List.nodup_range
    have heq := congrArg UInt32.toNat heq
    rw [htoNat i (List.mem_range.mp hi), htoNat j (List.mem_range.mp hj)] at heq
    omega
  rw [hself, List.toFinset_card_of_nodup hnodup, evenAddrs, List.length_map,
    List.length_range] at hcard
  omega

end Runs

end M2M.Memcheck.AddrArray
