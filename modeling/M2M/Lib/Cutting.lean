import Mathlib

/-! Lists of weighted items cut greedily into runs, each of at most a given weight. -/

universe u

namespace M2M.Lib.Cutting

variable {α : Type u} (w : α → Nat)

def weight (l : List α) : Nat := (l.map w).sum

@[simp] theorem weight_nil : weight w [] = 0 := rfl

@[simp] theorem weight_cons (a : α) (l : List α) : weight w (a :: l) = w a + weight w l := by
  simp [weight]

@[simp] theorem weight_append (l l' : List α) :
    weight w (l ++ l') = weight w l + weight w l' := by
  simp [weight]

variable {w} in
theorem length_le_weight (hw : ∀ a, 0 < w a) (l : List α) : l.length ≤ weight w l := by
  induction l with
  | nil => exact Nat.le_refl 0
  | cons a l ih =>
    have := hw a
    rw [List.length_cons, weight_cons]
    omega

variable {w} in
theorem eq_one_of_weight_le (hw : ∀ a, 0 < w a) {l : List α} (h : weight w l ≤ l.length) :
    ∀ a ∈ l, w a = 1 := by
  induction l with
  | nil => simp
  | cons a l ih =>
    have ha := hw a
    have hl := length_le_weight hw l
    rw [weight_cons, List.length_cons] at h
    exact List.forall_mem_cons.mpr ⟨by omega, ih (by omega)⟩

variable {w} in
theorem weight_of_eq_one {l : List α} (h : ∀ a ∈ l, w a = 1) : weight w l = l.length := by
  induction l with
  | nil => rfl
  | cons a l ih =>
    rw [List.forall_mem_cons] at h
    rw [weight_cons, h.1, ih h.2, List.length_cons, Nat.add_comm]

/-- Items from the front, as long as the next one still fits into the weight `n`. -/
def takeWithin : Nat → List α → List α
  | _, [] => []
  | n, a :: l => if w a ≤ n then a :: takeWithin (n - w a) l else []

/-- What `takeWithin` leaves. -/
def dropWithin : Nat → List α → List α
  | _, [] => []
  | n, a :: l => if w a ≤ n then dropWithin (n - w a) l else a :: l

@[simp] theorem takeWithin_append_dropWithin (n : Nat) (l : List α) :
    takeWithin w n l ++ dropWithin w n l = l := by
  induction l generalizing n with
  | nil => rfl
  | cons a l ih =>
    rw [takeWithin, dropWithin]
    split
    · rw [List.cons_append, ih]
    · rfl

theorem weight_takeWithin_le (n : Nat) (l : List α) : weight w (takeWithin w n l) ≤ n := by
  induction l generalizing n with
  | nil => exact Nat.zero_le n
  | cons a l ih =>
    rw [takeWithin]
    split
    · next h =>
      have := ih (n - w a)
      rw [weight_cons]
      omega
    · exact Nat.zero_le n

/-- Some prefix of the list weighs exactly `n`. -/
def Boundary (l : List α) (n : Nat) : Prop := ∃ p, p <+: l ∧ weight w p = n

theorem boundary_zero (l : List α) : Boundary w l 0 := ⟨[], List.nil_prefix, rfl⟩

theorem boundary_weight (l : List α) : Boundary w l (weight w l) := ⟨l, List.prefix_refl l, rfl⟩

theorem weight_takeWithin_iff {n : Nat} {l : List α} :
    weight w (takeWithin w n l) = n ↔ Boundary w l n := by
  constructor
  · intro h
    exact ⟨takeWithin w n l, ⟨dropWithin w n l, takeWithin_append_dropWithin w n l⟩, h⟩
  · rintro ⟨p, hp, rfl⟩
    induction l generalizing p with
    | nil => rw [List.prefix_nil.mp hp, takeWithin]
    | cons a l ih =>
      cases p with
      | nil => exact Nat.le_zero.mp (weight_takeWithin_le w _ _)
      | cons b p =>
        obtain ⟨rfl, hp'⟩ := List.cons_prefix_cons.mp hp
        rw [weight_cons, takeWithin, if_pos (by omega), weight_cons, Nat.add_sub_cancel_left,
          ih p hp']

theorem boundary_add_iff {n m : Nat} {l : List α} (hn : weight w (takeWithin w n l) = n) :
    Boundary w l (n + m) ↔ Boundary w (dropWithin w n l) m := by
  have hl := takeWithin_append_dropWithin w n l
  constructor
  · rintro ⟨p, hp, hm⟩
    rcases List.prefix_or_prefix_of_prefix ⟨_, hl⟩ hp with ⟨q, rfl⟩ | ⟨q, hq⟩
    · have hq : q <+: dropWithin w n l := by
        obtain ⟨t, ht⟩ := hp
        rw [List.append_assoc] at ht
        exact ⟨t, List.append_cancel_left (ht.trans hl.symm)⟩
      rw [weight_append, hn] at hm
      exact ⟨q, hq, by omega⟩
    · have := congrArg (weight w) hq
      rw [weight_append, hn] at this
      exact ⟨[], List.nil_prefix, by rw [weight_nil]; omega⟩
  · rintro ⟨p, ⟨q, hq⟩, hm⟩
    refine ⟨takeWithin w n l ++ p, ⟨q, ?_⟩, ?_⟩
    · rw [List.append_assoc, hq, hl]
    · rw [weight_append, hn, hm]

def cut : List Nat → List α → List (List α)
  | [], _ => []
  | n :: ns, l => takeWithin w n l :: cut ns (dropWithin w n l)

@[simp] theorem length_cut (ns : List Nat) (l : List α) : (cut w ns l).length = ns.length := by
  induction ns generalizing l with
  | nil => rfl
  | cons n ns ih => rw [cut, List.length_cons, ih, List.length_cons]

theorem weight_flatten_cut_le (ns : List Nat) (l : List α) :
    weight w (cut w ns l).flatten ≤ ns.sum := by
  induction ns generalizing l with
  | nil => exact Nat.le_refl 0
  | cons n ns ih =>
    rw [cut, List.flatten_cons, weight_append, List.sum_cons]
    exact Nat.add_le_add (weight_takeWithin_le w n l) (ih _)

variable {w} in
theorem weight_le_of_mem_cut {ns : List Nat} {l run : List α} (h : run ∈ cut w ns l) :
    ∃ n ∈ ns, weight w run ≤ n := by
  induction ns generalizing l with
  | nil => cases h
  | cons n ns ih =>
    rcases List.mem_cons.mp h with rfl | h
    · exact ⟨n, List.mem_cons_self .., weight_takeWithin_le w n l⟩
    · obtain ⟨m, hm, hle⟩ := ih h
      exact ⟨m, List.mem_cons_of_mem n hm, hle⟩

theorem flatten_cut_cons_iff {n : Nat} {ns : List Nat} {l : List α} :
    (cut w (n :: ns) l).flatten = l ↔ (cut w ns (dropWithin w n l)).flatten = dropWithin w n l := by
  have h := takeWithin_append_dropWithin w n l
  rw [cut, List.flatten_cons]
  constructor
  · intro hl
    exact List.append_cancel_left (hl.trans h.symm)
  · intro hd
    rw [hd, h]

/-- With limits that add up to the weight of the list, nothing is left only if all runs are
full. -/
theorem full_of_flatten_cut {ns : List Nat} {l : List α} (hsum : weight w l = ns.sum)
    (h : (cut w ns l).flatten = l) : (cut w ns l).map (weight w) = ns := by
  induction ns generalizing l with
  | nil => rfl
  | cons n ns ih =>
    have hrest := (flatten_cut_cons_iff w).mp h
    have hle := weight_takeWithin_le w n l
    have hrestle := weight_flatten_cut_le w ns (dropWithin w n l)
    have hall := congrArg (weight w) (takeWithin_append_dropWithin w n l)
    rw [hrest] at hrestle
    rw [weight_append, hsum, List.sum_cons] at hall
    rw [cut, List.map_cons, ih (by omega) hrest]
    congr 1
    omega

variable {w} in
theorem flatten_cut_iff (hw : ∀ a, 0 < w a) {ns : List Nat} {l : List α}
    (hsum : weight w l = ns.sum) :
    (cut w ns l).flatten = l ↔ ∀ i, Boundary w l (ns.take i).sum := by
  induction ns generalizing l with
  | nil =>
    have hlen := length_le_weight hw l
    have hnil : l = [] := List.length_eq_zero_iff.mp (by rw [List.sum_nil] at hsum; omega)
    rw [hnil]
    refine ⟨fun _ i => ?_, fun _ => rfl⟩
    rw [List.take_nil]
    exact boundary_zero w []
  | cons n ns ih =>
    have hall := congrArg (weight w) (takeWithin_append_dropWithin w n l)
    rw [weight_append, hsum, List.sum_cons] at hall
    constructor
    · intro h i
      have hfull := full_of_flatten_cut w hsum h
      rw [cut, List.map_cons, List.cons.injEq] at hfull
      cases i with
      | zero => exact boundary_zero w l
      | succ i =>
        rw [List.take_succ_cons, List.sum_cons, boundary_add_iff w hfull.1]
        exact (ih (by omega)).mp ((flatten_cut_cons_iff w).mp h) i
    · intro h
      have hn : weight w (takeWithin w n l) = n :=
        (weight_takeWithin_iff w).mpr (by simpa using h 1)
      refine (flatten_cut_cons_iff w).mpr ((ih (by omega)).mpr fun i => ?_)
      rw [← boundary_add_iff w hn, ← List.sum_cons, ← List.take_succ_cons]
      exact h (i + 1)

/-- A total of `count` in blocks of `b`, the last one smaller unless `b` divides it. -/
def blocks (b count : Nat) : List Nat :=
  (List.range ((count + b - 1) / b)).map fun i => min b (count - i * b)

@[simp] theorem length_blocks (b count : Nat) :
    (blocks b count).length = (count + b - 1) / b := by
  rw [blocks, List.length_map, List.length_range]

theorem blocks_eq_cons {b count : Nat} (hb : 0 < b) (hcount : 0 < count) :
    ∃ ns, blocks b count = min b count :: ns := by
  have hpos : 0 < (count + b - 1) / b := Nat.div_pos (by omega) hb
  obtain ⟨n, hn⟩ : ∃ n, (count + b - 1) / b = n + 1 := ⟨_, (Nat.succ_pred_eq_of_pos hpos).symm⟩
  rw [blocks, hn, List.range_succ_eq_map, List.map_cons, Nat.zero_mul, Nat.sub_zero]
  exact ⟨_, rfl⟩

theorem le_of_mem_blocks {b count n : Nat} (h : n ∈ blocks b count) : n ≤ b := by
  obtain ⟨i, -, rfl⟩ := List.mem_map.mp h
  exact Nat.min_le_left ..

theorem sum_take_blocks {b : Nat} (hb : 0 < b) (count i : Nat) :
    ((blocks b count).take i).sum = min (i * b) count := by
  induction i with
  | zero => simp
  | succ i ih =>
    rw [List.take_add_one, List.sum_append, ih, Nat.succ_mul]
    by_cases hi : i < (count + b - 1) / b
    · have hget : (blocks b count)[i]? = some (min b (count - i * b)) := by
        rw [blocks, List.getElem?_map, List.getElem?_range hi, Option.map_some]
      rw [hget, Option.toList_some, List.sum_singleton]
      omega
    · have hge : count ≤ i * b := by
        have := (Nat.div_lt_iff_lt_mul hb).mp (Nat.lt_succ_of_le (Nat.not_lt.mp hi))
        rw [Nat.succ_mul] at this
        omega
      rw [List.getElem?_eq_none (by rw [length_blocks]; omega), Option.toList_none, List.sum_nil]
      omega

theorem sum_blocks {b : Nat} (hb : 0 < b) (count : Nat) : (blocks b count).sum = count := by
  have hlt := (Nat.div_lt_iff_lt_mul hb).mp (Nat.lt_succ_self ((count + b - 1) / b))
  have htake := sum_take_blocks hb count (blocks b count).length
  rw [List.take_length, length_blocks] at htake
  rw [htake]
  rw [Nat.succ_mul] at hlt
  omega

end M2M.Lib.Cutting
