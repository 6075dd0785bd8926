import Mathlib.Algebra.Ring.Nat
import Mathlib.Data.List.Basic

namespace M2M.Lib.Decimal

def render (ls : List Nat) : List Char := [','].intercalate (ls.map (Nat.toDigits 10))

def fields (u : List Char) : List Nat := (u.splitOn ',').map (Nat.ofDigitChars 10 · 0)

def numbers (u : List Char) : List Nat :=
  ((u.splitOn ',').filter (· ≠ [])).map (Nat.ofDigitChars 10 · 0)

theorem isDigit_toDigits {n : Nat} {c : Char} (h : c ∈ Nat.toDigits 10 n) : c.isDigit :=
  Nat.isDigit_of_mem_toDigits (by decide) (by decide) h

theorem comma_notMem_toDigits (n : Nat) : ',' ∉ Nat.toDigits 10 n :=
  fun h => absurd (isDigit_toDigits h) (by decide)

@[simp] theorem render_singleton (a : Nat) : render [a] = Nat.toDigits 10 a := by
  simp [render]

@[simp] theorem render_cons_cons (a b : Nat) (ls : List Nat) :
    render (a :: b :: ls) = Nat.toDigits 10 a ++ ',' :: render (b :: ls) := by
  simp [render, List.intercalate_cons_cons]

theorem splitOn_render {ls : List Nat} (h : ls ≠ []) :
    (render ls).splitOn ',' = ls.map (Nat.toDigits 10) := by
  refine List.splitOn_intercalate ',' ?_ (by simpa using h)
  intro s hs
  obtain ⟨a, -, rfl⟩ := List.mem_map.mp hs
  exact comma_notMem_toDigits a

theorem fields_render {ls : List Nat} (h : ls ≠ []) : fields (render ls) = ls := by
  rw [fields, splitOn_render h, List.map_map]
  exact List.map_id'' (fun a => Nat.ofDigitChars_ten_toDigits) ls

theorem numbers_render {ls : List Nat} (h : ls ≠ []) : numbers (render ls) = ls := by
  rw [numbers, splitOn_render h, List.filter_eq_self.mpr (by simp), List.map_map]
  exact List.map_id'' (fun a => Nat.ofDigitChars_ten_toDigits) ls

theorem numbers_intercalate {segs : List (List Char)} (h : segs ≠ []) (hne : ∀ s ∈ segs, s ≠ [])
    (hd : ∀ s ∈ segs, ∀ c ∈ s, c.isDigit) :
    numbers ([','].intercalate segs) = segs.map (Nat.ofDigitChars 10 · 0) := by
  have hcomma : ∀ s ∈ segs, ',' ∉ s := fun s hs hc => absurd (hd s hs ',' hc) (by decide)
  rw [numbers, List.splitOn_intercalate ',' hcomma h, List.filter_eq_self.mpr (by simpa using hne)]

theorem fields_intercalate {segs : List (List Char)} (h : segs ≠ [])
    (hd : ∀ s ∈ segs, ∀ c ∈ s, c.isDigit) :
    fields ([','].intercalate segs) = segs.map (Nat.ofDigitChars 10 · 0) := by
  have hcomma : ∀ s ∈ segs, ',' ∉ s := fun s hs hc => absurd (hd s hs ',' hc) (by decide)
  rw [fields, List.splitOn_intercalate ',' hcomma h]

theorem isDigit_of_mem_splitOn {u : List Char} (hu : ∀ c ∈ u, c.isDigit ∨ c = ',') :
    ∀ s ∈ u.splitOn ',', ∀ c ∈ s, c.isDigit := by
  induction u with
  | nil => simp
  | cons x u ih =>
    have ih := ih (fun c hc => hu c (List.mem_cons_of_mem x hc))
    rw [List.splitOn_cons_eq_if_modifyHead]
    by_cases hx : x = ','
    · subst hx
      simpa using ih
    · have hdigit : x.isDigit := (hu x (List.mem_cons_self ..)).resolve_right hx
      rw [if_neg (by simpa using hx)]
      cases h : u.splitOn ',' with
      | nil => simp
      | cons s ss =>
        rw [h] at ih
        simp only [List.modifyHead_cons, List.mem_cons, forall_eq_or_imp] at ih ⊢
        exact ⟨⟨hdigit, ih.1⟩, ih.2⟩

theorem isDigit_or_of_mem_intercalate {segs : List (List Char)}
    (hd : ∀ s ∈ segs, ∀ c ∈ s, c.isDigit) : ∀ c ∈ [','].intercalate segs, c.isDigit ∨ c = ',' := by
  induction segs with
  | nil => simp
  | cons s segs ih =>
    have hs := hd s (List.mem_cons_self ..)
    cases segs with
    | nil => simpa using fun c hc => .inl (hs c hc)
    | cons t segs =>
      intro c hc
      simp only [List.intercalate_cons_cons, List.mem_append, List.mem_singleton] at hc
      rcases hc with (hc | hc) | hc
      · exact .inl (hs c hc)
      · exact .inr hc
      · exact ih (fun t ht => hd t (List.mem_cons_of_mem s ht)) c hc

theorem isDigit_or_of_mem_render {ls : List Nat} : ∀ c ∈ render ls, c.isDigit ∨ c = ',' := by
  refine isDigit_or_of_mem_intercalate ?_
  intro s hs
  obtain ⟨a, -, rfl⟩ := List.mem_map.mp hs
  exact fun c => isDigit_toDigits

theorem fields_of_notMem {u : List Char} (h : ',' ∉ u) :
    fields u = [Nat.ofDigitChars 10 u 0] := by
  simp [fields, List.splitOn_eq_singleton h]

theorem fields_append_cons {u : List Char} (h : ',' ∉ u) (v : List Char) :
    fields (u ++ ',' :: v) = Nat.ofDigitChars 10 u 0 :: fields v := by
  simp [fields, List.splitOn_append_cons_self_of_not_mem h]

theorem ofDigitChars_take_lt {a m : Nat} (ha : a ≠ 0) (hm : m < (Nat.toDigits 10 a).length) :
    Nat.ofDigitChars 10 ((Nat.toDigits 10 a).take m) 0 < a := by
  have hval : Nat.ofDigitChars 10 (Nat.toDigits 10 a) 0 = a := Nat.ofDigitChars_ten_toDigits
  rw [← List.take_append_drop m (Nat.toDigits 10 a), Nat.ofDigitChars_append,
    Nat.ofDigitChars_eq_ofDigitChars_zero, List.length_drop] at hval
  have hpow : 10 ^ 1 ≤ 10 ^ ((Nat.toDigits 10 a).length - m) :=
    Nat.pow_le_pow_right (by decide) (by omega)
  have hmul := Nat.mul_le_mul_right (Nat.ofDigitChars 10 ((Nat.toDigits 10 a).take m) 0) hpow
  omega

theorem sum_fields_take_lt {ls : List Nat} (hpos : ∀ a ∈ ls, a ≠ 0) {m : Nat}
    (hm : m < (render ls).length) : (fields ((render ls).take m)).sum < ls.sum := by
  induction ls generalizing m with
  | nil => simp [render] at hm
  | cons a ls ih =>
    cases ls with
    | nil =>
      rw [render_singleton] at hm ⊢
      rw [fields_of_notMem (fun h => comma_notMem_toDigits a (List.mem_of_mem_take h))]
      simpa using ofDigitChars_take_lt (hpos a (by simp)) hm
    | cons b ls =>
      rw [render_cons_cons] at hm ⊢
      rcases Nat.lt_or_ge (Nat.toDigits 10 a).length m with hlt | hle
      · obtain ⟨k, rfl⟩ : ∃ k, m = (Nat.toDigits 10 a).length + (k + 1) :=
          ⟨m - (Nat.toDigits 10 a).length - 1, by omega⟩
        rw [List.take_length_add_append, List.take_succ_cons,
          fields_append_cons (comma_notMem_toDigits a), Nat.ofDigitChars_ten_toDigits,
          List.sum_cons, List.sum_cons]
        have hk : k < (render (b :: ls)).length := by
          simp only [List.length_append, List.length_cons] at hm
          omega
        exact Nat.add_lt_add_left (ih (fun x hx => hpos x (List.mem_cons_of_mem a hx)) hk) a
      · rw [List.take_append_of_le_length hle,
          fields_of_notMem (fun h => comma_notMem_toDigits a (List.mem_of_mem_take h))]
        have hb : b ≠ 0 := hpos b (by simp)
        have hle : Nat.ofDigitChars 10 ((Nat.toDigits 10 a).take m) 0 ≤ a := by
          rcases Nat.lt_or_ge m (Nat.toDigits 10 a).length with hlt | hge
          · exact Nat.le_of_lt (ofDigitChars_take_lt (hpos a (by simp)) hlt)
          · exact Nat.le_of_eq (by rw [List.take_of_length_le hge, Nat.ofDigitChars_ten_toDigits])
        rw [List.sum_cons, List.sum_nil, List.sum_cons, List.sum_cons]
        omega

theorem fields_take_ne {ls : List Nat} (hpos : ∀ a ∈ ls, a ≠ 0) {m : Nat}
    (hm : m < (render ls).length) : fields ((render ls).take m) ≠ ls :=
  fun h => Nat.ne_of_lt (sum_fields_take_lt hpos hm) (congrArg List.sum h)

theorem length_render_pos (a : Nat) (ls : List Nat) : 0 < (render (a :: ls)).length := by
  have hpos := List.length_pos_iff.mpr (@Nat.toDigits_ne_nil a 10)
  cases ls with
  | nil =>
    rw [render_singleton]
    exact hpos
  | cons b ls =>
    rw [render_cons_cons, List.length_append]
    omega

theorem length_render_lt {ls : List Nat} {d : Nat} (hne : ls ≠ [])
    (h : ∀ a ∈ ls, (Nat.toDigits 10 a).length ≤ d) :
    (render ls).length < ls.length * (d + 1) := by
  induction ls with
  | nil => exact absurd rfl hne
  | cons a ls ih =>
    have ha := h a (by simp)
    cases ls with
    | nil =>
      rw [render_singleton, List.length_singleton]
      omega
    | cons b ls =>
      have hrest := ih (by simp) fun x hx => h x (List.mem_cons_of_mem a hx)
      rw [render_cons_cons, List.length_append, List.length_cons, List.length_cons,
        Nat.add_mul, Nat.one_mul]
      omega

end M2M.Lib.Decimal
