import Mathlib.Data.List.Nodup
import Mathlib.Logic.Function.Basic

universe u v

namespace M2M.Lib

section Chain

variable {α : Type u} {next : α → Option α} {p : Option α} {l : List α}

/-- The nodes met from the pointer `p` on, up to a null link. -/
def Chain (next : α → Option α) : Option α → List α → Prop
  | p, [] => p = none
  | p, a :: l => p = some a ∧ Chain next (next a) l

theorem Chain.head?_eq (h : Chain next p l) : p = l.head? := by
  cases l with
  | nil => exact h
  | cons a l => exact h.1

theorem Chain.unique (h : Chain next p l) {l' : List α} (h' : Chain next p l') : l = l' := by
  induction l generalizing p l' with
  | nil =>
    cases l' with
    | nil => rfl
    | cons a l' => cases h.symm.trans h'.1
  | cons a l ih =>
    cases l' with
    | nil => cases h.1.symm.trans h'
    | cons b l' =>
      cases h.1.symm.trans h'.1
      rw [ih h.2 h'.2]

theorem Chain.after {front : List α} {a : α} (h : Chain next p (front ++ a :: l)) :
    Chain next (next a) l := by
  induction front generalizing p with
  | nil => exact h.2
  | cons b front ih => exact ih h.2

/-- The nodes that a walk from a pointer meets. -/
def nodes (next : α → Option α) : Nat → Option α → List α
  | 0, _ => []
  | fuel + 1, p => (p.map fun a => a :: nodes next fuel (next a)).getD []

theorem nodes_of_chain (h : Chain next p l) {fuel : Nat} (hfuel : l.length ≤ fuel) :
    nodes next fuel p = l := by
  induction l generalizing p fuel with
  | nil =>
    rw [show p = none from h]
    cases fuel <;> rfl
  | cons a l ih =>
    cases fuel with
    | zero => exact absurd hfuel (Nat.not_succ_le_zero _)
    | succ fuel =>
      rw [h.1, nodes, Option.map_some, Option.getD_some, ih h.2 (Nat.le_of_succ_le_succ hfuel)]

variable [DecidableEq α]

theorem Chain.touch (h : Chain next p l) {a : α} (ha : a ∉ l) (x : Option α) :
    Chain (Function.update next a x) p l := by
  induction l generalizing p with
  | nil => exact h
  | cons b l ih =>
    rw [List.mem_cons, not_or] at ha
    refine ⟨h.1, ?_⟩
    rw [Function.update_of_ne (Ne.symm ha.1)]
    exact ih h.2 ha.2

theorem Chain.cons (h : Chain next p l) {a : α} (ha : a ∉ l) :
    Chain (Function.update next a p) (some a) (a :: l) := by
  refine ⟨rfl, ?_⟩
  rw [Function.update_self]
  exact h.touch ha p

theorem Chain.concat {a b : α} (h : Chain next p (l ++ [b])) (hnodup : (l ++ [b]).Nodup)
    (ha : a ∉ l ++ [b]) :
    Chain (Function.update (Function.update next a none) b (some a)) p (l ++ [b, a]) := by
  induction l generalizing p with
  | nil =>
    have hab : a ≠ b := by simpa using ha
    refine ⟨h.1, ?_⟩
    rw [Function.update_self]
    refine ⟨rfl, ?_⟩
    rw [Function.update_of_ne hab, Function.update_self]
    rfl
  | cons c l ih =>
    have hcb : c ≠ b := fun heq => (List.nodup_cons.mp hnodup).1 (by simp [heq])
    have hca : c ≠ a := fun heq => ha (by simp [heq])
    refine ⟨h.1, ?_⟩
    rw [Function.update_of_ne hcb, Function.update_of_ne hca]
    exact ih h.2 (List.nodup_cons.mp hnodup).2 fun hmem => ha (List.mem_cons_of_mem c hmem)

end Chain

/-- Lists that share no node. -/
structure Chains {α : Type u} {ι : Type v} (next : α → Option α) (first : ι → Option α)
    (lists : ι → List α) : Prop where
  chain : ∀ i, Chain next (first i) (lists i)
  nodup : ∀ i, (lists i).Nodup
  apart : ∀ {i j a}, a ∈ lists i → a ∈ lists j → i = j

namespace Chains

variable {α : Type u} {ι : Type v} {next : α → Option α} {first : ι → Option α}
  {lists : ι → List α}

theorem touch [DecidableEq α] (h : Chains next first lists) {a : α} (ha : ∀ i, a ∉ lists i)
    (x : Option α) :
    Chains (Function.update next a x) first lists :=
  ⟨fun i => (h.chain i).touch (ha i) x, h.nodup, h.apart⟩

variable [DecidableEq ι]

theorem replace (h : Chains next first lists) {next' : α → Option α} {i : ι} {p : Option α}
    {l : List α} (hchain : Chain next' p l) (hnodup : l.Nodup)
    (hkept : ∀ j, j ≠ i → Chain next' (first j) (lists j))
    (hfresh : ∀ a ∈ l, a ∈ lists i ∨ ∀ j, a ∉ lists j) :
    Chains next' (Function.update first i p) (Function.update lists i l) := by
  refine ⟨fun j => ?_, fun j => ?_, fun {j k a} hj hk => ?_⟩
  · by_cases hj : j = i
    · subst hj
      simpa using hchain
    · simpa [hj] using hkept j hj
  · by_cases hj : j = i
    · subst hj
      simpa using hnodup
    · simpa [hj] using h.nodup j
  · have hother : ∀ {k}, k ≠ i → a ∈ l → a ∈ Function.update lists i l k → False := by
      intro k hki hl hk
      rw [Function.update_of_ne hki] at hk
      cases hfresh a hl with
      | inl hi => exact hki (h.apart hk hi)
      | inr hnone => exact hnone k hk
    by_cases hji : j = i
    · by_cases hki : k = i
      · rw [hji, hki]
      · rw [hji, Function.update_self] at hj
        exact (hother hki hj hk).elim
    · by_cases hki : k = i
      · rw [hki, Function.update_self] at hk
        exact (hother hji hk hj).elim
      · rw [Function.update_of_ne hji] at hj
        rw [Function.update_of_ne hki] at hk
        exact h.apart hj hk

theorem pop (h : Chains next first lists) {i : ι} {a : α} {l : List α} (hi : lists i = a :: l) :
    Chains next (Function.update first i (next a)) (Function.update lists i l) := by
  have hchain := h.chain i
  have hnodup := h.nodup i
  rw [hi] at hchain hnodup
  refine h.replace hchain.2 (List.nodup_cons.mp hnodup).2 (fun j _ => h.chain j) ?_
  intro b hb
  left
  rw [hi]
  exact List.mem_cons_of_mem a hb

theorem notMem_pop (h : Chains next first lists) {i : ι} {a : α} {l : List α}
    (hi : lists i = a :: l) (j : ι) : a ∉ Function.update lists i l j := by
  have hnodup := h.nodup i
  rw [hi] at hnodup
  by_cases hj : j = i
  · subst hj
    simpa using (List.nodup_cons.mp hnodup).1
  · rw [Function.update_of_ne hj]
    intro hmem
    exact hj (h.apart hmem (hi ▸ List.mem_cons_self))

variable [DecidableEq α]

theorem push (h : Chains next first lists) {a : α} (ha : ∀ j, a ∉ lists j) (i : ι) :
    Chains (Function.update next a (first i)) (Function.update first i (some a))
      (Function.update lists i (a :: lists i)) := by
  refine h.replace ((h.chain i).cons (ha i)) ?_ (fun j _ => (h.chain j).touch (ha j) _) ?_
  · exact List.nodup_cons.mpr ⟨ha i, h.nodup i⟩
  · intro b hb
    rw [List.mem_cons] at hb
    cases hb with
    | inl heq => exact .inr (heq ▸ ha)
    | inr hmem => exact .inl hmem

theorem concat (h : Chains next first lists) {i : ι} {l : List α} {a b : α}
    (hi : lists i = l ++ [b]) (ha : ∀ j, a ∉ lists j) :
    Chains (Function.update (Function.update next a none) b (some a)) first
      (Function.update lists i (l ++ [b, a])) := by
  have hchain := h.chain i
  have hnodup := h.nodup i
  have hnew := ha i
  rw [hi] at hchain hnodup hnew
  have hfirst : first = Function.update first i (first i) := by simp
  have hb : b ∈ lists i := by simp [hi]
  rw [hfirst]
  refine h.replace (hchain.concat hnodup hnew) ?_ ?_ ?_
  · have hsplit : l ++ [b, a] = (l ++ [b]) ++ [a] := by simp
    rw [hsplit, List.nodup_append]
    refine ⟨hnodup, by simp, ?_⟩
    intro c hc d hd
    rw [List.mem_singleton] at hd
    rintro rfl
    exact hnew (hd ▸ hc)
  · intro j hj
    have hbj : b ∉ lists j := fun hmem => hj (h.apart hmem hb)
    exact ((h.chain j).touch (ha j) none).touch hbj (some a)
  · intro c hc
    have hcases : c ∈ l ++ [b] ∨ c = a := by simpa [or_assoc] using hc
    cases hcases with
    | inl hmem => exact .inl (hi ▸ hmem)
    | inr heq => exact .inr (heq ▸ ha)

end Chains

end M2M.Lib
