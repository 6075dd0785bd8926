import Mathlib.Data.List.Nodup
import Mathlib.Logic.Function.Basic

/-! Circular lists that go through a head and are searched from any node. -/

universe u v

namespace M2M.Lib

section Seg

variable {α : Type u} {next : α → Option α} {p q r : Option α} {l m : List α} {a b : α}

/-- The nodes met from the pointer `p` on, before the pointer `q` is. -/
def Seg (next : α → Option α) : Option α → List α → Option α → Prop
  | p, [], q => p = q
  | p, a :: l, q => p = some a ∧ Seg next (next a) l q

theorem seg_append_iff : Seg next p (l ++ m) q ↔ ∃ r, Seg next p l r ∧ Seg next r m q := by
  induction l generalizing p with
  | nil => simp [Seg]
  | cons a l ih => simp [Seg, ih, and_assoc]

theorem seg_cons_iff : Seg next p (l ++ a :: m) q ↔
    Seg next p l (some a) ∧ Seg next (next a) m q := by
  rw [seg_append_iff]
  constructor
  · rintro ⟨r, hl, rfl, hm⟩
    exact ⟨hl, hm⟩
  · rintro ⟨hl, hm⟩
    exact ⟨_, hl, rfl, hm⟩

/-- The node whose link is the first to point to a node that is looked for. -/
def before (next : α → Option α) (is : α → Bool) : Nat → α → Option α
  | 0, _ => none
  | fuel + 1, b => (next b).bind fun c => if is c then some b else before next is fuel c

theorem before_of_seg {is : α → Bool} {fuel : Nat} (h : Seg next (next b) l (some a))
    (hl : ∀ c ∈ l, is c = false) (ha : is a = true) (hfuel : l.length < fuel) :
    before next is fuel b = some ((b :: l).getLast (List.cons_ne_nil b l)) := by
  induction l generalizing b fuel with
  | nil =>
    cases fuel with
    | zero => exact absurd hfuel (Nat.not_lt_zero _)
    | succ fuel =>
      rw [before, show next b = some a from h, Option.bind_some, if_pos ha]
      rfl
  | cons c l ih =>
    cases fuel with
    | zero => exact absurd hfuel (Nat.not_lt_zero _)
    | succ fuel =>
      rw [List.forall_mem_cons] at hl
      rw [before, h.1, Option.bind_some, hl.1, if_neg Bool.false_ne_true,
        ih h.2 hl.2 (Nat.lt_of_succ_lt_succ hfuel)]
      rfl

theorem Seg.congr {next' : α → Option α} (h : Seg next p l q) (heq : ∀ a ∈ l, next' a = next a) :
    Seg next' p l q := by
  induction l generalizing p with
  | nil => exact h
  | cons b l ih =>
    rw [List.forall_mem_cons] at heq
    refine ⟨h.1, ?_⟩
    rw [heq.1]
    exact ih h.2 heq.2

variable [DecidableEq α]

theorem Seg.touch (h : Seg next p l q) (ha : a ∉ l) (x : Option α) :
    Seg (Function.update next a x) p l q := by
  induction l generalizing p with
  | nil => exact h
  | cons b l ih =>
    rw [List.mem_cons, not_or] at ha
    refine ⟨h.1, ?_⟩
    rw [Function.update_of_ne (Ne.symm ha.1)]
    exact ih h.2 ha.2

theorem Seg.redirect (h : Seg next (next b) l q) (hnodup : (b :: l).Nodup) (r : Option α) :
    Seg (Function.update next ((b :: l).getLast (List.cons_ne_nil b l)) r)
      (Function.update next ((b :: l).getLast (List.cons_ne_nil b l)) r b) l r := by
  induction l generalizing b with
  | nil => exact Function.update_self _ _ _
  | cons c l ih =>
    have hne : b ≠ (c :: l).getLast (List.cons_ne_nil c l) := by
      intro heq
      exact (List.nodup_cons.mp hnodup).1 (heq ▸ List.getLast_mem _)
    rw [List.getLast_cons (List.cons_ne_nil c l), Function.update_of_ne hne]
    exact ⟨h.1, ih h.2 (List.nodup_cons.mp hnodup).2⟩

end Seg

/-- Circular lists, each through a head of its own, that share no node. -/
structure Rings {α : Type u} {ι : Type v} (next : α → Option α) (head : ι → α) (on : ι → Prop)
    (rings : ι → List α) : Prop where
  seg : ∀ i, on i → Seg next (next (head i)) (rings i) (some (head i))
  nodup : ∀ i, on i → (rings i).Nodup
  apart : ∀ {i j a}, on i → on j → a ∈ rings i → a ∈ rings j → i = j
  ne_head : ∀ {i j a}, on i → a ∈ rings i → a ≠ head j

namespace Rings

variable {α : Type u} {ι : Type v} {next : α → Option α} {head : ι → α} {on : ι → Prop}
  {rings : ι → List α} {i : ι} {a : α} {front back : List α}

theorem nodup_head (h : Rings next head on rings) (hi : on i) : (head i :: rings i).Nodup :=
  List.nodup_cons.mpr ⟨fun hmem => h.ne_head hi hmem rfl, h.nodup i hi⟩

theorem congr (h : Rings next head on rings) {next' : α → Option α} {on' : ι → Prop}
    {rings' : ι → List α} (hon : ∀ i, on' i → on i) (hrings : ∀ i, on' i → rings' i = rings i)
    (hkept : ∀ i, on' i → ∀ a ∈ head i :: rings i, next' a = next a) :
    Rings next' head on' rings' := by
  refine ⟨fun i hi => ?_, fun i hi => ?_, fun {i j a} hi hj hai haj => ?_, fun {i j a} hi ha => ?_⟩
  · rw [hrings i hi, hkept i hi _ List.mem_cons_self]
    exact (h.seg i (hon i hi)).congr fun a ha => hkept i hi a (List.mem_cons_of_mem _ ha)
  · rw [hrings i hi]
    exact h.nodup i (hon i hi)
  · rw [hrings i hi] at hai
    rw [hrings j hj] at haj
    exact h.apart (hon i hi) (hon j hj) hai haj
  · rw [hrings i hi] at ha
    exact h.ne_head (hon i hi) ha

theorem next_ne_none (h : Rings next head on rings) (hi : on i) (ha : a ∈ rings i) :
    next a ≠ none := by
  obtain ⟨front, back, hring⟩ := List.append_of_mem ha
  have hseg := h.seg i hi
  rw [hring, seg_cons_iff] at hseg
  cases back with
  | nil => exact fun hnone => Option.some_ne_none _ (hseg.2.symm.trans hnone)
  | cons b back => exact fun hnone => Option.some_ne_none _ (hseg.2.1.symm.trans hnone)

theorem seg_around (h : Rings next head on rings) (hi : on i) (hring : rings i = front ++ a :: back) :
    Seg next (next a) (back ++ head i :: front) (some a) := by
  have hseg := h.seg i hi
  rw [hring, seg_cons_iff] at hseg
  exact seg_cons_iff.mpr ⟨hseg.2, hseg.1⟩

section Search

variable [DecidableEq α]

theorem notMem_around (h : Rings next head on rings) (hi : on i)
    (hring : rings i = front ++ a :: back) : ∀ c ∈ back ++ head i :: front, decide (c = a) = false := by
  have hnodup := h.nodup i hi
  have hne : a ≠ head i := h.ne_head hi (hring ▸ List.mem_append_right _ List.mem_cons_self)
  rw [hring] at hnodup
  have hmiddle := List.nodup_middle.mp hnodup
  rw [List.nodup_cons, List.mem_append, not_or] at hmiddle
  intro c hc
  refine decide_eq_false ?_
  rintro rfl
  rcases List.mem_append.mp hc with hback | hhead
  · exact hmiddle.1.2 hback
  · rcases List.mem_cons.mp hhead with heq | hfront
    · exact hne heq
    · exact hmiddle.1.1 hfront

theorem before_eq (h : Rings next head on rings) (hi : on i) (hring : rings i = front ++ a :: back)
    {fuel : Nat} (hfuel : (rings i).length < fuel) :
    before next (fun c => decide (c = a)) fuel a =
      some ((head i :: front).getLast (List.cons_ne_nil _ _)) := by
  have hlength : (back ++ head i :: front).length < fuel := by
    rw [hring] at hfuel
    simp only [List.length_append, List.length_cons] at hfuel ⊢
    omega
  rw [before_of_seg (h.seg_around hi hring) (h.notMem_around hi hring) (decide_eq_true rfl) hlength]
  rw [List.getLast_cons (by simp), List.getLast_append_of_ne_nil _ (List.cons_ne_nil _ _)]

theorem before_head (h : Rings next head on rings) (hi : on i)
    (hring : rings i = front ++ a :: back) {fuel : Nat} (hfuel : (rings i).length < fuel) :
    before next (fun c => decide (c = a)) fuel (head i) =
      some ((head i :: front).getLast (List.cons_ne_nil _ _)) := by
  have hseg := h.seg i hi
  rw [hring, seg_cons_iff] at hseg
  refine before_of_seg hseg.1 (fun c hc => ?_) (decide_eq_true rfl) ?_
  · exact h.notMem_around hi hring c (List.mem_append_right _ (List.mem_cons_of_mem _ hc))
  · rw [hring, List.length_append] at hfuel
    omega

end Search

variable [DecidableEq ι]

theorem replace (h : Rings next head on rings) {next' : α → Option α} (hi : on i) {l : List α}
    (hseg : Seg next' (next' (head i)) l (some (head i))) (hnodup : l.Nodup)
    (hhead : ∀ a ∈ l, ∀ j, a ≠ head j)
    (hkept : ∀ j, j ≠ i → on j → Seg next' (next' (head j)) (rings j) (some (head j)))
    (hfresh : ∀ a ∈ l, ∀ j, j ≠ i → on j → a ∉ rings j) :
    Rings next' head on (Function.update rings i l) := by
  refine ⟨fun j hj => ?_, fun j hj => ?_, fun {j k a} hj hk hja hka => ?_, fun {j k a} hj ha => ?_⟩
  · by_cases hji : j = i
    · subst hji
      rwa [Function.update_self]
    · rw [Function.update_of_ne hji]
      exact hkept j hji hj
  · by_cases hji : j = i
    · subst hji
      rwa [Function.update_self]
    · rw [Function.update_of_ne hji]
      exact h.nodup j hj
  · by_cases hji : j = i
    · by_cases hki : k = i
      · rw [hji, hki]
      · rw [hji, Function.update_self] at hja
        rw [Function.update_of_ne hki] at hka
        exact absurd hka (hfresh a hja k hki hk)
    · by_cases hki : k = i
      · rw [hki, Function.update_self] at hka
        rw [Function.update_of_ne hji] at hja
        exact absurd hja (hfresh a hka j hji hj)
      · rw [Function.update_of_ne hji] at hja
        rw [Function.update_of_ne hki] at hka
        exact h.apart hj hk hja hka
  · by_cases hji : j = i
    · rw [hji, Function.update_self] at ha
      exact hhead a ha k
    · rw [Function.update_of_ne hji] at ha
      exact h.ne_head hj ha

theorem extend (h : Rings next head on rings) {next' : α → Option α} (hi : ¬on i)
    (hhead : next' (head i) = some (head i))
    (hkept : ∀ j, on j → ∀ a ∈ head j :: rings j, next' a = next a) :
    Rings next' head (fun j => j = i ∨ on j) (Function.update rings i []) := by
  refine ⟨fun j hj => ?_, fun j hj => ?_, fun {j k a} hj hk hja hka => ?_, fun {j k a} hj ha => ?_⟩
  · by_cases hji : j = i
    · subst hji
      rw [Function.update_self]
      exact hhead
    · have hon := hj.resolve_left hji
      rw [Function.update_of_ne hji, hkept j hon _ List.mem_cons_self]
      exact (h.seg j hon).congr fun a ha => hkept j hon a (List.mem_cons_of_mem _ ha)
  · by_cases hji : j = i
    · subst hji
      rw [Function.update_self]
      exact List.nodup_nil
    · rw [Function.update_of_ne hji]
      exact h.nodup j (hj.resolve_left hji)
  · by_cases hji : j = i
    · subst hji
      rw [Function.update_self] at hja
      cases hja
    · by_cases hki : k = i
      · subst hki
        rw [Function.update_self] at hka
        cases hka
      · rw [Function.update_of_ne hji] at hja
        rw [Function.update_of_ne hki] at hka
        exact h.apart (hj.resolve_left hji) (hk.resolve_left hki) hja hka
  · by_cases hji : j = i
    · subst hji
      rw [Function.update_self] at ha
      cases ha
    · rw [Function.update_of_ne hji] at ha
      exact h.ne_head (hj.resolve_left hji) ha

variable [DecidableEq α]

theorem insert (h : Rings next head on rings) (hinj : Function.Injective head) (hi : on i)
    (ha : ∀ j, on j → a ∉ rings j) (hne : ∀ j, a ≠ head j) :
    Rings (Function.update (Function.update next a (next (head i))) (head i) (some a)) head on
      (Function.update rings i (a :: rings i)) := by
  have hold : ∀ j, on j → Seg (Function.update (Function.update next a (next (head i))) (head i)
      (some a)) (next (head j)) (rings j) (some (head j)) := fun j hj =>
    ((h.seg j hj).touch (ha j hj) _).touch (fun hmem => h.ne_head hj hmem rfl) _
  refine h.replace hi ?_ ?_ ?_ ?_ ?_
  · refine ⟨Function.update_self _ _ _, ?_⟩
    rw [Function.update_of_ne (hne i), Function.update_self]
    exact hold i hi
  · exact List.nodup_cons.mpr ⟨ha i hi, h.nodup i hi⟩
  · exact List.forall_mem_cons.mpr ⟨hne, fun b hb j => h.ne_head hi hb⟩
  · intro j hji hj
    rw [Function.update_of_ne (fun heq => hji (hinj heq)), Function.update_of_ne (Ne.symm (hne j))]
    exact hold j hj
  · exact List.forall_mem_cons.mpr
      ⟨fun j _ hj => ha j hj, fun b hb j hji hj hmem => hji (h.apart hj hi hmem hb)⟩

theorem remove (h : Rings next head on rings) (hinj : Function.Injective head) (hi : on i)
    (hring : rings i = front ++ a :: back) :
    Rings (Function.update (Function.update next
        ((head i :: front).getLast (List.cons_ne_nil _ _)) (next a)) a none) head on
      (Function.update rings i (front ++ back)) := by
  have hseg := h.seg i hi
  have hnodup := h.nodup_head hi
  rw [hring] at hnodup
  rw [hring, seg_cons_iff] at hseg
  have hsub : List.Sublist (front ++ back) (front ++ a :: back) :=
    (List.sublist_cons_self a back).append_left front
  have hmem : ∀ b ∈ front ++ back, b ∈ rings i := fun b hb => hring ▸ hsub.subset hb
  have hmiddle := List.nodup_middle.mp (List.nodup_cons.mp hnodup).2
  have hnot : a ∉ front ++ back := (List.nodup_cons.mp hmiddle).1
  have ha : a ∈ rings i := hring ▸ List.mem_append_right _ List.mem_cons_self
  have hfront : (head i :: front).Nodup :=
    hnodup.sublist ((List.sublist_append_left _ _).cons_cons _)
  -- the last node in front of `a` is the head or a node of the ring that is not behind `a`
  obtain ⟨b, hb⟩ : ∃ b, b = (head i :: front).getLast (List.cons_ne_nil _ _) := ⟨_, rfl⟩
  have hlast : b = head i ∨ b ∈ front :=
    List.mem_cons.mp (hb ▸ List.getLast_mem (List.cons_ne_nil _ _))
  have hback : b ∉ back := by
    intro hmemb
    rcases hlast with rfl | hbf
    · exact (List.nodup_cons.mp hnodup).1 (List.mem_append_right _ (List.mem_cons_of_mem _ hmemb))
    · exact (List.nodup_append.mp (List.nodup_cons.mp hmiddle).2).2.2 b hbf b hmemb rfl
  rw [← hb]
  have hredirect := hseg.1.redirect hfront (next a)
  rw [← hb] at hredirect
  refine h.replace hi ?_ ((List.nodup_cons.mp hmiddle).2) (fun c hc j => h.ne_head hi (hmem c hc)) ?_
    fun c hc j hji hj hcj => hji (h.apart hj hi hcj (hmem c hc))
  · rw [Function.update_of_ne (Ne.symm (h.ne_head hi ha))]
    refine Seg.touch (seg_append_iff.mpr ⟨next a, hredirect, hseg.2.touch hback _⟩) hnot _
  · intro j hji hj
    have hja : a ∉ rings j := fun hmema => hji (h.apart hj hi hmema ha)
    have hjb : b ∉ rings j := by
      intro hmemb
      rcases hlast with rfl | hbf
      · exact h.ne_head hj hmemb rfl
      · exact hji (h.apart hj hi hmemb (hmem b (List.mem_append_left _ hbf)))
    have hne : head j ≠ b := by
      rintro heq
      rcases hlast with rfl | hbf
      · exact hji (hinj heq)
      · exact h.ne_head hi (hmem b (List.mem_append_left _ hbf)) heq.symm
    rw [Function.update_of_ne (Ne.symm (h.ne_head hi ha)), Function.update_of_ne hne]
    exact ((h.seg j hj).touch hjb _).touch hja _

end Rings

end M2M.Lib
