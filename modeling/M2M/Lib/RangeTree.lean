import Mathlib.Data.List.Perm.Basic
import Mathlib.Data.List.Nodup

/-! Ordered sets of ranges, with a comparator for which overlapping ranges are equal. -/

universe u v

namespace M2M.Lib

/-- What has a first and a last address. -/
class Ranged (ε : Type u) where
  first : ε → Nat
  last : ε → Nat

namespace Ranged

variable {ε : Type u} [Ranged ε]

def Proper (a : ε) : Prop := first a ≤ last a

def Overlaps (a b : ε) : Prop := first a ≤ last b ∧ first b ≤ last a

instance (a b : ε) : Decidable (Overlaps a b) := inferInstanceAs (Decidable (_ ∧ _))

def cmp (d1 d2 : ε) : Int :=
  if first d1 < first d2 then if last d1 < first d2 then -1 else 0
  else if last d2 < first d1 then 1 else 0

/-- Proper ranges one behind the other. -/
structure Apart (l : List ε) : Prop where
  proper : ∀ a ∈ l, Proper a
  ordered : l.Pairwise fun a b => last a < first b

theorem Overlaps.symm {a b : ε} (h : Overlaps a b) : Overlaps b a := ⟨h.2, h.1⟩

theorem cmp_eq_zero_iff {a b : ε} (ha : Proper a) (hb : Proper b) :
    cmp a b = 0 ↔ Overlaps a b := by
  unfold Proper at ha hb
  unfold cmp Overlaps
  split
  · split <;> constructor <;> omega
  · split <;> constructor <;> omega

theorem cmp_neg_iff {a b : ε} (ha : Proper a) : cmp a b < 0 ↔ last a < first b := by
  unfold Proper at ha
  unfold cmp
  split
  · split <;> constructor <;> omega
  · split <;> constructor <;> omega

namespace Apart

variable {l : List ε} {a b : ε}

theorem nil : Apart ([] : List ε) := ⟨List.forall_mem_nil _, List.Pairwise.nil⟩

theorem sublist {l' : List ε} (h : Apart l) (hsub : l'.Sublist l) : Apart l' :=
  ⟨fun a ha => h.proper a (hsub.subset ha), h.ordered.sublist hsub⟩

theorem eq_of_overlaps (h : Apart l) (ha : a ∈ l) (hb : b ∈ l) (hab : Overlaps a b) : a = b := by
  refine List.Pairwise.forall_of_forall_of_flip (R := fun a b => Overlaps a b → a = b)
    (fun _ _ _ => rfl) ?_ ?_ ha hb hab
  · exact h.ordered.imp fun hlt hov => absurd hov.2 (Nat.not_le.mpr hlt)
  · exact h.ordered.imp fun hlt hov => absurd hov.1 (Nat.not_le.mpr hlt)

theorem nodup (h : Apart l) : l.Nodup := by
  refine h.ordered.imp_of_mem fun {a b} ha _ hlt heq => ?_
  subst heq
  exact absurd (h.proper a ha) (Nat.not_le.mpr hlt)

theorem eq_of_mem_iff {l' : List ε} (h : Apart l) (h' : Apart l') (hmem : ∀ x, x ∈ l ↔ x ∈ l') :
    l = l' := by
  have hperm := (List.perm_ext_iff_of_nodup h.nodup h'.nodup).mpr hmem
  refine hperm.eq_of_pairwise ?_ h.ordered h'.ordered
  intro a b ha hb hab hba
  have hproper := h.proper a ha
  have hproper' := h'.proper b hb
  unfold Proper at hproper hproper'
  omega

theorem map {f : ε → ε} (h : Apart l) (hfirst : ∀ a, first (f a) = first a)
    (hlast : ∀ a, last (f a) = last a) : Apart (l.map f) := by
  constructor
  · intro b hb
    obtain ⟨a, ha, rfl⟩ := List.mem_map.mp hb
    unfold Proper
    rw [hfirst, hlast]
    exact h.proper a ha
  · rw [List.pairwise_map]
    exact h.ordered.imp fun {a b} hlt => by rwa [hfirst, hlast]

end Apart

end Ranged

open Ranged

/-- An ordered set of ranges: what its operations do to sets of disjoint proper ranges.  Which of
several overlapping entries is found is left open. -/
structure RangeTree (ε : Type u) [Ranged ε] (τ : Type v) where
  /-- The entries in order. -/
  entries : τ → List ε
  empty : τ
  find : τ → ε → Option ε
  insert : τ → ε → τ × Option ε
  remove : τ → ε → τ
  entries_empty : entries empty = []
  find_some : ∀ {t q e}, Apart (entries t) → Proper q → find t q = some e →
    e ∈ entries t ∧ cmp q e = 0
  find_none : ∀ {t q}, Apart (entries t) → Proper q → find t q = none →
    ∀ e ∈ entries t, cmp q e ≠ 0
  insert_some : ∀ {t q e}, Apart (entries t) → Proper q → (insert t q).2 = some e →
    (insert t q).1 = t ∧ e ∈ entries t ∧ cmp q e = 0
  insert_none : ∀ {t q}, Apart (entries t) → Proper q → (insert t q).2 = none →
    (∀ e ∈ entries t, cmp q e ≠ 0) ∧ Apart (entries (insert t q).1) ∧
      ∀ x, x ∈ entries (insert t q).1 ↔ x = q ∨ x ∈ entries t
  remove_spec : ∀ {t e}, Apart (entries t) → e ∈ entries t → Apart (entries (remove t e)) ∧
    ∀ x, x ∈ entries (remove t e) ↔ x ≠ e ∧ x ∈ entries t

namespace RangeTree

section Laws

variable {ε : Type u} [Ranged ε] {τ : Type v} (tree : RangeTree ε τ) {t : τ} {q e : ε}

theorem overlaps_of_find (h : Apart (tree.entries t)) (hq : Proper q)
    (hfind : tree.find t q = some e) : e ∈ tree.entries t ∧ Overlaps q e := by
  obtain ⟨he, hcmp⟩ := tree.find_some h hq hfind
  exact ⟨he, (cmp_eq_zero_iff hq (h.proper e he)).mp hcmp⟩

theorem find_eq_none_iff (h : Apart (tree.entries t)) (hq : Proper q) :
    tree.find t q = none ↔ ∀ e ∈ tree.entries t, ¬Overlaps q e := by
  constructor
  · intro hnone e he hov
    exact tree.find_none h hq hnone e he ((cmp_eq_zero_iff hq (h.proper e he)).mpr hov)
  · intro hfree
    cases hfind : tree.find t q with
    | none => rfl
    | some e =>
      obtain ⟨he, hov⟩ := tree.overlaps_of_find h hq hfind
      exact absurd hov (hfree e he)

theorem insert_of_free (h : Apart (tree.entries t)) (hq : Proper q)
    (hfree : ∀ e ∈ tree.entries t, ¬Overlaps q e) :
    (tree.insert t q).2 = none ∧ Apart (tree.entries (tree.insert t q).1) ∧
      ∀ x, x ∈ tree.entries (tree.insert t q).1 ↔ x = q ∨ x ∈ tree.entries t := by
  cases hins : (tree.insert t q).2 with
  | none => exact ⟨rfl, (tree.insert_none h hq hins).2⟩
  | some e =>
    obtain ⟨-, he, hcmp⟩ := tree.insert_some h hq hins
    exact absurd ((cmp_eq_zero_iff hq (h.proper e he)).mp hcmp) (hfree e he)

theorem insert_of_taken (h : Apart (tree.entries t)) (hq : Proper q)
    (htaken : ∃ e ∈ tree.entries t, Overlaps q e) :
    ∃ e ∈ tree.entries t, Overlaps q e ∧ tree.insert t q = (t, some e) := by
  cases hins : (tree.insert t q).2 with
  | none =>
    obtain ⟨e, he, hov⟩ := htaken
    have hcmp := (tree.insert_none h hq hins).1 e he
    exact absurd ((cmp_eq_zero_iff hq (h.proper e he)).mpr hov) hcmp
  | some e =>
    obtain ⟨hsame, he, hcmp⟩ := tree.insert_some h hq hins
    exact ⟨e, he, (cmp_eq_zero_iff hq (h.proper e he)).mp hcmp, Prod.ext hsame hins⟩

end Laws

section OnLists

variable {ε : Type u} [Ranged ε]

/-- Puts a range in front of the first that is behind it. -/
def place (q : ε) : List ε → List ε
  | [] => [q]
  | e :: l => if cmp q e < 0 then q :: e :: l else e :: place q l

theorem mem_place {q x : ε} {l : List ε} : x ∈ place q l ↔ x = q ∨ x ∈ l := by
  induction l with
  | nil => simp [place]
  | cons e l ih =>
    rw [place]
    split
    · rw [List.mem_cons]
    · rw [List.mem_cons, ih, List.mem_cons]
      exact or_left_comm

theorem apart_place {q : ε} {l : List ε} (h : Apart l) (hq : Proper q)
    (hfree : ∀ e ∈ l, cmp q e ≠ 0) : Apart (place q l) := by
  refine ⟨fun a ha => ?_, ?_⟩
  · rcases mem_place.mp ha with rfl | ha
    · exact hq
    · exact h.proper a ha
  · induction l with
    | nil => exact List.pairwise_singleton _ _
    | cons e l ih =>
      have he := h.proper e List.mem_cons_self
      obtain ⟨hhead, htail⟩ := List.pairwise_cons.mp h.ordered
      rw [place]
      split
      · next hneg =>
        have hlt := (cmp_neg_iff hq).mp hneg
        refine List.pairwise_cons.mpr ⟨fun x hx => ?_, h.ordered⟩
        rcases List.mem_cons.mp hx with rfl | hx
        · exact hlt
        · have := hhead x hx
          unfold Proper at he
          omega
      · next hneg =>
        have hbehind : last e < first q := by
          have hcmp := hfree e List.mem_cons_self
          have hov := mt (cmp_eq_zero_iff hq he).mpr hcmp
          have hnot := mt (cmp_neg_iff (b := e) hq).mpr hneg
          unfold Overlaps at hov
          omega
        refine List.pairwise_cons.mpr ⟨fun x hx => ?_, ?_⟩
        · rcases mem_place.mp hx with rfl | hx
          · exact hbehind
          · exact hhead x hx
        · exact ih (h.sublist (List.sublist_cons_self e l))
            fun x hx => hfree x (List.mem_cons_of_mem e hx)

/-- Ordered sets exist: lists in order, of which the first match is found. -/
def onLists [DecidableEq ε] : RangeTree ε (List ε) where
  entries := id
  empty := []
  find := fun l q => l.find? fun e => cmp q e = 0
  insert := fun l q =>
    match l.find? fun e => cmp q e = 0 with
    | some e => (l, some e)
    | none => (place q l, none)
  remove := List.erase
  entries_empty := rfl
  find_some := fun _ _ hfind =>
    ⟨List.mem_of_find?_eq_some hfind, by simpa using List.find?_some hfind⟩
  find_none := fun _ _ hfind e he => by simpa using List.find?_eq_none.mp hfind e he
  insert_some := by
    intro l q e _ _ hins
    cases hfind : l.find? fun e => cmp q e = 0 with
    | none =>
      rw [hfind] at hins
      cases hins
    | some e' =>
      rw [hfind] at hins
      cases hins
      exact ⟨rfl, List.mem_of_find?_eq_some hfind, by simpa using List.find?_some hfind⟩
  insert_none := by
    intro l q h hq hins
    cases hfind : l.find? fun e => cmp q e = 0 with
    | none =>
      have hfree : ∀ e ∈ l, cmp q e ≠ 0 := fun e he => by
        simpa using List.find?_eq_none.mp hfind e he
      exact ⟨hfree, apart_place h hq hfree, fun x => mem_place⟩
    | some e' =>
      rw [hfind] at hins
      cases hins
  remove_spec := fun h _ =>
    ⟨h.sublist List.erase_sublist, fun x => h.nodup.mem_erase_iff⟩

end OnLists

end RangeTree

end M2M.Lib
