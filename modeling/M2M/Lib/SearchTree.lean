import M2M.Lib.RangeTree

/-! Ordered sets of ranges that are searched with any comparison that follows their order, also of
a range that ends in front of its start. -/

universe u v

namespace M2M.Lib

open Ranged

variable {ε : Type u} [Ranged ε]

def Ranged.Follows (q : ε) (l : List ε) : Prop := l.Pairwise fun a b => cmp q b ≤ cmp q a

theorem Ranged.cmp_eq_zero {a b : ε} : cmp a b = 0 ↔
    (first a < first b ∧ first b ≤ last a) ∨ (first b ≤ first a ∧ first a ≤ last b) := by
  unfold cmp
  split_ifs with hlt hend hend
  · exact iff_of_false (by decide) (by omega)
  · exact iff_of_true rfl (by omega)
  · exact iff_of_false (by decide) (by omega)
  · exact iff_of_true rfl (by omega)

theorem Ranged.Apart.follows {l : List ε} (h : Apart l) (q : ε) : Follows q l := by
  refine h.ordered.imp_of_mem fun {a b} ha hb hlt => ?_
  have hproper := h.proper a ha
  have hproper' := h.proper b hb
  unfold Proper at hproper hproper'
  unfold cmp
  split <;> split <;> split <;> omega

/-- A search ends at an entry that compares equal, if there is one. -/
structure SearchTree (ε : Type u) [Ranged ε] (τ : Type v) extends RangeTree ε τ where
  search_some : ∀ {t q e}, Apart (entries t) → Follows q (entries t) → find t q = some e →
    e ∈ entries t ∧ cmp q e = 0
  search_none : ∀ {t q}, Apart (entries t) → Follows q (entries t) → find t q = none →
    ∀ e ∈ entries t, cmp q e ≠ 0

namespace SearchTree

/-- The set in order, and everything that was ever put into it, the oldest first. -/
structure Aged (ε : Type u) where
  sorted : List ε
  ages : List ε

/-- The oldest of the entries that compare equal. -/
def oldest [DecidableEq ε] (t : Aged ε) (q : ε) : Option ε :=
  (t.ages.find? fun e => decide (e ∈ t.sorted ∧ cmp q e = 0)).or
    (t.sorted.find? fun e => cmp q e = 0)

theorem oldest_some [DecidableEq ε] {t : Aged ε} {q e : ε} (h : oldest t q = some e) :
    e ∈ t.sorted ∧ cmp q e = 0 := by
  rcases Option.or_eq_some_iff.mp h with hold | ⟨-, hfound⟩
  · simpa using List.find?_some hold
  · exact ⟨List.mem_of_find?_eq_some hfound, by simpa using List.find?_some hfound⟩

theorem oldest_none [DecidableEq ε] {t : Aged ε} {q : ε} (h : oldest t q = none) :
    ∀ e ∈ t.sorted, cmp q e ≠ 0 := by
  intro e he
  simpa using List.find?_eq_none.mp (Option.or_eq_none_iff.mp h).2 e he

def put [DecidableEq ε] (t : Aged ε) (q : ε) : Aged ε × Option ε :=
  match t.sorted.find? fun e => cmp q e = 0 with
  | some e => (t, some e)
  | none => (⟨RangeTree.place q t.sorted, t.ages ++ [q]⟩, none)

theorem put_of_free [DecidableEq ε] {t : Aged ε} {q : ε} (h : ∀ e ∈ t.sorted, cmp q e ≠ 0) :
    put t q = (⟨RangeTree.place q t.sorted, t.ages ++ [q]⟩, none) := by
  have hnone : (t.sorted.find? fun e => cmp q e = 0) = none :=
    List.find?_eq_none.mpr fun e he => by simpa using h e he
  rw [put, hnone]

theorem put_some [DecidableEq ε] {t : Aged ε} {q e : ε} (h : (put t q).2 = some e) :
    (put t q).1 = t ∧ e ∈ t.sorted ∧ cmp q e = 0 := by
  cases hfind : t.sorted.find? fun e => cmp q e = 0 with
  | none =>
    rw [put, hfind] at h
    cases h
  | some e' =>
    rw [put, hfind] at h ⊢
    cases h
    exact ⟨rfl, List.mem_of_find?_eq_some hfind, by simpa using List.find?_some hfind⟩

theorem put_none [DecidableEq ε] {t : Aged ε} {q : ε} (h : (put t q).2 = none) :
    ∀ e ∈ t.sorted, cmp q e ≠ 0 := by
  cases hfind : t.sorted.find? fun e => cmp q e = 0 with
  | none => exact fun e he => by simpa using List.find?_eq_none.mp hfind e he
  | some e' =>
    rw [put, hfind] at h
    cases h

/-- Sets that find the oldest of several entries, as a tree does whose root was put in first. -/
def byAge [DecidableEq ε] : SearchTree ε (Aged ε) where
  entries := Aged.sorted
  empty := ⟨[], []⟩
  find := oldest
  insert := put
  remove := fun t e => ⟨t.sorted.erase e, t.ages⟩
  entries_empty := rfl
  find_some := fun _ _ h => oldest_some h
  find_none := fun _ _ h => oldest_none h
  insert_some := fun _ _ h => put_some h
  insert_none := by
    intro t q h hq hins
    have hfree := put_none hins
    rw [put_of_free hfree]
    exact ⟨hfree, RangeTree.apart_place h hq hfree, fun x => RangeTree.mem_place⟩
  remove_spec := fun h _ =>
    ⟨h.sublist List.erase_sublist, fun x => h.nodup.mem_erase_iff⟩
  search_some := fun _ _ h => oldest_some h
  search_none := fun _ _ h => oldest_none h

section Laws

variable {τ : Type v} (tree : SearchTree ε τ) {t : τ} {q e : ε}

theorem cmp_of_find (h : Apart (tree.entries t)) (hfind : tree.find t q = some e) :
    e ∈ tree.entries t ∧ cmp q e = 0 :=
  tree.search_some h (h.follows q) hfind

theorem ne_of_find (h : Apart (tree.entries t)) (hfind : tree.find t q = none) :
    ∀ e ∈ tree.entries t, cmp q e ≠ 0 :=
  tree.search_none h (h.follows q) hfind

end Laws

end SearchTree

end M2M.Lib
