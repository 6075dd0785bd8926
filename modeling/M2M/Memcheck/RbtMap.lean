import M2M.Lib.RangeTree

/-! What `memcheck_mmrange_map.c` and `memcheck_malloc_map.c` do in the same way to their trees. -/

open M2M.Lib M2M.Lib.Ranged

universe u v

namespace M2M.Memcheck

inductive RBTMapResult
  | inserted
  | alreadyExists
  | replaced
  deriving DecidableEq

/-- What an insertion returns: the result, the map, and what was copied to `replaced`. -/
structure Inserted (ε : Type u) (τ : Type v) where
  result : RBTMapResult
  map : τ
  replaced : Option ε

variable {ε : Type u} [Ranged ε] {τ : Type v} (tree : RangeTree ε τ)

/-- `mmrangemap_insert_desc` and `allocmap_insert_desc`, with or without a buffer for what is
replaced. -/
def insertDesc (map : τ) (desc : ε) (replace : Bool) : Inserted ε τ :=
  match tree.insert map desc with
  | (map, none) => { result := .inserted, map, replaced := none }
  | (map, some existing) =>
    if replace then
      { result := .replaced
        map := (tree.insert (tree.remove map existing) desc).1
        replaced := some existing }
    else { result := .alreadyExists, map, replaced := none }

/-- `mmrangemap_pull` and `allocmap_pull`, with the range to look for. -/
def pull (map : τ) (q : ε) : Option (ε × τ) :=
  (tree.find map q).map fun desc => (desc, tree.remove map desc)

/-- `mmrangemap_pull_first` and `allocmap_pull_first`. -/
def pullFirst (map : τ) : Option (ε × τ) :=
  (tree.entries map).head?.map fun first => (first, tree.remove map first)

section Laws

variable {tree} {map : τ} {desc e : ε}

theorem insertDesc_of_free (h : Apart (tree.entries map)) (hd : Proper desc)
    (hfree : ∀ e ∈ tree.entries map, ¬Overlaps desc e) (replace : Bool) :
    (insertDesc tree map desc replace).result = .inserted ∧
      Apart (tree.entries (insertDesc tree map desc replace).map) ∧
      ∀ x, x ∈ tree.entries (insertDesc tree map desc replace).map ↔
        x = desc ∨ x ∈ tree.entries map := by
  obtain ⟨hnone, hinsert⟩ := tree.insert_of_free h hd hfree
  have hpair : tree.insert map desc = ((tree.insert map desc).1, none) := Prod.ext rfl hnone
  rw [insertDesc, hpair]
  exact ⟨rfl, hinsert⟩

theorem insertDesc_of_taken (h : Apart (tree.entries map)) (hd : Proper desc)
    (htaken : ∃ e ∈ tree.entries map, Overlaps desc e) :
    insertDesc tree map desc false = ⟨.alreadyExists, map, none⟩ := by
  obtain ⟨e, -, -, hinsert⟩ := tree.insert_of_taken h hd htaken
  rw [insertDesc, hinsert]
  rfl

/-- Of the entries that overlap a range, one is replaced by it if there is no other; with another,
one is removed and the range is not inserted. -/
theorem insertDesc_replace (h : Apart (tree.entries map)) (hd : Proper desc)
    (htaken : ∃ e ∈ tree.entries map, Overlaps desc e) :
    ∃ e ∈ tree.entries map, Overlaps desc e ∧
      (insertDesc tree map desc true).result = .replaced ∧
      (insertDesc tree map desc true).replaced = some e ∧
      Apart (tree.entries (insertDesc tree map desc true).map) ∧
      ∀ x, x ∈ tree.entries (insertDesc tree map desc true).map ↔
        ((∀ y ∈ tree.entries map, Overlaps desc y → y = e) ∧ x = desc) ∨
          (x ≠ e ∧ x ∈ tree.entries map) := by
  obtain ⟨e, he, hov, hinsert⟩ := tree.insert_of_taken h hd htaken
  obtain ⟨hrest, hmem⟩ := tree.remove_spec h he
  refine ⟨e, he, hov, ?_⟩
  rw [insertDesc, hinsert]
  refine ⟨rfl, rfl, ?_⟩
  change Apart (tree.entries (tree.insert (tree.remove map e) desc).1) ∧
    ∀ x, x ∈ tree.entries (tree.insert (tree.remove map e) desc).1 ↔ _
  by_cases hone : ∀ y ∈ tree.entries map, Overlaps desc y → y = e
  · obtain ⟨-, hapart, hins⟩ := tree.insert_of_free hrest hd fun y hy hov' => by
      obtain ⟨hne, hold⟩ := (hmem y).mp hy
      exact hne (hone y hold hov')
    refine ⟨hapart, fun x => ?_⟩
    rw [hins, hmem, and_iff_right hone]
  · obtain ⟨y, hy, hov', hne⟩ : ∃ y ∈ tree.entries map, Overlaps desc y ∧ y ≠ e := by
      simpa using hone
    obtain ⟨z, -, -, hins⟩ := tree.insert_of_taken hrest hd ⟨y, (hmem y).mpr ⟨hne, hy⟩, hov'⟩
    rw [hins]
    refine ⟨hrest, fun x => ?_⟩
    rw [hmem, or_iff_right fun hall => hone hall.1]

theorem pull_eq_none_iff (h : Apart (tree.entries map)) (hd : Proper desc) :
    pull tree map desc = none ↔ ∀ e ∈ tree.entries map, ¬Overlaps desc e := by
  rw [pull, Option.map_eq_none_iff]
  exact tree.find_eq_none_iff h hd

theorem pull_eq_some {out : ε × τ} (h : Apart (tree.entries map)) (hd : Proper desc)
    (hpull : pull tree map desc = some out) :
    out.1 ∈ tree.entries map ∧ Overlaps desc out.1 ∧ Apart (tree.entries out.2) ∧
      ∀ x, x ∈ tree.entries out.2 ↔ x ≠ out.1 ∧ x ∈ tree.entries map := by
  obtain ⟨e, hfind, rfl⟩ := Option.map_eq_some_iff.mp hpull
  obtain ⟨he, hov⟩ := tree.overlaps_of_find h hd hfind
  exact ⟨he, hov, tree.remove_spec h he⟩

theorem pullFirst_eq_some {out : ε × τ} (h : Apart (tree.entries map))
    (hpull : pullFirst tree map = some out) :
    out.1 ∈ tree.entries map ∧ Apart (tree.entries out.2) ∧
      ∀ x, x ∈ tree.entries out.2 ↔ x ≠ out.1 ∧ x ∈ tree.entries map := by
  obtain ⟨e, hfirst, rfl⟩ := Option.map_eq_some_iff.mp hpull
  have he := List.mem_of_head? hfirst
  exact ⟨he, tree.remove_spec h he⟩

end Laws

end M2M.Memcheck
