import M2M.Memcheck.AllocMap

/-! Blocks stay disjoint whatever is replaced, but a block that overlaps two of them is not
inserted. -/

open M2M.Lib M2M.Lib.Ranged

namespace M2M.Memcheck

namespace MallocDesc.Valid

variable {d d' : MallocDescEx}

theorem last_eq (h : d.mallocDesc.Valid) :
    last d = d.mallocDesc.ptr.toNat + d.mallocDesc.total - 1 := by
  obtain ⟨hpos, hle⟩ := h
  change (d.mallocDesc.ptr + (d.mallocDesc.prefixSize + d.mallocDesc.requestedBytes +
    d.mallocDesc.suffixSize) - 1).toNat = _
  unfold total at *
  rw [UInt32.toNat_sub]
  simp only [UInt32.toNat_add, UInt32.toNat_one]
  omega

theorem proper (h : d.mallocDesc.Valid) : Proper d := by
  have hpos := h.pos
  unfold Proper
  rw [h.last_eq]
  change d.mallocDesc.ptr.toNat ≤ _
  omega

theorem overlaps_iff (h : d.mallocDesc.Valid) (h' : d'.mallocDesc.Valid) :
    Overlaps d d' ↔
      d'.mallocDesc.Intersects d.mallocDesc.ptr.toNat d.mallocDesc.total := by
  have hpos := h.pos
  have hpos' := h'.pos
  unfold Overlaps Intersects
  rw [h.last_eq, h'.last_eq]
  change d.mallocDesc.ptr.toNat ≤ _ ∧ d'.mallocDesc.ptr.toNat ≤ _ ↔ _
  omega

end MallocDesc.Valid

theorem total_rangeDesc (adesc : MallocDescEx) (address size : UInt32) :
    (rangeDesc adesc address size).mallocDesc.total = size.toNat := by
  change (0 : UInt32).toNat + size.toNat + (0 : UInt32).toNat = _
  rw [UInt32.toNat_zero, Nat.zero_add, Nat.add_zero]

theorem valid_rangeDesc (adesc : MallocDescEx) {address size : UInt32} (hpos : 0 < size)
    (hle : address.toNat + size.toNat ≤ 2 ^ 32) :
    (rangeDesc adesc address size).mallocDesc.Valid := by
  constructor
  · rw [total_rangeDesc]
    exact UInt32.lt_iff_toNat_lt.mp hpos
  · rw [total_rangeDesc]
    exact hle

theorem valid_byte (adesc : MallocDescEx) (address : UInt32) :
    (rangeDesc adesc address 1).mallocDesc.Valid := by
  have hlt := address.toNat_lt
  refine valid_rangeDesc adesc (by decide) ?_
  rw [UInt32.toNat_one]
  omega

/-- Blocks that do not overlap. -/
structure Blocks (l : List MallocDescEx) : Prop where
  apart : Apart l
  valid : ∀ e ∈ l, e.mallocDesc.Valid

section Maps

variable {τ : Type} {tree : RangeTree MallocDescEx τ} {map : τ} {desc : MallocDescEx}

theorem Blocks.empty : Blocks (tree.entries tree.empty) := by
  rw [tree.entries_empty]
  exact ⟨Apart.nil, List.forall_mem_nil _⟩

theorem Blocks.mapRight (h : Blocks (tree.entries map)) : MapRight tree map := by
  constructor
  · refine h.apart.ordered.imp_of_mem fun {a b} ha hb hlt hov => ?_
    have hov' := ((h.valid b hb).overlaps_iff (h.valid a ha)).mpr hov
    exact absurd hov'.1 (Nat.not_le.mpr hlt)
  · intro adesc address size hpos hle
    have hq := valid_rangeDesc adesc hpos hle
    have hiff : ∀ e ∈ tree.entries map, Overlaps (rangeDesc adesc address size) e ↔
        e.mallocDesc.Intersects address.toNat size.toNat := fun e he => by
      rw [hq.overlaps_iff (h.valid e he), total_rangeDesc]
      exact Iff.rfl
    cases hfind : allocmapFind tree map adesc address size with
    | none =>
      have hfree := (tree.find_eq_none_iff h.apart hq.proper).mp hfind
      exact fun e he => mt (hiff e he).mpr (hfree e he)
    | some e =>
      obtain ⟨he, hov⟩ := tree.overlaps_of_find h.apart hq.proper hfind
      exact ⟨he, (hiff e he).mp hov⟩

theorem Blocks.insertDesc (h : Blocks (tree.entries map)) (hd : desc.mallocDesc.Valid)
    (replace : Bool) : Blocks (tree.entries (insertDesc tree map desc replace).map) := by
  have hkept : ∀ l : List MallocDescEx, Apart l →
      (∀ x ∈ l, x = desc ∨ x ∈ tree.entries map) → Blocks l := by
    intro l hl hmem
    refine ⟨hl, fun x hx => ?_⟩
    rcases hmem x hx with rfl | hx
    · exact hd
    · exact h.valid x hx
  by_cases hfree : ∀ e ∈ tree.entries map, ¬Overlaps desc e
  · obtain ⟨-, hapart, hmem⟩ := insertDesc_of_free h.apart hd.proper hfree replace
    exact hkept _ hapart fun x hx => (hmem x).mp hx
  · have htaken : ∃ e ∈ tree.entries map, Overlaps desc e := by simpa using hfree
    cases replace with
    | false =>
      rw [insertDesc_of_taken h.apart hd.proper htaken]
      exact h
    | true =>
      obtain ⟨e, -, -, -, -, hapart, hmem⟩ := insertDesc_replace h.apart hd.proper htaken
      exact hkept _ hapart fun x hx => ((hmem x).mp hx).imp And.right And.right

theorem Blocks.allocmapCopy (setFlags clearFlags : UInt32) {l : List MallocDescEx}
    (hl : ∀ e ∈ l, e.mallocDesc.Valid) (h : Blocks (tree.entries map)) :
    Blocks (tree.entries (allocmapCopy tree setFlags clearFlags l map).2) := by
  induction l generalizing map with
  | nil => exact h
  | cons entry rest ih =>
    unfold Memcheck.allocmapCopy
    let newEntry : MallocDescEx :=
      { entry with flags := entry.flags &&& ~~~clearFlags ||| setFlags }
    have hvalid : newEntry.mallocDesc.Valid := hl entry List.mem_cons_self
    have hnext := h.insertDesc hvalid false
    dsimp only
    split
    · exact ih (fun e he => hl e (List.mem_cons_of_mem entry he)) hnext
    · exact hnext

theorem Blocks.mem_insertDesc_iff (h : Blocks (tree.entries map)) (hd : desc.mallocDesc.Valid) :
    desc ∈ tree.entries (Memcheck.insertDesc tree map desc true).map ↔
      ∀ e ∈ tree.entries map, ∀ e' ∈ tree.entries map,
        Overlaps desc e → Overlaps desc e' → e = e' := by
  by_cases hfree : ∀ e ∈ tree.entries map, ¬Overlaps desc e
  · obtain ⟨-, -, hmem⟩ := insertDesc_of_free h.apart hd.proper hfree true
    refine iff_of_true ((hmem desc).mpr (.inl rfl)) ?_
    exact fun e he _ _ hov => absurd hov (hfree e he)
  · obtain ⟨e, he, hov, -, -, -, hmem⟩ :=
      insertDesc_replace h.apart hd.proper (by simpa using hfree)
    rw [hmem]
    constructor
    · rintro (⟨hone, -⟩ | ⟨hne, hold⟩)
      · exact fun y hy z hz hovy hovz => (hone y hy hovy).trans (hone z hz hovz).symm
      · exact absurd (h.apart.eq_of_overlaps hold he hov) hne
    · exact fun hone => .inl ⟨fun y hy hovy => hone y hy e he hovy hov, rfl⟩

theorem Blocks.insertDesc_false (h : Blocks (tree.entries map)) (hd : desc.mallocDesc.Valid) :
    Memcheck.insertDesc tree map desc false = ⟨.alreadyExists, map, none⟩ ∨
      (Memcheck.insertDesc tree map desc false).result = .inserted ∧
        desc ∈ tree.entries (Memcheck.insertDesc tree map desc false).map := by
  by_cases hfree : ∀ e ∈ tree.entries map, ¬Overlaps desc e
  · obtain ⟨hresult, -, hmem⟩ := insertDesc_of_free h.apart hd.proper hfree false
    exact .inr ⟨hresult, (hmem desc).mpr (.inl rfl)⟩
  · exact .inl (insertDesc_of_taken h.apart hd.proper (by simpa using hfree))

theorem insertDesc_true_result (h : Blocks (tree.entries map)) (hd : desc.mallocDesc.Valid) :
    (Memcheck.insertDesc tree map desc true).result ≠ .alreadyExists := by
  intro hresult
  by_cases hfree : ∀ e ∈ tree.entries map, ¬Overlaps desc e
  · obtain ⟨hins, -⟩ := insertDesc_of_free h.apart hd.proper hfree true
    rw [hins] at hresult
    cases hresult
  · obtain ⟨_, -, -, hreplaced, -⟩ :=
      insertDesc_replace h.apart hd.proper (by simpa using hfree)
    rw [hreplaced] at hresult
    cases hresult

theorem insertedRight_iff_replacesOne {ι : Type} {maps : ι → τ}
    (h : ∀ i, Blocks (tree.entries (maps i))) (call : AllocCall ι) :
    InsertedRight tree maps call ↔ ReplacesOne tree maps call := by
  cases call with
  | insert i block replace =>
    cases replace with
    | false =>
      refine iff_of_true ?_ trivial
      rw [InsertedRight, allocmapInsert]
      rcases (h i).insertDesc_false block.valid with hins | ⟨hresult, hmem⟩
      · rw [hins]
      · rw [hresult]
        exact hmem
    | true =>
      have hresult := insertDesc_true_result (h i) block.valid
      have hiff := (h i).mem_insertDesc_iff block.valid
      have hov : ∀ e ∈ tree.entries (maps i), Overlaps block.desc e ↔
          e.mallocDesc.Intersects block.desc.mallocDesc.ptr.toNat block.desc.mallocDesc.total :=
        fun e he => block.valid.overlaps_iff ((h i).valid e he)
      refine Iff.trans ?_ (hiff.trans ?_)
      · rw [InsertedRight, allocmapInsert]
        split
        · next hexists => exact absurd hexists hresult
        · exact Iff.rfl
        · exact Iff.rfl
      · refine forall₂_congr fun e he => forall₂_congr fun e' he' => ?_
        rw [hov e he, hov e' he']
  | pull i adesc address => exact Iff.rfl
  | pullFirst i => exact Iff.rfl
  | copy target source setFlags clearFlags => exact Iff.rfl

end Maps

section Runs

variable {ι τ : Type} [DecidableEq ι] {tree : RangeTree MallocDescEx τ} {maps : ι → τ}

theorem blocks_update (h : ∀ i, Blocks (tree.entries (maps i))) {j : ι} {map : τ}
    (hmap : Blocks (tree.entries map)) :
    ∀ i, Blocks (tree.entries (Function.update maps j map i)) := by
  intro i
  by_cases hij : i = j
  · subst hij
    rw [Function.update_self]
    exact hmap
  · rw [Function.update_of_ne hij]
    exact h i

theorem blocks_allocStep (h : ∀ i, Blocks (tree.entries (maps i))) (call : AllocCall ι) :
    ∀ i, Blocks (tree.entries (allocStep tree maps call i)) := by
  have hremoved : ∀ i (e : MallocDescEx) map, Apart (tree.entries map) →
      (∀ x, x ∈ tree.entries map ↔ x ≠ e ∧ x ∈ tree.entries (maps i)) →
      Blocks (tree.entries map) :=
    fun i _ _ hapart hmem => ⟨hapart, fun x hx => (h i).valid x ((hmem x).mp hx).2⟩
  cases call with
  | insert i block replace => exact blocks_update h ((h i).insertDesc block.valid replace)
  | pull i adesc address =>
    rw [allocStep]
    cases hpull : allocmapPull tree (maps i) adesc address with
    | none => exact h
    | some out =>
      obtain ⟨-, -, hapart, hmem⟩ :=
        pull_eq_some (h i).apart (valid_byte adesc address).proper hpull
      exact blocks_update h (hremoved i out.1 out.2 hapart hmem)
  | pullFirst i =>
    rw [allocStep]
    cases hpull : allocmapPullFirst tree (maps i) with
    | none => exact h
    | some out =>
      obtain ⟨-, hapart, hmem⟩ := pullFirst_eq_some (h i).apart hpull
      exact blocks_update h (hremoved i out.1 out.2 hapart hmem)
  | copy target source setFlags clearFlags =>
    exact blocks_update h ((h target).allocmapCopy setFlags clearFlags (h source).valid)

theorem blocks_run (calls : List (AllocCall ι)) (h : ∀ i, Blocks (tree.entries (maps i))) :
    ∀ i, Blocks (tree.entries (calls.foldl (allocStep tree) maps i)) := by
  induction calls generalizing maps with
  | nil => exact h
  | cons call calls ih => exact ih (blocks_allocStep h call)

/-- A run of calls does what it is to do if no insertion that may replace overlaps two blocks. -/
theorem allocRight_iff (tree : RangeTree MallocDescEx τ) (calls : List (AllocCall ι)) :
    AllocRight tree calls ↔
      Along (allocStep tree) (ReplacesOne tree) (fun _ => tree.empty) calls := by
  have hempty : ∀ _ : ι, Blocks (tree.entries tree.empty) := fun _ => Blocks.empty
  have hinserts : Along (allocStep tree) (InsertedRight tree) (fun _ => tree.empty) calls ↔
      Along (allocStep tree) (ReplacesOne tree) (fun _ => tree.empty) calls :=
    Along.congr_of_invariant (fun _ call h => insertedRight_iff_replacesOne h call)
      (fun _ call h _ => blocks_allocStep h call) hempty
  constructor
  · intro h
    exact hinserts.mp h.inserts
  · intro hfits
    exact ⟨fun before _ i => (blocks_run before hempty i).mapRight, hinserts.mpr hfits⟩

end Runs

section Fixed

def blockAt (ptr size : UInt32) (valid : 0 < size ∧ ptr.toNat + size.toNat ≤ 2 ^ 32) : Block where
  desc := ⟨⟨ptr, size, 0, 0, 1, 1, 0⟩, [], 0⟩
  valid := by
    change MallocDesc.Valid ⟨ptr, size, 0, 0, 1, 1, 0⟩
    have hsize : MallocDesc.total ⟨ptr, size, 0, 0, 1, 1, 0⟩ = size.toNat := Nat.zero_add _
    constructor
    · rw [hsize]
      exact UInt32.lt_iff_toNat_lt.mp valid.1
    · rw [hsize]
      exact valid.2

/-- A block over two others is reported as inserted and is not in the map. -/
theorem overTwo_not_allocRight :
    ¬AllocRight RangeTree.onLists [AllocCall.insert () (blockAt 0x1000 16 (by decide)) true,
      .insert () (blockAt 0x1010 16 (by decide)) true,
      .insert () (blockAt 0x1008 16 (by decide)) true] := by
  intro h
  have hmem : (blockAt 0x1008 16 (by decide)).desc ∈ [(blockAt 0x1010 16 (by decide)).desc] :=
    h.inserts [_, _] _ (List.prefix_refl _)
  revert hmem
  decide

end Fixed

end M2M.Memcheck
