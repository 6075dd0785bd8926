import M2M.Lib.SearchTree
import M2M.Memcheck.Replacing
import M2M.Memcheck.Softmmu

/-! The verdict on an access, whichever of the blocks that it touches is found. -/

open M2M.Lib M2M.Lib.Ranged

namespace M2M.Memcheck

namespace MallocDesc

variable (desc : MallocDesc)

def userStart : Nat := desc.ptr.toNat + desc.prefixSize.toNat

def userEnd : Nat := desc.userStart + desc.requestedBytes.toNat

def StartsIn (addr : Nat) : Prop := desc.ptr.toNat ≤ addr ∧ addr < desc.ptr.toNat + desc.total

def UserAt (addr : Nat) : Prop := desc.userStart ≤ addr ∧ addr < desc.userEnd

instance (addr : Nat) : Decidable (desc.UserAt addr) := inferInstanceAs (Decidable (_ ∧ _))

end MallocDesc

/-- An access to some bytes. -/
structure Span where
  addr : UInt32
  size : UInt32
  pos : 0 < size

namespace Span

variable (span : Span)

def stop : Nat := span.addr.toNat + span.size.toNat

/-- The block is one that the lookup may return: bytes of an access that goes on behind the last
address are compared as if they were none. -/
def Touches (desc : MallocDesc) : Prop :=
  desc.StartsIn span.addr.toNat ∨
    (span.stop ≤ 2 ^ 32 ∧ desc.Intersects span.addr.toNat span.size.toNat)

/-- The access is one to the user's part. -/
def Inside (desc : MallocDesc) : Prop :=
  desc.userStart ≤ span.addr.toNat ∧ span.stop ≤ desc.userEnd

/-- The end of the user's part, or of the access, wraps in the comparisons and changes them. -/
def Misjudged (desc : MallocDesc) : Prop :=
  (span.stop < 2 ^ 32 ∧ desc.userEnd = 2 ^ 32 ∧ desc.userStart ≤ span.addr.toNat) ∨
    (2 ^ 32 ≤ span.stop ∧ (desc.userEnd ≤ span.addr.toNat ∨ desc.userStart = 2 ^ 32))

instance (desc : MallocDesc) : Decidable (span.Misjudged desc) :=
  inferInstanceAs (Decidable (_ ∨ _))

end Span

/-- Blocks of which no two have an address in common. -/
structure BlockSet where
  list : List MallocDescEx
  valid : ∀ d ∈ list, d.mallocDesc.Valid
  disjoint : list.Pairwise fun a b =>
    ¬a.mallocDesc.Intersects b.mallocDesc.ptr.toNat b.mallocDesc.total

section Verdict

variable {τ : Type}

def allocatedIn (tree : SearchTree MallocDescEx τ) (order : List MallocDescEx) : τ :=
  order.foldl (fun map desc => (allocmapInsert tree.toRangeTree map desc true).map) tree.empty

def verdictAfter (tree : SearchTree MallocDescEx τ) (order : List MallocDescEx)
    (adesc : MallocDescEx) (span : Span) : Int :=
  memcheckCommonAccessValidation tree.toRangeTree (allocatedIn tree order) adesc span.addr span.size

/-- The verdict is the same after every order of the allocations, and says what it is to say. -/
structure VerdictRight (blocks : BlockSet) (span : Span) : Prop where
  orders : ∀ {τ : Type} (tree : SearchTree MallocDescEx τ) (order order' : List MallocDescEx),
    order.Perm blocks.list → order'.Perm blocks.list → ∀ adesc adesc',
      verdictAfter tree order adesc span = verdictAfter tree order' adesc' span
  inside : (∃ d ∈ blocks.list, span.Inside d.mallocDesc) →
    ∀ {τ : Type} (tree : SearchTree MallocDescEx τ) (order : List MallocDescEx),
      order.Perm blocks.list → ∀ adesc, verdictAfter tree order adesc span = 0
  outside : (∃ d ∈ blocks.list, d.mallocDesc.StartsIn span.addr.toNat ∧
      ¬d.mallocDesc.UserAt span.addr.toNat) →
    ∀ {τ : Type} (tree : SearchTree MallocDescEx τ) (order : List MallocDescEx),
      order.Perm blocks.list → ∀ adesc, verdictAfter tree order adesc span = -1

/-- One block decides: no comparison wraps, and no other block is touched by an access that starts
in the user's part of one. -/
def OneDecides (blocks : BlockSet) (span : Span) : Prop :=
  (∀ d ∈ blocks.list, span.Touches d.mallocDesc → ¬span.Misjudged d.mallocDesc) ∧
    ∀ d ∈ blocks.list, d.mallocDesc.UserAt span.addr.toNat →
      ∀ d' ∈ blocks.list, span.Touches d'.mallocDesc → d' = d

/-- The access ends with the last address, and reaches there a block that is all prefix without
starting in it; the only other block that it touches has the start in its user's part. -/
def AllPrefixLast (blocks : BlockSet) (span : Span) : Prop :=
  ∃ d ∈ blocks.list, d.mallocDesc.userStart = 2 ^ 32 ∧
    span.addr.toNat < d.mallocDesc.ptr.toNat ∧ span.stop = 2 ^ 32 ∧
    ∀ d' ∈ blocks.list, span.Touches d'.mallocDesc →
      d' = d ∨ d'.mallocDesc.UserAt span.addr.toNat

end Verdict

section Found

variable {d d' : MallocDescEx} {span : Span}

def verdictOn (desc : MallocDesc) (span : Span) : Int :=
  if span.addr < desc.getUserPtr then -1
  else if span.addr + span.size ≤ desc.getUserAllocEnd then 0
  else if span.addr + span.size - desc.getUserAllocEnd < span.size then 0
  else -1

theorem MallocDesc.Valid.userEnd_le {desc : MallocDesc} (h : desc.Valid) :
    desc.userEnd ≤ desc.ptr.toNat + desc.total ∧ desc.userEnd ≤ 2 ^ 32 := by
  have hle := h.le
  unfold MallocDesc.userEnd MallocDesc.userStart
  unfold MallocDesc.total at *
  omega

theorem verdictOn_eq {desc : MallocDesc} (h : desc.Valid) (span : Span) :
    verdictOn desc span =
      if (desc.UserAt span.addr.toNat ↔ ¬span.Misjudged desc) then 0 else -1 := by
  have hpos : 0 < span.size.toNat := UInt32.lt_iff_toNat_lt.mp span.pos
  have haddr := span.addr.toNat_lt
  have hsize := span.size.toNat_lt
  have hend := h.userEnd_le.2
  have hptr : desc.getUserPtr.toNat = desc.userStart % 2 ^ 32 := UInt32.toNat_add ..
  have hstart : desc.userStart ≤ desc.userEnd := Nat.le_add_right ..
  have huser : desc.getUserAllocEnd.toNat = desc.userEnd % 2 ^ 32 := by
    rw [MallocDesc.getUserAllocEnd, UInt32.toNat_add, hptr]
    exact Nat.mod_add_mod ..
  have hstop : (span.addr + span.size).toNat = span.stop % 2 ^ 32 := UInt32.toNat_add ..
  have hsub := UInt32.toNat_sub (span.addr + span.size) desc.getUserAllocEnd
  have hsum : span.stop = span.addr.toNat + span.size.toNat := rfl
  unfold verdictOn MallocDesc.UserAt Span.Misjudged
  simp only [UInt32.lt_iff_toNat_lt, UInt32.le_iff_toNat_le]
  generalize desc.getUserPtr.toNat = ptr at hptr ⊢
  generalize desc.getUserAllocEnd.toNat = last at huser hsub ⊢
  generalize (span.addr + span.size - desc.getUserAllocEnd).toNat = diff at hsub ⊢
  generalize (span.addr + span.size).toNat = stop at hstop hsub ⊢
  -- each address is as it is, or has wrapped once
  by_cases hwrap : span.stop < 2 ^ 32
  · rw [Nat.mod_eq_of_lt hwrap] at hstop
    simp only [hwrap, Nat.not_le.mpr hwrap, true_and, false_and, or_false]
    by_cases hlast : desc.userEnd = 2 ^ 32
    · rw [hlast, Nat.mod_self] at huser
      simp only [hlast, true_and]
      split_ifs <;> omega
    · rw [Nat.mod_eq_of_lt (by omega)] at huser hptr
      simp only [hlast, false_and, not_false_eq_true, iff_true]
      split_ifs <;> omega
  · simp only [hwrap, Nat.not_lt.mp hwrap, true_and, false_and, false_or]
    split_ifs <;> omega

theorem cmp_rangeDesc_iff (h : d.mallocDesc.Valid) (adesc : MallocDescEx) (span : Span) :
    Ranged.cmp (rangeDesc adesc span.addr span.size) d = 0 ↔ span.Touches d.mallocDesc := by
  have hpos : 0 < span.size.toNat := UInt32.lt_iff_toNat_lt.mp span.pos
  have htotal := h.pos
  have hle := h.le
  have haddr := span.addr.toNat_lt
  have hsize := span.size.toNat_lt
  have hsum : span.stop = span.addr.toNat + span.size.toNat := rfl
  have hfirst : first (rangeDesc adesc span.addr span.size) = span.addr.toNat := rfl
  have hlast : last (rangeDesc adesc span.addr span.size) = (span.stop - 1) % 2 ^ 32 := by
    change (span.addr + (0 + span.size + 0) - 1).toNat = _
    rw [UInt32.toNat_sub]
    simp only [UInt32.toNat_add, UInt32.toNat_one, UInt32.toNat_zero]
    omega
  have hfirst' : first d = d.mallocDesc.ptr.toNat := rfl
  rw [Ranged.cmp_eq_zero, hfirst, hlast, hfirst', h.last_eq]
  unfold Span.Touches MallocDesc.StartsIn MallocDesc.Intersects
  omega

variable {τ : Type} {tree : SearchTree MallocDescEx τ} {blocks : BlockSet}
  {order : List MallocDescEx}

theorem BlockSet.not_overlaps (blocks : BlockSet) (hd : d ∈ blocks.list) (hd' : d' ∈ blocks.list)
    (hne : d ≠ d') : ¬Overlaps d d' := by
  have hflip : ∀ {a b : MallocDescEx}, a ∈ blocks.list → b ∈ blocks.list →
      ¬a.mallocDesc.Intersects b.mallocDesc.ptr.toNat b.mallocDesc.total → ¬Overlaps a b :=
    fun {a b} ha hb hno hov =>
      hno (((blocks.valid b hb).overlaps_iff (blocks.valid a ha)).mp hov.symm)
  have hpair : blocks.list.Pairwise fun a b => ¬Overlaps a b :=
    blocks.disjoint.imp_of_mem fun ha hb hno => hflip ha hb hno
  have : Std.Symm fun a b : MallocDescEx => ¬Overlaps a b := ⟨fun _ _ h hov => h hov.symm⟩
  exact hpair.forall hd hd' hne

theorem BlockSet.eq_of_startsIn (blocks : BlockSet) (hd : d ∈ blocks.list) (hd' : d' ∈ blocks.list)
    {a : Nat} (ha : d.mallocDesc.StartsIn a) (ha' : d'.mallocDesc.StartsIn a) : d = d' := by
  by_contra hne
  refine blocks.not_overlaps hd hd' hne
    (((blocks.valid d hd).overlaps_iff (blocks.valid d' hd')).mpr ?_)
  unfold MallocDesc.StartsIn at ha ha'
  unfold MallocDesc.Intersects
  omega

theorem entries_allocatedIn (tree : SearchTree MallocDescEx τ)
    (hvalid : ∀ d ∈ order, d.mallocDesc.Valid)
    (hdisjoint : order.Pairwise fun a b => ¬Overlaps a b) :
    Blocks (tree.entries (allocatedIn tree order)) ∧
      ∀ d, d ∈ tree.entries (allocatedIn tree order) ↔ d ∈ order := by
  induction order using List.reverseRecOn with
  | nil =>
    refine ⟨Blocks.empty, fun d => ?_⟩
    rw [allocatedIn, List.foldl_nil, tree.entries_empty]
  | append_singleton order x ih =>
    obtain ⟨hpair, -, hfree⟩ := List.pairwise_append.mp hdisjoint
    obtain ⟨hblocks, hmem⟩ :=
      ih (fun d hd => hvalid d (List.mem_append_left _ hd)) hpair
    have hx := hvalid x (List.mem_append_right _ (List.mem_singleton_self x))
    have hins := insertDesc_of_free hblocks.apart hx.proper (fun e he hov =>
      hfree e ((hmem e).mp he) x (List.mem_singleton_self x) hov.symm) true
    rw [allocatedIn, List.foldl_append]
    refine ⟨hblocks.insertDesc hx true, fun d => (hins.2.2 d).trans ?_⟩
    rw [List.mem_append, List.mem_singleton, or_comm]
    exact or_congr_left (hmem d)

theorem BlockSet.entries (blocks : BlockSet) (tree : SearchTree MallocDescEx τ)
    (hperm : order.Perm blocks.list) : Blocks (tree.entries (allocatedIn tree order)) ∧
      ∀ d, d ∈ tree.entries (allocatedIn tree order) ↔ d ∈ blocks.list := by
  have hvalid : ∀ d ∈ order, d.mallocDesc.Valid := fun d hd => blocks.valid d (hperm.subset hd)
  have hpair : order.Pairwise fun a b => ¬Overlaps a b := by
    refine (hperm.pairwise_iff fun {a b} h hov => h hov.symm).mpr ?_
    refine blocks.disjoint.imp_of_mem fun {a b} ha hb hno hov => hno ?_
    exact ((blocks.valid b hb).overlaps_iff (blocks.valid a ha)).mp hov.symm
  obtain ⟨hblocks, hmem⟩ := entries_allocatedIn tree hvalid hpair
  exact ⟨hblocks, fun d => (hmem d).trans hperm.mem_iff⟩

theorem verdictAfter_cases (tree : SearchTree MallocDescEx τ) (hperm : order.Perm blocks.list)
    (adesc : MallocDescEx) (span : Span) :
    (verdictAfter tree order adesc span = 1 ∧
      ∀ d ∈ blocks.list, ¬span.Touches d.mallocDesc) ∨
      ∃ d ∈ blocks.list, span.Touches d.mallocDesc ∧
        verdictAfter tree order adesc span = verdictOn d.mallocDesc span := by
  obtain ⟨hblocks, hmem⟩ := blocks.entries tree hperm
  rw [verdictAfter, memcheckCommonAccessValidation]
  cases hfind : allocmapFind tree.toRangeTree (allocatedIn tree order) adesc span.addr
      span.size with
  | none =>
    refine .inl ⟨rfl, fun d hd htouches => ?_⟩
    exact tree.ne_of_find hblocks.apart hfind d ((hmem d).mpr hd)
      ((cmp_rangeDesc_iff (blocks.valid d hd) adesc span).mpr htouches)
  | some d =>
    obtain ⟨hd, hcmp⟩ := tree.cmp_of_find hblocks.apart hfind
    have hd' := (hmem d).mp hd
    exact .inr ⟨d, hd', (cmp_rangeDesc_iff (blocks.valid d hd') adesc span).mp hcmp, rfl⟩

theorem ages_allocatedIn (hvalid : ∀ d ∈ order, d.mallocDesc.Valid)
    (hdisjoint : order.Pairwise fun a b => ¬Overlaps a b) :
    (allocatedIn SearchTree.byAge order).ages = order := by
  induction order using List.reverseRecOn with
  | nil => rfl
  | append_singleton order x ih =>
    obtain ⟨hpair, -, hfree⟩ := List.pairwise_append.mp hdisjoint
    have hvalid' : ∀ d ∈ order, d.mallocDesc.Valid :=
      fun d hd => hvalid d (List.mem_append_left _ hd)
    obtain ⟨hblocks, hmem⟩ := entries_allocatedIn SearchTree.byAge hvalid' hpair
    have hx := hvalid x (List.mem_append_right _ (List.mem_singleton_self x))
    have hins : SearchTree.byAge.insert (allocatedIn SearchTree.byAge order) x =
        (⟨RangeTree.place x (allocatedIn SearchTree.byAge order).sorted,
          (allocatedIn SearchTree.byAge order).ages ++ [x]⟩, none) := by
      refine SearchTree.put_of_free fun e he hcmp => ?_
      have hov := (cmp_eq_zero_iff hx.proper (hblocks.apart.proper e he)).mp hcmp
      exact hfree e ((hmem e).mp he) x (List.mem_singleton_self x) hov.symm
    rw [allocatedIn, List.foldl_append, List.foldl_cons, List.foldl_nil, ← allocatedIn,
      allocmapInsert, insertDesc, hins]
    exact congrArg (· ++ [x]) (ih hvalid' hpair)

theorem exists_verdictAfter (hd : d ∈ blocks.list) (htouches : span.Touches d.mallocDesc)
    (adesc : MallocDescEx) : ∃ order, order.Perm blocks.list ∧
      verdictAfter SearchTree.byAge order adesc span = verdictOn d.mallocDesc span := by
  have hperm : (d :: blocks.list.erase d).Perm blocks.list := (List.perm_cons_erase hd).symm
  obtain ⟨hblocks, hmem⟩ := blocks.entries SearchTree.byAge hperm
  have hpair : (d :: blocks.list.erase d).Pairwise fun a b => ¬Overlaps a b := by
    refine (hperm.pairwise_iff fun {a b} h hov => h hov.symm).mpr ?_
    refine blocks.disjoint.imp_of_mem fun {a b} ha hb hno hov => hno ?_
    exact ((blocks.valid b hb).overlaps_iff (blocks.valid a ha)).mp hov.symm
  have hages := ages_allocatedIn (fun d hd => blocks.valid d (hperm.subset hd)) hpair
  have hcmp := (cmp_rangeDesc_iff (blocks.valid d hd) adesc span).mpr htouches
  have hfind : allocmapFind SearchTree.byAge.toRangeTree
      (allocatedIn SearchTree.byAge (d :: blocks.list.erase d)) adesc span.addr span.size =
        some d := by
    change SearchTree.oldest _ _ = _
    rw [SearchTree.oldest, hages, List.find?_cons_of_pos]
    · rfl
    · exact decide_eq_true ⟨(hmem d).mpr hd, hcmp⟩
  refine ⟨_, hperm, ?_⟩
  rw [verdictAfter, memcheckCommonAccessValidation, hfind]
  rfl

end Found

section Decision

variable {blocks : BlockSet} {span : Span}

theorem Span.Inside.userAt {desc : MallocDesc} (h : span.Inside desc) :
    desc.UserAt span.addr.toNat := by
  have hpos : 0 < span.size.toNat := UInt32.lt_iff_toNat_lt.mp span.pos
  have hend := h.2
  rw [Span.stop] at hend
  exact ⟨h.1, by omega⟩

theorem MallocDesc.Valid.startsIn {desc : MallocDesc} (h : desc.Valid) {a : Nat}
    (ha : desc.UserAt a) : desc.StartsIn a := by
  have hend := h.userEnd_le.1
  obtain ⟨hstart, hlt⟩ := ha
  unfold MallocDesc.userStart at hstart
  exact ⟨by omega, by omega⟩

theorem MallocDesc.Valid.startsIn_last {desc : MallocDesc} (h : desc.Valid)
    (hlast : desc.userStart = 2 ^ 32) : desc.StartsIn (2 ^ 32 - 1) := by
  have hptr := desc.ptr.toNat_lt
  have hend := h.userEnd_le.1
  have hstart : desc.userStart ≤ desc.userEnd := Nat.le_add_right ..
  exact ⟨by omega, by omega⟩

theorem verdictOn_eq_zero_iff {desc : MallocDesc} (h : desc.Valid) :
    verdictOn desc span = 0 ↔ (desc.UserAt span.addr.toNat ↔ ¬span.Misjudged desc) := by
  rw [verdictOn_eq h]
  split_ifs with hiff
  · exact iff_of_true rfl hiff
  · exact iff_of_false (by decide) hiff

/-- What the verdict is to be, said of the blocks that may be found. -/
structure Agreed (blocks : BlockSet) (span : Span) : Prop where
  same : ∀ d ∈ blocks.list, ∀ d' ∈ blocks.list, span.Touches d.mallocDesc →
    span.Touches d'.mallocDesc → verdictOn d.mallocDesc span = verdictOn d'.mallocDesc span
  inside : ∀ d ∈ blocks.list, span.Inside d.mallocDesc → verdictOn d.mallocDesc span = 0
  outside : ∀ d ∈ blocks.list, d.mallocDesc.StartsIn span.addr.toNat →
    ¬d.mallocDesc.UserAt span.addr.toNat → verdictOn d.mallocDesc span = -1

theorem verdictRight_iff_agreed : VerdictRight blocks span ↔ Agreed blocks span := by
  constructor
  · intro h
    have hadesc : MallocDescEx := ⟨⟨0, 0, 0, 0, 0, 0, 0⟩, [], 0⟩
    constructor
    · intro d hd d' hd' htouches htouches'
      obtain ⟨order, hperm, hverdict⟩ := exists_verdictAfter hd htouches hadesc
      obtain ⟨order', hperm', hverdict'⟩ := exists_verdictAfter hd' htouches' hadesc
      rw [← hverdict, ← hverdict']
      exact h.orders SearchTree.byAge order order' hperm hperm' _ _
    · intro d hd hinside
      have htouches : span.Touches d.mallocDesc := .inl ((blocks.valid d hd).startsIn hinside.userAt)
      obtain ⟨order, hperm, hverdict⟩ := exists_verdictAfter hd htouches hadesc
      exact hverdict ▸ h.inside ⟨d, hd, hinside⟩ SearchTree.byAge order hperm _
    · intro d hd hstarts huser
      obtain ⟨order, hperm, hverdict⟩ := exists_verdictAfter hd (.inl hstarts) hadesc
      exact hverdict ▸ h.outside ⟨d, hd, hstarts, huser⟩ SearchTree.byAge order hperm _
  · intro h
    -- a block that the access touches settles what is returned
    have hdecides : ∀ d ∈ blocks.list, span.Touches d.mallocDesc → ∀ {τ : Type}
        (tree : SearchTree MallocDescEx τ) (order : List MallocDescEx), order.Perm blocks.list →
          ∀ adesc, verdictAfter tree order adesc span = verdictOn d.mallocDesc span := by
      intro d hd htouches τ tree order hperm adesc
      rcases verdictAfter_cases tree hperm adesc span with ⟨-, hnone⟩ | ⟨d', hd', htouches', hverdict⟩
      · exact absurd htouches (hnone d hd)
      · rw [hverdict]
        exact h.same d' hd' d hd htouches' htouches
    constructor
    · intro τ tree order order' hperm hperm' adesc adesc'
      rcases verdictAfter_cases tree hperm adesc span with ⟨hone, hnone⟩ | ⟨d, hd, htouches, hverdict⟩
      · rcases verdictAfter_cases tree hperm' adesc' span with ⟨hone', -⟩ | ⟨d, hd, htouches, -⟩
        · rw [hone, hone']
        · exact absurd htouches (hnone d hd)
      · rw [hverdict, hdecides d hd htouches tree order' hperm' adesc']
    · rintro ⟨d, hd, hinside⟩ τ tree order hperm adesc
      rw [hdecides d hd (.inl ((blocks.valid d hd).startsIn hinside.userAt)) tree order hperm adesc]
      exact h.inside d hd hinside
    · rintro ⟨d, hd, hstarts, huser⟩ τ tree order hperm adesc
      rw [hdecides d hd (.inl hstarts) tree order hperm adesc]
      exact h.outside d hd hstarts huser

theorem verdictOn_cases {desc : MallocDesc} (h : desc.Valid) (span : Span) :
    verdictOn desc span = 0 ∨ verdictOn desc span = -1 := by
  rw [verdictOn_eq h]
  split_ifs
  · exact .inl rfl
  · exact .inr rfl

theorem Agreed.zero_of_zero (h : Agreed blocks span) {d d' : MallocDescEx} (hd : d ∈ blocks.list)
    (hd' : d' ∈ blocks.list) (htouches : span.Touches d.mallocDesc)
    (htouches' : span.Touches d'.mallocDesc) (hzero : verdictOn d.mallocDesc span = 0) :
    verdictOn d'.mallocDesc span = 0 := h.same d' hd' d hd htouches' htouches ▸ hzero

theorem Agreed.not_misjudged (h : Agreed blocks span) {d : MallocDescEx} (hd : d ∈ blocks.list)
    (hstarts : d.mallocDesc.StartsIn span.addr.toNat) : ¬span.Misjudged d.mallocDesc := by
  intro hmis
  have hvalid := blocks.valid d hd
  by_cases huser : d.mallocDesc.UserAt span.addr.toNat
  · have haddr := span.addr.toNat_lt
    have hinside : span.Inside d.mallocDesc := by
      unfold Span.Misjudged MallocDesc.UserAt at *
      exact ⟨huser.1, by omega⟩
    exact ((verdictOn_eq_zero_iff hvalid).mp (h.inside d hd hinside)).mp huser hmis
  · have hminus := h.outside d hd hstarts huser
    have hzero : verdictOn d.mallocDesc span = 0 :=
      (verdictOn_eq_zero_iff hvalid).mpr (iff_of_false huser (not_not_intro hmis))
    rw [hminus] at hzero
    cases hzero

theorem Span.Misjudged.last {desc : MallocDesc} (h : span.Misjudged desc)
    (htouches : span.Touches desc) (hstarts : ¬desc.StartsIn span.addr.toNat) :
    desc.userStart = 2 ^ 32 ∧ span.addr.toNat < desc.ptr.toNat ∧ span.stop = 2 ^ 32 := by
  have hstart : desc.ptr.toNat ≤ desc.userStart := Nat.le_add_right ..
  have hend : desc.userStart ≤ desc.userEnd := Nat.le_add_right ..
  obtain ⟨hle, hinter⟩ := htouches.resolve_left hstarts
  unfold Span.Misjudged at h
  unfold MallocDesc.Intersects at hinter
  unfold MallocDesc.StartsIn at hstarts
  omega

theorem Agreed.decides (h : Agreed blocks span) :
    OneDecides blocks span ∨ AllPrefixLast blocks span := by
  by_cases hmis : ∃ d ∈ blocks.list, span.Touches d.mallocDesc ∧ span.Misjudged d.mallocDesc
  · obtain ⟨d, hd, htouches, hmis⟩ := hmis
    have hstarts : ¬d.mallocDesc.StartsIn span.addr.toNat :=
      fun hstarts => h.not_misjudged hd hstarts hmis
    obtain ⟨hlast, hbefore, hstop⟩ := hmis.last htouches hstarts
    refine .inr ⟨d, hd, hlast, hbefore, hstop, fun d' hd' htouches' => ?_⟩
    have huser : ¬d.mallocDesc.UserAt span.addr.toNat :=
      fun huser => hstarts ((blocks.valid d hd).startsIn huser)
    have hzero := h.zero_of_zero hd hd' htouches htouches'
      ((verdictOn_eq_zero_iff (blocks.valid d hd)).mpr (iff_of_false huser (not_not_intro hmis)))
    rw [verdictOn_eq_zero_iff (blocks.valid d' hd')] at hzero
    by_cases hstarts' : d'.mallocDesc.StartsIn span.addr.toNat
    · exact .inr (hzero.mpr (h.not_misjudged hd' hstarts'))
    · have huser' : ¬d'.mallocDesc.UserAt span.addr.toNat :=
        fun huser' => hstarts' ((blocks.valid d' hd').startsIn huser')
      have hmis' := not_not.mp (mt hzero.mpr huser')
      exact .inl (blocks.eq_of_startsIn hd' hd
        ((blocks.valid d' hd').startsIn_last (hmis'.last htouches' hstarts').1)
        ((blocks.valid d hd).startsIn_last hlast))
  · push Not at hmis
    refine .inl ⟨hmis, fun d hd huser d' hd' htouches' => ?_⟩
    have hstarts := (blocks.valid d hd).startsIn huser
    have hzero := h.zero_of_zero hd hd' (.inl hstarts) htouches'
      ((verdictOn_eq_zero_iff (blocks.valid d hd)).mpr
        (iff_of_true huser (hmis d hd (.inl hstarts))))
    have huser' := ((verdictOn_eq_zero_iff (blocks.valid d' hd')).mp hzero).mpr
      (hmis d' hd' htouches')
    exact blocks.eq_of_startsIn hd' hd ((blocks.valid d' hd').startsIn huser') hstarts

theorem OneDecides.agreed (h : OneDecides blocks span) : Agreed blocks span := by
  obtain ⟨hmis, hone⟩ := h
  have hverdict : ∀ d ∈ blocks.list, span.Touches d.mallocDesc →
      (verdictOn d.mallocDesc span = 0 ↔ d.mallocDesc.UserAt span.addr.toNat) := by
    intro d hd htouches
    rw [verdictOn_eq_zero_iff (blocks.valid d hd)]
    exact iff_true_right (hmis d hd htouches)
  have hminus : ∀ d ∈ blocks.list, span.Touches d.mallocDesc →
      ¬d.mallocDesc.UserAt span.addr.toNat → verdictOn d.mallocDesc span = -1 :=
    fun d hd htouches huser => (verdictOn_cases (blocks.valid d hd) span).resolve_left
      fun hzero => huser ((hverdict d hd htouches).mp hzero)
  constructor
  · intro d hd d' hd' htouches htouches'
    by_cases huser : ∃ e ∈ blocks.list, e.mallocDesc.UserAt span.addr.toNat
    · obtain ⟨e, he, huser⟩ := huser
      rw [hone e he huser d hd htouches, hone e he huser d' hd' htouches']
    · push Not at huser
      rw [hminus d hd htouches (huser d hd), hminus d' hd' htouches' (huser d' hd')]
  · intro d hd hinside
    have htouches : span.Touches d.mallocDesc := .inl ((blocks.valid d hd).startsIn hinside.userAt)
    exact (hverdict d hd htouches).mpr hinside.userAt
  · exact fun d hd hstarts huser => hminus d hd (.inl hstarts) huser

theorem AllPrefixLast.agreed (h : AllPrefixLast blocks span) : Agreed blocks span := by
  obtain ⟨d, hd, hlast, hbefore, hstop, hothers⟩ := h
  have hzero : ∀ e ∈ blocks.list, span.Touches e.mallocDesc → verdictOn e.mallocDesc span = 0 := by
    intro e he htouches
    rw [verdictOn_eq_zero_iff (blocks.valid e he)]
    rcases hothers e he htouches with rfl | huser
    · have huser : ¬e.mallocDesc.UserAt span.addr.toNat := fun huser =>
        absurd ((blocks.valid e he).startsIn huser).1 (Nat.not_le.mpr hbefore)
      exact iff_of_false huser (not_not_intro (.inr ⟨hstop.ge, .inr hlast⟩))
    · refine iff_of_true huser fun hmis => ?_
      have haddr := span.addr.toNat_lt
      unfold Span.Misjudged at hmis
      unfold MallocDesc.UserAt at huser
      omega
  constructor
  · intro e he e' he' htouches htouches'
    rw [hzero e he htouches, hzero e' he' htouches']
  · exact fun e he hinside =>
      hzero e he (.inl ((blocks.valid e he).startsIn hinside.userAt))
  · intro e he hstarts huser
    rcases hothers e he (.inl hstarts) with rfl | huser'
    · exact absurd hstarts.1 (Nat.not_le.mpr hbefore)
    · exact absurd huser' huser

/-- The verdict does not depend on the order exactly if one block decides, or the block that is
reached with the last address is all prefix. -/
theorem verdictRight_iff (blocks : BlockSet) (span : Span) :
    VerdictRight blocks span ↔ OneDecides blocks span ∨ AllPrefixLast blocks span := by
  rw [verdictRight_iff_agreed]
  exact ⟨Agreed.decides, fun h => h.elim OneDecides.agreed AllPrefixLast.agreed⟩

def sixteenAt (ptr : UInt32) : MallocDescEx := ⟨⟨ptr, 16, 0, 0, 5, 5, 0⟩, [], 0⟩

/-- Two blocks, one behind the other. -/
def neighbours : BlockSet where
  list := [sixteenAt 0x1000, sixteenAt 0x1010]
  valid := by
    intro d hd
    rcases List.mem_pair.mp hd with rfl | rfl
    · exact ⟨by decide, by decide⟩
    · exact ⟨by decide, by decide⟩
  disjoint := by decide

/-- Four bytes, the last two of one block and the first two of the other. -/
def acrossNeighbours : Span := ⟨0x100e, 4, by decide⟩

theorem not_verdictRight_neighbours : ¬VerdictRight neighbours acrossNeighbours := by
  intro h
  have hsame := (verdictRight_iff_agreed.mp h).same (sixteenAt 0x1000)
    (List.mem_cons_self ..) (sixteenAt 0x1010) (List.mem_cons_of_mem _ (List.mem_singleton_self _))
    (.inl ⟨by decide, by decide⟩) (.inr ⟨by decide, by decide⟩)
  exact absurd hsame (by decide)

end Decision

end M2M.Memcheck
