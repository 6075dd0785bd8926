import M2M.Memcheck.Replacing
import M2M.Memcheck.Softmmu

/-! The pages with blocks stay out of the TLB along the runs in which no access is one that the
checker is content with, and no allocation one that it does not follow. -/

open M2M.Lib M2M.Lib.Ranged

namespace M2M.Memcheck

section Pages

variable {τ : Type} {tree : RangeTree MallocDescEx τ} {map : τ} {adesc : MallocDescEx}
  {tlb : Tlb} {access access' : Access} {a b addr : UInt32}

theorem Tlb.Plain.redo (h : tlb.Plain) (access : Access) (a : UInt32) :
    (redo tree map adesc tlb access a).Plain := by
  rw [Memcheck.redo]
  split
  · exact h
  · exact h.tlbFill a _

theorem Tlb.Plain.hit_redo (h : tlb.Plain) :
    (Memcheck.redo tree map adesc tlb access a).Hit access' b ↔
    pageOf b = pageOf a ∨ tlbIndex b ≠ tlbIndex a ∧ tlb.Hit access' b := by
  rw [Memcheck.redo]
  split
  · next hit =>
    have hpage := h.hit_iff.mp hit
    constructor
    · intro hb
      by_cases hindex : tlbIndex b = tlbIndex a
      · rw [h.hit_iff, hindex, hpage] at hb
        exact .inl hb.symm
      · exact .inr ⟨hindex, hb⟩
    · rintro (hb | ⟨-, hb⟩)
      · rw [h.hit_iff, tlbIndex_of_pageOf hb, hpage, hb]
      · exact hb
  · exact hit_tlbFill

variable (tree map adesc access) in
/-- The helpers bring in the pages of a list of addresses, none of which takes the place of
another. -/
theorem Tlb.Plain.foldl_redo {l : List UInt32} (h : tlb.Plain)
    (hpages : ∀ x ∈ l, ∀ y ∈ l, tlbIndex x = tlbIndex y → pageOf x = pageOf y) :
    (l.foldl (fun tlb a => Memcheck.redo tree map adesc tlb access a) tlb).Plain ∧
      ∀ access' b,
        (l.foldl (fun tlb a => Memcheck.redo tree map adesc tlb access a) tlb).Hit access' b ↔
          (∃ x ∈ l, pageOf b = pageOf x) ∨
            (∀ x ∈ l, tlbIndex b ≠ tlbIndex x) ∧ tlb.Hit access' b := by
  induction l generalizing tlb with
  | nil => exact ⟨h, fun access' b => by simp⟩
  | cons x l ih =>
    rw [List.foldl_cons]
    obtain ⟨hplain, hhit⟩ := ih (h.redo access x)
      fun y hy z hz => hpages y (List.mem_cons_of_mem x hy) z (List.mem_cons_of_mem x hz)
    refine ⟨hplain, fun access' b => ?_⟩
    rw [hhit, h.hit_redo]
    have hsame : pageOf b = pageOf x → (∃ y ∈ l, pageOf b = pageOf y) ∨
        ∀ y ∈ l, tlbIndex b ≠ tlbIndex y := by
      intro hb
      by_cases hy : ∃ y ∈ l, tlbIndex b = tlbIndex y
      · obtain ⟨y, hy, hindex⟩ := hy
        have hxy := hpages x List.mem_cons_self y (List.mem_cons_of_mem x hy)
          ((tlbIndex_of_pageOf hb).symm.trans hindex)
        exact .inl ⟨y, hy, hb.trans hxy⟩
      · exact .inr fun y hmem hindex => hy ⟨y, hmem, hindex⟩
    simp only [List.mem_cons, exists_eq_or_imp, forall_eq_or_imp]
    by_cases hb : pageOf b = pageOf x
    · refine iff_of_true ?_ (.inl (.inl hb))
      exact (hsame hb).imp_right fun hnone => ⟨hnone, .inl hb⟩
    · rw [or_iff_right hb, or_iff_right hb, and_assoc, and_left_comm]

end Pages

section Crossing

variable {access : Access} {addr x : UInt32} {size : DataSize}

theorem DataSize.toNat_bytes (size : DataSize) : size.bytes.toNat = 1 ∨ size.bytes.toNat = 2 ∨
    size.bytes.toNat = 4 ∨ size.bytes.toNat = 8 := by
  cases size <;> decide

theorem crosses_iff : Crosses addr size.bytes ↔ 1024 < addr.toNat % 1024 + size.bytes.toNat := by
  have hlow : (addr &&& ~~~targetPageMask).toNat = addr.toNat % 1024 := by
    rw [UInt32.toNat_and]
    exact Nat.and_two_pow_sub_one_eq_mod addr.toNat 10
  have hsize := size.toNat_bytes
  rw [Crosses, ge_iff_le, UInt32.le_iff_toNat_le, UInt32.toNat_sub, UInt32.toNat_add, hlow]
  change 1024 ≤ (2 ^ 32 - 1 + (addr.toNat % 1024 + size.bytes.toNat) % 2 ^ 32) % 2 ^ 32 ↔ _
  omega

theorem toNat_aligned (addr : UInt32) (size : DataSize) :
    (addr &&& ~~~(size.bytes - 1)).toNat =
      addr.toNat / size.bytes.toNat * size.bytes.toNat := by
  cases size with
  | b => exact toNat_and_mask (n := 0) (by decide) (by decide) addr
  | w => exact toNat_and_mask (n := 1) (by decide) (by decide) addr
  | l => exact toNat_and_mask (n := 2) (by decide) (by decide) addr
  | q => exact toNat_and_mask (n := 3) (by decide) (by decide) addr

theorem aligned_add_size (hcross : Crosses addr size.bytes) :
    (addr &&& ~~~(size.bytes - 1)).toNat + size.bytes.toNat = (addr.toNat / 1024 + 1) * 1024 := by
  rw [crosses_iff] at hcross
  rw [toNat_aligned]
  rcases size.toNat_bytes with h | h | h | h <;> rw [h] at hcross ⊢ <;> omega

theorem page_of_mem_slowAddrs (hcross : Crosses addr size.bytes)
    (hend : addr.toNat + size.bytes.toNat ≤ 2 ^ 32) (hx : x ∈ slowAddrs access addr size.bytes) :
    x.toNat / 1024 = addr.toNat / 1024 ∨ x.toNat / 1024 = addr.toNat / 1024 + 1 := by
  have haligned := aligned_add_size hcross
  have hsize := size.toNat_bytes
  rw [crosses_iff] at hcross
  cases access with
  | load =>
    rcases List.mem_cons.mp hx with rfl | hx
    · omega
    · rw [List.mem_singleton.mp hx, UInt32.toNat_add]
      omega
  | store =>
    obtain ⟨i, hi, rfl⟩ := List.mem_map.mp hx
    have hlt := List.mem_range.mp (List.mem_reverse.mp hi)
    rw [UInt32.toNat_add, UInt32.toNat_ofNat']
    omega

theorem exists_mem_slowAddrs (access : Access) (hcross : Crosses addr size.bytes)
    (hend : addr.toNat + size.bytes.toNat ≤ 2 ^ 32 - 1024) :
    ∃ x ∈ slowAddrs access addr size.bytes, x.toNat / 1024 = addr.toNat / 1024 + 1 := by
  have haligned := aligned_add_size hcross
  have hsize := size.toNat_bytes
  rw [crosses_iff] at hcross
  cases access with
  | load =>
    refine ⟨_, List.mem_cons_of_mem _ (List.mem_singleton_self _), ?_⟩
    rw [UInt32.toNat_add]
    omega
  | store =>
    refine ⟨addr + UInt32.ofNat (size.bytes.toNat - 1), ?_, ?_⟩
    · refine List.mem_map.mpr ⟨size.bytes.toNat - 1, ?_, rfl⟩
      rw [List.mem_reverse, List.mem_range]
      omega
    · rw [UInt32.toNat_add, UInt32.toNat_ofNat']
      omega

end Crossing

section Accesses

variable {τ : Type} {tree : RangeTree MallocDescEx τ} {map : τ} {adesc : MallocDescEx}
  {tlb : Tlb} {access : Access} {addr : UInt32} {size : DataSize}

/-- What the helpers bring in for an access to two pages. -/
structure TwoPages (tlb tlb' : Tlb) (addr : UInt32) : Prop where
  plain : tlb'.Plain
  first : ∀ access, tlb'.Hit access addr
  second : ∃ x : UInt32, x.toNat / 1024 = addr.toNat / 1024 + 1 ∧ ∀ access, tlb'.Hit access x
  kept : ∀ access b, tlb'.Hit access b → b.toNat / 1024 = addr.toNat / 1024 ∨
    b.toNat / 1024 = addr.toNat / 1024 + 1 ∨ tlb.Hit access b

theorem TwoPages.invalidate {tlb' : Tlb} (h : TwoPages tlb tlb' addr)
    (hindex : tlbIndex addr ≠ cpuTlbSize - 1) :
    ((tlb'.invalidateAt (tlbIndex addr)).invalidateAt (tlbIndex addr + 1)).Plain ∧
      ∀ access b,
        ((tlb'.invalidateAt (tlbIndex addr)).invalidateAt (tlbIndex addr + 1)).Hit access b →
        tlb.Hit access b := by
  obtain ⟨x, hx, hsecond⟩ := h.second
  have hfirst := h.first .load
  have hlt : addr.toNat / 1024 % 256 < 255 := by
    rw [Ne, ← UInt32.toNat_inj, toNat_tlbIndex] at hindex
    change _ ≠ 255 at hindex
    omega
  have hnext : tlbIndex addr + 1 = tlbIndex x := by
    rw [← UInt32.toNat_inj, UInt32.toNat_add, toNat_tlbIndex, toNat_tlbIndex, UInt32.toNat_one]
    omega
  have hne : tlbIndex x ≠ tlbIndex addr := by
    rw [Ne, tlbIndex_eq_iff]
    omega
  have hplain := h.plain.invalidateAt hfirst
  have hhit := (h.plain.hit_invalidateAt hfirst).mpr ⟨hne, hsecond .load⟩
  rw [hnext]
  refine ⟨hplain.invalidateAt hhit, fun access b hb => ?_⟩
  obtain ⟨hneX, hb⟩ := (hplain.hit_invalidateAt hhit).mp hb
  obtain ⟨hneAddr, hb⟩ := (h.plain.hit_invalidateAt hfirst).mp hb
  rw [Ne, tlbIndex_eq_iff] at hneX hneAddr
  rcases h.kept access b hb with hpage | hpage | hold
  · omega
  · omega
  · exact hold

theorem Tlb.Plain.slowAccess (h : tlb.Plain) (hcross : Crosses addr size.bytes)
    (hend : addr.toNat + size.bytes.toNat ≤ 2 ^ 32 - 1024) :
    TwoPages tlb (slowAccess tree map adesc (Memcheck.redo tree map adesc tlb access addr)
      access addr size.bytes) addr := by
  have hpages : ∀ x ∈ slowAddrs access addr size.bytes,
      x.toNat / 1024 = addr.toNat / 1024 ∨ x.toNat / 1024 = addr.toNat / 1024 + 1 :=
    fun x hx => page_of_mem_slowAddrs hcross (by omega) hx
  have hsame : ∀ x ∈ slowAddrs access addr size.bytes, ∀ y ∈ slowAddrs access addr size.bytes,
      tlbIndex x = tlbIndex y → pageOf x = pageOf y := by
    intro x hx y hy hindex
    have hx := hpages x hx
    have hy := hpages y hy
    rw [tlbIndex_eq_iff] at hindex
    rw [pageOf_eq_iff]
    omega
  have hredo : (Memcheck.redo tree map adesc tlb access addr).Plain := h.redo access addr
  obtain ⟨hplain, hhit⟩ := hredo.foldl_redo tree map adesc access hsame
  obtain ⟨x, hx, hnext⟩ := exists_mem_slowAddrs access hcross hend
  refine ⟨hplain, fun access' => ?_, ⟨x, hnext, fun access' => ?_⟩, fun access' b hb => ?_⟩
  · rw [Memcheck.slowAccess, hhit, h.hit_redo]
    by_cases hfirst : ∃ y ∈ slowAddrs access addr size.bytes, tlbIndex addr = tlbIndex y
    · obtain ⟨y, hy, hindex⟩ := hfirst
      have hpage := hpages y hy
      refine .inl ⟨y, hy, ?_⟩
      rw [tlbIndex_eq_iff] at hindex
      rw [pageOf_eq_iff]
      omega
    · exact .inr ⟨fun y hy hindex => hfirst ⟨y, hy, hindex⟩, .inl rfl⟩
  · exact (hhit access' x).mpr (.inl ⟨x, hx, rfl⟩)
  · rcases (hhit access' b).mp hb with ⟨y, hy, hpage⟩ | ⟨-, hb⟩
    · rw [pageOf_eq_iff] at hpage
      have hy := hpages y hy
      omega
    · rcases h.hit_redo.mp hb with hpage | ⟨-, hb⟩
      · exact .inl (pageOf_eq_iff.mp hpage)
      · exact .inr (.inr hb)

theorem containsAllocs_iff (h : Blocks (tree.entries map))
    (hend : addr.toNat + size.bytes.toNat ≤ 2 ^ 32 - 1024) :
    procdescContainsAllocs tree map adesc addr size.bytes = true ↔
      ∃ e ∈ tree.entries map, e.mallocDesc.Intersects (addr.toNat / 1024 * 1024)
        ((addr.toNat + size.bytes.toNat - 1) / 1024 * 1024 - addr.toNat / 1024 * 1024 + 1025) := by
  have hsize := size.toNat_bytes
  have hlast : (addr + size.bytes - 1).toNat = addr.toNat + size.bytes.toNat - 1 := by
    rw [UInt32.toNat_sub, UInt32.toNat_add, UInt32.toNat_one]
    omega
  have hbuf : (pageOf (addr + size.bytes - 1) - pageOf addr + targetPageSize + 1).toNat =
      (addr.toNat + size.bytes.toNat - 1) / 1024 * 1024 - addr.toNat / 1024 * 1024 + 1025 := by
    rw [UInt32.toNat_add, UInt32.toNat_add, UInt32.toNat_sub, toNat_pageOf, toNat_pageOf, hlast,
      UInt32.toNat_one]
    change (((2 ^ 32 - addr.toNat / 1024 * 1024 +
      (addr.toNat + size.bytes.toNat - 1) / 1024 * 1024) % 2 ^ 32 + 1024) % 2 ^ 32 + 1) % 2 ^ 32 = _
    omega
  have hfinds := h.mapRight.finds adesc (pageOf addr)
    (pageOf (addr + size.bytes - 1) - pageOf addr + targetPageSize + 1)
    (by rw [UInt32.lt_iff_toNat_lt, hbuf]; exact Nat.succ_pos _)
    (by rw [hbuf, toNat_pageOf]; omega)
  rw [hbuf, toNat_pageOf] at hfinds
  rw [procdescContainsAllocs]
  split at hfinds
  · next e hfind =>
    rw [hfind]
    exact iff_of_true rfl ⟨e, hfinds⟩
  · next hfind =>
    rw [hfind]
    exact iff_of_false Bool.false_ne_true fun ⟨e, he, hov⟩ => hfinds e he hov

theorem lt_page_of_containsAllocs (h : Blocks (tree.entries map))
    (hend : addr.toNat + size.bytes.toNat ≤ 2 ^ 32 - 1024)
    (hnone : procdescContainsAllocs tree map adesc addr size.bytes = false)
    {e : MallocDescEx} (he : e ∈ tree.entries map) {a : UInt32}
    (ha : e.mallocDesc.Intersects a.toNat 1) (hle : addr.toNat / 1024 ≤ a.toNat / 1024) :
    (addr.toNat + size.bytes.toNat - 1) / 1024 < a.toNat / 1024 := by
  by_contra hlast
  have hsize := size.toNat_bytes
  rw [Bool.eq_false_iff, Ne, containsAllocs_iff h hend] at hnone
  refine hnone ⟨e, he, ?_⟩
  unfold MallocDesc.Intersects at ha ⊢
  omega

theorem containsAllocs_of_intersects (h : Blocks (tree.entries map))
    (hend : addr.toNat + size.bytes.toNat ≤ 2 ^ 32 - 1024) {e : MallocDescEx}
    (he : e ∈ tree.entries map) (htouch : e.mallocDesc.Intersects addr.toNat size.bytes.toNat) :
    procdescContainsAllocs tree map adesc addr size.bytes = true := by
  have hsize := size.toNat_bytes
  refine (containsAllocs_iff h hend).mpr ⟨e, he, ?_⟩
  unfold MallocDesc.Intersects at htouch ⊢
  omega

theorem exists_intersects_of_violation (h : Blocks (tree.entries map))
    (hend : addr.toNat + size.bytes.toNat ≤ 2 ^ 32)
    (hviolation : memcheckCommonAccessValidation tree map adesc addr size.bytes = -1) :
    ∃ e ∈ tree.entries map, e.mallocDesc.Intersects addr.toNat size.bytes.toNat := by
  have hpos : 0 < size.bytes := by cases size <;> decide
  have hfinds := h.mapRight.finds adesc addr size.bytes hpos hend
  rw [memcheckCommonAccessValidation] at hviolation
  split at hfinds
  · next e hfind => exact ⟨e, hfinds⟩
  · next hfind =>
    rw [hfind] at hviolation
    cases hviolation

theorem Tlb.Plain.mmuAccess (h : tlb.Plain) :
    mmuAccess tree map adesc tlb access addr size.bytes =
      let tlb' := Memcheck.redo tree map adesc tlb access addr
      (if Crosses addr size.bytes then
        let slow := Memcheck.slowAccess tree map adesc tlb' access addr size.bytes
        if memcheckValidate tree map adesc addr size.bytes then
          (slow.invalidateAt (tlbIndex addr)).invalidateAt (tlbIndex addr + 1)
        else slow
      else if memcheckValidate tree map adesc addr size.bytes then
        tlb'.invalidateAt (tlbIndex addr)
      else tlb', true) := by
  have hplain : (Memcheck.redo tree map adesc tlb access addr).Plain := h.redo access addr
  have hhit : (Memcheck.redo tree map adesc tlb access addr).Hit access addr :=
    h.hit_redo.mpr (.inl rfl)
  have hio : (Memcheck.redo tree map adesc tlb access addr (tlbIndex addr)).addr access &&&
      ~~~targetPageMask = 0 := by
    rw [hplain.addr_eq, hplain.hit_iff.mp hhit, pageOf, UInt32.and_assoc]
    exact UInt32.and_zero
  rw [Memcheck.mmuAccess]
  simp only [hio, ne_eq, not_true_eq_false, if_false, if_pos (tlbIndex_lt addr)]
  split
  · split <;> rfl
  · split <;> rfl

theorem containsAllocs_of_validate (h : Blocks (tree.entries map))
    (hend : addr.toNat + size.bytes.toNat ≤ 2 ^ 32 - 1024)
    (hvalidate : memcheckValidate tree map adesc addr size.bytes = true) :
    procdescContainsAllocs tree map adesc addr size.bytes = true := by
  rw [memcheckValidate] at hvalidate
  by_cases hviolation : memcheckCommonAccessValidation tree map adesc addr size.bytes = -1
  · obtain ⟨e, he, htouch⟩ := exists_intersects_of_violation h (by omega) hviolation
    exact containsAllocs_of_intersects h hend he htouch
  · simp only [if_neg hviolation] at hvalidate
    split at hvalidate
    · exact hvalidate
    · cases hvalidate

theorem containsAllocs_of_not_validate
    (hcontent : memcheckCommonAccessValidation tree map adesc addr size.bytes ≠ 0)
    (hvalidate : memcheckValidate tree map adesc addr size.bytes = false) :
    procdescContainsAllocs tree map adesc addr size.bytes = false := by
  rw [memcheckValidate] at hvalidate
  simp only [if_pos hcontent] at hvalidate
  split at hvalidate
  · cases hvalidate
  · exact hvalidate

theorem Tlb.Plain.unmatched_mmuAccess (h : tlb.Plain) (hblocks : Blocks (tree.entries map))
    (hend : addr.toNat + size.bytes.toNat ≤ 2 ^ 32 - 1024)
    (hcontent : memcheckCommonAccessValidation tree map adesc addr size.bytes ≠ 0)
    (hlast : Crosses addr size.bytes → tlbIndex addr = cpuTlbSize - 1 →
      procdescContainsAllocs tree map adesc addr size.bytes = false) :
    (Memcheck.mmuAccess tree map adesc tlb access addr size.bytes).1.Plain ∧
      ∀ e ∈ tree.entries map, ∀ a : UInt32, e.mallocDesc.Intersects a.toNat 1 → ∀ access',
        (Memcheck.mmuAccess tree map adesc tlb access addr size.bytes).1.Hit access' a →
          tlb.Hit access' a := by
  have hsize := size.toNat_bytes
  have hplain : (Memcheck.redo tree map adesc tlb access addr).Plain := h.redo access addr
  rw [h.mmuAccess]
  dsimp only
  by_cases hcross : Crosses addr size.bytes
  · rw [if_pos hcross]
    have htwo : TwoPages tlb (Memcheck.slowAccess tree map adesc
      (Memcheck.redo tree map adesc tlb access addr) access addr size.bytes) addr :=
      h.slowAccess hcross hend
    have hpages := crosses_iff.mp hcross
    cases hvalidate : memcheckValidate tree map adesc addr size.bytes with
    | true =>
      have hindex : tlbIndex addr ≠ cpuTlbSize - 1 := fun hindex => by
        have hsome := containsAllocs_of_validate hblocks hend hvalidate
        rw [hlast hcross hindex] at hsome
        cases hsome
      obtain ⟨hplain', hold⟩ := htwo.invalidate hindex
      exact ⟨hplain', fun e he a ha access' hit => hold access' a hit⟩
    | false =>
      have hnone := containsAllocs_of_not_validate hcontent hvalidate
      refine ⟨htwo.plain, fun e he a ha access' hit => ?_⟩
      have hpage := lt_page_of_containsAllocs hblocks hend hnone he ha
      rcases htwo.kept access' a hit with hfirst | hsecond | hold
      · omega
      · omega
      · exact hold
  · rw [if_neg hcross]
    rw [crosses_iff] at hcross
    cases hvalidate : memcheckValidate tree map adesc addr size.bytes with
    | true =>
      have hhit : (Memcheck.redo tree map adesc tlb access addr).Hit access addr :=
        h.hit_redo.mpr (.inl rfl)
      refine ⟨hplain.invalidateAt hhit, fun e he a ha access' hit => ?_⟩
      obtain ⟨hne, hit⟩ := (hplain.hit_invalidateAt hhit).mp hit
      rcases h.hit_redo.mp hit with hpage | ⟨-, hold⟩
      · exact absurd (tlbIndex_of_pageOf hpage) hne
      · exact hold
    | false =>
      have hnone := containsAllocs_of_not_validate hcontent hvalidate
      refine ⟨hplain, fun e he a ha access' hit => ?_⟩
      have hpage := lt_page_of_containsAllocs hblocks hend hnone he ha
      rcases h.hit_redo.mp hit with hfirst | ⟨-, hold⟩
      · rw [pageOf_eq_iff] at hfirst
        omega
      · exact hold

end Accesses

section Runs

variable {τ : Type} {tree : RangeTree MallocDescEx τ} {s : Surveillance τ}

/-- What the events keep that fit. -/
structure Guarded (tree : RangeTree MallocDescEx τ) (s : Surveillance τ) : Prop where
  blocks : Blocks (tree.entries s.allocMap)
  plain : s.tlb.Plain
  unmatched : ∀ e ∈ tree.entries s.allocMap, ∀ a : UInt32, e.mallocDesc.Intersects a.toNat 1 →
    ∀ access, ¬s.tlb.Hit access a

theorem Guarded.empty : Guarded tree ⟨emptyTlb, tree.empty⟩ :=
  ⟨Blocks.empty, plain_emptyTlb, fun _ _ _ _ _ => not_hit_emptyTlb⟩

theorem Guarded.alloc (h : Guarded tree s) (block : Block) (hfits : AllocFits tree s block) :
    Guarded tree (memcheckGuestAlloc tree s block.desc) := by
  have hblocks := h.blocks.insertDesc block.valid true
  have hov : ∀ e ∈ tree.entries s.allocMap, Overlaps block.desc e ↔
      e.mallocDesc.Intersects block.desc.mallocDesc.ptr.toNat block.desc.mallocDesc.total :=
    fun e he => block.valid.overlaps_iff (h.blocks.valid e he)
  rw [memcheckGuestAlloc, allocmapInsert]
  by_cases hfree : ∀ e ∈ tree.entries s.allocMap, ¬Overlaps block.desc e
  · obtain ⟨hresult, -, hmem⟩ := insertDesc_of_free h.blocks.apart block.valid.proper hfree true
    obtain ⟨hplain, hhit⟩ := h.plain.invalidateTlbCache block.desc.mallocDesc.ptr
      block.desc.mallocDesc.getAllocEnd
    rw [hresult]
    refine ⟨hblocks, hplain, fun e he a ha access hit => ?_⟩
    obtain ⟨hit, hpassed⟩ := hhit access a hit
    rcases (hmem e).mp he with rfl | he
    · have hle : block.desc.mallocDesc.ptr ≤ a :=
        UInt32.le_iff_toNat_le.mpr (Nat.lt_succ_iff.mp ha.1)
      rcases hfits a access ha hit with ⟨e, he, -, -, -, hov', -⟩ | ⟨-, hreached⟩
      · exact hfree e he ((hov e he).mpr hov')
      · exact Nat.not_le.mpr (hpassed hle) hreached
    · exact h.unmatched e he a ha access hit
  · obtain ⟨e, he, hove, hresult, -, -, hmem⟩ :=
      insertDesc_replace h.blocks.apart block.valid.proper (by simpa using hfree)
    rw [hresult]
    refine ⟨hblocks, h.plain, fun x hx a ha access hit => ?_⟩
    rcases (hmem x).mp hx with ⟨hone, rfl⟩ | ⟨-, hx⟩
    · rcases hfits a access ha hit with ⟨y, hy, z, hz, hne, hovy, hovz⟩ | ⟨hnone, -⟩
      · exact hne ((hone y hy ((hov y hy).mpr hovy)).trans (hone z hz ((hov z hz).mpr hovz)).symm)
      · exact hnone e he ((hov e he).mp hove)
    · exact h.unmatched x hx a ha access hit

theorem Guarded.free (h : Guarded tree s) (adesc : MallocDescEx) (ptr : UInt32) :
    Guarded tree (memcheckGuestFree tree s adesc ptr) := by
  rw [memcheckGuestFree]
  cases hpull : allocmapPull tree s.allocMap adesc ptr with
  | none => exact h
  | some out =>
    obtain ⟨-, -, hapart, hmem⟩ := pull_eq_some h.blocks.apart (valid_byte adesc ptr).proper hpull
    exact ⟨⟨hapart, fun x hx => h.blocks.valid x ((hmem x).mp hx).2⟩, h.plain,
      fun x hx => h.unmatched x ((hmem x).mp hx).2⟩

theorem Guarded.access (h : Guarded tree s) (adesc : MallocDescEx) (access : Access)
    (addr : UInt32) (size : DataSize) (hfits : AccessFits tree s adesc access addr size.bytes) :
    Guarded tree
      { s with tlb := (guestAccess tree s.allocMap adesc s.tlb access addr size.bytes).1 } := by
  rw [guestAccess]
  split
  · exact h
  · next hslow =>
    obtain ⟨hcontent, hend, hlast⟩ := hfits.resolve_left hslow
    obtain ⟨hplain, hold⟩ := h.plain.unmatched_mmuAccess h.blocks hend hcontent hlast
    exact ⟨h.blocks, hplain,
      fun e he a ha access' hit => h.unmatched e he a ha access' (hold e he a ha access' hit)⟩

theorem Guarded.step (h : Guarded tree s) (event : MemEvent) (hfits : MemFits tree s event) :
    Guarded tree (memStep tree s event) := by
  cases event with
  | alloc block => exact h.alloc block hfits
  | free adesc ptr => exact h.free adesc ptr
  | access adesc access addr size => exact h.access adesc access addr size hfits

/-- Translated code goes on without the helpers only if the access is aligned and its page is
in the TLB. -/
theorem fast_aligned {tlb : Tlb} {access : Access} {addr : UInt32} {size : DataSize}
    (h : tlb.Plain) (hfast : tlb.Fast access addr size.bytes) :
    tlb.Hit access addr ∧ addr.toNat % size.bytes.toNat = 0 := by
  have hbytes : size.bytes = 1 ∨ size.bytes = 2 ∨ size.bytes = 4 ∨ size.bytes = 8 := by
    cases size <;> decide
  have hit : tlb.Hit access addr := matches_of_fast hbytes hfast
  refine ⟨hit, ?_⟩
  have hlow : (addr &&& (size.bytes - 1)).toNat = addr.toNat % size.bytes.toNat := by
    rw [UInt32.toNat_and]
    cases size with
    | b => exact Nat.and_two_pow_sub_one_eq_mod addr.toNat 0
    | w => exact Nat.and_two_pow_sub_one_eq_mod addr.toNat 1
    | l => exact Nat.and_two_pow_sub_one_eq_mod addr.toNat 2
    | q => exact Nat.and_two_pow_sub_one_eq_mod addr.toNat 3
  have hmasks : targetPageMask &&& (size.bytes - 1) = 0 ∧
      (targetPageMask ||| (size.bytes - 1)) &&& (size.bytes - 1) = size.bytes - 1 := by
    cases size <;> decide
  have hpage : pageOf addr = addr &&& (targetPageMask ||| (size.bytes - 1)) := by
    rw [← h.hit_iff.mp hit, ← h.addr_eq access addr]
    exact hfast
  have hzero := congrArg (fun x => x &&& (size.bytes - 1)) hpage
  rw [pageOf, UInt32.and_assoc, UInt32.and_assoc, hmasks.1, hmasks.2, UInt32.and_zero] at hzero
  rw [← hlow, ← hzero]
  rfl

theorem Guarded.watched (h : Guarded tree s) : Watched tree s := by
  refine ⟨h.unmatched, fun adesc access addr size hviolation => ?_⟩
  rw [guestAccess]
  split
  · next hfast =>
    obtain ⟨hhit, haligned⟩ := fast_aligned h.plain hfast
    have hlt := addr.toNat_lt
    have hsize := size.toNat_bytes
    have hend : addr.toNat + size.bytes.toNat ≤ 2 ^ 32 := by
      rcases hsize with hs | hs | hs | hs <;> rw [hs] at haligned ⊢ <;> omega
    obtain ⟨e, he, htouch⟩ := exists_intersects_of_violation h.blocks hend hviolation
    -- a byte of the block that is accessed, on the page of the access
    have hbyte : ∃ a : UInt32, e.mallocDesc.Intersects a.toNat 1 ∧ pageOf a = pageOf addr := by
      have hpos := (h.blocks.valid e he).pos
      unfold MallocDesc.Intersects at htouch ⊢
      by_cases hle : e.mallocDesc.ptr.toNat ≤ addr.toNat
      · exact ⟨addr, by omega, rfl⟩
      · refine ⟨e.mallocDesc.ptr, by omega, pageOf_eq_iff.mpr ?_⟩
        rcases hsize with hs | hs | hs | hs <;> rw [hs] at haligned htouch <;> omega
    obtain ⟨a, ha, hpage⟩ := hbyte
    refine absurd ?_ (h.unmatched e he a ha access)
    rw [h.plain.hit_iff, tlbIndex_of_pageOf hpage, hpage]
    exact h.plain.hit_iff.mp hhit
  · rw [h.plain.mmuAccess]

/-- In a run of events that fit, from an empty TLB on, the checker sees every violation. -/
theorem watched_of_fits (tree : RangeTree MallocDescEx τ) (events : List MemEvent)
    (hfits : Along (memStep tree) (MemFits tree) ⟨emptyTlb, tree.empty⟩ events) :
    ∀ before, before <+: events →
      Watched tree (before.foldl (memStep tree) ⟨emptyTlb, tree.empty⟩) := by
  intro before hbefore
  suffices h : Guarded tree (before.foldl (memStep tree) ⟨emptyTlb, tree.empty⟩) from h.watched
  exact Along.invariant (fun _ event h hok => h.step event hok) Guarded.empty
    (hfits.of_prefix hbefore)

end Runs

section Fixed

def guardedBlock : Block where
  desc := ⟨⟨0x10000, 32, 16, 16, 1, 1, 0⟩, [], 0⟩
  valid := ⟨by decide, by decide⟩

/-- A block is allocated and freed; another page is read, and the block's prefix is written to. -/
theorem watched_of_violation :
    let tree := RangeTree.onLists (ε := MallocDescEx)
    let events := [MemEvent.alloc guardedBlock, .access guardedBlock.desc .load 0x20000 .l,
      .access guardedBlock.desc .store 0x10008 .b, .free guardedBlock.desc 0x10010]
    ∀ before, before <+: events →
      Watched tree (before.foldl (memStep tree) ⟨emptyTlb, tree.empty⟩) := by
  refine watched_of_fits RangeTree.onLists _ ?_
  rw [Along.cons_iff, Along.cons_iff, Along.cons_iff, Along.cons_iff]
  refine ⟨fun a access _ hit => absurd hit not_hit_emptyTlb, ?_, ?_, trivial, Along.nil⟩
  · exact .inr ⟨by decide +kernel, by decide +kernel, by decide +kernel⟩
  · exact .inr ⟨by decide +kernel, by decide +kernel, by decide +kernel⟩

/-- After the block is read as its user may, a store to its prefix is not seen. -/
theorem used_not_watched :
    let tree := RangeTree.onLists (ε := MallocDescEx)
    let events := [MemEvent.alloc guardedBlock, .access guardedBlock.desc .load 0x10010 .l]
    ¬Watched tree (events.foldl (memStep tree) ⟨emptyTlb, tree.empty⟩) := by
  intro tree events h
  have hseen := h.seen guardedBlock.desc .store 0x10008 .b (by decide +kernel)
  revert hseen
  decide +kernel

end Fixed

end M2M.Memcheck
