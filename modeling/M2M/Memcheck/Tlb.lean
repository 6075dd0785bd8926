import Mathlib

/-! The user-mode half of the TLB, for pages of RAM: `exec.c`, `softmmu_template.h` and
`invalidate_tlb_cache`. -/

namespace M2M.Memcheck

def targetPageSize : UInt32 := 1024

def targetPageMask : UInt32 := ~~~(targetPageSize - 1)

def cpuTlbSize : UInt32 := 256

def tlbInvalidMask : UInt32 := 8

def tlbNotdirty : UInt32 := 16

def pageOf (addr : UInt32) : UInt32 := addr &&& targetPageMask

def tlbIndex (addr : UInt32) : UInt32 := (addr >>> 10) &&& (cpuTlbSize - 1)

inductive Access
  | load
  | store
  deriving DecidableEq

structure TlbEntry where
  addrRead : UInt32
  addrWrite : UInt32

def TlbEntry.addr (te : TlbEntry) : Access → UInt32
  | .load => te.addrRead
  | .store => te.addrWrite

/-- `^= TARGET_PAGE_MASK` on both addresses. -/
def TlbEntry.invalidate (te : TlbEntry) : TlbEntry :=
  { addrRead := te.addrRead ^^^ targetPageMask, addrWrite := te.addrWrite ^^^ targetPageMask }

/-- `tlb_table[1]`, and what is behind it. -/
abbrev Tlb := UInt32 → TlbEntry

/-- After `tlb_flush`. -/
def emptyTlb : Tlb := fun _ => { addrRead := 0xffffffff, addrWrite := 0xffffffff }

def Matches (addr tlbAddr : UInt32) : Prop :=
  pageOf addr = tlbAddr &&& (targetPageMask ||| tlbInvalidMask)

instance (addr tlbAddr : UInt32) : Decidable (Matches addr tlbAddr) :=
  inferInstanceAs (Decidable (_ = _))

def Tlb.invalidateAt (tlb : Tlb) (index : UInt32) : Tlb :=
  Function.update tlb index (tlb index).invalidate

def Tlb.Hit (tlb : Tlb) (access : Access) (addr : UInt32) : Prop :=
  Matches addr ((tlb (tlbIndex addr)).addr access)

instance (tlb : Tlb) (access : Access) (addr : UInt32) : Decidable (tlb.Hit access addr) :=
  inferInstanceAs (Decidable (Matches _ _))

/-- What `tlb_set_page_exec` is told of a page of RAM. -/
structure RamPage where
  read : Bool
  write : Bool
  dirty : Bool

/-- `tlb_set_page_exec` for mode 1, with what `memcheck_is_checked` says of the page. -/
def tlbSetPageExec (tlb : Tlb) (vaddr : UInt32) (page : RamPage) (isSoftmmu checked : Bool) :
    Tlb :=
  let te : TlbEntry :=
    { addrRead := if page.read then vaddr else 0xffffffff
      addrWrite :=
        if page.write then if page.dirty then vaddr else vaddr ||| tlbNotdirty else 0xffffffff }
  let te :=
    if !isSoftmmu && (page.read || page.write) && checked then
      { addrRead := if page.read then te.addrRead ^^^ targetPageMask else te.addrRead
        addrWrite := if page.write then te.addrWrite ^^^ targetPageMask else te.addrWrite }
    else te
  Function.update tlb (tlbIndex vaddr) te

def plainRam : RamPage := { read := true, write := true, dirty := true }

/-- `tlb_fill`, which always comes from the softmmu helpers. -/
def tlbFill (tlb : Tlb) (addr : UInt32) (checked : Bool) : Tlb :=
  tlbSetPageExec tlb (pageOf addr) plainRam true checked

/-- One round of `invalidate_tlb_cache`. -/
def invalidateMatching (te : TlbEntry) (start : UInt32) : TlbEntry where
  addrWrite := if Matches start te.addrWrite then te.addrWrite ^^^ targetPageMask else te.addrWrite
  addrRead := if Matches start te.addrRead then te.addrRead ^^^ targetPageMask else te.addrRead

/-- The loop of `invalidate_tlb_cache`, with the number of rounds left. -/
def invalidateLoop (tlb : Tlb) (index start : UInt32) : Nat → Tlb
  | 0 => tlb
  | rounds + 1 =>
    invalidateLoop (Function.update tlb index (invalidateMatching (tlb index) start))
      (index + 1) (start + targetPageSize) rounds

def invalidateTlbCache (tlb : Tlb) (start stop : UInt32) : Tlb :=
  let index := tlbIndex start
  let last := tlbIndex (stop - 1)
  invalidateLoop tlb index start (last.toNat + 1 - index.toNat)

section Pages

variable {a b p x : UInt32}

theorem toNat_and_mask {mask : UInt32} {n : Nat} (hn : n ≤ 32)
    (hmask : mask.toNat = (2 ^ (32 - n) - 1) <<< n) (a : UInt32) :
    (a &&& mask).toNat = a.toNat / 2 ^ n * 2 ^ n := by
  rw [UInt32.toNat_and, hmask, ← Nat.shiftLeft_eq, ← Nat.shiftRight_eq_div_pow]
  refine Nat.eq_of_testBit_eq fun i => ?_
  rw [Nat.testBit_and, Nat.testBit_shiftLeft, Nat.testBit_shiftLeft, Nat.testBit_shiftRight,
    Nat.testBit_two_pow_sub_one]
  by_cases hi : n ≤ i
  · by_cases hlt : i < 32
    · have hlt' : i - n < 32 - n := by omega
      simp [hi, hlt', Nat.add_sub_cancel' hi]
    · have hbit : a.toNat.testBit i = false :=
        Nat.testBit_lt_two_pow (Nat.lt_of_lt_of_le a.toNat_lt
          (Nat.pow_le_pow_right (by decide) (Nat.not_lt.mp hlt)))
      simp [hbit, Nat.add_sub_cancel' hi]
  · simp [hi]

theorem toNat_pageOf (a : UInt32) : (pageOf a).toNat = a.toNat / 1024 * 1024 :=
  toNat_and_mask (n := 10) (by decide) (by decide) a

theorem toNat_tlbIndex (a : UInt32) : (tlbIndex a).toNat = a.toNat / 1024 % 256 := by
  change (a.toNat >>> 10) &&& (2 ^ 8 - 1) = _
  rw [Nat.and_two_pow_sub_one_eq_mod, Nat.shiftRight_eq_div_pow]

theorem pageOf_eq_iff : pageOf a = pageOf b ↔ a.toNat / 1024 = b.toNat / 1024 := by
  rw [← UInt32.toNat_inj, toNat_pageOf, toNat_pageOf]
  omega

theorem tlbIndex_eq_iff :
    tlbIndex a = tlbIndex b ↔ a.toNat / 1024 % 256 = b.toNat / 1024 % 256 := by
  rw [← UInt32.toNat_inj, toNat_tlbIndex, toNat_tlbIndex]

theorem tlbIndex_of_pageOf (h : pageOf a = pageOf b) : tlbIndex a = tlbIndex b := by
  rw [tlbIndex_eq_iff, pageOf_eq_iff.mp h]

theorem pageOf_pageOf (a : UInt32) : pageOf (pageOf a) = pageOf a := by
  rw [pageOf_eq_iff, toNat_pageOf]
  omega

theorem matches_pageOf : Matches a (pageOf p) ↔ pageOf a = pageOf p := by
  have hmask : targetPageMask &&& (targetPageMask ||| tlbInvalidMask) = targetPageMask := by decide
  rw [Matches, pageOf, pageOf, UInt32.and_assoc, hmask]

theorem pageOf_xor (p : UInt32) : pageOf p ^^^ targetPageMask = pageOf (~~~p) := by
  rw [pageOf, pageOf, ← UInt32.toBitVec_inj, UInt32.toBitVec_xor, UInt32.toBitVec_and,
    UInt32.toBitVec_and, UInt32.toBitVec_not]
  refine BitVec.eq_of_getLsbD_eq fun i hi => ?_
  rw [BitVec.getLsbD_xor, BitVec.getLsbD_and, BitVec.getLsbD_and, BitVec.getLsbD_not,
    decide_eq_true hi, Bool.true_and]
  cases p.toBitVec.getLsbD i <;> cases targetPageMask.toBitVec.getLsbD i <;> rfl

theorem tlbIndex_not (p : UInt32) : tlbIndex (~~~p) ≠ tlbIndex p := by
  have hlt := p.toNat_lt
  rw [Ne, tlbIndex_eq_iff, UInt32.toNat_not, UInt32.size]
  omega

theorem not_matches_empty : ¬Matches a 0xffffffff := by
  intro h
  have hnat := congrArg UInt32.toNat h
  rw [toNat_pageOf] at hnat
  change _ = 4294966280 at hnat
  omega

theorem matches_of_fast {size : UInt32} (hsize : size = 1 ∨ size = 2 ∨ size = 4 ∨ size = 8)
    (h : x = a &&& (targetPageMask ||| (size - 1))) : Matches a x := by
  have hmask : (targetPageMask ||| (size - 1)) &&& (targetPageMask ||| tlbInvalidMask) =
      targetPageMask := by
    rcases hsize with rfl | rfl | rfl | rfl <;> decide
  rw [Matches, h, UInt32.and_assoc, hmask, pageOf]

theorem tlbIndex_lt (a : UInt32) : tlbIndex a < cpuTlbSize := by
  rw [UInt32.lt_iff_toNat_lt, toNat_tlbIndex]
  exact Nat.mod_lt _ (by decide)

theorem tlbIndex_pageOf (a : UInt32) : tlbIndex (pageOf a) = tlbIndex a :=
  tlbIndex_of_pageOf (pageOf_pageOf a)

end Pages

/-- What an entry has for an address: nothing, a page of its own, or such a page inverted. -/
inductive Slot (index : UInt32) : UInt32 → Prop
  | empty : Slot index 0xffffffff
  | page (p : UInt32) (h : tlbIndex p = index) : Slot index (pageOf p)
  | inverted (p : UInt32) (h : tlbIndex p = index) : Slot index (pageOf p ^^^ targetPageMask)

theorem Slot.matches_iff {a x : UInt32} (h : Slot (tlbIndex a) x) : Matches a x ↔ x = pageOf a := by
  constructor
  · intro hmatches
    cases h with
    | empty => exact absurd hmatches not_matches_empty
    | page p hp => exact (matches_pageOf.mp hmatches).symm
    | inverted p hp =>
      rw [pageOf_xor, matches_pageOf] at hmatches
      exact absurd ((tlbIndex_of_pageOf hmatches).symm.trans hp.symm) (tlbIndex_not p)
  · intro hx
    rw [hx, matches_pageOf]

theorem not_matches_inverted {a p : UInt32} (h : tlbIndex a = tlbIndex p) :
    ¬Matches a (pageOf p ^^^ targetPageMask) := by
  intro hmatches
  rw [pageOf_xor, matches_pageOf] at hmatches
  exact tlbIndex_not p ((tlbIndex_of_pageOf hmatches).symm.trans h)

/-- A TLB that was filled with plain RAM alone. -/
structure Tlb.Plain (tlb : Tlb) : Prop where
  same : ∀ index < cpuTlbSize, (tlb index).addrRead = (tlb index).addrWrite
  slot : ∀ index < cpuTlbSize, Slot index (tlb index).addrRead

section Operations

variable {tlb : Tlb} {a b : UInt32} {access access' : Access}

theorem Tlb.Plain.addr_eq (h : tlb.Plain) (access : Access) (a : UInt32) :
    (tlb (tlbIndex a)).addr access = (tlb (tlbIndex a)).addrRead := by
  cases access with
  | load => rfl
  | store => exact (h.same _ (tlbIndex_lt a)).symm

theorem Tlb.Plain.hit_iff (h : tlb.Plain) :
    tlb.Hit access a ↔ (tlb (tlbIndex a)).addrRead = pageOf a := by
  rw [Tlb.Hit, h.addr_eq]
  exact (h.slot _ (tlbIndex_lt a)).matches_iff

theorem plain_emptyTlb : Tlb.Plain emptyTlb := ⟨fun _ _ => rfl, fun _ _ => Slot.empty⟩

theorem not_hit_emptyTlb : ¬Tlb.Hit emptyTlb access a := by
  cases access with
  | load => exact not_matches_empty
  | store => exact not_matches_empty

theorem Tlb.Plain.update (h : tlb.Plain) {index : UInt32} {te : TlbEntry}
    (hsame : te.addrRead = te.addrWrite) (hslot : Slot index te.addrRead) :
    Tlb.Plain (Function.update tlb index te) := by
  constructor
  · intro i hi
    by_cases heq : i = index
    · rw [heq, Function.update_self, hsame]
    · rw [Function.update_of_ne heq]
      exact h.same i hi
  · intro i hi
    by_cases heq : i = index
    · rw [heq, Function.update_self]
      exact hslot
    · rw [Function.update_of_ne heq]
      exact h.slot i hi

theorem hit_update_of_ne {index : UInt32} {te : TlbEntry} (hne : tlbIndex b ≠ index) :
    Tlb.Hit (Function.update tlb index te) access b ↔ tlb.Hit access b := by
  rw [Tlb.Hit, Function.update_of_ne hne, ← Tlb.Hit]

theorem tlbFill_eq (tlb : Tlb) (a : UInt32) (checked : Bool) :
    tlbFill tlb a checked = Function.update tlb (tlbIndex a) ⟨pageOf a, pageOf a⟩ := by
  rw [← tlbIndex_pageOf a]
  rfl

theorem Tlb.Plain.tlbFill (h : tlb.Plain) (a : UInt32) (checked : Bool) :
    Tlb.Plain (tlbFill tlb a checked) := by
  rw [tlbFill_eq]
  exact h.update rfl (Slot.page a rfl)

theorem hit_tlbFill {checked : Bool} : (tlbFill tlb a checked).Hit access b ↔
    pageOf b = pageOf a ∨ tlbIndex b ≠ tlbIndex a ∧ tlb.Hit access b := by
  rw [tlbFill_eq]
  by_cases heq : tlbIndex b = tlbIndex a
  · have hentry : ∀ x, (TlbEntry.mk x x).addr access = x := fun x => by cases access <;> rfl
    rw [Tlb.Hit, heq, Function.update_self, hentry, matches_pageOf,
      or_iff_left fun hboth => hboth.1 rfl]
  · rw [hit_update_of_ne heq, and_iff_right heq, or_iff_right]
    exact fun hpage => heq (tlbIndex_of_pageOf hpage)

theorem Tlb.Plain.invalidate_eq (h : tlb.Plain) (hit : tlb.Hit access a) :
    (tlb (tlbIndex a)).invalidate =
      ⟨pageOf a ^^^ targetPageMask, pageOf a ^^^ targetPageMask⟩ := by
  rw [TlbEntry.invalidate, ← h.same _ (tlbIndex_lt a), h.hit_iff.mp hit]

theorem Tlb.Plain.invalidateAt (h : tlb.Plain) (hit : tlb.Hit access a) :
    (tlb.invalidateAt (tlbIndex a)).Plain := by
  rw [Tlb.invalidateAt, h.invalidate_eq hit]
  exact h.update rfl (Slot.inverted a rfl)

theorem Tlb.Plain.hit_invalidateAt (h : tlb.Plain) (hit : tlb.Hit access a) :
    (tlb.invalidateAt (tlbIndex a)).Hit access' b ↔
      tlbIndex b ≠ tlbIndex a ∧ tlb.Hit access' b := by
  rw [Tlb.invalidateAt, h.invalidate_eq hit]
  by_cases heq : tlbIndex b = tlbIndex a
  · have hentry : ∀ x, (TlbEntry.mk x x).addr access' = x := fun x => by cases access' <;> rfl
    rw [Tlb.Hit, heq, Function.update_self, hentry]
    exact iff_of_false (not_matches_inverted heq) fun hboth => hboth.1 rfl
  · rw [hit_update_of_ne heq, and_iff_right heq]

theorem Tlb.Plain.round (h : tlb.Plain) (start : UInt32) :
    Tlb.Plain (Function.update tlb (tlbIndex start)
        (invalidateMatching (tlb (tlbIndex start)) start)) ∧
      ∀ access b, Tlb.Hit (Function.update tlb (tlbIndex start)
          (invalidateMatching (tlb (tlbIndex start)) start)) access b ↔
        pageOf b ≠ pageOf start ∧ tlb.Hit access b := by
  have hsame := h.same _ (tlbIndex_lt start)
  by_cases hit : tlb.Hit .load start
  · have hentry : invalidateMatching (tlb (tlbIndex start)) start =
        (tlb (tlbIndex start)).invalidate := by
      have hread : Matches start (tlb (tlbIndex start)).addrRead := hit
      rw [invalidateMatching, TlbEntry.invalidate, ← hsame, if_pos hread]
    rw [hentry]
    refine ⟨h.invalidateAt hit, fun access b => (h.hit_invalidateAt hit).trans ?_⟩
    refine and_congr_left fun hb => not_congr ⟨fun hindex => ?_, tlbIndex_of_pageOf⟩
    rw [← h.hit_iff.mp hb, hindex, h.hit_iff.mp hit]
  · have hentry : invalidateMatching (tlb (tlbIndex start)) start = tlb (tlbIndex start) := by
      have hread : ¬Matches start (tlb (tlbIndex start)).addrRead := hit
      rw [invalidateMatching, ← hsame, if_neg hread]
      exact congrArg (TlbEntry.mk (tlb (tlbIndex start)).addrRead) hsame
    rw [hentry, Function.update_eq_self]
    refine ⟨h, fun access b => ⟨fun hb => ⟨fun hpage => hit ?_, hb⟩, And.right⟩⟩
    rw [h.hit_iff, ← tlbIndex_of_pageOf hpage, ← hpage]
    exact h.hit_iff.mp hb

theorem tlbIndex_next {start : UInt32} (h : (tlbIndex start).toNat + 1 < 256) :
    tlbIndex (start + targetPageSize) = tlbIndex start + 1 := by
  rw [toNat_tlbIndex] at h
  rw [← UInt32.toNat_inj, toNat_tlbIndex, UInt32.toNat_add, UInt32.toNat_add, toNat_tlbIndex]
  change (start.toNat + 1024) % 2 ^ 32 / 1024 % 256 = (start.toNat / 1024 % 256 + 1) % 2 ^ 32
  have hlt := start.toNat_lt
  omega

theorem Tlb.Plain.invalidateLoop {rounds : Nat} {start : UInt32} (h : tlb.Plain)
    (hrounds : (tlbIndex start).toNat + rounds ≤ 256) :
    (invalidateLoop tlb (tlbIndex start) start rounds).Plain ∧
      ∀ access b, (Memcheck.invalidateLoop tlb (tlbIndex start) start rounds).Hit access b ↔
        (∀ k < rounds, b.toNat / 1024 ≠ (start.toNat + 1024 * k) % 2 ^ 32 / 1024) ∧
          tlb.Hit access b := by
  induction rounds generalizing tlb start with
  | zero =>
    refine ⟨h, fun access b => (and_iff_right fun k hk => ?_).symm⟩
    exact absurd hk (Nat.not_lt_zero k)
  | succ rounds ih =>
    obtain ⟨hplain, hhit⟩ := h.round start
    have hfirst : ∀ b : UInt32, pageOf b ≠ pageOf start ↔
        b.toNat / 1024 ≠ (start.toNat + 1024 * 0) % 2 ^ 32 / 1024 := fun b => by
      rw [Ne, pageOf_eq_iff, Nat.mul_zero, Nat.add_zero, Nat.mod_eq_of_lt start.toNat_lt]
    rw [Memcheck.invalidateLoop]
    rcases Nat.eq_zero_or_pos rounds with rfl | hpos
    · refine ⟨hplain, fun access b => (hhit access b).trans (and_congr_left fun _ => ?_)⟩
      rw [hfirst]
      simp
    · have hlast : (tlbIndex start).toNat + 1 < 256 := by omega
      have hnext := tlbIndex_next hlast
      have hnat : (tlbIndex (start + targetPageSize)).toNat = (tlbIndex start).toNat + 1 := by
        rw [hnext, UInt32.toNat_add, UInt32.toNat_one]
        exact Nat.mod_eq_of_lt (by omega)
      have hshift : ∀ k, ((start + targetPageSize).toNat + 1024 * k) % 2 ^ 32 =
          (start.toNat + 1024 * (k + 1)) % 2 ^ 32 := fun k => by
        rw [UInt32.toNat_add, Nat.mod_add_mod, Nat.add_assoc, Nat.mul_succ,
          Nat.add_comm targetPageSize.toNat]
        rfl
      have hbound : (tlbIndex (start + targetPageSize)).toNat + rounds ≤ 256 := by omega
      obtain ⟨hplain', hhit'⟩ := ih hplain hbound
      rw [← hnext]
      refine ⟨hplain', fun access b => (hhit' access b).trans ?_⟩
      rw [hhit, hfirst, ← and_assoc, Nat.forall_lt_succ_left, and_comm (b := _ ≠ _)]
      simp only [hshift]

theorem Tlb.Plain.invalidateTlbCache (h : tlb.Plain) (start stop : UInt32) :
    (invalidateTlbCache tlb start stop).Plain ∧
      ∀ access b, (Memcheck.invalidateTlbCache tlb start stop).Hit access b →
        tlb.Hit access b ∧ (start ≤ b → (tlbIndex (stop - 1)).toNat <
          (tlbIndex start).toNat + (b.toNat / 1024 - start.toNat / 1024)) := by
  have hlast := UInt32.lt_iff_toNat_lt.mp (tlbIndex_lt (stop - 1))
  have hfirst := UInt32.lt_iff_toNat_lt.mp (tlbIndex_lt start)
  change _ < 256 at hlast hfirst
  rw [Memcheck.invalidateTlbCache]
  have hrounds : (tlbIndex start).toNat +
      ((tlbIndex (stop - 1)).toNat + 1 - (tlbIndex start).toNat) ≤ 256 := by omega
  obtain ⟨hplain, hhit⟩ := h.invalidateLoop hrounds
  refine ⟨hplain, fun access b hb => ?_⟩
  obtain ⟨houtside, hb⟩ := (hhit access b).mp hb
  refine ⟨hb, fun hle => ?_⟩
  have hle := UInt32.le_iff_toNat_le.mp hle
  have hlt := b.toNat_lt
  by_contra hreached
  refine houtside (b.toNat / 1024 - start.toNat / 1024) (by omega) ?_
  omega

end Operations

end M2M.Memcheck
