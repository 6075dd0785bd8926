import M2M.Lib.Bits
import M2M.Vpmu.ArmTicks

/-! The groups of words that the decoders tell apart, as masks. -/

namespace M2M.Vpmu.ArmTicks

open M2M.Lib.Masks

variable {insn : BitVec 32}

/-- A condition other than 15. -/
def Conditional (insn : BitVec 32) : Prop := insn >>> 28 ≠ 0xf

/-- `QDADD` -/
def IsQdadd (insn : BitVec 32) : Prop := Conditional insn ∧ insn &&& 0x0ff000f0 = 0x01400050

/-- `MUL`, `MLA` and the other 32 bit multiplies. -/
def IsMul32 (insn : BitVec 32) : Prop :=
  Conditional insn ∧ insn &&& 0x0f0000f0 = 0x00000090 ∧ shortMul (insn >>> 20 &&& 0xf)

/-- `LDREX` and its variants. -/
def IsLdrex (insn : BitVec 32) : Prop :=
  Conditional insn ∧ insn &&& 0x0f9000f0 = 0x01900090

instance (insn : BitVec 32) : Decidable (Conditional insn) := inferInstanceAs (Decidable (¬ _))

instance (insn : BitVec 32) : Decidable (IsQdadd insn) := inferInstanceAs (Decidable (_ ∧ _))

instance (insn : BitVec 32) : Decidable (IsMul32 insn) := inferInstanceAs (Decidable (_ ∧ _))

instance (insn : BitVec 32) : Decidable (IsLdrex insn) := inferInstanceAs (Decidable (_ ∧ _))

/-- `DSB` and `DMB`. -/
def IsBarrier (insn : BitVec 32) : Prop :=
  insn &&& 0xffffff00 = 0xf57ff000 ∧ (insn >>> 4 &&& 0xf = 4 ∨ insn >>> 4 &&& 0xf = 5)

/-- `QDADD` and `QDSUB`. -/
def IsDoubling (insn : BitVec 32) : Prop := Conditional insn ∧ insn &&& 0x0fd000f0 = 0x01400050

/-- `SMLAW<y>` -/
def IsSmlawy (insn : BitVec 32) : Prop := Conditional insn ∧ insn &&& 0x0ff000b0 = 0x01200080

/-- The extensions of bytes and halfwords, which look at `rn`. -/
def IsExtend (insn : BitVec 32) : Prop :=
  Conditional insn ∧ insn &&& 0x0f8003f0 = 0x06800070 ∧ (extendIndex (insn >>> 20 &&& 7)).isSome

/-- The multiplies of type 3 that look at `rd`. -/
def IsMultiplies (insn : BitVec 32) : Prop :=
  Conditional insn ∧ insn &&& 0x0f800010 = 0x07000010 ∧
    (insn.getLsbD 20 = true ∨ insn.getLsbD 22 = false)

/-- `USAD8` and `USADA8`. -/
def IsUsad8 (insn : BitVec 32) : Prop := Conditional insn ∧ insn &&& 0x0ff000f0 = 0x07800010

instance (insn : BitVec 32) : Decidable (IsBarrier insn) := inferInstanceAs (Decidable (_ ∧ _))

instance (insn : BitVec 32) : Decidable (IsDoubling insn) := inferInstanceAs (Decidable (_ ∧ _))

instance (insn : BitVec 32) : Decidable (IsSmlawy insn) := inferInstanceAs (Decidable (_ ∧ _))

instance (insn : BitVec 32) : Decidable (IsExtend insn) := inferInstanceAs (Decidable (_ ∧ _))

instance (insn : BitVec 32) : Decidable (IsMultiplies insn) := inferInstanceAs (Decidable (_ ∧ _))

instance (insn : BitVec 32) : Decidable (IsUsad8 insn) := inferInstanceAs (Decidable (_ ∧ _))

theorem not_both {m n c d : BitVec 32} (h : insn &&& m = c) (hne : c &&& n ≠ d &&& m) :
    insn &&& n ≠ d :=
  fun h' => hne (overlap h h')

theorem op1_eq_iff (v : BitVec 32) (hv : v <<< 24 >>> 24 = v) :
    insn >>> 24 &&& 0xf = v ↔ insn &&& 0x0f000000#32 = v <<< 24 :=
  shiftRight_and_eq_iff rfl hv

theorem misc_sh_iff (v : BitVec 32) (hv : v <<< 4 >>> 4 = v) :
    insn >>> 4 &&& 0xf = v ↔ insn &&& 0xf0#32 = v <<< 4 :=
  shiftRight_and_eq_iff rfl hv

theorem misc_op1_iff (v : BitVec 32) (hv : v <<< 21 >>> 21 = v) :
    insn >>> 21 &&& 3 = v ↔ insn &&& 0x00600000#32 = v <<< 21 :=
  shiftRight_and_eq_iff rfl hv

theorem multiply_sh_iff (v : BitVec 32) (hv : v <<< 5 >>> 5 = v) :
    insn >>> 5 &&& 3 = v ↔ insn &&& 0x60#32 = v <<< 5 :=
  shiftRight_and_eq_iff rfl hv

theorem isQdadd_iff : IsQdadd insn ↔ Conditional insn ∧ Miscellaneous insn ∧
    insn >>> 4 &&& 0xf = 5 ∧ insn >>> 21 &&& 3 = 2 := by
  rw [misc_sh_iff 5 rfl, misc_op1_iff 2 rfl]
  constructor
  · rintro ⟨hc, h⟩
    exact ⟨hc, ⟨and_of_and h rfl, not_both h (by decide)⟩, and_of_and h rfl, and_of_and h rfl⟩
  · rintro ⟨hc, ⟨hm, -⟩, hsh, hop⟩
    exact ⟨hc, and_or (and_or hm hop) hsh⟩

theorem and_three_cases (x : BitVec 32) :
    x &&& 3 = 0 ∨ x &&& 3 = 1 ∨ x &&& 3 = 2 ∨ x &&& 3 = 3 := by
  have hlt : (x &&& 3).toNat < 4 := by
    rw [BitVec.toNat_and, show (3 : BitVec 32).toNat = 2 ^ 2 - 1 from rfl,
      Nat.and_two_pow_sub_one_eq_mod]
    exact Nat.mod_lt _ (by decide)
  simp only [← BitVec.toNat_inj]
  have h₀ : (0 : BitVec 32).toNat = 0 := rfl
  have h₁ : (1 : BitVec 32).toNat = 1 := rfl
  have h₂ : (2 : BitVec 32).toNat = 2 := rfl
  have h₃ : (3 : BitVec 32).toNat = 3 := rfl
  omega

theorem multiply_bits (hzero : insn &&& 0x0e000000 = 0) (h : ¬ DataProcessing insn) :
    insn &&& 0x90 = 0x90 := by
  by_contra hne
  exact h (.inl ⟨hzero, hne⟩)

theorem zero_of_op1 (h : insn >>> 24 &&& 0xf = 0 ∨ insn >>> 24 &&& 0xf = 1) :
    insn &&& 0x0e000000 = 0 := by
  rcases h with h | h
  · exact and_of_and ((op1_eq_iff 0 rfl).mp h) rfl
  · exact and_of_and ((op1_eq_iff 1 rfl).mp h) rfl

theorem isMul32_iff : IsMul32 insn ↔ Conditional insn ∧ insn &&& 0x90 = 0x90 ∧
    insn >>> 24 &&& 0xf = 0 ∧ insn >>> 5 &&& 3 = 0 ∧ shortMul (insn >>> 20 &&& 0xf) := by
  rw [op1_eq_iff 0 rfl, multiply_sh_iff 0 rfl]
  constructor
  · rintro ⟨hc, h, hop⟩
    exact ⟨hc, and_of_and h rfl, and_of_and h rfl, and_of_and h rfl, hop⟩
  · rintro ⟨hc, h, hop, hsh, hmul⟩
    exact ⟨hc, and_or (and_or hop h) hsh, hmul⟩

theorem isLdrex_iff : IsLdrex insn ↔ Conditional insn ∧ insn &&& 0x90 = 0x90 ∧
    insn >>> 24 &&& 0xf = 1 ∧ insn >>> 5 &&& 3 = 0 ∧ insn.getLsbD 23 = true ∧
      insn.getLsbD 20 = true := by
  rw [op1_eq_iff 1 rfl, multiply_sh_iff 0 rfl]
  constructor
  · rintro ⟨hc, h⟩
    exact ⟨hc, and_of_and h rfl, and_of_and h rfl, and_of_and h rfl,
      (getLsbD_of_and h rfl).trans rfl,
      (getLsbD_of_and h rfl).trans rfl⟩
  · rintro ⟨hc, h, hop, hsh, h₂₃, h₂₀⟩
    have hbits : insn &&& 0x00900000 = 0x00900000 :=
      and_or (and_of_getLsbD h₂₃) (and_of_getLsbD h₂₀)
    exact ⟨hc, and_or (and_or hop hbits) (and_or h hsh)⟩

theorem isBarrier_iff : IsBarrier insn ↔ insn >>> 28 = 0xf ∧ insn &&& 0x0fffff00 = 0x057ff000 ∧
    (insn >>> 4 &&& 0xf = 4 ∨ insn >>> 4 &&& 0xf = 5) := by
  have hcond : insn >>> 28 = 0xf ↔ insn &&& 0xf0000000 = 0xf0000000 := by
    have hfield : insn >>> 28 &&& 0xf = insn >>> 28 := ushiftRight_and_allOnes insn 28
    rw [← hfield]
    exact shiftRight_and_eq_iff rfl rfl
  rw [hcond]
  constructor
  · rintro ⟨h, hsw⟩
    exact ⟨and_of_and h rfl, and_of_and h rfl, hsw⟩
  · rintro ⟨hc, h, hsw⟩
    exact ⟨and_or hc h, hsw⟩

theorem op1_and_two_iff :
    (insn >>> 21 &&& 3#32) &&& 2#32 ≠ 0 ↔ insn &&& 0x00400000 = 0x00400000 := by
  have hshift : (insn >>> 21 &&& 3#32) &&& 2#32 = insn >>> 21 &&& 2 := by
    rw [BitVec.and_assoc]
    rfl
  have hzero : insn >>> 21 &&& 2 = 0 ↔ insn &&& 0x00400000 = 0 :=
    shiftRight_and_eq_iff (m := 2) (c := 0) (k := 21) rfl rfl
  rw [hshift, ne_eq, hzero]
  have hcases : insn &&& 0x00400000 = 0x00400000 ∨ insn &&& 0x00400000 = 0 :=
    and_twoPow_cases insn 22
  rcases hcases with hset | hclear
  · exact iff_of_true (hset.trans_ne (by decide)) hset
  · exact iff_of_false (fun hne => hne hclear) (hclear.trans_ne (by decide))

theorem isDoubling_iff : IsDoubling insn ↔ Conditional insn ∧ Miscellaneous insn ∧
    insn >>> 4 &&& 0xf = 5 ∧ (insn >>> 21 &&& 3#32) &&& 2#32 ≠ 0 := by
  rw [misc_sh_iff 5 rfl, op1_and_two_iff]
  constructor
  · rintro ⟨hc, h⟩
    exact ⟨hc, ⟨and_of_and h rfl, not_both h (by decide)⟩, and_of_and h rfl, and_of_and h rfl⟩
  · rintro ⟨hc, ⟨hm, -⟩, hsh, hop⟩
    exact ⟨hc, and_or (and_or hm hop) hsh⟩

theorem isSmlawy_iff : IsSmlawy insn ↔ Conditional insn ∧ Miscellaneous insn ∧
    insn >>> 21 &&& 3 = 1 ∧ (insn >>> 4 &&& 0xf = 8 ∨ insn >>> 4 &&& 0xf = 0xc) := by
  rw [misc_sh_iff 8 rfl, misc_sh_iff 0xc rfl, misc_op1_iff 1 rfl]
  constructor
  · rintro ⟨hc, h⟩
    refine ⟨hc, ⟨and_of_and h rfl, not_both h (by decide)⟩, and_of_and h rfl, ?_⟩
    have hsh : insn &&& 0xb0 = 0x80 := and_of_and h rfl
    rcases and_twoPow_cases insn 6 with hset | hclear
    · exact .inr (and_or hsh hset)
    · exact .inl (and_or hsh hclear)
  · rintro ⟨hc, ⟨hm, -⟩, hop, hsh⟩
    have hlow : insn &&& 0xb0 = 0x80 := by
      rcases hsh with hsh | hsh
      · exact and_of_and hsh rfl
      · exact and_of_and hsh rfl
    exact ⟨hc, and_or (and_or hm hop) hlow⟩

theorem media_kind_iff (k : BitVec 32) (hk : k <<< 23 >>> 23 = k) :
    insn >>> 23 &&& 3 = k ↔ insn &&& 0x01800000#32 = k <<< 23 :=
  shiftRight_and_eq_iff rfl hk

def Media (insn : BitVec 32) : Prop :=
  (insn >>> 24 &&& 0xf = 6 ∨ insn >>> 24 &&& 0xf = 7) ∧ insn.getLsbD 4 = true

theorem media_iff : Media insn ↔ insn &&& 0x0e000010 = 0x06000010 := by
  rw [Media, op1_eq_iff 6 rfl, op1_eq_iff 7 rfl]
  constructor
  · rintro ⟨hop, h₄⟩
    have hhigh : insn &&& 0x0e000000 = 0x06000000 := by
      rcases hop with hop | hop
      · exact and_of_and hop rfl
      · exact and_of_and hop rfl
    exact and_or hhigh (and_of_getLsbD h₄)
  · intro h
    have hhigh : insn &&& 0x0e000000 = 0x06000000 := and_of_and h rfl
    refine ⟨?_, (getLsbD_of_and h rfl).trans rfl⟩
    rcases and_twoPow_cases insn 24 with hset | hclear
    · exact .inr (and_or hhigh hset)
    · exact .inl (and_or hhigh hclear)

theorem isExtend_iff : IsExtend insn ↔ Conditional insn ∧ Media insn ∧ insn >>> 23 &&& 3 = 1 ∧
    insn &&& 0x3e0 = 0x60 ∧ (extendIndex (insn >>> 20 &&& 7)).isSome := by
  rw [media_iff, media_kind_iff 1 rfl]
  constructor
  · rintro ⟨hc, h, hext⟩
    exact ⟨hc, and_of_and h rfl, and_of_and h rfl, and_of_and h rfl, hext⟩
  · rintro ⟨hc, hm, hk, h, hext⟩
    exact ⟨hc, and_or (and_or hm hk) h, hext⟩

theorem isMultiplies_iff : IsMultiplies insn ↔ Conditional insn ∧ Media insn ∧
    insn >>> 23 &&& 3 = 2 ∧ (insn.getLsbD 20 = true ∨ insn.getLsbD 22 = false) := by
  rw [media_iff, media_kind_iff 2 rfl]
  constructor
  · rintro ⟨hc, h, hbits⟩
    exact ⟨hc, and_of_and h rfl, and_of_and h rfl, hbits⟩
  · rintro ⟨hc, hm, hk, hbits⟩
    exact ⟨hc, and_or hm hk, hbits⟩

theorem isUsad8_iff : IsUsad8 insn ↔ Conditional insn ∧ Media insn ∧ insn >>> 23 &&& 3 = 3 ∧
    (insn >>> 17 &&& 0x38#32) ||| (insn >>> 5 &&& 7#32) = 0 := by
  have hhigh : insn >>> 17 &&& 0x38 = 0 ↔ insn &&& 0x00700000 = 0 :=
    shiftRight_and_eq_iff (m := 0x38) (c := 0) (k := 17) rfl rfl
  have hlow : insn >>> 5 &&& 7 = 0 ↔ insn &&& 0xe0 = 0 :=
    shiftRight_and_eq_iff (m := 7) (c := 0) (k := 5) rfl rfl
  have hor : (insn >>> 17 &&& 0x38#32) ||| (insn >>> 5 &&& 7#32) = 0 ↔
      insn >>> 17 &&& 0x38 = 0 ∧ insn >>> 5 &&& 7 = 0 := BitVec.or_eq_zero_iff
  rw [media_iff, media_kind_iff 3 rfl, hor]
  constructor
  · rintro ⟨hc, h⟩
    exact ⟨hc, and_of_and h rfl, and_of_and h rfl, hhigh.mpr (and_of_and h rfl),
      hlow.mpr (and_of_and h rfl)⟩
  · rintro ⟨hc, hm, hk, h₁, h₂⟩
    exact ⟨hc, and_or (and_or hm hk) (and_or (hhigh.mp h₁) (hlow.mp h₂))⟩

section Dispatch

variable {armInstrTime : Nat → UInt32} {rn rd : BitVec 32} {s : ExtraTBInfo}

theorem getTicks_miscellaneous (hc : Conditional insn) (hm : Miscellaneous insn) :
    getTicks armInstrTime rn rd insn s =
      getMiscellaneous armInstrTime (insn >>> 21 &&& 3) (insn >>> 4 &&& 0xf) s := by
  rw [getTicks, if_neg hc, if_neg (not_both hm.1 (by decide)), if_pos hm]

theorem analyzeTicks_miscellaneous (hc : Conditional insn) (hm : Miscellaneous insn) :
    analyzeTicks rn rd insn s =
      analyzeMiscellaneous (insn >>> 21 &&& 3) (insn >>> 4 &&& 0xf) s := by
  rw [analyzeTicks, if_neg hc, if_neg (not_both hm.1 (by decide)), if_pos hm]

theorem getTicks_other (hc : Conditional insn) (hmov : insn &&& 0x0f900000 ≠ 0x03000000)
    (hm : ¬ Miscellaneous insn) (hdp : ¬ DataProcessing insn) :
    getTicks armInstrTime rn rd insn s =
      getOther armInstrTime rn rd (insn >>> 24 &&& 0xf) insn s := by
  rw [getTicks, if_neg hc, if_neg hmov, if_neg hm, if_neg hdp]

theorem analyzeTicks_other (hc : Conditional insn) (hmov : insn &&& 0x0f900000 ≠ 0x03000000)
    (hm : ¬ Miscellaneous insn) (hdp : ¬ DataProcessing insn) :
    analyzeTicks rn rd insn s = analyzeOther rn rd (insn >>> 24 &&& 0xf) insn s := by
  rw [analyzeTicks, if_neg hc, if_neg hmov, if_neg hm, if_neg hdp]

theorem Media.not_dataProcessing (h : Media insn) : ¬ DataProcessing insn := by
  have hbits := media_iff.mp h
  rintro (⟨h, -⟩ | h)
  · exact not_both hbits (by decide) h
  · exact not_both hbits (by decide) h

theorem Media.not_miscellaneous (h : Media insn) : ¬ Miscellaneous insn :=
  fun hm => not_both (media_iff.mp h) (by decide) hm.1

theorem getTicks_media (hc : Conditional insn) (h : Media insn) :
    getTicks armInstrTime rn rd insn s = getMedia armInstrTime rn rd insn s := by
  rw [getTicks_other hc (not_both (media_iff.mp h) (by decide)) h.not_miscellaneous
    h.not_dataProcessing]
  obtain ⟨hop | hop, h₄⟩ := h <;> rw [hop] <;> exact if_pos h₄

theorem analyzeTicks_media (hc : Conditional insn) (h : Media insn) :
    analyzeTicks rn rd insn s = analyzeMedia rn rd insn s := by
  rw [analyzeTicks_other hc (not_both (media_iff.mp h) (by decide)) h.not_miscellaneous
    h.not_dataProcessing]
  obtain ⟨hop | hop, h₄⟩ := h <;> rw [hop] <;> exact if_pos h₄

theorem getTicks_multiply (hc : Conditional insn) (hbits : insn &&& 0x90 = 0x90)
    (hop : insn >>> 24 &&& 0xf = 0 ∨ insn >>> 24 &&& 0xf = 1) :
    getTicks armInstrTime rn rd insn s =
      getMultiply armInstrTime (insn >>> 24 &&& 0xf) (insn >>> 5 &&& 3) insn s := by
  have hzero := zero_of_op1 hop
  rw [getTicks_other hc (not_both hzero (by decide)) (fun hm => hm.2 hbits), getOther, if_pos hop]
  rintro (⟨-, hne⟩ | h)
  · exact hne hbits
  · rw [hzero] at h
    exact absurd h (by decide)

end Dispatch

end M2M.Vpmu.ArmTicks
