import M2M.Vpmu.ArmWords

/-! `get_insn_parser`, which counts the instructions of a block that change the program
counter. -/

namespace M2M.Vpmu.PcChanges

open M2M.Lib.Masks M2M.Vpmu.ArmTicks

/-- Bits 27 to 25 of a word, on which `get_insn_parser` switches. -/
def group (insn : BitVec 32) : BitVec 32 := insn >>> 25 &&& 7

def rdOf (insn : BitVec 32) : BitVec 32 := insn >>> 12 &&& 0xf

def rnOf (insn : BitVec 32) : BitVec 32 := insn >>> 16 &&& 0xf

section Parser

variable (insn : BitVec 32) (count : UInt32)

/-- The second `switch`, for the words with 15 in one of the two register fields. -/
def otherCases : UInt32 :=
  if group insn = 0 then
    if insn &&& 0x90 = 0x90 then count
    else if insn &&& 0x0f900000 = 0x01000000 then count
    else if rdOf insn = 15 then count + 1 else count
  else if group insn = 1 then
    if insn &&& 0x01900000 = 0x01900000 then count
    else if rdOf insn = 15 then count + 1 else count
  else if group insn = 2 then
    if insn.getLsbD 20 ∧ rdOf insn = 15 then count + 1 else count
  else if group insn = 3 then
    -- The register that is tested is the base.
    if ¬insn.getLsbD 4 ∧ insn.getLsbD 20 ∧ rnOf insn = 15 then count + 1 else count
  else if group insn = 4 then
    if insn.getLsbD 20 ∧ insn.getLsbD 15 then count + 1 else count
  else count

/-- `get_insn_parser` on `all_changes_to_PC_count`. -/
def getInsnParser : UInt32 :=
  if insn >>> 28 = 0xf ∧ insn >>> 25 = 0x7d then count + 1
  else if group insn = 0 then
    if insn &&& 0x0f900000 = 0x01000000 ∧ insn >>> 4 &&& 15 = 1 ∧
      insn &&& 0x0ffffff0 = 0x01200010 then count + 1
    -- `case 0` runs on into `case 5`.
    else count + 1
  else if group insn = 5 then count + 1
  else if rdOf insn = 15 ∨ rnOf insn = 15 then otherCases insn count
  else count

end Parser

/-- The forms of words that the parser tells apart. -/
inductive Form
  | branch | branchExchange | dataRegister | dataImmediate | loadImmediate | loadRegister
  | loadMultiple
  deriving DecidableEq

namespace Form

/-- The words of a form.  `B`, `BL` and the unconditional `BLX` are branches, `BX` and `BLX`
with a register exchange; the data processing words are those whose opcode is not a
comparison without the S bit. -/
def Is : Form → BitVec 32 → Prop
  | branch, insn => group insn = 5
  | branchExchange, insn => Conditional insn ∧ insn &&& 0x0fffffd0 = 0x012fff10
  | dataRegister, insn => Conditional insn ∧ group insn = 0 ∧ insn &&& 0x90 ≠ 0x90 ∧
    insn &&& 0x01900000 ≠ 0x01000000
  | dataImmediate, insn => Conditional insn ∧ group insn = 1 ∧ insn &&& 0x01900000 ≠ 0x01000000
  | loadImmediate, insn => Conditional insn ∧ group insn = 2 ∧ insn.getLsbD 20
  | loadRegister, insn => Conditional insn ∧ group insn = 3 ∧ ¬insn.getLsbD 4 ∧ insn.getLsbD 20
  | loadMultiple, insn => Conditional insn ∧ group insn = 4 ∧ insn.getLsbD 20

instance : ∀ f insn, Decidable (Is f insn)
  | branch, _ => inferInstanceAs (Decidable (_ = _))
  | branchExchange, _ | dataRegister, _ | dataImmediate, _ | loadImmediate, _ | loadRegister, _
  | loadMultiple, _ => inferInstanceAs (Decidable (_ ∧ _))

/-- `TST`, `TEQ`, `CMP` and `CMN` write no register. -/
def Compares (insn : BitVec 32) : Prop := insn.getLsbD 24 ∧ ¬insn.getLsbD 23

instance (insn : BitVec 32) : Decidable (Compares insn) := inferInstanceAs (Decidable (_ ∧ _))

/-- A word of the form writes the program counter. -/
def WritesPC : Form → BitVec 32 → Prop
  | branch, _ | branchExchange, _ => True
  | dataRegister, insn | dataImmediate, insn => rdOf insn = 15 ∧ ¬Compares insn
  | loadImmediate, insn | loadRegister, insn => rdOf insn = 15
  | loadMultiple, insn => insn.getLsbD 15

instance : ∀ f insn, Decidable (WritesPC f insn)
  | branch, _ | branchExchange, _ => .isTrue trivial
  | dataRegister, _ | dataImmediate, _ => inferInstanceAs (Decidable (_ ∧ _))
  | loadImmediate, _ | loadRegister, _ | loadMultiple, _ => inferInstanceAs (Decidable (_ = _))

/-- The words of a form that are counted as they should be. -/
def CountedRight : Form → BitVec 32 → Prop
  | branch, _ | branchExchange, _ | loadImmediate, _ => True
  | dataRegister, insn => rdOf insn = 15 ∧ ¬Compares insn
  | dataImmediate, insn => ¬(rdOf insn = 15 ∧ insn.getLsbD 24 ∧ insn.getLsbD 20)
  | loadRegister, insn => rdOf insn = 15 ↔ rnOf insn = 15
  | loadMultiple, insn => insn.getLsbD 15 → rdOf insn = 15 ∨ rnOf insn = 15

instance : ∀ f insn, Decidable (CountedRight f insn)
  | branch, _ | branchExchange, _ | loadImmediate, _ => .isTrue trivial
  | dataRegister, _ => inferInstanceAs (Decidable (_ ∧ _))
  | dataImmediate, _ => inferInstanceAs (Decidable (¬_))
  | loadRegister, _ => inferInstanceAs (Decidable (_ ↔ _))
  | loadMultiple, _ => inferInstanceAs (Decidable (_ → _))

end Form

variable {insn : BitVec 32} {count : UInt32}

theorem group_eq_iff {c : BitVec 32} (hc : c <<< 25 >>> 25 = c) :
    group insn = c ↔ insn &&& 0x0e000000 = c <<< 25 :=
  shiftRight_and_eq_iff (by decide) hc

theorem group_branchExchange (h : insn &&& 0x0fffffd0 = 0x012fff10) : group insn = 0 :=
  (group_eq_iff (by decide)).2 (and_of_and h (by decide))

theorem opcode_eq (insn : BitVec 32) :
    insn &&& 0x01900000 =
      (if insn.getLsbD 24 then 0x01000000#32 else 0#32) |||
        ((if insn.getLsbD 23 then 0x00800000#32 else 0#32) |||
          if insn.getLsbD 20 then 0x00100000#32 else 0#32) := by
  have h₂₄ := BitVec.and_twoPow insn 24
  have h₂₃ := BitVec.and_twoPow insn 23
  have h₂₀ := BitVec.and_twoPow insn 20
  exact and_or h₂₄ (and_or h₂₃ h₂₀)

theorem getInsnParser_group_zero (h : group insn = 0) : getInsnParser insn count = count + 1 := by
  simp [getInsnParser, h]

theorem getInsnParser_branch (h : group insn = 5) : getInsnParser insn count = count + 1 := by
  simp [getInsnParser, h]

theorem getInsnParser_other (hcond : Conditional insn) (h₀ : group insn ≠ 0)
    (h₅ : group insn ≠ 5) :
    getInsnParser insn count =
      if rdOf insn = 15 ∨ rnOf insn = 15 then otherCases insn count else count := by
  rw [getInsnParser, if_neg fun h => hcond h.1, if_neg h₀, if_neg h₅]

theorem count_eq_iff {p q : Prop} [Decidable p] [Decidable q] :
    (if p then count + 1 else count) = (if q then count + 1 else count) ↔ (p ↔ q) := by
  by_cases hp : p <;> by_cases hq : q <;> simp [hp, hq]

theorem otherCases_one (h : group insn = 1) :
    otherCases insn count =
      if insn &&& 0x01900000 = 0x01900000 then count
      else if rdOf insn = 15 then count + 1 else count := by
  rw [otherCases, if_neg (by rw [h]; decide), if_pos h]

theorem otherCases_two (h : group insn = 2) :
    otherCases insn count =
      if insn.getLsbD 20 ∧ rdOf insn = 15 then count + 1 else count := by
  rw [otherCases, if_neg (by rw [h]; decide), if_neg (by rw [h]; decide), if_pos h]

theorem otherCases_three (h : group insn = 3) :
    otherCases insn count =
      if ¬insn.getLsbD 4 ∧ insn.getLsbD 20 ∧ rnOf insn = 15 then count + 1 else count := by
  rw [otherCases, if_neg (by rw [h]; decide), if_neg (by rw [h]; decide),
    if_neg (by rw [h]; decide), if_pos h]

theorem otherCases_four (h : group insn = 4) :
    otherCases insn count =
      if insn.getLsbD 20 ∧ insn.getLsbD 15 then count + 1 else count := by
  rw [otherCases, if_neg (by rw [h]; decide), if_neg (by rw [h]; decide),
    if_neg (by rw [h]; decide), if_neg (by rw [h]; decide), if_pos h]

theorem getInsnParser_dataImmediate (h : Form.dataImmediate.Is insn) :
    getInsnParser insn count =
      if rdOf insn = 15 ∧ insn &&& 0x01900000 ≠ 0x01900000 then count + 1 else count := by
  obtain ⟨hcond, hgroup, -⟩ := h
  rw [getInsnParser_other hcond (by rw [hgroup]; decide) (by rw [hgroup]; decide),
    otherCases_one hgroup]
  by_cases hrd : rdOf insn = 15
  · by_cases hop : insn &&& 0x01900000 = 0x01900000
    · rw [if_pos (.inl hrd), if_pos hop, if_neg fun h => h.2 hop]
    · rw [if_pos (.inl hrd), if_neg hop, if_pos hrd, if_pos ⟨hrd, hop⟩]
  · rw [if_neg hrd, ite_self, ite_self, if_neg fun h => hrd h.1]

theorem getInsnParser_loadImmediate (h : Form.loadImmediate.Is insn) :
    getInsnParser insn count = if rdOf insn = 15 then count + 1 else count := by
  obtain ⟨hcond, hgroup, hload⟩ := h
  rw [getInsnParser_other hcond (by rw [hgroup]; decide) (by rw [hgroup]; decide),
    otherCases_two hgroup]
  by_cases hrd : rdOf insn = 15
  · rw [if_pos (.inl hrd), if_pos ⟨hload, hrd⟩, if_pos hrd]
  · rw [if_neg (not_and_of_not_right _ hrd), ite_self, if_neg hrd]

theorem getInsnParser_loadRegister (h : Form.loadRegister.Is insn) :
    getInsnParser insn count = if rnOf insn = 15 then count + 1 else count := by
  obtain ⟨hcond, hgroup, hbit, hload⟩ := h
  rw [getInsnParser_other hcond (by rw [hgroup]; decide) (by rw [hgroup]; decide),
    otherCases_three hgroup]
  by_cases hrn : rnOf insn = 15
  · rw [if_pos (.inr hrn), if_pos ⟨hbit, hload, hrn⟩, if_pos hrn]
  · rw [if_neg (not_and_of_not_right _ (not_and_of_not_right _ hrn)), ite_self, if_neg hrn]

theorem getInsnParser_loadMultiple (h : Form.loadMultiple.Is insn) :
    getInsnParser insn count =
      if insn.getLsbD 15 ∧ (rdOf insn = 15 ∨ rnOf insn = 15) then count + 1 else count := by
  obtain ⟨hcond, hgroup, hload⟩ := h
  rw [getInsnParser_other hcond (by rw [hgroup]; decide) (by rw [hgroup]; decide),
    otherCases_four hgroup]
  by_cases hreg : rdOf insn = 15 ∨ rnOf insn = 15
  · rw [if_pos hreg]
    exact if_congr ⟨fun h => ⟨h.2, hreg⟩, fun h => ⟨hload, h.1⟩⟩ rfl rfl
  · rw [if_neg hreg, if_neg fun h => hreg h.2]

theorem dataImmediate_right_iff (h : Form.dataImmediate.Is insn) :
    (rdOf insn = 15 ∧ insn &&& 0x01900000 ≠ 0x01900000 ↔ Form.dataImmediate.WritesPC insn) ↔
      Form.dataImmediate.CountedRight insn := by
  have hop := h.2.2
  rw [opcode_eq] at hop ⊢
  simp only [Form.WritesPC, Form.CountedRight, Form.Compares]
  by_cases hrd : rdOf insn = 15
  · generalize insn.getLsbD 24 = b₂₄ at hop ⊢
    generalize insn.getLsbD 23 = b₂₃ at hop ⊢
    generalize insn.getLsbD 20 = b₂₀ at hop ⊢
    simp only [hrd, true_and]
    revert b₂₄ b₂₃ b₂₀
    decide
  · simp only [hrd, false_and, not_false_eq_true]

/-- A word of a form raises the count by one if it writes the program counter and leaves it
otherwise, for exactly these words. -/
theorem getInsnParser_counts_iff (f : Form) (insn : BitVec 32) (count : UInt32)
    (h : f.Is insn) :
    getInsnParser insn count = (if f.WritesPC insn then count + 1 else count) ↔
      f.CountedRight insn := by
  cases f with
  | branch => simp [getInsnParser_branch h, Form.WritesPC, Form.CountedRight]
  | branchExchange =>
    simp [getInsnParser_group_zero (group_branchExchange h.2), Form.WritesPC, Form.CountedRight]
  | dataRegister =>
    rw [getInsnParser_group_zero h.2.1, eq_comm]
    by_cases hpc : Form.dataRegister.WritesPC insn
    · exact iff_of_true (if_pos hpc) hpc
    · rw [if_neg hpc]
      exact iff_of_false (by simp) hpc
  | dataImmediate =>
    rw [getInsnParser_dataImmediate h, count_eq_iff, dataImmediate_right_iff h]
  | loadImmediate =>
    rw [getInsnParser_loadImmediate h, count_eq_iff]
    exact iff_of_true Iff.rfl trivial
  | loadRegister =>
    rw [getInsnParser_loadRegister h, count_eq_iff]
    exact Iff.comm
  | loadMultiple =>
    rw [getInsnParser_loadMultiple h, count_eq_iff]
    exact and_iff_left_iff_imp

/-- `MOV PC, LR` with the S bit clear, which is counted right. -/
theorem movPc_counts_iff :
    getInsnParser 0xe1a0f00e 0 = (if Form.dataRegister.WritesPC 0xe1a0f00e then 0 + 1 else 0) ↔
      Form.dataRegister.CountedRight 0xe1a0f00e :=
  getInsnParser_counts_iff .dataRegister 0xe1a0f00e 0 (by decide)

/-- `ADD R0, R0, R1` is counted, `LDR PC, [R1, R2]` is not. -/
theorem add_counted_ldr_not :
    Form.dataRegister.Is 0xe0800001 ∧ ¬Form.dataRegister.WritesPC 0xe0800001 ∧
      getInsnParser 0xe0800001 0 = 1 ∧
      Form.loadRegister.Is 0xe791f002 ∧ Form.loadRegister.WritesPC 0xe791f002 ∧
      getInsnParser 0xe791f002 0 = 0 := by
  decide

end M2M.Vpmu.PcChanges
