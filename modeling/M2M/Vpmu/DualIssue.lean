import M2M.Vpmu.BlockCounts

/-! The ticks that dual issue takes off a block.  `dual_issue_check` reads cells of its arrays
that it has not assigned, so the words of a pair may leave open whether it is issued at once. -/

namespace M2M.Vpmu.Translation

open M2M.Lib.Masks M2M.Vpmu.ArmTicks

section Pair

/-- The classes of the words that `dual_issue_check` tells apart. -/
inductive Kind
  | unassigned | arith | loadStore | other
  deriving DecidableEq

def kind (insn : BitVec 32) : Kind :=
  if insn &&& 0x0f900000 = 0x03000000 then .unassigned
  else if Miscellaneous insn then .unassigned
  else if DataProcessing insn then .arith
  else if insn >>> 24 &&& 0xf = 0x4 ∨ insn >>> 24 &&& 0xf = 0x5 then .loadStore
  else .other

/-- The cells after the loop body for a word of a class. -/
def Locals.assignKind (l : Locals) (insn : BitVec 32) : Kind → Locals
  | .unassigned => l
  | .arith => ⟨l.isLs, 1, insn >>> 16 &&& 0xf, insn &&& 0xf, insn >>> 12 &&& 0xf⟩
  | .loadStore => ⟨1, l.isArith, insn >>> 16 &&& 0xf, l.rm, insn >>> 12 &&& 0xf⟩
  | .other => ⟨l.isLs, l.isArith, insn >>> 16 &&& 0xf, l.rm, insn >>> 12 &&& 0xf⟩

theorem Locals.assign_eq (l : Locals) (insn : BitVec 32) :
    l.assign insn = l.assignKind insn (kind insn) := by
  rw [Locals.assign, kind]
  split
  · rfl
  split
  · rfl
  split
  · rfl
  split
  · rfl
  · rfl

/-- The destinations and the base registers of two words do not meet. -/
def Apart (a b : BitVec 32) : Prop :=
  a >>> 12 &&& 0xf ≠ b >>> 12 &&& 0xf ∧ a >>> 12 &&& 0xf ≠ b >>> 16 &&& 0xf ∧
    a >>> 16 &&& 0xf ≠ b >>> 12 &&& 0xf

instance (a b : BitVec 32) : Decidable (Apart a b) := inferInstanceAs (Decidable (_ ∧ _))

/-- The pairs that `dual_issue_check` decides by the cells that it has assigned: an arithmetic
instruction before a load or store, two arithmetic instructions of which each writes the operand
of the other, and the words whose registers meet. -/
def Decided (a b : BitVec 32) : Prop :=
  kind a ≠ .unassigned ∧ kind b ≠ .unassigned ∧
    (kind a = .arith ∧ kind b = .loadStore ∨
      (kind a = .arith ∧ kind b = .arith ∧
        a &&& 0xf#32 = b >>> 12 &&& 0xf ∧ b &&& 0xf#32 = a >>> 12 &&& 0xf) ∨
      ¬Apart a b)

instance (a b : BitVec 32) : Decidable (Decided a b) := inferInstanceAs (Decidable (_ ∧ _))

def dualIssued (u : Unset) (a b : BitVec 32) : Bool :=
  reduces (u.first.assign a) (u.second.assign b)

/-- Cells that no field of a word is equal to, with both flags set. -/
def Unset.raised : Unset := ⟨⟨1, 1, 16, 16, 16⟩, ⟨1, 1, 17, 17, 17⟩, 0, 0⟩

def Unset.swapped : Unset := ⟨⟨1, 0, 16, 16, 16⟩, ⟨0, 1, 17, 17, 17⟩, 0, 0⟩

def Unset.met (b : BitVec 32) : Unset :=
  ⟨⟨1, 1, 16, b >>> 12 &&& 0xf, 16⟩, ⟨1, 1, 17, 17, 17⟩, 0, 0⟩

theorem field_ne (x v : BitVec 32) (h : v &&& 0xf ≠ v) : x &&& 0xf ≠ v := by
  rintro rfl
  rw [BitVec.and_assoc, BitVec.and_self] at h
  exact h rfl

variable {a b : BitVec 32}

section Reduces

variable {first second : Locals}

theorem reduces_first (h : first.isArith = 1) (h' : second.isLs = 1) :
    reduces first second = decide (Disjoint first second) :=
  if_pos ⟨h, h'⟩

theorem reduces_second (h : second.isLs ≠ 1) (harith : second.isArith = 1)
    (hls : first.isLs = 1) : reduces first second = decide (Disjoint second first) := by
  rw [reduces, if_neg fun hfirst => h hfirst.2, if_pos ⟨harith, hls⟩]

theorem reduces_eq_false (h : ¬Disjoint first second) (h' : ¬Disjoint second first) :
    reduces first second = false := by
  rw [reduces]
  split
  · exact decide_eq_false h
  split
  · exact decide_eq_false h'
  · rfl

theorem disjoint_first (ha : kind a ≠ .unassigned) (hb : kind b ≠ .unassigned) :
    Disjoint (first.assignKind a (kind a)) (second.assignKind b (kind b)) ↔
      Apart a b ∧ (first.assignKind a (kind a)).rm ≠ b >>> 12 &&& 0xf := by
  have hassigned : ∀ (l : Locals) {insn : BitVec 32}, kind insn ≠ .unassigned →
      (l.assignKind insn (kind insn)).rd = insn >>> 12 &&& 0xf ∧
        (l.assignKind insn (kind insn)).rn = insn >>> 16 &&& 0xf := by
    intro l insn h
    cases hkind : kind insn with
    | unassigned => exact absurd hkind h
    | arith => exact ⟨rfl, rfl⟩
    | loadStore => exact ⟨rfl, rfl⟩
    | other => exact ⟨rfl, rfl⟩
  rw [Disjoint, Apart, (hassigned first ha).1, (hassigned first ha).2, (hassigned second hb).1,
    (hassigned second hb).2]
  exact ⟨fun ⟨hrd, hrn, hrm, hbase⟩ => ⟨⟨hrd, hrn, hbase⟩, hrm⟩,
    fun ⟨⟨hrd, hrn, hbase⟩, hrm⟩ => ⟨hrd, hrn, hrm, hbase⟩⟩

theorem Apart.symm (h : Apart a b) : Apart b a := ⟨h.1.symm, h.2.2.symm, h.2.1.symm⟩

theorem disjoint_second (ha : kind a ≠ .unassigned) (hb : kind b ≠ .unassigned) :
    Disjoint (second.assignKind b (kind b)) (first.assignKind a (kind a)) ↔
      Apart a b ∧ (second.assignKind b (kind b)).rm ≠ a >>> 12 &&& 0xf :=
  (disjoint_first hb ha).trans (and_congr_left' ⟨Apart.symm, Apart.symm⟩)

end Reduces

theorem field_ne_sixteen (x : BitVec 32) : x &&& 15#32 ≠ 16#32 := field_ne x 16 (by decide)

theorem field_ne_seventeen (x : BitVec 32) : x &&& 15#32 ≠ 17#32 := field_ne x 17 (by decide)

theorem dualIssued_eq (u : Unset) : dualIssued u a b =
    reduces (u.first.assignKind a (kind a)) (u.second.assignKind b (kind b)) := by
  rw [dualIssued, Locals.assign_eq, Locals.assign_eq]

theorem dualIssued_clear (h : kind a = .unassigned ∨ kind b = .unassigned ∨
    kind a = .arith ∧ kind b ≠ .loadStore) : dualIssued .clear a b = false := by
  rw [dualIssued_eq]
  cases hka : kind a <;> cases hkb : kind b <;>
    simp_all [Locals.assignKind, reduces, Unset.clear]

theorem dualIssued_raised_eq : dualIssued .raised a b =
    decide (Disjoint (Unset.raised.first.assignKind a (kind a))
      (Unset.raised.second.assignKind b (kind b))) := by
  rw [dualIssued_eq]
  apply reduces_first
  · cases kind a <;> rfl
  · cases kind b <;> rfl

theorem dualIssued_raised_unassigned (h : kind a = .unassigned ∨ kind b = .unassigned) :
    dualIssued .raised a b = true := by
  rw [dualIssued_raised_eq, decide_eq_true_eq]
  cases hka : kind a <;> cases hkb : kind b <;>
    simp_all [Locals.assignKind, Disjoint, Unset.raised, (field_ne_sixteen _).symm,
      field_ne_seventeen]

theorem dualIssued_raised (ha : kind a ≠ .unassigned) (hb : kind b ≠ .unassigned) :
    dualIssued .raised a b = true ↔
      Apart a b ∧ (kind a = .arith → a &&& 0xf#32 ≠ b >>> 12 &&& 0xf) := by
  rw [dualIssued_raised_eq, decide_eq_true_eq, disjoint_first ha hb]
  refine and_congr_right fun _ => ?_
  cases hka : kind a with
  | unassigned => exact absurd hka ha
  | arith => exact ⟨fun h _ => h, fun h => h rfl⟩
  | loadStore => exact iff_of_true (field_ne_sixteen _).symm (by simp)
  | other => exact iff_of_true (field_ne_sixteen _).symm (by simp)

theorem dualIssued_swapped (ha : kind a = .arith) (hb : kind b = .arith ∨ kind b = .other) :
    dualIssued .swapped a b = true ↔
      Apart a b ∧ (kind b = .arith → b &&& 0xf#32 ≠ a >>> 12 &&& 0xf) := by
  have hassigned : kind a ≠ .unassigned ∧ kind b ≠ .unassigned := by
    rw [ha]
    exact ⟨by decide, by rcases hb with hb | hb <;> rw [hb] <;> decide⟩
  have hcells : (Unset.swapped.second.assignKind b (kind b)).isLs = 0 ∧
      (Unset.swapped.second.assignKind b (kind b)).isArith = 1 := by
    rcases hb with hb | hb
    · rw [hb]
      exact ⟨rfl, rfl⟩
    · rw [hb]
      exact ⟨rfl, rfl⟩
  have hls : (Unset.swapped.first.assignKind a (kind a)).isLs = 1 := by
    rw [ha]
    rfl
  rw [dualIssued_eq, reduces_second (hcells.1.trans_ne (by decide)) hcells.2 hls,
    decide_eq_true_eq, disjoint_second hassigned.1 hassigned.2]
  refine and_congr_right fun _ => ?_
  rcases hb with hb | hb
  · rw [hb]
    exact ⟨fun h _ => h, fun h => h rfl⟩
  · rw [hb]
    exact iff_of_true (field_ne_seventeen _).symm (by simp)

theorem dualIssued_met (ha : kind a = .loadStore ∨ kind a = .other) (hb : kind b ≠ .unassigned) :
    dualIssued (.met b) a b = false := by
  rw [dualIssued_eq]
  cases hka : kind a <;> cases hkb : kind b <;>
    simp_all [Locals.assignKind, reduces, Disjoint, Unset.met]

theorem Decided.dualIssued_congr (h : Decided a b) (u v : Unset) :
    dualIssued u a b = dualIssued v a b := by
  obtain ⟨ha, hb, ⟨hka, hkb⟩ | ⟨hka, hkb, hrm, hrm'⟩ | hmeet⟩ := h
  · have hissued : ∀ u, dualIssued u a b =
        decide (Apart a b ∧ a &&& 0xf#32 ≠ b >>> 12 &&& 0xf) := fun u => by
      rw [dualIssued_eq, reduces_first (by rw [hka]; rfl) (by rw [hkb]; rfl)]
      refine decide_eq_decide.2 ((disjoint_first ha hb).trans ?_)
      rw [hka]
      rfl
    rw [hissued, hissued]
  · have hissued : ∀ u, dualIssued u a b = false := fun u => by
      rw [dualIssued_eq]
      refine reduces_eq_false (fun h => ?_) (fun h => ?_)
      · refine ((disjoint_first ha hb).1 h).2 ?_
        rw [hka]
        exact hrm
      · refine ((disjoint_second ha hb).1 h).2 ?_
        rw [hkb]
        exact hrm'
    rw [hissued, hissued]
  · have hissued : ∀ u, dualIssued u a b = false := fun u => by
      rw [dualIssued_eq]
      exact reduces_eq_false (fun h => hmeet ((disjoint_first ha hb).1 h).1)
        (fun h => hmeet ((disjoint_second ha hb).1 h).1)
    rw [hissued, hissued]

/-- The pairs that are decided by their words are those that come out alike whatever is on the
stack. -/
theorem decided_iff : Decided a b ↔ ∀ u v, dualIssued u a b = dualIssued v a b := by
  refine ⟨Decided.dualIssued_congr, fun h => ?_⟩
  have hassigned : ¬(kind a = .unassigned ∨ kind b = .unassigned) := fun hkind => by
    have hclear : dualIssued .clear a b = false :=
      dualIssued_clear (hkind.imp_right .inl)
    have hraised := dualIssued_raised_unassigned hkind
    rw [h .raised .clear, hclear] at hraised
    cases hraised
  obtain ⟨ha, hb⟩ := not_or.1 hassigned
  refine ⟨ha, hb, ?_⟩
  by_contra hno
  obtain ⟨hpair, hboth, hapart⟩ : ¬(kind a = .arith ∧ kind b = .loadStore) ∧
      ¬(kind a = .arith ∧ kind b = .arith ∧
        a &&& 0xf#32 = b >>> 12 &&& 0xf ∧ b &&& 0xf#32 = a >>> 12 &&& 0xf) ∧ Apart a b := by
    simpa only [not_or, not_not] using hno
  cases hka : kind a with
  | unassigned => exact ha hka
  | arith =>
    have hkb : kind b ≠ .loadStore := fun hls => hpair ⟨hka, hls⟩
    have hclear : dualIssued .clear a b = false := dualIssued_clear (.inr (.inr ⟨hka, hkb⟩))
    have hrm : a &&& 0xf#32 = b >>> 12 &&& 0xf := by
      by_contra hne
      have hraised := (dualIssued_raised ha hb).2 ⟨hapart, fun _ => hne⟩
      rw [h .raised .clear, hclear] at hraised
      cases hraised
    have hother : kind b = .arith ∨ kind b = .other := by
      cases hb' : kind b <;> simp_all
    have hswapped := (dualIssued_swapped hka hother).2
      ⟨hapart, fun harith hrm' => hboth ⟨hka, harith, hrm, hrm'⟩⟩
    rw [h .swapped .clear, hclear] at hswapped
    cases hswapped
  | loadStore =>
    have hraised := (dualIssued_raised ha hb).2 ⟨hapart, by simp [hka]⟩
    rw [h .raised (.met b), dualIssued_met (.inl hka) hb] at hraised
    cases hraised
  | other =>
    have hraised := (dualIssued_raised ha hb).2 ⟨hapart, by simp [hka]⟩
    rw [h .raised (.met b), dualIssued_met (.inr hka) hb] at hraised
    cases hraised

end Pair

section Block

/-- The words of a block in pairs, as they fill the buffer. -/
def pairs : List (BitVec 32) → List (BitVec 32 × BitVec 32)
  | [] => []
  | [_] => []
  | a :: b :: insns => (a, b) :: pairs insns

/-- The pairs of a block that are issued at once, where a pair is checked in the call for its
second word. -/
def issuedPairs (u : Nat → Unset) : List (BitVec 32) → Nat
  | [] => 0
  | [_] => 0
  | a :: b :: insns => (dualIssued (u 1) a b).toNat + issuedPairs (fun n => u (n + 2)) insns

theorem issuedPairs_le (u : Nat → Unset) (insns : List (BitVec 32)) :
    2 * issuedPairs u insns ≤ insns.length := by
  induction insns using pairs.induct generalizing u with
  | case1 => exact Nat.le_refl 0
  | case2 => exact Nat.zero_le 1
  | case3 a b insns ih =>
    have hle := Bool.toNat_le (dualIssued (u 1) a b)
    have hrest := ih fun n => u (n + 2)
    rw [issuedPairs, List.length_cons, List.length_cons]
    omega

/-- What is on the stack in the calls for a pair and for the rest of a block. -/
def behind (v : Unset) (u : Nat → Unset) : Nat → Unset
  | 0 => v
  | 1 => v
  | n + 2 => u n

theorem issuedPairs_behind (v : Unset) (u : Nat → Unset) (a b : BitVec 32)
    (insns : List (BitVec 32)) : issuedPairs (behind v u) (a :: b :: insns) =
      (dualIssued v a b).toNat + issuedPairs u insns :=
  rfl

theorem issuedPairs_congr_iff (insns : List (BitVec 32)) :
    (∀ u v, issuedPairs u insns = issuedPairs v insns) ↔
      ∀ p ∈ pairs insns, Decided p.1 p.2 := by
  induction insns using pairs.induct with
  | case1 => exact iff_of_true (fun _ _ => rfl) (by simp [pairs])
  | case2 => exact iff_of_true (fun _ _ => rfl) (by simp [pairs])
  | case3 a b insns ih =>
    rw [pairs, List.forall_mem_cons, ← ih, decided_iff]
    constructor
    · intro h
      refine ⟨fun u v => ?_, fun u v => ?_⟩
      · have hpair := h (behind u fun _ => .clear) (behind v fun _ => .clear)
        rw [issuedPairs_behind, issuedPairs_behind] at hpair
        have hsame := Nat.add_right_cancel hpair
        revert hsame
        cases dualIssued u a b <;> cases dualIssued v a b <;> simp
      · have hrest := h (behind .clear u) (behind .clear v)
        rw [issuedPairs_behind, issuedPairs_behind] at hrest
        exact Nat.add_left_cancel hrest
    · rintro ⟨hpair, hrest⟩ u v
      rw [issuedPairs, issuedPairs, hpair (u 1) (v 1), hrest]

end Block

section Run

variable {env : Env} {u : Unset} {insn : BitVec 32} {s : State} {tb t : ExtraTBInfo}

/-- What the other counters of a word leave alone. -/
structure SameIssue (tb t : ExtraTBInfo) : Prop where
  index : t.insnBufIndex = tb.insnBufIndex
  buf : t.insnBuf = tb.insnBuf
  ticks : t.ticks = tb.ticks
  reduce : t.dualIssueReduceTicks = tb.dualIssueReduceTicks

theorem sameIssue_parseInsn (env : Env) (insn : BitVec 32) (tb : ExtraTBInfo) :
    SameIssue tb (parseInsn env insn tb) := by
  rw [parseInsn]
  split
  · exact ⟨rfl, rfl, rfl, rfl⟩
  · exact ⟨rfl, rfl, rfl, rfl⟩

theorem sameIssue_countPath (tb : ExtraTBInfo) (p : Path) : SameIssue tb (tb.countPath p) := by
  cases p with
  | branch => exact ⟨rfl, rfl, rfl, rfl⟩
  | load => exact ⟨rfl, rfl, rfl, rfl⟩
  | store => exact ⟨rfl, rfl, rfl, rfl⟩
  | other => exact ⟨rfl, rfl, rfl, rfl⟩

theorem disasArmInsn_sameIssue {t : State} (h : pipelineTicks env u insn s = some t) :
    ∃ t', disasArmInsn env u insn s = some t' ∧ SameIssue t.tb t'.tb := by
  have hparse := sameIssue_parseInsn env insn t.tb
  have hcount := sameIssue_countPath (parseInsn env insn t.tb) (path env insn)
  refine ⟨_, by rw [disasArmInsn, h, Option.map_some], ?_⟩
  exact ⟨hcount.index.trans hparse.index, hcount.buf.trans hparse.buf,
    hcount.ticks.trans hparse.ticks, hcount.reduce.trans hparse.reduce⟩

/-- How long `get_arm_ticks` says that a word takes. -/
def cost (env : Env) (u : Unset) (insn : BitVec 32) (tb : ExtraTBInfo) : Nat :=
  (getTicks env.armInstrTime u.rn u.rd insn (tb.toExtraTBInfo.buffered insn)).1.toNat

theorem one_le_cost (htime : ∀ k < ArmInstruction.unknown.index, 1 ≤ env.armInstrTime k) :
    1 ≤ cost env u insn tb :=
  UInt32.le_iff_toNat_le.1
    ((getTicks_spec env.armInstrTime u.rn u.rd insn (tb.toExtraTBInfo.buffered insn)).2.2.2 htime)

theorem cost_lt : cost env u insn tb < 2 ^ 32 := UInt32.toNat_lt _

theorem ticks_timed :
    (timed env u insn tb).ticks = tb.ticks + UInt64.ofNat (cost env u insn tb) := by
  rw [cost, ← UInt32.toNat_toUInt64, UInt64.ofNat_toNat]
  rfl

theorem insnBuf_timed : (timed env u insn tb).insnBuf =
    Function.update tb.insnBuf tb.insnBufIndex (UInt64.ofBitVec (insn.setWidth 64)) :=
  (getTicks_spec env.armInstrTime u.rn u.rd insn (tb.toExtraTBInfo.buffered insn)).1

theorem word_timed_self : (timed env u insn tb).word tb.insnBufIndex = insn := by
  rw [ExtraTBInfo.word, insnBuf_timed, Function.update_self]
  simp

theorem word_timed_of_ne {i : Nat} (h : i ≠ tb.insnBufIndex) :
    (timed env u insn tb).word i = tb.word i := by
  rw [ExtraTBInfo.word, ExtraTBInfo.word, insnBuf_timed, Function.update_of_ne h]

theorem pipelineTicks_eq (hruns : env.RunsArmTicks) :
    pipelineTicks env u insn s = (armTicks env u insn s.tb).map fun tb => { s with tb := tb } := by
  rw [pipelineTicks, if_pos hruns.1, if_pos hruns.2]

theorem disasArmInsn_first (hruns : env.RunsArmTicks) (u : Unset) (insn : BitVec 32)
    (h : s.tb.insnBufIndex = 0) :
    ∃ t, disasArmInsn env u insn s = some t ∧ SameIssue (timed env u insn s.tb) t.tb := by
  have hroom : (timed env u insn s.tb).insnBufIndex ≠ 2 := by
    rw [insnBufIndex_timed, h]
    decide
  apply disasArmInsn_sameIssue (t := ⟨timed env u insn s.tb, s.interlocks⟩)
  rw [pipelineTicks_eq hruns, armTicks_eq env u insn s.tb (by omega), if_neg hroom,
    Option.map_some]

theorem disasArmInsn_second (hruns : env.RunsArmTicks) (u : Unset) (insn : BitVec 32)
    (h : s.tb.insnBufIndex = 1) :
    ∃ t, disasArmInsn env u insn s = some t ∧
      SameIssue ((timed env u insn s.tb).dualIssueCheck u) t.tb := by
  have hfull : (timed env u insn s.tb).insnBufIndex = 2 := by rw [insnBufIndex_timed, h]
  apply disasArmInsn_sameIssue (t := ⟨(timed env u insn s.tb).dualIssueCheck u, s.interlocks⟩)
  rw [pipelineTicks_eq hruns, armTicks_eq env u insn s.tb (by omega), if_pos hfull,
    Option.map_some]

/-- What the words of a block come to, from an empty buffer on: the pairs issued at once, and at
least one tick a word. -/
structure Issued (env : Env) (u : Nat → Unset) (insns : List (BitVec 32)) (tb t : ExtraTBInfo) :
    Prop where
  reduce : t.dualIssueReduceTicks = tb.dualIssueReduceTicks + UInt64.ofNat (issuedPairs u insns)
  ticks : ∃ n, t.ticks = tb.ticks + UInt64.ofNat n ∧ n ≤ insns.length * 2 ^ 32 ∧
    ((∀ k < ArmInstruction.unknown.index, 1 ≤ env.armInstrTime k) → insns.length ≤ n)

theorem ofNat_toNat_bool (c : Bool) (n : UInt64) :
    (if c then n + 1 else n) = n + UInt64.ofNat c.toNat := by
  cases c with
  | false => exact (UInt64.add_zero n).symm
  | true => rfl

theorem reduce_dualIssueCheck (u : Unset) (tb : ExtraTBInfo) :
    (tb.dualIssueCheck u).dualIssueReduceTicks =
      tb.dualIssueReduceTicks + UInt64.ofNat (dualIssued u (tb.word 0) (tb.word 1)).toNat :=
  ofNat_toNat_bool _ _

theorem translate_pair (hruns : env.RunsArmTicks) (u : Nat → Unset) (a b : BitVec 32)
    (h : s.tb.insnBufIndex = 0) :
    ∃ t, translate env u s [a, b] = some t ∧ t.tb.insnBufIndex = 0 ∧
      Issued env u [a, b] s.tb t.tb := by
  obtain ⟨s₁, hs₁, hfirst⟩ := disasArmInsn_first hruns (u 0) a h
  have hindex : s₁.tb.insnBufIndex = 1 := by rw [hfirst.index, insnBufIndex_timed, h]
  obtain ⟨s₂, hs₂, hsecond⟩ := disasArmInsn_second hruns (u 1) b hindex
  have hword : s₁.tb.word 0 = a := by
    rw [ExtraTBInfo.word, hfirst.buf, ← h]
    exact word_timed_self
  have hreduce : s₁.tb.dualIssueReduceTicks = s.tb.dualIssueReduceTicks := hfirst.reduce
  refine ⟨s₂, ?_, hsecond.index, ?_, ?_⟩
  · rw [translate, hs₁, Option.bind_some, translate, hs₂, Option.bind_some, translate]
  · have hself : (timed env (u 1) b s₁.tb).word 1 = b := hindex ▸ word_timed_self
    have hother : (timed env (u 1) b s₁.tb).word 0 = a :=
      (word_timed_of_ne (by omega)).trans hword
    have htimed : (timed env (u 1) b s₁.tb).dualIssueReduceTicks = s₁.tb.dualIssueReduceTicks :=
      rfl
    rw [hsecond.reduce, reduce_dualIssueCheck, hself, hother, htimed, hreduce, issuedPairs,
      issuedPairs, Nat.add_zero]
  · have hticks₁ : s₁.tb.ticks = s.tb.ticks + UInt64.ofNat (cost env (u 0) a s.tb) :=
      hfirst.ticks.trans ticks_timed
    have hticks₂ : s₂.tb.ticks = s₁.tb.ticks + UInt64.ofNat (cost env (u 1) b s₁.tb) :=
      hsecond.ticks.trans ticks_timed
    refine ⟨cost env (u 0) a s.tb + cost env (u 1) b s₁.tb, ?_, ?_, fun htime => ?_⟩
    · rw [hticks₂, hticks₁, UInt64.add_assoc, UInt64.ofNat_add]
    · have ha : cost env (u 0) a s.tb < 2 ^ 32 := cost_lt
      have hb : cost env (u 1) b s₁.tb < 2 ^ 32 := cost_lt
      simp only [List.length_cons, List.length_nil]
      omega
    · exact Nat.add_le_add (one_le_cost htime) (one_le_cost htime)

theorem translate_cons_cons (env : Env) (u : Nat → Unset) (s : State) (a b : BitVec 32)
    (insns : List (BitVec 32)) : translate env u s (a :: b :: insns) =
      (translate env u s [a, b]).bind fun s => translate env (fun n => u (n + 2)) s insns := by
  simp only [translate, Option.bind_assoc, Option.bind_some]

theorem translate_issued (hruns : env.RunsArmTicks) (u : Nat → Unset) (insns : List (BitVec 32))
    (h : s.tb.insnBufIndex = 0) :
    ∃ t, translate env u s insns = some t ∧ Issued env u insns s.tb t.tb := by
  induction insns using pairs.induct generalizing u s with
  | case1 =>
    exact ⟨s, rfl, (UInt64.add_zero _).symm, 0, (UInt64.add_zero _).symm, Nat.zero_le _,
      fun _ => Nat.le_refl 0⟩
  | case2 a =>
    obtain ⟨t, ht, hsame⟩ := disasArmInsn_first hruns (u 0) a h
    have hreduce : t.tb.dualIssueReduceTicks = s.tb.dualIssueReduceTicks := hsame.reduce
    have hcost : cost env (u 0) a s.tb < 2 ^ 32 := cost_lt
    refine ⟨t, ?_, hreduce.trans (UInt64.add_zero _).symm, cost env (u 0) a s.tb,
      hsame.ticks.trans ticks_timed, ?_, one_le_cost⟩
    · rw [translate, ht, Option.bind_some, translate]
    · rw [List.length_singleton, Nat.one_mul]
      exact hcost.le
  | case3 a b insns ih =>
    obtain ⟨t, ht, hindex, hpair⟩ := translate_pair hruns u a b h
    obtain ⟨t', ht', hrest⟩ := ih (fun n => u (n + 2)) hindex
    obtain ⟨n, hn, hle, hge⟩ := hpair.ticks
    obtain ⟨m, hm, hle', hge'⟩ := hrest.ticks
    have hlength : (a :: b :: insns).length = [a, b].length + insns.length := by
      rw [← List.length_append]
      rfl
    have hissued : issuedPairs u (a :: b :: insns) =
        issuedPairs u [a, b] + issuedPairs (fun n => u (n + 2)) insns := by
      rw [issuedPairs, issuedPairs, issuedPairs, Nat.add_zero]
    refine ⟨t', ?_, ?_, n + m, ?_, ?_, fun htime => ?_⟩
    · rw [translate_cons_cons, ht, Option.bind_some, ht']
    · rw [hrest.reduce, hpair.reduce, hissued, UInt64.ofNat_add, UInt64.add_assoc]
    · rw [hm, hn, UInt64.ofNat_add, UInt64.add_assoc]
    · rw [hlength, Nat.add_mul]
      exact Nat.add_le_add hle hle'
    · rw [hlength]
      exact Nat.add_le_add (hge htime) (hge' htime)

theorem translate_idle (hmodel : env.cpuModel = 1) (hruns : ¬env.RunsArmTicks)
    (u : Nat → Unset) (insns : List (BitVec 32)) :
    ∃ t, translate env u s insns = some t ∧ t.tb.ticks = s.tb.ticks ∧
      t.tb.dualIssueReduceTicks = s.tb.dualIssueReduceTicks := by
  induction insns generalizing u s with
  | nil => exact ⟨s, rfl, rfl, rfl⟩
  | cons insn insns ih =>
    have hoff : pipelineTicks env (u 0) insn s = some s :=
      if_neg fun hsim => hruns ⟨hsim, hmodel⟩
    obtain ⟨t, ht, hsame⟩ := disasArmInsn_sameIssue hoff
    obtain ⟨t', ht', hticks, hreduce⟩ := ih (s := t) (fun n => u (n + 1))
    refine ⟨t', ?_, hticks.trans hsame.ticks, hreduce.trans hsame.reduce⟩
    rw [translate, ht, Option.bind_some, ht']

end Run

section Time

variable {env : Env} {s : State} {insns : List (BitVec 32)}

/-- What `HELPER(vpmu_calculate)` reads of the block, with its `icache_ref`. -/
def ExtraTBInfo.stored (tb : ExtraTBInfo) (address : UInt32) (size : UInt16) :
    Counters.ExtraTBInfo where
  insnCount := tb.insnCount
  loadCount := tb.loadCount
  storeCount := tb.storeCount
  ticks := tb.ticks
  icacheAddress := address
  icacheSize := size
  branchCount := tb.branchCount
  allChangesToPCCount := tb.allChangesToPCCount
  dualIssueReduceTicks := tb.dualIssueReduceTicks

theorem ticks_le_calculate {β : Type} (d : Counters.Dinero β) (cfg : Counters.Config)
    (mode : UInt32) (v : Counters.GlobalVPMU β) (tb : Counters.ExtraTBInfo)
    (h : tb.dualIssueReduceTicks.toNat ≤ tb.ticks.toNat)
    (hroom : v.ticks.toNat + tb.ticks.toNat < 2 ^ 64) :
    v.ticks ≤ (v.calculate d cfg mode tb).ticks := by
  have hsum : (v.ticks + tb.ticks).toNat = v.ticks.toNat + tb.ticks.toNat := by
    rw [UInt64.toNat_add, Nat.mod_eq_of_lt hroom]
  have hfetch : (v.icacheSimulate d tb).ticks = v.ticks := by
    rw [Counters.GlobalVPMU.icacheSimulate]
    split
    · split
      · rfl
      · rfl
    · rfl
  have hcount : ∀ w : Counters.GlobalVPMU β, (w.insnCountSimulate mode tb).ticks = w.ticks := by
    intro w
    rw [Counters.GlobalVPMU.insnCountSimulate]
    split
    · unfold Counters.GlobalVPMU.countMode Counters.GlobalVPMU.countBranches
      split_ifs <;> rfl
    · rfl
  rw [Counters.GlobalVPMU.calculate]
  split
  · rw [hcount, Counters.GlobalVPMU.pipelineSimulate]
    split
    · split
      · rw [UInt64.le_iff_toNat_le, hfetch, hsum]
        exact Nat.le_add_right _ _
      · have hle : tb.dualIssueReduceTicks ≤ v.ticks + tb.ticks := by
          rw [UInt64.le_iff_toNat_le, hsum]
          exact h.trans (Nat.le_add_left _ _)
        rw [UInt64.le_iff_toNat_le, hfetch, UInt64.toNat_sub_of_le _ _ hle, hsum]
        omega
    · rw [hfetch]
      exact UInt64.le_refl _
  · exact UInt64.le_refl _

theorem translate_start (hmodel : env.cpuModel = 1) (u : Nat → Unset)
    (interlocks : DataSheet.Interlocks) (b : Block) :
    ∃ t, translate env u (.start interlocks) b.insns = some t ∧
      t.tb.dualIssueReduceTicks.toNat =
        (if env.RunsArmTicks then issuedPairs u b.insns else 0) ∧
      ((∀ k < ArmInstruction.unknown.index, 1 ≤ env.armInstrTime k) →
        t.tb.dualIssueReduceTicks.toNat ≤ t.tb.ticks.toNat) := by
  have hstart : (State.start interlocks).tb.dualIssueReduceTicks = 0 := rfl
  have hticks₀ : (State.start interlocks).tb.ticks = 0 := rfl
  by_cases hruns : env.RunsArmTicks
  · obtain ⟨t, ht, hreduce, n, hticks, hn, hcost⟩ :=
      translate_issued (s := .start interlocks) hruns u b.insns rfl
    have hhalf := issuedPairs_le u b.insns
    have hlength := b.length_le
    have hreduced : t.tb.dualIssueReduceTicks.toNat = issuedPairs u b.insns := by
      rw [hreduce, hstart, UInt64.zero_add, UInt64.toNat_ofNat_of_lt']
      exact (show issuedPairs u b.insns ≤ 1024 by omega).trans_lt (by decide)
    have hticked : t.tb.ticks.toNat = n := by
      rw [hticks, hticks₀, UInt64.zero_add, UInt64.toNat_ofNat_of_lt']
      have hle : n ≤ 2 ^ 42 := hn.trans (Nat.mul_le_mul_right (2 ^ 32) hlength)
      exact hle.trans_lt (by decide)
    refine ⟨t, ht, ?_, fun htime => ?_⟩
    · rw [if_pos hruns, hreduced]
    · rw [hreduced, hticked]
      have hall := hcost htime
      omega
  · obtain ⟨t, ht, hticks, hreduce⟩ :=
      translate_idle (s := .start interlocks) hmodel hruns u b.insns
    have hzero : t.tb.dualIssueReduceTicks.toNat = 0 := by
      rw [hreduce, hstart]
      rfl
    refine ⟨t, ht, ?_, fun _ => ?_⟩
    · rw [if_neg hruns, hzero]
    · rw [hzero]
      exact Nat.zero_le _

/-- What dual issue promises for a block of `cpu_model` 1: the buffer never overflows, the
reduction is a matter of the words alone and of at most half their number, and the ticks do not
decrease. -/
structure DualIssueRight (b : Block) : Prop where
  room : ∀ env u interlocks, env.cpuModel = 1 →
    (translate env u (.start interlocks) b.insns).isSome
  determined : ∀ env env' u u' interlocks interlocks' s s', env.RunsArmTicks → env'.RunsArmTicks →
    translate env u (.start interlocks) b.insns = some s →
    translate env' u' (.start interlocks') b.insns = some s' →
    s.tb.dualIssueReduceTicks = s'.tb.dualIssueReduceTicks
  half : ∀ env u interlocks s, env.cpuModel = 1 →
    translate env u (.start interlocks) b.insns = some s →
    2 * s.tb.dualIssueReduceTicks.toNat ≤ b.insns.length
  forward : ∀ env u interlocks s, env.cpuModel = 1 →
    (∀ k < ArmInstruction.unknown.index, 1 ≤ env.armInstrTime k) →
    translate env u (.start interlocks) b.insns = some s →
    ∀ {β : Type} (d : Counters.Dinero β) cfg mode (v : Counters.GlobalVPMU β) address size,
      v.ticks.toNat + s.tb.ticks.toNat < 2 ^ 64 →
      v.ticks ≤ (v.calculate d cfg mode (s.tb.stored address size)).ticks

/-- Dual issue keeps its promises for a block exactly when all its pairs are decided. -/
theorem dualIssueRight_iff (b : Block) :
    DualIssueRight b ↔ ∀ p ∈ pairs b.insns, Decided p.1 p.2 := by
  rw [← issuedPairs_congr_iff]
  constructor
  · intro h u v
    have hruns : (Env.user 1 .b fun _ => 1).RunsArmTicks := by decide
    obtain ⟨s, hs, hreduce, -⟩ := translate_start hruns.2 u .start b
    obtain ⟨s', hs', hreduce', -⟩ := translate_start hruns.2 v .start b
    rw [if_pos hruns] at hreduce hreduce'
    rw [← hreduce, ← hreduce', h.determined _ _ u v _ _ s s' hruns hruns hs hs']
  · intro h
    refine ⟨fun env u interlocks hmodel => ?_,
      fun env env' u u' il il' s s' hruns hruns' hs hs' => ?_,
      fun env u interlocks s hmodel hs => ?_, fun env u interlocks s hmodel htime hs => ?_⟩
    · obtain ⟨s, hs, -⟩ := translate_start hmodel u interlocks b
      rw [hs]
      rfl
    · obtain ⟨t, ht, hreduce, -⟩ := translate_start hruns.2 u il b
      obtain ⟨t', ht', hreduce', -⟩ := translate_start hruns'.2 u' il' b
      obtain rfl : t = s := Option.some.inj (ht.symm.trans hs)
      obtain rfl : t' = s' := Option.some.inj (ht'.symm.trans hs')
      rw [← UInt64.toNat_inj, hreduce, hreduce', if_pos hruns, if_pos hruns', h u u']
    · obtain ⟨t, ht, hreduce, -⟩ := translate_start hmodel u interlocks b
      obtain rfl : t = s := Option.some.inj (ht.symm.trans hs)
      rw [hreduce]
      split
      · exact issuedPairs_le u b.insns
      · exact Nat.zero_le _
    · intro β d cfg mode v address size hroom
      obtain ⟨t, ht, -, hle⟩ := translate_start hmodel u interlocks b
      obtain rfl : t = s := Option.some.inj (ht.symm.trans hs)
      exact ticks_le_calculate d cfg mode v _ (hle htime) hroom

/-- `ADD R0, R1, R2` and `ADD R3, R4, R5` are issued at once or not by what is on the stack. -/
theorem adds_not_dualIssueRight :
    ((translate (.user 1 .b fun _ => 1) (fun _ => .clear) (.start .start)
        [0xe0810002, 0xe0843005]).map fun s => s.tb.dualIssueReduceTicks) = some 0 ∧
      ((translate (.user 1 .b fun _ => 1) (fun _ => .raised) (.start .start)
        [0xe0810002, 0xe0843005]).map fun s => s.tb.dualIssueReduceTicks) = some 1 ∧
      ¬DualIssueRight ⟨[0xe0810002, 0xe0843005], by decide⟩ := by
  refine ⟨rfl, rfl, fun h => ?_⟩
  have hruns : (Env.user 1 .b fun _ => 1).RunsArmTicks := by decide
  have hsame := h.determined _ _ (fun _ => .clear) (fun _ => .raised) .start .start _ _ hruns hruns
    rfl rfl
  revert hsame
  decide

end Time

end M2M.Vpmu.Translation
