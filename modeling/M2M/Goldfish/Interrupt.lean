import M2M.Lib.Machine
import Mathlib

/-! The interrupt controller of the board: the enabled lines that are raised are counted, and
reach the processor through one line. -/

open M2M.Lib.Machine

namespace M2M.Goldfish

structure IntState where
  level : BitVec 32
  pendingCount : BitVec 32
  irqEnabled : BitVec 32
  fiqEnabled : BitVec 32
  parentIrq : Bool
  parentFiq : Bool
  deriving DecidableEq

/-- The controller at the start, before the first device is added. -/
def interruptInit : IntState := ⟨0, 0, 0, 0, false, false⟩

/-- `1U << n`, with the count as the shift of the host takes it. -/
def lineMask (n : Nat) : BitVec 32 := BitVec.twoPow 32 (n % 32)

namespace IntState

def update (s : IntState) : IntState :=
  { s with
    parentIrq := s.level &&& s.irqEnabled != 0
    parentFiq := s.level &&& s.fiqEnabled != 0 }

def setIrq (s : IntState) (irq : Fin 32) (level : Bool) : IntState :=
  let mask := lineMask irq
  if level then
    if s.level &&& mask = 0 then
      let count := if s.irqEnabled &&& mask = 0 then s.pendingCount else s.pendingCount + 1
      { s with pendingCount := count, level := s.level ||| mask }.update
    else
      s.update
  else if s.level &&& mask = 0 then
    s.update
  else
    let count := if s.irqEnabled &&& mask = 0 then s.pendingCount else s.pendingCount - 1
    { s with pendingCount := count, level := s.level &&& ~~~mask }.update

/-- Other offsets abort the emulator. -/
def read (s : IntState) : Nat → Option (BitVec 32)
  | 0x00 => some s.pendingCount
  | 0x04 =>
    let pending := s.level &&& s.irqEnabled
    match (List.range 32).find? fun i => pending &&& lineMask i != 0 with
    | some i => some (BitVec.ofNat 32 i)
    | none => some 0
  | _ => none

def write (s : IntState) (offset : Nat) (value : BitVec 32) : Option IntState :=
  let mask := lineMask value.toNat
  match offset with
  | 0x08 => some { s with pendingCount := 0, level := 0 }.update
  | 0x0c =>
    if s.irqEnabled &&& mask = 0 then
      some s.update
    else
      let count := if s.level &&& mask = 0 then s.pendingCount else s.pendingCount - 1
      some { s with pendingCount := count, irqEnabled := s.irqEnabled &&& ~~~mask }.update
  | 0x10 =>
    if s.irqEnabled &&& mask = 0 then
      let count := if s.level &&& mask = 0 then s.pendingCount else s.pendingCount + 1
      some { s with pendingCount := count, irqEnabled := s.irqEnabled ||| mask }.update
    else
      some s.update
  | _ => none

end IntState

/-- What happens to the controller: a device drives its line, or the guest writes a register. -/
inductive IntAction
  | line (irq : Fin 32) (level : Bool)
  | write (offset : Nat) (value : BitVec 32)

def intStep : Step IntState IntAction
  | s, .line irq level => some (s.setIrq irq level)
  | s, .write offset value => s.write offset value

section Lines

/-- The bits that are set, as a set of lines. -/
def lines (v : BitVec 32) : Finset (Fin 32) := Finset.univ.filter fun i => v.getLsbD i = true

variable {v w : BitVec 32} {i : Fin 32} {X Y : Finset (Fin 32)}

@[simp] theorem mem_lines : i ∈ lines v ↔ v.getLsbD i = true := by
  simp [lines]

@[simp] theorem lines_zero : lines 0#32 = ∅ := by
  ext i
  simp

theorem lines_and : lines (v &&& w) = lines v ∩ lines w := by
  ext i
  simp

def lineOf (n : Nat) : Fin 32 := ⟨n % 32, Nat.mod_lt n (by decide)⟩

theorem lineOf_val (i : Fin 32) : lineOf i = i := Fin.ext (Nat.mod_eq_of_lt i.isLt)

theorem getLsbD_lineMask (n : Nat) (i : Fin 32) :
    (lineMask n).getLsbD i = decide (i = lineOf n) := by
  have heq : n % 32 = i.val ↔ i = lineOf n := by
    rw [Fin.ext_iff]
    exact eq_comm
  have hlt : n % 32 < 32 := Nat.mod_lt n (by decide)
  rw [lineMask, BitVec.getLsbD_twoPow]
  simp [heq, hlt]

theorem and_lineMask_eq_zero_iff {n : Nat} : v &&& lineMask n = 0 ↔ lineOf n ∉ lines v := by
  rw [mem_lines, lineMask, BitVec.and_twoPow]
  have hlt : n % 32 < 32 := Nat.mod_lt n (by decide)
  have hne : BitVec.twoPow 32 (n % 32) ≠ 0 := by
    intro h
    have hbit := congrArg (fun x => BitVec.getLsbD x (n % 32)) h
    simp [hlt] at hbit
  change _ ↔ ¬v.getLsbD (n % 32) = true
  by_cases h : v.getLsbD (n % 32) = true
  · simpa [h] using hne
  · simp [h]

theorem lines_or_lineMask (v : BitVec 32) (n : Nat) :
    lines (v ||| lineMask n) = insert (lineOf n) (lines v) := by
  ext i
  rw [mem_lines, BitVec.getLsbD_or, getLsbD_lineMask, Finset.mem_insert, mem_lines]
  simp [or_comm]

theorem lines_and_not_lineMask (v : BitVec 32) (n : Nat) :
    lines (v &&& ~~~lineMask n) = (lines v).erase (lineOf n) := by
  ext i
  rw [mem_lines, BitVec.getLsbD_and, BitVec.getLsbD_not, getLsbD_lineMask, Finset.mem_erase,
    mem_lines]
  simp [and_comm]

theorem ne_zero_iff_lines : v ≠ 0 ↔ (lines v).Nonempty := by
  constructor
  · intro h
    by_contra hempty
    rw [Finset.not_nonempty_iff_eq_empty] at hempty
    refine h (BitVec.eq_of_getLsbD_eq fun i hi => ?_)
    have hmem : (⟨i, hi⟩ : Fin 32) ∉ lines v := by simp [hempty]
    simpa using hmem
  · rintro ⟨i, hi⟩ rfl
    simp at hi

theorem card_insert_inter (hi : i ∉ X) :
    (insert i X ∩ Y).card = if i ∈ Y then (X ∩ Y).card + 1 else (X ∩ Y).card := by
  by_cases hY : i ∈ Y
  · rw [Finset.insert_inter_of_mem hY, if_pos hY]
    exact Finset.card_insert_of_notMem fun h => hi (Finset.mem_inter.mp h).1
  · rw [Finset.insert_inter_of_notMem hY, if_neg hY]

theorem card_erase_inter (hi : i ∈ X) :
    (X.erase i ∩ Y).card = if i ∈ Y then (X ∩ Y).card - 1 else (X ∩ Y).card := by
  rw [Finset.erase_inter]
  by_cases hY : i ∈ Y
  · rw [if_pos hY, Finset.card_erase_of_mem (Finset.mem_inter.mpr ⟨hi, hY⟩)]
  · rw [if_neg hY, Finset.erase_eq_of_notMem fun h => hY (Finset.mem_inter.mp h).2]

end Lines

namespace IntState

variable {s t : IntState}

/-- The lines that are raised and enabled. -/
def pending (s : IntState) : Finset (Fin 32) := lines s.level ∩ lines s.irqEnabled

theorem card_pending_le (s : IntState) : s.pending.card ≤ 32 :=
  (Finset.card_le_univ _).trans (by simp)

/-- The count is that of the pending lines, and the parent lines show whether there are any. -/
structure Counted (s : IntState) : Prop where
  count : s.pendingCount.toNat = s.pending.card
  irq : s.parentIrq = true ↔ s.pending.Nonempty
  noFiq : s.fiqEnabled = 0
  fiq : s.parentFiq = false

theorem counted_init : interruptInit.Counted := by
  constructor <;> simp [interruptInit, pending]

theorem counted_update (hcount : s.pendingCount.toNat = s.pending.card) (hfiq : s.fiqEnabled = 0) :
    s.update.Counted := by
  refine ⟨hcount, ?_, hfiq, ?_⟩
  · change (s.level &&& s.irqEnabled != 0) = true ↔ _
    rw [bne_iff_ne, ne_zero_iff_lines, lines_and]
    rfl
  · simp [update, hfiq]

theorem toNat_count_add_one (h : s.Counted) (hlt : s.pending.card < 32) :
    (s.pendingCount + 1).toNat = s.pending.card + 1 := by
  rw [BitVec.toNat_add, h.count]
  exact Nat.mod_eq_of_lt (by change _ + 1 < 2 ^ 32; omega)

theorem toNat_count_sub_one (h : s.Counted) (hpos : 0 < s.pending.card) :
    (s.pendingCount - 1).toNat = s.pending.card - 1 := by
  have hle := s.card_pending_le
  have hone : (1 : BitVec 32).toNat = 1 := rfl
  rw [BitVec.toNat_sub, h.count, hone]
  omega

theorem card_pending_lt {i : Fin 32} (h : i ∉ s.pending) : s.pending.card < 32 := by
  have hlt := Finset.card_lt_univ_of_notMem h
  simpa using hlt

theorem Counted.setIrq (h : s.Counted) (irq : Fin 32) (level : Bool) :
    (s.setIrq irq level).Counted := by
  unfold IntState.setIrq
  simp only [and_lineMask_eq_zero_iff, lineOf_val]
  cases level with
  | true =>
    rw [if_pos rfl]
    by_cases hup : irq ∉ lines s.level
    · rw [if_pos hup]
      refine counted_update ?_ h.noFiq
      change _ = (lines (s.level ||| lineMask irq) ∩ lines s.irqEnabled).card
      rw [lines_or_lineMask, lineOf_val, card_insert_inter hup]
      by_cases hen : irq ∈ lines s.irqEnabled
      · rw [if_neg (not_not_intro hen), if_pos hen]
        exact toNat_count_add_one h (card_pending_lt fun hp => hup (Finset.mem_inter.mp hp).1)
      · rw [if_pos hen, if_neg hen]
        exact h.count
    · rw [if_neg hup]
      exact counted_update h.count h.noFiq
  | false =>
    rw [if_neg Bool.false_ne_true]
    by_cases hup : irq ∉ lines s.level
    · rw [if_pos hup]
      exact counted_update h.count h.noFiq
    · rw [if_neg hup]
      rw [not_not] at hup
      refine counted_update ?_ h.noFiq
      change _ = (lines (s.level &&& ~~~lineMask irq) ∩ lines s.irqEnabled).card
      rw [lines_and_not_lineMask, lineOf_val, card_erase_inter hup]
      by_cases hen : irq ∈ lines s.irqEnabled
      · rw [if_neg (not_not_intro hen), if_pos hen]
        exact toNat_count_sub_one h (Finset.card_pos.mpr ⟨irq, Finset.mem_inter.mpr ⟨hup, hen⟩⟩)
      · rw [if_pos hen, if_neg hen]
        exact h.count

theorem Counted.write (h : s.Counted) {offset : Nat} {value : BitVec 32}
    (hwrite : s.write offset value = some t) : t.Counted := by
  unfold IntState.write at hwrite
  simp only [and_lineMask_eq_zero_iff] at hwrite
  split at hwrite
  · obtain rfl := Option.some.inj hwrite
    exact counted_update (by simp [pending]) h.noFiq
  · by_cases hen : lineOf value.toNat ∉ lines s.irqEnabled
    · rw [if_pos hen, Option.some.injEq] at hwrite
      exact hwrite ▸ counted_update h.count h.noFiq
    · rw [if_neg hen, Option.some.injEq] at hwrite
      rw [not_not] at hen
      subst hwrite
      refine counted_update ?_ h.noFiq
      change _ = (lines s.level ∩ lines (s.irqEnabled &&& ~~~lineMask value.toNat)).card
      rw [lines_and_not_lineMask, Finset.inter_comm, card_erase_inter hen, Finset.inter_comm]
      by_cases hup : lineOf value.toNat ∈ lines s.level
      · rw [if_neg (not_not_intro hup), if_pos hup]
        exact toNat_count_sub_one h
          (Finset.card_pos.mpr ⟨_, Finset.mem_inter.mpr ⟨hup, hen⟩⟩)
      · rw [if_pos hup, if_neg hup]
        exact h.count
  · by_cases hen : lineOf value.toNat ∉ lines s.irqEnabled
    · rw [if_pos hen, Option.some.injEq] at hwrite
      subst hwrite
      refine counted_update ?_ h.noFiq
      change _ = (lines s.level ∩ lines (s.irqEnabled ||| lineMask value.toNat)).card
      rw [lines_or_lineMask, Finset.inter_comm, card_insert_inter hen, Finset.inter_comm]
      by_cases hup : lineOf value.toNat ∈ lines s.level
      · rw [if_neg (not_not_intro hup), if_pos hup]
        exact toNat_count_add_one h (card_pending_lt fun hp => hen (Finset.mem_inter.mp hp).2)
      · rw [if_pos hup, if_neg hup]
        exact h.count
    · rw [if_neg hen, Option.some.injEq] at hwrite
      exact hwrite ▸ counted_update h.count h.noFiq
  · cases hwrite

theorem Counted.step (h : s.Counted) (a : IntAction) (hstep : intStep s a = some t) :
    t.Counted := by
  cases a with
  | line irq level =>
    obtain rfl := Option.some.inj hstep
    exact h.setIrq irq level
  | write offset value => exact h.write hstep

theorem read_number (s : IntState) (hpending : s.pending.Nonempty) :
    s.read 0x04 = some (BitVec.ofNat 32 (s.pending.min' hpending)) := by
  have hmem : ∀ i : Fin 32, ((s.level &&& s.irqEnabled) &&& lineMask i != 0) = true ↔
      i ∈ s.pending := by
    intro i
    rw [bne_iff_ne, Ne, and_lineMask_eq_zero_iff, not_not, lineOf_val, lines_and]
    rfl
  have hfind : (List.range 32).find? (fun i => (s.level &&& s.irqEnabled) &&& lineMask i != 0) =
      some (s.pending.min' hpending).val := by
    rw [List.find?_range_eq_some]
    refine ⟨(hmem _).mpr (Finset.min'_mem _ _), ?_, fun j hj => ?_⟩
    · exact List.mem_range.mpr (Fin.isLt _)
    · have hlt : j < 32 := hj.trans (Fin.isLt _)
      by_contra hset
      rw [Bool.not_eq_true', Bool.not_eq_false] at hset
      have hle := Finset.min'_le _ _ ((hmem ⟨j, hlt⟩).mp hset)
      exact absurd hj (not_lt_of_ge (Fin.le_def.mp hle))
  rw [read, hfind]

theorem Counted.read_status (h : s.Counted) :
    s.read 0x00 = some (BitVec.ofNat 32 s.pending.card) := by
  rw [read, ← h.count, BitVec.ofNat_toNat, BitVec.setWidth_eq]

end IntState

/-- In every state that line changes and register writes lead to, STATUS is the number of enabled
lines that are raised, the processor's line is up exactly when there is one, and NUMBER is then the
lowest of them; the fast interrupt is never raised. -/
theorem reachable_pending {s : IntState} (h : Reachable (· = interruptInit) intStep s) :
    s.read 0x00 = some (BitVec.ofNat 32 s.pending.card) ∧
      (s.parentIrq = true ↔ s.pending.Nonempty) ∧
      (∀ hpending : s.pending.Nonempty,
        s.read 0x04 = some (BitVec.ofNat 32 (s.pending.min' hpending))) ∧
      s.parentFiq = false := by
  have hcounted : s.Counted := by
    have hinit : ∀ s, s = interruptInit → s.Counted := by
      rintro s rfl
      exact IntState.counted_init
    refine Reachable.invariant hinit ?_ h
    · intro s a t hs hstep
      exact hs.step a hstep
  exact ⟨hcounted.read_status, hcounted.irq, s.read_number, hcounted.fiq⟩

/-- Lines 3 and 5 are raised, and only line 5 is enabled. -/
theorem reachable_pending_masked :
    ∃ s, Reachable (· = interruptInit) intStep s ∧ s.pending = {5} ∧
      s.read 0x04 = some 5 := by
  obtain ⟨s, hs, hp⟩ := exists_reachable (· = interruptInit) intStep (s := interruptInit)
    [.line 3 true, .write 0x10 5, .line 5 true] (fun s => decide (s.pending = {5})) rfl
    (by decide +kernel)
  have hpending := of_decide_eq_true hp
  have hnumber := (reachable_pending hs).2.2.1 (hpending ▸ Finset.singleton_nonempty 5)
  refine ⟨s, hs, hpending, hnumber.trans ?_⟩
  simp [hpending]

end M2M.Goldfish
