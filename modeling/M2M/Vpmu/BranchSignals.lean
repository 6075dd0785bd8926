import M2M.Vpmu.ArmWords
import M2M.Vpmu.Counters

/-! The signals of the conditional branches: what a translated branch emits, what `branch_set`
makes of it, and what `branch_update` counts. -/

universe u

namespace M2M.Vpmu.Counters

open M2M.Vpmu.ArmTicks

/-- The automaton of `branch_update`: what its states predict, and where they go. -/
def Predictor.predictsTaken : Predictor → Bool
  | zero | one => false
  | two | three => true

def Predictor.next : Predictor → Bool → Predictor
  | zero, false | one, false | two, false => zero
  | zero, true => one
  | three, false => two
  | one, true | two, true | three, true => three

/-- The mispredictions of the automaton on a list of outcomes. -/
def mispredictions : Predictor → List Bool → Nat
  | _, [] => 0
  | p, taken :: os => (if p.predictsTaken = taken then 0 else 1) + mispredictions (p.next taken) os

theorem mispredictions_le (p : Predictor) (os : List Bool) : mispredictions p os ≤ os.length := by
  induction os generalizing p with
  | nil => exact Nat.le_refl 0
  | cons o os ih =>
    have hrest := ih (p.next o)
    rw [mispredictions, List.length_cons]
    split <;> omega

section Signals

/-- The call of `branch_update` that a signal of `branch_set` leads to. -/
def callOf (lastSignal curSig : UInt32) : Option Bool :=
  if lastSignal = condSig then some (curSig != condSig) else none

/-- `last_signal` after a signal. -/
def nextSignal (lastSignal curSig : UInt32) : UInt32 :=
  if lastSignal = condSig then if curSig = condSig then condSig else 0 else curSig

/-- The calls of `branch_update` while signals are fed to `branch_set`. -/
def calls (lastSignal : UInt32) : List UInt32 → List Bool
  | [] => []
  | curSig :: sigs => (callOf lastSignal curSig).toList ++ calls (nextSignal lastSignal curSig) sigs

/-- An instruction that is executed, with the outcome of its condition test. -/
structure Executed where
  insn : BitVec 32
  passed : Bool
  deriving DecidableEq

namespace Executed

variable (e : Executed)

def cond : BitVec 32 := e.insn >>> 28

/-- `B` or `BL`. -/
def IsBranch : Prop := e.insn >>> 24 &&& 0xf = 0xa ∨ e.insn >>> 24 &&& 0xf = 0xb

instance : Decidable e.IsBranch := inferInstanceAs (Decidable (_ ∨ _))

/-- The calls of `HELPER(branch_predictor)` that `disas_arm_insn` generates for a word, as far
as they are executed. -/
def signals : List UInt32 :=
  if e.cond = 0xf then []
  else if e.cond ≠ 0xe then
    (if e.IsBranch then [condSig] else []) ++ if e.passed ∧ e.IsBranch then [0] else []
  else []

def outcome : Option Bool :=
  if e.IsBranch ∧ e.cond ≠ 0xe ∧ e.cond ≠ 0xf then some e.passed else none

end Executed

/-- The outcomes of the conditional branches of a run. -/
def outcomes (es : List Executed) : List Bool := es.filterMap Executed.outcome

/-- The outcomes without a last one that is not taken. -/
def resolved (os : List Bool) : List Bool :=
  if os.getLast? = some false then os.dropLast else os

def signalsOf (taken : Bool) : List UInt32 := condSig :: if taken then [0] else []

theorem signals_eq (e : Executed) : e.signals = (e.outcome.map signalsOf).getD [] := by
  rw [Executed.signals, Executed.outcome]
  by_cases hf : e.cond = 0xf
  · rw [if_pos hf, if_neg fun h => h.2.2 hf]
    rfl
  · rw [if_neg hf]
    by_cases he : e.cond = 0xe
    · rw [if_neg (not_not_intro he), if_neg fun h => h.2.1 he]
      rfl
    · rw [if_pos he]
      by_cases hbranch : e.IsBranch
      · rw [if_pos hbranch, if_pos (c := e.IsBranch ∧ _ ∧ _) ⟨hbranch, he, hf⟩]
        cases e.passed <;> simp [hbranch, signalsOf]
      · rw [if_neg hbranch, if_neg fun h => hbranch h.2, if_neg fun h => hbranch h.1]
        rfl

theorem flatMap_signals (es : List Executed) :
    es.flatMap Executed.signals = (outcomes es).flatMap signalsOf := by
  induction es with
  | nil => rfl
  | cons e es ih =>
    rw [List.flatMap_cons, ih, signals_eq]
    simp only [outcomes, List.filterMap_cons]
    cases e.outcome <;> rfl

theorem resolved_true (os : List Bool) : resolved (true :: os) = true :: resolved os := by
  cases os with
  | nil => rfl
  | cons o os => by_cases h : (o :: os).getLast? = some false <;> simp_all [resolved]

theorem resolved_false_cons (o : Bool) (os : List Bool) :
    resolved (false :: o :: os) = false :: resolved (o :: os) := by
  by_cases h : (o :: os).getLast? = some false <;> simp_all [resolved]

/-- A not-taken outcome is known by the next signal only, so the induction is on both states of
`last_signal` at once. -/
theorem calls_flatMap (os : List Bool) :
    calls 0 (os.flatMap signalsOf) = resolved os ∧
      calls condSig (os.flatMap signalsOf) = resolved (false :: os) := by
  induction os with
  | nil => exact ⟨rfl, rfl⟩
  | cons o os ih =>
    cases o with
    | false =>
      constructor
      · exact ih.2
      · rw [resolved_false_cons, ← ih.2]
        rfl
    | true =>
      have htaken : resolved (true :: os) = true :: calls 0 (os.flatMap signalsOf) := by
        rw [resolved_true, ih.1]
      constructor
      · rw [htaken]
        rfl
      · rw [resolved_false_cons, htaken]
        rfl

theorem foldl_nextSignal (os : List Bool) (last : UInt32) (hlast : last = 0 ∨ last = condSig) :
    (os.flatMap signalsOf).foldl nextSignal last =
      os.getLast?.elim last fun taken => if taken then 0 else condSig := by
  induction os generalizing last with
  | nil => rfl
  | cons o os ih =>
    have hone : (signalsOf o).foldl nextSignal last = if o then 0 else condSig := by
      rcases hlast with rfl | rfl <;> cases o <;> rfl
    rw [List.flatMap_cons, List.foldl_append, hone, ih _ (by cases o <;> simp)]
    cases os with
    | nil => rfl
    | cons o' os => rw [List.getLast?_cons_cons, List.getLast?_cons]; rfl

end Signals

namespace GlobalVPMU

variable {β : Type u} (v : GlobalVPMU β)

theorem branchUpdate_eq (taken : Bool) :
    v.branchUpdate taken =
      { v with
        predictor := v.predictor.next taken
        predictCorrect :=
          v.predictCorrect + if v.predictor.predictsTaken = taken then 1 else 0
        predictWrong :=
          v.predictWrong + if v.predictor.predictsTaken = taken then 0 else 1 } := by
  simp only [branchUpdate]
  split <;> rename_i h <;> simp [h, Predictor.next, Predictor.predictsTaken]

theorem branchSet_eq (curSig : UInt32) :
    v.branchSet curSig =
      { (callOf v.lastSignal curSig).elim v v.branchUpdate with
        lastSignal := nextSignal v.lastSignal curSig } := by
  rw [branchSet, callOf, nextSignal]
  by_cases hlast : v.lastSignal = condSig
  · by_cases hcur : curSig = condSig
    · simp [hlast, hcur, branchUpdate_eq]
    · have htaken : (curSig != condSig) = true := bne_iff_ne.2 hcur
      simp [hlast, hcur, htaken]
  · simp [hlast]

theorem branchUpdate_lastSignal (taken : Bool) (sig : UInt32) :
    { v with lastSignal := sig }.branchUpdate taken =
      { v.branchUpdate taken with lastSignal := sig } := by
  rw [branchUpdate_eq, branchUpdate_eq]

theorem foldl_branchUpdate_lastSignal (os : List Bool) (sig : UInt32) :
    os.foldl branchUpdate { v with lastSignal := sig } =
      { os.foldl branchUpdate v with lastSignal := sig } := by
  induction os generalizing v with
  | nil => rfl
  | cons o os ih => rw [List.foldl_cons, branchUpdate_lastSignal, ih, List.foldl_cons]

theorem foldl_branchSet (sigs : List UInt32) :
    sigs.foldl branchSet v =
      { (calls v.lastSignal sigs).foldl branchUpdate v with
        lastSignal := sigs.foldl nextSignal v.lastSignal } := by
  induction sigs generalizing v with
  | nil => rfl
  | cons curSig sigs ih =>
    rw [List.foldl_cons, ih, branchSet_eq, calls, List.foldl_append, List.foldl_cons,
      foldl_branchUpdate_lastSignal]
    cases callOf v.lastSignal curSig <;> rfl

theorem foldl_branchUpdate_counts (os : List Bool) :
    (os.foldl branchUpdate v).predictWrong =
        v.predictWrong + UInt32.ofNat (mispredictions v.predictor os) ∧
      (os.foldl branchUpdate v).predictCorrect =
        v.predictCorrect + UInt32.ofNat (os.length - mispredictions v.predictor os) := by
  induction os generalizing v with
  | nil => simp [mispredictions]
  | cons o os ih =>
    have hle := mispredictions_le (v.predictor.next o) os
    obtain ⟨hwrong, hcorrect⟩ := ih (v.branchUpdate o)
    rw [List.foldl_cons, hwrong, hcorrect, branchUpdate_eq, mispredictions, List.length_cons]
    by_cases h : v.predictor.predictsTaken = o
    · simp only [if_pos h, Nat.zero_add, Nat.sub_add_comm hle, UInt32.ofNat_add]
      constructor
      · rw [UInt32.add_zero]
      · rw [UInt32.add_assoc, UInt32.add_comm 1]
        rfl
    · simp only [if_neg h, Nat.add_comm 1, Nat.add_sub_add_right, UInt32.ofNat_add]
      constructor
      · rw [UInt32.add_assoc, UInt32.add_comm 1]
        rfl
      · rw [UInt32.add_zero]

end GlobalVPMU

section Run

variable {β : Type u}

/-- The state after the signals of a run have been fed to `branch_set`, from the start of the
program. -/
def fed (d : Dinero β) (es : List Executed) : GlobalVPMU β :=
  (es.flatMap Executed.signals).foldl GlobalVPMU.branchSet (.start d)

variable (d : Dinero β) (es : List Executed)

theorem calls_signals : calls 0 (es.flatMap Executed.signals) = resolved (outcomes es) := by
  rw [flatMap_signals, (calls_flatMap (outcomes es)).1]

theorem fed_eq :
    fed d es =
      { (resolved (outcomes es)).foldl GlobalVPMU.branchUpdate (.start d) with
        lastSignal := if (outcomes es).getLast? = some false then condSig else 0 } := by
  rw [fed, GlobalVPMU.foldl_branchSet, show (GlobalVPMU.start d).lastSignal = 0 from rfl,
    calls_signals, flatMap_signals, foldl_nextSignal (outcomes es) 0 (.inl rfl)]
  rcases (outcomes es).getLast? with _ | _ | _ <;> rfl

theorem fed_predictWrong :
    (fed d es).predictWrong = UInt32.ofNat (mispredictions .zero (resolved (outcomes es))) := by
  rw [fed_eq]
  exact (GlobalVPMU.foldl_branchUpdate_counts _ _).1.trans (UInt32.zero_add _)

theorem fed_predictCorrect :
    (fed d es).predictCorrect = UInt32.ofNat
      ((resolved (outcomes es)).length - mispredictions .zero (resolved (outcomes es))) := by
  rw [fed_eq]
  exact (GlobalVPMU.foldl_branchUpdate_counts _ _).2.trans (UInt32.zero_add _)

/-- The calls of `branch_update` are the outcomes, but for a last one that is not taken and
stays pending; the counters are the numbers of correct and wrong predictions modulo 2^32. -/
theorem branchSet_signals :
    calls 0 (es.flatMap Executed.signals) = resolved (outcomes es) ∧
      fed d es =
        { (resolved (outcomes es)).foldl GlobalVPMU.branchUpdate (.start d) with
          lastSignal := if (outcomes es).getLast? = some false then condSig else 0 } ∧
      (fed d es).predictCorrect + (fed d es).predictWrong =
        UInt32.ofNat (resolved (outcomes es)).length ∧
      (fed d es).predictWrong.toNat =
        mispredictions .zero (resolved (outcomes es)) % 2 ^ 32 ∧
      (fed d es).predictCorrect.toNat =
        ((resolved (outcomes es)).length - mispredictions .zero (resolved (outcomes es))) %
          2 ^ 32 := by
  have hle := mispredictions_le .zero (resolved (outcomes es))
  refine ⟨calls_signals es, fed_eq d es, ?_, ?_, ?_⟩
  · rw [fed_predictWrong, fed_predictCorrect, ← UInt32.ofNat_add, Nat.sub_add_cancel hle]
  · rw [fed_predictWrong, UInt32.toNat_ofNat']
  · rw [fed_predictCorrect, UInt32.toNat_ofNat']

/-- `BNE`, which is not taken. -/
def bneNotTaken : Executed := ⟨0x1afffffe, false⟩

theorem outcomes_replicate (n : Nat) :
    outcomes (List.replicate n bneNotTaken) = List.replicate n false := by
  induction n with
  | zero => rfl
  | succ n ih =>
    rw [List.replicate_succ, List.replicate_succ, ← ih]
    rfl

theorem resolved_replicate (n : Nat) :
    resolved (List.replicate (n + 1) false) = List.replicate n false := by
  simp [resolved, List.getLast?_replicate]

theorem mispredictions_replicate (n : Nat) :
    mispredictions .zero (List.replicate n false) = 0 := by
  induction n with
  | zero => rfl
  | succ n ih =>
    simpa [List.replicate_succ, mispredictions, Predictor.predictsTaken, Predictor.next] using ih

theorem fed_replicate (n : Nat) :
    (fed d (List.replicate (n + 1) bneNotTaken)).predictCorrect.toNat = n % 2 ^ 32 ∧
      (fed d (List.replicate (n + 1) bneNotTaken)).predictWrong.toNat = 0 ∧
      (resolved (outcomes (List.replicate (n + 1) bneNotTaken))).length = n := by
  rw [fed_predictCorrect, fed_predictWrong, outcomes_replicate, resolved_replicate,
    mispredictions_replicate, List.length_replicate]
  exact ⟨UInt32.toNat_ofNat', rfl, rfl⟩

/-- After 2^32 outcomes that were predicted right the counters are back at 0. -/
theorem branchSet_wraps :
    (fed roomyCaches (List.replicate (2 ^ 32 + 1) bneNotTaken)).predictCorrect.toNat +
        (fed roomyCaches (List.replicate (2 ^ 32 + 1) bneNotTaken)).predictWrong.toNat ≠
      (resolved (outcomes (List.replicate (2 ^ 32 + 1) bneNotTaken))).length := by
  obtain ⟨hcorrect, hwrong, hlength⟩ := fed_replicate roomyCaches (2 ^ 32)
  rw [hcorrect, hwrong, hlength]
  decide

end Run

end M2M.Vpmu.Counters
