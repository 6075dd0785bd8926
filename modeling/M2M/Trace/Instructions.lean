import Mathlib.Data.UInt
import Mathlib.Logic.Function.Basic
import M2M.Lib.PrefixCode

namespace M2M.Trace.Insn

open M2M.Lib.Deltas

structure InsnRec where
  timeDiff : UInt64
  repeatCount : UInt32
  deriving DecidableEq

def kInsnBufferSize : Nat := 1024

/-- The dummy record is slot 0, and the buffer starts at slot 1. `numInsns` is the counter of
`trace_bb`, and `file` holds the records written. -/
structure TraceInsn where
  slots : Nat → InsnRec
  current : Nat
  prevTime : UInt64
  numInsns : Nat
  file : List InsnRec

def createTraceInsn : TraceInsn := ⟨fun _ => ⟨0, 0⟩, 0, 0, 0, []⟩

def TraceInsn.buffered (t : TraceInsn) : List InsnRec :=
  (List.range t.current).map (fun i => t.slots (i + 1))

/-- The record after the current one. -/
def TraceInsn.record (t : TraceInsn) (timeDiff : UInt64) : TraceInsn :=
  -- the buffer is full
  if t.current + 1 = kInsnBufferSize + 1 then
    { t with
      file := t.file ++ t.buffered
      slots := Function.update t.slots 1 ⟨timeDiff, 0⟩
      current := 1 }
  else
    { t with
      slots := Function.update t.slots (t.current + 1) ⟨timeDiff, 0⟩
      current := t.current + 1 }

def traceInsnHelper (t : TraceInsn) (simTime : UInt64) : TraceInsn :=
  let current := t.slots t.current
  let timeDiff := simTime - t.prevTime
  let t := { t with prevTime := simTime, numInsns := t.numInsns + 1 }
  if timeDiff = current.timeDiff then
    let repeatCount := current.repeatCount + 1
    if repeatCount ≠ 0 then
      { t with slots := Function.update t.slots t.current ⟨current.timeDiff, repeatCount⟩ }
    else
      -- the count wrapped around, and is set back
      let current := ⟨current.timeDiff, repeatCount - 1⟩
      { t with slots := Function.update t.slots t.current current }.record timeDiff
  else t.record timeDiff

def traceCleanup (t : TraceInsn) : List InsnRec := t.file ++ t.buffered

def InsnRec.expand (r : InsnRec) : List UInt64 :=
  List.replicate (r.repeatCount.toNat + 1) r.timeDiff

variable {t : TraceInsn} {times : List UInt64}

theorem expand_succ {r : InsnRec} (h : r.repeatCount + 1 ≠ 0) :
    InsnRec.expand ⟨r.timeDiff, r.repeatCount + 1⟩ = r.expand ++ [r.timeDiff] := by
  have hlt : r.repeatCount.toNat + 1 < 2 ^ 32 := by
    have := r.repeatCount.toNat_lt
    by_contra hnot
    apply h
    apply UInt32.toNat_inj.mp
    rw [UInt32.toNat_add, UInt32.toNat_one, UInt32.toNat_zero]
    omega
  unfold InsnRec.expand
  rw [UInt32.toNat_add, UInt32.toNat_one, Nat.mod_eq_of_lt hlt, List.replicate_succ']

theorem traceCleanup_record (t : TraceInsn) (timeDiff : UInt64) :
    traceCleanup (t.record timeDiff) = traceCleanup t ++ [⟨timeDiff, 0⟩] := by
  unfold TraceInsn.record traceCleanup
  split
  case isTrue =>
    apply congrArg (fun r => t.file ++ t.buffered ++ [r])
    exact Function.update_self 1 (⟨timeDiff, 0⟩ : InsnRec) t.slots
  case isFalse =>
    unfold TraceInsn.buffered
    dsimp only
    rw [List.range_succ, List.map_append, List.append_assoc]
    apply congrArg (t.file ++ ·)
    apply congrArg₂
    · apply List.map_congr_left
      intro i hi
      exact Function.update_of_ne (Nat.ne_of_lt (Nat.succ_lt_succ (List.mem_range.mp hi))) _ _
    · exact congrArg (fun r => [r]) (Function.update_self _ _ _)

def TraceInsn.expanded (t : TraceInsn) : List UInt64 := (traceCleanup t).flatMap InsnRec.expand

theorem expanded_record (t : TraceInsn) (timeDiff : UInt64) :
    (t.record timeDiff).expanded = t.expanded ++ [timeDiff] := by
  unfold TraceInsn.expanded
  rw [traceCleanup_record, List.flatMap_append]
  rfl

theorem expanded_repeat {c : Nat} (hc : t.current = c + 1)
    (h : (t.slots t.current).repeatCount + 1 ≠ 0) :
    TraceInsn.expanded { t with
      slots := Function.update t.slots t.current
        ⟨(t.slots t.current).timeDiff, (t.slots t.current).repeatCount + 1⟩ } =
      t.expanded ++ [(t.slots t.current).timeDiff] := by
  have hlast : ∀ slots : Nat → InsnRec,
      TraceInsn.expanded { t with slots } = (t.file ++ (List.range c).map fun i =>
        slots (i + 1)).flatMap InsnRec.expand ++ (slots t.current).expand := by
    intro slots
    unfold TraceInsn.expanded traceCleanup TraceInsn.buffered
    rw [hc, List.range_succ, List.map_append, ← List.append_assoc, List.flatMap_append]
    exact congrArg (_ ++ ·) (List.append_nil _)
  have hfront : ∀ r, (List.range c).map (fun i => Function.update t.slots t.current r (i + 1)) =
      (List.range c).map fun i => t.slots (i + 1) := by
    intro r
    apply List.map_congr_left
    intro i hi
    have := List.mem_range.mp hi
    exact Function.update_of_ne (by omega) _ _
  rw [hlast, hfront, Function.update_self, expand_succ h, ← List.append_assoc]
  exact congrArg (· ++ _) (hlast t.slots).symm

/-- The records written and buffered expand to the differences of the times so far. -/
structure Intact (t : TraceInsn) (times : List UInt64) : Prop where
  expanded : t.expanded = deltas 0 times
  last : t.prevTime = times.getLastD 0
  fresh : t.current = 0 → times = [] ∧ (t.slots 0).timeDiff = 0

theorem createTraceInsn_intact : Intact createTraceInsn [] := ⟨rfl, rfl, fun _ => ⟨rfl, rfl⟩⟩

theorem record_current (t : TraceInsn) (timeDiff : UInt64) : (t.record timeDiff).current ≠ 0 := by
  unfold TraceInsn.record
  split
  case isTrue => exact Nat.one_ne_zero
  case isFalse => exact Nat.succ_ne_zero t.current

theorem record_prevTime (t : TraceInsn) (timeDiff : UInt64) :
    (t.record timeDiff).prevTime = t.prevTime := by
  unfold TraceInsn.record
  split <;> rfl

theorem Intact.helper (h : Intact t times) {simTime : UInt64} (hfirst : times = [] → simTime ≠ 0) :
    Intact (traceInsnHelper t simTime) (times ++ [simTime]) := by
  have hdeltas : deltas 0 (times ++ [simTime]) = t.expanded ++ [simTime - t.prevTime] := by
    rw [deltas_append, h.expanded, h.last]
    rfl
  have hlast : (times ++ [simTime]).getLastD 0 = simTime := by simp
  -- the record that follows, for a trace that differs from this one in no record
  have hrecord : ∀ t' : TraceInsn, t'.expanded = t.expanded → t'.prevTime = simTime →
      Intact (t'.record (simTime - t.prevTime)) (times ++ [simTime]) := by
    intro t' hexp htime
    refine ⟨?_, ?_, fun h0 => absurd h0 (record_current _ _)⟩
    · rw [expanded_record, hexp, hdeltas]
    · rw [record_prevTime, htime, hlast]
  unfold traceInsnHelper
  dsimp only
  split
  case isFalse => exact hrecord _ rfl rfl
  case isTrue hdiff =>
    split
    case isTrue hwrap =>
      obtain ⟨c, hc⟩ : ∃ c, t.current = c + 1 := by
        apply Nat.exists_eq_succ_of_ne_zero
        intro h0
        obtain ⟨hnil, hzero⟩ := h.fresh h0
        apply hfirst hnil
        rw [h.last, hnil, h0, hzero] at hdiff
        exact (UInt64.sub_zero _).symm.trans hdiff
      refine ⟨?_, hlast.symm, fun h0 => absurd (h0.symm.trans hc) (Nat.succ_ne_zero c).symm⟩
      rw [hdeltas, hdiff]
      exact expanded_repeat hc hwrap
    case isFalse hwrap =>
      apply hrecord _ _ rfl
      have hback : (t.slots t.current).repeatCount + 1 - 1 = (t.slots t.current).repeatCount :=
        UInt32.add_sub_cancel _ _
      rw [hback]
      exact congrArg (fun slots => TraceInsn.expanded { t with slots })
        (Function.update_eq_self _ _)

/-- The time differences that a reader finds after a run. -/
def reading (times : List UInt64) : List UInt64 :=
  (traceCleanup (times.foldl traceInsnHelper createTraceInsn)).flatMap InsnRec.expand

/-- Reading the records back gives the time differences, and from them the start times. -/
theorem traceInsn_faithful {times : List UInt64} (h : (1 :: times).IsChain (· ≤ ·)) :
    reading times = deltas 0 times ∧ sums 0 (reading times) = times := by
  have hintact : ∀ times' : List UInt64, times' <+: times →
      Intact (times'.foldl traceInsnHelper createTraceInsn) times' := by
    intro times' hprefix
    induction times' using List.reverseRecOn with
    | nil => exact createTraceInsn_intact
    | append_singleton times' simTime ih =>
      rw [List.foldl_append]
      apply (ih ((List.prefix_append _ _).trans hprefix)).helper
      rintro rfl rfl
      obtain ⟨rest, rfl⟩ := hprefix
      exact absurd (List.isChain_cons_cons.mp h).1 (by decide)
  have hexp : reading times = deltas 0 times := (hintact times List.prefix_rfl).expanded
  exact ⟨hexp, hexp ▸ sums_deltas 0 times⟩

theorem traceInsn_faithful_threeTimes :
    reading [1, 2, 2] = deltas 0 [1, 2, 2] ∧ sums 0 (reading [1, 2, 2]) = [1, 2, 2] :=
  traceInsn_faithful (by decide)

end M2M.Trace.Insn
