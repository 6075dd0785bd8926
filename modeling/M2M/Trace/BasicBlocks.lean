import Mathlib.Data.UInt
import Mathlib.Logic.Function.Basic
import M2M.Lib.Runs

namespace M2M.Trace.BB

open M2M.Lib

structure BBRec where
  startTime : UInt64
  bbNum : UInt64
  repeatCount : UInt32
  timeDiff : UInt64

def kMaxNumBasicBlocks : Nat := 1024

/-- What is written for a record: its differences to the record before, its count, and the
interval if the count is not 0. -/
structure Entry where
  bbDiff : Int64
  timeDiff : UInt64
  repeatCount : UInt32
  interval : Option UInt64

/-- What a translation block keeps for the trace: its record in the buffer. -/
structure TranslationBlock where
  pc : UInt32
  bbRec : Option Nat
  prevTime : UInt64

structure TraceBB where
  buffer : Nat → BBRec
  next : Nat
  flushTime : UInt64
  prevBbNum : Int64
  prevBbTime : UInt64
  currentBbNum : UInt64
  currentBbStartTime : UInt64
  recnum : Nat
  currentBbAddr : UInt32
  numInsns : Nat
  file : List Entry

def createTraceBB : TraceBB := ⟨fun _ => ⟨0, 0, 0, 0⟩, 0, 0, 0, 0, 0, 0, 0, 0, 0, []⟩

def TraceBB.buffered (t : TraceBB) : List BBRec := (List.range t.next).map t.buffer

def entry (prevBbNum : Int64) (prevBbTime : UInt64) (r : BBRec) : Entry where
  bbDiff := (r.bbNum - prevBbNum.toUInt64).toInt64
  timeDiff := r.startTime - prevBbTime
  repeatCount := r.repeatCount
  interval := if r.repeatCount ≠ 0 then some r.timeDiff else none

/-- The loop that writes records, with the block number and the time that it ends with. -/
def encode (prevBbNum : Int64) (prevBbTime : UInt64) : List BBRec → List Entry × Int64 × UInt64
  | [] => ([], prevBbNum, prevBbTime)
  | r :: records =>
    let rest := encode r.bbNum.toInt64 r.startTime records
    (entry prevBbNum prevBbTime r :: rest.1, rest.2)

def TraceBB.flush (t : TraceBB) (simTime : UInt64) : TraceBB :=
  let written := encode t.prevBbNum t.prevBbTime t.buffered
  { t with
    file := t.file ++ written.1
    prevBbNum := written.2.1
    prevBbTime := written.2.2
    next := 0
    flushTime := simTime }

def current (t : TraceBB) (tb : TranslationBlock) (bbNum : UInt64) : Option Nat :=
  tb.bbRec.filter fun i => (t.buffer i).bbNum = bbNum ∧ tb.prevTime > t.flushTime

/-- The record with one more repetition, if the interval is its own. -/
def fold (r : BBRec) (timeDiff : UInt64) : Option BBRec :=
  if r.repeatCount = 0 then some { r with repeatCount := 1, timeDiff := timeDiff }
  else if timeDiff = r.timeDiff then some { r with repeatCount := r.repeatCount + 1 }
  else none

def TraceBB.record (t : TraceBB) (tb : TranslationBlock) (bbNum simTime : UInt64) :
    TraceBB × TranslationBlock :=
  let t := if t.next = kMaxNumBasicBlocks then t.flush simTime else t
  ({ t with
    buffer := Function.update t.buffer t.next ⟨simTime, bbNum, 0, 0⟩
    next := t.next + 1 },
  { tb with bbRec := some t.next, prevTime := simTime })

def TraceBB.enter (t : TraceBB) (tb : TranslationBlock) (bbNum simTime : UInt64) : TraceBB :=
  { t with
    currentBbAddr := tb.pc
    currentBbNum := bbNum
    currentBbStartTime := simTime
    numInsns := 0
    recnum := t.recnum + 1 }

def traceBbHelper (t : TraceBB) (tb : TranslationBlock) (bbNum simTime : UInt64) :
    TraceBB × TranslationBlock :=
  let t := t.enter tb bbNum simTime
  match current t tb bbNum with
  | none => t.record tb bbNum simTime
  | some i =>
    match fold (t.buffer i) (simTime - tb.prevTime) with
    | none => t.record tb bbNum simTime
    | some r => ({ t with buffer := Function.update t.buffer i r }, { tb with prevTime := simTime })

/-- The entries of the file. Three zero bytes end it. -/
def traceCleanup (t : TraceBB) (simTime : UInt64) : List Entry :=
  let written := encode t.prevBbNum t.prevBbTime t.buffered
  let timeDiff := simTime - written.2.2
  let extra : List Entry := if timeDiff > 0 then [⟨-written.2.1, timeDiff, 0, none⟩] else []
  t.file ++ written.1 ++ extra ++ [⟨0, 0, 0, none⟩]

section Reading

/-- Undoes the differences. -/
def decode (bbNum time : UInt64) : List Entry → List BBRec
  | [] => []
  | e :: entries =>
    let r : BBRec :=
      ⟨time + e.timeDiff, bbNum + e.bbDiff.toUInt64, e.repeatCount, e.interval.getD 0⟩
    r :: decode r.bbNum r.startTime entries

def BBRec.Plain (r : BBRec) : Prop := r.repeatCount = 0 → r.timeDiff = 0

theorem encode_append (prevBbNum : Int64) (prevBbTime : UInt64) (records more : List BBRec) :
    encode prevBbNum prevBbTime (records ++ more) =
      let written := encode prevBbNum prevBbTime records
      let rest := encode written.2.1 written.2.2 more
      (written.1 ++ rest.1, rest.2) := by
  induction records generalizing prevBbNum prevBbTime with
  | nil => rfl
  | cons r records ih =>
    rw [List.cons_append, encode, ih]
    rfl

theorem decode_encode {records : List BBRec} (h : ∀ r ∈ records, r.Plain) (prevBbNum : Int64)
    (prevBbTime : UInt64) (more : List Entry) :
    decode prevBbNum.toUInt64 prevBbTime ((encode prevBbNum prevBbTime records).1 ++ more) =
      records ++ decode (encode prevBbNum prevBbTime records).2.1.toUInt64
        (encode prevBbNum prevBbTime records).2.2 more := by
  induction records generalizing prevBbNum prevBbTime with
  | nil => rfl
  | cons r records ih =>
    obtain ⟨hr, hrecords⟩ := List.forall_mem_cons.mp h
    have htime : prevBbTime + (r.startTime - prevBbTime) = r.startTime := by
      rw [UInt64.add_comm, UInt64.sub_add_cancel]
    have hnum : prevBbNum.toUInt64 + (r.bbNum - prevBbNum.toUInt64).toInt64.toUInt64 = r.bbNum := by
      rw [UInt64.toUInt64_toInt64, UInt64.add_comm, UInt64.sub_add_cancel]
    have hinterval : (entry prevBbNum prevBbTime r).interval.getD 0 = r.timeDiff := by
      unfold entry
      by_cases h0 : r.repeatCount = 0
      · rw [if_neg (not_not.mpr h0), Option.getD_none, hr h0]
      · rw [if_pos h0, Option.getD_some]
    rw [encode, List.cons_append, decode, hinterval]
    unfold entry
    dsimp only
    rw [htime, hnum]
    apply congrArg (r :: ·)
    exact ih hrecords r.bbNum.toInt64 r.startTime

theorem encode_startTime (prevBbNum : Int64) (prevBbTime : UInt64) (records : List BBRec) :
    (encode prevBbNum prevBbTime records).2.2 =
      (records.map BBRec.startTime).getLastD prevBbTime := by
  induction records generalizing prevBbNum prevBbTime with
  | nil => rfl
  | cons r records ih =>
    rw [encode, List.map_cons, List.getLastD_cons]
    exact ih _ _

theorem encode_repeatCount (prevBbNum : Int64) (prevBbTime : UInt64) (records : List BBRec) :
    (encode prevBbNum prevBbTime records).1.map Entry.repeatCount =
      records.map BBRec.repeatCount := by
  induction records generalizing prevBbNum prevBbTime with
  | nil => rfl
  | cons r records ih => exact congrArg (r.repeatCount :: ·) (ih _ _)

end Reading

section Records

def BBRec.expand (r : BBRec) : List (UInt64 × UInt64) :=
  (List.range (r.repeatCount.toNat + 1)).map fun k =>
    (r.bbNum, r.startTime + UInt64.ofNat k * r.timeDiff)

/-- The time of the last execution of a record. -/
def BBRec.last (r : BBRec) : UInt64 := r.startTime + UInt64.ofNat r.repeatCount.toNat * r.timeDiff

variable {r r' : BBRec} {timeDiff : UInt64}

theorem fold_spec (h : fold r timeDiff = some r') :
    r' = { r with repeatCount := r.repeatCount + 1, timeDiff := timeDiff } ∧
      (r.repeatCount ≠ 0 → r.timeDiff = timeDiff) := by
  unfold fold at h
  split at h
  case isTrue h0 =>
    cases h
    exact ⟨by rw [h0]; rfl, fun hne => absurd h0 hne⟩
  case isFalse =>
    obtain ⟨rfl, rfl⟩ := Option.ite_some_none_eq_some.mp h
    exact ⟨rfl, fun _ => rfl⟩

theorem toNat_succ {c : UInt32} (h : c + 1 ≠ 0) : (c + 1).toNat = c.toNat + 1 := by
  have hlt := c.toNat_lt
  rw [UInt32.toNat_add, UInt32.toNat_one]
  apply Nat.mod_eq_of_lt
  by_contra hnot
  apply h
  apply UInt32.toNat_inj.mp
  rw [UInt32.toNat_add, UInt32.toNat_one, UInt32.toNat_zero]
  omega

theorem succ_mul (k : Nat) (d : UInt64) :
    UInt64.ofNat (k + 1) * d = UInt64.ofNat k * d + d := by
  rw [UInt64.ofNat_add, UInt64.add_mul]
  exact congrArg (UInt64.ofNat k * d + ·) (UInt64.one_mul d)

theorem fold_expand (h : fold r timeDiff = some r') (hwrap : r.repeatCount + 1 ≠ 0) :
    r'.last = r.last + timeDiff ∧ r'.expand = r.expand ++ [(r.bbNum, r.last + timeDiff)] := by
  obtain ⟨rfl, hsame⟩ := fold_spec h
  have hcount : ∀ k ≤ r.repeatCount.toNat,
      UInt64.ofNat k * timeDiff = UInt64.ofNat k * r.timeDiff := by
    intro k hk
    by_cases h0 : r.repeatCount = 0
    · have hk0 : k = 0 := by
        rw [h0, UInt32.toNat_zero] at hk
        exact Nat.le_zero.mp hk
      rw [hk0]
      exact UInt64.zero_mul.trans UInt64.zero_mul.symm
    · rw [hsame h0]
  have hlast : r.startTime + UInt64.ofNat (r.repeatCount.toNat + 1) * timeDiff =
      r.last + timeDiff := by
    rw [succ_mul, hcount _ (Nat.le_refl _), ← UInt64.add_assoc]
    rfl
  unfold BBRec.last BBRec.expand
  dsimp only
  rw [toNat_succ hwrap, List.range_succ, List.map_append]
  refine ⟨hlast, ?_⟩
  apply congrArg₂
  · apply List.map_congr_left
    intro k hk
    rw [hcount k (Nat.lt_succ_iff.mp (List.mem_range.mp hk))]
  · exact congrArg (fun time => [(r.bbNum, time)]) hlast

theorem exists_map_update {α : Type} (f : Nat → α) (a : α) {i n : Nat} (h : i < n) :
    ∃ front back, (List.range n).map f = front ++ f i :: back ∧
      (List.range n).map (Function.update f i a) = front ++ a :: back := by
  obtain ⟨front, back, hrange⟩ := List.append_of_mem (List.mem_range.mpr h)
  have hnodup : (front ++ i :: back).Nodup := hrange ▸ List.nodup_range
  rw [List.nodup_middle] at hnodup
  have hi := (List.nodup_cons.mp hnodup).1
  have hmap : ∀ l : List Nat, i ∉ l → l.map (Function.update f i a) = l.map f := by
    intro l hl
    apply List.map_congr_left
    intro j hj
    exact Function.update_of_ne (fun hji : j = i => hl (hji ▸ hj)) a f
  refine ⟨front.map f, back.map f, ?_, ?_⟩
  · rw [hrange, List.map_append]
    rfl
  · rw [hrange, List.map_append, hmap front fun hf => hi (List.mem_append_left _ hf),
      List.map_cons, Function.update_self, hmap back fun hb => hi (List.mem_append_right _ hb)]

theorem map_update_of_le {α : Type} (f : Nat → α) (a : α) {i n : Nat} (h : n ≤ i) :
    (List.range n).map (Function.update f i a) = (List.range n).map f := by
  apply List.map_congr_left
  intro j hj
  exact Function.update_of_ne (Nat.ne_of_lt (Nat.lt_of_lt_of_le (List.mem_range.mp hj) h)) a f

end Records

section Runs

/-- The trace, the translation blocks, and the block numbers and times of the calls. -/
structure World where
  trace : TraceBB
  tbs : Nat → TranslationBlock
  simTime : UInt64
  calls : List (UInt64 × UInt64)

inductive Event
  | call (tb : Nat) (bbNum simTime : UInt64)
  /-- The block is translated anew. -/
  | generate (tb : Nat) (pc : UInt32)

def step (w : World) : Event → World
  | .call tb bbNum simTime =>
    let result := traceBbHelper w.trace (w.tbs tb) bbNum simTime
    ⟨result.1, Function.update w.tbs tb result.2, simTime, w.calls ++ [(bbNum, simTime)]⟩
  | .generate tb pc => { w with tbs := Function.update w.tbs tb ⟨pc, none, 0⟩ }

def start (pcs : Nat → UInt32) : World :=
  ⟨createTraceBB, fun tb => ⟨pcs tb, none, 0⟩, 0, []⟩

/-- Time does not run backwards. -/
def Forward (w : World) : Event → Prop
  | .call _ _ simTime => w.simTime ≤ simTime
  | .generate _ _ => True

/-- A record that is to be repeated has room for one more repetition. -/
def NoWrap (w : World) : Event → Prop
  | .call tb bbNum simTime => ∀ i ∈ current w.trace (w.tbs tb) bbNum,
    (fold (w.trace.buffer i) (simTime - (w.tbs tb).prevTime)).isSome →
      (w.trace.buffer i).repeatCount + 1 ≠ 0
  | .generate _ _ => True

def ending (records : List BBRec) (endTime : UInt64) : List BBRec :=
  if endTime - (records.map BBRec.startTime).getLastD 0 > 0 then [⟨endTime, 0, 0, 0⟩] else []

/-- What is read back from the file are the records written before and those still in the
buffer, and their executions are the calls. -/
def Faithful (w : World) (endTime : UInt64) : Prop :=
  ∃ flushed, w.trace.file = (encode 0 0 flushed).1 ∧
    let records := flushed ++ w.trace.buffered
    decode 0 0 (traceCleanup w.trace endTime).dropLast = records ++ ending records endTime ∧
      (records.flatMap BBRec.expand).Perm w.calls

theorem traceBbHelper_cases (t : TraceBB) (tb : TranslationBlock) (bbNum simTime : UInt64) :
    (∃ i r, current t tb bbNum = some i ∧ fold (t.buffer i) (simTime - tb.prevTime) = some r ∧
      traceBbHelper t tb bbNum simTime =
        ({ t.enter tb bbNum simTime with buffer := Function.update t.buffer i r },
          { tb with prevTime := simTime })) ∨
    (∀ i ∈ current t tb bbNum, (fold (t.buffer i) (simTime - tb.prevTime)) = none) ∧
      traceBbHelper t tb bbNum simTime = (t.enter tb bbNum simTime).record tb bbNum simTime := by
  have henter : current (t.enter tb bbNum simTime) tb bbNum = current t tb bbNum := rfl
  unfold traceBbHelper
  dsimp only
  rw [henter]
  cases hcurrent : current t tb bbNum with
  | none => exact .inr ⟨nofun, rfl⟩
  | some i =>
    cases hfold : fold (t.buffer i) (simTime - tb.prevTime) with
    | none =>
      refine .inr ⟨fun j hj => Option.some_inj.mp hj ▸ hfold, ?_⟩
      have hfold' : fold ((t.enter tb bbNum simTime).buffer i) (simTime - tb.prevTime) = none :=
        hfold
      dsimp only
      rw [hfold']
    | some r =>
      refine .inl ⟨i, r, rfl, hfold, ?_⟩
      have hfold' : fold ((t.enter tb bbNum simTime).buffer i) (simTime - tb.prevTime) = some r :=
        hfold
      dsimp only
      rw [hfold']
      rfl

variable {w : World} {event : Event}

/-- The executions that the records written and buffered account for. -/
def TraceBB.count (t : TraceBB) : Nat :=
  ((t.file.map Entry.repeatCount ++ t.buffered.map BBRec.repeatCount).map (·.toNat + 1)).sum

theorem count_flush (t : TraceBB) (simTime : UInt64) : (t.flush simTime).count = t.count := by
  have hempty : (t.flush simTime).buffered = [] := rfl
  have hfile : (t.flush simTime).file.map Entry.repeatCount =
      t.file.map Entry.repeatCount ++ t.buffered.map BBRec.repeatCount := by
    rw [← encode_repeatCount t.prevBbNum t.prevBbTime, ← List.map_append]
    rfl
  unfold TraceBB.count
  rw [hempty, hfile, List.map_nil, List.append_nil]

def TraceBB.push (t : TraceBB) (r : BBRec) : TraceBB :=
  { t with buffer := Function.update t.buffer t.next r, next := t.next + 1 }

theorem buffered_push (t : TraceBB) (r : BBRec) : (t.push r).buffered = t.buffered ++ [r] := by
  unfold TraceBB.push TraceBB.buffered
  dsimp only
  rw [List.range_succ, List.map_append, map_update_of_le _ _ (Nat.le_refl _), List.map_singleton,
    Function.update_self]

theorem record_eq (t : TraceBB) (tb : TranslationBlock) (bbNum simTime : UInt64) :
    t.record tb bbNum simTime =
      let t := if t.next = kMaxNumBasicBlocks then t.flush simTime else t
      (t.push ⟨simTime, bbNum, 0, 0⟩, { tb with bbRec := some t.next, prevTime := simTime }) := rfl

theorem count_record (t : TraceBB) (tb : TranslationBlock) (bbNum simTime : UInt64) :
    (t.record tb bbNum simTime).1.count = t.count + 1 := by
  have hpush : ∀ t : TraceBB, (t.push ⟨simTime, bbNum, 0, 0⟩).count = t.count + 1 := by
    intro t
    unfold TraceBB.count
    rw [buffered_push]
    simp only [List.map_append, List.sum_append]
    exact (Nat.add_assoc _ _ 1).symm
  rw [record_eq]
  dsimp only
  split
  case isTrue => rw [hpush, count_flush]
  case isFalse => exact hpush t

theorem count_fold {t : TraceBB} {i : Nat} {r : BBRec} {timeDiff : UInt64}
    (h : fold (t.buffer i) timeDiff = some r) :
    TraceBB.count { t with buffer := Function.update t.buffer i r } ≤ t.count + 1 ∧
      ((t.buffer i).repeatCount + 1 = 0 →
        TraceBB.count { t with buffer := Function.update t.buffer i r } ≤ t.count) := by
  have hcount : r.repeatCount = (t.buffer i).repeatCount + 1 := by
    rw [(fold_spec h).1]
  by_cases hi : i < t.next
  · obtain ⟨front, back, hold, hnew⟩ := exists_map_update t.buffer r hi
    have hle : r.repeatCount.toNat ≤ (t.buffer i).repeatCount.toNat + 1 := by
      rw [hcount, UInt32.toNat_add]
      exact Nat.mod_le _ _
    unfold TraceBB.count TraceBB.buffered
    dsimp only
    rw [hold, hnew]
    simp only [List.map_append, List.map_cons, List.sum_append, List.sum_cons]
    refine ⟨by omega, ?_⟩
    intro hwrap
    rw [hcount, hwrap, UInt32.toNat_zero]
    omega
  · have hsame : TraceBB.count { t with buffer := Function.update t.buffer i r } = t.count := by
      unfold TraceBB.count TraceBB.buffered
      dsimp only
      rw [map_update_of_le _ _ (Nat.not_lt.mp hi)]
    exact ⟨hsame ▸ Nat.le_succ _, fun _ => Nat.le_of_eq hsame⟩

theorem count_helper (t : TraceBB) (tb : TranslationBlock) (bbNum simTime : UInt64) :
    (traceBbHelper t tb bbNum simTime).1.count ≤ t.count + 1 := by
  rcases traceBbHelper_cases t tb bbNum simTime with ⟨i, r, -, hfold, hstep⟩ | ⟨-, hstep⟩
  · rw [hstep]
    exact (count_fold (t := t.enter tb bbNum simTime) hfold).1
  · rw [hstep]
    exact Nat.le_of_eq (count_record _ tb bbNum simTime)

theorem count_step (h : w.trace.count ≤ w.calls.length) (event : Event) :
    (step w event).trace.count ≤ (step w event).calls.length := by
  cases event with
  | call tb bbNum simTime =>
    apply (count_helper _ _ _ _).trans
    rw [step, List.length_append]
    exact Nat.succ_le_succ h
  | generate tb pc => exact h

theorem count_step_lt (h : w.trace.count < w.calls.length) (event : Event) :
    (step w event).trace.count < (step w event).calls.length := by
  cases event with
  | call tb bbNum simTime =>
    apply (count_helper _ _ _ _).trans_lt
    rw [step, List.length_append]
    exact Nat.succ_lt_succ h
  | generate tb pc => exact h

theorem count_wrap (h : w.trace.count ≤ w.calls.length) (hwrap : ¬NoWrap w event) :
    (step w event).trace.count < (step w event).calls.length := by
  cases event with
  | generate tb pc => exact absurd trivial hwrap
  | call tb bbNum simTime =>
    unfold step
    dsimp only
    rw [List.length_append]
    rcases traceBbHelper_cases w.trace (w.tbs tb) bbNum simTime with
      ⟨i, r, hcurrent, hfold, hstep⟩ | ⟨hnone, -⟩
    · rw [hstep]
      apply Nat.lt_succ_of_le
      refine ((count_fold (t := w.trace.enter (w.tbs tb) bbNum simTime) hfold).2 ?_).trans h
      by_contra hroom
      apply hwrap
      intro j hj _
      rw [hcurrent] at hj
      cases hj
      exact hroom
    · exfalso
      apply hwrap
      intro i hi hsome
      rw [hnone i hi] at hsome
      cases hsome

theorem along_noWrap {events : List Event} (hw : w.trace.count ≤ w.calls.length)
    (h : ¬(events.foldl step w).trace.count < (events.foldl step w).calls.length) :
    Along step NoWrap w events := by
  have hlost : ∀ (events : List Event) (w : World), w.trace.count < w.calls.length →
      (events.foldl step w).trace.count < (events.foldl step w).calls.length := by
    intro events
    induction events with
    | nil => exact fun _ hw => hw
    | cons event events ih => exact fun w hw => ih _ (count_step_lt hw event)
  induction events generalizing w with
  | nil => exact .nil
  | cons event events ih =>
    rw [Along.cons_iff]
    refine ⟨?_, ih (count_step hw event) h⟩
    by_contra hwrap
    exact h (hlost events _ (count_wrap hw hwrap))

theorem Faithful.count {endTime : UInt64} (h : Faithful w endTime) :
    w.trace.count = w.calls.length := by
  obtain ⟨flushed, hfile, -, hperm⟩ := h
  unfold TraceBB.count
  rw [← hperm.length_eq, hfile, encode_repeatCount, ← List.map_append, List.map_map,
    List.length_flatMap]
  apply congrArg List.sum
  apply List.map_congr_left
  intro r _
  simp [BBRec.expand]

def Live (t : TraceBB) (tb : TranslationBlock) : Prop := t.flushTime < tb.prevTime

/-- The records account for the calls, and every live block has a record of its own in the
buffer, which ends with the last execution of the block. -/
structure Intact (w : World) (flushed : List BBRec) : Prop where
  file : w.trace.file = (encode 0 0 flushed).1
  prev : (w.trace.prevBbNum, w.trace.prevBbTime) = (encode 0 0 flushed).2
  plain : ∀ r ∈ flushed ++ w.trace.buffered, r.Plain
  calls : ((flushed ++ w.trace.buffered).flatMap BBRec.expand).Perm w.calls
  flushTime : w.trace.flushTime ≤ w.simTime
  past : ∀ b, (w.tbs b).prevTime ≤ w.simTime
  kept : ∀ b, Live w.trace (w.tbs b) → ∃ i < w.trace.next,
    (w.tbs b).bbRec = some i ∧ (w.trace.buffer i).last = (w.tbs b).prevTime
  own : ∀ b c i, Live w.trace (w.tbs b) → Live w.trace (w.tbs c) →
    (w.tbs b).bbRec = some i → (w.tbs c).bbRec = some i → b = c

variable {flushed : List BBRec}

theorem start_intact (pcs : Nat → UInt32) : Intact (start pcs) [] where
  file := rfl
  prev := rfl
  plain := nofun
  calls := .nil
  flushTime := UInt64.le_refl 0
  past _ := UInt64.le_refl 0
  kept _ h := absurd h (UInt64.lt_irrefl 0)
  own _ _ _ h := absurd h (UInt64.lt_irrefl 0)

theorem Intact.enter (h : Intact w flushed) {simTime : UInt64} (hle : w.simTime ≤ simTime)
    (tb : TranslationBlock) (bbNum : UInt64) :
    Intact { w with trace := w.trace.enter tb bbNum simTime, simTime := simTime } flushed where
  file := h.file
  prev := h.prev
  plain := h.plain
  calls := h.calls
  flushTime := UInt64.le_trans h.flushTime hle
  past b := UInt64.le_trans (h.past b) hle
  kept := h.kept
  own := h.own

theorem Intact.encode_eq (h : Intact w flushed) :
    encode 0 0 (flushed ++ w.trace.buffered) =
      let written := encode w.trace.prevBbNum w.trace.prevBbTime w.trace.buffered
      (w.trace.file ++ written.1, written.2) := by
  rw [encode_append]
  dsimp only
  rw [← h.prev, ← h.file]

theorem Intact.flush (h : Intact w flushed) :
    Intact { w with trace := w.trace.flush w.simTime } (flushed ++ w.trace.buffered) := by
  have hdead : ∀ b, ¬Live (w.trace.flush w.simTime) (w.tbs b) := fun b =>
    UInt64.not_lt.mpr (h.past b)
  have hempty : (w.trace.flush w.simTime).buffered = [] := rfl
  refine ⟨?_, ?_, ?_, ?_, UInt64.le_refl _, h.past, fun b hb => absurd hb (hdead b),
    fun b _ _ hb => absurd hb (hdead b)⟩
  · rw [h.encode_eq]
    rfl
  · rw [h.encode_eq]
    rfl
  · dsimp only
    rw [hempty, List.append_nil]
    exact h.plain
  · dsimp only
    rw [hempty, List.append_nil]
    exact h.calls

theorem Intact.push (h : Intact w flushed) (tb : Nat) {tb' : TranslationBlock}
    (hrec : tb'.bbRec = some w.trace.next) (hprev : tb'.prevTime = w.simTime) (bbNum : UInt64) :
    Intact ⟨w.trace.push ⟨w.simTime, bbNum, 0, 0⟩, Function.update w.tbs tb tb', w.simTime,
      w.calls ++ [(bbNum, w.simTime)]⟩ flushed := by
  have hexpand : BBRec.expand ⟨w.simTime, bbNum, 0, 0⟩ = [(bbNum, w.simTime)] := by
    unfold BBRec.expand
    dsimp only
    rw [UInt32.toNat_zero, Nat.zero_add, List.range_one, List.map_singleton, UInt64.mul_zero,
      UInt64.add_zero]
  have hlast : BBRec.last ⟨w.simTime, bbNum, 0, 0⟩ = w.simTime := by
    unfold BBRec.last
    rw [UInt64.mul_zero, UInt64.add_zero]
  have hold : ∀ i < w.trace.next,
      (w.trace.push ⟨w.simTime, bbNum, 0, 0⟩).buffer i = w.trace.buffer i := fun i hi =>
    Function.update_of_ne (Nat.ne_of_lt hi) _ _
  have hself : Function.update w.tbs tb tb' tb = tb' := Function.update_self _ _ _
  have hother : ∀ b, b ≠ tb → Function.update w.tbs tb tb' b = w.tbs b := fun b hb =>
    Function.update_of_ne hb _ _
  refine ⟨h.file, h.prev, ?plain, ?calls, h.flushTime, ?past, ?kept, ?own⟩
  case plain =>
    dsimp only
    rw [buffered_push, ← List.append_assoc]
    apply List.forall_mem_append.mpr ⟨h.plain, _⟩
    exact List.forall_mem_singleton.mpr fun _ => rfl
  case calls =>
    dsimp only
    rw [buffered_push, ← List.append_assoc, List.flatMap_append, List.flatMap_singleton, hexpand]
    exact h.calls.append_right _
  case past =>
    intro b
    dsimp only
    by_cases hb : b = tb
    · rw [hb, hself, hprev]
      exact UInt64.le_refl _
    · rw [hother b hb]
      exact h.past b
  case kept =>
    intro b
    dsimp only
    by_cases hb : b = tb
    · rw [hb, hself, hprev]
      intro _
      refine ⟨w.trace.next, Nat.lt_succ_self _, hrec, ?_⟩
      exact (congrArg BBRec.last (Function.update_self _ _ _)).trans hlast
    · rw [hother b hb]
      intro hlive
      obtain ⟨i, hi, hbrec, hend⟩ := h.kept b hlive
      exact ⟨i, Nat.lt_succ_of_lt hi, hbrec, (congrArg BBRec.last (hold i hi)).trans hend⟩
  case own =>
    -- the records of the other blocks stand before the new one
    have hbefore : ∀ b, Live w.trace (w.tbs b) → (w.tbs b).bbRec ≠ tb'.bbRec := by
      intro b hlive hbrec
      obtain ⟨i, hi, hbrec', -⟩ := h.kept b hlive
      rw [hbrec', hrec] at hbrec
      exact Nat.ne_of_lt hi (Option.some_inj.mp hbrec)
    intro b c i
    dsimp only
    by_cases hb : b = tb
    · by_cases hc : c = tb
      · exact fun _ _ _ _ => hb.trans hc.symm
      · rw [hb, hself, hother c hc]
        exact fun _ hlive hi hcrec => absurd (hcrec.trans hi.symm) (hbefore c hlive)
    · by_cases hc : c = tb
      · rw [hc, hself, hother b hb]
        exact fun hlive _ hbrec hi => absurd (hbrec.trans hi.symm) (hbefore b hlive)
      · rw [hother b hb, hother c hc]
        exact h.own b c i

theorem Intact.fold (h : Intact w flushed) {tb : Nat} {bbNum : UInt64} {i : Nat} {r : BBRec}
    (hcurrent : current w.trace (w.tbs tb) bbNum = some i)
    (hfold : fold (w.trace.buffer i) (w.simTime - (w.tbs tb).prevTime) = some r)
    (hwrap : (w.trace.buffer i).repeatCount + 1 ≠ 0) {tb' : TranslationBlock}
    (hsame : tb'.bbRec = (w.tbs tb).bbRec) (hprev : tb'.prevTime = w.simTime) :
    Intact ⟨{ w.trace with buffer := Function.update w.trace.buffer i r },
      Function.update w.tbs tb tb', w.simTime, w.calls ++ [(bbNum, w.simTime)]⟩ flushed := by
  obtain ⟨hrec, hguard⟩ := Option.filter_eq_some_iff.mp hcurrent
  obtain ⟨hnum, hlive⟩ := of_decide_eq_true hguard
  obtain ⟨j, hi, hrec', hend⟩ := h.kept tb hlive
  obtain rfl : i = j := Option.some_inj.mp (hrec.symm.trans hrec')
  obtain ⟨hlast, hexpand⟩ := fold_expand hfold hwrap
  have htime : (w.trace.buffer i).last + (w.simTime - (w.tbs tb).prevTime) = w.simTime := by
    rw [hend, UInt64.add_comm, UInt64.sub_add_cancel]
  rw [htime] at hlast hexpand
  have hcount : r.repeatCount ≠ 0 := by
    rw [(fold_spec hfold).1]
    exact hwrap
  obtain ⟨front, back, hold, hnew⟩ := exists_map_update w.trace.buffer r hi
  have hself : Function.update w.tbs tb tb' tb = tb' := Function.update_self _ _ _
  have hother : ∀ b, b ≠ tb → Function.update w.tbs tb tb' b = w.tbs b := fun b hb =>
    Function.update_of_ne hb _ _
  have hbbRec : ∀ b, (Function.update w.tbs tb tb' b).bbRec = (w.tbs b).bbRec := by
    intro b
    by_cases hb : b = tb
    · rw [hb, hself, hsame]
    · rw [hother b hb]
  have hliveOf : ∀ b, Live w.trace (Function.update w.tbs tb tb' b) → Live w.trace (w.tbs b) := by
    intro b hb
    by_cases hbtb : b = tb
    · exact hbtb ▸ hlive
    · exact hother b hbtb ▸ hb
  refine ⟨h.file, h.prev, ?plain, ?calls, h.flushTime, ?past, ?kept, ?own⟩
  case plain =>
    have hplain := h.plain
    unfold TraceBB.buffered at hplain ⊢
    dsimp only
    rw [hold] at hplain
    rw [hnew]
    simp only [List.forall_mem_append, List.forall_mem_cons] at hplain ⊢
    exact ⟨hplain.1, hplain.2.1, fun h0 => absurd h0 hcount, hplain.2.2.2⟩
  case calls =>
    have hcalls := h.calls
    unfold TraceBB.buffered at hcalls ⊢
    dsimp only
    rw [hold] at hcalls
    rw [hnew]
    apply List.Perm.trans _ (hcalls.append_right _)
    simp only [List.flatMap_append, List.flatMap_cons, hexpand, hnum, List.append_assoc]
    apply List.Perm.append_left
    apply List.Perm.append_left
    apply List.Perm.append_left
    exact List.perm_append_comm
  case past =>
    intro b
    dsimp only
    by_cases hb : b = tb
    · rw [hb, hself, hprev]
      exact UInt64.le_refl _
    · rw [hother b hb]
      exact h.past b
  case kept =>
    intro b hb
    dsimp only
    rw [hbbRec]
    by_cases hbtb : b = tb
    · rw [hbtb, hself, hprev]
      refine ⟨i, hi, hrec, ?_⟩
      rw [Function.update_self]
      exact hlast
    · rw [hother b hbtb]
      obtain ⟨k, hk, hreck, hendk⟩ := h.kept b (hliveOf b hb)
      refine ⟨k, hk, hreck, ?_⟩
      have hki : k ≠ i := by
        rintro rfl
        exact hbtb (h.own b tb k (hliveOf b hb) hlive hreck hrec)
      rw [Function.update_of_ne hki]
      exact hendk
  case own =>
    intro b c k hb hc
    dsimp only
    rw [hbbRec, hbbRec]
    exact h.own b c k (hliveOf b hb) (hliveOf c hc)

theorem Intact.generate (h : Intact w flushed) (tb : Nat) (pc : UInt32) :
    Intact { w with tbs := Function.update w.tbs tb ⟨pc, none, 0⟩ } flushed := by
  have hother : ∀ b, Live w.trace (Function.update w.tbs tb ⟨pc, none, 0⟩ b) → b ≠ tb := by
    rintro b hb rfl
    rw [Function.update_self] at hb
    exact UInt64.not_lt_zero hb
  have hsame : ∀ b, b ≠ tb → Function.update w.tbs tb ⟨pc, none, 0⟩ b = w.tbs b := fun b hb =>
    Function.update_of_ne hb _ _
  refine ⟨h.file, h.prev, h.plain, h.calls, h.flushTime, ?past, ?kept, ?own⟩
  case past =>
    intro b
    dsimp only
    by_cases hb : b = tb
    · rw [hb, Function.update_self]
      exact UInt64.zero_le
    · rw [hsame b hb]
      exact h.past b
  case kept =>
    intro b hb
    have hne := hother b hb
    dsimp only at hb ⊢
    rw [hsame b hne] at hb ⊢
    exact h.kept b hb
  case own =>
    intro b c i hb hc
    have hneb := hother b hb
    have hnec := hother c hc
    dsimp only at hb hc ⊢
    rw [hsame b hneb] at hb ⊢
    rw [hsame c hnec] at hc ⊢
    exact h.own b c i hb hc

theorem Intact.step (h : Intact w flushed) (hforward : Forward w event) (hwrap : NoWrap w event) :
    ∃ flushed, Intact (step w event) flushed := by
  cases event with
  | generate tb pc => exact ⟨flushed, h.generate tb pc⟩
  | call tb bbNum simTime =>
    have henter := h.enter hforward (w.tbs tb) bbNum
    unfold BB.step
    dsimp only
    rcases traceBbHelper_cases w.trace (w.tbs tb) bbNum simTime with
      ⟨i, r, hcurrent, hfold, hstep⟩ | ⟨-, hstep⟩
    · have hroom := hwrap i hcurrent (Option.isSome_of_eq_some hfold)
      rw [hstep]
      exact ⟨flushed, henter.fold hcurrent hfold hroom rfl rfl⟩
    · rw [hstep, record_eq]
      dsimp only
      split
      case isTrue => exact ⟨_, henter.flush.push tb rfl rfl bbNum⟩
      case isFalse => exact ⟨flushed, henter.push tb rfl rfl bbNum⟩

theorem decode_extra (prevBbNum : Int64) (prevBbTime endTime : UInt64) :
    decode prevBbNum.toUInt64 prevBbTime [⟨-prevBbNum, endTime - prevBbTime, 0, none⟩] =
      [⟨endTime, 0, 0, 0⟩] := by
  have htime : prevBbTime + (endTime - prevBbTime) = endTime := by
    rw [UInt64.add_comm, UInt64.sub_add_cancel]
  have hnum : prevBbNum.toUInt64 + (-prevBbNum).toUInt64 = 0 := by
    rw [Int64.toUInt64_neg, UInt64.add_right_neg]
  unfold decode decode
  dsimp only
  rw [htime, hnum]
  rfl

theorem Intact.faithful (h : Intact w flushed) (endTime : UInt64) : Faithful w endTime := by
  have hread := decode_encode h.plain 0 0
  have hlast := encode_startTime 0 0 (flushed ++ w.trace.buffered)
  rw [h.encode_eq] at hread hlast
  refine ⟨flushed, h.file, ?_, h.calls⟩
  unfold traceCleanup ending
  dsimp only at hread hlast ⊢
  rw [List.dropLast_concat, ← hlast]
  refine (hread _).trans (congrArg (flushed ++ w.trace.buffered ++ ·) ?_)
  split
  case isTrue => exact decode_extra _ _ _
  case isFalse => rfl

def Recorded (w : World) : Prop := ∃ flushed, Intact w flushed

theorem faithful_of_noWrap {pcs : Nat → UInt32} {events : List Event}
    (hforward : Along step Forward (start pcs) events)
    (hwrap : Along step NoWrap (start pcs) events) (endTime : UInt64) :
    Faithful (events.foldl step (start pcs)) endTime := by
  have hrecorded : Recorded (events.foldl step (start pcs)) :=
    Along.invariant (fun _ _ ⟨_, h⟩ hok => h.step hok.1 hok.2) ⟨[], start_intact pcs⟩
      (Along.and_iff.mpr ⟨hforward, hwrap⟩)
  obtain ⟨flushed, h⟩ := hrecorded
  exact h.faithful endTime

/-- The trace of a run is faithful if no record is repeated more often than it can count. -/
theorem bbTrace_faithful_iff {pcs : Nat → UInt32} {events : List Event}
    (h : Along step Forward (start pcs) events) (endTime : UInt64) :
    Faithful (events.foldl step (start pcs)) endTime ↔ Along step NoWrap (start pcs) events :=
  ⟨fun hfaithful => along_noWrap (Nat.le_refl 0)
    (Nat.not_lt.mpr (Nat.le_of_eq hfaithful.count.symm)),
    fun hwrap => faithful_of_noWrap h hwrap endTime⟩

instance : ∀ (w : World) (event : Event), Decidable (Forward w event)
  | w, .call _ _ simTime => inferInstanceAs (Decidable (w.simTime ≤ simTime))
  | _, .generate _ _ => .isTrue trivial

theorem bbTrace_faithful_iff_fourCalls :
    Faithful ([.call 0 7 1, .call 0 7 3, .call 1 9 3, .generate 0 5, .call 0 7 5].foldl step
      (start fun _ => 0)) 6 ↔
      Along step NoWrap (start fun _ => 0)
        [.call 0 7 1, .call 0 7 3, .call 1 9 3, .generate 0 5, .call 0 7 5] :=
  bbTrace_faithful_iff (by decide) 6

def loop (k : Nat) : List Event := (List.range k).map fun i => .call 0 0 (UInt64.ofNat (i + 1))

theorem loop_succ (k : Nat) : loop (k + 1) = loop k ++ [Event.call 0 0 (UInt64.ofNat (k + 1))] := by
  unfold loop
  rw [List.range_succ, List.map_append]
  rfl

/-- What is left of `k + 1` executions of one block. -/
structure Repeated (w : World) (k : Nat) : Prop where
  bbRec : (w.tbs 0).bbRec = some 0
  prevTime : (w.tbs 0).prevTime = UInt64.ofNat (k + 1)
  simTime : w.simTime = UInt64.ofNat (k + 1)
  flushTime : w.trace.flushTime = 0
  bbNum : (w.trace.buffer 0).bbNum = 0
  repeatCount : (w.trace.buffer 0).repeatCount = UInt32.ofNat k
  timeDiff : k ≠ 0 → (w.trace.buffer 0).timeDiff = 1

theorem Repeated.fold {k : Nat} (h : Repeated w k) (hk : k < 2 ^ 32) :
    current w.trace (w.tbs 0) 0 = some 0 ∧
      BB.fold (w.trace.buffer 0) (UInt64.ofNat (k + 1 + 1) - (w.tbs 0).prevTime) =
        some { w.trace.buffer 0 with repeatCount := UInt32.ofNat (k + 1), timeDiff := 1 } := by
  have hlive : (0 : UInt64) < UInt64.ofNat (k + 1) := by
    apply UInt64.lt_iff_toNat_lt.mpr
    rw [UInt64.toNat_ofNat', Nat.mod_eq_of_lt (by omega)]
    exact Nat.succ_pos k
  have hdiff : UInt64.ofNat (k + 1 + 1) - (w.tbs 0).prevTime = 1 := by
    rw [h.prevTime, UInt64.ofNat_add (k + 1) 1, UInt64.add_comm]
    exact UInt64.add_sub_cancel _ _
  constructor
  · unfold current
    rw [h.bbRec]
    refine Option.filter_eq_some_iff.mpr ⟨rfl, decide_eq_true ⟨h.bbNum, ?_⟩⟩
    rw [h.flushTime, h.prevTime]
    exact hlive
  · unfold BB.fold
    rw [hdiff, h.repeatCount]
    by_cases h0 : k = 0
    · subst h0
      rfl
    · have hne : UInt32.ofNat k ≠ 0 := by
        intro hzero
        apply h0
        have := congrArg UInt32.toNat hzero
        rwa [UInt32.toNat_ofNat', Nat.mod_eq_of_lt hk] at this
      rw [if_neg hne, if_pos (h.timeDiff h0).symm, ← h.timeDiff h0, UInt32.ofNat_add]
      rfl

theorem loop_repeated {k : Nat} (hk : k < 2 ^ 32) :
    Repeated ((loop (k + 1)).foldl step (start fun _ => 0)) k := by
  induction k with
  | zero => exact ⟨rfl, rfl, rfl, rfl, rfl, rfl, fun h => absurd rfl h⟩
  | succ k ih =>
    have h := ih (Nat.lt_of_succ_lt hk)
    obtain ⟨hcurrent, hfold⟩ := h.fold (Nat.lt_of_succ_lt hk)
    rw [loop_succ, List.foldl_append]
    generalize (loop (k + 1)).foldl step (start fun _ => 0) = w at h hcurrent hfold
    rcases traceBbHelper_cases w.trace (w.tbs 0) 0 (UInt64.ofNat (k + 1 + 1)) with
      ⟨i, r, hi, hr, hstep⟩ | ⟨hnone, -⟩
    · obtain rfl := Option.some_inj.mp (hi.symm.trans hcurrent)
      obtain rfl := Option.some_inj.mp (hr.symm.trans hfold)
      rw [List.foldl_cons, List.foldl_nil]
      unfold step
      dsimp only
      rw [hstep]
      exact ⟨h.bbRec, rfl, rfl, h.flushTime, h.bbNum, rfl, fun _ => rfl⟩
    · rw [hnone 0 hcurrent] at hfold
      cases hfold

theorem loop_forward (pcs : Nat → UInt32) {k : Nat} (hk : k < 2 ^ 64) :
    Along step Forward (start pcs) (loop k) ∧
      ((loop k).foldl step (start pcs)).simTime = UInt64.ofNat k := by
  induction k with
  | zero => exact ⟨.nil, rfl⟩
  | succ k ih =>
    obtain ⟨hforward, htime⟩ := ih (Nat.lt_of_succ_lt hk)
    rw [loop_succ, Along.concat_iff, List.foldl_append]
    refine ⟨⟨hforward, ?_⟩, rfl⟩
    unfold Forward
    dsimp only
    rw [htime, UInt64.le_iff_toNat_le, UInt64.toNat_ofNat', UInt64.toNat_ofNat',
      Nat.mod_eq_of_lt hk, Nat.mod_eq_of_lt (Nat.lt_of_succ_lt hk)]
    exact Nat.le_succ k

/-- A block that runs more than `2 ^ 32` times in a row is not traced faithfully. -/
theorem loop_not_faithful : ∃ events : List Event,
    Along step Forward (start fun _ => 0) events ∧
      ¬Faithful (events.foldl step (start fun _ => 0)) (UInt64.ofNat (2 ^ 32 + 2)) := by
  obtain ⟨k, hk⟩ : ∃ k, k + 1 = 2 ^ 32 := ⟨2 ^ 32 - 1, by omega⟩
  refine ⟨loop (k + 1 + 1), ?_, ?_⟩
  · exact (loop_forward _ (by omega)).1
  · intro hfaithful
    have hwrap : Along step NoWrap (start fun _ => 0) (loop (k + 1 + 1)) :=
      along_noWrap (Nat.le_refl 0) (Nat.not_lt.mpr (Nat.le_of_eq hfaithful.count.symm))
    rw [loop_succ] at hwrap
    have h := loop_repeated (k := k) (by omega)
    obtain ⟨hcurrent, hfold⟩ := h.fold (by omega)
    apply hwrap (loop (k + 1)) _ List.prefix_rfl 0 hcurrent (Option.isSome_of_eq_some hfold)
    rw [h.repeatCount]
    have hzero : UInt32.ofNat (k + 1) = 0 := by
      rw [hk]
      rfl
    rw [UInt32.ofNat_add] at hzero
    exact hzero

end Runs

end M2M.Trace.BB
