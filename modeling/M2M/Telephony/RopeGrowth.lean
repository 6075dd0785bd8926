import M2M.Telephony.SmsReader

/-! Ropes that grow: what `realloc` keeps of them. -/

namespace M2M.Telephony

/-- A call that adds to a rope.  An area that is reserved is filled with `text` before the next
call. -/
inductive RopeCall
  | add (buf : List UInt8)
  | addC (c : UInt8)
  | reserve (text : List UInt8)

namespace RopeCall

def added : RopeCall → List UInt8
  | .add buf => buf
  | .addC c => [c]
  | .reserve text => text

/-- The call on a rope, where `realloc` gives memory that holds `fresh`. -/
def apply (fresh : Nat → UInt8) : RopeCall → GsmRope → GsmRope
  | .add buf, rope => rope.add fresh buf
  | .addC c, rope => rope.addC fresh c
  | .reserve text, rope => rope.addText fresh text

/-- The calls one after the other, the first of them with `fresh 0`. -/
def run : (Nat → Nat → UInt8) → List RopeCall → GsmRope → GsmRope
  | _, [], rope => rope
  | fresh, call :: calls, rope =>
    run (fun k => fresh (k + 1)) calls (call.apply (fresh 0) rope)

theorem run_cons (fresh : Nat → Nat → UInt8) (call : RopeCall) (calls : List RopeCall)
    (rope : GsmRope) : run fresh (call :: calls) rope =
      run (fun k => fresh (k + 1)) calls (call.apply (fresh 0) rope) := rfl

/-- The concatenation of what is added. -/
def text (calls : List RopeCall) : List UInt8 := calls.flatMap added

@[simp] theorem text_nil : text [] = [] := rfl

@[simp] theorem text_cons (call : RopeCall) (calls : List RopeCall) :
    text (call :: calls) = call.added ++ text calls := List.flatMap_cons

@[simp] theorem text_append (calls calls' : List RopeCall) :
    text (calls ++ calls') = text calls ++ text calls' := List.flatMap_append

end RopeCall

namespace GsmRope

variable {fresh : Nat → UInt8} {rope : GsmRope} {held buf : List UInt8}

theorem addText_eq (fresh : Nat → UInt8) (rope : GsmRope) (text : List UInt8) :
    rope.addText fresh text = rope.add fresh text := by
  rw [addText, reserve, add]
  cases rope.canGrow fresh text.length with
  | mk grown rope =>
    cases grown with
    | false => rfl
    | true =>
      obtain ⟨data, max, pos, error, data0⟩ := rope
      have hcopy : (fun (bytes : Nat → UInt8) i => if pos ≤ i then
          copyTo 0 text (fun j => bytes (pos + j)) (i - pos) else bytes i) = copyTo pos text := by
        funext bytes i
        simp only [copyTo, if_pos (Nat.zero_le _), Nat.sub_zero]
        split
        · next hle => rw [Nat.add_sub_cancel' hle]
        · rfl
      simp only [if_true, fill, hcopy]
      cases data <;> rfl

theorem apply_eq_add (fresh : Nat → UInt8) (call : RopeCall) (rope : GsmRope) :
    call.apply fresh rope = rope.add fresh call.added := by
  cases call with
  | add buf => rfl
  | addC c => rfl
  | reserve text => exact addText_eq fresh rope text

theorem le_growMax (newCount newMax : Nat) : newCount ≤ growMax newCount newMax := by
  induction newMax using growMax.induct newCount with
  | case1 newMax hlt ih =>
    rw [growMax, if_pos hlt]
    exact ih
  | case2 newMax hle =>
    rw [growMax, if_neg hle]
    exact Nat.not_lt.mp hle

/-- The rope has memory, and `held` in the first bytes of it. -/
structure Stores (rope : GsmRope) (held : List UInt8) : Prop where
  error : rope.error = false
  pos : rope.pos = held.length
  max : held.length ≤ rope.max
  bytes : ∃ bytes, rope.bytes = some bytes ∧ ∀ i, i < held.length → bytes i = held.getD i 0

/-- The memory is a block of the rope's own, so that `realloc` keeps what it holds. -/
structure Allocated (rope : GsmRope) (held : List UInt8) : Prop extends rope.Stores held where
  heap : ∃ bytes, rope.data = .heap bytes

/-- The memory is the area in the rope. -/
structure Inline (rope : GsmRope) (held : List UInt8) : Prop extends rope.Stores held where
  data0 : rope.data = .data0
  size : rope.max = dataSize

theorem Stores.doneAcquire (h : rope.Stores held) : rope.doneAcquire = some held := by
  obtain ⟨bytes, hbytes, hheld⟩ := h.bytes
  rw [GsmRope.doneAcquire, hbytes, Option.map_some, h.pos]
  refine congrArg some (List.ext_getElem (by simp) fun i hi hi' => ?_)
  rw [List.getElem_map, List.getElem_range, hheld i hi', List.getD_eq_getElem _ _ hi']

theorem allocated_initAlloc {count : Nat} (h : 0 < count) :
    (rope.initAlloc count).Allocated [] := by
  rw [initAlloc, if_pos h]
  exact ⟨⟨rfl, rfl, Nat.zero_le _, _, rfl, fun _ hi => absurd hi (Nat.not_lt_zero _)⟩, _, rfl⟩

theorem inline_initAlloc_zero : (rope.initAlloc 0).Inline [] :=
  ⟨⟨rfl, rfl, Nat.zero_le _, _, rfl, fun _ hi => absurd hi (Nat.not_lt_zero _)⟩, rfl, rfl⟩

theorem copyTo_append {bytes : Nat → UInt8} (hbytes : ∀ i, i < held.length → bytes i = held.getD i 0) :
    ∀ i, i < (held ++ buf).length → copyTo held.length buf bytes i = (held ++ buf).getD i 0 := by
  intro i hi
  rw [List.length_append] at hi
  rw [copyTo]
  split
  · next hle =>
    rw [List.getD_append_right _ _ _ _ hle, List.getD_eq_getElem _ _ (by omega),
      List.getD_eq_getElem _ _ (by omega)]
  · next hlt => rw [List.getD_append _ _ _ _ (by omega), hbytes i (by omega)]

theorem Allocated.add (h : rope.Allocated held) (fresh : Nat → UInt8) (buf : List UInt8) :
    (rope.add fresh buf).Allocated (held ++ buf) := by
  obtain ⟨data, max, pos, error, data0⟩ := rope
  obtain ⟨⟨rfl, rfl, hmax, _, hsome, hheld⟩, bytes, rfl⟩ := h
  obtain rfl := Option.some.inj hsome
  by_cases hgrow : held.length + buf.length > max
  · have hkept : ∀ i, i < held.length →
        (if i < max then bytes i else fresh i) = held.getD i 0 := by
      intro i hi
      rw [if_pos (Nat.lt_of_lt_of_le hi hmax), hheld i hi]
    have hadd : GsmRope.add fresh ⟨.heap bytes, max, held.length, false, data0⟩ buf =
        ⟨.heap (copyTo held.length buf fun i => if i < max then bytes i else fresh i),
          growMax (held.length + buf.length) max, held.length + buf.length, false, data0⟩ := by
      simp only [GsmRope.add, canGrow, if_pos hgrow, ensure, if_true, modify]
    rw [hadd]
    refine ⟨⟨rfl, List.length_append.symm, ?_, _, rfl, copyTo_append hkept⟩, _, rfl⟩
    rw [List.length_append]
    exact le_growMax _ _
  · have hadd : GsmRope.add fresh ⟨.heap bytes, max, held.length, false, data0⟩ buf =
        ⟨.heap (copyTo held.length buf bytes), max, held.length + buf.length, false, data0⟩ := by
      simp only [GsmRope.add, canGrow, if_neg hgrow, if_true, modify]
    rw [hadd]
    refine ⟨⟨rfl, List.length_append.symm, ?_, _, rfl, copyTo_append hheld⟩, _, rfl⟩
    rw [List.length_append]
    exact Nat.not_lt.mp hgrow

theorem Inline.add (h : rope.Inline held) (fresh : Nat → UInt8)
    (hfit : (held ++ buf).length ≤ dataSize) : (rope.add fresh buf).Inline (held ++ buf) := by
  obtain ⟨data, max, pos, error, data0⟩ := rope
  obtain ⟨⟨rfl, rfl, hmax, _, hsome, hheld⟩, rfl, rfl⟩ := h
  obtain rfl := Option.some.inj hsome
  rw [List.length_append] at hfit
  have hadd : GsmRope.add fresh ⟨.data0, dataSize, held.length, false, data0⟩ buf =
      ⟨.data0, dataSize, held.length + buf.length, false, copyTo held.length buf data0⟩ := by
    simp only [GsmRope.add, canGrow, if_neg (Nat.not_lt.mpr hfit), if_true, modify]
  rw [hadd]
  refine ⟨⟨rfl, List.length_append.symm, ?_, _, rfl, copyTo_append hheld⟩, rfl, rfl⟩
  rw [List.length_append]
  exact hfit

theorem Inline.add_over (h : rope.Inline held) (fresh : Nat → UInt8)
    (hover : dataSize < (held ++ buf).length) :
    (rope.add fresh buf).Allocated ((List.range held.length).map fresh ++ buf) := by
  obtain ⟨data, max, pos, error, data0⟩ := rope
  obtain ⟨⟨rfl, rfl, hmax, -⟩, rfl, rfl⟩ := h
  rw [List.length_append] at hover
  have hadd : GsmRope.add fresh ⟨.data0, dataSize, held.length, false, data0⟩ buf =
      ⟨.heap (copyTo held.length buf fresh), growMax (held.length + buf.length) dataSize,
        held.length + buf.length, false, data0⟩ := by
    simp only [GsmRope.add, canGrow, if_pos hover, ensure, if_true, modify]
  have hlength : ((List.range held.length).map fresh).length = held.length := by simp
  rw [hadd]
  refine ⟨⟨rfl, ?_, ?_, _, rfl, ?_⟩, _, rfl⟩
  · rw [List.length_append, hlength]
  · rw [List.length_append, hlength]
    exact le_growMax _ _
  · conv in copyTo held.length buf fresh => rw [← hlength]
    refine copyTo_append fun i hi => ?_
    rw [List.getD_eq_getElem _ _ hi, List.getElem_map, List.getElem_range]

theorem Allocated.run (h : rope.Allocated held) (fresh : Nat → Nat → UInt8)
    (calls : List RopeCall) :
    (RopeCall.run fresh calls rope).Allocated (held ++ RopeCall.text calls) := by
  induction calls generalizing rope held fresh with
  | nil =>
    rw [RopeCall.text_nil, List.append_nil]
    exact h
  | cons call calls ih =>
    rw [RopeCall.run_cons, apply_eq_add, RopeCall.text_cons, ← List.append_assoc]
    exact ih (h.add (fresh 0) call.added) _

theorem Inline.run (h : rope.Inline held) (fresh : Nat → Nat → UInt8) {calls : List RopeCall}
    (hfit : (held ++ RopeCall.text calls).length ≤ dataSize) :
    (RopeCall.run fresh calls rope).Inline (held ++ RopeCall.text calls) := by
  induction calls generalizing rope held fresh with
  | nil =>
    rw [RopeCall.text_nil, List.append_nil]
    exact h
  | cons call calls ih =>
    rw [RopeCall.text_cons, ← List.append_assoc] at hfit ⊢
    rw [RopeCall.run_cons, apply_eq_add]
    refine ih (h.add (fresh 0) ?_) _ hfit
    rw [List.length_append] at hfit
    omega

theorem run_append (fresh : Nat → Nat → UInt8) (calls calls' : List RopeCall) (rope : GsmRope) :
    RopeCall.run fresh (calls ++ calls') rope =
      RopeCall.run (fun k => fresh (k + calls.length)) calls' (RopeCall.run fresh calls rope) := by
  induction calls generalizing rope fresh with
  | nil => rfl
  | cons call calls ih =>
    rw [List.cons_append, RopeCall.run_cons, ih, RopeCall.run_cons]
    simp only [List.length_cons, Nat.add_assoc]

/-- The call that leaves the area in the rope puts what it adds behind whatever `realloc` gives. -/
theorem stores_over (rope : GsmRope) (fresh : Nat → Nat → UInt8) {before : List RopeCall}
    {call : RopeCall} (after : List RopeCall) (hfit : (RopeCall.text before).length ≤ dataSize)
    (hover : dataSize < (RopeCall.text (before ++ [call])).length) :
    (RopeCall.run fresh (before ++ call :: after) (rope.initAlloc 0)).Stores
      ((List.range (RopeCall.text before).length).map (fresh before.length) ++
        RopeCall.text (call :: after)) := by
  have hbefore : (RopeCall.run fresh before (rope.initAlloc 0)).Inline (RopeCall.text before) :=
    inline_initAlloc_zero.run fresh hfit
  rw [RopeCall.text_append, RopeCall.text_cons, RopeCall.text_nil, List.append_nil] at hover
  rw [run_append, RopeCall.run_cons, apply_eq_add, Nat.zero_add, RopeCall.text_cons, ← List.append_assoc]
  exact ((hbefore.add_over (fresh before.length) hover).run _ after).toStores

theorem run_counting (fresh : Nat → Nat → UInt8) (calls : List RopeCall) (rope : GsmRope)
    (pos : Nat) :
    RopeCall.run fresh calls (rope.counting pos) =
      rope.counting (pos + (RopeCall.text calls).length) := by
  induction calls generalizing fresh pos with
  | nil => rfl
  | cons call calls ih =>
    rw [RopeCall.run_cons, apply_eq_add, add_counting, ih, RopeCall.text_cons, List.length_append,
      Nat.add_assoc]

end GsmRope

/-- A rope that only counts comes to the same `pos` as one with memory, which holds there all that
was added. -/
structure RopeKept (calls : List RopeCall) (count : Nat) : Prop where
  pos : ∀ (rope rope' : GsmRope) fresh fresh', (RopeCall.run fresh calls rope.init).pos =
    (RopeCall.run fresh' calls (rope'.initAlloc count)).pos
  data : ∀ (rope : GsmRope) fresh, (RopeCall.run fresh calls (rope.initAlloc count)).doneAcquire =
    some (RopeCall.text calls)

/-- The calls add no more than the area in the rope has room for, or the first that adds something
adds more. -/
def FitsInline (calls : List RopeCall) : Prop :=
  (RopeCall.text calls).length ≤ GsmRope.dataSize ∨
    ∃ before call after, calls = before ++ call :: after ∧ RopeCall.text before = [] ∧
      GsmRope.dataSize < call.added.length

theorem exists_over {size : Nat} {calls : List RopeCall} (h : size < (RopeCall.text calls).length) :
    ∃ before call after, calls = before ++ call :: after ∧
      (RopeCall.text before).length ≤ size ∧ size < (RopeCall.text (before ++ [call])).length := by
  induction calls generalizing size with
  | nil => exact absurd h (Nat.not_lt_zero size)
  | cons call calls ih =>
    rw [RopeCall.text_cons, List.length_append] at h
    by_cases hcall : size < call.added.length
    · exact ⟨[], call, calls, rfl, Nat.zero_le _, by simpa using hcall⟩
    · obtain ⟨before, next, after, rfl, hfit, hover⟩ :=
        ih (by omega : size - call.added.length < (RopeCall.text calls).length)
      refine ⟨call :: before, next, after, rfl, ?_, ?_⟩
      · rw [RopeCall.text_cons, List.length_append]
        omega
      · rw [List.cons_append, RopeCall.text_cons, List.length_append]
        omega

variable {calls : List RopeCall} {count : Nat}

theorem exists_stores (rope : GsmRope) (fresh : Nat → Nat → UInt8) (calls : List RopeCall)
    (count : Nat) : ∃ held, (RopeCall.run fresh calls (rope.initAlloc count)).Stores held ∧
      held.length = (RopeCall.text calls).length := by
  rcases Nat.eq_zero_or_pos count with rfl | hpos
  · by_cases hfit : (RopeCall.text calls).length ≤ GsmRope.dataSize
    · exact ⟨_, (GsmRope.inline_initAlloc_zero.run fresh hfit).toStores, rfl⟩
    · obtain ⟨before, call, after, rfl, hbefore, hover⟩ := exists_over (Nat.not_le.mp hfit)
      refine ⟨_, rope.stores_over fresh after hbefore hover, ?_⟩
      simp
  · exact ⟨_, ((GsmRope.allocated_initAlloc hpos).run fresh calls).toStores, rfl⟩

theorem pos_run (rope rope' : GsmRope) (fresh fresh' : Nat → Nat → UInt8) (calls : List RopeCall)
    (count : Nat) : (RopeCall.run fresh calls rope.init).pos =
      (RopeCall.run fresh' calls (rope'.initAlloc count)).pos := by
  obtain ⟨held, hstores, hlength⟩ := exists_stores rope' fresh' calls count
  rw [hstores.pos, hlength, GsmRope.init_eq_counting, GsmRope.run_counting, Nat.zero_add]
  rfl

theorem FitsInline.stores (h : FitsInline calls) (rope : GsmRope) (fresh : Nat → Nat → UInt8) :
    (RopeCall.run fresh calls (rope.initAlloc 0)).Stores (RopeCall.text calls) := by
  rcases h with hfit | ⟨before, call, after, rfl, hnone, hover⟩
  · exact (GsmRope.inline_initAlloc_zero.run fresh hfit).toStores
  · have hfit : (RopeCall.text before).length ≤ GsmRope.dataSize := by
      rw [hnone]
      exact Nat.zero_le _
    have hlarge : GsmRope.dataSize < (RopeCall.text (before ++ [call])).length := by
      rw [RopeCall.text_append, hnone]
      simpa using hover
    have hrun := rope.stores_over fresh after hfit hlarge
    rw [hnone, List.length_nil, List.range_zero, List.map_nil, List.nil_append] at hrun
    rw [RopeCall.text_append, hnone, List.nil_append]
    exact hrun

/-- What is lost: the first byte is whatever the new memory holds. -/
theorem fitsInline_of_data (h : ∀ (rope : GsmRope) fresh,
    (RopeCall.run fresh calls (rope.initAlloc 0)).doneAcquire = some (RopeCall.text calls)) :
    FitsInline calls := by
  by_contra hnot
  rw [FitsInline, not_or, Nat.not_le] at hnot
  obtain ⟨hlarge, hfirst⟩ := hnot
  obtain ⟨before, call, after, rfl, hbefore, hover⟩ := exists_over hlarge
  cases htext : RopeCall.text before with
  | nil =>
    refine hfirst ⟨before, call, after, rfl, htext, ?_⟩
    rwa [RopeCall.text_append, htext, List.nil_append, RopeCall.text_cons, RopeCall.text_nil,
      List.append_nil] at hover
  | cons b text =>
    let rope : GsmRope := { data := .null, max := 0, pos := 0, error := false, data0 := fun _ => 0 }
    have hdata := h rope fun _ _ => b + 1
    rw [(rope.stores_over (fun _ _ => b + 1) after hbefore hover).doneAcquire, Option.some_inj, RopeCall.text_append, htext] at hdata
    have hhead := congrArg List.head? hdata
    rw [List.length_cons, List.range_succ_eq_map, List.map_cons, List.cons_append,
      List.cons_append, List.head?_cons, List.head?_cons, Option.some_inj] at hhead
    exact absurd hhead (by simp)

/-- A rope keeps what is added from its first block on, but not what was in the area of its own. -/
theorem ropeKept_iff (calls : List RopeCall) (count : Nat) :
    RopeKept calls count ↔ 0 < count ∨ FitsInline calls := by
  constructor
  · intro h
    rcases Nat.eq_zero_or_pos count with rfl | hpos
    · exact .inr (fitsInline_of_data h.data)
    · exact .inl hpos
  · intro h
    refine ⟨fun rope rope' fresh fresh' => pos_run rope rope' fresh fresh' calls count, ?_⟩
    intro rope fresh
    rcases Nat.eq_zero_or_pos count with rfl | hpos
    · exact ((h.resolve_left (Nat.lt_irrefl 0)).stores rope fresh).doneAcquire
    · exact ((GsmRope.allocated_initAlloc hpos).run fresh calls).doneAcquire

/-- Sixteen bytes fill the area in the rope, and the seventeenth makes it leave that. -/
theorem not_ropeKept_seventeen :
    ¬∀ (calls : List RopeCall) (count : Nat), RopeKept calls count := by
  intro h
  have hdata := (h [.add (List.replicate 16 1), .addC 2] 0).data
    { data := .null, max := 0, pos := 0, error := false, data0 := fun _ => 0 } fun _ _ => 0
  exact absurd hdata (by decide +kernel)

end M2M.Telephony
