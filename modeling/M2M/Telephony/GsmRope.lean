import Mathlib.Data.List.GetD
import Mathlib.Data.List.ModifyLast
import Mathlib.Logic.Function.Basic

/-! The ropes of `gsm.c`.  A rope without data only counts; one with data stores what is added. -/

namespace M2M.Telephony

/-- What `rope->data` points to: nothing, the `data0` of the rope, or a block of its own. -/
inductive RopeData
  | null
  | data0
  | heap (bytes : Nat → UInt8)

structure GsmRope where
  data : RopeData
  max : Nat
  pos : Nat
  error : Bool
  data0 : Nat → UInt8

namespace GsmRope

def dataSize : Nat := 16

variable (fresh : Nat → UInt8) (rope : GsmRope)

/-- The bytes behind `rope->data`. -/
def bytes : Option (Nat → UInt8) :=
  match rope.data with
  | .null => none
  | .data0 => some rope.data0
  | .heap bytes => some bytes

/-- Changes the bytes behind `rope->data`. -/
def modify (f : (Nat → UInt8) → Nat → UInt8) : GsmRope :=
  match rope.data with
  | .null => rope
  | .data0 => { rope with data0 := f rope.data0 }
  | .heap bytes => { rope with data := .heap (f bytes) }

/-- `gsm_rope_init`. -/
def init : GsmRope := { rope with data := .null, max := 0, pos := 0, error := false }

/-- `gsm_rope_init_alloc`. -/
def initAlloc (count : Nat) : GsmRope :=
  if count > 0 then { rope with data := .heap fun _ => 0, max := count, pos := 0, error := false }
  else { rope with data := .data0, max := dataSize, pos := 0, error := false }

/-- `gsm_rope_done_acquire`. -/
def doneAcquire : Option (List UInt8) := rope.bytes.map fun bytes => (List.range rope.pos).map bytes

/-- The loop of `gsm_rope_ensure`. -/
def growMax (newCount newMax : Nat) : Nat :=
  if newMax < newCount then growMax newCount (newMax + (newMax >>> 1 + 4)) else newMax
termination_by newCount - newMax

/-- `gsm_rope_ensure`, where `realloc` gives memory that holds `fresh`. -/
def ensure (newCount : Nat) : GsmRope :=
  match rope.data with
  | .null => { rope with max := newCount }
  | .data0 => { rope with data := .heap fresh, max := growMax newCount rope.max }
  | .heap bytes =>
    { rope with
      data := .heap fun i => if i < rope.max then bytes i else fresh i
      max := growMax newCount rope.max }

/-- `gsm_rope_can_grow`, with the rope it leaves. -/
def canGrow (count : Nat) : Bool × GsmRope :=
  match rope.data, rope.error with
  | .null, _ => (false, rope)
  | _, true => (false, rope)
  | _, false =>
    if rope.pos + count > rope.max then (true, rope.ensure fresh (rope.pos + count))
    else (true, rope)

/-- `memcpy` of `buf` to the offset `pos`. -/
def copyTo (pos : Nat) (buf : List UInt8) (bytes : Nat → UInt8) (i : Nat) : UInt8 :=
  if pos ≤ i then buf.getD (i - pos) (bytes i) else bytes i

/-- `gsm_rope_add`. -/
def add (buf : List UInt8) : GsmRope :=
  let (grown, rope) := rope.canGrow fresh buf.length
  let written := if grown then rope.modify (copyTo rope.pos buf) else rope
  { written with pos := rope.pos + buf.length }

/-- `gsm_rope_add_c`. -/
def addC (c : UInt8) : GsmRope := rope.add fresh [c]

/-- `gsm_rope_reserve`, with the offset it points to. -/
def reserve (count : Nat) : Option Nat × GsmRope :=
  let (grown, rope) := rope.canGrow fresh count
  (if grown then some rope.pos else none, { rope with pos := rope.pos + count })

/-- Fills a reserved area with what `f` makes of the bytes found there. -/
def fill (dst : Option Nat) (f : (Nat → UInt8) → Nat → UInt8) : GsmRope :=
  match dst with
  | none => rope
  | some dst =>
    rope.modify fun bytes i => if dst ≤ i then f (fun j => bytes (dst + j)) (i - dst) else bytes i

/-- `data[pos - 1] |= mask`. -/
def orLast (mask : UInt8) : GsmRope :=
  if rope.error then rope
  else
    rope.modify fun bytes =>
      Function.update bytes (rope.pos - 1) (bytes (rope.pos - 1) ||| mask)

/-- A rope that only counts, after `pos` bytes. -/
def counting (pos : Nat) : GsmRope := { rope.init with pos }

/-- A rope allocated for `max` bytes, which holds `buf`. -/
def holding (max : Nat) (buf : List UInt8) : GsmRope :=
  { rope with data := .heap fun i => buf.getD i 0, max, pos := buf.length, error := false }

theorem init_eq_counting : rope.init = rope.counting 0 := rfl

theorem initAlloc_eq_holding {count : Nat} (h : 0 < count) :
    rope.initAlloc count = rope.holding count [] := by
  rw [initAlloc, if_pos h]
  rfl

theorem initAlloc_counting (pos count : Nat) :
    (rope.counting pos).initAlloc count = rope.initAlloc count := rfl

@[simp] theorem add_counting (pos : Nat) (buf : List UInt8) :
    (rope.counting pos).add fresh buf = rope.counting (pos + buf.length) := rfl

@[simp] theorem reserve_counting (pos count : Nat) :
    (rope.counting pos).reserve fresh count = (none, rope.counting (pos + count)) := rfl

@[simp] theorem orLast_counting (pos : Nat) (mask : UInt8) :
    (rope.counting pos).orLast mask = rope.counting pos := rfl

section CopyTo

variable (pos : Nat) (bytes : Nat → UInt8)

theorem copyTo_nil : copyTo pos [] bytes = bytes := by
  funext i
  rw [copyTo, List.getD_nil, ite_self]

theorem copyTo_copyTo (a b : List UInt8) :
    copyTo (pos + a.length) b (copyTo pos a bytes) = copyTo pos (a ++ b) bytes := by
  funext i
  rw [copyTo, copyTo, copyTo]
  by_cases hpos : pos ≤ i
  · rw [if_pos hpos, if_pos hpos]
    by_cases hb : pos + a.length ≤ i
    · rw [if_pos hb, List.getD_append_right _ _ _ _ (by omega),
        List.getD_eq_default a _ (by omega), Nat.sub_add_eq]
    · rw [if_neg hb, List.getD_append _ _ _ _ (by omega)]
  · rw [if_neg (by omega), if_neg hpos, if_neg hpos]

theorem update_eq_copyTo (b : UInt8) : Function.update bytes pos b = copyTo pos [b] bytes := by
  funext i
  rw [Function.update_apply, copyTo]
  split
  · next h => rw [h, if_pos (Nat.le_refl pos), Nat.sub_self, List.getD_cons_zero]
  · next h =>
    split
    · next hle =>
      obtain ⟨k, hk⟩ := Nat.exists_eq_succ_of_ne_zero (by omega : i - pos ≠ 0)
      rw [hk, List.getD_cons_succ, List.getD_nil]
    · rfl

theorem map_range_copyTo (buf : List UInt8) :
    (List.range buf.length).map (copyTo 0 buf bytes) = buf := by
  refine List.ext_getElem (by rw [List.length_map, List.length_range]) fun i hi hi' => ?_
  rw [List.getElem_map, List.getElem_range, copyTo, if_pos (Nat.zero_le i), Nat.sub_zero,
    List.getD_eq_getElem _ _ hi']

end CopyTo

variable {rope} {max : Nat} {buf : List UInt8}

theorem canGrow_holding {count : Nat} (h : buf.length + count ≤ max) :
    (rope.holding max buf).canGrow fresh count = (true, rope.holding max buf) := by
  exact if_neg (by change ¬ buf.length + count > max; omega)

theorem add_holding {added : List UInt8} (h : buf.length + added.length ≤ max) :
    (rope.holding max buf).add fresh added = rope.holding max (buf ++ added) := by
  rw [add, canGrow_holding fresh h]
  simp only [holding, modify, if_true, List.length_append]
  congr 2
  funext i
  rw [copyTo]
  split
  · next hi => rw [List.getD_append_right _ _ _ _ hi, List.getD_eq_default buf 0 hi]
  · next hi => rw [List.getD_append _ _ _ _ (by omega)]

theorem orLast_holding {c : UInt8} (mask : UInt8) :
    (rope.holding max (buf ++ [c])).orLast mask = rope.holding max (buf ++ [c ||| mask]) := by
  simp only [orLast, holding, modify, List.length_append, List.length_singleton,
    Nat.add_sub_cancel, Bool.false_eq_true, if_false]
  congr 2
  funext i
  rw [Function.update_apply]
  split
  · next hi =>
    subst hi
    simp
  · next hi =>
    by_cases hlt : i < buf.length
    · rw [List.getD_append _ _ _ _ hlt, List.getD_append _ _ _ _ hlt]
    · rw [List.getD_eq_default _ _ (by simp; omega), List.getD_eq_default _ _ (by simp; omega)]

end GsmRope

/-- The operation counts and stores the bytes `buf`. -/
structure Adds (f : GsmRope → GsmRope) (buf : List UInt8) : Prop where
  counting : ∀ rope pos, f (GsmRope.counting rope pos) = rope.counting (pos + buf.length)
  holding : ∀ rope max held, held.length + buf.length ≤ max →
    f (GsmRope.holding rope max held) = rope.holding max (held ++ buf)

namespace Adds

variable {f g : GsmRope → GsmRope} {buf buf' : List UInt8} (fresh : Nat → UInt8)

theorem none : Adds (fun rope => rope) [] where
  counting _ _ := rfl
  holding _ _ _ _ := by rw [List.append_nil]

theorem comp (hg : Adds g buf') (hf : Adds f buf) :
    Adds (fun rope => g (f rope)) (buf ++ buf') where
  counting rope pos := by
    rw [hf.counting, hg.counting, List.length_append, Nat.add_assoc]
  holding rope max held h := by
    rw [List.length_append] at h
    rw [hf.holding rope max held (by omega),
      hg.holding rope max _ (by rw [List.length_append]; omega), List.append_assoc]

theorem add (hf : Adds f buf) (added : List UInt8) :
    Adds (fun rope => (f rope).add fresh added) (buf ++ added) := by
  have hadd : Adds (fun rope => rope.add fresh added) added :=
    { counting rope pos := rope.add_counting fresh pos added
      holding _ _ _ h := GsmRope.add_holding fresh h }
  exact hadd.comp hf

theorem addC (hf : Adds f buf) (c : UInt8) :
    Adds (fun rope => (f rope).addC fresh c) (buf ++ [c]) :=
  hf.add fresh [c]

theorem orLast (hf : Adds f buf) (hne : buf ≠ []) (mask : UInt8) :
    Adds (fun rope => (f rope).orLast mask) (buf.modifyLast (· ||| mask)) := by
  obtain ⟨buf, c, rfl⟩ : ∃ l c, buf = l ++ [c] :=
    ⟨buf.dropLast, buf.getLast hne, (List.dropLast_concat_getLast hne).symm⟩
  rw [List.modifyLast_concat]
  constructor
  · intro rope pos
    rw [hf.counting, GsmRope.orLast_counting, List.length_append, List.length_append]
    rfl
  · intro rope max held h
    rw [hf.holding rope max held (by simpa using h), ← List.append_assoc, GsmRope.orLast_holding,
      List.append_assoc]

/-- One pass over a rope: `f`, and an area that is reserved and filled in place. -/
def pass (f : GsmRope → GsmRope) (count : Nat) (fill : (Nat → UInt8) → Nat → UInt8)
    (rope : GsmRope) : GsmRope :=
  ((f rope).reserve fresh count).2.fill ((f rope).reserve fresh count).1 fill

variable (rope : GsmRope) (count : Nat) (fill : (Nat → UInt8) → Nat → UInt8)

theorem doneAcquire_pass (hf : Adds f buf) {max : Nat} (hmax : buf.length + count ≤ max) :
    (pass fresh f count fill (rope.holding max [])).doneAcquire =
      some (buf ++ (List.range count).map (fill fun _ => 0)) := by
  have hzero : (fun j => buf.getD (buf.length + j) (0 : UInt8)) = fun _ => 0 := by
    funext j
    exact List.getD_eq_default _ _ (by omega)
  rw [pass, hf.holding rope max [] (by simpa using by omega), List.nil_append, GsmRope.reserve,
    GsmRope.canGrow_holding fresh hmax]
  simp only [GsmRope.holding, GsmRope.fill, GsmRope.modify, GsmRope.doneAcquire, GsmRope.bytes,
    if_true, Option.map_some, hzero]
  congr 1
  rw [List.range_add, List.map_append, List.map_map]
  congr 1
  · refine List.ext_getElem (by simp) fun i hi hi' => ?_
    rw [List.getElem_map, List.getElem_range, if_neg (by omega), List.getD_eq_getElem _ _ hi']
  · refine List.map_congr_left fun i _ => ?_
    simp

theorem pass_init (hf : Adds f buf) :
    pass fresh f count fill rope.init = rope.counting (buf.length + count) := by
  rw [pass, GsmRope.init_eq_counting, hf.counting, GsmRope.reserve_counting, Nat.zero_add]
  rfl

theorem twice (hf : Adds f buf) (hne : buf ≠ []) :
    (pass fresh f count fill ((pass fresh f count fill rope.init).initAlloc
        (pass fresh f count fill rope.init).pos)).doneAcquire =
      some (buf ++ (List.range count).map (fill fun _ => 0)) := by
  have hpos := List.length_pos_iff.mpr hne
  rw [pass_init fresh rope count fill hf, GsmRope.initAlloc_counting]
  change (pass fresh f count fill (rope.initAlloc (buf.length + count))).doneAcquire = _
  rw [GsmRope.initAlloc_eq_holding _ (by omega), doneAcquire_pass _ _ _ _ hf (Nat.le_refl _)]

end Adds

end M2M.Telephony
