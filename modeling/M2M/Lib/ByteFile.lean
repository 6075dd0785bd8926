import Mathlib.Data.List.Basic
import Mathlib.Data.List.GetD

namespace M2M.Lib

/-- An open file: its bytes, and the offset at which it is read and written. -/
structure ByteFile where
  bytes : List UInt8
  pos : Nat

/-- An array of bytes after `bytes` have been put at `start`. -/
def put (array : Nat → UInt8) (start : Nat) (bytes : List UInt8) : Nat → UInt8 :=
  fun p => if p < start then array p else bytes.getD (p - start) (array p)

section Arrays

variable (array : Nat → UInt8) (start : Nat)

@[simp] theorem put_nil : put array start [] = array := by
  funext p
  simp [put]

theorem put_of_lt {p : Nat} (h : p < start) (bytes : List UInt8) :
    put array start bytes p = array p := if_pos h

theorem put_of_le {bytes : List UInt8} {p : Nat} (h : start + bytes.length ≤ p) :
    put array start bytes p = array p := by
  have hlt : ¬p < start := by omega
  unfold put
  rw [if_neg hlt, List.getD_eq_default _ _ (by omega)]

end Arrays

namespace ByteFile

variable (f : ByteFile)

/-- The array of a file that is followed by bytes `fill`. -/
def array (fill : UInt8) : Nat → UInt8 := fun p => f.bytes.getD p fill

def seek (pos : Nat) : ByteFile := { f with pos }

/-- As many bytes as there are, at most `size`. -/
def read (size : Nat) : List UInt8 × ByteFile :=
  let bytes := (f.bytes.drop f.pos).take size
  (bytes, { f with pos := f.pos + bytes.length })

/-- A file that ends before its offset is filled with zeroes.  Writing nothing does nothing. -/
def write (bytes : List UInt8) : ByteFile :=
  if bytes = [] then f
  else
    ⟨f.bytes.take f.pos ++ List.replicate (f.pos - f.bytes.length) 0 ++ bytes ++
      f.bytes.drop (f.pos + bytes.length), f.pos + bytes.length⟩

def truncate (size : Nat) : ByteFile :=
  { f with bytes := f.bytes.take size ++ List.replicate (size - f.bytes.length) 0 }

@[simp] theorem write_nil : f.write [] = f := if_pos rfl

@[simp] theorem pos_write (bytes : List UInt8) : (f.write bytes).pos = f.pos + bytes.length := by
  unfold write
  split
  case isTrue h => simp [h]
  case isFalse => rfl

theorem length_front :
    (f.bytes.take f.pos ++ List.replicate (f.pos - f.bytes.length) 0).length = f.pos := by
  rw [List.length_append, List.length_take, List.length_replicate]
  omega

theorem write_append (front back : List UInt8) :
    f.write (front ++ back) = (f.write front).write back := by
  by_cases hfront : front = []
  · rw [hfront, List.nil_append, write_nil]
  by_cases hback : back = []
  · rw [hback, List.append_nil, write_nil]
  have hlength : (f.bytes.take f.pos ++ List.replicate (f.pos - f.bytes.length) 0 ++
      front).length = f.pos + front.length := by
    rw [List.length_append, length_front]
  have happend : front ++ back ≠ [] := fun h => hfront (List.append_eq_nil_iff.mp h).1
  have hrest : ∀ kept rest : List UInt8, kept.length = f.pos + front.length →
      (kept ++ rest).drop (f.pos + front.length + back.length) = rest.drop back.length := by
    intro kept rest hkept
    rw [← hkept, List.drop_length_add_append]
  have hfull : ∀ kept rest : List UInt8, kept.length = f.pos + front.length →
      List.replicate (f.pos + front.length - (kept ++ rest).length) (0 : UInt8) = [] := by
    intro kept rest hkept
    rw [List.length_append, hkept, Nat.sub_eq_zero_of_le (Nat.le_add_right _ _)]
    rfl
  unfold write
  rw [if_neg happend, if_neg hfront, if_neg hback]
  dsimp only
  rw [List.take_left' hlength, hfull _ _ hlength, hrest _ _ hlength, List.drop_drop,
    List.length_append, ← Nat.add_assoc, List.append_nil, ← List.append_assoc]

theorem array_write (fill : UInt8) (h : f.pos ≤ f.bytes.length) (bytes : List UInt8) :
    (f.write bytes).array fill = put (f.array fill) f.pos bytes := by
  unfold write
  split
  case isTrue hnil => rw [hnil, put_nil]
  case isFalse =>
    have hpad : List.replicate (f.pos - f.bytes.length) (0 : UInt8) = [] := by
      rw [Nat.sub_eq_zero_of_le h]
      rfl
    have htake : (f.bytes.take f.pos).length = f.pos := List.length_take_of_le h
    funext p
    unfold array put
    dsimp only
    rw [hpad, List.append_nil]
    by_cases hp : p < f.pos
    · rw [if_pos hp, List.append_assoc, List.getD_append _ _ _ _ (htake.symm ▸ hp)]
      simp [List.getD_eq_getElem?_getD, hp]
    · have hle : (f.bytes.take f.pos).length ≤ p :=
        Nat.le_trans (Nat.le_of_eq htake) (Nat.not_lt.mp hp)
      rw [if_neg hp, List.append_assoc, List.getD_append_right _ _ _ _ hle, htake]
      by_cases hbytes : p - f.pos < bytes.length
      · simp [List.getD_eq_getElem?_getD, List.getElem?_append, hbytes]
      · have hsum : f.pos + bytes.length + (p - f.pos - bytes.length) = p := by omega
        simp [List.getD_eq_getElem?_getD, List.getElem?_append, hbytes, hsum]

/-- Bytes of the array of a file. -/
def span (fill : UInt8) (start len : Nat) : List UInt8 :=
  (List.range len).map fun i => f.array fill (start + i)

@[simp] theorem length_span (fill : UInt8) (start len : Nat) :
    (f.span fill start len).length = len := by
  simp [span]

theorem span_add (fill : UInt8) (start n m : Nat) :
    f.span fill start (n + m) = f.span fill start n ++ f.span fill (start + n) m := by
  unfold span
  rw [List.range_add, List.map_append, List.map_map]
  simp only [Function.comp_def, Nat.add_assoc]

theorem span_of_le (fill : UInt8) {start : Nat} (h : f.bytes.length ≤ start) (len : Nat) :
    f.span fill start len = List.replicate len fill := by
  apply List.eq_replicate_iff.mpr ⟨f.length_span fill start len, _⟩
  intro b hb
  obtain ⟨i, -, rfl⟩ := List.mem_map.mp hb
  exact List.getD_eq_default _ _ (Nat.le_add_right_of_le h)

theorem read_eq_span (fill : UInt8) (size : Nat) :
    (f.read size).1 = f.span fill f.pos (min size (f.bytes.length - f.pos)) := by
  apply List.ext_getElem
  · simp [read]
  · intro i hi hi'
    have hlt : i < min size (f.bytes.length - f.pos) := by simpa using hi'
    have hpos : f.pos + i < f.bytes.length := by omega
    simp [read, span, array, hpos]

end ByteFile

end M2M.Lib
