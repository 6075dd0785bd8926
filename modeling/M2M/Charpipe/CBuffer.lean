import M2M.Lib.ByteFile

namespace M2M.Charpipe

open M2M.Lib

structure CBuffer where
  buff : Nat → UInt8
  size : Nat
  rpos : Nat
  count : Nat

/-- The bytes of `buff` are left as they are. -/
def cbufferReset (buff : Nat → UInt8) (size : Nat) : CBuffer := ⟨buff, size, 0, 0⟩

def cbufferReadAvail (cb : CBuffer) : Nat := cb.count

/-- The loop of `cbuffer_write`: the buffer and the bytes that found no place. Every round
takes a byte, so as many rounds as bytes are enough. -/
def cbufferWriteLoop : Nat → CBuffer → List UInt8 → CBuffer × List UInt8
  | 0, cb, data => (cb, data)
  | rounds + 1, cb, data =>
    let avail := cb.size - cb.count
    let wpos := cb.rpos + cb.count
    if data = [] ∨ avail = 0 then (cb, data)
    else
      let wpos := if wpos ≥ cb.size then wpos - cb.size else wpos
      let avail := if wpos + avail > cb.size then cb.size - wpos else avail
      let avail := if avail > data.length then data.length else avail
      cbufferWriteLoop rounds
        { cb with buff := put cb.buff wpos (data.take avail), count := cb.count + avail }
        (data.drop avail)

def cbufferWrite (cb : CBuffer) (data : List UInt8) : CBuffer × List UInt8 :=
  cbufferWriteLoop data.length cb data

/-- The bytes from the base pointer on that are next to each other. -/
def cbufferReadPeek (cb : CBuffer) : List UInt8 :=
  let avail := if cb.rpos + cb.count > cb.size then cb.size - cb.rpos else cb.count
  (List.range avail).map fun i => cb.buff (cb.rpos + i)

def cbufferReadStep (cb : CBuffer) (len : Nat) : CBuffer :=
  let len := if len > cb.count then cb.count else len
  let rpos := cb.rpos + len
  { cb with
    rpos := if rpos ≥ cb.size then rpos - cb.size else rpos
    count := cb.count - len }

theorem take_rest {α : Type} {n m : Nat} (l : List α) (h : n ≤ m) :
    l.take n ++ (l.drop n).take (m - (l.take n).length) = l.take m ∧
      (l.drop n).drop (m - (l.take n).length) = l.drop m := by
  rw [List.length_take]
  cases Nat.le_total n l.length with
  | inl hle =>
    obtain ⟨k, rfl⟩ := Nat.exists_eq_add_of_le h
    rw [Nat.min_eq_left hle, Nat.add_sub_cancel_left, List.take_add, List.drop_drop]
    exact ⟨rfl, rfl⟩
  | inr hle =>
    rw [List.drop_eq_nil_of_le hle, List.drop_eq_nil_of_le (Nat.le_trans hle h),
      List.take_of_length_le hle, List.take_of_length_le (Nat.le_trans hle h)]
    simp

theorem take_taken {α : Type} (l : List α) (k : Nat) : l.take (l.take k).length = l.take k := by
  rw [List.length_take, List.take_eq_take_iff]
  omega

theorem drop_taken {α : Type} (l : List α) (k : Nat) : l.drop (l.take k).length = l.drop k := by
  rw [List.length_take]
  cases Nat.le_total k l.length with
  | inl hle => rw [Nat.min_eq_left hle]
  | inr hle => rw [Nat.min_eq_right hle, List.drop_length, List.drop_eq_nil_of_le hle]

namespace CBuffer

variable (cb : CBuffer)

/-- Where the byte number `i` stands. -/
def slot (i : Nat) : Nat := if cb.rpos + i ≥ cb.size then cb.rpos + i - cb.size else cb.rpos + i

def contents : List UInt8 := (List.range cb.count).map fun i => cb.buff (cb.slot i)

/-- What `cbuffer_assert` checks. -/
structure Valid : Prop where
  rpos_lt : cb.rpos < cb.size
  count_le : cb.count ≤ cb.size

variable {cb}

@[simp] theorem length_contents : cb.contents.length = cb.count := by simp [contents]

theorem valid_reset (buff : Nat → UInt8) {size : Nat} (h : 0 < size) :
    (cbufferReset buff size).Valid := ⟨h, Nat.zero_le _⟩

@[simp] theorem contents_reset (buff : Nat → UInt8) (size : Nat) :
    (cbufferReset buff size).contents = [] := rfl

theorem contents_eq_nil_iff : cb.contents = [] ↔ cb.count = 0 := by
  rw [← List.length_eq_zero_iff, length_contents]

theorem contents_put (data : List UInt8) (h : cb.Valid) (hfree : cb.count + data.length ≤ cb.size)
    (hwrap : cb.slot cb.count + data.length ≤ cb.size) :
    CBuffer.contents { cb with
      buff := put cb.buff (cb.slot cb.count) data, count := cb.count + data.length } =
      cb.contents ++ data := by
  have hsize := h.rpos_lt
  have hslot : ∀ i, CBuffer.slot { cb with
      buff := put cb.buff (cb.slot cb.count) data, count := cb.count + data.length } i =
      cb.slot i := fun _ => rfl
  simp only [contents, hslot]
  rw [List.range_add, List.map_append, List.map_map]
  congr 1
  · refine List.map_congr_left fun i hi => ?_
    rw [List.mem_range] at hi
    -- the bytes in front of the free span, and those behind it when the contents wrap
    by_cases hlt : cb.slot i < cb.slot cb.count
    · exact put_of_lt _ _ hlt _
    · refine put_of_le _ _ ?_
      unfold slot at hlt hwrap ⊢
      split at hlt <;> split at hlt <;> split <;> simp_all <;> omega
  · refine List.ext_getElem (by simp) fun i hi hi' => ?_
    have hstep : cb.slot (cb.count + i) = cb.slot cb.count + i := by
      unfold slot at hwrap ⊢
      split at hwrap <;> split <;> omega
    simp only [List.getElem_map, List.getElem_range, Function.comp_apply, hstep, put]
    rw [if_neg (by omega), Nat.add_sub_cancel_left, List.getD_eq_getElem _ _ hi']

variable (cb) in
/-- The free bytes up to the contents or to the end of `buff`. -/
def span : Nat :=
  if cb.slot cb.count + (cb.size - cb.count) > cb.size then cb.size - cb.slot cb.count
  else cb.size - cb.count

theorem Valid.span_le (h : cb.Valid) :
    cb.count + cb.span ≤ cb.size ∧ cb.slot cb.count + cb.span ≤ cb.size ∧
      (cb.count < cb.size → 0 < cb.span) := by
  have hpos := h.rpos_lt
  have hle := h.count_le
  unfold span slot
  split <;> split <;> omega

theorem writeLoop_succ {rounds : Nat} {data : List UInt8} (hdata : data ≠ [])
    (hfree : cb.count < cb.size) :
    cbufferWriteLoop (rounds + 1) cb data =
      cbufferWriteLoop rounds
        { cb with
          buff := put cb.buff (cb.slot cb.count) (data.take cb.span)
          count := cb.count + (data.take cb.span).length }
        (data.drop cb.span) := by
  have hgo : ¬(data = [] ∨ cb.size - cb.count = 0) := by
    rw [not_or]
    exact ⟨hdata, by omega⟩
  have hspan : (if cb.span > data.length then data.length else cb.span) =
      (data.take cb.span).length := by
    rw [List.length_take]
    split <;> omega
  rw [cbufferWriteLoop]
  simp only [if_neg hgo]
  change cbufferWriteLoop rounds { cb with
    buff := put cb.buff (cb.slot cb.count)
      (data.take (if cb.span > data.length then data.length else cb.span))
    count := cb.count + (if cb.span > data.length then data.length else cb.span) }
    (data.drop (if cb.span > data.length then data.length else cb.span)) = _
  rw [hspan, take_taken, drop_taken]

theorem writeLoop_spec (h : cb.Valid) (rounds : Nat) (data : List UInt8)
    (hr : data.length ≤ rounds) :
    (cbufferWriteLoop rounds cb data).1.Valid ∧
      (cbufferWriteLoop rounds cb data).1.size = cb.size ∧
      (cbufferWriteLoop rounds cb data).1.contents = cb.contents ++ data.take (cb.size - cb.count) ∧
      (cbufferWriteLoop rounds cb data).2 = data.drop (cb.size - cb.count) := by
  induction rounds generalizing cb data with
  | zero =>
    have hnil : data = [] := List.length_eq_zero_iff.mp (by omega)
    subst hnil
    simp [cbufferWriteLoop, h]
  | succ rounds ih =>
    by_cases hdata : data = []
    · subst hdata
      simp [cbufferWriteLoop, h]
    by_cases hfree : cb.count < cb.size
    · have hspan := h.span_le
      have hpos := hspan.2.2 hfree
      have hlen : (data.take cb.span).length ≤ cb.span := List.length_take_le _ _
      have hdatapos : 0 < data.length := List.length_pos_iff.mpr hdata
      have hvalid : CBuffer.Valid { cb with
          buff := put cb.buff (cb.slot cb.count) (data.take cb.span)
          count := cb.count + (data.take cb.span).length } :=
        ⟨h.rpos_lt, by dsimp only; omega⟩
      have hput := contents_put (data.take cb.span) h (by omega) (by omega)
      obtain ⟨hv, hsize, hcontents, hrest⟩ := ih hvalid (data.drop cb.span)
        (by rw [List.length_drop]; omega)
      have htake := take_rest data (n := cb.span) (m := cb.size - cb.count) (by omega)
      rw [writeLoop_succ hdata hfree]
      refine ⟨hv, hsize, ?_, ?_⟩
      · rw [hcontents, hput, List.append_assoc, ← Nat.sub_sub, htake.1]
      · rw [hrest, ← Nat.sub_sub, htake.2]
    · have hfull : cb.size - cb.count = 0 := by omega
      simp [cbufferWriteLoop, hfull, h]

theorem write_spec (h : cb.Valid) (data : List UInt8) :
    (cbufferWrite cb data).1.Valid ∧ (cbufferWrite cb data).1.size = cb.size ∧
      (cbufferWrite cb data).1.contents = cb.contents ++ data.take (cb.size - cb.count) ∧
      (cbufferWrite cb data).2 = data.drop (cb.size - cb.count) :=
  writeLoop_spec h data.length data (Nat.le_refl _)

theorem readPeek_eq (h : cb.Valid) :
    cbufferReadPeek cb = cb.contents.take (min cb.count (cb.size - cb.rpos)) := by
  have hpos := h.rpos_lt
  have havail : (if cb.rpos + cb.count > cb.size then cb.size - cb.rpos else cb.count) =
      min cb.count (cb.size - cb.rpos) := by
    split <;> omega
  rw [cbufferReadPeek, contents, ← List.map_take, List.take_range, havail,
    Nat.min_eq_left (Nat.min_le_left _ _)]
  refine List.map_congr_left fun i hi => ?_
  rw [List.mem_range] at hi
  rw [slot, if_neg (by omega)]

theorem readStep_spec (h : cb.Valid) {len : Nat} (hlen : len ≤ cb.count) :
    (cbufferReadStep cb len).Valid ∧ (cbufferReadStep cb len).size = cb.size ∧
      (cbufferReadStep cb len).contents = cb.contents.drop len := by
  have hpos := h.rpos_lt
  have hle := h.count_le
  have hmin : (if len > cb.count then cb.count else len) = len := if_neg (by omega)
  have hslot : ∀ i, i < cb.count - len → (cbufferReadStep cb len).slot i = cb.slot (len + i) := by
    intro i hi
    simp only [cbufferReadStep, slot, hmin]
    split <;> split <;> split <;> omega
  refine ⟨⟨?_, ?_⟩, rfl, ?_⟩
  · simp only [cbufferReadStep, hmin]
    split <;> omega
  · simp only [cbufferReadStep, hmin]
    omega
  · have hcount : (cbufferReadStep cb len).count = cb.count - len := by
      simp only [cbufferReadStep, hmin]
    have hsplit : cb.count = len + (cb.count - len) := by omega
    rw [contents, contents, hcount, ← List.map_drop, hsplit, List.range_add,
      List.drop_left' List.length_range, List.map_map, Nat.add_sub_cancel_left]
    refine List.map_congr_left fun i hi => ?_
    rw [List.mem_range] at hi
    rw [hslot i hi]
    rfl

end CBuffer

end M2M.Charpipe
