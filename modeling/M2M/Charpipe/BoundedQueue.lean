import M2M.Charpipe.CBuffer
import M2M.Lib.Runs

namespace M2M.Charpipe.Bounded

open M2M.Lib

/-- What an `int` is left with of the result of an addition or a subtraction. -/
def int (x : Int) : Int := x.bmod 4294967296

/-- A `CBuffer` as it is declared: three `int`s, and the memory at `buff`. -/
structure CBuffer where
  buff : Int → UInt8
  size : Int
  rpos : Int
  count : Int

def cbufferReset (buff : Int → UInt8) (size : Int) : CBuffer := ⟨buff, size, 0, 0⟩

/-- The memory after `bytes` have been copied to `dest`. -/
def memcpy (buff : Int → UInt8) (dest : Int) (bytes : List UInt8) : Int → UInt8 :=
  fun p => if p < dest then buff p else bytes.getD (p - dest).toNat (buff p)

/-- `size` bytes of the memory from `src` on. -/
def load (buff : Int → UInt8) (src : Int) (size : Nat) : List UInt8 :=
  (List.range size).map fun i : Nat => buff (src + i)

section Calls

variable (cb : CBuffer)

/-- Where the region starts, and how long it is. -/
def cbufferWritePeek : Int × Int :=
  let wpos := int (cb.rpos + cb.count)
  let avail := int (cb.size - cb.count)
  let wpos := if wpos ≥ cb.size then int (wpos - cb.size) else wpos
  let avail := if int (wpos + avail) > cb.size then int (cb.size - wpos) else avail
  (wpos, avail)

def cbufferWriteStep (len : Int) : CBuffer :=
  let count := int (cb.count + len)
  { cb with count := if count > cb.size then cb.size else count }

/-- The loop of `cbuffer_write`: the buffer and the bytes that found no place.  A `memcpy` of a
negative length is not survived.  Every round takes a byte, so as many rounds as bytes are
enough. -/
def cbufferWriteLoop : Nat → CBuffer → List UInt8 → Option (CBuffer × List UInt8)
  | 0, cb, data => some (cb, data)
  | rounds + 1, cb, data =>
    let avail := int (cb.size - cb.count)
    let wpos := int (cb.rpos + cb.count)
    if data = [] ∨ avail = 0 then some (cb, data)
    else
      let wpos := if wpos ≥ cb.size then int (wpos - cb.size) else wpos
      let avail := if int (wpos + avail) > cb.size then int (cb.size - wpos) else avail
      let avail : Int := if avail > data.length then data.length else avail
      if avail < 0 then none
      else
        cbufferWriteLoop rounds
          { cb with
            buff := memcpy cb.buff wpos (data.take avail.toNat)
            count := int (cb.count + avail) }
          (data.drop avail.toNat)

/-- The buffer, and `len - len2`. -/
def cbufferWrite (data : List UInt8) : Option (CBuffer × Int) :=
  (cbufferWriteLoop data.length cb data).map fun (cb, rest) =>
    (cb, (data.length : Int) - rest.length)

/-- The loop of `cbuffer_read`: the buffer, the bytes copied, and what is left of the length. -/
def cbufferReadLoop : Nat → CBuffer → Int → Option (CBuffer × List UInt8 × Int)
  | 0, cb, len2 => some (cb, [], len2)
  | rounds + 1, cb, len2 =>
    let avail := cb.count
    let rpos := cb.rpos
    if ¬len2 > 0 ∨ avail = 0 then some (cb, [], len2)
    else
      let avail := if int (rpos + avail) > cb.size then int (cb.size - rpos) else avail
      let avail := if avail > len2 then len2 else avail
      if avail < 0 then none
      else
        let bytes := load cb.buff rpos avail.toNat
        let rpos := int (cb.rpos + avail)
        let cb := { cb with
          count := int (cb.count - avail)
          rpos := if rpos ≥ cb.size then int (rpos - cb.size) else rpos }
        (cbufferReadLoop rounds cb (int (len2 - avail))).map fun (cb, more, len2) =>
          (cb, bytes ++ more, len2)

/-- The buffer, the bytes copied, and `len - len2`. -/
def cbufferRead (len : Nat) : Option (CBuffer × List UInt8 × Int) :=
  (cbufferReadLoop len cb len).map fun (cb, bytes, len2) => (cb, bytes, len - len2)

def cbufferReadPeek : Int × Int :=
  let avail := if int (cb.rpos + cb.count) > cb.size then int (cb.size - cb.rpos) else cb.count
  (cb.rpos, avail)

def cbufferReadStep (len : Int) : CBuffer :=
  let len := if len > cb.count then cb.count else len
  let rpos := int (cb.rpos + len)
  { cb with
    rpos := if rpos ≥ cb.size then int (rpos - cb.size) else rpos
    count := int (cb.count - len) }

end Calls

/-- What a client does.  Between a `cbuffer_write_peek` and the `cbuffer_write_step` it fills the
region. -/
inductive Call
  | write (data : List UInt8)
  | read (len : Nat)
  | fill (data : List UInt8) (len : Nat)
  | peek (len : Nat)

/-- What it sees of it: the number of bytes written, those read with their number, the region it
may fill, the region it may look at with its bytes. -/
inductive Answer
  | wrote (n : Int)
  | read (bytes : List UInt8) (n : Int)
  | region (base avail : Int)
  | peeked (base avail : Int) (bytes : List UInt8)

def CBuffer.call (cb : CBuffer) : Call → Option (CBuffer × Answer)
  | .write data => (cbufferWrite cb data).map fun (cb, n) => (cb, .wrote n)
  | .read len => (cbufferRead cb len).map fun (cb, bytes, n) => (cb, .read bytes n)
  | .fill data len =>
    let (base, avail) := cbufferWritePeek cb
    some (cbufferWriteStep { cb with buff := memcpy cb.buff base data } len, .region base avail)
  | .peek len =>
    let (base, avail) := cbufferReadPeek cb
    some (cbufferReadStep cb len, .peeked base avail (load cb.buff base avail.toNat))

/-- The lengths are `int`s, and a region is filled no further than it goes, with as many bytes
as are then stepped over. -/
def CBuffer.Fair (cb : CBuffer) : Call → Prop
  | .write data => data.length < 2147483648
  | .read len | .peek len => len < 2147483648
  | .fill data len => (data.length : Int) ≤ (cbufferWritePeek cb).2 ∧ len ≤ data.length

/-- A queue of at most `size` bytes. -/
def queueCall (size : Nat) (q : List UInt8) : Call → List UInt8
  | .write data => q ++ data.take (size - q.length)
  | .read len | .peek len => q.drop len
  | .fill data len => q ++ data.take len

/-- The answers of a queue of at most `size` bytes that is kept in `size` places. -/
def Answers (size : Nat) (q : List UInt8) : Call → Answer → Prop
  | .write data, .wrote n => n = (min data.length (size - q.length) : Nat)
  | .read len, .read bytes n => bytes = q.take len ∧ n = bytes.length
  | .fill _ _, .region base avail =>
    0 ≤ base ∧ 0 ≤ avail ∧ base + avail ≤ size ∧ avail ≤ (size - q.length : Nat) ∧
      (q.length < size → 0 < avail)
  | .peek _, .peeked base avail bytes =>
    0 ≤ base ∧ avail = bytes.length ∧ base + avail ≤ size ∧ bytes <+: q ∧ (q ≠ [] → bytes ≠ [])
  | _, _ => False

structure CBuffer.InBounds (cb : CBuffer) (size : Nat) : Prop where
  size_eq : cb.size = size
  rpos : 0 ≤ cb.rpos ∧ cb.rpos < size
  count : 0 ≤ cb.count ∧ cb.count ≤ size

/-- The buffer beside the queue it stands for. -/
def step (size : Nat) (s : CBuffer × List UInt8) (c : Call) : CBuffer × List UInt8 :=
  (((s.1.call c).map Prod.fst).getD s.1, queueCall size s.2 c)

/-- The call returns what the queue answers, and keeps the buffer in its bounds. -/
def Served (size : Nat) (s : CBuffer × List UInt8) (c : Call) : Prop :=
  ∃ cb answer, s.1.call c = some (cb, answer) ∧ cb.InBounds size ∧
    cb.count = (queueCall size s.2 c).length ∧ Answers size s.2 c answer

/-- Every run of fair calls on a buffer that has just been reset is a run of the queue. -/
def RefinesQueue (size : Nat) : Prop :=
  ∀ buff calls, Along (step size) (fun s c => s.1.Fair c) (cbufferReset buff size, []) calls →
    Along (step size) (Served size) (cbufferReset buff size, []) calls

theorem int_eq {x : Int} (h : -2147483648 ≤ x) (h' : x < 2147483648) : int x = x := by
  refine Int.bmod_eq_of_le ?_ ?_ <;> omega

theorem int_of_over {x : Int} (h : 2147483648 ≤ x) (h' : x < 4294967296) :
    int x = x - 4294967296 := by
  rw [← int_eq (x := x - 4294967296) (by omega) (by omega)]
  exact (Int.sub_bmod_right x 4294967296).symm

/-- `cb` is the buffer `n`, and no sum of its numbers is out of the range of an `int`. -/
structure Stands (cb : CBuffer) (n : Charpipe.CBuffer) : Prop where
  buff : ∀ p : Nat, cb.buff p = n.buff p
  size_eq : cb.size = n.size
  rpos_eq : cb.rpos = n.rpos
  count_eq : cb.count = n.count
  valid : n.Valid
  small : n.size ≤ 1073741824

namespace Stands

variable {cb : CBuffer} {n : Charpipe.CBuffer}

theorem inBounds (h : Stands cb n) : cb.InBounds n.size := by
  have hrpos := h.valid.rpos_lt
  have hcount := h.valid.count_le
  refine ⟨h.size_eq, ?_, ?_⟩
  · rw [h.rpos_eq]
    omega
  · rw [h.count_eq]
    omega

theorem wpos_eq (h : Stands cb n) :
    (if int (cb.rpos + cb.count) ≥ cb.size then int (int (cb.rpos + cb.count) - cb.size)
      else int (cb.rpos + cb.count)) = (n.slot n.count : Nat) := by
  have hrpos := h.valid.rpos_lt
  have hcount := h.valid.count_le
  have hsmall := h.small
  rw [h.rpos_eq, h.count_eq, h.size_eq, int_eq (x := n.rpos + n.count) (by omega) (by omega),
    int_eq (x := n.rpos + n.count - n.size) (by omega) (by omega), Charpipe.CBuffer.slot]
  split <;> split <;> omega

theorem slot_count_lt (h : Stands cb n) : n.slot n.count < n.size := by
  have hrpos := h.valid.rpos_lt
  have hcount := h.valid.count_le
  unfold Charpipe.CBuffer.slot
  split <;> omega

theorem span_eq (h : Stands cb n) :
    (if int ((n.slot n.count : Nat) + int (cb.size - cb.count)) > cb.size then
      int (cb.size - (n.slot n.count : Nat)) else int (cb.size - cb.count)) = (n.span : Nat) := by
  have hslot := h.slot_count_lt
  have hcount := h.valid.count_le
  have hsmall := h.small
  rw [h.count_eq, h.size_eq, int_eq (x := n.size - n.count) (by omega) (by omega),
    int_eq (x := (n.slot n.count : Nat) + (n.size - n.count)) (by omega) (by omega),
    int_eq (x := n.size - (n.slot n.count : Nat)) (by omega) (by omega), Charpipe.CBuffer.span]
  split <;> split <;> omega

theorem writePeek_eq (h : Stands cb n) :
    cbufferWritePeek cb = (((n.slot n.count : Nat) : Int), ((n.span : Nat) : Int)) := by
  simp only [cbufferWritePeek, h.wpos_eq, h.span_eq]

theorem readPeek_eq (h : Stands cb n) :
    cbufferReadPeek cb = ((n.rpos : Int), ((min n.count (n.size - n.rpos) : Nat) : Int)) := by
  have hrpos := h.valid.rpos_lt
  have hcount := h.valid.count_le
  have hsmall := h.small
  simp only [Bounded.cbufferReadPeek, h.rpos_eq, h.count_eq, h.size_eq]
  rw [int_eq (x := n.rpos + n.count) (by omega) (by omega),
    int_eq (x := n.size - n.rpos) (by omega) (by omega)]
  congr 1
  split <;> omega

theorem load_eq (h : Stands cb n) {size : Nat} (hsize : size ≤ min n.count (n.size - n.rpos)) :
    load cb.buff cb.rpos size = n.contents.take size := by
  have hrpos := h.valid.rpos_lt
  rw [load, Charpipe.CBuffer.contents, ← List.map_take, List.take_range,
    Nat.min_eq_left (Nat.le_trans hsize (Nat.min_le_left _ _))]
  refine List.map_congr_left fun i hi => ?_
  rw [List.mem_range] at hi
  have hin : n.rpos + i < n.size := by omega
  rw [h.rpos_eq, Charpipe.CBuffer.slot, if_neg (by omega), ← h.buff]
  rfl

theorem memcpy_eq (h : Stands cb n) (dest : Nat) (bytes : List UInt8) (p : Nat) :
    memcpy cb.buff dest bytes p = put n.buff dest bytes p := by
  rw [memcpy, put, h.buff p]
  by_cases hp : p < dest
  · rw [if_pos (by omega), if_pos hp]
  · rw [if_neg (by omega), if_neg hp]
    congr 1
    omega

theorem readStep (h : Stands cb n) {len : Nat} (hlen : len ≤ n.count) :
    Stands (Bounded.cbufferReadStep cb len) (Charpipe.cbufferReadStep n len) := by
  have hrpos := h.valid.rpos_lt
  have hcount := h.valid.count_le
  have hsmall := h.small
  have hvalid := (Charpipe.CBuffer.readStep_spec h.valid hlen).1
  have hnot : ¬(len : Int) > n.count := by omega
  refine ⟨h.buff, h.size_eq, ?_, ?_, hvalid, hsmall⟩
  · simp only [Bounded.cbufferReadStep, Charpipe.cbufferReadStep, h.rpos_eq, h.count_eq, h.size_eq,
      if_neg hnot, if_neg (Nat.not_lt.mpr hlen)]
    rw [int_eq (x := n.rpos + len) (by omega) (by omega),
      int_eq (x := n.rpos + len - n.size) (by omega) (by omega)]
    split <;> split <;> omega
  · simp only [Bounded.cbufferReadStep, Charpipe.cbufferReadStep, h.count_eq, if_neg hnot,
      if_neg (Nat.not_lt.mpr hlen)]
    rw [int_eq (by omega) (by omega)]
    omega

theorem fill (h : Stands cb n) {data : List UInt8} {len : Nat} (hdata : data.length ≤ n.span)
    (hlen : len ≤ data.length) :
    ∃ n', Stands (cbufferWriteStep
        { cb with buff := memcpy cb.buff ((n.slot n.count : Nat) : Int) data } len) n' ∧
      n'.size = n.size ∧ n'.contents = n.contents ++ data.take len := by
  have hspan := h.valid.span_le
  have hsmall := h.small
  refine ⟨{ n with buff := put n.buff (n.slot n.count) data, count := n.count + len },
    ⟨h.memcpy_eq _ _, h.size_eq, h.rpos_eq, ?_, ⟨h.valid.rpos_lt, ?_⟩, hsmall⟩, rfl, ?_⟩
  · simp only [cbufferWriteStep, h.count_eq, h.size_eq]
    rw [int_eq (by omega) (by omega), if_neg (by omega)]
    rfl
  · dsimp only
    omega
  · have hput := Charpipe.CBuffer.contents_put data h.valid (by omega) (by omega)
    have htake := congrArg (List.take (n.count + len)) hput
    rw [List.take_append, Charpipe.CBuffer.length_contents, Nat.add_sub_cancel_left,
      List.take_of_length_le (l := n.contents) (by simp), Charpipe.CBuffer.contents,
      ← List.map_take, List.take_range, Nat.min_eq_left (Nat.add_le_add_left hlen n.count)] at htake
    exact htake

theorem avail_eq (n : Charpipe.CBuffer) (data : List UInt8) :
    (if (n.span : Int) > data.length then (data.length : Int) else n.span) =
      ((data.take n.span).length : Nat) := by
  rw [List.length_take]
  split <;> omega

theorem writeLoop (h : Stands cb n) (rounds : Nat) (data : List UInt8) :
    ∃ cb', Bounded.cbufferWriteLoop rounds cb data =
        some (cb', (Charpipe.cbufferWriteLoop rounds n data).2) ∧
      Stands cb' (Charpipe.cbufferWriteLoop rounds n data).1 := by
  induction rounds generalizing cb n data with
  | zero => exact ⟨cb, rfl, h⟩
  | succ rounds ih =>
    have hcount := h.valid.count_le
    have hspan := h.valid.span_le
    have hsmall := h.small
    have hfree : int (cb.size - cb.count) = (n.size - n.count : Nat) := by
      rw [h.size_eq, h.count_eq, int_eq (by omega) (by omega)]
      omega
    by_cases hstop : data = [] ∨ n.size - n.count = 0
    · have hstop' : data = [] ∨ int (cb.size - cb.count) = 0 := by
        rw [hfree]
        exact hstop.imp_right fun h => by omega
      refine ⟨cb, ?_, ?_⟩
      · simp only [Bounded.cbufferWriteLoop, Charpipe.cbufferWriteLoop, if_pos hstop, if_pos hstop']
      · simp only [Charpipe.cbufferWriteLoop, if_pos hstop]
        exact h
    · have hgo := not_or.mp hstop
      have hstop' : ¬(data = [] ∨ int (cb.size - cb.count) = 0) := by
        rw [hfree]
        exact not_or.mpr ⟨hgo.1, by omega⟩
      have hlen : (data.take n.span).length ≤ n.span := List.length_take_le _ _
      rw [Charpipe.CBuffer.writeLoop_succ hgo.1 (by omega)]
      simp only [Bounded.cbufferWriteLoop, if_neg hstop', h.wpos_eq, h.span_eq, avail_eq,
        Int.toNat_natCast, take_taken, drop_taken, if_neg (Int.not_lt.mpr (Int.natCast_nonneg _))]
      have hnext : Stands
          { cb with
            buff := memcpy cb.buff ((n.slot n.count : Nat) : Int) (data.take n.span)
            count := int (cb.count + ((data.take n.span).length : Nat)) }
          { n with
            buff := put n.buff (n.slot n.count) (data.take n.span)
            count := n.count + (data.take n.span).length } := by
        refine ⟨h.memcpy_eq _ _, h.size_eq, h.rpos_eq, ?_, ⟨h.valid.rpos_lt, ?_⟩, hsmall⟩
        · rw [h.count_eq, int_eq (by omega) (by omega)]
          rfl
        · dsimp only
          omega
      exact ih hnext (data.drop n.span)

theorem readLoop (h : Stands cb n) (rounds len : Nat) (hrounds : len ≤ rounds)
    (hlen : len < 2147483648) :
    ∃ cb' n', cbufferReadLoop rounds cb len =
        some (cb', n.contents.take len, ((len - n.count : Nat) : Int)) ∧
      Stands cb' n' ∧ n'.size = n.size ∧ n'.contents = n.contents.drop len := by
  induction rounds generalizing cb n len with
  | zero =>
    obtain rfl := Nat.le_zero.mp hrounds
    exact ⟨cb, n, by simp [cbufferReadLoop], h, rfl, rfl⟩
  | succ rounds ih =>
    have hrpos := h.valid.rpos_lt
    have hcount := h.valid.count_le
    have hsmall := h.small
    by_cases hstop : len = 0 ∨ n.count = 0
    · have hstop' : ¬(len : Int) > 0 ∨ cb.count = 0 := by
        rw [h.count_eq]
        omega
      refine ⟨cb, n, ?_, h, rfl, ?_⟩
      · have hnil : n.contents.take len = [] := by
          rw [List.take_eq_nil_iff, Charpipe.CBuffer.contents_eq_nil_iff]
          exact hstop
        have hleft : len - n.count = len := by omega
        simp only [cbufferReadLoop, if_pos hstop', hnil, hleft]
      · rcases hstop with rfl | hcount
        · rfl
        · rw [Charpipe.CBuffer.contents_eq_nil_iff.mpr hcount, List.drop_nil]
    · have hstop' : ¬(¬(len : Int) > 0 ∨ cb.count = 0) := by
        rw [h.count_eq]
        omega
      obtain ⟨k, hk⟩ : ∃ k, k = min (min n.count (n.size - n.rpos)) len := ⟨_, rfl⟩
      have hpeek : (if int (cb.rpos + cb.count) > cb.size then int (cb.size - cb.rpos)
          else cb.count) = (min n.count (n.size - n.rpos) : Nat) :=
        congrArg Prod.snd h.readPeek_eq
      have hclip : (if ((min n.count (n.size - n.rpos) : Nat) : Int) > len then (len : Int)
          else (min n.count (n.size - n.rpos) : Nat)) = (k : Int) := by
        split <;> omega
      have hstep := h.readStep (by omega : k ≤ n.count)
      obtain ⟨hvalid, hsize, hcontents⟩ := Charpipe.CBuffer.readStep_spec h.valid
        (by omega : k ≤ n.count)
      obtain ⟨cb', n', hloop, hstands, hsize', hcontents'⟩ := ih hstep (len - k) (by omega)
        (by omega)
      have hround : cbufferReadLoop (rounds + 1) cb len =
          (cbufferReadLoop rounds (Bounded.cbufferReadStep cb k) (len - k : Nat)).map
            fun (cb, more, len2) => (cb, n.contents.take k ++ more, len2) := by
        have hclamp : ¬(k : Int) > cb.count := by
          rw [h.count_eq]
          omega
        have hrest : int ((len : Int) - k) = ((len - k : Nat) : Int) := by
          rw [int_eq (by omega) (by omega)]
          omega
        simp only [cbufferReadLoop, if_neg hstop', hpeek, hclip, Bounded.cbufferReadStep,
          if_neg hclamp, if_neg (Int.not_lt.mpr (Int.natCast_nonneg k)), Int.toNat_natCast, hrest,
          h.load_eq (by omega : k ≤ min n.count (n.size - n.rpos))]
      refine ⟨cb', n', ?_, hstands, hsize'.trans hsize, ?_⟩
      · have hrest : (Charpipe.cbufferReadStep n k).count = n.count - k := by
          rw [← Charpipe.CBuffer.length_contents, hcontents, List.length_drop,
            Charpipe.CBuffer.length_contents]
        have hleft : len - k - (n.count - k) = len - n.count := by omega
        have htake : n.contents.take k ++ (n.contents.drop k).take (len - k) =
            n.contents.take len := by
          rw [← List.take_add, Nat.add_sub_cancel' (by omega)]
        rw [hround, hloop, hcontents, hrest, hleft, Option.map_some]
        dsimp only
        rw [htake]
      · rw [hcontents', hcontents, List.drop_drop, Nat.add_sub_cancel' (by omega)]

end Stands

def Holds (size : Nat) (s : CBuffer × List UInt8) : Prop :=
  ∃ n, Stands s.1 n ∧ n.size = size ∧ n.contents = s.2

variable {size : Nat} {cb : CBuffer} {q : List UInt8}

theorem Holds.write (h : Holds size (cb, q)) (data : List UInt8) :
    ∃ cb' n, cb.call (.write data) = some (cb', .wrote n) ∧
      Holds size (cb', q ++ data.take (size - q.length)) ∧
      n = (min data.length (size - q.length) : Nat) := by
  obtain ⟨n, (hn : Stands cb n), rfl, rfl⟩ := h
  obtain ⟨cb', hloop, hstands⟩ := hn.writeLoop data.length data
  obtain ⟨-, hsize, hcontents, hrest⟩ := Charpipe.CBuffer.writeLoop_spec hn.valid data.length data
    (Nat.le_refl _)
  rw [Charpipe.CBuffer.length_contents]
  refine ⟨cb', (data.length : Int) - (data.drop (n.size - n.count)).length, ?_,
    ⟨_, hstands, hsize, hcontents⟩, ?_⟩
  · simp only [CBuffer.call, cbufferWrite, hloop, hrest, Option.map_some]
  · rw [List.length_drop]
    omega

theorem Holds.read (h : Holds size (cb, q)) {len : Nat} (hlen : len < 2147483648) :
    ∃ cb' n, cb.call (.read len) = some (cb', .read (q.take len) n) ∧
      Holds size (cb', q.drop len) ∧ n = (q.take len).length := by
  obtain ⟨n, (hn : Stands cb n), rfl, rfl⟩ := h
  obtain ⟨cb', n', hloop, hstands, hsize, hcontents⟩ := hn.readLoop len len (Nat.le_refl _) hlen
  refine ⟨cb', (len : Int) - (len - n.count : Nat), ?_, ⟨n', hstands, hsize, hcontents⟩, ?_⟩
  · simp only [CBuffer.call, cbufferRead, hloop, Option.map_some]
  · rw [List.length_take, Charpipe.CBuffer.length_contents]
    omega

theorem Holds.fill (h : Holds size (cb, q)) {data : List UInt8} {len : Nat}
    (hfair : cb.Fair (.fill data len)) :
    ∃ cb' base avail, cb.call (.fill data len) = some (cb', .region base avail) ∧
      Holds size (cb', q ++ data.take len) ∧
        Answers size q (.fill data len) (.region base avail) := by
  obtain ⟨n, (hn : Stands cb n), rfl, rfl⟩ := h
  have hspan := hn.valid.span_le
  obtain ⟨hdata, hlen⟩ : (data.length : Int) ≤ (cbufferWritePeek cb).2 ∧ len ≤ data.length := hfair
  rw [hn.writePeek_eq] at hdata
  obtain ⟨n', hstands, hsize, hcontents⟩ := hn.fill (Int.ofNat_le.mp hdata) hlen
  refine ⟨cbufferWriteStep
      { cb with buff := memcpy cb.buff ((n.slot n.count : Nat) : Int) data } len,
    (n.slot n.count : Nat), (n.span : Nat), ?_, ⟨n', hstands, hsize, hcontents⟩, ?_⟩
  · simp only [CBuffer.call, hn.writePeek_eq]
  · rw [Answers, Charpipe.CBuffer.length_contents]
    omega

theorem Holds.peek (h : Holds size (cb, q)) (len : Nat) :
    ∃ cb' base avail bytes, cb.call (.peek len) = some (cb', .peeked base avail bytes) ∧
      Holds size (cb', q.drop len) ∧ Answers size q (.peek len) (.peeked base avail bytes) := by
  obtain ⟨n, (hn : Stands cb n), rfl, rfl⟩ := h
  have hrpos := hn.valid.rpos_lt
  have hload := hn.load_eq (Nat.le_refl _)
  rw [hn.rpos_eq] at hload
  obtain ⟨hvalid, hsize, hcontents⟩ := Charpipe.CBuffer.readStep_spec hn.valid
    (Nat.min_le_right len n.count)
  have hclamp : Bounded.cbufferReadStep cb len =
      Bounded.cbufferReadStep cb (min len n.count : Nat) := by
    have hlen : (if (len : Int) > n.count then (n.count : Int) else len) =
        (min len n.count : Nat) := by
      split <;> omega
    have hmin : ¬((min len n.count : Nat) : Int) > n.count := by omega
    simp only [Bounded.cbufferReadStep, hn.count_eq, hlen, if_neg hmin]
  refine ⟨Bounded.cbufferReadStep cb (min len n.count : Nat), n.rpos,
    (min n.count (n.size - n.rpos) : Nat), n.contents.take (min n.count (n.size - n.rpos)), ?_,
    ⟨_, hn.readStep (Nat.min_le_right len n.count), hsize, ?_⟩, ?_⟩
  · simp only [CBuffer.call, hn.readPeek_eq, Int.toNat_natCast, hload, hclamp]
  · rw [hcontents, List.drop_eq_drop_iff, Charpipe.CBuffer.length_contents]
    omega
  · rw [Answers, List.length_take, Charpipe.CBuffer.length_contents, ne_eq, ne_eq,
      List.take_eq_nil_iff, Charpipe.CBuffer.contents_eq_nil_iff]
    refine ⟨by omega, by omega, by omega, List.take_prefix _ _, by omega⟩

theorem Holds.call (h : Holds size (cb, q)) {c : Call} (hc : cb.Fair c) :
    ∃ cb' answer, cb.call c = some (cb', answer) ∧ Holds size (cb', queueCall size q c) ∧
      Answers size q c answer := by
  cases c with
  | write data =>
    obtain ⟨cb', n, hcall, hholds, hn⟩ := h.write data
    exact ⟨cb', _, hcall, hholds, hn⟩
  | read len =>
    obtain ⟨cb', n, hcall, hholds, hn⟩ := h.read hc
    exact ⟨cb', _, hcall, hholds, rfl, hn⟩
  | fill data len =>
    obtain ⟨cb', base, avail, hcall, hholds, hanswers⟩ := h.fill hc
    exact ⟨cb', _, hcall, hholds, hanswers⟩
  | peek len =>
    obtain ⟨cb', base, avail, bytes, hcall, hholds, hanswers⟩ := h.peek len
    exact ⟨cb', _, hcall, hholds, hanswers⟩

theorem Holds.inBounds (h : Holds size (cb, q)) : cb.InBounds size ∧ cb.count = q.length := by
  obtain ⟨n, (hn : Stands cb n), rfl, rfl⟩ := h
  exact ⟨hn.inBounds, by rw [hn.count_eq, Charpipe.CBuffer.length_contents]⟩

theorem step_of_call {cb' : CBuffer} {answer : Answer} {c : Call}
    (h : cb.call c = some (cb', answer)) : step size (cb, q) c = (cb', queueCall size q c) := by
  rw [step, h]
  rfl

theorem Holds.step {s : CBuffer × List UInt8} (h : Holds size s) {c : Call} (hc : s.1.Fair c) :
    Served size s c ∧ Holds size (Bounded.step size s c) := by
  obtain ⟨cb, answer, hcall, hholds, hanswers⟩ := Holds.call (q := s.2) h hc
  refine ⟨⟨cb, answer, hcall, hholds.inBounds.1, hholds.inBounds.2, hanswers⟩, ?_⟩
  rw [Bounded.step, hcall]
  exact hholds

theorem holds_reset (buff : Int → UInt8) (hpos : 0 < size) (hsmall : size ≤ 1073741824) :
    Holds size (cbufferReset buff size, []) :=
  ⟨Charpipe.cbufferReset (fun p => buff p) size,
    ⟨fun _ => rfl, rfl, rfl, rfl, Charpipe.CBuffer.valid_reset _ hpos, hsmall⟩, rfl,
    Charpipe.CBuffer.contents_reset _ _⟩

theorem refinesQueue_of_small (hpos : 0 < size) (hsmall : size ≤ 1073741824) :
    RefinesQueue size := by
  intro buff calls hfair
  have hall : Along (step size) (Served size) (cbufferReset buff size, []) calls ↔
      Along (step size) (fun _ _ => True) (cbufferReset buff size, []) calls :=
    Along.congr_of_invariant_of hfair (fun s c hs hc => iff_of_true (Holds.step hs hc).1 trivial)
      (fun s c hs hc _ => (Holds.step hs hc).2) (holds_reset buff hpos hsmall)
  exact hall.mpr fun _ _ _ => trivial

def toTheEnd (size : Nat) : List Call :=
  [.fill (List.replicate (size - 1) 0) (size - 1), .peek (size - 1), .fill [] 0]

section Large

variable (hlarge : 1073741824 < size) (hint : size < 2147483648)
include hlarge hint

theorem writePeek_reset (buff : Int → UInt8) :
    cbufferWritePeek ⟨buff, size, 0, 0⟩ = ((0 : Int), (size : Int)) := by
  have hsize : int size = size := int_eq (by omega) (by omega)
  have hzero : int 0 = 0 := rfl
  have hnot : ¬(0 : Int) ≥ size := by omega
  simp only [cbufferWritePeek, Int.add_zero, Int.sub_zero, Int.zero_add, hzero, hsize, if_neg hnot,
    Int.lt_irrefl, gt_iff_lt, if_false]

theorem fill_large (buff : Int → UInt8) (data : List UInt8) :
    (⟨buff, size, 0, 0⟩ : CBuffer).call (.fill data (size - 1)) =
      some (⟨memcpy buff 0 data, size, 0, (size - 1 : Nat)⟩, .region 0 size) := by
  have hlast : int (size - 1 : Nat) = (size - 1 : Nat) := int_eq (by omega) (by omega)
  simp only [CBuffer.call, writePeek_reset hlarge hint, cbufferWriteStep, Int.zero_add, hlast]
  rw [if_neg (by omega)]

theorem peek_large (buff : Int → UInt8) :
    (⟨buff, size, 0, (size - 1 : Nat)⟩ : CBuffer).call (.peek (size - 1)) =
      some (⟨buff, size, (size - 1 : Nat), 0⟩,
        .peeked 0 (size - 1 : Nat) (load buff 0 (size - 1))) := by
  have hlast : int (size - 1 : Nat) = (size - 1 : Nat) := int_eq (by omega) (by omega)
  have hzero : int 0 = 0 := rfl
  simp only [CBuffer.call, Bounded.cbufferReadPeek, Bounded.cbufferReadStep, Int.zero_add,
    Int.sub_self, hzero, hlast, ite_self, Int.lt_irrefl]
  rw [if_neg (by omega), if_neg (by omega)]
  rfl

theorem writePeek_large (buff : Int → UInt8) :
    cbufferWritePeek ⟨buff, size, (size - 1 : Nat), 0⟩ =
      (((size - 1 : Nat) : Int), (size : Int)) := by
  have hsize : int size = size := int_eq (by omega) (by omega)
  have hlast : int (size - 1 : Nat) = (size - 1 : Nat) := int_eq (by omega) (by omega)
  simp only [cbufferWritePeek, Int.add_zero, Int.sub_zero, hsize, hlast]
  rw [if_neg (by omega), int_of_over (by omega) (by omega), if_neg (by omega)]

theorem fair_toTheEnd (buff : Int → UInt8) :
    Along (step size) (fun s c => s.1.Fair c) (cbufferReset buff size, []) (toTheEnd size) := by
  rw [toTheEnd, cbufferReset, Along.cons_iff, Along.cons_iff, Along.cons_iff,
    step_of_call (fill_large hlarge hint buff _), step_of_call (peek_large hlarge hint _)]
  refine ⟨⟨?_, ?_⟩, ?_, ⟨?_, ?_⟩, .nil⟩
  · rw [writePeek_reset hlarge hint, List.length_replicate]
    exact Int.ofNat_le.mpr (Nat.sub_le size 1)
  · exact Nat.le_of_eq List.length_replicate.symm
  · exact Nat.lt_of_le_of_lt (Nat.sub_le size 1) hint
  · rw [writePeek_large hlarge hint]
    exact Int.natCast_nonneg size
  · exact Nat.le_refl 0

theorem not_served_toTheEnd (buff : Int → UInt8) :
    ¬Along (step size) (Served size) (cbufferReset buff size, []) (toTheEnd size) := by
  rw [toTheEnd, cbufferReset, Along.cons_iff, Along.cons_iff, Along.cons_iff,
    step_of_call (fill_large hlarge hint buff _), step_of_call (peek_large hlarge hint _)]
  rintro ⟨-, -, ⟨cb, answer, hcall, -, -, hanswers⟩, -⟩
  rw [CBuffer.call, writePeek_large hlarge hint] at hcall
  obtain rfl := (Prod.mk.inj (Option.some.inj hcall)).2
  have hinside := hanswers.2.2.1
  omega

end Large

theorem refinesQueue_iff (hpos : 0 < size) (hint : size < 2147483648) :
    RefinesQueue size ↔ size ≤ 1073741824 := by
  refine ⟨fun h => ?_, refinesQueue_of_small hpos⟩
  by_contra hlarge
  rw [Nat.not_le] at hlarge
  exact not_served_toTheEnd hlarge hint (fun _ => 0)
    (h _ _ (fair_toTheEnd hlarge hint (fun _ => 0)))

theorem refinesQueue_page : RefinesQueue 4096 :=
  (refinesQueue_iff (by decide) (by decide)).mpr (by decide)

theorem not_refinesQueue_large : ¬RefinesQueue 1073741825 := by
  intro h
  exact not_served_toTheEnd (by decide) (by decide) (fun _ => 0)
    (h _ _ (fair_toTheEnd (by decide) (by decide) (fun _ => 0)))

end M2M.Charpipe.Bounded
