import M2M.Lib.Bits
import M2M.Telephony.Gsm
import Mathlib.Data.List.Induction

/-! Septets packed into bytes by `gsm.c`, and read back. -/

open M2M.Lib.Bits

namespace M2M.Telephony.Gsm

namespace BWriter

/-- The bits written, those that wait in `pad` among them. -/
def bitAt (writer : BWriter) (j : Nat) : Bool :=
  if j / 8 < writer.dst then bit writer.buf j else writer.pad.testBit (j - 8 * writer.dst)

/-- Between two septets. -/
structure Steady (writer : BWriter) : Prop where
  offset : writer.offset = 8 * writer.dst + writer.bits
  bits : writer.bits < 8
  pad : writer.pad < 2 ^ writer.bits

variable {writer : BWriter}

theorem bitAt_of_lt {j : Nat} (h : j / 8 < writer.dst) : writer.bitAt j = bit writer.buf j :=
  if_pos h

theorem bitAt_of_le {j : Nat} (h : writer.dst ≤ j / 8) :
    writer.bitAt j = writer.pad.testBit (j - 8 * writer.dst) :=
  if_neg (Nat.not_lt.mpr h)

theorem bitAt_put (bits j : Nat) :
    bitAt { writer.put with bits := bits, pad := writer.pad >>> 8 } j = writer.bitAt j := by
  rcases Nat.lt_trichotomy (j / 8) writer.dst with hlt | heq | hgt
  · rw [bitAt_of_lt hlt]
    refine (bitAt_of_lt (Nat.lt_succ_of_lt hlt)).trans ?_
    exact congrArg (fun b : UInt8 => b.toNat.testBit (j % 8))
      (Function.update_of_ne (Nat.ne_of_lt hlt) ..)
  · rw [bitAt_of_le (Nat.le_of_eq heq.symm)]
    refine (bitAt_of_lt (Nat.lt_succ_of_le (Nat.le_of_eq heq))).trans ?_
    change (Function.update writer.buf writer.dst (UInt8.ofNat writer.pad)
      (j / 8)).toNat.testBit _ = _
    rw [heq, Function.update_self, testBit_ofNat (Nat.mod_lt _ (by decide))]
    congr 1
    omega
  · rw [bitAt_of_le (Nat.le_of_lt hgt)]
    refine (bitAt_of_le hgt).trans ?_
    change (writer.pad >>> 8).testBit (j - 8 * (writer.dst + 1)) = _
    rw [Nat.testBit_shiftRight]
    congr 1
    omega

theorem buf_put {p : Nat} (hp : p ≠ writer.dst) : writer.put.buf p = writer.buf p :=
  Function.update_of_ne hp ..

structure Adds (writer added : BWriter) (value : Nat) : Prop where
  steady : added.Steady
  offset : added.offset = writer.offset + 7
  before : ∀ j < writer.offset, added.bitAt j = writer.bitAt j
  septet : ∀ k < 7, added.bitAt (writer.offset + k) = value.testBit k
  buf : ∀ p, p ≠ writer.dst → added.buf p = writer.buf p

theorem adds_add7 (h : writer.Steady) {value : Nat} (hvalue : value < 128) :
    Adds writer (writer.add7 value) value := by
  obtain ⟨hoffset, hbits, hpad⟩ := h
  let added : BWriter :=
    { writer with
      pad := writer.pad ||| value <<< writer.bits
      bits := writer.bits + 7
      offset := writer.offset + 7 }
  have hlt : added.pad < 2 ^ (writer.bits + 7) := or_shiftLeft_lt hpad hvalue
  have haddedBit : ∀ j, writer.dst ≤ j / 8 → added.bitAt j =
      if j - 8 * writer.dst < writer.bits then writer.pad.testBit (j - 8 * writer.dst)
      else value.testBit (j - 8 * writer.dst - writer.bits) :=
    fun j hle => (if_neg (Nat.not_lt.mpr hle)).trans (testBit_or_shiftLeft hpad)
  have hbefore : ∀ j < writer.offset, added.bitAt j = writer.bitAt j := by
    intro j hj
    by_cases hlt : j / 8 < writer.dst
    · rw [bitAt_of_lt hlt]
      exact bitAt_of_lt hlt
    · have hle : writer.dst ≤ j / 8 := Nat.not_lt.mp hlt
      rw [bitAt_of_le hle, haddedBit j hle, if_pos (by omega)]
  have hseptet : ∀ k < 7, added.bitAt (writer.offset + k) = value.testBit k := by
    intro k hk
    have hle : writer.dst ≤ (writer.offset + k) / 8 := by omega
    rw [haddedBit _ hle, if_neg (by omega)]
    congr 1
    omega
  by_cases hput : writer.bits + 7 ≥ 8
  · have hadd7 :
      writer.add7 value = { added.put with bits := added.bits - 8, pad := added.pad >>> 8 } :=
      if_pos hput
    rw [hadd7]
    refine ⟨⟨?_, ?_, ?_⟩, rfl, fun j hj => ?_, fun k hk => ?_, fun p hp => buf_put hp⟩
    · simp only [put, added]
      omega
    · simp only [added]
      omega
    · simp only [added]
      rw [Nat.shiftRight_eq_div_pow, Nat.div_lt_iff_lt_mul (by decide), ← Nat.pow_add]
      refine Nat.lt_of_lt_of_eq hlt ?_
      congr 1
      omega
    · rw [bitAt_put, hbefore j hj]
    · rw [bitAt_put, hseptet k hk]
  · have hadd7 : writer.add7 value = added := if_neg hput
    rw [hadd7]
    refine ⟨⟨?_, ?_, hlt⟩, rfl, hbefore, hseptet, fun _ _ => rfl⟩
    · simp only [added]
      omega
    · simp only [added]
      omega

theorem steady_bwriterInit (buf : Nat → UInt8) (start : Nat) :
    (bwriterInit buf start).Steady where
  offset := by
    simp only [bwriterInit, Nat.shiftRight_eq_div_pow]
    omega
  bits := Nat.mod_lt _ (by decide)
  pad := by
    simp only [bwriterInit]
    split
    · exact Nat.mod_lt _ (Nat.two_pow_pos _)
    · exact Nat.two_pow_pos _

/-- What a run of `bwriter_add7` has put between `start` and the bits it has reached. -/
structure Packed (start : Nat) (vs : List Nat) (writer added : BWriter) : Prop where
  steady : added.Steady
  offset : added.offset = start + 7 * vs.length
  before : ∀ j < start, added.bitAt j = writer.bitAt j
  septets : ∀ (i v : Nat), vs[i]? = some v → ∀ k < 7, added.bitAt (start + 7 * i + k) = v.testBit k
  buf : ∀ p, start + 7 * vs.length ≤ 8 * p → added.buf p = writer.buf p

theorem packed_foldl {vs : List Nat} (hvs : ∀ v ∈ vs, v < 128) (h : writer.Steady) :
    Packed writer.offset vs writer (vs.foldl add7 writer) := by
  induction vs using List.reverseRecOn with
  | nil => exact ⟨h, rfl, fun _ _ => rfl, by simp, fun _ _ => rfl⟩
  | append_singleton vs v ih =>
    have ih := ih fun w hw => hvs w (List.mem_append_left _ hw)
    have hadds := adds_add7 ih.steady (hvs v (by simp))
    rw [List.foldl_append, List.foldl_cons, List.foldl_nil]
    refine ⟨hadds.steady, ?_, fun j hj => ?_, fun i w hw k hk => ?_, fun p hp => ?_⟩
    · rw [hadds.offset, ih.offset, List.length_append, List.length_singleton, Nat.mul_add,
        Nat.add_assoc]
    · rw [hadds.before j (by rw [ih.offset]; omega), ih.before j hj]
    · by_cases hi : i < vs.length
      · rw [List.getElem?_append_left hi] at hw
        rw [hadds.before _ (by rw [ih.offset]; omega), ih.septets i w hw k hk]
      · obtain ⟨rfl, rfl⟩ : i = vs.length ∧ w = v := by
          rw [List.getElem?_append_right (Nat.not_lt.mp hi)] at hw
          obtain ⟨hsub, rfl⟩ := List.getElem?_eq_some_iff.mp hw
          rw [List.length_singleton] at hsub
          exact ⟨by omega, List.getElem_singleton ..⟩
        rw [← ih.offset, hadds.septet k hk]
    · rw [List.length_append, List.length_singleton] at hp
      have hsteady := ih.steady.offset
      have hbits := ih.steady.bits
      rw [ih.offset] at hsteady
      rw [hadds.buf p (by omega), ih.buf p (by omega)]

theorem bit_done (h : writer.Steady) {j : Nat} (hj : j < writer.offset) :
    bit writer.done.buf j = writer.bitAt j := by
  have hoffset := h.offset
  have hbits := h.bits
  rw [done]
  split
  · next hpos =>
    rw [← bitAt_put 0 j]
    exact (if_pos (by omega : j / 8 < writer.dst + 1)).symm
  · exact (bitAt_of_lt (by omega)).symm

@[simp] theorem offset_done : writer.done.offset = writer.offset := by
  rw [done]
  split <;> rfl

end BWriter

section Reader

variable {m : Type → Type} [Monad m] [LawfulMonad m] {peek : Nat → m UInt8} {mem : Nat → UInt8}

theorem septetAt_eq {src shift v : Nat} (hshift : shift < 8) (hv : v < 128)
    (hpeek : ∀ i, 8 * i < 8 * src + shift + 7 → src ≤ i → peek i = pure (mem i))
    (hbits : ∀ k < 7, bit mem (8 * src + shift + k) = v.testBit k) :
    septetAt peek src shift = pure v := by
  have hfirst := hpeek src (by omega) (Nat.le_refl _)
  rw [septetAt, hfirst, pure_bind]
  by_cases htwo : shift > 1
  · rw [if_pos htwo, hpeek (src + 1) (by omega) (by omega), pure_bind]
    refine congrArg pure (eq_of_bits (w := 7) ?_ hv fun k hk => ?_)
    · exact Nat.lt_of_le_of_lt Nat.and_le_right (by decide)
    · rw [← hbits k hk, show (0x7f : Nat) = 2 ^ 7 - 1 by rfl, Nat.and_two_pow_sub_one_eq_mod,
        Nat.and_two_pow_sub_one_eq_mod, Nat.testBit_mod_two_pow, Nat.testBit_or,
        Nat.testBit_mod_two_pow, Nat.testBit_shiftLeft, Nat.testBit_shiftRight, bit,
        decide_eq_true hk, Bool.true_and, Bool.true_and]
      by_cases hin : shift + k < 8
      · rw [show (8 * src + shift + k) / 8 = src by omega,
          show (8 * src + shift + k) % 8 = shift + k by omega,
          decide_eq_false (by omega : ¬k ≥ 8 - shift), Bool.false_and, Bool.false_or]
      · have hbyte : (mem src).toNat < 2 ^ (shift + k) :=
          Nat.lt_of_lt_of_le (UInt8.toNat_lt _)
            (Nat.pow_le_pow_right (by decide) (by omega : 8 ≤ _))
        rw [show (8 * src + shift + k) / 8 = src + 1 by omega,
          show (8 * src + shift + k) % 8 = k - (8 - shift) by omega,
          decide_eq_true (by omega : k ≥ 8 - shift), Bool.true_and, Nat.testBit_lt_two_pow hbyte,
          Bool.or_false]
  · rw [if_neg htwo]
    refine congrArg pure (eq_of_bits (w := 7) ?_ hv fun k hk => ?_)
    · exact Nat.lt_of_le_of_lt Nat.and_le_right (by decide)
    · rw [← hbits k hk, show (0x7f : Nat) = 2 ^ 7 - 1 by rfl, Nat.and_two_pow_sub_one_eq_mod,
        Nat.testBit_mod_two_pow, Nat.testBit_shiftRight, bit, decide_eq_true hk, Bool.true_and,
        show (8 * src + shift + k) / 8 = src by omega,
        show (8 * src + shift + k) % 8 = shift + k by omega]

/-- What `utf8_from_gsm7` makes of septets. -/
def unpack : List Nat → Bool → List UInt8
  | [], _ => []
  | c :: vs, true => utf8Write (gsm7bitsExtendToUnicode.getD c 0) ++ unpack vs true
  | c :: vs, false =>
    if c = gsm7bitsEscape then unpack vs true
    else utf8Write (gsm7bitsToUnicode.getD c 0) ++ unpack vs false

theorem next_septet (src : Nat) {shift : Nat} (hshift : shift < 8) :
    ∃ src' shift', (if shift + 7 ≥ 8 then src + 1 else src) = src' ∧
      (if shift + 7 ≥ 8 then shift + 7 - 8 else shift + 7) = shift' ∧
      src ≤ src' ∧ shift' < 8 ∧ 8 * src' + shift' = 8 * src + shift + 7 := by
  refine ⟨_, _, rfl, rfl, ?_⟩
  split <;> omega

/-- The septets that the loop of `utf8_from_gsm7` extracts, one in each round. -/
def readSeptets (peek : Nat → m UInt8) : Nat → Nat → Nat → m (List Nat)
  | 0, _, _ => return []
  | septetCount + 1, src, shift => do
    let c ← septetAt peek src shift
    return c :: (← readSeptets peek septetCount (if shift + 7 ≥ 8 then src + 1 else src)
      (if shift + 7 ≥ 8 then shift + 7 - 8 else shift + 7))

theorem fromGsm7_eq_readSeptets (n src shift : Nat) (escaped : Bool) :
    fromGsm7 peek n src shift escaped =
      (unpack · escaped) <$> readSeptets peek n src shift := by
  induction n generalizing src shift escaped with
  | zero =>
    rw [fromGsm7, readSeptets, map_pure]
    cases escaped <;> rfl
  | succ n ih =>
    simp only [fromGsm7, readSeptets, map_bind, map_pure]
    refine bind_congr fun c => ?_
    cases escaped with
    | true => simp only [if_true, ih, bind_map_left, unpack]
    | false =>
      simp only [Bool.false_eq_true, if_false, unpack]
      split
      · rw [ih, map_eq_pure_bind]
      · simp only [ih, bind_map_left]

theorem readSeptets_eq {vs : List Nat} (hvs : ∀ v ∈ vs, v < 128) {src shift : Nat}
    (hshift : shift < 8)
    (hpeek : ∀ i, 8 * i < 8 * src + shift + 7 * vs.length → src ≤ i → peek i = pure (mem i))
    (hfields : Fields mem 7 (8 * src + shift) vs) :
    readSeptets peek vs.length src shift = pure vs := by
  induction vs generalizing src shift with
  | nil => rfl
  | cons v vs ih =>
    obtain ⟨hhead, htail⟩ := Fields.cons_iff.mp hfields
    rw [List.length_cons, Nat.mul_add] at hpeek
    have hseptet := septetAt_eq hshift (hvs v (by simp))
      (fun i hi hle => hpeek i (by omega) hle) hhead
    obtain ⟨src', shift', hsrc', hshift', hle, hlt, hnext⟩ := next_septet src hshift
    have hpeek' : ∀ i, 8 * i < 8 * src' + shift' + 7 * vs.length → src' ≤ i →
        peek i = pure (mem i) := fun i hi hi' => hpeek i (by omega) (by omega)
    have hrest := ih (fun w hw => hvs w (List.mem_cons_of_mem _ hw)) hlt hpeek'
      (by rw [hnext]; exact htail)
    rw [List.length_cons, readSeptets, hseptet, pure_bind, hsrc', hshift', hrest, pure_bind]

theorem fromGsm7_eq {vs : List Nat} (hvs : ∀ v ∈ vs, v < 128) {src shift : Nat} (hshift : shift < 8)
    (hpeek : ∀ i, 8 * i < 8 * src + shift + 7 * vs.length → src ≤ i → peek i = pure (mem i))
    (hfields : Fields mem 7 (8 * src + shift) vs) (escaped : Bool) :
    fromGsm7 peek vs.length src shift escaped = pure (unpack vs escaped) := by
  rw [fromGsm7_eq_readSeptets, readSeptets_eq hvs hshift hpeek hfields, map_pure]

end Reader

section Stream

/-- The bytes that `n` septets from bit `start` on end in are all in front of this one. -/
def septetsEnd (start n : Nat) : Nat := (start + 7 * n + 7) / 8

/-- What the writer makes of a buffer that it packs `vs` into from bit `start` on, and what is
extracted from that by a reader who has no byte behind them. -/
structure PacksSeptets (buf : Nat → UInt8) (start : Nat) (vs : List Nat) (writer : BWriter) :
    Prop where
  before : ∀ j < start, bit writer.buf j = bit buf j
  septets : Fields writer.buf 7 start vs
  dst : writer.dst = septetsEnd start vs.length
  behind : ∀ p, septetsEnd start vs.length ≤ p → writer.buf p = buf p
  read : readSeptets (fun i => if i < septetsEnd start vs.length then some (writer.buf i) else none)
    vs.length (start >>> 3) (start % 8) = some vs

namespace BWriter

variable {writer : BWriter}

theorem dst_done (h : writer.Steady) : writer.done.dst = (writer.offset + 7) / 8 := by
  have hoffset := h.offset
  have hbits := h.bits
  rw [done]
  split
  · change writer.dst + 1 = _
    omega
  · omega

theorem buf_done {p : Nat} (h : writer.Steady) (hp : (writer.offset + 7) / 8 ≤ p) :
    writer.done.buf p = writer.buf p := by
  have hoffset := h.offset
  rw [done]
  split
  · exact buf_put (by omega)
  · rfl

theorem bitAt_bwriterInit (buf : Nat → UInt8) {start j : Nat} (hj : j < start) :
    (bwriterInit buf start).bitAt j = bit buf j := by
  have hdst : (bwriterInit buf start).dst = start / 8 := Nat.shiftRight_eq_div_pow start 3
  by_cases hlt : j / 8 < start / 8
  · exact bitAt_of_lt (hdst.symm ▸ hlt)
  · have hbits : 0 < start % 8 := by omega
    have hsame : j / 8 = start / 8 := by omega
    rw [bitAt_of_le (by omega), hdst, bit, hsame]
    change (if start % 8 > 0 then (buf (start >>> 3)).toNat % 2 ^ (start % 8) else 0).testBit _ = _
    rw [if_pos hbits, Nat.shiftRight_eq_div_pow, Nat.testBit_mod_two_pow,
      decide_eq_true (by omega : j - 8 * (start / 8) < start % 8), Bool.true_and]
    congr 1
    omega

end BWriter

/-- Septets are packed in order from any bit on, and read back without a look behind them. -/
theorem septets_packed (buf : Nat → UInt8) (start : Nat) (septets : List (Fin 128)) :
    PacksSeptets buf start (septets.map Fin.val)
      ((septets.map Fin.val).foldl BWriter.add7 (bwriterInit buf start)).done := by
  have hvs : ∀ v ∈ septets.map Fin.val, v < 128 := by
    rw [List.forall_mem_map]
    exact fun v _ => v.isLt
  generalize septets.map Fin.val = vs at hvs
  have hpacked := BWriter.packed_foldl hvs (BWriter.steady_bwriterInit buf start)
  change BWriter.Packed start vs _ _ at hpacked
  have hoffset := hpacked.offset
  have hfields : Fields (vs.foldl BWriter.add7 (bwriterInit buf start)).done.buf 7 start vs := by
    intro i v hv k hk
    have hlt := (List.getElem?_eq_some_iff.mp hv).1
    rw [BWriter.bit_done hpacked.steady (by omega)]
    exact hpacked.septets i v hv k hk
  constructor
  case before =>
    intro j hj
    rw [BWriter.bit_done hpacked.steady (by omega), hpacked.before j hj]
    exact BWriter.bitAt_bwriterInit buf hj
  case septets => exact hfields
  case dst => rw [BWriter.dst_done hpacked.steady, hoffset, septetsEnd]
  case behind =>
    intro p hp
    rw [septetsEnd] at hp
    rw [BWriter.buf_done hpacked.steady (by omega), hpacked.buf p (by omega)]
    rfl
  case read =>
    have hstart : 8 * (start >>> 3) + start % 8 = start := by
      rw [Nat.shiftRight_eq_div_pow]
      omega
    refine readSeptets_eq hvs (Nat.mod_lt _ (by decide)) (fun i hi _ => if_pos ?_) ?_
    · rw [septetsEnd]
      omega
    · rwa [hstart]

end Stream

end M2M.Telephony.Gsm
