import Mathlib

/-! The bits of a memory of bytes, least significant bit first, and what masks show of a word. -/

namespace M2M.Lib.Bits

/-- Bit `j` of a memory. -/
def bit (mem : Nat → UInt8) (j : Nat) : Bool := (mem (j / 8)).toNat.testBit (j % 8)

/-- The memory has the values `vs`, each in `w` bits, from bit `start` on. -/
def Fields (mem : Nat → UInt8) (w start : Nat) (vs : List Nat) : Prop :=
  ∀ (i v : Nat), vs[i]? = some v → ∀ k < w, bit mem (start + w * i + k) = v.testBit k

theorem Fields.cons_iff {mem : Nat → UInt8} {w start v : Nat} {vs : List Nat} :
    Fields mem w start (v :: vs) ↔
      (∀ k < w, bit mem (start + k) = v.testBit k) ∧ Fields mem w (start + w) vs := by
  constructor
  · intro h
    refine ⟨fun k hk => ?_, fun i v hv k hk => ?_⟩
    · simpa using h 0 v rfl k hk
    · have := h (i + 1) v (by simpa using hv) k hk
      rwa [Nat.mul_add, Nat.mul_one, Nat.add_comm (w * i), ← Nat.add_assoc] at this
  · rintro ⟨hhead, htail⟩ i v hv k hk
    cases i with
    | zero =>
      rw [Nat.mul_zero, Nat.add_zero, hhead k hk, ← Option.some.inj hv]
    | succ i =>
      rw [Nat.mul_add, Nat.mul_one, Nat.add_comm (w * i), ← Nat.add_assoc]
      exact htail i v (by simpa using hv) k hk

theorem testBit_or_shiftLeft {a b n k : Nat} (ha : a < 2 ^ n) :
    (a ||| b <<< n).testBit k = if k < n then a.testBit k else b.testBit (k - n) := by
  rw [Nat.testBit_or, Nat.testBit_shiftLeft]
  split
  · next hk => simp [Nat.not_le.mpr hk]
  · next hk =>
    have hle := Nat.not_lt.mp hk
    have hpow := Nat.lt_of_lt_of_le ha (Nat.pow_le_pow_right (by decide) hle)
    simp [Nat.testBit_lt_two_pow hpow, hle]

theorem or_shiftLeft_lt {a b n m : Nat} (ha : a < 2 ^ n) (hb : b < 2 ^ m) :
    a ||| b <<< n < 2 ^ (n + m) := by
  refine Nat.or_lt_two_pow (Nat.lt_of_lt_of_le ha (Nat.pow_le_pow_right (by decide) (by omega))) ?_
  rw [Nat.shiftLeft_eq, Nat.mul_comm, Nat.pow_add]
  exact Nat.mul_lt_mul_of_pos_left hb (Nat.two_pow_pos n)

theorem testBit_ofNat {n k : Nat} (hk : k < 8) : (UInt8.ofNat n).toNat.testBit k = n.testBit k := by
  rw [UInt8.toNat_ofNat', Nat.testBit_mod_two_pow]
  simp [hk]

theorem eq_of_bits {a b w : Nat} (ha : a < 2 ^ w) (hb : b < 2 ^ w)
    (h : ∀ k < w, a.testBit k = b.testBit k) : a = b := by
  refine Nat.eq_of_testBit_eq fun k => ?_
  by_cases hk : k < w
  · exact h k hk
  · have hpow := Nat.pow_le_pow_right (n := 2) (by decide) (Nat.not_lt.mp hk)
    rw [Nat.testBit_lt_two_pow (Nat.lt_of_lt_of_le ha hpow),
      Nat.testBit_lt_two_pow (Nat.lt_of_lt_of_le hb hpow)]

/-- The values that a memory has from bit `start` on, each in `w` bits. -/
def valuesAt (mem : Nat → UInt8) (w start n : Nat) : List Nat :=
  (List.range n).map fun i => Nat.ofBits fun k : Fin w => bit mem (start + w * i + k)

@[simp] theorem length_valuesAt (mem : Nat → UInt8) (w start n : Nat) :
    (valuesAt mem w start n).length = n := by
  rw [valuesAt, List.length_map, List.length_range]

theorem valuesAt_lt {mem : Nat → UInt8} {w start n : Nat} :
    ∀ v ∈ valuesAt mem w start n, v < 2 ^ w := by
  rw [valuesAt, List.forall_mem_map]
  exact fun _ _ => Nat.ofBits_lt_two_pow _

theorem fields_valuesAt (mem : Nat → UInt8) (w start n : Nat) :
    Fields mem w start (valuesAt mem w start n) := by
  intro i v hv k hk
  obtain ⟨hi, rfl⟩ := List.getElem?_eq_some_iff.mp hv
  rw [length_valuesAt] at hi
  simp only [valuesAt, List.getElem_map, List.getElem_range]
  rw [Nat.testBit_ofBits_lt _ k hk]

end M2M.Lib.Bits

namespace M2M.Lib.Masks

variable {w : Nat} {x m n c d : BitVec w}

theorem and_of_and (h : x &&& m = c) (hn : m &&& n = n) : x &&& n = c &&& n := by
  rw [← h, BitVec.and_assoc, hn]

theorem overlap (h : x &&& m = c) (h' : x &&& n = d) : c &&& n = d &&& m := by
  rw [← h, ← h', BitVec.and_assoc, BitVec.and_assoc, BitVec.and_comm m]

theorem and_or (h : x &&& m = c) (h' : x &&& n = d) : x &&& (m ||| n) = c ||| d := by
  rw [BitVec.and_or_distrib_left, h, h']

theorem getLsbD_of_and (h : x &&& m = c) {k : Nat} (hm : m.getLsbD k = true) :
    x.getLsbD k = c.getLsbD k := by
  rw [← h, BitVec.getLsbD_and, hm, Bool.and_true]

theorem and_of_getLsbD {k : Nat} (h : x.getLsbD k = true) :
    x &&& BitVec.twoPow w k = BitVec.twoPow w k := by
  rw [BitVec.and_twoPow, if_pos h]

theorem and_twoPow_cases (x : BitVec w) (k : Nat) :
    x &&& BitVec.twoPow w k = BitVec.twoPow w k ∨ x &&& BitVec.twoPow w k = 0#w := by
  rw [BitVec.and_twoPow]
  by_cases h : x.getLsbD k
  · exact .inl (if_pos h)
  · exact .inr (if_neg h)

theorem shiftRight_and_eq_iff {k : Nat} (hm : m <<< k >>> k = m) (hc : c <<< k >>> k = c) :
    x >>> k &&& m = c ↔ x &&& m <<< k = c <<< k := by
  constructor
  · intro h
    rw [← h]
    apply BitVec.eq_of_getLsbD_eq
    intro i hi
    by_cases hk : i < k
    · simp [hk]
    · simp [hk, hi, show k + (i - k) = i by omega]
  · intro h
    rw [← hm, ← BitVec.ushiftRight_and_distrib, h, hc]

theorem ushiftRight_and_allOnes (x : BitVec w) (k : Nat) :
    x >>> k &&& BitVec.allOnes w >>> k = x >>> k := by
  rw [← BitVec.ushiftRight_and_distrib, BitVec.and_allOnes]

end M2M.Lib.Masks
