import Mathlib.Data.List.Basic
import Mathlib.Tactic.Ring

namespace M2M.Lib.Bytes

def toLE : Nat → Nat → List UInt8
  | 0, _ => []
  | k + 1, n => UInt8.ofNat n :: toLE k (n / 256)

def ofLE : List UInt8 → Nat
  | [] => 0
  | b :: bs => b.toNat + 256 * ofLE bs

@[simp] theorem length_toLE (k n : Nat) : (toLE k n).length = k := by
  induction k generalizing n with
  | zero => rfl
  | succ k ih => simp [toLE, ih]

@[simp] theorem ofLE_toLE (k n : Nat) : ofLE (toLE k n) = n % 256 ^ k := by
  induction k generalizing n with
  | zero => simp [toLE, ofLE, Nat.mod_one]
  | succ k ih =>
    simp only [toLE, ofLE, ih]
    rw [pow_succ, Nat.mul_comm (256 ^ k) 256, Nat.mod_mul]
    simp

/-- Reads a `k`-byte word and leaves the bytes after it. -/
def readLE (k : Nat) (bs : List UInt8) : Nat × List UInt8 :=
  (ofLE (bs.take k), bs.drop k)

@[simp] theorem readLE_toLE (k n : Nat) (rest : List UInt8) :
    readLE k (toLE k n ++ rest) = (n % 256 ^ k, rest) := by
  simp [readLE]

theorem pow_eq (k : Nat) : 256 ^ k = 2 ^ (8 * k) := (pow_mul 2 8 k).symm

def toBE (k n : Nat) : List UInt8 := (toLE k n).reverse

def ofBE (bs : List UInt8) : Nat := ofLE bs.reverse

@[simp] theorem length_toBE (k n : Nat) : (toBE k n).length = k := by simp [toBE]

@[simp] theorem ofBE_toBE (k n : Nat) : ofBE (toBE k n) = n % 256 ^ k := by simp [ofBE, toBE]

theorem toBE_succ (k n : Nat) : toBE (k + 1) n = UInt8.ofNat (n / 256 ^ k) :: toBE k n := by
  induction k generalizing n with
  | zero => simp [toBE, toLE]
  | succ k ih =>
    have hback : toBE (k + 2) n = toBE (k + 1) (n / 256) ++ [.ofNat n] := by
      rw [toBE, toLE, List.reverse_cons]
      rfl
    have hback' : toBE (k + 1) n = toBE k (n / 256) ++ [.ofNat n] := by
      rw [toBE, toLE, List.reverse_cons]
      rfl
    rw [hback, ih, hback', List.cons_append, Nat.div_div_eq_div_mul, pow_succ, Nat.mul_comm]

theorem toLE_mul_add (k a n : Nat) : toLE k (256 ^ k * a + n) = toLE k n := by
  induction k generalizing n with
  | zero => rfl
  | succ k ih =>
    have hpow : 256 ^ (k + 1) * a + n = 256 * (256 ^ k * a) + n := by
      rw [pow_succ, Nat.mul_comm (256 ^ k) 256, Nat.mul_assoc]
    have hbyte : UInt8.ofNat (256 * (256 ^ k * a) + n) = .ofNat n := by
      rw [← UInt8.toNat_inj, UInt8.toNat_ofNat', UInt8.toNat_ofNat']
      omega
    rw [toLE, toLE, hpow, Nat.mul_add_div (by decide), ih, hbyte]

theorem toBE_mul_add (k a n : Nat) : toBE k (256 ^ k * a + n) = toBE k n := by
  rw [toBE, toLE_mul_add, toBE]

/-- `memcpy` of `src` to the start of the buffer `dst`. -/
def overwrite (dst src : List UInt8) : List UInt8 := src ++ dst.drop src.length

@[simp] theorem take_overwrite (dst src : List UInt8) :
    (overwrite dst src).take src.length = src := by
  simp [overwrite]

end M2M.Lib.Bytes
