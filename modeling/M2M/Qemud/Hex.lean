import Mathlib.Data.Nat.Bitwise
import Mathlib.Tactic.Ring

/-! Hexadecimal characters: `utils/misc.c`. -/

namespace M2M.Qemud

/-- The bytes of a C string literal. -/
def ascii (s : String) : List UInt8 := s.toList.map fun c => UInt8.ofNat c.toNat

/-- `hexdigit`, where -1 is `none`. -/
def hexdigit (c : UInt8) : Option Nat :=
  if c - 0x30 < 10 then some (c - 0x30).toNat
  else if c - 0x61 < 6 then some ((c - 0x61).toNat + 10)
  else if c - 0x41 < 6 then some ((c - 0x41).toNat + 10)
  else none

/-- The loop of `hex2int`. -/
def hex2intFrom : Nat → List UInt8 → Int
  | result, [] => result
  | result, c :: hex =>
    match hexdigit c with
    | none => -1
    | some d => hex2intFrom (result <<< 4 ||| d) hex

/-- `hex2int` on all of its characters. -/
def hex2int (hex : List UInt8) : Int := hex2intFrom 0 hex

def hexchars : List UInt8 :=
  [0x30, 0x31, 0x32, 0x33, 0x34, 0x35, 0x36, 0x37, 0x38, 0x39, 0x61, 0x62, 0x63, 0x64, 0x65, 0x66]

/-- `int2hex`, with the characters that it writes. -/
def int2hex : Nat → Nat → List UInt8
  | 0, _ => []
  | len + 1, val => hexchars.getD (val >>> (len * 4) &&& 15) 0 :: int2hex len val

@[simp] theorem length_int2hex (len val : Nat) : (int2hex len val).length = len := by
  induction len with
  | zero => rfl
  | succ len ih => rw [int2hex, List.length_cons, ih]

theorem hexdigit_hexchars (n : Fin 16) : hexdigit (hexchars.getD n 0) = some n.val := by
  revert n
  decide

theorem nibble_eq (val len : Nat) : val >>> (len * 4) &&& 15 = val / 16 ^ len % 16 := by
  rw [show 15 = 2 ^ 4 - 1 from rfl, Nat.and_two_pow_sub_one_eq_mod, Nat.shiftRight_eq_div_pow,
    Nat.mul_comm, Nat.pow_mul]

theorem hex2intFrom_int2hex (result len val : Nat) :
    hex2intFrom result (int2hex len val) = ((result * 16 ^ len + val % 16 ^ len : Nat) : Int) := by
  induction len generalizing result with
  | zero => simp [int2hex, hex2intFrom, Nat.mod_one]
  | succ len ih =>
    have hlt : val / 16 ^ len % 16 < 16 := Nat.mod_lt _ (by decide)
    have hor : result <<< 4 ||| val / 16 ^ len % 16 = result * 16 + val / 16 ^ len % 16 := by
      rw [Nat.shiftLeft_eq, Nat.mul_comm, ← Nat.two_pow_add_eq_or_of_lt hlt]
    have hmod : val % 16 ^ (len + 1) = 16 ^ len * (val / 16 ^ len % 16) + val % 16 ^ len := by
      rw [Nat.pow_succ, Nat.mod_mul, Nat.add_comm]
    rw [int2hex, nibble_eq, hex2intFrom, hexdigit_hexchars ⟨_, hlt⟩]
    dsimp only
    rw [hor, ih, hmod]
    congr 1
    ring

theorem hex2int_int2hex {len val : Nat} (h : val < 16 ^ len) : hex2int (int2hex len val) = val := by
  rw [hex2int, hex2intFrom_int2hex, Nat.mod_eq_of_lt h, Nat.zero_mul, Nat.zero_add]

theorem hexdigit_lt {c : UInt8} {d : Nat} (h : hexdigit c = some d) : d < 16 := by
  rw [hexdigit] at h
  split at h
  · next hlt =>
    cases h
    exact Nat.lt_trans (UInt8.lt_iff_toNat_lt.mp hlt) (by decide)
  · split at h
    · next hlt =>
      cases h
      exact Nat.add_lt_add_right (UInt8.lt_iff_toNat_lt.mp hlt) 10
    · split at h
      · next hlt =>
        cases h
        exact Nat.add_lt_add_right (UInt8.lt_iff_toNat_lt.mp hlt) 10
      · cases h

theorem hex2intFrom_lt (result : Nat) (hex : List UInt8) :
    hex2intFrom result hex < ((result + 1) * 16 ^ hex.length : Nat) := by
  induction hex generalizing result with
  | nil =>
    rw [hex2intFrom, List.length_nil, Nat.pow_zero, Nat.mul_one]
    exact Int.ofNat_lt.mpr (Nat.lt_succ_self _)
  | cons c hex ih =>
    rw [hex2intFrom]
    cases hd : hexdigit c with
    | none => exact Int.lt_of_lt_of_le (Int.negSucc_lt_zero 0) (Int.natCast_nonneg _)
    | some d =>
      have hlt := hexdigit_lt hd
      have hor : result <<< 4 ||| d = result * 16 + d := by
        rw [Nat.shiftLeft_eq, Nat.mul_comm, ← Nat.two_pow_add_eq_or_of_lt hlt]
      refine Int.lt_of_lt_of_le (ih _) (Int.ofNat_le.mpr ?_)
      rw [hor, List.length_cons, Nat.pow_succ', ← Nat.mul_assoc]
      exact Nat.mul_le_mul_right _ (by omega)

theorem hex2int_lt (hex : List UInt8) : hex2int hex < (16 ^ hex.length : Nat) := by
  have h := hex2intFrom_lt 0 hex
  rwa [Nat.zero_add, Nat.one_mul] at h

end M2M.Qemud
