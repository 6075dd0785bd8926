import Mathlib

/-! `gsm.c`: dial numbers with a digit in each half byte. -/

namespace M2M.Telephony.Gsm

def bcdDigits : List UInt8 :=
  [0x30, 0x31, 0x32, 0x33, 0x34, 0x35, 0x36, 0x37, 0x38, 0x39, 0x2a, 0x23, 0x2c, 0x4e]

section ToAscii

variable (bcd : Nat → UInt8) (count : Int)

/-- The loop of `gsm_bcdnum_to_ascii`, from the half byte at `shift` of `bcd[i]` on: what is in `dst`
when it returns, or `none` while it still runs.  Nothing in the loop changes `count`. -/
def bcdnumToAsciiLoop : Nat → Nat → Nat → List UInt8 → Option (List UInt8)
  | 0, _, _, _ => none
  | fuel + 1, i, shift, dst =>
    if 0 < count then
      let c := (bcd i).toNat >>> shift &&& 0xf
      if c = 15 ∧ count = 1 then some dst
      else
        let c := if 14 ≤ c then 0 else c
        let dst := dst ++ [bcdDigits.getD c 0]
        if shift + 4 = 8 then bcdnumToAsciiLoop fuel (i + 1) 0 dst
        else bcdnumToAsciiLoop fuel i (shift + 4) dst
    else some dst

/-- `gsm_bcdnum_to_ascii`, which returns the number of characters that it has stored. -/
def bcdnumToAscii (fuel : Nat) : Option (List UInt8) := bcdnumToAsciiLoop bcd count fuel 0 0 []

theorem bcdnumToAsciiLoop_of_two_le (hcount : 2 ≤ count) (fuel i shift : Nat) (dst : List UInt8) :
    bcdnumToAsciiLoop bcd count fuel i shift dst = none := by
  induction fuel generalizing i shift dst with
  | zero => rfl
  | succ fuel ih =>
    have hone : ¬((bcd i).toNat >>> shift &&& 0xf = 15 ∧ count = 1) := by omega
    rw [bcdnumToAsciiLoop, if_pos (by omega), if_neg hone]
    dsimp only
    split
    · exact ih _ _ _
    · exact ih _ _ _

theorem bcdnumToAscii_of_nonpos (hcount : count ≤ 0) (fuel : Nat) :
    bcdnumToAscii bcd count (fuel + 1) = some [] := by
  rw [bcdnumToAscii, bcdnumToAsciiLoop, if_neg (by omega)]

end ToAscii

section FromAscii

def bcdValue (c : UInt8) : Option Nat :=
  if c = 0x2a then some 10
  else if c = 0x23 then some 11
  else if c = 0x2c then some 12
  else if c = 0x4e then some 13
  else if 10 ≤ c - 0x30 then none
  else some (c - 0x30).toNat

/-- What `gsm_bcdnum_from_ascii` returns, and its stores to a `dst` that is not null: where in `dst`
and which byte, the first store first. -/
structure BcdOut where
  result : Int
  stores : List (Nat × UInt8)
  deriving DecidableEq

/-- `dst` after the stores. -/
def BcdOut.memory (out : BcdOut) (dst : Nat → UInt8) : Nat → UInt8 :=
  out.stores.foldl (fun dst store => Function.update dst store.1 store.2) dst

def bcdnumFromAsciiLoop : List UInt8 → Nat → Nat → List (Nat × UInt8) → BcdOut
  | [], result, phase, stores =>
    if result % 2 = 1 then
      { result, stores := stores ++ [(result / 2, UInt8.ofNat (phase ||| 0xf0))] }
    else { result, stores }
  | c :: ascii, result, phase, stores =>
    match bcdValue c with
    | none => { result := -1, stores }
    | some c =>
      let phase := phase <<< 4 ||| c
      let result := result + 1
      if phase &&& 0x100 ≠ 0 then
        bcdnumFromAsciiLoop ascii result 0x01 (stores ++ [(result / 2, UInt8.ofNat phase)])
      else bcdnumFromAsciiLoop ascii result phase stores

/-- `gsm_bcdnum_from_ascii`. -/
def bcdnumFromAscii (ascii : List UInt8) : BcdOut := bcdnumFromAsciiLoop ascii 0 0x01 []

theorem mem_bcdDigits_iff (c : UInt8) :
    c ∈ bcdDigits ↔ c = 0x2a ∨ c = 0x23 ∨ c = 0x2c ∨ c = 0x4e ∨ c - 0x30 < 10 := by
  have hlt := c.toNat_lt
  simp only [bcdDigits, List.mem_cons, List.not_mem_nil, ← UInt8.toNat_inj,
    UInt8.lt_iff_toNat_lt, UInt8.toNat_sub, UInt8.reduceToNat, or_false]
  omega

theorem bcdValue_eq_none_iff (c : UInt8) : bcdValue c = none ↔ c ∉ bcdDigits := by
  rw [mem_bcdDigits_iff, bcdValue]
  grind

theorem result_bcdnumFromAsciiLoop (ascii : List UInt8) (result phase : Nat)
    (stores : List (Nat × UInt8)) :
    (bcdnumFromAsciiLoop ascii result phase stores).result =
      if ∀ c ∈ ascii, c ∈ bcdDigits then ((result + ascii.length : Nat) : Int) else -1 := by
  induction ascii generalizing result phase stores with
  | nil =>
    rw [bcdnumFromAsciiLoop, if_pos fun _ h => nomatch h]
    split <;> rfl
  | cons c ascii ih =>
    rw [bcdnumFromAsciiLoop]
    cases hvalue : bcdValue c with
    | none =>
      have hc : ¬∀ b ∈ c :: ascii, b ∈ bcdDigits := fun h =>
        (bcdValue_eq_none_iff c).mp hvalue (h c List.mem_cons_self)
      rw [if_neg hc]
    | some value =>
      have hmem : c ∈ bcdDigits := by
        by_contra hc
        rw [(bcdValue_eq_none_iff c).mpr hc] at hvalue
        cases hvalue
      have hall : (∀ b ∈ c :: ascii, b ∈ bcdDigits) ↔ ∀ b ∈ ascii, b ∈ bcdDigits := by
        rw [List.forall_mem_cons]
        exact and_iff_right hmem
      have hlength : result + 1 + ascii.length = result + (c :: ascii).length := by
        rw [List.length_cons]
        omega
      simp only [hall, ← hlength]
      split
      · exact ih _ _ _
      · exact ih _ _ _

theorem result_bcdnumFromAscii (ascii : List UInt8) :
    (bcdnumFromAscii ascii).result =
      if ∀ c ∈ ascii, c ∈ bcdDigits then (ascii.length : Int) else -1 := by
  rw [bcdnumFromAscii, result_bcdnumFromAsciiLoop, Nat.zero_add]

end FromAscii

section RoundTrip

/-- The number is packed into the first bytes of `dst`, and read back from there, whatever was and
is behind it. -/
structure DialRoundTrip (ascii : List UInt8) (dst : Nat → UInt8) : Prop where
  stored : ∀ i, (∃ byte, (i, byte) ∈ (bcdnumFromAscii ascii).stores) ↔ i < (ascii.length + 1) / 2
  result : (bcdnumFromAscii ascii).result = ascii.length
  read : ∃ fuel,
    bcdnumToAscii ((bcdnumFromAscii ascii).memory dst) ascii.length fuel = some ascii
  read_odd : ascii.length % 2 = 1 → ∃ fuel,
    bcdnumToAscii ((bcdnumFromAscii ascii).memory dst) (ascii.length + 1) fuel = some ascii

/-- A number of digits comes back, and a string with another character is refused. -/
def DialNumberKept (ascii : List UInt8) : Prop :=
  ((∀ c ∈ ascii, c ∈ bcdDigits) → ∀ dst, DialRoundTrip ascii dst) ∧
    ((∃ c ∈ ascii, c ∉ bcdDigits) → (bcdnumFromAscii ascii).result = -1)

theorem dialRoundTrip_nil (dst : Nat → UInt8) : DialRoundTrip [] dst where
  stored i := ⟨fun ⟨_, h⟩ => (List.not_mem_nil h).elim, fun h => absurd h (Nat.not_lt_zero i)⟩
  result := rfl
  read := ⟨1, bcdnumToAscii_of_nonpos _ _ le_rfl 0⟩
  read_odd h := absurd h (by decide)

theorem not_dialRoundTrip {ascii : List UInt8} (hascii : ascii ≠ []) (dst : Nat → UInt8) :
    ¬DialRoundTrip ascii dst := by
  intro h
  have hpos : 0 < ascii.length := List.length_pos_iff.mpr hascii
  have hnone : ∀ {count : Int} {fuel : Nat}, 2 ≤ count →
      bcdnumToAscii ((bcdnumFromAscii ascii).memory dst) count fuel ≠ some ascii := by
    intro count fuel hcount hsome
    rw [bcdnumToAscii, bcdnumToAsciiLoop_of_two_le _ _ hcount] at hsome
    cases hsome
  by_cases hone : ascii.length = 1
  · obtain ⟨fuel, hread⟩ := h.read_odd (by omega)
    exact hnone (by omega) hread
  · obtain ⟨fuel, hread⟩ := h.read
    exact hnone (by omega) hread

/-- Dial numbers are kept exactly when there is no digit to keep. -/
theorem dialNumberKept_iff (ascii : List UInt8) :
    DialNumberKept ascii ↔ ascii = [] ∨ ∃ c ∈ ascii, c ∉ bcdDigits := by
  constructor
  · intro h
    by_contra hno
    push Not at hno
    exact not_dialRoundTrip hno.1 (fun _ => 0) (h.1 hno.2 _)
  · rintro (rfl | ⟨c, hmem, hc⟩)
    · exact ⟨fun _ => dialRoundTrip_nil, fun ⟨_, h, _⟩ => nomatch h⟩
    · have hno : ¬∀ c ∈ ascii, c ∈ bcdDigits := fun h => hc (h c hmem)
      refine ⟨fun h => absurd h hno, fun _ => ?_⟩
      rw [result_bcdnumFromAscii, if_neg hno]

/-- The number 12: its byte goes to `dst[1]`, and reading two digits never ends. -/
theorem not_dialNumberKept_twelve : ¬DialNumberKept [0x31, 0x32] := by
  intro h
  have hdigits : ∀ c ∈ [0x31, 0x32], c ∈ bcdDigits := by simp [bcdDigits]
  obtain ⟨byte, hbyte⟩ := ((h.1 hdigits fun _ => 0).stored 0).mpr (by decide)
  have hstores : (bcdnumFromAscii [0x31, 0x32]).stores = [(1, 0x12)] := rfl
  rw [hstores, List.mem_singleton, Prod.mk.injEq] at hbyte
  exact absurd hbyte.1 (by decide)

end RoundTrip

end M2M.Telephony.Gsm
