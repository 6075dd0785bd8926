import M2M.Lib.Cutting
import M2M.Telephony.Gsm

/-! What the loops of `gsm.c` compute on the UTF-8 encoding of a text. -/

open M2M.Lib.Cutting

namespace M2M.Telephony.Gsm

/-- The UTF-8 bytes of a text. -/
def encode (text : List Char) : List UInt8 := text.flatMap String.utf8EncodeChar

@[simp] theorem encode_nil : encode [] = [] := rfl

@[simp] theorem encode_cons (c : Char) (text : List Char) :
    encode (c :: text) = String.utf8EncodeChar c ++ encode text := rfl

@[simp] theorem encode_append (s t : List Char) : encode (s ++ t) = encode s ++ encode t :=
  List.flatMap_append

theorem encode_flatten (runs : List (List Char)) :
    encode runs.flatten = (runs.map encode).flatten := by
  induction runs with
  | nil => rfl
  | cons run runs ih => rw [List.flatten_cons, encode_append, ih, List.map_cons, List.flatten_cons]

theorem length_le_length_encode (text : List Char) : text.length ≤ (encode text).length := by
  induction text with
  | nil => exact Nat.le_refl 0
  | cons c text ih =>
    have := List.length_pos_iff.mpr (String.utf8EncodeChar_ne_nil (c := c))
    rw [encode_cons, List.length_append, List.length_cons]
    omega

section Bytes

theorem continuation : ∀ x < 64, UInt8.ofNat (x + 0x80) &&& 0xc0 = 0x80 ∧
    (UInt8.ofNat (x + 0x80) &&& 0x3f).toNat = x := by
  decide

theorem lead_one : ∀ x < 128, (UInt8.ofNat x).toNat = x ∧ UInt8.ofNat x &&& 0xc0 ≠ 0x80 := by
  decide

theorem lead_two : ∀ x < 32, 128 ≤ (UInt8.ofNat (x + 0xc0)).toNat ∧
    UInt8.ofNat (x + 0xc0) &&& 0xc0 ≠ 0x80 ∧ UInt8.ofNat (x + 0xc0) &&& 0xe0 = 0xc0 ∧
    (UInt8.ofNat (x + 0xc0) &&& 0x1f).toNat = x := by
  decide

theorem lead_three : ∀ x < 16, 128 ≤ (UInt8.ofNat (x + 0xe0)).toNat ∧
    UInt8.ofNat (x + 0xe0) &&& 0xc0 ≠ 0x80 ∧ UInt8.ofNat (x + 0xe0) &&& 0xe0 ≠ 0xc0 ∧
    UInt8.ofNat (x + 0xe0) &&& 0xf0 = 0xe0 ∧ (UInt8.ofNat (x + 0xe0) &&& 0x0f).toNat = x := by
  decide

theorem lead_four : ∀ x < 8, 128 ≤ (UInt8.ofNat (x + 0xf0)).toNat ∧
    UInt8.ofNat (x + 0xf0) &&& 0xc0 ≠ 0x80 ∧ UInt8.ofNat (x + 0xf0) &&& 0xe0 ≠ 0xc0 ∧
    UInt8.ofNat (x + 0xf0) &&& 0xf0 ≠ 0xe0 ∧ (UInt8.ofNat (x + 0xf0) &&& 0x07).toNat = x := by
  decide

theorem head_utf8EncodeChar (c : Char) :
    ∃ b bs, String.utf8EncodeChar c = b :: bs ∧ b &&& 0xc0 ≠ 0x80 := by
  fun_cases String.utf8EncodeChar c with
  | case1 v h => exact ⟨_, _, rfl, (lead_one _ (by omega)).2⟩
  | case2 v _ h => exact ⟨_, _, rfl, (lead_two _ (by omega)).2.1⟩
  | case3 v _ _ h => exact ⟨_, _, rfl, (lead_three _ (by omega)).2.1⟩
  | case4 v => exact ⟨_, _, rfl, (lead_four _ (by omega)).2.1⟩

theorem utf8Tail_encode (c : Nat) (text : List Char) :
    utf8Tail c (encode text) = (c, encode text) := by
  cases text with
  | nil => rfl
  | cons d text =>
    obtain ⟨b, bs, hd, hb⟩ := head_utf8EncodeChar d
    rw [encode_cons, hd, List.cons_append, utf8Tail, if_neg hb]

theorem utf8Tail_continuation (c : Nat) {x : Nat} (hx : x < 64) (p : List UInt8) :
    utf8Tail c (UInt8.ofNat (x + 0x80) :: p) = utf8Tail (c * 64 + x) p := by
  obtain ⟨hb, hval⟩ := continuation x hx
  rw [utf8Tail, if_pos hb, hval, ← Nat.shiftLeft_add_eq_or_of_lt hx, Nat.shiftLeft_eq]

end Bytes

theorem utf8Next_encode (c : Char) (text : List Char) :
    utf8Next (encode (c :: text)) = some (c.toNat, encode text) := by
  have hmod : ∀ n, n % 64 < 64 := fun n => Nat.mod_lt n (by decide)
  rw [encode_cons]
  change _ = some (c.val.toNat, _)
  fun_cases String.utf8EncodeChar c with
  | case1 v h =>
    have hb := (lead_one v (by omega)).1
    rw [List.singleton_append, utf8Next, hb, if_neg (by omega)]
  | case2 v _ h =>
    obtain ⟨hb, -, htwo, hval⟩ := lead_two (v / 64 % 32) (by omega)
    rw [List.cons_append, utf8Next, if_pos hb, if_pos htwo, hval, List.singleton_append,
      utf8Tail_continuation _ (hmod _), utf8Tail_encode]
    congr 2
    omega
  | case3 v _ _ h =>
    obtain ⟨hb, -, htwo, hthree, hval⟩ := lead_three (v / 4096 % 16) (by omega)
    rw [List.cons_append, utf8Next, if_pos hb, if_neg htwo, if_pos hthree, hval, List.cons_append,
      utf8Tail_continuation _ (hmod _), List.singleton_append, utf8Tail_continuation _ (hmod _),
      utf8Tail_encode]
    congr 2
    omega
  | case4 v =>
    have hmax : v < 0x110000 := by
      rcases c.valid with h | ⟨-, h⟩
      · exact Nat.lt_trans h (by decide)
      · exact h
    obtain ⟨hb, -, htwo, hthree, hval⟩ := lead_four (v / 262144 % 8) (by omega)
    rw [List.cons_append, utf8Next, if_pos hb, if_neg htwo, if_neg hthree, hval, List.cons_append,
      utf8Tail_continuation _ (hmod _), List.cons_append, utf8Tail_continuation _ (hmod _),
      List.singleton_append, utf8Tail_continuation _ (hmod _), utf8Tail_encode]
    congr 2
    omega

theorem utf8CodesFrom_encode {fuel : Nat} {text : List Char} (h : text.length ≤ fuel) :
    utf8CodesFrom fuel (encode text) = text.map Char.toNat := by
  induction text generalizing fuel with
  | nil => cases fuel <;> rfl
  | cons c text ih =>
    obtain ⟨fuel, rfl⟩ : ∃ f, fuel = f + 1 := ⟨fuel - 1, by rw [List.length_cons] at h; omega⟩
    rw [utf8CodesFrom, utf8Next_encode]
    simp only [List.map_cons]
    rw [ih (by simpa using h)]

@[simp] theorem utf8Codes_encode (text : List Char) :
    utf8Codes (encode text) = text.map Char.toNat :=
  utf8CodesFrom_encode (length_le_length_encode text)

theorem encode_injective : Function.Injective encode := by
  intro s t h
  have hcodes := congrArg utf8Codes h
  rw [utf8Codes_encode, utf8Codes_encode] at hcodes
  exact List.map_injective_iff.mpr (fun _ _ => Char.toNat_inj.mp) hcodes

theorem septets_pos (c : Nat) : 0 < septets c := by
  rw [septets]
  split
  · exact Nat.one_pos
  · next h => exact Nat.pos_of_ne_zero h

def charSeptets (c : Char) : Nat := septets c.toNat

theorem charSeptets_pos (c : Char) : 0 < charSeptets c := septets_pos _

theorem skipGsm7From_encode {fuel n : Nat} (h : n ≤ fuel) (text : List Char) :
    skipGsm7From fuel (encode text) n = encode (dropWithin charSeptets n text) := by
  induction fuel generalizing n text with
  | zero =>
    cases text with
    | nil => rfl
    | cons c text =>
      have := charSeptets_pos c
      rw [skipGsm7From, dropWithin, if_neg (by omega)]
  | succ fuel ih =>
    rw [skipGsm7From]
    cases text with
    | nil => split <;> rfl
    | cons c text =>
      have hpos := charSeptets_pos c
      rw [utf8Next_encode, dropWithin]
      simp only [← charSeptets.eq_def]
      by_cases hfit : charSeptets c ≤ n
      · rw [if_neg (by omega), if_neg (by omega), if_pos hfit, ih (by omega)]
      · rw [if_neg hfit, if_pos (by omega : n < charSeptets c)]
        split <;> rfl

theorem utf8SkipGsm7_encode (n : Nat) (text : List Char) :
    utf8SkipGsm7 (encode text) n = encode (dropWithin charSeptets n text) :=
  skipGsm7From_encode (Nat.le_refl n) text

theorem utf8ToGsm7Count_encode (text : List Char) :
    utf8ToGsm7Count (encode text) = weight charSeptets text := by
  rw [utf8ToGsm7Count, utf8Codes_encode, List.map_map]
  rfl

theorem utf8ToUcs2Count_encode (text : List Char) :
    utf8ToUcs2Count (encode text) = text.length := by
  rw [utf8ToUcs2Count_eq, utf8Codes_encode, List.length_map]

def InAlphabet (text : List Char) : Prop := ∀ c ∈ text, unicharToGsm7Count c.toNat ≠ 0

instance (text : List Char) : Decidable (InAlphabet text) :=
  inferInstanceAs (Decidable (∀ c ∈ text, _))

theorem utf8CheckGsm7_encode (text : List Char) :
    utf8CheckGsm7 (encode text) = true ↔ InAlphabet text := by
  rw [utf8CheckGsm7, utf8Codes_encode, List.all_eq_true, InAlphabet, List.forall_mem_map]
  simp

end M2M.Telephony.Gsm
