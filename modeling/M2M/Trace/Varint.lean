import M2M.Lib.Bytes
import M2M.Lib.PrefixCode
import Mathlib

/-! The variable-length integers of the trace files: `varint.c`. -/

namespace M2M.Trace.Varint

open M2M.Lib

section Encoders

def varintEncode (value : UInt64) : List UInt8 :=
  let byte (shift : UInt64) := (value >>> shift &&& 0xff).toUInt8
  if value < 128 then [value.toUInt8]
  else if value < 16384 then [((2 : UInt64) <<< 6 ||| value >>> 8).toUInt8, byte 0]
  else if value < 2097152 then [((6 : UInt64) <<< 5 ||| value >>> 16).toUInt8, byte 8, byte 0]
  else if value < 268435456 then
    [((0xe : UInt64) <<< 4 ||| value >>> 24).toUInt8, byte 16, byte 8, byte 0]
  else if value < 34359738368 then
    [((0x1e : UInt64) <<< 3 ||| value >>> 32).toUInt8, byte 24, byte 16, byte 8, byte 0]
  else if value < 4398046511104 then
    [((0x3e : UInt64) <<< 2 ||| value >>> 40).toUInt8, byte 32, byte 24, byte 16, byte 8, byte 0]
  else
    [((0x7e : UInt64) <<< 1).toUInt8, byte 56, byte 48, byte 40, byte 32, byte 24, byte 16, byte 8,
      byte 0]

/-- A `char` that an `int64_t` is stored into. -/
def toChar (value : Int64) : UInt8 := value.toUInt64.toUInt8

def varintEncodeSigned (value : Int64) : List UInt8 :=
  let byte (shift : Int64) := toChar (value >>> shift &&& 0xff)
  if value < 64 ∧ value ≥ -64 then [toChar (value &&& 0x7f)]
  else if value < 8192 ∧ value ≥ -8192 then
    [toChar ((2 : Int64) <<< 6 ||| (value >>> 8 &&& 0x3f)), byte 0]
  else if value < 1048576 ∧ value ≥ -1048576 then
    [toChar ((6 : Int64) <<< 5 ||| (value >>> 16 &&& 0x1f)), byte 8, byte 0]
  else if value < 134217728 ∧ value ≥ -134217728 then
    [toChar ((0xe : Int64) <<< 4 ||| (value >>> 24 &&& 0xf)), byte 16, byte 8, byte 0]
  else [toChar ((0x1e : Int64) <<< 3), byte 24, byte 16, byte 8, byte 0]

end Encoders

section Table

/-- A row of the table: the value of the prefix, the bytes of the word and its data bits. -/
structure Row where
  code : Nat
  bytes : Nat
  dataBits : Nat
  deriving DecidableEq

def table : List Row :=
  [⟨0, 1, 7⟩, ⟨0b10, 2, 14⟩, ⟨0b110, 3, 21⟩, ⟨0b1110, 4, 28⟩, ⟨0b11110, 5, 35⟩, ⟨0b111110, 6, 42⟩,
    ⟨0b11111100, 9, 64⟩]

namespace Row

/-- The prefix and the data bits behind it. -/
def word (r : Row) (data : Nat) : List UInt8 :=
  Bytes.toBE r.bytes (r.code * 2 ^ r.dataBits + data)

def prefixBits (r : Row) : Nat := 8 * r.bytes - r.dataBits

def Announced (r : Row) (b : UInt8) : Prop := b.toNat / 2 ^ (8 - r.prefixBits) = r.code

instance (r : Row) (b : UInt8) : Decidable (r.Announced b) := inferInstanceAs (Decidable (_ = _))

end Row

/-- The row whose prefix the first byte of a word has. -/
def announced (b : UInt8) : Option Row := table.find? fun r => r.Announced b

/-- The row and the data bits of the word in front. -/
def readWord : List UInt8 → Option ((Row × Nat) × List UInt8)
  | [] => none
  | b :: bs =>
    (announced b).bind fun r =>
      if r.bytes ≤ bs.length + 1 then
        some ((r, Bytes.ofBE ((b :: bs).take r.bytes) % 2 ^ r.dataBits), (b :: bs).drop r.bytes)
      else none

/-- The first bytes that begin with the prefixes of two rows are apart. -/
theorem codes_apart : ∀ r ∈ table, ∀ r' ∈ table, r = r' ∨
    (r.code + 1) * 2 ^ (8 - r.prefixBits) ≤ r'.code * 2 ^ (8 - r'.prefixBits) ∨
      (r'.code + 1) * 2 ^ (8 - r'.prefixBits) ≤ r.code * 2 ^ (8 - r.prefixBits) := by
  decide

theorem Row.Announced.bounds {r : Row} {b : UInt8} (h : r.Announced b) :
    r.code * 2 ^ (8 - r.prefixBits) ≤ b.toNat ∧
      b.toNat < (r.code + 1) * 2 ^ (8 - r.prefixBits) := by
  have hpos : 0 < 2 ^ (8 - r.prefixBits) := Nat.two_pow_pos _
  rw [← (h : b.toNat / _ = _)]
  refine ⟨Nat.div_mul_le_self _ _, ?_⟩
  rw [Nat.mul_comm]
  exact Nat.lt_mul_div_succ _ hpos

theorem Row.Announced.unique {r r' : Row} {b : UInt8} (h : r.Announced b) (h' : r'.Announced b)
    (hr : r ∈ table) (hr' : r' ∈ table) : r = r' := by
  have hbounds := h.bounds
  have hbounds' := h'.bounds
  rcases codes_apart r hr r' hr' with heq | hlt | hgt
  · exact heq
  · omega
  · omega

theorem announced_eq {r : Row} (hr : r ∈ table) {b : UInt8} (hb : r.Announced b) :
    announced b = some r := by
  cases hfind : announced b with
  | none => exact absurd (decide_eq_true hb) (List.find?_eq_none.mp hfind r hr)
  | some r' =>
    have hr' := List.mem_of_find?_eq_some hfind
    have hb' : decide (r'.Announced b) = true :=
      List.find?_some (p := fun r : Row => decide (r.Announced b)) hfind
    rw [hb.unique (of_decide_eq_true hb') hr hr']

theorem row_bits : ∀ r ∈ table, r.dataBits = 8 * (r.bytes - 1) + (8 - r.prefixBits) ∧
    0 < r.bytes ∧ r.code * 2 ^ r.dataBits + 2 ^ r.dataBits ≤ 256 ^ r.bytes := by
  decide +kernel

theorem announced_word {r : Row} (hr : r ∈ table) {data : Nat} (hdata : data < 2 ^ r.dataBits) :
    ∃ b bs, r.word data = b :: bs ∧ announced b = some r := by
  obtain ⟨hbits, hpos, hfits⟩ := row_bits r hr
  obtain ⟨k, hk⟩ := Nat.exists_eq_succ_of_ne_zero hpos.ne'
  have hsub : r.bytes - 1 = k := by omega
  refine ⟨_, _, by rw [Row.word, hk, Bytes.toBE_succ], announced_eq hr ?_⟩
  have hlt : (r.code * 2 ^ r.dataBits + data) / 256 ^ k < 256 := by
    refine Nat.div_lt_of_lt_mul ?_
    have hpow : 256 ^ k * 256 = 256 ^ r.bytes := by rw [hk, pow_succ]
    omega
  rw [Row.Announced, UInt8.toNat_ofNat', Nat.mod_eq_of_lt hlt, Nat.div_div_eq_div_mul,
    Bytes.pow_eq, ← pow_add, ← hsub, ← hbits,
    Nat.mul_comm, Nat.mul_add_div (Nat.two_pow_pos _), Nat.div_eq_of_lt hdata, Nat.add_zero]

theorem length_word (r : Row) (data : Nat) : (r.word data).length = r.bytes :=
  Bytes.length_toBE _ _

theorem readWord_word {r : Row} (hr : r ∈ table) {data : Nat} (hdata : data < 2 ^ r.dataBits)
    (rest : List UInt8) : readWord (r.word data ++ rest) = some ((r, data), rest) := by
  obtain ⟨hbits, hpos, hfits⟩ := row_bits r hr
  obtain ⟨b, bs, hword, hannounced⟩ := announced_word hr hdata
  have hlength := length_word r data
  have htake : (r.word data ++ rest).take r.bytes = r.word data := List.take_left' hlength
  have hdrop : (r.word data ++ rest).drop r.bytes = rest := List.drop_left' hlength
  have hvalue : Bytes.ofBE (r.word data) % 2 ^ r.dataBits = data := by
    rw [Row.word, Bytes.ofBE_toBE, Nat.mod_eq_of_lt (by omega : _ < 256 ^ r.bytes),
      Nat.mul_add_mod', Nat.mod_eq_of_lt hdata]
  have hle : r.bytes ≤ (bs ++ rest).length + 1 := by
    rw [hword, List.length_cons] at hlength
    rw [List.length_append]
    omega
  rw [hword, List.cons_append] at htake hdrop ⊢
  rw [readWord, hannounced, Option.bind_some, if_pos hle, htake, hdrop, ← hword, hvalue]

/-- The first row that holds so many bits. -/
def rowFor (bits : Nat) : Option Row := table.find? fun r => bits ≤ r.dataBits

theorem rowFor_eq : ∀ bits ≤ 64, ∀ r ∈ table, bits ≤ r.dataBits →
    (∀ r' ∈ table, r'.dataBits < r.dataBits → r'.dataBits < bits) → rowFor bits = some r := by
  decide +kernel

theorem rowFor_size {r : Row} (hr : r ∈ table) {n : Nat} (hn : n < 2 ^ r.dataBits)
    (hshort : ∀ r' ∈ table, r'.dataBits < r.dataBits → 2 ^ r'.dataBits ≤ n) :
    rowFor n.size = some r := by
  have hle := Nat.size_le.mpr hn
  have hbits : ∀ r ∈ table, r.dataBits ≤ 64 := by decide
  refine rowFor_eq n.size (hle.trans (hbits r hr)) r hr hle fun r' hr' hlt => ?_
  exact Nat.lt_size.mpr (hshort r' hr' hlt)

theorem word_eq {r : Row} (hr : r ∈ table) {k : Nat} (hk : r.bytes = k + 1) (data : Nat) :
    r.word data =
      .ofNat (r.code * 2 ^ (8 - r.prefixBits) + data / 256 ^ k) :: Bytes.toBE k data := by
  obtain ⟨hbits, -, -⟩ := row_bits r hr
  have hsub : r.bytes - 1 = k := by omega
  have hpow : r.code * 2 ^ r.dataBits = 256 ^ k * (r.code * 2 ^ (8 - r.prefixBits)) := by
    rw [hbits, hsub, pow_add, pow_mul]
    ring
  rw [Row.word, hk, Bytes.toBE_succ, hpow, Bytes.toBE_mul_add,
    Nat.mul_add_div (Nat.pow_pos (by decide))]

end Table

section Unsigned

theorem toUInt8_or {c x : UInt64} {k code : Nat} (hc : c.toNat = 2 ^ k * code)
    (hx : x.toNat < 2 ^ k) : (c ||| x).toUInt8 = .ofNat (code * 2 ^ k + x.toNat) := by
  rw [← UInt8.toNat_inj, UInt64.toNat_toUInt8, UInt64.toNat_or, hc, UInt8.toNat_ofNat',
    ← Nat.two_pow_add_eq_or_of_lt hx, Nat.mul_comm]

theorem toUInt8_byte (value : UInt64) {shift : UInt64} {i : Nat} (hshift : shift.toNat = 8 * i)
    (hi : i < 8) : (value >>> shift &&& 0xff).toUInt8 = .ofNat (value.toNat / 256 ^ i) := by
  have hmask : (0xff : UInt64).toNat = 2 ^ 8 - 1 := rfl
  rw [← UInt8.toNat_inj, UInt64.toNat_toUInt8, UInt64.toNat_and, UInt64.toNat_shiftRight, hmask,
    Nat.and_two_pow_sub_one_eq_mod, UInt8.toNat_ofNat', hshift,
    Nat.mod_eq_of_lt (by omega : 8 * i < 64), Nat.shiftRight_eq_div_pow, Bytes.pow_eq, Nat.mod_mod]

theorem toUInt8_head {r : Row} (hr : r ∈ table) {k : Nat} (hk : r.bytes = k + 1)
    {value c shift : UInt64} (hc : c.toNat = 2 ^ (8 - r.prefixBits) * r.code)
    (hshift : shift.toNat = 8 * k) (hk8 : k < 8) (hvalue : value.toNat < 2 ^ r.dataBits) :
    (c ||| value >>> shift).toUInt8 =
      .ofNat (r.code * 2 ^ (8 - r.prefixBits) + value.toNat / 256 ^ k) := by
  obtain ⟨hbits, -, -⟩ := row_bits r hr
  have hsub : r.bytes - 1 = k := by omega
  have hdata : (value >>> shift).toNat = value.toNat / 256 ^ k := by
    rw [UInt64.toNat_shiftRight, hshift, Nat.mod_eq_of_lt (by omega : 8 * k < 64),
      Nat.shiftRight_eq_div_pow, Bytes.pow_eq]
  rw [toUInt8_or hc, hdata]
  rw [hdata]
  refine Nat.div_lt_of_lt_mul ?_
  rwa [Bytes.pow_eq, ← pow_add, ← hsub, ← hbits]

theorem bytes_below (value : UInt64) {k : Nat} (hk : k ≤ 8) :
    (List.range k).reverse.map (fun i => (value >>> .ofNat (8 * i) &&& 0xff).toUInt8) =
      Bytes.toBE k value.toNat := by
  induction k with
  | zero => rfl
  | succ k ih =>
    have hshift : (UInt64.ofNat (8 * k)).toNat = 8 * k := by
      rw [UInt64.toNat_ofNat', Nat.mod_eq_of_lt (by omega)]
    rw [List.range_succ, List.reverse_append, List.reverse_singleton, List.singleton_append,
      List.map_cons, toUInt8_byte value hshift hk, ih (Nat.le_of_succ_le hk), Bytes.toBE_succ]

theorem too_long {value limit : UInt64} (hge : ¬value < limit) {d bits : Nat}
    (hlimit : limit.toNat = 2 ^ d) (hd : ∀ r ∈ table, r.dataBits < bits → r.dataBits ≤ d) :
    ∀ r ∈ table, r.dataBits < bits → 2 ^ r.dataBits ≤ value.toNat := by
  intro r hr hlt
  have hle := UInt64.le_iff_toNat_le.mp (UInt64.not_lt.mp hge)
  rw [hlimit] at hle
  exact (Nat.pow_le_pow_right (by decide) (hd r hr hlt)).trans hle

theorem varintEncode_eq (value : UInt64) :
    ∃ r ∈ table, value.toNat < 2 ^ r.dataBits ∧
      (∀ r' ∈ table, r'.dataBits < r.dataBits → 2 ^ r'.dataBits ≤ value.toNat) ∧
      varintEncode value = r.word value.toNat := by
  rw [varintEncode]
  split
  · next hlt =>
    refine ⟨⟨0, 1, 7⟩, by decide, UInt64.lt_iff_toNat_lt.mp hlt, fun r hr hshort => ?_, ?_⟩
    · have hfirst : ∀ r ∈ table, ¬r.dataBits < 7 := by decide
      exact absurd hshort (hfirst r hr)
    rw [word_eq (k := 0) (by decide) rfl]
    simp [Bytes.toBE, Bytes.toLE]
  split
  · next hge hlt =>
    have hr : ⟨0b10, 2, 14⟩ ∈ table := by decide
    have hlt := UInt64.lt_iff_toNat_lt.mp hlt
    refine ⟨_, hr, hlt, too_long hge (d := 7) rfl (by decide), ?_⟩
    rw [word_eq hr (k := 1) rfl, toUInt8_head hr (k := 1) rfl rfl rfl (by decide) hlt]
    exact congrArg _ (bytes_below value (k := 1) (by decide))
  split
  · next hge hlt =>
    have hr : ⟨0b110, 3, 21⟩ ∈ table := by decide
    have hlt := UInt64.lt_iff_toNat_lt.mp hlt
    refine ⟨_, hr, hlt, too_long hge (d := 14) rfl (by decide), ?_⟩
    rw [word_eq hr (k := 2) rfl, toUInt8_head hr (k := 2) rfl rfl rfl (by decide) hlt]
    exact congrArg _ (bytes_below value (k := 2) (by decide))
  split
  · next hge hlt =>
    have hr : ⟨0b1110, 4, 28⟩ ∈ table := by decide
    have hlt := UInt64.lt_iff_toNat_lt.mp hlt
    refine ⟨_, hr, hlt, too_long hge (d := 21) rfl (by decide), ?_⟩
    rw [word_eq hr (k := 3) rfl, toUInt8_head hr (k := 3) rfl rfl rfl (by decide) hlt]
    exact congrArg _ (bytes_below value (k := 3) (by decide))
  split
  · next hge hlt =>
    have hr : ⟨0b11110, 5, 35⟩ ∈ table := by decide
    have hlt := UInt64.lt_iff_toNat_lt.mp hlt
    refine ⟨_, hr, hlt, too_long hge (d := 28) rfl (by decide), ?_⟩
    rw [word_eq hr (k := 4) rfl, toUInt8_head hr (k := 4) rfl rfl rfl (by decide) hlt]
    exact congrArg _ (bytes_below value (k := 4) (by decide))
  split
  · next hge hlt =>
    have hr : ⟨0b111110, 6, 42⟩ ∈ table := by decide
    have hlt := UInt64.lt_iff_toNat_lt.mp hlt
    refine ⟨_, hr, hlt, too_long hge (d := 35) rfl (by decide), ?_⟩
    rw [word_eq hr (k := 5) rfl, toUInt8_head hr (k := 5) rfl rfl rfl (by decide) hlt]
    exact congrArg _ (bytes_below value (k := 5) (by decide))
  · next hge =>
    have hr : ⟨0b11111100, 9, 64⟩ ∈ table := by decide
    have hlt : value.toNat < 256 ^ 8 := value.toNat_lt
    refine ⟨_, hr, value.toNat_lt, too_long hge (d := 42) rfl (by decide), ?_⟩
    rw [word_eq hr (k := 8) rfl, Nat.div_eq_of_lt hlt]
    exact congrArg _ (bytes_below value (k := 8) (by decide))

theorem reads_varintEncode : PrefixCode.Reads varintEncode
    (fun bs => (readWord bs).map fun read => (read.1.2, read.2)) UInt64.toNat := by
  constructor
  · intro value
    obtain ⟨r, hr, hdata, -, hword⟩ := varintEncode_eq value
    obtain ⟨b, bs, hcons, -⟩ := announced_word hr hdata
    rw [hword, hcons]
    exact List.cons_ne_nil b bs
  · intro value rest
    obtain ⟨r, hr, hdata, -, hword⟩ := varintEncode_eq value
    rw [hword, readWord_word hr hdata rest]
    rfl

/-- Values are determined by their words, and lists of values by the words one after the other; no
word is a prefix of another one. The first byte announces the row of a word, which is the first one
that holds the bits of the value, and from which the word has its length. -/
theorem varintEncode_uniquely_decodable :
    (List.flatMap varintEncode).Injective ∧ varintEncode.Injective ∧
      (∀ value value', varintEncode value <+: varintEncode value' → value = value') ∧
      ∀ value : UInt64, ∃ b bs r, varintEncode value = b :: bs ∧ announced b = some r ∧
        rowFor value.toNat.size = some r ∧ (varintEncode value).length = r.bytes := by
  have hinjective : UInt64.toNat.Injective := fun _ _ => UInt64.toNat_inj.mp
  have hfront : ∀ value value', varintEncode value <+: varintEncode value' → value = value' :=
    fun _ _ h => hinjective (reads_varintEncode.value_eq_of_prefix h)
  have hencode : varintEncode.Injective := fun value value' h =>
    hfront value value' (h ▸ List.prefix_refl _)
  refine ⟨reads_varintEncode.flatMap_injective hencode, hencode, hfront, fun value => ?_⟩
  obtain ⟨r, hr, hdata, hshort, hword⟩ := varintEncode_eq value
  obtain ⟨b, bs, hcons, hannounced⟩ := announced_word hr hdata
  refine ⟨b, bs, r, hword.trans hcons, hannounced, rowFor_size hr hdata hshort, ?_⟩
  rw [hword, length_word]

end Unsigned

section Signed

theorem toUInt64_and_shiftRight (value mask shift : Int64) {s : Nat}
    (hshift : (shift.toBitVec.smod 64).toNat = s) (hs : s < 64)
    (hmask : mask.toUInt64.toNat < 2 ^ (64 - s)) :
    (value >>> shift &&& mask).toUInt64 = value.toUInt64 >>> .ofNat s &&& mask.toUInt64 := by
  rw [Int64.toUInt64_and, ← UInt64.toBitVec_inj, UInt64.toBitVec_and, UInt64.toBitVec_and,
    UInt64.toBitVec_shiftRight]
  change value.toBitVec.sshiftRight (shift.toBitVec.smod 64).toNat &&& _ = _
  rw [hshift]
  ext i hi
  by_cases hin : s + i < 64
  · simp [BitVec.getElem_sshiftRight, hin, Nat.mod_eq_of_lt hs]
  · have hbit : mask.toBitVec[i] = false := by
      rw [BitVec.getElem_eq_testBit_toNat]
      exact Nat.testBit_lt_two_pow
        (hmask.trans_le (Nat.pow_le_pow_right (by decide) (by omega)))
    simp [hbit]

def twosComplement (bits data : Nat) : Int := (data : Int).bmod (2 ^ bits)

/-- The signed value of the word in front: it has at most 35 data bits. -/
def readSigned (bs : List UInt8) : Option (Int × List UInt8) :=
  (readWord bs).bind fun read =>
    if read.1.1.dataBits ≤ 35 then some (twosComplement read.1.1.dataBits read.1.2, read.2)
    else none

/-- The values that the first four rows hold. -/
def Short (value : Int64) : Prop := -134217728 ≤ value ∧ value < 134217728

instance (value : Int64) : Decidable (Short value) := inferInstanceAs (Decidable (_ ∧ _))

theorem Short.bounds {value : Int64} (h : Short value) :
    -134217728 ≤ value.toInt ∧ value.toInt < 134217728 :=
  ⟨Int64.le_iff_toInt_le.mp h.1, Int64.lt_iff_toInt_lt.mp h.2⟩

/-- What a value is written as. Of a long one, 32 bits are written. -/
structure Written (value : Int64) (r : Row) (data : Nat) : Prop where
  row : r ∈ table
  lt : data < 2 ^ r.dataBits
  word : varintEncodeSigned value = r.word data
  short : Short value → r.dataBits ≤ 28 ∧ twosComplement r.dataBits data = value.toInt
  long : ¬Short value → r.dataBits = 35 ∧ data = (value.toInt % 2 ^ 32).toNat

theorem natCast_toUInt64 (value : Int64) : (value.toUInt64.toNat : Int) = value.toInt % 2 ^ 64 := by
  have hlt := value.toUInt64.toNat_lt
  have htoInt : value.toInt = (value.toUInt64.toNat : Int).bmod (2 ^ 64) :=
    BitVec.toInt_eq_toNat_bmod value.toBitVec
  have hpow : (2 : Int) ^ 64 = ((2 ^ 64 : Nat) : Int) := by norm_cast
  rw [htoInt, hpow, Int.bmod_emod]
  omega

theorem twosComplement_toUInt64 {value : Int64} {d : Nat} (hd : d < 64)
    (hge : -2 ^ d ≤ value.toInt) (hlt : value.toInt < 2 ^ d) :
    twosComplement (d + 1) (value.toUInt64.toNat % 2 ^ (d + 1)) = value.toInt := by
  have hdvd : ((2 ^ (d + 1) : Nat) : Int) ∣ 2 ^ 64 := by
    rw [Nat.cast_pow]
    exact pow_dvd_pow 2 hd
  have hpow : ((2 ^ (d + 1) : Nat) : Int) = 2 ^ d * 2 := by
    rw [Nat.cast_pow, pow_succ]
    rfl
  rw [twosComplement, Int.natCast_mod, natCast_toUInt64, Int.emod_emod_of_dvd _ hdvd,
    Int.emod_bmod]
  apply Int.bmod_eq_of_le
  · omega
  · omega

theorem signed_below (value : Int64) {k : Nat} (hk : k ≤ 4) :
    (List.range k).reverse.map (fun i => toChar (value >>> .ofNat (8 * i) &&& 0xff)) =
      Bytes.toBE k value.toUInt64.toNat := by
  rw [← bytes_below value.toUInt64 (hk.trans (by decide))]
  refine List.map_congr_left fun i hi => ?_
  have hi : i < k := List.mem_range.mp (List.mem_reverse.mp hi)
  have hshift : ∀ i < 4, ((Int64.ofNat (8 * i)).toBitVec.smod 64).toNat = 8 * i := by decide
  rw [toChar, toUInt64_and_shiftRight value 0xff _ (hshift i (hi.trans_le hk)) (by omega)]
  · rfl
  · refine Nat.lt_of_lt_of_le (by decide : _ < 2 ^ 8) (Nat.pow_le_pow_right (by decide) (by omega))

theorem signed_word {r : Row} (hr : r ∈ table) {k : Nat} (hk : r.bytes = k + 1) (hk4 : k < 4)
    {value c mask shift : Int64} (hc : c.toUInt64.toNat = 2 ^ (8 - r.prefixBits) * r.code)
    (hmask : mask.toUInt64.toNat = 2 ^ (8 - r.prefixBits) - 1)
    (hshift : (shift.toBitVec.smod 64).toNat = 8 * k) :
    toChar (c ||| (value >>> shift &&& mask)) :: Bytes.toBE k value.toUInt64.toNat =
      r.word (value.toUInt64.toNat % 2 ^ r.dataBits) := by
  obtain ⟨hbits, -, -⟩ := row_bits r hr
  have hsub : r.bytes - 1 = k := by omega
  have hpow : 2 ^ r.dataBits = 256 ^ k * 2 ^ (8 - r.prefixBits) := by
    rw [hbits, hsub, pow_add, Bytes.pow_eq]
  have hdata : (value >>> shift &&& mask).toUInt64.toNat =
      value.toUInt64.toNat / 256 ^ k % 2 ^ (8 - r.prefixBits) := by
    rw [toUInt64_and_shiftRight value mask shift hshift (by omega), UInt64.toNat_and, hmask,
      Nat.and_two_pow_sub_one_eq_mod, UInt64.toNat_shiftRight, UInt64.toNat_ofNat',
      Nat.mod_eq_of_lt (by omega : 8 * k < 2 ^ 64), Nat.mod_eq_of_lt (by omega : 8 * k < 64),
      Nat.shiftRight_eq_div_pow, Bytes.pow_eq]
    have hle : 2 ^ (8 - r.prefixBits) ≤ 2 ^ (64 - 8 * k) :=
      Nat.pow_le_pow_right (by decide) (by omega)
    have hpos := Nat.two_pow_pos (8 - r.prefixBits)
    omega
  have hlow : value.toUInt64.toNat =
      256 ^ k * (2 ^ (8 - r.prefixBits) * (value.toUInt64.toNat / 2 ^ r.dataBits)) +
        value.toUInt64.toNat % 2 ^ r.dataBits := by
    rw [← Nat.mul_assoc, ← hpow, Nat.div_add_mod]
  have hbelow : Bytes.toBE k value.toUInt64.toNat =
      Bytes.toBE k (value.toUInt64.toNat % 2 ^ r.dataBits) := by
    rw [hlow, Bytes.toBE_mul_add, ← hlow]
  rw [word_eq hr hk, toChar, Int64.toUInt64_or, toUInt8_or hc, hdata, hbelow]
  · rw [hpow, Nat.mod_mul_right_div_self]
  · rw [hdata]
    exact Nat.mod_lt _ (Nat.two_pow_pos _)

theorem Written.of_short {value : Int64} {r : Row} (hr : r ∈ table) {d : Nat}
    (hd : r.dataBits = d + 1) (hd27 : d ≤ 27) {a b : Int64} (h : value < b ∧ value ≥ a)
    (ha : a.toInt = -2 ^ d) (hb : b.toInt = 2 ^ d)
    (hword : varintEncodeSigned value = r.word (value.toUInt64.toNat % 2 ^ r.dataBits)) :
    Written value r (value.toUInt64.toNat % 2 ^ r.dataBits) := by
  have hlt := Int64.lt_iff_toInt_lt.mp h.1
  have hge := Int64.le_iff_toInt_le.mp h.2
  rw [hb] at hlt
  rw [ha] at hge
  have hpow : (2 : Int) ^ d ≤ 134217728 := by
    exact_mod_cast Nat.pow_le_pow_right (n := 2) (by decide) hd27
  have hshort : Short value := by
    refine ⟨Int64.le_iff_toInt_le.mpr ?_, Int64.lt_iff_toInt_lt.mpr ?_⟩
    · exact (neg_le_neg hpow).trans hge
    · exact hlt.trans_le hpow
  refine ⟨hr, Nat.mod_lt _ (Nat.two_pow_pos _), hword, fun _ => ⟨by omega, ?_⟩,
    fun hlong => absurd hshort hlong⟩
  rw [hd]
  exact twosComplement_toUInt64 (by omega) hge hlt

theorem toChar_low (value : Int64) :
    toChar (value &&& 0x7f) = .ofNat (value.toUInt64.toNat % 2 ^ 7) := by
  have hmask : (0x7f : UInt64).toNat = 2 ^ 7 - 1 := rfl
  rw [toChar, Int64.toUInt64_and, ← UInt8.toNat_inj, UInt64.toNat_toUInt8, UInt64.toNat_and,
    Int64.toUInt64_ofNat, hmask, Nat.and_two_pow_sub_one_eq_mod, UInt8.toNat_ofNat']

theorem varintEncodeSigned_written (value : Int64) : ∃ r data, Written value r data := by
  have hdef := varintEncodeSigned.eq_1 value
  split at hdef
  · next h =>
    have hr : ⟨0, 1, 7⟩ ∈ table := by decide
    refine ⟨_, _, .of_short hr (d := 6) rfl (by decide) h (by decide) (by decide) ?_⟩
    rw [hdef, word_eq hr (k := 0) rfl, toChar_low]
    simp [Bytes.toBE, Bytes.toLE]
  split at hdef
  · next h =>
    have hr : ⟨0b10, 2, 14⟩ ∈ table := by decide
    refine ⟨_, _, .of_short hr (d := 13) rfl (by decide) h (by decide) (by decide) ?_⟩
    refine (hdef.trans (congrArg (List.cons _) (signed_below value (k := 1) (by decide)))).trans
      (signed_word hr (k := 1) rfl (by decide) ?_ ?_ ?_)
    · rfl
    · rfl
    · rfl
  split at hdef
  · next h =>
    have hr : ⟨0b110, 3, 21⟩ ∈ table := by decide
    refine ⟨_, _, .of_short hr (d := 20) rfl (by decide) h (by decide) (by decide) ?_⟩
    refine (hdef.trans (congrArg (List.cons _) (signed_below value (k := 2) (by decide)))).trans
      (signed_word hr (k := 2) rfl (by decide) ?_ ?_ ?_)
    · rfl
    · rfl
    · rfl
  split at hdef
  · next h =>
    have hr : ⟨0b1110, 4, 28⟩ ∈ table := by decide
    refine ⟨_, _, .of_short hr (d := 27) rfl (by decide) h (by decide) (by decide) ?_⟩
    refine (hdef.trans (congrArg (List.cons _) (signed_below value (k := 3) (by decide)))).trans
      (signed_word hr (k := 3) rfl (by decide) ?_ ?_ ?_)
    · rfl
    · rfl
    · rfl
  · next h =>
    have hr : ⟨0b11110, 5, 35⟩ ∈ table := by decide
    have hlong : ¬Short value := fun hshort => h ⟨hshort.2, hshort.1⟩
    have hdata : (value.toInt % 2 ^ 32).toNat = value.toUInt64.toNat % 256 ^ 4 := by
      have hcast := natCast_toUInt64 value
      omega
    have hlow : Bytes.toBE 4 value.toUInt64.toNat =
        Bytes.toBE 4 (value.toUInt64.toNat % 256 ^ 4) := by
      rw [← Nat.div_add_mod value.toUInt64.toNat (256 ^ 4), Bytes.toBE_mul_add, Nat.div_add_mod]
    refine ⟨_, _, hr, ?_, ?_, fun hshort => absurd hshort hlong, fun _ => ⟨rfl, rfl⟩⟩
    · exact hdata ▸ (Nat.mod_lt _ (by decide)).trans (by decide)
    · rw [hdef, word_eq hr (k := 4) rfl, hdata, ← hlow,
        Nat.div_eq_of_lt (Nat.mod_lt _ (by decide : 0 < 256 ^ 4))]
      exact congrArg _ (signed_below value (k := 4) (by decide))

def signedValue (value : Int64) : Int :=
  if Short value then value.toInt else value.toInt % 2 ^ 32

theorem Written.value {value : Int64} {r : Row} {data : Nat} (h : Written value r data) :
    r.dataBits ≤ 35 ∧ twosComplement r.dataBits data = signedValue value := by
  rw [signedValue]
  split
  · next hshort =>
    obtain ⟨hbits, hvalue⟩ := h.short hshort
    exact ⟨by omega, hvalue⟩
  · next hlong =>
    obtain ⟨hbits, rfl⟩ := h.long hlong
    have hcast : ((value.toInt % 2 ^ 32).toNat : Int) = value.toInt % 2 ^ 32 := by omega
    refine ⟨hbits.le, ?_⟩
    rw [twosComplement, hbits, hcast]
    apply Int.bmod_eq_of_le
    · omega
    · omega

theorem reads_varintEncodeSigned :
    PrefixCode.Reads varintEncodeSigned readSigned signedValue := by
  constructor
  · intro value
    obtain ⟨r, data, h⟩ := varintEncodeSigned_written value
    obtain ⟨b, bs, hcons, -⟩ := announced_word h.row h.lt
    rw [h.word, hcons]
    exact List.cons_ne_nil b bs
  · intro value rest
    obtain ⟨r, data, h⟩ := varintEncodeSigned_written value
    rw [h.word, readSigned, readWord_word h.row h.lt rest, Option.bind_some, if_pos h.value.1,
      h.value.2]

theorem short_of_word_eq {value value' : Int64}
    (hword : varintEncodeSigned value = varintEncodeSigned value') (h : Short value) :
    Short value' := by
  by_contra hlong
  obtain ⟨r, data, hw⟩ := varintEncodeSigned_written value
  obtain ⟨r', data', hw'⟩ := varintEncodeSigned_written value'
  have hread := readWord_word hw.row hw.lt []
  rw [← hw.word, hword, hw'.word, readWord_word hw'.row hw'.lt []] at hread
  obtain rfl : r' = r := congrArg (fun read => read.1.1) (Option.some.inj hread)
  have hbits := (hw.short h).1
  have hbits' := (hw'.long hlong).1
  omega

/-- The documented range. -/
def InRange (value : Int64) : Prop := -17179869184 ≤ value ∧ value < 17179869184

instance (value : Int64) : Decidable (InRange value) := inferInstanceAs (Decidable (_ ∧ _))

/-- The words of the values are read as the values, and no other values have the same words. -/
def Decodable (values : List Int64) : Prop :=
  PrefixCode.decodeAll readSigned (values.flatMap varintEncodeSigned) =
      some (values.map Int64.toInt) ∧
    ∀ others, (∀ value ∈ others, InRange value) →
      others.flatMap varintEncodeSigned = values.flatMap varintEncodeSigned → others = values

theorem signedValue_of_short {value : Int64} (h : Short value) :
    signedValue value = value.toInt := if_pos h

theorem bounds_of_long {value : Int64} (hlong : ¬Short value)
    (hvalue : signedValue value = value.toInt) : 0 ≤ value.toInt ∧ value.toInt < 4294967296 := by
  rw [signedValue, if_neg hlong] at hvalue
  omega

theorem inRange_of_signedValue {value : Int64} (h : signedValue value = value.toInt) :
    InRange value := by
  rw [InRange, Int64.le_iff_toInt_le, Int64.lt_iff_toInt_lt]
  change -17179869184 ≤ value.toInt ∧ value.toInt < 17179869184
  by_cases hshort : Short value
  · have hbounds := hshort.bounds
    omega
  · have hbounds := bounds_of_long hshort h
    omega

theorem word_eq_of_long {value value' : Int64} (hlong : ¬Short value) (hlong' : ¬Short value')
    (hmod : value.toInt % 2 ^ 32 = value'.toInt % 2 ^ 32) :
    varintEncodeSigned value = varintEncodeSigned value' := by
  obtain ⟨r, data, hw⟩ := varintEncodeSigned_written value
  obtain ⟨r', data', hw'⟩ := varintEncodeSigned_written value'
  obtain ⟨hbits, hdata⟩ := hw.long hlong
  obtain ⟨hbits', hdata'⟩ := hw'.long hlong'
  have hrow : ∀ r ∈ table, ∀ r' ∈ table, r.dataBits = 35 → r'.dataBits = 35 → r = r' := by decide
  rw [hw.word, hw'.word, hrow r hw.row r' hw'.row hbits hbits', hdata, hdata', hmod]

theorem toInt_add_of_long {value : Int64} (hlong : ¬Short value)
    (hvalue : signedValue value = value.toInt) :
    (value + 4294967296).toInt = value.toInt + 4294967296 := by
  have hbounds := bounds_of_long hlong hvalue
  rw [Int64.toInt_add]
  change (value.toInt + 4294967296).bmod _ = _
  apply Int.bmod_eq_of_le
  · omega
  · omega

/-- The words determine the values exactly when none of them is long. -/
theorem decodable_iff_short (values : List Int64) :
    Decodable values ↔ ∀ value ∈ values, Short value := by
  rw [Decodable, reads_varintEncodeSigned.decodeAll_eq_iff]
  constructor
  · intro ⟨hread, hothers⟩ value hmem
    by_contra hlong
    have hvalue := hread value hmem
    have hbounds := bounds_of_long hlong hvalue
    have hadd := toInt_add_of_long hlong hvalue
    have hlong' : ¬Short (value + 4294967296) := by
      intro hshort
      have hlt := hshort.bounds
      omega
    -- the same values, with 2 ^ 32 added to the long one
    have heq := hothers (values.map fun v => if v = value then value + 4294967296 else v) ?_ ?_
    · have hself := List.map_inj_left.mp (heq.trans (List.map_id values).symm) value hmem
      dsimp only [id] at hself
      rw [if_pos rfl] at hself
      rw [hself] at hadd
      omega
    · rw [List.forall_mem_map]
      intro v hv
      split
      · rw [InRange, Int64.le_iff_toInt_le, Int64.lt_iff_toInt_lt, hadd]
        change -17179869184 ≤ value.toInt + 4294967296 ∧ value.toInt + 4294967296 < 17179869184
        omega
      · exact inRange_of_signedValue (hread v hv)
    · rw [List.flatMap_map]
      refine List.flatMap_congr fun v _ => ?_
      split
      · next hv =>
        rw [hv]
        exact word_eq_of_long hlong' hlong (by rw [hadd]; omega)
      · rfl
  · intro hshort
    refine ⟨fun value hmem => signedValue_of_short (hshort value hmem), fun others _ heq => ?_⟩
    have hwords := reads_varintEncodeSigned.map_encode_eq heq
    have hshort' : ∀ value ∈ others, Short value := by
      intro value hmem
      have hword := List.mem_map_of_mem (f := varintEncodeSigned) hmem
      rw [hwords] at hword
      obtain ⟨value', hmem', hword⟩ := List.mem_map.mp hword
      exact short_of_word_eq hword (hshort value' hmem')
    have hread := reads_varintEncodeSigned.decodeAll others
    rw [heq, reads_varintEncodeSigned.decodeAll values,
      List.map_congr_left fun v hv => signedValue_of_short (hshort v hv),
      List.map_congr_left fun v hv => signedValue_of_short (hshort' v hv)] at hread
    have hinjective : Int64.toInt.Injective := fun _ _ => Int64.toInt_inj.mp
    exact (List.map_injective_iff.mpr hinjective (Option.some.inj hread)).symm

/-- The first long value below 0 is read as another one. -/
theorem not_decodable_negative :
    ¬∀ values, (∀ value ∈ values, InRange value) → Decodable values := by
  intro h
  have hrange : InRange (-134217729) := by decide
  have hlong : ¬Short (-134217729) := by decide
  have hread := (h [-134217729] (List.forall_mem_singleton.mpr hrange)).1
  rw [reads_varintEncodeSigned.decodeAll_eq_iff, List.forall_mem_singleton] at hread
  exact absurd (bounds_of_long hlong hread).1 (by decide)

end Signed

end M2M.Trace.Varint
