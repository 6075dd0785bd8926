import M2M.Telephony.Sms
import M2M.Telephony.RoundTrip

/-! `sms.c`: addresses as hexadecimal text. -/

namespace M2M.Telephony

section Hexadecimal

def hexdigits : List UInt8 :=
  [0x30, 0x31, 0x32, 0x33, 0x34, 0x35, 0x36, 0x37, 0x38, 0x39, 0x61, 0x62, 0x63, 0x64, 0x65, 0x66]

/-- `gsm_hex_from_byte`, for the text from `hex[start]` on. -/
def gsmHexFromByte (hex : Nat → UInt8) (start : Nat) (val : UInt8) : Nat → UInt8 :=
  Function.update
    (Function.update hex start (hexdigits.getD (val.toNat >>> 4 &&& 15) 0))
    (start + 1) (hexdigits.getD (val.toNat &&& 15) 0)

/-- What `gsm_hex2_to_byte` returns. -/
def gsmHex2ToByte (hex : Nat → UInt8) (start : Nat) : Int :=
  match Gsm.hex2ToByte (hex start) (hex (start + 1)) with
  | none => -1
  | some byte => byte.toNat

/-- An `int` stored into an `unsigned char`. -/
def uchar (n : Int) : UInt8 := UInt8.ofNat (n % 256).toNat

end Hexadecimal

section Address

/-- What `sms_address_from_hex` returns, the address with the bytes stored into its `data`, and all
the stores to `data`: where, and which byte. -/
structure AddressRead where
  result : Int
  address : SmsAddressRec
  stores : List (Nat × UInt8)

def smsAddressFromHex (address : SmsAddressRec) (hex : Nat → UInt8) (hexlen : Nat) : AddressRead :=
  if hexlen < 4 then { result := -1, address, stores := [] }
  else
    let numDigits := gsmHex2ToByte hex 0
    let address := { address with len := uchar numDigits, toa := uchar (gsmHex2ToByte hex 2) }
    let len := (numDigits + 1).toNat / 2
    if hexlen < 4 + len * 2 then { result := -1, address, stores := [] }
    else
      let stores := (List.range len).map fun nn => (nn, uchar (gsmHex2ToByte hex (4 + nn * 2)))
      let data := stores.foldl (fun data store => data.setIfInBounds store.1 store.2) address.data
      { result := 0, address := { address with data }, stores }

/-- The loop of `sms_address_to_hex`, with `rounds` bytes still to come. -/
def hexLoop (address : SmsAddressRec) : Nat → Nat → (Nat → UInt8) → Nat → UInt8
  | 0, _, hex => hex
  | rounds + 1, nn, hex =>
    hexLoop address rounds (nn + 2)
      (gsmHexFromByte hex (4 + nn) (address.data.toList.getD (nn / 2) 0))

/-- `sms_address_to_hex`: what is returned, and the memory from `hex` on.  A null `hex` is one of no
bytes. -/
def smsAddressToHex (address : SmsAddressRec) (hex : Nat → UInt8) (hexlen : Nat) :
    Nat × (Nat → UInt8) :=
  let len := (address.len.toNat + 1) / 2 + 2
  if hexlen < 2 then (len * 2, hex)
  else
    let hex := gsmHexFromByte hex 0 address.len
    if hexlen < 4 then (len * 2, hex)
    else
      let hex := gsmHexFromByte hex 2 address.toa
      let hexlen := if 2 * (len - 2) < hexlen - 4 then (len - 2) / 2 else hexlen - 4
      (len * 2, hexLoop address ((hexlen + 1) / 2) 0 hex)

end Address

section Hexadecimal

variable {hex : Nat → UInt8} {start : Nat}

theorem hexcharToInt_hexdigits {d : Nat} (hd : d < 16) :
    Gsm.hexcharToInt (hexdigits.getD d 0) = some d := by
  have hall : ∀ d < 16, Gsm.hexcharToInt (hexdigits.getD d 0) = some d := by decide
  exact hall d hd

theorem hex2ToByte_hexdigits (val : UInt8) :
    Gsm.hex2ToByte (hexdigits.getD (val.toNat >>> 4 &&& 15) 0)
      (hexdigits.getD (val.toNat &&& 15) 0) = some val := by
  have hlow : val.toNat &&& 15 = val.toNat % 16 := Nat.and_two_pow_sub_one_eq_mod _ 4
  have hhigh : val.toNat >>> 4 &&& 15 = val.toNat / 16 := by
    have hlt := val.toNat_lt
    rw [Nat.shiftRight_eq_div_pow]
    exact (Nat.and_two_pow_sub_one_eq_mod _ 4).trans (Nat.mod_eq_of_lt (by omega))
  have hlt := val.toNat_lt
  have hor : (val.toNat / 16) <<< 4 ||| val.toNat % 16 = val.toNat := by
    rw [Nat.shiftLeft_eq, Nat.mul_comm, ← Nat.two_pow_add_eq_or_of_lt (i := 4) (by omega)]
    omega
  rw [Gsm.hex2ToByte, hlow, hhigh, hexcharToInt_hexdigits (by omega),
    hexcharToInt_hexdigits (by omega)]
  simp only [Option.bind_eq_bind, Option.bind_some, hor, UInt8.ofNat_toNat]
  rfl

theorem gsmHex2ToByte_self (hex : Nat → UInt8) (start : Nat) (val : UInt8) :
    gsmHex2ToByte (gsmHexFromByte hex start val) start = val.toNat := by
  have hfirst : gsmHexFromByte hex start val start = hexdigits.getD (val.toNat >>> 4 &&& 15) 0 := by
    rw [gsmHexFromByte, Function.update_of_ne (by omega), Function.update_self]
  have hsecond : gsmHexFromByte hex start val (start + 1) = hexdigits.getD (val.toNat &&& 15) 0 :=
    Function.update_self ..
  rw [gsmHex2ToByte, hfirst, hsecond, hex2ToByte_hexdigits]

theorem gsmHex2ToByte_of_ne {t : Nat} (h : t + 1 < start ∨ start + 1 < t) (val : UInt8) :
    gsmHex2ToByte (gsmHexFromByte hex start val) t = gsmHex2ToByte hex t := by
  have hframe : ∀ i, i ≠ start → i ≠ start + 1 → gsmHexFromByte hex start val i = hex i := by
    intro i hi hi'
    rw [gsmHexFromByte, Function.update_of_ne hi', Function.update_of_ne hi]
  rw [gsmHex2ToByte, hframe t (by omega) (by omega), hframe (t + 1) (by omega) (by omega),
    gsmHex2ToByte]

theorem uchar_toNat (val : UInt8) : uchar (val.toNat : Int) = val := by
  have hlt := val.toNat_lt
  rw [uchar, show ((val.toNat : Int) % 256).toNat = val.toNat by omega, UInt8.ofNat_toNat]

end Hexadecimal

section Reading

variable {address : SmsAddressRec} {hex : Nat → UInt8}

theorem gsmHex2ToByte_hexLoop (rounds m : Nat) (hex : Nat → UInt8) (i : Nat) :
    gsmHex2ToByte (hexLoop address rounds (2 * m) hex) (4 + i * 2) =
      if m ≤ i ∧ i < m + rounds then ((address.data.toList.getD i 0).toNat : Int)
      else gsmHex2ToByte hex (4 + i * 2) := by
  induction rounds generalizing m hex with
  | zero => rw [hexLoop, if_neg (by omega)]
  | succ rounds ih =>
    rw [hexLoop, show 2 * m + 2 = 2 * (m + 1) by omega, ih, show 2 * m / 2 = m by omega]
    rcases Nat.lt_trichotomy i m with hlt | rfl | hgt
    · rw [if_neg (by omega), if_neg (by omega), gsmHex2ToByte_of_ne (by omega)]
    · rw [if_neg (by omega), if_pos (by omega), Nat.mul_comm, gsmHex2ToByte_self]
    · by_cases hi : i < m + (rounds + 1)
      · rw [if_pos (by omega), if_pos (by omega)]
      · rw [if_neg (by omega), if_neg (by omega), gsmHex2ToByte_of_ne (by omega)]

theorem gsmHex2ToByte_hexLoop_head (rounds nn : Nat) (hex : Nat → UInt8) {t : Nat} (ht : t < 3) :
    gsmHex2ToByte (hexLoop address rounds nn hex) t = gsmHex2ToByte hex t := by
  induction rounds generalizing nn hex with
  | zero => rw [hexLoop]
  | succ rounds ih => rw [hexLoop, ih, gsmHex2ToByte_of_ne (by omega)]

theorem getD_foldl_stores (data : Vector UInt8 smsAddressMaxSize) (f : Nat → UInt8) (len i : Nat)
    (hi : i < smsAddressMaxSize) :
    (((List.range len).map fun nn => (nn, f nn)).foldl
      (fun data store => data.setIfInBounds store.1 store.2) data).toList.getD i 0 =
        if i < len then f i else data.toList.getD i 0 := by
  induction len with
  | zero => rfl
  | succ len ih =>
    rw [List.range_succ, List.map_append, List.foldl_append]
    generalize ((List.range len).map fun nn => (nn, f nn)).foldl
      (fun data store => data.setIfInBounds store.1 store.2) data = stored at ih ⊢
    change ((stored.setIfInBounds len (f len)).toList.getD i 0) = _
    rw [Vector.toList_setIfInBounds, List.getD_eq_getElem?_getD, List.getElem?_set]
    by_cases hlen : len = i
    · subst hlen
      rw [if_pos rfl, if_pos (by rwa [Vector.length_toList]), if_pos (Nat.lt_succ_self _)]
      rfl
    · rw [if_neg hlen, ← List.getD_eq_getElem?_getD, ih]
      split_ifs <;> first | rfl | omega

theorem smsAddressToHex_spec {hexlen : Nat} (h : (smsAddressToHex address hex hexlen).1 ≤ hexlen) :
    gsmHex2ToByte (smsAddressToHex address hex hexlen).2 0 = address.len.toNat ∧
      gsmHex2ToByte (smsAddressToHex address hex hexlen).2 2 = address.toa.toNat ∧
      ∀ i, gsmHex2ToByte (smsAddressToHex address hex hexlen).2 (4 + i * 2) =
        if i < (if 2 * address.size + 4 < hexlen then (address.size / 2 + 1) / 2 else address.size)
        then ((address.data.toList.getD i 0).toNat : Int) else gsmHex2ToByte hex (4 + i * 2) := by
  have hresult : (smsAddressToHex address hex hexlen).1 = (address.size + 2) * 2 := by
    rw [smsAddressToHex]
    split_ifs <;> rfl
  rw [hresult] at h
  rw [smsAddressToHex, if_neg (by omega), if_neg (by omega), ← SmsAddressRec.size]
  dsimp only
  refine ⟨?_, ?_, fun i => ?_⟩
  · rw [gsmHex2ToByte_hexLoop_head _ _ _ (by decide), gsmHex2ToByte_of_ne (by decide),
      gsmHex2ToByte_self]
  · rw [gsmHex2ToByte_hexLoop_head _ _ _ (by decide), gsmHex2ToByte_self]
  · rw [show (0 : Nat) = 2 * 0 from rfl, gsmHex2ToByte_hexLoop, gsmHex2ToByte_of_ne (by omega),
      gsmHex2ToByte_of_ne (by omega)]
    refine if_congr ?_ rfl rfl
    by_cases hlong : 2 * address.size + 4 < hexlen
    · rw [if_pos hlong, if_pos (by omega)]
      omega
    · rw [if_neg hlong, if_neg (by omega)]
      omega

theorem same_iff {a b : SmsAddressRec} (hlen : a.len = b.len) (htoa : a.toa = b.toa)
    (hsize : b.size ≤ smsAddressMaxSize) :
    a.Same b ↔ ∀ i < b.size, a.data.toList.getD i 0 = b.data.toList.getD i 0 := by
  have hasize : a.size = b.size := by rw [SmsAddressRec.size, hlen, SmsAddressRec.size]
  rw [SmsAddressRec.Same, SmsAddressRec.digits, SmsAddressRec.digits, hasize, and_iff_right hlen,
    and_iff_right htoa]
  constructor
  · intro heq i hi
    have hget := congrArg (fun l : List UInt8 => l.getD i 0) heq
    simpa only [List.getD_eq_getElem?_getD, List.getElem?_take_of_lt hi] using hget
  · intro hall
    refine List.ext_getElem (by simp) fun i hi _ => ?_
    have hi' : i < b.size := (List.length_take_le ..).trans_lt' hi
    have hget := hall i hi'
    have hin : i < smsAddressMaxSize := by omega
    rw [List.getD_eq_getElem _ _ (by rwa [Vector.length_toList]),
      List.getD_eq_getElem _ _ (by rwa [Vector.length_toList])] at hget
    rw [List.getElem_take, List.getElem_take, hget]

end Reading

section RoundTrip

/-- The text in the buffer is read as the same address, for every length that covers it. -/
def HexRoundTrip (address : SmsAddress) (hex : Nat → UInt8) (hexlen : Nat) : Prop :=
  ∀ (old : SmsAddressRec) (n : Nat),
    (smsAddressToHex address.toSmsAddressRec hex hexlen).1 ≤ n → n ≤ hexlen →
    (smsAddressFromHex old (smsAddressToHex address.toSmsAddressRec hex hexlen).2 n).result = 0 ∧
      (smsAddressFromHex old (smsAddressToHex address.toSmsAddressRec hex hexlen).2 n).address.Same
        address.toSmsAddressRec

/-- The buffer is no longer than the text, or spells already the digits that a longer one does not
get: all but the first `(size / 2 + 1) / 2` bytes of them. -/
def LeftOutSpelled (address : SmsAddress) (hex : Nat → UInt8) (hexlen : Nat) : Prop :=
  hexlen = (address.size + 2) * 2 ∨ ∀ i, (address.size / 2 + 1) / 2 ≤ i → i < address.size →
    uchar (gsmHex2ToByte hex (4 + i * 2)) = address.data.toList.getD i 0

/-- A string is refused, or only hexadecimal digits of it are used and no store is behind `data`. -/
def HexRefusedOrSafe (hex : Nat → UInt8) (hexlen : Nat) : Prop :=
  ∀ old : SmsAddressRec, (smsAddressFromHex old hex hexlen).result = -1 ∨
    (∀ i < 4 + 2 * (smsAddressFromHex old hex hexlen).stores.length,
      Gsm.hexcharToInt (hex i) ≠ none) ∧
      ∀ store ∈ (smsAddressFromHex old hex hexlen).stores, store.1 < smsAddressMaxSize

/-- The string is shorter than what it announces, or it announces no more than 32 digits, and the
characters for them are hexadecimal digits. -/
def Announces (hex : Nat → UInt8) (hexlen : Nat) : Prop :=
  hexlen < 4 ∨ ∃ numDigits, Gsm.hex2ToByte (hex 0) (hex 1) = some numDigits ∧
    (hexlen < 4 + 2 * ((numDigits.toNat + 1) / 2) ∨
      numDigits ≤ 32 ∧ ∀ i, 2 ≤ i → i < 4 + 2 * ((numDigits.toNat + 1) / 2) →
        Gsm.hexcharToInt (hex i) ≠ none)

theorem smsAddressFromHex_spec {hex : Nat → UInt8} {n : Nat} {len toa : UInt8}
    (hlen : gsmHex2ToByte hex 0 = len.toNat) (htoa : gsmHex2ToByte hex 2 = toa.toNat)
    (hsize : (len.toNat + 1) / 2 ≤ smsAddressMaxSize) (hn : ((len.toNat + 1) / 2 + 2) * 2 ≤ n)
    (old : SmsAddressRec) :
    (smsAddressFromHex old hex n).result = 0 ∧ (smsAddressFromHex old hex n).address.len = len ∧
      (smsAddressFromHex old hex n).address.toa = toa ∧
      ∀ i < (len.toNat + 1) / 2, (smsAddressFromHex old hex n).address.data.toList.getD i 0 =
        uchar (gsmHex2ToByte hex (4 + i * 2)) := by
  have hdigits : ((len.toNat : Int) + 1).toNat = len.toNat + 1 := rfl
  rw [smsAddressFromHex, if_neg (by omega), hlen, htoa]
  simp only [hdigits, if_neg (show ¬n < 4 + (len.toNat + 1) / 2 * 2 by omega)]
  refine ⟨trivial, uchar_toNat len, uchar_toNat toa, fun i hi => ?_⟩
  exact (getD_foldl_stores _ _ _ i (by omega)).trans (if_pos hi)

theorem hexRoundTrip_iff_leftOutSpelled {address : SmsAddress} {hex : Nat → UInt8} {hexlen : Nat}
    (h : (smsAddressToHex address.toSmsAddressRec hex hexlen).1 ≤ hexlen) :
    HexRoundTrip address hex hexlen ↔ LeftOutSpelled address hex hexlen := by
  have hresult : (smsAddressToHex address.toSmsAddressRec hex hexlen).1 = (address.size + 2) * 2 := by
    rw [smsAddressToHex]
    split_ifs <;> rfl
  obtain ⟨hlen, htoa, hbyte⟩ := smsAddressToHex_spec h
  rw [HexRoundTrip]
  generalize (smsAddressToHex address.toSmsAddressRec hex hexlen).2 = out at *
  rw [hresult] at h ⊢
  have hread : ∀ (old : SmsAddressRec) (n : Nat), (address.size + 2) * 2 ≤ n →
      ((smsAddressFromHex old out n).result = 0 ∧
        (smsAddressFromHex old out n).address.Same address.toSmsAddressRec ↔
          ∀ i < address.size, uchar (gsmHex2ToByte out (4 + i * 2)) =
            address.data.toList.getD i 0) := by
    intro old n hn
    obtain ⟨hzero, hlen', htoa', hdata⟩ := smsAddressFromHex_spec hlen htoa address.fits hn old
    rw [and_iff_right hzero, same_iff hlen' htoa' address.fits]
    exact forall₂_congr fun i hi => by rw [hdata i hi]
  -- the bytes that were written read as themselves, the others as they were
  have hout : ∀ i, uchar (gsmHex2ToByte out (4 + i * 2)) =
      if i < (if 2 * address.size + 4 < hexlen then (address.size / 2 + 1) / 2 else address.size)
      then address.data.toList.getD i 0 else uchar (gsmHex2ToByte hex (4 + i * 2)) := by
    intro i
    rw [hbyte]
    split_ifs <;> first | rfl | rw [uchar_toNat]
  constructor
  · intro hall
    rw [LeftOutSpelled, or_iff_not_imp_left]
    intro hlong i hi hsize
    have hspelled := (hread address.toSmsAddressRec _ le_rfl).mp (hall _ _ le_rfl h) i hsize
    have hmore : 2 * address.size + 4 < hexlen := by omega
    rwa [hout, if_pos hmore, if_neg (by omega)] at hspelled
  · intro hleft old n hn _
    rw [hread old n hn]
    intro i hi
    rw [hout]
    by_cases hlong : 2 * address.size + 4 < hexlen
    · rw [if_pos hlong]
      split
      · rfl
      · next hwritten =>
        rcases hleft with hexact | hspelled
        · omega
        · exact hspelled i (by omega) hi
    · rw [if_neg hlong, if_pos hi]

theorem hexcharToInt_of_hex2ToByte {hex0 hex1 : UInt8} :
    Gsm.hex2ToByte hex0 hex1 ≠ none ↔
      Gsm.hexcharToInt hex0 ≠ none ∧ Gsm.hexcharToInt hex1 ≠ none := by
  rw [Gsm.hex2ToByte]
  cases Gsm.hexcharToInt hex0 <;> cases Gsm.hexcharToInt hex1 <;> simp

/-- The number of the bytes that a string announces. -/
def announced (hex : Nat → UInt8) : Nat := (gsmHex2ToByte hex 0 + 1).toNat / 2

theorem hexRefusedOrSafe_iff {hex : Nat → UInt8} {hexlen : Nat} (h : 4 ≤ hexlen) :
    HexRefusedOrSafe hex hexlen ↔ hexlen < 4 + 2 * announced hex ∨
      (∀ i < 4 + 2 * announced hex, Gsm.hexcharToInt (hex i) ≠ none) ∧
        announced hex ≤ smsAddressMaxSize := by
  by_cases hshort : hexlen < 4 + announced hex * 2
  · refine iff_of_true (fun old => Or.inl ?_) (Or.inl (by omega))
    rw [announced] at hshort
    simp only [smsAddressFromHex, if_neg (show ¬hexlen < 4 by omega), if_pos hshort]
  · have hread : ∀ old, (smsAddressFromHex old hex hexlen).result = 0 ∧
        (smsAddressFromHex old hex hexlen).stores =
          (List.range (announced hex)).map fun nn => (nn, uchar (gsmHex2ToByte hex (4 + nn * 2))) := by
      intro old
      rw [announced] at hshort ⊢
      simp only [smsAddressFromHex, if_neg (show ¬hexlen < 4 by omega), if_neg hshort, and_self]
    have hstores : ∀ old, (∀ store ∈ (smsAddressFromHex old hex hexlen).stores,
        store.1 < smsAddressMaxSize) ↔ announced hex ≤ smsAddressMaxSize := by
      intro old
      rw [(hread old).2]
      simp only [List.forall_mem_map, List.mem_range]
      constructor
      · intro hall
        by_contra hlt
        exact absurd (hall smsAddressMaxSize (by omega)) (lt_irrefl _)
      · intro hle nn hnn
        omega
    have hlength : ∀ old, (smsAddressFromHex old hex hexlen).stores.length = announced hex := by
      intro old
      rw [(hread old).2, List.length_map, List.length_range]
    have hresult : ∀ old, (smsAddressFromHex old hex hexlen).result ≠ -1 := by
      intro old
      rw [(hread old).1]
      decide
    simp only [HexRefusedOrSafe, hstores, hlength, hresult, false_or]
    rw [or_iff_right (by omega)]
    exact ⟨fun h => h ⟨0, 0, Vector.replicate _ 0⟩, fun h _ => h⟩

theorem hexRefusedOrSafe_iff_announces (hex : Nat → UInt8) (hexlen : Nat) :
    HexRefusedOrSafe hex hexlen ↔ Announces hex hexlen := by
  by_cases hshort : hexlen < 4
  · refine iff_of_true (fun old => Or.inl ?_) (Or.inl hshort)
    rw [smsAddressFromHex, if_pos hshort]
  rw [hexRefusedOrSafe_iff (by omega), Announces, or_iff_right hshort]
  cases hnum : Gsm.hex2ToByte (hex 0) (hex 1) with
  | none =>
    have hminus : gsmHex2ToByte hex 0 = -1 := by rw [gsmHex2ToByte, hnum]
    have hzero : announced hex = 0 := by rw [announced, hminus]; rfl
    refine iff_of_false (fun h => ?_) fun ⟨_, hsome, _⟩ => nomatch hsome
    rcases h with h | ⟨hall, -⟩
    · omega
    · exact hexcharToInt_of_hex2ToByte.mpr ⟨hall 0 (by omega), hall 1 (by omega)⟩ hnum
  | some numDigits =>
    have hdigits : gsmHex2ToByte hex 0 = numDigits.toNat := by rw [gsmHex2ToByte, hnum]
    have hlen : announced hex = (numDigits.toNat + 1) / 2 := by rw [announced, hdigits]; rfl
    obtain ⟨hfirst, hsecond⟩ := hexcharToInt_of_hex2ToByte.mp (hnum ▸ Option.some_ne_none _)
    have hmax : (numDigits.toNat + 1) / 2 ≤ smsAddressMaxSize ↔ numDigits ≤ 32 := by
      rw [smsAddressMaxSize, UInt8.le_iff_toNat_le]
      simp only [UInt8.reduceToNat]
      omega
    have hchars : (∀ i < 4 + 2 * ((numDigits.toNat + 1) / 2), Gsm.hexcharToInt (hex i) ≠ none) ↔
        ∀ i, 2 ≤ i → i < 4 + 2 * ((numDigits.toNat + 1) / 2) →
          Gsm.hexcharToInt (hex i) ≠ none := by
      refine ⟨fun h i _ hi => h i hi, fun h i hi => ?_⟩
      match i with
      | 0 => exact hfirst
      | 1 => exact hsecond
      | i + 2 => exact h (i + 2) (by omega) hi
    simp only [Option.some.injEq, exists_eq_left']
    rw [hlen, hmax, hchars, and_comm]

/-- Addresses of at most 32 digits come back exactly from a buffer of their own length, or one that
has their text already; a string is read safely exactly when it announces what it has. -/
theorem addressHex_iff (address : SmsAddress) (hex : Nat → UInt8) (hexlen : Nat) :
    ((smsAddressToHex address.toSmsAddressRec hex hexlen).1 ≤ hexlen →
      (HexRoundTrip address hex hexlen ↔ LeftOutSpelled address hex hexlen)) ∧
    (HexRefusedOrSafe hex hexlen ↔ Announces hex hexlen) :=
  ⟨hexRoundTrip_iff_leftOutSpelled, hexRefusedOrSafe_iff_announces hex hexlen⟩

/-- 34 digits are announced: a byte goes behind `data`. -/
theorem not_addressHex_kept :
    ¬((∀ (address : SmsAddress) (hex : Nat → UInt8) (hexlen : Nat),
      (smsAddressToHex address.toSmsAddressRec hex hexlen).1 ≤ hexlen →
        HexRoundTrip address hex hexlen) ∧
      ∀ (hex : Nat → UInt8) (hexlen : Nat), HexRefusedOrSafe hex hexlen) := by
  rintro ⟨-, hsafe⟩
  have hstring := hsafe (fun i => if i < 2 then 0x32 else 0x31) 38
  rw [hexRefusedOrSafe_iff (by decide)] at hstring
  have hannounced : announced (fun i => if i < 2 then 0x32 else 0x31) = 17 := by decide
  rw [hannounced] at hstring
  rcases hstring with hshort | ⟨-, hle⟩
  · exact absurd hshort (by decide)
  · exact absurd hle (by decide)

end RoundTrip

end M2M.Telephony
