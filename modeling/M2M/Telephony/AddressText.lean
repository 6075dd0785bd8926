import M2M.Telephony.DialNumbers
import M2M.Telephony.Sms

/-! `sms.c`: addresses as text and as bytes. -/

namespace M2M.Telephony

section ToStr

/-- `dialdigits`, whose last entry is the zero at the end of the literal. -/
def dialdigits : List UInt8 := Gsm.bcdDigits ++ [0x25, 0]

/-- `if (count < strlen) str[count] = c`. -/
def storeBelow (strlen count : Nat) (c : UInt8) (str : Nat → UInt8) : Nat → UInt8 :=
  if count < strlen then Function.update str count c else str

variable (address : SmsAddressRec) (strlen : Nat)

/-- The loop of `sms_address_to_str`: what is returned, and the memory from `str` on. -/
def addressToStrLoop : Nat → Nat → Nat → (Nat → UInt8) → Nat × (Nat → UInt8)
  | 0, _, count, str => (count, str)
  | rounds + 1, n, count, str =>
    if n < address.len.toNat then
      let c := (address.data.toList.getD (n / 2) 0).toNat
      let str := storeBelow strlen count (dialdigits.getD (c &&& 0xf) 0) str
      let count := count + 1
      if address.len.toNat < n + 1 then (count, str)
      else
        let str := storeBelow strlen count (dialdigits.getD (c >>> 4 &&& 0xf) 0) str
        addressToStrLoop rounds (n + 2) (if str count ≠ 0 then count + 1 else count) str
    else (count, str)

/-- `sms_address_to_str`, for an address whose digits are in its `data`. -/
def smsAddressToStr (str : Nat → UInt8) : Nat × (Nat → UInt8) :=
  if address.toa = 0x91 then
    addressToStrLoop address strlen address.size 0 1 (storeBelow strlen 0 0x2b str)
  else addressToStrLoop address strlen address.size 0 0 str

end ToStr

section Bytes

/-- `sms_address_from_bytes`: what is returned, and the address. -/
def smsAddressFromBytes (address : SmsAddressRec) (buf : Nat → UInt8) (buflen : Nat) :
    Int × SmsAddressRec :=
  if buflen < 2 then (-1, address)
  else
    let address := { address with len := buf 0, toa := buf 1 }
    let len := ((buf 0).toNat + 1) / 2
    if smsAddressMaxSize < len then (-1, address)
    else
      (0, { address with
        data := Vector.ofFn fun i => if i < len then buf (2 + i) else address.data.get i })

/-- `sms_address_to_bytes`: what is returned, and the memory from `buf` on.  A null `buf` is one of
no bytes. -/
def smsAddressToBytes (address : SmsAddressRec) (buf : Nat → UInt8) (bufsize : Nat) :
    Nat × (Nat → UInt8) :=
  let len := (address.len.toNat + 1) / 2 + 2
  if bufsize < 1 then (len, buf)
  else
    let buf := Function.update buf 0 address.len
    if bufsize < 2 then (len, buf)
    else
      let buf := Function.update buf 1 address.toa
      let bufsize := if len - 2 < bufsize - 2 then len - 2 else bufsize - 2
      (len, fun i =>
        if 2 ≤ i ∧ i < 2 + bufsize then address.data.toList.getD (i - 2) 0 else buf i)

end Bytes

section Nibbles

/-- The half bytes of `data`, the lower one of each byte first. -/
def nibbleAt (data : Vector UInt8 smsAddressMaxSize) (j : Nat) : Nat :=
  (data.toList.getD (j / 2) 0).toNat >>> (4 * (j % 2)) &&& 0xf

variable {data : Vector UInt8 smsAddressMaxSize} {j k : Nat}

theorem nibbleAt_eq (data : Vector UInt8 smsAddressMaxSize) (j : Nat) :
    nibbleAt data j = (data.toList.getD (j / 2) 0).toNat / 16 ^ (j % 2) % 16 := by
  rw [nibbleAt, Nat.shiftRight_eq_div_pow, Nat.pow_mul]
  exact Nat.and_two_pow_sub_one_eq_mod _ 4

theorem nibbleAt_even (hj : j % 2 = 0) :
    nibbleAt data j = (data.toList.getD (j / 2) 0).toNat &&& 0xf := by
  rw [nibbleAt, hj]
  rfl

theorem nibbleAt_succ_of_even (hj : j % 2 = 0) :
    nibbleAt data (j + 1) = (data.toList.getD (j / 2) 0).toNat >>> 4 &&& 0xf := by
  rw [nibbleAt, show (j + 1) % 2 = 1 by omega, show (j + 1) / 2 = j / 2 by omega]

theorem nibbleAt_replicate (j : Nat) : nibbleAt (Vector.replicate _ 0) j = 0 := by
  have hbyte : (Vector.replicate smsAddressMaxSize (0 : UInt8)).toList.getD (j / 2) 0 = 0 := by
    rw [Vector.toList_replicate, List.getD_eq_getElem?_getD, List.getElem?_replicate]
    split <;> rfl
  rw [nibbleAt_eq, hbyte, UInt8.toNat_zero, Nat.zero_div]

theorem getD_orAt (hk : k < smsAddressMaxSize) (mask : UInt8) (i : Nat) :
    (orAt data k mask).toList.getD i 0 =
      if i = k then data.toList.getD k 0 ||| mask else data.toList.getD i 0 := by
  rw [orAt, Vector.toList_setIfInBounds, List.getD_eq_getElem?_getD, List.getElem?_set,
    List.getD_eq_getElem?_getD, List.getD_eq_getElem?_getD]
  by_cases hi : i = k
  · subst hi
    rw [if_pos rfl, if_pos rfl, if_pos (by rwa [Vector.length_toList])]
    rfl
  · rw [if_neg (Ne.symm hi), if_neg hi]

theorem toNat_or_shiftLeft {b : UInt8} {c : Nat} (hc : c < 16) (hb : b.toNat < 16) :
    (b ||| UInt8.ofNat (c <<< 4)).toNat = 16 * c + b.toNat := by
  rw [UInt8.toNat_or, UInt8.toNat_ofNat', Nat.shiftLeft_eq, Nat.mod_eq_of_lt (by omega), Nat.or_comm,
    Nat.mul_comm]
  exact (Nat.two_pow_add_eq_or_of_lt (i := 4) hb c).symm

theorem nibbleAt_orAt {c : Nat} (hk : k < 32) (hc : c < 16)
    (hzero : ∀ j, k ≤ j → nibbleAt data j = 0) (j : Nat) :
    nibbleAt (orAt data (k / 2) (UInt8.ofNat (c <<< (4 * (k % 2))))) j =
      if j = k then c else nibbleAt data j := by
  have hin : k / 2 < smsAddressMaxSize := by
    rw [smsAddressMaxSize]
    omega
  have hbyte := (data.toList.getD (k / 2) 0).toNat_lt
  have hhigh := hzero (k / 2 * 2 + 1) (by omega)
  have hlow := hzero k le_rfl
  rw [nibbleAt_eq, show (k / 2 * 2 + 1) / 2 = k / 2 by omega,
    show (k / 2 * 2 + 1) % 2 = 1 by omega] at hhigh
  rw [nibbleAt_eq] at hlow
  rw [nibbleAt_eq, nibbleAt_eq, getD_orAt hin]
  by_cases hj : j / 2 = k / 2
  · rw [if_pos hj, hj]
    generalize data.toList.getD (k / 2) 0 = b at *
    rcases Nat.mod_two_eq_zero_or_one k with heven | hodd
    · rw [heven] at hlow ⊢
      have hb : b = 0 := UInt8.toNat_inj.mp (by rw [UInt8.toNat_zero]; omega)
      subst hb
      rw [UInt8.zero_or, UInt8.toNat_ofNat']
      rcases Nat.mod_two_eq_zero_or_one j with hj0 | hj1
      · rw [if_pos (by omega), hj0]
        omega
      · rw [if_neg (by omega), hj1]
        omega
    · rw [hodd, Nat.mul_one, toNat_or_shiftLeft hc (by omega)]
      rcases Nat.mod_two_eq_zero_or_one j with hj0 | hj1
      · rw [if_neg (by omega), hj0]
        omega
      · rw [if_pos (by omega), hj1]
        omega
  · rw [if_neg hj, if_neg (by omega)]

end Nibbles

section Spells

def IsDigit (c : UInt8) : Prop := 0x30 ≤ c ∧ c ≤ 0x39

theorem isDigit_iff {c : UInt8} : IsDigit c ↔ ¬10 ≤ c - 0x30 := by
  have hlt := c.toNat_lt
  simp only [IsDigit, UInt8.le_iff_toNat_le, UInt8.toNat_sub, UInt8.reduceToNat]
  omega

/-- The half bytes of the digits, with 15 behind an odd number of them. -/
structure HasDigits (data : Vector UInt8 smsAddressMaxSize) (digits : List UInt8) : Prop where
  nibble : ∀ (j : Nat) (c : UInt8), digits[j]? = some c → nibbleAt data j = (c - 0x30).toNat
  filler : digits.length % 2 = 1 → nibbleAt data digits.length = 15

theorem addressDigits_spec {data : Vector UInt8 smsAddressMaxSize} (src : List UInt8) {k : Nat}
    (hk : k ≤ 32) (hzero : ∀ j, k ≤ j → nibbleAt data j = 0) (hsrc : ∀ c ∈ src, IsDigit c)
    (hlen : k + src.length ≤ 32) :
    ∃ data', addressDigits src (k / 2) (4 * (k % 2)) k data = some (data', k + src.length) ∧
      (∀ j, j < k → nibbleAt data' j = nibbleAt data j) ∧
      (∀ (j : Nat) (c : UInt8), src[j]? = some c → nibbleAt data' (k + j) = (c - 0x30).toNat) ∧
      ((k + src.length) % 2 = 1 → nibbleAt data' (k + src.length) = 15) := by
  induction src generalizing k data with
  | nil =>
    rw [addressDigits]
    rcases Nat.mod_two_eq_zero_or_one k with heven | hodd
    · rw [heven, if_neg (by decide)]
      exact ⟨data, rfl, fun _ _ => rfl, fun _ _ h => by simp at h, fun h => by simp at h; omega⟩
    · have hput := nibbleAt_orAt (c := 15) (by omega : k < 32) (by decide) hzero
      rw [hodd] at hput ⊢
      rw [if_pos (by decide)]
      refine ⟨_, rfl, fun j hj => ?_, fun _ _ h => by simp at h, fun _ => ?_⟩
      · exact (hput j).trans (if_neg (by omega))
      · exact (hput k).trans (if_pos rfl)
  | cons b src ih =>
    obtain ⟨hb, hsrc⟩ := List.forall_mem_cons.mp hsrc
    rw [List.length_cons] at hlen
    have hdigit : ¬(10 ≤ b - 0x30 ∨ smsAddressMaxSize ≤ k / 2) :=
      not_or.mpr ⟨isDigit_iff.mp hb, by rw [smsAddressMaxSize]; omega⟩
    have hc : (b - 0x30).toNat < 16 := by
      rw [isDigit_iff, UInt8.le_iff_toNat_le] at hb
      simp only [UInt8.reduceToNat] at hb
      omega
    have hput := nibbleAt_orAt (by omega) hc hzero
    obtain ⟨data', hrun, hbelow, hat, hfill⟩ := ih (k := k + 1) (by omega)
      (fun j hj => (hput j).trans ((if_neg (by omega)).trans (hzero j (by omega)))) hsrc (by omega)
    rw [Nat.add_right_comm, Nat.add_assoc] at hrun hfill
    refine ⟨data', ?_, fun j hj => ?_, fun j c hj => ?_, hfill⟩
    · rw [addressDigits, if_neg hdigit, List.length_cons, ← hrun]
      rcases Nat.mod_two_eq_zero_or_one k with heven | hodd
      · rw [heven, if_neg (by decide), show (k + 1) / 2 = k / 2 by omega,
          show (k + 1) % 2 = 1 by omega]
      · rw [hodd, if_pos (by decide), show (k + 1) / 2 = k / 2 + 1 by omega,
          show (k + 1) % 2 = 0 by omega]
    · exact (hbelow j (by omega)).trans ((hput j).trans (if_neg (by omega)))
    · cases j with
      | zero =>
        cases hj
        exact (hbelow k (by omega)).trans ((hput k).trans (if_pos rfl))
      | succ j => 
        rw [← hat j c hj]
        congr 1
        omega

theorem digits_of_addressDigits {data : Vector UInt8 smsAddressMaxSize} (src : List UInt8) {k : Nat}
    (hk : k ≤ 32) (h : addressDigits src (k / 2) (4 * (k % 2)) k data ≠ none) :
    (∀ c ∈ src, IsDigit c) ∧ k + src.length ≤ 32 := by
  induction src generalizing k data with
  | nil => exact ⟨fun _ hc => (List.not_mem_nil hc).elim, hk⟩
  | cons b src ih =>
    rw [addressDigits] at h
    split at h
    · exact absurd rfl h
    · next hstored =>
      obtain ⟨hb, hin⟩ := not_or.mp hstored
      rw [smsAddressMaxSize] at hin
      have hrest : ∃ data', addressDigits src ((k + 1) / 2) (4 * ((k + 1) % 2)) (k + 1) data' ≠
          none := by
        rcases Nat.mod_two_eq_zero_or_one k with heven | hodd
        · rw [heven, if_neg (by decide)] at h
          rw [show (k + 1) / 2 = k / 2 by omega, show (k + 1) % 2 = 1 by omega]
          exact ⟨_, h⟩
        · rw [hodd, if_pos (by decide)] at h
          rw [show (k + 1) / 2 = k / 2 + 1 by omega, show (k + 1) % 2 = 0 by omega]
          exact ⟨_, h⟩
      obtain ⟨data', hrest⟩ := hrest
      obtain ⟨hdigits, hlen⟩ := ih (by omega) hrest
      refine ⟨List.forall_mem_cons.mpr ⟨isDigit_iff.mpr hb, hdigits⟩, ?_⟩
      rw [List.length_cons]
      omega

/-- The text of an address. -/
structure Spells (address : SmsAddressRec) (text : List UInt8) : Prop where
  digits : ∃ digits, text = (if address.toa = 0x91 then [0x2b] else []) ++ digits ∧
    (∀ c ∈ digits, IsDigit c) ∧ address.len.toNat = digits.length ∧ digits.length ≤ 32 ∧
    HasDigits address.data digits

/-- An optional + and 1 to 32 digits. -/
def AddressText (src : List UInt8) : Prop :=
  ∃ digits, (src = digits ∨ src = 0x2b :: digits) ∧ (∀ c ∈ digits, IsDigit c) ∧
    1 ≤ digits.length ∧ digits.length ≤ 32

end Spells

section Print

variable {address : SmsAddressRec} {strlen : Nat}

/-- The memory `str` with the bytes of `text` from `start` on. -/
def putAt (str : Nat → UInt8) (start : Nat) (text : List UInt8) : Nat → UInt8 := fun i =>
  if start ≤ i then text.getD (i - start) (str i) else str i

@[simp] theorem putAt_nil (str : Nat → UInt8) (start : Nat) : putAt str start [] = str := by
  funext i
  rw [putAt]
  split <;> rfl

theorem putAt_cons (str : Nat → UInt8) (start : Nat) (c : UInt8) (text : List UInt8) :
    putAt str start (c :: text) = putAt (Function.update str start c) (start + 1) text := by
  funext i
  rw [putAt, putAt]
  rcases Nat.lt_trichotomy i start with hlt | rfl | hgt
  · rw [if_neg (by omega), if_neg (by omega), Function.update_of_ne (by omega)]
  · rw [if_pos le_rfl, if_neg (by omega), Nat.sub_self, Function.update_self]
    rfl
  · rw [if_pos (by omega), if_pos (by omega), Function.update_of_ne (by omega),
      show i - start = i - (start + 1) + 1 by omega]
    rfl

theorem storeBelow_of_lt {count : Nat} (h : count < strlen) (c : UInt8) (str : Nat → UInt8) :
    storeBelow strlen count c str = Function.update str count c := if_pos h

theorem dialdigits_of_isDigit {c : UInt8} (h : IsDigit c) :
    dialdigits.getD (c - 0x30).toNat 0 = c := by
  have hall : ∀ d < 10, dialdigits.getD d 0 = UInt8.ofNat (d + 0x30) := by decide
  rw [IsDigit, UInt8.le_iff_toNat_le, UInt8.le_iff_toNat_le] at h
  simp only [UInt8.reduceToNat] at h
  have hsub : (c - 0x30).toNat = c.toNat - 0x30 :=
    UInt8.toNat_sub_of_le _ _ (UInt8.le_iff_toNat_le.mpr h.1)
  rw [hsub, hall _ (by omega), Nat.sub_add_cancel h.1, UInt8.ofNat_toNat]

theorem addressToStrLoop_spec {digits : List UInt8} (hdigits : HasDigits address.data digits)
    (hlen : address.len.toNat = digits.length) (hisDigit : ∀ c ∈ digits, IsDigit c)
    {rounds n count : Nat} (hn : n % 2 = 0) (hle : n ≤ digits.length)
    (hrounds : rounds = (digits.length - n + 1) / 2) (hcount : count + (digits.length - n) < strlen)
    (str : Nat → UInt8) :
    addressToStrLoop address strlen rounds n count str =
      (count + (digits.length - n),
        putAt str count (digits.drop n ++ List.replicate (digits.length % 2) 0)) := by
  induction rounds generalizing n count str with
  | zero =>
    have hall : n = digits.length := by omega
    rw [addressToStrLoop, ← hall, hn, hall, List.drop_length, Nat.sub_self, List.replicate_zero,
      List.append_nil, putAt_nil, Nat.add_zero]
  | succ rounds ih =>
    have hprint : ∀ (j : Nat) (hj : j < digits.length),
        dialdigits.getD (nibbleAt address.data j) 0 = digits[j] := by
      intro j hj
      rw [hdigits.nibble j _ (List.getElem?_eq_getElem hj)]
      exact dialdigits_of_isDigit (hisDigit _ (List.getElem_mem hj))
    have hlt : n < digits.length := by omega
    rw [addressToStrLoop, if_pos (by omega)]
    simp only [if_neg (show ¬address.len.toNat < n + 1 by omega), ← nibbleAt_even hn,
      ← nibbleAt_succ_of_even hn, hprint n hlt, storeBelow_of_lt (show count < strlen by omega),
      storeBelow_of_lt (show count + 1 < strlen by omega), Function.update_self]
    rw [List.drop_eq_getElem_cons hlt, List.cons_append, putAt_cons]
    by_cases hnext : n + 1 < digits.length
    · have hzero : digits[n + 1] ≠ 0 := by
        intro h
        have hdigit := hisDigit _ (List.getElem_mem hnext)
        rw [h] at hdigit
        exact absurd hdigit.1 (by decide)
      rw [hprint _ hnext, if_pos hzero, ih (by omega) hnext (by omega) (by omega),
        List.drop_eq_getElem_cons hnext, List.cons_append, putAt_cons]
      congr 1
      omega
    · have hlast : n + 1 = digits.length := by omega
      have hnibble : nibbleAt address.data (n + 1) = 15 :=
        hlast ▸ hdigits.filler (by omega)
      have hzero : dialdigits.getD 15 0 = 0 := rfl
      have hrounds : rounds = 0 := by omega
      rw [hnibble, hzero, if_neg (by simp), hrounds, addressToStrLoop,
        List.drop_eq_nil_of_le hlast.ge, show digits.length % 2 = 1 by omega,
        show digits.length - n = 1 by omega]
      rw [List.nil_append, List.replicate_one, putAt_cons, putAt_nil]

/-- The text is printed into a buffer of `strlen` bytes; of the bytes behind the text only the first
may change, to zero. -/
structure Prints (address : SmsAddressRec) (src : List UInt8) (strlen : Nat) (str : Nat → UInt8) :
    Prop where
  result : (smsAddressToStr address strlen str).1 = src.length
  text : ∀ (i : Nat) (c : UInt8), src[i]? = some c → (smsAddressToStr address strlen str).2 i = c
  next : (smsAddressToStr address strlen str).2 src.length = str src.length ∨
    (smsAddressToStr address strlen str).2 src.length = 0
  behind : ∀ i, src.length < i → (smsAddressToStr address strlen str).2 i = str i

theorem Spells.printed_eq {text : List UInt8} (h : Spells address text)
    (hlen : text.length < strlen) (str : Nat → UInt8) :
    ∃ zeros ≤ 1, smsAddressToStr address strlen str =
      (text.length, putAt str 0 (text ++ List.replicate zeros 0)) := by
  obtain ⟨digits, rfl, hisDigit, hcount, hle, hdigits⟩ := h.digits
  rw [List.length_append] at hlen
  have hrounds : address.size = (digits.length - 0 + 1) / 2 := by
    rw [SmsAddressRec.size, hcount, Nat.sub_zero]
  refine ⟨digits.length % 2, by omega, ?_⟩
  rw [smsAddressToStr]
  by_cases htoa : address.toa = 0x91
  · rw [if_pos htoa] at hlen ⊢
    rw [List.length_singleton] at hlen
    rw [if_pos htoa, storeBelow_of_lt (by omega), addressToStrLoop_spec hdigits hcount hisDigit rfl
      (Nat.zero_le _) hrounds (by omega), List.singleton_append, List.cons_append, putAt_cons,
      List.length_cons, Nat.sub_zero, Nat.add_comm, List.drop_zero]
  · rw [if_neg htoa] at hlen ⊢
    rw [List.length_nil] at hlen
    rw [if_neg htoa, addressToStrLoop_spec hdigits hcount hisDigit rfl (Nat.zero_le _) hrounds
      (by omega), List.nil_append, Nat.sub_zero, Nat.zero_add, List.drop_zero]

theorem Spells.prints {text : List UInt8} (h : Spells address text) (hlen : text.length < strlen)
    (str : Nat → UInt8) : Prints address text strlen str := by
  obtain ⟨zeros, hzeros, hprint⟩ := h.printed_eq hlen str
  have hat : ∀ i, (smsAddressToStr address strlen str).2 i =
      (text ++ List.replicate zeros 0).getD i (str i) := by
    intro i
    simp only [hprint, putAt, if_pos (Nat.zero_le i), Nat.sub_zero]
  refine ⟨by rw [hprint], fun i c hc => ?_, ?_, fun i hi => ?_⟩
  · have hi := (List.getElem?_eq_some_iff.mp hc).1
    rw [hat, List.getD_eq_getElem?_getD, List.getElem?_append_left hi, hc, Option.getD_some]
  · rw [hat, List.getD_eq_getElem?_getD, List.getElem?_append_right le_rfl, Nat.sub_self]
    obtain rfl | rfl : zeros = 0 ∨ zeros = 1 := by omega
    · exact Or.inl rfl
    · exact Or.inr rfl
  · have hnone : (text ++ List.replicate zeros 0)[i]? = none := by
      rw [List.getElem?_eq_none_iff, List.length_append, List.length_replicate]
      omega
    rw [hat, List.getD_eq_getElem?_getD, hnone, Option.getD_none]

end Print

section RoundTrip

variable {address : SmsAddressRec} {src : List UInt8}

theorem nibbleAt_congr {data data' : Vector UInt8 smsAddressMaxSize} {j : Nat}
    (h : data'.toList.getD (j / 2) 0 = data.toList.getD (j / 2) 0) :
    nibbleAt data' j = nibbleAt data j := by
  rw [nibbleAt, h, nibbleAt]

theorem smsAddressToBytes_spec {buf : Nat → UInt8} {bufsize : Nat}
    (hbuf : (smsAddressToBytes address buf bufsize).1 ≤ bufsize) :
    (smsAddressToBytes address buf bufsize).2 0 = address.len ∧
      (smsAddressToBytes address buf bufsize).2 1 = address.toa ∧
      ∀ i < address.size, (smsAddressToBytes address buf bufsize).2 (2 + i) =
        address.data.toList.getD i 0 := by
  have hresult : (smsAddressToBytes address buf bufsize).1 = address.size + 2 := by
    rw [smsAddressToBytes]
    split_ifs <;> rfl
  rw [hresult] at hbuf
  rw [smsAddressToBytes, if_neg (by omega), if_neg (by omega), ← SmsAddressRec.size]
  dsimp only
  refine ⟨?_, ?_, fun i hi => ?_⟩
  · rw [if_neg (by omega), Function.update_of_ne (by decide), Function.update_self]
  · rw [if_neg (by omega), Function.update_self]
  · rw [if_pos ⟨by omega, by split <;> omega⟩, Nat.add_sub_cancel_left]

theorem Spells.ofBytes (h : Spells address src) {buf : Nat → UInt8} {bufsize : Nat}
    (hbuf : (smsAddressToBytes address buf bufsize).1 ≤ bufsize) (old : SmsAddressRec)
    {buflen : Nat} (hbuflen : 2 ≤ buflen) :
    ∃ address', smsAddressFromBytes old (smsAddressToBytes address buf bufsize).2 buflen =
      (0, address') ∧ Spells address' src := by
  obtain ⟨digits, hsrc, hisDigit, hcount, hle, hdigits⟩ := h.digits
  obtain ⟨hlen, htoa, hdata⟩ := smsAddressToBytes_spec hbuf
  generalize (smsAddressToBytes address buf bufsize).2 = bytes at *
  have hsize : address.size ≤ smsAddressMaxSize := by
    rw [SmsAddressRec.size, smsAddressMaxSize]
    omega
  rw [smsAddressFromBytes, if_neg (by omega), hlen, htoa, ← SmsAddressRec.size,
    if_neg (by omega)]
  refine ⟨_, rfl, digits, hsrc, hisDigit, hcount, hle, ?_⟩
  have hbyte : ∀ i < address.size, (Vector.ofFn fun i : Fin smsAddressMaxSize =>
      if i < address.size then bytes (2 + i) else old.data.get i).toList.getD i 0 =
        address.data.toList.getD i 0 := by
    intro i hi
    rw [Vector.toList_ofFn, List.getD_eq_getElem?_getD, List.getElem?_ofFn, dif_pos (by omega),
      Option.getD_some, if_pos hi, hdata i hi]
  have hsize' : address.size = (digits.length + 1) / 2 := by rw [SmsAddressRec.size, hcount]
  constructor
  · intro j c hj
    have hlt := (List.getElem?_eq_some_iff.mp hj).1
    exact (nibbleAt_congr (hbyte _ (by omega))).trans (hdigits.nibble j c hj)
  · intro hodd
    exact (nibbleAt_congr (hbyte _ (by omega))).trans (hdigits.filler hodd)

def addressOf (toa : UInt8) (number : List UInt8) : Option SmsAddressRec :=
  (addressDigits number 0 0 0 (Vector.replicate _ 0)).map fun read =>
    { len := .ofNat read.2, toa, data := read.1 }

theorem smsAddressFromStr_plus {number : List UInt8} (hne : number ≠ []) :
    smsAddressFromStr (0x2b :: number) = addressOf 0x91 number := if_neg hne

theorem smsAddressFromStr_of_ne (hne : src ≠ []) (hplus : ∀ number, src ≠ 0x2b :: number) :
    smsAddressFromStr src = addressOf 0x81 src := by
  rw [smsAddressFromStr]
  · rw [if_neg hne]
    rfl
  · exact hplus

theorem addressOf_spells (toa : UInt8) {digits : List UInt8} (hisDigit : ∀ c ∈ digits, IsDigit c)
    (hle : digits.length ≤ 32) :
    ∃ address, addressOf toa digits = some address ∧
      Spells address ((if toa = 0x91 then [0x2b] else []) ++ digits) := by
  obtain ⟨data, hrun, -, hnibble, hfill⟩ := addressDigits_spec (k := 0) digits (Nat.zero_le _)
    (fun j _ => nibbleAt_replicate j) hisDigit (by omega)
  have hlen : (UInt8.ofNat digits.length).toNat = digits.length :=
    UInt8.toNat_ofNat_of_lt' (by rw [UInt8.size]; omega)
  simp only [Nat.zero_add] at hrun hnibble hfill
  refine ⟨{ len := .ofNat digits.length, toa, data }, ?_, digits, rfl, hisDigit, hlen, hle, hnibble,
    hfill⟩
  exact congrArg (Option.map _) hrun

theorem digits_of_addressOf {toa : UInt8} {number : List UInt8} (h : addressOf toa number ≠ none) :
    (∀ c ∈ number, IsDigit c) ∧ number.length ≤ 32 := by
  have hrun : addressDigits number (0 / 2) (4 * (0 % 2)) 0
      (Vector.replicate smsAddressMaxSize 0) ≠ none := fun hnone => h (congrArg (Option.map _) hnone)
  have hdigits := digits_of_addressDigits number (Nat.zero_le _) hrun
  rwa [Nat.zero_add] at hdigits

theorem smsAddressFromStr_spells (h : AddressText src) :
    ∃ address, smsAddressFromStr src = some address ∧ Spells address src := by
  obtain ⟨digits, hsrc, hisDigit, hpos, hle⟩ := h
  have hne : digits ≠ [] := List.length_pos_iff.mp hpos
  rcases hsrc with rfl | rfl
  · have hplus : ∀ number, src ≠ 0x2b :: number := by
      rintro number rfl
      exact absurd (hisDigit _ List.mem_cons_self).1 (by decide)
    rw [smsAddressFromStr_of_ne hne hplus]
    exact addressOf_spells 0x81 hisDigit hle
  · rw [smsAddressFromStr_plus hne]
    exact addressOf_spells 0x91 hisDigit hle

theorem addressText_of_smsAddressFromStr (h : smsAddressFromStr src ≠ none) : AddressText src := by
  have hsrc : src ≠ [] := by
    rintro rfl
    exact h rfl
  by_cases hplus : ∃ number, src = 0x2b :: number
  · obtain ⟨number, rfl⟩ := hplus
    have hne : number ≠ [] := by
      rintro rfl
      exact h rfl
    rw [smsAddressFromStr_plus hne] at h
    obtain ⟨hisDigit, hle⟩ := digits_of_addressOf h
    exact ⟨number, Or.inr rfl, hisDigit, List.length_pos_iff.mpr hne, hle⟩
  · rw [smsAddressFromStr_of_ne hsrc fun number hnumber => hplus ⟨number, hnumber⟩] at h
    obtain ⟨hisDigit, hle⟩ := digits_of_addressOf h
    exact ⟨src, Or.inl rfl, hisDigit, List.length_pos_iff.mpr hsrc, hle⟩

/-- Addresses are read from the texts of numbers only, and print as the same text again, also after
they went through bytes. -/
structure AddressTextKept (src : List UInt8) : Prop where
  accepted : (smsAddressFromStr src).isSome ↔ AddressText src
  printed : ∀ address ∈ smsAddressFromStr src, ∀ strlen str, src.length < strlen →
    Prints address src strlen str
  bytes : ∀ address ∈ smsAddressFromStr src, ∀ buf bufsize,
    (smsAddressToBytes address buf bufsize).1 ≤ bufsize → ∀ old buflen,
    (smsAddressToBytes address buf bufsize).1 ≤ buflen →
    ∃ address', smsAddressFromBytes old (smsAddressToBytes address buf bufsize).2 buflen =
      (0, address') ∧ ∀ strlen str, src.length < strlen → Prints address' src strlen str

theorem addressText_kept (src : List UInt8) : AddressTextKept src := by
  have hsome : (smsAddressFromStr src).isSome ↔ AddressText src := by
    rw [Option.isSome_iff_ne_none]
    refine ⟨addressText_of_smsAddressFromStr, fun h => ?_⟩
    obtain ⟨address, hread, -⟩ := smsAddressFromStr_spells h
    rw [hread]
    exact Option.some_ne_none _
  have hspells : ∀ address ∈ smsAddressFromStr src, Spells address src := by
    intro address hread
    obtain ⟨address', hread', hspells⟩ :=
      smsAddressFromStr_spells (hsome.mp (Option.isSome_of_mem hread))
    exact Option.some.inj (hread'.symm.trans hread) ▸ hspells
  refine ⟨hsome, fun address hread strlen str hlen => (hspells address hread).prints hlen str, ?_⟩
  intro address hread buf bufsize hbuf old buflen hbuflen
  have htwo : 2 ≤ (smsAddressToBytes address buf bufsize).1 := by
    rw [smsAddressToBytes]
    split_ifs <;> exact Nat.le_add_left 2 _
  obtain ⟨address', hbytes, hspells'⟩ :=
    (hspells address hread).ofBytes hbuf old (htwo.trans hbuflen)
  exact ⟨address', hbytes, fun strlen str hlen => hspells'.prints hlen str⟩

end RoundTrip

end M2M.Telephony
