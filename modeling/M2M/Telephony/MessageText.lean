import M2M.Telephony.AddressHex
import M2M.Telephony.Ucs2

/-! `sms.c`: the text of a message with its control characters quoted. -/

open M2M.Telephony.GsmRope

namespace M2M.Telephony

section Source

/-- `count`, and the memory from the destination on. -/
structure MessageDest where
  count : Nat
  bytes : Nat → UInt8

namespace MessageDest

/-! A destination of `size` bytes.  A null one has none. -/

variable (size : Nat) (dest : MessageDest)

/-- `if (count < size) dest[count] = b; count += 1`. -/
def put (b : UInt8) : MessageDest where
  count := dest.count + 1
  bytes := if dest.count < size then Function.update dest.bytes dest.count b else dest.bytes

/-- A character written as it is.  The first of three bytes is made with `0xc0`. -/
def putChar (c : Int) : MessageDest :=
  if c < 128 then dest.put size (uchar c)
  else if c < 0x800 then
    (dest.put size (UInt8.ofNat (0xc0 ||| c.toNat >>> 6 &&& 0x1f))).put size
      (UInt8.ofNat (0x80 ||| c.toNat &&& 0x3f))
  else
    ((dest.put size (UInt8.ofNat (0xc0 ||| c.toNat >>> 12 &&& 0xf))).put size
      (UInt8.ofNat (0x80 ||| c.toNat >>> 6 &&& 0x3f))).put size
      (UInt8.ofNat (0x80 ||| c.toNat &&& 0x3f))

/-- `case 1`, with two hexadecimal digits. -/
def putHex (c : Int) : MessageDest where
  count := dest.count + 4
  bytes :=
    if dest.count + 3 < size then
      gsmHexFromByte (copyTo dest.count [0x5c, 0x78] dest.bytes) (dest.count + 2) (uchar c)
    else dest.bytes

/-- The last case, with one character. -/
def putEscaped (c : UInt8) : MessageDest where
  count := dest.count + 2
  bytes := if dest.count + 2 < size then copyTo dest.count [0x5c, c] dest.bytes else dest.bytes

/-- What a round of `sms_utf8_to_message_str` writes. -/
def putQuoted (c : Int) : MessageDest :=
  if c < 0x20 then if c = 0x0a then dest.putEscaped size 0x6e else dest.putHex size c
  else if c = 0x5c then dest.putEscaped size 0x5c
  else dest.putChar size c

end MessageDest

/-- The character that starts with byte `b`, and the bytes left.  One byte behind a lead byte is
passed over, and `c` is an `int`. -/
def messageNext (b : UInt8) (p : List UInt8) : Int × List UInt8 :=
  if 128 ≤ b.toNat then
    let next := Gsm.utf8Tail (Gsm.Utf8Char.payload b) (p.drop 1)
    (Int.bmod next.1 (2 ^ 32), next.2)
  else (b.toNat, p)

def gsmHex4ToShort (hex0 hex1 hex2 hex3 : UInt8) : Option Nat := do
  let hi ← Gsm.hex2ToByte hex0 hex1
  let lo ← Gsm.hex2ToByte hex2 hex3
  return hi.toNat <<< 8 ||| lo.toNat

/-- The character behind a backslash, and the bytes left. -/
def unescape (c : Int) (p : List UInt8) : Option (Int × List UInt8) :=
  if c = 0x5c then some (c, p)
  else if c = 0x6e then some (10, p)
  else if c = 0x78 then
    match p with
    | hex0 :: hex1 :: p => (Gsm.hex2ToByte hex0 hex1).map fun c => (c.toNat, p)
    | _ => none
  else if c = 0x75 then
    match p with
    | hex0 :: hex1 :: hex2 :: hex3 :: p =>
      (gsmHex4ToShort hex0 hex1 hex2 hex3).map fun c => (c, p)
    | _ => none
  else none

/-- The loop of `sms_utf8_from_message_str`. -/
def fromMessageLoop (size : Nat) :
    Nat → List UInt8 → Bool → MessageDest → Int × (Nat → UInt8)
  | fuel + 1, b :: p, escaped, dest =>
    let next := messageNext b p
    if escaped then
      match unescape next.1 next.2 with
      | none => (-1, dest.bytes)
      | some (c, p) => fromMessageLoop size fuel p false (dest.putChar size c)
    else if next.1 = 0x5c then fromMessageLoop size fuel next.2 true dest
    else fromMessageLoop size fuel next.2 false (dest.putChar size next.1)
  | _, _, escaped, dest => (if escaped then -1 else dest.count, dest.bytes)

/-- `sms_utf8_from_message_str`: what it returns, and the memory from `utf8` on.  Each round takes
a byte at least. -/
def smsUtf8FromMessageStr (str : List UInt8) (utf8len : Nat) (utf8 : Nat → UInt8) :
    Int × (Nat → UInt8) :=
  fromMessageLoop utf8len str.length str false ⟨0, utf8⟩

/-- The loop of `sms_utf8_to_message_str`. -/
def toMessageLoop (size : Nat) : Nat → List UInt8 → MessageDest → MessageDest
  | fuel + 1, b :: p, dest =>
    toMessageLoop size fuel (messageNext b p).2 (dest.putQuoted size (messageNext b p).1)
  | _, _, dest => dest

/-- `sms_utf8_to_message_str`: what it returns is the count, and the memory from `str` on. -/
def smsUtf8ToMessageStr (utf8 : List UInt8) (strlen : Nat) (str : Nat → UInt8) : MessageDest :=
  toMessageLoop strlen utf8.length utf8 ⟨0, str⟩

end Source

section Length

variable {size size' : Nat} {dest dest' : MessageDest}

theorem count_putChar_congr (h : dest.count = dest'.count) (c : Int) :
    (dest.putChar size c).count = (dest'.putChar size' c).count := by
  rw [MessageDest.putChar, MessageDest.putChar]
  split
  · exact congrArg (· + 1) h
  split
  · exact congrArg (· + 1 + 1) h
  · exact congrArg (· + 1 + 1 + 1) h

theorem count_putQuoted_congr (h : dest.count = dest'.count) (c : Int) :
    (dest.putQuoted size c).count = (dest'.putQuoted size' c).count := by
  rw [MessageDest.putQuoted, MessageDest.putQuoted]
  split
  · split
    · exact congrArg (· + 2) h
    · exact congrArg (· + 4) h
  split
  · exact congrArg (· + 2) h
  · exact count_putChar_congr h c

theorem fromMessageLoop_fst (h : dest.count = dest'.count) (fuel : Nat) (str : List UInt8)
    (escaped : Bool) : (fromMessageLoop size fuel str escaped dest).1 =
      (fromMessageLoop size' fuel str escaped dest').1 := by
  induction fuel generalizing str escaped dest dest' with
  | zero =>
    change (if escaped then -1 else (dest.count : Int)) = _
    rw [h]
    rfl
  | succ fuel ih =>
    cases str with
    | nil =>
      change (if escaped then -1 else (dest.count : Int)) = _
      rw [h]
      rfl
    | cons b p =>
      rw [fromMessageLoop, fromMessageLoop]
      split
      · cases unescape (messageNext b p).1 (messageNext b p).2 with
        | none => rfl
        | some next => exact ih (count_putChar_congr h next.1) next.2 false
      split
      · exact ih h _ true
      · exact ih (count_putChar_congr h _) _ false

theorem toMessageLoop_count (h : dest.count = dest'.count) (fuel : Nat) (utf8 : List UInt8) :
    (toMessageLoop size fuel utf8 dest).count = (toMessageLoop size' fuel utf8 dest').count := by
  induction fuel generalizing utf8 dest dest' with
  | zero => exact h
  | succ fuel ih =>
    cases utf8 with
    | nil => exact h
    | cons b p => exact ih (count_putQuoted_congr h _) _

@[simp] theorem put_zero (b : UInt8) : (dest.put 0 b).bytes = dest.bytes := rfl

@[simp] theorem bytes_putChar_zero (c : Int) : (dest.putChar 0 c).bytes = dest.bytes := by
  rw [MessageDest.putChar]
  split
  · rfl
  split <;> rfl

@[simp] theorem bytes_putQuoted_zero (c : Int) : (dest.putQuoted 0 c).bytes = dest.bytes := by
  rw [MessageDest.putQuoted]
  split
  · split <;> rfl
  split
  · rfl
  · exact bytes_putChar_zero c

theorem fromMessageLoop_zero (fuel : Nat) (str : List UInt8) (escaped : Bool) :
    (fromMessageLoop 0 fuel str escaped dest).2 = dest.bytes := by
  fun_induction fromMessageLoop 0 fuel str escaped dest with
  | case1 => rfl
  | case2 fuel b p dest next c q hunescape ih => rw [ih, bytes_putChar_zero]
  | case3 fuel b p escaped dest next hescaped hbackslash ih => exact ih
  | case4 fuel b p escaped dest next hescaped hplain ih => rw [ih, bytes_putChar_zero]
  | case5 => rfl

theorem toMessageLoop_zero (fuel : Nat) (utf8 : List UInt8) :
    (toMessageLoop 0 fuel utf8 dest).bytes = dest.bytes := by
  induction fuel generalizing utf8 dest with
  | zero => rfl
  | succ fuel ih =>
    cases utf8 with
    | nil => rfl
    | cons b p => rw [toMessageLoop, ih, bytes_putQuoted_zero]

end Length

section Room

/-! With enough room, all that is counted is written. -/

namespace MessageDest

variable {size : Nat} (dest : MessageDest)

/-- `bytes` written behind what is there. -/
def append (bytes : List UInt8) : MessageDest where
  count := dest.count + bytes.length
  bytes := copyTo dest.count bytes dest.bytes

@[simp] theorem append_nil : dest.append [] = dest := by
  rw [append, copyTo_nil]
  rfl

@[simp] theorem append_append (a b : List UInt8) :
    (dest.append a).append b = dest.append (a ++ b) := by
  rw [append, append, append, copyTo_copyTo, List.length_append, Nat.add_assoc]

variable {dest}

theorem put_eq (h : dest.count < size) (b : UInt8) : dest.put size b = dest.append [b] := by
  rw [put, if_pos h, update_eq_copyTo]
  rfl

theorem putChar_of_lt {v : Nat} (hv : v < 128) : dest.putChar size v = dest.put size (uchar v) :=
  if_pos (by omega)

theorem count_append (bytes : List UInt8) :
    (dest.append bytes).count = dest.count + bytes.length := rfl

/-- What a round of `sms_utf8_to_message_str` writes for a character of less than eleven bits. -/
def quoted (c : Nat) : List UInt8 :=
  if c < 0x20 then
    if c = 0x0a then [0x5c, 0x6e]
    else
      [0x5c, 0x78, hexdigits.getD ((uchar c).toNat >>> 4 &&& 15) 0,
        hexdigits.getD ((uchar c).toNat &&& 15) 0]
  else if c = 0x5c then [0x5c, 0x5c]
  else if c < 128 then [uchar c]
  else [UInt8.ofNat (0xc0 ||| c >>> 6 &&& 0x1f), UInt8.ofNat (0x80 ||| c &&& 0x3f)]

theorem putHex_eq {c : Int} (h : dest.count + 4 ≤ size) :
    dest.putHex size c = dest.append [0x5c, 0x78, hexdigits.getD ((uchar c).toNat >>> 4 &&& 15) 0,
      hexdigits.getD ((uchar c).toNat &&& 15) 0] := by
  generalize hhigh : hexdigits.getD ((uchar c).toNat >>> 4 &&& 15) 0 = high
  generalize hlow : hexdigits.getD ((uchar c).toNat &&& 15) 0 = low
  have hfirst := copyTo_copyTo dest.count dest.bytes [0x5c, 0x78] [high]
  have hsecond := copyTo_copyTo dest.count dest.bytes [0x5c, 0x78, high] [low]
  rw [putHex, if_pos (by omega), gsmHexFromByte, hhigh, hlow, update_eq_copyTo, update_eq_copyTo]
  exact congrArg (MessageDest.mk _)
    ((congrArg (copyTo (dest.count + 2 + 1) [low]) hfirst).trans hsecond)

theorem putQuoted_eq {c : Nat} (hc : c < 0x400) (h : dest.count + (quoted c).length < size) :
    dest.putQuoted size c = dest.append (quoted c) := by
  rw [putQuoted]
  unfold quoted at h ⊢
  by_cases hcontrol : c < 0x20
  · rw [if_pos hcontrol] at h
    rw [if_pos hcontrol, if_pos (by omega)]
    by_cases hnewline : c = 0x0a
    · rw [if_pos hnewline] at h
      have hroom : dest.count + 2 < size := h
      rw [if_pos hnewline, if_pos (by omega), putEscaped, if_pos hroom]
      rfl
    · rw [if_neg hnewline] at h
      rw [if_neg hnewline, if_neg (by omega), putHex_eq (Nat.le_of_lt h)]
  rw [if_neg hcontrol] at h
  rw [if_neg hcontrol, if_neg (by omega)]
  by_cases hbackslash : c = 0x5c
  · rw [if_pos hbackslash] at h
    have hroom : dest.count + 2 < size := h
    rw [if_pos hbackslash, if_pos (by omega), putEscaped, if_pos hroom]
    rfl
  rw [if_neg hbackslash] at h
  rw [if_neg hbackslash, if_neg (by omega), putChar]
  by_cases hone : c < 128
  · rw [if_pos hone, List.length_singleton] at h
    rw [if_pos hone, if_pos (by omega), put_eq (by omega)]
  · rw [if_neg hone] at h
    have hroom : dest.count + 2 < size := h
    have hfirst : ∀ b, dest.put size b = dest.append [b] := put_eq (by omega)
    rw [if_neg hone, if_neg (by omega), if_pos (by omega), hfirst,
      put_eq (by rw [count_append, List.length_singleton]; omega), append_append]
    rfl

theorem count_putQuoted {c : Nat} (hc : c < 0x400) :
    (dest.putQuoted size c).count = dest.count + (quoted c).length := by
  have hroom : dest.count + (quoted c).length < dest.count + (quoted c).length + 1 :=
    Nat.lt_succ_self _
  have hsame : (dest.putQuoted size c).count =
      (dest.putQuoted (dest.count + (quoted c).length + 1) c).count :=
    count_putQuoted_congr rfl c
  rw [hsame, putQuoted_eq hc hroom, count_append]

end MessageDest

end Room

section RoundTrip

open MessageDest

/-- The number that `sms_utf8_to_message_str` takes a character for. -/
def misread (c : Nat) : Nat :=
  if c < 0x80 then c else if c < 0x800 then c / 64 else c / 4096 * 64 + c % 64

def kept (c : Nat) : UInt8 := if c < 128 then uchar c else uchar (c / 64 : Nat)

/-- A character up to U+FFFF. -/
abbrev BasicChar := { c : Char // c.toNat < 0x10000 }

def encodeBasic (text : List BasicChar) : List UInt8 := Gsm.encode (text.map Subtype.val)

theorem misread_lt (c : BasicChar) : misread c.val.toNat < 0x400 := by
  have h := c.property
  rw [misread]
  split
  · omega
  split <;> omega

theorem bmod_of_lt {v : Nat} (hv : v < 0x400) : Int.bmod v (2 ^ 32) = v := by
  rw [Int.bmod_def]
  omega

theorem messageNext_encode (c : BasicChar) (text : List BasicChar) :
    ∃ b p, encodeBasic (c :: text) = b :: p ∧
      messageNext b p = (((misread c.val.toNat : Nat) : Int), encodeBasic text) := by
  obtain ⟨c, hc⟩ := c
  have hmod : ∀ n, n % 64 < 64 := fun n => Nat.mod_lt n (by decide)
  have hval : c.toNat = c.val.toNat := rfl
  rw [encodeBasic, List.map_cons, Gsm.encode_cons, misread, hval]
  rw [hval] at hc
  fun_cases String.utf8EncodeChar c with
  | case1 v h =>
    have hb := (Gsm.lead_one v (by omega)).1
    refine ⟨_, _, rfl, ?_⟩
    rw [messageNext, hb, if_neg (by omega), if_pos (by omega)]
    rfl
  | case2 v _ h =>
    obtain ⟨hb, -⟩ := Gsm.lead_two (v / 64 % 32) (by omega)
    have hpayload := (Gsm.following_two (v / 64 % 32) (by omega)).2
    refine ⟨_, _, rfl, ?_⟩
    rw [messageNext, if_pos hb, hpayload]
    change (Int.bmod (Gsm.utf8Tail _ (Gsm.encode _)).1 _, (Gsm.utf8Tail _ (Gsm.encode _)).2) = _
    rw [Gsm.utf8Tail_encode, bmod_of_lt (by omega), if_neg (by omega), if_pos (by omega),
      Nat.mod_eq_of_lt (by omega : v / 64 < 32)]
    rfl
  | case3 v _ _ h =>
    obtain ⟨hb, -⟩ := Gsm.lead_three (v / 4096 % 16) (by omega)
    have hpayload := (Gsm.following_three (v / 4096 % 16) (by omega)).2
    refine ⟨_, _, rfl, ?_⟩
    rw [messageNext, if_pos hb, hpayload]
    change (Int.bmod (Gsm.utf8Tail _ (UInt8.ofNat (v % 64 + 0x80) :: Gsm.encode _)).1 _,
      (Gsm.utf8Tail _ (UInt8.ofNat (v % 64 + 0x80) :: Gsm.encode _)).2) = _
    rw [Gsm.utf8Tail_continuation _ (hmod v), Gsm.utf8Tail_encode, bmod_of_lt (by omega),
      if_neg (by omega), if_neg (by omega), Nat.mod_eq_of_lt (by omega : v / 4096 < 16)]
    rfl
  | case4 v => omega

def quotedText (text : List BasicChar) : List UInt8 :=
  text.flatMap fun c => quoted (misread c.val.toNat)

@[simp] theorem quotedText_cons (c : BasicChar) (text : List BasicChar) :
    quotedText (c :: text) = quoted (misread c.val.toNat) ++ quotedText text := rfl

theorem toMessageLoop_encode {size fuel : Nat} {text : List BasicChar} {dest : MessageDest}
    (hfuel : text.length ≤ fuel) :
    (toMessageLoop size fuel (encodeBasic text) dest).count =
        dest.count + (quotedText text).length ∧
      (dest.count + (quotedText text).length < size →
        toMessageLoop size fuel (encodeBasic text) dest = dest.append (quotedText text)) := by
  induction text generalizing fuel dest with
  | nil =>
    have hdone : toMessageLoop size fuel (encodeBasic []) dest = dest := by cases fuel <;> rfl
    rw [hdone]
    exact ⟨rfl, fun _ => append_nil dest |>.symm⟩
  | cons c text ih =>
    obtain ⟨fuel, rfl⟩ : ∃ f, fuel = f + 1 :=
      Nat.exists_eq_succ_of_ne_zero (by rw [List.length_cons] at hfuel; omega)
    obtain ⟨b, p, hbytes, hnext⟩ := messageNext_encode c text
    obtain ⟨hcount, happend⟩ := @ih fuel (dest.putQuoted size (misread c.val.toNat))
      (Nat.le_of_succ_le_succ hfuel)
    rw [MessageDest.count_putQuoted (misread_lt c)] at hcount happend
    rw [hbytes, toMessageLoop, hnext, quotedText_cons, List.length_append]
    refine ⟨by rw [hcount, Nat.add_assoc], fun hroom => ?_⟩
    rw [happend (by omega), putQuoted_eq (misread_lt c) (by omega), append_append]

theorem uchar_natCast (c : Nat) : uchar (c : Int) = UInt8.ofNat c := by
  apply UInt8.toNat_inj.mp
  rw [uchar, UInt8.toNat_ofNat', UInt8.toNat_ofNat']
  omega

theorem twoBytes_lead {c : Nat} (hc : c < 0x400) :
    UInt8.ofNat (0xc0 ||| c >>> 6 &&& 0x1f) = UInt8.ofNat (c / 64 + 0xc0) := by
  have hbits : c >>> 6 &&& 0x1f = c / 64 := by
    rw [Nat.shiftRight_eq_div_pow]
    exact (Nat.and_two_pow_sub_one_eq_mod _ 5).trans (Nat.mod_eq_of_lt (by omega))
  rw [hbits, Gsm.or_lead_two _ (by omega)]

theorem head_quoted {c : Nat} (hc : c < 0x400) :
    ∃ b bs, quoted c = b :: bs ∧ b &&& 0xc0 ≠ 0x80 := by
  rw [quoted]
  split
  · split <;> exact ⟨_, _, rfl, by decide⟩
  split
  · exact ⟨_, _, rfl, by decide⟩
  split
  · next hone =>
    rw [uchar_natCast]
    exact ⟨_, _, rfl, (Gsm.lead_one c hone).2⟩
  · rw [twoBytes_lead hc]
    exact ⟨_, _, rfl, (Gsm.lead_two (c / 64) (by omega)).2.1⟩

theorem utf8Tail_quotedText (v : Nat) (text : List BasicChar) :
    Gsm.utf8Tail v (quotedText text) = (v, quotedText text) := by
  cases text with
  | nil => rfl
  | cons c text =>
    obtain ⟨b, bs, hbytes, hb⟩ := head_quoted (misread_lt c)
    rw [quotedText_cons, hbytes, List.cons_append, Gsm.utf8Tail, if_neg hb]

theorem unescape_hex {c : Nat} (hc : c < 0x20) (p : List UInt8) :
    unescape 0x78 (hexdigits.getD ((uchar c).toNat >>> 4 &&& 15) 0 ::
      hexdigits.getD ((uchar c).toNat &&& 15) 0 :: p) = some ((c : Int), p) := by
  have hvalue : ((uchar c).toNat : Int) = c := by
    rw [uchar_natCast, UInt8.toNat_ofNat']
    omega
  change (Gsm.hex2ToByte _ _).map _ = _
  rw [hex2ToByte_hexdigits, Option.map_some, hvalue]

theorem fromMessageLoop_escaped {size fuel : Nat} {dest : MessageDest} {b : UInt8}
    {p q : List UInt8} {c : Int}
    (h : unescape (messageNext b p).1 (messageNext b p).2 = some (c, q)) :
    fromMessageLoop size (fuel + 1) (b :: p) true dest =
      fromMessageLoop size fuel q false (dest.putChar size c) := by
  rw [fromMessageLoop]
  simp only [if_true, h]

theorem messageNext_one {c : Nat} (hc : c < 128) (p : List UInt8) :
    messageNext (uchar c) p = ((c : Int), p) := by
  rw [uchar_natCast, messageNext, (Gsm.lead_one c hc).1, if_neg (by omega)]

theorem messageNext_two {c : Nat} (hc : c < 0x400) (b : UInt8) (text : List BasicChar) :
    messageNext (UInt8.ofNat (0xc0 ||| c >>> 6 &&& 0x1f)) (b :: quotedText text) =
      (((c / 64 : Nat) : Int), quotedText text) := by
  rw [twoBytes_lead hc, messageNext, if_pos (Gsm.lead_two (c / 64) (by omega)).1,
    (Gsm.following_two (c / 64) (by omega)).2, List.drop_one, List.tail_cons, utf8Tail_quotedText]
  simp only
  rw [bmod_of_lt (by omega)]

theorem fromMessageLoop_quoted (size : Nat) (c : BasicChar) (text : List BasicChar)
    (dest : MessageDest) :
    ∃ rounds ≤ (quoted (misread c.val.toNat)).length, ∀ fuel,
      fromMessageLoop size (fuel + rounds) (quotedText (c :: text)) false dest =
        fromMessageLoop size fuel (quotedText text) false
          (dest.put size (kept (misread c.val.toNat))) := by
  have hlt := misread_lt c
  rw [quotedText_cons]
  generalize misread c.val.toNat = c at hlt
  rw [kept]
  unfold quoted
  by_cases hcontrol : c < 0x20
  · rw [if_pos hcontrol, if_pos (by omega : c < 128), ← putChar_of_lt (by omega : c < 128)]
    by_cases hnewline : c = 0x0a
    · rw [if_pos hnewline, hnewline]
      exact ⟨2, Nat.le_refl 2, fun fuel => rfl⟩
    · rw [if_neg hnewline]
      refine ⟨2, Nat.le_add_left 2 2, fun fuel => ?_⟩
      change fromMessageLoop size (fuel + 1) (0x78 :: _ :: _ :: quotedText text) true dest = _
      exact fromMessageLoop_escaped (unescape_hex hcontrol (quotedText text))
  rw [if_neg hcontrol]
  by_cases hbackslash : c = 0x5c
  · rw [if_pos hbackslash, if_pos (by omega : c < 128), ← putChar_of_lt (by omega : c < 128),
      hbackslash]
    exact ⟨2, Nat.le_refl 2, fun fuel => rfl⟩
  rw [if_neg hbackslash]
  by_cases hone : c < 128
  · rw [if_pos hone, if_pos hone, ← putChar_of_lt hone]
    refine ⟨1, Nat.le_refl 1, fun fuel => ?_⟩
    rw [List.singleton_append, fromMessageLoop, messageNext_one hone, if_neg (by decide),
      if_neg (by omega)]
  · rw [if_neg hone, if_neg hone, ← putChar_of_lt (by omega : c / 64 < 128)]
    refine ⟨1, Nat.le_succ 1, fun fuel => ?_⟩
    rw [List.cons_append, List.singleton_append, fromMessageLoop, messageNext_two hlt,
      if_neg (by decide), if_neg (by omega)]

def keptText (text : List BasicChar) : List UInt8 :=
  text.map fun c => kept (misread c.val.toNat)

theorem fromMessageLoop_quotedText {size fuel : Nat} {text : List BasicChar} {dest : MessageDest}
    (hfuel : (quotedText text).length ≤ fuel) (hroom : dest.count + text.length ≤ size) :
    fromMessageLoop size fuel (quotedText text) false dest =
      (((dest.count + text.length : Nat) : Int), (dest.append (keptText text)).bytes) := by
  induction text generalizing fuel dest with
  | nil =>
    change fromMessageLoop size fuel [] false dest = (_, (dest.append []).bytes)
    rw [append_nil]
    cases fuel <;> rfl
  | cons c text ih =>
    obtain ⟨rounds, hrounds, hread⟩ := fromMessageLoop_quoted size c text dest
    rw [quotedText_cons, List.length_append] at hfuel
    rw [List.length_cons] at hroom
    obtain ⟨fuel, rfl⟩ := Nat.exists_eq_add_of_le' (Nat.le_trans hrounds (by omega : _ ≤ fuel))
    rw [hread, put_eq (by omega), ih (by omega) (by rw [count_append, List.length_singleton]; omega),
      append_append, count_append, List.length_singleton, List.length_cons]
    refine Prod.ext ?_ rfl
    simp only
    omega

/-- The message that a text becomes in a buffer with room for `spare` bytes more than it needs and
one. -/
def message (text : List BasicChar) (str : Nat → UInt8) (spare : Nat) : List UInt8 :=
  let needed := (smsUtf8ToMessageStr (encodeBasic text) 0 str).count
  let written := smsUtf8ToMessageStr (encodeBasic text) (needed + 1 + spare) str
  (List.range written.count).map written.bytes

/-- The text comes back from its message, into a buffer that is larger than it by `spare'` bytes
and one. -/
def ComesBack (text : List BasicChar) (str utf8 : Nat → UInt8) (spare spare' : Nat) : Prop :=
  let length := (encodeBasic text).length
  let read := smsUtf8FromMessageStr (message text str spare) (length + 1 + spare') utf8
  read.1 = length ∧ (List.range length).map read.2 = encodeBasic text

instance (text : List BasicChar) (str utf8 : Nat → UInt8) (spare spare' : Nat) :
    Decidable (ComesBack text str utf8 spare spare') :=
  inferInstanceAs (Decidable (_ ∧ _))

theorem length_le_length_encodeBasic (text : List BasicChar) :
    text.length ≤ (encodeBasic text).length := by
  rw [encodeBasic, ← List.length_map Subtype.val]
  exact Gsm.length_le_length_encode _

theorem smsUtf8ToMessageStr_encode (text : List BasicChar) (strlen : Nat) (str : Nat → UInt8) :
    (smsUtf8ToMessageStr (encodeBasic text) strlen str).count = (quotedText text).length ∧
      ((quotedText text).length < strlen →
        smsUtf8ToMessageStr (encodeBasic text) strlen str =
          (MessageDest.mk 0 str).append (quotedText text)) := by
  obtain ⟨hcount, happend⟩ := @toMessageLoop_encode strlen _ text ⟨0, str⟩
    (length_le_length_encodeBasic text)
  rw [Nat.zero_add] at hcount happend
  exact ⟨hcount, happend⟩

theorem message_eq (text : List BasicChar) (str : Nat → UInt8) (spare : Nat) :
    message text str spare = quotedText text := by
  have hneeded := (smsUtf8ToMessageStr_encode text 0 str).1
  have hwritten := (smsUtf8ToMessageStr_encode text ((quotedText text).length + 1 + spare) str).2
    (by omega)
  rw [message, hneeded, hwritten, count_append]
  change (List.range (0 + _)).map _ = _
  rw [Nat.zero_add]
  exact map_range_copyTo str _

theorem comesBack_iff_keptText (text : List BasicChar) (str utf8 : Nat → UInt8)
    (spare spare' : Nat) :
    ComesBack text str utf8 spare spare' ↔ keptText text = encodeBasic text := by
  have hlength : (keptText text).length = text.length := List.length_map _
  have hle := length_le_length_encodeBasic text
  have hread := @fromMessageLoop_quotedText ((encodeBasic text).length + 1 + spare')
    (quotedText text).length text ⟨0, utf8⟩ (Nat.le_refl _)
    (by change 0 + text.length ≤ _; omega)
  rw [ComesBack, message_eq, smsUtf8FromMessageStr, hread]
  change ((0 + text.length : Nat) : Int) = _ ∧
    (List.range (encodeBasic text).length).map (copyTo 0 (keptText text) utf8) = _ ↔ _
  rw [Nat.zero_add, Int.ofNat_inj, ← hlength]
  constructor
  · rintro ⟨hsame, hbytes⟩
    rwa [← hsame, map_range_copyTo] at hbytes
  · intro h
    rw [← h, map_range_copyTo]
    exact ⟨rfl, rfl⟩

theorem length_utf8EncodeChar_eq_one (c : Char) :
    (String.utf8EncodeChar c).length = 1 ↔ c.toNat < 0x80 := by
  change _ ↔ c.val.toNat < 0x80
  fun_cases String.utf8EncodeChar c with
  | case1 v h => exact iff_of_true rfl (by omega)
  | case2 v h _ => exact iff_of_false (by simp) (by omega)
  | case3 v h _ _ => exact iff_of_false (by simp) (by omega)
  | case4 v h => exact iff_of_false (by simp) (by omega)

theorem encodeBasic_cons (c : BasicChar) (text : List BasicChar) :
    encodeBasic (c :: text) = String.utf8EncodeChar c.val ++ encodeBasic text := rfl

theorem kept_misread {c : Char} (hc : c.toNat < 0x80) :
    String.utf8EncodeChar c = [kept (misread c.toNat)] := by
  rw [misread, if_pos hc, kept, if_pos hc]
  change _ = [uchar (c.val.toNat : Int)]
  change c.val.toNat < 0x80 at hc
  fun_cases String.utf8EncodeChar c with
  | case1 v h =>
    rw [uchar]
    congr 2
    omega
  | case2 v h _ => omega
  | case3 v h _ _ => omega
  | case4 v h => omega

theorem keptText_eq_iff (text : List BasicChar) :
    keptText text = encodeBasic text ↔ ∀ c ∈ text, c.val.toNat < 0x80 := by
  induction text with
  | nil => exact iff_of_true rfl (List.forall_mem_nil _)
  | cons c text ih =>
    rw [List.forall_mem_cons, ← ih, encodeBasic_cons]
    change kept _ :: keptText text = _ ↔ _
    constructor
    · intro h
      have hlength := congrArg List.length h
      have hkept : (keptText text).length = text.length := List.length_map _
      have hle := length_le_length_encodeBasic text
      have hpos := List.length_pos_iff.mpr (String.utf8EncodeChar_ne_nil (c := c.val))
      rw [List.length_cons, List.length_append] at hlength
      have hone := (length_utf8EncodeChar_eq_one c.val).mp (by omega)
      rw [kept_misread hone] at h
      exact ⟨hone, (List.cons.inj h).2⟩
    · rintro ⟨hone, h⟩
      rw [kept_misread hone, h]
      rfl

/-- The texts that come back are those of characters below U+0080, and what both functions return
does not depend on the buffer. -/
theorem comesBack_iff (text : List BasicChar) (str utf8 : Nat → UInt8) (spare spare' : Nat)
    (input : List UInt8) (size : Nat) :
    (ComesBack text str utf8 spare spare' ↔ ∀ c ∈ text, c.val.toNat < 0x80) ∧
    smsUtf8FromMessageStr input 0 str = ((smsUtf8FromMessageStr input size utf8).1, str) ∧
    smsUtf8ToMessageStr input 0 utf8 = ⟨(smsUtf8ToMessageStr input size str).count, utf8⟩ := by
  refine ⟨?_, ?_, ?_⟩
  · rw [comesBack_iff_keptText, keptText_eq_iff]
  · have hresult := @fromMessageLoop_fst 0 size ⟨0, str⟩ ⟨0, utf8⟩ rfl input.length input false
    have hbytes := @fromMessageLoop_zero ⟨0, str⟩ input.length input false
    rw [smsUtf8FromMessageStr, smsUtf8FromMessageStr, ← hresult]
    exact Prod.ext rfl hbytes
  · have hcount := @toMessageLoop_count 0 size ⟨0, utf8⟩ ⟨0, str⟩ rfl input.length input
    have hbytes := @toMessageLoop_zero ⟨0, utf8⟩ input.length input
    rw [smsUtf8ToMessageStr, smsUtf8ToMessageStr, ← hcount]
    exact congrArg (MessageDest.mk _) hbytes

/-- The text "é" comes back as one byte. -/
theorem not_comesBack_eAcute :
    ¬ComesBack [⟨Char.ofNat 0xe9, by decide⟩] (fun _ => 0) (fun _ => 0) 0 0 := by
  decide +kernel

end RoundTrip

end M2M.Telephony
