import M2M.Telephony.Sms

/-! The readers of PDUs in `sms.c`.  A pointer is its offset from `base`, `stop` is `end`, and a
result of -1 is the failure of `OptionT`. -/

namespace M2M.Telephony

inductive SmsCodingScheme
  | unknown
  | gsm7
  | ucs2
  deriving DecidableEq

/-- `gsm_rope_reserve` with `text` written to the area. -/
def GsmRope.addText (fresh : Nat → UInt8) (rope : GsmRope) (text : List UInt8) : GsmRope :=
  let (dst, rope) := rope.reserve fresh text.length
  rope.fill dst fun bytes => copyTo 0 text bytes

/-- What `smspdu_get_text_message` returns, and what it copies to `utf8`.  There is nothing to copy
from a rope without data. -/
structure TextMessage where
  result : Nat
  utf8 : Option (List UInt8)
  deriving DecidableEq

/-- The end of `smspdu_get_text_message`. -/
def GsmRope.textMessage (rope : GsmRope) (utf8len : Nat) : TextMessage where
  result := rope.pos
  utf8 :=
    if min utf8len rope.pos > 0 then
      rope.bytes.map fun bytes => (List.range (min utf8len rope.pos)).map bytes
    else some []

section Readers

variable {m : Type → Type} [Monad m] (peek : Nat → m UInt8)

/-- `sms_get_byte`, with the position behind. -/
def smsGetByte (cur stop : Nat) : OptionT m (UInt8 × Nat) := do
  if cur < stop then return (← peek cur, cur + 1) else failure

/-- The loop of `sms_get_sc_address` over the `n` bytes from `cur + dlen` on. -/
def scAddressLoop (cur : Nat) : Nat → Nat → Nat → SmsAddressRec → OptionT m SmsAddressRec
  | 0, dlen, adjust, address => return { address with len := UInt8.ofNat (2 * dlen + adjust) }
  | n + 1, dlen, _, address => do
    let c ← peek (cur + dlen)
    if h : dlen < smsAddressMaxSize then
      if (0xe : UInt8) ≤ c &&& 0xf then return { address with len := UInt8.ofNat (2 * dlen) }
      else
        let stored := { address with data := address.data.set dlen c }
        if (0xe : UInt8) ≤ c >>> 4 &&& 0xf then
          return { stored with len := UInt8.ofNat (2 * dlen + 1) }
        else scAddressLoop cur n (dlen + 1) 1 stored
    else failure

/-- `sms_get_sc_address` into an address that holds `address` before.  The position behind it is in
front of the digits. -/
def smsGetScAddress (cur stop : Nat) (address : SmsAddressRec) :
    OptionT m (SmsAddressRec × Nat) := do
  if cur < stop then
    let len := (← peek cur).toNat
    if len = 0 then return ({ address with len := 0, toa := 0 }, cur + 1)
    else if stop < cur + 1 + len then failure
    else
      let toa ← peek (cur + 1)
      let read ← scAddressLoop peek (cur + 2) (len - 1) 0 0 { address with toa }
      return (read, cur + 2)
  else failure

def readBytes (cur : Nat) : Nat → m (List UInt8)
  | 0 => return []
  | n + 1 => return (← peek cur) :: (← readBytes (cur + 1) n)

def smsGetAddress (cur stop : Nat) (address : SmsAddressRec) :
    OptionT m (SmsAddressRec × Nat) := do
  if cur < stop then
    let dlen ← peek cur
    let len := (dlen.toNat + 1) / 2
    if dlen = 0 then return ({ address with len := 0, toa := 0 }, cur + 1)
    else if stop < cur + 1 + 1 + len then failure
    else
      let toa ← peek (cur + 1)
      if smsAddressMaxSize < len then failure
      else
        let digits ← (readBytes peek (cur + 2) len : m (List UInt8))
        return ({ len := dlen, toa, data := Vector.ofFn fun i => digits.getD i address.data[i] },
          cur + 2 + len)
  else failure

/-- `sms_skip_address`, which leaves the position as it is. -/
def smsSkipAddress (cur stop : Nat) : OptionT m Unit := do
  if stop < cur + 2 then failure
  else
    let dlen ← peek cur
    if stop < cur + 2 + (dlen.toNat + 1) / 2 then failure else return ()

def smsGetTimestamp (cur stop : Nat) : OptionT m (SmsTimeStamp × Nat) := do
  if stop < cur + 7 then failure
  else
    let data ← (readBytes peek cur 7 : m (List UInt8))
    return (Vector.ofFn fun i => data.getD i 0, cur + 7)

def smsSkipTimestamp (cur stop : Nat) : OptionT m Nat :=
  if stop < cur + 7 then failure else return cur + 7

def smsSkipValidityPeriod (cur stop : Nat) (mtiByte : UInt8) : OptionT m Nat :=
  let skipped :=
    match (mtiByte >>> 3 &&& 3).toNat with
    | 0 => cur
    | 1 => cur + 1
    | _ => cur + 7
  if stop < skipped then failure else return skipped

def smsGetCodingScheme (cur stop : Nat) : m (SmsCodingScheme × Nat) := do
  if cur < stop then
    let dataCoding ← peek cur
    let scheme : SmsCodingScheme :=
      match (dataCoding >>> 4).toNat with
      | 0x00 | 0x02 | 0x03 => .gsm7
      | 0x01 => if dataCoding = 0x10 then .gsm7 else if dataCoding = 0x11 then .ucs2 else .unknown
      | 0x04 | 0x05 | 0x06 | 0x07 =>
        if dataCoding &&& 0x20 ≠ 0 then .unknown
        else if dataCoding >>> 2 &&& 3 = 0 then .gsm7
        else if dataCoding >>> 2 &&& 3 = 2 then .ucs2
        else .unknown
      | 0x0f => if dataCoding &&& 4 = 0 then .gsm7 else .unknown
      | _ => .unknown
    return (scheme, cur + 1)
  else return (.unknown, cur)

/-- Where the text starts behind a user data header, and its length. -/
def skipUserHeader (cur stop len : Nat) (hasUDH : Bool) (coding : SmsCodingScheme) :
    OptionT m (Nat × Nat) := do
  if hasUDH then
    let (hlen, cur) ← smsGetByte peek cur stop
    let header := if coding = .gsm7 then 2 * (hlen.toNat + 1) else hlen.toNat + 1
    if stop < cur + hlen.toNat ∨ len < header then failure
    else return (cur + hlen.toNat, len - header)
  else return (cur, len)

variable (fresh : Nat → UInt8)

def smsGetTextUtf8 (cur stop : Nat) (hasUDH : Bool) (coding : SmsCodingScheme) (rope : GsmRope) :
    OptionT m (Nat × GsmRope) := do
  let (len, cur) ← smsGetByte peek cur stop
  let (cur, len) ← skipUserHeader peek cur stop len.toNat hasUDH coding
  match coding with
  | .gsm7 =>
    let text ← (Gsm.utf8FromGsm7 peek cur 0 len : m (List UInt8))
    return (cur + (len + 1) / 2, rope.addText fresh text)
  | .ucs2 =>
    let text ← (Gsm.ucs2ToUtf8 peek cur (len / 2) : m (List UInt8))
    return (cur + len, rope.addText fresh text)
  | .unknown => return (cur, rope)

variable (pdu : SmsPDU)

inductive SmsPduType
  | invalid
  | deliver
  | submit
  | statusReport
  deriving DecidableEq

def smspduGetType : m SmsPduType := do
  match ← (smsGetByte peek pdu.tpdu pdu.base.length).run with
  | none => return .invalid
  | some (mtiByte, _) =>
    return match (mtiByte &&& 3).toNat with
      | 0 => .deliver
      | 1 => .submit
      | 2 => .statusReport
      | _ => .invalid

def smspduGetSenderAddress (address : SmsAddressRec) : OptionT m SmsAddressRec := do
  let stop := pdu.base.length
  let (mtiByte, data) ← smsGetByte peek pdu.tpdu stop
  if mtiByte &&& 3 = 0 then return (← smsGetScAddress peek data stop address).1 else failure

/-- `smspdu_get_sc_timestamp`, with the local `address`. -/
def smspduGetScTimestamp (address : SmsAddressRec) : OptionT m SmsTimeStamp := do
  let stop := pdu.base.length
  let (mtiByte, data) ← smsGetByte peek pdu.tpdu stop
  if mtiByte &&& 3 = 0 then
    let (_, data) ← smsGetScAddress peek data stop address
    return (← smsGetTimestamp peek (data + 2) stop).1
  else failure

def smspduGetReceiverAddress (address : SmsAddressRec) : OptionT m SmsAddressRec := do
  let stop := pdu.base.length
  let (mtiByte, data) ← smsGetByte peek pdu.tpdu stop
  if mtiByte &&& 3 = 1 then return (← smsGetAddress peek (data + 1) stop address).1 else failure

/-- `smspdu_get_text_message`, with the locals `address` and `rope`. -/
def smspduGetTextMessage (address : SmsAddressRec) (rope : GsmRope) (utf8len : Nat) :
    OptionT m TextMessage := do
  let stop := pdu.base.length
  let (mtiByte, data) ← smsGetByte peek pdu.tpdu stop
  let hasUDH : Bool := mtiByte &&& 0x40 ≠ 0
  if mtiByte &&& 3 = 0 then
    let (_, data) ← smsGetScAddress peek data stop address
    let (coding, data) ← (smsGetCodingScheme peek (data + 1) stop : m (SmsCodingScheme × Nat))
    if coding = .unknown then failure
    else
      let (_, data) ← smsGetTimestamp peek data stop
      let (_, rope) ← smsGetTextUtf8 peek fresh data stop hasUDH coding rope
      return rope.textMessage utf8len
  else if mtiByte &&& 3 = 1 then
    let (_, data) ← smsGetAddress peek (data + 1) stop address
    let (coding, data) ← (smsGetCodingScheme peek (data + 1) stop : m (SmsCodingScheme × Nat))
    if coding = .unknown then failure
    else
      let (_, rope) ← smsGetTextUtf8 peek fresh data stop hasUDH coding (rope.initAlloc 0)
      return rope.textMessage utf8len
  else failure

/-- The loop of `smspdu_get_user_data_ref`, or `none` when it has not ended after `fuel` rounds. -/
def userDataRefLoop (stop : Nat) : Nat → Nat → Int → OptionT m (Option Nat)
  | 0, _, _ => return none
  | fuel + 1, data, len => do
    if 2 ≤ len ∧ data + 2 ≤ stop then
      let htype ← peek data
      let hlen ← peek (data + 1)
      if htype = 0 ∧ hlen = 3 ∧ data + 5 ≤ stop then return some (data + 2)
      else userDataRefLoop stop fuel (data + hlen.toNat) (len - (hlen.toNat - 2))
    else failure

def smspduGetUserDataRef (fuel : Nat) : OptionT m (Option Nat) := do
  let stop := pdu.base.length
  let (mtiByte, data) ← smsGetByte peek pdu.tpdu stop
  if mtiByte &&& 0x40 = 0 then failure
  else
    let data ←
      if mtiByte &&& 3 = 0 then do
        smsSkipAddress peek data stop
        smsSkipTimestamp (data + 2) stop
      else if mtiByte &&& 3 = 1 then do
        smsSkipAddress peek (data + 1) stop
        smsSkipValidityPeriod (data + 1 + 2) stop mtiByte
      else failure
    if stop ≤ data + 1 then failure
    else
      let len ← peek (data + 1)
      userDataRefLoop peek stop fuel (data + 2) len.toNat

/-- `smspdu_get_ref`, which falls back to the message reference of an SMS-SUBMIT. -/
def smspduGetRef (fuel : Nat) : m (Option Int) := do
  match ← (smspduGetUserDataRef peek pdu fuel).run with
  | some (some userRef) => return some (← peek userRef).toNat
  | some none => return none
  | none =>
    let stop := pdu.base.length
    if pdu.tpdu + 1 < stop then
      if (← peek pdu.tpdu) &&& 3 = 1 then return some (← peek (pdu.tpdu + 1)).toNat
      else return some (-1)
    else return some (-1)

def smspduGetMaxIndex (fuel : Nat) : m (Option Nat) := do
  match ← (smspduGetUserDataRef peek pdu fuel).run with
  | some (some userRef) => return some (← peek (userRef + 1)).toNat
  | some none => return none
  | none => return some 1

def smspduGetCurIndex (fuel : Nat) : m (Option Int) := do
  match ← (smspduGetUserDataRef peek pdu fuel).run with
  | some (some userRef) => return some ((← peek (userRef + 2)).toNat - 1)
  | some none => return none
  | none => return some 0

end Readers

/-- What happens to be around a call of a reader: the bytes behind the PDU, fresh memory, and the
locals. -/
structure Surroundings where
  beyond : Nat → UInt8
  fresh : Nat → UInt8
  address : SmsAddressRec
  rope : GsmRope

def SmsPDU.memory (pdu : SmsPDU) (s : Surroundings) (i : Nat) : Id UInt8 :=
  pdu.base.getD i (s.beyond i)

/-- Where a text is read from. -/
structure TextArea where
  submit : Bool
  coding : SmsCodingScheme
  cur : Nat
  len : Nat

variable {m : Type → Type} [Monad m] (peek : Nat → m UInt8) (pdu : SmsPDU)

/-- What `smspdu_get_text_message` finds before it comes to the user data. -/
def textHead (mtiByte : UInt8) (data : Nat) (address : SmsAddressRec) :
    OptionT m (SmsCodingScheme × Nat) := do
  let stop := pdu.base.length
  if mtiByte &&& 3 = 0 then
    let (_, data) ← smsGetScAddress peek data stop address
    let (coding, data) ← (smsGetCodingScheme peek (data + 1) stop : m (SmsCodingScheme × Nat))
    if coding = .unknown then failure
    else
      let (_, data) ← smsGetTimestamp peek data stop
      return (coding, data)
  else if mtiByte &&& 3 = 1 then
    let (_, data) ← smsGetAddress peek (data + 1) stop address
    let (coding, data) ← (smsGetCodingScheme peek (data + 1) stop : m (SmsCodingScheme × Nat))
    if coding = .unknown then failure else return (coding, data)
  else failure

/-- Where `smspdu_get_text_message` comes to a text. -/
def textArea (address : SmsAddressRec) : OptionT m TextArea := do
  let (mtiByte, data) ← smsGetByte peek pdu.tpdu pdu.base.length
  let (coding, data) ← textHead peek pdu mtiByte data address
  let (len, cur) ← smsGetByte peek data pdu.base.length
  let (cur, len) ← skipUserHeader peek cur pdu.base.length len.toNat (mtiByte &&& 0x40 ≠ 0) coding
  return { submit := mtiByte &&& 3 = 1, coding, cur, len }

/-- What is read there. -/
def TextArea.read (area : TextArea) : m (List UInt8) :=
  match area.coding with
  | .gsm7 => Gsm.utf8FromGsm7 peek area.cur 0 area.len
  | .ucs2 => Gsm.ucs2ToUtf8 peek area.cur (area.len / 2)
  | .unknown => return []

def TextArea.rope (area : TextArea) (rope : GsmRope) : GsmRope :=
  if area.submit then rope.initAlloc 0 else rope

variable [LawfulMonad m]

theorem smsGetTextUtf8_eq (fresh : Nat → UInt8) (cur stop : Nat) (hasUDH : Bool) (submit : Bool)
    {coding : SmsCodingScheme} (h : coding ≠ .unknown) (rope : GsmRope) (utf8len : Nat) :
    (do
      let (_, rope) ← smsGetTextUtf8 peek fresh cur stop hasUDH coding rope
      return rope.textMessage utf8len) = do
      let (len, cur) ← smsGetByte peek cur stop
      let (cur, len) ← skipUserHeader peek cur stop len.toNat hasUDH coding
      let text ← (TextArea.read peek ⟨submit, coding, cur, len⟩ : m (List UInt8))
      return (rope.addText fresh text).textMessage utf8len := by
  simp only [smsGetTextUtf8, bind_assoc]
  refine bind_congr fun ⟨len, cur⟩ => bind_congr fun ⟨cur, len⟩ => ?_
  cases coding with
  | gsm7 => simp only [bind_assoc, pure_bind, TextArea.read]
  | ucs2 => simp only [bind_assoc, pure_bind, TextArea.read]
  | unknown => exact absurd rfl h

theorem smspduGetTextMessage_eq (fresh : Nat → UInt8) (address : SmsAddressRec) (rope : GsmRope)
    (utf8len : Nat) :
    smspduGetTextMessage peek fresh pdu address rope utf8len = do
      let area ← textArea peek pdu address
      let text ← (area.read peek : m (List UInt8))
      return ((area.rope rope).addText fresh text).textMessage utf8len := by
  simp only [smspduGetTextMessage, textArea, bind_assoc, pure_bind]
  refine bind_congr fun ⟨mtiByte, data⟩ => ?_
  simp only [textHead]
  split
  · next hdeliver =>
    simp only [bind_assoc]
    refine bind_congr fun ⟨_, data⟩ => bind_congr fun ⟨coding, data⟩ => ?_
    split
    · simp
    · next hcoding =>
      simp only [bind_assoc, pure_bind]
      refine bind_congr fun ⟨_, data⟩ => ?_
      refine (smsGetTextUtf8_eq peek fresh _ _ _ false hcoding _ _).trans ?_
      simp [hdeliver, TextArea.rope, TextArea.read]
  · split
    · next hsubmit =>
      simp only [bind_assoc]
      refine bind_congr fun ⟨_, data⟩ => bind_congr fun ⟨coding, data⟩ => ?_
      split
      · simp
      · next hcoding =>
        simp only [pure_bind]
        refine (smsGetTextUtf8_eq peek fresh _ _ _ true hcoding _ _).trans ?_
        simp [hsubmit, TextArea.rope, TextArea.read]
    · simp

end M2M.Telephony
