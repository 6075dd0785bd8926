import M2M.Telephony.Gsm
import M2M.Telephony.GsmRope

/-! `sms.c`: addresses, and a text cut into SMS-DELIVER PDUs. -/

namespace M2M.Telephony

def smsAddressMaxSize : Nat := 16

structure SmsAddressRec where
  len : UInt8
  toa : UInt8
  data : Vector UInt8 smsAddressMaxSize
  deriving DecidableEq

/-- The number of bytes that the digits take. -/
def SmsAddressRec.size (address : SmsAddressRec) : Nat := (address.len.toNat + 1) / 2

def SmsAddressRec.digits (address : SmsAddressRec) : List UInt8 :=
  address.data.toList.take address.size

/-- An address whose digits are all in its `data`. -/
structure SmsAddress extends SmsAddressRec where
  fits : toSmsAddressRec.size ≤ smsAddressMaxSize

@[simp] theorem SmsAddress.length_digits (address : SmsAddress) :
    address.digits.length = address.size := by
  rw [SmsAddressRec.digits, List.length_take, Vector.length_toList, Nat.min_eq_left address.fits]

abbrev SmsTimeStamp : Type := Vector UInt8 7

section FromStr

def orAt (data : Vector UInt8 smsAddressMaxSize) (i : Nat) (mask : UInt8) :
    Vector UInt8 smsAddressMaxSize :=
  data.setIfInBounds i (data.toList.getD i 0 ||| mask)

/-- The loop of `sms_address_from_str`: the digits stored and their number. -/
def addressDigits : List UInt8 → Nat → Nat → Nat → Vector UInt8 smsAddressMaxSize →
    Option (Vector UInt8 smsAddressMaxSize × Nat)
  | [], i, shift, len, data => some (if shift ≠ 0 then orAt data i 0xf0 else data, len)
  | b :: src, i, shift, len, data =>
    let c := b - 0x30
    if 10 ≤ c ∨ smsAddressMaxSize ≤ i then none
    else
      let stored := orAt data i (UInt8.ofNat (c.toNat <<< shift))
      if shift + 4 = 8 then addressDigits src (i + 1) 0 (len + 1) stored
      else addressDigits src i (shift + 4) (len + 1) stored

def smsAddressFromStr (src : List UInt8) : Option SmsAddressRec :=
  let (toa, number) : UInt8 × List UInt8 :=
    match src with
    | 0x2b :: number => (0x91, number)
    | _ => (0x81, src)
  if number = [] then none
  else
    (addressDigits number 0 0 0 (Vector.replicate _ 0)).map fun (data, len) =>
      { len := UInt8.ofNat len, toa, data }

end FromStr

/-- `SmsPDURec`: the bytes from `base` to `end`, and where the TPDU starts. -/
structure SmsPDU where
  base : List UInt8
  tpdu : Nat
  deriving DecidableEq

namespace Gsm

/-- `gsm_hexchar_to_int`. -/
def hexcharToInt (c : UInt8) : Option Nat :=
  if c - 0x30 < 10 then some (c - 0x30).toNat
  else if c - 0x61 < 6 then some (10 + (c - 0x61).toNat)
  else if c - 0x41 < 6 then some (10 + (c - 0x41).toNat)
  else none

/-- `gsm_hex2_to_byte`. -/
def hex2ToByte (hex0 hex1 : UInt8) : Option UInt8 := do
  let hi ← hexcharToInt hex0
  let lo ← hexcharToInt hex1
  return UInt8.ofNat (hi <<< 4 ||| lo)

/-- `gsm_hex_to_bytes`, which takes an even number of characters. -/
def hexToBytes : List UInt8 → Option (List UInt8)
  | [] => some []
  | [_] => none
  | hex0 :: hex1 :: hex => do
    let c ← hex2ToByte hex0 hex1
    return c :: (← hexToBytes hex)

end Gsm

/-- `sms_skip_sc_address` from the start of `base`. -/
def smsSkipScAddress (base : List UInt8) : Option Nat :=
  match base with
  | [] => none
  | len :: _ => if base.length < 1 + len.toNat then none else some (1 + len.toNat)

def smspduCreateFromHex (hex : List UInt8) : Option SmsPDU := do
  let base ← Gsm.hexToBytes hex
  return { base, tpdu := ← smsSkipScAddress base }

def maxUserDataBytes : Nat := 140

def maxUserDataSeptets : Nat := 160

def userDataHeaderSize : Nat := 6

section Deliver

variable (fresh : Nat → UInt8)

/-- `gsm_rope_add_address`. -/
def addAddress (rope : GsmRope) (addr : SmsAddress) : GsmRope :=
  let added := ((rope.addC fresh addr.len).addC fresh addr.toa).add fresh addr.digits
  if addr.len.toNat % 2 = 1 then added.orLast 0xf0 else added

/-- `gsm_rope_add_sms_user_header`. -/
def addSmsUserHeader (rope : GsmRope) (refNumber : UInt8) (pduCount pduIndex : Nat) : GsmRope :=
  (((((rope.addC fresh 0x05).addC fresh 0x00).addC fresh 0x03).addC fresh refNumber).addC fresh
    (UInt8.ofNat pduCount)).addC fresh (UInt8.ofNat pduIndex + 1)

variable (useGsm7 : Bool) (sender : SmsAddress) (timestamp : SmsTimeStamp) (refNum : UInt8)
  (pduCount pduIndex : Nat)

/-- What `gsm_rope_add_sms_deliver_pdu` adds in front of the user data. -/
def addDeliverHead (rope : GsmRope) : GsmRope :=
  let mtiByte : UInt8 := if 1 < pduCount then 0x20 ||| 0x40 else 0x20
  let coding : UInt8 := if useGsm7 then 0x00 else 0x09
  (((addAddress fresh ((rope.addC fresh 0).addC fresh mtiByte) sender).addC fresh 0).addC fresh
    coding).add fresh timestamp.toList

/-- The length of the user data, and the header of one part of several. -/
def addDeliverLength (rope : GsmRope) (count headerCount : Nat) : GsmRope :=
  if 1 < pduCount then
    addSmsUserHeader fresh (rope.addC fresh (UInt8.ofNat (count + headerCount))) refNum pduCount
      pduIndex
  else rope.addC fresh (UInt8.ofNat count)

/-- `gsm_rope_add_sms_deliver_pdu`, or `none` when its assertion fails. -/
def addSmsDeliverPdu (utf8 : List UInt8) (rope : GsmRope) : Option GsmRope :=
  let rope := addDeliverHead fresh useGsm7 sender timestamp pduCount rope
  if useGsm7 then
    let count := Gsm.utf8ToGsm7Count utf8
    if count ≤ maxUserDataSeptets - userDataHeaderSize then
      let headerBits := 6 * 8
      let headerSeptets := headerBits / 7 + if headerBits % 7 > 0 then 1 else 0
      let pad := if 1 < pduCount then headerSeptets * 7 - headerBits else 0
      let rope := addDeliverLength fresh refNum pduCount pduIndex rope count headerSeptets
      let (dst, rope) := rope.reserve fresh ((count * 7 + pad + 7) / 8)
      some (rope.fill dst fun bytes => (Gsm.utf8ToGsm7 utf8 bytes pad).buf)
    else none
  else
    let count := Gsm.utf8ToUcs2Count utf8
    if count * 2 ≤ maxUserDataBytes - userDataHeaderSize then
      let rope := addDeliverLength fresh refNum pduCount pduIndex rope (count * 2) 6
      let rope := rope.addC fresh (UInt8.ofNat (count * 2))
      let (dst, rope) := rope.reserve fresh (count * 2)
      some (rope.fill dst fun bytes => GsmRope.copyTo 0 (Gsm.utf8ToUcs2 utf8) bytes)
    else none

/-- `smspdu_create_deliver` with its rope on `stack`, or `none` when the assertion fails: one pass
over the rope counts, the other stores. -/
def smspduCreateDeliver (stack : GsmRope) (utf8 : List UInt8) : Option SmsPDU := do
  let add := addSmsDeliverPdu fresh useGsm7 sender timestamp refNum pduCount pduIndex utf8
  let counted ← add stack.init
  let stored ← add (counted.initAlloc counted.pos)
  return { base := ← stored.doneAcquire, tpdu := 1 }

end Deliver

/-- A call of `smspdu_create_deliver_utf8`: the pieces `[src, src_next)` it has passed to
`smspdu_create_deliver`, the PDUs unless an assertion stopped it, and the `ref_num` left. -/
structure Delivery where
  passed : List (List UInt8)
  list : Option (List SmsPDU)
  refNum : UInt8
  deriving DecidableEq

section DeliverUtf8

variable (fresh : Nat → UInt8) (stack : GsmRope) (sender : SmsAddress) (timestamp : SmsTimeStamp)
  (refNum : UInt8)

/-- The loop of `smspdu_create_deliver_utf8`, with `n` PDUs still to make from `src` on. -/
def createPdus (useGsm7 : Bool) (block leftover numPdus : Nat) :
    Nat → Nat → List UInt8 → List (List UInt8) × Option (List SmsPDU)
  | 0, _, _ => ([], some [])
  | n + 1, nn, src =>
    let skip := if 0 < leftover ∧ nn + 1 = numPdus then leftover else block
    let srcNext := Gsm.utf8SkipGsm7 src skip
    let piece := src.take (src.length - srcNext.length)
    match smspduCreateDeliver fresh useGsm7 sender timestamp refNum numPdus nn stack piece with
    | none => ([piece], none)
    | some pdu =>
      let rest := createPdus useGsm7 block leftover numPdus n (nn + 1) srcNext
      (piece :: rest.1, rest.2.map (pdu :: ·))

def smspduCreateDeliverUtf8 (utf8 : List UInt8) : Delivery :=
  let useGsm7 := Gsm.utf8CheckGsm7 utf8
  let count := if useGsm7 then Gsm.utf8ToGsm7Count utf8 else Gsm.utf8ToUcs2Count utf8
  let block :=
    if useGsm7 then maxUserDataSeptets - userDataHeaderSize
    else maxUserDataBytes - userDataHeaderSize
  let leftover := count - count / block * block
  let numPdus := if 0 < leftover then count / block + 1 else count / block
  let (passed, list) :=
    createPdus fresh stack sender timestamp refNum useGsm7 block leftover numPdus numPdus 0 utf8
  { passed, list, refNum := if list.isSome then refNum + 1 else refNum }

end DeliverUtf8

end M2M.Telephony
