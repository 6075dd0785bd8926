import M2M.Telephony.SmsReader
import Mathlib.Logic.Function.Basic

/-! The receiver of `sms.c`, which collects SMS-SUBMIT PDUs into messages. -/

namespace M2M.Telephony

/-- `SmsFragmentRec`.  The array `pdus` has `max` entries; behind it is other memory. -/
structure SmsFragment where
  sender : SmsAddressRec
  ref : UInt8
  max : UInt8
  count : UInt8
  index : Nat
  pdus : Nat → Option SmsPDU

/-- The entry `cur` set to the PDU; an old one there is released first. -/
def SmsFragment.put (frag : SmsFragment) (cur : Nat) (pdu : SmsPDU) : SmsFragment :=
  { frag with
    count := (if (frag.pdus cur).isSome then frag.count - 1 else frag.count) + 1
    pdus := Function.update frag.pdus cur (some pdu) }

structure SmsReceiver where
  last : Nat
  fragments : List SmsFragment

/-- The bytes of an address that `memcmp` sees, with those behind its array. -/
def SmsAddressRec.byte (address : SmsAddressRec) (behind : Nat → UInt8) (i : Nat) : UInt8 :=
  address.data.toList.getD i (behind i)

/-- `sms_address_eq`, which compares as many bytes as there are digits. -/
def smsAddressEq (addr1 addr2 : SmsAddressRec) (behind1 behind2 : Nat → UInt8) : Bool :=
  addr1.toa = addr2.toa ∧ addr1.len = addr2.len ∧
    ∀ i < addr1.len.toNat, addr1.byte behind1 i = addr2.byte behind2 i

/-- The surroundings of `sms_receiver_add_submit_pdu`, with the bytes behind its local address and
behind those of the fragments, by their index. -/
structure AddSurroundings extends Surroundings where
  behindFrom : Nat → UInt8
  behindNode : Nat → Nat → UInt8

/-- What `sms_receiver_add_submit_pdu` leaves: its result, the receiver, and where it has written
to an array `pdus`, as the maximum of the fragment and the index. -/
structure Added where
  result : Int
  receiver : SmsReceiver
  wrote : Option (UInt8 × Nat)

namespace SmsReceiver

/-- `sms_receiver_create`. -/
def create : SmsReceiver := ⟨0, []⟩

variable (receiver : SmsReceiver)

section Add

variable (s : AddSurroundings) (pdu : SmsPDU)

/-- The position where `sms_receiver_find_p` stops. -/
def findP (sender : SmsAddressRec) (ref : Int) : Nat :=
  receiver.fragments.findIdx fun node =>
    decide ((node.ref.toNat : Int) = ref) &&
      smsAddressEq node.sender sender (s.behindNode node.index) s.behindFrom

/-- What `sms_fragment_alloc` makes. -/
def newFragment (sender : SmsAddressRec) (ref : Int) (max : Nat) : SmsFragment where
  sender := sender
  ref := UInt8.ofNat ref.toNat
  max := UInt8.ofNat max
  count := 0
  index := receiver.last + 1
  pdus := fun _ => none

/-- `sms_receiver_add_submit_pdu` with what it has extracted from the PDU. -/
def addExtracted (sender : SmsAddressRec) (ref : Int) (max : Nat) (cur : Int) : Added :=
  let pnode := receiver.findP s sender ref
  let (frag, linked) : SmsFragment × SmsReceiver :=
    match receiver.fragments[pnode]? with
    | some frag => (frag, receiver)
    | none =>
      let frag := receiver.newFragment sender ref max
      (frag, { last := receiver.last + 1, fragments := receiver.fragments ++ [frag] })
  -- a new fragment is in the list before the index is checked
  if cur < 0 ∨ (max : Int) ≤ cur then { result := -1, receiver := linked, wrote := none }
  else
    let stored := frag.put cur.toNat pdu
    { result := if stored.max ≤ stored.count then stored.index else 0
      receiver := { linked with fragments := linked.fragments.set pnode stored }
      wrote := some (frag.max, cur.toNat) }

/-- `sms_receiver_add_submit_pdu`.  It does not return when `smspdu_get_user_data_ref` does not,
which is asked for `fuel` rounds. -/
def addSubmitPdu (fuel : Nat) : Option Added := do
  let memory := pdu.memory s.toSurroundings
  match (smspduGetReceiverAddress memory pdu s.address).run.run with
  | none => return { result := -1, receiver, wrote := none }
  | some sender =>
    let ref ← (smspduGetRef memory pdu fuel).run
    if ref < 0 then return { result := -1, receiver, wrote := none }
    else
      let max ← (smspduGetMaxIndex memory pdu fuel).run
      let cur ← (smspduGetCurIndex memory pdu fuel).run
      return receiver.addExtracted s pdu sender ref max cur

end Add

section Text

variable (s : Nat → Surroundings)

/-- The text of one PDU put into the buffer at `pos`: its length or -1, and the buffer.  Nothing
can be copied through NULL. -/
def copyText (s : Surroundings) (pdu : SmsPDU) (pos : Int) (utf8len : Nat) (utf8 : Int → UInt8) :
    Option (Int × (Int → UInt8)) :=
  match (smspduGetTextMessage (pdu.memory s) s.fresh pdu s.address s.rope utf8len).run.run with
  | none => some (-1, utf8)
  | some message =>
    message.utf8.map fun bytes =>
      (message.result, fun i => if pos ≤ i then bytes.getD (i - pos).toNat (utf8 i) else utf8 i)

/-- The loop of `sms_receiver_get_text_message` over `n` PDUs from `nn` on.  NULL entries must not
be read. -/
def getTextLoop (frag : SmsFragment) :
    Nat → Nat → Int → Int → Int → (Int → UInt8) → Option (Int × (Int → UInt8))
  | 0, _, _, _, total, utf8 => some (total, utf8)
  | n + 1, nn, pos, utf8len, total, utf8 => do
    let pdu ← frag.pdus nn
    if 0 < utf8len then
      let (length, utf8) ← copyText (s nn) pdu pos utf8len.toNat utf8
      getTextLoop frag n (nn + 1) (pos + length) (utf8len - length) (total + length) utf8
    else
      let (length, utf8) ← copyText (s nn) pdu pos 0 utf8
      getTextLoop frag n (nn + 1) pos utf8len (total + length) utf8

/-- `sms_receiver_get_text_message` into a buffer of `utf8len` bytes that holds `utf8` before. -/
def getTextMessage (index : Nat) (utf8len : Int) (utf8 : Int → UInt8) :
    Option (Int × (Int → UInt8)) :=
  match receiver.fragments.find? (·.index = index) with
  | none => some (-1, utf8)
  | some frag =>
    if frag.count ≠ frag.max then some (-1, utf8)
    else getTextLoop s frag frag.count.toNat 0 0 utf8len 0 utf8

end Text

/-- `sms_receiver_remove`. -/
def remove (index : Nat) : SmsReceiver :=
  { receiver with fragments := receiver.fragments.eraseP (·.index = index) }

section Deliver

variable (s : Nat → Surroundings)

/-- The second loop of `sms_receiver_create_deliver`. -/
def deliverLoop (frag : SmsFragment) (utf8len : Int) :
    Nat → Nat → Int → (Int → UInt8) → Option (Int → UInt8)
  | 0, _, _, utf8 => some utf8
  | n + 1, nn, total, utf8 => do
    let pdu ← frag.pdus nn
    let (length, utf8) ← copyText (s nn) pdu total (utf8len - total).toNat utf8
    deliverLoop frag utf8len n (nn + 1) (total + length) utf8

/-- `sms_receiver_create_deliver`: the PDUs made for the message, and the receiver without it.  The
buffer for the text holds `utf8` when it is allocated. -/
def createDeliver (index : Nat) (sender : SmsAddress) (now : SmsTimeStamp) (refNum : UInt8)
    (utf8 : Int → UInt8) : Option (Option Delivery × SmsReceiver) :=
  match receiver.fragments.find? (·.index = index) with
  | none => some (none, receiver)
  | some frag =>
    if frag.count ≠ frag.max then some (none, receiver)
    else do
      let (utf8len, _) ← receiver.getTextMessage s index 0 utf8
      if utf8len < 0 then return (none, receiver.remove index)
      else
        let text ← deliverLoop s frag utf8len frag.count.toNat 0 0 utf8
        let around := s frag.count.toNat
        let delivery := smspduCreateDeliverUtf8 around.fresh around.rope sender now refNum
          ((List.range utf8len.toNat).map fun i => text i)
        return (some delivery, receiver.remove index)

end Deliver

end SmsReceiver

end M2M.Telephony
