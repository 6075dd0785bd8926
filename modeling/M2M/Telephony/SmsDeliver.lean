import M2M.Telephony.Sms
import Mathlib.Data.List.Induction

/-! The bytes of an SMS-DELIVER PDU. -/

namespace M2M.Telephony

/-- The address as a PDU has it, with a filler in the last byte of an odd number of digits. -/
def SmsAddress.bytes (addr : SmsAddress) : List UInt8 :=
  [addr.len, addr.toa] ++
    if addr.len.toNat % 2 = 1 then addr.digits.modifyLast (· ||| 0xf0) else addr.digits

theorem SmsAddress.length_bytes (addr : SmsAddress) : addr.bytes.length = 2 + addr.size := by
  have hlen : (addr.digits.modifyLast (· ||| 0xf0)).length = addr.digits.length := by
    cases hd : addr.digits using List.reverseRecOn with
    | nil => rfl
    | append_singleton l c =>
      rw [List.modifyLast_concat, List.length_append, List.length_append]; rfl
  rw [bytes, List.length_append]
  split
  · rw [hlen, addr.length_digits]
    rfl
  · rw [addr.length_digits]
    rfl

def deliverHead (useGsm7 : Bool) (sender : SmsAddress) (timestamp : SmsTimeStamp)
    (pduCount : Nat) : List UInt8 :=
  [0, if 1 < pduCount then 0x20 ||| 0x40 else 0x20] ++ sender.bytes ++
    [0, if useGsm7 then 0x00 else 0x09] ++ timestamp.toList

theorem length_deliverHead (useGsm7 : Bool) (sender : SmsAddress) (timestamp : SmsTimeStamp)
    (pduCount : Nat) :
    (deliverHead useGsm7 sender timestamp pduCount).length = 13 + sender.size := by
  simp only [deliverHead, List.length_append, sender.length_bytes, Vector.length_toList,
    List.length_cons, List.length_nil]
  omega

/-- The length of the user data, and the header of one part of several. -/
def deliverLength (refNum : UInt8) (pduCount pduIndex count headerCount : Nat) : List UInt8 :=
  if 1 < pduCount then
    [UInt8.ofNat (count + headerCount), 0x05, 0x00, 0x03, refNum, UInt8.ofNat pduCount,
      UInt8.ofNat pduIndex + 1]
  else [UInt8.ofNat count]

section

variable (fresh : Nat → UInt8) (useGsm7 : Bool) (sender : SmsAddress) (timestamp : SmsTimeStamp)
  (refNum : UInt8) (pduCount pduIndex : Nat)

theorem addAddress_adds : Adds (addAddress fresh · sender) sender.bytes := by
  have hadds := ((Adds.none.addC fresh sender.len).addC fresh sender.toa).add fresh sender.digits
  by_cases hodd : sender.len.toNat % 2 = 1
  · have hne : sender.digits ≠ [] := by
      rw [← List.length_pos_iff, sender.length_digits, SmsAddressRec.size]
      omega
    have hlast := hadds.orLast (by simp) 0xf0
    rw [List.modifyLast_append_of_right_ne_nil _ _ _ hne] at hlast
    simpa only [addAddress, SmsAddress.bytes, if_pos hodd] using! hlast
  · simpa only [addAddress, SmsAddress.bytes, if_neg hodd] using! hadds

theorem addDeliverHead_adds :
    Adds (addDeliverHead fresh useGsm7 sender timestamp pduCount)
      (deliverHead useGsm7 sender timestamp pduCount) := by
  have hadds := ((((addAddress_adds fresh sender).comp ((Adds.none.addC fresh 0).addC fresh
    (if 1 < pduCount then 0x20 ||| 0x40 else 0x20))).addC fresh 0).addC fresh
    (if useGsm7 then 0x00 else 0x09)).add fresh timestamp.toList
  simpa [deliverHead] using! hadds

theorem addDeliverLength_adds (count headerCount : Nat) :
    Adds (addDeliverLength fresh refNum pduCount pduIndex · count headerCount)
      (deliverLength refNum pduCount pduIndex count headerCount) := by
  by_cases hpdus : 1 < pduCount
  · have hadds := ((((((Adds.none.addC fresh (UInt8.ofNat (count + headerCount))).addC fresh
      0x05).addC fresh 0x00).addC fresh 0x03).addC fresh refNum).addC fresh
      (UInt8.ofNat pduCount)).addC fresh (UInt8.ofNat pduIndex + 1)
    simpa only [addDeliverLength, addSmsUserHeader, deliverLength, if_pos hpdus] using! hadds
  · simpa only [addDeliverLength, deliverLength, if_neg hpdus] using!
      Adds.none.addC fresh (UInt8.ofNat count)

end

/-- A piece is within the limit that is asserted: 154 septets, or 134 bytes of UCS-2. -/
def WithinLimits (utf8 : List UInt8) : Bool → Prop
  | true => Gsm.utf8ToGsm7Count utf8 ≤ 154
  | false => Gsm.utf8ToUcs2Count utf8 * 2 ≤ 134

instance (utf8 : List UInt8) : ∀ useGsm7, Decidable (WithinLimits utf8 useGsm7)
  | true => Nat.decLe _ _
  | false => Nat.decLe _ _

/-- The length of the user data without its header, in septets or in bytes. -/
def deliverCount (utf8 : List UInt8) : Bool → Nat
  | true => Gsm.utf8ToGsm7Count utf8
  | false => Gsm.utf8ToUcs2Count utf8 * 2

def headerCount : Bool → Nat
  | true => 7
  | false => 6

def deliverData (pduCount : Nat) (utf8 : List UInt8) : Bool → List UInt8
  | true =>
    let pad := if 1 < pduCount then 1 else 0
    (List.range ((Gsm.utf8ToGsm7Count utf8 * 7 + pad + 7) / 8)).map
      (Gsm.utf8ToGsm7 utf8 (fun _ => 0) pad).buf
  | false => UInt8.ofNat (Gsm.utf8ToUcs2Count utf8 * 2) :: Gsm.utf8ToUcs2 utf8

def deliverBytes (useGsm7 : Bool) (sender : SmsAddress) (timestamp : SmsTimeStamp)
    (refNum : UInt8) (pduCount pduIndex : Nat) (utf8 : List UInt8) : List UInt8 :=
  deliverHead useGsm7 sender timestamp pduCount ++
    deliverLength refNum pduCount pduIndex (deliverCount utf8 useGsm7) (headerCount useGsm7) ++
    deliverData pduCount utf8 useGsm7

section

variable {fresh : Nat → UInt8} {useGsm7 : Bool} {sender : SmsAddress} {timestamp : SmsTimeStamp}
  {refNum : UInt8} {pduCount pduIndex : Nat} (stack : GsmRope) {utf8 : List UInt8}

theorem smspduCreateDeliver_of_pass {f : GsmRope → GsmRope} {buf : List UInt8} (count : Nat)
    (fill : (Nat → UInt8) → Nat → UInt8) (hf : Adds f buf) (hne : buf ≠ [])
    (hadd : ∀ rope, addSmsDeliverPdu fresh useGsm7 sender timestamp refNum pduCount pduIndex utf8
      rope = some (Adds.pass fresh f count fill rope)) :
    smspduCreateDeliver fresh useGsm7 sender timestamp refNum pduCount pduIndex stack utf8 =
      some { base := buf ++ (List.range count).map (fill fun _ => 0), tpdu := 1 } := by
  rw [smspduCreateDeliver]
  simp only [hadd, Option.bind_eq_bind, Option.bind_some, hf.twice fresh stack count fill hne]
  rfl

theorem smspduCreateDeliver_of_none
    (hadd : ∀ rope, addSmsDeliverPdu fresh useGsm7 sender timestamp refNum pduCount pduIndex utf8
      rope = none) :
    smspduCreateDeliver fresh useGsm7 sender timestamp refNum pduCount pduIndex stack utf8 =
      none := by
  rw [smspduCreateDeliver]
  simp only [hadd]
  rfl

theorem smspduCreateDeliver_eq :
    smspduCreateDeliver fresh useGsm7 sender timestamp refNum pduCount pduIndex stack utf8 =
      if WithinLimits utf8 useGsm7 then
        some
          { base := deliverBytes useGsm7 sender timestamp refNum pduCount pduIndex utf8
            tpdu := 1 }
      else none := by
  have hadds := fun count headers =>
    (addDeliverLength_adds fresh refNum pduCount pduIndex count headers).comp
      (addDeliverHead_adds fresh useGsm7 sender timestamp pduCount)
  by_cases hlimit : WithinLimits utf8 useGsm7
  · rw [if_pos hlimit]
    cases useGsm7 with
    | true =>
      refine smspduCreateDeliver_of_pass stack _
        (fun bytes => (Gsm.utf8ToGsm7 utf8 bytes (if 1 < pduCount then 1 else 0)).buf)
        (hadds _ 7) (by simp [deliverHead]) fun rope => ?_
      rw [addSmsDeliverPdu, if_pos rfl]
      exact if_pos hlimit
    | false =>
      have hucs2 : Gsm.utf8ToUcs2Count utf8 * 2 = (Gsm.utf8ToUcs2 utf8).length := by
        rw [Gsm.utf8ToUcs2Count_eq, Gsm.length_utf8ToUcs2]
      have hcreate := smspduCreateDeliver_of_pass stack (Gsm.utf8ToUcs2Count utf8 * 2)
        (GsmRope.copyTo 0 (Gsm.utf8ToUcs2 utf8))
        ((hadds _ 6).addC fresh (UInt8.ofNat (Gsm.utf8ToUcs2Count utf8 * 2)))
        (by simp [deliverHead]) (fun rope => by
          rw [addSmsDeliverPdu, if_neg Bool.false_ne_true]
          exact if_pos hlimit)
      rw [hcreate, hucs2, GsmRope.map_range_copyTo, List.append_assoc _ [_], List.singleton_append,
        ← hucs2]
      rfl
  · rw [if_neg hlimit]
    refine smspduCreateDeliver_of_none stack fun rope => ?_
    cases useGsm7 with
    | true =>
      rw [addSmsDeliverPdu, if_pos rfl]
      exact if_neg hlimit
    | false =>
      rw [addSmsDeliverPdu, if_neg Bool.false_ne_true]
      exact if_neg hlimit

end

end M2M.Telephony
