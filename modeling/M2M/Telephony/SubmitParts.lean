import M2M.Telephony.RopeGrowth
import M2M.Telephony.RoundTrip
import M2M.Telephony.SmsReader
import M2M.Telephony.Ucs2Gsm
import M2M.Telephony.UserHeader

/-! The parts of a message as SMS-SUBMIT PDUs, and what the readers make of them. -/

open M2M.Lib

namespace M2M.Telephony

/-- The validity period, in the formats of `sms_skip_validity_period`. -/
inductive ValidityPeriod
  | absent
  | relative (period : UInt8)
  | enhanced (period : Vector UInt8 7)
  | absolute (period : Vector UInt8 7)

namespace ValidityPeriod

/-- The bits of the first byte that say which it is. -/
def format : ValidityPeriod → UInt8
  | .absent => 0
  | .relative _ => 1
  | .enhanced _ => 2
  | .absolute _ => 3

def bytes : ValidityPeriod → List UInt8
  | .absent => []
  | .relative period => [period]
  | .enhanced period => period.toList
  | .absolute period => period.toList

end ValidityPeriod

/-- What the PDU of a part has besides the receiver and its place among the parts. -/
structure SubmitPart where
  scAddress : List UInt8
  mtiByte : UInt8
  messageRef : UInt8
  protocolId : UInt8
  dataCoding : UInt8
  validity : ValidityPeriod
  useGsm7 : Bool
  text : List Char
  submit : mtiByte &&& 3 = 1
  hasUDH : mtiByte &&& 0x40 ≠ 0
  format : mtiByte >>> 3 &&& 3 = validity.format
  written : if useGsm7 then Gsm.InAlphabet text else ∀ c ∈ text, c.toNat < 0x10000
  short : deliverCount (Gsm.encode text) useGsm7 + headerCount useGsm7 < 256

namespace SubmitPart

variable (part : SubmitPart)

def dataLength : Nat :=
  deliverCount (Gsm.encode part.text) part.useGsm7 + headerCount part.useGsm7

theorem toNat_dataLength : (UInt8.ofNat part.dataLength).toNat = part.dataLength :=
  UInt8.toNat_ofNat_of_lt' part.short

/-- The byte that `smspdu_get_user_data_ref` takes for the length of the header, if the receiver
has one digit. -/
def countByte : UInt8 :=
  (part.protocolId :: part.dataCoding :: part.validity.bytes).getD part.validity.bytes.length 0

/-- The text, where septets start behind the bit that fills up the header. -/
def data : List UInt8 :=
  if part.useGsm7 then
    (List.range ((Gsm.utf8ToGsm7Count (Gsm.encode part.text) * 7 + 1 + 7) / 8)).map
      (Gsm.utf8ToGsm7 (Gsm.encode part.text) (fun _ => 0) 1).buf
  else Gsm.utf8ToUcs2 (Gsm.encode part.text)

end SubmitPart

/-- A text in parts, and the receiver with any number of digits. -/
structure SubmitMessage where
  len : UInt8
  toa : UInt8
  digits : List UInt8
  refNum : UInt8
  parts : List SubmitPart
  complete : digits.length = (len.toNat + 1) / 2
  nonempty : parts ≠ []
  few : parts.length < 256

namespace SubmitMessage

variable (message : SubmitMessage) (i : Nat) (part : SubmitPart)

/-- The user data of part `i`, with the header that says its place. -/
def userData : List UInt8 :=
  [0x05, 0x00, 0x03, message.refNum, UInt8.ofNat message.parts.length, UInt8.ofNat i + 1] ++
    part.data

def tpdu : List UInt8 :=
  part.mtiByte :: part.messageRef :: message.len :: message.toa :: message.digits ++
    part.protocolId :: part.dataCoding :: part.validity.bytes ++
    UInt8.ofNat part.dataLength :: message.userData i part

def pdu : SmsPDU where
  base := part.scAddress ++ message.tpdu i part
  tpdu := part.scAddress.length

variable {message i part}

theorem length_userData (message : SubmitMessage) (i : Nat) (part : SubmitPart) :
    6 ≤ (message.userData i part).length ∧
      (message.userData i part).length ≤ part.dataLength := by
  rw [userData, List.length_append, SubmitPart.data, SubmitPart.dataLength]
  change 6 ≤ 6 + _ ∧ 6 + _ ≤ _
  cases part.useGsm7 with
  | true =>
    rw [if_pos rfl, List.length_map, List.length_range]
    change _ ∧ _ ≤ Gsm.utf8ToGsm7Count _ + 7
    omega
  | false =>
    rw [if_neg Bool.false_ne_true, Gsm.length_utf8ToUcs2]
    change _ ∧ _ ≤ Gsm.utf8ToUcs2Count _ * 2 + 6
    rw [Gsm.utf8ToUcs2Count_eq]
    omega

/-- The user data ends where its length says, as far as the scan may look, and with a zero. -/
def Stalls (message : SubmitMessage) (i : Nat) (part : SubmitPart) : Prop :=
  part.dataLength ≤ part.countByte.toNat ∧ (message.userData i part).length = part.dataLength ∧
    (message.userData i part).getLast? = some 0

theorem byte_pdu (s : Surroundings) {k : Nat} (hk : k < (message.tpdu i part).length) :
    (message.pdu i part).byte s (part.scAddress.length + k) = (message.tpdu i part).getD k 0 := by
  rw [SmsPDU.byte, pdu, List.getD_append_right _ _ _ _ (Nat.le_add_right ..),
    Nat.add_sub_cancel_left, List.getD_eq_getElem _ _ hk, List.getD_eq_getElem _ _ hk]

theorem length_pdu :
    (message.pdu i part).base.length = part.scAddress.length + (message.tpdu i part).length :=
  List.length_append

theorem length_tpdu : (message.tpdu i part).length =
    7 + (message.len.toNat + 1) / 2 + part.validity.bytes.length +
      (message.userData i part).length := by
  rw [← message.complete, tpdu]
  simp only [List.length_cons, List.length_append]
  omega

theorem byte_front (message : SubmitMessage) (i : Nat) (part : SubmitPart) (s : Surroundings) :
    (message.pdu i part).byte s part.scAddress.length = part.mtiByte ∧
    (message.pdu i part).byte s (part.scAddress.length + 1) = part.messageRef ∧
    (message.pdu i part).byte s (part.scAddress.length + 2) = message.len ∧
    (message.pdu i part).byte s (part.scAddress.length + 3) = message.toa := by
  have hlength := @length_tpdu message i part
  have hbyte := fun k hk => @byte_pdu message i part s k hk
  exact ⟨hbyte 0 (by omega), hbyte 1 (by omega), hbyte 2 (by omega), hbyte 3 (by omega)⟩

end SubmitMessage

namespace Gsm

open M2M.Lib.Bits M2M.Lib.Cutting

theorem valuesAt_succ (mem : Nat → UInt8) (w start n : Nat) :
    valuesAt mem w start (n + 1) =
      (Nat.ofBits fun k : Fin w => bit mem (start + k)) :: valuesAt mem w (start + w) n := by
  rw [valuesAt, List.range_succ_eq_map, List.map_cons, List.map_map]
  congr 2
  funext i
  change (Nat.ofBits fun k : Fin w => bit mem (start + w * (i + 1) + k)) = _
  congr 1
  funext k
  rw [Nat.mul_add, Nat.mul_one, Nat.add_comm (w * i), ← Nat.add_assoc]

theorem plain_moved (v : Nat) (hv : v < 128)
    (h : gsm7bitsToUnicode.getD (2 * (v % 64)) 0 = gsm7bitsToUnicode.getD v 0) : v = 0 := by
  have hcheck : ∀ e ∈ (gsm7bitsToUnicode.zip gsm7bitsExtendToUnicode).zipIdx,
      gsm7bitsToUnicode.getD (2 * (e.2 % 64)) 0 = e.1.1 → e.2 = 0 := by decide +kernel
  exact hcheck _ (codes_mem hv) h

theorem ofBits_moved {mem : Nat → UInt8} {start v : Nat} (hclear : bit mem start = false)
    (hbits : ∀ k < 7, bit mem (start + 1 + k) = v.testBit k) :
    (Nat.ofBits fun k : Fin 7 => bit mem (start + k)) = 2 * (v % 64) := by
  refine eq_of_bits (w := 7) (Nat.ofBits_lt_two_pow _) (by omega) fun k hk => ?_
  rw [Nat.testBit_ofBits_lt _ k hk]
  cases k with
  | zero => simpa using hclear
  | succ k =>
    rw [show 2 * (v % 64) = 2 ^ 1 * (v % 2 ^ 6) by rfl, Nat.testBit_two_pow_mul,
      Nat.testBit_mod_two_pow]
    simp only [Nat.add_sub_cancel]
    rw [show start + (k + 1) = start + 1 + k by omega, hbits k (by omega)]
    simp
    omega

theorem unpackChars_early {mem : Nat → UInt8} {start n : Nat} {text : List Char}
    (hcheck : InAlphabet text) (hclear : bit mem start = false)
    (hfields : Fields mem 7 (start + 1) ((text.map Char.toNat).flatMap septetCodes))
    (hn : n < ((text.map Char.toNat).flatMap septetCodes).length) :
    unpackChars (valuesAt mem 7 start n) false ≠ text := by
  induction text generalizing start n with
  | nil => exact absurd hn (Nat.not_lt_zero n)
  | cons c text ih =>
    cases n with
    | zero =>
      intro h
      cases h
    | succ n =>
      have hcode : ∃ v codes, septetCodes c.toNat = v :: codes ∧ v < 128 ∧
          (unicharToGsm7 c.toNat = some v ∧ codes = [] ∨
            unicharToGsm7 c.toNat = none ∧ v = gsm7bitsEscape) := by
        rw [septetCodes]
        cases hplain : unicharToGsm7 c.toNat with
        | some v => exact ⟨v, [], rfl, (unicharToGsm7_spec hplain).1, .inl ⟨rfl, rfl⟩⟩
        | none =>
          cases hext : unicharToGsm7Extend c.toNat with
          | some nn => exact ⟨gsm7bitsEscape, [nn], rfl, by decide, .inr ⟨rfl, rfl⟩⟩
          | none =>
            refine absurd ?_ (hcheck c List.mem_cons_self)
            rw [unicharToGsm7Count, hplain, hext]
            rfl
      obtain ⟨v, codes, hcodes, hv, hkind⟩ := hcode
      rw [List.map_cons, List.flatMap_cons, hcodes, List.cons_append] at hfields hn
      obtain ⟨hbits, hrest⟩ := Fields.cons_iff.mp hfields
      rw [valuesAt_succ, ofBits_moved hclear hbits, unpackChars,
        if_neg (by rw [gsm7bitsEscape]; omega)]
      intro h
      obtain ⟨hhead, htail⟩ := List.cons.inj h
      have hmoved : gsm7bitsToUnicode.getD (2 * (v % 64)) 0 = c.toNat := by
        rw [← hhead, toNat_ofNat (plain_lt _)]
      rcases hkind with ⟨hplain, rfl⟩ | ⟨hplain, rfl⟩
      · obtain rfl := plain_moved v hv (hmoved.trans (unicharToGsm7_spec hplain).2.symm)
        have hnext : bit mem (start + 7) = false := by simpa using hbits 6 (by decide)
        refine ih (fun d hd => hcheck d (List.mem_cons_of_mem _ hd)) hnext ?_ ?_ htail
        · rwa [Nat.add_right_comm]
        · exact Nat.lt_of_succ_lt_succ hn
      · rw [← hmoved] at hplain
        exact absurd hplain (by decide +kernel)

theorem bit_utf8ToGsm7 (text : List Char) (dst : Nat → UInt8) {offset j : Nat} (hj : j < offset) :
    bit (utf8ToGsm7 (encode text) dst offset).buf j = bit dst j := by
  have hpacked := packed_utf8ToGsm7 text dst offset
  have hoffset := hpacked.offset
  rw [utf8ToGsm7, utf8Codes_encode, BWriter.bit_done hpacked.steady (by omega),
    hpacked.before j hj, BWriter.bitAt_bwriterInit dst hj]

end Gsm

section Readers

variable {mem : Nat → UInt8} {cur stop : Nat}

theorem readBytes_eq (cur n : Nat) :
    readBytes (fun i => (pure (mem i) : Id UInt8)) cur n =
      pure ((List.range n).map fun i => mem (cur + i)) := by
  induction n generalizing cur with
  | zero => rfl
  | succ n ih =>
    rw [readBytes, pure_bind, ih, pure_bind, List.range_succ_eq_map, List.map_cons, List.map_map]
    congr 3
    funext i
    change mem (cur + 1 + i) = mem (cur + (i + 1))
    rw [Nat.add_right_comm, Nat.add_assoc]

/-- An address of at least one digit, with what the local behind its digits holds already. -/
def readAddress (mem : Nat → UInt8) (cur : Nat) (address : SmsAddressRec) : SmsAddressRec where
  len := mem cur
  toa := mem (cur + 1)
  data := Vector.ofFn fun i =>
    ((List.range (((mem cur).toNat + 1) / 2)).map fun k => mem (cur + 2 + k)).getD i
      (address.data.get i)

theorem smsGetAddress_eq (address : SmsAddressRec) (hlen : mem cur ≠ 0)
    (hstop : cur + 2 + ((mem cur).toNat + 1) / 2 ≤ stop) :
    smsGetAddress (fun i => (pure (mem i) : Id UInt8)) cur stop address =
      if smsAddressMaxSize < ((mem cur).toNat + 1) / 2 then failure
      else pure (readAddress mem cur address, cur + 2 + ((mem cur).toNat + 1) / 2) := by
  rw [smsGetAddress, if_pos (by omega : cur < stop)]
  change (if mem cur = 0 then _ else if stop < cur + 1 + 1 + ((mem cur).toNat + 1) / 2 then _
    else _) = _
  rw [if_neg hlen, if_neg (by omega)]
  change (if smsAddressMaxSize < ((mem cur).toNat + 1) / 2 then _ else
    liftM (readBytes (fun i => (pure (mem i) : Id UInt8)) (cur + 2) _) >>= _) = _
  rw [readBytes_eq]
  rfl

/-- The alphabet that the reader takes a coding byte for. -/
def codingOf (dataCoding : UInt8) : SmsCodingScheme :=
  (smsGetCodingScheme (fun _ => (pure dataCoding : Id UInt8)) 0 1).run.1

theorem smsGetCodingScheme_eq (hstop : cur < stop) :
    smsGetCodingScheme (fun i => (pure (mem i) : Id UInt8)) cur stop =
      pure (codingOf (mem cur), cur + 1) := by
  rw [smsGetCodingScheme, if_pos hstop]
  rfl

def unitsAt (mem : Nat → UInt8) (p n : Nat) : List UInt16 :=
  (List.range n).map fun i =>
    UInt16.ofNat ((mem (p + 2 * i)).toNat <<< 8 ||| (mem (p + 2 * i + 1)).toNat)

theorem unitsAt_succ (mem : Nat → UInt8) (p n : Nat) :
    unitsAt mem p (n + 1) =
      UInt16.ofNat ((mem p).toNat <<< 8 ||| (mem (p + 1)).toNat) :: unitsAt mem (p + 2) n := by
  rw [unitsAt, List.range_succ_eq_map, List.map_cons, List.map_map]
  congr 2
  funext i
  change UInt16.ofNat
    ((mem (p + 2 * (i + 1))).toNat <<< 8 ||| (mem (p + 2 * (i + 1) + 1)).toNat) = _
  rw [show p + 2 * (i + 1) = p + 2 + 2 * i by omega]

theorem ucs2ToUtf8_unitsAt (p n : Nat) :
    Gsm.ucs2ToUtf8 (fun i => (pure (mem i) : Id UInt8)) p n =
      pure (Gsm.unitsText (unitsAt mem p n)) := by
  induction n generalizing p with
  | zero => rfl
  | succ n ih =>
    have hlt : (mem p).toNat <<< 8 ||| (mem (p + 1)).toNat < 65536 := by
      have hhigh := (mem p).toNat_lt
      have hlow := (mem (p + 1)).toNat_lt
      rw [← Nat.shiftLeft_add_eq_or_of_lt hlow, Nat.shiftLeft_eq]
      omega
    rw [Gsm.ucs2ToUtf8, pure_bind, pure_bind, ih, pure_bind, unitsAt_succ, Gsm.unitsText_cons,
      UInt16.toNat_ofNat', Nat.mod_eq_of_lt hlt]

/-- The text of an area: of so many septets, or of so many bytes. -/
def TextArea.text (mem : Nat → UInt8) (area : TextArea) : List UInt8 :=
  match area.coding with
  | .unknown => []
  | .gsm7 => Gsm.gsm7Text mem (8 * area.cur) area.len
  | .ucs2 => Gsm.unitsText (unitsAt mem area.cur (area.len / 2))

def headerUnits (hlen : Nat) (coding : SmsCodingScheme) : Nat :=
  if coding = .gsm7 then 2 * (hlen + 1) else hlen + 1

/-- What `sms_get_text_utf8` takes for a text: behind a length, the length of a header, and the
header. -/
def userArea (mem : Nat → UInt8) (cur stop : Nat) (coding : SmsCodingScheme) : Option TextArea :=
  let hlen := (mem (cur + 1)).toNat
  if cur + 2 + hlen ≤ stop ∧ headerUnits hlen coding ≤ (mem cur).toNat then
    some
      { submit := true
        coding
        cur := cur + 2 + hlen
        len := (mem cur).toNat - headerUnits hlen coding }
  else none

theorem smsSkipValidityPeriod_eq {mtiByte : UInt8} {validity : ValidityPeriod}
    (hformat : mtiByte >>> 3 &&& 3 = validity.format)
    (hstop : cur + validity.bytes.length ≤ stop) :
    (smsSkipValidityPeriod cur stop mtiByte : OptionT Id Nat) =
      pure (cur + validity.bytes.length) := by
  rw [smsSkipValidityPeriod, hformat]
  cases validity with
  | absent => exact if_neg (Nat.not_lt.mpr hstop)
  | relative period => exact if_neg (Nat.not_lt.mpr hstop)
  | enhanced period =>
    rw [ValidityPeriod.bytes, Vector.length_toList] at hstop ⊢
    exact if_neg (Nat.not_lt.mpr hstop)
  | absolute period =>
    rw [ValidityPeriod.bytes, Vector.length_toList] at hstop ⊢
    exact if_neg (Nat.not_lt.mpr hstop)

theorem smsGetByte_eq (hstop : cur < stop) :
    smsGetByte (fun i => (pure (mem i) : Id UInt8)) cur stop = pure (mem cur, cur + 1) :=
  if_pos hstop

theorem utf8FromGsm7_eq (p n : Nat) :
    Gsm.utf8FromGsm7 (fun i => (pure (mem i) : Id UInt8)) p 0 n =
      pure (Gsm.gsm7Text mem (8 * p) n) := by
  rw [Gsm.gsm7Text, Gsm.utf8FromGsm7, Gsm.utf8FromGsm7, Nat.shiftRight_eq_div_pow,
    Nat.shiftRight_eq_div_pow, Nat.mul_mod_right, Nat.zero_add,
    Nat.mul_div_cancel_left _ (by decide)]
  rfl

theorem skipUserHeader_eq (len : Nat) (coding : SmsCodingScheme) (hstop : cur < stop) :
    skipUserHeader (fun i => (pure (mem i) : Id UInt8)) cur stop len true coding =
      if stop < cur + 1 + (mem cur).toNat ∨ len < headerUnits (mem cur).toNat coding then failure
      else pure (cur + 1 + (mem cur).toNat, len - headerUnits (mem cur).toNat coding) := by
  rw [skipUserHeader, if_pos rfl, smsGetByte_eq hstop, pure_bind]
  rfl

theorem TextArea.read_eq (area : TextArea) :
    area.read (fun i => (pure (mem i) : Id UInt8)) = pure (area.text mem) := by
  obtain ⟨submit, coding, cur, len⟩ := area
  cases coding with
  | unknown => rfl
  | gsm7 => exact utf8FromGsm7_eq cur len
  | ucs2 => exact ucs2ToUtf8_unitsAt cur (len / 2)

theorem submit_of_userArea {coding : SmsCodingScheme} {area : TextArea}
    (h : userArea mem cur stop coding = some area) : area.submit = true := by
  obtain ⟨-, harea⟩ := Option.ite_none_right_eq_some.mp h
  rw [← Option.some.inj harea]

theorem userArea_eq (coding : SmsCodingScheme) :
    (do
      let (len, cur) ← smsGetByte (fun i => (pure (mem i) : Id UInt8)) cur stop
      let (cur, len) ← skipUserHeader (fun i => (pure (mem i) : Id UInt8)) cur stop len.toNat true
        coding
      return ({ submit := true, coding, cur, len } : TextArea) : OptionT Id TextArea).run.run =
        userArea mem cur stop coding := by
  by_cases hbytes : cur + 1 < stop
  · have hskip := @skipUserHeader_eq mem _ _ (mem cur).toNat coding hbytes
    rw [smsGetByte_eq (Nat.lt_of_succ_lt hbytes), pure_bind, userArea]
    simp only [hskip]
    by_cases hfits : cur + 2 + (mem (cur + 1)).toNat ≤ stop ∧
        headerUnits (mem (cur + 1)).toNat coding ≤ (mem cur).toNat
    · rw [if_pos hfits, if_neg (by omega), pure_bind]
      rfl
    · rw [if_neg hfits, if_pos (by omega)]
      rfl
  · have hnone : userArea mem cur stop coding = none := if_neg (by omega)
    have hskip : skipUserHeader (fun i => (pure (mem i) : Id UInt8)) (cur + 1) stop (mem cur).toNat
        true coding = failure := by
      rw [skipUserHeader, if_pos rfl, smsGetByte, if_neg hbytes]
      rfl
    rw [hnone]
    by_cases hcur : cur < stop
    · rw [smsGetByte_eq hcur, pure_bind]
      simp only [hskip]
      rfl
    · rw [smsGetByte, if_neg hcur]
      rfl

theorem stores_addText (fresh : Nat → UInt8) (rope : GsmRope) (text : List UInt8) :
    ((rope.initAlloc 0).addText fresh text).Stores text := by
  rw [GsmRope.addText_eq]
  by_cases hfit : text.length ≤ GsmRope.dataSize
  · exact (GsmRope.inline_initAlloc_zero.add fresh hfit).toStores
  · exact (GsmRope.inline_initAlloc_zero.add_over fresh (Nat.not_le.mp hfit)).toStores

theorem textMessage_of_stores {rope : GsmRope} {text : List UInt8} (h : rope.Stores text)
    (utf8len : Nat) : rope.textMessage utf8len = ⟨text.length, some (text.take utf8len)⟩ := by
  obtain ⟨bytes, hbytes, hheld⟩ := h.bytes
  rw [GsmRope.textMessage, h.pos]
  congr 1
  by_cases hpos : min utf8len text.length > 0
  · rw [if_pos hpos, hbytes, Option.map_some]
    refine congrArg some (List.ext_getElem (by simp) fun k hk hk' => ?_)
    rw [List.length_map, List.length_range] at hk
    have hlt : k < text.length := by omega
    rw [List.getElem_map, List.getElem_range, hheld k hlt, List.getElem_take,
      List.getD_eq_getElem _ _ hlt]
  · rw [if_neg hpos]
    refine congrArg some (List.eq_nil_of_length_eq_zero ?_).symm
    rw [List.length_take]
    omega

variable {pdu : SmsPDU} {s : Surroundings} {fuel : Nat}

theorem smspduGetMaxIndex_of_none (h : pdu.userDataRef s fuel = none) :
    (smspduGetMaxIndex (pdu.memory s) pdu fuel).run = some 1 := by
  rw [smspduGetMaxIndex, Id.run_bind]
  rw [show (smspduGetUserDataRef (pdu.memory s) pdu fuel).run.run = none from h]
  rfl

theorem smspduGetCurIndex_of_none (h : pdu.userDataRef s fuel = none) :
    (smspduGetCurIndex (pdu.memory s) pdu fuel).run = some 0 := by
  rw [smspduGetCurIndex, Id.run_bind]
  rw [show (smspduGetUserDataRef (pdu.memory s) pdu fuel).run.run = none from h]
  rfl

theorem smspduGetRef_of_none (h : pdu.userDataRef s fuel = none)
    (hsubmit : pdu.byte s pdu.tpdu &&& 3 = 1) (hstop : pdu.tpdu + 1 < pdu.base.length) :
    (smspduGetRef (pdu.memory s) pdu fuel).run = some (pdu.byte s (pdu.tpdu + 1)).toNat := by
  rw [smspduGetRef, Id.run_bind]
  rw [show (smspduGetUserDataRef (pdu.memory s) pdu fuel).run.run = none from h]
  simp only [if_pos hstop]
  change (if pdu.byte s pdu.tpdu &&& 3 = 1 then some ((pdu.byte s (pdu.tpdu + 1)).toNat : Int)
    else some (-1)) = _
  rw [if_pos hsubmit]
  rfl

theorem smspduGetRef_of_running (h : pdu.userDataRef s fuel = some none) :
    (smspduGetRef (pdu.memory s) pdu fuel).run = none := by
  rw [smspduGetRef, Id.run_bind]
  rw [show (smspduGetUserDataRef (pdu.memory s) pdu fuel).run.run = some none from h]
  rfl

end Readers

section Scan

/-- A scan for the header that begins a byte in front of the user data length, whose bytes end at
`stop` or would go on. -/
structure Early (mem : Nat → UInt8) (stop p len : Nat) : Prop where
  length : (mem (p + 1)).toNat = len
  header : 6 ≤ len
  stop : stop ≤ p + 2 + len

variable {mem : Nat → UInt8} {stop p len count k : Nat}

theorem stride_le (mem : Nat → UInt8) (p k : Nat) : stride mem p 1 ≤ stride mem p (k + 1) := by
  induction k with
  | zero => exact Nat.le_refl _
  | succ k ih => exact Nat.le_trans ih (Nat.le_add_right ..)

namespace Early

theorem stride_one (h : Early mem stop p len) : stride mem p 1 = p + len := by
  rw [← h.length]
  rfl

theorem not_isRefAt (h : Early mem stop p len) : ¬IsRefAt mem stop p := by
  rintro ⟨-, hthree, -⟩
  have hlength := h.length
  have hheader := h.header
  rw [hthree] at hlength
  change 3 = len at hlength
  omega

theorem stride_eq (h : Early mem stop p len) (hpasses : Passes mem stop p count (k + 1))
    (hreadable : Readable mem stop p count (k + 1)) :
    stride mem p (k + 1) = p + len ∧ stop = p + 2 + len ∧ len ≤ count := by
  have hfirst : Readable mem stop p count 1 := by
    cases k with
    | zero => exact hreadable
    | succ k => exact (hpasses 1 (by omega)).1
  have hle := stride_le mem p k
  have hstop := h.stop
  obtain ⟨hbound, hcount⟩ := hfirst
  have hend := hreadable.1
  rw [h.stride_one] at hbound hcount hle
  omega

theorem not_comesTo (h : Early mem stop p len) (ref : Nat) : ¬ComesTo mem stop ⟨p, count⟩ ref := by
  rw [comesTo_iff]
  rintro ⟨k, hpasses, hreadable, hIsRef, -⟩
  cases k with
  | zero => exact h.not_isRefAt hIsRef
  | succ k =>
    obtain ⟨hstride, hstop, -⟩ := h.stride_eq hpasses hreadable
    have hend := hIsRef.2.2
    omega

theorem ends_iff (h : Early mem stop p len) :
    (∃ r, Results (ElementScan.round mem stop) ⟨p, count⟩ r) ↔
      ¬(len ≤ count ∧ stop = p + 2 + len ∧ mem (p + len + 1) = 0) := by
  have hheader := h.header
  rw [M2M.Telephony.ends_iff]
  constructor
  · rintro hnonzero ⟨hcount, hstop, hzero⟩
    have hpasses : Passes mem stop p count 1 := by
      intro j hj
      obtain rfl := Nat.lt_one_iff.mp hj
      refine ⟨⟨?_, ?_⟩, h.not_isRefAt⟩
      · change p + 2 ≤ stop
        omega
      · change p + 2 ≤ _
        omega
    have hreadable : Readable mem stop p count 1 := by
      rw [Readable, h.stride_one]
      omega
    refine hnonzero 1 hpasses hreadable ?_
    rw [h.stride_one, hzero]
  · intro hnot k hpasses hreadable
    cases k with
    | zero =>
      intro hzero
      have hlength := h.length
      change mem (p + 1) = 0 at hzero
      rw [hzero, UInt8.toNat_zero] at hlength
      omega
    | succ k =>
      obtain ⟨hstride, hstop, hcount⟩ := h.stride_eq hpasses hreadable
      rw [hstride]
      exact fun hzero => hnot ⟨hcount, hstop, hzero⟩

end Early

end Scan

namespace SubmitMessage

theorem smsGetByte_mtiByte (message : SubmitMessage) (i : Nat) (part : SubmitPart)
    (s : Surroundings) :
    smsGetByte ((message.pdu i part).memory s) part.scAddress.length
      (message.pdu i part).base.length = pure (part.mtiByte, part.scAddress.length + 1) := by
  have hstop := @length_pdu message i part
  rw [length_tpdu] at hstop
  rw [← (byte_front message i part s).1]
  exact smsGetByte_eq (by omega)

theorem receiverAddress_eq {message : SubmitMessage} {i : Nat} {part : SubmitPart}
    (hlen : message.len ≠ 0) (s : Surroundings) :
    (smspduGetReceiverAddress ((message.pdu i part).memory s) (message.pdu i part)
      s.address).run.run =
        if smsAddressMaxSize < (message.len.toNat + 1) / 2 then none
        else some (readAddress ((message.pdu i part).byte s) (part.scAddress.length + 2)
          s.address) := by
  obtain ⟨-, -, hbyte, -⟩ := byte_front message i part s
  have hstop := @length_pdu message i part
  rw [length_tpdu] at hstop
  have haddress := @smsGetAddress_eq ((message.pdu i part).byte s) (part.scAddress.length + 1 + 1)
    (message.pdu i part).base.length s.address (by rw [hbyte]; exact hlen) (by rw [hbyte]; omega)
  rw [hbyte] at haddress
  rw [smspduGetReceiverAddress]
  change (smsGetByte ((message.pdu i part).memory s) part.scAddress.length _ >>= _).run.run = _
  rw [smsGetByte_mtiByte, pure_bind]
  simp only [part.submit, if_true]
  change (smsGetAddress (fun k => (pure ((message.pdu i part).byte s k) : Id UInt8))
    (part.scAddress.length + 1 + 1) _ _ >>= _).run.run = _
  rw [haddress]
  split
  · rfl
  · rfl

section OneDigit

variable {message : SubmitMessage} {i : Nat} {part : SubmitPart} (hone : message.len = 1)

include hone

theorem length_digits_one : message.digits.length = 1 := by
  rw [message.complete, hone]
  rfl

theorem exists_digit : ∃ digit, message.digits = [digit] :=
  List.length_eq_one_iff.mp (length_digits_one hone)

theorem tpdu_one {digit : UInt8} (hdigit : message.digits = [digit]) :
    message.tpdu i part =
      part.mtiByte :: part.messageRef :: 1 :: message.toa :: digit ::
        ((part.protocolId :: part.dataCoding :: part.validity.bytes) ++
          UInt8.ofNat part.dataLength :: message.userData i part) := by
  rw [tpdu, hdigit, hone]
  simp

theorem length_tpdu_one : (message.tpdu i part).length =
    8 + part.validity.bytes.length + (message.userData i part).length := by
  rw [length_tpdu, hone]
  change 7 + (1 + 1) / 2 + _ + _ = _
  omega

theorem byte_behind (s : Surroundings) {k : Nat} (hk : k < 2 + part.validity.bytes.length) :
    (message.pdu i part).byte s (part.scAddress.length + 5 + k) =
      (part.protocolId :: part.dataCoding :: part.validity.bytes).getD k 0 := by
  obtain ⟨digit, hdigit⟩ := exists_digit hone
  have hlength := @length_tpdu_one message i part hone
  have hbyte := @byte_pdu message i part s (k + 5) (by omega)
  rw [tpdu_one hone hdigit] at hbyte
  rw [Nat.add_assoc, Nat.add_comm 5, hbyte]
  simp only [List.getD_cons_succ]
  rw [List.getD_append _ _ _ _ (by simp only [List.length_cons]; omega)]

theorem byte_userData (s : Surroundings) {k : Nat} (hk : k ≤ (message.userData i part).length) :
    (message.pdu i part).byte s
        (part.scAddress.length + 7 + part.validity.bytes.length + k) =
      (UInt8.ofNat part.dataLength :: message.userData i part).getD k 0 := by
  obtain ⟨digit, hdigit⟩ := exists_digit hone
  have hlength := @length_tpdu_one message i part hone
  have hbyte := @byte_pdu message i part s (part.validity.bytes.length + 2 + k + 5) (by omega)
  rw [tpdu_one hone hdigit] at hbyte
  rw [show part.scAddress.length + 7 + part.validity.bytes.length + k =
    part.scAddress.length + (part.validity.bytes.length + 2 + k + 5) by omega, hbyte]
  simp only [List.getD_cons_succ]
  rw [List.getD_append_right _ _ _ _ (by simp only [List.length_cons]; omega)]
  congr 1
  simp only [List.length_cons]
  omega

theorem headerPlace_one (s : Surroundings) : (message.pdu i part).headerPlace s =
    some (part.scAddress.length + 6 + part.validity.bytes.length, part.countByte.toNat) := by
  obtain ⟨-, -, hlen, -⟩ := byte_front message i part s
  have hcount := @byte_behind message i part hone s part.validity.bytes.length (by omega)
  have hstop := @length_pdu message i part
  rw [length_tpdu_one hone] at hstop
  have haddress : smsSkipAddress ((message.pdu i part).memory s) (part.scAddress.length + 1 + 1)
      (message.pdu i part).base.length = pure () := by
    refine (if_neg (by omega)).trans ?_
    change (if (message.pdu i part).base.length < part.scAddress.length + 2 + 2 +
      (((message.pdu i part).byte s (part.scAddress.length + 2)).toNat + 1) / 2 then failure
        else pure ()) = (pure () : OptionT Id Unit)
    rw [hlen, hone]
    exact if_neg (by change ¬ _ < _ + (1 + 1) / 2; omega)
  have hvalidity := smsSkipValidityPeriod_eq part.format
    (by omega : part.scAddress.length + 1 + 1 + 2 + part.validity.bytes.length ≤
      (message.pdu i part).base.length)
  have hplace : userDataHeader ((message.pdu i part).memory s) (message.pdu i part) =
      pure (part.scAddress.length + 6 + part.validity.bytes.length, part.countByte.toNat) := by
    rw [userDataHeader]
    change (smsGetByte ((message.pdu i part).memory s) part.scAddress.length _ >>= _) = _
    rw [smsGetByte_mtiByte, pure_bind]
    simp only [if_neg part.hasUDH, part.submit, if_true]
    change (smsSkipAddress ((message.pdu i part).memory s) _ _ >>= _) = _
    rw [haddress, pure_bind, hvalidity, pure_bind]
    refine (if_neg (by omega)).trans ?_
    change (pure (_, ((message.pdu i part).byte s (part.scAddress.length + 1 + 1 + 2 +
      part.validity.bytes.length + 1)).toNat) : OptionT Id (Nat × Nat)) = _
    rw [show part.scAddress.length + 1 + 1 + 2 + part.validity.bytes.length + 1 =
      part.scAddress.length + 5 + part.validity.bytes.length by omega, hcount]
    congr 2
    omega
  rw [SmsPDU.headerPlace, hplace]
  rfl

theorem early_one (s : Surroundings) : Early ((message.pdu i part).byte s)
    (message.pdu i part).base.length
    (part.scAddress.length + 6 + part.validity.bytes.length) part.dataLength where
  length := by
    have hbyte := @byte_userData message i part hone s 0 (Nat.zero_le _)
    rw [show part.scAddress.length + 6 + part.validity.bytes.length + 1 =
      part.scAddress.length + 7 + part.validity.bytes.length + 0 by omega, hbyte]
    exact part.toNat_dataLength
  header := (length_userData message i part).1.trans (length_userData message i part).2
  stop := by
    have hle := (length_userData message i part).2
    rw [length_pdu, length_tpdu_one hone]
    omega

theorem ends_one_iff (s : Surroundings) :
    (∃ r, Results ((message.pdu i part).elementRound s)
      ⟨part.scAddress.length + 6 + part.validity.bytes.length, part.countByte.toNat⟩ r) ↔
      ¬message.Stalls i part := by
  have hlength := length_userData message i part
  have hstop := @length_pdu message i part
  rw [length_tpdu_one hone] at hstop
  refine (early_one hone s).ends_iff.trans (not_congr (and_congr_right fun _ => ?_))
  have hend : (message.pdu i part).base.length = part.scAddress.length + 6 +
      part.validity.bytes.length + 2 + part.dataLength ↔
      (message.userData i part).length = part.dataLength := by omega
  rw [hend]
  refine and_congr_right fun hsame => ?_
  have hlast := @byte_userData message i part hone s part.dataLength (Nat.le_of_eq hsame.symm)
  obtain ⟨n, hn⟩ : ∃ n, part.dataLength = n + 1 := ⟨part.dataLength - 1, by omega⟩
  rw [hn] at hsame hlast
  have hlt : n < (message.userData i part).length := by omega
  rw [hn, show part.scAddress.length + 6 + part.validity.bytes.length + (n + 1) + 1 =
    part.scAddress.length + 7 + part.validity.bytes.length + (n + 1) by omega, hlast,
    List.getD_cons_succ, List.getD_eq_getElem _ _ hlt, List.getLast?_eq_getElem?, hsame,
    Nat.add_sub_cancel, List.getElem?_eq_getElem hlt, Option.some_inj]

theorem userDataRef_one (s : Surroundings) (fuel : Nat) :
    (message.pdu i part).userDataRef s fuel = none ∨
      (message.pdu i part).userDataRef s fuel = some none := by
  rw [SmsPDU.userDataRef_of_some (headerPlace_one hone s)]
  cases hloop : loopWithin ((message.pdu i part).elementRound s) fuel
      ⟨part.scAddress.length + 6 + part.validity.bytes.length, part.countByte.toNat⟩ with
  | none => exact .inr rfl
  | some r =>
    cases r with
    | none => exact .inl rfl
    | some ref =>
      exact absurd (results_some_iff.mp ⟨fuel, hloop⟩) ((early_one hone s).not_comesTo ref)

theorem userDataRef_of_stalls (hstalls : message.Stalls i part) (s : Surroundings) (fuel : Nat) :
    (message.pdu i part).userDataRef s fuel = some none := by
  rw [SmsPDU.userDataRef_of_some (headerPlace_one hone s)]
  cases hloop : loopWithin ((message.pdu i part).elementRound s) fuel
      ⟨part.scAddress.length + 6 + part.validity.bytes.length, part.countByte.toNat⟩ with
  | none => rfl
  | some r => exact absurd hstalls ((ends_one_iff hone s).mp ⟨r, fuel, hloop⟩)

theorem userDataRef_of_not_stalls (hends : ¬message.Stalls i part) (s : Surroundings) {fuel : Nat}
    (hfuel : (message.pdu i part).base.length < fuel) :
    (message.pdu i part).userDataRef s fuel = none := by
  have hnonzero := exists_results_iff.mp ((ends_one_iff hone s).mpr hends)
  obtain ⟨r, hloop⟩ :=
    exists_loopWithin_of_nonzero hnonzero (Nat.lt_of_le_of_lt (Nat.sub_le _ _) hfuel)
  rcases userDataRef_one hone s fuel with hnone | hrunning
  · exact hnone
  · rw [SmsPDU.userDataRef_of_some (headerPlace_one hone s)] at hrunning
    change (loopWithin (ElementScan.round _ _) _ _).elim (some none) (Option.map some) = _
      at hrunning
    rw [hloop] at hrunning
    cases r <;> simp at hrunning

theorem textHead_one (s : Surroundings) :
    textHead ((message.pdu i part).memory s) (message.pdu i part) part.mtiByte
        (part.scAddress.length + 1) s.address =
      if codingOf part.dataCoding = .unknown then failure
      else pure (codingOf part.dataCoding, part.scAddress.length + 7) := by
  obtain ⟨-, -, hlen, -⟩ := byte_front message i part s
  rw [hone] at hlen
  have hcoding : (message.pdu i part).byte s (part.scAddress.length + 5 + 1) = part.dataCoding :=
    byte_behind hone s (by omega)
  have hstop := @length_pdu message i part
  rw [length_tpdu_one hone] at hstop
  have haddress := @smsGetAddress_eq ((message.pdu i part).byte s) (part.scAddress.length + 1 + 1)
    (message.pdu i part).base.length s.address (by rw [hlen]; decide)
    (by rw [hlen]; change _ + 2 + (1 + 1) / 2 ≤ _; omega)
  rw [hlen] at haddress
  change _ = if (smsAddressMaxSize < 1) then failure
    else pure (_, part.scAddress.length + 1 + 1 + 2 + 1) at haddress
  rw [if_neg (by decide)] at haddress
  have hscheme := @smsGetCodingScheme_eq ((message.pdu i part).byte s)
    (part.scAddress.length + 5 + 1) (message.pdu i part).base.length (by omega)
  rw [hcoding] at hscheme
  simp only [textHead, part.submit, if_true]
  change (smsGetAddress (fun k => (pure ((message.pdu i part).byte s k) : Id UInt8))
    (part.scAddress.length + 1 + 1) _ _ >>= _) = _
  rw [haddress, pure_bind]
  change ((liftM (smsGetCodingScheme (fun k => (pure ((message.pdu i part).byte s k) : Id UInt8))
    (part.scAddress.length + 5 + 1) _) : OptionT Id (SmsCodingScheme × Nat)) >>= _) = _
  rw [hscheme]
  rfl

theorem textArea_one (s : Surroundings) :
    (textArea ((message.pdu i part).memory s) (message.pdu i part) s.address).run.run =
      if codingOf part.dataCoding = .unknown then none
      else userArea ((message.pdu i part).byte s) (part.scAddress.length + 7)
        (message.pdu i part).base.length (codingOf part.dataCoding) := by
  rw [textArea]
  change (smsGetByte ((message.pdu i part).memory s) part.scAddress.length _ >>= _).run.run = _
  rw [smsGetByte_mtiByte, pure_bind]
  simp only [textHead_one hone s, part.submit, decide_eq_true part.hasUDH, decide_true]
  split
  · rfl
  · rw [pure_bind]
    exact userArea_eq (codingOf part.dataCoding)

theorem textMessage_one (s : Surroundings) (utf8len : Nat) :
    (smspduGetTextMessage ((message.pdu i part).memory s) s.fresh (message.pdu i part) s.address
      s.rope utf8len).run.run =
        if codingOf part.dataCoding = .unknown then none
        else (userArea ((message.pdu i part).byte s) (part.scAddress.length + 7)
          (message.pdu i part).base.length (codingOf part.dataCoding)).map fun area =>
            ⟨(area.text ((message.pdu i part).byte s)).length,
              some ((area.text ((message.pdu i part).byte s)).take utf8len)⟩ := by
  rw [smspduGetTextMessage_eq, run_run_bind, textArea_one hone s]
  split
  · rfl
  · cases harea : userArea ((message.pdu i part).byte s) (part.scAddress.length + 7)
        (message.pdu i part).base.length (codingOf part.dataCoding) with
    | none => rfl
    | some area =>
      have hread : area.read ((message.pdu i part).memory s) = pure _ := area.read_eq
      rw [Option.bind_some, hread, Option.map_some, TextArea.rope, submit_of_userArea harea,
        if_pos rfl]
      exact congrArg some (textMessage_of_stores (stores_addText s.fresh s.rope _) utf8len)

end OneDigit

section Kinds

variable {message : SubmitMessage} {i : Nat} {part : SubmitPart}

/-- The reader takes what is behind the coding byte for the text of the part. -/
def Spelled (message : SubmitMessage) (i : Nat) (part : SubmitPart) : Prop :=
  codingOf part.dataCoding ≠ .unknown ∧ ∀ s : Surroundings,
    (userArea ((message.pdu i part).byte s) (part.scAddress.length + 6 + message.digits.length)
      (message.pdu i part).base.length (codingOf part.dataCoding)).map
        (TextArea.text ((message.pdu i part).byte s)) = some (Gsm.encode part.text)

variable (hone : message.len = 1) (habsent : part.validity = .absent)

include hone habsent

/-- Without a validity period the reader takes the user data for what it is, apart from the size of
its header. -/
theorem userArea_absent (s : Surroundings) (coding : SmsCodingScheme) :
    userArea ((message.pdu i part).byte s) (part.scAddress.length + 7)
        (message.pdu i part).base.length coding =
      if headerUnits 5 coding ≤ part.dataLength then
        some
          { submit := true
            coding
            cur := part.scAddress.length + 14
            len := part.dataLength - headerUnits 5 coding }
      else none := by
  have hdata := length_userData message i part
  have hstop := @length_pdu message i part
  have hlen := @byte_userData message i part hone s 0 (Nat.zero_le _)
  have hhlen := @byte_userData message i part hone s 1 (by omega)
  rw [length_tpdu_one hone, habsent] at hstop
  rw [habsent] at hlen hhlen
  change (message.pdu i part).base.length = part.scAddress.length + (8 + 0 + _) at hstop
  change (message.pdu i part).byte s (part.scAddress.length + 7) = UInt8.ofNat part.dataLength
    at hlen
  change (message.pdu i part).byte s (part.scAddress.length + 7 + 1) = 5 at hhlen
  rw [userArea, hlen, hhlen, part.toNat_dataLength]
  change (if part.scAddress.length + 7 + 2 + 5 ≤ _ ∧ headerUnits 5 coding ≤ _ then
    some (⟨true, coding, part.scAddress.length + 7 + 2 + 5, _⟩ : TextArea) else none) = _
  by_cases hheader : headerUnits 5 coding ≤ part.dataLength
  · rw [if_pos hheader]
    exact if_pos ⟨by omega, hheader⟩
  · rw [if_neg hheader]
    exact if_neg fun h => hheader h.2

theorem byte_data (s : Surroundings) {k : Nat} (hk : k < part.data.length) :
    (message.pdu i part).byte s (part.scAddress.length + 14 + k) = part.data.getD k 0 := by
  have hbyte := @byte_userData message i part hone s (k + 7)
    (by rw [userData, List.length_append]; change _ ≤ 6 + _; omega)
  rw [habsent] at hbyte
  rw [show part.scAddress.length + 14 + k =
    part.scAddress.length + 7 + ValidityPeriod.absent.bytes.length + (k + 7) by
      change _ = part.scAddress.length + 7 + 0 + (k + 7); omega, hbyte]
  rfl

theorem spelled_ucs2 (hucs2 : part.useGsm7 = false) (hcoding : codingOf part.dataCoding = .ucs2) :
    message.Spelled i part := by
  let units : List UInt16 := part.text.map fun c => UInt16.ofNat c.toNat
  have hbmp := part.written
  rw [hucs2, if_neg Bool.false_ne_true] at hbmp
  have hdata : part.data = Gsm.ucs2Bytes units := by
    rw [SubmitPart.data, hucs2, if_neg Bool.false_ne_true, Gsm.utf8ToUcs2, Gsm.utf8Codes_encode,
      Gsm.ucs2Bytes, List.flatMap_map, List.flatMap_map]
    congr 1
    funext c
    exact (Gsm.ucs2Write_ofNat c.toNat).symm
  have htext : Gsm.unitsText units = Gsm.encode part.text := by
    rw [Gsm.unitsText, Gsm.encode, List.flatMap_map]
    refine List.flatMap_congr fun c hc => ?_
    rw [UInt16.toNat_ofNat', Nat.mod_eq_of_lt (hbmp c hc), Gsm.utf8Write_char (hbmp c hc)]
  have hlength : part.dataLength = 2 * part.text.length + 6 := by
    rw [SubmitPart.dataLength, hucs2]
    change Gsm.utf8ToUcs2Count _ * 2 + 6 = _
    rw [Gsm.utf8ToUcs2Count_encode, Nat.mul_comm]
  refine ⟨by rw [hcoding]; decide, fun s => ?_⟩
  rw [length_digits_one hone, hcoding, userArea_absent hone habsent,
    if_pos (by rw [hlength]; change 6 ≤ _; omega)]
  change some (Gsm.unitsText (unitsAt _ _ ((part.dataLength - 6) / 2))) = _
  have hread : Gsm.ucs2ToUtf8 (fun k => (pure ((message.pdu i part).byte s k) : Id UInt8))
      (part.scAddress.length + 14) units.length = pure (Gsm.unitsText units) := by
    refine Gsm.ucs2ToUtf8_eq units fun k b hb => ?_
    rw [← hdata] at hb
    obtain ⟨hk, rfl⟩ := List.getElem?_eq_some_iff.mp hb
    rw [byte_data hone habsent s hk, List.getD_eq_getElem _ _ hk]
  rw [ucs2ToUtf8_unitsAt, List.length_map] at hread
  rw [hlength, Nat.add_sub_cancel, Nat.mul_div_cancel_left _ (by decide : 0 < 2), ← htext]
  exact congrArg some (congrArg Id.run hread)

/-- A text of septets is not: the header counts for twelve instead of seven of them, and what fills
up its last one for a part of the text. -/
theorem not_spelled_gsm7 (hgsm7 : part.useGsm7 = true)
    (hcoding : codingOf part.dataCoding = .gsm7) : ¬message.Spelled i part := by
  rintro ⟨-, hspelled⟩
  have hcheck := part.written
  rw [hgsm7, if_pos rfl] at hcheck
  have hcount := Gsm.length_codes part.text
  have hlength : part.dataLength = Gsm.utf8ToGsm7Count (Gsm.encode part.text) + 7 := by
    rw [SubmitPart.dataLength, hgsm7]
    rfl
  let s : Surroundings :=
    { beyond := fun _ => 0, fresh := fun _ => 0, address := ⟨0, 0, Vector.replicate _ 0⟩
      rope := { data := .null, max := 0, pos := 0, error := false, data0 := fun _ => 0 } }
  have hread := hspelled s
  rw [length_digits_one hone, hcoding, userArea_absent hone habsent] at hread
  obtain ⟨area, harea, hread⟩ := Option.map_eq_some_iff.mp hread
  obtain ⟨hheader, harea⟩ := Option.ite_none_right_eq_some.mp harea
  obtain rfl := Option.some.inj harea
  change 12 ≤ _ at hheader
  change Gsm.gsm7Text _ (8 * (part.scAddress.length + 14)) (part.dataLength - 12) = _ at hread
  rw [Gsm.gsm7Text_eq, Gsm.encode_injective.eq_iff] at hread
  have hbit : ∀ j < 7 * Gsm.utf8ToGsm7Count (Gsm.encode part.text) + 1,
      Bits.bit ((message.pdu i part).byte s) (8 * (part.scAddress.length + 14) + j) =
        Bits.bit (Gsm.utf8ToGsm7 (Gsm.encode part.text) (fun _ => 0) 1).buf j := by
    intro j hj
    have hdata : part.data = (List.range ((Gsm.utf8ToGsm7Count (Gsm.encode part.text) * 7 + 1 + 7)
        / 8)).map (Gsm.utf8ToGsm7 (Gsm.encode part.text) (fun _ => 0) 1).buf := by
      rw [SubmitPart.data, hgsm7, if_pos rfl]
    have hk : j / 8 < part.data.length := by
      rw [hdata, List.length_map, List.length_range]
      omega
    rw [Bits.bit, Bits.bit,
      show (8 * (part.scAddress.length + 14) + j) / 8 = part.scAddress.length + 14 + j / 8 by omega,
      show (8 * (part.scAddress.length + 14) + j) % 8 = j % 8 by omega,
      byte_data hone habsent s hk, List.getD_eq_getElem _ _ hk]
    simp only [hdata, List.getElem_map, List.getElem_range]
  refine Gsm.unpackChars_early hcheck ?_ ?_ (by omega) hread
  · rw [← Nat.add_zero (8 * (part.scAddress.length + 14)), hbit 0 (by omega),
      Gsm.bit_utf8ToGsm7 part.text (fun _ => 0) Nat.one_pos]
    decide
  · intro k v hv b hb
    have hlt := (List.getElem?_eq_some_iff.mp hv).1
    rw [← Gsm.fields_utf8ToGsm7 part.text (fun _ => 0) 1 k v hv b hb, ← hbit _ (by omega)]
    congr 1
    omega

end Kinds

end SubmitMessage

end M2M.Telephony
