import M2M.Telephony.Fragments
import M2M.Telephony.SmsReader

/-! What the readers make of the PDUs of a message. -/

open M2M.Lib.Cutting

namespace M2M.Telephony

/-- A text of characters up to U+FFFF from a dialled number. -/
structure Message where
  text : List Char
  bmp : ∀ c ∈ text, c.toNat < 0x10000
  sender : SmsAddress
  dialled : ∃ src, smsAddressFromStr src = some sender.toSmsAddressRec
  timestamp : SmsTimeStamp

/-- The same number, whatever the bytes behind its digits. -/
def SmsAddressRec.Same (a b : SmsAddressRec) : Prop :=
  a.len = b.len ∧ a.toa = b.toa ∧ a.digits = b.digits

/-- The readers return what went into the PDUs. -/
structure ReadsBack (msg : Message) (pdus : List SmsPDU) : Prop where
  sender : ∀ pdu ∈ pdus, ∀ s : Surroundings, ∃ address,
    (smspduGetSenderAddress (pdu.memory s) pdu s.address).run.run = some address ∧
      address.Same msg.sender.toSmsAddressRec
  timestamp : ∀ pdu ∈ pdus, ∀ s : Surroundings,
    (smspduGetScTimestamp (pdu.memory s) pdu s.address).run.run = some msg.timestamp
  curIndex : ∀ (k : Nat) (pdu : SmsPDU), pdus[k]? = some pdu → ∀ s : Surroundings, ∃ fuel,
    (smspduGetCurIndex (pdu.memory s) pdu fuel).run = some (k : Int)
  maxIndex : ∀ pdu ∈ pdus, ∀ s : Surroundings, ∃ fuel,
    (smspduGetMaxIndex (pdu.memory s) pdu fuel).run = some pdus.length
  text : ∀ (s : Nat → Surroundings) (utf8len : Nat), (Gsm.encode msg.text).length ≤ utf8len →
    ∃ pieces : List (List UInt8), pieces.length = pdus.length ∧
      pieces.flatten = Gsm.encode msg.text ∧
      ∀ (k : Nat) (pdu : SmsPDU) (piece : List UInt8),
        pdus[k]? = some pdu → pieces[k]? = some piece →
        (smspduGetTextMessage (pdu.memory (s k)) (s k).fresh pdu (s k).address (s k).rope
          utf8len).run.run = some ⟨piece.length, some piece⟩

section Text

theorem run_run_bind {α β : Type} (x : OptionT Id α) (f : α → OptionT Id β) :
    (x >>= f).run.run = x.run.run.bind fun a => (f a).run.run := by
  change (match x.run.run with | some a => f a | none => pure none : Id (Option β)) = _
  cases x.run.run <;> rfl

theorem bind_eq_some {α β : Type} {x : OptionT Id α} {f : α → OptionT Id β} {b : β} :
    (x >>= f).run.run = some b ↔ ∃ a, x.run.run = some a ∧ (f a).run.run = some b := by
  rw [run_run_bind, Option.bind_eq_some_iff]

theorem pos_addText (fresh : Nat → UInt8) (rope : GsmRope) (text : List UInt8) :
    (rope.addText fresh text).pos = rope.pos + text.length := by
  have hgrow : ∀ count, (rope.canGrow fresh count).2.pos = rope.pos := by
    intro count
    rw [GsmRope.canGrow, GsmRope.ensure]
    split <;> try rfl
    split <;> try rfl
    split <;> rfl
  have hmodify : ∀ (rope : GsmRope) f, (rope.modify f).pos = rope.pos := by
    intro rope f
    rw [GsmRope.modify]
    split <;> rfl
  simp only [GsmRope.addText, GsmRope.reserve, GsmRope.fill]
  split
  · exact congrArg (· + text.length) (hgrow text.length)
  · rw [hmodify]
    exact congrArg (· + text.length) (hgrow text.length)

variable {peek : Nat → Id UInt8} {fresh : Nat → UInt8}

theorem pos_le_smsGetTextUtf8 {cur stop : Nat} {hasUDH : Bool} {coding : SmsCodingScheme}
    {rope : GsmRope} {out : Nat × GsmRope}
    (h : (smsGetTextUtf8 peek fresh cur stop hasUDH coding rope).run.run = some out) :
    rope.pos ≤ out.2.pos := by
  rw [smsGetTextUtf8, bind_eq_some] at h
  obtain ⟨⟨len, cur⟩, -, h⟩ := h
  simp only [bind_eq_some] at h
  obtain ⟨⟨cur, len⟩, -, h⟩ := h
  cases coding with
  | gsm7 =>
    obtain ⟨text, -, h⟩ := bind_eq_some.mp h
    rw [← Option.some.inj h, pos_addText]
    exact Nat.le_add_right ..
  | ucs2 =>
    obtain ⟨text, -, h⟩ := bind_eq_some.mp h
    rw [← Option.some.inj h, pos_addText]
    exact Nat.le_add_right ..
  | unknown =>
    rw [← Option.some.inj h]

theorem smsGetByte_eq_some {cur stop : Nat} {out : UInt8 × Nat} :
    (smsGetByte peek cur stop).run.run = some out ↔
      cur < stop ∧ out = ((peek cur).run, cur + 1) := by
  rw [smsGetByte]
  split
  · next h =>
    rw [bind_eq_some]
    constructor
    · rintro ⟨b, hb, hout⟩
      rw [← Option.some.inj hout, ← Option.some.inj hb]
      exact ⟨h, rfl⟩
    · rintro ⟨-, rfl⟩
      exact ⟨_, rfl, rfl⟩
  · next h =>
    constructor
    · intro hfail
      cases hfail
    · rintro ⟨hlt, -⟩
      exact absurd hlt h

theorem pos_le_smspduGetTextMessage {pdu : SmsPDU} {address : SmsAddressRec} {rope : GsmRope}
    {utf8len : Nat} {out : TextMessage} (hmti : (peek pdu.tpdu).run &&& 3 = 0)
    (h : (smspduGetTextMessage peek fresh pdu address rope utf8len).run.run = some out) :
    rope.pos ≤ out.result := by
  rw [smspduGetTextMessage, bind_eq_some] at h
  obtain ⟨⟨mtiByte, data⟩, hbyte, h⟩ := h
  obtain ⟨-, hbyte⟩ := smsGetByte_eq_some.mp hbyte
  cases hbyte
  simp only [if_pos hmti, bind_eq_some] at h
  obtain ⟨⟨_, data⟩, -, ⟨coding, data⟩, -, h⟩ := h
  split at h
  · cases h
  · obtain ⟨⟨_, data⟩, -, h⟩ := bind_eq_some.mp h
    obtain ⟨⟨_, rope'⟩, htext, h⟩ := bind_eq_some.mp h
    rw [← Option.some.inj h]
    exact pos_le_smsGetTextUtf8 htext

theorem mtiByte_deliverBytes (useGsm7 : Bool) (sender : SmsAddress) (timestamp : SmsTimeStamp)
    (refNum : UInt8) (pduCount pduIndex : Nat) (utf8 : List UInt8) (s : Surroundings) :
    (SmsPDU.memory ⟨deliverBytes useGsm7 sender timestamp refNum pduCount pduIndex utf8, 1⟩ s
      1).run &&& 3 = 0 := by
  change List.getD _ 1 (s.beyond 1) &&& 3 = 0
  by_cases hpdus : 1 < pduCount
  · simp only [deliverBytes, deliverHead, if_pos hpdus, List.cons_append, List.getD_cons_succ,
      List.getD_cons_zero]
    decide
  · simp only [deliverBytes, deliverHead, if_neg hpdus, List.cons_append, List.getD_cons_succ,
      List.getD_cons_zero]
    decide

end Text

theorem length_runsOf_pos {text : List Char} (hne : text ≠ []) (useGsm7 : Bool) :
    0 < (runsOf text useGsm7).length := by
  have hlen := List.length_pos_iff.mpr hne
  have hweight := length_le_weight Gsm.charSeptets_pos text
  rw [runsOf, length_cut, length_blocks]
  cases useGsm7 with
  | true =>
    change 0 < (weight Gsm.charSeptets text + 154 - 1) / 154
    omega
  | false =>
    change 0 < (text.length + 134 - 1) / 134
    omega

/-- The PDUs are read back exactly if there are none: the text of each is appended to a local rope
that is never initialised. -/
theorem readsBack_iff {fresh : Nat → UInt8} {stack : GsmRope} {refNum : UInt8} {msg : Message}
    {pdus : List SmsPDU}
    (h : (smspduCreateDeliverUtf8 fresh stack msg.sender msg.timestamp refNum
      (Gsm.encode msg.text)).list = some pdus) :
    ReadsBack msg pdus ↔ msg.text = [] := by
  obtain ⟨hlen, hbytes⟩ := delivery_list msg.text fresh stack msg.sender msg.timestamp refNum rfl h
  constructor
  · intro hback
    by_contra hne
    have hpos := length_runsOf_pos hne (Gsm.utf8CheckGsm7 (Gsm.encode msg.text))
    let rope : GsmRope := ⟨.null, 0, (Gsm.encode msg.text).length + 1, false, fun _ => 0⟩
    let around : Surroundings := ⟨fun _ => 0, fun _ => 0, msg.sender.toSmsAddressRec, rope⟩
    obtain ⟨pieces, hpieces, htext, hread⟩ := hback.text (fun _ => around) _ (Nat.le_refl _)
    obtain ⟨pdu, hpdu⟩ : ∃ pdu, pdus[0]? = some pdu := ⟨_, List.getElem?_eq_getElem (by omega)⟩
    obtain ⟨piece, hpiece⟩ : ∃ piece, pieces[0]? = some piece :=
      ⟨_, List.getElem?_eq_getElem (by omega)⟩
    obtain ⟨pduIndex, utf8, hbyte⟩ := hbytes _ (List.mem_of_getElem? hpdu)
    have hle := pos_le_smspduGetTextMessage (by
      rw [hbyte]
      exact mtiByte_deliverBytes _ _ _ _ _ _ _ around) (hread 0 _ _ hpdu hpiece)
    have hsub := (List.sublist_flatten_of_mem (List.mem_of_getElem? hpiece)).length_le
    rw [htext] at hsub
    exact absurd (Nat.le_trans hle hsub) (Nat.not_succ_le_self _)
  · intro hnil
    have hpdus : pdus = [] := by
      refine List.length_eq_zero_iff.mp ?_
      rw [hlen, hnil]
      decide
    subst hpdus
    refine ⟨List.forall_mem_nil _, List.forall_mem_nil _, ?_, List.forall_mem_nil _, ?_⟩
    · rintro k pdu ⟨⟩
    · intro s utf8len _
      rw [hnil]
      exact ⟨[], rfl, rfl, by rintro k pdu piece ⟨⟩⟩

/-- The text "a" from the number 5556. -/
def shortMessage : Message where
  text := ['a']
  bmp := by simp
  sender := ⟨⟨4, 0x81, #v[0x55, 0x65, 0, 0, 0, 0, 0, 0, 0, 0, 0, 0, 0, 0, 0, 0]⟩, by decide⟩
  dialled := ⟨[0x35, 0x35, 0x35, 0x36], by decide +kernel⟩
  timestamp := #v[0x90, 0x21, 0x71, 0x31, 0x54, 0x00, 0x00]

def shortPdu : SmsPDU where
  base := [0x00, 0x20, 0x04, 0x81, 0x55, 0x65, 0x00, 0x00, 0x90, 0x21, 0x71, 0x31, 0x54, 0x00, 0x00,
    0x01, 0x61]
  tpdu := 1

theorem short_not_readsBack :
    (smspduCreateDeliverUtf8 (fun _ => 0) ⟨.null, 0, 0, false, fun _ => 0⟩ shortMessage.sender
        shortMessage.timestamp 0 (Gsm.encode shortMessage.text)).list = some [shortPdu] ∧
      ¬ ReadsBack shortMessage [shortPdu] := by
  have hlist : (smspduCreateDeliverUtf8 (fun _ => 0) ⟨.null, 0, 0, false, fun _ => 0⟩
      shortMessage.sender shortMessage.timestamp 0 (Gsm.encode shortMessage.text)).list =
        some [shortPdu] := by decide +kernel
  exact ⟨hlist, fun h => absurd ((readsBack_iff hlist).mp h) (by decide)⟩

/-- Whatever the locals hold, the sender of that message is read as a number of seven digits. -/
theorem short_sender_misread :
    (smspduCreateDeliverUtf8 (fun _ => 0) ⟨.null, 0, 0, false, fun _ => 0⟩ shortMessage.sender
        shortMessage.timestamp 0 (Gsm.encode shortMessage.text)).list = some [shortPdu] ∧
      ¬ ReadsBack shortMessage [shortPdu] := by
  refine ⟨by decide +kernel, fun h => ?_⟩
  obtain ⟨address, hread, hlen, -⟩ := h.sender shortPdu (List.mem_singleton_self _)
    ⟨fun _ => 0, fun _ => 0, shortMessage.sender.toSmsAddressRec, ⟨.null, 0, 0, false, fun _ => 0⟩⟩
  have hseven : ((smspduGetSenderAddress (shortPdu.memory ⟨fun _ => 0, fun _ => 0,
      shortMessage.sender.toSmsAddressRec, ⟨.null, 0, 0, false, fun _ => 0⟩⟩) shortPdu
      shortMessage.sender.toSmsAddressRec).run.run).map SmsAddressRec.len = some 7 := by
    decide +kernel
  rw [hread, Option.map_some, hlen] at hseven
  exact absurd hseven (by decide)

end M2M.Telephony
