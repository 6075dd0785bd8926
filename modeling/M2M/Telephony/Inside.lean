import M2M.Lib.Checked
import M2M.Telephony.Sms
import M2M.Telephony.Packing
import M2M.Telephony.SmsReader

/-! Which readers stay inside the PDU. -/

open M2M.Lib

namespace M2M.Telephony

/-- The bytes of the PDU and no others. -/
def SmsPDU.inside (pdu : SmsPDU) (i : Nat) : Option UInt8 := pdu.base[i]?

variable {pdu : SmsPDU}

theorem checked_inside {i : Nat} (h : i < pdu.base.length) :
    Checked (pdu.inside i) fun _ => True := ⟨_, List.getElem?_eq_getElem h, trivial⟩

theorem checked_smsGetByte (cur : Nat) :
    CheckedT (smsGetByte pdu.inside cur pdu.base.length) fun out =>
      cur < pdu.base.length ∧ out.2 = cur + 1 := by
  refine CheckedT.ite (fun h => ?_) fun _ => CheckedT.failure
  exact CheckedT.bind (CheckedT.lift (checked_inside h)) fun b _ => CheckedT.pure ⟨h, rfl⟩

theorem checked_scAddressLoop {cur n dlen : Nat} (h : cur + dlen + n ≤ pdu.base.length)
    (adjust : Nat) (address : SmsAddressRec) :
    CheckedT (scAddressLoop pdu.inside cur n dlen adjust address) fun _ => True := by
  induction n generalizing dlen adjust address with
  | zero => exact CheckedT.pure trivial
  | succ n ih =>
    rw [scAddressLoop]
    refine CheckedT.bind (CheckedT.lift (checked_inside (by omega))) fun c _ => ?_
    split
    · split
      · exact CheckedT.pure trivial
      · split
        · exact CheckedT.pure trivial
        · exact ih (by omega) _ _
    · exact CheckedT.failure

theorem checked_smsGetScAddress (cur : Nat) (address : SmsAddressRec) :
    CheckedT (smsGetScAddress pdu.inside cur pdu.base.length address) fun _ => True := by
  refine CheckedT.ite (fun h => ?_) fun _ => CheckedT.failure
  refine CheckedT.bind (CheckedT.lift (checked_inside h)) fun len _ => ?_
  refine CheckedT.ite (fun _ => CheckedT.pure trivial) fun hlen => ?_
  refine CheckedT.ite (fun _ => CheckedT.failure) fun hfit => ?_
  refine CheckedT.bind (CheckedT.lift (checked_inside (by omega))) fun toa _ => ?_
  refine CheckedT.bind (checked_scAddressLoop (by omega) _ _) fun read _ => ?_
  exact CheckedT.pure trivial

theorem checked_readBytes {cur n : Nat} (h : cur + n ≤ pdu.base.length) :
    Checked (readBytes pdu.inside cur n) fun _ => True := by
  induction n generalizing cur with
  | zero => exact Checked.pure trivial
  | succ n ih =>
    refine Checked.bind (checked_inside (by omega)) fun b _ => ?_
    exact Checked.bind (ih (by omega)) fun bs _ => Checked.pure trivial

theorem checked_smsGetAddress (cur : Nat) (address : SmsAddressRec) :
    CheckedT (smsGetAddress pdu.inside cur pdu.base.length address) fun _ => True := by
  refine CheckedT.ite (fun h => ?_) fun _ => CheckedT.failure
  refine CheckedT.bind (CheckedT.lift (checked_inside h)) fun dlen _ => ?_
  refine CheckedT.ite (fun _ => CheckedT.pure trivial) fun hlen => ?_
  refine CheckedT.ite (fun _ => CheckedT.failure) fun hfit => ?_
  refine CheckedT.bind (CheckedT.lift (checked_inside (by omega))) fun toa _ => ?_
  refine CheckedT.ite (fun _ => CheckedT.failure) fun hsize => ?_
  refine CheckedT.bind (CheckedT.lift (checked_readBytes (by omega))) fun digits _ => ?_
  exact CheckedT.pure trivial

theorem checked_smsSkipAddress (cur : Nat) :
    CheckedT (smsSkipAddress pdu.inside cur pdu.base.length) fun _ => True := by
  refine CheckedT.ite (fun _ => CheckedT.failure) fun h => ?_
  refine CheckedT.bind (CheckedT.lift (checked_inside (by omega))) fun dlen _ => ?_
  exact CheckedT.ite (fun _ => CheckedT.failure) fun _ => CheckedT.pure trivial

theorem checked_smsGetTimestamp (cur : Nat) :
    CheckedT (smsGetTimestamp pdu.inside cur pdu.base.length) fun _ => True := by
  refine CheckedT.ite (fun _ => CheckedT.failure) fun h => ?_
  refine CheckedT.bind (CheckedT.lift (checked_readBytes (by omega))) fun data _ => ?_
  exact CheckedT.pure trivial

theorem checked_smsSkipTimestamp (cur : Nat) :
    CheckedT (smsSkipTimestamp cur pdu.base.length : OptionT Option Nat) fun _ => True :=
  CheckedT.ite (fun _ => CheckedT.failure) fun _ => CheckedT.pure trivial

theorem checked_smsSkipValidityPeriod (cur : Nat) (mtiByte : UInt8) :
    CheckedT (smsSkipValidityPeriod cur pdu.base.length mtiByte : OptionT Option Nat)
      fun _ => True :=
  CheckedT.ite (fun _ => CheckedT.failure) fun _ => CheckedT.pure trivial

theorem checked_smsGetCodingScheme (cur : Nat) :
    Checked (smsGetCodingScheme pdu.inside cur pdu.base.length) fun _ => True := by
  rw [smsGetCodingScheme]
  split
  · next h => exact Checked.bind (checked_inside h) fun b _ => Checked.pure trivial
  · exact Checked.pure trivial

theorem checked_userDataRefLoop (fuel data : Nat) (len : Int) :
    CheckedT (userDataRefLoop pdu.inside pdu.base.length fuel data len) fun out =>
      ∀ ref ∈ out, ref + 3 ≤ pdu.base.length := by
  induction fuel generalizing data len with
  | zero => exact CheckedT.pure fun _ h => nomatch h
  | succ fuel ih =>
    refine CheckedT.ite (fun h => ?_) fun _ => CheckedT.failure
    refine CheckedT.bind (CheckedT.lift (checked_inside (by omega))) fun htype _ => ?_
    refine CheckedT.bind (CheckedT.lift (checked_inside (by omega))) fun hlen _ => ?_
    refine CheckedT.ite (fun hfound => CheckedT.pure ?_) fun _ => ih _ _
    intro ref href
    rw [← Option.some.inj href]
    omega

theorem checked_smspduGetUserDataRef (fuel : Nat) :
    CheckedT (smspduGetUserDataRef pdu.inside pdu fuel) fun out =>
      ∀ ref ∈ out, ref + 3 ≤ pdu.base.length := by
  refine CheckedT.bind (checked_smsGetByte _) fun byte _ => ?_
  refine CheckedT.ite (fun _ => CheckedT.failure) fun _ => ?_
  have hlength : ∀ data, CheckedT (do
      if pdu.base.length ≤ data + 1 then failure
      else
        let len ← pdu.inside (data + 1)
        userDataRefLoop pdu.inside pdu.base.length fuel (data + 2) len.toNat :
        OptionT Option (Option Nat)) fun out => ∀ ref ∈ out, ref + 3 ≤ pdu.base.length := by
    intro data
    refine CheckedT.ite (fun _ => CheckedT.failure) fun h => ?_
    refine CheckedT.bind (CheckedT.lift (checked_inside (by omega))) fun len _ => ?_
    exact checked_userDataRefLoop _ _ _
  refine CheckedT.ite (fun _ => ?_) fun _ => CheckedT.ite (fun _ => ?_) fun _ => ?_
  · refine CheckedT.bind (checked_smsSkipAddress _) fun _ _ => ?_
    exact CheckedT.bind (checked_smsSkipTimestamp _) fun data _ => hlength data
  · refine CheckedT.bind (checked_smsSkipAddress _) fun _ _ => ?_
    exact CheckedT.bind (checked_smsSkipValidityPeriod _ _) fun data _ => hlength data
  · exact CheckedT.bind (CheckedT.failure (Q := fun _ => True)) fun data _ => hlength data

theorem checked_userRef {β : Type} {fuel : Nat} {f : Nat → Option (Option β)}
    {g : Option (Option β)}
    (hf : ∀ ref, ref + 3 ≤ pdu.base.length → Checked (f ref) fun _ => True)
    (hg : Checked g fun _ => True) :
    Checked ((smspduGetUserDataRef pdu.inside pdu fuel).run >>= fun
      | some (some userRef) => f userRef
      | some none => pure none
      | none => g) fun _ => True := by
  refine Checked.bind (checked_smspduGetUserDataRef fuel) fun r hr => ?_
  match r with
  | some (some ref) => exact hf ref (hr _ rfl _ rfl)
  | some none => exact Checked.pure trivial
  | none => exact hg

theorem checked_byteAt {β : Type} {i : Nat} (h : i < pdu.base.length) (f : UInt8 → β) :
    Checked (pdu.inside i >>= fun b => pure (some (f b))) fun _ => True :=
  Checked.bind (checked_inside h) fun _ _ => Checked.pure trivial

theorem checked_smspduGetRef (fuel : Nat) :
    Checked (smspduGetRef pdu.inside pdu fuel) fun _ => True := by
  refine checked_userRef (fun ref href => checked_byteAt (by omega) _) ?_
  refine Checked.ite (fun h => ?_) fun _ => Checked.pure trivial
  refine Checked.bind (checked_inside (by omega)) fun b _ => ?_
  exact Checked.ite (fun _ => checked_byteAt h _) fun _ => Checked.pure trivial

theorem checked_smspduGetMaxIndex (fuel : Nat) :
    Checked (smspduGetMaxIndex pdu.inside pdu fuel) fun _ => True :=
  checked_userRef (fun ref href => checked_byteAt (by omega) _) (Checked.pure trivial)

theorem checked_smspduGetCurIndex (fuel : Nat) :
    Checked (smspduGetCurIndex pdu.inside pdu fuel) fun _ => True :=
  checked_userRef (fun ref href => checked_byteAt (by omega) _) (Checked.pure trivial)

theorem checked_smspduGetType : Checked (smspduGetType pdu.inside pdu) fun _ => True := by
  refine Checked.bind (checked_smsGetByte _) fun r _ => ?_
  cases r <;> exact Checked.pure trivial

theorem checked_smspduGetSenderAddress (address : SmsAddressRec) :
    CheckedT (smspduGetSenderAddress pdu.inside pdu address) fun _ => True := by
  refine CheckedT.bind (checked_smsGetByte _) fun byte _ => ?_
  refine CheckedT.ite (fun _ => ?_) fun _ => CheckedT.failure
  exact CheckedT.bind (checked_smsGetScAddress _ _) fun read _ => CheckedT.pure trivial

theorem checked_smspduGetScTimestamp (address : SmsAddressRec) :
    CheckedT (smspduGetScTimestamp pdu.inside pdu address) fun _ => True := by
  refine CheckedT.bind (checked_smsGetByte _) fun byte _ => ?_
  refine CheckedT.ite (fun _ => ?_) fun _ => CheckedT.failure
  refine CheckedT.bind (checked_smsGetScAddress _ _) fun read _ => ?_
  exact CheckedT.bind (checked_smsGetTimestamp _) fun stamp _ => CheckedT.pure trivial

theorem checked_smspduGetReceiverAddress (address : SmsAddressRec) :
    CheckedT (smspduGetReceiverAddress pdu.inside pdu address) fun _ => True := by
  refine CheckedT.bind (checked_smsGetByte _) fun byte _ => ?_
  refine CheckedT.ite (fun _ => ?_) fun _ => CheckedT.failure
  exact CheckedT.bind (checked_smsGetAddress _ _) fun read _ => CheckedT.pure trivial

section Text

/-- The bytes a text takes are in the PDU. -/
def TextArea.Fits (area : TextArea) (pdu : SmsPDU) : Prop :=
  match area.coding with
  | .gsm7 => area.cur + (7 * area.len + 7) / 8 ≤ pdu.base.length
  | .ucs2 => area.cur + 2 * (area.len / 2) ≤ pdu.base.length
  | .unknown => True

theorem checked_textHead (mtiByte : UInt8) (data : Nat) (address : SmsAddressRec) :
    CheckedT (textHead pdu.inside pdu mtiByte data address) fun _ => True := by
  refine CheckedT.ite (fun _ => ?_) fun _ => CheckedT.ite (fun _ => ?_) fun _ => CheckedT.failure
  · refine CheckedT.bind (checked_smsGetScAddress _ _) fun read _ => ?_
    refine CheckedT.bind (CheckedT.lift (checked_smsGetCodingScheme _)) fun coding _ => ?_
    refine CheckedT.ite (fun _ => CheckedT.failure) fun _ => ?_
    exact CheckedT.bind (checked_smsGetTimestamp _) fun stamp _ => CheckedT.pure trivial
  · refine CheckedT.bind (checked_smsGetAddress _ _) fun read _ => ?_
    refine CheckedT.bind (CheckedT.lift (checked_smsGetCodingScheme _)) fun coding _ => ?_
    exact CheckedT.ite (fun _ => CheckedT.failure) fun _ => CheckedT.pure trivial

theorem checked_skipUserHeader {cur : Nat} (hcur : cur ≤ pdu.base.length) (len : Nat)
    (hasUDH : Bool) (coding : SmsCodingScheme) :
    CheckedT (skipUserHeader pdu.inside cur pdu.base.length len hasUDH coding) fun out =>
      out.1 ≤ pdu.base.length := by
  refine CheckedT.ite (fun _ => ?_) fun _ => CheckedT.pure hcur
  refine CheckedT.bind (checked_smsGetByte _) fun byte _ => ?_
  exact CheckedT.ite (fun _ => CheckedT.failure) fun h => CheckedT.pure (by omega)

theorem checked_textArea (pdu : SmsPDU) (address : SmsAddressRec) :
    CheckedT (textArea pdu.inside pdu address) fun area => area.cur ≤ pdu.base.length := by
  refine CheckedT.bind (checked_smsGetByte _) fun byte _ => ?_
  refine CheckedT.bind (checked_textHead _ _ _) fun head _ => ?_
  refine CheckedT.bind (checked_smsGetByte _) fun length hlength => ?_
  refine CheckedT.bind (checked_skipUserHeader (by omega) _ _ _) fun rest hrest => ?_
  exact CheckedT.pure hrest

theorem septetAt_inside (pdu : SmsPDU) (src : Nat) {shift : Nat} (hshift : shift < 8) :
    (Gsm.septetAt pdu.inside src shift).isSome ↔ 8 * src + shift + 7 ≤ 8 * pdu.base.length := by
  rw [Gsm.septetAt]
  by_cases hsrc : src < pdu.base.length
  · simp only [SmsPDU.inside, List.getElem?_eq_getElem hsrc, Option.bind_eq_bind, Option.bind_some]
    by_cases htwo : shift > 1
    · rw [if_pos htwo]
      by_cases hnext : src + 1 < pdu.base.length
      · simp only [List.getElem?_eq_getElem hnext, Option.bind_some]
        exact iff_of_true rfl (by omega)
      · simp only [List.getElem?_eq_none (Nat.not_lt.mp hnext), Option.bind_none]
        exact iff_of_false (by simp) (by omega)
    · rw [if_neg htwo]
      exact iff_of_true rfl (by omega)
  · simp only [SmsPDU.inside, List.getElem?_eq_none (Nat.not_lt.mp hsrc), Option.bind_eq_bind,
      Option.bind_none]
    exact iff_of_false (by simp) (by omega)

theorem fromGsm7_inside {n src shift : Nat} (hshift : shift < 8) (escaped : Bool) :
    (Gsm.fromGsm7 pdu.inside n src shift escaped).isSome ↔
      n = 0 ∨ 8 * src + shift + 7 * n ≤ 8 * pdu.base.length := by
  induction n generalizing src shift escaped with
  | zero => exact iff_of_true rfl (.inl rfl)
  | succ n ih =>
    obtain ⟨src', shift', hsrc', hshift', -, hlt, hnext⟩ := Gsm.next_septet src hshift
    have ih := @ih src' shift' hlt
    rw [hnext] at ih
    have hseptet := septetAt_inside pdu src hshift
    have hbind : ∀ bytes : List UInt8, ∀ x : Option (List UInt8),
        (x >>= fun rest => pure (bytes ++ rest)).isSome ↔ x.isSome := by
      intro bytes x
      cases x <;> exact Iff.rfl
    rw [Gsm.fromGsm7, hsrc', hshift']
    cases hread : Gsm.septetAt pdu.inside src shift with
    | none =>
      rw [hread] at hseptet
      refine iff_of_false (by simp) ?_
      simp only [Option.isSome_none, Bool.false_eq_true, false_iff] at hseptet
      omega
    | some c =>
      rw [hread] at hseptet
      have hfirst := hseptet.mp rfl
      simp only [Option.bind_eq_bind, Option.bind_some]
      cases escaped with
      | true =>
        simp only [if_true]
        rw [← Option.bind_eq_bind, hbind, ih]
        omega
      | false =>
        simp only [Bool.false_eq_true, if_false]
        split
        · rw [ih]
          omega
        · rw [← Option.bind_eq_bind, hbind, ih]
          omega

theorem ucs2ToUtf8_inside {ucs2 n : Nat} :
    (Gsm.ucs2ToUtf8 pdu.inside ucs2 n).isSome ↔ n = 0 ∨ ucs2 + 2 * n ≤ pdu.base.length := by
  induction n generalizing ucs2 with
  | zero => exact iff_of_true rfl (.inl rfl)
  | succ n ih =>
    rw [Gsm.ucs2ToUtf8]
    by_cases hin : ucs2 + 1 < pdu.base.length
    · simp only [SmsPDU.inside, List.getElem?_eq_getElem hin,
        List.getElem?_eq_getElem (Nat.lt_of_succ_lt hin), Option.bind_eq_bind, Option.bind_some]
      have hrest : ∀ bytes : List UInt8, ∀ x : Option (List UInt8),
          (x.bind fun rest => pure (bytes ++ rest)).isSome ↔ x.isSome := by
        intro bytes x
        cases x <;> exact Iff.rfl
      exact (hrest _ _).trans (ih.trans (by omega))
    · refine iff_of_false ?_ (by omega)
      simp only [SmsPDU.inside, List.getElem?_eq_none (Nat.not_lt.mp hin)]
      cases pdu.base[ucs2]? <;> simp

theorem read_inside {area : TextArea} (hcur : area.cur ≤ pdu.base.length) :
    (area.read pdu.inside).isSome ↔ area.Fits pdu := by
  obtain ⟨submit, coding, cur, len⟩ := area
  cases coding with
  | gsm7 =>
    refine (fromGsm7_inside (by decide) false).trans ?_
    simp only [TextArea.Fits] at hcur ⊢
    omega
  | ucs2 =>
    refine ucs2ToUtf8_inside.trans ?_
    simp only [TextArea.Fits] at hcur ⊢
    omega
  | unknown => exact iff_of_true rfl trivial

theorem textMessage_inside (fresh : Nat → UInt8) (address : SmsAddressRec) (rope : GsmRope)
    (utf8len : Nat) :
    (smspduGetTextMessage pdu.inside fresh pdu address rope utf8len).run ≠ none ↔
      ∀ area, (textArea pdu.inside pdu address).run = some (some area) → area.Fits pdu := by
  rw [smspduGetTextMessage_eq]
  obtain ⟨r, hr, hcur⟩ := checked_textArea pdu address
  have hbind : ∀ {β : Type} (f : TextArea → OptionT Option β),
      (textArea pdu.inside pdu address >>= f).run =
        r.elim (some none) fun area => (f area).run := by
    intro β f
    change (textArea pdu.inside pdu address).run >>= _ = _
    rw [hr]
    cases r <;> rfl
  rw [hbind, hr]
  cases r with
  | none => simp
  | some area =>
    have hfits := read_inside (hcur area rfl)
    simp only [Option.elim_some, Option.some.injEq, forall_eq', ← hfits]
    cases area.read pdu.inside with
    | none => exact iff_of_false (fun h => h rfl) (by simp)
    | some text => exact iff_of_true (Option.some_ne_none _) rfl

end Text

section Stores

variable {m : Type → Type} [Monad m] (peek : Nat → m UInt8)

/-- The offsets in `data` that the loop of `sms_get_sc_address` writes to. -/
def scAddressStores (cur : Nat) : Nat → Nat → m (List Nat)
  | 0, _ => return []
  | n + 1, dlen => do
    let c ← peek (cur + dlen)
    if smsAddressMaxSize ≤ dlen then return []
    else if (0xe : UInt8) ≤ c &&& 0xf then return []
    else if (0xe : UInt8) ≤ c >>> 4 &&& 0xf then return [dlen]
    else return dlen :: (← scAddressStores cur n (dlen + 1))

/-- The offsets in `data` that `sms_get_sc_address` writes to. -/
def smsGetScAddressStores (cur stop : Nat) : m (List Nat) := do
  if cur < stop then
    let len := (← peek cur).toNat
    if len = 0 ∨ stop < cur + 1 + len then return []
    else scAddressStores peek (cur + 2) (len - 1) 0
  else return []

/-- The offsets in `data` that `sms_get_address` copies to. -/
def smsGetAddressStores (cur stop : Nat) : m (List Nat) := do
  if cur < stop then
    let dlen ← peek cur
    let len := (dlen.toNat + 1) / 2
    if dlen = 0 ∨ stop < cur + 1 + 1 + len ∨ smsAddressMaxSize < len then return []
    else return List.range len
  else return []

theorem checked_scAddressStores {cur n dlen : Nat} (h : cur + dlen + n ≤ pdu.base.length) :
    Checked (scAddressStores pdu.inside cur n dlen) fun stores =>
      ∀ i ∈ stores, i < smsAddressMaxSize := by
  induction n generalizing dlen with
  | zero => exact Checked.pure (List.forall_mem_nil _)
  | succ n ih =>
    refine Checked.bind (checked_inside (by omega)) fun c _ => ?_
    refine Checked.ite (fun _ => Checked.pure (List.forall_mem_nil _)) fun hdlen => ?_
    refine Checked.ite (fun _ => Checked.pure (List.forall_mem_nil _)) fun _ => ?_
    refine Checked.ite (fun _ => Checked.pure ?_) fun _ => ?_
    · exact List.forall_mem_singleton.mpr (Nat.not_le.mp hdlen)
    · refine Checked.bind (ih (by omega)) fun stores hstores => Checked.pure ?_
      exact List.forall_mem_cons.mpr ⟨Nat.not_le.mp hdlen, hstores⟩

theorem checked_smsGetScAddressStores (cur : Nat) :
    Checked (smsGetScAddressStores pdu.inside cur pdu.base.length) fun stores =>
      ∀ i ∈ stores, i < smsAddressMaxSize := by
  refine Checked.ite (fun h => ?_) fun _ => Checked.pure (List.forall_mem_nil _)
  refine Checked.bind (checked_inside h) fun len _ => ?_
  refine Checked.ite (fun _ => Checked.pure (List.forall_mem_nil _)) fun hfit => ?_
  exact checked_scAddressStores (by omega)

theorem checked_smsGetAddressStores (cur : Nat) :
    Checked (smsGetAddressStores pdu.inside cur pdu.base.length) fun stores =>
      ∀ i ∈ stores, i < smsAddressMaxSize := by
  refine Checked.ite (fun h => ?_) fun _ => Checked.pure (List.forall_mem_nil _)
  refine Checked.bind (checked_inside h) fun dlen _ => ?_
  refine Checked.ite (fun _ => Checked.pure (List.forall_mem_nil _)) fun hsize => Checked.pure ?_
  intro i hi
  have := List.mem_range.mp hi
  omega

end Stores

/-- No reader reads outside of the PDU, and no parser of an address writes outside of `data`. -/
structure ReadsInside (pdu : SmsPDU) : Prop where
  type : smspduGetType pdu.inside pdu ≠ none
  senderAddress : ∀ address, (smspduGetSenderAddress pdu.inside pdu address).run ≠ none
  scTimestamp : ∀ address, (smspduGetScTimestamp pdu.inside pdu address).run ≠ none
  receiverAddress : ∀ address, (smspduGetReceiverAddress pdu.inside pdu address).run ≠ none
  textMessage : ∀ fresh address rope utf8len,
    (smspduGetTextMessage pdu.inside fresh pdu address rope utf8len).run ≠ none
  ref : ∀ fuel, smspduGetRef pdu.inside pdu fuel ≠ none
  maxIndex : ∀ fuel, smspduGetMaxIndex pdu.inside pdu fuel ≠ none
  curIndex : ∀ fuel, smspduGetCurIndex pdu.inside pdu fuel ≠ none
  scStores : ∀ cur, ∃ stores, smsGetScAddressStores pdu.inside cur pdu.base.length = some stores ∧
    ∀ i ∈ stores, i < smsAddressMaxSize
  stores : ∀ cur, ∃ stores, smsGetAddressStores pdu.inside cur pdu.base.length = some stores ∧
    ∀ i ∈ stores, i < smsAddressMaxSize

/-- Only the text is read without regard to the end of the PDU. -/
theorem readsInside_iff (pdu : SmsPDU) :
    ReadsInside pdu ↔ ∀ address area,
      (textArea pdu.inside pdu address).run = some (some area) → area.Fits pdu := by
  constructor
  · intro hinside address
    exact (textMessage_inside (fun _ => 0) address ⟨.null, 0, 0, false, fun _ => 0⟩ 0).mp
      (hinside.textMessage _ _ _ _)
  · intro hfits
    exact {
      type := checked_smspduGetType.ne_none
      senderAddress := fun address => (checked_smspduGetSenderAddress address).ne_none
      scTimestamp := fun address => (checked_smspduGetScTimestamp address).ne_none
      receiverAddress := fun address => (checked_smspduGetReceiverAddress address).ne_none
      textMessage := fun fresh address rope utf8len =>
        (textMessage_inside fresh address rope utf8len).mpr (hfits address)
      ref := fun fuel => (checked_smspduGetRef fuel).ne_none
      maxIndex := fun fuel => (checked_smspduGetMaxIndex fuel).ne_none
      curIndex := fun fuel => (checked_smspduGetCurIndex fuel).ne_none
      scStores := checked_smsGetScAddressStores
      stores := checked_smsGetAddressStores }

/-- An SMS-SUBMIT that ends with the length of its text. -/
theorem cutShort_not_readsInside :
    ∃ pdu, smspduCreateFromHex "00010000000005".toUTF8.toList = some pdu ∧ ¬ReadsInside pdu := by
  refine ⟨⟨[0, 1, 0, 0, 0, 0, 5], 1⟩, by decide +kernel, fun h => ?_⟩
  exact h.textMessage (fun _ => 0) ⟨0, 0, Vector.replicate _ 0⟩ ⟨.null, 0, 0, false, fun _ => 0⟩ 0
    (by decide +kernel)

end M2M.Telephony
