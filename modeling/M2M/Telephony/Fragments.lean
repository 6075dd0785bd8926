import M2M.Telephony.GsmText
import M2M.Telephony.SmsDeliver

/-! The pieces into which `smspdu_create_deliver_utf8` cuts a text. -/

open M2M.Lib.Cutting

namespace M2M.Telephony

def SmsPDU.maxIndex (pdu : SmsPDU) (sender : SmsAddress) : Option UInt8 :=
  if pdu.base.getD pdu.tpdu 0 &&& 0x40 = 0 then none else pdu.base[18 + sender.size]?

section Pieces

variable (useGsm7 : Bool) (sender : SmsAddress) (timestamp : SmsTimeStamp) (refNum : UInt8)

theorem maxIndex_deliverBytes (pduCount pduIndex : Nat) (utf8 : List UInt8) :
    SmsPDU.maxIndex ⟨deliverBytes useGsm7 sender timestamp refNum pduCount pduIndex utf8, 1⟩
      sender = if 1 < pduCount then some (UInt8.ofNat pduCount) else none := by
  have hhead := length_deliverHead useGsm7 sender timestamp pduCount
  rw [SmsPDU.maxIndex]
  by_cases hpdus : 1 < pduCount
  · rw [if_pos hpdus, if_neg, deliverBytes, deliverLength, if_pos hpdus, List.append_assoc,
      List.getElem?_append_right (by omega), hhead, Nat.add_comm 18, Nat.add_comm 13,
      Nat.add_sub_add_left]
    · rfl
    · simp only [deliverBytes, deliverHead, if_pos hpdus, List.cons_append, List.getD_cons_succ,
        List.getD_cons_zero]
      decide
  · rw [if_neg hpdus, if_pos]
    simp only [deliverBytes, deliverHead, if_neg hpdus, List.cons_append, List.getD_cons_succ,
      List.getD_cons_zero]
    decide

/-- What the loop skips in its round `nn`. -/
def skipAt (block leftover numPdus nn : Nat) : Nat :=
  if 0 < leftover ∧ nn + 1 = numPdus then leftover else block

theorem take_dropWithin (skip : Nat) (text : List Char) :
    (Gsm.encode text).take ((Gsm.encode text).length -
        (Gsm.encode (dropWithin Gsm.charSeptets skip text)).length) =
      Gsm.encode (takeWithin Gsm.charSeptets skip text) := by
  have htext := congrArg Gsm.encode (takeWithin_append_dropWithin Gsm.charSeptets skip text)
  rw [Gsm.encode_append] at htext
  rw [← htext, List.length_append, Nat.add_sub_cancel, List.take_left]

variable (fresh : Nat → UInt8) (stack : GsmRope) {block leftover numPdus : Nat}

/-- The runs cut off in the `n` rounds from `nn` on. -/
def runsFrom (block leftover numPdus n nn : Nat) (text : List Char) : List (List Char) :=
  cut Gsm.charSeptets ((List.range' nn n).map (skipAt block leftover numPdus)) text

theorem runsFrom_succ (n nn : Nat) (text : List Char) :
    runsFrom block leftover numPdus (n + 1) nn text =
      takeWithin Gsm.charSeptets (skipAt block leftover numPdus nn) text ::
        runsFrom block leftover numPdus n (nn + 1)
          (dropWithin Gsm.charSeptets (skipAt block leftover numPdus nn) text) := by
  rw [runsFrom, List.range'_succ, List.map_cons, cut]
  rfl

theorem createPdus_succ (n nn : Nat) (text : List Char) :
    createPdus fresh stack sender timestamp refNum useGsm7 block leftover numPdus (n + 1) nn
        (Gsm.encode text) =
      let run := takeWithin Gsm.charSeptets (skipAt block leftover numPdus nn) text
      let rest := createPdus fresh stack sender timestamp refNum useGsm7 block leftover numPdus n
        (nn + 1) (Gsm.encode (dropWithin Gsm.charSeptets (skipAt block leftover numPdus nn) text))
      if WithinLimits (Gsm.encode run) useGsm7 then
        (Gsm.encode run :: rest.1, rest.2.map (⟨deliverBytes useGsm7 sender timestamp refNum numPdus
          nn (Gsm.encode run), 1⟩ :: ·))
      else ([Gsm.encode run], none) := by
  rw [createPdus]
  simp only [← skipAt.eq_def, Gsm.utf8SkipGsm7_encode, take_dropWithin, smspduCreateDeliver_eq]
  by_cases hlimit : WithinLimits (Gsm.encode (takeWithin Gsm.charSeptets
    (skipAt block leftover numPdus nn) text)) useGsm7
  · rw [if_pos hlimit, if_pos hlimit]
  · rw [if_neg hlimit, if_neg hlimit]

theorem createPdus_list {n nn : Nat} {src : List UInt8} {pdus : List SmsPDU}
    (h : (createPdus fresh stack sender timestamp refNum useGsm7 block leftover numPdus n nn
      src).2 =
      some pdus) :
    pdus.length = n ∧ ∀ pdu ∈ pdus, ∃ pduIndex utf8,
      pdu = ⟨deliverBytes useGsm7 sender timestamp refNum numPdus pduIndex utf8, 1⟩ := by
  induction n generalizing nn src pdus with
  | zero =>
    cases Option.some.inj h
    exact ⟨rfl, List.forall_mem_nil _⟩
  | succ n ih =>
    rw [createPdus] at h
    simp only [smspduCreateDeliver_eq] at h
    split at h
    · cases h
    · next pdu hpdu =>
      obtain ⟨rest, hrest, rfl⟩ := Option.map_eq_some_iff.mp h
      obtain ⟨hlen, hbytes⟩ := ih hrest
      obtain ⟨-, hpdu⟩ := Option.ite_none_right_eq_some.mp hpdu
      exact ⟨by rw [List.length_cons, hlen],
        List.forall_mem_cons.mpr ⟨⟨nn, _, (Option.some.inj hpdu).symm⟩, hbytes⟩⟩

theorem createPdus_of_limits (n nn : Nat) (text : List Char)
    (h : ∀ run ∈ runsFrom block leftover numPdus n nn text,
      WithinLimits (Gsm.encode run) useGsm7) :
    ∃ pdus, createPdus fresh stack sender timestamp refNum useGsm7 block leftover numPdus n nn
        (Gsm.encode text) =
      ((runsFrom block leftover numPdus n nn text).map Gsm.encode, some pdus) := by
  induction n generalizing nn text with
  | zero => exact ⟨[], rfl⟩
  | succ n ih =>
    rw [runsFrom_succ, List.forall_mem_cons] at h
    obtain ⟨pdus, hpdus⟩ := ih (nn + 1) _ h.2
    rw [createPdus_succ, runsFrom_succ]
    simp only [if_pos h.1, hpdus, Option.map_some, List.map_cons]
    exact ⟨_, rfl⟩

theorem limits_of_createPdus (n nn : Nat) (text : List Char)
    (h : ∀ piece ∈ (createPdus fresh stack sender timestamp refNum useGsm7 block leftover numPdus n
      nn (Gsm.encode text)).1, WithinLimits piece useGsm7) :
    ∀ run ∈ runsFrom block leftover numPdus n nn text, WithinLimits (Gsm.encode run) useGsm7 := by
  induction n generalizing nn text with
  | zero =>
    intro run hrun
    cases hrun
  | succ n ih =>
    rw [createPdus_succ] at h
    rw [runsFrom_succ]
    by_cases hlimit : WithinLimits (Gsm.encode (takeWithin Gsm.charSeptets
      (skipAt block leftover numPdus nn) text)) useGsm7
    · simp only [if_pos hlimit] at h
      rw [List.forall_mem_cons] at h ⊢
      exact ⟨hlimit, ih _ _ h.2⟩
    · simp only [if_neg hlimit] at h
      exact absurd (h _ (List.mem_singleton_self _)) hlimit

end Pieces

section Text

variable (text : List Char)

def blockOf (useGsm7 : Bool) : Nat := if useGsm7 then 154 else 134

/-- The number of septets of a text of the alphabet, or of characters of another. -/
def countOf : Bool → Nat
  | true => weight Gsm.charSeptets text
  | false => text.length

def runsOf (useGsm7 : Bool) : List (List Char) :=
  cut Gsm.charSeptets (blocks (blockOf useGsm7) (countOf text useGsm7)) text

theorem map_skipAt {b : Nat} (hb : b = 154 ∨ b = 134) (count : Nat) :
    let leftover := count - count / b * b
    let numPdus := if 0 < leftover then count / b + 1 else count / b
    (List.range' 0 numPdus).map (skipAt b leftover numPdus) = blocks b count := by
  intro leftover numPdus
  have hleftover : leftover = count - count / b * b := rfl
  have hnum : 0 < leftover ∧ numPdus = count / b + 1 ∨ leftover = 0 ∧ numPdus = count / b := by
    by_cases h : 0 < leftover
    · exact Or.inl ⟨h, if_pos h⟩
    · exact Or.inr ⟨by omega, if_neg h⟩
  have hpdus : numPdus = (count + b - 1) / b := by
    rcases hb with rfl | rfl <;> omega
  rw [blocks, ← hpdus, List.range_eq_range']
  refine List.map_congr_left fun i hi => ?_
  rw [List.mem_range'_1] at hi
  rw [skipAt]
  split <;> rcases hb with rfl | rfl <;> omega

variable (fresh : Nat → UInt8) (stack : GsmRope) (sender : SmsAddress) (timestamp : SmsTimeStamp)
  (refNum : UInt8)

variable {useGsm7 : Bool} (hgsm7 : Gsm.utf8CheckGsm7 (Gsm.encode text) = useGsm7)

include hgsm7

theorem exists_createPdus :
    ∃ leftover numPdus,
      let d := smspduCreateDeliverUtf8 fresh stack sender timestamp refNum (Gsm.encode text)
      (d.passed, d.list) = createPdus fresh stack sender timestamp refNum useGsm7
          (blockOf useGsm7) leftover numPdus numPdus 0 (Gsm.encode text) ∧
        runsFrom (blockOf useGsm7) leftover numPdus numPdus 0 text = runsOf text useGsm7 := by
  rw [smspduCreateDeliverUtf8, hgsm7]
  cases useGsm7 with
  | true =>
    refine ⟨_, _, rfl, ?_⟩
    simp only [if_true, Gsm.utf8ToGsm7Count_encode]
    rw [runsFrom, runsOf, ← map_skipAt (b := blockOf true) (Or.inl rfl)]
    rfl
  | false =>
    refine ⟨_, _, rfl, ?_⟩
    simp only [Bool.false_eq_true, if_false, Gsm.utf8ToUcs2Count_encode]
    rw [runsFrom, runsOf, ← map_skipAt (b := blockOf false) (Or.inr rfl)]
    rfl

theorem delivery_list {pdus : List SmsPDU}
    (h : (smspduCreateDeliverUtf8 fresh stack sender timestamp refNum (Gsm.encode text)).list =
      some pdus) :
    pdus.length = (runsOf text useGsm7).length ∧ ∀ pdu ∈ pdus, ∃ pduIndex utf8, pdu =
      ⟨deliverBytes useGsm7 sender timestamp refNum pdus.length pduIndex utf8, 1⟩ := by
  obtain ⟨leftover, numPdus, hd, hruns⟩ :=
    exists_createPdus text fresh stack sender timestamp refNum hgsm7
  have hlen := congrArg List.length hruns
  rw [runsFrom, length_cut, List.length_map, List.length_range'] at hlen
  rw [Prod.mk.injEq] at hd
  obtain ⟨hn, hbytes⟩ := createPdus_list _ sender timestamp refNum fresh stack (hd.2.symm.trans h)
  exact ⟨hn.trans hlen, hn ▸ hbytes⟩

theorem delivery_of_limits
    (h : ∀ run ∈ runsOf text useGsm7, WithinLimits (Gsm.encode run) useGsm7) :
    let d := smspduCreateDeliverUtf8 fresh stack sender timestamp refNum (Gsm.encode text)
    d.passed = (runsOf text useGsm7).map Gsm.encode ∧ d.list.isSome := by
  intro d
  obtain ⟨leftover, numPdus, hd, hruns⟩ :=
    exists_createPdus text fresh stack sender timestamp refNum hgsm7
  rw [← hruns] at h
  obtain ⟨pdus, hpdus⟩ :=
    createPdus_of_limits _ sender timestamp refNum fresh stack numPdus 0 text h
  rw [hpdus, hruns, Prod.mk.injEq] at hd
  exact ⟨hd.1, by rw [hd.2]; rfl⟩

theorem limits_of_delivery
    (h : ∀ piece ∈ (smspduCreateDeliverUtf8 fresh stack sender timestamp refNum
      (Gsm.encode text)).passed, WithinLimits piece useGsm7) :
    ∀ run ∈ runsOf text useGsm7, WithinLimits (Gsm.encode run) useGsm7 := by
  obtain ⟨leftover, numPdus, hd, hruns⟩ :=
    exists_createPdus text fresh stack sender timestamp refNum hgsm7
  rw [Prod.mk.injEq] at hd
  rw [hd.1] at h
  rw [← hruns]
  exact limits_of_createPdus _ sender timestamp refNum fresh stack numPdus 0 text h

end Text

end M2M.Telephony
