import M2M.Telephony.FragmentBooks
import M2M.Telephony.SubmitParts

/-! Messages that the receiver puts together from their parts, which arrive in any order and more
than once. -/

namespace M2M.Telephony

namespace SmsReceiver

/-- The calls for PDUs that arrive one after the other, each with what is around it, and their
results. -/
def addAll (fuel : Nat) :
    List (SmsPDU × AddSurroundings) → SmsReceiver → Option (List Int × SmsReceiver)
  | [], receiver => some ([], receiver)
  | (pdu, s) :: arrivals, receiver => do
    let added ← receiver.addSubmitPdu s pdu fuel
    let (results, receiver) ← addAll fuel arrivals added.receiver
    return (added.result :: results, receiver)

variable {fuel : Nat} {pdu : SmsPDU} {s : AddSurroundings} {receiver last : SmsReceiver}
  {results : List Int}

theorem addAll_cons_iff {arrivals : List (SmsPDU × AddSurroundings)} :
    addAll fuel ((pdu, s) :: arrivals) receiver = some (results, last) ↔
      ∃ added rest, receiver.addSubmitPdu s pdu fuel = some added ∧
        addAll fuel arrivals added.receiver = some (rest, last) ∧
        results = added.result :: rest := by
  rw [addAll]
  constructor
  · intro h
    obtain ⟨added, hadded, h⟩ := Option.bind_eq_some_iff.mp h
    obtain ⟨⟨rest, receiver⟩, hrest, h⟩ := Option.bind_eq_some_iff.mp h
    cases Option.some.inj h
    exact ⟨added, rest, hadded, hrest, rfl⟩
  · rintro ⟨added, rest, hadded, hrest, rfl⟩
    rw [hadded, Option.bind_eq_bind, Option.bind_some, hrest]
    rfl

theorem addAll_append {before after : List (SmsPDU × AddSurroundings)}
    (h : addAll fuel (before ++ after) receiver = some (results, last)) :
    ∃ first mid rest, addAll fuel before receiver = some (first, mid) ∧
      addAll fuel after mid = some (rest, last) ∧ results = first ++ rest ∧
      first.length = before.length := by
  induction before generalizing receiver results with
  | nil => exact ⟨[], receiver, results, rfl, h, rfl, rfl⟩
  | cons arrival before ih =>
    obtain ⟨pdu, s⟩ := arrival
    obtain ⟨added, rest, hadded, hrest, rfl⟩ := addAll_cons_iff.mp h
    obtain ⟨first, mid, rest, hfirst, hlast, rfl, hlength⟩ := ih hrest
    have hall := addAll_cons_iff.mpr ⟨added, first, hadded, hfirst, rfl⟩
    exact ⟨added.result :: first, mid, rest, hall, hlast, rfl, congrArg Nat.succ hlength⟩

theorem mem_of_findP {sender : SmsAddressRec} {ref : Int} {frag : SmsFragment}
    (h : receiver.fragments[receiver.findP s sender ref]? = some frag) :
    frag ∈ receiver.fragments ∧
      smsAddressEq frag.sender sender (s.behindNode frag.index) s.behindFrom = true := by
  obtain ⟨hlt, rfl⟩ := List.getElem?_eq_some_iff.mp h
  have hfound := List.findIdx_getElem (w := hlt)
  rw [Bool.and_eq_true] at hfound
  exact ⟨List.getElem_mem hlt, hfound.2⟩

section Known

variable {known : SmsAddressRec → Prop} {sender : SmsAddressRec} {ref : Int} {max : Nat} {cur : Int}

/-- The fragments are for numbers of one kind, and no index is given out beyond the last. -/
structure Knows (receiver : SmsReceiver) (known : SmsAddressRec → Prop) : Prop where
  sender : ∀ frag ∈ receiver.fragments, known frag.sender
  index_le : ∀ frag ∈ receiver.fragments, frag.index ≤ receiver.last

theorem Knows.append {frag : SmsFragment} (h : receiver.Knows known) (hsender : known frag.sender)
    (hindex : frag.index = receiver.last + 1) :
    Knows ⟨receiver.last + 1, receiver.fragments ++ [frag]⟩ known := by
  constructor
  · intro node hnode
    rcases List.mem_append.mp hnode with hold | hnew
    · exact h.sender node hold
    · rwa [List.mem_singleton.mp hnew]
  · intro node hnode
    rcases List.mem_append.mp hnode with hold | hnew
    · exact Nat.le_succ_of_le (h.index_le node hold)
    · rw [List.mem_singleton.mp hnew, hindex]

theorem Knows.set {frag : SmsFragment} (h : receiver.Knows known) (stored : SmsFragment)
    (hfrag : frag ∈ receiver.fragments) (hsender : stored.sender = frag.sender)
    (hindex : stored.index = frag.index) (p : Nat) :
    Knows ⟨receiver.last, receiver.fragments.set p stored⟩ known := by
  constructor
  · intro node hnode
    rcases List.mem_or_eq_of_mem_set hnode with hold | rfl
    · exact h.sender node hold
    · rw [hsender]
      exact h.sender frag hfrag
  · intro node hnode
    rcases List.mem_or_eq_of_mem_set hnode with hold | rfl
    · exact h.index_le node hold
    · rw [hindex]
      exact h.index_le frag hfrag

theorem Knows.addExtracted (h : receiver.Knows known) (hsender : known sender) :
    (receiver.addExtracted s pdu sender ref max cur).receiver.Knows known ∧
      receiver.last ≤ (receiver.addExtracted s pdu sender ref max cur).receiver.last ∧
      (receiver.addExtracted s pdu sender ref max cur).result ≤
        (receiver.addExtracted s pdu sender ref max cur).receiver.last := by
  by_cases hcur : cur < 0 ∨ (max : Int) ≤ cur
  · rw [addExtracted_of_not_stored hcur]
    split
    · exact ⟨h, Nat.le_refl _, by change (-1 : Int) ≤ _; omega⟩
    · exact ⟨h.append hsender rfl, Nat.le_succ _, by change (-1 : Int) ≤ _; omega⟩
  · cases hfrag : receiver.fragments[receiver.findP s sender ref]? with
    | some frag =>
      have hmem := List.mem_of_getElem? hfrag
      have hle := h.index_le frag hmem
      rw [addExtracted_of_found hcur hfrag]
      refine ⟨h.set (frag.put cur.toNat pdu) hmem rfl rfl _, Nat.le_refl _, ?_⟩
      change (if _ then (frag.index : Int) else 0) ≤ (receiver.last : Int)
      split <;> omega
    | none =>
      rw [addExtracted_of_new hcur hfrag]
      refine ⟨h.append hsender rfl, Nat.le_succ _, ?_⟩
      change (if _ then ((receiver.last + 1 : Nat) : Int) else 0) ≤
        ((receiver.last + 1 : Nat) : Int)
      split
      · exact Int.le_refl _
      · exact Int.natCast_nonneg _

theorem Knows.addSubmitPdu {added : Added} (h : receiver.Knows known)
    (hknown : ∀ sender, (smspduGetReceiverAddress (pdu.memory s.toSurroundings) pdu
      s.address).run.run = some sender → known sender)
    (hadded : receiver.addSubmitPdu s pdu fuel = some added) :
    added.receiver.Knows known ∧ receiver.last ≤ added.receiver.last ∧
      added.result ≤ added.receiver.last := by
  rcases addSubmitPdu_cases hadded with rfl | ⟨sender, ref, max, cur, hext⟩
  · exact ⟨h, Nat.le_refl _, by change (-1 : Int) ≤ _; omega⟩
  · rw [addSubmitPdu_of_extracts hext] at hadded
    obtain rfl := Option.some.inj hadded
    exact h.addExtracted (hknown sender hext.address)

theorem Knows.addAll {arrivals : List (SmsPDU × AddSurroundings)} (h : receiver.Knows known)
    (hknown : ∀ arrival ∈ arrivals, ∀ sender,
      (smspduGetReceiverAddress (arrival.1.memory arrival.2.toSurroundings) arrival.1
        arrival.2.address).run.run = some sender → known sender)
    (hrun : addAll fuel arrivals receiver = some (results, last)) :
    last.Knows known ∧ receiver.last ≤ last.last ∧ ∀ r ∈ results, r ≤ last.last := by
  induction arrivals generalizing receiver results with
  | nil =>
    cases Option.some.inj hrun
    exact ⟨h, Nat.le_refl _, List.forall_mem_nil _⟩
  | cons arrival arrivals ih =>
    obtain ⟨pdu, s⟩ := arrival
    obtain ⟨added, rest, hadded, hrest, rfl⟩ := addAll_cons_iff.mp hrun
    rw [List.forall_mem_cons] at hknown
    obtain ⟨hadds, hle, hresult⟩ := h.addSubmitPdu hknown.1 hadded
    obtain ⟨hlast, hle', hresults⟩ := ih hadds hknown.2 hrest
    refine ⟨hlast, Nat.le_trans hle hle', List.forall_mem_cons.mpr ⟨?_, hresults⟩⟩
    omega

theorem result_of_unknown (hnone : receiver.fragments[receiver.findP s sender ref]? = none) :
    (receiver.addExtracted s pdu sender ref max cur).result ≤ 0 ∨
      (receiver.addExtracted s pdu sender ref max cur).result = (receiver.last : Int) + 1 := by
  by_cases hcur : cur < 0 ∨ (max : Int) ≤ cur
  · rw [addExtracted_of_not_stored hcur]
    exact .inl (by change (-1 : Int) ≤ 0; omega)
  · rw [addExtracted_of_new hcur hnone]
    change (if _ then ((receiver.last + 1 : Nat) : Int) else 0) ≤ 0 ∨
      (if _ then ((receiver.last + 1 : Nat) : Int) else 0) = (receiver.last : Int) + 1
    split
    · exact .inr rfl
    · exact .inl (Int.le_refl 0)

end Known

end SmsReceiver

namespace SubmitMessage

variable (message : SubmitMessage)

def fullText : List UInt8 := Gsm.encode (message.parts.flatMap SubmitPart.text)

/-- All parts are among these. -/
def Complete (arrived : List (Fin message.parts.length)) : Prop := ∀ i, i ∈ arrived

instance decidableComplete (arrived : List (Fin message.parts.length)) :
    Decidable (message.Complete arrived) :=
  inferInstanceAs (Decidable (∀ i, i ∈ arrived))

/-- The calls return 0 until all parts have arrived and `index` from then on, which the text is
found under. -/
structure Collected (arrived : List (Fin message.parts.length)) (results : List Int)
    (receiver : SmsReceiver) (index : Nat) : Prop where
  positive : 0 < index
  results : ∀ k < arrived.length, results[k]? =
    some (if message.Complete (arrived.take (k + 1)) then (index : Int) else 0)
  text : message.Complete arrived → ∀ (s : Nat → Surroundings) (utf8len : Int) (utf8 : Int → UInt8),
    message.fullText.length ≤ utf8len → ∃ out,
      receiver.getTextMessage s index utf8len utf8 = some ((message.fullText.length : Int), out) ∧
        ∀ k < message.fullText.length, out k = message.fullText.getD k 0

/-- In whatever order and however often the parts arrive, and whatever is around the calls. -/
def Reassembles : Prop :=
  ∀ arrivals : List (Fin message.parts.length × AddSurroundings), ∃ fuel results receiver index,
    SmsReceiver.addAll fuel
      (arrivals.map fun a => (message.pdu a.1 message.parts[a.1], a.2)) SmsReceiver.create =
        some (results, receiver) ∧
      message.Collected (arrivals.map Prod.fst) results receiver index

section Digits

variable {message}

theorem getD_readAddress {mem : Nat → UInt8} {cur j : Nat} {address : SmsAddressRec} {b : UInt8}
    {behind : Nat → UInt8} (hj : ((mem cur).toNat + 1) / 2 ≤ j)
    (hdata : ∀ k, address.data.get k = b) (hbehind : behind j = b) :
    (readAddress mem cur address).byte behind j = b := by
  rw [SmsAddressRec.byte]
  by_cases hlt : j < smsAddressMaxSize
  · have hlength : j < (readAddress mem cur address).data.toList.length := by
      rw [Vector.length_toList]
      exact hlt
    rw [List.getD_eq_getElem _ _ hlength]
    simp only [readAddress, Vector.toList_ofFn, List.getElem_ofFn]
    rw [List.getD_eq_default _ _ (by simpa using hj)]
    exact hdata ⟨j, hlt⟩
  · rw [List.getD_eq_default _ _ (by rw [Vector.length_toList]; exact Nat.not_lt.mp hlt)]
    exact hbehind

/-- Surroundings in which the local address, and what is behind it, has the byte `b` everywhere. -/
def filled (b : UInt8) : AddSurroundings where
  beyond := fun _ => 0
  fresh := fun _ => 0
  address := ⟨b, b, Vector.replicate _ b⟩
  rope := { data := .null, max := 0, pos := 0, error := false, data0 := fun _ => 0 }
  behindFrom := fun _ => b
  behindNode := fun _ _ => 0

theorem byte_receiverAddress {i : Nat} {part : SubmitPart} {b : UInt8} {sender : SmsAddressRec}
    (htwo : 2 ≤ message.len.toNat)
    (h : (smspduGetReceiverAddress ((message.pdu i part).memory (filled b).toSurroundings)
      (message.pdu i part) (filled b).address).run.run = some sender) :
    sender.len = message.len ∧
      ∀ behind : Nat → UInt8, behind ((message.len.toNat + 1) / 2) = b →
        sender.byte behind ((message.len.toNat + 1) / 2) = b := by
  have hne : message.len ≠ 0 := by
    intro hzero
    rw [hzero] at htwo
    exact absurd htwo (by decide)
  obtain ⟨-, -, hlen, -⟩ := byte_front message i part (filled b).toSurroundings
  rw [receiverAddress_eq hne] at h
  obtain ⟨-, h⟩ := Option.ite_none_left_eq_some.mp h
  obtain rfl := Option.some.inj h
  refine ⟨hlen, fun behind hbehind => getD_readAddress (by rw [hlen]) (fun k => ?_) hbehind⟩
  simp [filled]

theorem Reassembles.len_lt (h : message.Reassembles) : message.len.toNat < 2 := by
  by_contra hnot
  have htwo : 2 ≤ message.len.toNat := Nat.not_lt.mp hnot
  have hpos : 0 < message.parts.length := List.length_pos_iff.mpr message.nonempty
  let all : List (Fin message.parts.length × AddSurroundings) :=
    (List.finRange message.parts.length).map fun i => (i, filled 0)
  let again : Fin message.parts.length × AddSurroundings := (⟨0, hpos⟩, filled 1)
  obtain ⟨fuel, results, receiver, index, hrun, hcollected⟩ := h (all ++ [again])
  have hall : all.map Prod.fst = List.finRange message.parts.length := by
    rw [List.map_map]
    exact List.map_id _
  have hlength : all.length = message.parts.length := by
    rw [List.length_map, List.length_finRange]
  rw [List.map_append, hall] at hcollected
  have hfull : message.Complete (List.finRange message.parts.length) := List.mem_finRange
  have hmore : message.Complete (List.finRange message.parts.length ++ [again].map Prod.fst) :=
    fun i => List.mem_append_left _ (hfull i)
  -- the last of the parts and the one that comes again both give the index
  have hlast : results[message.parts.length - 1]? = some (index : Int) := by
    have hresult := hcollected.results (message.parts.length - 1)
      (by rw [List.length_append, List.length_finRange]; omega)
    rwa [Nat.sub_add_cancel hpos, List.take_left' List.length_finRange, if_pos hfull] at hresult
  have hagain : results[message.parts.length]? = some (index : Int) := by
    have hresult := hcollected.results message.parts.length (by simp)
    rwa [List.take_of_length_le (by simp), if_pos hmore] at hresult
  rw [List.map_append] at hrun
  obtain ⟨first, mid, rest, hfirst, hrest, rfl, hsize⟩ := SmsReceiver.addAll_append hrun
  rw [List.length_map, hlength] at hsize
  rw [List.getElem?_append_left (by omega)] at hlast
  rw [List.getElem?_append_right (by omega), hsize, Nat.sub_self] at hagain
  have hnone : SmsReceiver.create.Knows fun sender => sender.len = message.len ∧
      sender.byte (fun _ => 0) ((message.len.toNat + 1) / 2) = 0 :=
    ⟨List.forall_mem_nil _, List.forall_mem_nil _⟩
  have hknown : ∀ arrival ∈ all.map fun a => (message.pdu a.1 message.parts[a.1], a.2), ∀ sender,
      (smspduGetReceiverAddress (arrival.1.memory arrival.2.toSurroundings) arrival.1
        arrival.2.address).run.run = some sender → sender.len = message.len ∧
          sender.byte (fun _ => 0) ((message.len.toNat + 1) / 2) = 0 := by
    intro arrival harrival sender hsender
    rw [List.map_map] at harrival
    obtain ⟨i, -, rfl⟩ := List.mem_map.mp harrival
    obtain ⟨hlen, hbyte⟩ := byte_receiverAddress htwo hsender
    exact ⟨hlen, hbyte _ rfl⟩
  obtain ⟨hknows, -, hresults⟩ := hnone.addAll hknown hfirst
  have hle := hresults _ (List.mem_of_getElem? hlast)
  obtain ⟨added, more, hadded, -, rfl⟩ := SmsReceiver.addAll_cons_iff.mp hrest
  have hindex : added.result = index := Option.some.inj hagain
  have hpositive := hcollected.positive
  rcases SmsReceiver.addSubmitPdu_cases hadded with rfl | ⟨sender, ref, max, cur, hext⟩
  · change (-1 : Int) = index at hindex
    omega
  · obtain ⟨-, hbyte⟩ := byte_receiverAddress htwo hext.address
    rw [SmsReceiver.addSubmitPdu_of_extracts hext] at hadded
    obtain rfl := Option.some.inj hadded
    cases hfrag : mid.fragments[mid.findP (filled 1) sender ref]? with
    | none =>
      rcases @SmsReceiver.result_of_unknown _ _ _ _ _ max cur hfrag with hresult | hresult
      · rw [hindex] at hresult
        omega
      · rw [hindex] at hresult
        omega
    | some frag =>
      obtain ⟨hmem, heq⟩ := SmsReceiver.mem_of_findP hfrag
      obtain ⟨hlen, hzero⟩ := hknows.sender frag hmem
      have hsame := (of_decide_eq_true heq).2.2 ((message.len.toNat + 1) / 2) (by rw [hlen]; omega)
      have hone := hbyte (fun _ => 1) rfl
      exact absurd (hzero.symm.trans (hsame.trans hone)) (by decide)

end Digits

section OneDigit

variable {message}

/-- The number that is read for the receiver, whatever is behind its one digit. -/
structure IsReceiver (message : SubmitMessage) (address : SmsAddressRec) : Prop where
  len : address.len = 1
  toa : address.toa = message.toa
  digit : ∀ behind, address.byte behind 0 = message.digits.getD 0 0

theorem IsReceiver.eq {a b : SmsAddressRec} (ha : message.IsReceiver a) (hb : message.IsReceiver b)
    (behind behind' : Nat → UInt8) : smsAddressEq a b behind behind' = true := by
  refine decide_eq_true ⟨ha.toa.trans hb.toa.symm, ha.len.trans hb.len.symm, fun i hi => ?_⟩
  rw [ha.len] at hi
  obtain rfl := Nat.lt_one_iff.mp hi
  rw [ha.digit, hb.digit]

theorem digit_readAddress {mem : Nat → UInt8} {cur : Nat} (hlen : mem cur = 1)
    (address : SmsAddressRec) (behind : Nat → UInt8) :
    (readAddress mem cur address).byte behind 0 = mem (cur + 2) := by
  rw [SmsAddressRec.byte, List.getD_eq_getElem _ _ (by rw [Vector.length_toList]; decide)]
  simp only [readAddress, Vector.toList_ofFn, List.getElem_ofFn, hlen]
  rfl

/-- A fragment with the one part of a message. -/
structure Holds (message : SubmitMessage) (i : Nat) (part : SubmitPart) (frag : SmsFragment) :
    Prop where
  sender : message.IsReceiver frag.sender
  ref : frag.ref = part.messageRef
  max : frag.max = 1
  count : frag.count = 1
  index : frag.index = 1
  pdu : frag.pdus 0 = some (message.pdu i part)

variable {i : Nat} {part : SubmitPart} (hone : message.len = 1)

include hone

theorem isReceiver_readAddress (s : Surroundings) (address : SmsAddressRec) :
    message.IsReceiver (readAddress ((message.pdu i part).byte s) (part.scAddress.length + 2)
      address) := by
  obtain ⟨-, -, hlen, htoa⟩ := byte_front message i part s
  have hlength := @length_tpdu message i part
  obtain ⟨digit, hdigit⟩ := exists_digit hone
  have hbyte := @byte_pdu message i part s 4 (by omega)
  rw [tpdu_one hone hdigit] at hbyte
  refine ⟨hlen.trans hone, htoa, fun behind => ?_⟩
  rw [digit_readAddress (hlen.trans hone), hdigit]
  exact hbyte

theorem extracts_one {s : AddSurroundings} {fuel : Nat}
    (hnone : (message.pdu i part).userDataRef s.toSurroundings fuel = none) :
    ∃ sender, message.IsReceiver sender ∧
      Extracts s (message.pdu i part) fuel sender part.messageRef.toNat 1 0 := by
  have hne : message.len ≠ 0 := by
    rw [hone]
    decide
  obtain ⟨hmti, href, hlen, -⟩ := byte_front message i part s.toSurroundings
  have hstop := @length_pdu message i part
  rw [length_tpdu] at hstop
  refine ⟨_, @isReceiver_readAddress message i part hone s.toSurroundings s.address, ?_, ?_, ?_, ?_,
    ?_⟩
  · rw [receiverAddress_eq hne, hone]
    exact if_neg (by decide)
  · rw [smspduGetRef_of_none hnone]
    · exact congrArg (fun b : UInt8 => some (b.toNat : Int)) href
    · exact (congrArg (· &&& 3) hmti).trans part.submit
    · change part.scAddress.length + 1 < _
      omega
  · exact Int.natCast_nonneg _
  · exact smspduGetMaxIndex_of_none hnone
  · exact smspduGetCurIndex_of_none hnone

theorem addSubmitPdu_first {s : AddSurroundings} {fuel : Nat}
    (hnone : (message.pdu i part).userDataRef s.toSurroundings fuel = none) :
    ∃ wrote frag, message.Holds i part frag ∧
      SmsReceiver.create.addSubmitPdu s (message.pdu i part) fuel =
        some ⟨1, ⟨1, [frag]⟩, wrote⟩ := by
  obtain ⟨sender, hsender, hext⟩ := extracts_one hone hnone
  rw [SmsReceiver.addSubmitPdu_of_extracts hext,
    SmsReceiver.addExtracted_of_new (by decide) (List.getElem?_nil)]
  refine ⟨_, _, ⟨hsender, ?_, rfl, rfl, rfl, rfl⟩, rfl⟩
  exact UInt8.ofNat_toNat

theorem addSubmitPdu_of_running {s : AddSurroundings} {fuel : Nat} {receiver : SmsReceiver}
    (hrunning : (message.pdu i part).userDataRef s.toSurroundings fuel = some none) :
    receiver.addSubmitPdu s (message.pdu i part) fuel = none := by
  have hne : message.len ≠ 0 := by
    rw [hone]
    decide
  have haddress := @receiverAddress_eq message i part hne s.toSurroundings
  rw [hone] at haddress
  have hread := haddress.trans (if_neg (by decide))
  rw [SmsReceiver.addSubmitPdu]
  simp only [hread, smspduGetRef_of_running hrunning]
  rfl

theorem addSubmitPdu_again {s : AddSurroundings} {fuel : Nat} {frag : SmsFragment}
    (hfrag : message.Holds i part frag)
    (hnone : (message.pdu i part).userDataRef s.toSurroundings fuel = none) :
    ∃ wrote stored, message.Holds i part stored ∧
      SmsReceiver.addSubmitPdu ⟨1, [frag]⟩ s (message.pdu i part) fuel =
        some ⟨1, ⟨1, [stored]⟩, wrote⟩ := by
  obtain ⟨sender, hsender, hext⟩ := extracts_one hone hnone
  have hfound : SmsReceiver.findP ⟨1, [frag]⟩ s sender part.messageRef.toNat = 0 := by
    have hsame := hfrag.sender.eq hsender (s.behindNode frag.index) s.behindFrom
    have href : (frag.ref.toNat : Int) = part.messageRef.toNat := by rw [hfrag.ref]
    rw [SmsReceiver.findP, List.findIdx_cons, hsame, decide_eq_true href]
    rfl
  have hput : (frag.put 0 (message.pdu i part)).count = 1 := by
    change (if (frag.pdus 0).isSome then frag.count - 1 else frag.count) + 1 = 1
    rw [hfrag.pdu, hfrag.count]
    rfl
  have hholds : message.Holds i part (frag.put 0 (message.pdu i part)) :=
    ⟨hfrag.sender, hfrag.ref, hfrag.max, hput, hfrag.index,
      by simp [SmsFragment.put]⟩
  rw [SmsReceiver.addSubmitPdu_of_extracts hext,
    SmsReceiver.addExtracted_of_found (by decide) (by rw [hfound]; rfl), hfound]
  refine ⟨some (frag.max, 0), _, hholds, ?_⟩
  congr 2
  change (if (frag.put 0 (message.pdu i part)).max ≤ (frag.put 0 (message.pdu i part)).count then
    (frag.index : Int) else 0) = 1
  rw [hholds.max, hholds.count, hfrag.index]
  rfl

omit hone in
theorem getTextMessage_of_holds {frag : SmsFragment} (hfrag : message.Holds i part frag)
    (s : Nat → Surroundings) (utf8len : Int) (utf8 : Int → UInt8) :
    SmsReceiver.getTextMessage ⟨1, [frag]⟩ s 1 utf8len utf8 =
      SmsReceiver.copyText (s 0) (message.pdu i part) 0 utf8len.toNat utf8 := by
  have hfind : [frag].find? (·.index = 1) = some frag :=
    List.find?_cons_of_pos (decide_eq_true hfrag.index)
  have hcount : ¬frag.count ≠ frag.max := by
    rw [hfrag.count, hfrag.max]
    decide
  have hcopy : SmsReceiver.getTextLoop s frag 1 0 0 utf8len 0 utf8 =
      SmsReceiver.copyText (s 0) (message.pdu i part) 0 utf8len.toNat utf8 := by
    have hend : ∀ x : Option (Int × (Int → UInt8)),
        (x.bind fun out => some (0 + out.1, out.2)) = x := by
      intro x
      simp
    rw [SmsReceiver.getTextLoop, hfrag.pdu, Option.bind_eq_bind, Option.bind_some]
    split
    · exact hend _
    · next hle =>
      rw [Int.toNat_of_nonpos (Int.not_lt.mp hle)]
      exact hend _
  rw [SmsReceiver.getTextMessage, hfind]
  simp only
  rw [if_neg hcount, hfrag.count]
  exact hcopy

omit hone in
theorem copied_eq {bytes : List UInt8} (utf8 : Int → UInt8) {k : Nat} (hk : k < bytes.length) :
    (if (0 : Int) ≤ k then bytes.getD ((k : Int) - 0).toNat (utf8 k) else utf8 k) =
      bytes.getD k 0 := by
  rw [if_pos (Int.natCast_nonneg k), Int.sub_zero, Int.toNat_natCast, List.getD_eq_getElem _ _ hk,
    List.getD_eq_getElem _ _ hk]

theorem copyText_iff :
    (∀ (s : Surroundings) (utf8len : Int) (utf8 : Int → UInt8),
      (Gsm.encode part.text).length ≤ utf8len → ∃ out,
        SmsReceiver.copyText s (message.pdu i part) 0 utf8len.toNat utf8 =
          some (((Gsm.encode part.text).length : Int), out) ∧
        ∀ k < (Gsm.encode part.text).length, out k = (Gsm.encode part.text).getD k 0) ↔
      message.Spelled i part := by
  constructor
  · intro h
    have hread : ∀ s : Surroundings, codingOf part.dataCoding ≠ .unknown ∧ ∃ area,
        userArea ((message.pdu i part).byte s) (part.scAddress.length + 7)
          (message.pdu i part).base.length (codingOf part.dataCoding) = some area ∧
          area.text ((message.pdu i part).byte s) = Gsm.encode part.text := by
      intro s
      obtain ⟨out, hcopy, hout⟩ := h s (Gsm.encode part.text).length (fun _ => 0) (Int.le_refl _)
      rw [SmsReceiver.copyText, textMessage_one hone s] at hcopy
      have hfailed : ∀ utf8 : Int → UInt8,
          some ((-1 : Int), utf8) ≠ some (((Gsm.encode part.text).length : Int), out) := by
        intro utf8 hsame
        have hlength : (-1 : Int) = (Gsm.encode part.text).length :=
          congrArg Prod.fst (Option.some.inj hsame)
        omega
      by_cases hknown : codingOf part.dataCoding = .unknown
      · rw [if_pos hknown] at hcopy
        exact absurd hcopy (hfailed _)
      · rw [if_neg hknown] at hcopy
        cases harea : userArea ((message.pdu i part).byte s) (part.scAddress.length + 7)
            (message.pdu i part).base.length (codingOf part.dataCoding) with
        | none =>
          rw [harea] at hcopy
          exact absurd hcopy (hfailed _)
        | some area =>
          rw [harea, Option.map_some] at hcopy
          simp only [Option.map_some] at hcopy
          refine ⟨hknown, area, rfl, ?_⟩
          generalize area.text ((message.pdu i part).byte s) = text at hcopy
          obtain ⟨hlength, rfl⟩ := Prod.mk.inj (Option.some.inj hcopy)
          have hsame : text.length = (Gsm.encode part.text).length := Int.natCast_inj.mp hlength
          rw [Int.toNat_natCast, ← hsame, List.take_length] at hout
          refine List.ext_getElem hsame fun k hk hk' => ?_
          have hbyte := (copied_eq (fun _ => 0) hk).symm.trans (hout k hk)
          rwa [List.getD_eq_getElem _ _ hk, List.getD_eq_getElem _ _ hk'] at hbyte
    refine ⟨(hread (filled 0).toSurroundings).1, fun s => ?_⟩
    obtain ⟨-, area, harea, htext⟩ := hread s
    rw [length_digits_one hone, harea, Option.map_some, htext]
  · rintro ⟨hknown, hspelled⟩ s utf8len utf8 hlen
    obtain ⟨area, harea, htext⟩ := Option.map_eq_some_iff.mp (hspelled s)
    rw [length_digits_one hone] at harea
    have hmessage := @textMessage_one message i part hone s utf8len.toNat
    rw [if_neg hknown, harea, Option.map_some, htext,
      List.take_of_length_le (by omega : (Gsm.encode part.text).length ≤ utf8len.toNat)] at hmessage
    rw [SmsReceiver.copyText, hmessage]
    exact ⟨_, rfl, fun k hk => copied_eq utf8 hk⟩

theorem addAll_again {fuel : Nat} {frag : SmsFragment} (hfrag : message.Holds i part frag)
    (hnone : ∀ s, (message.pdu i part).userDataRef s fuel = none)
    (arrivals : List AddSurroundings) :
    ∃ stored, message.Holds i part stored ∧
      SmsReceiver.addAll fuel (arrivals.map fun s => (message.pdu i part, s)) ⟨1, [frag]⟩ =
        some (List.replicate arrivals.length 1, ⟨1, [stored]⟩) := by
  induction arrivals generalizing frag with
  | nil => exact ⟨frag, hfrag, rfl⟩
  | cons s arrivals ih =>
    obtain ⟨wrote, again, hagain, hadded⟩ :=
      addSubmitPdu_again hone hfrag (hnone s.toSurroundings)
    obtain ⟨stored, hstored, hrest⟩ := ih hagain
    exact ⟨stored, hstored, SmsReceiver.addAll_cons_iff.mpr ⟨_, _, hadded, hrest, rfl⟩⟩

theorem addAll_one {fuel : Nat} (hnone : ∀ s, (message.pdu i part).userDataRef s fuel = none)
    (s : AddSurroundings) (arrivals : List AddSurroundings) :
    ∃ stored, message.Holds i part stored ∧
      SmsReceiver.addAll fuel ((s :: arrivals).map fun s => (message.pdu i part, s))
        SmsReceiver.create = some (List.replicate (s :: arrivals).length 1, ⟨1, [stored]⟩) := by
  obtain ⟨wrote, frag, hfrag, hadded⟩ := addSubmitPdu_first hone (hnone s.toSurroundings)
  obtain ⟨stored, hstored, hrest⟩ := addAll_again hone hfrag hnone arrivals
  exact ⟨stored, hstored, SmsReceiver.addAll_cons_iff.mpr ⟨_, _, hadded, hrest, rfl⟩⟩

end OneDigit

/-- The receiver has one digit, and the message one part; the scan of that ends, and its text is
found. -/
structure ReadInPlace : Prop where
  one : message.len = 1
  single : ∃ part, message.parts = [part] ∧ ¬message.Stalls 0 part ∧ message.Spelled 0 part

variable {message}

theorem ReadInPlace.reassembles (h : message.ReadInPlace) : message.Reassembles := by
  obtain ⟨hone, part, hparts, hends, hspelled⟩ := h
  intro arrivals
  have hcount : message.parts.length = 1 := by rw [hparts]; rfl
  have hpdu : ∀ i : Fin message.parts.length,
      message.pdu i message.parts[i] = message.pdu 0 part := by
    rintro ⟨k, hk⟩
    obtain rfl : k = 0 := by omega
    have hget : message.parts[0]? = some part := by rw [hparts]; rfl
    exact congrArg (message.pdu 0) (List.getElem?_eq_some_iff.mp hget).2
  have hnone : ∀ s, (message.pdu 0 part).userDataRef s ((message.pdu 0 part).base.length + 1) =
      none := fun s => userDataRef_of_not_stalls hone hends s (Nat.lt_succ_self _)
  have htext : message.fullText = Gsm.encode part.text := by
    rw [fullText, hparts, List.flatMap_singleton]
  cases arrivals with
  | nil =>
    refine ⟨0, [], SmsReceiver.create, 1, rfl, Nat.one_pos, fun k hk => ?_, fun hcomplete => ?_⟩
    · exact absurd hk (Nat.not_lt_zero k)
    · exact absurd (hcomplete ⟨0, by omega⟩) List.not_mem_nil
  | cons a arrivals =>
    obtain ⟨stored, hstored, hrun⟩ := addAll_one hone hnone a.2 (arrivals.map Prod.snd)
    have hcalls : (a :: arrivals).map (fun a => (message.pdu a.1 message.parts[a.1], a.2)) =
        (a.2 :: arrivals.map Prod.snd).map fun s => (message.pdu 0 part, s) := by
      simp only [List.map_cons, List.map_map, hpdu]
      rfl
    refine ⟨_, _, _, 1, (congrArg (SmsReceiver.addAll _ · _) hcalls).trans hrun, Nat.one_pos,
      fun k hk => ?_, fun _ => ?_⟩
    · have hcomplete : message.Complete (((a :: arrivals).map Prod.fst).take (k + 1)) := by
        intro i
        have hsame : i = a.1 := Fin.ext (by omega)
        rw [List.map_cons, List.take_succ_cons, hsame]
        exact List.mem_cons_self
      rw [if_pos hcomplete, List.getElem?_replicate, if_pos (by simpa using hk)]
      rfl
    · intro s utf8len utf8
      rw [htext, getTextMessage_of_holds hstored]
      exact (copyText_iff hone).mpr hspelled (s 0) utf8len utf8

theorem Reassembles.readInPlace (h : message.Reassembles) (hone : message.len = 1) :
    message.ReadInPlace := by
  obtain ⟨part, rest, hparts⟩ := List.exists_cons_of_ne_nil message.nonempty
  have hpos : 0 < message.parts.length := List.length_pos_iff.mpr message.nonempty
  have hfirst : message.parts[0] = part := by
    have hget : message.parts[0]? = some part := by rw [hparts]; rfl
    exact (List.getElem?_eq_some_iff.mp hget).2
  obtain ⟨fuel, results, receiver, index, hrun, hcollected⟩ := h [(⟨0, hpos⟩, filled 0)]
  obtain ⟨added, more, hadded, hlast, rfl⟩ := SmsReceiver.addAll_cons_iff.mp hrun
  change SmsReceiver.create.addSubmitPdu (filled 0) (message.pdu 0 message.parts[0]) fuel = _
    at hadded
  rw [hfirst] at hadded
  have hnone : (message.pdu 0 part).userDataRef (filled 0).toSurroundings fuel = none := by
    rcases userDataRef_one hone (filled 0).toSurroundings fuel with hnone | hrunning
    · exact hnone
    · rw [addSubmitPdu_of_running hone hrunning] at hadded
      cases hadded
  have hends : ¬message.Stalls 0 part := by
    intro hstalls
    rw [userDataRef_of_stalls hone hstalls] at hnone
    cases hnone
  obtain ⟨wrote, frag, hfrag, hmade⟩ := addSubmitPdu_first hone hnone
  rw [hmade] at hadded
  obtain rfl := Option.some.inj hadded
  obtain ⟨rfl, rfl⟩ := Prod.mk.inj (Option.some.inj hlast)
  have hresult : some (1 : Int) =
      some (if message.Complete [⟨0, hpos⟩] then (index : Int) else 0) :=
    hcollected.results 0 Nat.one_pos
  have hcomplete : message.Complete [⟨0, hpos⟩] := by
    by_contra hnot
    rw [if_neg hnot] at hresult
    cases hresult
  rw [if_pos hcomplete] at hresult
  obtain rfl : index = 1 := (Int.natCast_inj.mp (Option.some.inj hresult)).symm
  obtain rfl : rest = [] := by
    by_contra hne
    have hmore : 1 < message.parts.length := by
      rw [hparts, List.length_cons]
      exact Nat.succ_lt_succ (List.length_pos_iff.mpr hne)
    have hsecond := List.mem_singleton.mp (hcomplete ⟨1, hmore⟩)
    exact absurd (Fin.mk.inj hsecond) Nat.one_ne_zero
  have htext : message.fullText = Gsm.encode part.text := by
    rw [fullText, hparts, List.flatMap_singleton]
  refine ⟨hone, part, hparts, hends, (copyText_iff hone).mp fun s utf8len utf8 hlen => ?_⟩
  have hcopied := hcollected.text hcomplete (fun _ => s) utf8len utf8 (by rwa [htext])
  rwa [htext, getTextMessage_of_holds hfrag] at hcopied

/-- A message is put together if it is a single part to a number of one digit that is read where it
stands; for no other one with a number at all.  In a part without a validity period that is so of
UCS-2, and never of septets. -/
theorem reassembles_iff (message : SubmitMessage) :
    (message.ReadInPlace → message.Reassembles) ∧
    (message.Reassembles → message.len = 0 ∨ message.ReadInPlace) ∧
    ∀ i part, message.len = 1 → part.validity = .absent →
      (part.useGsm7 = false → codingOf part.dataCoding = .ucs2 → message.Spelled i part) ∧
      (part.useGsm7 = true → codingOf part.dataCoding = .gsm7 → ¬message.Spelled i part) := by
  refine ⟨ReadInPlace.reassembles, fun h => ?_, fun i part hone habsent =>
    ⟨spelled_ucs2 hone habsent, not_spelled_gsm7 hone habsent⟩⟩
  by_cases hzero : message.len = 0
  · exact .inl hzero
  · refine .inr (h.readInPlace (UInt8.toNat_inj.mp ?_))
    have hlt := h.len_lt
    have hpos := UInt8.toNat_inj.ne.mpr hzero
    rw [UInt8.toNat_zero] at hpos
    change message.len.toNat = 1
    omega

/-- A part with one character, for the number 12. -/
def toTwelve : SubmitMessage where
  len := 2
  toa := 0x81
  digits := [0x21]
  refNum := 7
  parts :=
    [{ scAddress := [0x00]
       mtiByte := 0x41
       messageRef := 1
       protocolId := 0x00
       dataCoding := 0x48
       validity := .absent
       useGsm7 := false
       text := ['A']
       submit := by decide
       hasUDH := by decide
       format := by decide
       written := by simp
       short := by decide +kernel }]
  complete := rfl
  nonempty := List.cons_ne_nil _ _
  few := by decide

theorem not_reassembles_toTwelve : ¬∀ message : SubmitMessage, message.Reassembles :=
  fun h => absurd (h toTwelve).len_lt (by decide)

end SubmitMessage

end M2M.Telephony
