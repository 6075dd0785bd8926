import M2M.Telephony.Fragments

/-! When the pieces of a text lose nothing of it. -/

open M2M.Lib.Cutting

namespace M2M.Telephony

/-- The pieces passed on are runs of characters that make up the whole text, each is within the
asserted limit, and the number of pieces is in every header. -/
structure Lossless (text : List Char) (sender : SmsAddress) (d : Delivery) : Prop where
  runs : ∃ runs : List (List Char), d.passed = runs.map Gsm.encode ∧ runs.flatten = text
  limits : ∀ piece ∈ d.passed, WithinLimits piece (Gsm.utf8CheckGsm7 (Gsm.encode text))
  headers : ∀ pdus, d.list = some pdus → ∀ pdu ∈ pdus, ∀ max, pdu.maxIndex sender = some max →
    max.toNat = d.passed.length

theorem Lossless.flatten_passed {text : List Char} {sender : SmsAddress} {d : Delivery}
    (h : Lossless text sender d) : d.passed.flatten = Gsm.encode text := by
  obtain ⟨runs, hpassed, rfl⟩ := h.runs
  rw [hpassed, Gsm.encode_flatten]

/-- A text of the alphabet takes at most 255 pieces, and no escape straddles the end of one.  Any
other text fits into a single piece, and none of its characters takes an escape. -/
def Fits (text : List Char) : Prop :=
  if Gsm.InAlphabet text then
    weight Gsm.charSeptets text ≤ 255 * 154 ∧
      ∀ i, i * 154 < weight Gsm.charSeptets text → Boundary Gsm.charSeptets text (i * 154)
  else text.length ≤ 67 ∧ ∀ c ∈ text, Gsm.charSeptets c = 1

section

variable (text : List Char) (fresh : Nat → UInt8) (stack : GsmRope) (sender : SmsAddress)
  (timestamp : SmsTimeStamp) (refNum : UInt8)

variable {text} in
theorem lossless_iff_runs {useGsm7 : Bool}
    (hgsm7 : Gsm.utf8CheckGsm7 (Gsm.encode text) = useGsm7) :
    Lossless text sender
        (smspduCreateDeliverUtf8 fresh stack sender timestamp refNum (Gsm.encode text)) ↔
      (∀ run ∈ runsOf text useGsm7, WithinLimits (Gsm.encode run) useGsm7) ∧
        (runsOf text useGsm7).flatten = text ∧ (runsOf text useGsm7).length ≤ 255 := by
  have hdelivery := delivery_of_limits text fresh stack sender timestamp refNum hgsm7
  constructor
  · intro h
    have hlimits : ∀ run ∈ runsOf text useGsm7, WithinLimits (Gsm.encode run) useGsm7 :=
      limits_of_delivery text fresh stack sender timestamp refNum hgsm7 (hgsm7 ▸ h.limits)
    obtain ⟨hpassed, hsome⟩ := hdelivery hlimits
    obtain ⟨pdus, hlist⟩ := Option.isSome_iff_exists.mp hsome
    obtain ⟨hlen, hbytes⟩ := delivery_list text fresh stack sender timestamp refNum hgsm7 hlist
    refine ⟨hlimits, ?_, ?_⟩
    · obtain ⟨runs, hruns, htext⟩ := h.runs
      rw [hpassed] at hruns
      rw [List.map_injective_iff.mpr Gsm.encode_injective hruns, htext]
    · by_contra hmany
      obtain ⟨pdu, hpdu⟩ := List.exists_mem_of_length_pos (by omega : 0 < pdus.length)
      obtain ⟨pduIndex, utf8, hpdu'⟩ := hbytes pdu hpdu
      have hmax : pdu.maxIndex sender = some (UInt8.ofNat pdus.length) := by
        rw [hpdu', maxIndex_deliverBytes, if_pos (by omega)]
      have hheader := h.headers pdus hlist pdu hpdu _ hmax
      have hbyte := UInt8.toNat_lt (UInt8.ofNat pdus.length)
      rw [hheader, hpassed, List.length_map] at hbyte
      omega
  · rintro ⟨hlimits, htext, hlen⟩
    obtain ⟨hpassed, -⟩ := hdelivery hlimits
    refine ⟨⟨_, hpassed, htext⟩, ?_, ?_⟩
    · rw [hpassed, List.forall_mem_map, hgsm7]
      exact hlimits
    · intro pdus hlist pdu hpdu max h
      obtain ⟨hpdus, hbytes⟩ := delivery_list text fresh stack sender timestamp refNum hgsm7 hlist
      obtain ⟨pduIndex, utf8, rfl⟩ := hbytes pdu hpdu
      rw [maxIndex_deliverBytes] at h
      split at h
      · rw [hpassed, List.length_map, ← Option.some.inj h, hpdus, UInt8.toNat_ofNat',
          Nat.mod_eq_of_lt (by omega)]
      · cases h

end

section Runs

variable (text : List Char)

theorem withinLimits_gsm7 : ∀ run ∈ runsOf text true, WithinLimits (Gsm.encode run) true := by
  intro run hrun
  obtain ⟨n, hn, hle⟩ := weight_le_of_mem_cut hrun
  have hblock : n ≤ 154 := le_of_mem_blocks hn
  change Gsm.utf8ToGsm7Count _ ≤ 154
  rw [Gsm.utf8ToGsm7Count_encode]
  omega

theorem length_runsOf_gsm7 :
    (runsOf text true).length ≤ 255 ↔ weight Gsm.charSeptets text ≤ 255 * 154 := by
  rw [runsOf, length_cut, length_blocks]
  change (weight Gsm.charSeptets text + 154 - 1) / 154 ≤ 255 ↔ _
  omega

theorem flatten_runsOf_gsm7 : (runsOf text true).flatten = text ↔
    ∀ i, i * 154 < weight Gsm.charSeptets text → Boundary Gsm.charSeptets text (i * 154) := by
  have hsum := sum_blocks (by decide : 0 < 154) (weight Gsm.charSeptets text)
  change (cut Gsm.charSeptets (blocks 154 (weight Gsm.charSeptets text)) text).flatten = text ↔ _
  rw [flatten_cut_iff Gsm.charSeptets_pos hsum.symm]
  simp only [sum_take_blocks (by decide : 0 < 154)]
  refine forall_congr' fun i => ?_
  by_cases hi : i * 154 < weight Gsm.charSeptets text
  · rw [Nat.min_eq_left (Nat.le_of_lt hi)]
    exact ⟨fun h _ => h, fun h => h hi⟩
  · rw [Nat.min_eq_right (Nat.not_lt.mp hi)]
    exact ⟨fun _ h => absurd h hi, fun _ => boundary_weight _ text⟩

variable {text}

theorem length_pos_of_not_inAlphabet (h : ¬ Gsm.InAlphabet text) : 0 < text.length := by
  refine List.length_pos_iff.mpr fun hnil => h ?_
  rw [hnil]
  exact List.forall_mem_nil _

/-- The characters counted are as many as the septets skipped, so every one takes a single
septet; and the first run is as long as the block or the text. -/
theorem fits_of_runs_ucs2 (hne : 0 < text.length)
    (hlimits : ∀ run ∈ runsOf text false, WithinLimits (Gsm.encode run) false)
    (htext : (runsOf text false).flatten = text) :
    text.length ≤ 67 ∧ ∀ c ∈ text, Gsm.charSeptets c = 1 := by
  change ∀ run ∈ cut Gsm.charSeptets (blocks 134 text.length) text, _ at hlimits
  change (cut Gsm.charSeptets (blocks 134 text.length) text).flatten = text at htext
  have hsum := sum_blocks (by decide : 0 < 134) text.length
  have hle := weight_flatten_cut_le Gsm.charSeptets (blocks 134 text.length) text
  rw [htext, hsum] at hle
  have hone := eq_one_of_weight_le Gsm.charSeptets_pos hle
  refine ⟨?_, hone⟩
  have hfull := full_of_flatten_cut Gsm.charSeptets ((weight_of_eq_one hone).trans hsum.symm) htext
  obtain ⟨ns, hns⟩ := blocks_eq_cons (by decide : 0 < 134) hne
  rw [hns, cut, List.map_cons, List.cons.injEq] at hfull
  rw [hns, cut, List.forall_mem_cons] at hlimits
  have hrun : takeWithin Gsm.charSeptets (min 134 text.length) text <+: text :=
    ⟨_, takeWithin_append_dropWithin _ _ text⟩
  have hlen := weight_of_eq_one fun c hc => hone c (hrun.subset hc)
  have hfirst : Gsm.utf8ToUcs2Count (Gsm.encode
    (takeWithin Gsm.charSeptets (min 134 text.length) text)) * 2 ≤ 134 := hlimits.1
  rw [Gsm.utf8ToUcs2Count_encode, ← hlen, hfull.1] at hfirst
  omega

theorem runs_ucs2_of_fits (hlen : text.length ≤ 67) (hone : ∀ c ∈ text, Gsm.charSeptets c = 1) :
    (∀ run ∈ runsOf text false, WithinLimits (Gsm.encode run) false) ∧
      (runsOf text false).flatten = text ∧ (runsOf text false).length ≤ 255 := by
  have hweight := weight_of_eq_one hone
  have hsum := sum_blocks (by decide : 0 < 134) text.length
  have htext : (runsOf text false).flatten = text := by
    change (cut Gsm.charSeptets (blocks 134 text.length) text).flatten = text
    rw [flatten_cut_iff Gsm.charSeptets_pos (hweight.trans hsum.symm)]
    intro i
    rw [sum_take_blocks (by decide : 0 < 134)]
    cases i with
    | zero =>
      rw [Nat.zero_mul, Nat.zero_min]
      exact boundary_zero _ text
    | succ i =>
      rw [Nat.min_eq_right (by omega), ← hweight]
      exact boundary_weight _ text
  refine ⟨fun run hrun => ?_, htext, ?_⟩
  · have hsub := (List.sublist_flatten_of_mem hrun).length_le
    rw [htext] at hsub
    change Gsm.utf8ToUcs2Count _ * 2 ≤ 134
    rw [Gsm.utf8ToUcs2Count_encode]
    omega
  · rw [runsOf, length_cut, length_blocks]
    change (text.length + 134 - 1) / 134 ≤ 255
    omega

end Runs

/-- Nothing of a text is lost exactly when it fits. -/
theorem lossless_iff (text : List Char) (fresh : Nat → UInt8) (stack : GsmRope)
    (sender : SmsAddress) (timestamp : SmsTimeStamp) (refNum : UInt8) :
    Lossless text sender
        (smspduCreateDeliverUtf8 fresh stack sender timestamp refNum (Gsm.encode text)) ↔
      Fits text := by
  rw [Fits]
  by_cases halphabet : Gsm.InAlphabet text
  · rw [if_pos halphabet,
      lossless_iff_runs _ _ _ _ _ ((Gsm.utf8CheckGsm7_encode text).mpr halphabet),
      flatten_runsOf_gsm7, length_runsOf_gsm7]
    exact ⟨fun h => ⟨h.2.2, h.2.1⟩, fun h => ⟨withinLimits_gsm7 text, h.2, h.1⟩⟩
  · have hgsm7 : Gsm.utf8CheckGsm7 (Gsm.encode text) = false := by
      rw [← Bool.not_eq_true, Gsm.utf8CheckGsm7_encode]
      exact halphabet
    rw [if_neg halphabet, lossless_iff_runs _ _ _ _ _ hgsm7]
    constructor
    · rintro ⟨hlimits, htext, -⟩
      exact fits_of_runs_ucs2 (length_pos_of_not_inAlphabet halphabet) hlimits htext
    · rintro ⟨hlen, hone⟩
      exact runs_ucs2_of_fits hlen hone

/-- A text with one letter outside the alphabet and a bracket: the skip counts two septets for the
bracket, the number of septets to skip counts one, and the bracket is dropped. -/
theorem bracket_dropped :
    ¬ Lossless ['ж', '['] ⟨⟨4, 0x81, #v[0x55, 0x65, 0, 0, 0, 0, 0, 0, 0, 0, 0, 0, 0, 0, 0, 0]⟩,
        by decide⟩
      (smspduCreateDeliverUtf8 (fun _ => 0) ⟨.null, 0, 0, false, fun _ => 0⟩
        ⟨⟨4, 0x81, #v[0x55, 0x65, 0, 0, 0, 0, 0, 0, 0, 0, 0, 0, 0, 0, 0, 0]⟩, by decide⟩
        (Vector.replicate 7 0) 0 (Gsm.encode ['ж', '['])) := by
  intro h
  exact absurd h.flatten_passed (by decide +kernel)

end M2M.Telephony
