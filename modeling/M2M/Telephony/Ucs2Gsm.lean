import M2M.Telephony.Ucs2

/-! The two converters of `gsm.c` between UCS-2 and septets, against those between UTF-8 and
septets. -/

open M2M.Lib.Bits

namespace M2M.Telephony.Gsm

section Source

variable (src : Nat → UInt8)

/-- `ucs2_to_gsm7`, as the writer it leaves.  Each byte of the string is a character to it. -/
def ucs2ToGsm7 (ucs2 : List UInt8) (dst : Nat → UInt8) (offset : Nat) : BWriter :=
  (ucs2.foldl (fun writer c => writer.addChar c.toNat) (bwriterInit dst offset)).done

/-- The septet at bit `shift` of the byte at `p`. -/
def septetIn (p shift : Nat) : Nat := (septetAt (fun i => (pure (src i) : Id UInt8)) p shift).run

/-- The loop of `ucs2_from_gsm7`, where `p` and `shift` stay. -/
def ucs2FromGsm7From (p shift : Nat) : Nat → Bool → List UInt8
  | 0, _ => []
  | septetCount + 1, escaped =>
    let val := septetIn src p shift
    if escaped then
      ucs2Write (gsm7bitsToUnicode.getD val 0) ++ ucs2FromGsm7From p shift septetCount false
    else if val = gsm7bitsEscape then ucs2FromGsm7From p shift septetCount true
    else
      let val := gsm7bitsExtendToUnicode.getD val 0
      ucs2Write (if val = 0 then 0x20 else val) ++ ucs2FromGsm7From p shift septetCount false

/-- What `ucs2_from_gsm7` writes. -/
def ucs2FromGsm7 (septetOffset septetCount : Nat) : List UInt8 :=
  ucs2FromGsm7From src (septetOffset >>> 3) (septetOffset % 8) septetCount false

/-- What `ucs2_to_utf8` writes for a string. -/
def ucs2Text (ucs2 : List UInt8) : List UInt8 :=
  (ucs2ToUtf8 (fun i => (pure (ucs2.getD i 0) : Id UInt8)) 0 (ucs2.length / 2)).run

theorem length_ucs2Bytes (units : List UInt16) : (ucs2Bytes units).length = 2 * units.length := by
  induction units with
  | nil => rfl
  | cons u units ih =>
    rw [ucs2Bytes_cons, List.length_append, ih, List.length_cons, ucs2Write, List.length_cons,
      List.length_singleton]
    omega

theorem ucs2Text_ucs2Bytes (units : List UInt16) : ucs2Text (ucs2Bytes units) = unitsText units := by
  rw [ucs2Text, length_ucs2Bytes, Nat.mul_div_cancel_left _ (by decide), ucs2ToUtf8_eq units]
  · rfl
  · intro i b hb
    rw [Nat.zero_add, List.getD_eq_getElem?_getD, hb]
    rfl

end Source

section Packing

variable (units : List UInt16) (dst : Nat → UInt8) (offset : Nat)

/-- The units are packed like their UTF-8 form: the same bits, up to the same place. -/
structure PacksAlike : Prop where
  place : (ucs2ToGsm7 (ucs2Bytes units) dst offset).offset =
    (utf8ToGsm7 (ucs2Text (ucs2Bytes units)) dst offset).offset
  bits : (ucs2ToGsm7 (ucs2Bytes units) dst offset).buf =
    (utf8ToGsm7 (ucs2Text (ucs2Bytes units)) dst offset).buf

def byteSeptets (u : UInt16) : List Nat :=
  septetCodes (UInt8.ofNat (u.toNat >>> 8)).toNat ++ septetCodes (UInt8.ofNat u.toNat).toNat

/-- Septets packed from the same bit on leave the same place and the same bits only if they are
the same. -/
theorem foldl_add7_inj {vs ws : List Nat} (hvs : ∀ v ∈ vs, v < 128) (hws : ∀ w ∈ ws, w < 128)
    (hoffset : (vs.foldl BWriter.add7 (bwriterInit dst offset)).done.offset =
      (ws.foldl BWriter.add7 (bwriterInit dst offset)).done.offset)
    (hbuf : (vs.foldl BWriter.add7 (bwriterInit dst offset)).done.buf =
      (ws.foldl BWriter.add7 (bwriterInit dst offset)).done.buf) : vs = ws := by
  have hpackedV := BWriter.packed_foldl hvs (BWriter.steady_bwriterInit dst offset)
  have hpackedW := BWriter.packed_foldl hws (BWriter.steady_bwriterInit dst offset)
  change BWriter.Packed offset vs _ _ at hpackedV
  change BWriter.Packed offset ws _ _ at hpackedW
  rw [BWriter.offset_done, BWriter.offset_done, hpackedV.offset, hpackedW.offset] at hoffset
  refine List.ext_getElem (by omega) fun i hi hi' => ?_
  refine eq_of_bits (w := 7) (hvs _ (List.getElem_mem hi)) (hws _ (List.getElem_mem hi')) ?_
  intro k hk
  rw [← hpackedV.septets i _ (List.getElem?_eq_getElem hi) k hk,
    ← hpackedW.septets i _ (List.getElem?_eq_getElem hi') k hk,
    ← BWriter.bit_done hpackedV.steady (by rw [hpackedV.offset]; omega),
    ← BWriter.bit_done hpackedW.steady (by rw [hpackedW.offset]; omega), hbuf]

theorem ucs2ToGsm7_ucs2Bytes : ucs2ToGsm7 (ucs2Bytes units) dst offset =
    ((units.flatMap byteSeptets).foldl BWriter.add7 (bwriterInit dst offset)).done := by
  have hcodes : ((ucs2Bytes units).map UInt8.toNat).flatMap septetCodes =
      units.flatMap byteSeptets := by
    rw [ucs2Bytes, List.map_flatMap, List.flatMap_assoc]
    congr 1
    funext u
    rw [ucs2Write, byteSeptets, List.map_cons, List.map_singleton, List.flatMap_cons,
      List.flatMap_singleton]
  rw [ucs2ToGsm7, ← hcodes, ← foldl_addChar, List.foldl_map]

theorem utf8ToGsm7_unitsText : utf8ToGsm7 (unitsText units) dst offset =
    ((units.flatMap fun u => septetCodes u.toNat).foldl BWriter.add7
      (bwriterInit dst offset)).done := by
  rw [utf8ToGsm7, utf8Codes_unitsText, foldl_addChar, List.flatMap_map]

theorem septetCodes_le (c : Nat) : 1 ≤ (septetCodes c).length ∧ (septetCodes c).length ≤ 2 := by
  rw [septetCodes]
  cases unicharToGsm7 c with
  | some nn => exact ⟨Nat.le_refl 1, Nat.le_succ 1⟩
  | none =>
    cases unicharToGsm7Extend c with
    | some nn => exact ⟨Nat.le_succ 1, Nat.le_refl 2⟩
    | none => exact ⟨Nat.le_refl 1, Nat.le_succ 1⟩

theorem eq_zero_of_septetCodes {c : Nat} (h : septetCodes c = [gsm7bitsEscape]) : c = 0 := by
  rw [septetCodes] at h
  cases hplain : unicharToGsm7 c with
  | some nn =>
    rw [hplain] at h
    obtain rfl := List.singleton_inj.mp h
    rw [← (unicharToGsm7_spec hplain).2]
    rfl
  | none =>
    rw [hplain] at h
    cases hext : unicharToGsm7Extend c <;> simp [hext, gsm7bitsEscape] at h

theorem escape_of_length_two {c : Nat} (h : (septetCodes c).length = 2) :
    ∃ nn, septetCodes c = [gsm7bitsEscape, nn] := by
  rw [septetCodes] at h ⊢
  cases hplain : unicharToGsm7 c with
  | some nn => simp [hplain] at h
  | none =>
    cases hext : unicharToGsm7Extend c with
    | some nn => exact ⟨nn, rfl⟩
    | none => simp [hplain, hext] at h

theorem byteSeptets_ne (u : UInt16) : byteSeptets u ≠ septetCodes u.toNat := by
  intro h
  have hu : u.toNat < 65536 := u.toNat_lt
  have hhigh := septetCodes_le (UInt8.ofNat (u.toNat >>> 8)).toNat
  have hlow := septetCodes_le (UInt8.ofNat u.toNat).toNat
  have hlength := congrArg List.length h
  rw [byteSeptets, List.length_append] at hlength
  have hunit := septetCodes_le u.toNat
  obtain ⟨nn, hcodes⟩ := escape_of_length_two (by omega : (septetCodes u.toNat).length = 2)
  rw [byteSeptets, hcodes] at h
  change _ = [gsm7bitsEscape] ++ [nn] at h
  have hparts := List.append_inj h (by rw [List.length_singleton]; omega)
  -- the high byte is written as the escape, so the unit is its low byte
  have hzero := eq_zero_of_septetCodes hparts.1
  rw [UInt8.toNat_ofNat', Nat.shiftRight_eq_div_pow] at hzero
  have hsame : (UInt8.ofNat u.toNat).toNat = u.toNat := by
    rw [UInt8.toNat_ofNat']
    omega
  rw [hsame, hcodes] at hparts
  exact absurd hparts.2 (by simp)

theorem flatMap_byteSeptets_eq_iff :
    (units.flatMap byteSeptets = units.flatMap fun u => septetCodes u.toNat) ↔ units = [] := by
  refine ⟨fun h => ?_, fun h => by rw [h]; rfl⟩
  have hle : ∀ units : List UInt16, (units.flatMap fun u => septetCodes u.toNat).length ≤
      (units.flatMap byteSeptets).length := by
    intro units
    rw [List.length_flatMap, List.length_flatMap]
    refine List.sum_le_sum fun u _ => ?_
    have hhigh := septetCodes_le (UInt8.ofNat (u.toNat >>> 8)).toNat
    have hlow := septetCodes_le (UInt8.ofNat u.toNat).toNat
    have hunit := septetCodes_le u.toNat
    rw [byteSeptets, List.length_append]
    omega
  cases units with
  | nil => rfl
  | cons u units =>
    rw [List.flatMap_cons, List.flatMap_cons] at h
    have hlength := congrArg List.length h
    have htail := hle units
    have hhigh := septetCodes_le (UInt8.ofNat (u.toNat >>> 8)).toNat
    have hlow := septetCodes_le (UInt8.ofNat u.toNat).toNat
    have hunit := septetCodes_le u.toNat
    rw [List.length_append, List.length_append, byteSeptets, List.length_append] at hlength
    have hhead := List.append_inj h (by rw [byteSeptets, List.length_append]; omega)
    exact absurd hhead.1 (byteSeptets_ne u)

theorem packsAlike_iff : PacksAlike units dst offset ↔ units = [] := by
  rw [← flatMap_byteSeptets_eq_iff]
  constructor
  · rintro ⟨hoffset, hbuf⟩
    rw [ucs2Text_ucs2Bytes, ucs2ToGsm7_ucs2Bytes, utf8ToGsm7_unitsText] at hoffset hbuf
    refine foldl_add7_inj dst offset (fun v hv => ?_) (fun v hv => ?_) hoffset hbuf
    · obtain ⟨u, -, hu⟩ := List.mem_flatMap.mp hv
      rcases List.mem_append.mp hu with h | h <;> exact septetCodes_lt _ v h
    · obtain ⟨u, -, hu⟩ := List.mem_flatMap.mp hv
      exact septetCodes_lt _ v hu
  · intro h
    constructor <;>
      rw [ucs2Text_ucs2Bytes, ucs2ToGsm7_ucs2Bytes, utf8ToGsm7_unitsText, h]

end Packing

section Reading

variable (src : Nat → UInt8) (start n : Nat)

/-- The septets of a string, from bit `start` on. -/
def septetsOf : List Nat := valuesAt src 7 start n

/-- Every escape has an assigned code behind it, if it has one. -/
def Assigned : List Nat → Prop
  | [] => True
  | [_] => True
  | c :: code :: septets =>
    if c = gsm7bitsEscape then gsm7bitsExtendToUnicode.getD code 0 ≠ 0 ∧ Assigned septets
    else Assigned (code :: septets)

/-- The text that `utf8_from_gsm7` makes of a string. -/
def gsm7Text : List UInt8 :=
  (utf8FromGsm7 (fun i => (pure (src i) : Id UInt8)) 0 start n).run

/-- A string is read alike by both functions. -/
def ReadsAlike : Prop := ucs2Text (ucs2FromGsm7 src start n) = gsm7Text src start n

instance : Decidable (ReadsAlike src start n) := inferInstanceAs (Decidable (_ = _))

/-- What `ucs2_from_gsm7` writes for a plain septet. -/
def stuckCode (val : Nat) : Nat :=
  if gsm7bitsExtendToUnicode.getD val 0 = 0 then 0x20 else gsm7bitsExtendToUnicode.getD val 0

variable {src start n}

theorem septetsOf_lt : ∀ v ∈ septetsOf src start n, v < 128 := valuesAt_lt

theorem bitPlace (start : Nat) : 8 * (start >>> 3) + start % 8 = start := by
  rw [Nat.shiftRight_eq_div_pow]
  omega

theorem gsm7Text_eq : gsm7Text src start n = encode (unpackChars (septetsOf src start n) false) := by
  have hfields : Fields src 7 (8 * (0 + start >>> 3) + start % 8) (septetsOf src start n) := by
    rw [Nat.zero_add, bitPlace]
    exact fields_valuesAt src 7 start n
  have hread : fromGsm7 (fun i => (pure (src i) : Id UInt8)) (septetsOf src start n).length
      (0 + start >>> 3) (start % 8) false = pure (unpack (septetsOf src start n) false) :=
    fromGsm7_eq septetsOf_lt (Nat.mod_lt _ (by decide)) (fun _ _ _ => rfl) hfields false
  rw [septetsOf, length_valuesAt] at hread
  rw [gsm7Text, utf8FromGsm7, hread, ← unpack_eq]
  rfl

theorem septetIn_eq {v : Nat} {septets : List Nat} (h : septetsOf src start n = v :: septets) :
    septetIn src (start >>> 3) (start % 8) = v := by
  have hfields := fields_valuesAt src 7 start n
  rw [← septetsOf, h] at hfields
  have hbits := (Fields.cons_iff.mp hfields).1
  rw [← bitPlace start] at hbits
  have hv : v < 128 := septetsOf_lt v (by rw [h]; exact List.mem_cons_self)
  have hseptet : septetAt (fun i => (pure (src i) : Id UInt8)) (start >>> 3) (start % 8) = pure v :=
    septetAt_eq (Nat.mod_lt _ (by decide)) hv (fun _ _ _ => rfl) hbits
  rw [septetIn, hseptet]
  rfl

theorem ucs2FromGsm7From_plain {p shift : Nat} (h : septetIn src p shift ≠ gsm7bitsEscape) :
    ucs2FromGsm7From src p shift n false =
      ucs2Bytes (List.replicate n (UInt16.ofNat (stuckCode (septetIn src p shift)))) := by
  induction n with
  | zero => rfl
  | succ n ih =>
    rw [ucs2FromGsm7From, List.replicate_succ, ucs2Bytes_cons, ucs2Write_ofNat, ← ih, stuckCode]
    simp only [Bool.false_eq_true, if_false, if_neg h]

theorem ucs2FromGsm7From_escape {p shift : Nat} (h : septetIn src p shift = gsm7bitsEscape) :
    ucs2FromGsm7From src p shift n false = ucs2Bytes (List.replicate (n / 2) 0) := by
  have hcode : ucs2Write (gsm7bitsToUnicode.getD gsm7bitsEscape 0) = ucs2Write (0 : UInt16).toNat :=
    rfl
  induction n using Nat.strongRecOn with
  | ind n ih =>
    cases n with
    | zero => rfl
    | succ n =>
      rw [ucs2FromGsm7From]
      simp only [h, Bool.false_eq_true, if_false, if_true]
      cases n with
      | zero => rfl
      | succ n =>
        rw [ucs2FromGsm7From]
        simp only [h, if_true]
        rw [ih n (by omega), hcode, ← ucs2Bytes_cons, ← List.replicate_succ,
          ← Nat.add_div_right n (by decide : 0 < 2)]

theorem length_unpackChars_le (septets : List Nat) (escaped : Bool) :
    (unpackChars septets escaped).length ≤ septets.length := by
  induction septets generalizing escaped with
  | nil => cases escaped <;> exact Nat.le_refl 0
  | cons c septets ih =>
    cases escaped with
    | true => exact Nat.succ_le_succ (ih true)
    | false =>
      rw [unpackChars]
      split
      · exact Nat.le_succ_of_le (ih true)
      · exact Nat.succ_le_succ (ih false)

theorem length_unpackChars_lt {septets : List Nat} (h : gsm7bitsEscape ∈ septets) :
    (unpackChars septets false).length < septets.length := by
  induction septets with
  | nil => exact absurd h List.not_mem_nil
  | cons c septets ih =>
    rw [unpackChars]
    split
    · exact Nat.lt_succ_of_le (length_unpackChars_le septets true)
    · next hne => exact Nat.succ_lt_succ (ih ((List.mem_cons.mp h).resolve_left (Ne.symm hne)))

theorem unpackChars_plain {septets : List Nat} (h : gsm7bitsEscape ∉ septets) :
    unpackChars septets false =
      septets.map fun c => Char.ofNat (gsm7bitsToUnicode.getD c 0) := by
  induction septets with
  | nil => rfl
  | cons c septets ih =>
    rw [unpackChars, if_neg (Ne.symm (List.ne_of_not_mem_cons h)), List.map_cons,
      ih (List.not_mem_of_not_mem_cons h)]

theorem unitsText_replicate_space (k : Nat) :
    unitsText (List.replicate k 0x20) = encode (List.replicate k ' ') := by
  induction k with
  | zero => rfl
  | succ k ih =>
    rw [List.replicate_succ, List.replicate_succ, unitsText_cons, encode_cons, ih]
    congr 1

theorem plain_eq_stuckCode (v : Nat) (hv : v < 128)
    (h : gsm7bitsToUnicode.getD v 0 = stuckCode v) : v = 0x20 := by
  have hcheck : ∀ e ∈ (gsm7bitsToUnicode.zip gsm7bitsExtendToUnicode).zipIdx,
      e.1.1 = (if e.1.2 = 0 then 0x20 else e.1.2) → e.2 = 0x20 := by decide +kernel
  exact hcheck _ (codes_mem hv) h

theorem plain_eq_space (v : Nat) (hv : v < 128) (h : gsm7bitsToUnicode.getD v 0 = 0x20) :
    v = 0x20 := by
  have hcheck : ∀ e ∈ (gsm7bitsToUnicode.zip gsm7bitsExtendToUnicode).zipIdx,
      e.1.1 = 0x20 → e.2 = 0x20 := by decide +kernel
  exact hcheck _ (codes_mem hv) h

theorem stuckCode_lt : ∀ v < 128, stuckCode v < 65536 := by
  intro v _
  have hlt := extension_lt v
  unfold stuckCode
  split <;> omega

theorem length_septetsOf (src : Nat → UInt8) (start n : Nat) : (septetsOf src start n).length = n :=
  length_valuesAt ..

theorem readsAlike_escape {septets : List Nat}
    (hseptets : septetsOf src start n = gsm7bitsEscape :: septets)
    (hassigned : Assigned (gsm7bitsEscape :: septets)) :
    ReadsAlike src start n ↔ septets = [] := by
  have hn := length_septetsOf src start n
  rw [hseptets, List.length_cons] at hn
  rw [ReadsAlike, gsm7Text_eq, ucs2FromGsm7, ucs2FromGsm7From_escape (septetIn_eq hseptets),
    ucs2Text_ucs2Bytes, hseptets, unpackChars, if_pos rfl, ← hn]
  cases septets with
  | nil => exact iff_of_true rfl rfl
  | cons code septets =>
    refine iff_of_false (fun h => ?_) (List.cons_ne_nil _ _)
    rw [Assigned, if_pos rfl] at hassigned
    have hcodes := congrArg utf8Codes h
    rw [utf8Codes_unitsText, utf8Codes_encode, unpackChars, List.length_cons,
      Nat.add_div_right _ (by decide : 0 < 2), List.replicate_succ, List.map_cons,
      List.map_cons, toNat_ofNat (extension_lt code)] at hcodes
    exact hassigned.1 (List.cons.inj hcodes).1.symm

theorem readsAlike_plain {v : Nat} {septets : List Nat}
    (hseptets : septetsOf src start n = v :: septets) (hplain : v ≠ gsm7bitsEscape) :
    ReadsAlike src start n ↔ ∀ w ∈ v :: septets, w = 0x20 := by
  have hn := length_septetsOf src start n
  have hval := septetIn_eq hseptets
  have hlt : ∀ w ∈ septetsOf src start n, w < 128 := septetsOf_lt
  rw [hseptets] at hn hlt
  rw [ReadsAlike, gsm7Text_eq, ucs2FromGsm7, ucs2FromGsm7From_plain (by rwa [hval]), hval,
    ucs2Text_ucs2Bytes, hseptets]
  constructor
  · intro h
    have hcodes := congrArg utf8Codes h
    rw [utf8Codes_unitsText, utf8Codes_encode, List.map_replicate] at hcodes
    -- as many characters as septets, so there is no escape
    have hescape : gsm7bitsEscape ∉ v :: septets := by
      intro hmem
      have hlength := congrArg List.length hcodes
      have hless := length_unpackChars_lt hmem
      rw [List.length_replicate, List.length_map] at hlength
      omega
    rw [unpackChars_plain hescape, List.map_map] at hcodes
    have hstuck : (UInt16.ofNat (stuckCode v)).toNat = stuckCode v := by
      rw [UInt16.toNat_ofNat', Nat.mod_eq_of_lt (stuckCode_lt v (hlt v List.mem_cons_self))]
    have hsame : ∀ w ∈ v :: septets, gsm7bitsToUnicode.getD w 0 = stuckCode v := by
      intro w hw
      have hmem := List.mem_map_of_mem (f := Char.toNat ∘ fun c =>
        Char.ofNat (gsm7bitsToUnicode.getD c 0)) hw
      rw [← hcodes] at hmem
      rw [← hstuck, ← List.eq_of_mem_replicate hmem]
      exact (toNat_ofNat (plain_lt w)).symm
    have hspace := plain_eq_stuckCode v (hlt v List.mem_cons_self) (hsame v List.mem_cons_self)
    intro w hw
    refine plain_eq_space w (hlt w hw) ?_
    rw [hsame w hw, hspace]
    rfl
  · intro h
    have hspace : v = 0x20 := h v List.mem_cons_self
    have hescape : gsm7bitsEscape ∉ v :: septets := fun hmem => absurd (h _ hmem) (by decide)
    have hchars : ((v :: septets).map fun c => Char.ofNat (gsm7bitsToUnicode.getD c 0)) =
        List.replicate n ' ' := by
      rw [List.eq_replicate_iff, List.length_map, hn, List.forall_mem_map]
      exact ⟨rfl, fun w hw => by rw [h w hw]; rfl⟩
    rw [unpackChars_plain hescape, hchars, hspace, ← unitsText_replicate_space]
    congr 2

/-- The converters agree on packing only the empty string, and on reading only strings of spaces
and the escape alone. -/
theorem codecs_agree_iff (units : List UInt16) (dst : Nat → UInt8) (offset : Nat)
    (src : Nat → UInt8) (start n : Nat) :
    (PacksAlike units dst offset ↔ units = []) ∧
    ((Assigned (septetsOf src start n) → ReadsAlike src start n) ↔
      (Assigned (septetsOf src start n) →
        (∀ v ∈ septetsOf src start n, v = 0x20) ∨ septetsOf src start n = [gsm7bitsEscape])) := by
  refine ⟨packsAlike_iff units dst offset, forall_congr' fun hassigned => ?_⟩
  cases hseptets : septetsOf src start n with
  | nil =>
    obtain rfl : n = 0 := by
      rw [← length_septetsOf src start n, hseptets, List.length_nil]
    refine iff_of_true ?_ (.inl (List.forall_mem_nil _))
    rw [ReadsAlike, gsm7Text_eq, hseptets, ucs2FromGsm7, ucs2FromGsm7From]
    rfl
  | cons v septets =>
    rw [hseptets] at hassigned
    by_cases hescape : v = gsm7bitsEscape
    · subst hescape
      rw [readsAlike_escape hseptets hassigned, List.cons_eq_cons, and_iff_right rfl, or_iff_right]
      exact fun h => absurd (h _ List.mem_cons_self) (by decide)
    · rw [readsAlike_plain hseptets hescape, or_iff_left]
      exact fun h => hescape (List.cons.inj h).1

theorem not_codecs_agree_A :
    ¬PacksAlike [0x41] (fun _ => 0) 0 ∧
      ¬(Assigned (septetsOf (fun _ => 0x41) 0 1) → ReadsAlike (fun _ => 0x41) 0 1) := by
  refine ⟨fun h => ?_, fun h => ?_⟩
  · exact absurd h.place (by decide +kernel)
  · have hseptets : septetsOf (fun _ => 0x41) 0 1 = [0x41] := by decide +kernel
    rw [hseptets] at h
    exact absurd (h trivial) (by decide +kernel)

end Reading

end M2M.Telephony.Gsm
