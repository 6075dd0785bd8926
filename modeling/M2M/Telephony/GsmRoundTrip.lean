import M2M.Telephony.GsmText
import M2M.Telephony.Packing
import Mathlib.Data.List.GetD

/-! A text packed into septets and unpacked again. -/

open M2M.Lib.Bits M2M.Lib.Cutting

namespace M2M.Telephony.Gsm

section Utf8

theorem or_lead_two : ∀ x < 32, 0xc0 ||| x = x + 0xc0 := by decide

theorem or_lead_three : ∀ x < 16, 0xe0 ||| x = x + 0xe0 := by decide

theorem or_continuation : ∀ x < 64, 0x80 ||| x = x + 0x80 := by decide

theorem tail_bits (v : Nat) : 0x80 ||| v &&& 0x3f = v % 64 + 0x80 :=
  (congrArg (0x80 ||| ·) (Nat.and_two_pow_sub_one_eq_mod v 6)).trans
    (or_continuation _ (Nat.mod_lt _ (by decide)))

theorem utf8Write_char {c : Char} (hc : c.toNat < 0x10000) :
    utf8Write c.toNat = String.utf8EncodeChar c := by
  have hval : c.toNat = c.val.toNat := rfl
  rw [utf8Write, tail_bits, tail_bits, hval, Nat.shiftRight_eq_div_pow, Nat.shiftRight_eq_div_pow]
  fun_cases String.utf8EncodeChar c with
  | case1 v h => rw [if_pos (by omega)]
  | case2 v _ h =>
    rw [if_neg (by omega), if_pos (by omega), or_lead_two _ (by omega)]
    change _ = [UInt8.ofNat (c.val.toNat / 64 % 32 + 192), _]
    rw [Nat.mod_eq_of_lt (by omega : c.val.toNat / 64 < 32)]
  | case3 v _ _ h =>
    rw [if_neg (by omega), if_neg (by omega), if_pos (by omega), or_lead_three _ (by omega)]
    change _ = [UInt8.ofNat (c.val.toNat / 4096 % 16 + 224), _, _]
    rw [Nat.mod_eq_of_lt (by omega : c.val.toNat / 4096 < 16)]
  | case4 v => omega

end Utf8

section Codes

/-- The septets written for a character. -/
def septetCodes (c : Nat) : List Nat :=
  match unicharToGsm7 c, unicharToGsm7Extend c with
  | some nn, _ => [nn]
  | none, some nn => [gsm7bitsEscape, nn]
  | none, none => [0x20]

theorem addChar_eq (writer : BWriter) (c : Nat) :
    writer.addChar c = (septetCodes c).foldl BWriter.add7 writer := by
  rw [BWriter.addChar, septetCodes]
  cases unicharToGsm7 c with
  | some nn => rfl
  | none => cases unicharToGsm7Extend c <;> rfl

theorem foldl_addChar (codes : List Nat) (writer : BWriter) :
    codes.foldl BWriter.addChar writer = (codes.flatMap septetCodes).foldl BWriter.add7 writer := by
  rw [List.foldl_flatMap]
  congr 1
  funext writer c
  exact addChar_eq writer c

theorem idxOf?_spec {l : List Nat} {a i : Nat} (h : l.idxOf? a = some i) :
    i < l.length ∧ l.getD i 0 = a := by
  obtain ⟨hlt, heq, -⟩ := List.findIdx?_eq_some_iff_getElem.mp h
  exact ⟨hlt, (List.getD_eq_getElem _ _ hlt).trans (by simpa using heq)⟩

theorem unicharToGsm7_spec {c nn : Nat} (h : unicharToGsm7 c = some nn) :
    nn < 128 ∧ gsm7bitsToUnicode.getD nn 0 = c := idxOf?_spec h

theorem unicharToGsm7Extend_spec {c nn : Nat} (h : unicharToGsm7Extend c = some nn) :
    nn < 128 ∧ gsm7bitsExtendToUnicode.getD nn 0 = c := idxOf?_spec h

theorem septetCodes_lt (c : Nat) : ∀ v ∈ septetCodes c, v < 128 := by
  rw [septetCodes]
  cases hplain : unicharToGsm7 c with
  | some nn => simpa using (unicharToGsm7_spec hplain).1
  | none =>
    cases hextend : unicharToGsm7Extend c with
    | some nn => simpa [gsm7bitsEscape] using (unicharToGsm7Extend_spec hextend).1
    | none => simp

theorem length_septetCodes (c : Nat) : (septetCodes c).length = septets c := by
  rw [septetCodes, septets, unicharToGsm7Count]
  cases unicharToGsm7 c with
  | some nn => rfl
  | none => cases unicharToGsm7Extend c <;> rfl

/-- The characters that `unpack` writes. -/
def unpackChars : List Nat → Bool → List Char
  | [], _ => []
  | c :: vs, true => Char.ofNat (gsm7bitsExtendToUnicode.getD c 0) :: unpackChars vs true
  | c :: vs, false =>
    if c = gsm7bitsEscape then unpackChars vs true
    else Char.ofNat (gsm7bitsToUnicode.getD c 0) :: unpackChars vs false

theorem unpackChars_extension (c : Nat) (vs : List Nat) : unpackChars (c :: vs) true =
    Char.ofNat (gsm7bitsExtendToUnicode.getD c 0) :: unpackChars vs true := rfl

theorem unpackChars_cons (c : Nat) (vs : List Nat) : unpackChars (c :: vs) false =
    if c = gsm7bitsEscape then unpackChars vs true
    else Char.ofNat (gsm7bitsToUnicode.getD c 0) :: unpackChars vs false := rfl

theorem getD_lt {l : List Nat} (h : ∀ x ∈ l, x < 0xd800) (i : Nat) : l.getD i 0 < 0xd800 := by
  rcases Nat.lt_or_ge i l.length with hlt | hge
  · rw [List.getD_eq_getElem _ _ hlt]
    exact h _ (List.getElem_mem hlt)
  · rw [List.getD_eq_default _ _ hge]
    decide

theorem plain_lt (i : Nat) : gsm7bitsToUnicode.getD i 0 < 0xd800 := getD_lt (by decide +kernel) i

theorem extension_lt (i : Nat) : gsm7bitsExtendToUnicode.getD i 0 < 0xd800 :=
  getD_lt (by decide +kernel) i

theorem toNat_ofNat {v : Nat} (hv : v < 0xd800) : (Char.ofNat v).toNat = v := by
  rw [Char.ofNat, dif_pos (Or.inl hv)]
  rfl

theorem utf8Write_ofNat {v : Nat} (hv : v < 0xd800) :
    utf8Write v = String.utf8EncodeChar (Char.ofNat v) := by
  rw [← utf8Write_char (by rw [toNat_ofNat hv]; omega), toNat_ofNat hv]

theorem unpack_eq (vs : List Nat) (escaped : Bool) :
    unpack vs escaped = encode (unpackChars vs escaped) := by
  induction vs generalizing escaped with
  | nil => cases escaped <;> rfl
  | cons c vs ih =>
    cases escaped with
    | true =>
      rw [unpack, unpackChars_extension, encode_cons, ih, utf8Write_ofNat (extension_lt c)]
    | false =>
      rw [unpack, unpackChars_cons]
      split
      · exact ih true
      · rw [encode_cons, ih, utf8Write_ofNat (plain_lt c)]

theorem septetCodes_plain {c : Char} (hnul : c ≠ Char.ofNat 0)
    (hplain : unicharToGsm7Count c.toNat = 1) :
    ∃ nn, septetCodes c.toNat = [nn] ∧ nn ≠ gsm7bitsEscape ∧
      Char.ofNat (gsm7bitsToUnicode.getD nn 0) = c := by
  cases hcode : unicharToGsm7 c.toNat with
  | some nn =>
    have hspec := (unicharToGsm7_spec hcode).2
    refine ⟨nn, by rw [septetCodes, hcode], ?_, by rw [hspec, Char.ofNat_toNat]⟩
    rintro rfl
    have hzero : gsm7bitsToUnicode.getD gsm7bitsEscape 0 = 0 := rfl
    rw [hzero] at hspec
    exact hnul (by rw [hspec, Char.ofNat_toNat])
  | none =>
    rw [unicharToGsm7Count, hcode] at hplain
    cases hext : unicharToGsm7Extend c.toNat <;> simp [hext] at hplain

theorem septetCodes_extension {c : Char} (hext : unicharToGsm7Count c.toNat = 2) :
    ∃ nn, septetCodes c.toNat = [gsm7bitsEscape, nn] ∧
      Char.ofNat (gsm7bitsExtendToUnicode.getD nn 0) = c := by
  cases hplain : unicharToGsm7 c.toNat with
  | some nn => simp [unicharToGsm7Count, hplain] at hext
  | none =>
    cases hcode : unicharToGsm7Extend c.toNat with
    | some nn =>
      refine ⟨nn, by rw [septetCodes, hplain, hcode], ?_⟩
      rw [(unicharToGsm7Extend_spec hcode).2, Char.ofNat_toNat]
    | none => simp [unicharToGsm7Count, hplain, hcode] at hext

theorem count_cases {c : Nat} (h : unicharToGsm7Count c ≠ 0) :
    unicharToGsm7Count c = 1 ∨ unicharToGsm7Count c = 2 := by
  unfold unicharToGsm7Count at h ⊢
  split
  · exact .inl rfl
  · next hplain =>
    rw [if_neg hplain] at h
    split
    · exact .inr rfl
    · next hext => exact absurd (if_neg hext) h

-- what is to hold of every entry is checked in one walk over both tables
theorem codes_mem {v : Nat} (hv : v < 128) :
    ((gsm7bitsToUnicode.getD v 0, gsm7bitsExtendToUnicode.getD v 0), v) ∈
      (gsm7bitsToUnicode.zip gsm7bitsExtendToUnicode).zipIdx := by
  have hplain : v < gsm7bitsToUnicode.length := hv
  have hextend : v < gsm7bitsExtendToUnicode.length := hv
  rw [List.mk_mem_zipIdx_iff_getElem?, List.getElem?_zip_eq_some,
    List.getD_eq_getElem _ _ hplain, List.getD_eq_getElem _ _ hextend]
  exact ⟨List.getElem?_eq_getElem hplain, List.getElem?_eq_getElem hextend⟩

theorem extend_ne_plain (nn : Nat) (hlt : nn < 128) (hzero : gsm7bitsToUnicode.getD nn 0 ≠ 0) :
    gsm7bitsExtendToUnicode.getD nn 0 ≠ gsm7bitsToUnicode.getD nn 0 := by
  have hcheck : ∀ e ∈ (gsm7bitsToUnicode.zip gsm7bitsExtendToUnicode).zipIdx,
      e.1.1 ≠ 0 → e.1.2 ≠ e.1.1 := by decide +kernel
  exact hcheck _ (codes_mem hlt) hzero

theorem unpackChars_escaped {c : Char} (hnul : c ≠ Char.ofNat 0)
    (hcount : unicharToGsm7Count c.toNat ≠ 0) (vs : List Nat) (text : List Char) :
    unpackChars (septetCodes c.toNat ++ vs) true ≠ c :: text := by
  have hzero : c.toNat ≠ 0 := fun h => hnul (by rw [← c.ofNat_toNat, h])
  rcases count_cases hcount with hplain | hext
  · obtain ⟨nn, hcodes, -, hchar⟩ := septetCodes_plain hnul hplain
    have hlt := septetCodes_lt c.toNat nn (by rw [hcodes]; exact List.mem_singleton_self nn)
    have hval : gsm7bitsToUnicode.getD nn 0 = c.toNat := by
      rw [← hchar]
      exact (toNat_ofNat (plain_lt nn)).symm
    rw [hcodes, List.singleton_append, unpackChars_extension]
    intro h
    have hhead := congrArg Char.toNat (List.cons.inj h).1
    rw [toNat_ofNat (extension_lt nn), ← hval] at hhead
    exact extend_ne_plain nn hlt (by rw [hval]; exact hzero) hhead
  · obtain ⟨nn, hcodes, -⟩ := septetCodes_extension hext
    rw [hcodes, List.cons_append, unpackChars_extension]
    intro h
    have hescape : gsm7bitsExtendToUnicode.getD gsm7bitsEscape 0 = 0 := rfl
    rw [hescape] at h
    exact hnul (List.cons.inj h).1.symm

theorem unpackChars_septetCodes {text : List Char} (hnul : ∀ c ∈ text, c ≠ Char.ofNat 0)
    (hcheck : InAlphabet text) :
    unpackChars ((text.map Char.toNat).flatMap septetCodes) false = text ↔
      ∀ c ∈ text.dropLast, unicharToGsm7Count c.toNat = 1 := by
  induction text with
  | nil => exact iff_of_true rfl (List.forall_mem_nil _)
  | cons c text ih =>
    have ih := ih (fun d hd => hnul d (List.mem_cons_of_mem _ hd))
      fun d hd => hcheck d (List.mem_cons_of_mem _ hd)
    rw [List.map_cons, List.flatMap_cons]
    rcases count_cases (hcheck c List.mem_cons_self) with hplain | hext
    · obtain ⟨nn, hcodes, hne, hchar⟩ := septetCodes_plain (hnul c List.mem_cons_self) hplain
      rw [hcodes, List.singleton_append, unpackChars_cons, if_neg hne, hchar,
        List.cons_inj_right, ih]
      cases text with
      | nil => simp
      | cons d text => rw [List.dropLast_cons_cons, List.forall_mem_cons, and_iff_right hplain]
    · obtain ⟨nn, hcodes, hchar⟩ := septetCodes_extension hext
      rw [hcodes, List.cons_append, unpackChars_cons, if_pos rfl, List.singleton_append,
        unpackChars_extension, hchar, List.cons_inj_right]
      cases text with
      | nil => simp [unpackChars]
      | cons d text =>
        refine iff_of_false ?_ fun h => ?_
        · rw [List.map_cons, List.flatMap_cons]
          exact unpackChars_escaped (hnul d (by simp)) (hcheck d (by simp)) _ _
        · have hone := h c (by rw [List.dropLast_cons_cons]; exact List.mem_cons_self)
          omega

end Codes

section RoundTrip

variable (text : List Char) (dst : Nat → UInt8) (offset : Nat)

/-- The text unpacked from what it was packed into. -/
def unpacked : List UInt8 :=
  (utf8FromGsm7 (fun i => (pure ((utf8ToGsm7 (encode text) dst offset).buf i) : Id UInt8)) 0 offset
    (utf8ToGsm7Count (encode text))).run

/-- Packing into a buffer returns the count that it returns without one, and unpacking that many
septets gives back the text. -/
structure ReadsGsm7 : Prop where
  readBack : unpacked text dst offset = encode text
  sameCount : (utf8ToGsm7 (encode text) dst offset).offset = utf8ToGsm7Count (encode text)

theorem codes_lt (text : List Char) :
    ∀ v ∈ (text.map Char.toNat).flatMap septetCodes, v < 128 := by
  intro v hv
  obtain ⟨c, -, hc⟩ := List.mem_flatMap.mp hv
  exact septetCodes_lt c v hc

theorem packed_utf8ToGsm7 :
    BWriter.Packed offset ((text.map Char.toNat).flatMap septetCodes) (bwriterInit dst offset)
      ((text.map Char.toNat).foldl BWriter.addChar (bwriterInit dst offset)) := by
  rw [foldl_addChar]
  exact BWriter.packed_foldl (codes_lt text) (BWriter.steady_bwriterInit dst offset)

variable {text dst offset}

theorem length_codes (text : List Char) :
    ((text.map Char.toNat).flatMap septetCodes).length = utf8ToGsm7Count (encode text) := by
  rw [utf8ToGsm7Count, utf8Codes_encode, List.length_flatMap, List.map_congr_left]
  exact fun c _ => length_septetCodes c

theorem fields_utf8ToGsm7 (text : List Char) (dst : Nat → UInt8) (offset : Nat) :
    Fields (utf8ToGsm7 (encode text) dst offset).buf 7 offset
      ((text.map Char.toNat).flatMap septetCodes) := by
  have hpacked := packed_utf8ToGsm7 text dst offset
  rw [utf8ToGsm7, utf8Codes_encode]
  intro i v hv k hk
  have hlt := (List.getElem?_eq_some_iff.mp hv).1
  have hpos := hpacked.offset
  rw [BWriter.bit_done hpacked.steady (by omega)]
  exact hpacked.septets i v hv k hk

theorem unpacked_eq (hoffset : offset < 8) :
    unpacked text dst offset =
      encode (unpackChars ((text.map Char.toNat).flatMap septetCodes) false) := by
  have hfields := fields_utf8ToGsm7 text dst offset
  rw [unpacked, utf8FromGsm7, ← length_codes, Nat.shiftRight_eq_div_pow,
    Nat.div_eq_of_lt hoffset, Nat.mod_eq_of_lt hoffset, ← unpack_eq]
  refine congrArg Id.run (fromGsm7_eq (codes_lt text) hoffset (fun _ _ _ => rfl) ?_ false)
  rwa [Nat.mul_zero, Nat.zero_add]

theorem offset_utf8ToGsm7 :
    (utf8ToGsm7 (encode text) dst offset).offset = offset + 7 * utf8ToGsm7Count (encode text) := by
  rw [utf8ToGsm7, utf8Codes_encode, BWriter.offset_done,
    (packed_utf8ToGsm7 text dst offset).offset, length_codes]

theorem utf8ToGsm7Count_eq_zero : utf8ToGsm7Count (encode text) = 0 ↔ text = [] := by
  rw [utf8ToGsm7Count_encode]
  have hle := length_le_weight charSeptets_pos text
  constructor
  · intro h
    exact List.length_eq_zero_iff.mp (by omega)
  · rintro rfl
    rfl

/-- The text itself comes back if no extension character is followed by another.  The count is
right of the empty text alone: with a buffer, the bit offset reached is returned. -/
theorem readsGsm7_iff (hnul : ∀ c ∈ text, c ≠ Char.ofNat 0)
    (hcheck : utf8CheckGsm7 (encode text) = true) (hoffset : offset < 8) :
    (ReadsGsm7 text dst offset ↔ text = [] ∧ offset = 0) ∧
      (unpacked text dst offset = encode text ↔
        ∀ c ∈ text.dropLast, unicharToGsm7Count c.toNat = 1) := by
  have htext : unpacked text dst offset = encode text ↔
      ∀ c ∈ text.dropLast, unicharToGsm7Count c.toNat = 1 := by
    rw [unpacked_eq hoffset, encode_injective.eq_iff,
      unpackChars_septetCodes hnul ((utf8CheckGsm7_encode text).mp hcheck)]
  refine ⟨⟨fun h => ?_, ?_⟩, htext⟩
  · have hcount := h.sameCount
    rw [offset_utf8ToGsm7] at hcount
    exact ⟨utf8ToGsm7Count_eq_zero.mp (by omega), by omega⟩
  · rintro ⟨rfl, rfl⟩
    refine ⟨htext.mpr (List.forall_mem_nil _), ?_⟩
    rw [offset_utf8ToGsm7]
    rfl

theorem readsGsm7_pair :
    (ReadsGsm7 ['[', 'a'] (fun _ => 0) 0 ↔ ['[', 'a'] = [] ∧ 0 = 0) ∧
      (unpacked ['[', 'a'] (fun _ => 0) 0 = encode ['[', 'a'] ↔
        ∀ c ∈ ['[', 'a'].dropLast, unicharToGsm7Count c.toNat = 1) :=
  readsGsm7_iff (by simp) (by decide +kernel) (by decide)

/-- The one septet of "a" is reported as seven. -/
theorem letter_not_readsGsm7 : ¬ ReadsGsm7 ['a'] (fun _ => 0) 0 := by
  rintro ⟨-, hcount⟩
  exact absurd hcount (by decide +kernel)

end RoundTrip

end M2M.Telephony.Gsm
