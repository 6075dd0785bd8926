import M2M.Telephony.GsmRope
import M2M.Telephony.GsmRoundTrip

/-! UCS-2 and UTF-8: `ucs2_to_utf8` and `utf8_to_ucs2` with a buffer or without, and
`utf8_check`. -/

open M2M.Telephony.GsmRope

namespace M2M.Telephony.Gsm

section Source

/-- `utf8_write`, with the buffer that it leaves if it has one. -/
def utf8WriteAt (utf8 : Option (Nat → UInt8)) (offset v : Nat) : Nat × Option (Nat → UInt8) :=
  (if v < 128 then 1 else if v < 0x800 then 2 else if v < 0x10000 then 3 else 4,
    utf8.map (copyTo offset (utf8Write v)))

/-- `ucs2_write`, with the buffer that it leaves if it has one. -/
def ucs2WriteAt (ucs2 : Option (Nat → UInt8)) (offset v : Nat) : Nat × Option (Nat → UInt8) :=
  (2, ucs2.map (copyTo offset (ucs2Write v)))

/-- The loop of `ucs2_to_utf8`, two bytes a round. -/
def ucs2ToUtf8From : List UInt8 → Nat → Option (Nat → UInt8) → Nat × Option (Nat → UInt8)
  | c0 :: c1 :: ucs2, result, buf =>
    let written := utf8WriteAt buf result (c0.toNat <<< 8 ||| c1.toNat)
    ucs2ToUtf8From ucs2 (result + written.1) written.2
  | _, result, buf => (result, buf)

/-- `ucs2_to_utf8`. -/
def ucs2ToUtf8Into (ucs2 : List UInt8) (buf : Option (Nat → UInt8)) :
    Nat × Option (Nat → UInt8) :=
  ucs2ToUtf8From ucs2 0 buf

/-- The loop of `utf8_to_ucs2`. -/
def utf8ToUcs2From :
    Nat → List UInt8 → Nat → Option (Nat → UInt8) → Nat × Option (Nat → UInt8)
  | 0, _, result, ucs2 => (result / 2, ucs2)
  | fuel + 1, utf8, result, ucs2 =>
    match utf8Next utf8 with
    | none => (result / 2, ucs2)
    | some (c, p) =>
      let written := ucs2WriteAt ucs2 result c
      utf8ToUcs2From fuel p (result + written.1) written.2

/-- `utf8_to_ucs2`.  Each round takes a byte at least. -/
def utf8ToUcs2Into (utf8 : List UInt8) (ucs2 : Option (Nat → UInt8)) :
    Nat × Option (Nat → UInt8) :=
  utf8ToUcs2From utf8.length utf8 0 ucs2

/-- `len` in `utf8_check`: how many bytes belong behind this one. -/
def following (c : UInt8) : Option Nat :=
  if c.toNat < 128 then some 0
  else if c &&& 0xe0 = 0xc0 then some 1
  else if c &&& 0xf0 = 0xe0 then some 2
  else if c &&& 0xf8 = 0xf0 then some 3
  else none

/-- The loop of `utf8_check`. -/
def utf8CheckFrom : List UInt8 → Bool
  | [] => true
  | c :: p =>
    match following c with
    | none => false
    | some len =>
      if p.length < len then false
      else if (p.take len).all (· &&& 0xc0 = 0x80) then utf8CheckFrom (p.drop len)
      else false
termination_by p => p.length
decreasing_by simp only [List.length_drop, List.length_cons]; omega

/-- `utf8_check`.  NULL is refused. -/
def utf8Check (p : Option (List UInt8)) : Bool := p.elim false utf8CheckFrom

end Source

section Characters

/-- The bytes of a character, as the lead byte has them. -/
structure Utf8Char where
  lead : UInt8
  rest : List UInt8
  complete : following lead = some rest.length
  continues : ∀ b ∈ rest, b &&& 0xc0 = 0x80

namespace Utf8Char

variable (c : Utf8Char)

def bytes : List UInt8 := c.lead :: c.rest

/-- The bits of the lead byte that belong to the number. -/
def payload (lead : UInt8) : Nat :=
  if 128 ≤ lead.toNat then
    if lead &&& 0xe0 = 0xc0 then (lead &&& 0x1f).toNat
    else if lead &&& 0xf0 = 0xe0 then (lead &&& 0x0f).toNat
    else (lead &&& 0x07).toNat
  else lead.toNat

/-- The number of the character. -/
def code : Nat := c.rest.foldl (fun v b => v <<< 6 ||| (b &&& 0x3f).toNat) (payload c.lead)

/-- The character as a unit of UCS-2, which has sixteen bits. -/
def unit : UInt16 := UInt16.ofNat c.code

end Utf8Char

/-- The UTF-8 form of characters. -/
def utf8Text (chars : List Utf8Char) : List UInt8 := chars.flatMap Utf8Char.bytes

/-- The bytes of units, the high one first. -/
def ucs2Bytes (units : List UInt16) : List UInt8 := units.flatMap fun u => ucs2Write u.toNat

@[simp] theorem utf8Text_nil : utf8Text [] = [] := rfl

@[simp] theorem utf8Text_cons (c : Utf8Char) (chars : List Utf8Char) :
    utf8Text (c :: chars) = c.bytes ++ utf8Text chars := rfl

@[simp] theorem ucs2Bytes_nil : ucs2Bytes [] = [] := rfl

@[simp] theorem ucs2Bytes_cons (u : UInt16) (units : List UInt16) :
    ucs2Bytes (u :: units) = ucs2Write u.toNat ++ ucs2Bytes units := rfl

theorem lead_ne_continuation (c : Utf8Char) : c.lead &&& 0xc0 ≠ 0x80 := by
  have hall : ∀ x < 256, following (UInt8.ofNat x) ≠ none → UInt8.ofNat x &&& 0xc0 ≠ 0x80 := by
    decide +kernel
  have hlead := hall c.lead.toNat c.lead.toNat_lt
  rw [UInt8.ofNat_toNat, c.complete] at hlead
  exact hlead (Option.some_ne_none _)

theorem utf8Tail_append {rest : List UInt8} (h : ∀ b ∈ rest, b &&& 0xc0 = 0x80) (v : Nat)
    (chars : List Utf8Char) :
    utf8Tail v (rest ++ utf8Text chars) =
      (rest.foldl (fun v b => v <<< 6 ||| (b &&& 0x3f).toNat) v, utf8Text chars) := by
  induction rest generalizing v with
  | nil =>
    cases chars with
    | nil => rfl
    | cons c chars => exact if_neg (lead_ne_continuation c)
  | cons b rest ih =>
    rw [List.cons_append, utf8Tail, if_pos (h b List.mem_cons_self), List.foldl_cons]
    exact ih (fun d hd => h d (List.mem_cons_of_mem _ hd)) _

theorem utf8Next_utf8Text (c : Utf8Char) (chars : List Utf8Char) :
    utf8Next (utf8Text (c :: chars)) = some (c.code, utf8Text chars) := by
  have htail := utf8Tail_append c.continues (Utf8Char.payload c.lead) chars
  rw [utf8Text_cons, Utf8Char.bytes, List.cons_append, utf8Next]
  split
  · next hge =>
    rw [Utf8Char.payload, if_pos hge] at htail
    rw [htail, Utf8Char.code, Utf8Char.payload, if_pos hge]
  · next hlt =>
    have hrest : c.rest = [] := by
      have hcomplete := c.complete
      rw [following, if_pos (Nat.not_le.mp hlt)] at hcomplete
      exact List.length_eq_zero_iff.mp (Option.some.inj hcomplete).symm
    rw [Utf8Char.code, Utf8Char.payload, if_neg hlt, hrest]
    rfl

theorem length_le_length_utf8Text (chars : List Utf8Char) :
    chars.length ≤ (utf8Text chars).length := by
  induction chars with
  | nil => exact Nat.le_refl 0
  | cons c chars ih =>
    rw [utf8Text_cons, Utf8Char.bytes, List.length_append, List.length_cons, List.length_cons]
    omega

theorem utf8Codes_utf8Text (chars : List Utf8Char) :
    utf8Codes (utf8Text chars) = chars.map Utf8Char.code := by
  suffices h : ∀ fuel, chars.length ≤ fuel →
      utf8CodesFrom fuel (utf8Text chars) = chars.map Utf8Char.code from
    h _ (length_le_length_utf8Text chars)
  induction chars with
  | nil =>
    intro fuel _
    cases fuel <;> rfl
  | cons c chars ih =>
    intro fuel hfuel
    cases fuel with
    | zero => exact absurd hfuel (Nat.not_succ_le_zero _)
    | succ fuel =>
      rw [utf8CodesFrom, utf8Next_utf8Text]
      exact congrArg (c.code :: ·) (ih fuel (Nat.le_of_succ_le_succ hfuel))

theorem utf8Check_iff (text : List UInt8) :
    utf8Check (some text) = true ↔ ∃ chars, text = utf8Text chars := by
  change utf8CheckFrom text = true ↔ _
  constructor
  · fun_induction utf8CheckFrom text with
    | case1 => exact fun _ => ⟨[], rfl⟩
    | case2 => exact fun h => absurd h Bool.false_ne_true
    | case3 => exact fun h => absurd h Bool.false_ne_true
    | case4 c p len hfollowing hlen hall ih =>
      intro h
      obtain ⟨chars, hchars⟩ := ih h
      have hlength : (p.take len).length = len := List.length_take_of_le (Nat.not_lt.mp hlen)
      refine ⟨⟨c, p.take len, by rw [hlength, hfollowing], ?_⟩ :: chars, ?_⟩
      · simpa using hall
      · rw [utf8Text_cons, ← hchars, Utf8Char.bytes, List.cons_append, List.take_append_drop]
    | case5 => exact fun h => absurd h Bool.false_ne_true
  · rintro ⟨chars, rfl⟩
    induction chars with
    | nil => rw [utf8Text_nil, utf8CheckFrom]
    | cons c chars ih =>
      rw [utf8Text_cons, Utf8Char.bytes, List.cons_append, utf8CheckFrom, c.complete]
      simp only
      rw [if_neg (by rw [List.length_append]; omega), List.take_left, List.drop_left, if_pos, ih]
      exact List.all_eq_true.mpr fun b hb => decide_eq_true (c.continues b hb)

end Characters

section Conversion

variable (units : List UInt16) (chars : List Utf8Char) (dst : Option (Nat → UInt8))

theorem following_one : ∀ x < 128, following (UInt8.ofNat x) = some 0 ∧
    Utf8Char.payload (UInt8.ofNat x) = x := by
  decide

theorem following_two : ∀ x < 32, following (UInt8.ofNat (x + 0xc0)) = some 1 ∧
    Utf8Char.payload (UInt8.ofNat (x + 0xc0)) = x := by
  decide

theorem following_three : ∀ x < 16, following (UInt8.ofNat (x + 0xe0)) = some 2 ∧
    Utf8Char.payload (UInt8.ofNat (x + 0xe0)) = x := by
  decide

theorem exists_utf8Char (u : UInt16) :
    ∃ c : Utf8Char, c.bytes = utf8Write u.toNat ∧ c.code = u.toNat := by
  have hu : u.toNat < 65536 := u.toNat_lt
  have hmod : ∀ n, n % 64 < 64 := fun n => Nat.mod_lt n (by decide)
  have hadd : ∀ v x, x < 64 → v <<< 6 ||| x = v * 64 + x := fun v x hx => by
    rw [← Nat.shiftLeft_add_eq_or_of_lt hx, Nat.shiftLeft_eq]
  generalize u.toNat = v at hu
  rw [utf8Write, tail_bits, tail_bits, Nat.shiftRight_eq_div_pow, Nat.shiftRight_eq_div_pow]
  obtain ⟨hcont, hlow⟩ := continuation (v % 64) (hmod v)
  by_cases hone : v < 128
  · obtain ⟨hfollowing, hpayload⟩ := following_one v hone
    exact ⟨⟨_, [], hfollowing, List.forall_mem_nil _⟩, (if_pos hone).symm, hpayload⟩
  rw [if_neg hone]
  by_cases htwo : v < 0x800
  · obtain ⟨hfollowing, hpayload⟩ := following_two (v / 2 ^ 6) (by omega)
    rw [if_pos htwo, or_lead_two _ (by omega)]
    refine ⟨⟨_, [_], hfollowing, List.forall_mem_singleton.mpr hcont⟩, rfl, ?_⟩
    change Utf8Char.payload _ <<< 6 ||| _ = v
    rw [hpayload, hlow, hadd _ _ (hmod v)]
    omega
  · obtain ⟨hfollowing, hpayload⟩ := following_three (v / 2 ^ 12) (by omega)
    obtain ⟨hcont', hmid⟩ := continuation (v / 2 ^ 6 % 64) (hmod _)
    rw [if_neg htwo, if_pos hu, or_lead_three _ (by omega)]
    refine ⟨⟨_, [_, _], hfollowing, ?_⟩, rfl, ?_⟩
    · rw [List.forall_mem_cons, List.forall_mem_singleton]
      exact ⟨hcont', hcont⟩
    · change (Utf8Char.payload _ <<< 6 ||| _) <<< 6 ||| _ = v
      rw [hpayload, hlow, hmid, hadd _ _ (hmod v), hadd _ _ (hmod _)]
      omega

def unitsText : List UInt8 := units.flatMap fun u => utf8Write u.toNat

@[simp] theorem unitsText_nil : unitsText [] = [] := rfl

@[simp] theorem unitsText_cons (u : UInt16) :
    unitsText (u :: units) = utf8Write u.toNat ++ unitsText units := rfl

theorem exists_utf8Text : ∃ chars, unitsText units = utf8Text chars ∧
    chars.map Utf8Char.code = units.map UInt16.toNat := by
  induction units with
  | nil => exact ⟨[], rfl, rfl⟩
  | cons u units ih =>
    obtain ⟨c, hbytes, hcode⟩ := exists_utf8Char u
    obtain ⟨chars, htext, hcodes⟩ := ih
    refine ⟨c :: chars, ?_, ?_⟩
    · rw [unitsText_cons, ← hbytes, htext, utf8Text_cons]
    · rw [List.map_cons, List.map_cons, hcode, hcodes]

theorem utf8Codes_unitsText : utf8Codes (unitsText units) = units.map UInt16.toNat := by
  obtain ⟨chars, htext, hcodes⟩ := exists_utf8Text units
  rw [htext, utf8Codes_utf8Text, hcodes]

theorem utf8WriteAt_eq (offset v : Nat) :
    utf8WriteAt dst offset v =
      ((utf8Write v).length, dst.map (copyTo offset (utf8Write v))) := by
  refine Prod.ext ?_ rfl
  change (if v < 128 then 1 else _) = _
  rw [utf8Write]
  split
  · rfl
  split
  · rfl
  split <;> rfl

theorem unit_of_bytes (u : UInt16) :
    (UInt8.ofNat (u.toNat >>> 8)).toNat <<< 8 ||| (UInt8.ofNat u.toNat).toNat = u.toNat := by
  have hu : u.toNat < 65536 := u.toNat_lt
  rw [UInt8.toNat_ofNat', UInt8.toNat_ofNat', ← Nat.shiftLeft_add_eq_or_of_lt (by omega),
    Nat.shiftLeft_eq, Nat.shiftRight_eq_div_pow]
  omega

theorem ucs2ToUtf8From_eq (result : Nat) :
    ucs2ToUtf8From (ucs2Bytes units) result dst =
      (result + (unitsText units).length, dst.map (copyTo result (unitsText units))) := by
  induction units generalizing result dst with
  | nil =>
    rw [ucs2Bytes_nil, unitsText_nil, funext (copyTo_nil result), Option.map_id']
    rfl
  | cons u units ih =>
    change ucs2ToUtf8From (_ :: _ :: ucs2Bytes units) result dst = _
    rw [ucs2ToUtf8From, unit_of_bytes, utf8WriteAt_eq]
    simp only
    rw [ih, unitsText_cons, List.length_append, Nat.add_assoc, Option.map_map]
    congr 2
    funext bytes
    exact copyTo_copyTo ..

theorem ucs2ToUtf8_eq {m : Type → Type} [Monad m] [LawfulMonad m] {peek : Nat → m UInt8}
    {ucs2 : Nat} (h : ∀ i b, (ucs2Bytes units)[i]? = some b → peek (ucs2 + i) = pure b) :
    ucs2ToUtf8 peek ucs2 units.length = pure (unitsText units) := by
  induction units generalizing ucs2 with
  | nil => rfl
  | cons u units ih =>
    have hhigh := h 0 _ rfl
    have hlow := h 1 _ rfl
    have hrest : ucs2ToUtf8 peek (ucs2 + 2) units.length = pure (unitsText units) := by
      refine ih fun i b hb => ?_
      rw [Nat.add_assoc, Nat.add_comm 2]
      exact h (i + 2) b hb
    rw [Nat.add_zero] at hhigh
    rw [List.length_cons, ucs2ToUtf8, hhigh, pure_bind, hlow, pure_bind, hrest, pure_bind,
      unit_of_bytes, unitsText_cons]

theorem utf8ToUcs2From_eq (fuel : Nat) (utf8 : List UInt8) (result : Nat) :
    utf8ToUcs2From fuel utf8 result dst =
      ((result + 2 * (utf8CodesFrom fuel utf8).length) / 2,
        dst.map (copyTo result ((utf8CodesFrom fuel utf8).flatMap ucs2Write))) := by
  induction fuel generalizing utf8 result dst with
  | zero =>
    rw [utf8CodesFrom, List.flatMap_nil, funext (copyTo_nil result), Option.map_id']
    rfl
  | succ fuel ih =>
    rw [utf8ToUcs2From, utf8CodesFrom]
    cases utf8Next utf8 with
    | none =>
      simp only
      rw [List.flatMap_nil, funext (copyTo_nil result), Option.map_id']
      rfl
    | some next =>
      simp only
      rw [ih, List.flatMap_cons, List.length_cons]
      refine Prod.ext ?_ ?_
      · change (result + 2 + _) / 2 = _ / 2
        congr 1
        omega
      · change Option.map _ (Option.map _ dst) = _
        rw [Option.map_map]
        congr 1
        funext bytes
        exact copyTo_copyTo result bytes (ucs2Write _) _

theorem utf8ToUcs2Into_eq (utf8 : List UInt8) :
    utf8ToUcs2Into utf8 dst = (utf8ToUcs2Count utf8, dst.map (copyTo 0 (utf8ToUcs2 utf8))) := by
  rw [utf8ToUcs2Into, utf8ToUcs2From_eq, utf8ToUcs2Count, length_utf8ToUcs2, utf8ToUcs2]
  congr 2
  rw [Nat.zero_add, Nat.mul_comm]
  rfl

theorem ucs2Write_ofNat (v : Nat) : ucs2Write (UInt16.ofNat v).toNat = ucs2Write v := by
  have hhigh : UInt8.ofNat ((UInt16.ofNat v).toNat >>> 8) = UInt8.ofNat (v >>> 8) := by
    apply UInt8.toNat_inj.mp
    rw [UInt8.toNat_ofNat', UInt8.toNat_ofNat', UInt16.toNat_ofNat', Nat.shiftRight_eq_div_pow,
      Nat.shiftRight_eq_div_pow]
    omega
  have hlow : UInt8.ofNat (UInt16.ofNat v).toNat = UInt8.ofNat v := by
    apply UInt8.toNat_inj.mp
    rw [UInt8.toNat_ofNat', UInt8.toNat_ofNat', UInt16.toNat_ofNat']
    omega
  rw [ucs2Write, hhigh, hlow, ucs2Write]

theorem utf8ToUcs2_utf8Text : utf8ToUcs2 (utf8Text chars) = ucs2Bytes (chars.map Utf8Char.unit) := by
  rw [utf8ToUcs2, utf8Codes_utf8Text, ucs2Bytes, List.flatMap_map, List.flatMap_map]
  congr 1
  funext c
  exact (ucs2Write_ofNat c.code).symm

theorem utf8ToUcs2_unitsText : utf8ToUcs2 (unitsText units) = ucs2Bytes units := by
  rw [utf8ToUcs2, utf8Codes_unitsText, List.flatMap_map, ucs2Bytes]

/-- Units are written as `text`, and read back from it, with a buffer and without. -/
structure Converts (text : List UInt8) : Prop where
  written : ∀ buf, ucs2ToUtf8Into (ucs2Bytes units) buf = (text.length, buf.map (copyTo 0 text))
  accepted : utf8Check (some text) = true
  readBack : ∀ ucs2, utf8ToUcs2Into text ucs2 =
    (units.length, ucs2.map (copyTo 0 (ucs2Bytes units)))

/-- Units come back from their UTF-8 form, and each character of an accepted text is one unit. -/
theorem ucs2_converts :
    (∀ units, ∃ text, Converts units text) ∧
    (∀ text, utf8Check (some text) = true ↔ ∃ chars, text = utf8Text chars) ∧
    ∀ chars ucs2, utf8ToUcs2Into (utf8Text chars) ucs2 =
      (chars.length, ucs2.map (copyTo 0 (ucs2Bytes (chars.map Utf8Char.unit)))) := by
  refine ⟨fun units => ⟨unitsText units, ?_, ?_, fun ucs2 => ?_⟩, utf8Check_iff,
    fun chars ucs2 => ?_⟩
  · intro buf
    rw [ucs2ToUtf8Into, ucs2ToUtf8From_eq, Nat.zero_add]
  · obtain ⟨chars, htext, -⟩ := exists_utf8Text units
    exact (utf8Check_iff _).mpr ⟨chars, htext⟩
  · rw [utf8ToUcs2Into_eq, utf8ToUcs2Count_eq, utf8Codes_unitsText, List.length_map,
      utf8ToUcs2_unitsText]
  · rw [utf8ToUcs2Into_eq, utf8ToUcs2Count_eq, utf8Codes_utf8Text, List.length_map,
      utf8ToUcs2_utf8Text]

end Conversion

end M2M.Telephony.Gsm
