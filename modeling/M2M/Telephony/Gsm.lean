import Mathlib

/-! `gsm.c`: UTF-8 strings read a character at a time, the GSM alphabet, and septets packed into
bytes.  The string between two pointers is the list of its bytes. -/

namespace M2M.Telephony.Gsm

/-- The bytes that `utf8_next` takes after the first. -/
def utf8Tail (c : Nat) : List UInt8 → Nat × List UInt8
  | [] => (c, [])
  | b :: p =>
    if b &&& 0xc0 = 0x80 then utf8Tail (c <<< 6 ||| (b &&& 0x3f).toNat) p else (c, b :: p)

/-- `utf8_next`, with the bytes left.  At the end of the string there is no character. -/
def utf8Next : List UInt8 → Option (Nat × List UInt8)
  | [] => none
  | b :: p =>
    if 128 ≤ b.toNat then
      some (utf8Tail
        (if b &&& 0xe0 = 0xc0 then (b &&& 0x1f).toNat
          else if b &&& 0xf0 = 0xe0 then (b &&& 0x0f).toNat
          else (b &&& 0x07).toNat) p)
    else some (b.toNat, p)

def utf8CodesFrom : Nat → List UInt8 → List Nat
  | 0, _ => []
  | fuel + 1, utf8 =>
    match utf8Next utf8 with
    | none => []
    | some (c, p) => c :: utf8CodesFrom fuel p

/-- The characters that the loops `while (utf8 < utf8end) c = utf8_next(&utf8, utf8end)` see.
Each takes a byte at least. -/
def utf8Codes (utf8 : List UInt8) : List Nat := utf8CodesFrom utf8.length utf8

def utf8Write (v : Nat) : List UInt8 :=
  if v < 128 then [UInt8.ofNat v]
  else if v < 0x800 then [UInt8.ofNat (0xc0 ||| v >>> 6), UInt8.ofNat (0x80 ||| v &&& 0x3f)]
  else if v < 0x10000 then
    [UInt8.ofNat (0xe0 ||| v >>> 12), UInt8.ofNat (0x80 ||| v >>> 6 &&& 0x3f),
      UInt8.ofNat (0x80 ||| v &&& 0x3f)]
  else
    [UInt8.ofNat (0xf0 ||| v >>> 18 &&& 0x7), UInt8.ofNat (0x80 ||| v >>> 12 &&& 0x3f),
      UInt8.ofNat (0x80 ||| v >>> 6 &&& 0x3f), UInt8.ofNat (0x80 ||| v &&& 0x3f)]

def ucs2Write (v : Nat) : List UInt8 := [UInt8.ofNat (v >>> 8), UInt8.ofNat v]

/-- What `utf8_to_ucs2` writes. -/
def utf8ToUcs2 (utf8 : List UInt8) : List UInt8 := (utf8Codes utf8).flatMap ucs2Write

/-- What `utf8_to_ucs2` returns. -/
def utf8ToUcs2Count (utf8 : List UInt8) : Nat := (utf8ToUcs2 utf8).length / 2

theorem length_utf8ToUcs2 (utf8 : List UInt8) :
    (utf8ToUcs2 utf8).length = (utf8Codes utf8).length * 2 := by
  rw [utf8ToUcs2]
  induction utf8Codes utf8 with
  | nil => rfl
  | cons c codes ih =>
    rw [List.flatMap_cons, List.length_append, ih, List.length_cons]
    change 2 + _ = _
    omega

theorem utf8ToUcs2Count_eq (utf8 : List UInt8) :
    utf8ToUcs2Count utf8 = (utf8Codes utf8).length := by
  rw [utf8ToUcs2Count, length_utf8ToUcs2, Nat.mul_div_cancel _ (by decide)]

def gsm7bitsEscape : Nat := 0x1b

def gsm7bitsToUnicode : List Nat :=
  [0x40, 0xa3, 0x24, 0xa5, 0xe8, 0xe9, 0xf9, 0xec, 0xf2, 0xc7, 0x0a, 0xd8, 0xf8, 0x0d, 0xc5, 0xe5,
    0x394, 0x5f, 0x3a6, 0x393, 0x39b, 0x3a9, 0x3a0, 0x3a8, 0x3a3, 0x398, 0x39e, 0, 0xc6, 0xe6,
    0xdf, 0xc9,
    0x20, 0x21, 0x22, 0x23, 0xa4, 0x25, 0x26, 0x27, 0x28, 0x29, 0x2a, 0x2b, 0x2c, 0x2d, 0x2e, 0x2f,
    0x30, 0x31, 0x32, 0x33, 0x34, 0x35, 0x36, 0x37, 0x38, 0x39, 0x3a, 0x3b, 0x3c, 0x3d, 0x3e, 0x3f,
    0xa1, 0x41, 0x42, 0x43, 0x44, 0x45, 0x46, 0x47, 0x48, 0x49, 0x4a, 0x4b, 0x4c, 0x4d, 0x4e, 0x4f,
    0x50, 0x51, 0x52, 0x53, 0x54, 0x55, 0x56, 0x57, 0x58, 0x59, 0x5a, 0xc4, 0xd6, 0x147, 0xdc,
    0xa7,
    0xbf, 0x61, 0x62, 0x63, 0x64, 0x65, 0x66, 0x67, 0x68, 0x69, 0x6a, 0x6b, 0x6c, 0x6d, 0x6e, 0x6f,
    0x70, 0x71, 0x72, 0x73, 0x74, 0x75, 0x76, 0x77, 0x78, 0x79, 0x7a, 0xe4, 0xf6, 0xf1, 0xfc, 0xe0]

def gsm7bitsExtendToUnicode : List Nat :=
  [0, 0, 0, 0, 0, 0, 0, 0, 0, 0, 0x0c, 0, 0, 0, 0, 0,
    0, 0, 0, 0, 0x5e, 0, 0, 0, 0, 0, 0, 0, 0, 0, 0, 0,
    0, 0, 0, 0, 0, 0, 0, 0, 0x7b, 0x7d, 0, 0, 0, 0, 0, 0x5c,
    0, 0, 0, 0, 0, 0, 0, 0, 0, 0, 0, 0, 0x5b, 0x7e, 0x5d, 0,
    0x7c, 0, 0, 0, 0, 0, 0, 0, 0, 0, 0, 0, 0, 0, 0, 0,
    0, 0, 0, 0, 0, 0, 0, 0, 0, 0, 0, 0, 0, 0, 0, 0,
    0, 0, 0, 0, 0, 0x20ac, 0, 0, 0, 0, 0, 0, 0, 0, 0, 0,
    0, 0, 0, 0, 0, 0, 0, 0, 0, 0, 0, 0, 0, 0, 0, 0]

def unicharToGsm7 (unicode : Nat) : Option Nat := gsm7bitsToUnicode.idxOf? unicode

def unicharToGsm7Extend (unichar : Nat) : Option Nat := gsm7bitsExtendToUnicode.idxOf? unichar

def unicharToGsm7Count (unicode : Nat) : Nat :=
  if (unicharToGsm7 unicode).isSome then 1
  else if (unicharToGsm7Extend unicode).isSome then 2
  else 0

/-- The septets written for a character: unknown ones are replaced by spaces. -/
def septets (c : Nat) : Nat := if unicharToGsm7Count c = 0 then 1 else unicharToGsm7Count c

def skipGsm7From : Nat → List UInt8 → Nat → List UInt8
  | 0, p, _ => p
  | fuel + 1, p, gsm7len =>
    if gsm7len = 0 then p
    else
      match utf8Next p with
      | none => p
      | some (c, q) =>
        if gsm7len < septets c then p else skipGsm7From fuel q (gsm7len - septets c)

/-- `utf8_skip_gsm7`, with the bytes left.  Each character takes a septet at least. -/
def utf8SkipGsm7 (utf8 : List UInt8) (gsm7len : Nat) : List UInt8 :=
  skipGsm7From gsm7len utf8 gsm7len

def utf8CheckGsm7 (utf8 : List UInt8) : Bool :=
  (utf8Codes utf8).all fun c => unicharToGsm7Count c ≠ 0

def utf8ToGsm7Count (utf8 : List UInt8) : Nat := ((utf8Codes utf8).map septets).sum

/-- `BWriterRec`, with the buffer it writes to; `dst` is an offset into it. -/
structure BWriter where
  buf : Nat → UInt8
  dst : Nat
  pad : Nat
  bits : Nat
  offset : Nat

def bwriterInit (buf : Nat → UInt8) (start : Nat) : BWriter where
  buf := buf
  dst := start >>> 3
  pad := if start % 8 > 0 then (buf (start >>> 3)).toNat % 2 ^ (start % 8) else 0
  bits := start % 8
  offset := start

namespace BWriter

variable (writer : BWriter)

/-- `dst[0] = pad; dst += 1`. -/
def put : BWriter :=
  { writer with
    buf := Function.update writer.buf writer.dst (UInt8.ofNat writer.pad)
    dst := writer.dst + 1 }

/-- `bwriter_add7`. -/
def add7 (value : Nat) : BWriter :=
  let added :=
    { writer with
      pad := writer.pad ||| value <<< writer.bits
      bits := writer.bits + 7
      offset := writer.offset + 7 }
  if added.bits ≥ 8 then { added.put with bits := added.bits - 8, pad := added.pad >>> 8 }
  else added

/-- `bwriter_done`, without the offset it returns. -/
def done : BWriter := if writer.bits > 0 then { writer.put with pad := 0, bits := 0 } else writer

/-- The body of the loop of `utf8_to_gsm7`. -/
def addChar (c : Nat) : BWriter :=
  match unicharToGsm7 c, unicharToGsm7Extend c with
  | some nn, _ => writer.add7 nn
  | none, some nn => (writer.add7 gsm7bitsEscape).add7 nn
  | none, none => writer.add7 0x20

end BWriter

/-- `utf8_to_gsm7` into a buffer, as the writer it leaves. -/
def utf8ToGsm7 (utf8 : List UInt8) (dst : Nat → UInt8) (offset : Nat) : BWriter :=
  ((utf8Codes utf8).foldl BWriter.addChar (bwriterInit dst offset)).done

section Readers

/-! What reads a PDU reads its bytes through `peek`, which knows what is in front of it. -/

variable {m : Type → Type} [Monad m] (peek : Nat → m UInt8)

/-- The septet at bit `shift` of the byte at `src`. -/
def septetAt (src shift : Nat) : m Nat := do
  let c := (← peek src).toNat >>> shift &&& 0x7f
  if shift > 1 then return ((← peek (src + 1)).toNat <<< (8 - shift) ||| c) &&& 0x7f
  else return c

/-- The loop of `utf8_from_gsm7`. -/
def fromGsm7 : Nat → Nat → Nat → Bool → m (List UInt8)
  | 0, _, _, _ => return []
  | septetCount + 1, src, shift, escaped => do
    let c ← septetAt peek src shift
    let src' := if shift + 7 ≥ 8 then src + 1 else src
    let shift' := if shift + 7 ≥ 8 then shift + 7 - 8 else shift + 7
    -- once set, `escaped` stays
    if escaped then
      return utf8Write (gsm7bitsExtendToUnicode.getD c 0) ++
        (← fromGsm7 septetCount src' shift' true)
    else if c = gsm7bitsEscape then fromGsm7 septetCount src' shift' true
    else
      return utf8Write (gsm7bitsToUnicode.getD c 0) ++ (← fromGsm7 septetCount src' shift' false)

/-- What `utf8_from_gsm7` writes. -/
def utf8FromGsm7 (src septetOffset septetCount : Nat) : m (List UInt8) :=
  fromGsm7 peek septetCount (src + septetOffset >>> 3) (septetOffset % 8) false

/-- What `ucs2_to_utf8` writes. -/
def ucs2ToUtf8 (ucs2 : Nat) : Nat → m (List UInt8)
  | 0 => return []
  | ucs2len + 1 => do
    let c := (← peek ucs2).toNat <<< 8 ||| (← peek (ucs2 + 1)).toNat
    return utf8Write c ++ (← ucs2ToUtf8 (ucs2 + 2) ucs2len)

end Readers

end M2M.Telephony.Gsm
