import Mathlib.Algebra.Group.Basic
import Mathlib.Data.List.Basic

/-! Codes whose words are read from the front of a list, and differences of consecutive values. -/

universe u v w

namespace M2M.Lib.PrefixCode

variable {α : Type u} {β : Type v} {γ : Type w}

/-- A code whose words are read from in front of anything, as `value`. -/
structure Reads (encode : α → List β) (decode : List β → Option (γ × List β)) (value : α → γ) :
    Prop where
  nonempty : ∀ a, encode a ≠ []
  reads : ∀ a rest, decode (encode a ++ rest) = some (value a, rest)

/-- Reads words until the end, with a bound on their number. -/
def decodeWords (decode : List β → Option (γ × List β)) : Nat → List β → Option (List γ)
  | _, [] => some []
  | 0, _ :: _ => none
  | fuel + 1, b :: bs =>
    (decode (b :: bs)).bind fun read => (decodeWords decode fuel read.2).map (read.1 :: ·)

/-- A word has at least one symbol, so that there are no more words than symbols. -/
def decodeAll (decode : List β → Option (γ × List β)) (bs : List β) : Option (List γ) :=
  decodeWords decode bs.length bs

variable {encode : α → List β} {decode : List β → Option (γ × List β)} {value : α → γ}

namespace Reads

theorem decodeWords (h : Reads encode decode value) (as : List α) {fuel : Nat}
    (hfuel : as.length ≤ fuel) :
    PrefixCode.decodeWords decode fuel (as.flatMap encode) = some (as.map value) := by
  induction as generalizing fuel with
  | nil =>
    cases fuel with
    | zero => rfl
    | succ fuel => rfl
  | cons a as ih =>
    cases fuel with
    | zero => cases hfuel
    | succ fuel =>
      have hread := h.reads a (as.flatMap encode)
      obtain ⟨b, bs, hcons⟩ := List.exists_cons_of_ne_nil (h.nonempty a)
      rw [hcons, List.cons_append] at hread
      rw [List.flatMap_cons, hcons, List.cons_append, PrefixCode.decodeWords, hread,
        Option.bind_some, ih (Nat.le_of_succ_le_succ hfuel)]
      rfl

theorem length_le (h : Reads encode decode value) (as : List α) :
    as.length ≤ (as.flatMap encode).length := by
  induction as with
  | nil => exact Nat.le_refl 0
  | cons a as ih =>
    have hpos := List.length_pos_of_ne_nil (h.nonempty a)
    rw [List.flatMap_cons, List.length_append, List.length_cons]
    omega

theorem decodeAll (h : Reads encode decode value) (as : List α) :
    decodeAll decode (as.flatMap encode) = some (as.map value) :=
  h.decodeWords as (h.length_le as)

theorem value_eq_of_prefix (h : Reads encode decode value) {a b : α}
    (hfront : encode a <+: encode b) : value a = value b := by
  obtain ⟨rest, hrest⟩ := hfront
  have ha := h.reads a rest
  have hb := h.reads b []
  rw [List.append_nil, ← hrest, ha] at hb
  exact congrArg Prod.fst (Option.some.inj hb)

theorem map_encode_eq (h : Reads encode decode value) {as bs : List α}
    (heq : as.flatMap encode = bs.flatMap encode) : as.map encode = bs.map encode := by
  induction as generalizing bs with
  | nil =>
    cases bs with
    | nil => rfl
    | cons b bs => exact absurd (List.append_eq_nil_iff.mp heq.symm).1 (h.nonempty b)
  | cons a as ih =>
    cases bs with
    | nil => exact absurd (List.append_eq_nil_iff.mp heq).1 (h.nonempty a)
    | cons b bs =>
      rw [List.flatMap_cons, List.flatMap_cons] at heq
      have hread := h.reads a (as.flatMap encode)
      rw [heq, h.reads b] at hread
      have hrest := congrArg Prod.snd (Option.some.inj hread)
      dsimp only at hrest
      rw [hrest] at heq
      rw [List.map_cons, List.map_cons, List.append_cancel_right heq, ih hrest.symm]

theorem flatMap_injective (h : Reads encode decode value) (hinjective : encode.Injective) :
    (List.flatMap encode).Injective := by
  intro as bs heq
  exact List.map_injective_iff.mpr hinjective (h.map_encode_eq heq)

theorem decodeAll_eq_iff (h : Reads encode decode value) (target : α → γ) (as : List α) :
    PrefixCode.decodeAll decode (as.flatMap encode) = some (as.map target) ↔
      ∀ a ∈ as, value a = target a := by
  rw [h.decodeAll, Option.some_inj]
  exact List.map_inj_left

end Reads

end M2M.Lib.PrefixCode

namespace M2M.Lib.Deltas

variable {G : Type u} [AddGroup G]

/-- The differences between consecutive values, from `last` on. -/
def deltas (last : G) : List G → List G
  | [] => []
  | value :: values => (value - last) :: deltas value values

/-- The running sums, from `last` on. -/
def sums (last : G) : List G → List G
  | [] => []
  | delta :: ds => (delta + last) :: sums (delta + last) ds

@[simp] theorem sums_deltas (last : G) (values : List G) :
    sums last (deltas last values) = values := by
  induction values generalizing last with
  | nil => rfl
  | cons value values ih =>
    unfold deltas sums
    rw [sub_add_cancel, ih]

theorem deltas_append (last : G) (values more : List G) :
    deltas last (values ++ more) = deltas last values ++ deltas (values.getLastD last) more := by
  induction values generalizing last with
  | nil => rfl
  | cons value values ih =>
    rw [List.cons_append, deltas, ih, List.getLastD_cons]
    rfl

end M2M.Lib.Deltas
