import Mathlib.Data.Option.Basic

/-! Programs in which an access that must not happen is `none`, alone or with failure. -/

namespace M2M.Lib

variable {α β : Type} {P : α → Prop} {Q R : β → Prop}

/-- No access is made that must not happen, and the result is one of `Q`. -/
def Checked (x : Option β) (Q : β → Prop) : Prop := ∃ b, x = some b ∧ Q b

def CheckedT (x : OptionT Option β) (Q : β → Prop) : Prop := Checked x.run fun r => ∀ b ∈ r, Q b

theorem Checked.pure {b : β} (h : Q b) : Checked (Pure.pure b) Q := ⟨b, rfl, h⟩

theorem Checked.bind {x : Option α} {f : α → Option β} (hx : Checked x P)
    (hf : ∀ a, P a → Checked (f a) Q) : Checked (x >>= f) Q := by
  obtain ⟨a, rfl, ha⟩ := hx
  exact hf a ha

theorem Checked.ite {c : Prop} [Decidable c] {x y : Option β} (hx : c → Checked x Q)
    (hy : ¬c → Checked y Q) : Checked (if c then x else y) Q := by
  split
  · next h => exact hx h
  · next h => exact hy h

theorem Checked.mono {x : Option β} (hx : Checked x R) (h : ∀ b, R b → Q b) : Checked x Q := by
  obtain ⟨b, hb, hr⟩ := hx
  exact ⟨b, hb, h b hr⟩

theorem Checked.ne_none {x : Option β} (hx : Checked x Q) : x ≠ none := by
  obtain ⟨b, rfl, -⟩ := hx
  exact Option.some_ne_none b

namespace CheckedT

theorem pure {b : β} (h : Q b) : CheckedT (Pure.pure b) Q :=
  ⟨some b, rfl, fun _ hb => Option.some.inj hb ▸ h⟩

theorem failure : CheckedT (failure : OptionT Option β) Q := ⟨none, rfl, fun _ hb => nomatch hb⟩

theorem lift {x : Option β} (hx : Checked x Q) : CheckedT (monadLift x) Q := by
  obtain ⟨b, rfl, hb⟩ := hx
  exact ⟨some b, rfl, fun _ h => Option.some.inj h ▸ hb⟩

theorem bind {x : OptionT Option α} {f : α → OptionT Option β} (hx : CheckedT x P)
    (hf : ∀ a, P a → CheckedT (f a) Q) : CheckedT (x >>= f) Q := by
  obtain ⟨r, hr, hp⟩ := hx
  have hbind : (x >>= f).run = x.run.bind fun r => r.elim (some none) fun a => (f a).run := by
    change (x.run >>= _) = _
    cases x.run with
    | none => rfl
    | some r => cases r <;> rfl
  rw [CheckedT, hbind, hr]
  cases r with
  | none => exact ⟨none, rfl, fun _ hb => nomatch hb⟩
  | some a => exact hf a (hp a rfl)

theorem ite {c : Prop} [Decidable c] {x y : OptionT Option β} (hx : c → CheckedT x Q)
    (hy : ¬c → CheckedT y Q) : CheckedT (if c then x else y) Q := by
  split
  · next h => exact hx h
  · next h => exact hy h

theorem mono {x : OptionT Option β} (hx : CheckedT x R) (h : ∀ b, R b → Q b) : CheckedT x Q :=
  Checked.mono hx fun _ hr b hb => h b (hr b hb)

end CheckedT

end M2M.Lib
