import Mathlib.Data.List.Basic

/-! Readers of a stream that comes in chunks.  A reader that takes a chunk as it would take its
items one by one reads any cut of the stream alike. -/

universe u v

namespace M2M.Lib

variable {σ : Type u} {α : Type v}

section Rounds

/-- A loop on what is left of a chunk, with a bound on its rounds. -/
def rounds (round : σ → List α → Option (σ × List α)) : Nat → σ → List α → Option σ
  | _, s, [] => some s
  | 0, _, _ :: _ => none
  | n + 1, s, a :: as => (round s (a :: as)).bind fun (s, rest) => rounds round n s rest

def readAll (round : σ → List α → Option (σ × List α)) (s : σ) (as : List α) : Option σ :=
  rounds round as.length s as

variable {round : σ → List α → Option (σ × List α)} {step : σ → α → Option σ} {inv : σ → Prop}
  {s : σ}

@[simp] theorem rounds_nil (n : Nat) : rounds round n s [] = some s := by
  cases n <;> rfl

/-- A round reads some first items of the rest, as the steps on these items. -/
def RoundReads (round : σ → List α → Option (σ × List α)) (step : σ → α → Option σ)
    (s : σ) (as : List α) : Prop :=
  ∃ front rest, front ≠ [] ∧ as = front ++ rest ∧
    round s as = (front.foldlM step s).map fun s' => (s', rest)

theorem readAll_of_round {as : List α} {r : Option σ} (has : as ≠ [])
    (h : round s as = r.map fun s' => (s', [])) : readAll round s as = r := by
  cases as with
  | nil => exact absurd rfl has
  | cons a as =>
    rw [readAll, List.length_cons, rounds, h]
    cases r with
    | none => rfl
    | some s' => exact rounds_nil _

theorem rounds_congr
    (hshort : ∀ s as s' rest, as ≠ [] → round s as = some (s', rest) → rest.length < as.length)
    {n m : Nat} {as : List α} (hn : as.length ≤ n) (hm : as.length ≤ m) (s : σ) :
    rounds round n s as = rounds round m s as := by
  induction n generalizing m s as with
  | zero =>
    rw [List.length_eq_zero_iff.mp (Nat.le_zero.mp hn), rounds_nil, rounds_nil]
  | succ n ih =>
    cases as with
    | nil => rw [rounds_nil, rounds_nil]
    | cons a as =>
      obtain ⟨m, rfl⟩ : ∃ k, m = k + 1 := Nat.exists_eq_succ_of_ne_zero (by simp at hm; omega)
      rw [rounds, rounds]
      cases hround : round s (a :: as) with
      | none => rfl
      | some r =>
        have hlt : r.2.length < (a :: as).length := hshort s _ r.1 r.2 (by simp) hround
        exact ih (by omega) (by omega) r.1

theorem readAll_cons
    (hshort : ∀ s as s' rest, as ≠ [] → round s as = some (s', rest) → rest.length < as.length)
    (s : σ) (a : α) (as : List α) :
    readAll round s (a :: as) =
      (round s (a :: as)).bind fun r => readAll round r.1 r.2 := by
  rw [readAll, List.length_cons, rounds]
  cases hround : round s (a :: as) with
  | none => rfl
  | some r =>
    have hlt : r.2.length < (a :: as).length := hshort s _ r.1 r.2 (by simp) hround
    exact rounds_congr hshort (Nat.le_of_lt_succ hlt) (Nat.le_refl _) r.1

theorem readAll_rel (hround : ∀ s as s' rest, inv s → round s as = some (s', rest) → inv s')
    (hs : inv s) {as : List α} {s' : σ} (h : readAll round s as = some s') : inv s' := by
  rw [readAll] at h
  generalize as.length = n at h
  induction n generalizing s as with
  | zero =>
    cases as with
    | nil =>
      cases h
      exact hs
    | cons a as => cases h
  | succ n ih =>
    cases as with
    | nil =>
      cases h
      exact hs
    | cons a as =>
      obtain ⟨⟨s₁, rest⟩, hread, hrest⟩ := Option.bind_eq_some_iff.mp h
      exact ih (hround s _ s₁ rest hs hread) hrest

theorem invariant_foldlM (hinv : ∀ s a s', inv s → step s a = some s' → inv s') (hs : inv s)
    {as : List α} {s' : σ} (h : as.foldlM step s = some s') : inv s' := by
  induction as generalizing s with
  | nil =>
    cases h
    exact hs
  | cons a as ih =>
    rw [List.foldlM_cons] at h
    obtain ⟨s₁, hstep, hrest⟩ := Option.bind_eq_some_iff.mp h
    exact ih (hinv s a s₁ hs hstep) hrest

theorem foldlM_concat_of {as : List α} {s' : σ} (h : as.foldlM step s = some s') (a : α) :
    (as ++ [a]).foldlM step s = step s' a := by
  rw [List.foldlM_append, h]
  exact bind_pure (step s' a)

theorem readAll_eq (hround : ∀ s as, inv s → as ≠ [] → RoundReads round step s as)
    (hinv : ∀ s a s', inv s → step s a = some s' → inv s') (hs : inv s) (as : List α) :
    readAll round s as = as.foldlM step s := by
  have hrounds : ∀ n s as, as.length ≤ n → inv s → rounds round n s as = as.foldlM step s := by
    intro n
    induction n with
    | zero =>
      intro s as hlen _
      rw [List.length_eq_zero_iff.mp (Nat.le_zero.mp hlen)]
      rfl
    | succ n ih =>
      intro s as hlen hs
      cases as with
      | nil => rfl
      | cons a as =>
        obtain ⟨front, rest, hfront, happend, hround⟩ := hround s (a :: as) hs (by simp)
        have hshort : rest.length ≤ n := by
          have hpos := List.length_pos_iff.mpr hfront
          rw [happend, List.length_append] at hlen
          omega
        rw [rounds, hround, happend, List.foldlM_append]
        cases hread : front.foldlM step s with
        | none => rfl
        | some s' => exact ih s' rest hshort (invariant_foldlM hinv hs hread)
  exact hrounds as.length s as (Nat.le_refl _) hs

end Rounds

section Endless

variable {round : σ → List α → Option (σ × List α)} {ok : σ → Prop} {s s' : σ}
  {as rest : List α}

/-- What the loop comes to in some rounds, if it makes so many. -/
def after (round : σ → List α → Option (σ × List α)) : Nat → σ → List α → Option (σ × List α)
  | 0, s, as => some (s, as)
  | _ + 1, _, [] => none
  | n + 1, s, a :: as => (round s (a :: as)).bind fun r => after round n r.1 r.2

/-- The loop makes finitely many rounds. -/
def Ends (round : σ → List α → Option (σ × List α)) (s : σ) (as : List α) : Prop :=
  ∃ n, after round n s as = none

/-- Each round of the loop finds a good state. -/
def Finds (round : σ → List α → Option (σ × List α)) (ok : σ → Prop) (s : σ) (as : List α) : Prop :=
  ∀ n s' rest, rest ≠ [] → after round n s as = some (s', rest) → ok s'

theorem after_succ (has : as ≠ []) (n : Nat) : after round (n + 1) s as =
    (round s as).bind fun r => after round n r.1 r.2 := by
  cases as with
  | nil => exact absurd rfl has
  | cons a as => rfl

theorem ends_nil : Ends round s [] := ⟨1, rfl⟩

theorem finds_nil : Finds round ok s [] := by
  intro n s' rest hrest h
  cases n with
  | zero =>
    cases h
    exact absurd rfl hrest
  | succ n => cases h

theorem ends_of_none (has : as ≠ []) (h : round s as = none) : Ends round s as := by
  refine ⟨1, ?_⟩
  rw [after_succ has, h]
  rfl

theorem finds_of_none (has : as ≠ []) (h : round s as = none) (hs : ok s) :
    Finds round ok s as := by
  intro n s' rest _ hafter
  cases n with
  | zero =>
    cases hafter
    exact hs
  | succ n =>
    rw [after_succ has, h] at hafter
    cases hafter

theorem ends_iff_of_some (has : as ≠ []) (h : round s as = some (s', rest)) :
    Ends round s as ↔ Ends round s' rest := by
  constructor
  · rintro ⟨n, hn⟩
    cases n with
    | zero => cases hn
    | succ n =>
      rw [after_succ has, h] at hn
      exact ⟨n, hn⟩
  · rintro ⟨n, hn⟩
    refine ⟨n + 1, ?_⟩
    rw [after_succ has, h]
    exact hn

theorem finds_iff_of_some (has : as ≠ []) (h : round s as = some (s', rest)) :
    Finds round ok s as ↔ ok s ∧ Finds round ok s' rest := by
  constructor
  · intro hfinds
    refine ⟨hfinds 0 s as has rfl, fun n t l hl hafter => hfinds (n + 1) t l hl ?_⟩
    rw [after_succ has, h]
    exact hafter
  · rintro ⟨hs, hfinds⟩ n t l hl hafter
    cases n with
    | zero =>
      cases hafter
      exact hs
    | succ n =>
      rw [after_succ has, h] at hafter
      exact hfinds n t l hl hafter

theorem not_ends_of_stuck (has : as ≠ []) (h : round s as = some (s, as)) : ¬Ends round s as := by
  rintro ⟨n, hn⟩
  induction n with
  | zero => cases hn
  | succ n ih =>
    rw [after_succ has, h] at hn
    exact ih hn

end Endless

section Chunks

variable {read : σ → List α → Option σ} {step : σ → α → Option σ} {inv : σ → Prop} {s : σ}

theorem foldlM_chunks (hread : ∀ s as, inv s → read s as = as.foldlM step s)
    (hinv : ∀ s a s', inv s → step s a = some s' → inv s') (hs : inv s)
    (chunks : List (List α)) : chunks.foldlM read s = chunks.flatten.foldlM step s := by
  induction chunks generalizing s with
  | nil => rfl
  | cons chunk chunks ih =>
    rw [List.foldlM_cons, List.flatten_cons, List.foldlM_append, hread s chunk hs]
    cases h : chunk.foldlM step s with
    | none => rfl
    | some s' => exact ih (invariant_foldlM hinv hs h)

end Chunks

section Related

variable {σ σ' τ τ' α : Type u} {R : σ → τ → Prop} {S : σ' → τ' → Prop}

theorem rel_of_eq_some {x : Option σ} {y : Option τ} {s : σ} {t : τ} (hx : x = some s)
    (hy : y = some t) (h : R s t) : Option.Rel R x y := by
  rw [hx, hy]
  exact .some h

theorem rel_bind {x : Option σ} {y : Option τ} (h : Option.Rel R x y) {f : σ → Option σ'}
    {g : τ → Option τ'} (hfg : ∀ s t, R s t → Option.Rel S (f s) (g t)) :
    Option.Rel S (x.bind f) (y.bind g) := by
  cases h with
  | none => exact .none
  | some h => exact hfg _ _ h

theorem rel_map {x : Option σ} {y : Option τ} (h : Option.Rel R x y) {f : σ → σ'} {g : τ → τ'}
    (hfg : ∀ s t, R s t → S (f s) (g t)) : Option.Rel S (x.map f) (y.map g) := by
  cases h with
  | none => exact .none
  | some h => exact .some (hfg _ _ h)

theorem rel_foldlM {step : σ → α → Option σ} {step' : τ → α → Option τ}
    (hstep : ∀ s t a, R s t → Option.Rel R (step s a) (step' t a)) {s : σ} {t : τ} (h : R s t)
    (as : List α) : Option.Rel R (as.foldlM step s) (as.foldlM step' t) := by
  induction as generalizing s t with
  | nil => exact .some h
  | cons a as ih =>
    rw [List.foldlM_cons, List.foldlM_cons]
    exact rel_bind (hstep s t a h) fun _ _ h => ih h

theorem rel_readAll {round : σ → List α → Option (σ × List α)}
    {round' : τ → List α → Option (τ × List α)}
    (hround : ∀ s t as, R s t →
      Option.Rel (fun p q => R p.1 q.1 ∧ p.2 = q.2) (round s as) (round' t as))
    {s : σ} {t : τ} (h : R s t) (as : List α) :
    Option.Rel R (readAll round s as) (readAll round' t as) := by
  rw [readAll, readAll]
  generalize as.length = n
  induction n generalizing s t as with
  | zero =>
    cases as with
    | nil => exact .some h
    | cons a as => exact .none
  | succ n ih =>
    cases as with
    | nil => exact .some h
    | cons a as =>
      refine rel_bind (hround s t (a :: as) h) ?_
      rintro ⟨s', rest⟩ ⟨t', rest'⟩ ⟨h', rfl⟩
      exact ih h' rest

end Related

end M2M.Lib
