import Mathlib.Data.Nat.Basic
import Mathlib.Data.Nat.Find
import Mathlib.Logic.Function.Basic

universe u

namespace M2M.Lib

variable {α : Type u} {n : Nat} {t : Nat → Option α} {stop : α → Bool} {h i fuel : Nat}

/-- Linear probing in a table of `n` slots: from slot `h` on, the first one that is empty or
holds an entry where the search stops.  `none` when there is no such among `fuel` slots. -/
def probe (n : Nat) (t : Nat → Option α) (stop : α → Bool) (h : Nat) : Nat → Option Nat
  | 0 => none
  | fuel + 1 =>
    match t h with
    | none => some h
    | some a => if stop a then some h else probe n t stop ((h + 1) % n) fuel

namespace Probing

/-- The search goes on at slot `i`. -/
def Passes (t : Nat → Option α) (stop : α → Bool) (i : Nat) : Prop :=
  ∃ a, t i = some a ∧ stop a = false

theorem step_of_passes (hp : Passes t stop h) :
    probe n t stop h (fuel + 1) = probe n t stop ((h + 1) % n) fuel := by
  obtain ⟨a, ha, hstop⟩ := hp
  simp [probe, ha, hstop]

theorem step_of_not_passes (hp : ¬Passes t stop h) : probe n t stop h (fuel + 1) = some h := by
  rw [probe]
  split
  · rfl
  · rename_i a ha
    split
    · rfl
    · rename_i hstop
      exact absurd ⟨a, ha, by simpa using hstop⟩ hp

theorem succ_slot (h d n : Nat) : ((h + 1) % n + d) % n = (h + (d + 1)) % n := by
  rw [Nat.mod_add_mod, Nat.add_assoc, Nat.add_comm 1 d]

theorem eq_some_of_first {d : Nat} (hh : h < n) (hd : d < fuel)
    (hpass : ∀ j < d, Passes t stop ((h + j) % n)) (hstop : ¬Passes t stop ((h + d) % n)) :
    probe n t stop h fuel = some ((h + d) % n) := by
  induction d generalizing h fuel with
  | zero =>
    obtain ⟨fuel, rfl⟩ := Nat.exists_eq_succ_of_ne_zero (Nat.ne_of_gt hd)
    rw [Nat.add_zero, Nat.mod_eq_of_lt hh] at hstop ⊢
    exact step_of_not_passes hstop
  | succ d ih =>
    obtain ⟨fuel, rfl⟩ := Nat.exists_eq_succ_of_ne_zero (Nat.ne_of_gt (Nat.zero_lt_of_lt hd))
    have hfirst : Passes t stop h := by
      simpa [Nat.mod_eq_of_lt hh] using hpass 0 (Nat.succ_pos d)
    rw [← succ_slot] at hstop ⊢
    rw [step_of_passes hfirst]
    refine ih (Nat.mod_lt _ (Nat.zero_lt_of_lt hh)) (Nat.lt_of_succ_lt_succ hd) (fun j hj => ?_)
      hstop
    rw [succ_slot]
    exact hpass (j + 1) (Nat.succ_lt_succ hj)

theorem exists_of_eq_some (hh : h < n) (hp : probe n t stop h fuel = some i) :
    ∃ d < fuel, i = (h + d) % n ∧ (∀ j < d, Passes t stop ((h + j) % n)) ∧ ¬Passes t stop i := by
  induction fuel generalizing h with
  | zero => cases hp
  | succ fuel ih =>
    by_cases hfirst : Passes t stop h
    · rw [step_of_passes hfirst] at hp
      obtain ⟨d, hd, hi, hpass, hstop⟩ := ih (Nat.mod_lt _ (Nat.zero_lt_of_lt hh)) hp
      refine ⟨d + 1, Nat.succ_lt_succ hd, by rw [hi, succ_slot], fun j hj => ?_, hstop⟩
      cases j with
      | zero => rwa [Nat.add_zero, Nat.mod_eq_of_lt hh]
      | succ j =>
        rw [← succ_slot]
        exact hpass j (Nat.lt_of_succ_lt_succ hj)
    · rw [step_of_not_passes hfirst, Option.some.injEq] at hp
      subst hp
      exact ⟨0, Nat.succ_pos fuel, by rw [Nat.add_zero, Nat.mod_eq_of_lt hh], by simp, hfirst⟩

/-- The number of steps from slot `h` to slot `i`. -/
def distance (n h i : Nat) : Nat := (i + n - h) % n

theorem distance_lt (hh : h < n) : distance n h i < n := Nat.mod_lt _ (Nat.zero_lt_of_lt hh)

theorem add_distance (hh : h < n) (hi : i < n) : (h + distance n h i) % n = i := by
  rw [distance, Nat.add_mod_mod, Nat.add_sub_cancel' (by omega), Nat.add_mod_right,
    Nat.mod_eq_of_lt hi]

theorem distance_add {d : Nat} (hh : h < n) (hd : d < n) : distance n h ((h + d) % n) = d := by
  rw [distance]
  rcases Nat.lt_or_ge (h + d) n with hlt | hge
  · rw [Nat.mod_eq_of_lt hlt, show h + d + n - h = d + n by omega, Nat.add_mod_right,
      Nat.mod_eq_of_lt hd]
  · rw [Nat.mod_eq_sub_mod hge, Nat.mod_eq_of_lt (show h + d - n < n by omega),
      show h + d - n + n - h = d by omega, Nat.mod_eq_of_lt hd]

theorem exists_eq_some (hh : h < n) (hi : i < n) (hstop : ¬Passes t stop i) :
    ∃ d < n, probe n t stop h n = some ((h + d) % n) ∧
      (∀ j < d, Passes t stop ((h + j) % n)) ∧ ¬Passes t stop ((h + d) % n) := by
  classical
  rw [← add_distance hh hi] at hstop
  have hd := distance_lt (i := i) hh
  have hex : ∃ d, ¬Passes t stop ((h + d) % n) := ⟨_, hstop⟩
  have hfirst : ∀ j < Nat.find hex, Passes t stop ((h + j) % n) :=
    fun j hj => not_not.1 (Nat.find_min hex hj)
  have hlt : Nat.find hex < n := Nat.lt_of_le_of_lt (Nat.find_min' hex hstop) hd
  exact ⟨Nat.find hex, hlt, eq_some_of_first hh hlt hfirst (Nat.find_spec hex), hfirst,
    Nat.find_spec hex⟩

theorem probe_congr {stop' : α → Bool} (hh : h < n)
    (hstop : ∀ i < n, ∀ a, t i = some a → stop a = stop' a) :
    probe n t stop h fuel = probe n t stop' h fuel := by
  induction fuel generalizing h with
  | zero => rfl
  | succ fuel ih =>
    rw [probe, probe]
    cases ha : t h with
    | none => rfl
    | some a =>
      dsimp only
      rw [hstop h hh a ha, ih (Nat.mod_lt _ (Nat.zero_lt_of_lt hh))]

theorem probe_eq_none (hh : h < n) (hpass : ∀ i < n, Passes t stop i) :
    probe n t stop h fuel = none := by
  induction fuel generalizing h with
  | zero => rfl
  | succ fuel ih =>
    rw [step_of_passes (hpass h hh)]
    exact ih (Nat.mod_lt _ (Nat.zero_lt_of_lt hh))

end Probing

end M2M.Lib
