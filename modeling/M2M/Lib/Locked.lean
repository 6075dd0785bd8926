import Mathlib.Logic.Function.Basic

namespace M2M.Lib.Locked

/-- The two threads that share a counter. -/
inductive Side
  | producer | consumer
  deriving DecidableEq

/-- Where a thread is in its update of the counter: `lock`, `load`, `store` with the value
that has been loaded, `unlock`. -/
inductive Update
  | idle
  | lock
  | load
  | store (value : Nat)
  | unlock
  deriving DecidableEq

namespace Update

/-- The thread is on its way to store a new value. -/
def pending : Update → Bool
  | lock | load | store _ => true
  | idle | unlock => false

def holds : Update → Bool
  | load | store _ | unlock => true
  | idle | lock => false

end Update

/-- A counter that two threads update under a mutex and read without it. -/
structure Counter where
  value : Nat
  mutex : Option Side
  update : Side → Update

namespace Counter

variable {c d : Counter} {s : Side} {f : Nat → Nat}

def zero : Counter := ⟨0, none, fun _ => .idle⟩

def setUpdate (c : Counter) (s : Side) (u : Update) : Counter :=
  { c with update := Function.update c.update s u }

def owed (c : Counter) (s : Side) : Nat := if (c.update s).pending then 1 else 0

def start (c : Counter) (s : Side) : Counter := c.setUpdate s .lock

/-- The next step of a side's update with `f`. -/
def step (s : Side) (f : Nat → Nat) (c : Counter) : Option Counter :=
  match c.update s with
  | .idle => none
  | .lock => if c.mutex = none then some ({ c with mutex := some s }.setUpdate s .load) else none
  | .load => some (c.setUpdate s (.store c.value))
  | .store v => some ({ c with value := f v }.setUpdate s .unlock)
  | .unlock => some ({ c with mutex := none }.setUpdate s .idle)

/-- The mutex belongs to the side that is inside, which has loaded the current value. -/
structure Exclusive (c : Counter) : Prop where
  owner : ∀ s, c.mutex = some s ↔ (c.update s).holds = true
  loaded : ∀ s v, c.update s = .store v → v = c.value

@[simp] theorem setUpdate_value (c : Counter) (s : Side) (u : Update) :
    (c.setUpdate s u).value = c.value := rfl

@[simp] theorem setUpdate_mutex (c : Counter) (s : Side) (u : Update) :
    (c.setUpdate s u).mutex = c.mutex := rfl

@[simp] theorem setUpdate_self (c : Counter) (s : Side) (u : Update) :
    (c.setUpdate s u).update s = u := Function.update_self ..

theorem setUpdate_ne (c : Counter) {s t : Side} (u : Update) (h : t ≠ s) :
    (c.setUpdate s u).update t = c.update t := Function.update_of_ne h ..

theorem Exclusive.setUpdate {u : Update}
    (hown : c.mutex = some s ↔ u.holds = true) (hload : ∀ v, u = .store v → v = c.value)
    (hother : ∀ t, t ≠ s → (c.mutex = some t ↔ (c.update t).holds = true) ∧
      ∀ v, c.update t = .store v → v = c.value) : Exclusive (c.setUpdate s u) := by
  constructor
  case owner =>
    intro t
    by_cases ht : t = s
    · subst ht
      simpa using hown
    · simpa [setUpdate_ne _ _ ht] using (hother t ht).1
  case loaded =>
    intro t v hv
    by_cases ht : t = s
    · subst ht
      exact hload v (by simpa using hv)
    · rw [setUpdate_ne _ _ ht] at hv
      exact (hother t ht).2 v hv

theorem Exclusive.zero : Exclusive zero where
  owner s := by simp [Counter.zero, Update.holds]
  loaded s v h := by simp [Counter.zero] at h

theorem Exclusive.start (h : Exclusive c) (hs : c.update s = .idle) : Exclusive (c.start s) := by
  refine .setUpdate ?_ nofun (fun t _ => ⟨h.owner t, h.loaded t⟩)
  simpa [hs, Update.holds] using h.owner s

theorem Exclusive.other (h : Exclusive c) (hs : (c.update s).holds = true) {t : Side}
    (ht : t ≠ s) : (c.update t).holds = false := by
  have hm := (h.owner s).mpr hs
  by_contra hh
  have := (h.owner t).mpr (by simpa using hh)
  rw [hm, Option.some.injEq] at this
  exact ht this.symm

theorem owed_idle (hs : c.update s = .idle) : c.owed s = 0 := by
  simp [owed, hs, Update.pending]

theorem owed_start_self (hs : c.update s = .idle) : (c.start s).owed s = c.owed s + 1 := by
  simp [owed, start, hs, Update.pending]

theorem owed_start_ne {t : Side} (ht : t ≠ s) : (c.start s).owed t = c.owed t := by
  simp [owed, start, setUpdate_ne c _ ht]

/-- What a step of an update does: nothing that counts, or the whole update at once. -/
structure Stepped (s : Side) (f : Nat → Nat) (c d : Counter) : Prop where
  exclusive : Exclusive d
  busy : c.update s ≠ .idle
  other : ∀ t, t ≠ s → d.update t = c.update t
  counted : d.value = c.value ∧ d.owed s = c.owed s ∨
    d.value = f c.value ∧ c.owed s = 1 ∧ d.owed s = 0

theorem step_spec (h : Exclusive c) (hd : step s f c = some d) : Stepped s f c d := by
  unfold step at hd
  cases hs : c.update s with
  | idle => simp [hs] at hd
  | lock =>
    simp only [hs] at hd
    split at hd
    · rename_i hm
      cases hd
      refine ⟨.setUpdate (by simp [Update.holds]) nofun ?_, by simp [hs],
        fun t ht => setUpdate_ne _ _ ht, .inl (by simp [owed, hs, Update.pending])⟩
      intro t ht
      refine ⟨?_, h.loaded t⟩
      have := h.owner t
      rw [hm] at this
      simpa [Ne.symm ht] using this
    · cases hd
  | load =>
    simp only [hs, Option.some.injEq] at hd
    subst hd
    refine ⟨.setUpdate ?_ ?_ (fun t _ => ⟨h.owner t, h.loaded t⟩), by simp [hs],
      fun t ht => setUpdate_ne _ _ ht, .inl (by simp [owed, hs, Update.pending])⟩
    · simpa [hs, Update.holds] using h.owner s
    · rintro v ⟨⟩
      rfl
  | store v =>
    have hin : (c.update s).holds = true := by simp [hs, Update.holds]
    simp only [hs, Option.some.injEq] at hd
    subst hd
    refine ⟨.setUpdate ?_ nofun ?_, by simp [hs], fun t ht => setUpdate_ne _ _ ht, .inr ?_⟩
    · simpa [hs, Update.holds] using h.owner s
    · intro t ht
      refine ⟨h.owner t, ?_⟩
      intro u hu
      have := h.other hin ht
      simp [show c.update t = .store u from hu, Update.holds] at this
    · simp [owed, hs, Update.pending, h.loaded s v hs]
  | unlock =>
    have hin : (c.update s).holds = true := by simp [hs, Update.holds]
    simp only [hs, Option.some.injEq] at hd
    subst hd
    refine ⟨.setUpdate (by simp [Update.holds]) nofun ?_, by simp [hs],
      fun t ht => setUpdate_ne _ _ ht, .inl (by simp [owed, hs, Update.pending])⟩
    intro t ht
    exact ⟨by simp [h.other hin ht], h.loaded t⟩

theorem Stepped.owed_other (h : Stepped s f c d) {t : Side} (ht : t ≠ s) :
    d.owed t = c.owed t := by
  rw [owed, owed, h.other t ht]

end Counter

end M2M.Lib.Locked
