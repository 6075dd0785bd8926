import M2M.Tracing.ProcTable
import Mathlib.Data.Finset.Card

/-! The hash table of processes: linear probing from the pid, and an exit that empties the slot
of the exiting process. -/

open M2M.Lib M2M.Lib.Probing

namespace M2M.Tracing

/-- What happens to the processes. -/
inductive ProcEvent
  | start (pid : Nat) (userC kernel : Option UInt32)
  | threadCreate (childPid : Nat)
  | exit
  | cs (nowPid : Nat)
  deriving DecidableEq

namespace SET

/-- A process is created and attached, and its execution is traced from `pid` on. -/
def startProcess (s : SET) (pid : Int) (userC kernel : Option UInt32) : SET :=
  (s.createProcess.attachProcess s.nextProcess).startTracing s.nextProcess pid userC kernel

/-- The state after an event, or `none` when a search does not end. -/
def event (s : SET) : ProcEvent → Option SET
  | .start pid userC kernel => (s.startProcess pid userC kernel).procInsert s.nextProcess
  | .threadCreate childPid => s.eventThreadCreate childPid
  | .exit => some s.eventExit
  | .cs nowPid => s.eventCs nowPid

def step (s : SET) (e : ProcEvent) : SET := (s.event e).getD s

/-- The pids of live processes are distinct, and there are fewer of them than slots. -/
def Admissible (s : SET) : ProcEvent → Prop
  | .start pid _ _ =>
    (∀ p ∈ s.live, (s.process p).pid ≠ pid) ∧ s.live.card + 1 < procHashTableSize
  | .threadCreate pid => s.tracingProcess.isSome →
    (∀ p ∈ s.live, (s.process p).pid ≠ pid) ∧ s.live.card + 1 < procHashTableSize
  | .exit => True
  | .cs _ => True

instance (s : SET) : ∀ e, Decidable (s.Admissible e)
  | .start _ _ _ => inferInstanceAs (Decidable (_ ∧ _))
  | .threadCreate _ => inferInstanceAs (Decidable (_ → _ ∧ _))
  | .exit => .isTrue trivial
  | .cs _ => .isTrue trivial

/-- `proc_find` gives the live process with the pid, or `NULL` when there is none. -/
structure FindsLive (s : SET) : Prop where
  found : ∀ p ∈ s.live, s.procFind (s.process p).pid = some (some p)
  absent : ∀ pid : Nat, (∀ p ∈ s.live, (s.process p).pid ≠ pid) → s.procFind pid = some none

/-- The exit empties the slot of the exiting process and no other. -/
def RemovesOwn (s : SET) : Prop :=
  ∀ p, s.tracingProcess = some p → ∀ hash, s.eventExit.procHashTable hash =
    if s.procHashTable hash = some p then none else s.procHashTable hash

/-- What is expected of an event: it ends, and the table is as it should be. -/
def Right (s : SET) (e : ProcEvent) : Prop :=
  (s.event e).isSome ∧ (s.step e).FindsLive ∧ (e = .exit → s.RemovesOwn)

/-- The slot of a live process. -/
def slot (s : SET) (p : Nat) : Nat := (s.process p).hashPos.getD 0

/-- The steps that a search for the pid of `p` takes to slot `i`. -/
def steps (s : SET) (p i : Nat) : Nat := distance procHashTableSize (home (s.process p).pid) i

/-- No other live process was placed behind the slot of the exiting one. -/
def NotPassed (s : SET) : ProcEvent → Prop
  | .exit => ∀ p ∈ s.tracingProcess, ∀ q ∈ s.live, q ≠ p →
    s.steps q (s.slot q) < s.steps q (s.slot p)
  | _ => True

instance (s : SET) : ∀ e, Decidable (s.NotPassed e)
  | .exit => inferInstanceAs (Decidable (∀ p ∈ s.tracingProcess, _))
  | .start _ _ _ => .isTrue trivial
  | .threadCreate _ => .isTrue trivial
  | .cs _ => .isTrue trivial

theorem home_lt (pid : Int) : home pid < procHashTableSize := Nat.mod_lt _ (by decide)

/-- Every live process has its slot, and a search for its pid finds no empty slot before it. -/
structure Hashed (s : SET) : Prop where
  entry : ∀ p ∈ s.live, (s.process p).hashPos = some (s.slot p) ∧ s.slot p < procHashTableSize ∧
    s.procHashTable (s.slot p) = some p
  path : ∀ p ∈ s.live, ∀ j < s.steps p (s.slot p),
    s.procHashTable ((home (s.process p).pid + j) % procHashTableSize) ≠ none
  own : ∀ hash p, s.procHashTable hash = some p → p ∈ s.live ∧ s.slot p = hash
  pid_nonneg : ∀ p ∈ s.live, 0 ≤ (s.process p).pid
  pid_inj : ∀ p ∈ s.live, ∀ q ∈ s.live, (s.process p).pid = (s.process q).pid → p = q
  card : s.live.card < procHashTableSize
  tracing : ∀ p ∈ s.tracingProcess, p ∈ s.live
  fresh : ∀ p ∈ s.live, p < s.nextProcess

theorem start_hashed : start.Hashed := by
  constructor <;> simp [start, procHashTableSize]

namespace Hashed

variable {s : SET} {p : Nat} (h : s.Hashed)

include h

theorem exists_empty : ∃ i < procHashTableSize, s.procHashTable i = none := by
  by_contra hfull
  push Not at hfull
  have hmaps : Set.MapsTo (fun i => (s.procHashTable i).getD 0)
      (Finset.range procHashTableSize) s.live := by
    intro i hi
    obtain ⟨p, hp⟩ := Option.ne_none_iff_exists'.1 (hfull i (Finset.mem_range.1 hi))
    simpa [hp] using (h.own i p hp).1
  have hinj : Set.InjOn (fun i => (s.procHashTable i).getD 0)
      (Finset.range procHashTableSize : Finset Nat) := by
    intro i hi j hj heq
    obtain ⟨p, hp⟩ := Option.ne_none_iff_exists'.1 (hfull i (Finset.mem_range.1 hi))
    obtain ⟨q, hq⟩ := Option.ne_none_iff_exists'.1 (hfull j (Finset.mem_range.1 hj))
    simp only [hp, hq, Option.getD_some] at heq
    rw [← (h.own i p hp).2, ← (h.own j q hq).2, heq]
  have hcard := Finset.card_le_card_of_injOn _ hmaps hinj
  rw [Finset.card_range] at hcard
  exact absurd h.card (Nat.not_lt.2 hcard)

theorem search (stop : Nat → Bool) (pid : Int) : ∃ d < procHashTableSize,
    probe procHashTableSize s.procHashTable stop (home pid) procHashTableSize =
      some ((home pid + d) % procHashTableSize) ∧
    (∀ j < d, Passes s.procHashTable stop ((home pid + j) % procHashTableSize)) ∧
      ¬Passes s.procHashTable stop ((home pid + d) % procHashTableSize) := by
  obtain ⟨i, hi, hempty⟩ := h.exists_empty
  refine exists_eq_some (home_lt pid) hi ?_
  rintro ⟨p, hp, -⟩
  simp [hempty] at hp

theorem procFind_live (hp : p ∈ s.live) : s.procFind (s.process p).pid = some (some p) := by
  obtain ⟨-, hlt, hentry⟩ := h.entry p hp
  have hslot := add_distance (home_lt (s.process p).pid) hlt
  have hfirst : probe procHashTableSize s.procHashTable (s.hasPid (s.process p).pid)
      (home (s.process p).pid) procHashTableSize =
        some ((home (s.process p).pid + s.steps p (s.slot p)) % procHashTableSize) :=
    eq_some_of_first (home_lt (s.process p).pid) (distance_lt (home_lt _)) (fun j hj => ?_) ?_
  · rw [procFind, hfirst, Option.map_some, steps, hslot, hentry]
  · obtain ⟨q, hq⟩ := Option.ne_none_iff_exists'.1 (h.path p hp j hj)
    refine ⟨q, hq, ?_⟩
    -- an earlier entry with this pid would be the process itself
    rw [hasPid, decide_eq_false_iff_not]
    intro hpid
    obtain ⟨hqlive, hqslot⟩ := h.own _ q hq
    obtain rfl := h.pid_inj q hqlive p hp hpid
    have hback := distance_add (home_lt (s.process q).pid) (hj.trans (distance_lt (home_lt _)))
    rw [← hqslot] at hback
    exact absurd hj (by rw [steps, hback]; exact Nat.lt_irrefl j)
  · rw [steps, hslot]
    rintro ⟨q, hq, hno⟩
    obtain rfl : p = q := Option.some.inj (hentry.symm.trans hq)
    simp [hasPid] at hno

theorem procFind_absent (pid : Int) (hno : ∀ p ∈ s.live, (s.process p).pid ≠ pid) :
    s.procFind pid = some none := by
  obtain ⟨d, -, hd, -, hstop⟩ := h.search (s.hasPid pid) pid
  rw [procFind, hd, Option.map_some]
  refine congrArg some (Option.eq_none_iff_forall_not_mem.2 fun p hp => hstop ⟨p, hp, ?_⟩)
  simpa [hasPid] using hno p (h.own _ p hp).1

theorem findsLive : s.FindsLive :=
  ⟨fun _ hp => h.procFind_live hp, fun pid => h.procFind_absent pid⟩

end Hashed

/-- A new process, which is not in the hash table yet, and nothing else. -/
structure Adds (s t : SET) (pid : Int) : Prop where
  procHashTable : t.procHashTable = s.procHashTable
  process : ∀ q, q ≠ s.nextProcess → t.process q = s.process q
  pid : (t.process s.nextProcess).pid = pid
  live : t.live = insert s.nextProcess s.live
  nextProcess : t.nextProcess = s.nextProcess + 1
  tracing : ∀ p ∈ t.tracingProcess, p = s.nextProcess ∨ p ∈ s.tracingProcess

theorem attachProcess_adds {s t : SET} {pid : Int} (h : Adds s t pid) :
    Adds s (t.attachProcess s.nextProcess) pid := by
  rw [attachProcess]
  split
  · exact h
  · refine ⟨h.procHashTable, fun q hq => ?_, ?_, h.live, h.nextProcess, h.tracing⟩
    · exact (Function.update_of_ne hq _ _).trans (h.process q hq)
    · simpa [modify] using h.pid

theorem threadOf_adds (s : SET) (p : Nat) (pid : Int) : Adds s (s.threadOf p pid) pid :=
  attachProcess_adds
    { procHashTable := rfl
      process := fun q hq => by
        simp [modify, copyProcess, addTracing, Function.update_of_ne hq]
      pid := by simp [modify]
      live := rfl
      nextProcess := rfl
      tracing := fun _ hp => Or.inr hp }

theorem createProcess_adds (s : SET) : Adds s s.createProcess (-1) where
  procHashTable := rfl
  process _ hq := Function.update_of_ne hq _ _
  pid := by simp [createProcess]
  live := rfl
  nextProcess := rfl
  tracing _ hp := Or.inr hp

theorem createObj_adds {s t : SET} {pid : Int} (h : Adds s t pid) (textStart : UInt32) :
    Adds s (t.createObj textStart) pid := ⟨h.1, h.2, h.3, h.4, h.5, h.6⟩

theorem modify_adds {s t : SET} {pid : Int} (h : Adds s t pid) (f : SETProcess → SETProcess) :
    Adds s (t.modify s.nextProcess f) (f (t.process s.nextProcess)).pid where
  procHashTable := h.procHashTable
  process q hq := (Function.update_of_ne hq _ _).trans (h.process q hq)
  pid := by simp [modify]
  live := h.live
  nextProcess := h.nextProcess
  tracing := h.tracing

theorem attachObj_adds {s t : SET} {pid : Int} (h : Adds s t pid) (o : Nat) :
    Adds s (t.attachObj s.nextProcess o) pid := by
  rw [attachObj]
  split
  · exact h
  · have hcount : Adds s (t.addCount o 1) pid := ⟨h.1, h.2, h.3, h.4, h.5, h.6⟩
    simpa [hcount.pid] using modify_adds hcount
      (fun x => { x with objTable := t.insertObj o x.objTable })

theorem loadUser_adds {s t : SET} {pid : Int} (h : Adds s t pid) :
    ∀ userC, Adds s (t.loadUser s.nextProcess userC) pid
  | none => h
  | some textStart => attachObj_adds (createObj_adds h textStart) _

theorem loadKernel_adds {s t : SET} {pid : Int} (h : Adds s t pid) :
    ∀ kernel, Adds s (t.loadKernel s.nextProcess kernel) pid
  | none => h
  | some textStart => by
    have hcount : Adds s ((t.createObj textStart).addCount t.nextObj 1) pid :=
      ⟨h.1, h.2, h.3, h.4, h.5, h.6⟩
    have hkernel := modify_adds hcount (fun x => { x with objKernel := some t.nextObj })
    simp only [hcount.pid] at hkernel
    exact hkernel

theorem startProcess_adds (s : SET) (pid : Int) (userC kernel : Option UInt32) :
    Adds s (s.startProcess pid userC kernel) pid := by
  have hloaded :=
    loadKernel_adds (loadUser_adds (attachProcess_adds (createProcess_adds s)) userC) kernel
  have hpid := modify_adds hloaded (fun x => { x with pid := pid })
  exact ⟨hpid.1, hpid.2, hpid.3, hpid.4, hpid.5, fun p hp => Or.inl (Option.some.inj hp).symm⟩

/-- The slot of `p` is emptied, `p` is no longer live, and no other process changes but in its
place in the table of processes. -/
structure Exits (s t : SET) (p : Nat) : Prop where
  procHashTable : t.procHashTable = Function.update s.procHashTable (s.slot p) none
  pid : ∀ q, (t.process q).pid = (s.process q).pid
  hashPos : ∀ q, (t.process q).hashPos = (s.process q).hashPos
  live : t.live = s.live.erase p
  nextProcess : t.nextProcess = s.nextProcess
  tracing : t.tracingProcess = none

theorem eventExit_exits {s : SET} {p : Nat} (hp : s.tracingProcess = some p)
    (hpos : (s.process p).hashPos = some (s.slot p)) : Exits s s.eventExit p := by
  have hevent : s.eventExit =
      (({ s with
          tracingProcess := none
          procHashTable := Function.update s.procHashTable (s.slot p) none } : SET).detachProcess
        p).deleteProcess p := by
    rw [eventExit, hp]
    simp only [clearSlot, hpos]
  have hmoved : ∀ (x : SETProcess) (q : Nat), (Function.update s.process p
      { s.process p with idx := x.idx } q).pid = (s.process q).pid ∧
      (Function.update s.process p { s.process p with idx := x.idx } q).hashPos =
        (s.process q).hashPos := by
    intro x q
    by_cases hq : q = p
    · subst hq
      simp
    · simp [Function.update_of_ne hq]
  rw [hevent]
  obtain ⟨hprocess, hnext, -, -, htracing, htable⟩ := deleteProcess_same
    (({ s with
        tracingProcess := none
        procHashTable := Function.update s.procHashTable (s.slot p) none } : SET).detachProcess
      p) p
  constructor
  · rw [htable, detachProcess]
    split
    · rfl
    · split <;> rfl
  · intro q
    rw [hprocess, detachProcess]
    split
    · rfl
    · split
      · rfl
      · exact (hmoved { s.process p with idx := -1 } q).1
  · intro q
    rw [hprocess, detachProcess]
    split
    · rfl
    · split
      · rfl
      · exact (hmoved { s.process p with idx := -1 } q).2
  · rw [deleteProcess_live, detachProcess]
    split
    · rfl
    · split <;> rfl
  · rw [hnext, detachProcess]
    split
    · rfl
    · split <;> rfl
  · rw [htracing, detachProcess]
    split
    · rfl
    · split <;> rfl

namespace Hashed

variable {s : SET} {p : Nat} (h : s.Hashed)

include h

theorem place {t : SET} {pid : Int} {d : Nat} (hadds : Adds s t pid) (hpid : 0 ≤ pid)
    (hnew : ∀ p ∈ s.live, (s.process p).pid ≠ pid) (hcard : s.live.card + 1 < procHashTableSize)
    (hd : d < procHashTableSize)
    (hpath : ∀ j < d, s.procHashTable ((home pid + j) % procHashTableSize) ≠ none)
    (hempty : s.procHashTable ((home pid + d) % procHashTableSize) = none) :
    (t.place s.nextProcess ((home pid + d) % procHashTableSize)).Hashed := by
  have hne : ∀ q ∈ s.live, q ≠ s.nextProcess := fun q hq => Nat.ne_of_lt (h.fresh q hq)
  have hlt : (home pid + d) % procHashTableSize < procHashTableSize := Nat.mod_lt _ (by decide)
  have hsteps := distance_add (home_lt pid) hd
  generalize (home pid + d) % procHashTableSize = i at *
  have hother : ∀ q ∈ s.live, (t.place s.nextProcess i).process q = s.process q := fun q hq =>
    (Function.update_of_ne (hne q hq) _ _).trans (hadds.process q (hne q hq))
  have hslot : ∀ q ∈ s.live, (t.place s.nextProcess i).slot q = s.slot q := fun q hq => by
    rw [slot, hother q hq, slot]
  have hnewpid : ((t.place s.nextProcess i).process s.nextProcess).pid = pid := by
    simp [SET.place, modify, hadds.pid]
  have hnewslot : (t.place s.nextProcess i).slot s.nextProcess = i := by
    simp [slot, SET.place, modify]
  have htable : (t.place s.nextProcess i).procHashTable =
      Function.update s.procHashTable i (some s.nextProcess) := by
    rw [← hadds.procHashTable]
    rfl
  have hlive : ∀ q, q ∈ (t.place s.nextProcess i).live ↔ q = s.nextProcess ∨ q ∈ s.live := by
    intro q
    rw [← Finset.mem_insert, ← hadds.live]
    rfl
  have hfree : ∀ q ∈ s.live, s.slot q ≠ i := by
    intro q hq heq
    have hentry := (h.entry q hq).2.2
    rw [heq, hempty] at hentry
    cases hentry
  have hkeep : ∀ j, s.procHashTable j ≠ none →
      Function.update s.procHashTable i (some s.nextProcess) j ≠ none := by
    intro j hj
    by_cases hji : j = i
    · rw [hji, Function.update_self]
      exact Option.some_ne_none _
    · rwa [Function.update_of_ne hji]
  constructor
  · intro q hq
    rcases (hlive q).1 hq with rfl | hq
    · rw [hnewslot, htable, Function.update_self]
      exact ⟨by simp [SET.place, modify], hlt, rfl⟩
    · rw [hother q hq, hslot q hq, htable, Function.update_of_ne (hfree q hq)]
      exact h.entry q hq
  · intro q hq j hj
    rw [htable]
    rcases (hlive q).1 hq with rfl | hq
    · rw [steps, hnewslot, hnewpid, hsteps] at hj
      rw [hnewpid]
      exact hkeep _ (hpath j hj)
    · rw [steps, hslot q hq, hother q hq] at hj
      rw [hother q hq]
      exact hkeep _ (h.path q hq j hj)
  · intro hash q hq
    rw [htable] at hq
    by_cases hhash : hash = i
    · rw [hhash, Function.update_self] at hq
      obtain rfl := Option.some.inj hq
      exact ⟨(hlive _).2 (Or.inl rfl), hnewslot.trans hhash.symm⟩
    · rw [Function.update_of_ne hhash] at hq
      obtain ⟨hqlive, hqslot⟩ := h.own hash q hq
      exact ⟨(hlive q).2 (Or.inr hqlive), (hslot q hqlive).trans hqslot⟩
  · intro q hq
    rcases (hlive q).1 hq with rfl | hq
    · rwa [hnewpid]
    · rw [hother q hq]
      exact h.pid_nonneg q hq
  · intro q hq r hr heq
    rcases (hlive q).1 hq with rfl | hq <;> rcases (hlive r).1 hr with rfl | hr
    · rfl
    · rw [hnewpid, hother r hr] at heq
      exact absurd heq.symm (hnew r hr)
    · rw [hnewpid, hother q hq] at heq
      exact absurd heq (hnew q hq)
    · rw [hother q hq, hother r hr] at heq
      exact h.pid_inj q hq r hr heq
  · have hlive' : (t.place s.nextProcess i).live = Insert.insert s.nextProcess s.live := hadds.live
    rw [hlive']
    exact Nat.lt_of_le_of_lt (Finset.card_insert_le _ _) hcard
  · intro q hq
    rcases hadds.tracing q hq with rfl | hq
    · exact (hlive _).2 (Or.inl rfl)
    · exact (hlive q).2 (Or.inr (h.tracing q hq))
  · intro q hq
    have hnext : (t.place s.nextProcess i).nextProcess = s.nextProcess + 1 := hadds.nextProcess
    rw [hnext]
    rcases (hlive q).1 hq with rfl | hq
    · exact Nat.lt_succ_self _
    · exact Nat.lt_succ_of_lt (h.fresh q hq)

theorem insert {t : SET} {pid : Int} (hadds : Adds s t pid) (hpid : 0 ≤ pid)
    (hnew : ∀ p ∈ s.live, (s.process p).pid ≠ pid) (hcard : s.live.card + 1 < procHashTableSize) :
    ∃ u, t.procInsert s.nextProcess = some u ∧ u.Hashed := by
  obtain ⟨d, hd, hprobe, hpass, hstop⟩ := h.search (t.hasPid pid) pid
  have hempty : s.procHashTable ((home pid + d) % procHashTableSize) = none := by
    refine Option.eq_none_iff_forall_not_mem.2 fun q hq => hstop ⟨q, hq, ?_⟩
    have hlive := (h.own _ q hq).1
    have hold := hadds.process q (Nat.ne_of_lt (h.fresh q hlive))
    simpa [hasPid, hold] using hnew q hlive
  have hpath : ∀ j < d, s.procHashTable ((home pid + j) % procHashTableSize) ≠ none := by
    intro j hj hnone
    obtain ⟨q, hq, -⟩ := hpass j hj
    rw [hnone] at hq
    cases hq
  refine ⟨_, ?_, h.place hadds hpid hnew hcard hd hpath hempty⟩
  rw [procInsert, hadds.pid, hadds.procHashTable, hprobe, Option.map_some]
  simp only [hempty]

theorem removesOwn : s.RemovesOwn := by
  intro p hp hash
  obtain ⟨hpos, -, hentry⟩ := h.entry p (h.tracing p hp)
  rw [(eventExit_exits hp hpos).procHashTable]
  by_cases hslot : hash = s.slot p
  · rw [hslot, Function.update_self, if_pos hentry]
  · rw [Function.update_of_ne hslot, if_neg fun hown => hslot (h.own hash p hown).2.symm]

theorem exits {t : SET} (ht : Exits s t p) (hp : p ∈ s.live)
    (hpass : ∀ q ∈ s.live, q ≠ p → s.steps q (s.slot q) < s.steps q (s.slot p)) : t.Hashed := by
  have hslot : ∀ q, t.slot q = s.slot q := fun q => by rw [slot, ht.hashPos, slot]
  have hsteps : ∀ q i, t.steps q i = s.steps q i := fun q i => by rw [steps, ht.pid, steps]
  have hlive : ∀ q, q ∈ t.live ↔ q ≠ p ∧ q ∈ s.live := fun q => by rw [ht.live, Finset.mem_erase]
  have hne : ∀ q ∈ s.live, q ≠ p → s.slot q ≠ s.slot p := by
    intro q hq hqp heq
    have hown := (h.entry q hq).2.2
    rw [heq, (h.entry p hp).2.2] at hown
    exact hqp (Option.some.inj hown).symm
  constructor
  · intro q hq
    obtain ⟨hqp, hq⟩ := (hlive q).1 hq
    rw [hslot, ht.hashPos, ht.procHashTable, Function.update_of_ne (hne q hq hqp)]
    exact h.entry q hq
  · intro q hq j hj
    obtain ⟨hqp, hq⟩ := (hlive q).1 hq
    rw [hsteps, hslot] at hj
    rw [ht.pid, ht.procHashTable]
    -- the emptied slot is further away than the entry of `q`
    have hother : (home (s.process q).pid + j) % procHashTableSize ≠ s.slot p := by
      intro heq
      have hback : s.steps q (s.slot p) = j := by
        rw [steps, ← heq]
        exact distance_add (home_lt _) (hj.trans (distance_lt (home_lt _)))
      have hbefore := hpass q hq hqp
      omega
    rw [Function.update_of_ne hother]
    exact h.path q hq j hj
  · intro hash q hq
    rw [ht.procHashTable] at hq
    by_cases hhash : hash = s.slot p
    · rw [hhash, Function.update_self] at hq
      cases hq
    · rw [Function.update_of_ne hhash] at hq
      obtain ⟨hqlive, hqslot⟩ := h.own hash q hq
      refine ⟨(hlive q).2 ⟨?_, hqlive⟩, (hslot q).trans hqslot⟩
      rintro rfl
      exact hhash hqslot.symm
  · exact fun q hq => (ht.pid q).symm ▸ h.pid_nonneg q ((hlive q).1 hq).2
  · intro q hq r hr heq
    rw [ht.pid, ht.pid] at heq
    exact h.pid_inj q ((hlive q).1 hq).2 r ((hlive r).1 hr).2 heq
  · rw [ht.live]
    exact Nat.lt_of_le_of_lt (Finset.card_erase_le) h.card
  · intro q hq
    rw [ht.tracing] at hq
    cases hq
  · intro q hq
    rw [ht.nextProcess]
    exact h.fresh q ((hlive q).1 hq).2

theorem notPassed_of_findsLive {t : SET} (ht : Exits s t p) (hp : p ∈ s.live)
    (hfinds : t.FindsLive) {q : Nat} (hq : q ∈ s.live) (hqp : q ≠ p) :
    s.steps q (s.slot q) < s.steps q (s.slot p) := by
  by_contra hle
  obtain ⟨-, hplt, -⟩ := h.entry p hp
  have hslot := add_distance (home_lt (s.process q).pid) hplt
  have hempty : t.procHashTable (s.slot p) = none := by
    rw [ht.procHashTable, Function.update_self]
  have hstop : ¬Passes t.procHashTable (t.hasPid (s.process q).pid) (s.slot p) := by
    rintro ⟨r, hr, -⟩
    rw [hempty] at hr
    cases hr
  have hfound := hfinds.found q (by rw [ht.live]; exact Finset.mem_erase.2 ⟨hqp, hq⟩)
  rw [ht.pid, procFind, Option.map_eq_some_iff] at hfound
  obtain ⟨i, hprobe, hi⟩ := hfound
  obtain ⟨d, hd, rfl, hpass, -⟩ := exists_of_eq_some (home_lt _) hprobe
  have hdle : d ≤ s.steps q (s.slot p) := by
    by_contra hgt
    refine hstop ?_
    have hpassed := hpass _ (Nat.lt_of_not_le hgt)
    rwa [steps, hslot] at hpassed
  have hnot : (home (s.process q).pid + d) % procHashTableSize ≠ s.slot p := by
    intro heq
    rw [heq, hempty] at hi
    cases hi
  rw [ht.procHashTable, Function.update_of_ne hnot] at hi
  have hown := (h.own _ q hi).2
  have hdist : s.steps q (s.slot q) = d := by
    rw [steps, hown]
    exact distance_add (home_lt _) hd
  have hsame : d = s.steps q (s.slot p) := by omega
  rw [hsame, steps, hslot] at hnot
  exact hnot rfl

theorem event {e : ProcEvent} (hadm : s.Admissible e) :
    (s.event e).isSome ∧ (s.NotPassed e → (s.step e).Hashed) := by
  cases e with
  | start pid userC kernel =>
    obtain ⟨u, hu, hhashed⟩ := h.insert (startProcess_adds s pid userC kernel)
      (Int.natCast_nonneg pid) hadm.1 hadm.2
    rw [step, SET.event, hu]
    exact ⟨rfl, fun _ => hhashed⟩
  | threadCreate childPid =>
    rw [step, SET.event, eventThreadCreate]
    cases htracing : s.tracingProcess with
    | none => exact ⟨rfl, fun _ => h⟩
    | some p =>
      have hdistinct := hadm (by rw [htracing]; rfl)
      obtain ⟨u, hu, hhashed⟩ := h.insert (threadOf_adds s p childPid)
        (Int.natCast_nonneg childPid) hdistinct.1 hdistinct.2
      simp only [hu]
      exact ⟨rfl, fun _ => hhashed⟩
  | exit =>
    refine ⟨rfl, fun hpass => ?_⟩
    cases htracing : s.tracingProcess with
    | none =>
      have hsame : s.eventExit = s := by rw [eventExit, htracing]
      rw [step, SET.event, Option.getD_some, hsame]
      exact h
    | some p =>
      have hp := h.tracing p htracing
      exact h.exits (eventExit_exits htracing (h.entry p hp).1) hp (hpass p htracing)
  | cs nowPid =>
    have hfind : ∃ found, s.procFind nowPid = some found ∧ ∀ p ∈ found, p ∈ s.live := by
      by_cases hex : ∃ p ∈ s.live, (s.process p).pid = nowPid
      · obtain ⟨p, hp, hpid⟩ := hex
        refine ⟨some p, hpid ▸ h.procFind_live hp, fun q hq => ?_⟩
        rwa [← Option.some.inj hq]
      · exact ⟨none, h.procFind_absent nowPid fun p hp hpid => hex ⟨p, hp, hpid⟩, by simp⟩
    obtain ⟨found, hfound, hlive⟩ := hfind
    rw [step, SET.event, eventCs, hfound]
    exact ⟨rfl, fun _ => ⟨h.entry, h.path, h.own, h.pid_nonneg, h.pid_inj, h.card, hlive, h.fresh⟩⟩

theorem right_iff {e : ProcEvent} (hadm : s.Admissible e) : s.Right e ↔ s.NotPassed e := by
  constructor
  · intro hright
    match e with
    | .start _ _ _ | .threadCreate _ | .cs _ => exact trivial
    | .exit =>
      intro p htracing q hq hqp
      have hp := h.tracing p htracing
      exact h.notPassed_of_findsLive (eventExit_exits htracing (h.entry p hp).1) hp hright.2.1
        hq hqp
  · intro hpass
    obtain ⟨hends, hnext⟩ := h.event hadm
    exact ⟨hends, (hnext hpass).findsLive, fun _ => h.removesOwn⟩

end Hashed

end SET

end M2M.Tracing
