import M2M.Memcheck.ProcManagement

/-! The lists of descriptors and the two caches stay consistent, and only handlers that need a
current thread or process without a descriptor use NULL. -/

open M2M.Lib

namespace M2M.Memcheck.Handlers

variable {τ υ : Type}

section Lists

/-- The lists, the descriptors in them and the caches belong together. -/
structure Listed (s : ProcTables τ υ) : Prop where
  threadsNodup : s.threadList.Nodup
  procsNodup : s.procList.Nodup
  ofThread : ∀ t ∈ s.threadList, ∃ d, s.threads t = some d ∧ d.process ∈ s.procList
  ofProc : ∀ q ∈ s.procList, ∃ p, s.procs q = some p ∧ p.threads.Nodup ∧
    ∀ t, t ∈ p.threads ↔ t ∈ s.threadList ∧ ∃ d, s.threads t = some d ∧ d.process = q
  currentThread : ∀ t, s.currentThread = some t →
    t ∈ s.threadList ∧ ∃ d, s.threads t = some d ∧ d.tid = s.currentTid
  currentProcess : ∀ q, s.currentProcess = some q → q ∈ s.procList
  fresh : ∀ i, s.next ≤ i → s.threads i = none ∧ s.procs i = none

def HasTid (s : ProcTables τ υ) (tid : UInt32) : Prop :=
  ∃ t ∈ s.threadList, ∃ d, s.threads t = some d ∧ d.tid = tid

def HasPid (s : ProcTables τ υ) (pid : UInt32) : Prop :=
  ∃ q ∈ s.procList, ∃ p, s.procs q = some p ∧ p.pid = pid

variable {s s' : ProcTables τ υ}

theorem listed_init : Listed (ProcTables.init : ProcTables τ υ) where
  threadsNodup := List.nodup_nil
  procsNodup := List.nodup_nil
  ofThread := List.forall_mem_nil _
  ofProc := List.forall_mem_nil _
  currentThread := fun _ h => nomatch h
  currentProcess := fun _ h => nomatch h
  fresh := fun _ _ => ⟨rfl, rfl⟩

theorem Listed.thread_lt (h : Listed s) {t : Nat} (ht : t ∈ s.threadList) : t < s.next := by
  obtain ⟨d, hd, -⟩ := h.ofThread t ht
  by_contra hle
  rw [(h.fresh t (Nat.not_lt.mp hle)).1] at hd
  cases hd

theorem Listed.proc_lt (h : Listed s) {q : Nat} (hq : q ∈ s.procList) : q < s.next := by
  obtain ⟨p, hp, -⟩ := h.ofProc q hq
  by_contra hle
  rw [(h.fresh q (Nat.not_lt.mp hle)).2] at hp
  cases hp

theorem Listed.setUnlisted (h : Listed s) {q : Nat} (hq : q ∉ s.procList) (hlt : q < s.next)
    (p : Option (ProcDesc τ υ)) : Listed { s with procs := Function.update s.procs q p } := by
  refine { h with ofProc := fun q' hq' => ?_, fresh := fun i hi => ?_ }
  · have hne : q' ≠ q := fun heq => hq (heq ▸ hq')
    dsimp only
    rw [Function.update_of_ne hne]
    exact h.ofProc q' hq'
  · have hne : i ≠ q := (Nat.ne_of_lt (Nat.lt_of_lt_of_le hlt hi)).symm
    dsimp only
    rw [Function.update_of_ne hne]
    exact h.fresh i hi

theorem Listed.setListed (h : Listed s) {q : Nat} {p p' : ProcDesc τ υ} (hp : s.procs q = some p)
    (hthreads : p'.threads = p.threads) :
    Listed { s with procs := Function.update s.procs q (some p') } := by
  refine { h with ofProc := fun q' hq' => ?_, fresh := fun i hi => ?_ }
  · by_cases heq : q' = q
    · obtain ⟨p'', hp'', hrest⟩ := h.ofProc q' hq'
      rw [heq, hp] at hp''
      cases hp''
      refine ⟨p', ?_, hthreads ▸ hrest⟩
      rw [heq]
      exact Function.update_self ..
    · dsimp only
      rw [Function.update_of_ne heq]
      exact h.ofProc q' hq'
  · have hne : i ≠ q := fun heq => by
      rw [← heq, (h.fresh i hi).2] at hp
      cases hp
    dsimp only
    rw [Function.update_of_ne hne]
    exact h.fresh i hi

end Lists

section Lookups

variable {s s' s'' : ProcTables τ υ}

/-- What the lookups do to the tables: they fill the caches. -/
structure Looked (s s' : ProcTables τ υ) : Prop where
  listed : Listed s'
  same : s' = { s with
    currentThread := s'.currentThread
    currentProcess := s'.currentProcess }

theorem Looked.refl (h : Listed s) : Looked s s := ⟨h, rfl⟩

theorem Looked.trans (h : Looked s s') (h' : Looked s' s'') : Looked s s'' := by
  refine ⟨h'.listed, h'.same.trans ?_⟩
  rw [h.same]

theorem run_bind_of {α β : Type} {m : Handler τ υ α} {f : α → Handler τ υ β} {a : α}
    (h : m.run s = some (a, s')) : (m >>= f).run s = (f a).run s' := by
  rw [StateT.run_bind, h]
  rfl

theorem run_deref (i : Nat) : (deref (some i) : Handler τ υ _).run s = some (i, s) := rfl

theorem run_modify (g : ProcTables τ υ → ProcTables τ υ) :
    (modify g : Handler τ υ _).run s = some ((), g s) := rfl

theorem run_threadAt {t : Nat} {d : ThreadDesc} (h : s.threads t = some d) :
    (threadAt t : Handler τ υ _).run s = some (d, s) := by
  simp [threadAt, h]

theorem run_procAt {q : Nat} {p : ProcDesc τ υ} (h : s.procs q = some p) :
    (procAt q).run s = some (p, s) := by
  simp [procAt, h]

theorem run_findDesc {keyOf : Nat → Handler τ υ UInt32} {l : List Nat} (key : UInt32)
    (h : ∀ i ∈ l, ∃ k, (keyOf i).run s = some (k, s)) :
    ∃ r, (findDesc keyOf key l).run s = some (r, s) ∧
      (∀ i, r = some i → i ∈ l ∧ (keyOf i).run s = some (key, s)) ∧
      (r.isSome ↔ ∃ i ∈ l, (keyOf i).run s = some (key, s)) := by
  induction l with
  | nil => exact ⟨none, rfl, by simp, by simp⟩
  | cons i l ih =>
    obtain ⟨k, hk⟩ := h i List.mem_cons_self
    obtain ⟨r, hr, hsome, hiff⟩ := ih fun j hj => h j (List.mem_cons_of_mem i hj)
    rw [findDesc, StateT.run_bind, hk]
    by_cases hkey : key = k
    · subst hkey
      refine ⟨some i, by simp, fun j hj => ?_, iff_of_true rfl ⟨i, List.mem_cons_self, hk⟩⟩
      cases hj
      exact ⟨List.mem_cons_self, hk⟩
    · refine ⟨r, by simpa [hkey] using hr, fun j hj => ?_, ?_⟩
      · exact (hsome j hj).imp_left (List.mem_cons_of_mem i)
      · have hne : (keyOf i).run s ≠ some (key, s) := fun heq => by
          rw [hk] at heq
          cases heq
          exact hkey rfl
        rw [hiff, List.exists_mem_cons_iff, or_iff_right hne]

theorem run_tid_iff {t : Nat} {tid : UInt32} :
    ((fun thread => return (← threadAt thread).tid : Nat → Handler τ υ UInt32) t).run s =
      some (tid, s) ↔ ∃ d, s.threads t = some d ∧ d.tid = tid := by
  cases hd : s.threads t with
  | none => simp [threadAt, hd]
  | some d => simp [threadAt, hd]

theorem run_pid_iff {q : Nat} {pid : UInt32} :
    ((fun proc => return (← procAt proc).pid : Nat → Handler τ υ UInt32) q).run s =
      some (pid, s) ↔ ∃ p, s.procs q = some p ∧ p.pid = pid := by
  cases hp : s.procs q with
  | none => simp [procAt, hp]
  | some p => simp [procAt, hp]

theorem run_findThread (h : Listed s) (tid : UInt32) :
    ∃ r, (findThread tid s.threadList : Handler τ υ _).run s = some (r, s) ∧
      (∀ t, r = some t → t ∈ s.threadList ∧ ∃ d, s.threads t = some d ∧ d.tid = tid) ∧
      (r.isSome ↔ HasTid s tid) := by
  obtain ⟨r, hr, hsome, hiff⟩ := run_findDesc tid (s := s) (l := s.threadList)
    fun t ht => by
      obtain ⟨d, hd, -⟩ := h.ofThread t ht
      exact ⟨d.tid, run_tid_iff.mpr ⟨d, hd, rfl⟩⟩
  refine ⟨r, hr, fun t ht => (hsome t ht).imp_right run_tid_iff.mp, hiff.trans ?_⟩
  exact exists_congr fun t => and_congr_right fun _ => run_tid_iff

theorem run_findProc (h : Listed s) (pid : UInt32) :
    ∃ r, (findProc pid s.procList).run s = some (r, s) ∧
      (∀ q, r = some q → q ∈ s.procList) ∧ (r.isSome ↔ HasPid s pid) := by
  obtain ⟨r, hr, hsome, hiff⟩ := run_findDesc pid (s := s) (l := s.procList)
    fun q hq => by
      obtain ⟨p, hp, -⟩ := h.ofProc q hq
      exact ⟨p.pid, run_pid_iff.mpr ⟨p, hp, rfl⟩⟩
  refine ⟨r, hr, fun q hq => (hsome q hq).1, hiff.trans ?_⟩
  exact exists_congr fun q => and_congr_right fun _ => run_pid_iff

def Known (s : ProcTables τ υ) : Prop := s.currentProcess.isSome ∨ HasTid s s.currentTid

theorem Listed.cacheThread (h : Listed s) {r : Option Nat}
    (hr : ∀ t, r = some t → t ∈ s.threadList ∧ ∃ d, s.threads t = some d ∧ d.tid = s.currentTid) :
    Listed { s with currentThread := r } :=
  { h with currentThread := hr }

theorem Listed.cacheProcess (h : Listed s) {r : Option Nat}
    (hr : ∀ q, r = some q → q ∈ s.procList) : Listed { s with currentProcess := r } :=
  { h with currentProcess := hr }

theorem run_getCurrentThread (h : Listed s) :
    ∃ r, (getCurrentThread : Handler τ υ _).run s = some (r, { s with currentThread := r }) ∧
      Looked s { s with currentThread := r } ∧ (r.isSome ↔ HasTid s s.currentTid) := by
  cases hcached : s.currentThread with
  | some t =>
    have hsame : s = { s with currentThread := some t } := by rw [← hcached]
    refine ⟨some t, ?_, hsame ▸ Looked.refl h, iff_of_true rfl ?_⟩
    · simp [getCurrentThread, hcached, ← hsame]
    · exact ⟨t, h.currentThread t hcached⟩
  | none =>
    have hsame : s = { s with currentThread := none } := by rw [← hcached]
    obtain ⟨r, hr, hsome, hiff⟩ := run_findThread h s.currentTid
    refine ⟨r, ?_, ⟨h.cacheThread hsome, rfl⟩, hiff⟩
    cases r with
    | none => simp [getCurrentThread, hcached, hr, ← hsame]
    | some t => simp [getCurrentThread, hcached, hr]

theorem run_getThreadFromTid (h : Listed s) (tid : UInt32) :
    ∃ r c, (getThreadFromTid tid : Handler τ υ _).run s = some (r, { s with currentThread := c }) ∧
      Looked s { s with currentThread := c } ∧ (∀ t, r = some t → t ∈ s.threadList) ∧
      (r.isSome ↔ HasTid s tid) := by
  by_cases hcached : tid = s.currentTid ∧ s.currentThread.isSome
  · obtain ⟨htid, hsome⟩ := hcached
    refine ⟨s.currentThread, s.currentThread, ?_, Looked.refl h, ?_, iff_of_true hsome ?_⟩
    · simp [getThreadFromTid, htid, hsome]
    · exact fun t ht => (h.currentThread t ht).1
    · obtain ⟨t, ht⟩ := Option.isSome_iff_exists.mp hsome
      exact htid ▸ ⟨t, h.currentThread t ht⟩
  · obtain ⟨r, hr, hsome, hiff⟩ := run_findThread h tid
    have hrun : (getThreadFromTid tid : Handler τ υ _).run s =
        some (r, if r.isSome ∧ tid = s.currentTid then { s with currentThread := r } else s) := by
      rw [getThreadFromTid, StateT.run_bind, StateT.run_get, pure_bind, if_neg hcached,
        StateT.run_bind, hr]
      by_cases hnew : r.isSome ∧ tid = s.currentTid
      · simp [hnew]
      · simp [hnew]
    by_cases hnew : r.isSome ∧ tid = s.currentTid
    · rw [if_pos hnew] at hrun
      exact ⟨r, r, hrun, ⟨h.cacheThread (hnew.2 ▸ hsome), rfl⟩, fun t ht => (hsome t ht).1, hiff⟩
    · rw [if_neg hnew] at hrun
      exact ⟨r, s.currentThread, hrun, Looked.refl h, fun t ht => (hsome t ht).1, hiff⟩

theorem run_processOf (h : Listed s) {r : Option Nat} (hr : ∀ t, r = some t → t ∈ s.threadList) :
    ∃ q, (processOf r : Handler τ υ _).run s = some (q, s) ∧ (∀ p, q = some p → p ∈ s.procList) ∧
      (q.isSome ↔ r.isSome) := by
  cases r with
  | none => exact ⟨none, rfl, by simp, Iff.rfl⟩
  | some t =>
    obtain ⟨d, hd, hlisted⟩ := h.ofThread t (hr t rfl)
    refine ⟨some d.process, ?_, fun p hp => ?_, iff_of_true rfl rfl⟩
    · rw [processOf, StateT.run_bind, run_threadAt hd]
      rfl
    · cases hp
      exact hlisted

theorem run_getProcessFromTid (h : Listed s) (tid : UInt32) :
    ∃ r c, (getProcessFromTid tid : Handler τ υ _).run s = some (r, { s with currentThread := c }) ∧
      Looked s { s with currentThread := c } ∧ (∀ q, r = some q → q ∈ s.procList) ∧
      (r.isSome ↔ HasTid s tid) := by
  obtain ⟨t, c, ht, hlooked, hlisted, hiff⟩ := run_getThreadFromTid h tid
  obtain ⟨q, hq, hproc, hsome⟩ := run_processOf hlooked.listed hlisted
  refine ⟨q, c, ?_, hlooked, hproc, hsome.trans hiff⟩
  rw [getProcessFromTid, StateT.run_bind, ht]
  exact hq

theorem run_getCurrentProcess (h : Listed s) :
    ∃ r s', (getCurrentProcess : Handler τ υ _).run s = some (r, s') ∧ Looked s s' ∧
      (∀ q, r = some q → q ∈ s.procList) ∧ (r.isSome ↔ Known s) ∧ s'.currentProcess = r := by
  cases hcached : s.currentProcess with
  | some q =>
    refine ⟨some q, s, ?_, Looked.refl h, fun q' hq' => ?_, iff_of_true rfl ?_, hcached⟩
    · simp [getCurrentProcess, hcached]
    · exact h.currentProcess q' (hcached.trans hq')
    · exact .inl (by rw [hcached]; rfl)
  | none =>
    obtain ⟨t, ht, hlooked, hiff⟩ := run_getCurrentThread h
    obtain ⟨q, hq, hproc, hsome⟩ := run_processOf hlooked.listed (r := t)
      fun t' ht' => (hlooked.listed.currentThread t' ht').1
    have hknown : q.isSome ↔ Known s := by
      rw [Known, hcached, hsome, hiff]
      exact (or_iff_right Bool.false_ne_true).symm
    have hstate := hlooked.listed.cacheProcess hproc
    refine ⟨q, { s with currentThread := t, currentProcess := q }, ?_, ⟨hstate, rfl⟩, hproc, hknown,
      rfl⟩
    have hnone : ¬(s.currentProcess.isSome = true) := by simp [hcached]
    rw [getCurrentProcess, StateT.run_bind, StateT.run_get, pure_bind, if_neg hnone,
      StateT.run_bind, ht]
    cases q with
    | none => simpa [hq] using hcached
    | some q => simp [hq]

theorem run_getProcessFromPid (h : Listed s) (pid : UInt32) :
    ∃ r c, (getProcessFromPid pid).run s = some (r, { s with currentProcess := c }) ∧
      Looked s { s with currentProcess := c } ∧ (∀ q, r = some q → q ∈ s.procList) ∧
      (r.isSome ↔ HasPid s pid) := by
  obtain ⟨q, hq, hproc, -⟩ := run_processOf h fun t ht => (h.currentThread t ht).1
  obtain ⟨r, hr, hlisted, hiff⟩ := run_findProc h pid
  have hrest :
    (findProc pid s.procList).run s = some (r, { s with currentProcess := s.currentProcess }) :=
    hr
  cases q with
  | none =>
    refine ⟨r, s.currentProcess, ?_, Looked.refl h, hlisted, hiff⟩
    rw [getProcessFromPid, StateT.run_bind, StateT.run_get, pure_bind, StateT.run_bind, hq]
    exact hrest
  | some q =>
    obtain ⟨p, hp, -⟩ := h.ofProc q (hproc q rfl)
    by_cases hpid : p.pid = pid
    · refine ⟨some q, some q, ?_, ⟨h.cacheProcess hproc, rfl⟩, hproc, iff_of_true rfl ?_⟩
      · rw [getProcessFromPid, StateT.run_bind, StateT.run_get, pure_bind, StateT.run_bind, hq]
        simp [run_procAt hp, hpid]
      · exact ⟨q, hproc q rfl, p, hp, hpid⟩
    · refine ⟨r, s.currentProcess, ?_, Looked.refl h, hlisted, hiff⟩
      rw [getProcessFromPid, StateT.run_bind, StateT.run_get, pure_bind, StateT.run_bind, hq]
      simp [run_procAt hp, hpid, hr]

end Lookups

section Changes

variable {s : ProcTables τ υ} {q : Nat} {p : ProcDesc τ υ}

/-- The threads of a process are those of the list that belong to it. -/
structure Owns (s : ProcTables τ υ) (q : Nat) (p : ProcDesc τ υ) : Prop where
  nodup : p.threads.Nodup
  mem_iff : ∀ t, t ∈ p.threads ↔ t ∈ s.threadList ∧ ∃ d, s.threads t = some d ∧ d.process = q

theorem Listed.owns (h : Listed s) (hq : q ∈ s.procList) (hp : s.procs q = some p) :
    Owns s q p := by
  obtain ⟨p', hp', hnodup, hmem⟩ := h.ofProc q hq
  rw [hp] at hp'
  cases hp'
  exact ⟨hnodup, hmem⟩

theorem Listed.owns_unlisted (h : Listed s) (hq : q ∉ s.procList) (hthreads : p.threads = []) :
    Owns s q p := by
  refine ⟨hthreads ▸ List.nodup_nil, fun t => ?_⟩
  rw [hthreads]
  refine iff_of_false List.not_mem_nil ?_
  rintro ⟨ht, d, hd, rfl⟩
  obtain ⟨d', hd', hlisted⟩ := h.ofThread t ht
  rw [hd] at hd'
  cases hd'
  exact hq hlisted

/-- The tables after `create_new_thread`. -/
def withThread (s : ProcTables τ υ) (q : Nat) (p : ProcDesc τ υ) (tid : UInt32) :
    ProcTables τ υ :=
  { s with
    threads := Function.update s.threads s.next (some { process := q, callStack := [], tid })
    threadList := s.next :: s.threadList
    procs := Function.update s.procs q (some { p with threads := s.next :: p.threads })
    next := s.next + 1 }

theorem run_createNewThread (hp : s.procs q = some p) (tid : UInt32) :
    (createNewThread q tid).run s = some (s.next, withThread s q p tid) := by
  rw [createNewThread, StateT.run_bind, StateT.run_get, pure_bind, StateT.run_bind, run_procAt hp]
  rfl

theorem Listed.addThread (h : Listed s) (howns : Owns s q p) (hq : q < s.next) (tid : UInt32)
    {l : List Nat} (hl : l.Nodup) (hmem : ∀ x, x ∈ l ↔ x = q ∨ x ∈ s.procList) :
    Listed { withThread s q p tid with procList := l } := by
  have hnext : s.next ∉ s.threadList := fun hmem => Nat.lt_irrefl _ (h.thread_lt hmem)
  have hold : ∀ {t}, t ∈ s.threadList → Function.update s.threads s.next
      (some ({ process := q, callStack := [], tid } : ThreadDesc)) t = s.threads t :=
    fun {t} ht => Function.update_of_ne (fun heq : t = s.next => hnext (heq ▸ ht)) ..
  have hself : Function.update s.threads s.next
      (some ({ process := q, callStack := [], tid } : ThreadDesc)) s.next =
        some { process := q, callStack := [], tid } := Function.update_self ..
  constructor
  · exact List.nodup_cons.mpr ⟨hnext, h.threadsNodup⟩
  · exact hl
  · intro t ht
    rcases List.mem_cons.mp ht with rfl | ht
    · exact ⟨_, hself, (hmem q).mpr (.inl rfl)⟩
    · obtain ⟨d, hd, hlisted⟩ := h.ofThread t ht
      exact ⟨d, (hold ht).trans hd, (hmem _).mpr (.inr hlisted)⟩
  · intro x hx
    by_cases hxq : x = q
    · subst hxq
      refine ⟨{ p with threads := s.next :: p.threads }, Function.update_self .., ?_, fun t => ?_⟩
      · exact List.nodup_cons.mpr ⟨fun ht => hnext ((howns.mem_iff _).mp ht).1, howns.nodup⟩
      · rw [List.mem_cons]
        change _ ↔ t ∈ s.next :: s.threadList ∧ _
        rw [List.mem_cons, howns.mem_iff]
        constructor
        · rintro (rfl | ⟨ht, d, hd, hproc⟩)
          · exact ⟨.inl rfl, _, hself, rfl⟩
          · exact ⟨.inr ht, d, (hold ht).trans hd, hproc⟩
        · rintro ⟨rfl | ht, d, hd, hproc⟩
          · exact .inl rfl
          · exact .inr ⟨ht, d, (hold ht).symm.trans hd, hproc⟩
    · obtain ⟨p', hp', hnodup, hthreads⟩ := h.ofProc x (((hmem x).mp hx).resolve_left hxq)
      refine ⟨p', (Function.update_of_ne hxq ..).trans hp', hnodup, fun t => ?_⟩
      rw [hthreads]
      change _ ↔ t ∈ s.next :: s.threadList ∧ _
      rw [List.mem_cons]
      constructor
      · rintro ⟨ht, d, hd, hproc⟩
        exact ⟨.inr ht, d, (hold ht).trans hd, hproc⟩
      · rintro ⟨rfl | ht, d, hd, hproc⟩
        · rw [show (withThread s q p tid).threads s.next = _ from hself] at hd
          cases hd
          exact absurd hproc.symm hxq
        · exact ⟨ht, d, (hold ht).symm.trans hd, hproc⟩
  · intro t ht
    obtain ⟨hlisted, d, hd, htid⟩ := h.currentThread t ht
    exact ⟨List.mem_cons_of_mem _ hlisted, d, (hold hlisted).trans hd, htid⟩
  · exact fun x hx => (hmem x).mpr (.inr (h.currentProcess x hx))
  · intro i hi
    have hlt : s.next < i := hi
    obtain ⟨hthread, hproc⟩ := h.fresh i (Nat.le_of_lt hlt)
    refine ⟨(Function.update_of_ne (Nat.ne_of_gt hlt) ..).trans hthread, ?_⟩
    exact (Function.update_of_ne (Nat.ne_of_gt (Nat.lt_trans hq hlt)) ..).trans hproc

theorem Listed.removeThread (h : Listed s) {t : Nat} {d : ThreadDesc} (hd : s.threads t = some d)
    (hp : s.procs d.process = some p) (hq : d.process ∈ s.procList) :
    Listed { s with
      currentThread := none
      procs := Function.update s.procs d.process (some { p with threads := p.threads.erase t })
      threadList := s.threadList.erase t
      threads := Function.update s.threads t none } := by
  have howns := h.owns hq hp
  have hold : ∀ {t'}, t' ≠ t → Function.update s.threads t none t' = s.threads t' :=
    fun hne => Function.update_of_ne hne ..
  have herase : ∀ {t'}, t' ∈ s.threadList.erase t ↔ t' ≠ t ∧ t' ∈ s.threadList :=
    h.threadsNodup.mem_erase_iff
  constructor
  · exact h.threadsNodup.erase t
  · exact h.procsNodup
  · intro t' ht'
    obtain ⟨hne, ht'⟩ := herase.mp ht'
    obtain ⟨d', hd', hlisted⟩ := h.ofThread t' ht'
    exact ⟨d', (hold hne).trans hd', hlisted⟩
  · intro x hx
    by_cases hxq : x = d.process
    · subst hxq
      refine ⟨{ p with threads := p.threads.erase t }, Function.update_self .., ?_, fun t' => ?_⟩
      · exact howns.nodup.erase t
      · change t' ∈ p.threads.erase t ↔ t' ∈ s.threadList.erase t ∧ _
        rw [howns.nodup.mem_erase_iff, herase, howns.mem_iff, and_assoc]
        refine and_congr_right fun hne => and_congr_right fun _ => ?_
        dsimp only
        rw [hold hne]
    · obtain ⟨p', hp', hnodup, hthreads⟩ := h.ofProc x hx
      refine ⟨p', (Function.update_of_ne hxq ..).trans hp', hnodup, fun t' => ?_⟩
      change t' ∈ p'.threads ↔ t' ∈ s.threadList.erase t ∧ _
      rw [hthreads, herase, and_assoc]
      constructor
      · rintro ⟨ht', d', hd', hproc⟩
        have hne : t' ≠ t := fun heq => by
          rw [heq, hd] at hd'
          cases hd'
          exact hxq hproc.symm
        exact ⟨hne, ht', d', (hold hne).trans hd', hproc⟩
      · rintro ⟨hne, ht', d', hd', hproc⟩
        exact ⟨ht', d', (hold hne).symm.trans hd', hproc⟩
  · exact fun _ h => nomatch h
  · exact h.currentProcess
  · intro i hi
    obtain ⟨hthread, hproc⟩ := h.fresh i hi
    refine ⟨?_, ?_⟩
    · by_cases hit : i = t
      · rw [hit]
        exact Function.update_self ..
      · exact (hold hit).trans hthread
    · have hne : i ≠ d.process := Nat.ne_of_gt (Nat.lt_of_lt_of_le (h.proc_lt hq) hi)
      exact (Function.update_of_ne hne ..).trans hproc

theorem Listed.removeProcess (h : Listed s) (hp : s.procs q = some p) (hthreads : p.threads = [])
    (hq : q ∈ s.procList) :
    Listed { s with
      currentProcess := none
      procList := s.procList.erase q
      procs := Function.update s.procs q none } := by
  have herase : ∀ {x}, x ∈ s.procList.erase q ↔ x ≠ q ∧ x ∈ s.procList :=
    h.procsNodup.mem_erase_iff
  refine { h with
    procsNodup := h.procsNodup.erase q
    ofThread := fun t ht => ?_
    ofProc := fun x hx => ?_
    currentProcess := fun _ h => nomatch h
    fresh := fun i hi => ?_ }
  · obtain ⟨d, hd, hlisted⟩ := h.ofThread t ht
    refine ⟨d, hd, herase.mpr ⟨fun hproc => ?_, hlisted⟩⟩
    have hmem := ((h.owns hq hp).mem_iff t).mpr ⟨ht, d, hd, hproc⟩
    rw [hthreads] at hmem
    cases hmem
  · obtain ⟨hne, hx⟩ := herase.mp hx
    dsimp only
    rw [Function.update_of_ne hne]
    exact h.ofProc x hx
  · obtain ⟨hthread, hproc⟩ := h.fresh i hi
    have hne : i ≠ q := Nat.ne_of_gt (Nat.lt_of_lt_of_le (h.proc_lt hq) hi)
    exact ⟨hthread, (Function.update_of_ne hne ..).trans hproc⟩

end Changes

section Handlers

variable {s s' : ProcTables τ υ} {q : Nat} {p : ProcDesc τ υ}
  {allocs : RangeTree MallocDescEx τ} {ranges : RangeTree (MMRangeDesc CString) υ}

theorem run_setProc (s : ProcTables τ υ) (q : Nat) (p : ProcDesc τ υ) :
    (setProc q p).run s = some ((), { s with procs := Function.update s.procs q (some p) }) := rfl

theorem Looked.procs (h : Looked s s') : s'.procs = s.procs := by rw [h.same]

theorem Looked.procList (h : Looked s s') : s'.procList = s.procList := by rw [h.same]

theorem Looked.next (h : Looked s s') : s'.next = s.next := by rw [h.same]

theorem run_copyMaps (h : Listed s) (hq : q ∉ s.procList) (hlt : q < s.next)
    (hp : s.procs q = some p) {parent : Nat} (hparent : parent ∈ s.procList) :
    ∃ ok s' p', (copyMaps allocs ranges q parent).run s = some (ok, s') ∧ Listed s' ∧
      s'.procList = s.procList ∧ s'.next = s.next ∧ s'.procs q = some p' ∧
      p'.threads = p.threads := by
  obtain ⟨pp, hpp, -⟩ := h.ofProc parent hparent
  rw [copyMaps, StateT.run_bind, run_procAt hpp]
  simp only [Option.bind_eq_bind, Option.bind_some, StateT.run_bind]
  rw [run_procAt hp, Option.bind_some]
  dsimp only
  split
  · exact ⟨false, s, p, rfl, h, rfl, rfl, hp, rfl⟩
  · split
    · exact ⟨false, s, p, rfl, h, rfl, rfl, hp, rfl⟩
    · exact ⟨true, _, _, rfl, h.setUnlisted hq hlt _, rfl, rfl, Function.update_self .., rfl⟩

variable (allocs ranges) in
theorem run_inheritMaps (h : Listed s) (hq : q ∉ s.procList) (hlt : q < s.next)
    (hp : s.procs q = some p) (parentPid : UInt32) :
    ∃ ok s' p', (inheritMaps allocs ranges q parentPid).run s = some (ok, s') ∧ Listed s' ∧
      s'.procList = s.procList ∧ s'.next = s.next ∧ s'.procs q = some p' ∧
      p'.threads = p.threads := by
  rw [inheritMaps]
  split
  · exact ⟨true, s, p, rfl, h, rfl, rfl, hp, rfl⟩
  · obtain ⟨r, c, hr, hlooked, hlisted, -⟩ := run_getProcessFromPid h parentPid
    rw [StateT.run_bind, hr]
    cases r with
    | none => exact ⟨false, _, p, rfl, hlooked.listed, rfl, rfl, hp, rfl⟩
    | some parent => exact run_copyMaps hlooked.listed hq hlt hp (hlisted parent rfl)

variable (allocs ranges) in
theorem run_createNewProcess (h : Listed s) (pid parentPid : UInt32) :
    ∃ r s', (createNewProcess allocs ranges pid parentPid).run s = some (r, s') ∧ Listed s' ∧
      (∀ x ∈ s.procList, x ∈ s'.procList) ∧ ∀ x, r = some x → x ∈ s'.procList := by
  have hq : s.next ∉ s.procList := fun hmem => Nat.lt_irrefl _ (h.proc_lt hmem)
  -- the new process is in memory, but in no list
  let p : ProcDesc τ υ := ⟨allocs.empty, ranges.empty, [], none, pid, parentPid, 0⟩
  let s₁ : ProcTables τ υ := { s with
    next := s.next + 1
    procs := Function.update s.procs s.next (some p) }
  have hnext : Listed { s with next := s.next + 1 } :=
    { h with fresh := fun i hi => h.fresh i (Nat.le_of_succ_le hi) }
  have hlisted : Listed s₁ := hnext.setUnlisted hq (Nat.lt_succ_self _) (some p)
  obtain ⟨ok, s₂, p', hrun, hlisted₂, hprocs, hnext₂, hp', hthreads⟩ :=
    run_inheritMaps allocs ranges hlisted hq (Nat.lt_succ_self _) (Function.update_self ..)
      parentPid
  have hlt : s.next < s₂.next := hnext₂ ▸ Nat.lt_succ_self _
  have hq₂ : s.next ∉ s₂.procList := hprocs ▸ hq
  have hstart : (createNewProcess allocs ranges pid parentPid).run s =
      (do
        let inherited ← inheritMaps allocs ranges s.next parentPid
        if inherited then
          let _ ← createNewThread s.next pid
          modify fun s' => { s' with procList := s.next :: s'.procList }
          return some s.next
        else
          freeProc s.next
          return none : Handler τ υ _).run s₁ := rfl
  rw [hstart, StateT.run_bind, hrun]
  cases ok with
  | true =>
    have howns := hlisted₂.owns_unlisted hq₂ hthreads
    refine ⟨some s.next, { withThread s₂ s.next p' pid with procList := s.next :: s₂.procList },
      ?_, ?_, fun x hx => ?_, fun x hx => ?_⟩
    · simp only [Option.bind_eq_bind, Option.bind_some, if_true, StateT.run_bind]
      rw [run_createNewThread hp']
      rfl
    · exact hlisted₂.addThread howns hlt pid (List.nodup_cons.mpr ⟨hq₂, hlisted₂.procsNodup⟩)
        fun x => List.mem_cons
    · exact List.mem_cons_of_mem _ (hprocs ▸ hx)
    · cases hx
      exact List.mem_cons_self
  | false =>
    exact ⟨none, _, rfl, hlisted₂.setUnlisted hq₂ hlt none, fun x hx => hprocs ▸ hx,
      fun _ h => nomatch h⟩

theorem run_setImagePath (h : Listed s) (hq : q ∈ s.procList) (imagePath : Option CString)
    (flags : UInt32) :
    ∃ s', (setImagePath q imagePath flags : Handler τ υ _).run s = some ((), s') ∧
      Listed s' ∧ s'.procList = s.procList := by
  obtain ⟨p, hp, -⟩ := h.ofProc q hq
  cases imagePath with
  | none => exact ⟨s, rfl, h, rfl⟩
  | some path =>
    rw [setImagePath, StateT.run_bind, run_procAt hp]
    simp only [Option.bind_eq_bind, Option.bind_some]
    split
    · exact ⟨s, rfl, h, rfl⟩
    · exact ⟨_, rfl, h.setListed hp rfl, rfl⟩

/-- The handler uses no NULL if and only if `fits`, and the tables stay consistent. -/
structure Handles {α : Type} (m : Handler τ υ α) (s : ProcTables τ υ) (fits : Prop) : Prop where
  isSome_iff : (m.run s).isSome ↔ fits
  listed : ∀ r s', m.run s = some (r, s') → Listed s'

theorem Handles.of_some {α : Type} {m : Handler τ υ α} {fits : Prop} {r : α}
    (hrun : m.run s = some (r, s')) (hlisted : Listed s') (hfits : fits) : Handles m s fits := by
  constructor
  · rw [hrun]
    exact iff_of_true rfl hfits
  · intro r' s'' hrun'
    rw [hrun] at hrun'
    cases hrun'
    exact hlisted

theorem Handles.of_none {α : Type} {m : Handler τ υ α} {fits : Prop} (hrun : m.run s = none)
    (hfits : ¬fits) : Handles m s fits := by
  constructor
  · rw [hrun]
    exact iff_of_false Bool.false_ne_true hfits
  · intro r' s'' hrun'
    rw [hrun] at hrun'
    cases hrun'

def ParentFits (s : ProcTables τ υ) (tgid newId : UInt32) : Prop :=
  newId ≠ tgid → HasTid s tgid → Known s

theorem run_parentProcess (h : Listed s) (tgid newId : UInt32) :
    ∃ r s', (parentProcess tgid newId : Handler τ υ _).run s = some (r, s') ∧ Looked s s' ∧
      (∀ q, r = some q → q ∈ s.procList) ∧
      (r.isSome → (Known s' ↔ ParentFits s tgid newId)) ∧ (r = none → ParentFits s tgid newId) := by
  rw [parentProcess]
  split
  · next hsame =>
    obtain ⟨r, s', hrun, hlooked, hlisted, -, hcached⟩ := run_getCurrentProcess h
    have hfits : ParentFits s tgid newId := fun hne => absurd hsame hne
    refine ⟨r, s', hrun, hlooked, hlisted, fun hsome => iff_of_true (.inl ?_) hfits, fun _ => hfits⟩
    rw [hcached]
    exact hsome
  · next hne =>
    obtain ⟨r, c, hrun, hlooked, hlisted, hiff⟩ := run_getProcessFromTid h tgid
    refine ⟨r, _, hrun, hlooked, hlisted, fun hsome => ?_, fun hnone _ htid => ?_⟩
    · exact ⟨fun hknown _ _ => hknown, fun hfits => hfits hne (hiff.mp hsome)⟩
    · rw [hnone] at hiff
      cases hiff.mpr htid

theorem handles_withParent (h : Listed s) (tgid newId : UInt32) {create : Nat → Handler τ υ Unit}
    (hcreate : ∀ {s'} {q}, Listed s' → q ∈ s'.procList → Handles (create q) s' True) :
    Handles (withParent tgid newId create) s (ParentFits s tgid newId) := by
  obtain ⟨r, s', hrun, hlooked, hlisted, hknown, hnone⟩ := run_parentProcess h tgid newId
  cases r with
  | none =>
    have hdone : (withParent tgid newId create).run s = some ((), s') := by
      rw [withParent, StateT.run_bind, hrun]
      rfl
    exact .of_some hdone hlooked.listed (hnone rfl)
  | some q =>
    have hq : q ∈ s'.procList := hlooked.procList ▸ hlisted q rfl
    obtain ⟨p, hp, -⟩ := hlooked.listed.ofProc q hq
    obtain ⟨c, s'', hcur, hlooked', hclisted, hciff, -⟩ := run_getCurrentProcess hlooked.listed
    have hfits := hknown rfl
    have hstart : (withParent tgid newId create).run s = (do
        let _ ← procAt (← deref c)
        create q : Handler τ υ Unit).run s'' := by
      rw [withParent, run_bind_of hrun, run_bind_of (run_procAt hp), run_bind_of hcur]
    cases c with
    | none =>
      refine .of_none hstart fun hok => ?_
      cases hciff.mpr (hfits.mpr hok)
    | some c =>
      have hc : c ∈ s''.procList := hlooked'.procList ▸ hclisted c rfl
      obtain ⟨pc, hpc, -⟩ := hlooked'.listed.ofProc c hc
      have hdone : (withParent tgid newId create).run s = (create q).run s'' := by
        rw [hstart, run_bind_of (run_deref c), run_bind_of (run_procAt hpc)]
      have hcreated := hcreate hlooked'.listed (hlooked'.procList ▸ hq)
      obtain ⟨out, hout⟩ := Option.isSome_iff_exists.mp (hcreated.isSome_iff.mpr trivial)
      exact .of_some (hdone.trans hout) (hcreated.listed out.1 out.2 hout) (hfits.mp (hciff.mp rfl))

theorem handles_memcheckFork (h : Listed s) (tgid newPid : UInt32) :
    Handles (memcheckFork allocs ranges tgid newPid) s (ParentFits s tgid newPid) := by
  refine handles_withParent h tgid newPid fun {s'} {q} hlisted hq => ?_
  obtain ⟨p, hp, -⟩ := hlisted.ofProc q hq
  obtain ⟨r, s₁, hrun, hlisted₁, hkept, hnew⟩ :=
    run_createNewProcess allocs ranges hlisted newPid p.pid
  obtain ⟨p₁, hp₁, -⟩ := hlisted₁.ofProc q (hkept q hq)
  cases r with
  | none => exact .of_some ((run_bind_of (run_procAt hp)).trans (run_bind_of hrun)) hlisted₁ trivial
  | some newProc =>
    obtain ⟨s₂, hset, hlisted₂, -⟩ := run_setImagePath hlisted₁ (hnew newProc rfl) p₁.imagePath 0
    exact .of_some ((run_bind_of (run_procAt hp)).trans ((run_bind_of hrun).trans
      ((run_bind_of (run_procAt hp₁)).trans hset))) hlisted₂ trivial

theorem handles_memcheckClone (h : Listed s) (tgid newTid : UInt32) :
    Handles (memcheckClone tgid newTid : Handler τ υ _) s (ParentFits s tgid newTid) := by
  refine handles_withParent h tgid newTid fun {s'} {q} hlisted hq => ?_
  obtain ⟨p, hp, -⟩ := hlisted.ofProc q hq
  have hthread := hlisted.addThread (hlisted.owns hq hp) (hlisted.proc_lt hq) newTid
    hlisted.procsNodup fun x => (or_iff_right_of_imp fun hx => hx ▸ hq).symm
  exact .of_some (run_bind_of (run_createNewThread hp newTid)) hthread trivial

theorem handles_memcheckInitPid (h : Listed s) (newPid : UInt32) :
    Handles (memcheckInitPid allocs ranges newPid) s True := by
  obtain ⟨r, s', hrun, hlisted, -⟩ := run_createNewProcess allocs ranges h newPid 0
  exact .of_some (run_bind_of hrun) hlisted trivial

theorem handles_memcheckSwitch (h : Listed s) (tid : UInt32) :
    Handles (memcheckSwitch tid : Handler τ υ _) s True :=
  .of_some rfl { h with
    currentThread := fun _ h => nomatch h
    currentProcess := fun _ h => nomatch h } trivial

theorem handles_memcheckSetCmdLine (h : Listed s) (cmdArg : List UInt8) (cmdlen : Nat) :
    Handles (memcheckSetCmdLine ranges cmdArg cmdlen : Handler τ υ _) s True := by
  obtain ⟨r, s', hrun, hlooked, hlisted, -⟩ := run_getCurrentProcess h
  cases r with
  | none => exact .of_some (run_bind_of hrun) hlooked.listed trivial
  | some q =>
    obtain ⟨s₁, hset, hlisted₁, hprocs⟩ := run_setImagePath hlooked.listed
      (hlooked.procList ▸ hlisted q rfl) (some (firstArgument cmdArg cmdlen))
      procFlagImagePathReplaced
    have hq : q ∈ s₁.procList := hprocs ▸ hlooked.procList ▸ hlisted q rfl
    obtain ⟨p, hp, -⟩ := hlisted₁.ofProc q hq
    refine .of_some ((run_bind_of hrun).trans ((run_bind_of hset).trans
      (run_bind_of (run_procAt hp)))) ?_ trivial
    exact hlisted₁.setListed hp rfl

def AllocatorFits (s : ProcTables τ υ) (pid : UInt32) : Prop :=
  HasPid s pid → HasTid s s.currentTid

theorem handles_memcheckGuestAlloc (h : Listed s) (mallocDesc : MallocDesc) :
    Handles (memcheckGuestAlloc allocs mallocDesc : Handler τ υ _) s
      (AllocatorFits s mallocDesc.allocatorPid) := by
  obtain ⟨r, c, hrun, hlooked, hlisted, hiff⟩ := run_getProcessFromPid h mallocDesc.allocatorPid
  cases r with
  | none =>
    have hdone : (memcheckGuestAlloc allocs mallocDesc).run s =
        some (none, { s with currentProcess := c }) := by
      rw [memcheckGuestAlloc, run_bind_of hrun]
      rfl
    refine .of_some hdone hlooked.listed fun hpid => ?_
    cases hiff.mpr hpid
  | some q =>
    obtain ⟨p, hp, -⟩ := hlooked.listed.ofProc q (hlisted q rfl)
    obtain ⟨t, hthread, hlooked', htid⟩ := run_getCurrentThread hlooked.listed
    cases t with
    | none =>
      have hdone : (memcheckGuestAlloc allocs mallocDesc).run s = none := by
        rw [memcheckGuestAlloc, run_bind_of hrun, run_bind_of (run_procAt hp), run_bind_of hthread]
        rfl
      refine .of_none hdone fun hfits => ?_
      cases htid.mpr (hfits (hiff.mp rfl))
    | some t =>
      obtain ⟨d, hd, -⟩ := hlooked'.listed.ofThread t (hlooked'.listed.currentThread t rfl).1
      obtain ⟨r, s', hdone, hlisted'⟩ : ∃ r s', (memcheckGuestAlloc allocs mallocDesc).run s =
          some (r, s') ∧ Listed s' := by
        rw [memcheckGuestAlloc, run_bind_of hrun, run_bind_of (run_procAt hp), run_bind_of hthread,
          run_bind_of (run_deref t), run_bind_of (run_threadAt hd)]
        exact ⟨_, _, rfl, hlooked'.listed.setListed hp rfl⟩
      exact .of_some hdone hlisted' fun _ => htid.mp rfl

def withoutThread (s : ProcTables τ υ) (t q : Nat) (p : ProcDesc τ υ) : ProcTables τ υ :=
  { s with
    currentThread := none
    procs := Function.update s.procs q (some { p with threads := p.threads.erase t })
    threadList := s.threadList.erase t
    threads := Function.update s.threads t none }

def withoutProc (s : ProcTables τ υ) (q : Nat) : ProcTables τ υ :=
  { s with
    currentProcess := none
    procList := s.procList.erase q
    procs := Function.update s.procs q none }

variable (allocs) in
theorem run_memcheckExit {t : Nat} {d : ThreadDesc}
    (hrun : (getCurrentThread : Handler τ υ _).run s = some (some t, s'))
    (hd : s'.threads t = some d) (hp : s'.procs d.process = some p) :
    (memcheckExit allocs : Handler τ υ _).run s = some
      (if p.threads.erase t = [] then
        (some (leaksReported allocs (allocs.entries p.allocMap).length p.allocMap),
          withoutProc (withoutThread s' t d.process p) d.process)
      else (none, withoutThread s' t d.process p)) := by
  rw [memcheckExit, run_bind_of hrun, run_bind_of (run_threadAt hd)]
  refine (run_bind_of (run_modify _)).trans
    ((run_bind_of (run_procAt (p := p) ?_)).trans ?_)
  · exact hp
  · rw [run_bind_of (run_setProc ..), run_bind_of (run_modify _)]
    by_cases hempty : p.threads.erase t = []
    · rw [if_neg (not_not.mpr hempty), if_pos hempty]
      rfl
    · rw [if_pos hempty, if_neg hempty]
      rfl

theorem handles_memcheckExit (h : Listed s) :
    Handles (memcheckExit allocs : Handler τ υ _) s True := by
  obtain ⟨r, hrun, hlooked, -⟩ := run_getCurrentThread h
  cases r with
  | none =>
    have hdone : (memcheckExit allocs : Handler τ υ _).run s =
        some (none, { s with currentThread := none }) := by
      rw [memcheckExit, run_bind_of hrun]
      rfl
    exact .of_some hdone hlooked.listed trivial
  | some t =>
    have hlisted := hlooked.listed
    obtain ⟨d, hd, hq⟩ := hlisted.ofThread t (hlisted.currentThread t rfl).1
    obtain ⟨p, hp, -⟩ := hlisted.ofProc d.process hq
    have hremoved := hlisted.removeThread hd hp hq
    have hdone := run_memcheckExit allocs hrun hd hp
    by_cases hempty : p.threads.erase t = []
    · rw [if_pos hempty] at hdone
      exact .of_some hdone
        (hremoved.removeProcess (Function.update_self ..) hempty hq) trivial
    · rw [if_neg hempty] at hdone
      exact .of_some hdone hremoved trivial

/-- What an event needs of the tables for its handler to use no NULL. -/
def EventFits (s : ProcTables τ υ) : ProcEvent → Prop
  | .fork tgid newPid => ParentFits s tgid newPid
  | .clone tgid newTid => ParentFits s tgid newTid
  | .guestAlloc mallocDesc => AllocatorFits s mallocDesc.allocatorPid
  | .initPid _ | .switch _ | .setCmdLine .. | .exit _ => True

theorem Handles.discard {α : Type} {m : Handler τ υ α} {fits : Prop} (h : Handles m s fits) :
    Handles (do let _ ← m; return () : Handler τ υ Unit) s fits := by
  cases hrun : m.run s with
  | none =>
    refine .of_none ?_ fun hfits => ?_
    · rw [StateT.run_bind, hrun]
      rfl
    · have hsome := h.isSome_iff.mpr hfits
      rw [hrun] at hsome
      cases hsome
  | some out =>
    exact .of_some (run_bind_of hrun) (h.listed _ _ hrun) (h.isSome_iff.mp (by rw [hrun]; rfl))

variable (allocs ranges) in
theorem handles_handle (h : Listed s) (e : ProcEvent) :
    Handles (handle allocs ranges e) s (EventFits s e) := by
  cases e with
  | initPid newPid => exact handles_memcheckInitPid h newPid
  | switch tid => exact handles_memcheckSwitch h tid
  | fork tgid newPid => exact handles_memcheckFork h tgid newPid
  | clone tgid newTid => exact handles_memcheckClone h tgid newTid
  | setCmdLine cmdArg cmdlen => exact handles_memcheckSetCmdLine h cmdArg cmdlen
  | exit exitCode => exact (handles_memcheckExit h).discard
  | guestAlloc mallocDesc => exact (handles_memcheckGuestAlloc h mallocDesc).discard

end Handlers

section Runs

variable (allocs : RangeTree MallocDescEx τ) (ranges : RangeTree (MMRangeDesc CString) υ)

/-- The tables after an event: unchanged if its handler uses NULL. -/
def procStep (s : ProcTables τ υ) (e : ProcEvent) : ProcTables τ υ :=
  match (handle allocs ranges e).run s with
  | some (_, s') => s'
  | none => s

theorem Listed.procStep {s : ProcTables τ υ} (h : Listed s) (e : ProcEvent) :
    Listed (procStep allocs ranges s e) := by
  rw [Handlers.procStep]
  split
  · next hrun => exact (handles_handle allocs ranges h e).listed _ _ hrun
  · exact h

theorem Listed.run {s : ProcTables τ υ} (h : Listed s) (es : List ProcEvent) :
    Listed (es.foldl (Handlers.procStep allocs ranges) s) := by
  induction es generalizing s with
  | nil => exact h
  | cons e es ih => exact ih (h.procStep allocs ranges e)

/-- The caches are NULL or members of the lists. -/
structure CachesListed (s : ProcTables τ υ) : Prop where
  currentThread : ∀ t, s.currentThread = some t → t ∈ s.threadList
  currentProcess : ∀ q, s.currentProcess = some q → q ∈ s.procList

theorem Listed.caches {s : ProcTables τ υ} (h : Listed s) : CachesListed s :=
  ⟨fun t ht => (h.currentThread t ht).1, h.currentProcess⟩

/-- No handler of the run uses NULL, and the caches are always NULL or listed. -/
structure ProcsRight (es : List ProcEvent) : Prop where
  handled : Along (procStep allocs ranges) (fun s e => ((handle allocs ranges e).run s).isSome)
    ProcTables.init es
  caches : ∀ before, before <+: es →
    CachesListed (before.foldl (procStep allocs ranges) ProcTables.init)

/-- The handlers of a run use no NULL if and only if all of its events fit, whatever they are. -/
theorem procsRight_iff (es : List ProcEvent) :
    ProcsRight allocs ranges es ↔ Along (procStep allocs ranges) EventFits ProcTables.init es := by
  have hiff : Along (procStep allocs ranges) (fun s e => ((handle allocs ranges e).run s).isSome)
      ProcTables.init es ↔ Along (procStep allocs ranges) EventFits ProcTables.init es :=
    Along.congr_of_invariant (fun s e h => (handles_handle allocs ranges h e).isSome_iff)
      (fun s e h _ => h.procStep allocs ranges e) listed_init
  refine ⟨fun h => hiff.mp h.handled, fun h => ⟨hiff.mpr h, fun before _ => ?_⟩⟩
  exact (listed_init.run allocs ranges before).caches

/-- A process forks another while the current thread has no descriptor. -/
theorem unseenThread_not_procsRight :
    ¬ProcsRight RangeTree.onLists RangeTree.onLists
      [.initPid 5, .switch 7, .fork 5 6] := by
  intro h
  have hfork := h.handled [.initPid 5, .switch 7] (.fork 5 6) (List.prefix_refl _)
  revert hfork
  decide

end Runs

end M2M.Memcheck.Handlers
