import M2M.Memcheck.GuestEvents

/-! Where threads and processes are told apart by their numbers, the handlers find those that have
the number, whatever is in the caches. -/

open M2M.Lib

namespace M2M.Memcheck.Handlers

variable {τ υ : Type} {s s' s'' : ProcTables τ υ} {t q : Nat} {tid pid : UInt32}

/-- The tables, with numbers that name one thread or process each. -/
structure Named (s : ProcTables τ υ) : Prop where
  listed : Listed s
  tids : ∀ i ∈ s.threadList, ∀ j ∈ s.threadList, ∀ d d', s.threads i = some d →
    s.threads j = some d' → d.tid = d'.tid → i = j
  pids : ∀ i ∈ s.procList, ∀ j ∈ s.procList, ∀ p p', s.procs i = some p →
    s.procs j = some p' → p.pid = p'.pid → i = j
  /-- The process in the cache is that of the current thread. -/
  cache : ∀ q, s.currentProcess = some q → ∀ i ∈ s.threadList, ∀ d, s.threads i = some d →
    d.tid = s.currentTid → d.process = q

theorem find?_any_eq_some_iff {β : Type} {l : List Nat} {get : Nat → Option β} {key : β → UInt32}
    (hkeys : ∀ i ∈ l, ∀ j ∈ l, ∀ d d', get i = some d → get j = some d' → key d = key d' → i = j)
    {k : UInt32} {i : Nat} : (l.find? fun i => (get i).any fun d => key d = k) = some i ↔
      i ∈ l ∧ ∃ d, get i = some d ∧ key d = k := by
  have hfound : ∀ {j}, (l.find? fun i => (get i).any fun d => key d = k) = some j →
      j ∈ l ∧ ∃ d, get j = some d ∧ key d = k := by
    intro j hj
    have hany := List.find?_some (p := fun i => (get i).any fun d => key d = k) hj
    obtain ⟨d, hd, hkey⟩ := (Option.any_eq_true ..).mp hany
    exact ⟨List.mem_of_find?_eq_some hj, d, hd, of_decide_eq_true hkey⟩
  refine ⟨hfound, fun ⟨hi, d, hd, hkey⟩ => ?_⟩
  cases hj : l.find? fun i => (get i).any fun d => key d = k with
  | none =>
    have hnot := List.find?_eq_none.mp hj i hi
    simp [hd, hkey] at hnot
  | some j =>
    obtain ⟨hj', d', hd', hkey'⟩ := hfound hj
    rw [hkeys j hj' i hi d' d hd' hd (hkey'.trans hkey.symm)]

theorem Named.threadOfTid_iff (h : Named s) :
    threadOfTid s tid = some t ↔
      t ∈ s.threadList ∧ ∃ d, s.threads t = some d ∧ d.tid = tid :=
  find?_any_eq_some_iff h.tids

theorem Named.procOfPid_iff (h : Named s) :
    procOfPid s pid = some q ↔ q ∈ s.procList ∧ ∃ p, s.procs q = some p ∧ p.pid = pid :=
  find?_any_eq_some_iff h.pids

theorem Named.procOfTid_iff (h : Named s) :
    procOfTid s tid = some q ↔
      ∃ t ∈ s.threadList, ∃ d, s.threads t = some d ∧ d.tid = tid ∧ d.process = q := by
  rw [procOfTid, Option.bind_eq_some_iff]
  constructor
  · rintro ⟨t, ht, hq⟩
    obtain ⟨hlisted, d, hd, htid⟩ := h.threadOfTid_iff.mp ht
    rw [hd] at hq
    cases hq
    exact ⟨t, hlisted, d, hd, htid, rfl⟩
  · rintro ⟨t, ht, d, hd, htid, rfl⟩
    exact ⟨t, h.threadOfTid_iff.mpr ⟨ht, d, hd, htid⟩, by rw [hd]; rfl⟩

theorem Named.mem_of_procOfTid (h : Named s) (hq : procOfTid s tid = some q) : q ∈ s.procList := by
  obtain ⟨t, ht, d, hd, -, rfl⟩ := h.procOfTid_iff.mp hq
  obtain ⟨d', hd', hlisted⟩ := h.listed.ofThread t ht
  rw [hd] at hd'
  cases hd'
  exact hlisted

theorem Named.procOfTid_of_thread (h : Named s) {d : ThreadDesc} (ht : t ∈ s.threadList)
    (hd : s.threads t = some d) : procOfTid s d.tid = some d.process :=
  h.procOfTid_iff.mpr ⟨t, ht, d, hd, rfl, rfl⟩

/-- What the lookups do to such tables: they fill the caches, with what is right. -/
structure Cached (s s' : ProcTables τ υ) : Prop where
  named : Named s'
  same : s' = { s with
    currentThread := s'.currentThread
    currentProcess := s'.currentProcess }

theorem Cached.refl (h : Named s) : Cached s s := ⟨h, rfl⟩

theorem Cached.trans (h : Cached s s') (h' : Cached s' s'') : Cached s s'' := by
  refine ⟨h'.named, h'.same.trans ?_⟩
  rw [h.same]

theorem Named.cacheThread (h : Named s) {r : Option Nat} (hr : r = threadOfTid s s.currentTid) :
    Cached s { s with currentThread := r } := by
  have hlisted := h.listed.cacheThread (r := r) fun i hi => h.threadOfTid_iff.mp (hr.symm.trans hi)
  exact ⟨⟨hlisted, h.tids, h.pids, h.cache⟩, rfl⟩

theorem Named.cacheProcess (h : Named s) {r : Option Nat}
    (hr : ∀ q, r = some q → procOfTid s s.currentTid = some q) :
    Cached s { s with currentProcess := r } := by
  have hlisted := h.listed.cacheProcess (r := r) fun i hi => h.mem_of_procOfTid (hr i hi)
  refine ⟨⟨hlisted, h.tids, h.pids, fun i hi t ht d hd htid => ?_⟩, rfl⟩
  have hproc := h.procOfTid_of_thread ht hd
  rw [htid] at hproc
  exact Option.some.inj (hproc.symm.trans (hr i hi))

theorem Named.run_findThread (h : Named s) (tid : UInt32) :
    (findThread tid s.threadList : Handler τ υ _).run s = some (threadOfTid s tid, s) := by
  obtain ⟨r, hr, hsome, hiff⟩ := Handlers.run_findThread h.listed tid
  rw [hr]
  cases r with
  | some i => rw [h.threadOfTid_iff.mpr (hsome i rfl)]
  | none =>
    cases hi : threadOfTid s tid with
    | none => rfl
    | some i =>
      have hhas := hiff.mpr ⟨i, h.threadOfTid_iff.mp hi⟩
      cases hhas

theorem Named.run_findProc (h : Named s) (pid : UInt32) :
    (findProc pid s.procList).run s = some (procOfPid s pid, s) := by
  have hkeys : ∀ i ∈ s.procList, ∃ k,
      (do return (← procAt i).pid : Handler τ υ UInt32).run s = some (k, s) := by
    intro i hi
    obtain ⟨p, hp, -⟩ := h.listed.ofProc i hi
    exact ⟨p.pid, run_pid_iff.mpr ⟨p, hp, rfl⟩⟩
  obtain ⟨r, hr, hsome, hiff⟩ := run_findDesc pid hkeys
  rw [findProc, hr]
  cases r with
  | some i =>
    obtain ⟨hi, hrun⟩ := hsome i rfl
    rw [h.procOfPid_iff.mpr ⟨hi, run_pid_iff.mp hrun⟩]
  | none =>
    cases hi : procOfPid s pid with
    | none => rfl
    | some i =>
      obtain ⟨hi', hp⟩ := h.procOfPid_iff.mp hi
      have hhas := hiff.mpr ⟨i, hi', run_pid_iff.mpr hp⟩
      cases hhas

theorem Named.cached_thread (h : Named s) (ht : s.currentThread = some t) :
    threadOfTid s s.currentTid = some t :=
  h.threadOfTid_iff.mpr (h.listed.currentThread t ht)

theorem Named.run_getCurrentThread (h : Named s) :
    ∃ s', (getCurrentThread : Handler τ υ _).run s = some (threadOfTid s s.currentTid, s') ∧
      Cached s s' := by
  cases hcached : s.currentThread with
  | some t =>
    refine ⟨s, ?_, Cached.refl h⟩
    rw [h.cached_thread hcached, getCurrentThread]
    simp [hcached]
  | none =>
    cases hfind : threadOfTid s s.currentTid with
    | none =>
      refine ⟨s, ?_, Cached.refl h⟩
      simp [getCurrentThread, hcached, h.run_findThread, hfind]
    | some t =>
      refine ⟨_, ?_, h.cacheThread hfind.symm⟩
      simp [getCurrentThread, hcached, h.run_findThread, hfind]

theorem Named.run_getThreadFromTid (h : Named s) (tid : UInt32) :
    ∃ s', (getThreadFromTid tid : Handler τ υ _).run s = some (threadOfTid s tid, s') ∧
      Cached s s' := by
  by_cases hcached : tid = s.currentTid ∧ s.currentThread.isSome
  · obtain ⟨rfl, hsome⟩ := hcached
    obtain ⟨t, ht⟩ := Option.isSome_iff_exists.mp hsome
    refine ⟨s, ?_, Cached.refl h⟩
    rw [h.cached_thread ht, getThreadFromTid]
    simp [ht]
  · have hrun : (getThreadFromTid tid : Handler τ υ _).run s = some (threadOfTid s tid,
        if (threadOfTid s tid).isSome ∧ tid = s.currentTid then
          { s with currentThread := threadOfTid s tid } else s) := by
      rw [getThreadFromTid, StateT.run_bind, StateT.run_get, pure_bind, if_neg hcached,
        run_bind_of (h.run_findThread tid)]
      split <;> rfl
    refine ⟨_, hrun, ?_⟩
    split
    · next hnew => exact h.cacheThread (by rw [hnew.2])
    · exact Cached.refl h

theorem Named.run_processOf (h : Named s) (tid : UInt32) :
    (processOf (threadOfTid s tid) : Handler τ υ _).run s = some (procOfTid s tid, s) := by
  rw [procOfTid]
  cases ht : threadOfTid s tid with
  | none => rfl
  | some t =>
    obtain ⟨-, d, hd, -⟩ := h.threadOfTid_iff.mp ht
    rw [processOf, run_bind_of (run_threadAt hd), Option.bind_some, hd]
    rfl

theorem Cached.threadOfTid (h : Cached s s') (tid : UInt32) :
    threadOfTid s' tid = Handlers.threadOfTid s tid := by
  rw [h.same]
  rfl

theorem Cached.procOfTid (h : Cached s s') (tid : UInt32) :
    procOfTid s' tid = Handlers.procOfTid s tid := by
  rw [h.same]
  rfl

theorem Cached.procOfPid (h : Cached s s') (pid : UInt32) :
    procOfPid s' pid = Handlers.procOfPid s pid := by
  rw [h.same]
  rfl

theorem Cached.currentTid (h : Cached s s') : s'.currentTid = s.currentTid := by rw [h.same]

theorem Cached.procs (h : Cached s s') : s'.procs = s.procs := by rw [h.same]

theorem Cached.procList (h : Cached s s') : s'.procList = s.procList := by rw [h.same]

theorem Cached.next (h : Cached s s') : s'.next = s.next := by rw [h.same]

theorem Named.run_getProcessFromTid (h : Named s) (tid : UInt32) :
    ∃ s', (getProcessFromTid tid : Handler τ υ _).run s = some (procOfTid s tid, s') ∧
      Cached s s' := by
  obtain ⟨s', hrun, hcached⟩ := h.run_getThreadFromTid tid
  refine ⟨s', ?_, hcached⟩
  have hproc := hcached.named.run_processOf tid
  rw [hcached.threadOfTid, hcached.procOfTid] at hproc
  rw [getProcessFromTid, run_bind_of hrun, hproc]

theorem Named.run_getCurrentProcess (h : Named s) (hq : procOfTid s s.currentTid = some q) :
    ∃ s', (getCurrentProcess : Handler τ υ _).run s = some (some q, s') ∧ Cached s s' := by
  cases hcached : s.currentProcess with
  | some q' =>
    obtain ⟨t, ht, d, hd, htid, rfl⟩ := h.procOfTid_iff.mp hq
    have hsame := h.cache q' hcached t ht d hd htid
    refine ⟨s, ?_, Cached.refl h⟩
    simp [getCurrentProcess, hcached, hsame]
  | none =>
    obtain ⟨s', hrun, hthread⟩ := h.run_getCurrentThread
    have hproc := hthread.named.run_processOf s.currentTid
    rw [hthread.threadOfTid, hthread.procOfTid, hq] at hproc
    have hset := hthread.named.cacheProcess (r := some q) fun q' hq' => by
      rw [hthread.currentTid, hthread.procOfTid, hq, hq']
    have hnone : ¬(s.currentProcess.isSome = true) := by simp [hcached]
    refine ⟨_, ?_, hthread.trans hset⟩
    rw [getCurrentProcess, StateT.run_bind, StateT.run_get, pure_bind, if_neg hnone,
      run_bind_of hrun, run_bind_of hproc]
    rfl

theorem Named.run_getProcessFromPid (h : Named s) (pid : UInt32) :
    ∃ s', (getProcessFromPid pid).run s = some (procOfPid s pid, s') ∧ Cached s s' := by
  have hfind := h.run_findProc pid
  cases hthread : s.currentThread with
  | none =>
    refine ⟨s, ?_, Cached.refl h⟩
    rw [getProcessFromPid, StateT.run_bind, StateT.run_get, pure_bind, hthread]
    exact hfind
  | some t =>
    have htid := h.cached_thread hthread
    obtain ⟨hlisted, d, hd, hcur⟩ := h.threadOfTid_iff.mp htid
    have hproc := h.procOfTid_of_thread hlisted hd
    rw [hcur] at hproc
    have hmem := h.mem_of_procOfTid hproc
    obtain ⟨p, hp, -⟩ := h.listed.ofProc d.process hmem
    have hof : (processOf (some t) : Handler τ υ _).run s = some (some d.process, s) := by
      rw [processOf, run_bind_of (run_threadAt hd)]
      rfl
    have hstart : (getProcessFromPid pid : Handler τ υ _).run s = (do
        if p.pid = pid then
          modify fun s => { s with currentProcess := some d.process }
          return some d.process
        else findProc pid s.procList : Handler τ υ _).run s := by
      rw [getProcessFromPid, StateT.run_bind, StateT.run_get, pure_bind, hthread,
        run_bind_of hof, run_bind_of (run_procAt hp)]
    rw [hstart]
    by_cases hpid : p.pid = pid
    · rw [if_pos hpid, h.procOfPid_iff.mpr ⟨hmem, p, hp, hpid⟩]
      refine ⟨_, rfl, h.cacheProcess fun q hq => ?_⟩
      rw [hproc, hq]
    · rw [if_neg hpid]
      exact ⟨s, hfind, Cached.refl h⟩

end M2M.Memcheck.Handlers
