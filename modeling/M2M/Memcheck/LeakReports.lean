import M2M.Memcheck.BlockLives

/-! The leaks that are reported at the end of a process are those of its history, whatever the
other processes do: their maps have nothing in common. -/

open M2M.Lib M2M.Lib.Ranged

namespace M2M.Memcheck.Handlers

variable {τ υ : Type} {allocs : RangeTree MallocDescEx τ} {ranges : RangeTree (MMRangeDesc CString) υ}

section Names

variable {s s' : ProcTables τ υ} {q : Nat} {p p' : ProcDesc τ υ}

theorem pid_update {procs : Nat → Option (ProcDesc τ υ)} (hp : procs q = some p)
    (hpid : p'.pid = p.pid) {i : Nat} {p'' : ProcDesc τ υ}
    (hi : Function.update procs q (some p') i = some p'') :
    ∃ p₀, procs i = some p₀ ∧ p₀.pid = p''.pid := by
  by_cases hiq : i = q
  · subst hiq
    rw [Function.update_self] at hi
    cases hi
    exact ⟨p, hp, hpid.symm⟩
  · exact ⟨p'', (Function.update_of_ne hiq ..).symm.trans hi, rfl⟩

theorem Named.setListed (h : Named s) (hp : s.procs q = some p) (hthreads : p'.threads = p.threads)
    (hpid : p'.pid = p.pid) :
    Named { s with procs := Function.update s.procs q (some p') } := by
  refine ⟨h.listed.setListed hp hthreads, h.tids, fun i hi j hj pi pj hpi hpj heq => ?_, h.cache⟩
  obtain ⟨pi', hpi', hi'⟩ := pid_update hp hpid hpi
  obtain ⟨pj', hpj', hj'⟩ := pid_update hp hpid hpj
  exact h.pids i hi j hj pi' pj' hpi' hpj' (hi'.trans (heq.trans hj'.symm))

theorem Named.setUnlisted (h : Named s) (hq : q ∉ s.procList) (hlt : q < s.next)
    (p : Option (ProcDesc τ υ)) :
    Named { s with procs := Function.update s.procs q p } := by
  have hold : ∀ {i}, i ∈ s.procList → Function.update s.procs q p i = s.procs i :=
    fun {i} hi => Function.update_of_ne (fun heq : i = q => hq (heq ▸ hi)) ..
  refine ⟨h.listed.setUnlisted hq hlt p, h.tids, fun i hi j hj pi pj hpi hpj => ?_, h.cache⟩
  exact h.pids i hi j hj pi pj ((hold hi).symm.trans hpi) ((hold hj).symm.trans hpj)

theorem Named.switch (h : Named s) (tid : UInt32) :
    Named { s with currentThread := none, currentProcess := none, currentTid := tid } where
  listed := { h.listed with
    currentThread := fun _ h => nomatch h
    currentProcess := fun _ h => nomatch h }
  tids := h.tids
  pids := h.pids
  cache := fun _ h => nomatch h

/-- A thread with a number that is not in use is added to a process that is in the list, or that
is put there with a pid that is not in use. -/
theorem Named.addThread (h : Named s) {tid : UInt32} {l : List Nat}
    (hlisted : Listed { withThread s q p tid with procList := l })
    (htid : threadOfTid s tid = none) (hcur : tid = s.currentTid → s.currentProcess = none)
    (hpids : ∀ i ∈ l, ∀ j ∈ l, ∀ p₁ p₂, Function.update s.procs q (some p) i = some p₁ →
      Function.update s.procs q (some p) j = some p₂ → p₁.pid = p₂.pid → i = j) :
    Named { withThread s q p tid with procList := l } := by
  have hnext : s.next ∉ s.threadList := fun hmem => Nat.lt_irrefl _ (h.listed.thread_lt hmem)
  have hold : ∀ {i d}, i ∈ s.threadList → (withThread s q p tid).threads i = some d →
      s.threads i = some d := fun {i d} hi hd =>
    (Function.update_of_ne (fun heq : i = s.next => hnext (heq ▸ hi)) ..).symm.trans hd
  have hnew : ∀ {d}, (withThread s q p tid).threads s.next = some d → d.tid = tid := by
    intro d hd
    rw [show (withThread s q p tid).threads s.next = _ from Function.update_self ..] at hd
    cases hd
    rfl
  have hfresh : ∀ {i d}, i ∈ s.threadList → s.threads i = some d → d.tid ≠ tid := by
    intro i d hi hd heq
    rw [h.threadOfTid_iff.mpr ⟨hi, d, hd, heq⟩] at htid
    cases htid
  have hpid : ∀ {i p'}, (withThread s q p tid).procs i = some p' →
      ∃ p₀, Function.update s.procs q (some p) i = some p₀ ∧ p₀.pid = p'.pid := by
    intro i p' hi
    have hself : Function.update s.procs q (some p) q = some p := Function.update_self ..
    have hi' : Function.update (Function.update s.procs q (some p)) q
        (some { p with threads := s.next :: p.threads }) i = some p' := by
      rw [Function.update_idem]
      exact hi
    exact pid_update hself (by rfl) hi'
  refine ⟨hlisted, fun i hi j hj d d' hd hd' heq => ?_, fun i hi j hj pi pj hpi hpj heq => ?_,
    fun i hi j hj d hd heq => ?_⟩
  · rcases List.mem_cons.mp hi with rfl | hi
    · rcases List.mem_cons.mp hj with rfl | hj
      · rfl
      · exact absurd (heq.symm.trans (hnew hd)) (hfresh hj (hold hj hd'))
    · rcases List.mem_cons.mp hj with rfl | hj
      · exact absurd (heq.trans (hnew hd')) (hfresh hi (hold hi hd))
      · exact h.tids i hi j hj d d' (hold hi hd) (hold hj hd') heq
  · obtain ⟨pi', hpi', hi'⟩ := hpid hpi
    obtain ⟨pj', hpj', hj'⟩ := hpid hpj
    exact hpids i hi j hj pi' pj' hpi' hpj' (hi'.trans (heq.trans hj'.symm))
  · rcases List.mem_cons.mp hj with rfl | hj
    · rw [show s.currentProcess = some i from hi] at hcur
      cases hcur ((hnew hd).symm.trans heq)
    · exact h.cache i hi j hj d (hold hj hd) heq

end Names

section Tables

variable {t : Traced τ υ} {s' : ProcTables τ υ} {q : Nat} {p p' : ProcDesc τ υ}

variable (allocs ranges) in
/-- The threads and processes have their own numbers, and each process is as its life says. -/
structure Exact (t : Traced τ υ) : Prop where
  named : Named t.tables
  procs : ∀ q ∈ t.tables.procList, ∀ p, t.tables.procs q = some p →
    ProcExact allocs ranges p (t.lives q)

theorem Exact.cached (h : Exact allocs ranges t) (hcached : Cached t.tables s') :
    Exact allocs ranges ⟨s', t.lives⟩ := by
  refine ⟨hcached.named, fun q hq p hp => h.procs q ?_ p ?_⟩
  · rwa [← hcached.procList]
  · rwa [← hcached.procs]

theorem Exact.setProc (h : Exact allocs ranges t) (hp : t.tables.procs q = some p) {life : Life}
    (hexact : ProcExact allocs ranges p' life) (hthreads : p'.threads = p.threads)
    (hpid : p'.pid = p.pid) :
    Exact allocs ranges ⟨{ t.tables with procs := Function.update t.tables.procs q (some p') },
      Function.update t.lives q life⟩ := by
  refine ⟨h.named.setListed hp hthreads hpid, fun i hi pi hpi => ?_⟩
  change ProcExact allocs ranges pi (Function.update t.lives q life i)
  by_cases hiq : i = q
  · subst hiq
    have hself : Function.update t.tables.procs i (some p') i = some p' := Function.update_self ..
    cases hself.symm.trans hpi
    rw [Function.update_self]
    exact hexact
  · rw [Function.update_of_ne hiq]
    exact h.procs i hi pi ((Function.update_of_ne hiq ..).symm.trans hpi)

end Tables

section Events

variable {t : Traced τ υ} {s s' : ProcTables τ υ} {q : Nat} {p p' : ProcDesc τ υ} {r : Option Nat}
  {e : GuestEvent} {heirs : UInt32 → Bool}

variable (allocs ranges heirs) in
/-- An event is handled as claimed, and what is claimed is left as it was. -/
structure Handled (t : Traced τ υ) (e : GuestEvent) : Prop where
  right : EventRight allocs ranges heirs t e
  exact : Exact allocs ranges (t.step allocs ranges heirs e)

theorem Handled.of_run (hrun : (handleGuest allocs ranges e).run t.tables = some (r, s'))
    (hreport : r = leaksToReport t e)
    (hothers : ∀ q ∈ t.tables.procList, subjectOf t.tables e ≠ some q →
      (s'.procs q).map (·.allocMap) = (t.tables.procs q).map (·.allocMap))
    (hchild : ∀ tgid newPid, e = .fork tgid newPid → ∀ parent ∈ parentOf t.tables tgid newPid,
      ChildRight allocs heirs t.tables s' newPid parent)
    (hexact : Exact allocs ranges ⟨s', record heirs t e⟩) : Handled allocs ranges heirs t e := by
  have hstep : guestStep allocs ranges t.tables e = s' := by rw [guestStep, hrun]
  refine ⟨⟨?_, ?_, ?_⟩, ?_⟩
  · rw [hrun, ← hreport]
    rfl
  · rw [hstep]
    exact hothers
  · rw [hstep]
    exact hchild
  · rw [Traced.step, hstep]
    exact hexact

theorem others_of_update (hcached : Cached t.tables s) (p' : ProcDesc τ υ)
    (hsubject : subjectOf t.tables e = some q) :
    ∀ i ∈ t.tables.procList, subjectOf t.tables e ≠ some i →
      (Function.update s.procs q (some p') i).map (·.allocMap) =
        (t.tables.procs i).map (·.allocMap) := by
  intro i _ hne
  have hiq : i ≠ q := fun heq => hne (heq ▸ hsubject)
  rw [Function.update_of_ne hiq, hcached.procs]

theorem map_update_allocMap {procs : Nat → Option (ProcDesc τ υ)} (hp : procs q = some p)
    (hmap : p'.allocMap = p.allocMap) (i : Nat) :
    (Function.update procs q (some p') i).map (·.allocMap) = (procs i).map (·.allocMap) := by
  by_cases hiq : i = q
  · rw [hiq, Function.update_self, hp, Option.map_some, Option.map_some, hmap]
  · rw [Function.update_of_ne hiq]

theorem handled_switch (h : Exact allocs ranges t) (tid : UInt32) :
    Handled allocs ranges heirs t (.switch tid) := by
  have hdone : (handleGuest allocs ranges (.switch tid)).run t.tables = some (none, { t.tables with
      currentThread := none
      currentProcess := none
      currentTid := tid }) := rfl
  exact .of_run hdone rfl (fun _ _ _ => rfl) (fun _ _ h => by cases h)
    ⟨h.named.switch tid, h.procs⟩

theorem handled_guestAlloc (h : Exact allocs ranges t) {mallocDesc : MallocDesc}
    (hadm : Admissible t (.guestAlloc mallocDesc)) :
    Handled allocs ranges heirs t (.guestAlloc mallocDesc) := by
  obtain ⟨hcur, hblock⟩ := hadm
  obtain ⟨s₁, hrun, hcached⟩ := h.named.run_getProcessFromPid mallocDesc.allocatorPid
  cases hq : procOfPid t.tables mallocDesc.allocatorPid with
  | none =>
    rw [hq] at hrun
    have hdone : (handleGuest allocs ranges (.guestAlloc mallocDesc)).run t.tables =
        some (none, s₁) := by
      rw [handleGuest, memcheckGuestAlloc, StateT.run_bind, run_bind_of hrun]
      rfl
    refine .of_run hdone rfl (fun _ _ _ => by rw [hcached.procs]) (fun _ _ h => by cases h) ?_
    rw [record, hq]
    exact h.cached hcached
  | some q =>
    rw [hq] at hrun
    obtain ⟨hlisted, p, hp, -⟩ := h.named.procOfPid_iff.mp hq
    obtain ⟨hvalid, hfree⟩ := hblock q hq
    obtain ⟨s₂, hthread, hcached'⟩ := hcached.named.run_getCurrentThread
    obtain ⟨i, hi⟩ := Option.isSome_iff_exists.mp hcur
    rw [hcached.currentTid, hcached.threadOfTid, hi] at hthread
    have hall := hcached.trans hcached'
    obtain ⟨-, d, hd, -⟩ := hall.named.threadOfTid_iff.mp ((hall.threadOfTid _).trans hi)
    have hp₁ : s₁.procs q = some p := hcached.procs ▸ hp
    have hp₂ : s₂.procs q = some p := hall.procs ▸ hp
    have hdone : (handleGuest allocs ranges (.guestAlloc mallocDesc)).run t.tables =
        some (none, { s₂ with procs := Function.update s₂.procs q (some { p with
          allocMap := (allocmapInsert allocs p.allocMap
            { mallocDesc
              callStack := d.callStack.reverse.map fun entry => entry.callAddress
              flags := if p.isExecuting then 0 else mdescFlagTransitionEntry } true).map }) }) := by
      rw [handleGuest, memcheckGuestAlloc, StateT.run_bind, run_bind_of hrun,
        run_bind_of (run_procAt hp₁), run_bind_of hthread, run_bind_of (run_deref i),
        run_bind_of (run_threadAt hd)]
      rfl
    have hexact := (h.cached hall).setProc hp₂
      ((h.procs q hlisted p hp).alloc hvalid hfree
        (d.callStack.reverse.map fun entry => entry.callAddress)) rfl rfl
    refine .of_run hdone rfl (others_of_update hall _ (e := .guestAlloc mallocDesc) hq)
      (fun _ _ h => by cases h) ?_
    rw [record, hq]
    exact hexact

theorem handled_guestFree (h : Exact allocs ranges t) (adesc : MallocDescEx)
    (ptr freePid : UInt32) : Handled allocs ranges heirs t (.guestFree adesc ptr freePid) := by
  obtain ⟨s₁, hrun, hcached⟩ := h.named.run_getProcessFromPid freePid
  cases hq : procOfPid t.tables freePid with
  | none =>
    rw [hq] at hrun
    have hdone : (handleGuest allocs ranges (.guestFree adesc ptr freePid)).run t.tables =
        some (none, s₁) := by
      rw [handleGuest, memcheckGuestFree, StateT.run_bind, run_bind_of hrun]
      rfl
    refine .of_run hdone rfl (fun _ _ _ => by rw [hcached.procs]) (fun _ _ h => by cases h) ?_
    rw [record, hq]
    exact h.cached hcached
  | some q =>
    rw [hq] at hrun
    obtain ⟨hlisted, p, hp, -⟩ := h.named.procOfPid_iff.mp hq
    have hp₁ : s₁.procs q = some p := hcached.procs ▸ hp
    obtain ⟨map, hmap⟩ : ∃ map,
        map = ((allocmapPull allocs p.allocMap adesc ptr).map Prod.snd).getD p.allocMap := ⟨_, rfl⟩
    have hdone : (handleGuest allocs ranges (.guestFree adesc ptr freePid)).run t.tables =
        some (none, { s₁ with
          procs := Function.update s₁.procs q (some { p with allocMap := map }) }) := by
      rw [handleGuest, memcheckGuestFree, StateT.run_bind, run_bind_of hrun,
        run_bind_of (run_procAt hp₁)]
      cases hpull : allocmapPull allocs p.allocMap adesc ptr with
      | none =>
        have hsame : Function.update s₁.procs q (some p) = s₁.procs := by
          rw [← hp₁, Function.update_eq_self]
        rw [hpull] at hmap
        rw [hmap, Option.map_none, Option.getD_none, hsame]
        rfl
      | some out =>
        rw [hpull] at hmap
        rw [hmap]
        rfl
    have hexact := (h.cached hcached).setProc hp₁
      ((h.procs q hlisted p hp).free adesc ptr hmap) rfl rfl
    refine .of_run hdone rfl (others_of_update hcached _ (e := .guestFree adesc ptr freePid) hq)
      (fun _ _ h => by cases h) ?_
    rw [record, hq]
    exact hexact

theorem handled_guestLibcInitialized (h : Exact allocs ranges t) (pid : UInt32) :
    Handled allocs ranges heirs t (.guestLibcInitialized pid) := by
  obtain ⟨s₁, hrun, hcached⟩ := h.named.run_getProcessFromPid pid
  cases hq : procOfPid t.tables pid with
  | none =>
    rw [hq] at hrun
    have hdone : (handleGuest allocs ranges (.guestLibcInitialized pid)).run t.tables =
        some (none, s₁) := by
      rw [handleGuest, memcheckGuestLibcInitialized, StateT.run_bind, run_bind_of hrun]
      rfl
    refine .of_run hdone rfl (fun _ _ _ => by rw [hcached.procs]) (fun _ _ h => by cases h) ?_
    rw [record, hq]
    exact h.cached hcached
  | some q =>
    rw [hq] at hrun
    obtain ⟨hlisted, p, hp, -⟩ := h.named.procOfPid_iff.mp hq
    have hp₁ : s₁.procs q = some p := hcached.procs ▸ hp
    have hdone : (handleGuest allocs ranges (.guestLibcInitialized pid)).run t.tables =
        some (none, { s₁ with procs := Function.update s₁.procs q (some { p with
          flags := p.flags ||| procFlagLibcInitialized
          allocMap :=
            allocmapEmpty allocs (allocs.entries p.allocMap).length p.allocMap }) }) := by
      rw [handleGuest, memcheckGuestLibcInitialized, StateT.run_bind, run_bind_of hrun,
        run_bind_of (run_procAt hp₁)]
      rfl
    have hexact := (h.cached hcached).setProc hp₁ (h.procs q hlisted p hp).libcInit rfl rfl
    refine .of_run hdone rfl (others_of_update hcached _ (e := .guestLibcInitialized pid) hq)
      (fun _ _ h => by cases h) ?_
    rw [record, hq]
    exact hexact

theorem run_setImagePath_of (hp : s.procs q = some p) (imagePath : Option CString)
    (flags : UInt32) : ∃ p' : ProcDesc τ υ,
      (setImagePath q imagePath flags : Handler τ υ _).run s =
        some ((), { s with procs := Function.update s.procs q (some p') }) ∧
      (p' = p ∨ p' = { p with imagePath, flags := p.flags ||| flags }) := by
  have hsame : Function.update s.procs q (some p) = s.procs := by
    rw [← hp, Function.update_eq_self]
  have hkept : s = { s with procs := Function.update s.procs q (some p) } := by rw [hsame]
  cases imagePath with
  | none => exact ⟨p, congrArg (fun s => some ((), s)) hkept, .inl rfl⟩
  | some path =>
    have hstart : (setImagePath q (some path) flags : Handler τ υ _).run s =
        (if p.imagePath = some path then return ()
        else setProc q { p with imagePath := some path, flags := p.flags ||| flags } :
          Handler τ υ _).run s := by
      rw [setImagePath, run_bind_of (run_procAt hp)]
    rw [hstart]
    split
    · exact ⟨p, congrArg (fun s => some ((), s)) hkept, .inl rfl⟩
    · exact ⟨_, rfl, .inr rfl⟩

theorem handled_setCmdLine (h : Exact allocs ranges t) {cmdArg : List UInt8} {cmdlen : Nat}
    (hadm : Admissible t (.setCmdLine cmdArg cmdlen)) :
    Handled allocs ranges heirs t (.setCmdLine cmdArg cmdlen) := by
  obtain ⟨i, hi⟩ := Option.isSome_iff_exists.mp hadm
  obtain ⟨hthread, d, hd, htid⟩ := h.named.threadOfTid_iff.mp hi
  have hq := h.named.procOfTid_of_thread hthread hd
  rw [htid] at hq
  obtain ⟨s₁, hrun, hcached⟩ := h.named.run_getCurrentProcess hq
  have hlisted := h.named.mem_of_procOfTid hq
  obtain ⟨p, hp, -⟩ := h.named.listed.ofProc _ hlisted
  have hp₁ : s₁.procs d.process = some p := hcached.procs ▸ hp
  obtain ⟨p', hset, hp'⟩ := run_setImagePath_of hp₁ (some (firstArgument cmdArg cmdlen))
    procFlagImagePathReplaced
  have hexact := h.procs _ hlisted p hp
  have hranges : mmrangemapEmpty ranges (ranges.entries p'.mmrangeMap).length p'.mmrangeMap =
      p.mmrangeMap := by
    have hsame : p'.mmrangeMap = p.mmrangeMap := by
      rcases hp' with rfl | rfl <;> rfl
    rw [hsame, hexact.noRanges]
    rfl
  have hdone : (handleGuest allocs ranges (.setCmdLine cmdArg cmdlen)).run t.tables =
      some (none, { s₁ with procs := Function.update s₁.procs d.process (some { p' with
        flags := p'.flags ||| procFlagExecuting
        mmrangeMap := p.mmrangeMap }) }) := by
    rw [handleGuest, memcheckSetCmdLine, StateT.run_bind, run_bind_of hrun, run_bind_of hset,
      run_bind_of (run_procAt (Function.update_self ..)), run_setProc, hranges,
      Function.update_idem]
    rfl
  have hnext : ProcExact allocs ranges { p' with
      flags := p'.flags ||| procFlagExecuting
      mmrangeMap := p.mmrangeMap } ((t.lives d.process).add .exec) := by
    refine hexact.exec ?_ hexact.noRanges ?_
    · rcases hp' with rfl | rfl <;> rfl
    · exact (isExecuting_or _ _).mpr (.inr (by decide))
  refine .of_run hdone rfl (fun i hi _ => ?_) (fun _ _ h => by cases h) ?_
  · rw [map_update_allocMap hp₁, hcached.procs]
    rcases hp' with rfl | rfl <;> rfl
  · rw [record, hq]
    refine (h.cached hcached).setProc hp₁ hnext ?_ ?_
    · rcases hp' with rfl | rfl <;> rfl
    · rcases hp' with rfl | rfl <;> rfl

end Events

section Parents

variable {t : Traced τ υ} {s s' : ProcTables τ υ} {q : Nat} {p : ProcDesc τ υ}
  {tgid newId : UInt32} {heirs : UInt32 → Bool}

theorem Named.isSome_procOfTid (h : Named s) {tid : UInt32} (htid : (threadOfTid s tid).isSome) :
    (procOfTid s tid).isSome := by
  obtain ⟨i, hi⟩ := Option.isSome_iff_exists.mp htid
  obtain ⟨hthread, d, hd, rfl⟩ := h.threadOfTid_iff.mp hi
  rw [h.procOfTid_of_thread hthread hd]
  rfl

theorem Named.run_parentProcess (h : Named s) (hcur : (threadOfTid s s.currentTid).isSome)
    (tgid newId : UInt32) : ∃ s', (parentProcess tgid newId : Handler τ υ _).run s =
      some (parentOf s tgid newId, s') ∧ Cached s s' := by
  rw [parentProcess, parentOf]
  split
  · obtain ⟨q, hq⟩ := Option.isSome_iff_exists.mp (h.isSome_procOfTid hcur)
    rw [hq]
    exact h.run_getCurrentProcess hq
  · exact h.run_getProcessFromTid tgid

theorem Named.run_withParent_none (h : Named s) (hcur : (threadOfTid s s.currentTid).isSome)
    (hnone : parentOf s tgid newId = none) (create : Nat → Handler τ υ Unit) :
    ∃ s', (withParent tgid newId create).run s = some ((), s') ∧ Cached s s' := by
  obtain ⟨s', hrun, hcached⟩ := h.run_parentProcess hcur tgid newId
  refine ⟨s', ?_, hcached⟩
  rw [withParent, run_bind_of hrun, hnone]
  rfl

theorem Named.run_withParent_some (h : Named s) (hcur : (threadOfTid s s.currentTid).isSome)
    (hparent : parentOf s tgid newId = some q) :
    ∃ s', Cached s s' ∧ ∀ create : Nat → Handler τ υ Unit,
      (withParent tgid newId create).run s = (create q).run s' := by
  obtain ⟨s₁, hrun, hcached⟩ := h.run_parentProcess hcur tgid newId
  obtain ⟨p, hp, -⟩ := h.listed.ofProc q (h.mem_of_procOfTid hparent)
  have hp₁ : s₁.procs q = some p := hcached.procs ▸ hp
  obtain ⟨c, hc⟩ := Option.isSome_iff_exists.mp (h.isSome_procOfTid hcur)
  have hc₁ : procOfTid s₁ s₁.currentTid = some c := by
    rw [hcached.currentTid, hcached.procOfTid, hc]
  obtain ⟨s₂, hrun', hcached'⟩ := hcached.named.run_getCurrentProcess hc₁
  have hall := hcached.trans hcached'
  obtain ⟨pc, hpc, -⟩ := h.listed.ofProc c (h.mem_of_procOfTid hc)
  have hpc₂ : s₂.procs c = some pc := hall.procs ▸ hpc
  refine ⟨s₂, hall, fun create => ?_⟩
  rw [withParent, run_bind_of hrun, hparent]
  exact (run_bind_of (run_procAt hp₁)).trans ((run_bind_of hrun').trans
    ((run_bind_of (run_deref c)).trans (run_bind_of (run_procAt hpc₂))))

theorem ne_currentTid (hcur : (threadOfTid s s.currentTid).isSome) {tid : UInt32}
    (htid : threadOfTid s tid = none) : tid ≠ s.currentTid := by
  rintro rfl
  rw [htid] at hcur
  cases hcur

theorem handled_clone (h : Exact allocs ranges t) {tgid newTid : UInt32}
    (hadm : Admissible t (.clone tgid newTid)) :
    Handled allocs ranges heirs t (.clone tgid newTid) := by
  obtain ⟨hcur, htid⟩ := hadm
  cases hparent : parentOf t.tables tgid newTid with
  | none =>
    obtain ⟨s', hrun, hcached⟩ := h.named.run_withParent_none hcur hparent fun parentProc => do
      let _ ← createNewThread parentProc newTid
      return ()
    have hdone : (handleGuest allocs ranges (.clone tgid newTid)).run t.tables =
        some (none, s') := by
      rw [handleGuest, memcheckClone, run_bind_of hrun]
      rfl
    exact .of_run hdone rfl (fun _ _ _ => by rw [hcached.procs]) (fun _ _ h => by cases h)
      (h.cached hcached)
  | some q =>
    obtain ⟨s', hcached, hrun⟩ := h.named.run_withParent_some hcur hparent
    have hlisted := h.named.mem_of_procOfTid hparent
    obtain ⟨p, hp, -⟩ := h.named.listed.ofProc q hlisted
    have hp' : s'.procs q = some p := hcached.procs ▸ hp
    have hq' : q ∈ s'.procList := hcached.procList ▸ hlisted
    have hdone : (handleGuest allocs ranges (.clone tgid newTid)).run t.tables =
        some (none, withThread s' q p newTid) := by
      rw [handleGuest, memcheckClone]
      refine (run_bind_of ((hrun _).trans (run_bind_of (run_createNewThread hp' newTid)))).trans ?_
      rfl
    have hnamed : Named (withThread s' q p newTid) := by
      have hn := hcached.named
      have hnext := hn.listed.addThread (hn.listed.owns hq' hp') (hn.listed.proc_lt hq') newTid
        hn.listed.procsNodup fun x => (or_iff_right_of_imp fun hx => hx ▸ hq').symm
      have hsame : Function.update s'.procs q (some p) = s'.procs := by
        rw [← hp', Function.update_eq_self]
      refine hn.addThread hnext ?_ ?_ ?_
      · rw [hcached.threadOfTid, htid]
      · rw [hcached.currentTid]
        exact fun heq => absurd heq (ne_currentTid hcur htid)
      · rw [hsame]
        exact hn.pids
    refine .of_run hdone rfl (fun i _ _ => ?_) (fun _ _ h => by cases h)
      ⟨hnamed, fun i hi pi hpi => ?_⟩
    · refine (map_update_allocMap hp' ?_ i).trans (by rw [hcached.procs])
      rfl
    · have hold := h.procs i (hcached.procList ▸ hi)
      by_cases hiq : i = q
      · subst hiq
        have hself : (withThread s' i p newTid).procs i = _ := Function.update_self ..
        cases hself.symm.trans hpi
        exact (hold p hp).congr rfl rfl Iff.rfl
      · refine hold pi ?_
        rw [← hcached.procs]
        exact (Function.update_of_ne hiq ..).symm.trans hpi

theorem Named.erase_eq_nil_iff (h : Named s) {i : Nat} (hi : threadOfTid s s.currentTid = some i)
    (hq : q ∈ s.procList) (hp : s.procs q = some p) : p.threads.erase i = [] ↔ IsLast s q := by
  have howns := h.listed.owns hq hp
  rw [List.eq_nil_iff_forall_not_mem]
  constructor
  · intro hnone j hj hproc
    obtain ⟨d, hd, hdq⟩ := (Option.any_eq_true ..).mp hproc
    have hmem := (howns.mem_iff j).mpr ⟨hj, d, hd, of_decide_eq_true hdq⟩
    have hji : j = i := by
      by_contra hne
      exact hnone j (howns.nodup.mem_erase_iff.mpr ⟨hne, hmem⟩)
    obtain ⟨-, d', hd', htid⟩ := h.threadOfTid_iff.mp hi
    exact (Option.any_eq_true ..).mpr ⟨d', hji ▸ hd', decide_eq_true htid⟩
  · intro hlast j hj
    obtain ⟨hne, hmem⟩ := howns.nodup.mem_erase_iff.mp hj
    obtain ⟨hlisted, d, hd, hdq⟩ := (howns.mem_iff j).mp hmem
    have htid := hlast j hlisted ((Option.any_eq_true ..).mpr ⟨d, hd, decide_eq_true hdq⟩)
    obtain ⟨d', hd', hdtid⟩ := (Option.any_eq_true ..).mp htid
    have hji := h.threadOfTid_iff.mpr ⟨hlisted, d', hd', of_decide_eq_true hdtid⟩
    exact hne (Option.some.inj (hji.symm.trans hi))

theorem Exact.withoutThread (h : Exact allocs ranges t) {i : Nat} {d : ThreadDesc}
    (hd : t.tables.threads i = some d) (hq : d.process ∈ t.tables.procList)
    (hp : t.tables.procs d.process = some p) :
    Exact allocs ranges ⟨withoutThread t.tables i d.process p, t.lives⟩ := by
  have hn := h.named
  have hold : ∀ {j dj}, j ∈ t.tables.threadList.erase i →
      (Handlers.withoutThread t.tables i d.process p).threads j = some dj →
        j ∈ t.tables.threadList ∧ t.tables.threads j = some dj := by
    intro j dj hj hdj
    obtain ⟨hne, hmem⟩ := hn.listed.threadsNodup.mem_erase_iff.mp hj
    exact ⟨hmem, (Function.update_of_ne hne ..).symm.trans hdj⟩
  refine ⟨⟨hn.listed.removeThread hd hp hq, fun j hj k hk dj dk hdj hdk => ?_,
    fun j hj k hk pj pk hpj hpk heq => ?_, fun x hx j hj dj hdj => ?_⟩, fun j hj pj hpj => ?_⟩
  · obtain ⟨hj', hdj'⟩ := hold hj hdj
    obtain ⟨hk', hdk'⟩ := hold hk hdk
    exact hn.tids j hj' k hk' dj dk hdj' hdk'
  · obtain ⟨pj', hpj', hj'⟩ := pid_update hp (by rfl) hpj
    obtain ⟨pk', hpk', hk'⟩ := pid_update hp (by rfl) hpk
    exact hn.pids j hj k hk pj' pk' hpj' hpk' (hj'.trans (heq.trans hk'.symm))
  · obtain ⟨hj', hdj'⟩ := hold hj hdj
    exact hn.cache x hx j hj' dj hdj'
  · by_cases hjq : j = d.process
    · subst hjq
      have hself : (Handlers.withoutThread t.tables i d.process p).procs d.process = _ :=
        Function.update_self ..
      cases hself.symm.trans hpj
      exact (h.procs _ hq p hp).congr rfl rfl Iff.rfl
    · exact h.procs j hj pj ((Function.update_of_ne hjq ..).symm.trans hpj)

theorem Exact.withoutProc (h : Exact allocs ranges t) (hp : t.tables.procs q = some p)
    (hthreads : p.threads = []) (hq : q ∈ t.tables.procList) :
    Exact allocs ranges ⟨withoutProc t.tables q, t.lives⟩ := by
  have hn := h.named
  have hold : ∀ {j pj}, j ∈ t.tables.procList.erase q →
      (Handlers.withoutProc t.tables q).procs j = some pj →
        j ∈ t.tables.procList ∧ t.tables.procs j = some pj := by
    intro j pj hj hpj
    obtain ⟨hne, hmem⟩ := hn.listed.procsNodup.mem_erase_iff.mp hj
    exact ⟨hmem, (Function.update_of_ne hne ..).symm.trans hpj⟩
  refine ⟨⟨hn.listed.removeProcess hp hthreads hq, hn.tids,
    fun j hj k hk pj pk hpj hpk => ?_, fun _ hx => nomatch hx⟩, fun j hj pj hpj => ?_⟩
  · obtain ⟨hj', hpj'⟩ := hold hj hpj
    obtain ⟨hk', hpk'⟩ := hold hk hpk
    exact hn.pids j hj' k hk' pj pk hpj' hpk'
  · obtain ⟨hj', hpj'⟩ := hold hj hpj
    exact h.procs j hj' pj hpj'

theorem handled_exit (h : Exact allocs ranges t) {exitCode : UInt32}
    (hadm : Admissible t (.exit exitCode)) : Handled allocs ranges heirs t (.exit exitCode) := by
  obtain ⟨i, hi⟩ := Option.isSome_iff_exists.mp hadm
  obtain ⟨hthread, d, hd, htid⟩ := h.named.threadOfTid_iff.mp hi
  have hq := h.named.procOfTid_of_thread hthread hd
  rw [htid] at hq
  have hlisted := h.named.mem_of_procOfTid hq
  obtain ⟨p, hp, -⟩ := h.named.listed.ofProc _ hlisted
  obtain ⟨s₁, hrun, hcached⟩ := h.named.run_getCurrentThread
  rw [hi] at hrun
  have hd₁ : s₁.threads i = some d := by
    rw [hcached.same]
    exact hd
  have hp₁ : s₁.procs d.process = some p := hcached.procs ▸ hp
  have hq₁ : d.process ∈ s₁.procList := hcached.procList ▸ hlisted
  have hremoved := (h.cached hcached).withoutThread hd₁ hq₁ hp₁
  have hdone : (handleGuest allocs ranges (.exit exitCode)).run t.tables = _ :=
    run_memcheckExit allocs hrun hd₁ hp₁
  have hempty := h.named.erase_eq_nil_iff hi hlisted hp
  have hothers := others_of_update hcached { p with threads := p.threads.erase i }
    (e := .exit exitCode) hq
  have hreport : leaksToReport t (.exit exitCode) =
      if p.threads.erase i = [] then some (t.lives d.process).leaks else none := by
    rw [leaksToReport, hq, Option.bind_some]
    simp only [hempty]
  by_cases hlast : p.threads.erase i = []
  · rw [if_pos hlast] at hdone hreport
    refine .of_run hdone ?_ (fun j hj hne => ?_) (fun _ _ h => by cases h) ?_
    · rw [hreport, (h.procs _ hlisted p hp).leaksReported]
    · have hjq : j ≠ d.process := fun heq => hne (heq ▸ hq)
      refine Eq.trans (congrArg _ ?_) (hothers j hj hne)
      exact Function.update_of_ne hjq ..
    · exact hremoved.withoutProc (Function.update_self ..) hlast hq₁
  · rw [if_neg hlast] at hdone hreport
    exact .of_run hdone hreport.symm hothers (fun _ _ h => by cases h) hremoved

end Parents

section Forks

variable {t : Traced τ υ} {s s' : ProcTables τ υ} {q : Nat} {p : ProcDesc τ υ} {pid : UInt32}

variable (allocs ranges) in
/-- A process that has just been made, with its blocks. -/
structure Newborn (pid : UInt32) (blocks : List MallocDescEx) (p : ProcDesc τ υ) : Prop where
  pid : p.pid = pid
  threads : p.threads = []
  noRanges : ranges.entries p.mmrangeMap = []
  idle : ¬p.isExecuting
  blocks : allocs.entries p.allocMap = blocks

/-- The descriptor that `create_new_process` begins with. -/
def blankProc (allocs : RangeTree MallocDescEx τ) (ranges : RangeTree (MMRangeDesc CString) υ)
    (pid parentPid : UInt32) : ProcDesc τ υ where
  allocMap := allocs.empty
  mmrangeMap := ranges.empty
  threads := []
  imagePath := none
  pid
  parentPid
  flags := 0

def begun (s : ProcTables τ υ) (p : ProcDesc τ υ) : ProcTables τ υ :=
  { s with next := s.next + 1, procs := Function.update s.procs s.next (some p) }

variable (allocs ranges) in
theorem newborn_blankProc (pid parentPid : UInt32) :
    Newborn allocs ranges pid [] (blankProc allocs ranges pid parentPid) where
  pid := rfl
  threads := rfl
  noRanges := ranges.entries_empty
  idle := by simp [ProcDesc.isExecuting, blankProc]
  blocks := allocs.entries_empty

theorem Named.next_not_mem (h : Named s) : s.next ∉ s.procList :=
  fun hmem => Nat.lt_irrefl _ (h.listed.proc_lt hmem)

theorem Named.begun (h : Named s) (p : ProcDesc τ υ) : Named (begun s p) := by
  have hnext : Named { s with next := s.next + 1 } :=
    { h with listed := { h.listed with fresh := fun i hi => h.listed.fresh i (Nat.le_of_succ_le hi) } }
  exact hnext.setUnlisted h.next_not_mem (Nat.lt_succ_self _) (some p)

variable (allocs ranges) in
theorem run_copyMaps_of {parent : Nat} {pp : ProcDesc τ υ} (hpp : s.procs parent = some pp)
    (hp : s.procs q = some p) (hempty : p.allocMap = allocs.empty)
    (hblocks : Blocks (allocs.entries pp.allocMap)) (hranges : ranges.entries pp.mmrangeMap = []) :
    ∃ map, (copyMaps allocs ranges q parent).run s = some (true, { s with
        procs := Function.update s.procs q (some { p with allocMap := map }) }) ∧
      allocs.entries map = (allocs.entries pp.allocMap).map inheritedCopy := by
  obtain ⟨hdone, hmap⟩ := hblocks.inherited allocs
  refine ⟨_, ?_, hmap⟩
  rw [copyMaps, run_bind_of (run_procAt hpp), run_bind_of (run_procAt hp), hempty, hranges]
  dsimp only
  rw [if_neg (not_not.mpr hdone)]
  rfl

theorem run_inheritMaps_of (h : Named s) {p₀ : ProcDesc τ υ}
    (hnew : Newborn allocs ranges pid [] p₀) (hempty : p₀.allocMap = allocs.empty)
    {parentPid : UInt32} {blocks : List MallocDescEx}
    (hparent : if parentPid = 0 then blocks = [] else
      ∃ parent pp, procOfPid s parentPid = some parent ∧ s.procs parent = some pp ∧
        Blocks (allocs.entries pp.allocMap) ∧ ranges.entries pp.mmrangeMap = [] ∧
        blocks = (allocs.entries pp.allocMap).map inheritedCopy) :
    ∃ s' p, (inheritMaps allocs ranges s.next parentPid).run (begun s p₀) = some (true, s') ∧
      Cached (begun s p) s' ∧ Newborn allocs ranges pid blocks p := by
  rw [inheritMaps]
  split at hparent
  · next hzero =>
    rw [if_pos hzero, hparent]
    exact ⟨begun s p₀, p₀, rfl, Cached.refl (h.begun p₀), hnew⟩
  · next hzero =>
    obtain ⟨parent, pp, hfound, hpp, hblocks, hranges, rfl⟩ := hparent
    rw [if_neg hzero]
    obtain ⟨s₁, hrun, hcached⟩ := (h.begun p₀).run_getProcessFromPid parentPid
    have hne : parent ≠ s.next := by
      rintro rfl
      exact h.next_not_mem (h.procOfPid_iff.mp hfound).1
    have hself : (begun s p₀).procs s.next = some p₀ := Function.update_self ..
    have hother : (begun s p₀).procs parent = some pp := (Function.update_of_ne hne ..).trans hpp
    have hfound' : procOfPid (begun s p₀) parentPid = some parent :=
      (h.begun p₀).procOfPid_iff.mpr
        ⟨(h.procOfPid_iff.mp hfound).1, pp, hother, by
          obtain ⟨-, p', hp', hpid⟩ := h.procOfPid_iff.mp hfound
          rw [hpp] at hp'
          cases hp'
          exact hpid⟩
    rw [hfound'] at hrun
    obtain ⟨map, hcopy, hmap⟩ := run_copyMaps_of allocs ranges
      (s := s₁) (q := s.next) (hcached.procs ▸ hother) (hcached.procs ▸ hself) hempty hblocks hranges
    refine ⟨_, { p₀ with allocMap := map }, (run_bind_of hrun).trans hcopy, ⟨?_, ?_⟩, ?_⟩
    · refine hcached.named.setUnlisted ?_ ?_ _
      · rw [hcached.procList]
        exact h.next_not_mem
      · rw [hcached.next]
        exact Nat.lt_succ_self _
    · have hprocs : Function.update s₁.procs s.next (some { p₀ with allocMap := map }) =
          (begun s { p₀ with allocMap := map }).procs := by
        rw [hcached.procs]
        exact Function.update_idem ..
      rw [hprocs, hcached.same]
      rfl
    · exact ⟨hnew.pid, hnew.threads, hnew.noRanges, hnew.idle, hmap⟩

def withProcess (s : ProcTables τ υ) (q : Nat) (p : ProcDesc τ υ) : ProcTables τ υ :=
  { withThread s q p p.pid with procList := q :: s.procList }

theorem run_createNewProcess_inherited {parentPid : UInt32}
    (hrun : (inheritMaps allocs ranges s.next parentPid).run
      (begun s (blankProc allocs ranges pid parentPid)) = some (true, s'))
    (hp : s'.procs s.next = some p) (hpid : p.pid = pid) :
    (createNewProcess allocs ranges pid parentPid).run s =
      some (some s.next, withProcess s' s.next p) := by
  have hstart : (createNewProcess allocs ranges pid parentPid).run s =
      (do
        let inherited ← inheritMaps allocs ranges s.next parentPid
        if inherited then
          let _ ← createNewThread s.next pid
          modify fun s' => { s' with procList := s.next :: s'.procList }
          return some s.next
        else
          freeProc s.next
          return none : Handler τ υ _).run (begun s (blankProc allocs ranges pid parentPid)) := rfl
  rw [hstart, run_bind_of hrun, if_pos rfl, run_bind_of (run_createNewThread hp pid), ← hpid]
  rfl

variable (allocs ranges) in
theorem run_createNewProcess_of (h : Named s) (pid : UInt32) {parentPid : UInt32}
    {blocks : List MallocDescEx} (hparent : if parentPid = 0 then blocks = [] else
      ∃ parent pp, procOfPid s parentPid = some parent ∧ s.procs parent = some pp ∧
        Blocks (allocs.entries pp.allocMap) ∧ ranges.entries pp.mmrangeMap = [] ∧
        blocks = (allocs.entries pp.allocMap).map inheritedCopy) :
    ∃ s' p, (createNewProcess allocs ranges pid parentPid).run s =
        some (some s.next, withProcess s' s.next p) ∧
      Cached (begun s p) s' ∧ Newborn allocs ranges pid blocks p := by
  obtain ⟨s', p, hrun, hcached, hnew⟩ :=
    run_inheritMaps_of h (newborn_blankProc allocs ranges pid parentPid) rfl
      hparent
  refine ⟨s', p, run_createNewProcess_inherited hrun ?_ hnew.pid, hcached, hnew⟩
  rw [hcached.procs]
  exact Function.update_self ..

theorem Named.withProcess (h : Named s) (hcached : Cached (Handlers.begun s p) s') (hthreads : p.threads = [])
    (hpid : procOfPid s p.pid = none) (htid : threadOfTid s p.pid = none)
    (hcur : p.pid = s.currentTid → s'.currentProcess = none) : Named (Handlers.withProcess s' s.next p) := by
  have hn := hcached.named
  have hq : s.next ∉ s'.procList := by
    rw [hcached.procList]
    exact h.next_not_mem
  have hp : s'.procs s.next = some p := by
    rw [hcached.procs]
    exact Function.update_self ..
  have hlt : s.next < s'.next := by
    rw [hcached.next]
    exact Nat.lt_succ_self _
  have hlisted := hn.listed.addThread (hn.listed.owns_unlisted hq hthreads)
    hlt p.pid
    (List.nodup_cons.mpr ⟨hq, hn.listed.procsNodup⟩) fun x => List.mem_cons
  have hfresh : ∀ {i pi}, i ∈ s'.procList → s'.procs i = some pi → pi.pid ≠ p.pid := by
    intro i pi hi hpi heq
    rw [hcached.procList] at hi
    have hne : i ≠ s.next := fun hin => h.next_not_mem (hin ▸ hi)
    have hold : s.procs i = some pi := by
      rw [hcached.procs] at hpi
      exact (Function.update_of_ne hne ..).symm.trans hpi
    rw [h.procOfPid_iff.mpr ⟨hi, pi, hold, heq⟩] at hpid
    cases hpid
  have hsame : Function.update s'.procs s.next (some p) = s'.procs := by
    rw [← hp, Function.update_eq_self]
  refine hn.addThread hlisted ?_ ?_ ?_
  · rw [hcached.threadOfTid]
    exact htid
  · rw [hcached.currentTid]
    exact hcur
  · rw [hsame]
    intro i hi j hj pi pj hpi hpj heq
    rcases List.mem_cons.mp hi with rfl | hi
    · rcases List.mem_cons.mp hj with rfl | hj
      · rfl
      · cases hp.symm.trans hpi
        exact absurd heq.symm (hfresh hj hpj)
    · rcases List.mem_cons.mp hj with rfl | hj
      · cases hp.symm.trans hpj
        exact absurd heq (hfresh hi hpi)
      · exact hn.pids i hi j hj pi pj hpi hpj heq

theorem withProcess_procs_of_ne (hcached : Cached (begun s p) s') {i : Nat} (hi : i ≠ s.next) :
    (withProcess s' s.next p).procs i = s.procs i := by
  have hold : s'.procs i = s.procs i := by
    rw [hcached.procs]
    exact Function.update_of_ne hi ..
  rw [← hold]
  exact Function.update_of_ne hi ..

theorem Exact.withProcess (h : Exact allocs ranges t) (hcached : Cached (begun t.tables p) s')
    (hthreads : p.threads = []) (hpid : procOfPid t.tables p.pid = none)
    (htid : threadOfTid t.tables p.pid = none) 
    (hcur : p.pid = t.tables.currentTid → s'.currentProcess = none) {life : Life}
    (hexact : ProcExact allocs ranges p life) :
    Exact allocs ranges
      ⟨withProcess s' t.tables.next p, Function.update t.lives t.tables.next life⟩ := by
  refine ⟨h.named.withProcess hcached hthreads hpid htid hcur, fun i hi pi hpi => ?_⟩
  change ProcExact allocs ranges pi (Function.update t.lives t.tables.next life i)
  rcases List.mem_cons.mp hi with rfl | hi
  · have hself : (Handlers.withProcess s' t.tables.next p).procs t.tables.next = _ :=
      Function.update_self ..
    cases hself.symm.trans hpi
    rw [Function.update_self]
    exact hexact.congr rfl rfl Iff.rfl
  · rw [hcached.procList] at hi
    have hne : i ≠ t.tables.next := fun heq => h.named.next_not_mem (heq ▸ hi)
    rw [Function.update_of_ne hne]
    exact h.procs i hi pi ((withProcess_procs_of_ne hcached hne).symm.trans hpi)

theorem handled_fork (h : Exact allocs ranges t) {tgid newPid : UInt32}
    (hadm : Admissible t (.fork tgid newPid)) :
    Handled allocs ranges (fun pid => pid ≠ 0) t (.fork tgid newPid) := by
  obtain ⟨hcur, hpid, htid⟩ := hadm
  cases hparent : parentOf t.tables tgid newPid with
  | none =>
    obtain ⟨s', hfork, hcached⟩ : ∃ s', (memcheckFork allocs ranges tgid newPid).run t.tables =
        some ((), s') ∧ Cached t.tables s' := h.named.run_withParent_none hcur hparent _
    refine .of_run (run_bind_of hfork) rfl (fun _ _ _ => by rw [hcached.procs]) ?_ ?_
    · rintro _ _ ⟨⟩ parent hmem
      rw [hparent] at hmem
      cases hmem
    · rw [record, hparent]
      exact h.cached hcached
  | some parent =>
    obtain ⟨s', hcached, hrun⟩ := h.named.run_withParent_some hcur hparent
    have hlisted := h.named.mem_of_procOfTid hparent
    obtain ⟨pp, hpp, -⟩ := h.named.listed.ofProc parent hlisted
    have hpp' : s'.procs parent = some pp := hcached.procs ▸ hpp
    have hparentExact := h.procs parent hlisted pp hpp
    have hfound : procOfPid s' pp.pid = some parent :=
      hcached.named.procOfPid_iff.mpr ⟨hcached.procList ▸ hlisted, pp, hpp', rfl⟩
    -- the process is made with the blocks of its parent
    let blocks := if pp.pid = 0 then [] else (allocs.entries pp.allocMap).map inheritedCopy
    have hblocks : if pp.pid = 0 then blocks = [] else
        ∃ parent pp', procOfPid s' pp.pid = some parent ∧ s'.procs parent = some pp' ∧
          Blocks (allocs.entries pp'.allocMap) ∧ ranges.entries pp'.mmrangeMap = [] ∧
          blocks = (allocs.entries pp'.allocMap).map inheritedCopy := by
      split
      · next hzero => exact if_pos hzero
      · next hzero =>
        exact ⟨parent, pp, hfound, hpp', hparentExact.blocks, hparentExact.noRanges, if_neg hzero⟩
    obtain ⟨s₁, p, hcreate, hbegun, hnew⟩ :=
      run_createNewProcess_of allocs ranges hcached.named newPid hblocks
    have hlife : ProcExact allocs ranges p
        ⟨if (t.tables.procs parent).any (fun p => p.pid ≠ 0) then (t.lives parent).live else [],
          []⟩ := by
      rw [hpp, Option.any_some]
      by_cases hzero : pp.pid = 0
      · rw [if_neg (by simp [hzero])]
        exact procExact_empty (hnew.blocks.trans (if_pos hzero)) hnew.noRanges hnew.idle
      · rw [if_pos (by simp [hzero])]
        exact hparentExact.child (hnew.blocks.trans (if_neg hzero)) hnew.noRanges hnew.idle
    have hmade := (h.cached hcached).withProcess hbegun hnew.threads
      (by rw [hnew.pid]; exact (hcached.procOfPid _).trans hpid)
      (by rw [hnew.pid]; exact (hcached.threadOfTid _).trans htid)
      (by rw [hnew.pid, hcached.currentTid]; exact fun heq => absurd heq (ne_currentTid hcur htid))
      hlife
    -- and gets the path of its parent
    have hself : (withProcess s₁ s'.next p).procs s'.next =
        some { p with threads := s₁.next :: p.threads } := Function.update_self ..
    obtain ⟨p', hset, hp'⟩ := run_setImagePath_of hself pp.imagePath 0
    have hne : parent ≠ s'.next := by
      rintro rfl
      exact hcached.named.next_not_mem (hcached.procList ▸ hlisted)
    have hpp₂ : (withProcess s₁ s'.next p).procs parent = some pp :=
      (withProcess_procs_of_ne hbegun hne).trans hpp'
    have hfork : (memcheckFork allocs ranges tgid newPid).run t.tables = _ :=
      (hrun _).trans ((run_bind_of (run_procAt hpp')).trans ((run_bind_of hcreate).trans
        ((run_bind_of (run_procAt hpp₂)).trans hset)))
    have hmap : p'.allocMap = p.allocMap := by
      rcases hp' with rfl | rfl <;> rfl
    have hkept : p'.pid = p.pid := by
      rcases hp' with rfl | rfl <;> rfl
    have hranges : p'.mmrangeMap = p.mmrangeMap := by
      rcases hp' with rfl | rfl <;> rfl
    have hexec : p'.isExecuting ↔ p.isExecuting := by
      rcases hp' with rfl | rfl
      · exact Iff.rfl
      · exact (isExecuting_or p 0).trans (or_iff_left (by decide))
    have hthreads : p'.threads = s₁.next :: p.threads := by
      rcases hp' with rfl | rfl <;> rfl
    have hexact := hmade.setProc hself (hlife.congr hmap hranges hexec) hthreads hkept
    dsimp only at hexact
    rw [Function.update_idem] at hexact
    refine .of_run (run_bind_of hfork) rfl (fun i hi _ => ?_) ?_ ?_
    · have hin : i ≠ s'.next := by
        rintro rfl
        exact hcached.named.next_not_mem (hcached.procList ▸ hi)
      refine congrArg (Option.map _) ((Function.update_of_ne hin ..).trans ?_)
      rw [withProcess_procs_of_ne hbegun hin, hcached.procs]
    · rintro _ _ ⟨⟩ q hq
      rw [hparent] at hq
      cases hq
      constructor
      · refine hexact.named.procOfPid_iff.mpr ⟨?_, p', ?_, hkept.trans hnew.pid⟩
        · rw [← hcached.next]
          exact List.mem_cons_self
        · rw [← hcached.next]
          exact Function.update_self ..
      · have hchild : blocksOf allocs { withProcess s₁ s'.next p with
            procs := Function.update (withProcess s₁ s'.next p).procs s'.next (some p') }
            t.tables.next = some (allocs.entries p.allocMap) := by
          rw [blocksOf, ← hcached.next, ← hmap]
          have hnext : Function.update (withProcess s₁ s'.next p).procs s'.next (some p') s'.next =
              some p' := Function.update_self ..
          exact congrArg (Option.map _) hnext
        rw [hchild, hnew.blocks, blocksOf, hpp, Option.any_some, Option.map_some, Option.map_some]
        by_cases hzero : pp.pid = 0
        · rw [if_neg (by simp [hzero])]
          exact congrArg some (if_pos hzero)
        · rw [if_pos (by simp [hzero])]
          exact congrArg some (if_neg hzero)
    · rw [record, hparent, ← hcached.next]
      exact hexact

theorem exact_handled (h : Exact allocs ranges t) {e : GuestEvent} (hadm : Admissible t e) :
    Handled allocs ranges (fun pid => pid ≠ 0) t e := by
  cases e with
  | switch tid => exact handled_switch h tid
  | guestAlloc mallocDesc => exact handled_guestAlloc h hadm
  | guestFree adesc ptr freePid => exact handled_guestFree h adesc ptr freePid
  | fork tgid newPid => exact handled_fork h hadm
  | clone tgid newTid => exact handled_clone h hadm
  | setCmdLine cmdArg cmdlen => exact handled_setCmdLine h hadm
  | guestLibcInitialized pid => exact handled_guestLibcInitialized h pid
  | exit exitCode => exact handled_exit h hadm

end Forks

section Starts

variable {s : ProcTables τ υ} {p : ProcDesc τ υ} {pid : UInt32}

theorem fresh_withProcess (hs : Named s) (h : Named (withProcess (begun s p) s.next p))
    (hne : pid ≠ p.pid) (hpid : procOfPid s pid = none) (htid : threadOfTid s pid = none) :
    procOfPid (withProcess (begun s p) s.next p) pid = none ∧
      threadOfTid (withProcess (begun s p) s.next p) pid = none := by
  constructor
  · refine Option.eq_none_iff_forall_ne_some.mpr fun q hq => ?_
    obtain ⟨hmem, p', hp', heq⟩ := h.procOfPid_iff.mp hq
    rcases List.mem_cons.mp hmem with rfl | hmem
    · have hself : (withProcess (begun s p) s.next p).procs s.next = _ := Function.update_self ..
      cases hself.symm.trans hp'
      exact hne heq.symm
    · have hold : q ≠ s.next := fun heq => hs.next_not_mem (heq ▸ hmem)
      rw [withProcess_procs_of_ne (Cached.refl (hs.begun p)) hold] at hp'
      rw [hs.procOfPid_iff.mpr ⟨hmem, p', hp', heq⟩] at hpid
      cases hpid
  · refine Option.eq_none_iff_forall_ne_some.mpr fun i hi => ?_
    obtain ⟨hmem, d, hd, heq⟩ := h.threadOfTid_iff.mp hi
    rcases List.mem_cons.mp hmem with rfl | hmem
    · have hself : (withProcess (begun s p) s.next p).threads (begun s p).next = _ :=
        Function.update_self ..
      cases hself.symm.trans hd
      exact hne heq.symm
    · have hold : i ≠ (begun s p).next := by
        rintro rfl
        exact Nat.lt_irrefl _ (Nat.lt_of_succ_lt (hs.listed.thread_lt hmem))
      have hd' : s.threads i = some d := (Function.update_of_ne hold ..).symm.trans hd
      rw [hs.threadOfTid_iff.mpr ⟨hmem, d, hd', heq⟩] at htid
      cases htid

theorem procStep_initPid (s : ProcTables τ υ) (pid : UInt32) :
    procStep allocs ranges s (.initPid pid) = withProcess (begun s (blankProc allocs ranges pid 0))
      s.next (blankProc allocs ranges pid 0) := by
  have hinherit : (inheritMaps allocs ranges s.next 0).run
      (begun s (blankProc allocs ranges pid 0)) =
        some (true, begun s (blankProc allocs ranges pid 0)) := by
    rw [inheritMaps, if_pos rfl]
    rfl
  have hself : (begun s (blankProc allocs ranges pid 0)).procs s.next =
      some (blankProc allocs ranges pid 0) := Function.update_self ..
  have hcreate := run_createNewProcess_inherited hinherit hself rfl
  have hinit : (handle allocs ranges (.initPid pid)).run s = some ((), _) := run_bind_of hcreate
  rw [procStep, hinit]

theorem Exact.inits {inits : List UInt32} (hinits : inits.Nodup)
    (h : Exact allocs ranges ⟨s, fun _ => ⟨[], []⟩⟩) (hnone : s.currentProcess = none)
    (hfresh : ∀ pid ∈ inits, procOfPid s pid = none ∧ threadOfTid s pid = none) :
    Exact allocs ranges
      ⟨(inits.map .initPid).foldl (procStep allocs ranges) s, fun _ => ⟨[], []⟩⟩ := by
  induction inits generalizing s with
  | nil => exact h
  | cons pid rest ih =>
    obtain ⟨hnew, hrest⟩ := List.nodup_cons.mp hinits
    obtain ⟨hpid, htid⟩ := hfresh pid List.mem_cons_self
    have hblank := newborn_blankProc allocs ranges pid 0
    have hnext := h.withProcess (Cached.refl (h.named.begun (blankProc allocs ranges pid 0))) rfl
      hpid htid (fun _ => hnone) (procExact_empty hblank.blocks hblank.noRanges hblank.idle)
    have hlives : Function.update (fun _ => ⟨[], []⟩) s.next ⟨[], []⟩ =
        (fun _ => ⟨[], []⟩ : Nat → Life) := Function.update_eq_self ..
    dsimp only at hnext
    rw [hlives] at hnext
    rw [List.map_cons, List.foldl_cons, procStep_initPid]
    refine ih hrest hnext hnone fun other hother => ?_
    obtain ⟨hpid', htid'⟩ := hfresh other (List.mem_cons_of_mem pid hother)
    have hne : other ≠ pid := fun heq => hnew (heq ▸ hother)
    exact fresh_withProcess h.named hnext.named hne hpid' htid'

variable (allocs ranges) in
theorem exact_start {inits : List UInt32} (hinits : inits.Nodup) :
    Exact allocs ranges (Traced.start allocs ranges inits) := by
  have hinit : Exact allocs ranges ⟨ProcTables.init, fun _ => ⟨[], []⟩⟩ :=
    ⟨⟨listed_init, List.forall_mem_nil _, List.forall_mem_nil _, fun _ hq => nomatch hq⟩,
      List.forall_mem_nil _⟩
  exact hinit.inits hinits rfl fun _ _ => ⟨rfl, rfl⟩

end Starts

section Runs

variable (allocs ranges)

/-- Along every run the leaks that are reported are those of the history, and no event changes the
blocks of another process, but a process that is forked begins with copies of its parent's, unless
that is the process 0. -/
theorem leakReports_exact {inits : List UInt32} {events : List GuestEvent} (hinits : inits.Nodup)
    (hadm : Along (Traced.step allocs ranges fun pid => pid ≠ 0) Admissible
      (Traced.start allocs ranges inits) events) :
    Along (Traced.step allocs ranges fun pid => pid ≠ 0)
      (EventRight allocs ranges fun pid => pid ≠ 0) (Traced.start allocs ranges inits) events := by
  have hboth : Along (Traced.step allocs ranges fun pid => pid ≠ 0)
      (fun t e => Admissible t e ∧ EventRight allocs ranges (fun pid => pid ≠ 0) t e)
      (Traced.start allocs ranges inits) events :=
    (Along.congr_of_invariant
      (fun t e (h : Exact allocs ranges t) =>
        ⟨And.left, fun hadm => ⟨hadm, (exact_handled h hadm).right⟩⟩)
      (fun t e h hadm => (exact_handled h hadm).exact) (exact_start allocs ranges hinits)).mpr hadm
  exact hboth.mono fun _ _ h => h.2

def smallBlock (ptr : UInt32) : MallocDesc where
  ptr := ptr
  requestedBytes := 16
  prefixSize := 0
  suffixSize := 0
  libcPid := 5
  allocatorPid := 5
  avCount := 0

/-- A process that executes is forked between its two allocations, and frees the first block. -/
def forkedRun : List GuestEvent :=
  [.switch 5, .setCmdLine [0x61] 1, .guestAlloc (smallBlock 0x1000), .fork 5 7, .switch 7,
    .guestFree ⟨smallBlock 0, [], 0⟩ 0x1008 7, .exit 0, .switch 5, .guestAlloc (smallBlock 0x2000),
    .guestFree ⟨smallBlock 0, [], 0⟩ 0x1000 5, .exit 0]

theorem leakReports_exact_forked :
    Along (Traced.step RangeTree.onLists RangeTree.onLists fun pid => pid ≠ 0)
      (EventRight RangeTree.onLists RangeTree.onLists fun pid => pid ≠ 0)
      (Traced.start RangeTree.onLists RangeTree.onLists [5]) forkedRun :=
  leakReports_exact RangeTree.onLists RangeTree.onLists (by decide) (by decide)

/-- What the process 0 has allocated is not copied when it forks. -/
theorem not_leakReports_firstProcess :
    ¬∀ (inits : List UInt32) (events : List GuestEvent), inits.Nodup →
      Along (Traced.step RangeTree.onLists RangeTree.onLists fun _ => true) Admissible
        (Traced.start RangeTree.onLists RangeTree.onLists inits) events →
      Along (Traced.step RangeTree.onLists RangeTree.onLists fun _ => true)
        (EventRight RangeTree.onLists RangeTree.onLists fun _ => true)
        (Traced.start RangeTree.onLists RangeTree.onLists inits) events := by
  intro h
  have hrun := h [0] [.guestAlloc { smallBlock 0x1000 with allocatorPid := 0 }, .fork 0 7]
    (by decide) (by decide)
  have hfork := hrun [.guestAlloc { smallBlock 0x1000 with allocatorPid := 0 }] (.fork 0 7)
    (List.prefix_refl _)
  have hblocks := (hfork.child 0 7 rfl 0 (by decide)).blocks
  revert hblocks
  decide

end Runs

end M2M.Memcheck.Handlers
