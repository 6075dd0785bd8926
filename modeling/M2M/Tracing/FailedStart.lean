import Mathlib
import M2M.Tracing.ProcHash

/-! `SET_start_tracing` with the calls that can fail, and the events that start a process.  After
a failure the process is freed, and its pointer goes on to `proc_insert`. -/

open M2M.Lib

namespace M2M.Tracing

/-- The flags of `ProcessType` that `SET_start_tracing` looks at, and whether there is an output
stream. -/
structure ProcessType where
  output : Bool
  userC : Bool
  kernel : Bool
  irq : Bool
  library : Bool
  dalvik : Bool
  syscall : Bool

/-- The type of `SET_event_bootup`. -/
def ProcessType.bootup : ProcessType where
  output := true
  userC := false
  kernel := true
  irq := true
  library := false
  dalvik := false
  syscall := false

/-- What the calls of `SET_start_tracing` return: an object file by the start of its text. -/
structure Calls where
  openTypeVpmu : Bool
  openPid : Bool
  openObjFunc : Bool
  openDexMethod : Bool
  openSyscall : Bool
  userObj : Option UInt32
  kernelObj : Option UInt32
  irqStack : Bool
  kernelStack : Bool
  icStack : Bool
  userStack : Bool

namespace SET

variable (s : SET)

section Start

/-- A call that makes `SET_start_tracing` go to `fail`. -/
def check (ok : Bool) : Except SET SET := if ok then .ok s else .error s

def checkIf (asked ok : Bool) : Except SET SET := if asked then s.check ok else .ok s

/-- The output stream according to the type. -/
def openOutput (t : ProcessType) (c : Calls) : Except SET SET := do
  let s ← s.checkIf t.output c.openTypeVpmu
  let s ← s.checkIf t.output c.openPid
  let s ← s.checkIf (t.output && (t.kernel || t.irq || t.library || t.userC)) c.openObjFunc
  let s ← s.checkIf (t.output && t.dalvik) c.openDexMethod
  s.checkIf (t.output && t.syscall) c.openSyscall

def startUser (p : Nat) (t : ProcessType) (c : Calls) : Except SET SET :=
  if t.userC then
    match c.userObj with
    | none => .error s
    | some textStart => .ok (s.loadUser p (some textStart))
  else .ok s

def startKernel (p : Nat) (t : ProcessType) (c : Calls) : Except SET SET :=
  if t.kernel || t.irq then
    match c.kernelObj with
    | none => .error s
    | some textStart => .ok (s.loadKernel p (some textStart))
  else .ok s

/-- `SET_start_tracing` up to its success, or up to `fail`. -/
def attempt (p : Nat) (t : ProcessType) (c : Calls) : Except SET SET := do
  let s ← s.openOutput t c
  let s ← s.startUser p t c
  let s ← s.startKernel p t c
  let s ← s.checkIf (t.kernel || t.irq) c.irqStack
  let s ← s.checkIf t.kernel c.kernelStack
  let s ← s.checkIf t.irq c.icStack
  s.checkIf (t.library || t.userC) c.userStack

end Start

section Events

/-- `proc_insert` with a process that has been freed, whose memory holds `junk`.  There is no
result when its pid is negative, as the first slot is outside the table. -/
def procInsertFreed (p : Nat) (junk : SETProcess) : Option SET :=
  if junk.pid < 0 then none else (s.modify p fun _ => junk).procInsert p

/-- `SET_start_tracing` and `proc_insert`, with what an event does between them. -/
def startInsert (between : SET → SET) (p : Nat) (nowPid : Int) (t : ProcessType) (c : Calls)
    (junk : SETProcess) : Option SET :=
  match s.attempt p t c with
  | .ok s =>
    (between { ((s.modify p fun x => { x with pid := nowPid }).addTracing p 1) with
      tracingProcess := some p }).procInsert p
  | .error s => (between ((s.detachProcess p).deleteProcess p)).procInsertFreed p junk

def findNamed (named : Nat → Bool) : Option Nat :=
  ((List.range s.procTableSize).filterMap s.procTable).find? named

end Events

end SET

/-- An event that starts a process: the processes whose names are equal to the one of the event,
and those of the name `app_process`; `created` says that `SET_create_process` succeeds. -/
inductive StartEvent
  | execve (named : Nat → Bool)
  | startDalvik (named zygote : Nat → Bool)
  | bootup (created : Bool)

namespace StartEvent

/-- The process that the event starts, and the device at that time. -/
def starting (s : SET) : StartEvent → Option (Nat × SET)
  | execve named | startDalvik named _ => (s.findNamed named).map fun p => (p, s)
  | bootup created => if created then some (s.nextProcess, s.createProcess) else none

/-- The type of the process, where that of another process is `t`. -/
def type (t : ProcessType) : StartEvent → ProcessType
  | bootup _ => .bootup
  | _ => t

/-- `set.tracing_process = process` in `SET_event_bootup`. -/
def between (p : Nat) : StartEvent → SET → SET
  | bootup _, s => { s with tracingProcess := some p }
  | _, s => s

/-- The copies from the zygote in `SET_event_start_dalvik`, when the type that is read is that of
a library. -/
def after (p : Nat) (library : Bool) : StartEvent → SET → SET
  | startDalvik _ zygote, s =>
    (s.findNamed zygote).elim s fun z => if library then s.copyObjs p z else s
  | _, s => s

/-- `SET_event_execve`, `SET_event_start_dalvik` and `SET_event_bootup`.  In a process that has
been freed the type is that of a library or not by `library`. -/
def run (e : StartEvent) (s : SET) (nowPid : Int) (t : ProcessType) (c : Calls) (junk : SETProcess)
    (library : Bool) : Option SET :=
  match e.starting s with
  | none => some s
  | some (p, s) =>
    let library := match s.attempt p (e.type t) c with
      | .ok _ => t.library
      | .error _ => library
    (s.startInsert (e.between p) p nowPid (e.type t) c junk).map (e.after p library)

end StartEvent

namespace SET

section Tables

/-- What the work on object files and stacks leaves of the tables and of their processes. -/
structure SameTables (s t : SET) : Prop where
  procTable : t.procTable = s.procTable
  procTableSize : t.procTableSize = s.procTableSize
  tracingProcess : t.tracingProcess = s.tracingProcess
  procHashTable : t.procHashTable = s.procHashTable
  pid : ∀ q, (t.process q).pid = (s.process q).pid
  idx : ∀ q, (t.process q).idx = (s.process q).idx

variable {s t u : SET} {p : Nat}

theorem SameTables.refl (s : SET) : SameTables s s :=
  ⟨rfl, rfl, rfl, rfl, fun _ => rfl, fun _ => rfl⟩

theorem SameTables.trans (h : SameTables s t) (h' : SameTables t u) : SameTables s u :=
  ⟨h'.procTable.trans h.procTable, h'.procTableSize.trans h.procTableSize,
    h'.tracingProcess.trans h.tracingProcess, h'.procHashTable.trans h.procHashTable,
    fun q => (h'.pid q).trans (h.pid q), fun q => (h'.idx q).trans (h.idx q)⟩

theorem sameTables_modify {f : SETProcess → SETProcess}
    (hpid : (f (s.process p)).pid = (s.process p).pid)
    (hidx : (f (s.process p)).idx = (s.process p).idx) : SameTables s (s.modify p f) := by
  refine ⟨rfl, rfl, rfl, rfl, fun q => ?_, fun q => ?_⟩
  · by_cases hq : q = p
    · subst hq
      simpa [modify] using hpid
    · simp [modify, Function.update_of_ne hq]
  · by_cases hq : q = p
    · subst hq
      simpa [modify] using hidx
    · simp [modify, Function.update_of_ne hq]

theorem sameTables_attachObj (s : SET) (p o : Nat) : SameTables s (s.attachObj p o) := by
  rw [attachObj]
  split
  · exact .refl s
  · have hcount : SameTables s (s.addCount o 1) := ⟨rfl, rfl, rfl, rfl, fun _ => rfl, fun _ => rfl⟩
    exact hcount.trans (sameTables_modify rfl rfl)

theorem sameTables_createObj (s : SET) (textStart : UInt32) :
    SameTables s (s.createObj textStart) :=
  ⟨rfl, rfl, rfl, rfl, fun _ => rfl, fun _ => rfl⟩

theorem sameTables_loadUser (s : SET) (p : Nat) (userC : Option UInt32) :
    SameTables s (s.loadUser p userC) := by
  cases userC with
  | none => exact .refl s
  | some textStart => exact (sameTables_createObj s textStart).trans (sameTables_attachObj _ p _)

theorem sameTables_loadKernel (s : SET) (p : Nat) (kernel : Option UInt32) :
    SameTables s (s.loadKernel p kernel) := by
  cases kernel with
  | none => exact .refl s
  | some textStart =>
    have hcount : SameTables s ((s.createObj textStart).addCount s.nextObj 1) :=
      ⟨rfl, rfl, rfl, rfl, fun _ => rfl, fun _ => rfl⟩
    rw [loadKernel]
    exact hcount.trans (sameTables_modify rfl rfl)

/-- A part of `SET_start_tracing` that leaves the tables alone, whether it fails or not. -/
def Leaves (s : SET) : Except SET SET → Prop
  | .ok t => SameTables s t
  | .error t => SameTables s t

theorem Leaves.bind {x : Except SET SET} {f : SET → Except SET SET} (h : Leaves s x)
    (hf : ∀ t, Leaves t (f t)) : Leaves s (x >>= f) := by
  cases x with
  | error t => exact h
  | ok t =>
    have hrest := hf t
    change Leaves s (f t)
    cases hft : f t with
    | error u =>
      rw [hft] at hrest
      exact SameTables.trans h hrest
    | ok u =>
      rw [hft] at hrest
      exact SameTables.trans h hrest

theorem leaves_checkIf (s : SET) (asked ok : Bool) : Leaves s (s.checkIf asked ok) := by
  cases asked with
  | false => exact SameTables.refl s
  | true =>
    cases ok with
    | false => exact SameTables.refl s
    | true => exact SameTables.refl s

theorem leaves_openOutput (s : SET) (t : ProcessType) (c : Calls) : Leaves s (s.openOutput t c) :=
  (leaves_checkIf s _ _).bind fun s => (leaves_checkIf s _ _).bind fun s =>
    (leaves_checkIf s _ _).bind fun s => (leaves_checkIf s _ _).bind fun s =>
      leaves_checkIf s _ _

theorem leaves_startUser (s : SET) (p : Nat) (t : ProcessType) (c : Calls) :
    Leaves s (s.startUser p t c) := by
  rw [startUser]
  split
  · cases c.userObj with
    | none => exact SameTables.refl s
    | some textStart => exact sameTables_loadUser s p (some textStart)
  · exact SameTables.refl s

theorem leaves_startKernel (s : SET) (p : Nat) (t : ProcessType) (c : Calls) :
    Leaves s (s.startKernel p t c) := by
  rw [startKernel]
  split
  · cases c.kernelObj with
    | none => exact SameTables.refl s
    | some textStart => exact sameTables_loadKernel s p (some textStart)
  · exact SameTables.refl s

theorem leaves_attempt (s : SET) (p : Nat) (t : ProcessType) (c : Calls) :
    Leaves s (s.attempt p t c) :=
  (leaves_openOutput s t c).bind fun s => (leaves_startUser s p t c).bind fun s =>
    (leaves_startKernel s p t c).bind fun s => (leaves_checkIf s _ _).bind fun s =>
      (leaves_checkIf s _ _).bind fun s => (leaves_checkIf s _ _).bind fun s =>
        leaves_checkIf s _ _

end Tables

section Lists

variable {α : Type} [BEq α] [LawfulBEq α]

/-- Erasing one place takes a value out of a list exactly when the value stands there and nowhere
else. -/
theorem eraseIdx_eq_filter_iff {l : List α} {j : Nat} {a : α} (hj : j < l.length) :
    l.eraseIdx j = l.filter (· != a) ↔ l.count a = 1 ∧ l[j]? = some a := by
  have hcount := (List.getElem_cons_eraseIdx_perm hj).count_eq a
  rw [List.getElem?_eq_getElem hj, Option.some.injEq]
  constructor
  · intro h
    have hgone : (l.eraseIdx j).count a = 0 := by
      rw [h, List.count_eq_zero]
      simp
    rw [List.count_cons, hgone, Nat.zero_add] at hcount
    have hlength := l.length_eq_countP_add_countP (· != a)
    rw [List.countP_eq_length_filter, ← h, List.length_eraseIdx_of_lt hj] at hlength
    have hother : l.countP (fun b => ¬(b != a) = true) = l.count a := by
      rw [List.count]
      exact List.countP_congr (by simp)
    rw [hother] at hlength
    have hone : l.count a = 1 := by omega
    rw [hone] at hcount
    exact ⟨hone, by simpa using hcount⟩
  · rintro ⟨hone, ha⟩
    rw [List.count_cons, ha, hone] at hcount
    have hgone : a ∉ l.eraseIdx j := List.count_eq_zero.1 (by simpa using hcount)
    rw [List.eraseIdx_eq_take_drop_succ, List.mem_append, not_or] at hgone
    have hsplit : l = l.take j ++ a :: l.drop (j + 1) := by
      rw [← ha, List.cons_getElem_drop_succ, List.take_append_drop]
    have hkeep : ∀ m : List α, a ∉ m → m.filter (· != a) = m := fun m hm =>
      List.filter_eq_self.2 fun b hb => by simpa using fun heq : b = a => hm (heq ▸ hb)
    conv_rhs => rw [hsplit]
    rw [List.filter_append, List.filter_cons_of_neg (by simp), hkeep _ hgone.1, hkeep _ hgone.2,
      List.eraseIdx_eq_take_drop_succ]

end Lists

section Failure

variable {s f : SET} {p : Nat}

def entries (s : SET) : List (Option Nat) := (List.range s.procTableSize).map s.procTable

@[simp] theorem length_entries (s : SET) : s.entries.length = s.procTableSize := by
  simp [entries]

theorem entries_getElem? {i : Nat} (hi : i < s.procTableSize) :
    s.entries[i]? = some (s.procTable i) := by
  simp [entries, hi]

/-- The place that `SET_detach_process` takes out of the table. -/
def detachedPlace (s : SET) (p : Nat) : Nat :=
  min (s.process p).idx.toNat (s.procTableSize - 1)

theorem entries_detachProcess (hsize : 0 < s.procTableSize) (h : 0 < (s.process p).idx) :
    (s.detachProcess p).entries = s.entries.eraseIdx (s.detachedPlace p) := by
  rw [detachProcess_of_idx_pos hsize h]
  refine List.ext_getElem? fun k => ?_
  rw [List.getElem?_eraseIdx]
  by_cases hk : k < s.procTableSize - 1
  · rw [entries_getElem? hk]
    dsimp only
    rw [shiftLeft_apply, entries_getElem? (by omega), entries_getElem? (by omega), detachedPlace]
    by_cases hbefore : k < (s.process p).idx.toNat
    · rw [if_neg (by omega), if_pos (by omega)]
    · rw [if_pos (by omega), if_neg (by omega)]
  · rw [List.getElem?_eq_none (by simpa using hk), detachedPlace, if_neg (by omega),
      List.getElem?_eq_none (by rw [length_entries]; omega)]

/-- The device after `fail`. -/
def cleaned (f : SET) (p : Nat) : SET := (f.detachProcess p).deleteProcess p

theorem cleaned_tables (f : SET) (p : Nat) :
    (f.cleaned p).procHashTable = f.procHashTable ∧
      (f.cleaned p).tracingProcess = f.tracingProcess ∧
      (∀ q, ((f.cleaned p).process q).pid = (f.process q).pid) ∧
      (f.cleaned p).entries = (f.detachProcess p).entries := by
  obtain ⟨hprocess, -, htable, hsize, htracing, hhash⟩ := deleteProcess_same (f.detachProcess p) p
  refine ⟨?_, ?_, fun q => ?_, ?_⟩
  · rw [cleaned, hhash, detachProcess]
    split_ifs <;> rfl
  · rw [cleaned, htracing, detachProcess]
    split_ifs <;> rfl
  · rw [cleaned, hprocess, detachProcess]
    split_ifs
    · rfl
    · rfl
    · by_cases hq : q = p
      · subst hq
        simp [modify]
      · simp [modify, Function.update_of_ne hq]
  · rw [cleaned, entries, hsize, htable, entries]

theorem entries_cleaned (hsame : SameTables s f) (hsize : 0 < s.procTableSize) (p : Nat) :
    (f.cleaned p).entries =
      if 0 < (s.process p).idx then s.entries.eraseIdx (s.detachedPlace p) else s.entries := by
  have hentries : f.entries = s.entries := by
    rw [entries, entries, hsame.procTable, hsame.procTableSize]
  have hplace : f.detachedPlace p = s.detachedPlace p := by
    rw [detachedPlace, detachedPlace, hsame.idx, hsame.procTableSize]
  rw [(cleaned_tables f p).2.2.2]
  split_ifs with hidx
  · rw [entries_detachProcess (hsame.procTableSize ▸ hsize) (hsame.idx p ▸ hidx), hentries, hplace]
  · rw [detachProcess_of_idx_nonpos (by rw [hsame.idx]; omega), hentries]

/-- Without a trace of the process: it is in no table, and the other entries are as before. -/
structure NoTrace (s t : SET) (p : Nat) : Prop where
  procTable : t.entries = s.entries.filter (· != some p)
  absent : ∀ i < procHashTableSize, t.procHashTable i ≠ some p
  others : ∀ i < procHashTableSize, s.procHashTable i ≠ some p →
    t.procHashTable i = s.procHashTable i
  tracingProcess : t.tracingProcess ≠ some p

/-- The process is only in the place where it is detached, and the search for the pid in its
freed memory ends at another process. -/
structure Unseen (s : SET) (p : Nat) (junk : SETProcess) : Prop where
  once : s.entries.count (some p) = 1
  idx_pos : 0 < (s.process p).idx
  place : s.procTable (s.detachedPlace p) = some p
  notHashed : ∀ i < procHashTableSize, s.procHashTable i ≠ some p
  pid_nonneg : 0 ≤ junk.pid
  found : ∃ q, s.procFind junk.pid = some (some q)
  notTracing : s.tracingProcess ≠ some p

theorem procFind_congr {pid : Int} (hhash : f.procHashTable = s.procHashTable)
    (hpid : ∀ i < procHashTableSize, ∀ q, s.procHashTable i = some q →
      (f.process q).pid = (s.process q).pid) : f.procFind pid = s.procFind pid := by
  rw [procFind, procFind, hhash]
  refine congrArg _ (Probing.probe_congr (home_lt pid) fun i hi q hq => ?_)
  rw [hasPid, hasPid, hpid i hi q hq]

theorem procInsert_cases {t : SET} (h : s.procInsert p = some t) :
    (∃ q, s.procFind (s.process p).pid = some (some q) ∧ t = s) ∨
      ∃ i < procHashTableSize, s.procHashTable i = none ∧ t = s.place p i := by
  rw [procInsert, Option.map_eq_some_iff] at h
  obtain ⟨i, hi, rfl⟩ := h
  cases hslot : s.procHashTable i with
  | some q => exact Or.inl ⟨q, by rw [procFind, hi, Option.map_some, hslot], rfl⟩
  | none =>
    obtain ⟨d, -, heq, -, -⟩ := Probing.exists_of_eq_some (home_lt _) hi
    exact Or.inr ⟨i, heq ▸ Nat.mod_lt _ (by decide), hslot, rfl⟩

theorem procInsert_of_found {q : Nat} (h : s.procFind (s.process p).pid = some (some q)) :
    s.procInsert p = some s := by
  rw [procFind, Option.map_eq_some_iff] at h
  obtain ⟨i, hi, hslot⟩ := h
  rw [procInsert, hi, Option.map_some, hslot]

/-- The cleaned device with the freed memory of the process looks the same to a search that does
not meet the process. -/
theorem procFind_cleaned (hsame : SameTables s f) (junk : SETProcess) (pid : Int)
    (hno : ∀ i < procHashTableSize, s.procHashTable i ≠ some p) :
    ((f.cleaned p).modify p fun _ => junk).procFind pid = s.procFind pid := by
  obtain ⟨hhash, -, hpid, -⟩ := cleaned_tables f p
  refine procFind_congr (hhash.trans hsame.procHashTable) fun i hi q hq => ?_
  have hne : q ≠ p := fun heq => hno i hi (heq ▸ hq)
  simp only [modify, Function.update_of_ne hne]
  rw [hpid, hsame.pid]

theorem Unseen.noTrace {junk : SETProcess} (hsame : SameTables s f) (hmem : some p ∈ s.entries)
    (h : s.Unseen p junk) :
    ∃ t, (f.cleaned p).procInsertFreed p junk = some t ∧ s.NoTrace t p := by
  obtain ⟨hhash, htracing, -, -⟩ := cleaned_tables f p
  have hsize : 0 < s.procTableSize := by simpa using List.length_pos_of_mem hmem
  obtain ⟨q, hq⟩ := h.found
  refine ⟨(f.cleaned p).modify p fun _ => junk, ?_, ?_, fun i hi => ?_, fun i hi _ => ?_, ?_⟩
  · rw [procInsertFreed, if_neg (Int.not_lt.2 h.pid_nonneg)]
    refine procInsert_of_found (q := q) ?_
    rw [procFind_cleaned hsame junk _ h.notHashed]
    simpa [modify] using hq
  · change (f.cleaned p).entries = _
    rw [entries_cleaned hsame hsize, if_pos h.idx_pos, eraseIdx_eq_filter_iff]
    · refine ⟨h.once, ?_⟩
      rw [entries_getElem? (by rw [detachedPlace]; omega), h.place]
    · rw [length_entries, detachedPlace]
      omega
  · simpa [modify, hhash, hsame.procHashTable] using h.notHashed i hi
  · simp [modify, hhash, hsame.procHashTable]
  · simpa [modify, htracing, hsame.tracingProcess] using h.notTracing

theorem unseen_of_noTrace {junk : SETProcess} {t : SET} (hsame : SameTables s f)
    (hmem : some p ∈ s.entries) (ht : (f.cleaned p).procInsertFreed p junk = some t)
    (h : s.NoTrace t p) : s.Unseen p junk := by
  obtain ⟨hhash, htracing, -, -⟩ := cleaned_tables f p
  have hsize : 0 < s.procTableSize := by simpa using List.length_pos_of_mem hmem
  rw [procInsertFreed] at ht
  split_ifs at ht with hpid
  rcases procInsert_cases ht with ⟨q, hq, rfl⟩ | ⟨i, hi, -, rfl⟩
  · have hno : ∀ i < procHashTableSize, s.procHashTable i ≠ some p := by
      simpa [modify, hhash, hsame.procHashTable] using h.absent
    have hentries : (f.cleaned p).entries = _ := h.procTable
    rw [entries_cleaned hsame hsize] at hentries
    split_ifs at hentries with hidx
    · rw [eraseIdx_eq_filter_iff (by rw [length_entries, detachedPlace]; omega),
        entries_getElem? (by rw [detachedPlace]; omega), Option.some.injEq] at hentries
      refine ⟨hentries.1, hidx, hentries.2, hno, Int.not_lt.1 hpid, ⟨q, ?_⟩, ?_⟩
      · rw [procFind_cleaned hsame junk _ hno] at hq
        simpa [modify] using hq
      · simpa [modify, htracing, hsame.tracingProcess] using h.tracingProcess
    · -- the first place is not detached
      rw [hentries] at hmem
      simp at hmem
  · exact absurd (by simp [place]) (h.absent i hi)

theorem noTrace_congr {t u : SET} (hsame : SameTables t u) :
    s.NoTrace u p ↔ s.NoTrace t p := by
  have hentries : u.entries = t.entries := by
    rw [entries, entries, hsame.procTable, hsame.procTableSize]
  constructor
  · rintro ⟨htable, habsent, hothers, htracing⟩
    rw [hsame.procHashTable] at habsent hothers
    exact ⟨hentries.symm.trans htable, habsent, hothers, hsame.tracingProcess ▸ htracing⟩
  · rintro ⟨htable, habsent, hothers, htracing⟩
    rw [← hsame.procHashTable] at habsent hothers
    exact ⟨hentries.trans htable, habsent, hothers, hsame.tracingProcess.symm ▸ htracing⟩

theorem findNamed_mem {named : Nat → Bool} (h : s.findNamed named = some p) :
    some p ∈ s.entries := by
  obtain ⟨i, hi, hp⟩ := List.mem_filterMap.1 (List.mem_of_find?_eq_some h)
  exact List.mem_map.2 ⟨i, hi, hp⟩

theorem sameTables_copyObjs (s : SET) (p z : Nat) : SameTables s (s.copyObjs p z) := by
  have hcounts : ∀ (os : List Nat) (s : SET),
      SameTables s (os.foldl (fun s o => s.addCount o 1) s) := by
    intro os
    induction os with
    | nil => exact .refl
    | cons o os ih =>
      intro s
      have hone : SameTables s (s.addCount o 1) := ⟨rfl, rfl, rfl, rfl, fun _ => rfl, fun _ => rfl⟩
      exact hone.trans (ih _)
  exact (hcounts _ s).trans (sameTables_modify rfl rfl)

end Failure

end SET

namespace StartEvent

/-- Whether the event is `SET_event_bootup`. -/
def isBootup : StartEvent → Bool
  | bootup _ => true
  | _ => false

variable {e : StartEvent} {s s₀ f : SET} {p : Nat} {nowPid : Int} {t : ProcessType} {c : Calls}
  {junk : SETProcess} {library : Bool}

theorem between_of_not_bootup (he : e.isBootup = false) (s : SET) : e.between p s = s := by
  cases e with
  | execve named => rfl
  | startDalvik named zygote => rfl
  | bootup created => cases he

theorem starting_of_not_bootup (he : e.isBootup = false) (h : e.starting s = some (p, s₀)) :
    s₀ = s ∧ some p ∈ s.entries := by
  cases e with
  | execve named | startDalvik named _ =>
    rw [starting, Option.map_eq_some_iff] at h
    obtain ⟨q, hq, heq⟩ := h
    obtain ⟨rfl, rfl⟩ := Prod.mk.inj heq
    exact ⟨rfl, SET.findNamed_mem hq⟩
  | bootup created => cases he

theorem after_same (e : StartEvent) (p : Nat) (library : Bool) (s : SET) :
    SET.SameTables s (e.after p library s) := by
  cases e with
  | execve named => exact .refl s
  | bootup created => exact .refl s
  | startDalvik named zygote =>
    rw [after]
    cases s.findNamed zygote with
    | none => exact .refl s
    | some z =>
      cases library with
      | false => exact .refl s
      | true => exact SET.sameTables_copyObjs s p z

theorem run_of_error (hstart : e.starting s = some (p, s₀))
    (hfail : s₀.attempt p (e.type t) c = .error f) :
    e.run s nowPid t c junk library =
      ((e.between p (f.cleaned p)).procInsertFreed p junk).map (e.after p library) := by
  rw [run, hstart]
  simp only [hfail, SET.startInsert, SET.cleaned]

theorem bootup_tracing {created : Bool} {u : SET}
    (hstart : (bootup created).starting s = some (p, s₀))
    (hfail : s₀.attempt p .bootup c = .error f)
    (hrun : (bootup created).run s nowPid t c junk library = some u) :
    u.tracingProcess = some p := by
  rw [run_of_error hstart hfail, Option.map_eq_some_iff] at hrun
  obtain ⟨v, hv, rfl⟩ := hrun
  rw [SET.procInsertFreed] at hv
  split_ifs at hv with hpid
  rcases SET.procInsert_cases hv with ⟨q, -, rfl⟩ | ⟨i, -, -, rfl⟩
  · rfl
  · rfl

/-- A failed start leaves no trace of the process exactly when it is not the boot, the process
stands only in the place where it is detached, and `proc_insert` meets another process with the
pid that it reads in the freed memory. -/
theorem failed_noTrace_iff (e : StartEvent) (s s₀ f : SET) (p : Nat) (nowPid : Int)
    (t : ProcessType) (c : Calls) (junk : SETProcess) (library : Bool)
    (hstart : e.starting s = some (p, s₀)) (hfail : s₀.attempt p (e.type t) c = .error f) :
    (∃ u, e.run s nowPid t c junk library = some u ∧ s.NoTrace u p) ↔
      e.isBootup = false ∧ s.Unseen p junk := by
  cases he : e.isBootup with
  | true =>
    cases e with
    | execve named => cases he
    | startDalvik named zygote => cases he
    | bootup created =>
      refine iff_of_false ?_ (by simp)
      rintro ⟨u, hrun, htrace⟩
      exact htrace.tracingProcess (bootup_tracing hstart hfail hrun)
  | false =>
    obtain ⟨rfl, hmem⟩ := starting_of_not_bootup he hstart
    have hsame : SET.SameTables s₀ f := by
      have hleaves := SET.leaves_attempt s₀ p (e.type t) c
      rwa [hfail] at hleaves
    rw [run_of_error hstart hfail, between_of_not_bootup he, and_iff_right rfl]
    constructor
    · rintro ⟨u, hrun, htrace⟩
      obtain ⟨v, hv, rfl⟩ := Option.map_eq_some_iff.1 hrun
      exact SET.unseen_of_noTrace hsame hmem hv
        ((SET.noTrace_congr (after_same e p library v)).1 htrace)
    · intro hunseen
      obtain ⟨v, hv, htrace⟩ := hunseen.noTrace hsame hmem
      exact ⟨e.after p library v, by rw [hv, Option.map_some],
        (SET.noTrace_congr (after_same e p library v)).2 htrace⟩

/-- A process that is traced with pid 5, and another one that is attached behind it. -/
def behindTraced : SET :=
  ((SET.start.startProcess 5 none none).place 0 5).createProcess.attachProcess 1

theorem behindTraced_procHashTable :
    behindTraced.procHashTable = Function.update (fun _ => none) 5 (some 0) := rfl

/-- A program with an output stream. -/
def program : ProcessType where
  output := true
  userC := true
  kernel := false
  irq := false
  library := false
  dalvik := false
  syscall := false

/-- The output stream cannot be created. -/
def noOutput : Calls where
  openTypeVpmu := false
  openPid := false
  openObjFunc := false
  openDexMethod := false
  openSyscall := false
  userObj := none
  kernelObj := none
  irqStack := true
  kernelStack := true
  icStack := true
  userStack := true

theorem failed_noTrace_behindTraced :
    ∃ u, (execve (· == 1)).run behindTraced 6 program noOutput ⟨5, 0, none, [], 0, none⟩ false =
      some u ∧ behindTraced.NoTrace u 1 :=
  (failed_noTrace_iff (execve (· == 1)) behindTraced behindTraced behindTraced 1 6 program noOutput
    ⟨5, 0, none, [], 0, none⟩ false rfl rfl).2 ⟨rfl,
      { once := by decide
        idx_pos := by decide
        place := by decide
        notHashed := fun i _ => by
          rw [behindTraced_procHashTable, Function.update_apply]
          split_ifs
          · decide
          · decide
        pid_nonneg := by decide
        found := ⟨0, by decide⟩
        notTracing := by decide }⟩

/-- The freed process of the boot is the traced one. -/
theorem bootup_leaves_trace :
    ¬∀ (e : StartEvent) (s s₀ f : SET) (p : Nat) (nowPid : Int) (t : ProcessType) (c : Calls)
      (junk : SETProcess) (library : Bool), e.starting s = some (p, s₀) →
        s₀.attempt p (e.type t) c = .error f →
          ∃ u, e.run s nowPid t c junk library = some u ∧ s.NoTrace u p := by
  intro h
  obtain ⟨u, hrun, htrace⟩ := h (bootup true) SET.start SET.start.createProcess
    SET.start.createProcess 0 1 program noOutput ⟨1, 0, none, [], 0, none⟩ false rfl rfl
  exact htrace.tracingProcess (bootup_tracing (s := SET.start) rfl rfl hrun)

end StartEvent

end M2M.Tracing
