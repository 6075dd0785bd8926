import M2M.Tracing.Process
import M2M.Lib.Runs

/-! The table of processes: attaching appends, detaching shifts what is behind to the left. -/

open M2M.Lib

namespace M2M.Tracing

namespace SET

theorem shiftLeft_range' (t : Nat → Option Nat) (i m j : Nat) :
    (List.range' i m).foldl (fun t j => Function.update t j (t (j + 1))) t j =
      if i ≤ j ∧ j < i + m then t (j + 1) else t j := by
  induction m generalizing i t with
  | zero => rw [if_neg (by omega), List.range'_zero, List.foldl_nil]
  | succ m ih =>
    rw [List.range'_succ, List.foldl_cons, ih]
    by_cases hj : j = i
    · subst hj
      simp
    · rw [Function.update_of_ne hj]
      by_cases hin : i + 1 ≤ j ∧ j < i + 1 + m
      · rw [if_pos hin, if_pos (by omega), Function.update_of_ne (by omega)]
      · rw [if_neg hin, if_neg (by omega)]

theorem shiftLeft_apply (t : Nat → Option Nat) (i size j : Nat) :
    shiftLeft t i size j = if i ≤ j ∧ j < size then t (j + 1) else t j := by
  rw [shiftLeft, shiftLeft_range']
  by_cases hin : i ≤ j ∧ j < size
  · rw [if_pos hin, if_pos (by omega)]
  · rw [if_neg hin, if_neg (by omega)]

variable {s : SET} {p : Nat}

theorem attachProcess_of_lt (h : s.procTableSize < maxProcTableSize) :
    s.attachProcess p =
      { s.modify p (fun x => { x with idx := s.procTableSize }) with
        procTable := Function.update s.procTable s.procTableSize (some p)
        procTableSize := s.procTableSize + 1 } := if_neg (Nat.ne_of_lt h)

theorem detachProcess_of_idx_nonpos (h : (s.process p).idx ≤ 0) : s.detachProcess p = s := by
  rw [detachProcess, if_pos h, ite_self]

theorem detachProcess_of_idx_pos (hsize : 0 < s.procTableSize) (h : 0 < (s.process p).idx) :
    s.detachProcess p =
      { s.modify p (fun x => { x with idx := -1 }) with
        procTable := shiftLeft s.procTable (s.process p).idx.toNat s.procTableSize
        procTableSize := s.procTableSize - 1 } := by
  rw [detachProcess, if_neg (by omega), if_neg (by omega)]

/-- What the work on objects leaves as it is. -/
structure SameProcesses (s t : SET) : Prop where
  process : s.process = t.process
  nextProcess : s.nextProcess = t.nextProcess
  procTable : s.procTable = t.procTable
  procTableSize : s.procTableSize = t.procTableSize
  tracingProcess : s.tracingProcess = t.tracingProcess
  procHashTable : s.procHashTable = t.procHashTable

theorem releaseObj_same (s : SET) (o : Nat) : SameProcesses (s.releaseObj o) s := by
  simp only [releaseObj, deleteObj]
  split <;> exact ⟨rfl, rfl, rfl, rfl, rfl, rfl⟩

theorem releaseObjs_same (s : SET) (os : List Nat) :
    SameProcesses (os.foldl releaseObj s) s := by
  induction os generalizing s with
  | nil => exact ⟨rfl, rfl, rfl, rfl, rfl, rfl⟩
  | cons o os ih =>
    have hone := releaseObj_same s o
    have hrest := ih (s.releaseObj o)
    exact ⟨hrest.process.trans hone.process, hrest.nextProcess.trans hone.nextProcess,
      hrest.procTable.trans hone.procTable, hrest.procTableSize.trans hone.procTableSize,
      hrest.tracingProcess.trans hone.tracingProcess,
      hrest.procHashTable.trans hone.procHashTable⟩

theorem deleteProcess_same (s : SET) (p : Nat) : SameProcesses (s.deleteProcess p) s := by
  simp only [deleteProcess]
  split
  · obtain ⟨h1, h2, h3, h4, h5, h6⟩ := releaseObjs_same (s.addTracing p (-1)) (s.refs p)
    exact ⟨h1, h2, h3, h4, h5, h6⟩
  · exact ⟨rfl, rfl, rfl, rfl, rfl, rfl⟩

@[simp] theorem deleteProcess_live (s : SET) (p : Nat) :
    (s.deleteProcess p).live = s.live.erase p := rfl

end SET

/-- Calls of the functions that change the table of processes. -/
inductive TableCall
  | create
  | attach (p : Nat)
  | copyAttach (p : Nat)
  | detach (p : Nat)
  | endTracing (p : Nat)
  deriving DecidableEq

/-- The device with the processes that are attached, in the order of attaching. -/
structure Attached where
  set : SET
  attached : List Nat

namespace Attached

def start : Attached := ⟨.start, []⟩

def call (s : Attached) : TableCall → Attached
  | .create => ⟨s.set.createProcess, s.attached⟩
  | .attach p => ⟨s.set.attachProcess p, s.attached ++ [p]⟩
  | .copyAttach p =>
    ⟨(s.set.copyProcess p).attachProcess s.set.nextProcess, s.attached ++ [s.set.nextProcess]⟩
  | .detach p => ⟨s.set.detachProcess p, s.attached.erase p⟩
  | .endTracing p => ⟨(s.set.detachProcess p).deleteProcess p, s.attached.erase p⟩

/-- A process is attached once, and only while there is room in the table. -/
def Admissible (s : Attached) : TableCall → Prop
  | .create => True
  | .attach p => p ∈ s.set.live ∧ p ∉ s.attached ∧ s.set.procTableSize < maxProcTableSize
  | .copyAttach p => p ∈ s.set.live ∧ s.set.procTableSize < maxProcTableSize
  | .detach p => p ∈ s.set.live
  | .endTracing p => p ∈ s.set.live

instance (s : Attached) : ∀ c, Decidable (s.Admissible c)
  | .create => .isTrue trivial
  | .attach _ => inferInstanceAs (Decidable (_ ∧ _ ∧ _))
  | .copyAttach _ => inferInstanceAs (Decidable (_ ∧ _))
  | .detach _ => inferInstanceAs (Decidable (_ ∈ _))
  | .endTracing _ => inferInstanceAs (Decidable (_ ∈ _))

/-- The first entries are the attached processes in order, and each process knows its own. -/
structure TableRight (s : Attached) : Prop where
  entries : (List.range s.set.procTableSize).map s.set.procTable = s.attached.map some
  nodup : s.attached.Nodup
  idx : ∀ p ∈ s.attached, s.set.procTable (s.set.process p).idx.toNat = some p

instance (s : Attached) : Decidable s.TableRight :=
  decidable_of_iff (_ ∧ _ ∧ _) ⟨fun h => ⟨h.1, h.2.1, h.2.2⟩, fun h => ⟨h.1, h.2, h.3⟩⟩

/-- Of the attached processes only the last one is detached, and not while it is alone. -/
def LastDetached (s : Attached) : TableCall → Prop
  | .detach p | .endTracing p =>
    p ∈ s.attached → s.attached.getLast? = some p ∧ 1 < s.attached.length
  | _ => True

instance (s : Attached) : ∀ c, Decidable (s.LastDetached c)
  | .detach _ => inferInstanceAs (Decidable (_ → _))
  | .endTracing _ => inferInstanceAs (Decidable (_ → _))
  | .create => .isTrue trivial
  | .attach _ => .isTrue trivial
  | .copyAttach _ => .isTrue trivial

/-- The table holds the attached processes, and nothing behind them. -/
structure Tabled (s : Attached) : Prop where
  nodup : s.attached.Nodup
  size : s.set.procTableSize = s.attached.length
  entry : ∀ i, s.set.procTable i = s.attached[i]?
  idx : ∀ (i p : Nat), s.attached[i]? = some p → (s.set.process p).idx = (i : Int)
  free : ∀ p ∈ s.set.live, p ∉ s.attached → (s.set.process p).idx = -1
  live : ∀ p ∈ s.attached, p ∈ s.set.live
  fresh : ∀ p ∈ s.set.live, p < s.set.nextProcess

theorem start_tabled : start.Tabled where
  nodup := List.nodup_nil
  size := rfl
  entry _ := rfl
  idx i p h := by simp [start] at h
  free p h := by simp [start, SET.start] at h
  live p h := by simp [start] at h
  fresh p h := by simp [start, SET.start] at h

namespace Tabled

variable {s : Attached} {p : Nat} (h : s.Tabled)

include h

theorem tableRight : s.TableRight where
  entries := by
    refine List.ext_getElem? fun i => ?_
    by_cases hi : i < s.attached.length
    · simp [h.size, h.entry, hi]
    · simp [h.size, hi]
  nodup := h.nodup
  idx p hp := by
    obtain ⟨i, hi⟩ := List.mem_iff_getElem?.1 hp
    rw [h.idx i p hi, Int.toNat_natCast, h.entry, hi]

theorem create : (s.call .create).Tabled where
  nodup := h.nodup
  size := h.size
  entry := h.entry
  idx i p hp := by
    have hne : p ≠ s.set.nextProcess :=
      Nat.ne_of_lt (h.fresh p (h.live p (List.mem_of_getElem? hp)))
    simpa [call, SET.createProcess, Function.update_of_ne hne] using h.idx i p hp
  free p hp hno := by
    simp only [call, SET.createProcess, Finset.mem_insert] at hp ⊢
    rcases hp with rfl | hp
    · simp
    · rw [Function.update_of_ne (Nat.ne_of_lt (h.fresh p hp))]
      exact h.free p hp hno
  live p hp := Finset.mem_insert_of_mem (h.live p hp)
  fresh p hp := by
    rcases Finset.mem_insert.1 hp with rfl | hp
    · exact Nat.lt_succ_self _
    · exact Nat.lt_succ_of_lt (h.fresh p hp)

theorem append {t : SET} (hp : p ∉ s.attached) (hroom : s.set.procTableSize < maxProcTableSize)
    (htable : t.procTable = s.set.procTable) (hsize : t.procTableSize = s.set.procTableSize)
    (hlive : t.live = insert p s.set.live)
    (hother : ∀ q ∈ s.set.live, q ≠ p → t.process q = s.set.process q)
    (hfresh : ∀ q ∈ t.live, q < t.nextProcess) :
    Tabled ⟨t.attachProcess p, s.attached ++ [p]⟩ := by
  rw [SET.attachProcess_of_lt (hsize ▸ hroom)]
  have hne : ∀ q ∈ s.attached, q ≠ p := fun q hq heq => hp (heq ▸ hq)
  refine ⟨?_, ?_, ?_, ?_, ?_, ?_, hfresh⟩
  · exact List.nodup_append.2 ⟨h.nodup, List.nodup_singleton p, by simpa using hne⟩
  · simp [hsize, h.size]
  · intro i
    simp only [hsize, htable, h.size]
    rcases Nat.lt_trichotomy i s.attached.length with hi | rfl | hi
    · rw [Function.update_of_ne (Nat.ne_of_lt hi), h.entry, List.getElem?_append_left hi]
    · simp
    · rw [Function.update_of_ne (Nat.ne_of_gt hi), h.entry,
        List.getElem?_eq_none (by omega), List.getElem?_eq_none (by simp; omega)]
  · intro i q hq
    simp only [SET.modify, hsize, h.size]
    rcases Nat.lt_or_ge i s.attached.length with hi | hi
    · rw [List.getElem?_append_left hi] at hq
      have hmem := List.mem_of_getElem? hq
      rw [Function.update_of_ne (hne q hmem), hother q (h.live q hmem) (hne q hmem), h.idx i q hq]
    · rw [List.getElem?_append_right hi, List.getElem?_singleton] at hq
      split at hq
      · rw [← Option.some.inj hq, Function.update_self]
        simp only
        omega
      · cases hq
  · intro q hq hno
    have hqp : q ≠ p := fun heq => hno (by simp [heq])
    have hq' : q ∈ s.set.live := by
      simpa [SET.modify, hlive, hqp] using hq
    simp only [SET.modify]
    rw [Function.update_of_ne hqp, hother q hq' hqp]
    exact h.free q hq' fun hmem => hno (List.mem_append_left _ hmem)
  · intro q hq
    simp only [SET.modify, hlive, Finset.mem_insert]
    rcases List.mem_append.1 hq with hq | hq
    · exact Or.inr (h.live q hq)
    · exact Or.inl (List.mem_singleton.1 hq)

theorem attach (hlive : p ∈ s.set.live) (hp : p ∉ s.attached)
    (hroom : s.set.procTableSize < maxProcTableSize) : (s.call (.attach p)).Tabled :=
  h.append hp hroom rfl rfl (Finset.insert_eq_of_mem hlive).symm (fun _ _ _ => rfl) h.fresh

theorem copyAttach (hroom : s.set.procTableSize < maxProcTableSize) :
    (s.call (.copyAttach p)).Tabled := by
  have hnew : ∀ q ∈ s.set.live, q ≠ s.set.nextProcess := fun q hq => Nat.ne_of_lt (h.fresh q hq)
  refine h.append (fun hmem => hnew _ (h.live _ hmem) rfl) hroom rfl rfl rfl
    (fun q hq _ => Function.update_of_ne (hnew q hq) _ _) fun q hq => ?_
  rcases Finset.mem_insert.1 hq with rfl | hq
  · exact Nat.lt_succ_self _
  · exact Nat.lt_succ_of_lt (h.fresh q hq)

theorem detach_other (hlive : p ∈ s.set.live) (hp : p ∉ s.attached) :
    (s.call (.detach p)).Tabled := by
  have hidx := h.free p hlive hp
  simp only [call]
  rw [SET.detachProcess_of_idx_nonpos (by omega), List.erase_of_not_mem hp]
  exact h

theorem detach_last (hlast : s.attached.getLast? = some p) (hlen : 1 < s.attached.length) :
    (s.call (.detach p)).Tabled := by
  obtain ⟨l, hl⟩ := List.getLast?_eq_some_iff.1 hlast
  have hnodup := h.nodup
  rw [hl, List.nodup_append] at hnodup
  have hp : p ∉ l := fun hmem => hnodup.2.2 p hmem p (List.mem_singleton_self p) rfl
  have hne : ∀ q ∈ l, q ≠ p := fun q hq heq => hp (heq ▸ hq)
  have hsize : s.set.procTableSize = l.length + 1 := by simp [h.size, hl]
  have hidx : (s.set.process p).idx = l.length := h.idx l.length p (by simp [hl])
  have herase : s.attached.erase p = l := by
    rw [hl, List.erase_append_right _ hp, List.erase_cons_head, List.append_nil]
  simp only [call, herase]
  rw [SET.detachProcess_of_idx_pos (by omega) (by simp [hl] at hlen; omega)]
  have hold : ∀ i, s.set.procTable i = (l ++ [p])[i]? := fun i => hl ▸ h.entry i
  refine ⟨hnodup.1, by simp [hsize], ?_, ?_, ?_, ?_, h.fresh⟩
  · intro i
    simp only [SET.shiftLeft_apply, hidx, Int.toNat_natCast, hsize, hold]
    rcases Nat.lt_or_ge i l.length with hi | hi
    · rw [if_neg (by omega), List.getElem?_append_left hi]
    · rw [List.getElem?_eq_none hi]
      split
      · exact List.getElem?_eq_none (by simp; omega)
      · exact List.getElem?_eq_none (by simp; omega)
  · intro i q hq
    simp only [SET.modify]
    rw [Function.update_of_ne (hne q (List.mem_of_getElem? hq))]
    refine h.idx i q ?_
    rw [hl, List.getElem?_append_left (List.getElem?_eq_some_iff.1 hq).1, hq]
  · intro q hq hno
    simp only [SET.modify]
    by_cases hqp : q = p
    · rw [hqp, Function.update_self]
    · rw [Function.update_of_ne hqp]
      exact h.free q hq (by simp [hl, hqp, hno])
  · exact fun q hq => h.live q (by simp [hl, hq])

theorem detach (hlive : p ∈ s.set.live) (hlast : s.LastDetached (.detach p)) :
    (s.call (.detach p)).Tabled := by
  by_cases hp : p ∈ s.attached
  · exact h.detach_last (hlast hp).1 (hlast hp).2
  · exact h.detach_other hlive hp

theorem delete (hp : p ∉ s.attached) : Tabled ⟨s.set.deleteProcess p, s.attached⟩ := by
  obtain ⟨hprocess, hnext, htable, hsize, -, -⟩ := SET.deleteProcess_same s.set p
  refine ⟨h.nodup, hsize.trans h.size, ?_, ?_, ?_, ?_, ?_⟩
  · exact fun i => (congrFun htable i).trans (h.entry i)
  · exact fun i q hq => (congrArg _ (congrFun hprocess q)).trans (h.idx i q hq)
  · exact fun q hq hno =>
      (congrArg _ (congrFun hprocess q)).trans (h.free q (Finset.mem_of_mem_erase hq) hno)
  · exact fun q hq => Finset.mem_erase.2 ⟨fun heq => hp (heq ▸ hq), h.live q hq⟩
  · intro q hq
    simp only [hnext]
    exact h.fresh q (Finset.mem_of_mem_erase hq)

theorem call {c : TableCall} (hadm : s.Admissible c) (hlast : s.LastDetached c) :
    (s.call c).Tabled := by
  match c with
  | .create => exact h.create
  | .attach p => exact h.attach hadm.1 hadm.2.1 hadm.2.2
  | .copyAttach p => exact h.copyAttach hadm.2
  | .detach p => exact h.detach hadm hlast
  | .endTracing p => exact (h.detach hadm hlast).delete h.nodup.not_mem_erase

/-- An entry that is removed from before the last one leaves the next process with a stale
index, and the first entry is not removed at all. -/
theorem lastDetached_of_tableRight (hright : (s.call (.detach p)).TableRight) :
    s.LastDetached (.detach p) := by
  intro hp
  obtain ⟨k, hk⟩ := List.mem_iff_getElem?.1 hp
  have hidx := h.idx k p hk
  have hkl := (List.getElem?_eq_some_iff.1 hk).1
  have hpos : 0 < k := by
    by_contra hzero
    have hentries := congrArg List.length hright.entries
    simp only [Attached.call,
      SET.detachProcess_of_idx_nonpos (show (s.set.process p).idx ≤ 0 by omega),
      List.length_map, List.length_range, List.length_erase_of_mem hp, h.size] at hentries
    omega
  by_contra hcon
  have hnext : k + 1 < s.attached.length := by
    by_contra hge
    refine hcon ⟨?_, by omega⟩
    rw [List.getLast?_eq_getElem?, show s.attached.length - 1 = k by omega, hk]
  have hq : s.attached[k + 1]? = some s.attached[k + 1] := List.getElem?_eq_getElem hnext
  have hne : s.attached[k + 1] ≠ p := by
    intro heq
    have := (List.getElem?_inj hkl h.nodup).1 (hk.trans (heq ▸ hq.symm))
    omega
  have hstale := hright.idx _ ((List.mem_erase_of_ne hne).2 (List.mem_of_getElem? hq))
  simp only [Attached.call] at hstale
  rw [SET.detachProcess_of_idx_pos (by rw [h.size]; omega) (by omega)] at hstale
  simp only [SET.modify, SET.shiftLeft_apply, Function.update_of_ne hne, h.idx _ _ hq, hidx, h.size,
    Int.toNat_natCast, h.entry] at hstale
  rw [if_pos (by omega)] at hstale
  have := (List.getElem?_inj hnext h.nodup).1 (hq.trans hstale.symm)
  omega

theorem tableRight_call_iff {c : TableCall} (hadm : s.Admissible c) :
    (s.call c).TableRight ↔ s.LastDetached c := by
  refine ⟨fun hright => ?_, fun hlast => (h.call hadm hlast).tableRight⟩
  match c with
  | .create | .attach _ | .copyAttach _ => exact trivial
  | .detach p => exact h.lastDetached_of_tableRight hright
  | .endTracing p =>
    obtain ⟨hprocess, -, htable, hsize, -, -⟩ := SET.deleteProcess_same (s.set.detachProcess p) p
    refine h.lastDetached_of_tableRight ⟨?_, hright.nodup, fun q hq => ?_⟩
    · have hentries := hright.entries
      rwa [Attached.call, hsize, htable] at hentries
    · have hidx := hright.idx q hq
      rwa [Attached.call, hprocess, htable] at hidx

end Tabled

/-- The table is right after every call, exactly when no process is detached from before the
last one or from the first place. -/
theorem tableRight_along_iff (cs : List TableCall) (hadm : Along call Admissible start cs) :
    (∀ before, before <+: cs → (before.foldl call start).TableRight) ↔
      Along call LastDetached start cs := by
  rw [Along.forall_prefix_iff, and_iff_right start_tabled.tableRight]
  exact Along.congr_of_invariant_of hadm (fun s c h hc => h.tableRight_call_iff hc)
    (fun s c h hc hok => h.call hc hok) start_tabled

theorem tableRight_last_detached :
    ([.create, .attach 0, .copyAttach 0, .copyAttach 1, .detach 2, .endTracing 1].foldl
      call start).TableRight :=
  (tableRight_along_iff _ (by decide)).2 (by decide) _ List.prefix_rfl

/-- The second of three processes ends, and the third keeps its old index. -/
theorem table_stale :
    ¬∀ cs : List TableCall, Along call Admissible start cs → (cs.foldl call start).TableRight := by
  intro h
  exact absurd (h [.create, .attach 0, .copyAttach 0, .copyAttach 0, .endTracing 1] (by decide))
    (by decide)

end Attached

end M2M.Tracing
