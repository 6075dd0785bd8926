import M2M.Vpmu.Threads

/-! The buffer of cache references between `cache_ref` and `dinero_thread` is a FIFO. -/

universe u

namespace M2M.Vpmu.Threads

open M2M.Lib M2M.Lib.Locked M2M.Lib.Ring

namespace TraceBuffer

variable {t t' : TraceBuffer}

def written (t : TraceBuffer) : List MemRef :=
  match t.ref.unwritten with
  | none => t.issued
  | some _ => t.issued.dropLast

/-- One for a line that is counted while the CPU thread still stands on it. -/
def published (t : TraceBuffer) : Nat :=
  if t.ref = .advance ∧ t.setUsed.owed .producer = 0 then 1 else 0

def released (t : TraceBuffer) : Nat :=
  if t.worker = .advance ∧ t.setUsed.owed .consumer = 0 then 1 else 0

/-- The worker is on a line that it reads. -/
def reading (t : TraceBuffer) : Prop :=
  t.worker = .read ∨ (∃ r, t.worker = .simulate r) ∨ t.worker = .advance

/-- The CPU thread stands on line `l` of the stream and the worker on line `m`. -/
structure Lines (t : TraceBuffer) (l m : Nat) : Prop where
  exclusive : t.setUsed.Exclusive
  refIdle : t.ref ≠ .advance → t.setUsed.update .producer = .idle
  workerIdle : t.worker ≠ .advance → t.setUsed.update .consumer = .idle
  written : t.written.length = traceQueueSize * l + t.index
  set : t.set = l % traceSet
  index : t.index = traceQueueSize ∧ t.ref = .advance ∨
    t.index < traceQueueSize ∧ t.ref ≠ .advance
  handed : t.handed.length = traceQueueSize * m + t.readIndex
  readSet : t.readSet = m % traceSet
  readIndex : t.readIndex = traceQueueSize ∧ t.worker = .advance ∨
    t.readIndex < traceQueueSize ∧ t.worker ≠ .advance
  resting : ¬ t.reading → t.readIndex = 0
  count : t.setUsed.value + m + t.released = l + t.published
  room : t.setUsed.value + t.setUsed.owed .producer ≤ traceSet
  place : ∀ r, t.ref = .write r → t.setUsed.value < traceSet
  busy : t.reading → t.released = 0 → 1 ≤ t.setUsed.value
  pending : ∀ r ∈ t.ref.unwritten, t.issued.getLast? = some r

/-- What has been handed over is the beginning of what was written, and the buffer holds
the rest. -/
structure Ordered (t : TraceBuffer) : Prop where
  order : t.handed = (t.written.take t.handed.length).map (fun r => (r.cache, r))
  ring : Holds (Slots.rows traceSet traceQueueSize) t.traceBuffer t.written t.handed.length
  copied : ∀ r, t.worker = .simulate r → t.written[t.handed.length]? = some r

structure Fifo (t : TraceBuffer) : Prop where
  lines : ∃ l m, Lines t l m
  ordered : Ordered t

theorem Lines.init : Lines .init 0 0 := by
  constructor
  case exclusive => exact .zero
  all_goals simp [TraceBuffer.init, TraceBuffer.written, Ref.unwritten, reading, released,
    published, Counter.owed, Counter.zero, Update.pending, traceSet, traceQueueSize]

variable {l m : Nat}

theorem Lines.cacheRef (h : Lines t l m) (ht : t.ref = .idle) (r : MemRef) :
    Lines (t.cacheRef r) l m := by
  obtain ⟨he, href, hworker, hwritten, hset, hindex, hhanded, hreadSet, hreadIndex, hresting,
    hcount, hroom, hplace, hbusy, hpending⟩ := h
  constructor <;>
    grind [TraceBuffer.cacheRef, TraceBuffer.written, Ref.unwritten, reading, released, published]

theorem Lines.update {s : Side} {f : Nat → Nat} {used : Counter} (h : Lines t l m)
    (hused : t.setUsed.step s f = some used)
    (hf : ∀ n, f n = if s = .producer then n + 1 else n - 1) :
    Lines { t with setUsed := used } l m := by
  have hstep := Counter.step_spec h.exclusive hused
  have hother := fun r hr => hstep.owed_other (t := r) hr
  obtain ⟨hexcl, hne, hupdate, hcounted⟩ := hstep
  obtain ⟨he, href, hworker, hwritten, hset, hindex, hhanded, hreadSet, hreadIndex, hresting,
    hcount, hroom, hplace, hbusy, hpending⟩ := h
  cases s with
  | producer =>
    have := hupdate .consumer (by decide)
    have := hother .consumer (by decide)
    constructor <;> grind [TraceBuffer.written, reading, released, published]
  | consumer =>
    have := hupdate .producer (by decide)
    have := hother .producer (by decide)
    constructor <;> grind [TraceBuffer.written, reading, released, published]

theorem Lines.refStep (h : Lines t l m) (ht : t.refStep = some t') :
    Lines t' l m ∨ Lines t' (l + 1) m := by
  unfold TraceBuffer.refStep at ht
  cases hr : t.ref with
  | idle => simp [hr] at ht
  | full r =>
    simp only [hr, Option.some.injEq] at ht
    subst ht
    left
    obtain ⟨he, href, hworker, hwritten, hset, hindex, hhanded, hreadSet, hreadIndex, hresting,
      hcount, hroom, hplace, hbusy, hpending⟩ := h
    constructor <;> grind [TraceBuffer.written, Ref.unwritten, reading, released, published]
  | write r =>
    simp only [hr] at ht
    have hidle := h.refIdle (by simp [hr])
    have hexcl := h.exclusive.start hidle
    have hself := Counter.owed_start_self hidle
    have hzero := Counter.owed_idle hidle
    have hother := Counter.owed_start_ne (c := t.setUsed)
      (show Side.consumer ≠ .producer by decide)
    have hupdate := Counter.setUpdate_ne t.setUsed .lock
      (show Side.consumer ≠ .producer by decide)
    have hvalue : (t.setUsed.start .producer).value = t.setUsed.value := rfl
    left
    obtain ⟨he, href, hworker, hwritten, hset, hindex, hhanded, hreadSet, hreadIndex, hresting,
      hcount, hroom, hplace, hbusy, hpending⟩ := h
    split at ht <;> cases ht <;> constructor <;>
      grind [TraceBuffer.written, Ref.unwritten, reading, released, published, Counter.start]
  | advance =>
    simp only [hr] at ht
    split at ht
    · simp only [Option.map_eq_some_iff] at ht
      obtain ⟨used, hused, rfl⟩ := ht
      left
      simpa only [hr] using h.update hused (by simp)
    · cases ht
      have hzero := Counter.owed_idle (c := t.setUsed) (s := .producer)
      right
      obtain ⟨he, href, hworker, hwritten, hset, hindex, hhanded, hreadSet, hreadIndex, hresting,
        hcount, hroom, hplace, hbusy, hpending⟩ := h
      constructor <;> grind [TraceBuffer.written, Ref.unwritten, reading, released, published,
        nextSet, traceSet, traceQueueSize]

theorem Lines.dineroThread {e : Bool} {passed : Option MemRef} (h : Lines t l m)
    (ht : t.dineroThread e = some (t', passed)) : Lines t' l m ∨ Lines t' l (m + 1) := by
  unfold TraceBuffer.dineroThread at ht
  cases hw : t.worker with
  | simulate r =>
    simp only [hw] at ht
    have hidle := h.workerIdle (by simp [hw])
    have hexcl := h.exclusive.start hidle
    have hself := Counter.owed_start_self hidle
    have hzero := Counter.owed_idle hidle
    have hother := Counter.owed_start_ne (c := t.setUsed)
      (show Side.producer ≠ .consumer by decide)
    have hupdate := Counter.setUpdate_ne t.setUsed .lock
      (show Side.producer ≠ .consumer by decide)
    have hvalue : (t.setUsed.start .consumer).value = t.setUsed.value := rfl
    left
    obtain ⟨he, href, hworker, hwritten, hset, hindex, hhanded, hreadSet, hreadIndex, hresting,
      hcount, hroom, hplace, hbusy, hpending⟩ := h
    split at ht <;> cases ht <;> constructor <;>
      grind [TraceBuffer.written, reading, released, published, Counter.start]
  | advance =>
    simp only [hw] at ht
    split at ht
    · simp only [Option.map_eq_some_iff] at ht
      obtain ⟨used, hused, heq⟩ := ht
      cases heq
      left
      simpa only [hw] using h.update hused (by simp)
    · cases ht
      have hzero := Counter.owed_idle (c := t.setUsed) (s := .consumer)
      right
      obtain ⟨he, href, hworker, hwritten, hset, hindex, hhanded, hreadSet, hreadIndex, hresting,
        hcount, hroom, hplace, hbusy, hpending⟩ := h
      constructor <;> grind [TraceBuffer.written, reading, released, published, nextSet, traceSet,
        traceQueueSize]
  | asleep z => simp [hw] at ht
  | _ =>
    simp only [hw, Option.some.injEq, Prod.mk.injEq] at ht
    obtain ⟨rfl, -⟩ := ht
    left
    obtain ⟨he, href, hworker, hwritten, hset, hindex, hhanded, hreadSet, hreadIndex, hresting,
      hcount, hroom, hplace, hbusy, hpending⟩ := h
    constructor <;> grind [TraceBuffer.written, reading, released, published]

theorem Lines.setSleep (h : Lines t l m) {z : Sleep} (hz : t.worker = .asleep z)
    (z' : Option Sleep) : Lines (t.setSleep z') l m := by
  obtain ⟨he, href, hworker, hwritten, hset, hindex, hhanded, hreadSet, hreadIndex, hresting,
    hcount, hroom, hplace, hbusy, hpending⟩ := h
  cases z' <;> constructor <;>
    grind [TraceBuffer.setSleep, TraceBuffer.written, reading, released, published]

theorem written_concat {r : MemRef} (h : r ∈ t.ref.unwritten)
    (hlast : t.issued.getLast? = some r) : t.issued = t.written ++ [r] := by
  have hw : t.written = t.issued.dropLast := by
    simp [TraceBuffer.written, Option.mem_def.mp h]
  rw [hw]
  exact (List.dropLast_append_getLast? r hlast).symm

theorem slot_line {l i : Nat} (hi : i < traceQueueSize) :
    (Slots.rows traceSet traceQueueSize).slot (traceQueueSize * l + i) = (l % traceSet, i) := by
  have hdiv : (traceQueueSize * l + i) / traceQueueSize = l := by
    rw [Nat.mul_add_div (by decide), Nat.div_eq_of_lt hi, Nat.add_zero]
  show ((traceQueueSize * l + i) / traceQueueSize % traceSet, _ % traceQueueSize) = _
  rw [hdiv, Nat.mul_add_mod, Nat.mod_eq_of_lt hi]

theorem Lines.handed_le (h : Lines t l m) : t.handed.length ≤ t.written.length := by
  obtain ⟨he, href, hworker, hwritten, hset, hindex, hhanded, hreadSet, hreadIndex, hresting,
    hcount, hroom, hplace, hbusy, hpending⟩ := h
  have hzero := Counter.owed_idle (c := t.setUsed) (s := .producer)
  grind [reading, released, published, traceQueueSize]

theorem Lines.handed_lt (h : Lines t l m) (hw : t.worker = .read) :
    t.handed.length < t.written.length := by
  obtain ⟨he, href, hworker, hwritten, hset, hindex, hhanded, hreadSet, hreadIndex, hresting,
    hcount, hroom, hplace, hbusy, hpending⟩ := h
  grind [reading, released, published, traceQueueSize]

theorem Lines.written_lt (h : Lines t l m) {r : MemRef} (hr : t.ref = .write r) :
    t.written.length < t.handed.length + (Slots.rows traceSet traceQueueSize).cap := by
  have hplace := h.place r hr
  obtain ⟨he, href, hworker, hwritten, hset, hindex, hhanded, hreadSet, hreadIndex, hresting,
    hcount, hroom, -, hbusy, hpending⟩ := h
  have hcap : (Slots.rows traceSet traceQueueSize).cap = 50000 := rfl
  grind [released, published, traceSet, traceQueueSize]

theorem Ordered.cacheRef (h : Ordered t) (ht : t.ref = .idle) (r : MemRef) :
    Ordered (t.cacheRef r) := by
  have hw : (t.cacheRef r).written = t.written := by
    simp [TraceBuffer.written, TraceBuffer.cacheRef, ht, Ref.unwritten]
  constructor
  case order => exact hw ▸ h.order
  case ring => exact hw ▸ h.ring
  case copied =>
    intro r' hr'
    exact hw ▸ h.copied r' hr'

theorem Ordered.write (h : Ordered t) (hl : Lines t l m) {r : MemRef} (hr : t.ref = .write r)
    {u : TraceBuffer} (hbuf : u.traceBuffer = Function.update t.traceBuffer (t.set, t.index) r)
    (hissued : u.issued = t.issued) (hhanded : u.handed = t.handed) (hworker : u.worker = t.worker)
    (href : u.ref.unwritten = none) : Ordered u := by
  have hu : u.written = t.written ++ [r] := by
    have hmem : r ∈ t.ref.unwritten := by simp [hr, Ref.unwritten]
    rw [← written_concat hmem (hl.pending r hmem), ← hissued]
    simp [TraceBuffer.written, href]
  have hindex : t.index < traceQueueSize := by
    rcases hl.index with ⟨-, h⟩ | ⟨h, -⟩
    · simp [hr] at h
    · exact h
  have hslot : (Slots.rows traceSet traceQueueSize).slot t.written.length = (t.set, t.index) := by
    rw [hl.written, slot_line hindex, hl.set]
  have hle := hl.handed_le
  constructor
  case order =>
    rw [hu, hhanded, List.take_append_of_le_length hle]
    exact h.order
  case ring =>
    rw [hu, hhanded, hbuf, ← hslot]
    exact h.ring.push (hl.written_lt hr) r
  case copied =>
    intro r' hr'
    rw [hu, hhanded]
    have := h.copied r' (hworker ▸ hr')
    rw [List.getElem?_append_left (List.getElem?_eq_some_iff.mp this).1]
    exact this

theorem Ordered.refStep (h : Ordered t) (hl : Lines t l m) (ht : t.refStep = some t') :
    Ordered t' := by
  unfold TraceBuffer.refStep at ht
  cases hr : t.ref with
  | idle => simp [hr] at ht
  | full r =>
    simp only [hr, Option.some.injEq] at ht
    subst ht
    have hw : TraceBuffer.written { t with
        ref := if t.setUsed.value = traceSet then .full r else .write r } = t.written := by
      split <;> simp [TraceBuffer.written, hr, Ref.unwritten]
    exact ⟨by rw [hw]; exact h.order, by rw [hw]; exact h.ring, by rw [hw]; exact h.copied⟩
  | write r =>
    simp only [hr] at ht
    split at ht <;> cases ht <;> exact h.write hl hr rfl rfl rfl rfl rfl
  | advance =>
    simp only [hr] at ht
    have hw : t.written = t.issued := by simp [TraceBuffer.written, hr, Ref.unwritten]
    obtain ⟨horder, hring, hcopied⟩ := h
    rw [hw] at horder hring hcopied
    split at ht
    · simp only [Option.map_eq_some_iff] at ht
      obtain ⟨used, hused, rfl⟩ := ht
      exact ⟨horder, hring, hcopied⟩
    · cases ht
      exact ⟨horder, hring, hcopied⟩

theorem Ordered.setWorker (h : Ordered t) {u : TraceBuffer} (hbuf : u.traceBuffer = t.traceBuffer)
    (hwritten : u.written = t.written) (hhanded : u.handed = t.handed)
    (hcopied : ∀ r, u.worker = .simulate r → t.written[t.handed.length]? = some r) :
    Ordered u := by
  constructor
  case order =>
    rw [hhanded, hwritten]
    exact h.order
  case ring =>
    rw [hhanded, hwritten, hbuf]
    exact h.ring
  case copied =>
    intro r hr
    rw [hhanded, hwritten]
    exact hcopied r hr

theorem Ordered.simulate (h : Ordered t) {r : MemRef} (hw : t.worker = .simulate r)
    {u : TraceBuffer} (hbuf : u.traceBuffer = t.traceBuffer) (hwritten : u.written = t.written)
    (hhanded : u.handed = t.handed ++ [(r.cache, r)])
    (hcopied : ∀ r, u.worker ≠ .simulate r) : Ordered u := by
  have hlen : u.handed.length = t.handed.length + 1 := by rw [hhanded, List.length_append]; rfl
  constructor
  case order =>
    rw [hlen, hwritten, hhanded, take_succ_of_getElem? (h.copied r hw), List.map_append, ← h.order]
    rfl
  case ring =>
    rw [hlen, hwritten, hbuf]
    exact h.ring.mono (Nat.le_succ _)
  case copied =>
    intro r' hr'
    exact absurd hr' (hcopied r')

theorem Ordered.dineroThread {e : Bool} {passed : Option MemRef} (h : Ordered t)
    (hl : Lines t l m) (ht : t.dineroThread e = some (t', passed)) : Ordered t' := by
  unfold TraceBuffer.dineroThread at ht
  cases hw : t.worker with
  | read =>
    simp only [hw, Option.some.injEq, Prod.mk.injEq] at ht
    obtain ⟨rfl, -⟩ := ht
    refine h.setWorker rfl rfl rfl ?_
    have hindex : t.readIndex < traceQueueSize := by
      rcases hl.readIndex with ⟨-, h⟩ | ⟨h, -⟩
      · simp [hw] at h
      · exact h
    rintro r ⟨⟩
    rw [h.ring.read (hl.handed_lt hw), hl.handed, slot_line hindex, hl.readSet]
  | simulate r =>
    simp only [hw] at ht
    split at ht <;> cases ht <;> exact h.simulate hw rfl rfl rfl nofun
  | advance =>
    simp only [hw] at ht
    split at ht
    · simp only [Option.map_eq_some_iff] at ht
      obtain ⟨used, hused, heq⟩ := ht
      cases heq
      exact h.setWorker rfl rfl rfl nofun
    · cases ht
      exact h.setWorker rfl rfl rfl nofun
  | asleep z => simp [hw] at ht
  | _ =>
    simp only [hw, Option.some.injEq, Prod.mk.injEq] at ht
    obtain ⟨rfl, -⟩ := ht
    refine h.setWorker rfl rfl rfl ?_
    intro r hr
    split at hr <;> cases hr

theorem Ordered.setSleep (h : Ordered t) (z : Option Sleep) : Ordered (t.setSleep z) := by
  refine h.setWorker rfl rfl rfl ?_
  cases z <;> nofun

theorem Fifo.init : Fifo .init := ⟨⟨0, 0, .init⟩, rfl, .nil _ _ _, nofun⟩

/-- What a step of the machine does to the buffer. -/
inductive Moved (t : TraceBuffer) : TraceBuffer → Prop
  | stay : Moved t t
  | cacheRef (r : MemRef) (ht : t.ref = .idle) : Moved t (t.cacheRef r)
  | refStep {u : TraceBuffer} (hu : t.refStep = some u) : Moved t u
  | dineroThread {e : Bool} {u : TraceBuffer} {passed : Option MemRef}
    (hu : t.dineroThread e = some (u, passed)) : Moved t u
  | setSleep {z : Sleep} (hz : t.worker = .asleep z) (z' : Option Sleep) : Moved t (t.setSleep z')

theorem Fifo.moved (h : Fifo t) (ht : Moved t t') : Fifo t' := by
  obtain ⟨⟨l, m, hl⟩, ho⟩ := h
  cases ht with
  | stay => exact ⟨⟨l, m, hl⟩, ho⟩
  | cacheRef r ht => exact ⟨⟨l, m, hl.cacheRef ht r⟩, ho.cacheRef ht r⟩
  | refStep hu =>
    refine ⟨?_, ho.refStep hl hu⟩
    rcases hl.refStep hu with h | h
    · exact ⟨l, m, h⟩
    · exact ⟨l + 1, m, h⟩
  | dineroThread hu =>
    refine ⟨?_, ho.dineroThread hl hu⟩
    rcases hl.dineroThread hu with h | h
    · exact ⟨l, m, h⟩
    · exact ⟨l, m + 1, h⟩
  | setSleep hz z' => exact ⟨⟨l, m, hl.setSleep hz z'⟩, ho.setSleep z'⟩

theorem written_prefix (t : TraceBuffer) : t.written <+: t.issued := by
  unfold TraceBuffer.written
  split
  · exact List.prefix_rfl
  · exact List.dropLast_prefix _

theorem Fifo.prefix (h : Fifo t) : t.handed <+: t.issued.map (fun r => (r.cache, r)) := by
  rw [h.ordered.order]
  exact ((List.take_prefix _ _).trans t.written_prefix).map _

end TraceBuffer

section Runs

variable {σ : Type u} {d : Simulator σ} {s t : State σ}

theorem wake_trace (s : State σ) (w : Worker) : TraceBuffer.Moved s.trace (s.wake w).trace := by
  cases w with
  | branch => exact .stay
  | dinero =>
    by_cases hw : s.trace.worker = .asleep .blocked
    · simpa [State.wake, hw] using TraceBuffer.Moved.setSleep hw _
    · simpa [State.wake, hw] using TraceBuffer.Moved.stay

theorem step_trace {a : Act} (ht : step d s a = some t) : TraceBuffer.Moved s.trace t.trace := by
  cases a with
  | ref addr rw dataSize =>
    simp only [step] at ht
    split at ht
    · rename_i h
      cases ht
      exact .cacheRef _ (by simpa [TraceBuffer.referring] using (Bool.and_eq_true_iff.mp h.1).2)
    · cases ht
  | putStep =>
    simp only [step, Option.map_eq_some_iff] at ht
    obtain ⟨q, -, rfl⟩ := ht
    exact .stay
  | refStep =>
    simp only [step, Option.map_eq_some_iff] at ht
    obtain ⟨u, hu, rfl⟩ := ht
    exact .refStep hu
  | cpu =>
    simp only [step, State.cpuStep] at ht
    cases hs : s.cpu with
    | run => simp [hs] at ht
    | signalBranch m =>
      simp only [hs, Option.some.injEq] at ht
      subst ht
      split
      · exact wake_trace s .branch
      · exact .stay
    | signalCache m =>
      simp only [hs, Option.some.injEq] at ht
      subst ht
      split
      · exact wake_trace s .dinero
      · exact .stay
    | _ =>
      simp only [hs, Option.some.injEq] at ht
      subst ht
      exact .stay
  | worker w =>
    cases w with
    | branch =>
      simp only [step, State.branchStep] at ht
      split at ht
      all_goals
        simp only [Option.map_eq_some_iff] at ht
        obtain ⟨p, -, rfl⟩ := ht
        exact .stay
    | dinero =>
      simp only [step, State.dineroStep] at ht
      split at ht
      · rename_i z hz
        simp only [Option.map_eq_some_iff] at ht
        obtain ⟨⟨z', m⟩, -, rfl⟩ := ht
        exact .setSleep hz z'
      · simp only [Option.map_eq_some_iff] at ht
        obtain ⟨⟨u, passed⟩, hu, rfl⟩ := ht
        exact .dineroThread hu
  | spurious w =>
    cases ht
    exact wake_trace s w
  | _ =>
    simp only [step] at ht
    split at ht <;> cases ht
    exact .stay

theorem refStep_frame {b c : TraceBuffer} (hc : b.refStep = some c) :
    b.ref ≠ .idle ∧ c.issued = b.issued ∧ c.handed = b.handed := by
  unfold TraceBuffer.refStep at hc
  cases hr : b.ref with
  | idle => simp [hr] at hc
  | full r =>
    simp only [hr, Option.some.injEq] at hc
    subst hc
    exact ⟨nofun, rfl, rfl⟩
  | write r =>
    simp only [hr] at hc
    split at hc <;> cases hc <;> exact ⟨nofun, rfl, rfl⟩
  | advance =>
    simp only [hr] at hc
    split at hc
    · simp only [Option.map_eq_some_iff] at hc
      obtain ⟨used, -, rfl⟩ := hc
      exact ⟨nofun, rfl, rfl⟩
    · cases hc
      exact ⟨nofun, rfl, rfl⟩

theorem dineroThread_passed {b c : TraceBuffer} {e : Bool} {passed : Option MemRef}
    (hc : b.dineroThread e = some (c, passed)) :
    c.issued = b.issued ∧ c.ref = b.ref ∧ c.index = b.index ∧
      (passed = none ∧ c.handed = b.handed ∨
        ∃ r, b.worker = .simulate r ∧ passed = some r ∧
          c.handed = b.handed ++ [(r.cache, r)]) := by
  unfold TraceBuffer.dineroThread at hc
  cases hw : b.worker with
  | simulate r =>
    simp only [hw] at hc
    split at hc <;> cases hc <;> exact ⟨rfl, rfl, rfl, .inr ⟨r, rfl, rfl, rfl⟩⟩
  | advance =>
    simp only [hw] at hc
    split at hc
    · simp only [Option.map_eq_some_iff] at hc
      obtain ⟨used, -, heq⟩ := hc
      cases heq
      exact ⟨rfl, rfl, rfl, .inl ⟨rfl, rfl⟩⟩
    · cases hc
      exact ⟨rfl, rfl, rfl, .inl ⟨rfl, rfl⟩⟩
  | asleep z => simp [hw] at hc
  | _ =>
    simp only [hw, Option.some.injEq, Prod.mk.injEq] at hc
    obtain ⟨rfl, rfl⟩ := hc
    exact ⟨rfl, rfl, rfl, .inl ⟨rfl, rfl⟩⟩

theorem traceFifo_of_reachableWhen {caches : σ} {ok : State σ → Act → Prop}
    (h : Machine.ReachableWhen (Init caches) (step d) ok s) : s.trace.Fifo := by
  refine @Machine.ReachableWhen.invariant _ _ _ _ _ (fun s => s.trace.Fifo) ?_ ?_ _ h
  · rintro s rfl
    exact .init
  · intro s a t hi _ ht
    exact hi.moved (step_trace ht)

/-- The count of full lines stays within the buffer, the CPU thread writes to no place from which
a reference has still to be read, and `d4ref` is called with the first references of those that
`cache_ref` was called with, in their order. -/
theorem traceBuffer_fifo {caches : σ} (h : Machine.Reachable (Init caches) (step d) s) :
    s.trace.setUsed.value ≤ traceSet ∧
      (∀ r, s.trace.ref = .write r → ∀ i, s.trace.handed.length ≤ i →
        i + 1 < s.trace.issued.length →
        (i / traceQueueSize % traceSet, i % traceQueueSize) ≠ (s.trace.set, s.trace.index) ∧
          s.trace.issued[i]? =
            some (s.trace.traceBuffer (i / traceQueueSize % traceSet, i % traceQueueSize))) ∧
      s.trace.handed <+: s.trace.issued.map (fun r => (r.cache, r)) := by
  have hf := traceFifo_of_reachableWhen h
  obtain ⟨l, m, hl⟩ := hf.lines
  refine ⟨Nat.le_trans (Nat.le_add_right _ _) hl.room, ?_, hf.prefix⟩
  intro r hr i hi hlen
  have hindex : s.trace.index < traceQueueSize := by
    rcases hl.index with ⟨-, h⟩ | ⟨h, -⟩
    · simp [hr] at h
    · exact h
  have hmem : r ∈ s.trace.ref.unwritten := by simp [hr, Ref.unwritten]
  have hissued := TraceBuffer.written_concat hmem (hl.pending r hmem)
  have hiw : i < s.trace.written.length := by
    rw [hissued, List.length_append, List.length_singleton] at hlen
    omega
  have hw := List.getElem?_eq_getElem hiw
  -- the worker reads the references from the slots of the ring, in their order
  change (Slots.rows traceSet traceQueueSize).slot i ≠ _ ∧
    _ = some (s.trace.traceBuffer ((Slots.rows traceSet traceQueueSize).slot i))
  constructor
  · have := hl.written_lt hr
    rw [hl.set, ← TraceBuffer.slot_line (l := l) hindex, ← hl.written]
    exact (Slots.rows traceSet traceQueueSize).slot_ne hiw (by omega)
  · rw [hissued, List.getElem?_append_left hiw, hw, hf.ordered.ring i hi _ hw]

end Runs

/-- The worker is inside a line while the CPU thread begins the next one. -/
theorem traceBuffer_fifo_line : ∃ s : State (Nat × Nat),
    Machine.Reachable (Init (0, 0)) (step accessCounts) s ∧
      s.trace.ref = .write ⟨8, d4xinstrn, 4⟩ ∧ s.trace.handed.length = 3 ∧
      s.trace.setUsed.value ≤ traceSet ∧
      ((0, 3) ≠ (s.trace.set, s.trace.index) ∧
        s.trace.issued[3]? = some (s.trace.traceBuffer (0, 3))) ∧
      s.trace.handed <+: s.trace.issued.map (fun r => (r.cache, r)) := by
  obtain ⟨s, hs, hp⟩ := Machine.exists_reachable (Init (0, 0)) (step accessCounts)
    (List.flatten [enableAll .e, refLine 4 0 4, List.replicate 8 (.worker .dinero),
      [.ref 8 2 4, .refStep]])
    (fun s => s.trace.ref == .write ⟨8, d4xinstrn, 4⟩ && s.trace.handed.length == 3 &&
      s.trace.issued.length == 101) rfl (by decide +kernel)
  simp only [Bool.and_eq_true, beq_iff_eq] at hp
  obtain ⟨⟨href, hhanded⟩, hissued⟩ := hp
  obtain ⟨hused, hplace, hprefix⟩ := traceBuffer_fifo hs
  exact ⟨s, hs, href, hhanded, hused, hplace _ href 3 (by omega) (by omega), hprefix⟩

end M2M.Vpmu.Threads
