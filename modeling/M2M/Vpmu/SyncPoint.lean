import M2M.Vpmu.TraceRing

/-! What `dinero_thread` has simulated when `VPMU_sync_all` returns, against the build
without `CONFIG_VPMU_THREAD`. -/

universe u

namespace M2M.Vpmu.Threads

open M2M.Lib M2M.Lib.Locked M2M.Lib.Ring

/-- No line has been begun, and the worker has passed on the last reference of the full
ones. -/
def TraceBuffer.drained (t : TraceBuffer) : Bool :=
  t.index = 0 && t.setUsed.value = if t.worker = .advance then t.setUsed.owed .consumer else 0

section Runs

variable {σ : Type u} {d : Simulator σ} {s t : State σ}

/-- `VPMU_reset` finds the buffer drained, and `VPMU_sync_all` finds no line begun. -/
def LinesFull (s : State σ) : Act → Prop
  | .enable _ | .reset => s.trace.drained = true
  | .sync => s.cacheOn = true → s.trace.index = 0
  | _ => True

instance (s : State σ) (a : Act) : Decidable (LinesFull s a) :=
  match a with
  | .enable _ | .reset => inferInstanceAs (Decidable (_ = _))
  | .sync => inferInstanceAs (Decidable (_ → _))
  | .put _ | .putStep | .ref .. | .refStep | .disable | .cpu | .worker _ | .spurious _ =>
    .isTrue trivial

theorem TraceBuffer.Fifo.handed_length {b : TraceBuffer} (h : b.Fifo) (href : b.ref = .idle)
    (hd : b.drained = true) : b.handed.length = b.issued.length := by
  obtain ⟨l, m, hl⟩ := h.lines
  have hwritten : b.written = b.issued := by simp [TraceBuffer.written, href, Ref.unwritten]
  have hlen := hl.written
  rw [hwritten] at hlen
  simp only [TraceBuffer.drained, Bool.and_eq_true, decide_eq_true_eq] at hd
  have howed : b.setUsed.owed .consumer ≤ 1 := by
    unfold Counter.owed
    split <;> omega
  obtain ⟨he, href', hworker, -, hset, hindex, hhanded, hreadSet, hreadIndex, hresting,
    hcount, hroom, hplace, hbusy, hpending⟩ := hl
  grind [TraceBuffer.reading, TraceBuffer.released, TraceBuffer.published, traceQueueSize]

theorem TraceBuffer.Fifo.drained_of_empty {b : TraceBuffer} (h : b.Fifo) (hindex : b.index = 0)
    (hempty : b.setUsed.value = 0) : b.drained = true := by
  obtain ⟨l, m, hl⟩ := h.lines
  have hbusy := hl.busy
  simp only [TraceBuffer.drained, hindex, hempty]
  grind [TraceBuffer.reading, TraceBuffer.released]

/-- The references that are issued and not passed on yet are what the two caches differ
by. -/
structure Behind (d : Simulator σ) (s : State σ) : Prop where
  fifo : s.trace.Fifo
  behind : (s.trace.issued.drop s.trace.handed.length).foldl d.pass s.caches = s.unthreaded
  marks : s.issuedAtReset ≤ s.handedAtReset
  begun : s.cpu = .sync → s.trace.ref = .idle ∧ s.trace.index = 0
  synced : s.cpu = .synced → s.trace.ref = .idle ∧ s.trace.handed.length = s.trace.issued.length

/-- What the comparison of the two builds looks at. -/
def State.stream (s : State σ) :=
  ((s.trace.issued, s.trace.handed, s.trace.ref, s.trace.index), (s.caches, s.unthreaded),
    (s.issuedAtReset, s.handedAtReset))

theorem Behind.frame (h : Behind d s) (hf : t.trace.Fifo) (hstream : t.stream = s.stream)
    (hcpu : t.cpu = s.cpu ∨ t.cpu ≠ .sync ∧ t.cpu ≠ .synced) : Behind d t := by
  simp only [State.stream, Prod.mk.injEq] at hstream
  obtain ⟨⟨hissued, hhanded, href, hindex⟩, ⟨hcaches, hunthreaded⟩, hi, hh⟩ := hstream
  obtain ⟨-, hbehind, hmarks, hbegun, hsynced⟩ := h
  constructor
  case fifo => exact hf
  case behind => rw [hissued, hhanded, hcaches, hunthreaded, hbehind]
  case marks => rw [hi, hh]; exact hmarks
  case begun =>
    intro hs
    rw [href, hindex]
    rcases hcpu with hcpu | hcpu
    · exact hbegun (hcpu ▸ hs)
    · exact absurd hs hcpu.1
  case synced =>
    intro hs
    rw [href, hissued, hhanded]
    rcases hcpu with hcpu | hcpu
    · exact hsynced (hcpu ▸ hs)
    · exact absurd hs hcpu.2

theorem Behind.cacheRef (h : Behind d s) (href : s.trace.ref = .idle) (hcpu : s.cpu = .run)
    (r : MemRef) :
    Behind d { s with trace := s.trace.cacheRef r, unthreaded := d.pass s.unthreaded r } := by
  have hle := h.fifo.prefix.length_le
  rw [List.length_map] at hle
  constructor
  case fifo => exact h.fifo.moved (.cacheRef r href)
  case behind =>
    show ((s.trace.issued ++ [r]).drop s.trace.handed.length).foldl d.pass s.caches = _
    rw [List.drop_append_of_le_length hle, List.foldl_append, h.behind]
    rfl
  case marks => exact h.marks
  case begun => simp [hcpu]
  case synced => simp [hcpu]

theorem Behind.refStep (h : Behind d s) {c : TraceBuffer} (hc : s.trace.refStep = some c) :
    Behind d { s with trace := c } := by
  obtain ⟨hbusy, hissued, hhanded⟩ := refStep_frame hc
  constructor
  case fifo => exact h.fifo.moved (.refStep hc)
  case behind =>
    show (c.issued.drop c.handed.length).foldl d.pass s.caches = s.unthreaded
    rw [hissued, hhanded, h.behind]
  case marks => exact h.marks
  case begun => exact fun hs => absurd (h.begun hs).1 hbusy
  case synced => exact fun hs => absurd (h.synced hs).1 hbusy

theorem Behind.reset (h : Behind d s) (href : s.trace.ref = .idle) (hcpu : s.cpu = .run)
    (hd : s.trace.drained = true) : Behind d (s.reset d) := by
  have hlen := h.fifo.handed_length href hd
  have hcaches : s.caches = s.unthreaded := by
    have := h.behind
    rwa [hlen, List.drop_length] at this
  constructor
  case fifo => exact h.fifo
  case behind =>
    show (s.trace.issued.drop s.trace.handed.length).foldl d.pass (d.resetCache s.caches) = _
    rw [hlen, List.drop_length, hcaches]
    rfl
  case marks => exact Nat.le_of_eq hlen.symm
  case begun => simp [State.reset, hcpu]
  case synced => simp [State.reset, hcpu]

theorem wake_stream (s : State σ) (w : Worker) : (s.wake w).stream = s.stream ∧
    (s.wake w).cpu = s.cpu := by
  cases w with
  | branch => exact ⟨rfl, rfl⟩
  | dinero =>
    by_cases hw : s.trace.worker = .asleep .blocked <;> simp [State.wake, State.stream, hw,
      TraceBuffer.setSleep]

theorem Behind.dineroThread (h : Behind d s) {c : TraceBuffer} {passed : Option MemRef}
    (hc : s.trace.dineroThread s.vpmuEnabled = some (c, passed)) :
    Behind d { s with trace := c, caches := passed.elim s.caches (d.pass s.caches) } := by
  have hf := h.fifo.moved (.dineroThread hc)
  obtain ⟨hissued, href, hindex, ⟨rfl, hhanded⟩ | ⟨r, hw, rfl, hhanded⟩⟩ := dineroThread_passed hc
  · exact h.frame hf (by simp [State.stream, hissued, hhanded, href, hindex]) (.inl rfl)
  · obtain ⟨l, m, hl⟩ := h.fifo.lines
    have hcopied := h.fifo.ordered.copied r hw
    have hget : s.trace.issued[s.trace.handed.length]? = some r := by
      obtain ⟨more, hmore⟩ := s.trace.written_prefix
      rw [← hmore, List.getElem?_append_left (List.getElem?_eq_some_iff.mp hcopied).1]
      exact hcopied
    obtain ⟨hlt, hr⟩ := List.getElem?_eq_some_iff.mp hget
    have hbehind := h.behind
    rw [List.drop_eq_getElem_cons hlt, hr] at hbehind
    constructor
    case fifo => exact hf
    case behind =>
      show (c.issued.drop c.handed.length).foldl d.pass (d.pass s.caches r) = s.unthreaded
      rw [hissued, hhanded, List.length_append, List.length_singleton]
      exact hbehind
    case marks => exact h.marks
    case begun =>
      show s.cpu = .sync → c.ref = .idle ∧ c.index = 0
      rw [href, hindex]
      exact h.begun
    case synced =>
      intro hs
      have := (h.synced hs).2
      omega

theorem Behind.step {a : Act} (h : Behind d s) (hok : LinesFull s a) (ht : step d s a = some t) :
    Behind d t := by
  have hf := h.fifo.moved (step_trace ht)
  have hidle : s.idle = true → s.cpu = .run ∧ s.trace.ref = .idle := by
    intro hi
    simp only [State.idle, Bool.and_eq_true, decide_eq_true_eq, TraceBuffer.referring,
      Bool.not_eq_true', decide_eq_false_iff_not, not_not] at hi
    exact ⟨hi.1.1, hi.2⟩
  cases a with
  | ref addr rw dataSize =>
    simp only [Threads.step] at ht
    split at ht
    · rename_i hi
      cases ht
      exact h.cacheRef (hidle hi.1).2 (hidle hi.1).1 _
    · cases ht
  | refStep =>
    simp only [Threads.step, Option.map_eq_some_iff] at ht
    obtain ⟨b, hb, rfl⟩ := ht
    exact h.refStep hb
  | enable m =>
    simp only [Threads.step] at ht
    split at ht
    · rename_i hi
      cases ht
      have hr := h.reset (hidle hi).2 (hidle hi).1 hok
      exact hr.frame hf rfl (.inr (by simp))
    · cases ht
  | reset =>
    simp only [Threads.step] at ht
    split at ht
    · rename_i hi
      cases ht
      exact h.reset (hidle hi).2 (hidle hi).1 hok
    · cases ht
  | sync =>
    simp only [Threads.step] at ht
    split at ht
    · rename_i hi
      cases ht
      obtain ⟨hcpu, href⟩ := hidle hi
      refine ⟨hf, h.behind, h.marks, ?_, ?_⟩
      · intro hs
        refine ⟨href, hok ?_⟩
        by_contra hoff
        simp [hoff] at hs
      · intro hs
        split at hs <;> cases hs
    · cases ht
  | cpu =>
    simp only [Threads.step, State.cpuStep] at ht
    cases hs : s.cpu with
    | run => simp [hs] at ht
    | sync =>
      simp only [hs, Option.some.injEq] at ht
      subst ht
      obtain ⟨href, hindex⟩ := h.begun hs
      refine ⟨hf, h.behind, h.marks, fun _ => ⟨href, hindex⟩, ?_⟩
      intro hsynced
      refine ⟨href, h.fifo.handed_length href (h.fifo.drained_of_empty hindex ?_)⟩
      by_contra hvalue
      simp [Nat.pos_of_ne_zero hvalue] at hsynced
    | signalBranch m =>
      simp only [hs, Option.some.injEq] at ht
      subst ht
      refine h.frame hf ?_ (.inr (by simp))
      split
      · exact (wake_stream s .branch).1
      · rfl
    | signalCache m =>
      simp only [hs, Option.some.injEq] at ht
      subst ht
      refine h.frame hf ?_ (.inr (by simp))
      split
      · exact (wake_stream s .dinero).1
      · rfl
    | _ =>
      simp only [hs, Option.some.injEq] at ht
      subst ht
      exact h.frame hf rfl (.inr (by simp))
  | worker w =>
    cases w with
    | branch =>
      simp only [Threads.step, State.branchStep] at ht
      split at ht
      all_goals
        simp only [Option.map_eq_some_iff] at ht
        obtain ⟨p, -, rfl⟩ := ht
        exact h.frame hf rfl (.inl rfl)
    | dinero =>
      simp only [Threads.step, State.dineroStep] at ht
      split at ht
      · simp only [Option.map_eq_some_iff] at ht
        obtain ⟨⟨z', m⟩, -, rfl⟩ := ht
        exact h.frame hf rfl (.inl rfl)
      · simp only [Option.map_eq_some_iff] at ht
        obtain ⟨⟨c, passed⟩, hc, rfl⟩ := ht
        exact h.dineroThread hc
  | spurious w =>
    cases ht
    have := wake_stream s w
    exact h.frame hf this.1 (.inl this.2)
  | putStep =>
    simp only [Threads.step, Option.map_eq_some_iff] at ht
    obtain ⟨q, -, rfl⟩ := ht
    exact h.frame hf rfl (.inl rfl)
  | _ =>
    simp only [Threads.step] at ht
    split at ht <;> cases ht
    exact h.frame hf rfl (.inl rfl)

theorem behind_of_reachable {caches : σ}
    (h : Machine.ReachableWhen (Init caches) (step d) LinesFull s) : Behind d s := by
  refine Machine.ReachableWhen.invariant ?_ ?_ h
  · rintro s rfl
    exact ⟨.init, rfl, Nat.le_refl 0, nofun, nofun⟩
  · intro s a t hi hok ht
    exact hi.step hok ht

/-- When `VPMU_sync_all` has returned, `d4ref` has been called with every reference issued
so far, and the caches are those of the build without threads.  The references passed on
after a `VPMU_reset` are issued after it. -/
theorem sync_point {caches : σ}
    (h : Machine.ReachableWhen (Init caches) (step d) LinesFull s) :
    (s.cpu = .synced → s.trace.handed = s.trace.issued.map (fun r => (r.cache, r)) ∧
      s.caches = s.unthreaded) ∧ s.issuedAtReset ≤ s.handedAtReset := by
  have hb := behind_of_reachable h
  refine ⟨?_, hb.marks⟩
  intro hs
  have hlen := (hb.synced hs).2
  constructor
  · exact hb.fifo.prefix.eq_of_length (by rw [List.length_map, hlen])
  · have := hb.behind
    rwa [hlen, List.drop_length] at this

end Runs

/-- A full line has been simulated when the CPU thread synchronises. -/
theorem sync_point_line : ∃ s : State (Nat × Nat),
    Machine.ReachableWhen (Init (0, 0)) (step accessCounts) LinesFull s ∧
      s.trace.issued.length = 100 ∧
      s.trace.handed = s.trace.issued.map (fun r => (r.cache, r)) ∧ s.caches = s.unthreaded ∧
      s.issuedAtReset ≤ s.handedAtReset := by
  obtain ⟨s, hs, hp⟩ := Machine.exists_reachableWhen (Init (0, 0)) (step accessCounts) LinesFull
    (List.flatten [enableAll .e, refLine 4 0 4, dineroRound, [.sync, .cpu]])
    (fun s => s.cpu == .synced && s.trace.issued.length == 100) rfl (by decide +kernel)
  simp only [Bool.and_eq_true, beq_iff_eq] at hp
  obtain ⟨hsync, hmarks⟩ := sync_point hs
  exact ⟨s, hs, hp.2, (hsync hp.1).1, (hsync hp.1).2, hmarks⟩

/-- `VPMU_sync_all` returns while a reference waits in a line that has been begun; and a
reference issued before a `VPMU_reset` is simulated after it. -/
theorem sync_point_missed :
    (∃ s : State (Nat × Nat), Machine.Reachable (Init (0, 0)) (step accessCounts) s ∧
      s.cpu = .synced ∧ s.trace.issued.length = 1 ∧ s.trace.handed = [] ∧
      s.caches = (0, 0) ∧ s.unthreaded = (0, 1)) ∧
    (∃ s : State (Nat × Nat), Machine.Reachable (Init (0, 0)) (step accessCounts) s ∧
      s.issuedAtReset = 1 ∧ s.handedAtReset = 0 ∧
      s.caches = (0, 100) ∧ s.unthreaded = (0, 99)) := by
  constructor
  · obtain ⟨s, hs, hp⟩ := Machine.exists_reachable (Init (0, 0)) (step accessCounts)
      (List.flatten [enableAll .e, refAll 4 0 4, [.sync, .cpu]])
      (fun s => s.cpu == .synced && s.trace.issued.length == 1 && s.trace.handed == [] &&
        s.caches == (0, 0) && s.unthreaded == (0, 1)) rfl (by decide +kernel)
    simp only [Bool.and_eq_true, beq_iff_eq] at hp
    obtain ⟨⟨⟨⟨hcpu, hissued⟩, hhanded⟩, hcaches⟩, hunthreaded⟩ := hp
    exact ⟨s, hs, hcpu, hissued, hhanded, hcaches, hunthreaded⟩
  · obtain ⟨s, hs, hp⟩ := Machine.exists_reachable (Init (0, 0)) (step accessCounts)
      (List.flatten [enableAll .e, refAll 4 0 4, enableAll .e,
        (List.replicate 99 (refAll 4 0 4)).flatten, List.replicate 5 .refStep, dineroRound])
      (fun s => s.issuedAtReset == 1 && s.handedAtReset == 0 && s.caches == (0, 100) &&
        s.unthreaded == (0, 99)) rfl (by decide +kernel)
    simp only [Bool.and_eq_true, beq_iff_eq] at hp
    obtain ⟨⟨⟨hissued, hhanded⟩, hcaches⟩, hunthreaded⟩ := hp
    exact ⟨s, hs, hissued, hhanded, hcaches, hunthreaded⟩

end M2M.Vpmu.Threads
