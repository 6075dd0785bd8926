import M2M.Vpmu.Threads

/-! The ring of branch signals between `put_event` and `branch_thread` is a FIFO. -/

universe u

namespace M2M.Vpmu.Threads

open M2M.Lib M2M.Lib.Locked M2M.Lib.Ring

namespace BranchQueue

variable {q q' : BranchQueue}

/-- The signals as `put_event` stores them. -/
def stored (q : BranchQueue) : List UInt8 := q.issued.map UInt32.toUInt8

/-- One for a signal that is in the ring but not behind the head. -/
def fresh (q : BranchQueue) : Nat := if q.put = .full then 1 else 0

def stale (q : BranchQueue) : Nat := if q.worker = .fill then 1 else 0

/-- The count is the number of signals between the two ends, up to the updates that are
under way. -/
structure Counted (q : BranchQueue) : Prop where
  exclusive : q.branchBufferSize.Exclusive
  putIdle : q.put = .full → q.branchBufferSize.update .producer = .idle
  workerIdle : q.worker ≠ .enabled → q.branchBufferSize.update .consumer = .idle
  count : q.branchBufferSize.value + q.seen.length + q.fresh + q.branchBufferSize.owed .producer =
    q.issued.length + q.stale + q.branchBufferSize.owed .consumer
  room : q.branchBufferSize.value + q.branchBufferSize.owed .producer ≤ branchQueueSize - 1
  busy : q.worker = .read ∨ q.worker = .fill ∨ q.branchBufferSize.owed .consumer = 1 →
    1 ≤ q.branchBufferSize.value
  last : q.worker = .fill → 1 ≤ q.seen.length
  head : (q.branchIndexHead + q.fresh) % branchQueueSize = q.issued.length % branchQueueSize
  headLt : q.branchIndexHead < branchQueueSize
  tail : (q.branchIndexTail + q.stale) % branchQueueSize = q.seen.length % branchQueueSize
  tailLt : q.branchIndexTail < branchQueueSize

/-- What has been passed on is the beginning of what was stored, and the ring holds the
rest. -/
structure Ordered (q : BranchQueue) : Prop where
  order : q.seen = q.stored.take q.seen.length
  ring : Holds (Slots.mod branchQueueSize) q.branchTrace q.stored q.seen.length

structure Fifo (q : BranchQueue) : Prop where
  counted : Counted q
  ordered : Ordered q

theorem Counted.init : Counted .init := by
  constructor
  case exclusive => exact .zero
  all_goals simp [BranchQueue.init, fresh, stale, Counter.owed, Counter.zero, Update.pending,
    branchQueueSize]

theorem Counted.putEvent (h : Counted q) (hq : q.putting = false) (curSig : UInt32) :
    Counted (q.putEvent curSig) := by
  simp only [putting, Bool.or_eq_false_iff, decide_eq_false_iff_not, not_not] at hq
  obtain ⟨he, hput, hworker, hcount, hroom, hbusy, hlast, hhead, hheadLt, htail, htailLt⟩ := h
  constructor <;> grind [BranchQueue.putEvent, fresh, stale, branchQueueSize]

theorem Counted.update {s : Side} {f : Nat → Nat} {size : Counter} (h : Counted q)
    (hsize : q.branchBufferSize.step s f = some size)
    (hf : ∀ n, f n = if s = .producer then n + 1 else n - 1) :
    Counted { q with branchBufferSize := size } := by
  have hexcl := h.exclusive
  obtain ⟨he, hput, hworker, hcount, hroom, hbusy, hlast, hhead, hheadLt, htail, htailLt⟩ := h
  have hstep := Counter.step_spec hexcl hsize
  have hother := fun t ht => hstep.owed_other (t := t) ht
  obtain ⟨hexcl', hne, hupdate, hcounted⟩ := hstep
  cases s with
  | producer =>
    have := hupdate .consumer (by decide)
    have := hother .consumer (by decide)
    constructor <;> grind [fresh, stale, branchQueueSize]
  | consumer =>
    have := hupdate .producer (by decide)
    have := hother .producer (by decide)
    constructor <;> grind [fresh, stale, branchQueueSize]

theorem Counted.putStep (h : Counted q) (hq : q.putStep = some q') : Counted q' := by
  unfold BranchQueue.putStep at hq
  cases hp : q.put with
  | full =>
    simp only [hp] at hq
    split at hq
    · cases hq
      exact h
    · cases hq
      have hidle := h.putIdle hp
      have hexcl := h.exclusive.start hidle
      have hself := Counter.owed_start_self hidle
      have hzero := Counter.owed_idle hidle
      have hother := Counter.owed_start_ne (c := q.branchBufferSize)
        (show Side.consumer ≠ .producer by decide)
      have hupdate := Counter.setUpdate_ne q.branchBufferSize .lock
        (show Side.consumer ≠ .producer by decide)
      have hvalue : (q.branchBufferSize.start .producer).value = q.branchBufferSize.value := rfl
      obtain ⟨-, hput, hworker, hcount, hroom, hbusy, hlast, hhead, hheadLt, htail, htailLt⟩ := h
      constructor <;> grind [fresh, stale, Counter.start, branchQueueSize]
  | idle =>
    simp only [hp, Option.map_eq_some_iff] at hq
    obtain ⟨size, hsize, rfl⟩ := hq
    simpa only [hp] using h.update hsize (by simp)

theorem Counted.setWorker (h : Counted q) (hfill : q.worker ≠ .fill)
    (hidle : q.branchBufferSize.update .consumer = .idle) {w : BranchPc} (hw : w ≠ .fill)
    (hread : w = .read → 1 ≤ q.branchBufferSize.value) : Counted { q with worker := w } := by
  have hzero := Counter.owed_idle hidle
  obtain ⟨he, hput, hworker, hcount, hroom, hbusy, hlast, hhead, hheadLt, htail, htailLt⟩ := h
  constructor <;> grind [fresh, stale]

theorem Counted.branchThread {e : Bool} (h : Counted q) (hq : q.branchThread e = some q') :
    Counted q' := by
  unfold BranchQueue.branchThread at hq
  split at hq
  · simp only [Option.map_eq_some_iff] at hq
    obtain ⟨size, hsize, rfl⟩ := hq
    exact h.update hsize (by simp)
  · rename_i hidle
    simp only [ne_eq, not_not] at hidle
    have hzero := Counter.owed_idle hidle
    cases hw : q.worker with
    | fill =>
      simp only [hw, Option.some.injEq] at hq
      subst hq
      have hexcl := h.exclusive.start hidle
      have hself := Counter.owed_start_self hidle
      have hother := Counter.owed_start_ne (c := q.branchBufferSize)
        (show Side.producer ≠ .consumer by decide)
      have hupdate := Counter.setUpdate_ne q.branchBufferSize .lock
        (show Side.producer ≠ .consumer by decide)
      have hvalue : (q.branchBufferSize.start .consumer).value = q.branchBufferSize.value := rfl
      obtain ⟨-, hput, hworker, hcount, hroom, hbusy, hlast, hhead, hheadLt, htail, htailLt⟩ := h
      constructor <;> grind [fresh, stale, Counter.start, branchQueueSize]
    | asleep z => simp [hw] at hq
    | _ =>
      simp only [hw, Option.some.injEq] at hq
      subst hq
      obtain ⟨he, hput, hworker, hcount, hroom, hbusy, hlast, hhead, hheadLt, htail, htailLt⟩ := h
      constructor <;> grind [fresh, stale, branchQueueSize]

theorem Counted.setSleep (h : Counted q) {z : Sleep} (hz : q.worker = .asleep z)
    (z' : Option Sleep) : Counted (q.setSleep z') := by
  refine h.setWorker (by simp [hz]) (h.workerIdle (by simp [hz])) ?_ ?_ <;>
    cases z' <;> nofun

theorem Counted.seen_le (h : Counted q) : q.seen.length ≤ q.issued.length := by
  have hzero := Counter.owed_idle (c := q.branchBufferSize) (s := .consumer)
  obtain ⟨he, hput, hworker, hcount, hroom, hbusy, hlast, hhead, hheadLt, htail, htailLt⟩ := h
  have howed : q.branchBufferSize.owed .consumer ≤ 1 := by
    unfold Counter.owed
    split <;> omega
  grind [stale]

theorem stored_length (q : BranchQueue) : q.stored.length = q.issued.length := List.length_map ..

theorem Ordered.putEvent (h : Ordered q) (hc : Counted q) (hq : q.putting = false)
    (curSig : UInt32) : Ordered (q.putEvent curSig) := by
  simp only [putting, Bool.or_eq_false_iff, decide_eq_false_iff_not, not_not] at hq
  have hfresh : q.fresh = 0 := by simp [fresh, hq.1]
  have howed := Counter.owed_idle hq.2
  have hle := hc.seen_le
  have hcount := hc.count
  have hroom := hc.room
  have hslot : (Slots.mod branchQueueSize).slot q.stored.length = q.branchIndexHead := by
    have hhead := hc.head
    rw [hfresh, Nat.add_zero, Nat.mod_eq_of_lt hc.headLt] at hhead
    rw [stored_length]
    exact hhead.symm
  have hroom' : q.stored.length < q.seen.length + branchQueueSize := by
    rw [stored_length]
    simp only [branchQueueSize] at *
    omega
  have hstored : (q.putEvent curSig).stored = q.stored ++ [curSig.toUInt8] := by
    simp [stored, BranchQueue.putEvent]
  constructor
  case order =>
    rw [hstored, List.take_append_of_le_length (by rw [stored_length]; exact hle)]
    exact h.order
  case ring =>
    rw [hstored]
    show Holds _ (Function.update q.branchTrace q.branchIndexHead _) _ q.seen.length
    rw [← hslot]
    exact h.ring.push hroom' _

theorem Ordered.putStep (h : Ordered q) (hq : q.putStep = some q') : Ordered q' := by
  unfold BranchQueue.putStep at hq
  cases hp : q.put with
  | full =>
    simp only [hp] at hq
    split at hq <;> cases hq <;> exact ⟨h.order, h.ring⟩
  | idle =>
    simp only [hp, Option.map_eq_some_iff] at hq
    obtain ⟨size, hsize, rfl⟩ := hq
    exact ⟨h.order, h.ring⟩

theorem Ordered.read (h : Ordered q) (hc : Counted q) (hw : q.worker = .read) :
    Ordered { q with seen := q.seen ++ [q.branchTrace q.branchIndexTail], worker := .fill } := by
  have hvalue := hc.busy (.inl hw)
  have howed := Counter.owed_idle (hc.workerIdle (by simp [hw]))
  have hstale : q.stale = 0 := by simp [stale, hw]
  have hcount := hc.count
  have hslot : (Slots.mod branchQueueSize).slot q.seen.length = q.branchIndexTail := by
    have htail := hc.tail
    rw [hstale, Nat.add_zero, Nat.mod_eq_of_lt hc.tailLt] at htail
    exact htail.symm
  have hread : q.stored[q.seen.length]? = some (q.branchTrace q.branchIndexTail) := by
    rw [← hslot]
    refine h.ring.read ?_
    rw [stored_length]
    omega
  constructor
  case order =>
    rw [List.length_append, List.length_singleton]
    exact (congrArg (· ++ _) h.order).trans (take_succ_of_getElem? hread).symm
  case ring =>
    rw [List.length_append, List.length_singleton]
    exact h.ring.mono (Nat.le_succ _)

theorem Ordered.fill (h : Ordered q) (hc : Counted q) (hw : q.worker = .fill) :
    Holds (Slots.mod branchQueueSize) (Function.update q.branchTrace q.branchIndexTail 33)
      q.stored q.seen.length := by
  have howed := Counter.owed_idle (hc.workerIdle (by simp [hw]))
  have hstale : q.stale = 1 := by simp [stale, hw]
  have hcount := hc.count
  have hroom := hc.room
  have hfresh : q.fresh ≤ 1 := by
    unfold fresh
    split <;> omega
  obtain ⟨n, hn⟩ : ∃ n, q.seen.length = n + 1 := ⟨_, (Nat.succ_pred_eq_of_pos (hc.last hw)).symm⟩
  have hslot : (Slots.mod branchQueueSize).slot n = q.branchIndexTail := by
    have htail := hc.tail
    have htailLt := hc.tailLt
    rw [hstale, hn] at htail
    simp only [Slots.mod, branchQueueSize] at *
    omega
  have hlen : q.stored.length ≤ n + branchQueueSize := by
    rw [stored_length]
    simp only [branchQueueSize] at *
    omega
  have hring := h.ring
  rw [hn] at hring ⊢
  rw [← hslot]
  exact hring.overwrite hlen _

theorem Ordered.branchThread {e : Bool} (h : Ordered q) (hc : Counted q)
    (hq : q.branchThread e = some q') : Ordered q' := by
  unfold BranchQueue.branchThread at hq
  split at hq
  · simp only [Option.map_eq_some_iff] at hq
    obtain ⟨size, hsize, rfl⟩ := hq
    exact ⟨h.order, h.ring⟩
  · cases hw : q.worker with
    | read =>
      simp only [hw, Option.some.injEq] at hq
      exact hq ▸ h.read hc hw
    | fill =>
      simp only [hw, Option.some.injEq] at hq
      subst hq
      exact ⟨h.order, h.fill hc hw⟩
    | asleep z => simp [hw] at hq
    | _ =>
      simp only [hw, Option.some.injEq] at hq
      subst hq
      exact ⟨h.order, h.ring⟩

theorem Fifo.init : Fifo .init := ⟨.init, rfl, .nil _ _ _⟩

/-- What a step of the machine does to the ring. -/
inductive Moved (q : BranchQueue) : BranchQueue → Prop
  | stay : Moved q q
  | putEvent (curSig : UInt32) (hq : q.putting = false) : Moved q (q.putEvent curSig)
  | putStep {r : BranchQueue} (hr : q.putStep = some r) : Moved q r
  | branchThread {e : Bool} {r : BranchQueue} (hr : q.branchThread e = some r) : Moved q r
  | setSleep {z : Sleep} (hz : q.worker = .asleep z) (z' : Option Sleep) : Moved q (q.setSleep z')

theorem Fifo.moved (h : Fifo q) (hq : Moved q q') : Fifo q' := by
  obtain ⟨hc, ho⟩ := h
  cases hq with
  | stay => exact ⟨hc, ho⟩
  | putEvent curSig hq => exact ⟨hc.putEvent hq curSig, ho.putEvent hc hq curSig⟩
  | putStep hq => exact ⟨hc.putStep hq, ho.putStep hq⟩
  | branchThread hq => exact ⟨hc.branchThread hq, ho.branchThread hc hq⟩
  | setSleep hz z' => exact ⟨hc.setSleep hz z', ho.order, ho.ring⟩

theorem Fifo.prefix (h : Fifo q) : q.seen <+: q.stored := by
  rw [h.ordered.order]
  exact List.take_prefix _ _

end BranchQueue

section Runs

variable {σ : Type u} {d : Simulator σ} {s t : State σ}

theorem wake_branch (s : State σ) (w : Worker) : BranchQueue.Moved s.branch (s.wake w).branch := by
  cases w with
  | branch =>
    by_cases hw : s.branch.worker = .asleep .blocked
    · simpa [State.wake, hw] using BranchQueue.Moved.setSleep hw _
    · simpa [State.wake, hw] using BranchQueue.Moved.stay
  | dinero => exact .stay

theorem step_branch {a : Act} (ht : step d s a = some t) :
    BranchQueue.Moved s.branch t.branch := by
  cases a with
  | put curSig =>
    simp only [step] at ht
    split at ht
    · rename_i h
      cases ht
      exact .putEvent curSig
        (by simpa using (Bool.and_eq_true_iff.mp (Bool.and_eq_true_iff.mp h.1).1).2)
    · cases ht
  | putStep =>
    simp only [step, Option.map_eq_some_iff] at ht
    obtain ⟨q, hq, rfl⟩ := ht
    exact .putStep hq
  | refStep =>
    simp only [step, Option.map_eq_some_iff] at ht
    obtain ⟨q, hq, rfl⟩ := ht
    exact .stay
  | cpu =>
    simp only [step, State.cpuStep] at ht
    cases hs : s.cpu with
    | run => simp [hs] at ht
    | signalBranch m =>
      simp only [hs, Option.some.injEq] at ht
      subst ht
      split
      · exact wake_branch s .branch
      · exact .stay
    | signalCache m =>
      simp only [hs, Option.some.injEq] at ht
      subst ht
      split
      · exact wake_branch s .dinero
      · exact .stay
    | _ =>
      simp only [hs, Option.some.injEq] at ht
      subst ht
      exact .stay
  | worker w =>
    cases w with
    | branch =>
      simp only [step, State.branchStep] at ht
      split at ht
      · rename_i z hz
        simp only [Option.map_eq_some_iff] at ht
        obtain ⟨⟨z', m⟩, -, rfl⟩ := ht
        exact .setSleep hz z'
      · simp only [Option.map_eq_some_iff] at ht
        obtain ⟨q, hq, rfl⟩ := ht
        exact .branchThread hq
    | dinero =>
      simp only [step, State.dineroStep] at ht
      split at ht
      all_goals
        simp only [Option.map_eq_some_iff] at ht
        obtain ⟨p, -, rfl⟩ := ht
        exact .stay
  | spurious w =>
    cases ht
    exact wake_branch s w
  | _ =>
    simp only [step] at ht
    split at ht <;> cases ht
    exact .stay

theorem fifo_of_reachable {caches : σ} (h : Machine.Reachable (Init caches) (step d) s) :
    s.branch.Fifo := by
  refine @Machine.Reachable.invariant _ _ _ _ (fun s => s.branch.Fifo) ?_ ?_ _ h
  · rintro s rfl
    exact .init
  · intro s a t hi ht
    exact hi.moved (step_branch ht)

/-- The count stays below the size of the ring, and `branch_set` is called with the first
signals of those that `put_event` was called with, in their order.  They pass through a
`uint8_t`, which keeps the two signals that the translator emits, 99 and 0. -/
theorem branchTrace_fifo {caches : σ} (h : Machine.Reachable (Init caches) (step d) s) :
    s.branch.branchBufferSize.value ≤ branchQueueSize - 1 ∧
      s.branch.seen <+: s.branch.issued.map UInt32.toUInt8 ∧
      ((∀ curSig ∈ s.branch.issued, curSig < 256) →
        s.branch.seen.map UInt8.toUInt32 <+: s.branch.issued) := by
  have hf := fifo_of_reachable h
  refine ⟨Nat.le_trans (Nat.le_add_right _ _) hf.counted.room, hf.prefix, ?_⟩
  intro hbyte
  have hmap : (s.branch.issued.map UInt32.toUInt8).map UInt8.toUInt32 = s.branch.issued := by
    rw [List.map_map]
    refine (List.map_congr_left ?_).trans (List.map_id _)
    intro curSig hsig
    have hlt : curSig.toNat < 256 := UInt32.lt_iff_toNat_lt.mp (hbyte curSig hsig)
    refine UInt32.toNat_inj.mp ?_
    simp only [Function.comp_apply, UInt8.toNat_toUInt32, UInt32.toNat_toUInt8, id_eq]
    exact Nat.mod_eq_of_lt hlt
  exact hmap ▸ hf.prefix.map UInt8.toUInt32

end Runs

/-- Two signals go through the ring. -/
theorem branchTrace_fifo_two : ∃ s : State (Nat × Nat),
    Machine.Reachable (Init (0, 0)) (step accessCounts) s ∧ s.branch.seen = [99, 0] ∧
      s.branch.branchBufferSize.value ≤ branchQueueSize - 1 ∧
      s.branch.seen.map UInt8.toUInt32 <+: s.branch.issued := by
  obtain ⟨s, hs, hp⟩ := Machine.exists_reachable (Init (0, 0)) (step accessCounts)
    (List.flatten [enableAll .e, putAll 99, putAll 0, branchRound, branchRound])
    (fun s => s.branch.seen == [99, 0] && s.branch.issued.all (· < 256)) rfl (by decide +kernel)
  simp only [Bool.and_eq_true, beq_iff_eq, List.all_eq_true, decide_eq_true_eq] at hp
  have hf := branchTrace_fifo hs
  exact ⟨s, hs, hp.1, hf.1, hf.2.2 hp.2⟩

end M2M.Vpmu.Threads
