import M2M.Goldfish.Interrupt

/-! The events device: a ring of words that the user interface fills and the guest empties, and
its line on the interrupt controller. -/

open M2M.Lib.Machine

namespace M2M.Goldfish

def maxEvents : Nat := 1024

/-- What the driver is known to be ready for. -/
inductive DriverState
  | init
  | buffered
  | live
  deriving DecidableEq

structure Event where
  type : BitVec 32
  code : BitVec 32
  value : BitVec 32

def Event.words (e : Event) : List (BitVec 32) := [e.type, e.code, e.value]

structure EventsState where
  page : Int
  events : Nat → BitVec 32
  first : Nat
  last : Nat
  state : DriverState
  name : List (BitVec 8)
  evBits : Nat → List (BitVec 8)
  absInfo : List (BitVec 32)

def pageName : Int := 0x00000

def pageEvbits : Int := 0x10000

def evMax : Nat := 0x1f

def pageAbsdata : Int := 0x20003

namespace EventsState

/-- One word at `last`. -/
def store (s : EventsState) (n : BitVec 32) : EventsState :=
  { s with events := Function.update s.events s.last n, last := (s.last + 1) % maxEvents }

/-- `int enqueued = s->last - s->first`, wrapped. -/
def enqueued (s : EventsState) : Int :=
  let enqueued : Int := s.last - s.first
  if enqueued < 0 then enqueued + maxEvents else enqueued

def Full (s : EventsState) : Prop := s.enqueued + 3 > maxEvents

instance (s : EventsState) : Decidable s.Full := inferInstanceAs (Decidable (_ > _))

/-- With the state comes the level that the interrupt line is set to, if it is. -/
def enqueueEvent (s : EventsState) (e : Event) : EventsState × Option Bool :=
  if s.Full then
    (s, none)
  else
    let line := if s.first = s.last ∧ s.state = .live then some true else none
    let state := if s.first = s.last ∧ s.state ≠ .live then .buffered else s.state
    (((({ s with state }).store e.type).store e.code).store e.value, line)

def dequeueEvent (s : EventsState) : BitVec 32 × EventsState × Option Bool :=
  if s.first = s.last then
    (0, s, none)
  else
    let n := s.events s.first
    let first := (s.first + 1) % maxEvents
    (n, { s with first }, if first = s.last then some false else none)

def getPageLen (s : EventsState) : Nat :=
  if s.page = pageName then
    s.name.length
  else if pageEvbits ≤ s.page ∧ s.page ≤ pageEvbits + evMax then
    (s.evBits (s.page - pageEvbits).toNat).length
  else if s.page = pageAbsdata then
    s.absInfo.length * 4
  else
    0

/-- Outside the arrays nothing is known of what is read; a name ends with a null character. -/
def getPageData (s : EventsState) (offset : Nat) : Option (BitVec 32) :=
  if s.getPageLen < offset then
    some 0
  else if s.page = pageName then
    some ((s.name.getD offset 0).signExtend 32)
  else if pageEvbits ≤ s.page ∧ s.page ≤ pageEvbits + evMax then
    (s.evBits (s.page - pageEvbits).toNat)[offset]?.map (BitVec.setWidth 32)
  else if s.page = pageAbsdata then
    s.absInfo[offset / 4]?
  else
    some 0

/-- The first look at the axes shows that the driver is ready. -/
def look (s : EventsState) (offset : Nat) : EventsState × Option Bool :=
  if offset = 0x04 ∧ s.page = pageAbsdata then
    ({ s with state := .live }, if s.state = .buffered then some true else none)
  else
    (s, none)

def read (s : EventsState) (offset : Nat) : Option (BitVec 32 × EventsState × Option Bool) :=
  let looked := s.look offset
  if offset = 0x00 then
    some looked.1.dequeueEvent
  else if offset = 0x04 then
    some (BitVec.ofNat 32 looked.1.getPageLen, looked)
  else if 0x08 ≤ offset then
    (looked.1.getPageData (offset - 0x08)).map fun data => (data, looked)
  else
    some (0, looked)

def write (s : EventsState) (offset : Nat) (val : BitVec 32) : EventsState :=
  if offset = 0x00 then { s with page := val.toInt } else s

section Ring

variable {s : EventsState}

/-- The ring's indices. -/
def Inside (s : EventsState) : Prop := s.first < maxEvents ∧ s.last < maxEvents

def waiting (s : EventsState) : Nat := (s.last + maxEvents - s.first) % maxEvents

def words (s : EventsState) : List (BitVec 32) :=
  (List.range s.waiting).map fun k => s.events ((s.first + k) % maxEvents)

@[simp] theorem length_words (s : EventsState) : s.words.length = s.waiting := by
  simp [words]

theorem Inside.waiting_eq_zero_iff (h : s.Inside) : s.waiting = 0 ↔ s.first = s.last := by
  have hfirst := h.1
  have hlast := h.2
  unfold waiting maxEvents at *
  omega

theorem Inside.enqueued_eq (h : s.Inside) : s.enqueued = s.waiting := by
  have hfirst := h.1
  have hlast := h.2
  simp only [enqueued, waiting, maxEvents] at *
  split <;> omega

theorem Inside.full_iff (h : s.Inside) : s.Full ↔ 1021 < s.waiting := by
  rw [Full, h.enqueued_eq, maxEvents]
  omega

theorem Inside.store (h : s.Inside) (n : BitVec 32) : (s.store n).Inside :=
  ⟨h.1, Nat.mod_lt _ (by decide)⟩

theorem Inside.waiting_store (h : s.Inside) (n : BitVec 32) :
    (s.store n).waiting = (s.waiting + 1) % maxEvents := by
  have hfirst := h.1
  have hlast := h.2
  simp only [waiting, EventsState.store, maxEvents] at *
  omega

theorem Inside.words_store (h : s.Inside) (hroom : s.waiting + 1 < maxEvents) (n : BitVec 32) :
    (s.store n).words = s.words ++ [n] := by
  have hfirst := h.1
  have hlast := h.2
  have hend : (s.first + s.waiting) % maxEvents = s.last := by
    simp only [waiting, maxEvents] at *
    omega
  rw [words, h.waiting_store, Nat.mod_eq_of_lt hroom, List.range_succ, List.map_append, words]
  congr 1
  · refine List.map_congr_left fun k hk => ?_
    rw [List.mem_range] at hk
    have hne : (s.first + k) % maxEvents ≠ s.last := by
      simp only [waiting, maxEvents] at *
      omega
    exact Function.update_of_ne hne _ _
  · simp only [List.map_cons, List.map_nil, EventsState.store, hend]
    rw [Function.update_self]

theorem Inside.words_store_three (h : s.Inside) (hroom : s.waiting ≤ 1021) (a b c : BitVec 32) :
    (((s.store a).store b).store c).words =
      if s.waiting = 1021 then [] else s.words ++ [a, b, c] := by
  have ha := h.waiting_store a
  have hb := (h.store a).waiting_store b
  have hc := ((h.store a).store b).waiting_store c
  rw [ha] at hb
  rw [hb] at hc
  by_cases hlast : s.waiting = 1021
  · rw [if_pos hlast]
    have hzero : (((s.store a).store b).store c).waiting = 0 := by
      rw [hc, hlast]
      rfl
    rw [← List.length_eq_zero_iff, length_words, hzero]
  · rw [if_neg hlast, ((h.store a).store b).words_store, (h.store a).words_store, h.words_store]
    · simp
    · unfold maxEvents
      omega
    · rw [ha]
      unfold maxEvents
      omega
    · rw [hb]
      unfold maxEvents
      omega

theorem Inside.enqueueEvent (h : s.Inside) (e : Event) : (s.enqueueEvent e).1.Inside := by
  unfold EventsState.enqueueEvent
  split
  · exact h
  · exact ⟨h.1, Nat.mod_lt _ (by decide)⟩

theorem Inside.words_enqueueEvent (h : s.Inside) (hfull : ¬s.Full) (e : Event) :
    (s.enqueueEvent e).1.words = if s.waiting = 1021 then [] else s.words ++ e.words := by
  rw [h.full_iff, Nat.not_lt] at hfull
  rw [EventsState.enqueueEvent, if_neg (by rw [h.full_iff]; omega)]
  exact Inside.words_store_three (s := { s with state := _ }) h hfull e.type e.code e.value

theorem Inside.dequeueEvent (h : s.Inside) : s.dequeueEvent.2.1.Inside := by
  unfold EventsState.dequeueEvent
  split
  · exact h
  · exact ⟨Nat.mod_lt _ (by decide), h.2⟩

theorem Inside.words_dequeueEvent (h : s.Inside) (hne : s.first ≠ s.last) :
    s.words = s.dequeueEvent.1 :: s.dequeueEvent.2.1.words := by
  have hfirst := h.1
  have hlast := h.2
  obtain ⟨m, hm⟩ : ∃ m, s.waiting = m + 1 :=
    Nat.exists_eq_succ_of_ne_zero fun hzero => hne (h.waiting_eq_zero_iff.mp hzero)
  have hrest : EventsState.waiting { s with first := (s.first + 1) % maxEvents } = m := by
    simp only [waiting, maxEvents] at *
    omega
  rw [EventsState.dequeueEvent, if_neg hne]
  change _ = _ :: List.map _ (List.range (EventsState.waiting { s with first := _ }))
  rw [hrest, words, hm, List.range_succ_eq_map, List.map_cons, Nat.add_zero,
    Nat.mod_eq_of_lt hfirst, List.map_map]
  refine congrArg (_ :: ·) (List.map_congr_left fun k _ => ?_)
  simp only [Function.comp_apply, Nat.succ_eq_add_one]
  rw [Nat.mod_add_mod, Nat.add_assoc, Nat.add_comm 1 k]

end Ring

end EventsState

section Served

/-- What happens to the device: the user interface puts an event, or the guest reads or writes a
register. -/
inductive EventsAction
  | put (e : Event)
  | read (offset : Nat)
  | write (offset : Nat) (val : BitVec 32)

/-- The device, with the words of the events that it has taken and those the guest has got. -/
structure Served where
  s : EventsState
  taken : List (BitVec 32)
  given : List (BitVec 32)

def servedStep : Step Served EventsAction
  | d, .put e =>
    some ⟨(d.s.enqueueEvent e).1, if d.s.Full then d.taken else d.taken ++ e.words, d.given⟩
  | d, .read offset =>
    (d.s.read offset).map fun r =>
      ⟨r.2.1, d.taken,
        if offset = 0x00 ∧ d.s.first ≠ d.s.last then d.given ++ [r.1] else d.given⟩
  | d, .write offset val => some { d with s := d.s.write offset val }

/-- No word is lost, doubled or out of order. -/
def Served.InOrder (d : Served) : Prop := d.given ++ d.s.words = d.taken

/-- The event does not come when exactly 1021 words wait. -/
def NotAtBrim : Served → EventsAction → Served → Prop
  | d, .put _, _ => d.s.waiting ≠ 1021
  | _, _, _ => True

variable {d t : Served}

theorem words_look (s : EventsState) (offset : Nat) : (s.look offset).1.words = s.words := by
  unfold EventsState.look
  split <;> rfl

theorem inside_look {s : EventsState} (h : s.Inside) (offset : Nat) : (s.look offset).1.Inside := by
  unfold EventsState.look
  split <;> exact h

theorem read_zero (s : EventsState) : s.read 0x00 = some s.dequeueEvent := rfl

theorem read_of_ne {s : EventsState} {offset : Nat} {r : BitVec 32 × EventsState × Option Bool}
    (hoffset : offset ≠ 0) (hread : s.read offset = some r) : r.2 = s.look offset := by
  rw [EventsState.read, if_neg hoffset] at hread
  split at hread
  · exact Option.some.inj hread ▸ rfl
  · split at hread
    · obtain ⟨data, _, rfl⟩ := Option.map_eq_some_iff.mp hread
      rfl
    · exact Option.some.inj hread ▸ rfl

theorem servedStep_inside (h : d.s.Inside) (a : EventsAction) (hstep : servedStep d a = some t) :
    t.s.Inside := by
  cases a with
  | put e =>
    cases hstep
    exact h.enqueueEvent e
  | read offset =>
    obtain ⟨r, hread, rfl⟩ := Option.map_eq_some_iff.mp hstep
    by_cases hoffset : offset = 0
    · subst hoffset
      obtain rfl := Option.some.inj ((read_zero _).symm.trans hread)
      exact h.dequeueEvent
    · exact congrArg Prod.fst (read_of_ne hoffset hread) ▸ inside_look h offset
  | write offset val =>
    cases hstep
    unfold EventsState.write
    split <;> exact h

theorem servedStep_inOrder_iff (h : d.s.Inside) (hd : d.InOrder) (a : EventsAction)
    (hstep : servedStep d a = some t) : t.InOrder ↔ NotAtBrim d a t := by
  cases a with
  | put e =>
    cases hstep
    unfold Served.InOrder at hd
    change d.given ++ (d.s.enqueueEvent e).1.words =
      (if d.s.Full then d.taken else d.taken ++ e.words) ↔ d.s.waiting ≠ 1021
    by_cases hfull : d.s.Full
    · have hmore := h.full_iff.mp hfull
      rw [EventsState.enqueueEvent, if_pos hfull, if_pos hfull]
      exact iff_of_true hd (by omega)
    · rw [h.words_enqueueEvent hfull, if_neg hfull]
      by_cases hbrim : d.s.waiting = 1021
      · rw [if_pos hbrim]
        refine iff_of_false (fun heq => ?_) (not_not_intro hbrim)
        have hlength := congrArg List.length heq
        rw [← hd] at hlength
        simp only [List.length_append, List.length_nil, EventsState.length_words, hbrim] at hlength
        omega
      · rw [if_neg hbrim, ← hd, List.append_assoc]
        exact iff_of_true rfl hbrim
  | read offset =>
    obtain ⟨r, hread, rfl⟩ := Option.map_eq_some_iff.mp hstep
    simp only [NotAtBrim, iff_true]
    unfold Served.InOrder at *
    by_cases hoffset : offset = 0
    · subst hoffset
      obtain rfl := Option.some.inj ((read_zero _).symm.trans hread)
      by_cases hempty : d.s.first = d.s.last
      · simpa [EventsState.dequeueEvent, hempty] using hd
      · rw [if_pos ⟨rfl, hempty⟩, ← hd, h.words_dequeueEvent hempty]
        simp
    · rw [if_neg fun hzero => hoffset hzero.1]
      rw [congrArg Prod.fst (read_of_ne hoffset hread), words_look]
      exact hd
  | write offset val =>
    cases hstep
    simp only [NotAtBrim, iff_true]
    unfold Served.InOrder EventsState.write at *
    split <;> exact hd

/-- From an empty ring, the guest gets the words of the events that are taken, in order, each
once, in every state of the run, exactly when no event comes while 1021 words wait. -/
theorem inOrder_iff (s : EventsState) (hinside : s.Inside) (hempty : s.first = s.last)
    (as : List EventsAction) :
    Always servedStep Served.InOrder ⟨s, [], []⟩ as ↔
      Throughout servedStep NotAtBrim ⟨s, [], []⟩ as := by
  refine always_iff_throughout (fun d => d.s.Inside) (fun d a t h hstep => ?_)
    (fun d a t h hd hstep => ?_) hinside ?_ as
  · exact servedStep_inside h a hstep
  · exact servedStep_inOrder_iff h hd a hstep
  · have hzero := hinside.waiting_eq_zero_iff.mpr hempty
    rw [← EventsState.length_words, List.length_eq_zero_iff] at hzero
    simpa [Served.InOrder] using hzero

/-- The device at the start. -/
def eventsInit (name : List (BitVec 8)) (evBits : Nat → List (BitVec 8))
    (absInfo : List (BitVec 32)) : EventsState :=
  ⟨0, fun _ => 0, 0, 0, .init, name, evBits, absInfo⟩

/-- A key is pressed, and the guest reads the three words. -/
theorem inOrder_key :
    Always servedStep Served.InOrder ⟨eventsInit [] (fun _ => []) [], [], []⟩
      [.put ⟨1, 102, 1⟩, .read 0, .read 0, .read 0] := by
  have hstart : (eventsInit [] (fun _ => []) []).waiting ≠ 1021 := by decide
  refine (inOrder_iff (eventsInit [] (fun _ => []) []) ⟨by decide, by decide⟩ rfl _).mpr ?_
  refine Throughout.cons rfl hstart ?_
  refine Throughout.cons rfl trivial ?_
  refine Throughout.cons rfl trivial ?_
  exact Throughout.cons rfl trivial (Throughout.nil _)

end Served

section Board

/-- The events device and the controller that its line leads to. -/
structure Board where
  dev : EventsState
  pic : IntState

inductive BoardAction
  | put (e : Event)
  | read (offset : Nat)
  | write (offset : Nat) (val : BitVec 32)
  | line (irq : Fin 32) (level : Bool)
  | picWrite (offset : Nat) (value : BitVec 32)

def IntState.drive (s : IntState) (irq : Fin 32) : Option Bool → IntState
  | some level => s.setIrq irq level
  | none => s

/-- The device has the line `n`; the other devices drive theirs at any time. -/
def boardStep (n : Fin 32) : Step Board BoardAction
  | b, .put e => some ⟨(b.dev.enqueueEvent e).1, b.pic.drive n (b.dev.enqueueEvent e).2⟩
  | b, .read offset => (b.dev.read offset).map fun r => ⟨r.2.1, b.pic.drive n r.2.2⟩
  | b, .write offset val => some { b with dev := b.dev.write offset val }
  | b, .line irq level => if irq = n then none else some { b with pic := b.pic.setIrq irq level }
  | b, .picWrite offset value => (b.pic.write offset value).map fun pic => { b with pic }

def EventsState.Due (s : EventsState) : Prop := s.state = .live ∧ s.first ≠ s.last

instance (s : EventsState) : Decidable s.Due := inferInstanceAs (Decidable (_ ∧ _))

/-- When words wait for a driver that takes them, the line is up, and so is that of the processor
if the guest has enabled the line. -/
def Board.Heard (n : Fin 32) (b : Board) : Prop :=
  b.dev.Due →
    n ∈ lines b.pic.level ∧ (n ∈ lines b.pic.irqEnabled → b.pic.parentIrq = true)

/-- The guest does not lower all lines while words wait. -/
def NotSilenced : Board → BoardAction → Board → Prop
  | b, .picWrite offset _, _ => offset = 0x08 → ¬b.dev.Due
  | _, _, _ => True

structure Board.Sound (b : Board) : Prop where
  inside : b.dev.Inside
  fresh : b.dev.state = .init → b.dev.first = b.dev.last
  counted : b.pic.Counted

variable {n : Fin 32} {b c : Board}

theorem lines_setIrq (s : IntState) (irq : Fin 32) (level : Bool) :
    lines (s.setIrq irq level).level =
      if level then insert irq (lines s.level) else (lines s.level).erase irq := by
  unfold IntState.setIrq
  simp only [and_lineMask_eq_zero_iff, lineOf_val]
  cases level with
  | true =>
    by_cases hup : irq ∈ lines s.level
    · rw [if_pos rfl, if_neg (not_not_intro hup), if_pos rfl, Finset.insert_eq_self.mpr hup]
      rfl
    · rw [if_pos rfl, if_pos hup, if_pos rfl]
      exact (lines_or_lineMask s.level irq).trans (congrArg (insert · _) (lineOf_val irq))
  | false =>
    by_cases hup : irq ∈ lines s.level
    · rw [if_neg Bool.false_ne_true, if_neg (not_not_intro hup), if_neg Bool.false_ne_true]
      exact (lines_and_not_lineMask s.level irq).trans (congrArg _ (lineOf_val irq))
    · rw [if_neg Bool.false_ne_true, if_pos hup, if_neg Bool.false_ne_true,
        Finset.erase_eq_of_notMem hup]
      rfl

theorem lines_write {s t : IntState} {offset : Nat} {value : BitVec 32}
    (h : s.write offset value = some t) :
    lines t.level = if offset = 0x08 then ∅ else lines s.level := by
  unfold IntState.write at h
  simp only [and_lineMask_eq_zero_iff] at h
  split at h
  · obtain rfl := Option.some.inj h
    exact lines_zero
  · split at h
    · exact Option.some.inj h ▸ rfl
    · exact Option.some.inj h ▸ rfl
  · split at h
    · exact Option.some.inj h ▸ rfl
    · exact Option.some.inj h ▸ rfl
  · cases h

theorem IntState.Counted.drive {s : IntState} (h : s.Counted) (irq : Fin 32)
    (line : Option Bool) : (s.drive irq line).Counted := by
  cases line with
  | none => exact h
  | some level => exact h.setIrq irq level

theorem heard_of_mem (h : b.Sound) (hup : b.dev.Due → n ∈ lines b.pic.level) : b.Heard n := by
  intro hdue
  refine ⟨hup hdue, fun hen => ?_⟩
  exact h.counted.irq.mpr ⟨n, Finset.mem_inter.mpr ⟨hup hdue, hen⟩⟩

theorem enqueueEvent_due {s : EventsState} (hfresh : s.state = .init → s.first = s.last) (e : Event) :
    ((s.enqueueEvent e).1.state = .init → (s.enqueueEvent e).1.first = (s.enqueueEvent e).1.last) ∧
      ((s.enqueueEvent e).1.Due →
        (s.enqueueEvent e).2 = some true ∨ (s.enqueueEvent e).2 = none ∧ s.Due) := by
  unfold EventsState.enqueueEvent
  by_cases hfull : s.Full
  · rw [if_pos hfull]
    exact ⟨hfresh, fun hdue => .inr ⟨rfl, hdue⟩⟩
  · rw [if_neg hfull]
    by_cases hempty : s.first = s.last
    · by_cases hlive : s.state = .live
      · simp [EventsState.Due, EventsState.store, hempty, hlive]
      · simp [EventsState.Due, EventsState.store, hempty, hlive]
    · have hstate : s.state ≠ .init := fun hinit => hempty (hfresh hinit)
      simp only [EventsState.Due, EventsState.store, if_neg (not_and_of_not_left _ hempty)]
      exact ⟨fun hinit => absurd hinit hstate, fun hdue => .inr ⟨trivial, hdue.1, hempty⟩⟩

theorem dequeueEvent_due {s : EventsState} (hfresh : s.state = .init → s.first = s.last) :
    (s.dequeueEvent.2.1.state = .init →
        s.dequeueEvent.2.1.first = s.dequeueEvent.2.1.last) ∧
      (s.dequeueEvent.2.1.Due → s.dequeueEvent.2.2 = none ∧ s.Due) := by
  unfold EventsState.dequeueEvent
  by_cases hempty : s.first = s.last
  · simp [EventsState.Due, hempty]
  · have hstate : s.state ≠ .init := fun hinit => hempty (hfresh hinit)
    simp only [if_neg hempty, EventsState.Due]
    refine ⟨fun hinit => absurd hinit hstate, fun hdue => ⟨if_neg hdue.2, hdue.1, hempty⟩⟩

theorem look_due {s : EventsState} (hfresh : s.state = .init → s.first = s.last) (offset : Nat) :
    ((s.look offset).1.state = .init → (s.look offset).1.first = (s.look offset).1.last) ∧
      ((s.look offset).1.Due →
        (s.look offset).2 = some true ∨ (s.look offset).2 = none ∧ s.Due) := by
  unfold EventsState.look
  split
  · refine ⟨fun hinit => DriverState.noConfusion hinit, fun hdue => ?_⟩
    cases hstate : s.state with
    | init => exact absurd (hfresh hstate) hdue.2
    | buffered => exact .inl rfl
    | live => exact .inr ⟨rfl, hstate, hdue.2⟩
  · exact ⟨hfresh, fun hdue => .inr ⟨rfl, hdue⟩⟩

theorem read_due {s : EventsState} (hinside : s.Inside)
    (hfresh : s.state = .init → s.first = s.last) {offset : Nat}
    {r : BitVec 32 × EventsState × Option Bool} (hread : s.read offset = some r) :
    r.2.1.Inside ∧ (r.2.1.state = .init → r.2.1.first = r.2.1.last) ∧
      (r.2.1.Due → r.2.2 = some true ∨ r.2.2 = none ∧ s.Due) := by
  by_cases hoffset : offset = 0
  · subst hoffset
    obtain rfl := Option.some.inj ((read_zero s).symm.trans hread)
    have hdue := dequeueEvent_due hfresh
    exact ⟨hinside.dequeueEvent, hdue.1, fun h => .inr (hdue.2 h)⟩
  · rw [read_of_ne hoffset hread]
    exact ⟨inside_look hinside offset, look_due hfresh offset⟩

theorem mem_lines_drive {s : EventsState} {pic : IntState} {line : Option Bool}
    (hup : s.Due → n ∈ lines pic.level)
    (hline : line = some true ∨ line = none ∧ s.Due) : n ∈ lines (pic.drive n line).level := by
  rcases hline with rfl | ⟨rfl, hdue⟩
  · change n ∈ lines (pic.setIrq n true).level
    rw [lines_setIrq, if_pos rfl]
    exact Finset.mem_insert_self n _
  · exact hup hdue

theorem boardStep_sound (h : b.Sound) (a : BoardAction) (hstep : boardStep n b a = some c) :
    c.Sound := by
  cases a with
  | put e =>
    obtain rfl := Option.some.inj hstep
    exact ⟨h.inside.enqueueEvent e, (enqueueEvent_due h.fresh e).1, h.counted.drive n _⟩
  | read offset =>
    obtain ⟨r, hread, rfl⟩ := Option.map_eq_some_iff.mp hstep
    have hr := read_due h.inside h.fresh hread
    exact ⟨hr.1, hr.2.1, h.counted.drive n _⟩
  | write offset val =>
    obtain rfl := Option.some.inj hstep
    unfold EventsState.write
    split <;> exact ⟨h.inside, h.fresh, h.counted⟩
  | line irq level =>
    by_cases hirq : irq = n
    · rw [boardStep, if_pos hirq] at hstep
      cases hstep
    · rw [boardStep, if_neg hirq] at hstep
      obtain rfl := Option.some.inj hstep
      exact ⟨h.inside, h.fresh, h.counted.setIrq irq level⟩
  | picWrite offset value =>
    obtain ⟨pic, hwrite, rfl⟩ := Option.map_eq_some_iff.mp hstep
    exact ⟨h.inside, h.fresh, h.counted.write hwrite⟩

theorem boardStep_heard_iff (h : b.Sound) (hheard : b.Heard n) (a : BoardAction)
    (hstep : boardStep n b a = some c) : c.Heard n ↔ NotSilenced b a c := by
  have hc := boardStep_sound h a hstep
  have hup : b.dev.Due → n ∈ lines b.pic.level := fun hdue => (hheard hdue).1
  cases a with
  | put e =>
    refine iff_of_true (heard_of_mem hc fun hdue => ?_) trivial
    obtain rfl := Option.some.inj hstep
    exact mem_lines_drive hup ((enqueueEvent_due h.fresh e).2 hdue)
  | read offset =>
    refine iff_of_true (heard_of_mem hc fun hdue => ?_) trivial
    obtain ⟨r, hread, rfl⟩ := Option.map_eq_some_iff.mp hstep
    exact mem_lines_drive hup ((read_due h.inside h.fresh hread).2.2 hdue)
  | write offset val =>
    refine iff_of_true (heard_of_mem hc fun hdue => ?_) trivial
    obtain rfl := Option.some.inj hstep
    refine hup ?_
    unfold EventsState.write at hdue
    split at hdue <;> exact hdue
  | line irq level =>
    refine iff_of_true (heard_of_mem hc fun hdue => ?_) trivial
    by_cases hirq : irq = n
    · rw [boardStep, if_pos hirq] at hstep
      cases hstep
    · rw [boardStep, if_neg hirq] at hstep
      obtain rfl := Option.some.inj hstep
      change n ∈ lines (b.pic.setIrq irq level).level
      rw [lines_setIrq]
      split
      · exact Finset.mem_insert_of_mem (hup hdue)
      · exact Finset.mem_erase.mpr ⟨Ne.symm hirq, hup hdue⟩
  | picWrite offset value =>
    obtain ⟨pic, hwrite, rfl⟩ := Option.map_eq_some_iff.mp hstep
    have hlines := lines_write hwrite
    constructor
    · intro hafter hoffset hdue
      rw [if_pos hoffset] at hlines
      have hmem : n ∈ lines pic.level := (hafter hdue).1
      rw [hlines] at hmem
      exact Finset.notMem_empty n hmem
    · intro hok
      refine heard_of_mem hc fun hdue => ?_
      change n ∈ lines pic.level
      rw [hlines, if_neg fun hoffset => hok hoffset hdue]
      exact hup hdue

/-- From the start of the board on, whenever words wait for a driver that takes them the line of
the device is up, and the processor's with it if the line is enabled, in every state of the run,
exactly when the guest never lowers all lines at once while words wait. -/
theorem heard_iff (n : Fin 32) (name : List (BitVec 8)) (evBits : Nat → List (BitVec 8))
    (absInfo : List (BitVec 32)) (as : List BoardAction) :
    Always (boardStep n) (Board.Heard n) ⟨eventsInit name evBits absInfo, interruptInit⟩ as ↔
      Throughout (boardStep n) NotSilenced ⟨eventsInit name evBits absInfo, interruptInit⟩ as := by
  refine always_iff_throughout Board.Sound (fun b a c h hstep => boardStep_sound h a hstep)
    (fun b a c h hheard hstep => boardStep_heard_iff h hheard a hstep) ?_ ?_ as
  · have hpos : 0 < maxEvents := by decide
    exact ⟨⟨hpos, hpos⟩, fun _ => rfl, IntState.counted_init⟩
  · exact fun hdue => absurd rfl hdue.2

/-- A key is pressed before the driver has come up, and the lines are lowered when it has read. -/
theorem heard_key :
    Always (boardStep 4) (Board.Heard 4) ⟨eventsInit [] (fun _ => []) [], interruptInit⟩
      [.picWrite 0x10 4, .put ⟨1, 102, 1⟩, .write 0 0x20003, .read 4, .read 0, .read 0, .read 0,
        .picWrite 0x08 0] := by
  refine (heard_iff 4 [] (fun _ => []) [] _).mpr ?_
  refine Throughout.cons rfl (fun h => absurd h (by decide)) ?_
  refine Throughout.cons rfl trivial ?_
  refine Throughout.cons rfl trivial ?_
  refine Throughout.cons rfl trivial ?_
  refine Throughout.cons rfl trivial ?_
  refine Throughout.cons rfl trivial ?_
  refine Throughout.cons rfl trivial ?_
  exact Throughout.cons rfl (fun _ => by decide) (Throughout.nil _)

end Board

end M2M.Goldfish
