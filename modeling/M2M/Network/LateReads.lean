import M2M.Network.HeaderQueue

/-! Header fields that are read after the entry has been given back: the sender whose
`hq_conflag` a router clears, the transmission time it adds on delivery to itself, and
the arrival time that `m2m_get_local_msg` compares with the local clock. -/

namespace M2M.Network.HeaderQueue

open M2M.Lib

/-- The producer fills the entry that the consumer has released and is still reading. -/
def overruns (s : State) (a : Act) : Bool :=
  match a, s.prodPC, s.consPC with
  | .prod, .fill _ a, .after b _ => a == b
  | _, _, _ => false

def NoOverrun (s : State) (a : Act) : Prop := overruns s a = false

instance (s : State) (a : Act) : Decidable (NoOverrun s a) := inferInstanceAs (Decidable (_ = _))

def LateOK (s : State) : Prop := ∀ r ∈ s.late, r.value = r.field.get r.packet

def AfterOK (s : State) : Prop :=
  match s.consPC with
  | .after a copied => (a = 0 ∨ a = 2) ∧ s.header a = copied
  | _ => True

theorem afterOK_of_ne {s : State} (h : ∀ a c, s.consPC ≠ .after a c) : AfterOK s := by
  unfold AfterOK
  split
  · rename_i a c hs
    exact absurd hs (h a c)
  · trivial

theorem prodStep_frame {s t : State} (ht : prodStep s = some t) :
    t.consPC = s.consPC ∧ t.late = s.late ∧
      ((∃ m a, s.prodPC = .fill m a ∧ t.entry = (s.setHeader a m.header).entry) ∨
        (∃ m b, s.prodPC = .copy m b ∧ t.entry = (s.write b m.payload).entry) ∨
        t.entry = s.entry) := by
  unfold prodStep at ht
  cases hs : s.prodPC with
  | idle => simp [hs] at ht
  | fill m a =>
    simp only [hs, Option.some.injEq] at ht
    subst ht
    exact ⟨rfl, rfl, .inl ⟨m, a, rfl, rfl⟩⟩
  | copy m b =>
    simp only [hs, Option.some.injEq] at ht
    subst ht
    exact ⟨rfl, rfl, .inr (.inl ⟨m, b, rfl, rfl⟩)⟩
  | full1c m a p =>
    simp only [hs] at ht
    split at ht <;> cases ht <;> exact ⟨rfl, rfl, .inr (.inr rfl)⟩
  | full2c m b p =>
    simp only [hs] at ht
    split at ht <;> cases ht <;> exact ⟨rfl, rfl, .inr (.inr rfl)⟩
  | _ =>
    simp only [hs, Option.some.injEq] at ht
    subst ht
    exact ⟨rfl, rfl, .inr (.inr rfl)⟩

theorem prodStep_header {k : Reader} {s t : State} {a : Nat} (hi : Inv k s)
    (ht : prodStep s = some t) (ha : a = 0 ∨ a = 2)
    (hne : ∀ m, s.prodPC ≠ .fill m a) : t.header a = s.header a := by
  obtain ⟨done, w, h⟩ := hi
  have hpi := h.producer
  have hp := h.prodOK
  obtain ⟨-, -, ⟨m, b, hs, he⟩ | ⟨m, b, hs, he⟩ | he⟩ := prodStep_frame ht
  · have hab : a ≠ b := by
      intro hab
      exact hne m (hab ▸ hs)
    simpa [State.header, State.setHeader, he] using s.header_write_ne m.header.encode hab
  · simp only [ProdOK, hs] at hp
    have hab : a ≠ b := by omega
    simpa [State.header, he] using s.header_write_ne m.payload hab
  · simp [State.header, he]

theorem prodStep_afterOK {k : Reader} {s t : State} (hi : Inv k s) (h : AfterOK s)
    (hok : NoOverrun s .prod) (ht : prodStep s = some t) : AfterOK t := by
  have hf := prodStep_frame ht
  unfold AfterOK at h ⊢
  rw [hf.1]
  cases hs : s.consPC with
  | after a c =>
    simp only [hs] at h ⊢
    refine ⟨h.1, ?_⟩
    have hne : ∀ m, s.prodPC ≠ .fill m a := by
      intro m hm
      simp [NoOverrun, overruns, hm, hs] at hok
    rw [prodStep_header hi ht h.1 hne]
    exact h.2
  | _ => trivial

theorem consStep_afterOK {k : Reader} {s t : State} (hi : Inv k s) (ht : consStep s = some t) :
    AfterOK t ∧ t.late = s.late := by
  obtain ⟨done, w, h⟩ := hi
  have hc := h.consOK
  have hci := h.consumer
  unfold consStep at ht
  unfold ConsOK at hc
  cases hs : s.consPC with
  | idle => simp [hs] at ht
  | after a c => simp [hs] at ht
  | release a c r =>
    simp only [hs, Option.some.injEq] at ht hc
    obtain ⟨m, -, rfl, -, hcopied, -⟩ := hc
    subst ht
    cases r with
    | moved f c p => exact ⟨⟨hci, hcopied f c p rfl⟩, rfl⟩
    | failed f => exact ⟨trivial, rfl⟩
  | pollc p =>
    simp only [hs, Option.some.injEq] at ht
    subst ht
    refine ⟨afterOK_of_ne ?_, rfl⟩
    intro a c
    by_cases hp : p = s.consumer <;> simp [hp]
  | inspect a =>
    simp only [hs] at ht
    split at ht <;> cases ht <;> exact ⟨trivial, rfl⟩
  | _ =>
    simp only [hs, Option.some.injEq] at ht
    subst ht
    exact ⟨trivial, rfl⟩

theorem editStep_afterOK {k : Reader} {s t : State} {f : HQe → HQe}
    (ht : editStep k s f = some t) : AfterOK t ∧ t.late = s.late := by
  unfold editStep at ht
  split at ht
  · rename_i a found hs
    cases ht
    refine ⟨afterOK_of_ne ?_, rfl⟩
    simp [State.setHeader, State.write, hs]
  · cases ht

theorem step_lateOK {k : Reader} {s t : State} {a : Act} (hi : Inv k s) (ha : AfterOK s)
    (hl : LateOK s) (hok : NoOverrun s a) (ht : step k s a = some t) : AfterOK t ∧ LateOK t := by
  cases a with
  | prod =>
    refine ⟨prodStep_afterOK hi ha hok ht, ?_⟩
    unfold LateOK
    rw [(prodStep_frame ht).2.1]
    exact hl
  | cons =>
    obtain ⟨ha', he⟩ := consStep_afterOK hi ht
    exact ⟨ha', by rwa [LateOK, he]⟩
  | setForwardID x =>
    simp only [step] at ht
    obtain ⟨ha', he⟩ := editStep_afterOK ht
    exact ⟨ha', by rwa [LateOK, he]⟩
  | setSendTime x =>
    simp only [step] at ht
    obtain ⟨ha', he⟩ := editStep_afterOK ht
    exact ⟨ha', by rwa [LateOK, he]⟩
  | setTransTime x =>
    simp only [step] at ht
    obtain ⟨ha', he⟩ := editStep_afterOK ht
    exact ⟨ha', by rwa [LateOK, he]⟩
  | late f =>
    simp only [step] at ht
    split at ht
    · rename_i a c hs
      cases ht
      refine ⟨ha, ?_⟩
      intro r hr
      simp only [AfterOK, hs] at ha
      simp only [List.mem_append, List.mem_singleton] at hr
      rcases hr with hr | rfl
      · exact hl r hr
      · simp [ha.2]
    · cases ht
  | _ =>
    simp only [step] at ht
    split at ht
    · cases ht
      exact ⟨by first | exact ha | trivial, hl⟩
    · cases ht

def Faithful (k : Reader) (s : State) : Prop := Inv k s ∧ AfterOK s ∧ LateOK s

theorem Init.faithful (k : Reader) {s : State} (h : Init s) : Faithful k s := by
  refine ⟨h.inv k, ?_, ?_⟩
  · simp [AfterOK, h.2.2.2.1]
  · simp [LateOK, h.2.2.2.2.2.2]

theorem step_faithful {k : Reader} {s t : State} {a : Act} (h : Faithful k s)
    (hok : NoOverrun s a) (ht : step k s a = some t) : Faithful k t :=
  ⟨step_inv h.1 ht, step_lateOK h.1 h.2.1 h.2.2 hok ht⟩

/-- In every run whose producer never fills an entry that the consumer has released
and is still reading, all late reads are of the packet that was just copied out. -/
theorem lateReads_of_noOverrun (k : Reader) (s : State)
    (h : Machine.ReachableWhen Init (step k) NoOverrun s) :
    ∀ r ∈ s.late, r.value = r.field.get r.packet := by
  have hf : Faithful k s :=
    h.invariant (fun _ hs => hs.faithful k) (fun _ _ _ hf hok ht => step_faithful hf hok ht)
  exact hf.2.2

/-- Two packets of different senders go through, the late reads of the first one done
while the second waits for its place. -/
theorem lateReads_of_noOverrun_two : ∃ s,
    Machine.ReachableWhen Init (step .router) NoOverrun s ∧ s.late.length = 2 ∧
    ∀ r ∈ s.late, r.value = r.field.get r.packet := by
  obtain ⟨s, hs, hp⟩ := Machine.exists_reachableWhen Init (step .router) NoOverrun
    (List.flatten [postAll (sample 3 100 10),
      [.post (sample 4 120 10), .prod, .prod, .prod, .prod], recvAll,
      [.prod, .prod, .prod, .prod, .late .senderID, .late .transTime]])
    (fun s => s.late.length == 2) start_init (by decide)
  simp only [beq_iff_eq] at hp
  exact ⟨s, hs, hp, lateReads_of_noOverrun .router s hs⟩

/-- The first packet is copied out and its entry given back; the second, which was
waiting for the queue to empty, is published; the header of the third goes into the
released entry. -/
def overrunRun (reads : List Act) : List Act :=
  List.flatten [postAll (sample 3 100 10),
    [.post (sample 4 120 10), .prod, .prod, .prod, .prod, .prod], recvAll,
    List.replicate 5 .prod, [.post (sample 5 900 10), .prod, .prod, .prod, .prod], reads]

/-- The receiving device compares its clock with the arrival time of another packet, and
the router acknowledges another sender. -/
theorem lateReads_mixed_up :
    (∃ s, Machine.Reachable Init (step .device) s ∧
      ∃ r ∈ s.late, r.field = .sendTime ∧ r.value ≠ r.field.get r.packet) ∧
    (∃ s, Machine.Reachable Init (step .router) s ∧
      ∃ r ∈ s.late, r.field = .senderID ∧ r.value ≠ r.field.get r.packet) := by
  constructor
  · obtain ⟨s, hs, hp⟩ := Machine.exists_reachable Init (step .device)
      (overrunRun [.late .sendTime, .late .transTime])
      (fun s => s.late.any (fun r => r.field == .sendTime && r.value != r.field.get r.packet))
      start_init (by decide)
    exact ⟨s, hs, by simpa using hp⟩
  · obtain ⟨s, hs, hp⟩ := Machine.exists_reachable Init (step .router)
      (overrunRun [.late .senderID, .late .transTime])
      (fun s => s.late.any (fun r => r.field == .senderID && r.value != r.field.get r.packet))
      start_init (by decide)
    exact ⟨s, hs, by simpa using hp⟩

end M2M.Network.HeaderQueue
