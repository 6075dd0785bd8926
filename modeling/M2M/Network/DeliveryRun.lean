import M2M.Network.DeliveryRoute

/-! Runs of the whole network: what `m2m_send` reports is true. -/

namespace M2M.Network.Delivery

open M2M.Lib M2M.Lib.Bytes

variable {net : Net} {s t : State} {place : Nat → Place} {b : UInt32}

theorem InvAt.fail (h : InvAt net s place) {q : Queue} (time : UInt64) (hs : s.router b = .idle)
    (hq : q.reader = some b) (hw : (s.queue q).Waiting) :
    InvAt net ((s.signal (some ⟨(s.queue q).head.header.senderID, time, 44⟩)).setRouter b (.drop q))
      (Function.update place (s.queue q).head.call .failed) := by
  obtain ⟨hp, c, hc, hd, -, -⟩ := h.heads q b hq hw (by simp [hs]) (by simp [hs])
  have hid : (s.queue q).head.header.senderID = c.device := hd.2.2.1
  have hkeep : ∀ n, n ≠ (s.queue q).head.call →
      Function.update place (s.queue q).head.call .failed n = place n :=
    fun n hn => Function.update_of_ne hn _ _
  refine ⟨?_, ?_, ?_, ?_⟩
  · have hb := h.books.settle (p := .failed) (f := ⟨44, time⟩) (by rw [hp]; trivial) hc rfl
      (by rw [hp]; exact iff_of_false id (by simp))
    rw [← hid] at hb
    exact hb.frame rfl rfl rfl rfl rfl
  · intro q' b' hq' hw' hdr hg
    have hne : q' ≠ q := by
      rintro rfl
      obtain rfl := Option.some.inj (hq'.symm.trans hq)
      exact hdr (Function.update_self _ _ _)
    have hbusy : s.router b' ≠ .drop q' ∧ s.router b' ≠ .gone := by
      by_cases hbb : b' = b
      · subst hbb
        simp [hs]
      · simp only [State.setRouter, Function.update_of_ne hbb] at hdr hg
        exact ⟨hdr, hg⟩
    obtain ⟨hpl, hl⟩ := h.heads q' b' hq' hw' hbusy.1 hbusy.2
    refine ⟨(hkeep _ ?_).trans hpl, hl⟩
    intro he
    have hqq := hpl.symm.trans ((congrArg place he).trans hp)
    cases hqq
    exact hne rfl
  · intro b'
    show RouterOK net _ _ b' (Function.update s.router b (.drop q) b')
    by_cases hne : b' = b
    · subst hne
      rw [Function.update_self]
      exact ⟨hq, hw⟩
    · rw [Function.update_of_ne hne]
      refine (h.router b').congr (fun q _ hw => .refl hw) ?_ (fun _ _ hc => hc)
      intro n hn
      refine hkeep n ?_
      rintro rfl
      rw [hp] at hn
      rcases hn with hn | hn <;> cases hn
  · refine h.channels.leave ?_ ?_
    · intro y
      left
      show (s.setRouter b (.drop q)).writing y = s.writing y
      rw [writing_setRouter]
      split
      · rename_i hy
        subst hy
        simp only [State.writing, hs]
        rfl
      · rfl
    · intro y hy
      show (s.setRouter b (.drop q)).Gone y
      have hne : y ≠ .router b := by
        rintro rfl
        simp [State.Gone, hs] at hy
      rw [gone_setRouter, if_neg hne]
      exact hy

theorem Free.setQueue {q q' : Queue} {l : Hq} (h : Free net s q) (hne : q ≠ q') :
    Free net (s.setQueue q' l) q := by
  cases q with
  | incoming z =>
    intro ht
    simp only [State.setQueue, Function.update_of_ne hne]
    exact h ht
  | link a b => trivial
  | outgoing d => trivial

/-- What becomes of the packet that a router takes: the process ends, the packet fails, or
it is on its way into the queue `dest`. -/
theorem takePacket_cases {q : Queue} {next : UInt32} {latency failAddr : UInt64}
    (ht : takePacket net s b q next latency failAddr = some t) :
    s.router b = .idle ∧ net.nodeType b ≠ .zed ∧ q.reader = some b ∧ (s.queue q).Waiting ∧
    ∃ next' out s',
      next' = (if (s.queue q).head.header.receiverID = b then b else next) ∧
      out = processPacket net.abi net.nodeType ⟨b, s.localtime b, latency, failAddr⟩ next'
        (s.queue q).head.header ∧
      s' = s.setQueue q ((s.queue q).setHeader (s.queue q).consumer
        ⟨(s.queue q).head.call, out.packet⟩) ∧
      (t = s.exit b ∨
        (out.transfail = true ∧
          t = ((s'.signal out.ack).setLocaltime b out.localtime).setRouter b (.drop q)) ∨
        ∃ dest time, net.target b next' = some dest ∧
          t = (s'.setQueue dest ((s'.queue dest).locate (.router b))).setRouter b
            (.fill ⟨q, (s.queue q).consumer, dest, (s'.queue dest).producer, next',
              ⟨(s.queue q).head.call, out.packet⟩, time⟩)) := by
  unfold takePacket at ht
  cases hs : s.router b with
  | idle =>
    simp only [hs] at ht
    split at ht
    · rename_i hq
      refine ⟨rfl, hq.1, hq.2.1, hq.2.2.1, _, _, _, rfl, rfl, rfl, ?_⟩
      generalize (if (s.queue q).head.header.receiverID = b then b else next) = next' at *
      cases hdest : net.target b next' with
      | none =>
        simp only [hdest, Option.some.injEq] at ht
        exact .inl ht.symm
      | some dest =>
        simp only [hdest] at ht
        split at ht
        · rename_i hfail
          exact .inr (.inl ⟨hfail, (Option.some.inj ht).symm⟩)
        · exact .inr (.inr ⟨dest, _, rfl, (Option.some.inj ht).symm⟩)
    · cases ht
  | _ => simp [hs] at ht

theorem takePacket_inv (h : Inv net s) {q : Queue} {next : UInt32} {latency failAddr : UInt64}
    (hok : Ok net s (.take b q next latency failAddr))
    (ht : takePacket net s b q next latency failAddr = some t) : Inv net t := by
  obtain ⟨place, h⟩ := h
  obtain ⟨hself, hfree⟩ := hok
  obtain ⟨hs, htype, hq, hw, next', out, s', hnext, hout, hs', ht⟩ := takePacket_cases ht
  simp only [← hnext] at hfree
  have hm : (s.queue q).head.header.SameMessage out.packet :=
    hout ▸ processPacket_sameMessage _ _ _ _ _
  have he : InvAt net s' place :=
    hs' ▸ h.edit (p := ⟨(s.queue q).head.call, out.packet⟩) hs hq hw rfl hm
  have hqueue : s'.queue q = (s.queue q).setHeader (s.queue q).consumer
      ⟨(s.queue q).head.call, out.packet⟩ := by
    rw [hs']
    exact Function.update_self _ _ _
  have hhead : (s'.queue q).head = ⟨(s.queue q).head.call, out.packet⟩ := by
    rw [hqueue]
    exact Function.update_self _ _ _
  have hw' : (s'.queue q).Waiting := by
    rw [hqueue]
    exact hw
  have hidle : s'.router b = .idle := by
    rw [hs']
    exact hs
  rcases ht with rfl | ⟨hfail, rfl⟩ | ⟨dest, time, hdest, rfl⟩
  · exact ⟨place, h.exit b⟩
  · obtain ⟨time, hack⟩ := processPacket_transfail (hout ▸ hfail)
    have hf := he.fail time hidle hq hw'
    rw [hhead, hm.2.2.1] at hf
    rw [hout, hack, ← hout]
    exact ⟨_, hf.setLocaltime _⟩
  · have hne : dest ≠ q := by
      rintro rfl
      exact Net.target_ne hdest hq
    have hfree' : Free net s' dest := by
      rw [hs']
      exact (hfree dest hdest).setQueue hne
    refine ⟨place, he.locateRoute (v := ⟨q, (s.queue q).consumer, dest, _, next',
      ⟨(s.queue q).head.call, out.packet⟩, time⟩) hidle ⟨hq, hw', ?_, hhead⟩ ⟨htype, hdest, ?_⟩
      rfl hfree'⟩
    · rw [hqueue]
      rfl
    · show next' = b ↔ out.packet.receiverID = b
      rw [hm.2.2.2.1, hnext]
      split
      · rename_i hr
        exact iff_of_true rfl hr
      · rename_i hr
        exact iff_of_false (hself hr) hr

theorem receive_inv (h : Inv net s) {z : UInt32} (ht : receive s z = some t) : Inv net t := by
  obtain ⟨place, h⟩ := h
  unfold receive at ht
  split at ht
  · rename_i hw
    cases ht
    refine ⟨place, h.books.frame rfl rfl rfl rfl rfl, ?_, ?_,
      h.channels.setReading hw Hq.sameTail_release⟩
    · refine h.heads.setQueue ?_ (fun _ _ _ hn => hn) (fun _ _ _ _ hd hg => ⟨hd, hg⟩)
      intro b hb
      cases hb
    · intro b
      refine (h.router b).congr ?_ (fun _ _ => rfl) (fun _ _ hc => hc)
      intro q hq hwq
      refine sameHead_update_ne ?_ hwq
      rintro rfl
      cases hq
  · cases ht

theorem step_inv {a : Act} (h : Inv net s) (hok : Ok net s a) (ht : step net s a = some t) :
    Inv net t := by
  cases a with
  | call c next sendTime latency => exact m2mSend_inv h hok ht
  | send d => exact sendStep_inv h ht
  | take b q next latency failAddr => exact takePacket_inv h hok ht
  | route b => exact routeStep_inv h hok ht
  | recv z => exact receive_inv h ht
  | exit d =>
    obtain ⟨place, h⟩ := h
    cases ht
    exact ⟨place, h.exit d⟩

theorem step_result {a : Act} {n : Nat} {rc : M2MErr} (h : Inv net s) (hn : s.result n = some rc)
    (ht : step net s a = some t) : t.result n = some rc := by
  obtain ⟨place, h⟩ := h
  have keep : ∀ {m : Nat} {rc' : M2MErr}, s.result m = none →
      Function.update s.result m (some rc') n = some rc := by
    intro m rc' hm
    have hne : n ≠ m := by
      rintro rfl
      rw [hm] at hn
      cases hn
    rw [Function.update_of_ne hne]
    exact hn
  cases a with
  | call c next sendTime latency =>
    have hlen := (h.books.fresh s.calls.length (Nat.le_refl _)).2
    simp only [step, m2mSend, postRemoteMsg] at ht
    split at ht
    · split at ht
      · cases ht
        exact keep hlen
      · split at ht
        · split at ht
          · split at ht
            · cases ht
              exact keep hlen
            · cases ht
              exact hn
          · cases ht
            exact hn
        · cases ht
          exact keep hlen
    · cases ht
  | send d =>
    simp only [step, sendStep] at ht
    split at ht
    · cases ht
      exact hn
    · split at ht
      · cases ht
      · split at ht <;> cases ht <;> exact hn
    · cases ht
      exact hn
    · rename_i m hs
      split at ht
      · cases ht
      · cases ht
        have hd := h.books.sender d
        rw [hs] at hd
        exact keep hd.result
    · cases ht
  | take b q next latency failAddr =>
    obtain ⟨-, -, -, -, next', out, s', -, -, rfl, ht⟩ := takePacket_cases ht
    rcases ht with rfl | ⟨-, rfl⟩ | ⟨dest, time, -, rfl⟩
    · exact hn
    · cases out.ack <;> exact hn
    · exact hn
  | route b =>
    simp only [step, routeStep] at ht
    split at ht
    · cases ht
      exact hn
    · cases ht
      exact hn
    · split at ht <;> cases ht
      exact hn
    · cases ht
      exact hn
    · cases ht
      exact hn
    · cases ht
      cases (answer _ _ _ _).2 <;> exact hn
    · cases ht
  | recv z =>
    simp only [step, receive] at ht
    split at ht <;> cases ht
    exact hn
  | exit d =>
    cases ht
    exact hn

/-- In a run whose steps all meet the condition, every reported success is a delivery and
every other report a message that is not there and will not come.  An accepted call of
the LARGE scheme always breaks this. -/
theorem send_truthful (net : Net) (s : State)
    (h : Machine.ReachableWhen Init (step net) (Ok net) s) :
    (∀ t, Machine.ReachableWhen (fun u => u = s) (step net) (Ok net) t → Truthful s t) ∧
    ∀ c next sendTime latency t, ¬ c.Refused net → ¬ c.Small →
      step net s (.call c next sendTime latency) = some t → ¬ Truthful t t := by
  have hinv : Inv net s :=
    h.invariant (fun _ hs => hs.inv) (fun _ _ _ hi hok ht => step_inv hi hok ht)
  constructor
  · intro t ht n c rc hc hrc
    refine ⟨?_, ?_⟩
    · rintro rfl
      obtain ⟨place, hp⟩ := hinv
      exact hp.books.delivers hc hrc
    · intro hne
      have hlater : Inv net t ∧ t.result n = some rc := by
        refine @Machine.ReachableWhen.invariant _ _ _ _ _
          (fun u => Inv net u ∧ u.result n = some rc) ?_ ?_ _ ht
        · rintro u rfl
          exact ⟨hinv, hrc⟩
        · intro u a v hu hok hv
          exact ⟨step_inv hu.1 hok hv, step_result hu.1 hu.2 hv⟩
      obtain ⟨⟨place, hp⟩, hrt⟩ := hlater
      exact hp.books.absent hrt hne
  · intro c next sendTime latency t hacc hlarge ht htruth
    obtain ⟨place, hp⟩ := hinv
    simp only [step, m2mSend, if_neg hacc, if_neg hlarge] at ht
    split at ht
    · cases ht
      obtain ⟨hfresh, -⟩ := hp.books.fresh s.calls.length (Nat.le_refl _)
      obtain ⟨m, hm, hcall, -⟩ := (htruth s.calls.length c .transSuccess (by simp [State.answer])
        (Function.update_self _ _ _)).1 rfl
      have hs := hp.books.shown m hm
      rw [hcall, hfresh] at hs
      exact hs
    · cases ht

/-- A coordinator, a router and an end device in a row. -/
def line : Net where
  abi := .x86_64
  nodeType := sampleType
  totalDeviceNum := 3
  neighborNum i := if i = 2 then 2 else 1
  neighbors i count := if i = 2 then if count = 0 then 1 else 3 else 2

def start : State where
  queue _ := ⟨false, false, fun _ => ⟨0, ⟨0, 0, 0, 0, 0, 0, 0, 0⟩⟩, fun _ => [], none⟩
  conflag _ := ⟨0, 0⟩
  localtime _ := 0
  sender _ := .idle
  router _ := .idle
  calls := []
  result _ := none
  placed := []

theorem start_init : Init start :=
  ⟨fun _ => ⟨rfl, rfl, rfl⟩, fun _ => rfl, fun _ => rfl, rfl, fun _ => rfl, rfl⟩

/-- The end device sends `sizeb` bytes to the coordinator. -/
def sampleCall (sizeb : Int32) : Call := ⟨3, sizeb, 1, 7, fun i => UInt8.ofNat (i + 1)⟩

def sampleRun : List Act :=
  List.flatten [[.call (sampleCall 4) 2 1000000 3456000], List.replicate 3 (.send 3),
    [.take 2 (.link 3 2) 1 2496000 0], List.replicate 5 (.route 2),
    [.take 1 (.link 2 1) 0 2496000 0], List.replicate 5 (.route 1), [.send 3]]

theorem send_truthful_coordinator : ∃ s c,
    Machine.ReachableWhen Init (step line) (Ok line) s ∧ s.calls[0]? = some c ∧ c.sizeb = 4 ∧
      s.result 0 = some .transSuccess ∧ ∃ m ∈ s.placed, m.packet.call = 0 ∧ c.Delivered m := by
  obtain ⟨s, hs, hp⟩ := Machine.exists_reachableWhen Init (step line) (Ok line) sampleRun
    (fun s => s.result 0 == some .transSuccess && (s.calls[0]?).any (fun c => c.sizeb == 4))
    start_init (by decide +kernel)
  simp only [Bool.and_eq_true, beq_iff_eq, Option.any_eq_true] at hp
  obtain ⟨hrc, c, hc, hsize⟩ := hp
  exact ⟨s, c, hs, hc, hsize, hrc,
    ((send_truthful line s hs).1 s (.start rfl) 0 c .transSuccess hc hrc).1 rfl⟩

/-- 129 bytes are reported as delivered, and nothing has been sent. -/
theorem large_send_untruthful : ∃ s c,
    Machine.Reachable Init (step line) s ∧ s.calls[0]? = some c ∧ c.sizeb = 129 ∧
      s.result 0 = some .transSuccess ∧ s.placed = [] ∧ ¬ Truthful s s := by
  obtain ⟨s, hs, hp⟩ := Machine.exists_reachable Init (step line)
    [.call (sampleCall 129) 2 1000000 3456000]
    (fun s => s.result 0 == some .transSuccess && (s.calls[0]?).any (fun c => c.sizeb == 129) &&
      s.placed.isEmpty) start_init (by decide +kernel)
  simp only [Bool.and_eq_true, beq_iff_eq, Option.any_eq_true, List.isEmpty_iff] at hp
  obtain ⟨⟨hrc, c, hc, hsize⟩, hnil⟩ := hp
  refine ⟨s, c, hs, hc, hsize, hrc, hnil, ?_⟩
  intro htruth
  obtain ⟨m, hm, -⟩ := (htruth 0 c .transSuccess hc hrc).1 rfl
  rw [hnil] at hm
  cases hm

end M2M.Network.Delivery
