import M2M.Network.DeliveryLaws

/-! The steps of `m2m_send`. -/

namespace M2M.Network.Delivery

open M2M.Lib.Bytes

variable {net : Net} {s t : State} {place : Nat → Place} {d : UInt32}

theorem Call.length_bytes (c : Call) : c.bytes.length = c.sizeb.toInt.toNat := by
  simp [bytes]

theorem Call.Describes.packetSize {c : Call} {h : HQe} (hd : c.Describes h) (hc : 0 ≤ c.sizeb) :
    h.packetSize.toNat = c.bytes.length := by
  rw [hd.2.1, c.length_bytes]
  exact Int32.toNat_toUInt32_of_le hc

theorem Loaded.delivered {calls : List Call} {p : Packet} {payload : List UInt8} {z : UInt32}
    (h : Loaded calls p payload) (hz : p.header.receiverID = z) :
    ∃ c, calls[p.call]? = some c ∧
      c.Delivered ⟨z, p, payload.take p.header.packetSize.toNat⟩ := by
  obtain ⟨c, hc, hd, hpos, hp⟩ := h
  have hid : p.header.receiverID = c.receiverID.toUInt32 := hd.2.2.2.1
  refine ⟨c, hc, ?_, hd.2.2.1, hid, ?_, ?_⟩
  · exact hz.symm.trans hid
  · rw [hd.packetSize hpos]
    exact hp
  · rw [Int32.le_iff_toInt_le] at hpos
    simp only [hd.packetSize (Int32.le_iff_toInt_le.mpr hpos), hp]
    rw [c.length_bytes]
    exact Int.toNat_of_nonneg hpos

/-- Where a packet is after its queue's producer index has been advanced; `p` is what
becomes of it in the queue of a device. -/
def Queue.arrival : Queue → Place → Place
  | .incoming _, p => p
  | q, _ => .queued q

theorem State.shows_call {m : Placed} {q : Queue} (hm : m ∈ s.shows q) :
    ∃ z, q = .incoming z ∧
      m = ⟨z, (s.queue q).header (s.queue q).producer,
        ((s.queue q).payload (s.queue q).producer).take
          ((s.queue q).header (s.queue q).producer).header.packetSize.toNat⟩ := by
  cases q with
  | incoming z =>
    simp only [shows, List.mem_singleton] at hm
    exact ⟨z, rfl, hm⟩
  | link a b => cases hm
  | outgoing a => cases hm

theorem Heads.publish {calls : List Call} {queue : Queue → Hq} {router router' : UInt32 → Router}
    (h : Heads calls queue place router) {w : Writing} {p : Place} (hp : w.phase = .copied)
    (hok : WriteOK calls w (queue w.queue)) (hold : ∀ q, place w.packet.call ≠ .queued q)
    (hr : ∀ b q, q.reader = some b → router' b ≠ .drop q → router' b ≠ .gone →
      router b ≠ .drop q ∧ router b ≠ .gone) :
    Heads calls (Function.update queue w.queue (queue w.queue).publish)
      (Function.update place w.packet.call (w.queue.arrival p)) router' := by
  obtain ⟨-, hhead, hpay⟩ := Hq.publish_of_not_waiting (hok.empty hp)
  have hhead : (queue w.queue).publish.head = w.packet :=
    hhead.trans (hok.header (by rw [hp]; exact Phase.noConfusion))
  refine h.setQueue ?_ ?_ (fun b q' _ => hr b q')
  · intro b hb _ _ _
    rw [hhead, hpay, Function.update_self]
    refine ⟨?_, hok.payload hp⟩
    cases hq : w.queue with
    | incoming z =>
      rw [hq] at hb
      cases hb
    | link a b => rfl
    | outgoing d => rfl
  · intro n q' _ hn
    have hne : n ≠ w.packet.call := by
      rintro rfl
      exact hold q' hn
    rw [Function.update_of_ne hne]
    exact hn

namespace InvAt

theorem drafted (h : InvAt net s place) {w : Post}
    (hs : s.sender d = .fill w ∨ s.sender d = .copy w) :
    Drafted net s place d w := by
  have hd := h.books.sender d
  rcases hs with hs | hs <;> rwa [hs] at hd

theorem locate (h : InvAt net s place) {c : Call} {n : Nat} {q : Queue}
    (hs : s.sender c.device = .idle) (hc : s.calls[n]? = some c) (hp : place n = .posting)
    (hr : s.result n = none) (hq : net.sendQueue c.device = some q) (hfree : Free net s q)
    (sendTime latency : UInt64) :
    InvAt net ((s.setQueue q ((s.queue q).locate (.sender c.device))).setSender c.device
      (.fill ⟨q, (s.queue q).producer, ⟨n, c.header sendTime latency⟩, c⟩)) place := by
  have hnone : s.writing (.sender c.device) = none := by
    simp only [State.writing, hs]
    rfl
  have hgone : s.sender c.device ≠ .gone := by simp [hs]
  have hw := h.channels.free hnone hgone (show net.Writes (.sender c.device) q from hq) hfree
  refine h.senderWrites id (fun hl => Hq.sameHead_locate hl _) ?_ ?_ rfl ?_ hq (by simp [hs]) hgone
    ⟨hc, rfl, c.describes_header _ _, hp, hr, hq⟩
  · intro w hw
    rw [hnone] at hw
    cases hw
  · intro y hy
    rw [hw] at hy
    cases hy
  · rintro w ⟨⟩
    exact ⟨rfl, rfl, fun hn => absurd rfl hn, Phase.noConfusion, Phase.noConfusion⟩

theorem copyHeader (h : InvAt net s place) {w : Post} (hs : s.sender d = .fill w) :
    InvAt net ((s.setQueue w.queue ((s.queue w.queue).setHeader w.entry w.packet)).setSender d
      (.copy w)) place := by
  have hd := h.drafted (.inl hs)
  have hwr : s.writing (.sender d) = some ⟨w.queue, w.entry, w.packet, .located⟩ := by
    simp only [State.writing, hs]
    rfl
  obtain ⟨hx, hok⟩ := h.channels.write _ _ hwr
  have he : w.entry = (s.queue w.queue).producer := hok.entry
  refine h.senderWrites id ?_ ?_ ?_ hx ?_ hd.queue (by simp [hs]) (by simp [hs]) hd
  · intro hl
    rw [he]
    exact Hq.sameHead_setHeader hl _
  · intro w' hw'
    rw [hwr] at hw'
    cases hw'
    rfl
  · intro y hy
    exact Option.some.inj (hy.symm.trans hx)
  · rintro w' ⟨⟩
    refine ⟨rfl, he, ?_, Phase.noConfusion, Phase.noConfusion⟩
    intro _
    rw [he]
    exact Function.update_self _ _ _

theorem copyPayload (h : InvAt net s place) {w : Post} (hs : s.sender d = .copy w)
    (hempty : ¬ (s.queue w.queue).Waiting) (hpos : 0 ≤ w.args.sizeb) :
    InvAt net (((s.setQueue w.queue ((s.queue w.queue).setPayload w.args.bytes)).setConflag d
      ⟨77, 0⟩).setSender d (.publish w)) place := by
  have hd := h.drafted (.inr hs)
  have hwr : s.writing (.sender d) = some ⟨w.queue, w.entry, w.packet, .filled⟩ := by
    simp only [State.writing, hs]
    rfl
  obtain ⟨hx, hok⟩ := h.channels.write _ _ hwr
  have hflag : InvAt net (s.setConflag d ⟨77, 0⟩) place := by
    refine h.setConflag ?_ ?_
    · rw [hs]
      exact ⟨hd.call, hd.device, hd.header, hd.place, hd.result, hd.queue⟩
    · intro n c hn hc hdev
      exact absurd hdev (h.books.not_live (by simp [hs]) (by simp [hs]) hn hc)
  have hwait : ¬ ((s.queue w.queue).setPayload w.args.bytes).Waiting := hempty
  refine hflag.senderWrites (fun hl => absurd hl hwait) (fun hl => absurd hl hempty) ?_ ?_ hx ?_
    hd.queue ?_ ?_ ?_
  · intro w' hw'
    have := hwr.symm.trans hw'
    cases this
    rfl
  · intro y hy
    exact Option.some.inj (hy.symm.trans hx)
  · rintro w' ⟨⟩
    refine ⟨rfl, hok.entry, ?_, ?_, ?_⟩
    · intro _
      exact hok.header Phase.noConfusion
    · intro _
      exact hwait
    · intro _
      refine ⟨w.args, hd.call, hd.header, hpos, ?_⟩
      simp only [Hq.setPayload, Function.update_self]
      exact take_overwrite _ _
  · show ∀ n, s.sender d ≠ .wait n
    simp [hs]
  · show s.sender d ≠ .gone
    simp [hs]
  · refine ⟨⟨hd.call, hd.device, hd.header, hd.place, hd.result, hd.queue⟩, hpos, ?_⟩
    simp [State.setConflag]

theorem publish (h : InvAt net s place) {w : Post} (hs : s.sender d = .publish w) :
    InvAt net ((s.publish w.queue).setSender d (.wait w.packet.call))
      (Function.update place w.packet.call (w.queue.arrival .stray)) := by
  have hd : Drafted net s place d w ∧ 0 ≤ w.args.sizeb ∧ (s.conflag d).dataflag = 77 := by
    have hd := h.books.sender d
    rwa [hs] at hd
  obtain ⟨hd, -, hflag⟩ := hd
  have hwr : s.writing (.sender d) = some ⟨w.queue, w.entry, w.packet, .copied⟩ := by
    simp only [State.writing, hs]
    rfl
  obtain ⟨hx, hok⟩ := h.channels.write _ _ hwr
  have hhead : (s.queue w.queue).header (s.queue w.queue).producer = w.packet :=
    hok.header Phase.noConfusion
  refine ⟨?_, ?_, ?_, ?_⟩
  · have hw : Books net (s.setSender d (.wait w.packet.call)) place := by
      refine h.books.proceed (by simp [hs]) (by simp [hs]) ?_
      refine ⟨⟨w.args, hd.call, hd.device⟩, hd.result, ?_, ?_⟩
      · intro hf
        exact absurd (hflag.symm.trans hf) (by decide)
      · intro hf
        exact absurd hflag hf
    have hp : Pending (s.setSender d (.wait w.packet.call)) w.packet.call := by
      refine ⟨hd.result, w.args, hd.call, .inl ?_⟩
      rw [hd.device]
      exact ⟨Function.update_self _ _ _, hflag⟩
    have hm : ∀ m ∈ s.shows w.queue,
        m.packet.call = w.packet.call ∧ (w.queue.arrival .stray).Shown := by
      intro m hm
      obtain ⟨z, hz, rfl⟩ := State.shows_call hm
      refine ⟨by rw [hhead], ?_⟩
      rw [hz]
      trivial
    refine (hw.move hp hm ?_ ?_).frame rfl rfl rfl rfl rfl
    · rw [hd.place]
      exact fun hn => hn.elim
    · intro ha
      cases hq : w.queue <;> rw [hq] at ha <;> exact ha.elim
  · refine Heads.publish h.heads rfl hok ?_ (fun _ _ _ hd hg => ⟨hd, hg⟩)
    intro q hq
    rw [hd.place] at hq
    cases hq
  · intro b
    refine (h.router b).congr ?_ ?_ (fun _ _ hc => hc)
    · intro q _ hw
      exact sameHead_update (fun hl => absurd hl (hok.empty rfl)) hw
    · intro n hn
      have hne : n ≠ w.packet.call := by
        rintro rfl
        rw [hd.place] at hn
        rcases hn with hn | hn <;> cases hn
      exact Function.update_of_ne hne _ _
  · refine h.channels.publish hwr ?_ ?_ ?_
    · simp [Sender.writing]
    · intro y hy
      simp only [writing_setSender, if_neg hy]
      rfl
    · intro y hy
      have hne : y ≠ .sender d := by
        rintro rfl
        simp [State.Gone, hs] at hy
      rw [gone_setSender, if_neg hne]
      exact hy

theorem wake (h : InvAt net s place) {n : Nat} (hs : s.sender d = .wait n)
    (hf : (s.conflag d).dataflag ≠ 77) : InvAt net (s.setSender d .idle) place := by
  refine ⟨?_, h.heads, ?_, ?_⟩
  · refine h.books.setSender trivial ?_
    intro m c hm hc hd
    exact absurd hd (h.books.not_live (fun _ _ => hf) (by simp [hs]) hm hc)
  · intro b
    exact (h.router b).congr (fun q _ hw => .refl hw) (fun _ _ => rfl) (fun _ _ hc => hc)
  · refine h.channels.leave ?_ ?_
    · intro y
      left
      rw [writing_setSender]
      split
      · rename_i hy
        subst hy
        simp [State.writing, hs, Sender.writing]
      · rfl
    · intro y hy
      have hne : y ≠ .sender d := by
        rintro rfl
        simp [State.Gone, hs] at hy
      rw [gone_setSender, if_neg hne]
      exact hy

theorem finish (h : InvAt net s place) {n : Nat} (hs : s.sender d = .wait n)
    (hf : (s.conflag d).dataflag ≠ 77) :
    InvAt net ((s.answer n (m2mSendResult
      (if (s.conflag d).dataflag ≠ 44 then .transSuccess else .transFail))).setSender d .idle)
      place := by
  have hd : Awaits s place d n := by
    have hd := h.books.sender d
    rwa [hs] at hd
  obtain ⟨c, hc, hdev⟩ := hd.call
  have hlive : ¬ (place n).Live := by
    intro hl
    exact h.books.not_live (fun _ _ => hf) (by simp [hs]) hl hc hdev
  have hidle : ∀ d', ((s.setSender d .idle).sender d').call? ≠ some n := by
    intro d' hd'
    by_cases hne : d' = d
    · subst hne
      simp [State.setSender, Sender.call?] at hd'
    · simp only [State.setSender, Function.update_of_ne hne] at hd'
      obtain ⟨-, c', hc', hdev'⟩ := (h.books.sender d').call_device hd'
      obtain rfl := Books.call_inj hc hc'
      exact hne (hdev'.symm.trans hdev)
  refine (h.wake hs hf).answer (List.getElem?_eq_some_iff.mp hc).1 hidle hlive ?_ ?_
  · intro hrc
    by_cases h44 : (s.conflag d).dataflag = 44
    · simp [h44, m2mSendResult] at hrc
    · exact hd.delivered hf h44
  · intro hrc
    by_cases h44 : (s.conflag d).dataflag = 44
    · exact .inr (hd.failed h44)
    · simp [h44, m2mSendResult] at hrc

end InvAt

theorem sendStep_inv (h : Inv net s) (ht : sendStep s d = some t) : Inv net t := by
  obtain ⟨place, h⟩ := h
  unfold sendStep at ht
  cases hs : s.sender d with
  | idle => simp [hs] at ht
  | gone => simp [hs] at ht
  | fill w =>
    simp only [hs, Option.some.injEq] at ht
    subst ht
    exact ⟨place, h.copyHeader hs⟩
  | copy w =>
    simp only [hs] at ht
    split at ht
    · cases ht
    · rename_i hempty
      split at ht
      · cases ht
        exact ⟨place, h.exit d⟩
      · rename_i hneg
        cases ht
        exact ⟨place, h.copyPayload hs hempty (Int32.not_lt.mp hneg)⟩
  | publish w =>
    simp only [hs, Option.some.injEq] at ht
    subst ht
    exact ⟨_, h.publish hs⟩
  | wait n =>
    simp only [hs] at ht
    split at ht
    · cases ht
    · rename_i hf
      cases ht
      exact ⟨place, h.finish hs hf⟩

theorem InvAt.refuse (h : InvAt net s place) {c : Call} {rc : M2MErr}
    (hrc : rc ≠ .transSuccess) :
    InvAt net (({ s with calls := s.calls ++ [c] } : State).answer s.calls.length rc) place := by
  obtain ⟨hp, -⟩ := h.books.fresh s.calls.length (Nat.le_refl _)
  refine (h.addCall c).answer (by simp) ?_ ?_ (fun he => absurd he hrc) (fun _ => .inl hp)
  · intro d hd
    obtain ⟨-, c', hc', -⟩ := (h.books.sender d).call_device hd
    exact Nat.lt_irrefl _ (List.getElem?_eq_some_iff.mp hc').1
  · rw [hp]
    exact id

theorem m2mSend_inv (h : Inv net s) {c : Call} {next : UInt32} {sendTime latency : UInt64}
    (hok : Ok net s (.call c next sendTime latency))
    (ht : m2mSend net s c next sendTime latency = some t) : Inv net t := by
  obtain ⟨place, h⟩ := h
  unfold m2mSend at ht
  cases hs : s.sender c.device with
  | idle =>
    simp only [hs] at ht
    split at ht
    · cases ht
      exact ⟨place, h.refuse M2MErr.noConfusion⟩
    · rename_i hacc
      obtain ⟨hsmall, hfree⟩ := hok hacc
      rw [if_pos hsmall, Option.some.injEq] at ht
      subst ht
      have h' := h.addCall c
      unfold postRemoteMsg
      split
      · rename_i q hn hq
        split
        · exact ⟨place, h.refuse (by decide)⟩
        · obtain ⟨hp, hr⟩ := h.books.fresh s.calls.length (Nat.le_refl _)
          exact ⟨place, h'.locate hs (by simp) hp hr hq (hfree q hq) sendTime latency⟩
      · exact ⟨place, h'.exit c.device⟩
  | _ => simp [hs] at ht

end M2M.Network.Delivery
