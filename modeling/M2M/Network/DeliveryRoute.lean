import M2M.Network.DeliverySend

/-! The steps of the routers, and the result: a run of the whole network. -/

namespace M2M.Network.Delivery

open M2M.Lib M2M.Lib.Bytes

variable {net : Net} {s t : State} {place : Nat → Place} {b : UInt32}

def Move.shownAs (v : Move) (b : UInt32) : Place :=
  if v.target = .incoming v.packet.header.receiverID then .acking b else .stray

namespace InvAt

theorem routerOK (h : InvAt net s place) {p : Router} (hs : s.router b = p) :
    RouterOK net s place b p := hs ▸ h.router b

theorem others (h : InvAt net s place) {q : Queue} {l : Hq} {b' : UInt32} {place' : Nat → Place}
    (hq : q.reader = some b) (hne : b' ≠ b)
    (hp : ∀ n, place n = .carried b' ∨ place n = .acking b' → place' n = place n)
    (htq : t.queue = Function.update s.queue q l) (htc : t.calls = s.calls) :
    RouterOK net t place' b' (s.router b') := by
  refine (h.router b').congr ?_ hp (fun _ _ hc => htc ▸ hc)
  intro q' hq' hw
  rw [htq]
  refine sameHead_update_ne ?_ hw
  rintro rfl
  exact hne (Option.some.inj (hq'.symm.trans hq))

theorem edit (h : InvAt net s place) {q : Queue} {p : Packet} (hs : s.router b = .idle)
    (hq : q.reader = some b) (hw : (s.queue q).Waiting) (hc : p.call = (s.queue q).head.call)
    (hm : (s.queue q).head.header.SameMessage p.header) :
    InvAt net (s.setQueue q ((s.queue q).setHeader (s.queue q).consumer p)) place := by
  obtain ⟨hp, c, hcall, hd, hpos, hpay⟩ := h.heads q b hq hw (by simp [hs]) (by simp [hs])
  have hhead : ((s.queue q).setHeader (s.queue q).consumer p).head = p := Function.update_self _ _ _
  refine ⟨h.books.frame rfl rfl rfl rfl rfl, ?_, ?_, ?_⟩
  · refine h.heads.setQueue ?_ (fun _ _ _ hn => hn) (fun _ _ _ _ hd hg => ⟨hd, hg⟩)
    intro b' hb' _ _ _
    rw [hhead, hc]
    refine ⟨hp, c, ?_, hd.trans hm, hpos, hpay⟩
    rw [hc]
    exact hcall
  · intro b'
    by_cases hne : b' = b
    · subst hne
      show RouterOK net _ place b' (s.router b')
      rw [hs]
      trivial
    · exact h.others hq hne (fun _ _ => rfl) rfl rfl
  · exact h.channels.setReading hw (Hq.sameTail_setHeader hw p)

theorem routerWrites (h : InvAt net s place) {q : Queue} {l : Hq} {p : Router}
    (hl : l.Waiting → (s.queue q).Waiting)
    (hsame : (s.queue q).Waiting → (s.queue q).SameHead l)
    (hold : ∀ w, s.writing (.router b) = some w → w.queue = q)
    (hfree : ∀ y, (s.queue q).writer = some y → y = .router b)
    (hw : l.writer = p.writing.map (fun _ => .router b))
    (hnew : ∀ w, p.writing = some w → w.queue = q ∧ WriteOK s.calls w l)
    (hq : net.Writes (.router b) q) (hd : ∀ q', s.router b ≠ .drop q') (hg : s.router b ≠ .gone)
    (hp : RouterOK net s place b p) : InvAt net ((s.setQueue q l).setRouter b p) place := by
  refine ⟨h.books.frame rfl rfl rfl rfl rfl, ?_, ?_, ?_⟩
  · refine h.heads.setWriting (fun hlw => ⟨hl hlw, hsame (hl hlw)⟩) ?_
    intro b' q' _ hd' hg'
    by_cases hne : b' = b
    · subst hne
      exact ⟨hd q', hg⟩
    · simp only [State.setRouter, Function.update_of_ne hne] at hd' hg'
      exact ⟨hd', hg'⟩
  · intro b'
    have hframe : ∀ p', RouterOK net s place b' p' →
        RouterOK net ((s.setQueue q l).setRouter b p) place b' p' := by
      intro p' hp'
      exact hp'.congr (fun q' _ hw => sameHead_update hsame hw) (fun _ _ => rfl) (fun _ _ hc => hc)
    show RouterOK net _ place b' (Function.update s.router b p b')
    by_cases hne : b' = b
    · subst hne
      rw [Function.update_self]
      exact hframe p hp
    · rw [Function.update_of_ne hne]
      exact hframe _ (h.router b')
  · refine h.channels.setWriting hold hfree ?_ ?_ ?_ ?_
    · simpa using hw
    · intro w hxw
      obtain ⟨hwq, hok⟩ := hnew w (by simpa using hxw)
      exact ⟨hwq, hok, hq⟩
    · intro y hy
      simp only [writing_setRouter, if_neg hy]
      rfl
    · intro y hy
      have hne : y ≠ .router b := by
        rintro rfl
        exact hg hy
      rw [gone_setRouter, if_neg hne]
      exact hy

theorem locateRoute (h : InvAt net s place) {v : Move} (hs : s.router b = .idle)
    (ht : Takes s b v) (ha : Aims net b v) (he : v.targetEntry = (s.queue v.target).producer)
    (hfree : Free net s v.target) :
    InvAt net ((s.setQueue v.target ((s.queue v.target).locate (.router b))).setRouter b
      (.fill v)) place := by
  have hnone : s.writing (.router b) = none := by
    simp only [State.writing, hs]
    rfl
  have hgone : s.router b ≠ .gone := by simp [hs]
  have hwr : net.Writes (.router b) v.target := ⟨ha.type, v.next, ha.target⟩
  have hw := h.channels.free hnone hgone hwr hfree
  refine h.routerWrites id (fun hl => Hq.sameHead_locate hl _) ?_ ?_ rfl ?_ hwr (by simp [hs]) hgone
    ⟨ht, ha⟩
  · intro w hw
    rw [hnone] at hw
    cases hw
  · intro y hy
    rw [hw] at hy
    cases hy
  · rintro w ⟨⟩
    exact ⟨rfl, he, fun hn => absurd rfl hn, Phase.noConfusion, Phase.noConfusion⟩

theorem moveHeader (h : InvAt net s place) {v : Move} (hs : s.router b = .fill v) :
    InvAt net ((s.setQueue v.target ((s.queue v.target).setHeader v.targetEntry
      ((s.queue v.source).header v.sourceEntry))).setRouter b (.copy v)) place := by
  obtain ⟨ht, ha⟩ := h.routerOK hs
  have hwr : s.writing (.router b) = some ⟨v.target, v.targetEntry, v.packet, .located⟩ := by
    simp only [State.writing, hs]
    rfl
  obtain ⟨hx, hok⟩ := h.channels.write _ _ hwr
  have he : v.targetEntry = (s.queue v.target).producer := hok.entry
  have hp : (s.queue v.source).header v.sourceEntry = v.packet := ht.entry ▸ ht.head
  rw [hp]
  refine h.routerWrites id ?_ ?_ ?_ hx ?_ ⟨ha.type, v.next, ha.target⟩ (by simp [hs])
    (by simp [hs]) ⟨ht, ha⟩
  · intro hl
    rw [he]
    exact Hq.sameHead_setHeader hl _
  · intro w' hw'
    rw [hwr] at hw'
    cases hw'
    rfl
  · intro y hy
    exact Option.some.inj (hy.symm.trans hx)
  · rintro w' ⟨⟩
    refine ⟨rfl, he, ?_, Phase.noConfusion, Phase.noConfusion⟩
    intro _
    rw [he]
    exact Function.update_self _ _ _

theorem movePayload (h : InvAt net s place) {v : Move} (hs : s.router b = .copy v)
    (hempty : ¬ (s.queue v.target).Waiting) :
    InvAt net ((s.setQueue v.target ((s.queue v.target).setPayload
      (((s.queue v.source).payload (s.queue v.source).consumer).take
        ((s.queue v.source).header v.sourceEntry).header.packetSize.toNat))).setRouter b
      (.release v)) place := by
  obtain ⟨ht, ha⟩ := h.routerOK hs
  have hwr : s.writing (.router b) = some ⟨v.target, v.targetEntry, v.packet, .filled⟩ := by
    simp only [State.writing, hs]
    rfl
  obtain ⟨hx, hok⟩ := h.channels.write _ _ hwr
  obtain ⟨-, c, hc, hd, hpos, hpay⟩ :=
    h.heads v.source b ht.reader ht.waiting (by simp [hs]) (by simp [hs])
  rw [ht.head] at hc hd
  have hp : (s.queue v.source).header v.sourceEntry = v.packet := ht.entry ▸ ht.head
  rw [hp, hd.packetSize hpos, hpay]
  have hwait : ¬ ((s.queue v.target).setPayload c.bytes).Waiting := hempty
  refine h.routerWrites (fun hl => absurd hl hwait) (fun hl => absurd hl hempty) ?_ ?_ hx ?_
    ⟨ha.type, v.next, ha.target⟩ (by simp [hs]) (by simp [hs]) ⟨ht, ha⟩
  · intro w' hw'
    rw [hwr] at hw'
    cases hw'
    rfl
  · intro y hy
    exact Option.some.inj (hy.symm.trans hx)
  · rintro w' ⟨⟩
    refine ⟨rfl, hok.entry, ?_, ?_, ?_⟩
    · intro _
      exact hok.header Phase.noConfusion
    · intro _
      exact hwait
    · intro _
      refine ⟨c, hc, hd, hpos, ?_⟩
      simp only [Hq.setPayload, Function.update_self]
      exact take_overwrite _ _

theorem giveBack (h : InvAt net s place) {v : Move} (hs : s.router b = .release v) :
    InvAt net ((s.setQueue v.source (s.queue v.source).release).setRouter b (.publish v))
      (Function.update place v.packet.call (.carried b)) := by
  obtain ⟨ht, ha⟩ := h.routerOK hs
  obtain ⟨hp, -⟩ := h.heads v.source b ht.reader ht.waiting (by simp [hs]) (by simp [hs])
  rw [ht.head] at hp
  have hlive : (place v.packet.call).Live := by
    rw [hp]
    trivial
  refine ⟨?_, ?_, ?_, ?_⟩
  · have hb := h.books.moveOnly (p := .carried b) (h.books.live _ hlive) ?_ (fun hn => hn.elim)
    · exact hb.frame rfl rfl rfl rfl rfl
    · rw [hp]
      exact fun hn => hn.elim
  · refine h.heads.setQueue ?_ ?_ ?_
    · intro b' _ hw
      exact absurd hw (Hq.not_waiting_release ht.waiting)
    · intro n q' hq' hn
      have hne : n ≠ v.packet.call := by
        rintro rfl
        rw [hp] at hn
        cases hn
        exact hq' rfl
      rw [Function.update_of_ne hne]
      exact hn
    · intro b' q' _ _ hd hg
      by_cases hne : b' = b
      · subst hne
        simp [hs]
      · simp only [State.setRouter, Function.update_of_ne hne] at hd hg
        exact ⟨hd, hg⟩
  · intro b'
    show RouterOK net _ _ b' (Function.update s.router b (.publish v) b')
    by_cases hne : b' = b
    · subst hne
      rw [Function.update_self]
      exact ⟨Function.update_self _ _ _, ha⟩
    · rw [Function.update_of_ne hne]
      refine h.others ht.reader hne ?_ rfl rfl
      intro n hn
      have hnv : n ≠ v.packet.call := by
        rintro rfl
        rw [hp] at hn
        rcases hn with hn | hn <;> cases hn
      exact Function.update_of_ne hnv _ _
  · refine (h.channels.setReading ht.waiting Hq.sameTail_release).leave ?_ ?_
    · intro y
      left
      rw [writing_setRouter]
      split
      · rename_i hy
        subst hy
        simp only [State.writing, hs]
        rfl
      · rfl
    · intro y hy
      have hne : y ≠ .router b := by
        rintro rfl
        simp [State.Gone, hs] at hy
      rw [gone_setRouter, if_neg hne]
      exact hy

theorem publishRoute (h : InvAt net s place) {v : Move} (hs : s.router b = .publish v) :
    InvAt net ((s.publish v.target).setRouter b (.ack v))
      (Function.update place v.packet.call (v.target.arrival (v.shownAs b))) := by
  obtain ⟨hp, ha⟩ := h.routerOK hs
  have hwr : s.writing (.router b) = some ⟨v.target, v.targetEntry, v.packet, .copied⟩ := by
    simp only [State.writing, hs]
    rfl
  obtain ⟨hx, hok⟩ := h.channels.write _ _ hwr
  have hhead : (s.queue v.target).header (s.queue v.target).producer = v.packet :=
    hok.header Phase.noConfusion
  have hload : Loaded s.calls v.packet ((s.queue v.target).payload (s.queue v.target).producer) :=
    hok.payload rfl
  have hlive : (place v.packet.call).Live := by
    rw [hp]
    trivial
  refine ⟨?_, ?_, ?_, ?_⟩
  · have hm : ∀ m ∈ s.shows v.target,
        m.packet.call = v.packet.call ∧ (v.target.arrival (v.shownAs b)).Shown := by
      intro m hm
      obtain ⟨z, hz, rfl⟩ := State.shows_call hm
      refine ⟨by rw [hhead], ?_⟩
      rw [hz]
      simp only [Queue.arrival, Move.shownAs]
      split <;> trivial
    refine (h.books.move (h.books.live _ hlive) hm ?_ ?_).frame rfl rfl rfl rfl rfl
    · rw [hp]
      exact fun hn => hn.elim
    · intro harr
      right
      cases hq : v.target with
      | link a c =>
        rw [hq] at harr
        exact harr.elim
      | outgoing a =>
        rw [hq] at harr
        exact harr.elim
      | incoming z =>
        by_cases hz : v.packet.header.receiverID = z
        · obtain ⟨c, hc, hdel⟩ := hload.delivered hz
          refine ⟨c, hc, _, ?_, hdel⟩
          rw [hq] at hhead
          simp only [State.shows, hhead, List.mem_singleton, hq]
        · rw [hq] at harr
          simp only [Queue.arrival, Move.shownAs, hq, Queue.incoming.injEq, Ne.symm hz,
            if_false] at harr
          exact harr.elim
  · refine h.heads.publish rfl hok ?_ ?_
    · intro q hq
      rw [hp] at hq
      cases hq
    · intro b' q' _ hd hg
      by_cases hne : b' = b
      · subst hne
        simp [hs]
      · simp only [State.setRouter, Function.update_of_ne hne] at hd hg
        exact ⟨hd, hg⟩
  · intro b'
    show RouterOK net _ _ b' (Function.update s.router b (.ack v) b')
    by_cases hne : b' = b
    · subst hne
      rw [Function.update_self]
      obtain ⟨c, hc, hd, -⟩ := hload
      refine ⟨ha, ⟨c, hc, hd⟩, ?_⟩
      intro ht
      simp only [Function.update_self, Move.shownAs, ht, if_true, Queue.arrival]
    · rw [Function.update_of_ne hne]
      refine (h.router b').congr ?_ ?_ (fun _ _ hc => hc)
      · intro q _ hw
        exact sameHead_update (fun hl => absurd hl (hok.empty rfl)) hw
      · intro n hn
        have hnv : n ≠ v.packet.call := by
          rintro rfl
          rw [hp] at hn
          rcases hn with hn | hn
          · cases hn
            exact hne rfl
          · cases hn
        exact Function.update_of_ne hnv _ _
  · refine h.channels.publish hwr ?_ ?_ ?_
    · simp [Router.writing]
    · intro y hy
      simp only [writing_setRouter, if_neg hy]
      rfl
    · intro y hy
      have hne : y ≠ .router b := by
        rintro rfl
        simp [State.Gone, hs] at hy
      rw [gone_setRouter, if_neg hne]
      exact hy

theorem discard (h : InvAt net s place) {q : Queue} (hs : s.router b = .drop q) :
    InvAt net ((s.setQueue q (s.queue q).release).setRouter b .idle) place := by
  obtain ⟨hq, hw⟩ := h.routerOK hs
  refine ⟨h.books.frame rfl rfl rfl rfl rfl, ?_, ?_, ?_⟩
  · refine h.heads.setQueue ?_ (fun _ _ _ hn => hn) ?_
    · intro b' _ hw'
      exact absurd hw' (Hq.not_waiting_release hw)
    · intro b' q' hq' _ hd hg
      by_cases hne : b' = b
      · subst hne
        simpa [hs] using Ne.symm hq'
      · simp only [State.setRouter, Function.update_of_ne hne] at hd hg
        exact ⟨hd, hg⟩
  · intro b'
    show RouterOK net _ _ b' (Function.update s.router b .idle b')
    by_cases hne : b' = b
    · subst hne
      rw [Function.update_self]
      trivial
    · rw [Function.update_of_ne hne]
      exact h.others hq hne (fun _ _ => rfl) rfl rfl
  · refine (h.channels.setReading hw Hq.sameTail_release).leave ?_ ?_
    · intro y
      left
      rw [writing_setRouter]
      split
      · rename_i hy
        subst hy
        simp only [State.writing, hs]
        rfl
      · rfl
    · intro y hy
      have hne : y ≠ .router b := by
        rintro rfl
        simp [State.Gone, hs] at hy
      rw [gone_setRouter, if_neg hne]
      exact hy

/-- A router that has moved its packet and has signalled its sender, if anybody, turns to
the next one. -/
theorem rest (h : InvAt net s place) {v : Move} (hs : s.router b = .ack v) :
    InvAt net (s.setRouter b .idle) place := by
  refine ⟨h.books.frame rfl rfl rfl rfl rfl, ?_, ?_, ?_⟩
  · intro q b' hq hw hd hg
    by_cases hne : b' = b
    · subst hne
      exact h.heads q b' hq hw (by simp [hs]) (by simp [hs])
    · simp only [State.setRouter, Function.update_of_ne hne] at hd hg
      exact h.heads q b' hq hw hd hg
  · intro b'
    show RouterOK net _ _ b' (Function.update s.router b .idle b')
    by_cases hne : b' = b
    · subst hne
      rw [Function.update_self]
      trivial
    · rw [Function.update_of_ne hne]
      exact (h.router b').congr (fun q _ hw => .refl hw) (fun _ _ => rfl) (fun _ _ hc => hc)
  · refine h.channels.leave ?_ ?_
    · intro y
      left
      rw [writing_setRouter]
      split
      · rename_i hy
        subst hy
        simp only [State.writing, hs]
        rfl
      · rfl
    · intro y hy
      have hne : y ≠ .router b := by
        rintro rfl
        simp [State.Gone, hs] at hy
      rw [gone_setRouter, if_neg hne]
      exact hy

theorem setLocaltime (h : InvAt net s place) (time : UInt64) :
    InvAt net (s.setLocaltime b time) place := by
  refine ⟨h.books.frame rfl rfl rfl rfl rfl, h.heads, ?_, h.channels⟩
  intro b'
  exact (h.router b').congr (fun q _ hw => .refl hw) (fun _ _ => rfl) (fun _ _ hc => hc)

end InvAt

/-- A router answers only when the receiver has the packet, and it answers the sender of
the header it reads. -/
theorem answer_cases {v : Move} {h : HQe} (ha : Aims net b v)
    (hr : h.receiverID = v.packet.header.receiverID) :
    (answer net b v h).2 = none ∨
      ∃ time, (answer net b v h).2 = some ⟨h.senderID, time, 0⟩ ∧
        v.target = .incoming v.packet.header.receiverID := by
  unfold answer
  split
  · rename_i hn
    refine .inr ⟨_, rfl, ?_⟩
    rcases Net.target_cases ha.target with ⟨-, -, ht⟩ | ⟨hne, -⟩
    · rw [ha.self.mp hn]
      exact ht
    · exact absurd hn hne
  · rename_i hn
    split
    · rename_i hz
      refine .inr ⟨_, rfl, ?_⟩
      rcases Net.target_cases ha.target with ⟨he, -, -⟩ | ⟨-, ht⟩
      · exact absurd he hn
      · rcases net.queueTo_cases b v.next with ⟨-, hi⟩ | ⟨ht', -⟩
        · rw [← hr, hz.1]
          exact ht.trans hi
        · exact absurd hz.2 ht'
    · exact .inl rfl

theorem InvAt.confirm (h : InvAt net s place) {v : Move} (hs : s.router b = .ack v) {time : UInt64}
    (ht : v.target = .incoming v.packet.header.receiverID) :
    InvAt net ((s.signal (some ⟨v.packet.header.senderID, time, 0⟩)).setRouter b .idle)
      (Function.update place v.packet.call .delivered) := by
  obtain ⟨-, ⟨c, hc, hd⟩, hack⟩ := h.routerOK hs
  have hp := hack ht
  have hid : v.packet.header.senderID = c.device := hd.2.2.1
  have hr := h.rest hs
  have hkeep : ∀ n, n ≠ v.packet.call →
      Function.update place v.packet.call .delivered n = place n :=
    fun n hn => Function.update_of_ne hn _ _
  refine ⟨?_, ?_, ?_, hr.channels⟩
  · have hb := hr.books.settle (p := .delivered) (f := ⟨0, time⟩) (by rw [hp]; trivial) hc rfl
      (by rw [hp]; exact iff_of_true trivial (by simp))
    rw [← hid] at hb
    exact hb.frame rfl rfl rfl rfl rfl
  · intro q b' hq hw hdr hg
    obtain ⟨hpl, hl⟩ := hr.heads q b' hq hw hdr hg
    refine ⟨(hkeep _ ?_).trans hpl, hl⟩
    intro he
    have hack := hpl.symm.trans ((congrArg place he).trans hp)
    cases hack
  · intro b'
    show RouterOK net _ _ b' (Function.update s.router b .idle b')
    by_cases hne : b' = b
    · subst hne
      rw [Function.update_self]
      trivial
    · rw [Function.update_of_ne hne]
      refine (h.router b').congr (fun q _ hw => .refl hw) ?_ (fun _ _ hc => hc)
      intro n hn
      refine hkeep n ?_
      rintro rfl
      rw [hp] at hn
      rcases hn with hn | hn
      · cases hn
      · cases hn
        exact hne rfl

theorem routeStep_inv (h : Inv net s) (hok : InTime s (s.router b))
    (ht : routeStep net s b = some t) :
    Inv net t := by
  obtain ⟨place, h⟩ := h
  unfold routeStep at ht
  cases hs : s.router b with
  | idle => simp [hs] at ht
  | gone => simp [hs] at ht
  | drop q =>
    simp only [hs, Option.some.injEq] at ht
    subst ht
    exact ⟨place, h.discard hs⟩
  | fill v =>
    simp only [hs, Option.some.injEq] at ht
    subst ht
    exact ⟨place, h.moveHeader hs⟩
  | copy v =>
    simp only [hs] at ht
    split at ht
    · cases ht
    · rename_i hempty
      cases ht
      exact ⟨place, h.movePayload hs hempty⟩
  | release v =>
    simp only [hs, Option.some.injEq] at ht
    subst ht
    exact ⟨_, h.giveBack hs⟩
  | publish v =>
    simp only [hs, Option.some.injEq] at ht
    subst ht
    exact ⟨_, h.publishRoute hs⟩
  | ack v =>
    simp only [hs, Option.some.injEq] at ht
    subst ht
    rw [hs] at hok
    obtain ⟨hsid, hrid⟩ := hok
    obtain ⟨ha, -, -⟩ := h.routerOK hs
    rcases answer_cases ha hrid with hn | ⟨time, hn, htarget⟩
    · rw [hn]
      exact ⟨place, (h.rest hs).setLocaltime _⟩
    · rw [hn, hsid]
      exact ⟨_, (h.confirm hs htarget).setLocaltime _⟩

end M2M.Network.Delivery
