import M2M.Network.Arrival
import M2M.Network.DeliveryQueues

namespace M2M.Network.Delivery

open M2M.Lib M2M.Lib.Bytes

variable {net : Net} {s t : State} {place place' : Nat → Place} {b d : UInt32}

theorem processPacket_sameMessage (abi : Abi) (nodeType : UInt32 → DeviceType) (r : Hop)
    (next : UInt32) (h : HQe) : h.SameMessage (processPacket abi nodeType r next h).packet := by
  unfold processPacket
  split
  · rw [deliverSelf_eq]
    exact ⟨rfl, rfl, rfl, rfl, rfl⟩
  · by_cases hs : h.senderID = r.id
    · by_cases ht : h.transTime = 0 <;> simp [forward, HQe.SameMessage, hs, ht]
    · by_cases ht : r.latency = 0 <;> simp [forward, HQe.SameMessage, hs, ht]

/-- A router that cannot transmit tells the sender so. -/
theorem processPacket_transfail {abi : Abi} {nodeType : UInt32 → DeviceType} {r : Hop}
    {next : UInt32} {h : HQe} (ht : (processPacket abi nodeType r next h).transfail = true) :
    ∃ time, (processPacket abi nodeType r next h).ack = some ⟨h.senderID, time, 44⟩ := by
  unfold processPacket at ht ⊢
  split at ht
  · simp [deliverSelf_eq] at ht
  · rename_i hn
    rw [if_neg hn]
    by_cases hs : h.senderID = r.id
    · by_cases h0 : h.transTime = 0 <;> simp_all [forward]
    · by_cases h0 : r.latency = 0 <;> simp_all [forward]

/-- A router's choice of queue for the packet it moves. -/
structure Aims (net : Net) (b : UInt32) (v : Move) : Prop where
  type : net.nodeType b ≠ .zed
  target : net.target b v.next = some v.target
  self : v.next = b ↔ v.packet.header.receiverID = b

/-- The packet that the router moves still waits in its queue. -/
structure Takes (s : State) (b : UInt32) (v : Move) : Prop where
  reader : v.source.reader = some b
  waiting : (s.queue v.source).Waiting
  entry : (s.queue v.source).consumer = v.sourceEntry
  head : (s.queue v.source).head = v.packet

def RouterOK (net : Net) (s : State) (place : Nat → Place) (b : UInt32) : Router → Prop
  | .idle | .gone => True
  | .drop q => q.reader = some b ∧ (s.queue q).Waiting
  | .fill v | .copy v | .release v => Takes s b v ∧ Aims net b v
  | .publish v => place v.packet.call = .carried b ∧ Aims net b v
  | .ack v =>
    Aims net b v ∧ (∃ c, s.calls[v.packet.call]? = some c ∧ c.Describes v.packet.header) ∧
      (v.target = .incoming v.packet.header.receiverID → place v.packet.call = .acking b)

structure InvAt (net : Net) (s : State) (place : Nat → Place) : Prop where
  books : Books net s place
  heads : Heads s.calls s.queue place s.router
  router : ∀ b, RouterOK net s place b (s.router b)
  channels : Channels net s.calls s.queue s.writing s.Gone

def Inv (net : Net) (s : State) : Prop := ∃ place, InvAt net s place

theorem RouterOK.congr {p : Router} (h : RouterOK net s place b p)
    (hq : ∀ q, q.reader = some b → (s.queue q).Waiting → (s.queue q).SameHead (t.queue q))
    (hp : ∀ n, place n = .carried b ∨ place n = .acking b → place' n = place n)
    (hc : ∀ (n : Nat) (c : Call), s.calls[n]? = some c → t.calls[n]? = some c) :
    RouterOK net t place' b p := by
  have takes : ∀ v, Takes s b v → Takes t b v := by
    intro v hv
    have hs := hq _ hv.reader hv.waiting
    exact ⟨hv.reader, hs.waiting, hs.consumer.trans hv.entry, hs.head.trans hv.head⟩
  cases p with
  | idle => trivial
  | gone => trivial
  | drop q => exact ⟨h.1, (hq q h.1 h.2).waiting⟩
  | fill v => exact ⟨takes v h.1, h.2⟩
  | copy v => exact ⟨takes v h.1, h.2⟩
  | release v => exact ⟨takes v h.1, h.2⟩
  | publish v => exact ⟨(hp _ (.inl h.1)).trans h.1, h.2⟩
  | ack v =>
    obtain ⟨ha, ⟨c, hcall, hd⟩, hv⟩ := h
    refine ⟨ha, ⟨c, hc _ _ hcall, hd⟩, ?_⟩
    intro ht
    exact (hp _ (.inr (hv ht))).trans (hv ht)

theorem sameHead_update {queue : Queue → Hq} {q q' : Queue} {l : Hq}
    (hl : (queue q).Waiting → (queue q).SameHead l) (hw : (queue q').Waiting) :
    (queue q').SameHead (Function.update queue q l q') := by
  by_cases hq : q' = q
  · subst hq
    rw [Function.update_self]
    exact hl hw
  · rw [Function.update_of_ne hq]
    exact .refl hw

theorem sameHead_update_ne {queue : Queue → Hq} {q q' : Queue} {l : Hq} (hq : q' ≠ q)
    (hw : (queue q').Waiting) : (queue q').SameHead (Function.update queue q l q') := by
  rw [Function.update_of_ne hq]
  exact .refl hw

@[simp] theorem writing_setSender (d : UInt32) (p : Sender) (x : Agent) :
    (s.setSender d p).writing x = if x = .sender d then p.writing else s.writing x := by
  cases x with
  | sender d' =>
    simp only [State.writing, State.setSender, Function.update_apply, Agent.sender.injEq]
    split <;> rfl
  | router b => simp [State.writing, State.setSender]

@[simp] theorem writing_setRouter (b : UInt32) (p : Router) (x : Agent) :
    (s.setRouter b p).writing x = if x = .router b then p.writing else s.writing x := by
  cases x with
  | router b' =>
    simp only [State.writing, State.setRouter, Function.update_apply, Agent.router.injEq]
    split <;> rfl
  | sender d => simp [State.writing, State.setRouter]

@[simp] theorem gone_setSender (d : UInt32) (p : Sender) (x : Agent) :
    (s.setSender d p).Gone x ↔ if x = .sender d then p = .gone else s.Gone x := by
  cases x with
  | sender d' =>
    simp only [State.Gone, State.setSender, Function.update_apply, Agent.sender.injEq]
    split <;> rfl
  | router b => simp [State.Gone, State.setSender]

@[simp] theorem gone_setRouter (b : UInt32) (p : Router) (x : Agent) :
    (s.setRouter b p).Gone x ↔ if x = .router b then p = .gone else s.Gone x := by
  cases x with
  | router b' =>
    simp only [State.Gone, State.setRouter, Function.update_apply, Agent.router.injEq]
    split <;> rfl
  | sender d => simp [State.Gone, State.setRouter]

theorem Init.inv (h : Init s) : Inv net s := by
  obtain ⟨hq, hs, hr, hc, hres, hp⟩ := h
  refine ⟨fun _ => .posting, ⟨?_, ?_, ?_, ?_, ?_, ?_, ?_⟩, ?_, ?_, ?_, ?_⟩
  · exact fun n _ => ⟨rfl, hres n⟩
  · intro d
    rw [hs d]
    trivial
  · exact fun n hn => hn.elim
  · exact fun n hn => hn.elim
  · intro m hm
    rw [hp] at hm
    cases hm
  · intro n hn
    rw [hres n] at hn
    cases hn
  · exact fun n _ _ _ => .inl rfl
  · intro q b _ hw
    exact absurd ((hq q).1.trans (hq q).2.1.symm) hw
  · intro b
    rw [hr b]
    trivial
  · intro x w hw
    cases x with
    | sender d => simp [State.writing, hs d, Sender.writing] at hw
    | router b => simp [State.writing, hr b, Router.writing] at hw
  · intro q x hx
    rw [(hq q).2.2] at hx
    cases hx

namespace InvAt

theorem exit (h : InvAt net s place) (d : UInt32) : InvAt net (s.exit d) place := by
  refine ⟨?_, ?_, ?_, ?_⟩
  · have hb : Books net (s.setSender d .gone) place :=
      h.books.setSender trivial (fun _ _ _ _ _ => rfl)
    exact hb.frame rfl rfl rfl rfl rfl
  · intro q b hq hw hd hg
    have hb : b ≠ d := by
      rintro rfl
      exact hg (Function.update_self _ _ _)
    simp only [State.exit, State.setRouter, Function.update_of_ne hb] at hd hg
    exact h.heads q b hq hw hd hg
  · intro b
    by_cases hb : b = d
    · subst hb
      simp only [State.exit, State.setRouter, Function.update_self]
      trivial
    · simp only [State.exit, State.setRouter, Function.update_of_ne hb]
      exact (h.router b).congr (fun q _ hw => .refl hw) (fun _ _ => rfl) (fun _ _ hc => hc)
  · refine h.channels.leave ?_ ?_
    · intro y
      cases y with
      | sender d' =>
        by_cases hd : d' = d <;> simp [State.exit, hd, Sender.writing]
      | router b =>
        by_cases hb : b = d <;> simp [State.exit, hb, Router.writing]
    · intro y hy
      cases y with
      | sender d' =>
        by_cases hd : d' = d <;> simp [State.exit, hd, hy]
      | router b =>
        by_cases hb : b = d <;> simp [State.exit, hb, hy]

theorem addCall (h : InvAt net s place) (c : Call) :
    InvAt net { s with calls := s.calls ++ [c] } place := by
  have hmono : ∀ (n : Nat) (c' : Call), s.calls[n]? = some c' →
      (s.calls ++ [c])[n]? = some c' := by
    intro n c' hn
    rw [List.getElem?_append_left (List.getElem?_eq_some_iff.mp hn).1]
    exact hn
  refine ⟨h.books.addCall c, h.heads.mono hmono, ?_, h.channels.mono hmono⟩
  intro b
  exact (h.router b).congr (fun q _ hw => .refl hw) (fun _ _ => rfl) hmono

theorem answer (h : InvAt net s place) {n : Nat} {rc : M2MErr} (hlt : n < s.calls.length)
    (hs : ∀ d, (s.sender d).call? ≠ some n) (hl : ¬ (place n).Live)
    (hok : rc = .transSuccess → place n = .delivered)
    (hfail : rc ≠ .transSuccess → place n = .posting ∨ place n = .failed) :
    InvAt net (s.answer n rc) place := by
  refine ⟨h.books.answer hlt hs hl hok hfail, h.heads, ?_, h.channels⟩
  intro b
  exact (h.router b).congr (fun q _ hw => .refl hw) (fun _ _ => rfl) (fun _ _ hc => hc)

theorem setConflag (h : InvAt net s place) {f : Conflag}
    (hp : SenderOK net (s.setConflag d f) place d (s.sender d))
    (hl : ∀ n c, (place n).Live → s.calls[n]? = some c → c.device = d → s.sender d = .gone) :
    InvAt net (s.setConflag d f) place := by
  refine ⟨h.books.setConflag hp hl, h.heads, ?_, h.channels⟩
  intro b
  exact (h.router b).congr (fun q _ hw => .refl hw) (fun _ _ => rfl) (fun _ _ hc => hc)

theorem senderWrites (h : InvAt net s place) {q : Queue} {l : Hq} {p : Sender}
    (hl : l.Waiting → (s.queue q).Waiting)
    (hsame : (s.queue q).Waiting → (s.queue q).SameHead l)
    (hold : ∀ w, s.writing (.sender d) = some w → w.queue = q)
    (hfree : ∀ y, (s.queue q).writer = some y → y = .sender d)
    (hw : l.writer = p.writing.map (fun _ => .sender d))
    (hnew : ∀ w, p.writing = some w → w.queue = q ∧ WriteOK s.calls w l)
    (hq : net.sendQueue d = some q) (hs : ∀ n, s.sender d ≠ .wait n) (hg : s.sender d ≠ .gone)
    (hp : SenderOK net s place d p) : InvAt net ((s.setQueue q l).setSender d p) place := by
  refine ⟨(h.books.proceed hs hg hp).frame rfl rfl rfl rfl rfl, ?_, ?_, ?_⟩
  · exact h.heads.setWriting (fun hlw => ⟨hl hlw, hsame (hl hlw)⟩) (fun _ _ _ hd hg => ⟨hd, hg⟩)
  · intro b
    exact (h.router b).congr (fun q' _ hw => sameHead_update hsame hw) (fun _ _ => rfl)
      (fun _ _ hc => hc)
  · refine h.channels.setWriting hold hfree ?_ ?_ ?_ ?_
    · simpa using hw
    · intro w hxw
      obtain ⟨hwq, hok⟩ := hnew w (by simpa using hxw)
      exact ⟨hwq, hok, hq⟩
    · intro y hy
      simp only [writing_setSender, if_neg hy]
      rfl
    · intro y hy
      have hne : y ≠ .sender d := by
        rintro rfl
        exact hg hy
      rw [gone_setSender, if_neg hne]
      exact hy

end InvAt

end M2M.Network.Delivery
