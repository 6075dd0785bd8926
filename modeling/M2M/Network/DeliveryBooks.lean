import M2M.Network.Delivery

/-! What `m2m_send` has been told about each of its calls, apart from the queues: where
the packet of a call is, and what the sender may still hear about it. -/

namespace M2M.Network.Delivery

/-- Where the packet of a call is.  `carried b` and `acking b` name the router that has
given the packet's entry back, before and after it shows the packet to the next reader. -/
inductive Place
  | posting
  | queued (q : Queue)
  | carried (b : UInt32)
  | acking (b : UInt32)
  | delivered
  | failed
  | stray

namespace Place

/-- A router may still signal the sender. -/
def Live : Place → Prop
  | .queued _ | .carried _ | .acking _ => True
  | _ => False

def Arrived : Place → Prop
  | .acking _ | .delivered => True
  | _ => False

def Shown : Place → Prop
  | .acking _ | .delivered | .stray => True
  | _ => False

theorem Arrived.shown {p : Place} (h : p.Arrived) : p.Shown := by
  cases p <;> trivial

end Place

def Call.Describes (c : Call) (h : HQe) : Prop := (c.header 0 0).SameMessage h

theorem Call.describes_header (c : Call) (sendTime transTime : UInt64) :
    c.Describes (c.header sendTime transTime) := ⟨rfl, rfl, rfl, rfl, rfl⟩

def Sender.call? : Sender → Option Nat
  | .fill w | .copy w | .publish w => some w.packet.call
  | .wait n => some n
  | _ => none

variable {net : Net} {s t : State} {place : Nat → Place}

/-- What a sender knows about the packet it is putting into a queue. -/
structure Drafted (net : Net) (s : State) (place : Nat → Place) (d : UInt32) (w : Post) : Prop where
  call : s.calls[w.packet.call]? = some w.args
  device : w.args.device = d
  header : w.args.Describes w.packet.header
  place : place w.packet.call = .posting
  result : s.result w.packet.call = none
  queue : net.sendQueue d = some w.queue

/-- What a sender that waits for its `dataflag` will read in it. -/
structure Awaits (s : State) (place : Nat → Place) (d : UInt32) (n : Nat) : Prop where
  call : ∃ c, s.calls[n]? = some c ∧ c.device = d
  result : s.result n = none
  failed : (s.conflag d).dataflag = 44 → place n = .failed
  delivered : (s.conflag d).dataflag ≠ 77 → (s.conflag d).dataflag ≠ 44 → place n = .delivered

def SenderOK (net : Net) (s : State) (place : Nat → Place) (d : UInt32) : Sender → Prop
  | .idle | .gone => True
  | .fill w | .copy w => Drafted net s place d w
  | .publish w => Drafted net s place d w ∧ 0 ≤ w.args.sizeb ∧ (s.conflag d).dataflag = 77
  | .wait n => Awaits s place d n

/-- The call has not returned, and its process waits for a signal or is gone. -/
def Pending (s : State) (n : Nat) : Prop :=
  s.result n = none ∧ ∃ c, s.calls[n]? = some c ∧
    ((s.sender c.device = .wait n ∧ (s.conflag c.device).dataflag = 77) ∨
      s.sender c.device = .gone)

/-- The calls, their results and the messages shown to receivers fit together. -/
structure Books (net : Net) (s : State) (place : Nat → Place) : Prop where
  fresh : ∀ n, s.calls.length ≤ n → place n = .posting ∧ s.result n = none
  sender : ∀ d, SenderOK net s place d (s.sender d)
  live : ∀ n, (place n).Live → Pending s n
  arrived : ∀ n, (place n).Arrived →
    ∃ c, s.calls[n]? = some c ∧ ∃ m ∈ s.placed, m.packet.call = n ∧ c.Delivered m
  shown : ∀ m ∈ s.placed, (place m.packet.call).Shown
  success : ∀ n, s.result n = some .transSuccess → place n = .delivered
  failure : ∀ n rc, s.result n = some rc → rc ≠ .transSuccess →
    place n = .posting ∨ place n = .failed

theorem SenderOK.call_device {d : UInt32} {p : Sender} (h : SenderOK net s place d p) {n : Nat}
    (hn : p.call? = some n) :
    s.result n = none ∧ ∃ c, s.calls[n]? = some c ∧ c.device = d := by
  cases p with
  | idle => cases hn
  | gone => cases hn
  | wait m =>
    cases hn
    exact ⟨h.result, h.call⟩
  | fill w =>
    cases hn
    exact ⟨h.result, w.args, h.call, h.device⟩
  | copy w =>
    cases hn
    exact ⟨h.result, w.args, h.call, h.device⟩
  | publish w =>
    cases hn
    exact ⟨h.1.result, w.args, h.1.call, h.1.device⟩

theorem SenderOK.congr {d : UInt32} {p : Sender} {place' : Nat → Place}
    (h : SenderOK net s place d p)
    (hc : ∀ (n : Nat) (c : Call), s.calls[n]? = some c → t.calls[n]? = some c)
    (hf : t.conflag d = s.conflag d)
    (hn : ∀ n, p.call? = some n → place' n = place n ∧ t.result n = s.result n) :
    SenderOK net t place' d p := by
  have draft : ∀ w, p.call? = some w.packet.call → Drafted net s place d w →
      Drafted net t place' d w := by
    intro w hw hd
    obtain ⟨hp, hr⟩ := hn _ hw
    exact ⟨hc _ _ hd.call, hd.device, hd.header, hp.trans hd.place, hr.trans hd.result, hd.queue⟩
  cases p with
  | idle => trivial
  | gone => trivial
  | fill w => exact draft w rfl h
  | copy w => exact draft w rfl h
  | publish w =>
    refine ⟨draft w rfl h.1, h.2.1, ?_⟩
    rw [hf]
    exact h.2.2
  | wait n =>
    obtain ⟨hp, hr⟩ := hn n rfl
    obtain ⟨c, hcall, hd⟩ := h.call
    refine ⟨⟨c, hc n c hcall, hd⟩, hr.trans h.result, ?_, ?_⟩
    · rw [hf, hp]
      exact h.failed
    · rw [hf, hp]
      exact h.delivered

namespace Books

theorem frame (h : Books net s place) (hc : t.calls = s.calls) (hr : t.result = s.result)
    (hs : t.sender = s.sender) (hf : t.conflag = s.conflag) (hp : t.placed = s.placed) :
    Books net t place := by
  refine ⟨?_, ?_, ?_, ?_, ?_, ?_, ?_⟩
  · rw [hc, hr]
    exact h.fresh
  · intro d
    rw [hs]
    exact (h.sender d).congr (fun _ _ hn => hc ▸ hn) (by rw [hf]) (fun _ _ => ⟨rfl, by rw [hr]⟩)
  · unfold Pending
    rw [hc, hr, hs, hf]
    exact h.live
  · rw [hc, hp]
    exact h.arrived
  · rw [hp]
    exact h.shown
  · rw [hr]
    exact h.success
  · rw [hr]
    exact h.failure

theorem call_inj {n : Nat} {c c' : Call} (h : s.calls[n]? = some c) (h' : s.calls[n]? = some c') :
    c = c' := Option.some.inj (h.symm.trans h')

theorem call_ne (h : Books net s place) {d : UInt32} {n : Nat} (hp : Pending s n)
    (hn : (s.sender d).call? = some n) : s.sender d = .wait n := by
  obtain ⟨-, c, hc, hs⟩ := hp
  obtain ⟨-, c', hc', hd⟩ := (h.sender d).call_device hn
  obtain rfl := call_inj hc hc'
  subst hd
  rcases hs with hs | hs
  · exact hs.1
  · rw [hs] at hn
    cases hn

theorem addCall (h : Books net s place) (c : Call) :
    Books net { s with calls := s.calls ++ [c] } place := by
  have hmono : ∀ (n : Nat) (c' : Call), s.calls[n]? = some c' → (s.calls ++ [c])[n]? = some c' := by
    intro n c' hn
    rw [List.getElem?_append_left (List.getElem?_eq_some_iff.mp hn).1]
    exact hn
  refine ⟨?_, ?_, ?_, ?_, h.shown, h.success, h.failure⟩
  · intro n hn
    refine h.fresh n ?_
    simp only [List.length_append, List.length_singleton] at hn
    omega
  · intro d
    exact (h.sender d).congr hmono rfl (fun _ _ => ⟨rfl, rfl⟩)
  · intro n hn
    obtain ⟨hr, c', hc', hs⟩ := h.live n hn
    exact ⟨hr, c', hmono n c' hc', hs⟩
  · intro n hn
    obtain ⟨c', hc', hm⟩ := h.arrived n hn
    exact ⟨c', hmono n c' hc', hm⟩

theorem answer (h : Books net s place) {n : Nat} {rc : M2MErr} (hlt : n < s.calls.length)
    (hs : ∀ d, (s.sender d).call? ≠ some n) (hl : ¬ (place n).Live)
    (hok : rc = .transSuccess → place n = .delivered)
    (hfail : rc ≠ .transSuccess → place n = .posting ∨ place n = .failed) :
    Books net (s.answer n rc) place := by
  have hres : ∀ m, m ≠ n → (s.answer n rc).result m = s.result m :=
    fun m hm => Function.update_of_ne hm _ _
  have hself : (s.answer n rc).result n = some rc := Function.update_self _ _ _
  refine ⟨?_, ?_, ?_, h.arrived, h.shown, ?_, ?_⟩
  · intro m hm
    have hne : m ≠ n := by
      rintro rfl
      exact absurd hlt (Nat.not_lt.mpr hm)
    rw [hres m hne]
    exact h.fresh m hm
  · intro d
    refine (h.sender d).congr (fun _ _ hc => hc) rfl ?_
    intro m hm
    have hne : m ≠ n := by
      rintro rfl
      exact hs d hm
    exact ⟨rfl, hres m hne⟩
  · intro m hm
    have hne : m ≠ n := by
      rintro rfl
      exact hl hm
    obtain ⟨hr, hp⟩ := h.live m hm
    exact ⟨(hres m hne).trans hr, hp⟩
  · intro m hm
    by_cases hne : m = n
    · subst hne
      rw [hself] at hm
      exact hok (Option.some.inj hm)
    · exact h.success m ((hres m hne).symm.trans hm)
  · intro m rc' hm hrc
    by_cases hne : m = n
    · subst hne
      rw [hself] at hm
      obtain rfl := Option.some.inj hm
      exact hfail hrc
    · exact h.failure m rc' ((hres m hne).symm.trans hm) hrc

theorem setSender (h : Books net s place) {d : UInt32} {p : Sender}
    (hp : SenderOK net s place d p)
    (hl : ∀ n c, (place n).Live → s.calls[n]? = some c → c.device = d → p = .gone) :
    Books net (s.setSender d p) place := by
  refine ⟨h.fresh, ?_, ?_, h.arrived, h.shown, h.success, h.failure⟩
  · intro d'
    by_cases hd : d' = d
    · subst hd
      simp only [State.setSender, Function.update_self]
      exact hp.congr (fun _ _ hc => hc) rfl (fun _ _ => ⟨rfl, rfl⟩)
    · simp only [State.setSender, Function.update_of_ne hd]
      exact (h.sender d').congr (fun _ _ hc => hc) rfl (fun _ _ => ⟨rfl, rfl⟩)
  · intro n hn
    obtain ⟨hr, c, hc, hs⟩ := h.live n hn
    refine ⟨hr, c, hc, ?_⟩
    by_cases hd : c.device = d
    · right
      simp only [State.setSender, hd, Function.update_self]
      exact hl n c hn hc hd
    · simp only [State.setSender, Function.update_of_ne hd]
      exact hs

theorem not_live (h : Books net s place) {d : UInt32}
    (hw : ∀ n, s.sender d = .wait n → (s.conflag d).dataflag ≠ 77) (hg : s.sender d ≠ .gone)
    {n : Nat} {c : Call} (hn : (place n).Live) (hc : s.calls[n]? = some c) : c.device ≠ d := by
  rintro rfl
  obtain ⟨-, c', hc', hs⟩ := h.live n hn
  obtain rfl := call_inj hc hc'
  rcases hs with hs | hs
  · exact hw n hs.1 hs.2
  · exact hg hs

theorem proceed (h : Books net s place) {d : UInt32} {p : Sender}
    (hw : ∀ n, s.sender d ≠ .wait n) (hg : s.sender d ≠ .gone) (hp : SenderOK net s place d p) :
    Books net (s.setSender d p) place := by
  refine h.setSender hp ?_
  intro n c hn hc hd
  exact absurd hd (h.not_live (fun m hm => absurd hm (hw m)) hg hn hc)

theorem setConflag (h : Books net s place) {d : UInt32} {f : Conflag}
    (hp : SenderOK net (s.setConflag d f) place d (s.sender d))
    (hl : ∀ n c, (place n).Live → s.calls[n]? = some c → c.device = d → s.sender d = .gone) :
    Books net (s.setConflag d f) place := by
  refine ⟨h.fresh, ?_, ?_, h.arrived, h.shown, h.success, h.failure⟩
  · intro d'
    by_cases hd : d' = d
    · subst hd
      exact hp
    · refine (h.sender d').congr (fun _ _ hc => hc) ?_ (fun _ _ => ⟨rfl, rfl⟩)
      simp only [State.setConflag, Function.update_of_ne hd]
  · intro n hn
    obtain ⟨hr, c, hc, hs⟩ := h.live n hn
    refine ⟨hr, c, hc, ?_⟩
    by_cases hd : c.device = d
    · right
      rw [hd]
      exact hl n c hn hc hd
    · simp only [State.setConflag, Function.update_of_ne hd]
      exact hs

theorem move (h : Books net s place) {n : Nat} {p : Place} {ms : List Placed} (hn : Pending s n)
    (hms : ∀ m ∈ ms, m.packet.call = n ∧ p.Shown) (hshown : (place n).Shown → p.Shown)
    (harr : p.Arrived → (place n).Arrived ∨
      ∃ c, s.calls[n]? = some c ∧ ∃ m ∈ ms, c.Delivered m) :
    Books net { s with placed := s.placed ++ ms } (Function.update place n p) := by
  obtain ⟨hres, c, hc, hs⟩ := id hn
  have hlt : n < s.calls.length := (List.getElem?_eq_some_iff.mp hc).1
  have hne : ∀ m, m ≠ n → Function.update place n p m = place m :=
    fun m hm => Function.update_of_ne hm _ _
  have hself : Function.update place n p n = p := Function.update_self _ _ _
  refine ⟨?_, ?_, ?_, ?_, ?_, ?_, ?_⟩
  · intro m hm
    have hmn : m ≠ n := by
      rintro rfl
      exact absurd hlt (Nat.not_lt.mpr hm)
    rw [hne m hmn]
    exact h.fresh m hm
  · intro d
    by_cases hd : (s.sender d).call? = some n
    · have hw := h.call_ne hn hd
      obtain ⟨-, c', hc', hdev⟩ := (h.sender d).call_device hd
      obtain rfl := call_inj hc hc'
      subst hdev
      have hflag : (s.conflag c.device).dataflag = 77 := by
        rcases hs with hs | hs
        · exact hs.2
        · rw [hs] at hw
          cases hw
      show SenderOK net _ _ _ (s.sender c.device)
      rw [hw]
      refine ⟨⟨c, hc, rfl⟩, hres, ?_, ?_⟩
      · intro hf
        exact absurd (hflag.symm.trans hf) (by decide)
      · intro hf
        exact absurd hflag hf
    · refine (h.sender d).congr (fun _ _ hc => hc) rfl ?_
      intro m hm
      have hmn : m ≠ n := by
        rintro rfl
        exact hd hm
      exact ⟨hne m hmn, rfl⟩
  · intro m hm
    by_cases hmn : m = n
    · subst hmn
      exact hn
    · rw [hne m hmn] at hm
      exact h.live m hm
  · intro m hm
    by_cases hmn : m = n
    · subst hmn
      rw [hself] at hm
      rcases harr hm with ha | ⟨c', hc', e, he, hdel⟩
      · obtain ⟨c', hc', e, he, hce⟩ := h.arrived m ha
        exact ⟨c', hc', e, List.mem_append_left _ he, hce⟩
      · exact ⟨c', hc', e, List.mem_append_right _ he, (hms e he).1, hdel⟩
    · rw [hne m hmn] at hm
      obtain ⟨c', hc', e, he, hce⟩ := h.arrived m hm
      exact ⟨c', hc', e, List.mem_append_left _ he, hce⟩
  · intro m hm
    rcases List.mem_append.mp hm with hm | hm
    · by_cases hmn : m.packet.call = n
      · rw [hmn, hself]
        exact hshown (hmn ▸ h.shown m hm)
      · rw [hne _ hmn]
        exact h.shown m hm
    · obtain ⟨hmn, hp⟩ := hms m hm
      rw [hmn, hself]
      exact hp
  · intro m hm
    have hmn : m ≠ n := by
      rintro rfl
      rw [hres] at hm
      cases hm
    rw [hne m hmn]
    exact h.success m hm
  · intro m rc hm hrc
    have hmn : m ≠ n := by
      rintro rfl
      rw [hres] at hm
      cases hm
    rw [hne m hmn]
    exact h.failure m rc hm hrc

theorem moveOnly (h : Books net s place) {n : Nat} {p : Place} (hn : Pending s n)
    (hshown : (place n).Shown → p.Shown) (harr : p.Arrived → (place n).Arrived) :
    Books net s (Function.update place n p) := by
  have hm := @move _ _ _ h n p [] hn (by simp) hshown (fun ha => .inl (harr ha))
  exact hm.frame rfl rfl rfl rfl (List.append_nil _).symm

theorem settle (h : Books net s place) {n : Nat} {c : Call} {f : Conflag} {p : Place}
    (hl : (place n).Live) (hc : s.calls[n]? = some c)
    (hp : p = if f.dataflag = 44 then .failed else .delivered)
    (hshown : (place n).Arrived ↔ f.dataflag ≠ 44) :
    Books net (s.setConflag c.device f) (Function.update place n p) := by
  have hn := h.live n hl
  have hm : Books net s (Function.update place n p) := by
    refine h.moveOnly hn ?_ ?_
    · intro hs
      have : f.dataflag ≠ 44 := by
        refine hshown.mp ?_
        cases hpl : place n <;> simp_all [Place.Live, Place.Shown, Place.Arrived]
      simp [hp, this, Place.Shown]
    · intro ha
      refine hshown.mpr ?_
      intro h44
      simp [hp, h44, Place.Arrived] at ha
  obtain ⟨hres, c', hc', hs⟩ := hn
  obtain rfl := call_inj hc hc'
  refine hm.setConflag ?_ ?_
  · rcases hs with ⟨hs, -⟩ | hs
    · rw [hs]
      refine ⟨⟨c, hc, rfl⟩, hres, ?_, ?_⟩
      · intro h44
        simp only [State.setConflag, Function.update_self] at h44 ⊢
        rw [hp, if_pos h44]
      · intro _ h44
        simp only [State.setConflag, Function.update_self] at h44 ⊢
        rw [hp, if_neg h44]
    · rw [hs]
      trivial
  · intro m c' hml hmc hd
    rcases hs with ⟨hs, -⟩ | hs
    · exfalso
      obtain ⟨-, c'', hc'', hs'⟩ := hm.live m hml
      obtain rfl := call_inj hmc hc''
      rw [hd, hs] at hs'
      rcases hs' with ⟨hs', -⟩ | hs'
      · cases hs'
        rw [Function.update_self, hp] at hml
        split at hml <;> exact hml
      · cases hs'
    · exact hs

theorem delivers (h : Books net s place) {n : Nat} {c : Call} (hc : s.calls[n]? = some c)
    (hrc : s.result n = some .transSuccess) :
    ∃ m ∈ s.placed, m.packet.call = n ∧ c.Delivered m := by
  have hp : (place n).Arrived := by
    rw [h.success n hrc]
    trivial
  obtain ⟨c', hc', hm⟩ := h.arrived n hp
  obtain rfl := call_inj hc hc'
  exact hm

theorem absent (h : Books net s place) {n : Nat} {rc : M2MErr} (hrc : s.result n = some rc)
    (hne : rc ≠ .transSuccess) : ∀ m ∈ s.placed, m.packet.call ≠ n := by
  rintro m hm rfl
  have hs := h.shown m hm
  rcases h.failure _ rc hrc hne with hp | hp <;> rw [hp] at hs <;> exact hs

end Books

end M2M.Network.Delivery
