import Mathlib.Data.Multiset.AddSub
import Mathlib.Tactic.Abel
import M2M.Shaper.NetDelay

/-! What becomes of the frames that a delay is given. -/

universe u

namespace M2M.Shaper

open M2M.Lib

variable {ω : Type u}

section Frames

def Syn (info : SessionInfo) (data : List UInt8) : Prop :=
  ∃ flags, packetSynFlags data = some (info, flags) ∧ flags &&& 0x05 = 0 ∧ flags &&& 0x12 = 0x02

def Closing (info : SessionInfo) (data : List UInt8) : Prop :=
  ∃ flags, packetSynFlags data = some (info, flags) ∧ flags &&& 0x05 ≠ 0

def IsTcp (data : List UInt8) : Prop :=
  data.getD (14 + 9) 0 = protocolTcp ∧ data.getD (14 + 6) 0 &&& 0x1f = 0 ∧ data.getD (14 + 7) 0 = 0

instance (data : List UInt8) : Decidable (IsTcp data) := inferInstanceAs (Decidable (_ ∧ _ ∧ _))

/-- What may be lost: a TCP SYN that repeats one still held for its session, and a held TCP SYN
whose connection a FIN or RST of its session drops. -/
inductive Excused : Loss ω → Prop
  | repeated {info packet held} : IsTcp packet.data → Syn info packet.data → IsTcp held.data →
      Syn info held.data → Excused ⟨packet, held⟩
  | dropped {info packet held} : IsTcp held.data → Syn info held.data → IsTcp packet.data →
      Closing info packet.data → Excused ⟨held, packet⟩

theorem Excused.isTcp {loss : Loss ω} (h : Excused loss) :
    IsTcp loss.packet.data ∧ IsTcp loss.cause.data := by
  cases h with
  | repeated hpacket _ hcause => exact ⟨hpacket, hcause⟩
  | dropped hpacket _ hcause => exact ⟨hpacket, hcause⟩

end Frames

section Loop

def held (sessions : List (Session ω)) : List (Packet ω) := sessions.filterMap Session.packet

variable {now : Int} {rearm : Option Int} {sessions : List (Session ω)} {session : Session ω}

theorem rearmed_le (rearm : Option Int) (expiration : Int) :
    (∀ time ∈ rearm, ∃ armed ∈ rearmed rearm expiration, armed ≤ time) ∧
      ∃ armed ∈ rearmed rearm expiration, armed ≤ expiration := by
  cases rearm with
  | none => exact ⟨nofun, expiration, rfl, Int.le_refl _⟩
  | some time =>
    rw [rearmed]
    split
    · next hlt =>
      refine ⟨fun t ht => ⟨expiration, rfl, ?_⟩, expiration, rfl, Int.le_refl _⟩
      cases ht
      exact Int.le_of_lt hlt
    · next hlt =>
      refine ⟨fun t ht => ⟨time, rfl, ?_⟩, time, rfl, Int.not_lt.mp hlt⟩
      cases ht
      exact Int.le_refl _

theorem delayLoop_sessions (now : Int) (rearm : Option Int) (sessions : List (Session ω)) :
    (delayLoop now rearm sessions).2.1.map Session.info = sessions.map Session.info ∧
      ((delayLoop now rearm sessions).1 ++ held (delayLoop now rearm sessions).2.1).Perm
        (held sessions) ∧
      ∀ s ∈ (delayLoop now rearm sessions).2.1, ∃ s' ∈ sessions, s.info = s'.info ∧
        ∀ packet ∈ s.packet, packet ∈ s'.packet := by
  induction sessions generalizing rearm with
  | nil => exact ⟨rfl, .nil, nofun⟩
  | cons session next ih =>
    rw [delayLoop]
    cases hpacket : session.packet with
    | none =>
      obtain ⟨hinfos, hheld, hkept⟩ := ih rearm
      dsimp only
      refine ⟨congrArg (session.info :: ·) hinfos, ?_, ?_⟩
      · rw [held, held, List.filterMap_cons_none hpacket, List.filterMap_cons_none hpacket]
        exact hheld
      · rw [List.forall_mem_cons]
        refine ⟨⟨session, List.mem_cons_self, rfl, fun _ h => h⟩, fun s hs => ?_⟩
        obtain ⟨s', hs', hsame⟩ := hkept s hs
        exact ⟨s', List.mem_cons_of_mem _ hs', hsame⟩
    | some packet =>
      dsimp only
      split
      · obtain ⟨hinfos, hheld, hkept⟩ := ih rearm
        refine ⟨congrArg (session.info :: ·) hinfos, ?_, ?_⟩
        · rw [held, held, List.filterMap_cons_none rfl, List.filterMap_cons_some hpacket]
          exact hheld.cons packet
        · rw [List.forall_mem_cons]
          refine ⟨⟨session, List.mem_cons_self, rfl, nofun⟩, fun s hs => ?_⟩
          obtain ⟨s', hs', hsame⟩ := hkept s hs
          exact ⟨s', List.mem_cons_of_mem _ hs', hsame⟩
      · obtain ⟨hinfos, hheld, hkept⟩ := ih (rearmed rearm session.expiration)
        refine ⟨congrArg (session.info :: ·) hinfos, ?_, ?_⟩
        · rw [held, held, List.filterMap_cons_some hpacket, List.filterMap_cons_some hpacket]
          exact List.perm_middle.trans (hheld.cons packet)
        · rw [List.forall_mem_cons]
          refine ⟨⟨session, List.mem_cons_self, rfl, fun _ h => h⟩, fun s hs => ?_⟩
          obtain ⟨s', hs', hsame⟩ := hkept s hs
          exact ⟨s', List.mem_cons_of_mem _ hs', hsame⟩

theorem delayLoop_armed (now : Int) (rearm : Option Int) (sessions : List (Session ω)) :
    (∀ time ∈ rearm, ∃ armed ∈ (delayLoop now rearm sessions).2.2, armed ≤ time) ∧
      ∀ s ∈ (delayLoop now rearm sessions).2.1, s.packet.isSome →
        ∃ armed ∈ (delayLoop now rearm sessions).2.2, armed ≤ s.expiration := by
  induction sessions generalizing rearm with
  | nil => exact ⟨fun time h => ⟨time, h, Int.le_refl _⟩, nofun⟩
  | cons session next ih =>
    rw [delayLoop]
    cases hpacket : session.packet with
    | none =>
      obtain ⟨hsooner, harmed⟩ := ih rearm
      refine ⟨hsooner, ?_⟩
      dsimp only
      rw [List.forall_mem_cons, hpacket]
      exact ⟨nofun, harmed⟩
    | some packet =>
      dsimp only
      split
      · obtain ⟨hsooner, harmed⟩ := ih rearm
        refine ⟨hsooner, ?_⟩
        rw [List.forall_mem_cons]
        exact ⟨nofun, harmed⟩
      · obtain ⟨hsooner, harmed⟩ := ih (rearmed rearm session.expiration)
        obtain ⟨hbefore, time, htime, hle⟩ := rearmed_le rearm session.expiration
        refine ⟨fun t ht => ?_, ?_⟩
        · obtain ⟨time, htime, hle⟩ := hbefore t ht
          obtain ⟨armed, harmed, hle'⟩ := hsooner time htime
          exact ⟨armed, harmed, hle'.trans hle⟩
        · rw [List.forall_mem_cons]
          refine ⟨fun _ => ?_, harmed⟩
          obtain ⟨armed, harmed, hle'⟩ := hsooner time htime
          exact ⟨armed, harmed, hle'.trans hle⟩

end Loop

section Delays

/-- There is one session for each connection, they are counted, and what they hold are SYNs. -/
structure Listed (delay : NetDelay ω) : Prop where
  unique : (delay.sessions.map Session.info).Nodup
  counted : delay.numSessions = delay.sessions.length
  syn : ∀ session ∈ delay.sessions, ∀ packet ∈ session.packet, Syn session.info packet.data

/-- The timer is armed for each session that holds a packet. -/
def Armed (delay : NetDelay ω) : Prop :=
  ∀ session ∈ delay.sessions, session.packet.isSome →
    ∃ armed ∈ delay.timer, armed ≤ session.expiration

variable {delay : NetDelay ω} {packet : Packet ω} {now : Int}

theorem netdelayExpires_listed (h : Listed delay) (now : Int) :
    Listed (netdelayExpires delay now).1 := by
  obtain ⟨hinfos, -, hkept⟩ := delayLoop_sessions now none delay.sessions
  refine ⟨?_, ?_, fun s hs packet hpacket => ?_⟩
  · change ((delayLoop now none delay.sessions).2.1.map Session.info).Nodup
    rw [hinfos]
    exact h.unique
  · have hlength := congrArg List.length hinfos
    rw [List.length_map, List.length_map] at hlength
    exact h.counted.trans (congrArg Int.ofNat hlength.symm)
  · obtain ⟨s', hs', hinfo, hsame⟩ := hkept s hs
    rw [hinfo]
    exact h.syn s' hs' packet (hsame packet hpacket)

theorem netdelayExpires_armed (delay : NetDelay ω) (now : Int) :
    Armed (netdelayExpires delay now).1 := by
  intro s hs hpacket
  obtain ⟨armed, harmed, hle⟩ := (delayLoop_armed now none delay.sessions).2 s hs hpacket
  refine ⟨armed, ?_, hle⟩
  change armed ∈ (delayLoop now none delay.sessions).2.2.or delay.timer
  rw [Option.mem_def.mp harmed]
  rfl

theorem netdelayExpires_held (delay : NetDelay ω) (now : Int) :
    ((netdelayExpires delay now).2 ++ held (netdelayExpires delay now).1.sessions).Perm
      (held delay.sessions) :=
  (delayLoop_sessions now none delay.sessions).2.1

/-- What `netdelay_send_aux` does with a frame: the delay after it, what is sent and what is
lost. -/
inductive Sends (delay : NetDelay ω) (packet : Packet ω) (now : Int) :
    NetDelay ω × List (Packet ω) → List (Loss ω) → Prop
  | passed : Sends delay packet now (delay, [packet]) []
  | dropped {before session behind} (hsessions : delay.sessions = before ++ session :: behind)
      (hclosing : Closing session.info packet.data) :
      Sends delay packet now
        ({ delay with
          sessions := before ++ behind
          numSessions := delay.numSessions - 1 }, [packet])
        (session.packet.toList.map fun held => ⟨held, packet⟩)
  | repeated {session held} (hmem : session ∈ delay.sessions) (hheld : session.packet = some held)
      (hsyn : Syn session.info packet.data) : Sends delay packet now (delay, []) [⟨packet, held⟩]
  | created {info expiration} (hnew : info ∉ delay.sessions.map Session.info)
      (hsyn : Syn info packet.data) :
      Sends delay packet now
        (netdelayExpires { delay with
          sessions := ⟨expiration, info, some packet⟩ :: delay.sessions
          numSessions := delay.numSessions + 1 } now) []

theorem lookupSession_eq_none {info : SessionInfo} (h : delay.lookupSession info = none) :
    info ∉ delay.sessions.map Session.info := by
  intro hmem
  obtain ⟨session, hsession, rfl⟩ := List.mem_map.mp hmem
  have hne := List.find?_eq_none.mp h session hsession
  simp at hne

theorem netdelaySendAux_sends (delay : NetDelay ω) (packet : Packet ω) (rand : Nat) (now : Int)
    (wait : Nat) :
    Sends delay packet (now + wait) (netdelaySendAux delay packet rand now wait)
      (losses delay packet) := by
  rw [netdelaySendAux, losses]
  by_cases hseen : (delay.active && !packetIsInternal packet.data) = true
  · rw [if_pos hseen, if_pos hseen]
    cases hflags : packetSynFlags packet.data with
    | none => exact .passed
    | some p =>
      obtain ⟨info, flags⟩ := p
      dsimp only
      by_cases hclosing : flags &&& 0x05 ≠ 0
      · rw [if_pos hclosing, if_pos hclosing]
        cases hlookup : delay.lookupSession info with
        | none => exact .passed
        | some session =>
          obtain ⟨hinfo, before, behind, hsessions, hbefore⟩ :=
            List.find?_eq_some_iff_append.mp hlookup
          obtain rfl := of_decide_eq_true hinfo
          have herase : delay.sessions.eraseP (fun node => node.info = session.info) =
              before ++ behind := by
            rw [hsessions, List.eraseP_append_right _ fun node hnode => by
              simpa using hbefore node hnode]
            simp
          dsimp only [Option.bind_some]
          rw [herase]
          exact .dropped hsessions ⟨flags, hflags, hclosing⟩
      · rw [if_neg hclosing, if_neg hclosing]
        by_cases hsyn : flags &&& 0x12 = 0x02
        · rw [if_pos hsyn, if_pos hsyn]
          have hsyn : Syn info packet.data := ⟨flags, hflags, not_ne_iff.mp hclosing, hsyn⟩
          cases hlookup : delay.lookupSession info with
          | none => exact .created (lookupSession_eq_none hlookup) hsyn
          | some session =>
            have hinfo : session.info = info := by simpa using List.find?_some hlookup
            have hmem := List.mem_of_find?_eq_some hlookup
            cases hpacket : session.packet with
            | none =>
              dsimp only [Option.bind_some]
              rw [hpacket]
              exact .passed
            | some held =>
              dsimp only [Option.bind_some]
              rw [hpacket]
              exact .repeated hmem hpacket (hinfo ▸ hsyn)
        · rw [if_neg hsyn, if_neg hsyn]
          exact .passed
  · rw [if_neg hseen, if_neg hseen]
    exact .passed

theorem Sends.listed {result : NetDelay ω × List (Packet ω)} {lost : List (Loss ω)}
    (hs : Sends delay packet now result lost) (h : Listed delay) : Listed result.1 := by
  cases hs with
  | passed => exact h
  | repeated => exact h
  | @dropped before session behind hsessions =>
    have hunique := h.unique
    have hcounted := h.counted
    have hsyn := h.syn
    rw [hsessions] at hunique hcounted hsyn
    have hsub : (before ++ behind).Sublist (before ++ session :: behind) :=
      (List.sublist_cons_self session behind).append_left before
    refine ⟨hunique.sublist (hsub.map Session.info), ?_, fun s hs => hsyn s (hsub.subset hs)⟩
    dsimp only
    rw [hcounted, List.length_append, List.length_append, List.length_cons]
    omega
  | created hnew hsyn =>
    apply netdelayExpires_listed
    constructor
    · exact List.nodup_cons.mpr ⟨hnew, h.unique⟩
    · dsimp only
      rw [h.counted, List.length_cons]
      rfl
    · dsimp only
      rw [List.forall_mem_cons]
      exact ⟨fun packet hpacket => Option.some.inj hpacket ▸ hsyn, h.syn⟩

theorem Sends.armed {result : NetDelay ω × List (Packet ω)} {lost : List (Loss ω)}
    (hs : Sends delay packet now result lost) (h : Armed delay) : Armed result.1 := by
  cases hs with
  | passed => exact h
  | repeated => exact h
  | @dropped before session behind hsessions =>
    intro s hs
    refine h s ?_
    rw [hsessions]
    exact ((List.sublist_cons_self session behind).append_left before).subset hs
  | created => exact netdelayExpires_armed _ _

theorem Sends.accounted {result : NetDelay ω × List (Packet ω)} {lost : List (Loss ω)}
    (hs : Sends delay packet now result lost) :
    (result.2 ++ held result.1.sessions ++ lost.map Loss.packet).Perm
      (held delay.sessions ++ [packet]) := by
  cases hs with
  | passed =>
    rw [List.map_nil, List.append_nil]
    exact List.perm_append_comm
  | repeated =>
    exact .refl _
  | @dropped before session behind hsessions =>
    rw [hsessions, held, held, List.filterMap_append, List.filterMap_append, List.filterMap_cons,
      List.map_map]
    cases session.packet with
    | none =>
      rw [Option.toList_none, List.map_nil, List.append_nil]
      exact List.perm_append_comm
    | some held =>
      rw [← Multiset.coe_eq_coe]
      simp only [← Multiset.coe_add, Option.toList_some, List.map_cons, List.map_nil,
        Function.comp_apply, ← Multiset.cons_coe, ← Multiset.singleton_add, Multiset.coe_nil]
      abel
  | created =>
    rw [List.map_nil, List.append_nil]
    exact (netdelayExpires_held _ _).trans (List.perm_append_singleton _ _).symm

theorem Sends.excused_iff {result : NetDelay ω × List (Packet ω)} {lost : List (Loss ω)}
    (hs : Sends delay packet now result lost) (h : Listed delay) :
    (∀ loss ∈ lost, Excused loss) ↔
      ∀ loss ∈ lost, IsTcp loss.packet.data ∧ IsTcp loss.cause.data := by
  refine forall₂_congr fun loss hloss => ⟨Excused.isTcp, fun ⟨hpacket, hcause⟩ => ?_⟩
  cases hs with
  | passed => cases hloss
  | created => cases hloss
  | repeated hmem hheld hsyn =>
    cases List.mem_singleton.mp hloss
    exact .repeated hpacket hsyn hcause (h.syn _ hmem _ hheld)
  | dropped hsessions hclosing =>
    obtain ⟨held, hheld, rfl⟩ := List.mem_map.mp hloss
    have hmem := hsessions ▸ List.mem_append_right _ List.mem_cons_self
    exact .dropped hpacket (h.syn _ hmem held (Option.mem_toList.mp hheld)) hcause hclosing

theorem netdelaySetLatency_held (delay : NetDelay ω) (minMs maxMs : Int) :
    (netdelaySetLatency delay minMs maxMs).2 = held delay.sessions := rfl

theorem netdelaySetLatency_listed (h : Listed delay) (minMs maxMs : Int) :
    Listed (netdelaySetLatency delay minMs maxMs).1 := by
  refine ⟨.nil, ?_, nofun⟩
  change delay.numSessions - delay.sessions.length = 0
  rw [h.counted, Int.sub_self]

/-- The frames of one connection are all TCP: a frame that opens or ends the connection of a
session that holds a packet, and the packet that it holds. -/
def TcpOnly (delay : NetDelay ω) (packet : Packet ω) : Prop :=
  delay.active → packetIsInternal packet.data = false →
    ∀ info, Syn info packet.data ∨ Closing info packet.data →
      ∀ held ∈ (delay.lookupSession info).bind Session.packet,
        IsTcp packet.data ∧ IsTcp held.data

theorem tcpOnly_iff (delay : NetDelay ω) (packet : Packet ω) :
    TcpOnly delay packet ↔
      ∀ loss ∈ losses delay packet, IsTcp loss.packet.data ∧ IsTcp loss.cause.data := by
  rw [losses]
  by_cases hseen : (delay.active && !packetIsInternal packet.data) = true
  · rw [if_pos hseen]
    rw [Bool.and_eq_true, Bool.not_eq_true'] at hseen
    cases hflags : packetSynFlags packet.data with
    | none =>
      refine iff_of_true (fun _ _ info hinfo => ?_) nofun
      obtain ⟨_, h, _⟩ | ⟨_, h, _⟩ := hinfo <;> cases hflags.symm.trans h
    | some p =>
      obtain ⟨info, flags⟩ := p
      have htcp : TcpOnly delay packet ↔ (flags &&& 0x05 ≠ 0 ∨ flags &&& 0x12 = 0x02 →
          ∀ held ∈ (delay.lookupSession info).bind Session.packet,
            IsTcp packet.data ∧ IsTcp held.data) := by
        constructor
        · intro h hcase
          refine h hseen.1 hseen.2 info ?_
          by_cases hclosing : flags &&& 0x05 = 0
          · exact .inl ⟨flags, hflags, hclosing, hcase.resolve_left (not_not_intro hclosing)⟩
          · exact .inr ⟨flags, hflags, hclosing⟩
        · intro h _ _ info' hinfo
          obtain ⟨_, h', _, hsyn⟩ | ⟨_, h', hclosing⟩ := hinfo
          · cases hflags.symm.trans h'
            exact h (.inr hsyn)
          · cases hflags.symm.trans h'
            exact h (.inl hclosing)
      rw [htcp]
      dsimp only
      split
      · next hclosing =>
        rw [imp_iff_right (Or.inl hclosing), List.forall_mem_map]
        simp only [Option.mem_toList, Option.mem_def, and_comm]
      · next hclosing =>
        split
        · next hsyn =>
          rw [imp_iff_right (Or.inr hsyn), List.forall_mem_map]
          simp only [Option.mem_toList, Option.mem_def]
        · next hsyn => exact iff_of_true (fun h => absurd h (not_or.mpr ⟨hclosing, hsyn⟩)) nofun
  · rw [if_neg hseen]
    refine iff_of_true (fun hactive hinternal => absurd ?_ hseen) nofun
    rw [hactive, hinternal]
    rfl

end Delays

namespace Traced

variable {w w' : Traced ω}

/-- What keeps the books of a delay: the frames given to it are those sent, held and lost. -/
structure Books (w : Traced ω) : Prop where
  listed : Listed w.delay
  armed : Armed w.delay
  accounted : (w.sent ++ held w.delay.sessions ++ w.lost.map Loss.packet).Perm w.given

/-- No traffic is lost, a SYN that is repeated or dropped apart. -/
structure Lossless (w : Traced ω) : Prop where
  unique : (w.delay.sessions.map Session.info).Nodup
  counted : w.delay.numSessions = w.delay.sessions.length
  armed : ∀ session ∈ w.delay.sessions, session.packet.isSome →
    ∃ armed ∈ w.delay.timer, armed ≤ session.expiration
  accounted : (w.sent ++ held w.delay.sessions ++ w.lost.map Loss.packet).Perm w.given
  excused : ∀ loss ∈ w.lost, Excused loss

theorem Books.lossless_iff_excused (h : w.Books) : w.Lossless ↔ ∀ loss ∈ w.lost, Excused loss :=
  ⟨Lossless.excused, fun hexcused =>
    ⟨h.listed.unique, h.listed.counted, h.armed, h.accounted, hexcused⟩⟩

theorem Init.books (h : w.Init) : w.Books := by
  obtain ⟨delay, clock, given, sent, lost⟩ := w
  obtain ⟨rfl, rfl, rfl, rfl⟩ := h
  exact ⟨⟨.nil, rfl, nofun⟩, nofun, .nil⟩

theorem Init.lossless (h : w.Init) : w.Lossless := by
  rw [h.books.lossless_iff_excused, h.2.2.2]
  exact nofun

theorem Books.next (h : w.Books) {packets more : List (Packet ω)} {lost : List (Loss ω)}
    (hlisted : Listed w'.delay) (harmed : Armed w'.delay) (hgiven : w'.given = w.given ++ more)
    (hsent : w'.sent = w.sent ++ packets) (hlost : w'.lost = w.lost ++ lost)
    (hmoved : (packets ++ held w'.delay.sessions ++ lost.map Loss.packet).Perm
      (held w.delay.sessions ++ more)) : w'.Books := by
  refine ⟨hlisted, harmed, ?_⟩
  have haccounted := h.accounted
  rw [hgiven, hsent, hlost, List.map_append]
  rw [← Multiset.coe_eq_coe] at hmoved haccounted ⊢
  simp only [← Multiset.coe_add] at hmoved haccounted ⊢
  rw [← haccounted]
  calc _ = (w.sent : Multiset (Packet ω)) + (w.lost.map Loss.packet : List (Packet ω)) +
        (packets + held w'.delay.sessions + lost.map Loss.packet) := by abel
    _ = w.sent + (w.lost.map Loss.packet : List (Packet ω)) +
        (held w.delay.sessions + more) := by rw [hmoved]
    _ = _ := by abel

/-- What a step asks of a frame. -/
def Tcp (w : Traced ω) : Action ω → Prop
  | .send packet _ _ _ => TcpOnly w.delay packet
  | .setLatency _ _ => True
  | .expire _ => True

theorem Books.step (h : w.Books) {action : Action ω} (hstep : step w action = some w') :
    w'.Books ∧ (w.Lossless → (w'.Lossless ↔ w.Tcp action)) := by
  cases action with
  | send packet rand now wait =>
    have hsends := netdelaySendAux_sends w.delay packet rand now wait
    have hsend : w'.Books ∧ w'.lost = w.lost ++ losses w.delay packet := by
      obtain ⟨-, rfl⟩ := Option.ite_some_none_eq_some.mp hstep
      exact ⟨h.next (hsends.listed h.listed) (hsends.armed h.armed) rfl rfl rfl hsends.accounted,
        rfl⟩
    refine ⟨hsend.1, fun hlossless => ?_⟩
    rw [hsend.1.lossless_iff_excused, hsend.2, List.forall_mem_append, Tcp, tcpOnly_iff,
      hsends.excused_iff h.listed]
    exact and_iff_right hlossless.excused
  | setLatency minMs maxMs =>
    have hsend : w'.Books ∧ w'.lost = w.lost := by
      obtain rfl := Option.some.inj hstep
      refine ⟨h.next (netdelaySetLatency_listed h.listed minMs maxMs) nofun
        (List.append_nil _).symm rfl (List.append_nil _).symm ?_, rfl⟩
      rw [netdelaySetLatency_held, List.map_nil, List.append_nil]
      exact .refl _
    refine ⟨hsend.1, fun hlossless => ?_⟩
    rw [hsend.1.lossless_iff_excused, hsend.2]
    exact iff_of_true hlossless.excused trivial
  | expire now =>
    have hsend : w'.Books ∧ w'.lost = w.lost := by
      obtain ⟨-, rfl⟩ := Option.ite_some_none_eq_some.mp hstep
      have hlisted : Listed { w.delay with timer := none } := ⟨h.listed.1, h.listed.2, h.listed.3⟩
      refine ⟨h.next (netdelayExpires_listed hlisted now) (netdelayExpires_armed _ now)
        (List.append_nil _).symm rfl (List.append_nil _).symm ?_, rfl⟩
      rw [List.map_nil, List.append_nil, List.append_nil]
      exact netdelayExpires_held _ now
    refine ⟨hsend.1, fun hlossless => ?_⟩
    rw [hsend.1.lossless_iff_excused, hsend.2]
    exact iff_of_true hlossless.excused trivial

/-- No traffic is lost exactly while the frames of each connection are TCP. -/
theorem always_lossless_iff (hw : w.Init) (actions : List (Action ω)) :
    Machine.Always step Lossless w actions ↔
      Machine.Throughout step (fun w action _ => w.Tcp action) w actions :=
  Machine.always_iff_throughout Books (fun _ _ _ h hstep => (h.step hstep).1)
    (fun _ _ _ h hlossless hstep => (h.step hstep).2 hlossless) hw.books hw.lossless actions

instance (delay : NetDelay ω) (packet : Packet ω) : Decidable (TcpOnly delay packet) :=
  decidable_of_iff _ (tcpOnly_iff delay packet).symm

/-- A delay that has been given nothing. -/
def fresh : Traced Nat := ⟨netdelayCreate, 0, [], [], []⟩

/-- A frame between two hosts, with what stands where TCP has its flags. -/
def datagram (protocol flags : UInt8) : List UInt8 :=
  List.replicate 12 0 ++ [0x08, 0x00] ++
    [0x45, 0, 0, 0, 0, 0, 0, 0, 64, protocol, 0, 0, 192, 168, 0, 1, 192, 168, 0, 2] ++
    [0x10, 0, 0, 80, 0, 0, 0, 0, 0, 0, 0, 0, 0, flags] ++ List.replicate 10 0

/-- A SYN that is held, the same again, and a reset that drops the connection. -/
def reset : List (Action Nat) :=
  [.setLatency 100 200, .send ⟨datagram protocolTcp 0x02, 0⟩ 50 0 0,
    .send ⟨datagram protocolTcp 0x02, 1⟩ 0 10 0, .send ⟨datagram protocolTcp 0x04, 2⟩ 0 20 0]

theorem always_lossless_reset : Machine.Always step Lossless fresh reset := by
  refine (always_lossless_iff ⟨rfl, rfl, rfl, rfl⟩ reset).mpr ?_
  refine .cons rfl trivial (.cons rfl ?_ (.cons rfl ?_ (.cons rfl ?_ (.nil _))))
  · exact of_decide_eq_true (p := TcpOnly _ _) (by decide +kernel)
  · exact of_decide_eq_true (p := TcpOnly _ _) (by decide +kernel)
  · exact of_decide_eq_true (p := TcpOnly _ _) (by decide +kernel)

/-- Of two UDP datagrams that have 2 in their sixth byte of data the second is never sent. -/
theorem not_lossless_udp :
    ¬Machine.Always step Lossless fresh
      [.setLatency 100 200, .send ⟨datagram protocolUdp 0x02, 0⟩ 50 0 0,
        .send ⟨datagram protocolUdp 0x02, 1⟩ 0 10 0] := by
  intro h
  have hlossless := h _ _ (List.prefix_refl _) rfl
  have hexcused := hlossless.excused
    ⟨⟨datagram protocolUdp 0x02, 1⟩, ⟨datagram protocolUdp 0x02, 0⟩⟩ (List.mem_singleton.mpr rfl)
  exact absurd hexcused.isTcp.1 (by decide)

end Traced

end M2M.Shaper
