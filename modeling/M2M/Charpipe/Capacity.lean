import M2M.Charpipe.ByteStream

universe u

namespace M2M.Charpipe

open M2M.Lib

variable {η : Type u}

/-- What the step hands to a peer with a `chr_can_read` is at most what that handler has just
returned. -/
def WithinCapacity (w : World η) (event : Event η) (w' : World η) : Prop :=
  ∀ p peer, (w.half p).peer = some peer → (w.half peer).chrCanRead = true →
    ∃ bytes, (w'.half p).handed = (w.half p).handed ++ bytes ∧
      (bytes = [] ∨ ∃ size, event = .answer p size ∧ bytes.length ≤ size)

/-- Where the loop of `charpipehalf_poll` finds bytes for a peer with a `chr_can_read`, the polled
half has a `chr_can_read` too. -/
def AsksBoth (w : World η) : Event η → Prop
  | .resume p => (w.half p).call = .polling → ∀ bip peer, (w.half p).bipFirst = some bip →
      cbufferReadAvail (w.bips.cb bip) ≠ 0 → (w.half p).peer = some peer →
      (w.half peer).chrCanRead = true → (w.half p).chrCanRead = true
  | _ => True

variable {w w' : World η} {p : η}

theorem withinCapacity_of_silent {event : Event η}
    (h : ∀ q, (w'.half q).handed = (w.half q).handed) : WithinCapacity w event w' := by
  intro q peer _ _
  exact ⟨[], by rw [h q, List.append_nil], .inl rfl⟩

theorem length_take_clamped {bytes : List UInt8} {limit size : Nat} (h : limit ≤ size) :
    (bytes.take (if bytes.length > limit then limit else bytes.length)).length ≤ size := by
  rw [List.length_take]
  split <;> omega

theorem peek_ne_nil {cb : CBuffer} (h : cb.Valid) (havail : cbufferReadAvail cb ≠ 0) :
    cbufferReadPeek cb ≠ [] := by
  have hcount : cb.count ≠ 0 := havail
  have hrpos := h.rpos_lt
  rw [← List.length_pos_iff, CBuffer.readPeek_eq h, List.length_take, CBuffer.length_contents]
  omega

theorem Sound.peek_ne_nil {lists : Option η → List Nat} (h : Sound w lists) {bip : Nat}
    (hfirst : (w.half p).bipFirst = some bip)
    (havail : cbufferReadAvail (w.bips.cb bip) ≠ 0) : cbufferReadPeek (w.bips.cb bip) ≠ [] := by
  have hchain : Chain w.bips.next (w.half p).bipFirst (lists (some p)) :=
    h.held.chains.chain (some p)
  rw [hfirst] at hchain
  have hmem : bip ∈ lists (some p) := by
    cases hl : lists (some p) with
    | nil =>
      rw [hl] at hchain
      cases hchain
    | cons a l =>
      rw [hl] at hchain
      rw [Option.some.inj hchain.1]
      exact List.mem_cons_self
  exact Charpipe.peek_ne_nil ((h.half p).usable bip hmem).1 havail

variable [DecidableEq η]

theorem withinCapacity_of_handed {event : Event η} {bytes : List UInt8}
    (hp : (w'.half p).handed = (w.half p).handed ++ bytes)
    (hq : ∀ q, q ≠ p → (w'.half q).handed = (w.half q).handed)
    (h : ∀ peer, (w.half p).peer = some peer → (w.half peer).chrCanRead = true →
      bytes = [] ∨ ∃ size, event = .answer p size ∧ bytes.length ≤ size) :
    WithinCapacity w event w' := by
  intro q peer hpeer hcan
  by_cases hqp : q = p
  · subst hqp
    exact ⟨bytes, hp, h peer hpeer hcan⟩
  · exact ⟨[], by rw [hq q hqp, List.append_nil], .inl rfl⟩

theorem handed_setHalf (w : World η) (p : η) (half : Running η)
    (h : half.handed = (w.half p).handed) (q : η) :
    ((w.setHalf p half).half q).handed = (w.half q).handed := by
  by_cases hq : q = p
  · subst hq
    rw [setHalf_self, h]
  · rw [setHalf_of_ne w hq]

theorem handed_setCall (w : World η) (p : η) (call : Call) (q : η) :
    ((w.setCall p call).half q).handed = (w.half q).handed := handed_setHalf w p _ (by rfl) q

theorem handed_bufferRest (w : World η) (p : η) (buf : List UInt8) (ret : Nat) (q : η) :
    ((w.bufferRest p buf ret).half q).handed = (w.half q).handed := by
  rw [World.bufferRest]
  dsimp only
  split
  · exact handed_setHalf w p _ (by rfl) q
  · exact handed_setHalf { w with bips := _ } p _ (by rfl) q

theorem handed_charpipehalfWrite (w : World η) (p : η) (buf : List UInt8) (q : η) :
    ((w.charpipehalfWrite p buf).half q).handed = (w.half q).handed := by
  have hwritten := handed_setHalf w p
    { w.half p with writes := (w.half p).writes ++ [buf] } rfl q
  rw [World.charpipehalfWrite]
  dsimp only
  split
  · split
    · exact (handed_setCall _ p _ q).trans hwritten
    · exact (handed_bufferRest _ p _ _ q).trans hwritten
  · exact (handed_bufferRest _ p _ _ q).trans hwritten

theorem handed_charpipehalfPoll (w : World η) (p q : η) :
    ((w.charpipehalfPoll p).half q).handed = (w.half q).handed := by
  rw [World.charpipehalfPoll]
  split
  · rfl
  · split
    · exact handed_setCall w p _ q
    · rfl

theorem handed_chrRead {bytes : List UInt8} {call : Call} (h : w.chrRead p bytes call = some w') :
    (w'.half p).handed = (w.half p).handed ++ bytes ∧
      ∀ q, q ≠ p → (w'.half q).handed = (w.half q).handed := by
  rw [chrRead_eq_some h]
  refine ⟨by rw [setHalf_self], fun q hq => ?_⟩
  rw [setHalf_of_ne w hq]

theorem withinCapacity_chrRead {event : Event η} {bytes : List UInt8} {call : Call}
    (h : w.chrRead p bytes call = some w')
    (hbytes : ∀ peer, (w.half p).peer = some peer → (w.half peer).chrCanRead = true →
      ∃ size, event = .answer p size ∧ bytes.length ≤ size) : WithinCapacity w event w' :=
  withinCapacity_of_handed (handed_chrRead h).1 (handed_chrRead h).2
    fun peer hpeer hcan => .inr (hbytes peer hpeer hcan)

variable {lists : Option η → List Nat}

theorem withinCapacity_pollTop (h : Sound w lists) (hcall : (w.half p).call = .polling)
    (h' : w.pollTop p = some w') : WithinCapacity w (.resume p) w' ↔ AsksBoth w (.resume p) := by
  rw [World.pollTop] at h'
  dsimp only at h'
  split at h'
  · rename_i hfirst
    refine iff_of_true ?_ fun _ bip peer hbip => ?_
    · exact withinCapacity_of_silent fun q => Option.some.inj h' ▸ handed_setCall w p _ q
    · rw [hfirst] at hbip
      cases hbip
  · rename_i bip hfirst
    split at h'
    · rename_i hempty
      refine iff_of_true ?_ fun _ bip' peer hbip hne => ?_
      · rw [← Option.some.inj h']
        exact withinCapacity_of_silent (handed_setHalf { w with bips := _ } p _ rfl)
      · rw [hfirst, Option.some.injEq] at hbip
        exact absurd (hbip ▸ hempty) hne
    · rename_i hne
      split at h'
      · rename_i hself
        refine iff_of_true (withinCapacity_of_silent fun q => ?_) fun _ _ _ _ _ _ _ => hself
        split at h'
        · cases h'
        · split at h'
          · exact Option.some.inj h' ▸ handed_setCall w p _ q
          · exact Option.some.inj h' ▸ handed_setCall w p _ q
      · rename_i hself
        have hhanded := handed_chrRead h'
        constructor
        · intro hwithin _ bip' peer hbip _ hpeer hcan
          -- the bytes at the front are handed over, and no answer says how many may be
          obtain ⟨bytes, hbytes, hle⟩ := hwithin p peer hpeer hcan
          rw [hhanded.1, List.append_cancel_left_eq] at hbytes
          have hnil : bytes = [] := by
            rcases hle with hnil | ⟨size, hanswer, -⟩
            · exact hnil
            · cases hanswer
          have hpeek := h.peek_ne_nil hfirst hne
          have hpos := List.length_pos_iff.mpr hpeek
          have hlen := congrArg List.length (hbytes.trans hnil)
          rw [List.length_take, List.length_nil] at hlen
          split at hlen <;> omega
        · intro hasks
          refine withinCapacity_chrRead h' fun peer hpeer hcan => ?_
          exact absurd (hasks hcall bip peer hfirst hne hpeer hcan) hself

theorem withinCapacity_step (h : Sound w lists) {event : Event η} (h' : step w event = some w') :
    WithinCapacity w event w' ↔ AsksBoth w event := by
  cases event with
  | addHandlers p canRead read =>
    rw [← Option.some.inj h']
    exact iff_of_true (withinCapacity_of_silent (handed_setHalf w p _ rfl)) trivial
  | write p buf =>
    rw [step] at h'
    split at h'
    · exact iff_of_true (withinCapacity_of_silent fun q =>
        Option.some.inj h' ▸ handed_charpipehalfWrite w p buf q) trivial
    · cases h'
  | poll p =>
    rw [step] at h'
    split at h'
    · exact iff_of_true (withinCapacity_of_silent fun q =>
        Option.some.inj h' ▸ handed_charpipehalfPoll w p q) trivial
    · cases h'
  | resume p =>
    rw [step] at h'
    split at h'
    · rename_i buf ret hcall
      refine iff_of_true ?_ fun hpolling => ?_
      · split at h'
        · exact withinCapacity_of_silent fun q =>
            Option.some.inj h' ▸ handed_bufferRest w p buf ret q
        · split at h'
          · cases h'
          · rename_i peer hpeer
            split at h'
            · exact withinCapacity_of_silent fun q => Option.some.inj h' ▸ handed_setCall w p _ q
            · rename_i hcan
              refine withinCapacity_chrRead h' fun peer' hpeer' hcan' => ?_
              rw [hpeer, Option.some.injEq] at hpeer'
              exact absurd (hpeer' ▸ hcan') hcan
      · rw [hcall] at hpolling
        cases hpolling
    · rename_i hcall
      exact withinCapacity_pollTop h hcall h'
    · rename_i bip avail hcall
      refine iff_of_true (withinCapacity_of_silent fun q => ?_) fun hpolling => ?_
      · exact Option.some.inj h' ▸ handed_setCall { w with bips := _ } p _ q
      · rw [hcall] at hpolling
        cases hpolling
    · cases h'
  | answer p size =>
    refine iff_of_true ?_ trivial
    rw [step] at h'
    split at h'
    · split at h'
      · exact withinCapacity_of_silent fun q => Option.some.inj h' ▸ handed_bufferRest w p _ _ q
      · refine withinCapacity_chrRead h' fun _ _ _ => ⟨size, rfl, ?_⟩
        rw [List.length_take]
        split <;> omega
    · split at h'
      · exact withinCapacity_of_silent fun q => Option.some.inj h' ▸ handed_setCall w p _ q
      · refine withinCapacity_chrRead h' fun _ _ _ => ⟨size, rfl, length_take_clamped ?_⟩
        split <;> omega
    · cases h'

/-- No read of a run is longer than the reader has just allowed, exactly when in every round of a
poll that finds bytes for a reader that can be asked, the polled half has a handler as well, which
is the one the code looks at. -/
theorem capacity_respected_iff (h : Init w) (events : List (Event η)) :
    Machine.Throughout step WithinCapacity w events ↔
      Machine.Throughout step (fun w event _ => AsksBoth w event) w events := by
  refine Machine.Throughout.congr (fun w => ∃ lists, Sound w lists)
    (fun _ _ _ hs => sound_step hs) (fun w event w' hs h' => ?_) (sound_of_init h) events
  obtain ⟨lists, hs⟩ := hs
  exact withinCapacity_step hs h'

/-- The reader takes nothing until the poll, when only the polled half has a handler that asks. -/
def askedPoll : List (Event Bool) :=
  [.addHandlers true true true, .addHandlers false true true, .write false [1, 2, 3],
    .resume false, .answer false 0, .poll false, .resume false, .answer false 2]

theorem askedPoll_respected :
    (Machine.run step pipe askedPoll).any (fun w => decide ((w.half false).handed = [1, 2])) =
        true ∧
      Machine.Throughout step WithinCapacity pipe askedPoll := by
  refine ⟨by decide, ?_⟩
  refine (capacity_respected_iff (w := pipe) ⟨rfl, fun _ => ⟨rfl, rfl, rfl, rfl, rfl, rfl⟩⟩
    askedPoll).mpr ?_
  refine .cons rfl trivial (.cons rfl trivial (.cons rfl trivial (.cons rfl ?_
    (.cons rfl trivial (.cons rfl trivial (.cons rfl ?_ (.cons rfl trivial (.nil _))))))))
  · rintro ⟨⟩
  · intro _ _ _ _ _ _ _
    rfl

/-- A reader that has no room is given three bytes by a poll of a half with no `chr_can_read`. -/
theorem poll_over_capacity :
    ¬Machine.Throughout step WithinCapacity pipe
      [.addHandlers true true true, .write false [1, 2, 3], .resume false, .answer false 0,
        .poll false, .resume false] := by
  intro h
  obtain ⟨bytes, hbytes, hle⟩ := h [.addHandlers true true true, .write false [1, 2, 3],
    .resume false, .answer false 0, .poll false] (.resume false) _ _ (List.prefix_refl _) rfl rfl
    false true rfl rfl
  have hhanded : [1, 2, 3] = [] ++ bytes := hbytes
  rcases hle with rfl | ⟨size, hanswer, -⟩
  · cases hhanded
  · cases hanswer

end M2M.Charpipe
