import M2M.Charpipe.BufferLists

universe u

namespace M2M.Charpipe

open M2M.Lib

/-- What a write in progress has still to deliver or to buffer. -/
def Call.pending : Call → List UInt8
  | direct buf _ | directAsking buf _ => buf
  | _ => []

/-- How many of the buffered bytes the peer has already been handed. -/
def Call.inFlight : Call → Nat
  | reading _ avail => avail
  | _ => 0

variable {η : Type u}

/-- What the code in progress on a half with buffers `l` relies on. -/
def CallOk (cb : Nat → CBuffer) (l : List Nat) (lengths returned : List Nat) : Call → Prop
  | .idle | .polling => returned = lengths
  | .direct buf ret | .directAsking buf ret => l = [] ∧ returned ++ [ret + buf.length] = lengths
  | .pollAsking bip _ => l.head? = some bip ∧ returned = lengths
  | .reading bip avail => l.head? = some bip ∧ avail ≤ (cb bip).count ∧ returned = lengths

/-- A half whose buffers are `l`. -/
structure HalfOk (cb : Nat → CBuffer) (half : Running η) (l : List Nat) : Prop where
  usable : ∀ a ∈ l, Usable (cb a)
  last : half.bipLast = l.getLast?
  bytes : half.handed ++ (contents cb l).drop half.call.inFlight ++ half.call.pending =
    half.writes.flatten
  call : CallOk cb l (half.writes.map List.length) half.returned half.call

theorem HalfOk.congr {cb cb' : Nat → CBuffer} {half : Running η} {l : List Nat}
    (h : HalfOk cb half l) (hcb : ∀ a ∈ l, cb' a = cb a) : HalfOk cb' half l := by
  refine ⟨?_, h.last, ?_, ?_⟩
  · intro a ha
    rw [hcb a ha]
    exact h.usable a ha
  · rw [contents_congr hcb]
    exact h.bytes
  · have hcall := h.call
    cases hc : half.call with
    | reading bip avail =>
      rw [hc] at hcall
      refine ⟨hcall.1, ?_, hcall.2.2⟩
      rw [hcb bip (List.mem_of_mem_head? hcall.1)]
      exact hcall.2.1
    | idle | direct _ _ | directAsking _ _ | polling | pollAsking _ _ =>
      rw [hc] at hcall
      exact hcall

structure Sound (w : World η) (lists : Option η → List Nat) : Prop where
  held : Held w.bips (fun p => (w.half p).bipFirst) lists
  half : ∀ p, HalfOk w.bips.cb (w.half p) (lists (some p))

theorem sound_of_init {w : World η} (h : Init w) : ∃ lists, Sound w lists := by
  have hroots : ∀ i, roots w.bips (fun p => (w.half p).bipFirst) i = none := by
    intro i
    cases i with
    | none => exact h.1
    | some p => exact (h.2 p).1
  refine ⟨fun _ => [], ⟨⟨hroots, fun _ => List.nodup_nil, ?_⟩, ?_⟩, fun p => ?_⟩
  · intro i j a ha
    cases ha
  · intro i a ha
    cases ha
  · obtain ⟨-, hlast, hcall, hwrites, hreturned, hhanded⟩ := h.2 p
    refine ⟨by simp, hlast, ?_, ?_⟩
    · rw [hcall, hwrites, hhanded]
      rfl
    · rw [hcall, hwrites, hreturned]
      rfl

/-- The invariant while a step of `p` is under way. -/
structure SoundBut (p : η) (w : World η) (lists : Option η → List Nat) : Prop where
  held : Held w.bips (fun p => (w.half p).bipFirst) lists
  half : ∀ q, q ≠ p → HalfOk w.bips.cb (w.half q) (lists (some q))
  usable : ∀ a ∈ lists (some p), Usable (w.bips.cb a)
  last : (w.half p).bipLast = (lists (some p)).getLast?

theorem Sound.but {w : World η} {lists : Option η → List Nat} (h : Sound w lists) (p : η) :
    SoundBut p w lists :=
  ⟨h.held, fun q _ => h.half q, (h.half p).usable, (h.half p).last⟩

variable [DecidableEq η] {w : World η} {lists : Option η → List Nat} {p : η}

@[simp] theorem setHalf_self (w : World η) (p : η) (half : Running η) :
    (w.setHalf p half).half p = half := Function.update_self _ _ _

theorem setHalf_of_ne (w : World η) {p q : η} (hq : q ≠ p) (half : Running η) :
    (w.setHalf p half).half q = w.half q := Function.update_of_ne hq _ _

@[simp] theorem bips_setHalf (w : World η) (p : η) (half : Running η) :
    (w.setHalf p half).bips = w.bips := rfl

theorem first_setHalf (w : World η) (p : η) (half : Running η) :
    (fun q => ((w.setHalf p half).half q).bipFirst) =
      Function.update (fun q => (w.half q).bipFirst) p half.bipFirst := by
  funext q
  by_cases hq : q = p
  · subst hq
    simp
  · rw [setHalf_of_ne w hq, Function.update_of_ne hq]

namespace SoundBut

theorem change (h : SoundBut p w lists) {m : BipBuffers} {half : Running η}
    {lists' : Option η → List Nat}
    (hheld : Held m (Function.update (fun q => (w.half q).bipFirst) p half.bipFirst) lists')
    (hsame : ∀ q, q ≠ p → lists' (some q) = lists (some q))
    (hcb : ∀ q, q ≠ p → ∀ a ∈ lists (some q), m.cb a = w.bips.cb a)
    (hp : HalfOk m.cb half (lists' (some p))) :
    Sound ({ w with bips := m }.setHalf p half) lists' := by
  refine ⟨?_, fun q => ?_⟩
  · rw [first_setHalf]
    exact hheld
  · by_cases hq : q = p
    · subst hq
      rw [setHalf_self]
      exact hp
    · rw [setHalf_of_ne _ hq, hsame q hq]
      exact (h.half q hq).congr (hcb q hq)

theorem held_update (h : SoundBut p w lists) {half : Running η}
    (hfirst : half.bipFirst = (w.half p).bipFirst) :
    Held w.bips (Function.update (fun q => (w.half q).bipFirst) p half.bipFirst) lists := by
  have hself := Function.update_eq_self p (fun q => (w.half q).bipFirst)
  rw [hfirst, hself]
  exact h.held

theorem changeHalf (h : SoundBut p w lists) {half : Running η}
    (hfirst : half.bipFirst = (w.half p).bipFirst) (hp : HalfOk w.bips.cb half (lists (some p))) :
    Sound (w.setHalf p half) lists :=
  h.change (h.held_update hfirst) (fun _ _ => rfl) (fun _ _ _ _ => rfl) hp

theorem setHalf (h : SoundBut p w lists) (half : Running η)
    (hfirst : half.bipFirst = (w.half p).bipFirst) (hlast : half.bipLast = (w.half p).bipLast) :
    SoundBut p (w.setHalf p half) lists := by
  refine ⟨?_, fun q hq => ?_, h.usable, ?_⟩
  · rw [first_setHalf]
    exact h.held_update hfirst
  · rw [setHalf_of_ne w hq]
    exact h.half q hq
  · rw [setHalf_self, hlast]
    exact h.last

theorem lastBip (h : SoundBut p w lists) :
    ∃ lists' l,
      Held (w.lastBip p).2.2
        (Function.update (fun q => (w.half q).bipFirst) p (w.lastBip p).2.1) lists' ∧
      lists' (some p) = l ++ [(w.lastBip p).1] ∧
      (∀ q, q ≠ p → lists' (some q) = lists (some q)) ∧
      (∀ a ∈ l ++ [(w.lastBip p).1], Usable ((w.lastBip p).2.2.cb a)) ∧
      contents (w.lastBip p).2.2.cb (l ++ [(w.lastBip p).1]) =
        contents w.bips.cb (lists (some p)) ∧
      ∀ q, q ≠ p → ∀ a ∈ lists (some q), (w.lastBip p).2.2.cb a = w.bips.cb a := by
  unfold World.lastBip
  cases hlast : (w.half p).bipLast with
  | some bip =>
    have hl := h.last
    rw [hlast, eq_comm, List.getLast?_eq_some_iff] at hl
    obtain ⟨l, hl⟩ := hl
    refine ⟨lists, l, ?_, hl, fun _ _ => rfl, ?_, ?_, fun _ _ _ _ => rfl⟩
    · have hself := Function.update_eq_self p (fun q => (w.half q).bipFirst)
      rw [hself]
      exact h.held
    · rw [← hl]
      exact h.usable
    · rw [← hl]
  | none =>
    have hnil : lists (some p) = [] := by
      have hl := h.last
      rwa [hlast, eq_comm, List.getLast?_eq_none_iff] at hl
    obtain ⟨lists₁, hheld, hsame, hspare, ⟨buff, hnew⟩, hcb⟩ := h.held.alloc
    refine ⟨_, [], hheld.start ((hsame p).trans hnil) hspare, ?_, ?_, ?_, ?_, ?_⟩
    · simp
    · intro q hq
      rw [Function.update_of_ne (by simpa using hq), hsame q]
    · intro a ha
      rw [List.nil_append, List.mem_singleton] at ha
      rw [ha, hnew]
      exact usable_reset buff
    · simp [contents, hnil, hnew]
    · rintro q hq a ha
      refine hcb a ?_
      rintro rfl
      exact hspare.notMem (some q) (by rwa [hsame q])

theorem bufferRest (h : SoundBut p w lists) {buf : List UInt8} {ret : Nat}
    (hbytes : (w.half p).handed ++ contents w.bips.cb (lists (some p)) ++ buf =
      (w.half p).writes.flatten)
    (hret : (w.half p).returned ++ [ret + buf.length] = (w.half p).writes.map List.length) :
    ∃ lists', Sound (w.bufferRest p buf ret) lists' := by
  by_cases hbuf : buf = []
  · subst hbuf
    refine ⟨lists, ?_⟩
    rw [World.bufferRest, if_pos rfl]
    refine h.changeHalf rfl ⟨h.usable, h.last, ?_, ?_⟩
    · simpa [Call.inFlight, Call.pending] using hbytes
    · simpa [CallOk] using hret
  · obtain ⟨lists₁, l, hheld, hl, hsame, husable, hcontents, hcb⟩ := h.lastBip
    rw [World.bufferRest, if_neg hbuf]
    generalize w.lastBip p = found at *
    obtain ⟨bip, first, m⟩ := found
    dsimp only at *
    obtain ⟨lists', more, hheld', hl', hsame', hlast', husable', hcontents', hstored, hcb'⟩ :=
      hheld.bufferLoop_spec l bip hl (husable bip (by simp)) (buf.length + 1) buf
        (by split <;> omega)
    generalize bufferLoop (buf.length + 1) m bip buf = result at *
    obtain ⟨m', last, stored⟩ := result
    dsimp only at *
    subst hstored
    have hkept : ∀ a ∈ l, m'.cb a = m.cb a := by
      intro a ha
      have hnodup := hheld.chains.nodup (some p)
      rw [hl] at hnodup
      refine hcb' p a (by simp [hl, ha]) ?_
      rintro rfl
      exact (List.nodup_append.mp hnodup).2.2 a ha a (by simp) rfl
    refine ⟨lists', h.change hheld' ?_ ?_ ⟨?_, ?_, ?_, ?_⟩⟩
    · intro q hq
      rw [hsame' q hq, hsame q hq]
    · intro q hq a ha
      have hne : a ≠ bip := by
        rintro rfl
        have happart := hheld.chains.apart (hsame q hq ▸ ha : a ∈ lists₁ (some q))
          (by simp [hl] : a ∈ lists₁ (some p))
        exact hq (Option.some.inj happart)
      rw [hcb' q a (hsame q hq ▸ ha) hne, hcb q hq a ha]
    · intro a ha
      rw [hl', List.mem_append] at ha
      cases ha with
      | inl hold =>
        rw [hkept a hold]
        exact husable a (by simp [hold])
      | inr hnew => exact husable' a hnew
    · rw [hl', hlast']
    · have happend : ∀ cb l₁ l₂, contents cb (l₁ ++ l₂) = contents cb l₁ ++ contents cb l₂ :=
        fun _ _ _ => List.flatMap_append
      rw [hl', happend, hcontents', contents_congr hkept]
      rw [happend] at hcontents
      have hone : contents m.cb [bip] = (m.cb bip).contents := by simp [contents]
      rw [hone] at hcontents
      simp only [Call.inFlight, Call.pending, List.drop_zero, List.append_nil]
      rw [← hbytes, ← hcontents]
      simp only [List.append_assoc]
    · exact hret

end SoundBut

theorem chrRead_eq_some {bytes : List UInt8} {call : Call} {w' : World η}
    (h : w.chrRead p bytes call = some w') :
    w' = w.setHalf p { w.half p with call, handed := (w.half p).handed ++ bytes } := by
  rw [World.chrRead] at h
  split at h
  · cases h
  · split at h
    · exact (Option.some.inj h).symm
    · cases h

namespace Sound

theorem changeCall (h : Sound w lists) {call : Call}
    (hinFlight : call.inFlight = (w.half p).call.inFlight)
    (hpending : call.pending = (w.half p).call.pending)
    (hcall : CallOk w.bips.cb (lists (some p)) ((w.half p).writes.map List.length)
      (w.half p).returned call) : Sound (w.setCall p call) lists := by
  have hp := h.half p
  refine (h.but p).changeHalf rfl ⟨hp.usable, hp.last, ?_, hcall⟩
  have hbytes := hp.bytes
  rw [← hinFlight, ← hpending] at hbytes
  exact hbytes

theorem directRead (h : Sound w lists) {buf : List UInt8} {ret size : Nat} {w' : World η}
    (hcall : (w.half p).call = .direct buf ret ∨ (w.half p).call = .directAsking buf ret)
    (hsize : size ≤ buf.length) (h' : w.directRead p buf ret size = some w') : Sound w' lists := by
  have hp := h.half p
  have hbytes := hp.bytes
  have hok := hp.call
  obtain ⟨⟨hnil, hret⟩, hin, hpending⟩ : (lists (some p) = [] ∧ (w.half p).returned ++
      [ret + buf.length] = (w.half p).writes.map List.length) ∧ (w.half p).call.inFlight = 0 ∧
      (w.half p).call.pending = buf := by
    cases hcall with
    | inl hc =>
      rw [hc] at hok ⊢
      exact ⟨hok, rfl, rfl⟩
    | inr hc =>
      rw [hc] at hok ⊢
      exact ⟨hok, rfl, rfl⟩
  rw [hin, hpending, hnil] at hbytes
  rw [chrRead_eq_some h']
  refine (h.but p).changeHalf rfl ⟨hp.usable, hp.last, ?_, hnil, ?_⟩
  · rw [← hbytes, hnil]
    simp [contents, Call.inFlight, Call.pending]
  · rw [← hret, List.length_drop]
    congr 2
    omega

theorem pollRead (h : Sound w lists) {bip size : Nat} {w' : World η}
    (hcall : (w.half p).call = .polling ∨ ∃ size, (w.half p).call = .pollAsking bip size)
    (hbip : (lists (some p)).head? = some bip)
    (h' : w.pollRead p bip size = some w') : Sound w' lists := by
  have hp := h.half p
  have hbytes := hp.bytes
  have hok := hp.call
  obtain ⟨hret, hin, hpending⟩ : (w.half p).returned = (w.half p).writes.map List.length ∧
      (w.half p).call.inFlight = 0 ∧ (w.half p).call.pending = [] := by
    cases hcall with
    | inl hc =>
      rw [hc] at hok ⊢
      exact ⟨hok, rfl, rfl⟩
    | inr hc =>
      obtain ⟨_, hc⟩ := hc
      rw [hc] at hok ⊢
      exact ⟨hok.2, rfl, rfl⟩
  rw [hin, hpending, List.drop_zero, List.append_nil] at hbytes
  obtain ⟨l, hl⟩ : ∃ l, lists (some p) = bip :: l := List.head?_eq_some_iff.mp hbip
  have husable := hp.usable bip (List.mem_of_mem_head? hbip)
  have hpeek := CBuffer.readPeek_eq husable.1
  rw [World.pollRead] at h'
  rw [chrRead_eq_some h']
  generalize havail : (if (cbufferReadPeek (w.bips.cb bip)).length > size then size
    else (cbufferReadPeek (w.bips.cb bip)).length) = avail
  have hle : avail ≤ (cbufferReadPeek (w.bips.cb bip)).length := by
    rw [← havail]
    split <;> omega
  have hlen : (cbufferReadPeek (w.bips.cb bip)).length ≤ (w.bips.cb bip).contents.length := by
    rw [hpeek]
    exact List.length_take_le' _ _
  rw [CBuffer.length_contents] at hlen
  have htake : (cbufferReadPeek (w.bips.cb bip)).take avail =
      (contents w.bips.cb (lists (some p))).take avail := by
    have hshort : avail ≤ (w.bips.cb bip).contents.length := by
      rw [CBuffer.length_contents]
      omega
    rw [hpeek, List.length_take] at hle
    rw [hl, contents, List.flatMap_cons, List.take_append_of_le_length hshort, hpeek,
      List.take_take, Nat.min_eq_left (by omega)]
  refine (h.but p).changeHalf rfl ⟨hp.usable, hp.last, ?_, hbip, by omega, hret⟩
  rw [← hbytes, htake]
  simp only [Call.inFlight, Call.pending, List.append_assoc, List.append_nil,
    List.take_append_drop]

theorem pollTop (h : Sound w lists) {w' : World η} (hcall : (w.half p).call = .polling)
    (h' : w.pollTop p = some w') : ∃ lists', Sound w' lists' := by
  have hp := h.half p
  have hok := hp.call
  have hchain : Chain w.bips.next (w.half p).bipFirst (lists (some p)) :=
    h.held.chains.chain (some p)
  have hbytes := hp.bytes
  rw [hcall] at hok hbytes
  have hidle : Sound (w.setCall p .idle) lists :=
    h.changeCall (by rw [hcall]; rfl) (by rw [hcall]; rfl) hok
  rw [World.pollTop] at h'
  cases hfirst : (w.half p).bipFirst with
  | none =>
    rw [hfirst] at h'
    exact ⟨lists, Option.some.inj h' ▸ hidle⟩
  | some bip =>
    have hbip : (lists (some p)).head? = some bip := by
      rw [← hchain.head?_eq, hfirst]
    obtain ⟨l, hl⟩ : ∃ l, lists (some p) = bip :: l := List.head?_eq_some_iff.mp hbip
    rw [hfirst] at h'
    simp only at h'
    by_cases hsize : cbufferReadAvail (w.bips.cb bip) = 0
    · rw [if_pos hsize] at h'
      rw [← Option.some.inj h']
      have hrest : Chain w.bips.next (w.bips.next bip) l := by
        rw [hl] at hchain
        exact hchain.2
      have hself : Function.update (Function.update lists (some p) l) none (bip :: lists none)
          (some p) = l := by simp
      refine ⟨_, (h.but p).change (h.held.free hl) ?_ (fun _ _ _ _ => rfl) ?_⟩
      · intro q hq
        simp [hq]
      · rw [hself]
        refine ⟨?_, ?_, ?_, ?_⟩
        · intro a ha
          exact hp.usable a (hl ▸ List.mem_cons_of_mem bip ha)
        · have hlast := hp.last
          rw [hl] at hlast
          dsimp only
          rw [hrest.head?_eq]
          cases l with
          | nil => rfl
          | cons a l => simpa using hlast
        · have hempty : (w.bips.cb bip).contents = [] := CBuffer.contents_eq_nil_iff.mpr hsize
          rw [hl, contents, List.flatMap_cons, hempty, List.nil_append] at hbytes
          dsimp only
          rw [hcall]
          exact hbytes
        · dsimp only
          rw [hcall]
          exact hok
    · rw [if_neg hsize] at h'
      split at h'
      · split at h'
        · cases h'
        · split at h'
          · refine ⟨lists, Option.some.inj h' ▸ h.changeCall ?_ ?_ ⟨hbip, hok⟩⟩ <;>
              rw [hcall] <;> rfl
          · exact ⟨lists, Option.some.inj h' ▸ hidle⟩
      · exact ⟨lists, h.pollRead (.inl hcall) hbip h'⟩

theorem write (h : Sound w lists) (buf : List UInt8) (hcall : (w.half p).call = .idle) :
    ∃ lists', Sound (w.charpipehalfWrite p buf) lists' := by
  have hp := h.half p
  have hok := hp.call
  have hbytes := hp.bytes
  rw [hcall] at hok hbytes
  have hwritten := (h.but p).setHalf { w.half p with writes := (w.half p).writes ++ [buf] } rfl rfl
  have hrest : ∃ lists', Sound ((w.setHalf p { w.half p with
      writes := (w.half p).writes ++ [buf] }).bufferRest p buf 0) lists' := by
    refine hwritten.bufferRest ?_ ?_
    · simp only [setHalf_self, bips_setHalf, List.flatten_append, List.flatten_singleton]
      rw [← hbytes]
      simp [Call.inFlight, Call.pending]
    · simp only [setHalf_self, List.map_append, List.map_singleton, Nat.zero_add]
      rw [hok]
  rw [World.charpipehalfWrite]
  dsimp only
  split
  · rename_i peer hlast hpeer
    rw [setHalf_self] at hlast
    split
    · have hnil : lists (some p) = [] := by
        have hl := hp.last
        rwa [hlast, eq_comm, List.getLast?_eq_none_iff] at hl
      refine ⟨lists, hwritten.changeHalf rfl ⟨hp.usable, ?_, ?_, hnil, ?_⟩⟩
      · rw [setHalf_self]
        exact hp.last
      · simp only [setHalf_self, bips_setHalf, List.flatten_append, List.flatten_singleton]
        rw [← hbytes]
        simp [Call.inFlight, Call.pending]
      · simp only [setHalf_self, List.map_append, List.map_singleton, Nat.zero_add]
        rw [hok]
    · exact hrest
  · exact hrest

theorem readStep (h : Sound w lists) {bip avail : Nat}
    (hcall : (w.half p).call = .reading bip avail) :
    Sound ({ w with bips := w.bips.setCb bip (cbufferReadStep (w.bips.cb bip) avail) }.setCall p
      .polling) lists := by
  have hp := h.half p
  have hok := hp.call
  have hbytes := hp.bytes
  rw [hcall] at hok hbytes
  obtain ⟨hbip, havail, hret⟩ := hok
  obtain ⟨l, hl⟩ : ∃ l, lists (some p) = bip :: l := List.head?_eq_some_iff.mp hbip
  have husable := hp.usable bip (List.mem_of_mem_head? hbip)
  obtain ⟨hvalid, hsize, hcontents⟩ := CBuffer.readStep_spec husable.1 havail
  have hself : (w.bips.setCb bip (cbufferReadStep (w.bips.cb bip) avail)).cb bip =
      cbufferReadStep (w.bips.cb bip) avail := Function.update_self _ _ _
  have hkept : ∀ a, a ≠ bip →
      (w.bips.setCb bip (cbufferReadStep (w.bips.cb bip) avail)).cb a = w.bips.cb a :=
    fun a ha => Function.update_of_ne ha _ _
  refine (h.but p).change (((h.but p).held_update rfl).setCb _ _) (fun _ _ => rfl) ?_
    ⟨?_, hp.last, ?_, hret⟩
  · rintro q hq a ha
    refine hkept a ?_
    rintro rfl
    exact hq (Option.some.inj (h.held.chains.apart ha (List.mem_of_mem_head? hbip)))
  · intro a ha
    by_cases heq : a = bip
    · subst heq
      rw [hself]
      exact ⟨hvalid, hsize.trans husable.2⟩
    · rw [hkept a heq]
      exact hp.usable a ha
  · have hnot : bip ∉ l := by
      have hnodup := h.held.chains.nodup (some p)
      rw [hl] at hnodup
      exact (List.nodup_cons.mp hnodup).1
    have htail : contents (w.bips.setCb bip (cbufferReadStep (w.bips.cb bip) avail)).cb l =
        contents w.bips.cb l := by
      refine contents_congr fun a ha => hkept a ?_
      rintro rfl
      exact hnot ha
    have hshort : avail ≤ (w.bips.cb bip).contents.length := by
      rw [CBuffer.length_contents]
      exact havail
    have hcons : ∀ cb, contents cb (bip :: l) = (cb bip).contents ++ contents cb l :=
      fun _ => List.flatMap_cons
    rw [hl, hcons, Call.inFlight, List.drop_append_of_le_length hshort] at hbytes
    rw [hl, hcons, hself, hcontents, htail]
    exact hbytes

end Sound

theorem sound_step (h : ∃ lists, Sound w lists) {event : Event η} {w' : World η}
    (h' : step w event = some w') : ∃ lists, Sound w' lists := by
  obtain ⟨lists, h⟩ := h
  cases event with
  | addHandlers p canRead read =>
    have hp := h.half p
    exact ⟨lists, Option.some.inj h' ▸
      (h.but p).changeHalf rfl ⟨hp.usable, hp.last, hp.bytes, hp.call⟩⟩
  | write p buf =>
    rw [step] at h'
    split at h'
    case isTrue hcall => exact Option.some.inj h' ▸ h.write buf hcall
    case isFalse => cases h'
  | poll p =>
    rw [step] at h'
    split at h'
    case isTrue hcall =>
      have hok := (h.half p).call
      rw [hcall] at hok
      rw [← Option.some.inj h', World.charpipehalfPoll]
      split
      · exact ⟨lists, h⟩
      · split
        · refine ⟨lists, h.changeCall ?_ ?_ hok⟩ <;> rw [hcall] <;> rfl
        · exact ⟨lists, h⟩
    case isFalse => cases h'
  | resume p =>
    have hok := (h.half p).call
    have hbytes := (h.half p).bytes
    rw [step] at h'
    split at h'
    · rename_i buf ret hcall
      rw [hcall] at hok hbytes
      split at h'
      · rw [← Option.some.inj h']
        exact (h.but p).bufferRest hbytes hok.2
      · split at h'
        · cases h'
        · split at h'
          · refine ⟨lists, Option.some.inj h' ▸ h.changeCall ?_ ?_ hok⟩ <;> rw [hcall] <;> rfl
          · exact ⟨lists, h.directRead (.inl hcall) (Nat.le_refl _) h'⟩
    · rename_i hcall
      exact h.pollTop hcall h'
    · rename_i bip avail hcall
      exact ⟨lists, Option.some.inj h' ▸ h.readStep hcall⟩
    · cases h'
  | answer p size =>
    have hok := (h.half p).call
    have hbytes := (h.half p).bytes
    rw [step] at h'
    split at h'
    · rename_i buf ret hcall
      rw [hcall] at hok hbytes
      split at h'
      · rw [← Option.some.inj h']
        exact (h.but p).bufferRest hbytes hok.2
      · refine ⟨lists, h.directRead (.inr hcall) ?_ h'⟩
        split <;> omega
    · rename_i bip avail hcall
      rw [hcall] at hok
      split at h'
      · refine ⟨lists, Option.some.inj h' ▸ h.changeCall ?_ ?_ hok.2⟩ <;> rw [hcall] <;> rfl
      · exact ⟨lists, h.pollRead (.inr ⟨avail, hcall⟩) hok.1 h'⟩
    · cases h'

/-- The buffers of a half are a list that ends with `bip_last`.  The bytes written are those the
peer was handed, the buffered ones it has not been handed yet, and those of a write in progress.
With no call in progress nothing is left out and every write has returned its length. -/
def Streams (w : World η) (p : η) : Prop :=
  ∃ bips, Chain w.bips.next (w.half p).bipFirst bips ∧ (w.half p).bipLast = bips.getLast? ∧
    (w.half p).handed ++ (contents w.bips.cb bips).drop (w.half p).call.inFlight ++
      (w.half p).call.pending = (w.half p).writes.flatten ∧
    ((w.half p).call = .idle →
      (w.half p).handed ++ contents w.bips.cb bips = (w.half p).writes.flatten ∧
      (w.half p).returned = (w.half p).writes.map List.length)

theorem reachable_streams (h : Machine.Reachable Init step w) (p : η) : Streams w p := by
  obtain ⟨lists, hs⟩ := h.invariant (fun _ => sound_of_init) (fun _ _ _ hw => sound_step hw)
  have hp := hs.half p
  refine ⟨lists (some p), hs.held.chains.chain (some p), hp.last, hp.bytes, fun hidle => ?_⟩
  have hbytes := hp.bytes
  have hcall := hp.call
  rw [hidle] at hbytes hcall
  simp only [Call.inFlight, Call.pending, List.drop_zero, List.append_nil] at hbytes
  exact ⟨hbytes, hcall⟩

/-- Two halves of a pipe. -/
def pipe : World Bool where
  bips := ⟨fun _ => none, fun _ => cbufferReset (fun _ => 0) 0, none, 0⟩
  half p := ⟨⟨false, false, none, none, some !p⟩, .idle, [], [], []⟩

/-- The reader stalls after two bytes, polls the others, and stalls again. -/
theorem reachable_streams_stalls :
    ∃ w : World Bool, (w.half false).handed = [1, 2, 3, 4] ∧ (w.half false).bipFirst = some 0 ∧
      w.bips.brk = 1 ∧ (w.half false).call = .idle ∧ Streams w false := by
  obtain ⟨w, hw, h⟩ := Machine.exists_reachable Init step
    [.addHandlers true true true, .write false [1, 2, 3], .resume false, .answer false 2,
      .resume false, .answer false 0, .write false [4], .poll false, .resume false, .resume false,
      .resume false, .resume false, .write false [5], .resume false, .answer false 0]
    (fun w => decide ((w.half false).handed = [1, 2, 3, 4] ∧ (w.half false).bipFirst = some 0 ∧
      w.bips.brk = 1 ∧ (w.half false).call = .idle))
    (s := pipe) ⟨rfl, fun _ => ⟨rfl, rfl, rfl, rfl, rfl, rfl⟩⟩ (by decide +kernel)
  obtain ⟨hhanded, hfirst, hbrk, hcall⟩ := of_decide_eq_true h
  exact ⟨w, hhanded, hfirst, hbrk, hcall, reachable_streams hw false⟩

end M2M.Charpipe
