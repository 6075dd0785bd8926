import M2M.Charpipe.Charpipe

universe u

namespace M2M.Charpipe

open M2M.Lib

variable {η : Type u}

/-- Where the lists start: the free one, and that of each half. -/
def roots (m : BipBuffers) (first : η → Option Nat) : Option η → Option Nat
  | none => m.freeBipBuffers
  | some p => first p

/-- The free buffers and those of the halves are lists apart, made of allocated buffers. -/
structure Held (m : BipBuffers) (first : η → Option Nat) (lists : Option η → List Nat) : Prop where
  chains : Chains m.next (roots m first) lists
  below : ∀ i, ∀ a ∈ lists i, a < m.brk

def Usable (cb : CBuffer) : Prop := cb.Valid ∧ cb.size = bipBufferSize

theorem usable_reset (buff : Nat → UInt8) : Usable (cbufferReset buff bipBufferSize) :=
  ⟨CBuffer.valid_reset buff (by decide), rfl⟩

def contents (cb : Nat → CBuffer) (bips : List Nat) : List UInt8 :=
  bips.flatMap fun bip => (cb bip).contents

theorem contents_congr {cb cb' : Nat → CBuffer} {bips : List Nat} (h : ∀ a ∈ bips, cb' a = cb a) :
    contents cb' bips = contents cb bips := by
  induction bips with
  | nil => rfl
  | cons a l ih =>
    rw [contents, contents, List.flatMap_cons, List.flatMap_cons, h a List.mem_cons_self]
    congr 1
    exact ih fun b hb => h b (List.mem_cons_of_mem a hb)

section Roots

variable [DecidableEq η] (m : BipBuffers) (first : η → Option Nat)

theorem update_roots_some (p : η) (x : Option Nat) :
    Function.update (roots m first) (some p) x = roots m (Function.update first p x) := by
  funext i
  cases i with
  | none => rfl
  | some q =>
    by_cases hq : q = p
    · subst hq
      simp [roots]
    · simp [roots, hq]

theorem update_roots_none (x : Option Nat) :
    Function.update (roots m first) none x = roots { m with freeBipBuffers := x } first := by
  funext i
  cases i with
  | none => rfl
  | some q => rfl

end Roots

variable {m : BipBuffers} {first : η → Option Nat} {lists : Option η → List Nat}

/-- A buffer in no list, whose link is null. -/
structure Spare (m : BipBuffers) (lists : Option η → List Nat) (bip : Nat) : Prop where
  notMem : ∀ i, bip ∉ lists i
  lt : bip < m.brk
  next : m.next bip = none

namespace Held

theorem setCb (h : Held m first lists) (bip : Nat) (cb : CBuffer) :
    Held (m.setCb bip cb) first lists := ⟨h.chains, h.below⟩

theorem fresh (h : Held m first lists) {bip : Nat} (hnot : ∀ i, bip ∉ lists i) :
    Held (m.fresh bip) first lists := ⟨h.chains.touch hnot none, h.below⟩

theorem spare_fresh {bip : Nat} (hnot : ∀ i, bip ∉ lists i) (hlt : bip < m.brk) :
    Spare (m.fresh bip) lists bip := by
  refine ⟨hnot, hlt, ?_⟩
  simp [BipBuffers.fresh, BipBuffers.setNext, BipBuffers.setCb]

theorem cb_fresh (bip : Nat) :
    (m.fresh bip).cb bip = cbufferReset (m.cb bip).buff bipBufferSize := by
  simp [BipBuffers.fresh, BipBuffers.setNext, BipBuffers.setCb]

theorem cb_fresh_of_ne {bip a : Nat} (h : a ≠ bip) : (m.fresh bip).cb a = m.cb a := by
  simp [BipBuffers.fresh, BipBuffers.setNext, BipBuffers.setCb, h]

theorem bipBufferAlloc_of_some {bip : Nat} (h : m.freeBipBuffers = some bip) :
    m.bipBufferAlloc = (bip, { m with freeBipBuffers := m.next bip }.fresh bip) := by
  rw [BipBuffers.bipBufferAlloc, h]

theorem bipBufferAlloc_of_none (h : m.freeBipBuffers = none) :
    m.bipBufferAlloc = (m.brk, { m with brk := m.brk + 1 }.fresh m.brk) := by
  unfold BipBuffers.bipBufferAlloc
  split
  case h_1 bip hsome => cases h.symm.trans hsome
  case h_2 => rfl

variable [DecidableEq η]

theorem alloc (h : Held m first lists) :
    ∃ lists', Held m.bipBufferAlloc.2 first lists' ∧ (∀ p, lists' (some p) = lists (some p)) ∧
      Spare m.bipBufferAlloc.2 lists' m.bipBufferAlloc.1 ∧
      (∃ buff, m.bipBufferAlloc.2.cb m.bipBufferAlloc.1 = cbufferReset buff bipBufferSize) ∧
      ∀ a, a ≠ m.bipBufferAlloc.1 → m.bipBufferAlloc.2.cb a = m.cb a := by
  cases hfree : m.freeBipBuffers with
  | some bip =>
    rw [bipBufferAlloc_of_some hfree]
    obtain ⟨l, hl⟩ : ∃ l, lists none = bip :: l := by
      have hchain : Chain m.next m.freeBipBuffers (lists none) := h.chains.chain none
      rw [hfree] at hchain
      cases hlist : lists none with
      | nil =>
        rw [hlist] at hchain
        cases hchain
      | cons a l =>
        rw [hlist] at hchain
        exact ⟨l, by rw [Option.some.inj hchain.1]⟩
    have hnot := h.chains.notMem_pop hl
    have hpop : Held { m with freeBipBuffers := m.next bip } first
        (Function.update lists none l) := by
      refine ⟨?_, fun i a ha => ?_⟩
      · rw [← update_roots_none]
        exact h.chains.pop hl
      · cases i with
        | none =>
          rw [Function.update_self] at ha
          exact h.below none a (hl ▸ List.mem_cons_of_mem bip ha)
        | some p => exact h.below (some p) a ha
    have hlt : bip < m.brk := h.below none bip (hl ▸ List.mem_cons_self)
    exact ⟨_, hpop.fresh hnot, fun _ => rfl, spare_fresh hnot hlt, ⟨_, cb_fresh bip⟩,
      fun a ha => cb_fresh_of_ne ha⟩
  | none =>
    rw [bipBufferAlloc_of_none hfree]
    have hnot : ∀ i, m.brk ∉ lists i := fun i hi => Nat.lt_irrefl _ (h.below i _ hi)
    have hgrown : Held { m with brk := m.brk + 1 } first lists :=
      ⟨h.chains, fun i a ha => Nat.lt_succ_of_lt (h.below i a ha)⟩
    exact ⟨lists, hgrown.fresh hnot, fun _ => rfl, spare_fresh hnot (Nat.lt_succ_self _),
      ⟨_, cb_fresh _⟩, fun a ha => cb_fresh_of_ne ha⟩

theorem start (h : Held m first lists) {p : η} {bip : Nat} (hp : lists (some p) = [])
    (hs : Spare m lists bip) :
    Held m (Function.update first p (some bip)) (Function.update lists (some p) [bip]) := by
  have hroot : roots m first (some p) = none := by
    have := h.chains.chain (some p)
    rwa [hp] at this
  have hpush := h.chains.push hs.notMem (some p)
  rw [hroot, hp, ← hs.next, Function.update_eq_self, update_roots_some] at hpush
  refine ⟨hpush, fun i a ha => ?_⟩
  by_cases hi : i = some p
  · subst hi
    rw [Function.update_self, List.mem_singleton] at ha
    exact ha ▸ hs.lt
  · rw [Function.update_of_ne hi] at ha
    exact h.below i a ha

theorem concat (h : Held m first lists) {p : η} {l : List Nat} {bip last : Nat}
    (hp : lists (some p) = l ++ [bip]) (hs : Spare m lists last) :
    Held (m.setNext bip (some last)) first
      (Function.update lists (some p) (l ++ [bip, last])) := by
  have hconcat := h.chains.concat hp hs.notMem
  rw [← hs.next, Function.update_eq_self] at hconcat
  refine ⟨hconcat, fun i a ha => ?_⟩
  by_cases hi : i = some p
  · subst hi
    have hmem : a ∈ l ++ [bip] ∨ a = last := by simpa [or_assoc] using ha
    cases hmem with
    | inl hold => exact h.below (some p) a (hp ▸ hold)
    | inr heq => exact heq ▸ hs.lt
  · rw [Function.update_of_ne hi] at ha
    exact h.below i a ha

theorem free (h : Held m first lists) {p : η} {bip : Nat} {l : List Nat}
    (hp : lists (some p) = bip :: l) :
    Held (m.bipBufferFree bip) (Function.update first p (m.next bip))
      (Function.update (Function.update lists (some p) l) none (bip :: lists none)) := by
  have hpop := h.chains.pop hp
  have hpush := hpop.push (h.chains.notMem_pop hp) none
  rw [update_roots_some, update_roots_none] at hpush
  refine ⟨hpush, fun i a ha => ?_⟩
  have hold : ∃ j, a ∈ lists j := by
    cases i with
    | none =>
      rw [Function.update_self, List.mem_cons] at ha
      cases ha with
      | inl heq => exact ⟨some p, by rw [hp, heq]; exact List.mem_cons_self⟩
      | inr hmem => exact ⟨none, hmem⟩
    | some q =>
      by_cases hq : q = p
      · subst hq
        rw [Function.update_of_ne (by simp), Function.update_self] at ha
        exact ⟨some q, by rw [hp]; exact List.mem_cons_of_mem bip ha⟩
      · rw [Function.update_of_ne (by simp), Function.update_of_ne (by simpa using hq)] at ha
        exact ⟨some q, ha⟩
  obtain ⟨j, hj⟩ := hold
  exact h.below j a hj

theorem bufferLoop_succ {rounds bip : Nat} {buf : List UInt8} {m' : BipBuffers} {last : Nat}
    (hrest : (cbufferWrite (m.cb bip) buf).2 ≠ [])
    (hlast : (m.setCb bip (cbufferWrite (m.cb bip) buf).1).bipBufferAlloc.1 = last)
    (hm' : (m.setCb bip (cbufferWrite (m.cb bip) buf).1).bipBufferAlloc.2 = m') :
    bufferLoop (rounds + 1) m bip buf =
      let rest := (cbufferWrite (m.cb bip) buf).2
      let result := bufferLoop rounds (m'.setNext bip (some last)) last rest
      (result.1, result.2.1, buf.length - rest.length + result.2.2) := by
  subst hlast hm'
  rw [bufferLoop]
  simp only [if_neg hrest]

theorem bufferLoop_spec (h : Held m first lists) {p : η} (l : List Nat) (bip : Nat)
    (hp : lists (some p) = l ++ [bip]) (hbip : Usable (m.cb bip)) (rounds : Nat) (buf : List UInt8)
    (hr : buf.length + (if (m.cb bip).count = bipBufferSize then 1 else 0) ≤ rounds) :
    ∃ lists' more, Held (bufferLoop rounds m bip buf).1 first lists' ∧
      lists' (some p) = l ++ bip :: more ∧ (∀ q, q ≠ p → lists' (some q) = lists (some q)) ∧
      (l ++ bip :: more).getLast? = some (bufferLoop rounds m bip buf).2.1 ∧
      (∀ a ∈ bip :: more, Usable ((bufferLoop rounds m bip buf).1.cb a)) ∧
      contents (bufferLoop rounds m bip buf).1.cb (bip :: more) = (m.cb bip).contents ++ buf ∧
      (bufferLoop rounds m bip buf).2.2 = buf.length ∧
      ∀ q, ∀ a ∈ lists (some q), a ≠ bip → (bufferLoop rounds m bip buf).1.cb a = m.cb a := by
  induction rounds generalizing m lists l bip buf with
  | zero =>
    have hnil : buf = [] := List.length_eq_zero_iff.mp (by omega)
    subst hnil
    refine ⟨lists, [], h, hp, fun _ _ => rfl, by simp [bufferLoop], ?_, ?_, rfl, fun _ _ _ _ => rfl⟩
    · intro a ha
      rw [List.mem_singleton] at ha
      exact ha ▸ hbip
    · simp [contents, bufferLoop]
  | succ rounds ih =>
    obtain ⟨hvalid, hsize, hcontents, hrest⟩ := CBuffer.write_spec hbip.1 buf
    have hkept : ∀ a, a ≠ bip → (m.setCb bip (cbufferWrite (m.cb bip) buf).1).cb a = m.cb a :=
      fun a ha => Function.update_of_ne ha _ _
    have hself : (m.setCb bip (cbufferWrite (m.cb bip) buf).1).cb bip =
        (cbufferWrite (m.cb bip) buf).1 := Function.update_self _ _ _
    have hheld := h.setCb bip (cbufferWrite (m.cb bip) buf).1
    have husable : Usable (cbufferWrite (m.cb bip) buf).1 := ⟨hvalid, hsize.trans hbip.2⟩
    by_cases hdone : (cbufferWrite (m.cb bip) buf).2 = []
    · have hstop : bufferLoop (rounds + 1) m bip buf =
          (m.setCb bip (cbufferWrite (m.cb bip) buf).1, bip, buf.length) := by
        rw [bufferLoop]
        simp [hdone]
      rw [hstop]
      refine ⟨lists, [], hheld, hp, fun _ _ => rfl, by simp, ?_, ?_, rfl,
        fun _ a _ ha => hkept a ha⟩
      · intro a ha
        rw [List.mem_singleton.mp ha, hself]
        exact husable
      · have htake : buf.take ((m.cb bip).size - (m.cb bip).count) = buf := by
          rw [hdone, eq_comm, List.drop_eq_nil_iff] at hrest
          exact List.take_of_length_le hrest
        rw [contents, List.flatMap_singleton, hself, hcontents, htake]
    · obtain ⟨lists₁, hheld₁, hsame₁, hspare, ⟨buff, hnew⟩, hcb₁⟩ := hheld.alloc
      generalize hlast : (m.setCb bip (cbufferWrite (m.cb bip) buf).1).bipBufferAlloc.1 = last at *
      generalize hm₁ : (m.setCb bip (cbufferWrite (m.cb bip) buf).1).bipBufferAlloc.2 = m₁ at *
      rw [bufferLoop_succ hdone hlast hm₁]
      have hp₁ : lists₁ (some p) = l ++ [bip] := (hsame₁ p).trans hp
      have hlinked := hheld₁.concat hp₁ hspare
      have hne : bip ≠ last := by
        rintro rfl
        exact hspare.notMem (some p) (by simp [hp₁])
      have hfresh : m₁.cb last = cbufferReset buff bipBufferSize := hnew
      have hold : ∀ q, ∀ a ∈ lists (some q), a ≠ last := by
        rintro q a ha rfl
        exact hspare.notMem (some q) (by rwa [hsame₁ q])
      have hmem : ∀ q, ∀ a ∈ lists (some q),
          a ∈ Function.update lists₁ (some p) (l ++ [bip, last]) (some q) := by
        intro q a ha
        by_cases hq : q = p
        · subst hq
          rw [hp] at ha
          rw [Function.update_self]
          simp only [List.mem_append, List.mem_cons] at ha ⊢
          tauto
        · rwa [Function.update_of_ne (by simpa using hq), hsame₁ q]
      have hless : (cbufferWrite (m.cb bip) buf).2.length + 0 ≤ rounds := by
        have hpos := List.length_pos_iff.mpr hdone
        have hcount := hbip.1.count_le
        rw [hrest, List.length_drop] at hpos ⊢
        rw [hbip.2] at hcount hpos ⊢
        split at hr <;> omega
      obtain ⟨lists', more, hheld', hp', hsame', hlast', husable', hcontents', hret', hkept'⟩ :=
        ih hlinked (l ++ [bip]) last (by simp)
          (by rw [BipBuffers.setNext, hfresh]; exact usable_reset buff)
          (cbufferWrite (m.cb bip) buf).2 (by
            rw [BipBuffers.setNext, hfresh]
            exact hless)
      have hbipcb : (bufferLoop rounds (m₁.setNext bip (some last)) last
          (cbufferWrite (m.cb bip) buf).2).1.cb bip = (cbufferWrite (m.cb bip) buf).1 := by
        rw [hkept' p bip (hmem p bip (by simp [hp])) hne, BipBuffers.setNext, hcb₁ bip hne, hself]
      refine ⟨lists', last :: more, hheld', ?_, ?_, ?_, ?_, ?_, ?_, ?_⟩
      · rw [hp', List.append_assoc]
        rfl
      · intro q hq
        rw [hsame' q hq, Function.update_of_ne (by simpa using hq), hsame₁ q]
      · rw [← hlast', List.append_assoc]
        rfl
      · intro a ha
        rw [List.mem_cons] at ha
        cases ha with
        | inl heq =>
          rw [heq, hbipcb]
          exact husable
        | inr hmore => exact husable' a hmore
      · rw [contents, List.flatMap_cons, hbipcb, hcontents]
        change _ ++ contents _ (last :: more) = _
        rw [hcontents', BipBuffers.setNext, hfresh, CBuffer.contents_reset, List.nil_append, hrest,
          List.append_assoc, List.take_append_drop]
      · dsimp only
        rw [hret', hrest, List.length_drop]
        omega
      · intro q a ha hbip
        dsimp only
        rw [hkept' q a (hmem q a ha) (hold q a ha), BipBuffers.setNext, hcb₁ a (hold q a ha),
          hkept a hbip]

end Held

end M2M.Charpipe
