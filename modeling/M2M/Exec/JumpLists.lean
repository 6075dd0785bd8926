import M2M.Exec.TbBooks
import M2M.Lib.Reach

/-! Jumps from block to block: they are chained when a block is found behind another, and taken
apart again when the processor is to come back to its loop. -/

open M2M.Lib M2M.Lib.Machine

namespace M2M.Exec

def Shows (b : Books) (e : Edges TbId) : Prop := ∀ c u, e c = some u ↔ b.live u ∧ c ∈ b.ring u

namespace JumpsOk

variable {tbs : TbId → TranslationBlock} {nb : Nat} {jmp : TbId × Nat → Option (TbId × Nat)}
  {jmpTarget : TbId × Nat → Nat} {b : Books}

theorem chain (h : JumpsOk tbs nb jmp jmpTarget b) {a : TbId × Nat} {next : TbId}
    (hnext : b.live next) (hval : jmp a = none) (ha : Linked tbs nb a.1) (htag : a.2 < 2)
    (hsingle : (tbs next).page1 = none) (hkey : (tbs next).key = (tbs a.1).dest a.2)
    (hpage : (tbs next).page0 = (tbs a.1).page0)
    (hexit : (tbs a.1).tbNextOffset a.2 ≠ noOffset) :
    JumpsOk tbs nb (Function.update (Function.update jmp a (jmp (jmpFirst next))) (jmpFirst next)
      (some a)) (Function.update jmpTarget a (tbs next).tcPtr)
      { b with ring := Function.update b.ring next (a :: b.ring next) } := by
  have hout : ∀ t, b.live t → a ∉ b.ring t := fun t ht hmem =>
    h.rings.next_ne_none ht hmem hval
  have hne : ∀ t, a ≠ jmpFirst t := by
    rintro t rfl
    exact absurd htag (Nat.lt_irrefl 2)
  have hmem : ∀ {t c}, c ∈ Function.update b.ring next (a :: b.ring next) t ↔
      t = next ∧ c = a ∨ c ∈ b.ring t := by
    intro t c
    by_cases htn : t = next
    · rw [htn, Function.update_self, List.mem_cons]
      simp
    · rw [Function.update_of_ne htn]
      simp [htn]
  refine ⟨h.rings.insert jmpFirst_injective hnext hout hne, fun {t c} ht hc => ?_,
    fun {c} hc hctag hcout => ?_⟩
  · rcases hmem.mp hc with ⟨rfl, rfl⟩ | hc
    · exact ⟨htag, ha, Function.update_self _ _ _, hsingle, hkey, hpage, hexit⟩
    · obtain ⟨hctag, hlink, hchained⟩ := h.mem ht hc
      have hca : c ≠ a := fun heq => hout t ht (heq ▸ hc)
      refine ⟨hctag, hlink, ?_, hchained.single, hchained.key, hchained.page, hchained.exit⟩
      rw [Function.update_of_ne hca]
      exact hchained.target
  · have hca : c ≠ a := fun heq => hcout next hnext (hmem.mpr (.inl ⟨rfl, heq⟩))
    have hcf : c ≠ jmpFirst next := by
      rintro rfl
      exact absurd hctag (Nat.lt_irrefl 2)
    rw [Function.update_of_ne hcf, Function.update_of_ne hca, Function.update_of_ne hca]
    exact h.loose hc hctag fun t ht hc => hcout t ht (hmem.mpr (.inr hc))

theorem unchain (h : JumpsOk tbs nb jmp jmpTarget b) {a : TbId × Nat} {u : TbId} (hu : b.live u)
    {front back : List (TbId × Nat)} (hring : b.ring u = front ++ a :: back) :
    JumpsOk tbs nb
      (Function.update (Function.update jmp
        ((jmpFirst u :: front).getLast (List.cons_ne_nil _ _)) (jmp a)) a none)
      (Function.update jmpTarget a ((tbs a.1).stub a.2))
      { b with ring := Function.update b.ring u (front ++ back) } ∧
    ∀ v, b.live v → ∀ c, c ∈ Function.update b.ring u (front ++ back) v ↔
      c ∈ b.ring v ∧ c ≠ a := by
  have ha : a ∈ b.ring u := hring ▸ List.mem_append_right _ List.mem_cons_self
  have hnodup := h.rings.nodup u hu
  rw [hring] at hnodup
  have hmiddle := List.nodup_cons.mp (List.nodup_middle.mp hnodup)
  have hmem : ∀ v, b.live v → ∀ c, c ∈ Function.update b.ring u (front ++ back) v ↔
      c ∈ b.ring v ∧ c ≠ a := by
    intro v hv c
    by_cases hvu : v = u
    · rw [hvu, Function.update_self, hring, List.mem_append, List.mem_append, List.mem_cons]
      constructor
      · intro hc
        refine ⟨hc.imp_right .inr, ?_⟩
        rintro rfl
        exact hmiddle.1 (List.mem_append.mpr hc)
      · rintro ⟨hfront | heq | hback, hne⟩
        · exact .inl hfront
        · exact absurd heq hne
        · exact .inr hback
    · rw [Function.update_of_ne hvu]
      refine ⟨fun hc => ⟨hc, ?_⟩, And.left⟩
      rintro rfl
      exact hvu (h.rings.apart hv hu hc ha)
  refine ⟨⟨h.rings.remove jmpFirst_injective hu hring, fun {v c} hv hc => ?_,
    fun {c} hc hctag hcout => ?_⟩, hmem⟩
  · obtain ⟨hold, hne⟩ := (hmem v hv c).mp hc
    obtain ⟨hctag, hlink, hchained⟩ := h.mem hv hold
    refine ⟨hctag, hlink, ?_, hchained.single, hchained.key, hchained.page, hchained.exit⟩
    rw [Function.update_of_ne hne]
    exact hchained.target
  · by_cases hca : c = a
    · rw [hca, Function.update_self, Function.update_self]
      exact ⟨rfl, fun _ _ => rfl⟩
    · have hout : ∀ v, b.live v → c ∉ b.ring v := fun v hv hold =>
        hcout v hv ((hmem v hv c).mpr ⟨hold, hca⟩)
      have hcb : c ≠ (jmpFirst u :: front).getLast (List.cons_ne_nil _ _) := by
        intro heq
        rcases List.mem_cons.mp (heq ▸ List.getLast_mem (List.cons_ne_nil (jmpFirst u) front)) with
          rfl | hfront
        · exact Nat.lt_irrefl 2 hctag
        · exact hout u hu (hring ▸ List.mem_append_left _ hfront)
      rw [Function.update_of_ne hca, Function.update_of_ne hcb, Function.update_of_ne hca]
      exact h.loose hc hctag hout

end JumpsOk

theorem Core.withJumps {cfg : Config} {s : ExecState} {b : Books} (h : Core cfg s b)
    {jmp : TbId × Nat → Option (TbId × Nat)} {jmpTarget : TbId × Nat → Nat}
    {ring : TbId → List (TbId × Nat)}
    (hjumps : JumpsOk s.tbs s.nbTbs jmp jmpTarget { b with ring }) :
    Core cfg { s with jmp, jmpTarget } { b with ring } :=
  ⟨h.blocks, h.linked, ⟨h.hash.chains, h.hash.mem⟩,
    ⟨h.pages.chains, h.pages.mem, h.pages.allocated⟩, hjumps, h.cache,
    ⟨h.guard.clean, h.guard.tested, h.guard.shown⟩, h.current⟩

namespace ExecState

variable {cfg : Config} {s : ExecState} {b : Books} {e : Edges TbId} {t : TbId} {n : Nat}

section Chain

theorem tbAddJump_core (h : Core cfg s b) {a : TbId × Nat} {next : TbId} (hnext : b.live next)
    (ha : Linked s.tbs s.nbTbs a.1) (htag : a.2 < 2) (hsingle : (s.tbs next).page1 = none)
    (hkey : (s.tbs next).key = (s.tbs a.1).dest a.2)
    (hpage : (s.tbs next).page0 = (s.tbs a.1).page0)
    (hexit : (s.tbs a.1).tbNextOffset a.2 ≠ noOffset) :
    ∃ jmp jmpTarget ring, s.tbAddJump a.1 a.2 next = { s with jmp, jmpTarget } ∧
      Core cfg { s with jmp, jmpTarget } { b with ring } := by
  cases hval : s.jmp a with
  | some c =>
    refine ⟨s.jmp, s.jmpTarget, b.ring, ?_, h⟩
    simp only [tbAddJump, hval]
  | none =>
    have hjumps := h.jumps.chain hnext hval ha htag hsingle hkey hpage hexit
    refine ⟨_, _, _, ?_, h.withJumps hjumps⟩
    simp only [tbAddJump, hval]
    rfl

end Chain

section Unlink

theorem jmpHead_eq {l : List (TbId × Nat)} {p : Option (TbId × Nat)} {fuel : Nat}
    (h : Seg s.jmp p l (some (jmpFirst t))) (htag : ∀ a ∈ l, a.2 ≠ 2) (hfuel : l.length < fuel) :
    ∃ a, p = some a ∧ s.jmpHead fuel a = some t := by
  induction l generalizing p fuel with
  | nil =>
    cases fuel with
    | zero => exact absurd hfuel (Nat.not_lt_zero _)
    | succ fuel => exact ⟨jmpFirst t, h, rfl⟩
  | cons a l ih =>
    cases fuel with
    | zero => exact absurd hfuel (Nat.not_lt_zero _)
    | succ fuel =>
      rw [List.forall_mem_cons] at htag
      obtain ⟨c, hc, hhead⟩ := ih h.2 htag.2 (Nat.lt_of_succ_lt_succ hfuel)
      refine ⟨a, h.1, ?_⟩
      rw [jmpHead, if_neg htag.1, hc, Option.bind_some, hhead]

theorem tbUnchain_eq (h : Core cfg s b) (he : Shows b e) (ht : Linked s.tbs s.nbTbs t)
    (hn : n < 2) :
    ∃ jmp jmpTarget ring, s.tbUnchain t n = some ({ s with jmp, jmpTarget }, e (t, n)) ∧
      Core cfg { s with jmp, jmpTarget } { b with ring } ∧
      Shows { b with ring } (Function.update e (t, n) none) := by
  cases hval : s.jmp (t, n) with
  | none =>
    have hout : ∀ u, b.live u → (t, n) ∉ b.ring u := fun u hu hmem =>
      h.jumps.rings.next_ne_none hu hmem hval
    have hnone : e (t, n) = none := by
      by_contra hsome
      obtain ⟨u, hu⟩ := Option.ne_none_iff_exists'.mp hsome
      obtain ⟨hlive, hmem⟩ := (he _ _).mp hu
      exact hout u hlive hmem
    refine ⟨s.jmp, s.jmpTarget, b.ring, ?_, h, ?_⟩
    · simp only [tbUnchain, hval, hnone]
    · rw [← hnone, Function.update_eq_self]
      exact he
  | some c =>
    obtain ⟨u, hu, hmem⟩ : ∃ u, b.live u ∧ (t, n) ∈ b.ring u := by
      by_contra hout
      push Not at hout
      have hnone := (h.jumps.loose (a := (t, n)) ht hn hout).1
      rw [hval] at hnone
      cases hnone
    have hedge : e (t, n) = some u := (he _ _).mpr ⟨hu, hmem⟩
    have htags : ∀ a ∈ b.ring u, a.2 ≠ 2 := fun a ha => Nat.ne_of_lt (h.jumps.mem hu ha).1
    obtain ⟨front, back, hring⟩ := List.append_of_mem hmem
    have hlength : (b.ring u).length < s.fuel := h.jumps.length_ring hu
    have hseg := h.jumps.rings.seg u hu
    rw [hring, seg_cons_iff] at hseg
    have hback : back.length < s.fuel := by
      rw [hring, List.length_append, List.length_cons] at hlength
      omega
    obtain ⟨a, ha, hhead⟩ := jmpHead_eq hseg.2
      (fun a ha => htags a (hring ▸ List.mem_append_right _ (List.mem_cons_of_mem _ ha))) hback
    have hbefore := h.jumps.rings.before_head hu hring hlength
    obtain ⟨hjumps, hmemr⟩ := h.jumps.unchain hu hring
    refine ⟨_, _, _, ?_, h.withJumps hjumps, fun c v => ?_⟩
    · have hhead' : s.jmpHead s.fuel c = some u := by
        rw [hval] at ha
        rw [Option.some.inj ha]
        exact hhead
      have hbefore' : before s.jmp (fun c => decide (c = (t, n))) s.fuel (u, 2) =
        some ((jmpFirst u :: front).getLast (List.cons_ne_nil _ _)) := hbefore
      simp only [tbUnchain, hval, hhead', hbefore', Option.bind_some, Option.map_some, hedge]
      rfl
    · change _ ↔ b.live v ∧ c ∈ Function.update b.ring u (front ++ back) v
      by_cases hct : c = (t, n)
      · rw [hct, Function.update_self]
        refine iff_of_false (Option.some_ne_none v).symm ?_
        rintro ⟨hv, hc⟩
        exact ((hmemr v hv _).mp hc).2 rfl
      · rw [Function.update_of_ne hct, he]
        exact and_congr_right fun hv => by rw [hmemr v hv, and_iff_left hct]

theorem tbResetJumpRecursive_eq {S : Finset (TbId × Nat)} {fuel : Nat} (h : Core cfg s b)
    (he : Shows b e) (ht : Linked s.tbs s.nbTbs t) (hS : ∀ c, e c ≠ none → c ∈ S)
    (hfuel : S.card < fuel) :
    ∃ jmp jmpTarget ring e', s.tbResetJumpRecursive fuel t = some { s with jmp, jmpTarget } ∧
      Core cfg { s with jmp, jmpTarget } { b with ring } ∧ Shows { b with ring } e' ∧
      Edges.Cleared e e' t := by
  induction fuel generalizing s b e t S with
  | zero => exact absurd hfuel (Nat.not_lt_zero _)
  | succ fuel ih =>
    -- one exit, and what is behind it
    have hone : ∀ {s : ExecState} {b : Books} {e : Edges TbId} {n : Nat}, Core cfg s b →
        Shows b e → Linked s.tbs s.nbTbs t → n < 2 → (∀ c, e c ≠ none → c ∈ S) →
        ∃ jmp jmpTarget ring e', ((s.tbUnchain t n).bind fun r =>
          r.2.elim (some r.1) (tbResetJumpRecursive fuel r.1)) = some { s with jmp, jmpTarget } ∧
          Core cfg { s with jmp, jmpTarget } { b with ring } ∧ Shows { b with ring } e' ∧
          Edges.Followed e e' (t, n) := by
      intro s b e n h he ht hn hS
      obtain ⟨jmp, jmpTarget, ring, hunchain, hcore, hshows⟩ := tbUnchain_eq h he ht hn
      cases hedge : e (t, n) with
      | none =>
        refine ⟨jmp, jmpTarget, ring, e, ?_, hcore, ?_, fun _ => rfl, fun u hu => ?_⟩
        · rw [hunchain, Option.bind_some, hedge]
          rfl
        · rwa [← hedge, Function.update_eq_self] at hshows
        · rw [hedge] at hu
          cases hu
      | some u =>
        obtain ⟨hlive, -⟩ := (he _ _).mp hedge
        have hmem : (t, n) ∈ S := hS _ (by rw [hedge]; exact Option.some_ne_none u)
        have hcard : (S.erase (t, n)).card < fuel := by
          have hpos := Finset.card_pos.mpr ⟨_, hmem⟩
          rw [Finset.card_erase_of_mem hmem]
          omega
        have hS' : ∀ c, Function.update e (t, n) none c ≠ none → c ∈ S.erase (t, n) := by
          intro c hc
          by_cases hct : c = (t, n)
          · rw [hct, Function.update_self] at hc
            exact absurd rfl hc
          · rw [Function.update_of_ne hct] at hc
            exact Finset.mem_erase.mpr ⟨hct, hS c hc⟩
        obtain ⟨jmp', jmpTarget', ring', e', hreset, hcore', hshows', hcleared⟩ :=
          ih hcore hshows (hcore.linked hlive) hS' hcard
        refine ⟨jmp', jmpTarget', ring', e', ?_, hcore', hshows', fun hnone => ?_, fun v hv => ?_⟩
        · rw [hunchain, Option.bind_some, hedge]
          exact hreset
        · rw [hedge] at hnone
          cases hnone
        · rw [hedge] at hv
          exact Option.some.inj hv ▸ hcleared
    obtain ⟨jmp, jmpTarget, ring, e₁, hfirst, hcore, hshows, hfollowed⟩ :=
      hone h he ht Nat.two_pos hS
    obtain ⟨jmp', jmpTarget', ring', e₂, hsecond, hcore', hshows', hfollowed'⟩ :=
      hone hcore hshows ht Nat.one_lt_two fun c hc => hS c fun hnone => hc (hfollowed.eq_none hnone)
    refine ⟨jmp', jmpTarget', ring', e₂, ?_, hcore', hshows',
      Edges.Cleared.of_followed hfollowed hfollowed' fun n hn => ?_⟩
    · rw [tbResetJumpRecursive]
      have hassoc := congrArg (Option.bind · fun s : ExecState => (s.tbUnchain t 1).bind fun r =>
        r.2.elim (some r.1) (tbResetJumpRecursive fuel r.1)) hfirst
      simp only [Option.bind_assoc, Option.bind_some] at hassoc
      rw [← hassoc.trans hsecond]
      congr 1
      funext r
      obtain ⟨s₁, next⟩ := r
      cases next with
      | none =>
        congr 1
        funext s₂
        congr 1
        funext r
        obtain ⟨s₃, _ | u⟩ := r <;> rfl
      | some u =>
        congr 1
        funext s₂
        congr 1
        funext r
        obtain ⟨s₃, _ | v⟩ := r <;> rfl
    · obtain ⟨u, hu⟩ := Option.ne_none_iff_exists'.mp hn
      obtain ⟨hlive, hmem⟩ := (he _ _).mp hu
      exact (h.jumps.mem hlive hmem).1

end Unlink

end ExecState

end M2M.Exec
