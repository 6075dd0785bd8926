import M2M.Exec.CodeWrites

/-! A new block is put on the lists, and where there is no room for it all others are dropped. -/

open M2M.Lib M2M.Lib.Machine

namespace M2M.Exec

def Books.nil : Books := ⟨fun _ => False, fun _ => [], fun _ => [], fun _ => []⟩

theorem chains_nil {α ι : Type} (next : α → Option α) :
    Chains next (fun _ : ι => none) fun _ => [] :=
  ⟨fun _ => rfl, fun _ => List.nodup_nil, fun ha => absurd ha List.not_mem_nil⟩

section Congr

variable {cfg : Config} {b : Books} {tbs tbs' : TbId → TranslationBlock} {nb nb' : Nat}

theorem HashOk.congr {hash : Family Nat TbId} (h : HashOk tbs hash b)
    (heq : ∀ t, b.live t → tbs' t = tbs t) : HashOk tbs' hash b := by
  refine ⟨h.chains, fun {t i} => h.mem.trans (and_congr_right fun ht => ?_)⟩
  rw [heq t ht]

theorem PagesOk.congr {l1Map : Nat → Bool} {pages : Family Nat (TbId × Nat)}
    (h : PagesOk tbs l1Map pages b) (heq : ∀ t, b.live t → tbs' t = tbs t) :
    PagesOk tbs' l1Map pages b := by
  refine ⟨h.chains, fun {a p} => h.mem.trans (and_congr_right fun ha => ?_), fun ht hp => ?_⟩
  · rw [heq a.1 ha]
  · rw [heq _ ht] at hp
    exact h.allocated ht hp

theorem JumpsOk.congr {jmp : TbId × Nat → Option (TbId × Nat)} {jmpTarget : TbId × Nat → Nat}
    (h : JumpsOk tbs nb jmp jmpTarget b) (hlive : ∀ t, b.live t → Linked tbs nb t)
    (hlinked : ∀ t, Linked tbs' nb' t ↔ Linked tbs nb t)
    (heq : ∀ t, Linked tbs nb t → tbs' t = tbs t) :
    JumpsOk tbs' nb' jmp jmpTarget b := by
  refine ⟨h.rings, fun {t a} ht ha => ?_, fun {a} ha htag hout => ?_⟩
  · obtain ⟨htag, hlink, hchained⟩ := h.mem ht ha
    refine ⟨htag, (hlinked a.1).mpr hlink, ?_⟩
    have hta := heq t (hlive t ht)
    have haa := heq a.1 hlink
    exact ⟨hta ▸ hchained.target, hta ▸ hchained.single, hta ▸ haa ▸ hchained.key,
      hta ▸ haa ▸ hchained.page, haa ▸ hchained.exit⟩
  · rw [heq a.1 ((hlinked a.1).mp ha)]
    exact h.loose ((hlinked a.1).mp ha) htag hout

theorem CacheOk.congr {cache : BitVec 32 → Option TbId} {phys : Nat → Option Nat}
    (h : CacheOk tbs cache phys b) (heq : ∀ t, b.live t → tbs' t = tbs t) :
    CacheOk tbs' cache phys b := by
  intro i t ht
  have hlive := (h i t ht).1
  rw [heq t hlive]
  exact h i t ht

theorem FreshOk.congr {ram : Nat → BitVec 8} (h : FreshOk tbs ram b)
    (heq : ∀ t, b.live t → tbs' t = tbs t) : FreshOk tbs' ram b := by
  intro t ht
  rw [heq t ht]
  exact h t ht

theorem GuardOk.congr {dirty : Nat → BitVec 8} {phys : Nat → Option Nat} {direct : Nat → Bool}
    {bitmap : Nat → Option (Nat → BitVec 8)} (h : GuardOk tbs dirty phys direct bitmap b)
    (heq : ∀ p, ∀ a ∈ b.page p, (tbs' a.1).tbStart a.2 = (tbs a.1).tbStart a.2 ∧
      (tbs' a.1).tbEnd a.2 = (tbs a.1).tbEnd a.2) :
    GuardOk tbs' dirty phys direct bitmap b := by
  refine ⟨h.clean, h.tested, fun {p tab} htab a ha k hk hlo hhi => ?_⟩
  rw [(heq p a ha).1] at hlo
  rw [(heq p a ha).2] at hhi
  exact h.shown htab a ha k hk hlo hhi

end Congr

def Books.add (b : Books) (t : TbId) (tb : TranslationBlock) : Books where
  live u := u = t ∨ b.live u
  chain := Function.update b.chain tb.bucket (t :: b.chain tb.bucket)
  page :=
    let page := Function.update b.page tb.page0 ((t, 0) :: b.page tb.page0)
    match tb.page1 with
    | none => page
    | some q => Function.update page q ((t, 1) :: page q)
  ring := Function.update b.ring t []

section Add

variable {cfg : Config} {b : Books} {tbs : TbId → TranslationBlock} {nb : Nat} {t : TbId}

theorem HashOk.add {hash : Family Nat TbId} (h : HashOk tbs hash b) (ht : ¬b.live t) :
    HashOk tbs (hash.push (tbs t).bucket t) (b.add t (tbs t)) := by
  have hout : ∀ i, t ∉ b.chain i := fun i hmem => ht (h.mem.mp hmem).1
  refine ⟨h.chains.push hout _, fun {u i} => ?_⟩
  change u ∈ Function.update b.chain (tbs t).bucket (t :: b.chain (tbs t).bucket) i ↔
    (u = t ∨ b.live u) ∧ (tbs u).bucket = i
  by_cases hi : i = (tbs t).bucket
  · rw [hi, Function.update_self, List.mem_cons, h.mem]
    constructor
    · rintro (rfl | ⟨hu, hbucket⟩)
      · exact ⟨.inl rfl, rfl⟩
      · exact ⟨.inr hu, hbucket⟩
    · rintro ⟨rfl | hu, hbucket⟩
      · exact .inl rfl
      · exact .inr ⟨hu, hbucket⟩
  · rw [Function.update_of_ne hi, h.mem]
    constructor
    · exact fun hu => ⟨.inr hu.1, hu.2⟩
    · rintro ⟨rfl | hu, hbucket⟩
      · exact absurd hbucket.symm hi
      · exact ⟨hu, hbucket⟩

theorem CacheOk.add {cache : BitVec 32 → Option TbId} {phys : Nat → Option Nat}
    (h : CacheOk tbs cache phys b) (tb : TranslationBlock) :
    CacheOk tbs cache phys (b.add t tb) := fun i u hu => ⟨.inr (h i u hu).1, (h i u hu).2⟩

theorem FreshOk.add {ram : Nat → BitVec 8} (h : FreshOk tbs ram b)
    (ht : ∀ i < (tbs t).size, (tbs t).code[i]? = some (ram ((tbs t).byteAddr i)))
    (tb : TranslationBlock) : FreshOk tbs ram (b.add t tb) := by
  rintro u (rfl | hu)
  · exact ht
  · exact h u hu

theorem GuardOk.push {tbs : TbId → TranslationBlock} {dirty : Nat → BitVec 8}
    {phys : Nat → Option Nat} {direct : Nat → Bool} {bitmap : Nat → Option (Nat → BitVec 8)}
    (h : GuardOk tbs dirty phys direct bitmap b) {p : Nat} {first : Option (TbId × Nat)}
    (hfirst : first = none ↔ b.page p = []) (a : TbId × Nat) :
    GuardOk tbs
      (if first = none then Function.update dirty p (dirty p &&& ~~~codeDirtyFlag) else dirty)
      phys (if first = none then fun v => direct v && !decide (phys v = some p) else direct)
      (Function.update bitmap p none)
      { b with page := Function.update b.page p (a :: b.page p) } := by
  have hbits : ∀ d : BitVec 8, (d &&& ~~~codeDirtyFlag) &&& codeDirtyFlag = 0 := by decide
  have hpage : ∀ {q}, q ≠ p → Function.update b.page p (a :: b.page p) q ≠ [] → b.page q ≠ [] := by
    intro q hq hne
    rwa [Function.update_of_ne hq] at hne
  refine ⟨fun {q} hq => ?_, fun {q v} hq hv => ?_, fun {q tab} htab c hc => ?_⟩
  · by_cases hqp : q = p
    · subst hqp
      split
      · rw [Function.update_self]
        exact hbits _
      · next halone => exact h.clean fun hnil => halone (hfirst.mpr hnil)
    · have hclean := h.clean (hpage hqp hq)
      split
      · rw [Function.update_of_ne hqp]
        exact hclean
      · exact hclean
  · by_cases hqp : q = p
    · subst hqp
      split
      · simp [hv]
      · next halone => exact h.tested (fun hnil => halone (hfirst.mpr hnil)) hv
    · have htested := h.tested (hpage hqp hq) hv
      split
      · simp [htested]
      · exact htested
  · by_cases hqp : q = p
    · rw [hqp, Function.update_self] at htab
      cases htab
    · rw [Function.update_of_ne hqp] at htab
      change c ∈ Function.update b.page p (a :: b.page p) q at hc
      rw [Function.update_of_ne hqp] at hc
      exact h.shown htab c hc

theorem mem_page_add {p : Nat} {a : TbId × Nat} (hmem : ∀ {a p}, a ∈ b.page p ↔
      b.live a.1 ∧ (tbs a.1).pageAddr a.2 = some p) (ht : ¬b.live t)
    (happart : (tbs t).page1 ≠ some (tbs t).page0) :
    a ∈ (b.add t (tbs t)).page p ↔ (a.1 = t ∨ b.live a.1) ∧ (tbs a.1).pageAddr a.2 = some p := by
  have hnode : ∀ {a : TbId × Nat}, a.1 = t → ((tbs a.1).pageAddr a.2 = some p ↔
      a = (t, 0) ∧ p = (tbs t).page0 ∨ a = (t, 1) ∧ (tbs t).page1 = some p) := by
    rintro ⟨u, n⟩ rfl
    by_cases hzero : n = 0
    · simp [TranslationBlock.pageAddr, hzero, eq_comm]
    · by_cases hone : n = 1
      · simp [TranslationBlock.pageAddr, hone]
      · simp [TranslationBlock.pageAddr, hzero, hone]
  have hfirst : a ∈ Function.update b.page (tbs t).page0 ((t, 0) :: b.page (tbs t).page0) p ↔
      a = (t, 0) ∧ p = (tbs t).page0 ∨ b.live a.1 ∧ (tbs a.1).pageAddr a.2 = some p := by
    rw [← hmem]
    by_cases hp : p = (tbs t).page0
    · rw [hp, Function.update_self, List.mem_cons]
      simp
    · rw [Function.update_of_ne hp]
      simp [hp]
  have hall : a ∈ (b.add t (tbs t)).page p ↔ (a = (t, 0) ∧ p = (tbs t).page0 ∨
      a = (t, 1) ∧ (tbs t).page1 = some p) ∨ b.live a.1 ∧ (tbs a.1).pageAddr a.2 = some p := by
    unfold Books.add
    cases hsecond : (tbs t).page1 with
    | none =>
      simp only
      rw [hfirst]
      simp
    | some q =>
      simp only
      by_cases hq : p = q
      · subst hq
        rw [Function.update_self, List.mem_cons, hfirst]
        have hne : p ≠ (tbs t).page0 := fun heq => happart (heq ▸ hsecond)
        simp [hne]
      · rw [Function.update_of_ne hq, hfirst]
        have hne : q ≠ p := Ne.symm hq
        simp [hne]
  rw [hall]
  constructor
  · rintro (hnew | ⟨hlive, haddr⟩)
    · have hat : a.1 = t := by
        rcases hnew with ⟨rfl, -⟩ | ⟨rfl, -⟩ <;> rfl
      exact ⟨.inl hat, (hnode hat).mpr hnew⟩
    · exact ⟨.inr hlive, haddr⟩
  · rintro ⟨hat | hlive, haddr⟩
    · exact .inl ((hnode hat).mp haddr)
    · exact .inr ⟨hlive, haddr⟩

theorem JumpsOk.add {jmp : TbId × Nat → Option (TbId × Nat)} {jmpTarget : TbId × Nat → Nat}
    (h : JumpsOk tbs nb jmp jmpTarget b) (hlive : ∀ {u}, b.live u → Linked tbs nb u)
    {tbs' : TbId → TranslationBlock} {nb' : Nat} (ht : ¬Linked tbs nb t)
    (hlinked : ∀ u, Linked tbs' nb' u → u = t ∨ Linked tbs nb u) (ht' : Linked tbs' nb' t)
    (heq : ∀ u, Linked tbs nb u → Linked tbs' nb' u ∧ tbs' u = tbs u)
    {jmp' : TbId × Nat → Option (TbId × Nat)} {jmpTarget' : TbId × Nat → Nat}
    (hhead : jmp' (t, 2) = some (t, 2)) (hnone : ∀ n < 2, jmp' (t, n) = none)
    (hjmp : ∀ a, a.1 ≠ t → jmp' a = jmp a)
    (htarget : ∀ n < 2, (tbs' t).tbNextOffset n ≠ noOffset →
      jmpTarget' (t, n) = (tbs' t).stub n)
    (htargets : ∀ a, a.1 ≠ t → jmpTarget' a = jmpTarget a) :
    JumpsOk tbs' nb' jmp' jmpTarget' (b.add t (tbs' t)) := by
  have hne : ∀ {u}, Linked tbs nb u → u ≠ t := fun hu heq => ht (heq ▸ hu)
  have hold : ∀ {u}, b.live u → Function.update b.ring t [] u = b.ring u := fun hu =>
    Function.update_of_ne (hne (hlive hu)) _ _
  refine ⟨h.rings.extend (fun hlt => ht (hlive hlt)) hhead fun u hu a ha => hjmp a ?_,
    fun {u a} hu ha => ?_, fun {a} ha htag hout => ?_⟩
  · rcases List.mem_cons.mp ha with rfl | ha
    · exact hne (hlive hu)
    · exact hne (h.mem hu ha).2.1
  · rcases hu with rfl | hu
    · rw [show (b.add u (tbs' u)).ring u = [] from Function.update_self _ _ _] at ha
      cases ha
    · rw [show (b.add t (tbs' t)).ring u = b.ring u from hold hu] at ha
      obtain ⟨htag, hlink, hchained⟩ := h.mem hu ha
      have huu := (heq u (hlive hu)).2
      have haa := (heq a.1 hlink).2
      refine ⟨htag, (heq a.1 hlink).1, ?_⟩
      exact ⟨by rw [htargets a (hne hlink), huu, hchained.target], huu ▸ hchained.single,
        huu ▸ haa ▸ hchained.key, huu ▸ haa ▸ hchained.page, haa ▸ hchained.exit⟩
  · rcases hlinked a.1 ha with hat | hlink
    · obtain ⟨u, n⟩ := a
      subst hat
      exact ⟨hnone n htag, fun _ hexit => htarget n htag hexit⟩
    · have hout' : ∀ u, b.live u → a ∉ b.ring u := fun u hu hmem => hout u (.inr hu) (by
        rw [show (b.add t (tbs' t)).ring u = b.ring u from hold hu]
        exact hmem)
      obtain ⟨hanone, hatarget⟩ := h.loose hlink htag hout'
      rw [hjmp a (hne hlink), htargets a (hne hlink), (heq a.1 hlink).2]
      refine ⟨hanone, fun hu hexit => hatarget ?_ hexit⟩
      exact hu.resolve_left (hne hlink)

theorem BlocksOk.add {ptr ptr' : Nat} (h : BlocksOk cfg tbs nb ptr) (ht : t + 1 = nb)
    (hcode : (tbs t).code = []) {tb : TranslationBlock} (hformed : tb.Formed)
    (htcPtr : tb.tcPtr = (tbs t).tcPtr) (hend : tb.tcPtr + tb.tcSize ≤ ptr') (hle : ptr ≤ ptr')
    (hroom : ptr' ≤ cfg.codeGenBufferSize) : BlocksOk cfg (Function.update tbs t tb) nb ptr' := by
  have hptr : ∀ u, (Function.update tbs t tb u).tcPtr = (tbs u).tcPtr := by
    intro u
    by_cases hu : u = t
    · rw [hu, Function.update_self, htcPtr]
    · rw [Function.update_of_ne hu]
  have hold : ∀ {u}, u ≠ t → Linked (Function.update tbs t tb) nb u →
      Linked tbs nb u ∧ Function.update tbs t tb u = tbs u := by
    intro u hut hu
    have heq : Function.update tbs t tb u = tbs u := Function.update_of_ne hut _ _
    exact ⟨⟨hu.1, heq ▸ hu.2⟩, heq⟩
  refine ⟨fun {u} hu => ?_, fun {i j} hij hj => ?_, fun {i j} hi hij hj => ?_, fun {i} hi => ?_,
    fun {i} hi => ?_, hroom⟩
  · by_cases hut : u = t
    · rw [hut, Function.update_self]
      exact hformed
    · rw [(hold hut hu).2]
      exact h.formed (hold hut hu).1
  · rw [hptr, hptr]
    exact h.le hij hj
  · have hit : i ≠ t := by
      rintro rfl
      exact absurd hj (Nat.not_lt.mpr (ht ▸ hij))
    rw [hptr, hptr, (hold hit hi).2]
    exact h.lt (hold hit hi).1 hij hj
  · rw [hptr]
    exact (h.le_ptr hi).trans hle
  · by_cases hit : i = t
    · rw [hit, Function.update_self]
      exact hend
    · rw [(hold hit hi).2]
      exact (h.lt_ptr (hold hit hi).1).trans hle

end Add

namespace ExecState

variable {cfg : Config} {s : ExecState} {b : Books}

section Flush

theorem tbFlush_eq (h : Core cfg s b) (hcurrent : s.currentTb = none) :
    ∃ s', s.tbFlush cfg = some s' ∧ Core cfg s' Books.nil ∧ Used s' Books.nil ∧
      s'.nbTbs = 0 ∧ s'.codeGenPtr = 0 ∧ s'.currentTb = none ∧ s'.ram = s.ram ∧
      s'.phys = s.phys := by
  have hroom : ¬cfg.codeGenBufferSize < s.codeGenPtr := Nat.not_lt.mpr h.blocks.room
  have hnone : ∀ {t}, ¬Linked s.tbs 0 t := fun ht => Nat.not_lt_zero _ ht.1
  refine ⟨_, if_neg hroom, ⟨⟨fun ht => absurd ht hnone, fun _ hj => absurd hj (Nat.not_lt_zero _),
      fun ht => absurd ht hnone, fun hi => absurd hi (Nat.not_lt_zero _),
      fun ht => absurd ht hnone, Nat.zero_le _⟩, fun ht => ht.elim,
      ⟨chains_nil _, fun {t i} => ?_⟩, ⟨chains_nil _, fun {a p} => ?_, fun ht => ht.elim⟩,
      ⟨⟨fun _ hi => hi.elim, fun _ hi => hi.elim, fun hi => hi.elim, fun hi => hi.elim⟩,
        fun ht => ht.elim, fun ha => absurd ha hnone⟩, fun i t ht => ?_,
      ⟨fun hp => absurd rfl hp, fun hp => absurd rfl hp, fun htab => ?_⟩, fun ht => ?_⟩,
    fun p tab htab => ?_, rfl, rfl, hcurrent, rfl, rfl⟩
  · simp [Books.nil]
  · simp [Books.nil]
  · cases ht
  · cases htab
  · exact absurd (hcurrent.symm.trans ht) (Option.some_ne_none _).symm
  · cases htab

end Flush

section Alloc

variable {key : Key} {cflags : Nat}

theorem tbAlloc_core (h : Core cfg s b) (tb : TranslationBlock) (hcode : tb.code = [])
    (hptr : tb.tcPtr = s.codeGenPtr) :
    Core cfg { s with nbTbs := s.nbTbs + 1, tbs := Function.update s.tbs s.nbTbs tb } b ∧
      ∀ t, Linked s.tbs s.nbTbs t → Linked (Function.update s.tbs s.nbTbs tb) (s.nbTbs + 1) t ∧
        Function.update s.tbs s.nbTbs tb t = s.tbs t := by
  have hold : ∀ {t}, t < s.nbTbs → Function.update s.tbs s.nbTbs tb t = s.tbs t := fun ht =>
    Function.update_of_ne (Nat.ne_of_lt ht) _ _
  have hlinked : ∀ t, Linked (Function.update s.tbs s.nbTbs tb) (s.nbTbs + 1) t ↔
      Linked s.tbs s.nbTbs t := by
    intro t
    constructor
    · rintro ⟨hlt, hne⟩
      rcases Nat.lt_succ_iff_lt_or_eq.mp hlt with hlt | rfl
      · rw [hold hlt] at hne
        exact ⟨hlt, hne⟩
      · rw [Function.update_self] at hne
        exact absurd hcode hne
    · rintro ⟨hlt, hne⟩
      rw [← hold hlt] at hne
      exact ⟨Nat.lt_succ_of_lt hlt, hne⟩
  have heq : ∀ t, b.live t → Function.update s.tbs s.nbTbs tb t = s.tbs t := fun t ht =>
    hold (h.linked ht).1
  refine ⟨⟨⟨fun {t} ht => ?_, fun {i j} hij hj => ?_, fun {i j} hi hij hj => ?_, fun {i} hi => ?_,
    fun {i} hi => ?_, h.blocks.room⟩, fun ht => (hlinked _).mpr (h.linked ht), h.hash.congr heq,
    h.pages.congr heq, h.jumps.congr (fun t ht => h.linked ht) hlinked fun t ht => hold ht.1,
    h.cache.congr heq, h.guard.congr fun p a ha => ?_, fun ht => (hlinked _).mpr (h.current ht)⟩,
    fun t ht => ⟨(hlinked t).mpr ht, hold ht.1⟩⟩
  · have ht' := (hlinked t).mp ht
    change (Function.update s.tbs s.nbTbs tb t).Formed
    rw [hold ht'.1]
    exact h.blocks.formed ht'
  · change (Function.update s.tbs s.nbTbs tb i).tcPtr ≤ (Function.update s.tbs s.nbTbs tb j).tcPtr
    rcases Nat.lt_succ_iff_lt_or_eq.mp hj with hj | rfl
    · rw [hold (hij.trans hj), hold hj]
      exact h.blocks.le hij hj
    · rw [hold hij, Function.update_self, hptr]
      exact h.blocks.le_ptr hij
  · have hi' := (hlinked i).mp hi
    change (Function.update s.tbs s.nbTbs tb i).tcPtr + (Function.update s.tbs s.nbTbs tb i).tcSize ≤
      (Function.update s.tbs s.nbTbs tb j).tcPtr
    rcases Nat.lt_succ_iff_lt_or_eq.mp hj with hj | rfl
    · rw [hold hi'.1, hold hj]
      exact h.blocks.lt hi' hij hj
    · rw [hold hij, Function.update_self, hptr]
      exact h.blocks.lt_ptr hi'
  · change (Function.update s.tbs s.nbTbs tb i).tcPtr ≤ s.codeGenPtr
    rcases Nat.lt_succ_iff_lt_or_eq.mp hi with hi | rfl
    · rw [hold hi]
      exact h.blocks.le_ptr hi
    · rw [Function.update_self, hptr]
  · have hi' := (hlinked i).mp hi
    change (Function.update s.tbs s.nbTbs tb i).tcPtr + (Function.update s.tbs s.nbTbs tb i).tcSize ≤
      s.codeGenPtr
    rw [hold hi'.1]
    exact h.blocks.lt_ptr hi'
  · change (Function.update s.tbs s.nbTbs tb a.1).tbStart a.2 = (s.tbs a.1).tbStart a.2 ∧
      (Function.update s.tbs s.nbTbs tb a.1).tbEnd a.2 = (s.tbs a.1).tbEnd a.2
    rw [heq a.1 (h.pages.mem.mp ha).1]
    exact ⟨rfl, rfl⟩

end Alloc

section Link

variable {t : TbId} {n p : Nat}

theorem tbAllocPage_eq (s : ExecState) (t : TbId) (n p : Nat) :
    s.tbAllocPage t n p = { s with
      tbs := Function.update s.tbs t (setPageAddr (s.tbs t) n p)
      l1Map := Function.update s.l1Map (p / 1024) true
      pages := s.pages.push p (t, n)
      codeBitmap := Function.update s.codeBitmap p none
      codeWriteCount := Function.update s.codeWriteCount p 0
      physRamDirty := if s.pages.first p = none then
        Function.update s.physRamDirty p (s.physRamDirty p &&& ~~~codeDirtyFlag)
        else s.physRamDirty
      direct := if s.pages.first p = none then
        fun v => s.direct v && !decide (s.phys v = some p) else s.direct } := by
  unfold tbAllocPage
  by_cases halone : s.pages.first p = none
  · simp only [if_pos halone]
    rfl
  · simp only [if_neg halone]
    rfl

theorem initJump_eq (s : ExecState) (t : TbId) (n : Nat) :
    (if (s.tbs t).tbNextOffset n = noOffset then s else s.tbResetJump t n) = { s with
      jmpTarget := fun a => if a = (t, n) ∧ (s.tbs t).tbNextOffset n ≠ noOffset then
        (s.tbs t).stub n else s.jmpTarget a } := by
  by_cases hexit : (s.tbs t).tbNextOffset n = noOffset
  · have htargets : (fun a => if a = (t, n) ∧ (s.tbs t).tbNextOffset n ≠ noOffset then
        (s.tbs t).stub n else s.jmpTarget a) = s.jmpTarget :=
      funext fun a => if_neg fun hif => hif.2 hexit
    rw [if_pos hexit, htargets]
  · rw [if_neg hexit, tbResetJump]
    congr 1
    funext a
    by_cases ha : a = (t, n)
    · rw [ha, Function.update_self, if_pos ⟨rfl, hexit⟩]
    · rw [Function.update_of_ne ha, if_neg fun hif => ha hif.1]

theorem initJumps_eq (s : ExecState) (t : TbId) :
    s.initJumps t = { s with
      jmp := Function.update (Function.update (Function.update s.jmp (t, 2) (some (t, 2)))
        (t, 0) none) (t, 1) none
      jmpTarget := fun a =>
        if a.1 = t ∧ a.2 < 2 ∧ (s.tbs t).tbNextOffset a.2 ≠ noOffset then (s.tbs t).stub a.2
        else s.jmpTarget a } := by
  have h0 := initJump_eq { s with
    jmp := Function.update (Function.update (Function.update s.jmp (t, 2) (some (t, 2)))
      (t, 0) none) (t, 1) none } t 0
  refine (congrArg (fun s : ExecState =>
    if (s.tbs t).tbNextOffset 1 = noOffset then s else s.tbResetJump t 1) h0).trans
      ((initJump_eq _ t 1).trans ?_)
  congr 1
  funext a
  obtain ⟨u, n⟩ := a
  by_cases hu : u = t
  · subst hu
    match n with
    | 0 => simp
    | 1 => simp
    | n + 2 => simp
  · simp [hu]

theorem tbAllocPage_guard (hchains : Chains s.pages.next s.pages.first b.page)
    (hguard : GuardOk s.tbs s.physRamDirty s.phys s.direct s.codeBitmap b)
    (hout : ∀ q, (t, n) ∉ b.page q) :
    Chains (s.tbAllocPage t n p).pages.next (s.tbAllocPage t n p).pages.first
        (Function.update b.page p ((t, n) :: b.page p)) ∧
      GuardOk (s.tbAllocPage t n p).tbs (s.tbAllocPage t n p).physRamDirty s.phys
        (s.tbAllocPage t n p).direct (s.tbAllocPage t n p).codeBitmap
        { b with page := Function.update b.page p ((t, n) :: b.page p) } := by
  have hfirst : s.pages.first p = none ↔ b.page p = [] := by
    rw [(hchains.chain p).head?_eq, List.head?_eq_none_iff]
  rw [tbAllocPage_eq]
  refine ⟨hchains.push hout p, (hguard.push hfirst (t, n)).congr fun q a _ => ?_⟩
  change (Function.update s.tbs t (setPageAddr (s.tbs t) n p) a.1).tbStart a.2 =
      (s.tbs a.1).tbStart a.2 ∧
    (Function.update s.tbs t (setPageAddr (s.tbs t) n p) a.1).tbEnd a.2 = (s.tbs a.1).tbEnd a.2
  by_cases hat : a.1 = t
  · rw [hat, Function.update_self]
    unfold setPageAddr
    split <;> exact ⟨rfl, rfl⟩
  · rw [Function.update_of_ne hat]
    exact ⟨rfl, rfl⟩

theorem linkPages_eq {page2 : Option Nat} (hchains : Chains s.pages.next s.pages.first b.page)
    (hguard : GuardOk s.tbs s.physRamDirty s.phys s.direct s.codeBitmap b)
    (hout : ∀ q n, (t, n) ∉ b.page q) {tb : TranslationBlock}
    (htb : tb = { s.tbs t with page0 := p, page1 := page2 }) :
    ∃ l1Map pages bitmap count dirty direct,
      s.tbAllocPages t p page2 =
        { s with
          tbs := Function.update s.tbs t tb
          l1Map, pages, codeBitmap := bitmap, codeWriteCount := count, physRamDirty := dirty
          direct } ∧
      Chains pages.next pages.first (b.add t tb).page ∧
      GuardOk (Function.update s.tbs t tb) dirty s.phys direct bitmap (b.add t tb) ∧
      (∀ {q tab}, bitmap q = some tab → s.codeBitmap q = some tab) ∧
      ∀ q, (s.l1Map q = true ∨ ∃ n r, tb.pageAddr n = some r ∧ q = r / 1024) → l1Map q = true := by
  subst htb
  obtain ⟨hchains0, hguard0⟩ := tbAllocPage_guard (n := 0) (p := p) hchains hguard fun q => hout q 0
  have hbitmap : ∀ {bitmap : Nat → Option (Nat → BitVec 8)} {q r tab},
      Function.update bitmap r none q = some tab → bitmap q = some tab := by
    intro bitmap q r tab htab
    by_cases hq : q = r
    · rw [hq, Function.update_self] at htab
      cases htab
    · rwa [Function.update_of_ne hq] at htab
  have hl1 : ∀ {l1Map : Nat → Bool} {q r}, l1Map q = true ∨ q = r →
      Function.update l1Map r true q = true := by
    intro l1Map q r hq
    by_cases hqr : q = r
    · rw [hqr, Function.update_self]
    · rw [Function.update_of_ne hqr]
      exact hq.resolve_right hqr
  cases page2 with
  | none =>
    rw [tbAllocPages]
    rw [tbAllocPage_eq] at hchains0 hguard0 ⊢
    have htbs : Function.update (Function.update s.tbs t (setPageAddr (s.tbs t) 0 p)) t
        { Function.update s.tbs t (setPageAddr (s.tbs t) 0 p) t with page1 := none } =
          Function.update s.tbs t { s.tbs t with page0 := p, page1 := none } := by
      rw [Function.update_idem, Function.update_self]
      rfl
    refine ⟨_, _, _, _, _, _, congrArg (fun tbs => { s with
        tbs
        l1Map := Function.update s.l1Map (p / 1024) true
        pages := s.pages.push p (t, 0)
        codeBitmap := Function.update s.codeBitmap p none
        codeWriteCount := Function.update s.codeWriteCount p 0
        physRamDirty := if s.pages.first p = none then
          Function.update s.physRamDirty p (s.physRamDirty p &&& ~~~codeDirtyFlag)
          else s.physRamDirty
        direct := if s.pages.first p = none then
          fun v => s.direct v && !decide (s.phys v = some p) else s.direct }) htbs,
      hchains0, ?_, fun htab => hbitmap htab, fun q hq => hl1 ?_⟩
    · refine ⟨hguard0.clean, hguard0.tested, (hguard0.congr fun q a _ => ?_).shown⟩
      change (Function.update s.tbs t _ a.1).tbStart a.2 =
          (Function.update s.tbs t _ a.1).tbStart a.2 ∧
        (Function.update s.tbs t _ a.1).tbEnd a.2 = (Function.update s.tbs t _ a.1).tbEnd a.2
      by_cases hat : a.1 = t
      · rw [hat, Function.update_self, Function.update_self]
        exact ⟨rfl, rfl⟩
      · rw [Function.update_of_ne hat, Function.update_of_ne hat]
        exact ⟨rfl, rfl⟩
    · refine hq.imp_right ?_
      rintro ⟨n, r, haddr, rfl⟩
      have htag := pageAddr_lt haddr
      rcases Nat.lt_succ_iff_lt_or_eq.mp htag with hzero | rfl
      · rw [Nat.lt_one_iff.mp hzero] at haddr
        rw [← Option.some.inj haddr]
      · cases haddr
  | some r =>
    rw [tbAllocPages]
    have hout1 : ∀ q, (t, 1) ∉ Function.update b.page p ((t, 0) :: b.page p) q := by
      intro q hmem
      by_cases hq : q = p
      · rw [hq, Function.update_self, List.mem_cons] at hmem
        rcases hmem with heq | hmem
        · exact absurd (congrArg Prod.snd heq) Nat.one_ne_zero
        · exact hout p 1 hmem
      · rw [Function.update_of_ne hq] at hmem
        exact hout q 1 hmem
    obtain ⟨hchains1, hguard1⟩ := tbAllocPage_guard (s := s.tbAllocPage t 0 p) (n := 1) (p := r)
      (b := { b with page := Function.update b.page p ((t, 0) :: b.page p) }) hchains0
      (by rw [tbAllocPage_eq] at hguard0 ⊢; exact hguard0) hout1
    rw [tbAllocPage_eq (s.tbAllocPage t 0 p)] at hchains1 hguard1 ⊢
    rw [tbAllocPage_eq s] at hchains1 hguard1 ⊢
    have htbs : Function.update (Function.update s.tbs t (setPageAddr (s.tbs t) 0 p)) t
        (setPageAddr (Function.update s.tbs t (setPageAddr (s.tbs t) 0 p) t) 1 r) =
          Function.update s.tbs t { s.tbs t with page0 := p, page1 := some r } := by
      rw [Function.update_idem, Function.update_self]
      rfl
    simp only [htbs] at hguard1 ⊢
    refine ⟨_, _, _, _, _, _, rfl, hchains1, ⟨hguard1.clean, hguard1.tested, hguard1.shown⟩,
      fun htab => hbitmap (hbitmap htab), fun q hq => hl1 (Or.imp_left hl1 ?_)⟩
    rcases hq with hq | ⟨n, r', haddr, rfl⟩
    · exact .inl (.inl hq)
    · have htag := pageAddr_lt haddr
      rcases Nat.lt_succ_iff_lt_or_eq.mp htag with hzero | rfl
      · rw [Nat.lt_one_iff.mp hzero] at haddr
        rw [← Option.some.inj haddr]
        exact .inl (.inr rfl)
      · rw [← Option.some.inj haddr]
        exact .inr rfl

theorem tbLinkPhys_core (h : Core cfg s b) (ht : t + 1 = s.nbTbs) (hcode : (s.tbs t).code = [])
    (hptr : (s.tbs t).tcPtr = s.codeGenPtr) {code : List (BitVec 8)} {gen : Generated}
    {page2 : Option Nat} {tb : TranslationBlock}
    (htb : tb = { s.tbs t with
      size := gen.size, tbNextOffset := gen.tbNextOffset, code, tcSize := gen.codeSize
      dest := gen.dest, page0 := p, page1 := page2 })
    (hformed : tb.Formed)
    (hroom : (s.codeGenPtr + gen.codeSize + codeGenAlign - 1) / codeGenAlign * codeGenAlign ≤
      cfg.codeGenBufferSize) :
    ∃ s', (s.cpuGenCode t code gen).tbLinkPhys t p page2 = s' ∧ Core cfg s' (b.add t tb) ∧
      (Used s b → Used s' (b.add t tb)) ∧ s'.tbs = Function.update s.tbs t tb ∧
      s'.nbTbs = s.nbTbs ∧ s'.ram = s.ram ∧ s'.phys = s.phys ∧ s'.currentTb = s.currentTb ∧
      s'.tbInvalidatedFlag = s.tbInvalidatedFlag := by
  have hnew : ¬Linked s.tbs s.nbTbs t := fun hlink => hlink.2 hcode
  have hout : ¬b.live t := fun hlive => hnew (h.linked hlive)
  have hself : Function.update s.tbs t tb t = tb := Function.update_self _ _ _
  have hold : ∀ {u}, u ≠ t → Function.update s.tbs t tb u = s.tbs u := fun hu =>
    Function.update_of_ne hu _ _
  have hne : ∀ {u}, Linked s.tbs s.nbTbs u → u ≠ t := fun hu heq => hnew (heq ▸ hu)
  have hheld : ∀ u, b.live u → Function.update s.tbs t tb u = s.tbs u := fun u hu =>
    hold (hne (h.linked hu))
  have hcode' : tb.code ≠ [] := by
    intro hnil
    have hlength := hformed.length
    rw [hnil] at hlength
    exact absurd hformed.size_pos (hlength ▸ Nat.lt_irrefl 0)
  have hlinkt : Linked (Function.update s.tbs t tb) s.nbTbs t :=
    ⟨ht ▸ Nat.lt_succ_self t, by rw [hself]; exact hcode'⟩
  have hlink : ∀ u, Linked s.tbs s.nbTbs u → Linked (Function.update s.tbs t tb) s.nbTbs u ∧
      Function.update s.tbs t tb u = s.tbs u := by
    intro u hu
    exact ⟨⟨hu.1, by rw [hold (hne hu)]; exact hu.2⟩, hold (hne hu)⟩
  have hlinked : ∀ u, Linked (Function.update s.tbs t tb) s.nbTbs u →
      u = t ∨ Linked s.tbs s.nbTbs u := by
    intro u hu
    by_cases hut : u = t
    · exact .inl hut
    · refine .inr ⟨hu.1, ?_⟩
      rw [← hold hut]
      exact hu.2
  have hpaged : tb = { (s.cpuGenCode t code gen).tbs t with page0 := p, page1 := page2 } := by
    rw [htb]
    change _ = ({ Function.update s.tbs t _ t with page0 := p, page1 := page2 } :
      TranslationBlock)
    rw [Function.update_self]
  -- the state behind each part of the work
  obtain ⟨l1Map, pages, bitmap, count, dirty, direct, hpages, hchains, hguard, hbitmap, hl1⟩ :=
    linkPages_eq (s := { s.cpuGenCode t code gen with
      hash := s.hash.push (tb.physPc % codeGenPhysHashSize) t }) (t := t) (p := p)
      h.pages.chains (h.guard.congr fun q a ha => by
        have hat : a.1 ≠ t := hne (h.linked (h.pages.mem.mp ha).1)
        change (Function.update s.tbs t _ a.1).tbStart a.2 = _ ∧
          (Function.update s.tbs t _ a.1).tbEnd a.2 = _
        rw [Function.update_of_ne hat]
        exact ⟨rfl, rfl⟩)
      (fun q n hmem => hout (h.pages.mem.mp hmem).1) hpaged
  have hphys : (p * targetPageSize +
      pageOffset ((s.cpuGenCode t code gen).tbs t).key.pc) % codeGenPhysHashSize =
        tb.physPc % codeGenPhysHashSize := by
    change (p * targetPageSize + pageOffset (Function.update s.tbs t _ t).key.pc) % _ = _
    rw [Function.update_self, htb]
    rfl
  have htbs : Function.update (s.cpuGenCode t code gen).tbs t tb = Function.update s.tbs t tb :=
    Function.update_idem _ _ _
  have hself' : Function.update (s.cpuGenCode t code gen).tbs t tb t = tb :=
    Function.update_self _ _ _
  have heq : (s.cpuGenCode t code gen).tbLinkPhys t p page2 = { s.cpuGenCode t code gen with
      tbs := Function.update s.tbs t tb
      hash := s.hash.push tb.bucket t
      l1Map, pages, codeBitmap := bitmap, codeWriteCount := count, physRamDirty := dirty, direct
      jmp := Function.update (Function.update (Function.update s.jmp (t, 2) (some (t, 2)))
        (t, 0) none) (t, 1) none
      jmpTarget := fun a =>
        if a.1 = t ∧ a.2 < 2 ∧ tb.tbNextOffset a.2 ≠ noOffset then tb.stub a.2
        else s.jmpTarget a } := by
    rw [tbLinkPhys, hphys]
    refine (congrArg (fun s : ExecState => s.initJumps t) hpages).trans
      ((initJumps_eq _ t).trans ?_)
    simp only [htbs, hself]
    rfl
  have hguard' : GuardOk (Function.update s.tbs t tb) dirty s.phys direct bitmap (b.add t tb) :=
    htbs ▸ hguard
  have halign : s.codeGenPtr + gen.codeSize ≤
      (s.codeGenPtr + gen.codeSize + codeGenAlign - 1) / codeGenAlign * codeGenAlign := by
    simp only [codeGenAlign]
    omega
  have hblocks := h.blocks.add ht hcode hformed (by rw [htb]) (by rw [htb]; exact hptr ▸ halign)
    ((Nat.le_add_right _ _).trans halign) hroom
  have hhash := HashOk.add (h.hash.congr hheld) hout
  rw [hself] at hhash
  have hjumps : JumpsOk (Function.update s.tbs t tb) s.nbTbs
      (Function.update (Function.update (Function.update s.jmp (t, 2) (some (t, 2)))
        (t, 0) none) (t, 1) none)
      (fun a =>
        if a.1 = t ∧ a.2 < 2 ∧ tb.tbNextOffset a.2 ≠ noOffset then tb.stub a.2
        else s.jmpTarget a) (b.add t (Function.update s.tbs t tb t)) :=
    JumpsOk.add h.jumps h.linked hnew hlinked hlinkt hlink (by simp) (fun n hn => by
      rcases Nat.lt_succ_iff_lt_or_eq.mp hn with hzero | rfl
      · rw [Nat.lt_one_iff.mp hzero]
        simp
      · simp) (fun a ha => by
      have hne : ∀ n, a ≠ (t, n) := fun n heq => ha (congrArg Prod.fst heq)
      rw [Function.update_of_ne (hne 1), Function.update_of_ne (hne 0),
        Function.update_of_ne (hne 2)])
    (fun n hn hexit => by
      rw [hself] at hexit ⊢
      exact if_pos ⟨rfl, hn, hexit⟩)
    fun a ha => if_neg fun hif => ha hif.1
  rw [hself] at hjumps
  refine ⟨_, heq, ⟨hblocks, fun {u} hu => ?_, hhash, ⟨hchains, fun {a q} => ?_,
    fun {u n q} hu hq => ?_⟩, hjumps, (h.cache.congr hheld).add tb, hguard',
    fun {u} hu => (hlink u (h.current hu)).1⟩, fun hused q tab htab => ?_, rfl, rfl, rfl, rfl, rfl,
    rfl⟩
  · rcases hu with rfl | hu
    · exact hlinkt
    · exact (hlink u (h.linked hu)).1
  · have hmem := mem_page_add (p := q) (a := a)
      (h.pages.congr hheld).mem hout (by rw [hself]; exact hformed.apart)
    rwa [hself] at hmem
  · have hq' : (Function.update s.tbs t tb u).pageAddr n = some q := hq
    rcases hu with rfl | hu
    · rw [hself] at hq'
      exact hl1 _ (.inr ⟨n, q, hq', rfl⟩)
    · rw [hheld u hu] at hq'
      exact hl1 _ (.inl (h.pages.allocated hu hq'))
  · obtain ⟨a, ha⟩ := List.exists_mem_of_ne_nil _ (hused q tab (hbitmap htab))
    have hmem := mem_page_add (p := q) (a := a)
      (h.pages.congr hheld).mem hout (by rw [hself]; exact hformed.apart)
    rw [hself] at hmem
    have hold' := (h.pages.congr hheld).mem.mp ha
    exact List.ne_nil_of_mem (hmem.mpr ⟨.inr hold'.1, hold'.2⟩)

end Link

end ExecState

end M2M.Exec
