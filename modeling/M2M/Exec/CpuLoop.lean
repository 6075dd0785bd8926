import M2M.Exec.JumpLists
import M2M.Exec.TbLookup

/-! The loop of the processor over any run of the guest and its devices: the code that runs was
made of what the guest has at its address. -/

open M2M.Lib M2M.Lib.Machine

namespace M2M.Exec

section Hash

variable {a c : BitVec 32}

theorem getLsbD_of_vpage (h : vpage a = vpage c) {k : Nat} (hk : 10 ≤ k) :
    a.getLsbD k = c.getLsbD k := by
  have hbit := congrArg (Nat.testBit · (k - 10)) h
  simp only [vpage, targetPageSize] at hbit
  rw [show 1024 = 2 ^ 10 from rfl, Nat.testBit_div_two_pow, Nat.testBit_div_two_pow,
    Nat.sub_add_cancel hk] at hbit
  exact hbit

theorem jmpCacheHashPage_congr (h : vpage a = vpage c) :
    jmpCacheHashPage a = jmpCacheHashPage c := by
  have hmask : ∀ i < 32, (0xfc0#32).getLsbD i = decide (6 ≤ i ∧ i < 12) := by decide
  refine BitVec.eq_of_getLsbD_eq fun i hi => ?_
  simp only [jmpCacheHashPage, BitVec.getLsbD_and, BitVec.getLsbD_ushiftRight,
    BitVec.getLsbD_xor, hmask i hi]
  by_cases hle : 6 ≤ i
  · rw [getLsbD_of_vpage h (by omega), getLsbD_of_vpage h (by omega)]
  · simp [hle]

theorem jmpCacheHash_page (pc : BitVec 32) :
    jmpCacheHash pc &&& ~~~0x3f#32 = jmpCacheHashPage pc := by
  have hmask : ∀ i < 32, (0xfc0#32).getLsbD i = decide (6 ≤ i ∧ i < 12) := by decide
  have hlow : ∀ i < 32, (0x3f#32).getLsbD i = decide (i < 6) := by decide
  refine BitVec.eq_of_getLsbD_eq fun i hi => ?_
  simp only [jmpCacheHash, jmpCacheHashPage, BitVec.getLsbD_and, BitVec.getLsbD_or,
    BitVec.getLsbD_not, hmask i hi, hlow i hi]
  by_cases hle : 6 ≤ i
  · simp [hi, Nat.not_lt.mpr hle]
  · simp [hi, hle, Nat.lt_of_not_le hle]

theorem vpage_sub_of_next (h : nextPage c = vpage a) : vpage c = vpage (a - 1024#32) := by
  have ha := a.isLt
  have hc := c.isLt
  simp only [vpage, nextPage, BitVec.toNat_add, BitVec.toNat_sub, BitVec.toNat_ofNat,
    targetPageSize] at *
  omega

theorem TranslationBlock.Mapped.update {tb : TranslationBlock} {phys : Nat → Option Nat}
    (h : tb.Mapped phys) {v : Nat} (hfirst : vpage tb.key.pc ≠ v) (hnext : nextPage tb.key.pc ≠ v)
    (p : Option Nat) : tb.Mapped (Function.update phys v p) := by
  refine ⟨?_, fun q hq => ?_⟩
  · rw [Function.update_of_ne hfirst]
    exact h.first
  · rw [Function.update_of_ne hnext]
    exact h.second q hq

end Hash

namespace ExecState

variable {cfg : Config} {s : ExecState} {b : Books}

section Mapping

theorem core_withCurrent (h : Core cfg s b) {currentTb : Option TbId}
    (hcurrent : ∀ t, currentTb = some t → Linked s.tbs s.nbTbs t) :
    Core cfg { s with currentTb } b :=
  ⟨h.blocks, h.linked, h.hash, h.pages, h.jumps, h.cache, h.guard, fun ht => hcurrent _ ht⟩

theorem returned_core (h : Core cfg s b) : Core cfg s.returned b :=
  core_withCurrent h fun t ht => absurd ht (Option.some_ne_none t).symm

theorem tlbFlushPage_eq (s : ExecState) (a : BitVec 32) (p : Option Nat) :
    s.tlbFlushPage a p =
      { s with
        tbJmpCache := fun i =>
          if i &&& ~~~0x3f#32 = jmpCacheHashPage a then none
          else if i &&& ~~~0x3f#32 = jmpCacheHashPage (a - 1024#32) then none
          else s.tbJmpCache i
        currentTb := none
        phys := Function.update s.phys (vpage a) p
        direct := Function.update s.direct (vpage a) false } := by
  simp only [tlbFlushPage, tlbFlushJmpCache, clearJmpCachePage]

theorem tlbFlushPage_core (h : Core cfg s b) (a : BitVec 32) (p : Option Nat) :
    Core cfg (s.tlbFlushPage a p) b := by
  rw [tlbFlushPage_eq]
  refine ⟨h.blocks, h.linked, h.hash, h.pages, h.jumps, fun i t ht => ?_,
    ⟨h.guard.clean, fun {q v} hq hv => ?_, h.guard.shown⟩,
    fun ht => absurd ht (Option.some_ne_none _).symm⟩
  · have ht' : (if i &&& ~~~0x3f#32 = jmpCacheHashPage a then none
        else if i &&& ~~~0x3f#32 = jmpCacheHashPage (a - 1024#32) then none
          else s.tbJmpCache i) = some t := ht
    split at ht'
    · cases ht'
    · next hpage =>
      split at ht'
      · cases ht'
      · next hbefore =>
        obtain ⟨hlive, hhash, hmapped⟩ := h.cache i t ht'
        rw [← hhash, jmpCacheHash_page] at hpage hbefore
        have hfirst : vpage (s.tbs t).key.pc ≠ vpage a := fun heq =>
          hpage (jmpCacheHashPage_congr heq)
        have hnext : nextPage (s.tbs t).key.pc ≠ vpage a := fun heq =>
          hbefore (jmpCacheHashPage_congr (vpage_sub_of_next heq))
        exact ⟨hlive, hhash, hmapped.update hfirst hnext p⟩
  · have hv' : Function.update s.phys (vpage a) p v = some q := hv
    change Function.update s.direct (vpage a) false v = false
    by_cases hva : v = vpage a
    · rw [hva, Function.update_self]
    · rw [Function.update_of_ne hva] at hv' ⊢
      exact h.guard.tested hq hv'

theorem tlbFlush_core (h : Core cfg s b) (phys : Nat → Option Nat) :
    Core cfg (s.tlbFlush phys) b :=
  ⟨h.blocks, h.linked, h.hash, h.pages, h.jumps,
    fun _ t ht => absurd ht (Option.some_ne_none t).symm,
    ⟨h.guard.clean, fun _ _ => rfl, h.guard.shown⟩,
    fun ht => absurd ht (Option.some_ne_none _).symm⟩

theorem tlbSetPage_core (h : Core cfg s b) (v : Nat) : Core cfg (s.tlbSetPage v) b := by
  unfold tlbSetPage
  cases hp : s.phys v with
  | none => exact h
  | some p =>
    refine ⟨h.blocks, h.linked, h.hash, h.pages, h.jumps, h.cache,
      ⟨h.guard.clean, fun {q w} hq hw => ?_, h.guard.shown⟩, h.current⟩
    change Function.update s.direct v (decide (s.physRamDirty p = 0xff)) w = false
    by_cases hwv : w = v
    · have hqp : q = p := Option.some.inj (hw.symm.trans (hwv ▸ hp))
      rw [hwv, Function.update_self, decide_eq_false_iff_not]
      intro hfull
      have hclean := h.guard.clean hq
      rw [hqp, hfull] at hclean
      exact absurd hclean (by decide)
    · rw [Function.update_of_ne hwv]
      exact h.guard.tested hq hw

theorem resetDirty_core (h : Core cfg s b) (p : Nat) (flags : BitVec 8) :
    Core cfg (s.resetDirty p flags) b := by
  have hbits : ∀ d f : BitVec 8, d &&& codeDirtyFlag = 0 → (d &&& f) &&& codeDirtyFlag = 0 := by
    intro d f hd
    rw [BitVec.and_assoc, BitVec.and_comm f, ← BitVec.and_assoc, hd]
    exact BitVec.zero_and
  refine ⟨h.blocks, h.linked, h.hash, h.pages, h.jumps, h.cache,
    ⟨fun {q} hq => ?_, fun {q v} hq hv => ?_, h.guard.shown⟩, h.current⟩
  · change Function.update s.physRamDirty p _ q &&& codeDirtyFlag = 0
    by_cases hqp : q = p
    · rw [hqp, Function.update_self]
      exact hbits _ _ (h.guard.clean (hqp ▸ hq))
    · rw [Function.update_of_ne hqp]
      exact h.guard.clean hq
  · change (s.direct v && !decide (s.phys v = some p)) = false
    rw [h.guard.tested hq hv, Bool.false_and]

end Mapping

section Exits

/-- Where the chained exits of the translated blocks lead. -/
def exits (s : ExecState) : Edges TbId := fun c =>
  if c.1 < s.nbTbs ∧ (s.tbs c.1).code ≠ [] ∧ c.2 < 2 then (s.jmp c).bind (s.jmpHead s.fuel)
  else none

theorem shows_exits (h : Core cfg s b) : Shows b s.exits := by
  have hon : ∀ c u, b.live u → c ∈ b.ring u → s.exits c = some u := by
    intro c u hu hc
    obtain ⟨htag, hlink, -⟩ := h.jumps.mem hu hc
    obtain ⟨front, back, hring⟩ := List.append_of_mem hc
    have hseg := h.jumps.rings.seg u hu
    have hlength := h.jumps.length_ring hu
    rw [hring, seg_cons_iff] at hseg
    rw [hring, List.length_append, List.length_cons] at hlength
    have htags : ∀ a ∈ back, a.2 ≠ 2 := fun a ha => Nat.ne_of_lt
      (h.jumps.mem hu (hring ▸ List.mem_append_right _ (List.mem_cons_of_mem _ ha))).1
    have hfuel : back.length < s.fuel := by
      unfold fuel
      omega
    obtain ⟨a, ha, hhead⟩ := jmpHead_eq hseg.2 htags hfuel
    rw [exits, if_pos ⟨hlink.1, hlink.2, htag⟩, ha, Option.bind_some, hhead]
  intro c u
  constructor
  · intro hc
    unfold exits at hc
    split at hc
    · next hlink =>
      by_contra hnot
      have hout : ∀ v, b.live v → c ∉ b.ring v := by
        intro v hv hmem
        have heq := hon c v hv hmem
        rw [exits, if_pos hlink, hc] at heq
        obtain rfl := Option.some.inj heq
        exact hnot ⟨hv, hmem⟩
      rw [(h.jumps.loose ⟨hlink.1, hlink.2.1⟩ hlink.2.2 hout).1] at hc
      cases hc
    · cases hc
  · exact fun hc => hon c u hc.1 hc.2

theorem stub_of_exits (h : Core cfg s b) {t : TbId} {n : Nat} (ht : b.live t) (hn : n < 2)
    (hexit : (s.tbs t).tbNextOffset n ≠ noOffset) (hnone : s.exits (t, n) = none) :
    s.jmpTarget (t, n) = (s.tbs t).stub n := by
  have hout : ∀ u, b.live u → (t, n) ∉ b.ring u := by
    intro u hu hmem
    rw [(shows_exits h (t, n) u).mpr ⟨hu, hmem⟩] at hnone
    cases hnone
  exact (h.jumps.loose (a := (t, n)) (h.linked ht) hn hout).2 ht hexit

theorem target_of_exits (h : Core cfg s b) {t u : TbId} {n : Nat} (hu : s.exits (t, n) = some u) :
    b.live u ∧ Chained s.tbs s.jmpTarget (t, n) u := by
  obtain ⟨hlive, hmem⟩ := (shows_exits h _ _).mp hu
  exact ⟨hlive, (h.jumps.mem hlive hmem).2.2⟩

theorem blockAt_eq (h : BlocksOk cfg s.tbs s.nbTbs s.codeGenPtr) {t : TbId}
    (ht : Linked s.tbs s.nbTbs t) : s.blockAt (s.tbs t).tcPtr = some t := by
  have hunique : ∀ u, Linked s.tbs s.nbTbs u → (s.tbs u).tcPtr = (s.tbs t).tcPtr → u = t := by
    intro u hu heq
    have hpos := (h.formed hu).tcSize_pos
    have hpos' := (h.formed ht).tcSize_pos
    rcases Nat.lt_trichotomy u t with hlt | hut | hlt
    · have hle := h.lt hu hlt ht.1
      omega
    · exact hut
    · have hle := h.lt ht hlt hu.1
      omega
  unfold blockAt
  cases hfind : (List.range s.nbTbs).find? fun u =>
      decide ((s.tbs u).tcPtr = (s.tbs t).tcPtr ∧ (s.tbs u).code ≠ []) with
  | none =>
    have hnot := List.find?_eq_none.mp hfind t (List.mem_range.mpr ht.1)
    simp [ht.2] at hnot
  | some u =>
    have hu := List.find?_some hfind
    rw [decide_eq_true_iff] at hu
    have hlt := List.mem_range.mp (List.mem_of_find?_eq_some hfind)
    rw [hunique u ⟨hlt, hu.2⟩ hu.1]

end Exits

section Cached

/-- The block is in the hash table. -/
def Cached (s : ExecState) (t : TbId) : Prop :=
  t ∈ nodes s.hash.next s.fuel (s.hash.first (s.tbs t).bucket)

instance (s : ExecState) (t : TbId) : Decidable (s.Cached t) := inferInstanceAs (Decidable (_ ∈ _))

theorem cached_iff (h : Core cfg s b) (t : TbId) : s.Cached t ↔ b.live t := by
  rw [Cached, nodes_of_chain (h.hash.chains.chain _) (h.length_chain _).le, h.hash.mem,
    and_iff_left rfl]

end Cached

end ExecState

/-- Nothing is translated, and no code runs. -/
structure CpuInit (c : Cpu) : Prop where
  nbTbs : c.s.nbTbs = 0
  codeGenPtr : c.s.codeGenPtr = 0
  hash : ∀ h, c.s.hash.first h = none
  pages : ∀ p, c.s.pages.first p = none
  codeBitmap : ∀ p, c.s.codeBitmap p = none
  tbJmpCache : ∀ h, c.s.tbJmpCache h = none
  currentTb : c.s.currentTb = none
  running : c.running = none
  nextTb : c.nextTb = none

/-- What holds between the actions of the processor. -/
structure CpuOk (cfg : Config) (c : Cpu) (b : Books) : Prop where
  core : Core cfg c.s b
  used : Used c.s b
  fresh : FreshOk c.s.tbs c.s.ram b
  running : ∀ t, c.running = some t → Linked c.s.tbs c.s.nbTbs t ∧ (c.s.tbs t).Mapped c.s.phys
  nextTb : ∀ a, c.nextTb = some a → a.2 < 2 ∧ Linked c.s.tbs c.s.nbTbs a.1 ∧
    (c.s.tbs a.1).tbNextOffset a.2 ≠ noOffset ∧ (c.s.tbs a.1).Mapped c.s.phys
  idle : c.running = none → c.s.currentTb = none

/-- What the guest and its devices do: a turn of the loop is made behind a block that was left,
with no exit pending if it flushes, and otherwise for the key that a pending exit leads to; code
that was taken out of the cache does not go on to other blocks; a store stays in eight bytes, as a
store of the guest to RAM is aligned or made byte by byte; and a write of a device is made page by
page. -/
def CpuAction.Ok (cfg : Config) (c : Cpu) : CpuAction → Prop
  | .exec needTbFlush key gen =>
    c.running = none ∧ (needTbFlush = true → c.nextTb = none) ∧ GenOk cfg c.s key gen ∧
      ∀ a, c.nextTb = some a → key = (c.s.tbs a.1).dest a.2
  | .jump n => ∃ t, c.running = some t ∧ c.s.Cached t ∧ n < 2 ∧
      (c.s.tbs t).tbNextOffset n ≠ noOffset
  | .store a vals =>
    0 < vals.length ∧ a.toNat % 8 + vals.length ≤ 8 ∧ c.s.phys (vpage a) ≠ none
  | .physicalWrite addr vals =>
    0 < vals.length ∧ addr + vals.length ≤ (addr / targetPageSize + 1) * targetPageSize
  | _ => True

section Steps

variable {cfg : Config} {c : Cpu} {b : Books}

theorem CpuInit.cpuOk (h : CpuInit c) : CpuOk cfg c Books.nil := by
  have hnone : ∀ {t}, ¬Linked c.s.tbs c.s.nbTbs t := fun ht => Nat.not_lt_zero _ (h.nbTbs ▸ ht.1)
  have hlt : ∀ {i}, ¬i < c.s.nbTbs := fun hi => Nat.not_lt_zero _ (h.nbTbs ▸ hi)
  refine ⟨⟨⟨fun ht => absurd ht hnone, fun _ hj => absurd hj hlt, fun ht => absurd ht hnone,
    fun hi => absurd hi hlt, fun ht => absurd ht hnone, ?_⟩, fun ht => ht.elim,
    ⟨⟨h.hash, fun _ => List.nodup_nil, fun ha => absurd ha List.not_mem_nil⟩, fun {t i} => ?_⟩,
    ⟨⟨h.pages, fun _ => List.nodup_nil, fun ha => absurd ha List.not_mem_nil⟩, fun {a p} => ?_,
      fun ht => ht.elim⟩,
    ⟨⟨fun _ hi => hi.elim, fun _ hi => hi.elim, fun hi => hi.elim, fun hi => hi.elim⟩,
      fun ht => ht.elim, fun ha => absurd ha hnone⟩, fun i t ht => ?_,
    ⟨fun hp => absurd rfl hp, fun hp => absurd rfl hp, fun htab => ?_⟩, fun ht => ?_⟩,
    fun p tab htab => ?_, fun t ht => ht.elim, fun t ht => ?_, fun a ha => ?_,
    fun _ => h.currentTb⟩
  · rw [h.codeGenPtr]
    exact Nat.zero_le _
  · simp [Books.nil]
  · simp [Books.nil]
  · rw [h.tbJmpCache] at ht
    cases ht
  · rw [h.codeBitmap] at htab
    cases htab
  · rw [h.currentTb] at ht
    cases ht
  · rw [h.codeBitmap] at htab
    cases htab
  · rw [h.running] at ht
    cases ht
  · rw [h.nextTb] at ha
    cases ha

theorem CpuOk.mono (h : CpuOk cfg c b) {s : ExecState} {b' : Books} (hcore : Core cfg s b')
    (hused : Used s b') (hfresh : FreshOk s.tbs s.ram b') (hgrown : Grown c.s s)
    (hphys : s.phys = c.s.phys) (hidle : c.running = none → s.currentTb = none) :
    CpuOk cfg { c with s } b' := by
  refine ⟨hcore, hused, hfresh, fun t ht => ?_, fun a ha => ?_, hidle⟩
  · obtain ⟨hlinked, hmapped⟩ := h.running t ht
    obtain ⟨hlinked', heq⟩ := hgrown t hlinked
    rw [heq, hphys]
    exact ⟨hlinked', hmapped⟩
  · obtain ⟨htag, hlinked, hexit, hmapped⟩ := h.nextTb a ha
    obtain ⟨hlinked', heq⟩ := hgrown a.1 hlinked
    rw [heq, hphys]
    exact ⟨htag, hlinked', hexit, hmapped⟩

theorem CpuOk.of_idle {s : ExecState} (hcore : Core cfg s b) (hused : Used s b)
    (hfresh : FreshOk s.tbs s.ram b) (hcurrent : s.currentTb = none) :
    CpuOk cfg ⟨s, none, none⟩ b :=
  ⟨hcore, hused, hfresh, fun t ht => absurd ht (Option.some_ne_none t).symm,
    fun a ha => absurd ha (Option.some_ne_none a).symm, fun _ => hcurrent⟩

theorem cpuExec_eq (hcfg : cfg.Ok) (h : CpuOk cfg c b) (hidle : c.running = none)
    {needTbFlush : Bool} {key : Key} {gen : Generated}
    (hflush : needTbFlush = true → c.nextTb = none) (hgen : GenOk cfg c.s key gen)
    (hkey : ∀ a, c.nextTb = some a → key = (c.s.tbs a.1).dest a.2) :
    ∃ c' b', cpuExec cfg c needTbFlush key gen = some c' ∧ CpuOk cfg c' b' ∧
      ∀ t, c'.running = some t → b'.live t ∧ (c'.s.tbs t).key = key := by
  obtain ⟨s, b₀, hflushed, hcore, hused, hfresh, hphys, hcurrent, hsame⟩ : ∃ s b₀,
      (if needTbFlush then c.s.tbFlush cfg else some c.s) = some s ∧ Core cfg s b₀ ∧ Used s b₀ ∧
      FreshOk s.tbs s.ram b₀ ∧ s.phys = c.s.phys ∧ s.currentTb = none ∧
      (c.nextTb ≠ none → s = c.s) := by
    cases needTbFlush with
    | false => exact ⟨c.s, b, rfl, h.core, h.used, h.fresh, rfl, h.idle hidle, fun _ => rfl⟩
    | true =>
      obtain ⟨s, heq, hcore, hused, -, -, hcurrent, -, hphys⟩ :=
        ExecState.tbFlush_eq h.core (h.idle hidle)
      exact ⟨s, Books.nil, heq, hcore, hused, fun t ht => ht.elim, hphys, hcurrent,
        fun hne => absurd (hflush rfl) hne⟩
  have hgen' : GenOk cfg s key gen := ⟨hgen.size_pos, hgen.size_lt, hgen.exit, hgen.codeSize_pos,
    hgen.room, hphys ▸ hgen.apart⟩
  obtain ⟨⟨s₁, found⟩, b₁, hfind, hlookup⟩ :=
    ExecState.tbFindFast_eq hcfg hcore hused hfresh hcurrent hgen'
  have hcore₁ : Core cfg s₁ b₁ := hlookup.core
  unfold cpuExec
  simp only [hflushed, Option.bind_some, hfind, Option.map_some]
  cases found with
  | none =>
    refine ⟨_, b₁, rfl, CpuOk.of_idle (ExecState.returned_core hcore₁) hlookup.used hlookup.fresh
      rfl, fun t ht => absurd ht (Option.some_ne_none t).symm⟩
  | some t =>
    obtain ⟨hlive, hkeyt, hmapped⟩ := hlookup.block t rfl
    -- what it takes to run the block in a state that differs in the jumps only
    have hrun : ∀ jmp jmpTarget ring,
        Core cfg { s₁ with tbInvalidatedFlag := false, jmp, jmpTarget } { b₁ with ring } →
        CpuOk cfg ⟨{ s₁ with tbInvalidatedFlag := false, jmp, jmpTarget, currentTb := some t },
          some t, none⟩ { b₁ with ring } := by
      intro jmp jmpTarget ring hcore
      refine ⟨ExecState.core_withCurrent hcore fun u hu => ?_, hlookup.used, hlookup.fresh,
        fun u hu => ?_, fun a ha => absurd ha (Option.some_ne_none a).symm,
        fun hnone => absurd hnone (Option.some_ne_none t)⟩
      · exact Option.some.inj hu ▸ hcore.linked hlive
      · exact Option.some.inj hu ▸ ⟨hcore.linked hlive, hmapped⟩
    have hplain : Core cfg { s₁ with tbInvalidatedFlag := false } b₁ := ⟨hcore₁.blocks,
      hcore₁.linked, hcore₁.hash, hcore₁.pages, hcore₁.jumps, hcore₁.cache, hcore₁.guard,
      hcore₁.current⟩
    have hresult : ∀ u, some t = some u → b₁.live u ∧ (s₁.tbs u).key = key := by
      intro u hu
      exact Option.some.inj hu ▸ ⟨hlive, hkeyt⟩
    simp only
    cases hnext : (if s₁.tbInvalidatedFlag then none else c.nextTb) with
    | none => exact ⟨_, b₁, rfl, hrun s₁.jmp s₁.jmpTarget b₁.ring hplain, hresult⟩
    | some a =>
      simp only
      by_cases hsingle : (s₁.tbs t).page1 = none
      · simp only [if_pos hsingle]
        have hflag : s₁.tbInvalidatedFlag = false := by
          by_contra hne
          rw [if_pos (Bool.eq_true_of_not_eq_false hne)] at hnext
          cases hnext
        have hnext' : c.nextTb = some a := by
          rwa [hflag, if_neg Bool.false_ne_true] at hnext
        have hs : s = c.s := hsame (by rw [hnext']; exact Option.some_ne_none a)
        obtain ⟨htag, hlinked, hexit, hmappeda⟩ := h.nextTb a hnext'
        obtain ⟨hlinked', heq⟩ := hlookup.grown hflag a.1 (hs ▸ hlinked)
        have hphys₁ : s₁.phys = c.s.phys := hlookup.phys.trans hphys
        have heq' : s₁.tbs a.1 = c.s.tbs a.1 := by
          rw [← hs]
          exact heq
        have hdest : (s₁.tbs t).key = (s₁.tbs a.1).dest a.2 := by
          rw [hkeyt, heq']
          exact hkey a hnext'
        have hpage : (s₁.tbs t).page0 = (s₁.tbs a.1).page0 := by
          have hformed := (hcore₁.blocks.formed hlinked').exit a.2 (heq' ▸ hexit)
          have hfirst := hmapped.first
          rw [hdest, hformed.2.2, heq', hphys₁, hmappeda.first] at hfirst
          rw [heq']
          exact (Option.some.inj hfirst).symm
        obtain ⟨jmp, jmpTarget, ring, hadd, hcore'⟩ := ExecState.tbAddJump_core
          (s := { s₁ with tbInvalidatedFlag := false }) hplain (a := a) hlive hlinked' htag hsingle
          hdest hpage (heq' ▸ hexit)
        refine ⟨_, { b₁ with ring }, congrArg some (congrArg (fun s : ExecState =>
          (⟨{ s with currentTb := some t }, some t, none⟩ : Cpu)) hadd), ?_, hresult⟩
        exact hrun jmp jmpTarget ring hcore'
      · simp only [if_neg hsingle]
        exact ⟨_, b₁, rfl, hrun s₁.jmp s₁.jmpTarget b₁.ring hplain, hresult⟩

theorem takeExit_eq (h : CpuOk cfg c b) {t : TbId} {n : Nat} (hrun : c.running = some t)
    (hlive : b.live t) (hn : n < 2) (hexit : (c.s.tbs t).tbNextOffset n ≠ noOffset) :
    ∃ c', takeExit c n = some c' ∧ CpuOk cfg c' b ∧ c'.s.tbs = c.s.tbs ∧
      ∀ u, c'.running = some u → b.live u ∧ (c.s.tbs u).key = (c.s.tbs t).dest n := by
  obtain ⟨hlinked, hmapped⟩ := h.running t hrun
  unfold takeExit
  simp only [hrun, Option.bind_some]
  cases hedge : c.s.exits (t, n) with
  | none =>
    rw [if_pos (ExecState.stub_of_exits h.core hlive hn hexit hedge)]
    refine ⟨_, rfl, ⟨ExecState.returned_core h.core, h.used, h.fresh,
      fun u hu => absurd hu (Option.some_ne_none u).symm, fun a ha => ?_, fun _ => rfl⟩, rfl,
      fun u hu => absurd hu (Option.some_ne_none u).symm⟩
    obtain rfl := Option.some.inj ha
    exact ⟨hn, hlinked, hexit, hmapped⟩
  | some u =>
    obtain ⟨hliveu, hchained⟩ := ExecState.target_of_exits h.core hedge
    have hlinkedu := h.core.linked hliveu
    -- the exit's own address is behind the start of its block, and before any other block
    have hne : (c.s.tbs u).tcPtr ≠ (c.s.tbs t).stub n := by
      have hoff := (h.core.blocks.formed hlinked).exit n hexit
      unfold TranslationBlock.stub
      intro heq
      rcases Nat.lt_trichotomy u t with hlt | rfl | hlt
      · have hle := h.core.blocks.le hlt hlinked.1
        omega
      · omega
      · have hle := h.core.blocks.lt hlinked hlt hlinkedu.1
        omega
    rw [hchained.target, if_neg hne, ExecState.blockAt_eq h.core.blocks hlinkedu, Option.map_some]
    refine ⟨_, rfl, ⟨h.core, h.used, h.fresh, fun v hv => ?_, h.nextTb, fun hnone => ?_⟩, rfl,
      fun v hv => ?_⟩
    · obtain rfl := Option.some.inj hv
      refine ⟨hlinkedu, ?_, fun q hq => ?_⟩
      · have hpage := ((h.core.blocks.formed hlinked).exit n hexit).2.2
        rw [hchained.key, hchained.page]
        change c.s.phys (vpage ((c.s.tbs t).dest n).pc) = some (c.s.tbs t).page0
        rw [hpage]
        exact hmapped.first
      · rw [hchained.single] at hq
        cases hq
    · cases hnone
    · obtain rfl := Option.some.inj hv
      exact ⟨hliveu, hchained.key⟩

theorem cpuUnlinkTb_eq {s : ExecState} (h : Core cfg s b) {t : TbId} (ht : s.currentTb = some t) :
    ∃ jmp jmpTarget ring, s.cpuUnlinkTb = some { s with currentTb := none, jmp, jmpTarget } ∧
      Core cfg { s with currentTb := none, jmp, jmpTarget } { b with ring } ∧
      Edges.Cleared s.exits { s with currentTb := none, jmp, jmpTarget }.exits t := by
  have hcore : Core cfg { s with currentTb := none } b :=
    ExecState.core_withCurrent h fun u hu => absurd hu (Option.some_ne_none u).symm
  have hS : ∀ c, s.exits c ≠ none → c ∈ Finset.range s.nbTbs ×ˢ Finset.range 2 := by
    intro c hc
    obtain ⟨u, hu⟩ := Option.ne_none_iff_exists'.mp hc
    obtain ⟨hlive, hmem⟩ := (ExecState.shows_exits h c u).mp hu
    obtain ⟨htag, hlinked, -⟩ := h.jumps.mem hlive hmem
    exact Finset.mem_product.mpr ⟨Finset.mem_range.mpr hlinked.1, Finset.mem_range.mpr htag⟩
  have hfuel : (Finset.range s.nbTbs ×ˢ Finset.range 2).card < s.fuel := by
    rw [Finset.card_product, Finset.card_range, Finset.card_range, ExecState.fuel]
    omega
  obtain ⟨jmp, jmpTarget, ring, e', hreset, hcore', hshows, hcleared⟩ :=
    ExecState.tbResetJumpRecursive_eq (s := { s with currentTb := none }) hcore
      (ExecState.shows_exits h) (h.current ht) hS hfuel
  have hexits : e' = { s with currentTb := none, jmp, jmpTarget }.exits := by
    funext c
    refine Option.ext fun u => ?_
    rw [hshows c u, ExecState.shows_exits hcore' c u]
  refine ⟨jmp, jmpTarget, ring, ?_, hcore', hexits ▸ hcleared⟩
  simp only [ExecState.cpuUnlinkTb, ht]
  exact hreset

/-- Which block an action makes the processor enter. -/
def Enters (c : Cpu) (key : Key) : CpuAction → Prop
  | .exec _ key' _ => key = key'
  | .jump n => ∃ t, c.running = some t ∧ key = (c.s.tbs t).dest n
  | _ => False

theorem cpuStep_eq (hcfg : cfg.Ok) (h : CpuOk cfg c b) {a : CpuAction} (hok : a.Ok cfg c) :
    ∃ c' b', cpuStep cfg c a = some c' ∧ CpuOk cfg c' b' ∧
      ∀ key t, Enters c key a → c'.running = some t → b'.live t ∧ (c'.s.tbs t).key = key := by
  have hstored : ∀ {addr vals s' b'}, ExecState.Stored cfg c.s b addr vals s' b' →
      CpuOk cfg { c with s := s' } b' := by
    intro addr vals s' b' hs
    refine h.mono hs.core hs.used (hs.fresh h.fresh) (fun t ht => ?_) hs.kept.phys fun hnone => ?_
    · have htbs : s'.tbs = c.s.tbs := hs.kept.tbs
      have hnb : s'.nbTbs = c.s.nbTbs := hs.kept.nbTbs
      rw [htbs, hnb]
      exact ⟨ht, rfl⟩
    · have hcurrent : s'.currentTb = c.s.currentTb := hs.kept.currentTb
      rw [hcurrent]
      exact h.idle hnone
  have hsame : ∀ {s' b'}, Core cfg s' b' → b'.page = b.page → b'.live = b.live →
      s'.tbs = c.s.tbs → s'.nbTbs = c.s.nbTbs → s'.codeBitmap = c.s.codeBitmap →
      s'.ram = c.s.ram → s'.phys = c.s.phys → (s'.currentTb = c.s.currentTb ∨ s'.currentTb = none) →
      CpuOk cfg { c with s := s' } b' := by
    intro s' b' hcore hpage hlive htbs hnb hbitmap hram hphys hcurrent
    refine h.mono hcore ?_ ?_ (fun t ht => ?_) hphys fun hnone => ?_
    · rw [Used, hbitmap, hpage]
      exact h.used
    · rw [FreshOk, htbs, hram, hlive]
      exact h.fresh
    · rw [htbs, hnb]
      exact ⟨ht, rfl⟩
    · exact hcurrent.elim (fun heq => heq.trans (h.idle hnone)) id
  cases a with
  | exec needTbFlush key gen =>
    obtain ⟨hidle, hflush, hgen, hkey⟩ := hok
    obtain ⟨c', b', heq, hc', hentered⟩ := cpuExec_eq hcfg h hidle hflush hgen hkey
    refine ⟨c', b', (if_pos hidle).trans heq, hc', ?_⟩
    rintro _ t rfl ht
    exact hentered t ht
  | jump n =>
    obtain ⟨t, hrun, hcached, hn, hexit⟩ := hok
    obtain ⟨c', heq, hc', htbs, hentered⟩ :=
      takeExit_eq h hrun ((ExecState.cached_iff h.core t).mp hcached) hn hexit
    refine ⟨c', b, heq, hc', ?_⟩
    rintro _ u ⟨t', ht', rfl⟩ hu
    obtain rfl := Option.some.inj (hrun.symm.trans ht')
    rw [htbs]
    exact hentered u hu
  | leave =>
    exact ⟨_, b, rfl, CpuOk.of_idle (ExecState.returned_core h.core) h.used h.fresh rfl,
      fun _ _ henter => henter.elim⟩
  | store addr vals =>
    obtain ⟨hlen, hfit, hmapped⟩ := hok
    obtain ⟨p, hp⟩ := Option.ne_none_iff_exists'.mp hmapped
    obtain ⟨s', b', heq, hs⟩ := ExecState.store_eq h.core h.used hlen hfit hp
    exact ⟨_, b', congrArg (Option.map _) heq, hstored hs, fun _ _ henter => henter.elim⟩
  | physicalWrite addr vals =>
    obtain ⟨s', b', heq, hs⟩ := ExecState.physicalWrite_eq h.core h.used hok.1 hok.2
    exact ⟨_, b', congrArg (Option.map _) heq, hstored hs, fun _ _ henter => henter.elim⟩
  | setPage v =>
    refine ⟨_, b, rfl, hsame (ExecState.tlbSetPage_core h.core v) rfl rfl ?_ ?_ ?_ ?_ ?_ (.inl ?_),
      fun _ _ henter => henter.elim⟩
    all_goals
      unfold ExecState.tlbSetPage
      split <;> rfl
  | resetDirty p flags =>
    exact ⟨_, b, rfl, hsame (ExecState.resetDirty_core h.core p flags) rfl rfl rfl rfl rfl rfl rfl
      (.inl rfl), fun _ _ henter => henter.elim⟩
  | flushPage addr p =>
    have hcore := ExecState.tlbFlushPage_core h.core addr p
    refine ⟨_, b, rfl, ?_, fun _ _ henter => henter.elim⟩
    rw [ExecState.tlbFlushPage_eq] at hcore ⊢
    exact CpuOk.of_idle hcore h.used h.fresh rfl
  | flush phys =>
    exact ⟨_, b, rfl, CpuOk.of_idle (ExecState.tlbFlush_core h.core phys) h.used h.fresh rfl,
      fun _ _ henter => henter.elim⟩
  | interrupt =>
    cases hcurrent : c.s.currentTb with
    | none =>
      refine ⟨c, b, ?_, h, fun _ _ henter => henter.elim⟩
      simp only [cpuStep, ExecState.cpuUnlinkTb, hcurrent, Option.map_some]
    | some t =>
      obtain ⟨jmp, jmpTarget, ring, heq, hcore, -⟩ := cpuUnlinkTb_eq h.core hcurrent
      exact ⟨_, { b with ring }, congrArg (Option.map _) heq,
        hsame hcore rfl rfl rfl rfl rfl rfl rfl (.inr rfl), fun _ _ henter => henter.elim⟩

/-- The states that the processor gets to. -/
abbrev CpuReachable (cfg : Config) : Cpu → Prop :=
  ReachableWhen CpuInit (cpuStep cfg) fun c a => a.Ok cfg c

theorem exists_cpuOk (hcfg : cfg.Ok) (h : CpuReachable cfg c) : ∃ b, CpuOk cfg c b := by
  have hinit : ∀ c, CpuInit c → ∃ b, CpuOk cfg c b := fun c hc => ⟨_, hc.cpuOk⟩
  refine ReachableWhen.invariant hinit ?_ h
  rintro c a c' ⟨b, hb⟩ hok hstep
  obtain ⟨c'', b', heq, hok', -⟩ := cpuStep_eq hcfg hb hok
  obtain rfl := Option.some.inj (heq.symm.trans hstep)
  exact ⟨b', hok'⟩

end Steps

section Bare

/-- Room for two blocks. -/
def bareConfig : Config := ⟨2, 128, 64⟩

/-- A processor with one page of RAM, of which nothing is translated. -/
def bareCpu : Cpu where
  s := {
    tbs := fun _ => ⟨⟨0, 0, 0⟩, 0, 0, 0, 0, none, fun _ => noOffset, [], 0, fun _ => ⟨0, 0, 0⟩⟩
    nbTbs := 0
    codeGenPtr := 0
    hash := ⟨fun _ => none, fun _ => none⟩
    l1Map := fun _ => false
    pages := ⟨fun _ => none, fun _ => none⟩
    codeWriteCount := fun _ => 0
    codeBitmap := fun _ => none
    jmp := fun _ => none
    jmpTarget := fun _ => 0
    tbJmpCache := fun _ => none
    tbInvalidatedFlag := false
    currentTb := none
    ram := fun _ => 0
    physRamDirty := fun _ => 0xff
    phys := fun v => if v = 0 then some 0 else none
    direct := fun _ => false }
  running := none
  nextTb := none

theorem bareConfig_ok : bareConfig.Ok := ⟨by decide, by decide⟩

theorem bareCpu_init : CpuInit bareCpu :=
  ⟨rfl, rfl, fun _ => rfl, fun _ => rfl, fun _ => rfl, fun _ => rfl, rfl, rfl, rfl⟩

def jumpsTo (pc : BitVec 32) : Generated :=
  ⟨2, 8, fun n => if n = 0 then 4 else noOffset, fun _ => ⟨pc, 0, 0⟩⟩

theorem jumpsTo_ok {pc dest : BitVec 32} (s : ExecState) (hin : pageOffset pc + 2 ≤ targetPageSize)
    (hpage : vpage dest = vpage pc) : GenOk bareConfig s ⟨pc, 0, 0⟩ (jumpsTo dest) where
  size_pos := Nat.two_pos
  size_lt := hin.trans_lt (by decide)
  exit n hn := by
    have hzero : n = 0 := by
      by_contra hne
      exact hn (if_neg hne)
    subst hzero
    exact ⟨Nat.succ_pos 3, (by decide : 4 < 8), hpage⟩
  codeSize_pos := Nat.succ_pos 7
  room := (by decide : 64 + 8 + codeGenAlign ≤ 128)
  apart hbehind := absurd hbehind hin.not_gt

/-- Two blocks are made and chained to each other, and the first one stores to the rest of its page
until the page has a bitmap. -/
def linkingRun : List CpuAction :=
  .exec false ⟨0, 0, 0⟩ (jumpsTo 2) :: .jump 0 :: .exec false ⟨2, 0, 0⟩ (jumpsTo 0) :: .jump 0 ::
    .exec false ⟨0, 0, 0⟩ (jumpsTo 2) :: List.replicate 10 (.store 64 [1])

def linkedCpu : Cpu := (run (cpuStep bareConfig) bareCpu linkingRun).getD bareCpu

theorem linkingRun_ok :
    Throughout (cpuStep bareConfig) (fun c a _ => a.Ok bareConfig c) bareCpu linkingRun := by
  refine Throughout.cons rfl ⟨rfl, nofun, jumpsTo_ok _ (by decide) rfl, nofun⟩ ?_
  refine Throughout.cons rfl ⟨0, rfl, by decide, by decide, by decide⟩ ?_
  refine Throughout.cons rfl ⟨rfl, nofun, jumpsTo_ok _ (by decide) rfl, fun a ha => ?_⟩ ?_
  · obtain rfl := Option.some.inj ha
    rfl
  refine Throughout.cons rfl ⟨1, rfl, by decide, by decide, by decide⟩ ?_
  refine Throughout.cons rfl ⟨rfl, nofun, jumpsTo_ok _ (by decide) rfl, fun a ha => ?_⟩ ?_
  · obtain rfl := Option.some.inj ha
    rfl
  iterate 10 refine Throughout.cons rfl ⟨by decide, by decide, by decide⟩ ?_
  exact Throughout.nil _

theorem linkedCpu_reachable : CpuReachable bareConfig linkedCpu :=
  ReachableWhen.throughout (.start bareCpu_init) linkingRun_ok rfl

end Bare

section Runs

variable {cfg : Config} {c c' : Cpu} {a : CpuAction}

/-- No list is walked without end or into nothing, and there is room for every block. -/
theorem reachable_cpuStep (hcfg : cfg.Ok) (h : CpuReachable cfg c) (hok : a.Ok cfg c) :
    ∃ c', cpuStep cfg c a = some c' := by
  obtain ⟨b, hb⟩ := exists_cpuOk hcfg h
  obtain ⟨c', -, heq, -⟩ := cpuStep_eq hcfg hb hok
  exact ⟨c', heq⟩

/-- The running block stores into the code of the block that it is chained to. -/
theorem reachable_cpuStep_store : ∃ c', cpuStep bareConfig linkedCpu (.store 3 [1]) = some c' :=
  reachable_cpuStep bareConfig_ok linkedCpu_reachable ⟨by decide, by decide, by decide⟩

/-- A block that is entered, from the loop or through a chained exit of another, is the one for the
state of the processor, and was made of what the guest has at its address now. -/
theorem reachable_enters (hcfg : cfg.Ok) (h : CpuReachable cfg c) (hok : a.Ok cfg c)
    (hstep : cpuStep cfg c a = some c') {key : Key} (henters : Enters c key a) {t : TbId}
    (hrun : c'.running = some t) :
    (c'.s.tbs t).key = key ∧
      c'.s.guestCode key.pc (c'.s.tbs t).size = some (c'.s.tbs t).code := by
  obtain ⟨b, hb⟩ := exists_cpuOk hcfg h
  obtain ⟨c'', b', heq, hb', hentered⟩ := cpuStep_eq hcfg hb hok
  obtain rfl := Option.some.inj (heq.symm.trans hstep)
  obtain ⟨hlive, hkey⟩ := hentered key t henters hrun
  have hcode := ExecState.guestCode_of_fresh (hb'.core.blocks.formed (hb'.core.linked hlive))
    (hb'.running t hrun).2 (hb'.fresh t hlive)
  rw [hkey] at hcode
  exact ⟨hkey, hcode⟩

/-- The chained exit leads to the second block. -/
theorem reachable_enters_linked : ∃ c', cpuStep bareConfig linkedCpu (.jump 0) = some c' ∧
    c'.running = some 1 ∧ (c'.s.tbs 1).key = ⟨2, 0, 0⟩ ∧
      c'.s.guestCode 2 (c'.s.tbs 1).size = some (c'.s.tbs 1).code :=
  ⟨_, rfl, rfl, reachable_enters (a := .jump 0) bareConfig_ok linkedCpu_reachable
    ⟨0, rfl, by decide, by decide, by decide⟩ rfl ⟨0, rfl, rfl⟩ rfl⟩

/-- The bytes of RAM that an action writes. -/
def Writes (c : Cpu) (addr len : Nat) : CpuAction → Prop
  | .store a vals =>
    c.s.phys (vpage a) = some (addr / targetPageSize) ∧ addr % targetPageSize = pageOffset a ∧
      len = vals.length
  | .physicalWrite a vals => addr = a ∧ len = vals.length
  | _ => False

/-- A store of the guest and a write of a device take out of the cache exactly the blocks that were
made of a byte that they write. -/
theorem reachable_writes (hcfg : cfg.Ok) (h : CpuReachable cfg c) (hok : a.Ok cfg c)
    (hstep : cpuStep cfg c a = some c') {addr len : Nat} (hwrites : Writes c addr len a) (t : TbId) :
    c'.s.Cached t ↔ c.s.Cached t ∧ ¬(c.s.tbs t).Within addr (addr + len) := by
  obtain ⟨b, hb⟩ := exists_cpuOk hcfg h
  have hstored : ∀ {s' b' vals}, ExecState.Stored cfg c.s b addr vals s' b' → len = vals.length →
      c' = { c with s := s' } →
      (c'.s.Cached t ↔ c.s.Cached t ∧ ¬(c.s.tbs t).Within addr (addr + len)) := by
    rintro s' b' vals hs rfl rfl
    rw [ExecState.cached_iff hs.core, ExecState.cached_iff hb.core, hs.live t]
  cases a with
  | store addr' vals =>
    obtain ⟨hp, hoff, hlen⟩ := hwrites
    obtain ⟨s', b', heq, hs⟩ := ExecState.store_eq hb.core hb.used hok.1 hok.2.1 hp
    have haddr : addr / targetPageSize * targetPageSize + pageOffset addr' = addr := by
      rw [← hoff, Nat.mul_comm]
      exact Nat.div_add_mod addr targetPageSize
    rw [haddr] at hs
    exact hstored hs hlen (Option.some.inj ((congrArg (Option.map _) heq).symm.trans hstep)).symm
  | physicalWrite addr' vals =>
    obtain ⟨rfl, hlen⟩ := hwrites
    obtain ⟨s', b', heq, hs⟩ := ExecState.physicalWrite_eq hb.core hb.used hok.1 hok.2
    exact hstored hs hlen (Option.some.inj ((congrArg (Option.map _) heq).symm.trans hstep)).symm
  | exec => exact hwrites.elim
  | jump => exact hwrites.elim
  | leave => exact hwrites.elim
  | setPage => exact hwrites.elim
  | resetDirty => exact hwrites.elim
  | flushPage => exact hwrites.elim
  | flush => exact hwrites.elim
  | interrupt => exact hwrites.elim

theorem reachable_writes_store : ∃ c', cpuStep bareConfig linkedCpu (.store 3 [1]) = some c' ∧
    ∀ t, c'.s.Cached t ↔ linkedCpu.s.Cached t ∧ ¬(linkedCpu.s.tbs t).Within 3 4 :=
  ⟨_, rfl, reachable_writes (a := .store 3 [1]) bareConfig_ok linkedCpu_reachable
    ⟨by decide, by decide, by decide⟩ rfl ⟨rfl, rfl, rfl⟩⟩

/-- The test of the bitmap spares no walk over the blocks that would have found one. -/
theorem reachable_fast (hcfg : cfg.Ok) (h : CpuReachable cfg c) {start len : Nat} (hlen : 0 < len)
    (hfit : start % 8 + len ≤ 8) :
    c.s.tbInvalidatePhysPageFast start len =
      c.s.tbInvalidatePhysPageRange start (start + len) true := by
  obtain ⟨b, hb⟩ := exists_cpuOk hcfg h
  exact ExecState.tbInvalidatePhysPageFast_eq hb.core hb.used hlen hfit

theorem reachable_fast_word : (linkedCpu.s.codeBitmap 0).isSome ∧
    linkedCpu.s.tbInvalidatePhysPageFast 4 4 =
      linkedCpu.s.tbInvalidatePhysPageRange 4 8 true :=
  ⟨rfl, reachable_fast bareConfig_ok linkedCpu_reachable (by decide) (by decide)⟩

/-- An interrupt takes apart all chained exits of the blocks that could be reached from the one the
loop has entered, and no others: a block of these that runs then goes back to the loop. -/
theorem reachable_interrupt (hcfg : cfg.Ok) (h : CpuReachable cfg c)
    (hstep : cpuStep cfg c .interrupt = some c') {t : TbId} (ht : c.s.currentTb = some t) :
    (∀ x n, c'.s.exits (x, n) = none ↔ c.s.exits.Reach t x ∨ c.s.exits (x, n) = none) ∧
      ∀ x n, c.running = some x → c.s.exits.Reach t x → c.s.Cached x → n < 2 →
        (c.s.tbs x).tbNextOffset n ≠ noOffset →
          takeExit c' n = some ⟨c'.s.returned, none, some (x, n)⟩ := by
  obtain ⟨b, hb⟩ := exists_cpuOk hcfg h
  obtain ⟨jmp, jmpTarget, ring, heq, hcore, hcleared⟩ := cpuUnlinkTb_eq hb.core ht
  have hc' : c' = { c with s := { c.s with currentTb := none, jmp, jmpTarget } } :=
    (Option.some.inj ((congrArg (Option.map _) heq).symm.trans hstep)).symm
  subst hc'
  constructor
  · intro x n
    by_cases hx : c.s.exits.Reach t x
    · exact iff_of_true (hcleared.reached x n hx) (.inl hx)
    · rw [or_iff_right hx]
      exact (hcleared.kept x n hx).congr_left
  · intro x n hrun hx hcached hn hexit
    have hlive : b.live x := (ExecState.cached_iff hb.core x).mp hcached
    have hstub := ExecState.stub_of_exits hcore (t := x) hlive hn hexit (hcleared.reached x n hx)
    simp only [takeExit, hrun, Option.bind_some]
    exact if_pos hstub

theorem reachable_interrupt_linked : ∃ c', cpuStep bareConfig linkedCpu .interrupt = some c' ∧
    (∀ x n, c'.s.exits (x, n) = none ↔
      linkedCpu.s.exits.Reach 0 x ∨ linkedCpu.s.exits (x, n) = none) ∧
      ∀ x n, linkedCpu.running = some x → linkedCpu.s.exits.Reach 0 x → linkedCpu.s.Cached x →
        n < 2 → (linkedCpu.s.tbs x).tbNextOffset n ≠ noOffset →
          takeExit c' n = some ⟨c'.s.returned, none, some (x, n)⟩ :=
  ⟨_, rfl, reachable_interrupt bareConfig_ok linkedCpu_reachable rfl rfl⟩

end Runs

section FindPc

variable {cfg : Config} {c : Cpu} {s : ExecState} {t tcPtr : Nat}

theorem findPcLoop_eq (hle : ∀ i, i ≤ t → (s.tbs i).tcPtr < tcPtr)
    (hgt : ∀ i, t < i → i < s.nbTbs → tcPtr < (s.tbs i).tcPtr) {fuel : Nat} {mMin mMax : Int}
    (hmin : 0 ≤ mMin) (hmin' : mMin ≤ t + 1) (hmax : (t : Int) ≤ mMax) (hmax' : mMax < s.nbTbs)
    (hfuel : mMax - mMin + 1 < fuel) : s.findPcLoop tcPtr fuel mMin mMax = some (t : Int) := by
  induction fuel generalizing mMin mMax with
  | zero => omega
  | succ fuel ih =>
    rw [ExecState.findPcLoop]
    by_cases hmore : mMin ≤ mMax
    · obtain ⟨m, hm⟩ : ∃ m : Nat, ((m : Nat) : Int) = (mMin + mMax) / 2 :=
        ⟨((mMin + mMax) / 2).toNat, by omega⟩
      simp only [if_pos hmore, ← hm, Int.toNat_natCast]
      by_cases hmt : m ≤ t
      · have hlt := hle m hmt
        rw [if_neg (Nat.ne_of_lt hlt), if_neg (Nat.not_lt.mpr hlt.le)]
        exact ih (by omega) (by omega) hmax hmax' (by omega)
      · have hlt := hgt m (Nat.not_le.mp hmt) (by omega)
        rw [if_neg (Nat.ne_of_gt hlt), if_pos hlt]
        exact ih hmin hmin' (by omega) (by omega) (by omega)
    · rw [if_neg hmore]
      have heq : mMax = t := by omega
      rw [heq]

/-- The block is found whose code an address is in. -/
theorem reachable_tbFindPc (hcfg : cfg.Ok) (h : CpuReachable cfg c) (ht : t < c.s.nbTbs)
    (hcode : (c.s.tbs t).code ≠ []) (hlo : (c.s.tbs t).tcPtr < tcPtr)
    (hhi : tcPtr < (c.s.tbs t).tcPtr + (c.s.tbs t).tcSize) : c.s.tbFindPc tcPtr = some t := by
  obtain ⟨b, hb⟩ := exists_cpuOk hcfg h
  have hblocks := hb.core.blocks
  have hle : ∀ i, i ≤ t → (c.s.tbs i).tcPtr < tcPtr := by
    intro i hi
    rcases Nat.lt_or_eq_of_le hi with hlt | rfl
    · exact lt_of_le_of_lt (hblocks.le hlt ht) hlo
    · exact hlo
  have hgt : ∀ i, t < i → i < c.s.nbTbs → tcPtr < (c.s.tbs i).tcPtr := fun i hi hnb =>
    hhi.trans_le (hblocks.lt ⟨ht, hcode⟩ hi hnb)
  have hptr : ¬(c.s.nbTbs = 0 ∨ c.s.codeGenPtr ≤ tcPtr) := by
    rintro (hzero | hge)
    · exact absurd ht (hzero ▸ Nat.not_lt_zero t)
    · exact absurd (hblocks.lt_ptr ⟨ht, hcode⟩) (Nat.not_le.mpr (lt_of_le_of_lt hge hhi))
  rw [ExecState.tbFindPc, if_neg hptr,
    findPcLoop_eq hle hgt (by omega) (by omega) (by omega) (by omega) (by omega)]
  rfl

theorem reachable_tbFindPc_linked : linkedCpu.s.tbFindPc 20 = some 1 :=
  reachable_tbFindPc bareConfig_ok linkedCpu_reachable (by decide) (by decide) (by decide)
    (by decide)

end FindPc

end M2M.Exec
