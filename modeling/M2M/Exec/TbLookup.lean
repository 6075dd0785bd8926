import M2M.Exec.TbLink

/-! Blocks are found by the state of the processor: in the cache over virtual addresses, in the
hash table, or by translating them. -/

open M2M.Lib M2M.Lib.Machine

namespace M2M.Exec

section Pages

theorem vpage_add_of_lt {a : BitVec 32} {n : Nat} (h : pageOffset a + n < targetPageSize) :
    vpage (a + BitVec.ofNat 32 n) = vpage a := by
  have ha := a.isLt
  simp only [vpage, pageOffset, BitVec.toNat_add, BitVec.toNat_ofNat, targetPageSize] at *
  omega

theorem vpage_add_of_le {a : BitVec 32} {n : Nat} (h : targetPageSize ≤ pageOffset a + n)
    (hlt : pageOffset a + n < 2 * targetPageSize) :
    vpage (a + BitVec.ofNat 32 n) = nextPage a := by
  have ha := a.isLt
  simp only [vpage, nextPage, pageOffset, BitVec.toNat_add, BitVec.toNat_ofNat,
    targetPageSize] at *
  omega

theorem nextPage_ne (a : BitVec 32) : nextPage a ≠ vpage a := by
  have ha := a.isLt
  simp only [vpage, nextPage, BitVec.toNat_add, BitVec.toNat_ofNat, targetPageSize]
  omega

end Pages

/-- What is known of the host's buffer. -/
structure Config.Ok (cfg : Config) : Prop where
  blocks_pos : 0 < cfg.codeGenMaxBlocks
  size_pos : 0 < cfg.codeGenBufferMaxSize

/-- What the translator keeps to: it stops behind the end of the page, no code is longer than what
the buffer has behind its last place for a block, and only exits that stay on the page of the block
can be chained. That the pages of the code are not the same page of RAM, it does not know. -/
structure GenOk (cfg : Config) (s : ExecState) (key : Key) (gen : Generated) : Prop where
  size_pos : 0 < gen.size
  size_lt : pageOffset key.pc + gen.size < 2 * targetPageSize
  exit : ∀ n, gen.tbNextOffset n ≠ noOffset → 0 < gen.tbNextOffset n ∧
    gen.tbNextOffset n < gen.codeSize ∧ vpage (gen.dest n).pc = vpage key.pc
  codeSize_pos : 0 < gen.codeSize
  room : cfg.codeGenBufferMaxSize + gen.codeSize + codeGenAlign ≤ cfg.codeGenBufferSize
  apart : targetPageSize < pageOffset key.pc + gen.size → s.phys (vpage key.pc) ≠ none →
    s.phys (nextPage key.pc) ≠ s.phys (vpage key.pc)

def Grown (s s' : ExecState) : Prop :=
  ∀ t, Linked s.tbs s.nbTbs t → Linked s'.tbs s'.nbTbs t ∧ s'.tbs t = s.tbs t

/-- What a search for a block leads to. -/
structure Lookup (cfg : Config) (s : ExecState) (key : Key) (r : ExecState × Option TbId)
    (b : Books) : Prop where
  core : Core cfg r.1 b
  used : Used r.1 b
  fresh : FreshOk r.1.tbs r.1.ram b
  ram : r.1.ram = s.ram
  phys : r.1.phys = s.phys
  current : r.1.currentTb = none
  block : ∀ t, r.2 = some t → b.live t ∧ (r.1.tbs t).key = key ∧ (r.1.tbs t).Mapped r.1.phys
  grown : r.1.tbInvalidatedFlag = false → Grown s r.1

namespace ExecState

variable {cfg : Config} {s : ExecState} {b : Books} {key : Key} {gen : Generated} {cflags : Nat}

section Code

variable {pc : BitVec 32} {n : Nat} {code : List (BitVec 8)}

theorem map_of_mapM {α β : Type} {f : α → Option β} {l : List α} {l' : List β}
    (h : l.mapM f = some l') : l.map f = l'.map some := by
  induction l generalizing l' with
  | nil =>
    obtain rfl : [] = l' := Option.some.inj h
    rfl
  | cons a l ih =>
    rw [List.mapM_cons] at h
    obtain ⟨x, hx, h⟩ := Option.bind_eq_some_iff.mp h
    obtain ⟨xs, hxs, h⟩ := Option.bind_eq_some_iff.mp h
    obtain rfl := Option.some.inj h
    rw [List.map_cons, hx, ih hxs, List.map_cons]

theorem mapM_of_map {α β : Type} {f : α → Option β} {l : List α} {l' : List β}
    (h : l.map f = l'.map some) : l.mapM f = some l' := by
  induction l generalizing l' with
  | nil =>
    obtain rfl := List.map_eq_nil_iff.mp h.symm
    rfl
  | cons a l ih =>
    cases l' with
    | nil => cases h
    | cons x l' =>
      rw [List.map_cons, List.map_cons, List.cons.injEq] at h
      rw [List.mapM_cons, h.1, ih h.2]
      rfl

theorem guestCode_eq_some_iff : s.guestCode pc n = some code ↔
    code.length = n ∧ ∀ i < n, s.guestByte (pc + BitVec.ofNat 32 i) = code[i]? := by
  constructor
  · intro h
    have hmap := map_of_mapM h
    have hlength : code.length = n := by
      have hlen := congrArg List.length hmap
      rw [List.length_map, List.length_map, List.length_range] at hlen
      exact hlen.symm
    refine ⟨hlength, fun i hi => ?_⟩
    have hget := congrArg (fun l => l[i]?) hmap
    simp only [List.getElem?_map, List.getElem?_range hi, Option.map_some] at hget
    rw [List.getElem?_eq_getElem (hlength ▸ hi)] at hget ⊢
    exact Option.some.inj hget
  · rintro ⟨rfl, hall⟩
    refine mapM_of_map (List.ext_getElem (by simp) fun i hi hi' => ?_)
    rw [List.length_map] at hi'
    rw [List.getElem_map, List.getElem_map, List.getElem_range, hall i hi',
      List.getElem?_eq_getElem hi']

theorem guestByte_eq {tb : TranslationBlock} (hmapped : tb.Mapped s.phys)
    (hsecond : tb.page1 = none ↔ pageOffset tb.key.pc + tb.size ≤ targetPageSize)
    (hlt : pageOffset tb.key.pc + tb.size < 2 * targetPageSize) {i : Nat} (hi : i < tb.size) :
    s.guestByte (tb.key.pc + BitVec.ofNat 32 i) = some (s.ram (tb.byteAddr i)) := by
  rw [guestByte, pageOffset_add]
  by_cases hin : pageOffset tb.key.pc + i < targetPageSize
  · rw [vpage_add_of_lt hin, hmapped.first, Option.map_some, byteAddr_of_lt hin,
      Nat.mod_eq_of_lt hin]
  · have hsome : tb.page1 ≠ none := fun hnone => hin (by
      have hle := hsecond.mp hnone
      omega)
    obtain ⟨q, hq⟩ := Option.ne_none_iff_exists'.mp hsome
    have hmod : (pageOffset tb.key.pc + i) % targetPageSize =
        pageOffset tb.key.pc + i - targetPageSize := by
      rw [Nat.mod_eq_sub_mod (Nat.not_lt.mp hin), Nat.mod_eq_of_lt (by omega)]
    rw [vpage_add_of_le (Nat.not_lt.mp hin) (by omega), hmapped.second q hq, Option.map_some,
      byteAddr_of_le hin hq, hmod]

theorem guestCode_of_fresh {tb : TranslationBlock} (hformed : tb.Formed)
    (hmapped : tb.Mapped s.phys)
    (hfresh : ∀ i < tb.size, tb.code[i]? = some (s.ram (tb.byteAddr i))) :
    s.guestCode tb.key.pc tb.size = some tb.code := by
  refine guestCode_eq_some_iff.mpr ⟨hformed.length, fun i hi => ?_⟩
  rw [guestByte_eq hmapped hformed.second hformed.size_lt hi, hfresh i hi]

end Code

section Translate

theorem tbAllocFlush_eq (hcfg : cfg.Ok) (h : Core cfg s b) (hused : Used s b)
    (hfresh : FreshOk s.tbs s.ram b) (hcurrent : s.currentTb = none) (key : Key) (cflags : Nat) :
    ∃ s' b', s.tbAllocFlush cfg key cflags = some s' ∧ Core cfg s' b' ∧ Used s' b' ∧
      FreshOk s'.tbs s'.ram b' ∧ s'.ram = s.ram ∧ s'.phys = s.phys ∧ s'.currentTb = none ∧
      s'.codeGenPtr < cfg.codeGenBufferMaxSize ∧
      (∃ t, t + 1 = s'.nbTbs ∧ (s'.tbs t).key = key ∧ (s'.tbs t).code = [] ∧
        (s'.tbs t).tcPtr = s'.codeGenPtr) ∧
      (s'.tbInvalidatedFlag = false → Grown s s') := by
  -- what a block number more leaves, where there is room for it
  have halloc : ∀ {s : ExecState} {b : Books}, Core cfg s b → Used s b → FreshOk s.tbs s.ram b →
      ¬(cfg.codeGenMaxBlocks ≤ s.nbTbs ∨ cfg.codeGenBufferMaxSize ≤ s.codeGenPtr) →
      ∃ s', s.tbAlloc cfg key cflags = some s' ∧ Core cfg s' b ∧ Used s' b ∧
        FreshOk s'.tbs s'.ram b ∧ s'.ram = s.ram ∧ s'.phys = s.phys ∧
        s'.currentTb = s.currentTb ∧ s'.codeGenPtr < cfg.codeGenBufferMaxSize ∧
        (∃ t, t + 1 = s'.nbTbs ∧ (s'.tbs t).key = key ∧ (s'.tbs t).code = [] ∧
          (s'.tbs t).tcPtr = s'.codeGenPtr) ∧ Grown s s' := by
    intro s b h hused hfresh hroom
    obtain ⟨hcore, hgrown⟩ := tbAlloc_core h
      { s.tbs s.nbTbs with key, cflags, tcPtr := s.codeGenPtr, code := [] } rfl rfl
    refine ⟨_, if_neg hroom, hcore, hused, hfresh.congr fun t ht => (hgrown t (h.linked ht)).2,
      rfl, rfl, rfl, Nat.not_le.mp fun hle => hroom (.inr hle), ⟨s.nbTbs, rfl, ?_⟩, hgrown⟩
    simp only [Function.update_self, and_self]
  by_cases hroom : cfg.codeGenMaxBlocks ≤ s.nbTbs ∨ cfg.codeGenBufferMaxSize ≤ s.codeGenPtr
  · obtain ⟨s₁, hflush, hcore, hused', hnb, hptr, hcurrent', hram, hphys⟩ := tbFlush_eq h hcurrent
    have hroom' : ¬(cfg.codeGenMaxBlocks ≤ s₁.nbTbs ∨ cfg.codeGenBufferMaxSize ≤ s₁.codeGenPtr) := by
      rw [hnb, hptr, not_or, Nat.not_le, Nat.not_le]
      exact ⟨hcfg.blocks_pos, hcfg.size_pos⟩
    obtain ⟨s', heq, hcore', hused'', hfresh', hram', hphys', hcur, hlt, hnew, -⟩ :=
      halloc hcore hused' (fun t ht => ht.elim) hroom'
    refine ⟨{ s' with tbInvalidatedFlag := true }, Books.nil, ?_, ⟨hcore'.blocks, hcore'.linked,
      hcore'.hash, hcore'.pages, hcore'.jumps, hcore'.cache, hcore'.guard, hcore'.current⟩, hused'',
      hfresh', hram'.trans hram, hphys'.trans hphys, hcur.trans hcurrent', hlt, hnew,
      fun hflag => Bool.noConfusion hflag⟩
    have hnone : s.tbAlloc cfg key cflags = none := if_pos hroom
    simp only [tbAllocFlush, hnone, hflush, heq, Option.bind_some, Option.map_some]
  · obtain ⟨s', heq, hcore', hused', hfresh', hram', hphys', hcur, hlt, hnew, hgrown⟩ :=
      halloc h hused hfresh hroom
    exact ⟨s', b, by simp only [tbAllocFlush, heq], hcore', hused', hfresh', hram', hphys',
      hcur.trans hcurrent, hlt, hnew, fun _ => hgrown⟩

theorem secondPage_eq (hgen : GenOk cfg s key gen) :
    (if vpage key.pc = vpage (key.pc + BitVec.ofNat 32 (gen.size - 1)) then none
      else s.phys (vpage (key.pc + BitVec.ofNat 32 (gen.size - 1)))) =
      if pageOffset key.pc + gen.size ≤ targetPageSize then none else s.phys (nextPage key.pc) := by
  have hpos := hgen.size_pos
  have hsize := hgen.size_lt
  by_cases hin : pageOffset key.pc + gen.size ≤ targetPageSize
  · rw [if_pos hin, vpage_add_of_lt (by omega), if_pos rfl]
  · rw [if_neg hin, vpage_add_of_le (by omega) (by omega), if_neg (nextPage_ne _).symm]

theorem formed_of_genOk (hgen : GenOk cfg s key gen) {p : Nat} {code : List (BitVec 8)}
    (hp : s.phys (vpage key.pc) = some p) (hguest : s.guestCode key.pc gen.size = some code)
    {tb tb₀ : TranslationBlock} (hkey : tb₀.key = key)
    (htb : tb = { tb₀ with
      size := gen.size, tbNextOffset := gen.tbNextOffset, code, tcSize := gen.codeSize
      dest := gen.dest, page0 := p
      page1 := if pageOffset key.pc + gen.size ≤ targetPageSize then none
        else s.phys (nextPage key.pc) }) : tb.Formed ∧ tb.Mapped s.phys := by
  subst hkey htb
  obtain ⟨hlength, hbytes⟩ := guestCode_eq_some_iff.mp hguest
  have hmapped : ¬pageOffset tb₀.key.pc + gen.size ≤ targetPageSize →
      s.phys (nextPage tb₀.key.pc) ≠ none := by
    intro hin hnone
    have hpos := hgen.size_pos
    have hsize := hgen.size_lt
    have hbyte := hbytes (gen.size - 1) (by omega)
    rw [guestByte, vpage_add_of_le (by omega) (by omega), hnone,
      List.getElem?_eq_getElem (by omega)] at hbyte
    cases hbyte
  refine ⟨⟨hgen.size_pos, hgen.size_lt, hlength, hgen.exit, hgen.codeSize_pos, ⟨fun hnone => ?_,
    fun hin => if_pos hin⟩, fun heq => ?_⟩, hp, fun q hq => ?_⟩
  · by_contra hin
    exact hmapped hin ((if_neg hin).symm.trans hnone)
  · have heq' : (if pageOffset tb₀.key.pc + gen.size ≤ targetPageSize then none
        else s.phys (nextPage tb₀.key.pc)) = some p := heq
    split at heq'
    · cases heq'
    · next hin =>
      refine hgen.apart (Nat.not_le.mp hin) ?_ (heq'.trans hp.symm)
      rw [hp]
      exact Option.some_ne_none p
  · have hq' : (if pageOffset tb₀.key.pc + gen.size ≤ targetPageSize then none
        else s.phys (nextPage tb₀.key.pc)) = some q := hq
    split at hq'
    · cases hq'
    · exact hq'

theorem tbGenCode_eq (hcfg : cfg.Ok) (h : Core cfg s b) (hused : Used s b)
    (hfresh : FreshOk s.tbs s.ram b) (hcurrent : s.currentTb = none)
    (hgen : GenOk cfg s key gen) (cflags : Nat) :
    ∃ r b', s.tbGenCode cfg key cflags gen = some r ∧ Lookup cfg s key r b' := by
  cases hp : s.phys (vpage key.pc) with
  | none =>
    refine ⟨(s, none), b, ?_, h, hused, hfresh, rfl, rfl, hcurrent, fun t ht => ?_,
      fun _ t ht => ⟨ht, rfl⟩⟩
    · simp only [tbGenCode, hp]
    · cases ht
  | some p =>
    obtain ⟨s₁, b₁, halloc, hcore, hused', hfresh', hram, hphys, hcur, hlt, ⟨t, ht, hkey, hcode,
      hptr⟩, hgrown⟩ := tbAllocFlush_eq hcfg h hused hfresh hcurrent key cflags
    have hnum : s₁.nbTbs - 1 = t := ht ▸ Nat.add_sub_cancel t 1
    have hgen' : GenOk cfg s₁ key gen := ⟨hgen.size_pos, hgen.size_lt, hgen.exit,
      hgen.codeSize_pos, hgen.room, hphys ▸ hgen.apart⟩
    cases hguest : s₁.guestCode key.pc gen.size with
    | none =>
      refine ⟨(s₁, none), b₁, ?_, hcore, hused', hfresh', hram, hphys, hcur, fun u hu => ?_, hgrown⟩
      · simp only [tbGenCode, hp, halloc, Option.map_some, hguest]
      · cases hu
    | some code =>
      obtain ⟨tb, htb⟩ : ∃ tb : TranslationBlock, tb = { s₁.tbs t with
          size := gen.size, tbNextOffset := gen.tbNextOffset, code, tcSize := gen.codeSize
          dest := gen.dest, page0 := p
          page1 := if pageOffset key.pc + gen.size ≤ targetPageSize then none
            else s₁.phys (nextPage key.pc) } := ⟨_, rfl⟩
      have htbkey : tb.key = key := by rw [htb]; exact hkey
      obtain ⟨hformed, hmap⟩ := formed_of_genOk hgen' (hphys ▸ hp) hguest hkey htb
      have hroom : (s₁.codeGenPtr + gen.codeSize + codeGenAlign - 1) / codeGenAlign *
          codeGenAlign ≤ cfg.codeGenBufferSize := by
        have hspace := hgen.room
        simp only [codeGenAlign] at *
        omega
      obtain ⟨s₂, hlink, hcore', hused'', htbs, hnb, hram', hphys', hcur', hflag⟩ :=
        tbLinkPhys_core hcore ht hcode hptr htb hformed hroom
      have hself : s₂.tbs t = tb := by rw [htbs, Function.update_self]
      have hold : ∀ u, Linked s₁.tbs s₁.nbTbs u → s₂.tbs u = s₁.tbs u := by
        intro u hu
        rw [htbs]
        exact Function.update_of_ne (fun heq : u = t => hu.2 (heq ▸ hcode)) _ _
      refine ⟨(s₂, some t), b₁.add t tb, ?_, hcore', hused'' hused', ?_, hram'.trans hram,
        hphys'.trans hphys, hcur'.trans hcur, fun u hu => ?_, fun hf u hu => ?_⟩
      · simp only [tbGenCode, hp, halloc, Option.map_some, hnum, hguest]
        refine Eq.trans ?_ (congrArg (fun s => some (s, some t)) hlink)
        exact congrArg (fun page2 => some ((s₁.cpuGenCode t code gen).tbLinkPhys t p page2, some t))
          (secondPage_eq (s := s₁) hgen')
      · refine FreshOk.add (fun u hu => ?_) (fun i hi => ?_) tb
        · rw [hold u (hcore.linked hu), hram']
          exact hfresh' u hu
        · obtain ⟨-, hbytes⟩ := guestCode_eq_some_iff.mp hguest
          rw [hself] at hi ⊢
          have hbyte := guestByte_eq hmap hformed.second hformed.size_lt hi
          rw [htbkey, hbytes i (by rw [htb] at hi; exact hi)] at hbyte
          rw [hram', ← hbyte, htb]
      · obtain rfl := Option.some.inj hu
        rw [hself, hphys']
        exact ⟨.inl rfl, htbkey, hmap⟩
      · obtain ⟨hlinked, heq⟩ := hgrown (hflag ▸ hf) u hu
        refine ⟨⟨?_, ?_⟩, (hold u hlinked).trans heq⟩
        · exact hnb ▸ hlinked.1
        · rw [hold u hlinked]
          exact hlinked.2

end Translate

section Find

theorem findInChain_eq {p : Nat} (hp : s.phys (vpage key.pc) = some p) {l : List TbId}
    {ptr : Option TbId} {fuel : Nat} (h : Chain s.hash.next ptr l) (hfuel : l.length < fuel) :
    ∃ found, s.findInChain key p fuel ptr = some found ∧
      ∀ t, found = .block t → t ∈ l ∧ (s.tbs t).key = key ∧ (s.tbs t).Mapped s.phys := by
  induction l generalizing ptr fuel with
  | nil =>
    cases fuel with
    | zero => exact absurd hfuel (Nat.not_lt_zero _)
    | succ fuel =>
      rw [show ptr = none from h]
      exact ⟨.missing, rfl, fun t ht => Found.noConfusion ht⟩
  | cons u l ih =>
    cases fuel with
    | zero => exact absurd hfuel (Nat.not_lt_zero _)
    | succ fuel =>
      obtain ⟨found, hrest, hfound⟩ := ih h.2 (Nat.lt_of_succ_lt_succ hfuel)
      have hfound' : ∀ t, found = .block t →
          t ∈ u :: l ∧ (s.tbs t).key = key ∧ (s.tbs t).Mapped s.phys := fun t ht =>
        ⟨List.mem_cons_of_mem u (hfound t ht).1, (hfound t ht).2⟩
      rw [h.1, findInChain]
      by_cases hmatch : (s.tbs u).key = key ∧ (s.tbs u).page0 = p
      · obtain ⟨hkey, hpage⟩ := hmatch
        have hfirst : s.phys (vpage (s.tbs u).key.pc) = some (s.tbs u).page0 := by
          rw [hkey, hpage, hp]
        rw [if_pos ⟨hkey, hpage⟩]
        cases hsecond : (s.tbs u).page1 with
        | none =>
          refine ⟨.block u, rfl, fun t ht => ?_⟩
          obtain rfl := Found.block.inj ht
          refine ⟨List.mem_cons_self, hkey, hfirst, fun q hq => ?_⟩
          rw [hsecond] at hq
          cases hq
        | some q =>
          cases hq : s.phys (nextPage key.pc) with
          | none => exact ⟨.fault, rfl, fun t ht => Found.noConfusion ht⟩
          | some q' =>
            by_cases heq : q = q'
            · refine ⟨.block u, if_pos heq, fun t ht => ?_⟩
              obtain rfl := Found.block.inj ht
              refine ⟨List.mem_cons_self, hkey, hfirst, fun r hr => ?_⟩
              rw [hkey, hq, ← heq, ← hsecond, hr]
            · refine ⟨found, ?_, hfound'⟩
              simp only [if_neg heq]
              exact hrest
      · rw [if_neg hmatch]
        exact ⟨found, hrest, hfound'⟩

theorem lookup_cacheBlock {r : ExecState × Option TbId} (h : Lookup cfg s key r b) {t : TbId}
    (ht : r.2 = some t) : Lookup cfg s key (r.1.cacheBlock key t, some t) b := by
  obtain ⟨hlive, hkey, hmapped⟩ := h.block t ht
  refine ⟨⟨h.core.blocks, h.core.linked, h.core.hash, h.core.pages, h.core.jumps, fun i u hu => ?_,
    h.core.guard, h.core.current⟩, h.used, h.fresh, h.ram, h.phys, h.current, fun u hu => ?_,
    h.grown⟩
  · have hu' : Function.update r.1.tbJmpCache (jmpCacheHash key.pc) (some t) i = some u := hu
    by_cases hi : i = jmpCacheHash key.pc
    · rw [hi, Function.update_self] at hu'
      obtain rfl := Option.some.inj hu'
      exact ⟨hlive, by rw [hi, ← hkey]; rfl, hmapped⟩
    · rw [Function.update_of_ne hi] at hu'
      exact h.core.cache i u hu'
  · obtain rfl := Option.some.inj hu
    exact ⟨hlive, hkey, hmapped⟩

theorem tbFindSlow_eq (hcfg : cfg.Ok) (h : Core cfg s b) (hused : Used s b)
    (hfresh : FreshOk s.tbs s.ram b) (hcurrent : s.currentTb = none)
    (hgen : GenOk cfg s key gen) :
    ∃ r b', s.tbFindSlow cfg key gen = some r ∧ Lookup cfg s key r b' := by
  obtain ⟨s₀, hs₀⟩ : ∃ s₀, s₀ = { s with tbInvalidatedFlag := false } := ⟨_, rfl⟩
  have hcore : Core cfg s₀ b := by
    rw [hs₀]
    exact ⟨h.blocks, h.linked, h.hash, h.pages, h.jumps, h.cache, h.guard, h.current⟩
  have hfault : Lookup cfg s key (s₀, none) b := by
    subst hs₀
    exact ⟨hcore, hused, hfresh, rfl, rfl, hcurrent,
      fun t ht => absurd ht (Option.some_ne_none t).symm, fun _ t ht => ⟨ht, rfl⟩⟩
  unfold tbFindSlow
  rw [← hs₀]
  dsimp only
  cases hp : s₀.phys (vpage key.pc) with
  | none => exact ⟨_, b, rfl, hfault⟩
  | some p =>
    obtain ⟨found, heq, hfound⟩ := findInChain_eq hp
      (hcore.hash.chains.chain ((p * targetPageSize + pageOffset key.pc) % codeGenPhysHashSize))
      (hcore.length_chain _)
    simp only [heq, Option.bind_some]
    cases found with
    | fault => exact ⟨_, b, rfl, hfault⟩
    | block t =>
      obtain ⟨hmem, hkey, hmapped⟩ := hfound t rfl
      refine ⟨_, b, rfl, lookup_cacheBlock (r := (s₀, some t)) ⟨hfault.core, hfault.used,
        hfault.fresh, hfault.ram, hfault.phys, hfault.current, fun u hu => ?_, hfault.grown⟩ rfl⟩
      obtain rfl := Option.some.inj hu
      exact ⟨(hcore.hash.mem.mp hmem).1, hkey, hmapped⟩
    | missing =>
      have hgen' : GenOk cfg s₀ key gen := by
        subst hs₀
        exact ⟨hgen.size_pos, hgen.size_lt, hgen.exit, hgen.codeSize_pos, hgen.room, hgen.apart⟩
      obtain ⟨⟨s', found⟩, b', hgenCode, hlookup⟩ := tbGenCode_eq hcfg hcore hfault.used hfault.fresh
        hfault.current hgen' 0
      have hlookup' : Lookup cfg s key (s', found) b' := by
        subst hs₀
        exact ⟨hlookup.core, hlookup.used, hlookup.fresh, hlookup.ram, hlookup.phys,
          hlookup.current, hlookup.block, hlookup.grown⟩
      simp only [hgenCode, Option.map_some]
      cases found with
      | none => exact ⟨_, b', rfl, hlookup'⟩
      | some t => exact ⟨_, b', rfl, lookup_cacheBlock hlookup' rfl⟩

theorem tbFindFast_eq (hcfg : cfg.Ok) (h : Core cfg s b) (hused : Used s b)
    (hfresh : FreshOk s.tbs s.ram b) (hcurrent : s.currentTb = none)
    (hgen : GenOk cfg s key gen) :
    ∃ r b', s.tbFindFast cfg key gen = some r ∧ Lookup cfg s key r b' := by
  unfold tbFindFast
  cases hcached : s.tbJmpCache (jmpCacheHash key.pc) with
  | none => exact tbFindSlow_eq hcfg h hused hfresh hcurrent hgen
  | some t =>
    simp only
    by_cases hkey : (s.tbs t).key = key
    · obtain ⟨hlive, -, hmapped⟩ := h.cache _ t hcached
      refine ⟨(s, some t), b, if_pos hkey, h, hused, hfresh, rfl, rfl, hcurrent, fun u hu => ?_,
        fun _ u hu => ⟨hu, rfl⟩⟩
      obtain rfl := Option.some.inj hu
      exact ⟨hlive, hkey, hmapped⟩
    · rw [if_neg hkey]
      exact tbFindSlow_eq hcfg h hused hfresh hcurrent hgen

end Find

end ExecState

end M2M.Exec
