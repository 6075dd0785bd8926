import M2M.Exec.TbCache

/-! The blocks that are in the cache, and the lists that they are on: what holds of the state, and
that taking a block out keeps it. -/

open M2M.Lib M2M.Lib.Machine

namespace M2M.Exec

namespace TranslationBlock

/-- The address in RAM of a byte of the code. -/
def byteAddr (tb : TranslationBlock) (i : Nat) : Nat :=
  if pageOffset tb.key.pc + i < targetPageSize then
    tb.page0 * targetPageSize + (pageOffset tb.key.pc + i)
  else
    tb.page1.getD 0 * targetPageSize + (pageOffset tb.key.pc + i - targetPageSize)

/-- What the translator and the mapping of the pages make sure of. -/
structure Formed (tb : TranslationBlock) : Prop where
  size_pos : 0 < tb.size
  size_lt : pageOffset tb.key.pc + tb.size < 2 * targetPageSize
  length : tb.code.length = tb.size
  exit : ∀ n, tb.tbNextOffset n ≠ noOffset →
    0 < tb.tbNextOffset n ∧ tb.tbNextOffset n < tb.tcSize ∧
      vpage (tb.dest n).pc = vpage tb.key.pc
  tcSize_pos : 0 < tb.tcSize
  second : tb.page1 = none ↔ pageOffset tb.key.pc + tb.size ≤ targetPageSize
  apart : tb.page1 ≠ some tb.page0

/-- The virtual pages of the block lead to the pages that its code was read from. -/
structure Mapped (phys : Nat → Option Nat) (tb : TranslationBlock) : Prop where
  first : phys (vpage tb.key.pc) = some tb.page0
  second : ∀ q, tb.page1 = some q → phys (nextPage tb.key.pc) = some q

end TranslationBlock

/-- The blocks that were translated and put on the lists since the last flush. -/
def Linked (tbs : TbId → TranslationBlock) (nb : Nat) (t : TbId) : Prop :=
  t < nb ∧ (tbs t).code ≠ []

/-- What is in the cache: the blocks, the chains of the hash table, the blocks of each page, and
the jumps that lead to each block. -/
structure Books where
  live : TbId → Prop
  chain : Nat → List TbId
  page : Nat → List (TbId × Nat)
  ring : TbId → List (TbId × Nat)

structure BlocksOk (cfg : Config) (tbs : TbId → TranslationBlock) (nb ptr : Nat) : Prop where
  formed : ∀ {t}, Linked tbs nb t → (tbs t).Formed
  le : ∀ {i j}, i < j → j < nb → (tbs i).tcPtr ≤ (tbs j).tcPtr
  lt : ∀ {i j}, Linked tbs nb i → i < j → j < nb → (tbs i).tcPtr + (tbs i).tcSize ≤ (tbs j).tcPtr
  le_ptr : ∀ {i}, i < nb → (tbs i).tcPtr ≤ ptr
  lt_ptr : ∀ {i}, Linked tbs nb i → (tbs i).tcPtr + (tbs i).tcSize ≤ ptr
  room : ptr ≤ cfg.codeGenBufferSize

structure HashOk (tbs : TbId → TranslationBlock) (hash : Family Nat TbId) (b : Books) : Prop where
  chains : Chains hash.next hash.first b.chain
  mem : ∀ {t h}, t ∈ b.chain h ↔ b.live t ∧ (tbs t).bucket = h

structure PagesOk (tbs : TbId → TranslationBlock) (l1Map : Nat → Bool)
    (pages : Family Nat (TbId × Nat)) (b : Books) : Prop where
  chains : Chains pages.next pages.first b.page
  mem : ∀ {a p}, a ∈ b.page p ↔ b.live a.1 ∧ (tbs a.1).pageAddr a.2 = some p
  allocated : ∀ {t n p}, b.live t → (tbs t).pageAddr n = some p → l1Map (p / 1024) = true

/-- The exit leads to the block, by right. -/
structure Chained (tbs : TbId → TranslationBlock) (jmpTarget : TbId × Nat → Nat) (a : TbId × Nat)
    (t : TbId) : Prop where
  target : jmpTarget a = (tbs t).tcPtr
  single : (tbs t).page1 = none
  key : (tbs t).key = (tbs a.1).dest a.2
  page : (tbs t).page0 = (tbs a.1).page0
  exit : (tbs a.1).tbNextOffset a.2 ≠ noOffset

/-- The list of a block goes through `jmp_first`. -/
def jmpFirst (t : TbId) : TbId × Nat := (t, 2)

theorem jmpFirst_injective : Function.Injective jmpFirst := fun _ _ h => congrArg Prod.fst h

structure JumpsOk (tbs : TbId → TranslationBlock) (nb : Nat)
    (jmp : TbId × Nat → Option (TbId × Nat)) (jmpTarget : TbId × Nat → Nat) (b : Books) :
    Prop where
  rings : Rings jmp jmpFirst b.live b.ring
  mem : ∀ {t a}, b.live t → a ∈ b.ring t →
    a.2 < 2 ∧ Linked tbs nb a.1 ∧ Chained tbs jmpTarget a t
  loose : ∀ {a : TbId × Nat}, Linked tbs nb a.1 → a.2 < 2 → (∀ t, b.live t → a ∉ b.ring t) →
    jmp a = none ∧ (b.live a.1 → (tbs a.1).tbNextOffset a.2 ≠ noOffset →
      jmpTarget a = (tbs a.1).stub a.2)

def CacheOk (tbs : TbId → TranslationBlock) (cache : BitVec 32 → Option TbId)
    (phys : Nat → Option Nat) (b : Books) : Prop :=
  ∀ h t, cache h = some t →
    b.live t ∧ jmpCacheHash (tbs t).key.pc = h ∧ (tbs t).Mapped phys

/-- Stores to pages with blocks are tested, against a bitmap that shows all of their code. -/
structure GuardOk (tbs : TbId → TranslationBlock) (dirty : Nat → BitVec 8)
    (phys : Nat → Option Nat) (direct : Nat → Bool) (bitmap : Nat → Option (Nat → BitVec 8))
    (b : Books) : Prop where
  clean : ∀ {p}, b.page p ≠ [] → dirty p &&& codeDirtyFlag = 0
  tested : ∀ {p v}, b.page p ≠ [] → phys v = some p → direct v = false
  shown : ∀ {p tab}, bitmap p = some tab → ∀ a ∈ b.page p, ∀ k < targetPageSize,
    (tbs a.1).tbStart a.2 ≤ k → k < (tbs a.1).tbEnd a.2 → (tab (k / 8)).getLsbD (k % 8) = true

def FreshOk (tbs : TbId → TranslationBlock) (ram : Nat → BitVec 8) (b : Books) : Prop :=
  ∀ t, b.live t → ∀ i < (tbs t).size, (tbs t).code[i]? = some (ram ((tbs t).byteAddr i))

/-- All that holds between the operations, but for the contents of RAM. -/
structure Core (cfg : Config) (s : ExecState) (b : Books) : Prop where
  blocks : BlocksOk cfg s.tbs s.nbTbs s.codeGenPtr
  linked : ∀ {t}, b.live t → Linked s.tbs s.nbTbs t
  hash : HashOk s.tbs s.hash b
  pages : PagesOk s.tbs s.l1Map s.pages b
  jumps : JumpsOk s.tbs s.nbTbs s.jmp s.jmpTarget b
  cache : CacheOk s.tbs s.tbJmpCache s.phys b
  guard : GuardOk s.tbs s.physRamDirty s.phys s.direct s.codeBitmap b
  current : ∀ {t}, s.currentTb = some t → Linked s.tbs s.nbTbs t

section Lengths

theorem length_le_of_nodup {l : List (TbId × Nat)} {nb : Nat} (hnodup : l.Nodup)
    (hlt : ∀ a ∈ l, a.1 < nb) (htag : ∀ a ∈ l, a.2 < 2) : l.length ≤ 2 * nb := by
  have hsub : l ⊆ List.range nb ×ˢ List.range 2 := by
    intro a ha
    exact List.mem_product.mpr ⟨List.mem_range.mpr (hlt a ha), List.mem_range.mpr (htag a ha)⟩
  have hle := (hnodup.subperm hsub).length_le
  rw [List.length_product, List.length_range, List.length_range, Nat.mul_comm] at hle
  exact hle

variable {cfg : Config} {s : ExecState} {b : Books}

theorem pageAddr_lt {tb : TranslationBlock} {n p : Nat} (h : tb.pageAddr n = some p) : n < 2 := by
  unfold TranslationBlock.pageAddr at h
  split at h
  · omega
  · split at h
    · omega
    · cases h

theorem Core.length_chain (h : Core cfg s b) (i : Nat) : (b.chain i).length < s.fuel := by
  have hsub : b.chain i ⊆ List.range s.nbTbs := fun t ht =>
    List.mem_range.mpr (h.linked (h.hash.mem.mp ht).1).1
  have hle := ((h.hash.chains.nodup i).subperm hsub).length_le
  rw [List.length_range] at hle
  unfold ExecState.fuel
  omega

theorem Core.length_page (h : Core cfg s b) (p : Nat) : (b.page p).length < s.fuel := by
  have hle := length_le_of_nodup (h.pages.chains.nodup p)
    (fun a ha => (h.linked (h.pages.mem.mp ha).1).1)
    (fun a ha => pageAddr_lt (h.pages.mem.mp ha).2)
  unfold ExecState.fuel
  omega

theorem JumpsOk.length_ring {tbs : TbId → TranslationBlock} {nb : Nat}
    {jmp : TbId × Nat → Option (TbId × Nat)} {jmpTarget : TbId × Nat → Nat}
    (h : JumpsOk tbs nb jmp jmpTarget b) {t : TbId} (ht : b.live t) :
    (b.ring t).length < 2 * nb + 2 := by
  have hle := length_le_of_nodup (h.rings.nodup t ht) (fun a ha => (h.mem ht ha).2.1.1)
    (fun a ha => (h.mem ht ha).1)
  omega

end Lengths

/-- The books without a block. -/
def Books.drop (b : Books) (t : TbId) : Books where
  live u := b.live u ∧ u ≠ t
  chain h := (b.chain h).filter fun u => decide (u ≠ t)
  page p := (b.page p).filter fun a => decide (a.1 ≠ t)
  ring u := (b.ring u).filter fun a => decide (a.1 ≠ t)

section Drop

variable {b : Books} {t u : TbId} {tbs : TbId → TranslationBlock}

theorem CacheOk.drop {cache : BitVec 32 → Option TbId} {phys : Nat → Option Nat}
    (h : CacheOk tbs cache phys b) (t : TbId) :
    CacheOk tbs (if cache (jmpCacheHash (tbs t).key.pc) = some t then
      Function.update cache (jmpCacheHash (tbs t).key.pc) none else cache) phys (b.drop t) := by
  intro i u hu
  have hold : cache i = some u := by
    split at hu
    · by_cases hi : i = jmpCacheHash (tbs t).key.pc
      · rw [hi, Function.update_self] at hu
        cases hu
      · rwa [Function.update_of_ne hi] at hu
    · exact hu
  obtain ⟨hlive, hhash, hmapped⟩ := h i u hold
  refine ⟨⟨hlive, ?_⟩, hhash, hmapped⟩
  rintro rfl
  rw [hhash, if_pos hold, Function.update_self] at hu
  cases hu

theorem GuardOk.drop {dirty : Nat → BitVec 8} {phys : Nat → Option Nat} {direct : Nat → Bool}
    {bitmap bitmap' : Nat → Option (Nat → BitVec 8)}
    (h : GuardOk tbs dirty phys direct bitmap b) (t : TbId)
    (hbitmap : ∀ {p tab}, bitmap' p = some tab → bitmap p = some tab) :
    GuardOk tbs dirty phys direct bitmap' (b.drop t) := by
  have hsome : ∀ {p}, (b.drop t).page p ≠ [] → b.page p ≠ [] := by
    intro p hp hnil
    refine hp ?_
    simp only [Books.drop, hnil, List.filter_nil]
  refine ⟨fun hp => h.clean (hsome hp), fun hp => h.tested (hsome hp), fun {p tab} htab a ha => ?_⟩
  exact h.shown (hbitmap htab) a (List.mem_filter.mp ha).1

end Drop

namespace ExecState

variable {cfg : Config} {s : ExecState} {b : Books} {t : TbId}

theorem tbPageRemove_eq {page : Nat → List (TbId × Nat)} {p n : Nat}
    (h : Chains s.pages.next s.pages.first page) (hmem : (t, n) ∈ page p)
    (hother : ∀ a ∈ page p, a.1 = t → a = (t, n)) (hl1 : s.l1Map (p / 1024) = true)
    (hlength : (page p).length < s.fuel) :
    ∃ pages, s.tbPageRemove p t = some ({ s with pages }.invalidatePageBitmap p) ∧
      Chains pages.next pages.first
        (fun j => (page j).filter fun a => decide (a ≠ (t, n))) := by
  obtain ⟨g, hremove, hg⟩ := Family.chains_remove h hmem
    (by exact decide_eq_true rfl)
    (fun a ha (hset : decide (a.1 = t) = true) => hother a ha (of_decide_eq_true hset)) hlength
  refine ⟨g, ?_, hg⟩
  rw [tbPageRemove, if_pos hl1, hremove, Option.map_some]

theorem tbJmpRemove_eq {ring : TbId → List (TbId × Nat)} {live : TbId → Prop} {n : Nat}
    (h : Rings s.jmp jmpFirst live ring)
    (hloose : (∀ u, live u → (t, n) ∉ ring u) → s.jmp (t, n) = none)
    (hlength : ∀ u, live u → (ring u).length < s.fuel) :
    ∃ jmp, s.tbJmpRemove t n = some { s with jmp } ∧
      Rings jmp jmpFirst live (fun u => (ring u).filter fun a => decide (a ≠ (t, n))) ∧
      jmp (t, n) = none ∧
      ∀ c, c.2 ≠ 2 → (∀ u, live u → c ∉ ring u) → jmp c = s.jmp c := by
  by_cases hnone : ∀ u, live u → (t, n) ∉ ring u
  · have hjmp := hloose hnone
    refine ⟨s.jmp, ?_, h.congr (fun _ hu => hu) (fun u hu => ?_) fun _ _ _ _ => rfl, hjmp,
      fun _ _ _ => rfl⟩
    · rw [tbJmpRemove, hjmp]
    · refine List.filter_eq_self.mpr fun a ha => decide_eq_true ?_
      rintro rfl
      exact hnone u hu ha
  · push Not at hnone
    obtain ⟨u, hu, hmem⟩ := hnone
    obtain ⟨front, back, hring⟩ := List.append_of_mem hmem
    have hnext := h.next_ne_none hu hmem
    have hbefore := h.before_eq hu hring (hlength u hu)
    have hremove := h.remove jmpFirst_injective hu hring
    refine ⟨_, ?_, hremove.congr (fun _ hv => hv) (fun v hv => ?_) fun _ _ _ _ => rfl,
      Function.update_self _ _ _, fun c hc hout => ?_⟩
    · cases hval : s.jmp (t, n) with
      | none => exact absurd hval hnext
      | some c => simp only [tbJmpRemove, hval, hbefore, Option.map_some]
    · have hnodup := h.nodup u hu
      rw [hring] at hnodup
      have hnot := (List.nodup_cons.mp (List.nodup_middle.mp hnodup)).1
      by_cases hvu : v = u
      · rw [hvu, Function.update_self, hring, List.filter_append,
          List.filter_cons_of_neg (by simp), ← List.filter_append]
        refine List.filter_eq_self.mpr fun a ha => decide_eq_true ?_
        rintro rfl
        exact hnot ha
      · rw [Function.update_of_ne hvu]
        refine List.filter_eq_self.mpr fun a ha => decide_eq_true ?_
        rintro rfl
        exact hvu (h.apart hv hu ha hmem)
    · have hca : c ≠ (t, n) := by
        rintro rfl
        exact hout u hu hmem
      have hcb : c ≠ (jmpFirst u :: front).getLast (List.cons_ne_nil _ _) := by
        intro heq
        rcases List.mem_cons.mp (heq ▸ List.getLast_mem (List.cons_ne_nil (jmpFirst u) front)) with
          hhead | hfront
        · exact hc (congrArg Prod.snd hhead)
        · exact hout u hu (hring ▸ List.mem_append_left _ hfront)
      rw [Function.update_of_ne hca, Function.update_of_ne hcb]

theorem resetJumps_eq {l : List (TbId × Nat)} {p : Option (TbId × Nat)} {fuel : Nat}
    (h : Seg s.jmp p l (some (jmpFirst t))) (hnodup : l.Nodup) (htag : ∀ a ∈ l, a.2 ≠ 2)
    (hfuel : l.length < fuel) :
    ∃ first, p = some first ∧ resetJumps fuel s first = some { s with
      jmp := fun c => if c ∈ l then none else s.jmp c
      jmpTarget := fun c => if c ∈ l then (s.tbs c.1).stub c.2 else s.jmpTarget c } := by
  induction l generalizing s p fuel with
  | nil =>
    cases fuel with
    | zero => exact absurd hfuel (Nat.not_lt_zero _)
    | succ fuel =>
      refine ⟨jmpFirst t, h, ?_⟩
      simp [resetJumps, jmpFirst]
  | cons a l ih =>
    cases fuel with
    | zero => exact absurd hfuel (Nat.not_lt_zero _)
    | succ fuel =>
      rw [List.forall_mem_cons] at htag
      rw [List.nodup_cons] at hnodup
      have htouch : Seg (Function.update s.jmp a none) (s.jmp a) l (some (jmpFirst t)) :=
        h.2.touch hnodup.1 none
      obtain ⟨next, hnext, hloop⟩ := ih
        (s := { s.tbResetJump a.1 a.2 with jmp := Function.update s.jmp a none }) htouch hnodup.2
        htag.2 (Nat.lt_of_succ_lt_succ hfuel)
      refine ⟨a, h.1, ?_⟩
      rw [resetJumps, if_neg htag.1, hnext, Option.bind_some]
      refine hloop.trans ?_
      congr 2
      · funext c
        by_cases hca : c = a
        · simp [hca]
        · simp [hca]
      · funext c
        by_cases hca : c = a
        · simp [hca, tbResetJump]
        · simp [hca, tbResetJump]

theorem tbJumpsRemove_eq (h : JumpsOk s.tbs s.nbTbs s.jmp s.jmpTarget b)
    (hlinked : ∀ {u}, b.live u → Linked s.tbs s.nbTbs u) (ht : b.live t) :
    ∃ jmp jmpTarget, ((s.tbJmpRemove t 0).bind fun s => (s.tbJmpRemove t 1).bind fun s =>
        s.tbJmpClear t) = some { s with jmp, jmpTarget } ∧
      JumpsOk s.tbs s.nbTbs jmp jmpTarget (b.drop t) := by
  have hlt := hlinked ht
  have htag : ∀ u, b.live u → ∀ a ∈ b.ring u, a.2 < 2 := fun u hu a ha => (h.mem hu ha).1
  obtain ⟨jmp0, hremove0, hrings0, hnone0, hkept0⟩ := tbJmpRemove_eq (n := 0) h.rings
    (fun hout => (h.loose (a := (t, 0)) hlt Nat.two_pos hout).1) fun u hu => h.length_ring hu
  have hsub0 : ∀ u, ((b.ring u).filter fun a => decide (a ≠ (t, 0))).length ≤ (b.ring u).length :=
    fun u => List.length_filter_le _ _
  have hloose1 : (∀ u, b.live u → (t, 1) ∉ (b.ring u).filter fun a => decide (a ≠ (t, 0))) →
      jmp0 (t, 1) = none := by
    intro hout
    have hold : ∀ u, b.live u → (t, 1) ∉ b.ring u := by
      intro u hu hmem
      exact hout u hu (List.mem_filter.mpr ⟨hmem, by simp⟩)
    rw [hkept0 (t, 1) (by simp) hold]
    exact (h.loose (a := (t, 1)) hlt Nat.one_lt_two hold).1
  obtain ⟨jmp1, hremove1, hrings1, hnone1, hkept1⟩ :=
    tbJmpRemove_eq (s := { s with jmp := jmp0 }) (n := 1) hrings0 hloose1
      fun u hu => lt_of_le_of_lt (hsub0 u) (h.length_ring hu)
  -- the ring of the block, without the jumps of the block itself
  obtain ⟨l, hl⟩ : ∃ l, l = (((b.ring t).filter fun a => decide (a ≠ (t, 0))).filter
      fun a => decide (a ≠ (t, 1))) := ⟨_, rfl⟩
  have hmeml : ∀ {a}, a ∈ l → a ∈ b.ring t := fun ha =>
    (List.mem_filter.mp (List.mem_filter.mp (hl ▸ ha)).1).1
  have hseg : Seg jmp1 (jmp1 (t, 2)) l (some (jmpFirst t)) := hl ▸ hrings1.seg t ht
  have hlength : l.length < s.fuel := by
    have hle : l.length ≤ (b.ring t).length := by
      rw [hl]
      exact (List.length_filter_le _ _).trans (List.length_filter_le _ _)
    exact lt_of_le_of_lt hle (h.length_ring ht)
  obtain ⟨first, hfirst, hclear⟩ := resetJumps_eq (s := { s with jmp := jmp1 }) hseg
    (hl ▸ hrings1.nodup t ht) (fun a ha => Nat.ne_of_lt (htag t ht a (hmeml ha))) hlength
  refine ⟨Function.update (fun c => if c ∈ l then none else jmp1 c) (t, 2) (some (t, 2)),
    fun c => if c ∈ l then (s.tbs c.1).stub c.2 else s.jmpTarget c, ?_, ?_⟩
  · have hbind := congrArg
      (Option.bind · fun first => resetJumps s.fuel { s with jmp := jmp1 } first) hfirst
    rw [hremove0, Option.bind_some, hremove1, Option.bind_some]
    exact congrArg (Option.map _) (hbind.trans hclear)
  have hring : ∀ u, b.live u → (b.ring u).filter (fun a => decide (a.1 ≠ t)) =
      ((b.ring u).filter fun a => decide (a ≠ (t, 0))).filter fun a => decide (a ≠ (t, 1)) := by
    intro u hu
    rw [List.filter_filter]
    refine List.filter_congr fun a ha => ?_
    have hlt2 := htag u hu a ha
    have hiff : a.1 = t ↔ a = (t, 1) ∨ a = (t, 0) := by
      constructor
      · intro heq
        rcases Nat.lt_succ_iff_lt_or_eq.mp hlt2 with hzero | hone
        · exact .inr (Prod.ext heq (Nat.lt_one_iff.mp hzero))
        · exact .inl (Prod.ext heq hone)
      · rintro (rfl | rfl) <;> rfl
    rw [Bool.eq_iff_iff]
    simp [hiff]
  refine ⟨?_, fun {u a} hu ha => ?_, fun {a} hlinked htag2 hout => ?_⟩
  · refine hrings1.congr (fun u hu => hu.1) (fun u hu => hring u hu.1) fun u hu a ha => ?_
    have hal : a ∉ l := by
      intro hmem
      rcases List.mem_cons.mp ha with rfl | ha
      · exact absurd (htag t ht _ (hmeml hmem)) (Nat.lt_irrefl 2)
      · have hau : a ∈ b.ring u := (List.mem_filter.mp (List.mem_filter.mp ha).1).1
        exact hu.2 (h.rings.apart hu.1 ht hau (hmeml hmem))
    have hat : a ≠ (t, 2) := by
      rintro rfl
      rcases List.mem_cons.mp ha with hhead | ha
      · exact hu.2 (congrArg Prod.fst hhead).symm
      · have hmem : (t, 2) ∈ b.ring u := (List.mem_filter.mp (List.mem_filter.mp ha).1).1
        exact absurd (htag u hu.1 _ hmem) (Nat.lt_irrefl 2)
    rw [Function.update_of_ne hat, if_neg hal]
  · obtain ⟨hau, hat⟩ := List.mem_filter.mp ha
    obtain ⟨hlt2, hlink, hchained⟩ := h.mem hu.1 hau
    have hal : a ∉ l := fun hmem => hu.2 (h.rings.apart hu.1 ht hau (hmeml hmem))
    refine ⟨hlt2, hlink, ?_, hchained.single, hchained.key, hchained.page, hchained.exit⟩
    exact (if_neg hal).trans hchained.target
  · by_cases hal : a ∈ l
    · have hane : a ≠ (t, 2) := fun heq => absurd htag2 (heq ▸ Nat.lt_irrefl 2)
      refine ⟨?_, fun _ _ => if_pos hal⟩
      rw [Function.update_of_ne hane, if_pos hal]
    have hane : a ≠ (t, 2) := fun heq => absurd htag2 (heq ▸ Nat.lt_irrefl 2)
    rw [Function.update_of_ne hane, if_neg hal, if_neg hal]
    by_cases hat : a.1 = t
    · refine ⟨?_, fun hlive => absurd hat hlive.2⟩
      rcases Nat.lt_succ_iff_lt_or_eq.mp htag2 with hzero | hone
      · have ha : a = (t, 0) := Prod.ext hat (Nat.lt_one_iff.mp hzero)
        have hkeep := hkept1 (t, 0) (by simp) fun u hu hmem => by
          simp at hmem
        rw [ha, hkeep]
        exact hnone0
      · rw [show a = (t, 1) from Prod.ext hat hone]
        exact hnone1
    · -- the exit of another block, on no list now: it was on none, or on that of `t`
      have hout' : ∀ u, b.live u → a ∉ b.ring u := by
        intro u hu hmem
        by_cases hut : u = t
        · subst hut
          refine hal (hl ▸ ?_)
          rw [← hring u hu]
          exact List.mem_filter.mpr ⟨hmem, decide_eq_true hat⟩
        · exact hout u ⟨hu, hut⟩ (List.mem_filter.mpr ⟨hmem, decide_eq_true hat⟩)
      have htag' : a.2 ≠ 2 := Nat.ne_of_lt htag2
      have hkeep0 := hkept0 a htag' hout'
      have hkeep1 := hkept1 a htag' fun u hu hmem => hout' u hu (List.mem_filter.mp hmem).1
      obtain ⟨hnone, htarget⟩ := h.loose hlinked htag2 hout'
      exact ⟨hkeep1.trans (hkeep0.trans hnone), fun hlive => htarget hlive.1⟩

theorem tbPagesRemove_eq (h : PagesOk s.tbs s.l1Map s.pages b) (ht : b.live t)
    (happart : (s.tbs t).page1 ≠ some (s.tbs t).page0)
    (hlength : ∀ p, (b.page p).length < s.fuel) :
    ∃ pages bitmap count, ((s.tbPageRemove (s.tbs t).page0 t).bind fun s =>
        s.tbPageRemoveSecond t) =
          some { s with pages, codeBitmap := bitmap, codeWriteCount := count } ∧
      Chains pages.next pages.first (b.drop t).page ∧
      ∀ {p tab}, bitmap p = some tab →
        s.codeBitmap p = some tab ∧ ∀ a ∈ b.page p, a.1 ≠ t := by
  have hnode : ∀ {a p}, a ∈ b.page p → a.1 = t →
      a = (t, 0) ∧ p = (s.tbs t).page0 ∨ a = (t, 1) ∧ (s.tbs t).page1 = some p := by
    intro a p ha hat
    obtain ⟨-, hpage⟩ := h.mem.mp ha
    have hlt := pageAddr_lt hpage
    rw [hat] at hpage
    rcases Nat.lt_succ_iff_lt_or_eq.mp hlt with hzero | hone
    · rw [Nat.lt_one_iff.mp hzero] at hpage
      exact .inl ⟨Prod.ext hat (Nat.lt_one_iff.mp hzero), (Option.some.inj hpage).symm⟩
    · rw [hone] at hpage
      exact .inr ⟨Prod.ext hat hone, hpage⟩
  have hmem0 : (t, 0) ∈ b.page (s.tbs t).page0 := h.mem.mpr ⟨ht, rfl⟩
  obtain ⟨pages0, hremove0, hchains0⟩ := tbPageRemove_eq h.chains hmem0
    (fun a ha hat => ((hnode ha hat).resolve_right fun hr => happart hr.2).1)
    (h.allocated (n := 0) ht rfl) (hlength _)
  have hbitmap0 : ∀ {p tab}, Function.update s.codeBitmap (s.tbs t).page0 none p = some tab →
      p ≠ (s.tbs t).page0 ∧ s.codeBitmap p = some tab := by
    intro p tab htab
    by_cases hp : p = (s.tbs t).page0
    · rw [hp, Function.update_self] at htab
      cases htab
    · exact ⟨hp, by rwa [Function.update_of_ne hp] at htab⟩
  cases hsecond : (s.tbs t).page1 with
  | none =>
    refine ⟨pages0, Function.update s.codeBitmap (s.tbs t).page0 none,
      Function.update s.codeWriteCount (s.tbs t).page0 0, ?_, ?_, fun {p tab} htab => ?_⟩
    · rw [hremove0, Option.bind_some]
      simp only [tbPageRemoveSecond, invalidatePageBitmap, hsecond]
    · have heq : (b.drop t).page = fun j => (b.page j).filter fun a => decide (a ≠ (t, 0)) := by
        funext p
        refine List.filter_congr fun a ha => ?_
        have hiff : a.1 = t ↔ a = (t, 0) := by
          constructor
          · intro hat
            exact ((hnode ha hat).resolve_right fun hr => by rw [hsecond] at hr; cases hr.2).1
          · rintro rfl
            rfl
        simp [hiff]
      exact heq ▸ hchains0
    · obtain ⟨hp, hold⟩ := hbitmap0 htab
      refine ⟨hold, fun a ha hat => ?_⟩
      rcases hnode ha hat with ⟨-, hpage⟩ | ⟨-, hpage⟩
      · exact hp hpage
      · rw [hsecond] at hpage
        cases hpage
  | some q =>
    have hq : q ≠ (s.tbs t).page0 := fun heq => happart (heq ▸ hsecond)
    have hmem1 : (t, 1) ∈ b.page q := h.mem.mpr ⟨ht, hsecond⟩
    have hmem1' : (t, 1) ∈ (b.page q).filter fun a => decide (a ≠ (t, 0)) :=
      List.mem_filter.mpr ⟨hmem1, by simp⟩
    obtain ⟨pages1, hremove1, hchains1⟩ := tbPageRemove_eq
      (s := { s with pages := pages0 }.invalidatePageBitmap (s.tbs t).page0) hchains0 hmem1'
      (fun a ha hat => ((hnode (List.mem_filter.mp ha).1 hat).resolve_left
        fun hl => hq hl.2).1)
      (h.allocated (n := 1) ht hsecond)
      (lt_of_le_of_lt (List.length_filter_le _ _) (hlength q))
    refine ⟨pages1, Function.update (Function.update s.codeBitmap (s.tbs t).page0 none) q none,
      Function.update (Function.update s.codeWriteCount (s.tbs t).page0 0) q 0, ?_, ?_,
      fun {p tab} htab => ?_⟩
    · rw [hremove0, Option.bind_some]
      have hsame : (({ s with pages := pages0 }.invalidatePageBitmap (s.tbs t).page0).tbs t).page1 =
          some q := hsecond
      simp only [tbPageRemoveSecond, hsame]
      rw [hremove1]
      rfl
    · have heq : (b.drop t).page = fun j => ((b.page j).filter fun a => decide (a ≠ (t, 0))).filter
          fun a => decide (a ≠ (t, 1)) := by
        funext p
        refine Eq.trans (List.filter_congr fun a ha => ?_) List.filter_filter.symm
        have hiff : a.1 = t ↔ a = (t, 1) ∨ a = (t, 0) := by
          constructor
          · intro hat
            exact (hnode ha hat).elim (fun hl => .inr hl.1) fun hr => .inl hr.1
          · rintro (rfl | rfl) <;> rfl
        rw [Bool.eq_iff_iff]
        simp [hiff]
      exact heq ▸ hchains1
    · have htab' : Function.update (Function.update s.codeBitmap (s.tbs t).page0 none) q none p =
          some tab := htab
      by_cases hpq : p = q
      · rw [hpq, Function.update_self] at htab'
        cases htab'
      rw [Function.update_of_ne hpq] at htab'
      obtain ⟨hp, hold⟩ := hbitmap0 htab'
      refine ⟨hold, fun a ha hat => ?_⟩
      rcases hnode ha hat with ⟨-, hpage⟩ | ⟨-, hpage⟩
      · exact hp hpage
      · exact hpq (Option.some.inj (hpage.symm.trans hsecond))

/-- What taking blocks out leaves as it was. -/
structure Kept (s s' : ExecState) : Prop where
  tbs : s'.tbs = s.tbs
  nbTbs : s'.nbTbs = s.nbTbs
  codeGenPtr : s'.codeGenPtr = s.codeGenPtr
  l1Map : s'.l1Map = s.l1Map
  currentTb : s'.currentTb = s.currentTb
  ram : s'.ram = s.ram
  physRamDirty : s'.physRamDirty = s.physRamDirty
  phys : s'.phys = s.phys
  direct : s'.direct = s.direct

theorem Kept.refl (s : ExecState) : s.Kept s := ⟨rfl, rfl, rfl, rfl, rfl, rfl, rfl, rfl, rfl⟩

theorem Kept.trans {s' s'' : ExecState} (h : s.Kept s') (h' : s'.Kept s'') : s.Kept s'' :=
  ⟨h'.tbs.trans h.tbs, h'.nbTbs.trans h.nbTbs, h'.codeGenPtr.trans h.codeGenPtr,
    h'.l1Map.trans h.l1Map, h'.currentTb.trans h.currentTb, h'.ram.trans h.ram,
    h'.physRamDirty.trans h.physRamDirty, h'.phys.trans h.phys, h'.direct.trans h.direct⟩

theorem tbPhysInvalidate_eq (h : Core cfg s b) (ht : b.live t) :
    ∃ s', s.tbPhysInvalidate t = some s' ∧ Core cfg s' (b.drop t) ∧ s.Kept s' ∧
      ∀ {p tab}, s'.codeBitmap p = some tab →
        s.codeBitmap p = some tab ∧ (b.drop t).page p = b.page p := by
  have hmem : t ∈ b.chain (s.tbs t).bucket := h.hash.mem.mpr ⟨ht, rfl⟩
  obtain ⟨hash, hhash, hchains⟩ := Family.chains_remove h.hash.chains hmem
    (by exact decide_eq_true rfl)
    (fun u _ (hu : decide (u = t) = true) => of_decide_eq_true hu) (h.length_chain _)
  obtain ⟨pages, bitmap, count, hpages, hpchains, hbitmap⟩ := tbPagesRemove_eq
    (s := { s with hash }) h.pages ht (h.blocks.formed (h.linked ht)).apart h.length_page
  obtain ⟨jmp, jmpTarget, hjumps, hjumpsOk⟩ := tbJumpsRemove_eq
    (s := { s with
      hash, pages, codeBitmap := bitmap, codeWriteCount := count, tbInvalidatedFlag := true
      tbJmpCache := if s.tbJmpCache (jmpCacheHash (s.tbs t).key.pc) = some t then
        Function.update s.tbJmpCache (jmpCacheHash (s.tbs t).key.pc) none else s.tbJmpCache })
    h.jumps h.linked ht
  have heq : s.tbPhysInvalidate t = some { s with
      hash, pages, codeBitmap := bitmap, codeWriteCount := count, tbInvalidatedFlag := true
      tbJmpCache := if s.tbJmpCache (jmpCacheHash (s.tbs t).key.pc) = some t then
        Function.update s.tbJmpCache (jmpCacheHash (s.tbs t).key.pc) none else s.tbJmpCache
      jmp, jmpTarget } := by
    rw [tbPhysInvalidate, hhash, Option.bind_some, ← Option.bind_assoc, hpages, Option.bind_some]
    exact hjumps
  refine ⟨_, heq, ⟨h.blocks, fun hu => h.linked hu.1, ⟨hchains, fun {u i} => ?_⟩,
    ⟨hpchains, fun {a p} => ?_, fun hu hp => h.pages.allocated hu.1 hp⟩, hjumpsOk,
    h.cache.drop t, h.guard.drop t fun htab => (hbitmap htab).1, h.current⟩, ⟨rfl, rfl, rfl, rfl, rfl, rfl, rfl, rfl, rfl⟩,
    fun {p tab} htab => ⟨(hbitmap htab).1,
      List.filter_eq_self.mpr fun a ha => decide_eq_true ((hbitmap htab).2 a ha)⟩⟩
  · simp only [Books.drop, List.mem_filter, decide_eq_true_eq, h.hash.mem]
    exact and_right_comm
  · simp only [Books.drop, List.mem_filter, decide_eq_true_eq, h.pages.mem]
    exact and_right_comm

end ExecState

end M2M.Exec
