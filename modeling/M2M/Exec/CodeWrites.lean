import M2M.Exec.TbBooks

/-! Stores to RAM: every block whose code they meet is taken out of the cache, also where a bitmap
of the page spares the walk over its blocks. -/

open M2M.Lib M2M.Lib.Machine

namespace M2M.Exec

section Bits

theorem getLsbD_ones_shiftLeft {i j : Nat} (hj : j < 8) :
    (0xff#8 <<< i).getLsbD j = decide (i ≤ j) := by
  have hones : ∀ k < 8, (0xff#8).getLsbD k = true := by decide
  rw [BitVec.getLsbD_shiftLeft]
  by_cases hij : i ≤ j
  · have hsub : j - i < 8 := by omega
    simp [hij, hj, hones _ hsub, Nat.not_lt.mpr hij]
  · simp [hij, Nat.lt_of_not_le hij]

theorem getLsbD_not_ones_shiftLeft {i j : Nat} (hj : j < 8) :
    (~~~(0xff#8 <<< i)).getLsbD j = decide (j < i) := by
  rw [BitVec.getLsbD_not, getLsbD_ones_shiftLeft hj]
  by_cases hij : j < i
  · simp [hj, hij, Nat.not_le.mpr hij]
  · simp [hj, hij, Nat.not_lt.mp hij]

theorem getLsbD_setBits (tab : Nat → BitVec 8) {start stop : Nat} (hle : start ≤ stop) (k : Nat) :
    (setBits tab start stop (k / 8)).getLsbD (k % 8) =
      ((tab (k / 8)).getLsbD (k % 8) || decide (start ≤ k ∧ k < stop)) := by
  have hj : k % 8 < 8 := Nat.mod_lt k (by decide)
  have hones : (0xff#8).getLsbD (k % 8) = true := by
    have hall : ∀ j < 8, (0xff#8).getLsbD j = true := by decide
    exact hall _ hj
  unfold setBits
  by_cases hsame : start / 8 = stop / 8
  · simp only [if_pos hsame]
    by_cases hlt : start < stop
    · rw [if_pos hlt]
      by_cases hk : k / 8 = start / 8
      · rw [hk, Function.update_self, BitVec.getLsbD_or, BitVec.getLsbD_and,
          getLsbD_ones_shiftLeft hj, getLsbD_not_ones_shiftLeft hj, ← Bool.decide_and]
        congr 2
        rw [eq_iff_iff]
        omega
      · rw [Function.update_of_ne hk, decide_eq_false (by omega), Bool.or_false]
    · rw [if_neg hlt, decide_eq_false (by omega), Bool.or_false]
  · -- the first byte, the bytes between, and the rest of the last byte
    simp only [if_neg hsame]
    have hfirst : ∀ i, i ≠ start / 8 →
        fillBytes (Function.update tab (start / 8) (tab (start / 8) ||| 0xff#8 <<< (start % 8)))
          (start / 8 + 1) (stop / 8) i =
            if start / 8 + 1 ≤ i ∧ i < stop / 8 then 0xff else tab i := by
      intro i hi
      rw [fillBytes, Function.update_of_ne hi]
    have hbody : (fillBytes
        (Function.update tab (start / 8) (tab (start / 8) ||| 0xff#8 <<< (start % 8)))
        (start / 8 + 1) (stop / 8) (k / 8)).getLsbD (k % 8) =
          ((tab (k / 8)).getLsbD (k % 8) || decide (start ≤ k ∧ k < stop / 8 * 8)) := by
      by_cases hk : k / 8 = start / 8
      · rw [fillBytes, hk, if_neg (by omega), Function.update_self, BitVec.getLsbD_or,
          getLsbD_ones_shiftLeft hj]
        congr 2
        rw [eq_iff_iff]
        omega
      · rw [hfirst _ hk]
        by_cases hmid : start / 8 + 1 ≤ k / 8 ∧ k / 8 < stop / 8
        · rw [if_pos hmid, decide_eq_true (by omega), Bool.or_true]
          exact hones
        · rw [if_neg hmid, decide_eq_false (by omega), Bool.or_false]
    by_cases hlast : stop / 8 * 8 < stop
    · rw [if_pos hlast]
      by_cases hk : k / 8 = stop / 8
      · have hne : stop / 8 ≠ start / 8 := fun heq => hsame heq.symm
        rw [hk, Function.update_self, BitVec.getLsbD_or, getLsbD_not_ones_shiftLeft hj,
          hfirst _ hne, if_neg (by omega)]
        congr 2
        rw [eq_iff_iff]
        omega
      · rw [Function.update_of_ne hk, hbody]
        congr 2
        rw [eq_iff_iff]
        omega
    · rw [if_neg hlast, hbody]
      congr 2
      rw [eq_iff_iff]
      omega

theorem getLsbD_of_bitmapBits {tab : Nat → BitVec 8} {offset len : Nat}
    (hfit : offset % 8 + len ≤ 8) (h : ExecState.bitmapBits tab offset len = 0) {k : Nat}
    (hlo : offset ≤ k) (hhi : k < offset + len) : (tab (k / 8)).getLsbD (k % 8) = false := by
  have hmask : ∀ n < 9, ∀ i < n, (1#8 <<< n - 1#8).getLsbD i = true := by decide
  have hdiv : k / 8 = offset / 8 := by omega
  have hmod : k % 8 = offset % 8 + (k - offset) := by omega
  have hbit := congrArg (BitVec.getLsbD · (k - offset)) h
  simp only [ExecState.bitmapBits, BitVec.getLsbD_and, BitVec.getLsbD_ushiftRight,
    hmask len (by omega) (k - offset) (by omega), Bool.and_true] at hbit
  rw [hdiv, hmod, hbit]
  exact BitVec.getLsbD_zero

end Bits

/-- The code of the block on its page `page_addr[n]` meets the range. -/
def TranslationBlock.Meets (tb : TranslationBlock) (n start stop : Nat) : Prop :=
  ¬((tb.pageAddr n).getD 0 * targetPageSize + tb.tbEnd n ≤ start ∨
    stop ≤ (tb.pageAddr n).getD 0 * targetPageSize + tb.tbStart n)

instance (tb : TranslationBlock) (n start stop : Nat) : Decidable (tb.Meets n start stop) :=
  inferInstanceAs (Decidable (¬_))

/-- A byte of the code is in the range. -/
def TranslationBlock.Within (tb : TranslationBlock) (start stop : Nat) : Prop :=
  ∃ i < tb.size, start ≤ tb.byteAddr i ∧ tb.byteAddr i < stop

section Ranges

variable {tb : TranslationBlock} {p start stop : Nat}

theorem pageOffset_lt (a : BitVec 32) : pageOffset a < targetPageSize :=
  Nat.mod_lt _ (by decide)

theorem pageOffset_add (a : BitVec 32) (n : Nat) :
    pageOffset (a + BitVec.ofNat 32 n) = (pageOffset a + n) % targetPageSize := by
  simp only [pageOffset, BitVec.toNat_add, BitVec.toNat_ofNat, targetPageSize]
  omega

theorem tbEnd_one (h : tb.Formed) {q : Nat} (hq : tb.page1 = some q) :
    tb.tbEnd 1 = pageOffset tb.key.pc + tb.size - targetPageSize := by
  have hlong : ¬pageOffset tb.key.pc + tb.size ≤ targetPageSize := by
    intro hle
    rw [h.second.mpr hle] at hq
    cases hq
  have hoff := pageOffset_lt tb.key.pc
  have hsize := h.size_lt
  rw [TranslationBlock.tbEnd, if_neg (by decide), pageOffset_add]
  simp only [targetPageSize] at *
  omega

theorem byteAddr_of_lt {i : Nat} (hi : pageOffset tb.key.pc + i < targetPageSize) :
    tb.byteAddr i = tb.page0 * targetPageSize + (pageOffset tb.key.pc + i) := if_pos hi

theorem byteAddr_of_le {i q : Nat} (hi : ¬pageOffset tb.key.pc + i < targetPageSize)
    (hq : tb.page1 = some q) :
    tb.byteAddr i = q * targetPageSize + (pageOffset tb.key.pc + i - targetPageSize) := by
  rw [TranslationBlock.byteAddr, if_neg hi, hq, Option.getD_some]

theorem within_iff (h : tb.Formed) (hstart : start / targetPageSize = p) (hlt : start < stop)
    (hstop : stop ≤ (p + 1) * targetPageSize) :
    tb.Within start stop ↔ ∃ n, tb.pageAddr n = some p ∧ tb.Meets n start stop := by
  have hoff := pageOffset_lt tb.key.pc
  have hsize := h.size_lt
  have hpos := h.size_pos
  have hpage := Nat.div_add_mod start targetPageSize
  have hmod : start % targetPageSize < targetPageSize := Nat.mod_lt _ (by decide)
  rw [hstart] at hpage
  constructor
  · rintro ⟨i, hi, hlo, hhi⟩
    by_cases hfirst : pageOffset tb.key.pc + i < targetPageSize
    · rw [byteAddr_of_lt hfirst] at hlo hhi
      have hp : tb.page0 = p := by
        simp only [targetPageSize] at *
        omega
      refine ⟨0, congrArg some hp, ?_⟩
      have haddr : tb.pageAddr 0 = some p := congrArg some hp
      rw [TranslationBlock.Meets, haddr, Option.getD_some, TranslationBlock.tbEnd,
        TranslationBlock.tbStart, if_pos rfl, if_pos rfl]
      rw [hp] at hlo hhi
      omega
    · have hsome : tb.page1 ≠ none := fun hnone => hfirst (by
        have hle := h.second.mp hnone
        omega)
      obtain ⟨q, hq⟩ := Option.ne_none_iff_exists'.mp hsome
      rw [byteAddr_of_le hfirst hq] at hlo hhi
      have hp : q = p := by
        simp only [targetPageSize] at *
        omega
      have haddr : tb.pageAddr 1 = some p := hq.trans (congrArg some hp)
      refine ⟨1, haddr, ?_⟩
      rw [TranslationBlock.Meets, haddr, Option.getD_some, tbEnd_one h hq,
        TranslationBlock.tbStart, if_neg (by decide)]
      rw [hp] at hlo hhi
      omega
  · rintro ⟨n, haddr, hmeets⟩
    have hn := pageAddr_lt haddr
    rw [TranslationBlock.Meets, haddr, Option.getD_some, not_or] at hmeets
    obtain ⟨hend, hbegin⟩ := hmeets
    rcases Nat.lt_succ_iff_lt_or_eq.mp hn with hzero | rfl
    · obtain rfl := Nat.lt_one_iff.mp hzero
      have hp : tb.page0 = p := Option.some.inj haddr
      rw [TranslationBlock.tbEnd, if_pos rfl] at hend
      rw [TranslationBlock.tbStart, if_pos rfl] at hbegin
      -- the first byte of the range or that of the block, whichever is later
      obtain ⟨i, hi⟩ : ∃ i, i = max start (p * targetPageSize + pageOffset tb.key.pc) -
          (p * targetPageSize + pageOffset tb.key.pc) := ⟨_, rfl⟩
      have hfirst : pageOffset tb.key.pc + i < targetPageSize := by
        simp only [targetPageSize] at *
        omega
      refine ⟨i, by omega, ?_⟩
      rw [byteAddr_of_lt hfirst, hp]
      omega
    · have hq : tb.page1 = some p := haddr
      have hlong : ¬pageOffset tb.key.pc + tb.size ≤ targetPageSize := by
        intro hle
        rw [h.second.mpr hle] at hq
        cases hq
      rw [tbEnd_one h hq] at hend
      rw [TranslationBlock.tbStart, if_neg (by decide)] at hbegin
      have hfirst : ¬pageOffset tb.key.pc + (targetPageSize - pageOffset tb.key.pc +
          (start - p * targetPageSize)) < targetPageSize := by omega
      refine ⟨targetPageSize - pageOffset tb.key.pc + (start - p * targetPageSize), ?_, ?_⟩
      · simp only [targetPageSize] at *
        omega
      · rw [byteAddr_of_le hfirst hq]
        simp only [targetPageSize] at *
        omega

end Ranges

def Used (s : ExecState) (b : Books) : Prop :=
  ∀ p tab, s.codeBitmap p = some tab → b.page p ≠ []

section Pages

variable {cfg : Config} {s : ExecState} {b : Books} {p start stop : Nat}

theorem Core.first_eq_none (h : Core cfg s b) (p : Nat) : s.pages.first p = none ↔ b.page p = [] := by
  rw [(h.pages.chains.chain p).head?_eq, List.head?_eq_none_iff]

theorem Core.not_within_of_page (h : Core cfg s b) {t : TbId} (ht : b.live t)
    (hstart : start / targetPageSize = p) (hlt : start < stop)
    (hstop : stop ≤ (p + 1) * targetPageSize) (hpage : b.page p = []) :
    ¬(s.tbs t).Within start stop := by
  rw [within_iff (h.blocks.formed (h.linked ht)) hstart hlt hstop]
  rintro ⟨n, haddr, -⟩
  have hmem : (t, n) ∈ b.page p := h.pages.mem.mpr ⟨ht, haddr⟩
  rw [hpage] at hmem
  cases hmem

end Pages

namespace ExecState

variable {cfg : Config} {s : ExecState} {b : Books} {p start stop : Nat}

theorem buildPageBitmap_eq {l : List (TbId × Nat)} {ptr : Option (TbId × Nat)} {fuel : Nat}
    (h : Chain s.pages.next ptr l) (hfuel : l.length < fuel)
    (hle : ∀ a ∈ l, (s.tbs a.1).tbStart a.2 ≤
      if a.2 = 0 then min ((s.tbs a.1).tbEnd 0) targetPageSize else (s.tbs a.1).tbEnd 1)
    (tab : Nat → BitVec 8) :
    ∃ tab', s.buildPageBitmap fuel ptr tab = some tab' ∧
      (∀ k, (tab (k / 8)).getLsbD (k % 8) = true → (tab' (k / 8)).getLsbD (k % 8) = true) ∧
      ∀ a ∈ l, ∀ k, (s.tbs a.1).tbStart a.2 ≤ k →
        (k < if a.2 = 0 then min ((s.tbs a.1).tbEnd 0) targetPageSize else (s.tbs a.1).tbEnd 1) →
          (tab' (k / 8)).getLsbD (k % 8) = true := by
  induction l generalizing ptr fuel tab with
  | nil =>
    cases fuel with
    | zero => exact absurd hfuel (Nat.not_lt_zero _)
    | succ fuel =>
      rw [show ptr = none from h]
      exact ⟨tab, rfl, fun k hk => hk, fun a ha => absurd ha List.not_mem_nil⟩
  | cons a l ih =>
    cases fuel with
    | zero => exact absurd hfuel (Nat.not_lt_zero _)
    | succ fuel =>
      rw [List.forall_mem_cons] at hle
      rw [h.1, buildPageBitmap]
      obtain ⟨tab', hbuild, hkept, hset⟩ := ih h.2 (Nat.lt_of_succ_lt_succ hfuel) hle.2
        (setBits tab ((s.tbs a.1).tbStart a.2)
          (if a.2 = 0 then min ((s.tbs a.1).tbEnd 0) targetPageSize else (s.tbs a.1).tbEnd 1))
      refine ⟨tab', hbuild, fun k hk => hkept k ?_, ?_⟩
      · rw [getLsbD_setBits tab hle.1, hk, Bool.true_or]
      · rw [List.forall_mem_cons]
        refine ⟨fun k hlo hhi => hkept k ?_, hset⟩
        rw [getLsbD_setBits tab hle.1, decide_eq_true ⟨hlo, hhi⟩, Bool.or_true]

theorem tbStart_le (tb : TranslationBlock) (n : Nat) :
    tb.tbStart n ≤ if n = 0 then min (tb.tbEnd 0) targetPageSize else tb.tbEnd 1 := by
  have hoff := pageOffset_lt tb.key.pc
  unfold TranslationBlock.tbStart TranslationBlock.tbEnd
  split
  · rw [if_pos rfl]
    omega
  · exact Nat.zero_le _

theorem countWrite_eq (h : Core cfg s b) (p : Nat) (isCpuWriteAccess : Bool) :
    ∃ bitmap count, s.countWrite p isCpuWriteAccess =
        some { s with codeBitmap := bitmap, codeWriteCount := count } ∧
      Core cfg { s with codeBitmap := bitmap, codeWriteCount := count } b ∧
      ∀ q, q ≠ p → bitmap q = s.codeBitmap q := by
  unfold countWrite
  cases hbitmap : s.codeBitmap p with
  | some tab => exact ⟨s.codeBitmap, s.codeWriteCount, rfl, h, fun _ _ => rfl⟩
  | none =>
    simp only
    by_cases hbuild : smcBitmapUseThreshold ≤ (s.codeWriteCount p + 1).toNat ∧
        isCpuWriteAccess = true
    · obtain ⟨tab, htab, -, hset⟩ := buildPageBitmap_eq (h.pages.chains.chain p)
        (h.length_page p) (fun a _ => tbStart_le (s.tbs a.1) a.2) fun _ => 0
      have hbuilt : buildPageBitmap { s with
          codeWriteCount := Function.update s.codeWriteCount p (s.codeWriteCount p + 1) }
          s.fuel (s.pages.first p) (fun _ => 0) = some tab := by
        have hsame : ∀ fuel ptr tab, buildPageBitmap { s with
            codeWriteCount := Function.update s.codeWriteCount p (s.codeWriteCount p + 1) }
            fuel ptr tab = s.buildPageBitmap fuel ptr tab := by
          intro fuel
          induction fuel with
          | zero => exact fun _ _ => rfl
          | succ fuel ih =>
            intro ptr tab
            cases ptr with
            | none => rfl
            | some a => exact ih _ _
        exact (hsame _ _ _).trans htab
      refine ⟨Function.update s.codeBitmap p (some tab),
        Function.update s.codeWriteCount p (s.codeWriteCount p + 1), ?_, ?_, fun q hq => ?_⟩
      · rw [if_pos hbuild]
        exact congrArg (Option.map _) hbuilt
      · refine ⟨h.blocks, h.linked, h.hash, h.pages, h.jumps, h.cache,
          ⟨h.guard.clean, h.guard.tested, fun {q tab'} htab' a ha k hk hlo hhi => ?_⟩, h.current⟩
        have htab'' : Function.update s.codeBitmap p (some tab) q = some tab' := htab'
        by_cases hq : q = p
        · rw [hq, Function.update_self, Option.some.injEq] at htab''
          subst htab''
          refine hset a (hq ▸ ha) k hlo ?_
          have htag := pageAddr_lt (h.pages.mem.mp ha).2
          split
          · next hzero =>
            rw [hzero] at hhi
            exact Nat.lt_min.mpr ⟨hhi, hk⟩
          · next hzero =>
            have hone : a.2 = 1 := by omega
            rwa [hone] at hhi
        · rw [Function.update_of_ne hq] at htab''
          exact h.guard.shown htab'' a ha k hk hlo hhi
      · exact Function.update_of_ne hq _ _
    · refine ⟨s.codeBitmap, Function.update s.codeWriteCount p (s.codeWriteCount p + 1), ?_,
        ⟨h.blocks, h.linked, h.hash, h.pages, h.jumps, h.cache, h.guard, h.current⟩,
        fun _ _ => rfl⟩
      rw [if_neg hbuild]

theorem invalidateLoop_eq (h : Core cfg s b) {front l : List (TbId × Nat)}
    (hpage : b.page p = front ++ l) {fuel : Nat} (hfuel : l.length < fuel) :
    ∃ s' b', invalidateLoop start stop fuel s l.head? = some s' ∧ Core cfg s' b' ∧ s.Kept s' ∧
      (∀ t, b'.live t ↔ b.live t ∧ ∀ n, (t, n) ∈ l → ¬(s.tbs t).Meets n start stop) ∧
      ∀ {q tab}, s'.codeBitmap q = some tab →
        s.codeBitmap q = some tab ∧ b'.page q = b.page q := by
  induction l generalizing s b front fuel with
  | nil =>
    cases fuel with
    | zero => exact absurd hfuel (Nat.not_lt_zero _)
    | succ fuel =>
      refine ⟨s, b, rfl, h, Kept.refl s, fun t => ?_, fun htab => ⟨htab, rfl⟩⟩
      simp
  | cons a l ih =>
    cases fuel with
    | zero => exact absurd hfuel (Nat.not_lt_zero _)
    | succ fuel =>
      have hfuel' := Nat.lt_of_succ_lt_succ hfuel
      have hmem : a ∈ b.page p := hpage ▸ List.mem_append_right _ List.mem_cons_self
      have hlive := (h.pages.mem.mp hmem).1
      have haddr := (h.pages.mem.mp hmem).2
      have hnext : s.pages.next a = l.head? :=
        (hpage ▸ h.pages.chains.chain p : Chain _ _ (front ++ a :: l)).after.head?_eq
      -- no other node of the list is one of the same block
      have honce : ∀ c ∈ b.page p, c.1 = a.1 → c = a := by
        intro c hc heq
        have hcaddr := (h.pages.mem.mp hc).2
        rw [heq] at hcaddr
        refine Prod.ext heq ?_
        have hformed := (h.blocks.formed (h.linked hlive)).apart
        have hca := pageAddr_lt hcaddr
        have haa := pageAddr_lt haddr
        by_contra hne
        have hzero : (s.tbs a.1).pageAddr 0 = some p ∧ (s.tbs a.1).pageAddr 1 = some p := by
          rcases Nat.lt_succ_iff_lt_or_eq.mp hca with hc0 | hc1
          · have hc2 := Nat.lt_one_iff.mp hc0
            have ha2 : a.2 = 1 := by omega
            exact ⟨hc2 ▸ hcaddr, ha2 ▸ haddr⟩
          · have ha2 : a.2 = 0 := by omega
            exact ⟨ha2 ▸ haddr, hc1 ▸ hcaddr⟩
        exact hformed (hzero.2.trans hzero.1.symm)
      have hnotl : ∀ n, (a.1, n) ∉ l := by
        intro n hn
        have heq := honce (a.1, n) (hpage ▸ List.mem_append_right _ (List.mem_cons_of_mem a hn)) rfl
        have hnodup := h.pages.chains.nodup p
        rw [hpage] at hnodup
        have hnot := (List.nodup_cons.mp (List.nodup_middle.mp hnodup)).1
        exact hnot (List.mem_append_right front (heq ▸ hn))
      rw [List.head?_cons, invalidateLoop, hnext]
      by_cases hmeets : (s.tbs a.1).Meets a.2 start stop
      · obtain ⟨s₁, hinv, hcore, hkept, hbitmap⟩ := tbPhysInvalidate_eq h hlive
        have hpage' : (b.drop a.1).page p = front ++ l := by
          have hnodup := h.pages.chains.nodup p
          rw [hpage] at hnodup
          have hnot := (List.nodup_cons.mp (List.nodup_middle.mp hnodup)).1
          have heq : (b.drop a.1).page p = (b.page p).filter fun c => decide (c ≠ a) := by
            refine List.filter_congr fun c hc => ?_
            have hiff : c.1 = a.1 ↔ c = a := ⟨honce c hc, fun heq => heq ▸ rfl⟩
            simp [hiff]
          rw [heq, hpage, List.filter_append, List.filter_cons_of_neg (by simp),
            ← List.filter_append]
          refine List.filter_eq_self.mpr fun c hc => decide_eq_true ?_
          rintro rfl
          exact hnot hc
        obtain ⟨s', b', hloop, hcore', hkept', hlive', hbitmap'⟩ := ih hcore hpage' hfuel'
        refine ⟨s', b', ?_, hcore', hkept.trans hkept', fun t => ?_, fun {q tab} htab => ?_⟩
        · rw [if_neg hmeets, hinv, Option.bind_some]
          exact hloop
        · rw [hlive' t, hkept.tbs]
          change (b.live t ∧ t ≠ a.1) ∧ _ ↔ _
          constructor
          · rintro ⟨⟨ht, hne⟩, hrest⟩
            refine ⟨ht, fun n hn => ?_⟩
            rcases List.mem_cons.mp hn with heq | hn
            · exact absurd (congrArg Prod.fst heq) hne
            · exact hrest n hn
          · rintro ⟨ht, hall⟩
            refine ⟨⟨ht, ?_⟩, fun n hn => hall n (List.mem_cons_of_mem a hn)⟩
            rintro rfl
            exact hall a.2 List.mem_cons_self hmeets
        · obtain ⟨hold, hsame⟩ := hbitmap' htab
          obtain ⟨hold', hsame'⟩ := hbitmap hold
          exact ⟨hold', hsame.trans hsame'⟩
      · have hpage' : b.page p = (front ++ [a]) ++ l := by
          rw [hpage, List.append_assoc]
          rfl
        obtain ⟨s', b', hloop, hcore', hkept', hlive', hbitmap'⟩ := ih h hpage' hfuel'
        refine ⟨s', b', ?_, hcore', hkept', fun t => ?_, hbitmap'⟩
        · rw [if_pos (not_not.mp hmeets)]
          exact hloop
        · rw [hlive' t]
          constructor
          · rintro ⟨ht, hrest⟩
            refine ⟨ht, fun n hn => ?_⟩
            rcases List.mem_cons.mp hn with heq | hn
            · rw [← heq] at hmeets
              exact hmeets
            · exact hrest n hn
          · rintro ⟨ht, hall⟩
            exact ⟨ht, fun n hn => hall n (List.mem_cons_of_mem a hn)⟩

theorem invalidateLoop_of_forall {l : List (TbId × Nat)} {ptr : Option (TbId × Nat)} {fuel : Nat}
    (h : Chain s.pages.next ptr l) (hfuel : l.length < fuel)
    (hnone : ∀ a ∈ l, ¬(s.tbs a.1).Meets a.2 start stop) :
    invalidateLoop start stop fuel s ptr = some s := by
  induction l generalizing ptr fuel with
  | nil =>
    cases fuel with
    | zero => exact absurd hfuel (Nat.not_lt_zero _)
    | succ fuel =>
      rw [show ptr = none from h]
      rfl
  | cons a l ih =>
    cases fuel with
    | zero => exact absurd hfuel (Nat.not_lt_zero _)
    | succ fuel =>
      rw [List.forall_mem_cons] at hnone
      rw [h.1, invalidateLoop, if_pos (not_not.mp hnone.1)]
      exact ih h.2 (Nat.lt_of_succ_lt_succ hfuel) hnone.2

theorem invalidatePageBitmap_core (h : Core cfg s b) (p : Nat) :
    Core cfg (s.invalidatePageBitmap p) b := by
  refine ⟨h.blocks, h.linked, h.hash, h.pages, h.jumps, h.cache,
    ⟨h.guard.clean, h.guard.tested, fun {q tab} htab a ha => ?_⟩, h.current⟩
  have htab' : Function.update s.codeBitmap p none q = some tab := htab
  by_cases hq : q = p
  · rw [hq, Function.update_self] at htab'
    cases htab'
  · rw [Function.update_of_ne hq] at htab'
    exact h.guard.shown htab' a ha

theorem unprotect_eq (h : Core cfg s b) (hused : ∀ q tab, q ≠ p → s.codeBitmap q = some tab →
    b.page q ≠ []) (isCpuWriteAccess : Bool) :
    ∃ s', (if s.pages.first p = none then
        let s := s.invalidatePageBitmap p
        if isCpuWriteAccess then
          { s with
            physRamDirty := Function.update s.physRamDirty p (s.physRamDirty p ||| codeDirtyFlag) }
        else
          s
      else
        s) = s' ∧ Core cfg s' b ∧ Used s' b ∧
      s.Kept { s' with physRamDirty := s.physRamDirty } := by
  by_cases hfirst : s.pages.first p = none
  · have hcore := invalidatePageBitmap_core h p
    have hnil := (h.first_eq_none p).mp hfirst
    have husedp : Used (s.invalidatePageBitmap p) b := by
      intro q tab htab
      have htab' : Function.update s.codeBitmap p none q = some tab := htab
      by_cases hq : q = p
      · rw [hq, Function.update_self] at htab'
        cases htab'
      · rw [Function.update_of_ne hq] at htab'
        exact hused q tab hq htab'
    rw [if_pos hfirst]
    cases isCpuWriteAccess with
    | false =>
      exact ⟨_, rfl, hcore, husedp, ⟨rfl, rfl, rfl, rfl, rfl, rfl, rfl, rfl, rfl⟩⟩
    | true =>
      refine ⟨_, rfl, ⟨hcore.blocks, hcore.linked, hcore.hash, hcore.pages, hcore.jumps,
        hcore.cache, ⟨fun {q} hq => ?_, hcore.guard.tested, hcore.guard.shown⟩, hcore.current⟩,
        husedp, ⟨rfl, rfl, rfl, rfl, rfl, rfl, rfl, rfl, rfl⟩⟩
      have hne : q ≠ p := by
        rintro rfl
        exact hq hnil
      have hclean := h.guard.clean hq
      rw [← Function.update_of_ne hne (s.physRamDirty p ||| codeDirtyFlag) s.physRamDirty] at hclean
      exact hclean
  · rw [if_neg hfirst]
    refine ⟨s, rfl, h, fun q tab htab => ?_, Kept.refl s⟩
    by_cases hq : q = p
    · rw [hq]
      exact fun hnil => hfirst ((h.first_eq_none p).mpr hnil)
    · exact hused q tab hq htab

theorem tbInvalidatePhysPageRange_eq (h : Core cfg s b) (hused : Used s b)
    (hstart : start / targetPageSize = p) (hlt : start < stop)
    (hstop : stop ≤ (p + 1) * targetPageSize) (isCpuWriteAccess : Bool) :
    ∃ s' b', s.tbInvalidatePhysPageRange start stop isCpuWriteAccess = some s' ∧
      Core cfg s' b' ∧ Used s' b' ∧ s.Kept { s' with physRamDirty := s.physRamDirty } ∧
      ∀ t, b'.live t ↔ b.live t ∧ ¬(s.tbs t).Within start stop := by
  subst hstart
  by_cases hl1 : s.l1Map (start / targetPageSize / 1024) = true
  · obtain ⟨bitmap, count, hcount, hcore, hother⟩ :=
      countWrite_eq h (start / targetPageSize) isCpuWriteAccess
    obtain ⟨s₁, b', hloop, hcore', hkept, hlive, hbitmap⟩ :=
      @invalidateLoop_eq _ _ _ _ start stop hcore [] _ rfl _
        (h.length_page (start / targetPageSize))
    have hused' : ∀ q tab, q ≠ start / targetPageSize → s₁.codeBitmap q = some tab →
        b'.page q ≠ [] := by
      intro q tab hq htab
      obtain ⟨hold, hpage⟩ := hbitmap htab
      rw [hpage]
      exact hused q tab ((hother q hq).symm.trans hold)
    obtain ⟨s', heq, hcore'', hused'', hkept'⟩ := unprotect_eq hcore' hused' isCpuWriteAccess
    refine ⟨s', b', ?_, hcore'', hused'', ?_, fun t => ?_⟩
    · rw [tbInvalidatePhysPageRange, if_pos hl1, hcount, Option.bind_some]
      rw [← (h.pages.chains.chain _).head?_eq] at hloop
      exact (congrArg (Option.map _) hloop).trans (congrArg some heq)
    · rw [hkept.physRamDirty] at hkept'
      exact (⟨rfl, rfl, rfl, rfl, rfl, rfl, rfl, rfl, rfl⟩ : s.Kept
        { s with codeBitmap := bitmap, codeWriteCount := count }).trans (hkept.trans hkept')
    · rw [hlive t]
      refine and_congr_right fun ht => ?_
      rw [within_iff (h.blocks.formed (h.linked ht)) rfl hlt hstop, not_exists]
      refine forall_congr' fun n => ?_
      rw [h.pages.mem, not_and, and_imp]
      exact ⟨fun hall haddr => hall ht haddr, fun hall _ haddr => hall haddr⟩
  · refine ⟨s, b, ?_, h, hused, Kept.refl s, fun t => ⟨fun ht => ⟨ht, ?_⟩, And.left⟩⟩
    · rw [tbInvalidatePhysPageRange, if_neg hl1]
    · rw [within_iff (h.blocks.formed (h.linked ht)) rfl hlt hstop]
      rintro ⟨n, haddr, -⟩
      exact hl1 (h.pages.allocated ht haddr)

theorem tbInvalidatePhysPageFast_eq (h : Core cfg s b) (hused : Used s b) {len : Nat}
    (hlen : 0 < len) (hfit : start % 8 + len ≤ 8) :
    s.tbInvalidatePhysPageFast start len =
      s.tbInvalidatePhysPageRange start (start + len) true := by
  unfold tbInvalidatePhysPageFast
  by_cases hl1 : s.l1Map (start / targetPageSize / 1024) = true
  · simp only [if_pos hl1]
    cases hbitmap : s.codeBitmap (start / targetPageSize) with
    | none => rfl
    | some tab =>
      simp only
      by_cases hbits : bitmapBits tab (start % targetPageSize) len = 0
      · have hpage := Nat.div_add_mod start targetPageSize
        have hmod : start % targetPageSize < targetPageSize := Nat.mod_lt _ (by decide)
        have hfit' : start % targetPageSize % 8 + len ≤ 8 := by
          simp only [targetPageSize] at *
          omega
        have hnone : ∀ a ∈ b.page (start / targetPageSize),
            ¬(s.tbs a.1).Meets a.2 start (start + len) := by
          intro a ha hmeets
          obtain ⟨hlive, haddr⟩ := h.pages.mem.mp ha
          have hpos := (h.blocks.formed (h.linked hlive)).size_pos
          have htag := pageAddr_lt haddr
          rw [TranslationBlock.Meets, haddr, Option.getD_some, not_or] at hmeets
          obtain ⟨hend, hbegin⟩ := hmeets
          have hkey := pageOffset_lt (s.tbs a.1).key.pc
          -- the first byte that is in the range and of the block
          obtain ⟨k, hk⟩ : ∃ k, k = max (start % targetPageSize) ((s.tbs a.1).tbStart a.2) :=
            ⟨_, rfl⟩
          have hkend : k < (s.tbs a.1).tbEnd a.2 := by
            unfold TranslationBlock.tbStart at hk
            unfold TranslationBlock.tbEnd at hend ⊢
            split at hk
            · next hzero =>
              rw [if_pos hzero] at hend ⊢
              simp only [targetPageSize] at *
              omega
            · next hzero =>
              rw [if_neg hzero] at hend ⊢
              simp only [targetPageSize] at *
              omega
          have hkstop : k < start % targetPageSize + len := by
            unfold TranslationBlock.tbStart at hk hbegin
            simp only [targetPageSize] at *
            omega
          have hkpage : k < targetPageSize := by
            simp only [targetPageSize] at *
            omega
          have hset := h.guard.shown hbitmap a ha k hkpage (by omega) hkend
          rw [getLsbD_of_bitmapBits hfit' hbits (by omega) hkstop] at hset
          cases hset
        have hfirst : s.pages.first (start / targetPageSize) ≠ none := fun hfirst =>
          hused _ tab hbitmap ((h.first_eq_none _).mp hfirst)
        rw [if_pos hbits, tbInvalidatePhysPageRange, if_pos hl1, countWrite, hbitmap]
        simp only [Option.bind_some]
        rw [invalidateLoop_of_forall (h.pages.chains.chain _) (h.length_page _) hnone,
          Option.map_some, if_neg hfirst]
      · rw [if_neg hbits]
  · rw [if_neg hl1, tbInvalidatePhysPageRange, if_neg hl1]

section Stores

variable {addr : Nat} {vals : List (BitVec 8)}

theorem storeBytes_of_not (ram : Nat → BitVec 8) {a : Nat}
    (ha : ¬(addr ≤ a ∧ a < addr + vals.length)) : storeBytes ram addr vals a = ram a := by
  unfold storeBytes
  split
  · next hle =>
    have hlen : vals.length ≤ a - addr := by omega
    rw [List.getElem?_eq_none hlen, Option.getD_none]
  · rfl

/-- What a store leaves: the blocks that it did not meet, and all else but RAM as it was. -/
structure Stored (cfg : Config) (s : ExecState) (b : Books) (addr : Nat) (vals : List (BitVec 8))
    (s' : ExecState) (b' : Books) : Prop where
  core : Core cfg s' b'
  used : Used s' b'
  kept : s.Kept { s' with ram := s.ram, physRamDirty := s.physRamDirty, direct := s.direct }
  ram : s'.ram = storeBytes s.ram addr vals
  live : ∀ t, b'.live t ↔ b.live t ∧ ¬(s.tbs t).Within addr (addr + vals.length)

theorem Stored.fresh {s' : ExecState} {b' : Books} (h : Stored cfg s b addr vals s' b')
    (hfresh : FreshOk s.tbs s.ram b) : FreshOk s'.tbs s'.ram b' := by
  intro t ht i hi
  have htbs : s'.tbs = s.tbs := h.kept.tbs
  obtain ⟨hold, hout⟩ := (h.live t).mp ht
  rw [htbs] at hi ⊢
  rw [hfresh t hold i hi, h.ram, storeBytes_of_not]
  rintro ⟨hlo, hhi⟩
  exact hout ⟨i, hi, hlo, hhi⟩

theorem Stored.of_page (h : Core cfg s b) (hused : Used s b) (hlen : 0 < vals.length)
    (hin : addr + vals.length ≤ (addr / targetPageSize + 1) * targetPageSize)
    (hpage : b.page (addr / targetPageSize) = []) :
    Stored cfg s b addr vals { s with ram := storeBytes s.ram addr vals } b := by
  refine ⟨⟨h.blocks, h.linked, h.hash, h.pages, h.jumps, h.cache, h.guard, h.current⟩, hused,
    ⟨rfl, rfl, rfl, rfl, rfl, rfl, rfl, rfl, rfl⟩, rfl, fun t => ⟨fun ht => ⟨ht, ?_⟩, And.left⟩⟩
  exact h.not_within_of_page ht rfl (by omega) hin hpage

theorem Stored.taint {s' : ExecState} {b' : Books} (h : Stored cfg s b addr vals s' b') (p : Nat) :
    Stored cfg s b addr vals { s' with
      physRamDirty := Function.update s'.physRamDirty p
        (s'.physRamDirty p ||| 0xff#8 &&& ~~~codeDirtyFlag) } b' := by
  have hbits : ∀ d : BitVec 8, (d ||| 0xff#8 &&& ~~~codeDirtyFlag) &&& codeDirtyFlag =
      d &&& codeDirtyFlag := by decide
  refine ⟨⟨h.core.blocks, h.core.linked, h.core.hash, h.core.pages, h.core.jumps, h.core.cache,
    ⟨fun {q} hq => ?_, h.core.guard.tested, h.core.guard.shown⟩, h.core.current⟩, h.used,
    ⟨h.kept.tbs, h.kept.nbTbs, h.kept.codeGenPtr, h.kept.l1Map, h.kept.currentTb, rfl, rfl,
      h.kept.phys, rfl⟩, h.ram, h.live⟩
  change Function.update s'.physRamDirty p _ q &&& codeDirtyFlag = 0
  by_cases hqp : q = p
  · rw [hqp, Function.update_self, hbits]
    exact h.core.guard.clean (hqp ▸ hq)
  · rw [Function.update_of_ne hqp]
    exact h.core.guard.clean hq

theorem Stored.unguard {s' : ExecState} {b' : Books} (h : Stored cfg s b addr vals s' b') {v : Nat}
    (hv : s'.phys v = some p) (hfull : s'.physRamDirty p = 0xff) :
    Stored cfg s b addr vals { s' with direct := Function.update s'.direct v true } b' := by
  refine ⟨⟨h.core.blocks, h.core.linked, h.core.hash, h.core.pages, h.core.jumps, h.core.cache,
    ⟨h.core.guard.clean, fun {q w} hq hw => ?_, h.core.guard.shown⟩, h.core.current⟩, h.used,
    ⟨h.kept.tbs, h.kept.nbTbs, h.kept.codeGenPtr, h.kept.l1Map, h.kept.currentTb, rfl, rfl,
      h.kept.phys, rfl⟩, h.ram, h.live⟩
  have hwv : w ≠ v := by
    rintro rfl
    have hclean := h.core.guard.clean hq
    rw [Option.some.inj (hw.symm.trans hv), hfull] at hclean
    exact absurd hclean (by decide)
  change Function.update s'.direct v true w = false
  rw [Function.update_of_ne hwv]
  exact h.core.guard.tested hq hw

theorem notdirtyMemWrite_eq (h : Core cfg s b) (hused : Used s b) (hlen : 0 < vals.length)
    (hfit : addr % 8 + vals.length ≤ 8) {v : Nat}
    (hv : s.phys v = some (addr / targetPageSize)) :
    ∃ s' b', s.notdirtyMemWrite addr vals v = some s' ∧ Stored cfg s b addr vals s' b' := by
  have hin : addr + vals.length ≤ (addr / targetPageSize + 1) * targetPageSize := by
    simp only [targetPageSize]
    omega
  obtain ⟨s₁, b', htested, hstored⟩ : ∃ s₁ b',
      (if s.physRamDirty (addr / targetPageSize) &&& codeDirtyFlag = 0 then
        s.tbInvalidatePhysPageFast addr vals.length else some s) = some s₁ ∧
      Stored cfg s b addr vals { s₁ with ram := storeBytes s₁.ram addr vals } b' := by
    by_cases hclean : s.physRamDirty (addr / targetPageSize) &&& codeDirtyFlag = 0
    · have hlt : addr < addr + vals.length := by omega
      obtain ⟨s₁, b', hinv, hcore, hused', hkept, hlive⟩ :=
        tbInvalidatePhysPageRange_eq h hused rfl hlt hin true
      refine ⟨s₁, b', ?_, ⟨hcore.blocks, hcore.linked, hcore.hash, hcore.pages, hcore.jumps,
        hcore.cache, hcore.guard, hcore.current⟩, hused', ?_, ?_, hlive⟩
      · rw [if_pos hclean, tbInvalidatePhysPageFast_eq h hused hlen hfit, hinv]
      · exact ⟨hkept.tbs, hkept.nbTbs, hkept.codeGenPtr, hkept.l1Map, hkept.currentTb, rfl, rfl,
          hkept.phys, rfl⟩
      · exact congrArg (storeBytes · addr vals) hkept.ram
    · refine ⟨s, b, if_neg hclean, Stored.of_page h hused hlen hin ?_⟩
      by_contra hpage
      exact hclean (h.guard.clean hpage)
  have htaint := hstored.taint (addr / targetPageSize)
  have hv' : s₁.phys v = some (addr / targetPageSize) := hstored.kept.phys ▸ hv
  rw [notdirtyMemWrite, htested, Option.map_some]
  simp only
  split
  · next hfull =>
    exact ⟨_, b', rfl, htaint.unguard hv' ((Function.update_self _ _ _).trans hfull)⟩
  · exact ⟨_, b', rfl, htaint⟩

theorem store_eq (h : Core cfg s b) (hused : Used s b) {a : BitVec 32} (hlen : 0 < vals.length)
    (hfit : a.toNat % 8 + vals.length ≤ 8) (hp : s.phys (vpage a) = some p) :
    ∃ s' b', s.store a vals = some s' ∧
      Stored cfg s b (p * targetPageSize + pageOffset a) vals s' b' := by
  have hoff := pageOffset_lt a
  have hpage : (p * targetPageSize + pageOffset a) / targetPageSize = p := by
    simp only [targetPageSize] at *
    omega
  have hfit' : (p * targetPageSize + pageOffset a) % 8 + vals.length ≤ 8 := by
    simp only [targetPageSize, pageOffset] at *
    omega
  rw [store, hp, Option.bind_some]
  by_cases hdirect : s.direct (vpage a) = true
  · refine ⟨_, b, if_pos hdirect, Stored.of_page h hused hlen ?_ ?_⟩
    · rw [hpage]
      simp only [targetPageSize] at *
      omega
    · rw [hpage]
      by_contra hne
      exact Bool.false_ne_true ((h.guard.tested hne hp).symm.trans hdirect)
  · simp only [if_neg hdirect]
    exact notdirtyMemWrite_eq h hused hlen hfit' (hp.trans (congrArg some hpage.symm))

theorem physicalWrite_eq (h : Core cfg s b) (hused : Used s b) (hlen : 0 < vals.length)
    (hin : addr + vals.length ≤ (addr / targetPageSize + 1) * targetPageSize) :
    ∃ s' b', s.physicalWrite addr vals = some s' ∧ Stored cfg s b addr vals s' b' := by
  unfold physicalWrite
  by_cases hfull : s.physRamDirty (addr / targetPageSize) = 0xff
  · refine ⟨_, b, if_pos hfull, Stored.of_page h hused hlen hin ?_⟩
    by_contra hpage
    have hclean := h.guard.clean hpage
    rw [hfull] at hclean
    exact absurd hclean (by decide)
  · have hlt : addr < addr + vals.length := by omega
    obtain ⟨s₁, b', hinv, hcore, hused', hkept, hlive⟩ := tbInvalidatePhysPageRange_eq
      (s := { s with ram := storeBytes s.ram addr vals })
      ⟨h.blocks, h.linked, h.hash, h.pages, h.jumps, h.cache, h.guard, h.current⟩ hused
      rfl hlt hin false
    have hstored : Stored cfg s b addr vals s₁ b' := ⟨hcore, hused', ⟨hkept.tbs, hkept.nbTbs,
      hkept.codeGenPtr, hkept.l1Map, hkept.currentTb, rfl, rfl, hkept.phys, rfl⟩, hkept.ram, hlive⟩
    simp only [if_neg hfull, hinv, Option.map_some]
    exact ⟨_, b', rfl, hstored.taint (addr / targetPageSize)⟩

end Stores

end ExecState

end M2M.Exec
