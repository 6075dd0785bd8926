import M2M.Lib.Loop
import M2M.Telephony.SmsReader

/-! The loop over the elements of a user data header, in search of the message reference. -/

open M2M.Lib

namespace M2M.Telephony

section Scan

/-- The bytes at `p` look like a concatenation element. -/
def IsRefAt (mem : Nat → UInt8) (stop p : Nat) : Prop := mem p = 0 ∧ mem (p + 1) = 3 ∧ p + 5 ≤ stop

/-- Where the element loop is, and how much of the header is left as it counts. -/
structure ElementScan where
  data : Nat
  len : Int

variable (mem : Nat → UInt8) (stop : Nat) (c : ElementScan)

namespace ElementScan

def Reads : Prop := 2 ≤ c.len ∧ c.data + 2 ≤ stop

def IsRef : Prop := IsRefAt mem stop c.data

instance : Decidable (c.Reads stop) := inferInstanceAs (Decidable (_ ∧ _))

instance : Decidable (c.IsRef mem stop) := inferInstanceAs (Decidable (_ ∧ _ ∧ _))

/-- `data += hlen; len -= hlen - 2`, where `len` is a number without a bound. -/
def next : ElementScan where
  data := c.data + (mem (c.data + 1)).toNat
  len := c.len - ((mem (c.data + 1)).toNat - 2)

/-- A round of the loop, which returns a pointer or NULL or goes on. -/
def round : Option Nat ⊕ ElementScan :=
  if c.Reads stop then if c.IsRef mem stop then .inl (some (c.data + 2)) else .inr (c.next mem)
  else .inl none

end ElementScan

variable {mem stop c}

theorem run_userDataRefLoop (fuel data : Nat) (len : Int) :
    (userDataRefLoop (fun i => (pure (mem i) : Id UInt8)) stop fuel data len).run =
      (pure ((loopWithin (ElementScan.round mem stop) fuel ⟨data, len⟩).elim (some none)
        (Option.map some)) : Id (Option (Option Nat))) := by
  induction fuel generalizing data len with
  | zero => rfl
  | succ fuel ih =>
    rw [userDataRefLoop, loopWithin, ElementScan.round]
    by_cases hreads : 2 ≤ len ∧ data + 2 ≤ stop
    · have hReads : (⟨data, len⟩ : ElementScan).Reads stop := hreads
      rw [if_pos hreads, if_pos hReads]
      by_cases hmatch : mem data = 0 ∧ mem (data + 1) = 3 ∧ data + 5 ≤ stop
      · have hIsRef : (⟨data, len⟩ : ElementScan).IsRef mem stop := hmatch
        rw [if_pos hIsRef]
        change OptionT.run (if mem data = 0 ∧ mem (data + 1) = 3 ∧ data + 5 ≤ stop then _ else _) = _
        rw [if_pos hmatch]
        rfl
      · have hIsRef : ¬(⟨data, len⟩ : ElementScan).IsRef mem stop := hmatch
        rw [if_neg hIsRef]
        change OptionT.run (if mem data = 0 ∧ mem (data + 1) = 3 ∧ data + 5 ≤ stop then _ else _) = _
        rw [if_neg hmatch]
        exact ih _ _
    · have hReads : ¬(⟨data, len⟩ : ElementScan).Reads stop := hreads
      rw [if_neg hreads, if_neg hReads]
      rfl

theorem exists_loopWithin_of_nonzero
    (hnonzero : ∀ t, Visits (ElementScan.round mem stop) c t → t.Reads stop → mem (t.data + 1) ≠ 0)
    {fuel : Nat} (hfuel : stop - c.data < fuel) :
    ∃ r, loopWithin (ElementScan.round mem stop) fuel c = some r := by
  refine exists_loopWithin (fun t => stop - t.data) (fun t t' hvisits hround => ?_) hfuel
  rw [ElementScan.round] at hround
  by_cases hreads : t.Reads stop
  · rw [if_pos hreads] at hround
    split at hround
    · cases hround
    · have hpos := UInt8.toNat_inj.ne.mpr (hnonzero t hvisits hreads)
      have hbound := hreads.2
      obtain rfl := Sum.inr.inj hround
      simp only [ElementScan.next]
      rw [UInt8.toNat_zero] at hpos
      omega
  · rw [if_neg hreads] at hround
    cases hround

theorem exists_results_iff : (∃ r, Results (ElementScan.round mem stop) c r) ↔
    ∀ t, Visits (ElementScan.round mem stop) c t → t.Reads stop → mem (t.data + 1) ≠ 0 := by
  constructor
  · rintro ⟨r, hr⟩ t hvisits hreads hzero
    refine not_results_of_invariant (fun u => u.data = t.data ∧ 2 ≤ u.len)
      ⟨rfl, hreads.1⟩ ?_ (hvisits.results_iff.mp hr)
    rintro ⟨data, len⟩ ⟨rfl, hlen⟩
    change 2 ≤ len at hlen
    have hIsRef : ¬(⟨t.data, len⟩ : ElementScan).IsRef mem stop := by
      rintro ⟨-, hthree, -⟩
      rw [hzero] at hthree
      exact absurd hthree (by decide)
    refine ⟨_, (if_pos ⟨hlen, hreads.2⟩).trans (if_neg hIsRef), ?_, ?_⟩
    · simp [ElementScan.next, hzero]
    · simp only [ElementScan.next, hzero, UInt8.toNat_zero]
      omega
  · intro hnonzero
    obtain ⟨r, hr⟩ := exists_loopWithin_of_nonzero hnonzero (Nat.lt_succ_self _)
    exact ⟨r, _, hr⟩

/-- The loop comes to what it takes for a concatenation element, with its data at `ref`. -/
def ComesTo (mem : Nat → UInt8) (stop : Nat) (c : ElementScan) (ref : Nat) : Prop :=
  ∃ t, Visits (ElementScan.round mem stop) c t ∧ t.Reads stop ∧ t.IsRef mem stop ∧ t.data + 2 = ref

theorem results_some_iff {ref : Nat} :
    Results (ElementScan.round mem stop) c (some ref) ↔ ComesTo mem stop c ref := by
  refine results_iff.trans (exists_congr fun t => and_congr_right fun _ => ?_)
  rw [ElementScan.round]
  by_cases hreads : t.Reads stop
  · by_cases hIsRef : t.IsRef mem stop
    · simp [hreads, hIsRef]
    · simp [hreads, hIsRef]
  · simp [hreads]

/-- The place behind `k` elements from `data` on, if an element had no bytes but those that its
length byte counts. -/
def stride (mem : Nat → UInt8) (data : Nat) : Nat → Nat
  | 0 => data
  | k + 1 => stride mem data k + (mem (stride mem data k + 1)).toNat

/-- There, two bytes are left of the PDU, and of `len` bytes when each element in front has two
more. -/
def Readable (mem : Nat → UInt8) (stop data len k : Nat) : Prop :=
  stride mem data k + 2 ≤ stop ∧ stride mem data k + 2 ≤ data + len + 2 * k

/-- None of the places in front looks like a concatenation element, and they are readable. -/
def Passes (mem : Nat → UInt8) (stop data len k : Nat) : Prop :=
  ∀ j < k, Readable mem stop data len j ∧
    ¬IsRefAt mem stop (stride mem data j)

/-- The state of the loop after `k` rounds. -/
def scanAt (mem : Nat → UInt8) (data len k : Nat) : ElementScan where
  data := stride mem data k
  len := len - ((stride mem data k : Int) - data) + 2 * k

theorem scanAt_reads {data len k : Nat} :
    (scanAt mem data len k).Reads stop ↔ Readable mem stop data len k := by
  rw [ElementScan.Reads, Readable, and_comm]
  change _ ∧ (2 : Int) ≤ len - ((stride mem data k : Int) - data) + 2 * k ↔ _
  exact and_congr_right fun _ => by omega

theorem visits_iff {data len : Nat} {t : ElementScan} :
    Visits (ElementScan.round mem stop) ⟨data, len⟩ t ↔
      ∃ k, Passes mem stop data len k ∧ t = scanAt mem data len k := by
  have hstep : ∀ k, (scanAt mem data len k).next mem = scanAt mem data len (k + 1) := by
    intro k
    simp only [ElementScan.next, scanAt, stride, ElementScan.mk.injEq, true_and]
    omega
  constructor
  · intro h
    induction h with
    | refl =>
      refine ⟨0, fun j hj => absurd hj (Nat.not_lt_zero j), ?_⟩
      simp [scanAt, stride]
    | tail _ hround ih =>
      obtain ⟨k, hpasses, rfl⟩ := ih
      rw [ElementScan.round] at hround
      split at hround
      · next hreads =>
        split at hround
        · cases hround
        · next hIsRef =>
          refine ⟨k + 1, fun j hj => ?_, (Sum.inr.inj hround).symm.trans (hstep k)⟩
          rcases Nat.lt_succ_iff_lt_or_eq.mp hj with hj | rfl
          · exact hpasses j hj
          · exact ⟨scanAt_reads.mp hreads, hIsRef⟩
      · cases hround
  · rintro ⟨k, hpasses, rfl⟩
    induction k with
    | zero =>
      have hstart : scanAt mem data len 0 = ⟨data, len⟩ := by simp [scanAt, stride]
      rw [hstart]
      exact .refl
    | succ k ih =>
      obtain ⟨hreadable, hIsRef⟩ := hpasses k (Nat.lt_succ_self k)
      refine .tail (ih fun j hj => hpasses j (Nat.lt_succ_of_lt hj)) ?_
      rw [ElementScan.round, if_pos (scanAt_reads.mpr hreadable), ← hstep k]
      exact if_neg hIsRef

theorem comesTo_iff {data len ref : Nat} : ComesTo mem stop ⟨data, len⟩ ref ↔
    ∃ k, Passes mem stop data len k ∧ Readable mem stop data len k ∧
      IsRefAt mem stop (stride mem data k) ∧ stride mem data k + 2 = ref := by
  constructor
  · rintro ⟨t, hvisits, hreads, hIsRef, href⟩
    obtain ⟨k, hpasses, rfl⟩ := visits_iff.mp hvisits
    exact ⟨k, hpasses, scanAt_reads.mp hreads, hIsRef, href⟩
  · rintro ⟨k, hpasses, hreadable, hIsRef, href⟩
    exact ⟨_, visits_iff.mpr ⟨k, hpasses, rfl⟩, scanAt_reads.mpr hreadable, hIsRef, href⟩

theorem ends_iff {data len : Nat} : (∃ r, Results (ElementScan.round mem stop) ⟨data, len⟩ r) ↔
    ∀ k, Passes mem stop data len k → Readable mem stop data len k →
      mem (stride mem data k + 1) ≠ 0 := by
  rw [exists_results_iff]
  constructor
  · intro h k hpasses hreadable
    exact h _ (visits_iff.mpr ⟨k, hpasses, rfl⟩) (scanAt_reads.mpr hreadable)
  · intro h t hvisits hreads
    obtain ⟨k, hpasses, rfl⟩ := visits_iff.mp hvisits
    exact h k hpasses (scanAt_reads.mp hreads)

theorem results_iff_comesTo {ref : Option Nat} :
    Results (ElementScan.round mem stop) c ref ↔
      (∃ r, Results (ElementScan.round mem stop) c r) ∧
        ∀ q, ref = some q ↔ ComesTo mem stop c q := by
  constructor
  · intro h
    refine ⟨⟨ref, h⟩, fun q => ?_⟩
    rw [← results_some_iff]
    exact ⟨fun hq => hq ▸ h, fun hq => h.unique hq⟩
  · rintro ⟨⟨r, hr⟩, hall⟩
    suffices hsame : ref = r from hsame ▸ hr
    refine Option.ext fun q => ?_
    rw [hall q, ← results_some_iff]
    exact ⟨fun hq => hr.unique hq, fun hq => hq ▸ hr⟩

end Scan

section Header

/-- An element of a user data header. -/
structure HeaderElement where
  id : UInt8
  data : List UInt8
  short : data.length < 256

namespace HeaderElement

def bytes (e : HeaderElement) : List UInt8 := e.id :: UInt8.ofNat e.data.length :: e.data

/-- Its identifier and its length. -/
def kind (e : HeaderElement) : UInt8 × Nat := (e.id, e.data.length)

/-- A reference number, the number of the parts and the index of this one. -/
def IsConcatenation (e : HeaderElement) : Prop := e.kind = (0, 3)

instance (e : HeaderElement) : Decidable e.IsConcatenation := inferInstanceAs (Decidable (_ = _))

/-- Where the data of the first concatenation element is, in a header from `start` on. -/
def reference : Nat → List HeaderElement → Option Nat
  | _, [] => none
  | start, e :: es =>
    if e.IsConcatenation then some (start + 2) else reference (start + e.bytes.length) es

end HeaderElement

variable {m : Type → Type} [Monad m] (peek : Nat → m UInt8) (pdu : SmsPDU)

/-- Where `smspdu_get_user_data_ref` begins with the elements, and the length of the header. -/
def userDataHeader : OptionT m (Nat × Nat) := do
  let stop := pdu.base.length
  let (mtiByte, data) ← smsGetByte peek pdu.tpdu stop
  if mtiByte &&& 0x40 = 0 then failure
  else
    let data ←
      if mtiByte &&& 3 = 0 then do
        smsSkipAddress peek data stop
        smsSkipTimestamp (data + 2) stop
      else if mtiByte &&& 3 = 1 then do
        smsSkipAddress peek (data + 1) stop
        smsSkipValidityPeriod (data + 1 + 2) stop mtiByte
      else failure
    if stop ≤ data + 1 then failure
    else
      let len ← peek (data + 1)
      return (data + 2, len.toNat)

theorem smspduGetUserDataRef_eq [LawfulMonad m] (fuel : Nat) :
    smspduGetUserDataRef peek pdu fuel =
      userDataHeader peek pdu >>= fun (data, len) =>
        userDataRefLoop peek pdu.base.length fuel data len := by
  have hfailure : ∀ f : Nat × Nat → OptionT m (Option Nat),
      (failure : OptionT m (Nat × Nat)) >>= f = failure := by
    intro f
    apply OptionT.ext
    simp
  simp only [smspduGetUserDataRef, userDataHeader, bind_assoc]
  refine bind_congr fun ⟨mtiByte, data⟩ => ?_
  by_cases hheader : mtiByte &&& 0x40 = 0
  · simp only [if_pos hheader, hfailure]
  · have hlength : ∀ data, (do
        if pdu.base.length ≤ data + 1 then failure
        else
          let len ← peek (data + 1)
          userDataRefLoop peek pdu.base.length fuel (data + 2) len.toNat :
          OptionT m (Option Nat)) =
        (if pdu.base.length ≤ data + 1 then failure
          else do
            let len ← peek (data + 1)
            return (data + 2, len.toNat)) >>= fun (data, len) =>
          userDataRefLoop peek pdu.base.length fuel data len := by
      intro data
      split
      · rw [hfailure]
      · simp only [bind_assoc, pure_bind]
    simp only [if_neg hheader]
    split
    · simp only [bind_assoc, hlength]
    · split
      · simp only [bind_assoc, hlength]
      · simp only [bind_assoc, hlength]

end Header

namespace SmsPDU

section Reference

variable (pdu : SmsPDU) (s : Surroundings)

def byte (i : Nat) : UInt8 := pdu.base.getD i (s.beyond i)

/-- What `smspdu_get_user_data_ref` returns, where `some none` says that it has not returned. -/
def userDataRef (fuel : Nat) : Option (Option Nat) :=
  (smspduGetUserDataRef (pdu.memory s) pdu fuel).run.run

def headerPlace : Option (Nat × Nat) := (userDataHeader (pdu.memory s) pdu).run.run

/-- The elements are the bytes from `data` on, and `len` is the number of these. -/
structure HasHeader (data len : Nat) (es : List HeaderElement) : Prop where
  length : (es.flatMap HeaderElement.bytes).length = len
  bytes : (pdu.base.drop data).take len = es.flatMap HeaderElement.bytes

/-- The loop comes to an end, and out of a well-formed header with its first concatenation
element. -/
structure FindsReference : Prop where
  ends : ∃ fuel, pdu.userDataRef s fuel ≠ some none
  finds : ∀ data len es, pdu.headerPlace s = some (data, len) → pdu.HasHeader data len es →
    ∃ fuel, pdu.userDataRef s fuel = (HeaderElement.reference data es).map some

def elementRound : ElementScan → Option Nat ⊕ ElementScan :=
  ElementScan.round (pdu.byte s) pdu.base.length

/-- In steps of the length byte alone one comes to no readable place with a zero there, and of the
places that look like a concatenation element to exactly the first of the header. -/
def StepsRight : Prop :=
  ∀ data len, pdu.headerPlace s = some (data, len) →
    (∀ k, Passes (pdu.byte s) pdu.base.length data len k →
      Readable (pdu.byte s) pdu.base.length data len k →
        pdu.byte s (stride (pdu.byte s) data k + 1) ≠ 0) ∧
    ∀ es, pdu.HasHeader data len es → ∀ ref, HeaderElement.reference data es = some ref ↔
      ∃ k, Passes (pdu.byte s) pdu.base.length data len k ∧
        Readable (pdu.byte s) pdu.base.length data len k ∧
        IsRefAt (pdu.byte s) pdu.base.length (stride (pdu.byte s) data k) ∧
        stride (pdu.byte s) data k + 2 = ref

variable {pdu s}

theorem userDataRef_of_none (h : pdu.headerPlace s = none) (fuel : Nat) :
    pdu.userDataRef s fuel = none := by
  rw [userDataRef, smspduGetUserDataRef_eq, OptionT.run_bind]
  change (pdu.headerPlace s).elim _ _ = none
  rw [h]
  rfl

theorem userDataRef_of_some {data len : Nat} (h : pdu.headerPlace s = some (data, len))
    (fuel : Nat) : pdu.userDataRef s fuel =
      (loopWithin (pdu.elementRound s) fuel ⟨data, len⟩).elim (some none) (Option.map some) := by
  rw [userDataRef, smspduGetUserDataRef_eq, OptionT.run_bind]
  change (pdu.headerPlace s).elim _ _ = _
  rw [h]
  exact run_userDataRefLoop fuel data len

theorem exists_ended_iff {data len : Nat} (h : pdu.headerPlace s = some (data, len)) :
    (∃ fuel, pdu.userDataRef s fuel ≠ some none) ↔
      ∃ r, Results (pdu.elementRound s) ⟨data, len⟩ r := by
  constructor
  · rintro ⟨fuel, hfuel⟩
    rw [userDataRef_of_some h] at hfuel
    cases hloop : loopWithin (pdu.elementRound s) fuel ⟨data, len⟩ with
    | none =>
      rw [hloop] at hfuel
      exact absurd rfl hfuel
    | some r => exact ⟨r, fuel, hloop⟩
  · rintro ⟨r, fuel, hloop⟩
    refine ⟨fuel, ?_⟩
    rw [userDataRef_of_some h, hloop]
    cases r <;> simp

theorem exists_userDataRef_iff {data len : Nat} (h : pdu.headerPlace s = some (data, len))
    (ref : Option Nat) : (∃ fuel, pdu.userDataRef s fuel = ref.map some) ↔
      Results (pdu.elementRound s) ⟨data, len⟩ ref := by
  refine exists_congr fun fuel => ?_
  rw [userDataRef_of_some h]
  cases loopWithin (pdu.elementRound s) fuel ⟨data, len⟩ with
  | none => cases ref <;> simp
  | some r =>
    change r.map some = ref.map some ↔ some r = some ref
    rw [Option.some_inj]
    exact (Option.map_injective (Option.some_injective Nat)).eq_iff

theorem findsReference_iff_stepsRight (pdu : SmsPDU) (s : Surroundings) :
    pdu.FindsReference s ↔ pdu.StepsRight s := by
  cases hplace : pdu.headerPlace s with
  | none =>
    refine iff_of_true ⟨⟨0, ?_⟩, ?_⟩ ?_
    · rw [userDataRef_of_none hplace]
      exact nofun
    · intro data len es h
      cases hplace.symm.trans h
    · intro data len h
      cases hplace.symm.trans h
  | some place =>
    obtain ⟨data, len⟩ := place
    have hsame : ∀ data' len', pdu.headerPlace s = some (data', len') → data' = data ∧ len' = len := by
      intro data' len' h
      cases hplace.symm.trans h
      exact ⟨rfl, rfl⟩
    constructor
    · rintro ⟨hends, hfinds⟩ data' len' h
      obtain ⟨rfl, rfl⟩ := hsame data' len' h
      refine ⟨ends_iff.mp ((exists_ended_iff h).mp hends), fun es hes ref => ?_⟩
      have hresult := (exists_userDataRef_iff h _).mp (hfinds _ _ es h hes)
      exact ((results_iff_comesTo.mp hresult).2 ref).trans comesTo_iff
    · intro h
      obtain ⟨hnonzero, hcomes⟩ := h data len hplace
      have hends := ends_iff.mpr hnonzero
      refine ⟨(exists_ended_iff hplace).mpr hends, fun data' len' es h' hes => ?_⟩
      obtain ⟨rfl, rfl⟩ := hsame data' len' h'
      exact (exists_userDataRef_iff hplace _).mpr (results_iff_comesTo.mpr
        ⟨hends, fun ref => (hcomes es hes ref).trans comesTo_iff.symm⟩)

end Reference

section Kinds

variable {pdu : SmsPDU} {s : Surroundings} {data len : Nat} {es : List HeaderElement}

theorem HasHeader.byte (h : pdu.HasHeader data len es) {i : Nat} (hi : i < len) :
    pdu.byte s (data + i) = (es.flatMap HeaderElement.bytes).getD i 0 ∧
      data + len ≤ pdu.base.length := by
  have hlength := congrArg List.length h.bytes
  rw [List.length_take, List.length_drop, h.length] at hlength
  have hle : data + len ≤ pdu.base.length := by omega
  refine ⟨?_, hle⟩
  rw [← h.bytes, List.getD_eq_getElem _ _ (by rw [List.length_take, List.length_drop]; omega),
    List.getElem_take, List.getElem_drop, SmsPDU.byte, List.getD_eq_getElem _ _ (by omega)]

theorem isConcatenation_iff (e : HeaderElement) :
    e.IsConcatenation ↔ e.id = 0 ∧ UInt8.ofNat e.data.length = 3 := by
  have hshort := e.short
  rw [HeaderElement.IsConcatenation, HeaderElement.kind, Prod.mk.injEq, ← UInt8.toNat_inj (b := 3),
    UInt8.toNat_ofNat_of_lt' hshort]
  exact Iff.rfl

theorem HasHeader.results_of_first (h : pdu.HasHeader data len es)
    (hfirst : es = [] ∨ ∃ e rest, es = e :: rest ∧ e.IsConcatenation) :
    Results (pdu.elementRound s) ⟨data, len⟩ (HeaderElement.reference data es) := by
  rcases hfirst with rfl | ⟨e, rest, rfl, he⟩
  · have hlen : len = 0 := h.length.symm
    refine results_of_inl (if_neg ?_)
    rintro ⟨htwo, -⟩
    change (2 : Int) ≤ len at htwo
    omega
  · have hlength := h.length
    have hthree : e.data.length = 3 := congrArg Prod.snd he
    simp only [List.flatMap_cons, HeaderElement.bytes, List.length_append, List.length_cons] at hlength
    obtain ⟨hid, hbound⟩ := h.byte (s := s) (i := 0) (by omega)
    have hlen := (h.byte (s := s) (i := 1) (by omega)).1
    obtain ⟨hzero, hshort⟩ := (isConcatenation_iff e).mp he
    have hreads : (⟨data, len⟩ : ElementScan).Reads pdu.base.length := by
      change (2 : Int) ≤ len ∧ data + 2 ≤ _
      omega
    have hIsRef : (⟨data, len⟩ : ElementScan).IsRef (pdu.byte s) pdu.base.length := by
      refine ⟨hid.trans hzero, hlen.trans hshort, ?_⟩
      change data + 5 ≤ _
      omega
    rw [HeaderElement.reference, if_pos he]
    exact results_of_inl ((if_pos hreads).trans (if_pos hIsRef))

/-- In front of the data of its first element there is nothing to be found, and in zeros there is
no way on. -/
theorem HasHeader.not_results {e : HeaderElement} {rest : List HeaderElement}
    (h : pdu.HasHeader data len (e :: rest)) (hnot : ¬e.IsConcatenation)
    (hzeros : e.data = List.replicate e.data.length 0) :
    ¬∃ r, Results (pdu.elementRound s) ⟨data, len⟩ r := by
  have hlength := h.length
  simp only [List.flatMap_cons, HeaderElement.bytes, List.length_append, List.length_cons] at hlength
  have hbytes : ∀ i, i < e.data.length + 2 →
      pdu.byte s (data + i) = (e.id :: UInt8.ofNat e.data.length :: e.data).getD i 0 := by
    intro i hi
    rw [(h.byte (by omega)).1, List.flatMap_cons, HeaderElement.bytes,
      List.getD_append _ _ _ _ (by rw [List.length_cons, List.length_cons]; exact hi)]
  have hbound := (h.byte (s := s) (i := 0) (by omega)).2
  have hreads : (⟨data, len⟩ : ElementScan).Reads pdu.base.length := by
    change (2 : Int) ≤ len ∧ data + 2 ≤ _
    omega
  have hid := hbytes 0 (by omega)
  have hhlen := hbytes 1 (by omega)
  intro hresults
  have hnonzero := exists_results_iff.mp hresults
  by_cases hnone : e.data.length = 0
  · refine hnonzero _ .refl hreads (hhlen.trans ?_)
    rw [hnone]
    rfl
  · have hIsRef : ¬(⟨data, len⟩ : ElementScan).IsRef (pdu.byte s) pdu.base.length := by
      rintro ⟨hzero, hthree, -⟩
      exact hnot ((isConcatenation_iff e).mpr ⟨hid.symm.trans hzero, hhlen.symm.trans hthree⟩)
    have hstep : (pdu.byte s (data + 1)).toNat = e.data.length := by
      rw [hhlen]
      exact UInt8.toNat_ofNat_of_lt' e.short
    refine hnonzero _ (.single ((if_pos hreads).trans (if_neg hIsRef))) ?_ ?_
    · change (2 : Int) ≤ len - ((pdu.byte s (data + 1)).toNat - 2) ∧
        data + (pdu.byte s (data + 1)).toNat + 2 ≤ _
      rw [hstep]
      omega
    · change pdu.byte s (data + (pdu.byte s (data + 1)).toNat + 1) = 0
      rw [hstep, Nat.add_assoc, hbytes _ (by omega)]
      obtain ⟨k, hk⟩ : ∃ k, e.data.length = k + 1 := ⟨e.data.length - 1, by omega⟩
      rw [hk, List.getD_cons_succ, List.getD_cons_succ, hzeros, hk]
      rw [List.getD_eq_getElem _ _ (by simp), List.getElem_replicate]

/-- An SMS-DELIVER from an empty address, which ends with this header. -/
def withHeader (header : List UInt8) : SmsPDU where
  base := 0 :: 0x40 :: List.replicate 10 0 ++ UInt8.ofNat header.length :: header
  tpdu := 1

theorem headerPlace_withHeader {header : List UInt8} (h : header.length < 256)
    (s : Surroundings) : (withHeader header).headerPlace s = some (13, header.length) := by
  have hstop : (withHeader header).base.length = 13 + header.length := by
    simp [withHeader]
    omega
  have hlen : (UInt8.ofNat header.length).toNat = header.length := UInt8.toNat_ofNat_of_lt' h
  have hmtiByte : smsGetByte ((withHeader header).memory s) 1 (13 + header.length) =
      pure (0x40, 2) := (if_pos (by omega)).trans rfl
  have haddress : smsSkipAddress ((withHeader header).memory s) 2 (13 + header.length) =
      pure () := by
    refine (if_neg (by omega)).trans ?_
    change (if 13 + header.length < 2 + 2 + (0 + 1) / 2 then failure else pure ()) = _
    exact if_neg (by omega)
  have htimestamp : (smsSkipTimestamp (2 + 2) (13 + header.length) : OptionT Id Nat) = pure 11 :=
    if_neg (by omega)
  have hplace : userDataHeader ((withHeader header).memory s) (withHeader header) =
      pure (13, header.length) := by
    rw [userDataHeader, hstop]
    change (smsGetByte ((withHeader header).memory s) 1 _ >>= _) = _
    rw [hmtiByte, pure_bind]
    change (smsSkipAddress ((withHeader header).memory s) 2 _ >>= _) = _
    rw [haddress, pure_bind, htimestamp, pure_bind]
    refine (if_neg (by omega)).trans ?_
    exact congrArg (fun len => (pure (11 + 2, len) : OptionT Id (Nat × Nat))) hlen
  rw [headerPlace, hplace]
  rfl

/-- Elements with the same identifiers and lengths, and zeros in them. -/
def blank (e : HeaderElement) : HeaderElement where
  id := e.id
  data := List.replicate e.data.length 0
  short := by
    rw [List.length_replicate]
    exact e.short

theorem kind_blank (e : HeaderElement) : (blank e).kind = e.kind := by
  rw [HeaderElement.kind, HeaderElement.kind, blank, List.length_replicate]

theorem length_bytes_blank (es : List HeaderElement) :
    ((es.map blank).flatMap HeaderElement.bytes).length =
      (es.flatMap HeaderElement.bytes).length := by
  rw [List.flatMap_map, List.length_flatMap, List.length_flatMap]
  congr 2
  funext e
  simp [HeaderElement.bytes, blank]

theorem hasHeader_withHeader (es : List HeaderElement) :
    (withHeader (es.flatMap HeaderElement.bytes)).HasHeader 13
      (es.flatMap HeaderElement.bytes).length es where
  length := rfl
  bytes := List.take_length

/-- The first concatenation element is found in each header with these identifiers and lengths,
whatever its elements hold and whatever is around it. -/
def KindFound (kinds : List (UInt8 × Nat)) : Prop :=
  ∀ es : List HeaderElement, es.map HeaderElement.kind = kinds →
    ∀ (pdu : SmsPDU) (s : Surroundings) data len, pdu.headerPlace s = some (data, len) →
      pdu.HasHeader data len es →
        ∃ fuel, pdu.userDataRef s fuel = (HeaderElement.reference data es).map some

theorem kindFound_iff (es : List HeaderElement)
    (hfit : (es.flatMap HeaderElement.bytes).length < 256) :
    KindFound (es.map HeaderElement.kind) ↔
      es = [] ∨ ∃ e rest, es = e :: rest ∧ e.IsConcatenation := by
  constructor
  · intro h
    cases es with
    | nil => exact .inl rfl
    | cons e rest =>
      by_contra hnot
      have he : ¬(blank e).IsConcatenation := by
        intro he
        refine hnot (.inr ⟨e, rest, rfl, ?_⟩)
        rwa [HeaderElement.IsConcatenation, kind_blank] at he
      have hheader := hasHeader_withHeader ((e :: rest).map blank)
      have hlength : (((e :: rest).map blank).flatMap HeaderElement.bytes).length < 256 := by
        rwa [length_bytes_blank]
      have s : Surroundings :=
        { beyond := fun _ => 0, fresh := fun _ => 0, address := ⟨0, 0, Vector.replicate _ 0⟩
          rope := { data := .null, max := 0, pos := 0, error := false, data0 := fun _ => 0 } }
      have hplace := headerPlace_withHeader hlength s
      have hkinds : ((e :: rest).map blank).map HeaderElement.kind =
          (e :: rest).map HeaderElement.kind := by
        rw [List.map_map]
        exact List.map_congr_left fun d _ => kind_blank d
      have hresult := h _ hkinds _ s _ _ hplace hheader
      refine hheader.not_results (s := s) he ?_ ⟨_, (exists_userDataRef_iff hplace _).mp hresult⟩
      simp [blank]
  · rintro hfirst es' hkinds pdu s data len hplace hheader
    refine (exists_userDataRef_iff hplace _).mpr (hheader.results_of_first ?_)
    rcases hfirst with rfl | ⟨e, rest, rfl, he⟩
    · exact .inl (List.map_eq_nil_iff.mp hkinds)
    · obtain ⟨e', rest', rfl, hkind, -⟩ := List.map_eq_cons_iff.mp hkinds
      exact .inr ⟨e', rest', rfl, hkind.trans he⟩

/-- The scan of a PDU is right exactly if the steps of the length byte alone are; by the
identifiers and lengths of a header alone, if it has no elements or begins with the one looked
for. -/
theorem findsReference_iff (pdu : SmsPDU) (s : Surroundings) (es : List HeaderElement) :
    (pdu.FindsReference s ↔ pdu.StepsRight s) ∧
    ((es.flatMap HeaderElement.bytes).length < 256 →
      (KindFound (es.map HeaderElement.kind) ↔
        es = [] ∨ ∃ e rest, es = e :: rest ∧ e.IsConcatenation)) :=
  ⟨findsReference_iff_stepsRight pdu s, kindFound_iff es⟩

end Kinds

/-- Behind an element with one byte of data the scan goes on two bytes early, and past the
concatenation element. -/
theorem not_findsReference_second :
    ¬∀ (pdu : SmsPDU) (s : Surroundings), pdu.FindsReference s := by
  intro h
  have s : Surroundings :=
    { beyond := fun _ => 0, fresh := fun _ => 0, address := ⟨0, 0, Vector.replicate _ 0⟩
      rope := { data := .null, max := 0, pos := 0, error := false, data0 := fun _ => 0 } }
  let es : List HeaderElement := [⟨5, [7], by decide⟩, ⟨0, [1, 2, 1], by decide⟩]
  have hshort : (es.flatMap HeaderElement.bytes).length < 256 := by decide
  have hplace := headerPlace_withHeader hshort s
  have hfound := (h _ s).finds _ _ _ hplace (hasHeader_withHeader es)
  have hpast : Results ((withHeader (es.flatMap HeaderElement.bytes)).elementRound s)
      ⟨13, (es.flatMap HeaderElement.bytes).length⟩ none := ⟨3, rfl⟩
  have heq := ((exists_userDataRef_iff hplace _).mp hfound).unique hpast
  cases heq

end SmsPDU

end M2M.Telephony
