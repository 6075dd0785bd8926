import M2M.Lib.Runs
import M2M.Telephony.RoundTrip
import M2M.Telephony.SmsReceiver
import Mathlib.Data.Finset.Card
import Mathlib.Data.Finset.Range

/-! The fragments of a receiver over any sequence of calls. -/

open M2M.Lib

namespace M2M.Telephony

inductive SmsCall
  | add (s : AddSurroundings) (pdu : SmsPDU) (fuel : Nat)
  | createDeliver (s : Nat → Surroundings) (index : Nat) (sender : SmsAddress) (now : SmsTimeStamp)
      (refNum : UInt8) (utf8 : Int → UInt8)

def SmsFragment.filled (frag : SmsFragment) : Finset Nat :=
  (Finset.range frag.max.toNat).filter fun i => (frag.pdus i).isSome

/-- What `sms_receiver_add_submit_pdu` gets out of a PDU. -/
structure Extracts (s : AddSurroundings) (pdu : SmsPDU) (fuel : Nat) (sender : SmsAddressRec)
    (ref : Int) (max : Nat) (cur : Int) : Prop where
  address : (smspduGetReceiverAddress (pdu.memory s.toSurroundings) pdu s.address).run.run =
    some sender
  reference : (smspduGetRef (pdu.memory s.toSurroundings) pdu fuel).run = some ref
  nonneg : 0 ≤ ref
  maximum : (smspduGetMaxIndex (pdu.memory s.toSurroundings) pdu fuel).run = some max
  current : (smspduGetCurIndex (pdu.memory s.toSurroundings) pdu fuel).run = some cur

namespace SmsReceiver

variable (receiver : SmsReceiver)

/-- The receiver after a call.  A call that has not returned has changed nothing. -/
def step : SmsCall → SmsReceiver
  | .add s pdu fuel => ((receiver.addSubmitPdu s pdu fuel).map (·.receiver)).getD receiver
  | .createDeliver s index sender now refNum utf8 =>
    ((receiver.createDeliver s index sender now refNum utf8).map (·.2)).getD receiver

structure Consistent : Prop where
  count : ∀ frag ∈ receiver.fragments, frag.count.toNat = frag.filled.card
  keys : receiver.fragments.Pairwise fun a b => ¬(a.ref = b.ref ∧ a.sender.Same b.sender)
  indices : receiver.fragments.Pairwise fun a b => a.index ≠ b.index

/-- The call writes inside the array of its fragment, and leaves the list of fragments when it
returns -1. -/
def CallKeeps : SmsCall → Prop
  | .add s pdu fuel => ∀ added, receiver.addSubmitPdu s pdu fuel = some added →
    (∀ max i, added.wrote = some (max, i) → i < max.toNat) ∧
      (added.result = -1 → added.receiver.fragments = receiver.fragments)
  | .createDeliver .. => True

/-- The call agrees with the fragments there are: the index is below the maximum of the fragment
found for it or not to be stored at all, and a new fragment is made for an index to be stored under
a new number or reference. -/
def Fits : SmsCall → Prop
  | .add s pdu fuel => ∀ sender ref max cur, Extracts s pdu fuel sender ref max cur →
    match receiver.fragments[receiver.findP s sender ref]? with
    | some frag => 0 ≤ cur → cur < max → cur < frag.max.toNat
    | none => 0 ≤ cur ∧ cur < max ∧
      ∀ node ∈ receiver.fragments, ¬((node.ref.toNat : Int) = ref ∧ node.sender.Same sender)
  | .createDeliver .. => True

end SmsReceiver

section Extracts

variable {peek : Nat → Id UInt8} {pdu : SmsPDU} {fuel : Nat}

theorem le_of_smspduGetRef {ref : Int} (h : (smspduGetRef peek pdu fuel).run = some ref) :
    ref ≤ 255 := by
  have hbyte : ∀ b : UInt8, (b.toNat : Int) ≤ 255 := fun b => by have := b.toNat_lt; omega
  rw [smspduGetRef, Id.run_bind] at h
  split at h
  · rw [← Option.some.inj h]
    exact hbyte _
  · cases h
  · change (if _ then if _ then some ((peek (pdu.tpdu + 1)).run.toNat : Int) else some (-1)
      else some (-1)) = some ref at h
    split at h
    · split at h
      · rw [← Option.some.inj h]
        exact hbyte _
      · rw [← Option.some.inj h]
        decide
    · rw [← Option.some.inj h]
      decide

theorem le_of_smspduGetMaxIndex {max : Nat}
    (h : (smspduGetMaxIndex peek pdu fuel).run = some max) : max ≤ 255 := by
  rw [smspduGetMaxIndex, Id.run_bind] at h
  split at h
  · rw [← Option.some.inj h]
    exact Nat.le_of_lt_succ (UInt8.toNat_lt _)
  · cases h
  · rw [← Option.some.inj h]
    decide

variable {s : AddSurroundings} {sender : SmsAddressRec} {ref : Int} {max : Nat} {cur : Int}

theorem Extracts.toNat_ref (h : Extracts s pdu fuel sender ref max cur) :
    ((UInt8.ofNat ref.toNat).toNat : Int) = ref := by
  have hle := le_of_smspduGetRef h.reference
  have hpos := h.nonneg
  rw [UInt8.toNat_ofNat']
  omega

theorem Extracts.toNat_max (h : Extracts s pdu fuel sender ref max cur) :
    (UInt8.ofNat max).toNat = max := by
  have hle := le_of_smspduGetMaxIndex h.maximum
  rw [UInt8.toNat_ofNat']
  omega

theorem Extracts.unique {sender' : SmsAddressRec} {ref' : Int} {max' : Nat} {cur' : Int}
    (h : Extracts s pdu fuel sender ref max cur)
    (h' : Extracts s pdu fuel sender' ref' max' cur') :
    sender' = sender ∧ ref' = ref ∧ max' = max ∧ cur' = cur :=
  ⟨Option.some.inj (h'.address.symm.trans h.address),
    Option.some.inj (h'.reference.symm.trans h.reference),
    Option.some.inj (h'.maximum.symm.trans h.maximum),
    Option.some.inj (h'.current.symm.trans h.current)⟩

namespace SmsReceiver

variable {receiver : SmsReceiver}

theorem addSubmitPdu_of_extracts (h : Extracts s pdu fuel sender ref max cur) :
    receiver.addSubmitPdu s pdu fuel = some (receiver.addExtracted s pdu sender ref max cur) := by
  simp only [addSubmitPdu, h.address, h.reference, h.maximum, h.current, Option.bind_eq_bind,
    Option.bind_some, if_neg (Int.not_lt.mpr h.nonneg)]
  rfl

theorem addSubmitPdu_cases {added : Added} (h : receiver.addSubmitPdu s pdu fuel = some added) :
    added = ⟨-1, receiver, none⟩ ∨
      ∃ sender ref max cur, Extracts s pdu fuel sender ref max cur := by
  rw [addSubmitPdu] at h
  split at h
  · exact .inl (Option.some.inj h).symm
  · next sender haddress =>
    obtain ⟨ref, href, h⟩ := Option.bind_eq_some_iff.mp h
    split at h
    · exact .inl (Option.some.inj h).symm
    · next hneg =>
      obtain ⟨max, hmax, h⟩ := Option.bind_eq_some_iff.mp h
      obtain ⟨cur, hcur, -⟩ := Option.bind_eq_some_iff.mp h
      exact .inr ⟨sender, ref, max, cur, haddress, href, Int.not_lt.mp hneg, hmax, hcur⟩

end SmsReceiver

end Extracts

section Put

variable {frag : SmsFragment} {cur : Nat}

theorem SmsFragment.mem_filled {i : Nat} :
    i ∈ frag.filled ↔ i < frag.max.toNat ∧ (frag.pdus i).isSome := by
  rw [filled, Finset.mem_filter, Finset.mem_range]

theorem SmsFragment.filled_put (h : cur < frag.max.toNat) (pdu : SmsPDU) :
    (frag.put cur pdu).filled = insert cur frag.filled := by
  ext i
  rw [Finset.mem_insert, mem_filled, mem_filled]
  by_cases hi : i = cur
  · subst hi
    simp [put, h]
  · simp [put, hi]

theorem SmsFragment.card_filled_le (frag : SmsFragment) : frag.filled.card ≤ frag.max.toNat :=
  (Finset.card_filter_le _ _).trans_eq (Finset.card_range _)

theorem SmsFragment.count_put (hcount : frag.count.toNat = frag.filled.card)
    (h : cur < frag.max.toNat) (pdu : SmsPDU) :
    (frag.put cur pdu).count.toNat = (frag.put cur pdu).filled.card := by
  have hle := (frag.put cur pdu).card_filled_le
  rw [filled_put h] at hle ⊢
  by_cases hold : (frag.pdus cur).isSome
  · have hmem : cur ∈ frag.filled := SmsFragment.mem_filled.mpr ⟨h, hold⟩
    rw [Finset.insert_eq_self.mpr hmem, ← hcount]
    change ((if _ then frag.count - 1 else frag.count) + 1).toNat = _
    rw [if_pos hold, UInt8.sub_add_cancel]
  · have hmem : cur ∉ frag.filled := fun hm => hold (SmsFragment.mem_filled.mp hm).2
    rw [Finset.card_insert_of_notMem hmem, ← hcount] at hle ⊢
    change ((if _ then frag.count - 1 else frag.count) + 1).toNat = _
    have hmax : (frag.put cur pdu).max.toNat ≤ 255 := Nat.le_of_lt_succ (UInt8.toNat_lt _)
    rw [if_neg hold, UInt8.toNat_add]
    change (frag.count.toNat + 1) % 256 = _
    omega

end Put

namespace SmsReceiver

variable {receiver : SmsReceiver}

/-- What the receiver keeps besides: no index was given twice. -/
structure Books (receiver : SmsReceiver) : Prop extends Consistent receiver where
  index_le : ∀ frag ∈ receiver.fragments, frag.index ≤ receiver.last

theorem Books.of_sublist {fragments : List SmsFragment} (h : receiver.Books)
    (hsub : fragments.Sublist receiver.fragments) :
    Books { receiver with fragments := fragments } where
  count := fun frag hfrag => h.count frag (hsub.subset hfrag)
  keys := h.keys.sublist hsub
  indices := h.indices.sublist hsub
  index_le := fun frag hfrag => h.index_le frag (hsub.subset hfrag)

theorem step_createDeliver (receiver : SmsReceiver) (s : Nat → Surroundings) (index : Nat)
    (sender : SmsAddress)
    (now : SmsTimeStamp) (refNum : UInt8) (utf8 : Int → UInt8) :
    receiver.step (.createDeliver s index sender now refNum utf8) = receiver ∨
      receiver.step (.createDeliver s index sender now refNum utf8) = receiver.remove index := by
  simp only [step, createDeliver]
  split
  · exact .inl rfl
  · split
    · exact .inl rfl
    · cases receiver.getTextMessage s index 0 utf8 with
      | none => exact .inl rfl
      | some text =>
        simp only [Option.bind_eq_bind, Option.bind_some]
        split
        · exact .inr rfl
        · next frag _ _ _ =>
          cases deliverLoop s frag text.1 frag.count.toNat 0 0 utf8 with
          | none => exact .inl rfl
          | some text => exact .inr rfl

section AddExtracted

variable {s : AddSurroundings} {pdu : SmsPDU} {fuel : Nat} {sender : SmsAddressRec} {ref : Int}
  {max : Nat} {cur : Int}

theorem addExtracted_of_not_stored (hcur : cur < 0 ∨ (max : Int) ≤ cur) :
    receiver.addExtracted s pdu sender ref max cur =
      ⟨-1, match receiver.fragments[receiver.findP s sender ref]? with
        | some _ => receiver
        | none => ⟨receiver.last + 1, receiver.fragments ++ [receiver.newFragment sender ref max]⟩,
        none⟩ := by
  rw [addExtracted]
  cases receiver.fragments[receiver.findP s sender ref]? <;> exact if_pos hcur

theorem addExtracted_of_found {frag : SmsFragment} (hcur : ¬(cur < 0 ∨ (max : Int) ≤ cur))
    (hfrag : receiver.fragments[receiver.findP s sender ref]? = some frag) :
    receiver.addExtracted s pdu sender ref max cur =
      ⟨if (frag.put cur.toNat pdu).max ≤ (frag.put cur.toNat pdu).count then frag.index else 0,
        ⟨receiver.last, receiver.fragments.set (receiver.findP s sender ref)
          (frag.put cur.toNat pdu)⟩, some (frag.max, cur.toNat)⟩ := by
  rw [addExtracted, hfrag]
  exact if_neg hcur

theorem findP_of_none (hfrag : receiver.fragments[receiver.findP s sender ref]? = none) :
    receiver.findP s sender ref = receiver.fragments.length :=
  Nat.le_antisymm List.findIdx_le_length (List.getElem?_eq_none_iff.mp hfrag)

theorem addExtracted_of_new (hcur : ¬(cur < 0 ∨ (max : Int) ≤ cur))
    (hfrag : receiver.fragments[receiver.findP s sender ref]? = none) :
    receiver.addExtracted s pdu sender ref max cur =
      ⟨if ((receiver.newFragment sender ref max).put cur.toNat pdu).max ≤
          ((receiver.newFragment sender ref max).put cur.toNat pdu).count then
          ((receiver.last + 1 : Nat) : Int) else 0,
        ⟨receiver.last + 1,
          receiver.fragments ++ [(receiver.newFragment sender ref max).put cur.toNat pdu]⟩,
        some ((receiver.newFragment sender ref max).max, cur.toNat)⟩ := by
  have hset : (receiver.fragments ++ [receiver.newFragment sender ref max]).set
      (receiver.findP s sender ref) ((receiver.newFragment sender ref max).put cur.toNat pdu) =
        receiver.fragments ++ [(receiver.newFragment sender ref max).put cur.toNat pdu] := by
    rw [findP_of_none hfrag, List.set_append_right _ _ (Nat.le_refl _), Nat.sub_self,
      List.set_cons_zero]
  rw [addExtracted, hfrag]
  simp only [if_neg hcur, hset]
  rfl

theorem map_set_of_eq {α β : Type} {f : α → β} {l : List α} {p : Nat} {a b : α}
    (ha : l[p]? = some a) (hf : f b = f a) : (l.set p b).map f = l.map f := by
  obtain ⟨hp, rfl⟩ := List.getElem?_eq_some_iff.mp ha
  rw [List.map_set, hf, ← List.getElem_map f (h := by simpa using hp), List.set_getElem_self]

theorem Books.set {p : Nat} {frag : SmsFragment} (stored : SmsFragment) (h : receiver.Books)
    (hfrag : receiver.fragments[p]? = some frag) (href : stored.ref = frag.ref)
    (hsender : stored.sender = frag.sender) (hindex : stored.index = frag.index)
    (hcount : stored.count.toNat = stored.filled.card) :
    Books ⟨receiver.last, receiver.fragments.set p stored⟩ where
  count := by
    intro node hnode
    rcases List.mem_or_eq_of_mem_set hnode with hold | rfl
    · exact h.count node hold
    · exact hcount
  keys := by
    have hkeys := map_set_of_eq (f := fun f : SmsFragment => (f.ref, f.sender)) hfrag
      (Prod.ext href hsender)
    have hold := List.pairwise_map (R := fun a b => ¬(a.1 = b.1 ∧ SmsAddressRec.Same a.2 b.2))
      (f := fun f : SmsFragment => (f.ref, f.sender)) |>.mpr h.keys
    rw [← hkeys] at hold
    exact List.pairwise_map.mp hold
  indices := by
    have hold := List.pairwise_map (R := fun a b : Nat => a ≠ b) (f := SmsFragment.index)
      |>.mpr h.indices
    rw [← map_set_of_eq hfrag hindex] at hold
    exact List.pairwise_map.mp hold
  index_le := by
    intro node hnode
    rcases List.mem_or_eq_of_mem_set hnode with hold | rfl
    · exact h.index_le node hold
    · rw [hindex]
      exact h.index_le frag (List.mem_of_getElem? hfrag)

theorem consistent_append {stored : SmsFragment} (h : receiver.Books)
    (hindex : stored.index = receiver.last + 1) (hcount : stored.count.toNat = stored.filled.card) :
    Consistent ⟨receiver.last + 1, receiver.fragments ++ [stored]⟩ ↔
      ∀ node ∈ receiver.fragments, ¬(node.ref = stored.ref ∧ node.sender.Same stored.sender) := by
  constructor
  · intro hnew node hnode
    exact (List.pairwise_append.mp hnew.keys).2.2 node hnode stored (List.mem_singleton_self _)
  · intro hfresh
    refine ⟨?_, ?_, ?_⟩
    · intro node hnode
      rcases List.mem_append.mp hnode with hold | hlast
      · exact h.count node hold
      · rw [List.mem_singleton.mp hlast]
        exact hcount
    · refine List.pairwise_append.mpr ⟨h.keys, List.pairwise_singleton _ _, ?_⟩
      intro node hnode last hlast
      rw [List.mem_singleton.mp hlast]
      exact hfresh node hnode
    · refine List.pairwise_append.mpr ⟨h.indices, List.pairwise_singleton _ _, ?_⟩
      intro node hnode last hlast
      have hle := h.index_le node hnode
      rw [List.mem_singleton.mp hlast, hindex]
      omega

theorem index_le_addExtracted (h : receiver.Books) :
    ∀ frag ∈ (receiver.addExtracted s pdu sender ref max cur).receiver.fragments,
      frag.index ≤ (receiver.addExtracted s pdu sender ref max cur).receiver.last := by
  have happend : ∀ new : SmsFragment, new.index = receiver.last + 1 →
      ∀ frag ∈ receiver.fragments ++ [new], frag.index ≤ receiver.last + 1 := by
    intro new hnew frag hfrag
    rcases List.mem_append.mp hfrag with hold | hlast
    · exact Nat.le_succ_of_le (h.index_le frag hold)
    · rw [List.mem_singleton.mp hlast, hnew]
  by_cases hcur : cur < 0 ∨ (max : Int) ≤ cur
  · rw [addExtracted_of_not_stored hcur]
    split
    · exact h.index_le
    · exact happend _ rfl
  · cases hfrag : receiver.fragments[receiver.findP s sender ref]? with
    | some frag =>
      rw [addExtracted_of_found hcur hfrag]
      intro node hnode
      rcases List.mem_or_eq_of_mem_set hnode with hold | rfl
      · exact h.index_le node hold
      · exact h.index_le frag (List.mem_of_getElem? hfrag)
    | none =>
      rw [addExtracted_of_new hcur hfrag]
      exact happend _ rfl

theorem callKeeps_add_iff (hext : Extracts s pdu fuel sender ref max cur) :
    receiver.CallKeeps (.add s pdu fuel) ↔
      (∀ bound i, (receiver.addExtracted s pdu sender ref max cur).wrote = some (bound, i) →
        i < bound.toNat) ∧
      ((receiver.addExtracted s pdu sender ref max cur).result = -1 →
        (receiver.addExtracted s pdu sender ref max cur).receiver.fragments =
          receiver.fragments) := by
  constructor
  · intro h
    exact h _ (addSubmitPdu_of_extracts hext)
  · intro h added hadded
    rw [addSubmitPdu_of_extracts hext] at hadded
    rw [← Option.some.inj hadded]
    exact h

theorem fits_add_iff (hext : Extracts s pdu fuel sender ref max cur) :
    receiver.Fits (.add s pdu fuel) ↔
      match receiver.fragments[receiver.findP s sender ref]? with
      | some frag => 0 ≤ cur → cur < max → cur < frag.max.toNat
      | none => 0 ≤ cur ∧ cur < max ∧
        ∀ node ∈ receiver.fragments, ¬((node.ref.toNat : Int) = ref ∧ node.sender.Same sender) := by
  constructor
  · intro h
    exact h sender ref max cur hext
  · intro h sender' ref' max' cur' hext'
    obtain ⟨rfl, rfl, rfl, rfl⟩ := hext.unique hext'
    exact h

theorem step_add (hext : Extracts s pdu fuel sender ref max cur) :
    receiver.step (.add s pdu fuel) =
      (receiver.addExtracted s pdu sender ref max cur).receiver := by
  rw [step, addSubmitPdu_of_extracts hext]
  rfl

theorem result_nonneg {c : Prop} [Decidable c] (n : Nat) : (if c then (n : Int) else 0) ≠ -1 := by
  split <;> omega

theorem add_keeps_iff (h : receiver.Books) (hext : Extracts s pdu fuel sender ref max cur) :
    (receiver.CallKeeps (.add s pdu fuel) ∧ (receiver.step (.add s pdu fuel)).Consistent) ↔
      receiver.Fits (.add s pdu fuel) := by
  rw [callKeeps_add_iff hext, fits_add_iff hext, step_add hext]
  by_cases hcur : cur < 0 ∨ (max : Int) ≤ cur
  · rw [addExtracted_of_not_stored hcur]
    cases receiver.fragments[receiver.findP s sender ref]? with
    | some frag =>
      refine iff_of_true ⟨⟨?_, fun _ => rfl⟩, h.toConsistent⟩ (by omega)
      rintro bound i ⟨⟩
    | none =>
      refine iff_of_false ?_ (by omega)
      rintro ⟨⟨-, hsame⟩, -⟩
      have hlen := congrArg List.length (hsame rfl)
      simp at hlen
  · cases hfrag : receiver.fragments[receiver.findP s sender ref]? with
    | some frag =>
      rw [addExtracted_of_found hcur hfrag]
      constructor
      · rintro ⟨⟨hwrote, -⟩, -⟩ hpos -
        have := hwrote frag.max cur.toNat rfl
        omega
      · intro hfits
        have hlt : cur.toNat < frag.max.toNat := by
          have := hfits (by omega) (by omega)
          omega
        refine ⟨⟨?_, fun hres => absurd hres (result_nonneg _)⟩, ?_⟩
        · rintro bound i ⟨⟩
          exact hlt
        · have hcount := SmsFragment.count_put (h.count frag (List.mem_of_getElem? hfrag)) hlt pdu
          exact (h.set (frag.put cur.toNat pdu) hfrag rfl rfl rfl hcount).toConsistent
    | none =>
      rw [addExtracted_of_new hcur hfrag]
      have hlt : cur.toNat < (receiver.newFragment sender ref max).max.toNat := by
        change _ < (UInt8.ofNat max).toNat
        rw [hext.toNat_max]
        omega
      have hempty : (receiver.newFragment sender ref max).count.toNat =
          (receiver.newFragment sender ref max).filled.card := by
        simp [newFragment, SmsFragment.filled]
      have hcount := SmsFragment.count_put hempty hlt pdu
      rw [consistent_append h rfl hcount]
      have hkey : ∀ node : SmsFragment, (node.ref.toNat : Int) = ref ↔
          node.ref = UInt8.ofNat ref.toNat := by
        intro node
        rw [← UInt8.toNat_inj, ← hext.toNat_ref, Int.natCast_inj, hext.toNat_ref]
      constructor
      · rintro ⟨-, hfresh⟩
        refine ⟨by omega, by omega, fun node hnode hsame => ?_⟩
        exact hfresh node hnode ⟨(hkey node).mp hsame.1, hsame.2⟩
      · rintro ⟨-, -, hfresh⟩
        refine ⟨⟨?_, fun hres => absurd hres (result_nonneg _)⟩, fun node hnode hsame => ?_⟩
        · rintro bound i ⟨⟩
          exact hlt
        · exact hfresh node hnode ⟨(hkey node).mpr hsame.1, hsame.2⟩

end AddExtracted

theorem step_of_not_extracts (receiver : SmsReceiver) {s : AddSurroundings} {pdu : SmsPDU}
    {fuel : Nat}
    (hext : ¬ ∃ sender ref max cur, Extracts s pdu fuel sender ref max cur) :
    receiver.step (.add s pdu fuel) = receiver ∧ receiver.CallKeeps (.add s pdu fuel) := by
  constructor
  · rw [step]
    cases hadded : receiver.addSubmitPdu s pdu fuel with
    | none => rfl
    | some added =>
      rcases addSubmitPdu_cases hadded with rfl | hsome
      · rfl
      · exact absurd hsome hext
  · intro added hadded
    rcases addSubmitPdu_cases hadded with rfl | hsome
    · exact ⟨by rintro bound i ⟨⟩, fun _ => rfl⟩
    · exact absurd hsome hext

theorem keeps_iff_fits (h : receiver.Books) (call : SmsCall) :
    (receiver.CallKeeps call ∧ (receiver.step call).Consistent) ↔ receiver.Fits call := by
  cases call with
  | add s pdu fuel =>
    by_cases hext : ∃ sender ref max cur, Extracts s pdu fuel sender ref max cur
    · obtain ⟨sender, ref, max, cur, hext⟩ := hext
      exact add_keeps_iff h hext
    · obtain ⟨hstep, hkeeps⟩ := step_of_not_extracts receiver hext
      rw [hstep]
      refine iff_of_true ⟨hkeeps, h.toConsistent⟩ fun sender ref max cur hsome => ?_
      exact absurd ⟨sender, ref, max, cur, hsome⟩ hext
  | createDeliver s index sender now refNum utf8 =>
    refine iff_of_true ⟨trivial, ?_⟩ trivial
    rcases step_createDeliver receiver s index sender now refNum utf8 with hs | hs
    · rw [hs]
      exact h.toConsistent
    · rw [hs]
      exact (h.of_sublist (List.eraseP_sublist ..)).toConsistent

theorem Books.step (h : receiver.Books) (call : SmsCall)
    (hcons : (receiver.step call).Consistent) : (receiver.step call).Books := by
  refine ⟨hcons, ?_⟩
  cases call with
  | add s pdu fuel =>
    by_cases hext : ∃ sender ref max cur, Extracts s pdu fuel sender ref max cur
    · obtain ⟨sender, ref, max, cur, hext⟩ := hext
      rw [step_add hext]
      exact index_le_addExtracted h
    · rw [(step_of_not_extracts receiver hext).1]
      exact h.index_le
  | createDeliver s index sender now refNum utf8 =>
    rcases step_createDeliver receiver s index sender now refNum utf8 with hs | hs
    · rw [hs]
      exact h.index_le
    · rw [hs]
      exact (h.of_sublist (List.eraseP_sublist ..)).index_le

theorem books_create : create.Books where
  count := List.forall_mem_nil _
  keys := List.Pairwise.nil
  indices := List.Pairwise.nil
  index_le := List.forall_mem_nil _

/-- The fragments stay consistent, and every call keeps to them, exactly in the runs whose calls
all fit. -/
theorem consistent_iff_fits (calls : List SmsCall) :
    ((∀ before, before <+: calls → (before.foldl step create).Consistent) ∧
      Along step CallKeeps create calls) ↔ Along step Fits create calls := by
  rw [Along.forall_prefix_iff, and_assoc, ← Along.and_iff]
  refine (and_iff_right books_create.toConsistent).trans ?_
  have hkeeps : ∀ receiver call, Books receiver →
      (((receiver.step call).Consistent ∧ receiver.CallKeeps call) ↔ receiver.Fits call) := by
    intro receiver call h
    rw [← keeps_iff_fits h, and_comm]
  exact Along.congr_of_invariant (fun receiver call => hkeeps receiver call)
    (fun receiver call h hfits => h.step call ((hkeeps receiver call h).mpr hfits).1) books_create

/-- Part `cur` of `max` of an SMS-SUBMIT to the number 5, laid out for the header to be found. -/
def partOf (max cur : UInt8) : SmsPDU where
  base := [0x00, 0x41, 0x00, 0x01, 0x81, 0xf5, 0x40, 0x00, 0x03, 0x07, max, cur]
  tpdu := 1

/-- Part 1 of 2 and then part 3 of 3 under the same reference, in memory that is all zero. -/
def twoMaxima : List SmsCall :=
  let blank : AddSurroundings :=
    ⟨⟨fun _ => 0, fun _ => 0, ⟨0, 0, Vector.replicate _ 0⟩, ⟨.null, 0, 0, false, fun _ => 0⟩⟩,
      fun _ => 0, fun _ _ => 0⟩
  [.add blank (partOf 2 1) 1, .add blank (partOf 3 3) 1]

/-- The third entry of an array of two is written. -/
theorem twoMaxima_not_consistent :
    ¬((∀ before, before <+: twoMaxima → (before.foldl step create).Consistent) ∧
      Along step CallKeeps create twoMaxima) := by
  rintro ⟨-, hkeeps⟩
  have hsecond := hkeeps [twoMaxima[0]] twoMaxima[1] (List.prefix_refl _)
  have hwrote : ((create.step twoMaxima[0]).addSubmitPdu
      ⟨⟨fun _ => 0, fun _ => 0, ⟨0, 0, Vector.replicate _ 0⟩, ⟨.null, 0, 0, false, fun _ => 0⟩⟩,
        fun _ => 0, fun _ _ => 0⟩ (partOf 3 3) 1).map (·.wrote) = some (some (2, 2)) := by
    decide +kernel
  obtain ⟨added, hadded, hwrote⟩ := Option.map_eq_some_iff.mp hwrote
  exact absurd ((hsecond added hadded).1 2 2 hwrote) (by decide)

end SmsReceiver

end M2M.Telephony
