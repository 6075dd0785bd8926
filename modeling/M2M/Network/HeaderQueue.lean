import M2M.Lib.Machine
import M2M.Network.Packet
import Mathlib.Data.List.Forall2
import Mathlib.Logic.Function.Basic

/-! One link's header queue: four 128-byte entries and the two indices of
`m2m_HQ_meta_t`, shared by one producer (the SMALL branch of
`m2m_post_remote_msg`, or a router's forward step) and one consumer
(`m2m_get_local_msg`, or a router's fetch).  Every C access to an index or to an
entry is one action, so a run of the machine is an interleaving of the two programs. -/

namespace M2M.Network.HeaderQueue

open M2M.Lib M2M.Lib.Bytes

inductive Reader
  | device | router
  deriving DecidableEq

/-- Where the producer stands; `a` and `b` are the entries it located for the header
and for the payload, `p` an index value it has read. -/
inductive Producer
  | idle
  | locate (m : Msg)
  | full1 (m : Msg) (a : Nat)
  | full1c (m : Msg) (a p : Nat)
  | fill (m : Msg) (a : Nat)
  | locate2 (m : Msg)
  | full2 (m : Msg) (b : Nat)
  | full2c (m : Msg) (b p : Nat)
  | copy (m : Msg) (b : Nat)
  | bump (m : Msg)
  | publish (m : Msg) (p : Nat)

/-- What the consumer did with the message whose entries it gives back: the header it
found, the header and payload it copied out, or a transmission failure at a router. -/
inductive Removal
  | moved (found copied : HQe) (payload : List UInt8)
  | failed (found : HQe)
  deriving DecidableEq

inductive Consumer
  | idle
  | poll
  | pollc (p : Nat)
  | locate
  | inspect (a : Nat)
  | edit (a : Nat) (found : HQe)
  | locate2 (a : Nat) (found copied : HQe)
  | size (a b : Nat) (found copied : HQe)
  | copy (a b n : Nat) (found copied : HQe)
  | bump (a : Nat) (r : Removal)
  | release (a c : Nat) (r : Removal)
  | after (a : Nat) (copied : HQe)

inductive Field
  | packetSize | senderID | receiverID | sendTime | transTime
  deriving DecidableEq

def Field.get : Field → HQe → Nat
  | .packetSize, h => h.packetSize.toNat
  | .senderID, h => h.senderID.toNat
  | .receiverID, h => h.receiverID.toNat
  | .sendTime, h => h.sendTime.toNat
  | .transTime, h => h.transTime.toNat

/-- A header field read after the consumer index has been advanced, with the header
of the packet that was just copied out. -/
structure LateRead where
  field : Field
  packet : HQe
  value : Nat
  deriving DecidableEq

structure State where
  producer : Nat
  consumer : Nat
  entry : Nat → List UInt8
  prodPC : Producer
  consPC : Consumer
  published : List Msg
  removed : List Removal
  late : List LateRead

def Init (s : State) : Prop :=
  s.producer = 0 ∧ s.consumer = 0 ∧ s.prodPC = .idle ∧ s.consPC = .idle ∧
    s.published = [] ∧ s.removed = [] ∧ s.late = []

namespace State

def header (s : State) (a : Nat) : HQe := .decode (s.entry a)

def write (s : State) (a : Nat) (bs : List UInt8) : State :=
  { s with entry := Function.update s.entry a (overwrite (s.entry a) bs) }

def setHeader (s : State) (a : Nat) (h : HQe) : State := s.write a h.encode

end State

def prodStep (s : State) : Option State :=
  match s.prodPC with
  | .idle => none
  | .locate m => some { s with prodPC := .full1 m s.producer }
  | .full1 m a => some { s with prodPC := .full1c m a s.producer }
  | .full1c m a p =>
    if (p + 1) % headerQueueEntryNum = s.consumer then some { s with prodPC := .full1 m a }
    else some { s with prodPC := .fill m a }
  | .fill m a => some { s.setHeader a m.header with prodPC := .locate2 m }
  | .locate2 m => some { s with prodPC := .full2 m ((s.producer + 1) % headerQueueEntryNum) }
  | .full2 m b => some { s with prodPC := .full2c m b s.producer }
  | .full2c m b p =>
    if (p + 2) % headerQueueEntryNum = s.consumer then some { s with prodPC := .full2 m b }
    else some { s with prodPC := .copy m b }
  | .copy m b => some { s.write b m.payload with prodPC := .bump m }
  | .bump m => some { s with prodPC := .publish m s.producer }
  | .publish m p =>
    some { s with
      producer := (p + 2) % headerQueueEntryNum
      prodPC := .idle
      published := s.published ++ [m] }

/-- The consumer's next access.  `inspect` is the first read of the header, `edit` the
copy of the header as it stands after a router's own field writes. -/
def consStep (s : State) : Option State :=
  match s.consPC with
  | .idle => none
  | .poll => some { s with consPC := .pollc s.producer }
  | .pollc p => some { s with consPC := if p = s.consumer then .idle else .locate }
  | .locate => some { s with consPC := .inspect s.consumer }
  | .inspect a =>
    if (s.header a).entryNum = -1 then some { s with consPC := .edit a (s.header a) }
    else some { s with consPC := .idle }
  | .edit a found => some { s with consPC := .locate2 a found (s.header a) }
  | .locate2 a found copied =>
    some { s with consPC := .size a ((s.consumer + 1) % headerQueueEntryNum) found copied }
  | .size a b found copied =>
    some { s with consPC := .copy a b (s.header a).packetSize.toNat found copied }
  | .copy a b n found copied =>
    some { s with consPC := .bump a (.moved found copied ((s.entry b).take n)) }
  | .bump a r => some { s with consPC := .release a s.consumer r }
  | .release a c r =>
    some { s with
      consumer := (c + 2) % headerQueueEntryNum
      consPC := match r with
        | .moved _ copied _ => .after a copied
        | .failed _ => .idle
      removed := s.removed ++ [r] }
  | .after .. => none

inductive Act
  | post (m : Msg)
  | prod
  | recv
  | cons
  | setForwardID (x : UInt32)
  | setSendTime (x : UInt64)
  | setTransTime (x : UInt64)
  | fail
  | late (f : Field)
  | finish

/-- A router's in-place write of one field of the packet it is about to move. -/
def editStep (k : Reader) (s : State) (f : HQe → HQe) : Option State :=
  match k, s.consPC with
  | .router, .edit a _ => some (s.setHeader a (f (s.header a)))
  | _, _ => none

def step (k : Reader) (s : State) : Act → Option State
  | .post m =>
    match s.prodPC with
    | .idle => some { s with prodPC := .locate m }
    | _ => none
  | .prod => prodStep s
  | .recv =>
    match s.consPC with
    | .idle => some { s with consPC := .poll }
    | _ => none
  | .cons => consStep s
  | .setForwardID x => editStep k s (fun h => { h with forwardID := x })
  | .setSendTime x => editStep k s (fun h => { h with sendTime := x })
  | .setTransTime x => editStep k s (fun h => { h with transTime := x })
  | .fail =>
    match k, s.consPC with
    | .router, .edit a found => some { s with consPC := .bump a (.failed found) }
    | _, _ => none
  | .late f =>
    match s.consPC with
    | .after a copied => some { s with late := s.late ++ [⟨f, copied, f.get (s.header a)⟩] }
    | _ => none
  | .finish =>
    match s.consPC with
    | .after _ _ => some { s with consPC := .idle }
    | _ => none

@[simp] theorem State.header_setHeader (s : State) (a : Nat) (h : HQe) :
    (s.setHeader a h).header a = h := by
  simp [State.setHeader, State.write, State.header]

theorem State.header_write_ne (s : State) {a b : Nat} (bs : List UInt8) (h : a ≠ b) :
    (s.write b bs).header a = s.header a := by
  simp [State.write, State.header, Function.update_of_ne h]

theorem State.entry_write_ne (s : State) {a b : Nat} (bs : List UInt8) (h : a ≠ b) :
    (s.write b bs).entry a = s.entry a := by
  simp [State.write, Function.update_of_ne h]

theorem State.take_entry_write (s : State) (a : Nat) (bs : List UInt8) :
    ((s.write a bs).entry a).take bs.length = bs := by
  simp [State.write]

/-- The removal accounts for the published message: what was found and copied out is
that message, up to the hop fields a router rewrites itself. -/
def Accounts (k : Reader) : Removal → Msg → Prop
  | .moved found copied payload, m =>
    found = m.header ∧ payload = m.payload ∧ found.SameMessage copied ∧
      (k = .device → copied = found)
  | .failed found, m => found = m.header

def Payload (s : State) (a : Nat) (m : Msg) : Prop :=
  (s.entry a).take m.payload.length = m.payload

/-- What the producer knows at each of its program points. -/
def ProdOK (s : State) : Prop :=
  match s.prodPC with
  | .idle | .locate _ => True
  | .full1 _ a | .fill _ a => a = s.producer
  | .full1c _ a p => a = s.producer ∧ p = s.producer
  | .locate2 m => s.header s.producer = m.header
  | .full2 m b => s.header s.producer = m.header ∧ b = s.producer + 1
  | .full2c m b p => s.header s.producer = m.header ∧ b = s.producer + 1 ∧ p = s.producer
  | .copy m b =>
    s.header s.producer = m.header ∧ b = s.producer + 1 ∧ s.producer = s.consumer
  | .bump m =>
    s.header s.producer = m.header ∧ Payload s (s.producer + 1) m ∧ s.producer = s.consumer
  | .publish m p =>
    s.header s.producer = m.header ∧ Payload s (s.producer + 1) m ∧
      s.producer = s.consumer ∧ p = s.producer

/-- The header in the consumer's entry while a router may be rewriting it in place. -/
def Edited (k : Reader) (s : State) (a : Nat) (found : HQe) (m : Msg) : Prop :=
  a = s.consumer ∧ found = m.header ∧ found.SameMessage (s.header s.consumer) ∧
    (k = .device → s.header s.consumer = found) ∧ Payload s (s.consumer + 1) m

/-- What the consumer knows at each of its program points, `w` being the one message
that is published and not yet removed. -/
def ConsOK (k : Reader) (s : State) (w : Option Msg) : Prop :=
  match s.consPC with
  | .idle | .poll | .after _ _ =>
    ∀ m, w = some m → s.header s.consumer = m.header ∧ Payload s (s.consumer + 1) m
  | .pollc p =>
    (∀ m, w = some m → s.header s.consumer = m.header ∧ Payload s (s.consumer + 1) m) ∧
      (p ≠ s.consumer → w ≠ none)
  | .locate =>
    ∃ m, w = some m ∧ s.header s.consumer = m.header ∧ Payload s (s.consumer + 1) m
  | .inspect a =>
    ∃ m, w = some m ∧ s.header s.consumer = m.header ∧ Payload s (s.consumer + 1) m ∧
      a = s.consumer
  | .edit a found => ∃ m, w = some m ∧ Edited k s a found m
  | .locate2 a found copied =>
    ∃ m, w = some m ∧ Edited k s a found m ∧ copied = s.header s.consumer
  | .size a b found copied =>
    ∃ m, w = some m ∧ Edited k s a found m ∧ copied = s.header s.consumer ∧ b = s.consumer + 1
  | .copy a b n found copied =>
    ∃ m, w = some m ∧ Edited k s a found m ∧ copied = s.header s.consumer ∧
      b = s.consumer + 1 ∧ n = m.payload.length
  | .bump a r =>
    ∃ m, w = some m ∧ a = s.consumer ∧ Accounts k r m ∧
      (∀ f c p, r = .moved f c p → s.header s.consumer = c)
  | .release a c r =>
    ∃ m, w = some m ∧ a = s.consumer ∧ Accounts k r m ∧
      (∀ f c p, r = .moved f c p → s.header s.consumer = c) ∧ c = s.consumer

structure InvAt (k : Reader) (s : State) (done : List Msg) (w : Option Msg) : Prop where
  producer : s.producer = 0 ∨ s.producer = 2
  consumer : s.consumer = 0 ∨ s.consumer = 2
  published : s.published = done ++ w.toList
  removed : List.Forall₂ (Accounts k) s.removed done
  empty : w = none ↔ s.producer = s.consumer
  prodOK : ProdOK s
  consOK : ConsOK k s w

/-- Everything published is either accounted for by a removal or waiting in the queue,
and at most one message waits. -/
def Inv (k : Reader) (s : State) : Prop := ∃ done w, InvAt k s done w

theorem Init.inv (k : Reader) {s : State} (h : Init s) : Inv k s := by
  obtain ⟨hp, hc, hpp, hcp, hpub, hrem, -⟩ := h
  refine ⟨[], none, Or.inl hp, Or.inl hc, by simp [hpub], by simp [hrem], by simp [hp, hc], ?_, ?_⟩
  · simp [ProdOK, hpp]
  · simp [ConsOK, hcp]

theorem ConsOK.congr {k : Reader} {s t : State} {w : Option Msg} (h : ConsOK k s w)
    (hpc : t.consPC = s.consPC) (hc : t.consumer = s.consumer)
    (he : ∀ m, w = some m → t.entry s.consumer = s.entry s.consumer ∧
      t.entry (s.consumer + 1) = s.entry (s.consumer + 1)) : ConsOK k t w := by
  cases w with
  | none =>
    unfold ConsOK at h ⊢
    rw [hpc]
    cases hs : s.consPC <;> simp_all
  | some m =>
    obtain ⟨h₁, h₂⟩ := he m rfl
    unfold ConsOK at h ⊢
    rw [hpc]
    cases hs : s.consPC <;>
      simp only [hs, Edited, State.header, Payload, hc, h₁, h₂] at h ⊢ <;> exact h

/-- The producer's knowledge is about its own entries, and about the consumer index
only once the queue has been seen empty. -/
theorem ProdOK.congr {s t : State} (h : ProdOK s) (hpc : t.prodPC = s.prodPC)
    (hp : t.producer = s.producer) (hc : s.producer = s.consumer → t.consumer = s.consumer)
    (h₁ : t.entry s.producer = s.entry s.producer)
    (h₂ : t.entry (s.producer + 1) = s.entry (s.producer + 1)) : ProdOK t := by
  unfold ProdOK at h ⊢
  rw [hpc]
  cases hs : s.prodPC with
  | idle => trivial
  | locate => trivial
  | copy m b =>
    simp only [hs, State.header, hp, h₁] at h ⊢
    exact ⟨h.1, h.2.1, h.2.2.trans (hc h.2.2).symm⟩
  | bump m =>
    simp only [hs, State.header, Payload, hp, h₁, h₂] at h ⊢
    exact ⟨h.1, h.2.1, h.2.2.trans (hc h.2.2).symm⟩
  | publish m p =>
    simp only [hs, State.header, Payload, hp, h₁, h₂] at h ⊢
    exact ⟨h.1, h.2.1, h.2.2.1.trans (hc h.2.2.1).symm, h.2.2.2⟩
  | _ =>
    simp only [hs, State.header, hp, h₁] at h ⊢
    exact h

namespace InvAt

variable {k : Reader} {s : State} {done : List Msg} {w : Option Msg}

theorem setProd (h : InvAt k s done w) {pc : Producer} (hp : ProdOK { s with prodPC := pc }) :
    InvAt k { s with prodPC := pc } done w :=
  ⟨h.producer, h.consumer, h.published, h.removed, h.empty, hp, h.consOK⟩

theorem setCons (h : InvAt k s done w) {pc : Consumer} (hc : ConsOK k { s with consPC := pc } w) :
    InvAt k { s with consPC := pc } done w :=
  ⟨h.producer, h.consumer, h.published, h.removed, h.empty, h.prodOK, hc⟩

theorem waiting_ne (h : InvAt k s done w) {m : Msg} (hw : w = some m) :
    s.producer ≠ s.consumer := by
  intro he
  simp [h.empty.mpr he] at hw

theorem prodWrite (h : InvAt k s done w) {a : Nat} {bs : List UInt8} {pc : Producer}
    (ha : a = s.producer ∨ a = s.producer + 1)
    (hp : ProdOK { s.write a bs with prodPC := pc }) :
    InvAt k { s.write a bs with prodPC := pc } done w := by
  refine ⟨h.producer, h.consumer, h.published, h.removed, h.empty, hp, ?_⟩
  refine h.consOK.congr rfl rfl ?_
  intro m hm
  have hne := h.waiting_ne hm
  have hpi := h.producer
  have hci := h.consumer
  exact ⟨s.entry_write_ne bs (by omega), s.entry_write_ne bs (by omega)⟩

theorem consWrite (h : InvAt k s done w) {m : Msg} (hw : w = some m) {bs : List UInt8}
    (hc : ConsOK k (s.write s.consumer bs) w) : InvAt k (s.write s.consumer bs) done w := by
  have hne := h.waiting_ne hw
  have hpi := h.producer
  have hci := h.consumer
  refine ⟨h.producer, h.consumer, h.published, h.removed, h.empty, ?_, hc⟩
  exact h.prodOK.congr rfl rfl (fun _ => rfl) (s.entry_write_ne bs hne)
    (s.entry_write_ne bs (by omega))

end InvAt

theorem prodStep_inv {k : Reader} {s t : State} (hi : Inv k s) (ht : prodStep s = some t) :
    Inv k t := by
  obtain ⟨done, w, h⟩ := hi
  have hp := h.prodOK
  have hpi := h.producer
  have hci := h.consumer
  unfold prodStep at ht
  unfold ProdOK at hp
  cases hs : s.prodPC with
  | idle => simp [hs] at ht
  | locate m =>
    simp only [hs, Option.some.injEq] at ht
    subst ht
    exact ⟨done, w, h.setProd rfl⟩
  | full1 m a =>
    simp only [hs, Option.some.injEq] at ht hp
    subst ht
    exact ⟨done, w, h.setProd ⟨hp, rfl⟩⟩
  | full1c m a p =>
    simp only [hs] at ht hp
    split at ht
    · cases ht
      exact ⟨done, w, h.setProd hp.1⟩
    · cases ht
      exact ⟨done, w, h.setProd hp.1⟩
  | fill m a =>
    simp only [hs, Option.some.injEq] at ht hp
    subst ht hp
    exact ⟨done, w, h.prodWrite (.inl rfl) (State.header_setHeader s _ _)⟩
  | locate2 m =>
    simp only [hs, Option.some.injEq] at ht hp
    subst ht
    refine ⟨done, w, h.setProd ⟨hp, ?_⟩⟩
    simp only [headerQueueEntryNum]
    omega
  | full2 m b =>
    simp only [hs, Option.some.injEq] at ht hp
    subst ht
    exact ⟨done, w, h.setProd ⟨hp.1, hp.2, rfl⟩⟩
  | full2c m b p =>
    simp only [hs] at ht hp
    split at ht
    · cases ht
      exact ⟨done, w, h.setProd ⟨hp.1, hp.2.1⟩⟩
    · rename_i hfull
      cases ht
      refine ⟨done, w, h.setProd ⟨hp.1, hp.2.1, ?_⟩⟩
      simp only [headerQueueEntryNum, hp.2.2] at hfull
      show s.producer = s.consumer
      omega
  | copy m b =>
    simp only [hs, Option.some.injEq] at ht hp
    obtain ⟨hh, rfl, he⟩ := hp
    subst ht
    refine ⟨done, w, h.prodWrite (.inr rfl) ⟨?_, ?_, he⟩⟩
    · exact (s.header_write_ne _ (Nat.lt_succ_self _).ne).trans hh
    · exact s.take_entry_write _ _
  | bump m =>
    simp only [hs, Option.some.injEq] at ht hp
    subst ht
    exact ⟨done, w, h.setProd ⟨hp.1, hp.2.1, hp.2.2, rfl⟩⟩
  | publish m p =>
    simp only [hs, Option.some.injEq] at ht hp
    obtain ⟨hh, hl, he, rfl⟩ := hp
    have hw : w = none := h.empty.mpr he
    subst hw ht
    refine ⟨done, some m, ?_, h.consumer, ?_, h.removed, ?_, trivial, ?_⟩
    · simp only [headerQueueEntryNum]
      omega
    · simp [h.published]
    · simp only [headerQueueEntryNum, reduceCtorEq, false_iff]
      omega
    · have hc := h.consOK
      unfold ConsOK at hc ⊢
      rw [he] at hh hl
      cases hcp : s.consPC with
      | idle => simpa [hcp] using ⟨hh, hl⟩
      | poll => simpa [hcp] using ⟨hh, hl⟩
      | after a c => simpa [hcp] using ⟨hh, hl⟩
      | pollc p => simpa [hcp] using ⟨hh, hl⟩
      | _ => simp [hcp] at hc

theorem Msg.packetSize_of_sameMessage {m : Msg} {h : HQe} (hm : m.header.SameMessage h) :
    h.packetSize.toNat = m.payload.length := by
  rw [hm.2.1]
  exact m.size_eq

theorem consStep_inv {k : Reader} {s t : State} (hi : Inv k s) (ht : consStep s = some t) :
    Inv k t := by
  obtain ⟨done, w, h⟩ := hi
  have hc := h.consOK
  have hpi := h.producer
  have hci := h.consumer
  unfold consStep at ht
  unfold ConsOK at hc
  cases hs : s.consPC with
  | idle => simp [hs] at ht
  | after a c => simp [hs] at ht
  | poll =>
    simp only [hs, Option.some.injEq] at ht hc
    subst ht
    refine ⟨done, w, h.setCons ⟨hc, ?_⟩⟩
    intro hne hw
    exact hne (h.empty.mp hw)
  | pollc p =>
    simp only [hs, Option.some.injEq] at ht hc
    subst ht
    by_cases hpc : p = s.consumer
    · rw [if_pos hpc]
      exact ⟨done, w, h.setCons hc.1⟩
    · rw [if_neg hpc]
      obtain ⟨m, hm⟩ := Option.ne_none_iff_exists'.mp (hc.2 hpc)
      exact ⟨done, w, h.setCons ⟨m, hm, hc.1 m hm⟩⟩
  | locate =>
    simp only [hs, Option.some.injEq] at ht hc
    subst ht
    obtain ⟨m, hm, hh, hl⟩ := hc
    exact ⟨done, w, h.setCons ⟨m, hm, hh, hl, rfl⟩⟩
  | inspect a =>
    simp only [hs] at ht hc
    obtain ⟨m, hm, hh, hl, rfl⟩ := hc
    rw [hh, if_pos m.small, Option.some.injEq] at ht
    subst ht
    refine ⟨done, w, h.setCons ⟨m, hm, rfl, rfl, ?_, fun _ => hh, hl⟩⟩
    show m.header.SameMessage (s.header s.consumer)
    rw [hh]
    exact HQe.SameMessage.refl _
  | edit a found =>
    simp only [hs, Option.some.injEq] at ht hc
    subst ht
    obtain ⟨m, hm, he⟩ := hc
    obtain ⟨rfl, -⟩ := id he
    exact ⟨done, w, h.setCons ⟨m, hm, he, rfl⟩⟩
  | locate2 a found copied =>
    simp only [hs, Option.some.injEq] at ht hc
    subst ht
    obtain ⟨m, hm, he, hcp⟩ := hc
    refine ⟨done, w, h.setCons ⟨m, hm, he, hcp, ?_⟩⟩
    simp only [headerQueueEntryNum]
    omega
  | size a b found copied =>
    simp only [hs, Option.some.injEq] at ht hc
    subst ht
    obtain ⟨m, hm, he, hcp, hb⟩ := hc
    refine ⟨done, w, h.setCons ⟨m, hm, he, hcp, hb, ?_⟩⟩
    obtain ⟨rfl, rfl, hsame, -⟩ := he
    exact Msg.packetSize_of_sameMessage hsame
  | copy a b n found copied =>
    simp only [hs, Option.some.injEq] at ht hc
    subst ht
    obtain ⟨m, hm, ⟨ha, hf, hsame, hdev, hl⟩, rfl, rfl, rfl⟩ := hc
    refine ⟨done, w, h.setCons ⟨m, hm, ha, ⟨hf, hl, hsame, hdev⟩, ?_⟩⟩
    rintro _ _ _ ⟨⟩
    rfl
  | bump a r =>
    simp only [hs, Option.some.injEq] at ht hc
    subst ht
    obtain ⟨m, hm, ha, hr, hcp⟩ := hc
    exact ⟨done, w, h.setCons ⟨m, hm, ha, hr, hcp, rfl⟩⟩
  | release a c r =>
    simp only [hs, Option.some.injEq] at ht hc
    obtain ⟨m, rfl, ha, hr, -, rfl⟩ := hc
    have hne := h.waiting_ne rfl
    subst ht
    refine ⟨done ++ [m], none, h.producer, ?_, ?_, ?_, ?_, ?_, ?_⟩
    · simp only [headerQueueEntryNum]
      omega
    · simpa using h.published
    · exact List.rel_append h.removed (.cons hr .nil)
    · simp only [headerQueueEntryNum, true_iff]
      omega
    · exact h.prodOK.congr rfl rfl (fun he => absurd he hne) rfl rfl
    · cases r <;> simp [ConsOK]

theorem editStep_inv {k : Reader} {s t : State} {f : HQe → HQe} (hi : Inv k s)
    (ht : editStep k s f = some t) (hf : ∀ h : HQe, h.SameMessage (f h)) : Inv k t := by
  obtain ⟨done, w, h⟩ := hi
  have hc := h.consOK
  unfold editStep at ht
  unfold ConsOK at hc
  split at ht
  · rename_i a found hs
    simp only [hs, Option.some.injEq] at hc ht
    obtain ⟨m, hm, rfl, rfl, hsame, -, hl⟩ := hc
    subst ht
    refine ⟨done, w, h.consWrite hm ?_⟩
    unfold ConsOK
    simp only [State.write, hs]
    refine ⟨m, hm, rfl, rfl, ?_, by simp, ?_⟩
    · refine hsame.trans ?_
      simpa [State.header] using hf (s.header s.consumer)
    · simpa [Payload] using hl
  · simp at ht

theorem step_inv {k : Reader} {s t : State} {a : Act} (hi : Inv k s) (ht : step k s a = some t) :
    Inv k t := by
  cases a with
  | prod => exact prodStep_inv hi ht
  | cons => exact consStep_inv hi ht
  | setForwardID x =>
    simp only [step] at ht
    exact editStep_inv hi ht (fun _ => ⟨rfl, rfl, rfl, rfl, rfl⟩)
  | setSendTime x =>
    simp only [step] at ht
    exact editStep_inv hi ht (fun _ => ⟨rfl, rfl, rfl, rfl, rfl⟩)
  | setTransTime x =>
    simp only [step] at ht
    exact editStep_inv hi ht (fun _ => ⟨rfl, rfl, rfl, rfl, rfl⟩)
  | post m =>
    obtain ⟨done, w, h⟩ := hi
    simp only [step] at ht
    split at ht
    · cases ht
      exact ⟨done, w, h.setProd trivial⟩
    · cases ht
  | recv =>
    obtain ⟨done, w, h⟩ := hi
    simp only [step] at ht
    split at ht
    · rename_i hs
      cases ht
      have hc := h.consOK
      simp only [ConsOK, hs] at hc
      exact ⟨done, w, h.setCons hc⟩
    · cases ht
  | fail =>
    obtain ⟨done, w, h⟩ := hi
    simp only [step] at ht
    split at ht
    · rename_i a found hs
      cases ht
      have hc := h.consOK
      simp only [ConsOK, hs] at hc
      obtain ⟨m, hm, ha, hf, -⟩ := hc
      exact ⟨done, w, h.setCons ⟨m, hm, ha, hf, nofun⟩⟩
    · cases ht
  | late f =>
    obtain ⟨done, w, h⟩ := hi
    simp only [step] at ht
    split at ht
    · cases ht
      exact ⟨done, w, h.producer, h.consumer, h.published, h.removed, h.empty, h.prodOK, h.consOK⟩
    · cases ht
  | finish =>
    obtain ⟨done, w, h⟩ := hi
    simp only [step] at ht
    split at ht
    · rename_i hs
      cases ht
      have hc := h.consOK
      simp only [ConsOK, hs] at hc
      exact ⟨done, w, h.setCons hc⟩
    · cases ht

theorem reachable_inv {k : Reader} {s : State} (h : Machine.Reachable Init (step k) s) : Inv k s :=
  h.invariant (fun _ => Init.inv k) (fun _ _ _ => step_inv)

/-- The (header, payload) pairs the consumer has copied out, as it found them. -/
def pairs (rs : List Removal) : List (HQe × List UInt8) :=
  rs.filterMap (fun
    | .moved found _ payload => some (found, payload)
    | .failed _ => none)

theorem pairs_of_accounts {k : Reader} {rs : List Removal} {ms : List Msg}
    (h : List.Forall₂ (Accounts k) rs ms)
    (hm : ∀ r ∈ rs, ∃ f c p, r = .moved f c p) :
    pairs rs = ms.map (fun m => (m.header, m.payload)) := by
  induction h with
  | nil => rfl
  | @cons r m rs ms hr _ ih =>
    obtain ⟨f, c, p, rfl⟩ := hm r (by simp)
    obtain ⟨rfl, rfl, -⟩ := hr
    have ih := ih (fun r hr => hm r (List.mem_cons_of_mem _ hr))
    simp only [pairs, List.filterMap_cons] at ih ⊢
    rw [ih]
    rfl

/-- Every message leaves the queue once, in the order of publication and whole: the
`i`-th removal accounts for the `i`-th published message, and as long as no removal is
a transmission failure the pairs copied out are a prefix of the pairs published. -/
theorem headerQueue_fifo (k : Reader) (s : State) (h : Machine.Reachable Init (step k) s) :
    (s.producer % 2 = 0 ∧ s.producer < headerQueueEntryNum) ∧
    (s.consumer % 2 = 0 ∧ s.consumer < headerQueueEntryNum) ∧
    (∃ rest, List.Forall₂ (Accounts k) s.removed (s.published.take s.removed.length) ∧
      s.published = s.published.take s.removed.length ++ rest ∧ rest.length ≤ 1) ∧
    ((∀ r ∈ s.removed, ∃ f c p, r = .moved f c p) →
      pairs s.removed <+: s.published.map (fun m => (m.header, m.payload))) := by
  obtain ⟨done, w, hi⟩ := reachable_inv h
  have hpi := hi.producer
  have hci := hi.consumer
  have hlen := hi.removed.length_eq
  have htake : s.published.take s.removed.length = done := by
    simp [hi.published, hlen]
  refine ⟨?_, ?_, ?_, ?_⟩
  · simp only [headerQueueEntryNum]
    omega
  · simp only [headerQueueEntryNum]
    omega
  · rw [htake]
    refine ⟨w.toList, hi.removed, hi.published, ?_⟩
    cases w <;> simp
  · intro hm
    rw [pairs_of_accounts hi.removed hm, hi.published, List.map_append]
    exact List.prefix_append _ _

def start : State where
  producer := 0
  consumer := 0
  entry := fun _ => []
  prodPC := .idle
  consPC := .idle
  published := []
  removed := []
  late := []

theorem start_init : Init start := ⟨rfl, rfl, rfl, rfl, rfl, rfl, rfl⟩

/-- A four-byte message of device `sender` for device 9. -/
def sample (sender : UInt32) (sendTime transTime : UInt64) : Msg where
  header := ⟨0, 4, sender, 9, 1, -1, sendTime, transTime⟩
  payload := [1, 2, 3, 4]
  size_eq := rfl
  fits := by decide
  small := rfl

def postAll (m : Msg) : List Act := .post m :: List.replicate 10 .prod

def recvAll : List Act := .recv :: List.replicate 10 .cons

theorem headerQueue_fifo_two : ∃ s, Machine.Reachable Init (step .device) s ∧
    s.removed.length = 2 ∧
    pairs s.removed <+: s.published.map (fun m => (m.header, m.payload)) := by
  obtain ⟨s, hs, hp⟩ := Machine.exists_reachable Init (step .device)
    (List.flatten [postAll (sample 3 100 10), recvAll, [.finish], postAll (sample 4 120 10),
      recvAll])
    (fun s => s.removed.length == 2 && s.removed.all (fun | .moved .. => true | .failed _ => false))
    start_init (by decide)
  simp only [Bool.and_eq_true, beq_iff_eq, List.all_eq_true] at hp
  refine ⟨s, hs, hp.1, (headerQueue_fifo .device s hs).2.2.2 ?_⟩
  intro r hr
  have := hp.2 r hr
  cases r with
  | moved f c p => exact ⟨f, c, p, rfl⟩
  | failed f => simp at this

end M2M.Network.HeaderQueue
