import M2M.Network.DeliveryBooks

/-! The header queues: each has one writer at a time and one reader, and the packet that
waits in a queue is that of a call. -/

namespace M2M.Network.Delivery

open M2M.Lib.Bytes

/-- How far a writer has got: it has located its entry, copied the header, copied the
payload. -/
inductive Phase
  | located | filled | copied

structure Writing where
  queue : Queue
  entry : Bool
  packet : Packet
  phase : Phase

def Sender.writing : Sender → Option Writing
  | .fill w => some ⟨w.queue, w.entry, w.packet, .located⟩
  | .copy w => some ⟨w.queue, w.entry, w.packet, .filled⟩
  | .publish w => some ⟨w.queue, w.entry, w.packet, .copied⟩
  | _ => none

def Router.writing : Router → Option Writing
  | .fill v => some ⟨v.target, v.targetEntry, v.packet, .located⟩
  | .copy v => some ⟨v.target, v.targetEntry, v.packet, .filled⟩
  | .release v | .publish v => some ⟨v.target, v.targetEntry, v.packet, .copied⟩
  | _ => none

namespace State

def writing (s : State) : Agent → Option Writing
  | .sender d => (s.sender d).writing
  | .router b => (s.router b).writing

def Gone (s : State) : Agent → Prop
  | .sender d => s.sender d = .gone
  | .router b => s.router b = .gone

end State

/-- The queues that an agent may write into. -/
def Net.Writes (net : Net) : Agent → Queue → Prop
  | .sender d, q => net.sendQueue d = some q
  | .router b, q => net.nodeType b ≠ .zed ∧ ∃ next, net.target b next = some q

namespace Net

variable {net : Net} {a b d next : UInt32} {q : Queue}

theorem queueTo_cases (net : Net) (a b : UInt32) :
    (net.nodeType b = .zed ∧ net.queueTo a b = .incoming b) ∨
      (net.nodeType b ≠ .zed ∧ net.queueTo a b = .link a b) := by
  unfold queueTo
  split
  · exact .inl ⟨‹_›, rfl⟩
  · exact .inr ⟨‹_›, rfl⟩

theorem remote_eq {count : Nat} (h : net.remote a count = some q) :
    q = net.queueTo a (net.neighbors a count) := by
  unfold remote at h
  split at h
  · exact (Option.some.inj h).symm
  · cases h

theorem sendQueue_cases (h : net.sendQueue d = some q) :
    (net.nodeType d = .zc ∧ q = .outgoing d) ∨
      (net.nodeType d = .zed ∧ ∃ b, q = net.queueTo d b) := by
  unfold sendQueue at h
  cases ht : net.nodeType d with
  | zed =>
    rw [ht] at h
    exact .inr ⟨rfl, _, remote_eq h⟩
  | zc =>
    rw [ht] at h
    exact .inl ⟨rfl, (Option.some.inj h).symm⟩
  | zr =>
    rw [ht] at h
    cases h

theorem target_cases (h : net.target b next = some q) :
    (next = b ∧ net.nodeType b = .zc ∧ q = .incoming b) ∨
      (next ≠ b ∧ q = net.queueTo b next) := by
  unfold target at h
  split at h
  · rename_i hn
    split at h
    · exact .inl ⟨hn, ‹_›, (Option.some.inj h).symm⟩
    · cases h
  · rename_i hn
    obtain ⟨count, hf, hr⟩ := Option.bind_eq_some_iff.mp h
    have heq : net.neighbors b count = next := by
      simpa using List.find?_some hf
    exact .inr ⟨hn, heq ▸ remote_eq hr⟩

theorem target_ne (h : net.target b next = some q) : q.reader ≠ some b := by
  rcases target_cases h with ⟨-, -, rfl⟩ | ⟨hn, rfl⟩
  · simp [Queue.reader]
  · rcases net.queueTo_cases b next with ⟨-, he⟩ | ⟨-, he⟩ <;> simp [he, Queue.reader, hn]

theorem Writes.unique {x y : Agent} (hq : ∀ z, q = .incoming z → net.nodeType z ≠ .zed)
    (hx : net.Writes x q) (hy : net.Writes y q) : x = y := by
  have hzed : ∀ a b, q = net.queueTo a b → q = .link a b ∧ net.nodeType b ≠ .zed := by
    intro a b he
    rcases net.queueTo_cases a b with ⟨ht, hi⟩ | ⟨ht, hi⟩
    · exact absurd ht (hq b (he.trans hi))
    · exact ⟨he.trans hi, ht⟩
  have key : ∀ x, net.Writes x q → (∃ d, x = .sender d ∧ q = .outgoing d) ∨
      (∃ a b, x = .sender a ∧ net.nodeType a = .zed ∧ q = .link a b) ∨
      (∃ b, x = .router b ∧ q = .incoming b) ∨
      ∃ a b, x = .router a ∧ net.nodeType a ≠ .zed ∧ q = .link a b := by
    intro x hx
    cases x with
    | sender d =>
      rcases sendQueue_cases hx with ⟨-, he⟩ | ⟨ht, b, he⟩
      · exact .inl ⟨d, rfl, he⟩
      · exact .inr (.inl ⟨d, b, rfl, ht, (hzed d b he).1⟩)
    | router b =>
      obtain ⟨ht, next, hn⟩ := hx
      rcases target_cases hn with ⟨-, -, he⟩ | ⟨-, he⟩
      · exact .inr (.inr (.inl ⟨b, rfl, he⟩))
      · exact .inr (.inr (.inr ⟨b, next, rfl, ht, (hzed b next he).1⟩))
  have hx := key x hx
  have hy := key y hy
  grind

end Net

/-- The packet and its payload are those of a call with a size that `memcpy` can copy. -/
def Loaded (calls : List Call) (p : Packet) (payload : List UInt8) : Prop :=
  ∃ c, calls[p.call]? = some c ∧ c.Describes p.header ∧ 0 ≤ c.sizeb ∧
    payload.take c.bytes.length = c.bytes

/-- What a writer has already put into its entry. -/
structure WriteOK (calls : List Call) (w : Writing) (l : Hq) : Prop where
  entry : w.entry = l.producer
  header : w.phase ≠ .located → l.header l.producer = w.packet
  empty : w.phase = .copied → ¬ l.Waiting
  payload : w.phase = .copied → Loaded calls w.packet (l.payload l.producer)

/-- Everybody who writes is the one writer of the queue, and a queue's writer is writing
unless its process is gone. -/
structure Channels (net : Net) (calls : List Call) (queue : Queue → Hq)
    (writing : Agent → Option Writing) (gone : Agent → Prop) : Prop where
  write : ∀ x w, writing x = some w →
    (queue w.queue).writer = some x ∧ WriteOK calls w (queue w.queue)
  writer : ∀ q x, (queue q).writer = some x →
    net.Writes x q ∧ ((∃ w, writing x = some w ∧ w.queue = q) ∨ gone x)

/-- Every waiting packet of a queue whose reader attends to it is where the books say. -/
def Heads (calls : List Call) (queue : Queue → Hq) (place : Nat → Place)
    (router : UInt32 → Router) : Prop :=
  ∀ q b, q.reader = some b → (queue q).Waiting → router b ≠ .drop q → router b ≠ .gone →
    place (queue q).head.call = .queued q ∧
      Loaded calls (queue q).head ((queue q).payload (queue q).consumer)

theorem Loaded.mono {calls calls' : List Call} {p : Packet} {payload : List UInt8}
    (hc : ∀ (n : Nat) (c : Call), calls[n]? = some c → calls'[n]? = some c)
    (h : Loaded calls p payload) : Loaded calls' p payload := by
  obtain ⟨c, hcall, hrest⟩ := h
  exact ⟨c, hc _ _ hcall, hrest⟩

theorem WriteOK.mono {calls calls' : List Call} {w : Writing} {l : Hq}
    (hc : ∀ (n : Nat) (c : Call), calls[n]? = some c → calls'[n]? = some c)
    (h : WriteOK calls w l) : WriteOK calls' w l :=
  ⟨h.entry, h.header, h.empty, fun hp => (h.payload hp).mono hc⟩

/-- What a reader has not touched of a queue. -/
structure Hq.SameTail (l l' : Hq) : Prop where
  writer : l'.writer = l.writer
  producer : l'.producer = l.producer
  header : l'.header l'.producer = l.header l.producer
  payload : l'.payload = l.payload

/-- What a writer has not touched of a queue in which a packet waits. -/
structure Hq.SameHead (l l' : Hq) : Prop where
  waiting : l'.Waiting
  consumer : l'.consumer = l.consumer
  head : l'.head = l.head
  payload : l'.payload l'.consumer = l.payload l.consumer

namespace Hq

variable {l : Hq}

theorem SameHead.refl (h : l.Waiting) : l.SameHead l := ⟨h, rfl, rfl, rfl⟩

theorem sameHead_locate (h : l.Waiting) (x : Agent) : l.SameHead (l.locate x) :=
  ⟨h, rfl, rfl, rfl⟩

theorem sameHead_setHeader (h : l.Waiting) (p : Packet) :
    l.SameHead (l.setHeader l.producer p) :=
  ⟨h, rfl, Function.update_of_ne (Ne.symm h) _ _, rfl⟩

theorem sameTail_setHeader (h : l.Waiting) (p : Packet) :
    l.SameTail (l.setHeader l.consumer p) :=
  ⟨rfl, rfl, Function.update_of_ne h _ _, rfl⟩

theorem sameTail_release : l.SameTail l.release := ⟨rfl, rfl, rfl, rfl⟩

theorem not_waiting_release (h : l.Waiting) : ¬ l.release.Waiting := by
  unfold Waiting at h ⊢
  simp only [release]
  cases hp : l.producer <;> cases hc : l.consumer <;> simp_all

theorem publish_of_not_waiting (h : ¬ l.Waiting) :
    l.publish.Waiting ∧ l.publish.head = l.header l.producer ∧
      l.publish.payload l.publish.consumer = l.payload l.producer := by
  have he : l.producer = l.consumer := not_not.mp h
  refine ⟨?_, ?_, ?_⟩
  · unfold Waiting
    simp only [publish, he]
    cases l.consumer <;> decide
  · simp only [head, publish, he]
  · simp only [publish, he]

end Hq

namespace Channels

variable {net : Net} {calls : List Call} {queue : Queue → Hq}
    {writing writing' : Agent → Option Writing}
  {gone gone' : Agent → Prop}

theorem mono {calls' : List Call}
    (hc : ∀ (n : Nat) (c : Call), calls[n]? = some c → calls'[n]? = some c)
    (h : Channels net calls queue writing gone) : Channels net calls' queue writing gone := by
  refine ⟨?_, h.writer⟩
  intro x w hw
  obtain ⟨hx, hok⟩ := h.write x w hw
  exact ⟨hx, hok.mono hc⟩

theorem setWriting (h : Channels net calls queue writing gone) {x : Agent} {q : Queue} {l : Hq}
    (hold : ∀ w, writing x = some w → w.queue = q)
    (hfree : ∀ y, (queue q).writer = some y → y = x)
    (hw : l.writer = (writing' x).map (fun _ => x))
    (hnew : ∀ w, writing' x = some w → w.queue = q ∧ WriteOK calls w l ∧ net.Writes x q)
    (hy : ∀ y, y ≠ x → writing' y = writing y) (hg : ∀ y, gone y → gone' y) :
    Channels net calls (Function.update queue q l) writing' gone' := by
  constructor
  · intro y w hyw
    by_cases hyx : y = x
    · subst hyx
      obtain ⟨rfl, hok, -⟩ := hnew w hyw
      rw [Function.update_self]
      exact ⟨by rw [hw, hyw]; rfl, hok⟩
    · rw [hy y hyx] at hyw
      obtain ⟨hwr, hok⟩ := h.write y w hyw
      have hne : w.queue ≠ q := by
        rintro rfl
        exact hyx (hfree y hwr)
      rw [Function.update_of_ne hne]
      exact ⟨hwr, hok⟩
  · intro q' y hq'
    by_cases hne : q' = q
    · subst hne
      rw [Function.update_self, hw] at hq'
      obtain ⟨w, hxw, rfl⟩ := Option.map_eq_some_iff.mp hq'
      obtain ⟨hwq, -, hwr⟩ := hnew w hxw
      exact ⟨hwr, .inl ⟨w, hxw, hwq⟩⟩
    · rw [Function.update_of_ne hne] at hq'
      obtain ⟨hwr, ⟨w, hyw, hwq⟩ | hgy⟩ := h.writer q' y hq'
      · have hyx : y ≠ x := by
          rintro rfl
          exact hne (hwq.symm.trans (hold w hyw))
        exact ⟨hwr, .inl ⟨w, (hy y hyx).trans hyw, hwq⟩⟩
      · exact ⟨hwr, .inr (hg y hgy)⟩

theorem publish (h : Channels net calls queue writing gone) {x : Agent} {w : Writing}
    (hx : writing x = some w) (hx' : writing' x = none)
    (hy : ∀ y, y ≠ x → writing' y = writing y) (hg : ∀ y, gone y → gone' y) :
    Channels net calls (Function.update queue w.queue (queue w.queue).publish) writing' gone' := by
  refine h.setWriting (x := x) ?_ ?_ ?_ ?_ hy hg
  · intro w' hw'
    rw [hx] at hw'
    cases hw'
    rfl
  · intro y hy
    exact Option.some.inj (hy.symm.trans (h.write x w hx).1)
  · rw [hx']
    rfl
  · intro w' hw'
    rw [hx'] at hw'
    cases hw'

theorem setReading (h : Channels net calls queue writing gone) {q : Queue} {l : Hq}
    (hw : (queue q).Waiting) (hl : (queue q).SameTail l) :
    Channels net calls (Function.update queue q l) writing gone := by
  constructor
  · intro x w hxw
    obtain ⟨hwr, hok⟩ := h.write x w hxw
    by_cases hne : w.queue = q
    · subst hne
      rw [Function.update_self]
      refine ⟨hl.writer.trans hwr, hok.entry.trans hl.producer.symm, ?_, ?_, ?_⟩
      · intro hp
        exact hl.header.trans (hok.header hp)
      · intro hp
        exact absurd hw (hok.empty hp)
      · intro hp
        exact absurd hw (hok.empty hp)
    · rw [Function.update_of_ne hne]
      exact ⟨hwr, hok⟩
  · intro q' x hq'
    by_cases hne : q' = q
    · subst hne
      rw [Function.update_self, hl.writer] at hq'
      exact h.writer q' x hq'
    · rw [Function.update_of_ne hne] at hq'
      exact h.writer q' x hq'

theorem leave (h : Channels net calls queue writing gone)
    (hy : ∀ y, writing' y = writing y ∨ (writing' y = none ∧ gone' y))
    (hg : ∀ y, gone y → gone' y) : Channels net calls queue writing' gone' := by
  constructor
  · intro y w hyw
    rcases hy y with he | ⟨he, -⟩
    · exact h.write y w (he ▸ hyw)
    · rw [he] at hyw
      cases hyw
  · intro q y hq
    obtain ⟨hwr, ⟨w, hyw, hwq⟩ | hgy⟩ := h.writer q y hq
    · rcases hy y with he | ⟨-, hg'⟩
      · exact ⟨hwr, .inl ⟨w, he.trans hyw, hwq⟩⟩
      · exact ⟨hwr, .inr hg'⟩
    · exact ⟨hwr, .inr (hg y hgy)⟩

theorem free {s : State} (h : Channels net calls s.queue writing gone) {x : Agent} {q : Queue}
    (hx : writing x = none) (hgx : ¬ gone x) (hwr : net.Writes x q) (hfree : Free net s q) :
    (s.queue q).writer = none := by
  cases hw : (s.queue q).writer with
  | none => rfl
  | some y =>
    exfalso
    obtain ⟨hy, hy'⟩ := h.writer q y hw
    have hz : ∀ z, q = .incoming z → net.nodeType z ≠ .zed := by
      rintro z rfl ht
      rw [hfree ht] at hw
      cases hw
    obtain rfl := Net.Writes.unique hz hwr hy
    rcases hy' with ⟨w, hyw, -⟩ | hgy
    · rw [hx] at hyw
      cases hyw
    · exact hgx hgy

end Channels

namespace Heads

variable {calls : List Call} {queue : Queue → Hq} {place place' : Nat → Place}
  {router router' : UInt32 → Router}

theorem mono {calls' : List Call}
    (hc : ∀ (n : Nat) (c : Call), calls[n]? = some c → calls'[n]? = some c)
    (h : Heads calls queue place router) : Heads calls' queue place router := by
  intro q b hq hw hd hg
  obtain ⟨hp, hl⟩ := h q b hq hw hd hg
  exact ⟨hp, hl.mono hc⟩

theorem setQueue (h : Heads calls queue place router) {q : Queue} {l : Hq}
    (hq : ∀ b, q.reader = some b → l.Waiting → router' b ≠ .drop q → router' b ≠ .gone →
      place' l.head.call = .queued q ∧ Loaded calls l.head (l.payload l.consumer))
    (hp : ∀ n q', q' ≠ q → place n = .queued q' → place' n = .queued q')
    (hr : ∀ b q', q' ≠ q → q'.reader = some b → router' b ≠ .drop q' → router' b ≠ .gone →
      router b ≠ .drop q' ∧ router b ≠ .gone) :
    Heads calls (Function.update queue q l) place' router' := by
  intro q' b hb hw hd hg
  by_cases hne : q' = q
  · subst hne
    rw [Function.update_self] at hw ⊢
    exact hq b hb hw hd hg
  · rw [Function.update_of_ne hne] at hw ⊢
    obtain ⟨hd', hg'⟩ := hr b q' hne hb hd hg
    obtain ⟨hpl, hl⟩ := h q' b hb hw hd' hg'
    exact ⟨hp _ _ hne hpl, hl⟩

theorem setWriting (h : Heads calls queue place router) {q : Queue} {l : Hq}
    (hl : l.Waiting → (queue q).Waiting ∧ (queue q).SameHead l)
    (hr : ∀ b q', q'.reader = some b → router' b ≠ .drop q' → router' b ≠ .gone →
      router b ≠ .drop q' ∧ router b ≠ .gone) :
    Heads calls (Function.update queue q l) place router' := by
  refine h.setQueue ?_ (fun _ _ _ hp => hp) (fun b q' _ => hr b q')
  intro b hb hw hd hg
  obtain ⟨hw', hs⟩ := hl hw
  obtain ⟨hd', hg'⟩ := hr b q hb hd hg
  obtain ⟨hp, hlo⟩ := h q b hb hw' hd' hg'
  rw [hs.head, hs.payload]
  exact ⟨hp, hlo⟩

end Heads

end M2M.Network.Delivery
