import M2M.Lib.BackLinks
import M2M.Lib.Machine
import Mathlib

/-! The timers of the emulator: one list for each clock, sorted by the time of expiry, that the
callbacks of expired timers may change while it is run. -/

open M2M.Lib M2M.Lib.Machine

universe u

namespace M2M.Exec

inductive ClockType
  | realtime
  | virtual
  | host
  deriving DecidableEq

/-- The timers, numbered as they are made. -/
structure Timers where
  nb : Nat
  clock : Nat → ClockType
  enabled : ClockType → Bool
  expireTime : Nat → Int
  next : Nat → Option Nat
  activeTimers : ClockType → Option Nat

/-- Before the first timer is made. -/
def Timers.init : Timers :=
  ⟨0, fun _ => .realtime, fun _ => true, fun _ => 0, fun _ => none, fun _ => none⟩

inductive TimerOp
  | new (c : ClockType)
  | mod (ts : Nat) (expireTime : Int)
  | del (ts : Nat)

namespace Timers

def links (s : Timers) (c : ClockType) : Links Nat := ⟨s.activeTimers c, s.next⟩

def setLinks (s : Timers) (c : ClockType) (l : Links Nat) : Timers :=
  { s with activeTimers := Function.update s.activeTimers c l.start, next := l.next }

def newTimer (s : Timers) (c : ClockType) : Timers :=
  { s with
    nb := s.nb + 1
    clock := Function.update s.clock s.nb c
    expireTime := Function.update s.expireTime s.nb 0
    next := Function.update s.next s.nb none }

/-- The search ends at the timer or at the end of the list. -/
def delTimer (s : Timers) (ts : Nat) : Option Timers :=
  let l := s.links (s.clock ts)
  (l.find (fun t => decide (t = ts)) (s.nb + 1) .first).map fun link =>
    s.setLinks (s.clock ts) (l.unlink link)

def modTimer (s : Timers) (ts : Nat) (expireTime : Int) : Option Timers :=
  (s.delTimer ts).bind fun s =>
    let l := s.links (s.clock ts)
    (l.find (fun t => decide (expireTime < s.expireTime t)) (s.nb + 1) .first).map fun link =>
      { s with expireTime := Function.update s.expireTime ts expireTime }.setLinks (s.clock ts)
        (l.insert link ts)

def op (s : Timers) : TimerOp → Option Timers
  | .new c => some (s.newTimer c)
  | .mod ts expireTime => s.modTimer ts expireTime
  | .del ts => s.delTimer ts

def ops (s : Timers) : List TimerOp → Option Timers
  | [] => some s
  | o :: os => (s.op o).bind fun s => s.ops os

/-- The first timer leaves the list before its callback is called. -/
def pop (s : Timers) (c : ClockType) (ts : Nat) : Timers :=
  { s with
    activeTimers := Function.update s.activeTimers c (s.next ts)
    next := Function.update s.next ts none }

section Run

variable {ω : Type u} (cb : Nat → ω → Timers → List TimerOp × ω)

/-- The loop, with the timers whose callbacks it has called. A callback may make, arm and stop
timers as it likes. -/
def runLoop (c : ClockType) (now : Int) : Nat → Timers → ω → Option (Timers × ω × List Nat)
  | 0, _, _ => none
  | fuel + 1, s, w =>
    match s.activeTimers c with
    | none => some (s, w, [])
    | some ts =>
      if now < s.expireTime ts then
        some (s, w, [])
      else
        let called := cb ts w (s.pop c ts)
        ((s.pop c ts).ops called.1).bind fun s =>
          (runLoop c now fuel s called.2).map fun r => (r.1, r.2.1, ts :: r.2.2)

def runTimers (s : Timers) (w : ω) (c : ClockType) (now : Int) : Option (Timers × ω × List Nat) :=
  if s.enabled c then runLoop cb c now (s.nb + 1) s w else some (s, w, [])

end Run

/-- The timers that wait on a clock, in the order of the list. -/
def active (s : Timers) (c : ClockType) : List Nat := nodes s.next s.nb (s.activeTimers c)

/-- Those of them that have expired. -/
def due (s : Timers) (c : ClockType) (now : Int) : List Nat :=
  (s.active c).filter fun t => decide (s.expireTime t ≤ now)

end Timers

/-- The timers and what else the callbacks know of. -/
structure Emulator (ω : Type u) where
  timers : Timers
  world : ω

inductive TimerAction
  | op (o : TimerOp)
  | run (c : ClockType) (now : Int)
  | enable (c : ClockType) (enabled : Bool)

def timerStep {ω : Type u} (cb : Nat → ω → Timers → List TimerOp × ω) :
    Step (Emulator ω) TimerAction
  | e, .op o => (e.timers.op o).map fun s => { e with timers := s }
  | e, .run c now => (e.timers.runTimers cb e.world c now).map fun r => ⟨r.1, r.2.1⟩
  | e, .enable c enabled =>
    some { e with
      timers := { e.timers with enabled := Function.update e.timers.enabled c enabled } }

namespace Timers

/-- The lists of the timers that wait, each timer on its own clock. -/
structure Holds (s : Timers) (lists : ClockType → List Nat) : Prop where
  chains : Chains s.next s.activeTimers lists
  made : ∀ {c t}, t ∈ lists c → t < s.nb
  clock : ∀ {c t}, t ∈ lists c → s.clock t = c
  sorted : ∀ c, (lists c).Pairwise fun t u => s.expireTime t ≤ s.expireTime u

/-- What arming and stopping timers leaves. -/
structure Kept (s t : Timers) : Prop where
  nb : t.nb = s.nb
  clock : t.clock = s.clock
  enabled : t.enabled = s.enabled

/-- The timers that an operation names are made. -/
def Made (nb : Nat) : TimerOp → Prop
  | .new _ => True
  | .mod ts _ => ts < nb
  | .del ts => ts < nb

def Touches (u : Nat) : TimerOp → Prop
  | .new _ => False
  | .mod ts _ => ts = u
  | .del ts => ts = u

/-- No timer of the clock is armed to expire by `now`. -/
def Later (c : ClockType) (now : Int) (clock : Nat → ClockType) : TimerOp → Prop
  | .new _ => True
  | .mod ts expireTime => clock ts = c → now < expireTime
  | .del _ => True

/-- Operations on timers that are made, which arm those of the clock to expire after `now`. -/
def Polite (c : ClockType) (now : Int) : Nat → (Nat → ClockType) → List TimerOp → Prop
  | _, _, [] => True
  | nb, clock, .new d :: os => Polite c now (nb + 1) (Function.update clock nb d) os
  | nb, clock, o :: os => Made nb o ∧ Later c now clock o ∧ Polite c now nb clock os

/-- The list in which a timer takes its place behind those that expire no later. -/
def placed (expires : Nat → Int) (ts : Nat) (expireTime : Int) (l : List Nat) : List Nat :=
  (l.takeWhile fun t => !decide (expireTime < expires t)) ++
    ts :: l.dropWhile fun t => !decide (expireTime < expires t)

section Laws

variable {s t : Timers} {lists : ClockType → List Nat} {c : ClockType} {ts : Nat} {e now : Int}

theorem Holds.length_le (h : s.Holds lists) (c : ClockType) : (lists c).length ≤ s.nb := by
  have hsub : lists c ⊆ List.range s.nb := fun t ht => List.mem_range.mpr (h.made ht)
  have hle := ((h.chains.nodup c).subperm hsub).length_le
  rwa [List.length_range] at hle

theorem Holds.active_eq (h : s.Holds lists) (c : ClockType) : s.active c = lists c :=
  nodes_of_chain (h.chains.chain c) (h.length_le c)

theorem Holds.init : Timers.init.Holds fun _ => [] where
  chains := ⟨fun _ => rfl, fun _ => List.nodup_nil, fun hi _ => absurd hi List.not_mem_nil⟩
  made hi := absurd hi List.not_mem_nil
  clock hi := absurd hi List.not_mem_nil
  sorted _ := .nil

theorem Holds.newTimer (h : s.Holds lists) (c : ClockType) : (s.newTimer c).Holds lists := by
  have hne : ∀ {d t}, t ∈ lists d → t ≠ s.nb := fun ht => Nat.ne_of_lt (h.made ht)
  refine ⟨h.chains.touch (fun d hd => hne hd rfl) none, fun ht => ?_, fun ht => ?_, fun d => ?_⟩
  · exact Nat.lt_succ_of_lt (h.made ht)
  · exact (Function.update_of_ne (hne ht) _ _).trans (h.clock ht)
  · refine (h.sorted d).imp_of_mem fun {t u} ht hu hle => ?_
    change Function.update s.expireTime s.nb 0 t ≤ Function.update s.expireTime s.nb 0 u
    rwa [Function.update_of_ne (hne ht), Function.update_of_ne (hne hu)]

theorem Holds.find_timer (h : s.Holds lists) (ts : Nat) :
    ∃ front back, lists (s.clock ts) = front ++ back ∧ ts ∉ front ∧
      (back = [] ∨ ∃ l, back = ts :: l) ∧
      (s.links (s.clock ts)).find (fun t => decide (t = ts)) (s.nb + 1) .first =
        some (Link.first.behind front) := by
  obtain ⟨front, back, hlist, hfront, hback⟩ : ∃ front back, lists (s.clock ts) = front ++ back ∧
      ts ∉ front ∧ (back = [] ∨ ∃ l, back = ts :: l) := by
    by_cases hmem : ts ∈ lists (s.clock ts)
    · obtain ⟨front, l, hlist⟩ := List.append_of_mem hmem
      have hnodup := h.chains.nodup (s.clock ts)
      rw [hlist] at hnodup
      have hfront : ts ∉ front := fun hin =>
        (List.nodup_cons.mp (List.nodup_middle.mp hnodup)).1 (List.mem_append_left l hin)
      exact ⟨front, ts :: l, hlist, hfront, .inr ⟨l, rfl⟩⟩
    · exact ⟨lists (s.clock ts), [], (List.append_nil _).symm, hmem, .inl rfl⟩
  have hlength := h.length_le (s.clock ts)
  rw [hlist, List.length_append] at hlength
  refine ⟨front, back, hlist, hfront, hback, ?_⟩
  refine Links.find_of_chain (l := back) ?_ ?_ ?_ (by omega)
  · exact hlist ▸ h.chains.chain (s.clock ts)
  · intro b hb
    refine decide_eq_false ?_
    rintro rfl
    exact hfront hb
  · intro b hb
    rcases hback with rfl | ⟨l, rfl⟩
    · cases hb
    · exact decide_eq_true (Option.some.inj hb).symm

theorem Holds.delTimer (h : s.Holds lists) (ts : Nat) :
    ∃ t, s.delTimer ts = some t ∧ s.Kept t ∧ t.expireTime = s.expireTime ∧
      t.Holds (Function.update lists (s.clock ts) ((lists (s.clock ts)).erase ts)) := by
  obtain ⟨front, back, hlist, hfront, hback, hfind⟩ := h.find_timer ts
  refine ⟨_, congrArg (Option.map _) hfind, ⟨rfl, rfl, rfl⟩, rfl, ?_⟩
  have hchain : Chain s.next ((s.links (s.clock ts)).read .first) (front ++ back) :=
    hlist ▸ h.chains.chain (s.clock ts)
  have hread : (s.links (s.clock ts)).read (Link.first.behind front) = back.head? :=
    hchain.read_behind (s := s.links (s.clock ts))
  rcases hback with rfl | ⟨l, rfl⟩
  · rw [List.append_nil] at hlist
    have herase : (lists (s.clock ts)).erase ts = lists (s.clock ts) :=
      List.erase_of_not_mem (hlist ▸ hfront)
    rw [herase, Function.update_eq_self]
    have hsame : (s.links (s.clock ts)).unlink (Link.first.behind front) =
        s.links (s.clock ts) := by
      rw [Links.unlink, hread]
      rfl
    change (s.setLinks (s.clock ts) _).Holds lists
    rw [hsame]
    simpa [setLinks, links] using h
  · have herase : (lists (s.clock ts)).erase ts = front ++ l := by
      rw [hlist, List.erase_append_right _ hfront, List.erase_cons_head]
    rw [herase]
    have hsub : (front ++ l).Sublist (lists (s.clock ts)) :=
      hlist ▸ (List.sublist_cons_self ts l).append_left front
    have hmem : ∀ {c t}, t ∈ Function.update lists (s.clock ts) (front ++ l) c → t ∈ lists c := by
      intro c t ht
      by_cases hc : c = s.clock ts
      · rw [hc, Function.update_self] at ht
        exact hc ▸ hsub.subset ht
      · rwa [Function.update_of_ne hc] at ht
    refine ⟨h.chains.unlink hlist, fun ht => h.made (hmem ht), fun ht => h.clock (hmem ht),
      fun c => ?_⟩
    by_cases hc : c = s.clock ts
    · rw [hc, Function.update_self]
      exact (h.sorted _).sublist hsub
    · rw [Function.update_of_ne hc]
      exact h.sorted c

theorem mem_placed {expires : Nat → Int} {l : List Nat} {u : Nat} :
    u ∈ placed expires ts e l ↔ u = ts ∨ u ∈ l := by
  rw [placed, List.perm_middle.mem_iff, List.takeWhile_append_dropWhile, List.mem_cons]

theorem pairwise_placed {expires : Nat → Int} {l : List Nat}
    (hsorted : l.Pairwise fun t u => expires t ≤ expires u) (hts : ts ∉ l) (e : Int) :
    (placed expires ts e l).Pairwise fun t u =>
      Function.update expires ts e t ≤ Function.update expires ts e u := by
  have hold : ∀ u ∈ l, Function.update expires ts e u = expires u := by
    intro u hu
    refine Function.update_of_ne ?_ _ _
    rintro rfl
    exact hts hu
  have hsplit := List.takeWhile_append_dropWhile (p := fun t => !decide (e < expires t)) (l := l)
  have hfront : ∀ u ∈ l.takeWhile fun t => !decide (e < expires t), expires u ≤ e := by
    intro u hu
    have hp := List.mem_takeWhile_imp hu
    simpa using hp
  have hback : ∀ u ∈ l.dropWhile fun t => !decide (e < expires t), e ≤ expires u := by
    intro u hu
    cases hdrop : l.dropWhile fun t => !decide (e < expires t) with
    | nil =>
      rw [hdrop] at hu
      cases hu
    | cons b back =>
      have hhead : e < expires b := by
        have hb := List.head?_dropWhile_not (fun t => !decide (e < expires t)) l
        rw [hdrop] at hb
        simpa using hb
      have hpair := (hsplit ▸ hsorted : List.Pairwise _ _)
      rw [hdrop] at hpair hu
      rcases List.mem_cons.mp hu with rfl | hu
      · exact le_of_lt hhead
      · have hle := (List.pairwise_cons.mp (List.pairwise_append.mp hpair).2.1).1 u hu
        exact (le_of_lt hhead).trans hle
  have hpair : ((l.takeWhile fun t => !decide (e < expires t)) ++
      l.dropWhile fun t => !decide (e < expires t)).Pairwise fun t u => expires t ≤ expires u :=
    hsplit.symm ▸ hsorted
  obtain ⟨hpf, hpb, hpfb⟩ := List.pairwise_append.mp hpair
  have hmemf : ∀ u ∈ l.takeWhile fun t => !decide (e < expires t), u ∈ l := fun u hu =>
    (List.takeWhile_sublist _).subset hu
  have hmemb : ∀ u ∈ l.dropWhile fun t => !decide (e < expires t), u ∈ l := fun u hu =>
    (List.dropWhile_sublist _).subset hu
  refine List.pairwise_append.mpr ⟨?_, List.pairwise_cons.mpr ⟨fun u hu => ?_, ?_⟩, ?_⟩
  · exact hpf.imp_of_mem fun hu hv hle => by rwa [hold _ (hmemf _ hu), hold _ (hmemf _ hv)]
  · rw [Function.update_self, hold u (hmemb u hu)]
    exact hback u hu
  · exact hpb.imp_of_mem fun hu hv hle => by rwa [hold _ (hmemb _ hu), hold _ (hmemb _ hv)]
  · intro u hu v hv
    rw [hold u (hmemf u hu)]
    rcases List.mem_cons.mp hv with rfl | hv
    · rw [Function.update_self]
      exact hfront u hu
    · rw [hold v (hmemb v hv)]
      exact hpfb u hu v hv

theorem mem_update_erase (h : s.Holds lists) (ts : Nat) (c : ClockType) :
    ts ∉ Function.update lists (s.clock ts) ((lists (s.clock ts)).erase ts) c := by
  by_cases hc : c = s.clock ts
  · rw [hc, Function.update_self]
    exact (h.chains.nodup _).not_mem_erase
  · rw [Function.update_of_ne hc]
    exact fun hmem => hc (h.clock hmem).symm

theorem Holds.modTimer (h : s.Holds lists) (hts : ts < s.nb) (e : Int) :
    ∃ t, s.modTimer ts e = some t ∧ s.Kept t ∧
      t.expireTime = Function.update s.expireTime ts e ∧
      t.Holds (Function.update lists (s.clock ts)
        (placed s.expireTime ts e ((lists (s.clock ts)).erase ts))) := by
  obtain ⟨r, hdel, hkept, hexpire, hr⟩ := h.delTimer ts
  have hnot := mem_update_erase h ts
  have hclock : r.clock ts = s.clock ts := congrFun hkept.clock ts
  have hlist := Function.update_self (s.clock ts) ((lists (s.clock ts)).erase ts) lists
  have hsplit := (List.takeWhile_append_dropWhile
    (p := fun t => !decide (e < s.expireTime t)) (l := (lists (s.clock ts)).erase ts)).symm
  have hlength := hr.length_le (s.clock ts)
  rw [hlist, hsplit, List.length_append] at hlength
  have hchain := hr.chains.chain (s.clock ts)
  rw [hlist, hsplit] at hchain
  have hfind : (r.links (s.clock ts)).find (fun t => decide (e < s.expireTime t)) (r.nb + 1) .first =
      some (Link.first.behind (((lists (s.clock ts)).erase ts).takeWhile
        fun t => !decide (e < s.expireTime t))) := by
    refine Links.find_of_chain (s := r.links (s.clock ts)) hchain (fun b hb => ?_) (fun b hb => ?_)
      (by omega)
    · simpa using List.mem_takeWhile_imp hb
    · have hhead := List.head?_dropWhile_not (fun t => !decide (e < s.expireTime t))
        ((lists (s.clock ts)).erase ts)
      rw [Option.mem_def] at hb
      rw [hb] at hhead
      simpa using hhead
  have hmod : s.modTimer ts e = some ({ r with
      expireTime := Function.update r.expireTime ts e }.setLinks (s.clock ts)
        ((r.links (s.clock ts)).insert (Link.first.behind (((lists (s.clock ts)).erase ts).takeWhile
          fun t => !decide (e < s.expireTime t))) ts)) := by
    rw [Timers.modTimer, hdel, Option.bind_some]
    simp only [hclock, hexpire]
    rw [hfind]
    rfl
  refine ⟨_, hmod, ⟨hkept.nb, hkept.clock, hkept.enabled⟩, ?_, ?_⟩
  · exact congrArg (Function.update · ts e) hexpire
  have hchains := hr.chains.insert (i := s.clock ts) (a := ts) (hlist.trans hsplit) hnot
  rw [Function.update_idem] at hchains
  have hmem : ∀ {c t}, t ∈ Function.update lists (s.clock ts)
      (placed s.expireTime ts e ((lists (s.clock ts)).erase ts)) c →
        t = ts ∧ c = s.clock ts ∨ t ∈ lists c := by
    intro c t ht
    by_cases hc : c = s.clock ts
    · rw [hc, Function.update_self, mem_placed] at ht
      rcases ht with rfl | ht
      · exact .inl ⟨rfl, hc⟩
      · exact .inr (hc ▸ List.mem_of_mem_erase ht)
    · rw [Function.update_of_ne hc] at ht
      exact .inr ht
  refine ⟨hchains, fun {c t} ht => ?_, fun {c t} ht => ?_, fun c => ?_⟩
  · change t < r.nb
    rw [hkept.nb]
    rcases hmem ht with ⟨rfl, _⟩ | ht
    · exact hts
    · exact h.made ht
  · change r.clock t = c
    rw [hkept.clock]
    rcases hmem ht with ⟨rfl, hc⟩ | ht
    · exact hc.symm
    · exact h.clock ht
  · change List.Pairwise (fun t u => Function.update r.expireTime ts e t ≤
      Function.update r.expireTime ts e u) _
    rw [hexpire]
    by_cases hc : c = s.clock ts
    · rw [hc, Function.update_self]
      refine pairwise_placed ((h.sorted _).sublist (List.erase_sublist)) ?_ e
      exact (h.chains.nodup _).not_mem_erase
    · rw [Function.update_of_ne hc]
      have hold : ∀ u ∈ lists c, Function.update s.expireTime ts e u = s.expireTime u := by
        intro u hu
        refine Function.update_of_ne ?_ _ _
        rintro rfl
        exact hc (h.clock hu).symm
      refine (h.sorted c).imp_of_mem fun ht hu hle => ?_
      rwa [hold _ ht, hold _ hu]

theorem Holds.due_eq (h : s.Holds lists) (c : ClockType) (now : Int) :
    s.due c now = (lists c).filter fun t => decide (s.expireTime t ≤ now) := by
  rw [due, h.active_eq]

theorem Holds.op (h : s.Holds lists) {o : TimerOp} (hmade : Made s.nb o) :
    ∃ t lists', s.op o = some t ∧ t.Holds lists' ∧
      (∀ c now os, Polite c now s.nb s.clock (o :: os) → Polite c now t.nb t.clock os) ∧
      (∀ {c now}, Later c now s.clock o →
        (t.due c now).Sublist (s.due c now) ∧
          ∀ u ∈ s.due c now, ¬Touches u o → u ∈ t.due c now) := by
  cases o with
  | new d =>
    have hnew := h.newTimer d
    refine ⟨_, lists, rfl, hnew, fun c now os hos => hos, fun {c now} _ => ?_⟩
    have hdue : (s.newTimer d).due c now = s.due c now := by
      rw [hnew.due_eq, h.due_eq]
      refine List.filter_congr fun t ht => ?_
      change decide (Function.update s.expireTime s.nb 0 t ≤ now) = _
      rw [Function.update_of_ne (Nat.ne_of_lt (h.made ht))]
    rw [hdue]
    exact ⟨List.Sublist.refl _, fun u hu _ => hu⟩
  | del ts =>
    obtain ⟨t, hdel, hkept, hexpire, ht⟩ := h.delTimer ts
    refine ⟨t, _, hdel, ht, fun c now os hos => ?_, fun {c now} _ => ?_⟩
    · rw [hkept.nb, hkept.clock]
      exact hos.2.2
    rw [ht.due_eq, h.due_eq, hexpire]
    by_cases hc : c = s.clock ts
    · rw [hc, Function.update_self]
      refine ⟨List.erase_sublist.filter _, fun u hu hne => ?_⟩
      rw [List.mem_filter] at hu ⊢
      exact ⟨(List.mem_erase_of_ne fun heq => hne heq.symm).mpr hu.1, hu.2⟩
    · rw [Function.update_of_ne hc]
      exact ⟨List.Sublist.refl _, fun u hu _ => hu⟩
  | mod ts e =>
    obtain ⟨t, hmod, hkept, hexpire, ht⟩ := h.modTimer hmade e
    refine ⟨t, _, hmod, ht, fun c now os hos => ?_, fun {c now} hlater => ?_⟩
    · rw [hkept.nb, hkept.clock]
      exact hos.2.2
    rw [ht.due_eq, h.due_eq, hexpire]
    by_cases hc : c = s.clock ts
    · have hnot : ¬e ≤ now := not_le_of_gt (hlater hc.symm)
      have hfilter : (placed s.expireTime ts e ((lists (s.clock ts)).erase ts)).filter
          (fun u => decide (Function.update s.expireTime ts e u ≤ now)) =
            ((lists (s.clock ts)).erase ts).filter fun u => decide (s.expireTime u ≤ now) := by
        rw [placed, List.filter_append, List.filter_cons_of_neg (by simpa using hnot),
          ← List.filter_append, List.takeWhile_append_dropWhile]
        refine List.filter_congr fun u hu => ?_
        rw [Function.update_of_ne]
        rintro rfl
        exact (h.chains.nodup _).not_mem_erase hu
      rw [hc, Function.update_self, hfilter]
      refine ⟨List.erase_sublist.filter _, fun u hu hne => ?_⟩
      rw [List.mem_filter] at hu ⊢
      exact ⟨(List.mem_erase_of_ne fun heq => hne heq.symm).mpr hu.1, hu.2⟩
    · rw [Function.update_of_ne hc]
      have hfilter : (lists c).filter
          (fun u => decide (Function.update s.expireTime ts e u ≤ now)) =
            (lists c).filter fun u => decide (s.expireTime u ≤ now) := by
        refine List.filter_congr fun u hu => ?_
        rw [Function.update_of_ne]
        rintro rfl
        exact hc (h.clock hu).symm
      rw [hfilter]
      exact ⟨List.Sublist.refl _, fun u hu _ => hu⟩

theorem Polite.head {nb : Nat} {clock : Nat → ClockType} {o : TimerOp} {os : List TimerOp}
    (h : Polite c now nb clock (o :: os)) : Made nb o ∧ Later c now clock o := by
  cases o with
  | new d => exact ⟨trivial, trivial⟩
  | mod ts e => exact ⟨h.1, h.2.1⟩
  | del ts => exact ⟨h.1, h.2.1⟩

theorem Holds.ops (h : s.Holds lists) {os : List TimerOp} (hos : Polite c now s.nb s.clock os) :
    ∃ t lists', s.ops os = some t ∧ t.Holds lists' ∧ (t.due c now).Sublist (s.due c now) ∧
      ∀ u ∈ s.due c now, (∀ o ∈ os, ¬Touches u o) → u ∈ t.due c now := by
  induction os generalizing s lists with
  | nil => exact ⟨s, lists, rfl, h, List.Sublist.refl _, fun u hu _ => hu⟩
  | cons o os ih =>
    obtain ⟨hmade, hlater⟩ := hos.head
    obtain ⟨r, rlists, hop, hr, hrest, hdue⟩ := h.op hmade
    obtain ⟨t, tlists, hops, ht, hsub, hkept⟩ := ih hr (hrest c now os hos)
    refine ⟨t, tlists, ?_, ht, hsub.trans (hdue hlater).1, fun u hu hne => ?_⟩
    · rw [Timers.ops, hop, Option.bind_some, hops]
    · rw [List.forall_mem_cons] at hne
      exact hkept u ((hdue hlater).2 u hu hne.1) hne.2

theorem Holds.pop (h : s.Holds lists) {l : List Nat} (hc : lists c = ts :: l) :
    (s.pop c ts).Holds (Function.update lists c l) := by
  have hnot := h.chains.notMem_pop hc
  have hmem : ∀ {d t}, t ∈ Function.update lists c l d → t ∈ lists d := by
    intro d t ht
    by_cases hd : d = c
    · rw [hd, Function.update_self] at ht
      exact hd ▸ hc ▸ List.mem_cons_of_mem ts ht
    · rwa [Function.update_of_ne hd] at ht
  refine ⟨(h.chains.pop hc).touch hnot none, fun ht => h.made (hmem ht),
    fun ht => h.clock (hmem ht), fun d => ?_⟩
  by_cases hd : d = c
  · rw [hd, Function.update_self]
    have hsorted := h.sorted c
    rw [hc] at hsorted
    exact (List.pairwise_cons.mp hsorted).2
  · rw [Function.update_of_ne hd]
    exact h.sorted d

/-- The loop comes to an end, and calls the callbacks of timers that were due, in the order of
the list; of these it leaves out only some that a callback has touched. -/
theorem Holds.runLoop {ω : Type u} {cb : Nat → ω → Timers → List TimerOp × ω} {P : ω → Prop}
    (hcb : ∀ ts w s, ts < s.nb → P w →
      Polite c now s.nb s.clock (cb ts w s).1 ∧ P (cb ts w s).2)
    (h : s.Holds lists) {w : ω} (hw : P w) {fuel : Nat} (hfuel : (s.due c now).length < fuel) :
    ∃ t w' fired lists', runLoop cb c now fuel s w = some (t, w', fired) ∧ t.Holds lists' ∧
      t.due c now = [] ∧ fired.Sublist (s.due c now) ∧
      ∀ u ∈ s.due c now, (∀ ts w s, P w → ∀ o ∈ (cb ts w s).1, ¬Touches u o) → u ∈ fired := by
  induction fuel generalizing s lists w with
  | zero => exact absurd hfuel (Nat.not_lt_zero _)
  | succ fuel ih =>
    have hhead := (h.chains.chain c).head?_eq
    have hdue := h.due_eq c now
    rw [Timers.runLoop, hhead]
    cases hlist : lists c with
    | nil =>
      rw [hlist] at hdue
      exact ⟨s, w, [], lists, rfl, h, hdue, List.nil_sublist _, fun u hu _ => by rwa [hdue] at hu⟩
    | cons ts l =>
      have hsorted := h.sorted c
      rw [hlist] at hsorted hdue
      simp only [List.head?_cons]
      by_cases hlate : now < s.expireTime ts
      · have hnone : s.due c now = [] := by
          rw [hdue, List.filter_eq_nil_iff]
          intro u hu
          have hle : s.expireTime ts ≤ s.expireTime u := by
            rcases List.mem_cons.mp hu with rfl | hu
            · exact le_refl _
            · exact (List.pairwise_cons.mp hsorted).1 u hu
          simpa using lt_of_lt_of_le hlate hle
        rw [if_pos hlate]
        exact ⟨s, w, [], lists, rfl, h, hnone, List.nil_sublist _, fun u hu _ => by rwa [hnone] at hu⟩
      · have hpop := h.pop hlist
        have hcons : s.due c now = ts :: (s.pop c ts).due c now := by
          rw [hdue, hpop.due_eq, Function.update_self]
          exact List.filter_cons_of_pos (by simpa using hlate)
        have hmade : ts < s.nb := h.made (hlist ▸ List.mem_cons_self : ts ∈ lists c)
        obtain ⟨hpolite, hP⟩ := hcb ts w (s.pop c ts) hmade hw
        obtain ⟨r, rlists, hops, hr, hsub, hkept⟩ := hpop.ops hpolite
        have hshort : (r.due c now).length < fuel := by
          have hle := hsub.length_le
          rw [hcons, List.length_cons] at hfuel
          omega
        obtain ⟨t, w', fired, tlists, hrun, ht, hnone, hfired, huntouched⟩ := ih hr hP hshort
        refine ⟨t, w', ts :: fired, tlists, ?_, ht, hnone, ?_, fun u hu hne => ?_⟩
        · rw [if_neg hlate, hops, Option.bind_some, hrun]
          rfl
        · rw [hcons]
          exact (hfired.trans hsub).cons_cons ts
        · rw [hcons] at hu
          rcases List.mem_cons.mp hu with rfl | hu
          · exact List.mem_cons_self
          · refine List.mem_cons_of_mem ts (huntouched u (hkept u hu fun o ho => ?_) hne)
            exact hne ts w (s.pop c ts) hw o ho

end Laws

end Timers

section Machine

variable {ω : Type u} (cb : Nat → ω → Timers → List TimerOp × ω)

/-- While the timers of `c` are run at the time `now`, the callbacks name timers that are made,
and arm those of the clock to expire later. -/
def Calm (c : ClockType) (now : Int) (w : ω) : Prop :=
  ∃ P : ω → Prop, P w ∧
    ∀ ts w s, ts < s.nb → P w → Timers.Polite c now s.nb s.clock (cb ts w s).1 ∧ P (cb ts w s).2

/-- The operations name timers that are made, and the callbacks are calm. -/
def Fit (e : Emulator ω) : TimerAction → Prop
  | .op o => Timers.Made e.timers.nb o
  | .run c now => Calm cb c now e.world
  | .enable _ _ => True

variable {cb} {e : Emulator ω} {c : ClockType} {now : Int}

theorem reachable_holds {init : Emulator ω → Prop} (hinit : ∀ e, init e → e.timers = .init)
    (h : ReachableWhen init (timerStep cb) (Fit cb) e) : ∃ lists, e.timers.Holds lists := by
  have hholds : ∀ e, init e → ∃ lists, e.timers.Holds lists := fun e he =>
    ⟨_, hinit e he ▸ Timers.Holds.init⟩
  refine ReachableWhen.invariant hholds ?_ h
  · rintro e a t ⟨lists, he⟩ hfit hstep
    cases a with
    | op o =>
      obtain ⟨s, lists', hop, hs, _⟩ := he.op hfit
      rw [timerStep, hop] at hstep
      exact ⟨lists', Option.some.inj hstep ▸ hs⟩
    | run c now =>
      obtain ⟨P, hw, hcb⟩ := hfit
      rw [timerStep, Timers.runTimers] at hstep
      by_cases hen : e.timers.enabled c = true
      · have hfuel : (e.timers.due c now).length < e.timers.nb + 1 := by
          have hle := (he.due_eq c now ▸ List.length_filter_le _ _).trans (he.length_le c)
          exact Nat.lt_succ_of_le hle
        obtain ⟨s, w', fired, lists', hrun, hs, _⟩ := he.runLoop hcb hw hfuel
        rw [if_pos hen, hrun] at hstep
        exact ⟨lists', Option.some.inj hstep ▸ hs⟩
      · rw [if_neg hen] at hstep
        exact ⟨lists, Option.some.inj hstep ▸ he⟩
    | enable c enabled =>
      obtain rfl := Option.some.inj hstep
      exact ⟨lists, he.chains, he.made, he.clock, he.sorted⟩

/-- In every state that the emulator reaches, the lists are sorted, and running the timers of an
enabled clock ends, leaves none of them due, and calls the callbacks of timers that were due, in
the order of the list and each once; a timer that was due and is not touched by a callback has its
own called. -/
theorem reachable_runTimers {init : Emulator ω → Prop} (hinit : ∀ e, init e → e.timers = .init)
    (h : ReachableWhen init (timerStep cb) (Fit cb) e) (hen : e.timers.enabled c = true)
    {P : ω → Prop} (hw : P e.world)
    (hcb : ∀ ts w s, ts < s.nb → P w →
      Timers.Polite c now s.nb s.clock (cb ts w s).1 ∧ P (cb ts w s).2) :
    ((e.timers.active c).Pairwise fun t u => e.timers.expireTime t ≤ e.timers.expireTime u) ∧
      ∃ s w' fired, e.timers.runTimers cb e.world c now = some (s, w', fired) ∧
        (∀ t ∈ s.active c, now < s.expireTime t) ∧ fired.Sublist (e.timers.due c now) ∧
        fired.Nodup ∧
        ∀ u ∈ e.timers.due c now,
          (∀ ts w s, P w → ∀ o ∈ (cb ts w s).1, ¬Timers.Touches u o) → u ∈ fired := by
  obtain ⟨lists, he⟩ := reachable_holds hinit h
  have hfuel : (e.timers.due c now).length < e.timers.nb + 1 := by
    have hle := (he.due_eq c now ▸ List.length_filter_le _ _).trans (he.length_le c)
    exact Nat.lt_succ_of_le hle
  obtain ⟨s, w', fired, slists, hrun, hs, hnone, hsub, huntouched⟩ := he.runLoop hcb hw hfuel
  refine ⟨he.active_eq c ▸ he.sorted c, s, w', fired, ?_, ?_, hsub, ?_, huntouched⟩
  · rw [Timers.runTimers, if_pos hen, hrun]
  · intro t ht
    by_contra hdue
    have hmem : t ∈ s.due c now := List.mem_filter.mpr ⟨ht, by simpa using hdue⟩
    rw [hnone] at hmem
    cases hmem
  · have hnodup := (he.chains.nodup c).filter fun t => decide (e.timers.expireTime t ≤ now)
    exact (he.due_eq c now ▸ hsub).nodup hnodup

/-- A callback that arms its timer anew, ten ticks on. -/
def periodic (ts : Nat) (time : Int) (_ : Timers) : List TimerOp × Int :=
  ([.mod ts (time + 10)], time)

/-- A timer that is armed for the time 5 is run at 7. -/
theorem reachable_runTimers_periodic :
    ∃ e : Emulator Int, ∃ s w fired, e.timers.due .virtual 7 = [0] ∧
      e.timers.runTimers periodic e.world .virtual 7 = some (s, w, fired) ∧
        ∀ t ∈ s.active .virtual, 7 < s.expireTime t := by
  let start : Emulator Int := ⟨.init, 7⟩
  have hstart : ReachableWhen (· = start) (timerStep periodic) (Fit periodic) start := .start rfl
  have hfit : Fit periodic start (.op (.new .virtual)) := trivial
  have hnew := hstart.next hfit rfl
  have hmade : Fit periodic ⟨Timers.init.newTimer .virtual, 7⟩ (.op (.mod 0 5)) := Nat.one_pos
  have harmed := hnew.next hmade rfl
  have hcalm : ∀ ts w (s : Timers), ts < s.nb → w = 7 →
      Timers.Polite .virtual 7 s.nb s.clock (periodic ts w s).1 ∧ (periodic ts w s).2 = 7 := by
    rintro ts w s hts rfl
    exact ⟨⟨hts, fun _ => by decide, trivial⟩, rfl⟩
  have hinit : ∀ e, e = start → e.timers = .init := by
    rintro e rfl
    rfl
  obtain ⟨-, s, w, fired, hrun, hnone, -⟩ :=
    reachable_runTimers (P := fun time => time = 7) hinit harmed rfl rfl hcalm
  exact ⟨_, s, w, fired, by decide, hrun, hnone⟩

end Machine

end M2M.Exec
