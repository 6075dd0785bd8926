import M2M.Tracing.Process
import M2M.Lib.Runs
import Mathlib.Data.Finset.Card
import Mathlib.Data.Finset.Image

/-! The reference counts of object files: attachments count up, and the last member of a group
of processes counts down what its own tables hold. -/

open M2M.Lib

namespace M2M.Tracing

/-- Attachments of objects, thread creations and deletions. -/
inductive ObjCall
  | create
  | startTracing (p : Nat) (nowPid : Int) (userC kernel : Option UInt32)
  | attachObj (p : Nat) (textStart : UInt32)
  | copyObjs (p zygote : Nat)
  | copy (p : Nat)
  | delete (p : Nat)
  deriving DecidableEq

namespace SET

def call (s : SET) : ObjCall → SET
  | .create => s.createProcess
  | .startTracing p nowPid userC kernel => s.startTracing p nowPid userC kernel
  | .attachObj p textStart => s.loadUser p (some textStart)
  | .copyObjs p zygote => s.copyObjs p zygote
  | .copy p => s.copyProcess p
  | .delete p => s.deleteProcess p

/-- The calls are made on live processes. -/
def OnLive (s : SET) : ObjCall → Prop
  | .create => True
  | .startTracing p _ _ _ => p ∈ s.live
  | .attachObj p _ => p ∈ s.live
  | .copyObjs p zygote => p ∈ s.live ∧ zygote ∈ s.live
  | .copy p => p ∈ s.live
  | .delete p => p ∈ s.live

instance (s : SET) : ∀ c, Decidable (s.OnLive c)
  | .create => .isTrue trivial
  | .startTracing _ _ _ _ => inferInstanceAs (Decidable (_ ∈ _))
  | .attachObj _ _ => inferInstanceAs (Decidable (_ ∈ _))
  | .copyObjs _ _ => inferInstanceAs (Decidable (_ ∧ _))
  | .copy _ => inferInstanceAs (Decidable (_ ∈ _))
  | .delete _ => inferInstanceAs (Decidable (_ ∈ _))

def group (s : SET) (p : Nat) : Nat := (s.process p).tracing

def holders (s : SET) (o : Nat) : Finset Nat :=
  (s.live.filter (fun p => o ∈ s.refs p)).image s.group

/-- The count of each object is the number of groups that reference it, no referenced object
has been freed, and without processes all have been. -/
structure Balanced (s : SET) : Prop where
  count : ∀ o ∈ s.loaded, (s.obj o).count = (s.holders o).card
  loaded : ∀ p ∈ s.live, ∀ o ∈ s.refs p, o ∈ s.loaded
  freed : s.live = ∅ → s.loaded = ∅

/-- Another live member of the group of `p`. -/
def Mate (s : SET) (p q : Nat) : Prop := q ≠ p ∧ s.group q = s.group p

instance (s : SET) (p q : Nat) : Decidable (s.Mate p q) := inferInstanceAs (Decidable (_ ∧ _))

/-- The group of `p` references the object without `p`. -/
def HeldByMate (s : SET) (p o : Nat) : Prop := ∃ q ∈ s.live, s.Mate p q ∧ o ∈ s.refs q

instance (s : SET) (p o : Nat) : Decidable (s.HeldByMate p o) :=
  inferInstanceAs (Decidable (∃ q ∈ s.live, _))

/-- The tracing count of `p` is not freed under another member, and the last member that
references objects releases them. -/
def CountTellsLast (s : SET) (p : Nat) : Prop :=
  (s.tracing (s.group p) ≤ 1 → ∀ q ∈ s.live, ¬s.Mate p q) ∧
    ((∀ q ∈ s.live, ¬s.Mate p q) → s.refs p ≠ [] → s.tracing (s.group p) ≤ 1)

instance (s : SET) (p : Nat) : Decidable (s.CountTellsLast p) :=
  inferInstanceAs (Decidable ((_ → ∀ q ∈ s.live, _) ∧ ((∀ q ∈ s.live, _) → _ → _)))

def HasRoom (s : SET) (p : Nat) : Prop := (s.process p).objTable.length ≠ maxObjTableSize

instance (s : SET) (p : Nat) : Decidable (s.HasRoom p) := inferInstanceAs (Decidable (_ ≠ _))

/-- No reference is lost and none is counted twice for one group. -/
def NoneLost (s : SET) : ObjCall → Prop
  | .startTracing p _ userC kernel => (userC.isSome → s.HasRoom p) ∧
    (kernel.isSome → ∀ o ∈ (s.process p).objKernel, s.HeldByMate p o)
  | .attachObj p _ => s.HasRoom p
  | .copyObjs p zygote =>
    (∀ o ∈ (s.process zygote).objTable, ∀ q ∈ s.live, s.group q = s.group p → o ∉ s.refs q) ∧
      ∀ o ∈ (s.process p).objTable, s.HeldByMate p o
  | .delete p => s.CountTellsLast p ∧
    ∀ o ∈ s.refs p, (∃ q ∈ s.live, s.Mate p q) → s.HeldByMate p o
  | _ => True

instance (s : SET) : ∀ c, Decidable (s.NoneLost c)
  | .create => .isTrue trivial
  | .startTracing p _ _ _ =>
    inferInstanceAs (Decidable (_ ∧ (_ → ∀ o ∈ (s.process p).objKernel, s.HeldByMate p o)))
  | .attachObj _ _ => inferInstanceAs (Decidable (HasRoom _ _))
  | .copyObjs p zygote => inferInstanceAs (Decidable
    ((∀ o ∈ (s.process zygote).objTable, ∀ q ∈ s.live, s.group q = s.group p → o ∉ s.refs q) ∧
      ∀ o ∈ (s.process p).objTable, s.HeldByMate p o))
  | .copy _ => .isTrue trivial
  | .delete p => inferInstanceAs (Decidable
    (s.CountTellsLast p ∧ ∀ o ∈ s.refs p, (∃ q ∈ s.live, s.Mate p q) → s.HeldByMate p o))

theorem mem_holders {s : SET} {o g : Nat} :
    g ∈ s.holders o ↔ ∃ p ∈ s.live, o ∈ s.refs p ∧ s.group p = g := by
  simp [holders, and_assoc]

theorem mem_holders_split {s : SET} {p o g : Nat} (hp : p ∈ s.live) :
    g ∈ s.holders o ↔ (s.group p = g ∧ o ∈ s.refs p) ∨
      ∃ q ∈ s.live, q ≠ p ∧ o ∈ s.refs q ∧ s.group q = g := by
  rw [mem_holders]
  constructor
  · rintro ⟨q, hq, ho, hg⟩
    by_cases hqp : q = p
    · exact Or.inl ⟨hqp ▸ hg, hqp ▸ ho⟩
    · exact Or.inr ⟨q, hq, hqp, ho, hg⟩
  · rintro (⟨hg, ho⟩ | ⟨q, hq, -, ho, hg⟩)
    · exact ⟨p, hp, ho, hg⟩
    · exact ⟨q, hq, ho, hg⟩

theorem HeldByMate.mem_holders {s : SET} {p o : Nat} (h : s.HeldByMate p o) :
    ∃ q ∈ s.live, q ≠ p ∧ o ∈ s.refs q ∧ s.group q = s.group p := by
  obtain ⟨q, hq, ⟨hqp, hg⟩, ho⟩ := h
  exact ⟨q, hq, hqp, ho, hg⟩

/-- The counts are balanced, each object is referenced by a live process, and no process
references one twice. -/
structure Counted (s : SET) : Prop where
  count : ∀ o ∈ s.loaded, (s.obj o).count = (s.holders o).card
  loaded : ∀ p ∈ s.live, ∀ o ∈ s.refs p, o ∈ s.loaded
  held : ∀ o ∈ s.loaded, ∃ p ∈ s.live, o ∈ s.refs p
  nodup : ∀ p ∈ s.live, (s.refs p).Nodup
  freshObj : ∀ o ∈ s.loaded, o < s.nextObj
  fresh : ∀ p ∈ s.live, p < s.nextProcess
  freshGroup : ∀ p ∈ s.live, s.group p < s.nextProcess

/-- What counting references leaves as it is. -/
structure SameHeap (s t : SET) : Prop where
  process : s.process = t.process
  live : s.live = t.live
  nextProcess : s.nextProcess = t.nextProcess
  nextObj : s.nextObj = t.nextObj

theorem addCounts_spec (s : SET) (os : List Nat) (hos : os.Nodup) :
    let t := os.foldl (fun s o => s.addCount o 1) s
    SameHeap t s ∧ t.loaded = s.loaded ∧
      ∀ o, (t.obj o).count = (s.obj o).count + if o ∈ os then 1 else 0 := by
  induction os generalizing s with
  | nil => exact ⟨⟨rfl, rfl, rfl, rfl⟩, rfl, fun o => by simp⟩
  | cons a os ih =>
    obtain ⟨ha, hos⟩ := List.nodup_cons.1 hos
    obtain ⟨⟨h1, h2, h3, h4⟩, hloaded, hcount⟩ := ih (s.addCount a 1) hos
    refine ⟨⟨h1, h2, h3, h4⟩, hloaded, fun o => (hcount o).trans ?_⟩
    by_cases hoa : o = a
    · subst hoa
      simp [addCount, ha]
    · simp [addCount, hoa]

theorem releaseObjs_spec (s : SET) (os : List Nat) (hos : os.Nodup) :
    let t := os.foldl releaseObj s
    SameHeap t s ∧ (∀ o, o ∈ t.loaded ↔ o ∈ s.loaded ∧ (o ∈ os → 1 < (s.obj o).count)) ∧
      ∀ o, (t.obj o).count = (s.obj o).count - if o ∈ os then 1 else 0 := by
  induction os generalizing s with
  | nil => exact ⟨⟨rfl, rfl, rfl, rfl⟩, fun o => by simp, fun o => by simp⟩
  | cons a os ih =>
    obtain ⟨ha, hos⟩ := List.nodup_cons.1 hos
    have hone : SameHeap (s.releaseObj a) s ∧
        (∀ o, o ∈ (s.releaseObj a).loaded ↔ o ∈ s.loaded ∧ (o = a → 1 < (s.obj o).count)) ∧
          ∀ o, ((s.releaseObj a).obj o).count = (s.obj o).count - if o = a then 1 else 0 := by
      have hobj : ∀ o, ((s.addCount a (-1)).obj o).count =
          (s.obj o).count - if o = a then 1 else 0 := by
        intro o
        by_cases hoa : o = a
        · subst hoa
          simp [addCount]
          omega
        · simp [addCount, hoa]
      have hself := hobj a
      rw [if_pos rfl] at hself
      simp only [releaseObj, deleteObj]
      split
      · refine ⟨⟨rfl, rfl, rfl, rfl⟩, fun o => ?_, hobj⟩
        rw [Finset.mem_erase, and_comm]
        refine and_congr_right fun _ => ⟨fun hne hoa => absurd hoa hne, fun hlt hoa => ?_⟩
        have hcount := hlt hoa
        rw [hoa] at hcount
        omega
      · refine ⟨⟨rfl, rfl, rfl, rfl⟩, fun o => ?_, hobj⟩
        refine (and_iff_left ?_).symm
        rintro rfl
        omega
    obtain ⟨⟨h1, h2, h3, h4⟩, hloaded, hcount⟩ := hone
    obtain ⟨⟨h1', h2', h3', h4'⟩, hloaded', hcount'⟩ := ih (s.releaseObj a) hos
    refine ⟨⟨h1'.trans h1, h2'.trans h2, h3'.trans h3, h4'.trans h4⟩, fun o => ?_, fun o => ?_⟩
    · rw [List.foldl_cons, hloaded', hloaded, hcount, List.mem_cons]
      by_cases hoa : o = a
      · subst hoa
        simp [ha]
      · simp [hoa]
    · rw [List.foldl_cons, hcount', hcount]
      by_cases hoa : o = a
      · subst hoa
        simp [ha]
      · simp [hoa]

theorem start_counted : start.Counted := by
  constructor <;> simp [start]

namespace Counted

variable {s t : SET} {p : Nat} (h : s.Counted)

include h

theorem balanced : s.Balanced where
  count := h.count
  loaded := h.loaded
  freed hlive := by
    refine Finset.eq_empty_of_forall_notMem fun o ho => ?_
    obtain ⟨p, hp, -⟩ := h.held o ho
    simp [hlive] at hp

/-- The tables of one process change: what it gains was not referenced by its group, and what it
drops is referenced by another member. -/
theorem change (hp : p ∈ s.live) (hlive : t.live = s.live) (hnext : t.nextProcess = s.nextProcess)
    (hgroup : ∀ q, t.group q = s.group q) (hother : ∀ q, q ≠ p → t.refs q = s.refs q)
    (hnodup : (t.refs p).Nodup)
    (hgain : ∀ o ∈ t.refs p, o ∉ s.refs p → ¬s.HeldByMate p o)
    (hdrop : ∀ o ∈ s.refs p, o ∉ t.refs p → s.HeldByMate p o)
    (hcount : ∀ o ∈ t.loaded, (t.obj o).count =
      (s.holders o).card + if o ∈ t.refs p ∧ o ∉ s.refs p then 1 else 0)
    (hkeep : ∀ o ∈ s.loaded, o ∈ t.loaded) (hnew : ∀ o ∈ t.loaded, o ∈ s.loaded ∨ o ∈ t.refs p)
    (hrefs : ∀ o ∈ t.refs p, o ∈ t.loaded) (hfresh : ∀ o ∈ t.loaded, o < t.nextObj) :
    t.Counted := by
  have hmem : ∀ o g, g ∈ t.holders o ↔ (s.group p = g ∧ o ∈ t.refs p) ∨
      ∃ q ∈ s.live, q ≠ p ∧ o ∈ s.refs q ∧ s.group q = g := by
    intro o g
    rw [mem_holders_split (hlive ▸ hp), hlive, hgroup]
    refine or_congr_right (exists_congr fun q => and_congr_right fun _ => and_congr_right ?_)
    intro hqp
    rw [hother q hqp, hgroup]
  have hgained : ∀ o, o ∈ t.refs p → o ∉ s.refs p →
      t.holders o = insert (s.group p) (s.holders o) := by
    intro o ht hs
    ext g
    rw [hmem, Finset.mem_insert, mem_holders_split hp, eq_comm (a := g)]
    simp only [ht, hs, and_true, and_false, false_or]
  have hsame : ∀ o, ¬(o ∈ t.refs p ∧ o ∉ s.refs p) → t.holders o = s.holders o := by
    intro o hno
    ext g
    rw [hmem, mem_holders_split hp]
    by_cases hs : o ∈ s.refs p
    · by_cases ht : o ∈ t.refs p
      · simp only [hs, ht]
      · obtain ⟨q, hq, hqp, ho, hg⟩ := (hdrop o hs ht).mem_holders
        refine ⟨fun h => Or.inr (h.resolve_left fun hp => ht hp.2), ?_⟩
        rintro (⟨rfl, -⟩ | hothers)
        · exact Or.inr ⟨q, hq, hqp, ho, hg⟩
        · exact Or.inr hothers
    · have ht : o ∉ t.refs p := fun ht => hno ⟨ht, hs⟩
      simp only [hs, ht]
  refine ⟨fun o ho => ?_, fun q hq o ho => ?_, fun o ho => ?_, fun q hq => ?_, hfresh, ?_, ?_⟩
  · rw [hcount o ho]
    by_cases hin : o ∈ t.refs p ∧ o ∉ s.refs p
    · have hnot : s.group p ∉ s.holders o := by
        rw [mem_holders_split hp]
        rintro (⟨-, hs⟩ | ⟨q, hq, hqp, hoq, hg⟩)
        · exact hin.2 hs
        · exact hgain o hin.1 hin.2 ⟨q, hq, ⟨hqp, hg⟩, hoq⟩
      rw [if_pos hin, hgained o hin.1 hin.2, Finset.card_insert_of_notMem hnot]
      rfl
    · rw [if_neg hin, hsame o hin, Int.add_zero]
  · by_cases hqp : q = p
    · exact hrefs o (hqp ▸ ho)
    · exact hkeep o (h.loaded q (hlive ▸ hq) o (hother q hqp ▸ ho))
  · rw [hlive]
    by_cases ht : o ∈ t.refs p
    · exact ⟨p, hp, ht⟩
    · have hs := (hnew o ho).resolve_right ht
      obtain ⟨q, hq, hoq⟩ := h.held o hs
      by_cases hqp : q = p
      · obtain ⟨r, hr, hrp, hor, -⟩ := (hdrop o (hqp ▸ hoq) ht).mem_holders
        exact ⟨r, hr, hother r hrp ▸ hor⟩
      · exact ⟨q, hq, hother q hqp ▸ hoq⟩
  · by_cases hqp : q = p
    · exact hqp ▸ hnodup
    · rw [hother q hqp]
      exact h.nodup q (hlive ▸ hq)
  · rw [hlive, hnext]
    exact h.fresh
  · intro q hq
    rw [hgroup, hnext]
    exact h.freshGroup q (hlive ▸ hq)

theorem newProcess (hlive : t.live = insert s.nextProcess s.live)
    (hnext : t.nextProcess = s.nextProcess + 1)
    (hother : ∀ q, q ≠ s.nextProcess → t.process q = s.process q)
    (hobj : t.obj = s.obj) (hloaded : t.loaded = s.loaded) (hnextObj : t.nextObj = s.nextObj)
    (hnodup : (t.refs s.nextProcess).Nodup)
    (hheld : ∀ o ∈ t.refs s.nextProcess,
      ∃ q ∈ s.live, o ∈ s.refs q ∧ s.group q = t.group s.nextProcess)
    (hgroup : t.group s.nextProcess ≤ s.nextProcess) : t.Counted := by
  have hne : ∀ q ∈ s.live, q ≠ s.nextProcess := fun q hq => Nat.ne_of_lt (h.fresh q hq)
  have hrefs : ∀ q ∈ s.live, t.refs q = s.refs q := fun q hq => by
    rw [refs, hother q (hne q hq), refs]
  have hsame : ∀ q ∈ s.live, t.group q = s.group q := fun q hq => by
    rw [group, hother q (hne q hq), group]
  have hmem : ∀ q, q ∈ t.live ↔ q = s.nextProcess ∨ q ∈ s.live := fun q => by
    rw [hlive, Finset.mem_insert]
  have hholders : ∀ o, t.holders o = s.holders o := by
    intro o
    ext g
    simp only [mem_holders, hmem]
    constructor
    · rintro ⟨q, rfl | hq, ho, rfl⟩
      · exact hheld o ho
      · exact ⟨q, hq, hrefs q hq ▸ ho, (hsame q hq).symm⟩
    · rintro ⟨q, hq, ho, hg⟩
      exact ⟨q, Or.inr hq, (hrefs q hq).symm ▸ ho, (hsame q hq).trans hg⟩
  constructor
  · intro o ho
    rw [hholders, hobj]
    exact h.count o (hloaded ▸ ho)
  · intro q hq o ho
    rw [hloaded]
    rcases (hmem q).1 hq with rfl | hq
    · obtain ⟨r, hr, hor, -⟩ := hheld o ho
      exact h.loaded r hr o hor
    · exact h.loaded q hq o (hrefs q hq ▸ ho)
  · intro o ho
    obtain ⟨q, hq, hoq⟩ := h.held o (hloaded ▸ ho)
    exact ⟨q, (hmem q).2 (Or.inr hq), (hrefs q hq).symm ▸ hoq⟩
  · intro q hq
    rcases (hmem q).1 hq with rfl | hq
    · exact hnodup
    · exact (hrefs q hq).symm ▸ h.nodup q hq
  · rw [hloaded, hnextObj]
    exact h.freshObj
  · intro q hq
    rw [hnext]
    rcases (hmem q).1 hq with rfl | hq
    · exact Nat.lt_succ_self _
    · exact Nat.lt_succ_of_lt (h.fresh q hq)
  · intro q hq
    rw [hnext]
    rcases (hmem q).1 hq with rfl | hq
    · exact Nat.lt_succ_of_le hgroup
    · rw [hsame q hq]
      exact Nat.lt_succ_of_lt (h.freshGroup q hq)

theorem createProcess : s.createProcess.Counted := by
  have hnone : s.createProcess.refs s.nextProcess = [] := by simp [refs, SET.createProcess]
  refine h.newProcess rfl rfl (fun q hq => Function.update_of_ne hq _ _) rfl rfl rfl ?_ ?_ ?_
  · rw [hnone]
    exact List.nodup_nil
  · simp [hnone]
  · simp [group, SET.createProcess]

theorem copyProcess (hp : p ∈ s.live) : (s.copyProcess p).Counted := by
  have hrefs : (s.copyProcess p).refs s.nextProcess = s.refs p := by
    simp [refs, SET.copyProcess]
  have hgroup : (s.copyProcess p).group s.nextProcess = s.group p := by
    simp [group, SET.copyProcess]
  refine h.newProcess rfl rfl (fun q hq => Function.update_of_ne hq _ _) rfl rfl rfl ?_ ?_ ?_
  · rw [hrefs]
    exact h.nodup p hp
  · rw [hrefs, hgroup]
    exact fun o ho => ⟨p, hp, ho, rfl⟩
  · rw [hgroup]
    exact (h.freshGroup p hp).le

theorem gainNew (hp : p ∈ s.live) (hlive : t.live = s.live) (hnext : t.nextProcess = s.nextProcess)
    (hgroup : ∀ q, t.group q = s.group q) (hother : ∀ q, q ≠ p → t.refs q = s.refs q)
    (hloaded : t.loaded = insert s.nextObj s.loaded) (hnextObj : t.nextObj = s.nextObj + 1)
    (hnew : (t.obj s.nextObj).count = 1)
    (hcount : ∀ o, o ≠ s.nextObj → (t.obj o).count = (s.obj o).count)
    (hnodup : (t.refs p).Nodup) (hin : s.nextObj ∈ t.refs p)
    (hsub : ∀ o ∈ t.refs p, o ≠ s.nextObj → o ∈ s.refs p)
    (hdrop : ∀ o ∈ s.refs p, o ∉ t.refs p → s.HeldByMate p o) : t.Counted := by
  have hfresh : ∀ q ∈ s.live, s.nextObj ∉ s.refs q := fun q hq ho =>
    absurd (h.freshObj _ (h.loaded q hq _ ho)) (Nat.lt_irrefl _)
  have hgained : ∀ o ∈ t.refs p, o ∉ s.refs p → o = s.nextObj := fun o ho hno =>
    not_not.1 fun hne => hno (hsub o ho hne)
  have hempty : s.holders s.nextObj = ∅ := by
    refine Finset.eq_empty_of_forall_notMem fun g hg => ?_
    obtain ⟨q, hq, ho, -⟩ := mem_holders.1 hg
    exact hfresh q hq ho
  refine h.change hp hlive hnext hgroup hother hnodup (fun o ho hno hheld => ?_) hdrop
    (fun o ho => ?_) (fun o ho => ?_) (fun o ho => ?_) (fun o ho => ?_) (fun o ho => ?_)
  · obtain rfl := hgained o ho hno
    obtain ⟨q, hq, -, hoq⟩ := hheld
    exact hfresh q hq hoq
  · by_cases hon : o = s.nextObj
    · rw [hon, hnew, hempty, if_pos ⟨hin, hfresh p hp⟩]
      rfl
    · rw [if_neg fun hg => hon (hgained o hg.1 hg.2), hcount o hon, Int.add_zero]
      exact h.count o (Finset.mem_of_mem_insert_of_ne (hloaded ▸ ho) hon)
  · exact hloaded ▸ Finset.mem_insert_of_mem ho
  · rcases Finset.mem_insert.1 (hloaded ▸ ho) with rfl | ho
    · exact Or.inr hin
    · exact Or.inl ho
  · rw [hloaded, Finset.mem_insert]
    exact or_iff_not_imp_left.2 fun hne => h.loaded p hp o (hsub o ho hne)
  · rw [hnextObj]
    rcases Finset.mem_insert.1 (hloaded ▸ ho) with rfl | ho
    · exact Nat.lt_succ_self _
    · exact Nat.lt_succ_of_lt (h.freshObj o ho)

theorem loadUser (hp : p ∈ s.live) {userC : Option UInt32} (hroom : userC.isSome → s.HasRoom p) :
    (s.loadUser p userC).Counted := by
  cases userC with
  | none => exact h
  | some textStart =>
    have hattach : s.loadUser p (some textStart) =
        ((s.createObj textStart).addCount s.nextObj 1).modify p (fun x =>
          { x with objTable := (s.createObj textStart).insertObj s.nextObj x.objTable }) :=
      if_neg (hroom rfl)
    have hperm : ((s.loadUser p (some textStart)).refs p).Perm (s.nextObj :: s.refs p) := by
      rw [hattach]
      simp only [refs, modify, Function.update_self]
      exact ((List.perm_orderedInsert _ _ _).append_left _).trans List.perm_middle
    have hfresh : s.nextObj ∉ s.refs p := fun ho =>
      absurd (h.freshObj _ (h.loaded p hp _ ho)) (Nat.lt_irrefl _)
    have hother : ∀ q, q ≠ p → (s.loadUser p (some textStart)).process q = s.process q :=
      fun q hq => hattach ▸ Function.update_of_ne hq _ _
    refine h.gainNew hp (hattach ▸ rfl) (hattach ▸ rfl) (fun q => ?_) (fun q hq => ?_)
      (hattach ▸ rfl) (hattach ▸ rfl) ?_ (fun o ho => ?_) ?_ ?_ (fun o ho hne => ?_)
      (fun o ho hno => ?_)
    · by_cases hq : q = p
      · subst hq
        simp [hattach, group, modify, createObj, addCount]
      · rw [group, hother q hq, group]
    · rw [refs, hother q hq, refs]
    · simp [hattach, modify, addCount, createObj]
    · simp [hattach, modify, addCount, createObj, ho]
    · exact hperm.nodup_iff.2 (List.nodup_cons.2 ⟨hfresh, h.nodup p hp⟩)
    · exact hperm.mem_iff.2 (List.mem_cons_self)
    · exact (List.mem_cons.1 (hperm.mem_iff.1 ho)).resolve_left hne
    · exact absurd (hperm.mem_iff.2 (List.mem_cons_of_mem _ ho)) hno

theorem loadKernel (hp : p ∈ s.live) {kernel : Option UInt32}
    (hheld : kernel.isSome → ∀ o ∈ (s.process p).objKernel, s.HeldByMate p o) :
    (s.loadKernel p kernel).Counted := by
  cases kernel with
  | none => exact h
  | some textStart =>
    have hrefs : (s.loadKernel p (some textStart)).refs p =
        s.nextObj :: (s.process p).objTable := by
      simp [refs, SET.loadKernel, modify, addCount, createObj]
    have htable : ∀ o ∈ (s.process p).objTable, o ∈ s.refs p := fun o ho =>
      List.mem_append_right _ ho
    have hfresh : s.nextObj ∉ (s.process p).objTable := fun ho =>
      absurd (h.freshObj _ (h.loaded p hp _ (htable _ ho))) (Nat.lt_irrefl _)
    have hother : ∀ q, q ≠ p → (s.loadKernel p (some textStart)).process q = s.process q :=
      fun q hq => Function.update_of_ne hq _ _
    refine h.gainNew hp rfl rfl (fun q => ?_) (fun q hq => ?_) rfl rfl ?_ (fun o ho => ?_) ?_ ?_
      (fun o ho hne => ?_) (fun o ho hno => ?_)
    · by_cases hq : q = p
      · subst hq
        simp [SET.loadKernel, group, modify, createObj, addCount]
      · rw [group, hother q hq, group]
    · rw [refs, hother q hq, refs]
    · simp [SET.loadKernel, modify, addCount, createObj]
    · simp [SET.loadKernel, modify, addCount, createObj, ho]
    · rw [hrefs]
      exact List.nodup_cons.2 ⟨hfresh, (List.nodup_append.1 (h.nodup p hp)).2.1⟩
    · rw [hrefs]
      exact List.mem_cons_self
    · rw [hrefs] at ho
      exact htable o ((List.mem_cons.1 ho).resolve_left hne)
    · rw [hrefs, List.mem_cons, not_or] at hno
      rcases List.mem_append.1 ho with ho | ho
      · exact hheld rfl o (Option.mem_toList.1 ho)
      · exact absurd ho hno.2

theorem copyObjs {zygote : Nat} (hp : p ∈ s.live) (hz : zygote ∈ s.live)
    (hgain : ∀ o ∈ (s.process zygote).objTable, ∀ q ∈ s.live, s.group q = s.group p → o ∉ s.refs q)
    (hdrop : ∀ o ∈ (s.process p).objTable, s.HeldByMate p o) : (s.copyObjs p zygote).Counted := by
  have hnodup : (s.process zygote).objTable.Nodup := (List.nodup_append.1 (h.nodup zygote hz)).2.1
  obtain ⟨⟨hprocess, hlive, hnext, hnextObj⟩, hloaded, hcount⟩ := addCounts_spec s _ hnodup
  have hnot : ∀ o ∈ (s.process zygote).objTable, o ∉ s.refs p := fun o ho => hgain o ho p hp rfl
  have hkernel : ∀ o ∈ (s.process p).objKernel.toList, o ∈ s.refs p := fun o ho =>
    List.mem_append_left _ ho
  have hrefs : (s.copyObjs p zygote).refs p =
      (s.process p).objKernel.toList ++ (s.process zygote).objTable := by
    simp [refs, SET.copyObjs, modify, hprocess]
  have hother : ∀ q, q ≠ p → (s.copyObjs p zygote).process q = s.process q := fun q hq => by
    simp [SET.copyObjs, modify, Function.update_of_ne hq, hprocess]
  have hnew : ∀ o, o ∈ (s.process zygote).objTable ↔
      o ∈ (s.copyObjs p zygote).refs p ∧ o ∉ s.refs p := by
    intro o
    rw [hrefs, List.mem_append]
    refine ⟨fun ho => ⟨Or.inr ho, hnot o ho⟩, fun ho => ho.1.resolve_left fun hk => ?_⟩
    exact ho.2 (hkernel o hk)
  have hsame : (s.copyObjs p zygote).loaded = s.loaded := hloaded
  refine h.change hp hlive hnext (fun q => ?_) (fun q hq => ?_) ?_ (fun o ho hno hheld => ?_)
    (fun o ho hno => ?_) (fun o ho => ?_) (fun o ho => ?_) (fun o ho => ?_) (fun o ho => ?_)
    (fun o ho => ?_)
  · by_cases hq : q = p
    · subst hq
      simp [SET.copyObjs, group, modify, hprocess]
    · rw [group, hother q hq, group]
  · rw [refs, hother q hq, refs]
  · rw [hrefs]
    refine List.nodup_append.2 ⟨(List.nodup_append.1 (h.nodup p hp)).1, hnodup, ?_⟩
    rintro o hk _ hoz rfl
    exact hnot o hoz (hkernel o hk)
  · obtain ⟨q, hq, hmate, hoq⟩ := hheld
    exact hgain o ((hnew o).2 ⟨ho, hno⟩) q hq hmate.2 hoq
  · rw [hrefs, List.mem_append, not_or] at hno
    exact hdrop o ((List.mem_append.1 ho).resolve_left hno.1)
  · rw [← h.count o (hsame ▸ ho)]
    refine (hcount o).trans (congrArg _ ?_)
    simp only [hnew]
  · exact hsame ▸ ho
  · exact Or.inl (hsame ▸ ho)
  · rw [hsame]
    rcases List.mem_append.1 (hrefs ▸ ho) with ho | ho
    · exact h.loaded p hp o (hkernel o ho)
    · exact h.loaded zygote hz o (List.mem_append_right _ ho)
  · have hnextObj' : (s.copyObjs p zygote).nextObj = s.nextObj := hnextObj
    rw [hnextObj']
    exact h.freshObj o (hsame ▸ ho)

theorem relabel (hobj : t.obj = s.obj) (hloaded : t.loaded = s.loaded) (hlive : t.live = s.live)
    (hnext : t.nextProcess = s.nextProcess) (hnextObj : t.nextObj = s.nextObj)
    (hgroup : ∀ q, t.group q = s.group q) (hrefs : ∀ q, t.refs q = s.refs q) : t.Counted := by
  have hholders : ∀ o, t.holders o = s.holders o := by
    intro o
    ext g
    simp only [mem_holders, hlive, hrefs, hgroup]
  constructor
  · simp only [hloaded, hobj, hholders]
    exact h.count
  · simp only [hlive, hrefs, hloaded]
    exact h.loaded
  · simp only [hlive, hrefs, hloaded]
    exact h.held
  · simp only [hlive, hrefs]
    exact h.nodup
  · simp only [hloaded, hnextObj]
    exact h.freshObj
  · simp only [hlive, hnext]
    exact h.fresh
  · simp only [hlive, hgroup, hnext]
    exact h.freshGroup

theorem traced (p : Nat) (nowPid : Int) :
    Counted { (s.modify p (fun x => { x with pid := nowPid })).addTracing p 1 with
      tracingProcess := some p } := by
  refine h.relabel rfl rfl rfl rfl rfl (fun q => ?_) (fun q => ?_)
  · by_cases hq : q = p
    · subst hq
      simp [group, modify, addTracing]
    · simp [group, modify, addTracing, Function.update_of_ne hq]
  · by_cases hq : q = p
    · subst hq
      simp [refs, modify, addTracing]
    · simp [refs, modify, addTracing, Function.update_of_ne hq]

theorem startTracing {nowPid : Int} {userC kernel : Option UInt32} (hp : p ∈ s.live)
    (hroom : userC.isSome → s.HasRoom p)
    (hheld : kernel.isSome → ∀ o ∈ (s.process p).objKernel, s.HeldByMate p o) :
    (s.startTracing p nowPid userC kernel).Counted := by
  have huser := h.loadUser hp hroom
  have hlive : (s.loadUser p userC).live = s.live := by
    cases userC with
    | none => rfl
    | some textStart =>
      simp only [SET.loadUser, attachObj]
      split <;> rfl
  have hother : ∀ q, q ≠ p → (s.loadUser p userC).process q = s.process q := by
    intro q hq
    cases userC with
    | none => rfl
    | some textStart =>
      simp only [SET.loadUser, attachObj]
      split
      · rfl
      · exact Function.update_of_ne hq _ _
  have hself : ((s.loadUser p userC).process p).objKernel = (s.process p).objKernel ∧
      ((s.loadUser p userC).process p).tracing = (s.process p).tracing := by
    cases userC with
    | none => exact ⟨rfl, rfl⟩
    | some textStart =>
      simp only [SET.loadUser, attachObj]
      split
      · exact ⟨rfl, rfl⟩
      · simp [modify, addCount, createObj]
  refine (huser.loadKernel (hlive ▸ hp) fun hk o ho => ?_).traced p nowPid
  rw [hself.1] at ho
  obtain ⟨q, hq, ⟨hqp, hg⟩, hoq⟩ := hheld hk o ho
  refine ⟨q, hlive ▸ hq, ⟨hqp, ?_⟩, ?_⟩
  · rw [group, hother q hqp, group, hself.2]
    exact hg
  · rw [refs, hother q hqp]
    exact hoq

theorem delete_last (hp : p ∈ s.live) (hlast : ∀ q ∈ s.live, ¬s.Mate p q)
    (hlive : t.live = s.live.erase p) (hnext : t.nextProcess = s.nextProcess)
    (hnextObj : t.nextObj = s.nextObj) (hprocess : t.process = s.process)
    (hloaded : ∀ o, o ∈ t.loaded ↔ o ∈ s.loaded ∧ (o ∈ s.refs p → 1 < (s.obj o).count))
    (hcount : ∀ o, (t.obj o).count = (s.obj o).count - if o ∈ s.refs p then 1 else 0) :
    t.Counted := by
  have hrefs : ∀ q, t.refs q = s.refs q := fun q => by rw [refs, hprocess, refs]
  have hgroup : ∀ q, t.group q = s.group q := fun q => by rw [group, hprocess, group]
  have hmem : ∀ q, q ∈ t.live ↔ q ≠ p ∧ q ∈ s.live := fun q => by rw [hlive, Finset.mem_erase]
  have hout : ∀ o, o ∈ s.refs p → s.group p ∈ s.holders o := fun o ho =>
    mem_holders.2 ⟨p, hp, ho, rfl⟩
  have hholders : ∀ o, t.holders o = (s.holders o).erase (s.group p) := by
    intro o
    ext g
    rw [mem_holders, Finset.mem_erase, mem_holders]
    constructor
    · rintro ⟨q, hq, ho, rfl⟩
      obtain ⟨hqp, hq⟩ := (hmem q).1 hq
      exact ⟨fun hg => hlast q hq ⟨hqp, (hgroup q).symm.trans hg⟩, q, hq, hrefs q ▸ ho,
        (hgroup q).symm⟩
    · rintro ⟨hg, q, hq, ho, rfl⟩
      refine ⟨q, (hmem q).2 ⟨?_, hq⟩, (hrefs q).symm ▸ ho, hgroup q⟩
      rintro rfl
      exact hg rfl
  have hcard : ∀ o ∈ s.loaded, (t.obj o).count = (t.holders o).card := by
    intro o ho
    rw [hcount, h.count o ho, hholders]
    by_cases hop : o ∈ s.refs p
    · have hpos := Finset.card_pos.2 ⟨_, hout o hop⟩
      rw [if_pos hop, Finset.card_erase_of_mem (hout o hop)]
      omega
    · have hnot : s.group p ∉ s.holders o := by
        rw [mem_holders]
        rintro ⟨q, hq, hoq, hg⟩
        by_cases hqp : q = p
        · exact hop (hqp ▸ hoq)
        · exact hlast q hq ⟨hqp, hg⟩
      rw [if_neg hop, Finset.erase_eq_of_notMem hnot, Int.sub_zero]
  -- what is still loaded has a positive count, so another group holds it
  have hheld : ∀ o ∈ t.loaded, ∃ q ∈ t.live, o ∈ t.refs q := by
    intro o ho
    obtain ⟨hs, hone⟩ := (hloaded o).1 ho
    by_cases hop : o ∈ s.refs p
    · have hlt := hone hop
      have hc := hcard o hs
      rw [hcount, if_pos hop] at hc
      obtain ⟨g, hg⟩ := Finset.card_pos.1 (show 0 < (t.holders o).card by omega)
      obtain ⟨q, hq, hoq, -⟩ := mem_holders.1 hg
      exact ⟨q, hq, hoq⟩
    · obtain ⟨q, hq, hoq⟩ := h.held o hs
      refine ⟨q, (hmem q).2 ⟨?_, hq⟩, (hrefs q).symm ▸ hoq⟩
      rintro rfl
      exact hop hoq
  refine ⟨fun o ho => hcard o ((hloaded o).1 ho).1, fun q hq o ho => ?_, hheld, fun q hq => ?_,
    fun o ho => ?_, fun q hq => ?_, fun q hq => ?_⟩
  · obtain ⟨hqp, hq⟩ := (hmem q).1 hq
    rw [hrefs] at ho
    have hs := h.loaded q hq o ho
    refine (hloaded o).2 ⟨hs, fun hop => ?_⟩
    have hin : s.group q ∈ t.holders o := by
      rw [hholders, Finset.mem_erase]
      exact ⟨fun hg => hlast q hq ⟨hqp, hg⟩, mem_holders.2 ⟨q, hq, ho, rfl⟩⟩
    have hpos := Finset.card_pos.2 ⟨_, hin⟩
    have hc := hcard o hs
    rw [hcount, if_pos hop] at hc
    omega
  · rw [hrefs]
    exact h.nodup q ((hmem q).1 hq).2
  · rw [hnextObj]
    exact h.freshObj o ((hloaded o).1 ho).1
  · rw [hnext]
    exact h.fresh q ((hmem q).1 hq).2
  · rw [hgroup, hnext]
    exact h.freshGroup q ((hmem q).1 hq).2

theorem delete_other (hheld : ∀ o ∈ s.refs p, s.HeldByMate p o)
    (hlive : t.live = s.live.erase p) (hnext : t.nextProcess = s.nextProcess)
    (hnextObj : t.nextObj = s.nextObj) (hprocess : t.process = s.process)
    (hloaded : t.loaded = s.loaded) (hobj : t.obj = s.obj) : t.Counted := by
  have hrefs : ∀ q, t.refs q = s.refs q := fun q => by rw [refs, hprocess, refs]
  have hgroup : ∀ q, t.group q = s.group q := fun q => by rw [group, hprocess, group]
  have hmem : ∀ q, q ∈ t.live ↔ q ≠ p ∧ q ∈ s.live := fun q => by rw [hlive, Finset.mem_erase]
  have hholders : ∀ o, t.holders o = s.holders o := by
    intro o
    ext g
    simp only [mem_holders, hmem, hrefs, hgroup]
    constructor
    · rintro ⟨q, ⟨-, hq⟩, ho, hg⟩
      exact ⟨q, hq, ho, hg⟩
    · rintro ⟨q, hq, ho, rfl⟩
      by_cases hqp : q = p
      · obtain ⟨r, hr, hrp, hor, hg⟩ := (hheld o (hqp ▸ ho)).mem_holders
        exact ⟨r, ⟨hrp, hr⟩, hor, hqp ▸ hg⟩
      · exact ⟨q, ⟨hqp, hq⟩, ho, rfl⟩
  refine ⟨fun o ho => ?_, fun q hq o ho => ?_, fun o ho => ?_, fun q hq => ?_, fun o ho => ?_,
    fun q hq => ?_, fun q hq => ?_⟩
  · rw [hobj, hholders]
    exact h.count o (hloaded ▸ ho)
  · rw [hloaded]
    exact h.loaded q ((hmem q).1 hq).2 o (hrefs q ▸ ho)
  · obtain ⟨q, hq, hoq⟩ := h.held o (hloaded ▸ ho)
    by_cases hqp : q = p
    · obtain ⟨r, hr, hrp, hor, -⟩ := (hheld o (hqp ▸ hoq)).mem_holders
      exact ⟨r, (hmem r).2 ⟨hrp, hr⟩, (hrefs r).symm ▸ hor⟩
    · exact ⟨q, (hmem q).2 ⟨hqp, hq⟩, (hrefs q).symm ▸ hoq⟩
  · rw [hrefs]
    exact h.nodup q ((hmem q).1 hq).2
  · rw [hnextObj]
    exact h.freshObj o (hloaded ▸ ho)
  · rw [hnext]
    exact h.fresh q ((hmem q).1 hq).2
  · rw [hgroup, hnext]
    exact h.freshGroup q ((hmem q).1 hq).2

theorem deleteProcess (hp : p ∈ s.live) (htells : s.CountTellsLast p)
    (hheld : ∀ o ∈ s.refs p, (∃ q ∈ s.live, s.Mate p q) → s.HeldByMate p o) :
    (s.deleteProcess p).Counted := by
  have hcounter : ((s.addTracing p (-1)).tracing (s.process p).tracing < 1) ↔
      s.tracing (s.group p) ≤ 1 := by
    simp only [addTracing, Function.update_self, group]
    omega
  by_cases hlast : ∀ q ∈ s.live, ¬s.Mate p q
  · by_cases hnone : s.refs p = []
    · -- nothing is released, whatever the tracing count
      have hrest : s.deleteProcess p = { s.addTracing p (-1) with live := s.live.erase p } := by
        simp only [SET.deleteProcess, hnone, List.foldl_nil, ite_self]
      rw [hrest]
      exact h.delete_other (by simp [hnone]) rfl rfl rfl rfl rfl rfl
    · have hrest : s.deleteProcess p =
          { (s.refs p).foldl releaseObj (s.addTracing p (-1)) with live := s.live.erase p } := by
        simp only [SET.deleteProcess, if_pos (hcounter.2 (htells.2 hlast hnone))]
      obtain ⟨⟨hprocess, -, hnext, hnextObj⟩, hloaded, hcount⟩ :=
        releaseObjs_spec (s.addTracing p (-1)) (s.refs p) (h.nodup p hp)
      rw [hrest]
      exact h.delete_last hp hlast rfl hnext hnextObj hprocess hloaded hcount
  · have hrest : s.deleteProcess p = { s.addTracing p (-1) with live := s.live.erase p } := by
      simp only [SET.deleteProcess, if_neg fun hlt => hlast (htells.1 (hcounter.1 hlt))]
    rw [hrest]
    push Not at hlast
    exact h.delete_other (fun o ho => hheld o ho hlast) rfl rfl rfl rfl rfl rfl

theorem call {c : ObjCall} (hlive : s.OnLive c) (hok : s.NoneLost c) : (s.call c).Counted := by
  match c with
  | .create => exact h.createProcess
  | .startTracing p nowPid userC kernel => exact h.startTracing hlive hok.1 hok.2
  | .attachObj p textStart =>
    have hroom : (some textStart).isSome → s.HasRoom p := fun _ => hok
    exact h.loadUser hlive hroom
  | .copyObjs p zygote => exact h.copyObjs hlive.1 hlive.2 hok.1 hok.2
  | .copy p => exact h.copyProcess hlive
  | .delete p => exact h.deleteProcess hlive hok.1 hok.2

end Counted

/-- Along a run in which no reference is lost, the counts are right after every call. -/
theorem balanced_of_noneLost (cs : List ObjCall) (hlive : Along call OnLive start cs)
    (hok : Along call NoneLost start cs) :
    ∀ before, before <+: cs → (before.foldl call start).Balanced := by
  rintro before ⟨after, rfl⟩
  have hboth : Along call (fun s c => s.OnLive c ∧ s.NoneLost c) start before :=
    fun pre c hpre => ⟨hlive pre c (hpre.trans (List.prefix_append _ _)),
      hok pre c (hpre.trans (List.prefix_append _ _))⟩
  have hcounted : (before.foldl call start).Counted :=
    hboth.invariant (fun s c h hc => h.call hc.1 hc.2) start_counted
  exact hcounted.balanced

instance (s : SET) : Decidable s.Balanced :=
  decidable_of_iff ((∀ o ∈ s.loaded, (s.obj o).count = (s.holders o).card) ∧
      (∀ p ∈ s.live, ∀ o ∈ s.refs p, o ∈ s.loaded) ∧ (s.live = ∅ → s.loaded = ∅))
    ⟨fun h => ⟨h.1, h.2.1, h.2.2⟩, fun h => ⟨h.1, h.2, h.3⟩⟩

/-- The thread exits before the process. -/
theorem balanced_thread_first :
    ([.create, .startTracing 0 7 none (some 0), .attachObj 0 16, .copy 0, .attachObj 0 8, .create,
      .startTracing 2 8 none none, .copyObjs 2 0, .delete 1, .delete 0, .delete 2].foldl
      call start).Balanced :=
  balanced_of_noneLost _ (by decide) (by decide) _ List.prefix_rfl

/-- The process maps a library after its thread was created and exits before the thread. -/
theorem library_leaked :
    ¬∀ cs : List ObjCall, Along call OnLive start cs → (cs.foldl call start).Balanced := by
  intro h
  exact absurd (h [.create, .startTracing 0 7 none none, .copy 0, .attachObj 0 8, .delete 0]
    (by decide)) (by decide)

end SET

end M2M.Tracing
