import M2M.Memcheck.Lookups
import M2M.Memcheck.Replacing

/-! The map of a process and its life: each block of the map has the flags that its history asks
for, and no block of the history is missing. -/

open M2M.Lib M2M.Lib.Ranged

namespace M2M.Memcheck

namespace Handlers

section Lives

/-- What an event adds to the blocks. -/
def LifeEvent.born (executing : Bool) : LifeEvent → List (Bool × MallocDesc)
  | .alloc block => [(executing, block)]
  | .free _ | .exec | .libcInit => []

def ownMark (own : Bool × MallocDesc) : UInt32 × MallocDesc :=
  (if own.1 then 0 else mdescFlagTransitionEntry, own.2)

/-- The blocks that are to be in the map, with their flags. -/
def Life.marked (life : Life) : List (UInt32 × MallocDesc) :=
  (life.inherited.filter fun block => life.events.all (LifeEvent.spares block)).map
      (Prod.mk mdescFlagInheritedOnFork) ++
    (survivors false life.events).map ownMark

variable {life : Life} {e : LifeEvent} {block : MallocDesc}

theorem survivors_concat (executing : Bool) (events : List LifeEvent) (e : LifeEvent) :
    survivors executing (events ++ [e]) =
      (survivors executing events).filter (fun own => e.spares own.2) ++
        e.born (executing || decide (.exec ∈ events)) := by
  induction events generalizing executing with
  | nil => cases e <;> simp [survivors, LifeEvent.born]
  | cons first later ih =>
    cases first with
    | alloc block =>
      have hexec : decide (LifeEvent.exec ∈ .alloc block :: later) =
          decide (LifeEvent.exec ∈ later) := by simp
      rw [List.cons_append, survivors, survivors, ih, hexec, List.all_append, List.all_cons,
        List.all_nil, Bool.and_true]
      by_cases hlater : later.all (LifeEvent.spares block) = true
      · by_cases hlast : e.spares block = true
        · rw [if_pos (by rw [hlater, hlast]; rfl), if_pos hlater,
            List.filter_cons_of_pos (by exact hlast), List.cons_append]
        · rw [if_neg (by rw [hlater]; exact hlast), if_pos hlater,
            List.filter_cons_of_neg (by exact hlast)]
      · rw [if_neg fun hboth => hlater (Bool.and_eq_true_iff.mp hboth).1, if_neg hlater]
    | free ptr => simpa [survivors] using ih executing
    | exec => simpa [survivors] using ih true
    | libcInit => simpa [survivors] using ih executing

theorem Life.marked_add (life : Life) (e : LifeEvent) :
    (life.add e).marked = life.marked.filter (fun x => e.spares x.2) ++
      (e.born (decide (.exec ∈ life.events))).map ownMark := by
  have hinherited : (life.inherited.filter fun block =>
      (life.events ++ [e]).all (LifeEvent.spares block)) =
        (life.inherited.filter fun block => life.events.all (LifeEvent.spares block)).filter
          e.spares := by
    rw [List.filter_filter]
    congr 1
    funext block
    simp [Bool.and_comm]
  unfold Life.marked Life.add
  rw [hinherited, survivors_concat, Bool.false_or, List.map_append, List.filter_append,
    List.filter_map, List.filter_map, List.append_assoc]
  rfl

theorem Life.live_eq (life : Life) : life.live = life.marked.map Prod.snd := by
  rw [Life.live, Life.marked, List.map_append, List.map_map, List.map_map]
  congr 1
  exact (List.map_id _).symm

theorem Life.flags_of_marked {x : UInt32 × MallocDesc} (hx : x ∈ life.marked) :
    x.1 = 0 ∨ x.1 = mdescFlagTransitionEntry ∨ x.1 = mdescFlagInheritedOnFork := by
  rcases List.mem_append.mp hx with hx | hx
  · obtain ⟨block, -, rfl⟩ := List.mem_map.mp hx
    exact .inr (.inr rfl)
  · obtain ⟨own, -, rfl⟩ := List.mem_map.mp hx
    rw [ownMark]
    split
    · exact .inl rfl
    · exact .inr (.inl rfl)

def Reported (flags : UInt32) : Bool :=
  flags &&& mdescFlagInheritedOnFork = 0 ∧ flags &&& mdescFlagTransitionEntry = 0

theorem Life.leaks_eq (life : Life) :
    life.leaks = life.marked.countP fun x => Reported x.1 := by
  have hown : ∀ own : Bool × MallocDesc, Reported (ownMark own).1 = own.1 := by
    rintro ⟨executing, block⟩
    cases executing with
    | false => exact show Reported mdescFlagTransitionEntry = false by decide
    | true => exact show Reported 0 = true by decide
  have hinherited : (((life.inherited.filter fun block =>
      life.events.all (LifeEvent.spares block)).map
        (Prod.mk mdescFlagInheritedOnFork)).countP fun x => Reported x.1) = 0 := by
    refine List.countP_eq_zero.mpr fun x hx => ?_
    obtain ⟨block, -, rfl⟩ := List.mem_map.mp hx
    exact show ¬Reported mdescFlagInheritedOnFork = true by decide
  rw [Life.marked, List.countP_append, hinherited, Nat.zero_add, List.countP_map, Life.leaks]
  exact List.countP_congr fun own _ => by simp [hown]

end Lives

end Handlers

open Handlers

section Maps

variable {τ : Type} {allocs : RangeTree MallocDescEx τ} {map : τ}

theorem Blocks.tail {first : MallocDescEx} {rest : List MallocDescEx} (h : Blocks (first :: rest)) :
    Blocks rest :=
  ⟨h.apart.sublist (List.sublist_cons_self first rest),
    fun e he => h.valid e (List.mem_cons_of_mem first he)⟩

theorem Blocks.pullFirst (h : Blocks (allocs.entries map)) {first : MallocDescEx}
    {rest : List MallocDescEx} (hentries : allocs.entries map = first :: rest) :
    ∃ map', allocmapPullFirst allocs map = some (first, map') ∧ allocs.entries map' = rest := by
  have hpull : allocmapPullFirst allocs map = some (first, allocs.remove map first) := by
    rw [allocmapPullFirst, Memcheck.pullFirst, hentries]
    rfl
  obtain ⟨hfirst, hapart, hmem⟩ := pullFirst_eq_some h.apart hpull
  rw [hentries] at h
  refine ⟨_, hpull, hapart.eq_of_mem_iff h.tail.apart fun x => ?_⟩
  have hnew := (List.nodup_cons.mp h.apart.nodup).1
  rw [hmem, hentries, List.mem_cons]
  constructor
  · rintro ⟨hne, hx⟩
    exact hx.resolve_left hne
  · intro hx
    refine ⟨fun heq => hnew ?_, .inr hx⟩
    rw [← show x = first from heq]
    exact hx

theorem Blocks.leaksReported {l : List MallocDescEx} (h : Blocks l)
    (hentries : allocs.entries map = l) :
    leaksReported allocs l.length map = l.countP fun e => Reported e.flags := by
  induction l generalizing map with
  | nil => rfl
  | cons first rest ih =>
    obtain ⟨map', hpull, hrest⟩ := Blocks.pullFirst (hentries ▸ h) hentries
    have hleft := ih h.tail hrest
    rw [List.length_cons, Handlers.leaksReported, hpull, List.countP_cons]
    dsimp only
    rw [hleft]
    by_cases hreport : Reported first.flags = true
    · rw [if_pos hreport, if_pos (by simpa [Reported] using hreport)]
    · rw [if_neg hreport, if_neg (by simpa [Reported] using hreport)]
      rfl

theorem Blocks.allocmapEmpty {l : List MallocDescEx} (h : Blocks l)
    (hentries : allocs.entries map = l) :
    allocs.entries (allocmapEmpty allocs l.length map) = [] := by
  induction l generalizing map with
  | nil => exact hentries
  | cons first rest ih =>
    obtain ⟨map', hpull, hrest⟩ := Blocks.pullFirst (hentries ▸ h) hentries
    rw [List.length_cons, Handlers.allocmapEmpty, hpull]
    exact ih h.tail hrest

theorem Blocks.copied {l : List MallocDescEx} (hl : Blocks l) (h : Blocks (allocs.entries map))
    (hfree : ∀ e ∈ l, ∀ x ∈ allocs.entries map, ¬Overlaps e x) :
    (Memcheck.allocmapCopy allocs mdescFlagInheritedOnFork mdescFlagTransitionEntry l map).1 = 0 ∧
      ∀ x, x ∈ allocs.entries
          (Memcheck.allocmapCopy allocs mdescFlagInheritedOnFork mdescFlagTransitionEntry l map).2 ↔
        x ∈ l.map inheritedCopy ∨ x ∈ allocs.entries map := by
  induction l generalizing map with
  | nil => exact ⟨rfl, fun x => by simp [Memcheck.allocmapCopy]⟩
  | cons entry rest ih =>
    have hvalid : (inheritedCopy entry).mallocDesc.Valid := hl.valid entry List.mem_cons_self
    have hnone : ∀ x ∈ allocs.entries map, ¬Overlaps (inheritedCopy entry) x :=
      hfree entry List.mem_cons_self
    obtain ⟨hresult, hapart, hmem⟩ := insertDesc_of_free h.apart hvalid.proper hnone false
    have hnext := h.insertDesc hvalid false
    obtain ⟨hdone, hcopied⟩ := ih hl.tail hnext fun e he x hx => by
      rcases (hmem x).mp hx with rfl | hx
      · intro hov
        have heq := hl.apart.eq_of_overlaps (List.mem_cons_of_mem entry he) List.mem_cons_self hov
        exact (List.nodup_cons.mp hl.apart.nodup).1 (heq ▸ he)
      · exact hfree e (List.mem_cons_of_mem entry he) x hx
    have hstep : Memcheck.allocmapCopy allocs mdescFlagInheritedOnFork mdescFlagTransitionEntry
        (entry :: rest) map = Memcheck.allocmapCopy allocs mdescFlagInheritedOnFork
          mdescFlagTransitionEntry rest (Memcheck.insertDesc allocs map (inheritedCopy entry) false).map := by
      rw [Memcheck.allocmapCopy]
      split
      · rfl
      · next hother => exact absurd hresult hother
    rw [hstep]
    refine ⟨hdone, fun x => (hcopied x).trans ?_⟩
    rw [hmem, List.map_cons, List.mem_cons, or_left_comm, or_assoc]

variable (allocs) in
theorem Blocks.inherited {l : List MallocDescEx} (hl : Blocks l) :
    (Memcheck.allocmapCopy allocs mdescFlagInheritedOnFork mdescFlagTransitionEntry l allocs.empty).1 = 0 ∧
      allocs.entries (Memcheck.allocmapCopy allocs mdescFlagInheritedOnFork mdescFlagTransitionEntry l
        allocs.empty).2 = l.map inheritedCopy := by
  have hempty : Blocks (allocs.entries allocs.empty) := Blocks.empty
  obtain ⟨hdone, hmem⟩ := hl.copied hempty fun e _ x hx => by
    rw [allocs.entries_empty] at hx
    cases hx
  have hblocks := hempty.allocmapCopy mdescFlagInheritedOnFork mdescFlagTransitionEntry hl.valid
  refine ⟨hdone, hblocks.apart.eq_of_mem_iff (hl.apart.map (fun _ => rfl) fun _ => rfl) fun x => ?_⟩
  rw [hmem, allocs.entries_empty, or_iff_left List.not_mem_nil]

theorem Blocks.copies {l : List MallocDescEx} (hl : Blocks l) : Blocks (l.map inheritedCopy) := by
  refine ⟨hl.apart.map (fun _ => rfl) fun _ => rfl, fun x hx => ?_⟩
  obtain ⟨e, he, rfl⟩ := List.mem_map.mp hx
  exact hl.valid e he

theorem Blocks.inserted (h : Blocks (allocs.entries map)) {desc : MallocDescEx}
    (hd : desc.mallocDesc.Valid) (hfree : ∀ e ∈ allocs.entries map, ¬Overlaps desc e) :
    (allocs.entries (allocmapInsert allocs map desc true).map).Perm
      (desc :: allocs.entries map) := by
  obtain ⟨-, hapart, hmem⟩ := insertDesc_of_free h.apart hd.proper hfree true
  have hnew : desc ∉ allocs.entries map := fun hmem =>
    hfree desc hmem ⟨hd.proper, hd.proper⟩
  refine (List.perm_ext_iff_of_nodup hapart.nodup
    (List.nodup_cons.mpr ⟨hnew, h.apart.nodup⟩)).mpr fun x => ?_
  rw [List.mem_cons]
  exact hmem x

theorem Blocks.pulled (h : Blocks (allocs.entries map)) (adesc : MallocDescEx) (ptr : UInt32) :
    (allocs.entries (((allocmapPull allocs map adesc ptr).map Prod.snd).getD map)) =
      (allocs.entries map).filter fun e => LifeEvent.spares e.mallocDesc (.free ptr) := by
  have hq := valid_byte adesc ptr
  have hiff : ∀ e ∈ allocs.entries map, Overlaps (rangeDesc adesc ptr 1) e ↔
      ¬LifeEvent.spares e.mallocDesc (.free ptr) = true := fun e he => by
    rw [hq.overlaps_iff (h.valid e he), total_rangeDesc, LifeEvent.spares, decide_eq_true_iff,
      not_not]
    exact Iff.rfl
  have hpoint : first (rangeDesc adesc ptr 1) = last (rangeDesc adesc ptr 1) := by
    rw [hq.last_eq, total_rangeDesc]
    exact (Nat.add_sub_cancel ..).symm
  have hkept : Apart ((allocs.entries map).filter fun e =>
      LifeEvent.spares e.mallocDesc (.free ptr)) := h.apart.sublist List.filter_sublist
  cases hpull : allocmapPull allocs map adesc ptr with
  | none =>
    have hnone := (pull_eq_none_iff h.apart hq.proper).mp hpull
    refine (List.filter_eq_self.mpr fun e he => ?_).symm
    exact not_not.mp fun hnot => hnone e he ((hiff e he).mpr hnot)
  | some out =>
    obtain ⟨hmem, hov, hapart, hrest⟩ := pull_eq_some h.apart hq.proper hpull
    refine hapart.eq_of_mem_iff hkept fun x => ?_
    rw [hrest, List.mem_filter, and_comm]
    refine and_congr_right fun hx => ?_
    rw [← not_iff_not, not_not, ← hiff x hx]
    constructor
    · rintro rfl
      exact hov
    · intro hovx
      refine h.apart.eq_of_overlaps hx hmem ⟨?_, ?_⟩
      · exact hovx.2.trans (hpoint.symm.le.trans hov.1)
      · exact hov.2.trans (hpoint.symm.le.trans hovx.1)

end Maps

section Processes

variable {τ υ : Type} {allocs : RangeTree MallocDescEx τ} {ranges : RangeTree (MMRangeDesc CString) υ}
  {p : ProcDesc τ υ} {life : Life}

def mark (entry : MallocDescEx) : UInt32 × MallocDesc := (entry.flags, entry.mallocDesc)

variable (allocs ranges) in
/-- A process is as its life says: its state, and its blocks with their flags. -/
structure ProcExact (p : ProcDesc τ υ) (life : Life) : Prop where
  blocks : Blocks (allocs.entries p.allocMap)
  noRanges : ranges.entries p.mmrangeMap = []
  executing : p.isExecuting ↔ .exec ∈ life.events
  marked : ((allocs.entries p.allocMap).map mark).Perm life.marked

theorem isExecuting_or (p : ProcDesc τ υ) (flags : UInt32) :
    ({ p with flags := p.flags ||| flags } : ProcDesc τ υ).isExecuting ↔
      p.isExecuting ∨ flags &&& procFlagExecuting ≠ 0 := by
  have hor : (p.flags ||| flags) &&& procFlagExecuting =
      p.flags &&& procFlagExecuting ||| flags &&& procFlagExecuting :=
    UInt32.toBitVec_inj.mp BitVec.and_or_distrib_right
  rw [ProcDesc.isExecuting, ProcDesc.isExecuting, decide_eq_true_iff, decide_eq_true_iff, hor,
    Ne, UInt32.or_eq_zero_iff, not_and_or]

theorem ProcExact.congr {p' : ProcDesc τ υ} (h : ProcExact allocs ranges p life)
    (hmap : p'.allocMap = p.allocMap) (hranges : p'.mmrangeMap = p.mmrangeMap)
    (hexec : p'.isExecuting ↔ p.isExecuting) : ProcExact allocs ranges p' life where
  blocks := hmap ▸ h.blocks
  noRanges := hranges ▸ h.noRanges
  executing := hexec.trans h.executing
  marked := hmap ▸ h.marked

namespace ProcExact

variable (h : ProcExact allocs ranges p life)
include h

theorem leaksReported : leaksReported allocs (allocs.entries p.allocMap).length p.allocMap =
    life.leaks := by
  rw [h.blocks.leaksReported rfl, life.leaks_eq, ← h.marked.countP_eq, List.countP_map]
  rfl

theorem live : ((allocs.entries p.allocMap).map (·.mallocDesc)).Perm life.live := by
  rw [life.live_eq]
  have hperm := h.marked.map Prod.snd
  rwa [List.map_map] at hperm

theorem alloc {block : MallocDesc} (hvalid : block.Valid)
    (hfree : ∀ b ∈ life.live, ¬b.Intersects block.ptr.toNat block.total)
    (callStack : List UInt32) : ProcExact allocs ranges
      { p with allocMap := (allocmapInsert allocs p.allocMap
        { mallocDesc := block
          callStack
          flags := if p.isExecuting then 0 else mdescFlagTransitionEntry } true).map }
      (life.add (.alloc block)) := by
  have hapart : ∀ e ∈ allocs.entries p.allocMap, ¬Overlaps (ε := MallocDescEx)
      ⟨block, callStack, if p.isExecuting then 0 else mdescFlagTransitionEntry⟩ e := by
    intro e he hov
    rw [MallocDesc.Valid.overlaps_iff hvalid (h.blocks.valid e he)] at hov
    exact hfree e.mallocDesc (h.live.subset (List.mem_map_of_mem he)) hov
  constructor
  · exact h.blocks.insertDesc hvalid true
  · exact h.noRanges
  · rw [Life.add, List.mem_append, or_iff_left (by simp)]
    exact h.executing
  · refine ((h.blocks.inserted hvalid hapart).map mark).trans ?_
    rw [Life.marked_add, List.map_cons]
    refine List.Perm.trans ?_ List.perm_append_comm
    have hmark : ownMark (decide (.exec ∈ life.events), block) =
        (if p.isExecuting then 0 else mdescFlagTransitionEntry, block) := by
      simp only [ownMark, decide_eq_true_iff, h.executing]
    rw [LifeEvent.born, List.map_singleton, hmark, List.singleton_append]
    exact List.Perm.cons _
      (h.marked.trans (List.Perm.of_eq (List.filter_eq_self.mpr fun _ _ => rfl).symm))

theorem free (adesc : MallocDescEx) (ptr : UInt32) {map : τ}
    (hmap : map = ((allocmapPull allocs p.allocMap adesc ptr).map Prod.snd).getD p.allocMap) :
    ProcExact allocs ranges { p with allocMap := map } (life.add (.free ptr)) := by
  have hpulled := h.blocks.pulled adesc ptr
  rw [← hmap] at hpulled
  constructor
  · change Blocks (allocs.entries map)
    rw [hpulled]
    exact ⟨h.blocks.apart.sublist List.filter_sublist,
      fun e he => h.blocks.valid e (List.mem_of_mem_filter he)⟩
  · exact h.noRanges
  · rw [Life.add, List.mem_append, or_iff_left (by simp)]
    exact h.executing
  · change ((allocs.entries map).map mark).Perm _
    rw [hpulled, Life.marked_add, LifeEvent.born, List.map_nil, List.append_nil]
    refine List.Perm.trans (List.Perm.of_eq ?_) (h.marked.filter _)
    rw [List.filter_map]
    rfl

theorem libcInit : ProcExact allocs ranges
    { p with
      flags := p.flags ||| procFlagLibcInitialized
      allocMap := allocmapEmpty allocs (allocs.entries p.allocMap).length p.allocMap }
    (life.add .libcInit) := by
  have hempty := h.blocks.allocmapEmpty rfl
  constructor
  · change Blocks (allocs.entries (allocmapEmpty allocs _ p.allocMap))
    rw [hempty]
    exact ⟨Apart.nil, List.forall_mem_nil _⟩
  · exact h.noRanges
  · rw [Life.add, List.mem_append, or_iff_left (by simp), ← h.executing]
    exact (isExecuting_or p _).trans (or_iff_left (by decide))
  · change ((allocs.entries (allocmapEmpty allocs _ p.allocMap)).map mark).Perm _
    have hgone : life.marked.filter (fun x => LifeEvent.spares x.2 .libcInit) = [] :=
      List.filter_eq_nil_iff.mpr fun _ _ => Bool.false_ne_true
    rw [hempty, Life.marked_add, LifeEvent.born, hgone]
    exact List.Perm.nil

theorem exec {p' : ProcDesc τ υ} (hmap : p'.allocMap = p.allocMap)
    (hranges : ranges.entries p'.mmrangeMap = []) (hexec : p'.isExecuting) :
    ProcExact allocs ranges p' (life.add .exec) := by
  constructor
  · rw [hmap]
    exact h.blocks
  · exact hranges
  · refine iff_of_true hexec ?_
    rw [Life.add]
    exact List.mem_append_right _ (List.mem_singleton_self _)
  · rw [hmap, Life.marked_add, LifeEvent.born, List.map_nil, List.append_nil]
    exact h.marked.trans (List.Perm.of_eq (List.filter_eq_self.mpr fun _ _ => rfl).symm)

theorem child {p' : ProcDesc τ υ}
    (hmap : allocs.entries p'.allocMap = (allocs.entries p.allocMap).map inheritedCopy)
    (hranges : ranges.entries p'.mmrangeMap = []) (hexec : ¬p'.isExecuting) :
    ProcExact allocs ranges p' ⟨life.live, []⟩ := by
  have hcopy : ∀ flags : UInt32, flags = 0 ∨ flags = mdescFlagTransitionEntry ∨
      flags = mdescFlagInheritedOnFork →
      flags &&& ~~~mdescFlagTransitionEntry ||| mdescFlagInheritedOnFork =
        mdescFlagInheritedOnFork := by
    rintro flags (rfl | rfl | rfl) <;> decide
  constructor
  · rw [hmap]
    exact h.blocks.copies
  · exact hranges
  · exact iff_of_false hexec List.not_mem_nil
  · have hlive : (⟨life.live, []⟩ : Life).marked =
        life.marked.map fun x => (mdescFlagInheritedOnFork, x.2) := by
      rw [Life.marked, survivors, List.map_nil, List.append_nil, List.filter_eq_self.mpr
        fun _ _ => List.all_nil, life.live_eq, List.map_map]
      rfl
    rw [hlive, hmap]
    refine List.Perm.trans (List.Perm.of_eq ?_) (h.marked.map _)
    rw [List.map_map, List.map_map]
    refine List.map_congr_left fun e he => ?_
    have hflags := life.flags_of_marked (h.marked.subset (List.mem_map_of_mem he))
    exact Prod.ext (hcopy e.flags hflags) rfl

end ProcExact

theorem procExact_empty {p : ProcDesc τ υ} (hmap : allocs.entries p.allocMap = [])
    (hranges : ranges.entries p.mmrangeMap = []) (hexec : ¬p.isExecuting) :
    ProcExact allocs ranges p ⟨[], []⟩ where
  blocks := by
    rw [hmap]
    exact ⟨Apart.nil, List.forall_mem_nil _⟩
  noRanges := hranges
  executing := iff_of_false hexec List.not_mem_nil
  marked := by
    rw [hmap]
    exact List.Perm.nil

end Processes

end M2M.Memcheck
