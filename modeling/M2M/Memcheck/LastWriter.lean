import M2M.Memcheck.MMRangeMap

/-! The calls that cut at most one entry keep the map what the last of them left at every
address. -/

open M2M.Lib M2M.Lib.Ranged

namespace M2M.Memcheck

variable {Path : Type}

namespace MMRangeDesc

variable {e e' : MMRangeDesc Path}

def Nonempty (e : MMRangeDesc Path) : Prop := e.mapStart < e.mapEnd

def Covers (e : MMRangeDesc Path) (a : UInt32) : Prop := e.mapStart ≤ a ∧ a < e.mapEnd

def shown (e : MMRangeDesc Path) (a : UInt32) : Path × UInt32 := (e.path, e.getModuleOffset a)

theorem Nonempty.last_eq (h : e.Nonempty) : last e = e.mapEnd.toNat - 1 := by
  change (e.mapEnd - 1).toNat = _
  have hlt := UInt32.lt_iff_toNat_lt.mp h
  rw [UInt32.toNat_sub_of_le _ _ (UInt32.le_iff_toNat_le.mpr ?_)]
  · rfl
  · change 1 ≤ _
    omega

theorem Nonempty.proper (h : e.Nonempty) : Proper e := by
  have hlt := UInt32.lt_iff_toNat_lt.mp h
  unfold Proper
  rw [h.last_eq]
  change e.mapStart.toNat ≤ _
  omega

theorem Nonempty.overlaps_iff (h : e.Nonempty) (h' : e'.Nonempty) :
    Overlaps e e' ↔ ∃ a, e.Covers a ∧ e'.Covers a := by
  have hlt := UInt32.lt_iff_toNat_lt.mp h
  have hlt' := UInt32.lt_iff_toNat_lt.mp h'
  unfold Overlaps Covers
  rw [h.last_eq, h'.last_eq]
  change e.mapStart.toNat ≤ _ ∧ e'.mapStart.toNat ≤ _ ↔ _
  simp only [UInt32.le_iff_toNat_le, UInt32.lt_iff_toNat_lt]
  constructor
  · rintro ⟨hstart, hstart'⟩
    rcases Nat.le_total e.mapStart.toNat e'.mapStart.toNat with hle | hle
    · exact ⟨e'.mapStart, by omega⟩
    · exact ⟨e.mapStart, by omega⟩
  · rintro ⟨a, ha, ha'⟩
    omega

theorem Nonempty.overlaps_address_iff (h : e.Nonempty) (rdesc : MMRangeDesc Path) (a : UInt32) :
    Overlaps { rdesc with mapStart := a, mapEnd := a + 1 } e ↔ e.Covers a := by
  have hlt := UInt32.lt_iff_toNat_lt.mp h
  unfold Overlaps Covers
  rw [h.last_eq, UInt32.le_iff_toNat_le, UInt32.lt_iff_toNat_lt]
  change a.toNat ≤ _ ∧ e.mapStart.toNat ≤ (a + 1 - 1).toNat ↔ _
  rw [UInt32.add_sub_cancel]
  omega

theorem proper_address (rdesc : MMRangeDesc Path) (a : UInt32) :
    Proper { rdesc with mapStart := a, mapEnd := a + 1 } := by
  change a.toNat ≤ (a + 1 - 1).toNat
  exact Nat.le_of_eq (congrArg UInt32.toNat (UInt32.add_sub_cancel a 1).symm)

end MMRangeDesc

open MMRangeDesc

def Shows (l : List (MMRangeDesc Path)) (a : UInt32) (out : Path × UInt32) : Prop :=
  ∃ e ∈ l, e.Covers a ∧ e.shown a = out

structure Sound (l : List (MMRangeDesc Path)) : Prop where
  apart : Apart l
  nonempty : ∀ e ∈ l, e.Nonempty

section Entries

variable {l : List (MMRangeDesc Path)} {e : MMRangeDesc Path} {a : UInt32} {out : Path × UInt32}

theorem Sound.free (h : Sound l) (he : e.Nonempty) (hfree : ∀ a out, Shows l a out → ¬e.Covers a) :
    ∀ e' ∈ l, ¬Overlaps e e' := by
  intro e' he' hov
  obtain ⟨a, ha, ha'⟩ := (he.overlaps_iff (h.nonempty e' he')).mp hov
  exact hfree a _ ⟨e', he', ha', rfl⟩ ha

theorem Sound.eq_of_covers (h : Sound l) {e' : MMRangeDesc Path} (he : e ∈ l) (he' : e' ∈ l)
    (ha : e.Covers a) (ha' : e'.Covers a) : e = e' :=
  h.apart.eq_of_overlaps he he'
    (((h.nonempty e he).overlaps_iff (h.nonempty e' he')).mpr ⟨a, ha, ha'⟩)

end Entries

/-- The entries `l'` are what the range of a call leaves of `l`. -/
structure Cleared (call : MapCall Path) (l l' : List (MMRangeDesc Path)) : Prop where
  sound : Sound l'
  shows : ∀ a out, Shows l' a out ↔ ¬call.Contains a ∧ Shows l a out

/-- The entries `l` are one entry and the entries `l'`, which are outside of it and of the range
of a call. -/
structure Pulled (call : MapCall Path) (desc : MMRangeDesc Path)
    (l l' : List (MMRangeDesc Path)) : Prop where
  sound : Sound l'
  nonempty : desc.Nonempty
  shows : ∀ a out, Shows l a out ↔ desc.Covers a ∧ desc.shown a = out ∨ Shows l' a out
  outside : ∀ a out, Shows l' a out → ¬desc.Covers a ∧ ¬call.Contains a

section Calls

variable {τ : Type} {tree : RangeTree (MMRangeDesc Path) τ} {map : τ} {call : MapCall Path}
  {l : List (MMRangeDesc Path)} {desc : MMRangeDesc Path}

theorem insertDesc_shows (h : Sound (tree.entries map)) (hd : desc.Nonempty)
    (hfree : ∀ a out, Shows (tree.entries map) a out → ¬desc.Covers a) (replace : Bool) :
    Sound (tree.entries (insertDesc tree map desc replace).map) ∧
      ∀ a out, Shows (tree.entries (insertDesc tree map desc replace).map) a out ↔
        desc.Covers a ∧ desc.shown a = out ∨ Shows (tree.entries map) a out := by
  obtain ⟨-, hapart, hmem⟩ :=
    insertDesc_of_free h.apart hd.proper (h.free hd hfree) replace
  refine ⟨⟨hapart, fun e he => ?_⟩, fun a out => ?_⟩
  · rcases (hmem e).mp he with rfl | he
    · exact hd
    · exact h.nonempty e he
  · simp only [Shows, hmem, or_and_right, exists_or, exists_eq_left]

theorem MapCall.query_nonempty : call.query.Nonempty := call.lt

theorem Cleared.free {l' : List (MMRangeDesc Path)} (h : Cleared call l l') :
    ∀ a out, Shows l' a out → ¬call.query.Covers a :=
  fun a out hshows => ((h.shows a out).mp hshows).1

theorem Pulled.inside {l' : List (MMRangeDesc Path)} (h : Pulled call desc l l')
    (hin : call.Inside desc) : Cleared call l l' := by
  refine ⟨h.sound, fun a out => ⟨fun hshows => ?_, ?_⟩⟩
  · exact ⟨(h.outside a out hshows).2, (h.shows a out).mpr (.inr hshows)⟩
  · rintro ⟨hout, hshows⟩
    rcases (h.shows a out).mp hshows with ⟨hcovers, -⟩ | hshows
    · exact absurd ⟨UInt32.le_trans hin.1 hcovers.1, UInt32.lt_of_lt_of_le hcovers.2 hin.2⟩ hout
    · exact hshows

theorem Pulled.piece (h : Pulled call desc l (tree.entries map)) {piece : MMRangeDesc Path}
    (hp : piece.Nonempty) (hcovers : ∀ a, piece.Covers a ↔ ¬call.Contains a ∧ desc.Covers a)
    (hshown : ∀ a, piece.shown a = desc.shown a) :
    Cleared call l (tree.entries (insertDesc tree map piece false).map) := by
  have hfree : ∀ a out, Shows (tree.entries map) a out → ¬piece.Covers a :=
    fun a out hshows hcov => (h.outside a out hshows).1 ((hcovers a).mp hcov).2
  obtain ⟨hsound, hshows⟩ := insertDesc_shows h.sound hp hfree false
  refine ⟨hsound, fun a out => ?_⟩
  have houtside := h.outside a out
  rw [hshows, h.shows, hcovers, hshown]
  tauto

theorem Pulled.pieces (h : Pulled call desc l (tree.entries map)) {head tail : MMRangeDesc Path}
    (hhead : head.Nonempty) (htail : tail.Nonempty) (hapart : ∀ a, head.Covers a → ¬tail.Covers a)
    (hcovers : ∀ a, head.Covers a ∨ tail.Covers a ↔ ¬call.Contains a ∧ desc.Covers a)
    (hshown : ∀ a, head.shown a = desc.shown a) (hshown' : ∀ a, tail.shown a = desc.shown a) :
    Cleared call l
      (tree.entries (insertDesc tree (insertDesc tree map tail false).map head false).map) := by
  have hfree : ∀ a out, Shows (tree.entries map) a out → ¬(head.Covers a ∨ tail.Covers a) :=
    fun a out hshows hcov => (h.outside a out hshows).1 ((hcovers a).mp hcov).2
  obtain ⟨hsound, hshows⟩ := insertDesc_shows h.sound htail
    (fun a out hs hcov => hfree a out hs (.inr hcov)) false
  have hfree' : ∀ a out, Shows (tree.entries (insertDesc tree map tail false).map) a out →
      ¬head.Covers a := by
    intro a out hs hcov
    rcases (hshows a out).mp hs with ⟨hcov', -⟩ | hs
    · exact hapart a hcov hcov'
    · exact hfree a out hs (.inl hcov)
  obtain ⟨hsound', hshows'⟩ := insertDesc_shows hsound hhead hfree' false
  refine ⟨hsound', fun a out => ?_⟩
  have houtside := h.outside a out
  have hcov := hcovers a
  rw [hshows', hshows, h.shows, hshown, hshown']
  tauto

end Calls

section Run

variable {τ : Type} {tree : RangeTree (MMRangeDesc Path) τ} {map : τ} {call : MapCall Path}
  {calls : List (MapCall Path)}

theorem cleared_of_free {l : List (MMRangeDesc Path)} (h : Sound l)
    (hfree : ∀ e ∈ l, ¬Overlaps call.query e) : Cleared call l l := by
  refine ⟨h, fun a out => ⟨fun hshows => ⟨fun hcontains => ?_, hshows⟩, And.right⟩⟩
  obtain ⟨e, he, hcovers, -⟩ := hshows
  exact hfree e he
    ((call.query_nonempty.overlaps_iff (h.nonempty e he)).mpr ⟨a, hcontains, hcovers⟩)

theorem pulled_of_unique (h : Sound (tree.entries map)) {out : MMRangeDesc Path × τ}
    (hpull : pull tree map call.query = some out)
    (hunique : ∀ e ∈ tree.entries map, Overlaps call.query e → e = out.1) :
    Pulled call out.1 (tree.entries map) (tree.entries out.2) := by
  obtain ⟨hdesc, -, hapart, hmem⟩ := pull_eq_some h.apart call.query_nonempty.proper hpull
  have hold : ∀ e ∈ tree.entries out.2, e ∈ tree.entries map := fun e he => ((hmem e).mp he).2
  refine ⟨⟨hapart, fun e he => h.nonempty e (hold e he)⟩, h.nonempty _ hdesc, ?_, ?_⟩
  · intro a shown
    constructor
    · rintro ⟨e, he, hshown⟩
      by_cases heq : e = out.1
      · exact .inl (heq ▸ hshown)
      · exact .inr ⟨e, (hmem e).mpr ⟨heq, he⟩, hshown⟩
    · rintro (hshown | ⟨e, he, hshown⟩)
      · exact ⟨out.1, hdesc, hshown⟩
      · exact ⟨e, hold e he, hshown⟩
  · rintro a shown ⟨e, he, hcovers, -⟩
    obtain ⟨hne, he⟩ := (hmem e).mp he
    refine ⟨fun hcovers' => hne (h.eq_of_covers he hdesc hcovers hcovers'), fun hcontains => ?_⟩
    have hov := (call.query_nonempty.overlaps_iff (h.nonempty e he)).mpr ⟨a, hcontains, hcovers⟩
    exact hne (hunique e he hov)

theorem offset_moved (start start' execOffset a : UInt32) :
    a - start' + (execOffset + (start' - start)) = a - start + execOffset := by
  grind

theorem cleared_memcheckUnmap (h : Sound (tree.entries map)) (hcut : OneCut tree map call) :
    Cleared call (tree.entries map)
      (tree.entries (memcheckUnmap tree map call.rdesc call.vstart call.vend)) := by
  unfold memcheckUnmap
  rw [← MapCall.query]
  cases hpull : pull tree map call.query with
  | none => exact cleared_of_free h ((pull_eq_none_iff h.apart call.query_nonempty.proper).mp hpull)
  | some out =>
    obtain ⟨hdesc, hov, -⟩ := pull_eq_some h.apart call.query_nonempty.proper hpull
    obtain ⟨hcuts, hunique⟩ := hcut out.1 hdesc hov
    have hpulled := pulled_of_unique h hpull hunique
    have hlt := call.lt
    have hne : out.1.mapStart < out.1.mapEnd := hpulled.nonempty
    obtain ⟨desc, rest⟩ := out
    dsimp only at hcuts hpulled hne ⊢
    unfold MapCall.Cuts MapCall.Inside at hcuts
    split_ifs with hin hstart hend
    · exact hpulled.inside hin
    · refine hpulled.piece ?_ (fun a => ?_) (fun a => ?_)
      · unfold MMRangeDesc.Nonempty
        grind
      · unfold Covers MapCall.Contains
        grind
      · exact Prod.ext rfl (offset_moved ..)
    · refine hpulled.piece ?_ (fun a => ?_) (fun a => rfl)
      · unfold MMRangeDesc.Nonempty
        grind
      · unfold Covers MapCall.Contains
        grind
    · refine hpulled.pieces ?_ ?_ (fun a => ?_) (fun a => ?_) (fun a => rfl) (fun a => ?_)
      · unfold MMRangeDesc.Nonempty
        grind
      · unfold MMRangeDesc.Nonempty
        grind
      · unfold Covers
        grind
      · unfold Covers MapCall.Contains
        grind
      · refine Prod.ext rfl (Eq.trans ?_ (offset_moved desc.mapStart call.vend desc.execOffset a))
        exact congrArg (a - call.vend + ·) (UInt32.add_comm _ _)

/-- What an mmap leaves at every address. -/
structure Mapped (call : MapCall Path) (desc : MMRangeDesc Path)
    (l l' : List (MMRangeDesc Path)) : Prop where
  sound : Sound l'
  shows : ∀ a out, Shows l' a out ↔
    call.Contains a ∧ desc.shown a = out ∨ ¬call.Contains a ∧ Shows l a out

theorem mapped_of_cleared {l : List (MMRangeDesc Path)} (h : Cleared call l (tree.entries map))
    {desc : MMRangeDesc Path} (hstart : desc.mapStart = call.vstart)
    (hend : desc.mapEnd = call.vend) :
    Mapped call desc l (tree.entries (insertDesc tree map desc true).map) := by
  have hcovers : ∀ a, desc.Covers a ↔ call.Contains a := fun a => by
    rw [Covers, hstart, hend]
    exact Iff.rfl
  have hdesc : desc.Nonempty := by
    rw [MMRangeDesc.Nonempty, hstart, hend]
    exact call.lt
  obtain ⟨hsound, hshows⟩ := insertDesc_shows h.sound hdesc
    (fun a out hs hcov => ((h.shows a out).mp hs).1 ((hcovers a).mp hcov)) true
  refine ⟨hsound, fun a out => ?_⟩
  rw [hshows, hcovers, h.shows]

theorem mapped_of_mem {l l' : List (MMRangeDesc Path)} (h : Sound l) (hapart : Apart l')
    {desc : MMRangeDesc Path} (hstart : desc.mapStart = call.vstart)
    (hend : desc.mapEnd = call.vend)
    (hmem : ∀ x, x ∈ l' ↔ x = desc ∨ x ∈ l ∧ ¬Overlaps call.query x)
    (hinside : ∀ e ∈ l, Overlaps call.query e → call.Inside e) : Mapped call desc l l' := by
  have hcovers : ∀ a, desc.Covers a ↔ call.Contains a := fun a => by
    rw [Covers, hstart, hend]
    exact Iff.rfl
  have hfree : ∀ e ∈ l, ∀ a, e.Covers a → (¬Overlaps call.query e ↔ ¬call.Contains a) := by
    intro e he a ha
    rw [not_iff_not]
    constructor
    · intro hov
      obtain ⟨hge, hle⟩ := hinside e he hov
      exact ⟨UInt32.le_trans hge ha.1, UInt32.lt_of_lt_of_le ha.2 hle⟩
    · intro hcontains
      exact (call.query_nonempty.overlaps_iff (h.nonempty e he)).mpr ⟨a, hcontains, ha⟩
  refine ⟨⟨hapart, fun e he => ?_⟩, fun a out => ?_⟩
  · rcases (hmem e).mp he with rfl | ⟨he, -⟩
    · rw [MMRangeDesc.Nonempty, hstart, hend]
      exact call.lt
    · exact h.nonempty e he
  · simp only [Shows, hmem, or_and_right, exists_or, exists_eq_left, hcovers]
    refine or_congr_right ⟨?_, ?_⟩
    · rintro ⟨e, ⟨he, hov⟩, hcov, hshown⟩
      exact ⟨(hfree e he a hcov).mp hov, e, he, hcov, hshown⟩
    · rintro ⟨hout, e, he, hcov, hshown⟩
      exact ⟨e, ⟨he, (hfree e he a hcov).mpr hout⟩, hcov, hshown⟩

theorem mapped_of_twoInside (h : Sound (tree.entries map)) (htwo : TwoInside tree map call)
    {out : MMRangeDesc Path × τ} (hpull : pull tree map call.query = some out)
    {desc : MMRangeDesc Path} (hstart : desc.mapStart = call.vstart)
    (hend : desc.mapEnd = call.vend) :
    Mapped call desc (tree.entries map) (tree.entries (insertDesc tree out.2 desc true).map) := by
  obtain ⟨e₁, e₂, htwo⟩ := htwo
  obtain ⟨hout, hov, hapart, hmem⟩ := pull_eq_some h.apart call.query_nonempty.proper hpull
  have hdesc : desc.Nonempty := by
    rw [MMRangeDesc.Nonempty, hstart, hend]
    exact call.lt
  have hsame : ∀ e, Overlaps desc e ↔ Overlaps call.query e := fun e => by
    change desc.mapStart.toNat ≤ _ ∧ _ ≤ (desc.mapEnd - 1).toNat ↔ _
    rw [hstart, hend]
    exact Iff.rfl
  by_cases hfree : ∀ e ∈ tree.entries out.2, ¬Overlaps desc e
  · obtain ⟨-, hapart', hmem'⟩ := insertDesc_of_free hapart hdesc.proper hfree true
    refine mapped_of_mem h hapart' hstart hend (fun x => ?_) fun e he hov => (htwo e he hov).1
    rw [hmem']
    grind
  · obtain ⟨e, he, hov', -, -, hapart', hmem'⟩ := insertDesc_replace hapart hdesc.proper
      (by simpa using hfree)
    refine mapped_of_mem h hapart' hstart hend (fun x => ?_) fun e he hov => (htwo e he hov).1
    rw [hmem']
    grind

theorem memcheckUnmap_of_pull {out : MMRangeDesc Path × τ}
    (hpull : pull tree map call.query = some out) (hin : call.Inside out.1) :
    memcheckUnmap tree map call.rdesc call.vstart call.vend = out.2 := by
  unfold memcheckUnmap
  rw [← MapCall.query, hpull]
  exact if_pos hin

theorem mapped_memcheckMmapExepath (h : Sound (tree.entries map))
    (hfits : OneCut tree map call ∨ TwoInside tree map call) (execOffset : UInt32) (path : Path) :
    Mapped call ⟨call.vstart, call.vend, execOffset, path⟩ (tree.entries map)
      (tree.entries
        (memcheckMmapExepath tree map call.rdesc call.vstart call.vend execOffset path)) := by
  unfold memcheckMmapExepath
  rcases hfits with hcut | htwo
  · exact mapped_of_cleared (cleared_memcheckUnmap h hcut) rfl rfl
  · cases hpull : pull tree map call.query with
    | none =>
      have hfree := (pull_eq_none_iff h.apart call.query_nonempty.proper).mp hpull
      have hcut : OneCut tree map call := fun e he hov => absurd hov (hfree e he)
      exact mapped_of_cleared (cleared_memcheckUnmap h hcut) rfl rfl
    | some out =>
      obtain ⟨hout, hov, -⟩ := pull_eq_some h.apart call.query_nonempty.proper hpull
      have hin : call.Inside out.1 := by
        obtain ⟨_, _, htwo⟩ := htwo
        exact (htwo out.1 hout hov).1
      rw [memcheckUnmap_of_pull hpull hin]
      exact mapped_of_twoInside h htwo hpull rfl rfl

theorem lastShown_append (call : MapCall Path) (a : UInt32) :
    lastShown (calls ++ [call]) a =
      if call.Contains a then call.shown a else lastShown calls a := by
  unfold lastShown
  rw [List.reverse_append, List.reverse_singleton, List.singleton_append, List.find?_cons]
  by_cases hcontains : call.Contains a
  · simp [hcontains]
  · simp [hcontains]

/-- The entries show at every address what the last call left there. -/
structure Current (tree : RangeTree (MMRangeDesc Path) τ) (map : τ)
    (calls : List (MapCall Path)) : Prop where
  sound : Sound (tree.entries map)
  shows : ∀ a out, Shows (tree.entries map) a out ↔ lastShown calls a = some out

theorem Current.empty : Current tree tree.empty [] := by
  refine ⟨?_, fun a out => ?_⟩
  · rw [tree.entries_empty]
    exact ⟨Apart.nil, List.forall_mem_nil _⟩
  · simp [Shows, tree.entries_empty, lastShown]

theorem Current.step (h : Current tree map calls) (hfits : MapFits tree map call) :
    Current tree (mapStep tree map call) (calls ++ [call]) := by
  unfold mapStep
  cases hmapped : call.mapped with
  | none =>
    have hcut : OneCut tree map call := by
      rcases hfits with hcut | ⟨hsome, -⟩
      · exact hcut
      · rw [hmapped] at hsome
        cases hsome
    have hcleared := cleared_memcheckUnmap h.sound hcut
    refine ⟨hcleared.sound, fun a out => ?_⟩
    have hshown : call.shown a = none := by rw [MapCall.shown, hmapped]; rfl
    rw [hcleared.shows, h.shows, lastShown_append, hshown]
    split
    · next hcontains => simp [hcontains]
    · next hout => simp [hout]
  | some new =>
    obtain ⟨execOffset, path⟩ := new
    have hnew := mapped_memcheckMmapExepath h.sound (hfits.imp_right And.right) execOffset path
    refine ⟨hnew.sound, fun a out => ?_⟩
    have hshown : call.shown a = some (path, a - call.vstart + execOffset) := by
      rw [MapCall.shown, hmapped]
      rfl
    rw [hnew.shows, h.shows, lastShown_append, hshown]
    split
    · next hcontains =>
      rw [and_iff_right hcontains, or_iff_left fun hboth => hboth.1 hcontains, Option.some_inj]
      exact Iff.rfl
    · next hout => simp [hout]

theorem Current.lastWriterWins (h : Current tree map calls) : LastWriterWins tree map calls := by
  have hnonempty := h.sound.nonempty
  refine ⟨hnonempty, ?_, fun rdesc a => ?_⟩
  · exact h.sound.apart.ordered.imp fun hlt hov => absurd hov.2 (Nat.not_le.mpr hlt)
  · cases hfind : findMapentry tree map rdesc a with
    | none =>
      have hfree := (tree.find_eq_none_iff h.sound.apart (proper_address rdesc a)).mp hfind
      refine Eq.symm (Option.eq_none_iff_forall_ne_some.mpr fun out hout => ?_)
      obtain ⟨e, he, hcovers, -⟩ := (h.shows a out).mpr hout
      exact hfree e he (((hnonempty e he).overlaps_address_iff rdesc a).mpr hcovers)
    | some e =>
      obtain ⟨he, hov⟩ := tree.overlaps_of_find h.sound.apart (proper_address rdesc a) hfind
      have hcovers := ((hnonempty e he).overlaps_address_iff rdesc a).mp hov
      exact Eq.symm ((h.shows a (e.shown a)).mp ⟨e, he, hcovers, rfl⟩)

/-- After a run of calls of which each fits the map, the last that contains an address tells what
is found there. -/
theorem lastWriterWins_of_fits (tree : RangeTree (MMRangeDesc Path) τ)
    (calls : List (MapCall Path))
    (hfits : Along (mapStep tree) (MapFits tree) tree.empty calls) :
    ∀ before, before <+: calls →
      LastWriterWins tree (before.foldl (mapStep tree) tree.empty) before := by
  intro before hbefore
  suffices h : Current tree (before.foldl (mapStep tree) tree.empty) before from h.lastWriterWins
  induction before using List.reverseRecOn with
  | nil => exact Current.empty
  | append_singleton before call ih =>
    rw [List.foldl_append]
    exact (ih ((List.prefix_append _ _).trans hbefore)).step (hfits before call hbefore)

end Run

section Fixed

def mmapCall (vstart vend : UInt32) (lt : vstart < vend) (execOffset : UInt32) (path : String) :
    MapCall String :=
  { vstart, vend, lt, mapped := some (execOffset, path), rdesc := ⟨0, 0, 0, ""⟩ }

def unmapCall (vstart vend : UInt32) (lt : vstart < vend) : MapCall String :=
  { vstart, vend, lt, mapped := none, rdesc := ⟨0, 0, 0, ""⟩ }

/-- A hole is cut, and then filled from the start of the module on. -/
theorem lastWriterWins_of_hole :
    let tree := RangeTree.onLists (ε := MMRangeDesc String)
    let calls := [mmapCall 0x8000 0x10000 (by decide) 0 "libc.so",
      unmapCall 0x9000 0xa000 (by decide), mmapCall 0x8000 0x10000 (by decide) 0x1000 "libm.so"]
    ∀ before, before <+: calls →
      LastWriterWins tree (before.foldl (mapStep tree) tree.empty) before := by
  refine lastWriterWins_of_fits RangeTree.onLists _ ?_
  rw [Along.cons_iff, Along.cons_iff, Along.cons_iff]
  refine ⟨.inl (by decide), .inl (by decide), .inr ⟨rfl, ?_⟩, Along.nil⟩
  exact ⟨⟨0x8000, 0x9000, 0, "libc.so"⟩, ⟨0xa000, 0x10000, 0x2000, "libc.so"⟩, by decide⟩

/-- Of two modules that are unmapped by one call one stays. -/
theorem unmapped_not_lastWriterWins :
    let tree := RangeTree.onLists (ε := MMRangeDesc String)
    let calls := [mmapCall 0x8000 0x9000 (by decide) 0 "libc.so",
      mmapCall 0x9000 0xa000 (by decide) 0 "libm.so", unmapCall 0x8000 0xa000 (by decide)]
    ¬LastWriterWins tree (calls.foldl (mapStep tree) tree.empty) calls := by
  intro tree calls h
  have hshows := h.shows ⟨0, 0, 0, ""⟩ 0x9800
  revert hshows
  decide

end Fixed

end M2M.Memcheck
