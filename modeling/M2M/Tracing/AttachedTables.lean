import M2M.Lib.SortedTable
import M2M.Tracing.Replay

/-! The ordered tables of object files and of dex files of a process, and the searches of the
events in them. -/

universe u

open M2M.Lib M2M.Lib.SortedTable

namespace M2M.Tracing.Attached

def maxObjTableSize : Nat := 256

def maxDexTableSize : Nat := 256

/-- `DexFile`, with `end` as `stop`. -/
structure DexFile where
  id : UInt16
  start : UInt32
  stop : UInt32
  deriving DecidableEq

/-- `SET_attach_obj` and `SET_attach_dex`, for a table of at most `max` items. -/
def attach {α : Type u} (start : α → Nat) (max : Nat) (table : SortedTable α) (x : α) :
    SortedTable α :=
  if table.size = max then table else table.insert start x

section Objs

def objStart (obj : Records.ObjFile) : Nat := obj.textStart.toNat

def objEnd (obj : Records.ObjFile) : Nat := obj.textEnd.toNat

def setAttachObj : SortedTable Records.ObjFile → Records.ObjFile → SortedTable Records.ObjFile :=
  attach objStart maxObjTableSize

/-- The object whose function table `SET_event_branch_user` goes on to search. -/
def branchUserObj (objTable : SortedTable Records.ObjFile) (targetAddr : UInt32) :
    Option Records.ObjFile :=
  objTable.find objStart objEnd targetAddr.toNat

end Objs

section Dexes

def dexStart (dex : DexFile) : Nat := dex.start.toNat

def dexEnd (dex : DexFile) : Nat := dex.stop.toNat

def setAttachDex : SortedTable DexFile → DexFile → SortedTable DexFile :=
  attach dexStart maxDexTableSize

/-- The dex file that `SET_event_method_entry` and `SET_event_method_exit` write about.  `insns`
is an `int` that is compared with the unsigned `start`. -/
def methodDex (dexTable : SortedTable DexFile) (insns : UInt32) : Option DexFile :=
  dexTable.find dexStart dexEnd insns.toNat

end Dexes

/-- The table holds the items that were attached, in the order of their starts.  If no address is
in the ranges of two of them, the search gives for every address the item with the address in its
range, exactly when no item that ends before it starts stands behind one that reaches up to that
start. -/
structure Ordered {α : Type u} (start stop : α → Nat) (search : UInt32 → Option α)
    (items : List α) (table : SortedTable α) : Prop where
  perm : table.toList.Perm items
  sorted : Sorted start table.toList
  search_iff : items.Pairwise (Apart start stop) →
    ((∀ addr x, search addr = some x ↔ x ∈ items ∧ Contains start stop x addr.toNat) ↔
      Unhidden start stop table.toList)

theorem lt_objStart_iff {addr : UInt32} {obj : Records.ObjFile} :
    addr.toNat < objStart obj ↔ addr < obj.textStart := UInt32.lt_iff_toNat_lt.symm

theorem covering_eq (item : Nat → Records.ObjFile) (targetAddr : UInt32) (rounds i : Nat) :
    Replay.covering targetAddr (item i) ((List.range' (i + 1) rounds).map item) =
      item (scan objStart item targetAddr.toNat rounds (i + 1) - 1) := by
  induction rounds generalizing i with
  | zero => rfl
  | succ rounds ih =>
    rw [List.range'_succ, List.map_cons, Replay.covering, scan]
    by_cases hlt : targetAddr < (item (i + 1)).textStart
    · rw [if_pos hlt, if_pos (lt_objStart_iff.mpr hlt), Nat.add_sub_cancel]
    · rw [if_neg hlt, if_neg fun h => hlt (lt_objStart_iff.mp h)]
      exact ih (i + 1)

theorem branchUserObj_eq (objTable : SortedTable Records.ObjFile) (targetAddr : UInt32) :
    branchUserObj objTable targetAddr = Replay.findObj targetAddr objTable.toList := by
  rw [branchUserObj, find, toList]
  cases hsize : objTable.size with
  | zero => rfl
  | succ size =>
    have hcovering : objTable.covering objStart targetAddr.toNat =
        Replay.covering targetAddr (objTable.item 0)
          ((List.range' (0 + 1) size).map objTable.item) := by
      rw [covering_eq, covering, hsize, Nat.add_sub_cancel]
    rw [if_neg (Nat.succ_ne_zero size), List.range_eq_range', List.range'_succ, List.map_cons,
      Replay.findObj, ← hcovering]
    by_cases hlt : targetAddr < (objTable.item 0).textStart
    · rw [if_pos (lt_objStart_iff.mpr hlt), if_neg (UInt32.not_le.mpr hlt)]
    · rw [if_neg fun h => hlt (lt_objStart_iff.mp h), if_pos (UInt32.not_lt.mp hlt)]
      rfl

section Generic

variable {α : Type u} {start stop : α → Nat} {max : Nat}

theorem attach_all (items : List α) (table : SortedTable α) (hsorted : Sorted start table.toList)
    (hroom : table.size + items.length ≤ max) :
    (items.foldl (attach start max) table).toList.Perm (items ++ table.toList) ∧
      Sorted start (items.foldl (attach start max) table).toList := by
  induction items generalizing table with
  | nil => exact ⟨.refl _, hsorted⟩
  | cons x items ih =>
    rw [List.length_cons] at hroom
    have hattach : attach start max table x = table.insert start x := if_neg (by omega)
    have hsize : (table.insert start x).size = table.size + 1 := rfl
    rw [List.foldl_cons, hattach]
    obtain ⟨hperm, hsorted'⟩ := ih (table.insert start x) (sorted_insert hsorted x)
      (by rw [hsize]; omega)
    refine ⟨hperm.trans ?_, hsorted'⟩
    exact ((perm_insert table x).append_left items).trans List.perm_middle

theorem ordered_of_attached {items : List α} {table : SortedTable α}
    (hperm : table.toList.Perm items) (hsorted : Sorted start table.toList)
    (hkey : ∀ x, ∃ addr : UInt32, addr.toNat = start x) :
    Ordered start stop (fun addr => table.find start stop addr.toNat) items table := by
  refine ⟨hperm, hsorted, fun hapart => ?_⟩
  have hsymm : ∀ {x y : α}, Apart start stop x y → Apart start stop y x :=
    fun h k hy hx => h k hx hy
  have hapart' := (hperm.pairwise_iff hsymm).mpr hapart
  constructor
  · intro h
    refine unhidden_of_find hsorted hapart' fun y _ x hx hcontains => ?_
    obtain ⟨addr, haddr⟩ := hkey y
    rw [← haddr] at hcontains ⊢
    exact (h addr x).mpr ⟨hperm.mem_iff.mp hx, hcontains⟩
  · intro hunhidden addr x
    rw [← hperm.mem_iff]
    exact find_right hsorted hapart' hunhidden addr.toNat x

theorem ordered_attach (start stop : α → Nat) (item : Nat → α) {items : List α}
    (hroom : items.length ≤ max) (hkey : ∀ x, ∃ addr : UInt32, addr.toNat = start x) :
    Ordered start stop
      (fun addr => (items.foldl (attach start max) ⟨item, 0⟩).find start stop addr.toNat) items
      (items.foldl (attach start max) ⟨item, 0⟩) := by
  have hempty : (⟨item, 0⟩ : SortedTable α).toList = [] := rfl
  obtain ⟨hperm, hsorted⟩ := attach_all items ⟨item, 0⟩ (hempty ▸ List.Pairwise.nil)
    (by rwa [Nat.zero_add] : 0 + items.length ≤ max)
  rw [hempty, List.append_nil] at hperm
  exact ordered_of_attached hperm hsorted hkey

end Generic

/-- After any attachments for which there is room, both tables are in order. -/
theorem attached_ordered (objTable : Nat → Records.ObjFile) (dexTable : Nat → DexFile)
    (objs : List Records.ObjFile) (dexes : List DexFile) (hobjs : objs.length ≤ 256)
    (hdexes : dexes.length ≤ 256) :
    Ordered objStart objEnd (branchUserObj (objs.foldl setAttachObj ⟨objTable, 0⟩)) objs
        (objs.foldl setAttachObj ⟨objTable, 0⟩) ∧
      Ordered dexStart dexEnd (methodDex (dexes.foldl setAttachDex ⟨dexTable, 0⟩)) dexes
        (dexes.foldl setAttachDex ⟨dexTable, 0⟩) :=
  ⟨ordered_attach objStart objEnd objTable hobjs fun x => ⟨x.textStart, rfl⟩,
    ordered_attach dexStart dexEnd dexTable hdexes fun x => ⟨x.start, rfl⟩⟩

/-- An object that reaches beyond 0xc0000000, where the text of an object without functions other
than at 0 starts. -/
def reaching : Records.ObjFile := ⟨2, [0xbfff0000], 0xbfff0000, 0xc0000010⟩

def noText : Records.ObjFile := Records.pushFuncs 3 [⟨0, 4⟩]

theorem attached_ordered_three :
    Ordered objStart objEnd
        (branchUserObj ([⟨3, [0x9000], 0x9000, 0x9fff⟩, ⟨2, [0x8000], 0x8000, 0x8fff⟩].foldl
          setAttachObj ⟨fun _ => noText, 0⟩))
        [⟨3, [0x9000], 0x9000, 0x9fff⟩, ⟨2, [0x8000], 0x8000, 0x8fff⟩]
        ([⟨3, [0x9000], 0x9000, 0x9fff⟩, ⟨2, [0x8000], 0x8000, 0x8fff⟩].foldl
          setAttachObj ⟨fun _ => noText, 0⟩) ∧
      Ordered dexStart dexEnd (methodDex ([⟨1, 0x40000000, 0x40000fff⟩].foldl setAttachDex
          ⟨fun _ => ⟨0, 0, 0⟩, 0⟩)) [⟨1, 0x40000000, 0x40000fff⟩]
        ([⟨1, 0x40000000, 0x40000fff⟩].foldl setAttachDex ⟨fun _ => ⟨0, 0, 0⟩, 0⟩) :=
  attached_ordered (fun _ => noText) (fun _ => ⟨0, 0, 0⟩) _ _ (by decide) (by decide)

/-- No address is in the ranges of both, and an address in the range of the first is not found. -/
theorem reaching_hidden : [reaching, noText].Pairwise (Apart objStart objEnd) ∧
    ¬∀ addr x, branchUserObj ([reaching, noText].foldl setAttachObj ⟨fun _ => noText, 0⟩) addr =
      some x ↔ x ∈ [reaching, noText] ∧ Contains objStart objEnd x addr.toNat := by
  constructor
  · rw [List.pairwise_pair]
    rintro k - ⟨hstart, hend⟩
    have hle := Nat.le_trans hstart hend
    revert hle
    decide
  · intro h
    have hfound := (h 0xc0000004 reaching).mpr ⟨List.mem_cons_self, by decide⟩
    revert hfound
    decide

end M2M.Tracing.Attached
