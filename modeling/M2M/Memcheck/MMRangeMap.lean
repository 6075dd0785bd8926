import M2M.Lib.Runs
import M2M.Memcheck.RbtMap
import Mathlib.Data.List.Induction

/-! The map of modules of a process: `memcheck_mmrange_map.c` and the two calls of
`memcheck_proc_management.c` that change it. -/

open M2M.Lib M2M.Lib.Ranged

namespace M2M.Memcheck

variable {Path : Type}

structure MMRangeDesc (Path : Type) where
  mapStart : UInt32
  mapEnd : UInt32
  execOffset : UInt32
  path : Path
  deriving DecidableEq

/-- What `cmp_rb` compares. -/
instance : Ranged (MMRangeDesc Path) where
  first d := d.mapStart.toNat
  last d := (d.mapEnd - 1).toNat

/-- `mmrangedesc_get_module_offset`. -/
def MMRangeDesc.getModuleOffset (rdesc : MMRangeDesc Path) (address : UInt32) : UInt32 :=
  address - rdesc.mapStart + rdesc.execOffset

section Calls

variable {τ : Type} (tree : RangeTree (MMRangeDesc Path) τ) (map : τ)

/-- `procdesc_find_mapentry`.  The descriptor to look for is a local of which only the range is
set. -/
def findMapentry (rdesc : MMRangeDesc Path) (addr : UInt32) : Option (MMRangeDesc Path) :=
  tree.find map { rdesc with mapStart := addr, mapEnd := addr + 1 }

def memcheckUnmap (rdesc : MMRangeDesc Path) (vstart vend : UInt32) : τ :=
  match pull tree map { rdesc with mapStart := vstart, mapEnd := vend } with
  | none => map
  | some (desc, map) =>
    if vstart ≤ desc.mapStart ∧ desc.mapEnd ≤ vend then map
    else if desc.mapStart = vstart then
      (insertDesc tree map
        { desc with
          execOffset := desc.execOffset + (vend - desc.mapStart)
          mapStart := vend } false).map
    else if desc.mapEnd = vend then
      (insertDesc tree map { desc with mapEnd := vstart } false).map
    else
      let tail : MMRangeDesc Path :=
        { desc with
          mapStart := vend
          execOffset := vend - desc.mapStart + desc.execOffset }
      (insertDesc tree (insertDesc tree map tail false).map { desc with mapEnd := vstart }
        false).map

def memcheckMmapExepath (rdesc : MMRangeDesc Path) (vstart vend execOffset : UInt32)
    (path : Path) : τ :=
  (insertDesc tree (memcheckUnmap tree map rdesc vstart vend)
    { mapStart := vstart, mapEnd := vend, execOffset, path } true).map

/-- A call with a range that is not empty.  What an unmap maps there is nothing. -/
structure MapCall (Path : Type) where
  vstart : UInt32
  vend : UInt32
  lt : vstart < vend
  mapped : Option (UInt32 × Path)
  rdesc : MMRangeDesc Path

/-- The map after a call. -/
def mapStep (call : MapCall Path) : τ :=
  match call.mapped with
  | none => memcheckUnmap tree map call.rdesc call.vstart call.vend
  | some (execOffset, path) =>
    memcheckMmapExepath tree map call.rdesc call.vstart call.vend execOffset path

end Calls

namespace MapCall

variable (call : MapCall Path)

def Contains (a : UInt32) : Prop := call.vstart ≤ a ∧ a < call.vend

instance (a : UInt32) : Decidable (call.Contains a) := inferInstanceAs (Decidable (_ ∧ _))

def shown (a : UInt32) : Option (Path × UInt32) :=
  call.mapped.map fun (execOffset, path) => (path, a - call.vstart + execOffset)

def query : MMRangeDesc Path := { call.rdesc with mapStart := call.vstart, mapEnd := call.vend }

def Inside (e : MMRangeDesc Path) : Prop := call.vstart ≤ e.mapStart ∧ e.mapEnd ≤ call.vend

/-- The range takes an entry whole, an end of it, or a part between its ends. -/
def Cuts (e : MMRangeDesc Path) : Prop :=
  call.Inside e ∨ e.mapStart = call.vstart ∨ e.mapEnd = call.vend ∨
    (e.mapStart < call.vstart ∧ call.vend < e.mapEnd)

instance (e : MMRangeDesc Path) : Decidable (call.Inside e) := inferInstanceAs (Decidable (_ ∧ _))

instance (e : MMRangeDesc Path) : Decidable (call.Cuts e) := inferInstanceAs (Decidable (_ ∨ _))

end MapCall

def lastShown (calls : List (MapCall Path)) (a : UInt32) : Option (Path × UInt32) :=
  (calls.reverse.find? fun call => call.Contains a).bind fun call => call.shown a

section Property

variable {τ : Type} (tree : RangeTree (MMRangeDesc Path) τ)

/-- The map shows at every address what the last call that contains it left there. -/
structure LastWriterWins (map : τ) (calls : List (MapCall Path)) : Prop where
  nonempty : ∀ e ∈ tree.entries map, e.mapStart < e.mapEnd
  disjoint : (tree.entries map).Pairwise fun a b => ¬Overlaps a b
  shows : ∀ rdesc a, (findMapentry tree map rdesc a).map (fun e => (e.path, e.getModuleOffset a)) =
    lastShown calls a

/-- At most one entry overlaps the range, which cuts it cleanly. -/
def OneCut (map : τ) (call : MapCall Path) : Prop :=
  ∀ e ∈ tree.entries map, Overlaps call.query e →
    call.Cuts e ∧ ∀ e' ∈ tree.entries map, Overlaps call.query e' → e' = e

instance [DecidableEq Path] (map : τ) (call : MapCall Path) : Decidable (OneCut tree map call) :=
  inferInstanceAs (Decidable (∀ e ∈ tree.entries map, _))

def TwoInside (map : τ) (call : MapCall Path) : Prop :=
  ∃ e₁ e₂, ∀ e ∈ tree.entries map, Overlaps call.query e → call.Inside e ∧ (e = e₁ ∨ e = e₂)

/-- A call that the four branches of `memcheck_unmap`, and one replacement, are enough for. -/
def MapFits (map : τ) (call : MapCall Path) : Prop :=
  OneCut tree map call ∨ (call.mapped.isSome ∧ TwoInside tree map call)

end Property

end M2M.Memcheck
