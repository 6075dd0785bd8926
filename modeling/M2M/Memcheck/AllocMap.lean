import M2M.Lib.Runs
import M2M.Memcheck.RbtMap
import Mathlib

/-! The map of blocks that a process has allocated: `memcheck_malloc_map.c`. -/

open M2M.Lib M2M.Lib.Ranged

namespace M2M.Memcheck

structure MallocDesc where
  ptr : UInt32
  requestedBytes : UInt32
  prefixSize : UInt32
  suffixSize : UInt32
  libcPid : UInt32
  allocatorPid : UInt32
  avCount : UInt32
  deriving DecidableEq

structure MallocDescEx where
  mallocDesc : MallocDesc
  callStack : List UInt32
  flags : UInt32
  deriving DecidableEq

namespace MallocDesc

variable (desc : MallocDesc)

/-- `mallocdesc_get_user_ptr`. -/
def getUserPtr : UInt32 := desc.ptr + desc.prefixSize

/-- `mallocdesc_get_alloc_size`. -/
def getAllocSize : UInt32 := desc.prefixSize + desc.requestedBytes + desc.suffixSize

/-- `mallocdesc_get_alloc_end`. -/
def getAllocEnd : UInt32 := desc.ptr + desc.getAllocSize

/-- `mallocdesc_get_user_alloc_end`. -/
def getUserAllocEnd : UInt32 := desc.getUserPtr + desc.requestedBytes

def total : Nat :=
  desc.prefixSize.toNat + desc.requestedBytes.toNat + desc.suffixSize.toNat

/-- A block that is not empty and does not wrap around. -/
structure Valid : Prop where
  pos : 0 < desc.total
  le : desc.ptr.toNat + desc.total ≤ 2 ^ 32

instance : Decidable desc.Valid :=
  decidable_of_iff (0 < desc.total ∧ desc.ptr.toNat + desc.total ≤ 2 ^ 32)
    ⟨fun h => ⟨h.1, h.2⟩, fun h => ⟨h.pos, h.le⟩⟩

def Intersects (address size : Nat) : Prop :=
  desc.ptr.toNat < address + size ∧ address < desc.ptr.toNat + desc.total

instance (address size : Nat) : Decidable (desc.Intersects address size) :=
  inferInstanceAs (Decidable (_ ∧ _))

end MallocDesc

/-- What `cmp_rb` compares. -/
instance : Ranged MallocDescEx where
  first d := d.mallocDesc.ptr.toNat
  last d := (d.mallocDesc.getAllocEnd - 1).toNat

/-- What an insertion may be given. -/
structure Block where
  desc : MallocDescEx
  valid : desc.mallocDesc.Valid

section Operations

variable {τ : Type} (tree : RangeTree MallocDescEx τ) (map : τ)

/-- The range that `allocmap_find_entry` looks for, in a local of which the rest is not set. -/
def rangeDesc (adesc : MallocDescEx) (address blockSize : UInt32) : MallocDescEx :=
  { adesc with
    mallocDesc :=
      { adesc.mallocDesc with
        ptr := address
        requestedBytes := blockSize
        prefixSize := 0
        suffixSize := 0 } }

def allocmapFind (adesc : MallocDescEx) (address blockSize : UInt32) : Option MallocDescEx :=
  tree.find map (rangeDesc adesc address blockSize)

def allocmapInsert (desc : MallocDescEx) (replace : Bool) : Inserted MallocDescEx τ :=
  insertDesc tree map desc replace

def allocmapPull (adesc : MallocDescEx) (address : UInt32) : Option (MallocDescEx × τ) :=
  pull tree map (rangeDesc adesc address 1)

def allocmapPullFirst : Option (MallocDescEx × τ) := pullFirst tree map

/-- `allocmap_copy`, which stops at the first entry that is not inserted. -/
def allocmapCopy (setFlags clearFlags : UInt32) : List MallocDescEx → τ → Int × τ
  | [], target => (0, target)
  | entry :: rest, target =>
    let newEntry := { entry with flags := entry.flags &&& ~~~clearFlags ||| setFlags }
    let ins := insertDesc tree target newEntry false
    match ins.result with
    | .inserted => allocmapCopy setFlags clearFlags rest ins.map
    | _ => (-1, ins.map)

end Operations

section Runs

variable {ι τ : Type} [DecidableEq ι] (tree : RangeTree MallocDescEx τ)

/-- A call on one of the maps, or on two of them. -/
inductive AllocCall (ι : Type)
  | insert (map : ι) (block : Block) (replace : Bool)
  | pull (map : ι) (adesc : MallocDescEx) (address : UInt32)
  | pullFirst (map : ι)
  | copy (target source : ι) (setFlags clearFlags : UInt32)

/-- The maps after a call. -/
def allocStep (maps : ι → τ) : AllocCall ι → ι → τ
  | .insert i block replace =>
    Function.update maps i (allocmapInsert tree (maps i) block.desc replace).map
  | .pull i adesc address =>
    match allocmapPull tree (maps i) adesc address with
    | none => maps
    | some (_, map) => Function.update maps i map
  | .pullFirst i =>
    match allocmapPullFirst tree (maps i) with
    | none => maps
    | some (_, map) => Function.update maps i map
  | .copy target source setFlags clearFlags =>
    Function.update maps target
      (allocmapCopy tree setFlags clearFlags (tree.entries (maps source)) (maps target)).2

/-- What a map is to be like: its blocks are disjoint, and a block is found where there is one. -/
structure MapRight (map : τ) : Prop where
  disjoint : (tree.entries map).Pairwise fun a b =>
    ¬a.mallocDesc.Intersects b.mallocDesc.ptr.toNat b.mallocDesc.total
  finds : ∀ adesc (address size : UInt32), 0 < size → address.toNat + size.toNat ≤ 2 ^ 32 →
    match allocmapFind tree map adesc address size with
    | some e => e ∈ tree.entries map ∧ e.mallocDesc.Intersects address.toNat size.toNat
    | none => ∀ e ∈ tree.entries map, ¬e.mallocDesc.Intersects address.toNat size.toNat

/-- What an insertion is to do when it returns a result. -/
def InsertedRight (maps : ι → τ) : AllocCall ι → Prop
  | .insert i block replace =>
    let ins := allocmapInsert tree (maps i) block.desc replace
    match ins.result with
    | .alreadyExists => ins.map = maps i
    | .inserted | .replaced => block.desc ∈ tree.entries ins.map
  | _ => True

/-- The block of an insertion that may replace overlaps at most one of the stored ones. -/
def ReplacesOne (maps : ι → τ) : AllocCall ι → Prop
  | .insert i block true =>
    ∀ e ∈ tree.entries (maps i), ∀ e' ∈ tree.entries (maps i),
      e.mallocDesc.Intersects block.desc.mallocDesc.ptr.toNat block.desc.mallocDesc.total →
      e'.mallocDesc.Intersects block.desc.mallocDesc.ptr.toNat block.desc.mallocDesc.total → e = e'
  | _ => True

/-- What a run of calls is to be like that starts with empty maps. -/
structure AllocRight (calls : List (AllocCall ι)) : Prop where
  maps : ∀ before, before <+: calls → ∀ i,
    MapRight tree (before.foldl (allocStep tree) (fun _ => tree.empty) i)
  inserts : Along (allocStep tree) (InsertedRight tree) (fun _ => tree.empty) calls

end Runs

end M2M.Memcheck
