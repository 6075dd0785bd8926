import M2M.Memcheck.AllocMap
import M2M.Memcheck.Tlb

/-! Loads and stores of a process under surveillance: `softmmu_template.h` and the checks of
`memcheck.c`. -/

open M2M.Lib

namespace M2M.Memcheck

inductive DataSize
  | b
  | w
  | l
  | q
  deriving DecidableEq

/-- `DATA_SIZE`. -/
def DataSize.bytes : DataSize → UInt32
  | .b => 1
  | .w => 2
  | .l => 4
  | .q => 8

section Checks

variable {τ : Type} (tree : RangeTree MallocDescEx τ) (map : τ) (adesc : MallocDescEx)

/-- `memcheck_common_access_validation` for the process whose blocks are in the map. -/
def memcheckCommonAccessValidation (addr dataSize : UInt32) : Int :=
  match allocmapFind tree map adesc addr dataSize with
  | none => 1
  | some desc =>
    if addr < desc.mallocDesc.getUserPtr then -1
    else
      let validatingRangeEnd := addr + dataSize
      let userRangeEnd := desc.mallocDesc.getUserAllocEnd
      if validatingRangeEnd ≤ userRangeEnd then 0
      -- an access that only ends behind the user's part may be one of alignment
      else if validatingRangeEnd - userRangeEnd < dataSize then 0
      else -1

def procdescContainsAllocs (addr bufSize : UInt32) : Bool :=
  let endPage := pageOf (addr + bufSize - 1)
  let addr := pageOf addr
  let bufSize := endPage - addr + targetPageSize + 1
  (allocmapFind tree map adesc addr bufSize).isSome

/-- `memcheck_validate_ld` and `memcheck_validate_st`: whether the page is to be left out of the
TLB. -/
def memcheckValidate (addr dataSize : UInt32) : Bool :=
  let res := memcheckCommonAccessValidation tree map adesc addr dataSize
  if res = -1 then true
  else if res ≠ 0 then procdescContainsAllocs tree map adesc addr dataSize
  else false

def memcheckIsChecked (addr size : UInt32) : Bool := procdescContainsAllocs tree map adesc addr size

end Checks

def Tlb.Fast (tlb : Tlb) (access : Access) (addr size : UInt32) : Prop :=
  (tlb (tlbIndex addr)).addr access = addr &&& (targetPageMask ||| (size - 1))

instance (tlb : Tlb) (access : Access) (addr size : UInt32) :
    Decidable (tlb.Fast access addr size) :=
  inferInstanceAs (Decidable (_ = _))

def Crosses (addr size : UInt32) : Prop :=
  (addr &&& ~~~targetPageMask) + size - 1 ≥ targetPageSize

instance (addr size : UInt32) : Decidable (Crosses addr size) :=
  inferInstanceAs (Decidable (_ ≥ _))

/-- What `slow_ld` and `slow_st` make of an access to two pages: aligned loads, and stores of
bytes from the last one on. -/
def slowAddrs (access : Access) (addr size : UInt32) : List UInt32 :=
  match access with
  | .load => [addr &&& ~~~(size - 1), (addr &&& ~~~(size - 1)) + size]
  | .store => (List.range size.toNat).reverse.map fun i => addr + UInt32.ofNat i

section Helpers

variable {τ : Type} (tree : RangeTree MallocDescEx τ) (map : τ) (adesc : MallocDescEx)

/-- The test that the helpers start with, and repeat once the page is there. -/
def redo (tlb : Tlb) (access : Access) (addr : UInt32) : Tlb :=
  if tlb.Hit access addr then tlb
  else tlbFill tlb addr (memcheckIsChecked tree map adesc (pageOf addr) targetPageSize)

/-- `slow_ld` and `slow_st`, where the page of the access is there already. -/
def slowAccess (tlb : Tlb) (access : Access) (addr size : UInt32) : Tlb :=
  (slowAddrs access addr size).foldl (fun tlb addr => redo tree map adesc tlb access addr) tlb

/-- `__ld` and `__st`: the TLB afterwards, and whether the access was validated. -/
def mmuAccess (tlb : Tlb) (access : Access) (addr size : UInt32) : Tlb × Bool :=
  let index := tlbIndex addr
  let tlb := redo tree map adesc tlb access addr
  if (tlb index).addr access &&& ~~~targetPageMask ≠ 0 then
    -- I/O
    if addr &&& (size - 1) ≠ 0 then (slowAccess tree map adesc tlb access addr size, false)
    else (tlb, false)
  else if Crosses addr size then
    let invalidateCache := memcheckValidate tree map adesc addr size
    let tlb := slowAccess tree map adesc tlb access addr size
    if invalidateCache then
      let tlb := tlb.invalidateAt index
      (if index < cpuTlbSize then tlb.invalidateAt (index + 1) else tlb, true)
    else (tlb, true)
  else if memcheckValidate tree map adesc addr size then (tlb.invalidateAt index, true)
  else (tlb, true)

def guestAccess (tlb : Tlb) (access : Access) (addr size : UInt32) : Tlb × Bool :=
  if tlb.Fast access addr size then (tlb, false)
  else mmuAccess tree map adesc tlb access addr size

end Helpers

/-- The TLB, and the blocks of the process. -/
structure Surveillance (τ : Type) where
  tlb : Tlb
  allocMap : τ

inductive MemEvent
  | alloc (block : Block)
  | free (adesc : MallocDescEx) (ptr : UInt32)
  | access (adesc : MallocDescEx) (access : Access) (addr : UInt32) (size : DataSize)

section Events

variable {τ : Type} (tree : RangeTree MallocDescEx τ) (s : Surveillance τ)

def memcheckGuestAlloc (desc : MallocDescEx) : Surveillance τ :=
  let ins := allocmapInsert tree s.allocMap desc true
  match ins.result with
  | .inserted =>
    { tlb := invalidateTlbCache s.tlb desc.mallocDesc.ptr desc.mallocDesc.getAllocEnd
      allocMap := ins.map }
  | _ => { s with allocMap := ins.map }

def memcheckGuestFree (adesc : MallocDescEx) (ptr : UInt32) : Surveillance τ :=
  match allocmapPull tree s.allocMap adesc ptr with
  | none => s
  | some (_, map) => { s with allocMap := map }

def memStep : MemEvent → Surveillance τ
  | .alloc block => memcheckGuestAlloc tree s block.desc
  | .free adesc ptr => memcheckGuestFree tree s adesc ptr
  | .access adesc access addr size =>
    { s with tlb := (guestAccess tree s.allocMap adesc s.tlb access addr size.bytes).1 }

/-- Nothing of a block is on a page of the TLB, and every violation is passed on. -/
structure Watched : Prop where
  unmatched : ∀ e ∈ tree.entries s.allocMap, ∀ a : UInt32, e.mallocDesc.Intersects a.toNat 1 →
    ∀ access, ¬s.tlb.Hit access a
  seen : ∀ adesc access addr (size : DataSize),
    memcheckCommonAccessValidation tree s.allocMap adesc addr size.bytes = -1 →
      (guestAccess tree s.allocMap adesc s.tlb access addr size.bytes).2 = true

/-- The loop of `invalidate_tlb_cache` gets as far as the page of an address. -/
def Reached (desc : MallocDesc) (a : UInt32) : Prop :=
  (tlbIndex desc.ptr).toNat + (a.toNat / 1024 - desc.ptr.toNat / 1024) ≤
    (tlbIndex (desc.getAllocEnd - 1)).toNat

/-- What of a new block is in the TLB is reached from a block that replaces none; a block that
overlaps two is not recorded. -/
def AllocFits (block : Block) : Prop :=
  ∀ a : UInt32, ∀ access, block.desc.mallocDesc.Intersects a.toNat 1 → s.tlb.Hit access a →
    (∃ e ∈ tree.entries s.allocMap, ∃ e' ∈ tree.entries s.allocMap, e ≠ e' ∧
        e.mallocDesc.Intersects block.desc.mallocDesc.ptr.toNat block.desc.mallocDesc.total ∧
        e'.mallocDesc.Intersects block.desc.mallocDesc.ptr.toNat block.desc.mallocDesc.total) ∨
      (∀ e ∈ tree.entries s.allocMap,
        ¬e.mallocDesc.Intersects block.desc.mallocDesc.ptr.toNat block.desc.mallocDesc.total) ∧
      Reached block.desc.mallocDesc a

/-- An access of the helpers is not one to a block as its user may make it, ends in front of the
last page, and is not one from the page of the last entry to a page with blocks. -/
def AccessFits (adesc : MallocDescEx) (access : Access) (addr size : UInt32) : Prop :=
  s.tlb.Fast access addr size ∨
    memcheckCommonAccessValidation tree s.allocMap adesc addr size ≠ 0 ∧
      addr.toNat + size.toNat ≤ 2 ^ 32 - 1024 ∧
      (Crosses addr size → tlbIndex addr = cpuTlbSize - 1 →
        procdescContainsAllocs tree s.allocMap adesc addr size = false)

def MemFits : MemEvent → Prop
  | .alloc block => AllocFits tree s block
  | .free _ _ => True
  | .access adesc access addr size => AccessFits tree s adesc access addr size.bytes

end Events

end M2M.Memcheck
