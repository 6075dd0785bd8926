import M2M.Lib.BackLinks
import M2M.Lib.Circular
import M2M.Lib.Machine
import Mathlib

/-! The translated blocks, and what finds them: the hash table over their physical addresses, the
lists of the pages that hold their code, the jumps from block to block, and the cache over their
virtual addresses. Pages and addresses of RAM are numbers, and so are addresses of the generated
code, which are counted from the start of its buffer. -/

open M2M.Lib M2M.Lib.Machine

namespace M2M.Exec

def targetPageSize : Nat := 1024

def codeGenPhysHashSize : Nat := 0x8000

def smcBitmapUseThreshold : Nat := 10

def codeGenAlign : Nat := 16

def codeDirtyFlag : BitVec 8 := 0x02

/-- An exit that a block does not have. -/
def noOffset : Nat := 0xffff

/-- What `code_gen_alloc` has fixed. -/
structure Config where
  codeGenMaxBlocks : Nat
  codeGenBufferSize : Nat
  codeGenBufferMaxSize : Nat

/-- What a block is looked up by. -/
structure Key where
  pc : BitVec 32
  csBase : BitVec 32
  flags : BitVec 64
  deriving DecidableEq

def vpage (a : BitVec 32) : Nat := a.toNat / targetPageSize

def pageOffset (a : BitVec 32) : Nat := a.toNat % targetPageSize

def nextPage (a : BitVec 32) : Nat := vpage (a + 1024#32)

def jmpCacheHashPage (pc : BitVec 32) : BitVec 32 := (pc ^^^ pc >>> 4) >>> 4 &&& 0xfc0#32

def jmpCacheHash (pc : BitVec 32) : BitVec 32 :=
  jmpCacheHashPage pc ||| (pc ^^^ pc >>> 4) &&& 0x3f#32

abbrev TbId := Nat

/-- The last three fields are no fields of the source: the bytes that were translated, the length
of the code made of them, and where the exits that may be chained lead. -/
structure TranslationBlock where
  key : Key
  cflags : Nat
  size : Nat
  tcPtr : Nat
  page0 : Nat
  page1 : Option Nat
  tbNextOffset : Nat → Nat
  code : List (BitVec 8)
  tcSize : Nat
  dest : Nat → Key

namespace TranslationBlock

def physPc (tb : TranslationBlock) : Nat := tb.page0 * targetPageSize + pageOffset tb.key.pc

def bucket (tb : TranslationBlock) : Nat := tb.physPc % codeGenPhysHashSize

/-- `page_addr[n]` -/
def pageAddr (tb : TranslationBlock) (n : Nat) : Option Nat :=
  if n = 0 then some tb.page0 else if n = 1 then tb.page1 else none

/-- The start and the end of the code on the page `page_addr[n]`; the code of a block that goes on
behind its first page ends there only in the second. -/
def tbStart (tb : TranslationBlock) (n : Nat) : Nat := if n = 0 then pageOffset tb.key.pc else 0

def tbEnd (tb : TranslationBlock) (n : Nat) : Nat :=
  if n = 0 then pageOffset tb.key.pc + tb.size
  else pageOffset (tb.key.pc + BitVec.ofNat 32 tb.size)

def stub (tb : TranslationBlock) (n : Nat) : Nat := tb.tcPtr + tb.tbNextOffset n

end TranslationBlock

/-- What the translator makes of the code at an address. -/
structure Generated where
  size : Nat
  codeSize : Nat
  tbNextOffset : Nat → Nat
  dest : Nat → Key

/-- The state of the translated blocks and of the memory. The nodes of the jump lists are
`jmp_next[0]`, `jmp_next[1]` and `jmp_first` of a block, the last under the number 2; `phys` is the
page of RAM at a virtual page, and `direct` tells whether stores to it go straight to RAM. -/
structure ExecState where
  tbs : TbId → TranslationBlock
  nbTbs : Nat
  codeGenPtr : Nat
  hash : Family Nat TbId
  l1Map : Nat → Bool
  pages : Family Nat (TbId × Nat)
  codeWriteCount : Nat → BitVec 32
  codeBitmap : Nat → Option (Nat → BitVec 8)
  jmp : TbId × Nat → Option (TbId × Nat)
  jmpTarget : TbId × Nat → Nat
  tbJmpCache : BitVec 32 → Option TbId
  tbInvalidatedFlag : Bool
  currentTb : Option TbId
  ram : Nat → BitVec 8
  physRamDirty : Nat → BitVec 8
  phys : Nat → Option Nat
  direct : Nat → Bool

def fillBytes (tab : Nat → BitVec 8) (start stop : Nat) : Nat → BitVec 8 :=
  fun i => if start ≤ i ∧ i < stop then 0xff else tab i

def setBits (tab : Nat → BitVec 8) (start stop : Nat) : Nat → BitVec 8 :=
  let mask := 0xff#8 <<< (start % 8)
  if start / 8 = stop / 8 then
    if start < stop then
      Function.update tab (start / 8) (tab (start / 8) ||| mask &&& ~~~(0xff#8 <<< (stop % 8)))
    else
      tab
  else
    let tab := Function.update tab (start / 8) (tab (start / 8) ||| mask)
    let tab := fillBytes tab (start / 8 + 1) (stop / 8)
    if stop / 8 * 8 < stop then
      Function.update tab (stop / 8) (tab (stop / 8) ||| ~~~(0xff#8 <<< (stop % 8)))
    else
      tab

namespace ExecState

/-- More than any of the lists has nodes. -/
def fuel (s : ExecState) : Nat := 2 * s.nbTbs + 2

def invalidatePageBitmap (s : ExecState) (p : Nat) : ExecState :=
  { s with
    codeBitmap := Function.update s.codeBitmap p none
    codeWriteCount := Function.update s.codeWriteCount p 0 }

/-- Pages that are not allocated have no code. -/
def pageFlushTb (s : ExecState) : ExecState :=
  { s with
    pages := ⟨fun _ => none, s.pages.next⟩
    codeBitmap := fun _ => none
    codeWriteCount := fun _ => 0 }

def tbFlush (cfg : Config) (s : ExecState) : Option ExecState :=
  if cfg.codeGenBufferSize < s.codeGenPtr then
    none
  else
    some { s.pageFlushTb with
      nbTbs := 0
      tbJmpCache := fun _ => none
      hash := ⟨fun _ => none, s.hash.next⟩
      codeGenPtr := 0 }

section Invalidate

def tbPageRemove (s : ExecState) (p : Nat) (tb : TbId) : Option ExecState :=
  if s.l1Map (p / 1024) then
    (s.pages.remove p (fun a => decide (a.1 = tb)) s.fuel).map fun pages =>
      { s with pages }.invalidatePageBitmap p
  else
    none

/-- The list of the second page, if the block has one. -/
def tbPageRemoveSecond (s : ExecState) (tb : TbId) : Option ExecState :=
  match (s.tbs tb).page1 with
  | none => some s
  | some p => s.tbPageRemove p tb

def tbJmpRemove (s : ExecState) (tb : TbId) (n : Nat) : Option ExecState :=
  match s.jmp (tb, n) with
  | none => some s
  | some _ =>
    (before s.jmp (fun c => decide (c = (tb, n))) s.fuel (tb, n)).map fun b =>
      { s with jmp := Function.update (Function.update s.jmp b (s.jmp (tb, n))) (tb, n) none }

def tbResetJump (s : ExecState) (tb : TbId) (n : Nat) : ExecState :=
  { s with jmpTarget := Function.update s.jmpTarget (tb, n) ((s.tbs tb).stub n) }

def resetJumps : Nat → ExecState → TbId × Nat → Option ExecState
  | 0, _, _ => none
  | fuel + 1, s, a =>
    if a.2 = 2 then
      some s
    else
      (s.jmp a).bind fun next =>
        resetJumps fuel
          { s.tbResetJump a.1 a.2 with jmp := Function.update s.jmp a none } next

/-- The jumps to a block are reset, and its list is left empty. -/
def tbJmpClear (s : ExecState) (tb : TbId) : Option ExecState :=
  ((s.jmp (tb, 2)).bind fun first => resetJumps s.fuel s first).map fun s =>
    { s with jmp := Function.update s.jmp (tb, 2) (some (tb, 2)) }

/-- With no page that is left alone, as all callers of the system emulator have it. -/
def tbPhysInvalidate (s : ExecState) (tb : TbId) : Option ExecState :=
  (s.hash.remove (s.tbs tb).bucket (fun t => decide (t = tb)) s.fuel).bind fun hash =>
  ({ s with hash }.tbPageRemove (s.tbs tb).page0 tb).bind fun s =>
  (s.tbPageRemoveSecond tb).bind fun s =>
  let h := jmpCacheHash (s.tbs tb).key.pc
  let tbJmpCache :=
    if s.tbJmpCache h = some tb then Function.update s.tbJmpCache h none else s.tbJmpCache
  ({ s with tbInvalidatedFlag := true, tbJmpCache }.tbJmpRemove tb 0).bind fun s =>
  (s.tbJmpRemove tb 1).bind fun s => s.tbJmpClear tb

end Invalidate

section Generate

def tbAlloc (cfg : Config) (s : ExecState) (key : Key) (cflags : Nat) : Option ExecState :=
  if cfg.codeGenMaxBlocks ≤ s.nbTbs ∨ cfg.codeGenBufferMaxSize ≤ s.codeGenPtr then
    none
  else
    some { s with
      nbTbs := s.nbTbs + 1
      tbs := Function.update s.tbs s.nbTbs
        { s.tbs s.nbTbs with key, cflags, tcPtr := s.codeGenPtr, code := [] } }

/-- A new block, for which all others make room if there is none. -/
def tbAllocFlush (cfg : Config) (s : ExecState) (key : Key) (cflags : Nat) : Option ExecState :=
  match s.tbAlloc cfg key cflags with
  | some s => some s
  | none =>
    (s.tbFlush cfg).bind fun s =>
      (s.tbAlloc cfg key cflags).map fun s => { s with tbInvalidatedFlag := true }

/-- After `cpu_physical_memory_reset_dirty` the TLB tests stores to the page. -/
def resetDirty (s : ExecState) (p : Nat) (flags : BitVec 8) : ExecState :=
  { s with
    physRamDirty := Function.update s.physRamDirty p (s.physRamDirty p &&& ~~~flags)
    direct := fun v => s.direct v && !decide (s.phys v = some p) }

def tlbProtectCode (s : ExecState) (p : Nat) : ExecState := s.resetDirty p codeDirtyFlag

def setPageAddr (tb : TranslationBlock) (n p : Nat) : TranslationBlock :=
  if n = 0 then { tb with page0 := p } else { tb with page1 := some p }

def tbAllocPage (s : ExecState) (tb : TbId) (n p : Nat) : ExecState :=
  let alone := s.pages.first p = none
  let s := { s with
    tbs := Function.update s.tbs tb (setPageAddr (s.tbs tb) n p)
    l1Map := Function.update s.l1Map (p / 1024) true
    pages := s.pages.push p (tb, n) }.invalidatePageBitmap p
  if alone then s.tlbProtectCode p else s

def initJumps (s : ExecState) (tb : TbId) : ExecState :=
  let jmp := Function.update (Function.update (Function.update s.jmp (tb, 2) (some (tb, 2)))
    (tb, 0) none) (tb, 1) none
  let s := { s with jmp }
  let s := if (s.tbs tb).tbNextOffset 0 = noOffset then s else s.tbResetJump tb 0
  if (s.tbs tb).tbNextOffset 1 = noOffset then s else s.tbResetJump tb 1

def tbAllocPages (s : ExecState) (tb : TbId) (p : Nat) : Option Nat → ExecState
  | some q => (s.tbAllocPage tb 0 p).tbAllocPage tb 1 q
  | none =>
    let s := s.tbAllocPage tb 0 p
    { s with tbs := Function.update s.tbs tb { s.tbs tb with page1 := none } }

def tbLinkPhys (s : ExecState) (tb : TbId) (p : Nat) (page2 : Option Nat) : ExecState :=
  let bucket := (p * targetPageSize + pageOffset (s.tbs tb).key.pc) % codeGenPhysHashSize
  ({ s with hash := s.hash.push bucket tb }.tbAllocPages tb p page2).initJumps tb

def guestByte (s : ExecState) (a : BitVec 32) : Option (BitVec 8) :=
  (s.phys (vpage a)).map fun p => s.ram (p * targetPageSize + pageOffset a)

def guestCode (s : ExecState) (pc : BitVec 32) (n : Nat) : Option (List (BitVec 8)) :=
  (List.range n).mapM fun i => s.guestByte (pc + BitVec.ofNat 32 i)

/-- The translator's work: the block gets its size, code and exits. -/
def cpuGenCode (s : ExecState) (tb : TbId) (code : List (BitVec 8)) (gen : Generated) :
    ExecState :=
  { s with
    tbs := Function.update s.tbs tb
      { s.tbs tb with
        size := gen.size
        tbNextOffset := gen.tbNextOffset
        code
        tcSize := gen.codeSize
        dest := gen.dest }
    codeGenPtr := (s.codeGenPtr + gen.codeSize + codeGenAlign - 1) / codeGenAlign * codeGenAlign }

/-- No block comes with a state when a fault of the guest ends the translation: what was allocated
for it then stays unlinked. -/
def tbGenCode (cfg : Config) (s : ExecState) (key : Key) (cflags : Nat) (gen : Generated) :
    Option (ExecState × Option TbId) :=
  match s.phys (vpage key.pc) with
  | none => some (s, none)
  | some p =>
    (s.tbAllocFlush cfg key cflags).map fun s =>
      let tb := s.nbTbs - 1
      match s.guestCode key.pc gen.size with
      | none => (s, none)
      | some code =>
        let s := s.cpuGenCode tb code gen
        let virtPage2 := vpage (key.pc + BitVec.ofNat 32 (gen.size - 1))
        let page2 := if vpage key.pc = virtPage2 then none else s.phys virtPage2
        (s.tbLinkPhys tb p page2, some tb)

end Generate

section Writes

def buildPageBitmap (s : ExecState) : Nat → Option (TbId × Nat) → (Nat → BitVec 8) →
    Option (Nat → BitVec 8)
  | 0, _, _ => none
  | _ + 1, none, tab => some tab
  | fuel + 1, some a, tab =>
    let tb := s.tbs a.1
    let stop := if a.2 = 0 then min (tb.tbEnd 0) targetPageSize else tb.tbEnd 1
    s.buildPageBitmap fuel (s.pages.next a) (setBits tab (tb.tbStart a.2) stop)

/-- Counts a write, and builds the bitmap at the tenth. -/
def countWrite (s : ExecState) (p : Nat) (isCpuWriteAccess : Bool) : Option ExecState :=
  match s.codeBitmap p with
  | some _ => some s
  | none =>
    let count := s.codeWriteCount p + 1
    let s := { s with codeWriteCount := Function.update s.codeWriteCount p count }
    if smcBitmapUseThreshold ≤ count.toNat ∧ isCpuWriteAccess then
      (s.buildPageBitmap s.fuel (s.pages.first p) fun _ => 0).map fun tab =>
        { s with codeBitmap := Function.update s.codeBitmap p (some tab) }
    else
      some s

/-- Invalidates the blocks of a page, from a node of its list on, that meet `[start, stop)`. -/
def invalidateLoop (start stop : Nat) : Nat → ExecState → Option (TbId × Nat) → Option ExecState
  | 0, _, _ => none
  | _ + 1, s, none => some s
  | fuel + 1, s, some a =>
    let tbNext := s.pages.next a
    let tb := s.tbs a.1
    let page := ((tb.pageAddr a.2).getD 0) * targetPageSize
    if page + tb.tbEnd a.2 ≤ start ∨ stop ≤ page + tb.tbStart a.2 then
      invalidateLoop start stop fuel s tbNext
    else
      (s.tbPhysInvalidate a.1).bind fun s => invalidateLoop start stop fuel s tbNext

def tbInvalidatePhysPageRange (s : ExecState) (start stop : Nat) (isCpuWriteAccess : Bool) :
    Option ExecState :=
  let p := start / targetPageSize
  if s.l1Map (p / 1024) then
    (s.countWrite p isCpuWriteAccess).bind fun s =>
    (invalidateLoop start stop s.fuel s (s.pages.first p)).map fun s =>
      if s.pages.first p = none then
        let s := s.invalidatePageBitmap p
        if isCpuWriteAccess then
          { s with
            physRamDirty := Function.update s.physRamDirty p (s.physRamDirty p ||| codeDirtyFlag) }
        else
          s
      else
        s
  else
    some s

/-- The bits that the bitmap has for `len` bytes from an offset of its page on. -/
def bitmapBits (tab : Nat → BitVec 8) (offset len : Nat) : BitVec 8 :=
  (tab (offset / 8) >>> (offset % 8)) &&& (1#8 <<< len - 1#8)

def tbInvalidatePhysPageFast (s : ExecState) (start len : Nat) : Option ExecState :=
  let p := start / targetPageSize
  if s.l1Map (p / 1024) then
    match s.codeBitmap p with
    | some tab =>
      if bitmapBits tab (start % targetPageSize) len = 0 then some s
      else s.tbInvalidatePhysPageRange start (start + len) true
    | none => s.tbInvalidatePhysPageRange start (start + len) true
  else
    some s

def storeBytes (ram : Nat → BitVec 8) (addr : Nat) (vals : List (BitVec 8)) : Nat → BitVec 8 :=
  fun a => if addr ≤ a then (vals[a - addr]?).getD (ram a) else ram a

/-- A store to a page whose stores are tested, through the virtual page `v`. -/
def notdirtyMemWrite (s : ExecState) (addr : Nat) (vals : List (BitVec 8)) (v : Nat) :
    Option ExecState :=
  let p := addr / targetPageSize
  let tested :=
    if s.physRamDirty p &&& codeDirtyFlag = 0 then s.tbInvalidatePhysPageFast addr vals.length
    else some s
  tested.map fun s =>
    let dirtyFlags := s.physRamDirty p ||| 0xff#8 &&& ~~~codeDirtyFlag
    { s with
      ram := storeBytes s.ram addr vals
      physRamDirty := Function.update s.physRamDirty p dirtyFlags
      direct := if dirtyFlags = 0xff then Function.update s.direct v true else s.direct }

/-- A store of the guest. -/
def store (s : ExecState) (a : BitVec 32) (vals : List (BitVec 8)) : Option ExecState :=
  (s.phys (vpage a)).bind fun p =>
    let addr := p * targetPageSize + pageOffset a
    if s.direct (vpage a) then some { s with ram := storeBytes s.ram addr vals }
    else s.notdirtyMemWrite addr vals (vpage a)

/-- One page's share of `cpu_physical_memory_rw`, by which devices write. -/
def physicalWrite (s : ExecState) (addr : Nat) (vals : List (BitVec 8)) : Option ExecState :=
  let p := addr / targetPageSize
  let s := { s with ram := storeBytes s.ram addr vals }
  if s.physRamDirty p = 0xff then
    some s
  else
    (s.tbInvalidatePhysPageRange addr (addr + vals.length) false).map fun s =>
      { s with
        physRamDirty := Function.update s.physRamDirty p
          (s.physRamDirty p ||| 0xff#8 &&& ~~~codeDirtyFlag) }

end Writes

section Lookup

/-- How a walk along a chain of the hash table ends. -/
inductive Found
  | fault
  | missing
  | block (tb : TbId)

/-- Looks for a block on the page `p`, and asks for the second page of a block that has one. -/
def findInChain (s : ExecState) (key : Key) (p : Nat) : Nat → Option TbId → Option Found
  | 0, _ => none
  | _ + 1, none => some .missing
  | fuel + 1, some t =>
    let tb := s.tbs t
    if tb.key = key ∧ tb.page0 = p then
      match tb.page1 with
      | none => some (.block t)
      | some q =>
        match s.phys (nextPage key.pc) with
        | none => some .fault
        | some q' =>
          if q = q' then some (.block t) else s.findInChain key p fuel (s.hash.next t)
    else
      s.findInChain key p fuel (s.hash.next t)

def cacheBlock (s : ExecState) (key : Key) (tb : TbId) : ExecState :=
  { s with tbJmpCache := Function.update s.tbJmpCache (jmpCacheHash key.pc) (some tb) }

def tbFindSlow (cfg : Config) (s : ExecState) (key : Key) (gen : Generated) :
    Option (ExecState × Option TbId) :=
  let s := { s with tbInvalidatedFlag := false }
  match s.phys (vpage key.pc) with
  | none => some (s, none)
  | some p =>
    let h := (p * targetPageSize + pageOffset key.pc) % codeGenPhysHashSize
    (s.findInChain key p s.fuel (s.hash.first h)).bind fun found =>
      match found with
      | .fault => some (s, none)
      | .block tb => some (s.cacheBlock key tb, some tb)
      | .missing =>
        (s.tbGenCode cfg key 0 gen).map fun r =>
          match r.2 with
          | none => (r.1, none)
          | some tb => (r.1.cacheBlock key tb, some tb)

def tbFindFast (cfg : Config) (s : ExecState) (key : Key) (gen : Generated) :
    Option (ExecState × Option TbId) :=
  match s.tbJmpCache (jmpCacheHash key.pc) with
  | none => s.tbFindSlow cfg key gen
  | some tb => if (s.tbs tb).key = key then some (s, some tb) else s.tbFindSlow cfg key gen

def tbAddJump (s : ExecState) (tb : TbId) (n : Nat) (next : TbId) : ExecState :=
  match s.jmp (tb, n) with
  | some _ => s
  | none =>
    { s with
      jmpTarget := Function.update s.jmpTarget (tb, n) (s.tbs next).tcPtr
      jmp := Function.update (Function.update s.jmp (tb, n) (s.jmp (next, 2))) (next, 2)
        (some (tb, n)) }

/-- The block whose code the host runs at an address. -/
def blockAt (s : ExecState) (addr : Nat) : Option TbId :=
  (List.range s.nbTbs).find? fun t => decide ((s.tbs t).tcPtr = addr ∧ (s.tbs t).code ≠ [])

end Lookup

section Mapping

/-- `memset (&env->tb_jmp_cache[i], 0, TB_JMP_PAGE_SIZE * sizeof(TranslationBlock *))` -/
def clearJmpCachePage (s : ExecState) (a : BitVec 32) : ExecState :=
  { s with
    tbJmpCache := fun h => if h &&& ~~~0x3f#32 = jmpCacheHashPage a then none else s.tbJmpCache h }

def tlbFlushJmpCache (s : ExecState) (a : BitVec 32) : ExecState :=
  (s.clearJmpCachePage (a - 1024#32)).clearJmpCachePage a

/-- The guest changes where one virtual page leads, and flushes it from the TLB. -/
def tlbFlushPage (s : ExecState) (a : BitVec 32) (p : Option Nat) : ExecState :=
  { s.tlbFlushJmpCache a with
    currentTb := none
    phys := Function.update s.phys (vpage a) p
    direct := Function.update s.direct (vpage a) false }

def tlbFlush (s : ExecState) (phys : Nat → Option Nat) : ExecState :=
  { s with currentTb := none, phys, direct := fun _ => false, tbJmpCache := fun _ => none }

/-- A new entry of the TLB for a page that may be written. -/
def tlbSetPage (s : ExecState) (v : Nat) : ExecState :=
  match s.phys v with
  | none => s
  | some p => { s with direct := Function.update s.direct v (decide (s.physRamDirty p = 0xff)) }

end Mapping

section Unlink

def jmpHead (s : ExecState) : Nat → TbId × Nat → Option TbId
  | 0, _ => none
  | fuel + 1, a => if a.2 = 2 then some a.1 else (s.jmp a).bind fun b => s.jmpHead fuel b

/-- Resets one jump, and says where it led. -/
def tbUnchain (s : ExecState) (tb : TbId) (n : Nat) : Option (ExecState × Option TbId) :=
  match s.jmp (tb, n) with
  | none => some (s, none)
  | some a =>
    (s.jmpHead s.fuel a).bind fun next =>
    (before s.jmp (fun c => decide (c = (tb, n))) s.fuel (next, 2)).map fun b =>
      let jmp := Function.update (Function.update s.jmp b (s.jmp (tb, n))) (tb, n) none
      ({ s with jmp }.tbResetJump tb n, some next)

/-- Resets the jumps of a block and of all blocks that it could have jumped to. -/
def tbResetJumpRecursive : Nat → ExecState → TbId → Option ExecState
  | 0, _, _ => none
  | fuel + 1, s, tb =>
    (s.tbUnchain tb 0).bind fun r =>
    (match r.2 with
      | none => some r.1
      | some next => tbResetJumpRecursive fuel r.1 next).bind fun s =>
    (s.tbUnchain tb 1).bind fun r =>
    match r.2 with
      | none => some r.1
      | some next => tbResetJumpRecursive fuel r.1 next

def cpuUnlinkTb (s : ExecState) : Option ExecState :=
  match s.currentTb with
  | none => some s
  | some tb => { s with currentTb := none }.tbResetJumpRecursive s.fuel tb

end Unlink

/-- The binary search of `tb_find_pc`, between two numbers of blocks. -/
def findPcLoop (s : ExecState) (tcPtr : Nat) : Nat → Int → Int → Option Int
  | 0, _, _ => none
  | fuel + 1, mMin, mMax =>
    if mMin ≤ mMax then
      let m := (mMin + mMax) / 2
      let v := (s.tbs m.toNat).tcPtr
      if v = tcPtr then some m
      else if tcPtr < v then s.findPcLoop tcPtr fuel mMin (m - 1)
      else s.findPcLoop tcPtr fuel (m + 1) mMax
    else
      some mMax

def tbFindPc (s : ExecState) (tcPtr : Nat) : Option TbId :=
  if s.nbTbs = 0 ∨ s.codeGenPtr ≤ tcPtr then none
  else (s.findPcLoop tcPtr (s.nbTbs + 1) 0 (s.nbTbs - 1)).map Int.toNat

end ExecState

/-- The processor: the block whose code runs, if one does, and the exit through which the last one
was left, if the next block may be chained to it. -/
structure Cpu where
  s : ExecState
  running : Option TbId
  nextTb : Option (TbId × Nat)

inductive CpuAction
  | exec (needTbFlush : Bool) (key : Key) (gen : Generated)
  | jump (n : Nat)
  | leave
  | store (a : BitVec 32) (vals : List (BitVec 8))
  | physicalWrite (addr : Nat) (vals : List (BitVec 8))
  | setPage (v : Nat)
  | resetDirty (p : Nat) (flags : BitVec 8)
  | flushPage (a : BitVec 32) (p : Option Nat)
  | flush (phys : Nat → Option Nat)
  | interrupt

/-- No block runs: its code has returned, or was left by `cpu_loop_exit`. -/
def ExecState.returned (s : ExecState) : ExecState := { s with currentTb := none }

/-- One turn of the loop of `cpu_exec`, up to the code of the block that it finds; a fault leads
back to its start. -/
def cpuExec (cfg : Config) (c : Cpu) (needTbFlush : Bool) (key : Key) (gen : Generated) :
    Option Cpu :=
  let flushed := if needTbFlush then c.s.tbFlush cfg else some c.s
  flushed.bind fun s =>
  (s.tbFindFast cfg key gen).map fun r =>
    match r.2 with
    | none => ⟨r.1.returned, none, none⟩
    | some tb =>
      let nextTb := if r.1.tbInvalidatedFlag then none else c.nextTb
      let s := { r.1 with tbInvalidatedFlag := false }
      let s := match nextTb with
        | some a => if (s.tbs tb).page1 = none then s.tbAddJump a.1 a.2 tb else s
        | none => s
      ⟨{ s with currentTb := some tb }, some tb, none⟩

/-- The running block is left through an exit: to another block, if the exit is chained, or back
to the loop. -/
def takeExit (c : Cpu) (n : Nat) : Option Cpu :=
  c.running.bind fun t =>
    let addr := c.s.jmpTarget (t, n)
    if addr = (c.s.tbs t).stub n then some ⟨c.s.returned, none, some (t, n)⟩
    else (c.s.blockAt addr).map fun t => { c with running := some t }

def cpuStep (cfg : Config) : Step Cpu CpuAction
  | c, .exec needTbFlush key gen =>
    if c.running = none then cpuExec cfg c needTbFlush key gen else none
  | c, .jump n => takeExit c n
  | c, .leave => some ⟨c.s.returned, none, none⟩
  | c, .store a vals => (c.s.store a vals).map fun s => { c with s }
  | c, .physicalWrite addr vals => (c.s.physicalWrite addr vals).map fun s => { c with s }
  | c, .setPage v => some { c with s := c.s.tlbSetPage v }
  | c, .resetDirty p flags => some { c with s := c.s.resetDirty p flags }
  | c, .flushPage a p => some ⟨c.s.tlbFlushPage a p, none, none⟩
  | c, .flush phys => some ⟨c.s.tlbFlush phys, none, none⟩
  | c, .interrupt => c.s.cpuUnlinkTb.map fun s => { c with s }

end M2M.Exec
