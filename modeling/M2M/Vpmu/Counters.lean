import M2M.Vpmu.Dinero
import Mathlib.Data.UInt

/-! The counters of VPMU: the helpers that count, the event table and `VPMU_reset`.  The
references and signals go to the simulators at once, as they do without
`CONFIG_VPMU_THREAD` and whenever the buffers have been drained. -/

universe u

namespace M2M.Vpmu.Counters

inductive AccessType
  | read | write | instrn
  deriving DecidableEq

/-- `fetch` and `miss` of a `d4cache`: doubles that only count up. -/
structure CacheCounts where
  fetch : AccessType → Nat
  miss : AccessType → Nat

/-- `ResetCache`. -/
def CacheCounts.zero : CacheCounts := ⟨fun _ => 0, fun _ => 0⟩

/-- What the caches hold, and the counts of `d4_levcache[1][0]`, `d4_levcache[2][0]` and
`d4_levcache[0][1]`. -/
structure Caches (β : Type u) where
  contents : β
  l1i : CacheCounts
  l1d : CacheCounts
  l2 : CacheCounts

def Caches.resetCache {β : Type u} (c : Caches β) : Caches β := ⟨c.contents, .zero, .zero, .zero⟩

/-- `d4ref` on the caches of `VPMU_cache_init`: references to one of the two first-level
caches are passed on to the second level, not to the other one. -/
structure Dinero (β : Type u) where
  d4ref : CacheId → MemRef → Caches β → Caches β
  start : β
  icache_l1d : ∀ r c, (d4ref .icache r c).l1d = c.l1d
  dcache_l1i : ∀ r c, (d4ref .dcache r c).l1i = c.l1i

def Dinero.simulator {β : Type u} (d : Dinero β) : Simulator (Caches β) :=
  ⟨d.d4ref, Caches.resetCache⟩

/-- The blocks that are in the caches, 32 bytes each on the first level and 64 on the second. -/
structure Blocks where
  l1i : List UInt32
  l1d : List UInt32
  l2 : List UInt32
  deriving DecidableEq

/-- The counts after a reference. -/
def CacheCounts.ref (c : CacheCounts) (t : AccessType) (missed : Bool) : CacheCounts where
  fetch := Function.update c.fetch t (c.fetch t + 1)
  miss := if missed then Function.update c.miss t (c.miss t + 1) else c.miss

/-- A reference to the second level.  Write misses do not allocate. -/
def roomyL2 (t : AccessType) (addr : UInt32) (c : Caches Blocks) : Caches Blocks :=
  let missed := !c.contents.l2.contains (addr / 64)
  let blocks := c.contents
  { c with
    l2 := c.l2.ref t missed
    contents := if missed && t ≠ .write then { blocks with l2 := addr / 64 :: blocks.l2 }
      else blocks }

def roomyRef : CacheId → MemRef → Caches Blocks → Caches Blocks
  | .icache, r, c =>
    let blocks := c.contents
    if blocks.l1i.contains (r.address / 32) then { c with l1i := c.l1i.ref .instrn false }
    else roomyL2 .instrn r.address { c with
      l1i := c.l1i.ref .instrn true
      contents := { blocks with l1i := r.address / 32 :: blocks.l1i } }
  | .dcache, r, c =>
    let blocks := c.contents
    let t := if r.accesstype = d4xwrite then AccessType.write else .read
    if blocks.l1d.contains (r.address / 32) then { c with l1d := c.l1d.ref t false }
    else roomyL2 t r.address { c with
      l1d := c.l1d.ref t true
      contents := if t = .write then blocks
        else { blocks with l1d := r.address / 32 :: blocks.l1d } }

/-- The caches of `def-config-cortex-a9` as long as no set is full, for references within one
block: demand fetch, write-back, no write-allocate. -/
def roomyCaches : Dinero Blocks where
  d4ref := roomyRef
  start := ⟨[], [], []⟩
  icache_l1d r c := by
    simp only [roomyRef]
    split <;> rfl
  dcache_l1i r c := by
    simp only [roomyRef]
    split <;> rfl

/-- The CPU model with its configuration file.  `toNs` is the division by
`target_cpu_frequency / 1000.0`. -/
structure Config where
  cpuModel : Nat
  d4Maxlevel : Nat
  l1CacheMissLat : UInt64
  l2CacheMissLat : UInt64
  toNs : UInt64 → UInt64
  toNs_zero : toNs 0 = 0

/-- `def-config-cortex-a9`, with its 1000 MHz. -/
def cortexA9 : Config where
  cpuModel := 1
  d4Maxlevel := 2
  l1CacheMissLat := 29
  l2CacheMissLat := 110
  toNs cycles := cycles
  toNs_zero := rfl

/-- The fields of `ExtraTBInfo` that are counted.  The translator gives `icache_ref` the type
`D4XINSTRN`. -/
structure ExtraTBInfo where
  insnCount : UInt32
  loadCount : UInt8
  storeCount : UInt8
  ticks : UInt64
  icacheAddress : UInt32
  icacheSize : UInt16
  branchCount : UInt32
  allChangesToPCCount : UInt32
  dualIssueReduceTicks : UInt64
  deriving DecidableEq

def ExtraTBInfo.icacheRef (tb : ExtraTBInfo) : MemRef :=
  ⟨tb.icacheAddress, d4xinstrn, tb.icacheSize⟩

/-- The four counters that are kept for each mode. -/
structure ModeCounts where
  icount : UInt64
  ldstCount : UInt64
  loadCount : UInt64
  storeCount : UInt64
  deriving DecidableEq

def ModeCounts.zero : ModeCounts := ⟨0, 0, 0, 0⟩

def ModeCounts.add (c : ModeCounts) (tb : ExtraTBInfo) : ModeCounts where
  icount := c.icount + tb.insnCount.toUInt64
  ldstCount := c.ldstCount + (tb.loadCount.toUInt64 + tb.storeCount.toUInt64)
  loadCount := c.loadCount + tb.loadCount.toUInt64
  storeCount := c.storeCount + tb.storeCount.toUInt64

def armCpuModeUsr : UInt32 := 0x10
def armCpuModeIrq : UInt32 := 0x12
def armCpuModeSvc : UInt32 := 0x13

/-- The states 0 to 3 of the two-bit predictor. -/
inductive Predictor
  | zero | one | two | three
  deriving DecidableEq

def condSig : UInt32 := 99

/-- `GlobalVPMU` and `VPMU_enabled`, with the static variables of `vpmu_calculate`
(`previousPc`), `branch_set` (`lastSignal`) and `branch_update` (`predictor`,
`predictCorrect`, `predictWrong`). -/
structure GlobalVPMU (β : Type u) where
  vpmuEnabled : Bool
  timingRegister : UInt32
  usr : ModeCounts
  svc : ModeCounts
  irq : ModeCounts
  sysCall : ModeCounts
  sysRest : ModeCounts
  swiFired : Bool
  ticks : UInt64
  reduceTicks : UInt64
  branchCount : UInt64
  allChangesToPCCount : UInt64
  additionalIcacheAccess : UInt64
  iomemCount : UInt64
  iomemQemu : UInt64
  iomemTest : Bool
  netsendQemu : UInt64
  netrecvQemu : UInt64
  caches : Caches β
  previousPc : UInt32
  lastSignal : UInt32
  predictor : Predictor
  predictCorrect : UInt32
  predictWrong : UInt32

/-- `HELPER(dinero_access)` and the callers in `softmmu_header.h` pass reads and writes. -/
inductive DataAccess
  | read | write
  deriving DecidableEq

def DataAccess.rw : DataAccess → UInt32
  | read => 0
  | write => 1

namespace GlobalVPMU

variable {β : Type u}

/-- The start of the program. -/
def start (d : Dinero β) : GlobalVPMU β where
  vpmuEnabled := false
  timingRegister := 0
  usr := .zero
  svc := .zero
  irq := .zero
  sysCall := .zero
  sysRest := .zero
  swiFired := false
  ticks := 0
  reduceTicks := 0
  branchCount := 0
  allChangesToPCCount := 0
  additionalIcacheAccess := 0
  iomemCount := 0
  iomemQemu := 0
  iomemTest := false
  netsendQemu := 0
  netrecvQemu := 0
  caches := ⟨d.start, .zero, .zero, .zero⟩
  previousPc := 0
  lastSignal := 0
  predictor := .zero
  predictCorrect := 0
  predictWrong := 0

variable (v : GlobalVPMU β)

/-- `VPMU_reset`.  The configuration file that it reads again is a `Config`. -/
def reset : GlobalVPMU β :=
  { v with
    timingRegister := 0
    usr := .zero
    svc := .zero
    irq := .zero
    sysCall := .zero
    sysRest := .zero
    swiFired := false
    ticks := 0
    reduceTicks := 0
    branchCount := 0
    allChangesToPCCount := 0
    additionalIcacheAccess := 0
    iomemCount := 0
    iomemQemu := 0
    iomemTest := false
    netsendQemu := 0
    netrecvQemu := 0
    caches := v.caches.resetCache }

def simulatorStatus (opt : UInt32) : Bool := Vpmu.simulatorStatus v.timingRegister opt

/-- `vpmu_model_setup`. -/
def modelSetup (m : TimingModel) : GlobalVPMU β := { v with timingRegister := m.register }

def cacheRef (d : Dinero β) (r : MemRef) : GlobalVPMU β :=
  { v with caches := d.simulator.pass v.caches r }

def icacheSimulate (d : Dinero β) (tb : ExtraTBInfo) : GlobalVPMU β :=
  if v.simulatorStatus icacheSim then
    if v.previousPc = tb.icacheAddress then
      { v with additionalIcacheAccess := v.additionalIcacheAccess + tb.icacheSize.toUInt64 }
    else { v with previousPc := tb.icacheAddress }.cacheRef d tb.icacheRef
  else v

def pipelineSimulate (cfg : Config) (tb : ExtraTBInfo) : GlobalVPMU β :=
  if v.simulatorStatus pipelineSim then
    if cfg.cpuModel = 0 then { v with ticks := v.ticks + tb.ticks }
    else { v with
      ticks := v.ticks + tb.ticks - tb.dualIssueReduceTicks
      reduceTicks := v.reduceTicks + tb.dualIssueReduceTicks }
  else v

/-- The bucket that a block is counted in. -/
def countMode (mode : UInt32) (tb : ExtraTBInfo) : GlobalVPMU β :=
  if mode = armCpuModeUsr then { v with usr := v.usr.add tb }
  else if mode = armCpuModeSvc then
    if v.swiFired then { v with sysCall := v.sysCall.add tb }
    else { v with svc := v.svc.add tb }
  else if mode = armCpuModeIrq then { v with irq := v.irq.add tb }
  else { v with sysRest := v.sysRest.add tb }

def countBranches (tb : ExtraTBInfo) : GlobalVPMU β :=
  { v with
    branchCount := v.branchCount + tb.branchCount.toUInt64
    allChangesToPCCount := v.allChangesToPCCount + tb.allChangesToPCCount.toUInt64 }

def insnCountSimulate (mode : UInt32) (tb : ExtraTBInfo) : GlobalVPMU β :=
  if v.simulatorStatus insnCountSim then (v.countBranches tb).countMode mode tb else v

/-- `HELPER(vpmu_calculate)` on a block, with the mode bits of the CPSR. -/
def calculate (d : Dinero β) (cfg : Config) (mode : UInt32) (tb : ExtraTBInfo) : GlobalVPMU β :=
  if v.vpmuEnabled then
    ((v.icacheSimulate d tb).pipelineSimulate cfg tb).insnCountSimulate mode tb
  else v

/-- `HELPER(dinero_access)`, with the address that it has translated. -/
def dineroAccess (d : Dinero β) (addr : UInt32) (rw : DataAccess) (size : UInt32) : GlobalVPMU β :=
  if v.vpmuEnabled then
    if v.simulatorStatus dcacheSim then
      if v.iomemTest then { v with iomemTest := false, iomemQemu := v.iomemQemu + 1 }
      else v.cacheRef d (.ofArgs addr rw.rw size)
    else v
  else v

/-- A load or store of the softmmu functions. -/
def softmmuAccess (d : Dinero β) (addr : UInt32) (rw : DataAccess) (size : UInt32) : GlobalVPMU β :=
  if v.vpmuEnabled && v.simulatorStatus dcacheSim then v.cacheRef d (.ofArgs addr rw.rw size)
  else v

/-- An access to I/O memory in `softmmu_template.h`. -/
def ioAccess : GlobalVPMU β := if v.vpmuEnabled then { v with iomemTest := true } else v

def branchUpdate (taken : Bool) : GlobalVPMU β :=
  let correct := { v with predictCorrect := v.predictCorrect + 1 }
  let wrong := { v with predictWrong := v.predictWrong + 1 }
  match v.predictor, taken with
  | .zero, true => { wrong with predictor := .one }
  | .zero, false => correct
  | .one, true => { wrong with predictor := .three }
  | .one, false => { correct with predictor := .zero }
  | .two, true => { correct with predictor := .three }
  | .two, false => { wrong with predictor := .zero }
  | .three, true => correct
  | .three, false => { wrong with predictor := .two }

def branchSet (curSig : UInt32) : GlobalVPMU β :=
  if v.lastSignal = condSig then
    if curSig = condSig then v.branchUpdate false
    else { v.branchUpdate true with lastSignal := 0 }
  else { v with lastSignal := curSig }

/-- `HELPER(branch_predictor)`. -/
def branchPredictor (curSig : UInt32) : GlobalVPMU β :=
  if v.vpmuEnabled then
    if v.simulatorStatus branchSim then v.branchSet curSig else v
  else v

def network (send recv : UInt64) : GlobalVPMU β :=
  { v with netsendQemu := v.netsendQemu + send, netrecvQemu := v.netrecvQemu + recv }

end GlobalVPMU

/-- What the guest executes.  `swi` gives `swi_fired`, which the source only clears, any
value. -/
inductive Exec
  | block (mode : UInt32) (tb : ExtraTBInfo)
  | dineroAccess (addr : UInt32) (rw : DataAccess) (size : UInt32)
  | softmmuAccess (addr : UInt32) (rw : DataAccess) (size : UInt32)
  | ioAccess
  | branchPredictor (curSig : UInt32)
  | network (send recv : UInt64)
  | swi (fired : Bool)

/-- A measurement is controlled by `special_write`. -/
inductive Op
  | exec (e : Exec)
  | reset
  | modelSetup (m : TimingModel)
  | enable (on : Bool)

namespace GlobalVPMU

variable {β : Type u} (d : Dinero β) (cfg : Config)

def exec (v : GlobalVPMU β) : Exec → GlobalVPMU β
  | .block mode tb => v.calculate d cfg mode tb
  | .dineroAccess addr rw size => v.dineroAccess d addr rw size
  | .softmmuAccess addr rw size => v.softmmuAccess d addr rw size
  | .ioAccess => v.ioAccess
  | .branchPredictor curSig => v.branchPredictor curSig
  | .network send recv => v.network send recv
  | .swi fired => { v with swiFired := fired }

def op (v : GlobalVPMU β) : Op → GlobalVPMU β
  | .exec e => v.exec d cfg e
  | .reset => v.reset
  | .modelSetup m => v.modelSetup m
  | .enable on => { v with vpmuEnabled := on }

end GlobalVPMU

section Counts

variable {β : Type u} (v : GlobalVPMU β) (cfg : Config)

def vpmuTotalInsnCount : UInt64 :=
  v.usr.icount + v.svc.icount + v.sysCall.icount + v.sysRest.icount

def vpmuTotalLoadCount : UInt64 :=
  v.usr.loadCount + v.svc.loadCount + v.irq.loadCount + v.sysCall.loadCount + v.sysRest.loadCount

def vpmuTotalStoreCount : UInt64 :=
  v.usr.storeCount + v.svc.storeCount + v.irq.storeCount + v.sysCall.storeCount +
    v.sysRest.storeCount

def vpmuTotalLdstCount : UInt64 :=
  v.usr.ldstCount + v.svc.ldstCount + v.irq.ldstCount + v.sysCall.ldstCount + v.sysRest.ldstCount

def vpmuL1DcacheAccessCount : UInt64 :=
  .ofNat (v.caches.l1d.fetch .read + v.caches.l1d.fetch .write)

def vpmuL1DcacheMissCount : UInt64 := .ofNat (v.caches.l1d.miss .read + v.caches.l1d.miss .write)

def vpmuL1DcacheReadMissCount : UInt64 := .ofNat (v.caches.l1d.miss .read)

def vpmuL1DcacheWriteMissCount : UInt64 := .ofNat (v.caches.l1d.miss .write)

def vpmuL2DcacheMissCount : UInt64 := .ofNat (v.caches.l2.miss .read + v.caches.l2.miss .write)

def vpmuL2DcacheReadMissCount : UInt64 := .ofNat (v.caches.l2.miss .read)

def vpmuL2DcacheWriteMissCount : UInt64 := .ofNat (v.caches.l2.fetch .write)

def vpmuL1IcacheAccessCount : UInt64 :=
  .ofNat (v.caches.l1i.fetch .instrn + v.additionalIcacheAccess.toNat)

def vpmuL1IcacheMissCount : UInt64 := .ofNat (v.caches.l1i.miss .instrn)

def modelNumber : UInt32 := v.timingRegister &&& (0xf : UInt32) <<< 28

/-- `L1_nowMiss` of `vpmu_cycle_count`. -/
def l1NowMiss : UInt64 :=
  if modelNumber v = TimingModel.c.code then vpmuL1DcacheMissCount v
  else if modelNumber v ∈ [TimingModel.d.code, TimingModel.e.code, TimingModel.f.code,
      TimingModel.g.code] then
    vpmuL1DcacheMissCount v + vpmuL1IcacheMissCount v
  else 0

/-- `L2_nowMiss` of `vpmu_cycle_count`. -/
def l2NowMiss : UInt64 :=
  if modelNumber v ∈ [TimingModel.c.code, TimingModel.d.code, TimingModel.e.code,
      TimingModel.f.code, TimingModel.g.code] ∧ cfg.d4Maxlevel > 1 then
    vpmuL2DcacheMissCount v
  else 0

def vpmuCycleCount : UInt64 :=
  v.ticks + (l1NowMiss v + v.iomemQemu) * cfg.l1CacheMissLat + l2NowMiss v cfg * cfg.l2CacheMissLat

def vpmuPipelineCycleCount : UInt64 := v.ticks

def vpmuIoMemoryAccessCycleCount : UInt64 := v.iomemQemu * cfg.l1CacheMissLat

def vpmuSysMemoryAccessCycleCount : UInt64 :=
  if cfg.cpuModel = 1 then
    (vpmuL1DcacheMissCount v + vpmuL1IcacheMissCount v) * cfg.l1CacheMissLat +
      vpmuL2DcacheMissCount v * cfg.l2CacheMissLat
  else (vpmuL1DcacheMissCount v + vpmuL1IcacheMissCount v) * cfg.l1CacheMissLat

def vpmuEstimatedExecutionTimeNs : UInt64 :=
  cfg.toNs (vpmuPipelineCycleCount v) + cfg.toNs (vpmuIoMemoryAccessCycleCount v cfg) +
    (v.netsendQemu + v.netrecvQemu) + cfg.toNs (vpmuSysMemoryAccessCycleCount v cfg)

/-- `vpmu_hardware_event_select`, for the events up to 0x57. -/
def hardwareEventSelect (evtsel : Nat) : UInt32 :=
  match evtsel with
  | 0x00 => (vpmuTotalInsnCount v).toUInt32
  | 0x01 => v.usr.icount.toUInt32
  | 0x02 => v.svc.icount.toUInt32
  | 0x03 => v.irq.icount.toUInt32
  | 0x04 => v.sysRest.icount.toUInt32
  | 0x05 => (vpmuTotalLdstCount v).toUInt32
  | 0x06 => v.usr.ldstCount.toUInt32
  | 0x07 => v.svc.ldstCount.toUInt32
  | 0x08 => v.irq.ldstCount.toUInt32
  | 0x09 => v.sysRest.ldstCount.toUInt32
  | 0x0a => (vpmuTotalLoadCount v).toUInt32
  | 0x0b => v.usr.loadCount.toUInt32
  | 0x0c => v.svc.loadCount.toUInt32
  | 0x0d => v.irq.loadCount.toUInt32
  | 0x0e => v.sysRest.loadCount.toUInt32
  | 0x0f => (vpmuTotalStoreCount v).toUInt32
  | 0x10 => v.usr.storeCount.toUInt32
  | 0x11 => v.svc.storeCount.toUInt32
  | 0x12 => v.irq.storeCount.toUInt32
  | 0x13 => v.sysRest.storeCount.toUInt32
  | 0x14 => v.allChangesToPCCount.toUInt32
  | 0x20 => v.branchCount.toUInt32
  | 0x21 => v.predictCorrect
  | 0x22 => v.predictWrong
  | 0x30 => (vpmuL1DcacheAccessCount v).toUInt32
  | 0x31 => .ofNat (v.caches.l1d.miss .write)
  | 0x32 => .ofNat (v.caches.l1d.miss .read)
  | 0x33 => .ofNat (v.caches.l1d.miss .read + v.caches.l1d.miss .write)
  | 0x34 => (vpmuL1IcacheAccessCount v).toUInt32
  | 0x35 => .ofNat (v.caches.l1i.miss .instrn)
  | 0x40 => (vpmuL1DcacheMissCount v + vpmuL1IcacheMissCount v).toUInt32
  | 0x41 => v.iomemCount.toUInt32
  | 0x50 => (vpmuCycleCount v cfg).toUInt32
  | 0x51 => (vpmuEstimatedExecutionTimeNs v cfg).toUInt32
  | 0x52 => (vpmuPipelineCycleCount v).toUInt32
  | 0x53 => (cfg.toNs (vpmuPipelineCycleCount v)).toUInt32
  | 0x54 => (vpmuSysMemoryAccessCycleCount v cfg).toUInt32
  | 0x55 => (cfg.toNs (vpmuSysMemoryAccessCycleCount v cfg)).toUInt32
  | 0x56 => (vpmuIoMemoryAccessCycleCount v cfg).toUInt32
  | 0x57 => (cfg.toNs (vpmuIoMemoryAccessCycleCount v cfg)).toUInt32
  | _ => 0

end Counts

end M2M.Vpmu.Counters
