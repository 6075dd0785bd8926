import Mathlib.Data.Nat.Basic

/-! The timing register that selects the simulators, and the cache simulator behind
`d4ref`. -/

namespace M2M.Vpmu

def insnCountSim : UInt32 := (0x1 : UInt32) <<< 0
def dcacheSim : UInt32 := (0x1 : UInt32) <<< 1
def icacheSim : UInt32 := (0x1 : UInt32) <<< 2
def branchSim : UInt32 := (0x1 : UInt32) <<< 3
def pipelineSim : UInt32 := (0x1 : UInt32) <<< 4

/-- `TIMING_MODEL_A` to `TIMING_MODEL_G`. -/
inductive TimingModel
  | a | b | c | d | e | f | g
  deriving DecidableEq

namespace TimingModel

/-- Bits 31 to 28 of the timing register. -/
def code : TimingModel → UInt32
  | a => (0x1 : UInt32) <<< 28
  | b => (0x2 : UInt32) <<< 28
  | c => (0x3 : UInt32) <<< 28
  | d => (0x4 : UInt32) <<< 28
  | e => (0x5 : UInt32) <<< 28
  | f => (0x6 : UInt32) <<< 28
  | g => (0x7 : UInt32) <<< 28

/-- The simulators that `vpmu_model_setup` turns on. -/
def mask : TimingModel → UInt32
  | a => insnCountSim
  | b => pipelineSim
  | c => pipelineSim ||| dcacheSim
  | d => pipelineSim ||| dcacheSim ||| icacheSim
  | e => insnCountSim ||| dcacheSim ||| icacheSim ||| branchSim ||| pipelineSim
  | f => insnCountSim ||| pipelineSim
  | g => insnCountSim ||| dcacheSim ||| icacheSim ||| pipelineSim

/-- The timing register after `vpmu_model_setup`. -/
def register (m : TimingModel) : UInt32 := m.code ||| m.mask

end TimingModel

/-- `vpmu_simulator_status` for one simulator, or for one of several. -/
def simulatorStatus (timingRegister opt : UInt32) : Bool := timingRegister &&& opt != 0

@[simp] theorem simulatorStatus_zero (opt : UInt32) : simulatorStatus 0 opt = false := by
  simp [simulatorStatus]

theorem simulatorStatus_code (m : TimingModel) :
    simulatorStatus m.code branchSim = false ∧
      simulatorStatus m.code (dcacheSim ||| icacheSim) = false := by
  cases m <;> decide

theorem simulatorStatus_register (m : TimingModel) :
    simulatorStatus m.register branchSim = simulatorStatus m.mask branchSim ∧
      simulatorStatus m.register (dcacheSim ||| icacheSim) =
        simulatorStatus m.mask (dcacheSim ||| icacheSim) := by
  cases m <;> decide

/-- `d4memref`. -/
structure MemRef where
  address : UInt32
  accesstype : UInt8
  size : UInt16
  deriving DecidableEq

def d4xread : UInt8 := 0
def d4xwrite : UInt8 := 1
def d4xinstrn : UInt8 := 2

/-- The reference that `cache_ref` builds from its arguments. -/
def MemRef.ofArgs (addr rw dataSize : UInt32) : MemRef := ⟨addr, rw.toUInt8, dataSize.toUInt16⟩

/-- The two caches that references are given to. -/
inductive CacheId
  | icache | dcache
  deriving DecidableEq

def MemRef.cache (r : MemRef) : CacheId :=
  if r.accesstype = d4xinstrn then .icache else .dcache

universe u

/-- A cache simulator with states `σ`: any deterministic `d4ref`, and `ResetCache` on all
of its caches. -/
structure Simulator (σ : Type u) where
  d4ref : CacheId → MemRef → σ → σ
  resetCache : σ → σ

def Simulator.pass {σ : Type u} (d : Simulator σ) (c : σ) (r : MemRef) : σ :=
  d.d4ref r.cache r c

/-- A simulator that only counts the references to each cache. -/
def accessCounts : Simulator (Nat × Nat) where
  d4ref
    | .icache, _, (i, d) => (i + 1, d)
    | .dcache, _, (i, d) => (i, d + 1)
  resetCache _ := (0, 0)

end M2M.Vpmu
