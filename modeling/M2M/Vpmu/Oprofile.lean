import M2M.Vpmu.Counters
import M2M.Lib.Runs
import Mathlib

/-! The performance monitoring registers of coprocessor 14 with `CONFIG_VPMU_OPROFILE`: what
the guest reads and writes, and the overflow test of PMN0 with its interrupt line. -/

universe u v

open M2M.Lib

namespace M2M.Vpmu.Oprofile

/-- `vpmu_hardware_event_select` on counters that grow: `events v g e` events of kind `e` are
counted when `v` grows by `g`. -/
structure EventCounters (V : Type u) (Γ : Type v) where
  hardwareEventSelect : V → UInt32 → UInt32
  grow : V → Γ → V
  events : V → Γ → UInt32 → Nat
  select_grow : ∀ v g e,
    hardwareEventSelect (grow v g) e = hardwareEventSelect v e + .ofNat (events v g e)

/-- The counters of `GlobalVPMU` while the guest executes.  One operation counts fewer than
2^32 events, and `case -1` falls through to `case 0`. -/
def globalVPMU {β : Type u} (d : Counters.Dinero β) (cfg : Counters.Config) :
    EventCounters (Counters.GlobalVPMU β) Counters.Exec where
  hardwareEventSelect v e := Counters.hardwareEventSelect v cfg (if e = -1 then 0 else e.toNat)
  grow := Counters.GlobalVPMU.exec d cfg
  events v g e :=
    (Counters.hardwareEventSelect (v.exec d cfg g) cfg (if e = -1 then 0 else e.toNat) -
      Counters.hardwareEventSelect v cfg (if e = -1 then 0 else e.toNat)).toNat
  select_grow v g e := by simp

/-- The events of each kind counted so far, of which the low 32 bits are selected. -/
def eventCounts : EventCounters (UInt32 → Nat) (UInt32 → Nat) where
  hardwareEventSelect v e := .ofNat (v e)
  grow v n e := v e + n e
  events _ n := n
  select_grow v n e := UInt32.ofNat_add (v e) (n e)

/-- `cp14_pmu_state`, with `pmn_reset_value[0]`. -/
structure Cp14PmuState where
  pmnc : UInt32
  evtsel : UInt32
  pmn : Fin 4 → UInt32
  flag : UInt32
  inten : UInt32
  pmnResetValue : UInt32

/-- `qemu_mallocz`. -/
def Cp14PmuState.zero : Cp14PmuState := ⟨0, 0, fun _ => 0, 0, 0, 0⟩

/-- The registers, the counters and the level of the interrupt line. -/
structure Pmu (V : Type u) where
  cp14 : Cp14PmuState
  vpmu : V
  line : Bool

/-- The registers of `pxa2xx_perf_write`. -/
inductive PerfReg
  | pmnc | ccnt | inten | flag | evtsel | bad
  deriving DecidableEq

def flagMask : UInt32 := 0x1f

def pmn0Mask : UInt32 := 0x2

abbrev pmn0 : Fin 4 := 0

def pmncEbitMask : UInt32 := 0x1

/-- `x & mask` as a condition. -/
def anySet (x mask : UInt32) : Prop := x &&& mask ≠ 0

instance (x mask : UInt32) : Decidable (anySet x mask) := inferInstanceAs (Decidable (_ ≠ _))

section Device

variable {V : Type u} {Γ : Type v} (c : EventCounters V Γ)

namespace Pmu

/-- `vpmu_perf_counter_overflow_handled`. -/
def overflowHandled (p : Pmu V) : Pmu V :=
  if anySet p.cp14.inten pmn0Mask ∧ ¬anySet p.cp14.flag pmn0Mask then { p with line := false }
  else p

/-- `pxa2xx_perf_write`.  CCNT and bad registers only give a message. -/
def perfWrite (p : Pmu V) (reg : PerfReg) (value : UInt32) : Pmu V :=
  match reg with
  | .pmnc => { p with cp14.pmnc := value }
  | .ccnt => p
  | .inten => { p with cp14.inten := value }
  | .flag => { p with cp14.flag := ~~~(value &&& flagMask) &&& p.cp14.flag }.overflowHandled
  | .evtsel => { p with cp14.evtsel := value }
  | .bad => p

/-- `vpmu_hardware_event_select` on the kind of event in EVTSEL. -/
def selected (p : Pmu V) : UInt32 := c.hardwareEventSelect p.vpmu p.cp14.evtsel

/-- `pas_cp14_write` to one of PMN0 to PMN3. -/
def pmnWrite (p : Pmu V) (i : Fin 4) (value : UInt32) : Pmu V :=
  let written := { p with cp14.pmn := Function.update p.cp14.pmn i value }
  if i = pmn0 then { written with cp14.pmnResetValue := p.selected c } else written

/-- `pas_cp14_read` of PMN0. -/
def pmn0Read (p : Pmu V) : UInt32 := p.selected c - p.cp14.pmnResetValue + p.cp14.pmn 0

/-- `vir_value_interval`.  The 32-bit subtraction does not wrap. -/
def virValueInterval (p : Pmu V) : Nat := 0xffffffff - (p.cp14.pmn 0).toNat

/-- The test of `vpmu_perf_counter_overflow_testing`. -/
def Overflowed (p : Pmu V) : Prop :=
  (p.selected c - p.cp14.pmnResetValue).toNat > p.virValueInterval

instance (p : Pmu V) : Decidable (p.Overflowed c) := inferInstanceAs (Decidable (_ > _))

def Enabled (p : Pmu V) : Prop :=
  anySet p.cp14.inten pmn0Mask ∧ anySet p.cp14.pmnc pmncEbitMask

instance (p : Pmu V) : Decidable p.Enabled := inferInstanceAs (Decidable (_ ∧ _))

def raise (p : Pmu V) : Pmu V :=
  { p with cp14.flag := p.cp14.flag ||| pmn0Mask, line := true }

/-- `vpmu_perf_counter_overflow_testing`. -/
def overflowTesting (p : Pmu V) : Pmu V :=
  if p.Overflowed c then
    let flagged := if p.Enabled then p.raise else p
    { flagged with cp14.pmnResetValue := p.selected c }
  else p

end Pmu

/-- What reaches the device: accesses of the guest, the overflow test after a block, and the
events that the guest causes. -/
inductive Access (Γ : Type v)
  | perfWrite (reg : PerfReg) (value : UInt32)
  | pmnWrite (i : Fin 4) (value : UInt32)
  | overflowTesting
  | grow (g : Γ)

def Pmu.access (p : Pmu V) : Access Γ → Pmu V
  | .perfWrite reg value => p.perfWrite reg value
  | .pmnWrite i value => p.pmnWrite c i value
  | .overflowTesting => p.overflowTesting c
  | .grow g => { p with vpmu := c.grow p.vpmu g }

end Device

end M2M.Vpmu.Oprofile
