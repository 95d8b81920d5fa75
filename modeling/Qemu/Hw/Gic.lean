import Qemu.Lib.Runs
import Mathlib.Data.List.FinRange

namespace Qemu.Hw

/-!
# The generic interrupt controller (`hw/arm_gic.c`)

The distributor and the CPU interfaces, as they are built without `NVIC`.

* `gicUpdate` — the pending interrupt and the line of each CPU;
* `gicSetIrq`, `gicAcknowledgeIrq`, `gicCompleteIrq` — inputs, and what a CPU does with interrupts;
* `gicDistReadb`, `gicDistWriteb`, `gicCpuRead`, `gicCpuWrite` — the registers;
* `GicOp.exec` — one access or line change.
-/

/-- `NCPU`, `num_cpu` and `GIC_NIRQ`.  The number 1023 is no interrupt. -/
structure GicConfig where
  ncpu : Nat
  numCpu : Nat
  nirq : Nat
  cpus : numCpu ≤ ncpu
  blocks : 32 ∣ nirq
  internal : 32 ≤ nirq
  special : nirq ≤ 1023

/-- `gic_irq_state` -/
structure GicIrqState (ncpu : Nat) where
  enabled : Bool
  pending : BitVec ncpu
  active : BitVec ncpu
  level : BitVec ncpu
  model : Bool
  trigger : Bool

/-- `gic_state`, and the lines of the CPUs. -/
structure Gic (cfg : GicConfig) where
  enabled : Bool
  cpuEnabled : Fin cfg.numCpu → Bool
  irqState : Fin cfg.nirq → GicIrqState cfg.ncpu
  irqTarget : Fin cfg.nirq → BitVec cfg.ncpu
  priority1 : Fin 32 → Fin cfg.numCpu → BitVec 8
  priority2 : Fin (cfg.nirq - 32) → BitVec 8
  lastActive : Fin cfg.nirq → Fin cfg.numCpu → Nat
  priorityMask : Fin cfg.numCpu → BitVec 8
  runningIrq : Fin cfg.numCpu → Nat
  runningPriority : Fin cfg.numCpu → Nat
  currentPending : Fin cfg.numCpu → Nat
  parentIrq : Fin cfg.numCpu → Bool

/-- Why an access does not return: `hw_error`, an index outside of an array, or a loop that does
    not end. -/
inductive GicStop
  | hwError | fault | endless
deriving DecidableEq

variable {cfg : GicConfig}

/-- A number that is used as an index. -/
def gicIndex (cfg : GicConfig) (irq : Nat) : Except GicStop (Fin cfg.nirq) :=
  if h : irq < cfg.nirq then .ok ⟨irq, h⟩ else .error .fault

/-- `1 << cpu` -/
def gicCpuMask (cpu : Fin cfg.numCpu) : BitVec cfg.ncpu := BitVec.twoPow cfg.ncpu cpu

/-- `GIC_GET_PRIORITY` -/
def gicGetPriority (s : Gic cfg) (irq : Fin cfg.nirq) (cpu : Fin cfg.numCpu) : BitVec 8 :=
  if h : irq.val < 32 then s.priority1 ⟨irq, h⟩ cpu
  else s.priority2 ⟨irq - 32, Nat.sub_lt_sub_right (Nat.le_of_not_lt h) irq.isLt⟩

/-- `GIC_TEST_PENDING` -/
def gicTestPending (s : Gic cfg) (irq : Fin cfg.nirq) (mask : BitVec cfg.ncpu) : Bool :=
  (s.irqState irq).pending &&& mask != 0

/-- `GIC_TEST_LEVEL` -/
def gicTestLevel (s : Gic cfg) (irq : Fin cfg.nirq) (mask : BitVec cfg.ncpu) : Bool :=
  (s.irqState irq).level &&& mask != 0

/-- A change of the state of one interrupt. -/
def Gic.withIrq (s : Gic cfg) (irq : Fin cfg.nirq)
    (f : GicIrqState cfg.ncpu → GicIrqState cfg.ncpu) : Gic cfg :=
  { s with irqState := Function.update s.irqState irq (f (s.irqState irq)) }

/-- `GIC_SET_PENDING` -/
def gicSetPending (mask : BitVec cfg.ncpu) (st : GicIrqState cfg.ncpu) : GicIrqState cfg.ncpu :=
  { st with pending := st.pending ||| mask }

/-- `GIC_CLEAR_PENDING` -/
def gicClearPending (mask : BitVec cfg.ncpu) (st : GicIrqState cfg.ncpu) : GicIrqState cfg.ncpu :=
  { st with pending := st.pending &&& ~~~mask }

/-! ### The update -/

/-- The distributor and the interface of a CPU are enabled. -/
def Gic.active (s : Gic cfg) (cpu : Fin cfg.numCpu) : Bool := s.enabled && s.cpuEnabled cpu

/-- An interrupt is enabled, and pending for a CPU. -/
def Gic.raised (s : Gic cfg) (cpu : Fin cfg.numCpu) (irq : Fin cfg.nirq) : Bool :=
  (s.irqState irq).enabled && gicTestPending s irq (gicCpuMask cpu)

/-- `best_prio` and `best_irq` behind an interrupt. -/
def gicBetter (s : Gic cfg) (cpu : Fin cfg.numCpu) (best : Nat × Nat) (irq : Fin cfg.nirq) :
    Nat × Nat :=
  if s.raised cpu irq then
    if (gicGetPriority s irq cpu).toNat < best.1 then ((gicGetPriority s irq cpu).toNat, irq.val)
    else best
  else best

/-- `best_prio` and `best_irq` -/
def gicBest (s : Gic cfg) (cpu : Fin cfg.numCpu) : Nat × Nat :=
  (List.finRange cfg.nirq).foldl (gicBetter s cpu) (0x100, 1023)

/-- What `gic_update` tells a CPU. -/
def Gic.tell (s : Gic cfg) (cpu : Fin cfg.numCpu) (pending : Nat) (level : Bool) : Gic cfg :=
  { s with
    currentPending := Function.update s.currentPending cpu pending
    parentIrq := Function.update s.parentIrq cpu level }

/-- A turn of `gic_update` for a CPU that is enabled. -/
def gicUpdateCpu (s : Gic cfg) (cpu : Fin cfg.numCpu) : Gic cfg :=
  let best := gicBest s cpu
  if best.1 ≤ (s.priorityMask cpu).toNat then
    s.tell cpu best.2 (decide (best.1 < s.runningPriority cpu))
  else s.tell cpu 1023 false

/-- The loop of `gic_update`, which returns at a CPU that is not enabled. -/
def gicUpdateLoop : List (Fin cfg.numCpu) → Gic cfg → Gic cfg
  | [], s => s
  | cpu :: cpus, s =>
    if s.active cpu then gicUpdateLoop cpus (gicUpdateCpu s cpu) else s.tell cpu 1023 false

/-- `gic_update` -/
def gicUpdate (s : Gic cfg) : Gic cfg := gicUpdateLoop (List.finRange cfg.numCpu) s

/-! ### Interrupts -/

/-- `gic_set_pending_private` -/
def gicSetPendingPrivate (s : Gic cfg) (cpu : Fin cfg.numCpu) (irq : Nat) :
    Except GicStop (Gic cfg) := do
  let irq ← gicIndex cfg irq
  if gicTestPending s irq (gicCpuMask cpu) then return s
  else return gicUpdate (s.withIrq irq (gicSetPending (gicCpuMask cpu)))

/-- `gic_set_irq` -/
def gicSetIrq (s : Gic cfg) (irq : Nat) (level : Int) : Except GicStop (Gic cfg) := do
  let irq ← gicIndex cfg (irq + 32)
  if level = (if gicTestLevel s irq (BitVec.allOnes cfg.ncpu) then 1 else 0) then return s
  else if level ≠ 0 then
    let s := s.withIrq irq fun st => { st with level := BitVec.allOnes cfg.ncpu }
    if (s.irqState irq).trigger || (s.irqState irq).enabled then
      return gicUpdate (s.withIrq irq (gicSetPending (s.irqTarget irq)))
    else return gicUpdate s
  else
    return gicUpdate (s.withIrq irq fun st =>
      { st with level := st.level &&& ~~~BitVec.allOnes cfg.ncpu })

/-- The running priority of `gic_set_running_irq`. -/
def gicRunningPriority (s : Gic cfg) (cpu : Fin cfg.numCpu) (irq : Nat) : Except GicStop Nat :=
  if irq = 1023 then .ok 0x100
  else (gicIndex cfg irq).map fun irq => (gicGetPriority s irq cpu).toNat

/-- `gic_set_running_irq` -/
def gicSetRunningIrq (s : Gic cfg) (cpu : Fin cfg.numCpu) (irq : Nat) :
    Except GicStop (Gic cfg) :=
  (gicRunningPriority s cpu irq).map fun priority =>
    gicUpdate { s with
      runningIrq := Function.update s.runningIrq cpu irq
      runningPriority := Function.update s.runningPriority cpu priority }

/-- `s->last_active[irq][cpu] = x` -/
def Gic.link (s : Gic cfg) (irq : Fin cfg.nirq) (cpu : Fin cfg.numCpu) (x : Nat) : Gic cfg :=
  { s with
    lastActive :=
      Function.update s.lastActive irq (Function.update (s.lastActive irq) cpu x) }

/-- `gic_acknowledge_irq` -/
def gicAcknowledgeIrq (s : Gic cfg) (cpu : Fin cfg.numCpu) : Except GicStop (Gic cfg × Nat) :=
  if s.currentPending cpu = 1023 then .ok (s, 1023)
  else do
    let newIrq ← gicIndex cfg (s.currentPending cpu)
    if s.runningPriority cpu ≤ (gicGetPriority s newIrq cpu).toNat then return (s, 1023)
    else
      let s := s.link newIrq cpu (s.runningIrq cpu)
      let mask :=
        if (s.irqState newIrq).model then BitVec.allOnes cfg.ncpu else gicCpuMask cpu
      let s ← gicSetRunningIrq (s.withIrq newIrq (gicClearPending mask)) cpu newIrq
      return (s, newIrq.val)

/-- The loop of `gic_complete_irq`, from `tmp` on.  A chain without a cycle has at most as many
    interrupts as there are. -/
def gicUnlink (s : Gic cfg) (cpu : Fin cfg.numCpu) (irq : Nat) :
    Nat → Nat → Except GicStop (Gic cfg)
  | 0, _ => .error .endless
  | fuel + 1, tmp => do
    let tmp ← gicIndex cfg tmp
    if s.lastActive tmp cpu = 1023 then return s
    else if s.lastActive tmp cpu = irq then
      let irq ← gicIndex cfg irq
      return s.link tmp cpu (s.lastActive irq cpu)
    else gicUnlink s cpu irq fuel (s.lastActive tmp cpu)

/-- A level triggered interrupt that is still raised when it ends becomes pending. -/
def gicStillRaised (s : Gic cfg) (cpu : Fin cfg.numCpu) (irq : Fin cfg.nirq) : Bool :=
  !(s.irqState irq).trigger && (s.irqState irq).enabled &&
    gicTestLevel s irq (gicCpuMask cpu) && s.irqTarget irq &&& gicCpuMask cpu != 0

/-- The first half of `gic_complete_irq`, and `update`. -/
def gicReraise (s : Gic cfg) (cpu : Fin cfg.numCpu) (irq : Nat) :
    Except GicStop (Gic cfg × Bool) :=
  if irq = 1023 then .ok (s, false)
  else do
    let irq ← gicIndex cfg irq
    if gicStillRaised s cpu irq then
      return (s.withIrq irq (gicSetPending (gicCpuMask cpu)), true)
    else return (s, false)

/-- `gic_complete_irq` -/
def gicCompleteIrq (s : Gic cfg) (cpu : Fin cfg.numCpu) (irq : Nat) :
    Except GicStop (Gic cfg) :=
  if s.runningIrq cpu = 1023 then .ok s
  else do
    let (s, update) ← gicReraise s cpu irq
    if irq ≠ s.runningIrq cpu then
      let s ← gicUnlink s cpu irq cfg.nirq (s.runningIrq cpu)
      return if update then gicUpdate s else s
    else
      let running ← gicIndex cfg (s.runningIrq cpu)
      gicSetRunningIrq s cpu (s.lastActive running cpu)

/-! ### The distributor -/

/-- `gic_id` -/
def gicId : Vector (BitVec 32) 8 := #v[0x90, 0x13, 0x04, 0x00, 0x0d, 0xf0, 0x05, 0xb1]

/-- A loop of `gic_dist_readb`: the bits of `n` interrupts. -/
def gicReadBits (n irq : Nat) (bits : Nat → Fin cfg.nirq → BitVec 32) :
    Except GicStop (BitVec 32) :=
  (List.range n).foldlM (fun res i => (gicIndex cfg (irq + i)).map fun irq => res ||| bits i irq) 0

/-- The bit that tells of an interrupt. -/
def gicBit (test : Fin cfg.nirq → Bool) (i : Nat) (irq : Fin cfg.nirq) : BitVec 32 :=
  if test irq then BitVec.twoPow 32 i else 0

/-- The registers that are about the interrupts from a number on, which is checked. -/
def gicBlock (cfg : GicConfig) {α : Type} (irq : Nat) (next : Except GicStop α) :
    Except GicStop α :=
  if cfg.nirq ≤ irq then .error .hwError else next

/-- Interrupt Active, which tells of the CPU itself for its own interrupts. -/
def gicReadActive (s : Gic cfg) (cpu : Fin cfg.numCpu) (irq : Nat) : Except GicStop (BitVec 32) :=
  let mask := if irq < 32 then gicCpuMask cpu else BitVec.allOnes cfg.ncpu
  gicReadBits 8 irq (gicBit fun irq => (s.irqState irq).active &&& mask != 0)

/-- Interrupt Set/Clear Enable -/
def gicReadEnable (s : Gic cfg) (irq : Nat) : Except GicStop (BitVec 32) :=
  gicReadBits 8 irq (gicBit fun irq => (s.irqState irq).enabled)

/-- Interrupt Set/Clear Pending -/
def gicReadPend (s : Gic cfg) (cpu : Fin cfg.numCpu) (irq : Nat) : Except GicStop (BitVec 32) :=
  let mask := if irq < 32 then gicCpuMask cpu else BitVec.allOnes cfg.ncpu
  gicReadBits 8 irq (gicBit fun irq => gicTestPending s irq mask)

/-- Interrupt Priority -/
def gicReadPriority (s : Gic cfg) (cpu : Fin cfg.numCpu) (irq : Nat) :
    Except GicStop (BitVec 32) :=
  (gicIndex cfg irq).map fun irq => (gicGetPriority s irq cpu).setWidth 32

/-- Interrupt CPU Target -/
def gicReadTarget (s : Gic cfg) (cpu : Fin cfg.numCpu) (irq : Nat) : Except GicStop (BitVec 32) :=
  if 29 ≤ irq ∧ irq ≤ 31 then .ok ((gicCpuMask cpu).setWidth 32)
  else (gicIndex cfg irq).map fun irq => (s.irqTarget irq).setWidth 32

/-- Interrupt Configuration -/
def gicReadConfig (s : Gic cfg) (irq : Nat) : Except GicStop (BitVec 32) :=
  gicReadBits 4 irq fun i irq =>
    (if (s.irqState irq).model then BitVec.twoPow 32 (i * 2) else 0) |||
      (if (s.irqState irq).trigger then BitVec.twoPow 32 (i * 2 + 1) else 0)

/-- The registers in front of the interrupts'. -/
def gicReadControl (s : Gic cfg) (offset : Nat) : Except GicStop (BitVec 32) :=
  if offset = 0 then .ok (if s.enabled then 1 else 0)
  else if offset = 4 then
    .ok (BitVec.ofNat 32 (cfg.nirq / 32 - 1) ||| BitVec.ofNat 32 (cfg.numCpu - 1) <<< 5)
  else if offset < 0x08 then .ok 0
  else .error .hwError

/-- The registers behind the interrupts'. -/
def gicReadId (offset : Nat) : Except GicStop (BitVec 32) :=
  if offset % 4 ≠ 0 then .ok 0
  else
    match gicId[(offset - 0xfe0) / 4]? with
    | some id => .ok id
    | none => .error .fault

/-- `gic_dist_readb` -/
def gicDistReadb (s : Gic cfg) (cpu : Fin cfg.numCpu) (offset : Nat) :
    Except GicStop (BitVec 32) :=
  if offset < 0x100 then gicReadControl s offset
  else if offset < 0x180 then
    gicBlock cfg ((offset - 0x100) * 8) (gicReadEnable s ((offset - 0x100) * 8))
  else if offset < 0x200 then
    gicBlock cfg ((offset - 0x180) * 8) (gicReadEnable s ((offset - 0x180) * 8))
  else if offset < 0x280 then
    gicBlock cfg ((offset - 0x200) * 8) (gicReadPend s cpu ((offset - 0x200) * 8))
  else if offset < 0x300 then
    gicBlock cfg ((offset - 0x280) * 8) (gicReadPend s cpu ((offset - 0x280) * 8))
  else if offset < 0x400 then
    gicBlock cfg ((offset - 0x300) * 8) (gicReadActive s cpu ((offset - 0x300) * 8))
  else if offset < 0x800 then gicBlock cfg (offset - 0x400) (gicReadPriority s cpu (offset - 0x400))
  else if offset < 0xc00 then gicBlock cfg (offset - 0x800) (gicReadTarget s cpu (offset - 0x800))
  else if offset < 0xf00 then
    gicBlock cfg ((offset - 0xc00) * 2) (gicReadConfig s ((offset - 0xc00) * 2))
  else if offset < 0xfe0 then .error .hwError
  else gicReadId offset

/-- `gic_dist_readw` -/
def gicDistReadw (s : Gic cfg) (cpu : Fin cfg.numCpu) (offset : Nat) :
    Except GicStop (BitVec 32) := do
  let low ← gicDistReadb s cpu offset
  let high ← gicDistReadb s cpu (offset + 1)
  return low ||| high <<< 8

/-- `gic_dist_readl` -/
def gicDistReadl (s : Gic cfg) (cpu : Fin cfg.numCpu) (offset : Nat) :
    Except GicStop (BitVec 32) := do
  let low ← gicDistReadw s cpu offset
  let high ← gicDistReadw s cpu (offset + 2)
  return low ||| high <<< 16

/-- A loop of `gic_dist_writeb`: changes of the selected ones of `n` interrupts. -/
def gicWriteBits (s : Gic cfg) (n irq : Nat) (select : Nat → Bool)
    (f : Nat → GicIrqState cfg.ncpu → GicIrqState cfg.ncpu) : Except GicStop (Gic cfg) :=
  (List.range n).foldlM
    (fun s i =>
      if select i then (gicIndex cfg (irq + i)).map fun irq => s.withIrq irq (f i) else .ok s) s

/-- An interrupt is enabled.  If it is level triggered and raised, it becomes pending. -/
def gicEnableIrq (mask : BitVec cfg.ncpu) (st : GicIrqState cfg.ncpu) : GicIrqState cfg.ncpu :=
  let st := { st with enabled := true }
  if st.level &&& mask != 0 && !st.trigger then gicSetPending mask st else st

/-- Interrupt Set Enable -/
def gicSetEnable (s : Gic cfg) (cpu : Fin cfg.numCpu) (irq : Nat) (value : BitVec 8) :
    Except GicStop (Gic cfg) := do
  let value := if irq < 16 then 0xff else value
  let target ← gicIndex cfg irq
  let mask := if irq < 32 then gicCpuMask cpu else s.irqTarget target
  gicWriteBits s 8 irq value.getLsbD fun _ => gicEnableIrq mask

/-- Interrupt Clear Enable -/
def gicClearEnable (s : Gic cfg) (irq : Nat) (value : BitVec 8) : Except GicStop (Gic cfg) :=
  let value := if irq < 16 then 0 else value
  gicWriteBits s 8 irq value.getLsbD fun _ st => { st with enabled := false }

/-- Interrupt Set Pending -/
def gicSetPend (s : Gic cfg) (irq : Nat) (value : BitVec 8) : Except GicStop (Gic cfg) := do
  let irq := if irq < 16 then 0 else irq
  let target ← gicIndex cfg irq
  gicWriteBits s 8 irq value.getLsbD fun _ => gicSetPending (s.irqTarget target)

/-- Interrupt Clear Pending -/
def gicClearPend (s : Gic cfg) (irq : Nat) (value : BitVec 8) : Except GicStop (Gic cfg) :=
  gicWriteBits s 8 irq value.getLsbD fun _ => gicClearPending (BitVec.allOnes cfg.ncpu)

/-- Interrupt Priority -/
def gicSetPriority (s : Gic cfg) (cpu : Fin cfg.numCpu) (irq : Nat) (value : BitVec 8) :
    Except GicStop (Gic cfg) :=
  if h : irq < 32 then
    let row := Function.update (s.priority1 ⟨irq, h⟩) cpu value
    .ok { s with priority1 := Function.update s.priority1 ⟨irq, h⟩ row }
  else if h : irq - 32 < cfg.nirq - 32 then
    .ok { s with priority2 := Function.update s.priority2 ⟨irq - 32, h⟩ value }
  else .error .fault

/-- Interrupt CPU Target -/
def gicSetTarget (s : Gic cfg) (irq : Nat) (value : BitVec 8) : Except GicStop (Gic cfg) :=
  let target :=
    if irq < 29 then 0
    else if irq < 32 then BitVec.allOnes cfg.ncpu
    else value.setWidth cfg.ncpu
  (gicIndex cfg irq).map fun irq =>
    { s with irqTarget := Function.update s.irqTarget irq target }

/-- Interrupt Configuration -/
def gicSetConfig (s : Gic cfg) (irq : Nat) (value : BitVec 8) : Except GicStop (Gic cfg) :=
  let value := if irq < 32 then value ||| 0xaa else value
  gicWriteBits s 4 irq (fun _ => true) fun i st =>
    { st with model := value.getLsbD (i * 2), trigger := value.getLsbD (i * 2 + 1) }

/-- The registers that `gic_dist_writeb` changes. -/
def gicDistSet (s : Gic cfg) (cpu : Fin cfg.numCpu) (offset : Nat) (value : BitVec 8) :
    Except GicStop (Gic cfg) :=
  if offset < 0x100 then
    if offset = 0 then .ok { s with enabled := value.getLsbD 0 }
    else if offset < 4 then .ok s
    else .error .hwError
  else if offset < 0x180 then
    gicBlock cfg ((offset - 0x100) * 8) (gicSetEnable s cpu ((offset - 0x100) * 8) value)
  else if offset < 0x200 then
    gicBlock cfg ((offset - 0x180) * 8) (gicClearEnable s ((offset - 0x180) * 8) value)
  else if offset < 0x280 then
    gicBlock cfg ((offset - 0x200) * 8) (gicSetPend s ((offset - 0x200) * 8) value)
  else if offset < 0x300 then
    gicBlock cfg ((offset - 0x280) * 8) (gicClearPend s ((offset - 0x280) * 8) value)
  else if offset < 0x400 then .error .hwError
  else if offset < 0x800 then
    gicBlock cfg (offset - 0x400) (gicSetPriority s cpu (offset - 0x400) value)
  else if offset < 0xc00 then gicBlock cfg (offset - 0x800) (gicSetTarget s (offset - 0x800) value)
  else if offset < 0xf00 then
    gicBlock cfg ((offset - 0xc00) * 4) (gicSetConfig s ((offset - 0xc00) * 4) value)
  else .error .hwError

/-- `gic_dist_writeb` -/
def gicDistWriteb (s : Gic cfg) (cpu : Fin cfg.numCpu) (offset : Nat) (value : BitVec 8) :
    Except GicStop (Gic cfg) :=
  (gicDistSet s cpu offset value).map gicUpdate

/-- `gic_dist_writew` -/
def gicDistWritew (s : Gic cfg) (cpu : Fin cfg.numCpu) (offset : Nat) (value : BitVec 16) :
    Except GicStop (Gic cfg) := do
  let s ← gicDistWriteb s cpu offset (value.setWidth 8)
  gicDistWriteb s cpu (offset + 1) ((value >>> 8).setWidth 8)

/-- The software interrupts of `gic_dist_writel`. -/
def gicSoftInt (s : Gic cfg) (cpu : Fin cfg.numCpu) (value : BitVec 32) :
    Except GicStop (Gic cfg) := do
  let mask : BitVec cfg.ncpu :=
    match (value >>> 24 &&& 3).toNat with
    | 0 => (value >>> 16).setWidth cfg.ncpu
    | 1 => gicCpuMask cpu
    | 2 => BitVec.allOnes cfg.ncpu ^^^ gicCpuMask cpu
    | _ => BitVec.allOnes cfg.ncpu
  let irq ← gicIndex cfg (value &&& 0x3ff).toNat
  return gicUpdate (s.withIrq irq (gicSetPending mask))

/-- `gic_dist_writel` -/
def gicDistWritel (s : Gic cfg) (cpu : Fin cfg.numCpu) (offset : Nat) (value : BitVec 32) :
    Except GicStop (Gic cfg) :=
  if offset = 0xf00 then gicSoftInt s cpu value
  else do
    let s ← gicDistWritew s cpu offset (value.setWidth 16)
    gicDistWritew s cpu (offset + 2) ((value >>> 16).setWidth 16)

/-! ### The CPU interfaces -/

/-- `gic_cpu_read` -/
def gicCpuRead (s : Gic cfg) (cpu : Fin cfg.numCpu) (offset : Nat) :
    Except GicStop (Gic cfg × Nat) :=
  match offset with
  | 0x00 => .ok (s, if s.cpuEnabled cpu then 1 else 0)
  | 0x04 => .ok (s, (s.priorityMask cpu).toNat)
  | 0x08 => .ok (s, 0)
  | 0x0c => gicAcknowledgeIrq s cpu
  | 0x14 => .ok (s, s.runningPriority cpu)
  | 0x18 => .ok (s, s.currentPending cpu)
  | _ => .error .hwError

/-- `gic_cpu_write` -/
def gicCpuWrite (s : Gic cfg) (cpu : Fin cfg.numCpu) (offset : Nat) (value : BitVec 32) :
    Except GicStop (Gic cfg) :=
  match offset with
  | 0x00 =>
    .ok (gicUpdate { s with
      cpuEnabled := Function.update s.cpuEnabled cpu (value.getLsbD 0) })
  | 0x04 =>
    .ok (gicUpdate { s with
      priorityMask := Function.update s.priorityMask cpu (value.setWidth 8) })
  | 0x08 => .ok (gicUpdate s)
  | 0x10 => gicCompleteIrq s cpu (value &&& 0x3ff).toNat
  | _ => .error .hwError

/-- `gic_reset` of a new controller. -/
def gicReset (cfg : GicConfig) : Gic cfg where
  enabled := false
  cpuEnabled _ := false
  irqState irq :=
    { enabled := decide (irq.val < 16)
      pending := 0
      active := 0
      level := 0
      model := false
      trigger := decide (irq.val < 16) }
  irqTarget _ := 0
  priority1 _ _ := 0
  priority2 _ := 0
  lastActive _ _ := 0
  priorityMask _ := 0xf0
  runningIrq _ := 1023
  runningPriority _ := 0x100
  currentPending _ := 1023
  parentIrq _ := false

/-! ### The machine -/

/-- An access to the distributor, which is aligned. -/
inductive GicRead
  | byte (offset : Fin 0x1000)
  | half (place : Fin 0x800)
  | word (place : Fin 0x400)
deriving DecidableEq

/-- A write to the distributor, of one of three widths. -/
inductive GicWrite
  | byte (offset : Fin 0x1000) (value : BitVec 8)
  | half (place : Fin 0x800) (value : BitVec 16)
  | word (place : Fin 0x400) (value : BitVec 32)
deriving DecidableEq

/-- What the CPUs and the devices do to the controller: its input lines and the timers of a CPU,
    and the registers. -/
inductive GicOp (cfg : GicConfig)
  | setIrq (irq : Fin (cfg.nirq - 32)) (level : Int)
  | timer (cpu : Fin cfg.numCpu) (watchdog : Bool)
  | distRead (cpu : Fin cfg.numCpu) (access : GicRead)
  | distWrite (cpu : Fin cfg.numCpu) (access : GicWrite)
  | cpuRead (cpu : Fin cfg.numCpu) (offset : Nat)
  | cpuWrite (cpu : Fin cfg.numCpu) (offset : Nat) (value : BitVec 32)

/-- What a read returns. -/
def GicRead.access (s : Gic cfg) (cpu : Fin cfg.numCpu) : GicRead → Except GicStop (BitVec 32)
  | .byte offset => gicDistReadb s cpu offset
  | .half place => gicDistReadw s cpu (2 * place)
  | .word place => gicDistReadl s cpu (4 * place)

/-- What a write leaves. -/
def GicWrite.access (s : Gic cfg) (cpu : Fin cfg.numCpu) : GicWrite → Except GicStop (Gic cfg)
  | .byte offset value => gicDistWriteb s cpu offset value
  | .half place value => gicDistWritew s cpu (2 * place) value
  | .word place value => gicDistWritel s cpu (4 * place) value

/-- What an operation leaves. -/
def GicOp.access (s : Gic cfg) : GicOp cfg → Except GicStop (Gic cfg)
  | .setIrq irq level => gicSetIrq s irq level
  | .timer cpu watchdog => gicSetPendingPrivate s cpu (29 + watchdog.toNat)
  | .distRead cpu access => (access.access s cpu).map fun _ => s
  | .distWrite cpu access => access.access s cpu
  | .cpuRead cpu offset => (gicCpuRead s cpu offset).map Prod.fst
  | .cpuWrite cpu offset value => gicCpuWrite s cpu offset value

/-- The machine runs until `hw_error` ends it. -/
inductive GicMachine (cfg : GicConfig)
  | running (s : Gic cfg)
  | halted

/-- After a reset. -/
def GicMachine.start (cfg : GicConfig) : GicMachine cfg := .running (gicReset cfg)

/-- The outcome of an access: `none` if it indexed outside of an array, or does not return. -/
def GicMachine.after : Except GicStop (Gic cfg) → Option (GicMachine cfg)
  | .ok s => some (.running s)
  | .error .hwError => some .halted
  | .error .fault => none
  | .error .endless => none

/-- One operation; `hw_error` halts the machine. -/
def GicOp.exec : GicMachine cfg → GicOp cfg → Option (GicMachine cfg)
  | .running s, op => GicMachine.after (op.access s)
  | .halted, _ => some .halted

end Qemu.Hw
