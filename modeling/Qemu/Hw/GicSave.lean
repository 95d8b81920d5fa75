import Qemu.Hw.GicLine
import Qemu.Lib.Stream

namespace Qemu.Hw

open Lib

/-!
# Saving and loading the generic interrupt controller (`gic_save`, `gic_load`)

* `gicSave`, `gicLoad` — the bytes of a controller, and a controller that is loaded from them;
* `reads_flag`, `reads_cpu`, `reads_irq` — the fields;
* `gicLoad_gicSave` — what is loaded: the targets behind the first ones stay as they were;
* `gicRestores_iff` — all is restored if those agree.

The lines of the CPUs are not a part of `gic_state`.
-/

/-- The builds of the controller: `NCPU` is 1 or 4, so that a set of CPUs fits a byte. -/
structure GicBuild extends GicConfig where
  cpu : 0 < numCpu
  narrow : ncpu ≤ 8

variable {cfg : GicBuild}

/-- The interrupt with the number of a CPU. -/
def gicTargetIndex (cpu : Fin cfg.numCpu) : Fin cfg.nirq :=
  ⟨cpu, Nat.lt_of_lt_of_le cpu.isLt <| cfg.cpus.trans <| cfg.narrow.trans <|
    Nat.le_trans (by decide) cfg.internal⟩

/-! ### Save -/

/-- A flag as a word. -/
def putFlag (b : Bool) : List Byte := putBe32 (if b then 1 else 0)

/-- An `int` as a word. -/
def putNumber (n : Nat) : List Byte := putBe32 (BitVec.ofNat 32 n)

/-- A turn of the loop over the CPUs. -/
def gicSaveCpu (s : Gic cfg.toGicConfig) (i : Fin cfg.numCpu) : List Byte :=
  putFlag (s.cpuEnabled i) ++ (putBe32 ((s.irqTarget (gicTargetIndex i)).setWidth 32) ++
    (putVec (fun j => putBe32 ((s.priority1 j i).setWidth 32)) ++
      (putVec (fun j => putNumber (s.lastActive j i)) ++
        (putBe32 ((s.priorityMask i).setWidth 32) ++ (putNumber (s.runningIrq i) ++
          (putNumber (s.runningPriority i) ++ putNumber (s.currentPending i)))))))

/-- A turn of the loop over the interrupts. -/
def gicSaveIrq {ncpu : Nat} (st : GicIrqState ncpu) : List Byte :=
  putByte (if st.enabled then 1 else 0) ++ (putByte (st.pending.setWidth 8) ++
    (putByte (st.active.setWidth 8) ++ (putByte (st.level.setWidth 8) ++
      (putByte (if st.model then 1 else 0) ++ putByte (if st.trigger then 1 else 0)))))

/-- `gic_save` -/
def gicSave (s : Gic cfg.toGicConfig) : List Byte :=
  putFlag s.enabled ++ (putVec (gicSaveCpu s) ++
    (putVec (fun i => putBe32 ((s.priority2 i).setWidth 32)) ++
      putVec fun i => gicSaveIrq (s.irqState i)))

/-! ### Load -/

/-- A word into a flag. -/
def getFlag : Get Bool := do
  let word ← getBe32
  Pure.pure (word != 0)

/-- A word into a number. -/
def getNumber : Get Nat := do
  let word ← getBe32
  Pure.pure word.toNat

/-- A word into bits. -/
def getBits (n : Nat) : Get (BitVec n) := do
  let word ← getBe32
  Pure.pure (word.setWidth n)

/-- A byte into a bit field. -/
def getField (n : Nat) : Get (BitVec n) := do
  let byte ← getByte
  Pure.pure (byte.setWidth n)

/-- A byte into one bit. -/
def getBit : Get Bool := do
  let byte ← getByte
  Pure.pure (byte.getLsbD 0)

/-- What is loaded for a CPU. -/
structure GicCpuState (cfg : GicBuild) where
  enabled : Bool
  irqTarget : BitVec cfg.ncpu
  priority1 : Fin 32 → BitVec 8
  lastActive : Fin cfg.nirq → Nat
  priorityMask : BitVec 8
  runningIrq : Nat
  runningPriority : Nat
  currentPending : Nat

/-- `gic_load`, the part of a CPU. -/
def gicLoadCpu (cfg : GicBuild) : Get (GicCpuState cfg) := do
  let enabled ← getFlag
  let irqTarget ← getBits cfg.ncpu
  let priority1 ← getVec (getBits 8) 32
  let lastActive ← getVec getNumber cfg.nirq
  let priorityMask ← getBits 8
  let runningIrq ← getNumber
  let runningPriority ← getNumber
  let currentPending ← getNumber
  Pure.pure ⟨enabled, irqTarget, priority1, lastActive, priorityMask, runningIrq, runningPriority,
    currentPending⟩

/-- `gic_load`, the part of an interrupt. -/
def gicLoadIrq (ncpu : Nat) : Get (GicIrqState ncpu) := do
  let enabled ← getBit
  let pending ← getField ncpu
  let active ← getField ncpu
  let level ← getField ncpu
  let model ← getBit
  let trigger ← getBit
  Pure.pure ⟨enabled, pending, active, level, model, trigger⟩

/-- A controller with these fields, and the rest of another one. -/
def Gic.loaded (s : Gic cfg.toGicConfig) (enabled : Bool) (cpus : Fin cfg.numCpu → GicCpuState cfg)
    (priority2 : Fin (cfg.nirq - 32) → BitVec 8)
    (irqState : Fin cfg.nirq → GicIrqState cfg.ncpu) : Gic cfg.toGicConfig :=
  { s with
    enabled := enabled
    cpuEnabled := fun i => (cpus i).enabled
    irqTarget := fun irq =>
      if h : irq.val < cfg.numCpu then (cpus ⟨irq, h⟩).irqTarget else s.irqTarget irq
    priority1 := fun j i => (cpus i).priority1 j
    lastActive := fun j i => (cpus i).lastActive j
    priorityMask := fun i => (cpus i).priorityMask
    runningIrq := fun i => (cpus i).runningIrq
    runningPriority := fun i => (cpus i).runningPriority
    currentPending := fun i => (cpus i).currentPending
    priority2 := priority2
    irqState := irqState }

/-- `gic_load`; another version is an error. -/
def gicLoad (s : Gic cfg.toGicConfig) (version : Int) : Get (Gic cfg.toGicConfig) :=
  if version ≠ 1 then fun _ => none
  else do
    let enabled ← getFlag
    let cpus ← getVec (gicLoadCpu cfg) cfg.numCpu
    let priority2 ← getVec (getBits 8) (cfg.nirq - 32)
    let irqState ← getVec (gicLoadIrq cfg.ncpu) cfg.nirq
    Pure.pure (s.loaded enabled cpus priority2 irqState)

/-! ### What is loaded -/

theorem reads_flag (b : Bool) : Reads getFlag (putFlag b) b := by
  have h := (reads_be32 (if b then 1 else 0)).map (f := (· != 0))
  cases b <;> exact h

theorem reads_number {n : Nat} (h : n < 2 ^ 32) : Reads getNumber (putNumber n) n := by
  have hreads := (reads_be32 (BitVec.ofNat 32 n)).map (f := BitVec.toNat)
  rwa [BitVec.toNat_ofNat, Nat.mod_eq_of_lt h] at hreads

theorem reads_bits {n : Nat} (h : n ≤ 32) (v : BitVec n) :
    Reads (getBits n) (putBe32 (v.setWidth 32)) v := by
  have hreads := (reads_be32 (v.setWidth 32)).map (f := BitVec.setWidth n)
  rwa [BitVec.setWidth_setWidth_of_le v h, BitVec.setWidth_eq] at hreads

theorem reads_field {n : Nat} (h : n ≤ 8) (v : BitVec n) :
    Reads (getField n) (putByte (v.setWidth 8)) v := by
  have hreads := (reads_byte (v.setWidth 8)).map (f := BitVec.setWidth n)
  rwa [BitVec.setWidth_setWidth_of_le v h, BitVec.setWidth_eq] at hreads

theorem reads_bit (b : Bool) : Reads getBit (putByte (if b then 1 else 0)) b := by
  have h := (reads_byte (if b then 1 else 0)).map (f := fun byte => byte.getLsbD 0)
  cases b <;> exact h

/-- The numbers of a controller fit a word. -/
structure Gic.Small {cfg : GicConfig} (s : Gic cfg) : Prop where
  lastActive : ∀ irq cpu, s.lastActive irq cpu < 1024
  runningIrq : ∀ cpu, s.runningIrq cpu < 1024
  runningPriority : ∀ cpu, s.runningPriority cpu < 1024
  currentPending : ∀ cpu, s.currentPending cpu < 1024

theorem small_word {n : Nat} (h : n < 1024) : n < 2 ^ 32 := h.trans (by decide)

/-- The state of a CPU. -/
def Gic.cpuState (s : Gic cfg.toGicConfig) (i : Fin cfg.numCpu) : GicCpuState cfg :=
  ⟨s.cpuEnabled i, s.irqTarget (gicTargetIndex i), fun j => s.priority1 j i,
    fun j => s.lastActive j i, s.priorityMask i, s.runningIrq i, s.runningPriority i,
    s.currentPending i⟩

/-- The part of a CPU is read back. -/
theorem reads_cpu {s : Gic cfg.toGicConfig} (h : s.Small) (i : Fin cfg.numCpu) :
    Reads (gicLoadCpu cfg) (gicSaveCpu s i) (s.cpuState i) := by
  refine (reads_flag _).bind ?_
  refine (reads_bits (cfg.narrow.trans (by decide)) _).bind ?_
  refine (Reads.vec fun j => reads_bits (by decide) (s.priority1 j i)).bind ?_
  refine (Reads.vec fun j => reads_number (small_word (h.lastActive j i))).bind ?_
  refine (reads_bits (by decide) _).bind ?_
  refine (reads_number (small_word (h.runningIrq i))).bind ?_
  refine (reads_number (small_word (h.runningPriority i))).bind ?_
  exact (reads_number (small_word (h.currentPending i))).map

theorem reads_irq (st : GicIrqState cfg.ncpu) :
    Reads (gicLoadIrq cfg.ncpu) (gicSaveIrq st) st := by
  refine (reads_bit _).bind ?_
  refine (reads_field cfg.narrow _).bind ?_
  refine (reads_field cfg.narrow _).bind ?_
  refine (reads_field cfg.narrow _).bind ?_
  refine (reads_bit _).bind ?_
  exact (reads_bit _).map

/-- The bytes of a controller, loaded into another one. -/
def Gic.loadedFrom (into s : Gic cfg.toGicConfig) : Gic cfg.toGicConfig :=
  { s with
    irqTarget := fun irq => if irq.val < cfg.numCpu then s.irqTarget irq else into.irqTarget irq
    parentIrq := into.parentIrq }

/-- A load of what was saved. -/
theorem gicLoad_gicSave (into : Gic cfg.toGicConfig) {s : Gic cfg.toGicConfig} (h : s.Small) :
    gicLoad into 1 (gicSave s) = some (into.loadedFrom s, []) := by
  have hloaded : into.loadedFrom s = into.loaded s.enabled s.cpuState s.priority2 s.irqState := by
    simp only [Gic.loadedFrom, Gic.loaded, Gic.cpuState, gicTargetIndex]
    congr 1
  rw [hloaded]
  refine Reads.whole ?_
  refine (reads_flag s.enabled).bind ?_
  refine (Reads.vec fun i => reads_cpu h i).bind ?_
  refine (Reads.vec fun i => reads_bits (by decide) (s.priority2 i)).bind ?_
  exact (Reads.vec fun i => reads_irq (s.irqState i)).map

/-! ### What is restored -/

/-- Loading the bytes of a controller into another one restores all of it. -/
def Gic.Restores (into s : Gic cfg.toGicConfig) : Prop :=
  ∃ s', gicLoad into 1 (gicSave s) = some (s', []) ∧ s' = { s with
    parentIrq := into.parentIrq }

/-- The targets agree that are not saved. -/
def Gic.TargetsAgree (into s : Gic cfg.toGicConfig) : Prop :=
  ∀ irq : Fin cfg.nirq, cfg.numCpu ≤ irq.val → into.irqTarget irq = s.irqTarget irq

/-- It restores all but the targets that are not saved. -/
theorem gicRestores_iff (into : Gic cfg.toGicConfig) {s : Gic cfg.toGicConfig} (h : s.Small) :
    into.Restores s ↔ into.TargetsAgree s := by
  unfold Gic.Restores
  rw [gicLoad_gicSave into h]
  constructor
  · rintro ⟨s', hs', heq⟩ irq hirq
    cases hs'
    have htarget := congrFun (congrArg Gic.irqTarget heq) irq
    exact (if_neg (Nat.not_lt.mpr hirq)).symm.trans htarget
  · intro hagree
    refine ⟨_, rfl, ?_⟩
    have htarget : (fun irq => if irq.val < cfg.numCpu then s.irqTarget irq
        else into.irqTarget irq) = s.irqTarget := by
      funext irq
      by_cases hirq : irq.val < cfg.numCpu
      · exact if_pos hirq
      · rw [if_neg hirq]
        exact hagree irq (Nat.le_of_not_lt hirq)
    rw [Gic.loadedFrom, htarget]

end Qemu.Hw
