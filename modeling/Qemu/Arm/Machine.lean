import Qemu.Arm.Cpu
import Qemu.Lib.Stream

namespace Qemu.Arm

open Qemu.Lib

/-!
# Saving and loading a CPU (`target-arm/machine.c`)

`cpu_save` writes the registers to a stream and `cpu_load` reads them into another CPU of the same
model.

* `cpuSave`, `cpuLoad` — the two functions, in the parts of the source;
* `reads_cpuLoad` — what `cpu_load` makes of the bytes of `cpu_save`;
* `cpuLoad_cpuSave` — when that is the saved CPU.
-/

abbrev cpuSaveVersion : Word := 2

/-- `ARM_VFP_FPSCR` -/
abbrev armVfpFpscr : Fin 16 := 1

/-! ### The FPSCR -/

/-- `vfp_exceptbits_from_host` -/
def vfpExceptbitsFromHost (hostBits : BitVec 8) : Word :=
  (if hostBits.getLsbD 0 then 1 else 0) ||| (if hostBits.getLsbD 2 then 2 else 0) |||
    (if hostBits.getLsbD 3 then 4 else 0) ||| (if hostBits.getLsbD 4 then 8 else 0) |||
    (if hostBits.getLsbD 5 then 0x10 else 0)

/-- `vfp_get_fpscr` -/
def vfpGetFpscr (vfp : Vfp) : Word :=
  ((vfp.xregs armVfpFpscr &&& 0xffc8ffff) ||| vfp.vecLen <<< 16 ||| vfp.vecStride <<< 20) |||
    vfpExceptbitsFromHost vfp.fpStatus.exceptionFlags

/-- The rounding mode that `vfp_set_fpscr` sets. -/
def fpscrRounding (val : Word) : RoundingMode :=
  match val.getLsbD 23, val.getLsbD 22 with
  | false, false => .nearestEven
  | false, true => .up
  | true, false => .down
  | true, true => .toZero

/-- The modes are those of the FPSCR. -/
def FloatStatus.Matches (st : FloatStatus) (fpscr : Word) : Prop :=
  st.roundingMode = fpscrRounding fpscr ∧ st.flushToZero = fpscr.getLsbD 24 ∧
    st.defaultNan = fpscr.getLsbD 25

instance FloatStatus.decidableMatches (st : FloatStatus) (fpscr : Word) :
    Decidable (st.Matches fpscr) :=
  inferInstanceAs (Decidable (_ ∧ _ ∧ _))

/-! ### `cpu_save` -/

/-- The registers, the CPSR and the banks. -/
def putCore (env : CPUARMState) : List Byte :=
  List.flatten [
    putVec fun i => putBe32 (env.regs i),
    putBe32 (cpsrRead env),
    putBe32 env.spsr,
    putVec fun i => List.flatten
      [putBe32 (env.bankedSpsr i), putBe32 (env.bankedR13 i), putBe32 (env.bankedR14 i)],
    putVec fun i => List.flatten [putBe32 (env.usrRegs i), putBe32 (env.fiqRegs i)]]

/-- The registers of the system coprocessor, without those that no program can change. -/
def putCp15 (c : Cp15) : List Byte :=
  List.flatten [
    putBe32 c.c0Cpuid, putBe32 c.c0Cachetype, putBe32 c.c0Cssel,
    putBe32 c.c1Sys, putBe32 c.c1Coproc, putBe32 c.c1Xscaleauxcr,
    putBe32 c.c1Secfg, putBe32 c.c1Sedbg, putBe32 c.c1Nseac,
    putBe32 c.c2Base0, putBe32 c.c2Base1, putBe32 c.c2Control,
    putBe32 c.c2Mask, putBe32 c.c2BaseMask, putBe32 c.c2Data, putBe32 c.c2Insn,
    putBe32 c.c3, putBe32 c.c5Insn, putBe32 c.c5Data,
    putVec fun i => putBe32 (c.c6Region i),
    putBe32 c.c6Insn, putBe32 c.c6Data, putBe32 c.c9Insn, putBe32 c.c9Data,
    putBe32 c.c13Fcse, putBe32 c.c13Context,
    putBe32 c.c13Tls1, putBe32 c.c13Tls2, putBe32 c.c13Tls3,
    putBe32 c.c15Cpar]

/-- `env->vfp.regs + 16` -/
def upperRegs (regs : Fin 32 → BitVec 64) : Fin 16 → BitVec 64 := fun i => regs ⟨16 + i, by omega⟩

/-- `env->vfp.regs`, d0 to d15. -/
def lowerRegs (regs : Fin 32 → BitVec 64) : Fin 16 → BitVec 64 := fun i => regs ⟨i, by omega⟩

/-- The floating-point registers, if there are any. -/
def putVfp (env : CPUARMState) : List Byte :=
  if armFeature env .vfp then
    List.flatten [
      putVec fun i => putBe64 (lowerRegs env.vfp.regs i),
      putVec fun i => putBe32 (env.vfp.xregs i),
      putBe32 env.vfp.vecLen,
      putBe32 env.vfp.vecStride,
      if armFeature env .vfp3 then putVec fun i => putBe64 (upperRegs env.vfp.regs i) else []]
  else []

/-- The registers of iwMMXt. -/
def putIwmmxt (env : CPUARMState) : List Byte :=
  if armFeature env .iwmmxt then
    List.flatten
      [putVec fun i => putBe64 (env.iwmmxtRegs i), putVec fun i => putBe32 (env.iwmmxtCregs i)]
  else []

/-- The registers of ARMv7-M. -/
def putV7m (env : CPUARMState) : List Byte :=
  if armFeature env .m then
    List.flatten [
      putBe32 env.v7m.otherSp, putBe32 env.v7m.vecbase, putBe32 env.v7m.basepri,
      putBe32 env.v7m.control, putBe32 env.v7m.currentSp, putBe32 env.v7m.exception]
  else []

/-- The registers of ThumbEE. -/
def putThumb2ee (env : CPUARMState) : List Byte :=
  if armFeature env .thumb2ee then List.flatten [putBe32 env.teecr, putBe32 env.teehbr] else []

/-- `cpu_save` -/
def cpuSave (env : CPUARMState) : List Byte :=
  List.flatten [
    putCore env, putCp15 env.cp15, putBe32 env.features, putVfp env, putIwmmxt env, putV7m env,
    putThumb2ee env]

/-! ### `cpu_load` -/

/-- The SPSR, r13 and r14 of a bank. -/
def getBank : Get (Word × Word × Word) := do
  let spsr ← getBe32
  let r13 ← getBe32
  let r14 ← getBe32
  pure (spsr, r13, r14)

/-- A register of the user bank and its double of the FIQ bank. -/
def getHigh : Get (Word × Word) := do
  let usr ← getBe32
  let fiq ← getBe32
  pure (usr, fiq)

/-- "Avoid mode switch when restoring CPSR." -/
def restoreCpsr (env : CPUARMState) (regs : Fin 16 → Word) (val : Word) : Aborts CPUARMState :=
  cpsrWrite { env with regs := regs, uncachedCpsr := val &&& cpsrM } val 0xffffffff

/-- The parts that every CPU has, in the order of `putCore`. -/
def getCore (env : CPUARMState) : Get CPUARMState := do
  let regs ← getVec getBe32 16
  let val ← getBe32
  let env ← StateT.lift (restoreCpsr env regs val)
  let spsr ← getBe32
  let banks ← getVec getBank 6
  let high ← getVec getHigh 5
  pure { env with
    spsr := spsr
    bankedSpsr := fun i => (banks i).1
    bankedR13 := fun i => (banks i).2.1
    bankedR14 := fun i => (banks i).2.2
    usrRegs := fun i => (high i).1
    fiqRegs := fun i => (high i).2 }

/-- The registers of the coprocessor; those that are not read keep their values. -/
def getCp15 (c : Cp15) : Get Cp15 := do
  let c0Cpuid ← getBe32
  let c0Cachetype ← getBe32
  let c0Cssel ← getBe32
  let c1Sys ← getBe32
  let c1Coproc ← getBe32
  let c1Xscaleauxcr ← getBe32
  let c1Secfg ← getBe32
  let c1Sedbg ← getBe32
  let c1Nseac ← getBe32
  let c2Base0 ← getBe32
  let c2Base1 ← getBe32
  let c2Control ← getBe32
  let c2Mask ← getBe32
  let c2BaseMask ← getBe32
  let c2Data ← getBe32
  let c2Insn ← getBe32
  let c3 ← getBe32
  let c5Insn ← getBe32
  let c5Data ← getBe32
  let c6Region ← getVec getBe32 8
  let c6Insn ← getBe32
  let c6Data ← getBe32
  let c9Insn ← getBe32
  let c9Data ← getBe32
  let c13Fcse ← getBe32
  let c13Context ← getBe32
  let c13Tls1 ← getBe32
  let c13Tls2 ← getBe32
  let c13Tls3 ← getBe32
  let c15Cpar ← getBe32
  pure { c with
    c0Cpuid, c0Cachetype, c0Cssel, c1Sys, c1Coproc, c1Xscaleauxcr, c1Secfg, c1Sedbg, c1Nseac,
    c2Base0, c2Base1, c2Control, c2Mask, c2BaseMask, c2Data, c2Insn, c3, c5Insn, c5Data, c6Region,
    c6Insn, c6Data, c9Insn, c9Data, c13Fcse, c13Context, c13Tls1, c13Tls2, c13Tls3, c15Cpar }

/-- A loop that sets `regs[0]` to `regs[15]`. -/
def setLowerRegs (regs : Fin 32 → BitVec 64) (v : Fin 16 → BitVec 64) : Fin 32 → BitVec 64 :=
  fun i => if h : i.val < 16 then v ⟨i, h⟩ else regs i

/-- The loop for the upper registers of VFP3; it goes from 0 to 15. -/
def getVfp3 (env : CPUARMState) (vfp : Vfp) : Get Vfp :=
  if armFeature env .vfp3 then do
    let regs ← getVec getBe64 16
    pure { vfp with regs := setLowerRegs vfp.regs regs }
  else pure vfp

/-- The floating-point registers, d0 to d15 first. -/
def getVfp (env : CPUARMState) : Get Vfp :=
  if armFeature env .vfp then do
    let regs ← getVec getBe64 16
    let xregs ← getVec getBe32 16
    let vecLen ← getBe32
    let vecStride ← getBe32
    getVfp3 env { env.vfp with
      regs := setLowerRegs env.vfp.regs regs, xregs := xregs, vecLen := vecLen,
      vecStride := vecStride }
  else pure env.vfp

/-- The registers of iwMMXt, or those that were there. -/
def getIwmmxt (env : CPUARMState) : Get ((Fin 16 → BitVec 64) × (Fin 16 → Word)) :=
  if armFeature env .iwmmxt then do
    let regs ← getVec getBe64 16
    let cregs ← getVec getBe32 16
    pure (regs, cregs)
  else pure (env.iwmmxtRegs, env.iwmmxtCregs)

/-- The registers of ARMv7-M, or those that were there. -/
def getV7m (env : CPUARMState) : Get V7m :=
  if armFeature env .m then do
    let otherSp ← getBe32
    let vecbase ← getBe32
    let basepri ← getBe32
    let control ← getBe32
    let currentSp ← getBe32
    let exception ← getBe32
    pure { otherSp, vecbase, basepri, control, currentSp, exception }
  else pure env.v7m

/-- The registers of ThumbEE, or those that were there. -/
def getThumb2ee (env : CPUARMState) : Get (Word × Word) :=
  if armFeature env .thumb2ee then do
    let teecr ← getBe32
    let teehbr ← getBe32
    pure (teecr, teehbr)
  else pure (env.teecr, env.teehbr)

/-- The parts that depend on the features. -/
def getExtensions (env : CPUARMState) : Get CPUARMState := do
  let vfp ← getVfp env
  let iwmmxt ← getIwmmxt env
  let v7m ← getV7m env
  let thumb2ee ← getThumb2ee env
  pure { env with
    vfp := vfp, iwmmxtRegs := iwmmxt.1, iwmmxtCregs := iwmmxt.2, v7m := v7m, teecr := thumb2ee.1,
    teehbr := thumb2ee.2 }

/-- `cpu_load` -/
def cpuLoad (env : CPUARMState) (versionId : Word) : Get (Int × CPUARMState) :=
  if versionId ≠ cpuSaveVersion then pure (-22, env)
  else do
    let env ← getCore env
    let cp15 ← getCp15 env.cp15
    let features ← getBe32
    let env ← getExtensions { env with cp15 := cp15, features := features }
    pure (0, env)

/-! ### Reading what was written -/

theorem reads_bank (a b c : Word) :
    Reads getBank (List.flatten [putBe32 a, putBe32 b, putBe32 c]) (a, b, c) := by
  unfold getBank
  refine (reads_be32 _).bind ?_
  refine (reads_be32 _).bind ?_
  refine (reads_be32 _).bind ?_
  exact Reads.pure _

theorem reads_high (a b : Word) :
    Reads getHigh (List.flatten [putBe32 a, putBe32 b]) (a, b) := by
  unfold getHigh
  refine (reads_be32 _).bind ?_
  refine (reads_be32 _).bind ?_
  exact Reads.pure _

/-- No mode is left and none entered, so the CPSR is the one that was saved, whatever the CPU
    had before. -/
theorem restoreCpsr_spec (t : CPUARMState) (regs : Fin 16 → Word) (val : Word) :
    ∃ env, restoreCpsr t regs val = some env ∧ cpsrRead env = val ∧ env.regs = regs ∧
      env.cp15 = t.cp15 ∧ env.vfp = t.vfp := by
  have hones : ∀ v : Word, v &&& 0xffffffff = v := fun v => BitVec.and_allOnes
  have hmode : writeMode (writeFlags { t with regs := regs, uncachedCpsr := val &&& cpsrM } val
      0xffffffff) val 0xffffffff =
      some (writeFlags { t with regs := regs, uncachedCpsr := val &&& cpsrM } val 0xffffffff) := by
    unfold writeMode
    rw [if_neg (not_not.mpr _)]
    show ((val &&& cpsrM) ^^^ val) &&& 0xffffffff &&& cpsrM = 0
    rw [hones]
    apply BitVec.eq_of_getLsbD_eq
    intro i hi
    simp only [BitVec.getLsbD_and, BitVec.getLsbD_xor]
    cases cpsrM.getLsbD i <;> simp
  have hw : restoreCpsr t regs val = some (writeUncached (writeFlags
      { t with regs := regs, uncachedCpsr := val &&& cpsrM } val 0xffffffff) val 0xffffffff) := by
    unfold restoreCpsr cpsrWrite
    rw [hmode]
    rfl
  have hwf : CPUARMState.CpsrWf { t with regs := regs, uncachedCpsr := val &&& cpsrM } := by
    show (val &&& cpsrM) &&& cachedCpsrBits = 0
    rw [BitVec.and_assoc, show cpsrM &&& cachedCpsrBits = 0 by decide]
    exact BitVec.and_zero
  refine ⟨_, hw, ?_, rfl, rfl, rfl⟩
  rw [(cpsrRead_cpsrWrite hwf hw).1, show writtenBits 0xffffffff = BitVec.allOnes 32 by decide,
    BitVec.not_allOnes, BitVec.and_zero, BitVec.zero_or, BitVec.and_allOnes]

/-- The core registers after loading. -/
structure CoreRestored (s l : CPUARMState) : Prop where
  regs : l.regs = s.regs
  cpsr : cpsrRead l = cpsrRead s
  spsr : l.spsr = s.spsr
  bankedSpsr : l.bankedSpsr = s.bankedSpsr
  bankedR13 : l.bankedR13 = s.bankedR13
  bankedR14 : l.bankedR14 = s.bankedR14
  usrRegs : l.usrRegs = s.usrRegs
  fiqRegs : l.fiqRegs = s.fiqRegs

/-- The core registers are read back, into a CPU in any mode. -/
theorem reads_core (s t : CPUARMState) :
    ∃ l, Reads (getCore t) (putCore s) l ∧ CoreRestored s l ∧ l.cp15 = t.cp15 ∧ l.vfp = t.vfp := by
  obtain ⟨env, henv, hcpsr, hregs, hcp, hvfp⟩ := restoreCpsr_spec t s.regs (cpsrRead s)
  suffices h : Reads (getCore t) (putCore s) { env with
      spsr := s.spsr
      bankedSpsr := fun i => s.bankedSpsr i
      bankedR13 := fun i => s.bankedR13 i
      bankedR14 := fun i => s.bankedR14 i
      usrRegs := fun i => s.usrRegs i
      fiqRegs := fun i => s.fiqRegs i } from
    ⟨_, h, ⟨hregs, hcpsr, rfl, rfl, rfl, rfl, rfl, rfl⟩, hcp, hvfp⟩
  unfold getCore putCore
  refine (Reads.vec fun i => reads_be32 (s.regs i)).bind ?_
  refine (reads_be32 _).bind ?_
  refine Reads.lift_bind henv ?_
  refine (reads_be32 _).bind ?_
  refine (Reads.vec fun i => reads_bank (s.bankedSpsr i) (s.bankedR13 i) (s.bankedR14 i)).bind ?_
  refine (Reads.vec fun i => reads_high (s.usrRegs i) (s.fiqRegs i)).bind ?_
  exact Reads.pure _

/-- The registers of the coprocessor that are not saved. -/
def Cp15.keep (c old : Cp15) : Cp15 :=
  { c with
    c0Ccsid := old.c0Ccsid, c0Clid := old.c0Clid, c0C1 := old.c0C1, c0C2 := old.c0C2
    c15Ticonfig := old.c15Ticonfig, c15IMax := old.c15IMax, c15IMin := old.c15IMin
    c15Threadid := old.c15Threadid }

theorem reads_cp15 (c old : Cp15) : Reads (getCp15 old) (putCp15 c) (c.keep old) := by
  unfold getCp15 putCp15
  iterate 19 refine (reads_be32 _).bind ?_
  refine (Reads.vec fun i => reads_be32 (c.c6Region i)).bind ?_
  iterate 10 refine (reads_be32 _).bind ?_
  exact Reads.pure _

/-- The floating-point registers after loading. -/
def loadedVfp (s : CPUARMState) (old : Vfp) : Vfp :=
  if armFeature s .vfp then
    { old with
      regs := if armFeature s .vfp3 then setLowerRegs (setLowerRegs old.regs (lowerRegs s.vfp.regs))
          (upperRegs s.vfp.regs)
        else setLowerRegs old.regs (lowerRegs s.vfp.regs)
      xregs := s.vfp.xregs
      vecLen := s.vfp.vecLen
      vecStride := s.vfp.vecStride }
  else old

theorem armFeature_eq {s t : CPUARMState} (h : t.features = s.features) (f : ArmFeature) :
    armFeature t f = armFeature s f := by
  unfold armFeature
  rw [h]

section Parts

variable {s t : CPUARMState} (hf : t.features = s.features)
include hf

theorem reads_vfp3 (vfp : Vfp) :
    Reads (getVfp3 t vfp)
      (if armFeature s .vfp3 then putVec fun i => putBe64 (upperRegs s.vfp.regs i) else [])
      { vfp with regs := if armFeature s .vfp3 then setLowerRegs vfp.regs (upperRegs s.vfp.regs)
        else vfp.regs } := by
  unfold getVfp3
  rw [armFeature_eq hf]
  split_ifs
  · exact (Reads.vec fun i => reads_be64 (upperRegs s.vfp.regs i)).map
  · exact Reads.pure _

/-- The floating-point registers are read as `loadedVfp` says. -/
theorem reads_vfp : Reads (getVfp t) (putVfp s) (loadedVfp s t.vfp) := by
  unfold getVfp putVfp loadedVfp
  rw [armFeature_eq hf]
  refine Reads.ite (fun _ => ?_) (fun _ => Reads.pure _)
  refine (Reads.vec fun i => reads_be64 (lowerRegs s.vfp.regs i)).bind ?_
  refine (Reads.vec fun i => reads_be32 (s.vfp.xregs i)).bind ?_
  refine (reads_be32 _).bind ?_
  refine (reads_be32 _).bind ?_
  have h := reads_vfp3 hf { t.vfp with
    regs := setLowerRegs t.vfp.regs (lowerRegs s.vfp.regs), xregs := s.vfp.xregs,
    vecLen := s.vfp.vecLen, vecStride := s.vfp.vecStride }
  rw [List.flatten_cons, List.flatten_nil, List.append_nil]
  exact h

theorem reads_iwmmxt :
    Reads (getIwmmxt t) (putIwmmxt s)
      (if armFeature s .iwmmxt then s.iwmmxtRegs else t.iwmmxtRegs,
        if armFeature s .iwmmxt then s.iwmmxtCregs else t.iwmmxtCregs) := by
  unfold getIwmmxt putIwmmxt
  rw [armFeature_eq hf]
  split_ifs
  · refine (Reads.vec fun i => reads_be64 (s.iwmmxtRegs i)).bind ?_
    refine (Reads.vec fun i => reads_be32 (s.iwmmxtCregs i)).bind ?_
    exact Reads.pure _
  · exact Reads.pure _

theorem reads_v7m :
    Reads (getV7m t) (putV7m s) (if armFeature s .m then s.v7m else t.v7m) := by
  unfold getV7m putV7m
  rw [armFeature_eq hf]
  refine Reads.ite (fun _ => ?_) (fun _ => Reads.pure _)
  iterate 6 refine (reads_be32 _).bind ?_
  exact Reads.pure _

theorem reads_thumb2ee :
    Reads (getThumb2ee t) (putThumb2ee s)
      (if armFeature s .thumb2ee then s.teecr else t.teecr,
        if armFeature s .thumb2ee then s.teehbr else t.teehbr) := by
  unfold getThumb2ee putThumb2ee
  rw [armFeature_eq hf]
  split_ifs
  · iterate 2 refine (reads_be32 _).bind ?_
    exact Reads.pure _
  · exact Reads.pure _

/-- All parts that depend on the features, behind each other. -/
theorem reads_extensions :
    Reads (getExtensions t)
      (List.flatten [putVfp s, putIwmmxt s, putV7m s, putThumb2ee s])
      { t with
        vfp := loadedVfp s t.vfp
        iwmmxtRegs := if armFeature s .iwmmxt then s.iwmmxtRegs else t.iwmmxtRegs
        iwmmxtCregs := if armFeature s .iwmmxt then s.iwmmxtCregs else t.iwmmxtCregs
        v7m := if armFeature s .m then s.v7m else t.v7m
        teecr := if armFeature s .thumb2ee then s.teecr else t.teecr
        teehbr := if armFeature s .thumb2ee then s.teehbr else t.teehbr } := by
  unfold getExtensions
  refine (reads_vfp hf).bind ?_
  refine (reads_iwmmxt hf).bind ?_
  refine (reads_v7m hf).bind ?_
  refine (reads_thumb2ee hf).bind ?_
  exact Reads.pure _

end Parts

/-! ### A saved and loaded CPU -/

/-- `cpu_load` of what `cpu_save` wrote. -/
theorem reads_cpuLoad (s t : CPUARMState) :
    ∃ l, Reads (cpuLoad t cpuSaveVersion) (cpuSave s) (0, l) ∧ CoreRestored s l ∧
      l.cp15 = s.cp15.keep t.cp15 ∧ l.vfp = loadedVfp s t.vfp ∧
      (armFeature s .iwmmxt → l.iwmmxtRegs = s.iwmmxtRegs ∧ l.iwmmxtCregs = s.iwmmxtCregs) ∧
      (armFeature s .thumb2ee → l.teecr = s.teecr ∧ l.teehbr = s.teehbr) := by
  obtain ⟨env, henv, hcore, hcp, hvfp⟩ := reads_core s t
  suffices h : Reads (cpuLoad t cpuSaveVersion) (cpuSave s) (0, { env with
      cp15 := s.cp15.keep env.cp15
      features := s.features
      vfp := loadedVfp s env.vfp
      iwmmxtRegs := if armFeature s .iwmmxt then s.iwmmxtRegs else env.iwmmxtRegs
      iwmmxtCregs := if armFeature s .iwmmxt then s.iwmmxtCregs else env.iwmmxtCregs
      v7m := if armFeature s .m then s.v7m else env.v7m
      teecr := if armFeature s .thumb2ee then s.teecr else env.teecr
      teehbr := if armFeature s .thumb2ee then s.teehbr else env.teehbr }) by
    refine ⟨_, h, ⟨hcore.regs, hcore.cpsr, hcore.spsr, hcore.bankedSpsr, hcore.bankedR13,
      hcore.bankedR14, hcore.usrRegs, hcore.fiqRegs⟩, by rw [hcp], by rw [hvfp], ?_, ?_⟩
    · intro hi
      exact ⟨if_pos hi, if_pos hi⟩
    · intro hi
      exact ⟨if_pos hi, if_pos hi⟩
  unfold cpuLoad cpuSave
  rw [if_neg (not_not.mpr rfl)]
  refine henv.bind ?_
  refine (reads_cp15 s.cp15 env.cp15).bind ?_
  refine (reads_be32 _).bind ?_
  have hext := reads_extensions (s := s)
    (t := { env with cp15 := s.cp15.keep env.cp15, features := s.features }) rfl
  exact hext.map (f := fun env => ((0 : Int), env))

/-- Two CPUs of a model: its identification registers and features are the same. -/
structure SameModel (s t : CPUARMState) : Prop where
  c0Ccsid : t.cp15.c0Ccsid = s.cp15.c0Ccsid
  c0Clid : t.cp15.c0Clid = s.cp15.c0Clid
  c0C1 : t.cp15.c0C1 = s.cp15.c0C1
  c0C2 : t.cp15.c0C2 = s.cp15.c0C2
  features : t.features = s.features

/-- The loaded CPU has the registers of the saved one, and its floating-point modes are those of
    its FPSCR. -/
structure Restored (s l : CPUARMState) : Prop extends CoreRestored s l where
  cp15 : l.cp15 = s.cp15
  lower : armFeature s .vfp → lowerRegs l.vfp.regs = lowerRegs s.vfp.regs
  upper : armFeature s .vfp → armFeature s .vfp3 → upperRegs l.vfp.regs = upperRegs s.vfp.regs
  xregs : armFeature s .vfp → ∀ i, i ≠ armVfpFpscr → l.vfp.xregs i = s.vfp.xregs i
  fpscr : armFeature s .vfp → vfpGetFpscr l.vfp = vfpGetFpscr s.vfp
  fpStatus : armFeature s .vfp → l.vfp.fpStatus.Matches (vfpGetFpscr l.vfp)
  iwmmxt : armFeature s .iwmmxt → l.iwmmxtRegs = s.iwmmxtRegs ∧ l.iwmmxtCregs = s.iwmmxtCregs
  thumb2ee : armFeature s .thumb2ee → l.teecr = s.teecr ∧ l.teehbr = s.teehbr

/-- What has to be in place already in the CPU that loads: the registers that `cpu_save` leaves
    out, the floating-point status, and the upper registers, which end up in the lower ones. -/
structure LoadsWhole (s t : CPUARMState) : Prop where
  cp15 : t.cp15.c15Ticonfig = s.cp15.c15Ticonfig ∧ t.cp15.c15IMax = s.cp15.c15IMax ∧
    t.cp15.c15IMin = s.cp15.c15IMin ∧ t.cp15.c15Threadid = s.cp15.c15Threadid
  exceptions : armFeature s .vfp →
    vfpGetFpscr { s.vfp with fpStatus := t.vfp.fpStatus } = vfpGetFpscr s.vfp
  fpStatus : armFeature s .vfp → t.vfp.fpStatus.Matches (vfpGetFpscr s.vfp)
  upper : armFeature s .vfp → armFeature s .vfp3 →
    upperRegs s.vfp.regs = lowerRegs s.vfp.regs ∧ upperRegs t.vfp.regs = upperRegs s.vfp.regs

@[simp]
theorem lowerRegs_setLowerRegs (regs : Fin 32 → BitVec 64) (v : Fin 16 → BitVec 64) :
    lowerRegs (setLowerRegs regs v) = v := by
  funext i
  exact dif_pos i.isLt

@[simp]
theorem upperRegs_setLowerRegs (regs : Fin 32 → BitVec 64) (v : Fin 16 → BitVec 64) :
    upperRegs (setLowerRegs regs v) = upperRegs regs := by
  funext i
  exact dif_neg (by show ¬16 + i.val < 16; omega)

/-- **Saving and loading.**  `cpu_load` of the bytes of `cpu_save` succeeds, and it gives the saved
    CPU exactly if the loading CPU already has what is not saved or lands in the wrong place. -/
theorem cpuLoad_cpuSave (s t : CPUARMState) (hmodel : SameModel s t) :
    ∃ l, cpuLoad t cpuSaveVersion (cpuSave s) = some ((0, l), []) ∧
      (Restored s l ↔ LoadsWhole s t) := by
  obtain ⟨l, hread, hcore, hcp, hvfp, hiw, ht2⟩ := reads_cpuLoad s t
  refine ⟨l, ?_, ?_⟩
  · have h := hread []
    rwa [List.append_nil] at h
  -- what is loaded of the floating-point registers
  have hon : armFeature s .vfp → l.vfp = { t.vfp with
      regs := if armFeature s .vfp3 then setLowerRegs (setLowerRegs t.vfp.regs
          (lowerRegs s.vfp.regs)) (upperRegs s.vfp.regs)
        else setLowerRegs t.vfp.regs (lowerRegs s.vfp.regs)
      xregs := s.vfp.xregs
      vecLen := s.vfp.vecLen
      vecStride := s.vfp.vecStride } := fun hv => hvfp.trans (if_pos hv)
  have hfpscr : armFeature s .vfp →
      vfpGetFpscr l.vfp = vfpGetFpscr { s.vfp with fpStatus := t.vfp.fpStatus } := by
    intro hv
    rw [hon hv]
    rfl
  have hst : armFeature s .vfp → l.vfp.fpStatus = t.vfp.fpStatus := by
    intro hv
    rw [hon hv]
  constructor
  · intro h
    refine ⟨?_, ?_, ?_, ?_⟩
    · have hc := h.cp15
      rw [hcp] at hc
      exact ⟨(congrArg Cp15.c15Ticonfig hc :), (congrArg Cp15.c15IMax hc :),
        (congrArg Cp15.c15IMin hc :), (congrArg Cp15.c15Threadid hc :)⟩
    · intro hv
      rw [← hfpscr hv]
      exact h.fpscr hv
    · intro hv
      rw [← h.fpscr hv, ← hst hv]
      exact h.fpStatus hv
    · intro hv hv3
      have hlo := h.lower hv
      have hup := h.upper hv hv3
      rw [hon hv, if_pos hv3] at hlo hup
      simp only [lowerRegs_setLowerRegs, upperRegs_setLowerRegs] at hlo hup
      exact ⟨hlo, hup⟩
  · intro h
    refine ⟨hcore, ?_, ?_, ?_, ?_, ?_, ?_, hiw, ht2⟩
    · obtain ⟨h1, h2, h3, h4⟩ := h.cp15
      rw [hcp, Cp15.keep, h1, h2, h3, h4, hmodel.c0Ccsid, hmodel.c0Clid, hmodel.c0C1, hmodel.c0C2]
    · intro hv
      rw [hon hv]
      by_cases hv3 : armFeature s .vfp3
      · rw [if_pos hv3, lowerRegs_setLowerRegs]
        exact (h.upper hv hv3).1
      · rw [if_neg hv3, lowerRegs_setLowerRegs]
    · intro hv hv3
      rw [hon hv, if_pos hv3, upperRegs_setLowerRegs, upperRegs_setLowerRegs]
      exact (h.upper hv hv3).2
    · intro hv i _
      rw [hon hv]
    · intro hv
      rw [hfpscr hv]
      exact h.exceptions hv
    · intro hv
      rw [hfpscr hv, hst hv, h.exceptions hv]
      exact h.fpStatus hv

/-- A floating-point status that rounds to zero and flushes to zero, with default NaNs. -/
def toZeroStatus : FloatStatus :=
  { (default : FloatStatus) with roundingMode := .toZero, flushToZero := true, defaultNan := true }

/-- A CPU with VFP3 in supervisor mode.  The upper half of its double registers is the lower
    half, and its FPSCR is the one of `toZeroStatus`. -/
def mirroredState : CPUARMState :=
  { (default : CPUARMState) with
    uncachedCpsr := 0x13
    spsr := 7
    features := 0x201
    vfp := { (default : Vfp) with
      regs := fun i => BitVec.ofNat 64 (5 + i.val % 16)
      xregs := fun i => if i = armVfpFpscr then 0x3c00000 else 0
      vecLen := 3
      vecStride := 1
      fpStatus := toZeroStatus } }

/-- A CPU with the same upper half and modes, and nothing else. -/
def upperState : CPUARMState :=
  { (default : CPUARMState) with
    features := 0x201
    vfp := { (default : Vfp) with
      regs := fun i => if i.val < 16 then 0 else BitVec.ofNat 64 (5 + i.val % 16)
      fpStatus := toZeroStatus } }

/-- Its registers all come back. -/
theorem cpuLoad_cpuSave_mirrored :
    ∃ l, cpuLoad upperState cpuSaveVersion (cpuSave mirroredState) = some ((0, l), []) ∧
      Restored mirroredState l := by
  obtain ⟨l, hload, hiff⟩ := cpuLoad_cpuSave mirroredState upperState ⟨rfl, rfl, rfl, rfl, rfl⟩
  refine ⟨l, hload, hiff.mpr ⟨⟨rfl, rfl, rfl, rfl⟩, fun _ => rfl, fun _ => by decide, ?_⟩⟩
  exact fun _ _ => ⟨funext (by decide), funext (by decide)⟩

/-- A CPU with VFP3 whose register d16 is one. -/
def vfp3State : CPUARMState :=
  { (default : CPUARMState) with
    uncachedCpsr := 0x13
    features := 0x201
    vfp := { (default : Vfp) with regs := fun i => if i.val = 16 then 1 else 0 } }

/-- Loaded into a new CPU, d16 is in d0. -/
theorem cpuLoad_vfp3State :
    SameModel vfp3State { (default : CPUARMState) with features := 0x201 } ∧
    ∃ l, cpuLoad { (default : CPUARMState) with features := 0x201 } cpuSaveVersion
        (cpuSave vfp3State) = some ((0, l), []) ∧
      l.vfp.regs 0 = 1 ∧ l.vfp.regs 16 = 0 ∧ ¬Restored vfp3State l := by
  refine ⟨⟨rfl, rfl, rfl, rfl, rfl⟩, ?_⟩
  obtain ⟨l, hread, -, -, hvfp, -, -⟩ := reads_cpuLoad vfp3State
    { (default : CPUARMState) with features := 0x201 }
  have h0 : l.vfp.regs 0 = 1 := by
    rw [hvfp]
    decide
  have h16 : l.vfp.regs 16 = 0 := by
    rw [hvfp]
    decide
  refine ⟨l, ?_, h0, h16, ?_⟩
  · have h := hread []
    rwa [List.append_nil] at h
  · intro h
    have hup := congrFun (h.upper (by decide) (by decide)) 0
    exact absurd (h16.symm.trans hup) (by decide)

end Qemu.Arm
