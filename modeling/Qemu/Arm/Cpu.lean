import Mathlib.Tactic.IntervalCases

namespace Qemu.Arm

/-!
# The state of an ARM CPU (`target-arm/cpu.h`, `target-arm/helper.c`)

`CPUARMState` keeps the registers of the current mode in one array and those of the other modes in
banks; the flags of the CPSR are apart from the rest of it.

* `Flags`, `cpsrRead`, `cpsrWrite` — the CPSR in parts and as a word; `cpsrRead_cpsrWrite`;
* `bankNumber`, `switchMode` — the register banks;
* `doInterrupt` — taking an exception.
-/

/-- A register. -/
abbrev Word := BitVec 32

/-- The numbers of registers, of banks and of protection regions. -/
instance neZero_regs : NeZero 16 := ⟨by decide⟩
instance neZero_regions : NeZero 8 := ⟨by decide⟩
instance neZero_banks : NeZero 6 := ⟨by decide⟩

theorem high_lt (i : Fin 5) : 8 + i.val < 16 := by omega

/-! ### State -/

/-- The system control coprocessor. -/
structure Cp15 where
  c0Cpuid : Word
  c0Cachetype : Word
  c0Ccsid : Fin 16 → Word
  c0Clid : Word
  c0Cssel : Word
  c0C1 : Fin 8 → Word
  c0C2 : Fin 8 → Word
  c1Sys : Word
  c1Coproc : Word
  c1Xscaleauxcr : Word
  c1Secfg : Word
  c1Sedbg : Word
  c1Nseac : Word
  c2Base0 : Word
  c2Base1 : Word
  c2Control : Word
  c2Mask : Word
  c2BaseMask : Word
  c2Data : Word
  c2Insn : Word
  c3 : Word
  c5Insn : Word
  c5Data : Word
  c6Region : Fin 8 → Word
  c6Insn : Word
  c6Data : Word
  c9Insn : Word
  c9Data : Word
  c13Fcse : Word
  c13Context : Word
  c13Tls1 : Word
  c13Tls2 : Word
  c13Tls3 : Word
  c15Cpar : Word
  c15Ticonfig : Word
  c15IMax : Word
  c15IMin : Word
  c15Threadid : Word
deriving Inhabited

/-- The registers of the microcontroller profile that are saved. -/
structure V7m where
  otherSp : Word
  vecbase : Word
  basepri : Word
  control : Word
  currentSp : Word
  exception : Word
deriving Inhabited

/-- `float_rounding_mode` -/
inductive RoundingMode
  | nearestEven | up | down | toZero
deriving DecidableEq, Repr, Inhabited

/-- The modes in `float_status` and the exceptions since the FPSCR was written. -/
structure FloatStatus where
  roundingMode : RoundingMode
  flushToZero : Bool
  defaultNan : Bool
  exceptionFlags : BitVec 8
deriving DecidableEq, Repr, Inhabited

/-- The VFP coprocessor. -/
structure Vfp where
  regs : Fin 32 → BitVec 64
  xregs : Fin 16 → Word
  vecLen : Word
  vecStride : Word
  fpStatus : FloatStatus
deriving Inhabited

/-- The flags of the CPSR that are kept apart, each as wide as its bits in the CPSR.  `NF`, `VF` and
    `ZF` are words: N and V are bit 31 of theirs, Z is set if `ZF` is zero. -/
structure Flags where
  CF : BitVec 1
  VF : Word
  NF : Word
  ZF : Word
  QF : BitVec 1
  GE : BitVec 4
  thumb : BitVec 1
  condexecBits : BitVec 8
deriving Inhabited

/-- `CPUARMState` -/
structure CPUARMState extends Flags where
  regs : Fin 16 → Word
  uncachedCpsr : Word
  spsr : Word
  bankedSpsr : Fin 6 → Word
  bankedR13 : Fin 6 → Word
  bankedR14 : Fin 6 → Word
  usrRegs : Fin 5 → Word
  fiqRegs : Fin 5 → Word
  actualCondexecBits : BitVec 8
  savedCondexecBits : BitVec 8
  savedCondexecTb : Word
  cp15 : Cp15
  v7m : V7m
  teecr : Word
  teehbr : Word
  features : Word
  vfp : Vfp
  iwmmxtRegs : Fin 16 → BitVec 64
  iwmmxtCregs : Fin 16 → Word
  interruptRequest : Word
deriving Inhabited

/-- `enum arm_features` -/
inductive ArmFeature
  | vfp | auxcr | xscale | iwmmxt | v6 | v6k | v7 | thumb2 | mpu | vfp3 | vfpFp16 | neon | div | m
  | omapcp | thumb2ee | trustzone
deriving DecidableEq, Repr

/-- `arm_feature` -/
def armFeature (env : CPUARMState) (f : ArmFeature) : Bool := env.features.getLsbD f.ctorIdx

/-- `cpu_abort` is `none`. -/
abbrev Aborts (α : Type) := Option α

/-! ### The CPSR -/

abbrev cpsrM : Word := 0x1f
abbrev cpsrT : Word := 1 <<< 5
abbrev cpsrF : Word := 1 <<< 6
abbrev cpsrI : Word := 1 <<< 7
abbrev cpsrA : Word := 1 <<< 8
abbrev cpsrIt27 : Word := 0xfc00
abbrev cpsrGe : Word := 0xf <<< 16
abbrev cpsrIt01 : Word := 3 <<< 25
abbrev cpsrQ : Word := 1 <<< 27
abbrev cpsrNzcv : Word := 0xf <<< 28

/-- `CACHED_CPSR_BITS` -/
abbrev cachedCpsrBits : Word := 0xfe0ffc20

/-- The word that `cpsr_read` makes of the flags and the rest. -/
def Flags.read (f : Flags) (uncachedCpsr : Word) : Word :=
  let zf : BitVec 1 := if f.ZF = 0 then 1 else 0
  uncachedCpsr ||| (f.NF &&& 0x80000000) ||| zf.setWidth 32 <<< 30 ||| f.CF.setWidth 32 <<< 29 |||
    (f.VF &&& 0x80000000) >>> 3 ||| f.QF.setWidth 32 <<< 27 ||| f.thumb.setWidth 32 <<< 5 |||
    (f.condexecBits.setWidth 32 &&& 3) <<< 25 ||| (f.condexecBits.setWidth 32 &&& 0xfc) <<< 8 |||
    f.GE.setWidth 32 <<< 16

/-- `cpsr_read` -/
def cpsrRead (env : CPUARMState) : Word := env.toFlags.read env.uncachedCpsr

/-- The IT bits after `cpsr_write`, which writes each of the two fields whole. -/
def writeCondexec (bits : BitVec 8) (val mask : Word) : BitVec 8 :=
  let bits := if mask &&& cpsrIt01 ≠ 0 then
    (bits &&& ~~~(3 : BitVec 8)) ||| ((val >>> 25) &&& 3).setWidth 8 else bits
  if mask &&& cpsrIt27 ≠ 0 then (bits &&& 3) ||| ((val >>> 8) &&& 0xfc).setWidth 8 else bits

/-- The flags after `cpsr_write`. -/
def Flags.write (f : Flags) (val mask : Word) : Flags where
  ZF := if mask &&& cpsrNzcv ≠ 0 then ~~~val &&& 0x40000000 else f.ZF
  NF := if mask &&& cpsrNzcv ≠ 0 then val else f.NF
  CF := if mask &&& cpsrNzcv ≠ 0 then (val >>> 29).setWidth 1 else f.CF
  VF := if mask &&& cpsrNzcv ≠ 0 then (val <<< 3) &&& 0x80000000 else f.VF
  QF := if mask &&& cpsrQ ≠ 0 then (val >>> 27).setWidth 1 else f.QF
  thumb := if mask &&& cpsrT ≠ 0 then (val >>> 5).setWidth 1 else f.thumb
  condexecBits := writeCondexec f.condexecBits val mask
  GE := if mask &&& cpsrGe ≠ 0 then (val >>> 16).setWidth 4 else f.GE

/-- The flags that `cpsr_write` sets; the actual IT bits follow the others. -/
def writeFlags (env : CPUARMState) (val mask : Word) : CPUARMState :=
  { env with
    toFlags := env.toFlags.write val mask
    actualCondexecBits :=
      if mask &&& cpsrIt01 ≠ 0 ∨ mask &&& cpsrIt27 ≠ 0 then
        writeCondexec env.condexecBits val mask
      else env.actualCondexecBits }

/-- The bits of the CPSR that `cpsr_write` sets: some fields are written whole. -/
def writtenBits (mask : Word) : Word :=
  (if mask &&& cpsrNzcv ≠ 0 then cpsrNzcv else 0) ||| (mask &&& cpsrQ) ||| (mask &&& cpsrT) |||
    (if mask &&& cpsrIt01 ≠ 0 then cpsrIt01 else 0) |||
    (if mask &&& cpsrIt27 ≠ 0 then cpsrIt27 else 0) |||
    (if mask &&& cpsrGe ≠ 0 then cpsrGe else 0) ||| (mask &&& ~~~cachedCpsrBits)

/-! ### The bits of the CPSR -/

/-- Bit `i` of the CPSR as the flags have it. -/
def Flags.bit (f : Flags) (i : Nat) : Bool :=
  if i = 31 then f.NF.getLsbD 31
  else if i = 30 then decide (f.ZF = 0)
  else if i = 29 then f.CF.getLsbD 0
  else if i = 28 then f.VF.getLsbD 31
  else if i = 27 then f.QF.getLsbD 0
  else if i = 25 ∨ i = 26 then f.condexecBits.getLsbD (i - 25)
  else if 16 ≤ i ∧ i < 20 then f.GE.getLsbD (i - 16)
  else if 10 ≤ i ∧ i < 16 then f.condexecBits.getLsbD (i - 8)
  else if i = 5 then f.thumb.getLsbD 0
  else false

theorem read_getLsbD (f : Flags) (u : Word) {i : Nat} (hi : i < 32) :
    (f.read u).getLsbD i = (u.getLsbD i || f.bit i) := by
  unfold Flags.read Flags.bit
  interval_cases i <;> simp
  split <;> simp_all

theorem getLsbD_ite (c : Prop) [Decidable c] {n : Nat} (v w : BitVec n) (i : Nat) :
    (if c then v else w).getLsbD i = if c then v.getLsbD i else w.getLsbD i :=
  apply_ite (fun v => v.getLsbD i) c v w

theorem getLsbD_of_and {u v : Word} (h : u &&& v = 0) {i : Nat} (hi : v.getLsbD i = true) :
    u.getLsbD i = false := by
  have hb : (u &&& v).getLsbD i = (0 : Word).getLsbD i := by rw [h]
  rw [BitVec.getLsbD_and, hi, Bool.and_true] at hb
  rw [hb]
  exact BitVec.getLsbD_zero

theorem and_twoPow_eq_zero (v : Word) {i : Nat} (hi : i < 32) :
    v &&& BitVec.twoPow 32 i = 0 ↔ v.getLsbD i = false := by
  have h0 : BitVec.twoPow 32 i ≠ 0#32 := by
    intro h
    have hbit := congrArg (fun w : Word => w.getLsbD i) h
    simp [hi] at hbit
  rw [BitVec.and_twoPow]
  cases v.getLsbD i
  · simp
  · simpa using h0

/-- What `cpsr_write` does to a bit: it is written if the mask selects it or, for a field written
    whole, any bit of its field. -/
theorem write_bit (f : Flags) (val mask : Word) {i : Nat} (hi : i < 32) :
    (f.write val mask).bit i =
      ((f.bit i && !(writtenBits mask).getLsbD i) ||
        (val.getLsbD i && (writtenBits mask).getLsbD i && cachedCpsrBits.getLsbD i)) := by
  have hT : mask &&& 32#32 = 0#32 ↔ mask.getLsbD 5 = false :=
    and_twoPow_eq_zero mask (i := 5) (by decide)
  have hQ : mask &&& 134217728#32 = 0#32 ↔ mask.getLsbD 27 = false :=
    and_twoPow_eq_zero mask (i := 27) (by decide)
  have hZ : ~~~val &&& 1073741824#32 = 0#32 ↔ (~~~val).getLsbD 30 = false :=
    and_twoPow_eq_zero (~~~val) (i := 30) (by decide)
  unfold Flags.write Flags.bit writtenBits writeCondexec
  simp only [BitVec.getLsbD_or, getLsbD_ite]
  interval_cases i <;> simp
  all_goals split_ifs <;> simp_all

theorem writtenBits_uncached (mask : Word) {i : Nat} (hi : i < 32)
    (hc : cachedCpsrBits.getLsbD i = false) : (writtenBits mask).getLsbD i = mask.getLsbD i := by
  unfold writtenBits
  simp only [BitVec.getLsbD_or, getLsbD_ite]
  revert hc
  interval_cases i <;> simp

/-- The CPSR has no bit both in the flags and in the rest. -/
def CPUARMState.CpsrWf (env : CPUARMState) : Prop := env.uncachedCpsr &&& cachedCpsrBits = 0

/-! ### Register banks -/

/-- The modes `bank_number` knows. -/
inductive Mode
  | usr | fiq | irq | svc | abt | und | sys
deriving DecidableEq, Repr

/-- `ARM_CPU_MODE_*` -/
def Mode.bits : Mode → Word
  | .usr => 0x10
  | .fiq => 0x11
  | .irq => 0x12
  | .svc => 0x13
  | .abt => 0x17
  | .und => 0x1b
  | .sys => 0x1f

/-- `bank_number` -/
def bankNumber (mode : Word) : Aborts (Fin 6) :=
  if mode = Mode.usr.bits ∨ mode = Mode.sys.bits then some 0
  else if mode = Mode.svc.bits then some 1
  else if mode = Mode.abt.bits then some 2
  else if mode = Mode.und.bits then some 3
  else if mode = Mode.irq.bits then some 4
  else if mode = Mode.fiq.bits then some 5
  else none

/-- `env->regs + 8`, five registers. -/
def highRegs (regs : Fin 16 → Word) : Fin 5 → Word := fun i => regs ⟨8 + i, high_lt i⟩

/-- Copying five registers to `env->regs + 8`. -/
def setHighRegs (regs : Fin 16 → Word) (high : Fin 5 → Word) : Fin 16 → Word := fun r =>
  if h : 8 ≤ r.val ∧ r.val < 13 then high ⟨r.val - 8, by omega⟩ else regs r

/-- `env->uncached_cpsr & CPSR_M` -/
def CPUARMState.mode (env : CPUARMState) : Word := env.uncachedCpsr &&& cpsrM

/-- The exchange of r8 to r12 in `switch_mode`. -/
def switchFiq (env : CPUARMState) (mode : Word) : CPUARMState :=
  if env.mode = Mode.fiq.bits then
    { env with fiqRegs := highRegs env.regs, regs := setHighRegs env.regs env.usrRegs }
  else if mode = Mode.fiq.bits then
    { env with usrRegs := highRegs env.regs, regs := setHighRegs env.regs env.fiqRegs }
  else env

/-- The exchange of r13, r14 and the SPSR: those of bank `i` are saved, those of `j` are loaded. -/
def switchBank (env : CPUARMState) (i j : Fin 6) : CPUARMState :=
  let env := { env with
    bankedR13 := Function.update env.bankedR13 i (env.regs 13)
    bankedR14 := Function.update env.bankedR14 i (env.regs 14)
    bankedSpsr := Function.update env.bankedSpsr i env.spsr }
  { env with
    regs := Function.update (Function.update env.regs 13 (env.bankedR13 j)) 14 (env.bankedR14 j)
    spsr := env.bankedSpsr j }

/-- `switch_mode`; `uncached_cpsr` still has the old mode. -/
def switchMode (env : CPUARMState) (mode : Word) : Aborts CPUARMState :=
  if mode = env.mode then some env
  else do
    let i ← bankNumber env.mode
    let j ← bankNumber mode
    some (switchBank (switchFiq env mode) i j)

/-- The change of mode in `cpsr_write`. -/
def writeMode (env : CPUARMState) (val mask : Word) : Aborts CPUARMState :=
  if (env.uncachedCpsr ^^^ val) &&& mask &&& cpsrM ≠ 0 then switchMode env (val &&& cpsrM)
  else some env

/-- The word part that `cpsr_write` sets last. -/
def writeUncached (env : CPUARMState) (val mask : Word) : CPUARMState :=
  let mask := mask &&& ~~~cachedCpsrBits
  { env with uncachedCpsr := (env.uncachedCpsr &&& ~~~mask) ||| (val &&& mask) }

/-- `cpsr_write` -/
def cpsrWrite (env : CPUARMState) (val mask : Word) : Aborts CPUARMState := do
  let env ← writeMode (writeFlags env val mask) val mask
  some (writeUncached env val mask)

/-- `switch_mode` changes registers and banks only. -/
theorem switchMode_frame {env env' : CPUARMState} {mode : Word}
    (h : switchMode env mode = some env') :
    env'.toFlags = env.toFlags ∧ env'.uncachedCpsr = env.uncachedCpsr ∧ env'.cp15 = env.cp15 := by
  unfold switchMode at h
  split at h
  · obtain rfl := Option.some.inj h
    exact ⟨rfl, rfl, rfl⟩
  · obtain ⟨i, -, h⟩ := Option.bind_eq_some_iff.mp h
    obtain ⟨j, -, h⟩ := Option.bind_eq_some_iff.mp h
    obtain rfl := Option.some.inj h
    unfold switchBank switchFiq
    split
    · exact ⟨rfl, rfl, rfl⟩
    · split <;> exact ⟨rfl, rfl, rfl⟩

/-- **The CPSR.**  `cpsr_write` sets the bits of `writtenBits` and no others, whether it keeps them
    as flags or in the word. -/
theorem cpsrRead_cpsrWrite {env env' : CPUARMState} {val mask : Word} (hwf : env.CpsrWf)
    (h : cpsrWrite env val mask = some env') :
    cpsrRead env' = (cpsrRead env &&& ~~~(writtenBits mask)) ||| (val &&& writtenBits mask) ∧
      env'.CpsrWf := by
  unfold cpsrWrite at h
  obtain ⟨env₁, h₁, h⟩ := Option.bind_eq_some_iff.mp h
  obtain rfl := Option.some.inj h
  have hframe : env₁.toFlags = env.toFlags.write val mask ∧
      env₁.uncachedCpsr = env.uncachedCpsr := by
    unfold writeMode at h₁
    split at h₁
    · obtain ⟨hf, hu, -⟩ := switchMode_frame h₁
      exact ⟨hf, hu⟩
    · obtain rfl := Option.some.inj h₁
      exact ⟨rfl, rfl⟩
  have hword : (writeUncached env₁ val mask).uncachedCpsr =
      (env.uncachedCpsr &&& ~~~(mask &&& ~~~cachedCpsrBits)) |||
        (val &&& (mask &&& ~~~cachedCpsrBits)) := by
    rw [← hframe.2]
    rfl
  -- bit by bit: the flags are cached, the others stand in `uncachedCpsr`
  constructor
  · apply BitVec.eq_of_getLsbD_eq
    intro i hi
    show (env₁.toFlags.read _).getLsbD i = _
    rw [read_getLsbD _ _ hi, hframe.1, write_bit _ _ _ hi, hword]
    simp only [cpsrRead, BitVec.getLsbD_or, BitVec.getLsbD_and, BitVec.getLsbD_not, hi,
      decide_true, Bool.true_and, read_getLsbD _ _ hi]
    cases hc : cachedCpsrBits.getLsbD i with
    | true =>
      rw [getLsbD_of_and hwf hc]
      cases (writtenBits mask).getLsbD i <;> simp
    | false =>
      rw [writtenBits_uncached mask hi hc]
      cases mask.getLsbD i <;> simp
  · show (writeUncached env₁ val mask).uncachedCpsr &&& _ = (0 : Word)
    rw [hword]
    apply BitVec.eq_of_getLsbD_eq
    intro i hi
    simp only [BitVec.getLsbD_or, BitVec.getLsbD_and, BitVec.getLsbD_not]
    cases hc : cachedCpsrBits.getLsbD i with
    | true => rw [getLsbD_of_and hwf hc]; simp
    | false => simp

/-! ### Exceptions -/

/-- What `do_interrupt` needs from outside: whether semihosting is on, the guest code and what
    `do_arm_semihosting` returns. -/
structure Semihosting where
  enabled : Bool
  lduwCode : Word → BitVec 16
  ldlCode : Word → Word
  result : Word

/-- `EXCP_UDEF` to `EXCP_BKPT`. -/
inductive Excp
  | udef | swi | prefetchAbort | dataAbort | irq | fiq | bkpt
deriving DecidableEq, Repr

/-- An exception to be taken. -/
structure ExcpEntry where
  newMode : Mode
  addr : Word
  mask : Word
  offset : Word

/-- The `switch` of `do_interrupt` when no semihosting call is intercepted. -/
def Excp.entry (thumb : BitVec 1) : Excp → ExcpEntry
  | .udef => ⟨.und, 0x04, cpsrI, if thumb = 1 then 2 else 4⟩
  | .swi => ⟨.svc, 0x08, cpsrI, 0⟩
  | .bkpt | .prefetchAbort => ⟨.abt, 0x0c, cpsrA ||| cpsrI, 4⟩
  | .dataAbort => ⟨.abt, 0x10, cpsrA ||| cpsrI, 8⟩
  | .irq => ⟨.irq, 0x18, cpsrA ||| cpsrI, 4⟩
  | .fiq => ⟨.fiq, 0x1c, cpsrA ||| cpsrI ||| cpsrF, 4⟩

/-- A semihosting call from a privileged mode, in terms of the T bit, the pc and the mode. -/
def Semihosting.intercepts (sh : Semihosting) (thumb : BitVec 1) (pc mode : Word) : Excp → Bool
  | .swi =>
    let mask := if thumb = 1 then (sh.lduwCode (pc - 2)).setWidth 32 &&& 0xff
      else sh.ldlCode (pc - 4) &&& 0xffffff
    sh.enabled && ((mask == 0x123456 && thumb == 0) || (mask == 0xab && thumb == 1)) &&
      mode != Mode.usr.bits
  | .bkpt =>
    thumb == 1 && sh.enabled && ((sh.lduwCode pc).setWidth 32 &&& 0xff) == (0xab : Word) &&
      mode != Mode.usr.bits
  | _ => false

/-- The intercepted call; a breakpoint is stepped over before it. -/
def Semihosting.call (sh : Semihosting) (regs : Fin 16 → Word) (e : Excp) : Fin 16 → Word :=
  let regs := if e = .bkpt then Function.update regs 15 (regs 15 + 2) else regs
  Function.update regs 0 sh.result

/-- "Save actual IT bits along with the address where they belong." -/
def saveCondexec (env : CPUARMState) : CPUARMState :=
  if env.thumb = 1 ∧ env.actualCondexecBits ≠ 0 then
    { env with
      savedCondexecTb := env.regs 15
      savedCondexecBits := env.actualCondexecBits
      actualCondexecBits := 0 }
  else env

/-- The last part of `do_interrupt`, in the registers of the new mode. -/
def enterException (env : CPUARMState) (x : ExcpEntry) : CPUARMState :=
  let addr := if env.cp15.c1Sys.getLsbD 13 then x.addr + 0xffff0000 else x.addr
  { env with
    spsr := cpsrRead env
    condexecBits := 0
    uncachedCpsr := ((env.uncachedCpsr &&& ~~~cpsrM) ||| x.newMode.bits) ||| x.mask
    thumb := 0
    regs := Function.update (Function.update env.regs 14 (env.regs 15 + x.offset)) 15 addr
    interruptRequest := env.interruptRequest ||| 0x4 }

/-- `do_interrupt` of a core that is not a microcontroller. -/
def doInterrupt (sh : Semihosting) (env : CPUARMState) (e : Excp) : Aborts CPUARMState :=
  if sh.intercepts env.thumb (env.regs 15) env.mode e then
    some { env with regs := sh.call env.regs e }
  else do
    let x := e.entry env.thumb
    let env := saveCondexec env
    let env ← switchMode env x.newMode.bits
    some (enterException env x)

/-! ### Register accesses of translated code -/

/-- `store_reg` -/
def storeReg (env : CPUARMState) (reg : Fin 16) (var : Word) : CPUARMState :=
  { env with
    regs := Function.update env.regs reg (if reg = 15 then var &&& ~~~(1 : Word) else var) }

/-- The SPSR part of `gen_set_psr`. -/
def setSpsr (env : CPUARMState) (t0 mask : Word) : CPUARMState :=
  { env with spsr := (env.spsr &&& ~~~mask) ||| (t0 &&& mask) }

/-- `gen_exception_return` -/
def exceptionReturn (env : CPUARMState) (pc : Word) : Aborts CPUARMState :=
  let env := storeReg env 15 pc
  cpsrWrite env env.spsr 0xffffffff

/-- `gen_rfe` -/
def rfe (env : CPUARMState) (pc cpsr : Word) : Aborts CPUARMState := do
  let env ← cpsrWrite env cpsr 0xffffffff
  some (storeReg env 15 pc)

/-- `get_user_reg`; r15 is never asked for. -/
def getUserReg (env : CPUARMState) (regno : Fin 15) : Word :=
  if h13 : regno.val = 13 then env.bankedR13 0
  else if h14 : regno.val = 14 then env.bankedR14 0
  else if h : 8 ≤ regno.val ∧ env.mode = Mode.fiq.bits then env.usrRegs ⟨regno.val - 8, by omega⟩
  else env.regs ⟨regno.val, by omega⟩

/-- `set_user_reg` -/
def setUserReg (env : CPUARMState) (regno : Fin 15) (val : Word) : CPUARMState :=
  if h13 : regno.val = 13 then { env with bankedR13 := Function.update env.bankedR13 0 val }
  else if h14 : regno.val = 14 then { env with bankedR14 := Function.update env.bankedR14 0 val }
  else if h : 8 ≤ regno.val ∧ env.mode = Mode.fiq.bits then
    { env with usrRegs := Function.update env.usrRegs ⟨regno.val - 8, by omega⟩ val }
  else { env with regs := Function.update env.regs ⟨regno.val, by omega⟩ val }

/-- `set_r13_banked` -/
def setR13Banked (env : CPUARMState) (mode val : Word) : Aborts CPUARMState := do
  let i ← bankNumber mode
  some { env with bankedR13 := Function.update env.bankedR13 i val }

/-- `get_r13_banked` -/
def getR13Banked (env : CPUARMState) (mode : Word) : Aborts Word := do
  let i ← bankNumber mode
  some (env.bankedR13 i)

end Qemu.Arm
