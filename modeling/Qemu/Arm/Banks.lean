import Qemu.Arm.Cpu
import Qemu.Lib.Runs

namespace Qemu.Arm

open Qemu.Lib Function

/-!
# The banked registers

The registers of an ARM core as the architecture has them: r8 to r12 once for FIQ and once for the
other modes, r13, r14 and the SPSR once for every bank.  `CPUARMState` keeps those of the current
mode in `regs` and the others in banks, which mode changes and direct accesses have to keep in step.

* `RegFile` — the registers under the names the architecture gives them;
* `switchMode_phys` — a mode change moves every register and loses none;
* `regRun_refines` — any sequence of accesses, CPSR writes, exceptions and returns.
-/

/-! ### The register file -/

/-- The banks of the stack pointer, the link register and the SPSR. -/
inductive Bank
  | usr | svc | abt | und | irq | fiq
deriving DecidableEq, Repr

/-- USR and SYS share a bank. -/
def Mode.bank : Mode → Bank
  | .usr | .sys => .usr
  | .svc => .svc
  | .abt => .abt
  | .und => .und
  | .irq => .irq
  | .fiq => .fiq

/-- A register.  `mid true` is r8 to r12 of FIQ, `mid false` that of the other modes. -/
inductive PhysReg
  | low (i : Fin 8)
  | mid (fiq : Bool) (i : Fin 5)
  | r13 (b : Bank)
  | r14 (b : Bank)
  | pc
  | spsr (b : Bank)
deriving DecidableEq, Repr

/-- The register that a mode sees under a number. -/
def PhysReg.of (m : Mode) (r : Fin 16) : PhysReg :=
  if h : r.val < 8 then .low ⟨r.val, h⟩
  else if h' : r.val < 13 then .mid (m == .fiq) ⟨r.val - 8, by omega⟩
  else if r.val = 13 then .r13 m.bank
  else if r.val = 14 then .r14 m.bank
  else .pc

/-- The registers, the CPSR and the control bit that puts the vectors high. -/
structure RegFile where
  mode : Mode
  reg : PhysReg → Word
  cpsr : Word
  highVectors : Bool

/-- The mode with these bits. -/
def Mode.ofBits (w : Word) : Option Mode :=
  [.usr, .fiq, .irq, .svc, .abt, .und, .sys].find? fun m => m.bits = w

namespace RegFile

/-- A register of the current mode. -/
def get (f : RegFile) (r : Fin 16) : Word := f.reg (.of f.mode r)

/-- A register of the file is written. -/
def set (f : RegFile) (p : PhysReg) (v : Word) : RegFile :=
  { f with reg := update f.reg p v }

/-- The bits a CPSR write sets, and with the mode bits the mode. -/
def writeCpsr (f : RegFile) (val mask : Word) : RegFile :=
  { f with
    mode := if mask &&& cpsrM = 0 then f.mode else (Mode.ofBits (val &&& cpsrM)).getD f.mode
    cpsr := (f.cpsr &&& ~~~(writtenBits mask)) ||| (val &&& writtenBits mask) }

/-- An exception changes r14 and SPSR of the new mode, the pc and the CPSR. -/
def takeException (f : RegFile) (x : ExcpEntry) : RegFile :=
  let f := f.set (.spsr x.newMode.bank) f.cpsr
  let f := f.set (.r14 x.newMode.bank) (f.reg .pc + x.offset)
  let f := f.set .pc (if f.highVectors then x.addr + 0xffff0000 else x.addr)
  { f with
    mode := x.newMode
    cpsr := ((f.cpsr &&& ~~~(cpsrT ||| cpsrIt01 ||| cpsrIt27 ||| cpsrM)) ||| x.newMode.bits) |||
      x.mask }

/-- The T bit. -/
def thumb (f : RegFile) : BitVec 1 := (f.cpsr >>> 5).setWidth 1

end RegFile

/-! ### The accesses -/

/-- What guest code and the CPU loop do to the registers. -/
inductive RegOp
  | loadReg (reg : Fin 16)
  | storeReg (reg : Fin 16) (var : Word)
  | loadSpsr
  | setSpsr (t0 mask : Word)
  | cpsrRead
  | cpsrWrite (val mask : Word)
  | doInterrupt (sh : Semihosting) (e : Excp)
  | exceptionReturn (pc : Word)
  | rfe (pc cpsr : Word)
  | getUserReg (regno : Fin 15)
  | setUserReg (regno : Fin 15) (val : Word)
  | getR13Banked (m : Mode)
  | setR13Banked (m : Mode) (val : Word)

/-- An access by the code, and what it reads. -/
def RegOp.exec (env : CPUARMState) : RegOp → Aborts (CPUARMState × Option Word)
  | .loadReg r => some (env, some (env.regs r))
  | .storeReg r v => some (Arm.storeReg env r v, none)
  | .loadSpsr => some (env, some env.spsr)
  | .setSpsr t0 mask => some (Arm.setSpsr env t0 mask, none)
  | .cpsrRead => some (env, some (Arm.cpsrRead env))
  | .cpsrWrite val mask => (Arm.cpsrWrite env val mask).map (·, none)
  | .doInterrupt sh e => (Arm.doInterrupt sh env e).map (·, none)
  | .exceptionReturn pc => (Arm.exceptionReturn env pc).map (·, none)
  | .rfe pc cpsr => (Arm.rfe env pc cpsr).map (·, none)
  | .getUserReg r => some (env, some (Arm.getUserReg env r))
  | .setUserReg r v => some (Arm.setUserReg env r v, none)
  | .getR13Banked m => (Arm.getR13Banked env m.bits).map fun v => (env, some v)
  | .setR13Banked m v => (Arm.setR13Banked env m.bits v).map (·, none)

/-- The value `store_reg` writes. -/
def storedValue (r : Fin 16) (v : Word) : Word := if r = 15 then v &&& ~~~(1 : Word) else v

/-- The same access to the register file. -/
def RegOp.spec (f : RegFile) : RegOp → RegFile × Option Word
  | .loadReg r => (f, some (f.get r))
  | .storeReg r v => (f.set (.of f.mode r) (storedValue r v), none)
  | .loadSpsr => (f, some (f.reg (.spsr f.mode.bank)))
  | .setSpsr t0 mask =>
    (f.set (.spsr f.mode.bank) ((f.reg (.spsr f.mode.bank) &&& ~~~mask) ||| (t0 &&& mask)), none)
  | .cpsrRead => (f, some f.cpsr)
  | .cpsrWrite val mask => (f.writeCpsr val mask, none)
  | .doInterrupt sh e =>
    if sh.intercepts f.thumb (f.reg .pc) f.mode.bits e then
      let f := if e = .bkpt then f.set .pc (f.reg .pc + 2) else f
      (f.set (.low 0) sh.result, none)
    else (f.takeException (e.entry f.thumb), none)
  | .exceptionReturn pc =>
    let f := f.set .pc (storedValue 15 pc)
    (f.writeCpsr (f.reg (.spsr f.mode.bank)) 0xffffffff, none)
  | .rfe pc cpsr => ((f.writeCpsr cpsr 0xffffffff).set .pc (storedValue 15 pc), none)
  | .getUserReg r => (f, some (f.reg (.of .usr r.castSucc)))
  | .setUserReg r v => (f.set (.of .usr r.castSucc) v, none)
  | .getR13Banked m => (f, some (f.reg (.r13 m.bank)))
  | .setR13Banked m v => (f.set (.r13 m.bank) v, none)

/-- Which accesses the code allows: a CPSR write has the mode bits of a mode or leaves them alone,
    user registers are accessed from other modes, and so are banked ones from other banks. -/
def RegOp.Allowed (f : RegFile) : RegOp → Prop
  | .cpsrWrite val mask =>
    mask &&& cpsrM = 0 ∨ mask &&& cpsrM = cpsrM ∧ (Mode.ofBits (val &&& cpsrM)).isSome
  | .exceptionReturn _ => (Mode.ofBits (f.reg (.spsr f.mode.bank) &&& cpsrM)).isSome
  | .rfe _ cpsr => (Mode.ofBits (cpsr &&& cpsrM)).isSome
  | .getUserReg _ | .setUserReg _ _ => f.mode.bank ≠ .usr
  | .getR13Banked m | .setR13Banked m _ => m.bank ≠ f.mode.bank
  | _ => True

instance RegOp.decidableAllowed (f : RegFile) (op : RegOp) : Decidable (op.Allowed f) := by
  unfold RegOp.Allowed
  cases op <;> infer_instance

/-! ### Where the code keeps a register -/

/-- The place of a bank in `banked_r13`, `banked_r14` and `banked_spsr`. -/
def Bank.index : Bank → Fin 6
  | .usr => 0
  | .svc => 1
  | .abt => 2
  | .und => 3
  | .irq => 4
  | .fiq => 5

theorem bankNumber_bits (m : Mode) : bankNumber m.bits = some m.bank.index := by
  cases m <;> rfl

theorem Bank.index_inj {b c : Bank} : b.index = c.index ↔ b = c := by
  cases b <;> cases c <;> decide

theorem Mode.bits_inj {m m' : Mode} : m.bits = m'.bits ↔ m = m' := by
  cases m <;> cases m' <;> decide

/-- The number under which a mode sees a register, if it does. -/
def PhysReg.number (m : Mode) : PhysReg → Option (Fin 16)
  | .low i => some ⟨i.val, by omega⟩
  | .mid fiq i => if fiq = (m == .fiq) then some ⟨8 + i.val, high_lt i⟩ else none
  | .r13 b => if b = m.bank then some 13 else none
  | .r14 b => if b = m.bank then some 14 else none
  | .pc => some 15
  | .spsr _ => none

/-- Where a register is that has no number in mode `m`. -/
def CPUARMState.saved (env : CPUARMState) (m : Mode) : PhysReg → Word
  | .mid fiq i => if fiq then env.fiqRegs i else env.usrRegs i
  | .r13 b => env.bankedR13 b.index
  | .r14 b => env.bankedR14 b.index
  | .spsr b => if b = m.bank then env.spsr else env.bankedSpsr b.index
  | .low _ | .pc => 0

/-- A register of the CPU in mode `m`. -/
def CPUARMState.phys (env : CPUARMState) (m : Mode) (p : PhysReg) : Word :=
  match p.number m with
  | some r => env.regs r
  | none => env.saved m p

/-- The register that a mode sees under a number has that number. -/
theorem number_of (m : Mode) (r : Fin 16) : (PhysReg.of m r).number m = some r := by
  unfold PhysReg.of
  split_ifs with h8 h13 h h
  · rfl
  · show (if (m == Mode.fiq) = (m == Mode.fiq) then some _ else none) = some r
    rw [if_pos rfl]
    congr 1
    apply Fin.ext
    show 8 + (r.val - 8) = r.val
    omega
  · show (if m.bank = m.bank then some 13 else none) = some r
    rw [if_pos rfl]
    congr 1
    exact Fin.ext h.symm
  · show (if m.bank = m.bank then some 14 else none) = some r
    rw [if_pos rfl]
    congr 1
    exact Fin.ext h.symm
  · show some 15 = some r
    congr 1
    apply Fin.ext
    show 15 = r.val
    omega

/-- And the other way round, if the mode sees it. -/
theorem of_number {m : Mode} {p : PhysReg} {r : Fin 16} (h : p.number m = some r) :
    PhysReg.of m r = p := by
  cases p with
  | low i =>
    obtain rfl := Option.some.inj h
    exact dif_pos i.isLt
  | mid fiq i =>
    obtain ⟨hm, h⟩ := Option.ite_none_right_eq_some.mp h
    obtain rfl := Option.some.inj h
    unfold PhysReg.of
    rw [dif_neg (by simp), dif_pos (by show 8 + i.val < 13; omega), hm]
    congr 1
    apply Fin.ext
    show 8 + i.val - 8 = i.val
    omega
  | r13 b =>
    obtain ⟨rfl, hr⟩ := Option.ite_none_right_eq_some.mp h
    obtain rfl := Option.some.inj hr
    rfl
  | r14 b =>
    obtain ⟨rfl, hr⟩ := Option.ite_none_right_eq_some.mp h
    obtain rfl := Option.some.inj hr
    rfl
  | pc =>
    obtain rfl := Option.some.inj h
    rfl
  | spsr b => cases h

theorem phys_of (env : CPUARMState) (m : Mode) (r : Fin 16) :
    env.phys m (.of m r) = env.regs r := by
  unfold CPUARMState.phys
  rw [number_of]

/-- A write to a numbered register changes the register in sight under that number. -/
theorem phys_update (env : CPUARMState) (m : Mode) (r : Fin 16) (v : Word) :
    CPUARMState.phys { env with regs := update env.regs r v } m =
      update (env.phys m) (.of m r) v := by
  funext p
  unfold CPUARMState.phys
  cases hn : p.number m with
  | some r' =>
    obtain rfl := of_number hn
    by_cases hr : r' = r
    · subst hr
      simp
    · have hne : PhysReg.of m r' ≠ PhysReg.of m r := by
        intro h
        have hnum := number_of m r
        rw [← h, number_of] at hnum
        exact hr (Option.some.inj hnum)
      rw [update_of_ne hne, hn]
      exact update_of_ne hr _ _
  | none =>
    have hne : p ≠ PhysReg.of m r := by
      rintro rfl
      rw [number_of] at hn
      cases hn
    rw [update_of_ne hne, hn]
    rfl

section Phys

variable (env : CPUARMState) (m : Mode)

theorem phys_low (i : Fin 8) : env.phys m (.low i) = env.regs ⟨i.val, by omega⟩ := rfl

theorem phys_mid (fiq : Bool) (i : Fin 5) :
    env.phys m (.mid fiq i) = if fiq = (m == .fiq) then highRegs env.regs i
      else if fiq then env.fiqRegs i else env.usrRegs i := by
  simp only [CPUARMState.phys, PhysReg.number]
  by_cases h : fiq = (m == .fiq)
  · rw [if_pos h, if_pos h]
    rfl
  · rw [if_neg h, if_neg h]
    rfl

theorem phys_r13 (b : Bank) :
    env.phys m (.r13 b) = if b = m.bank then env.regs 13 else env.bankedR13 b.index := by
  simp only [CPUARMState.phys, PhysReg.number]
  by_cases h : b = m.bank
  · rw [if_pos h, if_pos h]
  · rw [if_neg h, if_neg h]
    rfl

theorem phys_r14 (b : Bank) :
    env.phys m (.r14 b) = if b = m.bank then env.regs 14 else env.bankedR14 b.index := by
  simp only [CPUARMState.phys, PhysReg.number]
  by_cases h : b = m.bank
  · rw [if_pos h, if_pos h]
  · rw [if_neg h, if_neg h]
    rfl

theorem phys_pc : env.phys m .pc = env.regs 15 := rfl

theorem phys_spsr (b : Bank) :
    env.phys m (.spsr b) = if b = m.bank then env.spsr else env.bankedSpsr b.index := rfl

theorem phys_update_spsr (v : Word) :
    CPUARMState.phys { env with spsr := v } m = update (env.phys m) (.spsr m.bank) v := by
  funext p
  cases p with
  | spsr b =>
    rw [phys_spsr]
    by_cases h : b = m.bank
    · rw [if_pos h, h, update_self]
    · rw [if_neg h, update_of_ne (by simpa using h), phys_spsr, if_neg h]
  | _ => rfl

/-- A write to a bank that is not in sight. -/
theorem phys_update_bankedR13 {b : Bank} (hb : b ≠ m.bank) (v : Word) :
    CPUARMState.phys { env with bankedR13 := update env.bankedR13 b.index v } m =
      update (env.phys m) (.r13 b) v := by
  funext p
  cases p with
  | r13 c =>
    rw [phys_r13]
    by_cases h : c = b
    · rw [h, if_neg hb, update_self]
      exact update_self ..
    · rw [update_of_ne (by simpa using h), phys_r13]
      congr 1
      exact update_of_ne (fun hi => h (Bank.index_inj.mp hi)) _ _
  | _ => rfl

/-- A banked link register is written while its mode is off. -/
theorem phys_update_bankedR14 {b : Bank} (hb : b ≠ m.bank) (v : Word) :
    CPUARMState.phys { env with bankedR14 := update env.bankedR14 b.index v } m =
      update (env.phys m) (.r14 b) v := by
  funext p
  cases p with
  | r14 c =>
    rw [phys_r14]
    by_cases h : c = b
    · rw [h, if_neg hb, update_self]
      exact update_self ..
    · rw [update_of_ne (by simpa using h), phys_r14]
      congr 1
      exact update_of_ne (fun hi => h (Bank.index_inj.mp hi)) _ _
  | _ => rfl

theorem phys_update_usrRegs (i : Fin 5) (v : Word) :
    CPUARMState.phys { env with usrRegs := update env.usrRegs i v } .fiq =
      update (env.phys .fiq) (.mid false i) v := by
  funext p
  cases p with
  | mid fiq j =>
    cases fiq with
    | true => rfl
    | false =>
      by_cases h : j = i
      · rw [h, update_self]
        exact update_self ..
      · rw [update_of_ne (by simpa using h)]
        exact update_of_ne h _ _
  | _ => rfl

end Phys

/-! ### Mode changes -/

theorem highRegs_setHighRegs (regs : Fin 16 → Word) (high : Fin 5 → Word) :
    highRegs (setHighRegs regs high) = high := by
  funext i
  unfold highRegs setHighRegs
  rw [dif_pos ⟨by show 8 ≤ 8 + i.val; omega, by show 8 + i.val < 13; omega⟩]
  congr 1
  apply Fin.ext
  show 8 + i.val - 8 = i.val
  omega

theorem switchFiq_regs (env : CPUARMState) (mode : Word) {r : Fin 16}
    (hr : r.val < 8 ∨ 13 ≤ r.val) :
    (switchFiq env mode).regs r = env.regs r := by
  have hset : ∀ high, setHighRegs env.regs high r = env.regs r := by
    intro high
    exact dif_neg (by omega)
  unfold switchFiq
  split_ifs
  · exact hset _
  · exact hset _
  · rfl

/-- r8 to r12 are where the new mode looks for them. -/
theorem switchFiq_mid {env : CPUARMState} {m m' : Mode} (hm : env.mode = m.bits) (hne : m ≠ m')
    (fiq : Bool) (i : Fin 5) :
    (switchFiq env m'.bits).phys m' (.mid fiq i) = env.phys m (.mid fiq i) := by
  rw [phys_mid, phys_mid]
  unfold switchFiq
  rw [hm]
  simp only [Mode.bits_inj]
  by_cases h : m = .fiq
  · subst h
    cases fiq <;> simp [hne.symm, highRegs_setHighRegs]
  · by_cases h' : m' = .fiq
    · subst h'
      cases fiq <;> simp [h, highRegs_setHighRegs]
    · cases fiq <;> simp [h, h']

theorem switchFiq_banks (env : CPUARMState) (mode : Word) :
    (switchFiq env mode).bankedR13 = env.bankedR13 ∧
      (switchFiq env mode).bankedR14 = env.bankedR14 ∧
      (switchFiq env mode).bankedSpsr = env.bankedSpsr ∧ (switchFiq env mode).spsr = env.spsr := by
  unfold switchFiq
  split_ifs <;> exact ⟨rfl, rfl, rfl, rfl⟩

/-- Saving one bank and loading another keeps what every bank holds. -/
theorem bank_exchange {banked : Fin 6 → Word} {cur : Word} {b c b' : Bank} :
    (if b' = c then update banked b.index cur c.index
      else update banked b.index cur b'.index) =
      if b' = b then cur else banked b'.index := by
  have hupd : ∀ d : Bank, update banked b.index cur d.index =
      if d = b then cur else banked d.index := by
    intro d
    by_cases h : d = b
    · rw [h, update_self, if_pos rfl]
    · rw [if_neg h]
      exact update_of_ne (fun hi => h (Bank.index_inj.mp hi)) _ _
  rw [hupd, hupd]
  by_cases h : b' = c
  · rw [if_pos h, h]
  · rw [if_neg h]

/-- **Mode changes.**  Between two modes every register keeps its value, whichever of the two
    sees it. -/
theorem switchMode_phys (env : CPUARMState) {m : Mode} (hm : env.mode = m.bits) (m' : Mode) :
    ∃ env', switchMode env m'.bits = some env' ∧ env'.phys m' = env.phys m := by
  unfold switchMode
  rw [hm]
  by_cases h : m' = m
  · rw [if_pos (Mode.bits_inj.mpr h)]
    exact ⟨env, rfl, by rw [h]⟩
  -- the banks are swapped: each physical register is found where it now lives
  · rw [if_neg (fun hb => h (Mode.bits_inj.mp hb)), bankNumber_bits, bankNumber_bits]
    refine ⟨_, rfl, ?_⟩
    obtain ⟨h13, h14, hbs, hs⟩ := switchFiq_banks env m'.bits
    have hregs : ∀ r : Fin 16, r ≠ 13 → r ≠ 14 →
        (switchBank (switchFiq env m'.bits) m.bank.index m'.bank.index).regs r =
          (switchFiq env m'.bits).regs r := by
      intro r hr13 hr14
      show update (update _ 13 _) 14 _ r = _
      rw [update_of_ne hr14, update_of_ne hr13]
    funext p
    cases p with
    | low i =>
      rw [phys_low, phys_low, hregs _ (by simp [Fin.ext_iff]; omega) (by simp [Fin.ext_iff]; omega)]
      exact switchFiq_regs env _ (Or.inl i.isLt)
    | mid fiq i =>
      rw [← switchFiq_mid hm (fun hmm => h hmm.symm), phys_mid, phys_mid]
      have hhigh : highRegs (switchBank (switchFiq env m'.bits) m.bank.index m'.bank.index).regs i =
          highRegs (switchFiq env m'.bits).regs i :=
        hregs _ (by simp [Fin.ext_iff]; omega) (by simp [Fin.ext_iff]; omega)
      rw [hhigh]
      rfl
    | r13 b =>
      rw [phys_r13, phys_r13, ← h13, ← switchFiq_regs env m'.bits (r := 13) (Or.inr (by decide))]
      exact bank_exchange
    | r14 b =>
      rw [phys_r14, phys_r14, ← h14, ← switchFiq_regs env m'.bits (r := 14) (Or.inr (by decide))]
      exact bank_exchange
    | pc =>
      rw [phys_pc, phys_pc, hregs _ (by decide) (by decide)]
      exact switchFiq_regs env _ (Or.inr (by decide))
    | spsr b =>
      rw [phys_spsr, phys_spsr, ← hbs, ← hs]
      exact bank_exchange

/-! ### The CPSR of the register file -/

/-- The code's state stands for the register file. -/
structure Refines (env : CPUARMState) (f : RegFile) : Prop where
  mode : env.mode = f.mode.bits
  wf : env.CpsrWf
  reg : env.phys f.mode = f.reg
  cpsr : cpsrRead env = f.cpsr
  vectors : env.cp15.c1Sys.getLsbD 13 = f.highVectors

/-- A write that changes one physical register, and nothing else that is looked at, is the write of
    that register in the file. -/
theorem Refines.set {env : CPUARMState} {f : RegFile} (h : Refines env f) (p : PhysReg) (v : Word)
    (env' : CPUARMState) (hflags : env'.toFlags = env.toFlags)
    (hword : env'.uncachedCpsr = env.uncachedCpsr) (hcp : env'.cp15 = env.cp15)
    (hreg : env'.phys f.mode = update (env.phys f.mode) p v) :
    Refines env' (f.set p v) where
  mode := by
    rw [CPUARMState.mode, hword]
    exact h.mode
  wf := by
    rw [CPUARMState.CpsrWf, hword]
    exact h.wf
  reg := by
    show env'.phys f.mode = update f.reg p v
    rw [hreg, h.reg]
  cpsr := by
    rw [cpsrRead, hflags, hword]
    exact h.cpsr
  vectors := by
    rw [hcp]
    exact h.vectors

theorem Mode.ofBits_eq_some {w : Word} {m : Mode} (h : Mode.ofBits w = some m) : m.bits = w := by
  simpa using List.find?_some h

/-- The mode that is left when the bits of the mask are written. -/
theorem writeUncached_mode (env : CPUARMState) (val mask : Word) :
    (writeUncached env val mask).mode =
      (env.mode &&& ~~~(mask &&& cpsrM)) ||| (val &&& (mask &&& cpsrM)) := by
  apply BitVec.eq_of_getLsbD_eq
  intro i hi
  have hM : cpsrM.getLsbD i = true → cachedCpsrBits.getLsbD i = false := by
    interval_cases i <;> decide
  simp only [writeUncached, CPUARMState.mode, BitVec.getLsbD_and, BitVec.getLsbD_or,
    BitVec.getLsbD_not, hi, decide_true, Bool.true_and]
  cases h : cpsrM.getLsbD i with
  | true =>
    rw [hM h]
    simp
  | false => simp

/-- With the mode bits in the mask `cpsr_write` calls `switch_mode` or has no need to. -/
theorem writeMode_whole (env : CPUARMState) {val mask : Word} (h : mask &&& cpsrM = cpsrM) :
    writeMode env val mask = switchMode env (val &&& cpsrM) := by
  have hd : (env.uncachedCpsr ^^^ val) &&& mask &&& cpsrM = env.mode ^^^ (val &&& cpsrM) := by
    rw [BitVec.and_assoc, h]
    apply BitVec.eq_of_getLsbD_eq
    intro i hi
    simp only [CPUARMState.mode, BitVec.getLsbD_and, BitVec.getLsbD_xor]
    cases cpsrM.getLsbD i <;> simp
  unfold writeMode
  rw [hd]
  split_ifs with hne
  · rfl
  · unfold switchMode
    rw [if_pos]
    exact (BitVec.xor_eq_zero_iff.mp (not_not.mp hne)).symm

/-- `cpsr_write` of the flags or of a whole mode is the write of the CPSR of the file. -/
theorem Refines.cpsrWrite {env : CPUARMState} {f : RegFile} (h : Refines env f) (val mask : Word)
    (hmask : mask &&& cpsrM = 0 ∨
      mask &&& cpsrM = cpsrM ∧ (Mode.ofBits (val &&& cpsrM)).isSome) :
    ∃ env', Arm.cpsrWrite env val mask = some env' ∧ Refines env' (f.writeCpsr val mask) := by
  -- the change of mode, if any
  obtain ⟨env₁, h₁, hphys, hmode⟩ : ∃ env₁, writeMode (writeFlags env val mask) val mask =
    some env₁ ∧
      env₁.phys (f.writeCpsr val mask).mode = env.phys f.mode ∧
      (env.mode &&& ~~~(mask &&& cpsrM)) ||| (val &&& (mask &&& cpsrM)) =
        (f.writeCpsr val mask).mode.bits := by
    rcases hmask with hz | ⟨hw, hv⟩
    · refine ⟨writeFlags env val mask, ?_, ?_, ?_⟩
      · unfold writeMode
        rw [BitVec.and_assoc, hz, if_neg (by simp)]
      · simp only [RegFile.writeCpsr, if_pos hz]
        rfl
      · have hones : ~~~(0 : Word) = BitVec.allOnes 32 := by decide
        simp only [RegFile.writeCpsr, hz, h.mode]
        rw [hones, BitVec.and_allOnes]
        simp
    · obtain ⟨m, hm⟩ := Option.isSome_iff_exists.mp hv
      have hmode : (f.writeCpsr val mask).mode = m := by
        simp only [RegFile.writeCpsr, hw, hm]
        rfl
      obtain ⟨env₁, h₁, hphys⟩ := switchMode_phys (writeFlags env val mask) h.mode m
      refine ⟨env₁, ?_, ?_, ?_⟩
      · rw [writeMode_whole _ hw, ← Mode.ofBits_eq_some hm]
        exact h₁
      · rw [hmode, hphys]
        rfl
      · rw [hmode, hw, Mode.ofBits_eq_some hm]
        apply BitVec.eq_of_getLsbD_eq
        intro i hi
        simp only [CPUARMState.mode, BitVec.getLsbD_and, BitVec.getLsbD_or, BitVec.getLsbD_not]
        cases cpsrM.getLsbD i <;> simp
  have hw : Arm.cpsrWrite env val mask = some (writeUncached env₁ val mask) := by
    unfold Arm.cpsrWrite
    rw [h₁]
    rfl
  have hframe : env₁.uncachedCpsr = env.uncachedCpsr ∧ env₁.cp15 = env.cp15 := by
    unfold writeMode at h₁
    split at h₁
    · exact (switchMode_frame h₁).2
    · obtain rfl := Option.some.inj h₁
      exact ⟨rfl, rfl⟩
  obtain ⟨hcpsr, hwf⟩ := cpsrRead_cpsrWrite h.wf hw
  refine ⟨_, hw, ⟨?_, hwf, ?_, ?_, ?_⟩⟩
  · rw [writeUncached_mode, ← hmode]
    simp only [CPUARMState.mode, hframe.1]
  · show env₁.phys (f.writeCpsr val mask).mode = f.reg
    rw [hphys, h.reg]
  · rw [hcpsr, h.cpsr]
    rfl
  · show env₁.cp15.c1Sys.getLsbD 13 = f.highVectors
    rw [hframe.2, h.vectors]

/-! ### Exceptions -/

theorem thumb_eq {env : CPUARMState} (h : env.CpsrWf) :
    (cpsrRead env >>> 5).setWidth 1 = env.thumb := by
  apply BitVec.eq_of_getLsbD_eq
  intro i hi
  obtain rfl : i = 0 := by omega
  have hb := read_getLsbD env.toFlags env.uncachedCpsr (i := 5) (by decide)
  rw [getLsbD_of_and h (by decide)] at hb
  simpa [cpsrRead, Flags.bit] using hb

theorem Excp.entry_mask (thumb : BitVec 1) (e : Excp) :
    (e.entry thumb).mask &&& (cachedCpsrBits ||| cpsrM) = 0 := by
  cases e <;> simp only [Excp.entry] <;> decide

theorem Mode.bits_and (m : Mode) : m.bits &&& ~~~cpsrM = 0 := by
  cases m <;> rfl

/-- The CPSR an exception starts with. -/
theorem read_exception (f : Flags) {u n m : Word} (hu : u &&& cachedCpsrBits = 0) :
    Flags.read { f with condexecBits := 0, thumb := 0 } (((u &&& ~~~cpsrM) ||| n) ||| m) =
      ((f.read u &&& ~~~(cpsrT ||| cpsrIt01 ||| cpsrIt27 ||| cpsrM)) ||| n) ||| m := by
  apply BitVec.eq_of_getLsbD_eq
  intro i hi
  have hui : cachedCpsrBits.getLsbD i = true → u.getLsbD i = false := getLsbD_of_and hu
  simp only [read_getLsbD _ _ hi, BitVec.getLsbD_or, BitVec.getLsbD_and, BitVec.getLsbD_not, hi,
    decide_true, Bool.true_and]
  interval_cases i <;> simp [Flags.bit] at hui ⊢ <;>
    simp [hui, Bool.or_comm, Bool.or_left_comm, Bool.or_assoc]

/-- The mode an exception starts in, and no flag among the bits kept apart from the flags. -/
theorem exception_word {u n m : Word} (hu : u &&& cachedCpsrBits = 0) (hn : n &&& ~~~cpsrM = 0)
    (hm : m &&& (cachedCpsrBits ||| cpsrM) = 0) :
    (((u &&& ~~~cpsrM) ||| n) ||| m) &&& cpsrM = n ∧
      (((u &&& ~~~cpsrM) ||| n) ||| m) &&& cachedCpsrBits = 0 := by
  constructor
  all_goals
    apply BitVec.eq_of_getLsbD_eq
    intro i hi
    have hui : cachedCpsrBits.getLsbD i = true → u.getLsbD i = false := getLsbD_of_and hu
    have hni : (~~~cpsrM).getLsbD i = true → n.getLsbD i = false := getLsbD_of_and hn
    have hmi : (cachedCpsrBits ||| cpsrM).getLsbD i = true → m.getLsbD i = false :=
      getLsbD_of_and hm
    simp only [BitVec.getLsbD_or, BitVec.getLsbD_and]
    interval_cases i <;> simp at hui hni hmi ⊢ <;> simp [hui, hni, hmi]

theorem saveCondexec_frame (env : CPUARMState) :
    (saveCondexec env).toFlags = env.toFlags ∧ (saveCondexec env).uncachedCpsr = env.uncachedCpsr ∧
      (saveCondexec env).cp15 = env.cp15 ∧ (saveCondexec env).regs = env.regs ∧
      ∀ m, (saveCondexec env).phys m = env.phys m := by
  unfold saveCondexec
  split_ifs <;> exact ⟨rfl, rfl, rfl, rfl, fun _ => rfl⟩

/-- Registers after the last part of `do_interrupt`. -/
theorem enterException_phys (env : CPUARMState) (x : ExcpEntry) :
    (enterException env x).phys x.newMode =
      update
        (update
          (update (env.phys x.newMode) (.spsr x.newMode.bank) (cpsrRead env))
          (.r14 x.newMode.bank) (env.regs 15 + x.offset))
        .pc (if env.cp15.c1Sys.getLsbD 13 then x.addr + 0xffff0000 else x.addr) := by
  have h14 : PhysReg.of x.newMode 14 = .r14 x.newMode.bank := rfl
  have h15 : PhysReg.of x.newMode 15 = .pc := rfl
  rw [← phys_update_spsr, ← h14, ← phys_update, ← h15, ← phys_update]
  rfl

/-- The entry to an exception: the mode is switched, and the state is saved in the banks of the new
    mode. -/
theorem Refines.takeException {env : CPUARMState} {f : RegFile} (h : Refines env f) {x : ExcpEntry}
    (hx : x.mask &&& (cachedCpsrBits ||| cpsrM) = 0) :
    ∃ env', switchMode (saveCondexec env) x.newMode.bits = some env' ∧
      Refines (enterException env' x) (f.takeException x) := by
  obtain ⟨hflags, hun, hcp, hregs, hsave⟩ := saveCondexec_frame env
  have hmode : (saveCondexec env).mode = f.mode.bits := by
    rw [← h.mode]
    simp only [CPUARMState.mode, hun]
  obtain ⟨env', hsw, hphys⟩ := switchMode_phys _ hmode x.newMode
  obtain ⟨hflags', hun', hcp'⟩ := switchMode_frame hsw
  have hread : cpsrRead env' = f.cpsr := by
    rw [← h.cpsr]
    simp only [cpsrRead, hflags', hflags, hun', hun]
  have hpc : env'.regs 15 = f.reg .pc := by
    rw [← phys_pc env' x.newMode, hphys, hsave, h.reg]
  have hwf' : env'.uncachedCpsr &&& cachedCpsrBits = 0 := by
    rw [hun', hun]
    exact h.wf
  have hvec : env'.cp15.c1Sys.getLsbD 13 = f.highVectors := by
    rw [hcp', hcp, h.vectors]
  refine ⟨env', hsw, ⟨?_, ?_, ?_, ?_, ?_⟩⟩
  · exact (exception_word hwf' x.newMode.bits_and hx).1
  · exact (exception_word hwf' x.newMode.bits_and hx).2
  · show (enterException env' x).phys x.newMode = _
    rw [enterException_phys, hphys, hsave, h.reg, hread, hpc, hvec]
    rfl
  · refine (read_exception env'.toFlags hwf').trans ?_
    show ((cpsrRead env' &&& _) ||| _) ||| _ = _
    rw [hread]
    rfl
  · exact hvec

/-- `do_interrupt`, with all that it may ask of the semihosting. -/
theorem Refines.doInterrupt {env : CPUARMState} {f : RegFile} (h : Refines env f)
    (sh : Semihosting) (e : Excp) :
    ∃ env', Arm.doInterrupt sh env e = some env' ∧
      Refines env' (RegOp.spec f (.doInterrupt sh e)).1 := by
  have hthumb : f.thumb = env.thumb := by
    rw [← thumb_eq h.wf, h.cpsr]
    rfl
  have hpc : f.reg .pc = env.regs 15 := by rw [← h.reg, phys_pc]
  simp only [Arm.doInterrupt, RegOp.spec, hthumb, hpc, ← h.mode]
  by_cases hi : sh.intercepts env.thumb (env.regs 15) env.mode e = true
  · rw [if_pos hi, if_pos hi]
    refine ⟨_, rfl, ?_⟩
    have h0 : PhysReg.of f.mode 0 = .low 0 := rfl
    have h15 : PhysReg.of f.mode 15 = .pc := rfl
    by_cases he : e = .bkpt
    · rw [if_pos he]
      have hpc' := h.set .pc (env.regs 15 + 2)
        { env with regs := update env.regs 15 (env.regs 15 + 2) } rfl rfl rfl
          (h15 ▸ phys_update env f.mode 15 _)
      refine hpc'.set (.low 0) sh.result _ rfl rfl rfl ?_
      rw [← h0, Semihosting.call, if_pos he]
      exact phys_update { env with regs := update env.regs 15 (env.regs 15 + 2) } _ _ _
    · rw [if_neg he]
      refine h.set (.low 0) sh.result _ rfl rfl rfl ?_
      rw [← h0, Semihosting.call, if_neg he]
      exact phys_update env f.mode 0 _
  · rw [if_neg hi, if_neg hi]
    obtain ⟨env', hsw, href⟩ := h.takeException (Excp.entry_mask env.thumb e)
    exact ⟨enterException env' (e.entry env.thumb), by rw [hsw]; rfl, href⟩

/-! ### Accesses -/

theorem storedValue_storeReg {env : CPUARMState} {f : RegFile} (h : Refines env f) (r : Fin 16)
    (v : Word) : Refines (storeReg env r v) (f.set (.of f.mode r) (storedValue r v)) :=
  h.set _ _ _ rfl rfl rfl (phys_update env f.mode r _)

/-- The registers of user mode from a mode with a bank of its own. -/
theorem usrReg_cases (m : Mode) (r : Fin 15) :
    (r = 13 ∧ PhysReg.of .usr r.castSucc = .r13 .usr) ∨
    (r = 14 ∧ PhysReg.of .usr r.castSucc = .r14 .usr) ∨
    (∃ i : Fin 5, r = ⟨8 + i.val, by omega⟩ ∧ m = .fiq ∧
      PhysReg.of .usr r.castSucc = .mid false i) ∨
    (r.val < 13 ∧ ¬(8 ≤ r.val ∧ m = .fiq) ∧
      PhysReg.of .usr r.castSucc = .of m r.castSucc) := by
  rcases Nat.lt_or_ge r.val 13 with h | h
  · by_cases hf : 8 ≤ r.val ∧ m = .fiq
    · refine Or.inr (Or.inr (Or.inl ⟨⟨r.val - 8, by omega⟩, ?_, hf.2, ?_⟩))
      · apply Fin.ext
        show r.val = 8 + (r.val - 8)
        omega
      · unfold PhysReg.of
        rw [dif_neg (by show ¬r.val < 8; omega), dif_pos (by exact h)]
        rfl
    · refine Or.inr (Or.inr (Or.inr ⟨h, hf, ?_⟩))
      unfold PhysReg.of
      by_cases h8 : r.val < 8
      · rw [dif_pos (by exact h8), dif_pos (by exact h8)]
      · have hm : m ≠ .fiq := fun hm => hf ⟨by omega, hm⟩
        rw [dif_neg (by exact h8), dif_pos (by exact h), dif_neg (by exact h8),
          dif_pos (by exact h), beq_eq_false_iff_ne.mpr hm]
        rfl
  · rcases Nat.lt_or_ge r.val 14 with h14 | h14
    · exact Or.inl ⟨Fin.ext (by show r.val = 13; omega), by
        obtain rfl : r = 13 := Fin.ext (by show r.val = 13; omega)
        rfl⟩
    · exact Or.inr (Or.inl ⟨Fin.ext (by show r.val = 14; omega), by
        obtain rfl : r = 14 := Fin.ext (by show r.val = 14; omega)
        rfl⟩)

/-- `HELPER(get_user_reg)` reads the register of user mode. -/
theorem getUserReg_phys {env : CPUARMState} {m : Mode} (hmode : env.mode = m.bits)
    (hm : m.bank ≠ .usr) (r : Fin 15) :
    getUserReg env r = env.phys m (.of .usr r.castSucc) := by
  unfold getUserReg
  simp only [hmode, Mode.bits_inj]
  rcases usrReg_cases m r with ⟨rfl, hp⟩ | ⟨rfl, hp⟩ | ⟨i, rfl, rfl, hp⟩ | ⟨h13, hf, hp⟩
  · rw [hp, phys_r13, if_neg (Ne.symm hm)]
    rfl
  · rw [hp, phys_r14, if_neg (Ne.symm hm)]
    rfl
  · rw [hp, dif_neg (by simp; omega), dif_neg (by simp; omega), dif_pos ⟨by simp, rfl⟩]
    show env.usrRegs _ = env.usrRegs i
    congr 1
    apply Fin.ext
    show 8 + i.val - 8 = i.val
    omega
  · rw [hp, dif_neg (by omega), dif_neg (by omega), dif_neg hf, phys_of]
    rfl

/-- `HELPER(set_user_reg)` writes it, and no other one. -/
theorem setUserReg_phys {env : CPUARMState} {m : Mode} (hmode : env.mode = m.bits)
    (hm : m.bank ≠ .usr) (r : Fin 15) (v : Word) :
    (setUserReg env r v).phys m = update (env.phys m) (.of .usr r.castSucc) v := by
  unfold setUserReg
  simp only [hmode, Mode.bits_inj]
  rcases usrReg_cases m r with ⟨rfl, hp⟩ | ⟨rfl, hp⟩ | ⟨i, rfl, rfl, hp⟩ | ⟨h13, hf, hp⟩
  · rw [hp]
    exact phys_update_bankedR13 env m (Ne.symm hm) v
  · rw [hp]
    exact phys_update_bankedR14 env m (Ne.symm hm) v
  · rw [hp, dif_neg (by simp; omega), dif_neg (by simp; omega), dif_pos ⟨by simp, rfl⟩,
      ← phys_update_usrRegs]
    have hi : (⟨8 + i.val - 8, by omega⟩ : Fin 5) = i := by
      apply Fin.ext
      show 8 + i.val - 8 = i.val
      omega
    rw [hi]
  · rw [hp, dif_neg (by omega), dif_neg (by omega), dif_neg hf]
    exact phys_update env m r.castSucc v

theorem setUserReg_frame (env : CPUARMState) (r : Fin 15) (v : Word) :
    (setUserReg env r v).toFlags = env.toFlags ∧
      (setUserReg env r v).uncachedCpsr = env.uncachedCpsr ∧
      (setUserReg env r v).cp15 = env.cp15 := by
  unfold setUserReg
  split_ifs <;> exact ⟨rfl, rfl, rfl⟩

/-- One access refines the same access to the register file. -/
theorem Refines.exec {env : CPUARMState} {f : RegFile} (op : RegOp) (h : Refines env f)
    (hop : op.Allowed f) :
    ∃ env', op.exec env = some (env', (op.spec f).2) ∧ Refines env' (op.spec f).1 := by
  -- a read agrees by `h.reg`, a write sets one register of the abstract file
  cases op with
  | loadReg r =>
    refine ⟨env, ?_, h⟩
    show some (env, some (env.regs r)) = some (env, some (f.get r))
    rw [RegFile.get, ← h.reg, phys_of]
  | storeReg r v => exact ⟨_, rfl, storedValue_storeReg h r v⟩
  | loadSpsr =>
    refine ⟨env, ?_, h⟩
    show some (env, some env.spsr) = some (env, some (f.reg (.spsr f.mode.bank)))
    rw [← h.reg, phys_spsr, if_pos rfl]
  | setSpsr t0 mask =>
    refine ⟨_, rfl, h.set _ _ _ rfl rfl rfl ?_⟩
    rw [← h.reg, phys_spsr, if_pos rfl]
    exact phys_update_spsr env f.mode _
  | cpsrRead =>
    refine ⟨env, ?_, h⟩
    show some (env, some (Arm.cpsrRead env)) = some (env, some f.cpsr)
    rw [h.cpsr]
  | cpsrWrite val mask =>
    obtain ⟨env', hw, href⟩ := h.cpsrWrite _ _ hop
    exact ⟨env', by simp only [RegOp.exec, hw]; rfl, href⟩
  | doInterrupt sh e =>
    obtain ⟨env', hw, href⟩ := h.doInterrupt sh e
    refine ⟨env', ?_, href⟩
    simp only [RegOp.exec, hw, RegOp.spec]
    split <;> rfl
  | exceptionReturn pc =>
    have hst := storedValue_storeReg h 15 pc
    have hspsr : (storeReg env 15 pc).spsr = f.reg (.spsr f.mode.bank) := by
      show env.spsr = _
      rw [← h.reg, phys_spsr, if_pos rfl]
    obtain ⟨env', hw, href⟩ := hst.cpsrWrite (f.reg (.spsr f.mode.bank)) 0xffffffff
      (Or.inr ⟨by decide, hop⟩)
    refine ⟨env', ?_, href⟩
    simp only [RegOp.exec, Arm.exceptionReturn, hspsr, hw]
    rfl
  | rfe pc cpsr =>
    obtain ⟨env', hw, href⟩ := h.cpsrWrite cpsr 0xffffffff
      (Or.inr ⟨by decide, hop⟩)
    refine ⟨storeReg env' 15 pc, ?_, storedValue_storeReg href 15 pc⟩
    simp only [RegOp.exec, Arm.rfe, hw]
    rfl
  | getUserReg r =>
    refine ⟨env, ?_, h⟩
    show some (env, some (Arm.getUserReg env r)) = some (env, some (f.reg _))
    rw [getUserReg_phys h.mode hop, h.reg]
  | setUserReg r v =>
    obtain ⟨hflags, hword, hcp⟩ := setUserReg_frame env r v
    exact ⟨_, rfl, h.set _ _ _ hflags hword hcp (setUserReg_phys h.mode hop r v)⟩
  | getR13Banked m =>
    refine ⟨env, ?_, h⟩
    simp only [RegOp.exec, Arm.getR13Banked, bankNumber_bits, RegOp.spec, ← h.reg, phys_r13]
    rw [if_neg hop]
    rfl
  | setR13Banked m v =>
    refine ⟨_, ?_, h.set (.r13 m.bank) v { env with
      bankedR13 := update env.bankedR13 m.bank.index v } rfl rfl rfl
      (phys_update_bankedR13 env f.mode hop v)⟩
    simp only [RegOp.exec, Arm.setR13Banked, bankNumber_bits]
    rfl

/-- **The banked registers.**  Any sequence of allowed accesses, CPSR writes, exceptions and
    returns reads from the CPU state what it reads from the register file. -/
theorem regRun_refines {env : CPUARMState} {f : RegFile} (h : Refines env f) {ops : List RegOp}
    (hops : StepsMeet (fun f op => some (RegOp.spec f op).1) (fun f op => op.Allowed f) f ops) :
    ∃ env', runAnswers RegOp.exec env ops = some (env', (specAnswers RegOp.spec f ops).2) ∧
      Refines env' (specAnswers RegOp.spec f ops).1 :=
  runAnswers_simulation (fun _ _ op hR hop => hR.exec op hop) h hops

/-- The register file of a state in mode `m`. -/
def CPUARMState.file (env : CPUARMState) (m : Mode) : RegFile where
  mode := m
  reg := env.phys m
  cpsr := cpsrRead env
  highVectors := env.cp15.c1Sys.getLsbD 13

theorem refines_file {env : CPUARMState} {m : Mode} (hm : env.mode = m.bits) (hwf : env.CpsrWf) :
    Refines env (env.file m) :=
  ⟨hm, hwf, rfl, rfl, rfl⟩

/-- A cleared CPU in supervisor mode. -/
def svcState : CPUARMState := { (default : CPUARMState) with uncachedCpsr := 0x13 }

/-- An interrupt between two reads of the stack pointer. -/
theorem regRun_refines_irq :
    ∃ env', runAnswers RegOp.exec svcState
        [.storeReg 13 7, .doInterrupt ⟨false, fun _ => 0, fun _ => 0, 0⟩ .irq, .storeReg 13 9,
          .getR13Banked .svc, .exceptionReturn 4, .loadReg 13] =
        some (env', [none, none, none, some 7, none, some 7]) := by
  have hsvc : Refines svcState (svcState.file .svc) := refines_file rfl rfl
  have hops : StepsMeet (fun f op => some (RegOp.spec f op).1) (fun f op => op.Allowed f)
      (svcState.file .svc)
      [.storeReg 13 7, .doInterrupt ⟨false, fun _ => 0, fun _ => 0, 0⟩ .irq, .storeReg 13 9,
        .getR13Banked .svc, .exceptionReturn 4, .loadReg 13] := by decide +kernel
  obtain ⟨env', hrun, -⟩ := regRun_refines hsvc hops
  exact ⟨env', hrun⟩

end Qemu.Arm
