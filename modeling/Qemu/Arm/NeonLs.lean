import Qemu.Arm.Cpu
import Qemu.Lib.Faulting
import Qemu.Lib.Lanes

namespace Qemu.Arm

open Lib

/-!
# Neon loads and stores (`target-arm/op_helper.c`, `target-arm/translate.c`)

* `LsState`, `LsEvent` — what the instructions change, and what they touch;
* `neonVldstAll` — `neon_vldst_all`: multiple structures;
* `disasNeonLsInsn` — `disas_neon_ls_insn`, with the code that it generates as a program.

Accesses to memory may fault, and a fault ends the program.  `vfp.regs` is taken to go on behind its
32 registers.
-/

/-! ### The state -/

/-- The registers and the memory, and how many accesses were made. -/
structure LsState where
  regs : Fin 16 → Word
  vfp : Nat → BitVec 64
  mem : Word → BitVec 8
  accesses : Nat

/-- A `D` register, and a byte of memory, that are read or written. -/
inductive LsEvent
  | dreg (rd : Nat)
  | byte (addr : Word)
  deriving DecidableEq

/-- A translated instruction, which an access can fault. -/
abbrev Ls := Faulting LsEvent LsState

/-- Which accesses fault, and what they leave in memory. -/
abbrev LsFaults := Nat → Option ((Word → BitVec 8) → Word → BitVec 8)

/-- The bytes that an access touches. -/
def byteEvents (addr : Word) (len : Nat) : List LsEvent :=
  (List.range len).map fun k => .byte (addr + BitVec.ofNat 32 k)

/-- The little endian number in memory. -/
def loadLe (mem : Word → BitVec 8) (addr : Word) (len : Nat) : BitVec 64 :=
  ofLanes 64 ((List.range len).map fun k => (k, mem (addr + BitVec.ofNat 32 k)))

/-- Memory with a little endian number. -/
def storeLe (mem : Word → BitVec 8) (addr : Word) (len : Nat) (val : BitVec 64) :
    Word → BitVec 8 :=
  writeAll ((List.range len).map fun k => (addr + BitVec.ofNat 32 k, lane 8 k val)) mem

/-- An access to memory. -/
def lsAccess (faults : LsFaults) (addr : Word) (len : Nat)
    (f : (Word → BitVec 8) → Word → BitVec 8) :
    Ls PUnit := fun s =>
  match faults s.accesses with
  | none => ⟨byteEvents addr len, { s with mem := f s.mem, accesses := s.accesses + 1 }, some ⟨⟩⟩
  | some left =>
    ⟨byteEvents addr len, { s with mem := left s.mem, accesses := s.accesses + 1 }, none⟩

/-- `LDB`, `LDW`, `LDL`, `LDQ` -/
def ldBytes (faults : LsFaults) (len : Nat) (addr : Word) : Ls (BitVec 64) := do
  lsAccess faults addr len id
  let s ← Faulting.get
  pure (loadLe s.mem addr len)

/-- `STB`, `STW`, `STL`, `STQ` -/
def stBytes (faults : LsFaults) (len : Nat) (addr : Word) (val : BitVec 64) : Ls PUnit :=
  lsAccess faults addr len fun mem => storeLe mem addr len val

/-- A read of `env->vfp.regs[rd]`. -/
def readDreg (rd : Nat) : Ls (BitVec 64) := do
  Faulting.act [.dreg rd] id
  let s ← Faulting.get
  pure (s.vfp rd)

/-- A write of `env->vfp.regs[rd]`. -/
def writeDreg (rd : Nat) (val : BitVec 64) : Ls PUnit :=
  Faulting.act [.dreg rd] fun s => { s with vfp := Function.update s.vfp rd val }

/-! ### Multiple structures -/

/-- `(insn >> lo) & mask`, with a mask of `len` bits. -/
def insnBits (insn : Word) (lo len : Nat) : Nat := (insn >>> lo).toNat % 2 ^ len

/-- The number of a core register. -/
def insnReg (insn : Word) (lo : Nat) : Fin 16 := Fin.ofNat 16 (insnBits insn lo 4)

/-- `rd`, with its fifth bit. -/
def insnRd (insn : Word) : Nat := insnBits insn 12 4 + 16 * insnBits insn 22 1

/-- `load` -/
def insnLoad (insn : Word) : Bool := insn.getLsbD 21

/-- `neon_ls_element_type` -/
structure NeonLsElementType where
  nregs : Nat
  interleave : Nat
  spacing : Nat

/-- `neon_ls_element_type`, of an operation that is at most 10. -/
def neonLsElementType (op : Nat) : NeonLsElementType :=
  [⟨4, 4, 1⟩, ⟨4, 4, 2⟩, ⟨4, 1, 1⟩, ⟨4, 2, 1⟩, ⟨3, 3, 1⟩, ⟨3, 3, 2⟩, ⟨3, 1, 1⟩, ⟨1, 1, 1⟩,
    ⟨2, 2, 1⟩, ⟨2, 2, 2⟩, ⟨2, 1, 1⟩].getD op ⟨0, 0, 0⟩

/-- The elements of a register that is loaded, from element `i` on, and the address behind them. -/
def ldElements (faults : LsFaults) (size : Nat) (stride : Word) :
    Nat → Nat → Word → BitVec 64 → Ls (Word × BitVec 64)
  | 0, _, addr, tmp64 => pure (addr, tmp64)
  | n + 1, i, addr, tmp64 => do
    let x ← ldBytes faults (2 ^ size) addr
    ldElements faults size stride n (i + 1) (addr + stride) (tmp64 ||| x <<< (i * 2 ^ size * 8))

/-- The elements of a register that is stored, and the address behind them. -/
def stElements (faults : LsFaults) (size : Nat) (stride : Word) :
    Nat → Word → BitVec 64 → Ls Word
  | 0, addr, _ => pure addr
  | n + 1, addr, tmp64 => do
    stBytes faults (2 ^ size) addr tmp64
    stElements faults size stride n (addr + stride) (tmp64 >>> (2 ^ size * 8))

/-- A round of `neon_vldst_all`: one element of 8 bytes, two of 4, four of 2 or eight of 1. -/
def vldstReg (faults : LsFaults) (load : Bool) (size : Nat) (stride : Word) (rd : Nat)
    (addr : Word) : Ls Word :=
  if load then do
    let (addr, tmp64) ← ldElements faults size stride (8 / 2 ^ size) 0 addr 0
    writeDreg rd tmp64
    pure addr
  else do
    let tmp64 ← readDreg rd
    stElements faults size stride (8 / 2 ^ size) addr tmp64

/-- The loop of `neon_vldst_all`, from register `reg` on. -/
def vldstRegs (faults : LsFaults) (t : NeonLsElementType) (load : Bool) (size : Nat) (rn : Fin 16) :
    Nat → Nat → Nat → Word → Ls PUnit
  | 0, _, _, _ => pure ⟨⟩
  | n + 1, reg, rd, addr => do
    let s ← Faulting.get
    let addr :=
      if 2 < t.interleave ∨ (t.interleave = 2 ∧ t.nregs = 2) then
        s.regs rn + BitVec.ofNat 32 (2 ^ size * reg)
      else if t.interleave = 2 ∧ t.nregs = 4 ∧ reg = 2 then s.regs rn + BitVec.ofNat 32 (2 ^ size)
      else addr
    let addr ← vldstReg faults load size (BitVec.ofNat 32 (2 ^ size * t.interleave)) rd addr
    vldstRegs faults t load size rn n (reg + 1) (rd + t.spacing) addr

/-- `neon_vldst_all` -/
def neonVldstAll (faults : LsFaults) (insn : Word) : Ls PUnit := do
  let t := neonLsElementType (insnBits insn 8 4)
  let rn := insnReg insn 16
  let s ← Faulting.get
  vldstRegs faults t (insnLoad insn) (insnBits insn 6 2) rn t.nregs 0 (insnRd insn) (s.regs rn)

/-! ### The translator -/

/-- What `disas_neon_ls_insn` reads of the CPU and of the context. -/
structure LsContext where
  vfpEnabled : Bool
  vfp3 : Bool
  thumb : Bool
  pc : Word

/-- `VFP_DREG_D` -/
def vfpDregD (c : LsContext) (insn : Word) : Option Nat :=
  if c.vfp3 then some (insnRd insn)
  else if insn.getLsbD 22 then none
  else some (insnBits insn 12 4)

/-- `load_reg_var` -/
def loadRegVar (c : LsContext) (regs : Fin 16 → Word) (reg : Fin 16) : Word :=
  if reg = 15 then c.pc + (if c.thumb then 2 else 4) else regs reg

/-- `store_reg` -/
def lsStoreReg (reg : Fin 16) (var : Word) : Ls PUnit :=
  Faulting.act [] fun s =>
    { s with regs := Function.update s.regs reg (if reg = 15 then var &&& ~~~1 else var) }

/-- `gen_ld8u`, `gen_ld16u`, `gen_ld32` -/
def genLd (faults : LsFaults) (size : Nat) (addr : Word) : Ls Word := do
  let x ← ldBytes faults (2 ^ size) addr
  pure (x.setWidth 32)

/-- `gen_st8`, `gen_st16`, `gen_st32` -/
def genSt (faults : LsFaults) (size : Nat) (addr tmp : Word) : Ls PUnit :=
  stBytes faults (2 ^ size) addr (tmp.setWidth 64)

/-- `neon_load_reg` -/
def neonLoadReg (rd pass : Nat) : Ls Word := do
  let x ← readDreg rd
  pure (lane 32 pass x)

/-- `neon_store_reg` -/
def neonStoreReg (rd pass : Nat) (var : Word) : Ls PUnit :=
  Faulting.act [.dreg rd] fun s =>
    { s with
      vfp := Function.update s.vfp rd
        ((s.vfp rd &&& ~~~inLane 64 pass (0xffffffff : Word)) ||| inLane 64 pass var) }

/-- `gen_bfi` -/
def genBfi (base val : Word) (shift : Nat) (mask : Word) : Word :=
  (base &&& ~~~(mask <<< shift)) ||| (val &&& mask) <<< shift

/-- `gen_neon_dup_u8`, `gen_neon_dup_low16`, and nothing for words. -/
def genNeonDup (size : Nat) (var : Word) : Word :=
  if size = 0 then
    let var := var &&& 0xff
    let var := var ||| var <<< 8
    var ||| var <<< 16
  else if size = 1 then
    let var := var &&& 0xffff
    var ||| var <<< 16
  else var

/-- The loop of the loads to all lanes. -/
def loadAllLanes (faults : LsFaults) (size stride : Nat) : Nat → Nat → Word → Ls PUnit
  | 0, _, _ => pure ⟨⟩
  | n + 1, rd, addr => do
    let tmp ← genLd faults size addr
    let tmp := genNeonDup size tmp
    neonStoreReg rd 0 tmp
    neonStoreReg rd 1 tmp
    loadAllLanes faults size stride n (rd + stride) (addr + BitVec.ofNat 32 (2 ^ size))

/-- A round of the loads and stores of single elements. -/
def singleElement (faults : LsFaults) (load : Bool) (size pass shift rd : Nat) (addr : Word) :
    Ls PUnit :=
  if load then do
    let tmp ← genLd faults size addr
    if size ≠ 2 then do
      let tmp2 ← neonLoadReg rd pass
      neonStoreReg rd pass (genBfi tmp2 tmp shift (if size = 0 then 0xff else 0xffff))
    else neonStoreReg rd pass tmp
  else do
    let tmp ← neonLoadReg rd pass
    genSt faults size addr (tmp >>> shift)

/-- The loop of the loads and stores of single elements. -/
def singleElements (faults : LsFaults) (load : Bool) (size pass shift stride : Nat) :
    Nat → Nat → Word → Ls PUnit
  | 0, _, _ => pure ⟨⟩
  | n + 1, rd, addr => do
    singleElement faults load size pass shift rd addr
    singleElements faults load size pass shift stride n (rd + stride)
      (addr + BitVec.ofNat 32 (2 ^ size))

/-- The write-back. -/
def lsWriteBack (c : LsContext) (rn rm : Fin 16) (stride : Nat) : Ls PUnit :=
  if rm ≠ 15 then do
    let s ← Faulting.get
    let base := loadRegVar c s.regs rn
    if rm = 13 then lsStoreReg rn (base + BitVec.ofNat 32 stride)
    else lsStoreReg rn (base + loadRegVar c s.regs rm)
  else pure ⟨⟩

/-- `disas_neon_ls_insn`: the program that is generated, if the instruction is valid. -/
def disasNeonLsInsn (c : LsContext) (faults : LsFaults) (insn : Word) : Option (Ls PUnit) :=
  if c.vfpEnabled = false then none
  else
    match vfpDregD c insn with
    | none => none
    | some rd =>
      let rn := insnReg insn 16
      let rm := insnReg insn 0
      let load := insnLoad insn
      if insn.getLsbD 23 = false then
        -- multiple structures
        let op := insnBits insn 8 4
        let size := insnBits insn 6 2
        let t := neonLsElementType op
        if 10 < op then none
        else if size = 3 ∧ (t.interleave ||| t.spacing) ≠ 1 then none
        else
          some do
            neonVldstAll faults insn
            lsWriteBack c rn rm (t.nregs * 8)
      else
        let size := insnBits insn 10 2
        let nregs := insnBits insn 8 2 + 1
        if size = 3 then
          -- a single element to all lanes
          if load = false then none
          else
            let size := insnBits insn 6 2
            let stride := if insn.getLsbD 5 then 2 else 1
            if size = 3 then none
            else
              some do
                let s ← Faulting.get
                loadAllLanes faults size stride nregs rd (loadRegVar c s.regs rn)
                lsWriteBack c rn rm (2 ^ size * nregs)
        else
          -- a single element
          let pass := insnBits insn 7 1
          let (shift, stride) :=
            if size = 0 then (insnBits insn 5 2 * 8, 1)
            else if size = 1 then (insnBits insn 6 1 * 16, if insn.getLsbD 5 then 2 else 1)
            else (0, if insn.getLsbD 6 then 2 else 1)
          some do
            let s ← Faulting.get
            singleElements faults load size pass shift stride nregs rd (loadRegVar c s.regs rn)
            lsWriteBack c rn rm (nregs * 2 ^ size)

end Qemu.Arm
