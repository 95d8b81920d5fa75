import Qemu.Arm.Cpu
import Qemu.Lib.Runs

open Qemu.Lib

namespace Qemu.Arm

/-!
# The MMU and the TLB (`target-arm/helper.c`, `exec.c`)

* `getPhysAddrV5`, `getPhysAddrV6`, `getPhysAddrMpu`, `getPhysAddr` — the translation of an address
  for one access;
* `tlbSetPage`, `cpuArmHandleMmuFault` — what a miss puts in the TLB;
* `setCp15` — a write to the system control coprocessor;
* `MmuState`, `MmuAction` — the CPU with its page tables and its TLB, and what is done to it.

A page is one of 1 KiB.
-/

/-- `access_type`: 0 for a read, 1 for a write, 2 for an instruction fetch. -/
inductive AccessType
  | read | write | fetch
deriving DecidableEq, Repr

/-- `PAGE_READ`, `PAGE_WRITE` and `PAGE_EXEC`. -/
structure Prot where
  read : Bool
  write : Bool
  exec : Bool
deriving DecidableEq, Repr

/-- No access. -/
def Prot.none : Prot := ⟨false, false, false⟩

/-- `PAGE_READ` -/
def Prot.ro : Prot := ⟨true, false, false⟩

/-- `PAGE_READ | PAGE_WRITE` -/
def Prot.rw : Prot := ⟨true, true, false⟩

/-! ### Permissions -/

/-- `check_ap` -/
def checkAp (env : CPUARMState) (ap : BitVec 3) (domain : Word) (κ : AccessType) (isUser : Bool) :
    Prot :=
  if domain = 3 then .rw
  else
    let protRo : Prot := if κ = .write then .none else .ro
    if ap = 0 then
      if κ = .write then .none
      else if (env.cp15.c1Sys >>> 8) &&& 3 = 1 then if isUser then .none else .ro
      else if (env.cp15.c1Sys >>> 8) &&& 3 = 2 then .ro
      else .none
    else if ap = 1 then if isUser then .none else .rw
    else if ap = 2 then if isUser then protRo else .rw
    else if ap = 3 then .rw
    else if ap = 4 then .none
    else if ap = 5 then if isUser then .none else protRo
    else if ap = 6 then protRo
    -- 7
    else if armFeature env .v7 then protRo else .none

/-! ### Page tables -/

/-- `get_level1_table_address` -/
def getLevel1TableAddress (env : CPUARMState) (address : Word) : Word :=
  let table := if address &&& env.cp15.c2Mask ≠ 0 then env.cp15.c2Base1 &&& 0xffffc000
    else env.cp15.c2Base0 &&& env.cp15.c2BaseMask
  table ||| ((address >>> 18) &&& 0x3ffc)

/-- What a walk of the page tables finds: `frame` and `offset` make the physical address, `code` is
    that of a permission fault. -/
structure Walk where
  frame : Word
  offset : Word
  ap : BitVec 3
  xn : Bool
  domain : Word
  code : Word

/-- `phys_addr` -/
def Walk.physAddr (w : Walk) (address : Word) : Word := w.frame ||| (address &&& w.offset)

/-- The value at `do_fault`. -/
def faultStatus (code domain : Word) : Word := code ||| domain <<< 4

/-- `c3 >> n & 3` -/
def domainAccess (env : CPUARMState) (n : Word) : Word := (env.cp15.c3 >>> n) &&& 3

/-- The second level of `get_phys_addr_v5`, `type` being that of the first descriptor. -/
def v5Level2 (env : CPUARMState) (type desc address domain : Word) : Except Word Walk :=
  let ap (shift : Word) : BitVec 3 := ((desc >>> shift) &&& 3).setWidth 3
  let shift := 4 + ((address >>> 13) &&& 6)
  if desc &&& 3 = 0 then .error (faultStatus 7 domain)
  else if desc &&& 3 = 1 then
    -- 64k page
    .ok ⟨desc &&& 0xffff0000, 0xffff, ap shift, false, domain, 15⟩
  else if desc &&& 3 = 2 then
    -- 4k page
    .ok ⟨desc &&& 0xfffff000, 0xfff, ap shift, false, domain, 15⟩
  else if type = 1 then
    -- 1k page in a coarse table
    if armFeature env .xscale then .ok ⟨desc &&& 0xfffff000, 0xfff, ap 4, false, domain, 15⟩
    else .error (faultStatus 7 domain)
  else .ok ⟨desc &&& 0xfffffc00, 0x3ff, ap 4, false, domain, 15⟩

/-- The walk of `get_phys_addr_v5`. -/
def v5Walk (env : CPUARMState) (ldl : Word → Word) (address : Word) : Except Word Walk :=
  let desc := ldl (getLevel1TableAddress env address)
  let type := desc &&& 3
  let domain := domainAccess env ((desc >>> 4) &&& 0x1e)
  if type = 0 then .error (faultStatus 5 domain)
  else if domain = 0 ∨ domain = 2 then .error (faultStatus (if type = 2 then 9 else 11) domain)
  else if type = 2 then
    -- 1Mb section
    .ok ⟨desc &&& 0xfff00000, 0xfffff, ((desc >>> 10) &&& 3).setWidth 3, false, domain, 13⟩
  else
    let table := if type = 1 then (desc &&& 0xfffffc00) ||| ((address >>> 10) &&& 0x3fc)
      else (desc &&& 0xfffff000) ||| ((address >>> 8) &&& 0xffc)
    v5Level2 env type (ldl table) address domain

/-- The end of `get_phys_addr_v5` and `get_phys_addr_v6`. -/
def Walk.permission (w : Walk) (env : CPUARMState) (address : Word) (κ : AccessType)
    (isUser : Bool) : Except Word (Word × Prot) :=
  let prot := checkAp env w.ap w.domain κ isUser
  if prot = .none then .error (faultStatus w.code w.domain) else .ok (w.physAddr address, prot)

/-- `get_phys_addr_v5` -/
def getPhysAddrV5 (env : CPUARMState) (ldl : Word → Word) (address : Word) (κ : AccessType)
    (isUser : Bool) : Except Word (Word × Prot) :=
  (v5Walk env ldl address).bind fun w => w.permission env address κ isUser

/-- The second level of `get_phys_addr_v6`. -/
def v6Level2 (desc domain : Word) : Except Word Walk :=
  let ap : BitVec 3 := (((desc >>> 4) &&& 3) ||| ((desc >>> 7) &&& 4)).setWidth 3
  if desc &&& 3 = 0 then .error (faultStatus 7 domain)
  else if desc &&& 3 = 1 then
    -- 64k page
    .ok ⟨desc &&& 0xffff0000, 0xffff, ap, desc.getLsbD 15, domain, 15⟩
  else
    -- 4k page
    .ok ⟨desc &&& 0xfffff000, 0xfff, ap, desc.getLsbD 0, domain, 15⟩

/-- The walk of `get_phys_addr_v6`. -/
def v6Walk (env : CPUARMState) (ldl : Word → Word) (address : Word) : Except Word Walk :=
  let desc := ldl (getLevel1TableAddress env address)
  let type := desc &&& 3
  if type = 0 ∨ type = 3 then .error (faultStatus 5 0)
  else
    let supersection := type = 2 ∧ desc.getLsbD 18
    let domain := domainAccess env (if supersection then 0 else (desc >>> 4) &&& 0x1e)
    if domain = 0 ∨ domain = 2 then .error (faultStatus (if type = 2 then 9 else 11) domain)
    else if type = 2 then
      let ap : BitVec 3 := (((desc >>> 10) &&& 3) ||| ((desc >>> 13) &&& 4)).setWidth 3
      if desc.getLsbD 18 then .ok ⟨desc &&& 0xff000000, 0xffffff, ap, desc.getLsbD 4, domain, 13⟩
      else .ok ⟨desc &&& 0xfff00000, 0xfffff, ap, desc.getLsbD 4, domain, 13⟩
    else v6Level2 (ldl ((desc &&& 0xfffffc00) ||| ((address >>> 10) &&& 0x3fc))) domain

/-- What `get_phys_addr_v6` does after the walk. -/
def Walk.permissionV6 (w : Walk) (env : CPUARMState) (address : Word) (κ : AccessType)
    (isUser : Bool) : Except Word (Word × Prot) :=
  if w.xn ∧ κ = .fetch then .error (faultStatus w.code w.domain)
  -- the simplified model uses AP[0] as an access control bit
  else if env.cp15.c1Sys.getLsbD 29 ∧ w.ap.getLsbD 0 = false then
    .error (faultStatus (if w.code = 15 then 6 else 3) w.domain)
  else w.permission env address κ isUser

/-- `get_phys_addr_v6` -/
def getPhysAddrV6 (env : CPUARMState) (ldl : Word → Word) (address : Word) (κ : AccessType)
    (isUser : Bool) : Except Word (Word × Prot) :=
  (v6Walk env ldl address).bind fun w => w.permissionV6 env address κ isUser

/-! ### Protection regions -/

/-- The region is enabled and the address is in it. -/
def mpuMatch (base address : Word) : Bool :=
  let mask := (((1 : Word) <<< ((base >>> 1) &&& 0x1f)) <<< 1) - 1
  base.getLsbD 0 && (base ^^^ address) &&& ~~~mask == 0

/-- The region of an address: the last one that matches. -/
def mpuRegion (env : CPUARMState) (address : Word) : Option (Fin 8) :=
  [7, 6, 5, 4, 3, 2, 1, 0].find? fun n => mpuMatch (env.cp15.c6Region n) address

/-- The access permissions of a region in `c5_insn` or `c5_data`; `none` for a fault. -/
def mpuProt (perms : Word) (n : Fin 8) (isUser : Bool) : Option Prot :=
  let mask := (perms >>> (4 * n.val)) &&& 0xf
  if mask = 1 then if isUser then none else some .rw
  else if mask = 2 then some (if isUser then .ro else .rw)
  else if mask = 3 then some .rw
  else if mask = 5 then if isUser then none else some .ro
  else if mask = 6 then some .ro
  else none

/-- The permissions `get_phys_addr_mpu` looks at. -/
def mpuPerms (env : CPUARMState) (κ : AccessType) : Word :=
  if κ = .fetch then env.cp15.c5Insn else env.cp15.c5Data

/-- `get_phys_addr_mpu` -/
def getPhysAddrMpu (env : CPUARMState) (address : Word) (κ : AccessType) (isUser : Bool) :
    Except Word (Word × Prot) :=
  match mpuRegion env address with
  | none => .error 2
  | some n =>
    match mpuProt (mpuPerms env κ) n isUser with
    | none => .error 1
    | some prot => .ok (address, prot)

/-! ### Translation -/

/-- The address after the Fast Context Switch Extension. -/
def fcseAddress (env : CPUARMState) (address : Word) : Word :=
  if address < 0x02000000 then address + env.cp15.c13Fcse else address

/-- `get_phys_addr`; the value for a fault is an error. -/
def getPhysAddr (env : CPUARMState) (ldl : Word → Word) (address : Word) (κ : AccessType)
    (isUser : Bool) : Except Word (Word × Prot) :=
  let address := fcseAddress env address
  if env.cp15.c1Sys.getLsbD 0 = false then .ok (address, .rw)
  else if armFeature env .mpu then getPhysAddrMpu env address κ isUser
  else if env.cp15.c1Sys.getLsbD 23 then getPhysAddrV6 env ldl address κ isUser
  else getPhysAddrV5 env ldl address κ isUser

/-! ### The TLB -/

/-- `& ~0x3ff` -/
def tlbPage (address : Word) : Word := address &&& 0xfffffc00

/-- `(addr >> TARGET_PAGE_BITS) & (CPU_TLB_SIZE - 1)` -/
def tlbIndex (address : Word) : BitVec 8 := (address >>> 10).setWidth 8

/-- `CPUTLBEntry`: the virtual page for each kind of access, `none` for -1, and the physical page
    that `addend` or `iotlb` stand for. -/
structure TlbEntry where
  addrRead : Option Word
  addrWrite : Option Word
  addrCode : Option Word
  paddr : Word
deriving DecidableEq

/-- `s_cputlb_empty_entry` -/
def TlbEntry.empty : TlbEntry := ⟨none, none, none, 0⟩

/-- The address that an access is compared with: `addr_read`, `addr_write` or `addr_code`. -/
def TlbEntry.addr (te : TlbEntry) : AccessType → Option Word
  | .read => te.addrRead
  | .write => te.addrWrite
  | .fetch => te.addrCode

/-- The entry that `tlb_set_page_exec` makes.  The flags for I/O and dirty pages, which no test for
    a hit looks at, are left out. -/
def tlbSetPageExec (vaddr paddr : Word) (prot : Prot) : TlbEntry where
  addrRead := if prot.read then some vaddr else none
  addrWrite := if prot.write then some vaddr else none
  addrCode := if prot.exec then some vaddr else none
  paddr := paddr

/-- `tlb_set_page`: what can be read can be executed. -/
def tlbSetPage (vaddr paddr : Word) (prot : Prot) : TlbEntry :=
  tlbSetPageExec vaddr paddr { prot with exec := prot.exec || prot.read }

/-- `tlb_table`, by `mmu_idx` (whether it is that of user mode) and index. -/
abbrev Tlb := Bool → BitVec 8 → TlbEntry

/-- The physical page that an access hits. -/
def Tlb.hit (tlb : Tlb) (κ : AccessType) (isUser : Bool) (address : Word) : Option Word :=
  let te := tlb isUser (tlbIndex address)
  if te.addr κ = some (tlbPage address) then some te.paddr else none

/-- The TLB with the entry for `address`. -/
def Tlb.set (tlb : Tlb) (isUser : Bool) (address : Word) (te : TlbEntry) : Tlb :=
  Function.update tlb isUser (Function.update (tlb isUser) (tlbIndex address) te)

/-- `tlb_flush` -/
def tlbFlush : Tlb := fun _ _ => .empty

/-- The fault registers after a translation that failed with `ret`. -/
def mmuFault (env : CPUARMState) (address ret : Word) (κ : AccessType) : CPUARMState :=
  match κ with
  | .fetch => { env with cp15 := { env.cp15 with c5Insn := ret, c6Insn := address } }
  | _ =>
    let ret := if κ = .write ∧ armFeature env .v6 then ret ||| 1 <<< 11 else ret
    { env with cp15 := { env.cp15 with c5Data := ret, c6Data := address } }

/-- `cpu_arm_handle_mmu_fault`; the exception itself is left out. -/
def cpuArmHandleMmuFault (env : CPUARMState) (ldl : Word → Word) (tlb : Tlb) (address : Word)
    (κ : AccessType) (isUser : Bool) : CPUARMState × Tlb :=
  match getPhysAddr env ldl address κ isUser with
  | .ok (physAddr, prot) =>
    (env, tlb.set isUser address (tlbSetPage (tlbPage address) (tlbPage physAddr) prot))
  | .error ret => (mmuFault env address ret κ, tlb)

/-! ### `set_cp15` -/

/-- `extended_mpu_ap_bits` -/
def extendedMpuApBits (val : Word) : Word :=
  (List.range 8).foldl (fun ret n => ret ||| (val &&& (3 <<< (2 * n))) <<< (2 * n)) 0

/-- `c2_mask` for a value of `c2_control`. -/
def c2MaskOf (val : Word) : Word := ~~~((0xffffffff : Word) >>> val)

/-- A write that leaves the TLB. -/
def setReg (env : CPUARMState) (c : Cp15) : Aborts (CPUARMState × Bool) :=
  some ({ env with cp15 := c }, false)

/-- A write with a flush of the TLB. -/
def setRegFlush (env : CPUARMState) (c : Cp15) : Aborts (CPUARMState × Bool) :=
  some ({ env with cp15 := c }, true)

/-- Case 0, ID codes. -/
def setCp15C0 (env : CPUARMState) (op1 crm op2 val : Word) : Aborts (CPUARMState × Bool) :=
  let c := env.cp15
  if armFeature env .xscale ∨ armFeature env .omapcp then setReg env c
  else if armFeature env .v7 ∧ op1 = 2 ∧ crm = 0 ∧ op2 = 0 then
    setReg env { c with c0Cssel := val &&& 0xf }
  else none

/-- Case 1, system configuration. -/
def setCp15C1 (env : CPUARMState) (crm op2 val : Word) : Aborts (CPUARMState × Bool) :=
  let c := env.cp15
  if crm = 0 then
    let op2 := if armFeature env .omapcp then 0 else op2
    if op2 = 0 then
      setRegFlush env (if armFeature env .xscale then c else { c with c1Sys := val })
    else if op2 = 1 then
      setReg env (if armFeature env .xscale then { c with c1Xscaleauxcr := val } else c)
    else if op2 = 2 then
      if armFeature env .xscale then none else setReg env { c with c1Coproc := val }
    else none
  else if crm = 1 then
    if armFeature env .trustzone = false ∨ env.uncachedCpsr &&& cpsrM = Mode.usr.bits then none
    else if c.c1Secfg.getLsbD 0 then none
    else if op2 = 0 then setReg env { c with c1Secfg := val }
    else if op2 = 1 then setReg env { c with c1Sedbg := val }
    else if op2 = 2 then setReg env { c with c1Nseac := val }
    else none
  else none

/-- Case 2, page table control or MPU cache control. -/
def setCp15C2 (env : CPUARMState) (op2 val : Word) : Aborts (CPUARMState × Bool) :=
  let c := env.cp15
  if armFeature env .mpu then
    if op2 = 0 then setReg env { c with c2Data := val }
    else if op2 = 1 then setReg env { c with c2Insn := val }
    else none
  else if op2 = 0 then setReg env { c with c2Base0 := val }
  else if op2 = 1 then setReg env { c with c2Base1 := val }
  else if op2 = 2 then
    let val := val &&& 7
    setReg env { c with
      c2Control := val, c2Mask := c2MaskOf val, c2BaseMask := ~~~((0x3fff : Word) >>> val) }
  else none

/-- Case 3, MMU domain access control or MPU write buffer control. -/
def setCp15C3 (env : CPUARMState) (val : Word) : Aborts (CPUARMState × Bool) :=
  setRegFlush env { env.cp15 with c3 := val }

/-- Case 5, fault status or MPU access permission. -/
def setCp15C5 (env : CPUARMState) (op2 val : Word) : Aborts (CPUARMState × Bool) :=
  let c := env.cp15
  let op2 := if armFeature env .omapcp then 0 else op2
  let ext := if armFeature env .mpu then extendedMpuApBits val else val
  if op2 = 0 then setReg env { c with c5Data := ext }
  else if op2 = 1 then setReg env { c with c5Insn := ext }
  else if armFeature env .mpu = false then none
  else if op2 = 2 then setReg env { c with c5Data := val }
  else if op2 = 3 then setReg env { c with c5Insn := val }
  else none

/-- Case 6, fault address or MPU region. -/
def setCp15C6 (env : CPUARMState) (crm op2 val : Word) : Aborts (CPUARMState × Bool) :=
  let c := env.cp15
  if armFeature env .mpu then
    if h : crm.toNat < 8 then
      setReg env { c with c6Region := Function.update c.c6Region ⟨crm.toNat, h⟩ val }
    else none
  else
    let op2 := if armFeature env .omapcp then 0 else op2
    if op2 = 0 then setReg env { c with c6Data := val }
    else if op2 = 1 ∨ op2 = 2 then setReg env { c with c6Insn := val }
    else none

/-- Case 7, cache control. -/
def setCp15C7 (env : CPUARMState) : Aborts (CPUARMState × Bool) :=
  setReg env { env.cp15 with c15IMax := 0, c15IMin := 0xff0 }

/-- Case 8, TLB control: each operation flushes all of it. -/
def setCp15C8 (env : CPUARMState) (op2 : Word) : Aborts (CPUARMState × Bool) :=
  if op2 = 0 ∨ op2 = 1 ∨ op2 = 2 ∨ op2 = 3 then setRegFlush env env.cp15 else none

/-- Case 9, cache lockdown and performance counters. -/
def setCp15C9 (env : CPUARMState) (op1 crm op2 val : Word) : Aborts (CPUARMState × Bool) :=
  let c := env.cp15
  if armFeature env .omapcp then setReg env c
  else if crm = 0 then
    if op1 = 0 then
      if op2 = 0 then setReg env { c with c9Data := val }
      else if op2 = 1 then setReg env { c with c9Insn := val }
      else none
    else if op1 = 1 then setReg env c
    else none
  else if crm = 12 then setReg env c
  else none

/-- Case 13, process ID. -/
def setCp15C13 (env : CPUARMState) (op2 val : Word) : Aborts (CPUARMState × Bool) :=
  let c := env.cp15
  if op2 = 0 then
    some ({ env with cp15 := { c with c13Fcse := val } }, decide (c.c13Fcse ≠ val))
  else if op2 = 1 then
    some ({ env with cp15 := { c with c13Context := val } },
      decide (c.c13Context ≠ val) && !armFeature env .mpu)
  else if op2 = 2 then setReg env { c with c13Tls1 := val }
  else if op2 = 3 then setReg env { c with c13Tls2 := val }
  else if op2 = 4 then setReg env { c with c13Tls3 := val }
  else none

/-- `CPU_INTERRUPT_HALT` -/
abbrev cpuInterruptHalt : Word := 0x20

/-- The identification that `TICONFIG` selects: that of an OMAP 1510 or of a 925T. -/
def ticonfigCpuid (val : Word) : Word := if val.getLsbD 5 then 0x54029152 else 0x54029252

/-- Case 15, implementation specific. -/
def setCp15C15 (env : CPUARMState) (crm op2 val : Word) : Aborts (CPUARMState × Bool) :=
  let c := env.cp15
  if armFeature env .xscale then
    if op2 = 0 ∧ crm = 1 then setReg env { c with c15Cpar := val &&& 0x3fff } else none
  else if armFeature env .omapcp then
    if crm = 0 then setReg env c
    else if crm = 1 then
      setReg env { c with c15Ticonfig := val &&& 0xe7, c0Cpuid := ticonfigCpuid val }
    else if crm = 2 then setReg env { c with c15IMax := val }
    else if crm = 3 then setReg env { c with c15IMin := val }
    else if crm = 4 then setReg env { c with c15Threadid := val &&& 0xffff }
    else if crm = 8 then
      setReg { env with interruptRequest := env.interruptRequest ||| cpuInterruptHalt } c
    else none
  else setReg env c

/-- The register number in the instruction. -/
def cp15Crn (insn : Word) : Nat := ((insn >>> 16) &&& 0xf).toNat

/-- `set_cp15`: the CPU, and whether the TLB is flushed.  `none` is the abort at `bad_reg`; flushes
    of the translated code are left out. -/
def setCp15 (env : CPUARMState) (insn val : Word) : Aborts (CPUARMState × Bool) :=
  let op1 := (insn >>> 21) &&& 7
  let op2 := (insn >>> 5) &&& 7
  let crm := insn &&& 0xf
  match cp15Crn insn with
  | 0 => setCp15C0 env op1 crm op2 val
  | 1 => setCp15C1 env crm op2 val
  | 2 => setCp15C2 env op2 val
  | 3 => setCp15C3 env val
  | 4 => none
  | 5 => setCp15C5 env op2 val
  | 6 => setCp15C6 env crm op2 val
  | 7 => setCp15C7 env
  | 8 => setCp15C8 env op2
  | 9 => setCp15C9 env op1 crm op2 val
  | 12 => none
  | 13 => setCp15C13 env op2 val
  | 14 => none
  | 15 => setCp15C15 env crm op2 val
  | _ => setReg env env.cp15

/-! ### Runs -/

/-- The CPU, the memory that holds the page tables as `ldl_phys` reads it, and the TLB.  `stale`
    tells whether the page tables or the registers of the table base have been written since the
    last flush. -/
structure MmuState where
  env : CPUARMState
  tables : Word → Word
  tlb : Tlb
  stale : Bool

/-- A program accesses memory or writes to the system coprocessor, or the page tables in memory are
    replaced. -/
inductive MmuAction
  | access (κ : AccessType) (isUser : Bool) (address : Word)
  | setCp15 (insn val : Word)
  | storeTables (tables : Word → Word)

/-- The registers of the table base are the same. -/
def sameC2 (c c' : Cp15) : Bool :=
  c.c2Base0 == c'.c2Base0 && c.c2Base1 == c'.c2Base1 && c.c2Mask == c'.c2Mask &&
    c.c2BaseMask == c'.c2BaseMask

/-- An access that hits changes nothing; one that misses fills the TLB or raises an exception. -/
def MmuAction.exec (s : MmuState) : MmuAction → Aborts MmuState
  | .access κ isUser address =>
    if (s.tlb.hit κ isUser address).isSome then some s
    else
      let r := cpuArmHandleMmuFault s.env s.tables s.tlb address κ isUser
      some { s with env := r.1, tlb := r.2 }
  | .setCp15 insn val => (Arm.setCp15 s.env insn val).map fun r =>
    { s with
      env := r.1
      tlb := if r.2 then tlbFlush else s.tlb
      stale := !r.2 && (s.stale || !sameC2 s.env.cp15 r.1.cp15) }
  | .storeTables tables => some { s with tables := tables, stale := true }

end Qemu.Arm
