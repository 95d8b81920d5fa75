import Mathlib.Data.Fintype.Basic
import Mathlib.Data.Fintype.Sigma
import Mathlib.Tactic.DeriveFintype
import Qemu.Exec.Store
import Qemu.Lib.Runs

open Qemu.Lib

namespace Qemu.Exec

/-!
# The physical memory map (`exec.c`)

`cpu_register_physical_memory_offset` and what a physical address is dispatched to.

* `PhysMem` — the two-level table of pages and the table of I/O handlers;
* `subpageRegister`, `subpageInit` — pages that are shared by several regions;
* `registerPage`, `registerPages`, `cpuRegisterPhysicalMemoryOffset` — a registration;
* `PhysMem.lookup` — the handler or the RAM address that an access gets.

A handler is the index of its device in the I/O table.  A fault is the use of an entry beyond that
table or the want of a free one; a call through a null pointer has no target.
-/

/-! ### The I/O table -/

/-- A read or write of `2 ^ width` bytes. -/
structure Access where
  write : Bool
  width : Fin 3
deriving DecidableEq, Fintype

/-- What the handlers of `subpage_t` do at each byte of the page: the device whose handler is
    called, and the `region_offset` added to the address. -/
structure Subpage where
  route : ℕ → Access → Option (ℕ × ℕ)

/-- An entry of `io_mem_read`, `io_mem_write`, `io_mem_opaque` and `io_mem_used`.  A device has the
    handlers it gave to `cpu_register_io_memory`; the fourth column of the table is never filled. -/
inductive IoEntry
  | free
  | device (handles : Access → Bool)
  | subpage (mmio : Subpage)

/-- The handler is not null. -/
def IoEntry.handles : IoEntry → Access → Bool
  | .free, _ => false
  | .device handles, κ => handles κ
  | .subpage _, _ => true

/-- No device has registered the entry. -/
def IoEntry.isFree : IoEntry → Bool
  | .free => true
  | _ => false

/-- The table after `io_mem_init` and the calls of `cpu_register_io_memory` for `dev`. -/
def ioMemInit (dev : ℕ → Option (Access → Bool)) : ℕ → IoEntry
  | 0 => .device fun _ => false
  | 1 => .device fun κ => κ.write
  | 2 => .device fun _ => true
  | 3 => .device fun κ => κ.write
  | 4 => .device fun _ => false
  | i => (dev i).elim .free .device

/-- `get_free_io_mem_idx`; `none` for its -1. -/
def getFreeIoMemIdx (ioMem : ℕ → IoEntry) : Option ℕ :=
  (List.range ioMemNbEntries).find? fun i => (ioMem i).isFree

/-- What `cpu_register_io_memory` returned for an entry: its index, with `IO_MEM_SUBWIDTH` if a
    handler is missing. -/
def ioMemoryAddress (ioMem : ℕ → IoEntry) (idx : ℕ) : ℕ :=
  idx * 2 ^ ioMemShift + if ∀ κ, (ioMem idx).handles κ then 0 else 4

/-! ### Pages -/

/-- `IO_MEM_ROM`. -/
abbrev ioMemRom : ℕ := 1 * 8

/-- The flags `IO_MEM_ROMD`, `IO_MEM_SUBPAGE` and `IO_MEM_SUBWIDTH`. -/
def isRomd (pd : ℕ) : Bool := pd.testBit 0

/-- `IO_MEM_SUBPAGE` -/
def isSubpage (pd : ℕ) : Bool := pd.testBit 1

/-- `IO_MEM_SUBWIDTH` -/
def isSubwidth (pd : ℕ) : Bool := pd.testBit 2

/-- `(pd & ~TARGET_PAGE_MASK) <= IO_MEM_ROM || (pd & IO_MEM_ROMD)`. -/
def memoryLike (pd : ℕ) : Bool := pd % targetPageSize ≤ ioMemRom || isRomd pd

/-- The tables of physical pages and of devices. -/
structure PhysMem where
  l1PhysMap : ℕ → Option (ℕ → PhysPageDesc)
  ioMem : ℕ → IoEntry

/-- The map before any registration. -/
def PhysMem.init (dev : ℕ → Option (Access → Bool)) : PhysMem := ⟨fun _ => none, ioMemInit dev⟩

/-- `phys_page_find`. -/
def PhysMem.pageFind (s : PhysMem) (index : ℕ) : Option PhysPageDesc :=
  (s.l1PhysMap (index / l2Size)).map fun pd => pd (index % l2Size)

/-- The table that `phys_page_find_alloc` makes for `index`. -/
def freshTable (index i : ℕ) : PhysPageDesc :=
  ⟨ioMemUnassigned, (index + i) * targetPageSize % 2 ^ 32⟩

/-- `*phys_page_find_alloc(index, 1) = p`. -/
def PhysMem.setPage (s : PhysMem) (index : ℕ) (p : PhysPageDesc) : PhysMem :=
  let pd := (s.l1PhysMap (index / l2Size)).getD (freshTable index)
  { s with
    l1PhysMap := Function.update s.l1PhysMap (index / l2Size)
      (some (Function.update pd (index % l2Size) p)) }

/-! ### Subpages -/

/-- `subpage_register`. -/
def subpageRegister (ioMem : ℕ → IoEntry) (mmio : Subpage)
    (start endAddr memory regionOffset : ℕ) : Option Subpage :=
  if targetPageSize ≤ start ∨ targetPageSize ≤ endAddr then some mmio
  else
    let memory := memory / 2 ^ ioMemShift
    if start ≤ endAddr ∧ ioMemNbEntries ≤ memory then none
    else some ⟨fun idx κ =>
      if (start ≤ idx ∧ idx ≤ endAddr) ∧ (ioMem memory).handles κ then some (memory, regionOffset)
      else mmio.route idx κ⟩

/-- `subpage_init`: the value for `*phys`, and the table with the new entry. -/
def subpageInit (ioMem : ℕ → IoEntry) (origMemory regionOffset : ℕ) :
    Option (ℕ × (ℕ → IoEntry)) :=
  (getFreeIoMemIdx ioMem).bind fun idx =>
    let mmio : Subpage := ⟨fun _ _ => none⟩
    let ioMem := Function.update ioMem idx (.subpage mmio)
    (subpageRegister ioMem mmio 0 (targetPageSize - 1) origMemory regionOffset).map fun mmio =>
      (idx * 2 ^ ioMemShift + 2, Function.update ioMem idx (.subpage mmio))

/-- `subpage_register` on the subpage of a page. -/
def subpageRegisterAt (ioMem : ℕ → IoEntry) (pd start endAddr memory regionOffset : ℕ) :
    Option (ℕ → IoEntry) :=
  match ioMem (ioIndex pd) with
  | .subpage mmio =>
    (subpageRegister ioMem mmio start endAddr memory regionOffset).map fun mmio =>
      Function.update ioMem (ioIndex pd) (.subpage mmio)
  | _ => none

/-- The subpage of a page that is assigned, a new one if it has none. -/
def pageSubpage (ioMem : ℕ → IoEntry) (p : PhysPageDesc) : Option (ℕ × (ℕ → IoEntry)) :=
  if isSubpage p.physOffset then some (p.physOffset, ioMem)
  else subpageInit ioMem p.physOffset p.regionOffset

/-! ### Registration -/

/-- `CHECK_SUBPAGE`: the first and the last byte of the page that are registered, and whether that
    is less than the page. -/
def checkSubpage (addr startAddr origSize : ℕ) : ℕ × ℕ × Bool :=
  let startAddr2 := if startAddr < addr then 0 else startAddr % targetPageSize
  let endAddr2 := if targetPageSize ≤ startAddr + origSize - addr then targetPageSize - 1
    else (startAddr + origSize - 1) % targetPageSize
  (startAddr2, endAddr2, decide (0 < startAddr2) || decide (endAddr2 < targetPageSize - 1))

/-- The body of the loop of `cpu_register_physical_memory_offset`. -/
def registerPage (startAddr origSize addr physOffset regionOffset : ℕ) (s : PhysMem) :
    Option PhysMem :=
  let index := addr / targetPageSize
  let (startAddr2, endAddr2, needSubpage) := checkSubpage addr startAddr origSize
  match (s.pageFind index).filter (·.physOffset ≠ ioMemUnassigned) with
  | some p =>
    if needSubpage || isSubwidth physOffset then
      (pageSubpage s.ioMem p).bind fun (pd, ioMem) =>
        (subpageRegisterAt ioMem pd startAddr2 endAddr2 physOffset regionOffset).map fun ioMem =>
          (PhysMem.mk s.l1PhysMap ioMem).setPage index ⟨pd, 0⟩
    else some (s.setPage index { p with physOffset := physOffset })
  | none =>
    if memoryLike physOffset || !(needSubpage || isSubwidth physOffset) then
      some (s.setPage index ⟨physOffset, regionOffset⟩)
    else
      (subpageInit s.ioMem ioMemUnassigned (pageMask addr)).bind fun (pd, ioMem) =>
        (subpageRegisterAt ioMem pd startAddr2 endAddr2 physOffset regionOffset).map fun ioMem =>
          (PhysMem.mk s.l1PhysMap ioMem).setPage index ⟨pd, 0⟩

/-- `phys_offset` behind a page.  It goes on with memory, but not where a page that was assigned
    becomes shared. -/
def nextPhysOffset (startAddr origSize addr physOffset : ℕ) (s : PhysMem) : ℕ :=
  let assigned := (s.pageFind (addr / targetPageSize)).any (·.physOffset ≠ ioMemUnassigned)
  let needSubpage := (checkSubpage addr startAddr origSize).2.2
  if memoryLike physOffset && !(assigned && (needSubpage || isSubwidth physOffset)) then
    physOffset + targetPageSize
  else physOffset

/-- The loop of `cpu_register_physical_memory_offset`, `n` pages before its end. -/
def registerPages (startAddr origSize : ℕ) :
    (n addr physOffset regionOffset : ℕ) → PhysMem → Option PhysMem
  | 0, _, _, _, s => some s
  | n + 1, addr, physOffset, regionOffset, s =>
    (registerPage startAddr origSize addr physOffset regionOffset s).bind
      (registerPages startAddr origSize n ((addr + targetPageSize) % 2 ^ 32)
        (nextPhysOffset startAddr origSize addr physOffset s) (regionOffset + targetPageSize))

/-- The number of turns of the loop: the address is a 32-bit number. -/
def registerTurns (size : ℕ) : ℕ := pageMask (size + targetPageSize - 1) % 2 ^ 32 / targetPageSize

/-- The region offset the loop starts with. -/
def firstRegionOffset (startAddr physOffset regionOffset : ℕ) : ℕ :=
  pageMask (if physOffset = ioMemUnassigned then startAddr else regionOffset)

/-- `cpu_register_physical_memory_offset`; the flush of the TLBs is left out. -/
def cpuRegisterPhysicalMemoryOffset (startAddr size physOffset regionOffset : ℕ) (s : PhysMem) :
    Option PhysMem :=
  registerPages startAddr size (registerTurns size) startAddr physOffset
    (firstRegionOffset startAddr physOffset regionOffset) s

/-! ### Lookup -/

/-- What an access is dispatched to: RAM, or a device with the address its handler gets. -/
inductive Target
  | ram (addr : ℕ)
  | io (index offset : ℕ)
deriving DecidableEq, Repr

/-- A call of a handler of the I/O table; `none` is a call through a null pointer. -/
def deviceCall (ioMem : ℕ → IoEntry) (κ : Access) (m addr : ℕ) : Option Target :=
  if (ioMem m).handles κ then some (.io m (addr % 2 ^ 32)) else none

/-- The handlers of I/O index `idx`; those of a subpage are `subpage_readlen` and
    `subpage_writelen`. -/
def ioCall (ioMem : ℕ → IoEntry) (κ : Access) (idx addr : ℕ) : Option Target :=
  match ioMem idx with
  | .subpage mmio =>
    (mmio.route (addr % targetPageSize) κ).bind fun r => deviceCall ioMem κ r.1 (addr + r.2)
  | _ => deviceCall ioMem κ idx addr

/-- The access is to RAM, in `cpu_physical_memory_rw`: a write to RAM, or a read of RAM, ROM or a
    ROM device. -/
def ramAccess (κ : Access) (pd : ℕ) : Bool :=
  if κ.write then pd % targetPageSize == ioMemRam else memoryLike pd

/-- What `cpu_physical_memory_rw` does with an access at a physical address.  The width is a
    parameter; there it follows from the length and from the address the handler gets. -/
def PhysMem.lookup (s : PhysMem) (addr : ℕ) (κ : Access) : Option Target :=
  let p := s.pageFind (addr / targetPageSize)
  let pd := match p with
    | none => ioMemUnassigned
    | some p => p.physOffset
  if ramAccess κ pd then some (.ram (pageMask pd + addr % targetPageSize))
  else
    let addr1 := match p with
      | none => addr
      | some p => (addr % targetPageSize + p.regionOffset) % 2 ^ 32
    ioCall s.ioMem κ (ioIndex pd) addr1

end Qemu.Exec
