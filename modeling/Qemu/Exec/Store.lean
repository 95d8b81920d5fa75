import Qemu.Exec.TbRun

namespace Qemu.Exec

/-!
# Stores to guest memory (`exec.c`, `softmmu_template.h`)

Every way the emulator writes guest RAM that has to look for translated code:

* `notdirtyMemWrite` — the `notdirty_mem_write` handlers, and `guestStore` for the stores that
  reach them;
* `rwWrite` — `cpu_physical_memory_rw` with `is_write`;
* `physMemoryMap`, `physMemoryUnmap` — `cpu_physical_memory_map` and `cpu_physical_memory_unmap`,
  with the bounce buffer.

`MemState` adds the host memory, the RAM blocks, the physical page table and the devices to the
state of `exec.c`.  Device handlers are a parameter and act on the devices only; a device that
writes memory does so by calls of its own.
-/

/-! ### Code and dirty flags -/

/-- `cpu_physical_memory_is_dirty`. -/
def isDirty (s : ExecState) (addr : ℕ) : Bool := s.physRamDirty (addr / targetPageSize) == 0xff#8

/-- `phys_ram_dirty[addr >> TARGET_PAGE_BITS] |= (0xff & ~CODE_DIRTY_FLAG)`. -/
def setDirtyFlags (s : ExecState) (addr : ℕ) : ExecState :=
  { s with
    physRamDirty := Function.update s.physRamDirty (addr / targetPageSize)
      (s.physRamDirty (addr / targetPageSize) ||| (0xff#8 &&& ~~~codeDirtyFlag)) }

/-- What `cpu_physical_memory_rw`, `cpu_physical_memory_unmap` and `stl_phys` do after storing
    `l` bytes at `addr1`. -/
def invalidateAndSetDirty (s : ExecState) (addr1 l : ℕ) : Option ExecState :=
  if isDirty s addr1 then some s
  else
    -- invalidate code, then set dirty bit
    (tbInvalidatePhysPageRange s addr1 (addr1 + l) false).map (fun s => setDirtyFlags s addr1)

/-- `tb_invalidate_phys_page_fast`; `len` is at most 8 and `start` a multiple of it. -/
def tbInvalidatePhysPageFast (s : ExecState) (start len : ℕ) : Option ExecState :=
  match pageFind s (start / targetPageSize) with
  | none => some s
  | some p =>
    match p.codeBitmap with
    | some bm =>
      let offset := start % targetPageSize
      let b := bm (offset / 8) >>> (offset % 8)
      if b &&& BitVec.ofNat 8 (2 ^ len - 1) ≠ 0#8 then
        tbInvalidatePhysPageRange s start (start + len) true
      else some s
    | none => tbInvalidatePhysPageRange s start (start + len) true

/-- The handlers `notdirty_mem_writeb`, `notdirty_mem_writew` and `notdirty_mem_writel`, for a
    store of `len` bytes, as far as the block cache goes. -/
def notdirtyMemWrite (s : ExecState) (ramAddr len : ℕ) : Option ExecState := do
  let s ← if s.physRamDirty (ramAddr / targetPageSize) &&& codeDirtyFlag = 0#8 then
      tbInvalidatePhysPageFast s ramAddr len
    else some s
  some (setDirtyFlags s ramAddr)

/-- `notdirty_mem_writeb` -/
def notdirtyMemWriteb (s : ExecState) (ramAddr : ℕ) : Option ExecState :=
  notdirtyMemWrite s ramAddr 1

/-- `notdirty_mem_writew` -/
def notdirtyMemWritew (s : ExecState) (ramAddr : ℕ) : Option ExecState :=
  notdirtyMemWrite s ramAddr 2

/-- `notdirty_mem_writel` -/
def notdirtyMemWritel (s : ExecState) (ramAddr : ℕ) : Option ExecState :=
  notdirtyMemWrite s ramAddr 4

/-! ### Guest stores -/

/-- The RAM address behind a virtual address, `tlb` giving the RAM page of a virtual page. -/
def tlbRam (tlb : ℕ → ℕ) (addr : BitVec 32) : ℕ :=
  tlb (addr.toNat / targetPageSize) * targetPageSize + addr.toNat % targetPageSize

/-- The bytes `i - 1 .. 0` of an unaligned store, the last one first, as `slow_st` does them.  A
    page that a byte has made all dirty is written directly for the rest, which is what the
    handler amounts to there. -/
def slowStLoop (tlb : ℕ → ℕ) (addr : BitVec 32) : ℕ → ExecState → Option ExecState
  | 0, s => some s
  | i + 1, s => do
    let s ← notdirtyMemWriteb s (tlbRam tlb (addr + BitVec.ofNat 32 i))
    slowStLoop tlb addr i s

/-- A store of `2 ^ shift` bytes to pages of RAM whose TLB entries are `TLB_NOTDIRTY`: one handler
    call if it is aligned, two for eight bytes, and one for each byte otherwise. -/
def guestStore (tlb : ℕ → ℕ) (s : ExecState) (addr : BitVec 32) (shift : Fin 4) :
    Option ExecState :=
  if addr.toNat % 2 ^ shift.val ≠ 0 then slowStLoop tlb addr (2 ^ shift.val) s
  else
    match shift with
    | 0 => notdirtyMemWriteb s (tlbRam tlb addr)
    | 1 => notdirtyMemWritew s (tlbRam tlb addr)
    | 2 => notdirtyMemWritel s (tlbRam tlb addr)
    | 3 => do
      let s ← notdirtyMemWritel s (tlbRam tlb addr)
      notdirtyMemWritel s (tlbRam tlb addr + 4)

/-! ### Memory -/

/-- `IO_MEM_RAM`, `IO_MEM_UNASSIGNED`, `IO_MEM_SHIFT` and `IO_MEM_NB_ENTRIES`. -/
abbrev ioMemRam : ℕ := 0

/-- `IO_MEM_UNASSIGNED` -/
abbrev ioMemUnassigned : ℕ := 2 * 8

/-- `IO_MEM_SHIFT` -/
abbrev ioMemShift : ℕ := 3

/-- `IO_MEM_NB_ENTRIES` -/
abbrev ioMemNbEntries : ℕ := 128

/-- `PhysPageDesc`: a RAM address, or an I/O index in the low bits. -/
structure PhysPageDesc where
  physOffset : ℕ
  regionOffset : ℕ

/-- `RAMBlock`. -/
structure RamBlock where
  host : ℕ
  offset : ℕ
  length : ℕ
deriving DecidableEq

/-- `BounceBuffer`. -/
structure BounceBuffer where
  buffer : ℕ
  addr : BitVec 32
  len : ℕ

/-- The handlers registered in `io_mem_read` and `io_mem_write`, on the state `D` of the devices:
    I/O index, width index, address, and for a write the bytes of the value. -/
structure IoMem (D : Type) where
  write : ℕ → ℕ → ℕ → List (BitVec 8) → D → D
  read : ℕ → ℕ → ℕ → D → List (BitVec 8) × D

/-- The state of `exec.c` together with what its memory functions touch. -/
structure MemState (D : Type) where
  exec : ExecState
  hostMem : ℕ → BitVec 8
  ramBlocks : List RamBlock
  physMap : ℕ → Option PhysPageDesc
  bounce : Option BounceBuffer
  dev : D

variable {D : Type}

/-- The block of a RAM address. -/
def RamBlock.hasOffset (b : RamBlock) (addr : ℕ) : Bool :=
  b.offset ≤ addr && addr < b.offset + b.length

/-- The block of a host address. -/
def RamBlock.hasHost (b : RamBlock) (ptr : ℕ) : Bool := b.host ≤ ptr && ptr < b.host + b.length

/-- `qemu_get_ram_ptr`; `none` is its `abort`.  That the block found moves up in the list is left
    out: blocks are disjoint, so no search can tell. -/
def getRamPtr (m : MemState D) (addr : ℕ) : Option ℕ :=
  (m.ramBlocks.find? (fun b => b.hasOffset addr)).map (fun b => b.host + (addr - b.offset))

/-- `qemu_ram_addr_from_host`; `none` is its `abort`. -/
def ramAddrFromHost (m : MemState D) (ptr : ℕ) : Option ℕ :=
  (m.ramBlocks.find? (fun b => b.hasHost ptr)).map (fun b => b.offset + (ptr - b.host))

/-- `memcpy` into host memory. -/
def hostWrite (m : MemState D) (ptr : ℕ) (bytes : List (BitVec 8)) : MemState D :=
  { m with hostMem := fun a =>
      if ptr ≤ a ∧ a < ptr + bytes.length then bytes.getD (a - ptr) 0 else m.hostMem a }

/-- `memcpy` out of host memory. -/
def hostRead (m : MemState D) (ptr l : ℕ) : List (BitVec 8) :=
  (List.range l).map (fun i => m.hostMem (ptr + i))

/-! ### `cpu_physical_memory_rw` -/

/-- `phys_page_find(page >> TARGET_PAGE_BITS)`. -/
def physPageFind (m : MemState D) (addr : BitVec 32) : Option PhysPageDesc :=
  m.physMap (addr.toNat / targetPageSize)

/-- `pd` of the page of an address. -/
def physOffset (m : MemState D) (addr : BitVec 32) : ℕ :=
  match physPageFind m addr with
  | none => ioMemUnassigned
  | some p => p.physOffset

/-- The RAM address of a physical address; `none` if its page is not RAM. -/
def ramTarget (m : MemState D) (addr : BitVec 32) : Option ℕ :=
  if physOffset m addr % targetPageSize ≠ ioMemRam then none
  else some (pageMask (physOffset m addr) + addr.toNat % targetPageSize)

/-- The bytes up to the end of the page, at most `len`. -/
def pageRest (addr : BitVec 32) (len : ℕ) : ℕ :=
  min (targetPageSize - addr.toNat % targetPageSize) len

/-- The I/O index of a page. -/
def ioIndex (pd : ℕ) : ℕ := pd / 2 ^ ioMemShift % ioMemNbEntries

/-- The address an I/O handler gets. -/
def ioAddr (m : MemState D) (addr : BitVec 32) : ℕ :=
  match physPageFind m addr with
  | none => addr.toNat
  | some p => addr.toNat % targetPageSize + p.regionOffset

/-- The width index of an I/O access: 32, 16 or 8 bits, whichever fits and is aligned. -/
def ioWidth (addr1 l : ℕ) : ℕ :=
  if l ≥ 4 && addr1 % 4 == 0 then 2 else if l ≥ 2 && addr1 % 2 == 0 then 1 else 0

/-- One turn of the loop of `cpu_physical_memory_rw` with `is_write`, and the bytes it wrote. -/
def rwWriteStep (io : IoMem D) (m : MemState D) (addr : BitVec 32) (buf : List (BitVec 8)) :
    Option (MemState D × ℕ) :=
  let l := pageRest addr buf.length
  match ramTarget m addr with
  | none =>
    let w := ioWidth (ioAddr m addr) l
    let dev := io.write (ioIndex (physOffset m addr)) w (ioAddr m addr) (buf.take (2 ^ w)) m.dev
    some ({ m with dev := dev }, 2 ^ w)
  | some addr1 => do
    let ptr ← getRamPtr m addr1
    let m := hostWrite m ptr (buf.take l)
    let s ← invalidateAndSetDirty m.exec addr1 l
    some ({ m with exec := s }, l)

/-- The loop of `cpu_physical_memory_rw` with `is_write`; every turn writes at least one byte. -/
def rwWriteLoop (io : IoMem D) : ℕ → MemState D → BitVec 32 → List (BitVec 8) → Option (MemState D)
  | _, m, _, [] => some m
  | 0, _, _, _ :: _ => none
  | fuel + 1, m, addr, b :: buf => do
    let (m, l) ← rwWriteStep io m addr (b :: buf)
    rwWriteLoop io fuel m (addr + BitVec.ofNat 32 l) ((b :: buf).drop l)

/-- `cpu_physical_memory_rw` with `is_write`. -/
def rwWrite (io : IoMem D) (m : MemState D) (addr : BitVec 32) (buf : List (BitVec 8)) :
    Option (MemState D) := rwWriteLoop io buf.length m addr buf

/-- The loop of `cpu_physical_memory_rw` without `is_write`: ROM is read like RAM. -/
def rwReadLoop (io : IoMem D) :
    ℕ → MemState D → BitVec 32 → ℕ → Option (MemState D × List (BitVec 8))
  | _, m, _, 0 => some (m, [])
  | 0, _, _, _ + 1 => none
  | fuel + 1, m, addr, len + 1 =>
    let l := pageRest addr (len + 1)
    let pd := physOffset m addr
    if pd % targetPageSize > 8 && pd % 2 == 0 then do
      let w := ioWidth (ioAddr m addr) l
      let (bytes, dev) := io.read (ioIndex pd) w (ioAddr m addr) m.dev
      let (m, rest) ← rwReadLoop io fuel { m with dev := dev } (addr + BitVec.ofNat 32 (2 ^ w))
        (len + 1 - 2 ^ w)
      some (m, bytes.take (2 ^ w) ++ rest)
    else do
      let ptr ← getRamPtr m (pageMask pd)
      let bytes := hostRead m (ptr + addr.toNat % targetPageSize) l
      let (m, rest) ← rwReadLoop io fuel m (addr + BitVec.ofNat 32 l) (len + 1 - l)
      some (m, bytes ++ rest)

/-! ### `cpu_physical_memory_map` and `cpu_physical_memory_unmap` -/

/-- Fill a new bounce buffer, unless it is to be written. -/
def fillBounce (io : IoMem D) (m : MemState D) (isWrite : Bool) (b : BounceBuffer) :
    Option (MemState D) :=
  if isWrite then some m
  else (rwReadLoop io b.len m b.addr b.len).map (fun r => hostWrite r.1 b.buffer r.2)

/-- The loop of `cpu_physical_memory_map`; `buffer` is what `qemu_memalign` would return for a
    bounce buffer, `ret` the pointer to return once `done > 0`. -/
def mapLoop (io : IoMem D) (isWrite : Bool) (buffer : ℕ) :
    ℕ → MemState D → BitVec 32 → ℕ → ℕ → ℕ → Option (MemState D × ℕ × ℕ)
  | _, m, _, 0, ret, done => some (m, ret, done)
  | 0, _, _, _ + 1, _, _ => none
  | fuel + 1, m, addr, len + 1, ret, done =>
    let l := pageRest addr (len + 1)
    match ramTarget m addr with
    | none =>
      if done > 0 || m.bounce.isSome then some (m, ret, done)
      else do
        let m ← fillBounce io { m with bounce := some ⟨buffer, addr, l⟩ } isWrite ⟨buffer, addr, l⟩
        mapLoop io isWrite buffer fuel m (addr + BitVec.ofNat 32 l) (len + 1 - l) buffer (done + l)
    | some addr1 => do
      let ptr ← getRamPtr m addr1
      if done = 0 then
        mapLoop io isWrite buffer fuel m (addr + BitVec.ofNat 32 l) (len + 1 - l) ptr (done + l)
      else if ret + done ≠ ptr then some (m, ret, done)
      else mapLoop io isWrite buffer fuel m (addr + BitVec.ofNat 32 l) (len + 1 - l) ret (done + l)

/-- `cpu_physical_memory_map`: the pointer (0 is null) and the length mapped. -/
def physMemoryMap (io : IoMem D) (m : MemState D) (addr : BitVec 32) (len : ℕ) (isWrite : Bool)
    (buffer : ℕ) : Option (MemState D × ℕ × ℕ) := mapLoop io isWrite buffer len m addr len 0 0

/-- The loop of `cpu_physical_memory_unmap` over a direct mapping: steps of a page from `addr1`,
    wherever in a page that is. -/
def unmapLoop : ℕ → ExecState → ℕ → ℕ → Option ExecState
  | _, s, _, 0 => some s
  | 0, _, _, _ + 1 => none
  | fuel + 1, s, addr1, accessLen + 1 => do
    let l := min targetPageSize (accessLen + 1)
    let s ← invalidateAndSetDirty s addr1 l
    unmapLoop fuel s (addr1 + l) (accessLen + 1 - l)

/-- The bounce buffer, if `buffer` is it. -/
def bounceAt (m : MemState D) (buffer : ℕ) : Option BounceBuffer :=
  m.bounce.filter (fun b => b.buffer == buffer)

/-- `cpu_physical_memory_unmap`. -/
def physMemoryUnmap (io : IoMem D) (m : MemState D) (buffer : ℕ) (isWrite : Bool)
    (accessLen : ℕ) : Option (MemState D) :=
  match bounceAt m buffer with
  | none =>
    if isWrite then do
      let addr1 ← ramAddrFromHost m buffer
      let s ← unmapLoop accessLen m.exec addr1 accessLen
      some { m with exec := s }
    else some m
  | some b => do
    let m ← if isWrite then rwWrite io m b.addr (hostRead m b.buffer accessLen) else some m
    some { m with bounce := none }

end Qemu.Exec
