import Qemu.Lib.PtrList
import Mathlib.Algebra.Ring.Nat

namespace Qemu.Exec

open Qemu.Lib Function

/-!
# Translation blocks and the lists they are linked in (`exec.c`, `exec-all.h`)

The soft-MMU build for `target-arm`: one-kilobyte target pages, no `TARGET_HAS_PRECISE_SMC`.
A `TranslationBlock` is a record at an index of the array `tbs`; a C pointer to one is that index,
and a pointer carrying a number in its two low bits is a `TbPtr`.  Every block can be linked in

* the chain `tb_phys_hash[h]` through `phys_hash_next`;
* the list of each page it lies in, through `page_next[n]`, the low bits naming `n`;
* the circular list of jumps into another block, through `jmp_next[n]`, ending in the owner's
  pointer tagged `2`.

A `for (;;)` loop of the source is `findCell` with `loopBound` steps.  A list of `n` blocks has
at most `2 * n + 1` link fields, so a loop still running after that many steps never ends; both
this and following a null link are `none`.
-/

/-! ### Constants -/

/-- `TARGET_PAGE_BITS` -/
abbrev targetPageBits : Nat := 10

/-- `TARGET_PAGE_SIZE` -/
abbrev targetPageSize : Nat := 1024

/-- `-1` as a `target_ulong`: no second page, or no page to leave out. -/
abbrev noPage : Nat := 0xffffffff

/-- `CODE_GEN_PHYS_HASH_SIZE` -/
abbrev codeGenPhysHashSize : Nat := 32768

/-- `CODE_GEN_ALIGN` -/
abbrev codeGenAlign : Nat := 16

/-- `L2_SIZE` -/
abbrev l2Size : Nat := 1024

/-- `SMC_BITMAP_USE_THRESHOLD` -/
abbrev smcBitmapUseThreshold : Nat := 10

/-- `CODE_DIRTY_FLAG`; set when the page holds no translated code. -/
abbrev codeDirtyFlag : BitVec 8 := 0x02#8

/-! ### Data -/

/-- A pointer to a block with a number in its two low bits, `(long)tb | n`. -/
structure TbPtr where
  tb : Nat
  n : Nat
deriving DecidableEq, Repr

/-- The fields of a block that stay as `tb_gen_code` set them. -/
structure TbInfo where
  pc : Nat
  size : Nat
  tcPtr : Nat
  /-- Offset in the generated code at which each jump slot resumes when it is not chained. -/
  tbNextOffset : Nat → Nat
  pageAddr : Nat → Nat

/-- `struct TranslationBlock`. -/
structure TranslationBlock extends TbInfo where
  physHashNext : Option Nat
  pageNext : Nat → Option TbPtr
  /-- Address each jump slot currently branches to. -/
  tbNext : Nat → Nat
  jmpNext : Nat → Option TbPtr
  jmpFirst : Option TbPtr

/-- `struct PageDesc`. -/
structure PageDesc where
  firstTb : Option TbPtr
  codeWriteCount : Nat
  codeBitmap : Option (Nat → BitVec 8)

/-- What `qemu_mallocz` gives for a new `PageDesc`. -/
def PageDesc.zero : PageDesc := ⟨none, 0, none⟩

/-- The global state of `exec.c` that the block lists live in. -/
structure ExecState where
  tbs : Nat → TranslationBlock
  nbTbs : Nat
  codeGenMaxBlocks : Nat
  codeGenBuffer : Nat
  codeGenPtr : Nat
  codeGenBufferMaxSize : Nat
  tbPhysHash : Nat → Option Nat
  l1Map : Nat → Option (Nat → PageDesc)
  physRamDirty : Nat → BitVec 8
  /-- `env->tb_jmp_cache` of every CPU. -/
  tbJmpCache : Nat → Nat → Option Nat

/-- Longer than any walk that ends: every link field once. -/
def ExecState.loopBound (s : ExecState) : Nat := 2 * s.nbTbs + 2

/-! ### Reading and writing link fields -/

/-- The next block on a hash list. -/
def hashNext (s : ExecState) (t : Nat) : Option Nat := (s.tbs t).physHashNext

/-- The next block on the list of a page. -/
def pageNext (s : ExecState) (v : TbPtr) : Option TbPtr := (s.tbs v.tb).pageNext v.n

/-- The link field a jump-list pointer stands for: `jmp_first` for the tag `2`. -/
def jmpNext (s : ExecState) (v : TbPtr) : Option TbPtr :=
  if v.n = 2 then (s.tbs v.tb).jmpFirst else (s.tbs v.tb).jmpNext v.n

/-- An update of one block. -/
def modTb (s : ExecState) (t : Nat) (f : TranslationBlock → TranslationBlock) : ExecState :=
  { s with tbs := update s.tbs t (f (s.tbs t)) }

/-- `page_find`: null when the second-level array was never allocated. -/
def pageFind (s : ExecState) (index : Nat) : Option PageDesc :=
  (s.l1Map (index / l2Size)).map (fun a => a (index % l2Size))

/-- Change a page descriptor in place. -/
def modPage (s : ExecState) (index : Nat) (f : PageDesc → PageDesc) : ExecState :=
  { s with
    l1Map := update s.l1Map (index / l2Size)
      ((s.l1Map (index / l2Size)).map
        (fun a => update a (index % l2Size) (f (a (index % l2Size))))) }

/-- `page_find_alloc`, for its effect: the array holding the descriptor exists afterwards. -/
def pageAlloc (s : ExecState) (index : Nat) : ExecState :=
  match s.l1Map (index / l2Size) with
  | some _ => s
  | none =>
    { s with l1Map := update s.l1Map (index / l2Size) (some (fun _ => PageDesc.zero)) }

/-- `*ptb = x` in a hash chain. -/
def writeHash (s : ExecState) (h : Nat) (k : Cell Nat) (x : Option Nat) : ExecState :=
  match k with
  | .head => { s with tbPhysHash := update s.tbPhysHash h x }
  | .next u => modTb s u (fun tb => { tb with physHashNext := x })

/-- `*ptb = x` in a page list. -/
def writePage (s : ExecState) (index : Nat) (k : Cell TbPtr) (x : Option TbPtr) : ExecState :=
  match k with
  | .head => modPage s index (fun p => { p with firstTb := x })
  | .next u => modTb s u.tb (fun tb => { tb with pageNext := update tb.pageNext u.n x })

/-- `*ptb = x` in a jump list. -/
def writeJmp (s : ExecState) (k : Cell TbPtr) (x : Option TbPtr) : ExecState :=
  match k with
  | .head => s
  | .next u =>
    modTb s u.tb (fun tb =>
      if u.n = 2 then { tb with jmpFirst := x }
      else { tb with jmpNext := update tb.jmpNext u.n x })

/-! ### Hash functions -/

/-- `tb_phys_hash_func`. -/
def tbPhysHashFunc (physPc : Nat) : Nat := physPc % codeGenPhysHashSize

/-- `tb_jmp_cache_hash_func`, with `TB_JMP_PAGE_BITS` 6 and a cache of 4096 entries. -/
def tbJmpCacheHashFunc (pc : Nat) : Nat :=
  let tmp := pc ^^^ (pc >>> (targetPageBits - 6))
  ((tmp >>> (targetPageBits - 6)) &&& 4032) ||| (tmp &&& 63)

/-- The physical address of a block's first byte, as `tb_phys_invalidate` rebuilds it. -/
def TbInfo.physPc (tb : TbInfo) : Nat := tb.pageAddr 0 + tb.pc % targetPageSize

/-! ### Unlinking -/

/-- `tb_remove` on `tb_phys_hash[h]`. -/
def tbRemove (s : ExecState) (h tb : Nat) : Option ExecState := do
  let k ← findCell (s.tbPhysHash h) (hashNext s) (fun t => t == tb) s.loopBound .head
  some (writeHash s h k (hashNext s tb))

/-- `tb_page_remove` on the list of the page `index`: the first link of `tb`, whatever its tag. -/
def tbPageRemove (s : ExecState) (index tb : Nat) : Option ExecState := do
  let p ← pageFind s index
  let k ← findCell p.firstTb (pageNext s) (fun v => v.tb == tb) s.loopBound .head
  let v ← k.get p.firstTb (pageNext s)
  some (writePage s index k (pageNext s v))

/-- `tb_jmp_remove`: take the jump slot `n` of `tb` out of the list it is in, if any. -/
def tbJmpRemove (s : ExecState) (tb n : Nat) : Option ExecState :=
  match (s.tbs tb).jmpNext n with
  | none => some s
  | some _ => do
    let k ← findCell none (jmpNext s) (fun v => v.n == n && v.tb == tb) s.loopBound (.next ⟨tb, n⟩)
    let s := writeJmp s k ((s.tbs tb).jmpNext n)
    some (modTb s tb (fun t => { t with jmpNext := update t.jmpNext n none }))

/-- `tb_set_jmp_target`. -/
def tbSetJmpTarget (s : ExecState) (tb n addr : Nat) : ExecState :=
  modTb s tb (fun t => { t with tbNext := update t.tbNext n addr })

/-- `tb_reset_jump`: the slot resumes in its own block. -/
def tbResetJump (s : ExecState) (tb n : Nat) : ExecState :=
  tbSetJmpTarget s tb n ((s.tbs tb).tcPtr + (s.tbs tb).tbNextOffset n)

/-- The last loop of `tb_phys_invalidate`: suppress the jumps from `tb1` on. -/
def resetJumps : Nat → ExecState → Option TbPtr → Option ExecState
  | 0, _, _ => none
  | _ + 1, _, none => none
  | fuel + 1, s, some tb1 =>
    if tb1.n = 2 then some s
    else
      let tb2 := (s.tbs tb1.tb).jmpNext tb1.n
      let s := tbResetJump s tb1.tb tb1.n
      let s := modTb s tb1.tb (fun t => { t with jmpNext := update t.jmpNext tb1.n none })
      resetJumps fuel s tb2

/-- `invalidate_page_bitmap`. -/
def invalidatePageBitmap (s : ExecState) (index : Nat) : ExecState :=
  modPage s index (fun p => { p with codeBitmap := none, codeWriteCount := 0 })

/-- Forget `tb` in the jump cache of every CPU. -/
def tbJmpCacheRemove (s : ExecState) (tb : Nat) : ExecState :=
  let h := tbJmpCacheHashFunc (s.tbs tb).pc
  { s with tbJmpCache := fun env i =>
      if i = h ∧ s.tbJmpCache env h = some tb then none else s.tbJmpCache env i }

/-- `tb_page_remove` followed by `invalidate_page_bitmap`. -/
def unlinkPage (s : ExecState) (tb index : Nat) : Option ExecState :=
  (tbPageRemove s index tb).map (fun s => invalidatePageBitmap s index)

/-- The part of `tb_phys_invalidate` that removes the block from its page lists. -/
def unlinkPages (s : ExecState) (tb pageAddr : Nat) : Option ExecState := do
  let s ← if (s.tbs tb).pageAddr 0 ≠ pageAddr then
      unlinkPage s tb ((s.tbs tb).pageAddr 0 / targetPageSize)
    else some s
  if (s.tbs tb).pageAddr 1 ≠ noPage ∧ (s.tbs tb).pageAddr 1 ≠ pageAddr then
    unlinkPage s tb ((s.tbs tb).pageAddr 1 / targetPageSize)
  else some s

/-- `tb_phys_invalidate`. -/
def tbPhysInvalidate (s : ExecState) (tb pageAddr : Nat) : Option ExecState := do
  -- remove the TB from the hash list
  let s ← tbRemove s (tbPhysHashFunc (s.tbs tb).physPc) tb
  -- remove the TB from the page list
  let s ← unlinkPages s tb pageAddr
  let s := tbJmpCacheRemove s tb
  -- suppress this TB from the two jump lists
  let s ← tbJmpRemove s tb 0
  let s ← tbJmpRemove s tb 1
  -- suppress any remaining jumps to this TB
  let s ← resetJumps s.loopBound s (s.tbs tb).jmpFirst
  some (modTb s tb (fun t => { t with jmpFirst := some ⟨tb, 2⟩ }))

/-! ### The code bitmap of a page -/

/-- `set_bits`: set the bits `start .. start + len - 1` of a byte array. -/
def setBits (tab : Nat → BitVec 8) (start len : Nat) : Nat → BitVec 8 :=
  let fin := start + len
  let i := start / 8
  let mask := 0xff#8 <<< (start % 8)
  if start / 8 = fin / 8 then
    if start < fin then
      update tab i (tab i ||| (mask &&& ~~~(0xff#8 <<< (fin % 8))))
    else tab
  else
    let tab := update tab i (tab i ||| mask)
    let start := (start + 8) / 8 * 8
    let tab := fun j => if start / 8 ≤ j ∧ j < fin / 8 then 0xff#8 else tab j
    -- the loop leaves `start` at the last byte boundary, or past the range
    if max start (fin / 8 * 8) < fin then
      update tab (fin / 8) (tab (fin / 8) ||| ~~~(0xff#8 <<< (fin % 8)))
    else tab

/-- The bytes `[tb_start, tb_end)` of the page that `build_page_bitmap` marks for a link. -/
def bitmapRange (s : ExecState) (v : TbPtr) : Nat × Nat :=
  if v.n = 0 then
    let tbStart := (s.tbs v.tb).pc % targetPageSize
    (tbStart, min (tbStart + (s.tbs v.tb).size) targetPageSize)
  else (0, ((s.tbs v.tb).pc + (s.tbs v.tb).size) % targetPageSize)

/-- The loop of `build_page_bitmap` over the page list. -/
def buildPageBitmapLoop (s : ExecState) :
    Nat → (Nat → BitVec 8) → Option TbPtr → Option (Nat → BitVec 8)
  | _, bm, none => some bm
  | 0, _, some _ => none
  | fuel + 1, bm, some v =>
    buildPageBitmapLoop s fuel
      (setBits bm (bitmapRange s v).1 ((bitmapRange s v).2 - (bitmapRange s v).1)) (pageNext s v)

/-- `build_page_bitmap`. -/
def buildPageBitmap (s : ExecState) (index : Nat) : Option ExecState := do
  let p ← pageFind s index
  let bm ← buildPageBitmapLoop s s.loopBound (fun _ => 0) p.firstTb
  some (modPage s index (fun p => { p with codeBitmap := some bm }))

/-! ### Invalidating a range -/

/-- The physical bytes `[tb_start, tb_end)` that `tb_invalidate_phys_page_range` takes a link of a
    page list to stand for. -/
def linkRange (tb : TbInfo) (n : Nat) : Nat × Nat :=
  if n = 0 then (tb.pageAddr 0 + tb.pc % targetPageSize,
    tb.pageAddr 0 + tb.pc % targetPageSize + tb.size)
  else (tb.pageAddr 1, tb.pageAddr 1 + (tb.pc + tb.size) % targetPageSize)

/-- The test `!(tb_end <= start || tb_start >= end)`. -/
def overlaps (tb : TbInfo) (n start fin : Nat) : Bool :=
  !((linkRange tb n).2 ≤ start || (linkRange tb n).1 ≥ fin)

/-- The loop of `tb_invalidate_phys_page_range` from the link `tb` on. -/
def invalidateLoop (start fin : Nat) : Nat → ExecState → Option TbPtr → Option ExecState
  | _, s, none => some s
  | 0, _, some _ => none
  | fuel + 1, s, some v =>
    let tbNext := pageNext s v
    if overlaps (s.tbs v.tb).toTbInfo v.n start fin then do
      let s ← tbPhysInvalidate s v.tb noPage
      invalidateLoop start fin fuel s tbNext
    else invalidateLoop start fin fuel s tbNext

/-- `tlb_unprotect_code_phys`. -/
def tlbUnprotectCodePhys (s : ExecState) (ramAddr : Nat) : ExecState :=
  { s with
    physRamDirty := update s.physRamDirty (ramAddr / targetPageSize)
      (s.physRamDirty (ramAddr / targetPageSize) ||| codeDirtyFlag) }

/-- The part of `tb_invalidate_phys_page_range` that counts the write, and builds the code bitmap
    of a page written often. -/
def countCodeWrite (s : ExecState) (index : Nat) (p : PageDesc) (isCpuWriteAccess : Bool) :
    Option ExecState :=
  if p.codeBitmap.isNone then
    let s := modPage s index (fun p => { p with codeWriteCount := p.codeWriteCount + 1 })
    if p.codeWriteCount + 1 ≥ smcBitmapUseThreshold && isCpuWriteAccess then
      buildPageBitmap s index
    else some s
  else some s

/-- `tb_invalidate_phys_page_range`. -/
def tbInvalidatePhysPageRange (s : ExecState) (start fin : Nat) (isCpuWriteAccess : Bool) :
    Option ExecState :=
  let index := start / targetPageSize
  match pageFind s index with
  | none => some s
  | some p => do
    let s ← countCodeWrite s index p isCpuWriteAccess
    let s ← invalidateLoop start fin s.loopBound s p.firstTb
    let p ← pageFind s index
    -- if no code remaining, no need to continue to use slow writes
    if p.firstTb.isNone then
      let s := invalidatePageBitmap s index
      some (if isCpuWriteAccess then tlbUnprotectCodePhys s start else s)
    else some s

/-! ### Linking -/

/-- `cpu_physical_memory_reset_dirty` on one page, for the dirty array. -/
def tlbProtectCode (s : ExecState) (pageAddr : Nat) : ExecState :=
  { s with
    physRamDirty := update s.physRamDirty (pageAddr / targetPageSize)
      (s.physRamDirty (pageAddr / targetPageSize) &&& ~~~codeDirtyFlag) }

/-- `tb_alloc_page`. -/
def tbAllocPage (s : ExecState) (tb n pageAddr : Nat) : Option ExecState := do
  let s := modTb s tb (fun t => { t with pageAddr := update t.pageAddr n pageAddr })
  let index := pageAddr / targetPageSize
  let s := pageAlloc s index
  let p ← pageFind s index
  let s := modTb s tb (fun t => { t with pageNext := update t.pageNext n p.firstTb })
  let s := modPage s index (fun p => { p with firstTb := some ⟨tb, n⟩ })
  let s := invalidatePageBitmap s index
  -- if some code is already present, then the pages are already protected
  some (if p.firstTb.isNone then tlbProtectCode s pageAddr else s)

/-- The page base of an address, `addr & TARGET_PAGE_MASK`. -/
def pageMask (addr : Nat) : Nat := addr / targetPageSize * targetPageSize

/-- The part of `tb_link_phys` that adds the block in the page list. -/
def tbLinkPages (s : ExecState) (tb physPc physPage2 : Nat) : Option ExecState := do
  let s ← tbAllocPage s tb 0 (pageMask physPc)
  if physPage2 ≠ noPage then tbAllocPage s tb 1 physPage2
  else some (modTb s tb (fun t => { t with pageAddr := update t.pageAddr 1 noPage }))

/-- The part of `tb_link_phys` that empties the jump lists and inits original jump addresses. -/
def tbInitJumps (s : ExecState) (tb : Nat) : ExecState :=
  let s := modTb s tb (fun t => { t with
    jmpFirst := some ⟨tb, 2⟩
    jmpNext := update (update t.jmpNext 0 none) 1 none })
  let s := if (s.tbs tb).tbNextOffset 0 ≠ 0xffff then tbResetJump s tb 0 else s
  if (s.tbs tb).tbNextOffset 1 ≠ 0xffff then tbResetJump s tb 1 else s

/-- `tb_link_phys`. -/
def tbLinkPhys (s : ExecState) (tb physPc physPage2 : Nat) : Option ExecState := do
  -- add in the physical hash table
  let h := tbPhysHashFunc physPc
  let s := modTb s tb (fun t => { t with physHashNext := s.tbPhysHash h })
  let s := { s with tbPhysHash := update s.tbPhysHash h (some tb) }
  let s ← tbLinkPages s tb physPc physPage2
  some (tbInitJumps s tb)

/-- `page_flush_tb`. -/
def pageFlushTb (s : ExecState) : ExecState :=
  { s with l1Map := fun i => (s.l1Map i).map (fun _ _ => PageDesc.zero) }

/-- `tb_flush`. -/
def tbFlush (s : ExecState) : ExecState :=
  pageFlushTb { s with
    nbTbs := 0
    tbJmpCache := fun _ _ => none
    tbPhysHash := fun _ => none
    codeGenPtr := s.codeGenBuffer }

/-- There is room for another block. -/
def ExecState.hasRoom (s : ExecState) : Prop :=
  s.nbTbs < s.codeGenMaxBlocks ∧ s.codeGenPtr - s.codeGenBuffer < s.codeGenBufferMaxSize

instance (s : ExecState) : Decidable s.hasRoom := inferInstanceAs (Decidable (_ ∧ _))

/-- `tb_alloc`: null when a flush must be done. -/
def tbAlloc (s : ExecState) (pc : Nat) : Option (ExecState × Nat) :=
  if s.hasRoom then
    some ({ modTb s s.nbTbs (fun t => { t with pc := pc }) with nbTbs := s.nbTbs + 1 }, s.nbTbs)
  else none

/-- What `cpu_gen_code` and `get_phys_addr_code` find out about the code at `pc`: its size (the
    block ends before its second page does), the offsets of its jump slots, the size of the code
    generated, and the physical addresses of `pc` and of the page after it. -/
structure CodeBlock where
  pc : Nat
  size : Nat
  tbNextOffset : Nat → Nat
  codeGenSize : Nat
  physPc : Nat
  physPage2 : Nat
  size_pos : 1 ≤ size
  fits : pc % targetPageSize + size < 2 * targetPageSize
  physPc_mod : physPc % targetPageSize = pc % targetPageSize
  physPage2_mod : physPage2 % targetPageSize = 0

/-- The block lies in a second page. -/
def CodeBlock.crosses (b : CodeBlock) : Prop :=
  b.pc / targetPageSize ≠ (b.pc + b.size - 1) / targetPageSize

instance (b : CodeBlock) : Decidable b.crosses := inferInstanceAs (Decidable (_ ≠ _))

/-- The second page `tb_gen_code` passes to `tb_link_phys`. -/
def CodeBlock.page2 (b : CodeBlock) : Nat := if b.crosses then b.physPage2 else noPage

/-- The block after `cpu_gen_code`. -/
def tbFill (s : ExecState) (tb : Nat) (b : CodeBlock) : ExecState :=
  let s := modTb s tb (fun t => { t with
    tcPtr := s.codeGenPtr, size := b.size, tbNextOffset := b.tbNextOffset })
  { s with codeGenPtr :=
      (s.codeGenPtr + b.codeGenSize + codeGenAlign - 1) / codeGenAlign * codeGenAlign }

/-- `tb_gen_code`. -/
def tbGenCode (s : ExecState) (b : CodeBlock) : Option (ExecState × Nat) := do
  let (s, tb) ← match tbAlloc s b.pc with
    | some r => some r
    | none => tbAlloc (tbFlush s) b.pc    -- flush must be done; cannot fail at this point
  let s ← tbLinkPhys (tbFill s tb b) tb b.physPc b.page2
  some (s, tb)

/-- `tb_add_jump`. -/
def tbAddJump (s : ExecState) (tb n tbNext : Nat) : ExecState :=
  if ((s.tbs tb).jmpNext n).isNone then
    let s := tbSetJmpTarget s tb n (s.tbs tbNext).tcPtr
    let s := modTb s tb (fun t =>
      { t with jmpNext := update t.jmpNext n (s.tbs tbNext).jmpFirst })
    modTb s tbNext (fun t => { t with jmpFirst := some ⟨tb, n⟩ })
  else s

end Qemu.Exec
