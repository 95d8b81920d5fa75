import Qemu.Lib.Bytes
import Qemu.Lib.Runs
import Qemu.Lib.Sections

namespace Qemu.Migration

open Lib

/-!
# Migration of RAM (`vl.c`)

* `RamConfig` — the sizes of pages, and the blocks that RAM consists of (`exec.c`);
* `ramSaveBlock`, `ramSaveLive` — what the source writes to the stream;
* `ramLoad` — what the destination does with it;
* `RamAction.exec` — stores of the guest between rounds of `ram_save_live`.

Pages are numbered: page `p` begins at the RAM address `p * TARGET_PAGE_SIZE`, and all addresses
that the scan deals with are multiples of that size.
-/

/-- `RAM_SAVE_FLAG_COMPRESS` -/
def RAM_SAVE_FLAG_COMPRESS : Nat := 0x02

/-- `RAM_SAVE_FLAG_MEM_SIZE` -/
def RAM_SAVE_FLAG_MEM_SIZE : Nat := 0x04

/-- `RAM_SAVE_FLAG_PAGE` -/
def RAM_SAVE_FLAG_PAGE : Nat := 0x08

/-- `RAM_SAVE_FLAG_EOS` -/
def RAM_SAVE_FLAG_EOS : Nat := 0x10

/-- `TARGET_PAGE_BITS`, the size of a page of the host, and the lengths of the RAM blocks in target
pages.  `qemu_vmalloc` gives each block memory that begins with a page of the host. -/
structure RamConfig where
  targetPageBits : Nat
  hostPageBits : Nat
  blocks : List Nat
  /-- `!kvm_enabled() || kvm_has_sync_mmu()` -/
  releases : Bool
  flag_bits : 5 ≤ targetPageBits
  page_le : targetPageBits ≤ hostPageBits
  offset_lt : blocks.sum * 2 ^ targetPageBits < 2 ^ 64

section

variable (cfg : RamConfig)

/-- `TARGET_PAGE_SIZE` -/
def RamConfig.pageSize : Nat := 2 ^ cfg.targetPageBits

/-- `last_ram_offset`, in pages. -/
def RamConfig.lastPage : Nat := cfg.blocks.sum

/-- The block of a page, and the page in it. -/
def ramBlock : List Nat → Nat → Option (Nat × Nat)
  | [], _ => none
  | length :: blocks, page =>
    if page < length then some (0, page)
    else (ramBlock blocks (page - length)).map fun b => (b.1 + 1, b.2)

/-- The page of the host that `qemu_get_ram_ptr` leads to; it aborts for a bad offset. -/
def RamConfig.hostPage (page : Nat) : Option (Nat × Nat) :=
  (ramBlock cfg.blocks page).map fun b => (b.1, b.2 / 2 ^ (cfg.hostPageBits - cfg.targetPageBits))

/-- What RAM holds in a page. -/
def RamConfig.page (ram : Nat → Byte) (page : Nat) : List Byte :=
  bytesAt ram (page * cfg.pageSize) cfg.pageSize

/-- An address and flags in one word. -/
def ramWord (page flags : Nat) : BitVec 64 :=
  BitVec.ofNat 64 (page <<< cfg.targetPageBits ||| flags)

/-! ### The source -/

/-- The migration flag of each page, and the state of `ram_save_block`. -/
structure RamState where
  ram : Nat → Byte
  dirty : Nat → Bool
  tracking : Bool
  currentPage : Nat
  bytesTransferred : Nat
  file : List Byte

/-- A page is compared in words of 32 bits. -/
def isDupPage (ch : Byte) : List Byte → Bool
  | b₀ :: b₁ :: b₂ :: b₃ :: array =>
    b₃ ++ b₂ ++ b₁ ++ b₀ = ch ++ ch ++ ch ++ ch && isDupPage ch array
  | _ => true

/-- The loop of `ram_save_block`: the page it stops at, and whether that is dirty. -/
def scanLoop (dirty : Nat → Bool) (lastPage savedPage : Nat) : Nat → Nat → Nat × Bool
  | 0, currentPage => (currentPage, false)
  | left + 1, currentPage =>
    if dirty currentPage then (currentPage, true)
    else scanLoop dirty lastPage savedPage left ((savedPage + (lastPage - left)) % lastPage)

/-- The page that `ram_save_block` stops at. -/
def ramScan (s : RamState) : Nat × Bool :=
  scanLoop s.dirty cfg.lastPage s.currentPage cfg.lastPage s.currentPage

/-- What is sent of a page. -/
def ramPageBytes (ram : Nat → Byte) (page : Nat) : List Byte :=
  let p := cfg.page ram page
  let ch := p.headD 0
  if isDupPage ch p then putBe64 (ramWord cfg page RAM_SAVE_FLAG_COMPRESS) ++ putByte ch
  else putBe64 (ramWord cfg page RAM_SAVE_FLAG_PAGE) ++ p

/-- `ram_save_block` -/
def ramSaveBlock (s : RamState) : RamState × Bool :=
  match ramScan cfg s with
  | (page, false) => ({ s with currentPage := page }, false)
  | (page, true) =>
    ({ s with
      currentPage := page
      dirty := Function.update s.dirty page false
      file := s.file ++ ramPageBytes cfg s.ram page }, true)

/-- `ram_save_remaining` -/
def ramSaveRemaining (s : RamState) : Nat := (List.range cfg.lastPage).countP s.dirty

/-- A loop that sends blocks until the rate limit is met or none is left; the answers of
`qemu_file_rate_limit` are numbered.  The first argument bounds the turns of the loop. -/
def saveLoop (limit : Nat → Bool) : Nat → Nat → RamState → Option RamState
  | 0, _, _ => none
  | fuel + 1, i, s =>
    if limit i then some s
    else
      match ramSaveBlock cfg s with
      | (s, false) => some s
      | (s, true) =>
        saveLoop limit fuel (i + 1)
          { s with bytesTransferred := s.bytesTransferred + cfg.pageSize }

/-- Stage 1 makes all pages dirty and sends the size of RAM. -/
def ramSaveSetup (s : RamState) : RamState :=
  { s with
    bytesTransferred := 0
    dirty := fun page => page < cfg.lastPage || s.dirty page
    tracking := true
    file := s.file ++ putBe64 (ramWord cfg cfg.lastPage RAM_SAVE_FLAG_MEM_SIZE) }

/-- More turns than this are not made by the loops. -/
def RamConfig.turns : Nat := cfg.lastPage + 1

/-- `ram_save_live` -/
def ramSaveLive (stage : Int) (limit : Nat → Bool) (s : RamState) : Option RamState :=
  if stage < 0 then some { s with tracking := false }
  else
    (saveLoop cfg limit cfg.turns 0 (if stage = 1 then ramSaveSetup cfg s else s)).bind fun s =>
    (if stage = 3 then
      -- all of the remaining blocks, whatever the rate limit says
      (saveLoop cfg (fun _ => false) cfg.turns 0 s).map fun s => { s with tracking := false }
    else some s).map fun s =>
      { s with file := s.file ++ putBe64 (BitVec.ofNat 64 RAM_SAVE_FLAG_EOS) }

/-! ### The destination -/

/-- How `ram_load` ends. -/
inductive RamLoadStatus
  | ok
  | einval
  | eio
  /-- `qemu_get_ram_ptr` aborts. -/
  | abort
  /-- Not met: more turns of the loop than there are bytes. -/
  | running
deriving DecidableEq

/-- `memset` of a page. -/
def RamConfig.fill (ram : Nat → Byte) (page : Nat) (ch : Byte) : Nat → Byte := fun addr =>
  if addr / cfg.pageSize = page then ch else ram addr

/-- `madvise(…, MADV_DONTNEED)`: the page of the host that a page is in holds zeroes. -/
def RamConfig.dontNeed (ram : Nat → Byte) (page : Nat) : Nat → Byte := fun addr =>
  if cfg.hostPage (addr / cfg.pageSize) = cfg.hostPage page then 0 else ram addr

/-- What comes behind the address of a page; `none` is an abort. -/
def ramLoadPage (flags page : Nat) (ram : Nat → Byte) : Reader (Option (Nat → Byte)) :=
  if flags &&& RAM_SAVE_FLAG_COMPRESS ≠ 0 then do
    let ch ← Reader.getByte
    pure <| (ramBlock cfg.blocks page).map fun _ =>
      let ram := cfg.fill ram page ch
      if ch = 0 ∧ cfg.releases then cfg.dontNeed ram page else ram
  else if flags &&& RAM_SAVE_FLAG_PAGE ≠ 0 then do
    let bytes ← Reader.getBuffer cfg.pageSize
    pure <| (ramBlock cfg.blocks page).map fun _ => storeAt ram (page * cfg.pageSize) bytes
  else pure (some ram)

/-- The loop of `ram_load`. -/
def ramLoadLoop : Nat → (Nat → Byte) → Reader ((Nat → Byte) × RamLoadStatus)
  | 0, ram => pure (ram, .running)
  | fuel + 1, ram => do
    let word ← Reader.getBe64
    let flags := word.toNat % cfg.pageSize
    let page := word.toNat / cfg.pageSize
    if flags &&& RAM_SAVE_FLAG_MEM_SIZE ≠ 0 ∧ page ≠ cfg.lastPage then pure (ram, .einval)
    else
      match ← ramLoadPage cfg flags page ram with
      | none => pure (ram, .abort)
      | some ram => do
        if ← Reader.hasError then pure (ram, .eio)
        else if flags &&& RAM_SAVE_FLAG_EOS ≠ 0 then pure (ram, .ok)
        else ramLoadLoop fuel ram

/-- Each turn of the loop reads bytes, or meets the end of the file and stops. -/
def ramLoad (versionId : Nat) (ram : Nat → Byte) : Reader ((Nat → Byte) × RamLoadStatus) := fun f =>
  if versionId ≠ 3 then ((ram, .einval), f) else ramLoadLoop cfg (f.data.length + 1) ram f

/-- `ram_load` for a number of sections of the stream. -/
def ramLoads : Nat → (Nat → Byte) → Reader ((Nat → Byte) × RamLoadStatus) :=
  loadSections (ramLoad cfg 3) .ok

/-! ### Runs -/

/-- A store of the guest marks its page; a round is called with the answers of the rate limit. -/
inductive RamAction
  | store (addr : Nat) (value : Byte)
  | save (stage : Int) (limit : Nat → Bool)

/-- One step, if it ends. -/
def RamAction.exec (s : RamState) : RamAction → Option RamState
  | .store addr value =>
    some { s with
      ram := Function.update s.ram addr value
      dirty := Function.update s.dirty (addr / cfg.pageSize) true }
  | .save stage limit => ramSaveLive cfg stage limit s

end

end Qemu.Migration
