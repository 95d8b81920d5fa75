import Qemu.Lib.Loops
import Mathlib

namespace Qemu.Migration.Resources

open Lib

/-!
# What the migration of block devices allocates and counts (`block-migration.c`)

Sizes, errors and the end of the loops are what matters here, and the contents do not.

* `MigState` — devices, blocks and counters; the buffers by the number of their allocation;
* `blkMigReadCb`, `migSaveDeviceBulk`, `blkMigSaveBulkedBlock`, `flushBlks`, `blkMigCleanup` — the
  functions that use them;
* `blockSaveLive` — a call, with what its environment answers;
* `MigOp.exec` — calls, and the completion of reads between them.

`none` is a division by zero, an assertion that fails, the use of a device that has been freed, or
a loop that does not end.
-/

/-- `BDRV_SECTORS_PER_DIRTY_CHUNK` -/
def BDRV_SECTORS_PER_DIRTY_CHUNK : Nat := 2048

/-- `BLOCK_SIZE` -/
def BLOCK_SIZE : Nat := 1048576

/-- The loop over `bdrv_is_allocated`, which gives the lengths of runs of sectors, sector by
sector. -/
def skipUnallocated (allocated : Nat → Bool) (totalSectors : Nat) : Nat → Nat → Nat
  | 0, curSector => curSector
  | left + 1, curSector =>
    if curSector < totalSectors ∧ allocated curSector = false then
      skipUnallocated allocated totalSectors left (curSector + 1)
    else curSector

/-- The beginning of the chunk of a sector. -/
def chunkStart (sector : Nat) : Nat :=
  sector / BDRV_SECTORS_PER_DIRTY_CHUNK * BDRV_SECTORS_PER_DIRTY_CHUNK

/-! ### State -/

/-- `BlkMigDevState`, with the number of its allocation. -/
structure MigDev where
  id : Nat
  sharedBase : Bool
  totalSectors : Int
  curSector : Nat
  completedSectors : Int
  bulkCompleted : Bool
deriving DecidableEq

/-- `BlkMigBlock`, with the allocations of its buffer and of its device; `failed` is `ret < 0`. -/
structure MigBlock where
  buf : Nat
  dev : Nat
  sector : Nat
  failed : Bool
deriving DecidableEq

/-- What is written to the file. -/
inductive MigItem
  | block (buf dev sector : Nat)
  | dirty (dev sector : Nat)
  | progress (percent : Int)
  | eos
deriving DecidableEq

/-- `BlkMigState`, the reads in flight, the buffers that were freed, the numbers of the next
    allocations, and what was written. -/
structure MigState where
  blkEnable : Bool
  sharedBase : Bool
  bmdsList : List MigDev
  blkList : List MigBlock
  submitted : Int
  readDone : Int
  totalSectorSum : Int
  prevProgress : Int
  inFlight : List MigBlock
  freed : List Nat
  nextBuf : Nat
  nextDev : Nat
  written : List MigItem
  fileError : Bool
deriving DecidableEq

/-- The results of reads: those of the list, and then always the same. -/
structure MigReads where
  results : List Bool
  rest : Bool
deriving DecidableEq

/-- The next result of a read. -/
def MigReads.next (r : MigReads) : Bool × MigReads :=
  match r.results with
  | [] => (r.rest, r)
  | b :: bs => (b, { r with results := bs })

/-- What the file answers in one round: in each of the two flushes, and its rate limit in each turn
of the loop between them. -/
structure BlkRates where
  limit₁ : Nat → Bool
  rate : Nat → Nat
  limit₂ : Nat → Bool

/-- A call of `block_save_live`: the sizes of the hard disks in sectors, the rate limit, whether
    output has failed by the time it is asked for, and what the devices answer. -/
structure SaveCall where
  stage : Int
  lengths : List Int
  rates : BlkRates
  outError₁ : Bool
  outError₂ : Bool
  allocated : Nat → Nat → Bool
  dirty : Nat → Nat → Bool
  reads : MigReads

/-! ### Reads -/

/-- `blk_mig_read_cb`, for a read in flight. -/
def blkMigReadCb (s : MigState) (i : Nat) (failed : Bool) : Option MigState :=
  match s.inFlight[i]? with
  | none => some s
  | some blk =>
    let s := { s with
      inFlight := s.inFlight.eraseIdx i
      blkList := s.blkList ++ [{ blk with failed := failed }]
      submitted := s.submitted - 1
      readDone := s.readDone + 1 }
    -- `assert(block_mig_state.submitted >= 0)`
    if s.submitted < 0 then none else some s

/-- The sector that a bulk read goes on with. -/
def nextSector (c : SaveCall) (d : MigDev) : Nat :=
  let total := d.totalSectors.toNat
  if d.sharedBase then skipUnallocated (c.allocated d.id) total (total - d.curSector) d.curSector
  else d.curSector

/-- The end of a block that begins at a sector. -/
def blockEnd (total cur : Nat) : Nat :=
  cur + if total - cur < BDRV_SECTORS_PER_DIRTY_CHUNK then total - cur
    else BDRV_SECTORS_PER_DIRTY_CHUNK

/-- A block that was read is sent and freed at once, or is in flight. -/
def submitBlock (s : MigState) (isAsync : Bool) (blk : MigBlock) : MigState :=
  if isAsync then { s with inFlight := s.inFlight ++ [blk], submitted := s.submitted + 1 }
  else { s with
    written := s.written ++ [.block blk.buf blk.dev blk.sector]
    freed := s.freed ++ [blk.buf] }

/-- `mig_save_device_bulk` -/
def migSaveDeviceBulk (c : SaveCall) (isAsync : Bool) (s : MigState) (reads : MigReads)
    (d : MigDev) : MigState × MigReads × MigDev × Bool :=
  let total := d.totalSectors
  let next := nextSector c d
  if total ≤ next then
    (s, reads, { d with curSector := total.toNat, completedSectors := total }, true)
  else
    let d := { d with completedSectors := next }
    let cur := chunkStart next
    let buf := s.nextBuf
    let s := { s with nextBuf := s.nextBuf + 1 }
    let read := reads.next
    if read.1 then
      let last := blockEnd total.toNat cur
      (submitBlock s isAsync ⟨buf, d.id, cur, false⟩, read.2, { d with curSector := last },
        decide (total ≤ last))
    else ({ s with fileError := true, freed := s.freed ++ [buf] }, read.2, d, false)

/-- The progress is written if it has changed. -/
def reportProgress (s : MigState) (completedSectorSum : Int) : Option MigState :=
  if s.totalSectorSum = 0 then none
  else
    -- the quotient is stored in an `int`
    let progress := ((completedSectorSum * 100).tdiv s.totalSectorSum).bmod 4294967296
    if progress = s.prevProgress then some s
    else some { s with prevProgress := progress, written := s.written ++ [.progress progress] }

/-- `blk_mig_save_bulked_block` -/
def blkMigSaveBulkedBlock (c : SaveCall) (isAsync : Bool) (s : MigState) (reads : MigReads) :
    Option ((MigState × MigReads) × Bool) :=
  let done := s.bmdsList.takeWhile MigDev.bulkCompleted
  let sum := (done.map MigDev.completedSectors).sum
  match s.bmdsList.dropWhile MigDev.bulkCompleted with
  | [] => (reportProgress s sum).map fun s => ((s, reads), false)
  | d :: ds =>
    let (s, reads, d, completed) := migSaveDeviceBulk c isAsync s reads d
    let d := { d with bulkCompleted := completed }
    (reportProgress { s with bmdsList := done ++ d :: ds } (sum + d.completedSectors)).map
      fun s => ((s, reads), true)

/-! ### The list of blocks -/

/-- `blk_send`, which asks the device of the block for its name. -/
def blkSend (s : MigState) (blk : MigBlock) : Option MigState :=
  if blk.dev ∈ s.bmdsList.map MigDev.id then
    some { s with written := s.written ++ [.block blk.buf blk.dev blk.sector] }
  else none

/-- The loop of `flush_blks` over the blocks that are left. -/
def flushBlksLoop (limit : Nat → Bool) : Nat → List MigBlock → MigState → Option MigState
  | _, [], s => some s
  | i, blk :: blks, s =>
    if limit i then some s
    else if blk.failed then some { s with fileError := true }
    else
      (blkSend s blk).bind fun s =>
        let s := { s with
          blkList := blks
          freed := s.freed ++ [blk.buf]
          readDone := s.readDone - 1 }
        -- `assert(block_mig_state.read_done >= 0)`
        if s.readDone < 0 then none else flushBlksLoop limit (i + 1) blks s

/-- `flush_blks` -/
def flushBlks (limit : Nat → Bool) (s : MigState) : Option MigState :=
  flushBlksLoop limit 0 s.blkList s

/-! ### Stages -/

/-- The devices that `init_blk_migration` allocates: those with a size. -/
def newDevices (sharedBase : Bool) : Nat → List Int → List MigDev
  | _, [] => []
  | id, sectors :: ls =>
    if sectors = 0 then newDevices sharedBase id ls
    else ⟨id, sharedBase, sectors, 0, 0, false⟩ :: newDevices sharedBase (id + 1) ls

/-- `init_blk_migration` -/
def initBlkMigration (s : MigState) (lengths : List Int) : MigState :=
  let devices := newDevices s.sharedBase s.nextDev lengths
  { s with
    submitted := 0
    readDone := 0
    prevProgress := -1
    totalSectorSum := lengths.sum
    bmdsList := s.bmdsList ++ devices
    nextDev := s.nextDev + devices.length
    -- a migration has a file of its own
    fileError := false }

/-- `blk_mig_cleanup` -/
def blkMigCleanup (s : MigState) : MigState :=
  { s with
    bmdsList := []
    freed := s.freed ++ s.blkList.map MigBlock.buf
    blkList := [] }

/-- The loop of `blk_mig_save_dirty_blocks`; an error ends it. -/
def saveDirtyLoop (c : SaveCall) : List (Nat × Nat) → MigReads → MigState → MigState
  | [], _, s => s
  | (dev, sector) :: l, reads, s =>
    if c.dirty dev sector then
      if reads.next.1 then
        saveDirtyLoop c l reads.next.2 { s with written := s.written ++ [.dirty dev sector] }
      else { s with fileError := true }
    else saveDirtyLoop c l reads s

/-- The chunks in front of `cur_sector`. -/
def MigDev.sentChunks (d : MigDev) : List (Nat × Nat) :=
  (List.range ((d.curSector + BDRV_SECTORS_PER_DIRTY_CHUNK - 1) / BDRV_SECTORS_PER_DIRTY_CHUNK)).map
    fun chunk => (d.id, chunk * BDRV_SECTORS_PER_DIRTY_CHUNK)

/-- `blk_mig_save_dirty_blocks`, which has a buffer of its own. -/
def blkMigSaveDirtyBlocks (c : SaveCall) (reads : MigReads) (s : MigState) : MigState :=
  let buf := s.nextBuf
  let s := saveDirtyLoop c (s.bmdsList.flatMap MigDev.sentChunks) reads
    { s with nextBuf := s.nextBuf + 1 }
  { s with freed := s.freed ++ [buf] }

/-- `is_stage2_completed` -/
def isStage2Completed (s : MigState) : Bool :=
  decide (s.submitted ≤ 0) && s.bmdsList.all MigDev.bulkCompleted

/-- The sectors that are left of a device, and one. -/
def MigDev.left (d : MigDev) : Nat :=
  if d.bulkCompleted then 0 else d.totalSectors.toNat - d.curSector + 1

/-- More turns than this are not made by the loops, unless reads fail from some time on. -/
def turns (s : MigState) (reads : MigReads) : Nat :=
  (s.bmdsList.map MigDev.left).sum + reads.results.length + 1

/-- A turn of the loop that controls the rate of transfer.  The limit is at most a tenth of a number
    of 32 bits, so that the `int` on the left does not overflow. -/
def asyncTurn (c : SaveCall) (p : MigState × MigReads × Nat) :
    Option ((MigState × MigReads × Nat) × Bool) :=
  let (s, reads, i) := p
  if (c.rates.rate i : Int) ≤ (s.submitted + s.readDone) * BLOCK_SIZE then some (p, false)
  else (blkMigSaveBulkedBlock c true s reads).map fun r => ((r.1.1, r.1.2, i + 1), r.2)

/-- The loop that reads blocks up to the rate limit. -/
def asyncLoop (c : SaveCall) (s : MigState) : Option (MigState × MigReads × Nat) :=
  loopFor (asyncTurn c) (turns s c.reads) (s, c.reads, 0)

/-- A turn of the loop of the last stage. -/
def syncTurn (c : SaveCall) (p : MigState × MigReads) : Option ((MigState × MigReads) × Bool) :=
  blkMigSaveBulkedBlock c false p.1 p.2

/-- The loop of the last stage, which reads the rest at once. -/
def syncLoop (c : SaveCall) (s : MigState) (reads : MigReads) : Option (MigState × MigReads) :=
  loopFor (syncTurn c) (turns s reads) (s, reads)

/-- The last stage, up to the cleanup. -/
def saveRest (c : SaveCall) (s : MigState) (reads : MigReads) : Option MigState :=
  (syncLoop c s reads).map fun p => blkMigSaveDirtyBlocks c p.2 p.1

/-- The start of a call: the first stage looks for devices, and blocks that were read are sent. -/
def saveStart (c : SaveCall) (s : MigState) : Option MigState :=
  (flushBlks c.rates.limit₁ (if c.stage = 1 then initBlkMigration s c.lengths else s)).map fun s =>
    { s with fileError := s.fileError || c.outError₁ }

/-- Reads are submitted as the rate limit allows, and blocks that were read are sent. -/
def saveBulk (c : SaveCall) (s : MigState) : Option (MigState × MigReads) :=
  (asyncLoop c s).bind fun p =>
    (flushBlks c.rates.limit₂ p.1).map fun s =>
      ({ s with fileError := s.fileError || c.outError₂ }, p.2.1)

/-- The end of a call. -/
def saveEnd (s : MigState) : MigState := { s with written := s.written ++ [.eos] }

/-- `block_save_live` -/
def blockSaveLive (s : MigState) (c : SaveCall) : Option (MigState × Bool) :=
  if c.stage < 0 then some (blkMigCleanup s, false)
  else if !s.blkEnable then some (saveEnd s, true)
  else
    (saveStart c s).bind fun s =>
      if s.fileError then some (blkMigCleanup s, false)
      else
        (saveBulk c s).bind fun p =>
          if p.1.fileError then some (blkMigCleanup p.1, false)
          else if c.stage = 3 then
            (saveRest c p.1 p.2).map fun s =>
              let s := blkMigCleanup s
              let s := { s with written := s.written ++ [.progress 100] }
              (if s.fileError then s else saveEnd s, false)
          else some (saveEnd p.1, decide (c.stage = 2) && isStage2Completed p.1)

/-! ### Operations -/

/-- A call of the migration, or a read that completes. -/
inductive MigOp
  | setParams (blkEnable sharedBase : Bool)
  | save (c : SaveCall)
  | readCb (i : Nat) (failed : Bool)

/-- One step, if it does not fault. -/
def MigOp.exec (s : MigState) : MigOp → Option MigState
  -- shared base means that `blk_enable` is 1
  | .setParams blkEnable sharedBase => some { s with
      blkEnable := blkEnable || sharedBase
      sharedBase := sharedBase }
  | .save c => (blockSaveLive s c).map Prod.fst
  | .readCb i failed => blkMigReadCb s i failed

/-- The static `block_mig_state` after `blk_mig_init`. -/
def migInit : MigState where
  blkEnable := false
  sharedBase := false
  bmdsList := []
  blkList := []
  submitted := 0
  readDone := 0
  totalSectorSum := 0
  prevProgress := 0
  inFlight := []
  freed := []
  nextBuf := 0
  nextDev := 0
  written := []
  fileError := false

end Qemu.Migration.Resources
