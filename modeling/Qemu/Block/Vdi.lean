import Qemu.Lib.BlockMap

namespace Qemu.Block

open Lib

/-!
# VDI images (`block/vdi.c`)

* `Vdi` — an image that is open: its block map and header, and the file, sector by sector;
* `vdiAioReadCb` — reads;
* `vdiAioWriteCb` — the callback of a write, which ends, or starts the next write to the file;
* `Vdi.land` — a write reaches the file;
* `vdiWrite` — a write that is alone;
* `vdiNew` — the image that `vdi_create` makes.

The host is little endian, and blocks are of 1 MiB, as `vdi_open` checks.  No I/O of the host
fails.
-/

/-! ### Images -/

/-- 512 bytes, the first of which is the least significant. -/
abbrev Sector := BitVec 4096

/-- `VDI_UNALLOCATED` -/
def VDI_UNALLOCATED : BitVec 32 := 0xffffffff

/-- `block_sectors` -/
def vdiBlockSectors : Nat := 2048

/-- Entries of the block map in a sector. -/
def vdiSectorEntries : Nat := 128

/-- `VdiHeader`; `other` are the fields that are not used. -/
structure VdiHeader where
  other : Sector
  offsetBmap : BitVec 32
  offsetData : BitVec 32
  blocksInImage : BitVec 32
  blocksAllocated : BitVec 32

/-- `BDRVVdiState`, and the file. -/
structure Vdi where
  bmap : Nat → BitVec 32
  header : VdiHeader
  hd : Nat → Sector

/-- `bmap_sector` -/
def Vdi.bmapSector (s : Vdi) : Nat := s.header.offsetBmap.toNat / 512

/-- The first sector behind the block map. -/
def Vdi.dataSector (s : Vdi) : Nat := s.header.offsetData.toNat / 512

/-- The number of blocks in the image. -/
def Vdi.blocks (s : Vdi) : Nat := s.header.blocksInImage.toNat

/-- The first sector of a block. -/
def Vdi.blockSector (s : Vdi) (entry : BitVec 32) : Nat :=
  s.dataSector + entry.toNat * vdiBlockSectors

/-- A field at an offset in bytes. -/
def sectorField (x : BitVec 32) (offset : Nat) : Sector := x.setWidth 4096 <<< (8 * offset)

/-- `vdi_header_to_le` -/
def vdiHeaderToLe (h : VdiHeader) : Sector :=
  h.other ||| sectorField h.offsetBmap 340 ||| sectorField h.offsetData 344 |||
    sectorField h.blocksInImage 384 ||| sectorField h.blocksAllocated 388

/-- A sector of the block map. -/
def vdiBmapSector (bmap : Nat → BitVec 32) (k : Nat) : Sector :=
  (List.range vdiSectorEntries).foldl
    (fun acc i => acc ||| sectorField (bmap (vdiSectorEntries * k + i)) (4 * i)) 0

/-! ### Reads -/

/-- The length of the next part of a request, which is in one block. -/
def vdiPart (sectorNum nbSectors : Nat) : Nat :=
  min (vdiBlockSectors - sectorNum % vdiBlockSectors) nbSectors

/-- `vdi_aio_read_cb`, until the request is completed. -/
def vdiAioReadCb (s : Vdi) : Nat → Nat → Nat → Option (List Sector)
  | 0, _, _ => none
  | fuel + 1, sectorNum, nbSectors =>
    if nbSectors = 0 then some []
    else
      let entry := s.bmap (sectorNum / vdiBlockSectors)
      let n := vdiPart sectorNum nbSectors
      let part :=
        if entry = VDI_UNALLOCATED then List.replicate n 0
        else bytesAt s.hd (s.blockSector entry + sectorNum % vdiBlockSectors) n
      (vdiAioReadCb s fuel (sectorNum + n) (nbSectors - n)).map (part ++ ·)

/-- `vdi_aio_readv` -/
def vdiRead (s : Vdi) (sectorNum nbSectors : Nat) : Option (List Sector) :=
  vdiAioReadCb s (nbSectors + 1) sectorNum nbSectors

/-! ### Writes -/

/-- A write to the file: a new block, sectors of a block, the header, or sectors of the block map,
    which are written as they are in memory by then. -/
inductive VdiIo
  | block (entry : BitVec 32) (data : List Sector)
  | data (offset : Nat) (data : List Sector)
  | header (sector : Sector)
  | bmap (first n : Nat)

/-- The write reaches the file. -/
def Vdi.land (s : Vdi) : VdiIo → Vdi
  | .block entry data => { s with hd := storeAt s.hd (s.blockSector entry) data }
  | .data offset data => { s with hd := storeAt s.hd offset data }
  | .header sector => { s with hd := storeAt s.hd 0 [sector] }
  | .bmap first n => { s with
      hd := storeAt s.hd (s.bmapSector + first)
        ((List.range n).map fun k => vdiBmapSector s.bmap (first + k)) }

/-- `VdiAIOCB`; `nb_sectors` is the length of `buf`. -/
structure VdiAcb where
  sectorNum : Nat
  buf : List Sector
  nSectors : Nat
  bmapFirst : Option Nat
  bmapLast : Nat
  blockBuffer : Option (Nat → Sector)
  headerModified : Bool

/-- `vdi_aio_setup` -/
def vdiAioSetup (sectorNum : Nat) (buf : List Sector) : VdiAcb where
  sectorNum := sectorNum
  buf := buf
  nSectors := 0
  bmapFirst := none
  bmapLast := 0
  blockBuffer := none
  headerModified := false

/-- The data is written: the header and the block map are left if blocks were allocated. -/
def vdiFinish (s : Vdi) (acb : VdiAcb) : VdiAcb × Option VdiIo :=
  if acb.headerModified then
    let header := vdiHeaderToLe s.header
    ({ acb with
      nSectors := 0
      headerModified := false
      blockBuffer := acb.blockBuffer.map fun block => storeAt block 0 [header] },
      some (.header header))
  else
    match acb.bmapFirst with
    | some first =>
      let first := first / vdiSectorEntries
      let last := acb.bmapLast / vdiSectorEntries
      ({ acb with nSectors := 0, bmapFirst := none, blockBuffer := none },
        some (.bmap first (last - first + 1)))
    | none => ({ acb with nSectors := 0 }, none)

/-- The next block of the file is given to a block of the image. -/
def Vdi.newBlock (s : Vdi) (block : Nat) : Vdi :=
  let entry := s.header.blocksAllocated
  { s with
    bmap := Function.update s.bmap block entry
    header := { s.header with blocksAllocated := entry + 1 } }

/-- A block is allocated.  The first one of a request takes a buffer that is filled with zeros, and
    the others take the same buffer. -/
def vdiAllocate (s : Vdi) (acb : VdiAcb) (block : Nat) : Vdi × VdiAcb × VdiIo :=
  let new := acb.blockBuffer.isNone
  let buffer := storeAt (acb.blockBuffer.getD fun _ => 0) (acb.sectorNum % vdiBlockSectors)
    (acb.buf.take acb.nSectors)
  (s.newBlock block,
    { acb with
      blockBuffer := some buffer
      bmapFirst := if new then some block else acb.bmapFirst
      headerModified := acb.headerModified || new
      bmapLast := block },
    .block s.header.blocksAllocated (bytesAt buffer 0 vdiBlockSectors))

/-- The next part of the data is written. -/
def vdiWritePart (s : Vdi) (acb : VdiAcb) : Vdi × VdiAcb × VdiIo :=
  let block := acb.sectorNum / vdiBlockSectors
  let acb := { acb with nSectors := vdiPart acb.sectorNum acb.buf.length }
  let entry := s.bmap block
  if entry = VDI_UNALLOCATED then vdiAllocate s acb block
  else
    (s, acb, .data (s.blockSector entry + acb.sectorNum % vdiBlockSectors)
      (acb.buf.take acb.nSectors))

/-- The part that was written is left behind. -/
def VdiAcb.advance (acb : VdiAcb) : VdiAcb :=
  { acb with sectorNum := acb.sectorNum + acb.nSectors, buf := acb.buf.drop acb.nSectors }

/-- `vdi_aio_write_cb` -/
def vdiAioWriteCb (s : Vdi) (acb : VdiAcb) : Vdi × VdiAcb × Option VdiIo :=
  let acb := acb.advance
  if acb.buf.length = 0 then (s, (vdiFinish s acb).1, (vdiFinish s acb).2)
  else
    let r := vdiWritePart s acb
    (r.1, r.2.1, some r.2.2)

/-- A request that is alone: its writes reach the file one by one. -/
def vdiWriteLoop : Nat → Vdi → VdiAcb → Option Vdi
  | 0, _, _ => none
  | fuel + 1, s, acb =>
    match vdiAioWriteCb s acb with
    | (s, _, none) => some s
    | (s, acb, some io) => vdiWriteLoop fuel (s.land io) acb

/-- `vdi_aio_writev`.  There is a write for each part of the data, and two more at the end. -/
def vdiWrite (s : Vdi) (sectorNum : Nat) (buf : List Sector) : Option Vdi :=
  vdiWriteLoop (buf.length + 3) s (vdiAioSetup sectorNum buf)

/-! ### New images -/

/-- The sectors of the block map. -/
def vdiBmapSectors (blocks : Nat) : Nat := (blocks * 4 + 511) / 512

/-- The image that `vdi_create` makes, opened.  `other` are the fields of the header that do not
    change. -/
def vdiNew (other : Sector) (blocks : Nat) : Vdi :=
  let bmap := fun i => if i < blocks then VDI_UNALLOCATED else 0
  let header : VdiHeader := {
    other := other
    offsetBmap := 0x200
    offsetData := BitVec.ofNat 32 (0x200 + vdiBmapSectors blocks * 512)
    blocksInImage := BitVec.ofNat 32 blocks
    blocksAllocated := 0 }
  { bmap := bmap
    header := header
    hd := storeAt (fun _ => 0) 0
      (vdiHeaderToLe header :: (List.range (vdiBmapSectors blocks)).map (vdiBmapSector bmap)) }

end Qemu.Block
