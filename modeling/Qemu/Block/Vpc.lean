import Qemu.Lib.BlockMap
import Qemu.Lib.Runs

namespace Qemu.Block

open Lib

/-!
# VPC images (`block/vpc.c`)

* `VpcFile` — the file of an image, in sectors, with writes that may fail;
* `vpcFooter`, `vpcAccepts` — footers and their checksums;
* `Vpc` — an image that is open;
* `getSectorOffset`, `allocBlock`, `vpcRead`, `vpcWrite` — reads and writes of the image;
* `vpcNew` — the image that `vpc_create` makes.

Offsets in the file are multiples of 512 and are counted in sectors.  The header of dynamic disks is
left out: it is read when an image is opened, and not after that.
-/

/-! ### Files -/

/-- 512 bytes. -/
abbrev VpcSector := List (BitVec 8)

/-- A sector of zeroes. -/
def vpcZero : VpcSector := List.replicate 512 0

/-- The file of an image, its length, and the number of writes to it that failed.  Behind its end it
    reads as zeros. -/
structure VpcFile where
  content : Nat → VpcSector
  size : Nat
  failures : Nat

/-- `bdrv_pwrite` of a sector.  `left` is what the sector holds if the write fails. -/
def VpcFile.pwrite (f : VpcFile) (offset : Nat) (x : VpcSector) (left : Option VpcSector) :
    VpcFile where
  content := storeAt f.content offset [left.getD x]
  size := max f.size (offset + 1)
  failures := if left.isSome then f.failures + 1 else f.failures

/-! ### Footers -/

/-- The big endian bytes of a number. -/
def vpcBe (n x : Nat) : List (BitVec 8) :=
  (List.range n).map fun i => BitVec.ofNat 8 (x >>> (8 * (n - 1 - i)))

/-- `vpc_checksum` -/
def vpcChecksum (buf : List (BitVec 8)) : BitVec 32 :=
  ~~~buf.foldl (fun res byte => res + byte.setWidth 32) 0

/-- What an image is made with. -/
structure VpcParams where
  timestamp : BitVec 32
  cyls : BitVec 16
  heads : BitVec 8
  secsPerCyl : BitVec 8

/-- `total_sectors` -/
def VpcParams.totalSectors (p : VpcParams) : Nat :=
  p.cyls.toNat * p.heads.toNat * p.secsPerCyl.toNat

/-- `struct vhd_footer` in front of the checksum. -/
def vpcFooterFront (p : VpcParams) : List (BitVec 8) :=
  [0x63, 0x6f, 0x6e, 0x65, 0x63, 0x74, 0x69, 0x78] ++ -- creator
  vpcBe 4 0x02 ++ -- features
  vpcBe 4 0x00010000 ++ -- version
  vpcBe 8 512 ++ -- data_offset
  vpcBe 4 p.timestamp.toNat ++
  [0x71, 0x65, 0x6d, 0x75] ++ -- creator_app
  vpcBe 2 0x0005 ++ vpcBe 2 0x0003 ++ -- major, minor
  [0x57, 0x69, 0x32, 0x6b] ++ -- creator_os
  vpcBe 8 (p.totalSectors * 512) ++ -- orig_size
  vpcBe 8 (p.totalSectors * 512) ++ -- size
  vpcBe 2 p.cyls.toNat ++ [p.heads, p.secsPerCyl] ++
  vpcBe 4 3 -- type

/-- A footer with a checksum. -/
def vpcFooterWith (p : VpcParams) (checksum : BitVec 32) : VpcSector :=
  vpcFooterFront p ++ (vpcBe 4 checksum.toNat ++ List.replicate 444 0)

/-- The footer that `vpc_create` writes. -/
def vpcFooter (p : VpcParams) : VpcSector :=
  vpcFooterWith p (vpcChecksum (vpcFooterWith p 0))

/-- The check of `vpc_open`, which takes the checksum out of the footer. -/
def vpcAccepts (footer : VpcSector) : Prop :=
  (footer.drop 64).take 4 =
    vpcBe 4 (vpcChecksum (footer.take 64 ++ (vpcBe 4 0 ++ footer.drop 68))).toNat

/-! ### Images -/

/-- An entry of the table without a block. -/
def VPC_UNALLOCATED : BitVec 32 := 0xffffffff

/-- The sectors of a block. -/
def vpcBlockSectors : Nat := 4096

/-- The sectors of a bitmap, which is in front of its block. -/
def vpcBitmapSectors : Nat := 1

/-- The first sector of the block allocation table. -/
def vpcBatSector : Nat := 3

/-- `BDRVVPCState` -/
structure Vpc where
  footerBuf : VpcSector
  freeDataBlock : Nat
  maxTableEntries : Nat
  totalSectors : Nat
  pagetable : Nat → BitVec 32
  lastBitmap : Option Nat
  file : VpcFile

/-- What the writes to the file come to that a sector of a request needs: what each of them leaves
    there if it fails. -/
structure VpcHost where
  bitmap : Option VpcSector
  footer : Option VpcSector
  table : Option VpcSector
  data : Option VpcSector

/-- No write fails. -/
def VpcHost.ok : VpcHost where
  bitmap := none
  footer := none
  table := none
  data := none

/-- A write to the file of an image. -/
def Vpc.pwrite (s : Vpc) (offset : Nat) (x : VpcSector) (left : Option VpcSector) : Vpc :=
  { s with file := s.file.pwrite offset x left }

/-- A bitmap in which all sectors are used. -/
def vpcBitmap : VpcSector := List.replicate 512 0xff

/-- `get_sector_offset` -/
def getSectorOffset (s : Vpc) (sectorNum : Nat) (write : Bool) (host : VpcHost) :
    Vpc × Option Nat :=
  let index := sectorNum / vpcBlockSectors
  if s.maxTableEntries ≤ index ∨ s.pagetable index = VPC_UNALLOCATED then (s, none)
  else
    let bitmapOffset := (s.pagetable index).toNat
    let s :=
      if write ∧ s.lastBitmap ≠ some bitmapOffset then
        { s with lastBitmap := some bitmapOffset }.pwrite bitmapOffset vpcBitmap host.bitmap
      else s
    (s, some (bitmapOffset + vpcBitmapSectors + sectorNum % vpcBlockSectors))

/-- The sector of the block allocation table with one entry changed. -/
def vpcBatUpdate (old : VpcSector) (index : Nat) (entry : BitVec 32) : VpcSector :=
  old.take (4 * index % 512) ++ (vpcBe 4 entry.toNat ++ old.drop (4 * index % 512 + 4))

/-- `rewrite_footer` -/
def rewriteFooter (s : Vpc) (host : VpcHost) : Vpc :=
  s.pwrite s.freeDataBlock s.footerBuf host.footer

/-- The entry in memory, the bitmap and the new footer of `alloc_block`. -/
def Vpc.takeBlock (s : Vpc) (index : Nat) (host : VpcHost) : Vpc :=
  let s := { s with
    pagetable := Function.update s.pagetable index (BitVec.ofNat 32 s.freeDataBlock) }
  let s := s.pwrite s.freeDataBlock vpcBitmap host.bitmap
  let s := { s with freeDataBlock := s.freeDataBlock + (vpcBlockSectors + vpcBitmapSectors) }
  rewriteFooter s host

/-- The entry on disk of `alloc_block`. -/
def Vpc.writeEntry (s : Vpc) (index : Nat) (host : VpcHost) : Vpc :=
  let batSector := vpcBatSector + 4 * index / 512
  s.pwrite batSector (vpcBatUpdate (s.file.content batSector) index (s.pagetable index)) host.table

/-- The end of `alloc_block` if it fails: what was added to the offset is subtracted. -/
def Vpc.freeBlock (s : Vpc) (old : Nat) : Vpc := { s with freeDataBlock := old }

/-- `alloc_block` -/
def allocBlock (s : Vpc) (sectorNum : Nat) (host : VpcHost) : Vpc × Option Nat :=
  if s.totalSectors < sectorNum then (s, none)
  else
    let index := sectorNum / vpcBlockSectors
    if s.pagetable index ≠ VPC_UNALLOCATED then (s, none)
    else
      let old := s.freeDataBlock
      let s := s.takeBlock index host
      if host.footer.isSome then (s.freeBlock old, none)
      else
        let s := s.writeEntry index host
        if host.table.isSome then (s.freeBlock old, none)
        else getSectorOffset s sectorNum false host

/-- A round of `vpc_write`. -/
def vpcWriteSector (s : Vpc) (sectorNum : Nat) (x : VpcSector) (host : VpcHost) : Vpc × Bool :=
  match getSectorOffset s sectorNum true host with
  | (s, some offset) => (s.pwrite offset x host.data, host.data.isNone)
  | (s, none) =>
    match allocBlock s sectorNum host with
    | (s, some offset) => (s.pwrite offset x host.data, host.data.isNone)
    | (s, none) => (s, false)

/-- `vpc_write`, which is left at the first error. -/
def vpcWrite (s : Vpc) (sectorNum : Nat) : List (VpcSector × VpcHost) → Vpc × Bool
  | [] => (s, true)
  | (x, host) :: rest =>
    match vpcWriteSector s sectorNum x host with
    | (s, true) => vpcWrite s (sectorNum + 1) rest
    | (s, false) => (s, false)

/-- `vpc_read` -/
def vpcRead (s : Vpc) (sectorNum : Nat) : Nat → List VpcSector
  | 0 => []
  | n + 1 =>
    (match (getSectorOffset s sectorNum false .ok).2 with
      | none => vpcZero
      | some offset => s.file.content offset) :: vpcRead s (sectorNum + 1) n

/-! ### New images -/

/-- `num_bat_entries` -/
def VpcParams.batEntries (p : VpcParams) : Nat :=
  (p.totalSectors + vpcBlockSectors) / vpcBlockSectors

/-- The first sector behind the block allocation table. -/
def VpcParams.firstFree (p : VpcParams) : Nat :=
  vpcBatSector + (p.batEntries * 4 + 511) / 512

/-- The image that `vpc_create` makes, opened. -/
def vpcNew (p : VpcParams) : Vpc where
  footerBuf := vpcFooterWith p 0
  freeDataBlock := p.firstFree
  maxTableEntries := p.batEntries
  totalSectors := p.totalSectors
  pagetable := fun _ => VPC_UNALLOCATED
  lastBitmap := none
  file := {
    content := fun k =>
      if k = 0 ∨ k = p.firstFree then vpcFooter p
      else if vpcBatSector ≤ k ∧ k < p.firstFree then List.replicate 512 0xff
      else vpcZero
    size := p.firstFree + 1
    failures := 0 }

end Qemu.Block
