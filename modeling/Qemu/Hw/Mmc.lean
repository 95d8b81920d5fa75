import Qemu.Lib.WordMem

namespace Qemu.Hw

open Lib

/-!
# Transfers of the MMC controller of the S5PC1XX (`hw/s5pc1xx_mmc.c`)

The card takes and gives single bytes, and the memory of the guest is accessed in words.

* `mmcReadByte`, `mmcWriteByte` — a byte goes into a word, or out of it;
* `mmcBlocks` — the loop over the blocks, with the countdown to the boundary;
* `mmcFifoRun`, `mmcWriteSysad` — a transfer is started by a command, and resumed through SYSAD;
* `MmcXfer.call` — what such a call is for: the blocks up to the boundary, byte by byte;
* `Mmc.Right` — each call of a transfer does it.
-/

/-! ### Constants -/

/-- `S5C_HSMMC_TRNS_READ` -/
def S5C_HSMMC_TRNS_READ : BitVec 16 := 0x10

/-- `S5C_HSMMC_NIS_TRSCMP` -/
def S5C_HSMMC_NIS_TRSCMP : BitVec 16 := 0x2

/-- `S5C_HSMMC_NIS_DMA` -/
def S5C_HSMMC_NIS_DMA : BitVec 16 := 0x8

/-! ### State -/

/-- The card as the controller uses it: the bytes that it gives, how many of them it gave, and the
    bytes that it took. -/
structure MmcCard where
  ready : Bool
  input : Nat → Byte
  taken : Nat
  output : List Byte

/-- `sd_read_data` -/
def MmcCard.readData (c : MmcCard) : Byte × MmcCard :=
  (c.input c.taken, { c with taken := c.taken + 1 })

/-- `sd_write_data` -/
def MmcCard.writeData (c : MmcCard) (value : Byte) : MmcCard :=
  { c with output := c.output ++ [value] }

/-- What a transfer uses of `S5pc1xxMMCState`, and the memory of the guest. -/
structure Mmc where
  sysad : BitVec 32
  blksize : BitVec 16
  blkcnt : BitVec 16
  trnmod : BitVec 16
  norintsts : BitVec 16
  norintstsen : BitVec 16
  dmaTranscpt : BitVec 8
  irq : Bool
  card : MmcCard
  mem : BitVec 32 → Byte

/-! ### Words -/

/-- A byte of a word. -/
def wordByte (value : BitVec 32) (i : Nat) : Byte :=
  (value >>> (8 * i)).setWidth 8

/-- `mmc_fifo_push` -/
def mmcFifoPush (s : Mmc) (pos value : BitVec 32) : Mmc :=
  { s with mem := memStore s.mem (s.sysad + pos) ((List.range 4).map (wordByte value)) }

/-- `mmc_fifo_pop` -/
def mmcFifoPop (s : Mmc) (pos : BitVec 32) : BitVec 32 :=
  let x := fun i => s.mem (s.sysad + pos + BitVec.ofNat 32 i)
  x 3 ++ x 2 ++ x 1 ++ x 0

/-- The word that a loop holds, the number of its bytes, and its place in the block. -/
structure MmcWord where
  value : BitVec 32
  n : Nat
  pos : BitVec 32

/-- A turn of the loop that reads: a byte goes into the word, and a full word is stored. -/
def mmcReadByte (s : Mmc) (w : MmcWord) : Mmc × MmcWord :=
  let (x, card) := s.card.readData
  let value := w.value ||| x.setWidth 32 <<< (w.n * 8)
  if w.n + 1 = 4 then (mmcFifoPush { s with card := card } w.pos value, ⟨0, 0, w.pos + 4⟩)
  else ({ s with card := card }, ⟨value, w.n + 1, w.pos⟩)

/-- The word that the next byte comes out of. -/
def mmcRefill (s : Mmc) (w : MmcWord) : MmcWord :=
  if w.n = 0 then ⟨mmcFifoPop s w.pos, 4, w.pos + 4⟩ else w

/-- The shift is arithmetic where the word is an `int`. -/
def mmcWriteByte (shift : BitVec 32 → BitVec 32) (s : Mmc) (w : MmcWord) : Mmc × MmcWord :=
  let w := mmcRefill s w
  ({ s with card := s.card.writeData ((w.value &&& 0xff).setWidth 8) },
    ⟨shift w.value, w.n - 1, w.pos⟩)

/-! ### Blocks -/

/-- The transfer is a read. -/
def Mmc.isRead (s : Mmc) : Bool :=
  s.trnmod &&& S5C_HSMMC_TRNS_READ != 0

/-- `blksize & 0x0fff` -/
def Mmc.size (s : Mmc) : Nat :=
  (s.blksize &&& 0x0fff).toNat

/-- `dma_mask_flag`: boundary interrupts are enabled. -/
def Mmc.dma (s : Mmc) : Bool :=
  s.norintstsen &&& 0x8 != 0

/-- `boundary_chk` -/
def Mmc.boundaryChk (s : Mmc) : BitVec 32 :=
  1 <<< ((s.blksize &&& 0xf000).toNat / 2 ^ 12 + 12)

/-- The bytes of a block. -/
def mmcBytes (shift : BitVec 32 → BitVec 32) (isRead : Bool) : Nat → Mmc → MmcWord → Mmc × MmcWord
  | 0, s, w => (s, w)
  | datacnt + 1, s, w =>
    let r := if isRead then mmcReadByte s w else mmcWriteByte shift s w
    mmcBytes shift isRead datacnt r.1 r.2

/-- A block; the word is carried over from the one before. -/
def mmcBlock (shift : BitVec 32 → BitVec 32) (isRead : Bool) (size : Nat) (s : Mmc) (w : MmcWord) :
    Mmc × MmcWord :=
  let r := mmcBytes shift isRead size s { w with pos := 0 }
  ({ r.1 with sysad := r.1.sysad + BitVec.ofNat 32 size }, r.2)

/-- The blocks up to the boundary, or to the last one; the second value is how many are left. -/
def mmcBlocks (shift : BitVec 32 → BitVec 32) (isRead dma : Bool) (size : Nat) :
    Nat → BitVec 32 → Mmc → MmcWord → Mmc × Nat
  | 0, _, s, _ => (s, 0)
  | blkcnt + 1, boundary, s, w =>
    let r := mmcBlock shift isRead size s w
    let boundary := boundary - BitVec.ofNat 32 size
    if boundary = 0 ∧ dma then (r.1, blkcnt)
    else mmcBlocks shift isRead dma size blkcnt boundary r.1 r.2

/-- The loop that starting and resuming have in common. -/
def mmcMultiBlock (shift : BitVec 32 → BitVec 32) (s : Mmc) : Mmc :=
  let r := mmcBlocks shift s.isRead s.dma s.size s.blkcnt.toNat
    (s.boundaryChk - s.sysad % s.boundaryChk) s ⟨0, 0, 0⟩
  { r.1 with blkcnt := BitVec.ofNat 16 r.2 }

/-! ### Calls -/

/-- `mmc_fifo_run` -/
def mmcFifoRun (s : Mmc) : Mmc :=
  if s.blkcnt ≠ 0 ∧ (!s.isRead || s.card.ready) then
    if 1 < s.blkcnt then
      let s := mmcMultiBlock (· >>> 8) s
      if s.blkcnt = 0 then { s with norintsts := s.norintsts ||| S5C_HSMMC_NIS_TRSCMP }
      else { s with norintsts := s.norintsts ||| S5C_HSMMC_NIS_DMA }
    else
      let r := mmcBytes (· >>> 8) s.isRead s.size s ⟨0, 0, 0⟩
      { r.1 with
        blkcnt := r.1.blkcnt - 1, norintsts := r.1.norintsts ||| S5C_HSMMC_NIS_TRSCMP }
  else s

/-- `mmc_dmaInt` -/
def mmcDmaInt (s : Mmc) : Mmc :=
  if s.dmaTranscpt = 1 then
    { s with norintsts := s.norintsts ||| S5C_HSMMC_NIS_TRSCMP, irq := true }
  else { s with norintsts := s.norintsts ||| S5C_HSMMC_NIS_DMA, irq := true }

/-- `mmc_writel`, of SYSAD -/
def mmcWriteSysad (s : Mmc) (value : BitVec 32) : Mmc :=
  let s := { s with sysad := value }
  if s.blkcnt ≠ 0 then
    let s := mmcMultiBlock (BitVec.sshiftRight · 8) s
    mmcDmaInt { s with dmaTranscpt := if s.blkcnt = 0 then 1 else 0 }
  else s

/-- The guest resumes a transfer where it paused. -/
def mmcResume (s : Mmc) : Mmc :=
  mmcWriteSysad s s.sysad

/-! ### What a transfer is for -/

/-- What a transfer moves: the memory, what the card gave and took, the address and the number of
    blocks that are left. -/
structure MmcXfer where
  mem : BitVec 32 → Byte
  taken : Nat
  output : List Byte
  sysad : BitVec 32
  left : Nat

/-- Where the transfer is. -/
def Mmc.xfer (s : Mmc) : MmcXfer where
  mem := s.mem
  taken := s.card.taken
  output := s.card.output
  sysad := s.sysad
  left := s.blkcnt.toNat

/-- From an address to the next multiple of the boundary. -/
def toBoundary (chk : Nat) (sysad : BitVec 32) : Nat :=
  chk - sysad.toNat % chk

/-- How many blocks a call transfers: with boundary interrupts those up to the one with which the
    address reaches or crosses the boundary, otherwise all. -/
def pauseAfter (dma : Bool) (size chk : Nat) (x : MmcXfer) : Nat :=
  if dma then min x.left ((toBoundary chk x.sysad + (size - 1)) / size) else x.left

/-- Successive bytes of the card. -/
def nextBytes (input : Nat → Byte) (taken n : Nat) : List Byte :=
  (List.range n).map fun i => input (taken + i)

/-- Bytes of the card go to successive addresses, or the other way around. -/
def MmcXfer.move (x : MmcXfer) (isRead : Bool) (input : Nat → Byte) (bytes : Nat) : MmcXfer :=
  if isRead then
    { x with
      mem := memStore x.mem x.sysad (nextBytes input x.taken bytes)
      taken := x.taken + bytes
      sysad := x.sysad + BitVec.ofNat 32 bytes }
  else
    { x with
      output := x.output ++ memBytes x.mem x.sysad bytes
      sysad := x.sysad + BitVec.ofNat 32 bytes }

/-- A call transfers its blocks. -/
def MmcXfer.call (isRead dma : Bool) (size chk : Nat) (input : Nat → Byte) (x : MmcXfer) :
    MmcXfer :=
  let blocks := pauseAfter dma size chk x
  { x.move isRead input (blocks * size) with
    left := x.left - blocks }

/-- The calls of a transfer, from the registers that set it up. -/
def Mmc.call (s : Mmc) : MmcXfer → MmcXfer :=
  MmcXfer.call s.isRead s.dma s.size s.boundaryChk.toNat s.card.input

/-- A transfer is right: however often it was resumed, its calls did what they are for. -/
def Mmc.Right (s : Mmc) : Prop :=
  ∀ resumes : Nat, (mmcResume^[resumes] (mmcFifoRun s)).xfer = s.call^[resumes + 1] s.xfer

end Qemu.Hw
