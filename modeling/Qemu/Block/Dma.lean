import Qemu.Lib.Runs
import Mathlib.Algebra.Ring.Nat

namespace Qemu.Block

open Qemu.Lib

/-!
# DMA between guest memory and a disk (`dma-helpers.c`)

`dma_bdrv_io` maps as much of a scatter list as it can, hands it to the block driver and goes on
from the completion callback, `dma_bdrv_cb`, until the list is through.

* `dmaBdrvCb`, `dmaMapped`, `dmaLeave` — the callback, split where it calls out;
* `DmaAction`, `DmaAction.exec` — what the memory, the driver and the caller may do, one at a time.
-/

/-- `ScatterGatherEntry`, and a piece of an I/O vector by the guest memory it is a mapping of. -/
structure ScatterGatherEntry where
  base : Nat
  len : Nat
deriving DecidableEq, Repr

/-- The arguments of `dma_bdrv_io`. -/
structure DmaRequest where
  sg : List ScatterGatherEntry
  sectorNum : Nat
  isWrite : Bool
deriving DecidableEq, Repr

/-- `DMAAIOCB` -/
structure DmaAiocb where
  acb : Option Nat
  sectorNum : Nat
  sgCurIndex : Nat
  sgCurByte : Nat
  iov : List ScatterGatherEntry
deriving DecidableEq, Repr

/-- The `size` of an I/O vector. -/
def iovSize (iov : List ScatterGatherEntry) : Nat := (iov.map ScatterGatherEntry.len).sum

/-- A request to the driver. -/
structure DmaChunk where
  isWrite : Bool
  sectorNum : Nat
  iov : List ScatterGatherEntry
  nbSectors : Nat
deriving DecidableEq, Repr

/-- The transfer of a byte between an offset on the disk and an address in memory. -/
structure Move where
  toDisk : Bool
  offset : Nat
  addr : Nat
deriving DecidableEq, Repr

/-- The transfer of some bytes of memory to or from consecutive bytes of the disk. -/
def moves (toDisk : Bool) : Nat → List Nat → List Move
  | _, [] => []
  | offset, addr :: addrs => ⟨toDisk, offset, addr⟩ :: moves toDisk (offset + 1) addrs

/-- The addresses of the bytes of a scatter list or I/O vector. -/
def sgBytes (sg : List ScatterGatherEntry) : List Nat :=
  sg.flatMap fun e => List.range' e.base e.len

/-- What the driver transfers: as many sectors as it was told, from the start of the vector. -/
def DmaChunk.moves (c : DmaChunk) : List Move :=
  Block.moves c.isWrite (512 * c.sectorNum) ((sgBytes c.iov).take (512 * c.nbSectors))

/-- Where control is: before `dma_bdrv_io`, in the loop of `dma_bdrv_cb`, in `bdrv_aio_readv` or
    `bdrv_aio_writev`, or elsewhere. -/
inductive DmaPc
  | entry | mapping | driver | idle
deriving DecidableEq, Repr

/-- A DMA request.  `dbs` is there until it is released; `frames` are the driver's requests whose
    submission has not returned, the last one first; `result` is whether `dma_bdrv_io` returned a
    control block. -/
structure Dma where
  dbs : Option DmaAiocb
  releases : Nat
  pc : DmaPc
  frames : List Nat
  result : Option Bool
  nextAcb : Nat
  inFlight : Option (Nat × DmaChunk)
  client : Bool
  bh : Bool
  maps : List ScatterGatherEntry
  unmaps : List ScatterGatherEntry
  calls : List Int
  moved : List Move
deriving DecidableEq, Repr

/-- The control block `dma_bdrv_io` allocates. -/
def Dma.start (req : DmaRequest) : Dma where
  dbs := some ⟨none, req.sectorNum, 0, 0, []⟩
  releases := 0
  pc := .entry
  frames := []
  result := none
  nextAcb := 0
  inFlight := none
  client := false
  bh := false
  maps := []
  unmaps := []
  calls := []
  moved := []

/-! ### The functions -/

/-- `dma_bdrv_unmap` -/
def dmaBdrvUnmap (dbs : DmaAiocb) (s : Dma) : Dma := { s with unmaps := s.unmaps ++ dbs.iov }

/-- The return from `dma_bdrv_cb`: to the driver that called it while a request was submitted, to
    `dma_bdrv_io`, which looks at `dbs->acb`, or to the main loop. -/
def dmaLeave (s : Dma) : Option Dma :=
  match s.frames, s.result with
  | _ :: _, _ => some { s with pc := .driver }
  | [], some _ => some { s with pc := .idle }
  | [], none => s.dbs.map fun dbs =>
    if dbs.acb = none then
      { s with dbs := none, releases := s.releases + 1, result := some false, pc := .idle }
    else { s with result := some true, pc := .idle }

/-- `dma_bdrv_cb` up to the loop. -/
def dmaBdrvCb (req : DmaRequest) (ret : Int) (s : Dma) : Option Dma :=
  s.dbs.bind fun dbs =>
    let s := dmaBdrvUnmap dbs s
    let dbs := { dbs with
      acb := none, sectorNum := dbs.sectorNum + iovSize dbs.iov / 512, iov := [] }
    if dbs.sgCurIndex = req.sg.length ∨ ret < 0 then
      dmaLeave { s with calls := s.calls ++ [ret], dbs := none, releases := s.releases + 1 }
    else some { s with dbs := some dbs, pc := .mapping }

/-- `dma_bdrv_cb` behind the loop: the driver is called, or `cpu_register_map_client`. -/
def dmaMapped (req : DmaRequest) (dbs : DmaAiocb) (s : Dma) : Option Dma :=
  if iovSize dbs.iov = 0 then dmaLeave { s with dbs := some dbs, client := true }
  else some { s with
    dbs := some dbs
    inFlight := some (s.nextAcb, ⟨req.isWrite, dbs.sectorNum, dbs.iov, iovSize dbs.iov / 512⟩)
    frames := s.nextAcb :: s.frames
    nextAcb := s.nextAcb + 1
    pc := .driver }

/-- The cursor after a mapping of `len` bytes of the entry `e`. -/
def dmaAdvance (dbs : DmaAiocb) (e : ScatterGatherEntry) (len : Nat) : DmaAiocb :=
  let dbs := { dbs with
    iov := dbs.iov ++ [⟨e.base + dbs.sgCurByte, len⟩], sgCurByte := dbs.sgCurByte + len }
  if dbs.sgCurByte = e.len then { dbs with sgCurByte := 0, sgCurIndex := dbs.sgCurIndex + 1 }
  else dbs

/-- An iteration of the loop; `cpu_physical_memory_map` maps `len` bytes or returns `NULL`. -/
def dmaMap (req : DmaRequest) (len : Option Nat) (dbs : DmaAiocb) (s : Dma) : Option Dma :=
  match len, req.sg[dbs.sgCurIndex]? with
  | some len, some e =>
    let s := { s with maps := s.maps ++ [⟨e.base + dbs.sgCurByte, len⟩] }
    let dbs := dmaAdvance dbs e len
    if dbs.sgCurIndex < req.sg.length then some { s with dbs := some dbs } else dmaMapped req dbs s
  | _, _ => dmaMapped req dbs s

/-- `dma_aio_cancel`; to cancel a request that the driver no longer has is a fault. -/
def dmaAioCancel (s : Dma) : Option Dma :=
  s.dbs.bind fun dbs =>
    match dbs.acb with
    | none => some s
    | some acb =>
      if s.inFlight.map Prod.fst = some acb then some { s with inFlight := none } else none

/-! ### Actions -/

/-- `dma_bdrv_io` is called; memory is mapped or not; the driver accepts a request, refuses it or
    completes one; the map client is called and its bottom half run; the caller cancels. -/
inductive DmaAction
  | start
  | map (len : Option Nat)
  | accept
  | refuse
  | complete (ret : Int)
  | notify
  | runBh
  | cancel
deriving DecidableEq, Repr

/-- Control is outside, where the driver, bottom halves and the caller may run. -/
def Dma.Outside (s : Dma) : Prop := s.pc = .driver ∨ s.pc = .idle

instance Dma.decidableOutside (s : Dma) : Decidable s.Outside := by
  unfold Dma.Outside
  infer_instance

/-- What the environment may do.  A mapping is no longer than asked for, and a driver does not
    refuse a request it has completed. -/
def DmaAction.Possible (req : DmaRequest) (s : Dma) : DmaAction → Prop
  | .start => s.pc = .entry
  | .map len => s.pc = .mapping ∧ ∀ dbs ∈ s.dbs, ∀ e ∈ req.sg[dbs.sgCurIndex]?, ∀ l ∈ len,
    dbs.sgCurByte + l ≤ e.len
  | .accept => s.pc = .driver
  | .refuse => s.pc = .driver ∧ s.frames.head? = s.inFlight.map Prod.fst
  | .complete _ => s.Outside ∧ s.inFlight.isSome
  | .notify => s.Outside ∧ s.client
  | .runBh => s.Outside ∧ s.bh
  | .cancel => s.Outside ∧ s.result = some true ∧ s.calls = []

/-- One step, if it does not fault. -/
def DmaAction.exec (req : DmaRequest) (s : Dma) : DmaAction → Option Dma
  | .start => dmaBdrvCb req 0 s
  | .map len => s.dbs.bind fun dbs => dmaMap req len dbs s
  | .accept => s.dbs.bind fun dbs =>
    dmaLeave { s with dbs := some { dbs with acb := s.frames.head? }, frames := s.frames.tail }
  | .refuse => s.dbs.bind fun dbs =>
    dmaLeave (dmaBdrvUnmap dbs
      { s with dbs := some { dbs with acb := none }, inFlight := none, frames := s.frames.tail })
  | .complete ret => s.inFlight.bind fun (_, c) =>
    dmaBdrvCb req ret
      { s with inFlight := none, moved := if ret < 0 then s.moved else s.moved ++ c.moves }
  | .notify => s.dbs.map fun _ => { s with client := false, bh := true }
  | .runBh => dmaBdrvCb req 0 { s with bh := false }
  | .cancel => dmaAioCancel s

instance DmaAction.decidablePossible (req : DmaRequest) (s : Dma) (a : DmaAction) :
    Decidable (a.Possible req s) := by
  unfold DmaAction.Possible
  cases a <;> infer_instance

/-! ### Requests that go well -/

/-- The mapping ends the loop. -/
def DmaAiocb.EndsLoop (req : DmaRequest) (dbs : DmaAiocb) : Option Nat → Prop
  | none => True
  | some len => ∃ e ∈ req.sg[dbs.sgCurIndex]?, dbs.sgCurByte + len = e.len ∧
    dbs.sgCurIndex + 1 = req.sg.length

/-- The conditions on a step.  The list is not empty; what is mapped for a request is whole
    sectors, and something for the first; only the first request is refused; the last completion
    does not come while a request is submitted; nothing is cancelled while the driver is at it. -/
def DmaAction.Good (req : DmaRequest) (s : Dma) : DmaAction → Prop
  | .start => req.sg ≠ []
  | .map len => ∀ dbs ∈ s.dbs, dbs.EndsLoop req len →
    (iovSize dbs.iov + len.getD 0) % 512 = 0 ∧
      (iovSize dbs.iov + len.getD 0 = 0 → s.frames ≠ [] ∨ s.result ≠ none)
  | .accept | .notify => True
  | .refuse => s.result = none ∧ s.frames.length = 1
  | .complete ret => s.frames = [] ∨ 0 ≤ ret ∧ ∀ dbs ∈ s.dbs, dbs.sgCurIndex < req.sg.length
  | .runBh => s.frames = [] ∨ ∀ dbs ∈ s.dbs, dbs.sgCurIndex < req.sg.length
  | .cancel => ∀ dbs ∈ s.dbs, dbs.acb = none

instance DmaAiocb.decidableEndsLoop (req : DmaRequest) (dbs : DmaAiocb) (len : Option Nat) :
    Decidable (dbs.EndsLoop req len) := by
  unfold DmaAiocb.EndsLoop
  cases len <;> infer_instance

instance DmaAction.decidableGood (req : DmaRequest) (s : Dma) (a : DmaAction) :
    Decidable (a.Good req s) := by
  unfold DmaAction.Good
  cases a <;> infer_instance

end Qemu.Block
