import Qemu.Lib.Bytes

namespace Qemu.Hw

open Qemu.Lib

/-!
# The OneDRAM modem link (`hw/s5pc1xx_onedram.c`)

The application processor and the modem exchange messages through two rings in shared memory.  Head
and tail of each ring lie in that memory too, and a semaphore says whose memory it is.

* `onedramReadShm`, `onedramWriteShm` — access to the shared memory;
* `onedramWriteFmt` — a message from the modem into the inbound ring;
* `onedramFmtSendCmd` — the outbound ring to the modem's socket.
-/

/-! ### The memory map -/

/-- `ONEDRAM_SHARED_BASE` -/
def onedramSharedBase : Nat := 0x30000000 + 0x05000000

/-- `ONEDRAM_SHARED_SIZE` -/
def onedramSharedSize : Nat := 0x00500000

/-- `ONEDRAM_IN_FMT_SIZE` -/
def onedramInFmtSize : Nat := 0x1000

/-- `SOCKET_BUFFER_MAX_SIZE` -/
def socketBufferMaxSize : Nat := 0x400

/-- `ModemPlatformData` -/
structure ModemPlatformData where
  outFmtBase : Nat
  outFmtSize : Nat
  inFmtBase : Nat
  inFmtSize : Nat
  ptrFmtSize : Nat
deriving DecidableEq, Repr

/-- `ModemInfo` -/
structure ModemInfo where
  inHeadAddr : Nat
  inTailAddr : Nat
  inBuffAddr : Nat
  inBuffSize : Nat
  outHeadAddr : Nat
  outTailAddr : Nat
  outBuffAddr : Nat
  outBuffSize : Nat
  ptrSize : Nat
  maskReqAck : Nat
  maskResAck : Nat
  maskSend : Nat
deriving DecidableEq, Repr

/-- `aquila_xmm_modem_data` -/
def aquilaXmmModemData : ModemPlatformData where
  outFmtBase := 0x10
  outFmtSize := 0x1000
  inFmtBase := 0x18
  inFmtSize := 0x1000
  ptrFmtSize := 4

/-- `onedram_register_modem` -/
def onedramRegisterModem (mp : ModemPlatformData) : ModemInfo where
  inHeadAddr := mp.inFmtBase
  inTailAddr := mp.inFmtBase + mp.ptrFmtSize
  inBuffAddr := 0xFF000
  inBuffSize := mp.inFmtSize
  outHeadAddr := mp.outFmtBase
  outTailAddr := mp.outFmtBase + mp.ptrFmtSize
  outBuffAddr := 0xFE000
  outBuffSize := mp.outFmtSize
  ptrSize := mp.ptrFmtSize
  maskReqAck := 0x0020
  maskResAck := 0x0008
  maskSend := 0x0002

/-- `s->fmt_info`, which `s5pc1xx_onedram_init1` sets once and for all. -/
def fmtInfo : ModemInfo := onedramRegisterModem aquilaXmmModemData

/-- What `cpu_physical_memory_map` answers: how much of a range it maps, if anything.  The shared
    memory is one block of RAM. -/
structure Board where
  map : Nat → Nat → Option Nat
  shared : ∀ offset size, 0 < size → offset + size ≤ onedramSharedSize →
    map (onedramSharedBase + offset) size = some size

/-- The device, and the memory of the guest.  `log` has the bytes stored into mappings, `overrun`
    counts the bytes stored past the end of one, and `sent` is what the socket was given. -/
structure Onedram where
  mem : Nat → Byte
  log : List (Nat × Byte)
  overrun : Nat
  sem : Nat
  mbxAb : Nat
  checkAb : Nat
  irqApPending : Bool
  interruptable : Bool
  writable : Bool
  socketBuffer : Nat → Byte
  socketLen : Nat
  sent : List Byte

/-! ### Words -/

/-- The difference of two `uint32_t`. -/
def sub32 (a b : Nat) : Nat := (a + (2 ^ 32 - b)) % 2 ^ 32

/-- A `uint32_t` as an `int`. -/
def toInt32 (n : Nat) : Int := if n < 2 ^ 31 then n else n - 2 ^ 32

/-- An `int` as a `uint32_t`. -/
def toUint32 (i : Int) : Nat := (i % 2 ^ 32).toNat

/-! ### Shared memory -/

/-- `onedram_can_access_shm` -/
def onedramCanAccessShm (s : Onedram) : Bool := s.sem == 0

/-- `onedram_read_shm`, and what it copies. -/
def onedramReadShm (b : Board) (s : Onedram) (offset size : Nat) : Option (List Byte) :=
  let phyBase := (onedramSharedBase + offset) % 2 ^ 32
  if onedramCanAccessShm s = false then none
  else if sub32 onedramSharedSize offset < size then none
  else (b.map phyBase size).map fun srcLen => bytesAt s.mem phyBase srcLen

/-- `onedram_write_shm`: it copies all of the buffer, however much of it was mapped. -/
def onedramWriteShm (b : Board) (s : Onedram) (buf : List Byte) (offset size : Nat) : Onedram :=
  let phyBase := (onedramSharedBase + offset) % 2 ^ 32
  if onedramCanAccessShm s = false then s
  else if onedramInFmtSize < size then s
  else
    match b.map phyBase size with
    | none => s
    | some srcLen =>
      let mapped := (buf.take size).take srcLen
      { s with
        mem := storeAt s.mem phyBase mapped
        log := s.log ++ placed id phyBase mapped
        overrun := s.overrun + (size - srcLen) }

/-- The reads of an index, which is 0 if it cannot be read. -/
def onedramReadPtr (b : Board) (s : Onedram) (addr : Nat) : Nat :=
  ((onedramReadShm b s addr fmtInfo.ptrSize).map leWord).getD 0

/-- `onedram_read_outhead` -/
def onedramReadOuthead (b : Board) (s : Onedram) : Nat := onedramReadPtr b s fmtInfo.outHeadAddr

/-- `onedram_read_inhead` -/
def onedramReadInhead (b : Board) (s : Onedram) : Nat := onedramReadPtr b s fmtInfo.inHeadAddr

/-- `onedram_read_outtail` -/
def onedramReadOuttail (b : Board) (s : Onedram) : Nat := onedramReadPtr b s fmtInfo.outTailAddr

/-- `onedram_read_intail` -/
def onedramReadIntail (b : Board) (s : Onedram) : Nat := onedramReadPtr b s fmtInfo.inTailAddr

/-- The writes of an index. -/
def onedramWritePtr (b : Board) (s : Onedram) (addr n : Nat) : Onedram :=
  onedramWriteShm b s (leBytes n) addr fmtInfo.ptrSize

/-- `onedram_write_inhead` -/
def onedramWriteInhead (b : Board) (s : Onedram) (head : Nat) : Onedram :=
  onedramWritePtr b s fmtInfo.inHeadAddr head

/-- `onedram_write_outtail` -/
def onedramWriteOuttail (b : Board) (s : Onedram) (tail : Nat) : Onedram :=
  onedramWritePtr b s fmtInfo.outTailAddr tail

/-! ### Registers -/

/-- `onedram_disable_interrupt` -/
def onedramDisableInterrupt (s : Onedram) : Onedram := { s with interruptable := false }

/-- `onedram_enable_interrupt` -/
def onedramEnableInterrupt (s : Onedram) : Onedram := { s with interruptable := true }

/-- `onedram_disable_write` -/
def onedramDisableWrite (s : Onedram) : Onedram := { s with writable := false }

/-- `onedram_enable_write` -/
def onedramEnableWrite (s : Onedram) : Onedram := { s with writable := true }

/-- `onedram_put_authority` -/
def onedramPutAuthority (s : Onedram) : Onedram := { s with sem := 1 }

/-- `onedram_send_cmd_to_pda`: a mailbox that has not been read is left alone. -/
def onedramSendCmdToPda (s : Onedram) (val : Nat) : Onedram :=
  if s.checkAb % 2 = 0 then { s with mbxAb := val, checkAb := 1, irqApPending := true } else s

/-! ### The inbound ring -/

/-- The copies of `onedram_write_fmt`, and the count it reports. -/
def onedramCopyFmt (b : Board) (s : Onedram) (buf : List Byte) (head tail : Nat) : Onedram × Int :=
  let len := buf.length
  if head < tail then
    let size := tail - head - 1
    let size := if size < len then size else len
    (onedramWriteShm b s buf ((fmtInfo.inBuffAddr + head) % 2 ^ 32) size, toInt32 size)
  else if tail = 0 then
    let size := sub32 (sub32 fmtInfo.inBuffSize head) 1
    let size := if size < len then size else len
    (onedramWriteShm b s buf ((fmtInfo.inBuffAddr + head) % 2 ^ 32) size, toInt32 size)
  else
    let size := sub32 fmtInfo.inBuffSize head
    let size := if size < len then size else len
    let s := onedramWriteShm b s buf ((fmtInfo.inBuffAddr + head) % 2 ^ 32) size
    let ret := toInt32 size
    if ret < toInt32 len then
      let rest := toUint32 (len - ret)
      let size := if tail - 1 < rest then tail - 1 else rest
      (onedramWriteShm b s (buf.drop (toUint32 ret)) fmtInfo.inBuffAddr size, ret + toInt32 size)
    else (s, ret)

/-- The interrupt mask of `onedram_write_fmt`. -/
def fmtIrqMask (ret : Int) (len : Nat) : Nat :=
  let irqMask := 0x0080
  let irqMask := if 0 < ret then irqMask ||| fmtInfo.maskSend else irqMask
  if ret < toInt32 len then irqMask ||| fmtInfo.maskReqAck else irqMask

/-- The end of `onedram_write_fmt`: indexes out of range are noticed now, and not signalled. -/
def onedramWriteFmtEnd (s : Onedram) (head tail len : Nat) (ret : Int) : Onedram :=
  if fmtInfo.inBuffSize ≤ head ∨ fmtInfo.inBuffSize ≤ tail then
    onedramEnableWrite (onedramEnableInterrupt (onedramPutAuthority s))
  else
    let s := onedramEnableInterrupt (onedramPutAuthority s)
    onedramEnableWrite (onedramSendCmdToPda s (fmtIrqMask ret len))

/-- `onedram_write_fmt` for a message of fewer than 2³² bytes. -/
def onedramWriteFmt (b : Board) (s : Onedram) (buf : List Byte) : Onedram × Int :=
  let s := onedramDisableWrite (onedramDisableInterrupt s)
  let head := onedramReadInhead b s
  let tail := onedramReadIntail b s
  let (s, ret) := onedramCopyFmt b s buf head tail
  let head := toUint32 (head + ret) % fmtInfo.inBuffSize
  let s := onedramWriteInhead b s head
  (onedramWriteFmtEnd s head tail buf.length ret, ret)

/-! ### The outbound ring -/

/-- `onedram_read_fmt`: the next piece of the ring, as its offset and length, is taken off the ring.
    `none` is the answer -1. -/
def onedramReadFmt (b : Board) (s : Onedram) : Onedram × Option (Nat × Nat) :=
  let head := onedramReadOuthead b s
  let tail := onedramReadOuttail b s
  if fmtInfo.outBuffSize ≤ head ∨ fmtInfo.outBuffSize ≤ tail then (s, none)
  else if head = tail then (s, some (fmtInfo.outBuffAddr + tail, 0))
  else
    let len := if tail < head then head - tail else fmtInfo.outBuffSize - tail
    let newTail := (tail + len) % fmtInfo.outBuffSize
    (onedramWriteOuttail b s newTail, some (fmtInfo.outBuffAddr + tail, len))

/-- A read into the socket buffer, which stays as it is if the read fails. -/
def onedramReadSocket (b : Board) (s : Onedram) (psrc size : Nat) : Onedram :=
  match onedramReadShm b s psrc size with
  | none => s
  | some bytes => { s with socketBuffer := storeAt s.socketBuffer s.socketLen bytes }

/-- `onedram_insert_socket`, and whether there was room. -/
def onedramInsertSocket (b : Board) (s : Onedram) (psrc size : Nat) : Onedram × Bool :=
  if socketBufferMaxSize ≤ s.socketLen + size then
    let s := onedramReadSocket b s psrc (socketBufferMaxSize - s.socketLen)
    ({ s with socketLen := socketBufferMaxSize }, false)
  else
    let s := onedramReadSocket b s psrc size
    ({ s with socketLen := s.socketLen + size }, true)

/-- `onedram_socket_push` -/
def onedramSocketPush (s : Onedram) : Onedram :=
  { s with sent := s.sent ++ bytesAt s.socketBuffer 0 s.socketLen, socketLen := 0 }

/-- The loop of `onedram_fmt_send_cmd`; `none` if it needs more than `fuel` rounds. -/
def onedramSendLoop (b : Board) : Nat → Onedram → Option (Onedram × Int)
  | 0, _ => none
  | fuel + 1, s =>
    match onedramReadFmt b s with
    | (s, none) => some (s, -1)
    | (s, some (psrc, len)) =>
      if len = 0 then some (s, 0)
      else
        -- the length goes through a `uint16_t`
        match onedramInsertSocket b s psrc (len % 2 ^ 16) with
        | (s, false) => some (s, 0)
        | (s, true) => onedramSendLoop b fuel s

/-- `onedram_fmt_send_cmd` -/
def onedramFmtSendCmd (b : Board) (fuel : Nat) (s : Onedram) : Option (Onedram × Int) :=
  (onedramSendLoop b fuel (onedramDisableWrite (onedramDisableInterrupt s))).map fun r =>
    (onedramEnableWrite (onedramEnableInterrupt (onedramSocketPush r.1)), r.2)

end Qemu.Hw
