import Qemu.Hw.Clock

namespace Qemu.Hw

open Lib

/-!
# The PCM audio interface of the S5PC110 (`hw/s5pc1xx_pcm.c`)

* `pcmRxControl`, `pcmTxControl`, `pcmNextFrame` — the two queues of samples;
* `pcmSclkUpdate`, `pcmSync` — the frequencies, and the timer of the frames;
* `pcmRead`, `pcmWrite` — the registers;
* `PcmOp.exec` — an access of the guest, or the QEMU timer expires;
* `PcmOp.exec_fits`, `PcmOp.exec_divZero` — which operations divide by zero.
-/

/-! ### Constants -/

/-- `TXFIFO_DIPSTICK_SHIFT` -/
def TXFIFO_DIPSTICK_SHIFT : Nat := 13

/-- `RXFIFO_DIPSTICK_SHIFT` -/
def RXFIFO_DIPSTICK_SHIFT : Nat := 7

/-- `PCM_TX_DMA_EN` -/
def PCM_TX_DMA_EN : BitVec 32 := 1 <<< 6

/-- `PCM_RX_DMA_EN` -/
def PCM_RX_DMA_EN : BitVec 32 := 1 <<< 5

/-- `TX_MSB_POS` -/
def TX_MSB_POS : BitVec 32 := 1 <<< 4

/-- `RX_MSB_POS` -/
def RX_MSB_POS : BitVec 32 := 1 <<< 3

/-- `PCM_TXFIFO_EN` -/
def PCM_TXFIFO_EN : BitVec 32 := 1 <<< 2

/-- `PCM_RXFIFO_EN` -/
def PCM_RXFIFO_EN : BitVec 32 := 1 <<< 1

/-- `PCM_PCM_ENABLE` -/
def PCM_PCM_ENABLE : BitVec 32 := 1 <<< 0

/-- `CTL_SERCLK_EN` -/
def CTL_SERCLK_EN : BitVec 32 := 1 <<< 19

/-- `SCLK_DIV_SHIFT` -/
def SCLK_DIV_SHIFT : Nat := 9

/-- `SYNC_DIV_SHIFT` -/
def SYNC_DIV_SHIFT : Nat := 0

/-- `TXFIFO_DVALID` -/
def TXFIFO_DVALID : BitVec 32 := 1 <<< 16

/-- `RXFIFO_DVALID` -/
def RXFIFO_DVALID : BitVec 32 := 1 <<< 16

/-- `EN_IRQ_TO_ARM` -/
def EN_IRQ_TO_ARM : BitVec 32 := 1 <<< 14

/-- `IRQ_PENDING` -/
def IRQ_PENDING : BitVec 32 := 1 <<< 13

/-- `TRANSFER_DONE` -/
def TRANSFER_DONE : BitVec 32 := 1 <<< 12

/-- `TXFIFO_ERROR_STARVE` -/
def TXFIFO_ERROR_STARVE : BitVec 32 := 1 <<< 7

/-- `TXFIFO_ERROR_OVERFLOW` -/
def TXFIFO_ERROR_OVERFLOW : BitVec 32 := 1 <<< 6

/-- `RXFIFO_ERROR_STARVE` -/
def RXFIFO_ERROR_STARVE : BitVec 32 := 1 <<< 1

/-- `RXFIFO_ERROR_OVERFLOW` -/
def RXFIFO_ERROR_OVERFLOW : BitVec 32 := 1 <<< 0

/-- All bits of the status. -/
def PCM_ALL_STAT : BitVec 32 := 0x3fff

/-- The bits of the interrupt status and of the FIFO status for the depth of a queue. -/
structure PcmBits where
  empty : BitVec 32 × BitVec 32
  full : BitVec 32 × BitVec 32
  almostEmpty : BitVec 32 × BitVec 32
  almostFull : BitVec 32 × BitVec 32

/-- The bits of the queue for what is sent. -/
def pcmTxBits : PcmBits where
  empty := (1 <<< 11, 1 <<< 13)
  full := (1 <<< 9, 1 <<< 11)
  almostEmpty := (1 <<< 10, 1 <<< 12)
  almostFull := (1 <<< 8, 1 <<< 10)

/-- The bits of the queue for what is received. -/
def pcmRxBits : PcmBits where
  empty := (1 <<< 5, 1 <<< 3)
  full := (1 <<< 3, 1 <<< 1)
  almostEmpty := (1 <<< 4, 1 <<< 2)
  almostFull := (1 <<< 2, 1 <<< 0)

/-! ### State -/

/-- `struct FrameIn` and `struct FrameOut` -/
structure PcmFrames where
  fifo : Nat → BitVec 16
  writeIdx : BitVec 64
  readIdx : BitVec 64
  fifoDipstick : BitVec 8
  delay : BitVec 8

/-- `S5pc1xxPCMState`; `pcmTimer` is when the QEMU timer expires, if it is set. -/
structure Pcm where
  irq : Bool
  ctl : BitVec 32
  clkCtl : BitVec 32
  irqCtl : BitVec 32
  irqStat : BitVec 32
  fifoStat : BitVec 32
  rx : PcmFrames
  tx : PcmFrames
  pcmTimer : Option (BitVec 64)
  syncDiv : BitVec 16
  syncFreq : BitVec 32
  sclkFreq : BitVec 32
  lastPcmTime : BitVec 64
  sclkEn : BitVec 8
  pcmIoEn : BitVec 8

/-- `s5pc1xx_pcm_reset` -/
def pcmReset (s : Pcm) : Pcm :=
  { s with
    ctl := 0, clkCtl := 0x40000, irqCtl := 0, irqStat := 0, fifoStat := 0
    rx := { s.rx with readIdx := 0, writeIdx := 0, delay := 0 }
    tx := { s.tx with readIdx := 0, writeIdx := 0, delay := 0 }
    syncDiv := 0, syncFreq := 0, sclkFreq := 0, lastPcmTime := 0, sclkEn := 0, pcmIoEn := 0 }

/-! ### Interrupts and queues -/

/-- `s5pc1xx_pcm_irq`, of a status -/
def pcmIrq (s : Pcm) (stat : BitVec 32) : Pcm :=
  { s with
    irqStat := s.irqStat ||| (IRQ_PENDING ||| stat)
    irq := s.irq || (s.irqCtl &&& EN_IRQ_TO_ARM != 0 && s.irqCtl &&& stat != 0) }

/-- `s5pc1xx_pcm_irq`, to clear it -/
def pcmIrqClear (s : Pcm) : Pcm :=
  { s with irqStat := s.irqStat &&& ~~~PCM_ALL_STAT, irq := false }

/-- A condition sets its status and its flag, or clears the flag. -/
def pcmMark (s : Pcm) (cond : Prop) [Decidable cond] (bits : BitVec 32 × BitVec 32) : Pcm :=
  if cond then { pcmIrq s bits.1 with fifoStat := s.fifoStat ||| bits.2 }
  else { s with fifoStat := s.fifoStat &&& ~~~bits.2 }

/-- The number of samples in a queue. -/
def pcmDepth (f : PcmFrames) : Nat :=
  ((f.writeIdx - f.readIdx) % 33).toNat

/-- `s5pc1xx_pcm_rx_control` and `s5pc1xx_pcm_tx_control`, of the samples and their bits -/
def pcmControl (s : Pcm) (f : PcmFrames) (bits : PcmBits) : Pcm :=
  let s := pcmMark s (pcmDepth f = 0) bits.empty
  let s := pcmMark s (pcmDepth f = 32) bits.full
  let s := pcmMark s (pcmDepth f < f.fifoDipstick.toNat) bits.almostEmpty
  pcmMark s ((32 : Int) - f.fifoDipstick.toNat < pcmDepth f) bits.almostFull

/-- What a control write does to the queue for what is received. -/
def pcmRxControl (s : Pcm) : Pcm :=
  pcmControl s s.rx pcmRxBits

/-- What it does to the one for what is sent. -/
def pcmTxControl (s : Pcm) : Pcm :=
  pcmControl s s.tx pcmTxBits

/-- A sample is received. -/
def pcmNextIn (f : PcmFrames) : PcmFrames :=
  if f.writeIdx < f.readIdx + 32 then { f with writeIdx := f.writeIdx + 1 } else f

/-- A sample is sent, or read. -/
def pcmNextOut (f : PcmFrames) : PcmFrames :=
  if f.readIdx < f.writeIdx then { f with readIdx := f.readIdx + 1 } else f

/-- `s5pc1xx_pcm_next_frame` -/
def pcmNextFrame (s : Pcm) : Pcm :=
  let s :=
    if s.ctl &&& PCM_RXFIFO_EN ≠ 0 then pcmRxControl { s with rx := pcmNextIn s.rx } else s
  if s.ctl &&& PCM_TXFIFO_EN ≠ 0 then pcmTxControl { s with tx := pcmNextOut s.tx } else s

/-! ### Frequencies -/

/-- The dividers in PCM_CLKCTL. -/
def pcmSclkDiv (clkCtl : BitVec 32) : Nat :=
  2 * ((clkCtl >>> SCLK_DIV_SHIFT &&& 0x1FF).toNat + 1)

/-- The divisor of the frame rate. -/
def pcmSyncDiv (clkCtl : BitVec 32) : Nat :=
  (clkCtl >>> SYNC_DIV_SHIFT &&& 0x1FF).toNat + 1

/-- The clock control that is in effect. -/
def Pcm.clkCtlNow (s : Pcm) : BitVec 32 :=
  if s.pcmIoEn = 0 then 0x40000 else s.clkCtl

/-- `s5pc1xx_pcm_sclk_update` -/
def pcmSclkUpdate (s : Pcm) (clks : Clocks) : Except ClkStop Pcm :=
  ndiv (clks.rate .pclk66) (pcmSclkDiv s.clkCtlNow) >>= fun sclk =>
    if BitVec.ofNat 32 sclk = 0 then .error .hwError
    else
      (ndiv (sclk % 2 ^ 32) (pcmSyncDiv s.clkCtlNow)).map fun sync =>
        { s with
          clkCtl := s.clkCtlNow
          sclkFreq := BitVec.ofNat 32 sclk
          syncDiv := BitVec.ofNat 16 (pcmSyncDiv s.clkCtlNow)
          syncFreq := BitVec.ofNat 32 sync }

/-- The frequency of the frames is determined, if it is not known. -/
def pcmSyncFreq (s : Pcm) (clks : Clocks) : Except ClkStop Pcm :=
  if s.syncFreq = 0 then pcmSclkUpdate s clks else .ok s

/-- `s5pc1xx_pcm_sync` -/
def pcmSync (s : Pcm) (clks : Clocks) : Except ClkStop Pcm :=
  if s.sclkEn ≠ 0 then do
    let s ← pcmSyncFreq s clks
    let ticks ← muldiv64 1 ticksPerSec s.syncFreq
    return { pcmNextFrame s with
      lastPcmTime := clks.now, pcmTimer := some (clks.now + ticks) }
  else .ok { s with pcmTimer := none }

/-! ### GPIO -/

/-- `s5pc1xx_pcm_2sclk` -/
def pcm2sclk (s : Pcm) (now : BitVec 64) : Except ClkStop (BitVec 16) :=
  if s.lastPcmTime ≠ 0 then
    (muldiv64 (((now - s.lastPcmTime).setWidth 32).setWidth 64) (s.sclkFreq * 2) ticksPerSec).map
      (BitVec.setWidth 16)
  else .ok 0

/-- `s5pc1xx_pcm_sclk_s` -/
def pcmSclkS (s : Pcm) (now : BitVec 64) : Except ClkStop (BitVec 32) :=
  if s.sclkEn ≠ 0 then
    (pcm2sclk s now).map fun spent => if spent % 2 ≠ 0 then 0 else 1
  else .ok 0

/-- `s5pc1xx_pcm_sync_s` -/
def pcmSyncS (s : Pcm) (now : BitVec 64) : Except ClkStop (BitVec 32) :=
  if s.sclkEn ≠ 0 then (pcm2sclk s now).map fun spent => if spent < 2 then 1 else 0
  else .ok 0

/-- `cur_pos`, the bit of the sample that is transferred. -/
def pcmCurPos (s : Pcm) (delay : BitVec 8) (now : BitVec 64) : Except ClkStop (BitVec 16) := do
  let spent ← pcm2sclk s now
  let pos ← umod (spent / 2) s.syncDiv
  return pos - delay.setWidth 16

/-- `s5pc1xx_write_rxfifo` -/
def pcmWriteRxfifo (s : Pcm) (sdata : BitVec 32) (now : BitVec 64) : Except ClkStop Pcm :=
  if s.sclkEn = 0 ∨ s.ctl &&& PCM_RXFIFO_EN = 0 then .ok s
  else if s.rx.writeIdx = s.rx.readIdx + 32 then .ok (pcmIrq s RXFIFO_ERROR_OVERFLOW)
  else
    (pcmCurPos s s.rx.delay now).map fun (pos : BitVec 16) =>
      if pos < 16 then
        let idx := (s.rx.writeIdx % 32).toNat
        let bit : BitVec 16 := (sdata &&& 0x1).setWidth 16 <<< (15 - pos)
        { s with rx := { s.rx with fifo := Function.update s.rx.fifo idx (s.rx.fifo idx ||| bit) } }
      else s

/-- `s5pc1xx_read_txfifo` -/
def pcmReadTxfifo (s : Pcm) (now : BitVec 64) : Except ClkStop (BitVec 32 × Pcm) :=
  if s.sclkEn = 0 ∨ s.ctl &&& PCM_TXFIFO_EN = 0 then .ok (0, s)
  else if s.tx.readIdx = s.tx.writeIdx then .ok (0, pcmIrq s TXFIFO_ERROR_STARVE)
  else
    (pcmCurPos s s.tx.delay now).map fun (pos : BitVec 16) =>
      if 15 < pos then (0, pcmIrq s TRANSFER_DONE)
      else ((s.tx.fifo (s.tx.readIdx % 32).toNat >>> (15 - pos) &&& 0x1).setWidth 32, s)

/-- The pins of the interface. -/
inductive PcmPin
  | sclk | extclk | fsync | sin | sout
deriving DecidableEq

/-- `s5pc1xx_pcm_gpio_read` -/
def pcmGpioRead (s : Pcm) (pin : PcmPin) (now : BitVec 64) : Except ClkStop (BitVec 32 × Pcm) :=
  if s.pcmIoEn = 0 then .ok (0, s)
  else match pin with
    | .sclk => (pcmSclkS s now).map (·, s)
    | .fsync => (pcmSyncS s now).map (·, s)
    | .sout => pcmReadTxfifo s now
    | .extclk | .sin => .ok (0, s)

/-- `s5pc1xx_pcm_gpio_write` -/
def pcmGpioWrite (s : Pcm) (pin : PcmPin) (value : BitVec 32) (now : BitVec 64) :
    Except ClkStop Pcm :=
  if pin = .sin then pcmWriteRxfifo s value now else .ok s

/-! ### Registers -/

/-- The read of PCM_RXFIFO. -/
def pcmReadRxfifo (s : Pcm) : BitVec 32 × Pcm :=
  if s.ctl &&& PCM_RX_DMA_EN = 0 ∨ s.ctl &&& PCM_RXFIFO_EN = 0 then (0, s)
  else if s.rx.readIdx = s.rx.writeIdx then (0, pcmIrq s RXFIFO_ERROR_STARVE)
  else
    ((s.rx.fifo (s.rx.readIdx % 32).toNat).setWidth 32 ||| RXFIFO_DVALID,
      pcmRxControl { s with rx := pcmNextOut s.rx })

/-- The read of PCM_FIFO_STAT. -/
def pcmReadFifoStat (s : Pcm) : BitVec 32 :=
  s.fifoStat &&& 0xf ||| BitVec.ofNat 32 (pcmDepth s.rx) <<< 4 ||| s.fifoStat &&& 0x3c00 |||
    BitVec.ofNat 32 (pcmDepth s.tx) <<< 14

/-- `s5pc1xx_pcm_read` -/
def pcmRead (s : Pcm) (offset : Nat) : Except ClkStop (BitVec 32 × Pcm) :=
  match offset with
  | 0x00 => .ok (s.ctl, s)
  | 0x04 => .ok (s.clkCtl, s)
  | 0x08 =>
    if s.ctl &&& PCM_TX_DMA_EN = 0 ∨ s.ctl &&& PCM_TXFIFO_EN = 0 then .ok (0, s)
    else .ok ((s.tx.fifo (s.tx.readIdx % 32).toNat).setWidth 32 ||| TXFIFO_DVALID, s)
  | 0x0C => .ok (pcmReadRxfifo s)
  | 0x10 => .ok (s.irqCtl, s)
  | 0x14 => .ok (s.irqStat, s)
  | 0x18 => .ok (pcmReadFifoStat s, s)
  | _ => .error .hwError

/-- The interface is disabled. -/
def pcmDisable (s : Pcm) (value : BitVec 32) (clks : Clocks) : Except ClkStop Pcm :=
  if value &&& PCM_PCM_ENABLE < s.ctl &&& PCM_PCM_ENABLE then
    pcmSclkUpdate { s with pcmIoEn := 0 } clks
  else .ok s

/-- A queue at a write of PCM_CTL: it is cleared when it is disabled. -/
def pcmSetFrames (f : PcmFrames) (clear msb : Bool) (dipstick : BitVec 32) : PcmFrames where
  fifo := f.fifo
  writeIdx := if clear then 0 else f.writeIdx
  readIdx := if clear then 0 else f.readIdx
  fifoDipstick := (dipstick &&& 0x7f).setWidth 8
  delay := if msb then 1 else 0

/-- The write of PCM_CTL; `pcm_io_en` is `!(value & PCM_PCM_ENABLE) ? : 1`. -/
def pcmWriteCtl (s : Pcm) (value : BitVec 32) (clks : Clocks) : Except ClkStop Pcm :=
  (pcmDisable s value clks).map fun s =>
    let disabled : BitVec 8 := if value &&& PCM_PCM_ENABLE = 0 then 1 else 0
    { s with
      pcmIoEn := if disabled ≠ 0 then disabled else 1
      rx := pcmSetFrames s.rx (value &&& PCM_RXFIFO_EN < s.ctl &&& PCM_RXFIFO_EN)
        (value &&& RX_MSB_POS != 0) (value >>> RXFIFO_DIPSTICK_SHIFT)
      tx := pcmSetFrames s.tx (value &&& PCM_TXFIFO_EN < s.ctl &&& PCM_TXFIFO_EN)
        (value &&& TX_MSB_POS != 0) (value >>> TXFIFO_DIPSTICK_SHIFT)
      ctl := value }

/-- The serial clock is enabled. -/
def pcmEnable (s : Pcm) (value : BitVec 32) (clks : Clocks) : Except ClkStop Pcm :=
  if s.clkCtl &&& CTL_SERCLK_EN < value &&& CTL_SERCLK_EN then
    pcmSync { s with sclkEn := 1 } clks
  else .ok s

/-- The frequencies at a write of PCM_CLKCTL: they are those of the value before. -/
def pcmClkUpdate (s : Pcm) (value : BitVec 32) (clks : Clocks) : Except ClkStop Pcm :=
  if value ≠ s.clkCtl then pcmSclkUpdate s clks else .ok s

/-- The write of PCM_CLKCTL; `sclk_en` is `(value & CTL_SERCLK_EN) ? : 0`, cut off to eight bits. -/
def pcmWriteClkctl (s : Pcm) (value : BitVec 32) (clks : Clocks) : Except ClkStop Pcm := do
  let s ← pcmEnable s value clks
  let en := value &&& CTL_SERCLK_EN
  let s ← pcmClkUpdate { s with sclkEn := (if en ≠ 0 then en else 0).setWidth 8 } value clks
  return { s with clkCtl := value }

/-- The write of PCM_TXFIFO. -/
def pcmWriteTxfifo (s : Pcm) (value : BitVec 32) : Pcm :=
  if s.ctl &&& PCM_TX_DMA_EN = 0 ∨ s.ctl &&& PCM_TXFIFO_EN = 0 then s
  else if s.tx.writeIdx = s.tx.readIdx + 32 then pcmIrq s TXFIFO_ERROR_OVERFLOW
  else
    let idx := (s.tx.writeIdx % 32).toNat
    let tx := { s.tx with fifo := Function.update s.tx.fifo idx (value.setWidth 16) }
    pcmTxControl { s with tx := pcmNextIn tx }

/-- The write of PCM_RXFIFO. -/
def pcmPutRxfifo (s : Pcm) (value : BitVec 32) : Pcm :=
  if s.ctl &&& PCM_RX_DMA_EN = 0 ∨ s.ctl &&& PCM_RXFIFO_EN = 0 then s
  else
    let idx := (s.rx.writeIdx % 32).toNat
    { s with rx := { s.rx with fifo := Function.update s.rx.fifo idx (value.setWidth 16) } }

/-- `s5pc1xx_pcm_write` -/
def pcmWrite (s : Pcm) (offset : Nat) (value : BitVec 32) (clks : Clocks) : Except ClkStop Pcm :=
  match offset with
  | 0x00 => pcmWriteCtl s value clks
  | 0x04 => pcmWriteClkctl s value clks
  | 0x08 => .ok (pcmWriteTxfifo s value)
  | 0x0C => .ok (pcmPutRxfifo s value)
  | 0x10 => .ok { s with irqCtl := value }
  | 0x20 => .ok (pcmIrqClear s)
  | _ => .error .hwError

/-- The queue as it is allocated. -/
def pcmFramesZero : PcmFrames where
  fifo := fun _ => 0
  writeIdx := 0
  readIdx := 0
  fifoDipstick := 0
  delay := 0

/-- `s5pc1xx_pcm_init1` -/
def pcmInit : Pcm :=
  pcmReset
    { irq := false
      ctl := 0
      clkCtl := 0
      irqCtl := 0
      irqStat := 0
      fifoStat := 0
      rx := pcmFramesZero
      tx := pcmFramesZero
      pcmTimer := none
      syncDiv := 0
      syncFreq := 0
      sclkFreq := 0
      lastPcmTime := 0
      sclkEn := 0
      pcmIoEn := 0 }

/-! ### Operations -/

/-- What the guest does, by the registers and by GPIO, and the expiry of the QEMU timer. -/
inductive PcmOp
  | read (offset : Nat)
  | write (offset : Nat) (value : BitVec 32)
  | gpioRead (pin : PcmPin)
  | gpioWrite (pin : PcmPin) (value : BitVec 32)
  | expire
deriving DecidableEq

/-- An operation; a timer that is not set does not expire. -/
def PcmOp.exec (s : Pcm) (clks : Clocks) : PcmOp → Except ClkStop Pcm
  | .read offset => (pcmRead s offset).map Prod.snd
  | .write offset value => pcmWrite s offset value clks
  | .gpioRead pin => (pcmGpioRead s pin clks.now).map Prod.snd
  | .gpioWrite pin value => pcmGpioWrite s pin value clks.now
  | .expire => if s.pcmTimer.isSome then pcmSync { s with pcmTimer := none } clks else .ok s

/-! ### The condition -/

/-- The serial clock that an update would find. -/
def Pcm.sclk (s : Pcm) (clks : Clocks) : Nat :=
  clks.rate .pclk66 / pcmSclkDiv s.clkCtlNow % 2 ^ 32

/-- What an operation is to meet: when the serial clock is enabled, and the frequency of the frames
    is not known, it is not below one hertz. -/
def PcmOp.Fits (s : Pcm) (clks : Clocks) : PcmOp → Prop
  | .write offset value =>
    offset = 0x04 → s.clkCtl &&& CTL_SERCLK_EN < value &&& CTL_SERCLK_EN → s.syncFreq = 0 →
      s.sclk clks = 0 ∨ pcmSyncDiv s.clkCtlNow ≤ s.sclk clks
  | _ => True

/-! ### Frequencies -/

/-- Between two operations the serial clock is not enabled: the bit is cut off. -/
def Pcm.Stopped (s : Pcm) : Prop :=
  s.sclkEn = 0

/-- The frame rate is computed, unless the serial clock is zero. -/
theorem pcmSclkUpdate_ends (s : Pcm) (clks : Clocks) :
    Ends (fun s' => s'.sclkEn = s.sclkEn ∧ s.sclk clks ≠ 0 ∧
        s'.syncFreq.toNat = s.sclk clks / pcmSyncDiv s.clkCtlNow)
      (fun e => e = .hwError ∧ s.sclk clks = 0) (pcmSclkUpdate s clks) := by
  have hdiv : pcmSclkDiv s.clkCtlNow ≠ 0 := by
    unfold pcmSclkDiv
    omega
  have hsync : pcmSyncDiv s.clkCtlNow ≠ 0 := Nat.succ_ne_zero _
  unfold pcmSclkUpdate
  rw [ndiv_eq _ hdiv, ok_bind, ndiv_eq _ hsync]
  refine Ends.ite (fun hzero => .error ⟨rfl, ?_⟩) fun hne => .ok ⟨rfl, ?_, ?_⟩
  · exact (BitVec.toNat_ofNat _ _).symm.trans (congrArg BitVec.toNat hzero)
  · exact fun hzero => hne (BitVec.eq_of_toNat_eq hzero)
  · have hlt : s.sclk clks < 2 ^ 32 := Nat.mod_lt _ (by decide)
    exact Nat.mod_eq_of_lt (lt_of_le_of_lt (Nat.div_le_self _ _) hlt)

variable {clks : Clocks} {s : Pcm}

theorem pcmSyncFreq_fits
    (h : s.syncFreq = 0 → s.sclk clks = 0 ∨ pcmSyncDiv s.clkCtlNow ≤ s.sclk clks) :
    Ends (fun s' : Pcm => s'.syncFreq ≠ 0) (· = .hwError) (pcmSyncFreq s clks) := by
  refine Ends.ite (fun hzero => ?_) fun hne => .ok hne
  refine (pcmSclkUpdate_ends s clks).mono ?_ fun e he => he.1
  rintro s' ⟨-, hsclk, hfreq⟩ hfreq'
  have hle : pcmSyncDiv s.clkCtlNow ≤ s.sclk clks := (h hzero).resolve_left hsclk
  have hpos : 0 < s.sclk clks / pcmSyncDiv s.clkCtlNow := Nat.div_pos hle (Nat.succ_pos _)
  rw [← hfreq, hfreq'] at hpos
  exact absurd hpos (by decide)

/-- A divisor above the clock gives a rate of zero. -/
theorem pcmSyncFreq_zero (hzero : s.syncFreq = 0) (hsclk : s.sclk clks ≠ 0)
    (hlt : ¬pcmSyncDiv s.clkCtlNow ≤ s.sclk clks) :
    ∃ s', pcmSyncFreq s clks = .ok s' ∧ s'.syncFreq = 0 := by
  unfold pcmSyncFreq
  rw [if_pos hzero]
  have hends := pcmSclkUpdate_ends s clks
  cases hupdate : pcmSclkUpdate s clks with
  | error e =>
    rw [hupdate] at hends
    cases hends with
    | error h => exact absurd h.2 hsclk
  | ok s' =>
    rw [hupdate] at hends
    cases hends with
    | ok h =>
      refine ⟨s', rfl, BitVec.eq_of_toNat_eq ?_⟩
      rw [h.2.2]
      exact Nat.div_eq_of_lt (Nat.lt_of_not_le hlt)

theorem Pcm.enabled_ne_zero (s : Pcm) : ({ s with sclkEn := 1 } : Pcm).sclkEn ≠ 0 := by
  show (1 : BitVec 8) ≠ 0
  decide

variable {value : BitVec 32}

/-- Enabling the serial clock, with a rate that is not zero. -/
theorem pcmEnable_fits {s : Pcm} {clks : Clocks} {value : BitVec 32}
    (h : s.clkCtl &&& CTL_SERCLK_EN < value &&& CTL_SERCLK_EN → s.syncFreq = 0 →
      s.sclk clks = 0 ∨ pcmSyncDiv s.clkCtlNow ≤ s.sclk clks) :
    Ends (fun _ => True) (· = .hwError) (pcmEnable s value clks) := by
  refine Ends.ite (fun hrise => ?_) fun _ => .ok trivial
  rw [pcmSync, if_pos s.enabled_ne_zero]
  refine Ends.bind (pcmSyncFreq_fits (s := { s with sclkEn := 1 }) (h hrise)) fun s' hs' => ?_
  obtain ⟨ticks, hticks⟩ := muldiv64_ok 1 ticksPerSec hs'
  rw [hticks]
  exact .ok trivial

theorem pcmEnable_divZero (hrise : s.clkCtl &&& CTL_SERCLK_EN < value &&& CTL_SERCLK_EN)
    (hzero : s.syncFreq = 0) (hsclk : s.sclk clks ≠ 0)
    (hlt : ¬pcmSyncDiv s.clkCtlNow ≤ s.sclk clks) : pcmEnable s value clks = .error .divZero := by
  obtain ⟨s', hs', hfreq⟩ := pcmSyncFreq_zero (s := { s with sclkEn := 1 }) hzero hsclk hlt
  rw [pcmEnable, if_pos hrise, pcmSync, if_pos s.enabled_ne_zero, hs', ok_bind, hfreq,
    muldiv64_zero, error_bind]

/-! ### Operations -/

theorem serclk_cut (value : BitVec 32) :
    (if value &&& CTL_SERCLK_EN ≠ 0 then value &&& CTL_SERCLK_EN else 0).setWidth 8 =
      (0 : BitVec 8) := by
  split_ifs
  · ext i hi
    simp [CTL_SERCLK_EN]
  · rfl

/-- A write to the clock register, which never leaves the clock enabled. -/
theorem pcmWriteClkctl_fits {s : Pcm} {clks : Clocks} {value : BitVec 32}
    (h : s.clkCtl &&& CTL_SERCLK_EN < value &&& CTL_SERCLK_EN → s.syncFreq = 0 →
      s.sclk clks = 0 ∨ pcmSyncDiv s.clkCtlNow ≤ s.sclk clks) :
    Ends Pcm.Stopped (· = .hwError) (pcmWriteClkctl s value clks) := by
  refine Ends.bind (pcmEnable_fits h) fun s₁ _ => ?_
  have hupdate : Ends Pcm.Stopped (· = .hwError) (pcmClkUpdate { s₁ with
      sclkEn := (if value &&& CTL_SERCLK_EN ≠ 0 then value &&& CTL_SERCLK_EN else 0).setWidth 8 }
      value clks) := by
    refine Ends.ite (fun _ => ?_) fun _ => .ok (serclk_cut value)
    exact (pcmSclkUpdate_ends _ clks).mono (fun s' hs' => hs'.1.trans (serclk_cut value))
      fun e he => he.1
  exact Ends.bind hupdate fun s₂ hs₂ => .ok hs₂

theorem pcmWriteCtl_ends (h : s.Stopped) (value : BitVec 32) (clks : Clocks) :
    Ends Pcm.Stopped (· = .hwError) (pcmWriteCtl s value clks) := by
  have hdisable : Ends Pcm.Stopped (· = .hwError) (pcmDisable s value clks) := by
    refine Ends.ite (fun _ => ?_) fun _ => .ok h
    exact (pcmSclkUpdate_ends _ clks).mono (fun s' hs' => hs'.1.trans h) fun e he => he.1
  exact hdisable.map fun s' hs' => hs'

theorem pcmMark_sclkEn (s : Pcm) (cond : Prop) [Decidable cond] (bits : BitVec 32 × BitVec 32) :
    (pcmMark s cond bits).sclkEn = s.sclkEn := by
  unfold pcmMark
  split_ifs <;> rfl

theorem pcmControl_sclkEn (s : Pcm) (f : PcmFrames) (bits : PcmBits) :
    (pcmControl s f bits).sclkEn = s.sclkEn := by
  unfold pcmControl
  rw [pcmMark_sclkEn, pcmMark_sclkEn, pcmMark_sclkEn, pcmMark_sclkEn]

theorem pcmReadRxfifo_sclkEn (s : Pcm) : (pcmReadRxfifo s).2.sclkEn = s.sclkEn := by
  unfold pcmReadRxfifo
  split_ifs
  · rfl
  · rfl
  · exact pcmControl_sclkEn _ _ _

theorem pcmWriteTxfifo_sclkEn (s : Pcm) (value : BitVec 32) :
    (pcmWriteTxfifo s value).sclkEn = s.sclkEn := by
  unfold pcmWriteTxfifo
  split_ifs
  · rfl
  · rfl
  · exact pcmControl_sclkEn _ _ _

theorem pcmPutRxfifo_sclkEn (s : Pcm) (value : BitVec 32) :
    (pcmPutRxfifo s value).sclkEn = s.sclkEn := by
  unfold pcmPutRxfifo
  split_ifs <;> rfl

theorem pcmRead_ends (h : s.Stopped) (offset : Nat) :
    Ends (fun r : BitVec 32 × Pcm => r.2.Stopped) (· = .hwError) (pcmRead s offset) := by
  unfold pcmRead
  split
  case h_3 => exact Ends.ite (fun _ => .ok h) fun _ => .ok h
  case h_4 => exact .ok ((pcmReadRxfifo_sclkEn s).trans h)
  case h_8 => exact .error rfl
  all_goals exact .ok h

theorem pcmGpioRead_eq (h : s.Stopped) (pin : PcmPin) (now : BitVec 64) :
    pcmGpioRead s pin now = .ok (0, s) := by
  have hen : ¬s.sclkEn ≠ 0 := not_not.mpr h
  unfold pcmGpioRead
  split_ifs
  · rfl
  · cases pin with
    | sclk => rw [pcmSclkS, if_neg hen]; rfl
    | fsync => rw [pcmSyncS, if_neg hen]; rfl
    | sout => exact if_pos (.inl h)
    | extclk => rfl
    | sin => rfl

theorem pcmGpioWrite_eq (h : s.Stopped) (pin : PcmPin) (value : BitVec 32) (now : BitVec 64) :
    pcmGpioWrite s pin value now = .ok s := by
  unfold pcmGpioWrite
  split_ifs
  · exact if_pos (.inl h)
  · rfl

/-- An operation that fits ends, with the clock stopped. -/
theorem PcmOp.exec_fits {op : PcmOp} (h : s.Stopped) (hop : op.Fits s clks) :
    Ends Pcm.Stopped (· = .hwError) (op.exec s clks) := by
  cases op with
  | read offset => exact (pcmRead_ends h offset).map fun r hr => hr
  | write offset value =>
    show Ends _ _ (pcmWrite s offset value clks)
    unfold pcmWrite
    split
    case h_1 => exact pcmWriteCtl_ends h value clks
    case h_2 => exact pcmWriteClkctl_fits (hop rfl)
    case h_3 => exact .ok ((pcmWriteTxfifo_sclkEn s value).trans h)
    case h_4 => exact .ok ((pcmPutRxfifo_sclkEn s value).trans h)
    case h_7 => exact .error rfl
    all_goals exact .ok h
  | gpioRead pin =>
    show Ends _ _ ((pcmGpioRead s pin clks.now).map Prod.snd)
    rw [pcmGpioRead_eq h]
    exact .ok h
  | gpioWrite pin value =>
    show Ends _ _ (pcmGpioWrite s pin value clks.now)
    rw [pcmGpioWrite_eq h]
    exact .ok h
  | expire =>
    refine Ends.ite (fun _ => ?_) fun _ => .ok h
    have hen : ¬({ s with pcmTimer := none } : Pcm).sclkEn ≠ 0 := not_not.mpr h
    rw [pcmSync, if_neg hen]
    exact .ok h

theorem PcmOp.exec_divZero {op : PcmOp} (hop : ¬op.Fits s clks) :
    op.exec s clks = .error .divZero := by
  cases op with
  | read offset => exact absurd trivial hop
  | gpioRead pin => exact absurd trivial hop
  | gpioWrite pin value => exact absurd trivial hop
  | expire => exact absurd trivial hop
  | write offset value =>
    simp only [PcmOp.Fits, Classical.not_imp, not_or] at hop
    obtain ⟨rfl, hrise, hzero, hsclk, hlt⟩ := hop
    show pcmWriteClkctl s value clks = _
    rw [pcmWriteClkctl, pcmEnable_divZero hrise hzero hsclk hlt, error_bind]

end Qemu.Hw
