import Qemu.Lib.Bytes

namespace Qemu.Hw

open Lib

/-!
# The I2S interface and its codec (`hw/s5pc1xx_i2s.c`, `hw/wm8994.c`)

Words that are written to the transmit register go to a ring buffer, and a callback of the codec
copies blocks of frames from it to the buffer of the codec, which is handed to the audio back end.

* `I2s`, `i2sWrite` — the registers and the ring;
* `Wm8994`, `wm8994DacBuffer`, `wm8994OutFlush` — the buffer of the codec;
* `i2sAudioCallback` — the callback; it faults if it copies what is behind the ring.
-/

/-- `AUDIO_WORDS_SEND` -/
abbrev audioWordsSend : Nat := 0x800

/-- `AUDIO_BUFFER_SIZE` -/
abbrev audioBufferSize : Nat := 0x100000

/-- `S5pc1xxI2SState`; `dmaStop` are the two lines that stop the DMA controllers. -/
structure I2s where
  iiscon : BitVec 32
  iismod : BitVec 32
  iisfic : BitVec 32
  iispsr : BitVec 32
  iisfics : BitVec 32
  iisahb : BitVec 32
  iisstr0 : BitVec 32
  iissize : BitVec 32
  iistrncnt : BitVec 32
  iislvl0addr : BitVec 32
  iislvl1addr : BitVec 32
  iislvl2addr : BitVec 32
  iislvl3addr : BitVec 32
  iisstr1 : BitVec 32
  buffer : Nat → Byte
  bufSize : Nat
  playPos : Nat
  lastFree : Nat
  dmaStop : Bool

/-- `s5pc1xx_i2s_stop` -/
def I2s.stop (s : I2s) : I2s := { s with dmaStop := true }

/-- `s5pc1xx_i2s_resume` -/
def I2s.resume (s : I2s) : I2s := { s with dmaStop := false }

/-- `s5pc1xx_i2s_reset` -/
def I2s.reset (s : I2s) : I2s :=
  { s with
    iiscon := 0, iismod := 0, iisfic := 0, iispsr := 0, iisfics := 0, iisahb := 0, iisstr0 := 0
    iissize := 0x7fff0000, iistrncnt := 0, iislvl0addr := 0, iislvl1addr := 0, iislvl2addr := 0
    iislvl3addr := 0, iisstr1 := 0, playPos := 0, lastFree := 0 }

/-- `s5pc1xx_i2s_pause`, of `TXCHPAUSE` -/
def I2s.pause (s : I2s) : Bool := s.iiscon.getLsbD 4

/-- `s5pc1xx_i2s_transmit` -/
def I2s.transmit (s : I2s) : Bool := !s.iismod.getLsbD 8

/-! ### The codec -/

/-- `WM8994State`, as far as data goes: `dataOut` is what is in memory from `data_out` on, and
    `sent` is all that was handed to `AUD_write`, which may take it in parts. -/
structure Wm8994 where
  dacVoice : Bool
  dataOut : Nat → Byte
  idxOut : Nat
  reqOut : Int
  sent : List Byte

/-- `wm8994_out_flush` -/
def wm8994OutFlush (c : Wm8994) : Wm8994 :=
  if c.dacVoice then { c with sent := c.sent ++ bytesAt c.dataOut 0 c.idxOut, idxOut := 0 } else c

/-- `wm8994_dac_buffer`: where to put the samples. -/
def wm8994DacBuffer (c : Wm8994) (samples : Nat) : Nat × Wm8994 :=
  (c.idxOut, { c with
    idxOut := c.idxOut + samples <<< 2
    reqOut := c.reqOut - (samples <<< 2 : Nat) })

/-- `wm8994_dac_commit` -/
def wm8994DacCommit (c : Wm8994) : Wm8994 := wm8994OutFlush c

/-! ### The interface -/

/-- The block that a callback asks for. -/
def blockSize (freeOut : Int) : Nat :=
  let freeOut : Int := if freeOut > audioWordsSend then audioWordsSend else freeOut
  4 * freeOut.toNat

/-- The ring has less than the block, from a position behind the last free one or from one before
    it. -/
def I2s.Underrun (s : I2s) (block : Nat) : Prop :=
  (s.playPos > s.lastFree ∧ s.playPos + block > s.bufSize ∧
    s.playPos + block - s.bufSize > s.lastFree) ∨
  (s.playPos ≤ s.lastFree ∧ s.playPos + block > s.lastFree)

instance I2s.decidableUnderrun (s : I2s) (block : Nat) : Decidable (s.Underrun block) :=
  inferInstanceAs (Decidable (_ ∨ _))

/-- `s5pc1xx_i2s_audio_callback` -/
def i2sAudioCallback (s : I2s) (c : Wm8994) (freeOut : Int) : Option (I2s × Wm8994) :=
  if freeOut ≤ 0 then some (s, c)
  else
    let block := blockSize freeOut
    if s.pause then some (s, c)
    else if s.Underrun block then some (s.resume, c)
    -- `memcpy` reads from the ring
    else if s.playPos + block > s.bufSize then none
    else
      let (codecBuffer, c) := wm8994DacBuffer c block
      let c := { c with
        dataOut := storeAt c.dataOut codecBuffer (bytesAt s.buffer s.playPos block) }
      let s := { s with playPos := (s.playPos + block) % s.bufSize }
      some (s.resume, wm8994DacCommit c)

/-- A write to `IISCON`. -/
def i2sWriteCon (s : I2s) (value : BitVec 32) : I2s :=
  let s := if value.getLsbD 31 && !s.iiscon.getLsbD 31 then s.reset else s
  let s :=
    if s.iiscon.getLsbD 4 != value.getLsbD 4 then
      if value.getLsbD 4 then s.stop else s.resume
    else s
  let s := { s with iiscon := (s.iiscon &&& ~~~0x8295007f) ||| (value &&& 0x8295007f) }
  let s := if s.iiscon.getLsbD 0 then s else { s with playPos := 0, lastFree := 0 }.resume
  { s with iiscon := s.iiscon ||| 0x800 }

/-- The word that goes to the ring; `LRP` exchanges the halves of words of 16 or 8 bits. -/
def I2s.txWord (s : I2s) (value : BitVec 32) : BitVec 32 :=
  if s.iismod.getLsbD 7 ∧ (s.iismod &&& 0x6000 = 0 ∨ s.iismod &&& 0x6000 = 0x2000) then
    value <<< 16 ||| value >>> 16
  else value

/-- A write to `IISTXD`, on a little-endian host. -/
def i2sWriteTxd (s : I2s) (value : BitVec 32) : I2s :=
  if !s.transmit then s
  else
    let s := { s with buffer := storeAt s.buffer s.lastFree (leBytes (s.txWord value).toNat) }
    let s := { s with lastFree := (s.lastFree + 4) % s.bufSize }
    let useBuf : Int := s.lastFree - s.playPos
    let useBuf := if useBuf < 0 then s.bufSize + useBuf else useBuf
    if useBuf ≥ audioWordsSend * 4 then s.stop else s

/-- `s5pc1xx_i2s_write` -/
def i2sWrite (s : I2s) (offset : Nat) (value : BitVec 32) : Option I2s :=
  match offset with
  | 0x00 => some (i2sWriteCon s value)
  | 0x04 => some { s with iismod := value }
  | 0x08 => some { s with iisfic := value }
  | 0x0C => some { s with iispsr := value }
  | 0x1C | 0x10 => some (i2sWriteTxd s value)
  | 0x18 => some { s with iisfics := value }
  | 0x20 => some { s with iisahb := value }
  | 0x24 => some { s with iisstr0 := value }
  | 0x28 => some { s with iissize := value }
  | 0x2C => some { s with iistrncnt := value }
  | 0x30 => some { s with iislvl0addr := value }
  | 0x34 => some { s with iislvl1addr := value }
  | 0x38 => some { s with iislvl2addr := value }
  | 0x3C => some { s with iislvl3addr := value }
  | 0x40 => some { s with iisstr1 := value }
  -- `hw_error`
  | _ => none

/-- After `s5pc1xx_i2s_init1`, with what `qemu_malloc` has found in memory. -/
def i2sInit (memory : Nat → Byte) : I2s :=
  I2s.reset {
    iiscon := 0, iismod := 0, iisfic := 0, iispsr := 0, iisfics := 0, iisahb := 0, iisstr0 := 0
    iissize := 0, iistrncnt := 0, iislvl0addr := 0, iislvl1addr := 0, iislvl2addr := 0
    iislvl3addr := 0, iisstr1 := 0, buffer := memory, bufSize := audioBufferSize, playPos := 0
    lastFree := 0, dmaStop := false }

/-- After `wm8994_reset`, with the voice that will call back. -/
def wm8994Init (memory : Nat → Byte) : Wm8994 where
  dacVoice := true
  dataOut := memory
  idxOut := 0
  reqOut := 0
  sent := []

end Qemu.Hw
