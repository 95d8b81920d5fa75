import Qemu.Lib.Loops
import Qemu.Lib.Runs
import Mathlib.Algebra.Ring.Nat

namespace Qemu.Hw

open Lib

/-!
# The LCD controller of the S5PC1xx

Five windows of guest memory are drawn over each other into an internal frame buffer `ifb` of seven
bytes a pixel, and from there to the console.  A packed array `valid_line` has a bit for each line
of the screen, which is clear when a window has changed there; the array of the update before is
kept.

* `lcdWrite` — a write to a register;
* `lcdMark` — the first pass of an update, which marks the lines that have changed;
* `lcdDraw` — the second pass, which draws the lines that this update or the one before has marked;
* `lcdCopy` — the last pass, which copies the lines to the console;
* `lcdUpdate` — an update, with the lines it has drawn and how much of each it has copied.

An access outside of an array is `none`.  The colours of pixels are left out: they decide about no
access.  After `hw_error` and `abort` the emulator has `stopped`.
-/

/-! ### Registers -/

/-- The register arrays of `S5pc1xxLcdState`. -/
inductive LcdArray
  | shadowcon | vidcon | prtcon | vidtcon | vp1tcon | vidintcon | dithcon | wpalcon | trigcon
  | ituifcon | i80ifcon | ldiCmdcon | sifccon | blendcon | ldiCmd
  deriving DecidableEq

/-- The number of registers in an array. -/
def LcdArray.size : LcdArray → Nat
  | .vidcon | .vidtcon | .sifccon => 3
  | .vp1tcon | .vidintcon | .wpalcon | .ldiCmdcon => 2
  | .i80ifcon => 4
  | .ldiCmd => 12
  | .shadowcon | .prtcon | .dithcon | .trigcon | .ituifcon | .blendcon => 1

/-- The register arrays of `S5pc1xxLcdWindow`. -/
inductive LcdWindowArray
  | wincon | vidosd | bufStart | bufEnd | bufSize | keycon | winmap | vidwAlpha | blendeq | palette
  deriving DecidableEq

/-- The number of registers in an array of a window. -/
def LcdWindowArray.size : LcdWindowArray → Nat
  | .vidosd => 4
  | .bufStart | .bufEnd | .keycon | .vidwAlpha => 2
  | .palette => 256
  | .wincon | .bufSize | .winmap | .blendeq => 1

/-- An array of the controller, or of one of its windows. -/
inductive LcdReg
  | own (a : LcdArray)
  | window (w : Nat) (a : LcdWindowArray)
  deriving DecidableEq

/-- There are five windows. -/
def LcdReg.size : LcdReg → Nat
  | .own a => a.size
  | .window w a => if w < 5 then a.size else 0

/-- `S5pc1xxLcdState` -/
structure Lcd where
  regs : LcdReg × Nat → BitVec 32
  /-- The size of `ifb` in bytes; `none` before the first update. -/
  ifb : Option Nat
  /-- The bytes of `valid_line` and of `valid_line_prev`. -/
  markBytes : Nat
  /-- The bits of `valid_line`, by the line of the screen. -/
  validLine : Nat → Bool
  validLinePrev : Nat → Bool
  consoleWidth : Nat
  consoleHeight : Nat
  invalidate : Bool
  irq : Nat → Bool
  stopped : Bool

/-- The state after `s5pc1xx_lcd_init`. -/
def lcdNew : Lcd where
  regs
    | (.window _ .blendeq, _) => 0xC2
    | _ => 0
  ifb := none
  markBytes := 0
  validLine _ := false
  validLinePrev _ := false
  consoleWidth := 640
  consoleHeight := 480
  invalidate := false
  irq _ := false
  stopped := false

/-- A register in an array; `none` outside of the array. -/
def Lcd.store (s : Lcd) (reg : LcdReg) (i : Nat) (val : BitVec 32) : Option Lcd :=
  if i < reg.size then some { s with regs := Function.update s.regs (reg, i) val } else none

/-- `s5pc1xx_lcd_update_irq`. -/
def lcdUpdateIrq (s : Lcd) : Lcd :=
  let enabled := s.regs (.own .vidintcon, 0)
  let pending := s.regs (.own .vidintcon, 1)
  { s with irq := fun n => enabled.getLsbD 0 && match n with
      | 0 => enabled.getLsbD 1 && pending.getLsbD 0
      | 1 => enabled.getLsbD 12 && pending.getLsbD 1
      | 2 => enabled.getLsbD 17 && pending.getLsbD 2
      | _ => false }

/-- The register at an offset, as `s5pc1xx_lcd_write` computes it; `none` is `hw_error`. -/
def lcdTarget (offset : Nat) : Option (LcdReg × Nat) :=
  if offset % 4 ≠ 0 then none
  else if offset ≤ 0x008 then some (.own .vidcon, offset / 4)
  else if offset = 0x00C then some (.own .prtcon, 0)
  else if offset ≤ 0x018 then some (.own .vidtcon, (offset - 0x010) / 4)
  else if 0x020 ≤ offset ∧ offset ≤ 0x030 then some (.window ((offset - 0x020) / 4) .wincon, 0)
  else if offset = 0x034 then some (.own .shadowcon, 0)
  else if 0x040 ≤ offset ∧ offset ≤ 0x088 then
    let w := (offset - 0x040) / 16
    let i := (offset - 0x040) % 16 / 4
    if i < 2 then some (.window w .vidosd, i)
    else if i = 3 then if w ≠ 1 ∧ w ≠ 2 then none else some (.window w .vidosd, i)
    else some (.window w .vidosd, if w = 0 then i + 1 else i)
  else if 0x0A0 ≤ offset ∧ offset ≤ 0x0C0 then
    let w := (offset - 0x0A0) / 8
    let i := (offset - 0x0A0) / 4 % 2
    if i = 1 ∧ 2 ≤ w then none else some (.window w .bufStart, i)
  else if 0x0D0 ≤ offset ∧ offset ≤ 0x0F0 then
    let w := (offset - 0x0D0) / 8
    let i := (offset - 0x0D0) / 4 % 2
    if i = 1 ∧ 2 ≤ w then none else some (.window w .bufEnd, i)
  else if 0x100 ≤ offset ∧ offset ≤ 0x110 then some (.window ((offset - 0x100) / 4) .bufSize, 0)
  -- the offset is not divided by the size of a register
  else if 0x118 ≤ offset ∧ offset ≤ 0x11C then some (.own .vp1tcon, offset - 0x118)
  else if 0x130 ≤ offset ∧ offset ≤ 0x134 then some (.own .vidintcon, (offset - 0x130) / 4)
  else if 0x140 ≤ offset ∧ offset ≤ 0x15C then
    some (.window ((offset - 0x140) / 8 + 1) .keycon, (offset - 0x140) / 4 % 2)
  else if offset = 0x170 then some (.own .dithcon, 0)
  else if 0x180 ≤ offset ∧ offset ≤ 0x190 then some (.window ((offset - 0x180) / 4) .winmap, 0)
  else if 0x19C ≤ offset ∧ offset ≤ 0x1A0 then some (.own .wpalcon, (offset - 0x19C) / 4)
  else if offset = 0x1A4 then some (.own .trigcon, 0)
  else if offset = 0x1A8 then some (.own .ituifcon, 0)
  else if 0x1B0 ≤ offset ∧ offset ≤ 0x1BC then some (.own .i80ifcon, (offset - 0x1B0) / 4)
  else if 0x1D0 ≤ offset ∧ offset ≤ 0x1D4 then some (.own .ldiCmdcon, (offset - 0x1D0) / 4)
  else if 0x1E0 ≤ offset ∧ offset ≤ 0x1E8 then
    if (offset - 0x1E0) / 4 = 2 then none else some (.own .sifccon, (offset - 0x1E0) / 4)
  else if 0x200 ≤ offset ∧ offset ≤ 0x224 then
    some (.window ((offset - 0x200) / 8) .vidwAlpha, (offset - 0x200) / 4 % 2)
  else if 0x244 ≤ offset ∧ offset ≤ 0x250 then some (.window ((offset - 0x244) / 4) .blendeq, 0)
  else if offset = 0x260 then some (.own .blendcon, 0)
  else if 0x280 ≤ offset ∧ offset ≤ 0x2AC then some (.own .ldiCmd, (offset - 0x280) / 4)
  else if 0x2400 ≤ offset ∧ offset ≤ 0x37FC then
    some (.window ((offset - 0x2400) / 1024) .palette, (offset - 0x2400) / 4 % 256)
  else none

/-- `s5pc1xx_lcd_write`. -/
def lcdWrite (s : Lcd) (offset : Nat) (val : BitVec 32) : Option Lcd :=
  match lcdTarget offset with
  | none => some { s with stopped := true }
  | some (.own .vidintcon, i) =>
    -- a write to the first one falls through to the second one
    (if i = 0 then s.store (.own .vidintcon) 0 val else some s).bind fun s =>
      (s.store (.own .vidintcon) 1 (s.regs (.own .vidintcon, 1) &&& ~~~(val &&& 7))).map
        lcdUpdateIrq
  | some (reg, i) => s.store reg i val

/-! ### Screen and windows -/

/-- `(reg >> shift) & mask`. -/
def lcdField (reg : BitVec 32) (shift mask : Nat) : Nat := (reg.toNat >>> shift) &&& mask

namespace Lcd

variable (s : Lcd) (i : Nat)

/-- The display is on. -/
def displayOn : Bool := (s.regs (.own .vidcon, 0)).getLsbD 1

/-- The width of the screen in pixels. -/
def globalWidth : Nat := lcdField (s.regs (.own .vidtcon, 2)) 0 0x7FF + 1

/-- The height of the screen in lines. -/
def globalHeight : Nat := lcdField (s.regs (.own .vidtcon, 2)) 11 0x7FF + 1

/-- The control register of a window. -/
def wincon : BitVec 32 := s.regs (.window i .wincon, 0)

/-- The window is enabled. -/
def enabled : Bool := (s.wincon i).getLsbD 0

/-- The first column of a window. -/
def lefttopX : Nat := lcdField (s.regs (.window i .vidosd, 0)) 11 0x7FF

/-- The first line of a window. -/
def lefttopY : Nat := lcdField (s.regs (.window i .vidosd, 0)) 0 0x7FF

/-- The width of a window, which may be negative. -/
def width : Int := lcdField (s.regs (.window i .vidosd, 1)) 11 0x7FF - s.lefttopX i + 1

/-- The height of a window, which may be negative. -/
def height : Int := lcdField (s.regs (.window i .vidosd, 1)) 0 0x7FF - s.lefttopY i + 1

/-- The windows that are shown. -/
def windows : List Nat := (List.range 5).filter s.enabled

/-- The turns of the loops over the lines of a window. -/
def rows : List Nat := List.range (s.height i).toNat

/-- The address of the first line of a window. -/
def scanline : BitVec 32 :=
  s.regs (.window i .bufStart, if i ≤ 1 then lcdField (s.wincon i) 20 1 else 0)

/-- `ext_line_size` of the first pass. -/
def extLineSize : Nat := lcdField (s.regs (.window i .bufSize, 0)) 0 0x1FFF

/-- From a line in memory to the next one. -/
def incSize : Nat := s.extLineSize i + lcdField (s.regs (.window i .bufSize, 0)) 13 0x1FFF

/-- `map_len`, a product of 32 bits. -/
def mapLen : BitVec 32 := BitVec.ofNat 32 (s.incSize i) * BitVec.ofInt 32 (s.height i)

end Lcd

/-- `s5pc1xx_parse_win_bppmode`. -/
def lcdBpp (mode : Nat) : Nat :=
  match mode with
  | 0 => 1
  | 1 => 2
  | 2 => 4
  | 3 | 4 => 8
  | 5 | 6 | 7 | 14 | 15 => 16
  | _ => 32

/-- The bits of a pixel. -/
def Lcd.bpp (s : Lcd) (i : Nat) : Nat := lcdBpp (lcdField (s.wincon i) 2 0xF)

/-- The pixels are indices of the palette. -/
def Lcd.palletized (s : Lcd) (i : Nat) : Bool := lcdField (s.wincon i) 2 0xF ≤ 3

/-- The values that `coef_decode` knows. -/
def lcdCoefLegal (x : Nat) : Bool := x ≤ 5 || (10 ≤ x && x ≤ 13)

/-- All coefficients of a window are values that `coef_decode` knows. -/
def Lcd.coefsLegal (s : Lcd) (i : Nat) : Bool :=
  [18, 12, 6, 0].all fun shift => lcdCoefLegal (lcdField (s.regs (.window i .blendeq, 0)) shift 0xF)

/-- The buffers are not those of the screen. -/
def Lcd.resized (s : Lcd) : Bool :=
  s.ifb = none ∨ s.consoleWidth ≠ s.globalWidth ∨ s.consoleHeight ≠ s.globalHeight

/-- `s5pc1xx_update_resolution`. -/
def lcdUpdateResolution (s : Lcd) : Lcd :=
  if s.resized then
    { s with
      consoleWidth := s.globalWidth
      consoleHeight := s.globalHeight
      ifb := some (s.globalWidth * s.globalHeight * 7)
      markBytes := s.globalHeight >>> 3
      invalidate := true }
  else s

/-! ### An update -/

/-- What an update finds outside of the controller. -/
structure LcdScan where
  /-- `ds_get_bits_per_pixel`. -/
  bitsPerPixel : Nat
  /-- The first pass comes to a line of a window and finds it dirty. -/
  dirty : Nat → Nat → Bool
  /-- The first pass comes to its end: no reset of dirty flags aborts it. -/
  passes : Bool
  /-- The host address of a window, from `cpu_physical_memory_map`. -/
  map : Nat → Option Nat
  /-- `ldq_raw` of a host address. -/
  ldq : Nat → BitVec 64

/-- `memset` of `valid_line`. -/
def lcdClearMarks (s : Lcd) : Option Lcd :=
  let bytes := (s.globalHeight + 7) >>> 3
  if bytes ≤ s.markBytes then
    some { s with validLine := fun y => decide (y >>> 3 < bytes) || s.validLine y }
  else none

/-- The mark of a line is cleared. -/
def Lcd.mark (s : Lcd) (y : Nat) : Option Lcd :=
  if y >>> 3 < s.markBytes then some { s with validLine := Function.update s.validLine y false }
  else none

/-- A line of a window that is dirty has its mark cleared. -/
def lcdMarkLine (scan : LcdScan) (i : Nat) (s : Lcd) (line : Nat) : Option Lcd :=
  if scan.dirty i line then s.mark (line + s.lefttopY i) else some s

/-- The lines of a window that is shown. -/
def lcdMarkWindow (scan : LcdScan) (s : Lcd) (i : Nat) : Option Lcd :=
  if s.enabled i then runFrom (lcdMarkLine scan i) s (s.rows i) else some s

/-- The first pass: the lines of the display that need to be redrawn. -/
def lcdMark (scan : LcdScan) (s : Lcd) : Option Lcd :=
  (lcdClearMarks s).bind fun s => runFrom (lcdMarkWindow scan) s (List.range 5)

/-- A line has to be drawn.  The marks are not read when all lines have to be. -/
def Lcd.needsRow (s : Lcd) (y : Nat) : Option Bool :=
  if s.invalidate then some true
  else if y >>> 3 < s.markBytes then some (!s.validLine y || !s.validLinePrev y)
  else none

/-- The loop variables of `draw_line`: what is left of the width, the place in `ifb` in pixels, and
    the source. -/
structure LcdLine where
  width : Int
  dst : Nat
  src : Nat

/-- A pixel of seven bytes inside of `ifb`. -/
def Lcd.inIfb (s : Lcd) (pixel : Nat) : Bool := pixel * 7 + 7 ≤ s.ifb.getD 0

/-- A turn of `draw_line`: as many pixels as a word of 64 bits has.  The pixels of the windows below
    are read from where this window is drawn. -/
def lcdDrawWord (s : Lcd) (scan : LcdScan) (i : Nat) (l : LcdLine) : Option (LcdLine × Bool) :=
  let pixels := 64 / s.bpp i
  let data := scan.ldq l.src
  if ∀ k < pixels, s.inIfb (l.dst + k) = true ∧
      (s.palletized i = true →
        (data >>> (s.bpp i * k)).toNat % 2 ^ s.bpp i < (LcdReg.window i .palette).size) then
    some ({ width := l.width - pixels, dst := l.dst + pixels, src := l.src + 8 },
      decide (0 < l.width - pixels))
  else none

/-- `draw_line`; the width bounds the turns. -/
def lcdDrawLine (s : Lcd) (scan : LcdScan) (i dst src : Nat) : Option LcdLine :=
  loopFor (lcdDrawWord s scan i) ((s.width i).toNat + 1) { width := s.width i, dst, src }

/-- A line of a window that has been drawn, and the host address it has been drawn from. -/
structure LcdDrawn where
  window : Nat
  row : Nat
  src : Nat
  deriving DecidableEq

/-- `lcd_update` goes on, has returned, or has stopped the emulator. -/
inductive LcdEnd
  | goesOn | returned | stopped
  deriving DecidableEq

/-- A turn of the loop over the lines of a window. -/
def lcdDrawRow (s : Lcd) (scan : LcdScan) (i mapline : Nat) (drawn : List LcdDrawn) (line : Nat) :
    Option (List LcdDrawn) :=
  let y := line + s.lefttopY i
  let src := mapline + line * s.incSize i
  (s.needsRow y).bind fun needs =>
    if needs then
      (lcdDrawLine s scan i (s.lefttopX i + y * s.globalWidth) src).map fun _ =>
        drawn ++ [⟨i, y, src⟩]
    else some drawn

/-- The memory of a window as the host has it; no memory is mapped at a length of `0`. -/
def Lcd.mapline (s : Lcd) (scan : LcdScan) (i : Nat) : Option Nat :=
  if s.mapLen i = 0 then none else scan.map i

/-- The second pass over the windows that are left. -/
def lcdDraw (s : Lcd) (scan : LcdScan) : List Nat → List LcdDrawn → Option (LcdEnd × List LcdDrawn)
  | [], drawn => some (.goesOn, drawn)
  | i :: is, drawn =>
    if s.enabled i = false then lcdDraw s scan is drawn
    else if s.coefsLegal i = false then some (.stopped, drawn)
    else match s.mapline scan i with
      | none => some (.returned, drawn)
      | some mapline =>
        (runFrom (lcdDrawRow s scan i mapline) drawn (s.rows i)).bind (lcdDraw s scan is)

/-- The depths that `putpixel_by_bpp` knows. -/
def lcdBppKnown (bpp : Nat) : Bool := [8, 15, 16, 24, 32].contains bpp

/-- `cfg.width` behind the second pass, which has set it for each window that is shown. -/
def Lcd.lastWidth (s : Lcd) : Int := (s.windows.getLast?.map s.width).getD 0

/-- The pixels of a line that `draw_line_copy` copies.  It copies the first one before it looks at
    the width. -/
def Lcd.copyWidth (s : Lcd) : Nat := max 1 s.lastWidth.toNat

/-- The last pass copies the start of each line of the screen from `ifb` to the console, as far as
    the last window is wide.  It returns how far. -/
def lcdCopy (s : Lcd) : Option Nat :=
  if ∀ line < s.globalHeight, ∀ x < s.copyWidth, s.inIfb (s.globalWidth * line + x) = true then
    some s.copyWidth
  else none

/-- The end of an update: the marks become those of the update before. -/
def lcdSwap (s : Lcd) : Lcd :=
  lcdUpdateIrq { s with
    validLine := s.validLinePrev
    validLinePrev := s.validLine
    invalidate := false
    regs := Function.update s.regs (.own .vidintcon, 1) (s.regs (.own .vidintcon, 1) ||| 2) }

/-- What an update has drawn, and how many pixels of each line of the screen it has copied to the
    console. -/
structure LcdShown where
  drawn : List LcdDrawn
  copied : Nat

/-- `s5pc1xx_lcd_update`. -/
def lcdUpdate (s : Lcd) (scan : LcdScan) : Option (Lcd × LcdShown) :=
  if scan.bitsPerPixel = 0 ∨ s.displayOn = false then some (s, ⟨[], 0⟩)
  else
    (lcdMark scan (lcdUpdateResolution s)).bind fun s =>
      if scan.passes = false then some ({ s with stopped := true }, ⟨[], 0⟩)
      else
        (lcdDraw s scan (List.range 5) []).bind fun r =>
          match r with
          | (.stopped, drawn) => some ({ s with stopped := true }, ⟨drawn, 0⟩)
          | (.returned, drawn) => some (s, ⟨drawn, 0⟩)
          | (.goesOn, []) => some (lcdSwap s, ⟨[], 0⟩)
          | (.goesOn, drawn) =>
            if lcdBppKnown scan.bitsPerPixel then
              (lcdCopy s).map fun copied => (lcdSwap s, ⟨drawn, copied⟩)
            else some ({ s with stopped := true }, ⟨drawn, 0⟩)

/-! ### Runs -/

/-- A write of the guest, or an update of the screen. -/
inductive LcdOp
  | write (offset : Nat) (val : BitVec 32)
  | update (scan : LcdScan)
  | invalidate

/-- After `hw_error` there is nothing more. -/
def lcdStep (s : Lcd) (op : LcdOp) : Option Lcd :=
  if s.stopped then some s
  else match op with
    | .write offset val => lcdWrite s offset val
    | .update scan => (lcdUpdate s scan).map Prod.fst
    | .invalidate => some { s with invalidate := true }

end Qemu.Hw
