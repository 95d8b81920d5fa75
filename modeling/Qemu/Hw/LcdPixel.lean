import Qemu.Hw.Lcd

namespace Qemu.Hw

open Lib

/-!
# The colours of the LCD controller

How `draw_line` turns the pixels of a window into colours and blends them over those of the windows
below.  A pixel `p` is converted from the format of the window, blended with the pixel `p_old` of
the internal frame buffer, and put back there.

* `pixelToRgb` — the conversions that `DEF_PIXEL_TO_RGB` defines; `pixel1555ToRgb` is the one that
  leaves the alpha value as it is;
* `LcdCoef.value` — the coefficient functions;
* `blendAlpha`, `blendColorkey` — the blending functions;
* `Lcd.drawConfig` — the configuration that `s5pc1xx_lcd_update` takes from the registers of a
  window;
* `lcdDrawOp` — the body of the loop of `draw_line`.

An index outside of a table of alpha values is `none`.
-/

/-- `rgba`. -/
structure Rgba where
  r : BitVec 8
  g : BitVec 8
  b : BitVec 8
  a : BitVec 32
  deriving DecidableEq

/-- A pixel of zero bytes. -/
def Rgba.blank : Rgba := ⟨0, 0, 0, 0⟩

/-- `(x >> shift) & 0xFF`. -/
def lcdByte (x : BitVec 32) (shift : Nat) : BitVec 8 := (x >>> shift).setWidth 8

/-! ### Pixel formats -/

/-- `(pixel & ((1 << n) - 1)) << (8 - n)`. -/
def lcdLowBits (n : Nat) (pixel : BitVec 32) : BitVec 32 :=
  (pixel &&& ((1 <<< n) - 1)) <<< (8 - n)

/-- The conversions of `DEF_PIXEL_TO_RGB`, by the bits of the channels. -/
def pixelToRgb (r g b a : Nat) (pixel : BitVec 32) : Rgba where
  b := (lcdLowBits b pixel).setWidth 8
  g := (lcdLowBits g (pixel >>> b)).setWidth 8
  r := (lcdLowBits r (pixel >>> b >>> g)).setWidth 8
  a :=
    let pixel := pixel >>> b >>> g >>> r
    if a = 1 then pixel &&& 1
    else if a = 8 then ((pixel &&& 0xFF) <<< 16) ||| ((pixel &&& 0xFF) <<< 8) ||| (pixel &&& 0xFF)
    else lcdLowBits a pixel

/-- `pixel_a232_to_rgb` -/
def pixelA232ToRgb : BitVec 32 → Rgba := pixelToRgb 2 3 2 1

/-- `pixel_a444_to_rgb` -/
def pixelA444ToRgb : BitVec 32 → Rgba := pixelToRgb 4 4 4 1

/-- `pixel_4444_to_rgb` -/
def pixel4444ToRgb : BitVec 32 → Rgba := pixelToRgb 4 4 4 4

/-- `pixel_565_to_rgb` -/
def pixel565ToRgb : BitVec 32 → Rgba := pixelToRgb 5 6 5 0

/-- `pixel_a555_to_rgb` -/
def pixelA555ToRgb : BitVec 32 → Rgba := pixelToRgb 5 5 5 1

/-- `pixel_555_to_rgb` -/
def pixel555ToRgb : BitVec 32 → Rgba := pixelToRgb 5 5 5 0

/-- `pixel_666_to_rgb` -/
def pixel666ToRgb : BitVec 32 → Rgba := pixelToRgb 6 6 6 0

/-- `pixel_a666_to_rgb` -/
def pixelA666ToRgb : BitVec 32 → Rgba := pixelToRgb 6 6 6 1

/-- `pixel_a665_to_rgb` -/
def pixelA665ToRgb : BitVec 32 → Rgba := pixelToRgb 6 6 5 1

/-- `pixel_888_to_rgb` -/
def pixel888ToRgb : BitVec 32 → Rgba := pixelToRgb 8 8 8 0

/-- `pixel_a888_to_rgb` -/
def pixelA888ToRgb : BitVec 32 → Rgba := pixelToRgb 8 8 8 1

/-- `pixel_a887_to_rgb` -/
def pixelA887ToRgb : BitVec 32 → Rgba := pixelToRgb 8 8 7 1

/-- `pixel_8888_to_rgb` -/
def pixel8888ToRgb : BitVec 32 → Rgba := pixelToRgb 8 8 8 8

/-- `pixel_1555_to_rgb`, which writes no alpha value. -/
def pixel1555ToRgb (pixel : BitVec 32) (p : Rgba) : Rgba :=
  let u := (pixel >>> 15) &&& 1
  { p with
    b := ((((pixel &&& 0x1F) <<< 1) ||| u) <<< 2).setWidth 8
    -- six bits of green and one more: the highest of them is lost
    g := (((((pixel >>> 5) &&& 0x3F) <<< 1) ||| u) <<< 2).setWidth 8
    r := (((((pixel >>> 11) &&& 0x1F) <<< 1) ||| u) <<< 2).setWidth 8 }

/-- The values of `pixel_to_rgb`. -/
inductive LcdPixelFormat
  | a232 | a444 | rgb4444 | rgb565 | a555 | rgb555 | rgb666 | a666 | a665 | rgb888 | a888 | a887
  | rgb8888 | rgb1555
  deriving DecidableEq

/-- A call of `pixel_to_rgb` with the pixel that was there before. -/
def LcdPixelFormat.toRgb (format : LcdPixelFormat) (pixel : BitVec 32) (p : Rgba) : Rgba :=
  match format with
  | .a232 => pixelA232ToRgb pixel
  | .a444 => pixelA444ToRgb pixel
  | .rgb4444 => pixel4444ToRgb pixel
  | .rgb565 => pixel565ToRgb pixel
  | .a555 => pixelA555ToRgb pixel
  | .rgb555 => pixel555ToRgb pixel
  | .rgb666 => pixel666ToRgb pixel
  | .a666 => pixelA666ToRgb pixel
  | .a665 => pixelA665ToRgb pixel
  | .rgb888 => pixel888ToRgb pixel
  | .a888 => pixelA888ToRgb pixel
  | .a887 => pixelA887ToRgb pixel
  | .rgb8888 => pixel8888ToRgb pixel
  | .rgb1555 => pixel1555ToRgb pixel p

/-- The formats whose alpha value is a colour and not a number of a table. -/
def LcdPixelFormat.alphaWide : LcdPixelFormat → Bool
  | .rgb4444 | .rgb8888 => true
  | _ => false

/-! ### Configuration -/

/-- The values of `coef_p`, `coef_q`, `coef_a` and `coef_b`. -/
inductive LcdCoef
  | zero | one | alphaa | oneMinusAlphaa | alphab | oneMinusAlphab | a | oneMinusA | b | oneMinusB
  deriving DecidableEq

/-- `coef_decode`; `none` is `hw_error`. -/
def coefDecode (x : Nat) : Option LcdCoef :=
  match x with
  | 0 => some .zero
  | 1 => some .one
  | 2 => some .alphaa
  | 3 => some .oneMinusAlphaa
  | 4 => some .alphab
  | 5 => some .oneMinusAlphab
  | 10 => some .a
  | 11 => some .oneMinusA
  | 12 => some .b
  | 13 => some .oneMinusB
  | _ => none

/-- `DrawConfig`, as far as it decides about colours. -/
structure LcdDrawConfig where
  pixelToRgb : LcdPixelFormat
  /-- `blend` is `blend_colorkey` and not `NULL`. -/
  blend : Bool
  coefP : LcdCoef
  coefQ : LcdCoef
  coefA : LcdCoef
  coefB : LcdCoef
  isPalletized : Bool
  bgAlpha : Vector (BitVec 32) 2
  fgAlpha : Vector (BitVec 32) 2
  colorKey : BitVec 32
  colorMask : BitVec 32
  colorCtl : BitVec 32
  fgAlphaPix : Bool
  bgAlphaPix : Bool
  /-- The bits of a pixel, which choose the function `draw_line`. -/
  bpp : Nat
  palette : Nat → BitVec 32
  fgPixelBlending : Bool
  bgPixelBlending : Bool
  fgAlphaSel : BitVec 8
  bgAlphaSel : BitVec 8

/-- The pixel formats of `s5pc1xx_parse_win_bppmode`, with `fg_alpha_pix`; `none` for the modes with
    a palette. -/
def lcdBppmodeFormat (mode : Nat) (pixelAlpha : Bool) : Option (LcdPixelFormat × Bool) :=
  match mode with
  | 0 | 1 | 2 | 3 => none
  | 4 => some (.a232, false)
  | 5 => some (.rgb565, false)
  | 6 => some (.a555, false)
  | 7 => some (.rgb1555, false)
  | 8 => some (.rgb666, false)
  | 9 => some (.a665, false)
  | 10 => some (.a666, false)
  | 11 => some (.rgb888, false)
  | 12 => some (.a887, false)
  | 13 => some (if pixelAlpha then .rgb8888 else .a888, pixelAlpha)
  | 14 => some (if pixelAlpha then .rgb4444 else .a444, pixelAlpha)
  | _ => some (.rgb555, false)

/-- `wxpal_to_rgb`. -/
def wxpalToRgb (wxpal : Nat) : LcdPixelFormat :=
  match wxpal with
  | 0 => .rgb565
  | 1 => .a555
  | 2 => .rgb666
  | 3 => .a665
  | 4 => .a666
  | 5 => .rgb888
  | 6 => .a888
  | _ => .rgb8888

namespace Lcd

variable (s : Lcd) (i : Nat)

/-- `s5pc1xx_wxpal`. -/
def wxpal : Nat :=
  let wpalcon (k : Nat) := s.regs (.own .wpalcon, k)
  match i with
  | 0 => lcdField (wpalcon 1) 0 7
  | 1 => lcdField (wpalcon 1) 3 7
  | 2 => lcdField (wpalcon 0) 8 6 ||| lcdField (wpalcon 1) 6 1
  | 3 => lcdField (wpalcon 0) 12 6 ||| lcdField (wpalcon 1) 7 1
  | _ => lcdField (wpalcon 0) 16 6 ||| lcdField (wpalcon 1) 8 1

/-- The format of the pixels of a window or of its palette, and `fg_alpha_pix`. -/
def format : LcdPixelFormat × Bool :=
  let pixelAlpha := (s.wincon i).getLsbD 6 && (s.wincon i).getLsbD 1
  (lcdBppmodeFormat (lcdField (s.wincon i) 2 0xF) pixelAlpha).getD
    -- the first two windows number the formats of their palettes the other way round
    (wxpalToRgb (if i < 2 ∧ s.wxpal i < 7 then 6 - s.wxpal i else s.wxpal i), s.wxpal i = 7)

end Lcd

/-- `unpack_by_4`. -/
def unpackBy4 (x : BitVec 32) : BitVec 32 :=
  ((x &&& 0xF00) <<< 12) ||| ((x &&& 0xF0) <<< 8) ||| ((x &&& 0xF) <<< 4)

/-- `fg_alpha`.  Both values of the upper windows take their low halves from one register. -/
def Lcd.fgAlpha (s : Lcd) (i : Nat) : Vector (BitVec 32) 2 :=
  let vidwAlpha (k : Nat) := s.regs (.window i .vidwAlpha, k)
  let vidosd := s.regs (.window i .vidosd, 3)
  if i = 0 then #v[vidwAlpha 0, vidwAlpha 1]
  else #v[unpackBy4 ((vidosd &&& 0xFFF000) >>> 12) ||| (vidwAlpha 0 &&& 0xF0F0F),
    unpackBy4 (vidosd &&& 0xFFF) ||| (vidwAlpha 0 &&& 0xF0F0F)]

/-- What `s5pc1xx_lcd_update` puts into `cfg` for an enabled window; `none` is `hw_error`. -/
def Lcd.drawConfig (s : Lcd) (i : Nat) : Option LcdDrawConfig := do
  let blendeq := s.regs (.window i .blendeq, 0)
  let coefQ ← coefDecode (lcdField blendeq 18 0xF)
  let coefP ← coefDecode (lcdField blendeq 12 0xF)
  let coefB ← coefDecode (lcdField blendeq 6 0xF)
  let coefA ← coefDecode (lcdField blendeq 0 0xF)
  some
    { pixelToRgb := (s.format i).1
      -- only the first window that is enabled is not blended
      blend := (List.range i).any s.enabled
      coefP, coefQ, coefA, coefB
      isPalletized := s.palletized i
      bgAlpha := #v[0, 0]
      fgAlpha := s.fgAlpha i
      colorKey := s.regs (.window i .keycon, 1)
      colorMask := s.regs (.window i .keycon, 0) &&& 0xFFFFFF
      colorCtl := (s.regs (.window i .keycon, 0) >>> 24) &&& 7
      fgAlphaPix := (s.format i).2
      bgAlphaPix := true
      bpp := s.bpp i
      palette := fun k => s.regs (.window i .palette, k)
      fgPixelBlending := (s.wincon i).getLsbD 6
      bgPixelBlending := true
      fgAlphaSel := ((s.wincon i >>> 1) &&& 1).setWidth 8
      bgAlphaSel := 0 }

/-! ### Coefficients -/

/-- `coef_alphaa`. -/
def coefAlphaa (cfg : LcdDrawConfig) (pa : Rgba) : Option (BitVec 32) :=
  let a := if cfg.fgPixelBlending then pa.a else cfg.fgAlphaSel.setWidth 32
  if cfg.fgAlphaPix then some a else cfg.fgAlpha[a.toNat]?

/-- `coef_alphab`. -/
def coefAlphab (cfg : LcdDrawConfig) (pb : Rgba) : Option (BitVec 32) :=
  let a := if cfg.bgPixelBlending then pb.a else cfg.bgAlphaSel.setWidth 32
  if cfg.bgAlphaPix then some a else cfg.bgAlpha[a.toNat]?

/-- `coef_a` and `coef_b`: the colour of a pixel. -/
def lcdColor (p : Rgba) : BitVec 32 :=
  (p.r.setWidth 32 <<< 16) ||| (p.g.setWidth 32 <<< 8) ||| p.b.setWidth 32

/-- A call of a coefficient function. -/
def LcdCoef.value (coef : LcdCoef) (cfg : LcdDrawConfig) (pa pb : Rgba) : Option (BitVec 32) :=
  match coef with
  | .zero => some 0
  | .one => some 0xFFFFFF
  | .alphaa => coefAlphaa cfg pa
  | .oneMinusAlphaa => (coefAlphaa cfg pa).map (0xFFFFFF - ·)
  | .alphab => coefAlphab cfg pb
  | .oneMinusAlphab => (coefAlphab cfg pb).map (0xFFFFFF - ·)
  | .a => some (lcdColor pa)
  | .oneMinusA => some (0xFFFFFF - lcdColor pa)
  | .b => some (lcdColor pb)
  | .oneMinusB => some (0xFFFFFF - lcdColor pb)

/-! ### Blending -/

/-- `(bg * b + fg * a) / 0xFF`, and `0xFF` if it is more. -/
def lcdMix (bg b fg a : BitVec 8) : BitVec 8 :=
  let v := (bg.setWidth 32 * b.setWidth 32 + fg.setWidth 32 * a.setWidth 32) / (0xFF : BitVec 32)
  if v > 0xFF then 0xFF else v.setWidth 8

/-- The alpha value of the new pixel that `blend_alpha` goes by. -/
def LcdDrawConfig.fga (cfg : LcdDrawConfig) (pFg : Rgba) : Option (BitVec 32) :=
  if cfg.fgPixelBlending then
    if cfg.fgAlphaPix then some pFg.a else cfg.fgAlpha[pFg.a.toNat]?
  else cfg.fgAlpha[cfg.fgAlphaSel.toNat]?

/-- The alpha value of the old pixel that `blend_alpha` goes by. -/
def LcdDrawConfig.bga (cfg : LcdDrawConfig) (pBg : Rgba) : Option (BitVec 32) :=
  if cfg.bgPixelBlending then
    if cfg.bgAlphaPix then some pBg.a else cfg.bgAlpha[pBg.a.toNat]?
  else cfg.bgAlpha[cfg.bgAlphaSel.toNat]?

/-- `blend_alpha`. -/
def blendAlpha (cfg : LcdDrawConfig) (pBg pFg : Rgba) : Option Rgba := do
  let p ← cfg.coefP.value cfg pFg pBg
  let q ← cfg.coefQ.value cfg pFg pBg
  let a ← cfg.coefA.value cfg pFg pBg
  let b ← cfg.coefB.value cfg pFg pBg
  let fga ← cfg.fga pFg
  let bga ← cfg.bga pBg
  let alpha (shift : Nat) : BitVec 32 :=
    (lcdMix (lcdByte bga shift) (lcdByte p shift) (lcdByte fga shift)
      (lcdByte q shift)).setWidth 32 <<< shift
  some
    { b := lcdMix pBg.b (lcdByte b 0) pFg.b (lcdByte a 0)
      g := lcdMix pBg.g (lcdByte b 8) pFg.g (lcdByte a 8)
      r := lcdMix pBg.r (lcdByte b 16) pFg.r (lcdByte a 16)
      a := alpha 0 ||| alpha 8 ||| alpha 16 }

namespace LcdDrawConfig

variable (cfg : LcdDrawConfig)

/-- The colour key is off, and every pixel is blended. -/
def keyOff : Bool := cfg.colorCtl.getLsbD 1

/-- The key is compared with the new pixel and not with the old one. -/
def keyNew : Bool := cfg.colorCtl.getLsbD 0

/-- The key decides about the alpha value and not about the pixel. -/
def keyBlends : Bool := cfg.colorCtl.getLsbD 2

/-- A pixel has the key colour, but for the bits of the mask. -/
def keyMatches (p : Rgba) : Bool :=
  let key := cfg.colorKey &&& ~~~cfg.colorMask
  p.r &&& ~~~lcdByte cfg.colorMask 16 = lcdByte key 16 &&
    (p.g &&& ~~~lcdByte cfg.colorMask 8 = lcdByte key 8 &&
      p.b &&& ~~~lcdByte cfg.colorMask 0 = lcdByte key 0)

/-- Blending goes by `fg_alpha_sel` and not by the alpha values of pixels. -/
def selBlending : LcdDrawConfig := { cfg with fgPixelBlending := false }

/-- The pixel in which the key is looked for. -/
def keyed (pBg pFg : Rgba) : Rgba := if cfg.keyNew then pFg else pBg

end LcdDrawConfig

/-- The variables of `draw_line`: the configuration of the window, which blending may change, and
    the last pixel. -/
structure LcdPen where
  cfg : LcdDrawConfig
  p : Rgba

/-- `blend_colorkey`. -/
def blendColorkey (cfg : LcdDrawConfig) (pBg pFg : Rgba) : Option LcdPen :=
  if cfg.keyOff then (blendAlpha cfg pBg pFg).map (LcdPen.mk cfg)
  else
    let hit := cfg.keyMatches (cfg.keyed pBg pFg)
    if cfg.keyBlends then
      -- this alpha value is not looked at, as `fg_pixel_blending` is now zero, and remains so
      (blendAlpha cfg.selBlending pBg { pFg with a := if hit then 1 else 0 }).map
        (LcdPen.mk cfg.selBlending)
    else some ⟨cfg, if hit = cfg.keyNew then pBg else pFg⟩

/-- What happens while the lines of a window are drawn. -/
inductive LcdDrawOp
  /-- A call of `draw_line`, whose `p` has no value. -/
  | line (p : Rgba)
  /-- A turn of its loop. -/
  | pixel (data : BitVec 64) (pOld : Rgba)

/-- The pixel at the low end of a word, or its colour in the palette. -/
def LcdDrawConfig.pixelOf (cfg : LcdDrawConfig) (data : BitVec 64) : BitVec 32 :=
  let pixel := data &&& ((1 <<< cfg.bpp) - 1)
  if cfg.isPalletized then cfg.palette pixel.toNat else pixel.setWidth 32

/-- What a pixel does to the pen. -/
def lcdDrawOp (pen : LcdPen) (op : LcdDrawOp) : Option LcdPen :=
  match op with
  | .line p => some ⟨pen.cfg, p⟩
  | .pixel data pOld =>
    let p := pen.cfg.pixelToRgb.toRgb (pen.cfg.pixelOf data) pen.p
    if pen.cfg.blend then blendColorkey pen.cfg pOld p else some ⟨pen.cfg, p⟩

end Qemu.Hw
