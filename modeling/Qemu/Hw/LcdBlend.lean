import Qemu.Hw.LcdPixel
import Mathlib.Tactic.IntervalCases

namespace Qemu.Hw

open Lib

/-!
# Blending of the windows of the LCD controller

What the blend of a pixel depends on.

* `LcdMixes` — the channels of a pixel are those of two others, weighed with two coefficients;
* `LcdDrawConfig.selected` — the coefficients that the registers of a window select for a pair;
* `LcdBlendsAlone` — each pair of pixels has one blend, whatever has been drawn before;
* `LcdDrawConfig.AlphaKnown` — no alpha value is used that the format of the window leaves out;
* `lcd_blend` — the windows that blend alone are those of known alpha values.
-/

/-! ### Weights -/

/-- A mix of two colors, cut off at 255. -/
theorem lcdMix_toNat (bg b fg a : BitVec 8) :
    (lcdMix bg b fg a).toNat = min 255 ((fg.toNat * a.toNat + bg.toNat * b.toNat) / 255) := by
  have hfg : fg.toNat * a.toNat ≤ 255 * 255 := Nat.mul_le_mul (by omega) (by omega)
  have hbg : bg.toNat * b.toNat ≤ 255 * 255 := Nat.mul_le_mul (by omega) (by omega)
  generalize hv : (bg.setWidth 32 * b.setWidth 32 + fg.setWidth 32 * a.setWidth 32) /
    (0xFF : BitVec 32) = v
  -- nothing overflows in 32 bits
  have hval : v.toNat = (fg.toNat * a.toNat + bg.toNat * b.toNat) / 255 := by
    have h255 : (0xFF : BitVec 32).toNat = 255 := rfl
    rw [← hv, BitVec.toNat_udiv, h255, BitVec.toNat_add, BitVec.toNat_mul, BitVec.toNat_mul]
    simp only [BitVec.toNat_setWidth_of_le (show 8 ≤ 32 by decide)]
    rw [Nat.mod_eq_of_lt (a := bg.toNat * b.toNat) (by omega),
      Nat.mod_eq_of_lt (a := fg.toNat * a.toNat) (by omega), Nat.mod_eq_of_lt (by omega),
      Nat.add_comm]
  rw [lcdMix, hv, ← hval]
  by_cases h : v > 0xFF
  · have hlt : 255 < v.toNat := h
    rw [if_pos h, Nat.min_eq_left (Nat.le_of_lt hlt)]
    rfl
  · have hle : v.toNat ≤ 255 := Nat.le_of_not_lt h
    rw [if_neg h, Nat.min_eq_right hle, BitVec.toNat_setWidth]
    omega

/-- Each channel of `q` is that of `fg` and that of `bg`, weighed with the bytes of `a` and of `b`,
    over 255 and at most 255. -/
structure LcdMixes (a b : BitVec 32) (fg bg q : Rgba) : Prop where
  r : q.r.toNat =
    min 255 ((fg.r.toNat * (lcdByte a 16).toNat + bg.r.toNat * (lcdByte b 16).toNat) / 255)
  g : q.g.toNat =
    min 255 ((fg.g.toNat * (lcdByte a 8).toNat + bg.g.toNat * (lcdByte b 8).toNat) / 255)
  b : q.b.toNat =
    min 255 ((fg.b.toNat * (lcdByte a 0).toNat + bg.b.toNat * (lcdByte b 0).toNat) / 255)

theorem LcdMixes.fg (fg bg : Rgba) : LcdMixes 0xFFFFFF 0 fg bg fg := by
  have channel : ∀ x y : BitVec 8, x.toNat = min 255 ((x.toNat * 255 + y.toNat * 0) / 255) := by
    intro x y
    omega
  exact ⟨channel _ _, channel _ _, channel _ _⟩

theorem LcdMixes.bg (fg bg : Rgba) : LcdMixes 0 0xFFFFFF fg bg bg := by
  have channel : ∀ x y : BitVec 8, y.toNat = min 255 ((x.toNat * 0 + y.toNat * 255) / 255) := by
    intro x y
    omega
  exact ⟨channel _ _, channel _ _, channel _ _⟩

/-! ### The property -/

namespace LcdDrawConfig

variable (cfg : LcdDrawConfig)

/-- The new pixel of a word, with no alpha value where the format has none. -/
def foreground (data : BitVec 64) : Rgba := cfg.pixelToRgb.toRgb (cfg.pixelOf data) Rgba.blank

/-- `coef_a` and `coef_b` of a pair of pixels. -/
def coefs (fg bg : Rgba) : Option (BitVec 32 × BitVec 32) :=
  (cfg.coefA.value cfg fg bg).bind fun a => (cfg.coefB.value cfg fg bg).map fun b => (a, b)

/-- The coefficients of the two pixels: those that the registers name, unless the colour key chooses
    one pixel as it is. -/
def selected (fg bg : Rgba) : Option (BitVec 32 × BitVec 32) :=
  if cfg.keyOff then cfg.coefs fg bg
  else if cfg.keyBlends then cfg.selBlending.coefs fg bg
  else if cfg.keyMatches (cfg.keyed bg fg) = cfg.keyNew then some (0, 0xFFFFFF)
  else some (0xFFFFFF, 0)

/-- Whichever pixel of the format 1555 is compared with the key, it has the key colour: the mask
    hides the bits of the channels, and the key has no others. -/
def KeyHides : Prop :=
  ∀ shift ∈ [0, 8, 16], 0xFC &&& ~~~lcdByte cfg.colorMask shift = 0 ∧
    lcdByte (cfg.colorKey &&& ~~~cfg.colorMask) shift = 0

/-- The window has another format than 1555 or goes by no alpha value of its pixels. -/
def AlphaKnown : Prop :=
  cfg.pixelToRgb = .rgb1555 →
    if cfg.keyOff then cfg.fgPixelBlending = false
    else cfg.keyBlends = true ∨ cfg.keyNew = true ∧ cfg.KeyHides

instance keyHidesDecidable : Decidable cfg.KeyHides :=
  inferInstanceAs (Decidable (∀ shift ∈ [0, 8, 16], _ ∧ _))

instance alphaKnownDecidable : Decidable cfg.AlphaKnown :=
  inferInstanceAs (Decidable (_ → if cfg.keyOff then _ else _))

end LcdDrawConfig

/-- A new and an old pixel have one blend, by the selected coefficients, whatever has been drawn
    before in the window; and every alpha value is found in its table. -/
def LcdBlendsAlone (cfg : LcdDrawConfig) : Prop :=
  ∀ data pOld, ∃ q,
    (∃ a b, cfg.selected (cfg.foreground data) pOld = some (a, b) ∧
      LcdMixes a b (cfg.foreground data) pOld q) ∧
    ∀ p ops pen, runFrom lcdDrawOp ⟨cfg, p⟩ ops = some pen →
      ∃ pen', lcdDrawOp pen (.pixel data pOld) = some pen' ∧ pen'.p = q

/-! ### Pixel formats -/

namespace LcdPixelFormat

theorem toRgb_eq {format : LcdPixelFormat} (h : format ≠ .rgb1555) (pixel : BitVec 32)
    (p p' : Rgba) : format.toRgb pixel p = format.toRgb pixel p' := by
  cases format with
  | rgb1555 => exact absurd rfl h
  | _ => rfl

theorem toRgb_rgb1555 (pixel : BitVec 32) (p : Rgba) :
    rgb1555.toRgb pixel p = { rgb1555.toRgb pixel Rgba.blank with a := p.a } := rfl

theorem pixelToRgb_alpha_lt (r g b : Nat) {a : Nat} (ha : a < 2) (pixel : BitVec 32) :
    (pixelToRgb r g b a pixel).a.toNat < 2 := by
  obtain rfl | rfl : a = 0 ∨ a = 1 := by omega
  · have hzero : (pixelToRgb r g b 0 pixel).a = 0 := by
      simp [pixelToRgb, lcdLowBits]
    rw [hzero]
    decide
  · have hle : (pixelToRgb r g b 1 pixel).a.toNat ≤ (1 : BitVec 32).toNat := by
      rw [pixelToRgb]
      exact Nat.and_le_right
    exact Nat.lt_succ_of_le hle

theorem toRgb_alpha_lt {format : LcdPixelFormat} (hwide : format.alphaWide = false)
    (pixel : BitVec 32) : (format.toRgb pixel Rgba.blank).a.toNat < 2 := by
  cases format with
  | rgb4444 | rgb8888 => exact absurd hwide (by decide)
  | rgb1555 => exact Nat.zero_lt_two
  | _ => exact pixelToRgb_alpha_lt _ _ _ (by decide) pixel

theorem low_bits_clear (x : BitVec 32) :
    (0xFC : BitVec 8) &&& (x <<< 2).setWidth 8 = (x <<< 2).setWidth 8 := by
  ext i hi
  interval_cases i <;> simp

end LcdPixelFormat

/-! ### Configurations -/

/-- What holds of the configuration of every window. -/
structure LcdDrawConfig.Wf (cfg : LcdDrawConfig) : Prop where
  bgBlending : cfg.bgPixelBlending = true
  bgPix : cfg.bgAlphaPix = true
  sel : cfg.fgAlphaSel.toNat < 2
  wide : cfg.pixelToRgb.alphaWide = cfg.fgAlphaPix
  deep : cfg.pixelToRgb = .rgb1555 → cfg.isPalletized = false ∧ cfg.bpp = 16

theorem lcdBppmodeFormat_wide {mode : Nat} {pixelAlpha : Bool} {f : LcdPixelFormat × Bool}
    (h : lcdBppmodeFormat mode pixelAlpha = some f) : f.1.alphaWide = f.2 := by
  unfold lcdBppmodeFormat at h
  split at h <;> cases h
  case h_14 | h_15 => cases pixelAlpha <;> rfl
  all_goals rfl

theorem lcdBppmodeFormat_rgb1555 {mode : Nat} {pixelAlpha : Bool} {f : LcdPixelFormat × Bool}
    (h : lcdBppmodeFormat mode pixelAlpha = some f) (hf : f.1 = .rgb1555) : mode = 7 := by
  unfold lcdBppmodeFormat at h
  split at h <;> cases h
  case h_8 => rfl
  case h_14 | h_15 => cases pixelAlpha <;> cases hf
  all_goals cases hf

theorem wxpalToRgb_wide {x : Nat} (h : x < 8) : (wxpalToRgb x).alphaWide = decide (x = 7) := by
  interval_cases x <;> rfl

theorem wxpalToRgb_ne (x : Nat) : wxpalToRgb x ≠ .rgb1555 := by
  unfold wxpalToRgb
  split <;> exact LcdPixelFormat.noConfusion

namespace Lcd

variable (s : Lcd) (i : Nat)

theorem wxpal_lt : s.wxpal i < 8 := by
  have field {x : BitVec 32} {shift mask : Nat} (h : mask < 8) : lcdField x shift mask < 8 :=
    Nat.lt_of_le_of_lt Nat.and_le_right h
  unfold wxpal
  split
  · exact field (by decide)
  · exact field (by decide)
  all_goals exact Nat.or_lt_two_pow (n := 3) (field (by decide)) (field (by decide))

theorem format_cases :
    (∃ pixelAlpha, lcdBppmodeFormat (lcdField (s.wincon i) 2 0xF) pixelAlpha = some (s.format i)) ∨
      s.format i = (wxpalToRgb (if i < 2 ∧ s.wxpal i < 7 then 6 - s.wxpal i else s.wxpal i),
        decide (s.wxpal i = 7)) := by
  rw [format]
  cases h : lcdBppmodeFormat (lcdField (s.wincon i) 2 0xF)
      ((s.wincon i).getLsbD 6 && (s.wincon i).getLsbD 1) with
  | some f => exact .inl ⟨_, h⟩
  | none => exact .inr rfl

theorem format_wide : (s.format i).1.alphaWide = (s.format i).2 := by
  obtain ⟨pixelAlpha, h⟩ | h := s.format_cases i
  · exact lcdBppmodeFormat_wide h
  · have hlt := s.wxpal_lt i
    rw [h]
    by_cases hi : i < 2 ∧ s.wxpal i < 7
    · rw [if_pos hi, wxpalToRgb_wide (by omega)]
      exact decide_eq_decide.mpr (by omega)
    · rw [if_neg hi, wxpalToRgb_wide hlt]

theorem format_rgb1555 (hf : (s.format i).1 = .rgb1555) : lcdField (s.wincon i) 2 0xF = 7 := by
  obtain ⟨pixelAlpha, h⟩ | h := s.format_cases i
  · exact lcdBppmodeFormat_rgb1555 h hf
  · rw [h] at hf
    exact absurd hf (wxpalToRgb_ne _)

/-- The configuration of a window is well formed. -/
theorem drawConfig_wf {cfg : LcdDrawConfig} (h : s.drawConfig i = some cfg) : cfg.Wf := by
  simp only [drawConfig, Option.bind_eq_bind, Option.bind_eq_some_iff] at h
  obtain ⟨coefQ, -, coefP, -, coefB, -, coefA, -, h⟩ := h
  cases h
  refine ⟨rfl, rfl, ?_, s.format_wide i, fun h => ?_⟩
  · have hle : ((s.wincon i >>> 1) &&& 1).toNat ≤ (1 : BitVec 32).toNat := Nat.and_le_right
    refine Nat.lt_succ_of_le (Nat.le_trans ?_ hle)
    rw [BitVec.toNat_setWidth]
    exact Nat.mod_le _ _
  · have hmode := s.format_rgb1555 i h
    constructor
    · exact decide_eq_false (by omega)
    · show lcdBpp (lcdField (s.wincon i) 2 0xF) = 16
      rw [hmode]
      rfl

end Lcd

/-! ### Blending by alpha values -/

section Alpha

variable {cfg : LcdDrawConfig} {pBg pFg : Rgba}

/-- If the alpha value of the new pixel is looked up, it is a number of the table. -/
def LcdDrawConfig.AlphaFits (cfg : LcdDrawConfig) (pFg : Rgba) : Prop :=
  cfg.fgPixelBlending = true → cfg.fgAlphaPix = false → pFg.a.toNat < 2

theorem coefAlphaa_some (hwf : cfg.Wf) (h : cfg.AlphaFits pFg) :
    ∃ x, coefAlphaa cfg pFg = some x := by
  rw [coefAlphaa]
  by_cases hpix : cfg.fgAlphaPix = true
  · rw [if_pos hpix]
    exact ⟨_, rfl⟩
  · rw [if_neg hpix]
    refine ⟨_, getElem?_pos _ _ ?_⟩
    by_cases hblend : cfg.fgPixelBlending = true
    · rw [if_pos hblend]
      exact h hblend (Bool.eq_false_iff.mpr hpix)
    · rw [if_neg hblend, BitVec.toNat_setWidth_of_le (by decide)]
      exact hwf.sel

theorem coefAlphab_some (hwf : cfg.Wf) : coefAlphab cfg pBg = some pBg.a := by
  rw [coefAlphab, if_pos hwf.bgPix, if_pos hwf.bgBlending]

theorem LcdCoef.value_some (hwf : cfg.Wf) (h : cfg.AlphaFits pFg) (coef : LcdCoef) (pBg : Rgba) :
    ∃ x, coef.value cfg pFg pBg = some x := by
  obtain ⟨x, hx⟩ := coefAlphaa_some hwf h
  cases coef with
  | alphaa => exact ⟨x, hx⟩
  | oneMinusAlphaa => exact ⟨0xFFFFFF - x, congrArg (Option.map (0xFFFFFF - ·)) hx⟩
  | alphab => exact ⟨pBg.a, coefAlphab_some hwf⟩
  | oneMinusAlphab =>
    exact ⟨0xFFFFFF - pBg.a, congrArg (Option.map (0xFFFFFF - ·)) (coefAlphab_some hwf)⟩
  | _ => exact ⟨_, rfl⟩

theorem LcdDrawConfig.fga_some (hwf : cfg.Wf) (h : cfg.AlphaFits pFg) :
    ∃ x, cfg.fga pFg = some x := by
  rw [fga]
  by_cases hblend : cfg.fgPixelBlending = true
  · rw [if_pos hblend]
    by_cases hpix : cfg.fgAlphaPix = true
    · rw [if_pos hpix]
      exact ⟨_, rfl⟩
    · rw [if_neg hpix]
      exact ⟨_, getElem?_pos cfg.fgAlpha _ (h hblend (Bool.eq_false_iff.mpr hpix))⟩
  · rw [if_neg hblend]
    exact ⟨_, getElem?_pos cfg.fgAlpha _ hwf.sel⟩

theorem LcdDrawConfig.bga_some (hwf : cfg.Wf) : cfg.bga pBg = some pBg.a := by
  rw [bga, if_pos hwf.bgBlending, if_pos hwf.bgPix]

/-- **Blending by alpha values.**  If the new pixel has an alpha value in the table, then the
    channels are mixed by the coefficients. -/
theorem blendAlpha_some (hwf : cfg.Wf) (h : cfg.AlphaFits pFg) (pBg : Rgba) :
    ∃ a b q, cfg.coefs pFg pBg = some (a, b) ∧ blendAlpha cfg pBg pFg = some q ∧
      LcdMixes a b pFg pBg q := by
  obtain ⟨p, hp⟩ := LcdCoef.value_some hwf h cfg.coefP pBg
  obtain ⟨q, hq⟩ := LcdCoef.value_some hwf h cfg.coefQ pBg
  obtain ⟨a, ha⟩ := LcdCoef.value_some hwf h cfg.coefA pBg
  obtain ⟨b, hb⟩ := LcdCoef.value_some hwf h cfg.coefB pBg
  obtain ⟨x, hx⟩ := LcdDrawConfig.fga_some hwf h
  rw [LcdDrawConfig.coefs, blendAlpha, hp, hq, ha, hb, hx, LcdDrawConfig.bga_some hwf]
  refine ⟨a, b, _, rfl, rfl, ?_⟩
  exact ⟨lcdMix_toNat _ _ _ _, lcdMix_toNat _ _ _ _, lcdMix_toNat _ _ _ _⟩

theorem blendAlpha_none (hblend : cfg.fgPixelBlending = true) (hpix : cfg.fgAlphaPix = false)
    (h : 2 ≤ pFg.a.toNat) : blendAlpha cfg pBg pFg = none := by
  have hfga : cfg.fga pFg = none := by
    rw [LcdDrawConfig.fga, if_pos hblend, if_neg (Bool.eq_false_iff.mp hpix)]
    exact getElem?_neg _ _ (Nat.not_lt_of_le h)
  simp only [blendAlpha, Option.bind_eq_bind, hfga, Option.bind_none, Option.bind_fun_none]

theorem LcdCoef.value_sel (hblend : cfg.fgPixelBlending = false) (coef : LcdCoef) (x : BitVec 32) :
    coef.value cfg { pFg with a := x } pBg = coef.value cfg pFg pBg := by
  have halpha : coefAlphaa cfg { pFg with a := x } = coefAlphaa cfg pFg := by
    simp only [coefAlphaa, hblend, Bool.false_eq_true, if_false]
  cases coef with
  | alphaa => exact halpha
  | oneMinusAlphaa => exact congrArg (Option.map (0xFFFFFF - ·)) halpha
  | _ => rfl

theorem blendAlpha_sel (hblend : cfg.fgPixelBlending = false) (x : BitVec 32) :
    blendAlpha cfg pBg { pFg with a := x } = blendAlpha cfg pBg pFg := by
  have hfga : cfg.fga { pFg with a := x } = cfg.fga pFg := by
    simp only [LcdDrawConfig.fga, hblend, Bool.false_eq_true, if_false]
  simp only [blendAlpha, LcdCoef.value_sel hblend, hfga]

end Alpha

/-! ### Blending by colour key -/

namespace LcdDrawConfig

variable {cfg : LcdDrawConfig} {pBg pFg : Rgba}

/-- The configurations that a window comes to while it is drawn. -/
def Reaches (cfg cfg' : LcdDrawConfig) : Prop :=
  cfg' = cfg ∨ cfg.keyOff = false ∧ cfg.keyBlends = true ∧ cfg' = cfg.selBlending

theorem Reaches.blendColorkey_eq {cfg' : LcdDrawConfig} (h : cfg.Reaches cfg') (pBg pFg : Rgba) :
    (blendColorkey cfg' pBg pFg).map LcdPen.p = (blendColorkey cfg pBg pFg).map LcdPen.p := by
  obtain rfl | ⟨hoff, hblends, rfl⟩ := h
  · rfl
  · have hoff' : cfg.selBlending.keyOff = false := hoff
    have hblends' : cfg.selBlending.keyBlends = true := hblends
    simp only [blendColorkey, hoff, hoff', hblends, hblends', Bool.false_eq_true, if_false, if_true]
    rfl

/-- A color key reaches another configuration. -/
theorem Reaches.blendColorkey {cfg' : LcdDrawConfig} (h : cfg.Reaches cfg') {pen : LcdPen}
    (hpen : blendColorkey cfg' pBg pFg = some pen) : cfg.Reaches pen.cfg := by
  rw [Hw.blendColorkey] at hpen
  by_cases hoff : cfg'.keyOff = true
  · rw [if_pos hoff] at hpen
    obtain ⟨q, -, rfl⟩ := Option.map_eq_some_iff.mp hpen
    exact h
  rw [if_neg hoff] at hpen
  dsimp only at hpen
  by_cases hblends : cfg'.keyBlends = true
  · rw [if_pos hblends] at hpen
    obtain ⟨q, -, rfl⟩ := Option.map_eq_some_iff.mp hpen
    obtain rfl | ⟨hoff', hblends', rfl⟩ := h
    · exact .inr ⟨Bool.eq_false_iff.mpr hoff, hblends, rfl⟩
    · exact .inr ⟨hoff', hblends', rfl⟩
  · rw [if_neg hblends] at hpen
    obtain rfl := Option.some.inj hpen
    exact h

/-- **The blend of a pair.** -/
theorem blendColorkey_some (hwf : cfg.Wf) (h : cfg.AlphaFits pFg) (pBg : Rgba) :
    ∃ pen a b, blendColorkey cfg pBg pFg = some pen ∧ cfg.selected pFg pBg = some (a, b) ∧
      LcdMixes a b pFg pBg pen.p := by
  rw [Hw.blendColorkey, selected]
  by_cases hoff : cfg.keyOff = true
  · obtain ⟨a, b, q, hcoefs, hq, hmix⟩ := blendAlpha_some hwf h pBg
    rw [if_pos hoff, if_pos hoff, hq]
    exact ⟨_, a, b, rfl, hcoefs, hmix⟩
  rw [if_neg hoff, if_neg hoff]
  dsimp only
  by_cases hblends : cfg.keyBlends = true
  · have hwf' : cfg.selBlending.Wf := ⟨hwf.1, hwf.2, hwf.3, hwf.4, hwf.5⟩
    have hfits : cfg.selBlending.AlphaFits pFg := fun h => Bool.noConfusion h
    obtain ⟨a, b, q, hcoefs, hq, hmix⟩ := blendAlpha_some hwf' hfits pBg
    rw [if_pos hblends, if_pos hblends, blendAlpha_sel rfl, hq]
    exact ⟨_, a, b, rfl, hcoefs, hmix⟩
  rw [if_neg hblends, if_neg hblends]
  by_cases hhit : cfg.keyMatches (cfg.keyed pBg pFg) = cfg.keyNew
  · rw [if_pos hhit, if_pos hhit]
    exact ⟨_, _, _, rfl, rfl, LcdMixes.bg pFg pBg⟩
  · rw [if_neg hhit, if_neg hhit]
    exact ⟨_, _, _, rfl, rfl, LcdMixes.fg pFg pBg⟩

theorem foreground_fits (hwf : cfg.Wf) (data : BitVec 64) : cfg.AlphaFits (cfg.foreground data) :=
  fun _ hpix => LcdPixelFormat.toRgb_alpha_lt (hwf.wide.trans hpix) _

/-! ### The colour key and the format 1555 -/

theorem lcdByte_hidden (key mask : BitVec 32) {shift : Nat} (h : shift ≤ 24) :
    lcdByte key shift &&& ~~~lcdByte mask shift = lcdByte (key &&& ~~~mask) shift := by
  ext i hi
  have hlt : shift + i < 32 := by omega
  simp [lcdByte, hlt]

theorem keyMatches_key : cfg.keyMatches
    ⟨lcdByte cfg.colorKey 16, lcdByte cfg.colorKey 8, lcdByte cfg.colorKey 0, 0⟩ = true := by
  simp [keyMatches, lcdByte_hidden]

/-- A key that hides everything matches every pixel. -/
theorem KeyHides.keyMatches (h : cfg.KeyHides) (pixel : BitVec 32) (p : Rgba) :
    cfg.keyMatches (pixel1555ToRgb pixel p) = true := by
  have channel {x : BitVec 32} {shift : Nat} (hshift : shift ∈ [0, 8, 16]) :
      (x <<< 2).setWidth 8 &&& ~~~lcdByte cfg.colorMask shift =
        lcdByte (cfg.colorKey &&& ~~~cfg.colorMask) shift := by
    obtain ⟨hmask, hkey⟩ := h shift hshift
    rw [hkey, ← LcdPixelFormat.low_bits_clear, BitVec.and_comm 0xFC, BitVec.and_assoc, hmask]
    exact BitVec.and_zero
  rw [LcdDrawConfig.keyMatches, Bool.and_eq_true, Bool.and_eq_true]
  exact ⟨decide_eq_true (channel (by decide)), decide_eq_true (channel (by decide)),
    decide_eq_true (channel (by decide))⟩

/-- Black and white tell whether the key is hidden. -/
theorem keyHides_of_keyMatches (hblack : cfg.keyMatches (pixel1555ToRgb 0 Rgba.blank) = true)
    (hwhite : cfg.keyMatches (pixel1555ToRgb 0xFFFF Rgba.blank) = true) : cfg.KeyHides := by
  rw [LcdDrawConfig.keyMatches, Bool.and_eq_true, Bool.and_eq_true, decide_eq_true_iff,
    decide_eq_true_iff, decide_eq_true_iff] at hblack hwhite
  have channel {x y : BitVec 8} (h₀ : 0 &&& x = y) (h₁ : 0xFC &&& x = y) :
      0xFC &&& x = 0 ∧ y = 0 := by
    obtain rfl : 0 = y := BitVec.zero_and.symm.trans h₀
    exact ⟨h₁, rfl⟩
  intro shift hshift
  simp only [List.mem_cons, List.not_mem_nil, or_false] at hshift
  obtain rfl | rfl | rfl := hshift
  · exact channel hblack.2.2 hwhite.2.2
  · exact channel hblack.2.1 hwhite.2.1
  · exact channel hblack.1 hwhite.1

theorem keyMatches_keyed (pBg pFg : Rgba) (x : BitVec 32) :
    cfg.keyMatches (cfg.keyed pBg { pFg with a := x }) = cfg.keyMatches (cfg.keyed pBg pFg) := by
  rw [keyed, keyed]
  by_cases h : cfg.keyNew = true
  · rw [if_pos h, if_pos h]
    rfl
  · rw [if_neg h, if_neg h]

/-- What the conversion has left in the pixel is not seen. -/
theorem AlphaKnown.blendColorkey_eq (h : cfg.AlphaKnown) (data : BitVec 64) (pOld p : Rgba) :
    blendColorkey cfg pOld (cfg.pixelToRgb.toRgb (cfg.pixelOf data) p) =
      blendColorkey cfg pOld (cfg.foreground data) := by
  by_cases hformat : cfg.pixelToRgb = .rgb1555
  · have hknown := h hformat
    rw [foreground, hformat, LcdPixelFormat.toRgb_rgb1555 _ p, Hw.blendColorkey, Hw.blendColorkey]
    dsimp only
    by_cases hoff : cfg.keyOff = true
    · rw [if_pos hoff] at hknown
      rw [if_pos hoff, if_pos hoff, blendAlpha_sel hknown]
    rw [if_neg hoff] at hknown
    rw [if_neg hoff, if_neg hoff, keyMatches_keyed]
    by_cases hblends : cfg.keyBlends = true
    · rw [if_pos hblends, if_pos hblends]
    rw [if_neg hblends, if_neg hblends]
    -- the old pixel is taken, whatever the new one is
    obtain ⟨hnew, hhides⟩ := hknown.resolve_left hblends
    have hhit : cfg.keyMatches (cfg.keyed pOld (LcdPixelFormat.rgb1555.toRgb (cfg.pixelOf data)
        Rgba.blank)) = cfg.keyNew := by
      rw [keyed, if_pos hnew, hnew]
      exact hhides.keyMatches _ _
    rw [if_pos hhit, if_pos hhit]
  · rw [LcdPixelFormat.toRgb_eq hformat _ p Rgba.blank]
    rfl

end LcdDrawConfig

/-! ### Whole windows -/

/-- A turn of the loop keeps to the configurations that the window comes to. -/
theorem lcdDrawOp_reaches {cfg : LcdDrawConfig} {pen pen' : LcdPen} {op : LcdDrawOp}
    (h : cfg.Reaches pen.cfg) (hop : lcdDrawOp pen op = some pen') : cfg.Reaches pen'.cfg := by
  cases op with
  | line p =>
    obtain rfl := Option.some.inj hop
    exact h
  | pixel data pOld =>
    rw [lcdDrawOp] at hop
    by_cases hblend : pen.cfg.blend = true
    · rw [if_pos hblend] at hop
      exact h.blendColorkey hop
    · rw [if_neg hblend] at hop
      obtain rfl := Option.some.inj hop
      exact h

theorem LcdDrawConfig.Reaches.convert {cfg cfg' : LcdDrawConfig} (h : cfg.Reaches cfg')
    (data : BitVec 64) (p : Rgba) : cfg'.blend = cfg.blend ∧
      cfg'.pixelToRgb.toRgb (cfg'.pixelOf data) p = cfg.pixelToRgb.toRgb (cfg.pixelOf data) p := by
  obtain rfl | ⟨-, -, rfl⟩ := h
  · exact ⟨rfl, rfl⟩
  · exact ⟨rfl, rfl⟩

/-- If the alpha is known, a pixel blends on its own. -/
theorem LcdBlendsAlone.of_alphaKnown {cfg : LcdDrawConfig} (hwf : cfg.Wf)
    (hblend : cfg.blend = true) (h : cfg.AlphaKnown) : LcdBlendsAlone cfg := by
  intro data pOld
  obtain ⟨pen₀, a, b, hpen₀, hsel, hmix⟩ :=
    LcdDrawConfig.blendColorkey_some hwf (LcdDrawConfig.foreground_fits hwf data) pOld
  refine ⟨pen₀.p, ⟨a, b, hsel, hmix⟩, fun p ops pen hrun => ?_⟩
  have hreach : cfg.Reaches pen.cfg :=
    runFrom_keeps (I := fun pen => cfg.Reaches pen.cfg) (fun _ _ _ => lcdDrawOp_reaches) (.inl rfl)
      hrun
  obtain ⟨hblend', hconvert⟩ := hreach.convert data pen.p
  have hdraw : (lcdDrawOp pen (.pixel data pOld)).map LcdPen.p = some pen₀.p := by
    rw [lcdDrawOp, hconvert, hblend', if_pos hblend, hreach.blendColorkey_eq, h.blendColorkey_eq,
      hpen₀]
    rfl
  exact Option.map_eq_some_iff.mp hdraw

theorem LcdBlendsAlone.first {cfg : LcdDrawConfig} (hblend : cfg.blend = true)
    (h : LcdBlendsAlone cfg) (data : BitVec 64) (pOld : Rgba) :
    ∃ q, ∀ p, ∃ pen, blendColorkey cfg pOld (cfg.pixelToRgb.toRgb (cfg.pixelOf data) p) = some pen ∧
      pen.p = q := by
  obtain ⟨q, -, hruns⟩ := h data pOld
  refine ⟨q, fun p => ?_⟩
  obtain ⟨pen, hpen, hq⟩ := hruns p [] ⟨cfg, p⟩ rfl
  rw [lcdDrawOp, if_pos hblend] at hpen
  exact ⟨pen, hpen, hq⟩

/-- A key that chooses without blending never chooses a new pixel of the format 1555. -/
theorem LcdBlendsAlone.keeps_old {cfg : LcdDrawConfig} (hblend : cfg.blend = true)
    (h : LcdBlendsAlone cfg) (hformat : cfg.pixelToRgb = .rgb1555) (hoff : cfg.keyOff = false)
    (hblends : cfg.keyBlends = false) (data : BitVec 64) (pOld : Rgba) :
    cfg.keyMatches (cfg.keyed pOld (cfg.foreground data)) = cfg.keyNew := by
  by_contra hhit
  obtain ⟨q, hq⟩ := h.first hblend data pOld
  -- the alpha value of the new pixel is whatever has been there
  have halpha : ∀ p : Rgba, q.a = p.a := by
    intro p
    obtain ⟨pen, hpen, rfl⟩ := hq p
    rw [LcdDrawConfig.foreground, hformat] at hhit
    rw [hformat, LcdPixelFormat.toRgb_rgb1555, blendColorkey,
      if_neg (Bool.eq_false_iff.mp hoff)] at hpen
    dsimp only at hpen
    rw [if_neg (Bool.eq_false_iff.mp hblends), LcdDrawConfig.keyMatches_keyed, if_neg hhit] at hpen
    obtain rfl := Option.some.inj hpen
    rfl
  have h₀ := halpha ⟨0, 0, 0, 0⟩
  have h₁ := halpha ⟨0, 0, 0, 1⟩
  exact absurd (h₀.symm.trans h₁) (by decide)

/-- And only then. -/
theorem LcdBlendsAlone.alphaKnown {cfg : LcdDrawConfig} (hwf : cfg.Wf) (hblend : cfg.blend = true)
    (h : LcdBlendsAlone cfg) : cfg.AlphaKnown := by
  intro hformat
  by_cases hoff : cfg.keyOff = true
  · rw [if_pos hoff]
    by_contra hsel
    -- the third entry of a table of two
    obtain ⟨q, hq⟩ := h.first hblend 0 Rgba.blank
    obtain ⟨pen, hpen, -⟩ := hq ⟨0, 0, 0, 2⟩
    have hpix : cfg.fgAlphaPix = false := by
      rw [← hwf.wide, hformat]
      rfl
    have hstale : 2 ≤ (LcdPixelFormat.rgb1555.toRgb (cfg.pixelOf 0) ⟨0, 0, 0, 2⟩).a.toNat :=
      Nat.le_refl 2
    rw [hformat, blendColorkey, if_pos hoff,
      blendAlpha_none (Bool.eq_true_of_not_eq_false hsel) hpix hstale] at hpen
    cases hpen
  · have hoff' : cfg.keyOff = false := Bool.eq_false_iff.mpr hoff
    rw [if_neg hoff]
    by_cases hblends : cfg.keyBlends = true
    · exact .inl hblends
    have hkeep := h.keeps_old hblend hformat hoff' (Bool.eq_false_iff.mpr hblends)
    have hnew : cfg.keyNew = true := by
      have hkey := hkeep 0
        ⟨lcdByte cfg.colorKey 16, lcdByte cfg.colorKey 8, lcdByte cfg.colorKey 0, 0⟩
      by_contra hn
      rw [LcdDrawConfig.keyed, if_neg hn, LcdDrawConfig.keyMatches_key] at hkey
      exact hn hkey.symm
    obtain ⟨hpalette, hbpp⟩ := hwf.deep hformat
    have hpixel (data : BitVec 64) : cfg.pixelOf data = (data &&& 0xFFFF).setWidth 32 := by
      simp [LcdDrawConfig.pixelOf, hpalette, hbpp]
    have hmatch (data : BitVec 64) :
        cfg.keyMatches (pixel1555ToRgb ((data &&& 0xFFFF).setWidth 32) Rgba.blank) = true := by
      have hdata := hkeep data Rgba.blank
      rw [LcdDrawConfig.keyed, if_pos hnew, hnew, LcdDrawConfig.foreground, hformat,
        hpixel] at hdata
      exact hdata
    exact .inr ⟨hnew, LcdDrawConfig.keyHides_of_keyMatches (hmatch 0) (hmatch 0xFFFF)⟩

/-- **Blending of a pixel.**  In a window that is drawn over others, a pair of pixels has one blend,
    by the selected coefficients and with no access outside of the tables, if and only if the alpha
    values of the pixels are known. -/
theorem lcd_blend (s : Lcd) (i : Nat) {cfg : LcdDrawConfig} (h : s.drawConfig i = some cfg)
    (hblend : cfg.blend = true) : LcdBlendsAlone cfg ↔ cfg.AlphaKnown :=
  ⟨LcdBlendsAlone.alphaKnown (s.drawConfig_wf i h) hblend,
    LcdBlendsAlone.of_alphaKnown (s.drawConfig_wf i h) hblend⟩

/-- Window 1 over window 0, in a given mode, blended by the alpha values of its pixels, with no
    colour key.  The alpha value that is put back is that of the new pixel. -/
def lcdOverlay (mode : BitVec 32) : List LcdOp :=
  [.write 0x020 1, .write 0x024 ((mode <<< 2) ||| 0x41), .write 0x140 0x02000000,
    .write 0x05C 0xFFFFFF, .write 0x248 0x400C2]

/-- A window of RGB 565 over another one. -/
theorem lcd_blend_rgb565 :
    ∃ s cfg, runFrom lcdStep lcdNew (lcdOverlay 5) = some s ∧ s.drawConfig 1 = some cfg ∧
      LcdBlendsAlone cfg := by
  have hrun := (Option.some_get
    (show (runFrom lcdStep lcdNew (lcdOverlay 5)).isSome = true from rfl)).symm
  have hcfg := (Option.some_get (show (((runFrom lcdStep lcdNew (lcdOverlay 5)).get rfl).drawConfig
    1).isSome = true by decide +kernel)).symm
  refine ⟨_, _, hrun, hcfg, (lcd_blend _ 1 hcfg ?_).mpr ?_⟩
  · decide +kernel
  · decide +kernel

/-- Two pixels of the format 1555 in a row: the second one has the alpha value that the blend of the
    first one has left. -/
theorem lcd_blend_stale : ¬∀ (setup : List LcdOp) (s : Lcd),
    runFrom lcdStep lcdNew setup = some s → ∀ (i : Nat) (cfg : LcdDrawConfig),
      s.drawConfig i = some cfg → cfg.blend = true → LcdBlendsAlone cfg := by
  intro h
  have hrun := (Option.some_get
    (show (runFrom lcdStep lcdNew (lcdOverlay 7)).isSome = true from rfl)).symm
  have hcfg := (Option.some_get (show (((runFrom lcdStep lcdNew (lcdOverlay 7)).get rfl).drawConfig
    1).isSome = true by decide +kernel)).symm
  obtain ⟨q, -, hq⟩ := h _ _ hrun 1 _ hcfg (by decide +kernel) 0 Rgba.blank
  obtain ⟨pen, hpen, -⟩ := hq Rgba.blank [.pixel 0 Rgba.blank] _
    (Option.some_get (by decide +kernel)).symm
  have hnone : (some pen).isSome = false := hpen ▸ (by decide +kernel)
  cases hnone

end Qemu.Hw
