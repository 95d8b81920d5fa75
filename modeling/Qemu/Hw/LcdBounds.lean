import Qemu.Hw.Lcd

namespace Qemu.Hw

open Lib

/-!
# Accesses of the LCD controller to its arrays

* `lcdTarget_fits` — of the offsets that a write knows, one is outside of its register array.
* `lcdMark_some`, `lcdDraw_some` — what the passes of an update mark and draw, if all that they
  access is inside of the buffers; otherwise they fault.
* `LcdFits` — the condition on a step.
* `lcd_bounds` — the runs that stay inside of all arrays are those whose steps meet it.
-/

/-- The buffers, if there are any, are those of the console. -/
def Lcd.Inv (s : Lcd) : Prop :=
  s.ifb = none ∨
    s.ifb = some (s.consoleWidth * s.consoleHeight * 7) ∧ s.markBytes = s.consoleHeight >>> 3

/-- The buffers are those of the screen. -/
structure Lcd.Ready (s : Lcd) : Prop where
  ifb : s.ifb = some (s.globalWidth * s.globalHeight * 7)
  markBytes : s.markBytes = s.globalHeight >>> 3
  consoleWidth : s.consoleWidth = s.globalWidth
  consoleHeight : s.consoleHeight = s.globalHeight

theorem Lcd.Ready.inv {s : Lcd} (h : s.Ready) : s.Inv := by
  refine Or.inr ⟨?_, ?_⟩
  · rw [h.consoleWidth, h.consoleHeight]
    exact h.ifb
  · rw [h.consoleHeight]
    exact h.markBytes

theorem lcdUpdateResolution_ready {s : Lcd} (hs : s.Inv) : (lcdUpdateResolution s).Ready := by
  unfold lcdUpdateResolution
  split_ifs with h
  · exact ⟨rfl, rfl, rfl, rfl⟩
  · simp only [Lcd.resized, decide_eq_true_eq, not_or, not_not] at h
    obtain ⟨hifb, hwidth, hheight⟩ := h
    rcases hs with hnone | ⟨hsize, hbytes⟩
    · exact absurd hnone hifb
    · exact ⟨hwidth ▸ hheight ▸ hsize, hheight ▸ hbytes, hwidth, hheight⟩

/-! ### Register writes -/

/-- A register at an offset is in its array, unless it is the second of `vp1tcon`. -/
def LcdTargetFits (offset : Nat) (target : Option (LcdReg × Nat)) : Prop :=
  ∀ reg i, target = some (reg, i) → (i < reg.size ↔ offset ≠ 0x11C)

namespace LcdTargetFits

variable {offset : Nat}

theorem none : LcdTargetFits offset none := by
  intro reg i h
  cases h

theorem own {a : LcdArray} {i : Nat} (hi : i < a.size) (h : offset ≠ 0x11C) :
    LcdTargetFits offset (some (.own a, i)) := by
  rintro reg i' ⟨⟩
  exact iff_of_true hi h

theorem window {w : Nat} {a : LcdWindowArray} {i : Nat} (hw : w < 5) (hi : i < a.size)
    (h : offset ≠ 0x11C) : LcdTargetFits offset (some (.window w a, i)) := by
  rintro reg i' ⟨⟩
  refine iff_of_true ?_ h
  rwa [LcdReg.size, if_pos hw]

theorem ite {c : Prop} [Decidable c] {a b : Option (LcdReg × Nat)}
    (ha : c → LcdTargetFits offset a) (hb : ¬c → LcdTargetFits offset b) :
    LcdTargetFits offset (if c then a else b) := by
  split_ifs with h
  · exact ha h
  · exact hb h

end LcdTargetFits

/-- Every offset but one leads into its array. -/
theorem lcdTarget_fits (offset : Nat) : LcdTargetFits offset (lcdTarget offset) := by
  have hmod : ∀ n : Nat, n % 2 < 2 := fun n => Nat.mod_lt n (by decide)
  unfold lcdTarget
  dsimp only
  refine .ite (fun _ => .none) fun haligned => ?_
  refine .ite (fun h => .own (by simp only [LcdArray.size]; omega) (by omega)) fun _ => ?_
  refine .ite (fun h => .own (by decide) (by omega)) fun _ => ?_
  refine .ite (fun h => .own (by simp only [LcdArray.size]; omega) (by omega)) fun _ => ?_
  refine .ite (fun h => .window (by omega) (by decide) (by omega)) fun _ => ?_
  refine .ite (fun h => .own (by decide) (by omega)) fun _ => ?_
  -- `vidosd`: the third register of window 0 is the fourth one of the array
  refine .ite (fun h => ?_) fun _ => ?_
  · refine .ite (fun hi => ?_) fun hi =>
      .ite (fun hlast => .ite (fun _ => .none) fun hw => ?_) fun hlast => ?_
    · exact .window (by omega) (by simp only [LcdWindowArray.size]; omega) (by omega)
    · exact .window (by omega) (by simp only [LcdWindowArray.size]; omega) (by omega)
    · refine .window (by omega) ?_ (by omega)
      simp only [LcdWindowArray.size]
      split_ifs <;> omega
  refine .ite (fun h => .ite (fun _ => .none) fun _ => .window (by omega) (hmod _) (by omega))
    fun _ => ?_
  refine .ite (fun h => .ite (fun _ => .none) fun _ => .window (by omega) (hmod _) (by omega))
    fun _ => ?_
  refine .ite (fun h => .window (by omega) (by decide) (by omega)) fun _ => ?_
  refine .ite (fun h => ?_) fun _ => ?_
  · rintro reg i ⟨⟩
    simp only [LcdReg.size, LcdArray.size]
    omega
  refine .ite (fun h => .own (by simp only [LcdArray.size]; omega) (by omega)) fun _ => ?_
  refine .ite (fun h => .window (by omega) (hmod _) (by omega)) fun _ => ?_
  refine .ite (fun h => .own (by decide) (by omega)) fun _ => ?_
  refine .ite (fun h => .window (by omega) (by decide) (by omega)) fun _ => ?_
  refine .ite (fun h => .own (by simp only [LcdArray.size]; omega) (by omega)) fun _ => ?_
  refine .ite (fun h => .own (by decide) (by omega)) fun _ => ?_
  refine .ite (fun h => .own (by decide) (by omega)) fun _ => ?_
  refine .ite (fun h => .own (by simp only [LcdArray.size]; omega) (by omega)) fun _ => ?_
  refine .ite (fun h => .own (by simp only [LcdArray.size]; omega) (by omega)) fun _ => ?_
  refine .ite (fun h => .ite (fun _ => .none) fun hi => ?_) fun _ => ?_
  · exact .own (by simp only [LcdArray.size]; omega) (by omega)
  refine .ite (fun h => .window (by omega) (hmod _) (by omega)) fun _ => ?_
  refine .ite (fun h => .window (by omega) (by decide) (by omega)) fun _ => ?_
  refine .ite (fun h => .own (by decide) (by omega)) fun _ => ?_
  refine .ite (fun h => .own (by simp only [LcdArray.size]; omega) (by omega)) fun _ => ?_
  refine .ite (fun h => .window (by omega) (Nat.mod_lt _ (by decide)) (by omega)) fun _ => .none

variable {i : Nat}

theorem Lcd.store_some (s : Lcd) {reg : LcdReg} (h : i < reg.size) (val : BitVec 32) :
    s.store reg i val = some { s with regs := Function.update s.regs (reg, i) val } := if_pos h

/-- A write elsewhere keeps the invariant. -/
theorem lcdWrite_some {s : Lcd} (hs : s.Inv) {offset : Nat} (h : offset ≠ 0x11C) (val : BitVec 32) :
    ∃ s', lcdWrite s offset val = some s' ∧ s'.Inv := by
  unfold lcdWrite
  cases htarget : lcdTarget offset with
  | none => exact ⟨_, rfl, hs⟩
  | some target =>
    obtain ⟨reg, i⟩ := target
    have hi : i < reg.size := (lcdTarget_fits offset reg i htarget).mpr h
    split
    · rename_i hcase
      cases hcase
    · rename_i i hcase
      obtain ⟨s₁, h₁, hs₁⟩ : ∃ s₁, (if i = 0 then s.store (.own .vidintcon) 0 val else some s) =
          some s₁ ∧ s₁.Inv := by
        split_ifs
        · exact ⟨_, s.store_some (by decide) val, hs⟩
        · exact ⟨s, rfl, hs⟩
      rw [h₁, Option.bind_some, s₁.store_some (by decide)]
      exact ⟨_, rfl, hs₁⟩
    · rename_i reg i _ hcase
      cases hcase
      exact ⟨_, s.store_some hi val, hs⟩

theorem lcdWrite_none (s : Lcd) (val : BitVec 32) : lcdWrite s 0x11C val = none := rfl

/-! ### The first pass -/

/-- A window finds a line of the screen dirty. -/
def lcdMarks (s : Lcd) (scan : LcdScan) (i y : Nat) : Bool :=
  (s.rows i).any fun line => scan.dirty i line && line + s.lefttopY i == y

/-- The lines that the first pass marks. -/
def lcdMarked (s : Lcd) (scan : LcdScan) (y : Nat) : Bool := s.windows.any (lcdMarks s scan · y)

variable {y : Nat}

theorem lcdMarked_eq_true {s : Lcd} {scan : LcdScan} :
    lcdMarked s scan y = true ↔ ∃ i ∈ s.windows, ∃ line ∈ s.rows i,
      scan.dirty i line = true ∧ line + s.lefttopY i = y := by
  simp [lcdMarked, lcdMarks]

section

variable {s : Lcd} {scan : LcdScan}

theorem Lcd.mark_some (s : Lcd) (h : y >>> 3 < s.markBytes) :
    s.mark y = some { s with validLine := Function.update s.validLine y false } := if_pos h

theorem Lcd.mark_none (s : Lcd) (h : ¬y >>> 3 < s.markBytes) : s.mark y = none := if_neg h

theorem Lcd.Ready.mark_iff (hs : s.Ready) (hheight : s.globalHeight % 8 = 0) (y : Nat) :
    y >>> 3 < s.markBytes ↔ y < s.globalHeight := by
  rw [hs.markBytes, Nat.shiftRight_eq_div_pow, Nat.shiftRight_eq_div_pow]
  omega

/-- The state with other marks. -/
def Lcd.withMarks (s : Lcd) (valid : Nat → Bool) : Lcd := { s with validLine := valid }

@[simp] theorem Lcd.withMarks_validLine (s : Lcd) (valid : Nat → Bool) :
    (s.withMarks valid).validLine = valid := rfl

@[simp] theorem Lcd.withMarks_enabled (s : Lcd) (valid : Nat → Bool) :
    (s.withMarks valid).enabled = s.enabled := rfl

@[simp] theorem Lcd.withMarks_rows (s : Lcd) (valid : Nat → Bool) :
    (s.withMarks valid).rows = s.rows := rfl

@[simp] theorem Lcd.withMarks_lefttopY (s : Lcd) (valid : Nat → Bool) :
    (s.withMarks valid).lefttopY = s.lefttopY := rfl

/-- The marks of a line of a window are in the array. -/
def Lcd.MarkFits (s : Lcd) (scan : LcdScan) (i line : Nat) : Prop :=
  scan.dirty i line = true → (line + s.lefttopY i) >>> 3 < s.markBytes

/-- The marks of the lines so far. -/
def LinesMarked (s : Lcd) (scan : LcdScan) (i : Nat) (lines : List Nat) (s' : Lcd) : Prop :=
  ∃ valid, s' = s.withMarks valid ∧ ∀ y, valid y =
    (s.validLine y && !lines.any fun line => scan.dirty i line && line + s.lefttopY i == y)

variable {s' : Lcd}

/-- A line whose mark fits is marked. -/
theorem lcdMarkLine_some {lines : List Nat} {line : Nat} (hs : LinesMarked s scan i lines s')
    (h : s.MarkFits scan i line) :
    ∃ s'', lcdMarkLine scan i s' line = some s'' ∧ LinesMarked s scan i (lines ++ [line]) s'' := by
  obtain ⟨valid, rfl, hvalid⟩ := hs
  unfold lcdMarkLine
  split_ifs with hdirty
  · refine ⟨_, (s.withMarks valid).mark_some (h hdirty), _, rfl, fun y => ?_⟩
    rw [List.any_append]
    by_cases hy : y = line + s.lefttopY i
    · subst hy
      simp [hdirty]
    · have hne : (line + s.lefttopY i == y) = false := beq_false_of_ne (Ne.symm hy)
      rw [s.withMarks_lefttopY, Function.update_of_ne hy]
      simp only [List.any_cons, List.any_nil, hne, Bool.and_false, Bool.or_false]
      exact hvalid y
  · refine ⟨_, rfl, valid, rfl, fun y => ?_⟩
    rw [List.any_append, hvalid]
    simp [hdirty]

theorem lcdMarkLine_none {lines : List Nat} {line : Nat} (hs : LinesMarked s scan i lines s')
    (h : ¬s.MarkFits scan i line) : lcdMarkLine scan i s' line = none := by
  obtain ⟨valid, rfl, -⟩ := hs
  obtain ⟨hdirty, hout⟩ := Classical.not_imp.mp h
  rw [lcdMarkLine, if_pos hdirty]
  exact Lcd.mark_none _ hout

/-- The marks of the windows so far. -/
def WindowsMarked (s : Lcd) (scan : LcdScan) (windows : List Nat) (s' : Lcd) : Prop :=
  ∃ valid, s' = s.withMarks valid ∧ ∀ y, valid y =
    (s.validLine y && !(windows.filter s.enabled).any (lcdMarks s scan · y))

/-- The marks of all lines of a window are in the array. -/
def Lcd.WindowMarkFits (s : Lcd) (scan : LcdScan) (i : Nat) : Prop :=
  s.enabled i = true → ∀ line ∈ s.rows i, s.MarkFits scan i line

/-- A window whose marks fit is marked. -/
theorem lcdMarkWindow_some {windows : List Nat} (hs : WindowsMarked s scan windows s')
    (h : s.WindowMarkFits scan i) :
    ∃ s'', lcdMarkWindow scan s' i = some s'' ∧ WindowsMarked s scan (windows ++ [i]) s'' := by
  obtain ⟨valid, rfl, hvalid⟩ := hs
  unfold lcdMarkWindow
  rw [s.withMarks_enabled, s.withMarks_rows]
  split_ifs with henabled
  · have hstart : LinesMarked (s.withMarks valid) scan i [] (s.withMarks valid) :=
      ⟨valid, rfl, fun _ => (Bool.and_true _).symm⟩
    obtain ⟨s'', hrun, valid', rfl, hvalid'⟩ :=
      runFrom_history (P := fun _ line => (s.withMarks valid).MarkFits scan i line)
        (fun lines s₁ line hs₁ hline => lcdMarkLine_some hs₁ hline) hstart
        (StepsMeet.of_mem (s.withMarks valid) (h henabled))
    refine ⟨_, hrun, valid', rfl, fun y => ?_⟩
    rw [hvalid' y, s.withMarks_validLine, hvalid y, List.filter_append,
      List.filter_cons_of_pos henabled, List.any_append]
    simp [lcdMarks, Bool.and_assoc]
  · refine ⟨_, rfl, valid, rfl, fun y => ?_⟩
    rw [List.filter_append, List.filter_cons_of_neg henabled, List.filter_nil, List.append_nil]
    exact hvalid y

theorem lcdMarkWindow_none {windows : List Nat} (hs : WindowsMarked s scan windows s')
    (h : ¬s.WindowMarkFits scan i) : lcdMarkWindow scan s' i = none := by
  obtain ⟨valid, rfl, -⟩ := hs
  obtain ⟨henabled, hout⟩ := Classical.not_imp.mp h
  have hstart : LinesMarked (s.withMarks valid) scan i [] (s.withMarks valid) :=
    ⟨valid, rfl, fun _ => (Bool.and_true _).symm⟩
  have henabled' : (s.withMarks valid).enabled i = true := henabled
  rw [lcdMarkWindow, if_pos henabled']
  exact runFrom_eq_none (fun lines s₁ line hs₁ hline => lcdMarkLine_some hs₁ hline)
    (fun lines s₁ line hs₁ hline => lcdMarkLine_none hs₁ hline) hstart hout

/-- The first pass stays inside of `valid_line`. -/
def LcdMarkFits (s : Lcd) (scan : LcdScan) : Prop :=
  s.globalHeight % 8 = 0 ∧
    ∀ i ∈ s.windows, ∀ line ∈ s.rows i,
      scan.dirty i line = true → line + s.lefttopY i < s.globalHeight

theorem LcdMarkFits.window_iff (hs : s.Ready) (hheight : s.globalHeight % 8 = 0) :
    (∀ i ∈ s.windows, ∀ line ∈ s.rows i,
      scan.dirty i line = true → line + s.lefttopY i < s.globalHeight) ↔
    ∀ i ∈ List.range 5, s.WindowMarkFits scan i := by
  simp only [Lcd.windows, List.mem_filter, Lcd.WindowMarkFits, Lcd.MarkFits,
    hs.mark_iff hheight, and_imp]

theorem Lcd.Ready.clear_iff (hs : s.Ready) :
    (s.globalHeight + 7) >>> 3 ≤ s.markBytes ↔ s.globalHeight % 8 = 0 := by
  rw [hs.markBytes, Nat.shiftRight_eq_div_pow, Nat.shiftRight_eq_div_pow]
  omega

theorem WindowsMarked.start (s : Lcd) (scan : LcdScan) (valid : Nat → Bool) :
    WindowsMarked (s.withMarks valid) scan [] (s.withMarks valid) :=
  ⟨valid, rfl, fun _ => (Bool.and_true _).symm⟩

/-- The first pass marks the dirty lines, if their marks fit. -/
theorem lcdMark_some (hs : s.Ready) (h : LcdMarkFits s scan) :
    ∃ valid, lcdMark scan s = some (s.withMarks valid) ∧
      ∀ y < s.globalHeight, valid y = !lcdMarked s scan y := by
  obtain ⟨hheight, hwindows⟩ := h
  let all : Nat → Bool := fun y => decide (y >>> 3 < (s.globalHeight + 7) >>> 3) || s.validLine y
  have hclear : lcdClearMarks s = some (s.withMarks all) := if_pos (hs.clear_iff.mpr hheight)
  obtain ⟨s', hrun, valid, rfl, hvalid⟩ :=
    runFrom_history (P := fun _ i => (s.withMarks all).WindowMarkFits scan i)
      (fun windows s₁ i hs₁ hi => lcdMarkWindow_some hs₁ hi) (.start s scan all)
      (StepsMeet.of_mem (s.withMarks all) ((LcdMarkFits.window_iff hs hheight).mp hwindows))
  refine ⟨valid, ?_, fun y hy => ?_⟩
  · rw [lcdMark, hclear]
    exact hrun
  · have hall : all y = true := by
      rw [Bool.or_eq_true, decide_eq_true_eq, Nat.shiftRight_eq_div_pow, Nat.shiftRight_eq_div_pow]
      exact Or.inl (by omega)
    rw [hvalid y, s.withMarks_validLine, hall, Bool.true_and]
    rfl

/-- Otherwise it faults. -/
theorem lcdMark_none (hs : s.Ready) (h : ¬LcdMarkFits s scan) : lcdMark scan s = none := by
  by_cases hheight : s.globalHeight % 8 = 0
  · have hwindows : ¬∀ i ∈ List.range 5, s.WindowMarkFits scan i := fun hw =>
      h ⟨hheight, (LcdMarkFits.window_iff hs hheight).mpr hw⟩
    rw [lcdMark, lcdClearMarks, if_pos (hs.clear_iff.mpr hheight)]
    exact runFrom_eq_none (fun windows s₁ i hs₁ hi => lcdMarkWindow_some hs₁ hi)
      (fun windows s₁ i hs₁ hi => lcdMarkWindow_none hs₁ hi) (.start s scan _) hwindows
  · rw [lcdMark, lcdClearMarks, if_neg fun hle => hheight (hs.clear_iff.mp hle)]
    rfl

end

/-! ### The second pass -/

/-- The pixels that a line of a window writes: all those of its last word, too. -/
def lcdSpan (pixels : Nat) (width : Int) : Nat :=
  max 1 ((width.toNat + (pixels - 1)) / pixels) * pixels

/-- A word and the rest of the line. -/
theorem lcdSpan_step {pixels : Nat} {width : Int} (hpos : 0 < pixels) (h : 0 < width - pixels) :
    lcdSpan pixels width = pixels + lcdSpan pixels (width - pixels) := by
  have hsum : width.toNat + (pixels - 1) = ((width - pixels).toNat + (pixels - 1)) + pixels := by
    omega
  have hone : 1 ≤ ((width - pixels).toNat + (pixels - 1)) / pixels :=
    (Nat.one_le_div_iff hpos).mpr (by omega)
  unfold lcdSpan
  rw [hsum, Nat.add_div_right _ hpos, Nat.max_eq_right hone, Nat.max_eq_right (Nat.le_add_left 1 _),
    Nat.succ_mul, Nat.add_comm]

theorem lcdSpan_last {pixels : Nat} {width : Int} (hpos : 0 < pixels) (h : ¬0 < width - pixels) :
    lcdSpan pixels width = pixels := by
  have hone : (width.toNat + (pixels - 1)) / pixels < 2 :=
    (Nat.div_lt_iff_lt_mul hpos).mpr (by omega)
  rw [lcdSpan, Nat.max_eq_left (Nat.le_of_lt_succ hone), Nat.one_mul]

theorem lcdBpp_cases (mode : Nat) :
    lcdBpp mode = 1 ∨ lcdBpp mode = 2 ∨ lcdBpp mode = 4 ∨ lcdBpp mode = 8 ∨ lcdBpp mode = 16 ∨
      lcdBpp mode = 32 := by
  unfold lcdBpp
  split <;> simp

section

variable {s : Lcd} {scan : LcdScan}

theorem Lcd.pixels_pos (s : Lcd) (i : Nat) : 0 < 64 / s.bpp i := by
  rcases lcdBpp_cases (lcdField (s.wincon i) 2 0xF) with h | h | h | h | h | h <;>
    rw [Lcd.bpp, h] <;> decide

/-- An index into a palette has at most eight bits. -/
theorem Lcd.palette_size (hi : i < 5) (h : s.palletized i = true) (x : Nat) :
    x % 2 ^ s.bpp i < (LcdReg.window i .palette).size := by
  have hbpp : s.bpp i ≤ 8 := by
    have hmode : lcdField (s.wincon i) 2 0xF ≤ 3 := of_decide_eq_true h
    unfold Lcd.bpp
    generalize lcdField (s.wincon i) 2 0xF = mode at hmode
    match mode, hmode with
    | 0, _ | 1, _ | 2, _ | 3, _ => decide
  rw [LcdReg.size, if_pos hi]
  calc x % 2 ^ s.bpp i < 2 ^ s.bpp i := Nat.mod_lt x (Nat.two_pow_pos _)
    _ ≤ 2 ^ 8 := Nat.pow_le_pow_right (by decide) hbpp

theorem Lcd.Ready.inIfb_iff (hs : s.Ready) (pixel : Nat) :
    s.inIfb pixel = true ↔ pixel < s.globalWidth * s.globalHeight := by
  rw [Lcd.inIfb, hs.ifb, Option.getD_some, decide_eq_true_eq]
  omega

variable {l : LcdLine}

theorem lcdDrawWord_some (hs : s.Ready) (hi : i < 5)
    (h : l.dst + 64 / s.bpp i ≤ s.globalWidth * s.globalHeight) :
    lcdDrawWord s scan i l = some
      ({ width := l.width - (64 / s.bpp i : Nat), dst := l.dst + 64 / s.bpp i, src := l.src + 8 },
        decide (0 < l.width - (64 / s.bpp i : Nat))) :=
  if_pos fun _ hk =>
    ⟨(hs.inIfb_iff _).mpr (Nat.lt_of_lt_of_le (Nat.add_lt_add_left hk _) h),
      fun hpal => Lcd.palette_size hi hpal _⟩

theorem lcdDrawWord_none (hs : s.Ready)
    (h : ¬l.dst + 64 / s.bpp i ≤ s.globalWidth * s.globalHeight) :
    lcdDrawWord s scan i l = none := by
  refine if_neg fun hall => h ?_
  have hpos := s.pixels_pos i
  have hlast := (hs.inIfb_iff _).mp (hall (64 / s.bpp i - 1) (Nat.sub_lt hpos Nat.one_pos)).1
  omega

/-- The loop ends, and stays inside of `ifb` if its last word does. -/
theorem lcdDrawLoop_iff (hs : s.Ready) (hi : i < 5) {n : Nat} (hn : l.width.toNat < n) :
    (∃ l', loopFor (lcdDrawWord s scan i) n l = some l') ↔
      l.dst + lcdSpan (64 / s.bpp i) l.width ≤ s.globalWidth * s.globalHeight := by
  have hpos := s.pixels_pos i
  induction n generalizing l with
  | zero => exact absurd hn (Nat.not_lt_zero _)
  | succ n ih =>
    rw [loopFor]
    by_cases hword : l.dst + 64 / s.bpp i ≤ s.globalWidth * s.globalHeight
    · rw [lcdDrawWord_some hs hi hword, Option.bind_some]
      by_cases hmore : 0 < l.width - (64 / s.bpp i : Nat)
      · have hless : (l.width - (64 / s.bpp i : Nat)).toNat < n := by omega
        rw [if_pos (decide_eq_true hmore), lcdSpan_step hpos hmore, ← Nat.add_assoc]
        exact ih hless
      · rw [if_neg (by rw [decide_eq_true_eq]; exact hmore), lcdSpan_last hpos hmore]
        exact iff_of_true ⟨_, rfl⟩ hword
    · rw [lcdDrawWord_none hs hword]
      refine iff_of_false (by rintro ⟨_, ⟨⟩⟩) fun hspan => hword ?_
      refine Nat.le_trans (Nat.add_le_add_left ?_ _) hspan
      exact Nat.le_mul_of_pos_left _ (Nat.lt_of_lt_of_le Nat.one_pos (Nat.le_max_left 1 _))

theorem lcdDrawLine_iff (hs : s.Ready) (hi : i < 5) (dst src : Nat) :
    (∃ l, lcdDrawLine s scan i dst src = some l) ↔
      dst + lcdSpan (64 / s.bpp i) (s.width i) ≤ s.globalWidth * s.globalHeight :=
  lcdDrawLoop_iff (l := ⟨s.width i, dst, src⟩) hs hi (Nat.lt_succ_self _)

/-- A line has to be drawn. -/
def Lcd.redraws (s : Lcd) (y : Nat) : Bool := s.invalidate || (!s.validLine y || !s.validLinePrev y)

/-- A line of a window, if it is drawn, stays inside of `ifb` to the end of its last word. -/
def Lcd.RowFits (s : Lcd) (i line : Nat) : Prop :=
  (s.invalidate = true ∨ line + s.lefttopY i < s.globalHeight) ∧
    (s.redraws (line + s.lefttopY i) = true →
      s.lefttopX i + (line + s.lefttopY i) * s.globalWidth + lcdSpan (64 / s.bpp i) (s.width i) ≤
        s.globalWidth * s.globalHeight)

/-- What is recorded of a line of a window that is drawn. -/
def lcdDrawnLine (s : Lcd) (i mapline line : Nat) : LcdDrawn :=
  ⟨i, line + s.lefttopY i, mapline + line * s.incSize i⟩

/-- The lines of a window that are drawn, of some lines. -/
def lcdDrawnLines (s : Lcd) (i mapline : Nat) (lines : List Nat) : List LcdDrawn :=
  (lines.filter fun line => s.redraws (line + s.lefttopY i)).map (lcdDrawnLine s i mapline)

theorem lcdDrawnLines_append (i mapline : Nat) (l l' : List Nat) :
    lcdDrawnLines s i mapline (l ++ l') =
      lcdDrawnLines s i mapline l ++ lcdDrawnLines s i mapline l' := by
  simp [lcdDrawnLines]

theorem Lcd.needsRow_some (hs : s.Ready) (hheight : s.globalHeight % 8 = 0)
    (h : s.invalidate = true ∨ y < s.globalHeight) : s.needsRow y = some (s.redraws y) := by
  unfold Lcd.needsRow Lcd.redraws
  split_ifs with hall hmark
  · rw [hall, Bool.true_or]
  · rw [Bool.eq_false_iff.mpr hall, Bool.false_or]
  · rcases h with h | h
    · exact absurd h hall
    · exact absurd ((hs.mark_iff hheight y).mpr h) hmark

theorem Lcd.needsRow_none (hs : s.Ready) (hheight : s.globalHeight % 8 = 0)
    (h : ¬(s.invalidate = true ∨ y < s.globalHeight)) : s.needsRow y = none := by
  obtain ⟨hall, hy⟩ := not_or.mp h
  rw [Lcd.needsRow, if_neg hall, if_neg fun hmark => hy ((hs.mark_iff hheight y).mp hmark)]

/-- A line that fits is drawn if it has to be. -/
theorem lcdDrawRow_some (hs : s.Ready) (hheight : s.globalHeight % 8 = 0) (hi : i < 5)
    {line : Nat} (h : s.RowFits i line) (mapline : Nat) (drawn : List LcdDrawn) :
    lcdDrawRow s scan i mapline drawn line = some (drawn ++ lcdDrawnLines s i mapline [line]) := by
  unfold lcdDrawRow lcdDrawnLines
  dsimp only
  rw [Lcd.needsRow_some hs hheight h.1, Option.bind_some]
  split_ifs with hdraw
  · obtain ⟨l, hl⟩ := (lcdDrawLine_iff hs hi _ _).mpr (h.2 hdraw)
    rw [hl, List.filter_cons_of_pos (by exact hdraw)]
    rfl
  · rw [List.filter_cons_of_neg (by exact hdraw)]
    exact congrArg some (List.append_nil drawn).symm

/-- One that does not fit faults. -/
theorem lcdDrawRow_none (hs : s.Ready) (hheight : s.globalHeight % 8 = 0) (hi : i < 5)
    {line : Nat} (h : ¬s.RowFits i line) (mapline : Nat) (drawn : List LcdDrawn) :
    lcdDrawRow s scan i mapline drawn line = none := by
  unfold lcdDrawRow
  dsimp only
  by_cases hrow : s.invalidate = true ∨ line + s.lefttopY i < s.globalHeight
  · obtain ⟨hdraw, hspan⟩ := Classical.not_imp.mp fun himp => h ⟨hrow, himp⟩
    have hline : lcdDrawLine s scan i
        (s.lefttopX i + (line + s.lefttopY i) * s.globalWidth)
        (mapline + line * s.incSize i) = none := by
      refine Option.eq_none_iff_forall_not_mem.mpr fun l hl => hspan ?_
      exact (lcdDrawLine_iff hs hi _ _).mp ⟨l, hl⟩
    rw [Lcd.needsRow_some hs hheight hrow, Option.bind_some, if_pos hdraw, hline]
    rfl
  · rw [Lcd.needsRow_none hs hheight hrow]
    rfl

/-- The lines of a window. -/
theorem lcdDrawRows_some (hs : s.Ready) (hheight : s.globalHeight % 8 = 0) (hi : i < 5)
    (h : ∀ line ∈ s.rows i, s.RowFits i line) (mapline : Nat) (drawn : List LcdDrawn) :
    runFrom (lcdDrawRow s scan i mapline) drawn (s.rows i) =
      some (drawn ++ lcdDrawnLines s i mapline (s.rows i)) := by
  have hstep : ∀ lines drawn' line, drawn' = drawn ++ lcdDrawnLines s i mapline lines →
      s.RowFits i line → ∃ drawn'', lcdDrawRow s scan i mapline drawn' line = some drawn'' ∧
        drawn'' = drawn ++ lcdDrawnLines s i mapline (lines ++ [line]) := by
    rintro lines _ line rfl hline
    refine ⟨_, lcdDrawRow_some hs hheight hi hline mapline _, ?_⟩
    rw [lcdDrawnLines_append, List.append_assoc]
  obtain ⟨_, hrun, rfl⟩ := runFrom_history (P := fun _ line => s.RowFits i line) (l := [])
    (I := fun lines drawn' => drawn' = drawn ++ lcdDrawnLines s i mapline lines) hstep
    (List.append_nil drawn).symm (StepsMeet.of_mem drawn h)
  exact hrun

theorem lcdDrawRows_none (hs : s.Ready) (hheight : s.globalHeight % 8 = 0) (hi : i < 5)
    (h : ¬∀ line ∈ s.rows i, s.RowFits i line) (mapline : Nat) (drawn : List LcdDrawn) :
    runFrom (lcdDrawRow s scan i mapline) drawn (s.rows i) = none :=
  runFrom_eq_none (I := fun _ _ => True) (l := [])
    (fun _ _ _ _ hline => ⟨_, lcdDrawRow_some hs hheight hi hline mapline _, trivial⟩)
    (fun _ _ _ _ hline => lcdDrawRow_none hs hheight hi hline mapline _) trivial h

/-- The windows that the second pass comes to and can draw, of some windows. -/
def Lcd.reached (s : Lcd) (scan : LcdScan) (windows : List Nat) : List Nat :=
  (windows.filter s.enabled).takeWhile fun i => s.coefsLegal i && (s.mapline scan i).isSome

/-- What the second pass draws. -/
def lcdDrawnWindows (s : Lcd) (scan : LcdScan) (windows : List Nat) : List LcdDrawn :=
  (s.reached scan windows).flatMap fun i =>
    lcdDrawnLines s i ((s.mapline scan i).getD 0) (s.rows i)

/-- A step of the second pass. -/
theorem lcdDraw_cases (s : Lcd) (scan : LcdScan) (i : Nat) (is : List Nat) (drawn : List LcdDrawn) :
    (s.enabled i = false ∧ s.reached scan (i :: is) = s.reached scan is ∧
      lcdDraw s scan (i :: is) drawn = lcdDraw s scan is drawn) ∨
    (s.enabled i = true ∧ s.reached scan (i :: is) = [] ∧
      ∃ e, e ≠ .goesOn ∧ lcdDraw s scan (i :: is) drawn = some (e, drawn)) ∨
    (s.enabled i = true ∧ s.reached scan (i :: is) = i :: s.reached scan is ∧
      ∃ mapline, s.mapline scan i = some mapline ∧ lcdDraw s scan (i :: is) drawn =
        (runFrom (lcdDrawRow s scan i mapline) drawn (s.rows i)).bind (lcdDraw s scan is)) := by
  unfold Lcd.reached
  rw [lcdDraw]
  cases henabled : s.enabled i with
  | false =>
    rw [List.filter_cons_of_neg (by rw [henabled]; decide)]
    exact Or.inl ⟨rfl, rfl, rfl⟩
  | true =>
    have hon : ¬(true = false) := Bool.noConfusion
    rw [if_neg hon, List.filter_cons_of_pos henabled, List.takeWhile_cons]
    cases hcoefs : s.coefsLegal i with
    | false => exact Or.inr (Or.inl ⟨rfl, rfl, .stopped, by decide, rfl⟩)
    | true =>
      cases hmap : s.mapline scan i with
      | none => exact Or.inr (Or.inl ⟨rfl, rfl, .returned, by decide, rfl⟩)
      | some mapline => exact Or.inr (Or.inr ⟨rfl, rfl, mapline, rfl, rfl⟩)

variable {is : List Nat}

/-- The second pass, if the lines of all windows it reaches fit. -/
theorem lcdDraw_some (hs : s.Ready) (hheight : s.globalHeight % 8 = 0) (his : ∀ i ∈ is, i < 5)
    (h : ∀ i ∈ s.reached scan is, ∀ line ∈ s.rows i, s.RowFits i line) (drawn : List LcdDrawn) :
    ∃ e, lcdDraw s scan is drawn = some (e, drawn ++ lcdDrawnWindows s scan is) ∧
      (e = .goesOn ↔ s.reached scan is = is.filter s.enabled) := by
  induction is generalizing drawn with
  | nil => exact ⟨.goesOn, congrArg (fun d => some (LcdEnd.goesOn, d)) (List.append_nil drawn).symm,
      iff_of_true rfl rfl⟩
  | cons i is ih =>
    obtain ⟨hi, his⟩ := List.forall_mem_cons.mp his
    unfold lcdDrawnWindows
    obtain ⟨henabled, hreached, heq⟩ | ⟨henabled, hreached, e, he, heq⟩ |
      ⟨henabled, hreached, mapline, hmap, heq⟩ := lcdDraw_cases s scan i is drawn
    · rw [heq, hreached, List.filter_cons_of_neg (by rw [henabled]; decide)]
      rw [hreached] at h
      exact ih his h drawn
    · refine ⟨e, ?_, iff_of_false he ?_⟩
      · rw [heq, hreached, List.flatMap_nil, List.append_nil]
      · rw [hreached, List.filter_cons_of_pos henabled]
        exact (List.cons_ne_nil _ _).symm
    · rw [hreached] at h
      obtain ⟨hfirst, hrest⟩ := List.forall_mem_cons.mp h
      obtain ⟨e, hdraw, he⟩ := ih his hrest (drawn ++ lcdDrawnLines s i mapline (s.rows i))
      refine ⟨e, ?_, ?_⟩
      · rw [heq, lcdDrawRows_some hs hheight hi hfirst, Option.bind_some, hdraw, hreached,
          List.flatMap_cons, hmap, Option.getD_some, List.append_assoc]
        rfl
      · rw [he, hreached, List.filter_cons_of_pos henabled, List.cons.injEq]
        exact (and_iff_right rfl).symm

/-- Otherwise it faults. -/
theorem lcdDraw_none (hs : s.Ready) (hheight : s.globalHeight % 8 = 0) (his : ∀ i ∈ is, i < 5)
    (h : ¬∀ i ∈ s.reached scan is, ∀ line ∈ s.rows i, s.RowFits i line) (drawn : List LcdDrawn) :
    lcdDraw s scan is drawn = none := by
  induction is generalizing drawn with
  | nil => exact absurd (List.forall_mem_nil _) h
  | cons i is ih =>
    obtain ⟨hi, his⟩ := List.forall_mem_cons.mp his
    obtain ⟨-, hreached, heq⟩ | ⟨-, hreached, e, -, heq⟩ | ⟨-, hreached, mapline, hmap, heq⟩ :=
      lcdDraw_cases s scan i is drawn
    · rw [hreached] at h
      rw [heq]
      exact ih his h drawn
    · rw [hreached] at h
      exact absurd (List.forall_mem_nil _) h
    · rw [heq]
      by_cases hfirst : ∀ line ∈ s.rows i, s.RowFits i line
      · rw [lcdDrawRows_some hs hheight hi hfirst, Option.bind_some]
        rw [hreached] at h
        exact ih his (fun hrest => h (List.forall_mem_cons.mpr ⟨hfirst, hrest⟩)) _
      · rw [lcdDrawRows_none hs hheight hi hfirst]
        rfl

theorem mem_lcdDrawnWindows {d : LcdDrawn} :
    d ∈ lcdDrawnWindows s scan is ↔ ∃ i ∈ s.reached scan is, ∃ line ∈ s.rows i,
      s.redraws (line + s.lefttopY i) = true ∧
        lcdDrawnLine s i ((s.mapline scan i).getD 0) line = d := by
  simp [lcdDrawnWindows, lcdDrawnLines, and_assoc]

/-- The last line of the screen is copied from the end of `ifb`. -/
theorem Lcd.Ready.copy_iff (hs : s.Ready) :
    (∀ line < s.globalHeight, ∀ x < s.copyWidth,
        s.inIfb (s.globalWidth * line + x) = true) ↔ s.lastWidth ≤ s.globalWidth := by
  have hwidth : 0 < s.globalWidth := Nat.succ_pos _
  have hcopy : s.copyWidth = max 1 s.lastWidth.toNat := rfl
  constructor
  · intro h
    have hlast := (hs.inIfb_iff _).mp
      (h (s.globalHeight - 1) (Nat.sub_lt (Nat.succ_pos _) Nat.one_pos) (s.copyWidth - 1)
        (by omega))
    have hlines : s.globalWidth * s.globalHeight =
        s.globalWidth * (s.globalHeight - 1) + s.globalWidth :=
      (Nat.mul_succ ..).symm
    omega
  · intro h line hline x hx
    have hnext : s.globalWidth * (line + 1) ≤ s.globalWidth * s.globalHeight :=
      Nat.mul_le_mul_left _ hline
    rw [Nat.mul_succ] at hnext
    exact (hs.inIfb_iff _).mpr (by omega)

theorem lcdCopy_some (hs : s.Ready) (h : s.lastWidth ≤ s.globalWidth) :
    lcdCopy s = some s.copyWidth := if_pos (hs.copy_iff.mpr h)

theorem lcdCopy_none (hs : s.Ready) (h : ¬s.lastWidth ≤ s.globalWidth) : lcdCopy s = none :=
  if_neg (mt hs.copy_iff.mp h)

/-! ### Updates -/

/-- All lines have to be drawn. -/
def Lcd.drawsAll (s : Lcd) : Bool := s.invalidate || s.resized

/-- A line of the screen is drawn: all are, or this update or the one before has marked it. -/
def Lcd.DrawsLine (s : Lcd) (scan : LcdScan) (y : Nat) : Prop :=
  s.drawsAll = true ∨ lcdMarked s scan y = true ∨ s.validLinePrev y = false

/-- A line of a window that the second pass comes to: its marks are in the arrays, and if it is
    drawn, then all of its last word is inside of `ifb`. -/
def Lcd.LineFits (s : Lcd) (scan : LcdScan) (i line : Nat) : Prop :=
  (s.drawsAll = true ∨ line + s.lefttopY i < s.globalHeight) ∧
    (s.DrawsLine scan (line + s.lefttopY i) →
      s.lefttopX i + (line + s.lefttopY i) * s.globalWidth + lcdSpan (64 / s.bpp i) (s.width i) ≤
        s.globalWidth * s.globalHeight)

/-- If the second pass has drawn a line and comes to its end, and the depth of the console is
    known, then the last window is not wider than the screen. -/
def Lcd.CopyFits (s : Lcd) (scan : LcdScan) : Prop :=
  s.reached scan (List.range 5) = s.windows → lcdBppKnown scan.bitsPerPixel = true →
    (∃ i ∈ s.windows, ∃ line ∈ s.rows i, s.DrawsLine scan (line + s.lefttopY i)) →
      s.lastWidth ≤ s.globalWidth

/-- The accesses of an update stay inside of the buffers. -/
def LcdUpdateFits (s : Lcd) (scan : LcdScan) : Prop :=
  scan.bitsPerPixel ≠ 0 ∧ s.displayOn = true →
    LcdMarkFits s scan ∧
      (scan.passes = true →
        (∀ i ∈ s.reached scan (List.range 5), ∀ line ∈ s.rows i, s.LineFits scan i line) ∧
          s.CopyFits scan)

/-- The buffers of a screen. -/
def Lcd.withBuffers (s : Lcd) (ifb : Option Nat) (markBytes width height : Nat) : Lcd :=
  { s with
    ifb := ifb
    markBytes := markBytes
    consoleWidth := width
    consoleHeight := height
    invalidate := s.drawsAll }

theorem lcdUpdateResolution_eq (s : Lcd) :
    ∃ ifb markBytes width height,
      lcdUpdateResolution s = s.withBuffers ifb markBytes width height := by
  unfold lcdUpdateResolution Lcd.withBuffers Lcd.drawsAll
  cases hresized : s.resized with
  | true =>
    rw [Bool.or_true]
    exact ⟨_, _, _, _, rfl⟩
  | false =>
    rw [Bool.or_false]
    exact ⟨_, _, _, _, rfl⟩

variable {height markBytes width : Nat} {ifb : Option Nat} {valid : Nat → Bool}

/-- Which lines are drawn, in terms of the state before the update. -/
theorem Lcd.redraws_iff (hvalid : ∀ y < s.globalHeight, valid y = !lcdMarked s scan y)
    (hy : s.drawsAll = true ∨ y < s.globalHeight) :
    ((s.withBuffers ifb markBytes width height).withMarks valid).redraws y = true ↔
      s.DrawsLine scan y := by
  show (s.drawsAll || (!valid y || !s.validLinePrev y)) = true ↔ _
  unfold Lcd.DrawsLine
  cases hall : s.drawsAll with
  | true => exact iff_of_true rfl (Or.inl rfl)
  | false =>
    rw [hvalid y (hy.resolve_left (Bool.eq_false_iff.mp hall))]
    simp

theorem Lcd.rowFits_iff (hvalid : ∀ y < s.globalHeight, valid y = !lcdMarked s scan y)
    (i line : Nat) :
    ((s.withBuffers ifb markBytes width height).withMarks valid).RowFits i line ↔
      s.LineFits scan i line :=
  and_congr_right fun hline => imp_congr (Lcd.redraws_iff hvalid hline) Iff.rfl

/-- Something has been drawn. -/
theorem lcdDrawnWindows_ne_nil (hvalid : ∀ y < s.globalHeight, valid y = !lcdMarked s scan y)
    (hfits : ∀ i ∈ s.reached scan (List.range 5), ∀ line ∈ s.rows i, s.LineFits scan i line)
    (hreached : s.reached scan (List.range 5) = s.windows) :
    lcdDrawnWindows ((s.withBuffers ifb markBytes width height).withMarks valid) scan
        (List.range 5) ≠ [] ↔
      ∃ i ∈ s.windows, ∃ line ∈ s.rows i, s.DrawsLine scan (line + s.lefttopY i) := by
  constructor
  · intro hdrawn
    obtain ⟨d, hd⟩ := List.exists_mem_of_ne_nil _ hdrawn
    obtain ⟨i, hi, line, hline, hdraws, -⟩ := mem_lcdDrawnWindows.mp hd
    exact ⟨i, hreached ▸ hi, line, hline,
      (Lcd.redraws_iff hvalid (hfits i hi line hline).1).mp hdraws⟩
  · rintro ⟨i, hi, line, hline, hdraws⟩
    rw [← hreached] at hi
    exact List.ne_nil_of_mem (mem_lcdDrawnWindows.mpr
      ⟨i, hi, line, hline, (Lcd.redraws_iff hvalid (hfits i hi line hline).1).mpr hdraws, rfl⟩)

/-- The state after the first pass, and what the second pass then draws. -/
theorem lcdMark_draw (hs : s.Inv) (hmark : LcdMarkFits s scan) :
    ∃ u valid, lcdMark scan (lcdUpdateResolution s) = some u ∧ u.Ready ∧
      (∃ ifb markBytes width height,
        u = (s.withBuffers ifb markBytes width height).withMarks valid) ∧
      ∀ y < s.globalHeight, valid y = !lcdMarked s scan y := by
  obtain ⟨ifb, markBytes, width, height, heq⟩ := lcdUpdateResolution_eq s
  have hready := lcdUpdateResolution_ready hs
  rw [heq] at hready ⊢
  obtain ⟨valid, hrun, hvalid⟩ := lcdMark_some hready hmark
  exact ⟨_, valid, hrun, ⟨hready.ifb, hready.markBytes, hready.consoleWidth, hready.consoleHeight⟩,
    ⟨ifb, markBytes, width, height, rfl⟩, hvalid⟩

/-- An update changes no register but the pending interrupts. -/
def Lcd.KeepsRegs (s' s : Lcd) : Prop := ∀ p, p ≠ (.own .vidintcon, 1) → s'.regs p = s.regs p

theorem lcdSwap_keepsRegs (s : Lcd) : (lcdSwap s).KeepsRegs s :=
  fun _ hp => Function.update_of_ne hp _ _

/-- An update that fits ends and keeps the invariant. -/
theorem lcdUpdate_some (hs : s.Inv) (h : LcdUpdateFits s scan) :
    ∃ s' shown, lcdUpdate s scan = some (s', shown) ∧ s'.Inv ∧ s'.KeepsRegs s := by
  have hsame : ∀ s' : Lcd, s'.regs = s.regs → s'.KeepsRegs s := fun s' hregs p _ =>
    congrFun hregs p
  -- an update may end before the first line, between the lines or with the copy
  by_cases hoff : scan.bitsPerPixel = 0 ∨ s.displayOn = false
  · exact ⟨s, _, if_pos hoff, hs, hsame s rfl⟩
  obtain ⟨hbits, hon⟩ := not_or.mp hoff
  obtain ⟨hmark, hrows⟩ := h ⟨hbits, eq_true_of_ne_false hon⟩
  obtain ⟨u, valid, hrun, hready, ⟨ifb, markBytes, width, height, rfl⟩, hvalid⟩ :=
    lcdMark_draw hs hmark
  have hinv := hready.inv
  rw [lcdUpdate, if_neg hoff, hrun, Option.bind_some]
  by_cases hpasses : scan.passes = false
  · rw [if_pos hpasses]
    exact ⟨_, _, rfl, hinv, hsame _ rfl⟩
  obtain ⟨hlines, hcopy⟩ := hrows (eq_true_of_ne_false hpasses)
  have hfits : ∀ i ∈ s.reached scan (List.range 5), ∀ line ∈ s.rows i,
      ((s.withBuffers ifb markBytes width height).withMarks valid).RowFits i line :=
    fun i hi line hline => (Lcd.rowFits_iff hvalid i line).mpr (hlines i hi line hline)
  rw [if_neg hpasses]
  obtain ⟨e, hdraw, he⟩ := lcdDraw_some hready hmark.1 (fun i hi => List.mem_range.mp hi) hfits []
  rw [hdraw, Option.bind_some, List.nil_append]
  cases e with
  | stopped => exact ⟨_, _, rfl, hinv, hsame _ rfl⟩
  | returned => exact ⟨_, _, rfl, hinv, hsame _ rfl⟩
  | goesOn =>
    cases hdrawn : lcdDrawnWindows _ scan (List.range 5) with
    | nil => exact ⟨_, _, rfl, hinv, lcdSwap_keepsRegs _⟩
    | cons line lines =>
      cases hknown : lcdBppKnown scan.bitsPerPixel with
      | true =>
        have hreached := he.mp rfl
        have hsome := (lcdDrawnWindows_ne_nil hvalid hlines hreached).mp (by
          rw [hdrawn]
          exact List.cons_ne_nil _ _)
        have hcopied := lcdCopy_some hready (hcopy hreached hknown hsome)
        dsimp only
        rw [if_pos rfl, hcopied]
        exact ⟨_, _, rfl, hinv, lcdSwap_keepsRegs _⟩
      | false => exact ⟨_, _, rfl, hinv, hsame _ rfl⟩

/-- One that does not fit faults. -/
theorem lcdUpdate_none (hs : s.Inv) (h : ¬LcdUpdateFits s scan) : lcdUpdate s scan = none := by
  obtain ⟨⟨hbits, hon⟩, hout⟩ := Classical.not_imp.mp h
  rw [lcdUpdate, if_neg (by rw [hon]; exact not_or.mpr ⟨hbits, Bool.noConfusion⟩)]
  by_cases hmark : LcdMarkFits s scan
  · obtain ⟨hpasses, hrows⟩ := Classical.not_imp.mp fun himp => hout ⟨hmark, himp⟩
    obtain ⟨u, valid, hrun, hready, ⟨ifb, markBytes, width, height, rfl⟩, hvalid⟩ :=
      lcdMark_draw hs hmark
    rw [hrun, Option.bind_some, if_neg (by rw [hpasses]; exact Bool.noConfusion)]
    by_cases hlines : ∀ i ∈ s.reached scan (List.range 5), ∀ line ∈ s.rows i, s.LineFits scan i line
    -- all lines fit, so it is the last pass that leaves `ifb`
    · have hcopy : ¬s.CopyFits scan := fun hcopy => hrows ⟨hlines, hcopy⟩
      simp only [Lcd.CopyFits, Classical.not_imp] at hcopy
      obtain ⟨hreached, hknown, hsome, hwide⟩ := hcopy
      obtain ⟨e, hdraw, he⟩ := lcdDraw_some hready hmark.1 (fun i hi => List.mem_range.mp hi)
        (fun i hi line hline => (Lcd.rowFits_iff hvalid i line).mpr (hlines i hi line hline)) []
      obtain rfl : e = .goesOn := he.mpr hreached
      rw [hdraw, Option.bind_some, List.nil_append]
      obtain ⟨d, ds, hdrawn⟩ := List.exists_cons_of_ne_nil
        ((lcdDrawnWindows_ne_nil hvalid hlines hreached).mpr hsome)
      have hcopied := lcdCopy_none hready hwide
      rw [hdrawn]
      dsimp only
      rw [if_pos hknown, hcopied]
      rfl
    · have hfits : ¬∀ i ∈ s.reached scan (List.range 5), ∀ line ∈ s.rows i,
          ((s.withBuffers ifb markBytes width height).withMarks valid).RowFits i line :=
        fun hall => hlines fun i hi line hline =>
          (Lcd.rowFits_iff hvalid i line).mp (hall i hi line hline)
      rw [lcdDraw_none hready hmark.1 (fun i hi => List.mem_range.mp hi) hfits]
      rfl
  · obtain ⟨_, _, _, _, heq⟩ := lcdUpdateResolution_eq s
    have hready := lcdUpdateResolution_ready hs
    rw [heq] at hready ⊢
    rw [lcdMark_none hready hmark]
    rfl

end

/-! ### Runs -/

/-- The accesses of a step stay inside of the arrays. -/
def LcdFits (s : Lcd) (op : LcdOp) : Prop :=
  s.stopped = false →
    match op with
    | .write offset _ => offset ≠ 0x11C
    | .update scan => LcdUpdateFits s scan
    | .invalidate => True

theorem lcdStep_some {s : Lcd} (hs : s.Inv) {op : LcdOp} (h : LcdFits s op) :
    ∃ s', lcdStep s op = some s' ∧ s'.Inv := by
  unfold lcdStep
  split_ifs with hstopped
  · exact ⟨s, rfl, hs⟩
  have hfits := h (Bool.eq_false_iff.mpr hstopped)
  cases op with
  | write offset val => exact lcdWrite_some hs hfits val
  | update scan =>
    obtain ⟨s', drawn, hupdate, hs', -⟩ := lcdUpdate_some hs hfits
    exact ⟨s', congrArg (Option.map Prod.fst) hupdate, hs'⟩
  | invalidate => exact ⟨_, rfl, hs⟩

theorem lcdStep_none {s : Lcd} (hs : s.Inv) {op : LcdOp} (h : ¬LcdFits s op) :
    lcdStep s op = none := by
  obtain ⟨hgoing, hout⟩ := Classical.not_imp.mp h
  unfold lcdStep
  rw [if_neg (Bool.eq_false_iff.mp hgoing)]
  cases op with
  | write offset val =>
    obtain rfl : offset = 0x11C := Classical.not_not.mp hout
    exact lcdWrite_none s val
  | update scan => exact congrArg (Option.map Prod.fst) (lcdUpdate_none hs hout)
  | invalidate => exact absurd trivial hout

/-- A screen of 460 lines by 8 pixels: `valid_line` has no byte for the last four. -/
def lcdTall : List LcdOp :=
  [.write 0x018 ((459 <<< 11) ||| 7), .write 0x000 2,
    .update ⟨32, fun _ _ => false, true, fun _ => none, fun _ => 0⟩]

end Qemu.Hw
