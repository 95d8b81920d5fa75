import Qemu.Hw.LcdDirty
import Mathlib.Data.List.TakeWhile

namespace Qemu.Hw

open Lib

/-!
# Lines of the LCD that are drawn after writes

* `LcdRedrawn` — an update has drawn, from the memory of the guest, all windows at the lines of the
  screen that show bytes written since the update before, and has copied them to the console.
* `LcdSeen` — a flag that tells of a written line is read before it is reset.
* `lcd_redraws` — then updates draw what has been written.
-/

/-- The bytes of the pixels of a line of a window. -/
def Lcd.sourceBytes (s : Lcd) (i : Nat) : Nat := ((s.width i).toNat * s.bpp i + 7) / 8

/-- The RAM address of a byte of a line. -/
def lcdSource (mem : LcdMemory) (s : Lcd) (i line k : Nat) : Nat :=
  mem.ramAddr (s.lineAddr i line + BitVec.ofNat 32 k)

/-- A byte of a line has been written. -/
def LcdWritten (mem : LcdMemory) (s : Lcd) (written : List Nat) (i line : Nat) : Prop :=
  ∃ k < s.sourceBytes i, lcdSource mem s i line k ∈ written

/-- The bytes of a line in the memory of the host. -/
def LcdSourceAt (mem : LcdMemory) (s : Lcd) (i line src : Nat) : Prop :=
  ∀ k < s.sourceBytes i, mem.hostAddr (lcdSource mem s i line k) = some (src + k)

/-- The pixels of a window that are on the screen are among the first so many of their lines. -/
def Lcd.CopiedBy (s : Lcd) (i copied : Nat) : Prop :=
  ∀ x < s.globalWidth, s.lefttopX i ≤ x → (x : Int) < s.lefttopX i + s.width i → x < copied

/-- At each line of the screen where a window shows a byte that had been written before the last
    update, that update has drawn all windows, from where their memory is, and has copied what it
    has drawn to the console. -/
def LcdRedrawn (mem : LcdMemory) (m : LcdSystem) : Prop :=
  ∀ i ∈ m.lcd.windows, ∀ line ∈ m.lcd.rows i, LcdWritten mem m.lcd m.owed i line →
    ∀ j ∈ m.lcd.windows, ∀ line' ∈ m.lcd.rows j,
      line' + m.lcd.lefttopY j = line + m.lcd.lefttopY i →
      (∃ d ∈ m.shown.drawn, d.window = j ∧ d.row = line' + m.lcd.lefttopY j ∧
        LcdSourceAt mem m.lcd j line' d.src) ∧ m.lcd.CopiedBy j m.shown.copied

/-! ### The condition -/

/-- The windows stay on the screen, to the end of the last word of each line, and the last one is
    not wider than the screen. -/
def LcdInside (s : Lcd) : Prop :=
  s.globalHeight % 8 = 0 ∧ s.lastWidth ≤ s.globalWidth ∧ ∀ i ∈ s.windows, ∀ line ∈ s.rows i,
    line + s.lefttopY i < s.globalHeight ∧
    s.lefttopX i + (line + s.lefttopY i) * s.globalWidth + lcdSpan (64 / s.bpp i) (s.width i) ≤
      s.globalWidth * s.globalHeight

/-- A window can be drawn: its coefficients are known, and its memory can be mapped. -/
def LcdDrawable (mem : LcdMemory) (s : Lcd) (i : Nat) : Prop :=
  s.coefsLegal i = true ∧ s.mapLen i ≠ 0 ∧ (mem.map (s.scanline i)).isSome = true

/-- The memory of the windows at a line of the screen is where the start of each window is mapped:
    only this start is looked up. -/
def LcdInOnePiece (mem : LcdMemory) (s : Lcd) (y : Nat) : Prop :=
  ∀ i ∈ s.windows, ∀ line ∈ s.rows i, line + s.lefttopY i = y →
    LcdSourceAt mem s i line ((mem.map (s.scanline i)).getD 0 + line * s.incSize i)

/-- What the windows show at a line of the screen is copied, as far as the last window is wide. -/
def LcdCopies (s : Lcd) (y : Nat) : Prop :=
  ∀ i ∈ s.windows, ∀ line ∈ s.rows i, line + s.lefttopY i = y → s.CopiedBy i s.copyWidth

/-- The flags of a window can be read and reset. -/
def LcdScannable (mem : LcdMemory) (s : Lcd) (i : Nat) : Prop :=
  mem.canReset (s.scanline i).toNat (s.scanline i).toNat = true ∧
    (∀ line ∈ s.rows i, (lcdSampled mem s i line).isSome = true) ∧
    mem.canReset (lcdResetStart mem s i).toNat (lcdResetStop mem s i).toNat = true

/-- A page whose flag is reset before the lines of a window are scanned. -/
def lcdResetFirst (s : Lcd) (i p : Nat) : Bool :=
  lcdInReset (s.scanline i).toNat (s.scanline i).toNat p

/-- A page whose flag is reset by the scan of a window. -/
def lcdResets (mem : LcdMemory) (s : Lcd) (i p : Nat) : Bool :=
  lcdResetFirst s i p || lcdInReset (lcdResetStart mem s i).toNat (lcdResetStop mem s i).toNat p

/-- The flag of a page is read for a line of a window. -/
def LcdReads (mem : LcdMemory) (s : Lcd) (i line p : Nat) : Prop :=
  line = 0 ∧ p = (s.scanline i).toNat / 1024 ∨
    p ∈ (lcdSampled mem s i line).getD [] ∧ lcdResetFirst s i p = false

/-- A line of the screen is drawn: all lines are, or the update before has marked it, or a window
    there reads the flag of a page that has been written, before a window below resets it. -/
def LcdSeen (mem : LcdMemory) (m : LcdSystem) (y : Nat) : Prop :=
  m.lcd.drawsAll = true ∨ m.lcd.validLinePrev y = false ∨
    ∃ a ∈ m.written, ∃ i ∈ m.lcd.windows, ∃ line ∈ m.lcd.rows i,
      line + m.lcd.lefttopY i = y ∧ LcdReads mem m.lcd i line (a / 1024) ∧
        ∀ j ∈ m.lcd.windows, j < i → lcdResets mem m.lcd j (a / 1024) = false

/-- The windows stay on the screen if it is on; and if a line has been written, then it is on, all
    windows can be scanned and drawn, the memory of the line is in one piece, it is copied, and it
    is seen. -/
def LcdTells (mem : LcdMemory) (m : LcdSystem) : LcdSystemOp → Prop
  | .write _ _ => True
  | .update bitsPerPixel => m.lcd.stopped = false →
    (bitsPerPixel ≠ 0 ∧ m.lcd.displayOn = true → LcdInside m.lcd) ∧
    ∀ i ∈ m.lcd.windows, ∀ line ∈ m.lcd.rows i, LcdWritten mem m.lcd m.written i line →
      lcdBppKnown bitsPerPixel = true ∧ m.lcd.displayOn = true ∧
      (∀ j ∈ m.lcd.windows, LcdScannable mem m.lcd j ∧ LcdDrawable mem m.lcd j) ∧
      LcdInOnePiece mem m.lcd (line + m.lcd.lefttopY i) ∧
      LcdCopies m.lcd (line + m.lcd.lefttopY i) ∧ LcdSeen mem m (line + m.lcd.lefttopY i)

section

variable (mem : LcdMemory) (s : Lcd) (m : LcdSystem)

instance LcdWritten.decidable (written : List Nat) (i line : Nat) :
    Decidable (LcdWritten mem s written i line) := inferInstanceAs (Decidable (∃ _, _ ∧ _))

instance LcdSourceAt.decidable (i line src : Nat) : Decidable (LcdSourceAt mem s i line src) :=
  inferInstanceAs (Decidable (∀ _, _))

instance Lcd.CopiedBy.decidable (i copied : Nat) : Decidable (s.CopiedBy i copied) :=
  inferInstanceAs (Decidable (∀ _ < _, _ → _ → _))

instance LcdCopies.decidable (y : Nat) : Decidable (LcdCopies s y) :=
  inferInstanceAs (Decidable (∀ _ ∈ _, ∀ _ ∈ _, _ → _))

instance LcdRedrawn.decidable : Decidable (LcdRedrawn mem m) :=
  inferInstanceAs (Decidable (∀ _ ∈ _, _))

instance LcdInside.decidable : Decidable (LcdInside s) := inferInstanceAs (Decidable (_ ∧ _))

instance LcdDrawable.decidable (i : Nat) : Decidable (LcdDrawable mem s i) :=
  inferInstanceAs (Decidable (_ ∧ _))

instance LcdInOnePiece.decidable (y : Nat) : Decidable (LcdInOnePiece mem s y) :=
  inferInstanceAs (Decidable (∀ _ ∈ _, _))

instance LcdScannable.decidable (i : Nat) : Decidable (LcdScannable mem s i) :=
  inferInstanceAs (Decidable (_ ∧ _))

instance LcdReads.decidable (i line p : Nat) : Decidable (LcdReads mem s i line p) :=
  inferInstanceAs (Decidable (_ ∨ _))

instance LcdSeen.decidable (y : Nat) : Decidable (LcdSeen mem m y) :=
  inferInstanceAs (Decidable (_ ∨ _))

instance LcdTells.decidable : ∀ op : LcdSystemOp, Decidable (LcdTells mem m op)
  | .write _ _ => isTrue trivial
  | .update _ => inferInstanceAs (Decidable (_ → _))

end

/-! ### The scan of the flags -/

section

variable {mem : LcdMemory} {s : Lcd}

theorem lcdResetDirty_some {flags : Nat → Bool} {start stop : Nat}
    (h : mem.canReset start stop = true) :
    lcdResetDirty mem flags start stop = some fun p => flags p && !lcdInReset start stop p :=
  if_pos h

/-- A line is dirty at these flags. -/
def lcdLineDirty (mem : LcdMemory) (s : Lcd) (i : Nat) (first : Bool) (flags : Nat → Bool)
    (line : Nat) : Bool :=
  (line == 0 && first) || ((lcdSampled mem s i line).getD []).any flags

/-- The loop over the lines of a window finds those that are dirty. -/
theorem lcdScanLines_eq {i : Nat} (first : Bool) (flags : Nat → Bool) {lines : List Nat}
    (h : ∀ line ∈ lines, (lcdSampled mem s i line).isSome = true) (dirty : List (Nat × Nat)) :
    lines.foldl (lcdScanLine mem s i first) ⟨flags, dirty, true⟩ =
      ⟨flags, dirty ++ (lines.filter (lcdLineDirty mem s i first flags)).map (i, ·), true⟩ := by
  induction lines generalizing dirty with
  | nil => rw [List.foldl_nil, List.filter_nil, List.map_nil, List.append_nil]
  | cons line lines ih =>
    obtain ⟨hline, hrest⟩ := List.forall_mem_cons.mp h
    obtain ⟨pages, hpages⟩ := Option.isSome_iff_exists.mp hline
    rw [List.foldl_cons, lcdScanLine, if_pos rfl, hpages]
    dsimp only
    by_cases hdirty : lcdLineDirty mem s i first flags line = true
    · rw [List.filter_cons_of_pos hdirty, List.map_cons]
      rw [lcdLineDirty, hpages, Option.getD_some] at hdirty
      rw [if_pos hdirty, ih hrest, List.append_assoc]
      rfl
    · rw [List.filter_cons_of_neg hdirty]
      rw [lcdLineDirty, hpages, Option.getD_some] at hdirty
      rw [if_neg hdirty, ih hrest]

/-- The flags that are left when the lines of a window are scanned. -/
def lcdFlagsFor (s : Lcd) (flags : Nat → Bool) (i p : Nat) : Bool := flags p && !lcdResetFirst s i p

/-- The lines that the scan of a window finds dirty. -/
def lcdDirtyLines (mem : LcdMemory) (s : Lcd) (flags : Nat → Bool) (i : Nat) : List (Nat × Nat) :=
  ((s.rows i).filter (lcdLineDirty mem s i (flags ((s.scanline i).toNat / 1024))
    (lcdFlagsFor s flags i))).map (i, ·)

/-- The scan of a window: the dirty lines are those whose pages are dirty, and their flags are
    reset. -/
theorem lcdScanWindow_eq {i : Nat} (henabled : s.enabled i = true) (h : LcdScannable mem s i)
    (flags : Nat → Bool) (dirty : List (Nat × Nat)) :
    lcdScanWindow mem s ⟨flags, dirty, true⟩ i =
      ⟨fun p => flags p && !lcdResets mem s i p, dirty ++ lcdDirtyLines mem s flags i, true⟩ := by
  obtain ⟨hfirst, hlines, hlast⟩ := h
  unfold lcdScanWindow
  rw [if_neg (by rw [henabled]; exact not_or.mpr ⟨Bool.noConfusion, Bool.noConfusion⟩)]
  dsimp only
  rw [lcdResetDirty_some hfirst]
  dsimp only
  rw [lcdScanLines_eq _ _ hlines, lcdResetDirty_some hlast]
  refine congrArg (LcdFlagScan.mk · _ _) (funext fun p => ?_)
  rw [lcdResets, Bool.not_or, Bool.and_assoc]
  rfl

theorem lcdScanWindow_skip {i : Nat} (h : s.enabled i = false) (r : LcdFlagScan) :
    lcdScanWindow mem s r i = r := if_pos (Or.inr h)

theorem lcdDirtyLines_mem {flags : Nat → Bool} {i line p : Nat} (hline : line ∈ s.rows i)
    (hflag : flags p = true) (h : LcdReads mem s i line p) :
    (i, line) ∈ lcdDirtyLines mem s flags i := by
  refine List.mem_map.mpr ⟨line, List.mem_filter.mpr ⟨hline, ?_⟩, rfl⟩
  rw [lcdLineDirty, Bool.or_eq_true]
  rcases h with ⟨rfl, rfl⟩ | ⟨hp, hkept⟩
  · exact Or.inl hflag
  · refine Or.inr (List.any_eq_true.mpr ⟨p, hp, ?_⟩)
    rw [lcdFlagsFor, hflag, hkept]
    rfl

/-- The scan runs to its end, and what it has found dirty stays so. -/
theorem lcdScanWindows_keep {is : List Nat}
    (h : ∀ i ∈ is, s.enabled i = true → LcdScannable mem s i) (flags : Nat → Bool)
    (dirty : List (Nat × Nat)) :
    (is.foldl (lcdScanWindow mem s) ⟨flags, dirty, true⟩).runs = true ∧
      ∀ d ∈ dirty, d ∈ (is.foldl (lcdScanWindow mem s) ⟨flags, dirty, true⟩).dirty := by
  induction is generalizing flags dirty with
  | nil => exact ⟨rfl, fun _ => id⟩
  | cons i is ih =>
    obtain ⟨hi, hrest⟩ := List.forall_mem_cons.mp h
    rw [List.foldl_cons]
    cases henabled : s.enabled i with
    | false =>
      rw [lcdScanWindow_skip henabled]
      exact ih hrest flags dirty
    | true =>
      rw [lcdScanWindow_eq henabled (hi henabled)]
      obtain ⟨hruns, hkeep⟩ := ih hrest (fun p => flags p && !lcdResets mem s i p)
        (dirty ++ lcdDirtyLines mem s flags i)
      exact ⟨hruns, fun d hd => hkeep d (List.mem_append_left _ hd)⟩

/-- A page that has been written makes a line dirty if its flag is read before it is reset. -/
theorem lcdScanWindows_finds {is : List Nat} (hsorted : is.Pairwise (· < ·))
    (h : ∀ i ∈ is, s.enabled i = true → LcdScannable mem s i) {i line p : Nat} (hi : i ∈ is)
    (henabled : s.enabled i = true) (hline : line ∈ s.rows i) (hreads : LcdReads mem s i line p)
    (hbelow : ∀ j ∈ is, s.enabled j = true → j < i → lcdResets mem s j p = false)
    {flags : Nat → Bool} (hflag : flags p = true) (dirty : List (Nat × Nat)) :
    (i, line) ∈ (is.foldl (lcdScanWindow mem s) ⟨flags, dirty, true⟩).dirty := by
  induction is generalizing flags dirty with
  | nil => cases hi
  | cons j is ih =>
    obtain ⟨hj, hrest⟩ := List.forall_mem_cons.mp h
    obtain ⟨hjbelow, hbelow⟩ := List.forall_mem_cons.mp hbelow
    obtain ⟨hless, hsorted⟩ := List.pairwise_cons.mp hsorted
    rw [List.foldl_cons]
    rcases List.mem_cons.mp hi with rfl | hi
    · rw [lcdScanWindow_eq henabled (hj henabled)]
      exact (lcdScanWindows_keep hrest _ _).2 _
        (List.mem_append_right _ (lcdDirtyLines_mem hline hflag hreads))
    · cases hjenabled : s.enabled j with
      | false =>
        rw [lcdScanWindow_skip hjenabled]
        exact ih hsorted hrest hi hbelow hflag dirty
      | true =>
        rw [lcdScanWindow_eq hjenabled (hj hjenabled)]
        refine ih hsorted hrest hi hbelow ?_ _
        rw [hflag, hjbelow hjenabled (hless i hi)]
        rfl

end

/-! ### What an update draws -/

section

variable {s : Lcd} {scan : LcdScan}

theorem Lcd.reached_eq
    (h : ∀ i ∈ s.windows, s.coefsLegal i = true ∧ (s.mapline scan i).isSome = true) :
    s.reached scan (List.range 5) = s.windows :=
  List.takeWhile_eq_self_iff.mpr fun i hi => by
    rw [(h i hi).1, (h i hi).2]
    rfl

/-- An update draws the lines that have to be drawn. -/
theorem lcdUpdate_draws (hs : s.Inv) (hfits : LcdUpdateFits s scan)
    (hknown : lcdBppKnown scan.bitsPerPixel = true) (hon : s.displayOn = true)
    (hpasses : scan.passes = true)
    (hdrawable : ∀ i ∈ s.windows, s.coefsLegal i = true ∧ (s.mapline scan i).isSome = true)
    {s' : Lcd} {shown : LcdShown} (hupdate : lcdUpdate s scan = some (s', shown))
    {i line : Nat} (hi : i ∈ s.windows) (hline : line ∈ s.rows i)
    (h : s.DrawsLine scan (line + s.lefttopY i)) :
    lcdDrawnLine s i ((s.mapline scan i).getD 0) line ∈ shown.drawn ∧
      shown.copied = s.copyWidth := by
  have hbits : scan.bitsPerPixel ≠ 0 := by
    intro hzero
    rw [hzero] at hknown
    cases hknown
  obtain ⟨hmark, hrest⟩ := hfits ⟨hbits, hon⟩
  obtain ⟨hrows, hcopy⟩ := hrest hpasses
  -- all windows can be drawn, so the second pass reaches the window of the line
  have hreached := Lcd.reached_eq hdrawable
  have hwide := hcopy hreached hknown ⟨i, hi, line, hline, h⟩
  rw [hreached] at hrows
  obtain ⟨u, valid, hrun, hready, ⟨ifb, markBytes, width, height, rfl⟩, hvalid⟩ :=
    lcdMark_draw hs hmark
  have hrowFits : ∀ i ∈ s.reached scan (List.range 5), ∀ line ∈ s.rows i,
      ((s.withBuffers ifb markBytes width height).withMarks valid).RowFits i line := by
    rw [hreached]
    exact fun i hi line hline => (Lcd.rowFits_iff hvalid i line).mpr (hrows i hi line hline)
  obtain ⟨e, hdraw, he⟩ :=
    lcdDraw_some hready hmark.1 (fun i hi => List.mem_range.mp hi) hrowFits []
  obtain rfl : e = .goesOn := he.mpr hreached
  have hmem : lcdDrawnLine s i ((s.mapline scan i).getD 0) line ∈ [] ++ lcdDrawnWindows
      ((s.withBuffers ifb markBytes width height).withMarks valid) scan (List.range 5) := by
    refine mem_lcdDrawnWindows.mpr ⟨i, hreached.symm ▸ hi, line, hline, ?_, rfl⟩
    exact (Lcd.redraws_iff hvalid (hrows i hi line hline).1).mpr h
  have hoff : ¬(scan.bitsPerPixel = 0 ∨ s.displayOn = false) :=
    not_or.mpr ⟨hbits, by rw [hon]; exact Bool.noConfusion⟩
  rw [lcdUpdate, if_neg hoff, hrun, Option.bind_some,
    if_neg (by rw [hpasses]; exact Bool.noConfusion), hdraw, Option.bind_some] at hupdate
  -- the line that was written is one of those, so there is something to copy
  cases hlines : [] ++ lcdDrawnWindows
      ((s.withBuffers ifb markBytes width height).withMarks valid) scan (List.range 5) with
  | nil =>
    rw [hlines] at hmem
    cases hmem
  | cons d ds =>
    rw [hlines] at hmem hupdate
    dsimp only at hupdate
    rw [if_pos hknown, lcdCopy_some hready hwide] at hupdate
    obtain rfl : ⟨d :: ds, s.copyWidth⟩ = shown := congrArg Prod.snd (Option.some.inj hupdate)
    exact ⟨hmem, rfl⟩

end

/-! ### Steps of the system -/

namespace Lcd.KeepsRegs

variable {s' s : Lcd} {mem : LcdMemory}

theorem window (h : s'.KeepsRegs s) (i : Nat) (a : LcdWindowArray) (k : Nat) :
    s'.regs (.window i a, k) = s.regs (.window i a, k) := h _ (by simp)

theorem wincon (h : s'.KeepsRegs s) : s'.wincon = s.wincon := funext fun i => h.window i _ _

theorem windows (h : s'.KeepsRegs s) : s'.windows = s.windows := by
  unfold Lcd.windows Lcd.enabled
  rw [h.wincon]

theorem lefttopY (h : s'.KeepsRegs s) : s'.lefttopY = s.lefttopY := by
  funext i
  unfold Lcd.lefttopY
  rw [h.window]

theorem rows (h : s'.KeepsRegs s) : s'.rows = s.rows := by
  funext i
  unfold Lcd.rows Lcd.height
  rw [h.window, h.lefttopY]

theorem width (h : s'.KeepsRegs s) : s'.width = s.width := by
  funext i
  unfold Lcd.width Lcd.lefttopX
  rw [h.window, h.window]

theorem sourceBytes (h : s'.KeepsRegs s) : s'.sourceBytes = s.sourceBytes := by
  funext i
  unfold Lcd.sourceBytes Lcd.bpp
  rw [h.width, h.wincon]

theorem copiedBy (h : s'.KeepsRegs s) : s'.CopiedBy = s.CopiedBy := by
  have hscreen : s'.globalWidth = s.globalWidth := by
    unfold Lcd.globalWidth
    rw [h _ (by simp)]
  funext i copied
  unfold Lcd.CopiedBy Lcd.lefttopX
  rw [hscreen, h.width, h.window]

theorem lineAddr (h : s'.KeepsRegs s) : s'.lineAddr = s.lineAddr := by
  funext i line
  unfold Lcd.lineAddr Lcd.scanline Lcd.incSize Lcd.extLineSize
  rw [h.window, h.window, h.wincon]

theorem source (h : s'.KeepsRegs s) : lcdSource mem s' = lcdSource mem s := by
  unfold lcdSource
  rw [h.lineAddr]

end Lcd.KeepsRegs

/-- What a system has between two steps. -/
structure LcdSystem.Inv (mem : LcdMemory) (m : LcdSystem) : Prop where
  lcd : m.lcd.Inv
  flags : ∀ a ∈ m.written, m.flags (a / 1024) = true
  redrawn : LcdRedrawn mem m

section

variable {mem : LcdMemory} {m : LcdSystem}

theorem lcdInside_fits {s : Lcd} {scan : LcdScan} (h : LcdInside s) : LcdUpdateFits s scan := by
  obtain ⟨hheight, hwidth, hlines⟩ := h
  refine fun _ => ⟨⟨hheight, fun i hi line hline _ => (hlines i hi line hline).1⟩,
    fun _ => ⟨fun i hi line hline => ?_, fun _ _ _ => hwidth⟩⟩
  have hi : i ∈ s.windows := (List.takeWhile_sublist _).subset hi
  exact ⟨Or.inr (hlines i hi line hline).1, fun _ => (hlines i hi line hline).2⟩

/-- **The step of an update**: a line that has been written is drawn in all of its windows, and
    copied to the console. -/
theorem lcdUpdate_redrawn (hm : m.Inv mem) {bitsPerPixel : Nat} (hgoing : m.lcd.stopped = false)
    (h : LcdTells mem m (.update bitsPerPixel)) {s' : Lcd} {shown : LcdShown}
    (hupdate : lcdUpdate m.lcd (lcdScanOf mem m bitsPerPixel (lcdScanFlags mem m.lcd m.flags)) =
      some (s', shown)) {i line : Nat} (hi : i ∈ m.lcd.windows) (hline : line ∈ m.lcd.rows i)
    (hwritten : LcdWritten mem m.lcd m.written i line) {j line' : Nat} (hj : j ∈ m.lcd.windows)
    (hline' : line' ∈ m.lcd.rows j) (hrow : line' + m.lcd.lefttopY j = line + m.lcd.lefttopY i) :
    (∃ d ∈ shown.drawn, d.window = j ∧ d.row = line' + m.lcd.lefttopY j ∧
      LcdSourceAt mem m.lcd j line' d.src) ∧ m.lcd.CopiedBy j shown.copied := by
  obtain ⟨hinside, htells⟩ := h hgoing
  obtain ⟨hknown, hon, hwindows, hpiece, hcopies, hseen⟩ := htells i hi line hline hwritten
  have hbits : bitsPerPixel ≠ 0 := by
    rintro rfl
    cases hknown
  have hscannable : ∀ i ∈ List.range 5, m.lcd.enabled i = true → LcdScannable mem m.lcd i :=
    fun i hi henabled => (hwindows i (List.mem_filter.mpr ⟨hi, henabled⟩)).1
  have hmapline : ∀ i ∈ m.lcd.windows,
      m.lcd.mapline (lcdScanOf mem m bitsPerPixel (lcdScanFlags mem m.lcd m.flags)) i =
        mem.map (m.lcd.scanline i) := fun i hi => if_neg (hwindows i hi).2.2.1
  have hshown := lcdUpdate_draws hm.lcd (lcdInside_fits (hinside ⟨hbits, hon⟩)) hknown hon
    (lcdScanWindows_keep hscannable _ _).1
    (fun i hi => ⟨(hwindows i hi).2.1, (hmapline i hi).symm ▸ (hwindows i hi).2.2.2⟩)
    hupdate hj hline' ?_
  · obtain ⟨hdraw, hcopied⟩ := hshown
    rw [hcopied]
    refine ⟨⟨_, hdraw, rfl, rfl, ?_⟩, hcopies j hj line' hline' hrow⟩
    rw [lcdDrawnLine, hmapline j hj]
    exact hpiece j hj line' hline' hrow
  -- the line is marked, by the window that reads the flag of a page that has been written
  · rw [hrow]
    obtain hall | hprev | ⟨a, ha, w, hw, l, hl, hlrow, hreads, hbelow⟩ := hseen
    · exact Or.inl hall
    · exact Or.inr (Or.inr hprev)
    · refine Or.inr (Or.inl (lcdMarked_eq_true.mpr ⟨w, hw, l, hl, decide_eq_true ?_, hlrow⟩))
      obtain ⟨hwrange, hwenabled⟩ := List.mem_filter.mp hw
      exact lcdScanWindows_finds List.pairwise_lt_range hscannable hwrange hwenabled hl hreads
        (fun j hj hjenabled => hbelow j (List.mem_filter.mpr ⟨hj, hjenabled⟩)) (hm.flags a ha) []

/-- A step that tells of its writes keeps the invariant. -/
theorem lcdSystemStep_inv (hm : m.Inv mem) {op : LcdSystemOp} (h : LcdTells mem m op) :
    ∃ m', lcdSystemStep mem m op = some m' ∧ m'.Inv mem := by
  unfold lcdSystemStep
  -- a stopped device is not asked any more
  cases hgoing : m.lcd.stopped with
  | true => exact ⟨m, rfl, hm⟩
  | false =>
    cases op with
    | write a val =>
      cases hhost : mem.hostAddr a with
      | none =>
        refine ⟨m, ?_, hm⟩
        dsimp only
        rw [hhost]
        rfl
      | some host =>
        refine ⟨{ m with
          bytes := Function.update m.bytes host val
          flags := Function.update m.flags (a / 1024) true
          written := a :: m.written }, ?_, hm.lcd, fun b hb => ?_, hm.redrawn⟩
        · dsimp only
          rw [hhost]
          rfl
        by_cases hpage : b / 1024 = a / 1024
        · dsimp only
          rw [hpage]
          exact Function.update_self _ _ _
        · rcases List.mem_cons.mp hb with rfl | hb
          · exact absurd rfl hpage
          · exact (Function.update_of_ne hpage _ _).trans (hm.flags b hb)
    | update bitsPerPixel =>
      have hfits : LcdUpdateFits m.lcd
          (lcdScanOf mem m bitsPerPixel (lcdScanFlags mem m.lcd m.flags)) := fun hshown =>
        lcdInside_fits ((h hgoing).1 hshown) hshown
      obtain ⟨s', shown, hupdate, hs', hkeeps⟩ := lcdUpdate_some hm.lcd hfits
      refine ⟨_, congrArg (Option.map _) hupdate,
        ⟨hs', fun a ha => absurd ha List.not_mem_nil, ?_⟩⟩
      unfold LcdRedrawn LcdWritten LcdSourceAt
      dsimp only
      rw [hkeeps.windows, hkeeps.rows, hkeeps.lefttopY, hkeeps.sourceBytes, hkeeps.source,
        hkeeps.copiedBy]
      exact fun i hi line hline hwritten j hj line' hline' hrow =>
        lcdUpdate_redrawn hm hgoing h hupdate hi hline hwritten hj hline' hrow

end

/-! ### Runs -/

theorem lcdStep_inv {s s' : Lcd} {op : LcdOp} (hs : s.Inv) (h : lcdStep s op = some s') :
    s'.Inv := by
  by_cases hfits : LcdFits s op
  · obtain ⟨s₁, h₁, hs₁⟩ := lcdStep_some hs hfits
    obtain rfl : s₁ = s' := Option.some.inj (h₁.symm.trans h)
    exact hs₁
  · rw [lcdStep_none hs hfits] at h
    cases h

/-- One window of 8 by 32 pixels on a screen of the same size, at the start of the RAM.  After each
    line of 32 bytes there are 8 that are not shown: line 25 lies in two pages. -/
def lcdSetup : List LcdOp :=
  [.write 0x018 ((31 <<< 11) ||| 7), .write 0x044 ((7 <<< 11) ||| 31), .write 0x0A0 0x30000000,
    .write 0x100 ((8 <<< 13) ||| 32), .write 0x020 ((11 <<< 2) ||| 1), .write 0x000 2]

/-- One window, after its setup. -/
def lcdShown : Lcd := (runFrom lcdStep lcdNew lcdSetup).getD lcdNew

theorem lcdSetup_run : runFrom lcdStep lcdNew lcdSetup = some lcdShown := rfl

/-- RAM of 256 pages at the physical address `0x30000000`. -/
def lcdBoardMemory : LcdMemory where
  desc p := p - 0xC0000
  isRam p := 0xC0000 ≤ p ∧ p < 0xC0100
  host p := if p < 256 then some (p + 4096) else none
  bounce := none

/-- A write in line 26. -/
def lcdLineWrite : List LcdSystemOp := [.update 32, .write 1040 7, .update 32]

end Qemu.Hw
