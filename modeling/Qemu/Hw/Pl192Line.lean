import Qemu.Hw.Pl192Bounds

namespace Qemu.Hw

open Qemu.Lib

/-!
# The interrupt line of the PL192

The line of the first controller is to be up as long as a source comes before what is being
served.  An update leaves it as it is if the first source is the current one or is masked, which is
wrong unless it was right before.

* `Pl192.Wants`, `Pl192.First` — a source that comes before what is served, and the first source;
* `pl192PrioritySorter_cases` — the sorter finds the first source;
* `pl192Update_line` — when an update leaves the line right;
* `Pl192Op.Effect` — what an access does that returns.
-/

/-! ### Sources -/

/-- The source is asserted, enabled and selected for the IRQ. -/
def Pl192.pending (s : Pl192) (i : Fin 32) : Bool :=
  ((s.rawintr ||| s.softint) &&& s.intenable &&& ~~~s.intselect).getLsbD i

/-- The source is pending, and the software priority mask lets it through. -/
def Pl192.candidate (s : Pl192) (i : Fin 32) : Bool :=
  s.pending i && s.allows (s.vectPriority.get i)

/-- Some source comes before the interrupt that is being served. -/
def Pl192.Wants (s : Pl192) : Prop :=
  ∃ i : Fin 32, s.candidate i = true ∧ s.vectPriority.get i < s.priority

/-- The source comes before all others. -/
structure Pl192.First (s : Pl192) (i : Fin 32) : Prop where
  candidate : s.candidate i = true
  before : ∀ j : Fin 32, s.candidate j = true →
    s.vectPriority.get i < s.vectPriority.get j ∨
      (s.vectPriority.get i = s.vectPriority.get j ∧ i ≤ j)

/-- The line says whether some source comes before what is being served. -/
def Chain.LineRight (c : Chain) : Prop := c.irq = true ↔ (c.vic 0).Wants

theorem candidate_eq (s : Pl192) (i : Fin 32) :
    s.candidate i = (s.latch.at (s.vectPriority.get i) i && s.allows (s.vectPriority.get i)) := by
  unfold Pl192.at
  rw [decide_eq_true (show s.latch.vectPriority.get i = s.vectPriority.get i from rfl),
    Bool.and_true]
  rfl

variable {i : Fin 32} {s : Pl192}

theorem Pl192.First.unique {j : Fin 32} (h : s.First i) (h' : s.First j) : i = j := by
  have hij := h.before j h'.candidate
  have hji := h'.before i h.candidate
  obtain hij | hij := hij
  · omega
  · obtain hji | hji := hji
    · omega
    · exact le_antisymm hij.2 hji.2

/-- The priorities of the sources are levels. -/
def Pl192.PrioWf (s : Pl192) : Prop := ∀ i : Fin 32, s.vectPriority.get i < pl192PrioLevels

theorem prioIrq_lt_of_no_daisy (hd : s.daisyInput = false) {p : Nat}
    (h : prioIrq s p ≤ pl192DaisyIrq) : prioIrq s p < 32 := by
  refine Nat.lt_of_le_of_ne h fun heq => ?_
  have hdaisy := prioIrq_daisy heq
  rw [hd] at hdaisy
  cases hdaisy

/-- **The sorter** finds the first source, if there is one. -/
theorem pl192PrioritySorter_cases (hd : s.daisyInput = false) (hp : s.PrioWf) :
    (∃ i, s.First i ∧ pl192PrioritySorter s.latch = i) ∨
      ((∀ i, s.candidate i = false) ∧ pl192PrioritySorter s.latch = pl192NoIrq) := by
  have hlevel : ∀ i, s.candidate i = true → s.latch.level (s.vectPriority.get i) = true := by
    intro i hi
    rw [candidate_eq, Bool.and_eq_true] at hi
    rw [Pl192.level, Bool.and_eq_true, decide_eq_true_eq]
    exact ⟨hi.2, (prioIrq_of_at hi.1).le⟩
  rw [pl192PrioritySorter_eq]
  -- the lowest level that has a candidate, and its first one
  cases hf : (List.range pl192PrioLevels).find? s.latch.level with
  | none =>
    refine .inr ⟨fun i => ?_, rfl⟩
    by_contra hi
    have hnone := List.find?_range_eq_none.mp hf _ (hp i)
    rw [hlevel i (Bool.not_eq_false _ ▸ hi)] at hnone
    cases hnone
  | some p =>
    obtain ⟨hl, -, hbelow⟩ := List.find?_range_eq_some.mp hf
    rw [Pl192.level, Bool.and_eq_true, decide_eq_true_eq] at hl
    obtain ⟨i, hi, hat, hleast⟩ := prioIrq_source (prioIrq_lt_of_no_daisy (s := s.latch) hd hl.2)
    have hprio : s.vectPriority.get i = p := by
      rw [Pl192.at, Bool.and_eq_true, decide_eq_true_eq] at hat
      exact hat.2
    refine .inl ⟨i, ⟨?_, fun j hj => ?_⟩, hi⟩
    · rw [candidate_eq, hprio, hat, Bool.true_and]
      exact hl.1
    · rw [hprio]
      have hge : p ≤ s.vectPriority.get j := by
        by_contra hlt
        have hnone := hbelow _ (Nat.not_le.mp hlt)
        rw [hlevel j hj] at hnone
        cases hnone
      obtain hlt | heq := Nat.lt_or_eq_of_le hge
      · exact .inl hlt
      · refine .inr ⟨heq, hleast j ?_⟩
        rw [candidate_eq, ← heq, Bool.and_eq_true] at hj
        exact hj.1

theorem Pl192.First.wants_iff (h : s.First i) : s.Wants ↔ s.vectPriority.get i < s.priority := by
  constructor
  · rintro ⟨j, hj, hlt⟩
    have hij := h.before j hj
    omega
  · exact fun hlt => ⟨i, h.candidate, hlt⟩

/-! ### What an update does to the line -/

/-- The update drives the line: nothing is pending, or what is pending is not let through, or the
    first source is another one than the current interrupt and comes before it. -/
def Pl192.Drives (s : Pl192) : Prop :=
  (∀ i, s.pending i = false) ∨
    ((∀ i, s.candidate i = false) ∧ s.current ≠ pl192NoIrq) ∨
    ∃ i, s.First i ∧ i.val ≠ s.current ∧ s.vectPriority.get i < s.priority

/-- An update leaves the line right: it drives the line, or the line was right before. -/
def Pl192.LineSettles (s : Pl192) (line : Bool) : Prop := s.Drives ∨ (line = true ↔ s.Wants)

theorem pending_none : (∀ i, s.pending i = false) ↔ s.latch.irqStatus = 0#32 := by
  constructor
  · intro h
    refine BitVec.eq_of_getLsbD_eq fun i hi => ?_
    rw [BitVec.getLsbD_zero]
    exact h ⟨i, hi⟩
  · intro h i
    have hbit : s.latch.irqStatus.getLsbD i = false := by rw [h, BitVec.getLsbD_zero]
    exact hbit

theorem refresh_sources (s : Pl192) :
    (∀ i, s.refresh.candidate i = s.candidate i) ∧ s.refresh.vectPriority = s.vectPriority ∧
      s.refresh.vectAddr = s.vectAddr ∧ s.refresh.priority = s.priority := by
  unfold Pl192.refresh
  split_ifs
  · exact ⟨fun _ => rfl, rfl, rfl, rfl⟩
  · exact ⟨fun _ => rfl, rfl, rfl, rfl⟩

theorem refresh_wants (s : Pl192) : s.refresh.Wants ↔ s.Wants := by
  obtain ⟨hcand, hprio, -, hpri⟩ := refresh_sources s
  unfold Pl192.Wants
  rw [hprio, hpri]
  simp only [hcand]

theorem update_irq (c : Chain) :
    (pl192Update 0 c).irq =
        (match (c.vic 0).refresh.lineChange with
        | .keep => c.irq
        | .raise => true
        | .lower => false) ∧
      (pl192Update 0 c).vic 0 = (c.vic 0).refresh := by
  have hvic : (c.refresh 0).vic 0 = (c.vic 0).refresh := Chain.set_self c 0 _
  rw [pl192Update_zero]
  cases (c.vic 0).refresh.lineChange with
  | keep => exact ⟨rfl, hvic⟩
  | raise => exact ⟨rfl, hvic⟩
  | lower => exact ⟨rfl, hvic⟩

theorem lineChange_idle (hd : s.daisyInput = false) (h : ∀ i, s.pending i = false) :
    s.refresh.lineChange = .lower := by
  have hact : s.refresh.active = false := by
    rw [refresh_active, Pl192.active, pending_none.mp h]
    exact hd
  rw [Pl192.lineChange, if_neg (by rw [hact]; exact Bool.false_ne_true)]

theorem refresh_pending (h : ¬∀ i, s.pending i = false) :
    s.refresh = s.latch.choose ∧ s.refresh.active = true := by
  have hact : s.latch.active = true := by
    rw [Pl192.active, Bool.or_eq_true, bne_iff_ne]
    exact .inl fun h0 => h (pending_none.mpr h0)
  exact ⟨if_pos hact, by rw [refresh_active, hact]⟩

/-- With a first source, the line is raised unless it is the current interrupt or does not come
    before it. -/
theorem lineChange_first (hi : s.First i) (hsort : pl192PrioritySorter s.latch = i) :
    s.refresh.lineChange =
      if i.val = s.current ∨ s.priority ≤ s.vectPriority.get i then .keep else .raise := by
  have hpend : ¬∀ i, s.pending i = false := by
    intro h
    have hc := hi.candidate
    rw [Pl192.candidate, h, Bool.false_and] at hc
    cases hc
  obtain ⟨href, hact⟩ := refresh_pending hpend
  have hhigh : s.latch.choose.currentHighest = i := hsort
  have hmask : s.latch.choose.masked = decide (s.priority ≤ s.vectPriority.get i) := by
    unfold Pl192.masked
    rw [dif_pos (by rw [hhigh]; exact i.isLt)]
    simp only [hhigh]
    rfl
  have hkeep : s.latch.choose.currentHighest = s.latch.choose.current ∨
      s.latch.choose.masked = true ↔ i.val = s.current ∨ s.priority ≤ s.vectPriority.get i := by
    rw [hmask, hhigh, decide_eq_true_eq]
    rfl
  rw [Pl192.lineChange, if_pos hact, href]
  by_cases h : i.val = s.current ∨ s.priority ≤ s.vectPriority.get i
  · rw [if_pos (hkeep.mpr h), if_pos h]
  · rw [if_neg fun h' => h (hkeep.mp h'), if_neg h, hhigh]
    exact if_pos i.isLt.le

/-- With nothing let through, the line is lowered unless nothing is being served. -/
theorem lineChange_none (hpend : ¬∀ i, s.pending i = false)
    (hsort : pl192PrioritySorter s.latch = pl192NoIrq) :
    s.refresh.lineChange = if s.current = pl192NoIrq then .keep else .lower := by
  obtain ⟨href, hact⟩ := refresh_pending hpend
  have hhigh : s.latch.choose.currentHighest = pl192NoIrq := hsort
  have hmask : s.latch.choose.masked = false := by
    unfold Pl192.masked
    rw [dif_neg (by rw [hhigh]; decide), hhigh]
    exact decide_eq_false fun h => absurd h.1 (by decide)
  have hkeep : s.latch.choose.currentHighest = s.latch.choose.current ∨
      s.latch.choose.masked = true ↔ s.current = pl192NoIrq := by
    rw [hmask, hhigh]
    exact (or_iff_left Bool.false_ne_true).trans eq_comm
  rw [Pl192.lineChange, if_pos hact, href]
  by_cases hcur : s.current = pl192NoIrq
  · rw [if_pos (hkeep.mpr hcur), if_pos hcur]
  · rw [if_neg fun h => hcur (hkeep.mp h), if_neg hcur, hhigh, if_neg (by decide)]

variable {c : Chain}

/-- **An update leaves the line right** exactly if it drives the line or the line was right. -/
theorem pl192Update_line (hd : (c.vic 0).daisyInput = false) (hp : (c.vic 0).PrioWf) :
    (pl192Update 0 c).LineRight ↔ (c.vic 0).LineSettles c.irq := by
  obtain ⟨hirq, hvic⟩ := update_irq c
  unfold Chain.LineRight Pl192.LineSettles
  rw [hirq, hvic, refresh_wants]
  obtain ⟨s, hs⟩ : ∃ s, s = c.vic 0 := ⟨_, rfl⟩
  rw [← hs] at hd hp ⊢
  -- with nothing pending the line stays low, else the first one decides
  by_cases hidle : ∀ i, s.pending i = false
  · have hno : ¬s.Wants := by
      rintro ⟨i, hi, -⟩
      rw [Pl192.candidate, hidle, Bool.false_and] at hi
      cases hi
    rw [lineChange_idle hd hidle]
    exact iff_of_true (iff_of_false Bool.false_ne_true hno) (.inl (.inl hidle))
  · obtain ⟨i, hi, hsort⟩ | ⟨hnone, hsort⟩ := pl192PrioritySorter_cases hd hp
    · rw [lineChange_first hi hsort, hi.wants_iff]
      have hdrives : s.Drives ↔ i.val ≠ s.current ∧ s.vectPriority.get i < s.priority := by
        constructor
        · rintro (h | ⟨h, -⟩ | ⟨j, hj, h⟩)
          · exact absurd h hidle
          · exact absurd hi.candidate (Bool.eq_false_iff.mp (h i))
          · obtain rfl := hi.unique hj
            exact h
        · exact fun h => .inr (.inr ⟨i, hi, h⟩)
      rw [hdrives]
      split_ifs with hkeep
      · refine (or_iff_right fun h => ?_).symm
        omega
      · exact iff_of_true (iff_of_true rfl (by omega)) (.inl (by omega))
    · have hno : ¬s.Wants := by
        rintro ⟨i, hi, -⟩
        rw [hnone i] at hi
        cases hi
      rw [lineChange_none hidle hsort]
      split_ifs with hcur
      · refine (or_iff_right ?_).symm
        rintro (h | ⟨-, h⟩ | ⟨j, hj, -⟩)
        · exact hidle h
        · exact h hcur
        · exact absurd hj.candidate (by rw [hnone j]; exact Bool.false_ne_true)
      · exact iff_of_true (iff_of_false (fun h => nomatch h) hno) (.inl (.inr (.inl ⟨hnone, hcur⟩)))

/-! ### What an access does -/

/-- The controller with a line changed. -/
def Pl192.withLine (s : Pl192) (line : Fin 32) (level : Bool) : Pl192 :=
  { s with
    rawintr :=
      if level then s.rawintr ||| BitVec.twoPow 32 line
      else s.rawintr &&& ~~~BitVec.twoPow 32 line }

/-- The controller with a register written, if that is followed by an update. -/
def Pl192.written (s : Pl192) (offset : Nat) (value : BitVec 32) : Option Pl192 :=
  if offset % 4 ≠ 0 then none
  else if 0x100 ≤ offset ∧ offset < 0x180 then
    some { s with vectAddr := s.vectAddr.setIfInBounds ((offset - 0x100) / 4) value }
  else if 0x200 ≤ offset ∧ offset < 0x280 then
    some { s with
      vectPriority := s.vectPriority.setIfInBounds ((offset - 0x200) / 4) (value &&& 0xf).toNat }
  else pl192WriteReg s offset value

/-- The chain when an interrupt has ended. -/
def Chain.popped (c : Chain) (k : Nat) : Chain :=
  let c' := c.set k (c.vic k).pop
  if (c.vic k).current = pl192DaisyIrq then c'.set (k + 1) (c.vic (k + 1)).pop else c'

/-- **What an access does** that returns. -/
inductive Pl192Op.Effect (c : Chain) : Pl192Op → Chain → Prop
  | look (k offset : Nat) (h : offset ≠ 0xF00) : Effect c (.read k offset) c
  | ignored (k offset : Nat) (value : BitVec 32) (h : (c.vic k).written offset value = none)
      (h' : offset ≠ 0xF00) : Effect c (.write k offset value) c
  | line (k : Nat) (line : Fin 32) (level : Bool) :
      Effect c (.irq k line level) (pl192Update k (c.set k ((c.vic k).withLine line level)))
  | write (k offset : Nat) (value : BitVec 32) (s : Pl192)
    (h : (c.vic k).written offset value = some s) :
      Effect c (.write k offset value) (pl192Update k (c.set k s))
  | ack (k : Nat) (h : c.CanAck k) : Effect c (.read k 0xF00) (pl192Update k (c.acked k))
  | fin (k : Nat) (value : BitVec 32) (h : 1 ≤ (c.vic k).stackI) :
      Effect c (.write k 0xF00 value) (pl192FinUpdate k (c.popped k))

theorem after_running {r : Except Pl192Stop Chain} (h : Vics.after r = some (.running c)) :
    r = .ok c := by
  cases r with
  | ok c' => exact congrArg Except.ok (Vics.running.inj (Option.some.inj h))
  | error e =>
    cases e with
    | hwError => exact nomatch Option.some.inj h
    | fault => cases h

variable {c' : Chain} {k offset : Nat}

theorem pl192ReadReg_same (hne : offset ≠ 0xF00)
    (h : (pl192ReadReg k c offset).map Prod.fst = .ok c') : c' = c := by
  unfold pl192ReadReg at h
  dsimp only at h
  split at h
  case h_10 => exact absurd rfl hne
  case h_14 => cases h
  all_goals exact (Except.ok.inj h).symm

theorem pl192Read_same (hne : offset ≠ 0xF00) (h : (pl192Read k c offset).map Prod.fst = .ok c') :
    c' = c := by
  unfold pl192Read at h
  dsimp only at h
  split_ifs at h
  · cases h
  · rw [loadAt_of_lt _ (by omega)] at h
    exact (Except.ok.inj h).symm
  · rw [loadAt_of_lt _ (by omega)] at h
    exact (Except.ok.inj h).symm
  · rw [loadAt_of_lt _ (by omega)] at h
    exact (Except.ok.inj h).symm
  · exact pl192ReadReg_same hne h

/-- The end of an interrupt takes it off the stack. -/
theorem pl192IrqFin_popped (hc : c.Wf) (h : pl192IrqFin k c = .ok c') :
    1 ≤ (c.vic k).stackI ∧ c' = pl192FinUpdate k (c.popped k) := by
  have h : Except.bind (pl192UnmaskPriority (c.vic k)) _ = .ok c' := h
  rw [pl192UnmaskPriority_eq (hc k).stack] at h
  by_cases hempty : (c.vic k).stackI < 1
  · rw [if_pos hempty] at h
    cases h
  · rw [if_neg hempty] at h
    refine ⟨Nat.not_lt.mp hempty, ?_⟩
    unfold Chain.popped
    have h : Except.bind (Chain.callback _ _ _ _) _ = .ok c' := h
    by_cases hd : (c.vic k).current = pl192DaisyIrq
    · rw [Chain.callback_daisy hd (hc.callback (.inr hd)),
        pl192UnmaskPriority_eq (hc (k + 1)).stack] at h
      rw [if_pos hd]
      split_ifs at h
      · cases h
      · exact (Except.ok.inj h).symm
    · rw [Chain.callback_source hd] at h
      rw [if_neg hd]
      exact (Except.ok.inj h).symm

/-- What a write does. -/
theorem pl192Write_effect (hc : c.Wf) {value : BitVec 32}
    (h : pl192Write k c offset value = .ok c') : (Pl192Op.write k offset value).Effect c c' := by
  unfold pl192Write at h
  dsimp only at h
  -- the protected addresses are refused, the others reach their register
  split_ifs at h with hmod hid haddr hprio hfin hign
  · rw [putAt_eq _ (by omega)] at h
    obtain rfl := Except.ok.inj h
    refine .write k offset value _ ?_
    rw [Pl192.written, if_neg hmod, if_pos haddr]
  · rw [putAt_eq _ (by omega)] at h
    obtain rfl := Except.ok.inj h
    refine .write k offset value _ ?_
    rw [Pl192.written, if_neg hmod, if_neg haddr, if_pos hprio]
  · subst hfin
    obtain ⟨hstack, rfl⟩ := pl192IrqFin_popped hc h
    exact .fin k value hstack
  · obtain rfl := Except.ok.inj h
    refine .ignored k offset value ?_ hfin
    rw [Pl192.written, if_neg hmod, if_neg haddr, if_neg hprio]
    have hign : offset = 0x00 ∨ offset = 0x300 ∨ offset = 0x30 ∨ offset = 0x34 :=
      of_decide_eq_true hign
    obtain rfl | rfl | rfl | rfl := hign
    · rfl
    · rfl
    · rfl
    · rfl
  · cases hw : pl192WriteReg (c.vic k) offset value with
    | none =>
      rw [hw] at h
      cases h
    | some s =>
      rw [hw] at h
      obtain rfl := Except.ok.inj h
      refine .write k offset value s ?_
      rw [Pl192.written, if_neg hmod, if_neg haddr, if_neg hprio, hw]

/-- What an operation does. -/
theorem Pl192Op.effect (hc : c.Wf) {op : Pl192Op} (h : op.exec (.running c) = some (.running c')) :
    op.Effect c c' := by
  have h := after_running h
  cases op with
  | irq k line level =>
    obtain rfl := Except.ok.inj h
    exact .line k line level
  | write k offset value => exact pl192Write_effect hc h
  | read k offset =>
    by_cases hoff : offset = 0xF00
    · subst hoff
      have h : (pl192IrqAck k c).map Prod.fst = .ok c' := h
      by_cases hk : c.CanAck k
      · rw [pl192IrqAck_ok hc hk] at h
        obtain rfl := Except.ok.inj h
        exact .ack k hk
      · rw [pl192IrqAck_fault hc hk] at h
        cases h
    · obtain rfl := pl192Read_same hoff h
      exact .look k offset hoff

end Qemu.Hw
