import Qemu.Hw.Ptimer

namespace Qemu.Hw

open Lib

/-!
# The count of a timer

* `Ptimer.Reloaded`, `Ptimer.Fits` — a timer that runs, with a deadline that has not overflowed;
* `ptimerReload_reloaded` — a reload leaves such a timer, or disables it;
* `Ptimer.Bounded`, `Ptimer.CountsDown` — how `ptimer_get_count` counts down;
* `ptimerGetCount_toNat` — the count, as a quotient of natural numbers;
* `ptimer_get_count` — the count is `delta`, or it is between zero and `delta` and counts down if no
  bits of the fraction are lost.
-/

/-! ### Statements -/

/-- What `ptimer_reload` leaves if it does not disable the timer. -/
structure Ptimer.Reloaded (s : Ptimer) : Prop where
  enabled : s.enabled ≠ .disabled
  delta : s.delta ≠ 0
  period : s.period ≠ 0
  next : s.nextEvent = s.lastEvent + s.interval

theorem ptimerReload_reloaded {s : Ptimer} (h : (ptimerReload s).enabled ≠ .disabled) :
    (ptimerReload s).Reloaded := by
  unfold ptimerReload ptimerArm at h ⊢
  by_cases hstop : (ptimerRefill s).delta = 0 ∨ (ptimerRefill s).period = 0
  · rw [if_pos hstop] at h
    exact absurd rfl h
  · rw [if_neg hstop] at h ⊢
    obtain ⟨hdelta, hperiod⟩ := not_or.mp hstop
    exact ⟨h, hdelta, hperiod, rfl⟩

/-- No sum of `ptimer_reload` overflows. -/
structure Ptimer.Fits (s : Ptimer) : Prop where
  deadline : s.lastEvent.toNat + s.delta.toNat * s.fixedPeriod / 2 ^ 32 < 2 ^ 63
  frac : s.periodFrac.toNat * s.delta.toNat < 2 ^ 64

/-- All bits of the fraction fit into the divisor from the start of the period on. -/
def Ptimer.Exact (s : Ptimer) : Prop := s.lost (s.shift s.interval) = 0

/-- A time from the last event on. -/
def Ptimer.Since (s : Ptimer) (now : BitVec 64) : Prop :=
  s.lastEvent.toNat ≤ now.toNat ∧ now.toNat < 2 ^ 63

/-- The count is never more than `delta`, and it is zero only in the last period. -/
structure Ptimer.Bounded (s : Ptimer) : Prop where
  le_delta : ∀ now count, s.Since now → ptimerGetCount s now = .ok count →
    count.toNat ≤ s.delta.toNat
  zero : ∀ now, s.Since now → ptimerGetCount s now = .ok 0 →
    s.nextEvent.toNat * 2 ^ 32 < now.toNat * 2 ^ 32 + s.fixedPeriod

/-- The count can be read at all times, it never increases, and it starts from `delta`, rounded
    down. -/
structure Ptimer.CountsDown (s : Ptimer) : Prop where
  divides : ∀ now, s.Since now → ∃ count, ptimerGetCount s now = .ok count
  antitone : ∀ now now' count count', s.Since now → s.Since now' → now.toNat ≤ now'.toNat →
    ptimerGetCount s now = .ok count → ptimerGetCount s now' = .ok count' →
      count'.toNat ≤ count.toNat
  start : ∀ count, ptimerGetCount s s.lastEvent = .ok count →
    count.toNat ≤ s.delta.toNat ∧ s.delta.toNat ≤ count.toNat + 1

/-! ### Times -/

variable {s : Ptimer} {now rem : BitVec 64}

theorem Ptimer.Reloaded.fixedPeriod_ge (h : s.Reloaded) : 2 ^ 32 ≤ s.fixedPeriod := by
  have hpos : 0 < s.period.toNat := Nat.pos_of_ne_zero fun hzero =>
    h.period (BitVec.eq_of_toNat_eq hzero)
  unfold Ptimer.fixedPeriod
  omega

/-- The length of the period. -/
theorem Ptimer.Fits.interval_toNat (h : s.Fits) :
    s.interval.toNat = s.delta.toNat * s.fixedPeriod / 2 ^ 32 := by
  have hsplit : s.delta.toNat * s.fixedPeriod / 2 ^ 32 =
      s.delta.toNat * s.period.toNat + s.periodFrac.toNat * s.delta.toNat / 2 ^ 32 := by
    have hsum : s.delta.toNat * s.fixedPeriod =
        2 ^ 32 * (s.delta.toNat * s.period.toNat) + s.periodFrac.toNat * s.delta.toNat := by
      unfold Ptimer.fixedPeriod
      ring
    rw [hsum, Nat.mul_add_div (by decide)]
  have hdeadline := h.deadline
  rw [hsplit] at hdeadline ⊢
  have hwide : (s.periodFrac.setWidth 64).toNat = s.periodFrac.toNat := by
    rw [BitVec.toNat_setWidth]
    exact Nat.mod_eq_of_lt (s.periodFrac.isLt.trans (by decide))
  unfold Ptimer.interval
  rw [BitVec.toNat_add, BitVec.toNat_mul, BitVec.toNat_ushiftRight, BitVec.toNat_mul, hwide,
    Nat.shiftRight_eq_div_pow, Nat.mod_eq_of_lt h.frac]
  rw [Nat.mod_eq_of_lt (show s.delta.toNat * s.period.toNat < 2 ^ 64 by omega)]
  exact Nat.mod_eq_of_lt (by omega)

theorem Ptimer.Fits.next_toNat (h : s.Fits) (hs : s.Reloaded) :
    s.nextEvent.toNat = s.lastEvent.toNat + s.delta.toNat * s.fixedPeriod / 2 ^ 32 := by
  have hdeadline := h.deadline
  rw [hs.next, BitVec.toNat_add, h.interval_toNat]
  exact Nat.mod_eq_of_lt (by omega)

theorem slt_zero_sub {a b : BitVec 64} (ha : a.toNat < 2 ^ 63) (hb : b.toNat < 2 ^ 63) :
    (0 : BitVec 64).slt (a - b) = true ↔ b.toNat < a.toNat := by
  have hsub : (a - b).toNat = (2 ^ 64 - b.toNat + a.toNat) % 2 ^ 64 := BitVec.toNat_sub a b
  rw [BitVec.slt_iff_toInt_lt, BitVec.toInt_eq_toNat_cond (a - b), hsub]
  have hzero : (0 : BitVec 64).toInt = 0 := rfl
  rw [hzero]
  split_ifs <;> omega

theorem ptimerGetCount_after (hs : s.Reloaded) (hnow : s.Since now)
    (hafter : s.nextEvent.toNat < now.toNat) : ptimerGetCount s now = .ok 0 := by
  have hslt := (slt_zero_sub hnow.2 (hafter.trans hnow.2)).mpr hafter
  rw [ptimerGetCount, if_neg hs.enabled, if_pos (.inl hslt)]

theorem ptimerGetCount_before (hs : s.Reloaded) (h : s.Fits)
    (hbefore : now.toNat ≤ s.nextEvent.toNat) :
    ptimerGetCount s now = udiv ((s.nextEvent - now) <<< s.shift (s.nextEvent - now))
      (s.scaledPeriod (s.shift (s.nextEvent - now))) := by
  have hnext := h.next_toNat hs
  have hdeadline := h.deadline
  rw [ptimerGetCount, if_neg hs.enabled, if_neg]
  rintro (hslt | hperiod)
  · rw [slt_zero_sub (by omega) (by omega)] at hslt
    omega
  · exact hs.period hperiod

theorem rem_toNat (hbefore : now.toNat ≤ s.nextEvent.toNat) :
    (s.nextEvent - now).toNat = s.nextEvent.toNat - now.toNat :=
  BitVec.toNat_sub_of_le (BitVec.le_def.mpr hbefore)

/-! ### Shifts -/

/-- Smaller numbers have more leading zeros. -/
theorem clz_antitone {x y : BitVec 64} (h : x.toNat ≤ y.toNat) : y.clz.toNat ≤ x.clz.toNat := by
  by_cases hx : x = 0
  · have hclz : x.clz = BitVec.ofNat 64 64 := BitVec.clz_eq_iff_eq_zero.mpr hx
    rw [hclz]
    exact BitVec.le_def.mp (BitVec.clz_le (x := y))
  · have hlow : 2 ^ (64 - 1 - x.clz.toNat) ≤ x.toNat :=
      BitVec.two_pow_sub_clz_le_toNat_of_ne_zero (by decide) hx
    have hhigh : y.toNat < 2 ^ (64 - y.clz.toNat) := BitVec.toNat_lt_two_pow_sub_clz
    have hpow : 64 - 1 - x.clz.toNat < 64 - y.clz.toNat :=
      (Nat.pow_lt_pow_iff_right (a := 2) (by decide)).mp (hlow.trans_lt (h.trans_lt hhigh))
    omega

theorem Ptimer.lost_mono {a b : Nat} (hab : a ≤ b) (h : s.lost a = 0) : s.lost b = 0 := by
  by_cases hb : 32 ≤ b
  · rw [Ptimer.lost, if_pos hb]
  · rw [Ptimer.lost_eq_zero (by omega)] at h ⊢
    exact h.trans (Nat.mul_dvd_mul_left _ (Nat.pow_dvd_pow 2 hab))

theorem Ptimer.shift_mono {rem' : BitVec 64} (h : rem.toNat ≤ rem'.toNat) :
    s.shift rem' ≤ s.shift rem :=
  min_le_min_right _ (clz_antitone h)

/-! ### Quotients -/

/-- The divisor is at least the scaled period, and less than one above it. -/
theorem Ptimer.scaledPeriod_bounds {shift : Nat} (h : shift ≤ s.period.clz.toNat)
    (hne : s.scaledPeriod shift ≠ 0) :
    s.fixedPeriod * 2 ^ shift ≤ (s.scaledPeriod shift).toNat * 2 ^ 32 ∧
      (s.scaledPeriod shift).toNat * 2 ^ 32 < s.fixedPeriod * 2 ^ shift + 2 ^ 32 := by
  by_cases hlost : s.lost shift = 0
  · rw [Ptimer.scaledPeriod_exact h hlost]
    exact ⟨le_rfl, by omega⟩
  · have hfloor := Ptimer.floorPeriod_toNat h
    have hsmall : shift < 32 := by
      by_contra hlarge
      exact hlost (by rw [Ptimer.lost, if_pos (Nat.le_of_not_lt hlarge)])
    have hround : s.fixedPeriod * 2 ^ shift % 2 ^ 32 ≠ 0 := by
      rw [Ptimer.lost_eq_zero hsmall] at hlost
      intro hzero
      refine hlost ((Nat.dvd_add_right ⟨s.period.toNat * 2 ^ shift, ?_⟩).mp
        (Nat.dvd_of_mod_eq_zero hzero |>.trans (dvd_of_eq (Nat.add_mul _ _ _))))
      ring
    have hsum : (s.scaledPeriod shift).toNat = (s.floorPeriod shift).toNat + 1 := by
      rw [Ptimer.scaledPeriod_eq, if_pos hlost] at hne ⊢
      rw [BitVec.toNat_add]
      refine Nat.mod_eq_of_lt ?_
      by_contra hover
      have hone : (1 : BitVec 64).toNat = 1 := rfl
      have hlt := (s.floorPeriod shift).isLt
      refine hne (BitVec.eq_of_toNat_eq ?_)
      rw [BitVec.toNat_add]
      have hzero : (0 : BitVec 64).toNat = 0 := rfl
      omega
    rw [hsum, hfloor]
    omega

/-- **The count**, as natural numbers. -/
theorem ptimerGetCount_toNat (hs : s.Reloaded) (h : s.Fits)
    (hbefore : now.toNat ≤ s.nextEvent.toNat) {count : BitVec 64}
    (hcount : ptimerGetCount s now = .ok count) :
    ∃ shift, shift = s.shift (s.nextEvent - now) ∧ s.scaledPeriod shift ≠ 0 ∧
      count.toNat =
        (s.nextEvent.toNat - now.toNat) * 2 ^ shift / (s.scaledPeriod shift).toNat := by
  refine ⟨_, rfl, ?_⟩
  rw [ptimerGetCount_before hs h hbefore] at hcount
  have hne : s.scaledPeriod (s.shift (s.nextEvent - now)) ≠ 0 := by
    intro hzero
    rw [hzero, udiv, if_pos rfl] at hcount
    cases hcount
  refine ⟨hne, ?_⟩
  rw [udiv_eq _ hne] at hcount
  have hclz : s.shift (s.nextEvent - now) ≤ (s.nextEvent - now).clz.toNat := Nat.min_le_left _ _
  rw [← Except.ok.inj hcount, BitVec.toNat_udiv, toNat_shiftLeft_of_le_clz hclz, rem_toNat hbefore]

/-- A quotient that is scaled. -/
theorem scaled_div {rem period scaled k : Nat} (hperiod : 0 < period)
    (h : scaled * 2 ^ 32 = period * 2 ^ k) : rem * 2 ^ k / scaled = rem * 2 ^ 32 / period := by
  have hscaled : 0 < scaled := by
    refine Nat.pos_of_ne_zero fun hzero => ?_
    rw [hzero, Nat.zero_mul] at h
    exact absurd h.symm (Nat.mul_pos hperiod (Nat.two_pow_pos k)).ne'
  calc rem * 2 ^ k / scaled = rem * 2 ^ k * 2 ^ 32 / (scaled * 2 ^ 32) :=
        (Nat.mul_div_mul_right _ _ (by decide)).symm
    _ = rem * 2 ^ 32 * 2 ^ k / (period * 2 ^ k) := by rw [h, Nat.mul_right_comm]
    _ = rem * 2 ^ 32 / period := Nat.mul_div_mul_right _ _ (Nat.two_pow_pos k)

/-! ### Bounds -/

theorem lt_of_rounded {rem div period : Nat} (hrem : rem < div)
    (hdiv : div * 2 ^ 32 < period + 2 ^ 32) : rem * 2 ^ 32 < period := by
  refine Nat.lt_of_add_lt_add_right (n := 2 ^ 32) (lt_of_le_of_lt ?_ hdiv)
  rw [← Nat.succ_mul]
  exact Nat.mul_le_mul_right _ hrem

/-- The count stays between zero and the value loaded. -/
theorem Ptimer.bounded (hs : s.Reloaded) (h : s.Fits) : s.Bounded := by
  have hnext := h.next_toNat hs
  have hperiod := hs.fixedPeriod_ge
  refine ⟨fun now count hnow hcount => ?_, fun now hnow hcount => ?_⟩
  · rcases Nat.lt_or_ge s.nextEvent.toNat now.toNat with hafter | hbefore
    · rw [ptimerGetCount_after hs hnow hafter] at hcount
      rw [← Except.ok.inj hcount]
      exact Nat.zero_le _
    · obtain ⟨shift, hshift, hne, hcount⟩ := ptimerGetCount_toNat hs h hbefore hcount
      have hle := (Ptimer.scaledPeriod_bounds (hshift ▸ s.shift_le _) hne).1
      have hrem : (s.nextEvent.toNat - now.toNat) * 2 ^ 32 ≤ s.delta.toNat * s.fixedPeriod := by
        have := hnow.1
        omega
      rw [hcount]
      refine Nat.le_of_mul_le_mul_right (c := s.fixedPeriod * 2 ^ shift) ?_
        (Nat.mul_pos (by omega) (Nat.two_pow_pos shift))
      calc (s.nextEvent.toNat - now.toNat) * 2 ^ shift / (s.scaledPeriod shift).toNat *
              (s.fixedPeriod * 2 ^ shift)
          ≤ (s.nextEvent.toNat - now.toNat) * 2 ^ shift / (s.scaledPeriod shift).toNat *
              ((s.scaledPeriod shift).toNat * 2 ^ 32) := Nat.mul_le_mul_left _ hle
        _ ≤ (s.nextEvent.toNat - now.toNat) * 2 ^ shift * 2 ^ 32 := by
            rw [← Nat.mul_assoc]
            exact Nat.mul_le_mul_right _ (Nat.div_mul_le_self _ _)
        _ = (s.nextEvent.toNat - now.toNat) * 2 ^ 32 * 2 ^ shift := Nat.mul_right_comm _ _ _
        _ ≤ s.delta.toNat * s.fixedPeriod * 2 ^ shift := Nat.mul_le_mul_right _ hrem
        _ = s.delta.toNat * (s.fixedPeriod * 2 ^ shift) := Nat.mul_assoc _ _ _
  · rcases Nat.lt_or_ge s.nextEvent.toNat now.toNat with hafter | hbefore
    · omega
    · obtain ⟨shift, hshift, hne, hzero⟩ := ptimerGetCount_toNat hs h hbefore hcount
      have hlt := (Ptimer.scaledPeriod_bounds (hshift ▸ s.shift_le _) hne).2
      have hpos : 0 < (s.scaledPeriod shift).toNat := Nat.pos_of_ne_zero fun hzero =>
        hne (BitVec.eq_of_toNat_eq hzero)
      have hsmall : (s.nextEvent.toNat - now.toNat) * 2 ^ shift < (s.scaledPeriod shift).toNat :=
        (Nat.div_eq_zero_iff_lt hpos).mp hzero.symm
      -- one below the divisor is below the scaled period
      have hscaled : (s.nextEvent.toNat - now.toNat) * 2 ^ 32 * 2 ^ shift <
          s.fixedPeriod * 2 ^ shift := by
        rw [Nat.mul_right_comm]
        exact lt_of_rounded hsmall hlt
      have hrem := Nat.lt_of_mul_lt_mul_right hscaled
      rw [Nat.sub_mul] at hrem
      exact Nat.sub_lt_iff_lt_add' (Nat.mul_le_mul_right _ hbefore) |>.mp hrem

/-! ### Counting down -/

/-- Without lost bits, the count is the time that is left in periods. -/
theorem ptimerGetCount_exact (hs : s.Reloaded) (h : s.Fits) (hexact : s.Exact) (hnow : s.Since now)
    (hbefore : now.toNat ≤ s.nextEvent.toNat) :
    ∃ count, ptimerGetCount s now = .ok count ∧
      count.toNat = (s.nextEvent.toNat - now.toNat) * 2 ^ 32 / s.fixedPeriod := by
  have hperiod := hs.fixedPeriod_ge
  have hshift : s.shift s.interval ≤ s.shift (s.nextEvent - now) := by
    refine Ptimer.shift_mono ?_
    have hnext := h.next_toNat hs
    have := hnow.1
    rw [rem_toNat hbefore, h.interval_toNat]
    omega
  have hscaled := Ptimer.scaledPeriod_exact (s.shift_le _) (Ptimer.lost_mono hshift hexact)
  have hne : s.scaledPeriod (s.shift (s.nextEvent - now)) ≠ 0 := by
    intro hzero
    have hzero : (s.scaledPeriod (s.shift (s.nextEvent - now))).toNat = 0 := by rw [hzero]; rfl
    rw [hzero, Nat.zero_mul] at hscaled
    exact absurd hscaled.symm (Nat.mul_pos (by omega) (Nat.two_pow_pos _)).ne'
  have hcount := ptimerGetCount_before hs h hbefore
  rw [udiv_eq _ hne] at hcount
  refine ⟨_, hcount, ?_⟩
  obtain ⟨shift, rfl, -, heq⟩ := ptimerGetCount_toNat hs h hbefore hcount
  rw [heq, scaled_div (by omega) hscaled]

/-- An exact count never grows with time. -/
theorem Ptimer.countsDown (hs : s.Reloaded) (h : s.Fits) (hexact : s.Exact) : s.CountsDown := by
  have hnext := h.next_toNat hs
  have hperiod := hs.fixedPeriod_ge
  refine ⟨fun now hnow => ?_, fun now now' count count' hnow hnow' hle hcount hcount' => ?_,
    fun count hcount => ?_⟩
  · rcases Nat.lt_or_ge s.nextEvent.toNat now.toNat with hafter | hbefore
    · exact ⟨0, ptimerGetCount_after hs hnow hafter⟩
    · obtain ⟨count, hcount, -⟩ := ptimerGetCount_exact hs h hexact hnow hbefore
      exact ⟨count, hcount⟩
  · rcases Nat.lt_or_ge s.nextEvent.toNat now'.toNat with hafter | hbefore
    · rw [ptimerGetCount_after hs hnow' hafter] at hcount'
      rw [← Except.ok.inj hcount']
      exact Nat.zero_le _
    · obtain ⟨c, hc, heq⟩ := ptimerGetCount_exact hs h hexact hnow (hle.trans hbefore)
      obtain ⟨c', hc', heq'⟩ := ptimerGetCount_exact hs h hexact hnow' hbefore
      obtain rfl := Except.ok.inj (hc.symm.trans hcount)
      obtain rfl := Except.ok.inj (hc'.symm.trans hcount')
      rw [heq, heq']
      exact Nat.div_le_div_right (Nat.mul_le_mul_right _ (Nat.sub_le_sub_left hle _))
  · have hsince : s.Since s.lastEvent := ⟨le_rfl, by have := h.deadline; omega⟩
    refine ⟨(Ptimer.bounded hs h).le_delta _ _ hsince hcount, ?_⟩
    obtain ⟨c, hc, heq⟩ := ptimerGetCount_exact hs h hexact hsince (by omega)
    obtain rfl := Except.ok.inj (hc.symm.trans hcount)
    -- less than one unit of time has been cut off, which is at most a period
    have hcut : s.delta.toNat * s.fixedPeriod <
        (s.nextEvent.toNat - s.lastEvent.toNat) * 2 ^ 32 + s.fixedPeriod := by omega
    rw [heq]
    generalize (s.nextEvent.toNat - s.lastEvent.toNat) * 2 ^ 32 = rem at hcut ⊢
    have hmod := Nat.mod_lt rem (show 0 < s.fixedPeriod by omega)
    have hdiv := Nat.div_add_mod rem s.fixedPeriod
    by_contra hshort
    have hmul : (rem / s.fixedPeriod + 2) * s.fixedPeriod ≤ s.delta.toNat * s.fixedPeriod :=
      Nat.mul_le_mul_right _ (by omega)
    rw [Nat.add_mul, Nat.mul_comm (rem / s.fixedPeriod)] at hmul
    omega

/-- **The count** of a timer that is disabled is `delta`.  That of one that runs, and whose period
    does not overflow, never exceeds `delta`, is zero only in the last period, and counts down if no
    bits of the fraction are lost. -/
theorem ptimer_get_count (s : Ptimer) (h : s.enabled ≠ .disabled → s.Reloaded ∧ s.Fits) :
    (s.enabled = .disabled → ∀ now, ptimerGetCount s now = .ok s.delta) ∧
      (s.enabled ≠ .disabled → s.Bounded ∧ (s.Exact → s.CountsDown)) := by
  refine ⟨fun hdisabled _ => if_pos hdisabled, fun henabled => ?_⟩
  obtain ⟨hs, hfits⟩ := h henabled
  exact ⟨Ptimer.bounded hs hfits, Ptimer.countsDown hs hfits⟩

/-- One second of a timer with 64 MHz, a period of 15.625 ns. -/
def secondTimer : Ptimer where
  enabled := .periodic
  limit := 64000000
  delta := 64000000
  periodFrac := 0xA0000000
  period := 15
  lastEvent := 5
  nextEvent := 1000000005
  bh := some false
  timer := some 1000000005

/-- A timer with 30 MHz that has been started with a count of 2 to the power of 32. -/
def longTimer : Ptimer where
  enabled := .periodic
  limit := 0x100000000
  delta := 0x100000000
  periodFrac := 0x55555555
  period := 33
  lastEvent := 0
  nextEvent := 143165576533
  bh := some false
  timer := some 143165576533

/-- A timer of one second. -/
theorem ptimer_get_count_second : secondTimer.Bounded ∧ secondTimer.CountsDown := by
  have hreloaded : secondTimer.Reloaded := ⟨by decide, by decide, by decide, by decide⟩
  obtain ⟨-, hcount⟩ := ptimer_get_count secondTimer fun _ => ⟨hreloaded, by decide, by decide⟩
  obtain ⟨hbounded, hdown⟩ := hcount hreloaded.enabled
  exact ⟨hbounded,
    hdown (by decide : secondTimer.lost (secondTimer.shift secondTimer.interval) = 0)⟩

/-- When the time that is left falls below a power of two, the divisor becomes more exact, and the
    count larger. -/
theorem ptimer_count_up : ¬∀ s : Ptimer, s.Reloaded → s.Fits → s.Bounded ∧ s.CountsDown := by
  intro h
  have hcounts := (h longTimer ⟨by decide, by decide, by decide, by decide⟩
    ⟨by decide, by decide⟩).2
  have hup := hcounts.antitone 5726623061 5726623062 4123168602 4123168603
    ⟨by decide, by decide⟩ ⟨by decide, by decide⟩ (by decide) (by decide) (by decide)
  exact absurd hup (by decide)

end Qemu.Hw
