import Qemu.Hw.Clock
import Qemu.Lib.Runs

namespace Qemu.Hw

open Lib

/-!
# Periodic countdown timers (`hw/ptimer.c`)

* `ptimerReload`, `ptimerTick` — the deadline, and what happens at it;
* `ptimerGetCount` — the count, from the time that is left;
* `ptimerSetCount`, `ptimerRun`, `ptimerStop`, `ptimerSetPeriod`, `ptimerSetFreq`, `ptimerSetLimit`;
* `PtimerOp.exec` — one of these at a time, the QEMU timer expires, or the bottom half runs;
* `scaledPeriod_eq`, `scaledPeriod_ne_zero` — the divisor of `ptimer_get_count`.
-/

/-- `enabled` -/
inductive PtimerMode
  | disabled | periodic | oneshot
deriving DecidableEq

/-- `ptimer_state`.  `bh` is whether the bottom half is scheduled, if there is one, and `timer` is
    when the QEMU timer expires, if it is set. -/
structure Ptimer where
  enabled : PtimerMode
  limit : BitVec 64
  delta : BitVec 64
  periodFrac : BitVec 32
  period : BitVec 64
  lastEvent : BitVec 64
  nextEvent : BitVec 64
  bh : Option Bool
  timer : Option (BitVec 64)
deriving DecidableEq

/-- `ptimer_init` -/
def ptimerInit (hasBh : Bool) : Ptimer where
  enabled := .disabled
  limit := 0
  delta := 0
  periodFrac := 0
  period := 0
  lastEvent := 0
  nextEvent := 0
  bh := if hasBh then some false else none
  timer := none

/-! ### Deadlines -/

/-- `ptimer_trigger`: a bottom half that is scheduled already stays so. -/
def ptimerTrigger (s : Ptimer) : Ptimer := { s with bh := s.bh.map fun _ => true }

/-- The time from a reload to the next event. -/
def Ptimer.interval (s : Ptimer) : BitVec 64 :=
  s.delta * s.period + (s.periodFrac.setWidth 64 * s.delta) >>> 32

/-- The first half of `ptimer_reload`. -/
def ptimerRefill (s : Ptimer) : Ptimer :=
  if s.delta = 0 then { ptimerTrigger s with delta := s.limit } else s

/-- The second half of `ptimer_reload`. -/
def ptimerArm (s : Ptimer) : Ptimer :=
  if s.delta = 0 ∨ s.period = 0 then { s with enabled := .disabled }
  else
    let next := s.nextEvent + s.interval
    { s with lastEvent := s.nextEvent, nextEvent := next, timer := some next }

/-- `ptimer_reload` -/
def ptimerReload (s : Ptimer) : Ptimer := ptimerArm (ptimerRefill s)

/-- `ptimer_tick` -/
def ptimerTick (s : Ptimer) : Ptimer :=
  let s := { ptimerTrigger s with delta := 0 }
  if s.enabled = .oneshot then { s with enabled := .disabled } else ptimerReload s

/-! ### The count -/

/-- The shift of `ptimer_get_count`, for the time that is left. -/
def Ptimer.shift (s : Ptimer) (rem : BitVec 64) : Nat := min rem.clz.toNat s.period.clz.toNat

/-- The bits of the fraction that do not fit into the divisor. -/
def Ptimer.lost (s : Ptimer) (shift : Nat) : BitVec 32 :=
  if 32 ≤ shift then 0 else s.periodFrac <<< shift

/-- The divisor of `ptimer_get_count`, which is rounded up. -/
def Ptimer.scaledPeriod (s : Ptimer) (shift : Nat) : BitVec 64 :=
  let div := s.period <<< shift
  if 32 ≤ shift then div ||| s.periodFrac.setWidth 64 <<< (shift - 32)
  else
    let div := if shift ≠ 0 then div ||| (s.periodFrac >>> (32 - shift)).setWidth 64 else div
    if s.lost shift ≠ 0 then div + 1 else div

/-- `ptimer_get_count` -/
def ptimerGetCount (s : Ptimer) (now : BitVec 64) : Except ClkStop (BitVec 64) :=
  if s.enabled = .disabled then .ok s.delta
  else if (0 : BitVec 64).slt (now - s.nextEvent) ∨ s.period = 0 then .ok 0
  else
    let rem := s.nextEvent - now
    let shift := s.shift rem
    udiv (rem <<< shift) (s.scaledPeriod shift)

/-! ### Setters -/

/-- The end of a setter: the count starts again. -/
def ptimerRestart (s : Ptimer) (now : BitVec 64) : Ptimer :=
  if s.enabled = .disabled then s else ptimerReload { s with nextEvent := now }

/-- `ptimer_set_count` -/
def ptimerSetCount (s : Ptimer) (count now : BitVec 64) : Ptimer :=
  ptimerRestart { s with delta := count } now

/-- `ptimer_run` -/
def ptimerRun (s : Ptimer) (oneshot : Bool) (now : BitVec 64) : Ptimer :=
  if s.enabled ≠ .disabled then s
  else if s.period = 0 then s
  else ptimerReload { s with
    enabled := if oneshot then .oneshot else .periodic
    nextEvent := now }

/-- `ptimer_stop` -/
def ptimerStop (s : Ptimer) (now : BitVec 64) : Except ClkStop Ptimer :=
  if s.enabled = .disabled then .ok s
  else (ptimerGetCount s now).map fun count =>
    { s with delta := count, timer := none, enabled := .disabled }

/-- `ptimer_set_period` -/
def ptimerSetPeriod (s : Ptimer) (period now : BitVec 64) : Ptimer :=
  ptimerRestart { s with period := period, periodFrac := 0 } now

/-- `ptimer_set_freq` -/
def ptimerSetFreq (s : Ptimer) (freq : BitVec 32) (now : BitVec 64) : Except ClkStop Ptimer :=
  (udiv 1000000000 (freq.setWidth 64)).bind fun period =>
    (udiv (1000000000 <<< 32) (freq.setWidth 64)).map fun frac =>
      ptimerRestart { s with period := period, periodFrac := frac.setWidth 32 } now

/-- `ptimer_set_limit` -/
def ptimerSetLimit (s : Ptimer) (limit : BitVec 64) (reload : Bool) (now : BitVec 64) : Ptimer :=
  let s := { s with limit := limit }
  if reload then ptimerRestart { s with delta := limit } now else s

/-! ### Operations -/

/-- What the device that has the timer does, and the main loop. -/
inductive PtimerOp
  | setCount (count : BitVec 64)
  | run (oneshot : Bool)
  | stop
  | setPeriod (period : BitVec 64)
  | setFreq (freq : BitVec 32)
  | setLimit (limit : BitVec 64) (reload : Bool)
  | expire
  | bottomHalf
deriving DecidableEq

/-- The QEMU timer is set, and its time has come. -/
def Ptimer.due (s : Ptimer) (now : BitVec 64) : Bool := s.timer.any fun t => t.sle now

/-- An operation at a time.  A timer that is not due does not expire. -/
def PtimerOp.exec (s : Ptimer) (now : BitVec 64) : PtimerOp → Except ClkStop Ptimer
  | .setCount count => .ok (ptimerSetCount s count now)
  | .run oneshot => .ok (ptimerRun s oneshot now)
  | .stop => ptimerStop s now
  | .setPeriod period => .ok (ptimerSetPeriod s period now)
  | .setFreq freq => ptimerSetFreq s freq now
  | .setLimit limit reload => .ok (ptimerSetLimit s limit reload now)
  | .expire => .ok (if s.due now then ptimerTick { s with timer := none } else s)
  | .bottomHalf => .ok { s with bh := s.bh.map fun _ => false }

/-! ### The divisor -/

/-- A number without leading zeros. -/
theorem toNat_shiftLeft_of_le_clz {x : BitVec 64} {shift : Nat} (h : shift ≤ x.clz.toNat) :
    (x <<< shift).toNat = x.toNat * 2 ^ shift := by
  have hx : x.toNat < 2 ^ (64 - x.clz.toNat) := BitVec.toNat_lt_two_pow_sub_clz
  have hclz : x.clz.toNat ≤ 64 := BitVec.le_def.mp (BitVec.clz_le (x := x))
  rw [BitVec.toNat_shiftLeft, Nat.shiftLeft_eq]
  refine Nat.mod_eq_of_lt ?_
  calc x.toNat * 2 ^ shift < 2 ^ (64 - x.clz.toNat) * 2 ^ shift :=
        Nat.mul_lt_mul_of_pos_right hx (Nat.two_pow_pos shift)
    _ ≤ 2 ^ (64 - x.clz.toNat) * 2 ^ x.clz.toNat :=
        Nat.mul_le_mul_left _ (Nat.pow_le_pow_right (by decide) h)
    _ = 2 ^ 64 := by rw [← Nat.pow_add, Nat.sub_add_cancel hclz]

theorem toNat_shiftLeft_or {x y : BitVec 64} {shift : Nat} (h : shift ≤ x.clz.toNat)
    (hy : y.toNat < 2 ^ shift) : (x <<< shift ||| y).toNat = x.toNat * 2 ^ shift + y.toNat := by
  rw [BitVec.toNat_or, toNat_shiftLeft_of_le_clz h, ← Nat.shiftLeft_eq,
    Nat.shiftLeft_add_eq_or_of_lt hy]

/-- The period, in parts of 2 to the power of 32. -/
def Ptimer.fixedPeriod (s : Ptimer) : Nat := s.period.toNat * 2 ^ 32 + s.periodFrac.toNat

variable {s : Ptimer} {shift : Nat}

/-- The divisor as it is rounded down. -/
def Ptimer.floorPeriod (s : Ptimer) (shift : Nat) : BitVec 64 :=
  s.period <<< shift |||
    if 32 ≤ shift then s.periodFrac.setWidth 64 <<< (shift - 32)
    else (s.periodFrac >>> (32 - shift)).setWidth 64

/-- The rounded period is the exact one, and one more when bits were lost. -/
theorem Ptimer.scaledPeriod_eq (s : Ptimer) (shift : Nat) :
    s.scaledPeriod shift = s.floorPeriod shift + if s.lost shift ≠ 0 then 1 else 0 := by
  unfold Ptimer.scaledPeriod Ptimer.floorPeriod
  by_cases hlarge : 32 ≤ shift
  · simp [hlarge, Ptimer.lost]
  · by_cases hzero : shift = 0
    -- nothing of the fraction fits
    · have hfrac : s.periodFrac >>> 32 = 0 := BitVec.ushiftRight_eq_zero (Nat.le_refl 32)
      subst hzero
      split_ifs <;> simp_all
    · rw [if_neg hlarge, if_neg hlarge]
      dsimp only
      rw [if_pos hzero]
      split_ifs <;> simp

/-- The divisor is the period, scaled and rounded down. -/
theorem Ptimer.floorPeriod_toNat (h : shift ≤ s.period.clz.toNat) :
    (s.floorPeriod shift).toNat = s.fixedPeriod * 2 ^ shift / 2 ^ 32 := by
  have hclz : s.period.clz.toNat ≤ 64 := BitVec.le_def.mp (BitVec.clz_le (x := s.period))
  have hfrac : s.periodFrac.toNat < 2 ^ 32 := s.periodFrac.isLt
  unfold Ptimer.floorPeriod Ptimer.fixedPeriod
  rw [Nat.add_mul]
  -- from 32 on the fraction moves into the whole part, below it in part
  by_cases hlarge : 32 ≤ shift
  · obtain ⟨k, rfl⟩ := Nat.exists_eq_add_of_le hlarge
    have hpart : s.periodFrac.toNat * 2 ^ k < 2 ^ (32 + k) := by
      rw [Nat.pow_add]
      exact Nat.mul_lt_mul_of_pos_right hfrac (Nat.two_pow_pos k)
    have hfits : 2 ^ (32 + k) ≤ 2 ^ 64 := Nat.pow_le_pow_right (by decide) (h.trans hclz)
    have hwide : s.periodFrac.toNat % 2 ^ 64 = s.periodFrac.toNat := Nat.mod_eq_of_lt (by omega)
    have hbits : (s.periodFrac.setWidth 64 <<< (32 + k - 32)).toNat =
        s.periodFrac.toNat * 2 ^ k := by
      rw [BitVec.toNat_shiftLeft, BitVec.toNat_setWidth, hwide, Nat.shiftLeft_eq,
        Nat.add_sub_cancel_left, Nat.mod_eq_of_lt (by omega)]
    rw [if_pos hlarge, toNat_shiftLeft_or h (by rw [hbits]; exact hpart), hbits, Nat.pow_add]
    have hsum : s.period.toNat * 2 ^ 32 * (2 ^ 32 * 2 ^ k) + s.periodFrac.toNat * (2 ^ 32 * 2 ^ k) =
        (s.period.toNat * (2 ^ 32 * 2 ^ k) + s.periodFrac.toNat * 2 ^ k) * 2 ^ 32 := by ring
    rw [hsum, Nat.mul_div_cancel _ (by decide)]
  · obtain ⟨k, hk⟩ := Nat.exists_eq_add_of_lt (Nat.lt_of_not_le hlarge)
    have hbits : ((s.periodFrac >>> (32 - shift)).setWidth 64).toNat =
        s.periodFrac.toNat / 2 ^ (32 - shift) := by
      rw [BitVec.toNat_setWidth, BitVec.toNat_ushiftRight, Nat.shiftRight_eq_div_pow]
      exact Nat.mod_eq_of_lt ((Nat.div_le_self _ _).trans_lt (by omega))
    have hsplit : 2 ^ 32 = 2 ^ (32 - shift) * 2 ^ shift := by
      rw [← Nat.pow_add, Nat.sub_add_cancel (by omega)]
    have hpart : s.periodFrac.toNat / 2 ^ (32 - shift) < 2 ^ shift := by
      rw [Nat.div_lt_iff_lt_mul (Nat.two_pow_pos _), Nat.mul_comm, ← hsplit]
      exact hfrac
    have hperiod : s.period.toNat * 2 ^ 32 * 2 ^ shift = 2 ^ 32 * (s.period.toNat * 2 ^ shift) := by
      ring
    rw [if_neg hlarge, toNat_shiftLeft_or h (by rw [hbits]; exact hpart), hbits, hperiod,
      Nat.mul_add_div (by decide)]
    congr 1
    rw [hsplit, Nat.mul_div_mul_right _ _ (Nat.two_pow_pos shift)]

theorem Ptimer.lost_eq_zero (hshift : shift < 32) :
    s.lost shift = 0 ↔ 2 ^ 32 ∣ s.periodFrac.toNat * 2 ^ shift := by
  rw [Ptimer.lost, if_neg (by omega), ← BitVec.toNat_inj, BitVec.toNat_shiftLeft, Nat.shiftLeft_eq]
  exact (Nat.dvd_iff_mod_eq_zero).symm

/-- With no bit lost the divisor is the period, scaled. -/
theorem Ptimer.scaledPeriod_exact (h : shift ≤ s.period.clz.toNat) (hlost : s.lost shift = 0) :
    (s.scaledPeriod shift).toNat * 2 ^ 32 = s.fixedPeriod * 2 ^ shift := by
  rw [Ptimer.scaledPeriod_eq, if_neg (not_not.mpr hlost), add_zero, Ptimer.floorPeriod_toNat h]
  refine Nat.div_mul_cancel ?_
  rw [Ptimer.fixedPeriod, Nat.add_mul]
  refine Nat.dvd_add ⟨s.period.toNat * 2 ^ shift, by ring⟩ ?_
  by_cases hlarge : 32 ≤ shift
  · exact (pow_dvd_pow 2 hlarge).mul_left _
  · exact (Ptimer.lost_eq_zero (Nat.lt_of_not_le hlarge)).mp hlost

/-- If there is a fraction only with a short period, the divisor is not zero. -/
theorem Ptimer.scaledPeriod_ne_zero (hperiod : s.period ≠ 0)
    (hfrac : s.periodFrac = 0 ∨ s.period.toNat < 2 ^ 32) (h : shift ≤ s.period.clz.toNat) :
    s.scaledPeriod shift ≠ 0 := by
  have hpos : 0 < s.period.toNat := Nat.pos_of_ne_zero fun hzero =>
    hperiod (BitVec.eq_of_toNat_eq hzero)
  intro hzero
  have hzero : (s.scaledPeriod shift).toNat = 0 := by rw [hzero]; rfl
  by_cases hlost : s.lost shift = 0
  · have hexact := Ptimer.scaledPeriod_exact h hlost
    rw [hzero, Nat.zero_mul, Ptimer.fixedPeriod] at hexact
    have hprod : 0 < (s.period.toNat * 2 ^ 32 + s.periodFrac.toNat) * 2 ^ shift :=
      Nat.mul_pos (by omega) (Nat.two_pow_pos shift)
    omega
  · have hsmall : shift < 32 := by
      by_contra hlarge
      exact hlost (by rw [Ptimer.lost, if_pos (Nat.le_of_not_lt hlarge)])
    have hperiod : s.period.toNat < 2 ^ 32 := by
      refine hfrac.resolve_left fun hnone => hlost ?_
      rw [Ptimer.lost, if_neg (Nat.not_le.mpr hsmall), hnone]
      simp
    -- the divisor is far from the largest number of 64 bits
    have hfloor := Ptimer.floorPeriod_toNat h
    have hfixed : s.fixedPeriod < 2 ^ 64 := by
      unfold Ptimer.fixedPeriod
      have := s.periodFrac.isLt
      omega
    have hbound : s.fixedPeriod * 2 ^ shift < 2 ^ 64 * 2 ^ 31 :=
      Nat.mul_lt_mul_of_lt_of_le hfixed (Nat.pow_le_pow_right (by decide) (by omega))
        (by decide)
    rw [Ptimer.scaledPeriod_eq, if_pos hlost, BitVec.toNat_add] at hzero
    have hone : (1 : BitVec 64).toNat = 1 := rfl
    omega

theorem Ptimer.shift_le (s : Ptimer) (rem : BitVec 64) : s.shift rem ≤ s.period.clz.toNat :=
  Nat.min_le_right _ _

end Qemu.Hw
