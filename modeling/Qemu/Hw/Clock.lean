import Qemu.Lib.Ends
import Mathlib.Tactic.Ring
import Mathlib.Data.BitVec

namespace Qemu.Hw

open Lib

/-!
# Clocks and divisions

What the timers of the S5PC1XX have in common: the clocks that drive them, and the divisions by the
rates that they derive from these.

* `Clocks` — the time, and the rates of the clocks;
* `udiv`, `umod`, `muldiv64` — divisions, which stop the emulation when the divisor is zero.
-/

/-- What ends the emulation: a division by zero, or `hw_error`. -/
inductive ClkStop
  | divZero | hwError
deriving DecidableEq

/-- The clocks that the timers find with `s5pc1xx_findclk`. -/
inductive Clk
  | xxti | xrtcXti | xusbXti | pclk66 | sclkPwm
deriving DecidableEq

/-- `qemu_get_clock(vm_clock)`, and `s5pc1xx_clk_getrate` of each clock. -/
structure Clocks where
  now : BitVec 64
  rate : Clk → Nat
  rate_pos : ∀ c, 0 < rate c

/-- `get_ticks_per_sec` -/
def ticksPerSec : BitVec 32 := 1000000000

/-- The same number in a variable of 64 bits. -/
def tps : BitVec 64 := 1000000000

/-! ### Divisions -/

/-- `a / b` of natural numbers -/
def ndiv (a b : Nat) : Except ClkStop Nat :=
  if b = 0 then .error .divZero else .ok (a / b)

variable {w : Nat}

/-- `a / b` of unsigned numbers -/
def udiv (a b : BitVec w) : Except ClkStop (BitVec w) :=
  if b = 0 then .error .divZero else .ok (a / b)

/-- `a % b` of unsigned numbers -/
def umod (a b : BitVec w) : Except ClkStop (BitVec w) :=
  if b = 0 then .error .divZero else .ok (a % b)

/-- `muldiv64` -/
def muldiv64 (a : BitVec 64) (b c : BitVec 32) : Except ClkStop (BitVec 64) := do
  let rl := (a.setWidth 32).setWidth 64 * b.setWidth 64
  let rh := a >>> 32 * b.setWidth 64 + rl >>> 32
  let high ← udiv rh (c.setWidth 64)
  let rem ← umod rh (c.setWidth 64)
  let low ← udiv (rem <<< 32 + (rl &&& 0xffffffff)) (c.setWidth 64)
  return high.setWidth 32 ++ low.setWidth 32

/-! ### When they divide -/

theorem ndiv_eq (a : Nat) {b : Nat} (hb : b ≠ 0) : ndiv a b = .ok (a / b) :=
  if_neg hb

theorem udiv_eq (a : BitVec w) {b : BitVec w} (hb : b ≠ 0) : udiv a b = .ok (a / b) :=
  if_neg hb

theorem umod_eq (a : BitVec w) {b : BitVec w} (hb : b ≠ 0) : umod a b = .ok (a % b) :=
  if_neg hb

theorem umod_zero (a : BitVec w) : umod a 0 = .error .divZero :=
  if_pos rfl

theorem setWidth_ne_zero {c : BitVec 32} (hc : c ≠ 0) : c.setWidth 64 ≠ 0 := by
  intro h
  apply hc
  apply BitVec.eq_of_toNat_eq
  have hnat := congrArg BitVec.toNat h
  rwa [BitVec.toNat_setWidth_of_le (by decide)] at hnat

theorem muldiv64_ok (a : BitVec 64) (b : BitVec 32) {c : BitVec 32} (hc : c ≠ 0) :
    ∃ r, muldiv64 a b c = .ok r := by
  simp only [muldiv64, udiv_eq _ (setWidth_ne_zero hc), umod_eq _ (setWidth_ne_zero hc)]
  exact ⟨_, rfl⟩

theorem muldiv64_zero (a : BitVec 64) (b : BitVec 32) : muldiv64 a b 0 = .error .divZero :=
  rfl

theorem toNat_append_halves (high low : BitVec 64) :
    (high.setWidth 32 ++ low.setWidth 32 : BitVec 64).toNat =
      high.toNat % 2 ^ 32 * 2 ^ 32 + low.toNat % 2 ^ 32 := by
  rw [BitVec.toNat_append, BitVec.toNat_setWidth, BitVec.toNat_setWidth, ← Nat.shiftLeft_eq,
    Nat.shiftLeft_add_eq_or_of_lt (Nat.mod_lt _ (Nat.two_pow_pos 32))]

theorem div_two_steps (high low : Nat) {c : Nat} (hc : 0 < c) :
    (high * 2 ^ 32 + low) / c = high / c * 2 ^ 32 + (high % c * 2 ^ 32 + low) / c := by
  have hsplit : high * 2 ^ 32 + low = c * (high / c * 2 ^ 32) + (high % c * 2 ^ 32 + low) := by
    conv_lhs => rw [← Nat.div_add_mod high c]
    ring
  rw [hsplit, Nat.mul_add_div hc]

theorem muldiv64_eq {a : BitVec 64} {b c : BitVec 32} (hc : c ≠ 0) {rl rh : BitVec 64}
    (hrl : rl = (a.setWidth 32).setWidth 64 * b.setWidth 64)
    (hrh : rh = a >>> 32 * b.setWidth 64 + rl >>> 32) :
    muldiv64 a b c = .ok ((rh / c.setWidth 64).setWidth 32 ++
      (((rh % c.setWidth 64) <<< 32 + (rl &&& 0xffffffff)) / c.setWidth 64).setWidth 32) := by
  simp only [muldiv64, udiv_eq _ (setWidth_ne_zero hc), umod_eq _ (setWidth_ne_zero hc), hrh, hrl]
  rfl

/-- The value of `muldiv64`, if it fits. -/
theorem muldiv64_toNat {a : BitVec 64} {b c : BitVec 32} (hc : c ≠ 0)
    (hfits : a.toNat * b.toNat / c.toNat < 2 ^ 64) :
    ∃ r, muldiv64 a b c = .ok r ∧ r.toNat = a.toNat * b.toNat / c.toNat := by
  have ha := a.isLt
  have hb := b.isLt
  have hcpos : 0 < c.toNat := Nat.pos_of_ne_zero fun hzero => hc (BitVec.eq_of_toNat_eq hzero)
  have hwide : ∀ x : BitVec 32, (x.setWidth 64).toNat = x.toNat := fun x => by
    rw [BitVec.toNat_setWidth]
    exact Nat.mod_eq_of_lt (x.isLt.trans (by decide))
  obtain ⟨rl, hrl⟩ : ∃ rl, rl = (a.setWidth 32).setWidth 64 * b.setWidth 64 := ⟨_, rfl⟩
  obtain ⟨rh, hrh⟩ : ∃ rh, rh = a >>> 32 * b.setWidth 64 + rl >>> 32 := ⟨_, rfl⟩
  have hlow : a.toNat % 2 ^ 32 * b.toNat < 2 ^ 32 * 2 ^ 32 :=
    Nat.mul_lt_mul'' (Nat.mod_lt _ (by decide)) hb
  have hhigh : a.toNat / 2 ^ 32 * b.toNat ≤ (2 ^ 32 - 1) * (2 ^ 32 - 1) :=
    Nat.mul_le_mul (by omega) (by omega)
  have hrlNat : rl.toNat = a.toNat % 2 ^ 32 * b.toNat := by
    rw [hrl, BitVec.toNat_mul, hwide, hwide, BitVec.toNat_setWidth]
    exact Nat.mod_eq_of_lt (hlow.trans_le (by decide))
  have hrhNat : rh.toNat = a.toNat / 2 ^ 32 * b.toNat + rl.toNat / 2 ^ 32 := by
    rw [hrh, BitVec.toNat_add, BitVec.toNat_mul, BitVec.toNat_ushiftRight,
      BitVec.toNat_ushiftRight, hwide, Nat.shiftRight_eq_div_pow, Nat.shiftRight_eq_div_pow]
    have := rl.isLt
    rw [Nat.mod_eq_of_lt (show a.toNat / 2 ^ 32 * b.toNat < 2 ^ 64 by omega)]
    exact Nat.mod_eq_of_lt (by omega)
  have hprod : a.toNat * b.toNat = rh.toNat * 2 ^ 32 + rl.toNat % 2 ^ 32 := by
    have hsplit : a.toNat * b.toNat =
        a.toNat / 2 ^ 32 * b.toNat * 2 ^ 32 + a.toNat % 2 ^ 32 * b.toNat := by
      conv_lhs => rw [← Nat.div_add_mod a.toNat (2 ^ 32)]
      ring
    rw [hsplit, ← hrlNat, hrhNat, Nat.add_mul, Nat.add_assoc, Nat.div_add_mod']
  -- what is left of the high half, and the low half, fit into 64 bits
  have hrest : (((rh % c.setWidth 64) <<< 32 + (rl &&& 0xffffffff)) / c.setWidth 64).toNat =
      (rh.toNat % c.toNat * 2 ^ 32 + rl.toNat % 2 ^ 32) / c.toNat := by
    have hrem := Nat.mod_lt rh.toNat hcpos
    have hclt := c.isLt
    rw [BitVec.toNat_udiv, BitVec.toNat_add, BitVec.toNat_shiftLeft, BitVec.toNat_umod,
      BitVec.toNat_and, hwide, Nat.shiftLeft_eq]
    have hmask : rl.toNat &&& (0xffffffff : BitVec 64).toNat = rl.toNat % 2 ^ 32 :=
      Nat.and_two_pow_sub_one_eq_mod _ 32
    rw [hmask, Nat.mod_eq_of_lt (show rh.toNat % c.toNat * 2 ^ 32 < 2 ^ 64 by omega)]
    rw [Nat.mod_eq_of_lt (by omega)]
  have hdiv := div_two_steps rh.toNat (rl.toNat % 2 ^ 32) hcpos
  rw [← hprod] at hdiv
  have hlast : (rh.toNat % c.toNat * 2 ^ 32 + rl.toNat % 2 ^ 32) / c.toNat < 2 ^ 32 := by
    have hrem := Nat.mod_lt rh.toNat hcpos
    have hmod := Nat.mod_lt rl.toNat (show 0 < 2 ^ 32 by decide)
    rw [Nat.div_lt_iff_lt_mul hcpos]
    calc rh.toNat % c.toNat * 2 ^ 32 + rl.toNat % 2 ^ 32
        < (rh.toNat % c.toNat + 1) * 2 ^ 32 := by omega
      _ ≤ c.toNat * 2 ^ 32 := Nat.mul_le_mul_right _ hrem
      _ = 2 ^ 32 * c.toNat := Nat.mul_comm _ _
  refine ⟨_, muldiv64_eq hc hrl hrh, ?_⟩
  rw [toNat_append_halves, hrest, BitVec.toNat_udiv, hwide, hdiv, Nat.mod_eq_of_lt hlast,
    Nat.mod_eq_of_lt (by omega)]

theorem tps_ne_zero : tps ≠ 0 := by
  decide

theorem muldiv64_ticks (a : BitVec 64) (b : BitVec 32) : ∃ r, muldiv64 a b ticksPerSec = .ok r :=
  muldiv64_ok a b (by decide)

end Qemu.Hw
