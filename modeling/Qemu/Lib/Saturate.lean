import Mathlib.Tactic.Linarith
import Mathlib.Tactic.Ring

namespace Qemu.Lib

/-!
# Saturating arithmetic

Words saturate to the nearest integer that they can represent.

* `setWidth_ofInt`, `signExtend_eq_ofInt`, `sshiftRight_ofInt`, … — words as integers that are
  reduced once;
* `clampS`, `clampU` — the nearest signed and the nearest unsigned integer;
* `ofInt_clampS_add`, `ofInt_clampS_sub` — signed sums and differences, by the overflow of the
  words;
* `ofInt_clampU_add`, `ofInt_clampU_sub` — unsigned ones, by a comparison;
* `add_sign_test`, `sub_sign_test` — overflow, by the signs of operands and result.
-/

/-- The signed integer of `w` bits that is nearest. -/
def clampS (w : Nat) (e : Int) : Int := max (-2 ^ (w - 1)) (min e (2 ^ (w - 1) - 1))

/-- The unsigned integer of `w` bits that is nearest. -/
def clampU (w : Nat) (e : Int) : Int := max 0 (min e (2 ^ w - 1))

section

variable {w : Nat} {a b : BitVec w} {e : Int}

theorem two_pow_cast (n : Nat) : ((2 ^ n : Nat) : Int) = (2 : Int) ^ n := by
  norm_cast

/-! ### Words of integers -/

theorem ofInt_sub (x y : Int) :
    BitVec.ofInt w (x - y) = BitVec.ofInt w x - BitVec.ofInt w y := by
  apply BitVec.eq_of_toInt_eq
  simp

/-- Cutting off a word of a number. -/
theorem setWidth_ofInt {W : Nat} (h : w ≤ W) (e : Int) :
    (BitVec.ofInt W e).setWidth w = BitVec.ofInt w e := by
  apply BitVec.eq_of_toNat_eq
  have hW := Nat.two_pow_pos W
  have hw := Nat.two_pow_pos w
  have hdvd : ((2 ^ w : Nat) : Int) ∣ (2 ^ W : Nat) :=
    Int.natCast_dvd_natCast.mpr (Nat.pow_dvd_pow 2 h)
  zify
  rw [BitVec.toNat_setWidth, BitVec.toNat_ofInt, BitVec.toNat_ofInt, Int.natCast_mod,
    Int.toNat_of_nonneg (Int.emod_nonneg _ (by omega)),
    Int.toNat_of_nonneg (Int.emod_nonneg _ (by omega)), Int.emod_emod_of_dvd _ hdvd]

theorem ofInt_toNat (a : BitVec w) : BitVec.ofInt w a.toNat = a := by
  rw [BitVec.ofInt_natCast, BitVec.ofNat_toNat, BitVec.setWidth_eq]

/-- A sign extension keeps the signed value. -/
theorem signExtend_eq_ofInt (W : Nat) (a : BitVec w) :
    a.signExtend W = BitVec.ofInt W a.toInt := rfl

/-- A zero extension keeps the unsigned one. -/
theorem setWidth_eq_ofInt (W : Nat) (a : BitVec w) : a.setWidth W = BitVec.ofInt W a.toNat := by
  rw [BitVec.ofInt_natCast, BitVec.ofNat_toNat]

theorem setWidth_signExtend {W : Nat} (h : w ≤ W) (a : BitVec w) :
    (a.signExtend W).setWidth w = a := by
  rw [signExtend_eq_ofInt, setWidth_ofInt h, BitVec.ofInt_toInt]

theorem sshiftRight_ofInt (hw : 0 < w) (n : Nat) (h : -2 ^ (w - 1) ≤ e) (h' : e < 2 ^ (w - 1)) :
    (BitVec.ofInt w e).sshiftRight n = BitVec.ofInt w (e / 2 ^ n) := by
  rw [BitVec.sshiftRight, BitVec.toInt_ofInt_eq_self hw h h', Int.shiftRight_eq_div_pow,
    two_pow_cast]

/-- A logical shift divides too, up to the bits that it clears. -/
theorem setWidth_ushiftRight_ofInt {W n : Nat} (h : w + n ≤ W) (e : Int) :
    (BitVec.ofInt W e >>> n).setWidth w = BitVec.ofInt w (e / 2 ^ n) := by
  apply BitVec.eq_of_toNat_eq
  have hW : ((2 ^ W : Nat) : Int) = 2 ^ n * (2 ^ w * 2 ^ (W - w - n)) := by
    rw [two_pow_cast, ← pow_add, ← pow_add]
    congr 1
    omega
  have hpos := two_pow_cast w
  have hn := two_pow_cast n
  have h2w := Nat.two_pow_pos w
  have h2n := Nat.two_pow_pos n
  have h2W := Nat.two_pow_pos W
  zify
  rw [BitVec.toNat_setWidth, BitVec.toNat_ushiftRight, BitVec.toNat_ofInt, BitVec.toNat_ofInt,
    Nat.shiftRight_eq_div_pow, Int.natCast_mod, Int.natCast_ediv,
    Int.toNat_of_nonneg (Int.emod_nonneg _ (by omega)),
    Int.toNat_of_nonneg (Int.emod_nonneg _ (by omega)), hW, hn, hpos]
  -- `e % (2ⁿ * m) / 2ⁿ = e / 2ⁿ % m`
  rw [Int.emod_def e, mul_assoc (2 ^ n : Int), Int.sub_mul_ediv_left _ _ (by omega),
    Int.sub_emod, mul_assoc, Int.mul_emod_right]
  simp

theorem clampS_of_le (h : e < -2 ^ (w - 1)) : clampS w e = -2 ^ (w - 1) := by
  have hpos : (0 : Int) < 2 ^ (w - 1) := by positivity
  unfold clampS
  omega

theorem clampS_of_ge (h : 2 ^ (w - 1) ≤ e) : clampS w e = 2 ^ (w - 1) - 1 := by
  have hpos : (0 : Int) < 2 ^ (w - 1) := by positivity
  unfold clampS
  omega

theorem clampS_of_mem (h : -2 ^ (w - 1) ≤ e) (h' : e < 2 ^ (w - 1)) : clampS w e = e := by
  unfold clampS
  omega

theorem clampU_of_neg (h : e < 0) : clampU w e = 0 := by
  have hpos : (0 : Int) < 2 ^ w := by positivity
  unfold clampU
  omega

theorem clampU_of_ge (h : 2 ^ w ≤ e) : clampU w e = 2 ^ w - 1 := by
  have hpos : (0 : Int) < 2 ^ w := by positivity
  unfold clampU
  omega

theorem clampU_of_mem (h : 0 ≤ e) (h' : e < 2 ^ w) : clampU w e = e := by
  unfold clampU
  omega

/-! ### Signed -/

theorem ofInt_intMin : BitVec.ofInt w (-2 ^ (w - 1)) = BitVec.intMin w :=
  BitVec.intMin_eq_neg_two_pow.symm

theorem ofInt_intMax : BitVec.ofInt w (2 ^ (w - 1) - 1) = BitVec.intMax w := by
  rw [← BitVec.toInt_intMax, BitVec.ofInt_toInt]

/-- A sum that overflows is negative if the first operand is. -/
theorem toInt_add_neg_iff (h : a.saddOverflow b = true) :
    a.toInt + b.toInt < 0 ↔ a.msb = true := by
  rw [BitVec.saddOverflow, Bool.or_eq_true, decide_eq_true_eq, decide_eq_true_eq] at h
  have hpos : (0 : Int) < 2 ^ (w - 1) := by positivity
  have ha := BitVec.le_toInt a
  have ha' := BitVec.toInt_lt (x := a)
  have hb := BitVec.le_toInt b
  have hb' := BitVec.toInt_lt (x := b)
  rw [BitVec.msb_eq_toInt, decide_eq_true_eq]
  omega

theorem toInt_sub_neg_iff (h : a.ssubOverflow b = true) :
    a.toInt - b.toInt < 0 ↔ a.msb = true := by
  rw [BitVec.ssubOverflow, Bool.or_eq_true, decide_eq_true_eq, decide_eq_true_eq] at h
  have hpos : (0 : Int) < 2 ^ (w - 1) := by positivity
  have ha := BitVec.le_toInt a
  have ha' := BitVec.toInt_lt (x := a)
  have hb := BitVec.le_toInt b
  have hb' := BitVec.toInt_lt (x := b)
  rw [BitVec.msb_eq_toInt, decide_eq_true_eq]
  omega

/-- What is beyond the integers of `w` bits saturates by its sign. -/
theorem ofInt_clampS_of_overflow (h : e < -2 ^ (w - 1) ∨ 2 ^ (w - 1) ≤ e) {n : Bool}
    (hneg : e < 0 ↔ n = true) :
    BitVec.ofInt w (clampS w e) = if n then BitVec.intMin w else BitVec.intMax w := by
  have hpos : (0 : Int) < 2 ^ (w - 1) := by positivity
  rcases h with hlow | hhigh
  · rw [clampS_of_le hlow, ofInt_intMin, if_pos (hneg.mp (by omega))]
  · rw [clampS_of_ge hhigh, ofInt_intMax, if_neg fun hn => by
      have := hneg.mpr hn
      omega]

/-- The saturated sum: a word of the sign of the first operand where the sum overflows. -/
theorem ofInt_clampS_add (a b : BitVec w) :
    BitVec.ofInt w (clampS w (a.toInt + b.toInt)) =
      if a.saddOverflow b then (if a.msb then BitVec.intMin w else BitVec.intMax w) else a + b := by
  split_ifs with hov hneg
  all_goals simp only [BitVec.saddOverflow, Bool.or_eq_true, decide_eq_true_eq] at hov
  · rw [ofInt_clampS_of_overflow hov.symm (n := a.msb) (toInt_add_neg_iff ?_), if_pos hneg]
    simpa [BitVec.saddOverflow] using hov
  · rw [ofInt_clampS_of_overflow hov.symm (n := a.msb) (toInt_add_neg_iff ?_), if_neg hneg]
    simpa [BitVec.saddOverflow] using hov
  · rw [clampS_of_mem (by omega) (by omega), BitVec.ofInt_add, BitVec.ofInt_toInt,
      BitVec.ofInt_toInt]

/-- The saturated difference. -/
theorem ofInt_clampS_sub (a b : BitVec w) :
    BitVec.ofInt w (clampS w (a.toInt - b.toInt)) =
      if a.ssubOverflow b then (if a.msb then BitVec.intMin w else BitVec.intMax w) else a - b := by
  split_ifs with hov hneg
  all_goals simp only [BitVec.ssubOverflow, Bool.or_eq_true, decide_eq_true_eq] at hov
  · rw [ofInt_clampS_of_overflow hov.symm (n := a.msb) (toInt_sub_neg_iff ?_), if_pos hneg]
    simpa [BitVec.ssubOverflow] using hov
  · rw [ofInt_clampS_of_overflow hov.symm (n := a.msb) (toInt_sub_neg_iff ?_), if_neg hneg]
    simpa [BitVec.ssubOverflow] using hov
  · rw [clampS_of_mem (by omega) (by omega), ofInt_sub, BitVec.ofInt_toInt, BitVec.ofInt_toInt]

/-- A sum of operands with one sign that has the other. -/
theorem add_sign_test (a b : BitVec w) :
    ((a + b ^^^ a).msb = true ∧ ¬ (a ^^^ b).msb = true) ↔ a.saddOverflow b = true := by
  rw [BitVec.saddOverflow_eq, BitVec.msb_xor, BitVec.msb_xor]
  cases a.msb <;> cases b.msb <;> cases (a + b).msb <;> decide

/-- A difference overflows if its sign and that of the second operand both differ from the first
    one's. -/
theorem sub_sign_test (a b : BitVec w) :
    ((a - b ^^^ a).msb = true ∧ (a ^^^ b).msb = true) ↔ a.ssubOverflow b = true := by
  rw [BitVec.ssubOverflow_eq, BitVec.msb_xor, BitVec.msb_xor]
  cases a.msb <;> cases b.msb <;> cases (a - b).msb <;> decide

theorem and_intMin_ne_zero_iff (hw : 0 < w) (x : BitVec w) :
    x &&& BitVec.intMin w ≠ 0 ↔ x.msb = true := by
  rw [show BitVec.intMin w = BitVec.twoPow w (w - 1) from rfl, BitVec.and_twoPow,
    BitVec.msb_eq_getLsbD_last]
  split_ifs with hbit
  · have hne : BitVec.intMin w ≠ 0 := fun h => hw.ne' (BitVec.intMin_eq_zero_iff.mp h)
    exact iff_of_true hne hbit
  · simp [hbit]

/-! ### Unsigned -/

/-- The saturated unsigned sum: a sum that wraps is smaller than an operand. -/
theorem ofInt_clampU_add (a b : BitVec w) :
    BitVec.ofInt w (clampU w (a.toNat + b.toNat)) =
      if a + b < a then BitVec.allOnes w else a + b := by
  have hpow := two_pow_cast w
  have ha := a.isLt
  have hb := b.isLt
  split_ifs with hov
  all_goals rw [BitVec.lt_def, BitVec.toNat_add] at hov
  · have hge : 2 ^ w ≤ a.toNat + b.toNat := by
      by_contra hlt
      rw [Nat.mod_eq_of_lt (by omega)] at hov
      omega
    rw [clampU_of_ge (by omega), ← hpow]
    apply BitVec.eq_of_toNat_eq
    rw [BitVec.toNat_ofInt, BitVec.toNat_allOnes, Int.emod_eq_of_lt (by omega) (by omega)]
    omega
  · have hlt : a.toNat + b.toNat < 2 ^ w := by
      by_contra hge
      rw [Nat.mod_eq_sub_mod (by omega), Nat.mod_eq_of_lt (by omega)] at hov
      omega
    rw [clampU_of_mem (by omega) (by omega), ← Nat.cast_add, BitVec.ofInt_natCast]
    apply BitVec.eq_of_toNat_eq
    rw [BitVec.toNat_ofNat, BitVec.toNat_add]

/-- The saturated unsigned difference. -/
theorem ofInt_clampU_sub (a b : BitVec w) :
    BitVec.ofInt w (clampU w (a.toNat - b.toNat)) = if b < a then a - b else 0 := by
  have hpow := two_pow_cast w
  have ha := a.isLt
  split_ifs with hlt
  all_goals rw [BitVec.lt_def] at hlt
  · rw [clampU_of_mem (by omega) (by omega), ← Nat.cast_sub (by omega), BitVec.ofInt_natCast]
    apply BitVec.eq_of_toNat_eq
    rw [BitVec.toNat_sub_of_le (BitVec.le_def.mpr (by omega)), BitVec.toNat_ofNat,
      Nat.mod_eq_of_lt (by omega)]
  · have hzero : clampU w (a.toNat - b.toNat) = 0 := by
      unfold clampU
      omega
    rw [hzero]
    rfl

end

end Qemu.Lib
