import Qemu.Arm.NeonShift

namespace Qemu.Arm

open Lib

/-!
# What the shifts of Neon lanes are for

* `NeonShiftOp.expected` — `x * 2 ^ n`, rounded and clamped as the operation says;
* `NeonShiftOp.Meets` — the lanes of which a helper is right;
* `laneShr_eq`, `laneShl_eq`, `laneRound_eq`, `laneShlSat_eq` — the expressions as integers;
* `count_cases`, `ofInt_mul_two_pow` — counts of either sign, and those beyond a lane.
-/

/-- The kinds that round. -/
def NeonShiftOp.rounds : NeonShiftOp → Bool
  | .rshl | .qrshl => true
  | .shl | .qshl => false

/-- The kinds that saturate. -/
def NeonShiftOp.saturates : NeonShiftOp → Bool
  | .qshl | .qrshl => true
  | .shl | .rshl => false

/-- A lane, and whether it is clamped. -/
def NeonShiftOp.result (op : NeonShiftOp) (signed : Bool) (w : Nat) (e : Int) : BitVec w × Bool :=
  if op.saturates then (BitVec.ofInt w (clampTo signed w e), decide (clampTo signed w e ≠ e))
  else (BitVec.ofInt w e, false)

/-- The lane that is expected. -/
def NeonShiftOp.expected {w : Nat} (op : NeonShiftOp) (signed : Bool) (src1 src2 : BitVec w) :
    BitVec w × Bool :=
  op.result signed w (scaled op.rounds (intOf signed src1) (shiftCount src2))

/-- The lanes and counts of which a helper is right: `x` by `n` where lanes have `w` bits. -/
def NeonShiftOp.Meets (op : NeonShiftOp) (signed : Bool) (w : Nat) (x n : Int) : Prop :=
  match op, signed with
  | .shl, _ => True
  | .rshl, true =>
    -- a count of `-w` is not defined, and beyond it the sign is kept instead of rounded
    n ≠ -w ∧ (n < -w → 0 ≤ x) ∧ (w = 64 → n = -63 → -2 ^ 62 ≤ x) ∧
      -- the sum with the constant of the rounding has to fit
      (32 ≤ w → -w < n → n < 0 → x + 2 ^ ((-n).toNat - 1) < 2 ^ (w - 1))
  | .rshl, false =>
    if w = 64 then
      -- the result is always zero
      -64 < n ∧ n < 64 ∧ (0 ≤ n → 2 ^ (64 - n).toNat ∣ x) ∧ (n < 0 → x < 2 ^ ((-n).toNat - 1))
    else n ≠ -w ∧ (w = 32 → -32 < n → n < 0 → x + 2 ^ ((-n).toNat - 1) < 2 ^ 32)
  | .qshl, false => True
  | .qshl, true =>
    if w = 64 then
      -- the result is always the sign
      (64 ≤ n → x = 0) ∧ (0 ≤ n → n < 64 → x = 0 ∨ x = -1 ∧ n = 0) ∧
        (n < 0 → -2 ^ (-n).toNat ≤ x ∧ x < 2 ^ (-n).toNat)
    else 0 ≤ n → Fits true w (x * 2 ^ n.toNat)
  | .qrshl, signed =>
    -- counts are not compared with the width, and the constant of the rounding is an `int`
    -31 ≤ n ∧ n < max 32 w ∧ (signed = true → 0 ≤ n → Fits true w (x * 2 ^ n.toNat)) ∧
      (32 ≤ w → n < 0 → x + 2 ^ ((-n).toNat - 1) < intHigh signed w)

section

variable {w W P j k : Nat} {signed : Bool} {src1 src2 : BitVec w} {x n e : Int}

/-! ### Expressions -/

theorem fits_promoted (hw : 0 < w) (hW : w ≤ W) (h : Fits signed w e) :
    Fits (promotedSigned W signed w) W e := by
  unfold promotedSigned
  cases signed with
  | true => exact fits_mono hw hW h
  | false =>
    rcases Nat.lt_or_eq_of_le hW with hlt | rfl
    · rw [decide_eq_true hlt]
      exact fits_signed hlt h
    · rw [decide_eq_false (Nat.lt_irrefl w)]
      exact h

theorem laneShr_eq (hw : 0 < w) (hW : w ≤ W) (hk : k < W) :
    laneShr W signed src1 k = some (BitVec.ofInt w (intOf signed src1 / 2 ^ k)) := by
  rw [laneShr, promote_eq, cShr_ofInt (fits_promoted hw hW (fits_intOf signed src1)) hk,
    Option.map_some, setWidth_ofInt hW]

theorem laneShl_eq (hW : w ≤ W) (hk : k < W) :
    laneShl W signed src1 k = some (BitVec.ofInt w (intOf signed src1 * 2 ^ k)) := by
  rw [laneShl, promote_eq, cShl_ofInt (Int.natCast_nonneg k) hk, Option.map_some, setWidth_ofInt hW]

/-- The test of `dest >> tmp` is that of overflow. -/
theorem laneShlSat_eq (hw : 0 < w) (hW : w ≤ W) (hk : k < W) (sat : Option (BitVec w)) :
    laneShlSat W signed src1 k sat =
      if Fits signed w (intOf signed src1 * 2 ^ k) then
        some (BitVec.ofInt w (intOf signed src1 * 2 ^ k), false)
      else sat.map (·, true) := by
  have hdest := fits_intOf signed (BitVec.ofInt w (intOf signed src1 * 2 ^ k))
  have hback := cShr_ofInt (fits_promoted hw hW hdest) hk
  have heq := ofInt_inj_of_fits (hw.trans_le hW) (fits_promoted hw hW (fits_ediv hdest k))
    (fits_promoted hw hW (fits_intOf signed src1))
  rw [ediv_eq_iff_fits hw k] at heq
  rw [laneShlSat, laneShl_eq hW hk]
  simp only [Option.bind_eq_bind, Option.bind_some, promote_eq, hback, ne_eq, heq, ite_not]

/-- The constant of the rounding, unless it is the sign of a narrower type. -/
theorem half_eq (h : j + 1 < P ∨ j < P ∧ P = W) :
    (cShl (1 : BitVec P) (-1 - (-(j + 1 : Nat) : Int))).map (·.signExtend W) =
      some (BitVec.ofInt W (2 ^ j)) := by
  have hj : j < P := by omega
  have hcount : -1 - (-(j + 1 : Nat) : Int) = j := by omega
  have hone : (1 : BitVec P) = BitVec.ofInt P 1 := by
    apply BitVec.eq_of_toInt_eq
    simp
  rw [hcount, hone, cShl_ofInt (Int.natCast_nonneg j) hj, one_mul, Option.map_some]
  congr 1
  rcases h with hlt | ⟨-, rfl⟩
  · have hfits : Fits true P (2 ^ j) := by
      have hlow := intLow_le true P
      have hpos : (0 : Int) < 2 ^ j := by positivity
      exact ⟨by omega, pow_lt_pow_right₀ (by decide) (by omega)⟩
    rw [signExtend_eq_ofInt]
    exact congrArg _ (intOf_ofInt (by omega) hfits)
  · rw [signExtend_eq_ofInt, BitVec.ofInt_toInt]

theorem laneRound_eq_cShr (h : j + 1 < P ∨ j < P ∧ P = W) :
    laneRound P W signed src1 (-(j + 1 : Nat)) =
      (cShr (promotedSigned W signed w) (BitVec.ofInt W (intOf signed src1 + 2 ^ j))
        (j + 1 : Nat)).map (·.setWidth w) := by
  obtain ⟨half, hhalf, hext⟩ := Option.map_eq_some_iff.mp (half_eq h)
  rw [laneRound, hhalf]
  simp only [Option.bind_eq_bind, Option.bind_some, hext, promote_eq, ← BitVec.ofInt_add, neg_neg]
  rw [Option.map_eq_bind]
  rfl

theorem laneRound_eq (hW : w ≤ W) (hj : j + 1 < W) (h : j + 1 < P ∨ j < P ∧ P = W)
    (hfits : Fits (promotedSigned W signed w) W (intOf signed src1 + 2 ^ j)) :
    laneRound P W signed src1 (-(j + 1 : Nat)) =
      some (BitVec.ofInt w ((intOf signed src1 + 2 ^ j) / 2 ^ (j + 1))) := by
  rw [laneRound_eq_cShr h, cShr_ofInt hfits hj, Option.map_some, setWidth_ofInt hW]

/-- Rounding wraps if the sum does not fit. -/
theorem laneRound_wrapped {src1 : BitVec W} (hj : j + 1 < W) (h : j + 1 < P ∨ j < P ∧ P = W)
    (hover : intHigh signed W ≤ intOf signed src1 + 2 ^ j) :
    ∃ d, laneRound P W signed src1 (-(j + 1 : Nat)) = some d ∧
      d ≠ BitVec.ofInt W ((intOf signed src1 + 2 ^ j) / 2 ^ (j + 1)) := by
  obtain ⟨hlow, hhigh⟩ := fits_intOf signed src1
  have hspan := intHigh_sub_intLow signed (show 0 < W by omega)
  have hpos : (0 : Int) < 2 ^ j := by positivity
  have hlt : (2 : Int) ^ j < 2 ^ W := pow_lt_pow_right₀ (by decide) (by omega)
  have hfits : Fits (promotedSigned W signed W) W (intOf signed src1 + 2 ^ j - 2 ^ W) :=
    fits_promoted (by omega) le_rfl ⟨by omega, by omega⟩
  refine ⟨_, by
    rw [laneRound_eq_cShr h, cShr_wrapped hfits hj, Option.map_some, BitVec.setWidth_eq], ?_⟩
  -- the quotients differ by less than words do
  rw [ne_eq, ofInt_eq_ofInt_iff]
  intro hdvd
  have hgap : (0 : Int) < 2 ^ (W - (j + 1)) := by positivity
  have hgap' : (2 : Int) ^ (W - (j + 1)) < 2 ^ W := pow_lt_pow_right₀ (by decide) (by omega)
  have hzero := Int.eq_zero_of_dvd_of_natAbs_lt_natAbs hdvd (by omega)
  omega

theorem laneRound_eq_none (h : (W : Int) ≤ -n) : laneRound P W signed src1 n = none := by
  rw [laneRound]
  cases cShl (1 : BitVec P) (-1 - n) with
  | none => rfl
  | some half => simp [cShr_ge h]

theorem laneShlSat_eq_none (h : (W : Int) ≤ n) (sat : Option (BitVec w)) :
    laneShlSat W signed src1 n sat = none := by
  rw [laneShlSat, laneShl, cShl_ge h]
  rfl

/-! ### Counts -/

theorem count_cases (n : Int) : (∃ k : Nat, n = k) ∨ ∃ j : Nat, n = -(j + 1 : Nat) := by
  rcases Int.lt_or_le n 0 with hneg | hpos
  · exact .inr ⟨(-n).toNat - 1, by omega⟩
  · exact .inl ⟨n.toNat, by omega⟩

theorem toNat_count (j : Nat) : (- -((j + 1 : Nat) : Int)).toNat = j + 1 := by
  omega

theorem ofInt_mul_two_pow (hk : w ≤ k) (x : Int) : BitVec.ofInt w (x * 2 ^ k) = 0 := by
  have hzero : (0 : BitVec w) = BitVec.ofInt w 0 := by simp
  rw [hzero, ofInt_eq_ofInt_iff, sub_zero]
  exact (pow_dvd_pow 2 hk).trans (Dvd.intro_left x rfl)

end

end Qemu.Arm
