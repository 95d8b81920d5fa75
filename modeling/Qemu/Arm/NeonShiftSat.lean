import Qemu.Arm.NeonShiftLanes

namespace Qemu.Arm

open Lib

/-!
# Lanes of `qshl` and `qrshl`

* `neonQshlU_settles` — unsigned lanes, which are right;
* `neonQshlS_settles`, `qshlS64_settles` — signed ones, which are not clamped to the ends of the
  range;
* `qrshlBody_settles` — the bodies of `qrshl`, for which `qrshl_settles` and `qrshl64_settles` say
  what rounding does.
-/

section

variable {w W P j k : Nat} {signed : Bool} {src1 src2 : BitVec w} {op : NeonShiftOp} {x n e : Int}

theorem result_of_fits (hs : op.saturates = true) (h : Fits signed w e) :
    op.result signed w e = (BitVec.ofInt w e, false) := by
  rw [NeonShiftOp.result, if_pos hs, clampTo_of_fits h, decide_eq_false (by simp)]

theorem result_of_not_fits (hs : op.saturates = true) (h : ¬Fits signed w e) :
    op.result signed w e = (BitVec.ofInt w (clampTo signed w e), true) := by
  rw [NeonShiftOp.result, if_pos hs, decide_eq_true (mt clampTo_eq_iff.mp h)]

/-! ### `qshl` -/

/-- VQSHL of unsigned lanes. -/
theorem neonQshlU_settles (hw : 0 < w) (hW : w ≤ W) :
    LaneSettles (neonQshlU W src1 src2) (NeonShiftOp.qshl.expected false src1 src2)
      (NeonShiftOp.qshl.Meets false w (intOf false src1) (shiftCount src2)) := by
  refine .of_meets trivial ?_
  have hx := fits_intOf false src1
  have hlow : 0 ≤ intOf false src1 := hx.1
  -- what does not fit is too large
  have hclamp : ∀ k : Nat, ¬Fits false w (intOf false src1 * 2 ^ k) →
      NeonShiftOp.qshl.result false w (intOf false src1 * 2 ^ k) = (BitVec.allOnes w, true) := by
    intro k hfits
    have hpos : (0 : Int) ≤ intOf false src1 * 2 ^ k := by positivity
    have hge : intHigh false w ≤ intOf false src1 * 2 ^ k :=
      not_lt.mp fun hlt => hfits ⟨hpos, hlt⟩
    rw [result_of_not_fits rfl hfits, clampTo_of_ge hge, ofInt_intHigh]
  show _ = some (NeonShiftOp.qshl.result false w (scaled false _ _))
  obtain ⟨k, hn⟩ | ⟨j, hn⟩ := count_cases (shiftCount src2)
  · rw [hn, scaled_natCast]
    by_cases hk : w ≤ k
    · have hle : (2 : Int) ^ w ≤ 2 ^ k := pow_le_pow_right₀ (by decide) hk
      simp only [neonQshlU, hn]
      rw [if_pos (by omega)]
      by_cases hzero : src1 = 0
      · subst hzero
        have hint : intOf false (0 : BitVec w) = 0 := rfl
        rw [if_neg (not_not.mpr rfl), hint, zero_mul, result_of_fits rfl (fits_zero false w)]
        simp [plainLane]
      · have hne : intOf false src1 ≠ 0 := fun h0 => hzero (by
          rw [← ofInt_intOf false src1, h0]
          simp)
        rw [if_pos hzero, hclamp]
        intro hfits
        have hhigh : intOf false src1 * 2 ^ k < 2 ^ w := hfits.2
        have hone : 1 ≤ intOf false src1 := by omega
        have hmul := Int.mul_le_mul_of_nonneg_right hone (show (0 : Int) ≤ 2 ^ k by positivity)
        omega
    · simp only [neonQshlU, hn]
      rw [if_neg (by omega), if_neg (by omega), if_neg (by omega), laneShlSat_eq hw hW (by omega)]
      split_ifs with hfits
      · rw [result_of_fits rfl hfits]
      · rw [hclamp _ hfits]
        rfl
  · rw [hn, scaled_neg_natCast, result_of_fits rfl (fits_ediv hx _)]
    by_cases hk : w ≤ j + 1
    · obtain ⟨hlow', hhigh⟩ := fits_within hx hk
      simp only [neonQshlU, hn]
      rw [if_neg (by omega), if_pos (by omega), ediv_eq_sign hlow' hhigh, if_neg (by omega)]
      simp [plainLane]
    · simp only [neonQshlU, hn, neg_neg]
      rw [if_neg (by omega), if_neg (by omega), if_pos (by omega), laneShr_eq hw hW (by omega)]
      rfl

/-- A sign is not what a lane is clamped to. -/
theorem sign_ne_clampTo (hw : 2 ≤ w) (hfits : ¬Fits true w e) (x : Int) :
    BitVec.ofInt w (if x < 0 then -1 else 0) ≠ BitVec.ofInt w (clampTo true w e) := by
  have hpow : (2 : Int) ≤ 2 ^ (w - 1) := by
    have := pow_le_pow_right₀ (a := (2 : Int)) (by decide) (show 1 ≤ w - 1 by omega)
    omega
  have hsign : Fits true w (if x < 0 then -1 else 0) := by
    show -2 ^ (w - 1) ≤ _ ∧ _ < 2 ^ (w - 1)
    split_ifs <;> omega
  rw [ne_eq, ofInt_inj_of_fits (by omega) hsign (clampTo_fits true w e)]
  rcases Int.lt_or_le e (intLow true w) with hlow | hlow
  · rw [clampTo_of_lt hlow]
    show ¬_ = -2 ^ (w - 1)
    split_ifs <;> omega
  · rw [clampTo_of_ge (not_lt.mp fun hhigh => hfits ⟨hlow, hhigh⟩)]
    show ¬_ = 2 ^ (w - 1) - 1
    split_ifs <;> omega

theorem laneShr_31 (hw : 0 < w) (hW : w ≤ 32) :
    laneShr 32 true src1 31 = some (BitVec.ofInt w (if intOf true src1 < 0 then -1 else 0)) := by
  obtain ⟨hlow, hhigh⟩ := fits_within_pred (k := 31) (fits_intOf true src1) (by omega)
  rw [← ediv_eq_sign hlow hhigh]
  exact laneShr_eq hw hW (by decide)

/-- VQSHL of signed lanes. -/
theorem neonQshlS_settles (hw : 2 ≤ w) (hW : w ≤ 32) :
    LaneSettles (neonQshlS src1 src2) (NeonShiftOp.qshl.expected true src1 src2)
      (NeonShiftOp.qshl.Meets true w (intOf true src1) (shiftCount src2)) := by
  have hx := fits_intOf true src1
  have hmeets : NeonShiftOp.qshl.Meets true w (intOf true src1) (shiftCount src2) ↔
      (0 ≤ shiftCount src2 → Fits true w (intOf true src1 * 2 ^ (shiftCount src2).toNat)) := by
    show ite _ _ _ ↔ _
    rw [if_neg (by omega)]
  show LaneSettles _ (NeonShiftOp.qshl.result true w (scaled false _ _)) _
  obtain ⟨k, hn⟩ | ⟨j, hn⟩ := count_cases (shiftCount src2)
  · rw [hn] at hmeets ⊢
    rw [Int.toNat_natCast] at hmeets
    rw [scaled_natCast]
    -- the product is in the lane or it is clamped
    by_cases hfits : Fits true w (intOf true src1 * 2 ^ k)
    · refine .of_meets (hmeets.mpr fun _ => hfits) ?_
      rw [result_of_fits rfl hfits]
      by_cases hk : w ≤ k
      -- only zero fits
      · have hzero : intOf true src1 * 2 ^ k = 0 := by
          rw [← ofInt_inj_of_fits (by omega) hfits (fits_zero true w), ofInt_mul_two_pow hk]
          simp
        have hx0 : intOf true src1 = 0 := (mul_eq_zero_iff_right (by positivity)).mp hzero
        have hsrc : src1 = 0 := by
          rw [← ofInt_intOf true src1, hx0]
          simp
        simp only [neonQshlS, hn]
        rw [if_pos (by omega), laneShr_31 (by omega) hW, hx0, hsrc]
        simp
      · simp only [neonQshlS, hn]
        rw [if_neg (by omega), if_neg (by omega), if_neg (by omega),
          laneShlSat_eq (by omega) hW (by omega), if_pos hfits]
    · rw [result_of_not_fits rfl hfits]
      by_cases hk : w ≤ k
      · refine .of_ne (mt hmeets.mp fun h => hfits (h (by omega)))
          (d := (_, decide (src1 ≠ 0))) ?_ (sign_ne_clampTo hw hfits (intOf true src1))
        simp only [neonQshlS, hn]
        rw [if_pos (by omega), laneShr_31 (by omega) hW]
        rfl
      · refine .of_ne (mt hmeets.mp fun h => hfits (h (by omega))) (d := (_, true)) ?_
          (sign_ne_clampTo hw hfits (intOf true src2))
        simp only [neonQshlS, hn]
        rw [if_neg (by omega), if_neg (by omega), if_neg (by omega),
          laneShlSat_eq (by omega) hW (by omega), if_neg hfits, laneShr_31 (by omega) hW]
        rfl
  · rw [hn] at hmeets ⊢
    rw [scaled_neg_natCast, result_of_fits rfl (fits_ediv hx _)]
    refine .of_meets (hmeets.mpr fun hnonneg => by omega) ?_
    by_cases hk : w ≤ j + 1
    · obtain ⟨hlow, hhigh⟩ := fits_within hx hk
      simp only [neonQshlS, hn]
      rw [if_neg (by omega), if_pos (by omega), laneShr_31 (by omega) hW, ediv_eq_sign hlow hhigh]
      rfl
    · simp only [neonQshlS, hn, neg_neg]
      rw [if_neg (by omega), if_neg (by omega), if_pos (by omega),
        laneShr_eq (by omega) hW (by omega)]
      rfl

/-- The result is the sign, or what is not even that. -/
theorem qshlS64_settles (src1 src2 : BitVec 64) :
    LaneSettles (qshlS64 src1 src2) (NeonShiftOp.qshl.expected true src1 src2)
      (NeonShiftOp.qshl.Meets true 64 (intOf true src1) (shiftCount src2)) := by
  have hx := fits_intOf true src1
  obtain ⟨hlow, hhigh⟩ := fits_within_pred (k := 63) hx le_rfl
  have hshr : laneShr 64 true src1 63 =
      some (BitVec.ofInt 64 (if intOf true src1 < 0 then -1 else 0)) := by
    rw [← ediv_eq_sign hlow hhigh]
    exact laneShr_eq (by decide) le_rfl (by decide)
  have hmeets : NeonShiftOp.qshl.Meets true 64 (intOf true src1) (shiftCount src2) ↔
      (64 ≤ shiftCount src2 → intOf true src1 = 0) ∧
      (0 ≤ shiftCount src2 → shiftCount src2 < 64 →
        intOf true src1 = 0 ∨ intOf true src1 = -1 ∧ shiftCount src2 = 0) ∧
      (shiftCount src2 < 0 → -2 ^ (-shiftCount src2).toNat ≤ intOf true src1 ∧
        intOf true src1 < 2 ^ (-shiftCount src2).toNat) := Iff.rfl
  have hsign : Fits true 64 (if intOf true src1 < 0 then -1 else 0) := by
    split_ifs <;> decide
  have hres : shiftCount src2 < 64 → qshlS64 src1 src2 =
      some (BitVec.ofInt 64 (if intOf true src1 < 0 then -1 else 0), false) := by
    intro hlt
    unfold qshlS64
    dsimp only
    rw [if_neg (by omega), if_pos (by omega), hshr]
    rfl
  show LaneSettles _ (NeonShiftOp.qshl.result true 64 (scaled false _ _)) _
  obtain ⟨k, hn⟩ | ⟨j, hn⟩ := count_cases (shiftCount src2)
  · rw [hn] at hmeets hres ⊢
    rw [scaled_natCast]
    by_cases hzero : intOf true src1 = 0
    -- zero stays
    · have hsrc : src1 = 0 := by
        rw [← ofInt_intOf true src1, hzero]
        rfl
      refine .of_meets (hmeets.mpr ⟨fun _ => hzero, fun _ _ => .inl hzero, fun h => by omega⟩) ?_
      rw [hzero, zero_mul, result_of_fits rfl (fits_zero true 64)]
      by_cases hk : 64 ≤ k
      · unfold qshlS64
        dsimp only
        rw [hn, if_pos (by omega), if_neg (not_not.mpr hsrc), hsrc]
        rfl
      · rw [hres (by omega), hzero]
        rfl
    · have hne : src1 ≠ 0 := fun h => hzero (by rw [h]; rfl)
      by_cases hk : 64 ≤ k
      · have hfits : ¬Fits true 64 (intOf true src1 * 2 ^ k) := by
          intro hfits
          have h0 := (ofInt_inj_of_fits (by decide) hfits (fits_zero true 64)).mp
            (ofInt_mul_two_pow hk _)
          exact hzero ((mul_eq_zero_iff_right (by positivity)).mp h0)
        have hsat : qshlS64 src1 src2 = some (BitVec.ofInt 64
            (if intOf true src1 < 0 then -1 else 0) &&& ~~~signbit64, true) := by
          unfold qshlS64
          dsimp only
          rw [hn, if_pos (by omega), if_pos hne, hshr]
          rfl
        refine .of_ne (fun hc => hzero ((hmeets.mp hc).1 (by omega))) hsat ?_
        rw [result_of_not_fits rfl hfits]
        rcases Int.lt_or_le (intOf true src1) 0 with hneg | hpos
        · have hover : intOf true src1 * 2 ^ k < intLow true 64 := by
            have hnonpos : intOf true src1 * 2 ^ k ≤ 0 :=
              Int.mul_nonpos_of_nonpos_of_nonneg hneg.le (by positivity)
            exact not_le.mp fun hle => hfits ⟨hle, by have := intHigh_pos true 64; omega⟩
          rw [if_pos hneg, clampTo_of_lt hover]
          decide
        · have hover : intHigh true 64 ≤ intOf true src1 * 2 ^ k := by
            have hnonneg : 0 ≤ intOf true src1 * 2 ^ k := Int.mul_nonneg hpos (by positivity)
            exact not_lt.mp fun hlt => hfits ⟨by have := intLow_le true 64; omega, hlt⟩
          rw [if_neg (by omega), clampTo_of_ge hover]
          decide
      · by_cases hone : intOf true src1 = -1 ∧ k = 0
        · obtain ⟨hneg, rfl⟩ := hone
          refine .of_meets (hmeets.mpr ⟨fun h => by omega, fun _ _ => .inr ⟨hneg, rfl⟩,
            fun h => by omega⟩) ?_
          rw [hres (by omega), hneg]
          decide
        · refine .of_ne (fun hc => ?_) (hres (by omega)) ?_
          · have := (hmeets.mp hc).2.1 (by omega) (by omega)
            omega
          · by_cases hfits : Fits true 64 (intOf true src1 * 2 ^ k)
            · rw [result_of_fits rfl hfits, ne_eq, ofInt_inj_of_fits (by decide) hsign hfits]
              have hpow : (0 : Int) < 2 ^ k := by positivity
              split_ifs with hneg
              -- a negative product is -1 for one pair of factors
              · intro hprod
                have hk0 : k = 0 := by
                  by_contra hk0
                  have htwo : (2 : Int) ∣ 2 ^ k := dvd_pow_self 2 hk0
                  have := htwo.trans (Dvd.intro_left _ hprod.symm)
                  omega
                subst hk0
                exact hone ⟨by omega, rfl⟩
              · exact fun hprod => hzero ((mul_eq_zero_iff_right hpow.ne').mp hprod.symm)
            · rw [result_of_not_fits rfl hfits]
              exact sign_ne_clampTo (by decide) hfits _
  · rw [hn] at hmeets hres ⊢
    rw [neg_neg, Int.toNat_natCast] at hmeets
    have hquot := fits_ediv hx (j + 1)
    rw [scaled_neg_natCast, result_of_fits rfl hquot]
    have hpow : (0 : Int) < 2 ^ (j + 1) := by positivity
    by_cases hc : -2 ^ (j + 1) ≤ intOf true src1 ∧ intOf true src1 < 2 ^ (j + 1)
    · refine .of_meets (hmeets.mpr ⟨fun h => by omega, fun h => by omega, fun _ => hc⟩) ?_
      rw [hres (by omega), ediv_eq_sign hc.1 hc.2]
    · refine .of_ne (fun hm => hc ((hmeets.mp hm).2.2 (by omega))) (hres (by omega)) ?_
      rw [ne_eq, ofInt_inj_of_fits (by decide) hsign hquot]
      intro heq
      -- the quotient bounds the dividend
      have hdiv := Int.mul_ediv_self_le (x := intOf true src1) hpow.ne'
      have hdiv' := Int.lt_mul_ediv_self_add (x := intOf true src1) hpow
      rw [← heq] at hdiv hdiv'
      split_ifs at hdiv hdiv' <;> omega

/-! ### `qrshl` -/

/-- What `qrshl` takes for a clamped lane: right if it is unsigned, and never right else. -/
def SatValue (signed : Bool) (sat : Option (BitVec w)) : Prop :=
  if signed then ∃ d, sat = some d ∧ ∀ e, ¬Fits true w e → d ≠ BitVec.ofInt w (clampTo true w e)
  else sat = some (BitVec.allOnes w)

/-- The bodies of `qrshl`. -/
def qrshlBody (W : Nat) (signed : Bool) (src1 src2 : BitVec w) (sat : Option (BitVec w)) :
    Option (BitVec w × Bool) :=
  if shiftCount src2 < 0 then plainLane (laneRound 32 W signed src1 (shiftCount src2))
  else laneShlSat W signed src1 (shiftCount src2) sat

/-- A body whose condition is that what is rounded or shifted fits. -/
theorem qrshlBody_settles (hw : 2 ≤ w) (hW : w ≤ W) {sat : Option (BitVec w)}
    (hmax : max 32 (w : Int) = W)
    (hround : ∀ j : Nat, shiftCount src2 = -(j + 1 : Nat) →
      LaneSettles (plainLane (laneRound 32 W signed src1 (-(j + 1 : Nat))))
        (BitVec.ofInt w ((intOf signed src1 + 2 ^ j) / 2 ^ (j + 1)), false)
        (j < 31 ∧ (32 ≤ w → intOf signed src1 + 2 ^ j < intHigh signed w)))
    (hsat : SatValue signed sat) :
    LaneSettles (qrshlBody W signed src1 src2 sat) (NeonShiftOp.qrshl.expected signed src1 src2)
      (NeonShiftOp.qrshl.Meets signed w (intOf signed src1) (shiftCount src2)) := by
  have hx := fits_intOf signed src1
  have hmeets : NeonShiftOp.qrshl.Meets signed w (intOf signed src1) (shiftCount src2) ↔
      -31 ≤ shiftCount src2 ∧ shiftCount src2 < max 32 w ∧
      (signed = true → 0 ≤ shiftCount src2 →
        Fits true w (intOf signed src1 * 2 ^ (shiftCount src2).toNat)) ∧
      (32 ≤ w → shiftCount src2 < 0 →
        intOf signed src1 + 2 ^ ((-shiftCount src2).toNat - 1) < intHigh signed w) := by
    cases signed <;> exact Iff.rfl
  unfold qrshlBody
  show LaneSettles _ (NeonShiftOp.qrshl.result signed w (scaled true _ _)) _
  obtain ⟨k, hn⟩ | ⟨j, hn⟩ := count_cases (shiftCount src2)
  · rw [hn, Int.toNat_natCast] at hmeets
    rw [hn, scaled_natCast, if_neg (by omega)]
    -- from the width of the C type on the shift is undefined
    by_cases hk : W ≤ k
    · refine .of_fault (fun hc => ?_) (laneShlSat_eq_none (by omega) sat)
      have := (hmeets.mp hc).2.1
      omega
    · rw [laneShlSat_eq (by omega) hW (by omega)]
      by_cases hfits : Fits signed w (intOf signed src1 * 2 ^ k)
      · rw [if_pos hfits, result_of_fits rfl hfits]
        refine .of_meets (hmeets.mpr ⟨by omega, by omega, ?_, fun _ h => by omega⟩) rfl
        rintro rfl -
        exact hfits
      · rw [if_neg hfits, result_of_not_fits rfl hfits]
        cases signed with
        | true =>
          obtain ⟨d, rfl, hne⟩ := hsat
          exact .of_ne (fun hc => hfits ((hmeets.mp hc).2.2.1 rfl (by omega))) rfl (hne _ hfits)
        | false =>
          have hpos : (0 : Int) ≤ intOf false src1 * 2 ^ k := Int.mul_nonneg hx.1 (by positivity)
          have hge : intHigh false w ≤ intOf false src1 * 2 ^ k :=
            not_lt.mp fun hlt => hfits ⟨hpos, hlt⟩
          obtain rfl : sat = some (BitVec.allOnes w) := hsat
          refine .of_meets (hmeets.mpr ⟨by omega, by omega, fun h => absurd h Bool.false_ne_true,
            fun _ h => by omega⟩) ?_
          rw [clampTo_of_ge hge, ofInt_intHigh]
          rfl
  · rw [hn, toNat_count, Nat.add_sub_cancel] at hmeets
    rw [hn, scaled_round_neg_succ, if_pos (by omega), result_of_fits rfl (fits_round hx j)]
    have hset := hround j hn
    have hiff : NeonShiftOp.qrshl.Meets signed w (intOf signed src1) (-(j + 1 : Nat)) ↔
        (j < 31 ∧ (32 ≤ w → intOf signed src1 + 2 ^ j < intHigh signed w)) := by
      rw [hmeets]
      exact ⟨fun hc => ⟨by omega, fun h => hc.2.2.2 h (by omega)⟩,
        fun hc => ⟨by omega, by omega, fun _ h => by omega, fun h _ => hc.2 h⟩⟩
    exact ⟨fun hc => hset.meets (hiff.mp hc), fun sat hres => hiff.mpr (hset.only sat hres)⟩

/-- VQRSHL of lanes of 8, 16 and 32 bits. -/
theorem qrshl_settles (h : w ≤ 16 ∨ w = 32) (hw : 2 ≤ w) {sat : Option (BitVec w)}
    (hsat : SatValue signed sat) :
    LaneSettles (qrshlBody 32 signed src1 src2 sat) (NeonShiftOp.qrshl.expected signed src1 src2)
      (NeonShiftOp.qrshl.Meets signed w (intOf signed src1) (shiftCount src2)) := by
  refine qrshlBody_settles hw (by omega) (by omega) (fun j hn => ?_) hsat
  by_cases hj : j < 31
  · refine laneRound_settles h (by omega) hj rfl ?_
    constructor
    · rintro hc rfl
      exact hc.2 le_rfl
    · intro hc
      refine ⟨hj, fun h32 => ?_⟩
      obtain rfl : w = 32 := by omega
      exact hc rfl
  · refine .of_fault (fun hc => hj hc.1) ?_
    rw [laneRound_eq_none (by omega)]
    rfl

/-- The constant of the rounding is an `int`, which has no bit for counts beyond 32 and a sign for
    this one. -/
theorem laneRound_int_min (signed : Bool) (src1 : BitVec 64) :
    ∃ d, laneRound 32 64 signed src1 (-(31 + 1 : Nat)) = some d ∧
      d ≠ BitVec.ofInt 64 ((intOf signed src1 + 2 ^ 31) / 2 ^ (31 + 1)) := by
  obtain ⟨hlow, hhigh⟩ := fits_intOf signed src1
  have hhalf : (cShl (1 : Word) (-1 - -((31 + 1 : Nat) : Int))).map (·.signExtend 64) =
      some (BitVec.ofInt 64 (-2 ^ 31)) := by decide
  obtain ⟨half, hshl, hext⟩ := Option.map_eq_some_iff.mp hhalf
  have hround : laneRound 32 64 signed src1 (-(31 + 1 : Nat)) =
      (cShr signed (BitVec.ofInt 64 (intOf signed src1 - 2 ^ 31)) (31 + 1 : Nat)).map
        (·.setWidth 64) := by
    have hsigned : promotedSigned 64 signed 64 = signed := Bool.or_false signed
    rw [laneRound, hshl, hsigned]
    simp only [Option.bind_eq_bind, Option.bind_some, hext, promote_eq, ← BitVec.ofInt_add, neg_neg]
    rw [Option.map_eq_bind]
    rfl
  have hspan := intHigh_sub_intLow signed (show 0 < 64 by decide)
  by_cases hfits : Fits signed 64 (intOf signed src1 - 2 ^ 31)
  · refine ⟨_, by
      rw [hround, cShr_ofInt hfits (by decide), Option.map_some, BitVec.setWidth_eq], ?_⟩
    rw [ne_eq, ofInt_eq_ofInt_iff]
    omega
  -- the sum with the sign wraps
  · have hlt : intOf signed src1 - 2 ^ 31 < intLow signed 64 :=
      not_le.mp fun hle => hfits ⟨hle, by omega⟩
    have hwrap : BitVec.ofInt 64 (intOf signed src1 - 2 ^ 31) =
        BitVec.ofInt 64 (intOf signed src1 - 2 ^ 31 + 2 ^ 64) := by
      rw [ofInt_eq_ofInt_iff]
      omega
    have hfits' : Fits signed 64 (intOf signed src1 - 2 ^ 31 + 2 ^ 64) := ⟨by omega, by omega⟩
    rw [hwrap] at hround
    refine ⟨_, by
      rw [hround, cShr_ofInt hfits' (by decide), Option.map_some, BitVec.setWidth_eq], ?_⟩
    rw [ne_eq, ofInt_eq_ofInt_iff]
    omega

/-- VQRSHL of lanes of 64 bits. -/
theorem qrshl64_settles {src1 src2 : BitVec 64} {sat : Option (BitVec 64)}
    (hsat : SatValue signed sat) :
    LaneSettles (qrshlBody 64 signed src1 src2 sat) (NeonShiftOp.qrshl.expected signed src1 src2)
      (NeonShiftOp.qrshl.Meets signed 64 (intOf signed src1) (shiftCount src2)) := by
  refine qrshlBody_settles (by decide) le_rfl (by decide) (fun j hn => ?_) hsat
  rcases Nat.lt_trichotomy j 31 with hlt | rfl | hgt
  · refine laneRound64_settles (by omega) (.inl (by omega)) rfl ?_
    exact ⟨fun hc => hc.2 (by decide), fun hc => ⟨hlt, fun _ => hc⟩⟩
  · obtain ⟨d, hd, hne⟩ := laneRound_int_min signed src1
    refine .of_ne (fun hc => absurd hc.1 (by decide)) (d := (d, false)) ?_ hne
    rw [hd]
    rfl
  · refine .of_fault (fun hc => by omega) ?_
    rw [laneRound, cShl_ge (by omega)]
    rfl

/-- A lane of 64 bits is not clamped to what its upper bits are. -/
theorem satValue_shr (src1 : BitVec 64) : SatValue true (laneShr 64 true src1 31) := by
  have hx := fits_intOf true src1
  refine ⟨_, laneShr_eq (by decide) le_rfl (by decide), fun e hfits => ?_⟩
  have hpow : (0 : Int) < 2 ^ 31 := by decide
  have hlow : -2 ^ 63 ≤ intOf true src1 := hx.1
  have hhigh : intOf true src1 < 2 ^ 63 := hx.2
  have hdiv := Int.mul_ediv_self_le (x := intOf true src1) hpow.ne'
  have hdiv' := Int.lt_mul_ediv_self_add (x := intOf true src1) hpow
  rw [ne_eq, ofInt_inj_of_fits (by decide) (fits_ediv hx 31) (clampTo_fits true 64 e)]
  rcases Int.lt_or_le e (intLow true 64) with hlt | hle
  · rw [clampTo_of_lt hlt]
    show ¬_ = -2 ^ 63
    omega
  · rw [clampTo_of_ge (not_lt.mp fun hlt => hfits ⟨hle, hlt⟩)]
    show ¬_ = 2 ^ 63 - 1
    omega

theorem satValue_sign (hw : 2 ≤ w) (hW : w ≤ 32) (src1 : BitVec w) :
    SatValue true (laneShr 32 true src1 31) :=
  ⟨_, laneShr_31 (by omega) hW, fun _ hfits => sign_ne_clampTo hw hfits _⟩

end

end Qemu.Arm
