import Qemu.Arm.NeonShiftSpec

namespace Qemu.Arm

open Lib

/-!
# Lanes of `shl` and `rshl`

* `neonShlU_settles`, `neonShlS_settles` — plain shifts, which are right of all lanes;
* `neonRshlS_settles`, `neonRshlU_settles` — the macros that round;
* `rshlS64_settles`, `rshlU64_settles` — the bodies of 64 bits.
-/

section

variable {w W P j k : Nat} {signed : Bool} {src1 src2 : BitVec w} {x n e : Int}

/-! ### `shl` -/

/-- VSHL of unsigned lanes. -/
theorem neonShlU_settles (hw : 0 < w) (hW : w ≤ W) :
    LaneSettles (neonShlU W src1 src2) (NeonShiftOp.shl.expected false src1 src2)
      (NeonShiftOp.shl.Meets false w (intOf false src1) (shiftCount src2)) := by
  refine .of_meets trivial ?_
  have hx := fits_intOf false src1
  show _ = some (BitVec.ofInt w (scaled false _ _), false)
  obtain ⟨k, hn⟩ | ⟨j, hn⟩ := count_cases (shiftCount src2)
  · rw [hn, scaled_natCast]
    by_cases hk : w ≤ k
    · simp only [neonShlU, hn]
      rw [if_pos (.inl (by omega)), ofInt_mul_two_pow hk]
      rfl
    · simp only [neonShlU, hn]
      rw [if_neg (by omega), if_neg (by omega), laneShl_eq hW (by omega)]
      rfl
  · rw [hn, scaled_neg_natCast]
    by_cases hk : w ≤ j + 1
    · obtain ⟨hlow, hhigh⟩ := fits_within hx hk
      have hnonneg : ¬intOf false src1 < 0 := not_lt.mpr hx.1
      simp only [neonShlU, hn]
      rw [if_pos (.inr (by omega)), ediv_eq_sign hlow hhigh, if_neg hnonneg]
      simp [plainLane]
    · simp only [neonShlU, hn, neg_neg]
      rw [if_neg (by omega), if_pos (by omega), laneShr_eq hw hW (by omega)]
      rfl

/-- VSHL of signed lanes. -/
theorem neonShlS_settles (hw : 0 < w) (hW : w ≤ W) :
    LaneSettles (neonShlS W src1 src2) (NeonShiftOp.shl.expected true src1 src2)
      (NeonShiftOp.shl.Meets true w (intOf true src1) (shiftCount src2)) := by
  refine .of_meets trivial ?_
  have hx := fits_intOf true src1
  show _ = some (BitVec.ofInt w (scaled false _ _), false)
  obtain ⟨k, hn⟩ | ⟨j, hn⟩ := count_cases (shiftCount src2)
  · rw [hn, scaled_natCast]
    by_cases hk : w ≤ k
    · simp only [neonShlS, hn]
      rw [if_pos (by omega), ofInt_mul_two_pow hk]
      rfl
    · simp only [neonShlS, hn]
      rw [if_neg (by omega), if_neg (by omega), if_neg (by omega), laneShl_eq hW (by omega)]
      rfl
  · rw [hn, scaled_neg_natCast]
    by_cases hk : w ≤ j + 1
    -- both quotients are the sign
    · obtain ⟨hlow, hhigh⟩ := fits_within hx hk
      obtain ⟨hlow', hhigh'⟩ := fits_within_pred (k := w - 1) hx le_rfl
      have hlast : (w : Int) - 1 = (w - 1 : Nat) := by omega
      simp only [neonShlS, hn, hlast]
      rw [if_neg (by omega), if_pos (by omega), laneShr_eq hw hW (by omega),
        ediv_eq_sign hlow hhigh, ediv_eq_sign hlow' hhigh']
      rfl
    · simp only [neonShlS, hn, neg_neg]
      rw [if_neg (by omega), if_neg (by omega), if_pos (by omega), laneShr_eq hw hW (by omega)]
      rfl

/-! ### `rshl` -/

/-- Lanes of 8 and 16 bits leave room for the constant. -/
theorem fits_round_sum (h : w ≤ 16 ∨ w = 32) (hw : 0 < w) (hj : j < 31) (hx : Fits signed w x)
    (hc : w = 32 → x + 2 ^ j < intHigh signed 32) :
    Fits (promotedSigned 32 signed w) 32 (x + 2 ^ j) := by
  have hpos : (0 : Int) < 2 ^ j := by positivity
  rcases h with h16 | rfl
  · have hle : (2 : Int) ^ j ≤ 2 ^ 30 := pow_le_pow_right₀ (by decide) (by omega)
    have hsigned : promotedSigned 32 signed w = true := by
      rw [promotedSigned, decide_eq_true (by omega), Bool.or_true]
    obtain ⟨hlow, hhigh⟩ := fits_signed (W := 17) (by omega) hx
    rw [hsigned]
    constructor
    · change -2 ^ 16 ≤ x at hlow
      change -2 ^ 31 ≤ x + 2 ^ j
      omega
    · change x < 2 ^ 16 at hhigh
      change x + 2 ^ j < 2 ^ 31
      omega
  · have hsigned : promotedSigned 32 signed 32 = signed := Bool.or_false signed
    rw [hsigned]
    exact ⟨by have := hx.1; omega, hc rfl⟩

/-- What rounding gives in a macro. -/
theorem laneRound_settles (h : w ≤ 16 ∨ w = 32) (hw : 0 < w) (hj : j < 31) {c : Prop}
    {right : BitVec w × Bool}
    (hright : right = (BitVec.ofInt w ((intOf signed src1 + 2 ^ j) / 2 ^ (j + 1)), false))
    (hc : c ↔ (w = 32 → intOf signed src1 + 2 ^ j < intHigh signed 32)) :
    LaneSettles (plainLane (laneRound 32 32 signed src1 (-(j + 1 : Nat)))) right c := by
  by_cases hmeets : w = 32 → intOf signed src1 + 2 ^ j < intHigh signed 32
  · refine .of_meets (hc.mpr hmeets) ?_
    rw [laneRound_eq (by omega) (by omega) (.inl (by omega))
      (fits_round_sum h hw hj (fits_intOf signed src1) hmeets), hright]
    rfl
  · obtain ⟨rfl, hover⟩ := Classical.not_imp.mp hmeets
    obtain ⟨d, hd, hne⟩ :=
      laneRound_wrapped (P := 32) (by omega) (.inl (by omega)) (not_lt.mp hover)
    refine .of_ne (mt hc.mp hmeets) (d := (d, false)) ?_ ?_
    · rw [hd]
      rfl
    · rw [hright]
      exact hne

/-- VRSHL of signed lanes of 8, 16 and 32 bits. -/
theorem neonRshlS_settles (h : w ≤ 16 ∨ w = 32) (hw : 2 ≤ w) :
    LaneSettles (neonRshlS src1 src2) (NeonShiftOp.rshl.expected true src1 src2)
      (NeonShiftOp.rshl.Meets true w (intOf true src1) (shiftCount src2)) := by
  have hx := fits_intOf true src1
  show LaneSettles _ (BitVec.ofInt w (scaled true _ _), false) (_ ∧ _ ∧ _ ∧ _)
  -- a count of `k` shifts left, one of `-(j + 1)` shifts right with rounding
  obtain ⟨k, hn⟩ | ⟨j, hn⟩ := count_cases (shiftCount src2)
  · rw [hn, scaled_natCast]
    refine .of_meets ⟨by omega, fun hlt => by omega, fun h64 => by omega,
      fun _ _ hneg => by omega⟩ ?_
    by_cases hk : w ≤ k
    · simp only [neonRshlS, hn]
      rw [if_pos (by omega), ofInt_mul_two_pow hk]
      rfl
    · simp only [neonRshlS, hn]
      rw [if_neg (by omega), if_neg (by omega), if_neg (by omega), if_neg (by omega),
        laneShl_eq (by omega) (by omega)]
      rfl
  · rw [hn, scaled_round_neg_succ]
    rcases Nat.lt_trichotomy w (j + 1) with hlt | heq | hgt
    -- the sign is kept, and the quotient is zero
    · have hlast : (w : Int) - 1 = (w - 1 : Nat) := by omega
      obtain ⟨hlow, hhigh⟩ := fits_within_pred (k := w - 1) hx le_rfl
      have hle : (2 : Int) ^ (w - 1) ≤ 2 ^ j := pow_le_pow_right₀ (by decide) (by omega)
      have hsucc : (2 : Int) ^ (j + 1) = 2 * 2 ^ j := by ring
      have hzero : (intOf true src1 + 2 ^ j) / 2 ^ (j + 1) = 0 :=
        Int.ediv_eq_zero_of_lt (by omega) (by omega)
      have hres : neonRshlS src1 src2 =
          some (BitVec.ofInt w (if intOf true src1 < 0 then -1 else 0), false) := by
        simp only [neonRshlS, hn, hlast]
        rw [if_neg (by omega), if_pos (by omega), laneShr_eq (by omega) (by omega) (by omega),
          ediv_eq_sign hlow hhigh]
        rfl
      rw [hzero]
      by_cases hneg : intOf true src1 < 0
      · refine .of_ne (fun hc => ?_) hres ?_
        · have := hc.2.1 (by omega)
          omega
        · have hpow : (4 : Int) ≤ 2 ^ w := pow_le_pow_right₀ (a := (2 : Int)) (by decide) hw
          rw [if_pos hneg]
          show BitVec.ofInt w (-1) ≠ BitVec.ofInt w 0
          rw [ne_eq, ofInt_eq_ofInt_iff]
          intro hdvd
          have := Int.eq_zero_of_dvd_of_natAbs_lt_natAbs hdvd (by omega)
          omega
      · rw [if_neg hneg] at hres
        exact .of_meets ⟨by omega, fun _ => by omega, fun h64 => by omega, fun _ hgt => by omega⟩
          hres
    -- a shift by a negative amount
    · refine .of_fault (fun hc => hc.1 (by omega)) ?_
      simp only [neonRshlS, hn]
      rw [if_neg (by omega), if_neg (by omega), if_pos (by omega), laneShr,
        cShr_negative (by omega)]
      rfl
    · have hres : neonRshlS src1 src2 = plainLane (laneRound 32 32 true src1 (-(j + 1 : Nat))) := by
        simp only [neonRshlS, hn]
        rw [if_neg (by omega), if_neg (by omega), if_neg (by omega), if_pos (by omega)]
      rw [hres]
      refine laneRound_settles h (by omega) (by omega) rfl ?_
      rw [toNat_count, Nat.add_sub_cancel]
      constructor
      · rintro hc rfl
        exact hc.2.2.2 le_rfl (by omega) (by omega)
      · intro hc
        refine ⟨by omega, fun hlt => by omega, fun h64 => by omega, fun h32 _ _ => ?_⟩
        obtain rfl : w = 32 := by omega
        exact hc rfl

/-- VRSHL of unsigned lanes of 8, 16 and 32 bits. -/
theorem neonRshlU_settles (h : w ≤ 16 ∨ w = 32) (hw : 2 ≤ w) :
    LaneSettles (neonRshlU src1 src2) (NeonShiftOp.rshl.expected false src1 src2)
      (NeonShiftOp.rshl.Meets false w (intOf false src1) (shiftCount src2)) := by
  have hx := fits_intOf false src1
  have hmeets : NeonShiftOp.rshl.Meets false w (intOf false src1) (shiftCount src2) ↔
      shiftCount src2 ≠ -w ∧ (w = 32 → -32 < shiftCount src2 → shiftCount src2 < 0 →
        intOf false src1 + 2 ^ ((-shiftCount src2).toNat - 1) < 2 ^ 32) := by
    show ite _ _ _ ↔ _
    rw [if_neg (by omega)]
  show LaneSettles _ (BitVec.ofInt w (scaled true _ _), false) _
  obtain ⟨k, hn⟩ | ⟨j, hn⟩ := count_cases (shiftCount src2)
  · rw [hn] at hmeets ⊢
    rw [scaled_natCast]
    refine .of_meets (hmeets.mpr ⟨by omega, fun _ _ hneg => by omega⟩) ?_
    by_cases hk : w ≤ k
    · simp only [neonRshlU, hn]
      rw [if_pos (.inl (by omega)), ofInt_mul_two_pow hk]
      rfl
    · simp only [neonRshlU, hn]
      rw [if_neg (by omega), if_neg (by omega), if_neg (by omega),
        laneShl_eq (by omega) (by omega)]
      rfl
  · rw [hn] at hmeets ⊢
    rw [toNat_count, Nat.add_sub_cancel] at hmeets
    rw [scaled_round_neg_succ]
    -- past the lane, by its width, inside of it
    rcases Nat.lt_trichotomy w (j + 1) with hlt | heq | hgt
    · have hhigh : intOf false src1 < 2 ^ w := hx.2
      have hlow : 0 ≤ intOf false src1 := hx.1
      have hle : (2 : Int) ^ w ≤ 2 ^ j := pow_le_pow_right₀ (by decide) (by omega)
      have hsucc : (2 : Int) ^ (j + 1) = 2 * 2 ^ j := by ring
      refine .of_meets (hmeets.mpr ⟨by omega, fun _ hgt => by omega⟩) ?_
      simp only [neonRshlU, hn]
      rw [if_pos (.inr (by omega)), Int.ediv_eq_zero_of_lt (by omega) (by omega)]
      simp [plainLane]
    · refine .of_fault (fun hc => (hmeets.mp hc).1 (by omega)) ?_
      simp only [neonRshlU, hn]
      rw [if_neg (by omega), if_pos (by omega), laneShr, cShr_negative (by omega)]
      rfl
    · have hres : neonRshlU src1 src2 =
        plainLane (laneRound 32 32 false src1 (-(j + 1 : Nat))) := by
        simp only [neonRshlU, hn]
        rw [if_neg (by omega), if_neg (by omega), if_pos (by omega)]
      rw [hres]
      refine laneRound_settles h (by omega) (by omega) rfl (hmeets.trans ?_)
      exact ⟨fun hc h32 => hc.2 h32 (by omega) (by omega), fun hc =>
        ⟨by omega, fun h32 _ _ => hc h32⟩⟩

/-- What rounding gives in 64 bits. -/
theorem laneRound64_settles {src1 : BitVec 64} (hj : j < 63) {c : Prop}
    (h : j + 1 < P ∨ j < P ∧ P = 64)
    {right : BitVec 64 × Bool}
    (hright : right = (BitVec.ofInt 64 ((intOf signed src1 + 2 ^ j) / 2 ^ (j + 1)), false))
    (hc : c ↔ intOf signed src1 + 2 ^ j < intHigh signed 64) :
    LaneSettles (plainLane (laneRound P 64 signed src1 (-(j + 1 : Nat)))) right c := by
  have hpos : (0 : Int) < 2 ^ j := by positivity
  by_cases hmeets : intOf signed src1 + 2 ^ j < intHigh signed 64
  · have hsigned : promotedSigned 64 signed 64 = signed := Bool.or_false signed
    have hfits : Fits (promotedSigned 64 signed 64) 64 (intOf signed src1 + 2 ^ j) := by
      rw [hsigned]
      exact ⟨by have := (fits_intOf signed src1).1; omega, hmeets⟩
    refine .of_meets (hc.mpr hmeets) ?_
    rw [laneRound_eq le_rfl (by omega) h hfits, hright]
    rfl
  · obtain ⟨d, hd, hne⟩ := laneRound_wrapped (P := P) (by omega) h (not_lt.mp hmeets)
    refine .of_ne (mt hc.mp hmeets) (d := (d, false)) ?_ ?_
    · rw [hd]
      rfl
    · rw [hright]
      exact hne

/-- VRSHL of signed lanes of 64 bits, which has a helper of its own. -/
theorem rshlS64_settles (src1 src2 : BitVec 64) :
    LaneSettles (rshlS64 src1 src2) (NeonShiftOp.rshl.expected true src1 src2)
      (NeonShiftOp.rshl.Meets true 64 (intOf true src1) (shiftCount src2)) := by
  have hx := fits_intOf true src1
  obtain ⟨hlow, hhigh⟩ := fits_within_pred (k := 63) hx le_rfl
  show LaneSettles _ (BitVec.ofInt 64 (scaled true _ _), false) (_ ∧ _ ∧ _ ∧ _)
  obtain ⟨k, hn⟩ | ⟨j, hn⟩ := count_cases (shiftCount src2)
  · rw [hn, scaled_natCast]
    refine .of_meets ⟨by omega, fun hlt => by omega, fun _ hneg => by omega,
      fun _ _ hneg => by omega⟩ ?_
    by_cases hk : 64 ≤ k
    · simp only [rshlS64, hn]
      rw [if_pos (by omega), ofInt_mul_two_pow hk]
      rfl
    · simp only [rshlS64, hn]
      rw [if_neg (by omega), if_neg (by omega), if_neg (by omega), if_neg (by omega),
        laneShl_eq le_rfl (by omega)]
      rfl
  · rw [hn, scaled_round_neg_succ]
    -- as above, but a C shift by 64 is undefined
    rcases Nat.lt_trichotomy 64 (j + 1) with hlt | heq | hgt
    · have hle : (2 : Int) ^ 63 ≤ 2 ^ j := pow_le_pow_right₀ (by decide) (by omega)
      have hsucc : (2 : Int) ^ (j + 1) = 2 * 2 ^ j := by ring
      have hzero : (intOf true src1 + 2 ^ j) / 2 ^ (j + 1) = 0 :=
        Int.ediv_eq_zero_of_lt (by omega) (by omega)
      have hres : rshlS64 src1 src2 =
          some (BitVec.ofInt 64 (if intOf true src1 < 0 then -1 else 0), false) := by
        have hshr : laneShr 64 true src1 63 = some (BitVec.ofInt 64 (intOf true src1 / 2 ^ 63)) :=
          laneShr_eq (by decide) le_rfl (by decide)
        rw [ediv_eq_sign hlow hhigh] at hshr
        simp only [rshlS64, hn]
        rw [if_neg (by omega), if_pos (by omega)]
        exact congrArg plainLane hshr
      rw [hzero]
      by_cases hneg : intOf true src1 < 0
      · refine .of_ne (fun hc => ?_) hres ?_
        · have := hc.2.1 (by omega)
          omega
        · rw [if_pos hneg]
          show BitVec.ofInt 64 (-1) ≠ BitVec.ofInt 64 0
          decide
      · rw [if_neg hneg] at hres
        exact .of_meets ⟨by omega, fun _ => by omega, fun _ heq => by omega, fun _ hgt => by omega⟩
          hres
    -- a shift by 64
    · refine .of_fault (fun hc => hc.1 (by omega)) ?_
      simp only [rshlS64, hn]
      rw [if_neg (by omega), if_neg (by omega), if_neg (by omega), if_pos (by omega),
        laneRound_eq_none (by omega)]
      rfl
    · by_cases h63 : j = 62
      -- the branch that is meant for a count of 64
      · subst h63
        have hshr : laneShr 64 true src1 63 = some (BitVec.ofInt 64 (intOf true src1 / 2 ^ 63)) :=
          laneShr_eq (by decide) le_rfl (by decide)
        rw [ediv_eq_sign hlow hhigh] at hshr
        have hres : rshlS64 src1 src2 = some (0, false) := by
          simp only [rshlS64, hn]
          rw [if_neg (by omega), if_neg (by omega), if_pos (by omega)]
          refine (congrArg plainLane (congrArg (· >>= _) hshr)).trans ?_
          split_ifs <;> rfl
        have hround := fits_round hx 62
        by_cases hc : -2 ^ 62 ≤ intOf true src1 ∧ intOf true src1 < 2 ^ 62
        · refine .of_meets ⟨by omega, fun hlt => by omega, fun _ _ => hc.1, fun _ _ _ => ?_⟩ ?_
          · show _ + 2 ^ 62 < 2 ^ 63
            omega
          · rw [hres, Int.ediv_eq_zero_of_lt (by omega) (by omega)]
            rfl
        · refine .of_ne (fun hm => hc ⟨hm.2.2.1 rfl (by omega), ?_⟩) hres ?_
          · have hsum : intOf true src1 + 2 ^ 62 < 2 ^ 63 :=
              hm.2.2.2 (by omega) (by omega) (by omega)
            omega
          · show BitVec.ofInt 64 0 ≠ _
            rw [ne_eq, ofInt_inj_of_fits (by decide) (fits_zero true 64) hround]
            omega
      · have hres : rshlS64 src1 src2 = plainLane (laneRound 64 64 true src1 (-(j + 1 : Nat))) := by
          simp only [rshlS64, hn]
          rw [if_neg (by omega), if_neg (by omega), if_neg (by omega), if_pos (by omega)]
        rw [hres]
        refine laneRound64_settles (by omega) (.inl (by omega)) rfl ?_
        rw [toNat_count, Nat.add_sub_cancel]
        exact ⟨fun hc => hc.2.2.2 (by omega) (by omega) (by omega), fun hc => ⟨by omega,
          fun hlt => by omega, fun _ heq => by omega, fun _ _ _ => hc⟩⟩

theorem rshlU64_eq (src1 src2 : BitVec 64) :
    rshlU64 src1 src2 = plainLane (
      if shiftCount src2 < 0 then
        laneRound 64 64 false 0 (shiftCount src2) >>= fun val =>
          laneShr 64 false val (-shiftCount src2)
      else laneShl 64 false 0 (shiftCount src2)) := by
  unfold rshlU64
  dsimp only
  rw [if_pos (by omega)]
  rfl

/-- The result is zero, if it is defined. -/
theorem rshlU64_settles (src1 src2 : BitVec 64) :
    LaneSettles (rshlU64 src1 src2) (NeonShiftOp.rshl.expected false src1 src2)
      (NeonShiftOp.rshl.Meets false 64 (intOf false src1) (shiftCount src2)) := by
  have hx := fits_intOf false src1
  have hmeets : NeonShiftOp.rshl.Meets false 64 (intOf false src1) (shiftCount src2) ↔
      -64 < shiftCount src2 ∧ shiftCount src2 < 64 ∧
      (0 ≤ shiftCount src2 → 2 ^ (64 - shiftCount src2).toNat ∣ intOf false src1) ∧
      (shiftCount src2 < 0 → intOf false src1 < 2 ^ ((-shiftCount src2).toNat - 1)) := Iff.rfl
  have hzero : (0 : BitVec 64) = BitVec.ofInt 64 0 := rfl
  have hint : intOf false (0 : BitVec 64) = 0 := rfl
  show LaneSettles _ (BitVec.ofInt 64 (scaled true _ _), false) _
  obtain ⟨k, hn⟩ | ⟨j, hn⟩ := count_cases (shiftCount src2)
  · rw [hn] at hmeets ⊢
    rw [scaled_natCast]
    by_cases hk : 64 ≤ k
    · refine .of_fault (fun hc => by have := (hmeets.mp hc).2.1; omega) ?_
      rw [rshlU64_eq, hn, if_neg (by omega), laneShl, cShl_ge (by omega)]
      rfl
    · have hres : rshlU64 src1 src2 = some (0, false) := by
        rw [rshlU64_eq, hn, if_neg (by omega), laneShl_eq le_rfl (by omega), hint, zero_mul]
        rfl
      have hpow : (2 : Int) ^ 64 = 2 ^ (64 - k) * 2 ^ k := by
        rw [← pow_add]
        congr 1
        omega
      have hcount : (64 - (k : Int)).toNat = 64 - k := by omega
      -- the source keeps what is shifted out of the lane and loses the rest
      have hdvd : (2 : Int) ^ (64 - k) ∣ intOf false src1 ↔
          BitVec.ofInt 64 (intOf false src1 * 2 ^ k) = 0 := by
        rw [hzero, ofInt_eq_ofInt_iff, sub_zero, hpow, Int.mul_dvd_mul_iff_right (by positivity)]
      rw [hcount] at hmeets
      by_cases hc : (2 : Int) ^ (64 - k) ∣ intOf false src1
      · refine .of_meets (hmeets.mpr ⟨by omega, by omega, fun _ => hc, fun hneg => by omega⟩) ?_
        rw [hres, hdvd.mp hc]
      · exact .of_ne (fun hm => hc ((hmeets.mp hm).2.2.1 (by omega))) hres
          fun heq => hc (hdvd.mpr heq.symm)
  · rw [hn] at hmeets ⊢
    rw [toNat_count, Nat.add_sub_cancel] at hmeets
    rw [scaled_round_neg_succ]
    have hpos : (0 : Int) < 2 ^ j := by positivity
    have hsucc : (2 : Int) ^ (j + 1) = 2 * 2 ^ j := by ring
    have hlow : 0 ≤ intOf false src1 := hx.1
    by_cases hk : 64 ≤ j + 1
    · refine .of_fault (fun hc => by have := (hmeets.mp hc).1; omega) ?_
      rw [rshlU64_eq, hn, if_pos (by omega), laneRound_eq_none (by omega)]
      rfl
    · have hhalf : (0 + 2 ^ j : Int) / 2 ^ (j + 1) = 0 :=
        Int.ediv_eq_zero_of_lt (by omega) (by omega)
      have hfits : Fits (promotedSigned 64 false 64) 64 (intOf false (0 : BitVec 64) + 2 ^ j) := by
        have hlt : (2 : Int) ^ j < 2 ^ 64 := pow_lt_pow_right₀ (by decide) (by omega)
        rw [hint, zero_add]
        exact ⟨hpos.le, hlt⟩
      have hround := laneRound_eq (P := 64) le_rfl (by omega) (.inl (by omega)) hfits
      have hres : rshlU64 src1 src2 = some (0, false) := by
        rw [rshlU64_eq, hn, if_pos (by omega), hround, hint, hhalf, neg_neg]
        refine (congrArg plainLane (laneShr_eq (by decide) le_rfl (by omega))).trans ?_
        show some (BitVec.ofInt 64 (0 / 2 ^ (j + 1)), false) = _
        rw [Int.zero_ediv]
        rfl
      by_cases hc : intOf false src1 < 2 ^ j
      · refine .of_meets (hmeets.mpr ⟨by omega, by omega, fun h0 => by omega, fun _ => hc⟩) ?_
        rw [hres, Int.ediv_eq_zero_of_lt (by omega) (by omega)]
        rfl
      · refine .of_ne (fun hm => hc ((hmeets.mp hm).2.2.2 (by omega))) hres ?_
        show BitVec.ofInt 64 0 ≠ _
        rw [ne_eq, ofInt_inj_of_fits (by decide) (fits_zero false 64) (fits_round hx j)]
        have hone := Int.le_ediv_of_mul_le (c := 2 ^ (j + 1)) (a := 1)
          (b := intOf false src1 + 2 ^ j)
          (by omega) (by omega)
        omega

end

end Qemu.Arm
