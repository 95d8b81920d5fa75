import Qemu.Lib.Saturate
import Mathlib.Data.Rat.Floor

namespace Qemu.Lib

/-!
# Integers of C

A word of `w` bits is a signed or an unsigned integer.

* `intOf`, `Fits`, `clampTo` — the integer, those that a word can be, and the nearest one;
* `ofInt_inj_of_fits` — integers that fit are the same if their words are;
* `promote` — an operand in a wider type;
* `fits_ediv`, `fits_round`, `ediv_eq_sign` — quotients of what fits;
* `cShl`, `cShr` — shifts, which have no meaning for amounts that the type does not have;
* `cShr_ofInt`, `cShr_wrapped` — what a shift to the right gives before and after a wrap;
* `ediv_eq_iff_fits` — a shift to the left can be undone if nothing is lost;
* `scaled` — what a shift in either direction, with or without rounding, is for.
-/

/-- The integer that a word is. -/
def intOf {w : Nat} (signed : Bool) (a : BitVec w) : Int := if signed then a.toInt else a.toNat

/-- The least integer, and the one after the greatest. -/
def intLow (signed : Bool) (w : Nat) : Int := if signed then -2 ^ (w - 1) else 0

/-- The first number above those of the type. -/
def intHigh (signed : Bool) (w : Nat) : Int := if signed then 2 ^ (w - 1) else 2 ^ w

/-- The integers that words of `w` bits are. -/
def Fits (signed : Bool) (w : Nat) (e : Int) : Prop := intLow signed w ≤ e ∧ e < intHigh signed w

instance (signed : Bool) (w : Nat) (e : Int) : Decidable (Fits signed w e) :=
  inferInstanceAs (Decidable (_ ∧ _))

/-- The nearest integer that fits. -/
def clampTo (signed : Bool) (w : Nat) (e : Int) : Int :=
  if signed then clampS w e else clampU w e

/-- An operand in a wider type: its sign is kept if it has one. -/
def promote {w : Nat} (W : Nat) (signed : Bool) (a : BitVec w) : BitVec W :=
  if signed then a.signExtend W else a.setWidth W

/-- `a << n` -/
def cShl {W : Nat} (a : BitVec W) (n : Int) : Option (BitVec W) :=
  if 0 ≤ n ∧ n < W then some (a <<< n.toNat) else none

/-- `a >> n` -/
def cShr {W : Nat} (signed : Bool) (a : BitVec W) (n : Int) : Option (BitVec W) :=
  if 0 ≤ n ∧ n < W then some (if signed then a.sshiftRight n.toNat else a >>> n.toNat) else none

/-- `x * 2 ^ n`, rounded down or to the nearest integer. -/
def scaled (rounding : Bool) (x n : Int) : Int :=
  ⌊(x : ℚ) * 2 ^ n + if rounding then 1 / 2 else 0⌋

section

variable {w W n k : Nat} {signed sgn : Bool} {a : BitVec w} {e e' x y : Int}

/-! ### What fits -/

/-- The range of a type reaches down to zero. -/
theorem intLow_le (signed : Bool) (w : Nat) : intLow signed w ≤ 0 := by
  have hpos : (0 : Int) < 2 ^ (w - 1) := by positivity
  unfold intLow
  split_ifs <;> omega

theorem intHigh_pos (signed : Bool) (w : Nat) : 0 < intHigh signed w := by
  unfold intHigh
  split_ifs <;> positivity

theorem two_pow_succ_pred (hw : 0 < w) : (2 : Int) ^ w = 2 * 2 ^ (w - 1) := by
  obtain ⟨w, rfl⟩ : ∃ v, w = v + 1 := ⟨w - 1, by omega⟩
  rw [Nat.add_sub_cancel, pow_succ, mul_comm]

theorem intHigh_sub_intLow (signed : Bool) (hw : 0 < w) :
    intHigh signed w - intLow signed w = 2 ^ w := by
  have hpow := two_pow_succ_pred hw
  unfold intHigh intLow
  split_ifs <;> omega

theorem fits_zero (signed : Bool) (w : Nat) : Fits signed w 0 :=
  ⟨intLow_le signed w, intHigh_pos signed w⟩

theorem fits_intOf (signed : Bool) (a : BitVec w) : Fits signed w (intOf signed a) := by
  have hpow := two_pow_cast w
  cases signed with
  | false =>
    have ha := a.isLt
    show 0 ≤ (a.toNat : Int) ∧ (a.toNat : Int) < 2 ^ w
    omega
  | true => exact ⟨BitVec.le_toInt a, BitVec.toInt_lt⟩

/-- The word of an integer, and the integer of a word. -/
@[simp]
theorem ofInt_intOf (signed : Bool) (a : BitVec w) : BitVec.ofInt w (intOf signed a) = a := by
  cases signed with
  | false => exact ofInt_toNat a
  | true => exact BitVec.ofInt_toInt

theorem intOf_ofInt (hw : 0 < w) (h : Fits signed w e) : intOf signed (BitVec.ofInt w e) = e := by
  obtain ⟨hlow, hhigh⟩ := h
  cases signed with
  | false =>
    have hpow := two_pow_cast w
    change 0 ≤ e at hlow
    change e < 2 ^ w at hhigh
    show ((BitVec.ofInt w e).toNat : Int) = e
    rw [BitVec.toNat_ofInt, Int.emod_eq_of_lt hlow (by omega), Int.toNat_of_nonneg hlow]
  | true => exact BitVec.toInt_ofInt_eq_self hw hlow hhigh

theorem ofInt_eq_ofInt_iff : BitVec.ofInt w e = BitVec.ofInt w e' ↔ (2 ^ w : Int) ∣ e - e' := by
  have hpow := two_pow_cast w
  have hpos := Nat.two_pow_pos w
  rw [← BitVec.toNat_inj, BitVec.toNat_ofInt, BitVec.toNat_ofInt, ← hpow, Int.dvd_iff_emod_eq_zero,
    ← Int.emod_eq_emod_iff_emod_sub_eq_zero]
  have he := Int.emod_nonneg e (b := ((2 ^ w : Nat) : Int)) (by omega)
  have he' := Int.emod_nonneg e' (b := ((2 ^ w : Nat) : Int)) (by omega)
  omega

/-- Numbers that fit are told apart by their words. -/
theorem ofInt_inj_of_fits (hw : 0 < w) (h : Fits signed w e) (h' : Fits signed w e') :
    BitVec.ofInt w e = BitVec.ofInt w e' ↔ e = e' := by
  refine ⟨fun heq => ?_, congrArg _⟩
  rw [← intOf_ofInt hw h, heq, intOf_ofInt hw h']

/-! ### The nearest integer -/

theorem clampTo_of_fits (h : Fits signed w e) : clampTo signed w e = e := by
  cases signed with
  | false => exact clampU_of_mem h.1 h.2
  | true => exact clampS_of_mem h.1 h.2

theorem clampTo_fits (signed : Bool) (w : Nat) (e : Int) : Fits signed w (clampTo signed w e) := by
  have hpos : (0 : Int) < 2 ^ (w - 1) := by positivity
  have hpos' : (0 : Int) < 2 ^ w := by positivity
  cases signed with
  | false =>
    show 0 ≤ clampU w e ∧ clampU w e < 2 ^ w
    unfold clampU
    omega
  | true =>
    show -2 ^ (w - 1) ≤ clampS w e ∧ clampS w e < 2 ^ (w - 1)
    unfold clampS
    omega

theorem clampTo_eq_iff : clampTo signed w e = e ↔ Fits signed w e :=
  ⟨fun h => h ▸ clampTo_fits signed w e, clampTo_of_fits⟩

/-- Of what does not fit, the nearest integer is an end. -/
theorem clampTo_of_ge (h : intHigh signed w ≤ e) : clampTo signed w e = intHigh signed w - 1 := by
  cases signed with
  | false => exact clampU_of_ge h
  | true => exact clampS_of_ge h

/-- A number below the range becomes its lower end. -/
theorem clampTo_of_lt (h : e < intLow signed w) : clampTo signed w e = intLow signed w := by
  cases signed with
  | false => exact clampU_of_neg h
  | true => exact clampS_of_le h

theorem ofInt_intHigh : BitVec.ofInt w (intHigh false w - 1) = BitVec.allOnes w := by
  have hpow := two_pow_cast w
  have hpos := Nat.two_pow_pos w
  apply BitVec.eq_of_toNat_eq
  show (BitVec.ofInt w (2 ^ w - 1)).toNat = _
  rw [BitVec.toNat_ofInt, BitVec.toNat_allOnes, Int.emod_eq_of_lt (by omega) (by omega)]
  omega

/-! ### Quotients -/

/-- A quotient by a power of two fits where the number does. -/
theorem fits_ediv (h : Fits signed w e) (k : Nat) : Fits signed w (e / 2 ^ k) := by
  obtain ⟨hlow, hhigh⟩ := h
  have hpow : (0 : Int) < 2 ^ k := by positivity
  have hneg := intLow_le signed w
  have hpos := intHigh_pos signed w
  refine ⟨Int.le_ediv_of_mul_le hpow ?_, Int.ediv_lt_of_lt_mul hpow ?_⟩ <;> nlinarith

/-- A quotient that rounds to the nearest is between the dividend and zero. -/
theorem fits_round (h : Fits signed w e) (j : Nat) : Fits signed w ((e + 2 ^ j) / 2 ^ (j + 1)) := by
  obtain ⟨hlow, hhigh⟩ := h
  have hpow : (0 : Int) < 2 ^ j := by positivity
  have hneg := intLow_le signed w
  have hpos := intHigh_pos signed w
  have hsucc : (2 : Int) ^ (j + 1) = 2 * 2 ^ j := by ring
  rw [hsucc]
  refine ⟨Int.le_ediv_of_mul_le (by omega) ?_, Int.ediv_lt_of_lt_mul (by omega) ?_⟩ <;> nlinarith

/-- A quotient by more than the dividend is its sign. -/
theorem ediv_eq_sign (h : -2 ^ k ≤ x) (h' : x < 2 ^ k) : x / 2 ^ k = if x < 0 then -1 else 0 := by
  split_ifs with hneg
  · have hlow := Int.ediv_lt_of_lt_mul (c := 2 ^ k) (b := 0) (by positivity)
      (by omega : x < 0 * 2 ^ k)
    have hhigh :=
      Int.le_ediv_of_mul_le (c := 2 ^ k) (a := -1) (by positivity) (by omega : -1 * 2 ^ k ≤ x)
    omega
  · exact Int.ediv_eq_zero_of_lt (by omega) h'

/-- A number of a narrow type lies within a wide power. -/
theorem fits_within (h : Fits signed w x) (hk : w ≤ k) : -2 ^ k ≤ x ∧ x < 2 ^ k := by
  obtain ⟨hlow, hhigh⟩ := h
  have hle : (2 : Int) ^ w ≤ 2 ^ k := pow_le_pow_right₀ (by decide) hk
  have hle' : (2 : Int) ^ (w - 1) ≤ 2 ^ k := pow_le_pow_right₀ (by decide) (by omega)
  unfold intLow intHigh at *
  split_ifs at hlow hhigh <;> omega

/-- For signed types one bit less will do. -/
theorem fits_within_pred (h : Fits true w x) (hk : w - 1 ≤ k) : -2 ^ k ≤ x ∧ x < 2 ^ k := by
  have hle : (2 : Int) ^ (w - 1) ≤ 2 ^ k := pow_le_pow_right₀ (by decide) hk
  have hlow : -2 ^ (w - 1) ≤ x := h.1
  have hhigh : x < 2 ^ (w - 1) := h.2
  omega

/-! ### Wider types -/

theorem promote_eq (W : Nat) (signed : Bool) (a : BitVec w) :
    promote W signed a = BitVec.ofInt W (intOf signed a) := by
  cases signed with
  | false => exact setWidth_eq_ofInt W a
  | true => exact signExtend_eq_ofInt W a

theorem fits_mono (hw : 0 < w) (hW : w ≤ W) (h : Fits signed w e) : Fits signed W e := by
  obtain ⟨hlow, hhigh⟩ := h
  have hle : (2 : Int) ^ w ≤ 2 ^ W := pow_le_pow_right₀ (by decide) hW
  have hle' : (2 : Int) ^ (w - 1) ≤ 2 ^ (W - 1) := pow_le_pow_right₀ (by decide) (by omega)
  unfold Fits intLow intHigh at *
  split_ifs at * <;> omega

/-- A wider type has a sign bit too many for what is unsigned. -/
theorem fits_signed (hW : w < W) (h : Fits signed w e) : Fits true W e := by
  obtain ⟨hlow, hhigh⟩ := h
  have hle : (2 : Int) ^ w ≤ 2 ^ (W - 1) := pow_le_pow_right₀ (by decide) (by omega)
  have hle' : (2 : Int) ^ (w - 1) ≤ 2 ^ (W - 1) := pow_le_pow_right₀ (by decide) (by omega)
  have hpos : (0 : Int) < 2 ^ (W - 1) := by positivity
  unfold Fits
  unfold intLow intHigh at *
  rw [if_pos rfl, if_pos rfl]
  split_ifs at hlow hhigh <;> omega

/-! ### Shifts -/

/-- A shift to the left by less than the width multiplies. -/
theorem cShl_ofInt (hn : 0 ≤ (n : Int)) (hW : n < W) (e : Int) :
    cShl (BitVec.ofInt W e) n = some (BitVec.ofInt W (e * 2 ^ n)) := by
  rw [cShl, if_pos ⟨hn, by omega⟩, Int.toNat_natCast, BitVec.shiftLeft_eq_mul_twoPow]
  congr 1
  rw [BitVec.ofInt_mul]
  congr 1
  apply BitVec.eq_of_toNat_eq
  rw [BitVec.toNat_twoPow, ← two_pow_cast, BitVec.ofInt_natCast, BitVec.toNat_ofNat]

/-- A shift to the right by less than the width divides, rounding down. -/
theorem cShr_ofInt (h : Fits signed W e) (hW : n < W) :
    cShr signed (BitVec.ofInt W e) n = some (BitVec.ofInt W (e / 2 ^ n)) := by
  rw [cShr, if_pos ⟨Int.natCast_nonneg n, by omega⟩, Int.toNat_natCast]
  congr 1
  cases signed with
  | true =>
    rw [if_pos rfl]
    exact sshiftRight_ofInt (by omega) n h.1 h.2
  | false =>
    have hpow := two_pow_cast W
    obtain ⟨hlow, hhigh⟩ := h
    obtain ⟨v, rfl⟩ := Int.eq_ofNat_of_zero_le hlow
    change (v : Int) < 2 ^ W at hhigh
    rw [if_neg Bool.false_ne_true]
    apply BitVec.eq_of_toNat_eq
    have hv : v < 2 ^ W := by omega
    rw [BitVec.ofInt_natCast, ← two_pow_cast, ← Int.natCast_ediv, BitVec.ofInt_natCast,
      BitVec.toNat_ushiftRight, BitVec.toNat_ofNat, BitVec.toNat_ofNat, Nat.mod_eq_of_lt hv,
      Nat.shiftRight_eq_div_pow, Nat.mod_eq_of_lt ((Nat.div_le_self _ _).trans_lt hv)]

/-- The integer that wraps is less by `2 ^ W`, and its quotient by `2 ^ (W - n)`. -/
theorem cShr_wrapped (h : Fits signed W (e - 2 ^ W)) (hW : n < W) :
    cShr signed (BitVec.ofInt W e) n = some (BitVec.ofInt W (e / 2 ^ n - 2 ^ (W - n))) := by
  have hsame : BitVec.ofInt W e = BitVec.ofInt W (e - 2 ^ W) := by
    rw [ofInt_eq_ofInt_iff]
    exact ⟨1, by ring⟩
  have hpow : (2 : Int) ^ W = 2 ^ (W - n) * 2 ^ n := by
    rw [← pow_add]
    congr 1
    omega
  rw [hsame, cShr_ofInt h hW, hpow, Int.sub_mul_ediv_right _ _ (by positivity)]

/-- A shift by a negative number is undefined. -/
theorem cShr_negative (h : e < 0) (x : BitVec W) : cShr signed x e = none :=
  if_neg fun hn => by omega

theorem cShl_ge (h : (W : Int) ≤ e) (x : BitVec W) : cShl x e = none :=
  if_neg fun hn => by omega

theorem cShr_ge (h : (W : Int) ≤ e) (x : BitVec W) : cShr signed x e = none :=
  if_neg fun hn => by omega

/-- **A shift to the left is undone** if what is shifted fits. -/
theorem ediv_eq_iff_fits (hw : 0 < w) (n : Nat) :
    intOf signed (BitVec.ofInt w (x * 2 ^ n)) / 2 ^ n = x ↔ Fits signed w (x * 2 ^ n) := by
  have hn : (0 : Int) < 2 ^ n := by positivity
  constructor
  · intro h
    generalize hy : intOf signed (BitVec.ofInt w (x * 2 ^ n)) = y at h
    have hfits : Fits signed w y := hy ▸ fits_intOf signed _
    have hdvd : (2 ^ w : Int) ∣ y - x * 2 ^ n := by
      rw [← ofInt_eq_ofInt_iff, ← hy, ofInt_intOf]
    rcases Nat.le_total n w with hle | hle
    -- the bits that are shifted in are still there
    · have hmul : (2 ^ n : Int) ∣ y := by
        have hsub := (pow_dvd_pow (2 : Int) hle).trans hdvd
        exact (Int.dvd_iff_dvd_of_dvd_sub hsub).mpr (Dvd.intro_left x rfl)
      rw [← h, Int.ediv_mul_cancel hmul]
      exact hfits
    -- nothing else is
    · have hzero : y = 0 := by
        have hmul : (2 ^ w : Int) ∣ y :=
          (Int.dvd_iff_dvd_of_dvd_sub hdvd).mpr
            ((pow_dvd_pow (2 : Int) hle).trans (Dvd.intro_left x rfl))
        rw [← ofInt_inj_of_fits hw hfits (fits_zero signed w), ofInt_eq_ofInt_iff, sub_zero]
        exact hmul
      rw [← h, hzero]
      simpa using fits_zero signed w
  · intro h
    rw [intOf_ofInt hw h, Int.mul_ediv_cancel _ hn.ne']

/-! ### Scaling -/

/-- A count that is not negative scales up. -/
theorem scaled_natCast (rounding : Bool) (x : Int) (n : Nat) : scaled rounding x n = x * 2 ^ n := by
  have hexact : (x : ℚ) * 2 ^ (n : Int) = ((x * 2 ^ n : Int) : ℚ) := by
    push_cast
    rfl
  unfold scaled
  rw [hexact, Int.floor_intCast_add]
  split_ifs <;> norm_num

theorem scaled_neg_natCast (x : Int) (n : Nat) : scaled false x (-n) = x / 2 ^ n := by
  have hexact : (x : ℚ) * 2 ^ (-n : Int) = x / ((2 ^ n : Nat) : ℚ) := by
    push_cast
    rw [zpow_neg, zpow_natCast]
    rfl
  unfold scaled
  rw [if_neg Bool.false_ne_true, add_zero, hexact, Rat.floor_intCast_div_natCast, two_pow_cast]

/-- A rounded one has half of the divisor added. -/
theorem scaled_round_neg_succ (x : Int) (n : Nat) :
    scaled true x (-(n + 1 : Nat)) = (x + 2 ^ n) / 2 ^ (n + 1) := by
  have hexact : (x : ℚ) * 2 ^ (-(n + 1 : Nat) : Int) + 1 / 2 =
      ((x + 2 ^ n : Int) : ℚ) / ((2 ^ (n + 1) : Nat) : ℚ) := by
    rw [zpow_neg, zpow_natCast]
    push_cast
    field_simp
    ring
  unfold scaled
  rw [if_pos rfl, hexact, Rat.floor_intCast_div_natCast, two_pow_cast]

end

end Qemu.Lib
