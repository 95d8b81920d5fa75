import Qemu.Arm.Media
import Qemu.Lib.Saturate
import Mathlib.Algebra.BigOperators.Group.Finset.Basic

namespace Qemu.Arm

open Lib

/-!
# Media operations in exact integers

* `MediaForm.lane`, `MediaForm.geSet` — a lane and its GE bits, from the exact result;
* `macro_lane`, `macro_ge` — the macros compute them; the signed forms take GE from the sum that is
  reduced already;
* `doSsat_eq`, `doUsat_eq` — saturation;
* `media_exact` — which operations are exact.

An ARM instruction that saturates to one bit (signed) or to zero bits (unsigned) is emitted without
saturation, and `gen_revsh` extends the byte that the shift has cleared.
-/

/-! ### The integers -/

/-- What is done with two lanes. -/
inductive LaneOp
  | add | sub
deriving DecidableEq, Repr

/-- The same with integers. -/
def LaneOp.exact : LaneOp → Int → Int → Int
  | .add, x, y => x + y
  | .sub, x, y => x - y

/-- The lanes are signed integers. -/
def MediaForm.isSigned : MediaForm → Bool
  | .s | .q | .sh => true
  | .u | .uq | .uh => false

/-- An operand as an integer. -/
def MediaForm.int (f : MediaForm) {w : Nat} (x : BitVec w) : Int :=
  if f.isSigned then x.toInt else x.toNat

/-- A lane, from the exact result. -/
def MediaForm.lane (f : MediaForm) (w : Nat) (e : Int) : BitVec w :=
  match f with
  | .s | .u => BitVec.ofInt w e
  | .q => BitVec.ofInt w (clampS w e)
  | .uq => BitVec.ofInt w (clampU w e)
  | .sh | .uh => BitVec.ofInt w (e / 2)

/-- The form sets the GE flags. -/
def MediaForm.setsGe : MediaForm → Bool
  | .s | .u => true
  | _ => false

/-- The GE bits of a lane: a carry out of it, or no negative result. -/
def MediaForm.geSet (f : MediaForm) (w : Nat) (op : LaneOp) (e : Int) : Bool :=
  match f, op with
  | .u, .add => decide (2 ^ w ≤ e)
  | _, _ => decide (0 ≤ e)

/-- The width of a lane. -/
def MediaHelper.width : MediaHelper → Nat
  | .add8 | .sub8 => 8
  | _ => 16

/-- What is done in a lane, and which lane of the second operand it takes. -/
def MediaHelper.laneOp : MediaHelper → Nat → LaneOp × Nat
  | .add16, n | .add8, n => (.add, n)
  | .sub16, n | .sub8, n => (.sub, n)
  | .subaddx, n => if n = 0 then (.add, 1) else (.sub, 0)
  | .addsubx, n => if n = 0 then (.sub, 1) else (.add, 0)

/-- The exact result of a lane. -/
def MediaHelper.exact (h : MediaHelper) (f : MediaForm) (a b : Word) (n : Nat) : Int :=
  (h.laneOp n).1.exact (f.int (Lib.lane h.width n a)) (f.int (Lib.lane h.width (h.laneOp n).2 b))

/-- Saturation to `sh` bits, and a sign if it is signed. -/
def satExact (unsigned : Bool) (sh : Nat) (e : Int) : Int :=
  if unsigned then clampU sh e else clampS (sh + 1) e

/-- The operand of an ARM instruction that saturates; a right shift of 0 stands for one of 32. -/
def armSatOperand (insn rm : Word) : Int :=
  let shift := ((insn >>> 7) &&& (0x1f : Word)).toNat
  if insn.getLsbD 6 then rm.toInt / 2 ^ (if shift = 0 then 32 else shift) else (rm <<< shift).toInt

/-- The operand of a Thumb instruction that saturates. -/
def thumbSatOperand (insn rn : Word) : Int :=
  let shift := (thumbSatShift insn).toNat
  if insn.getLsbD 21 then rn.toInt / 2 ^ shift else (rn <<< shift).toInt

/-- The bits that an ARM instruction saturates to. -/
def armSatBits (insn : Word) : Nat := ((insn >>> 16) &&& (0x1f : Word)).toNat

/-! ### The operations -/

/-- The instructions this is about, with their operands. -/
inductive MediaOp
  | parallel (form : MediaForm) (helper : MediaHelper) (a b : Word)
  | armSat (insn rm : Word)
  | armSat16 (insn rm : Word)
  | thumbSat (insn rn : Word)
  | usad8 (a b : Word)
  | rev16 (x : Word)
  | revsh (x : Word)

/-- The lanes of 16 bits are saturated. -/
def Sat16Exact (unsigned : Bool) (sh : Nat) (x res : Word) : Prop :=
  ∀ n, n < 2 → lane 16 n res = BitVec.ofInt 16 (satExact unsigned sh (lane 16 n x).toInt)

/-- The result is the exact one, lane by lane, with the GE bits of the lanes. -/
def MediaOp.Exact (ge : Word) (qf : BitVec 1) : MediaOp → Prop
  | .parallel f h a b =>
    let x := f.macros.helper h ge a b
    (∀ n, n < 32 / h.width → lane h.width n x.res = f.lane h.width (h.exact f a b n)) ∧
      if f.setsGe then
        ∀ j, j < 4 → x.ge.getLsbD j =
          f.geSet h.width (h.laneOp (8 * j / h.width)).1 (h.exact f a b (8 * j / h.width))
      else x.ge = ge
  | .armSat insn rm => (Arm.armSat insn qf rm).val =
      BitVec.ofInt 32 (satExact (insn.getLsbD 22) (armSatBits insn) (armSatOperand insn rm))
  | .armSat16 insn rm =>
    Sat16Exact (insn.getLsbD 22) (armSatBits insn) rm (Arm.armSat16 insn qf rm).val
  | .thumbSat insn rn =>
    let sh := (insn &&& (0x1f : Word)).toNat
    if insn.getLsbD 21 ∧ thumbSatShift insn = 0 then
      Sat16Exact (insn.getLsbD 23) sh rn (Arm.thumbSat insn qf rn).val
    else (Arm.thumbSat insn qf rn).val =
      BitVec.ofInt 32 (satExact (insn.getLsbD 23) sh (thumbSatOperand insn rn))
  | .usad8 a b => ((Arm.usad8 a b).toNat : Int) =
      ∑ i ∈ Finset.range 4, |((lane 8 i a).toNat : Int) - (lane 8 i b).toNat|
  | .rev16 x => ∀ i, i < 2 → lane 8 (2 * i) (genRev16 x) = lane 8 (2 * i + 1) x ∧
      lane 8 (2 * i + 1) (genRev16 x) = lane 8 (2 * i) x
  | .revsh x => (genRevsh x).toInt = (lane 8 0 x ++ lane 8 1 x).toInt

/-- No lane of a signed form overflows; an ARM instruction that saturates to the fewest bits has
    nothing to do; the byte that gives the sign is zero. -/
def MediaOp.Fits : MediaOp → Prop
  | .parallel .s h a b => ∀ n, n < 32 / h.width →
      -2 ^ (h.width - 1) ≤ h.exact .s a b n ∧ h.exact .s a b n < 2 ^ (h.width - 1)
  | .armSat insn rm => armSatBits insn = 0 →
      satExact (insn.getLsbD 22) 0 (armSatOperand insn rm) = armSatOperand insn rm
  | .armSat16 insn rm => armSatBits insn = 0 →
      ∀ n, n < 2 → satExact (insn.getLsbD 22) 0 (lane 16 n rm).toInt = (lane 16 n rm).toInt
  | .revsh x => lane 8 0 x = 0
  | _ => True

section

variable {w : Nat} {m : AddsubMacros} {f : MediaForm} {h : MediaHelper} {a b : Word}

/-! ### The helpers -/

/-- The macro for a lane. -/
def AddsubMacros.laneMacro (m : AddsubMacros) : (h : MediaHelper) → LaneOp →
    BitVec h.width → BitVec h.width → BitVec h.width × Bool
  | .add8, .add | .sub8, .add => m.add8
  | .add8, .sub | .sub8, .sub => m.sub8
  | .add16, .add | .sub16, .add | .subaddx, .add | .addsubx, .add => m.add16
  | .add16, .sub | .sub16, .sub | .subaddx, .sub | .addsubx, .sub => m.sub16

/-- The GE bits of a lane. -/
def MediaHelper.geBits (h : MediaHelper) (n : Nat) : Word :=
  if h.width = 8 then (1 : Word) <<< n else (3 : Word) <<< (n * 2)

/-- Lanes one after the other. -/
def packLanes (bits : Nat → Word) (r : Nat → BitVec w × Bool) : Nat → MediaRes
  | 0 => ⟨0, 0⟩
  | n + 1 => (packLanes bits r n).result n (bits n) (r n)

/-- The lanes of a packed result. -/
theorem lane_packLanes (bits : Nat → Word) (r : Nat → BitVec w × Bool) {k : Nat} (hk : k * w ≤ 32)
    (i : Nat) : lane w i (packLanes bits r k).res = if i < k then (r i).1 else 0 := by
  induction k with
  | zero => simp [packLanes]
  | succ k ih =>
    have hk' : k * w ≤ 32 := (Nat.mul_le_mul_right w (Nat.le_succ k)).trans hk
    simp only [packLanes, MediaRes.result, lane_or, ih hk']
    rcases Nat.lt_trichotomy i k with hlt | rfl | hgt
    · rw [if_pos hlt, if_pos (by omega), lane_inLane_of_ne hlt.ne]
      simp
    · rw [if_neg (lt_irrefl i), if_pos (by omega), lane_inLane_self hk]
      simp
    · rw [if_neg (by omega), if_neg (by omega), lane_inLane_of_ne hgt.ne']
      simp

/-- A GE flag is set by a lane that it belongs to. -/
theorem packLanes_ge (bits : Nat → Word) (r : Nat → BitVec w × Bool) (k j : Nat) :
    (packLanes bits r k).ge.getLsbD j = true ↔
      ∃ i, i < k ∧ (r i).2 = true ∧ (bits i).getLsbD j = true := by
  induction k with
  | zero => simp [packLanes]
  | succ k ih =>
    simp only [packLanes, MediaRes.result]
    constructor
    · intro hbit
      split_ifs at hbit with hr
      · rcases Bool.or_eq_true_iff.mp (by rwa [BitVec.getLsbD_or] at hbit) with hold | hnew
        · obtain ⟨i, hi, hri⟩ := ih.mp hold
          exact ⟨i, by omega, hri⟩
        · exact ⟨k, by omega, hr, hnew⟩
      · obtain ⟨i, hi, hri⟩ := ih.mp hbit
        exact ⟨i, by omega, hri⟩
    · rintro ⟨i, hi, hri, hbit⟩
      rcases Nat.lt_succ_iff_lt_or_eq.mp hi with hlt | rfl
      · have hold := ih.mpr ⟨i, hlt, hri, hbit⟩
        split_ifs <;> simp [hold]
      · rw [if_pos hri]
        simp [hbit]

theorem body_eq (m : AddsubMacros) (h : MediaHelper) (a b : Word) :
    m.body a b h = packLanes h.geBits (fun n =>
      m.laneMacro h (h.laneOp n).1 (lane h.width n a) (lane h.width (h.laneOp n).2 b))
        (32 / h.width) := by
  cases h
  all_goals simp [
    AddsubMacros.body, packLanes, MediaHelper.laneOp, MediaHelper.width, MediaHelper.geBits,
    AddsubMacros.laneMacro, MediaRes.result16, MediaRes.result8, lane]

theorem geBits_getLsbD {i j : Nat} (hi : i < 32 / h.width) (hj : j < 4) :
    (h.geBits i).getLsbD j = decide (i = 8 * j / h.width) := by
  have hw : h.width = 8 ∨ h.width = 16 := by cases h <;> simp [MediaHelper.width]
  rcases hw with hw | hw
  all_goals
    rw [hw] at hi ⊢
    simp only [MediaHelper.geBits, hw]
    norm_num at hi
    interval_cases i <;> interval_cases j <;> decide

end

section

variable {w : Nat} {op : LaneOp}

/-! ### The macros -/

/-- The operation on words. -/
def LaneOp.bv (op : LaneOp) {w : Nat} (a b : BitVec w) : BitVec w :=
  match op with
  | .add => a + b
  | .sub => a - b

theorem LaneOp.bv_ofInt (op : LaneOp) (x y : Int) :
    op.bv (BitVec.ofInt w x) (BitVec.ofInt w y) = BitVec.ofInt w (op.exact x y) := by
  cases op with
  | add => exact (BitVec.ofInt_add x y).symm
  | sub => exact (ofInt_sub x y).symm

theorem LaneOp.bv_eq (op : LaneOp) (a b : BitVec w) :
    op.bv a b = BitVec.ofInt w (op.exact a.toInt b.toInt) := by
  rw [← LaneOp.bv_ofInt, BitVec.ofInt_toInt, BitVec.ofInt_toInt]

theorem LaneOp.exact_bounds (op : LaneOp) (hw : w ≤ 30) (a b : BitVec w) :
    -2 ^ 31 ≤ op.exact a.toInt b.toInt ∧ op.exact a.toInt b.toInt < 2 ^ 31 := by
  have hpow : (2 : Int) ^ (w - 1) ≤ 2 ^ 29 := pow_le_pow_right₀ (by decide) (by omega)
  have ha := BitVec.le_toInt a
  have ha' := BitVec.toInt_lt (x := a)
  have hb := BitVec.le_toInt b
  have hb' := BitVec.toInt_lt (x := b)
  cases op <;> simp only [LaneOp.exact] <;> omega

theorem sarith_eq (op : LaneOp) (hw : w ≤ 32) (a b : BitVec w) :
    sarith op.bv a b = (BitVec.ofInt w (op.exact a.toInt b.toInt),
      decide (0 ≤ (BitVec.ofInt w (op.exact a.toInt b.toInt)).toInt)) := by
  rw [sarith, setWidth_signExtend hw, LaneOp.bv_eq, BitVec.toInt_signExtend_of_le hw]

/-- The unsigned sum, and its carry. -/
theorem uadd_eq (hw : w ≤ 30) (a b : BitVec w) :
    uadd a b = (BitVec.ofInt w (a.toNat + b.toNat),
      decide ((2 : Int) ^ w ≤ a.toNat + b.toNat)) := by
  have hpow : 2 ^ w ≤ 2 ^ 30 := Nat.pow_le_pow_right (by decide) hw
  have hcast := two_pow_cast w
  have ha := a.isLt
  have hb := b.isLt
  refine Prod.ext ?_ ?_
  · show (a.setWidth 32 + b.setWidth 32).setWidth w = _
    rw [setWidth_eq_ofInt 32 a, setWidth_eq_ofInt 32 b, ← BitVec.ofInt_add,
      setWidth_ofInt (by omega)]
  · show ((a.setWidth 32 + b.setWidth 32) >>> w == 1) = _
    have hsum : (a.setWidth 32 + b.setWidth 32 : Word).toNat = a.toNat + b.toNat := by
      rw [BitVec.toNat_add, BitVec.toNat_setWidth, BitVec.toNat_setWidth]
      omega
    rw [beq_eq_decide, decide_eq_decide, ← BitVec.toNat_inj, BitVec.toNat_ushiftRight, hsum,
      Nat.shiftRight_eq_div_pow]
    show _ = 1 ↔ _
    rw [Nat.div_eq_iff (by positivity)]
    omega

/-- The unsigned difference, and whether nothing was borrowed. -/
theorem usub_eq (hw : w ≤ 30) (a b : BitVec w) :
    usub a b = (BitVec.ofInt w (a.toNat - b.toNat), decide ((0 : Int) ≤ a.toNat - b.toNat)) := by
  have hpow : 2 ^ w ≤ 2 ^ 30 := Nat.pow_le_pow_right (by decide) hw
  have ha := a.isLt
  have hb := b.isLt
  refine Prod.ext ?_ ?_
  · show (a.setWidth 32 - b.setWidth 32).setWidth w = _
    rw [setWidth_eq_ofInt 32 a, setWidth_eq_ofInt 32 b, ← ofInt_sub, setWidth_ofInt (by omega)]
  · show ((a.setWidth 32 - b.setWidth 32) >>> w == 0) = _
    -- a borrow leaves the high bits set
    have hdiff : (a.setWidth 32 - b.setWidth 32 : Word).toNat =
        if b.toNat ≤ a.toNat then a.toNat - b.toNat else 2 ^ 32 + a.toNat - b.toNat := by
      rw [BitVec.toNat_sub, BitVec.toNat_setWidth, BitVec.toNat_setWidth]
      split_ifs <;> omega
    rw [beq_eq_decide, decide_eq_decide, ← BitVec.toNat_inj, BitVec.toNat_ushiftRight, hdiff,
      Nat.shiftRight_eq_div_pow]
    show _ = 0 ↔ _
    rw [Nat.div_eq_zero_iff]
    split_ifs <;> omega

theorem shalve_eq (op : LaneOp) (hw : w ≤ 30) (a b : BitVec w) :
    shalve op.bv a b = (BitVec.ofInt w (op.exact a.toInt b.toInt / 2), false) := by
  obtain ⟨hlow, hhigh⟩ := op.exact_bounds hw a b
  rw [shalve, signExtend_eq_ofInt, signExtend_eq_ofInt, LaneOp.bv_ofInt,
    sshiftRight_ofInt (by decide) 1 hlow hhigh, setWidth_ofInt (by omega), pow_one]

theorem uhalve_eq (op : LaneOp) (hw : w ≤ 30) (a b : BitVec w) :
    uhalve op.bv a b = (BitVec.ofInt w (op.exact a.toNat b.toNat / 2), false) := by
  rw [uhalve, setWidth_eq_ofInt 32 a, setWidth_eq_ofInt 32 b, LaneOp.bv_ofInt,
    setWidth_ushiftRight_ofInt (by omega), pow_one]

theorem addSat_eq (hw : 0 < w) (a b : BitVec w) :
    addSat (BitVec.intMin w) (BitVec.intMax w) a b =
      BitVec.ofInt w (clampS w (a.toInt + b.toInt)) := by
  simp only [addSat, and_intMin_ne_zero_iff hw, add_sign_test, ofInt_clampS_add]

theorem subSat_eq (hw : 0 < w) (a b : BitVec w) :
    subSat (BitVec.intMin w) (BitVec.intMax w) a b =
      BitVec.ofInt w (clampS w (a.toInt - b.toInt)) := by
  simp only [subSat, and_intMin_ne_zero_iff hw, sub_sign_test, ofInt_clampS_sub]

theorem addUsat_eq (a b : BitVec w) :
    addUsat (BitVec.allOnes w) a b = BitVec.ofInt w (clampU w (a.toNat + b.toNat)) := by
  simp only [addUsat, ofInt_clampU_add]

theorem subUsat_eq (a b : BitVec w) :
    subUsat a b = BitVec.ofInt w (clampU w (a.toNat - b.toNat)) := by
  rw [subUsat, ofInt_clampU_sub]

/-- **The lanes are exact.** -/
theorem macro_lane (f : MediaForm) (h : MediaHelper) (op : LaneOp) (x y : BitVec h.width) :
    (f.macros.laneMacro h op x y).1 = f.lane h.width (op.exact (f.int x) (f.int y)) := by
  have hw : h.width ≤ 30 := by cases h <;> decide
  have hs := congrArg Prod.fst (sarith_eq op (by omega) x y)
  have hu := congrArg Prod.fst (uadd_eq hw x y)
  have hu' := congrArg Prod.fst (usub_eq hw x y)
  have hsh := congrArg Prod.fst (shalve_eq op hw x y)
  have huh := congrArg Prod.fst (uhalve_eq op hw x y)
  have hpos : 0 < h.width := by cases h <;> decide
  have hq := addSat_eq hpos x y
  have hq' := subSat_eq hpos x y
  have huq := addUsat_eq x y
  have huq' := subUsat_eq x y
  cases f with
  | s => cases h <;> cases op <;> exact hs
  | u =>
    cases op with
    | add => cases h <;> exact hu
    | sub => cases h <;> exact hu'
  | q =>
    cases op with
    | add => cases h <;> exact hq
    | sub => cases h <;> exact hq'
  | uq =>
    cases op with
    | add => cases h <;> exact huq
    | sub => cases h <;> exact huq'
  | sh => cases h <;> cases op <;> exact hsh
  | uh => cases h <;> cases op <;> exact huh

/-- The sign of a reduced integer is that of the integer if it fits, and only then. -/
theorem ofInt_nonneg_iff (hw : 0 < w) {e : Int} (hlow : -2 ^ w ≤ e) (hhigh : e < 2 ^ w) :
    (0 ≤ (BitVec.ofInt w e).toInt ↔ 0 ≤ e) ↔ -2 ^ (w - 1) ≤ e ∧ e < 2 ^ (w - 1) := by
  have hpow : (2 : Int) ^ w = 2 * 2 ^ (w - 1) := by
    rw [← pow_succ', Nat.sub_add_cancel hw]
  by_cases hfits : -2 ^ (w - 1) ≤ e ∧ e < 2 ^ (w - 1)
  · rw [BitVec.toInt_ofInt_eq_self hw hfits.1 hfits.2]
    exact iff_of_true Iff.rfl hfits
  -- the word is off by `2 ^ w`, to the other side of zero
  · refine iff_of_false (fun hsign => ?_) hfits
    have hword := BitVec.ofInt_toInt (x := BitVec.ofInt w e)
    have hlt := BitVec.toInt_lt (x := BitVec.ofInt w e)
    have hle := BitVec.le_toInt (BitVec.ofInt w e)
    rw [BitVec.toInt_ofInt, Int.bmod_def, two_pow_cast] at hlt hle hsign
    rcases lt_or_ge e 0 with hneg | hnonneg
    · have hrem : e % 2 ^ w = e + 2 ^ w ∨ e % 2 ^ w = 0 := by
        by_cases heq : e = -2 ^ w
        · right
          rw [heq]
          simp
        · left
          rw [← Int.add_emod_right, Int.emod_eq_of_lt (by omega) (by omega)]
      split_ifs at hsign <;> omega
    · rw [Int.emod_eq_of_lt hnonneg hhigh] at hsign
      split_ifs at hsign <;> omega

theorem LaneOp.exact_mem (op : LaneOp) (x y : BitVec w) :
    -2 ^ w ≤ op.exact x.toInt y.toInt ∧ op.exact x.toInt y.toInt < 2 ^ w := by
  have hx := BitVec.le_two_mul_toInt (x := x)
  have hx' := BitVec.two_mul_toInt_lt (x := x)
  have hy := BitVec.le_two_mul_toInt (x := y)
  have hy' := BitVec.two_mul_toInt_lt (x := y)
  cases op <;> simp only [LaneOp.exact] <;> omega

/-- **The GE bits.**  Those of the unsigned forms are right, those of the signed ones if the exact
    result fits. -/
theorem macro_ge (f : MediaForm) (hf : f.setsGe = true) (h : MediaHelper) (op : LaneOp)
    (x y : BitVec h.width) :
    (f.macros.laneMacro h op x y).2 = f.geSet h.width op (op.exact (f.int x) (f.int y)) ↔
      (f = .s → -2 ^ (h.width - 1) ≤ op.exact (f.int x) (f.int y) ∧
        op.exact (f.int x) (f.int y) < 2 ^ (h.width - 1)) := by
  have hw : h.width ≤ 30 := by cases h <;> decide
  have hpos : 0 < h.width := by cases h <;> decide
  cases f with
  | s =>
    have hs := congrArg Prod.snd (sarith_eq op (by omega) x y)
    have hlane : (MediaForm.s.macros.laneMacro h op x y).2 = (sarith op.bv x y).2 := by
      cases h <;> cases op <;> rfl
    have hint : op.exact (MediaForm.s.int x) (MediaForm.s.int y) = op.exact x.toInt y.toInt := rfl
    obtain ⟨hlow, hhigh⟩ := op.exact_mem x y
    rw [hlane, hs, hint]
    show decide _ = decide _ ↔ _
    rw [decide_eq_decide, ofInt_nonneg_iff hpos hlow hhigh]
    exact ⟨fun hfits _ => hfits, fun hfits => hfits rfl⟩
  | u =>
    refine iff_of_true ?_ (fun hs => nomatch hs)
    cases op with
    | add =>
      have hu := congrArg Prod.snd (uadd_eq hw x y)
      cases h <;> exact hu
    | sub =>
      have hu := congrArg Prod.snd (usub_eq hw x y)
      cases h <;> exact hu
  | _ => nomatch hf

/-! ### The helpers on words -/

/-- What a helper computes in a lane. -/
def MediaForm.laneResult (f : MediaForm) (h : MediaHelper) (a b : Word) (n : Nat) :
    BitVec h.width × Bool :=
  f.macros.laneMacro h (h.laneOp n).1 (Lib.lane h.width n a) (Lib.lane h.width (h.laneOp n).2 b)

theorem helper_lane (f : MediaForm) (h : MediaHelper) (ge a b : Word) {n : Nat}
    (hn : n < 32 / h.width) :
    lane h.width n (f.macros.helper h ge a b).res = f.lane h.width (h.exact f a b n) := by
  have hfit : 32 / h.width * h.width ≤ 32 := Nat.div_mul_le_self 32 h.width
  show lane h.width n (f.macros.body a b h).res = _
  rw [body_eq, lane_packLanes _ _ hfit, if_pos hn]
  exact macro_lane f h _ _ _

/-- A GE flag of a helper is that of the lane it belongs to. -/
theorem helper_ge (f : MediaForm) (hf : f.setsGe = true) (h : MediaHelper) (ge a b : Word) {j : Nat}
    (hj : j < 4) :
    (f.macros.helper h ge a b).ge.getLsbD j = (f.laneResult h a b (8 * j / h.width)).2 := by
  have harith : f.macros.arithGe = true := by
    cases f with
    | s | u => rfl
    | _ => nomatch hf
  have hlane : 8 * j / h.width < 32 / h.width := by
    cases h <;> simp only [MediaHelper.width] <;> omega
  show (if f.macros.arithGe then (f.macros.body a b h).ge else ge).getLsbD j = _
  rw [if_pos harith, body_eq, Bool.eq_iff_iff, packLanes_ge]
  constructor
  · rintro ⟨i, hi, hr, hbit⟩
    rw [geBits_getLsbD hi hj, decide_eq_true_eq] at hbit
    exact hbit ▸ hr
  · intro hr
    exact ⟨_, hlane, hr, by rw [geBits_getLsbD hlane hj, decide_eq_true rfl]⟩

/-- The parallel additions and subtractions. -/
theorem parallel_exact_iff (f : MediaForm) (h : MediaHelper) (ge : Word) (qf : BitVec 1)
    (a b : Word) :
    (MediaOp.parallel f h a b).Exact ge qf ↔ (MediaOp.parallel f h a b).Fits := by
  have hlanes : ∀ n, n < 32 / h.width →
      lane h.width n (f.macros.helper h ge a b).res = f.lane h.width (h.exact f a b n) :=
    fun n hn => helper_lane f h ge a b hn
  by_cases hf : f.setsGe = true
  · have hge : (MediaOp.parallel f h a b).Exact ge qf ↔
        ∀ n, n < 32 / h.width → (f.laneResult h a b n).2 =
          f.geSet h.width (h.laneOp n).1 (h.exact f a b n) := by
      simp only [MediaOp.Exact, hf, if_true]
      constructor
      · rintro ⟨-, hbits⟩ n hn
        -- the lane has a byte
        obtain ⟨j, hj, rfl⟩ : ∃ j, j < 4 ∧ 8 * j / h.width = n := by
          refine ⟨n * h.width / 8, ?_, ?_⟩ <;>
            cases h <;> simp only [MediaHelper.width] at hn ⊢ <;> omega
        rw [← helper_ge f hf h ge a b hj]
        exact hbits j hj
      · intro hall
        refine ⟨hlanes, fun j hj => ?_⟩
        rw [helper_ge f hf h ge a b hj]
        refine hall _ ?_
        cases h <;> simp only [MediaHelper.width] <;> omega
    rw [hge]
    have hlane : ∀ n, (f.laneResult h a b n).2 =
        f.geSet h.width (h.laneOp n).1 (h.exact f a b n) ↔ (f = .s →
          -2 ^ (h.width - 1) ≤ h.exact f a b n ∧ h.exact f a b n < 2 ^ (h.width - 1)) :=
      fun n => macro_ge f hf h (h.laneOp n).1 _ _
    simp only [hlane]
    cases f with
    | s => exact ⟨fun hall n hn => hall n hn rfl, fun hall n hn _ => hall n hn⟩
    | u => exact iff_of_true (fun n _ hs => nomatch hs) trivial
    | _ => nomatch hf
  · have harith : f.macros.arithGe = false := by
      cases f with
      | s | u => exact absurd rfl hf
      | _ => rfl
    refine iff_of_true ⟨hlanes, ?_⟩ ?_
    · rw [if_neg hf]
      show (if f.macros.arithGe then _ else ge) = ge
      rw [harith]
      rfl
    · cases f with
      | s => exact absurd rfl hf
      | _ => trivial

end

section

variable {w shift : Nat} {qf : BitVec 1} {val x insn rm rn : Word} {unsigned : Bool} {e e' : Int}

/-! ### Saturation -/

theorem one_shiftLeft (h : shift ≤ 31) : ((1 : Word) <<< shift).toNat = 2 ^ shift := by
  have hpow : 2 ^ shift < 2 ^ 32 := Nat.pow_lt_pow_right (by decide) (by omega)
  rw [BitVec.toNat_shiftLeft, Nat.shiftLeft_eq, show BitVec.toNat (1 : Word) = 1 from rfl,
    Nat.one_mul, Nat.mod_eq_of_lt hpow]

theorem satMask_eq (h : shift ≤ 31) :
    (1 : Word) <<< shift - 1 = BitVec.ofInt 32 (2 ^ shift - 1) := by
  rw [ofInt_sub, ← two_pow_cast, ← one_shiftLeft h, ofInt_toNat]
  rfl

theorem satMask_not (h : shift ≤ 31) :
    ~~~((1 : Word) <<< shift - 1) = BitVec.ofInt 32 (-2 ^ shift) := by
  rw [satMask_eq h, BitVec.not_eq_neg_add, ← BitVec.zero_sub]
  show BitVec.ofInt 32 0 - _ - BitVec.ofInt 32 1 = _
  rw [← ofInt_sub, ← ofInt_sub]
  congr 1
  ring

theorem satMask_toNat (h : shift ≤ 31) : ((1 : Word) <<< shift - 1).toNat = 2 ^ shift - 1 := by
  have hone := one_shiftLeft h
  have hpos := Nat.two_pow_pos shift
  rw [BitVec.toNat_sub_of_le (BitVec.le_def.mpr (by rw [hone]; exact hpos)), hone]
  rfl

/-- What saturation returns: QF is set if the value changes. -/
def satRes (unsigned : Bool) (sh : Nat) (qf : BitVec 1) (e : Int) : SatRes where
  val := BitVec.ofInt 32 (satExact unsigned sh e)
  qf := if satExact unsigned sh e = e then qf else 1

theorem satRes_of_ne (h : satExact unsigned shift e = e') (hne : e' ≠ e) :
    satRes unsigned shift qf e = ⟨BitVec.ofInt 32 e', 1⟩ := by
  subst h
  rw [satRes, if_neg hne]

theorem satRes_of_eq (h : satExact unsigned shift e = e) :
    satRes unsigned shift qf e = ⟨BitVec.ofInt 32 e, qf⟩ := by
  rw [satRes, if_pos h, h]

/-- `do_ssat` -/
theorem doSsat_eq (qf : BitVec 1) (val : Word) (h : shift ≤ 31) :
    doSsat qf val shift = satRes false shift qf val.toInt := by
  have hpos : (0 : Int) < 2 ^ shift := by positivity
  have htop : (val.sshiftRight shift).toInt = val.toInt / 2 ^ shift := by
    rw [BitVec.toInt_sshiftRight, Int.shiftRight_eq_div_pow, two_pow_cast]
  have habove : 0 < val.toInt / 2 ^ shift ↔ 2 ^ shift ≤ val.toInt := by
    rw [Int.lt_iff_add_one_le, Int.le_ediv_iff_mul_le hpos]
    omega
  have hbelow : val.toInt / 2 ^ shift < -1 ↔ val.toInt < -2 ^ shift := by
    rw [Int.ediv_lt_iff_lt_mul hpos]
    omega
  simp only [doSsat, htop, habove, hbelow]
  split_ifs with hhigh hlow
  · have hclamp : satExact false shift val.toInt = 2 ^ shift - 1 := clampS_of_ge hhigh
    rw [satRes_of_ne hclamp (by omega), satMask_eq h]
  · have hclamp : satExact false shift val.toInt = -2 ^ shift := clampS_of_le hlow
    rw [satRes_of_ne hclamp (by omega), satMask_not h]
  · have hsame : satExact false shift val.toInt = val.toInt :=
      clampS_of_mem (not_lt.mp hlow) (not_le.mp hhigh)
    rw [satRes_of_eq hsame, BitVec.ofInt_toInt]

/-- `do_usat` -/
theorem doUsat_eq (qf : BitVec 1) (val : Word) (h : shift ≤ 31) :
    doUsat qf val shift = satRes true shift qf val.toInt := by
  have hcast := two_pow_cast shift
  have hpos := Nat.two_pow_pos shift
  have hnat : ¬ val.toInt < 0 → val.toInt = val.toNat := fun hneg =>
    BitVec.toInt_eq_toNat_of_msb (by rw [BitVec.msb_eq_toInt, decide_eq_false hneg])
  simp only [doUsat, BitVec.lt_def, satMask_toNat h]
  split_ifs with hneg hhigh
  · have hclamp : satExact true shift val.toInt = 0 := clampU_of_neg hneg
    rw [satRes_of_ne hclamp (by omega)]
    rfl
  · have hval := hnat hneg
    have hge : 2 ^ shift ≤ val.toInt := by omega
    have hclamp : satExact true shift val.toInt = 2 ^ shift - 1 := clampU_of_ge hge
    rw [satRes_of_ne hclamp (by omega), satMask_eq h]
  · have hval := hnat hneg
    have hlt : val.toInt < 2 ^ shift := by omega
    have hsame : satExact true shift val.toInt = val.toInt := clampU_of_mem (not_lt.mp hneg) hlt
    rw [satRes_of_eq hsame, BitVec.ofInt_toInt]

/-- The halves are saturated one by one. -/
theorem sat16_exact {sat : BitVec 1 → Word → Nat → SatRes} {sh : Word}
    (hsat : ∀ qf val, sat qf val sh.toNat = satRes unsigned sh.toNat qf val.toInt) :
    Sat16Exact unsigned sh.toNat x (sat16 sat qf x sh).val := by
  have hlow : ((x.setWidth 16).signExtend 32).toInt = (lane 16 0 x).toInt := by
    rw [BitVec.toInt_signExtend_of_le (by decide)]
    simp [lane]
  have hhigh : (x.sshiftRight 16).toInt = (lane 16 1 x).toInt := by
    rw [← BitVec.toInt_signExtend_of_le (x := lane 16 1 x) (v := 32) (by decide)]
    congr 1
    apply BitVec.eq_of_getLsbD_eq
    intro i hi
    rw [BitVec.getLsbD_sshiftRight, BitVec.getLsbD_signExtend]
    simp only [getLsbD_lane, BitVec.msb_eq_getLsbD_last]
    by_cases h16 : i < 16
    · simp [h16, show 16 + i < 32 by omega, hi]
    · simp [h16, show ¬ 16 + i < 32 by omega, hi]
  -- the two results are masked into their halves, so no bit of one reaches the other
  have hres : (sat16 sat qf x sh).val =
      inLane 32 0
          ((BitVec.ofInt 32 (satExact unsigned sh.toNat (lane 16 0 x).toInt)).setWidth 16) |||
        inLane 32 1
          ((BitVec.ofInt 32 (satExact unsigned sh.toNat (lane 16 1 x).toInt)).setWidth 16) := by
    simp only [sat16, hsat, hlow, hhigh]
    apply BitVec.eq_of_getLsbD_eq
    intro i hi
    simp only [BitVec.getLsbD_or, getLsbD_inLane, BitVec.getLsbD_setWidth, BitVec.getLsbD_shiftLeft]
    by_cases h16 : i < 16
    · simp [h16, hi, satRes]
    · simp [h16, hi, satRes, show i - 16 < 16 by omega]
  intro n hn
  rw [hres, lane_or, setWidth_ofInt (by decide), setWidth_ofInt (by decide)]
  interval_cases n
  · rw [lane_inLane_self (by decide), lane_inLane_of_ne (by decide)]
    simp
  · rw [lane_inLane_self (by decide), lane_inLane_of_ne (by decide)]
    simp

/-! ### What is emitted -/

theorem armSatBits_le (insn : Word) : armSatBits insn ≤ 31 := by
  rw [armSatBits, BitVec.toNat_and]
  exact Nat.and_le_right

theorem toInt_sshiftRight_div (x : Word) (n : Nat) : (x.sshiftRight n).toInt = x.toInt / 2 ^ n := by
  rw [BitVec.toInt_sshiftRight, Int.shiftRight_eq_div_pow, two_pow_cast]

theorem div_two_pow_32 (x : Word) : x.toInt / 2 ^ 31 = x.toInt / 2 ^ 32 := by
  have hlow := BitVec.le_toInt x
  have hhigh := BitVec.toInt_lt (x := x)
  omega

theorem ofInt_inj (hw : 0 < w) (h₁ : -2 ^ (w - 1) ≤ e) (h₂ : e < 2 ^ (w - 1))
    (h₁' : -2 ^ (w - 1) ≤ e')
    (h₂' : e' < 2 ^ (w - 1)) : BitVec.ofInt w e = BitVec.ofInt w e' ↔ e = e' := by
  refine ⟨fun h => ?_, congrArg _⟩
  rw [← BitVec.toInt_ofInt_eq_self hw h₁ h₂, h, BitVec.toInt_ofInt_eq_self hw h₁' h₂']

theorem satExact_zero_mem (unsigned : Bool) (e : Int) :
    -1 ≤ satExact unsigned 0 e ∧ satExact unsigned 0 e ≤ 0 := by
  cases unsigned with
  | true => simp only [satExact, clampU, if_true]; omega
  | false => simp only [satExact, clampS, Bool.false_eq_true, if_false]; norm_num

theorem unsaturated_exact_iff (hw : 2 ≤ w) (y : BitVec w) :
    y = BitVec.ofInt w (satExact unsigned 0 y.toInt) ↔ satExact unsigned 0 y.toInt = y.toInt := by
  have hpow : (2 : Int) ^ 1 ≤ 2 ^ (w - 1) := pow_le_pow_right₀ (by decide) (by omega)
  obtain ⟨hlow, hhigh⟩ := satExact_zero_mem unsigned y.toInt
  rw [eq_comm (a := y)]
  conv_lhs => rhs; rw [← BitVec.ofInt_toInt (x := y)]
  exact ofInt_inj (by omega) (by omega) (by omega) (BitVec.le_toInt y) BitVec.toInt_lt

/-- The operand that `disas_arm_insn` shifts. -/
def armSatTmp (insn rm : Word) : Word :=
  let shift := (insn >>> 7) &&& (0x1f : Word)
  if insn.getLsbD 6 then rm.sshiftRight (if shift = 0 then (31 : Word) else shift).toNat
  else rm <<< shift.toNat

/-- The operand of SSAT and USAT after its shift, as an integer. -/
theorem armSatTmp_toInt (insn rm : Word) : (armSatTmp insn rm).toInt = armSatOperand insn rm := by
  unfold armSatTmp armSatOperand
  have hzero : ((insn >>> 7) &&& (0x1f : Word) = 0) ↔
    ((insn >>> 7) &&& (0x1f : Word)).toNat = 0 := by
    rw [← BitVec.toNat_inj]
    rfl
  by_cases hsar : insn.getLsbD 6 = true
  · simp only [hsar, if_true]
    by_cases hshift : (insn >>> 7) &&& (0x1f : Word) = 0
    · rw [if_pos hshift, if_pos (hzero.mp hshift), toInt_sshiftRight_div]
      exact div_two_pow_32 rm
    · rw [if_neg hshift, if_neg (hzero.not.mp hshift), toInt_sshiftRight_div]
  · rw [if_neg hsar, if_neg hsar]

/-- SSAT and USAT. -/
theorem armSat_exact_iff (ge : Word) (qf : BitVec 1) (insn rm : Word) :
    (MediaOp.armSat insn rm).Exact ge qf ↔ (MediaOp.armSat insn rm).Fits := by
  have hsat : (armSat insn qf rm) =
      if (insn >>> 16) &&& (0x1f : Word) ≠ 0 then
        if insn.getLsbD 22 then usat qf (armSatTmp insn rm) ((insn >>> 16) &&& (0x1f : Word))
        else ssat qf (armSatTmp insn rm) ((insn >>> 16) &&& (0x1f : Word))
      else ⟨armSatTmp insn rm, qf⟩ := rfl
  have hbits := armSatBits_le insn
  show (armSat insn qf rm).val = _ ↔ (armSatBits insn = 0 → _)
  rw [hsat, ← armSatTmp_toInt]
  by_cases hsh : (insn >>> 16) &&& (0x1f : Word) = 0
  · have hzero : armSatBits insn = 0 := by rw [armSatBits, hsh]; rfl
    rw [if_neg (not_not.mpr hsh), hzero]
    exact (unsaturated_exact_iff (by decide) _).trans ⟨fun h _ => h, fun h => h rfl⟩
  · have hpos : armSatBits insn ≠ 0 := fun h0 => hsh (BitVec.eq_of_toNat_eq h0)
    rw [if_pos hsh]
    refine iff_of_true ?_ fun h0 => absurd h0 hpos
    cases insn.getLsbD 22 with
    | true => exact congrArg SatRes.val (doUsat_eq qf _ hbits)
    | false => exact congrArg SatRes.val (doSsat_eq qf _ hbits)

/-- SSAT16 and USAT16. -/
theorem armSat16_exact_iff (ge : Word) (qf : BitVec 1) (insn rm : Word) :
    (MediaOp.armSat16 insn rm).Exact ge qf ↔ (MediaOp.armSat16 insn rm).Fits := by
  have hbits := armSatBits_le insn
  show Sat16Exact _ _ _ (armSat16 insn qf rm).val ↔ (armSatBits insn = 0 → _)
  rw [armSat16]
  by_cases hsh : (insn >>> 16) &&& (0x1f : Word) = 0
  · have hzero : armSatBits insn = 0 := by rw [armSatBits, hsh]; rfl
    simp only [hsh, ne_eq, not_true_eq_false, if_false, hzero, Sat16Exact, true_imp_iff]
    exact forall₂_congr fun n _ => unsaturated_exact_iff (by decide) _
  · have hpos : armSatBits insn ≠ 0 := fun h0 => hsh (BitVec.eq_of_toNat_eq h0)
    simp only [hsh, ne_eq, not_false_eq_true, if_true]
    refine iff_of_true ?_ fun h0 => absurd h0 hpos
    cases insn.getLsbD 22 with
    | true => exact sat16_exact fun qf val => doUsat_eq qf val hbits
    | false => exact sat16_exact fun qf val => doSsat_eq qf val hbits

/-- The saturations of Thumb-2 are exact. -/
theorem thumbSat_exact (ge : Word) (qf : BitVec 1) (insn rn : Word) :
    (MediaOp.thumbSat insn rn).Exact ge qf := by
  have hbits : (insn &&& (0x1f : Word)).toNat ≤ 31 := by
    rw [BitVec.toNat_and]
    exact Nat.and_le_right
  have h0 : ((insn >>> 21) &&& (7 : Word)).getLsbD 0 = insn.getLsbD 21 := by simp
  have h2 : ((insn >>> 21) &&& (7 : Word)).getLsbD 2 = insn.getLsbD 23 := by simp
  simp only [MediaOp.Exact, thumbSat, h0, h2]
  by_cases h16 : insn.getLsbD 21 = true ∧ thumbSatShift insn = 0
  -- the halfwords
  · simp only [h16.1, h16.2, and_self, ne_eq, not_true_eq_false, if_true, if_false]
    cases insn.getLsbD 23 with
    | true => exact sat16_exact fun qf val => doUsat_eq qf val hbits
    | false => exact sat16_exact fun qf val => doSsat_eq qf val hbits
  -- one word, shifted; a shift of zero does nothing
  · have htmp : (if thumbSatShift insn ≠ 0 then
        (if insn.getLsbD 21 then rn.sshiftRight (thumbSatShift insn).toNat
          else rn <<< (thumbSatShift insn).toNat) else rn).toInt = thumbSatOperand insn rn := by
      unfold thumbSatOperand
      by_cases hshift : thumbSatShift insn = 0
      · simp [hshift]
      · cases insn.getLsbD 21 with
        | true => rw [if_pos hshift, if_pos rfl, if_pos rfl, toInt_sshiftRight_div]
        | false => rw [if_pos hshift]; rfl
    rw [if_neg h16, if_neg h16, ← htmp, if_neg h16]
    cases insn.getLsbD 23 with
    | true => exact congrArg SatRes.val (doUsat_eq qf _ hbits)
    | false => exact congrArg SatRes.val (doSsat_eq qf _ hbits)

theorem doUsad_toNat (a b : BitVec 8) :
    ((doUsad a b).toNat : Int) = |(a.toNat : Int) - b.toNat| := by
  unfold doUsad
  split_ifs with hlt
  · rw [BitVec.lt_def] at hlt
    rw [BitVec.toNat_sub_of_le (BitVec.le_def.mpr hlt.le), abs_of_nonneg (by omega)]
    omega
  · rw [BitVec.lt_def, not_lt] at hlt
    rw [BitVec.toNat_sub_of_le (BitVec.le_def.mpr hlt), abs_of_nonpos (by omega)]
    omega

/-- USAD8 and USADA8 are exact. -/
theorem usad8_exact (ge : Word) (qf : BitVec 1) (a b : Word) : (MediaOp.usad8 a b).Exact ge qf := by
  show ((usad8 a b).toNat : Int) = _
  have hbyte : ∀ v : BitVec 8, (v.setWidth 32).toNat = v.toNat := fun v => by
    rw [BitVec.toNat_setWidth]
    have := v.isLt
    omega
  have hlane : ∀ i, (lane 8 i a).toNat ≤ 255 ∧ (doUsad (lane 8 i a) (lane 8 i b)).toNat ≤ 255 :=
    fun i => ⟨Nat.le_of_lt_succ (lane 8 i a).isLt, Nat.le_of_lt_succ (doUsad _ _).isLt⟩
  have hsum : usad8 a b = (doUsad (lane 8 0 a) (lane 8 0 b)).setWidth 32 +
      (doUsad (lane 8 1 a) (lane 8 1 b)).setWidth 32 +
      (doUsad (lane 8 2 a) (lane 8 2 b)).setWidth 32 +
      (doUsad (lane 8 3 a) (lane 8 3 b)).setWidth 32 := by
    simp [usad8, lane]
  obtain ⟨-, h0⟩ := hlane 0
  obtain ⟨-, h1⟩ := hlane 1
  obtain ⟨-, h2⟩ := hlane 2
  obtain ⟨-, h3⟩ := hlane 3
  simp only [Finset.sum_range_succ, Finset.sum_range_zero, ← doUsad_toNat, zero_add]
  rw [hsum, BitVec.toNat_add, BitVec.toNat_add, BitVec.toNat_add, hbyte, hbyte, hbyte, hbyte]
  omega

theorem rev16_exact (ge : Word) (qf : BitVec 1) (x : Word) : (MediaOp.rev16 x).Exact ge qf := by
  intro i hi
  interval_cases i
  all_goals
    refine ⟨BitVec.eq_of_getLsbD_eq fun j hj => ?_, BitVec.eq_of_getLsbD_eq fun j hj => ?_⟩
    all_goals
      simp only [getLsbD_lane, genRev16]
      interval_cases j <;> simp

theorem genRevsh_eq (x : Word) : genRevsh x = (lane 8 1 x).setWidth 32 := by
  apply BitVec.eq_of_getLsbD_eq
  intro j hj
  simp only [genRevsh, ext8s, BitVec.getLsbD_or, BitVec.getLsbD_signExtend, BitVec.getLsbD_setWidth,
    getLsbD_lane, BitVec.msb_eq_getLsbD_last]
  interval_cases j <;> simp

/-- REVSH, which sign-extends a byte. -/
theorem revsh_exact_iff (ge : Word) (qf : BitVec 1) (x : Word) :
    (MediaOp.revsh x).Exact ge qf ↔ (MediaOp.revsh x).Fits := by
  show (genRevsh x).toInt = (lane 8 0 x ++ lane 8 1 x).toInt ↔ lane 8 0 x = 0
  have hhigh := (lane 8 1 x).isLt
  have hres : (genRevsh x).toInt = (lane 8 1 x).toNat := by
    rw [genRevsh_eq, BitVec.toInt_setWidth]
    exact Int.bmod_eq_of_le (by omega) (by omega)
  have happ : (lane 8 0 x ++ lane 8 1 x).toInt = 2 ^ 8 * (lane 8 0 x).toInt + (lane 8 1 x).toNat :=
    BitVec.toInt_append
  have hzero : lane 8 0 x = 0 ↔ (lane 8 0 x).toInt = 0 := by
    rw [← BitVec.toInt_inj]
    rfl
  rw [hres, happ, hzero]
  omega

end

/-- **The media operations.**  An operation is exact if and only if it fits. -/
theorem media_exact (ge : Word) (qf : BitVec 1) (op : MediaOp) : op.Exact ge qf ↔ op.Fits := by
  cases op with
  | parallel f h a b => exact parallel_exact_iff f h ge qf a b
  | armSat insn rm => exact armSat_exact_iff ge qf insn rm
  | armSat16 insn rm => exact armSat16_exact_iff ge qf insn rm
  | thumbSat insn rn => exact iff_of_true (thumbSat_exact ge qf insn rn) trivial
  | usad8 a b => exact iff_of_true (usad8_exact ge qf a b) trivial
  | rev16 x => exact iff_of_true (rev16_exact ge qf x) trivial
  | revsh x => exact revsh_exact_iff ge qf x

/-- `SADD16` of 32767 and 1 is 32768, without GE; `SSAT` of 5 to one bit is 5; `REVSH` of 0x80 is
    zero. -/
theorem media_exact_lost :
    (MediaHelper.add16.exact .s 0x7fff 1 0 = 32768 ∧
      (sMacros.helper .add16 0 0x7fff 1).ge.getLsbD 0 = false) ∧
    (satExact false 0 (armSatOperand 0xe6a00010 5) = 0 ∧ (armSat 0xe6a00010 0 5).val = 5) ∧
    ((lane 8 0 (0x80 : Word) ++ lane 8 1 (0x80 : Word)).toInt = -32768 ∧
      (genRevsh 0x80).toInt = 0) := by
  decide

end Qemu.Arm
