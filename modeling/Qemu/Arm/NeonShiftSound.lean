import Qemu.Arm.NeonShiftSat

namespace Qemu.Arm

open Lib

/-!
# Shifts of Neon lanes are exact

* `NeonShift.helper_lanes` — a helper is the function of its lanes;
* `neonShift_exact_iff` — the helpers give what is expected of the lanes that they meet, and of no
  others.
-/

/-- **Helpers are functions of lanes,** which are settled. -/
theorem NeonShift.helper_lanes (h : NeonShift) :
    ∃ fn : BitVec h.width.bits → BitVec h.width.bits → Option (BitVec h.width.bits × Bool),
      (∀ vfp arg1 arg2, h.helper vfp arg1 arg2 = neonLanes h.width.word
        (fun i => fn (lane h.width.bits i arg1) (lane h.width.bits i arg2))
        (List.range h.width.lanes) vfp) ∧
      ∀ src1 src2, LaneSettles (fn src1 src2) (h.op.expected h.signed src1 src2)
        (h.op.Meets h.signed h.width.bits (intOf h.signed src1) (shiftCount src2)) := by
  have hlane : ∀ x : BitVec 64, lane 64 0 x = x := by simp [lane]
  have hval : ∀ (fn : BitVec 64 → BitVec 64 → Option (BitVec 64 × Bool)) vfp arg1 arg2,
      neonVal (fn arg1 arg2) vfp = neonLanes 64
        (fun i => fn (lane 64 i arg1) (lane 64 i arg2)) (List.range 1) vfp := by
    intro fn vfp arg1 arg2
    rw [neonVal_eq]
    simp only [List.range_one, neonLanes, hlane]
  obtain ⟨op, signed, width⟩ := h
  cases op <;> cases signed <;> cases width
  case shl.false.b8 | shl.false.b16 | shl.false.b32 =>
    exact ⟨_, fun _ _ _ => rfl, fun _ _ => neonShlU_settles (by decide) (by decide)⟩
  case shl.true.b8 | shl.true.b16 | shl.true.b32 =>
    exact ⟨_, fun _ _ _ => rfl, fun _ _ => neonShlS_settles (by decide) (by decide)⟩
  case rshl.false.b8 | rshl.false.b16 | rshl.false.b32 =>
    exact ⟨_, fun _ _ _ => rfl, fun _ _ => neonRshlU_settles (by decide) (by decide)⟩
  case rshl.true.b8 | rshl.true.b16 | rshl.true.b32 =>
    exact ⟨_, fun _ _ _ => rfl, fun _ _ => neonRshlS_settles (by decide) (by decide)⟩
  case qshl.false.b8 | qshl.false.b16 | qshl.false.b32 =>
    exact ⟨_, fun _ _ _ => rfl, fun _ _ => neonQshlU_settles (by decide) (by decide)⟩
  case qshl.true.b8 | qshl.true.b16 | qshl.true.b32 =>
    exact ⟨_, fun _ _ _ => rfl, fun _ _ => neonQshlS_settles (by decide) (by decide)⟩
  case qrshl.false.b8 | qrshl.false.b16 | qrshl.false.b32 =>
    exact ⟨_, fun _ _ _ => rfl, fun _ _ => qrshl_settles (by decide) (by decide) rfl⟩
  case qrshl.true.b8 | qrshl.true.b16 | qrshl.true.b32 =>
    exact ⟨_, fun _ _ _ => rfl, fun src1 _ =>
      qrshl_settles (by decide) (by decide) (satValue_sign (by decide) (by decide) src1)⟩
  -- the bodies of 64 bits
  case shl.false.b64 => exact ⟨_, hval _, fun _ _ => neonShlU_settles (by decide) (by decide)⟩
  case shl.true.b64 => exact ⟨_, hval _, fun _ _ => neonShlS_settles (by decide) (by decide)⟩
  case rshl.false.b64 => exact ⟨_, hval _, rshlU64_settles⟩
  case rshl.true.b64 => exact ⟨_, hval _, rshlS64_settles⟩
  case qshl.false.b64 => exact ⟨_, hval _, fun _ _ => neonQshlU_settles (by decide) (by decide)⟩
  case qshl.true.b64 => exact ⟨_, hval _, qshlS64_settles⟩
  case qrshl.false.b64 => exact ⟨_, hval _, fun _ _ => qrshl64_settles rfl⟩
  case qrshl.true.b64 => exact ⟨_, hval _, fun src1 _ => qrshl64_settles (satValue_shr src1)⟩

/-- A helper is defined, its lanes are what is expected, and QC is set if one is clamped. -/
def NeonShift.Exact (h : NeonShift) (vfp : Vfp) (arg1 arg2 : BitVec h.width.word) : Prop :=
  ∃ r vfp', h.helper vfp arg1 arg2 = some (r, vfp') ∧
    (∀ i, i < h.width.lanes → lane h.width.bits i r =
      (h.op.expected h.signed (lane h.width.bits i arg1) (lane h.width.bits i arg2)).1) ∧
    vfp'.qc = (vfp.qc || (List.range h.width.lanes).any fun i =>
      (h.op.expected h.signed (lane h.width.bits i arg1) (lane h.width.bits i arg2)).2)

/-- **Shifts are exact** if and only if all lanes are among those that the helper meets. -/
theorem neonShift_exact_iff (h : NeonShift) (vfp : Vfp) (arg1 arg2 : BitVec h.width.word) :
    h.Exact vfp arg1 arg2 ↔ ∀ i, i < h.width.lanes →
      h.op.Meets h.signed h.width.bits (intOf h.signed (lane h.width.bits i arg1))
        (shiftCount (lane h.width.bits i arg2)) := by
  obtain ⟨fn, hfn, hsettles⟩ := h.helper_lanes
  have hfit : h.width.lanes * h.width.bits ≤ h.width.word := by
    cases h.width <;> decide
  unfold NeonShift.Exact
  simp only [hfn]
  exact neonLanes_right_iff hfit fun i _ => hsettles _ _

/-- A byte that is shifted out by `qshl_s8` is clamped to zero. -/
theorem neonShift_exact_lost :
    ¬(⟨.qshl, true, .b8⟩ : NeonShift).Exact fpscrRunInit.vfp (1 : Word) (8 : Word) := by
  rintro ⟨r, vfp', hrun, hlanes, -⟩
  have hres : (neonQshlS8 fpscrRunInit.vfp 1 8).map (fun x => lane 8 0 x.1) = some (0 : Byte) := by
    decide
  have hlane := hlanes 0 (by decide)
  change neonQshlS8 fpscrRunInit.vfp 1 8 = some (r, vfp') at hrun
  rw [hrun] at hres
  have hexpected : (NeonShiftOp.qshl.expected true (lane 8 0 (1 : Word)) (lane 8 0 (8 : Word))).1 =
      (127 : Byte) := by
    show (NeonShiftOp.qshl.result true 8 (scaled false 1 (8 : Nat))).1 = _
    rw [scaled_natCast]
    decide
  exact absurd ((hlane.trans hexpected).symm.trans (Option.some.inj hres))
    (show ¬(127 : Byte) = 0 by decide)

end Qemu.Arm
