import Qemu.Arm.Fpscr
import Qemu.Lib.CInt
import Qemu.Lib.Lanes

namespace Qemu.Arm

open Lib

/-!
# The templates of the Neon helpers (`target-arm/neon_helper.c`)

* `neonLanes`, `neonVop` — the function of a lane, for the lanes in turn;
* `neonVal` — a helper of a whole value;
* `LaneSettles.of_meets`, `LaneSettles.of_fault`, `LaneSettles.of_ne` — the ways in which a lane is
  settled;
* `neonLanes_eq`, `lane_neonResult` — the lanes that come out;
* `neonLanes_right_iff` — a helper is right if and only if its lanes are.
-/

/-- `NEON_FN` for the lanes in turn: the value of a lane, and whether `SET_QC` is executed.  What C
    does not define is `none`. -/
def neonLanes {w : Nat} (W : Nat) (fn : Nat → Option (BitVec w × Bool)) :
    List Nat → Vfp → Option (BitVec W × Vfp)
  | [], vfp => some (0, vfp)
  | i :: is, vfp => do
    let (dest, sat) ← fn i
    let (res, vfp) ← neonLanes W fn is (if sat then setQc vfp else vfp)
    some (inLane W i dest ||| res, vfp)

/-- `NEON_VOP`, `NEON_VOP_ENV` -/
def neonVop {w : Nat} (fn : BitVec w → BitVec w → Option (BitVec w × Bool)) (n : Nat) (vfp : Vfp)
    (arg1 arg2 : Word) : Option (Word × Vfp) :=
  neonLanes 32 (fun i => fn (lane w i arg1) (lane w i arg2)) (List.range n) vfp

/-- The helpers of 64 bits, which have no lanes. -/
def neonVal {W : Nat} (res : Option (BitVec W × Bool)) (vfp : Vfp) : Option (BitVec W × Vfp) := do
  let (val, sat) ← res
  some (val, if sat then setQc vfp else vfp)

/-- Helpers take lanes in words of 32 bits, or one in a value of 64. -/
inductive NeonWidth
  | b8 | b16 | b32 | b64
deriving DecidableEq, Repr

/-- The width of a lane. -/
def NeonWidth.bits : NeonWidth → Nat
  | .b8 => 8
  | .b16 => 16
  | .b32 => 32
  | .b64 => 64

/-- The width of the operand of a helper. -/
def NeonWidth.word : NeonWidth → Nat
  | .b64 => 64
  | _ => 32

/-- The number of lanes in an operand. -/
def NeonWidth.lanes (w : NeonWidth) : Nat := w.word / w.bits

/-- QC of the FPSCR -/
def Vfp.qc (vfp : Vfp) : Bool := (vfp.xregs armVfpFpscr).getLsbD 27

/-- A lane is right if and only if the condition holds; what it does to QC is right if its value
    is. -/
structure LaneSettles {w : Nat} (res : Option (BitVec w × Bool)) (right : BitVec w × Bool)
    (c : Prop) : Prop where
  meets : c → res = some right
  only : ∀ sat, res = some (right.1, sat) → c

/-- The lanes, and `SET_QC` if one executes it. -/
def neonResult {w : Nat} (W : Nat) (g : Nat → BitVec w × Bool) (is : List Nat) (vfp : Vfp) :
    BitVec W × Vfp :=
  (ofLanes W (is.map fun i => (i, (g i).1)), if is.any (fun i => (g i).2) then setQc vfp else vfp)

section

variable {w W n : Nat} {fn : Nat → Option (BitVec w × Bool)} {g : Nat → BitVec w × Bool}
  {is : List Nat} {vfp vfp' : Vfp} {r : BitVec W}

/-! ### Settling a lane -/

variable {c : Prop} {res : Option (BitVec w × Bool)} {right : BitVec w × Bool}

theorem LaneSettles.of_meets (hc : c) (h : res = some right) : LaneSettles res right c :=
  ⟨fun _ => h, fun _ _ => hc⟩

theorem LaneSettles.of_fault (hc : ¬c) (h : res = none) : LaneSettles res right c :=
  ⟨fun hc' => absurd hc' hc, fun _ hres => by simp [h] at hres⟩

theorem LaneSettles.of_ne {d : BitVec w × Bool} (hc : ¬c) (h : res = some d) (hne : d.1 ≠ right.1) :
    LaneSettles res right c :=
  ⟨fun hc' => absurd hc' hc, fun sat hres =>
    absurd (by rw [Option.some.inj (h.symm.trans hres)]) hne⟩

/-! ### Lanes in turn -/

theorem setQc_setQc (vfp : Vfp) : setQc (setQc vfp) = setQc vfp := by
  unfold setQc
  rw [Function.update_idem]

theorem qc_setQc (vfp : Vfp) : (setQc vfp).qc = true := by
  rw [Vfp.qc, setQc_word]
  decide

/-- **What comes out** if all lanes do. -/
theorem neonLanes_eq (h : ∀ i ∈ is, fn i = some (g i)) :
    neonLanes W fn is vfp = some (neonResult W g is vfp) := by
  induction is generalizing vfp with
  | nil => rfl
  | cons i is ih =>
    have hrest : neonLanes W fn is (if (g i).2 then setQc vfp else vfp) =
        some (neonResult W g is (if (g i).2 then setQc vfp else vfp)) :=
      ih fun j hj => h j (List.mem_cons_of_mem _ hj)
    rw [neonLanes, h i List.mem_cons_self]
    simp only [Option.bind_eq_bind, Option.bind_some, hrest]
    refine congrArg some (Prod.ext rfl ?_)
    simp only [neonResult, List.any_cons]
    by_cases hsat : (g i).2 = true <;> by_cases hrest : (is.any fun i => (g i).2) = true
    all_goals simp [hsat, hrest, setQc_setQc]

theorem neonLanes_isSome (h : neonLanes W fn is vfp = some (r, vfp')) :
    ∀ i ∈ is, ∃ d, fn i = some d := by
  induction is generalizing vfp r vfp' with
  | nil => exact List.forall_mem_nil _
  | cons i is ih =>
    obtain ⟨d, hd, h⟩ := Option.bind_eq_some_iff.mp h
    obtain ⟨rest, hrest, -⟩ := Option.bind_eq_some_iff.mp h
    exact List.forall_mem_cons.mpr ⟨⟨d, hd⟩, ih hrest⟩

/-- The lanes of a result. -/
theorem lane_neonResult (hfit : n * w ≤ W) (g : Nat → BitVec w × Bool) (vfp : Vfp) {i : Nat}
    (hi : i < n) : lane w i (neonResult W g (List.range n) vfp).1 = (g i).1 := by
  have hin := List.mem_range.mpr hi
  rw [neonResult, lane_ofLanes, lookup_map_self (f := fun i => (g i).1), if_pos hin]
  · rfl
  · intro p hp
    obtain ⟨j, hj, rfl⟩ := List.mem_map.mp hp
    exact (Nat.mul_le_mul_right w (List.mem_range.mp hj)).trans hfit
  · have hfst : ((List.range n).map fun i => (i, (g i).1)).map Prod.fst = List.range n := by
      rw [List.map_map]
      exact List.map_id _
    rw [hfst]
    exact List.nodup_range

theorem qc_neonResult (W : Nat) (g : Nat → BitVec w × Bool) (is : List Nat) (vfp : Vfp) :
    (neonResult W g is vfp).2.qc = (vfp.qc || is.any fun i => (g i).2) := by
  rw [neonResult]
  cases is.any fun i => (g i).2
  · rw [Bool.or_false]
    rfl
  · rw [Bool.or_true]
    exact qc_setQc vfp

/-- **Helpers are right** if and only if their lanes are. -/
theorem neonLanes_right_iff {c : Nat → Prop} (hfit : n * w ≤ W)
    (h : ∀ i, i < n → LaneSettles (fn i) (g i) (c i)) :
    (∃ r vfp', neonLanes W fn (List.range n) vfp = some (r, vfp') ∧
      (∀ i, i < n → lane w i r = (g i).1) ∧
      vfp'.qc = (vfp.qc || (List.range n).any fun i => (g i).2)) ↔ ∀ i, i < n → c i := by
  constructor
  · rintro ⟨r, vfp', hrun, hlanes, -⟩ i hi
    have hsome := neonLanes_isSome hrun
    have hdest : ∀ j ∈ List.range n, fn j = some ((fn j).getD (0, false)) := by
      intro j hj
      obtain ⟨d, hd⟩ := hsome j hj
      rw [hd]
      rfl
    have hres : neonLanes W fn (List.range n) vfp = _ := neonLanes_eq hdest
    rw [hrun] at hres
    -- the lane of the result is what the function gives
    have hlane := lane_neonResult hfit (fun j => (fn j).getD (0, false)) vfp hi
    rw [← Option.some.inj hres, hlanes i hi] at hlane
    refine (h i hi).only ((fn i).getD (0, false)).2 ?_
    rw [hlane]
    exact hdest i (List.mem_range.mpr hi)
  · intro hc
    have hright : ∀ i ∈ List.range n, fn i = some (g i) :=
      fun i hi => (h i (List.mem_range.mp hi)).meets (hc i (List.mem_range.mp hi))
    exact ⟨_, _, neonLanes_eq hright, fun i hi => lane_neonResult hfit g vfp hi,
      qc_neonResult W g _ vfp⟩

theorem neonVal_eq (res : Option (BitVec W × Bool)) (vfp : Vfp) :
    neonVal res vfp = neonLanes W (fun _ => res) (List.range 1) vfp := by
  rcases res with - | ⟨val, sat⟩
  · rfl
  · refine congrArg some (Prod.ext ?_ rfl)
    show val = inLane W 0 val ||| 0
    simp [inLane]

end

end Qemu.Arm
