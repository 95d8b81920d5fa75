import Qemu.Arm.Neon

namespace Qemu.Arm

open Lib

/-!
# Shifts of Neon lanes (`target-arm/neon_helper.c`)

* `laneShr`, `laneShl`, `laneRound`, `laneShlSat` — the expressions of the macros, with the types
  to which C promotes lanes;
* `neonShlU`, …, `neonQrshlS` — `NEON_FN` for each group of helpers;
* `neonShlU8`, …, `neonQrshlS64` — the helpers.

The macros are for lanes of up to 32 bits, which are promoted to 32.  The helpers of 64 bits have
bodies of their own.
-/

/-! ### Expressions -/

section

variable {w : Nat}

/-- `int8_t tmp = (int8_t)src2` -/
def shiftCount (src2 : BitVec w) : Int := (src2.setWidth 8).toInt

/-- A narrow lane is promoted to `int`. -/
def promotedSigned (W : Nat) (signed : Bool) (w : Nat) : Bool := signed || decide (w < W)

/-- `dest = src1 >> n` -/
def laneShr (W : Nat) (signed : Bool) (src1 : BitVec w) (n : Int) : Option (BitVec w) :=
  (cShr (promotedSigned W signed w) (promote W signed src1) n).map (·.setWidth w)

/-- `dest = src1 << n` -/
def laneShl (W : Nat) (signed : Bool) (src1 : BitVec w) (n : Int) : Option (BitVec w) :=
  (cShl (promote W signed src1) n).map (·.setWidth w)

/-- `dest = (src1 + (1 << (-1 - tmp))) >> -tmp`, where the constant has `P` bits. -/
def laneRound (P W : Nat) (signed : Bool) (src1 : BitVec w) (tmp : Int) : Option (BitVec w) := do
  let half ← cShl (1 : BitVec P) (-1 - tmp)
  let dest ← cShr (promotedSigned W signed w) (promote W signed src1 + half.signExtend W) (-tmp)
  some (dest.setWidth w)

/-- `dest = src1 << tmp; if ((dest >> tmp) != src1) { SET_QC(); dest = sat; }` -/
def laneShlSat (W : Nat) (signed : Bool) (src1 : BitVec w) (tmp : Int) (sat : Option (BitVec w)) :
    Option (BitVec w × Bool) := do
  let dest ← laneShl W signed src1 tmp
  let back ← cShr (promotedSigned W signed w) (promote W signed dest) tmp
  if back ≠ promote W signed src1 then sat.map (·, true) else some (dest, false)

/-- Without `SET_QC`. -/
def plainLane (dest : Option (BitVec w)) : Option (BitVec w × Bool) := dest.map (·, false)

/-! ### Lanes -/

/-- `NEON_FN` of `shl_u8`, `shl_u16`, `shl_u32` -/
def neonShlU (W : Nat) (src1 src2 : BitVec w) : Option (BitVec w × Bool) :=
  let tmp := shiftCount src2
  if (w : Int) ≤ tmp ∨ tmp ≤ -w then plainLane (some 0)
  else if tmp < 0 then plainLane (laneShr W false src1 (-tmp))
  else plainLane (laneShl W false src1 tmp)

/-- `NEON_FN` of `shl_s8`, `shl_s16`, `shl_s32` -/
def neonShlS (W : Nat) (src1 src2 : BitVec w) : Option (BitVec w × Bool) :=
  let tmp := shiftCount src2
  if (w : Int) ≤ tmp then plainLane (some 0)
  else if tmp ≤ -w then plainLane (laneShr W true src1 (w - 1))
  else if tmp < 0 then plainLane (laneShr W true src1 (-tmp))
  else plainLane (laneShl W true src1 tmp)

/-- `NEON_FN` of `rshl_s8`, `rshl_s16`, `rshl_s32` -/
def neonRshlS (src1 src2 : BitVec w) : Option (BitVec w × Bool) :=
  let tmp := shiftCount src2
  if (w : Int) ≤ tmp then plainLane (some 0)
  else if tmp < -w then plainLane (laneShr 32 true src1 (w - 1))
  else if tmp = -w then plainLane do
    let dest ← laneShr 32 true src1 (tmp - 1)
    laneShr 32 true (dest + 1) 1
  else if tmp < 0 then plainLane (laneRound 32 32 true src1 tmp)
  else plainLane (laneShl 32 true src1 tmp)

/-- `NEON_FN` of `rshl_u8`, `rshl_u16`, `rshl_u32` -/
def neonRshlU (src1 src2 : BitVec w) : Option (BitVec w × Bool) :=
  let tmp := shiftCount src2
  if (w : Int) ≤ tmp ∨ tmp < -w then plainLane (some 0)
  else if tmp = -w then plainLane (laneShr 32 false src1 (tmp - 1))
  else if tmp < 0 then plainLane (laneRound 32 32 false src1 tmp)
  else plainLane (laneShl 32 false src1 tmp)

/-- `NEON_FN` of `qshl_u8`, `qshl_u16`, `qshl_u32` -/
def neonQshlU (W : Nat) (src1 src2 : BitVec w) : Option (BitVec w × Bool) :=
  let tmp := shiftCount src2
  if (w : Int) ≤ tmp then
    if src1 ≠ 0 then some (BitVec.allOnes w, true) else plainLane (some 0)
  else if tmp ≤ -w then plainLane (some 0)
  else if tmp < 0 then plainLane (laneShr W false src1 (-tmp))
  else laneShlSat W false src1 tmp (some (BitVec.allOnes w))

/-- `NEON_FN` of `qshl_s8`, `qshl_s16`, `qshl_s32` -/
def neonQshlS (src1 src2 : BitVec w) : Option (BitVec w × Bool) :=
  let tmp := shiftCount src2
  if (w : Int) ≤ tmp then (laneShr 32 true src1 31).map (·, decide (src1 ≠ 0))
  else if tmp ≤ -w then plainLane (laneShr 32 true src1 31)
  else if tmp < 0 then plainLane (laneShr 32 true src1 (-tmp))
  else laneShlSat 32 true src1 tmp (laneShr 32 true src2 31)

/-- `NEON_FN` of `qrshl_u8`, `qrshl_u16`, `qrshl_u32` -/
def neonQrshlU (src1 src2 : BitVec w) : Option (BitVec w × Bool) :=
  let tmp := shiftCount src2
  if tmp < 0 then plainLane (laneRound 32 32 false src1 tmp)
  else laneShlSat 32 false src1 tmp (some (BitVec.allOnes w))

/-- `NEON_FN` of `qrshl_s8`, `qrshl_s16`, `qrshl_s32` -/
def neonQrshlS (src1 src2 : BitVec w) : Option (BitVec w × Bool) :=
  let tmp := shiftCount src2
  if tmp < 0 then plainLane (laneRound 32 32 true src1 tmp)
  else laneShlSat 32 true src1 tmp (laneShr 32 true src1 31)

end

/-! ### Helpers -/

def neonShlU8 := neonVop (neonShlU 32 : Byte → _) 4
def neonShlU16 := neonVop (neonShlU 32 : BitVec 16 → _) 2
def neonShlU32 := neonVop (neonShlU 32 : Word → _) 1

def neonShlU64 (vfp : Vfp) (val shiftop : BitVec 64) := neonVal (neonShlU 64 val shiftop) vfp

def neonShlS8 := neonVop (neonShlS 32 : Byte → _) 4
def neonShlS16 := neonVop (neonShlS 32 : BitVec 16 → _) 2
def neonShlS32 := neonVop (neonShlS 32 : Word → _) 1

def neonShlS64 (vfp : Vfp) (valop shiftop : BitVec 64) := neonVal (neonShlS 64 valop shiftop) vfp

def neonRshlS8 := neonVop (neonRshlS : Byte → _) 4
def neonRshlS16 := neonVop (neonRshlS : BitVec 16 → _) 2
def neonRshlS32 := neonVop (neonRshlS : Word → _) 1

/-- The body of `neon_rshl_s64` -/
def rshlS64 (val shiftop : BitVec 64) : Option (BitVec 64 × Bool) :=
  let shift := shiftCount shiftop
  if 64 ≤ shift then plainLane (some 0)
  else if shift < -64 then plainLane (laneShr 64 true val 63)
  else if shift = -63 then plainLane do
    let val ← laneShr 64 true val 63
    laneShr 64 true (val + 1) 1
  else if shift < 0 then plainLane (laneRound 64 64 true val shift)
  else plainLane (laneShl 64 true val shift)

def neonRshlS64 (vfp : Vfp) (valop shiftop : BitVec 64) := neonVal (rshlS64 valop shiftop) vfp

def neonRshlU8 := neonVop (neonRshlU : Byte → _) 4
def neonRshlU16 := neonVop (neonRshlU : BitVec 16 → _) 2
def neonRshlU32 := neonVop (neonRshlU : Word → _) 1

/-- The body of `neon_rshl_u64`, whose first test is true of all counts and has no `else` before
    the next one. -/
def rshlU64 (val shiftop : BitVec 64) : Option (BitVec 64 × Bool) := plainLane do
  let shift := shiftCount shiftop
  let val ←
    if 64 ≤ shift ∨ shift < 64 then some 0
    else if shift = -64 then laneShr 64 false val 63
    else some val
  if shift < 0 then
    let val ← laneRound 64 64 false val shift
    laneShr 64 false val (-shift)
  else laneShl 64 false val shift

def neonRshlU64 (vfp : Vfp) (val shiftop : BitVec 64) := neonVal (rshlU64 val shiftop) vfp

def neonQshlU8 := neonVop (neonQshlU 32 : Byte → _) 4
def neonQshlU16 := neonVop (neonQshlU 32 : BitVec 16 → _) 2
def neonQshlU32 := neonVop (neonQshlU 32 : Word → _) 1

def neonQshlU64 (vfp : Vfp) (val shiftop : BitVec 64) := neonVal (neonQshlU 64 val shiftop) vfp

def neonQshlS8 := neonVop (neonQshlS : Byte → _) 4
def neonQshlS16 := neonVop (neonQshlS : BitVec 16 → _) 2
def neonQshlS32 := neonVop (neonQshlS : Word → _) 1

/-- `SIGNBIT64` -/
def signbit64 : BitVec 64 := 1 <<< 63

/-- The body of `neon_qshl_s64`, which compares with 64 where -64 is meant. -/
def qshlS64 (val shiftop : BitVec 64) : Option (BitVec 64 × Bool) :=
  let shift := shiftCount shiftop
  if 64 ≤ shift then
    if val ≠ 0 then (laneShr 64 true val 63).map (· &&& ~~~signbit64, true)
    else plainLane (some val)
  else if shift ≤ 64 then plainLane (laneShr 64 true val 63)
  else if shift < 0 then plainLane (laneShr 64 true val (-shift))
  else laneShlSat 64 true val shift ((laneShr 64 true val 63).map (· ^^^ ~~~signbit64))

def neonQshlS64 (vfp : Vfp) (valop shiftop : BitVec 64) := neonVal (qshlS64 valop shiftop) vfp

def neonQrshlU8 := neonVop (neonQrshlU : Byte → _) 4
def neonQrshlU16 := neonVop (neonQrshlU : BitVec 16 → _) 2
def neonQrshlU32 := neonVop (neonQrshlU : Word → _) 1

/-- The body of `neon_qrshl_u64` -/
def qrshlU64 (val shiftop : BitVec 64) : Option (BitVec 64 × Bool) :=
  let shift := shiftCount shiftop
  if shift < 0 then plainLane (laneRound 32 64 false val shift)
  else laneShlSat 64 false val shift (some (BitVec.allOnes 64))

def neonQrshlU64 (vfp : Vfp) (val shiftop : BitVec 64) := neonVal (qrshlU64 val shiftop) vfp

def neonQrshlS8 := neonVop (neonQrshlS : Byte → _) 4
def neonQrshlS16 := neonVop (neonQrshlS : BitVec 16 → _) 2
def neonQrshlS32 := neonVop (neonQrshlS : Word → _) 1

/-- The body of `neon_qrshl_s64` -/
def qrshlS64 (val shiftop : BitVec 64) : Option (BitVec 64 × Bool) :=
  let shift := shiftCount shiftop
  if shift < 0 then plainLane (laneRound 32 64 true val shift)
  else laneShlSat 64 true val shift (laneShr 64 true val 31)

def neonQrshlS64 (vfp : Vfp) (valop shiftop : BitVec 64) := neonVal (qrshlS64 valop shiftop) vfp

/-- The four kinds of shifts by a register. -/
inductive NeonShiftOp
  | shl | rshl | qshl | qrshl
deriving DecidableEq, Repr

/-- The helpers `neon_` `op` `_` `signed` `width`. -/
structure NeonShift where
  op : NeonShiftOp
  signed : Bool
  width : NeonWidth
deriving DecidableEq, Repr

/-- The helper of an instruction. -/
def NeonShift.helper (h : NeonShift) :
    Vfp → BitVec h.width.word → BitVec h.width.word → Option (BitVec h.width.word × Vfp) :=
  match h with
  | ⟨.shl, false, .b8⟩ => neonShlU8
  | ⟨.shl, false, .b16⟩ => neonShlU16
  | ⟨.shl, false, .b32⟩ => neonShlU32
  | ⟨.shl, false, .b64⟩ => neonShlU64
  | ⟨.shl, true, .b8⟩ => neonShlS8
  | ⟨.shl, true, .b16⟩ => neonShlS16
  | ⟨.shl, true, .b32⟩ => neonShlS32
  | ⟨.shl, true, .b64⟩ => neonShlS64
  | ⟨.rshl, false, .b8⟩ => neonRshlU8
  | ⟨.rshl, false, .b16⟩ => neonRshlU16
  | ⟨.rshl, false, .b32⟩ => neonRshlU32
  | ⟨.rshl, false, .b64⟩ => neonRshlU64
  | ⟨.rshl, true, .b8⟩ => neonRshlS8
  | ⟨.rshl, true, .b16⟩ => neonRshlS16
  | ⟨.rshl, true, .b32⟩ => neonRshlS32
  | ⟨.rshl, true, .b64⟩ => neonRshlS64
  | ⟨.qshl, false, .b8⟩ => neonQshlU8
  | ⟨.qshl, false, .b16⟩ => neonQshlU16
  | ⟨.qshl, false, .b32⟩ => neonQshlU32
  | ⟨.qshl, false, .b64⟩ => neonQshlU64
  | ⟨.qshl, true, .b8⟩ => neonQshlS8
  | ⟨.qshl, true, .b16⟩ => neonQshlS16
  | ⟨.qshl, true, .b32⟩ => neonQshlS32
  | ⟨.qshl, true, .b64⟩ => neonQshlS64
  | ⟨.qrshl, false, .b8⟩ => neonQrshlU8
  | ⟨.qrshl, false, .b16⟩ => neonQrshlU16
  | ⟨.qrshl, false, .b32⟩ => neonQrshlU32
  | ⟨.qrshl, false, .b64⟩ => neonQrshlU64
  | ⟨.qrshl, true, .b8⟩ => neonQrshlS8
  | ⟨.qrshl, true, .b16⟩ => neonQrshlS16
  | ⟨.qrshl, true, .b32⟩ => neonQrshlS32
  | ⟨.qrshl, true, .b64⟩ => neonQrshlS64

end Qemu.Arm
