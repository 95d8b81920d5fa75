import Qemu.Arm.Cpu
import Qemu.Lib.Lanes

namespace Qemu.Arm

open Lib

/-!
# The media operations of ARMv6 (`target-arm/op_addsub.h`, `helper.c`, `op_helper.c`, `translate.c`)

* `AddsubMacros`, `MediaHelper` — the header `op_addsub.h` and the six helpers in it;
* `qMacros`, `uqMacros`, `sMacros`, `uMacros`, `shMacros`, `uhMacros` — what it is included with;
* `doSsat`, `doUsat` — saturation, with its emission for ARM and Thumb instructions;
* `usad8`, `genRev16`, `genRevsh` — sums of differences, and byte swaps.
-/

/-! ### Parallel additions and subtractions -/

/-- `ADD16`, `SUB16`, `ADD8` and `SUB8`: the result of a lane, and whether its bits of `ge` are set
    (`ARITH_GE`). -/
structure AddsubMacros where
  arithGe : Bool
  add16 : BitVec 16 → BitVec 16 → BitVec 16 × Bool
  sub16 : BitVec 16 → BitVec 16 → BitVec 16 × Bool
  add8 : BitVec 8 → BitVec 8 → BitVec 8 × Bool
  sub8 : BitVec 8 → BitVec 8 → BitVec 8 × Bool

/-- `res` and `ge` of a helper. -/
structure MediaRes where
  res : Word
  ge : Word
deriving DecidableEq, Repr

/-- `RESULT`, and the bits of `ge`. -/
def MediaRes.result (x : MediaRes) {w : Nat} (n : Nat) (geBits : Word) (r : BitVec w × Bool) :
    MediaRes where
  res := x.res ||| inLane 32 n r.1
  ge := if r.2 then x.ge ||| geBits else x.ge

/-- The lanes of 16 bits, which set `3 << (n * 2)`. -/
def MediaRes.result16 (x : MediaRes) (n : Nat) (r : BitVec 16 × Bool) : MediaRes :=
  x.result n ((3 : Word) <<< (n * 2)) r

/-- The lanes of 8 bits, which set `1 << n`. -/
def MediaRes.result8 (x : MediaRes) (n : Nat) (r : BitVec 8 × Bool) : MediaRes :=
  x.result n ((1 : Word) <<< n) r

/-- The lane operations of `op_addsub.h`, as the source names them. -/
inductive MediaHelper
  | add16 | add8 | sub16 | sub8 | subaddx | addsubx
deriving DecidableEq, Repr

/-- The bodies of the helpers. -/
def AddsubMacros.body (m : AddsubMacros) (a b : Word) : MediaHelper → MediaRes
  | .add16 =>
    let x : MediaRes := ⟨0, 0⟩
    let x := x.result16 0 (m.add16 (a.setWidth 16) (b.setWidth 16))
    x.result16 1 (m.add16 ((a >>> 16).setWidth 16) ((b >>> 16).setWidth 16))
  | .add8 =>
    let x : MediaRes := ⟨0, 0⟩
    let x := x.result8 0 (m.add8 (a.setWidth 8) (b.setWidth 8))
    let x := x.result8 1 (m.add8 ((a >>> 8).setWidth 8) ((b >>> 8).setWidth 8))
    let x := x.result8 2 (m.add8 ((a >>> 16).setWidth 8) ((b >>> 16).setWidth 8))
    x.result8 3 (m.add8 ((a >>> 24).setWidth 8) ((b >>> 24).setWidth 8))
  | .sub16 =>
    let x : MediaRes := ⟨0, 0⟩
    let x := x.result16 0 (m.sub16 (a.setWidth 16) (b.setWidth 16))
    x.result16 1 (m.sub16 ((a >>> 16).setWidth 16) ((b >>> 16).setWidth 16))
  | .sub8 =>
    let x : MediaRes := ⟨0, 0⟩
    let x := x.result8 0 (m.sub8 (a.setWidth 8) (b.setWidth 8))
    let x := x.result8 1 (m.sub8 ((a >>> 8).setWidth 8) ((b >>> 8).setWidth 8))
    let x := x.result8 2 (m.sub8 ((a >>> 16).setWidth 8) ((b >>> 16).setWidth 8))
    x.result8 3 (m.sub8 ((a >>> 24).setWidth 8) ((b >>> 24).setWidth 8))
  | .subaddx =>
    let x : MediaRes := ⟨0, 0⟩
    let x := x.result16 0 (m.add16 (a.setWidth 16) ((b >>> 16).setWidth 16))
    x.result16 1 (m.sub16 ((a >>> 16).setWidth 16) (b.setWidth 16))
  | .addsubx =>
    let x : MediaRes := ⟨0, 0⟩
    let x := x.result16 0 (m.sub16 (a.setWidth 16) ((b >>> 16).setWidth 16))
    x.result16 1 (m.add16 ((a >>> 16).setWidth 16) (b.setWidth 16))

/-- A helper: its result, and `GE` of the CPU, which `SET_GE` overwrites. -/
def AddsubMacros.helper (m : AddsubMacros) (h : MediaHelper) (ge a b : Word) : MediaRes where
  res := (m.body a b h).res
  ge := if m.arithGe then (m.body a b h).ge else ge

/-- `add16_sat`, `add8_sat` -/
def addSat {w : Nat} (sign max : BitVec w) (a b : BitVec w) : BitVec w :=
  let res := a + b
  if (res ^^^ a) &&& sign ≠ 0 ∧ ¬ (a ^^^ b) &&& sign ≠ 0 then
    if a &&& sign ≠ 0 then sign else max
  else res

def add16Sat (a b : BitVec 16) : BitVec 16 := addSat 0x8000 0x7fff a b
def add8Sat (a b : BitVec 8) : BitVec 8 := addSat 0x80 0x7f a b

/-- `sub16_sat`, `sub8_sat` -/
def subSat {w : Nat} (sign max : BitVec w) (a b : BitVec w) : BitVec w :=
  let res := a - b
  if (res ^^^ a) &&& sign ≠ 0 ∧ (a ^^^ b) &&& sign ≠ 0 then
    if a &&& sign ≠ 0 then sign else max
  else res

def sub16Sat (a b : BitVec 16) : BitVec 16 := subSat 0x8000 0x7fff a b
def sub8Sat (a b : BitVec 8) : BitVec 8 := subSat 0x80 0x7f a b

/-- The macros of the saturating signed form. -/
def qMacros : AddsubMacros where
  arithGe := false
  add16 a b := (add16Sat a b, false)
  sub16 a b := (sub16Sat a b, false)
  add8 a b := (add8Sat a b, false)
  sub8 a b := (sub8Sat a b, false)

/-- `add16_usat`, `add8_usat` -/
def addUsat {w : Nat} (max : BitVec w) (a b : BitVec w) : BitVec w :=
  let res := a + b
  if res < a then max else res

def add16Usat (a b : BitVec 16) : BitVec 16 := addUsat 0xffff a b
def add8Usat (a b : BitVec 8) : BitVec 8 := addUsat 0xff a b

/-- `sub16_usat`, `sub8_usat` -/
def subUsat {w : Nat} (a b : BitVec w) : BitVec w := if b < a then a - b else 0

def sub16Usat (a b : BitVec 16) : BitVec 16 := subUsat a b
def sub8Usat (a b : BitVec 8) : BitVec 8 := subUsat a b

/-- The macros of the saturating unsigned form. -/
def uqMacros : AddsubMacros where
  arithGe := false
  add16 a b := (add16Usat a b, false)
  sub16 a b := (sub16Usat a b, false)
  add8 a b := (add8Usat a b, false)
  sub8 a b := (sub8Usat a b, false)

/-- `SARITH16`, `SARITH8`: the sum is that of the lane, extended. -/
def sarith {w : Nat} (op : BitVec w → BitVec w → BitVec w) (a b : BitVec w) : BitVec w × Bool :=
  let sum : Word := (op a b).signExtend 32
  (sum.setWidth w, decide (0 ≤ sum.toInt))

/-- The macros of the signed form, which sets the GE flags. -/
def sMacros : AddsubMacros where
  arithGe := true
  add16 := sarith (· + ·)
  sub16 := sarith (· - ·)
  add8 := sarith (· + ·)
  sub8 := sarith (· - ·)

/-- `ADD16` and `ADD8` of the unsigned forms. -/
def uadd {w : Nat} (a b : BitVec w) : BitVec w × Bool :=
  let sum : Word := a.setWidth 32 + b.setWidth 32
  (sum.setWidth w, sum >>> w == 1)

/-- `SUB16` and `SUB8` of the unsigned forms. -/
def usub {w : Nat} (a b : BitVec w) : BitVec w × Bool :=
  let sum : Word := a.setWidth 32 - b.setWidth 32
  (sum.setWidth w, sum >>> w == 0)

/-- The macros of the unsigned form, which sets the GE flags. -/
def uMacros : AddsubMacros where
  arithGe := true
  add16 := uadd
  sub16 := usub
  add8 := uadd
  sub8 := usub

/-- The halving forms, signed. -/
def shalve {w : Nat} (op : Word → Word → Word) (a b : BitVec w) : BitVec w × Bool :=
  (((op (a.signExtend 32) (b.signExtend 32)).sshiftRight 1).setWidth w, false)

/-- The macros of the signed halving form. -/
def shMacros : AddsubMacros where
  arithGe := false
  add16 := shalve (· + ·)
  sub16 := shalve (· - ·)
  add8 := shalve (· + ·)
  sub8 := shalve (· - ·)

/-- The halving forms, unsigned. -/
def uhalve {w : Nat} (op : Word → Word → Word) (a b : BitVec w) : BitVec w × Bool :=
  ((op (a.setWidth 32) (b.setWidth 32) >>> 1).setWidth w, false)

/-- The macros of the unsigned halving form. -/
def uhMacros : AddsubMacros where
  arithGe := false
  add16 := uhalve (· + ·)
  sub16 := uhalve (· - ·)
  add8 := uhalve (· + ·)
  sub8 := uhalve (· - ·)

/-- The six times that `op_addsub.h` is included. -/
inductive MediaForm
  | s | u | q | uq | sh | uh
deriving DecidableEq, Repr

/-- What the header is included with. -/
def MediaForm.macros : MediaForm → AddsubMacros
  | .s => sMacros
  | .u => uMacros
  | .q => qMacros
  | .uq => uqMacros
  | .sh => shMacros
  | .uh => uhMacros

/-! ### Saturation -/

/-- A saturated value, and `QF` of the CPU. -/
structure SatRes where
  val : Word
  qf : BitVec 1
deriving DecidableEq, Repr

/-- `do_ssat` -/
def doSsat (qf : BitVec 1) (val : Word) (shift : Nat) : SatRes :=
  let top := val.sshiftRight shift
  let mask := ((1 : Word) <<< shift) - 1
  if 0 < top.toInt then ⟨mask, 1⟩
  else if top.toInt < -1 then ⟨~~~mask, 1⟩
  else ⟨val, qf⟩

/-- `do_usat` -/
def doUsat (qf : BitVec 1) (val : Word) (shift : Nat) : SatRes :=
  let max := ((1 : Word) <<< shift) - 1
  if val.toInt < 0 then ⟨0, 1⟩
  else if max < val then ⟨max, 1⟩
  else ⟨val, qf⟩

def ssat (qf : BitVec 1) (x shift : Word) : SatRes := doSsat qf x shift.toNat
def usat (qf : BitVec 1) (x shift : Word) : SatRes := doUsat qf x shift.toNat

/-- The halfwords one after the other. -/
def sat16 (sat : BitVec 1 → Word → Nat → SatRes) (qf : BitVec 1) (x shift : Word) : SatRes :=
  let low := sat qf ((x.setWidth 16).signExtend 32) shift.toNat
  let high := sat low.qf (x.sshiftRight 16) shift.toNat
  ⟨(low.val.setWidth 16).setWidth 32 ||| high.val <<< 16, high.qf⟩

def ssat16 (qf : BitVec 1) (x shift : Word) : SatRes := sat16 doSsat qf x shift
def usat16 (qf : BitVec 1) (x shift : Word) : SatRes := sat16 doUsat qf x shift

/-- `[us]sat` of `disas_arm_insn`, on the value of `rm`. -/
def armSat (insn : Word) (qf : BitVec 1) (rm : Word) : SatRes :=
  let shift := (insn >>> 7) &&& (0x1f : Word)
  let tmp :=
    if insn.getLsbD 6 then
      let shift := if shift = 0 then (31 : Word) else shift
      rm.sshiftRight shift.toNat
    else rm <<< shift.toNat
  let sh := (insn >>> 16) &&& (0x1f : Word)
  if sh ≠ 0 then
    if insn.getLsbD 22 then usat qf tmp sh else ssat qf tmp sh
  else ⟨tmp, qf⟩

/-- `[us]sat16` of `disas_arm_insn`. -/
def armSat16 (insn : Word) (qf : BitVec 1) (rm : Word) : SatRes :=
  let sh := (insn >>> 16) &&& (0x1f : Word)
  if sh ≠ 0 then
    if insn.getLsbD 22 then usat16 qf rm sh else ssat16 qf rm sh
  else ⟨rm, qf⟩

/-- The two fields of the shift. -/
def thumbSatShift (insn : Word) : Word :=
  ((insn >>> 6) &&& (3 : Word)) ||| ((insn >>> 10) &&& (0x1c : Word))

/-- Saturation in `disas_thumb2_insn`, on the value of `rn`. -/
def thumbSat (insn : Word) (qf : BitVec 1) (rn : Word) : SatRes :=
  let op := (insn >>> 21) &&& (7 : Word)
  let imm := insn &&& (0x1f : Word)
  let shift := thumbSatShift insn
  let tmp :=
    if shift ≠ 0 then
      if op.getLsbD 0 then rn.sshiftRight shift.toNat else rn <<< shift.toNat
    else rn
  if op.getLsbD 2 then
    if op.getLsbD 0 ∧ shift = 0 then usat16 qf tmp imm else usat qf tmp imm
  else if op.getLsbD 0 ∧ shift = 0 then ssat16 qf tmp imm
  else ssat qf tmp imm

/-! ### Sums of differences and byte swaps -/

/-- `do_usad` -/
def doUsad (a b : BitVec 8) : BitVec 8 := if b < a then a - b else b - a

/-- `HELPER(usad8)` -/
def usad8 (a b : Word) : Word :=
  let sum : Word := (doUsad (a.setWidth 8) (b.setWidth 8)).setWidth 32
  let sum := sum + (doUsad ((a >>> 8).setWidth 8) ((b >>> 8).setWidth 8)).setWidth 32
  let sum := sum + (doUsad ((a >>> 16).setWidth 8) ((b >>> 16).setWidth 8)).setWidth 32
  sum + (doUsad ((a >>> 24).setWidth 8) ((b >>> 24).setWidth 8)).setWidth 32

/-- What `gen_rev16` emits. -/
def genRev16 (var : Word) : Word :=
  let tmp := var >>> 8
  let tmp := tmp &&& 0x00ff00ff
  let var := var <<< 8
  let var := var &&& 0xff00ff00
  var ||| tmp

/-- `tcg_gen_ext8s_i32` -/
def ext8s (var : Word) : Word := (var.setWidth 8).signExtend 32

/-- What `gen_revsh` emits. -/
def genRevsh (var : Word) : Word :=
  let tmp := var >>> 8
  let tmp := tmp &&& 0x00ff
  let var := var <<< 8
  let var := ext8s var
  var ||| tmp

end Qemu.Arm
