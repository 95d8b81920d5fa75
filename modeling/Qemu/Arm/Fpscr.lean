import Qemu.Arm.Machine
import Qemu.Lib.Runs

namespace Qemu.Arm

open Lib

/-!
# The FPSCR over runs (`target-arm/helper.c`, `target-arm/neon_helper.c`)

The FPSCR is in a word, in `vec_len` and `vec_stride`, and in the modes and flags of `fp_status`.

* `vfpSetFpscr`, `vfpCmp`, `setQc` — the functions that change it;
* `FpscrRun`, `VfpOp.exec` — a machine that keeps what a read is expected to give;
* `Vfp.Split` — where each bit of it is;
* `fpscr_reads` — the runs in which reads give what is expected and the modes are those of the
  FPSCR.

A write takes the cumulative exceptions from the bits that enable traps, `SET_QC` overwrites the
whole word, and the saturating additions and subtractions of 64 bits set Q in the CPSR instead of
QC.
-/

/-! ### Writes -/

/-- `vfp_exceptbits_to_host` -/
def vfpExceptbitsToHost (targetBits : Word) : BitVec 8 :=
  (if targetBits.getLsbD 0 then 1 else 0) ||| (if targetBits.getLsbD 1 then 4 else 0) |||
    (if targetBits.getLsbD 2 then 8 else 0) ||| (if targetBits.getLsbD 3 then 16 else 0) |||
    (if targetBits.getLsbD 4 then 32 else 0)

/-- The modes after `vfp_set_fpscr`, which sets those that change. -/
def FloatStatus.setModes (st : FloatStatus) (changed val : Word) : FloatStatus where
  roundingMode :=
    if changed.getLsbD 22 ∨ changed.getLsbD 23 then fpscrRounding val else st.roundingMode
  flushToZero := if changed.getLsbD 24 then val.getLsbD 24 else st.flushToZero
  defaultNan := if changed.getLsbD 25 then val.getLsbD 25 else st.defaultNan
  exceptionFlags := vfpExceptbitsToHost ((val >>> 8) &&& 0x1f)

/-- `vfp_set_fpscr` -/
def vfpSetFpscr (vfp : Vfp) (val : Word) : Vfp :=
  { vfp with
    xregs := Function.update vfp.xregs armVfpFpscr (val &&& 0xffc8ffff)
    vecLen := (val >>> 16) &&& 7
    vecStride := (val >>> 20) &&& 3
    fpStatus := vfp.fpStatus.setModes (vfp.xregs armVfpFpscr ^^^ val) val }

/-- What the comparisons of `softfloat` return. -/
inductive FloatRelation
  | less | equal | greater | unordered
deriving DecidableEq, Repr

/-- NZCV after a comparison. -/
def FloatRelation.nzcv : FloatRelation → Word
  | .equal => 0x6
  | .less => 0x8
  | .greater => 0x2
  | .unordered => 0x3

/-- An operation of `softfloat` raises exceptions. -/
def floatRaise (vfp : Vfp) (flags : BitVec 8) : Vfp :=
  { vfp with
    fpStatus := { vfp.fpStatus with exceptionFlags := vfp.fpStatus.exceptionFlags ||| flags } }

/-- `DO_VFP_cmp`; the comparison may raise exceptions. -/
def vfpCmp (vfp : Vfp) (rel : FloatRelation) (flags : BitVec 8) : Vfp :=
  let vfp := floatRaise vfp flags
  { vfp with
    xregs := Function.update vfp.xregs armVfpFpscr
      (rel.nzcv <<< 28 ||| (vfp.xregs armVfpFpscr &&& 0x0fffffff)) }

/-- `SET_QC` -/
def setQc (vfp : Vfp) : Vfp :=
  { vfp with xregs := Function.update vfp.xregs armVfpFpscr cpsrQ }

/-! ### Runs -/

/-- The saturating operations are those of `neon_helper.c` and those of 64 bits in `op_helper.c`,
    which set `QF`. -/
inductive SatHelper
  | setQc | setQF
deriving DecidableEq, Repr

/-- What programs do with the FPSCR and what operations do to it. -/
inductive VfpOp
  | setFpscr (val : Word)
  | compare (rel : FloatRelation) (flags : BitVec 8)
  | float (flags : BitVec 8)
  | saturate (helper : SatHelper) (clamped : Bool)

/-- The coprocessor with Q of the CPSR, and what the FPSCR is expected to be. -/
structure FpscrRun where
  vfp : Vfp
  qf : BitVec 1
  expected : Word

/-- NZCV are those of the last comparison, QC is set by saturation, exceptions are raised. -/
def VfpOp.expect (e : Word) : VfpOp → Word
  | .setFpscr val => val
  | .compare rel flags => rel.nzcv <<< 28 ||| ((e ||| vfpExceptbitsFromHost flags) &&& 0x0fffffff)
  | .float flags => e ||| vfpExceptbitsFromHost flags
  | .saturate _ clamped => if clamped then e ||| cpsrQ else e

/-- One of these, with what is expected of it. -/
def FpscrRun.exec (x : FpscrRun) (op : VfpOp) : Option FpscrRun :=
  let expected := op.expect x.expected
  match op with
  | .setFpscr val => some { x with vfp := vfpSetFpscr x.vfp val, expected }
  | .compare rel flags => some { x with vfp := vfpCmp x.vfp rel flags, expected }
  | .float flags => some { x with vfp := floatRaise x.vfp flags, expected }
  | .saturate _ false => some { x with expected }
  | .saturate .setQc true => some { x with vfp := setQc x.vfp, expected }
  | .saturate .setQF true => some { x with qf := 1, expected }

/-- After a reset. -/
def fpscrRunInit : FpscrRun where
  vfp := {
    regs := fun _ => 0
    xregs := fun _ => 0
    vecLen := 0
    vecStride := 0
    fpStatus := {
      roundingMode := .nearestEven, flushToZero := false, defaultNan := false,
      exceptionFlags := 0 } }
  qf := 0
  expected := 0

/-- A read gives what is expected, and the modes are those of it. -/
structure FpscrRun.Right (x : FpscrRun) : Prop where
  read : vfpGetFpscr x.vfp = x.expected
  modes : x.vfp.fpStatus.Matches (vfpGetFpscr x.vfp)

/-- Of the traps that are enabled the exceptions are set too; when a lane is clamped, the word has
    no other bits than QC and exceptions that are in `fp_status`, or QC is set already if it is left
    alone. -/
def VfpOp.KeepsFpscr (x : FpscrRun) : VfpOp → Prop
  | .setFpscr val => (val >>> 8) &&& 0x1f &&& ~~~val = 0
  | .saturate .setQc true =>
    x.vfp.xregs armVfpFpscr &&&
      ~~~(cpsrQ ||| vfpExceptbitsFromHost x.vfp.fpStatus.exceptionFlags) = 0
  | .saturate .setQF true => (x.vfp.xregs armVfpFpscr).getLsbD 27 = true
  | _ => True

/-- `vec_len` and `vec_stride` are fields of the FPSCR, and the word has the other ones. -/
structure Vfp.Split (vfp : Vfp) : Prop where
  vecLen : vfp.vecLen &&& 7 = vfp.vecLen
  vecStride : vfp.vecStride &&& 3 = vfp.vecStride
  word : vfp.xregs armVfpFpscr &&& 0xffc8ffff = vfp.xregs armVfpFpscr

/-- Besides, the word and the status share no flag. -/
structure FpscrRun.Inv (x : FpscrRun) : Prop extends x.Right where
  split : x.vfp.Split

section

variable {x x' : FpscrRun} {vfp : Vfp} {val : Word} {flags : BitVec 8} {op : VfpOp}

/-! ### The bits -/

/-- The flag of `softfloat` that is an exception of the FPSCR. -/
def hostFlag : Nat → Nat
  | 0 => 0
  | i + 1 => i + 2

theorem exceptbitsFromHost_getLsbD (h : BitVec 8) {i : Nat} (hi : i < 32) :
    (vfpExceptbitsFromHost h).getLsbD i = (decide (i < 5) && h.getLsbD (hostFlag i)) := by
  unfold vfpExceptbitsFromHost
  simp only [BitVec.getLsbD_or, getLsbD_ite]
  interval_cases i <;> simp [hostFlag]

theorem exceptbitsToHost_getLsbD (v : Word) {i : Nat} (hi : i < 5) :
    (vfpExceptbitsToHost v).getLsbD (hostFlag i) = v.getLsbD i := by
  unfold vfpExceptbitsToHost
  simp only [BitVec.getLsbD_or, getLsbD_ite]
  interval_cases i <;> simp [hostFlag]

theorem exceptbitsFromHost_or (h h' : BitVec 8) :
    vfpExceptbitsFromHost (h ||| h') = vfpExceptbitsFromHost h ||| vfpExceptbitsFromHost h' := by
  apply BitVec.eq_of_getLsbD_eq
  intro i hi
  rw [BitVec.getLsbD_or, exceptbitsFromHost_getLsbD _ hi, exceptbitsFromHost_getLsbD _ hi,
    exceptbitsFromHost_getLsbD _ hi, BitVec.getLsbD_or, Bool.and_or_distrib_left]

/-- **Where the bits are.** -/
theorem Vfp.Split.getLsbD (h : vfp.Split) {i : Nat} (hi : i < 32) :
    (vfpGetFpscr vfp).getLsbD i =
      if 16 ≤ i ∧ i < 19 then vfp.vecLen.getLsbD (i - 16)
      else if 20 ≤ i ∧ i < 22 then vfp.vecStride.getLsbD (i - 20)
      else (vfp.xregs armVfpFpscr).getLsbD i ||
        (vfpExceptbitsFromHost vfp.fpStatus.exceptionFlags).getLsbD i := by
  rw [vfpGetFpscr, ← h.vecLen, ← h.vecStride, BitVec.getLsbD_or, exceptbitsFromHost_getLsbD _ hi]
  interval_cases i <;> simp

theorem Vfp.Split.word_getLsbD (h : vfp.Split) {i : Nat} (hi : 16 ≤ i ∧ i < 19 ∨ 20 ≤ i ∧ i < 22) :
    (vfp.xregs armVfpFpscr).getLsbD i = false := by
  rw [← h.word, BitVec.getLsbD_and]
  have hmask : (0xffc8ffff : Word).getLsbD i = false := by
    rcases hi with ⟨hlow, hhigh⟩ | ⟨hlow, hhigh⟩
    all_goals interval_cases i <;> rfl
  rw [hmask, Bool.and_false]

theorem Vfp.Split.mode (h : vfp.Split) {i : Nat} (hi : 22 ≤ i ∧ i < 32) :
    (vfpGetFpscr vfp).getLsbD i = (vfp.xregs armVfpFpscr).getLsbD i := by
  rw [h.getLsbD hi.2, if_neg (by omega), if_neg (by omega), exceptbitsFromHost_getLsbD _ hi.2,
    decide_eq_false (by omega), Bool.false_and, Bool.or_false]

theorem fpscrRounding_congr {v w : Word} (h₂₂ : v.getLsbD 22 = w.getLsbD 22)
    (h₂₃ : v.getLsbD 23 = w.getLsbD 23) : fpscrRounding v = fpscrRounding w := by
  unfold fpscrRounding
  rw [h₂₂, h₂₃]

theorem FloatStatus.Matches.congr {st st' : FloatStatus} {v w : Word} (h : st.Matches v)
    (hround : st'.roundingMode = st.roundingMode) (hflush : st'.flushToZero = st.flushToZero)
    (hnan : st'.defaultNan = st.defaultNan)
    (hw : ∀ i, 22 ≤ i → i < 26 → w.getLsbD i = v.getLsbD i) : st'.Matches w := by
  refine ⟨hround.trans (h.1.trans (fpscrRounding_congr ?_ ?_)), hflush.trans (h.2.1.trans ?_),
    hnan.trans (h.2.2.trans ?_)⟩
  all_goals exact (hw _ (by decide) (by decide)).symm

theorem and_not_eq_zero_iff {w : Nat} (v u : BitVec w) : v &&& ~~~u = 0 ↔ u ||| v = u := by
  rw [BitVec.eq_of_getLsbD_eq_iff, BitVec.eq_of_getLsbD_eq_iff]
  refine forall₂_congr fun i hi => ?_
  rw [BitVec.getLsbD_and, BitVec.getLsbD_not, BitVec.getLsbD_or, decide_eq_true hi, Bool.true_and]
  cases v.getLsbD i <;> cases u.getLsbD i <;> simp

/-! ### Writes -/

theorem vfpSetFpscr_split (vfp : Vfp) (val : Word) : (vfpSetFpscr vfp val).Split := by
  have hx : (vfpSetFpscr vfp val).xregs armVfpFpscr = val &&& 0xffc8ffff :=
    Function.update_self armVfpFpscr _ vfp.xregs
  refine ⟨?_, ?_, ?_⟩
  · simp [vfpSetFpscr, BitVec.and_assoc]
  · simp [vfpSetFpscr, BitVec.and_assoc]
  · rw [hx, BitVec.and_assoc, BitVec.and_self]

/-- What is read after a write: the value, and the exceptions whose traps are enabled. -/
theorem vfpGetFpscr_set (vfp : Vfp) (val : Word) :
    vfpGetFpscr (vfpSetFpscr vfp val) = val ||| ((val >>> 8) &&& 0x1f) := by
  have hx : (vfpSetFpscr vfp val).xregs armVfpFpscr = val &&& 0xffc8ffff :=
    Function.update_self armVfpFpscr _ vfp.xregs
  apply BitVec.eq_of_getLsbD_eq
  intro i hi
  rw [(vfpSetFpscr_split vfp val).getLsbD hi, hx, exceptbitsFromHost_getLsbD _ hi]
  show (if _ then ((val >>> 16) &&& 7).getLsbD _ else if _ then ((val >>> 20) &&& 3).getLsbD _ else
    _ || (_ && (vfpExceptbitsToHost ((val >>> 8) &&& 0x1f)).getLsbD _)) = _
  by_cases h5 : i < 5
  · rw [exceptbitsToHost_getLsbD _ h5, decide_eq_true h5]
    interval_cases i <;> simp
  · rw [decide_eq_false h5, Bool.false_and]
    interval_cases i <;> simp at h5 ⊢

/-- The modes follow a write, as those that stay are right already. -/
theorem setModes_matches {st : FloatStatus} {old : Word} (h : st.Matches old) (val : Word) :
    (st.setModes (old ^^^ val) val).Matches val := by
  have hsame : ∀ i, (old ^^^ val).getLsbD i = false → old.getLsbD i = val.getLsbD i := by
    intro i hi
    rw [BitVec.getLsbD_xor] at hi
    exact bne_eq_false_iff_eq.mp hi
  refine ⟨?_, ?_, ?_⟩
  · show (if _ then fpscrRounding val else st.roundingMode) = _
    split_ifs with hchanged
    · rfl
    · obtain ⟨h₂₂, h₂₃⟩ := not_or.mp hchanged
      rw [h.1]
      exact fpscrRounding_congr (hsame _ (Bool.eq_false_iff.mpr h₂₂))
        (hsame _ (Bool.eq_false_iff.mpr h₂₃))
  · show (if _ then val.getLsbD 24 else st.flushToZero) = _
    split_ifs with hchanged
    · rfl
    · exact h.2.1.trans (hsame _ (Bool.eq_false_iff.mpr hchanged))
  · show (if _ then val.getLsbD 25 else st.defaultNan) = _
    split_ifs with hchanged
    · rfl
    · exact h.2.2.trans (hsame _ (Bool.eq_false_iff.mpr hchanged))

theorem Vfp.Split.matches_word (h : vfp.Split) {st : FloatStatus} :
    st.Matches (vfpGetFpscr vfp) ↔ st.Matches (vfp.xregs armVfpFpscr) :=
  ⟨fun hm => hm.congr rfl rfl rfl fun _ h₁ h₂ => (h.mode ⟨h₁, by omega⟩).symm,
    fun hm => hm.congr rfl rfl rfl fun _ h₁ h₂ => h.mode ⟨h₁, by omega⟩⟩

theorem vfpSetFpscr_modes (h : vfp.Split) (hm : vfp.fpStatus.Matches (vfpGetFpscr vfp))
    (val : Word) : (vfpSetFpscr vfp val).fpStatus.Matches val :=
  setModes_matches (h.matches_word.mp hm) val

/-! ### Exceptions and comparisons -/

theorem floatRaise_split (h : vfp.Split) (flags : BitVec 8) : (floatRaise vfp flags).Split :=
  ⟨h.vecLen, h.vecStride, h.word⟩

theorem vfpGetFpscr_raise (vfp : Vfp) (flags : BitVec 8) :
    vfpGetFpscr (floatRaise vfp flags) = vfpGetFpscr vfp ||| vfpExceptbitsFromHost flags := by
  show _ ||| vfpExceptbitsFromHost (vfp.fpStatus.exceptionFlags ||| flags) = _
  rw [exceptbitsFromHost_or, ← BitVec.or_assoc]
  rfl

theorem nzcv_getLsbD (rel : FloatRelation) {i : Nat} (hi : i < 28) :
    (rel.nzcv <<< 28).getLsbD i = false := by
  rw [BitVec.getLsbD_shiftLeft, decide_eq_true hi]
  simp

theorem vfpCmp_word (vfp : Vfp) (rel : FloatRelation) (flags : BitVec 8) :
    (vfpCmp vfp rel flags).xregs armVfpFpscr =
      rel.nzcv <<< 28 ||| (vfp.xregs armVfpFpscr &&& 0x0fffffff) :=
  Function.update_self armVfpFpscr _ vfp.xregs

theorem vfpCmp_split (h : vfp.Split) (rel : FloatRelation) (flags : BitVec 8) :
    (vfpCmp vfp rel flags).Split := by
  refine ⟨h.vecLen, h.vecStride, ?_⟩
  rw [vfpCmp_word, ← h.word]
  cases rel <;> simp [FloatRelation.nzcv, BitVec.and_or_distrib_right, BitVec.and_assoc]

/-- What is read after a comparison. -/
theorem vfpGetFpscr_cmp (h : vfp.Split) (rel : FloatRelation) (flags : BitVec 8) :
    vfpGetFpscr (vfpCmp vfp rel flags) = rel.nzcv <<< 28 |||
      ((vfpGetFpscr vfp ||| vfpExceptbitsFromHost flags) &&& 0x0fffffff) := by
  rw [← vfpGetFpscr_raise]
  have hraise := floatRaise_split h flags
  apply BitVec.eq_of_getLsbD_eq
  intro i hi
  rw [(vfpCmp_split h rel flags).getLsbD hi, vfpCmp_word, BitVec.getLsbD_or, BitVec.getLsbD_or,
    BitVec.getLsbD_and, BitVec.getLsbD_and, hraise.getLsbD hi]
  show (if _ then vfp.vecLen.getLsbD _ else if _ then vfp.vecStride.getLsbD _ else
    _ || (vfpExceptbitsFromHost (vfp.fpStatus.exceptionFlags ||| flags)).getLsbD i) = (_ ||
      ((if _ then vfp.vecLen.getLsbD _ else if _ then vfp.vecStride.getLsbD _ else
        (vfp.xregs armVfpFpscr).getLsbD i ||
          (vfpExceptbitsFromHost (vfp.fpStatus.exceptionFlags ||| flags)).getLsbD i) && _))
  by_cases h28 : i < 28
  · have hmask : (0x0fffffff : Word).getLsbD i = true := by interval_cases i <;> rfl
    rw [nzcv_getLsbD rel h28, hmask]
    simp
  · have hmask : (0x0fffffff : Word).getLsbD i = false := by interval_cases i <;> simp at h28 ⊢
    rw [if_neg (by omega), if_neg (by omega), hmask, exceptbitsFromHost_getLsbD _ hi,
      decide_eq_false (by omega)]
    simp

/-! ### Saturation -/

theorem setQc_word (vfp : Vfp) : (setQc vfp).xregs armVfpFpscr = cpsrQ :=
  Function.update_self armVfpFpscr _ vfp.xregs

theorem setQc_split (h : vfp.Split) : (setQc vfp).Split := by
  refine ⟨h.vecLen, h.vecStride, ?_⟩
  rw [setQc_word]
  decide

/-- QC alone is added if the word had nothing that is not kept elsewhere. -/
theorem vfpGetFpscr_setQc_iff (h : vfp.Split) :
    vfpGetFpscr (setQc vfp) = vfpGetFpscr vfp ||| cpsrQ ↔
      vfp.xregs armVfpFpscr &&&
        ~~~(cpsrQ ||| vfpExceptbitsFromHost vfp.fpStatus.exceptionFlags) = 0 := by
  rw [and_not_eq_zero_iff, BitVec.eq_of_getLsbD_eq_iff, BitVec.eq_of_getLsbD_eq_iff]
  refine forall₂_congr fun i hi => ?_
  rw [(setQc_split h).getLsbD hi, setQc_word, BitVec.getLsbD_or, h.getLsbD hi, BitVec.getLsbD_or,
    BitVec.getLsbD_or]
  have hQ : (16 ≤ i ∧ i < 19 ∨ 20 ≤ i ∧ i < 22) → (cpsrQ : Word).getLsbD i = false := by
    rintro (⟨hlow, hhigh⟩ | ⟨hlow, hhigh⟩)
    all_goals interval_cases i <;> rfl
  show ((if _ then vfp.vecLen.getLsbD _ else if _ then vfp.vecStride.getLsbD _ else
    _ || (vfpExceptbitsFromHost vfp.fpStatus.exceptionFlags).getLsbD i) = _) ↔ _
  split_ifs with hlen hstride
  · rw [hQ (.inl hlen), h.word_getLsbD (.inl hlen)]
    simp
  · rw [hQ (.inr hstride), h.word_getLsbD (.inr hstride)]
    simp
  · cases (cpsrQ : Word).getLsbD i <;> cases (vfp.xregs armVfpFpscr).getLsbD i <;>
      cases (vfpExceptbitsFromHost vfp.fpStatus.exceptionFlags).getLsbD i <;> simp

theorem or_cpsrQ_iff (h : vfp.Split) : vfpGetFpscr vfp = vfpGetFpscr vfp ||| cpsrQ ↔
    (vfp.xregs armVfpFpscr).getLsbD 27 = true := by
  rw [← h.mode (i := 27) (by decide), eq_comm, ← and_not_eq_zero_iff,
    show (cpsrQ : Word) = BitVec.twoPow 32 27 from rfl, BitVec.and_comm,
      and_twoPow_eq_zero _ (by decide)]
  simp

/-! ### Runs -/

theorem fpscrRunInit_inv : fpscrRunInit.Inv where
  read := by decide
  modes := by decide
  split := by constructor <;> decide

/-- What an operation leaves. -/
theorem FpscrRun.Inv.exec (h : x.Inv) (hexec : x.exec op = some x') :
    x'.vfp.Split ∧ x'.vfp.fpStatus.Matches x'.expected ∧
      (vfpGetFpscr x'.vfp = x'.expected ↔ op.KeepsFpscr x) := by
  have hm := h.modes
  rw [h.read] at hm
  -- the split and the modes survive every operation, only the value read back may differ
  cases op with
  | setFpscr val =>
    obtain rfl := Option.some.inj hexec
    refine ⟨vfpSetFpscr_split _ val, vfpSetFpscr_modes h.split h.modes val, ?_⟩
    show vfpGetFpscr (vfpSetFpscr x.vfp val) = val ↔ _
    rw [vfpGetFpscr_set]
    exact (and_not_eq_zero_iff _ _).symm
  | compare rel flags =>
    obtain rfl := Option.some.inj hexec
    refine ⟨vfpCmp_split h.split rel flags, hm.congr rfl rfl rfl fun i h₁ h₂ => ?_,
      fun _ => trivial, fun _ => ?_⟩
    · have hmask : (0x0fffffff : Word).getLsbD i = true := by interval_cases i <;> rfl
      show (_ ||| ((_ ||| _) &&& _) : Word).getLsbD i = _
      rw [BitVec.getLsbD_or, nzcv_getLsbD rel (by omega), BitVec.getLsbD_and, hmask,
        BitVec.getLsbD_or, exceptbitsFromHost_getLsbD _ (by omega), decide_eq_false (by omega)]
      simp
    · show _ = _ ||| ((x.expected ||| _) &&& _)
      rw [← h.read]
      exact vfpGetFpscr_cmp h.split rel flags
  | float flags =>
    obtain rfl := Option.some.inj hexec
    refine ⟨floatRaise_split h.split flags, hm.congr rfl rfl rfl fun i h₁ h₂ => ?_,
      fun _ => trivial, fun _ => ?_⟩
    · show (x.expected ||| vfpExceptbitsFromHost flags).getLsbD i = _
      rw [BitVec.getLsbD_or, exceptbitsFromHost_getLsbD _ (by omega), decide_eq_false (by omega)]
      simp
    · show _ = x.expected ||| _
      rw [← h.read]
      exact vfpGetFpscr_raise x.vfp flags
  | saturate helper clamped =>
    have hQ : ∀ i, 22 ≤ i → i < 26 → (x.expected ||| cpsrQ).getLsbD i = x.expected.getLsbD i := by
      intro i h₁ h₂
      have hbit : (cpsrQ : Word).getLsbD i = false := by interval_cases i <;> rfl
      rw [BitVec.getLsbD_or, hbit, Bool.or_false]
    cases clamped with
    | false =>
      obtain rfl := Option.some.inj hexec
      cases helper <;> exact ⟨h.split, hm, fun _ => trivial, fun _ => h.read⟩
    | true =>
      cases helper with
      | setQc =>
        obtain rfl := Option.some.inj hexec
        refine ⟨setQc_split h.split, hm.congr rfl rfl rfl hQ, ?_⟩
        show vfpGetFpscr (setQc x.vfp) = x.expected ||| cpsrQ ↔ _
        rw [← h.read]
        exact vfpGetFpscr_setQc_iff h.split
      | setQF =>
        obtain rfl := Option.some.inj hexec
        refine ⟨h.split, hm.congr rfl rfl rfl hQ, ?_⟩
        show vfpGetFpscr x.vfp = x.expected ||| cpsrQ ↔ _
        rw [← h.read]
        exact or_cpsrQ_iff h.split

theorem FpscrRun.exec_isSome (x : FpscrRun) (op : VfpOp) : ∃ x', x.exec op = some x' := by
  rcases op with val | ⟨rel, flags⟩ | flags | ⟨_ | _, _ | _⟩
  all_goals exact ⟨_, rfl⟩

end

/-- **The FPSCR.**  Reads give what is expected in all states of a run, with the modes of it, if and
    only if all operations keep it. -/
theorem fpscr_reads (ops : List VfpOp) :
    (∃ x', runFrom FpscrRun.exec fpscrRunInit ops = some x' ∧
      ∀ n x, runFrom FpscrRun.exec fpscrRunInit (ops.take n) = some x → x.Right) ↔
      StepsMeet FpscrRun.exec (fun x op => op.KeepsFpscr x) fpscrRunInit ops := by
  refine runFrom_total_iff (I := FpscrRun.Inv) (fun x h => h.toRight) (fun x op h hop => ?_)
    (fun x op x' h hop hexec hright => ?_) fpscrRunInit_inv
  · obtain ⟨x', hexec⟩ := x.exec_isSome op
    obtain ⟨hsplit, hm, hread⟩ := h.exec hexec
    have hread := hread.mpr hop
    exact ⟨x', hexec, ⟨hread, hread ▸ hm⟩, hsplit⟩
  · exact hop ((h.exec hexec).2.2.mp hright.read)

/-- A trap that is enabled is read back as an exception, a sum that saturates clears the condition
    flags, and one of 64 bits does not set QC. -/
theorem fpscr_reads_lost :
    (∃ x, runFrom FpscrRun.exec fpscrRunInit [.setFpscr 0x100] = some x ∧
      vfpGetFpscr x.vfp = 0x101 ∧ x.expected = 0x100) ∧
    (∃ x, runFrom FpscrRun.exec fpscrRunInit [.compare .less 0, .saturate .setQc true] = some x ∧
      vfpGetFpscr x.vfp = 0x08000000 ∧ x.expected = 0x88000000) ∧
    (∃ x, runFrom FpscrRun.exec fpscrRunInit [.saturate .setQF true] = some x ∧
      vfpGetFpscr x.vfp = 0 ∧ x.expected = 0x08000000) :=
  ⟨⟨_, rfl, by decide, by decide⟩, ⟨_, rfl, by decide, by decide⟩, ⟨_, rfl, by decide, by decide⟩⟩

end Qemu.Arm
