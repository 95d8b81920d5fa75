import Mathlib.Data.List.Basic
import Mathlib.Algebra.Ring.Nat

namespace Qemu.Tcg

/-!
# TCG operations (`tcg-opc.h`, `tcg.h`)

A translation block is a list of `Op`s, each with the slice of `gen_opparam_buf` that belongs to it,
and the temps the block uses.  `tcgOpDefs` is the table that `tcg-opc.h` expands to, for each width
of host register and target address.

The last part names what an op reads and writes:

* `Op.ins`, `Op.outs` — the temps among its input arguments, and those it gives a new value;
* `Op.bbEnd` — it ends a basic block: a jump (`TCG_OPF_BB_END`) or a label;
* `Op.syncs` — the globals must hold their values in memory while it runs.
-/

/-- `tcg_target_ulong`: a temp, a constant, a label or a count. -/
abbrev TCGArg := Nat

/-- The macros `tcg-opc.h` depends on: `TCG_TARGET_REG_BITS == 64` and `TARGET_LONG_BITS == 64`. -/
structure Config where
  regBits64 : Bool
  longBits64 : Bool
deriving DecidableEq, Repr

/-- `TCG_CALL_DUMMY_ARG`, `(TCGArg)(-1)`. -/
def Config.callDummyArg (c : Config) : TCGArg := if c.regBits64 then 2 ^ 64 - 1 else 2 ^ 32 - 1

/-! ### Opcodes -/

/-- `INDEX_op_*`.  `endOp` is `INDEX_op_end`. -/
inductive Opc
  | endOp | nop | nop1 | nop2 | nop3 | nopn | discard | setLabel | call | jmp | br | movI32
  | moviI32 | ld8uI32 | ld8sI32 | ld16uI32 | ld16sI32 | ldI32 | st8I32 | st16I32 | stI32 | addI32
  | subI32 | mulI32 | divI32 | divuI32 | remI32 | remuI32 | div2I32 | divu2I32 | andI32 | orI32
  | xorI32 | shlI32 | shrI32 | sarI32 | rotlI32 | rotrI32 | brcondI32 | add2I32 | sub2I32
  | brcond2I32 | mulu2I32 | ext8sI32 | ext16sI32 | ext8uI32 | ext16uI32 | bswap16I32 | bswap32I32
  | notI32 | negI32 | movI64 | moviI64 | ld8uI64 | ld8sI64 | ld16uI64 | ld16sI64 | ld32uI64
  | ld32sI64 | ldI64 | st8I64 | st16I64 | st32I64 | stI64 | addI64 | subI64 | mulI64 | divI64
  | divuI64 | remI64 | remuI64 | div2I64 | divu2I64 | andI64 | orI64 | xorI64 | shlI64 | shrI64
  | sarI64 | rotlI64 | rotrI64 | brcondI64 | ext8sI64 | ext16sI64 | ext32sI64 | ext8uI64
  | ext16uI64 | ext32uI64 | bswap16I64 | bswap32I64 | bswap64I64 | notI64 | negI64
  | debugInsnStart | exitTb | gotoTb | qemuLd8u | qemuLd8s | qemuLd16u | qemuLd16s | qemuLd32u
  | qemuLd32s | qemuLd64 | qemuSt8 | qemuSt16 | qemuSt32 | qemuSt64
deriving DecidableEq, Repr

/-- `TCG_OPF_BB_END` -/
abbrev opfBbEnd : Nat := 0x01

/-- `TCG_OPF_CALL_CLOBBER` -/
abbrev opfCallClobber : Nat := 0x02

/-- `TCG_OPF_SIDE_EFFECTS` -/
abbrev opfSideEffects : Nat := 0x04

/-- `TCG_CALL_PURE` -/
abbrev callPure : Nat := 0x0010

/-- `TCG_CALL_CONST` -/
abbrev callConst : Nat := 0x0020

/-- `flags & f` as a condition. -/
def hasFlag (flags f : Nat) : Bool := flags &&& f != 0

/-- `TCGOpDef`, less the name and the constraints of the host. -/
structure TCGOpDef where
  nbOargs : Nat
  nbIargs : Nat
  nbCargs : Nat
  nbArgs : Nat
  flags : Nat
deriving DecidableEq, Repr

/-- `DEF2(name, oargs, iargs, cargs, flags)` -/
def def2 (oargs iargs cargs flags : Nat) : TCGOpDef :=
  ⟨oargs, iargs, cargs, oargs + iargs + cargs, flags⟩

/-- `tcg_op_defs` -/
def tcgOpDefs (c : Config) : Opc → TCGOpDef
  | .endOp | .nop => def2 0 0 0 0
  | .nop1 | .nopn | .setLabel => def2 0 0 1 0
  | .nop2 => def2 0 0 2 0
  | .nop3 => def2 0 0 3 0
  | .discard => def2 1 0 0 0
  | .call => def2 0 1 2 opfSideEffects
  | .jmp => def2 0 1 0 (opfBbEnd ||| opfSideEffects)
  | .br | .exitTb | .gotoTb => def2 0 0 1 (opfBbEnd ||| opfSideEffects)
  | .movI32 | .ext8sI32 | .ext16sI32 | .ext8uI32 | .ext16uI32 | .bswap16I32 | .bswap32I32
  | .notI32 | .negI32 | .movI64 | .ext8sI64 | .ext16sI64 | .ext32sI64 | .ext8uI64 | .ext16uI64
  | .ext32uI64 | .bswap16I64 | .bswap32I64 | .bswap64I64 | .notI64 | .negI64 =>
    def2 1 1 0 0
  | .moviI32 | .moviI64 => def2 1 0 1 0
  | .ld8uI32 | .ld8sI32 | .ld16uI32 | .ld16sI32 | .ldI32 | .ld8uI64 | .ld8sI64 | .ld16uI64
  | .ld16sI64 | .ld32uI64 | .ld32sI64 | .ldI64 =>
    def2 1 1 1 0
  | .st8I32 | .st16I32 | .stI32 | .st8I64 | .st16I64 | .st32I64 | .stI64 =>
    def2 0 2 1 opfSideEffects
  | .addI32 | .subI32 | .mulI32 | .divI32 | .divuI32 | .remI32 | .remuI32 | .andI32 | .orI32
  | .xorI32 | .shlI32 | .shrI32 | .sarI32 | .rotlI32 | .rotrI32 | .addI64 | .subI64 | .mulI64
  | .divI64 | .divuI64 | .remI64 | .remuI64 | .andI64 | .orI64 | .xorI64 | .shlI64 | .shrI64
  | .sarI64 | .rotlI64 | .rotrI64 =>
    def2 1 2 0 0
  | .div2I32 | .divu2I32 | .div2I64 | .divu2I64 => def2 2 3 0 0
  | .brcondI32 | .brcondI64 => def2 0 2 2 (opfBbEnd ||| opfSideEffects)
  | .add2I32 | .sub2I32 => def2 2 4 0 0
  | .brcond2I32 => def2 0 4 2 (opfBbEnd ||| opfSideEffects)
  | .mulu2I32 => def2 2 2 0 0
  | .debugInsnStart => def2 0 0 (if !c.regBits64 && c.longBits64 then 2 else 1) 0
  | .qemuLd8u | .qemuLd8s | .qemuLd16u | .qemuLd16s | .qemuLd32u | .qemuLd32s =>
    def2 1 (if !c.regBits64 && c.longBits64 then 2 else 1) 1 (opfCallClobber ||| opfSideEffects)
  | .qemuLd64 =>
    def2 (if c.regBits64 then 1 else 2) (if !c.regBits64 && c.longBits64 then 2 else 1) 1
      (opfCallClobber ||| opfSideEffects)
  | .qemuSt8 | .qemuSt16 | .qemuSt32 =>
    def2 0 (if !c.regBits64 && c.longBits64 then 3 else 2) 1 (opfCallClobber ||| opfSideEffects)
  | .qemuSt64 =>
    def2 0 (if c.regBits64 then 2 else if c.longBits64 then 4 else 3) 1
      (opfCallClobber ||| opfSideEffects)

/-- The opcodes that `tcg_liveness_analysis` has no case of its own for. -/
def Opc.isDefault : Opc → Bool
  | .call | .setLabel | .debugInsnStart | .nopn | .discard | .endOp => false
  | _ => true

/-- A host load, `ld*_i32` or `ld*_i64`. -/
def Opc.isLoad : Opc → Bool
  | .ld8uI32 | .ld8sI32 | .ld16uI32 | .ld16sI32 | .ldI32 | .ld8uI64 | .ld8sI64 | .ld16uI64
  | .ld16sI64 | .ld32uI64 | .ld32sI64 | .ldI64 => true
  | _ => false

/-! ### Facts about the table -/

theorem tcgOpDefs_bbEnd (c : Config) (opc : Opc)
    (hf : hasFlag (tcgOpDefs c opc).flags opfBbEnd) :
    hasFlag (tcgOpDefs c opc).flags opfSideEffects ∧
      ¬ hasFlag (tcgOpDefs c opc).flags opfCallClobber := by
  obtain ⟨_ | _, _ | _⟩ := c <;> cases opc <;> revert hf <;> decide

theorem tcgOpDefs_callClobber (c : Config) (opc : Opc)
    (hf : hasFlag (tcgOpDefs c opc).flags opfCallClobber) :
    hasFlag (tcgOpDefs c opc).flags opfSideEffects := by
  obtain ⟨_ | _, _ | _⟩ := c <;> cases opc <;> revert hf <;> decide

theorem tcgOpDefs_nbOargs (c : Config) (opc : Opc)
    (hs : hasFlag (tcgOpDefs c opc).flags opfSideEffects)
    (hk : ¬ hasFlag (tcgOpDefs c opc).flags opfCallClobber) : (tcgOpDefs c opc).nbOargs = 0 := by
  obtain ⟨_ | _, _ | _⟩ := c <;> cases opc <;> revert hs hk <;> decide

/-! ### Ops and temps -/

/-- An opcode of `gen_opc_buf` with its arguments in `gen_opparam_buf`. -/
structure Op where
  opc : Opc
  args : List TCGArg
deriving DecidableEq, Repr

/-- `args[i]` -/
def Op.arg (op : Op) (i : Nat) : TCGArg := op.args.getD i 0

/-- The fields of `TCGTemp` that do not change while code is generated, as far as the liveness
    analysis reads them. -/
structure TempDecl where
  tempLocal : Bool
deriving DecidableEq, Repr

/-- The temps of a block, the globals first. -/
structure Temps where
  nbGlobals : Nat
  temps : List TempDecl
deriving DecidableEq, Repr

/-- `nb_temps` -/
def Temps.nbTemps (s : Temps) : Nat := s.temps.length

/-- `s->temps[i].temp_local` -/
def Temps.tempLocal (s : Temps) (i : Nat) : Bool := (s.temps[i]?.map (·.tempLocal)).getD false

/-- A temp that a basic-block end does not preserve: neither global nor local. -/
def Temps.Plain (s : Temps) (t : TCGArg) : Prop := s.nbGlobals ≤ t ∧ s.tempLocal t = false

instance (s : Temps) (t : TCGArg) : Decidable (s.Plain t) := inferInstanceAs (Decidable (_ ∧ _))

/-! ### The arguments of an op

The arguments of a call are a word with the two counts, the outputs, the inputs (the function last),
the call flags and the number of arguments, so that the list can be walked backwards. -/

/-- Number of outputs: the high half of the first argument of a call. -/
def Op.nbOargs (c : Config) (op : Op) : Nat :=
  if op.opc = .call then op.arg 0 >>> 16 else (tcgOpDefs c op.opc).nbOargs

/-- Number of inputs: the low half of the first argument of a call. -/
def Op.nbIargs (c : Config) (op : Op) : Nat :=
  if op.opc = .call then op.arg 0 &&& 0xffff else (tcgOpDefs c op.opc).nbIargs

/-- The arguments from the outputs on. -/
def Op.params (op : Op) : List TCGArg := if op.opc = .call then op.args.tail else op.args

/-- The output arguments. -/
def Op.oargs (c : Config) (op : Op) : List TCGArg := op.params.take (op.nbOargs c)

/-- The input arguments; those of a call may hold `TCG_CALL_DUMMY_ARG`. -/
def Op.iargs (c : Config) (op : Op) : List TCGArg :=
  (op.params.drop (op.nbOargs c)).take (op.nbIargs c)

/-- The constant arguments of an op other than a call. -/
def Op.cargs (c : Config) (op : Op) : List TCGArg :=
  op.params.drop (op.nbOargs c + op.nbIargs c)

/-- `call_flags` -/
def Op.callFlags (c : Config) (op : Op) : Nat :=
  op.params.getD (op.nbOargs c + op.nbIargs c) 0

/-- The input argument `a` is a temp and not the padding of a call. -/
def Op.isTemp (c : Config) (op : Op) (a : TCGArg) : Bool :=
  op.opc != .call || a != c.callDummyArg

/-- The temps an op reads as input arguments. -/
def Op.ins (c : Config) (op : Op) : List TCGArg := (op.iargs c).filter (op.isTemp c)

/-- The temps an op gives a new value.  `discard` has its temp as an output: the value it leaves
    is unspecified. -/
def Op.outs (c : Config) (op : Op) : List TCGArg := op.oargs c

theorem Op.outs_eq_nil {c : Config} {op : Op} (hc : op.opc ≠ .call)
    (h : (tcgOpDefs c op.opc).nbOargs = 0) : op.outs c = [] := by
  simp [Op.outs, Op.oargs, Op.nbOargs, hc, h]

theorem Op.iargs_eq_nil {c : Config} {op : Op} (hc : op.opc ≠ .call)
    (h : (tcgOpDefs c op.opc).nbIargs = 0) : op.iargs c = [] := by
  simp [Op.iargs, Op.nbIargs, hc, h]

/-- The op ends a basic block. -/
def Op.bbEnd (c : Config) (op : Op) : Bool :=
  op.opc == .setLabel || hasFlag (tcgOpDefs c op.opc).flags opfBbEnd

/-- The globals are in memory while the op runs: it ends a basic block, it can leave the block
    through an exception, or it is a call that may use them. -/
def Op.syncs (c : Config) (op : Op) : Bool :=
  op.bbEnd c || hasFlag (tcgOpDefs c op.opc).flags opfCallClobber ||
    (op.opc == .call && !hasFlag (op.callFlags c) callConst)

/-- The op reads the temp, as an input or as a global that is in memory. -/
def Op.Reads (c : Config) (s : Temps) (op : Op) (t : TCGArg) : Prop :=
  t ∈ op.ins c ∨ (op.syncs c = true ∧ t < s.nbGlobals)

end Qemu.Tcg
