import Qemu.Tcg.Op
import Qemu.Lib.Machine

namespace Qemu.Tcg

open Qemu.Lib

/-!
# What a list of ops computes

A state holds the values of the temps and the rest of the machine, the *world*: guest memory, host
memory outside the globals, devices.  What an opcode or a helper computes is a parameter, `Host`,
whose fields have the types that `tcg.h` and `tcg/README` promise: an op without side effects and a
pure helper leave the world alone, a const helper sees no global, `discard` leaves any value.

* `execOp` — one op; `step` — the op at the program counter; events record the accesses to memory,
  the calls, the labels and the jumps, with the globals wherever these have to be in memory;
* `succs` — the indices an op can continue at, and `execState_pc` that it does;
* `execOp_agree` — an op only depends on what it reads.
-/

variable {Val W : Type*}

/-! ### Ops and helpers -/

/-- How an op or a helper ends: with its results, having updated the globals or left them alone, or
    with an exception that leaves the block. -/
inductive Outcome (Val W : Type*)
  | ret (outs : Nat → Val) (globals : Option (Nat → Val)) (world : W)
  | raise (world : W)

/-- The meaning of opcodes and helpers. -/
structure Host (Val W : Type*) where
  /-- The value of a constant. -/
  imm : TCGArg → Val
  /-- The value left by `discard`. -/
  undef : W → Val × W
  /-- The outputs of an op without side effects, host loads included. -/
  eval : Opc → List Val → List TCGArg → W → Nat → Val
  /-- A host store. -/
  store : Opc → List Val → List TCGArg → W → W
  /-- `qemu_ld*` and `qemu_st*`, given the globals. -/
  access : Opc → List Val → List TCGArg → List Val → W → Outcome Val W
  /-- The condition of a `brcond`. -/
  cond : Opc → List Val → TCGArg → Bool
  /-- `goto_tb`: the jump slot has been chained to another block. -/
  chained : TCGArg → W → Bool
  /-- A helper with `TCG_CALL_PURE`, given the globals unless it is const. -/
  pureCall : List (Option Val) → Option (List Val) → W → Nat → Val
  /-- A helper with `TCG_CALL_CONST` alone. -/
  constCall : List (Option Val) → W → (Nat → Val) × W
  /-- Any other helper. -/
  helper : List (Option Val) → List Val → W → Outcome Val W

/-- The state between two ops; the program counter is an index into the ops, or `none` once the
    block has been left. -/
structure St (Val W : Type*) where
  pc : Option Nat
  temps : Nat → Val
  world : W

/-- An executed op that can be seen from outside: its inputs, constants and call flags, and the
    globals if they have to be in memory. -/
structure Event (Val : Type*) where
  pc : Nat
  opc : Opc
  ins : List (Option Val)
  cargs : List TCGArg
  globals : Option (List Val)
deriving DecidableEq

/-- The op leaves an event: it accesses memory, calls, jumps or is a label. -/
def Op.observed (c : Config) (op : Op) : Bool :=
  op.opc.isLoad || op.opc == .setLabel || hasFlag (tcgOpDefs c op.opc).flags opfSideEffects

/-- The values of the globals. -/
def Temps.globals (s : Temps) (temps : Nat → Val) : List Val := (List.range s.nbGlobals).map temps

/-- The globals as a helper left them. -/
def Temps.setGlobals (s : Temps) (g : Option (Nat → Val)) (temps : Nat → Val) : Nat → Val :=
  fun t => if t < s.nbGlobals then (g.map (· t)).getD (temps t) else temps t

/-- The values of the inputs of a call; padding has none. -/
def Op.argVals (c : Config) (op : Op) (temps : Nat → Val) : List (Option Val) :=
  (op.iargs c).map fun a => if op.isTemp c a then some (temps a) else none

/-- The outputs from the `k`-th on get their values. -/
def setOuts (f : Nat → Val) : Nat → List TCGArg → (Nat → Val) → Nat → Val
  | _, [], temps => temps
  | k, a :: as, temps => setOuts f (k + 1) as (Function.update temps a (f k))

/-- The event of an op. -/
def Op.event (c : Config) (s : Temps) (pc : Nat) (op : Op) (temps : Nat → Val) : Event Val :=
  { pc := pc
    opc := op.opc
    ins := op.argVals c temps
    cargs := op.cargs c
    globals := if op.syncs c then some (s.globals temps) else none }

/-- `mov` and `movi` copy; what other ops compute is up to the host. -/
def Host.evalOp (H : Host Val W) (opc : Opc) (vals : List Val) (cargs : List TCGArg) (w : W) :
    Nat → Val :=
  match opc with
  | .movI32 | .movI64 => fun _ => vals.headD (H.imm 0)
  | .moviI32 | .moviI64 => fun _ => H.imm (cargs.headD 0)
  | _ => H.eval opc vals cargs w

/-- Where a jump goes, given the places of the labels and of what follows; `jmp`, `exit_tb` and a
    chained `goto_tb` leave the block. -/
def Host.target {α : Type*} (H : Host Val W) (lbl : TCGArg → Option α) (next : α) (opc : Opc)
    (vals : List Val) (cargs : List TCGArg) (w : W) : Option α :=
  match opc with
  | .br => lbl (cargs.getD 0 0)
  | .brcondI32 | .brcondI64 | .brcond2I32 =>
    if H.cond opc vals (cargs.getD 0 0) then lbl (cargs.getD 1 0) else some next
  | .gotoTb => if H.chained (cargs.getD 0 0) w then none else some next
  | _ => none

/-- The state after a guest access or a helper with outputs `oargs`. -/
def Outcome.finish (s : Temps) (pc : Nat) (oargs : List TCGArg) (temps : Nat → Val) :
    Outcome Val W → St Val W
  | .ret outs g w => ⟨some (pc + 1), setOuts outs 0 oargs (s.setGlobals g temps), w⟩
  | .raise w => ⟨none, temps, w⟩

variable {pc : Nat} {w : W}

theorem finish_ret_none {s : Temps} {oargs : List TCGArg} {temps outs : Nat → Val} :
    (Outcome.ret outs none w).finish s pc oargs temps
      = ⟨some (pc + 1), setOuts outs 0 oargs temps, w⟩ := by
  have hg : s.setGlobals none temps = temps := by
    ext1 t
    simp [Temps.setGlobals]
  rw [Outcome.finish, hg]

/-- The effect of a call, by its flags; a const helper is not given the globals. -/
def Host.callOutcome (H : Host Val W) (flags : Nat) (vals : List (Option Val)) (g : List Val)
    (w : W) : Outcome Val W :=
  if hasFlag flags callPure then
    .ret (H.pureCall vals (if hasFlag flags callConst then none else some g) w) none w
  else if hasFlag flags callConst then .ret (H.constCall vals w).1 none (H.constCall vals w).2
  else H.helper vals g w

/-- The effect of an op that is no jump, by the flags of the table. -/
def Host.opOutcome (H : Host Val W) (c : Config) (opc : Opc) (vals : List Val)
    (cargs : List TCGArg) (g : List Val) (w : W) : Outcome Val W :=
  if hasFlag (tcgOpDefs c opc).flags opfCallClobber then H.access opc vals cargs g w
  else if hasFlag (tcgOpDefs c opc).flags opfSideEffects then
    .ret (fun _ => H.imm 0) none (H.store opc vals cargs w)
  else .ret (H.evalOp opc vals cargs w) none w

/-- Any op without a case of its own. -/
def Host.execDefault (H : Host Val W) (c : Config) (s : Temps) (lbl : TCGArg → Option Nat)
    (pc : Nat) (op : Op) (temps : Nat → Val) (w : W) : St Val W :=
  if hasFlag (tcgOpDefs c op.opc).flags opfBbEnd then
    ⟨H.target lbl (pc + 1) op.opc ((op.iargs c).map temps) (op.cargs c) w, temps, w⟩
  else
    (H.opOutcome c op.opc ((op.iargs c).map temps) (op.cargs c) (s.globals temps) w).finish s pc
      (op.oargs c) temps

/-- The state after the op at `pc`. -/
def Host.execState (H : Host Val W) (c : Config) (s : Temps) (lbl : TCGArg → Option Nat)
    (pc : Nat) (op : Op) (temps : Nat → Val) (w : W) : St Val W :=
  match op.opc with
  | .endOp => ⟨none, temps, w⟩
  | .nopn | .debugInsnStart | .setLabel => ⟨some (pc + 1), temps, w⟩
  | .discard => ⟨some (pc + 1), Function.update temps (op.arg 0) (H.undef w).1, (H.undef w).2⟩
  | .call =>
    (H.callOutcome (op.callFlags c) (op.argVals c temps) (s.globals temps) w).finish s pc
      (op.oargs c) temps
  | _ => H.execDefault c s lbl pc op temps w

/-- One op: its event and the state after it. -/
def Host.execOp (H : Host Val W) (c : Config) (s : Temps) (lbl : TCGArg → Option Nat)
    (pc : Nat) (op : Op) (temps : Nat → Val) (w : W) : List (Event Val) × St Val W :=
  (if op.observed c then [op.event c s pc temps] else [], H.execState c s lbl pc op temps w)

variable {H : Host Val W} {lbl : TCGArg → Option Nat}

theorem Host.mem_execOp {c : Config} {s : Temps} {op : Op} {temps : Nat → Val} {e : Event Val}
    (h : e ∈ (H.execOp c s lbl pc op temps w).1) :
    op.observed c = true ∧ e = op.event c s pc temps := by
  unfold Host.execOp at h
  by_cases ho : op.observed c
  · rw [if_pos ho] at h
    exact ⟨ho, List.mem_singleton.mp h⟩
  · rw [if_neg ho] at h
    exact absurd h List.not_mem_nil

/-- The op is `set_label l`. -/
def Op.setsLabel (l : TCGArg) (op : Op) : Bool := op.opc == .setLabel && op.arg 0 == l

theorem Op.setsLabel_of_ne {op : Op} (h : op.opc ≠ .setLabel) (l : TCGArg) :
    op.setsLabel l = false := by
  rw [Op.setsLabel, beq_eq_false_iff_ne.mpr h, Bool.false_and]

/-- The position of a label: that of the `set_label` that sets it. -/
def findLabel (code : List Op) (l : TCGArg) : Option Nat := code.findIdx? (Op.setsLabel l)

/-- One step of a list of ops. -/
def Host.step (H : Host Val W) (c : Config) (s : Temps) (code : List Op) (σ : St Val W) :
    List (Event Val) × St Val W :=
  match σ.pc with
  | none => ([], σ)
  | some pc =>
    match code[pc]? with
    | none => ([], { σ with pc := none })
    | some op => H.execOp c s (findLabel code) pc op σ.temps σ.world

/-! ### Control flow -/

/-- The indices an op at `pc` can continue at. -/
def succs (lbl : TCGArg → Option Nat) (c : Config) (pc : Nat) (op : Op) : List Nat :=
  match op.opc with
  | .endOp | .jmp | .exitTb => []
  | .br => (lbl ((op.cargs c).getD 0 0)).toList
  | .brcondI32 | .brcondI64 | .brcond2I32 => (pc + 1) :: (lbl ((op.cargs c).getD 1 0)).toList
  | _ => [pc + 1]

variable {p : Nat}

theorem Outcome.finish_pc {s : Temps} {oargs : List TCGArg} {temps : Nat → Val}
    {o : Outcome Val W} (h : (o.finish s pc oargs temps).pc = some p) : p = pc + 1 := by
  cases o with
  | ret outs g w => exact (Option.some.inj h).symm
  | raise w => exact absurd h (by simp [Outcome.finish])

/-- A jump goes to one of its successors. -/
theorem Host.target_mem_succs {c : Config} {op : Op} {vals : List Val}
    (h : H.target lbl (pc + 1) op.opc vals (op.cargs c) w = some p) : p ∈ succs lbl c pc op := by
  have hbr : ∀ l, lbl l = some p → p ∈ (lbl l).toList := by
    intro l hl
    rw [hl]
    simp
  unfold Host.target at h
  unfold succs
  split at h <;> rename_i heq
  · simp only [heq]
    exact hbr _ h
  · simp only [heq]
    split at h
    · exact List.mem_cons_of_mem _ (hbr _ h)
    · rw [← Option.some.inj h]
      exact List.mem_cons_self
  · simp only [heq]
    split at h
    · exact List.mem_cons_of_mem _ (hbr _ h)
    · rw [← Option.some.inj h]
      exact List.mem_cons_self
  · simp only [heq]
    split at h
    · exact List.mem_cons_of_mem _ (hbr _ h)
    · rw [← Option.some.inj h]
      exact List.mem_cons_self
  · simp only [heq]
    split at h
    · exact absurd h (by simp)
    · rw [← Option.some.inj h]
      exact List.mem_cons_self
  · exact absurd h (by simp)

theorem succs_of_not_bbEnd {c : Config} {op : Op}
    (hb : hasFlag (tcgOpDefs c op.opc).flags opfBbEnd = false) (he : op.opc ≠ .endOp) :
    succs lbl c pc op = [pc + 1] := by
  unfold succs
  split <;> simp_all [tcgOpDefs, def2, hasFlag]

/-- **Execution follows the control flow.** -/
theorem Host.execState_pc {c : Config} {s : Temps} {op : Op} {temps : Nat → Val}
    (h : (H.execState c s lbl pc op temps w).pc = some p) : p ∈ succs lbl c pc op := by
  unfold Host.execState at h
  split at h <;> rename_i heq
  · exact absurd h (by simp)
  · rw [← Option.some.inj h]
    simp [succs, heq]
  · rw [← Option.some.inj h]
    simp [succs, heq]
  · rw [← Option.some.inj h]
    simp [succs, heq]
  · rw [← Option.some.inj h]
    simp [succs, heq]
  · rw [Outcome.finish_pc h]
    simp [succs, heq]
  · unfold Host.execDefault at h
    by_cases hb : hasFlag (tcgOpDefs c op.opc).flags opfBbEnd
    · rw [if_pos hb] at h
      exact Host.target_mem_succs h
    · rw [succs_of_not_bbEnd (by simpa using hb) (by assumption), List.mem_singleton]
      rw [if_neg hb] at h
      exact Outcome.finish_pc h

/-! ### What an op depends on -/

/-- The temps hold the same values wherever the op reads. -/
def Op.Agree (c : Config) (s : Temps) (op : Op) (temps temps' : Nat → Val) : Prop :=
  ∀ t, op.Reads c s t → temps t = temps' t

/-- Two results of an op: the same place and world and, unless the block is left, the same value in
    its outputs and wherever the temps agreed before. -/
structure SameResult (c : Config) (op : Op) (temps temps' : Nat → Val) (σ σ' : St Val W) :
    Prop where
  pc : σ.pc = σ'.pc
  world : σ.world = σ'.world
  temps : σ.pc ≠ none → ∀ t, t ∈ op.outs c ∨ temps t = temps' t → σ.temps t = σ'.temps t

/-- Outputs agree, and what agreed before still does. -/
theorem setOuts_agree (f : Nat → Val) (k : Nat) (as : List TCGArg) {temps temps' : Nat → Val}
    {t : TCGArg} (h : t ∈ as ∨ temps t = temps' t) :
    setOuts f k as temps t = setOuts f k as temps' t := by
  induction as generalizing k temps temps' with
  | nil => exact h.resolve_left List.not_mem_nil
  | cons a as ih =>
    apply ih
    by_cases hta : t = a
    · right
      rw [hta, Function.update_self, Function.update_self]
    · rw [Function.update_of_ne hta, Function.update_of_ne hta]
      obtain h | h := h
      · exact Or.inl ((List.mem_cons.mp h).resolve_left hta)
      · exact Or.inr h

section Agree

variable {c : Config} {s : Temps} {op : Op} {temps temps' : Nat → Val}

theorem Op.Agree.globals (h : op.Agree c s temps temps') (hs : op.syncs c = true) :
    s.globals temps = s.globals temps' :=
  List.map_congr_left fun t ht => h t (Or.inr ⟨hs, List.mem_range.mp ht⟩)

theorem Op.Agree.argVals (h : op.Agree c s temps temps') :
    op.argVals c temps = op.argVals c temps' := by
  apply List.map_congr_left
  intro a ha
  by_cases hf : op.isTemp c a
  · rw [if_pos hf, if_pos hf, h a (Or.inl (List.mem_filter.mpr ⟨ha, hf⟩))]
  · rw [if_neg hf, if_neg hf]

theorem Op.Agree.vals (h : op.Agree c s temps temps') (hc : op.opc ≠ .call) :
    (op.iargs c).map temps = (op.iargs c).map temps' := by
  apply List.map_congr_left
  intro a ha
  exact h a (Or.inl (List.mem_filter.mpr ⟨ha, by simp [Op.isTemp, hc]⟩))

theorem Op.Agree.event (h : op.Agree c s temps temps') (pc : Nat) :
    op.event c s pc temps = op.event c s pc temps' := by
  unfold Op.event
  rw [h.argVals]
  by_cases hs : op.syncs c
  · rw [if_pos hs, if_pos hs, h.globals hs]
  · rw [if_neg hs, if_neg hs]

theorem SameResult.next (f : Nat → Val) (w : W) (pc : Nat) :
    SameResult c op temps temps' ⟨some pc, setOuts f 0 (op.oargs c) temps, w⟩
      ⟨some pc, setOuts f 0 (op.oargs c) temps', w⟩ :=
  ⟨rfl, rfl, fun _ _ ht => setOuts_agree f 0 _ ht⟩

theorem SameResult.keep (ho : op.outs c = []) (w : W) (p : Option Nat) :
    SameResult c op temps temps' ⟨p, temps, w⟩ ⟨p, temps', w⟩ := by
  refine ⟨rfl, rfl, fun _ t ht => ?_⟩
  rw [ho] at ht
  exact ht.resolve_left List.not_mem_nil

theorem Outcome.finish_agree (o : Outcome Val W) (pc : Nat) :
    SameResult c op temps temps' (o.finish s pc (op.oargs c) temps)
      (o.finish s pc (op.oargs c) temps') := by
  cases o with
  | ret outs g w =>
    refine ⟨rfl, rfl, fun _ t ht => setOuts_agree outs 0 _ ?_⟩
    obtain ht | ht := ht
    · exact Or.inl ht
    · right
      unfold Temps.setGlobals
      rw [ht]
  | raise w => exact ⟨rfl, rfl, fun h => absurd rfl h⟩

theorem Host.callOutcome_const (H : Host Val W) {flags : Nat} (hf : hasFlag flags callConst)
    (vals : List (Option Val)) (g g' : List Val) (w : W) :
    H.callOutcome flags vals g w = H.callOutcome flags vals g' w := by
  simp only [Host.callOutcome, if_pos hf]

theorem Host.opOutcome_globals (H : Host Val W) {opc : Opc}
    (hk : ¬ hasFlag (tcgOpDefs c opc).flags opfCallClobber) (vals : List Val)
    (cargs : List TCGArg) (g g' : List Val) (w : W) :
    H.opOutcome c opc vals cargs g w = H.opOutcome c opc vals cargs g' w := by
  unfold Host.opOutcome
  rw [if_neg hk, if_neg hk]

/-- A call of a helper sees the same arguments and globals. -/
theorem Host.execCall_agree (H : Host Val W) (pc : Nat) (w : W) (hc : op.opc = .call)
    (h : op.Agree c s temps temps') :
    SameResult c op temps temps'
      ((H.callOutcome (op.callFlags c) (op.argVals c temps) (s.globals temps) w).finish s pc
        (op.oargs c) temps)
      ((H.callOutcome (op.callFlags c) (op.argVals c temps') (s.globals temps') w).finish s pc
        (op.oargs c) temps') := by
  have hout : H.callOutcome (op.callFlags c) (op.argVals c temps) (s.globals temps) w
      = H.callOutcome (op.callFlags c) (op.argVals c temps') (s.globals temps') w := by
    rw [h.argVals]
    by_cases hf : hasFlag (op.callFlags c) callConst
    · exact H.callOutcome_const hf _ _ _ w
    · rw [h.globals (by simp [Op.syncs, hc, hf])]
  rw [hout]
  exact Outcome.finish_agree _ pc

/-- So do the other ops. -/
theorem Host.execDefault_agree (H : Host Val W) (lbl : TCGArg → Option Nat) (pc : Nat) (w : W)
    (hc : op.opc ≠ .call) (h : op.Agree c s temps temps') :
    SameResult c op temps temps' (H.execDefault c s lbl pc op temps w)
      (H.execDefault c s lbl pc op temps' w) := by
  unfold Host.execDefault
  rw [h.vals hc]
  by_cases hb : hasFlag (tcgOpDefs c op.opc).flags opfBbEnd
  · rw [if_pos hb, if_pos hb]
    obtain ⟨hs, hk⟩ := tcgOpDefs_bbEnd c op.opc hb
    exact SameResult.keep (Op.outs_eq_nil hc (tcgOpDefs_nbOargs c op.opc hs hk)) w _
  · rw [if_neg hb, if_neg hb]
    have hout : H.opOutcome c op.opc ((op.iargs c).map temps') (op.cargs c) (s.globals temps) w
        = H.opOutcome c op.opc ((op.iargs c).map temps') (op.cargs c) (s.globals temps') w := by
      by_cases hk : hasFlag (tcgOpDefs c op.opc).flags opfCallClobber
      · rw [h.globals (by simp [Op.syncs, hk])]
      · exact H.opOutcome_globals hk _ _ _ _ w
    rw [hout]
    exact Outcome.finish_agree _ pc

/-- **An op only depends on what it reads.** -/
theorem Host.execOp_agree (H : Host Val W) (lbl : TCGArg → Option Nat) (pc : Nat) (w : W)
    (hl : op.opc = .discard → op.args.length = 1) (h : op.Agree c s temps temps') :
    (H.execOp c s lbl pc op temps w).1 = (H.execOp c s lbl pc op temps' w).1 ∧
      SameResult c op temps temps' (H.execOp c s lbl pc op temps w).2
        (H.execOp c s lbl pc op temps' w).2 := by
  refine ⟨by simp only [Host.execOp, h.event], ?_⟩
  show SameResult c op temps temps' (H.execState c s lbl pc op temps w)
    (H.execState c s lbl pc op temps' w)
  unfold Host.execState
  split <;> rename_i heq
  · exact SameResult.keep (Op.outs_eq_nil (by simp [heq]) (by rw [heq]; rfl)) w _
  · exact SameResult.keep (Op.outs_eq_nil (by simp [heq]) (by rw [heq]; rfl)) w _
  · exact SameResult.keep (Op.outs_eq_nil (by simp [heq]) (by rw [heq]; rfl)) w _
  · exact SameResult.keep (Op.outs_eq_nil (by simp [heq]) (by rw [heq]; rfl)) w _
  · obtain ⟨a, ha⟩ := List.length_eq_one_iff.mp (hl heq)
    have ho : op.oargs c = [op.arg 0] := by
      simp [Op.oargs, Op.params, Op.nbOargs, Op.arg, heq, ha, tcgOpDefs, def2]
    have hupd : ∀ tm : Nat → Val, Function.update tm (op.arg 0) (H.undef w).1
        = setOuts (fun _ => (H.undef w).1) 0 (op.oargs c) tm := by
      intro tm
      rw [ho]
      rfl
    rw [hupd, hupd]
    exact SameResult.next _ _ _
  · exact H.execCall_agree pc w heq h
  · exact H.execDefault_agree lbl pc w (by assumption) h

end Agree

end Qemu.Tcg
