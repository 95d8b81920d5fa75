import Qemu.Tcg.Op

namespace Qemu.Tcg

/-!
# The liveness analysis (`tcg_liveness_analysis` of `tcg.c`)

One backward pass over the ops carries `dead_temps`.  It turns an op whose results are all dead into
a no-op of the same length and records in `op_dead_iargs` which inputs die in the op.

* `laOp` — the body of the loop; `laFrom` — the loop, from the last op on;
* `laOp_removed`, `laOp_kept` — what one iteration does to an op and to `dead_temps`;
* `deadAt` — `dead_temps` before the op at an index, and `deadAt_eq` how it comes from the next.
-/

/-! ### The pass -/

/-- `dead_temps` -/
abbrev DeadTemps := Nat → Bool

/-- `tcg_set_nop`: the parameters of the op stay, their number is written at both ends. -/
def tcgSetNop (args : List TCGArg) (nbArgs : Nat) : Op :=
  if nbArgs = 0 then ⟨.nop, args⟩ else ⟨.nopn, (args.set 0 nbArgs).set (nbArgs - 1) nbArgs⟩

/-- `tcg_la_bb_end`: globals are live, temps are dead, local temps are live. -/
def tcgLaBbEnd (s : Temps) (dead : DeadTemps) : DeadTemps := fun i =>
  if i < s.nbGlobals then false else if i < s.nbTemps then !s.tempLocal i else dead i

/-- `memset(dead_temps, 0, s->nb_globals)` -/
def globalsLive (s : Temps) (dead : DeadTemps) : DeadTemps := fun i =>
  if i < s.nbGlobals then false else dead i

/-- "output args are dead" -/
def outputsDead (oargs : List TCGArg) (dead : DeadTemps) : DeadTemps :=
  oargs.foldl (fun d a => Function.update d a true) dead

/-- "input args are live": the loop over the inputs from the `i`-th on, with `dead_iargs`. -/
def inputsLive (isTemp : TCGArg → Bool) :
    Nat → List TCGArg → DeadTemps → Nat → DeadTemps × Nat
  | _, [], dead, deadIargs => (dead, deadIargs)
  | i, a :: as, dead, deadIargs =>
    if isTemp a then
      inputsLive isTemp (i + 1) as (Function.update dead a false)
        (if dead a then deadIargs ||| 1 <<< i else deadIargs)
    else inputsLive isTemp (i + 1) as dead deadIargs

/-- What the pass leaves for one op: the op and its entry of `op_dead_iargs`, a `uint16_t`.  The
    entry of an op that has none is not read by the allocator; it is zero here. -/
structure LaOp where
  op : Op
  deadIargs : Nat
deriving DecidableEq, Repr

/-- The body of the loop of `tcg_liveness_analysis`. -/
def laOp (c : Config) (s : Temps) (op : Op) (dead : DeadTemps) : LaOp × DeadTemps :=
  match op.opc with
  | .call =>
    -- pure functions can be removed if their result is not used
    if hasFlag (op.callFlags c) callPure && (op.oargs c).all dead then
      (⟨tcgSetNop op.args (op.args.getLast?.getD 0), 0⟩, dead)
    else
      let dead := outputsDead (op.oargs c) dead
      let dead := if !hasFlag (op.callFlags c) callConst then globalsLive s dead else dead
      let r := inputsLive (op.isTemp c) 0 (op.iargs c) dead 0
      (⟨op, r.2 % 2 ^ 16⟩, r.1)
  | .setLabel => (⟨op, 0⟩, tcgLaBbEnd s dead)
  | .debugInsnStart => (⟨op, 0⟩, dead)
  | .nopn => (⟨op, 0⟩, dead)
  | .discard => (⟨op, 0⟩, Function.update dead (op.arg 0) true)
  | .endOp => (⟨op, 0⟩, dead)
  | opc =>
    let opDef := tcgOpDefs c opc
    if !hasFlag opDef.flags opfSideEffects && opDef.nbOargs != 0 && (op.oargs c).all dead then
      (⟨tcgSetNop op.args opDef.nbArgs, 0⟩, dead)
    else
      let dead := outputsDead (op.oargs c) dead
      let dead := if hasFlag opDef.flags opfBbEnd then tcgLaBbEnd s dead
        else if hasFlag opDef.flags opfCallClobber then globalsLive s dead else dead
      let r := inputsLive (op.isTemp c) 0 (op.iargs c) dead 0
      (⟨op, r.2 % 2 ^ 16⟩, r.1)

/-- The loop over the ops from some index on, with the `dead_temps` it ends with. -/
def laFrom (c : Config) (s : Temps) : List Op → List LaOp × DeadTemps
  | [] => ([], fun _ => true)
  | op :: ops =>
    let r := laFrom c s ops
    ((laOp c s op r.2).1 :: r.1, (laOp c s op r.2).2)

/-- `tcg_liveness_analysis`: the ops it leaves and `op_dead_iargs`. -/
def tcgLivenessAnalysis (c : Config) (s : Temps) (ops : List Op) : List LaOp := (laFrom c s ops).1

/-- `dead_temps` before the op at index `p`. -/
def deadAt (c : Config) (s : Temps) (ops : List Op) (p : Nat) : DeadTemps :=
  (laFrom c s (ops.drop p)).2

/-! ### The loops over the arguments -/

theorem outputsDead_apply (oargs : List TCGArg) (dead : DeadTemps) (t : TCGArg) :
    outputsDead oargs dead t = (decide (t ∈ oargs) || dead t) := by
  induction oargs generalizing dead with
  | nil => simp [outputsDead]
  | cons a as ih =>
    have hstep : outputsDead (a :: as) dead = outputsDead as (Function.update dead a true) := rfl
    rw [hstep, ih]
    by_cases hta : t = a
    · simp [hta]
    · simp [hta]

/-- A temp is live in front of an op that reads it. -/
theorem inputsLive_dead (f : TCGArg → Bool) (i : Nat) (l : List TCGArg) (dead : DeadTemps)
    (di : Nat) (t : TCGArg) :
    (inputsLive f i l dead di).1 t = (dead t && !decide (t ∈ l.filter f)) := by
  induction l generalizing i dead di with
  | nil => simp [inputsLive]
  | cons a as ih =>
    unfold inputsLive
    by_cases hf : f a
    · rw [if_pos hf, ih, List.filter_cons_of_pos hf]
      by_cases hta : t = a
      · simp [hta]
      · simp [hta]
    · rw [if_neg hf, ih, List.filter_cons_of_neg hf]

/-- A bit of `dead_iargs` is set only for an input that is dead after the op. -/
theorem inputsLive_deadIargs (f : TCGArg → Bool) (i : Nat) (l : List TCGArg) (dead : DeadTemps)
    (di j : Nat) (hj : (inputsLive f i l dead di).2.testBit j) :
    di.testBit j ∨ ∃ k t, j = i + k ∧ l[k]? = some t ∧ f t ∧ dead t := by
  induction l generalizing i dead di with
  | nil => exact Or.inl hj
  | cons a as ih =>
    unfold inputsLive at hj
    by_cases hf : f a
    · rw [if_pos hf] at hj
      obtain h | ⟨k, t, rfl, hk, hft, hdead⟩ := ih _ _ _ hj
      · by_cases hda : dead a
        · rw [if_pos hda, Nat.testBit_or, Bool.or_eq_true] at h
          obtain h | h := h
          · exact Or.inl h
          · rw [Nat.one_shiftLeft, Nat.testBit_two_pow, decide_eq_true_iff] at h
            exact Or.inr ⟨0, a, h.symm, rfl, hf, hda⟩
        · rw [if_neg hda] at h
          exact Or.inl h
      · have hne : t ≠ a := by
          rintro rfl
          simp at hdead
        rw [Function.update_of_ne hne] at hdead
        exact Or.inr ⟨k + 1, t, by omega, hk, hft, hdead⟩
    · rw [if_neg hf] at hj
      obtain h | ⟨k, t, rfl, hk, hft, hdead⟩ := ih _ _ _ hj
      · exact Or.inl h
      · exact Or.inr ⟨k + 1, t, by omega, hk, hft, hdead⟩

/-! ### One op -/

/-- The number of parameters an op has in `gen_opparam_buf`, and where it is written again. -/
def Op.Layout (c : Config) (op : Op) : Prop :=
  if op.opc = .call then
    op.args.length = op.nbOargs c + op.nbIargs c + 3 ∧ op.args.getLast? = some op.args.length
  else if op.opc = .nopn then
    op.args.head? = some op.args.length ∧ op.args.getLast? = some op.args.length
  else op.args.length = (tcgOpDefs c op.opc).nbArgs

/-- The op may be removed: a call of a pure function, or an op without side effects. -/
def Op.removable (c : Config) (op : Op) : Bool :=
  (op.opc == .call && hasFlag (op.callFlags c) callPure) ||
    (op.opc.isDefault && !hasFlag (tcgOpDefs c op.opc).flags opfSideEffects &&
      (tcgOpDefs c op.opc).nbOargs != 0)

/-- The pass removes the op: it may, and no result is used. -/
def Op.removed (c : Config) (op : Op) (dead : DeadTemps) : Bool :=
  op.removable c && (op.oargs c).all dead

/-- `dead_temps` of a kept op after the outputs and before the inputs. -/
def deadAcross (c : Config) (s : Temps) (op : Op) (dead : DeadTemps) : DeadTemps :=
  if op.bbEnd c then tcgLaBbEnd s (outputsDead (op.oargs c) dead)
  else if op.syncs c then globalsLive s (outputsDead (op.oargs c) dead)
  else outputsDead (op.oargs c) dead

/-- The pass over a call, with the flags of its helper. -/
theorem laOp_call (c : Config) (s : Temps) (op : Op) (dead : DeadTemps) (h : op.opc = .call) :
    laOp c s op dead =
      if hasFlag (op.callFlags c) callPure && (op.oargs c).all dead then
        (⟨tcgSetNop op.args (op.args.getLast?.getD 0), 0⟩, dead)
      else
        let r := inputsLive (op.isTemp c) 0 (op.iargs c)
          (if !hasFlag (op.callFlags c) callConst then
            globalsLive s (outputsDead (op.oargs c) dead)
          else outputsDead (op.oargs c) dead) 0
        (⟨op, r.2 % 2 ^ 16⟩, r.1) := by
  simp only [laOp, h]

/-- The pass over the other ops: one without side effects is removed if its outputs are dead. -/
theorem laOp_default (c : Config) (s : Temps) (op : Op) (dead : DeadTemps)
    (h : op.opc.isDefault) :
    laOp c s op dead =
      if !hasFlag (tcgOpDefs c op.opc).flags opfSideEffects &&
          (tcgOpDefs c op.opc).nbOargs != 0 && (op.oargs c).all dead then
        (⟨tcgSetNop op.args (tcgOpDefs c op.opc).nbArgs, 0⟩, dead)
      else
        let dead' := outputsDead (op.oargs c) dead
        let r := inputsLive (op.isTemp c) 0 (op.iargs c)
          (if hasFlag (tcgOpDefs c op.opc).flags opfBbEnd then tcgLaBbEnd s dead'
            else if hasFlag (tcgOpDefs c op.opc).flags opfCallClobber then globalsLive s dead'
            else dead') 0
        (⟨op, r.2 % 2 ^ 16⟩, r.1) := by
  unfold laOp
  split <;> first | rfl | simp_all [Opc.isDefault]

variable {c : Config} {dead : DeadTemps} {op : Op} {s : Temps}

/-- Removing an op leaves `dead_temps` alone and a no-op in its place. -/
theorem laOp_removed (h : op.removed c dead = true) :
    (laOp c s op dead).2 = dead ∧ (laOp c s op dead).1.deadIargs = 0 ∧
      ∃ n, (laOp c s op dead).1.op = tcgSetNop op.args n := by
  rw [Op.removed, Op.removable, Bool.and_eq_true, Bool.or_eq_true] at h
  obtain ⟨h | h, hall⟩ := h
  · rw [Bool.and_eq_true, beq_iff_eq] at h
    rw [laOp_call c s op dead h.1, if_pos (by rw [h.2, hall]; rfl)]
    exact ⟨rfl, rfl, _, rfl⟩
  · rw [Bool.and_eq_true, Bool.and_eq_true] at h
    rw [laOp_default c s op dead h.1.1, if_pos (by rw [h.1.2, h.2, hall]; rfl)]
    exact ⟨rfl, rfl, _, rfl⟩

/-- The `dead_temps` that the default case passes on to the inputs. -/
theorem deadAcross_default (h : op.opc.isDefault) :
    deadAcross c s op dead =
      if hasFlag (tcgOpDefs c op.opc).flags opfBbEnd then
        tcgLaBbEnd s (outputsDead (op.oargs c) dead)
      else if hasFlag (tcgOpDefs c op.opc).flags opfCallClobber then
        globalsLive s (outputsDead (op.oargs c) dead)
      else outputsDead (op.oargs c) dead := by
  have hlabel : op.opc ≠ .setLabel := by intro he; rw [he] at h; exact absurd h (by decide)
  have hcall : op.opc ≠ .call := by intro he; rw [he] at h; exact absurd h (by decide)
  have hbb : op.bbEnd c = hasFlag (tcgOpDefs c op.opc).flags opfBbEnd := by
    simp [Op.bbEnd, hlabel]
  rw [deadAcross, hbb]
  by_cases hf : hasFlag (tcgOpDefs c op.opc).flags opfBbEnd
  · rw [if_pos hf, if_pos hf]
  · have hsync : op.syncs c = hasFlag (tcgOpDefs c op.opc).flags opfCallClobber := by
      simp [Op.syncs, hbb, hf, hcall]
    rw [if_neg hf, if_neg hf, hsync]

/-- A call makes the globals live, unless its helper does not look at them. -/
theorem deadAcross_call (h : op.opc = .call) :
    deadAcross c s op dead =
      if !hasFlag (op.callFlags c) callConst then globalsLive s (outputsDead (op.oargs c) dead)
      else outputsDead (op.oargs c) dead := by
  have hbb : op.bbEnd c = false := by simp [Op.bbEnd, h, tcgOpDefs, def2, hasFlag]
  have hclob : hasFlag (tcgOpDefs c .call).flags opfCallClobber = false :=
    show hasFlag opfSideEffects opfCallClobber = false by decide
  have hsync : op.syncs c = !hasFlag (op.callFlags c) callConst := by
    simp only [Op.syncs, hbb, h, hclob, beq_self_eq_true, Bool.false_or, Bool.true_and]
  rw [deadAcross, hbb, hsync]
  rfl

/-- Keeping an op leaves it as it is; its inputs become live. -/
theorem laOp_kept (hl : op.Layout c) (h : op.removed c dead = false) :
    (laOp c s op dead).1.op = op ∧
    (laOp c s op dead).2
      = (inputsLive (op.isTemp c) 0 (op.iargs c) (deadAcross c s op dead) 0).1 ∧
    (laOp c s op dead).1.deadIargs
      = (inputsLive (op.isTemp c) 0 (op.iargs c) (deadAcross c s op dead) 0).2 % 2 ^ 16 := by
  by_cases hd : op.opc.isDefault
  · have hc : op.opc ≠ .call := by intro he; rw [he] at hd; exact absurd hd (by decide)
    have hrem : ¬ ((!hasFlag (tcgOpDefs c op.opc).flags opfSideEffects &&
        (tcgOpDefs c op.opc).nbOargs != 0 && (op.oargs c).all dead) = true) := by
      intro hr
      rw [Op.removed, Op.removable, hd] at h
      simp only [Bool.true_and] at h
      rw [Bool.and_eq_true, Bool.and_eq_true] at hr
      simp [hr.1.1, hr.1.2, hr.2] at h
    rw [laOp_default c s op dead hd, if_neg hrem, deadAcross_default hd]
    exact ⟨rfl, rfl, rfl⟩
  by_cases hc : op.opc = .call
  · have hrem : ¬ ((hasFlag (op.callFlags c) callPure && (op.oargs c).all dead) = true) := by
      intro hr
      rw [Bool.and_eq_true] at hr
      rw [Op.removed, Op.removable] at h
      simp [hc, hr.1, hr.2] at h
    rw [laOp_call c s op dead hc, if_neg hrem, deadAcross_call hc]
    exact ⟨rfl, rfl, rfl⟩
  -- the opcodes with a case of their own have no inputs
  have hni : (tcgOpDefs c op.opc).nbIargs = 0 := by
    revert hd hc
    cases op.opc <;> simp [Opc.isDefault, tcgOpDefs, def2]
  rw [Op.iargs_eq_nil hc hni]
  simp only [inputsLive]
  have hfold : ∀ d, outputsDead [] d = d := fun d => rfl
  unfold laOp
  split <;> rename_i heq
  · exact absurd heq hc
  · have ho : op.oargs c = [] := Op.outs_eq_nil hc (by rw [heq]; rfl)
    refine ⟨rfl, ?_, rfl⟩
    rw [deadAcross, if_pos (by simp [Op.bbEnd, heq]), ho, hfold]
  · have ho : op.oargs c = [] := Op.outs_eq_nil hc (by rw [heq]; rfl)
    refine ⟨rfl, ?_, rfl⟩
    simp [deadAcross, Op.bbEnd, Op.syncs, heq, ho, hfold, tcgOpDefs, def2, hasFlag]
  · have ho : op.oargs c = [] := Op.outs_eq_nil hc (by rw [heq]; rfl)
    refine ⟨rfl, ?_, rfl⟩
    simp [deadAcross, Op.bbEnd, Op.syncs, heq, ho, hfold, tcgOpDefs, def2, hasFlag]
  -- `discard`: its one argument is its output
  · have hlen : op.args.length = 1 := by
      rw [Op.Layout, if_neg hc, if_neg (by rw [heq]; decide), heq] at hl
      exact hl
    obtain ⟨a, ha⟩ := List.length_eq_one_iff.mp hlen
    have ho : op.oargs c = [a] := by
      simp [Op.oargs, Op.params, Op.nbOargs, heq, ha, tcgOpDefs, def2]
    refine ⟨rfl, ?_, rfl⟩
    simp [deadAcross, Op.bbEnd, Op.syncs, heq, ho, outputsDead, tcgOpDefs, def2, hasFlag, Op.arg,
      ha]
  · have ho : op.oargs c = [] := Op.outs_eq_nil hc (by rw [heq]; rfl)
    refine ⟨rfl, ?_, rfl⟩
    simp [deadAcross, Op.bbEnd, Op.syncs, heq, ho, hfold, tcgOpDefs, def2, hasFlag]
  · exact absurd (by simp_all [Opc.isDefault]) hd

/-! ### The data flow -/

/-- What is dead between the outputs and the inputs of an op. -/
theorem deadAcross_iff {t : TCGArg} (ht : t < s.nbTemps) :
    deadAcross c s op dead t = true ↔
      ¬ (op.syncs c = true ∧ t < s.nbGlobals) ∧
        (if op.bbEnd c then s.tempLocal t = false else t ∈ op.outs c ∨ dead t = true) := by
  have hsync : op.bbEnd c = true → op.syncs c = true := by
    intro h
    rw [Op.syncs, h]
    rfl
  unfold deadAcross
  by_cases hb : op.bbEnd c
  · rw [if_pos hb, if_pos hb, tcgLaBbEnd]
    by_cases hg : t < s.nbGlobals
    · simp [hg, hsync hb]
    · simp [hg, ht]
  · rw [if_neg hb, if_neg hb]
    by_cases hs : op.syncs c
    · rw [if_pos hs, globalsLive]
      by_cases hg : t < s.nbGlobals
      · simp [hg, hs]
      · simp [hg, outputsDead_apply, Op.outs]
    · simp [hs, outputsDead_apply, Op.outs]

/-- **The data flow of one kept op.**  A temp is dead before it if the op does not read it and it is
    dead after it, or gets a new value, or does not survive the end of the basic block. -/
theorem laOp_dead_iff {t : TCGArg} (hl : op.Layout c) (h : op.removed c dead = false)
    (ht : t < s.nbTemps) :
    (laOp c s op dead).2 t = true ↔
      ¬ op.Reads c s t ∧
        (if op.bbEnd c then s.tempLocal t = false else t ∈ op.outs c ∨ dead t = true) := by
  rw [(laOp_kept hl h).2.1, inputsLive_dead, Bool.and_eq_true, deadAcross_iff ht, Op.Reads, Op.ins]
  simp only [Bool.not_eq_true', decide_eq_false_iff_not, not_or]
  tauto

/-- A set bit of `op_dead_iargs` names an input of a kept op that is dead across it. -/
theorem laOp_deadIargs {j : Nat} (hl : op.Layout c)
    (h : ((laOp c s op dead).1.deadIargs).testBit j) :
    op.removed c dead = false ∧
      ∃ t, (op.iargs c)[j]? = some t ∧ op.isTemp c t ∧ deadAcross c s op dead t = true := by
  cases hrem : op.removed c dead with
  | true =>
    rw [(laOp_removed hrem).2.1, Nat.zero_testBit] at h
    exact absurd h (by decide)
  | false =>
    refine ⟨rfl, ?_⟩
    rw [(laOp_kept hl hrem).2.2, Nat.testBit_mod_two_pow, Bool.and_eq_true] at h
    obtain h | ⟨k, t, rfl, hk, hf, hdead⟩ := inputsLive_deadIargs _ _ _ _ _ _ h.2
    · rw [Nat.zero_testBit] at h
      exact absurd h (by decide)
    · exact ⟨t, by rw [Nat.zero_add]; exact hk, hf, hdead⟩

/-! ### The pass as a whole -/

theorem tcgLivenessAnalysis_getElem? (c : Config) (s : Temps) (ops : List Op) (p : Nat) :
    (tcgLivenessAnalysis c s ops)[p]?
      = (ops[p]?).map fun op => (laOp c s op (deadAt c s ops (p + 1))).1 := by
  induction ops generalizing p with
  | nil => simp [tcgLivenessAnalysis, laFrom]
  | cons op ops ih =>
    cases p with
    | zero => rfl
    | succ p => exact ih p

theorem deadAt_eq {ops : List Op} {p : Nat} (h : ops[p]? = some op) :
    deadAt c s ops p = (laOp c s op (deadAt c s ops (p + 1))).2 := by
  obtain ⟨hp, rfl⟩ := List.getElem?_eq_some_iff.mp h
  rw [deadAt, List.drop_eq_getElem_cons hp]
  rfl

end Qemu.Tcg
