import Qemu.Tcg.Liveness
import Qemu.Tcg.Sem

namespace Qemu.Tcg

open Qemu.Lib

/-!
# The liveness analysis preserves what a block does

* `WfBlock` — no plain temp is read after the end of a basic block before it is written again;
* `deadAt_succ` — along every edge of the control flow a dead temp stays dead until it is written;
* `ReadAgain` — a temp is read on some path before it is written, and `not_readAgain`, which says
  that the pass never takes such a temp for dead;
* `Sim` — the live temps agree; `step_sim` carries it over one step, the runs follow by
  `run_lockstep`.
-/

variable {Val W : Type*}

/-! ### Well-formed blocks -/

/-- The ops read the temp before one of them writes it or ends the basic block. -/
def readFirst (c : Config) (t : TCGArg) : List Op → Bool
  | [] => false
  | op :: ops =>
    decide (t ∈ op.ins c) || (!op.bbEnd c && !decide (t ∈ op.outs c) && readFirst c t ops)

instance (c : Config) (op : Op) : Decidable (op.Layout c) := by
  unfold Op.Layout
  infer_instance

/-- A well-formed translation block.  A label set twice is the first one for every jump, before and
    after the pass, so that labels need no condition. -/
structure WfBlock (c : Config) (s : Temps) (ops : List Op) : Prop where
  layout : ∀ op ∈ ops, op.Layout c
  globals_le : s.nbGlobals ≤ s.nbTemps
  ins_lt : ∀ op ∈ ops, ∀ t ∈ op.ins c, t < s.nbTemps
  plain : ∀ k : Fin ops.length, ops[k].bbEnd c = true → ∀ t < s.nbTemps, s.Plain t →
    readFirst c t (ops.drop (k + 1)) = false

theorem WfBlock.reads_lt {c : Config} {s : Temps} {ops : List Op} (h : WfBlock c s ops) {op : Op}
    (hop : op ∈ ops) {t : TCGArg} (ht : op.Reads c s t) : t < s.nbTemps := by
  obtain ht | ht := ht
  · exact h.ins_lt op hop t ht
  · exact Nat.lt_of_lt_of_le ht.2 h.globals_le

/-- What the pass leaves of the ops. -/
def leftOps (c : Config) (s : Temps) (ops : List Op) : List Op :=
  (tcgLivenessAnalysis c s ops).map (·.op)

/-! ### Removed ops -/

theorem tcgSetNop_opc (args : List TCGArg) (n : Nat) :
    (tcgSetNop args n).opc = .nop ∨ (tcgSetNop args n).opc = .nopn := by
  unfold tcgSetNop
  split
  · exact Or.inl rfl
  · exact Or.inr rfl

theorem nop_flow {c : Config} {s : Temps} {op : Op} (h : op.opc = .nop ∨ op.opc = .nopn)
    (lbl : TCGArg → Option Nat) (pc : Nat) :
    (∀ t, ¬ op.Reads c s t) ∧ op.outs c = [] ∧ succs lbl c pc op = [pc + 1] := by
  obtain h | h := h <;>
  simp [Op.Reads, Op.ins, Op.outs, Op.iargs, Op.oargs, Op.nbIargs, Op.nbOargs, Op.syncs, Op.bbEnd,
    succs, h, tcgOpDefs, def2, hasFlag]

theorem nop_execOp (H : Host Val W) {c : Config} {s : Temps} {op : Op}
    (h : op.opc = .nop ∨ op.opc = .nopn) (lbl : TCGArg → Option Nat) (pc : Nat)
    (temps : Nat → Val) (w : W) :
    H.execOp c s lbl pc op temps w = ([], ⟨some (pc + 1), temps, w⟩) := by
  obtain h | h := h <;>
  simp [Host.execOp, Host.execState, Host.execDefault, Host.opOutcome, finish_ret_none,
    Op.observed, Opc.isLoad, Op.oargs, Op.nbOargs, setOuts, h, tcgOpDefs, def2, hasFlag]

/-- An op that may be removed has outputs in the table or is a pure call; it is no jump, label or
    no-op. -/
theorem Op.removable_cases {c : Config} {op : Op} (h : op.removable c = true) :
    (op.opc = .call ∧ hasFlag (op.callFlags c) callPure) ∨
      (op.opc.isDefault ∧ ¬ hasFlag (tcgOpDefs c op.opc).flags opfSideEffects ∧
        (tcgOpDefs c op.opc).nbOargs ≠ 0) := by
  rw [Op.removable, Bool.or_eq_true] at h
  obtain h | h := h
  · rw [Bool.and_eq_true, beq_iff_eq] at h
    exact Or.inl h
  · rw [Bool.and_eq_true, Bool.and_eq_true] at h
    exact Or.inr ⟨h.1.1, by simpa using h.1.2, by simpa using h.2⟩

/-- What may be removed is no label, no end and no branch. -/
theorem Op.removable_opc {c : Config} {op : Op} (h : op.removable c = true) :
    op.opc ≠ .setLabel ∧ op.opc ≠ .nop ∧ op.opc ≠ .nopn ∧ op.opc ≠ .endOp ∧
      hasFlag (tcgOpDefs c op.opc).flags opfBbEnd = false := by
  obtain ⟨hc, -⟩ | ⟨hd, hs, ho⟩ := Op.removable_cases h
  · rw [hc]
    exact ⟨by decide, by decide, by decide, by decide, by
      show hasFlag opfSideEffects opfBbEnd = false
      decide⟩
  · refine ⟨?_, ?_, ?_, ?_, ?_⟩
    · intro he
      rw [he] at hd
      exact absurd hd (by decide)
    · intro he
      rw [he] at ho
      exact ho rfl
    · intro he
      rw [he] at ho
      exact ho rfl
    · intro he
      rw [he] at hd
      exact absurd hd (by decide)
    · by_contra hb
      exact hs (tcgOpDefs_bbEnd c op.opc (by simpa using hb)).1

/-! ### Dead temps along the control flow -/

section Flow

variable {c : Config} {s : Temps} {ops : List Op} {p p' : Nat} {op : Op} {t : TCGArg}

/-- A temp that is not read before it is written is dead. -/
theorem dead_of_not_readFirst (hl : ∀ op ∈ ops, op.Layout c) (hp : s.Plain t)
    (ht : t < s.nbTemps) (h : readFirst c t ops = false) : (laFrom c s ops).2 t = true := by
  induction ops with
  | nil => rfl
  | cons op ops ih =>
    show (laOp c s op (laFrom c s ops).2).2 t = true
    simp only [readFirst, Bool.or_eq_false_iff, decide_eq_false_iff_not] at h
    obtain ⟨hin, hrest⟩ := h
    have hrec : op.bbEnd c = false → t ∉ op.outs c → (laFrom c s ops).2 t = true := by
      intro hb ho
      simp only [hb, ho, Bool.not_false, decide_false, Bool.true_and] at hrest
      exact ih (fun o hmem => hl o (List.mem_cons_of_mem _ hmem)) hrest
    cases hrem : op.removed c (laFrom c s ops).2 with
    | true =>
      rw [(laOp_removed hrem).1]
      rw [Op.removed, Bool.and_eq_true] at hrem
      by_cases ho : t ∈ op.outs c
      · exact List.all_eq_true.mp hrem.2 t ho
      · obtain ⟨hlab, -, -, -, hb⟩ := Op.removable_opc hrem.1
        exact hrec (by simp [Op.bbEnd, hlab, hb]) ho
    | false =>
      rw [laOp_dead_iff (hl op List.mem_cons_self) hrem ht]
      refine ⟨?_, ?_⟩
      · rintro (h | h)
        · exact hin h
        · exact absurd h.2 (Nat.not_lt.mpr hp.1)
      · cases hb : op.bbEnd c with
        | true => exact hp.2
        | false =>
          by_cases ho : t ∈ op.outs c
          · exact Or.inl ho
          · exact Or.inr (hrec hb ho)

theorem findLabel_spec {code : List Op} {l : TCGArg} (h : findLabel code l = some p) :
    ∃ op, code[p]? = some op ∧ op.opc = .setLabel := by
  obtain ⟨hp, hpred, -⟩ := List.findIdx?_eq_some_iff_getElem.mp h
  rw [Op.setsLabel, Bool.and_eq_true, beq_iff_eq] at hpred
  exact ⟨code[p], List.getElem?_eq_getElem hp, hpred.1⟩

/-- The pass keeps an op or puts a no-op in its place. -/
theorem leftOps_getElem? (hwf : WfBlock c s ops) (h : ops[p]? = some op) :
    ∃ o, (leftOps c s ops)[p]? = some o ∧
      (op.removed c (deadAt c s ops (p + 1)) = false ∧ o = op ∨
       op.removed c (deadAt c s ops (p + 1)) = true ∧ (o.opc = .nop ∨ o.opc = .nopn)) := by
  refine ⟨(laOp c s op (deadAt c s ops (p + 1))).1.op, ?_, ?_⟩
  · rw [leftOps, List.getElem?_map, tcgLivenessAnalysis_getElem?, h]
    rfl
  · cases hrem : op.removed c (deadAt c s ops (p + 1)) with
    | true =>
      obtain ⟨-, -, n, hn⟩ := laOp_removed (s := s) hrem
      rw [hn]
      exact Or.inr ⟨rfl, tcgSetNop_opc _ _⟩
    | false =>
      exact Or.inl ⟨rfl, (laOp_kept (hwf.layout op (List.mem_of_getElem? h)) hrem).1⟩

theorem leftOps_getElem?_none (h : ops[p]? = none) : (leftOps c s ops)[p]? = none := by
  rw [leftOps, List.getElem?_map, tcgLivenessAnalysis_getElem?, h]
  rfl

/-- The labels stay where they are. -/
theorem findLabel_leftOps (hwf : WfBlock c s ops) :
    findLabel (leftOps c s ops) = findLabel ops := by
  ext1 l
  have hmap : (leftOps c s ops).map (Op.setsLabel l) = ops.map (Op.setsLabel l) := by
    apply List.ext_getElem?
    intro p
    rw [List.getElem?_map, List.getElem?_map]
    cases h : ops[p]? with
    | none => rw [leftOps_getElem?_none h]
    | some op =>
      obtain ⟨o, ho, ⟨-, rfl⟩ | ⟨hrem, hnop⟩⟩ := leftOps_getElem? hwf h
      · rw [ho]
      · rw [Op.removed, Bool.and_eq_true] at hrem
        have hne := (Op.removable_opc hrem.1).1
        have hne' : o.opc ≠ .setLabel := by
          obtain h | h := hnop <;> rw [h] <;> decide
        rw [ho, Option.map_some, Option.map_some, Op.setsLabel_of_ne hne, Op.setsLabel_of_ne hne']
  have hid : ∀ code : List Op, findLabel code l = (code.map (Op.setsLabel l)).findIdx? id := by
    intro code
    rw [List.findIdx?_map]
    rfl
  rw [hid, hid, hmap]

/-- A plain temp is dead wherever the control can go from the end of a basic block. -/
theorem plain_deadAt_succ (hwf : WfBlock c s ops) (h : ops[p]? = some op)
    (hb : op.bbEnd c = true) (hs : p' ∈ succs (findLabel ops) c p op) (hp : s.Plain t)
    (ht : t < s.nbTemps) : deadAt c s ops p' t = true := by
  -- at the end of a block only globals and locals live on
  have hnext : deadAt c s ops (p + 1) t = true := by
    obtain ⟨hlt, rfl⟩ := List.getElem?_eq_some_iff.mp h
    refine dead_of_not_readFirst (fun o ho => hwf.layout o (List.mem_of_mem_drop ho)) hp ht ?_
    exact hwf.plain ⟨p, hlt⟩ hb t ht hp
  have hlabel : ∀ l, p' ∈ (findLabel ops l).toList → deadAt c s ops p' t = true := by
    intro l hl
    obtain ⟨o, ho, hopc⟩ := findLabel_spec (Option.mem_toList.mp hl)
    have hlay := hwf.layout o (List.mem_of_getElem? ho)
    have hkeep : o.removed c (deadAt c s ops (p' + 1)) = false := by
      cases hr : o.removed c (deadAt c s ops (p' + 1)) with
      | false => rfl
      | true =>
        rw [Op.removed, Bool.and_eq_true] at hr
        exact absurd hopc (Op.removable_opc hr.1).1
    rw [deadAt_eq ho, laOp_dead_iff hlay hkeep ht]
    have hin : o.ins c = [] := by
      rw [Op.ins, Op.iargs_eq_nil (by simp [hopc]) (by rw [hopc]; rfl)]
      rfl
    refine ⟨?_, by simp [Op.bbEnd, hopc, hp.2]⟩
    rintro (hr | hr)
    · rw [hin] at hr
      exact absurd hr List.not_mem_nil
    · exact absurd hr.2 (Nat.not_lt.mpr hp.1)
  unfold succs at hs
  -- the op falls through, jumps to a label, or ends
  split at hs
  all_goals first
    | exact absurd hs List.not_mem_nil
    | exact hlabel _ hs
    | skip
  all_goals
    obtain rfl | hs := List.mem_cons.mp hs
    · exact hnext
    · first
        | exact hlabel _ hs
        | exact absurd hs List.not_mem_nil

/-- A temp that is dead across a kept op is dead wherever the op can continue, unless it wrote
    it. -/
theorem deadAcross_succ (hwf : WfBlock c s ops) (h : ops[p]? = some op)
    (hs : p' ∈ succs (findLabel ops) c p op) (ht : t < s.nbTemps)
    (hd : deadAcross c s op (deadAt c s ops (p + 1)) t = true) (ho : t ∉ op.outs c) :
    deadAt c s ops p' t = true := by
  rw [deadAcross_iff ht] at hd
  obtain ⟨hsync, hd⟩ := hd
  cases hb : op.bbEnd c with
  | true =>
    rw [hb, if_pos rfl] at hd
    have hsy : op.syncs c = true := by rw [Op.syncs, hb]; rfl
    have hge : s.nbGlobals ≤ t := Nat.le_of_not_lt fun hlt => hsync ⟨hsy, hlt⟩
    exact plain_deadAt_succ hwf h hb hs ⟨hge, hd⟩ ht
  | false =>
    rw [hb, if_neg (by decide)] at hd
    by_cases he : op.opc = .endOp
    · simp [succs, he] at hs
    · rw [Op.bbEnd, Bool.or_eq_false_iff] at hb
      rw [succs_of_not_bbEnd hb.2 he, List.mem_singleton] at hs
      rw [hs]
      exact hd.resolve_left ho

/-- **Dead temps along an edge.**  A temp that is dead before an op is not read by it and, unless
    the op writes it, dead wherever the op can continue. -/
theorem deadAt_succ (hwf : WfBlock c s ops) (h : ops[p]? = some op)
    (hkeep : op.removed c (deadAt c s ops (p + 1)) = false) (ht : t < s.nbTemps)
    (hd : deadAt c s ops p t = true) :
    ¬ op.Reads c s t ∧
      ∀ p' ∈ succs (findLabel ops) c p op, t ∉ op.outs c → deadAt c s ops p' t = true := by
  have hlay := hwf.layout op (List.mem_of_getElem? h)
  have hiff := hd
  rw [deadAt_eq h, laOp_dead_iff hlay hkeep ht] at hiff
  refine ⟨hiff.1, fun p' hs ho => deadAcross_succ hwf h hs ht ?_ ho⟩
  rw [deadAcross_iff ht]
  exact ⟨fun hg => hiff.1 (Or.inr hg), hiff.2⟩

end Flow

/-! ### Inputs marked dead -/

/-- From the op at an index on, some path reads the temp before an op writes it. -/
inductive ReadAgain (c : Config) (s : Temps) (code : List Op) (t : TCGArg) : Nat → Prop
  | read {p : Nat} {op : Op} : code[p]? = some op → op.Reads c s t → ReadAgain c s code t p
  | step {p p' : Nat} {op : Op} : code[p]? = some op → t ∉ op.outs c →
      p' ∈ succs (findLabel code) c p op → ReadAgain c s code t p' → ReadAgain c s code t p

/-- The pass takes no temp for dead that the ops it leaves read again. -/
theorem not_readAgain {c : Config} {s : Temps} {ops : List Op} (hwf : WfBlock c s ops) {p : Nat}
    {t : TCGArg} (ht : t < s.nbTemps) (hd : deadAt c s ops p t = true) :
    ¬ ReadAgain c s (leftOps c s ops) t p := by
  intro hr
  have hop : ∀ {p : Nat} {o : Op}, (leftOps c s ops)[p]? = some o → deadAt c s ops p t = true →
      ¬ o.Reads c s t ∧
        ∀ p' ∈ succs (findLabel (leftOps c s ops)) c p o, t ∉ o.outs c →
          deadAt c s ops p' t = true := by
    intro p o ho hd
    rw [findLabel_leftOps hwf]
    cases h : ops[p]? with
    | none =>
      rw [leftOps_getElem?_none h] at ho
      exact absurd ho (by simp)
    | some op =>
      obtain ⟨o', ho', ⟨hkeep, rfl⟩ | ⟨hrem, hnop⟩⟩ := leftOps_getElem? hwf h
      · obtain rfl := Option.some.inj (ho.symm.trans ho')
        exact deadAt_succ hwf h hkeep ht hd
      · obtain rfl := Option.some.inj (ho.symm.trans ho')
        obtain ⟨hreads, -, hsucc⟩ := nop_flow (c := c) (s := s) hnop (findLabel ops) p
        rw [hsucc]
        refine ⟨hreads t, fun p' hp' _ => ?_⟩
        rw [List.mem_singleton.mp hp']
        rw [deadAt_eq h, (laOp_removed hrem).1] at hd
        exact hd
  induction hr with
  | read ho hreads => exact (hop ho hd).1 hreads
  | step ho hout hs _ ih => exact ih ((hop ho hd).2 _ hs hout)

/-- **Inputs marked dead.**  A set bit of `op_dead_iargs` names an input whose value no path reads
    after the op. -/
theorem deadIargs_not_readAgain {c : Config} {s : Temps} {ops : List Op} (hwf : WfBlock c s ops)
    {p j : Nat} {o : LaOp} (ho : (tcgLivenessAnalysis c s ops)[p]? = some o)
    (hj : o.deadIargs.testBit j) :
    ∃ t, (o.op.iargs c)[j]? = some t ∧ t ∈ o.op.ins c ∧
      (t ∉ o.op.outs c → ∀ p' ∈ succs (findLabel (leftOps c s ops)) c p o.op,
        ¬ ReadAgain c s (leftOps c s ops) t p') := by
  rw [tcgLivenessAnalysis_getElem?] at ho
  obtain ⟨op, hop, rfl⟩ := Option.map_eq_some_iff.mp ho
  have hmem := List.mem_of_getElem? hop
  have hlay := hwf.layout op hmem
  obtain ⟨hkeep, t, ht, htemp, hdead⟩ := laOp_deadIargs hlay hj
  rw [(laOp_kept hlay hkeep).1, findLabel_leftOps hwf]
  have hin : t ∈ op.ins c := List.mem_filter.mpr ⟨List.mem_of_getElem? ht, htemp⟩
  have hlt := hwf.ins_lt op hmem t hin
  exact ⟨t, ht, hin, fun hout p' hs =>
    not_readAgain hwf hlt (deadAcross_succ hwf hop hs hlt hdead hout)⟩

/-! ### Simulation -/

/-- The block and the ops the pass leaves are at the same place in the same world, and the temps
    that are not dead there have the same value. -/
structure Sim (c : Config) (s : Temps) (ops : List Op) (σ σ' : St Val W) : Prop where
  pc : σ'.pc = σ.pc
  world : σ'.world = σ.world
  temps : ∀ p, σ.pc = some p → ∀ t < s.nbTemps, deadAt c s ops p t = false →
    σ.temps t = σ'.temps t

theorem Sim.refl (c : Config) (s : Temps) (ops : List Op) (σ : St Val W) : Sim c s ops σ σ :=
  ⟨rfl, rfl, fun _ _ _ _ _ => rfl⟩

/-- The op of an event is still there in the ops left. -/
def stillThere (code : List Op) (e : Event Val) : Bool := (code[e.pc]?).any (·.opc == e.opc)

theorem setOuts_of_not_mem (f : Nat → Val) (k : Nat) (as : List TCGArg) (temps : Nat → Val)
    {t : TCGArg} (h : t ∉ as) : setOuts f k as temps t = temps t := by
  induction as generalizing k temps with
  | nil => rfl
  | cons a as ih =>
    obtain ⟨hta, has⟩ := not_or.mp (mt List.mem_cons.mpr h)
    exact (ih (k + 1) _ has).trans (Function.update_of_ne hta _ _)

/-- An op that may be removed only gives its outputs new values. -/
theorem removable_execState (H : Host Val W) {c : Config} {s : Temps} {op : Op}
    (h : op.removable c = true) (lbl : TCGArg → Option Nat) (pc : Nat) (temps : Nat → Val) (w : W) :
    ∃ f, H.execState c s lbl pc op temps w
      = ⟨some (pc + 1), setOuts f 0 (op.oargs c) temps, w⟩ := by
  obtain ⟨hc, hp⟩ | ⟨hd, hs, -⟩ := Op.removable_cases h
  · simp only [Host.execState, hc, Host.callOutcome, if_pos hp, finish_ret_none]
    exact ⟨_, rfl⟩
  · have hb : ¬ hasFlag (tcgOpDefs c op.opc).flags opfBbEnd :=
      fun hb => hs (tcgOpDefs_bbEnd c op.opc hb).1
    have hk : ¬ hasFlag (tcgOpDefs c op.opc).flags opfCallClobber :=
      fun hk => hs (tcgOpDefs_callClobber c op.opc hk)
    have hdef : H.execState c s lbl pc op temps w = H.execDefault c s lbl pc op temps w := by
      unfold Host.execState
      split <;> first | rfl | simp_all [Opc.isDefault]
    rw [hdef, Host.execDefault, if_neg hb, Host.opOutcome, if_neg hk, if_neg hs, finish_ret_none]
    exact ⟨_, rfl⟩

/-- The temps agree wherever they are not dead before the op at `p`. -/
def LiveEq (c : Config) (s : Temps) (ops : List Op) (p : Nat) (temps temps' : Nat → Val) : Prop :=
  ∀ t < s.nbTemps, deadAt c s ops p t = false → temps t = temps' t

section Step

variable {c : Config} {s : Temps} {ops : List Op} {p : Nat} {op : Op} {temps temps' : Nat → Val}

/-- A kept op does the same in both lists. -/
theorem kept_sim (H : Host Val W) (hwf : WfBlock c s ops) (hop : ops[p]? = some op)
    (hkeep : op.removed c (deadAt c s ops (p + 1)) = false) (h : LiveEq c s ops p temps temps')
    (w : W) :
    (H.execOp c s (findLabel ops) p op temps w).1 = (H.execOp c s (findLabel ops) p op temps' w).1 ∧
      Sim c s ops (H.execOp c s (findLabel ops) p op temps w).2
        (H.execOp c s (findLabel ops) p op temps' w).2 := by
  have hmem := List.mem_of_getElem? hop
  have hlive : ∀ t < s.nbTemps, (op.Reads c s t ∨ ∃ p' ∈ succs (findLabel ops) c p op,
      t ∉ op.outs c ∧ deadAt c s ops p' t = false) → temps t = temps' t := by
    intro t ht hr
    apply h t ht
    by_contra hd
    obtain ⟨hnr, hsucc⟩ := deadAt_succ hwf hop hkeep ht (by simpa using hd)
    obtain hr | ⟨p', hp', hout, hl⟩ := hr
    · exact hnr hr
    · rw [hsucc p' hp' hout] at hl
      exact absurd hl (by decide)
  have hag : op.Agree c s temps temps' :=
    fun t ht => hlive t (hwf.reads_lt hmem ht) (Or.inl ht)
  have hlen : op.opc = .discard → op.args.length = 1 := by
    intro hd
    have hlay := hwf.layout op hmem
    rw [Op.Layout, if_neg (by rw [hd]; decide), if_neg (by rw [hd]; decide), hd] at hlay
    exact hlay
  obtain ⟨hev, hsame⟩ := H.execOp_agree (s := s) (findLabel ops) p w hlen hag
  refine ⟨hev, hsame.pc.symm, hsame.world.symm, fun p' hp' t ht hd => ?_⟩
  refine hsame.temps (by rw [hp']; simp) t ?_
  by_cases hout : t ∈ op.outs c
  · exact Or.inl hout
  · exact Or.inr (hlive t ht (Or.inr ⟨p', Host.execState_pc hp', hout, hd⟩))

/-- A removed op only changes temps that are dead after it. -/
theorem removed_sim (H : Host Val W) (hop : ops[p]? = some op)
    (hrem : op.removed c (deadAt c s ops (p + 1)) = true) (h : LiveEq c s ops p temps temps')
    (lbl : TCGArg → Option Nat) (w : W) :
    Sim c s ops (H.execState c s lbl p op temps w) ⟨some (p + 1), temps', w⟩ := by
  have hrem' := hrem
  rw [Op.removed, Bool.and_eq_true] at hrem'
  obtain ⟨f, hf⟩ := removable_execState H (s := s) hrem'.1 lbl p temps w
  rw [hf]
  refine ⟨rfl, rfl, fun p' hp' t ht hd => ?_⟩
  obtain rfl := Option.some.inj hp'
  have hout : t ∉ op.oargs c := by
    intro hmem
    rw [List.all_eq_true.mp hrem'.2 t hmem] at hd
    exact absurd hd (by decide)
  calc setOuts f 0 (op.oargs c) temps t = temps t := setOuts_of_not_mem f 0 _ temps hout
    _ = temps' t := h t ht (by rw [deadAt_eq hop, (laOp_removed hrem).1]; exact hd)

end Step

/-- **One step.**  The ops left stay with the block and emit its events less those of removed
    ops. -/
theorem step_sim (H : Host Val W) {c : Config} {s : Temps} {ops : List Op}
    (hwf : WfBlock c s ops) (σ σ' : St Val W) (h : Sim c s ops σ σ') :
    Sim c s ops (H.step c s ops σ).2 (H.step c s (leftOps c s ops) σ').2 ∧
      (H.step c s (leftOps c s ops) σ').1
        = (H.step c s ops σ).1.filter (stillThere (leftOps c s ops)) := by
  unfold Host.step
  rw [h.pc]
  cases hpc : σ.pc with
  | none => exact ⟨h, rfl⟩
  | some p =>
    simp only
    cases hop : ops[p]? with
    | none =>
      rw [leftOps_getElem?_none hop]
      exact ⟨⟨rfl, h.world, fun _ he => absurd he (by simp)⟩, rfl⟩
    | some op =>
      have hlive : LiveEq c s ops p σ.temps σ'.temps := h.temps p hpc
      obtain ⟨o, ho, ⟨hkeep, rfl⟩ | ⟨hrem, hnop⟩⟩ := leftOps_getElem? hwf hop
      · obtain ⟨hev, hsim⟩ := kept_sim H hwf hop hkeep hlive σ.world
        rw [ho, findLabel_leftOps hwf, h.world]
        refine ⟨hsim, ?_⟩
        rw [← hev]
        refine (List.filter_eq_self.mpr fun e he => ?_).symm
        obtain ⟨-, rfl⟩ := Host.mem_execOp he
        simp [stillThere, ho, Op.event]
      -- the block executes a removed op where a no-op is left
      · rw [ho]
        simp only [nop_execOp H hnop, h.world]
        refine ⟨removed_sim H hop hrem hlive _ σ.world, ?_⟩
        refine (List.filter_eq_nil_iff.mpr fun e he => ?_).symm
        rw [Op.removed, Bool.and_eq_true] at hrem
        obtain ⟨-, hn, hn', -⟩ := Op.removable_opc hrem.1
        obtain ⟨-, rfl⟩ := Host.mem_execOp he
        obtain ho' | ho' := hnop
        · simp [stillThere, ho, Op.event, ho', Ne.symm hn]
        · simp [stillThere, ho, Op.event, ho', Ne.symm hn']

/-! ### Effects -/

/-- A host load or the call of a pure helper, which the pass may remove. -/
def Event.removable (e : Event Val) : Bool :=
  e.opc.isLoad || (e.opc == .call && hasFlag (e.cargs.getD 0 0) callPure)

theorem isLoad_of_observed {c : Config} {op : Op} (h : op.observed c = true)
    (hr : op.removable c = true) :
    op.opc.isLoad ∨ (op.opc = .call ∧ hasFlag (op.callFlags c) callPure) := by
  obtain hp | ⟨-, hs, -⟩ := Op.removable_cases hr
  · exact Or.inr hp
  · rw [Op.observed, Bool.or_eq_true, Bool.or_eq_true, beq_iff_eq] at h
    exact Or.inl ((h.resolve_right hs).resolve_right (Op.removable_opc hr).1)

/-- Every event of a block is still there or could be removed. -/
theorem stillThere_or_removable (H : Host Val W) {c : Config} {s : Temps} {ops : List Op}
    (hwf : WfBlock c s ops) (σ : St Val W) :
    ∀ e ∈ (H.step c s ops σ).1, stillThere (leftOps c s ops) e ∨ e.removable := by
  intro e he
  unfold Host.step at he
  cases hpc : σ.pc with
  | none => simp [hpc] at he
  | some p =>
    rw [hpc] at he
    cases hop : ops[p]? with
    | none => simp [hop] at he
    | some op =>
      simp only [hop] at he
      obtain ⟨hobs, rfl⟩ := Host.mem_execOp he
      obtain ⟨o, ho, ⟨-, rfl⟩ | ⟨hrem, -⟩⟩ := leftOps_getElem? hwf hop
      · left
        simp [stillThere, ho, Op.event]
      · right
        rw [Op.removed, Bool.and_eq_true] at hrem
        obtain hload | ⟨hc, hp⟩ := isLoad_of_observed hobs hrem.1
        · simp [Event.removable, Op.event, hload]
        · have hflags : (op.cargs c).getD 0 0 = op.callFlags c := by
            simp [Op.cargs, Op.callFlags, List.getD_eq_getElem?_getD]
          have hp' : hasFlag ((op.cargs c).getD 0 0) callPure = true := by rw [hflags, hp]
          show (op.opc.isLoad || (op.opc == .call && hasFlag ((op.cargs c).getD 0 0) callPure))
          rw [hp', hc]
          rfl

/-- **The liveness analysis.**  From any state and for any number of steps the ops it leaves are at
    the same place in the same world as the block.  They emit the events of the block less those of
    the ops removed, which are host loads and calls of pure helpers: the stores, guest accesses,
    other calls, labels and jumps are the same, with the same inputs and the same globals.  No path
    reads again what `op_dead_iargs` marks dead. -/
theorem tcgLivenessAnalysis_correct (H : Host Val W) (c : Config) (s : Temps) (ops : List Op)
    (hwf : WfBlock c s ops) :
    (∀ (σ : St Val W) (n : Nat),
      let r := run (H.step c s ops) n σ
      let r' := run (H.step c s (leftOps c s ops)) n σ
      r'.2.pc = r.2.pc ∧ r'.2.world = r.2.world ∧
        r'.1 = r.1.filter (stillThere (leftOps c s ops)) ∧
        r'.1.filter (fun e => !e.removable) = r.1.filter (fun e => !e.removable)) ∧
    ∀ (p j : Nat) (o : LaOp), (tcgLivenessAnalysis c s ops)[p]? = some o →
      o.deadIargs.testBit j →
      ∃ t, (o.op.iargs c)[j]? = some t ∧ t ∈ o.op.ins c ∧
        (t ∉ o.op.outs c → ∀ p' ∈ succs (findLabel (leftOps c s ops)) c p o.op,
          ¬ ReadAgain c s (leftOps c s ops) t p') := by
  refine ⟨fun σ n => ?_, fun p j o ho hj => deadIargs_not_readAgain hwf ho hj⟩
  obtain ⟨hsim, hev⟩ := run_lockstep (step_sim H hwf) (Sim.refl c s ops σ) n
  refine ⟨hsim.pc, hsim.world, hev, ?_⟩
  rw [hev, List.filter_filter]
  apply List.filter_congr
  intro e he
  have hstill := run_events (stillThere_or_removable H hwf) n σ e he
  cases hr : e.removable with
  | true => rfl
  | false =>
    rw [hr] at hstill
    rw [hstill.resolve_right (by decide)]
    rfl

/-! ### A pure call that goes -/

/-- A block that calls a pure helper whose result it does not use. -/
def pureCallBlock : List Op :=
  [⟨.moviI64, [2, 0x1000]⟩, ⟨.call, [0x10001, 1, 2, 0x10, 5]⟩, ⟨.moviI64, [0, 7]⟩,
    ⟨.exitTb, [0]⟩, ⟨.endOp, []⟩]

/-- One global and two plain temps. -/
def pureCallTemps : Temps := ⟨1, [⟨false⟩, ⟨false⟩, ⟨false⟩]⟩

/-- A host with registers of 64 bits. -/
def hostBits64 : Config := ⟨true, false⟩

/-- Constants are themselves, every other result is zero. -/
def plainHost : Host Nat Unit where
  imm := id
  undef := fun w => (0, w)
  eval := fun _ _ _ _ _ => 0
  store := fun _ _ _ w => w
  access := fun _ _ _ _ w => .ret (fun _ => 0) none w
  cond := fun _ _ _ => false
  chained := fun _ _ => false
  pureCall := fun _ _ _ _ => 0
  constCall := fun _ w => (fun _ => 0, w)
  helper := fun _ _ w => .ret (fun _ => 0) none w

theorem pureCallBlock_wf : WfBlock hostBits64 pureCallTemps pureCallBlock :=
  ⟨by decide, by decide, by decide, by decide⟩

/-- A call of a pure helper whose result is not used is removed. -/
theorem tcgLivenessAnalysis_correct_pureCallBlock :
    (run (plainHost.step hostBits64 pureCallTemps
      (leftOps hostBits64 pureCallTemps pureCallBlock)) 4
      ⟨some 0, fun _ => 0, ()⟩).2.pc
      = (run (plainHost.step hostBits64 pureCallTemps pureCallBlock) 4
        ⟨some 0, fun _ => 0, ()⟩).2.pc :=
  ((tcgLivenessAnalysis_correct plainHost hostBits64 pureCallTemps pureCallBlock
    pureCallBlock_wf).1 ⟨some 0, fun _ => 0, ()⟩ 4).1

/-- The call is not made by the ops the pass leaves. -/
theorem tcgLivenessAnalysis_removes_call :
    WfBlock hostBits64 pureCallTemps pureCallBlock ∧
      (run (plainHost.step hostBits64 pureCallTemps pureCallBlock) 4 ⟨some 0, fun _ => 0, ()⟩).1.map
          (·.opc) = [.call, .exitTb] ∧
      (run (plainHost.step hostBits64 pureCallTemps
        (leftOps hostBits64 pureCallTemps pureCallBlock)) 4
          ⟨some 0, fun _ => 0, ()⟩).1.map (·.opc) = [.exitTb] := by
  refine ⟨⟨?_, ?_, ?_, ?_⟩, ?_, ?_⟩ <;> decide

end Qemu.Tcg
