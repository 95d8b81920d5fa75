import Qemu.Tcg.Sem

namespace Qemu.Tcg

open Qemu.Lib Function

/-!
# Shifts of 64-bit temps on a 32-bit host (`tcg.c`, `tcg-op.h`)

On a 32-bit host a 64-bit temp is a pair of neighbouring 32-bit temps, and
`tcg_gen_shifti_i64` emits the 32-bit ops that shift the pair by a constant.

* `Gen` — the functions that emit ops: they take temps from the pool of the translation context,
  give them back, and append to the block; `none` is an abort or a failed assertion;
* `Host.onI32` — a host on which the 32-bit ops compute what `tcg/README` says;
* `Gen.Ends` — how a generator ends, with the room in the table of temps it needs;
* `Assigns` — the ops that were emitted set one temp and leave every other temp in use alone;
* `tcgGenShiftiI64_correct` — the pair holds the shifted value, aliased or not.
-/

/-! ### Generating ops -/

/-- `TCG_MAX_TEMPS` -/
abbrev tcgMaxTemps : Nat := 512

/-- The part of `TCGContext` that generating 32-bit ops changes, and the ops emitted so far. -/
structure GenState where
  nbGlobals : Nat
  nbTemps : Nat
  tempAllocated : Nat → Bool
  /-- The chain from `first_free_temp[TCG_TYPE_I32]` through `next_free_temp`. -/
  freeTemps : List Nat
  code : List Op

/-- A function that emits ops. -/
abbrev Gen (α : Type) := StateT GenState Option α

/-- `tcg_temp_new_i32`; `tcg_temp_alloc` aborts when the table of temps is full. -/
def tcgTempNewI32 : Gen TCGArg := fun s =>
  match s.freeTemps with
  | idx :: next =>
    some (idx, { s with
      freeTemps := next
      tempAllocated := update s.tempAllocated idx true })
  | [] =>
    if s.nbTemps + 1 > tcgMaxTemps then none
    else some (s.nbTemps, { s with
      nbTemps := s.nbTemps + 1
      tempAllocated := update s.tempAllocated s.nbTemps true })

/-- `tcg_temp_free_i32`, with its assertions. -/
def tcgTempFreeI32 (idx : TCGArg) : Gen Unit := fun s =>
  if s.nbGlobals ≤ idx ∧ idx < s.nbTemps ∧ s.tempAllocated idx then
    some ((), { s with
      tempAllocated := update s.tempAllocated idx false
      freeTemps := idx :: s.freeTemps })
  else none

/-- `*gen_opc_ptr++ = opc`, and the arguments to `gen_opparam_ptr`. -/
def tcgGenOp (opc : Opc) (args : List TCGArg) : Gen Unit := fun s =>
  some ((), { s with code := s.code ++ [⟨opc, args⟩] })

/-- `tcg_gen_mov_i32` -/
def tcgGenMovI32 (ret arg : TCGArg) : Gen Unit :=
  if ret ≠ arg then tcgGenOp .movI32 [ret, arg] else pure ()

/-- `tcg_gen_movi_i32` -/
def tcgGenMoviI32 (ret arg : TCGArg) : Gen Unit := tcgGenOp .moviI32 [ret, arg]

/-- `tcg_const_i32` -/
def tcgConstI32 (val : TCGArg) : Gen TCGArg := do
  let t0 ← tcgTempNewI32
  tcgGenMoviI32 t0 val
  return t0

/-- The common body of `tcg_gen_shli_i32`, `tcg_gen_shri_i32` and `tcg_gen_sari_i32`. -/
def tcgGenShiftiI32 (opc : Opc) (ret arg1 arg2 : TCGArg) : Gen Unit :=
  if arg2 = 0 then tcgGenMovI32 ret arg1
  else do
    let t0 ← tcgConstI32 arg2
    tcgGenOp opc [ret, arg1, t0]
    tcgTempFreeI32 t0

/-- `tcg_gen_shli_i32` -/
def tcgGenShliI32 : TCGArg → TCGArg → TCGArg → Gen Unit := tcgGenShiftiI32 .shlI32

/-- `tcg_gen_shri_i32` -/
def tcgGenShriI32 : TCGArg → TCGArg → TCGArg → Gen Unit := tcgGenShiftiI32 .shrI32

/-- `tcg_gen_sari_i32` -/
def tcgGenSariI32 : TCGArg → TCGArg → TCGArg → Gen Unit := tcgGenShiftiI32 .sarI32

/-- `tcg_gen_or_i32` -/
def tcgGenOrI32 (ret arg1 arg2 : TCGArg) : Gen Unit :=
  if arg1 = arg2 then tcgGenMovI32 ret arg1 else tcgGenOp .orI32 [ret, arg1, arg2]

/-- `TCGV_LOW` -/
abbrev tcgvLow (t : TCGArg) : TCGArg := t

/-- `TCGV_HIGH` -/
abbrev tcgvHigh (t : TCGArg) : TCGArg := t + 1

/-- The ops `tcg_gen_shifti_i64` emits between taking its two temps and giving them back. -/
def tcgGenShiftParts (ret arg1 : TCGArg) (c : Nat) (right arith : Bool) (t0 t1 : TCGArg) :
    Gen Unit :=
  if right then do
    tcgGenShliI32 t0 (tcgvHigh arg1) (32 - c)
    (if arith then tcgGenSariI32 else tcgGenShriI32) t1 (tcgvHigh arg1) c
    tcgGenShriI32 (tcgvLow ret) (tcgvLow arg1) c
    tcgGenOrI32 (tcgvLow ret) (tcgvLow ret) t0
    tcgGenMovI32 (tcgvHigh ret) t1
  else do
    tcgGenShriI32 t0 (tcgvLow arg1) (32 - c)
    -- ret can be the same as arg1, so the source uses t1
    tcgGenShliI32 t1 (tcgvLow arg1) c
    tcgGenShliI32 (tcgvHigh ret) (tcgvHigh arg1) c
    tcgGenOrI32 (tcgvHigh ret) (tcgvHigh ret) t0
    tcgGenMovI32 (tcgvLow ret) t1

/-- `tcg_gen_shifti_i64` -/
def tcgGenShiftiI64 (ret arg1 : TCGArg) (c : Nat) (right arith : Bool) : Gen Unit :=
  if c = 0 then do
    tcgGenMovI32 (tcgvLow ret) (tcgvLow arg1)
    tcgGenMovI32 (tcgvHigh ret) (tcgvHigh arg1)
  else if c ≥ 32 then
    let c := c - 32
    if right then
      if arith then do
        tcgGenSariI32 (tcgvLow ret) (tcgvHigh arg1) c
        tcgGenSariI32 (tcgvHigh ret) (tcgvHigh arg1) 31
      else do
        tcgGenShriI32 (tcgvLow ret) (tcgvHigh arg1) c
        tcgGenMoviI32 (tcgvHigh ret) 0
    else do
      tcgGenShliI32 (tcgvHigh ret) (tcgvLow arg1) c
      tcgGenMoviI32 (tcgvLow ret) 0
  else do
    let t0 ← tcgTempNewI32
    let t1 ← tcgTempNewI32
    tcgGenShiftParts ret arg1 c right arith t0 t1
    tcgTempFreeI32 t0
    tcgTempFreeI32 t1

/-! ### What the ops compute -/

variable {W : Type*}

/-- The 32-bit ops as `tcg/README` describes them; a count of 32 or more leaves what the host
    happens to give. -/
def Host.onI32 (H : Host (BitVec 32) W) : Host (BitVec 32) W :=
  { H with
    imm := fun a => BitVec.ofNat 32 a
    eval := fun opc vals cargs w =>
      match opc, vals with
      | .orI32, [a, b] => fun _ => a ||| b
      | .shlI32, [a, b] => if b.toNat < 32 then fun _ => a <<< b.toNat else H.eval opc vals cargs w
      | .shrI32, [a, b] => if b.toNat < 32 then fun _ => a >>> b.toNat else H.eval opc vals cargs w
      | .sarI32, [a, b] =>
        if b.toNat < 32 then fun _ => a.sshiftRight b.toNat else H.eval opc vals cargs w
      | _, _ => H.eval opc vals cargs w }

/-- The op leaves the world alone and cannot be seen from outside. -/
def Op.isPlain (K : Config) (op : Op) : Bool :=
  op.opc.isDefault && !op.opc.isLoad && (tcgOpDefs K op.opc).flags == 0

/-- The temps after a plain op. -/
def Host.effect (H : Host (BitVec 32) W) (K : Config) (w : W) (temps : Nat → BitVec 32)
    (op : Op) : Nat → BitVec 32 :=
  setOuts (H.evalOp op.opc ((op.iargs K).map temps) (op.cargs K) w) 0 (op.oargs K) temps

/-- A plain op continues with the next one. -/
theorem Host.execOp_of_isPlain (H : Host (BitVec 32) W) {K : Config} (S : Temps)
    (lbl : TCGArg → Option Nat) (pc : Nat) {op : Op} (hop : op.isPlain K)
    (temps : Nat → BitVec 32) (w : W) :
    H.execOp K S lbl pc op temps w = ([], ⟨some (pc + 1), H.effect K w temps op, w⟩) := by
  simp only [Op.isPlain, Bool.and_eq_true, beq_iff_eq, Bool.not_eq_true'] at hop
  obtain ⟨⟨hdefault, hload⟩, hflags⟩ := hop
  have hobs : op.observed K = false := by
    have hlabel : (op.opc == .setLabel) = false := by
      cases hopc : op.opc <;> simp_all [Opc.isDefault]
    simp [Op.observed, hload, hlabel, hflags, hasFlag]
  have hstate : H.execState K S lbl pc op temps w = H.execDefault K S lbl pc op temps w := by
    unfold Host.execState
    split <;> first | rfl | (rename_i hopc; simp [hopc, Opc.isDefault] at hdefault)
  simp only [Host.execOp, hobs, hstate, Host.execDefault, Host.opOutcome, hflags]
  simp [hasFlag, finish_ret_none, Host.effect]

/-- A run over plain ops, wherever in the block they are. -/
theorem run_of_isPlain (H : Host (BitVec 32) W) {K : Config} (S : Temps) {ops : List Op}
    (hops : ∀ op ∈ ops, op.isPlain K) (before after : List Op) (temps : Nat → BitVec 32) (w : W) :
    run (H.step K S (before ++ ops ++ after)) ops.length ⟨some before.length, temps, w⟩ =
      ([], ⟨some (before.length + ops.length), ops.foldl (H.effect K w) temps, w⟩) := by
  induction ops generalizing before temps with
  | nil => rfl
  | cons op ops ih =>
    obtain ⟨hop, hrest⟩ := List.forall_mem_cons.mp hops
    have hstep : H.step K S (before ++ op :: ops ++ after) ⟨some before.length, temps, w⟩ =
        ([], ⟨some (before.length + 1), H.effect K w temps op, w⟩) := by
      simp [Host.step, H.execOp_of_isPlain S _ _ hop]
    have hnext := ih hrest (before ++ [op]) (H.effect K w temps op)
    simp only [List.append_assoc, List.length_append, List.cons_append, List.nil_append,
      List.length_singleton] at hnext
    simp only [List.append_assoc, List.cons_append] at hstep
    simp only [List.length_cons, run_succ, List.append_assoc, List.cons_append, hstep, hnext]
    simp [Nat.add_comm, Nat.add_left_comm]

/-! ### What a generator leaves -/

/-- A temp that holds a value: a global, or allocated. -/
def GenState.InUse (s : GenState) (t : TCGArg) : Prop :=
  t < s.nbTemps ∧ (t < s.nbGlobals ∨ s.tempAllocated t = true)

/-- The free temps are temps, none of them twice, none a global or allocated. -/
structure GenState.Wf (s : GenState) : Prop where
  globals : s.nbGlobals ≤ s.nbTemps
  nodup : s.freeTemps.Nodup
  free : ∀ t ∈ s.freeTemps, s.nbGlobals ≤ t ∧ t < s.nbTemps ∧ s.tempAllocated t = false

/-- How many temps can still be taken. -/
def GenState.room (s : GenState) : Nat := s.freeTemps.length + (tcgMaxTemps - s.nbTemps)

/-- How a generator ends: `Q` holds of its result, and it fails only without room for `n` temps. -/
def Gen.Ends {α : Type} (g : Gen α) (s : GenState) (n : Nat) (Q : α → GenState → Prop) : Prop :=
  (∀ a s', g s = some (a, s') → Q a s') ∧ (n ≤ s.room → (g s).isSome)

theorem Gen.Ends.pure {α : Type} {a : α} {s : GenState} {n : Nat} {Q : α → GenState → Prop}
    (h : Q a s) : Gen.Ends (Pure.pure a) s n Q := by
  refine ⟨fun a' s' h' => ?_, fun _ => rfl⟩
  cases h'
  exact h

/-- A sequence, which needs the room of the first part, and leaves that of the second. -/
theorem Gen.Ends.bind {α β : Type} {g : Gen α} {f : α → Gen β} {s : GenState} {n m : Nat}
    {Q : α → GenState → Prop} {R : β → GenState → Prop} (hg : g.Ends s n Q)
    (hf : ∀ a s', Q a s' → (f a).Ends s' m R) (hm : ∀ a s', Q a s' → n ≤ s.room → m ≤ s'.room) :
    Gen.Ends (g >>= f) s n R := by
  have hbind : (g >>= f) s = (g s).bind fun r => f r.1 r.2 := rfl
  constructor
  · intro b s'' h
    rw [hbind] at h
    obtain ⟨⟨a, s'⟩, hgs, hfs⟩ := Option.bind_eq_some_iff.mp h
    exact (hf a s' (hg.1 a s' hgs)).1 b s'' hfs
  · intro hn
    obtain ⟨⟨a, s'⟩, hgs⟩ := Option.isSome_iff_exists.mp (hg.2 hn)
    have hq := hg.1 a s' hgs
    rw [hbind, hgs]
    exact (hf a s' hq).2 (hm a s' hq hn)

/-- The ops added between two states change the temps as `T` says. -/
def Emits (H : Host (BitVec 32) W) (K : Config) (s s' : GenState)
    (T : W → (Nat → BitVec 32) → Nat → BitVec 32) : Prop :=
  ∃ ops, s'.code = s.code ++ ops ∧ (∀ op ∈ ops, op.isPlain K) ∧
    ∀ w temps, ops.foldl (H.onI32.effect K w) temps = T w temps

theorem Emits.refl {H : Host (BitVec 32) W} {K : Config} {s s' : GenState}
    (h : s'.code = s.code) : Emits H K s s' (fun _ temps => temps) :=
  ⟨[], by simp [h], by simp, fun _ _ => rfl⟩

/-- The ops of both parts, one behind the other. -/
theorem Emits.trans {H : Host (BitVec 32) W} {K : Config} {s s' s'' : GenState}
    {T T' : W → (Nat → BitVec 32) → Nat → BitVec 32} (h : Emits H K s s' T)
    (h' : Emits H K s' s'' T') : Emits H K s s'' (fun w temps => T' w (T w temps)) := by
  obtain ⟨ops, hcode, hplain, hT⟩ := h
  obtain ⟨ops', hcode', hplain', hT'⟩ := h'
  refine ⟨ops ++ ops', by rw [hcode', hcode, List.append_assoc], ?_, fun w temps => ?_⟩
  · intro op hop
    exact (List.mem_append.mp hop).elim (hplain op) (hplain' op)
  · rw [List.foldl_append, hT, hT']

/-- What is the same before and after: the room and which temps are in use. -/
structure Kept (s s' : GenState) : Prop where
  wf : s'.Wf
  globals : s'.nbGlobals = s.nbGlobals
  room : s'.room = s.room
  inUse : ∀ t, s'.InUse t ↔ s.InUse t

/-- The ops added set `ret` to `val` of the temps before, and leave the other temps in use. -/
structure Assigns (H : Host (BitVec 32) W) (K : Config) (s s' : GenState) (ret : TCGArg)
    (val : (Nat → BitVec 32) → BitVec 32) (T : W → (Nat → BitVec 32) → Nat → BitVec 32) :
    Prop extends Kept s s' where
  emits : Emits H K s s' T
  value : ∀ w temps, T w temps ret = val temps
  frame : ∀ w temps t, s.InUse t → t ≠ ret → T w temps t = temps t

theorem Kept.refl {s : GenState} (hs : s.Wf) : Kept s s := ⟨hs, rfl, rfl, fun _ => Iff.rfl⟩

theorem Kept.trans {s s' s'' : GenState} (h : Kept s s') (h' : Kept s' s'') : Kept s s'' where
  wf := h'.wf
  globals := h'.globals.trans h.globals
  room := h'.room.trans h.room
  inUse := fun t => (h'.inUse t).trans (h.inUse t)

/-- A temp has been taken from the pool. -/
structure Taken (s s' : GenState) (t : TCGArg) : Prop where
  wf : s'.Wf
  globals : s'.nbGlobals = s.nbGlobals
  notGlobal : s.nbGlobals ≤ t
  room : s'.room + 1 = s.room
  code : s'.code = s.code
  fresh : ¬ s.InUse t
  inUse : ∀ u, s'.InUse u ↔ s.InUse u ∨ u = t

/-- A temp has been given back. -/
structure Freed (s s' : GenState) (t : TCGArg) : Prop where
  wf : s'.Wf
  globals : s'.nbGlobals = s.nbGlobals
  room : s'.room = s.room + 1
  code : s'.code = s.code
  inUse : ∀ u, s'.InUse u ↔ s.InUse u ∧ u ≠ t

theorem Taken.ne {s s' : GenState} {t u : TCGArg} (h : Taken s s' t) (hu : s.InUse u) : u ≠ t :=
  fun hut => h.fresh (hut ▸ hu)

/-- Taking a temp, some ops, and giving it back keep what is in use. -/
theorem Kept.of_taken {s s₁ s₂ s₃ : GenState} {t : TCGArg} (h₁ : Taken s s₁ t) (h₂ : Kept s₁ s₂)
    (h₃ : Freed s₂ s₃ t) : Kept s s₃ where
  wf := h₃.wf
  globals := h₃.globals.trans (h₂.globals.trans h₁.globals)
  room := by rw [h₃.room, h₂.room, h₁.room]
  inUse := by
    intro u
    rw [h₃.inUse, h₂.inUse, h₁.inUse]
    constructor
    · rintro ⟨hu | hu, hne⟩
      · exact hu
      · exact absurd hu hne
    · exact fun hu => ⟨Or.inl hu, h₁.ne hu⟩

/-- `tcg_temp_new_i32` needs room for one temp. -/
theorem tcgTempNewI32_ends {s : GenState} (hs : s.Wf) :
    tcgTempNewI32.Ends s 1 (fun t s' => Taken s s' t) := by
  -- a free temporary is reused, else a new one is made while there is room
  constructor
  · intro t s' h
    unfold tcgTempNewI32 at h
    split at h
    · next idx next hfree =>
      cases h
      have hnodup := hs.nodup
      rw [hfree, List.nodup_cons] at hnodup
      obtain ⟨hglobal, hlt, halloc⟩ := hs.free t (hfree ▸ List.mem_cons_self)
      refine ⟨⟨hs.globals, hnodup.2, fun u hu => ?_⟩, rfl, hglobal, ?_, rfl, ?_, fun u => ?_⟩
      · have hne : u ≠ t := fun hue => hnodup.1 (hue ▸ hu)
        have hmem := hs.free u (hfree ▸ List.mem_cons_of_mem _ hu)
        exact ⟨hmem.1, hmem.2.1, by simp only [update_of_ne hne]; exact hmem.2.2⟩
      · simp only [GenState.room, hfree, List.length_cons]
        omega
      · simp [GenState.InUse, halloc, hglobal]
      · by_cases hu : u = t <;> simp [GenState.InUse, hu, hlt]
    · next hfree =>
      split at h
      · cases h
      · next hfull =>
        cases h
        refine ⟨⟨Nat.le_succ_of_le hs.globals, hs.nodup, fun u hu => ?_⟩, rfl, hs.globals, ?_, rfl,
          ?_, fun u => ?_⟩
        · exact absurd (hfree ▸ hu) List.not_mem_nil
        · simp only [GenState.room]
          omega
        · simp [GenState.InUse]
        · by_cases hu : u = s.nbTemps
          · simp [GenState.InUse, hu]
          · simp only [GenState.InUse, update_of_ne hu, hu, or_false]
            have hlt : u < s.nbTemps + 1 ↔ u < s.nbTemps :=
              ⟨fun h => Nat.lt_of_le_of_ne (Nat.le_of_lt_succ h) hu, Nat.lt_succ_of_lt⟩
            rw [hlt]
  · intro hroom
    unfold tcgTempNewI32
    split
    · rfl
    · next hfree =>
      have hnotfull : ¬ s.nbTemps + 1 > tcgMaxTemps := by
        simp only [GenState.room, hfree, List.length_nil] at hroom
        omega
      rw [if_neg hnotfull]
      rfl

/-- `tcg_temp_free_i32` gives it back. -/
theorem tcgTempFreeI32_ends {s : GenState} (hs : s.Wf) {t : TCGArg} (ht : s.InUse t)
    (hglobal : s.nbGlobals ≤ t) (n : Nat) :
    (tcgTempFreeI32 t).Ends s n (fun _ s' => Freed s s' t) := by
  have halloc : s.tempAllocated t = true := ht.2.resolve_left (Nat.not_lt.mpr hglobal)
  have hok : s.nbGlobals ≤ t ∧ t < s.nbTemps ∧ s.tempAllocated t := ⟨hglobal, ht.1, halloc⟩
  have hnew : t ∉ s.freeTemps := fun hmem => by simp [(hs.free t hmem).2.2] at halloc
  constructor
  · intro _ s' h
    rw [tcgTempFreeI32, if_pos hok] at h
    cases h
    refine ⟨⟨hs.globals, List.nodup_cons.mpr ⟨hnew, hs.nodup⟩, fun u hu => ?_⟩, rfl, ?_, rfl,
      fun u => ?_⟩
    · obtain rfl | hu := List.mem_cons.mp hu
      · exact ⟨hglobal, ht.1, by simp⟩
      · have hne : u ≠ t := fun hut => hnew (hut ▸ hu)
        obtain ⟨hg, hlt, ha⟩ := hs.free u hu
        exact ⟨hg, hlt, by simp only [update_of_ne hne]; exact ha⟩
    · simp only [GenState.room, List.length_cons]
      omega
    · by_cases hu : u = t
      · simp [GenState.InUse, hu, hglobal]
      · simp [GenState.InUse, hu]
  · intro _
    rw [tcgTempFreeI32, if_pos hok]
    rfl

section Assigns

variable {H : Host (BitVec 32) W} {K : Config} {s : GenState} {ret arg1 arg2 : TCGArg}

theorem tcgGenOp_emits (hs : s.Wf) (opc : Opc) (args : List TCGArg) {n : Nat}
    (hplain : Op.isPlain K ⟨opc, args⟩) :
    (tcgGenOp opc args).Ends s n (fun _ s' => Kept s s' ∧
      Emits H K s s' (fun w temps => H.onI32.effect K w temps ⟨opc, args⟩)) := by
  refine ⟨fun _ s' h => ?_, fun _ => rfl⟩
  cases h
  refine ⟨⟨⟨hs.globals, hs.nodup, hs.free⟩, rfl, rfl, fun _ => Iff.rfl⟩, [⟨opc, args⟩], rfl, ?_,
    fun w temps => rfl⟩
  simpa using hplain

/-- One plain op that writes one temp. -/
theorem tcgGenOp_ends (hs : s.Wf) (ret : TCGArg) (opc : Opc) (args : List TCGArg) {n : Nat}
    (val : (Nat → BitVec 32) → BitVec 32) (hplain : Op.isPlain K ⟨opc, args⟩)
    (heffect : ∀ w temps, H.onI32.effect K w temps ⟨opc, args⟩ =
      update temps ret (val temps)) :
    (tcgGenOp opc args).Ends s n (fun _ s' => Assigns H K s s' ret val
      (fun _ temps => update temps ret (val temps))) := by
  have hop := tcgGenOp_emits (H := H) (n := n) hs opc args hplain
  refine ⟨fun a s' h => ?_, hop.2⟩
  obtain ⟨hkept, hemits⟩ := hop.1 a s' h
  simp only [heffect] at hemits
  exact ⟨hkept, hemits, fun w temps => update_self ..,
    fun w temps t _ hne => update_of_ne hne ..⟩

/-- `tcg_gen_mov_i32` assigns the source. -/
theorem tcgGenMovI32_ends (hs : s.Wf) (ret arg1 : TCGArg) (n : Nat) :
    (tcgGenMovI32 ret arg1).Ends s n
      (fun _ s' => ∃ T, Assigns H K s s' ret (fun temps => temps arg1) T) := by
  unfold tcgGenMovI32
  split
  · have hop := tcgGenOp_ends (H := H) (K := K) (n := n) hs ret .movI32 [ret, arg1]
      (fun temps => temps arg1) (by cases K; rfl) (fun w temps => by cases K; rfl)
    exact ⟨fun a s' h => ⟨_, hop.1 a s' h⟩, hop.2⟩
  · next heq =>
    -- no op, the temp has the value already
    have heq := not_ne_iff.mp heq
    exact Gen.Ends.pure ⟨_, ⟨Kept.refl hs, Emits.refl rfl, fun w temps => by rw [heq],
      fun w temps t _ _ => rfl⟩⟩

theorem tcgGenMoviI32_ends (hs : s.Wf) (ret v n : Nat) :
    (tcgGenMoviI32 ret v).Ends s n (fun _ s' => Assigns H K s s' ret (fun _ => BitVec.ofNat 32 v)
      (fun _ temps => update temps ret (BitVec.ofNat 32 v))) :=
  tcgGenOp_ends hs _ _ _ _ (by cases K; rfl) (fun w temps => by cases K; rfl)

/-- `tcg_gen_or_i32` assigns the or of both. -/
theorem tcgGenOrI32_ends (hs : s.Wf) (ret arg1 arg2 : TCGArg) (n : Nat) :
    (tcgGenOrI32 ret arg1 arg2).Ends s n
      (fun _ s' => ∃ T, Assigns H K s s' ret (fun temps => temps arg1 ||| temps arg2) T) := by
  unfold tcgGenOrI32
  split
  · next heq =>
    -- the value is or-ed with itself
    have hmov := tcgGenMovI32_ends (H := H) (K := K) hs ret arg1 n
    simpa only [← heq, BitVec.or_self] using hmov
  · have hop := tcgGenOp_ends (H := H) (K := K) (n := n) hs ret .orI32 [ret, arg1, arg2]
      (fun temps => temps arg1 ||| temps arg2) (by cases K; rfl) (fun w temps => by cases K; rfl)
    exact ⟨fun a s' h => ⟨_, hop.1 a s' h⟩, hop.2⟩

/-- The opcode shifts as `f` does, for the counts `tcg/README` allows. -/
structure IsShift (H : Host (BitVec 32) W) (opc : Opc) (f : BitVec 32 → Nat → BitVec 32) :
    Prop where
  plain : ∀ K args, Op.isPlain K ⟨opc, args⟩
  zero : ∀ x, f x 0 = x
  effect : ∀ K w (temps : Nat → BitVec 32) ret a b, (temps b).toNat < 32 →
    H.onI32.effect K w temps ⟨opc, [ret, a, b]⟩ =
      update temps ret (f (temps a) (temps b).toNat)

theorem isShift_shlI32 (H : Host (BitVec 32) W) : IsShift H .shlI32 (fun x n => x <<< n) where
  plain := fun K args => by cases K; rfl
  zero := fun x => BitVec.shiftLeft_zero x
  effect := fun K w temps ret a b hb => by
    have heval : H.onI32.evalOp .shlI32 [temps a, temps b] [] w =
        fun _ => temps a <<< (temps b).toNat := if_pos hb
    cases K
    exact congrArg (fun f => setOuts f 0 [ret] temps) heval

theorem isShift_shrI32 (H : Host (BitVec 32) W) : IsShift H .shrI32 (fun x n => x >>> n) where
  plain := fun K args => by cases K; rfl
  zero := fun x => BitVec.ushiftRight_zero x
  effect := fun K w temps ret a b hb => by
    have heval : H.onI32.evalOp .shrI32 [temps a, temps b] [] w =
        fun _ => temps a >>> (temps b).toNat := if_pos hb
    cases K
    exact congrArg (fun f => setOuts f 0 [ret] temps) heval

theorem isShift_sarI32 (H : Host (BitVec 32) W) : IsShift H .sarI32 BitVec.sshiftRight where
  plain := fun K args => by cases K; rfl
  zero := fun x => BitVec.sshiftRight_zero
  effect := fun K w temps ret a b hb => by
    have heval : H.onI32.evalOp .sarI32 [temps a, temps b] [] w =
        fun _ => (temps a).sshiftRight (temps b).toNat := if_pos hb
    cases K
    exact congrArg (fun f => setOuts f 0 [ret] temps) heval

/-- **A shift by a constant**: the count is put in a temp of its own, which is given back. -/
theorem tcgGenShiftiI32_ends (ret : TCGArg) {opc : Opc} {f : BitVec 32 → Nat → BitVec 32}
    (hf : IsShift H opc f) (hs : s.Wf) (harg : s.InUse arg1) {v : Nat} (hv : v < 32) :
    (tcgGenShiftiI32 opc ret arg1 v).Ends s 1
      (fun _ s' => ∃ T, Assigns H K s s' ret (fun temps => f (temps arg1) v) T) := by
  unfold tcgGenShiftiI32
  -- a shift by zero is a move, any other loads its count
  split
  · next hzero =>
    subst hzero
    simp only [hf.zero]
    exact tcgGenMovI32_ends hs ret arg1 1
  · have hconst : (tcgConstI32 v).Ends s 1 (fun t s₂ => ∃ s₁ T, Taken s s₁ t ∧
        Assigns H K s₁ s₂ t (fun _ => BitVec.ofNat 32 v) T) := by
      refine (tcgTempNewI32_ends hs).bind (m := 0) (fun t s₁ h₁ => ?_)
        (fun _ _ _ _ => Nat.zero_le _)
      refine (tcgGenMoviI32_ends (H := H) (K := K) h₁.wf t v 0).bind (m := 0)
        (fun _ s₂ h₂ => Gen.Ends.pure ⟨s₁, _, h₁, h₂⟩) (fun _ _ _ _ => Nat.zero_le _)
    refine hconst.bind (m := 0) ?_ (fun _ _ _ _ => Nat.zero_le _)
    rintro t s₂ ⟨s₁, T, h₁, h₂⟩
    have hcount : ∀ w temps, (T w temps t).toNat = v := by
      intro w temps
      rw [h₂.value, BitVec.toNat_ofNat, Nat.mod_eq_of_lt (by omega)]
    have htarg : arg1 ≠ t := h₁.ne harg
    have hfree : ∀ s₃, Kept s₂ s₃ → (tcgTempFreeI32 t).Ends s₃ 0 (fun _ s₄ => Freed s₃ s₄ t) := by
      intro s₃ h₃
      refine tcgTempFreeI32_ends h₃.wf ?_ ?_ 0
      · exact (h₃.inUse t).mpr ((h₂.inUse t).mpr ((h₁.inUse t).mpr (Or.inr rfl)))
      · rw [h₃.globals, h₂.globals, h₁.globals]
        exact h₁.notGlobal
    refine (tcgGenOp_emits (H := H) h₂.wf _ _ (hf.plain K _)).bind (m := 0) ?_
      (fun _ _ _ _ => Nat.zero_le _)
    rintro - s₃ ⟨h₃, hemits⟩
    refine ⟨fun a s₄ h => ?_, (hfree s₃ h₃).2⟩
    have h₄ := (hfree s₃ h₃).1 a s₄ h
    have hall := ((Emits.refl h₁.code).trans h₂.emits).trans
      (hemits.trans (Emits.refl h₄.code))
    refine ⟨_, Kept.of_taken h₁ (h₂.toKept.trans h₃) h₄, hall, fun w temps => ?_,
      fun w temps u hu hne => ?_⟩
    · rw [hf.effect K w _ _ _ _ (by rw [hcount]; exact hv), update_self, hcount,
        h₂.frame w temps arg1 ((h₁.inUse arg1).mpr (Or.inl harg)) htarg]
    · rw [hf.effect K w _ _ _ _ (by rw [hcount]; exact hv), update_of_ne hne,
        h₂.frame w temps u ((h₁.inUse u).mpr (Or.inl hu)) (h₁.ne hu)]

/-- The ops added set `a` and `b` to values of the temps before. -/
structure AssignsTwo (H : Host (BitVec 32) W) (K : Config) (s s' : GenState) (a : TCGArg)
    (va : (Nat → BitVec 32) → BitVec 32) (b : TCGArg) (vb : (Nat → BitVec 32) → BitVec 32)
    (T : W → (Nat → BitVec 32) → Nat → BitVec 32) : Prop extends Kept s s' where
  emits : Emits H K s s' T
  valueFst : ∀ w temps, T w temps a = va temps
  valueSnd : ∀ w temps, T w temps b = vb temps
  frame : ∀ w temps t, s.InUse t → t ≠ a → t ≠ b → T w temps t = temps t

/-- Two assignments to different temps, of which the second does not read the first. -/
theorem Assigns.andThen {s₁ s₂ : GenState} {a b : TCGArg}
    {va vb vb' : (Nat → BitVec 32) → BitVec 32} {T₁ T₂ : W → (Nat → BitVec 32) → Nat → BitVec 32}
    (h₁ : Assigns H K s s₁ a va T₁) (h₂ : Assigns H K s₁ s₂ b vb' T₂) (hab : a ≠ b)
    (ha : s.InUse a) (hb : ∀ w temps, vb' (T₁ w temps) = vb temps) :
    AssignsTwo H K s s₂ a va b vb (fun w temps => T₂ w (T₁ w temps)) where
  toKept := h₁.toKept.trans h₂.toKept
  emits := h₁.emits.trans h₂.emits
  valueFst := fun w temps => by rw [h₂.frame w _ a ((h₁.inUse a).mpr ha) hab, h₁.value]
  valueSnd := fun w temps => by rw [h₂.value, hb]
  frame := fun w temps t ht hta htb => by
    rw [h₂.frame w _ t ((h₁.inUse t).mpr ht) htb, h₁.frame w _ t ht hta]

theorem assigns_bind {g : Gen Unit} {f : Gen Unit} {n : Nat} {R : Unit → GenState → Prop}
    {val : (Nat → BitVec 32) → BitVec 32}
    (hg : g.Ends s n (fun _ s' => ∃ T, Assigns H K s s' ret val T))
    (hf : ∀ s' T, Assigns H K s s' ret val T → f.Ends s' n R) :
    Gen.Ends (g >>= fun _ => f) s n R := by
  refine hg.bind (m := n) ?_ ?_
  · rintro - s' ⟨T, h⟩
    exact hf s' T h
  · rintro - s' ⟨T, h⟩ hn
    exact h.room ▸ hn

/-- Two shifts one after the other; the second may not read what the first wrote. -/
theorem two_ends {g₁ g₂ : Gen Unit} {a b : TCGArg} {n : Nat}
    {va vb : (Nat → BitVec 32) → BitVec 32}
    (h₁ : g₁.Ends s n (fun _ s' => ∃ T, Assigns H K s s' a va T))
    (h₂ : ∀ s', s'.Wf → (∀ t, s'.InUse t ↔ s.InUse t) →
      g₂.Ends s' n (fun _ s'' => ∃ T, Assigns H K s' s'' b vb T))
    (hab : a ≠ b) (ha : s.InUse a)
    (hb : ∀ temps temps' : Nat → BitVec 32, (∀ t, s.InUse t → t ≠ a → temps' t = temps t) →
      vb temps' = vb temps) :
    Gen.Ends (g₁ >>= fun _ => g₂) s n
      (fun _ s' => ∃ T, AssignsTwo H K s s' a va b vb T) := by
  refine assigns_bind h₁ fun s₁ T₁ h₁ => ?_
  obtain ⟨hall, hsome⟩ := h₂ s₁ h₁.wf h₁.inUse
  refine ⟨fun a s₂ h => ?_, hsome⟩
  obtain ⟨T₂, h₂⟩ := hall a s₂ h
  exact ⟨_, h₁.andThen h₂ hab ha fun w temps => hb temps _ (h₁.frame w temps)⟩

/-- **The five ops of a short shift**: `x` gets its own part and what crosses over from `a`, kept in
    `t0`; `y` gets its part of `a` through `t1`, as `a` may be `x`. -/
theorem parts_ends {opc₀ opc₁ opc₂ : Opc} {f₀ f₁ f₂ : BitVec 32 → Nat → BitVec 32}
    (hf₀ : IsShift H opc₀ f₀) (hf₁ : IsShift H opc₁ f₁) (hf₂ : IsShift H opc₂ f₂)
    {x y a b t0 t1 : TCGArg} {c : Nat} (hs : s.Wf) (hc : 0 < c ∧ c < 32)
    (hx : s.InUse x) (ha : s.InUse a) (hb : s.InUse b) (h0 : s.InUse t0) (h1 : s.InUse t1)
    (hxy : x ≠ y) (h01 : t0 ≠ t1) (hx0 : x ≠ t0) (hx1 : x ≠ t1) (ha0 : a ≠ t0)
    (hb0 : b ≠ t0) (hb1 : b ≠ t1) :
    Gen.Ends (do
      tcgGenShiftiI32 opc₀ t0 a (32 - c)
      tcgGenShiftiI32 opc₁ t1 a c
      tcgGenShiftiI32 opc₂ x b c
      tcgGenOrI32 x x t0
      tcgGenMovI32 y t1) s 1 (fun _ s' => ∃ T, Kept s s' ∧ Emits H K s s' T ∧ ∀ w temps,
        T w temps x = (f₂ (temps b) c ||| f₀ (temps a) (32 - c)) ∧ T w temps y = f₁ (temps a) c ∧
        ∀ t, s.InUse t → t ≠ x → t ≠ y → t ≠ t0 → t ≠ t1 → T w temps t = temps t) := by
  refine assigns_bind (K := K) (tcgGenShiftiI32_ends _ hf₀ hs ha (by omega)) fun s₁ T₁ h₁ => ?_
  refine assigns_bind (K := K) (tcgGenShiftiI32_ends _ hf₁ h₁.wf ((h₁.inUse a).mpr ha) hc.2)
    fun s₂ T₂ h₂ => ?_
  have use₂ : ∀ t, s₂.InUse t ↔ s.InUse t := fun t => (h₂.inUse t).trans (h₁.inUse t)
  refine assigns_bind (K := K) (tcgGenShiftiI32_ends _ hf₂ h₂.wf ((use₂ b).mpr hb) hc.2)
    fun s₃ T₃ h₃ => ?_
  have use₃ : ∀ t, s₃.InUse t ↔ s.InUse t := fun t => (h₃.inUse t).trans (use₂ t)
  refine assigns_bind (H := H) (K := K) (tcgGenOrI32_ends h₃.wf x x t0 1) fun s₄ T₄ h₄ => ?_
  have use₄ : ∀ t, s₄.InUse t ↔ s.InUse t := fun t => (h₄.inUse t).trans (use₃ t)
  obtain ⟨hall, hsome⟩ := tcgGenMovI32_ends (H := H) (K := K) h₄.wf y t1 1
  refine ⟨fun u s₅ h => ?_, hsome⟩
  obtain ⟨T₅, h₅⟩ := hall u s₅ h
  refine ⟨_, (((h₁.toKept.trans h₂.toKept).trans h₃.toKept).trans h₄.toKept).trans h₅.toKept,
    (((h₁.emits.trans h₂.emits).trans h₃.emits).trans h₄.emits).trans h₅.emits, fun w temps => ?_⟩
  -- the two parts are made in temporaries of their own
  have frame₂ : ∀ t, s.InUse t → t ≠ t0 → t ≠ t1 → T₂ w (T₁ w temps) t = temps t := by
    intro t ht ht0 ht1
    rw [h₂.frame w _ t ((h₁.inUse t).mpr ht) ht1, h₁.frame w _ t ht ht0]
  have frame₄ : ∀ t, s.InUse t → t ≠ x →
      T₄ w (T₃ w (T₂ w (T₁ w temps))) t = T₂ w (T₁ w temps) t := by
    intro t ht htx
    rw [h₄.frame w _ t ((use₃ t).mpr ht) htx, h₃.frame w _ t ((use₂ t).mpr ht) htx]
  have hT0 : T₂ w (T₁ w temps) t0 = f₀ (temps a) (32 - c) := by
    rw [h₂.frame w _ t0 ((h₁.inUse t0).mpr h0) h01, h₁.value]
  have hT1 : T₂ w (T₁ w temps) t1 = f₁ (temps a) c := by
    rw [h₂.value, h₁.frame w _ a ha ha0]
  refine ⟨?_, ?_, fun t ht htx hty ht0 ht1 => ?_⟩
  · rw [h₅.frame w _ x ((use₄ x).mpr hx) hxy, h₄.value, h₃.value,
      h₃.frame w _ t0 ((use₂ t0).mpr h0) hx0.symm, hT0, frame₂ b hb hb0 hb1]
  · rw [h₅.value, frame₄ t1 h1 hx1.symm, hT1]
  · rw [h₅.frame w _ t ((use₄ t).mpr ht) hty, frame₄ t ht htx, frame₂ t ht ht0 ht1]

end Assigns

/-! ### 64-bit shifts by halves -/

/-- The value of a 64-bit temp. -/
def val64 (temps : Nat → BitVec 32) (t : TCGArg) : BitVec 64 :=
  temps (tcgvHigh t) ++ temps (tcgvLow t)

/-- The 64-bit shift that is asked for. -/
def shift64 (right arith : Bool) (v : BitVec 64) (c : Nat) : BitVec 64 :=
  if right then if arith then v.sshiftRight c else v >>> c else v <<< c

section Halves

variable (high low : BitVec 32) {c : Nat}

theorem shl_short (h0 : 0 < c) (hc : c < 32) :
    (high <<< c ||| low >>> (32 - c)) ++ low <<< c = (high ++ low) <<< c := by
  apply BitVec.eq_of_getLsbD_eq
  intro i hi
  simp only [BitVec.getLsbD_append, BitVec.getLsbD_shiftLeft, BitVec.getLsbD_or,
    BitVec.getLsbD_ushiftRight]
  grind

theorem shr_short (h0 : 0 < c) (hc : c < 32) :
    high >>> c ++ (low >>> c ||| high <<< (32 - c)) = (high ++ low) >>> c := by
  apply BitVec.eq_of_getLsbD_eq
  intro i hi
  simp only [BitVec.getLsbD_append, BitVec.getLsbD_shiftLeft, BitVec.getLsbD_or,
    BitVec.getLsbD_ushiftRight]
  grind

theorem sar_short (h0 : 0 < c) (hc : c < 32) :
    high.sshiftRight c ++ (low >>> c ||| high <<< (32 - c)) = (high ++ low).sshiftRight c := by
  apply BitVec.eq_of_getLsbD_eq
  intro i hi
  simp only [BitVec.getLsbD_append, BitVec.getLsbD_shiftLeft, BitVec.getLsbD_or,
    BitVec.getLsbD_ushiftRight, BitVec.getLsbD_sshiftRight, BitVec.msb_append]
  grind

theorem shl_long (h32 : 32 ≤ c) : low <<< (c - 32) ++ 0#32 = (high ++ low) <<< c := by
  apply BitVec.eq_of_getLsbD_eq
  intro i hi
  simp only [BitVec.getLsbD_append, BitVec.getLsbD_shiftLeft, BitVec.getLsbD_zero]
  grind

theorem shr_long (h32 : 32 ≤ c) : 0#32 ++ high >>> (c - 32) = (high ++ low) >>> c := by
  apply BitVec.eq_of_getLsbD_eq
  intro i hi
  simp only [BitVec.getLsbD_append, BitVec.getLsbD_ushiftRight, BitVec.getLsbD_zero]
  grind

theorem sar_long (h32 : 32 ≤ c) :
    high.sshiftRight 31 ++ high.sshiftRight (c - 32) = (high ++ low).sshiftRight c := by
  apply BitVec.eq_of_getLsbD_eq
  intro i hi
  simp only [BitVec.getLsbD_append, BitVec.getLsbD_sshiftRight, BitVec.msb_eq_getLsbD_last]
  grind

end Halves

/-! ### The result -/

section Shift

variable {H : Host (BitVec 32) W} {K : Config} {s : GenState} {ret arg1 : TCGArg}

/-- The ops added leave the 64-bit shift in `ret` and keep every other temp in use. -/
def ShiftsPair (H : Host (BitVec 32) W) (K : Config) (s s' : GenState) (ret arg1 : TCGArg) (c : Nat)
    (right arith : Bool) : Prop :=
  ∃ T, Kept s s' ∧ Emits H K s s' T ∧ ∀ w temps,
    val64 (T w temps) ret = shift64 right arith (val64 temps arg1) c ∧
      ∀ t, s.InUse t → t ≠ tcgvLow ret → t ≠ tcgvHigh ret → T w temps t = temps t

theorem ShiftsPair.of_lowHigh {s' : GenState} {c : Nat} {right arith : Bool}
    {vl vh : (Nat → BitVec 32) → BitVec 32}
    (h : ∃ T, AssignsTwo H K s s' (tcgvLow ret) vl (tcgvHigh ret) vh T)
    (hv : ∀ temps, vh temps ++ vl temps = shift64 right arith (val64 temps arg1) c) :
    ShiftsPair H K s s' ret arg1 c right arith := by
  obtain ⟨T, h⟩ := h
  refine ⟨T, h.toKept, h.emits, fun w temps => ⟨?_, h.frame w temps⟩⟩
  rw [val64, h.valueFst, h.valueSnd, hv]

theorem ShiftsPair.of_highLow {s' : GenState} {c : Nat} {right arith : Bool}
    {vl vh : (Nat → BitVec 32) → BitVec 32}
    (h : ∃ T, AssignsTwo H K s s' (tcgvHigh ret) vh (tcgvLow ret) vl T)
    (hv : ∀ temps, vh temps ++ vl temps = shift64 right arith (val64 temps arg1) c) :
    ShiftsPair H K s s' ret arg1 c right arith := by
  obtain ⟨T, h⟩ := h
  refine ⟨T, h.toKept, h.emits, fun w temps => ⟨?_, fun t ht hl hh => h.frame w temps t ht hh hl⟩⟩
  rw [val64, h.valueFst, h.valueSnd, hv]

/-- The ops between the two temps' taking and giving back. -/
theorem tcgGenShiftParts_ends (hs : s.Wf) {t0 t1 : TCGArg} (hret : s.InUse (tcgvLow ret))
    (hret' : s.InUse (tcgvHigh ret)) (harg : s.InUse (tcgvLow arg1))
    (harg' : s.InUse (tcgvHigh arg1)) (h0 : s.InUse t0) (h1 : s.InUse t1) (h01 : t0 ≠ t1)
    (hne0 : ∀ t ∈ [ret, ret + 1, arg1, arg1 + 1], t ≠ t0)
    (hne1 : ∀ t ∈ [ret, ret + 1, arg1, arg1 + 1], t ≠ t1) {c : Nat} (hc : 0 < c ∧ c < 32)
    (right arith : Bool) :
    (tcgGenShiftParts ret arg1 c right arith t0 t1).Ends s 1 (fun _ s' =>
      ∃ T, Kept s s' ∧ Emits H K s s' T ∧ ∀ w temps,
        val64 (T w temps) ret = shift64 right arith (val64 temps arg1) c ∧
          ∀ t, s.InUse t → t ≠ tcgvLow ret → t ≠ tcgvHigh ret → t ≠ t0 → t ≠ t1 →
            T w temps t = temps t) := by
  -- to the right and to the left, the words change their roles
  cases right with
  | true =>
    obtain ⟨opc, f, hf, heq, hval⟩ : ∃ opc f, IsShift H opc f ∧
        (if arith then tcgGenSariI32 else tcgGenShriI32) = tcgGenShiftiI32 opc ∧
        ∀ hi lo : BitVec 32, f hi c ++ (lo >>> c ||| hi <<< (32 - c)) =
          shift64 true arith (hi ++ lo) c := by
      cases arith with
      | true => exact ⟨_, _, isShift_sarI32 H, rfl, fun hi lo => sar_short hi lo hc.1 hc.2⟩
      | false => exact ⟨_, _, isShift_shrI32 H, rfl, fun hi lo => shr_short hi lo hc.1 hc.2⟩
    have hparts := parts_ends (K := K) (isShift_shlI32 H) hf (isShift_shrI32 H) hs hc hret harg'
      harg h0 h1 (Nat.ne_of_lt (Nat.lt_succ_self ret)) h01 (hne0 ret (by simp)) (hne1 ret (by simp))
      (hne0 (arg1 + 1) (by simp)) (hne0 arg1 (by simp)) (hne1 arg1 (by simp))
    simp only [tcgGenShiftParts, if_true, heq]
    refine ⟨fun u s' h => ?_, hparts.2⟩
    obtain ⟨T, hkept, hemits, hT⟩ := hparts.1 u s' h
    refine ⟨T, hkept, hemits, fun w temps => ?_⟩
    obtain ⟨hlow, hhigh, hframe⟩ := hT w temps
    exact ⟨by rw [val64, hlow, hhigh, hval]; rfl, hframe⟩
  | false =>
    have hparts := parts_ends (K := K) (isShift_shrI32 H) (isShift_shlI32 H) (isShift_shlI32 H) hs
      hc hret' harg harg' h0 h1 (Nat.ne_of_gt (Nat.lt_succ_self ret)) h01 (hne0 (ret + 1) (by simp))
      (hne1 (ret + 1) (by simp)) (hne0 arg1 (by simp)) (hne0 (arg1 + 1) (by simp))
      (hne1 (arg1 + 1) (by simp))
    refine ⟨fun u s' h => ?_, hparts.2⟩
    obtain ⟨T, hkept, hemits, hT⟩ := hparts.1 u s' h
    refine ⟨T, hkept, hemits, fun w temps => ?_⟩
    obtain ⟨hhigh, hlow, hframe⟩ := hT w temps
    refine ⟨?_, fun t ht hl hh => hframe t ht hh hl⟩
    rw [val64, hlow, hhigh, shl_short _ _ hc.1 hc.2]
    rfl

/-- Counts below 32: two temps are taken, and given back in the same order. -/
theorem tcgGenShiftiI64_short (hs : s.Wf) (hret : s.InUse (tcgvLow ret))
    (hret' : s.InUse (tcgvHigh ret)) (harg : s.InUse (tcgvLow arg1))
    (harg' : s.InUse (tcgvHigh arg1)) {c : Nat} (hc : 0 < c ∧ c < 32) (right arith : Bool) :
    (tcgGenShiftiI64 ret arg1 c right arith).Ends s 3
      (fun _ s' => ShiftsPair H K s s' ret arg1 c right arith) := by
  have hall : ∀ t ∈ [ret, ret + 1, arg1, arg1 + 1], s.InUse t := by
    simpa using ⟨hret, hret', harg, harg'⟩
  unfold tcgGenShiftiI64
  rw [if_neg (Nat.pos_iff_ne_zero.mp hc.1), if_neg (Nat.not_le.mpr hc.2)]
  -- two temporaries are taken and given back
  refine Gen.Ends.bind (m := 2) ⟨(tcgTempNewI32_ends hs).1, fun hn =>
    (tcgTempNewI32_ends hs).2 (by omega)⟩ (fun t0 s₁ h₁ => ?_) (fun _ s₁ h₁ hn => ?_)
  · refine Gen.Ends.bind (m := 1) ⟨(tcgTempNewI32_ends h₁.wf).1, fun hn =>
      (tcgTempNewI32_ends h₁.wf).2 (by omega)⟩ (fun t1 s₂ h₂ => ?_) (fun _ s₂ h₂ hn => ?_)
    · have up : ∀ t, s.InUse t → s₂.InUse t := fun t ht =>
        (h₂.inUse t).mpr (Or.inl ((h₁.inUse t).mpr (Or.inl ht)))
      have use0 : s₁.InUse t0 := (h₁.inUse t0).mpr (Or.inr rfl)
      have hne1 : ∀ t, s.InUse t → t ≠ t1 := fun t ht => h₂.ne ((h₁.inUse t).mpr (Or.inl ht))
      refine (tcgGenShiftParts_ends (H := H) (K := K) h₂.wf (up _ hret) (up _ hret') (up _ harg)
        (up _ harg') ((h₂.inUse t0).mpr (Or.inl use0)) ((h₂.inUse t1).mpr (Or.inr rfl)) (h₂.ne use0)
        (fun t ht => h₁.ne (hall t ht)) (fun t ht => hne1 t (hall t ht)) hc right arith).bind
        (m := 0) ?_ (fun _ _ _ _ => Nat.zero_le _)
      rintro - s₃ ⟨T, h₃, hemits, hT⟩
      have glob₃ : s₃.nbGlobals = s.nbGlobals := by rw [h₃.globals, h₂.globals, h₁.globals]
      have use₃ : ∀ t, s₃.InUse t ↔ (s.InUse t ∨ t = t0) ∨ t = t1 := by
        intro t
        rw [h₃.inUse, h₂.inUse, h₁.inUse]
      refine (tcgTempFreeI32_ends h₃.wf ((use₃ t0).mpr (Or.inl (Or.inr rfl)))
        (glob₃ ▸ h₁.notGlobal) 0).bind (m := 0) ?_ (fun _ _ _ _ => Nat.zero_le _)
      intro _ s₄ h₄
      have use₄ : s₄.InUse t1 :=
        (h₄.inUse t1).mpr ⟨(use₃ t1).mpr (Or.inr rfl), (h₂.ne use0).symm⟩
      have glob₄ : s₄.nbGlobals = s₁.nbGlobals := by rw [h₄.globals, h₃.globals, h₂.globals]
      obtain ⟨hlast, hsome⟩ := tcgTempFreeI32_ends h₄.wf use₄ (glob₄ ▸ h₂.notGlobal) 0
      refine ⟨fun u s₅ h => ?_, hsome⟩
      have h₅ := hlast u s₅ h
      refine ⟨T, ⟨h₅.wf, ?_, ?_, fun t => ?_⟩, ?_, fun w temps => ?_⟩
      · rw [h₅.globals, h₄.globals, glob₃]
      · have hroom₁ := h₁.room
        have hroom₂ := h₂.room
        rw [h₅.room, h₄.room, h₃.room]
        omega
      · rw [h₅.inUse, h₄.inUse, use₃]
        constructor
        · rintro ⟨⟨(ht | ht) | ht, hne0⟩, hne1⟩
          · exact ht
          · exact absurd ht hne0
          · exact absurd ht hne1
        · exact fun ht => ⟨⟨Or.inl (Or.inl ht), h₁.ne ht⟩, hne1 t ht⟩
      · have hcode₂ : s₂.code = s.code := h₂.code.trans h₁.code
        have hcode₅ : s₅.code = s₃.code := h₅.code.trans h₄.code
        exact ((Emits.refl hcode₂).trans hemits).trans (Emits.refl hcode₅)
      · obtain ⟨hval, hframe⟩ := hT w temps
        exact ⟨hval, fun t ht hl hh => hframe t (up t ht) hl hh (h₁.ne ht) (hne1 t ht)⟩
    · have hroom := h₂.room
      omega
  · have hroom := h₁.room
    omega

/-- All shifts by less than 64, with room for three temps. -/
theorem tcgGenShiftiI64_ends (hs : s.Wf) (hret : s.InUse (tcgvLow ret))
    (hret' : s.InUse (tcgvHigh ret)) (harg : s.InUse (tcgvLow arg1))
    (harg' : s.InUse (tcgvHigh arg1)) (halias : tcgvLow ret ≠ tcgvHigh arg1) {c : Nat} (hc : c < 64)
    (right arith : Bool) :
    (tcgGenShiftiI64 ret arg1 c right arith).Ends s 3
      (fun _ s' => ShiftsPair H K s s' ret arg1 c right arith) := by
  have hne : tcgvLow ret ≠ tcgvHigh ret := Nat.ne_of_lt (Nat.lt_succ_self ret)
  -- a shift needs one temp, which three leave room for
  have weaken : ∀ {g : Gen Unit} {Q : Unit → GenState → Prop}, g.Ends s 1 Q → g.Ends s 3 Q :=
    fun h => ⟨h.1, fun hn => h.2 (by omega)⟩
  obtain hzero | hshort | hlong : c = 0 ∨ (0 < c ∧ c < 32) ∨ 32 ≤ c := by omega
  · subst hzero
    have htwo := two_ends (K := K) (tcgGenMovI32_ends (H := H) hs (tcgvLow ret) (tcgvLow arg1) 3)
      (fun s' hs' _ => tcgGenMovI32_ends hs' (tcgvHigh ret) (tcgvHigh arg1) 3) hne hret
      (fun temps temps' hT => hT _ harg' halias.symm)
    refine ⟨fun u s' h => ShiftsPair.of_lowHigh (htwo.1 u s' h) fun temps => ?_, htwo.2⟩
    cases right <;> cases arith <;> simp [shift64, val64]
  · exact tcgGenShiftiI64_short hs hret hret' harg harg' hshort right arith
  · unfold tcgGenShiftiI64
    rw [if_neg (by omega), if_pos hlong]
    have hc' : c - 32 < 32 := by omega
    cases right with
    | true =>
      cases arith with
      | true =>
        have htwo := two_ends (K := K) (b := tcgvHigh ret)
          (tcgGenShiftiI32_ends (tcgvLow ret) (isShift_sarI32 H) hs harg' hc')
          (fun s' hs' huse => tcgGenShiftiI32_ends _ (isShift_sarI32 H) hs'
            ((huse (tcgvHigh arg1)).mpr harg') (v := 31) (by decide)) hne hret
          (fun temps temps' hT => by rw [hT _ harg' halias.symm])
        refine weaken ⟨fun u s' h => ShiftsPair.of_lowHigh (htwo.1 u s' h) fun temps => ?_, htwo.2⟩
        exact sar_long _ _ hlong
      | false =>
        have htwo := two_ends (K := K) (b := tcgvHigh ret)
          (tcgGenShiftiI32_ends (tcgvLow ret) (isShift_shrI32 H) hs harg' hc')
          (fun s' hs' _ => ⟨fun u s'' h => ⟨_, (tcgGenMoviI32_ends hs' _ 0 1).1 u s'' h⟩,
            (tcgGenMoviI32_ends (H := H) (K := K) hs' _ 0 1).2⟩) hne hret (fun _ _ _ => rfl)
        refine weaken ⟨fun u s' h => ShiftsPair.of_lowHigh (htwo.1 u s' h) fun temps => ?_, htwo.2⟩
        exact shr_long _ _ hlong
    | false =>
      have htwo := two_ends (K := K) (b := tcgvLow ret)
        (tcgGenShiftiI32_ends (tcgvHigh ret) (isShift_shlI32 H) hs harg hc')
        (fun s' hs' _ => ⟨fun u s'' h => ⟨_, (tcgGenMoviI32_ends hs' _ 0 1).1 u s'' h⟩,
          (tcgGenMoviI32_ends (H := H) (K := K) hs' _ 0 1).2⟩) hne.symm hret' (fun _ _ _ => rfl)
      refine weaken ⟨fun u s' h => ShiftsPair.of_highLow (htwo.1 u s' h) fun temps => ?_, htwo.2⟩
      exact shl_long _ _ hlong

/-- **The emitted ops shift the pair.**  Wherever in a block they stand, running them leaves the
    64-bit shift of `arg1` in `ret`, and every other temp in use as it was.  Two 64-bit temps are
    the same or have no half in common, so the low half of the result is not the high half of the
    operand.  With room for three temps the generator does not abort. -/
theorem tcgGenShiftiI64_correct (H : Host (BitVec 32) W) (K : Config) (S : Temps) (hs : s.Wf)
    (hret : s.InUse (tcgvLow ret) ∧ s.InUse (tcgvHigh ret))
    (harg : s.InUse (tcgvLow arg1) ∧ s.InUse (tcgvHigh arg1))
    (halias : tcgvLow ret ≠ tcgvHigh arg1) (c : Nat) (hc : c < 64) (right arith : Bool) :
    (3 ≤ s.room → (tcgGenShiftiI64 ret arg1 c right arith s).isSome) ∧
    ∀ s', tcgGenShiftiI64 ret arg1 c right arith s = some ((), s') →
      ∃ ops, s'.code = s.code ++ ops ∧ ∀ before after temps w, ∃ temps',
        run (H.onI32.step K S (before ++ ops ++ after)) ops.length
            ⟨some before.length, temps, w⟩ =
          ([], ⟨some (before.length + ops.length), temps', w⟩) ∧
        val64 temps' ret = shift64 right arith (val64 temps arg1) c ∧
        ∀ t, s.InUse t → t ≠ tcgvLow ret → t ≠ tcgvHigh ret → temps' t = temps t := by
  obtain ⟨hall, hsome⟩ :=
    tcgGenShiftiI64_ends (H := H) (K := K) hs hret.1 hret.2 harg.1 harg.2 halias hc right arith
  refine ⟨hsome, fun s' h => ?_⟩
  obtain ⟨T, -, ⟨ops, hcode, hplain, hops⟩, hT⟩ := hall () s' h
  refine ⟨ops, hcode, fun before after temps w => ⟨T w temps, ?_, hT w temps⟩⟩
  rw [run_of_isPlain H.onI32 S hplain, hops]

end Shift

/-- A host whose other ops give zero. -/
def zeroHost : Host (BitVec 32) Unit where
  imm := fun _ => 0
  undef := fun w => (0, w)
  eval := fun _ _ _ _ _ => 0
  store := fun _ _ _ w => w
  access := fun _ _ _ _ w => .ret (fun _ => 0) none w
  cond := fun _ _ _ => false
  chained := fun _ _ => false
  pureCall := fun _ _ _ _ => 0
  constCall := fun _ w => (fun _ => 0, w)
  helper := fun _ _ w => .ret (fun _ => 0) none w

/-- One 64-bit temp, nothing emitted. -/
def onePair : GenState where
  nbGlobals := 0
  nbTemps := 2
  tempAllocated := fun t => t < 2
  freeTemps := []
  code := []

theorem onePair_wf : onePair.Wf := ⟨by decide, List.nodup_nil, by simp [onePair]⟩

/-- An arithmetic shift in place, the operand being the result. -/
theorem tcgGenShiftiI64_correct_inPlace :
    (3 ≤ onePair.room → (tcgGenShiftiI64 0 0 5 true true onePair).isSome) ∧
    ∀ s', tcgGenShiftiI64 0 0 5 true true onePair = some ((), s') →
      ∃ ops, s'.code = onePair.code ++ ops ∧ ∀ before after temps w, ∃ temps',
        run (zeroHost.onI32.step ⟨false, false⟩ ⟨0, []⟩ (before ++ ops ++ after)) ops.length
            ⟨some before.length, temps, w⟩ =
          ([], ⟨some (before.length + ops.length), temps', w⟩) ∧
        val64 temps' 0 = shift64 true true (val64 temps 0) 5 ∧
        ∀ t, onePair.InUse t → t ≠ tcgvLow 0 → t ≠ tcgvHigh 0 → temps' t = temps t :=
  tcgGenShiftiI64_correct zeroHost ⟨false, false⟩ ⟨0, []⟩ onePair_wf
    ⟨⟨by decide, by decide⟩, by decide, by decide⟩ ⟨⟨by decide, by decide⟩, by decide, by decide⟩
    (by decide) 5 (by decide) true true

end Qemu.Tcg
