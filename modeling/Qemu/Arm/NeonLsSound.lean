import Qemu.Arm.NeonLsElements
import Mathlib.Data.List.Perm.Subperm

namespace Qemu.Arm

open Lib

/-!
# Neon loads and stores

* `LsSound` — registers are there, bytes are touched once, registers are restored by a load after a
  store, and the base is not written back after a fault;
* `LsFits` — the encodings of which that holds;
* `neonLs_sound_iff` — they are exactly these.

Neither `disas_neon_ls_insn` nor `neon_vldst_all` compares the last register with 32, and the latter
reads the base from `env->regs`, where register 15 is not the address of the instruction.
-/

/-! ### The property -/

/-- The number of registers. -/
def lsNregs (insn : Word) : Nat :=
  if insn.getLsbD 23 = false then (neonLsElementType (insnBits insn 8 4)).nregs
  else insnBits insn 8 2 + 1

/-- How far the registers are apart. -/
def lsSpacing (insn : Word) : Nat :=
  if insn.getLsbD 23 = false then (neonLsElementType (insnBits insn 8 4)).spacing
  else if insnBits insn 10 2 = 3 then (if insn.getLsbD 5 then 2 else 1)
  else if insnBits insn 10 2 = 0 then 1
  else if insnBits insn 10 2 = 1 then (if insn.getLsbD 5 then 2 else 1)
  else (if insn.getLsbD 6 then 2 else 1)

/-- Where an element is in its half. -/
def lsShift (insn : Word) : Nat :=
  if insnBits insn 10 2 = 0 then insnBits insn 5 2 * 8
  else if insnBits insn 10 2 = 1 then insnBits insn 6 1 * 16
  else 0

/-- The bits of a register that are loaded or stored. -/
def lsMask (insn : Word) : BitVec 64 :=
  if insn.getLsbD 23 = false then BitVec.allOnes 64
  else elementMask (insnBits insn 10 2) (insnBits insn 7 1) (lsShift insn)

/-- The byte of memory that is accessed. -/
def LsEvent.addr? : LsEvent → Option Word
  | dreg _ => none
  | byte addr => some addr

/-- The bytes of memory that are touched. -/
def touched (es : List LsEvent) : List Word := es.filterMap LsEvent.addr?

/-- Consecutive bytes. -/
def lsBytes (base : Word) (n : Nat) : List Word :=
  (List.range n).map fun k => base + BitVec.ofNat 32 k

/-- The encoding with the bit for loads. -/
def withLoad (insn : Word) (load : Bool) : Word :=
  if load then insn ||| (1 : Word) <<< 21 else insn &&& ~~~((1 : Word) <<< 21)

/-- **What an encoding does**, in every state and with any faults. -/
structure LsSound (c : LsContext) (insn : Word) : Prop where
  index : ∀ faults prog s i, disasNeonLsInsn c faults insn = some prog →
    LsEvent.dreg i ∈ (prog s).events → i < 32
  once : insn.getLsbD 23 = false → ∀ faults prog s, disasNeonLsInsn c faults insn = some prog →
    (touched (prog s).events).Subperm
        (lsBytes (loadRegVar c s.regs (insnReg insn 16)) (8 * lsNregs insn)) ∧
      ((prog s).result.isSome → (touched (prog s).events).Perm
        (lsBytes (loadRegVar c s.regs (insnReg insn 16)) (8 * lsNregs insn)))
  restore : ∀ faults faults' store load s s',
    disasNeonLsInsn c faults (withLoad insn false) = some store →
    disasNeonLsInsn c faults' (withLoad insn true) = some load →
    (store s).result.isSome → (load s').result.isSome →
    s'.mem = (store s).state.mem → s'.regs (insnReg insn 16) = s.regs (insnReg insn 16) →
    ∀ j < lsNregs insn,
      (load s').state.vfp (insnRd insn + lsSpacing insn * j) &&& lsMask insn =
        s.vfp (insnRd insn + lsSpacing insn * j) &&& lsMask insn
  writeBack : ∀ faults prog s, disasNeonLsInsn c faults insn = some prog →
    (prog s).result = none → (prog s).state.regs = s.regs

/-- The last register is there, and the base of multiple structures is not the program counter. -/
def LsFits (insn : Word) : Prop :=
  insnRd insn + lsSpacing insn * (lsNregs insn - 1) < 32 ∧
    (insn.getLsbD 23 = false → insnReg insn 16 ≠ 15)

/-! ### Core registers -/

/-- Core registers are kept, and without faults the program comes to its end. -/
structure LsPlain {α : Type} (faults : LsFaults) (m : Ls α) : Prop where
  keeps : Faulting.Keeps LsState.regs m
  completes : (∀ k, faults k = none) → Faulting.Completes m

section

variable {α β : Type} {faults : LsFaults} {m : Ls α} {k : α → Ls β}

theorem LsPlain.pure (a : α) : LsPlain faults (pure a : Ls α) := ⟨.pure a, fun _ => .pure a⟩

theorem LsPlain.get : LsPlain faults Faulting.get := ⟨.get, fun _ => .get⟩

theorem LsPlain.act {es : List LsEvent} {f : LsState → LsState} (h : ∀ s, (f s).regs = s.regs) :
    LsPlain faults (Faulting.act es f) :=
  ⟨.act h, fun _ => .act⟩

theorem LsPlain.bind (hm : LsPlain faults m) (hk : ∀ a, LsPlain faults (k a)) :
    LsPlain faults (m >>= k) :=
  ⟨hm.keeps.bind fun a => (hk a).keeps,
    fun h => (hm.completes h).bind fun a => (hk a).completes h⟩

theorem lsAccess_plain (faults : LsFaults) (addr : Word) (len : Nat)
    (f : (Word → BitVec 8) → Word → BitVec 8) : LsPlain faults (lsAccess faults addr len f) := by
  constructor
  · intro s
    rw [lsAccess_eq]
    cases faults s.accesses with
    | none => rfl
    | some left => rfl
  · intro h s
    rw [lsAccess_eq, h]
    rfl

theorem ldBytes_plain (faults : LsFaults) (len : Nat) (addr : Word) :
    LsPlain faults (ldBytes faults len addr) :=
  (lsAccess_plain faults addr len id).bind fun _ => LsPlain.get.bind fun _ => .pure _

theorem readDreg_plain (faults : LsFaults) (rd : Nat) : LsPlain faults (readDreg rd) :=
  (LsPlain.act fun _ => rfl).bind fun _ => LsPlain.get.bind fun _ => .pure _

theorem ldElements_plain (faults : LsFaults) (size : Nat) (stride : Word) (n i : Nat) (addr : Word)
    (tmp64 : BitVec 64) : LsPlain faults (ldElements faults size stride n i addr tmp64) := by
  induction n generalizing i addr tmp64 with
  | zero => exact .pure _
  | succ n ih => exact (ldBytes_plain faults _ addr).bind fun _ => ih _ _ _

theorem stElements_plain (faults : LsFaults) (size : Nat) (stride : Word) (n : Nat) (addr : Word)
    (tmp64 : BitVec 64) : LsPlain faults (stElements faults size stride n addr tmp64) := by
  induction n generalizing addr tmp64 with
  | zero => exact .pure _
  | succ n ih => exact (lsAccess_plain faults addr _ _).bind fun _ => ih _ _

theorem vldstReg_plain (faults : LsFaults) (load : Bool) (size : Nat) (stride : Word) (rd : Nat)
    (addr : Word) : LsPlain faults (vldstReg faults load size stride rd addr) := by
  cases load with
  | true =>
    refine (ldElements_plain faults size stride _ 0 addr 0).bind fun r => ?_
    obtain ⟨addr', tmp64⟩ := r
    exact LsPlain.bind (.act fun _ => rfl) fun _ => .pure _
  | false => exact (readDreg_plain faults rd).bind fun _ => stElements_plain ..

theorem vldstRegs_plain (faults : LsFaults) (t : NeonLsElementType) (load : Bool) (size : Nat)
    (rn : Fin 16) (n reg rd : Nat) (addr : Word) :
    LsPlain faults (vldstRegs faults t load size rn n reg rd addr) := by
  induction n generalizing reg rd addr with
  | zero => exact .pure _
  | succ n ih =>
    exact LsPlain.get.bind fun _ => (vldstReg_plain faults load size _ rd _).bind fun _ => ih _ _ _

theorem neonVldstAll_plain (faults : LsFaults) (insn : Word) :
    LsPlain faults (neonVldstAll faults insn) :=
  LsPlain.get.bind fun _ => vldstRegs_plain ..

theorem neonStoreReg_plain (faults : LsFaults) (rd pass : Nat) (var : Word) :
    LsPlain faults (neonStoreReg rd pass var) :=
  .act fun _ => rfl

theorem genLd_plain (faults : LsFaults) (size : Nat) (addr : Word) :
    LsPlain faults (genLd faults size addr) :=
  (ldBytes_plain faults _ addr).bind fun _ => .pure _

theorem neonLoadReg_plain (faults : LsFaults) (rd pass : Nat) :
    LsPlain faults (neonLoadReg rd pass) :=
  (readDreg_plain faults rd).bind fun _ => .pure _

theorem loadAllLanes_plain (faults : LsFaults) (size stride n rd : Nat) (addr : Word) :
    LsPlain faults (loadAllLanes faults size stride n rd addr) := by
  induction n generalizing rd addr with
  | zero => exact .pure _
  | succ n ih =>
    exact (genLd_plain faults size addr).bind fun _ =>
      (neonStoreReg_plain faults rd 0 _).bind fun _ =>
        (neonStoreReg_plain faults rd 1 _).bind fun _ => ih _ _

/-- One element of a register. -/
theorem singleElement_plain (faults : LsFaults) (load : Bool) (size pass shift rd : Nat)
    (addr : Word) : LsPlain faults (singleElement faults load size pass shift rd addr) := by
  cases load with
  | true =>
    refine (genLd_plain faults size addr).bind fun tmp => ?_
    by_cases hsize : size ≠ 2
    · rw [if_pos hsize]
      exact (neonLoadReg_plain faults rd pass).bind fun _ => neonStoreReg_plain ..
    · rw [if_neg hsize]
      exact neonStoreReg_plain ..
  | false => exact (neonLoadReg_plain faults rd pass).bind fun _ => lsAccess_plain ..

theorem singleElements_plain (faults : LsFaults) (load : Bool) (size pass shift stride n rd : Nat)
    (addr : Word) :
    LsPlain faults (singleElements faults load size pass shift stride n rd addr) := by
  induction n generalizing rd addr with
  | zero => exact .pure _
  | succ n ih =>
    exact (singleElement_plain faults load size pass shift rd addr).bind fun _ => ih _ _

/-! ### The translator -/

variable {c : LsContext} {insn : Word} {prog : Ls PUnit} {s : LsState}

theorem insnBits_one (insn : Word) (k : Nat) :
    insnBits insn k 1 = if insn.getLsbD k then 1 else 0 := by
  rw [insnBits, BitVec.getLsbD, Nat.testBit_eq_decide_div_mod_eq, BitVec.toNat_ushiftRight,
    Nat.shiftRight_eq_div_pow]
  rcases Nat.mod_two_eq_zero_or_one (insn.toNat / 2 ^ k) with h | h
  · simp [h]
  · simp [h]

theorem vfpDregD_some {rd : Nat} (h : vfpDregD c insn = some rd) : rd = insnRd insn := by
  unfold vfpDregD at h
  split_ifs at h with hvfp3 hbit
  · exact (Option.some.inj h).symm
  · rw [← Option.some.inj h, insnRd, insnBits_one, if_neg hbit, Nat.mul_zero, Nat.add_zero]

/-- The program of an instruction without its write-back. -/
def lsBody (c : LsContext) (faults : LsFaults) (insn : Word) : Ls PUnit :=
  if insn.getLsbD 23 = false then neonVldstAll faults insn
  else if insnBits insn 10 2 = 3 then do
    let s ← Faulting.get
    loadAllLanes faults (insnBits insn 6 2) (lsSpacing insn) (lsNregs insn) (insnRd insn)
      (loadRegVar c s.regs (insnReg insn 16))
  else do
    let s ← Faulting.get
    singleElements faults (insnLoad insn) (insnBits insn 10 2) (insnBits insn 7 1) (lsShift insn)
      (lsSpacing insn) (lsNregs insn) (insnRd insn) (loadRegVar c s.regs (insnReg insn 16))

/-- **The program that is generated.** -/
theorem disasNeonLsInsn_some (h : disasNeonLsInsn c faults insn = some prog) :
    (∃ stride, prog = do
      lsBody c faults insn
      lsWriteBack c (insnReg insn 16) (insnReg insn 0) stride) ∧
    (insn.getLsbD 23 = false → insnBits insn 8 4 ≤ 10) ∧
    (insn.getLsbD 23 = true → insnBits insn 10 2 = 3 → insnLoad insn = true) := by
  unfold disasNeonLsInsn at h
  cases hrd : vfpDregD c insn with
  | none =>
    rw [hrd] at h
    split_ifs at h
  | some rd =>
    obtain rfl := vfpDregD_some hrd
    rw [hrd] at h
    by_cases henabled : c.vfpEnabled = false
    · rw [if_pos henabled] at h
      cases h
    rw [if_neg henabled] at h
    dsimp only at h
    unfold lsBody
    -- multiple structures, one structure to all lanes, one structure to one lane
    by_cases hmultiple : insn.getLsbD 23 = false
    · rw [if_pos hmultiple] at h ⊢
      split_ifs at h with hop hsize
      exact ⟨⟨_, (Option.some.inj h).symm⟩, fun _ => by omega,
        fun hbit => absurd hmultiple (by rw [hbit]; decide)⟩
    · rw [if_neg hmultiple] at h ⊢
      have hnregs : lsNregs insn = insnBits insn 8 2 + 1 := if_neg hmultiple
      by_cases hall : insnBits insn 10 2 = 3
      · rw [if_pos hall] at h ⊢
        have hspacing : lsSpacing insn = if insn.getLsbD 5 then 2 else 1 := by
          rw [lsSpacing, if_neg hmultiple, if_pos hall]
        rw [hnregs, hspacing]
        by_cases hload : insnLoad insn = false
        · rw [if_pos hload] at h
          cases h
        by_cases hsize : insnBits insn 6 2 = 3
        · rw [if_neg hload, if_pos hsize] at h
          cases h
        rw [if_neg hload, if_neg hsize] at h
        exact ⟨⟨_, (Option.some.inj h).symm.trans (Faulting.get_bind_bind _ _).symm⟩,
          fun hbit => absurd hbit hmultiple, fun _ _ => by simpa using hload⟩
      · rw [if_neg hall] at h ⊢
        have hpair : (if insnBits insn 10 2 = 0 then (insnBits insn 5 2 * 8, 1)
            else if insnBits insn 10 2 = 1 then
              (insnBits insn 6 1 * 16, if insn.getLsbD 5 then 2 else 1)
            else (0, if insn.getLsbD 6 then 2 else 1)) = (lsShift insn, lsSpacing insn) := by
          rw [lsShift, lsSpacing, if_neg hmultiple, if_neg hall]
          split_ifs <;> rfl
        rw [hpair] at h
        rw [hnregs]
        exact ⟨⟨_, (Option.some.inj h).symm.trans (Faulting.get_bind_bind _ _).symm⟩,
          fun hbit => absurd hbit hmultiple, fun _ hbit => absurd hbit hall⟩

/-- What is seen of an instruction. -/
def lsEvents (c : LsContext) (insn : Word) (regs : Fin 16 → Word) : List LsEvent :=
  if insn.getLsbD 23 = false then
    planEvents (insnLoad insn) (regs (insnReg insn 16)) (insnRd insn) (lsSpacing insn)
      (lsPlan (insnBits insn 8 4) (insnBits insn 6 2))
  else if insnBits insn 10 2 = 3 then
    laneEvents (dupEvents (insnBits insn 6 2)) (insnBits insn 6 2) (lsSpacing insn) (lsNregs insn)
      (insnRd insn) (loadRegVar c regs (insnReg insn 16))
  else
    laneEvents (elementEvents (insnLoad insn) (insnBits insn 10 2)) (insnBits insn 10 2)
      (lsSpacing insn) (lsNregs insn) (insnRd insn) (loadRegVar c regs (insnReg insn 16))

theorem lsSpacing_pos (hop : insn.getLsbD 23 = false → insnBits insn 8 4 ≤ 10) :
    0 < lsSpacing insn := by
  have htable : ∀ op : Fin 11, 0 < (neonLsElementType op).spacing := by decide
  unfold lsSpacing
  split_ifs with hmultiple
  · exact htable ⟨insnBits insn 8 4, Nat.lt_succ_of_le (hop hmultiple)⟩
  all_goals decide

/-- The accesses of an instruction are those of its plan. -/
theorem lsBody_emits (faults : LsFaults) (insn : Word) (s : LsState) :
    Faulting.Emits (lsBody c faults insn) s (lsEvents c insn s.regs) fun _ _ => True := by
  unfold lsBody lsEvents
  by_cases hmultiple : insn.getLsbD 23 = false
  · rw [if_pos hmultiple, if_pos hmultiple, lsSpacing, if_pos hmultiple]
    exact (neonVldstAll_emits faults insn s).mono fun _ _ _ => trivial
  rw [if_neg hmultiple, if_neg hmultiple]
  have hspacing : 0 < lsSpacing insn := lsSpacing_pos fun h => absurd h hmultiple
  by_cases hall : insnBits insn 10 2 = 3
  · rw [if_pos hall, if_pos hall]
    exact Faulting.Emits.get_bind (loadAllLanes_emits ..)
  rw [if_neg hall, if_neg hall]
  refine Faulting.Emits.get_bind ?_
  cases insnLoad insn with
  | true => exact (singleElements_load faults _ _ _ hspacing _ _ _ s).mono fun _ _ _ => trivial
  | false => exact (singleElements_store faults _ _ _ _ _ _ _ s).mono fun _ _ _ => trivial

theorem lsBody_plain (c : LsContext) (faults : LsFaults) (insn : Word) :
    LsPlain faults (lsBody c faults insn) := by
  unfold lsBody
  split_ifs
  · exact neonVldstAll_plain faults insn
  · exact LsPlain.get.bind fun _ => loadAllLanes_plain ..
  · exact LsPlain.get.bind fun _ => singleElements_plain ..

theorem lsWriteBack_emits (c : LsContext) (rn rm : Fin 16) (stride : Nat) (s : LsState) :
    Faulting.Emits (lsWriteBack c rn rm stride) s [] fun _ _ => True := by
  unfold lsWriteBack
  split_ifs
  · exact Faulting.Emits.get_bind (Faulting.Emits.act trivial)
  · exact Faulting.Emits.get_bind (Faulting.Emits.act trivial)
  · exact Faulting.Emits.pure trivial

theorem lsWriteBack_completes (c : LsContext) (rn rm : Fin 16) (stride : Nat) :
    Faulting.Completes (lsWriteBack c rn rm stride) := by
  unfold lsWriteBack
  split_ifs
  · exact Faulting.Completes.get.bind fun _ => Faulting.Completes.act
  · exact Faulting.Completes.get.bind fun _ => Faulting.Completes.act
  · exact Faulting.Completes.pure _

theorem lsWriteBack_keeps (c : LsContext) (rn rm : Fin 16) (stride : Nat) :
    Faulting.Keeps (fun s => (s.vfp, s.mem)) (lsWriteBack c rn rm stride) := by
  unfold lsWriteBack
  split_ifs
  · exact Faulting.Keeps.get.bind fun _ => Faulting.Keeps.act fun _ => rfl
  · exact Faulting.Keeps.get.bind fun _ => Faulting.Keeps.act fun _ => rfl
  · exact Faulting.Keeps.pure _

/-- **What is seen**, up to a fault. -/
theorem disas_emits (h : disasNeonLsInsn c faults insn = some prog) (s : LsState) :
    Faulting.Emits prog s (lsEvents c insn s.regs) fun _ _ => True := by
  obtain ⟨⟨stride, rfl⟩, -⟩ := disasNeonLsInsn_some h
  exact (lsBody_emits faults insn s).bind_nil fun _ _ _ => lsWriteBack_emits ..

theorem disas_events (h : disasNeonLsInsn c (fun _ => none) insn = some prog) (s : LsState) :
    (prog s).events = lsEvents c insn s.regs := by
  have hemits := disas_emits h s
  obtain ⟨⟨stride, rfl⟩, -⟩ := disasNeonLsInsn_some h
  refine hemits.events_eq ?_
  exact ((lsBody_plain c _ insn).completes fun _ => rfl).bind fun _ =>
    lsWriteBack_completes _ _ _ _

/-- What the program leaves in registers and in memory if there is no fault. -/
theorem disas_result (h : disasNeonLsInsn c faults insn = some prog)
    (hres : (prog s).result.isSome = true) {es : List LsEvent} {Q : PUnit → LsState → Prop}
    (hbody : Faulting.Emits (lsBody c faults insn) s es Q) :
    ∃ s₁, Q ⟨⟩ s₁ ∧ (prog s).state.vfp = s₁.vfp ∧ (prog s).state.mem = s₁.mem := by
  obtain ⟨⟨stride, rfl⟩, -⟩ := disasNeonLsInsn_some h
  cases hfirst : (lsBody c faults insn s).result with
  | none =>
    rw [Faulting.bind_none hfirst] at hres
    cases hres
  | some a =>
    have hkept := lsWriteBack_keeps c (insnReg insn 16) (insnReg insn 0) stride
      (lsBody c faults insn s).state
    rw [Faulting.bind_some hfirst]
    exact ⟨_, (hbody.done a hfirst).2, congrArg Prod.fst hkept, congrArg Prod.snd hkept⟩

/-! ### Registers and bytes -/

theorem insnBits_lt (insn : Word) (lo len : Nat) : insnBits insn lo len < 2 ^ len :=
  Nat.mod_lt _ (Nat.two_pow_pos len)

/-- The plan of an instruction that is accepted. -/
theorem lsPlan_insn (hmultiple : insn.getLsbD 23 = false) (hop : insnBits insn 8 4 ≤ 10) :
    (lsPlan (insnBits insn 8 4) (insnBits insn 6 2)).map Prod.fst = List.range (lsNregs insn) ∧
      ((lsPlan (insnBits insn 8 4) (insnBits insn 6 2)).flatMap fun r => r.2.map Prod.snd).Perm
        (List.range (8 * lsNregs insn)) ∧
      ∀ r ∈ lsPlan (insnBits insn 8 4) (insnBits insn 6 2),
        (r.2.map Prod.fst).Perm (List.range 8) := by
  rw [lsNregs, if_pos hmultiple]
  exact lsPlan_covers ⟨insnBits insn 8 4, Nat.lt_succ_of_le hop⟩
    ⟨insnBits insn 6 2, insnBits_lt insn 6 2⟩

theorem mem_regEvents (load : Bool) (base : Word) (rd i : Nat) (bytes : List (Nat × Nat)) :
    LsEvent.dreg i ∈ regEvents load base rd bytes ↔ i = rd := by
  cases load <;> simp [regEvents]

/-- The registers that are seen. -/
theorem mem_lsEvents (hop : insn.getLsbD 23 = false → insnBits insn 8 4 ≤ 10)
    (regs : Fin 16 → Word) (i : Nat) :
    LsEvent.dreg i ∈ lsEvents c insn regs ↔
      ∃ j < lsNregs insn, i = insnRd insn + lsSpacing insn * j := by
  unfold lsEvents
  by_cases hmultiple : insn.getLsbD 23 = false
  · obtain ⟨hregs, -, -⟩ := lsPlan_insn hmultiple (hop hmultiple)
    rw [if_pos hmultiple, planEvents, List.mem_flatMap]
    constructor
    · rintro ⟨r, hr, hi⟩
      refine ⟨r.1, ?_, (mem_regEvents ..).mp hi⟩
      rw [← List.mem_range, ← hregs]
      exact List.mem_map.mpr ⟨r, hr, rfl⟩
    · rintro ⟨j, hj, rfl⟩
      rw [← List.mem_range, ← hregs] at hj
      obtain ⟨r, hr, rfl⟩ := List.mem_map.mp hj
      exact ⟨r, hr, (mem_regEvents ..).mpr rfl⟩
  have hbytes : ∀ addr len, LsEvent.dreg i ∉ byteEvents addr len := by
    intro addr len hmem
    obtain ⟨k, -, hk⟩ := List.mem_map.mp hmem
    cases hk
  rw [if_neg hmultiple]
  split_ifs
  · exact mem_laneEvents _ _ (fun rd addr i => by simp [dupEvents, byteEvents]) i _ _ _
  · refine mem_laneEvents _ _ (fun rd addr i => ?_) i _ _ _
    cases insnLoad insn with
    | true =>
      simp only [elementEvents, byteEvents]
      split_ifs <;> simp
    | false => simp [elementEvents, byteEvents]

/-- The bytes that a part of the plan is about. -/
theorem touched_regEvents (load : Bool) (base : Word) (rd : Nat) (bytes : List (Nat × Nat)) :
    touched (regEvents load base rd bytes) = bytes.map fun p => base + BitVec.ofNat 32 p.2 := by
  have hbytes : (bytes.map fun p => LsEvent.byte (base + BitVec.ofNat 32 p.2)).filterMap
      LsEvent.addr? = bytes.map fun p => base + BitVec.ofNat 32 p.2 := by
    rw [List.filterMap_map]
    exact congrFun (List.filterMap_eq_map' ..) _
  cases load with
  | true =>
    rw [regEvents, if_pos rfl, touched, List.filterMap_append, hbytes]
    exact List.append_nil _
  | false =>
    rw [regEvents, if_neg Bool.false_ne_true]
    exact hbytes

/-- The bytes that are seen, of multiple structures. -/
theorem touched_lsEvents (hmultiple : insn.getLsbD 23 = false) (hop : insnBits insn 8 4 ≤ 10)
    (regs : Fin 16 → Word) :
    (touched (lsEvents c insn regs)).Perm
      (lsBytes (regs (insnReg insn 16)) (8 * lsNregs insn)) := by
  obtain ⟨-, hbytes, -⟩ := lsPlan_insn hmultiple hop
  have htouched : touched (lsEvents c insn regs) =
      ((lsPlan (insnBits insn 8 4) (insnBits insn 6 2)).flatMap fun r => r.2.map Prod.snd).map
        fun o => regs (insnReg insn 16) + BitVec.ofNat 32 o := by
    rw [lsEvents, if_pos hmultiple, planEvents, touched, List.filterMap_flatMap, List.map_flatMap]
    refine congrArg (List.flatMap · _) (funext fun r => ?_)
    rw [List.map_map]
    exact touched_regEvents ..
  rw [htouched]
  exact hbytes.map _

/-! ### The encodings of a load and a store -/

/-- The bits of the instruction that do not tell a load from a store. -/
theorem getLsbD_withLoad (insn : Word) (load : Bool) {k : Nat} (hk : k < 32) (h : k ≠ 21) :
    (withLoad insn load).getLsbD k = insn.getLsbD k := by
  have hbit : ((1 : Word) <<< 21).getLsbD k = false := by
    show (BitVec.twoPow 32 21).getLsbD k = false
    rw [BitVec.getLsbD_twoPow]
    simp [h.symm]
  cases load with
  | true =>
    rw [withLoad, if_pos rfl, BitVec.getLsbD_or, hbit, Bool.or_false]
  | false =>
    rw [withLoad, if_neg Bool.false_ne_true, BitVec.getLsbD_and, BitVec.getLsbD_not, hbit]
    simp [hk]

theorem insnLoad_withLoad (insn : Word) (load : Bool) : insnLoad (withLoad insn load) = load := by
  have hbit : ((1 : Word) <<< 21).getLsbD 21 = true := by decide
  cases load with
  | true =>
    rw [insnLoad, withLoad, if_pos rfl, BitVec.getLsbD_or, hbit, Bool.or_true]
  | false =>
    rw [insnLoad, withLoad, if_neg Bool.false_ne_true, BitVec.getLsbD_and, BitVec.getLsbD_not, hbit]
    simp

/-- Fields that do not have the bit. -/
theorem insnBits_withLoad (insn : Word) (load : Bool) {lo len : Nat} (hlen : lo + len ≤ 32)
    (h : 21 < lo ∨ lo + len ≤ 21) :
    insnBits (withLoad insn load) lo len = insnBits insn lo len := by
  apply Nat.eq_of_testBit_eq
  intro i
  rw [insnBits, insnBits, Nat.testBit_mod_two_pow, Nat.testBit_mod_two_pow, BitVec.testBit_toNat,
    BitVec.testBit_toNat, BitVec.getLsbD_ushiftRight, BitVec.getLsbD_ushiftRight]
  by_cases hi : i < len
  · rw [getLsbD_withLoad insn load (by omega) (by omega)]
  · rw [decide_eq_false hi, Bool.false_and, Bool.false_and]

/-- Encodings that differ in nothing but whether they load or store. -/
structure LsAgree (insn insn' : Word) : Prop where
  multiple : insn'.getLsbD 23 = insn.getLsbD 23
  rn : insnReg insn' 16 = insnReg insn 16
  rd : insnRd insn' = insnRd insn
  op : insnBits insn' 8 4 = insnBits insn 8 4
  size : insnBits insn' 6 2 = insnBits insn 6 2
  elementSize : insnBits insn' 10 2 = insnBits insn 10 2
  pass : insnBits insn' 7 1 = insnBits insn 7 1
  nregs : lsNregs insn' = lsNregs insn
  spacing : lsSpacing insn' = lsSpacing insn
  shift : lsShift insn' = lsShift insn

/-- A load and a store of the same form have the same plan. -/
theorem withLoad_agree (insn : Word) (load : Bool) : LsAgree insn (withLoad insn load) := by
  have hbits : ∀ lo len, lo + len ≤ 21 →
      insnBits (withLoad insn load) lo len = insnBits insn lo len :=
    fun lo len h => insnBits_withLoad insn load (by omega) (.inr h)
  have hbit : ∀ k, k < 32 → k ≠ 21 → (withLoad insn load).getLsbD k = insn.getLsbD k :=
    fun k => getLsbD_withLoad insn load
  constructor
  case multiple => exact hbit 23 (by decide) (by decide)
  case rn => rw [insnReg, insnReg, hbits 16 4 (by decide)]
  case rd =>
    rw [insnRd, insnRd, hbits 12 4 (by decide), insnBits_withLoad insn load (by decide) (by decide)]
  case op => exact hbits 8 4 (by decide)
  case size => exact hbits 6 2 (by decide)
  case elementSize => exact hbits 10 2 (by decide)
  case pass => exact hbits 7 1 (by decide)
  case nregs =>
    rw [lsNregs, lsNregs, hbit 23 (by decide) (by decide), hbits 8 4 (by decide),
      hbits 8 2 (by decide)]
  case spacing =>
    rw [lsSpacing, lsSpacing, hbit 23 (by decide) (by decide), hbits 8 4 (by decide),
      hbits 10 2 (by decide), hbit 5 (by decide) (by decide), hbit 6 (by decide) (by decide)]
  case shift =>
    rw [lsShift, lsShift, hbits 10 2 (by decide), hbits 5 2 (by decide), hbits 6 1 (by decide)]

/-- Multiple structures. -/
theorem lsBody_moves (hmultiple : insn.getLsbD 23 = false) (load : Bool) (s : LsState) :
    Faulting.Emits (lsBody c faults (withLoad insn load)) s
      (lsEvents c (withLoad insn load) s.regs)
      fun _ s' => LsMoves load (s.regs (insnReg insn 16)) (insnRd insn) (lsSpacing insn)
        (lsPlan (insnBits insn 8 4) (insnBits insn 6 2)) s s' := by
  have hagree := withLoad_agree insn load
  have hbit := hagree.multiple.trans hmultiple
  have hemits := neonVldstAll_emits faults (withLoad insn load) s
  rw [lsBody, if_pos hbit, lsEvents, if_pos hbit]
  rw [insnLoad_withLoad, hagree.rn, hagree.rd, hagree.op, hagree.size] at *
  rw [hagree.spacing, lsSpacing, if_pos hmultiple]
  exact hemits

/-- Elements that are loaded. -/
theorem lsBody_loads (hsingle : ¬insn.getLsbD 23 = false) (hsize : insnBits insn 10 2 ≠ 3)
    (s : LsState) :
    Faulting.Emits (lsBody c faults (withLoad insn true)) s (lsEvents c (withLoad insn true) s.regs)
      fun _ s' => LsLoaded (elementLoaded (insnBits insn 10 2) (insnBits insn 7 1) (lsShift insn))
        (insnBits insn 10 2) (lsSpacing insn) (lsNregs insn) (insnRd insn)
        (loadRegVar c s.regs (insnReg insn 16)) s s' := by
  have hagree := withLoad_agree insn true
  have hspacing : 0 < lsSpacing insn := lsSpacing_pos fun h => absurd h hsingle
  rw [lsBody, lsEvents, hagree.multiple, if_neg hsingle, if_neg hsingle, hagree.elementSize,
    if_neg hsize, if_neg hsize, insnLoad_withLoad, hagree.rn, hagree.rd, hagree.nregs, hagree.pass,
    hagree.spacing, hagree.shift]
  exact Faulting.Emits.get_bind (singleElements_load faults _ _ _ hspacing _ _ _ s)

/-- Elements that are stored. -/
theorem lsBody_stores (hsingle : ¬insn.getLsbD 23 = false) (hsize : insnBits insn 10 2 ≠ 3)
    (s : LsState) :
    Faulting.Emits (lsBody c faults (withLoad insn false)) s
      (lsEvents c (withLoad insn false) s.regs)
      fun _ s' => s.After s.vfp (writeAll (elementWrites
        (fun rd => elementStored (insnBits insn 7 1) (lsShift insn) (s.vfp rd)) (insnBits insn 10 2)
          (lsSpacing insn) (lsNregs insn) (insnRd insn) (loadRegVar c s.regs (insnReg insn 16)))
            s.mem) s' := by
  have hagree := withLoad_agree insn false
  rw [lsBody, lsEvents, hagree.multiple, if_neg hsingle, if_neg hsingle, hagree.elementSize,
    if_neg hsize, if_neg hsize, insnLoad_withLoad, hagree.rn, hagree.rd, hagree.nregs, hagree.pass,
    hagree.spacing, hagree.shift]
  exact Faulting.Emits.get_bind (singleElements_store faults _ _ _ _ _ _ _ s)

theorem lsLane_insn (hsize : insnBits insn 10 2 ≠ 3) :
    LsLane (insnBits insn 10 2) (insnBits insn 7 1) (lsShift insn) := by
  have hlt := insnBits_lt insn 10 2
  have hlt5 := insnBits_lt insn 5 2
  have hlt6 := insnBits_lt insn 6 1
  refine ⟨by omega, insnBits_lt insn 7 1, ?_⟩
  unfold lsShift
  split_ifs with hbyte hhalf
  · rw [hbyte]
    omega
  · rw [hhalf]
    omega
  · rw [show insnBits insn 10 2 = 2 by omega]
    omega

theorem loadRegVar_congr {regs regs' : Fin 16 → Word} {reg : Fin 16} (h : regs' reg = regs reg) :
    loadRegVar c regs' reg = loadRegVar c regs reg := by
  rw [loadRegVar, loadRegVar, h]

/-- **Registers are restored**, for all encodings. -/
theorem ls_restore {faults' : LsFaults} {store load : Ls PUnit} {s' : LsState}
    (hstore : disasNeonLsInsn c faults (withLoad insn false) = some store)
    (hload : disasNeonLsInsn c faults' (withLoad insn true) = some load)
    (hdone : (store s).result.isSome = true) (hdone' : (load s').result.isSome = true)
    (hmem : s'.mem = (store s).state.mem)
    (hrn : s'.regs (insnReg insn 16) = s.regs (insnReg insn 16)) {j : Nat}
    (hj : j < lsNregs insn) :
    (load s').state.vfp (insnRd insn + lsSpacing insn * j) &&& lsMask insn =
      s.vfp (insnRd insn + lsSpacing insn * j) &&& lsMask insn := by
  have hagree := withLoad_agree insn false
  obtain ⟨-, hop, hall⟩ := disasNeonLsInsn_some hstore
  rw [hagree.multiple] at hop hall
  rw [hagree.op] at hop
  -- the load meets the bytes the store has left, because both follow the same plan
  by_cases hmultiple : insn.getLsbD 23 = false
  · have hop := hop hmultiple
    obtain ⟨hregs, hbytes, hwhole⟩ := lsPlan_insn hmultiple hop
    obtain ⟨s₁, hmoves, -, hmem₁⟩ := disas_result hstore hdone (lsBody_moves hmultiple false s)
    obtain ⟨s₂, hmoves', hvfp₂, -⟩ := disas_result hload hdone' (lsBody_moves hmultiple true s')
    rw [hrn] at hmoves'
    have hnregs : ∀ op : Fin 11, (neonLsElementType op).nregs ≤ 4 := by decide
    have hfew : lsNregs insn ≤ 4 := by
      rw [lsNregs, if_pos hmultiple]
      exact hnregs ⟨insnBits insn 8 4, Nat.lt_succ_of_le hop⟩
    rw [← List.mem_range, ← hregs] at hj
    obtain ⟨r, hr, rfl⟩ := List.mem_map.mp hj
    have hreg := hmoves.restores (lsSpacing_pos fun _ => hop) (hregs ▸ List.nodup_range)
      (hbytes.nodup_iff.mpr List.nodup_range)
      (fun o ho => (List.mem_range.mp (hbytes.mem_iff.mp ho)).trans_le
        ((Nat.mul_le_mul_left 8 hfew).trans (by decide)))
      hwhole (hmem.trans hmem₁) hmoves' hr
    rw [hvfp₂, hreg]
  -- one lane of each register: the others are not touched by the load
  · have hsize : insnBits insn 10 2 ≠ 3 := by
      intro hsize
      have hfalse := hall (by simpa using hmultiple) (hagree.elementSize.trans hsize)
      rw [insnLoad_withLoad] at hfalse
      cases hfalse
    obtain ⟨s₁, hafter, -, hmem₁⟩ := disas_result hstore hdone (lsBody_stores hmultiple hsize s)
    obtain ⟨s₂, hloaded, hvfp₂, -⟩ := disas_result hload hdone' (lsBody_loads hmultiple hsize s')
    rw [loadRegVar_congr hrn] at hloaded
    have hfew : lsNregs insn ≤ 4 := by
      rw [lsNregs, if_neg hmultiple]
      exact insnBits_lt insn 8 2
    rw [lsMask, if_neg hmultiple, hvfp₂]
    exact LsLoaded.restores (lsLane_insn hsize) hfew hafter (hmem.trans hmem₁) hloaded hj

/-! ### Results -/

/-- Instructions are accepted whatever faults there are. -/
theorem disas_isSome (c : LsContext) (faults faults' : LsFaults) (insn : Word) :
    (disasNeonLsInsn c faults insn).isSome = (disasNeonLsInsn c faults' insn).isSome := by
  unfold disasNeonLsInsn
  cases vfpDregD c insn with
  | none => rfl
  | some rd =>
    by_cases hmultiple : insn.getLsbD 23 = false
    · simp only [if_pos hmultiple, apply_ite Option.isSome, Option.isSome_some]
    · by_cases hall : insnBits insn 10 2 = 3
      · simp only [if_neg hmultiple, if_pos hall, apply_ite Option.isSome, Option.isSome_some]
      · simp only [if_neg hmultiple, if_neg hall, apply_ite Option.isSome, Option.isSome_some]

theorem lsNregs_bounds (hop : insn.getLsbD 23 = false → insnBits insn 8 4 ≤ 10) :
    0 < lsNregs insn ∧ lsNregs insn ≤ 4 := by
  have htable : ∀ op : Fin 11, 0 < (neonLsElementType op).nregs ∧
      (neonLsElementType op).nregs ≤ 4 := by decide
  unfold lsNregs
  split_ifs with hmultiple
  · exact htable ⟨insnBits insn 8 4, Nat.lt_succ_of_le (hop hmultiple)⟩
  · exact ⟨Nat.succ_pos _, insnBits_lt insn 8 2⟩

/-- Bytes that are far from the base. -/
theorem not_perm_lsBytes (base : Word) {n : Nat} (hpos : 0 < n) (hn : n ≤ 32) :
    ¬(lsBytes (base + 0x1000) n).Perm (lsBytes base n) := by
  intro hperm
  have hfirst : base ∈ lsBytes base n :=
    List.mem_map.mpr ⟨0, List.mem_range.mpr hpos, BitVec.add_zero base⟩
  obtain ⟨k, hk, heq⟩ := List.mem_map.mp (hperm.mem_iff.mpr hfirst)
  have hk := List.mem_range.mp hk
  have hval := congrArg BitVec.toNat heq
  have hlt := base.isLt
  rw [BitVec.add_assoc, BitVec.toNat_add, BitVec.toNat_add, BitVec.toNat_ofNat] at hval
  change (base.toNat + (0x1000 + k % 2 ^ 32) % 2 ^ 32) % 2 ^ 32 = base.toNat at hval
  omega

/-- Encodings that do not fit are not sound. -/
theorem LsSound.fits (h : LsSound c insn)
    (hsome : (disasNeonLsInsn c (fun _ => none) insn).isSome = true) : LsFits insn := by
  obtain ⟨prog, hprog⟩ := Option.isSome_iff_exists.mp hsome
  obtain ⟨-, hop, -⟩ := disasNeonLsInsn_some hprog
  obtain ⟨hpos, hfew⟩ := lsNregs_bounds hop
  constructor
  · let s : LsState := { regs := fun _ => 0, vfp := fun _ => 0, mem := fun _ => 0, accesses := 0 }
    refine h.index _ prog s _ hprog ?_
    rw [disas_events hprog]
    exact (mem_lsEvents hop _ _).mpr ⟨lsNregs insn - 1, by omega, rfl⟩
  · intro hmultiple hrn
    -- register 15 as it is in memory is not what the translator takes it for
    let base := c.pc + (if c.thumb then (2 : Word) else 4)
    let s : LsState :=
      { regs := fun _ => base + 0x1000, vfp := fun _ => 0, mem := fun _ => 0, accesses := 0 }
    have hdone : ((prog s).result).isSome = true := by
      obtain ⟨⟨stride, rfl⟩, -⟩ := disasNeonLsInsn_some hprog
      exact ((lsBody_plain c _ insn).completes fun _ => rfl).bind
        (fun _ => lsWriteBack_completes _ _ _ _) s
    have hperm := (h.once hmultiple _ prog s hprog).2 hdone
    rw [disas_events hprog, loadRegVar, if_pos hrn] at hperm
    have htouched := touched_lsEvents (c := c) hmultiple (hop hmultiple) s.regs
    exact not_perm_lsBytes base (by omega) (by omega) (htouched.symm.trans hperm)

/-- **Neon loads and stores.**  In every state, and with any faults, registers are there, bytes of
    multiple structures are touched once, registers are restored, and the base is not written back
    after a fault, if and only if the last register is there and the base of multiple structures is
    not the program counter. -/
theorem neonLs_sound_iff (c : LsContext) (insn : Word) :
    LsSound c insn ↔
      ((disasNeonLsInsn c (fun _ => none) insn).isSome = true → LsFits insn) := by
  refine ⟨fun h hsome => h.fits hsome, fun hfits => ?_⟩
  have hfits : ∀ {faults prog}, disasNeonLsInsn c faults insn = some prog → LsFits insn := by
    intro faults prog hprog
    refine hfits ?_
    rw [disas_isSome c _ faults, hprog]
    rfl
  constructor
  case index =>
    intro faults prog s i hprog hmem
    obtain ⟨-, hop, -⟩ := disasNeonLsInsn_some hprog
    obtain ⟨j, hj, rfl⟩ := (mem_lsEvents hop s.regs i).mp ((disas_emits hprog s).upTo.mem hmem)
    have hle : lsSpacing insn * j ≤ lsSpacing insn * (lsNregs insn - 1) :=
      Nat.mul_le_mul_left _ (by omega)
    have hlt := (hfits hprog).1
    omega
  case once =>
    intro hmultiple faults prog s hprog
    obtain ⟨-, hop, -⟩ := disasNeonLsInsn_some hprog
    have hbase : loadRegVar c s.regs (insnReg insn 16) = s.regs (insnReg insn 16) :=
      if_neg ((hfits hprog).2 hmultiple)
    have hemits := disas_emits hprog s
    have htouched := touched_lsEvents (c := c) hmultiple (hop hmultiple) s.regs
    rw [hbase]
    refine ⟨(hemits.upTo.filterMap LsEvent.addr?).sublist.subperm.trans htouched.subperm,
      fun hdone => ?_⟩
    obtain ⟨a, hres⟩ := Option.isSome_iff_exists.mp hdone
    rw [(hemits.done a hres).1]
    exact htouched
  case restore =>
    intro faults faults' store load s s' hstore hload hdone hdone' hmem hrn j hj
    exact ls_restore hstore hload hdone hdone' hmem hrn hj
  case writeBack =>
    intro faults prog s hprog hfault
    obtain ⟨⟨stride, rfl⟩, -⟩ := disasNeonLsInsn_some hprog
    exact (lsBody_plain c faults insn).keeps.bind_fault
      (fun _ => lsWriteBack_completes _ _ _ _) hfault

/-- `vld4.8 {d31, d32, d33, d34}, [r0]` -/
theorem neonLs_sound_last : ¬LsSound ⟨true, true, false, 0⟩ 0xf460f00f := by
  intro h
  have hfits := h.fits rfl
  revert hfits
  unfold LsFits
  decide

end

end Qemu.Arm
