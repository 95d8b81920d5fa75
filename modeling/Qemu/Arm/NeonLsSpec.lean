import Qemu.Arm.NeonLs
import Mathlib.Data.List.Nodup

namespace Qemu.Arm

open Lib

/-!
# What Neon loads and stores touch

* `lsPlan` — which byte of which register is at which offset in memory;
* `neonVldstAll_emits` — what `neon_vldst_all` does, in terms of the plan;
* `lsPlan_covers` — the offsets of a plan are consecutive.
-/

/-! ### Plans -/

/-- The bytes of a register, with their offsets: elements of `e` bytes that are `stride` bytes
    apart. -/
def elementPlan (e stride : Nat) : Nat → Nat → Nat → List (Nat × Nat)
  | 0, _, _ => []
  | n + 1, i, off =>
    (List.range e).map (fun k => (i * e + k, off + k)) ++
      elementPlan e stride n (i + 1) (off + stride)

/-- The registers, with their bytes, from register `reg` on. -/
def regsPlan (t : NeonLsElementType) (size : Nat) : Nat → Nat → Nat → List (Nat × List (Nat × Nat))
  | 0, _, _ => []
  | n + 1, reg, off =>
    let off :=
      if 2 < t.interleave ∨ (t.interleave = 2 ∧ t.nregs = 2) then 2 ^ size * reg
      else if t.interleave = 2 ∧ t.nregs = 4 ∧ reg = 2 then 2 ^ size
      else off
    (reg, elementPlan (2 ^ size) (2 ^ size * t.interleave) (8 / 2 ^ size) 0 off) ::
      regsPlan t size n (reg + 1) (off + 8 / 2 ^ size * (2 ^ size * t.interleave))

/-- The plan of an instruction. -/
def lsPlan (op size : Nat) : List (Nat × List (Nat × Nat)) :=
  regsPlan (neonLsElementType op) size (neonLsElementType op).nregs 0 0

theorem lsPlan_covers : ∀ op : Fin 11, ∀ size : Fin 4,
    (lsPlan op size).map Prod.fst = List.range (neonLsElementType op).nregs ∧
      ((lsPlan op size).flatMap fun r => r.2.map Prod.snd).Perm
        (List.range (8 * (neonLsElementType op).nregs)) ∧
      ∀ r ∈ lsPlan op size, (r.2.map Prod.fst).Perm (List.range 8) := by
  decide +kernel

/-- What is seen of a register. -/
def regEvents (load : Bool) (base : Word) (rd : Nat) (bytes : List (Nat × Nat)) : List LsEvent :=
  let touched := bytes.map fun p => LsEvent.byte (base + BitVec.ofNat 32 p.2)
  if load then touched ++ [.dreg rd] else .dreg rd :: touched

/-- What is seen of a plan. -/
def planEvents (load : Bool) (base : Word) (rd spacing : Nat)
    (plan : List (Nat × List (Nat × Nat))) :
    List LsEvent :=
  plan.flatMap fun r => regEvents load base (rd + spacing * r.1) r.2

/-- What a register is loaded with. -/
def loadedReg (mem : Word → BitVec 8) (base : Word) (bytes : List (Nat × Nat)) : BitVec 64 :=
  ofLanes 64 (bytes.map fun p => (p.1, mem (base + BitVec.ofNat 32 p.2)))

/-- What a register is stored as. -/
def storedBytes (x : BitVec 64) (base : Word) (bytes : List (Nat × Nat)) :
    List (Word × BitVec 8) :=
  bytes.map fun p => (base + BitVec.ofNat 32 p.2, lane 8 p.1 x)

/-- A state with other registers and another memory. -/
structure LsState.After (s : LsState) (vfp : Nat → BitVec 64) (mem : Word → BitVec 8)
    (s' : LsState) : Prop where
  regs : s'.regs = s.regs
  vfp : s'.vfp = vfp
  mem : s'.mem = mem

/-- What is moved between registers and memory if there is no fault. -/
def LsMoves (load : Bool) (base : Word) (rd spacing : Nat) (plan : List (Nat × List (Nat × Nat)))
    (s s' : LsState) : Prop :=
  match load with
  | true =>
    s.After (writeAll (plan.map fun r => (rd + spacing * r.1, loadedReg s.mem base r.2)) s.vfp)
      s.mem
      s'
  | false =>
    s.After s.vfp
      (writeAll (plan.flatMap fun r => storedBytes (s.vfp (rd + spacing * r.1)) base r.2) s.mem) s'

theorem LsMoves.nil (load : Bool) (base : Word) (rd spacing : Nat) (s : LsState) :
    LsMoves load base rd spacing [] s s := by
  cases load <;> exact ⟨rfl, rfl, rfl⟩

/-- Registers are moved one after the other. -/
theorem LsMoves.cons {load : Bool} {base : Word} {rd spacing : Nat} {r : Nat × List (Nat × Nat)}
    {plan : List (Nat × List (Nat × Nat))} {s s₁ s' : LsState}
    (h : LsMoves load base rd spacing [r] s s₁) (h' : LsMoves load base rd spacing plan s₁ s') :
    LsMoves load base rd spacing (r :: plan) s s' := by
  cases load with
  | true =>
    obtain ⟨hregs, hvfp, hmem⟩ := h
    obtain ⟨hregs', hvfp', hmem'⟩ := h'
    refine ⟨hregs'.trans hregs, ?_, hmem'.trans hmem⟩
    rw [hvfp', hvfp, hmem]
    rfl
  | false =>
    obtain ⟨hregs, hvfp, hmem⟩ := h
    obtain ⟨hregs', hvfp', hmem'⟩ := h'
    refine ⟨hregs'.trans hregs, hvfp'.trans hvfp, ?_⟩
    rw [hmem', hmem, hvfp, ← writeAll_append]
    simp

theorem LsMoves.regs {load : Bool} {base : Word} {rd spacing : Nat}
    {plan : List (Nat × List (Nat × Nat))} {s s' : LsState}
    (h : LsMoves load base rd spacing plan s s') : s'.regs = s.regs := by
  cases load with
  | true => exact LsState.After.regs h
  | false => exact LsState.After.regs h

section

variable {faults : LsFaults} {s : LsState} {size stride : Nat} {base : Word}

theorem lsAccess_eq (faults : LsFaults) (addr : Word) (len : Nat)
    (f : (Word → BitVec 8) → Word → BitVec 8) (s : LsState) :
    lsAccess faults addr len f s =
      match faults s.accesses with
      | none => ⟨byteEvents addr len,
        { s with mem := f s.mem, accesses := s.accesses + 1 }, some ⟨⟩⟩
      | some left =>
        ⟨byteEvents addr len, { s with mem := left s.mem, accesses := s.accesses + 1 }, none⟩ := rfl

/-- The bytes that an access touches. -/
theorem lsAccess_emits (faults : LsFaults) (s : LsState) (addr : Word) (len : Nat)
    (f : (Word → BitVec 8) → Word → BitVec 8) :
    Faulting.Emits (lsAccess faults addr len f) s (byteEvents addr len)
      fun _ s' => s.After s.vfp (f s.mem) s' := by
  constructor
  · rw [lsAccess_eq]
    cases faults s.accesses with
    | none => exact List.prefix_rfl
    | some left => exact List.prefix_rfl
  · intro a ha
    rw [lsAccess_eq] at ha ⊢
    cases hfault : faults s.accesses with
    | none => exact ⟨rfl, rfl, rfl, rfl⟩
    | some left =>
      rw [hfault] at ha
      cases ha

theorem ldBytes_emits (faults : LsFaults) (s : LsState) (len : Nat) (addr : Word) :
    Faulting.Emits (ldBytes faults len addr) s (byteEvents addr len)
      fun x s' => x = loadLe s.mem addr len ∧ s.After s.vfp s.mem s' := by
  refine (lsAccess_emits faults s addr len id).bind_nil fun _ s' hs' => ?_
  refine Faulting.Emits.get_bind (Faulting.Emits.pure ⟨?_, hs'⟩)
  rw [hs'.mem]
  rfl

theorem byteEvents_offset (base : Word) (off i e : Nat) :
    byteEvents (base + BitVec.ofNat 32 off) e =
      ((List.range e).map fun k => (i * e + k, off + k)).map fun p =>
        LsEvent.byte (base + BitVec.ofNat 32 p.2) := by
  rw [byteEvents, List.map_map]
  refine List.map_congr_left fun k _ => ?_
  rw [BitVec.add_assoc, ← BitVec.ofNat_add]
  rfl

/-- **The elements of a register that is loaded.** -/
theorem ldElements_emits (faults : LsFaults) (size stride : Nat) (base : Word) (n i off : Nat)
    (tmp64 : BitVec 64) (s : LsState) :
    Faulting.Emits (ldElements faults size (BitVec.ofNat 32 stride) n i (base + BitVec.ofNat 32 off)
        tmp64) s
      ((elementPlan (2 ^ size) stride n i off).map fun p => .byte (base + BitVec.ofNat 32 p.2))
      fun r s' => s.After s.vfp s.mem s' ∧ r.1 = base + BitVec.ofNat 32 (off + n * stride) ∧
        r.2 = tmp64 ||| loadedReg s.mem base (elementPlan (2 ^ size) stride n i off) := by
  -- on the number of elements: those that were read stand in `tmp64`
  induction n generalizing i off tmp64 s with
  | zero =>
    refine Faulting.Emits.pure ⟨⟨rfl, rfl, rfl⟩, ?_, ?_⟩
    · rw [Nat.zero_mul, Nat.add_zero]
    · exact (BitVec.or_zero ..).symm
  | succ n ih =>
    rw [elementPlan, List.map_append, ← byteEvents_offset base off i]
    refine (ldBytes_emits faults s (2 ^ size) _).bind fun x s₁ h => ?_
    obtain ⟨rfl, hregs, hvfp, hmem⟩ := h
    have haddr : base + BitVec.ofNat 32 off + BitVec.ofNat 32 stride =
        base + BitVec.ofNat 32 (off + stride) := by
      rw [BitVec.add_assoc, ← BitVec.ofNat_add]
    rw [haddr]
    refine (ih (i + 1) (off + stride) _ s₁).mono fun r s' h => ?_
    obtain ⟨⟨hregs', hvfp', hmem'⟩, hfst, hsnd⟩ := h
    refine ⟨⟨hregs'.trans hregs, hvfp'.trans hvfp, hmem'.trans hmem⟩, ?_, ?_⟩
    · rw [hfst, Nat.add_mul, Nat.one_mul, Nat.add_assoc, Nat.add_comm stride]
    · have helem : loadLe s.mem (base + BitVec.ofNat 32 off) (2 ^ size) <<< (i * 2 ^ size * 8) =
          loadedReg s.mem base
            ((List.range (2 ^ size)).map fun k => (i * 2 ^ size + k, off + k)) := by
        rw [loadLe, ofLanes_shiftLeft, loadedReg, List.map_map, List.map_map]
        refine congrArg (ofLanes 64) (List.map_congr_left fun k _ => ?_)
        dsimp only [Function.comp]
        rw [Nat.add_comm k, BitVec.add_assoc, ← BitVec.ofNat_add]
      rw [hsnd, hmem, helem, BitVec.or_assoc]
      unfold loadedReg
      rw [List.map_append, ofLanes_append]

/-- **The elements of a register that is stored.** -/
theorem stElements_emits (faults : LsFaults) (size stride : Nat) (base : Word) (n i off : Nat)
    (x : BitVec 64) (s : LsState) :
    Faulting.Emits (stElements faults size (BitVec.ofNat 32 stride) n (base + BitVec.ofNat 32 off)
        (x >>> (i * 2 ^ size * 8))) s
      ((elementPlan (2 ^ size) stride n i off).map fun p => .byte (base + BitVec.ofNat 32 p.2))
      fun addr s' =>
        s.After s.vfp (writeAll (storedBytes x base (elementPlan (2 ^ size) stride n i off)) s.mem)
          s' ∧ addr = base + BitVec.ofNat 32 (off + n * stride) := by
  -- on the number of elements: those that were stored are shifted out of `x`
  induction n generalizing i off s with
  | zero =>
    refine Faulting.Emits.pure ⟨⟨rfl, rfl, rfl⟩, ?_⟩
    rw [Nat.zero_mul, Nat.add_zero]
  | succ n ih =>
    rw [elementPlan, List.map_append, ← byteEvents_offset base off i]
    refine (lsAccess_emits faults s _ (2 ^ size) _).bind fun _ s₁ h => ?_
    obtain ⟨hregs, hvfp, hmem⟩ := h
    have haddr : base + BitVec.ofNat 32 off + BitVec.ofNat 32 stride =
        base + BitVec.ofNat 32 (off + stride) := by
      rw [BitVec.add_assoc, ← BitVec.ofNat_add]
    have hshift : x >>> (i * 2 ^ size * 8) >>> (2 ^ size * 8) = x >>> ((i + 1) * 2 ^ size * 8) := by
      rw [← BitVec.shiftRight_add, ← Nat.add_mul, Nat.succ_mul]
    rw [haddr, hshift]
    refine (ih (i + 1) (off + stride) s₁).mono fun addr s' h => ?_
    obtain ⟨⟨hregs', hvfp', hmem'⟩, hend⟩ := h
    refine ⟨⟨hregs'.trans hregs, hvfp'.trans hvfp, ?_⟩, ?_⟩
    · have helem : storeLe s.mem (base + BitVec.ofNat 32 off) (2 ^ size)
        (x >>> (i * 2 ^ size * 8)) =
          writeAll (storedBytes x base
            ((List.range (2 ^ size)).map fun k => (i * 2 ^ size + k, off + k))) s.mem := by
        rw [storeLe, storedBytes, List.map_map]
        refine congrArg (writeAll · s.mem) (List.map_congr_left fun k _ => ?_)
        dsimp only [Function.comp]
        rw [lane_ushiftRight, BitVec.add_assoc, ← BitVec.ofNat_add]
      rw [hmem', hmem, helem, ← writeAll_append]
      unfold storedBytes
      rw [List.map_append]
    · rw [hend, Nat.add_mul, Nat.one_mul, Nat.add_assoc, Nat.add_comm stride]

/-! ### The registers -/

theorem readDreg_emits (rd : Nat) (s : LsState) :
    Faulting.Emits (readDreg rd) s [.dreg rd] fun x s' => x = s.vfp rd ∧ s' = s := by
  refine (Faulting.Emits.act (Q := fun _ s₁ => s₁ = s) rfl).bind_nil fun _ s₁ h => ?_
  subst h
  exact Faulting.Emits.get_bind (Faulting.Emits.pure ⟨rfl, rfl⟩)

/-- **A register.** -/
theorem vldstReg_emits (faults : LsFaults) (load : Bool) (size stride rd spacing reg : Nat)
    (base : Word) (off : Nat) (s : LsState) :
    Faulting.Emits (vldstReg faults load size (BitVec.ofNat 32 stride) (rd + spacing * reg)
        (base + BitVec.ofNat 32 off)) s
      (regEvents load base (rd + spacing * reg)
        (elementPlan (2 ^ size) stride (8 / 2 ^ size) 0 off))
      fun addr s' => addr = base + BitVec.ofNat 32 (off + 8 / 2 ^ size * stride) ∧
        LsMoves load base rd spacing
          [(reg, elementPlan (2 ^ size) stride (8 / 2 ^ size) 0 off)] s s' := by
  cases load with
  | true =>
    refine (ldElements_emits faults size stride base _ 0 off 0 s).bind fun r s₁ h => ?_
    obtain ⟨⟨hregs, hvfp, hmem⟩, haddr, hval⟩ := h
    refine (Faulting.Emits.act (Q := fun _ s' => LsMoves true base rd spacing
      [(reg, elementPlan (2 ^ size) stride (8 / 2 ^ size) 0 off)] s s') ?_).bind_nil
        fun _ s' h => Faulting.Emits.pure ⟨haddr, h⟩
    refine ⟨hregs, ?_, hmem⟩
    show Function.update s₁.vfp _ r.2 = _
    rw [hvfp, hval.trans BitVec.zero_or]
    rfl
  | false =>
    refine (readDreg_emits _ s).bind fun x s₁ h => ?_
    obtain ⟨rfl, rfl⟩ := h
    have hzero : s₁.vfp (rd + spacing * reg) =
        s₁.vfp (rd + spacing * reg) >>> (0 * 2 ^ size * 8) := by
      simp
    rw [hzero]
    refine (stElements_emits faults size stride base _ 0 off _ s₁).mono fun addr s' h => ?_
    obtain ⟨⟨hregs, hvfp, hmem⟩, haddr⟩ := h
    refine ⟨haddr, hregs, hvfp, ?_⟩
    rw [hmem]
    simp

/-- **The loop over the registers.** -/
theorem vldstRegs_emits (faults : LsFaults) (t : NeonLsElementType) (load : Bool) (size : Nat)
    (rn : Fin 16) (rd n reg off : Nat) (s : LsState) :
    Faulting.Emits (vldstRegs faults t load size rn n reg (rd + t.spacing * reg)
        (s.regs rn + BitVec.ofNat 32 off)) s
      (planEvents load (s.regs rn) rd t.spacing (regsPlan t size n reg off))
      fun _ s' => LsMoves load (s.regs rn) rd t.spacing (regsPlan t size n reg off) s s' := by
  induction n generalizing reg off s with
  | zero => exact Faulting.Emits.pure (.nil ..)
  | succ n ih =>
    have haddr : (if 2 < t.interleave ∨ (t.interleave = 2 ∧ t.nregs = 2) then
        s.regs rn + BitVec.ofNat 32 (2 ^ size * reg)
        else if t.interleave = 2 ∧ t.nregs = 4 ∧ reg = 2 then s.regs rn + BitVec.ofNat 32 (2 ^ size)
        else s.regs rn + BitVec.ofNat 32 off) =
        s.regs rn + BitVec.ofNat 32
          (if 2 < t.interleave ∨ (t.interleave = 2 ∧ t.nregs = 2) then 2 ^ size * reg
          else if t.interleave = 2 ∧ t.nregs = 4 ∧ reg = 2 then 2 ^ size
          else off) := by
      split_ifs <;> rfl
    refine Faulting.Emits.get_bind ?_
    rw [haddr]
    refine (vldstReg_emits faults load size _ rd t.spacing reg _ _ s).bind fun addr s₁ h => ?_
    obtain ⟨rfl, hmoves⟩ := h
    refine Faulting.Emits.mono ?_ fun _ s' h => hmoves.cons h
    rw [← hmoves.regs, Nat.add_assoc, ← Nat.mul_succ]
    exact ih (reg + 1) _ s₁

/-- **`neon_vldst_all`** -/
theorem neonVldstAll_emits (faults : LsFaults) (insn : Word) (s : LsState) :
    Faulting.Emits (neonVldstAll faults insn) s
      (planEvents (insnLoad insn) (s.regs (insnReg insn 16)) (insnRd insn)
        (neonLsElementType (insnBits insn 8 4)).spacing
        (lsPlan (insnBits insn 8 4) (insnBits insn 6 2)))
      fun _ s' => LsMoves (insnLoad insn) (s.regs (insnReg insn 16)) (insnRd insn)
        (neonLsElementType (insnBits insn 8 4)).spacing
        (lsPlan (insnBits insn 8 4) (insnBits insn 6 2)) s s' := by
  have h := vldstRegs_emits faults (neonLsElementType (insnBits insn 8 4)) (insnLoad insn)
    (insnBits insn 6 2) (insnReg insn 16) (insnRd insn)
    (neonLsElementType (insnBits insn 8 4)).nregs 0 0 s
  rw [Nat.mul_zero, Nat.add_zero, BitVec.add_zero] at h
  exact Faulting.Emits.get_bind h

/-! ### Loads after stores -/

theorem addr_nodup (addr : Word) {l : List Nat} (hl : l.Nodup) (h : ∀ k ∈ l, k < 2 ^ 32) :
    (l.map fun k => addr + BitVec.ofNat 32 k).Nodup := by
  refine (List.nodup_map_iff_inj_on hl).mpr fun a ha b hb heq => ?_
  have hval := congrArg BitVec.toNat ((BitVec.add_right_inj addr).mp heq)
  rwa [BitVec.toNat_ofNat, BitVec.toNat_ofNat, Nat.mod_eq_of_lt (h a ha),
    Nat.mod_eq_of_lt (h b hb)] at hval

/-- **Registers are restored** by a load after a store. -/
theorem LsMoves.restores {rd spacing : Nat} {plan : List (Nat × List (Nat × Nat))}
    {s₁ s' s₂ : LsState} (hspacing : 0 < spacing) (hregs : (plan.map Prod.fst).Nodup)
    (hoffs : (plan.flatMap fun r => r.2.map Prod.snd).Nodup)
    (hfar : ∀ o ∈ plan.flatMap fun r => r.2.map Prod.snd, o < 2 ^ 32)
    (hbytes : ∀ r ∈ plan, (r.2.map Prod.fst).Perm (List.range 8))
    (hstore : LsMoves false base rd spacing plan s s₁) (hmem : s'.mem = s₁.mem)
    (hload : LsMoves true base rd spacing plan s' s₂) {r : Nat × List (Nat × Nat)} (hr : r ∈ plan) :
    s₂.vfp (rd + spacing * r.1) = s.vfp (rd + spacing * r.1) := by
  obtain ⟨-, -, hmem₁⟩ := hstore
  obtain ⟨-, hvfp₂, -⟩ := hload
  -- registers are loaded once
  have hnodup : ((plan.map fun r => (rd + spacing * r.1, loadedReg s'.mem base r.2)).map
      Prod.fst).Nodup := by
    have hfst : (plan.map fun r => (rd + spacing * r.1, loadedReg s'.mem base r.2)).map Prod.fst =
        (plan.map Prod.fst).map fun i => rd + spacing * i := by
      rw [List.map_map, List.map_map]
      rfl
    rw [hfst]
    refine (List.nodup_map_iff_inj_on hregs).mpr fun i _ j _ heq => ?_
    exact Nat.eq_of_mul_eq_mul_left hspacing (Nat.add_left_cancel heq)
  -- bytes are stored once
  have hnodup' : ((plan.flatMap fun r =>
      storedBytes (s.vfp (rd + spacing * r.1)) base r.2).map Prod.fst).Nodup := by
    have hfst : (plan.flatMap fun r =>
        storedBytes (s.vfp (rd + spacing * r.1)) base r.2).map Prod.fst =
          (plan.flatMap fun r => r.2.map Prod.snd).map fun o => base + BitVec.ofNat 32 o := by
      rw [List.map_flatMap, List.map_flatMap]
      refine congrArg (List.flatMap · plan) (funext fun r => ?_)
      rw [storedBytes, List.map_map, List.map_map]
      rfl
    rw [hfst]
    exact addr_nodup base hoffs hfar
  have hreg := writeAll_mem hnodup s'.vfp (List.mem_map.mpr ⟨r, hr, rfl⟩)
  rw [hvfp₂]
  refine hreg.trans ?_
  have hloaded : r.2.map (fun p => (p.1, s'.mem (base + BitVec.ofNat 32 p.2))) =
      (r.2.map Prod.fst).map fun i => (i, lane 8 i (s.vfp (rd + spacing * r.1))) := by
    rw [List.map_map]
    refine List.map_congr_left fun p hp => ?_
    have hbyte := writeAll_mem hnodup' s.mem
      (List.mem_flatMap.mpr ⟨r, hr, List.mem_map.mpr ⟨p, hp, rfl⟩⟩)
    rw [hmem, hmem₁]
    exact congrArg (p.1, ·) hbyte
  show ofLanes 64 _ = _
  rw [hloaded]
  exact ofLanes_map_lane (hbytes r hr) rfl _

end

end Qemu.Arm
