import Qemu.Hw.Gic
import Qemu.Lib.Ends

namespace Qemu.Hw

open Lib

/-!
# What the operations of the generic interrupt controller change

* `gicUpdate_eq` — the update changes what the CPUs are told;
* `Gic.Kept` — what a change of registers leaves as it is;
* `gicIndex_ends` — an index is inside of its array, or the computation ends with a fault;
* `gicDistSet_kept` — a write to the distributor is inside of the arrays, and keeps the rest;
* `gicDistReadb_inside` — a read is inside, if it is not of the last configuration register.
-/

variable {cfg : GicConfig}

/-! ### The update -/

/-- What `gic_update` changes. -/
theorem gicUpdateLoop_eq (l : List (Fin cfg.numCpu)) (s : Gic cfg) :
    ∃ pending line, gicUpdateLoop l s =
      { s with
        currentPending := pending
        parentIrq := line } := by
  induction l generalizing s with
  | nil => exact ⟨s.currentPending, s.parentIrq, rfl⟩
  | cons cpu l ih =>
    rw [gicUpdateLoop]
    by_cases hactive : s.active cpu = true
    · rw [if_pos hactive]
      obtain ⟨pending, line, h⟩ := ih (gicUpdateCpu s cpu)
      refine ⟨pending, line, h.trans ?_⟩
      rw [gicUpdateCpu]
      by_cases hmask : (gicBest s cpu).1 ≤ (s.priorityMask cpu).toNat
      · rw [if_pos hmask]
        rfl
      · rw [if_neg hmask]
        rfl
    · rw [if_neg hactive]
      exact ⟨_, _, rfl⟩

theorem gicUpdate_eq (s : Gic cfg) :
    ∃ pending line, gicUpdate s =
      { s with
        currentPending := pending
        parentIrq := line } :=
  gicUpdateLoop_eq (List.finRange cfg.numCpu) s

/-! ### What is kept -/

/-- What a change of registers leaves as it is, and the enable bit of the distributor. -/
structure Gic.Kept (s : Gic cfg) (enabled : Bool) (s₁ : Gic cfg) : Prop where
  enabled : s₁.enabled = enabled
  cpuEnabled : s₁.cpuEnabled = s.cpuEnabled
  lastActive : s₁.lastActive = s.lastActive
  runningIrq : s₁.runningIrq = s.runningIrq
  currentPending : s₁.currentPending = s.currentPending
  parentIrq : s₁.parentIrq = s.parentIrq

theorem Gic.Kept.refl (s : Gic cfg) : s.Kept s.enabled s := ⟨rfl, rfl, rfl, rfl, rfl, rfl⟩

theorem Gic.Kept.withIrq {s s₁ : Gic cfg} {b : Bool} (h : s.Kept b s₁) (irq : Fin cfg.nirq)
    (f : GicIrqState cfg.ncpu → GicIrqState cfg.ncpu) : s.Kept b (s₁.withIrq irq f) :=
  ⟨h.enabled, h.cpuEnabled, h.lastActive, h.runningIrq, h.currentPending, h.parentIrq⟩

variable {irq : Nat}

theorem gicIndex_of_lt (h : irq < cfg.nirq) : gicIndex cfg irq = .ok ⟨irq, h⟩ :=
  dif_pos h

variable {E : GicStop → Prop}

theorem gicIndex_inside (h : irq < cfg.nirq ∨ E .fault) :
    Ends (fun k : Fin cfg.nirq => k.val = irq) E (gicIndex cfg irq) := by
  by_cases hlt : irq < cfg.nirq
  · rw [gicIndex_of_lt hlt]
    exact .ok rfl
  · have hfault : gicIndex cfg irq = .error .fault := dif_neg hlt
    rw [hfault]
    exact .error (h.resolve_left hlt)

theorem gicIndex_ends {α : Type} {Q : α → Prop} (h : irq < cfg.nirq ∨ E .fault)
    {f : Fin cfg.nirq → Except GicStop α} (hf : ∀ k : Fin cfg.nirq, k.val = irq → Ends Q E (f k)) :
    Ends Q E ((gicIndex cfg irq).bind f) := (gicIndex_inside h).bind hf

variable {n : Nat}

theorem GicConfig.block_le (h : irq < cfg.nirq) (hn : n ∣ 32) (hirq : n ∣ irq) :
    irq + n ≤ cfg.nirq := by
  obtain ⟨i, hi⟩ := hirq
  obtain ⟨k, hk⟩ := Nat.dvd_trans hn cfg.blocks
  rw [hi, hk] at h ⊢
  have hlt : i < k := Nat.lt_of_mul_lt_mul_left h
  calc n * i + n = n * (i + 1) := rfl
    _ ≤ n * k := Nat.mul_le_mul_left n hlt

theorem gicBlock_ends {α : Type} {Q : α → Prop} {next : Except GicStop α}
    (h : irq < cfg.nirq → Ends Q (· = .hwError) next) :
    Ends Q (· = .hwError) (gicBlock cfg irq next) := by
  unfold gicBlock
  by_cases hirq : cfg.nirq ≤ irq
  · rw [if_pos hirq]
    exact .error rfl
  · rw [if_neg hirq]
    exact h (Nat.lt_of_not_le hirq)

/-! ### Writes -/

/-- A write of bits changes the states of interrupts. -/
theorem gicWriteBits_kept (s : Gic cfg) (h : irq + n ≤ cfg.nirq) (select : Nat → Bool)
    (f : Nat → GicIrqState cfg.ncpu → GicIrqState cfg.ncpu) :
    Ends (s.Kept s.enabled) (· = .hwError) (gicWriteBits s n irq select f) := by
  refine Ends.foldlM (fun s₁ i hi hs₁ => ?_) (Gic.Kept.refl s)
  by_cases hsel : select i = true
  · have hlt : irq + i < cfg.nirq :=
      Nat.lt_of_lt_of_le (Nat.add_lt_add_left (List.mem_range.mp hi) irq) h
    rw [if_pos hsel, gicIndex_of_lt hlt]
    exact Ends.ok (hs₁.withIrq _ (f i))
  · rw [if_neg hsel]
    exact Ends.ok hs₁

/-- The enable bit of the distributor behind a write. -/
def Gic.enabledAfter (s : Gic cfg) (offset : Nat) (value : BitVec 8) : Bool :=
  if offset = 0 then value.getLsbD 0 else s.enabled

theorem gicSetEnable_kept (s : Gic cfg) (cpu : Fin cfg.numCpu) (h : irq < cfg.nirq)
    (hdvd : 8 ∣ irq) (value : BitVec 8) :
    Ends (s.Kept s.enabled) (· = .hwError) (gicSetEnable s cpu irq value) := by
  refine gicIndex_ends (.inl h) fun k _ => ?_
  exact gicWriteBits_kept s (cfg.block_le h (by decide) hdvd) _ _

theorem gicSetPend_kept (s : Gic cfg) (h : irq < cfg.nirq) (hdvd : 8 ∣ irq) (value : BitVec 8) :
    Ends (s.Kept s.enabled) (· = .hwError) (gicSetPend s irq value) := by
  have hfirst : (if irq < 16 then 0 else irq) < cfg.nirq := by
    split_ifs
    · exact Nat.lt_of_le_of_lt (Nat.zero_le irq) h
    · exact h
  have hdvd' : 8 ∣ (if irq < 16 then 0 else irq) := by
    split_ifs
    · exact Nat.dvd_zero 8
    · exact hdvd
  refine gicIndex_ends (.inl hfirst) fun k _ => ?_
  exact gicWriteBits_kept s (cfg.block_le hfirst (by decide) hdvd') _ _

theorem gicSetPriority_kept (s : Gic cfg) (cpu : Fin cfg.numCpu) (h : irq < cfg.nirq)
    (value : BitVec 8) :
    Ends (s.Kept s.enabled) (· = .hwError) (gicSetPriority s cpu irq value) := by
  unfold gicSetPriority
  by_cases hinternal : irq < 32
  · rw [dif_pos hinternal]
    exact Ends.ok ⟨rfl, rfl, rfl, rfl, rfl, rfl⟩
  · have hext : irq - 32 < cfg.nirq - 32 := Nat.sub_lt_sub_right (Nat.le_of_not_lt hinternal) h
    rw [dif_neg hinternal, dif_pos hext]
    exact Ends.ok ⟨rfl, rfl, rfl, rfl, rfl, rfl⟩

theorem gicSetTarget_kept (s : Gic cfg) (h : irq < cfg.nirq) (value : BitVec 8) :
    Ends (s.Kept s.enabled) (· = .hwError) (gicSetTarget s irq value) := by
  unfold gicSetTarget
  rw [gicIndex_of_lt h]
  exact Ends.ok ⟨rfl, rfl, rfl, rfl, rfl, rfl⟩

/-- A write keeps what it does not set, and is inside of the arrays. -/
theorem gicDistSet_kept (s : Gic cfg) (cpu : Fin cfg.numCpu) (offset : Nat) (value : BitVec 8) :
    Ends (s.Kept (s.enabledAfter offset value)) (· = .hwError) (gicDistSet s cpu offset value) := by
  unfold gicDistSet
  by_cases hzero : offset = 0
  · subst hzero
    exact Ends.ok ⟨rfl, rfl, rfl, rfl, rfl, rfl⟩
  rw [Gic.enabledAfter, if_neg hzero, if_neg hzero]
  have height : ∀ n, 8 ∣ n * 8 := fun n => Nat.dvd_mul_left 8 n
  apply Ends.ite (fun _ => ?_) (fun _ => ?_)
  · exact Ends.ite (fun _ => Ends.ok (Gic.Kept.refl s)) (fun _ => Ends.error rfl)
  apply Ends.ite (fun _ => ?_) (fun _ => ?_)
  · exact gicBlock_ends fun h => gicSetEnable_kept s cpu h (height _) value
  apply Ends.ite (fun _ => ?_) (fun _ => ?_)
  · exact gicBlock_ends fun h =>
      gicWriteBits_kept s (cfg.block_le h (by decide) (height _)) _ _
  apply Ends.ite (fun _ => ?_) (fun _ => ?_)
  · exact gicBlock_ends fun h => gicSetPend_kept s h (height _) value
  apply Ends.ite (fun _ => ?_) (fun _ => ?_)
  · exact gicBlock_ends fun h =>
      gicWriteBits_kept s (cfg.block_le h (by decide) (height _)) _ _
  refine Ends.ite (fun _ => Ends.error rfl) (fun _ => ?_)
  apply Ends.ite (fun _ => ?_) (fun _ => ?_)
  · exact gicBlock_ends fun h => gicSetPriority_kept s cpu h value
  apply Ends.ite (fun _ => ?_) (fun _ => ?_)
  · exact gicBlock_ends fun h => gicSetTarget_kept s h value
  refine Ends.ite (fun _ => ?_) (fun _ => Ends.error rfl)
  exact gicBlock_ends fun h =>
    gicWriteBits_kept s (cfg.block_le h (by decide) (Nat.dvd_mul_left 4 _)) _ _

/-! ### Interrupts -/

/-- A new running interrupt, with its priority, and an update behind it. -/
theorem gicSetRunningIrq_ends {Q : Gic cfg → Prop} {E : GicStop → Prop} {s : Gic cfg}
    {cpu : Fin cfg.numCpu} {irq : Nat} (h : irq = 1023 ∨ irq < cfg.nirq ∨ E .fault)
    (hQ : ∀ priority, Q (gicUpdate { s with
      runningIrq := Function.update s.runningIrq cpu irq
      runningPriority := Function.update s.runningPriority cpu priority })) :
    Ends Q E (gicSetRunningIrq s cpu irq) := by
  refine Ends.map (P := fun _ => True) ?_ fun priority _ => hQ priority
  refine Ends.ite (fun _ => .ok trivial) fun hnone => ?_
  exact Ends.map (gicIndex_inside (h.resolve_left hnone)) fun _ _ => trivial

/-- An acknowledge would take the interrupt. -/
def Gic.takes (s : Gic cfg) (cpu : Fin cfg.numCpu) (irq : Fin cfg.nirq) : Prop :=
  s.currentPending cpu = irq.val ∧ (gicGetPriority s irq cpu).toNat < s.runningPriority cpu

/-- An acknowledge takes the pending interrupt, or nothing happens. -/
theorem gicAcknowledgeIrq_ends {Q : Gic cfg × Nat → Prop} {E : GicStop → Prop} {s : Gic cfg}
    {cpu : Fin cfg.numCpu}
    (h : s.currentPending cpu = 1023 ∨ s.currentPending cpu < cfg.nirq ∨ E .fault)
    (hidle : Q (s, 1023))
    (htake : ∀ irq : Fin cfg.nirq, s.takes cpu irq → ∀ f priority,
      Q (gicUpdate { (s.link irq cpu (s.runningIrq cpu)).withIrq irq f with
        runningIrq := Function.update s.runningIrq cpu irq.val
        runningPriority := Function.update s.runningPriority cpu priority }, irq.val)) :
    Ends Q E (gicAcknowledgeIrq s cpu) := by
  unfold gicAcknowledgeIrq
  by_cases hnone : s.currentPending cpu = 1023
  · rw [if_pos hnone]
    exact .ok hidle
  · rw [if_neg hnone]
    refine gicIndex_ends (h.resolve_left hnone) fun irq hirq => ?_
    by_cases hlow : s.runningPriority cpu ≤ (gicGetPriority s irq cpu).toNat
    · rw [if_pos hlow]
      exact .ok hidle
    · rw [if_neg hlow]
      refine Ends.bind (gicSetRunningIrq_ends (Q := fun s' => Q (s', irq.val))
        (.inr (.inl irq.isLt)) fun priority => ?_) fun s' hs' => .ok hs'
      exact htake irq ⟨hirq.symm, Nat.lt_of_not_le hlow⟩ _ priority

/-- What ends may become pending again. -/
theorem gicReraise_ends (s : Gic cfg) (cpu : Fin cfg.numCpu)
    (h : irq = 1023 ∨ irq < cfg.nirq ∨ E .fault) :
    Ends (fun r => s.Kept s.enabled r.1 ∧ (r.2 = false → r.1 = s)) E (gicReraise s cpu irq) := by
  unfold gicReraise
  by_cases hnone : irq = 1023
  · rw [if_pos hnone]
    exact .ok ⟨.refl s, fun _ => rfl⟩
  · rw [if_neg hnone]
    refine gicIndex_ends (h.resolve_left hnone) fun irq _ => ?_
    by_cases hraised : gicStillRaised s cpu irq = true
    · rw [if_pos hraised]
      exact .ok ⟨(Gic.Kept.refl s).withIrq irq _, fun hf => absurd hf.symm Bool.false_ne_true⟩
    · rw [if_neg hraised]
      exact .ok ⟨.refl s, fun _ => rfl⟩

/-! ### Reads -/

/-- A computation returns, or stops with `hw_error`. -/
def GicInside {α : Type} (r : Except GicStop α) : Prop := Ends (fun _ => True) (· = .hwError) r

theorem gicReadBits_inside (h : irq + n ≤ cfg.nirq) (bits : Nat → Fin cfg.nirq → BitVec 32) :
    GicInside (gicReadBits n irq bits) := by
  refine Ends.foldlM (fun res i hi _ => ?_) trivial
  have hlt : irq + i < cfg.nirq :=
    Nat.lt_of_lt_of_le (Nat.add_lt_add_left (List.mem_range.mp hi) irq) h
  rw [gicIndex_of_lt hlt]
  exact Ends.ok trivial

theorem gicReadTarget_inside (s : Gic cfg) (cpu : Fin cfg.numCpu) (h : irq < cfg.nirq) :
    GicInside (gicReadTarget s cpu irq) := by
  refine Ends.ite (fun _ => Ends.ok trivial) fun _ => ?_
  rw [gicIndex_of_lt h]
  exact Ends.ok trivial

variable {offset : Nat}

theorem gicReadId_inside (h : offset < 0x1000) : GicInside (gicReadId offset) := by
  refine Ends.ite (fun _ => Ends.ok trivial) fun _ => ?_
  have hlt : (offset - 0xfe0) / 4 < 8 := by omega
  rw [Vector.getElem?_eq_getElem hlt]
  exact Ends.ok trivial

/-- The configuration register of the last two interrupts.  It is read as if it were of four. -/
def GicConfig.lastConfig (cfg : GicConfig) : Nat := 0xc00 + (cfg.nirq / 2 - 1)

theorem gicReadConfig_inside (s : Gic cfg) (h : (offset - 0xc00) * 2 < cfg.nirq)
    (hoffset : 0xc00 ≤ offset) (hlast : offset ≠ cfg.lastConfig) :
    GicInside (gicReadConfig s ((offset - 0xc00) * 2)) := by
  refine gicReadBits_inside ?_ _
  obtain ⟨k, hk⟩ := cfg.blocks
  have hpos := cfg.internal
  unfold GicConfig.lastConfig at hlast
  omega

/-- A read is inside of the arrays if it is not of the last configuration register. -/
theorem gicDistReadb_inside (s : Gic cfg) (cpu : Fin cfg.numCpu) (h : offset < 0x1000)
    (hlast : offset ≠ cfg.lastConfig) : GicInside (gicDistReadb s cpu offset) := by
  have height : ∀ n (bits : Nat → Fin cfg.nirq → BitVec 32), n * 8 < cfg.nirq →
      GicInside (gicReadBits 8 (n * 8) bits) := fun n bits hn =>
    gicReadBits_inside (cfg.block_le hn (by decide) (Nat.dvd_mul_left 8 n)) bits
  unfold gicDistReadb
  apply Ends.ite (fun _ => ?_) (fun _ => ?_)
  · refine Ends.ite (fun _ => Ends.ok trivial) (fun _ => ?_)
    refine Ends.ite (fun _ => Ends.ok trivial) (fun _ => ?_)
    exact Ends.ite (fun _ => Ends.ok trivial) (fun _ => Ends.error rfl)
  apply Ends.ite (fun _ => ?_) (fun _ => ?_)
  · exact gicBlock_ends (height _ _)
  apply Ends.ite (fun _ => ?_) (fun _ => ?_)
  · exact gicBlock_ends (height _ _)
  apply Ends.ite (fun _ => ?_) (fun _ => ?_)
  · exact gicBlock_ends (height _ _)
  apply Ends.ite (fun _ => ?_) (fun _ => ?_)
  · exact gicBlock_ends (height _ _)
  apply Ends.ite (fun _ => ?_) (fun _ => ?_)
  · exact gicBlock_ends (height _ _)
  apply Ends.ite (fun _ => ?_) (fun _ => ?_)
  · refine gicBlock_ends fun hirq => ?_
    rw [gicReadPriority, gicIndex_of_lt hirq]
    exact Ends.ok trivial
  apply Ends.ite (fun _ => ?_) (fun hconfig => ?_)
  · exact gicBlock_ends (gicReadTarget_inside s cpu)
  apply Ends.ite (fun _ => ?_) (fun _ => ?_)
  · exact gicBlock_ends fun hirq =>
      gicReadConfig_inside s hirq (Nat.le_of_not_lt hconfig) hlast
  exact Ends.ite (fun _ => Ends.error rfl) (fun _ => gicReadId_inside h)

end Qemu.Hw
