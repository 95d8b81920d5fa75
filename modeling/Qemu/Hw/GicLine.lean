import Qemu.Hw.GicFrame
import Mathlib.Data.List.Induction

namespace Qemu.Hw

open Lib

/-!
# The lines of the generic interrupt controller

* `Gic.Right` — what a CPU is told is what the registers say;
* `gicBest_cases` — the loop over the interrupts finds the one that comes first;
* `gicUpdate_settled` — the update is right about every CPU, if it is right beforehand about those
  behind one that is not enabled: it returns at the first of these;
* `gic_lines` — in a run that never enables or disables an interface behind one that is disabled,
  all CPUs are told what they are to be told.
-/

variable {cfg : GicConfig}

/-! ### What a CPU is to be told -/

/-- The interrupt that comes first of those that are enabled and pending for a CPU. -/
structure Gic.IsHighest (s : Gic cfg) (cpu : Fin cfg.numCpu) (irq : Fin cfg.nirq) : Prop where
  raised : s.raised cpu irq = true
  first : ∀ j, s.raised cpu j = true →
    gicGetPriority s irq cpu < gicGetPriority s j cpu ∨
      gicGetPriority s irq cpu = gicGetPriority s j cpu ∧ irq ≤ j

/-- The interrupt comes first, and its priority is within the mask. -/
def Gic.Presents (s : Gic cfg) (cpu : Fin cfg.numCpu) (irq : Fin cfg.nirq) : Prop :=
  s.active cpu = true ∧ s.IsHighest cpu irq ∧ gicGetPriority s irq cpu ≤ s.priorityMask cpu

/-- The line and the pending interrupt of a CPU are what the registers say. -/
structure Gic.Right (s : Gic cfg) (cpu : Fin cfg.numCpu) : Prop where
  line : s.parentIrq cpu = true ↔
    ∃ irq, s.Presents cpu irq ∧ (gicGetPriority s irq cpu).toNat < s.runningPriority cpu
  pending : ∀ irq, s.Presents cpu irq → s.currentPending cpu = irq.val
  none : (∀ irq, ¬s.Presents cpu irq) → s.currentPending cpu = 1023

/-! ### The interrupt that comes first -/

/-- The loop over the interrupts, up to some interrupt. -/
theorem gicBetter_foldl (s : Gic cfg) (cpu : Fin cfg.numCpu) (l : List (Fin cfg.nirq))
    (hl : l.Pairwise (· < ·)) :
    ((∀ irq ∈ l, s.raised cpu irq = false) ∧
      l.foldl (gicBetter s cpu) (0x100, 1023) = (0x100, 1023)) ∨
      ∃ irq ∈ l, s.raised cpu irq = true ∧
        (∀ j ∈ l, s.raised cpu j = true →
          gicGetPriority s irq cpu < gicGetPriority s j cpu ∨
            gicGetPriority s irq cpu = gicGetPriority s j cpu ∧ irq ≤ j) ∧
        l.foldl (gicBetter s cpu) (0x100, 1023) = ((gicGetPriority s irq cpu).toNat, irq.val) := by
  induction l using List.reverseRecOn with
  | nil => exact .inl ⟨fun irq h => absurd h List.not_mem_nil, rfl⟩
  | append_singleton l x ih =>
    obtain ⟨hl, -, hlast⟩ := List.pairwise_append.mp hl
    have hx : ∀ irq ∈ l, irq < x := fun irq h => hlast irq h x (List.mem_singleton_self x)
    rw [List.foldl_append, List.foldl_cons, List.foldl_nil]
    simp only [List.mem_append, List.mem_singleton, or_imp, forall_and, forall_eq]
    obtain ⟨hnone, hbest⟩ | ⟨irq, hirq, hraised, hfirst, hbest⟩ := ih hl
    · rw [hbest, gicBetter]
      by_cases hr : s.raised cpu x = true
      -- the first interrupt that is raised
      · rw [if_pos hr, if_pos (BitVec.isLt _)]
        refine .inr ⟨x, .inr rfl, hr, ⟨fun j hj hrj => ?_, fun _ => .inr ⟨rfl, le_refl x⟩⟩, rfl⟩
        rw [hnone j hj] at hrj
        cases hrj
      · rw [if_neg hr]
        exact .inl ⟨⟨hnone, Bool.eq_false_iff.mpr hr⟩, rfl⟩
    · rw [hbest, gicBetter]
      by_cases hr : s.raised cpu x = true
      · rw [if_pos hr]
        by_cases hlt : (gicGetPriority s x cpu).toNat < (gicGetPriority s irq cpu).toNat
        · rw [if_pos hlt]
          refine .inr ⟨x, .inr rfl, hr, ⟨fun j hj hrj => .inl ?_, fun _ => ?_⟩, rfl⟩
          · obtain hj | ⟨hj, -⟩ := hfirst j hj hrj
            · exact BitVec.lt_trans hlt hj
            · exact hj ▸ hlt
          · exact .inr ⟨rfl, le_refl x⟩
        · rw [if_neg hlt]
          refine .inr ⟨irq, .inl hirq, hraised, ⟨hfirst, fun _ => ?_⟩, rfl⟩
          obtain hlt' | heq := Nat.lt_or_eq_of_le (Nat.le_of_not_lt hlt)
          · exact .inl hlt'
          · exact .inr ⟨BitVec.eq_of_toNat_eq heq, le_of_lt (hx irq hirq)⟩
      · rw [if_neg hr]
        exact .inr ⟨irq, .inl hirq, hraised, ⟨hfirst, fun h => absurd h hr⟩, rfl⟩

/-- What `gic_update` finds: the interrupt that comes first, if one is raised. -/
theorem gicBest_cases (s : Gic cfg) (cpu : Fin cfg.numCpu) :
    ((∀ irq, s.raised cpu irq = false) ∧ gicBest s cpu = (0x100, 1023)) ∨
      ∃ irq, s.IsHighest cpu irq ∧
        gicBest s cpu = ((gicGetPriority s irq cpu).toNat, irq.val) := by
  have hsorted : (List.finRange cfg.nirq).Pairwise (· < ·) := List.pairwise_lt_finRange cfg.nirq
  obtain ⟨hnone, hbest⟩ | ⟨irq, -, hraised, hfirst, hbest⟩ := gicBetter_foldl s cpu _ hsorted
  · exact .inl ⟨fun irq => hnone irq (List.mem_finRange irq), hbest⟩
  · exact .inr ⟨irq, ⟨hraised, fun j => hfirst j (List.mem_finRange j)⟩, hbest⟩

/-- There is one highest pending interrupt. -/
theorem Gic.IsHighest.unique {s : Gic cfg} {cpu : Fin cfg.numCpu} {irq j : Fin cfg.nirq}
    (h : s.IsHighest cpu irq) (hj : s.IsHighest cpu j) : irq = j := by
  obtain h₁ | ⟨h₁, hle⟩ := h.first j hj.raised
  · obtain h₂ | ⟨h₂, -⟩ := hj.first irq h.raised
    · exact absurd h₂ (BitVec.lt_asymm h₁)
    · rw [h₂] at h₁
      exact absurd h₁ (BitVec.lt_irrefl _)
  · obtain h₂ | ⟨-, hge⟩ := hj.first irq h.raised
    · rw [h₁] at h₂
      exact absurd h₂ (BitVec.lt_irrefl _)
    · exact le_antisymm hle hge

/-! ### The update -/

/-- What a CPU has been told. -/
def Gic.told (s : Gic cfg) (cpu : Fin cfg.numCpu) : Nat × Bool :=
  (s.currentPending cpu, s.parentIrq cpu)

/-- What `gic_update` tells a CPU if it comes to it. -/
def Gic.wanted (s : Gic cfg) (cpu : Fin cfg.numCpu) : Nat × Bool :=
  if s.active cpu then
    if (gicBest s cpu).1 ≤ (s.priorityMask cpu).toNat then
      ((gicBest s cpu).2, decide ((gicBest s cpu).1 < s.runningPriority cpu))
    else (1023, false)
  else (1023, false)

/-- All CPUs have been told what `gic_update` would tell them. -/
def Gic.Settled (s : Gic cfg) : Prop := ∀ cpu, s.told cpu = s.wanted cpu

theorem Gic.wanted_inactive {s : Gic cfg} {cpu : Fin cfg.numCpu} (h : s.active cpu = false) :
    s.wanted cpu = (1023, false) := by
  rw [Gic.wanted, h]
  rfl

/-- What an update would tell is what is right. -/
theorem Gic.Settled.right {s : Gic cfg} (h : s.Settled) (cpu : Fin cfg.numCpu) : s.Right cpu := by
  have htold := h cpu
  have hpending : s.currentPending cpu = (s.wanted cpu).1 := congrArg Prod.fst htold
  have hline : s.parentIrq cpu = (s.wanted cpu).2 := congrArg Prod.snd htold
  have habsent : (∀ irq, ¬s.Presents cpu irq) → s.wanted cpu = (1023, false) → s.Right cpu := by
    intro hno hwanted
    rw [hwanted] at hpending hline
    refine ⟨?_, fun irq hirq => absurd hirq (hno irq), fun _ => hpending⟩
    rw [hline]
    exact ⟨fun hf => absurd hf Bool.false_ne_true, fun ⟨irq, hirq, _⟩ => absurd hirq (hno irq)⟩
  by_cases hactive : s.active cpu = true
  · obtain ⟨hnone, hbest⟩ | ⟨irq, hfirst, hbest⟩ := gicBest_cases s cpu
    -- the priority is behind every mask
    · have hmask : ¬0x100 ≤ (s.priorityMask cpu).toNat := Nat.not_le.mpr (BitVec.isLt _)
      refine habsent (fun irq hirq => ?_) ?_
      · have hraised := hirq.2.1.raised
        rw [hnone irq] at hraised
        cases hraised
      · rw [Gic.wanted, if_pos hactive, hbest, if_neg hmask]
    · by_cases hmask : gicGetPriority s irq cpu ≤ s.priorityMask cpu
      · have hmask' : (gicGetPriority s irq cpu).toNat ≤ (s.priorityMask cpu).toNat := hmask
        have hpresents : s.Presents cpu irq := ⟨hactive, hfirst, hmask⟩
        rw [Gic.wanted, if_pos hactive, hbest, if_pos hmask'] at hpending hline
        refine ⟨?_, fun j hj => ?_, fun hno => absurd hpresents (hno irq)⟩
        · rw [hline, decide_eq_true_iff]
          refine ⟨fun hlt => ⟨irq, hpresents, hlt⟩, fun ⟨j, hj, hlt⟩ => ?_⟩
          rwa [hfirst.unique hj.2.1]
        · rw [hpending, hfirst.unique hj.2.1]
      · have hmask' : ¬(gicGetPriority s irq cpu).toNat ≤ (s.priorityMask cpu).toNat := hmask
        refine habsent (fun j hj => ?_) ?_
        · apply hmask
          rw [hfirst.unique hj.2.1]
          exact hj.2.2
        · rw [Gic.wanted, if_pos hactive, hbest, if_neg hmask']
  · rw [Bool.not_eq_true] at hactive
    refine habsent (fun irq hirq => ?_) (Gic.wanted_inactive hactive)
    have htrue := hirq.1
    rw [hactive] at htrue
    cases htrue

theorem Gic.told_tell_same (s : Gic cfg) (cpu : Fin cfg.numCpu) (pending : Nat) (level : Bool) :
    (s.tell cpu pending level).told cpu = (pending, level) := by
  show (Function.update s.currentPending cpu pending cpu,
    Function.update s.parentIrq cpu level cpu) = _
  rw [Function.update_self, Function.update_self]

theorem Gic.told_tell_of_ne (s : Gic cfg) {cpu c : Fin cfg.numCpu} (h : c ≠ cpu) (pending : Nat)
    (level : Bool) : (s.tell cpu pending level).told c = s.told c := by
  show (Function.update s.currentPending cpu pending c,
    Function.update s.parentIrq cpu level c) = _
  rw [Function.update_of_ne h, Function.update_of_ne h]
  rfl

theorem gicUpdateCpu_tell {s : Gic cfg} {cpu : Fin cfg.numCpu} (h : s.active cpu = true) :
    gicUpdateCpu s cpu = s.tell cpu (s.wanted cpu).1 (s.wanted cpu).2 := by
  rw [gicUpdateCpu, Gic.wanted, if_pos h]
  by_cases hmask : (gicBest s cpu).1 ≤ (s.priorityMask cpu).toNat
  · rw [if_pos hmask, if_pos hmask]
  · rw [if_neg hmask, if_neg hmask]

/-- The loop is right about the CPUs that it comes to, and about those that were told the right
    thing before. -/
theorem gicUpdateLoop_told {l : List (Fin cfg.numCpu)} {s : Gic cfg} (hl : l.Pairwise (· < ·))
    (hskip : ∀ i ∈ l, ∀ j ∈ l, i < j → s.active i = false → s.told j = s.wanted j)
    (cpu : Fin cfg.numCpu) (hcpu : cpu ∈ l ∨ s.told cpu = s.wanted cpu) :
    (gicUpdateLoop l s).told cpu = s.wanted cpu := by
  induction l generalizing s with
  | nil => exact hcpu.resolve_left List.not_mem_nil
  | cons c l ih =>
    obtain ⟨hc, hl⟩ := List.pairwise_cons.mp hl
    rw [gicUpdateLoop]
    by_cases hactive : s.active c = true
    · rw [if_pos hactive, gicUpdateCpu_tell hactive]
      -- `wanted` does not look at what has been told
      refine ih (s := s.tell c _ _) hl (fun i hi j hj hij hi' => ?_) ?_
      · have hj' := hskip i (List.mem_cons_of_mem c hi) j (List.mem_cons_of_mem c hj) hij hi'
        rw [Gic.told_tell_of_ne _ (ne_of_gt (hc j hj))]
        exact hj'
      · by_cases heq : cpu = c
        · subst heq
          exact .inr (Gic.told_tell_same s cpu _ _)
        · rw [Gic.told_tell_of_ne _ heq]
          obtain hmem | htold := hcpu
          · exact .inl ((List.mem_cons.mp hmem).resolve_left heq)
          · exact .inr htold
    · rw [if_neg hactive]
      rw [Bool.not_eq_true] at hactive
      by_cases heq : cpu = c
      · subst heq
        rw [Gic.told_tell_same, Gic.wanted_inactive hactive]
      · rw [Gic.told_tell_of_ne _ heq]
        obtain hmem | htold := hcpu
        · have hmem' := (List.mem_cons.mp hmem).resolve_left heq
          exact hskip c List.mem_cons_self cpu hmem (hc cpu hmem') hactive
        · exact htold

/-- **The update** is right about all CPUs if it is right beforehand about those that are behind one
    that is not enabled. -/
theorem gicUpdate_settled {s : Gic cfg}
    (h : ∀ i j, i < j → s.active i = false → s.told j = s.wanted j) : (gicUpdate s).Settled := by
  intro cpu
  have htold : (gicUpdate s).told cpu = s.wanted cpu :=
    gicUpdateLoop_told (List.pairwise_lt_finRange cfg.numCpu) (fun i _ j _ => h i j) cpu
      (.inl (List.mem_finRange cpu))
  obtain ⟨pending, line, heq⟩ := gicUpdate_eq s
  rw [htold, heq]
  rfl

/-- An update with the interfaces `after` enabled does not return before it has come to all that are
    enabled, or have been among those `before`. -/
def SkipsNone {n : Nat} (before after : Fin n → Bool) : Prop :=
  ∀ i j, i < j → after i = false → before j = false ∧ after j = false

theorem SkipsNone.after {n : Nat} {before after : Fin n → Bool} (h : SkipsNone before after) :
    SkipsNone after after := fun i j hij hi => ⟨(h i j hij hi).2, (h i j hij hi).2⟩

/-- The CPUs have been told the right thing, with these interfaces enabled. -/
structure Gic.SettledAs (active : Fin cfg.numCpu → Bool) (s : Gic cfg) : Prop where
  settled : s.Settled
  active : s.active = active

theorem gicUpdate_active (s : Gic cfg) : (gicUpdate s).active = s.active := by
  obtain ⟨pending, line, heq⟩ := gicUpdate_eq s
  rw [heq]
  rfl

theorem Gic.SettledAs.update {s s₁ : Gic cfg} {before after : Fin cfg.numCpu → Bool}
    (h : s.SettledAs before) (htold : s₁.told = s.told) (hactive : s₁.active = after)
    (hskip : SkipsNone before after) : (gicUpdate s₁).SettledAs after := by
  obtain ⟨hsettled, rfl⟩ := h
  subst hactive
  refine ⟨gicUpdate_settled fun i j hij hi => ?_, gicUpdate_active s₁⟩
  obtain ⟨hbefore, hafter⟩ := hskip i j hij hi
  rw [htold, hsettled j, Gic.wanted_inactive hbefore, Gic.wanted_inactive hafter]

theorem Gic.Kept.told {s s₁ : Gic cfg} {b : Bool} (h : s.Kept b s₁) : s₁.told = s.told := by
  funext cpu
  rw [Gic.told, Gic.told, h.currentPending, h.parentIrq]

/-- The interfaces that are enabled if the distributor is, or is not. -/
def Gic.activeWith (s : Gic cfg) (enabled : Bool) (cpu : Fin cfg.numCpu) : Bool :=
  enabled && s.cpuEnabled cpu

theorem Gic.Kept.active {s s₁ : Gic cfg} {b : Bool} (h : s.Kept b s₁) :
    s₁.active = s.activeWith b := by
  funext cpu
  rw [Gic.active, Gic.activeWith, h.enabled, h.cpuEnabled]

/-! ### Steps -/

/-- Whatever a computation returns. -/
def GicReturns {α : Type} (Q : α → Prop) (r : Except GicStop α) : Prop := Ends Q (fun _ => True) r

section

variable {s : Gic cfg} {active : Fin cfg.numCpu → Bool}

theorem gicSetPendingPrivate_settled (h : s.SettledAs active) (ho : SkipsNone active active)
    (cpu : Fin cfg.numCpu) (irq : Nat) :
    GicReturns (Gic.SettledAs active) (gicSetPendingPrivate s cpu irq) := by
  refine gicIndex_ends (.inr trivial) fun irq _ => ?_
  exact Ends.ite (fun _ => .ok h) fun _ => .ok (h.update rfl h.active ho)

theorem gicSetIrq_settled (h : s.SettledAs active) (ho : SkipsNone active active) (irq : Nat)
    (level : Int) : GicReturns (Gic.SettledAs active) (gicSetIrq s irq level) := by
  refine gicIndex_ends (.inr trivial) fun irq _ => ?_
  refine Ends.ite (fun _ => .ok h) fun _ => ?_
  refine Ends.ite (fun _ => ?_) fun _ => .ok (h.update rfl h.active ho)
  exact Ends.ite (fun _ => .ok (h.update rfl h.active ho))
    fun _ => .ok (h.update rfl h.active ho)

theorem gicAcknowledgeIrq_settled (h : s.SettledAs active) (ho : SkipsNone active active)
    (cpu : Fin cfg.numCpu) :
    GicReturns (fun r => r.1.SettledAs active) (gicAcknowledgeIrq s cpu) :=
  gicAcknowledgeIrq_ends (.inr (.inr trivial)) h fun _ _ _ _ => h.update rfl h.active ho

/-- The loop only changes the chain. -/
theorem gicUnlink_returns (s : Gic cfg) (cpu : Fin cfg.numCpu) (irq fuel tmp : Nat) :
    GicReturns (fun s' => ∃ lastActive, s' = { s with
      lastActive := lastActive }) (gicUnlink s cpu irq fuel tmp) := by
  induction fuel generalizing tmp with
  | zero => exact .error trivial
  | succ fuel ih =>
    refine gicIndex_ends (.inr trivial) fun k _ => ?_
    refine Ends.ite (fun _ => .ok ⟨s.lastActive, rfl⟩) fun _ => ?_
    refine Ends.ite (fun _ => ?_) fun _ => ih _
    exact gicIndex_ends (.inr trivial) fun _ _ => .ok ⟨_, rfl⟩

/-- And after a completion. -/
theorem gicCompleteIrq_settled (h : s.SettledAs active) (ho : SkipsNone active active)
    (cpu : Fin cfg.numCpu) (irq : Nat) :
    GicReturns (Gic.SettledAs active) (gicCompleteIrq s cpu irq) := by
  refine Ends.ite (fun _ => .ok h) fun _ => ?_
  refine (gicReraise_ends s cpu (.inr (.inr trivial))).bind ?_
  rintro ⟨s₁, update⟩ ⟨hkept, hsame⟩
  have hactive : s₁.active = active := hkept.active.trans h.active
  refine Ends.ite (fun _ => ?_) fun _ => ?_
  · refine (gicUnlink_returns s₁ cpu irq _ _).bind ?_
    rintro s₂ ⟨lastActive, rfl⟩
    apply Ends.ok
    by_cases hupdate : update = true
    · rw [if_pos hupdate]
      exact h.update hkept.told hactive ho
    -- without an update, only the chain has changed
    · rw [if_neg hupdate]
      obtain rfl := hsame (Bool.eq_false_iff.mpr hupdate)
      exact ⟨h.settled, hactive⟩
  · refine gicIndex_ends (.inr trivial) fun k _ => ?_
    exact gicSetRunningIrq_ends (.inr (.inr trivial)) fun _ => h.update hkept.told hactive ho

theorem gicSoftInt_settled (h : s.SettledAs active) (ho : SkipsNone active active)
    (cpu : Fin cfg.numCpu) (value : BitVec 32) :
    GicReturns (Gic.SettledAs active) (gicSoftInt s cpu value) :=
  gicIndex_ends (.inr trivial) fun _ _ => .ok (h.update rfl h.active ho)

theorem gicCpuRead_settled (h : s.SettledAs active) (ho : SkipsNone active active)
    (cpu : Fin cfg.numCpu) (offset : Nat) :
    GicReturns (fun r => r.1.SettledAs active) (gicCpuRead s cpu offset) := by
  unfold gicCpuRead
  split
  case h_4 => exact gicAcknowledgeIrq_settled h ho cpu
  case h_7 => exact .error trivial
  all_goals exact .ok h

theorem gicDistWriteb_settled (h : s.SettledAs active) (cpu : Fin cfg.numCpu) (offset : Nat)
    (value : BitVec 8) (hskip : SkipsNone active (s.activeWith (s.enabledAfter offset value))) :
    GicReturns (Gic.SettledAs (s.activeWith (s.enabledAfter offset value)))
      (gicDistWriteb s cpu offset value) :=
  ((gicDistSet_kept s cpu offset value).mono (fun _ hs => hs) fun _ _ => trivial).map
    fun _ hkept => h.update hkept.told hkept.active hskip

theorem gicDistWriteb_steady (h : s.SettledAs active) (ho : SkipsNone active active)
    (cpu : Fin cfg.numCpu) {offset : Nat} (hoffset : offset ≠ 0) (value : BitVec 8) :
    GicReturns (Gic.SettledAs active) (gicDistWriteb s cpu offset value) := by
  have hsame : s.activeWith (s.enabledAfter offset value) = active := by
    rw [Gic.enabledAfter, if_neg hoffset]
    exact h.active
  have hwrite := gicDistWriteb_settled h cpu offset value (by rwa [hsame])
  rwa [hsame] at hwrite

theorem gicDistWritew_settled (h : s.SettledAs active) (cpu : Fin cfg.numCpu) (offset : Nat)
    (value : BitVec 16)
    (hskip : SkipsNone active (s.activeWith (s.enabledAfter offset (value.setWidth 8)))) :
    GicReturns (Gic.SettledAs (s.activeWith (s.enabledAfter offset (value.setWidth 8))))
      (gicDistWritew s cpu offset value) :=
  (gicDistWriteb_settled h cpu offset _ hskip).bind fun _ h₁ =>
    gicDistWriteb_steady h₁ hskip.after cpu (Nat.succ_ne_zero offset) _

theorem gicDistWritew_steady (h : s.SettledAs active) (ho : SkipsNone active active)
    (cpu : Fin cfg.numCpu) {offset : Nat} (hoffset : offset ≠ 0) (value : BitVec 16) :
    GicReturns (Gic.SettledAs active) (gicDistWritew s cpu offset value) :=
  (gicDistWriteb_steady h ho cpu hoffset _).bind fun _ h₁ =>
    gicDistWriteb_steady h₁ ho cpu (Nat.succ_ne_zero offset) _

/-- A write of four bytes. -/
theorem gicDistWritel_settled (h : s.SettledAs active) (cpu : Fin cfg.numCpu) (offset : Nat)
    (value : BitVec 32)
    (hskip : SkipsNone active (s.activeWith (s.enabledAfter offset (value.setWidth 8)))) :
    GicReturns (Gic.SettledAs (s.activeWith (s.enabledAfter offset (value.setWidth 8))))
      (gicDistWritel s cpu offset value) := by
  have hlow : (value.setWidth 16).setWidth 8 = value.setWidth 8 :=
    BitVec.setWidth_setWidth_of_le value (by decide)
  refine Ends.ite (fun hsoft => ?_) fun _ => ?_
  -- a software interrupt does not touch the enable bit
  · have hsame : s.activeWith (s.enabledAfter offset (value.setWidth 8)) = active := by
      subst hsoft
      exact h.active
    rw [hsame] at hskip ⊢
    exact gicSoftInt_settled h hskip cpu value
  · rw [← hlow] at hskip ⊢
    exact (gicDistWritew_settled h cpu offset _ hskip).bind fun _ h₁ =>
      gicDistWritew_steady h₁ hskip.after cpu (Nat.succ_ne_zero (offset + 1)) _

/-- The interfaces that are enabled after a write to the control register of one of them. -/
def Gic.activeSwitched (s : Gic cfg) (cpu : Fin cfg.numCpu) (value : BitVec 32)
    (c : Fin cfg.numCpu) : Bool :=
  s.enabled && Function.update s.cpuEnabled cpu (value.getLsbD 0) c

theorem gicCpuWrite_control (h : s.SettledAs active) (cpu : Fin cfg.numCpu) (value : BitVec 32)
    (hskip : SkipsNone active (s.activeSwitched cpu value)) :
    GicReturns (Gic.SettledAs (s.activeSwitched cpu value)) (gicCpuWrite s cpu 0 value) :=
  .ok (h.update rfl rfl hskip)

theorem gicCpuWrite_steady (h : s.SettledAs active) (ho : SkipsNone active active)
    (cpu : Fin cfg.numCpu) {offset : Nat} (hoffset : offset ≠ 0) (value : BitVec 32) :
    GicReturns (Gic.SettledAs active) (gicCpuWrite s cpu offset value) := by
  unfold gicCpuWrite
  split
  · exact absurd rfl hoffset
  · exact .ok (h.update rfl h.active ho)
  · exact .ok (h.update rfl h.active ho)
  · exact gicCompleteIrq_settled h ho cpu _
  · exact .error trivial

end

/-! ### Operations and runs -/

/-- The enable bit of the distributor behind a write. -/
def GicWrite.enabledAfter (s : Gic cfg) : GicWrite → Bool
  | .byte offset value => s.enabledAfter offset value
  | .half place value => s.enabledAfter (2 * place) (value.setWidth 8)
  | .word place value => s.enabledAfter (4 * place) (value.setWidth 8)

/-- The interfaces that are enabled after an operation. -/
def GicOp.activeAfter (s : Gic cfg) : GicOp cfg → Fin cfg.numCpu → Bool
  | .distWrite _ access => s.activeWith (access.enabledAfter s)
  | .cpuWrite cpu offset value =>
    if offset = 0 then s.activeSwitched cpu value else s.active
  | _ => s.active

/-- The operation does not enable or disable an interface that is behind a disabled one. -/
def GicOp.InOrder : GicMachine cfg → GicOp cfg → Prop
  | .running s, op => SkipsNone s.active (op.activeAfter s)
  | .halted, _ => True

instance {n : Nat} (before after : Fin n → Bool) : Decidable (SkipsNone before after) :=
  have (i : Fin n) : Decidable
      (∀ j, i < j → after i = false → before j = false ∧ after j = false) :=
    Nat.decidableForallFin _
  Nat.decidableForallFin _

instance : ∀ (m : GicMachine cfg) (op : GicOp cfg), Decidable (op.InOrder m)
  | .running s, op => inferInstanceAs (Decidable (SkipsNone s.active (op.activeAfter s)))
  | .halted, _ => instDecidableTrue

/-- An operation tells all CPUs the right thing. -/
theorem GicOp.access_settled {s : Gic cfg} (h : s.Settled) {op : GicOp cfg}
    (hop : SkipsNone s.active (op.activeAfter s)) : GicReturns Gic.Settled (op.access s) := by
  have hs : s.SettledAs s.active := ⟨h, rfl⟩
  have hsettled : ∀ {r : Except GicStop (Gic cfg)} {active : Fin cfg.numCpu → Bool},
      GicReturns (Gic.SettledAs active) r → GicReturns Gic.Settled r :=
    fun hr => hr.mono (fun _ hs' => hs'.settled) fun _ _ => trivial
  cases op with
  | setIrq irq level => exact hsettled (gicSetIrq_settled hs hop _ level)
  | timer cpu watchdog => exact hsettled (gicSetPendingPrivate_settled hs hop cpu _)
  | distRead cpu access =>
    refine Ends.map (P := fun _ => True) ?_ fun _ _ => h
    cases access.access s cpu with
    | ok value => exact .ok trivial
    | error stop => exact .error trivial
  | distWrite cpu access =>
    cases access with
    | byte offset value => exact hsettled (gicDistWriteb_settled hs cpu _ value hop)
    | half place value => exact hsettled (gicDistWritew_settled hs cpu _ value hop)
    | word place value => exact hsettled (gicDistWritel_settled hs cpu _ value hop)
  | cpuRead cpu offset =>
    have hread : GicReturns (Gic.SettledAs s.active) ((gicCpuRead s cpu offset).map Prod.fst) :=
      (gicCpuRead_settled hs hop cpu offset).map fun _ hr => hr
    exact hsettled hread
  | cpuWrite cpu offset value =>
    by_cases hoffset : offset = 0
    · subst hoffset
      exact hsettled (gicCpuWrite_control hs cpu value hop)
    · have hsame : (GicOp.cpuWrite cpu offset value).activeAfter s = s.active := if_neg hoffset
      rw [hsame] at hop
      exact hsettled (gicCpuWrite_steady hs hop cpu hoffset value)

/-- All CPUs have been told the right thing, as long as the machine runs. -/
def GicMachine.Settled : GicMachine cfg → Prop
  | .running s => s.Settled
  | .halted => True

/-- Every CPU was told the right thing, unless the machine has stopped. -/
def GicMachine.Right : GicMachine cfg → Prop
  | .running s => ∀ cpu, s.Right cpu
  | .halted => True

theorem GicMachine.Settled.right {m : GicMachine cfg} (h : m.Settled) : m.Right := by
  cases m with
  | running s => exact Gic.Settled.right h
  | halted => exact trivial

theorem gicReset_settled (cfg : GicConfig) : (gicReset cfg).Settled := fun _ => rfl

/-- An operation that returns has ended its access, or halted the machine. -/
theorem GicOp.exec_cases {m m' : GicMachine cfg} {op : GicOp cfg} (hexec : op.exec m = some m') :
    (∃ s s', m = .running s ∧ op.access s = .ok s' ∧ m' = .running s') ∨ m' = .halted := by
  cases m with
  | halted => exact .inr (Option.some.inj hexec).symm
  | running s =>
    have hexec : GicMachine.after (op.access s) = some m' := hexec
    cases haccess : op.access s with
    | ok s' =>
      rw [haccess] at hexec
      exact .inl ⟨s, s', rfl, haccess, (Option.some.inj hexec).symm⟩
    | error stop =>
      rw [haccess] at hexec
      cases stop with
      | hwError => exact .inr (Option.some.inj hexec).symm
      | fault => cases hexec
      | endless => cases hexec

theorem GicOp.exec_settled {m m' : GicMachine cfg} (h : m.Settled) {op : GicOp cfg}
    (hop : op.InOrder m) (hexec : op.exec m = some m') : m'.Settled := by
  obtain ⟨s, s', rfl, haccess, rfl⟩ | rfl := GicOp.exec_cases hexec
  · have hends := GicOp.access_settled (s := s) h hop
    rw [haccess] at hends
    cases hends with
    | ok hs' => exact hs'
  · exact trivial

/-- **The lines of the CPUs.**  In a run that never enables or disables an interface behind one that
    is disabled, the line of each CPU is high exactly if an interrupt within the mask comes in front
    of the running one, and the pending interrupt is the one that comes first. -/
theorem gic_lines (cfg : GicConfig) (ops : List (GicOp cfg)) (m : GicMachine cfg)
    (hops : StepsMeet GicOp.exec GicOp.InOrder (.start cfg) ops)
    (hrun : runFrom GicOp.exec (.start cfg) ops = some m) : m.Right := by
  have hsettled : m.Settled :=
    runFrom_preserves (I := GicMachine.Settled) (s := .start cfg) (fun _ _ _ hm hop hexec =>
      GicOp.exec_settled hm hop hexec) (gicReset_settled cfg) hops hrun
  exact hsettled.right

/-- A controller of two CPUs. -/
def twoCpus : GicConfig := ⟨2, 2, 32, by decide, by decide, by decide, by decide⟩

/-- The first of two CPUs. -/
def firstCpu : Fin twoCpus.numCpu := ⟨0, by decide⟩

/-- The second one. -/
def secondCpu : Fin twoCpus.numCpu := ⟨1, by decide⟩

/-- Both interfaces are enabled, then the distributor, and both CPUs are interrupted. -/
def bothCpus : List (GicOp twoCpus) :=
  [.cpuWrite firstCpu 0 1, .cpuWrite secondCpu 0 1, .distWrite firstCpu (.byte 0 1),
    .distWrite firstCpu (.word 0x3c0 0x30000)]

/-- Both CPUs are enabled, and each is told of its interrupt. -/
theorem gic_lines_both :
    ((runFrom GicOp.exec (.start twoCpus) bothCpus).get (by decide)).Right :=
  gic_lines twoCpus bothCpus _ (by decide) (Option.some_get _).symm

/-- Only the second interface is enabled, and its CPU is interrupted. -/
def secondOnly : List (GicOp twoCpus) :=
  [.cpuWrite secondCpu 0 1, .distWrite firstCpu (.byte 0 1),
    .distWrite firstCpu (.word 0x3c0 0x20000)]

/-- The line of the second CPU stays low if the first interface is disabled. -/
theorem gic_lines_second :
    ∃ m, runFrom GicOp.exec (.start twoCpus) secondOnly = some m ∧ ¬m.Right := by
  refine ⟨_, rfl, fun h => ?_⟩
  have hright : Gic.Right _ secondCpu := h secondCpu
  have hhigh := hright.line.mpr
    ⟨⟨0, by decide⟩, ⟨rfl, ⟨by decide, fun j _ => .inr ⟨?_, Nat.zero_le j⟩⟩, ?_⟩, ?_⟩
  · cases hhigh
  -- all priorities are zero
  · have hj : j.val < 32 := j.isLt
    unfold gicGetPriority
    rw [dif_pos hj, dif_pos (by decide)]
    rfl
  · decide
  · decide

end Qemu.Hw
