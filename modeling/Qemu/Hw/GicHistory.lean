import Qemu.Hw.GicSave

namespace Qemu.Hw

open Lib

/-!
# What the guest has written to the configuration of the interrupts

* `GicWritten` — the model and trigger bits that were written last for each interrupt;
* `Gic.Holds` — the state has them, and its numbers are small: every access keeps this;
* `gicReadConfig_spec` — what a read of the configuration returns, which is of other interrupts;
* `GicAct.exec` — accesses, and loading the controller's bytes into another one;
* `gic_saved` — when all is restored, and reads return what was written.
-/

variable {cfg : GicConfig}

/-- The model and trigger bits that were written last. -/
abbrev GicWritten (cfg : GicConfig) := Fin cfg.nirq → Option (Bool × Bool)

/-- The register with the configuration of an interrupt. -/
def gicConfigByte (irq : Fin cfg.nirq) : Nat := 0xc00 + irq / 4

/-- A byte is written to the distributor. -/
def gicWrittenByte (w : GicWritten cfg) (b : Nat × BitVec 8) : GicWritten cfg := fun irq =>
  if b.1 = gicConfigByte irq then
    some (b.2.getLsbD (irq % 4 * 2), b.2.getLsbD (irq % 4 * 2 + 1))
  else w irq

/-- The bytes of a halfword. -/
def gicHalfBytes (offset : Nat) (value : BitVec 16) : List (Nat × BitVec 8) :=
  [(offset, value.setWidth 8), (offset + 1, (value >>> 8).setWidth 8)]

/-- The bytes of a write, by their offsets. -/
def GicWrite.bytes : GicWrite → List (Nat × BitVec 8)
  | .byte offset value => [(offset, value)]
  | .half place value => gicHalfBytes (2 * place) value
  | .word place value =>
    gicHalfBytes (4 * place) (value.setWidth 16) ++
      gicHalfBytes (4 * place + 2) ((value >>> 16).setWidth 16)

/-- What an operation writes to the configuration registers. -/
def GicOp.written (w : GicWritten cfg) : GicOp cfg → GicWritten cfg
  | .distWrite _ access => access.bytes.foldl gicWrittenByte w
  | _ => w

/-- The model and trigger bits of an interrupt. -/
def Gic.config (s : Gic cfg) (irq : Fin cfg.nirq) : Bool × Bool :=
  ((s.irqState irq).model, (s.irqState irq).trigger)

/-- The state has what was written, and its numbers are small. -/
structure Gic.Holds (w : GicWritten cfg) (s : Gic cfg) : Prop where
  small : s.Small
  written : ∀ irq : Fin cfg.nirq, 32 ≤ irq.val → ∀ c ∈ w irq, s.config irq = c

/-! ### What keeps it -/

section

variable {w : GicWritten cfg} {s : Gic cfg}

theorem gicNumber_small {irq : Nat} (h : irq = 1023 ∨ irq < cfg.nirq) : irq < 1024 := by
  have := cfg.special
  omega

theorem gicPending_small {pending : Fin cfg.numCpu → Nat} (h : ∀ cpu, pending cpu < 1024)
    (c : Fin cfg.numCpu) {x : Nat} (hx : x < 1024) :
    ∀ cpu, Function.update pending c x cpu < 1024 := by
  intro cpu
  by_cases hc : cpu = c
  · rw [hc, Function.update_self]
    exact hx
  · rw [Function.update_of_ne hc]
    exact h cpu

/-- An update keeps that. -/
theorem gicUpdateLoop_small (l : List (Fin cfg.numCpu)) {s : Gic cfg}
    (h : ∀ cpu, s.currentPending cpu < 1024) (cpu : Fin cfg.numCpu) :
    (gicUpdateLoop l s).currentPending cpu < 1024 := by
  induction l generalizing s with
  | nil => exact h cpu
  | cons c l ih =>
    rw [gicUpdateLoop]
    by_cases hactive : s.active c = true
    · rw [if_pos hactive]
      refine ih (s := gicUpdateCpu s c) ?_
      rw [gicUpdateCpu]
      by_cases hmask : (gicBest s c).1 ≤ (s.priorityMask c).toNat
      · rw [if_pos hmask]
        refine gicPending_small h c (@gicNumber_small cfg _ ?_)
        obtain ⟨-, hbest⟩ | ⟨irq, -, hbest⟩ := gicBest_cases s c
        · exact .inl (congrArg Prod.snd hbest)
        · rw [hbest]
          exact .inr irq.isLt
      · rw [if_neg hmask]
        exact gicPending_small h c (by decide)
    · rw [if_neg hactive]
      exact gicPending_small h c (by decide) cpu

theorem Gic.Holds.update (h : s.Holds w) : (gicUpdate s).Holds w := by
  have hpending := gicUpdateLoop_small (List.finRange cfg.numCpu) h.small.currentPending
  change ∀ cpu, (gicUpdate s).currentPending cpu < 1024 at hpending
  obtain ⟨pending, line, heq⟩ := gicUpdate_eq s
  rw [heq] at hpending ⊢
  exact ⟨⟨h.small.lastActive, h.small.runningIrq, h.small.runningPriority, hpending⟩, h.written⟩

/-- A change of the state of an interrupt but for its configuration. -/
theorem Gic.Holds.withIrq (h : s.Holds w) (irq : Fin cfg.nirq)
    {f : GicIrqState cfg.ncpu → GicIrqState cfg.ncpu}
    (hf : ∀ st, (f st).model = st.model ∧ (f st).trigger = st.trigger) :
    (s.withIrq irq f).Holds w := by
  refine ⟨⟨h.small.lastActive, h.small.runningIrq, h.small.runningPriority,
    h.small.currentPending⟩, fun k hk c hc => ?_⟩
  rw [← h.written k hk c hc]
  show ((Function.update s.irqState irq _ k).model,
    (Function.update s.irqState irq _ k).trigger) = _
  by_cases hirq : k = irq
  · rw [hirq, Function.update_self, (hf _).1, (hf _).2]
    rfl
  · rw [Function.update_of_ne hirq]
    rfl

theorem gicSetPending_config (mask : BitVec cfg.ncpu) (st : GicIrqState cfg.ncpu) :
    (gicSetPending mask st).model = st.model ∧ (gicSetPending mask st).trigger = st.trigger :=
  ⟨rfl, rfl⟩

theorem gicClearPending_config (mask : BitVec cfg.ncpu) (st : GicIrqState cfg.ncpu) :
    (gicClearPending mask st).model = st.model ∧ (gicClearPending mask st).trigger = st.trigger :=
  ⟨rfl, rfl⟩

theorem gicEnableIrq_config (mask : BitVec cfg.ncpu) (st : GicIrqState cfg.ncpu) :
    (gicEnableIrq mask st).model = st.model ∧ (gicEnableIrq mask st).trigger = st.trigger := by
  unfold gicEnableIrq
  dsimp only
  split_ifs <;> exact ⟨rfl, rfl⟩

theorem Gic.Holds.link (h : s.Holds w) (irq : Fin cfg.nirq) (cpu : Fin cfg.numCpu) {x : Nat}
    (hx : x < 1024) : (s.link irq cpu x).Holds w := by
  refine ⟨⟨fun k c => ?_, h.small.runningIrq, h.small.runningPriority,
    h.small.currentPending⟩, h.written⟩
  show Function.update s.lastActive irq _ k c < 1024
  by_cases hk : k = irq
  · rw [hk, Function.update_self]
    exact gicPending_small (h.small.lastActive irq) cpu hx c
  · rw [Function.update_of_ne hk]
    exact h.small.lastActive k c

theorem gicSetRunningIrq_holds (h : s.Holds w) (cpu : Fin cfg.numCpu) (irq : Nat) :
    GicReturns (Gic.Holds w) (gicSetRunningIrq s cpu irq) := by
  have hpriority : GicReturns (fun p => p < 1024 ∧ irq < 1024) (gicRunningPriority s cpu irq) := by
    refine Ends.ite (fun hnone => .ok ⟨by decide, by omega⟩) fun _ => ?_
    refine (gicIndex_inside (.inr trivial)).map fun k hk => ⟨?_, ?_⟩
    · exact (gicGetPriority s k cpu).isLt.trans (by decide)
    · exact gicNumber_small (.inr (hk ▸ k.isLt))
  refine hpriority.map fun p hp => Gic.Holds.update ⟨⟨h.small.lastActive, ?_, ?_,
    h.small.currentPending⟩, h.written⟩
  · exact gicPending_small h.small.runningIrq cpu hp.2
  · exact gicPending_small h.small.runningPriority cpu hp.1

theorem gicSetPendingPrivate_holds (h : s.Holds w) (cpu : Fin cfg.numCpu) (irq : Nat) :
    GicReturns (Gic.Holds w) (gicSetPendingPrivate s cpu irq) := by
  refine gicIndex_ends (.inr trivial) fun irq _ => ?_
  exact Ends.ite (fun _ => .ok h) fun _ => .ok (h.withIrq irq (gicSetPending_config _)).update

theorem gicSetIrq_holds (h : s.Holds w) (irq : Nat) (level : Int) :
    GicReturns (Gic.Holds w) (gicSetIrq s irq level) := by
  refine gicIndex_ends (.inr trivial) fun irq _ => ?_
  refine Ends.ite (fun _ => .ok h) fun _ => ?_
  have hlower := h.withIrq irq
    (f := fun st => { st with level := st.level &&& ~~~BitVec.allOnes cfg.ncpu })
    fun _ => ⟨rfl, rfl⟩
  refine Ends.ite (fun _ => ?_) fun _ => .ok hlower.update
  have hlevel := h.withIrq irq (f := fun st => { st with level := BitVec.allOnes cfg.ncpu })
    fun _ => ⟨rfl, rfl⟩
  exact Ends.ite (fun _ => .ok (hlevel.withIrq irq (gicSetPending_config _)).update)
    fun _ => .ok hlevel.update

theorem gicAcknowledgeIrq_holds (h : s.Holds w) (cpu : Fin cfg.numCpu) :
    GicReturns (fun r => r.1.Holds w) (gicAcknowledgeIrq s cpu) := by
  refine Ends.ite (fun _ => .ok h) fun _ => ?_
  refine gicIndex_ends (.inr trivial) fun irq _ => ?_
  refine Ends.ite (fun _ => .ok h) fun _ => ?_
  have hlink := h.link irq cpu (h.small.runningIrq cpu)
  exact (gicSetRunningIrq_holds (hlink.withIrq irq (gicClearPending_config _)) cpu irq).bind
    fun _ hs' => .ok hs'

theorem gicUnlink_holds (h : s.Holds w) (cpu : Fin cfg.numCpu) (irq fuel tmp : Nat) :
    GicReturns (Gic.Holds w) (gicUnlink s cpu irq fuel tmp) := by
  induction fuel generalizing tmp with
  | zero => exact .error trivial
  | succ fuel ih =>
    refine gicIndex_ends (.inr trivial) fun k _ => ?_
    refine Ends.ite (fun _ => .ok h) fun _ => ?_
    refine Ends.ite (fun _ => ?_) fun _ => ih _
    exact gicIndex_ends (.inr trivial) fun irq _ => .ok (h.link k cpu (h.small.lastActive irq cpu))

theorem gicReraise_holds (h : s.Holds w) (cpu : Fin cfg.numCpu) (irq : Nat) :
    GicReturns (fun r => r.1.Holds w) (gicReraise s cpu irq) := by
  refine Ends.ite (fun _ => .ok h) fun _ => ?_
  refine gicIndex_ends (.inr trivial) fun irq _ => ?_
  exact Ends.ite (fun _ => .ok (h.withIrq irq (gicSetPending_config _))) fun _ => .ok h

theorem gicCompleteIrq_holds (h : s.Holds w) (cpu : Fin cfg.numCpu) (irq : Nat) :
    GicReturns (Gic.Holds w) (gicCompleteIrq s cpu irq) := by
  refine Ends.ite (fun _ => .ok h) fun _ => ?_
  refine (gicReraise_holds h cpu irq).bind ?_
  rintro ⟨s₁, update⟩ h₁
  refine Ends.ite (fun _ => ?_) fun _ => ?_
  · refine (gicUnlink_holds h₁ cpu irq _ _).bind fun s₂ h₂ => .ok ?_
    by_cases hupdate : update = true
    · rw [if_pos hupdate]
      exact h₂.update
    · rw [if_neg hupdate]
      exact h₂
  · refine gicIndex_ends (.inr trivial) fun k _ => ?_
    exact gicSetRunningIrq_holds h₁ cpu _

theorem gicSoftInt_holds (h : s.Holds w) (cpu : Fin cfg.numCpu) (value : BitVec 32) :
    GicReturns (Gic.Holds w) (gicSoftInt s cpu value) :=
  gicIndex_ends (.inr trivial) fun irq _ =>
    .ok (h.withIrq irq (gicSetPending_config _)).update

theorem gicCpuRead_holds (h : s.Holds w) (cpu : Fin cfg.numCpu) (offset : Nat) :
    GicReturns (fun r => r.1.Holds w) (gicCpuRead s cpu offset) := by
  unfold gicCpuRead
  split
  · exact .ok h
  · exact .ok h
  · exact .ok h
  · exact gicAcknowledgeIrq_holds h cpu
  · exact .ok h
  · exact .ok h
  · exact .error trivial

theorem gicCpuWrite_holds (h : s.Holds w) (cpu : Fin cfg.numCpu) (offset : Nat)
    (value : BitVec 32) : GicReturns (Gic.Holds w) (gicCpuWrite s cpu offset value) := by
  have hsmall := h.small
  unfold gicCpuWrite
  split
  · exact .ok (Gic.Holds.update ⟨⟨hsmall.lastActive, hsmall.runningIrq, hsmall.runningPriority,
      hsmall.currentPending⟩, h.written⟩)
  · exact .ok (Gic.Holds.update ⟨⟨hsmall.lastActive, hsmall.runningIrq, hsmall.runningPriority,
      hsmall.currentPending⟩, h.written⟩)
  · exact .ok h.update
  · exact gicCompleteIrq_holds h cpu _
  · exact .error trivial

/-! ### Writes to the distributor -/

theorem gicWriteBits_holds (h : s.Holds w) (n irq : Nat) (select : Nat → Bool)
    {f : Nat → GicIrqState cfg.ncpu → GicIrqState cfg.ncpu}
    (hf : ∀ i st, (f i st).model = st.model ∧ (f i st).trigger = st.trigger) :
    GicReturns (Gic.Holds w) (gicWriteBits s n irq select f) := by
  refine Ends.foldlM (fun s₁ i _ hs₁ => ?_) h
  refine Ends.ite (fun _ => ?_) fun _ => .ok hs₁
  exact (gicIndex_inside (.inr trivial)).map fun k _ => hs₁.withIrq k (hf i)

/-- The loop over the interrupts of a configuration register, up to some of them. -/
theorem gicSetConfig_loop (h : s.Small) (n irq : Nat) (model trigger : Nat → Bool) :
    GicReturns (fun s₁ => s₁.Small ∧ ∀ k : Fin cfg.nirq, s₁.config k =
        if irq ≤ k.val ∧ k.val < irq + n then (model (k - irq), trigger (k - irq)) else s.config k)
      (gicWriteBits s n irq (fun _ => true) fun i st =>
        { st with model := model i, trigger := trigger i }) := by
  induction n with
  | zero => exact .ok ⟨h, fun k => (if_neg (by omega)).symm⟩
  | succ n ih =>
    unfold gicWriteBits at ih ⊢
    rw [List.range_succ, List.foldlM_append]
    refine ih.bind fun s₁ h₁ => ?_
    rw [List.foldlM_cons, if_pos rfl]
    refine ((gicIndex_inside (.inr trivial)).map fun k hk => ?_).bind fun s₂ hs₂ => .ok hs₂
    obtain ⟨hsmall, hconfig⟩ := h₁
    refine ⟨⟨hsmall.lastActive, hsmall.runningIrq, hsmall.runningPriority,
      hsmall.currentPending⟩, fun j => ?_⟩
    show ((Function.update s₁.irqState k _ j).model,
      (Function.update s₁.irqState k _ j).trigger) = _
    by_cases hj : j = k
    · rw [hj, Function.update_self, if_pos (by omega)]
      show (model n, trigger n) = _
      rw [hk, Nat.add_sub_cancel_left]
    · have hval : j.val ≠ irq + n := fun heq => hj (Fin.ext (heq.trans hk.symm))
      rw [Function.update_of_ne hj]
      refine (hconfig j).trans ?_
      by_cases hin : irq ≤ j.val ∧ j.val < irq + n
      · rw [if_pos hin, if_pos ⟨hin.1, by omega⟩]
      · rw [if_neg hin, if_neg (by omega)]

/-- A write to a configuration register is remembered. -/
theorem gicSetConfig_holds (h : s.Holds w) (k : Nat) (value : BitVec 8) :
    GicReturns (Gic.Holds (gicWrittenByte w (0xc00 + k, value)))
      (gicSetConfig s (k * 4) value) := by
  refine (gicSetConfig_loop h.small 4 (k * 4) _ _).mono ?_ fun _ _ => trivial
  rintro s₁ ⟨hsmall, hconfig⟩
  refine ⟨hsmall, fun irq hirq c hc => ?_⟩
  rw [hconfig irq]
  unfold gicWrittenByte gicConfigByte at hc
  by_cases hk : k = irq.val / 4
  -- the register is of interrupts behind the internal ones, and the value is not changed
  · rw [if_pos (by omega)] at hc
    obtain rfl := Option.some.inj hc
    rw [if_pos (by omega), if_neg (show ¬k * 4 < 32 by omega),
      show irq.val - k * 4 = irq.val % 4 by omega]
  · rw [if_neg (by omega)] at hc
    rw [if_neg (by omega)]
    exact h.written irq hirq c hc

theorem gicBlock_returns {α : Type} {Q : α → Prop} {irq : Nat} {next : Except GicStop α}
    (h : GicReturns Q next) : GicReturns Q (gicBlock cfg irq next) :=
  Ends.ite (fun _ => .error trivial) fun _ => h

theorem gicWrittenByte_of_ne {b : Nat × BitVec 8} (h : b.1 < 0xc00 ∨ 0xd00 ≤ b.1) :
    gicWrittenByte w b = w := by
  funext irq
  have hirq := Nat.lt_of_lt_of_le irq.isLt cfg.special
  exact if_neg (by unfold gicConfigByte; omega)

/-- A write to any register of the distributor. -/
theorem gicDistSet_holds (h : s.Holds w) (cpu : Fin cfg.numCpu) (offset : Nat) (value : BitVec 8) :
    GicReturns (Gic.Holds (gicWrittenByte w (offset, value))) (gicDistSet s cpu offset value) := by
  unfold gicDistSet
  have hsmall := h.small
  -- by the blocks of registers; only the configuration is below
  by_cases hfront : offset < 0xc00
  · rw [gicWrittenByte_of_ne (.inl hfront)]
    apply Ends.ite (fun _ => ?_) (fun _ => ?_)
    · apply Ends.ite (fun _ => ?_) (fun _ => ?_)
      · exact .ok ⟨⟨hsmall.lastActive, hsmall.runningIrq, hsmall.runningPriority,
          hsmall.currentPending⟩, h.written⟩
      · exact Ends.ite (fun _ => .ok h) fun _ => .error trivial
    apply Ends.ite (fun _ => ?_) (fun _ => ?_)
    · refine gicBlock_returns (gicIndex_ends (.inr trivial) fun k _ => ?_)
      exact gicWriteBits_holds h 8 _ _ fun _ => gicEnableIrq_config _
    apply Ends.ite (fun _ => ?_) (fun _ => ?_)
    · exact gicBlock_returns (gicWriteBits_holds h 8 _ _ fun _ _ => ⟨rfl, rfl⟩)
    apply Ends.ite (fun _ => ?_) (fun _ => ?_)
    · refine gicBlock_returns (gicIndex_ends (.inr trivial) fun k _ => ?_)
      exact gicWriteBits_holds h 8 _ _ fun _ => gicSetPending_config _
    apply Ends.ite (fun _ => ?_) (fun _ => ?_)
    · exact gicBlock_returns (gicWriteBits_holds h 8 _ _ fun _ => gicClearPending_config _)
    refine Ends.ite (fun _ => .error trivial) fun _ => ?_
    apply Ends.ite (fun _ => ?_) (fun _ => ?_)
    · refine gicBlock_returns ?_
      unfold gicSetPriority
      split_ifs
      · exact .ok ⟨⟨hsmall.lastActive, hsmall.runningIrq, hsmall.runningPriority,
          hsmall.currentPending⟩, h.written⟩
      · exact .ok ⟨⟨hsmall.lastActive, hsmall.runningIrq, hsmall.runningPriority,
          hsmall.currentPending⟩, h.written⟩
      · exact .error trivial
    rw [if_pos hfront]
    refine gicBlock_returns ((gicIndex_inside (.inr trivial)).map fun k _ => ?_)
    exact ⟨⟨hsmall.lastActive, hsmall.runningIrq, hsmall.runningPriority,
      hsmall.currentPending⟩, h.written⟩
  · iterate 8 rw [if_neg (by omega)]
    refine Ends.ite (fun _ => gicBlock_returns ?_) fun _ => .error trivial
    have hconfig := gicSetConfig_holds h (offset - 0xc00) value
    rwa [Nat.add_sub_of_le (Nat.le_of_not_lt hfront)] at hconfig

theorem gicDistWriteb_holds (h : s.Holds w) (cpu : Fin cfg.numCpu) (offset : Nat)
    (value : BitVec 8) : GicReturns (Gic.Holds (gicWrittenByte w (offset, value)))
      (gicDistWriteb s cpu offset value) :=
  (gicDistSet_holds h cpu offset value).map fun _ h₁ => h₁.update

theorem gicDistWritew_holds (h : s.Holds w) (cpu : Fin cfg.numCpu) (offset : Nat)
    (value : BitVec 16) :
    GicReturns (Gic.Holds ((gicHalfBytes offset value).foldl gicWrittenByte w))
      (gicDistWritew s cpu offset value) :=
  (gicDistWriteb_holds h cpu offset _).bind fun _ h₁ => gicDistWriteb_holds h₁ cpu _ _

theorem gicWritten_softInt (value : BitVec 32) :
    (GicWrite.bytes (.word ⟨0x3c0, by decide⟩ value)).foldl gicWrittenByte w = w := by
  have hout : ∀ n v, gicWrittenByte w (0xf00 + n, v) = w := fun n v =>
    gicWrittenByte_of_ne (.inr (Nat.le_trans (by decide) (Nat.le_add_right 0xf00 n)))
  show gicWrittenByte (gicWrittenByte (gicWrittenByte (gicWrittenByte w (0xf00 + 0, _))
    (0xf00 + 1, _)) (0xf00 + 2, _)) (0xf00 + 3, _) = w
  rw [hout, hout, hout, hout]

/-- Every operation keeps what was written, with what it writes itself. -/
theorem GicOp.access_holds (h : s.Holds w) (op : GicOp cfg) :
    GicReturns (Gic.Holds (op.written w)) (op.access s) := by
  cases op with
  | setIrq irq level => exact gicSetIrq_holds h _ level
  | timer cpu watchdog => exact gicSetPendingPrivate_holds h cpu _
  | distRead cpu access => exact (Ends.any (access.access s cpu)).map fun _ _ => h
  | distWrite cpu access =>
    cases access with
    | byte offset value => exact gicDistWriteb_holds h cpu _ value
    | half place value => exact gicDistWritew_holds h cpu _ value
    | word place value =>
      by_cases hsoft : 4 * place.val = 0xf00
      · have hplace : place = ⟨0x3c0, by decide⟩ := Fin.ext (show place.val = 0x3c0 by omega)
        subst hplace
        have hwritten : (GicOp.distWrite cpu (.word ⟨0x3c0, by decide⟩ value)).written w = w :=
          gicWritten_softInt value
        rw [hwritten]
        exact gicSoftInt_holds h cpu value
      · have hbytes : (GicOp.distWrite cpu (.word place value)).written w =
            (gicHalfBytes (4 * place + 2) ((value >>> 16).setWidth 16)).foldl gicWrittenByte
              ((gicHalfBytes (4 * place) (value.setWidth 16)).foldl gicWrittenByte w) :=
          List.foldl_append
        rw [hbytes]
        refine Ends.ite (fun hf => absurd hf hsoft) fun _ => ?_
        exact (gicDistWritew_holds h cpu _ _).bind fun _ h₁ => gicDistWritew_holds h₁ cpu _ _
  | cpuRead cpu offset => exact (gicCpuRead_holds h cpu offset).map fun _ h₁ => h₁
  | cpuWrite cpu offset value => exact gicCpuWrite_holds h cpu offset value

end

/-! ### Reads of the configuration -/

/-- A read returns these bytes, each a function from bits. -/
def GicReadsTo (r : Except GicStop (BitVec 32)) (n : Nat) (byte : Nat → Nat → Bool) : Prop :=
  ∃ v, r = .ok v ∧ ∀ b, v.getLsbD b = (decide (b < 8 * n) && byte (b / 8) (b % 8))

/-- Bytes behind each other. -/
theorem GicReadsTo.append {low high : Except GicStop (BitVec 32)} {m n : Nat}
    {byte : Nat → Nat → Bool} (hmn : 8 * (m + n) ≤ 32) (hlow : GicReadsTo low m byte)
    (hhigh : GicReadsTo high n fun q => byte (m + q)) :
    GicReadsTo (do
      let l ← low
      let h ← high
      return l ||| h <<< (8 * m)) (m + n) byte := by
  obtain ⟨l, rfl, hl⟩ := hlow
  obtain ⟨h, rfl, hh⟩ := hhigh
  refine ⟨l ||| h <<< (8 * m), rfl, fun b => ?_⟩
  rw [BitVec.getLsbD_or, BitVec.getLsbD_shiftLeft, hl, hh]
  by_cases hb : b < 8 * m
  · simp [hb, show b < 8 * (m + n) by omega]
  · have hdiv : m + (b - 8 * m) / 8 = b / 8 := by omega
    have hmod : (b - 8 * m) % 8 = b % 8 := by omega
    have hlt : (b - 8 * m < 8 * n) ↔ b < 8 * (m + n) := by omega
    by_cases hin : b < 8 * (m + n)
    · simp [hb, hdiv, hmod, hlt, hin, show b < 32 by omega]
    · simp [hb, hlt, hin]

/-- A loop of `gic_dist_readb` inside of the arrays. -/
theorem gicReadBits_spec (n irq : Nat) (h : irq + n ≤ cfg.nirq)
    (bits : Nat → Fin cfg.nirq → BitVec 32) :
    ∃ v, gicReadBits n irq bits = .ok v ∧ ∀ b, v.getLsbD b = true ↔
      ∃ i, ∃ hi : i < n, (bits i ⟨irq + i, by omega⟩).getLsbD b = true := by
  unfold gicReadBits
  induction n with
  | zero => exact ⟨0, rfl, fun b => by simp⟩
  | succ n ih =>
    obtain ⟨v, hv, hbits⟩ := ih (by omega)
    refine ⟨v ||| bits n ⟨irq + n, by omega⟩, ?_, fun b => ?_⟩
    · rw [List.range_succ, List.foldlM_append, hv, ok_bind, List.foldlM_cons,
        gicIndex_of_lt (by omega)]
      rfl
    · rw [BitVec.getLsbD_or, Bool.or_eq_true, hbits]
      constructor
      · rintro (⟨i, hi, hbit⟩ | hbit)
        · exact ⟨i, Nat.lt_succ_of_lt hi, hbit⟩
        · exact ⟨n, Nat.lt_succ_self n, hbit⟩
      · rintro ⟨i, hi, hbit⟩
        rcases Nat.lt_succ_iff_lt_or_eq.mp hi with hlt | rfl
        · exact .inl ⟨i, hlt, hbit⟩
        · exact .inr hbit

/-- A bit of a configuration register as it is read. -/
def Gic.configBit (s : Gic cfg) (k b : Nat) : Bool :=
  if h : k * 2 + b / 2 < cfg.nirq then
    if b % 2 = 0 then (s.config ⟨k * 2 + b / 2, h⟩).1 else (s.config ⟨k * 2 + b / 2, h⟩).2
  else false

/-- The bits of one interrupt. -/
theorem gicConfig_bits (model trigger : Bool) {i : Nat} (hi : i < 4) (b : Nat) :
    ((if model = true then BitVec.twoPow 32 (i * 2) else 0) |||
      (if trigger = true then BitVec.twoPow 32 (i * 2 + 1) else 0)).getLsbD b = true ↔
        b = i * 2 ∧ model = true ∨ b = i * 2 + 1 ∧ trigger = true := by
  rw [BitVec.getLsbD_or, Bool.or_eq_true]
  refine or_congr ?_ ?_
  · cases model with
    | true =>
      rw [if_pos rfl, BitVec.getLsbD_twoPow, Bool.and_eq_true, decide_eq_true_iff,
        decide_eq_true_iff]
      exact ⟨fun h => ⟨h.2.symm, rfl⟩, fun h => ⟨by omega, h.1.symm⟩⟩
    | false => simp
  · cases trigger with
    | true =>
      rw [if_pos rfl, BitVec.getLsbD_twoPow, Bool.and_eq_true, decide_eq_true_iff,
        decide_eq_true_iff]
      exact ⟨fun h => ⟨h.2.symm, rfl⟩, fun h => ⟨by omega, h.1.symm⟩⟩
    | false => simp

/-- A read of a configuration register gives its bits. -/
theorem gicReadConfig_spec (s : Gic cfg) {k : Nat} (h : k * 2 + 4 ≤ cfg.nirq) :
    GicReadsTo (gicReadConfig s (k * 2)) 1 fun q b => s.configBit (k + q) b := by
  obtain ⟨v, hv, hbits⟩ := gicReadBits_spec 4 (k * 2) h fun i irq =>
    (if (s.irqState irq).model then BitVec.twoPow 32 (i * 2) else 0) |||
      (if (s.irqState irq).trigger then BitVec.twoPow 32 (i * 2 + 1) else 0)
  refine ⟨v, hv, fun b => Bool.eq_iff_iff.mpr ?_⟩
  rw [hbits, Bool.and_eq_true, decide_eq_true_iff]
  -- one of the four interrupts
  have hone : ∀ i (hi : i < 4), ((if (s.irqState ⟨k * 2 + i, by omega⟩).model = true then
      BitVec.twoPow 32 (i * 2) else 0) ||| (if (s.irqState ⟨k * 2 + i, by omega⟩).trigger = true
      then BitVec.twoPow 32 (i * 2 + 1) else 0)).getLsbD b = true ↔
        b / 2 = i ∧ s.configBit k b = true := by
    intro i hi
    rw [gicConfig_bits _ _ hi]
    unfold Gic.configBit Gic.config
    by_cases hb : b / 2 = i
    · subst hb
      rw [dif_pos (by omega)]
      by_cases heven : b % 2 = 0
      · rw [if_pos heven]
        exact ⟨fun hor => ⟨rfl, hor.elim And.right fun hodd => absurd hodd.1 (by omega)⟩,
          fun hmodel => .inl ⟨by omega, hmodel.2⟩⟩
      · rw [if_neg heven]
        exact ⟨fun hor => ⟨rfl, hor.elim (fun hmodel => absurd hmodel.1 (by omega)) And.right⟩,
          fun htrigger => .inr ⟨by omega, htrigger.2⟩⟩
    · exact ⟨fun hor => absurd (hor.elim (fun hm => by omega) fun ht => by omega) hb,
        fun hbit => absurd hbit.1 hb⟩
  constructor
  · rintro ⟨i, hi, hbit⟩
    obtain ⟨rfl, hconfig⟩ := (hone i hi).mp hbit
    have hb : b < 8 := by omega
    rw [Nat.div_eq_of_lt hb, Nat.mod_eq_of_lt hb]
    exact ⟨hb, hconfig⟩
  · rintro ⟨hb, hconfig⟩
    rw [Nat.div_eq_of_lt hb, Nat.mod_eq_of_lt hb] at hconfig
    exact ⟨b / 2, by omega, (hone _ (by omega)).mpr ⟨rfl, hconfig⟩⟩

theorem gicDistReadb_config (s : Gic cfg) (cpu : Fin cfg.numCpu) {k : Nat}
    (h : k * 2 + 4 ≤ cfg.nirq) :
    GicReadsTo (gicDistReadb s cpu (0xc00 + k)) 1 fun q b => s.configBit (k + q) b := by
  have hspecial := cfg.special
  unfold gicDistReadb gicBlock
  rw [Nat.add_sub_cancel_left]
  iterate 8 rw [if_neg (by omega)]
  rw [if_pos (by omega), if_neg (by omega)]
  exact gicReadConfig_spec s h

theorem gicDistReadw_config (s : Gic cfg) (cpu : Fin cfg.numCpu) {k : Nat}
    (h : k * 2 + 6 ≤ cfg.nirq) :
    GicReadsTo (gicDistReadw s cpu (0xc00 + k)) 2 fun q b => s.configBit (k + q) b :=
  GicReadsTo.append (m := 1) (n := 1) (by decide) (gicDistReadb_config s cpu (by omega)) <| by
    simpa only [Nat.add_assoc] using gicDistReadb_config s cpu (k := k + 1) (by omega)

theorem gicDistReadl_config (s : Gic cfg) (cpu : Fin cfg.numCpu) {k : Nat}
    (h : k * 2 + 10 ≤ cfg.nirq) :
    GicReadsTo (gicDistReadl s cpu (0xc00 + k)) 4 fun q b => s.configBit (k + q) b :=
  GicReadsTo.append (m := 2) (n := 2) (by decide) (gicDistReadw_config s cpu (by omega)) <| by
    simpa only [Nat.add_assoc] using gicDistReadw_config s cpu (k := k + 2) (by omega)

/-- The first byte that is read, and how many are. -/
def GicRead.first : GicRead → Nat
  | .byte offset => offset
  | .half place => 2 * place
  | .word place => 4 * place

/-- How many bytes a read has. -/
def GicRead.size : GicRead → Nat
  | .byte _ => 1
  | .half _ => 2
  | .word _ => 4

/-- A read of the configuration of an interrupt. -/
structure GicRead.IsConfig (access : GicRead) (irq : Fin cfg.nirq) : Prop where
  first : access.first ≤ gicConfigByte irq
  last : gicConfigByte irq < access.first + access.size

/-- Every read of the configuration of an interrupt behind the internal ones returns the bits that
    were written last for it. -/
def Gic.ReadsWritten (w : GicWritten cfg) (s : Gic cfg) : Prop :=
  ∀ (cpu : Fin cfg.numCpu) (access : GicRead) (irq : Fin cfg.nirq), 32 ≤ irq.val →
    access.IsConfig irq → ∀ c ∈ w irq, ∃ v, access.access s cpu = .ok v ∧
      (v.getLsbD (8 * (gicConfigByte irq - access.first) + irq % 4 * 2),
        v.getLsbD (8 * (gicConfigByte irq - access.first) + irq % 4 * 2 + 1)) = c

/-- The interrupt whose bits are in the place of another one's. -/
def gicReadFor (irq : Fin cfg.nirq) : Fin cfg.nirq :=
  ⟨irq / 4 * 2 + irq % 4, Nat.lt_of_le_of_lt (by omega) irq.isLt⟩

/-- The interrupts have the bits of those in whose place they are read. -/
def Gic.ConfigAgrees (w : GicWritten cfg) (s : Gic cfg) : Prop :=
  ∀ irq : Fin cfg.nirq, 32 ≤ irq.val → (w irq).isSome = true →
    s.config (gicReadFor irq) = s.config irq

/-- What is read in the place of an interrupt. -/
theorem GicReadsTo.config {s : Gic cfg} {r : Except GicStop (BitVec 32)} {n k q : Nat}
    (h : GicReadsTo r n fun q b => s.configBit (k + q) b) (hq : q < n) {irq : Fin cfg.nirq}
    (hirq : irq.val / 4 = k + q) : ∃ v, r = .ok v ∧
      (v.getLsbD (8 * q + irq % 4 * 2), v.getLsbD (8 * q + irq % 4 * 2 + 1)) =
        s.config (gicReadFor irq) := by
  obtain ⟨v, hv, hbits⟩ := h
  refine ⟨v, hv, ?_⟩
  have hlt : (k + q) * 2 + irq.val % 4 < cfg.nirq := by
    have := irq.isLt
    omega
  have hplace : gicReadFor irq = ⟨(k + q) * 2 + irq.val % 4, hlt⟩ :=
    Fin.ext (congrArg (· * 2 + irq.val % 4) hirq)
  have hdiv : ∀ b < 8, (8 * q + b) / 8 = q ∧ (8 * q + b) % 8 = b := by omega
  have hbits : ∀ b, v.getLsbD b = (decide (b < 8 * n) && s.configBit (k + b / 8) (b % 8)) := hbits
  have hmodel := hbits (8 * q + irq.val % 4 * 2)
  have htrigger := hbits (8 * q + (irq.val % 4 * 2 + 1))
  rw [(hdiv _ (by omega)).1, (hdiv _ (by omega)).2, decide_eq_true (by omega), Bool.true_and]
    at hmodel htrigger
  unfold Gic.configBit at hmodel htrigger
  have hindex : ∀ b, b / 2 = irq.val % 4 → ∀ h' : (k + q) * 2 + b / 2 < cfg.nirq,
      (⟨(k + q) * 2 + b / 2, h'⟩ : Fin cfg.nirq) = gicReadFor irq := by
    intro b hb h'
    rw [hplace]
    exact Fin.ext (congrArg ((k + q) * 2 + ·) hb)
  rw [dif_pos (by omega), if_pos (by omega), hindex _ (by omega)] at hmodel
  rw [dif_pos (by omega), if_neg (by omega), hindex _ (by omega)] at htrigger
  exact Prod.ext hmodel htrigger

/-- A read of the configuration of an interrupt gives that of the one it is confused with. -/
theorem GicRead.access_config (s : Gic cfg) (cpu : Fin cfg.numCpu) {access : GicRead}
    {irq : Fin cfg.nirq} (hirq : 32 ≤ irq.val) (h : access.IsConfig irq) :
    ∃ v, access.access s cpu = .ok v ∧
      (v.getLsbD (8 * (gicConfigByte irq - access.first) + irq % 4 * 2),
        v.getLsbD (8 * (gicConfigByte irq - access.first) + irq % 4 * 2 + 1)) =
          s.config (gicReadFor irq) := by
  obtain ⟨hfirst, hlast⟩ := h
  have hblocks := cfg.blocks
  have hlt := irq.isLt
  unfold gicConfigByte at hfirst hlast ⊢
  -- a read that is aligned does not begin in front of the configuration
  cases access with
  | byte offset =>
    obtain ⟨k, hk⟩ : ∃ k, offset.val = 0xc00 + k := ⟨offset - 0xc00, by
      simp only [GicRead.first, GicRead.size] at hfirst hlast
      omega⟩
    simp only [GicRead.first, GicRead.size, hk] at hfirst hlast
    simp only [GicRead.access, GicRead.first, hk, Nat.add_sub_add_left]
    exact (gicDistReadb_config s cpu (by omega)).config (by omega) (by omega)
  | half place =>
    obtain ⟨k, hk⟩ : ∃ k, 2 * place.val = 0xc00 + k := ⟨2 * place - 0xc00, by
      simp only [GicRead.first, GicRead.size] at hfirst hlast
      omega⟩
    simp only [GicRead.first, GicRead.size, hk] at hfirst hlast
    simp only [GicRead.access, GicRead.first, hk, Nat.add_sub_add_left]
    exact (gicDistReadw_config s cpu (by omega)).config (by omega) (by omega)
  | word place =>
    obtain ⟨k, hk⟩ : ∃ k, 4 * place.val = 0xc00 + k := ⟨4 * place - 0xc00, by
      simp only [GicRead.first, GicRead.size] at hfirst hlast
      omega⟩
    simp only [GicRead.first, GicRead.size, hk] at hfirst hlast
    simp only [GicRead.access, GicRead.first, hk, Nat.add_sub_add_left]
    exact (gicDistReadl_config s cpu (by omega)).config (by omega) (by omega)

/-! ### Runs -/

/-- The machine, and what the guest has written. -/
structure GicRun (cfg : GicBuild) where
  machine : GicMachine cfg.toGicConfig
  written : GicWritten cfg.toGicConfig

/-- An access or a change of a line, or the machine goes on in another controller. -/
inductive GicAct (cfg : GicBuild)
  | guest (op : GicOp cfg.toGicConfig)
  | load (into : Gic cfg.toGicConfig)

section

variable {cfg : GicBuild}

/-- After a reset, with nothing written. -/
def GicRun.start (cfg : GicBuild) : GicRun cfg := ⟨.start cfg.toGicConfig, fun _ => none⟩

/-- The bytes of the controller are loaded into another one. -/
def GicMachine.load (into : Gic cfg.toGicConfig) :
    GicMachine cfg.toGicConfig → Option (GicMachine cfg.toGicConfig)
  | .running s => (gicLoad into 1 (gicSave s)).map fun p => .running p.1
  | .halted => some .halted

/-- One step; what is written is noted. -/
def GicAct.exec (r : GicRun cfg) : GicAct cfg → Option (GicRun cfg)
  | .guest op => (op.exec r.machine).map fun m => ⟨m, op.written r.written⟩
  | .load into => (r.machine.load into).map fun m => ⟨m, r.written⟩

/-- All is restored in another controller, and reads return what was written. -/
def GicMachine.RightFor (w : GicWritten cfg.toGicConfig) (into : Gic cfg.toGicConfig) :
    GicMachine cfg.toGicConfig → Prop
  | .running s => into.Restores s ∧ s.ReadsWritten w
  | .halted => True

/-- A save restores the state, and reads give what was written. -/
def GicRun.Right (r : GicRun cfg) (into : Gic cfg.toGicConfig) : Prop :=
  r.machine.RightFor r.written into

/-- The targets agree that are not saved, and the configurations that are confused. -/
def GicMachine.AgreesFor (w : GicWritten cfg.toGicConfig) (into : Gic cfg.toGicConfig) :
    GicMachine cfg.toGicConfig → Prop
  | .running s => into.TargetsAgree s ∧ s.ConfigAgrees w
  | .halted => True

/-- The condition for it. -/
def GicRun.Agrees (r : GicRun cfg) (into : Gic cfg.toGicConfig) : Prop :=
  r.machine.AgreesFor r.written into

instance gicAgreesDecidable : ∀ (r : GicRun cfg) (into : Gic cfg.toGicConfig),
    Decidable (r.Agrees into)
  | ⟨.running s, w⟩, into => inferInstanceAs (Decidable
      ((∀ irq : Fin cfg.nirq, cfg.numCpu ≤ irq.val → into.irqTarget irq = s.irqTarget irq) ∧
        ∀ irq : Fin cfg.nirq, 32 ≤ irq.val → (w irq).isSome = true →
          s.config (gicReadFor irq) = s.config irq))
  | ⟨.halted, _⟩, _ => instDecidableTrue

/-- The state has what was written, unless the machine has stopped. -/
def GicMachine.HoldsFor (w : GicWritten cfg.toGicConfig) : GicMachine cfg.toGicConfig → Prop
  | .running s => s.Holds w
  | .halted => True

/-- The same of a run. -/
def GicRun.Holds (r : GicRun cfg) : Prop := r.machine.HoldsFor r.written

theorem gicReset_holds (cfg : GicConfig) : (gicReset cfg).Holds fun _ => none :=
  ⟨⟨fun _ _ => (by decide : 0 < 1024), fun _ => (by decide : 1023 < 1024),
    fun _ => (by decide : 0x100 < 1024), fun _ => (by decide : 1023 < 1024)⟩,
    fun _ _ _ hc => absurd hc.symm (Option.some_ne_none _)⟩

theorem Gic.Holds.loadedFrom {w : GicWritten cfg.toGicConfig} {s : Gic cfg.toGicConfig}
    (h : s.Holds w) (into : Gic cfg.toGicConfig) : (into.loadedFrom s).Holds w :=
  ⟨⟨h.small.lastActive, h.small.runningIrq, h.small.runningPriority, h.small.currentPending⟩,
    h.written⟩

theorem GicOp.exec_holds {m m' : GicMachine cfg.toGicConfig} {w : GicWritten cfg.toGicConfig}
    (h : m.HoldsFor w) {op : GicOp cfg.toGicConfig} (hexec : op.exec m = some m') :
    m'.HoldsFor (op.written w) := by
  obtain ⟨s, s', rfl, haccess, rfl⟩ | rfl := GicOp.exec_cases hexec
  · have hends := GicOp.access_holds h op
    rw [haccess] at hends
    cases hends with
    | ok hs' => exact hs'
  · exact trivial

theorem GicAct.exec_holds {r r' : GicRun cfg} (h : r.Holds) {act : GicAct cfg}
    (hexec : act.exec r = some r') : r'.Holds := by
  cases act with
  | guest op =>
    obtain ⟨m, hm, rfl⟩ := Option.map_eq_some_iff.mp hexec
    exact GicOp.exec_holds h hm
  | load into =>
    obtain ⟨m, hm, rfl⟩ := Option.map_eq_some_iff.mp hexec
    obtain ⟨machine, w⟩ := r
    cases machine with
    | halted =>
      obtain rfl := Option.some.inj hm
      exact trivial
    | running s =>
      have hs : s.Holds w := h
      have hm : (gicLoad into 1 (gicSave s)).map (fun p => GicMachine.running p.1) = some m := hm
      rw [gicLoad_gicSave into hs.small] at hm
      obtain rfl := Option.some.inj hm
      exact hs.loadedFrom into

theorem gicRun_holds {acts : List (GicAct cfg)} {r : GicRun cfg}
    (hrun : runFrom GicAct.exec (.start cfg) acts = some r) : r.Holds :=
  runFrom_keeps (I := GicRun.Holds) (s := .start cfg)
    (fun _ _ _ h hexec => GicAct.exec_holds h hexec) (gicReset_holds cfg.toGicConfig) hrun

/-- What is read is what was written if the configurations agree that are confused. -/
theorem gicReadsWritten_iff {w : GicWritten cfg.toGicConfig} {s : Gic cfg.toGicConfig}
    (h : s.Holds w) : s.ReadsWritten w ↔ s.ConfigAgrees w := by
  constructor
  · intro hreads irq hirq hw
    obtain ⟨c, hc⟩ := Option.isSome_iff_exists.mp hw
    -- a read of the byte itself
    have hoffset : gicConfigByte irq < 0x1000 := by
      have := Nat.lt_of_lt_of_le irq.isLt cfg.special
      unfold gicConfigByte
      omega
    have hbyte : GicRead.IsConfig (.byte ⟨gicConfigByte irq, hoffset⟩) irq :=
      ⟨Nat.le_refl _, Nat.lt_succ_self _⟩
    obtain ⟨v, hv, hbits⟩ := hreads ⟨0, cfg.cpu⟩ _ irq hirq hbyte c hc
    obtain ⟨v', hv', hbits'⟩ := GicRead.access_config s ⟨0, cfg.cpu⟩ hirq hbyte
    cases hv.symm.trans hv'
    rw [← hbits', hbits, h.written irq hirq c hc]
  · intro hagrees cpu access irq hirq haccess c hc
    obtain ⟨v, hv, hbits⟩ := GicRead.access_config s cpu hirq haccess
    have hsame := hagrees irq hirq (Option.isSome_iff_exists.mpr ⟨c, hc⟩)
    exact ⟨v, hv, hbits.trans (hsame.trans (h.written irq hirq c hc))⟩

theorem GicRun.right_iff {r : GicRun cfg} (h : r.Holds) (into : Gic cfg.toGicConfig) :
    r.Right into ↔ r.Agrees into := by
  obtain ⟨machine, w⟩ := r
  cases machine with
  | running s =>
    have hs : s.Holds w := h
    exact and_congr (gicRestores_iff into hs.small) (gicReadsWritten_iff hs)
  | halted => exact Iff.rfl

end

/-- **Saved controllers.**  In a state that the controller comes to, its bytes restore all of it in
    another controller, and every read of the configuration returns what was written last, if and
    only if the targets agree from the number of CPUs on, and every interrupt whose configuration
    was written has the one of the interrupt that is read in its place. -/
theorem gic_saved (cfg : GicBuild) (acts : List (GicAct cfg)) (r : GicRun cfg)
    (hrun : runFrom GicAct.exec (.start cfg) acts = some r) (into : Gic cfg.toGicConfig) :
    r.Right into ↔ r.Agrees into :=
  GicRun.right_iff (gicRun_holds hrun) into

/-- A controller with one CPU and 96 interrupts. -/
def realviewGic : GicBuild :=
  ⟨⟨1, 1, 96, by decide, by decide, by decide, by decide⟩, by decide, by decide⟩

/-- The CPU of the board. -/
def realviewCpu : Fin realviewGic.numCpu := ⟨0, by decide⟩

/-- A byte is written to the distributor. -/
def realviewWrite (offset : Nat) (h : offset < 0x1000) (value : BitVec 8) : GicAct realviewGic :=
  .guest (.distWrite realviewCpu (.byte ⟨offset, h⟩ value))

/-- Interrupts 32 to 35 are level triggered, like 16 to 19. -/
theorem gic_saved_level :
    ∃ r, runFrom GicAct.exec (.start realviewGic) [realviewWrite 0xc08 (by decide) 0] = some r ∧
      r.Right (gicReset realviewGic.toGicConfig) :=
  have hsome : (runFrom GicAct.exec (.start realviewGic)
      [realviewWrite 0xc08 (by decide) 0]).isSome = true := by decide +kernel
  ⟨_, (Option.some_get hsome).symm,
    (gic_saved realviewGic _ _ (Option.some_get hsome).symm _).mpr (by
      revert hsome
      decide +kernel)⟩

/-- Interrupt 33 is given a target, and interrupts 32 to 35 are edge triggered. -/
theorem gic_saved_fails :
    ¬∀ (acts : List (GicAct realviewGic)) (r : GicRun realviewGic),
      runFrom GicAct.exec (.start realviewGic) acts = some r →
        r.Right (gicReset realviewGic.toGicConfig) := by
  intro h
  have hsome : (runFrom GicAct.exec (.start realviewGic) [realviewWrite 0x821 (by decide) 1,
      realviewWrite 0xc08 (by decide) 0xaa]).isSome = true := by decide +kernel
  have hrun := (Option.some_get hsome).symm
  have hagrees := (GicRun.right_iff (gicRun_holds hrun) _).mp (h _ _ hrun)
  clear hrun
  revert hsome
  decide +kernel

end Qemu.Hw
