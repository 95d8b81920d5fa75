import Qemu.Hw.GicLine
import Qemu.Lib.PtrList
import Mathlib.Algebra.Ring.Nat

namespace Qemu.Hw

open Lib

/-!
# The active interrupts of the generic interrupt controller

The interrupts that a CPU has acknowledged and not completed are linked through `last_active`, the
one it runs first.

* `Gic.Chain` — the links from the running interrupt on, which end at 1023;
* `gicUnlink_ends` — an end of interrupt takes one out, wherever it is;
* `GicOp.Fits` — the numbers that are not checked, and the acknowledge that would make a cycle;
* `gic_chains` — in a run of such operations no index is outside of an array and no loop endless.
-/

variable {cfg : GicConfig}

/-- A link, of which 1023 is the null one. -/
def gicPtr (irq : Nat) : Option Nat := if irq = 1023 then none else some irq

/-- The link of an interrupt for a CPU. -/
def Gic.next (s : Gic cfg) (cpu : Fin cfg.numCpu) (irq : Nat) : Option Nat :=
  if h : irq < cfg.nirq then gicPtr (s.lastActive ⟨irq, h⟩ cpu) else none

/-- The interrupts that are linked from the running one on. -/
structure Gic.Chain (s : Gic cfg) (cpu : Fin cfg.numCpu) (l : List Nat) : Prop where
  linked : Seg (s.next cpu) (gicPtr (s.runningIrq cpu)) l none
  nodup : l.Nodup
  inside : ∀ irq ∈ l, irq < cfg.nirq

variable {irq : Nat}

theorem gicPtr_of_ne (h : irq ≠ 1023) : gicPtr irq = some irq := if_neg h

theorem gicPtr_of_lt (h : irq < cfg.nirq) : gicPtr irq = some irq :=
  gicPtr_of_ne (Nat.ne_of_lt (Nat.lt_of_lt_of_le h cfg.special))

theorem gicPtr_eq_some {x : Nat} (h : gicPtr x = some irq) : x = irq ∧ x ≠ 1023 := by
  unfold gicPtr at h
  split_ifs at h with hx
  exact ⟨Option.some.inj h, hx⟩

theorem Gic.next_of_lt (s : Gic cfg) (cpu : Fin cfg.numCpu) (h : irq < cfg.nirq) :
    s.next cpu irq = gicPtr (s.lastActive ⟨irq, h⟩ cpu) := dif_pos h

variable {cpu : Fin cfg.numCpu} {u : Fin cfg.nirq}

/-- A new link of one interrupt and CPU leaves the others. -/
theorem Gic.next_link_of_ne (s : Gic cfg) {c : Fin cfg.numCpu} {x : Nat}
    (h : irq ≠ u.val ∨ c ≠ cpu) : (s.link u cpu x).next c irq = s.next c irq := by
  unfold Gic.next
  by_cases hlt : irq < cfg.nirq
  · rw [dif_pos hlt, dif_pos hlt]
    show gicPtr (Function.update s.lastActive u (Function.update (s.lastActive u) cpu x)
      ⟨irq, hlt⟩ c) = _
    by_cases hu : (⟨irq, hlt⟩ : Fin cfg.nirq) = u
    · have hc : c ≠ cpu := h.resolve_left fun hne => hne (congrArg Fin.val hu)
      rw [hu, Function.update_self, Function.update_of_ne hc]
    · rw [Function.update_of_ne hu]
  · rw [dif_neg hlt, dif_neg hlt]

theorem Gic.next_link_same (s : Gic cfg) (cpu : Fin cfg.numCpu) (u : Fin cfg.nirq) (x : Nat) :
    (s.link u cpu x).next cpu u.val = gicPtr x := by
  rw [Gic.next_of_lt _ _ u.isLt]
  show gicPtr (Function.update s.lastActive u (Function.update (s.lastActive u) cpu x) u cpu) = _
  rw [Function.update_self, Function.update_self]

variable {l : List Nat} {s₁ : Gic cfg}

theorem Gic.Chain.congr {s : Gic cfg} (h : s.Chain cpu l) (hnext : s₁.next cpu = s.next cpu)
    (hrunning : s₁.runningIrq cpu = s.runningIrq cpu) : s₁.Chain cpu l := by
  refine ⟨?_, h.nodup, h.inside⟩
  rw [hnext, hrunning]
  exact h.linked

theorem Gic.Chain.length_le {s : Gic cfg} (h : s.Chain cpu l) : l.length ≤ cfg.nirq :=
  length_le_of_index h.nodup id h.inside fun _ _ _ _ heq => heq

/-- The interrupts that are linked from a pointer on. -/
def Gic.nestingFrom (s : Gic cfg) (cpu : Fin cfg.numCpu) : Nat → Option Nat → List Nat
  | 0, _ => []
  | _ + 1, none => []
  | fuel + 1, some irq => irq :: s.nestingFrom cpu fuel (s.next cpu irq)

/-- The active interrupts of a CPU. -/
def Gic.nesting (s : Gic cfg) (cpu : Fin cfg.numCpu) : List Nat :=
  s.nestingFrom cpu cfg.nirq (gicPtr (s.runningIrq cpu))

/-- With enough fuel the links are followed to their end. -/
theorem Gic.nestingFrom_eq (s : Gic cfg) (cpu : Fin cfg.numCpu) {p : Option Nat} {fuel : Nat}
    (h : Seg (s.next cpu) p l none) (hfuel : l.length ≤ fuel) : s.nestingFrom cpu fuel p = l := by
  induction l generalizing p fuel with
  | nil =>
    obtain rfl : p = none := h
    cases fuel <;> rfl
  | cons irq l ih =>
    obtain ⟨rfl, hrest⟩ := h
    cases fuel with
    | zero => exact absurd hfuel (Nat.not_succ_le_zero _)
    | succ fuel =>
      rw [Gic.nestingFrom, ih hrest (Nat.le_of_succ_le_succ hfuel)]

theorem Gic.Chain.nesting {s : Gic cfg} (h : s.Chain cpu l) :
    s.nesting cpu = l := s.nestingFrom_eq cpu h.linked h.length_le

/-! ### Acknowledge and end of interrupt -/

/-- An interrupt that is not active becomes the running one. -/
theorem Gic.Chain.push {s : Gic cfg} (h : s.Chain cpu l) {irq : Fin cfg.nirq} (hirq : irq.val ∉ l)
    (hnext : s₁.next = (s.link irq cpu (s.runningIrq cpu)).next)
    (hrunning : s₁.runningIrq cpu = irq.val) : s₁.Chain cpu (irq.val :: l) := by
  refine ⟨⟨?_, ?_⟩, List.nodup_cons.mpr ⟨hirq, h.nodup⟩,
    List.forall_mem_cons.mpr ⟨irq.isLt, h.inside⟩⟩
  · rw [hrunning, gicPtr_of_lt irq.isLt]
  · rw [hnext, Gic.next_link_same]
    refine h.linked.congr fun x hx => Gic.next_link_of_ne s (.inl ?_)
    rintro rfl
    exact hirq hx

/-- The link of the running interrupt is one of an interrupt, or the null one. -/
theorem Gic.Chain.rest {s : Gic cfg} {running : Fin cfg.nirq} (h : s.Chain cpu (irq :: l))
    (heq : running.val = s.runningIrq cpu) :
    Seg (s.next cpu) (gicPtr (s.lastActive running cpu)) l none ∧
      (s.lastActive running cpu = 1023 ∨ s.lastActive running cpu < cfg.nirq) := by
  obtain ⟨hhead, hrest⟩ := h.linked
  rw [← heq, gicPtr_of_lt running.isLt] at hhead
  obtain rfl := Option.some.inj hhead
  rw [Gic.next_of_lt _ _ running.isLt] at hrest
  refine ⟨hrest, ?_⟩
  by_cases hnull : s.lastActive running cpu = 1023
  · exact .inl hnull
  · have hrest : Seg (s.next cpu) (gicPtr (s.lastActive running cpu)) l none := hrest
    rw [gicPtr_of_ne hnull] at hrest
    cases l with
    | nil => cases hrest
    | cons irq l =>
      rw [Option.some.inj hrest.1]
      exact .inr (h.inside irq (List.mem_cons_of_mem _ List.mem_cons_self))

theorem Gic.Chain.pop {s : Gic cfg} {running : Fin cfg.nirq} (h : s.Chain cpu (irq :: l))
    (heq : running.val = s.runningIrq cpu) (hnext : s₁.next = s.next)
    (hrunning : s₁.runningIrq cpu = s.lastActive running cpu) : s₁.Chain cpu l := by
  refine ⟨?_, (List.nodup_cons.mp h.nodup).2,
    fun x hx => h.inside x (List.mem_cons_of_mem _ hx)⟩
  rw [hnext, hrunning]
  exact (h.rest heq).1

/-- The loop of `gic_complete_irq` ends.  If it finds the interrupt, it links around it. -/
theorem gicUnlink_ends {E : GicStop → Prop} {s : Gic cfg} (hirq : irq = 1023 ∨ irq < cfg.nirq)
    {fuel tmp : Nat} {rest : List Nat} (hlinked : Seg (s.next cpu) (some tmp) (tmp :: rest) none)
    (hinside : ∀ x ∈ tmp :: rest, x < cfg.nirq) (hfuel : rest.length < fuel) :
    Ends (fun s' => s' = s ∨ ∃ (l₁ l₂ : List Nat) (u v : Fin cfg.nirq),
      tmp :: rest = l₁ ++ u.val :: v.val :: l₂ ∧ s' = s.link u cpu (s.lastActive v cpu)) E
      (gicUnlink s cpu irq fuel tmp) := by
  induction rest generalizing tmp fuel with
  | nil =>
    cases fuel with
    | zero => exact absurd hfuel (Nat.not_lt_zero _)
    | succ fuel =>
      refine gicIndex_ends (.inl (hinside tmp List.mem_cons_self)) ?_
      rintro k rfl
      refine Ends.ite (fun _ => .ok (.inl rfl)) fun hne => ?_
      have hend : s.next cpu k = none := hlinked.2
      rw [Gic.next_of_lt _ _ k.isLt, gicPtr_of_ne hne] at hend
      cases hend
  | cons irq' rest ih =>
    cases fuel with
    | zero => exact absurd hfuel (Nat.not_lt_zero _)
    | succ fuel =>
      obtain ⟨hin, hinrest⟩ := List.forall_mem_cons.mp hinside
      refine gicIndex_ends (.inl hin) ?_
      rintro k rfl
      refine Ends.ite (fun _ => .ok (.inl rfl)) fun hne => ?_
      obtain ⟨hnext, hrest⟩ := hlinked.2
      rw [Gic.next_of_lt _ _ k.isLt] at hnext
      have hirq' : s.lastActive k cpu = irq' := (gicPtr_eq_some hnext).1
      refine Ends.ite (fun hfound => ?_) fun _ => ?_
      -- the interrupt is the next one
      · have hlt : irq < cfg.nirq := hirq.resolve_left (hfound ▸ hne)
        refine gicIndex_ends (.inl hlt) fun v hv => .ok (.inr ⟨[], rest, k, v, ?_, rfl⟩)
        rw [hv, ← hfound, hirq']
        rfl
      · rw [hirq']
        refine (ih ⟨rfl, hrest⟩ hinrest (Nat.lt_of_succ_lt_succ hfuel)).mono ?_ fun _ he => he
        rintro s' (rfl | ⟨l₁, l₂, u, v, heq, rfl⟩)
        · exact .inl rfl
        · exact .inr ⟨k.val :: l₁, l₂, u, v, congrArg (k.val :: ·) heq, rfl⟩

/-- Linking around an interrupt takes it out of the chain. -/
theorem Gic.Chain.skip {s : Gic cfg} {l₁ l₂ : List Nat} {v : Fin cfg.nirq}
    (h : s.Chain cpu (l₁ ++ u.val :: v.val :: l₂))
    (hnext : s₁.next = (s.link u cpu (s.lastActive v cpu)).next)
    (hrunning : s₁.runningIrq = s.runningIrq) : s₁.Chain cpu (l₁ ++ u.val :: l₂) := by
  have hsub : List.Sublist (l₁ ++ u.val :: l₂) (l₁ ++ u.val :: v.val :: l₂) :=
    ((List.sublist_cons_self v.val l₂).cons_cons u.val).append_left l₁
  refine ⟨?_, h.nodup.sublist hsub, fun x hx => h.inside x (hsub.subset hx)⟩
  rw [hnext, hrunning]
  refine h.linked.skip h.nodup ?_ fun w hw => Gic.next_link_of_ne s (.inl hw)
  rw [Gic.next_link_same, Gic.next_of_lt _ _ v.isLt]

/-! ### Operations -/

/-- Every CPU has a chain, and its pending interrupt is one, or none. -/
structure Gic.Nested (s : Gic cfg) : Prop where
  chain : ∀ cpu, ∃ l, s.Chain cpu l
  pending : ∀ cpu, s.currentPending cpu = 1023 ∨ s.currentPending cpu < cfg.nirq

/-- An update tells of an interrupt, or of none. -/
theorem gicUpdateLoop_pending (l : List (Fin cfg.numCpu)) {s : Gic cfg}
    (h : ∀ cpu, s.currentPending cpu = 1023 ∨ s.currentPending cpu < cfg.nirq)
    (cpu : Fin cfg.numCpu) : (gicUpdateLoop l s).currentPending cpu = 1023 ∨
      (gicUpdateLoop l s).currentPending cpu < cfg.nirq := by
  have htell : ∀ (s : Gic cfg) c pending level,
      (∀ cpu, s.currentPending cpu = 1023 ∨ s.currentPending cpu < cfg.nirq) →
      (pending = 1023 ∨ pending < cfg.nirq) → ∀ cpu,
      (s.tell c pending level).currentPending cpu = 1023 ∨
        (s.tell c pending level).currentPending cpu < cfg.nirq := by
    intro s c pending level hs hpending cpu
    show Function.update s.currentPending c pending cpu = 1023 ∨
      Function.update s.currentPending c pending cpu < cfg.nirq
    by_cases hc : cpu = c
    · rw [hc, Function.update_self]
      exact hpending
    · rw [Function.update_of_ne hc]
      exact hs cpu
  -- on the CPUs that are still to be told
  induction l generalizing s with
  | nil => exact h cpu
  | cons c l ih =>
    rw [gicUpdateLoop]
    by_cases hactive : s.active c = true
    · rw [if_pos hactive]
      refine ih (s := gicUpdateCpu s c) ?_
      rw [gicUpdateCpu]
      by_cases hmask : (gicBest s c).1 ≤ (s.priorityMask c).toNat
      · rw [if_pos hmask]
        refine htell s c _ _ h ?_
        obtain ⟨-, hbest⟩ | ⟨irq, -, hbest⟩ := gicBest_cases s c
        · exact .inl (congrArg Prod.snd hbest)
        · rw [hbest]
          exact .inr irq.isLt
      · rw [if_neg hmask]
        exact htell s c _ _ h (.inl rfl)
    · rw [if_neg hactive]
      exact htell s c _ _ h (.inl rfl) cpu

theorem Gic.Chain.of_eq {s : Gic cfg} (h : s.Chain cpu l) (hlast : s₁.lastActive = s.lastActive)
    (hrunning : s₁.runningIrq = s.runningIrq) : s₁.Chain cpu l := by
  refine h.congr ?_ (congrFun hrunning cpu)
  funext irq
  unfold Gic.next
  rw [hlast]

theorem Gic.Kept.nested {s : Gic cfg} {b : Bool} (h : s.Kept b s₁) (hs : s.Nested) : s₁.Nested := by
  refine ⟨fun cpu => ?_, fun cpu => ?_⟩
  · obtain ⟨l, hl⟩ := hs.chain cpu
    exact ⟨l, hl.of_eq h.lastActive h.runningIrq⟩
  · rw [h.currentPending]
    exact hs.pending cpu

theorem Gic.Nested.update {s : Gic cfg} (h : s.Nested) : (gicUpdate s).Nested := by
  refine ⟨fun cpu => ?_, gicUpdateLoop_pending _ h.pending⟩
  obtain ⟨l, hl⟩ := h.chain cpu
  obtain ⟨pending, line, heq⟩ := gicUpdate_eq s
  rw [heq]
  exact ⟨l, hl.of_eq rfl rfl⟩

/-- A computation is inside of the arrays, ends, and leaves every CPU with a chain. -/
def GicSafe (r : Except GicStop (Gic cfg)) : Prop := Ends Gic.Nested (· = .hwError) r

section

variable {s : Gic cfg}

theorem gicDistWriteb_safe (h : s.Nested) (cpu : Fin cfg.numCpu) (offset : Nat)
    (value : BitVec 8) : GicSafe (gicDistWriteb s cpu offset value) :=
  (gicDistSet_kept s cpu offset value).map fun _ hkept => (hkept.nested h).update

theorem gicDistWritew_safe (h : s.Nested) (cpu : Fin cfg.numCpu) (offset : Nat)
    (value : BitVec 16) : GicSafe (gicDistWritew s cpu offset value) :=
  (gicDistWriteb_safe h cpu offset _).bind fun _ hs => gicDistWriteb_safe hs cpu (offset + 1) _

theorem Gic.Nested.withIrq (h : s.Nested) (irq : Fin cfg.nirq)
    (f : GicIrqState cfg.ncpu → GicIrqState cfg.ncpu) : (s.withIrq irq f).Nested :=
  ((Gic.Kept.refl s).withIrq irq f).nested h

theorem gicSetPendingPrivate_safe (h : s.Nested) (cpu : Fin cfg.numCpu) (hirq : irq < cfg.nirq) :
    GicSafe (gicSetPendingPrivate s cpu irq) := by
  refine gicIndex_ends (.inl hirq) fun irq _ => ?_
  exact Ends.ite (fun _ => .ok h) fun _ => .ok (h.withIrq irq _).update

theorem gicSetIrq_safe (h : s.Nested) (hirq : irq + 32 < cfg.nirq) (level : Int) :
    GicSafe (gicSetIrq s irq level) := by
  refine gicIndex_ends (.inl hirq) fun irq _ => ?_
  refine Ends.ite (fun _ => .ok h) fun _ => ?_
  refine Ends.ite (fun _ => ?_) fun _ => .ok (h.withIrq irq _).update
  exact Ends.ite (fun _ => .ok ((h.withIrq irq _).withIrq irq _).update)
    fun _ => .ok (h.withIrq irq _).update

variable {value : BitVec 32}

theorem gicSoftInt_safe (h : s.Nested) (cpu : Fin cfg.numCpu)
    (hirq : (value &&& 0x3ff).toNat < cfg.nirq) : GicSafe (gicSoftInt s cpu value) :=
  gicIndex_ends (.inl hirq) fun irq _ => .ok (h.withIrq irq _).update

variable {offset : Nat}

theorem gicDistWritel_safe (h : s.Nested) (cpu : Fin cfg.numCpu)
    (hirq : offset = 0xf00 → (value &&& 0x3ff).toNat < cfg.nirq) :
    GicSafe (gicDistWritel s cpu offset value) := by
  refine Ends.ite (fun hsoft => gicSoftInt_safe h cpu (hirq hsoft)) fun _ => ?_
  exact (gicDistWritew_safe h cpu offset _).bind fun _ hs =>
    gicDistWritew_safe hs cpu (offset + 2) _

theorem Gic.Nested.chain_of_ne (h : s.Nested) {c : Fin cfg.numCpu} (hc : c ≠ cpu)
    (hnext : s₁.next c = s.next c)
    (hrunning : s₁.runningIrq = Function.update s.runningIrq cpu irq) : ∃ l, s₁.Chain c l := by
  obtain ⟨l, hl⟩ := h.chain c
  refine ⟨l, hl.congr hnext ?_⟩
  rw [hrunning, Function.update_of_ne hc]

/-- An acknowledge keeps the chains if it does not take an interrupt that is active. -/
theorem gicAcknowledgeIrq_safe (h : s.Nested)
    (hfree : ∀ irq, s.takes cpu irq → irq.val ∉ s.nesting cpu) :
    Ends (fun r => r.1.Nested) (· = .hwError) (gicAcknowledgeIrq s cpu) := by
  refine gicAcknowledgeIrq_ends ((h.pending cpu).imp_right Or.inl) h
    fun irq htakes f priority => ?_
  refine Gic.Nested.update ⟨fun c => ?_, h.pending⟩
  by_cases hc : c = cpu
  · subst hc
    obtain ⟨l, hl⟩ := h.chain c
    have hirq := hfree irq htakes
    rw [hl.nesting] at hirq
    exact ⟨irq.val :: l, hl.push hirq rfl (Function.update_self ..)⟩
  · refine h.chain_of_ne hc ?_ rfl
    funext x
    exact Gic.next_link_of_ne s (.inr hc)

theorem Gic.Nested.skip (h : s.Nested) {l₁ l₂ : List Nat} {v : Fin cfg.nirq}
    (hl : s.Chain cpu (l₁ ++ u.val :: v.val :: l₂)) :
    (s.link u cpu (s.lastActive v cpu)).Nested := by
  refine ⟨fun c => ?_, h.pending⟩
  by_cases hc : c = cpu
  · subst hc
    exact ⟨_, hl.skip rfl rfl⟩
  · refine h.chain_of_ne hc ?_ (Function.update_eq_self cpu s.runningIrq).symm
    funext x
    exact Gic.next_link_of_ne s (.inr hc)

/-- An end of interrupt keeps the chains if the number is one of an interrupt. -/
theorem gicCompleteIrq_safe (h : s.Nested) (cpu : Fin cfg.numCpu)
    (hirq : s.runningIrq cpu ≠ 1023 → irq = 1023 ∨ irq < cfg.nirq) :
    GicSafe (gicCompleteIrq s cpu irq) := by
  refine Ends.ite (fun _ => .ok h) fun hactive => ?_
  have hirq := hirq hactive
  refine (gicReraise_ends s cpu (hirq.imp_right Or.inl)).bind ?_
  rintro ⟨s₁, update⟩ ⟨hkept, -⟩
  have h₁ : s₁.Nested := hkept.nested h
  obtain ⟨l, hl⟩ := h₁.chain cpu
  have hrunning : s₁.runningIrq cpu ≠ 1023 := by
    rw [hkept.runningIrq]
    exact hactive
  -- the chain starts with the running interrupt
  have hlinked := hl.linked
  rw [gicPtr_of_ne hrunning] at hlinked
  cases l with
  | nil => cases hlinked
  | cons running rest =>
    obtain rfl : s₁.runningIrq cpu = running := Option.some.inj hlinked.1
    refine Ends.ite (fun _ => ?_) fun _ => ?_
    · refine (gicUnlink_ends hirq hlinked hl.inside hl.length_le).bind fun s₂ hs₂ => .ok ?_
      have h₂ : s₂.Nested := by
        obtain rfl | ⟨l₁, l₂, u, v, heq, rfl⟩ := hs₂
        · exact h₁
        · rw [heq] at hl
          exact h₁.skip hl
      by_cases hupdate : update = true
      · rw [if_pos hupdate]
        exact h₂.update
      · rw [if_neg hupdate]
        exact h₂
    · refine gicIndex_ends (.inl (hl.inside _ List.mem_cons_self)) fun k hk => ?_
      refine gicSetRunningIrq_ends ((hl.rest hk).2.imp_right Or.inl) fun priority => ?_
      refine Gic.Nested.update ⟨fun c => ?_, h₁.pending⟩
      by_cases hc : c = cpu
      · subst hc
        refine ⟨rest, hl.pop hk ?_ ?_⟩
        · rfl
        · exact Function.update_self ..
      · exact h₁.chain_of_ne hc rfl rfl

theorem gicCpuRead_safe (h : s.Nested)
    (hfree : offset = 0x0c → ∀ irq, s.takes cpu irq → irq.val ∉ s.nesting cpu) :
    Ends (fun r => r.1.Nested) (· = .hwError) (gicCpuRead s cpu offset) := by
  unfold gicCpuRead
  split
  case h_4 => exact gicAcknowledgeIrq_safe h (hfree rfl)
  case h_7 => exact .error rfl
  all_goals exact .ok h

/-- A CPU writes to its interface; what it completes exists. -/
theorem gicCpuWrite_safe (h : s.Nested) (cpu : Fin cfg.numCpu) {offset : Nat} {value : BitVec 32}
    (hirq : offset = 0x10 → s.runningIrq cpu ≠ 1023 →
      (value &&& 0x3ff).toNat = 1023 ∨ (value &&& 0x3ff).toNat < cfg.nirq) :
    GicSafe (gicCpuWrite s cpu offset value) := by
  have hsame : ∀ s₁ : Gic cfg, s₁.lastActive = s.lastActive → s₁.runningIrq = s.runningIrq →
      s₁.currentPending = s.currentPending → (gicUpdate s₁).Nested := by
    intro s₁ hlast hrunning hpending
    refine Gic.Nested.update ⟨fun c => ?_, fun c => ?_⟩
    · obtain ⟨l, hl⟩ := h.chain c
      exact ⟨l, hl.of_eq hlast hrunning⟩
    · rw [hpending]
      exact h.pending c
  unfold gicCpuWrite
  split
  · exact .ok (hsame _ rfl rfl rfl)
  · exact .ok (hsame _ rfl rfl rfl)
  · exact .ok h.update
  · exact gicCompleteIrq_safe h cpu (hirq rfl)
  · exact .error rfl

end

/-- The bytes of an access. -/
def GicRead.Covers (b : Nat) : GicRead → Prop
  | .byte offset => b = offset
  | .half place => b = 2 * place ∨ b = 2 * place + 1
  | .word place => 4 * place ≤ b ∧ b < 4 * place + 4

instance (b : Nat) : ∀ access : GicRead, Decidable (access.Covers b)
  | .byte offset => inferInstanceAs (Decidable (b = offset))
  | .half place => inferInstanceAs (Decidable (b = 2 * place ∨ b = 2 * place + 1))
  | .word place => inferInstanceAs (Decidable (4 * place ≤ b ∧ b < 4 * place + 4))

/-- A read that does not cover the last configuration register is inside of the arrays. -/
theorem GicRead.access_inside (s : Gic cfg) (cpu : Fin cfg.numCpu) {access : GicRead}
    (h : ¬access.Covers cfg.lastConfig) : GicInside (access.access s cpu) := by
  have hhalf : ∀ offset, offset + 1 < 0x1000 → cfg.lastConfig ≠ offset →
      cfg.lastConfig ≠ offset + 1 → GicInside (gicDistReadw s cpu offset) := by
    intro offset hlt hlow hhigh
    refine (gicDistReadb_inside s cpu (Nat.lt_of_succ_lt hlt) hlow.symm).bind fun _ _ => ?_
    exact (gicDistReadb_inside s cpu hlt hhigh.symm).bind fun _ _ => .ok trivial
  cases access with
  | byte offset => exact gicDistReadb_inside s cpu offset.isLt fun heq => h heq.symm
  | half place =>
    have hplace := place.isLt
    obtain ⟨hlow, hhigh⟩ := not_or.mp h
    exact hhalf (2 * place) (by omega) hlow hhigh
  | word place =>
    have hplace := place.isLt
    have hout : cfg.lastConfig < 4 * place ∨ 4 * place + 4 ≤ cfg.lastConfig := by
      rcases Nat.lt_or_ge cfg.lastConfig (4 * place) with hlt | hge
      · exact .inl hlt
      · exact .inr (Nat.le_of_not_lt fun hlt => h ⟨hge, hlt⟩)
    refine (hhalf (4 * place) (by omega) (by omega) (by omega)).bind fun _ _ => ?_
    exact (hhalf (4 * place + 2) (by omega) (by omega) (by omega)).bind fun _ _ => .ok trivial

/-- The operation uses no number that is no interrupt, and takes no interrupt that is active:

* it does not read the last configuration register;
* a software interrupt, and one that ends while another runs, has the number of an interrupt, or the
  one that is none where it ends;
* the interrupt that an acknowledge takes is not among the active ones of the CPU. -/
def GicOp.Fits (s : Gic cfg) : GicOp cfg → Prop
  | .distRead _ access => ¬access.Covers cfg.lastConfig
  | .distWrite _ (.word place value) => 4 * place.val = 0xf00 → (value &&& 0x3ff).toNat < cfg.nirq
  | .cpuRead cpu offset => offset = 0x0c → ∀ irq, s.takes cpu irq → irq.val ∉ s.nesting cpu
  | .cpuWrite cpu offset value =>
    offset = 0x10 → s.runningIrq cpu ≠ 1023 →
      (value &&& 0x3ff).toNat = 1023 ∨ (value &&& 0x3ff).toNat < cfg.nirq
  | _ => True

/-- An operation that fits is inside of the arrays, ends, and keeps the chains. -/
theorem GicOp.access_safe {s : Gic cfg} (h : s.Nested) {op : GicOp cfg} (hop : op.Fits s) :
    GicSafe (op.access s) := by
  cases op with
  | setIrq irq level => exact gicSetIrq_safe h (Nat.add_lt_of_lt_sub irq.isLt) level
  | timer cpu watchdog =>
    refine gicSetPendingPrivate_safe h cpu (Nat.lt_of_lt_of_le ?_ cfg.internal)
    exact Nat.lt_of_le_of_lt (Nat.add_le_add_left (Bool.toNat_le watchdog) 29) (by decide)
  | distRead cpu access => exact (GicRead.access_inside s cpu hop).map fun _ _ => h
  | distWrite cpu access =>
    cases access with
    | byte offset value => exact gicDistWriteb_safe h cpu _ value
    | half place value => exact gicDistWritew_safe h cpu _ value
    | word place value => exact gicDistWritel_safe h cpu hop
  | cpuRead cpu offset => exact (gicCpuRead_safe h hop).map fun _ hs => hs
  | cpuWrite cpu offset value => exact gicCpuWrite_safe h cpu hop

/-! ### Runs -/

/-- Every CPU has a chain, unless the machine has stopped. -/
def GicMachine.Nested : GicMachine cfg → Prop
  | .running s => s.Nested
  | .halted => True

/-- The links of every CPU go from the running interrupt to the null link, without a cycle. -/
def GicMachine.Chained : GicMachine cfg → Prop
  | .running s => ∀ cpu, ∃ l, s.Chain cpu l
  | .halted => True

theorem GicMachine.Nested.chained {m : GicMachine cfg} (h : m.Nested) : m.Chained := by
  cases m with
  | running s => exact Gic.Nested.chain h
  | halted => exact trivial

/-- The operation fits, as long as the machine runs. -/
def GicOp.FitsIn : GicMachine cfg → GicOp cfg → Prop
  | .running s, op => op.Fits s
  | .halted, _ => True

theorem gicReset_nested (cfg : GicConfig) : (gicReset cfg).Nested :=
  ⟨fun _ => ⟨[], rfl, List.nodup_nil, fun _ hirq => absurd hirq List.not_mem_nil⟩,
    fun _ => .inl rfl⟩

/-- An operation that fits keeps them. -/
theorem GicOp.exec_safe {m : GicMachine cfg} (h : m.Nested) {op : GicOp cfg}
    (hop : op.FitsIn m) : ∃ m', op.exec m = some m' ∧ m'.Nested := by
  cases m with
  | halted => exact ⟨.halted, rfl, trivial⟩
  | running s =>
    have hends := GicOp.access_safe (s := s) h hop
    show ∃ m', GicMachine.after (op.access s) = some m' ∧ m'.Nested
    generalize op.access s = r at hends
    cases hends with
    | ok hs => exact ⟨_, rfl, hs⟩
    | error hstop =>
      subst hstop
      exact ⟨.halted, rfl, trivial⟩

/-- **The active interrupts.**  In a run of operations that fit, every index is inside of its array,
    every loop ends, and the active interrupts of each CPU are a chain without a cycle. -/
theorem gic_chains (cfg : GicConfig) (ops : List (GicOp cfg))
    (hops : StepsMeet GicOp.exec GicOp.FitsIn (.start cfg) ops) :
    ∃ m, runFrom GicOp.exec (.start cfg) ops = some m ∧ m.Chained := by
  have hstep : ∀ (m : GicMachine cfg) (op : GicOp cfg), m.Nested → op.FitsIn m →
      ∃ m', op.exec m = some m' ∧ m'.Nested := fun _ _ hm hop => GicOp.exec_safe hm hop
  obtain ⟨m, hrun, hm⟩ := runFrom_invariant (s := GicMachine.start cfg) hstep
    (gicReset_nested cfg) hops
  exact ⟨m, hrun, hm.chained⟩

instance (s : Gic cfg) (cpu : Fin cfg.numCpu) (irq : Fin cfg.nirq) :
    Decidable (s.takes cpu irq) := inferInstanceAs (Decidable (_ ∧ _))

instance (s : Gic cfg) : ∀ op : GicOp cfg, Decidable (op.Fits s)
  | .distRead _ access => inferInstanceAs (Decidable (¬access.Covers cfg.lastConfig))
  | .distWrite _ (.word place value) =>
    inferInstanceAs (Decidable (4 * place.val = 0xf00 → (value &&& 0x3ff).toNat < cfg.nirq))
  | .cpuRead cpu offset =>
    have : Decidable (∀ irq, s.takes cpu irq → irq.val ∉ s.nesting cpu) :=
      Nat.decidableForallFin _
    inferInstanceAs (Decidable
      (offset = 0x0c → ∀ irq, s.takes cpu irq → irq.val ∉ s.nesting cpu))
  | .cpuWrite cpu offset value =>
    inferInstanceAs (Decidable (offset = 0x10 → s.runningIrq cpu ≠ 1023 →
      (value &&& 0x3ff).toNat = 1023 ∨ (value &&& 0x3ff).toNat < cfg.nirq))
  | .setIrq _ _ => instDecidableTrue
  | .timer _ _ => instDecidableTrue
  | .distWrite _ (.byte _ _) => instDecidableTrue
  | .distWrite _ (.half _ _) => instDecidableTrue

instance : ∀ (m : GicMachine cfg) (op : GicOp cfg), Decidable (op.FitsIn m)
  | .running s, op => inferInstanceAs (Decidable (op.Fits s))
  | .halted, _ => instDecidableTrue

theorem distBytes_neZero : NeZero 0x1000 := ⟨by decide⟩

theorem distWords_neZero : NeZero 0x400 := ⟨by decide⟩

attribute [local instance] distBytes_neZero distWords_neZero

/-- The first CPU is running software interrupt 0, which has priority `0x80`. -/
def firstRuns : List (GicOp twoCpus) :=
  [.cpuWrite firstCpu 0 1, .distWrite firstCpu (.byte 0 1),
    .distWrite firstCpu (.byte 0x400 0x80), .distWrite firstCpu (.word 0x3c0 0x10000),
    .cpuRead firstCpu 0x0c]

/-- Software interrupt 1 comes in between, and the outer one ends first. -/
theorem gic_chains_nested :
    ∃ m, runFrom GicOp.exec (.start twoCpus)
      (firstRuns ++ [.distWrite firstCpu (.word 0x3c0 0x10001), .cpuRead firstCpu 0x0c,
        .cpuWrite firstCpu 0x10 0, .cpuWrite firstCpu 0x10 1]) = some m ∧ m.Chained :=
  gic_chains twoCpus _ (by decide)

/-- An interrupt that is active is given a higher priority and raised again.  After it has been
    acknowledged once more, the end of another one does not return.  A software interrupt may have a
    number behind the interrupts. -/
theorem gic_chains_fails :
    (¬∃ m, runFrom GicOp.exec (.start twoCpus)
      (firstRuns ++ [.distWrite firstCpu (.byte 0x400 0x10),
        .distWrite firstCpu (.word 0x3c0 0x10000), .cpuRead firstCpu 0x0c,
        .cpuWrite firstCpu 0x10 1]) = some m ∧ m.Chained) ∧
    ¬∃ m, runFrom GicOp.exec (.start twoCpus) [.distWrite firstCpu (.word 0x3c0 0x103fe)] = some m ∧
      m.Chained := by
  have hnone : ∀ ops : List (GicOp twoCpus), (runFrom GicOp.exec (.start twoCpus) ops).isNone →
      ¬∃ m, runFrom GicOp.exec (.start twoCpus) ops = some m ∧ m.Chained := by
    rintro ops hops ⟨m, hrun, -⟩
    rw [hrun] at hops
    cases hops
  exact ⟨hnone _ (by decide +kernel), hnone _ (by decide)⟩

end Qemu.Hw
