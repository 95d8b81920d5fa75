import Qemu.Hw.Pl192Spec

namespace Qemu.Hw

open Qemu.Lib

/-!
# The arrays of the PL192

Only an acknowledge can index outside of an array: of a controller that has nothing to acknowledge,
on a full stack, or of a daisy interrupt whose controller is in such a state.

* `Pl192.Wf`, `Vics.Wf` — what holds of the indexes;
* `Pl192Op.exec_iff` — when an access stays inside the arrays;
* `pl192Run_bounds` — the same of runs.
-/

/-! ### The indexes -/

/-- The indexes of a controller, at its place of the chain, are such that an array is left only by
    an acknowledge. -/
structure Pl192.Wf (k : Nat) (s : Pl192) : Prop where
  current : s.current ≤ pl192NoIrq
  highest : s.currentHighest ≤ pl192NoIrq
  stack : s.stackI ≤ pl192PrioLevels
  irqs : ∀ i : Fin 17, s.irqStack[i] ≤ pl192NoIrq
  callback : s.daisyCallback = none ∨ s.daisyCallback = some (k + 1)
  daisy : s.daisyCallback = none → s.daisyInput = false ∧ s.current ≠ pl192DaisyIrq ∧
    s.currentHighest ≠ pl192DaisyIrq ∧ ∀ i : Fin 17, s.irqStack[i] ≠ pl192DaisyIrq

theorem refresh_highest (s : Pl192) : s.refresh.currentHighest ≤ pl192NoIrq := by
  unfold Pl192.refresh
  split_ifs
  · exact pl192PrioritySorter_le _
  · exact Nat.le_refl _

variable {s : Pl192}

theorem refresh_highest_daisy (h : s.daisyInput = false) :
    s.refresh.currentHighest ≠ pl192DaisyIrq := by
  unfold Pl192.refresh
  split_ifs
  · intro hs
    have hd : s.daisyInput = true := pl192PrioritySorter_daisy (s := s.latch) hs
    rw [h] at hd
    cases hd
  · exact fun hs => absurd (show pl192NoIrq = pl192DaisyIrq from hs) (by decide)

theorem refresh_fields (s : Pl192) :
    s.refresh.current = s.current ∧ s.refresh.stackI = s.stackI ∧
      s.refresh.irqStack = s.irqStack ∧ s.refresh.daisyCallback = s.daisyCallback ∧
      s.refresh.daisyInput = s.daisyInput := by
  unfold Pl192.refresh
  split_ifs
  · exact ⟨rfl, rfl, rfl, rfl, rfl⟩
  · exact ⟨rfl, rfl, rfl, rfl, rfl⟩

variable {k : Nat}

theorem Pl192.Wf.refresh (h : s.Wf k) : s.refresh.Wf k := by
  obtain ⟨hcur, hstack, hirqs, hcb, hin⟩ := refresh_fields s
  refine ⟨?_, refresh_highest s, ?_, ?_, ?_, ?_⟩
  · rw [hcur]
    exact h.current
  · rw [hstack]
    exact h.stack
  · rw [hirqs]
    exact h.irqs
  · rw [hcb]
    exact h.callback
  · rw [hcb, hin, hcur, hirqs]
    intro hnone
    obtain ⟨hd, hc, -, hi⟩ := h.daisy hnone
    exact ⟨hd, hc, refresh_highest_daisy hd, hi⟩

theorem wf_kept : Kept fun k s => Pl192.Wf k s where
  refresh _ _ h := h.refresh
  raise _ _ _ h := ⟨h.current, h.highest, h.stack, h.irqs, .inr rfl, fun hnone => nomatch hnone⟩
  lower _ _ h := ⟨h.current, h.highest, h.stack, h.irqs, h.callback, fun hnone =>
    ⟨rfl, (h.daisy hnone).2⟩⟩

/-- The invariant of the chain. -/
def Chain.Wf (c : Chain) : Prop := ∀ k, (c.vic k).Wf k

/-- The indexes are in range, unless the machine has stopped. -/
def Vics.Wf : Vics → Prop
  | .running c => c.Wf
  | .halted => True

variable {c : Chain}

theorem Chain.Wf.set (h : c.Wf) (hs : s.Wf k) : (c.set k s).Wf :=
  Chain.forall_set (fun j _ => h j) hs

theorem Chain.Wf.update (h : c.Wf) (k : Nat) : (pl192Update k c).Wf :=
  pl192Update_forall wf_kept k h

/-! ### The stacks -/

variable {i n : Nat} {α : Type}

theorem loadAt_of_lt (v : Vector α n) (h : i < n) : loadAt v i = .ok v[i] :=
  dif_pos h

theorem loadAt_of_le (v : Vector α n) (h : n ≤ i) : loadAt v i = .error .fault :=
  dif_neg (Nat.not_lt.mpr h)

theorem putAt_of_lt (v : Vector α n) (h : i < n) (a : α) : putAt v i a = .ok (v.set i a) :=
  dif_pos h

theorem putAt_of_le (v : Vector α n) (h : n ≤ i) (a : α) : putAt v i a = .error .fault :=
  dif_neg (Nat.not_lt.mpr h)

/-- There is room for the current interrupt, and it is one. -/
def Pl192.Maskable (s : Pl192) : Prop := s.current ≠ pl192NoIrq ∧ s.stackI < pl192PrioLevels

/-- The priority of the current interrupt. -/
def Pl192.currentPriority (s : Pl192) : Nat :=
  if h : s.current < 32 then s.vectPriority[s.current] else s.daisyPriority

/-- The controller with its current interrupt on the stack. -/
def Pl192.push (s : Pl192) : Pl192 :=
  { s with
    stackI := s.stackI + 1
    priority := s.currentPriority
    priorityStack := s.priorityStack.setIfInBounds (s.stackI + 1) s.currentPriority
    irqStack := s.irqStack.setIfInBounds (s.stackI + 1) s.current }

theorem pl192CurrentPriority_eq (h : s.current < pl192NoIrq) :
    pl192CurrentPriority s = .ok s.currentPriority := by
  have hD : pl192DaisyIrq = 32 := rfl
  have hN : pl192NoIrq = 33 := rfl
  unfold pl192CurrentPriority Pl192.currentPriority
  by_cases hd : s.current = pl192DaisyIrq
  · rw [if_pos hd, dif_neg (by omega)]
  · have hlt : s.current < 32 := by omega
    rw [if_neg hd, dif_pos hlt, loadAt_of_lt _ hlt]

theorem putAt_eq (v : Vector α n) (h : i < n) (a : α) :
    putAt v i a = .ok (v.setIfInBounds i a) := by
  rw [putAt_of_lt v h]
  refine congrArg Except.ok (Vector.ext fun j hj => ?_)
  rw [Vector.getElem_set, Vector.getElem_setIfInBounds]

/-- With room on the stack the interrupt is pushed. -/
theorem pl192MaskPriority_ok (hcur : s.current ≤ pl192NoIrq) (hs : s.Maskable) :
    pl192MaskPriority s = .ok s.push := by
  obtain ⟨hne, hroom⟩ := hs
  have hP : pl192PrioLevels = 16 := rfl
  have hI : pl192IntSources = 32 := rfl
  unfold pl192MaskPriority
  rw [if_neg (by omega), pl192CurrentPriority_eq (by omega)]
  show Except.bind (putAt s.priorityStack (s.stackI + 1) s.currentPriority) _ = _
  rw [putAt_eq _ (by omega)]
  show Except.bind (putAt s.irqStack (s.stackI + 1) s.current) _ = _
  rw [putAt_eq _ (by omega)]
  rfl

/-- Without it the store is outside of the stack. -/
theorem pl192MaskPriority_fault (hcur : s.current ≤ pl192NoIrq)
    (hstack : s.stackI ≤ pl192PrioLevels) (hs : ¬s.Maskable) :
    pl192MaskPriority s = .error .fault := by
  have hD : pl192DaisyIrq = 32 := rfl
  have hN : pl192NoIrq = 33 := rfl
  have hP : pl192PrioLevels = 16 := rfl
  have hI : pl192IntSources = 32 := rfl
  unfold pl192MaskPriority
  rw [if_neg (by omega)]
  by_cases hno : s.current = pl192NoIrq
  · rw [pl192CurrentPriority, if_neg (by omega), loadAt_of_le _ (by omega)]
    rfl
  · have hfull : 17 ≤ s.stackI + 1 := by
      by_contra hlt
      exact hs ⟨hno, by omega⟩
    rw [pl192CurrentPriority_eq (by omega)]
    show Except.bind (putAt s.priorityStack (s.stackI + 1) s.currentPriority) _ = _
    rw [putAt_of_le _ hfull]
    rfl

/-- The controller with the last interrupt off the stack. -/
def Pl192.pop (s : Pl192) : Pl192 :=
  { s with
    stackI := s.stackI - 1
    priority := (s.priorityStack[s.stackI - 1]?).getD 0
    current := (s.irqStack[s.stackI - 1]?).getD 0 }

/-- The last interrupt is popped, if there is one. -/
theorem pl192UnmaskPriority_eq (hstack : s.stackI ≤ pl192PrioLevels) :
    pl192UnmaskPriority s = if s.stackI < 1 then .error .hwError else .ok s.pop := by
  have hP : pl192PrioLevels = 16 := rfl
  unfold pl192UnmaskPriority
  split_ifs
  · rfl
  · have hlt : s.stackI - 1 < 17 := by omega
    have hload : ∀ v : Vector Nat 17, loadAt v (s.stackI - 1) =
        .ok ((v[s.stackI - 1]?).getD 0) := by
      intro v
      rw [loadAt_of_lt v hlt, Vector.getElem?_eq_getElem hlt]
      rfl
    show Except.bind (loadAt s.priorityStack (s.stackI - 1)) _ = _
    rw [hload]
    show Except.bind (loadAt s.irqStack (s.stackI - 1)) _ = _
    rw [hload]
    rfl

/-- A push keeps the indexes in range, if there is room. -/
theorem Pl192.Wf.push (h : s.Wf k) (hs : s.Maskable) : s.push.Wf k := by
  have hroom := hs.2
  have hentry : ∀ {P : Nat → Prop}, (∀ i : Fin 17, P s.irqStack[i]) → P s.current →
      ∀ i : Fin 17, P s.push.irqStack[i] := by
    intro P hall hcur i
    show P (s.irqStack.setIfInBounds (s.stackI + 1) s.current)[i.val]
    rw [Vector.getElem_setIfInBounds]
    split_ifs
    · exact hcur
    · exact hall i
  refine ⟨h.current, h.highest, hroom, hentry (P := (· ≤ pl192NoIrq)) h.irqs h.current, h.callback,
    fun hnone => ?_⟩
  obtain ⟨hin, hcur, hhigh, hirqs⟩ := h.daisy hnone
  exact ⟨hin, hcur, hhigh, hentry (P := (· ≠ pl192DaisyIrq)) hirqs hcur⟩

theorem Pl192.Wf.pop (h : s.Wf k) : s.pop.Wf k := by
  have hstack := h.stack
  have hP : pl192PrioLevels = 16 := rfl
  have hlt : s.stackI - 1 < 17 := by omega
  have hcur : s.pop.current = s.irqStack[(⟨s.stackI - 1, hlt⟩ : Fin 17)] := by
    show (s.irqStack[s.stackI - 1]?).getD 0 = _
    rw [Vector.getElem?_eq_getElem hlt]
    rfl
  refine ⟨?_, h.highest, (Nat.sub_le ..).trans h.stack, h.irqs, h.callback, fun hnone => ?_⟩
  · rw [hcur]
    exact h.irqs _
  · obtain ⟨hin, -, hhigh, hirqs⟩ := h.daisy hnone
    refine ⟨hin, ?_, hhigh, hirqs⟩
    rw [hcur]
    exact hirqs _

/-! ### Acknowledges -/

/-- An acknowledge stays inside the arrays. -/
def Chain.CanAck (c : Chain) (k : Nat) : Prop :=
  (c.vic k).currentHighest ≠ pl192NoIrq ∧ (c.vic k).stackI < pl192PrioLevels ∧
    ((c.vic k).currentHighest = pl192DaisyIrq → (c.vic (k + 1)).Maskable)

/-- A controller that has taken its first interrupt. -/
def Pl192.taken (s : Pl192) : Pl192 := { s with current := s.currentHighest }

/-- The chain when an interrupt has been acknowledged. -/
def Chain.acked (c : Chain) (k : Nat) : Chain :=
  let c' := c.set k (c.vic k).taken.push
  if (c.vic k).currentHighest = pl192DaisyIrq then c'.set (k + 1) (c.vic (k + 1)).push else c'

theorem Pl192.Wf.taken (h : s.Wf k) : s.taken.Wf k := by
  refine ⟨h.highest, h.highest, h.stack, h.irqs, h.callback, fun hnone => ?_⟩
  obtain ⟨hin, -, hhigh, hirqs⟩ := h.daisy hnone
  exact ⟨hin, hhigh, hhigh, hirqs⟩

theorem Chain.Wf.callback (h : c.Wf)
    (hd : (c.vic k).currentHighest = pl192DaisyIrq ∨ (c.vic k).current = pl192DaisyIrq) :
    (c.vic k).daisyCallback = some (k + 1) := by
  obtain hnone | hsome := (h k).callback
  · obtain ⟨-, hcur, hhigh, -⟩ := (h k).daisy hnone
    obtain hd | hd := hd
    · exact absurd hd hhigh
    · exact absurd hd hcur
  · exact hsome

theorem Chain.Wf.acked (h : c.Wf) (hk : c.CanAck k) : (c.acked k).Wf := by
  obtain ⟨hno, hroom, hdaisy⟩ := hk
  have hset := h.set ((h k).taken.push ⟨hno, hroom⟩)
  unfold Chain.acked
  dsimp only
  split_ifs with hd
  · exact hset.set ((h (k + 1)).push (hdaisy hd))
  · exact hset

theorem Chain.callback_daisy {irq : Nat} {j : Option Nat} (hirq : irq = pl192DaisyIrq)
    (hj : j = some (k + 1)) (f : Pl192 → Except Pl192Stop Pl192) :
    (c.set k s).callback irq j f = (f (c.vic (k + 1))).map ((c.set k s).set (k + 1)) := by
  unfold Chain.callback
  rw [if_pos hirq, hj]
  show (f ((c.set k s).vic (k + 1))).map _ = _
  rw [Chain.set_of_ne (Nat.succ_ne_self k)]

theorem Chain.callback_source {irq : Nat} {j : Option Nat} (hirq : irq ≠ pl192DaisyIrq)
    (f : Pl192 → Except Pl192Stop Pl192) : c.callback irq j f = .ok c :=
  if_neg hirq

/-- An acknowledge that stays inside. -/
theorem pl192IrqAck_ok (h : c.Wf) (hk : c.CanAck k) :
    pl192IrqAck k c = .ok (pl192Update k (c.acked k), (c.vic k).address) := by
  obtain ⟨hno, hroom, hdaisy⟩ := hk
  have hmask : pl192MaskPriority (c.vic k).taken = .ok (c.vic k).taken.push :=
    pl192MaskPriority_ok (h k).highest ⟨hno, hroom⟩
  unfold pl192IrqAck Chain.acked
  show Except.bind (pl192MaskPriority (c.vic k).taken) _ = _
  rw [hmask]
  by_cases hd : (c.vic k).currentHighest = pl192DaisyIrq
  · rw [if_pos hd]
    show Except.bind (Chain.callback _ _ _ _) _ = _
    rw [Chain.callback_daisy hd (h.callback (.inl hd)),
      pl192MaskPriority_ok (h (k + 1)).current (hdaisy hd)]
    rfl
  · rw [if_neg hd]
    show Except.bind (Chain.callback _ _ _ _) _ = _
    rw [Chain.callback_source hd]
    rfl

theorem pl192IrqAck_fault (h : c.Wf) (hk : ¬c.CanAck k) : pl192IrqAck k c = .error .fault := by
  unfold pl192IrqAck
  show Except.bind (pl192MaskPriority (c.vic k).taken) _ = _
  by_cases hs : (c.vic k).taken.Maskable
  · rw [pl192MaskPriority_ok (h k).highest hs]
    have hd : (c.vic k).currentHighest = pl192DaisyIrq ∧ ¬(c.vic (k + 1)).Maskable := by
      by_contra hnot
      exact hk ⟨hs.1, hs.2, fun hd => by_contra fun hm => hnot ⟨hd, hm⟩⟩
    show Except.bind (Chain.callback _ _ _ _) _ = _
    rw [Chain.callback_daisy hd.1 (h.callback (.inl hd.1)),
      pl192MaskPriority_fault (h (k + 1)).current (h (k + 1)).stack hd.2]
    rfl
  · rw [pl192MaskPriority_fault (s := (c.vic k).taken) (h k).highest (h k).stack hs]
    rfl

/-- The access stays inside the arrays, and what holds of the indexes is kept. -/
def Inside (r : Except Pl192Stop Chain) : Prop := r = .error .hwError ∨ ∃ c, r = .ok c ∧ c.Wf

theorem Chain.Wf.fin (h : c.Wf) (k : Nat) : (pl192FinUpdate k c).Wf := by
  unfold pl192FinUpdate
  dsimp only
  split_ifs
  · exact pl192Lower_forall wf_kept k (h.update k)
  · exact h.update k

theorem pl192IrqFin_inside (h : c.Wf) (k : Nat) : Inside (pl192IrqFin k c) := by
  unfold pl192IrqFin
  show Inside (Except.bind (pl192UnmaskPriority (c.vic k)) _)
  rw [pl192UnmaskPriority_eq (h k).stack]
  by_cases hempty : (c.vic k).stackI < 1
  · rw [if_pos hempty]
    exact .inl rfl
  · rw [if_neg hempty]
    have hset := h.set (h k).pop
    show Inside (Except.bind (Chain.callback _ _ _ _) _)
    by_cases hd : (c.vic k).current = pl192DaisyIrq
    · rw [Chain.callback_daisy hd (h.callback (.inr hd)), pl192UnmaskPriority_eq (h (k + 1)).stack]
      split_ifs
      · exact .inl rfl
      · exact .inr ⟨_, rfl, (hset.set (h (k + 1)).pop).fin k⟩
    · rw [Chain.callback_source hd]
      exact .inr ⟨_, rfl, hset.fin k⟩

/-! ### Accesses -/

theorem inside_ok (h : c.Wf) : Inside (.ok c) := .inr ⟨c, rfl, h⟩

theorem inside_update (h : c.Wf) (hs : s.Wf k) : Inside (.ok (pl192Update k (c.set k s))) :=
  inside_ok ((h.set hs).update k)

variable {offset : Nat}

theorem pl192ReadReg_inside (h : c.Wf) (k : Nat) (hne : offset ≠ 0xF00) :
    Inside ((pl192ReadReg k c offset).map Prod.fst) := by
  unfold pl192ReadReg
  dsimp only
  split
  case h_10 => exact absurd rfl hne
  case h_14 => exact .inl rfl
  all_goals exact inside_ok h

theorem pl192Read_inside (h : c.Wf) (k : Nat) (hne : offset ≠ 0xF00) :
    Inside ((pl192Read k c offset).map Prod.fst) := by
  unfold pl192Read
  dsimp only
  split_ifs with hmod hid haddr hprio
  · exact .inl rfl
  · rw [loadAt_of_lt _ (by omega)]
    exact inside_ok h
  · rw [loadAt_of_lt _ (by omega)]
    exact inside_ok h
  · rw [loadAt_of_lt _ (by omega)]
    exact inside_ok h
  · exact pl192ReadReg_inside h k hne

theorem pl192WriteReg_wf {s' : Pl192} (h : s.Wf k) {value : BitVec 32}
    (hw : pl192WriteReg s offset value = some s') : s'.Wf k := by
  unfold pl192WriteReg at hw
  split at hw
  case h_9 => cases hw
  all_goals
    obtain rfl := Option.some.inj hw
    exact ⟨h.current, h.highest, h.stack, h.irqs, h.callback, h.daisy⟩

theorem pl192Write_inside (h : c.Wf) (k offset : Nat) (value : BitVec 32) :
    Inside (pl192Write k c offset value) := by
  have hk := h k
  unfold pl192Write
  dsimp only
  split_ifs with hmod hid haddr hprio hfin hign
  · exact .inl rfl
  · exact .inl rfl
  · rw [putAt_of_lt _ (by omega)]
    exact inside_update h ⟨hk.current, hk.highest, hk.stack, hk.irqs, hk.callback, hk.daisy⟩
  · rw [putAt_of_lt _ (by omega)]
    exact inside_update h ⟨hk.current, hk.highest, hk.stack, hk.irqs, hk.callback, hk.daisy⟩
  · exact pl192IrqFin_inside h k
  · exact inside_ok h
  · cases hw : pl192WriteReg (c.vic k) offset value with
    | none => exact .inl rfl
    | some s => exact inside_update h (pl192WriteReg_wf hk hw)

theorem pl192IrqHandler_wf (h : c.Wf) (k : Nat) (line : Fin 32) (level : Bool) :
    (pl192IrqHandler k c line level).Wf := by
  have hk := h k
  have hset : ∀ rawintr, ({ c.vic k with rawintr := rawintr } : Pl192).Wf k := fun rawintr =>
    ⟨hk.current, hk.highest, hk.stack, hk.irqs, hk.callback, hk.daisy⟩
  exact (h.set (hset _)).update k

/-- The access is no acknowledge that would index outside of an array. -/
def Pl192Op.AckInBounds : Vics → Pl192Op → Prop
  | .running c, .read k offset => offset = 0xF00 → c.CanAck k
  | _, _ => True

theorem Inside.after {r : Except Pl192Stop Chain} (h : Inside r) :
    ∃ v, Vics.after r = some v ∧ v.Wf := by
  obtain rfl | ⟨c, rfl, hc⟩ := h
  · exact ⟨.halted, rfl, trivial⟩
  · exact ⟨.running c, rfl, hc⟩

variable {v : Vics}

/-- **An access stays inside the arrays** if it is no such acknowledge. -/
theorem Pl192Op.exec_inside (h : v.Wf) {op : Pl192Op} (hop : op.AckInBounds v) :
    ∃ v', op.exec v = some v' ∧ v'.Wf := by
  cases v with
  | halted => exact ⟨.halted, rfl, trivial⟩
  | running c =>
    have hc : c.Wf := h
    cases op with
    | irq k line level => exact (inside_ok (pl192IrqHandler_wf hc k line level)).after
    | write k offset value => exact (pl192Write_inside hc k offset value).after
    | read k offset =>
      by_cases hoff : offset = 0xF00
      · subst hoff
        have hk : c.CanAck k := hop rfl
        have hread : (Pl192Op.read k 0xF00).exec (.running c) =
            Vics.after ((pl192IrqAck k c).map Prod.fst) := rfl
        rw [hread, pl192IrqAck_ok hc hk]
        exact (inside_ok ((hc.acked hk).update k)).after
      · exact (pl192Read_inside hc k hoff).after

/-- An acknowledge out of bounds faults. -/
theorem Pl192Op.exec_fault (h : v.Wf) {op : Pl192Op} (hop : ¬op.AckInBounds v) :
    op.exec v = none := by
  cases v with
  | halted => exact absurd trivial hop
  | running c =>
    cases op with
    | irq k line level => exact absurd trivial hop
    | write k offset value => exact absurd trivial hop
    | read k offset =>
      obtain ⟨rfl, hk⟩ := Classical.not_imp.mp hop
      have hread : (Pl192Op.read k 0xF00).exec (.running c) =
          Vics.after ((pl192IrqAck k c).map Prod.fst) := rfl
      rw [hread, pl192IrqAck_fault h hk]
      rfl

/-! ### Runs -/

theorem pl192Reset_wf (k : Nat) : pl192Reset.Wf k where
  current := le_refl _
  highest := le_refl _
  stack := Nat.zero_le _
  irqs := by decide
  callback := .inl rfl
  daisy _ := ⟨rfl, by decide, by decide, by decide⟩

theorem start_wf : Vics.start.Wf := pl192Reset_wf

/-- The depth of every stack is inside the stacks. -/
def Vics.StacksInBounds : Vics → Prop
  | .running c => ∀ k, (c.vic k).stackI ≤ pl192PrioLevels
  | .halted => True

theorem Vics.Wf.stacks (h : v.Wf) : v.StacksInBounds := by
  cases v with
  | running c => exact fun k => (h k).stack
  | halted => exact trivial

/-- **A run of accesses and line changes stays inside the arrays** exactly if it never acknowledges
    where nothing is to be acknowledged or the stack is full, be it the controller's own or that of
    the one its daisy interrupt comes from. -/
theorem pl192Run_bounds (ops : List Pl192Op) :
    (∃ v, runFrom Pl192Op.exec .start ops = some v ∧ v.StacksInBounds) ↔
      StepsMeet Pl192Op.exec Pl192Op.AckInBounds .start ops := by
  have hin : ∀ v op, v.Wf → Pl192Op.AckInBounds v op → ∃ v', Pl192Op.exec v op = some v' ∧ v'.Wf :=
    fun v op h hop => Pl192Op.exec_inside h hop
  constructor
  · rintro ⟨v, hrun, -⟩
    exact (runFrom_exact hin (fun v op h hop => Pl192Op.exec_fault h hop) start_wf ops).mp ⟨v, hrun⟩
  · intro hops
    obtain ⟨v, hrun, hv⟩ := runFrom_invariant hin start_wf hops
    exact ⟨v, hrun, hv.stacks⟩

/-- An acknowledge of a controller that was just reset reads a priority behind the priorities. -/
theorem pl192Run_idle_ack :
    ¬∃ v, runFrom Pl192Op.exec .start [.read 0 0xF00] = some v ∧ v.StacksInBounds := by
  rintro ⟨v, hrun, -⟩
  have hfault : runFrom Pl192Op.exec .start [.read 0 0xF00] = none := by
    rw [runFrom, Pl192Op.exec_fault start_wf]
    · rfl
    · intro hack
      exact (hack rfl).1 rfl
  rw [hfault] at hrun
  cases hrun

end Qemu.Hw
