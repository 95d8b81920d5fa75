import Qemu.Hw.Pl192Line

namespace Qemu.Hw

open Qemu.Lib

/-!
# The interrupts that a PL192 serves

* `Chain.LineInv` — the stacks, the results of the last update and the indexes, in every state;
* `Pl192Op.effect_line` — when an access leaves the line right;
* `pl192Read_vectAddr` — what an acknowledge returns;
* `Nested`, `Nested.restores` — acknowledges and ends of interrupts in pairs;
* `pl192Run_line` — all of this in every state that is reached.
-/

/-! ### What holds of every state -/

/-- The top of the stacks is the interrupt that is being served and its priority. -/
structure Pl192.StackTop (s : Pl192) : Prop where
  priority : s.priorityStack[s.stackI]? = some s.priority
  irq : s.irqStack[s.stackI]? = some s.current

/-- The results of the last update are up to date. -/
def Pl192.Fresh (s : Pl192) : Prop := s.refresh = s

/-- The invariant of the chain, for the line. -/
structure Chain.LineInv (c : Chain) : Prop where
  wf : c.Wf
  prio : ∀ k, (c.vic k).PrioWf
  top : ∀ k, (c.vic k).StackTop
  fresh : ∀ k, (c.vic k).Fresh

theorem refresh_fresh (s : Pl192) : s.refresh.Fresh := by
  have hact := refresh_active s
  unfold Pl192.Fresh
  by_cases h : s.latch.active = true
  · have href : s.refresh = s.latch.choose := if_pos h
    rw [href]
    exact if_pos h
  · have href : s.refresh = { s.latch with currentHighest := pl192NoIrq } := if_neg h
    rw [href]
    exact if_neg h

variable {s : Pl192}

theorem Pl192.Fresh.push (h : s.Fresh) : s.push.Fresh := by
  have hpush : s.push.refresh = s.refresh.push := by
    unfold Pl192.refresh
    have hact : s.push.latch.active = s.latch.active := rfl
    rw [hact]
    split_ifs
    · rfl
    · rfl
  rw [Pl192.Fresh, hpush, h]

theorem Pl192.Fresh.pop (h : s.Fresh) : s.pop.Fresh := by
  have hpop : s.pop.refresh = s.refresh.pop := by
    unfold Pl192.refresh
    have hact : s.pop.latch.active = s.latch.active := rfl
    rw [hact]
    split_ifs
    · rfl
    · rfl
  rw [Pl192.Fresh, hpop, h]

variable {c : Chain}

/-- An update brings the controllers up to date of which others have been all along. -/
theorem pl192Update_fresh (k : Nat) (h : ∀ j, j ≠ k → (c.vic j).Fresh) (j : Nat) :
    ((pl192Update k c).vic j).Fresh := by
  induction k generalizing c with
  | zero =>
    have hall := Chain.forall_set (I := fun _ s => s.Fresh) h (refresh_fresh (c.vic 0)) j
    rw [pl192Update_zero]
    cases (c.vic 0).refresh.lineChange with
    | keep => exact hall
    | raise => exact hall
    | lower => exact hall
  | succ k ih =>
    have hall := Chain.forall_set (I := fun _ s => s.Fresh) h (refresh_fresh (c.vic (k + 1)))
    rw [pl192Update_succ]
    cases (c.vic (k + 1)).refresh.lineChange with
    | keep => exact hall j
    | raise =>
      refine ih fun i hi => ?_
      rw [Chain.raiseDaisy, Chain.set_of_ne hi]
      exact hall i
    | lower =>
      refine ih fun i hi => ?_
      rw [Chain.lowerDaisy, Chain.set_of_ne hi]
      exact hall i

theorem pl192FinUpdate_fresh (k : Nat) (h : ∀ j, j ≠ k → (c.vic j).Fresh) (j : Nat) :
    ((pl192FinUpdate k c).vic j).Fresh := by
  have hupdate := pl192Update_fresh k h
  unfold pl192FinUpdate
  dsimp only
  split_ifs
  · cases k with
    | zero => exact hupdate j
    | succ k =>
      refine pl192Update_fresh k (fun i hi => ?_) j
      rw [Chain.lowerDaisy, Chain.set_of_ne hi]
      exact hupdate i
  · exact hupdate j

/-- What holds of the priorities and the stacks. -/
structure Pl192.Served (s : Pl192) : Prop where
  prio : s.PrioWf
  top : s.StackTop

theorem served_kept : Kept fun _ s => Pl192.Served s where
  refresh _ s h := by
    unfold Pl192.refresh
    split_ifs
    · exact ⟨h.prio, h.top.priority, h.top.irq⟩
    · exact ⟨h.prio, h.top.priority, h.top.irq⟩
  raise _ _ _ h := ⟨h.prio, h.top.priority, h.top.irq⟩
  lower _ _ h := ⟨h.prio, h.top.priority, h.top.irq⟩

theorem pl192FinUpdate_forall {I : Nat → Pl192 → Prop} (hI : Kept I) (k : Nat)
    (h : ∀ j, I j (c.vic j)) (j : Nat) : I j ((pl192FinUpdate k c).vic j) := by
  have hupdate := pl192Update_forall hI k h
  unfold pl192FinUpdate
  dsimp only
  split_ifs
  · exact pl192Lower_forall hI k hupdate j
  · exact hupdate j

theorem Pl192.PrioWf.push (h : s.PrioWf) (hroom : s.stackI < pl192PrioLevels) : s.push.Served := by
  have hP : pl192PrioLevels = 16 := rfl
  have hget : ∀ (v : Vector Nat 17) (a : Nat), (v.setIfInBounds (s.stackI + 1) a)[s.stackI + 1]? =
      some a := by
    intro v a
    rw [Vector.getElem?_setIfInBounds_self, if_pos (by omega)]
  exact ⟨h, hget _ _, hget _ _⟩

theorem Pl192.PrioWf.pop (h : s.PrioWf) (hstack : s.stackI ≤ pl192PrioLevels) : s.pop.Served := by
  have hP : pl192PrioLevels = 16 := rfl
  have hlt : s.stackI - 1 < 17 := by omega
  have hget : ∀ v : Vector Nat 17, v[s.stackI - 1]? = some ((v[s.stackI - 1]?).getD 0) := by
    intro v
    rw [Vector.getElem?_eq_getElem hlt]
    rfl
  exact ⟨h, hget _, hget _⟩

variable {offset : Nat} {s' : Pl192} {value : BitVec 32}

/-- A write keeps priorities and stacks. -/
theorem Pl192.Served.written (h : s.Served) (hw : s.written offset value = some s') :
    s'.Served := by
  unfold Pl192.written at hw
  split_ifs at hw with hmod haddr hprio
  · obtain rfl := Option.some.inj hw
    exact ⟨h.prio, h.top.priority, h.top.irq⟩
  · obtain rfl := Option.some.inj hw
    refine ⟨fun i => ?_, h.top.priority, h.top.irq⟩
    show (s.vectPriority.setIfInBounds _ _)[i.val] < pl192PrioLevels
    rw [Vector.getElem_setIfInBounds]
    split_ifs
    · have hand := BitVec.toNat_and value 0xf
      rw [hand]
      exact Nat.lt_succ_of_le Nat.and_le_right
    · exact h.prio i
  · unfold pl192WriteReg at hw
    split at hw
    case h_9 => cases hw
    all_goals
      obtain rfl := Option.some.inj hw
      exact ⟨h.prio, h.top.priority, h.top.irq⟩

theorem Chain.LineInv.served (h : c.LineInv) (k : Nat) : (c.vic k).Served :=
  ⟨h.prio k, h.top k⟩

variable {k : Nat}

/-- An acknowledge leaves the other controllers up to date. -/
theorem Chain.LineInv.acked (h : c.LineInv) (hk : c.CanAck k) :
    (∀ j, ((c.acked k).vic j).Served) ∧ ∀ j, j ≠ k → ((c.acked k).vic j).Fresh := by
  obtain ⟨-, hroom, hdaisy⟩ := hk
  have hset := Chain.forall_set (I := fun _ s => Pl192.Served s) (k := k)
    (fun j _ => h.served j) (Pl192.PrioWf.push (s := (c.vic k).taken) (h.prio k) hroom)
  have hfresh : ∀ j, j ≠ k → ((c.set k (c.vic k).taken.push).vic j).Fresh := by
    intro j hj
    rw [Chain.set_of_ne hj]
    exact h.fresh j
  unfold Chain.acked
  dsimp only
  split_ifs with hd
  · refine ⟨Chain.forall_set (fun j _ => hset j) ((h.prio _).push (hdaisy hd).2), fun j hj => ?_⟩
    exact Chain.forall_set (I := fun j s => j ≠ k → s.Fresh) (fun j _ => hfresh j)
      (fun _ => (h.fresh _).push) j hj
  · exact ⟨hset, hfresh⟩

theorem Chain.LineInv.popped (h : c.LineInv) (k : Nat) :
    (∀ j, ((c.popped k).vic j).Served) ∧ ∀ j, j ≠ k → ((c.popped k).vic j).Fresh := by
  have hset := Chain.forall_set (I := fun _ s => Pl192.Served s) (k := k)
    (fun j _ => h.served j) ((h.prio k).pop (h.wf k).stack)
  have hfresh : ∀ j, j ≠ k → ((c.set k (c.vic k).pop).vic j).Fresh := by
    intro j hj
    rw [Chain.set_of_ne hj]
    exact h.fresh j
  unfold Chain.popped
  dsimp only
  split_ifs with hd
  · refine ⟨Chain.forall_set (fun j _ => hset j) ((h.prio _).pop (h.wf _).stack), fun j hj => ?_⟩
    exact Chain.forall_set (I := fun j s => j ≠ k → s.Fresh) (fun j _ => hfresh j)
      (fun _ => (h.fresh _).pop) j hj
  · exact ⟨hset, hfresh⟩

variable {c' : Chain} {op : Pl192Op}

/-- **Every access keeps the invariant.** -/
theorem Pl192Op.Effect.lineInv (h : c.LineInv) (hwf : c'.Wf) (he : op.Effect c c') :
    c'.LineInv := by
  have hset : ∀ k (s : Pl192), s.Served → (pl192Update k (c.set k s)).Wf →
      (pl192Update k (c.set k s)).LineInv := by
    intro k s hs hwf
    have hserved := pl192Update_forall served_kept k
      (Chain.forall_set (k := k) (fun j _ => h.served j) hs)
    refine ⟨hwf, fun j => (hserved j).prio, fun j => (hserved j).top, pl192Update_fresh k ?_⟩
    intro j hj
    rw [Chain.set_of_ne hj]
    exact h.fresh j
  cases he with
  | look => exact h
  | ignored => exact h
  | line k line level =>
    exact hset k _ ⟨h.prio k, (h.top k).priority, (h.top k).irq⟩ hwf
  | write k offset value s hw => exact hset k s ((h.served k).written hw) hwf
  | ack k hk =>
    obtain ⟨hserved, hfresh⟩ := h.acked hk
    have hserved := pl192Update_forall served_kept k hserved
    exact ⟨hwf, fun j => (hserved j).prio, fun j => (hserved j).top, pl192Update_fresh k hfresh⟩
  | fin k value hstack =>
    obtain ⟨hserved, hfresh⟩ := h.popped k
    have hserved := pl192FinUpdate_forall served_kept k hserved
    exact ⟨hwf, fun j => (hserved j).prio, fun j => (hserved j).top, pl192FinUpdate_fresh k hfresh⟩

/-- The invariant of the machine. -/
def Vics.LineInv : Vics → Prop
  | .running c => c.LineInv
  | .halted => True

variable {v : Vics}

theorem Vics.LineInv.wf (h : v.LineInv) : v.Wf := by
  cases v with
  | running c => exact Chain.LineInv.wf h
  | halted => exact trivial

/-- An operation keeps it. -/
theorem Pl192Op.exec_lineInv {v' : Vics} (h : v.LineInv) (he : op.exec v = some v') :
    v'.LineInv := by
  have hwf : v'.Wf := by
    have hin : op.AckInBounds v := by
      by_contra hn
      rw [Pl192Op.exec_fault h.wf hn] at he
      cases he
    obtain ⟨v₁, h₁, hv₁⟩ := Pl192Op.exec_inside h.wf hin
    obtain rfl := Option.some.inj (h₁.symm.trans he)
    exact hv₁
  cases v' with
  | halted => exact trivial
  | running c' =>
    cases v with
    | halted => cases he
    | running c => exact (Pl192Op.effect (Chain.LineInv.wf h) he).lineInv h hwf

theorem start_lineInv : Vics.start.LineInv where
  wf := start_wf
  prio _ := by
    show pl192Reset.PrioWf
    unfold Pl192.PrioWf
    decide
  top _ := ⟨rfl, rfl⟩
  fresh _ := by
    show pl192Reset.refresh = pl192Reset
    rw [Pl192.refresh, if_neg (by decide)]
    rfl

/-! ### The line -/

/-- The access is one of the first controller, whose line is the parent's. -/
def Pl192Op.place : Pl192Op → Nat
  | .irq k _ _ => k
  | .read k _ => k
  | .write k _ _ => k

/-- **The access leaves the line right.**  A look at a register does if the line is right, an
    acknowledge if the line is down, the last end of an interrupt if no source comes before what is
    then served, and anything else if its update does. -/
def Pl192Op.LineOk (c : Chain) : Pl192Op → Prop
  | .irq _ line level => ((c.vic 0).withLine line level).LineSettles c.irq
  | .read _ offset => if offset = 0xF00 then c.irq = false else c.LineRight
  | .write _ offset value =>
    if offset = 0xF00 then
      if (c.vic 0).pop.current = pl192NoIrq then ¬(c.vic 0).pop.Wants
      else (c.vic 0).pop.LineSettles c.irq
    else
      match (c.vic 0).written offset value with
      | some s => s.LineSettles c.irq
      | none => c.LineRight

theorem set_line (hd : s.daisyInput = false) (hp : s.PrioWf) :
    (pl192Update 0 (c.set 0 s)).LineRight ↔ s.LineSettles c.irq := by
  have hself := c.set_self 0 s
  have hline :=
    pl192Update_line (c := c.set 0 s) (by rw [hself]; exact hd) (by rw [hself]; exact hp)
  rwa [hself] at hline

theorem written_daisy (hw : s.written offset value = some s') : s'.daisyInput = s.daisyInput := by
  unfold Pl192.written at hw
  split_ifs at hw
  · obtain rfl := Option.some.inj hw
    rfl
  · obtain rfl := Option.some.inj hw
    rfl
  · unfold pl192WriteReg at hw
    split at hw
    case h_9 => cases hw
    all_goals
      obtain rfl := Option.some.inj hw
      rfl

/-- In a state that is up to date, the first source is the one that was found. -/
theorem Pl192.Fresh.first (h : s.Fresh) (hd : s.daisyInput = false) (hp : s.PrioWf) {i : Fin 32}
    (hi : s.First i) : s.currentHighest = i ∧ s.address = s.vectAddr.get i := by
  have hpend : ¬∀ i, s.pending i = false := by
    intro hidle
    have hc := hi.candidate
    rw [Pl192.candidate, hidle, Bool.false_and] at hc
    cases hc
  have href := (refresh_pending hpend).1
  rw [h] at href
  have hsort : pl192PrioritySorter s.latch = i := by
    obtain ⟨j, hj, hsort⟩ | ⟨hnone, -⟩ := pl192PrioritySorter_cases hd hp
    · rw [hsort, hj.unique hi]
    · exact absurd hi.candidate (Bool.eq_false_iff.mp (hnone i))
  have hhigh : s.currentHighest = i := (congrArg Pl192.currentHighest href).trans hsort
  refine ⟨hhigh, (congrArg Pl192.address href).trans ?_⟩
  show (if h : pl192PrioritySorter s.latch < 32 then s.vectAddr[pl192PrioritySorter s.latch]
    else s.daisyVectaddr) = _
  simp only [hsort]
  exact dif_pos i.isLt

/-- In a state that is up to date, what was found is the first source or none. -/
theorem Pl192.Fresh.cases (h : s.Fresh) (hd : s.daisyInput = false) (hp : s.PrioWf) :
    (∃ i, s.First i) ∨ s.currentHighest = pl192NoIrq := by
  by_cases hidle : ∀ i, s.pending i = false
  · refine .inr ?_
    have hact : ¬s.latch.active = true := by
      rw [Pl192.active, pending_none.mp hidle]
      show ¬s.daisyInput = true
      rw [hd]
      exact Bool.false_ne_true
    have href : s.refresh = { s.latch with currentHighest := pl192NoIrq } := if_neg hact
    rw [h] at href
    exact congrArg Pl192.currentHighest href
  · have href := (refresh_pending hidle).1
    rw [h] at href
    obtain ⟨i, hi, -⟩ | ⟨-, hsort⟩ := pl192PrioritySorter_cases hd hp
    · exact .inl ⟨i, hi⟩
    · exact .inr ((congrArg Pl192.currentHighest href).trans hsort)

/-- An acknowledge leaves the line as it is, and nothing comes before what it takes. -/
theorem ack_settles (h : s.Fresh) (hd : s.daisyInput = false) (hp : s.PrioWf)
    (hno : s.currentHighest ≠ pl192NoIrq) (line : Bool) :
    s.taken.push.LineSettles line ↔ line = false := by
  obtain ⟨i, hi⟩ | hnone := h.cases hd hp
  · obtain ⟨hhigh, -⟩ := h.first hd hp hi
    have hfirst : s.taken.push.First i := ⟨hi.candidate, hi.before⟩
    have hprio : s.taken.push.priority = s.vectPriority.get i := by
      show (if h : s.currentHighest < 32 then s.vectPriority[s.currentHighest]
        else s.daisyPriority) = _
      simp only [hhigh]
      exact dif_pos i.isLt
    have hwants : ¬s.taken.push.Wants := by
      rw [hfirst.wants_iff, hprio]
      exact Nat.lt_irrefl _
    have hdrives : ¬s.taken.push.Drives := by
      rintro (hidle | ⟨hnone, -⟩ | ⟨j, hj, hne, -⟩)
      · have hc := hfirst.candidate
        rw [Pl192.candidate, hidle, Bool.false_and] at hc
        cases hc
      · exact absurd hfirst.candidate (Bool.eq_false_iff.mp (hnone i))
      · obtain rfl := hj.unique hfirst
        exact hne hhigh.symm
    unfold Pl192.LineSettles
    rw [or_iff_right hdrives, iff_false_right hwants, Bool.not_eq_true]
  · exact absurd hnone hno

theorem acked_vic (c : Chain) :
    (c.acked 0).vic 0 = (c.vic 0).taken.push ∧ (c.acked 0).irq = c.irq := by
  unfold Chain.acked
  dsimp only
  split_ifs
  · refine ⟨?_, rfl⟩
    rw [Chain.set_of_ne (Nat.zero_ne_one), Chain.set_self]
  · exact ⟨Chain.set_self .., rfl⟩

theorem popped_vic (c : Chain) : (c.popped 0).vic 0 = (c.vic 0).pop ∧ (c.popped 0).irq = c.irq := by
  unfold Chain.popped
  dsimp only
  split_ifs
  · refine ⟨?_, rfl⟩
    rw [Chain.set_of_ne (Nat.zero_ne_one), Chain.set_self]
  · exact ⟨Chain.set_self .., rfl⟩

/-- The end of an interrupt: with none left to serve, the line is lowered. -/
theorem fin_line (hd : (c.vic 0).daisyInput = false) (hp : (c.vic 0).PrioWf) :
    (pl192FinUpdate 0 c).LineRight ↔
      if (c.vic 0).current = pl192NoIrq then ¬(c.vic 0).Wants else (c.vic 0).LineSettles c.irq := by
  obtain ⟨-, hvic⟩ := update_irq c
  have hcur : ((pl192Update 0 c).vic 0).current = (c.vic 0).current := by
    rw [hvic]
    exact (refresh_fields _).1
  unfold pl192FinUpdate
  dsimp only
  rw [hcur]
  split_ifs with hlast
  · have hlower : (pl192Lower 0 (pl192Update 0 c)).LineRight ↔
      (false = true ↔ ((c.vic 0).refresh).Wants) := by
      rw [← hvic]
      rfl
    rw [hlower, refresh_wants]
    exact ⟨fun h hw => Bool.false_ne_true (h.mpr hw), fun h => iff_of_false Bool.false_ne_true h⟩
  · exact pl192Update_line hd hp

/-- **When an access leaves the line right.** -/
theorem Pl192Op.effect_line (h : c.LineInv) (hd : (c.vic 0).daisyInput = false)
    (hop : op.place = 0) (he : op.Effect c c') : c'.LineRight ↔ op.LineOk c := by
  -- only an access to the first controller moves the line
  cases he with
  | look k offset hoff => exact (iff_of_eq (if_neg hoff)).symm
  | ignored k offset value hw hoff =>
    obtain rfl : k = 0 := hop
    have hok : (Pl192Op.write 0 offset value).LineOk c = c.LineRight := by
      refine (if_neg hoff).trans ?_
      rw [hw]
    rw [hok]
  | line k line level =>
    obtain rfl : k = 0 := hop
    exact set_line hd (h.prio 0)
  | write k offset value s hw =>
    obtain rfl : k = 0 := hop
    have hoff : offset ≠ 0xF00 := by
      rintro rfl
      cases hw
    have hok : (Pl192Op.write 0 offset value).LineOk c = s.LineSettles c.irq := by
      refine (if_neg hoff).trans ?_
      rw [hw]
    rw [hok]
    exact set_line ((written_daisy hw).trans hd) ((h.served 0).written hw).prio
  | ack k hk =>
    obtain rfl : k = 0 := hop
    obtain ⟨hvic, hirq⟩ := acked_vic c
    have hline := pl192Update_line (c := c.acked 0) (by rw [hvic]; exact hd)
      (by rw [hvic]; exact h.prio 0)
    rw [hvic, hirq, ack_settles (h.fresh 0) hd (h.prio 0) hk.1] at hline
    exact hline
  | fin k value hstack =>
    obtain rfl : k = 0 := hop
    obtain ⟨hvic, hirq⟩ := popped_vic c
    have hline := fin_line (c := c.popped 0) (by rw [hvic]; exact hd) (by rw [hvic]; exact h.prio 0)
    rw [hvic, hirq] at hline
    exact hline

/-! ### Acknowledges -/

/-- **An acknowledge returns** the vector address of the first source that comes before what is
    being served. -/
theorem pl192Read_vectAddr (h : c.LineInv) (hd : (c.vic 0).daisyInput = false)
    (hread : pl192Read 0 c 0xF00 = .ok (c', value)) (hw : (c.vic 0).Wants) :
    ∃ i, (c.vic 0).First i ∧ (c.vic 0).vectPriority[i] < (c.vic 0).priority ∧
      value = (c.vic 0).vectAddr[i] := by
  have hread : pl192IrqAck 0 c = .ok (c', value) := hread
  by_cases hk : c.CanAck 0
  · rw [pl192IrqAck_ok h.wf hk] at hread
    have hvalue : (c.vic 0).address = value := congrArg Prod.snd (Except.ok.inj hread)
    obtain ⟨i, hi⟩ | hnone := (h.fresh 0).cases hd (h.prio 0)
    · refine ⟨i, hi, hi.wants_iff.mp hw, ?_⟩
      rw [← hvalue]
      exact ((h.fresh 0).first hd (h.prio 0) hi).2
    · exact absurd hnone hk.1
  · rw [pl192IrqAck_fault h.wf hk] at hread
    cases hread

/-! ### Nesting -/

/-- The access acknowledges or ends an interrupt of the first controller. -/
def Pl192Op.Stacks (op : Pl192Op) : Prop :=
  op = .read 0 0xF00 ∨ ∃ value, op = .write 0 0xF00 value

/-- Every acknowledge of the first controller is followed by the end of that interrupt. -/
inductive Nested : List Pl192Op → Prop
  | nil : Nested []
  | other (op : Pl192Op) (l : List Pl192Op) (hop : ¬op.Stacks) (h : Nested l) : Nested (op :: l)
  | pair (value : BitVec 32) (l l' : List Pl192Op) (h : Nested l) (h' : Nested l') :
      Nested (.read 0 0xF00 :: (l ++ .write 0 0xF00 value :: l'))

/-- What is being served, and what was interrupted for it, is the same. -/
structure SameServed (s s' : Pl192) : Prop where
  stackI : s'.stackI = s.stackI
  priority : s'.priority = s.priority
  current : s'.current = s.current
  priorities : ∀ j ≤ s.stackI, s'.priorityStack[j]? = s.priorityStack[j]?
  irqs : ∀ j ≤ s.stackI, s'.irqStack[j]? = s.irqStack[j]?

theorem SameServed.refl (s : Pl192) : SameServed s s :=
  ⟨rfl, rfl, rfl, fun _ _ => rfl, fun _ _ => rfl⟩

theorem SameServed.trans {s₁ s₂ s₃ : Pl192} (h : SameServed s₁ s₂) (h' : SameServed s₂ s₃) :
    SameServed s₁ s₃ where
  stackI := h'.stackI.trans h.stackI
  priority := h'.priority.trans h.priority
  current := h'.current.trans h.current
  priorities j hj := (h'.priorities j (by rw [h.stackI]; exact hj)).trans (h.priorities j hj)
  irqs j hj := (h'.irqs j (by rw [h.stackI]; exact hj)).trans (h.irqs j hj)

theorem sameServed_kept (s : Pl192) : Kept fun k s' => k = 0 → SameServed s s' where
  refresh k s' h hk := by
    refine (h hk).trans ?_
    unfold Pl192.refresh
    split_ifs
    · exact ⟨rfl, rfl, rfl, fun _ _ => rfl, fun _ _ => rfl⟩
    · exact ⟨rfl, rfl, rfl, fun _ _ => rfl, fun _ _ => rfl⟩
  raise _ _ _ h hk := (h hk).trans ⟨rfl, rfl, rfl, fun _ _ => rfl, fun _ _ => rfl⟩
  lower _ _ h hk := (h hk).trans ⟨rfl, rfl, rfl, fun _ _ => rfl, fun _ _ => rfl⟩

theorem update_served (k : Nat) (c : Chain) : SameServed (c.vic 0) ((pl192Update k c).vic 0) := by
  refine pl192Update_forall (sameServed_kept (c.vic 0)) k (fun j hj => ?_) 0 rfl
  subst hj
  exact .refl _

theorem finUpdate_served (k : Nat) (c : Chain) :
    SameServed (c.vic 0) ((pl192FinUpdate k c).vic 0) := by
  refine pl192FinUpdate_forall (sameServed_kept (c.vic 0)) k (fun j hj => ?_) 0 rfl
  subst hj
  exact .refl _

theorem acked_vic_of_ne (h : k ≠ 0) : (c.acked k).vic 0 = c.vic 0 := by
  unfold Chain.acked
  dsimp only
  split_ifs
  · rw [Chain.set_of_ne (Nat.succ_ne_zero k).symm, Chain.set_of_ne h.symm]
  · exact Chain.set_of_ne h.symm

theorem popped_vic_of_ne (h : k ≠ 0) : (c.popped k).vic 0 = c.vic 0 := by
  unfold Chain.popped
  dsimp only
  split_ifs
  · rw [Chain.set_of_ne (Nat.succ_ne_zero k).symm, Chain.set_of_ne h.symm]
  · exact Chain.set_of_ne h.symm

theorem written_served (hw : s.written offset value = some s') : SameServed s s' := by
  unfold Pl192.written at hw
  split_ifs at hw
  · obtain rfl := Option.some.inj hw
    exact ⟨rfl, rfl, rfl, fun _ _ => rfl, fun _ _ => rfl⟩
  · obtain rfl := Option.some.inj hw
    exact ⟨rfl, rfl, rfl, fun _ _ => rfl, fun _ _ => rfl⟩
  · unfold pl192WriteReg at hw
    split at hw
    case h_9 => cases hw
    all_goals
      obtain rfl := Option.some.inj hw
      exact ⟨rfl, rfl, rfl, fun _ _ => rfl, fun _ _ => rfl⟩

theorem set_served (h : SameServed (c.vic k) s) : SameServed (c.vic 0) ((c.set k s).vic 0) := by
  by_cases hk : k = 0
  · subst hk
    rw [Chain.set_self]
    exact h
  · rw [Chain.set_of_ne (Ne.symm hk)]
    exact .refl _

/-- An access that neither acknowledges nor ends an interrupt leaves what is served. -/
theorem Pl192Op.Effect.served (hop : ¬op.Stacks) (he : op.Effect c c') :
    SameServed (c.vic 0) (c'.vic 0) := by
  cases he with
  | look => exact .refl _
  | ignored => exact .refl _
  | line k line level =>
    have hline : SameServed (c.vic k) ((c.vic k).withLine line level) :=
      ⟨rfl, rfl, rfl, fun _ _ => rfl, fun _ _ => rfl⟩
    exact (set_served hline).trans (update_served k _)
  | write k offset value s hw => exact (set_served (written_served hw)).trans (update_served k _)
  | ack k hk =>
    have hne : k ≠ 0 := by
      rintro rfl
      exact hop (.inl rfl)
    have h := update_served k (c.acked k)
    rwa [acked_vic_of_ne hne] at h
  | fin k value hstack =>
    have hne : k ≠ 0 := by
      rintro rfl
      exact hop (.inr ⟨value, rfl⟩)
    have h := finUpdate_served k (c.popped k)
    rwa [popped_vic_of_ne hne] at h

/-- An end after an acknowledge, with what was acknowledged still on the stack, restores what was
    served before. -/
theorem pop_restores {s₁ s₂ s₃ : Pl192} (htop : s.StackTop) (hpush : SameServed s.taken.push s₁)
    (hbetween : SameServed s₁ s₂) (hpop : SameServed s₂.pop s₃) : SameServed s s₃ := by
  have hall := hpush.trans hbetween
  have hstack : s₂.stackI = s.stackI + 1 := hall.stackI
  have hne : ∀ j ≤ s.stackI, s.taken.stackI + 1 ≠ j := fun j hj =>
    Nat.ne_of_gt (Nat.lt_succ_of_le hj)
  have hprios : ∀ j ≤ s.stackI, s₂.priorityStack[j]? = s.priorityStack[j]? := by
    intro j hj
    rw [hall.priorities j (hj.trans (Nat.le_succ _))]
    exact Vector.getElem?_setIfInBounds_ne (hne j hj)
  have hirqs : ∀ j ≤ s.stackI, s₂.irqStack[j]? = s.irqStack[j]? := by
    intro j hj
    rw [hall.irqs j (hj.trans (Nat.le_succ _))]
    exact Vector.getElem?_setIfInBounds_ne (hne j hj)
  have hindex : s₂.stackI - 1 = s.stackI := by rw [hstack, Nat.add_sub_cancel]
  have hpopped : SameServed s s₂.pop := by
    refine ⟨hindex, ?_, ?_, hprios, hirqs⟩
    · show (s₂.priorityStack[s₂.stackI - 1]?).getD 0 = _
      rw [hindex, hprios _ le_rfl, htop.priority]
      rfl
    · show (s₂.irqStack[s₂.stackI - 1]?).getD 0 = _
      rw [hindex, hirqs _ le_rfl, htop.irq]
      rfl
  exact hpopped.trans hpop

theorem runFrom_halted (ops : List Pl192Op) :
    runFrom Pl192Op.exec .halted ops = some .halted := by
  induction ops with
  | nil => rfl
  | cons op ops ih => exact ih

theorem runFrom_cons_running {ops : List Pl192Op}
    (h : runFrom Pl192Op.exec (.running c) (op :: ops) = some (.running c')) :
    ∃ c₁, op.exec (.running c) = some (.running c₁) ∧
      runFrom Pl192Op.exec (.running c₁) ops = some (.running c') := by
  obtain ⟨v, hv, hrest⟩ := Option.bind_eq_some_iff.mp h
  cases v with
  | running c₁ => exact ⟨c₁, hv, hrest⟩
  | halted =>
    rw [runFrom_halted] at hrest
    exact nomatch Option.some.inj hrest

/-- A machine that goes on has gone on between two parts of a run. -/
theorem runFrom_append_running {l l' : List Pl192Op}
    (h : runFrom Pl192Op.exec (.running c) (l ++ l') = some (.running c')) :
    ∃ c₁, runFrom Pl192Op.exec (.running c) l = some (.running c₁) ∧
      runFrom Pl192Op.exec (.running c₁) l' = some (.running c') := by
  rw [runFrom_append] at h
  obtain ⟨v, hv, hrest⟩ := Option.bind_eq_some_iff.mp h
  cases v with
  | running c₁ => exact ⟨c₁, hv, hrest⟩
  | halted =>
    rw [runFrom_halted] at hrest
    exact nomatch Option.some.inj hrest

theorem run_lineInv {v' : Vics} (h : v.LineInv) {ops : List Pl192Op}
    (hrun : runFrom Pl192Op.exec v ops = some v') : v'.LineInv :=
  runFrom_keeps (fun _ _ _ hv he => Pl192Op.exec_lineInv hv he) h hrun

/-- **Nested interrupts** leave what was served before them. -/
theorem Nested.restores {l : List Pl192Op} (hl : Nested l) (h : c.LineInv)
    (hrun : runFrom Pl192Op.exec (.running c) l = some (.running c')) :
    SameServed (c.vic 0) (c'.vic 0) := by
  induction hl generalizing c c' with
  | nil =>
    obtain rfl := Vics.running.inj (Option.some.inj hrun)
    exact .refl _
  | other op l hop _ ih =>
    obtain ⟨c₁, h₁, hrest⟩ := runFrom_cons_running hrun
    have hinv : c₁.LineInv := Pl192Op.exec_lineInv (v := .running c) h h₁
    exact ((Pl192Op.effect h.wf h₁).served hop).trans (ih hinv hrest)
  | pair value l l' _ _ ih ih' =>
    obtain ⟨c₁, h₁, hrest⟩ := runFrom_cons_running hrun
    have hinv₁ : c₁.LineInv := Pl192Op.exec_lineInv (v := .running c) h h₁
    obtain ⟨c₂, h₂, hrest⟩ := runFrom_append_running hrest
    have hinv₂ : c₂.LineInv := run_lineInv (v := .running c₁) hinv₁ h₂
    obtain ⟨c₃, h₃, hrest⟩ := runFrom_cons_running hrest
    have hinv₃ : c₃.LineInv := Pl192Op.exec_lineInv (v := .running c₂) hinv₂ h₃
    have hack : SameServed (c.vic 0).taken.push (c₁.vic 0) := by
      cases Pl192Op.effect h.wf h₁ with
      | look _ _ hne => exact absurd rfl hne
      | ack _ hk =>
        rw [← (acked_vic c).1]
        exact update_served 0 _
    have hfin : SameServed (c₂.vic 0).pop (c₃.vic 0) := by
      cases Pl192Op.effect hinv₂.wf h₃ with
      | ignored _ _ _ _ hne => exact absurd rfl hne
      | write _ _ _ s hw => cases hw
      | fin _ _ hstack =>
        rw [← (popped_vic c₂).1]
        exact finUpdate_served 0 _
    exact (pop_restores (h.top 0) hack (ih hinv₁ h₂) hfin).trans (ih' hinv₃ hrest)

/-- **In every state that is reached** without a daisy interrupt, an access of the first controller
    leaves the line right exactly under `LineOk`, an acknowledge returns the address of the first
    source that comes before what is served, and nested interrupts restore what was served. -/
theorem pl192Run_line (ops : List Pl192Op) (c : Chain)
    (hrun : runFrom Pl192Op.exec .start ops = some (.running c))
    (hd : (c.vic 0).daisyInput = false) :
    (∀ (op : Pl192Op) (c' : Chain), op.place = 0 → op.exec (.running c) = some (.running c') →
      (c'.LineRight ↔ op.LineOk c)) ∧
    (∀ (c' : Chain) (value : BitVec 32), pl192Read 0 c 0xF00 = .ok (c', value) → (c.vic 0).Wants →
      ∃ i, (c.vic 0).First i ∧ (c.vic 0).vectPriority[i] < (c.vic 0).priority ∧
        value = (c.vic 0).vectAddr[i]) ∧
    ∀ (l : List Pl192Op) (c' : Chain), Nested l →
      runFrom Pl192Op.exec (.running c) l = some (.running c') →
        (c'.vic 0).priority = (c.vic 0).priority ∧ (c'.vic 0).current = (c.vic 0).current := by
  have hinv : c.LineInv := run_lineInv start_lineInv hrun
  refine ⟨fun op c' hop he => ?_, fun c' value =>
    pl192Read_vectAddr hinv hd, fun l c' hl hrun' => ?_⟩
  · exact Pl192Op.effect_line hinv hd hop (Pl192Op.effect hinv.wf he)
  · have hserved := hl.restores hinv hrun'
    exact ⟨hserved.priority, hserved.current⟩

/-- A controller with one source enabled and asserted. -/
def pendingChain : Chain :=
  pl192IrqHandler 0
    (pl192Update 0
      (Chain.set ⟨fun _ => pl192Reset, false, false⟩ 0
        { pl192Reset with intenable := pl192Reset.intenable ||| 1 }))
    0 true

/-- It loses its assertion: the line goes down. -/
theorem pl192Run_line_lowered : (pl192IrqHandler 0 pendingChain 0 false).LineRight := by
  have hline := (pl192Run_line [.write 0 0x10 1, .irq 0 0 true] pendingChain rfl rfl).1
    (.irq 0 0 false) (pl192IrqHandler 0 pendingChain 0 false) rfl rfl
  refine hline.mpr (.inl (.inl ?_))
  decide

/-- After an acknowledge, the line is still up, and nothing comes before what was acknowledged. -/
theorem pl192Run_line_stale :
    ¬∀ (ops : List Pl192Op) (c : Chain), runFrom Pl192Op.exec .start ops = some (.running c) →
      (c.vic 0).daisyInput = false → c.LineRight := by
  intro h
  have hreached : runFrom Pl192Op.exec .start [.write 0 0x10 1, .irq 0 0 true] =
      some (.running pendingChain) := rfl
  have hinv : pendingChain.LineInv := run_lineInv start_lineInv hreached
  have hack : (Pl192Op.read 0 0xF00).exec (.running pendingChain) =
      some (.running (pl192Update 0 (pendingChain.acked 0))) := rfl
  have hline : _ ↔ (Pl192Op.read 0 0xF00).LineOk pendingChain :=
    Pl192Op.effect_line hinv rfl rfl (Pl192Op.effect hinv.wf hack)
  have hright := h [.write 0 0x10 1, .irq 0 0 true, .read 0 0xF00] _ rfl rfl
  have hdown : pendingChain.irq = false := hline.mp hright
  cases hdown

end Qemu.Hw
