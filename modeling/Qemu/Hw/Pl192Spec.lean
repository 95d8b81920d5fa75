import Qemu.Hw.Pl192
import Mathlib.Data.List.FinRange

namespace Qemu.Hw

/-!
# What a PL192 works out

* `prioIrq_eq`, `prioIrq_source`, `pl192PrioritySorter_eq` — the first interrupt;
* `Pl192.refresh`, `Pl192.lineChange`, `pl192UpdateWith_eq` — an update, as what it works out and
  what it does to the line;
* `pl192Update_forall`, `pl192Lower_forall` — what an update of a chain keeps.
-/

/-! ### The sorter -/

/-- A table that is filled from the end has the first entry for each priority. -/
theorem foldr_update_eq (bit : Fin 32 → Bool) (prio : Fin 32 → Nat) (init : Nat → Nat) (p : Nat)
    (l : List (Fin 32)) :
    l.foldr (fun i f => if bit i then Function.update f (prio i) i else f) init p =
      match l.find? fun i => bit i && decide (prio i = p) with
      | some i => i.val
      | none => init p := by
  induction l with
  | nil => rfl
  | cons i l ih =>
    rw [List.foldr_cons]
    by_cases hb : bit i = true
    · rw [if_pos hb]
      by_cases hp : prio i = p
      · rw [hp, Function.update_self, List.find?_cons_of_pos (by rw [hb, decide_eq_true hp]; rfl)]
      · rw [Function.update_of_ne (Ne.symm hp), ih,
          List.find?_cons_of_neg
            (by rw [decide_eq_false hp, Bool.and_false]; exact Bool.false_ne_true)]
    · rw [if_neg hb, ih, List.find?_cons_of_neg]
      rw [Bool.eq_false_iff.mpr hb, Bool.false_and]
      exact Bool.false_ne_true

/-- The source is pending, and has this priority. -/
def Pl192.at (s : Pl192) (p : Nat) (i : Fin 32) : Bool :=
  s.irqStatus.getLsbD i && decide (s.vectPriority.get i = p)

theorem prioIrq_eq (s : Pl192) (p : Nat) :
    prioIrq s p =
      match (List.finRange 32).find? (s.at p) with
      | some i => i.val
      | none => if s.daisyInput ∧ p = s.daisyPriority then pl192DaisyIrq else pl192NoIrq :=
  foldr_update_eq (fun i => s.irqStatus.getLsbD i) (fun i => s.vectPriority.get i) _ p _

theorem prioIrq_le (s : Pl192) (p : Nat) : prioIrq s p ≤ pl192NoIrq := by
  rw [prioIrq_eq]
  cases (List.finRange 32).find? (s.at p) with
  | some i => exact i.isLt.le.trans (by decide)
  | none =>
    show (if s.daisyInput ∧ p = s.daisyPriority then pl192DaisyIrq else pl192NoIrq) ≤ pl192NoIrq
    split_ifs
    · decide
    · exact Nat.le_refl _

variable {p : Nat} {s : Pl192}

theorem prioIrq_daisy (h : prioIrq s p = pl192DaisyIrq) : s.daisyInput = true := by
  rw [prioIrq_eq] at h
  cases hf : (List.finRange 32).find? (s.at p) with
  | some i =>
    rw [hf] at h
    exact absurd h (Nat.ne_of_lt i.isLt)
  | none =>
    rw [hf] at h
    have h : (if s.daisyInput ∧ p = s.daisyPriority then pl192DaisyIrq else pl192NoIrq) =
      pl192DaisyIrq := h
    split_ifs at h with hd
    · exact hd.1
    · exact absurd h (by decide)

/-- A source of a priority, and the first one of it. -/
theorem prioIrq_source (h : prioIrq s p < 32) :
    ∃ i : Fin 32, prioIrq s p = i ∧ s.at p i = true ∧ ∀ j : Fin 32, s.at p j = true → i ≤ j := by
  rw [prioIrq_eq] at h ⊢
  cases hf : (List.finRange 32).find? (s.at p) with
  | some i =>
    refine ⟨i, rfl, List.find?_some hf, fun j hj => ?_⟩
    by_contra hlt
    obtain ⟨-, l, l', hl, hnone⟩ := List.find?_eq_some_iff_append.mp hf
    have hsorted := List.pairwise_lt_finRange 32
    rw [hl] at hsorted
    have hmem := List.mem_finRange j
    rw [hl] at hmem
    obtain hmem | hmem := List.mem_append.mp hmem
    · have := hnone j hmem
      rw [hj] at this
      exact absurd this (by decide)
    · obtain rfl | hmem := List.mem_cons.mp hmem
      · exact hlt (le_refl _)
      · have hcons := (List.pairwise_append.mp hsorted).2.1
        exact hlt ((List.pairwise_cons.mp hcons).1 j hmem).le
  | none =>
    rw [hf] at h
    have h : (if s.daisyInput ∧ p = s.daisyPriority then pl192DaisyIrq else pl192NoIrq) < 32 := h
    split_ifs at h
    · exact absurd h (by decide)
    · exact absurd h (by decide)

theorem prioIrq_of_at {i : Fin 32} (h : s.at p i = true) : prioIrq s p < 32 := by
  rw [prioIrq_eq]
  cases hf : (List.finRange 32).find? (s.at p) with
  | some j => exact j.isLt
  | none => exact absurd h (List.find?_eq_none.mp hf i (List.mem_finRange i))

/-- The priority mask lets a priority through. -/
def Pl192.allows (s : Pl192) (p : Nat) : Bool := s.swPriorityMask.getLsbD p

/-- What the sorter looks for. -/
def Pl192.level (s : Pl192) (p : Nat) : Bool :=
  s.allows p && decide (prioIrq s p ≤ pl192DaisyIrq)

theorem pl192PrioritySorter_eq (s : Pl192) :
    pl192PrioritySorter s =
      match (List.range pl192PrioLevels).find? s.level with
      | some p => prioIrq s p
      | none => pl192NoIrq := rfl

theorem pl192PrioritySorter_le (s : Pl192) : pl192PrioritySorter s ≤ pl192NoIrq := by
  rw [pl192PrioritySorter_eq]
  cases (List.range pl192PrioLevels).find? s.level with
  | some p => exact prioIrq_le s p
  | none => exact Nat.le_refl _

theorem pl192PrioritySorter_daisy (h : pl192PrioritySorter s = pl192DaisyIrq) :
    s.daisyInput = true := by
  rw [pl192PrioritySorter_eq] at h
  cases hf : (List.range pl192PrioLevels).find? s.level with
  | some p =>
    rw [hf] at h
    exact prioIrq_daisy h
  | none =>
    rw [hf] at h
    have h : pl192NoIrq = pl192DaisyIrq := h
    exact absurd h (by decide)

/-! ### Updates -/

/-- There is something to sort. -/
def Pl192.active (s : Pl192) : Bool := s.irqStatus != 0 || s.daisyInput

/-- What an update works out. -/
def Pl192.refresh (s : Pl192) : Pl192 :=
  if s.latch.active then s.latch.choose else { s.latch with currentHighest := pl192NoIrq }

/-- What an update does to the line of the parent. -/
inductive LineChange
  | keep | raise | lower
deriving DecidableEq, Repr

/-- What is to be done with these results. -/
def Pl192.lineChange (s : Pl192) : LineChange :=
  if s.active then
    if s.currentHighest = s.current ∨ s.masked then .keep
    else if s.currentHighest ≤ pl192DaisyIrq then .raise
    else .lower
  else .lower

/-- The chain with what the update of a controller works out. -/
def Chain.refresh (c : Chain) (k : Nat) : Chain :=
  { c.set k (c.vic k).refresh with fiq := (c.vic k).latch.fiqStatus != 0 }

theorem refresh_active (s : Pl192) : s.refresh.active = s.latch.active := by
  unfold Pl192.refresh
  split_ifs
  · rfl
  · rfl

/-- **An update** works out the interrupt that comes first, and then changes the line or not. -/
theorem pl192UpdateWith_eq (raise lower : Chain → Chain) (k : Nat) (c : Chain) :
    pl192UpdateWith raise lower k c =
      match (c.vic k).refresh.lineChange with
      | .keep => c.refresh k
      | .raise => raise (c.refresh k)
      | .lower => lower (c.refresh k) := by
  have hset : ∀ s s' : Pl192,
      ({ c.set k s with fiq := (c.vic k).latch.fiqStatus != 0 } : Chain).set k s' =
      { c.set k s' with fiq := (c.vic k).latch.fiqStatus != 0 } := by
    intro s s'
    unfold Chain.set
    rw [Function.update_idem]
  unfold pl192UpdateWith
  dsimp only
  rw [hset, hset]
  unfold Pl192.lineChange Chain.refresh
  rw [refresh_active]
  -- an active source may be the current one or masked
  by_cases hact : (c.vic k).latch.active = true
  · have hpos : ((c.vic k).latch.irqStatus != 0 || (c.vic k).latch.daisyInput) = true := hact
    have href : (c.vic k).refresh = (c.vic k).latch.choose := if_pos hact
    rw [if_pos hpos, if_pos hact, href]
    by_cases hcur : (c.vic k).latch.choose.currentHighest = (c.vic k).latch.choose.current
    · rw [if_pos hcur, if_pos (.inl hcur)]
    · rw [if_neg hcur]
      by_cases hmask : (c.vic k).latch.choose.masked = true
      · rw [if_pos hmask, if_pos (.inr hmask)]
      · rw [if_neg hmask, if_neg (not_or.mpr ⟨hcur, hmask⟩)]
        split_ifs
        · rfl
        · rfl
  · have hneg : ¬((c.vic k).latch.irqStatus != 0 || (c.vic k).latch.daisyInput) = true := hact
    have href : (c.vic k).refresh = { (c.vic k).latch with currentHighest := pl192NoIrq } :=
      if_neg hact
    rw [if_neg hneg, if_neg hact, href]

theorem pl192Update_succ (k : Nat) (c : Chain) :
    pl192Update (k + 1) c =
      match (c.vic (k + 1)).refresh.lineChange with
      | .keep => c.refresh (k + 1)
      | .raise => pl192Update k ((c.refresh (k + 1)).raiseDaisy k)
      | .lower => pl192Update k ((c.refresh (k + 1)).lowerDaisy k) :=
  pl192UpdateWith_eq _ _ _ _

theorem pl192Update_zero (c : Chain) :
    pl192Update 0 c =
      match (c.vic 0).refresh.lineChange with
      | .keep => c.refresh 0
      | .raise => { c.refresh 0 with irq := true }
      | .lower => { c.refresh 0 with irq := false } :=
  pl192UpdateWith_eq _ _ _ _

@[simp] theorem Chain.set_self (c : Chain) (k : Nat) (s : Pl192) : (c.set k s).vic k = s :=
  Function.update_self ..

variable {c : Chain}

theorem Chain.set_of_ne {k j : Nat} (h : j ≠ k) : (c.set k s).vic j = c.vic j :=
  Function.update_of_ne h ..

variable {I : Nat → Pl192 → Prop}

theorem Chain.forall_set {k : Nat} (h : ∀ j, j ≠ k → I j (c.vic j)) (hs : I k s) (j : Nat) :
    I j ((c.set k s).vic j) := by
  by_cases hj : j = k
  · rw [hj, Chain.set_self]
    exact hs
  · rw [Chain.set_of_ne hj]
    exact h j hj

/-- What a refresh and the changes of a daisy input keep. -/
structure Kept (I : Nat → Pl192 → Prop) : Prop where
  refresh : ∀ k s, I k s → I k s.refresh
  raise : ∀ k s v, I k s →
    I k { s with daisyVectaddr := v, daisyCallback := some (k + 1), daisyInput := true }
  lower : ∀ k s, I k s → I k { s with daisyInput := false }

/-- **An update of the chain** keeps what a refresh and the changes of a daisy input keep. -/
theorem pl192Update_forall (hI : Kept I) (k : Nat) (h : ∀ j, I j (c.vic j)) (j : Nat) :
    I j ((pl192Update k c).vic j) := by
  induction k generalizing c with
  | zero =>
    have hrefresh := Chain.forall_set (fun j _ => h j) (hI.refresh 0 _ (h 0)) j
    rw [pl192Update_zero]
    cases (c.vic 0).refresh.lineChange with
    | keep => exact hrefresh
    | raise => exact hrefresh
    | lower => exact hrefresh
  | succ k ih =>
    have hrefresh := Chain.forall_set (fun j _ => h j) (hI.refresh (k + 1) _ (h (k + 1)))
    rw [pl192Update_succ]
    cases (c.vic (k + 1)).refresh.lineChange with
    | keep => exact hrefresh j
    | raise => exact ih (Chain.forall_set (fun j _ => hrefresh j) (hI.raise k _ _ (hrefresh k)))
    | lower => exact ih (Chain.forall_set (fun j _ => hrefresh j) (hI.lower k _ (hrefresh k)))

theorem pl192Lower_forall (hI : Kept I) (k : Nat) (h : ∀ j, I j (c.vic j)) (j : Nat) :
    I j ((pl192Lower k c).vic j) := by
  cases k with
  | zero => exact h j
  | succ k =>
    exact pl192Update_forall hI k (Chain.forall_set (fun j _ => h j) (hI.lower k _ (h k))) j

end Qemu.Hw
