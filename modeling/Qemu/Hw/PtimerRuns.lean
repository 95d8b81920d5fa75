import Qemu.Hw.Ptimer

namespace Qemu.Hw

open Lib

/-!
# Timers that are set and run

* `PtimerOp.set` — the timer that a setter restarts;
* `PtimerOp.Zero` — the count of an enabled timer reaches zero;
* `Ptimer.Kept` — an operation keeps the QEMU timer in step, and triggers when it should;
* `PtimerRun.Fits` — no setter disables an enabled timer, and none comes late;
* `ptimer_runs` — the runs in which every operation does.
-/

/-! ### Statements -/

/-- The timer that a setter restarts, if it is enabled. -/
def PtimerOp.set (s : Ptimer) : PtimerOp → Option Ptimer
  | .setCount count => some { s with delta := count }
  | .setPeriod period => some { s with period := period, periodFrac := 0 }
  | .setFreq freq => some { s with
      period := 1000000000 / freq.setWidth 64
      periodFrac := (1000000000 <<< 32 / freq.setWidth 64).setWidth 32 }
  | .setLimit limit true => some { s with limit := limit, delta := limit }
  | _ => none

/-- The time of an enabled timer has run out. -/
def Ptimer.RanOut (s : Ptimer) (now : BitVec 64) : Prop :=
  s.enabled ≠ .disabled ∧ s.nextEvent.sle now = true

/-- The count of an enabled timer is zero: its time has run out when the operation takes the
    deadline away, it is set to zero, or the timer starts with a count of zero. -/
def PtimerOp.Zero (s : Ptimer) (now : BitVec 64) : PtimerOp → Prop
  | .expire | .stop => s.RanOut now
  | .run _ => s.enabled = .disabled ∧ s.period ≠ 0 ∧ s.delta = 0
  | .bottomHalf => False
  | op => s.enabled ≠ .disabled ∧ ∃ s₁ ∈ op.set s, s.RanOut now ∨ s₁.delta = 0

/-- The timer can be enabled: there is something to count, and a period. -/
def Ptimer.Runs (s : Ptimer) : Prop := (s.delta ≠ 0 ∨ s.limit ≠ 0) ∧ s.period ≠ 0

instance Ptimer.RanOut.decidable (s : Ptimer) (now : BitVec 64) : Decidable (s.RanOut now) :=
  inferInstanceAs (Decidable (_ ∧ _))

instance PtimerOp.Zero.decidable (s : Ptimer) (now : BitVec 64) :
    ∀ op : PtimerOp, Decidable (op.Zero s now)
  | .expire | .stop => inferInstanceAs (Decidable (s.RanOut now))
  | .run _ => inferInstanceAs (Decidable (_ ∧ _ ∧ _))
  | .bottomHalf => inferInstanceAs (Decidable False)
  | .setCount _ | .setPeriod _ | .setFreq _ | .setLimit _ _ =>
    inferInstanceAs (Decidable (_ ∧ ∃ s₁ ∈ _, _))

instance Ptimer.Runs.decidable (s : Ptimer) : Decidable s.Runs :=
  inferInstanceAs (Decidable (_ ∧ _))

/-- The bottom half after an operation: it is scheduled when the count reaches zero, and only
    then. -/
def PtimerOp.bh (s : Ptimer) (now : BitVec 64) (op : PtimerOp) : Option Bool :=
  if op = .bottomHalf then s.bh.map fun _ => false
  else if op.Zero s now then s.bh.map fun _ => true
  else s.bh

/-- The QEMU timer is set if and only if the timer is enabled, and the bottom half has been
    triggered if and only if the count has reached zero. -/
structure Ptimer.Kept (s : Ptimer) (now : BitVec 64) (op : PtimerOp) (s' : Ptimer) : Prop where
  armed : s'.timer.isSome ↔ s'.enabled ≠ .disabled
  bh : s'.bh = op.bh s now

instance Ptimer.Kept.decidable (s : Ptimer) (now : BitVec 64) (op : PtimerOp) (s' : Ptimer) :
    Decidable (s.Kept now op s') :=
  decidable_of_iff ((s'.timer.isSome ↔ s'.enabled ≠ .disabled) ∧ s'.bh = op.bh s now)
    ⟨fun h => ⟨h.1, h.2⟩, fun h => ⟨h.armed, h.bh⟩⟩

/-- A timer, and whether the last operation was as it should be. -/
structure PtimerRun where
  timer : Ptimer
  kept : Bool

/-- `ptimer_init` -/
def PtimerRun.new (hasBh : Bool) : PtimerRun := ⟨ptimerInit hasBh, true⟩

/-- An operation at a time; `none` is a division by zero. -/
def PtimerRun.exec (r : PtimerRun) (a : PtimerOp × BitVec 64) : Option PtimerRun :=
  (a.1.exec r.timer a.2).toOption.map fun s => ⟨s, decide (r.timer.Kept a.2 a.1 s)⟩

/-- No frequency is zero, a setter leaves an enabled timer with a count and a period, and no stop or
    setter comes between the end of the time and the QEMU timer, if this would have triggered. -/
structure PtimerRun.Fits (r : PtimerRun) (a : PtimerOp × BitVec 64) : Prop where
  freq : ∀ freq, a.1 = .setFreq freq → freq ≠ 0
  runs : r.timer.enabled ≠ .disabled → ∀ s₁ ∈ a.1.set r.timer, s₁.Runs
  late : r.timer.RanOut a.2 → r.timer.bh = some false → a.1 ≠ .stop ∧
    ∀ s₁ ∈ a.1.set r.timer, s₁.delta = 0

/-! ### Reloads -/

variable {s s₁ s' : Ptimer} {now : BitVec 64} {op : PtimerOp}

@[simp] theorem ptimerTrigger_bh (s : Ptimer) :
    (ptimerTrigger s).bh = s.bh.map fun _ => true := rfl

@[simp] theorem ptimerTrigger_enabled (s : Ptimer) :
    (ptimerTrigger s).enabled = s.enabled := rfl

@[simp] theorem ptimerTrigger_timer (s : Ptimer) : (ptimerTrigger s).timer = s.timer := rfl

@[simp] theorem ptimerTrigger_limit (s : Ptimer) : (ptimerTrigger s).limit = s.limit := rfl

@[simp] theorem ptimerTrigger_period (s : Ptimer) : (ptimerTrigger s).period = s.period := rfl

@[simp] theorem ptimerTrigger_periodFrac (s : Ptimer) :
    (ptimerTrigger s).periodFrac = s.periodFrac := rfl

/-- What holds of a timer between operations. -/
structure Ptimer.Inv (s : Ptimer) : Prop where
  timer : s.timer = if s.enabled = .disabled then none else some s.nextEvent
  delta : s.enabled ≠ .disabled → s.delta ≠ 0
  period : s.enabled ≠ .disabled → s.period ≠ 0
  frac : s.periodFrac = 0 ∨ s.period.toNat < 2 ^ 32

theorem ptimerReload_bh (s : Ptimer) :
    (ptimerReload s).bh = if s.delta = 0 then s.bh.map fun _ => true else s.bh := by
  unfold ptimerReload ptimerArm ptimerRefill
  split_ifs <;> simp

/-- A reload of a timer that can run. -/
theorem ptimerReload_inv (hruns : s.Runs) (henabled : s.enabled ≠ .disabled)
    (hfrac : s.periodFrac = 0 ∨ s.period.toNat < 2 ^ 32) : (ptimerReload s).Inv := by
  obtain ⟨hcount, hperiod⟩ := hruns
  have hdelta : (ptimerRefill s).delta ≠ 0 := by
    unfold ptimerRefill
    split_ifs with hzero
    · exact hcount.resolve_left (not_not.mpr hzero)
    · exact hzero
  have hkeep : (ptimerRefill s).enabled = s.enabled ∧ (ptimerRefill s).period = s.period ∧
      (ptimerRefill s).periodFrac = s.periodFrac := by
    unfold ptimerRefill
    split_ifs <;> simp
  unfold ptimerReload ptimerArm
  rw [if_neg (not_or.mpr ⟨hdelta, hkeep.2.1 ▸ hperiod⟩)]
  refine ⟨?_, fun _ => hdelta, fun _ => hkeep.2.1 ▸ hperiod, ?_⟩
  · simp [hkeep, henabled]
  · rw [← hkeep.2.1, ← hkeep.2.2] at hfrac
    exact hfrac

/-- A reload of a timer that cannot run disables it. -/
theorem ptimerReload_disables (hruns : ¬s.Runs) :
    (ptimerReload s).enabled = .disabled ∧ (ptimerReload s).timer = s.timer ∧
      (ptimerReload s).periodFrac = s.periodFrac ∧ (ptimerReload s).period = s.period := by
  have hstop : (ptimerRefill s).delta = 0 ∨ (ptimerRefill s).period = 0 := by
    unfold ptimerRefill
    unfold Ptimer.Runs at hruns
    split_ifs with hzero
    · by_contra hne
      exact hruns ⟨.inr fun hlimit => hne (.inl hlimit), fun hperiod => hne (.inr hperiod)⟩
    · by_contra hne
      exact hruns ⟨.inl hzero, fun hperiod => hne (.inr hperiod)⟩
  unfold ptimerReload ptimerArm
  rw [if_pos hstop]
  unfold ptimerRefill
  split_ifs <;> simp

/-! ### Operations -/

theorem Ptimer.Inv.init (hasBh : Bool) : (ptimerInit hasBh).Inv :=
  ⟨rfl, fun h => absurd rfl h, fun h => absurd rfl h, .inl rfl⟩

theorem Ptimer.Inv.armed (h : s.Inv) : s.timer.isSome ↔ s.enabled ≠ .disabled := by
  rw [h.timer]
  split_ifs with hdisabled <;> simp [hdisabled]

theorem Ptimer.Inv.due (h : s.Inv) : s.due now = true ↔ s.RanOut now := by
  rw [Ptimer.due, h.timer, Ptimer.RanOut]
  split_ifs with hdisabled <;> simp [hdisabled]

/-! ### Setters -/

/-- What a setter leaves as it is. -/
theorem PtimerOp.set_keeps (h : s.Inv) (hset : s₁ ∈ op.set s) :
    s₁.enabled = s.enabled ∧ s₁.timer = s.timer ∧ s₁.bh = s.bh ∧
      (s₁.periodFrac = 0 ∨ s₁.period.toNat < 2 ^ 32) := by
  cases op with
  | setCount count =>
    obtain rfl := Option.some.inj hset
    exact ⟨rfl, rfl, rfl, h.frac⟩
  | setPeriod period =>
    obtain rfl := Option.some.inj hset
    exact ⟨rfl, rfl, rfl, .inl rfl⟩
  | setFreq freq =>
    obtain rfl := Option.some.inj hset
    refine ⟨rfl, rfl, rfl, .inr ?_⟩
    show (1000000000 / freq.setWidth 64 : BitVec 64).toNat < 2 ^ 32
    rw [BitVec.toNat_udiv]
    exact (Nat.div_le_self _ _).trans_lt (by decide)
  | setLimit limit reload =>
    cases reload with
    | false => cases hset
    | true =>
      obtain rfl := Option.some.inj hset
      exact ⟨rfl, rfl, rfl, h.frac⟩
  | run _ | stop | expire | bottomHalf => cases hset

/-- A write to a register restarts the timer. -/
theorem PtimerOp.exec_set (hset : s₁ ∈ op.set s) (hfreq : ∀ freq, op = .setFreq freq → freq ≠ 0)
    (now : BitVec 64) :
    op.exec s now = .ok (ptimerRestart s₁ now) := by
  cases op with
  | setFreq freq =>
    obtain rfl := Option.some.inj hset
    have hne : freq.setWidth 64 ≠ 0 := by
      intro hzero
      refine hfreq freq rfl (BitVec.eq_of_toNat_eq ?_)
      have hnat := congrArg BitVec.toNat hzero
      rw [BitVec.toNat_setWidth, Nat.mod_eq_of_lt (freq.isLt.trans (by decide))] at hnat
      exact hnat
    show ptimerSetFreq s freq now = _
    rw [ptimerSetFreq, udiv_eq _ hne, udiv_eq _ hne]
    rfl
  | setLimit limit reload =>
    cases reload with
    | false => cases hset
    | true =>
      obtain rfl := Option.some.inj hset
      rfl
  | setCount _ | setPeriod _ =>
    obtain rfl := Option.some.inj hset
    rfl
  | run _ | stop | expire | bottomHalf => cases hset

/-- The bottom half is scheduled by a timer that ran out, or by a zero that is loaded. -/
theorem PtimerOp.bh_set (hset : s₁ ∈ op.set s) : op.bh s now =
    if s.enabled ≠ .disabled ∧ (s.RanOut now ∨ s₁.delta = 0) then s.bh.map fun _ => true
    else s.bh := by
  have hne : op ≠ .bottomHalf := by
    rintro rfl
    cases hset
  have hzero : op.Zero s now ↔ s.enabled ≠ .disabled ∧ (s.RanOut now ∨ s₁.delta = 0) := by
    have hex : (∃ s₂ ∈ op.set s, s.RanOut now ∨ s₂.delta = 0) ↔
        (s.RanOut now ∨ s₁.delta = 0) := by
      rw [Option.mem_def] at hset
      simp [hset]
    rw [← hex]
    cases op with
    | setCount _ | setPeriod _ | setFreq _ | setLimit _ _ => exact Iff.rfl
    | run _ | stop | expire | bottomHalf => cases hset
  rw [PtimerOp.bh, if_neg hne]
  exact if_congr hzero rfl rfl

theorem ptimerRestart_enabled (henabled : s₁.enabled ≠ .disabled) :
    ptimerRestart s₁ now = ptimerReload { s₁ with nextEvent := now } := by
  rw [ptimerRestart, if_neg henabled]

/-- A write keeps the invariant. -/
theorem Ptimer.Inv.set (h : s.Inv) (hset : s₁ ∈ op.set s)
    (hruns : s.enabled ≠ .disabled → s₁.Runs) : (ptimerRestart s₁ now).Inv := by
  obtain ⟨henabled, htimer, -, hfrac⟩ := PtimerOp.set_keeps h hset
  by_cases hdisabled : s.enabled = .disabled
  · have hdisabled₁ : s₁.enabled = .disabled := henabled.trans hdisabled
    rw [ptimerRestart, if_pos hdisabled₁]
    refine ⟨?_, fun hne => absurd hdisabled₁ hne, fun hne => absurd hdisabled₁ hne, hfrac⟩
    rw [if_pos hdisabled₁, htimer, h.timer, if_pos hdisabled]
  · have hne : s₁.enabled ≠ .disabled := henabled ▸ hdisabled
    rw [ptimerRestart_enabled hne]
    exact ptimerReload_inv (hruns hdisabled) hne hfrac

/-- What a setter has to meet. -/
theorem Ptimer.Inv.set_kept_iff (h : s.Inv) (hset : s₁ ∈ op.set s) :
    s.Kept now op (ptimerRestart s₁ now) ↔ (s.enabled ≠ .disabled → s₁.Runs) ∧
      (s.RanOut now → s.bh = some false → s₁.delta = 0) := by
  obtain ⟨henabled, htimer, hbh, -⟩ := PtimerOp.set_keeps h hset
  by_cases hdisabled : s.enabled = .disabled
  -- nothing is restarted, and nothing has run out
  · have hdisabled₁ : s₁.enabled = .disabled := henabled.trans hdisabled
    rw [ptimerRestart, if_pos hdisabled₁]
    refine ⟨fun _ => ⟨fun hne => absurd hdisabled hne, fun hout => absurd hdisabled hout.1⟩,
      fun _ => ⟨?_, ?_⟩⟩
    · rw [htimer, henabled]
      exact h.armed
    · rw [PtimerOp.bh_set hset, if_neg (fun hzero => hzero.1 hdisabled), hbh]
  · have hne : s₁.enabled ≠ .disabled := henabled ▸ hdisabled
    by_cases hruns : s₁.Runs
    · have hinv : (ptimerRestart s₁ now).Inv := h.set hset fun _ => hruns
      have hbh' : (ptimerRestart s₁ now).bh =
          if s₁.delta = 0 then s.bh.map (fun _ => true) else s.bh := by
        rw [ptimerRestart_enabled hne, ptimerReload_bh, ← hbh]
      constructor
      · intro hkept
        refine ⟨fun _ => hruns, fun hout hfalse => ?_⟩
        by_contra hdelta
        have heq := hbh'.symm.trans hkept.bh
        rw [PtimerOp.bh_set hset, if_neg hdelta, if_pos ⟨hdisabled, .inl hout⟩, hfalse] at heq
        cases heq
      · rintro ⟨-, hlate⟩
        refine ⟨hinv.armed, ?_⟩
        rw [hbh', PtimerOp.bh_set hset]
        by_cases hdelta : s₁.delta = 0
        · rw [if_pos hdelta, if_pos ⟨hdisabled, .inr hdelta⟩]
        · rw [if_neg hdelta]
          by_cases hout : s.RanOut now
          -- the bottom half is missing, or scheduled already
          · rw [if_pos ⟨hdisabled, .inl hout⟩]
            have hnot := fun hfalse => hdelta (hlate hout hfalse)
            cases hcase : s.bh with
            | none => rfl
            | some scheduled => cases scheduled <;> simp_all
          · rw [if_neg (by rintro ⟨-, hor⟩; exact hor.elim hout hdelta)]
    -- the timer is disabled, with the QEMU timer set
    · refine ⟨fun hkept => ?_, fun hfits => absurd (hfits.1 hdisabled) hruns⟩
      have hstop := ptimerReload_disables (s := { s₁ with nextEvent := now }) hruns
      rw [← ptimerRestart_enabled hne] at hstop
      refine absurd hstop.1 (hkept.armed.mp ?_)
      rw [hstop.2.1]
      show s₁.timer.isSome
      rw [htimer]
      exact h.armed.mpr hdisabled

/-! ### Other operations -/

theorem Ptimer.Inv.count (h : s.Inv) (now : BitVec 64) :
    ∃ count, ptimerGetCount s now = .ok count := by
  unfold ptimerGetCount
  split_ifs with hdisabled hzero
  · exact ⟨_, rfl⟩
  · exact ⟨_, rfl⟩
  · have hne := Ptimer.scaledPeriod_ne_zero (h.period hdisabled) h.frac
      (s.shift_le (s.nextEvent - now))
    exact ⟨_, udiv_eq _ hne⟩

/-- A stop loses an expiry that is not delivered yet. -/
theorem Ptimer.Inv.stop (h : s.Inv) (now : BitVec 64) : ∃ s', ptimerStop s now = .ok s' ∧ s'.Inv ∧
    (s.Kept now .stop s' ↔ (s.RanOut now → s.bh ≠ some false)) := by
  by_cases hdisabled : s.enabled = .disabled
  · have hout : ¬s.RanOut now := fun hout => hout.1 hdisabled
    refine ⟨s, by rw [ptimerStop, if_pos hdisabled], h, fun _ hout' => absurd hout' hout,
      fun _ => ⟨h.armed, ?_⟩⟩
    simp [PtimerOp.bh, PtimerOp.Zero, hout]
  · obtain ⟨count, hcount⟩ := h.count now
    refine ⟨{ s with delta := count, timer := none, enabled := .disabled }, ?_, ?_, ?_⟩
    · rw [ptimerStop, if_neg hdisabled, hcount]
      rfl
    · exact ⟨rfl, fun hne => absurd rfl hne, fun hne => absurd rfl hne, h.frac⟩
    · constructor
      · intro hkept hout hfalse
        have hbh : s.bh = PtimerOp.stop.bh s now := hkept.bh
        rw [hfalse] at hbh
        simp [PtimerOp.bh, PtimerOp.Zero, hout, hfalse] at hbh
      · intro hlate
        refine ⟨by simp, ?_⟩
        by_cases hout : s.RanOut now
        · have hnot := hlate hout
          cases hcase : s.bh with
          | none => simp [PtimerOp.bh, PtimerOp.Zero, hcase]
          | some scheduled => cases scheduled <;> simp_all [PtimerOp.bh, PtimerOp.Zero]
        · simp [PtimerOp.bh, PtimerOp.Zero, hout]

theorem ptimerReload_unset (henabled : s.enabled ≠ .disabled) (htimer : s.timer = none)
    (hfrac : s.periodFrac = 0 ∨ s.period.toNat < 2 ^ 32) : (ptimerReload s).Inv := by
  by_cases hruns : s.Runs
  · exact ptimerReload_inv hruns henabled hfrac
  · obtain ⟨hstop, htimer', hfrac', hperiod⟩ := ptimerReload_disables hruns
    refine ⟨?_, fun hne => absurd hstop hne, fun hne => absurd hstop hne, ?_⟩
    · rw [if_pos hstop, htimer', htimer]
    · rwa [hfrac', hperiod]

/-- A start keeps the invariant. -/
theorem Ptimer.Inv.run (h : s.Inv) (oneshot : Bool) (now : BitVec 64) :
    (ptimerRun s oneshot now).Inv ∧ s.Kept now (.run oneshot) (ptimerRun s oneshot now) := by
  by_cases hne : s.enabled = .disabled
  · by_cases hperiod : s.period = 0
    · rw [ptimerRun, if_neg (not_not.mpr hne), if_pos hperiod]
      refine ⟨h, h.armed, ?_⟩
      simp [PtimerOp.bh, PtimerOp.Zero, hperiod]
    · rw [ptimerRun, if_neg (not_not.mpr hne), if_neg hperiod]
      have hinv : (ptimerReload { s with
          enabled := if oneshot then .oneshot else .periodic
          nextEvent := now }).Inv := by
        refine ptimerReload_unset ?_ ?_ h.frac
        · cases oneshot <;> exact PtimerMode.noConfusion
        · show s.timer = none
          rw [h.timer, if_pos hne]
      refine ⟨hinv, hinv.armed, ?_⟩
      have hop : PtimerOp.run oneshot ≠ .bottomHalf := PtimerOp.noConfusion
      rw [ptimerReload_bh, PtimerOp.bh, if_neg hop]
      exact if_congr ⟨fun hdelta => ⟨hne, hperiod, hdelta⟩, fun hzero => hzero.2.2⟩ rfl rfl
  · rw [ptimerRun, if_pos hne]
    refine ⟨h, h.armed, ?_⟩
    simp [PtimerOp.bh, PtimerOp.Zero, hne]

theorem ptimerTick_inv (henabled : s.enabled ≠ .disabled) (htimer : s.timer = none)
    (hfrac : s.periodFrac = 0 ∨ s.period.toNat < 2 ^ 32) :
    (ptimerTick s).Inv ∧ (ptimerTick s).bh = s.bh.map fun _ => true := by
  unfold ptimerTick
  dsimp only
  split_ifs
  · exact ⟨⟨htimer, fun hne => absurd rfl hne, fun hne => absurd rfl hne, hfrac⟩, rfl⟩
  · refine ⟨ptimerReload_unset henabled htimer hfrac, ?_⟩
    -- the reload triggers once more
    rw [ptimerReload_bh, if_pos rfl, ptimerTrigger_bh, Option.map_map]
    rfl

theorem Ptimer.Inv.expire (h : s.Inv) (now : BitVec 64) :
    ∃ s', PtimerOp.expire.exec s now = .ok s' ∧ s'.Inv ∧ s.Kept now .expire s' := by
  refine ⟨_, rfl, ?_⟩
  by_cases hdue : s.due now = true
  · have hout : s.RanOut now := h.due.mp hdue
    obtain ⟨hinv, hbh⟩ := ptimerTick_inv (s := { s with timer := none }) hout.1 rfl h.frac
    rw [if_pos hdue]
    refine ⟨hinv, hinv.armed, ?_⟩
    simp [PtimerOp.bh, PtimerOp.Zero, hout, hbh]
  · have hout : ¬s.RanOut now := fun hout => hdue (h.due.mpr hout)
    rw [if_neg hdue]
    refine ⟨h, h.armed, ?_⟩
    simp [PtimerOp.bh, PtimerOp.Zero, hout]

/-- What is no setter, keeps the invariant. -/
theorem Ptimer.Inv.other (h : s.Inv) (hset : op.set s = none) (now : BitVec 64) :
    ∃ s', op.exec s now = .ok s' ∧ s'.Inv ∧
      (s.Kept now op s' ↔ (op = .stop → s.RanOut now → s.bh ≠ some false)) := by
  cases op with
  | setCount _ | setPeriod _ | setFreq _ => cases hset
  | setLimit limit reload =>
    cases reload with
    | true => cases hset
    | false =>
      have hinv : Ptimer.Inv { s with limit := limit } := ⟨h.timer, h.delta, h.period, h.frac⟩
      refine ⟨_, rfl, hinv, fun _ hstop => PtimerOp.noConfusion hstop, fun _ => ⟨hinv.armed, ?_⟩⟩
      simp [PtimerOp.bh, PtimerOp.Zero, PtimerOp.set, ptimerSetLimit]
  | run oneshot =>
    obtain ⟨hinv, hkept⟩ := h.run oneshot now
    exact ⟨_, rfl, hinv, fun _ hstop => PtimerOp.noConfusion hstop, fun _ => hkept⟩
  | stop =>
    obtain ⟨s', hexec, hinv, hkept⟩ := h.stop now
    exact ⟨s', hexec, hinv, hkept.trans ⟨fun hlate _ => hlate, fun hlate => hlate rfl⟩⟩
  | expire =>
    obtain ⟨s', hexec, hinv, hkept⟩ := h.expire now
    exact ⟨s', hexec, hinv, fun _ hstop => PtimerOp.noConfusion hstop, fun _ => hkept⟩
  | bottomHalf =>
    have hinv : Ptimer.Inv { s with bh := s.bh.map fun _ => false } :=
      ⟨h.timer, h.delta, h.period, h.frac⟩
    refine ⟨_, rfl, hinv, fun _ hstop => PtimerOp.noConfusion hstop, fun _ => ⟨hinv.armed, ?_⟩⟩
    simp [PtimerOp.bh]

/-! ### Runs -/

variable {r r' : PtimerRun} {a : PtimerOp × BitVec 64}

/-- What a step asks of the timer, by the operation. -/
theorem PtimerRun.fits_iff : r.Fits a ↔ (∀ freq, a.1 = .setFreq freq → freq ≠ 0) ∧
    (∀ s₁ ∈ a.1.set r.timer, (r.timer.enabled ≠ .disabled → s₁.Runs) ∧
      (r.timer.RanOut a.2 → r.timer.bh = some false → s₁.delta = 0)) ∧
    (a.1 = .stop → r.timer.RanOut a.2 → r.timer.bh ≠ some false) :=
  ⟨fun h => ⟨h.freq, fun s₁ hset => ⟨fun hne => h.runs hne s₁ hset,
      fun hout hfalse => (h.late hout hfalse).2 s₁ hset⟩,
      fun hstop hout hfalse => (h.late hout hfalse).1 hstop⟩,
    fun ⟨hfreq, hset, hstop⟩ => ⟨hfreq, fun hne s₁ hs₁ => (hset s₁ hs₁).1 hne,
      fun hout hfalse => ⟨fun heq => hstop heq hout hfalse,
        fun s₁ hs₁ => (hset s₁ hs₁).2 hout hfalse⟩⟩⟩

theorem PtimerRun.exec_of_ok (hexec : a.1.exec r.timer a.2 = .ok s') :
    r.exec a = some ⟨s', decide (r.timer.Kept a.2 a.1 s')⟩ := by
  rw [PtimerRun.exec, hexec]
  rfl

/-- An operation keeps the invariant, and is as it should be, if it fits. -/
theorem PtimerRun.exec_fits (h : r.timer.Inv) (hfits : r.Fits a) :
    ∃ r', r.exec a = some r' ∧ r'.timer.Inv ∧ r'.kept = true := by
  obtain ⟨hfreq, hset, hstop⟩ := PtimerRun.fits_iff.mp hfits
  cases hcase : a.1.set r.timer with
  | none =>
    obtain ⟨s', hexec, hinv, hkept⟩ := h.other hcase a.2
    exact ⟨_, PtimerRun.exec_of_ok hexec, hinv, decide_eq_true (hkept.mpr hstop)⟩
  | some s₁ =>
    exact ⟨_, PtimerRun.exec_of_ok (PtimerOp.exec_set hcase hfreq a.2),
      h.set hcase (hset s₁ hcase).1, decide_eq_true ((h.set_kept_iff hcase).mpr (hset s₁ hcase))⟩

/-- Otherwise it divides by zero, or is not as it should be. -/
theorem PtimerRun.exec_not_fits (h : r.timer.Inv) (hfits : ¬r.Fits a) (hexec : r.exec a = some r') :
    r'.kept ≠ true := by
  rw [PtimerRun.fits_iff] at hfits
  by_cases hfreq : ∀ freq, a.1 = .setFreq freq → freq ≠ 0
  · cases hcase : a.1.set r.timer with
    | none =>
      obtain ⟨s', hexec', -, hkept⟩ := h.other hcase a.2
      obtain rfl := Option.some.inj ((PtimerRun.exec_of_ok hexec').symm.trans hexec)
      intro htrue
      refine hfits ⟨hfreq, fun s₁ hs₁ => ?_, hkept.mp (of_decide_eq_true htrue)⟩
      rw [hcase] at hs₁
      cases hs₁
    | some s₁ =>
      have hexec' := PtimerRun.exec_of_ok (PtimerOp.exec_set hcase hfreq a.2)
      obtain rfl := Option.some.inj (hexec'.symm.trans hexec)
      intro htrue
      refine hfits ⟨hfreq, fun s₂ hs₂ => ?_, fun hstop => ?_⟩
      · obtain rfl := Option.some.inj (hcase.symm.trans hs₂)
        exact (h.set_kept_iff hcase).mp (of_decide_eq_true htrue)
      · rw [hstop] at hcase
        cases hcase
  · obtain ⟨freq, hop, hzero⟩ : ∃ freq, a.1 = .setFreq freq ∧ freq = 0 := by
      by_contra hnone
      exact hfreq fun freq hop hzero => hnone ⟨freq, hop, hzero⟩
    rw [PtimerRun.exec, hop, hzero] at hexec
    cases hexec

/-- **Timers in step.**  A run returns, with the QEMU timer set if and only if the timer is enabled
    and the bottom half triggered if and only if the count reaches zero, if and only if all its
    operations fit. -/
theorem ptimer_runs (hasBh : Bool) (ops : List (PtimerOp × BitVec 64)) :
    (∃ r, runFrom PtimerRun.exec (.new hasBh) ops = some r ∧
      ∀ n r₁, runFrom PtimerRun.exec (.new hasBh) (ops.take n) = some r₁ → r₁.kept = true) ↔
      StepsMeet PtimerRun.exec PtimerRun.Fits (.new hasBh) ops := by
  refine runFrom_total_iff (I := fun r : PtimerRun => r.timer.Inv ∧ r.kept = true) (fun r h => h.2)
    (fun r a h hfits => PtimerRun.exec_fits h.1 hfits)
    (fun r a r' h hfits => PtimerRun.exec_not_fits h.1 hfits)
    ⟨Ptimer.Inv.init hasBh, rfl⟩

/-- A timer that is stopped by its limit, while the QEMU timer is set, goes off. -/
theorem ptimer_disabled_triggers : ¬∀ r,
    runFrom PtimerRun.exec (.new true)
      [(.setPeriod 10, 0), (.setLimit 100 true, 0), (.run false, 0), (.setLimit 0 true, 500),
        (.bottomHalf, 600), (.expire, 1000)] = some r →
      r.kept = true := by
  intro h
  have hkept := h _ (Option.some_get (by decide +kernel)).symm
  revert hkept
  decide +kernel

end Qemu.Hw
