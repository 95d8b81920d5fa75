import Qemu.Hw.TimerDivs

namespace Qemu.Hw

open Lib

/-!
# Runs of the PWM timers

* `Pwm.Right` — a timer is armed when it should be, expires after its counts, and counts down;
* `PwmRun.Fits` — the writes and expiries that keep it so;
* `pwmTconTmr`, `Pwm.Next` — what an operation does to one timer;
* `pwmReadTcnto_eq` — the count between start and expiry;
* `pwm_timers` — the runs in which all timers are right.
-/

/-! ### Statements -/

/-- The timer is started. -/
def Pwm.start (s : Pwm) (n : PwmNum) : Prop := s.tcon &&& S5C_TCON_START n ≠ 0

/-- The timer is updated by hand. -/
def Pwm.manualupd (s : Pwm) (n : PwmNum) : Prop := s.tcon &&& S5C_TCON_MANUALUPD n ≠ 0

/-- The timer reloads itself. -/
def Pwm.reload (s : Pwm) (n : PwmNum) : Prop := s.tcon &&& S5C_TCON_RELOAD n ≠ 0

/-- When a timer was started or reloaded last, and whether it has expired since without a reload. -/
structure PwmSince where
  time : BitVec 64
  expired : Bool
deriving DecidableEq

/-- The nanoseconds of a count. -/
def pwmTime (count freq : BitVec 32) : Nat := count.toNat * 1000000000 / freq.toNat

/-- A timer is armed if it has been started, no update is pending and it has not expired for good;
    it expires after its count. -/
structure Pwm.Armed (s : Pwm) (g : PwmSince) (n : PwmNum) : Prop where
  armed : (s.tmr n).pwmTimer.isSome = true ↔
    s.start n ∧ ¬s.manualupd n ∧ (s.reload n ∨ g.expired = false)
  time : ∀ t ∈ (s.tmr n).pwmTimer, (s.tmr n).freqOut ≠ 0 ∧
    t = g.time + BitVec.ofNat 64 (pwmTime (s.tmr n).tcnt (s.tmr n).freqOut)

/-- Until a timer expires, TCNTO counts down from its count to zero. -/
structure Pwm.CountsDown (s : Pwm) (g : PwmSince) (n : PwmNum) : Prop where
  start : pwmReadTcnto s n g.time = .ok (s.tmr n).tcnt
  down : ∀ now now' : BitVec 64, g.time.toNat ≤ now.toNat → now.toNat ≤ now'.toNat →
    ∃ count count', pwmReadTcnto s n now = .ok count ∧ pwmReadTcnto s n now' = .ok count' ∧
      count'.toNat ≤ count.toNat
  zero : ∀ now : BitVec 64,
    g.time.toNat + pwmTime (s.tmr n).tcnt (s.tmr n).freqOut < now.toNat →
      pwmReadTcnto s n now = .ok 0

/-- A timer as it should be. -/
structure Pwm.Right (s : Pwm) (g : PwmSince) (n : PwmNum) : Prop where
  armed : s.Armed g n
  counts : (s.tmr n).pwmTimer.isSome = true → s.CountsDown g n

/-- The device, and its timers as the guest has started them. -/
structure PwmRun where
  pwm : Pwm
  since : PwmNum → PwmSince

/-- START goes from 0 to 1. -/
def pwmStarts (tcon value : BitVec 32) (n : PwmNum) : Prop :=
  tcon &&& S5C_TCON_START n = 0 ∧ value &&& S5C_TCON_START n ≠ 0

instance pwmStarts.decidable (tcon value : BitVec 32) (n : PwmNum) :
    Decidable (pwmStarts tcon value n) :=
  inferInstanceAs (Decidable (_ ∧ _))

instance Pwm.reload.decidable (s : Pwm) (n : PwmNum) : Decidable (s.reload n) :=
  inferInstanceAs (Decidable (_ ≠ _))

/-- A start, and an expiry. -/
def PwmSince.next (g : PwmSince) (s : Pwm) (n : PwmNum) (now : BitVec 64) : PwmOp → PwmSince
  | .write offset value =>
    if pwmReg offset = some .tcon ∧ pwmStarts s.tcon value n then ⟨now, false⟩ else g
  | .expire m =>
    if m = n ∧ (s.tmr n).pwmTimer.isSome then if s.reload n then ⟨now, false⟩ else ⟨g.time, true⟩
    else g
  | _ => g

/-- An operation; `none` is a division by zero or an error. -/
def PwmRun.exec (r : PwmRun) (a : PwmOp × Clocks) : Option PwmRun :=
  (a.1.exec r.pwm a.2).toOption.map fun s =>
    ⟨s, fun n => (r.since n).next r.pwm n a.2.now a.1⟩

/-- The cached time of a count is that of the frequency. -/
def PwmFresh (count : BitVec 32) (inQemu : BitVec 64) (freq : BitVec 32) : Prop :=
  freq ≠ 0 ∧ inQemu.toNat = pwmTime count freq

instance PwmFresh.decidable (count : BitVec 32) (inQemu : BitVec 64) (freq : BitVec 32) :
    Decidable (PwmFresh count inQemu freq) :=
  inferInstanceAs (Decidable (_ ∧ _))

/-- The frequency of a timer, as TCFG0 and TCFG1 have it. -/
def pwmFreqOut (clks : Clocks) (s : Pwm) (n : PwmNum) : BitVec 32 :=
  BitVec.ofNat 32 (clks.rate (pwmClk s n) / ((pwmPrescaler s n).toNat + 1) /
    (pwmDivisor s n).toNat)

/-- A TCON that starts a timer finds the time of its count up to date; one that leaves it started,
    without an update, finds no update pending, and no one-shot timer that has expired and is to
    reload. -/
def Pwm.FitsTcon (s : Pwm) (g : PwmSince) (n : PwmNum) (value : BitVec 32) : Prop :=
  value &&& S5C_TCON_MANUALUPD n = 0 → value &&& S5C_TCON_START n ≠ 0 →
    if s.tcon &&& S5C_TCON_START n = 0 then
      PwmFresh (s.tmr n).tcnt (s.tmr n).tcntInQemu (s.tmr n).freqOut
    else if g.expired then value &&& S5C_TCON_RELOAD n = 0
    else s.tcon &&& S5C_TCON_MANUALUPD n = 0

/-- A write keeps the frequency of a timer that is armed, or TCON fits. -/
def Pwm.FitsWrite (s : Pwm) (g : PwmSince) (clks : Clocks) (n : PwmNum) (value : BitVec 32) :
    PwmReg → Prop
  | .tcfg0 => (s.tmr n).pwmTimer.isSome = true →
    PwmFresh (s.tmr n).tcnt (s.tmr n).tcntInQemu (pwmFreqOut clks { s with tcfg0 := value } n)
  | .tcfg1 => (s.tmr n).pwmTimer.isSome = true →
    PwmFresh (s.tmr n).tcnt (s.tmr n).tcntInQemu (pwmFreqOut clks { s with tcfg1 := value } n)
  | .tcon => s.FitsTcon g n value
  | _ => True

/-- What an operation has to meet for a timer: a reload finds the time of the count up to date. -/
def Pwm.Fits (s : Pwm) (g : PwmSince) (clks : Clocks) (n : PwmNum) : PwmOp → Prop
  | .write offset value => ∀ r ∈ pwmReg offset, s.FitsWrite g clks n value r
  | .expire m => m = n → (s.tmr n).pwmTimer.isSome = true → s.reload n →
    PwmFresh (s.tmr n).tcntb (s.tmr n).tcntbInQemu (s.tmr n).freqOut
  | _ => True

instance Pwm.FitsTcon.decidable (s : Pwm) (g : PwmSince) (n : PwmNum) (value : BitVec 32) :
    Decidable (s.FitsTcon g n value) := by
  unfold Pwm.FitsTcon
  infer_instance

instance Pwm.FitsWrite.decidable (s : Pwm) (g : PwmSince) (clks : Clocks) (n : PwmNum)
    (value : BitVec 32) (reg : PwmReg) : Decidable (s.FitsWrite g clks n value reg) := by
  cases reg <;> unfold Pwm.FitsWrite <;> infer_instance

instance Pwm.Fits.decidable (s : Pwm) (g : PwmSince) (clks : Clocks) (n : PwmNum) :
    ∀ op : PwmOp, Decidable (s.Fits g clks n op)
  | .write offset _ => inferInstanceAs (Decidable (∀ r ∈ pwmReg offset, _))
  | .expire _ => inferInstanceAs (Decidable (_ → _ → _ → _))
  | .read _ | .gpioRead _ => instDecidableTrue

/-- The step asks no count of a timer that does not fit it. -/
def PwmRun.Fits (r : PwmRun) (a : PwmOp × Clocks) : Prop :=
  ∀ n ∈ PwmNum.all, r.pwm.Fits (r.since n) a.2 n a.1

instance PwmRun.Fits.decidable (r : PwmRun) (a : PwmOp × Clocks) : Decidable (r.Fits a) :=
  inferInstanceAs (Decidable (∀ n ∈ PwmNum.all, _))

/-- Every timer counts from its last load. -/
def PwmRun.Right (r : PwmRun) : Prop := ∀ n, r.pwm.Right (r.since n) n

/-! ### One timer -/

variable {s s' : Pwm} {g : PwmSince} {n : PwmNum} {clks : Clocks} {now : BitVec 64}
variable {value : BitVec 32}

/-- A timer at a write of TCON. -/
def pwmTconTmr (tcon value : BitVec 32) (now : BitVec 64) (n : PwmNum) (t : PwmTimer) : PwmTimer :=
  let start := S5C_TCON_START n
  let t := if tcon &&& start < value &&& start then pwmTimerStart t now else t
  let t := if value &&& start < tcon &&& start then pwmTimerStop t else t
  if value &&& S5C_TCON_MANUALUPD n ≠ 0 then pwmTimerRenew (pwmTimerStop t) else t

theorem Pwm.withTmr_tmr (s : Pwm) (n m : PwmNum) (f : PwmTimer → PwmTimer) :
    (s.withTmr n f).tmr m = if m = n then f (s.tmr m) else s.tmr m := by
  by_cases hm : m = n
  · subst hm
    rw [if_pos rfl]
    exact Function.update_self _ _ _
  · rw [if_neg hm]
    exact Function.update_of_ne hm _ _

theorem pwmTconTimer_tmr (tcon value : BitVec 32) (now : BitVec 64) (s : Pwm) (n m : PwmNum) :
    (pwmTconTimer tcon value now s n).tmr m =
      if m = n then pwmTconTmr tcon value now m (s.tmr m) else s.tmr m := by
  unfold pwmTconTimer pwmTconTmr
  by_cases hm : m = n
  · subst hm
    rw [if_pos rfl]
    dsimp only
    split_ifs <;> simp [Pwm.withTmr_tmr]
  · rw [if_neg hm]
    dsimp only
    split_ifs <;> simp [Pwm.withTmr_tmr, hm]

/-- A loop over timers, each of which changes only its own. -/
theorem foldl_tmr {f : Pwm → PwmNum → Pwm} {g : PwmNum → PwmTimer → PwmTimer}
    (hf : ∀ s n m, (f s n).tmr m = if m = n then g m (s.tmr m) else s.tmr m) :
    ∀ {l : List PwmNum}, l.Nodup → ∀ (s : Pwm) (m : PwmNum),
      (l.foldl f s).tmr m = if m ∈ l then g m (s.tmr m) else s.tmr m
  | [], _, s, m => (if_neg List.not_mem_nil).symm
  | n :: l, hl, s, m => by
    obtain ⟨hn, hl⟩ := List.nodup_cons.mp hl
    rw [List.foldl_cons, foldl_tmr hf hl, hf]
    by_cases hm : m = n
    · subst hm
      rw [if_neg hn, if_pos rfl, if_pos List.mem_cons_self]
    · rw [if_neg hm]
      exact if_congr ⟨List.mem_cons_of_mem _, fun h => (List.mem_cons.mp h).resolve_left hm⟩ rfl rfl

theorem PwmNum.mem_all (n : PwmNum) : n ∈ PwmNum.all := by
  cases n <;> decide

theorem PwmNum.nodup_all : PwmNum.all.Nodup := by
  decide

theorem pwmWriteTcon_tmr (s : Pwm) (value : BitVec 32) (now : BitVec 64) (n : PwmNum) :
    (pwmWriteTcon s value now).tmr n = pwmTconTmr s.tcon value now n (s.tmr n) :=
  (foldl_tmr (pwmTconTimer_tmr s.tcon value now) PwmNum.nodup_all s n).trans
    (if_pos n.mem_all)

/-- A write to the interrupt register moves no timer. -/
theorem pwmWriteTintCstat_tmr (s : Pwm) (value : BitVec 32) (n : PwmNum) :
    (pwmWriteTintCstat s value).tcon = s.tcon ∧ ∃ irq,
      (pwmWriteTintCstat s value).tmr n = { s.tmr n with irqInst := irq } := by
  have hlower : ∀ (s : Pwm) (n m : PwmNum), (if value &&& PWM_INT_STAT n ≠ 0 then
      s.withTmr n fun t => { t with irqInst := false } else s).tmr m =
        if m = n then { s.tmr m with
          irqInst := value &&& PWM_INT_STAT m == 0 && (s.tmr m).irqInst }
        else s.tmr m := by
    intro s n m
    by_cases hm : m = n
    · subst hm
      rw [if_pos rfl]
      split_ifs with hstat
      · rw [Pwm.withTmr_tmr, if_pos rfl, beq_eq_false_iff_ne.mpr hstat, Bool.false_and]
      · rw [not_not.mp hstat]
        rfl
    · rw [if_neg hm]
      split_ifs
      · rw [Pwm.withTmr_tmr, if_neg hm]
      · rfl
  have htcon : ∀ (l : List PwmNum) (s : Pwm), (l.foldl (fun (s : Pwm) n =>
      if value &&& PWM_INT_STAT n ≠ 0 then s.withTmr n fun t => { t with irqInst := false }
      else s) s).tcon = s.tcon := by
    intro l
    induction l with
    | nil => exact fun _ => rfl
    | cons n l ih =>
      intro s
      rw [List.foldl_cons, ih]
      split_ifs <;> rfl
  have hall := foldl_tmr (g := fun m t => { t with
    irqInst := value &&& PWM_INT_STAT m == 0 && t.irqInst }) hlower PwmNum.nodup_all s n
  exact ⟨htcon PwmNum.all s, _, hall.trans (if_pos n.mem_all)⟩

theorem pwmTimerFreq_eq {m : PwmNum} (h : pwmTimerFreq clks s m = .ok s') :
    s' = s.withTmr m fun t => { t with freqOut := pwmFreqOut clks s m } := by
  by_cases hcode : pwmCode s.tcfg1 m < 8
  · unfold pwmTimerFreq at h
    rw [ndiv_eq _ (Nat.succ_ne_zero _), ok_bind, ndiv_eq _ (pwmDivisor_ne_zero.mpr hcode),
      ok_bind] at h
    exact (Except.ok.inj h).symm
  · rw [pwmTimerFreq_divZero hcode] at h
    cases h

/-- The loop sets the frequency of the timers in its list. -/
theorem pwmTimerFreqs_tmr : ∀ {l : List PwmNum} {s : Pwm}, l.Nodup →
    l.foldlM (pwmTimerFreq clks) s = .ok s' → s'.tcon = s.tcon ∧ ∀ m,
      s'.tmr m = if m ∈ l then { s.tmr m with freqOut := pwmFreqOut clks s m } else s.tmr m
  | [], s, _, h => by
    obtain rfl := Except.ok.inj h
    exact ⟨rfl, fun m => (if_neg List.not_mem_nil).symm⟩
  | n :: l, s, hl, h => by
    obtain ⟨hn, hl⟩ := List.nodup_cons.mp hl
    rw [List.foldlM_cons] at h
    cases hfirst : pwmTimerFreq clks s n with
    | error e =>
      rw [hfirst] at h
      cases h
    | ok s₁ =>
      rw [hfirst, ok_bind] at h
      obtain rfl := pwmTimerFreq_eq hfirst
      obtain ⟨htcon, htmr⟩ := pwmTimerFreqs_tmr hl h
      refine ⟨htcon, fun m => ?_⟩
      rw [htmr m, Pwm.withTmr_tmr]
      -- the frequencies do not depend on the timers
      by_cases hm : m = n
      · subst hm
        rw [if_neg hn, if_pos rfl, if_pos List.mem_cons_self]
      · rw [if_neg hm]
        exact if_congr ⟨List.mem_cons_of_mem _, fun h => (List.mem_cons.mp h).resolve_left hm⟩
          rfl rfl

theorem pwmTimerFreqs_all (h : PwmNum.all.foldlM (pwmTimerFreq clks) s = .ok s') (n : PwmNum) :
    s'.tcon = s.tcon ∧ s'.tmr n = { s.tmr n with freqOut := pwmFreqOut clks s n } := by
  obtain ⟨htcon, htmr⟩ := pwmTimerFreqs_tmr PwmNum.nodup_all h
  exact ⟨htcon, (htmr n).trans (if_pos n.mem_all)⟩

/-- START is one bit. -/
theorem start_lt_iff (x y : BitVec 32) (n : PwmNum) :
    x &&& S5C_TCON_START n < y &&& S5C_TCON_START n ↔ pwmStarts x y n := by
  have hbit : ∀ z : BitVec 32, z &&& S5C_TCON_START n = 0 ∨
      z &&& S5C_TCON_START n = S5C_TCON_START n := by
    intro z
    obtain ⟨k, hk⟩ : ∃ k, S5C_TCON_START n = BitVec.twoPow 32 k := by
      cases n
      · exact ⟨0, rfl⟩
      · exact ⟨8, rfl⟩
      · exact ⟨12, rfl⟩
      · exact ⟨16, rfl⟩
      · exact ⟨20, rfl⟩
    rw [hk, BitVec.and_twoPow]
    split_ifs
    · exact .inr rfl
    · exact .inl rfl
  have hne : S5C_TCON_START n ≠ 0 := by cases n <;> decide
  have hpos : 0 < S5C_TCON_START n := by cases n <;> decide
  unfold pwmStarts
  rcases hbit x with hx | hx <;> rcases hbit y with hy | hy <;> rw [hx, hy]
  · exact ⟨fun h => absurd h (BitVec.lt_irrefl _), fun h => absurd rfl h.2⟩
  · exact ⟨fun _ => ⟨rfl, hne⟩, fun _ => hpos⟩
  · exact ⟨fun h => absurd (BitVec.lt_def.mp h) (Nat.not_lt_zero _), fun h => absurd rfl h.2⟩
  · exact ⟨fun h => absurd h (BitVec.lt_irrefl _), fun h => absurd h.1 hne⟩

/-! ### Times -/

/-- What holds of a timer between operations. -/
structure Pwm.Inv (s : Pwm) (g : PwmSince) (n : PwmNum) : Prop where
  armed : (s.tmr n).pwmTimer.isSome = true ↔
    s.start n ∧ ¬s.manualupd n ∧ (s.reload n ∨ g.expired = false)
  time : ∀ t ∈ (s.tmr n).pwmTimer, t = g.time + (s.tmr n).tcntInQemu ∧
    (s.tmr n).lastPwmTime = g.time ∧
    PwmFresh (s.tmr n).tcnt (s.tmr n).tcntInQemu (s.tmr n).freqOut
  expired : g.expired = true → (s.tmr n).pwmTimer = none

theorem pwmTime_lt {count freq : BitVec 32} : pwmTime count freq < 2 ^ 62 :=
  calc pwmTime count freq ≤ count.toNat * 1000000000 := Nat.div_le_self _ _
    _ < 2 ^ 32 * 2 ^ 30 := Nat.mul_lt_mul'' count.isLt (by decide)
    _ = 2 ^ 62 := rfl

theorem pwmTime_toNat (count freq : BitVec 32) :
    (BitVec.ofNat 64 (pwmTime count freq)).toNat = pwmTime count freq := by
  rw [BitVec.toNat_ofNat]
  exact Nat.mod_eq_of_lt (pwmTime_lt.trans (by decide))

theorem PwmFresh.of_time {count freq : BitVec 32} {base inQemu t : BitVec 64}
    (ht : t = base + inQemu)
    (h : freq ≠ 0 ∧ t = base + BitVec.ofNat 64 (pwmTime count freq)) :
    PwmFresh count inQemu freq := by
  refine ⟨h.1, ?_⟩
  have heq : inQemu = BitVec.ofNat 64 (pwmTime count freq) :=
    (BitVec.add_right_inj base).mp (ht.symm.trans h.2)
  rw [heq, pwmTime_toNat]

theorem PwmFresh.eq {count freq : BitVec 32} {inQemu : BitVec 64} (h : PwmFresh count inQemu freq) :
    inQemu = BitVec.ofNat 64 (pwmTime count freq) := by
  refine BitVec.eq_of_toNat_eq ?_
  rw [h.2, pwmTime_toNat]

theorem pwmCounts_le {count freq : BitVec 32} {time : Nat} (htime : time ≤ pwmTime count freq) :
    time * freq.toNat / 1000000000 ≤ count.toNat := by
  refine Nat.div_le_of_le_mul ?_
  calc time * freq.toNat ≤ pwmTime count freq * freq.toNat := Nat.mul_le_mul_right _ htime
    _ ≤ count.toNat * 1000000000 := Nat.div_mul_le_self _ _
    _ = 1000000000 * count.toNat := Nat.mul_comm _ _

theorem pwmConvertTerm_eq {term : BitVec 64} {freq : BitVec 32}
    (h : term.toNat * freq.toNat / 1000000000 < 2 ^ 32) :
    ∃ count, pwmConvertTerm term freq = .ok count ∧
      count.toNat = term.toNat * freq.toNat / 1000000000 := by
  obtain ⟨r, hr, hnat⟩ := muldiv64_toNat (a := term) (b := freq) (c := ticksPerSec) (by decide)
    (h.trans (by decide))
  refine ⟨r.setWidth 32, by rw [pwmConvertTerm, hr]; rfl, ?_⟩
  rw [BitVec.toNat_setWidth, hnat]
  exact Nat.mod_eq_of_lt h

/-- TCNTO of a timer that has been started. -/
theorem pwmReadTcnto_eq (hstart : s.start n) (hlast : (s.tmr n).lastPwmTime = g.time)
    (hfresh : PwmFresh (s.tmr n).tcnt (s.tmr n).tcntInQemu (s.tmr n).freqOut) (now : BitVec 64)
    (hnow : g.time.toNat ≤ now.toNat) : ∃ count, pwmReadTcnto s n now = .ok count ∧
      count.toNat =
        if pwmTime (s.tmr n).tcnt (s.tmr n).freqOut < now.toNat - g.time.toNat then 0
        else (s.tmr n).tcnt.toNat -
          (now.toNat - g.time.toNat) * (s.tmr n).freqOut.toNat / 1000000000 := by
  have hsub : (now - g.time).toNat = now.toNat - g.time.toNat :=
    BitVec.toNat_sub_of_le (BitVec.le_def.mpr hnow)
  rw [pwmReadTcnto, if_neg hstart, hlast]
  by_cases hover : (s.tmr n).tcntInQemu < now - g.time
  · have hnat := BitVec.lt_def.mp hover
    rw [hfresh.2, hsub] at hnat
    rw [if_pos hover, if_pos hnat]
    exact ⟨0, rfl, rfl⟩
  · have hnat : ¬pwmTime (s.tmr n).tcnt (s.tmr n).freqOut < now.toNat - g.time.toNat := by
      rw [← hfresh.2, ← hsub]
      exact fun hlt => hover (BitVec.lt_def.mpr hlt)
    have hle := pwmCounts_le (Nat.le_of_not_lt hnat)
    rw [if_neg hover, if_neg hnat]
    rw [← hsub] at hle ⊢
    obtain ⟨count, hcount, hcountNat⟩ :=
      pwmConvertTerm_eq (hle.trans_lt (s.tmr n).tcnt.isLt)
    refine ⟨(s.tmr n).tcnt - count, by rw [hcount]; rfl, ?_⟩
    rw [← hcountNat] at hle ⊢
    exact BitVec.toNat_sub_of_le (BitVec.le_def.mpr hle)

/-- A timer of the invariant is as it should be. -/
theorem Pwm.Inv.right (h : s.Inv g n) : s.Right g n := by
  refine ⟨⟨h.armed, fun t ht => ?_⟩, fun harmed => ?_⟩
  · obtain ⟨htime, -, hfresh⟩ := h.time t ht
    exact ⟨hfresh.1, by rw [htime, ← hfresh.eq]⟩
  · obtain ⟨t, ht⟩ := Option.isSome_iff_exists.mp harmed
    obtain ⟨-, hlast, hfresh⟩ := h.time t ht
    have hread := pwmReadTcnto_eq (h.armed.mp harmed).1 hlast hfresh
    refine ⟨?_, fun now now' hnow hnow' => ?_, fun now hnow => ?_⟩
    · obtain ⟨count, hcount, hnat⟩ := hread g.time le_rfl
      rw [Nat.sub_self, if_neg (Nat.not_lt_zero _), Nat.zero_mul, Nat.zero_div,
        Nat.sub_zero] at hnat
      rw [hcount, BitVec.eq_of_toNat_eq hnat]
    · obtain ⟨count, hcount, hnat⟩ := hread now hnow
      obtain ⟨count', hcount', hnat'⟩ := hread now' (hnow.trans hnow')
      refine ⟨count, count', hcount, hcount', ?_⟩
      have hsub : now.toNat - g.time.toNat ≤ now'.toNat - g.time.toNat :=
        Nat.sub_le_sub_right hnow' _
      rw [hnat, hnat']
      by_cases hover' : pwmTime (s.tmr n).tcnt (s.tmr n).freqOut < now'.toNat - g.time.toNat
      · rw [if_pos hover']
        exact Nat.zero_le _
      · rw [if_neg hover', if_neg fun hover => hover' (lt_of_lt_of_le hover hsub)]
        exact Nat.sub_le_sub_left (Nat.div_le_div_right (Nat.mul_le_mul_right _ hsub)) _
    · obtain ⟨count, hcount, hnat⟩ := hread now (by omega)
      rw [if_pos (by omega)] at hnat
      rw [hcount, BitVec.eq_of_toNat_eq (y := 0) hnat]

/-! ### Operations -/

/-- What is the same of a timer, but for its buffers and its line. -/
structure PwmTimer.Same (t t' : PwmTimer) : Prop where
  pwmTimer : t'.pwmTimer = t.pwmTimer
  freqOut : t'.freqOut = t.freqOut
  lastPwmTime : t'.lastPwmTime = t.lastPwmTime
  tcnt : t'.tcnt = t.tcnt
  tcntInQemu : t'.tcntInQemu = t.tcntInQemu

theorem Pwm.Inv.same (h : s.Inv g n) (htcon : s'.tcon = s.tcon)
    (hsame : (s.tmr n).Same (s'.tmr n)) : s'.Inv g n := by
  obtain ⟨htimer, hfreq, hlast, htcnt, hin⟩ := hsame
  refine ⟨?_, ?_, ?_⟩
  · rw [htimer]
    unfold Pwm.start Pwm.manualupd Pwm.reload
    rw [htcon]
    exact h.armed
  · rw [htimer, hfreq, hlast, htcnt, hin]
    exact h.time
  · rw [htimer]
    exact h.expired

/-- An invariant is kept if the operation fits, and only then the timer is right. -/
def Pwm.Keeps (s' : Pwm) (g' : PwmSince) (n : PwmNum) (fits : Prop) : Prop :=
  (fits → s'.Inv g' n) ∧ (s'.Armed g' n → fits)

theorem Pwm.Keeps.of_inv {fits : Prop} (h : s.Inv g n) (hfits : fits) : s.Keeps g n fits :=
  ⟨fun _ => h, fun _ => hfits⟩

/-- Writes of TCFG0 and TCFG1. -/
theorem Pwm.Inv.freq {freq : BitVec 32} (h : s.Inv g n) (htcon : s'.tcon = s.tcon)
    (htmr : s'.tmr n = { s.tmr n with freqOut := freq }) :
    s'.Keeps g n ((s.tmr n).pwmTimer.isSome = true →
      PwmFresh (s.tmr n).tcnt (s.tmr n).tcntInQemu freq) := by
  refine ⟨fun hfits => ⟨?_, fun t ht => ?_, ?_⟩, fun harmed hset => ?_⟩
  · unfold Pwm.start Pwm.manualupd Pwm.reload
    rw [htmr, htcon]
    exact h.armed
  · rw [htmr] at ht ⊢
    obtain ⟨htime, hlast, -⟩ := h.time t ht
    exact ⟨htime, hlast, hfits (Option.isSome_of_mem ht)⟩
  · rw [htmr]
    exact h.expired
  · obtain ⟨t, ht⟩ := Option.isSome_iff_exists.mp hset
    have htime := harmed.time t (by rw [htmr]; exact ht)
    rw [htmr] at htime
    exact .of_time (h.time t ht).1 htime

/-- A timer that starts, or that is reloaded. -/
theorem Pwm.Keeps.start (hstart : s'.start n) (hupd : ¬s'.manualupd n)
    (htimer : (s'.tmr n).pwmTimer = some (now + (s'.tmr n).tcntInQemu))
    (hlast : (s'.tmr n).lastPwmTime = now) :
    s'.Keeps ⟨now, false⟩ n
      (PwmFresh (s'.tmr n).tcnt (s'.tmr n).tcntInQemu (s'.tmr n).freqOut) := by
  refine ⟨fun hfresh => ⟨?_, fun t ht => ?_, fun hexp => Bool.noConfusion hexp⟩, fun harmed => ?_⟩
  · rw [htimer]
    exact ⟨fun _ => ⟨hstart, hupd, .inr rfl⟩, fun _ => rfl⟩
  · rw [htimer] at ht
    exact ⟨(Option.some.inj ht).symm, hlast, hfresh⟩
  · exact .of_time rfl (harmed.time _ htimer)

theorem Pwm.Inv.idle (hnone : (s.tmr n).pwmTimer = none)
    (hidle : ¬(s.start n ∧ ¬s.manualupd n ∧ (s.reload n ∨ g.expired = false))) : s.Inv g n := by
  refine ⟨?_, fun t ht => ?_, fun _ => hnone⟩
  · rw [hnone]
    exact ⟨fun h => Bool.noConfusion h, fun h => absurd h hidle⟩
  · rw [hnone] at ht
    cases ht

/-- A write of TCON. -/
theorem Pwm.Inv.tcon (h : s.Inv g n) (value : BitVec 32) (now : BitVec 64) :
    (pwmWriteTcon s value now).Keeps
      (if pwmStarts s.tcon value n then ⟨now, false⟩ else g) n (s.FitsTcon g n value) := by
  have htmr := pwmWriteTcon_tmr s value now n
  have hstarts := start_lt_iff s.tcon value n
  have hstops := start_lt_iff value s.tcon n
  by_cases hupd : value &&& S5C_TCON_MANUALUPD n ≠ 0
  -- the update stops the timer, if it has been started or not
  · refine .of_inv (.idle ?_ fun hright => hright.2.1 hupd) fun hno => absurd hno hupd
    rw [htmr, pwmTconTmr, if_pos hupd]
    rfl
  have hno : value &&& S5C_TCON_MANUALUPD n = 0 := not_not.mp hupd
  by_cases hon : value &&& S5C_TCON_START n = 0
  · refine .of_inv (.idle ?_ fun hright => hright.1 hon) fun _ hne => absurd hon hne
    have hnot : ¬pwmStarts s.tcon value n := fun hstart => hstart.2 hon
    rw [htmr, pwmTconTmr, if_neg hupd, if_neg (mt hstarts.mp hnot)]
    by_cases hwas : s.tcon &&& S5C_TCON_START n = 0
    · have hsame : ¬pwmStarts value s.tcon n := fun hstop => hstop.2 hwas
      rw [if_neg (mt hstops.mp hsame)]
      exact Option.not_isSome_iff_eq_none.mp fun hset => (h.armed.mp hset).1 hwas
    · rw [if_pos (hstops.mpr ⟨hon, hwas⟩)]
      rfl
  have hstay : ¬pwmStarts value s.tcon n := fun hstop => hon hstop.1
  by_cases hwas : s.tcon &&& S5C_TCON_START n = 0
  -- the timer starts
  · have hstart : pwmStarts s.tcon value n := ⟨hwas, hon⟩
    have htimer : (pwmWriteTcon s value now).tmr n = pwmTimerStart (s.tmr n) now := by
      rw [htmr, pwmTconTmr, if_neg hupd, if_pos (hstarts.mpr hstart), if_neg (mt hstops.mp hstay)]
    have hset : ((pwmWriteTcon s value now).tmr n).pwmTimer =
        some (now + ((pwmWriteTcon s value now).tmr n).tcntInQemu) := by
      rw [htimer]
      rfl
    have hlast : ((pwmWriteTcon s value now).tmr n).lastPwmTime = now := by
      rw [htimer]
      rfl
    have hstarted : (pwmWriteTcon s value now).start n := hon
    have hkeeps := Pwm.Keeps.start hstarted hupd hset hlast
    rw [htimer] at hkeeps
    rw [if_pos hstart]
    exact ⟨fun hfits => hkeeps.1 ((if_pos hwas).mp (hfits hno hon)),
      fun harmed _ _ => (if_pos hwas).mpr (hkeeps.2 harmed)⟩
  -- the timer stays as it is
  · have hstart : ¬pwmStarts s.tcon value n := fun hstart => hwas hstart.1
    have htimer : (pwmWriteTcon s value now).tmr n = s.tmr n := by
      rw [htmr, pwmTconTmr, if_neg hupd, if_neg (mt hstarts.mp hstart),
        if_neg (mt hstops.mp hstay)]
    have hfits : s.FitsTcon g n value ↔ if g.expired then value &&& S5C_TCON_RELOAD n = 0
        else s.tcon &&& S5C_TCON_MANUALUPD n = 0 :=
      ⟨fun hfits => (if_neg hwas).mp (hfits hno hon), fun hrest _ _ => (if_neg hwas).mpr hrest⟩
    unfold Pwm.Keeps
    rw [if_neg hstart, hfits]
    cases hexp : g.expired with
    | true =>
      have hnone := h.expired hexp
      rw [if_pos rfl]
      refine ⟨fun hreload => .idle (by rw [htimer, hnone]) ?_, fun harmed => ?_⟩
      · rintro ⟨-, -, hright | hright⟩
        · exact hright hreload
        · rw [hexp] at hright
          cases hright
      · by_contra hreload
        have hset := harmed.armed.mpr ⟨hon, hupd, .inl hreload⟩
        rw [htimer, hnone] at hset
        cases hset
    | false =>
      rw [if_neg Bool.false_ne_true]
      refine ⟨fun hpending => ⟨?_, ?_, ?_⟩, fun harmed => ?_⟩
      · rw [htimer, h.armed]
        exact ⟨fun _ => ⟨hon, hupd, .inr hexp⟩,
          fun _ => ⟨hwas, not_not.mpr hpending, .inr hexp⟩⟩
      · rw [htimer]
        exact h.time
      · rw [htimer]
        exact h.expired
      · by_contra hpending
        have hset := harmed.armed.mpr ⟨hon, hupd, .inr hexp⟩
        rw [htimer] at hset
        exact (h.armed.mp hset).2.1 hpending

/-- The reload of a timer that has expired. -/
theorem pwmReload_tmr (s : Pwm) (m : PwmNum) (now : BitVec 64) (n : PwmNum) :
    (if s.tcon &&& S5C_TCON_RELOAD m ≠ 0 then
        s.withTmr m fun t => pwmTimerStart (pwmTimerRenew t) now
      else s).tmr n =
      if n = m ∧ s.reload m then pwmTimerStart (pwmTimerRenew (s.tmr n)) now else s.tmr n := by
  by_cases hreload : s.tcon &&& S5C_TCON_RELOAD m ≠ 0
  · rw [if_pos hreload, Pwm.withTmr_tmr]
    exact if_congr ⟨fun hn => ⟨hn, hreload⟩, And.left⟩ rfl rfl
  · rw [if_neg hreload]
    exact (if_neg fun hboth => hreload hboth.2).symm

/-- An expiry starts again a timer that reloads. -/
theorem pwmTimerExpiry_tmr (s : Pwm) (m : PwmNum) (now : BitVec 64) (n : PwmNum) :
    (pwmTimerExpiry s m now).tcon = s.tcon ∧ ∃ irq, (pwmTimerExpiry s m now).tmr n =
      if n = m ∧ s.reload m then pwmTimerStart (pwmTimerRenew { s.tmr n with irqInst := irq }) now
      else { s.tmr n with irqInst := irq } := by
  obtain ⟨s₁, hs₁⟩ : ∃ s₁ : Pwm, s₁ =
      { s with tintCstat := s.tintCstat ||| PWM_INT_STAT m } := ⟨_, rfl⟩
  obtain ⟨s₂, hs₂⟩ : ∃ s₂ : Pwm, s₂ = if s₁.tintCstat &&& PWM_INT_EN m ≠ 0 then
      s₁.withTmr m fun t => { t with irqInst := true } else s₁ := ⟨_, rfl⟩
  have hexpiry : pwmTimerExpiry s m now = if s₂.tcon &&& S5C_TCON_RELOAD m ≠ 0 then
      s₂.withTmr m fun t => pwmTimerStart (pwmTimerRenew t) now else s₂ := by
    rw [hs₂, hs₁]
    rfl
  have htcon : s₂.tcon = s.tcon := by
    rw [hs₂, hs₁]
    split_ifs <;> rfl
  obtain ⟨irq, htmr⟩ : ∃ irq, s₂.tmr n = { s.tmr n with irqInst := irq } := by
    rw [hs₂, hs₁]
    split_ifs
    · rw [Pwm.withTmr_tmr]
      split_ifs
      · exact ⟨true, rfl⟩
      · exact ⟨(s.tmr n).irqInst, rfl⟩
    · exact ⟨(s.tmr n).irqInst, rfl⟩
  have hreload : s₂.reload m ↔ s.reload m := by
    unfold Pwm.reload
    rw [htcon]
  refine ⟨?_, irq, ?_⟩
  · rw [hexpiry, ← htcon]
    split_ifs <;> rfl
  · rw [hexpiry, pwmReload_tmr, htmr]
    exact if_congr (and_congr_right fun _ => hreload) rfl rfl

/-- An expiry. -/
theorem Pwm.Inv.expire (h : s.Inv g n) (m : PwmNum) (hset : (s.tmr m).pwmTimer.isSome = true) :
    (pwmTimerExpiry (s.withTmr m pwmTimerStop) m now).Keeps
      (if m = n ∧ (s.tmr n).pwmTimer.isSome then
        if s.reload n then ⟨now, false⟩ else ⟨g.time, true⟩ else g) n
      (m = n → (s.tmr n).pwmTimer.isSome = true → s.reload n →
        PwmFresh (s.tmr n).tcntb (s.tmr n).tcntbInQemu (s.tmr n).freqOut) := by
  obtain ⟨htcon, irq, htmr⟩ := pwmTimerExpiry_tmr (s.withTmr m pwmTimerStop) m now n
  rw [Pwm.withTmr_tmr] at htmr
  by_cases hm : m = n
  · subst hm
    have hright := h.armed.mp hset
    rw [if_pos ⟨rfl, hset⟩]
    rw [if_pos rfl] at htmr
    by_cases hreload : s.reload m
    -- the timer is reloaded
    · have htmr := htmr.trans (if_pos ⟨rfl, hreload⟩)
      have hstart : (pwmTimerExpiry (s.withTmr m pwmTimerStop) m now).start m := by
        unfold Pwm.start
        rw [htcon]
        exact hright.1
      have hupd : ¬(pwmTimerExpiry (s.withTmr m pwmTimerStop) m now).manualupd m := by
        unfold Pwm.manualupd
        rw [htcon]
        exact hright.2.1
      have hkeeps := Pwm.Keeps.start hstart hupd (by rw [htmr]; rfl) (by rw [htmr]; rfl)
      rw [htmr] at hkeeps
      rw [if_pos hreload]
      exact ⟨fun hfits => hkeeps.1 (hfits rfl hset hreload), fun harmed _ _ _ => hkeeps.2 harmed⟩
    · have htmr := htmr.trans (if_neg fun hboth => hreload hboth.2)
      rw [if_neg hreload]
      refine .of_inv (.idle (by rw [htmr]; rfl) ?_) fun _ _ hyes => absurd hyes hreload
      rintro ⟨-, -, hyes | hexp⟩
      · unfold Pwm.reload at hyes
        rw [htcon] at hyes
        exact hreload hyes
      · cases hexp
  · have hn : ¬n = m := fun heq => hm heq.symm
    rw [if_neg fun hboth => hm hboth.1]
    rw [if_neg hn] at htmr
    have htmr := htmr.trans (if_neg fun hboth => hn hboth.1)
    refine .of_inv (h.same htcon ?_) fun heq => absurd heq hm
    rw [htmr]
    exact ⟨rfl, rfl, rfl, rfl, rfl⟩

theorem Pwm.fits_write {offset : Nat} {reg : PwmReg} (hreg : pwmReg offset = some reg) :
    s.Fits g clks n (.write offset value) ↔ s.FitsWrite g clks n value reg :=
  ⟨fun h => h reg hreg, fun h _ hr => Option.some.inj (hreg.symm.trans hr) ▸ h⟩

theorem PwmSince.next_write {offset : Nat} {reg : PwmReg} (hreg : pwmReg offset = some reg)
    (hne : reg ≠ .tcon) : g.next s n now (.write offset value) = g :=
  if_neg fun hboth => hne (Option.some.inj (hreg.symm.trans hboth.1))

/-- A write of a register. -/
theorem Pwm.Inv.write (h : s.Inv g n) {offset : Nat} {reg : PwmReg}
    (hreg : pwmReg offset = some reg) (hexec : pwmWrite s offset value clks = .ok s') :
    s'.Keeps (g.next s n clks.now (.write offset value)) n (s.FitsWrite g clks n value reg) := by
  unfold pwmWrite at hexec
  rw [hreg] at hexec
  -- the clock registers change the frequency only
  cases reg with
  | tcfg0 =>
    obtain ⟨htcon, htmr⟩ := pwmTimerFreqs_all (s := { s with tcfg0 := value }) hexec n
    rw [PwmSince.next_write hreg PwmReg.noConfusion]
    exact h.freq htcon htmr
  | tcfg1 =>
    obtain ⟨htcon, htmr⟩ := pwmTimerFreqs_all (s := { s with tcfg1 := value }) hexec n
    rw [PwmSince.next_write hreg PwmReg.noConfusion]
    exact h.freq htcon htmr
  | tcon =>
    obtain rfl := Except.ok.inj hexec
    have hnext : g.next s n clks.now (.write offset value) =
        if pwmStarts s.tcon value n then ⟨clks.now, false⟩ else g :=
      if_congr ⟨And.right, fun hstart => ⟨hreg, hstart⟩⟩ rfl rfl
    rw [hnext]
    exact h.tcon value clks.now
  | tintCstat =>
    obtain rfl := Except.ok.inj hexec
    obtain ⟨htcon, irq, htmr⟩ := pwmWriteTintCstat_tmr s value n
    rw [PwmSince.next_write hreg PwmReg.noConfusion]
    refine .of_inv (h.same htcon ?_) trivial
    rw [htmr]
    exact ⟨rfl, rfl, rfl, rfl, rfl⟩
  | tcntb m =>
    dsimp only at hexec
    cases hticks : muldiv64 (value.setWidth 64) ticksPerSec (s.tmr m).freqOut with
    | error e =>
      rw [hticks] at hexec
      cases hexec
    | ok ticks =>
      rw [hticks] at hexec
      obtain rfl := Except.ok.inj hexec
      rw [PwmSince.next_write hreg PwmReg.noConfusion]
      refine .of_inv (h.same rfl ?_) trivial
      rw [Pwm.withTmr_tmr]
      split_ifs <;> exact ⟨rfl, rfl, rfl, rfl, rfl⟩
  | tcmpb m =>
    obtain rfl := Except.ok.inj hexec
    rw [PwmSince.next_write hreg PwmReg.noConfusion]
    refine .of_inv (h.same rfl ?_) trivial
    rw [Pwm.withTmr_tmr]
    split_ifs <;> exact ⟨rfl, rfl, rfl, rfl, rfl⟩
  | tcnto m => cases hexec

/-- What an operation does to a timer. -/
theorem PwmOp.exec_keeps (h : s.Inv g n) (op : PwmOp) (hexec : op.exec s clks = .ok s') :
    s'.Keeps (g.next s n clks.now op) n (s.Fits g clks n op) := by
  cases op with
  | read offset =>
    change (pwmRead s offset clks.now).map (fun _ => s) = .ok s' at hexec
    cases hread : pwmRead s offset clks.now with
    | error e =>
      rw [hread] at hexec
      cases hexec
    | ok value =>
      rw [hread] at hexec
      obtain rfl := Except.ok.inj hexec
      exact .of_inv h trivial
  | gpioRead m =>
    change (pwmGpioRead s m clks.now).map (fun _ => s) = .ok s' at hexec
    cases hread : pwmGpioRead s m clks.now with
    | error e =>
      rw [hread] at hexec
      cases hexec
    | ok value =>
      rw [hread] at hexec
      obtain rfl := Except.ok.inj hexec
      exact .of_inv h trivial
  | expire m =>
    change (if (s.tmr m).pwmTimer.isSome then _ else _) = _ at hexec
    by_cases hset : (s.tmr m).pwmTimer.isSome
    · rw [if_pos hset] at hexec
      obtain rfl := Except.ok.inj hexec
      exact h.expire m hset
    · rw [if_neg hset] at hexec
      obtain rfl := Except.ok.inj hexec
      have hnot : ¬(m = n ∧ (s.tmr n).pwmTimer.isSome) := by
        rintro ⟨rfl, hyes⟩
        exact hset hyes
      show s.Keeps (if m = n ∧ (s.tmr n).pwmTimer.isSome then _ else g) n _
      rw [if_neg hnot]
      exact .of_inv h fun heq hyes => absurd ⟨heq, hyes⟩ hnot
  | write offset value =>
    change pwmWrite s offset value clks = .ok s' at hexec
    cases hreg : pwmReg offset with
    | none =>
      unfold pwmWrite at hexec
      rw [hreg] at hexec
      cases hexec
    | some reg =>
      obtain ⟨hin, hout⟩ := h.write hreg hexec
      exact ⟨fun hfits => hin ((Pwm.fits_write hreg).mp hfits),
        fun harmed => (Pwm.fits_write hreg).mpr (hout harmed)⟩

/-! ### Runs -/

variable {r r' : PwmRun} {a : PwmOp × Clocks}

theorem PwmRun.exec_eq (h : r.exec a = some r') : a.1.exec r.pwm a.2 = .ok r'.pwm ∧
    ∀ n, r'.since n = (r.since n).next r.pwm n a.2.now a.1 := by
  unfold PwmRun.exec at h
  cases hexec : a.1.exec r.pwm a.2 with
  | error e =>
    rw [hexec] at h
    cases h
  | ok s =>
    rw [hexec] at h
    obtain rfl := Option.some.inj h
    exact ⟨rfl, fun _ => rfl⟩

theorem pwmInit_inv (h : pwmInit clks = .ok s) (n : PwmNum) : s.Inv ⟨0, false⟩ n := by
  have hall : PwmNum.all.foldlM (pwmTimerFreq clks) { pwmZero with tcfg0 := 0x00000101 } =
      .ok s := h
  obtain ⟨htcon, htmr⟩ := pwmTimerFreqs_all hall n
  refine .idle (by rw [htmr]; rfl) fun hright => hright.1 ?_
  rw [htcon]
  exact BitVec.zero_and

/-- **Timers that count.**  Along a run that returns, all timers are armed when they should be, and
    expire after their counts, from which TCNTO counts down, if and only if all operations fit. -/
theorem pwm_timers (clks : Clocks) (s : Pwm) (ops : List (PwmOp × Clocks)) (r : PwmRun)
    (hinit : pwmInit clks = .ok s)
    (hrun : runFrom PwmRun.exec ⟨s, fun _ => ⟨0, false⟩⟩ ops = some r) :
    (∀ k r₁, runFrom PwmRun.exec ⟨s, fun _ => ⟨0, false⟩⟩ (ops.take k) = some r₁ → r₁.Right) ↔
      StepsMeet PwmRun.exec PwmRun.Fits ⟨s, fun _ => ⟨0, false⟩⟩ ops := by
  refine runFrom_all_iff (I := fun r : PwmRun => ∀ n, r.pwm.Inv (r.since n) n)
    (fun r h n => (h n).right) (fun r a r' h hfits hexec n => ?_) (fun r a r' h hfits hexec => ?_)
    (pwmInit_inv hinit) hrun
  · obtain ⟨hop, hsince⟩ := PwmRun.exec_eq hexec
    rw [hsince]
    exact (PwmOp.exec_keeps (h n) a.1 hop).1 (hfits n n.mem_all)
  · obtain ⟨hop, hsince⟩ := PwmRun.exec_eq hexec
    refine fun hright => hfits fun n _ => (PwmOp.exec_keeps (h n) a.1 hop).2 ?_
    rw [← hsince]
    exact (hright n).armed

/-- The device on the board. -/
def boardPwm : Pwm :=
  match pwmInit boardClocks with
  | .ok s => s
  | .error _ => pwmZero

theorem pwmInit_board : pwmInit boardClocks = .ok boardPwm := by
  obtain ⟨s, hs, -⟩ := pwmInit_ok boardClocks
  rw [boardPwm, hs]

/-- The guest sets a count of a millisecond, and writes TCON twice. -/
def pwmStartOps (first second : BitVec 32) : List (PwmOp × Clocks) :=
  [(.write 0x0c 33000, boardClocks), (.write 0x08 first, boardClocks),
    (.write 0x08 second, boardClocks)]

/-- A timer updated by hand, then started with reload. -/
theorem pwm_timers_reload : ∃ r,
    runFrom PwmRun.exec ⟨boardPwm, fun _ => ⟨0, false⟩⟩
      (pwmStartOps (S5C_TCON_MANUALUPD .t0) (S5C_TCON_START .t0 ||| S5C_TCON_RELOAD .t0)) =
        some r ∧ r.Right := by
  have hsome : (runFrom PwmRun.exec ⟨boardPwm, fun _ => ⟨0, false⟩⟩
      (pwmStartOps (S5C_TCON_MANUALUPD .t0)
        (S5C_TCON_START .t0 ||| S5C_TCON_RELOAD .t0))).isSome := by decide +kernel
  have hrun := (Option.some_get hsome).symm
  have hall := (pwm_timers boardClocks boardPwm _ _ pwmInit_board hrun).mpr (by decide +kernel)
  exact ⟨_, hrun, hall 3 _ hrun⟩

/-- A timer that is started with an update does not run when the update is cleared. -/
theorem pwm_not_armed : ¬∀ s r, pwmInit boardClocks = .ok s →
    runFrom PwmRun.exec ⟨s, fun _ => ⟨0, false⟩⟩
      (pwmStartOps (S5C_TCON_START .t0 ||| S5C_TCON_MANUALUPD .t0) (S5C_TCON_START .t0)) =
        some r → r.Right := by
  intro h
  have hright := h boardPwm _ pwmInit_board (Option.some_get (by decide +kernel)).symm
  have harmed := (hright .t0).armed.armed.mpr ⟨by unfold Pwm.start; decide +kernel,
    by unfold Pwm.manualupd; decide +kernel, .inr (by decide +kernel)⟩
  revert harmed
  decide +kernel

end Qemu.Hw
