import Qemu.Hw.Clock
import Mathlib.Tactic.IntervalCases

namespace Qemu.Hw

open Lib

/-!
# The PWM timers of the S5PC110 (`hw/s5pc1xx_pwm.c`)

* `pwmTimerFreq` — the frequency of a timer, through a prescaler and a divisor of eight bits;
* `pwmRead`, `pwmWrite` — the registers;
* `PwmOp.exec` — an access of the guest, or a QEMU timer expires;
* `PwmOp.exec_fits`, `PwmOp.exec_divZero` — which operations divide by zero.
-/

/-- The number of a timer. -/
inductive PwmNum
  | t0 | t1 | t2 | t3 | t4
deriving DecidableEq

/-- The number of a timer. -/
def PwmNum.num : PwmNum → Nat
  | .t0 => 0
  | .t1 => 1
  | .t2 => 2
  | .t3 => 3
  | .t4 => 4

/-- The five timers. -/
def PwmNum.all : List PwmNum :=
  [.t0, .t1, .t2, .t3, .t4]

/-! ### Constants -/

def S5C_TCFG0_PRESCALER0_SHIFT : Nat := 0
def S5C_TCFG0_PRESCALER1_SHIFT : Nat := 8
def S5C_TCFG1_DIV_SHIFT (n : PwmNum) : Nat := n.num * 4
def TCLK : BitVec 32 := 0x5

/-- `PWM_INT_EN`, one bit for each timer. -/
def PWM_INT_EN (n : PwmNum) : BitVec 32 := 1 <<< n.num

/-- `PWM_INT_STAT`, five bits above. -/
def PWM_INT_STAT (n : PwmNum) : BitVec 32 := 1 <<< (n.num + 5)
def PWM_ALL_STAT : BitVec 32 := 0x3e0

/-- `S5C_TCON_RELOAD` -/
def S5C_TCON_RELOAD : PwmNum → BitVec 32
  | .t0 => 1 <<< 3
  | .t1 => 1 <<< 11
  | .t2 => 1 <<< 15
  | .t3 => 1 <<< 19
  | .t4 => 1 <<< 22

/-- `S5C_TCON_INVERT` -/
def S5C_TCON_INVERT : PwmNum → BitVec 32
  | .t0 => 1 <<< 2
  | .t1 => 1 <<< 10
  | .t2 => 1 <<< 14
  | .t3 => 1 <<< 18
  | .t4 => 0

/-- `S5C_TCON_MANUALUPD` -/
def S5C_TCON_MANUALUPD : PwmNum → BitVec 32
  | .t0 => 1 <<< 1
  | .t1 => 1 <<< 9
  | .t2 => 1 <<< 13
  | .t3 => 1 <<< 17
  | .t4 => 1 <<< 21

/-- `S5C_TCON_START` -/
def S5C_TCON_START : PwmNum → BitVec 32
  | .t0 => 1 <<< 0
  | .t1 => 1 <<< 8
  | .t2 => 1 <<< 12
  | .t3 => 1 <<< 16
  | .t4 => 1 <<< 20

/-! ### State -/

/-- `S5pc1xxPWMTimerState`; `pwmTimer` is when the QEMU timer expires, if it is set. -/
structure PwmTimer where
  irqInst : Bool
  pwmTimer : Option (BitVec 64)
  freqOut : BitVec 32
  lastPwmTime : BitVec 64
  tcntb : BitVec 32
  tcntbInQemu : BitVec 64
  tcnt : BitVec 32
  tcntInQemu : BitVec 64
  tcmpb : BitVec 32
  tcmp : BitVec 32

/-- `S5pc1xxPWMState`; the tags always are what the functions check for. -/
structure Pwm where
  tcfg0 : BitVec 32
  tcfg1 : BitVec 32
  tcon : BitVec 32
  tintCstat : BitVec 32
  tmr : PwmNum → PwmTimer

/-- One timer is changed. -/
def Pwm.withTmr (s : Pwm) (n : PwmNum) (f : PwmTimer → PwmTimer) : Pwm :=
  { s with tmr := Function.update s.tmr n (f (s.tmr n)) }

/-! ### Timers -/

/-- `s5pc1xx_pwm_convert_term` -/
def pwmConvertTerm (term : BitVec 64) (timerFreq : BitVec 32) : Except ClkStop (BitVec 32) :=
  (muldiv64 term timerFreq ticksPerSec).map (BitVec.setWidth 32)

/-- `s5pc1xx_pwm_timer_renew` -/
def pwmTimerRenew (t : PwmTimer) : PwmTimer :=
  { t with tcmp := t.tcmpb, tcnt := t.tcntb, tcntInQemu := t.tcntbInQemu }

/-- `s5pc1xx_pwm_timer_start` -/
def pwmTimerStart (t : PwmTimer) (now : BitVec 64) : PwmTimer :=
  { t with lastPwmTime := now, pwmTimer := some (now + t.tcntInQemu) }

/-- `s5pc1xx_pwm_timer_stop` -/
def pwmTimerStop (t : PwmTimer) : PwmTimer :=
  { t with pwmTimer := none }

/-- `s5pc1xx_pwm_timer_expiry` -/
def pwmTimerExpiry (s : Pwm) (n : PwmNum) (now : BitVec 64) : Pwm :=
  let s := { s with tintCstat := s.tintCstat ||| PWM_INT_STAT n }
  let s :=
    if s.tintCstat &&& PWM_INT_EN n ≠ 0 then s.withTmr n fun t => { t with irqInst := true } else s
  if s.tcon &&& S5C_TCON_RELOAD n ≠ 0 then
    s.withTmr n fun t => pwmTimerStart (pwmTimerRenew t) now
  else s

/-- The field of a timer in TCFG1. -/
def pwmCode (tcfg1 : BitVec 32) (n : PwmNum) : BitVec 32 :=
  tcfg1 >>> S5C_TCFG1_DIV_SHIFT n &&& 0xf

/-- The clock of a timer. -/
def pwmClk (s : Pwm) (n : PwmNum) : Clk :=
  if pwmCode s.tcfg1 n = TCLK then .sclkPwm else .pclk66

/-- The prescaler of a timer. -/
def pwmPrescaler (s : Pwm) (n : PwmNum) : BitVec 8 :=
  if pwmCode s.tcfg1 n = TCLK then 0
  else match n with
    | .t0 | .t1 => (s.tcfg0 >>> S5C_TCFG0_PRESCALER0_SHIFT &&& 0xFF).setWidth 8
    | .t2 | .t3 | .t4 => (s.tcfg0 >>> S5C_TCFG0_PRESCALER1_SHIFT &&& 0xFF).setWidth 8

/-- The divisor, which is cut off to eight bits. -/
def pwmDivisor (s : Pwm) (n : PwmNum) : BitVec 8 :=
  if pwmCode s.tcfg1 n = TCLK then 1
  else ((1 : BitVec 32) <<< pwmCode s.tcfg1 n).setWidth 8

/-- `s5pc1xx_pwm_timer_freq` -/
def pwmTimerFreq (clks : Clocks) (s : Pwm) (n : PwmNum) : Except ClkStop Pwm := do
  let scaled ← ndiv (clks.rate (pwmClk s n)) ((pwmPrescaler s n).toNat + 1)
  let freq ← ndiv scaled (pwmDivisor s n).toNat
  return s.withTmr n fun t => { t with freqOut := BitVec.ofNat 32 freq }

/-! ### Registers -/

/-- The registers a write reaches. -/
inductive PwmReg
  | tcfg0 | tcfg1 | tcon | tintCstat
  | tcntb (n : PwmNum)
  | tcmpb (n : PwmNum)
  | tcnto (n : PwmNum)
deriving DecidableEq

/-- The register at an offset. -/
def pwmReg (offset : Nat) : Option PwmReg :=
  match offset with
  | 0x00 => some .tcfg0
  | 0x04 => some .tcfg1
  | 0x08 => some .tcon
  | 0x0c => some (.tcntb .t0)
  | 0x10 => some (.tcmpb .t0)
  | 0x14 => some (.tcnto .t0)
  | 0x18 => some (.tcntb .t1)
  | 0x1c => some (.tcmpb .t1)
  | 0x20 => some (.tcnto .t1)
  | 0x24 => some (.tcntb .t2)
  | 0x28 => some (.tcmpb .t2)
  | 0x2c => some (.tcnto .t2)
  | 0x30 => some (.tcntb .t3)
  | 0x34 => some (.tcmpb .t3)
  | 0x38 => some (.tcnto .t3)
  | 0x3c => some (.tcntb .t4)
  | 0x40 => some (.tcnto .t4)
  | 0x44 => some .tintCstat
  | _ => none

/-- The read of TCNTO. -/
def pwmReadTcnto (s : Pwm) (n : PwmNum) (now : BitVec 64) : Except ClkStop (BitVec 32) :=
  if s.tcon &&& S5C_TCON_START n = 0 then .ok (s.tmr n).tcnt
  else if (s.tmr n).tcntInQemu < now - (s.tmr n).lastPwmTime then .ok 0
  else
    (pwmConvertTerm (now - (s.tmr n).lastPwmTime) (s.tmr n).freqOut).map ((s.tmr n).tcnt - ·)

/-- `s5pc1xx_pwm_read` -/
def pwmRead (s : Pwm) (offset : Nat) (now : BitVec 64) : Except ClkStop (BitVec 32) :=
  match pwmReg offset with
  | some .tcfg0 => .ok s.tcfg0
  | some .tcfg1 => .ok s.tcfg1
  | some .tcon => .ok s.tcon
  | some .tintCstat => .ok s.tintCstat
  | some (.tcntb n) => .ok (s.tmr n).tcntb
  | some (.tcmpb n) => .ok (s.tmr n).tcmpb
  | some (.tcnto n) => pwmReadTcnto s n now
  | none => .error .hwError

/-- The output of a timer; the last one has none. -/
def pwmGpioRead (s : Pwm) (n : PwmNum) (now : BitVec 64) : Except ClkStop (BitVec 8) :=
  if n = .t4 then .ok 0
  else
    (pwmConvertTerm (now - (s.tmr n).lastPwmTime) (s.tmr n).freqOut).map fun term =>
      if term < (s.tmr n).tcmp then if s.tcon &&& S5C_TCON_INVERT n ≠ 0 then 1 else 0
      else if s.tcon &&& S5C_TCON_INVERT n ≠ 0 then 0 else 1

/-- A timer at a write of TCON. -/
def pwmTconTimer (tcon value : BitVec 32) (now : BitVec 64) (s : Pwm) (n : PwmNum) : Pwm :=
  let start := S5C_TCON_START n
  let s := if tcon &&& start < value &&& start then s.withTmr n (pwmTimerStart · now) else s
  let s := if value &&& start < tcon &&& start then s.withTmr n pwmTimerStop else s
  if value &&& S5C_TCON_MANUALUPD n ≠ 0 then
    s.withTmr n fun t => pwmTimerRenew (pwmTimerStop t)
  else s

/-- The write of TCON. -/
def pwmWriteTcon (s : Pwm) (value : BitVec 32) (now : BitVec 64) : Pwm :=
  { PwmNum.all.foldl (pwmTconTimer s.tcon value now) s with
    tcon := value }

/-- The write of TINT_CSTAT. -/
def pwmWriteTintCstat (s : Pwm) (value : BitVec 32) : Pwm :=
  let lower := fun (s : Pwm) n =>
    if value &&& PWM_INT_STAT n ≠ 0 then s.withTmr n fun t => { t with irqInst := false } else s
  { PwmNum.all.foldl lower s with
    tintCstat := (s.tintCstat &&& PWM_ALL_STAT ||| value &&& ~~~PWM_ALL_STAT) &&&
      ~~~(value &&& PWM_ALL_STAT) }

/-- `s5pc1xx_pwm_write` -/
def pwmWrite (s : Pwm) (offset : Nat) (value : BitVec 32) (clks : Clocks) : Except ClkStop Pwm :=
  match pwmReg offset with
  | some .tcfg0 => PwmNum.all.foldlM (pwmTimerFreq clks) { s with tcfg0 := value }
  | some .tcfg1 => PwmNum.all.foldlM (pwmTimerFreq clks) { s with tcfg1 := value }
  | some .tcon => .ok (pwmWriteTcon s value clks.now)
  | some .tintCstat => .ok (pwmWriteTintCstat s value)
  | some (.tcntb n) =>
    (muldiv64 (value.setWidth 64) ticksPerSec (s.tmr n).freqOut).map fun ticks =>
      s.withTmr n fun t => { t with tcntb := value, tcntbInQemu := ticks }
  | some (.tcmpb n) => .ok (s.withTmr n fun t => { t with tcmpb := value })
  | _ => .error .hwError

/-- The device as it is allocated. -/
def pwmZero : Pwm where
  tcfg0 := 0
  tcfg1 := 0
  tcon := 0
  tintCstat := 0
  tmr := fun _ =>
    { irqInst := false
      pwmTimer := none
      freqOut := 0
      lastPwmTime := 0
      tcntb := 0
      tcntbInQemu := 0
      tcnt := 0
      tcntInQemu := 0
      tcmpb := 0
      tcmp := 0 }

/-- `s5pc1xx_pwm_init` -/
def pwmInit (clks : Clocks) : Except ClkStop Pwm :=
  pwmWrite pwmZero 0x00 0x00000101 clks

/-! ### Operations -/

/-- What the guest does, by the registers and by GPIO, and the expiry of a QEMU timer. -/
inductive PwmOp
  | read (offset : Nat)
  | write (offset : Nat) (value : BitVec 32)
  | gpioRead (n : PwmNum)
  | expire (n : PwmNum)
deriving DecidableEq

/-- An operation; a timer that is not set does not expire. -/
def PwmOp.exec (s : Pwm) (clks : Clocks) : PwmOp → Except ClkStop Pwm
  | .read offset => (pwmRead s offset clks.now).map fun _ => s
  | .write offset value => pwmWrite s offset value clks
  | .gpioRead n => (pwmGpioRead s n clks.now).map fun _ => s
  | .expire n =>
    if (s.tmr n).pwmTimer.isSome then .ok (pwmTimerExpiry (s.withTmr n pwmTimerStop) n clks.now)
    else .ok s

/-! ### The condition -/

/-- No divisor is cut off to zero. -/
def pwmDivides (tcfg1 : BitVec 32) : Prop :=
  ∀ n ∈ PwmNum.all, pwmCode tcfg1 n < 8

instance pwmDivides.decidable (tcfg1 : BitVec 32) : Decidable (pwmDivides tcfg1) :=
  inferInstanceAs (Decidable (∀ n ∈ PwmNum.all, _))

/-- The write divides by no zero. -/
def PwmReg.Fits (s : Pwm) (value : BitVec 32) : PwmReg → Prop
  | .tcfg1 => pwmDivides value
  | .tcntb n => (s.tmr n).freqOut ≠ 0
  | _ => True

/-- What an operation is to meet: the divisors fit into eight bits, and a timer has a frequency when
    its count is written. -/
def PwmOp.Fits (s : Pwm) : PwmOp → Prop
  | .write offset value => ∀ r ∈ pwmReg offset, r.Fits s value
  | _ => True

/-! ### Divisors -/

theorem pwmCode_lt (tcfg1 : BitVec 32) (n : PwmNum) : (pwmCode tcfg1 n).toNat < 16 := by
  have hand : (pwmCode tcfg1 n).toNat ≤ (0xf : BitVec 32).toNat := Nat.and_le_right
  exact Nat.lt_succ_of_le hand

theorem pwmShift_ne_zero {code : BitVec 32} (hcode : code.toNat < 16) :
    ((1 : BitVec 32) <<< code).setWidth 8 ≠ (0 : BitVec 8) ↔ code < 8 := by
  obtain ⟨k, hk⟩ : ∃ k, code.toNat = k := ⟨_, rfl⟩
  have hof : code = BitVec.ofNat 32 k := BitVec.eq_of_toNat_eq (by simp [hk]; omega)
  rw [hk] at hcode
  subst hof
  interval_cases k <;> decide

variable {n : PwmNum} {s : Pwm}

theorem pwmDivisor_ne_zero : (pwmDivisor s n).toNat ≠ 0 ↔ pwmCode s.tcfg1 n < 8 := by
  have hnat : (pwmDivisor s n).toNat ≠ 0 ↔ pwmDivisor s n ≠ 0 :=
    not_congr ⟨fun h => BitVec.eq_of_toNat_eq h, fun h => congrArg BitVec.toNat h⟩
  rw [hnat]
  unfold pwmDivisor
  split_ifs with htclk
  · rw [htclk]
    decide
  · exact pwmShift_ne_zero (pwmCode_lt s.tcfg1 n)

theorem pwmTimerFreq_fits (clks : Clocks) (h : pwmCode s.tcfg1 n < 8) :
    ∃ s', pwmTimerFreq clks s n = .ok s' ∧ s'.tcfg1 = s.tcfg1 := by
  unfold pwmTimerFreq
  rw [ndiv_eq _ (Nat.succ_ne_zero _), ok_bind, ndiv_eq _ (pwmDivisor_ne_zero.mpr h), ok_bind]
  exact ⟨_, rfl, rfl⟩

variable {clks : Clocks}

theorem pwmTimerFreq_divZero (h : ¬pwmCode s.tcfg1 n < 8) :
    pwmTimerFreq clks s n = .error .divZero := by
  have hzero : (pwmDivisor s n).toNat = 0 := not_not.mp fun hne => h (pwmDivisor_ne_zero.mp hne)
  unfold pwmTimerFreq
  rw [ndiv_eq _ (Nat.succ_ne_zero _), ok_bind, ndiv, if_pos hzero, error_bind]

/-- The loop over the timers. -/
theorem pwmTimerFreqs_fits (clks : Clocks) {l : List PwmNum} (h : ∀ n ∈ l, pwmCode s.tcfg1 n < 8) :
    ∃ s', l.foldlM (pwmTimerFreq clks) s = .ok s' ∧ s'.tcfg1 = s.tcfg1 := by
  induction l generalizing s with
  | nil => exact ⟨s, rfl, rfl⟩
  | cons n l ih =>
    obtain ⟨s₁, hs₁, htcfg₁⟩ := pwmTimerFreq_fits clks (h n List.mem_cons_self)
    have hrest : ∀ n ∈ l, pwmCode s₁.tcfg1 n < 8 := by
      rw [htcfg₁]
      exact fun n hn => h n (List.mem_cons_of_mem _ hn)
    obtain ⟨s', hs', htcfg'⟩ := ih hrest
    rw [List.foldlM_cons, hs₁, ok_bind]
    exact ⟨s', hs', htcfg'.trans htcfg₁⟩

/-- One such timer faults the loop. -/
theorem pwmTimerFreqs_divZero {l : List PwmNum} (h : ¬∀ n ∈ l, pwmCode s.tcfg1 n < 8) :
    l.foldlM (pwmTimerFreq clks) s = .error .divZero := by
  induction l generalizing s with
  | nil => exact absurd (List.forall_mem_nil _) h
  | cons n l ih =>
    rw [List.foldlM_cons]
    by_cases hn : pwmCode s.tcfg1 n < 8
    · obtain ⟨s₁, hs₁, htcfg₁⟩ := pwmTimerFreq_fits clks hn
      rw [hs₁, ok_bind]
      apply ih
      rw [htcfg₁]
      exact fun hl => h (List.forall_mem_cons.mpr ⟨hn, hl⟩)
    · rw [pwmTimerFreq_divZero hn, error_bind]

/-! ### Operations -/

theorem pwmConvertTerm_ok (term : BitVec 64) (timerFreq : BitVec 32) :
    ∃ r, pwmConvertTerm term timerFreq = .ok r := by
  obtain ⟨r, hr⟩ := muldiv64_ticks term timerFreq
  unfold pwmConvertTerm
  rw [hr]
  exact ⟨_, rfl⟩

theorem pwmTconTimer_tcfg1 (tcon value : BitVec 32) (now : BitVec 64) (s : Pwm) (n : PwmNum) :
    (pwmTconTimer tcon value now s n).tcfg1 = s.tcfg1 := by
  unfold pwmTconTimer
  dsimp only
  split_ifs <;> rfl

theorem foldl_pwmTconTimer_tcfg1 (tcon value : BitVec 32) (now : BitVec 64) (l : List PwmNum)
    (s : Pwm) : (l.foldl (pwmTconTimer tcon value now) s).tcfg1 = s.tcfg1 := by
  induction l generalizing s with
  | nil => rfl
  | cons n l ih => exact (ih _).trans (pwmTconTimer_tcfg1 tcon value now s n)

theorem pwmTimerExpiry_tcfg1 (s : Pwm) (n : PwmNum) (now : BitVec 64) :
    (pwmTimerExpiry s n now).tcfg1 = s.tcfg1 := by
  unfold pwmTimerExpiry
  dsimp only
  split_ifs <;> rfl

theorem pwmWriteTintCstat_tcfg1 (s : Pwm) (value : BitVec 32) :
    (pwmWriteTintCstat s value).tcfg1 = s.tcfg1 := by
  have hlower : ∀ (l : List PwmNum) (s : Pwm), (l.foldl (fun (s : Pwm) n =>
      if value &&& PWM_INT_STAT n ≠ 0 then s.withTmr n fun t => { t with irqInst := false }
      else s) s).tcfg1 = s.tcfg1 := by
    intro l
    induction l with
    | nil => exact fun _ => rfl
    | cons n l ih =>
      intro s
      rw [List.foldl_cons, ih]
      split_ifs <;> rfl
  exact hlower PwmNum.all s

/-- A write that fits ends, with dividers that fit. -/
theorem pwmWrite_fits {offset : Nat} {value : BitVec 32} (h : pwmDivides s.tcfg1)
    (hop : ∀ r ∈ pwmReg offset, r.Fits s value) :
    Ends (fun s' => pwmDivides s'.tcfg1) (· = .hwError) (pwmWrite s offset value clks) := by
  unfold pwmWrite
  cases hreg : pwmReg offset with
  | none => exact .error rfl
  | some r =>
    have hr := hop r hreg
    cases r with
    | tcfg0 =>
      obtain ⟨s', hs', htcfg'⟩ := pwmTimerFreqs_fits clks (s := { s with tcfg0 := value }) h
      exact (congrArg (Ends _ _) hs').mpr (.ok (by rw [htcfg']; exact h))
    | tcfg1 =>
      obtain ⟨s', hs', htcfg'⟩ := pwmTimerFreqs_fits clks (s := { s with tcfg1 := value }) hr
      exact (congrArg (Ends _ _) hs').mpr (.ok (by rw [htcfg']; exact hr))
    | tcon =>
      refine .ok ?_
      show pwmDivides (PwmNum.all.foldl _ s).tcfg1
      rw [foldl_pwmTconTimer_tcfg1]
      exact h
    | tintCstat =>
      refine .ok ?_
      rw [pwmWriteTintCstat_tcfg1]
      exact h
    | tcntb n =>
      obtain ⟨ticks, hticks⟩ := muldiv64_ok (value.setWidth 64) ticksPerSec hr
      dsimp only
      rw [hticks]
      exact .ok h
    | tcmpb n => exact .ok h
    | tcnto n => exact .error rfl

/-- So does every operation. -/
theorem PwmOp.exec_fits {op : PwmOp} (h : pwmDivides s.tcfg1) (hop : op.Fits s) :
    Ends (fun s' => pwmDivides s'.tcfg1) (· = .hwError) (op.exec s clks) := by
  cases op with
  | read offset =>
    show Ends _ _ ((pwmRead s offset clks.now).map fun _ => s)
    have hread : Ends (fun _ => True) (· = ClkStop.hwError) (pwmRead s offset clks.now) := by
      unfold pwmRead
      split
      case h_7 n _ =>
        unfold pwmReadTcnto
        obtain ⟨r, hr⟩ := pwmConvertTerm_ok (clks.now - (s.tmr n).lastPwmTime) (s.tmr n).freqOut
        rw [hr]
        refine Ends.ite (fun _ => .ok trivial) fun _ => ?_
        exact Ends.ite (fun _ => .ok trivial) fun _ => .ok trivial
      case h_8 => exact .error rfl
      all_goals exact .ok trivial
    exact hread.map fun _ _ => h
  | write offset value => exact pwmWrite_fits h hop
  | gpioRead n =>
    show Ends _ _ ((pwmGpioRead s n clks.now).map fun _ => s)
    obtain ⟨r, hr⟩ := pwmConvertTerm_ok (clks.now - (s.tmr n).lastPwmTime) (s.tmr n).freqOut
    unfold pwmGpioRead
    rw [hr]
    split_ifs <;> exact .ok h
  | expire n =>
    refine Ends.ite (fun _ => .ok ?_) fun _ => .ok h
    rw [pwmTimerExpiry_tcfg1]
    exact h

/-- One that does not fit faults. -/
theorem PwmOp.exec_divZero {op : PwmOp} (hop : ¬op.Fits s) : op.exec s clks = .error .divZero := by
  cases op with
  | read offset => exact absurd trivial hop
  | gpioRead n => exact absurd trivial hop
  | expire n => exact absurd trivial hop
  | write offset value =>
    simp only [PwmOp.Fits, Classical.not_forall] at hop
    obtain ⟨r, hreg, hr⟩ := hop
    rw [Option.mem_def] at hreg
    show pwmWrite s offset value clks = _
    unfold pwmWrite
    rw [hreg]
    cases r with
    | tcfg1 => exact pwmTimerFreqs_divZero (s := { s with tcfg1 := value }) hr
    | tcntb n =>
      have hzero : (s.tmr n).freqOut = 0 := not_not.mp hr
      dsimp only
      rw [hzero, muldiv64_zero]
      rfl
    | tcfg0 => exact absurd trivial hr
    | tcon => exact absurd trivial hr
    | tintCstat => exact absurd trivial hr
    | tcmpb n => exact absurd trivial hr
    | tcnto n => exact absurd trivial hr

theorem pwmInit_ok (clks : Clocks) : ∃ s, pwmInit clks = .ok s ∧ pwmDivides s.tcfg1 := by
  have hzero : pwmDivides 0 := by decide
  obtain ⟨s, hs, htcfg⟩ :=
    pwmTimerFreqs_fits clks (s := { pwmZero with tcfg0 := 0x00000101 }) hzero
  exact ⟨s, hs, htcfg ▸ hzero⟩

end Qemu.Hw
