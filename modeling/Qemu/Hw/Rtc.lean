import Qemu.Hw.Clock
import Mathlib.Tactic.IntervalCases

namespace Qemu.Hw

open Lib

/-!
# The real time clock of the S5PC110 (`hw/s5pc1xx_rtc.c`)

* `rtcSetTimer`, `rtcPeriodicTick` — the ticks;
* `rtcSecondUpdate`, `rtcNextSecond` — the date and the alarm;
* `rtcRead`, `rtcWrite` — the registers;
* `RtcOp.exec` — an access of the guest, or a QEMU timer expires;
* `RtcOp.exec_fits` — no operation divides by zero: while the tick is enabled, it has a frequency.
-/

/-! ### Constants -/

def INT_PEND : Nat := 0x30
def RTC_CON : Nat := 0x40
def TIC_CNT : Nat := 0x44
def RTC_ALM : Nat := 0x50
def ALM_SEC : Nat := 0x54
def ALM_MIN : Nat := 0x58
def ALM_HOUR : Nat := 0x5C
def ALM_DAY : Nat := 0x60
def ALM_MON : Nat := 0x64
def ALM_YEAR : Nat := 0x68
def BCD_SEC : Nat := 0x70
def BCD_MIN : Nat := 0x74
def BCD_HOUR : Nat := 0x78
def BCD_DAY : Nat := 0x7C
def BCD_WEEKDAY : Nat := 0x80
def BCD_MON : Nat := 0x84
def BCD_YEAR : Nat := 0x88
def CUR_TIC_CNT : Nat := 0x90

def INT_ALM : BitVec 32 := 0x02
def INT_TIC : BitVec 32 := 0x01

def TIC_EN : BitVec 32 := 0x100
def TIC_CK_SEL_SHIFT : Nat := 4
def CLK_RST : BitVec 32 := 0x08
def RTC_EN : BitVec 32 := 0x01

def ALM_EN : BitVec 32 := 0x40
def YEAR_EN : BitVec 32 := 0x20
def MON_EN : BitVec 32 := 0x10
def DAY_EN : BitVec 32 := 0x08
def HOUR_EN : BitVec 32 := 0x04
def MIN_EN : BitVec 32 := 0x02
def SEC_EN : BitVec 32 := 0x01

/-! ### State -/

/-- `struct tm` -/
structure Tm where
  sec : Int
  min : Int
  hour : Int
  wday : Int
  mday : Int
  mon : Int
  year : Int

/-- `S5pc1xxRTCState`; the timers are when the QEMU timers expire, if they are set. -/
structure Rtc where
  regs : Nat → BitVec 32
  periodicTimer : Option (BitVec 64)
  freqOut : BitVec 32
  lastTick : BitVec 64
  curTicCnt : BitVec 64
  tickIrq : Bool
  secondTimer : Option (BitVec 64)
  currentTm : Tm
  almIrq : Bool

/-- A register is written. -/
def Rtc.set (s : Rtc) (reg : Nat) (value : BitVec 32) : Rtc :=
  { s with regs := Function.update s.regs reg value }

/-! ### Dates -/

/-- `to_bcd`, of a number that is cut off to eight bits. -/
def toBcd (val : Int) : BitVec 32 :=
  let val := (BitVec.ofInt 8 val).toNat
  BitVec.ofNat 32 (((val / 10) <<< 4 ||| val % 10) % 2 ^ 8)

/-- `from_bcd` -/
def fromBcd (val : BitVec 32) : Int :=
  let val := (val.setWidth 8).toNat
  Int.ofNat (((val >>> 4) * 10 + (val &&& 0x0f)) % 2 ^ 8)

/-- `s5pc1xx_rtc_get_date` -/
def rtcGetDate (s : Rtc) : Rtc :=
  { s with
    currentTm :=
      { sec := fromBcd (s.regs BCD_SEC &&& 0x7F)
        min := fromBcd (s.regs BCD_MIN &&& 0x7F)
        hour := fromBcd (s.regs BCD_HOUR &&& 0x3F)
        wday := fromBcd (s.regs BCD_WEEKDAY &&& 0x07)
        mday := fromBcd (s.regs BCD_DAY &&& 0x3F)
        mon := fromBcd (s.regs BCD_MON &&& 0x1F) - 1
        year := 100 + fromBcd (s.regs BCD_YEAR &&& 0xFF) +
          fromBcd (s.regs BCD_YEAR >>> 8 &&& 0xF) * 100 } }

/-- The year in BCD: its last two digits, and the one in front of them. -/
def bcdYear (tm : Tm) : BitVec 32 × BitVec 32 :=
  (toBcd (Int.tmod (tm.year - 100) 100), toBcd (Int.tdiv (Int.tmod (tm.year - 100) 1000) 100))

/-- `s5pc1xx_rtc_set_date` -/
def rtcSetDate (s : Rtc) (tm : Tm) : Rtc :=
  let s := { s with currentTm := tm }
  let s := s.set BCD_SEC (toBcd tm.sec)
  let s := s.set BCD_MIN (toBcd tm.min)
  let s := s.set BCD_HOUR (toBcd tm.hour)
  let s := s.set BCD_WEEKDAY (toBcd tm.wday)
  let s := s.set BCD_DAY (toBcd tm.mday)
  let s := s.set BCD_MON (toBcd (tm.mon + 1))
  s.set BCD_YEAR ((bcdYear tm).1 ||| (bcdYear tm).2 <<< 8)

/-- `get_days_in_month`; the month is between 0 and 11. -/
def getDaysInMonth (month year : Int) : Int :=
  if month < 0 ∨ 12 ≤ month then 31
  else if month = 1 then if Int.tmod year 4 = 0 then 29 else 28
  else if month = 3 ∨ month = 5 ∨ month = 8 ∨ month = 10 then 30
  else 31

/-- The day after. -/
def nextDay (tm : Tm) : Tm :=
  let wday := tm.wday + 1
  let tm := { tm with
    wday := if wday < 0 ∨ 8 ≤ wday then 1 else wday }
  let mday := tm.mday + 1
  if mday < 1 then { tm with mday := 1 }
  else if getDaysInMonth tm.mon tm.year < mday then
    if 12 ≤ tm.mon + 1 then { tm with mday := 1, mon := 0, year := tm.year + 1 }
    else { tm with mday := 1, mon := tm.mon + 1 }
  else { tm with mday := mday }

/-- `s5pc1xx_rtc_next_second`; a negative number is a large one without its sign. -/
def rtcNextSecond (tm : Tm) : Tm :=
  let sec := tm.sec + 1
  if ¬(sec < 0 ∨ 60 ≤ sec) then { tm with sec := sec }
  else
    let min := tm.min + 1
    if ¬(min < 0 ∨ 60 ≤ min) then { tm with sec := 0, min := min }
    else
      let hour := tm.hour + 1
      if ¬(hour < 0 ∨ 24 ≤ hour) then { tm with sec := 0, min := 0, hour := hour }
      else nextDay { tm with sec := 0, min := 0, hour := 0 }

/-! ### Timers -/

/-- A field of the alarm is not enabled, or is the one of the date. -/
def almMatches (s : Rtc) (en : BitVec 32) (same : Bool) : Bool :=
  same || s.regs RTC_ALM &&& en == 0

/-- The alarm is enabled, and rings. -/
def rtcAlarm (s : Rtc) : Bool :=
  let tm := s.currentTm
  s.regs RTC_ALM &&& ALM_EN != 0 &&
    s.regs RTC_ALM &&& (SEC_EN ||| MIN_EN ||| HOUR_EN ||| DAY_EN ||| MON_EN ||| YEAR_EN) != 0 &&
    almMatches s SEC_EN (s.regs ALM_SEC &&& 0x7F == toBcd tm.sec) &&
    almMatches s MIN_EN (s.regs ALM_MIN &&& 0x7F == toBcd tm.min) &&
    almMatches s HOUR_EN (s.regs ALM_HOUR &&& 0x3F == toBcd tm.hour) &&
    almMatches s DAY_EN (s.regs ALM_DAY &&& 0x3F == toBcd tm.mday) &&
    almMatches s MON_EN (s.regs ALM_MON &&& 0x1F == toBcd tm.mon) &&
    almMatches s YEAR_EN (s.regs ALM_YEAR &&& 0xFF == (bcdYear tm).1 &&
      s.regs ALM_YEAR >>> 8 &&& 0xF == (bcdYear tm).2)

/-- `s5pc1xx_rtc_second_update` -/
def rtcSecondUpdate (s : Rtc) (now : BitVec 64) : Rtc :=
  if s.regs RTC_CON &&& RTC_EN ≠ 0 then
    let s :=
      if rtcAlarm s then { s with almIrq := true }.set INT_PEND (s.regs INT_PEND ||| INT_ALM) else s
    { rtcSetDate s (rtcNextSecond s.currentTm) with
      secondTimer := some (now + tps) }
  else { s with secondTimer := none }

/-- `s5pc1xx_rtc_set_timer` -/
def rtcSetTimer (s : Rtc) (now : BitVec 64) : Except ClkStop Rtc :=
  (muldiv64 ((s.regs TIC_CNT).setWidth 64) ticksPerSec s.freqOut).map fun ticks =>
    { s with lastTick := now, periodicTimer := some (now + ticks) }

/-- `s5pc1xx_rtc_periodic_tick` -/
def rtcPeriodicTick (s : Rtc) (now : BitVec 64) : Except ClkStop Rtc :=
  if s.regs RTC_CON &&& TIC_EN ≠ 0 then
    rtcSetTimer ({ s with tickIrq := true }.set INT_PEND (s.regs INT_PEND ||| INT_TIC)) now
  else .ok { s with lastTick := 0, periodicTimer := none }

/-- `freq_code`: four binary digits of RTC_CON -/
def rtcFreqCode (con : BitVec 32) : Nat :=
  (con >>> TIC_CK_SEL_SHIFT &&& 0xF).toNat

/-- `s5pc1xx_rtc_periodic_update` -/
def rtcPeriodicUpdate (s : Rtc) : Except ClkStop Rtc :=
  (ndiv 32768 (1 <<< rtcFreqCode (s.regs RTC_CON))).map fun freq =>
    { s with freqOut := BitVec.ofNat 32 freq }

/-- The registers that a reset clears; the last turn of its loop writes behind them. -/
def rtcResetRegs (regs : Nat → BitVec 32) (reg : Nat) : BitVec 32 :=
  if 0x30 ≤ reg ∧ reg ≤ BCD_YEAR ∧ reg % 4 = 0 then 0 else regs reg

/-- `s5pc1xx_rtc_reset` -/
def rtcReset (s : Rtc) (now : BitVec 64) : Except ClkStop Rtc :=
  (rtcPeriodicTick (s.set RTC_CON (s.regs RTC_CON &&& ~~~TIC_EN)) now).map fun s =>
    let s := rtcSecondUpdate (s.set RTC_CON (s.regs RTC_CON &&& ~~~RTC_EN)) now
    { s with regs := rtcResetRegs s.regs, lastTick := 0, freqOut := 0 }

/-! ### Registers -/

/-- The registers a write reaches. -/
inductive RtcReg
  | intPend | rtcCon | curTicCnt
  | count (offset : Nat)
  | date (offset : Nat)
deriving DecidableEq

/-- The register at an offset: those that are only written, and those that set the date. -/
def rtcReg (offset : Nat) : Option RtcReg :=
  if offset = INT_PEND then some .intPend
  else if offset = RTC_CON then some .rtcCon
  else if offset = CUR_TIC_CNT then some .curTicCnt
  else if offset ∈ [TIC_CNT, RTC_ALM, ALM_SEC, ALM_MIN, ALM_HOUR, ALM_DAY, ALM_MON, ALM_YEAR] then
    some (.count offset)
  else if offset ∈ [BCD_SEC, BCD_MIN, BCD_HOUR, BCD_WEEKDAY, BCD_DAY, BCD_MON, BCD_YEAR] then
    some (.date offset)
  else none

/-- The read of CUR_TIC_CNT. -/
def rtcReadCurTicCnt (s : Rtc) (now : BitVec 64) : Except ClkStop (BitVec 64) :=
  if s.freqOut ≠ 0 ∧ s.lastTick ≠ 0 ∧ s.regs TIC_CNT ≠ 0 then do
    let ticks ← muldiv64 (now - s.lastTick) s.freqOut ticksPerSec
    let rem ← umod ticks ((s.regs TIC_CNT).setWidth 64)
    return (s.regs TIC_CNT).setWidth 64 - rem
  else .ok 0

/-- `s5pc1xx_rtc_read` -/
def rtcRead (s : Rtc) (offset : Nat) (now : BitVec 64) : Except ClkStop (BitVec 32 × Rtc) :=
  match rtcReg offset with
  | some .curTicCnt =>
    (rtcReadCurTicCnt s now).map fun count => (count.setWidth 32, { s with curTicCnt := count })
  | some _ => .ok (s.regs offset, s)
  | none => .error .hwError

/-- The second timer is started; the date is that of the host. -/
def rtcStartSecond (s : Rtc) (value : BitVec 32) (host : Tm) (now : BitVec 64) : Rtc :=
  if s.regs RTC_CON &&& RTC_EN < value &&& RTC_EN then
    rtcSecondUpdate (rtcSetDate (s.set RTC_CON (s.regs RTC_CON ||| RTC_EN)) host) now
  else s

/-- The tick timer is started or stopped. -/
def rtcStartTick (s : Rtc) (value : BitVec 32) (now : BitVec 64) : Except ClkStop Rtc :=
  if s.regs RTC_CON &&& TIC_EN < value &&& TIC_EN then
    rtcPeriodicUpdate (s.set RTC_CON value) >>= fun s => rtcSetTimer s now
  else
    let s :=
      if value &&& TIC_EN < s.regs RTC_CON &&& TIC_EN then { s with periodicTimer := none } else s
    rtcPeriodicUpdate (s.set RTC_CON value)

/-- The write of RTC_CON. -/
def rtcWriteCon (s : Rtc) (value : BitVec 32) (host : Tm) (now : BitVec 64) :
    Except ClkStop Rtc :=
  if value &&& CLK_RST ≠ 0 then
    rtcReset s now >>= fun s =>
      rtcStartTick (rtcStartSecond s (value &&& ~~~CLK_RST) host now) (value &&& ~~~CLK_RST) now
  else rtcStartTick (rtcStartSecond s value host now) value now

/-- The write of INT_PEND. -/
def rtcWriteIntPend (s : Rtc) (value : BitVec 32) : Rtc :=
  { s with
    tickIrq := value &&& INT_TIC == 0 && s.tickIrq
    almIrq := value &&& INT_ALM == 0 && s.almIrq }.set INT_PEND
      (s.regs INT_PEND &&& ~~~(value &&& (INT_TIC ||| INT_ALM)))

/-- `s5pc1xx_rtc_write` -/
def rtcWrite (s : Rtc) (offset : Nat) (value : BitVec 32) (host : Tm) (now : BitVec 64) :
    Except ClkStop Rtc :=
  match rtcReg offset with
  | some .intPend => .ok (rtcWriteIntPend s value)
  | some .rtcCon => rtcWriteCon s value host now
  | some (.count reg) => .ok (s.set reg value)
  | some (.date reg) =>
    .ok (if s.regs RTC_CON &&& RTC_EN ≠ 0 then rtcGetDate (s.set reg value) else s.set reg value)
  | _ => .error .hwError

/-- The device as it is allocated. -/
def rtcZero : Rtc where
  regs := fun _ => 0
  periodicTimer := none
  freqOut := 0
  lastTick := 0
  curTicCnt := 0
  tickIrq := false
  secondTimer := none
  currentTm :=
    { sec := 0
      min := 0
      hour := 0
      wday := 0
      mday := 0
      mon := 0
      year := 0 }
  almIrq := false

/-- `s5pc1xx_rtc_init` -/
def rtcInit (clks : Clocks) : Except ClkStop Rtc :=
  rtcReset rtcZero clks.now

/-! ### Operations -/

/-- What the guest does, with the date of the host, and the expiry of the QEMU timers. -/
inductive RtcOp
  | read (offset : Nat)
  | write (offset : Nat) (value : BitVec 32) (host : Tm)
  | expirePeriodic
  | expireSecond

/-- An operation; a timer that is not set does not expire. -/
def RtcOp.exec (s : Rtc) (clks : Clocks) : RtcOp → Except ClkStop Rtc
  | .read offset => (rtcRead s offset clks.now).map Prod.snd
  | .write offset value host => rtcWrite s offset value host clks.now
  | .expirePeriodic =>
    if s.periodicTimer.isSome then rtcPeriodicTick { s with periodicTimer := none } clks.now
    else .ok s
  | .expireSecond =>
    if s.secondTimer.isSome then .ok (rtcSecondUpdate { s with secondTimer := none } clks.now)
    else .ok s

/-! ### The frequency -/

/-- While the tick is enabled, it has a frequency. -/
def Rtc.Ticks (s : Rtc) : Prop :=
  s.regs RTC_CON &&& TIC_EN ≠ 0 → s.freqOut ≠ 0

theorem Rtc.regs_set_self (s : Rtc) (reg : Nat) (value : BitVec 32) :
    (s.set reg value).regs reg = value :=
  Function.update_self _ _ _

theorem Rtc.regs_set_ne (s : Rtc) {reg reg' : Nat} (h : reg' ≠ reg) (value : BitVec 32) :
    (s.set reg value).regs reg' = s.regs reg' :=
  Function.update_of_ne h _ _

theorem Rtc.Ticks.set {s : Rtc} (h : s.Ticks) {reg : Nat} (hreg : reg ≠ RTC_CON)
    (value : BitVec 32) : (s.set reg value).Ticks := by
  unfold Rtc.Ticks
  rw [s.regs_set_ne hreg.symm]
  exact h

theorem intPend_ne_con : INT_PEND ≠ RTC_CON := by
  decide

/-- A code of four bits leaves at least one hertz. -/
theorem rtcPeriodicUpdate_ok (s : Rtc) :
    ∃ s', rtcPeriodicUpdate s = .ok s' ∧ s'.freqOut ≠ 0 ∧ s'.regs = s.regs := by
  obtain ⟨code, hcode⟩ : ∃ code, rtcFreqCode (s.regs RTC_CON) = code := ⟨_, rfl⟩
  have hlt : code < 16 := by
    have hand : (s.regs RTC_CON >>> TIC_CK_SEL_SHIFT &&& 0xF).toNat ≤ (0xF : BitVec 32).toNat :=
      Nat.and_le_right
    rw [← hcode]
    exact Nat.lt_succ_of_le hand
  have hfreq : 1 <<< code ≠ 0 ∧ BitVec.ofNat 32 (32768 / 1 <<< code) ≠ 0 := by
    interval_cases code <;> decide
  unfold rtcPeriodicUpdate
  rw [hcode, ndiv_eq _ hfreq.1]
  exact ⟨_, rfl, hfreq.2, rfl⟩

theorem rtcSetTimer_ok {s : Rtc} (h : s.freqOut ≠ 0) (now : BitVec 64) :
    ∃ s', rtcSetTimer s now = .ok s' ∧ s'.Ticks := by
  obtain ⟨ticks, hticks⟩ := muldiv64_ok ((s.regs TIC_CNT).setWidth 64) ticksPerSec h
  unfold rtcSetTimer
  rw [hticks]
  exact ⟨_, rfl, fun _ => h⟩

theorem rtcPeriodicTick_ok {s : Rtc} (h : s.Ticks) (now : BitVec 64) :
    ∃ s', rtcPeriodicTick s now = .ok s' ∧ s'.Ticks := by
  unfold rtcPeriodicTick
  split_ifs with hen
  · have hfreq : ({ s with tickIrq := true }.set INT_PEND
        (s.regs INT_PEND ||| INT_TIC)).freqOut ≠ 0 := h hen
    exact rtcSetTimer_ok hfreq now
  · exact ⟨_, rfl, h⟩

theorem rtcSetDate_ticks {s : Rtc} (h : s.Ticks) (tm : Tm) : (rtcSetDate s tm).Ticks := by
  have htm : Rtc.Ticks { s with currentTm := tm } := h
  unfold rtcSetDate
  repeat' apply Rtc.Ticks.set _ (by decide)
  exact htm

theorem rtcSecondUpdate_ticks {s : Rtc} (h : s.Ticks) (now : BitVec 64) :
    (rtcSecondUpdate s now).Ticks := by
  unfold rtcSecondUpdate
  by_cases hen : s.regs RTC_CON &&& RTC_EN ≠ 0
  · rw [if_pos hen]
    dsimp only
    by_cases halarm : rtcAlarm s
    · have hirq : Rtc.Ticks { s with almIrq := true } := h
      have hpend := hirq.set intPend_ne_con (s.regs INT_PEND ||| INT_ALM)
      have hdate := rtcSetDate_ticks hpend (rtcNextSecond s.currentTm)
      rw [if_pos halarm]
      exact hdate
    · have hdate := rtcSetDate_ticks h (rtcNextSecond s.currentTm)
      rw [if_neg halarm]
      exact hdate
  · rw [if_neg hen]
    exact h

theorem rtcReset_ok (s : Rtc) (now : BitVec 64) :
    ∃ s', rtcReset s now = .ok s' ∧ s'.Ticks := by
  have hoff : ¬(s.set RTC_CON (s.regs RTC_CON &&& ~~~TIC_EN)).regs RTC_CON &&& TIC_EN ≠ 0 := by
    rw [s.regs_set_self, BitVec.and_assoc, not_not]
    exact BitVec.and_zero
  unfold rtcReset rtcPeriodicTick
  rw [if_neg hoff]
  refine ⟨_, rfl, fun hen => ?_⟩
  exact absurd BitVec.zero_and hen

/-- The tick starts with a frequency. -/
theorem rtcStartTick_ok (s : Rtc) (value : BitVec 32) (now : BitVec 64) :
    ∃ s', rtcStartTick s value now = .ok s' ∧ s'.Ticks := by
  unfold rtcStartTick
  split_ifs
  · obtain ⟨s₁, hs₁, hfreq, -⟩ := rtcPeriodicUpdate_ok (s.set RTC_CON value)
    rw [hs₁, ok_bind]
    exact rtcSetTimer_ok hfreq now
  · obtain ⟨s', hs', hfreq, -⟩ :=
      rtcPeriodicUpdate_ok ({ s with periodicTimer := none }.set RTC_CON value)
    exact ⟨s', hs', fun _ => hfreq⟩
  · obtain ⟨s', hs', hfreq, -⟩ := rtcPeriodicUpdate_ok (s.set RTC_CON value)
    exact ⟨s', hs', fun _ => hfreq⟩

theorem rtcWriteCon_ok (s : Rtc) (value : BitVec 32) (host : Tm) (now : BitVec 64) :
    ∃ s', rtcWriteCon s value host now = .ok s' ∧ s'.Ticks := by
  unfold rtcWriteCon
  split_ifs
  · obtain ⟨s₁, hs₁, -⟩ := rtcReset_ok s now
    rw [hs₁, ok_bind]
    exact rtcStartTick_ok _ _ now
  · exact rtcStartTick_ok _ value now

/-! ### Operations -/

theorem rtcReadCurTicCnt_ok (s : Rtc) (now : BitVec 64) :
    ∃ count, rtcReadCurTicCnt s now = .ok count := by
  unfold rtcReadCurTicCnt
  split_ifs with hcount
  · obtain ⟨ticks, hticks⟩ := muldiv64_ticks (now - s.lastTick) s.freqOut
    rw [hticks, ok_bind, umod_eq _ (setWidth_ne_zero hcount.2.2), ok_bind]
    exact ⟨_, rfl⟩
  · exact ⟨0, rfl⟩

theorem rtcReg_ne_con {offset reg : Nat}
    (h : rtcReg offset = some (.count reg) ∨ rtcReg offset = some (.date reg)) :
    reg ≠ RTC_CON := by
  unfold rtcReg at h
  split_ifs at h with h₁ h₂ <;> simp only [Option.some.injEq, RtcReg.count.injEq,
    RtcReg.date.injEq, reduceCtorEq, or_false, false_or] at h
  all_goals exact h ▸ h₂

/-- No operation divides by zero. -/
theorem RtcOp.exec_fits {s : Rtc} (h : s.Ticks) (clks : Clocks) (op : RtcOp) :
    Ends Rtc.Ticks (· = .hwError) (op.exec s clks) := by
  -- what divides does so by the frequency, which `Ticks` keeps from zero
  cases op with
  | read offset =>
    show Ends _ _ ((rtcRead s offset clks.now).map Prod.snd)
    unfold rtcRead
    split
    · obtain ⟨count, hcount⟩ := rtcReadCurTicCnt_ok s clks.now
      rw [hcount]
      exact .ok h
    · exact .ok h
    · exact .error rfl
  | write offset value host =>
    show Ends _ _ (rtcWrite s offset value host clks.now)
    unfold rtcWrite
    split
    case h_1 =>
      have hirq : Rtc.Ticks { s with
          tickIrq := value &&& INT_TIC == 0 && s.tickIrq
          almIrq := value &&& INT_ALM == 0 && s.almIrq } := h
      exact .ok (hirq.set intPend_ne_con _)
    case h_2 =>
      obtain ⟨s', hs', hticks⟩ := rtcWriteCon_ok s value host clks.now
      rw [hs']
      exact .ok hticks
    case h_3 hreg => exact .ok (h.set (rtcReg_ne_con (.inl hreg)) value)
    case h_4 hreg =>
      have hset := h.set (rtcReg_ne_con (.inr hreg)) value
      refine .ok ?_
      split_ifs
      · exact hset
      · exact hset
    case h_5 => exact .error rfl
  | expirePeriodic =>
    show Ends _ _ (if s.periodicTimer.isSome then _ else _)
    split_ifs
    · obtain ⟨s', hs', hticks⟩ := rtcPeriodicTick_ok (s := { s with periodicTimer := none }) h
        clks.now
      rw [hs']
      exact .ok hticks
    · exact .ok h
  | expireSecond =>
    show Ends _ _ (if s.secondTimer.isSome then _ else _)
    split_ifs
    · exact .ok (rtcSecondUpdate_ticks (s := { s with secondTimer := none }) h clks.now)
    · exact .ok h

end Qemu.Hw
