import Qemu.Hw.Rtc

namespace Qemu.Hw

/-!
# The date and the alarm of the real time clock

* `Tm.Valid`, `Tm.next` — the dates from 2000 to 2999, and the second after;
* `Rtc.Holds`, `Rtc.Rings` — the date and the alarm, as the registers have them;
* `rtcSetDate_holds` — the registers hold a date that has been set;
* `rtc_second_update` — when a second of the clock is a second of the calendar.
-/

/-! ### Calendar -/

/-- Years that have a 29th of February. -/
def LeapYear (year : Int) : Prop := year % 4 = 0 ∧ (year % 100 ≠ 0 ∨ year % 400 = 0)

instance LeapYear.decidable (year : Int) : Decidable (LeapYear year) :=
  inferInstanceAs (Decidable (_ ∧ _))

/-- The days of a month from 0 to 11. -/
def monthDays (month year : Int) : Int :=
  if month = 1 then if LeapYear year then 29 else 28
  else if month ∈ [3, 5, 8, 10] then 30
  else 31

/-- A date from 2000 to 2999; the year counts from 1900, and Sunday is 0 or 7. -/
structure Tm.Valid (tm : Tm) : Prop where
  sec : 0 ≤ tm.sec ∧ tm.sec < 60
  min : 0 ≤ tm.min ∧ tm.min < 60
  hour : 0 ≤ tm.hour ∧ tm.hour < 24
  wday : 0 ≤ tm.wday ∧ tm.wday < 8
  mday : 1 ≤ tm.mday ∧ tm.mday ≤ monthDays tm.mon (1900 + tm.year)
  mon : 0 ≤ tm.mon ∧ tm.mon < 12
  year : 100 ≤ tm.year ∧ tm.year < 1100

/-- The day after, at the same time. -/
def Tm.tomorrow (tm : Tm) : Tm :=
  let tm := { tm with wday := tm.wday % 7 + 1 }
  if tm.mday < monthDays tm.mon (1900 + tm.year) then { tm with mday := tm.mday + 1 }
  else if tm.mon < 11 then { tm with mday := 1, mon := tm.mon + 1 }
  else { tm with mday := 1, mon := 0, year := tm.year + 1 }

/-- The second after. -/
def Tm.next (tm : Tm) : Tm :=
  let time := tm.hour * 3600 + tm.min * 60 + tm.sec + 1
  { if time = 24 * 3600 then tm.tomorrow else tm with
    hour := time / 3600 % 24
    min := time / 60 % 60
    sec := time % 60 }

/-- The last second of a day. -/
def Tm.Midnight (tm : Tm) : Prop := tm.hour = 23 ∧ tm.min = 59 ∧ tm.sec = 59

/-- It is not the end of the 28th of February in a year that is divisible by 100 and not by 400,
    and not the end of 2999. -/
structure Tm.Steps (tm : Tm) : Prop where
  leap : tm.Midnight → tm.mon = 1 → tm.mday = 28 → (1900 + tm.year) % 100 = 0 →
    (1900 + tm.year) % 400 = 0
  last : tm.Midnight → tm.mon = 11 → tm.mday = 31 → tm.year ≠ 1099

/-! ### Registers -/

/-- Two decimal digits. -/
def bcd (n : Int) : BitVec 32 := BitVec.ofInt 32 (n / 10 * 16 + n % 10)

/-- The registers hold a date. -/
structure Rtc.Holds (s : Rtc) (tm : Tm) : Prop where
  sec : s.regs BCD_SEC &&& 0x7F = bcd tm.sec
  min : s.regs BCD_MIN &&& 0x7F = bcd tm.min
  hour : s.regs BCD_HOUR &&& 0x3F = bcd tm.hour
  wday : s.regs BCD_WEEKDAY &&& 0x07 = bcd tm.wday
  mday : s.regs BCD_DAY &&& 0x3F = bcd tm.mday
  mon : s.regs BCD_MON &&& 0x1F = bcd (tm.mon + 1)
  year : s.regs BCD_YEAR &&& 0xFF = bcd ((tm.year - 100) % 100)
  century : s.regs BCD_YEAR >>> 8 &&& 0xF = bcd ((tm.year - 100) / 100)

/-- A field of the alarm: the bit that enables it, its register, the one of the date, and their
    bits. -/
structure AlmField where
  en : BitVec 32
  alm : Nat
  bcd : Nat
  mask : BitVec 32

/-- The alarm's second. -/
def secAlm : AlmField := ⟨SEC_EN, ALM_SEC, BCD_SEC, 0x7F⟩

/-- The alarm's minute. -/
def minAlm : AlmField := ⟨MIN_EN, ALM_MIN, BCD_MIN, 0x7F⟩

/-- The alarm's hour. -/
def hourAlm : AlmField := ⟨HOUR_EN, ALM_HOUR, BCD_HOUR, 0x3F⟩

/-- The alarm's day. -/
def dayAlm : AlmField := ⟨DAY_EN, ALM_DAY, BCD_DAY, 0x3F⟩

/-- The alarm's month. -/
def monAlm : AlmField := ⟨MON_EN, ALM_MON, BCD_MON, 0x1F⟩

/-- The alarm's year. -/
def yearAlm : AlmField := ⟨YEAR_EN, ALM_YEAR, BCD_YEAR, 0xFFF⟩

/-- The six fields of the alarm. -/
def almFields : List AlmField := [secAlm, minAlm, hourAlm, dayAlm, monAlm, yearAlm]

/-- The field is compared. -/
def AlmField.Enabled (f : AlmField) (s : Rtc) : Prop := s.regs RTC_ALM &&& f.en ≠ 0

/-- The field agrees with the clock. -/
def AlmField.Equal (f : AlmField) (s : Rtc) : Prop :=
  s.regs f.alm &&& f.mask = s.regs f.bcd &&& f.mask

/-- The alarm is enabled, in some field, and every enabled field is that of the date. -/
def Rtc.Rings (s : Rtc) : Prop :=
  s.regs RTC_ALM &&& ALM_EN ≠ 0 ∧ (∃ f ∈ almFields, f.Enabled s) ∧
    ∀ f ∈ almFields, f.Enabled s → f.Equal s

instance AlmField.Enabled.decidable (f : AlmField) (s : Rtc) : Decidable (f.Enabled s) :=
  inferInstanceAs (Decidable (_ ≠ _))

instance AlmField.Equal.decidable (f : AlmField) (s : Rtc) : Decidable (f.Equal s) :=
  inferInstanceAs (Decidable (_ = _))

instance Rtc.Rings.decidable (s : Rtc) : Decidable s.Rings :=
  inferInstanceAs (Decidable (_ ∧ _ ∧ _))

/-- The clock runs, with a date that its registers hold. -/
structure Rtc.Runs (s : Rtc) : Prop where
  enabled : s.regs RTC_CON &&& RTC_EN ≠ 0
  date : s.currentTm.Valid
  holds : s.Holds s.currentTm

/-- The alarm rings at its time, and then the registers hold the next second, from which the date
    can be read back. -/
structure Rtc.Second (s s' : Rtc) : Prop where
  irq : s'.almIrq = true ↔ s.almIrq = true ∨ s.Rings
  pend : s'.regs INT_PEND = if s.Rings then s.regs INT_PEND ||| INT_ALM else s.regs INT_PEND
  holds : s'.Holds s.currentTm.next
  date : (rtcGetDate s').currentTm = s'.currentTm

/-- The alarm has been raised and is pending. -/
structure Rtc.Pending (s : Rtc) : Prop where
  irq : s.almIrq = true
  pend : s.regs INT_PEND ||| INT_ALM = s.regs INT_PEND

/-- The alarm is enabled, and all fields but the month are disabled or those of the date. -/
def Rtc.RingsInMonth (s : Rtc) : Prop :=
  s.regs RTC_ALM &&& ALM_EN ≠ 0 ∧
    ∀ f ∈ almFields, f.en ≠ MON_EN → f.Enabled s → f.Equal s

/-- The month of the alarm is not enabled, or it is neither the month of the date nor the one
    before, or the alarm does not ring in any month. -/
def Rtc.MonthFits (s : Rtc) : Prop :=
  s.regs RTC_ALM &&& MON_EN ≠ 0 → s.RingsInMonth →
    s.regs ALM_MON &&& 0x1F ≠ bcd s.currentTm.mon ∧
      s.regs ALM_MON &&& 0x1F ≠ bcd (s.currentTm.mon + 1)

/-! ### Digits -/

variable {s : Rtc} {tm : Tm} {n : Int}

theorem toBcd_eq (h : 0 ≤ n) (hlt : n < 100) : toBcd n = bcd n := by
  interval_cases n <;> rfl

theorem fromBcd_bcd (h : 0 ≤ n) (hlt : n < 100) : fromBcd (bcd n) = n := by
  interval_cases n <;> rfl

theorem bcd_inj {m : Int} (hm : 0 ≤ m ∧ m < 100) (hn : 0 ≤ n ∧ n < 100) (h : bcd m = bcd n) :
    m = n := by
  rw [← fromBcd_bcd hm.1 hm.2, ← fromBcd_bcd hn.1 hn.2, h]

theorem bcd_and_7F (h : 0 ≤ n) (hlt : n < 60) : bcd n &&& 0x7F = bcd n := by
  interval_cases n <;> rfl

theorem bcd_and_3F (h : 0 ≤ n) (hlt : n < 40) : bcd n &&& 0x3F = bcd n := by
  interval_cases n <;> rfl

theorem bcd_and_1F (h : 0 ≤ n) (hlt : n < 20) : bcd n &&& 0x1F = bcd n := by
  interval_cases n <;> rfl

theorem bcd_and_07 (h : 0 ≤ n) (hlt : n < 8) : bcd n &&& 0x07 = bcd n := by
  interval_cases n <;> rfl

theorem bcd_lt_two_digits (h : 0 ≤ n) (hlt : n < 100) : (bcd n).toNat < 2 ^ 8 := by
  interval_cases n <;> decide

theorem bcd_lt_one_digit (h : 0 ≤ n) (hlt : n < 10) : (bcd n).toNat < 2 ^ 4 := by
  interval_cases n <;> decide

/-- Two parts of a register. -/
theorem parts_of_or {low high : BitVec 32} (hlow : low.toNat < 2 ^ 8) (hhigh : high.toNat < 2 ^ 4) :
    (low ||| high <<< 8) &&& 0xFF = low ∧ (low ||| high <<< 8) >>> 8 &&& 0xF = high := by
  have hshift : (high <<< 8).toNat = high.toNat <<< 8 := by
    rw [BitVec.toNat_shiftLeft, Nat.shiftLeft_eq]
    exact Nat.mod_eq_of_lt (by omega)
  have hor : (low ||| high <<< 8).toNat = high.toNat * 2 ^ 8 + low.toNat := by
    rw [BitVec.toNat_or, hshift, Nat.or_comm, ← Nat.shiftLeft_add_eq_or_of_lt hlow,
      Nat.shiftLeft_eq]
  constructor
  · refine BitVec.eq_of_toNat_eq ?_
    rw [BitVec.toNat_and, hor]
    show _ &&& (2 ^ 8 - 1) = _
    rw [Nat.and_two_pow_sub_one_eq_mod]
    omega
  · refine BitVec.eq_of_toNat_eq ?_
    rw [BitVec.toNat_and, BitVec.toNat_ushiftRight, hor, Nat.shiftRight_eq_div_pow]
    show _ &&& (2 ^ 4 - 1) = _
    rw [Nat.and_two_pow_sub_one_eq_mod]
    omega

/-! ### The next second -/

/-- The days of a month, in a year that is divisible by 100 only if it is by 400. -/
theorem getDaysInMonth_eq {month year : Int} (hmonth : 0 ≤ month ∧ month < 12)
    (hyear : 0 ≤ year)
    (hleap : month = 1 → (1900 + year) % 100 = 0 → (1900 + year) % 400 = 0) :
    getDaysInMonth month year = monthDays month (1900 + year) := by
  have hmod : Int.tmod year 4 = year % 4 := Int.tmod_eq_emod_of_nonneg hyear
  unfold getDaysInMonth monthDays LeapYear
  rw [if_neg (by omega), hmod]
  by_cases hfeb : month = 1
  · have hcentury := hleap hfeb
    rw [if_pos hfeb, if_pos hfeb]
    refine if_congr ?_ rfl rfl
    constructor
    · intro hfour
      refine ⟨by omega, ?_⟩
      by_cases hhundred : (1900 + year) % 100 = 0
      · exact .inr (hcentury hhundred)
      · exact .inl hhundred
    · rintro ⟨hfour, -⟩
      omega
  · rw [if_neg hfeb, if_neg hfeb]
    simp

/-- In other years, February has a day more. -/
theorem getDaysInMonth_century {year : Int} (hyear : 0 ≤ year) (hhundred : (1900 + year) % 100 = 0)
    (hfour : (1900 + year) % 400 ≠ 0) :
    getDaysInMonth 1 year = 29 ∧ monthDays 1 (1900 + year) = 28 := by
  have hmod : Int.tmod year 4 = year % 4 := Int.tmod_eq_emod_of_nonneg hyear
  have hleap : ¬LeapYear (1900 + year) := fun h => h.2.elim (fun hne => hne hhundred) hfour
  constructor
  · rw [getDaysInMonth, if_neg (by decide), if_pos rfl, hmod, if_pos (by omega)]
  · rw [monthDays, if_pos rfl, if_neg hleap]

/-- The end of the 28th of February in a year that is divisible by 100 and not by 400. -/
def Tm.Century (tm : Tm) : Prop :=
  tm.mon = 1 ∧ tm.mday = 28 ∧ (1900 + tm.year) % 100 = 0 ∧ (1900 + tm.year) % 400 ≠ 0

/-- The source's next day is the calendar's, but in a century year. -/
theorem Tm.nextDay_eq (h : tm.Valid) (hcentury : ¬tm.Century) : nextDay tm = tm.tomorrow := by
  obtain ⟨sec, min, hour, wday, mday, mon, year⟩ := tm
  have hwday : 0 ≤ wday ∧ wday < 8 := h.wday
  have hmday : 1 ≤ mday ∧ mday ≤ monthDays mon (1900 + year) := h.mday
  have hmon : 0 ≤ mon ∧ mon < 12 := h.mon
  have hyear : 100 ≤ year ∧ year < 1100 := h.year
  have hweek : (if wday + 1 < 0 ∨ 8 ≤ wday + 1 then 1 else wday + 1) = wday % 7 + 1 := by
    split_ifs <;> omega
  have hdays : getDaysInMonth mon year < mday + 1 ↔ ¬mday < monthDays mon (1900 + year) := by
    by_cases hodd : mon = 1 ∧ (1900 + year) % 100 = 0 ∧ (1900 + year) % 400 ≠ 0
    -- it is not the 28th
    · obtain ⟨rfl, hhundred, hfour⟩ := hodd
      have hlen := getDaysInMonth_century (by omega) hhundred hfour
      have hday : mday ≠ 28 := fun hday => hcentury ⟨rfl, hday, hhundred, hfour⟩
      omega
    · rw [getDaysInMonth_eq hmon (by omega) fun hfeb hhundred => by
        by_contra hfour
        exact hodd ⟨hfeb, hhundred, hfour⟩]
      omega
  unfold nextDay Tm.tomorrow
  dsimp only
  rw [hweek, if_neg (by omega)]
  by_cases hlast : mday < monthDays mon (1900 + year)
  · rw [if_neg (fun hlt => hdays.mp hlt hlast), if_pos hlast]
  · rw [if_pos (hdays.mpr hlast), if_neg hlast]
    by_cases hdec : mon < 11
    · rw [if_neg (by omega), if_pos hdec]
    · rw [if_pos (by omega), if_neg hdec]

/-- The next second of the clock, in parts. -/
theorem rtcNextSecond_eq (h : tm.Valid) (hcentury : ¬(tm.Midnight ∧ tm.Century)) :
    rtcNextSecond tm = tm.next := by
  obtain ⟨sec, min, hour, wday, mday, mon, year⟩ := tm
  have hsec : 0 ≤ sec ∧ sec < 60 := h.sec
  have hmin : 0 ≤ min ∧ min < 60 := h.min
  have hhour : 0 ≤ hour ∧ hour < 24 := h.hour
  unfold rtcNextSecond Tm.next
  dsimp only
  by_cases hs : sec + 1 < 60
  · rw [if_pos (by omega), if_neg (by omega)]
    simp only [Tm.mk.injEq, and_true]
    omega
  · rw [if_neg (by omega)]
    by_cases hm : min + 1 < 60
    · rw [if_pos (by omega), if_neg (by omega)]
      simp only [Tm.mk.injEq, and_true]
      omega
    · rw [if_neg (by omega)]
      by_cases hh : hour + 1 < 24
      · rw [if_pos (by omega), if_neg (by omega)]
        simp only [Tm.mk.injEq, and_true]
        omega
      · rw [if_neg (by omega), if_pos (by omega)]
        obtain ⟨rfl, rfl, rfl⟩ : hour = 23 ∧ min = 59 ∧ sec = 59 := by omega
        have hzero : (0 : Int) ≤ 0 ∧ (0 : Int) < 60 := by decide
        have hsmall : (0 : Int) ≤ 0 ∧ (0 : Int) < 24 := by decide
        have hvalid : Tm.Valid ⟨0, 0, 0, wday, mday, mon, year⟩ :=
          ⟨hzero, hzero, hsmall, h.wday, h.mday, h.mon, h.year⟩
        rw [Tm.nextDay_eq hvalid fun hcen => hcentury ⟨⟨rfl, rfl, rfl⟩, hcen⟩]
        unfold Tm.tomorrow
        dsimp only
        split_ifs <;> rfl

/-- At the end of such a day, the clock has a 29th. -/
theorem rtcNextSecond_century (hmidnight : tm.Midnight) (hcentury : tm.Century)
    (hyear : 0 ≤ tm.year) : (rtcNextSecond tm).mday = 29 ∧ tm.next.mday = 1 := by
  obtain ⟨sec, min, hour, wday, mday, mon, year⟩ := tm
  obtain ⟨hhour, hmin, hsec⟩ := hmidnight
  obtain ⟨hmon, hmday, hhundred, hfour⟩ := hcentury
  dsimp only at hhour hmin hsec hmon hmday hhundred hfour hyear
  subst hhour hmin hsec hmon hmday
  obtain ⟨hlen, hdays⟩ := getDaysInMonth_century hyear hhundred hfour
  constructor
  · simp [rtcNextSecond, nextDay, hlen]
  · simp [Tm.next, Tm.tomorrow, hdays]

/-! ### Dates in registers -/

/-- A date whose fields have as many digits as the registers. -/
structure Tm.Digits (tm : Tm) : Prop where
  sec : 0 ≤ tm.sec ∧ tm.sec < 60
  min : 0 ≤ tm.min ∧ tm.min < 60
  hour : 0 ≤ tm.hour ∧ tm.hour < 24
  wday : 0 ≤ tm.wday ∧ tm.wday < 8
  mday : 0 ≤ tm.mday ∧ tm.mday < 32
  mon : 0 ≤ tm.mon ∧ tm.mon < 12
  year : 100 ≤ tm.year ∧ tm.year < 1100

theorem monthDays_le (month year : Int) : monthDays month year ≤ 31 := by
  unfold monthDays
  split_ifs <;> omega

/-- The next second still has two digits a field. -/
theorem Tm.Valid.next_digits (h : tm.Valid)
    (hlast : tm.Midnight → tm.mon = 11 → tm.mday = 31 → tm.year ≠ 1099) : tm.next.Digits := by
  obtain ⟨sec, min, hour, wday, mday, mon, year⟩ := tm
  have hsec : 0 ≤ sec ∧ sec < 60 := h.sec
  have hmin : 0 ≤ min ∧ min < 60 := h.min
  have hhour : 0 ≤ hour ∧ hour < 24 := h.hour
  have hwday : 0 ≤ wday ∧ wday < 8 := h.wday
  have hmday : 1 ≤ mday ∧ mday ≤ monthDays mon (1900 + year) := h.mday
  have hmon : 0 ≤ mon ∧ mon < 12 := h.mon
  have hyear : 100 ≤ year ∧ year < 1100 := h.year
  have hdays := monthDays_le mon (1900 + year)
  have hweek : ∀ wday : Int, 0 ≤ wday % 7 + 1 ∧ wday % 7 + 1 < 8 := fun wday => by omega
  have hnew : ∀ {wday' mday' mon' year'}, (0 ≤ wday' ∧ wday' < 8) → (0 ≤ mday' ∧ mday' < 32) →
      (0 ≤ mon' ∧ mon' < 12) → (100 ≤ year' ∧ year' < 1100) →
      Tm.Digits
        { hour := (hour * 3600 + min * 60 + sec + 1) / 3600 % 24
          min := (hour * 3600 + min * 60 + sec + 1) / 60 % 60
          sec := (hour * 3600 + min * 60 + sec + 1) % 60
          wday := wday', mday := mday', mon := mon', year := year' } :=
    fun hw hd hm hy =>
      ⟨by dsimp only; omega, by dsimp only; omega, by dsimp only; omega, hw, hd, hm, hy⟩
  unfold Tm.next
  dsimp only
  by_cases htime : hour * 3600 + min * 60 + sec + 1 = 24 * 3600
  · rw [if_pos htime]
    unfold Tm.tomorrow
    dsimp only
    by_cases hday : mday < monthDays mon (1900 + year)
    · rw [if_pos hday]
      exact hnew (hweek wday) (by dsimp only; omega) hmon hyear
    · rw [if_neg hday]
      by_cases hdec : mon < 11
      · rw [if_pos hdec]
        exact hnew (hweek wday) (by dsimp only; omega) (by dsimp only; omega) hyear
      -- December has 31 days
      · obtain rfl : mon = 11 := by omega
        have hlen : monthDays 11 (1900 + year) = 31 := by
          simp [monthDays]
        have hend := hlast ⟨by show hour = 23; omega, by show min = 59; omega,
          by show sec = 59; omega⟩ rfl (by show mday = 31; omega)
        have hend : year ≠ 1099 := hend
        rw [if_neg hdec]
        exact hnew (hweek wday) (by dsimp only; omega) (by dsimp only; omega)
          (by dsimp only; omega)
  · rw [if_neg htime]
    exact hnew hwday (by dsimp only; omega) hmon hyear

theorem rtcSetDate_regs (s : Rtc) (tm : Tm) :
    (rtcSetDate s tm).regs BCD_SEC = toBcd tm.sec ∧
    (rtcSetDate s tm).regs BCD_MIN = toBcd tm.min ∧
    (rtcSetDate s tm).regs BCD_HOUR = toBcd tm.hour ∧
    (rtcSetDate s tm).regs BCD_WEEKDAY = toBcd tm.wday ∧
    (rtcSetDate s tm).regs BCD_DAY = toBcd tm.mday ∧
    (rtcSetDate s tm).regs BCD_MON = toBcd (tm.mon + 1) ∧
    (rtcSetDate s tm).regs BCD_YEAR = (bcdYear tm).1 ||| (bcdYear tm).2 <<< 8 :=
  ⟨rfl, rfl, rfl, rfl, rfl, rfl, rfl⟩

theorem bcdYear_eq (h : 100 ≤ tm.year) :
    bcdYear tm = (bcd ((tm.year - 100) % 100), bcd ((tm.year - 100) % 1000 / 100)) := by
  have hnonneg : 0 ≤ tm.year - 100 := by omega
  have hlow := toBcd_eq (n := (tm.year - 100) % 100) (by omega) (by omega)
  have hhigh := toBcd_eq (n := (tm.year - 100) % 1000 / 100) (by omega) (by omega)
  rw [bcdYear, Int.tmod_eq_emod_of_nonneg hnonneg, Int.tmod_eq_emod_of_nonneg hnonneg,
    Int.tdiv_eq_ediv_of_nonneg (by omega), hlow, hhigh]

/-- The registers hold the date that was set. -/
theorem rtcSetDate_holds (s : Rtc) (h : tm.Digits) : (rtcSetDate s tm).Holds tm := by
  obtain ⟨hsec, hmin, hhour, hwday, hmday, hmon, hyear⟩ := rtcSetDate_regs s tm
  have hparts := parts_of_or
    (bcd_lt_two_digits (n := (tm.year - 100) % 100) (by omega) (by omega))
    (bcd_lt_one_digit (n := (tm.year - 100) % 1000 / 100) (by omega) (by omega))
  rw [bcdYear_eq h.year.1] at hyear
  refine ⟨?_, ?_, ?_, ?_, ?_, ?_, ?_, ?_⟩
  · rw [hsec, toBcd_eq h.sec.1 (by have := h.sec; omega), bcd_and_7F h.sec.1 h.sec.2]
  · rw [hmin, toBcd_eq h.min.1 (by have := h.min; omega), bcd_and_7F h.min.1 h.min.2]
  · rw [hhour, toBcd_eq h.hour.1 (by have := h.hour; omega),
      bcd_and_3F h.hour.1 (by have := h.hour; omega)]
  · rw [hwday, toBcd_eq h.wday.1 (by have := h.wday; omega), bcd_and_07 h.wday.1 h.wday.2]
  · rw [hmday, toBcd_eq h.mday.1 (by have := h.mday; omega),
      bcd_and_3F h.mday.1 (by have := h.mday; omega)]
  · have hmon' := h.mon
    rw [hmon, toBcd_eq (by omega) (by omega), bcd_and_1F (by omega) (by omega)]
  · rw [hyear]
    exact hparts.1
  · have hcut : (tm.year - 100) % 1000 = tm.year - 100 := by
      have := h.year
      omega
    rw [hcut] at hyear hparts
    rw [hyear]
    exact hparts.2

/-- The date that is read back from the registers. -/
theorem Rtc.Holds.getDate (hholds : s.Holds tm) (h : tm.Digits) :
    (rtcGetDate s).currentTm = tm := by
  obtain ⟨hsec, hmin, hhour, hwday, hmday, hmon, hyear⟩ := h
  unfold rtcGetDate
  dsimp only
  rw [hholds.sec, hholds.min, hholds.hour, hholds.wday, hholds.mday, hholds.mon, hholds.year,
    hholds.century, fromBcd_bcd hsec.1 (by omega), fromBcd_bcd hmin.1 (by omega),
    fromBcd_bcd hhour.1 (by omega), fromBcd_bcd hwday.1 (by omega), fromBcd_bcd hmday.1 (by omega),
    fromBcd_bcd (by omega) (by omega), fromBcd_bcd (by omega) (by omega),
    fromBcd_bcd (by omega) (by omega)]
  obtain ⟨sec, min, hour, wday, mday, mon, year⟩ := tm
  simp only [Tm.mk.injEq, true_and]
  omega

/-! ### The alarm -/

theorem almMatches_iff (s : Rtc) (en : BitVec 32) (same : Bool) :
    almMatches s en same = true ↔ (s.regs RTC_ALM &&& en ≠ 0 → same = true) := by
  unfold almMatches
  rw [Bool.or_eq_true, beq_iff_eq]
  exact ⟨fun h hne => h.resolve_right hne, fun h => by
    by_cases hen : s.regs RTC_ALM &&& en = 0
    · exact .inr hen
    · exact .inl (h hen)⟩

/-- The two parts of a year. -/
theorem and_FFF_iff (a b : BitVec 32) : a &&& 0xFFF = b &&& 0xFFF ↔
    a &&& 0xFF = b &&& 0xFF ∧ a >>> 8 &&& (0xF : BitVec 32) = b >>> 8 &&& 0xF := by
  have hlow : ∀ x : BitVec 32, (x &&& 0xFF).toNat = x.toNat % 2 ^ 8 := fun x => by
    rw [BitVec.toNat_and]
    exact Nat.and_two_pow_sub_one_eq_mod _ 8
  have hhigh : ∀ x : BitVec 32, (x >>> 8 &&& 0xF).toNat = x.toNat / 2 ^ 8 % 2 ^ 4 := fun x => by
    rw [BitVec.toNat_and, BitVec.toNat_ushiftRight, Nat.shiftRight_eq_div_pow]
    exact Nat.and_two_pow_sub_one_eq_mod _ 4
  have hall : ∀ x : BitVec 32, (x &&& 0xFFF).toNat = x.toNat % 2 ^ 12 := fun x => by
    rw [BitVec.toNat_and]
    exact Nat.and_two_pow_sub_one_eq_mod _ 12
  rw [← BitVec.toNat_inj, ← BitVec.toNat_inj, ← BitVec.toNat_inj, hlow, hlow, hhigh, hhigh, hall,
    hall]
  omega

theorem exists_enabled_iff (s : Rtc) : (∃ f ∈ almFields, f.Enabled s) ↔
    s.regs RTC_ALM &&& (SEC_EN ||| MIN_EN ||| HOUR_EN ||| DAY_EN ||| MON_EN ||| YEAR_EN) ≠ 0 := by
  have hor : ∀ x y : BitVec 32, x ||| y = 0 ↔ x = 0 ∧ y = 0 := fun _ _ => BitVec.or_eq_zero_iff
  simp only [BitVec.and_or_distrib_left, ne_eq, hor, almFields, AlmField.Enabled, secAlm, minAlm,
    hourAlm, dayAlm, monAlm, yearAlm, List.mem_cons, List.not_mem_nil, or_false, exists_eq_or_imp,
    exists_eq_left, not_and_or, or_assoc]

/-- The alarm rings when every compared field but the month agrees. -/
theorem ringsInMonth_iff (s : Rtc) : s.RingsInMonth ↔ s.regs RTC_ALM &&& ALM_EN ≠ 0 ∧
    (secAlm.Enabled s → secAlm.Equal s) ∧ (minAlm.Enabled s → minAlm.Equal s) ∧
    (hourAlm.Enabled s → hourAlm.Equal s) ∧ (dayAlm.Enabled s → dayAlm.Equal s) ∧
    (yearAlm.Enabled s → yearAlm.Equal s) := by
  constructor
  · intro h
    exact ⟨h.1, h.2 secAlm (by simp [almFields]) (by decide),
      h.2 minAlm (by simp [almFields]) (by decide), h.2 hourAlm (by simp [almFields]) (by decide),
      h.2 dayAlm (by simp [almFields]) (by decide), h.2 yearAlm (by simp [almFields]) (by decide)⟩
  · rintro ⟨hen, hsec, hmin, hhour, hday, hyear⟩
    refine ⟨hen, fun f hf hne => ?_⟩
    simp only [almFields, List.mem_cons, List.not_mem_nil, or_false] at hf
    rcases hf with rfl | rfl | rfl | rfl | rfl | rfl
    · exact hsec
    · exact hmin
    · exact hhour
    · exact hday
    · exact absurd rfl hne
    · exact hyear

/-- It asks for the month too, and for a field to compare. -/
theorem rings_iff (s : Rtc) : s.Rings ↔ s.RingsInMonth ∧ (∃ f ∈ almFields, f.Enabled s) ∧
    (monAlm.Enabled s → monAlm.Equal s) := by
  constructor
  · rintro ⟨hen, hsome, hall⟩
    exact ⟨⟨hen, fun f hf _ => hall f hf⟩, hsome, hall monAlm (by simp [almFields])⟩
  · rintro ⟨⟨hen, hrest⟩, hsome, hmon⟩
    refine ⟨hen, hsome, fun f hf => ?_⟩
    by_cases hmonth : f = monAlm
    · exact hmonth ▸ hmon
    · refine hrest f hf ?_
      simp only [almFields, List.mem_cons, List.not_mem_nil, or_false] at hf
      rcases hf with rfl | rfl | rfl | rfl | rfl | rfl
      all_goals first | decide | exact absurd rfl hmonth

/-- What the code compares. -/
theorem rtcAlarm_iff (h : s.Runs) : rtcAlarm s = true ↔ s.RingsInMonth ∧
    (∃ f ∈ almFields, f.Enabled s) ∧
    (monAlm.Enabled s → s.regs ALM_MON &&& 0x1F = bcd s.currentTm.mon) := by
  obtain ⟨hsec, hmin, hhour, -, hmday, hmon, hyear⟩ := h.date
  have hdays := monthDays_le s.currentTm.mon (1900 + s.currentTm.year)
  have hcut : (s.currentTm.year - 100) % 1000 = s.currentTm.year - 100 := by omega
  have hcentury : yearAlm.Equal s ↔ s.regs ALM_YEAR &&& 0xFF = (bcdYear s.currentTm).1 ∧
      s.regs ALM_YEAR >>> 8 &&& 0xF = (bcdYear s.currentTm).2 := by
    rw [bcdYear_eq hyear.1, hcut, ← h.holds.year, ← h.holds.century]
    exact and_FFF_iff _ _
  unfold rtcAlarm
  simp only [Bool.and_eq_true, almMatches_iff, bne_iff_ne, beq_iff_eq]
  rw [toBcd_eq hsec.1 (by omega), toBcd_eq hmin.1 (by omega), toBcd_eq hhour.1 (by omega),
    toBcd_eq (by omega) (by omega), toBcd_eq hmon.1 (by omega), ← exists_enabled_iff, ← hcentury,
    ← h.holds.sec, ← h.holds.min, ← h.holds.hour, ← h.holds.mday, ringsInMonth_iff]
  constructor
  · rintro ⟨⟨⟨⟨⟨⟨⟨hen, hsome⟩, hs⟩, hm⟩, hh⟩, hd⟩, hmonth⟩, hy⟩
    exact ⟨⟨hen, hs, hm, hh, hd, hy⟩, hsome, hmonth⟩
  · rintro ⟨⟨hen, hs, hm, hh, hd, hy⟩, hsome, hmonth⟩
    exact ⟨⟨⟨⟨⟨⟨⟨hen, hsome⟩, hs⟩, hm⟩, hh⟩, hd⟩, hmonth⟩, hy⟩

/-- The alarm rings at its time, unless the month makes the difference. -/
theorem rtcAlarm_rings_iff (h : s.Runs) : (rtcAlarm s = true ↔ s.Rings) ↔ s.MonthFits := by
  have hmon := h.date.mon
  have hne : bcd s.currentTm.mon ≠ bcd (s.currentTm.mon + 1) := fun heq => by
    have := bcd_inj ⟨hmon.1, by omega⟩ ⟨by omega, by omega⟩ heq
    omega
  have hequal : monAlm.Equal s ↔ s.regs ALM_MON &&& 0x1F = bcd (s.currentTm.mon + 1) := by
    rw [← h.holds.mon]
    rfl
  rw [rtcAlarm_iff h, rings_iff, hequal]
  show _ ↔ (monAlm.Enabled s → _)
  by_cases hen : monAlm.Enabled s
  · have hsome : ∃ f ∈ almFields, f.Enabled s := ⟨monAlm, by simp [almFields], hen⟩
    simp only [hen, hsome, true_implies, true_and]
    by_cases hrest : s.RingsInMonth
    · simp only [hrest, true_and, true_implies]
      constructor
      · intro hiff
        exact ⟨fun heq => hne (heq.symm.trans (hiff.mp heq)),
          fun heq => hne ((hiff.mpr heq).symm.trans heq)⟩
      · rintro ⟨hthis, hnext⟩
        exact ⟨fun heq => absurd heq hthis, fun heq => absurd heq hnext⟩
    · simp [hrest]
  · simp [hen]

/-! ### Updates -/

variable {now : BitVec 64}

/-- The state in which the next second is set. -/
def rtcRing (s : Rtc) : Rtc :=
  if rtcAlarm s then { s with almIrq := true }.set INT_PEND (s.regs INT_PEND ||| INT_ALM) else s

theorem rtcSecondUpdate_enabled (h : s.Runs) (now : BitVec 64) : rtcSecondUpdate s now =
    { rtcSetDate (rtcRing s) (rtcNextSecond s.currentTm) with
      secondTimer := some (now + tps) } := by
  unfold rtcSecondUpdate rtcRing
  rw [if_pos h.enabled]
  by_cases halarm : rtcAlarm s = true
  · rw [if_pos halarm]
    rfl
  · rw [if_neg halarm]

theorem rtcRing_irq (s : Rtc) : (rtcRing s).almIrq = (s.almIrq || rtcAlarm s) := by
  unfold rtcRing
  cases rtcAlarm s
  · exact (Bool.or_false _).symm
  · exact (Bool.or_true _).symm

theorem rtcRing_pend (s : Rtc) : (rtcRing s).regs INT_PEND =
    if rtcAlarm s then s.regs INT_PEND ||| INT_ALM else s.regs INT_PEND := by
  unfold rtcRing
  split_ifs
  · exact Rtc.regs_set_self _ _ _
  · rfl

/-- The alarm is raised when it rings, unless the month makes a difference that shows. -/
theorem rtcRing_iff (h : s.Runs) :
    (((rtcRing s).almIrq = true ↔ s.almIrq = true ∨ s.Rings) ∧
      (rtcRing s).regs INT_PEND =
        if s.Rings then s.regs INT_PEND ||| INT_ALM else s.regs INT_PEND) ↔
      s.Pending ∨ s.MonthFits := by
  rw [← rtcAlarm_rings_iff h, rtcRing_irq, rtcRing_pend, Bool.or_eq_true]
  by_cases hcode : rtcAlarm s = true <;> by_cases hrings : s.Rings
  · simp [hcode, hrings]
  · simp only [hcode, hrings, or_true, or_false, if_true, if_false, true_iff, iff_false,
      not_true_eq_false]
    exact ⟨fun hp => ⟨hp.1, hp.2⟩, fun hp => ⟨hp.irq, hp.pend⟩⟩
  · simp only [hcode, hrings, or_true, or_false, if_true, if_false, iff_true, Bool.false_eq_true]
    exact ⟨fun hp => ⟨hp.1, hp.2.symm⟩, fun hp => ⟨hp.irq, hp.pend.symm⟩⟩
  · simp [hcode, hrings]

/-- The clock steps right, but over a century's last day and out of its years. -/
theorem Tm.steps_iff (tm : Tm) : tm.Steps ↔ ¬(tm.Midnight ∧ tm.Century) ∧
    (tm.Midnight → tm.mon = 11 → tm.mday = 31 → tm.year ≠ 1099) := by
  constructor
  · rintro ⟨hleap, hlast⟩
    refine ⟨?_, hlast⟩
    rintro ⟨hmidnight, hmon, hmday, hhundred, hfour⟩
    exact hfour (hleap hmidnight hmon hmday hhundred)
  · rintro ⟨hcentury, hlast⟩
    refine ⟨fun hmidnight hmon hmday hhundred => ?_, hlast⟩
    by_contra hfour
    exact hcentury ⟨hmidnight, hmon, hmday, hhundred, hfour⟩

/-- The registers hold the next second, if the clock steps as the calendar. -/
theorem rtcSetDate_next_iff (s : Rtc) (h : tm.Valid) :
    ((rtcSetDate s (rtcNextSecond tm)).Holds tm.next ∧
      (rtcGetDate (rtcSetDate s (rtcNextSecond tm))).currentTm = rtcNextSecond tm) ↔ tm.Steps := by
  rw [tm.steps_iff]
  by_cases hcentury : tm.Midnight ∧ tm.Century
  -- the register of the day has 29 instead of 1
  · obtain ⟨hday, hnext⟩ := rtcNextSecond_century hcentury.1 hcentury.2
      (by have := h.year; omega)
    refine ⟨fun hholds => ?_, fun hsteps => absurd hcentury hsteps.1⟩
    have hmday := hholds.1.mday
    rw [(rtcSetDate_regs s (rtcNextSecond tm)).2.2.2.2.1, hday, hnext] at hmday
    exact absurd hmday (by decide)
  · rw [rtcNextSecond_eq h hcentury]
    by_cases hlast : tm.Midnight → tm.mon = 11 → tm.mday = 31 → tm.year ≠ 1099
    · have hdigits := h.next_digits hlast
      have hholds := rtcSetDate_holds s hdigits
      exact ⟨fun _ => ⟨hcentury, hlast⟩, fun _ => ⟨hholds, hholds.getDate hdigits⟩⟩
    -- the year 3000 has a digit too many
    · refine ⟨fun hholds => ?_, fun hsteps => absurd hsteps.2 hlast⟩
      obtain ⟨hmidnight, hmon, hmday, hyear⟩ : tm.Midnight ∧ tm.mon = 11 ∧ tm.mday = 31 ∧
          tm.year = 1099 := by tauto
      have hnext : tm.next.year = 1100 := by
        obtain ⟨hhour, hmin, hsec⟩ := hmidnight
        simp [Tm.next, Tm.tomorrow, monthDays, hhour, hmin, hsec, hmon, hmday, hyear]
      have hcentury := hholds.1.century
      rw [(rtcSetDate_regs s tm.next).2.2.2.2.2.2, bcdYear_eq (by omega), hnext] at hcentury
      exact absurd hcentury (by decide)

/-- **A second of the clock.**  The alarm rings when its fields are those of the date, and the
    registers hold the next second, if and only if the month of the alarm makes no difference and
    the clock steps as the calendar. -/
theorem rtc_second_update (s : Rtc) (now : BitVec 64) (h : s.Runs) :
    s.Second (rtcSecondUpdate s now) ↔ (s.Pending ∨ s.MonthFits) ∧ s.currentTm.Steps := by
  rw [← rtcRing_iff h, ← rtcSetDate_next_iff (rtcRing s) h.date, rtcSecondUpdate_enabled h]
  constructor
  · rintro ⟨hirq, hpend, hholds, hdate⟩
    exact ⟨⟨hirq, hpend⟩, ⟨hholds.sec, hholds.min, hholds.hour, hholds.wday, hholds.mday,
      hholds.mon, hholds.year, hholds.century⟩, hdate⟩
  · rintro ⟨⟨hirq, hpend⟩, hholds, hdate⟩
    exact ⟨hirq, hpend, ⟨hholds.sec, hholds.min, hholds.hour, hholds.wday, hholds.mday, hholds.mon,
      hholds.year, hholds.century⟩, hdate⟩

/-- A clock that runs, with an alarm in some fields. -/
def rtcAt (tm : Tm) (alarm : BitVec 32) (month : BitVec 32) : Rtc :=
  rtcSetDate ((({ rtcZero with currentTm := tm }.set RTC_CON RTC_EN).set RTC_ALM alarm).set ALM_MON
    month) tm

/-- Noon, on the 1st of March 2010. -/
def march : Tm where
  sec := 0
  min := 0
  hour := 12
  wday := 1
  mday := 1
  mon := 2
  year := 110

/-- A second in March. -/
theorem rtc_second_update_march :
    (rtcAt march (ALM_EN ||| MON_EN) 9).Second
      (rtcSecondUpdate (rtcAt march (ALM_EN ||| MON_EN) 9) 0) := by
  have hvalid : march.Valid :=
    ⟨by decide, by decide, by decide, by decide, by decide, by decide, by decide⟩
  have hdigits : march.Digits :=
    ⟨by decide, by decide, by decide, by decide, by decide, by decide, by decide⟩
  refine (rtc_second_update _ 0 ⟨by decide, hvalid, rtcSetDate_holds _ hdigits⟩).mpr
    ⟨.inr fun _ _ => by decide, ⟨fun hmidnight => ?_, fun hmidnight => ?_⟩⟩
  · exact absurd hmidnight.1 (by decide)
  · exact absurd hmidnight.1 (by decide)

/-- An alarm in March does not ring in March. -/
theorem rtc_alarm_month : ¬∀ s now, Rtc.Runs s → s.Second (rtcSecondUpdate s now) := by
  intro h
  have hvalid : march.Valid :=
    ⟨by decide, by decide, by decide, by decide, by decide, by decide, by decide⟩
  have hdigits : march.Digits :=
    ⟨by decide, by decide, by decide, by decide, by decide, by decide, by decide⟩
  have hirq := (h (rtcAt march (ALM_EN ||| MON_EN) 3) 0
    ⟨by decide, hvalid, rtcSetDate_holds _ hdigits⟩).irq
  have hrings : (rtcAt march (ALM_EN ||| MON_EN) 3).Rings := by decide
  exact absurd (hirq.mpr (.inr hrings)) (by decide)

end Qemu.Hw
