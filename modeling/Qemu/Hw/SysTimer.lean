import Qemu.Hw.Clock
import Mathlib.Tactic.IntervalCases

namespace Qemu.Hw

open Lib

/-!
# The system timer of the S5PC110 (`hw/s5pc1xx_st.c`)

* `stSetTimer`, `stTick` — the ticks;
* `stUpdate` — the frequency, and the interval between two ticks;
* `stRead`, `stWrite` — the registers;
* `StOp.exec` — an access of the guest, or the QEMU timer expires;
* `StOp.exec_fits`, `StOp.exec_divZero` — which operations divide by zero.
-/

/-! ### Constants -/

def TICK_SWRST : BitVec 32 := 1 <<< 16
def TCLKB_MUX : BitVec 32 := 3 <<< 12
def DIV_MUX : BitVec 32 := 7 <<< 8
def PRESCALER : BitVec 32 := 0xFF <<< 0

def INT_AUTO_RELOAD : BitVec 32 := 1 <<< 5
def INT_MAN_UPD : BitVec 32 := 1 <<< 4
def INT_RUN : BitVec 32 := 1 <<< 3
def TIMER_RUN : BitVec 32 := 1 <<< 0

def TWIE : BitVec 32 := 1 <<< 10
def IWIE : BitVec 32 := 1 <<< 9
def TFWIE : BitVec 32 := 1 <<< 8
def TIWIE : BitVec 32 := 1 <<< 7
def ICNTEIE : BitVec 32 := 1 <<< 6
def TCON_W_STAT : BitVec 32 := 1 <<< 5
def ICNTB_W_STAT : BitVec 32 := 1 <<< 4
def TFCNTB_W_STAT : BitVec 32 := 1 <<< 3
def TICNTB_W_STAT : BitVec 32 := 1 <<< 2
def INTCNT_EXP_STAT : BitVec 32 := 1 <<< 1
def ST_INT_ENABLE : BitVec 32 := 1 <<< 0
def ST_ALL_STAT : BitVec 32 :=
  TCON_W_STAT ||| ICNTB_W_STAT ||| TFCNTB_W_STAT ||| TICNTB_W_STAT ||| INTCNT_EXP_STAT

/-! ### State -/

/-- `S5pc1xxSTState`; `stTimer` is when the QEMU timer expires, if it is set, and `irq` is the level
    of the line. -/
structure SysTimer where
  tcfg : BitVec 32
  tcon : BitVec 32
  ticntb : BitVec 32
  ticnto : BitVec 32
  tfcntb : BitVec 32
  icntb : BitVec 32
  icnto : BitVec 32
  intCstat : BitVec 32
  irq : Bool
  divider : BitVec 8
  prescaler : BitVec 8
  stTimer : Option (BitVec 64)
  freqOut : BitVec 32
  tickInterval : BitVec 64
  lastTick : BitVec 64
  nextPlannedTick : BitVec 64
  baseTime : BitVec 64

/-- `st_clks` -/
def stClk (n : BitVec 32) : Clk :=
  if n = 0 then .xxti else if n = 1 then .xrtcXti else if n = 2 then .xusbXti else .pclk66

/-! ### Ticks -/

/-- `s5pc1xx_st_irq`, after it has stopped the timer. -/
def stRaise (s : SysTimer) (enabMask statMask : BitVec 32) : SysTimer :=
  { s with
    icnto := if statMask = ICNTB_W_STAT ∧ s.tcon &&& INT_MAN_UPD ≠ 0 then s.icntb else s.icnto
    irq := s.irq || (s.intCstat &&& ST_INT_ENABLE != 0 && s.intCstat &&& enabMask != 0)
    intCstat := s.intCstat ||| statMask }

/-- `s5pc1xx_st_set_timer` -/
def stSetTimer (s : SysTimer) (now : BitVec 64) : Except ClkStop SysTimer :=
  (umod (now - s.baseTime) s.tickInterval).map fun rem =>
    let last := now - s.baseTime
    let next := last + (s.tickInterval - rem)
    { s with nextPlannedTick := next, stTimer := some (next + s.baseTime), lastTick := last }

/-- The interrupt counter at a tick; its type is signed. -/
def stCount (s : SysTimer) : SysTimer :=
  let icnto := if s.icnto = 0 ∧ s.tcon &&& INT_AUTO_RELOAD ≠ 0 then s.icntb else s.icnto
  if (icnto - 1).sle 0 then stRaise { s with icnto := 0 } ICNTEIE INTCNT_EXP_STAT
  else { s with icnto := icnto - 1 }

/-- `s5pc1xx_st_tick` -/
def stTick (s : SysTimer) (now : BitVec 64) : Except ClkStop SysTimer :=
  if s.tcon &&& TIMER_RUN ≠ 0 then
    stSetTimer (if s.tcon &&& INT_RUN ≠ 0 then stCount s else s) now
  else .ok { s with nextPlannedTick := 0, lastTick := 0, stTimer := none }

/-- `s5pc1xx_st_irq` -/
def stIrq (s : SysTimer) (enabMask statMask : BitVec 32) (now : BitVec 64) :
    Except ClkStop SysTimer :=
  if statMask = TICNTB_W_STAT ∨ statMask = TFCNTB_W_STAT then
    (stTick { s with tcon := s.tcon &&& ~~~TIMER_RUN } now).map (stRaise · enabMask statMask)
  else .ok (stRaise s enabMask statMask)

/-- `s5pc1xx_st_reset` -/
def stReset (s : SysTimer) (now : BitVec 64) : SysTimer :=
  { s with
    tcfg := 0, tcon := 0, ticntb := 0, ticnto := 0, tfcntb := 0, icntb := 1, icnto := 0
    intCstat := 0, lastTick := 0, nextPlannedTick := 0, freqOut := 0, tickInterval := 0
    divider := 1, prescaler := 0, baseTime := now, stTimer := none }

/-- `s5pc1xx_st_update`: the check of the frequency comes after the divisions by it. -/
def stUpdate (s : SysTimer) (clks : Clocks) : Except ClkStop SysTimer := do
  let divider := (1 : BitVec 32) <<< ((s.tcfg &&& DIV_MUX) >>> 8) |>.setWidth 8
  let prescaler := (s.tcfg &&& PRESCALER).setWidth 8
  let clk := stClk ((s.tcfg &&& TCLKB_MUX) >>> 12)
  let scaled ← ndiv (clks.rate clk) (prescaler.toNat + 1)
  let freq ← ndiv scaled divider.toNat
  let freqOut := BitVec.ofNat 32 freq
  let whole ← muldiv64 (s.ticntb.setWidth 64) ticksPerSec freqOut
  let part ← muldiv64 (s.tfcntb.setWidth 64) ticksPerSec freqOut
  let s := { s with
    divider := divider, prescaler := prescaler, freqOut := freqOut
    tickInterval := whole + part >>> 16, nextPlannedTick := 0 }
  if s.freqOut = 0 then .error .hwError else .ok s

/-! ### Registers -/

/-- From one tick to the next one. -/
def SysTimer.gap (s : SysTimer) : BitVec 64 :=
  s.nextPlannedTick - s.lastTick

/-- The counter between two ticks. -/
def stObserve (s : SysTimer) (curClock : BitVec 64) : Except ClkStop (BitVec 64) :=
  if 0xFFFFFFFF < s.tickInterval then do
    let gap ← udiv (s.gap + tps / 2) tps
    let ticks ← muldiv64 (s.nextPlannedTick - curClock) s.ticntb (gap.setWidth 32)
    udiv ticks tps
  else muldiv64 (s.nextPlannedTick - curClock) s.ticntb (s.gap.setWidth 32)

/-- The counter is between two ticks. -/
def SysTimer.Counts (s : SysTimer) (now : BitVec 64) : Prop :=
  s.freqOut ≠ 0 ∧ s.lastTick ≠ 0 ∧ s.ticntb ≠ 0 ∧ s.nextPlannedTick ≠ 0 ∧
    now - s.baseTime < s.nextPlannedTick

instance SysTimer.decidableCounts (s : SysTimer) (now : BitVec 64) : Decidable (s.Counts now) :=
  inferInstanceAs (Decidable (_ ∧ _))

/-- The read of TICNTO. -/
def stReadTicnto (s : SysTimer) (now : BitVec 64) : Except ClkStop (BitVec 64) :=
  if s.Counts now then stObserve s (now - s.baseTime) else .ok 0

/-- `s5pc1xx_st_read` -/
def stRead (s : SysTimer) (offset : Nat) (now : BitVec 64) :
    Except ClkStop (BitVec 32 × SysTimer) :=
  match offset with
  | 0x00 => .ok (s.tcfg, s)
  | 0x04 => .ok (s.tcon, s)
  | 0x08 => .ok (s.ticntb, s)
  | 0x0C => do
    let ticks ← stReadTicnto s now
    return (ticks.setWidth 32, { s with ticnto := ticks.setWidth 32 })
  | 0x10 => .ok (s.tfcntb, s)
  | 0x18 => .ok (s.icntb - 1, s)
  | 0x1C => .ok (s.icnto, s)
  | 0x20 => .ok (s.intCstat, s)
  | _ => .error .hwError

/-- The timer is started or stopped. -/
def stRun (s : SysTimer) (value : BitVec 32) (now : BitVec 64) : Except ClkStop SysTimer :=
  if s.tcon &&& TIMER_RUN < value &&& TIMER_RUN then stSetTimer { s with baseTime := now } now
  else if value &&& TIMER_RUN < s.tcon &&& TIMER_RUN then .ok { s with stTimer := none }
  else .ok s

/-- The write of TCON. -/
def stWriteTcon (s : SysTimer) (value : BitVec 32) (now : BitVec 64) :
    Except ClkStop SysTimer := do
  let s ← stIrq s TWIE TCON_W_STAT now
  let s ← stRun s value now
  return { s with tcon := value }

/-- The write of INT_CSTAT. -/
def stWriteIntCstat (s : SysTimer) (value : BitVec 32) : SysTimer :=
  let kept := s.intCstat &&& ST_ALL_STAT ||| value &&& ~~~ST_ALL_STAT
  let intCstat := kept &&& ~~~(value &&& ST_ALL_STAT)
  { s with intCstat := intCstat, irq := intCstat &&& ST_ALL_STAT != 0 && s.irq }

/-- `s5pc1xx_st_write` -/
def stWrite (s : SysTimer) (offset : Nat) (value : BitVec 32) (clks : Clocks) :
    Except ClkStop SysTimer :=
  match offset with
  | 0x00 =>
    if value &&& TICK_SWRST ≠ 0 then .ok (stReset s clks.now)
    else stUpdate { s with tcfg := value } clks
  | 0x04 => stWriteTcon s value clks.now
  | 0x08 => do
    let s ← stIrq s TIWIE TICNTB_W_STAT clks.now
    stUpdate { s with ticntb := value } clks
  | 0x10 => do
    let s ← stIrq s TFWIE TFCNTB_W_STAT clks.now
    stUpdate { s with tfcntb := value } clks
  | 0x18 => stIrq { s with icntb := value + 1 } IWIE ICNTB_W_STAT clks.now
  | 0x20 => .ok (stWriteIntCstat s value)
  | _ => .error .hwError

/-- The device as it is allocated. -/
def stZero : SysTimer where
  tcfg := 0
  tcon := 0
  ticntb := 0
  ticnto := 0
  tfcntb := 0
  icntb := 0
  icnto := 0
  intCstat := 0
  irq := false
  divider := 0
  prescaler := 0
  stTimer := none
  freqOut := 0
  tickInterval := 0
  lastTick := 0
  nextPlannedTick := 0
  baseTime := 0

/-! ### Operations -/

/-- What the guest does, and the expiry of the QEMU timer. -/
inductive StOp
  | read (offset : Nat)
  | write (offset : Nat) (value : BitVec 32)
  | expire
deriving DecidableEq

/-- An operation; a timer that is not set does not expire. -/
def StOp.exec (s : SysTimer) (clks : Clocks) : StOp → Except ClkStop SysTimer
  | .read offset => (stRead s offset clks.now).map Prod.snd
  | .write offset value => stWrite s offset value clks
  | .expire => if s.stTimer.isSome then stTick { s with stTimer := none } clks.now else .ok s

/-! ### The condition -/

/-- The clock that TCFG selects is fast enough for its prescaler and its divider. -/
def stClocked (tcfg : BitVec 32) (clks : Clocks) : Prop :=
  clks.rate (stClk ((tcfg &&& TCLKB_MUX) >>> 12)) /
    (((tcfg &&& PRESCALER).toNat + 1) * 2 ^ ((tcfg &&& DIV_MUX) >>> 8).toNat) % 2 ^ 32 ≠ 0

/-- The seconds from one tick to the next one, rounded. -/
def SysTimer.seconds (s : SysTimer) : BitVec 64 :=
  (s.gap + tps / 2) / tps

/-- What an operation is to meet: the timer does not tick without an interval, its clock is fast
    enough, and from one tick to the next there are seconds if the interval is a long one. -/
def StOp.Fits (s : SysTimer) (clks : Clocks) : StOp → Prop
  | .read offset =>
    offset = 0x0C → s.Counts clks.now → 0xFFFFFFFF < s.tickInterval →
      s.seconds.setWidth 32 ≠ (0 : BitVec 32)
  | .write offset value =>
    (offset = 0x00 → value &&& TICK_SWRST = 0 → stClocked value clks) ∧
      (offset = 0x04 → s.tcon &&& TIMER_RUN < value &&& TIMER_RUN → s.tickInterval ≠ 0) ∧
      (offset = 0x08 ∨ offset = 0x10 → stClocked s.tcfg clks)
  | .expire => s.stTimer.isSome → s.tcon &&& TIMER_RUN ≠ 0 → s.tickInterval ≠ 0

/-! ### The planned tick -/

/-- The tick that is planned is at most one interval behind the last one. -/
def SysTimer.Planned (s : SysTimer) : Prop :=
  s.nextPlannedTick ≠ 0 → s.gap ≠ 0 ∧ s.gap ≤ s.tickInterval

variable {s : SysTimer}

theorem SysTimer.planned_of_none (h : s.nextPlannedTick = 0) : s.Planned :=
  fun hne => absurd h hne

/-- The rest of a division is what is missing to the next multiple. -/
theorem sub_umod_spec {a b : BitVec 64} (hb : b ≠ 0) : b - a % b ≠ 0 ∧ b - a % b ≤ b := by
  have hlt : a % b < b := BitVec.umod_lt a ((BitVec.pos_iff_ne_zero b).mpr hb)
  rw [BitVec.lt_def] at hlt
  have hsub : (b - a % b).toNat = b.toNat - (a % b).toNat :=
    BitVec.toNat_sub_of_le (BitVec.le_def.mpr hlt.le)
  refine ⟨fun hzero => ?_, ?_⟩
  · have hnat := congrArg BitVec.toNat hzero
    rw [hsub] at hnat
    have hzero : (0 : BitVec 64).toNat = 0 := rfl
    omega
  · rw [BitVec.le_def, hsub]
    omega

theorem stSetTimer_ok (h : s.tickInterval ≠ 0) (now : BitVec 64) :
    ∃ s', stSetTimer s now = .ok s' ∧ s'.Planned := by
  unfold stSetTimer
  rw [umod_eq _ h]
  refine ⟨_, rfl, fun _ => ?_⟩
  obtain ⟨hne, hle⟩ := sub_umod_spec (a := now - s.baseTime) h
  have hgap : ∀ a b : BitVec 64, a + b - a = b := fun a b => by
    rw [BitVec.add_comm, BitVec.add_sub_cancel]
  show _ + (_ - _) - _ ≠ 0 ∧ _ + (_ - _) - _ ≤ _
  rw [hgap]
  exact ⟨hne, hle⟩

theorem stSetTimer_divZero (h : s.tickInterval = 0) (now : BitVec 64) :
    stSetTimer s now = .error .divZero := by
  unfold stSetTimer
  rw [h, umod_zero]
  rfl

theorem stCount_tickInterval (s : SysTimer) : (stCount s).tickInterval = s.tickInterval := by
  unfold stCount
  dsimp only
  split_ifs <;> rfl

theorem stTick_fits (h : s.tcon &&& TIMER_RUN ≠ 0 → s.tickInterval ≠ 0) (now : BitVec 64) :
    ∃ s', stTick s now = .ok s' ∧ s'.Planned := by
  unfold stTick
  split_ifs with hrun hcount
  · apply stSetTimer_ok
    rw [stCount_tickInterval]
    exact h hrun
  · exact stSetTimer_ok (h hrun) now
  · exact ⟨_, rfl, SysTimer.planned_of_none rfl⟩

theorem stTick_divZero (hrun : s.tcon &&& TIMER_RUN ≠ 0) (h : s.tickInterval = 0)
    (now : BitVec 64) : stTick s now = .error .divZero := by
  unfold stTick
  rw [if_pos hrun]
  apply stSetTimer_divZero
  split_ifs
  · exact (stCount_tickInterval s).trans h
  · exact h

theorem stIrq_stop (s : SysTimer) (enabMask : BitVec 32) {statMask : BitVec 32}
    (hstat : statMask = TICNTB_W_STAT ∨ statMask = TFCNTB_W_STAT) (now : BitVec 64) :
    ∃ s', stIrq s enabMask statMask now = .ok s' ∧ s'.tcfg = s.tcfg := by
  have hrun : ¬s.tcon &&& ~~~TIMER_RUN &&& TIMER_RUN ≠ 0 := by
    rw [BitVec.and_assoc, not_not]
    exact BitVec.and_zero
  unfold stIrq stTick
  rw [if_pos hstat, if_neg hrun]
  exact ⟨_, rfl, rfl⟩

theorem stIrq_of_tcon (s : SysTimer) (now : BitVec 64) :
    stIrq s TWIE TCON_W_STAT now = .ok (stRaise s TWIE TCON_W_STAT) := by
  unfold stIrq
  rw [if_neg (by decide)]

theorem stRun_fits {value : BitVec 32} (h : s.Planned)
    (hstart : s.tcon &&& TIMER_RUN < value &&& TIMER_RUN → s.tickInterval ≠ 0) (now : BitVec 64) :
    ∃ s', stRun s value now = .ok s' ∧ s'.Planned := by
  unfold stRun
  split_ifs with hon hoff
  · exact stSetTimer_ok (s := { s with baseTime := now }) (hstart hon) now
  · exact ⟨_, rfl, h⟩
  · exact ⟨_, rfl, h⟩

theorem stRun_divZero {value : BitVec 32} (hstart : s.tcon &&& TIMER_RUN < value &&& TIMER_RUN)
    (h : s.tickInterval = 0) (now : BitVec 64) : stRun s value now = .error .divZero := by
  unfold stRun
  rw [if_pos hstart]
  exact stSetTimer_divZero (s := { s with baseTime := now }) h now

/-! ### The frequency -/

theorem stDivider_toNat {n : BitVec 32} (hn : n.toNat < 8) :
    (((1 : BitVec 32) <<< n).setWidth 8).toNat = 2 ^ n.toNat := by
  obtain ⟨k, hk⟩ : ∃ k, n.toNat = k := ⟨_, rfl⟩
  rw [hk] at hn ⊢
  have hof : n = BitVec.ofNat 32 k := BitVec.eq_of_toNat_eq (by simp [hk]; omega)
  subst hof
  interval_cases k <;> rfl

theorem stDivMux_lt (tcfg : BitVec 32) : ((tcfg &&& DIV_MUX) >>> 8).toNat < 8 := by
  have hand : (tcfg &&& DIV_MUX).toNat ≤ DIV_MUX.toNat := Nat.and_le_right
  have hmux : DIV_MUX.toNat = 0x700 := rfl
  rw [BitVec.toNat_ushiftRight, Nat.shiftRight_eq_div_pow]
  omega

theorem stPrescaler_toNat (tcfg : BitVec 32) :
    ((tcfg &&& PRESCALER).setWidth 8).toNat = (tcfg &&& PRESCALER).toNat := by
  have hand : (tcfg &&& PRESCALER).toNat ≤ PRESCALER.toNat := Nat.and_le_right
  have hmask : PRESCALER.toNat = 0xff := rfl
  rw [BitVec.toNat_setWidth]
  exact Nat.mod_eq_of_lt (by omega)

/-- The frequency that the update derives. -/
def stFreq (tcfg : BitVec 32) (clks : Clocks) : BitVec 32 :=
  BitVec.ofNat 32 (clks.rate (stClk ((tcfg &&& TCLKB_MUX) >>> 12)) /
    (((tcfg &&& PRESCALER).toNat + 1) * 2 ^ ((tcfg &&& DIV_MUX) >>> 8).toNat))

variable {clks : Clocks}

theorem stFreq_ne_zero {tcfg : BitVec 32} : stFreq tcfg clks ≠ 0 ↔ stClocked tcfg clks := by
  rw [← not_iff_not, not_not]
  unfold stClocked
  rw [not_not]
  refine ⟨fun h => ?_, fun h => BitVec.eq_of_toNat_eq h⟩
  exact (BitVec.toNat_ofNat _ _).symm.trans (congrArg BitVec.toNat h)

/-- The update, once the divisions of the rate are carried out. -/
theorem stUpdate_eq (s : SysTimer) (clks : Clocks) :
    stUpdate s clks =
      (muldiv64 (s.ticntb.setWidth 64) ticksPerSec (stFreq s.tcfg clks)).bind fun whole =>
        (muldiv64 (s.tfcntb.setWidth 64) ticksPerSec (stFreq s.tcfg clks)).bind fun part =>
          if stFreq s.tcfg clks = 0 then .error .hwError
          else .ok { s with
            divider := ((1 : BitVec 32) <<< ((s.tcfg &&& DIV_MUX) >>> 8)).setWidth 8
            prescaler := (s.tcfg &&& PRESCALER).setWidth 8
            freqOut := stFreq s.tcfg clks
            tickInterval := whole + part >>> 16
            nextPlannedTick := 0 } := by
  have hdivider := stDivider_toNat (stDivMux_lt s.tcfg)
  have hpow : 2 ^ ((s.tcfg &&& DIV_MUX) >>> 8).toNat ≠ 0 := Nat.two_pow_pos _ |>.ne'
  simp only [stUpdate, hdivider, stPrescaler_toNat, ndiv_eq _ (Nat.succ_ne_zero _), ndiv_eq _ hpow,
    stFreq, ← Nat.div_div_eq_div_mul]
  rfl

theorem stUpdate_fits (h : stClocked s.tcfg clks) :
    ∃ s', stUpdate s clks = .ok s' ∧ s'.Planned := by
  have hfreq := stFreq_ne_zero.mpr h
  obtain ⟨whole, hwhole⟩ := muldiv64_ok (s.ticntb.setWidth 64) ticksPerSec hfreq
  obtain ⟨part, hpart⟩ := muldiv64_ok (s.tfcntb.setWidth 64) ticksPerSec hfreq
  rw [stUpdate_eq, hwhole, hpart]
  exact ⟨_, if_neg hfreq, SysTimer.planned_of_none rfl⟩

theorem stUpdate_divZero (h : ¬stClocked s.tcfg clks) : stUpdate s clks = .error .divZero := by
  have hfreq : stFreq s.tcfg clks = 0 := not_not.mp fun hne => h (stFreq_ne_zero.mp hne)
  rw [stUpdate_eq, hfreq, muldiv64_zero]
  rfl

/-! ### The counter -/

theorem setWidth_gap_ne_zero (h : s.Planned) (hnext : s.nextPlannedTick ≠ 0)
    (hshort : ¬0xFFFFFFFF < s.tickInterval) : s.gap.setWidth 32 ≠ 0 := by
  obtain ⟨hne, hle⟩ := h hnext
  rw [BitVec.lt_def] at hshort
  rw [BitVec.le_def] at hle
  intro hzero
  apply hne
  apply BitVec.eq_of_toNat_eq
  have hmax : (0xFFFFFFFF : BitVec 64).toNat = 0xFFFFFFFF := rfl
  have hcut := congrArg BitVec.toNat hzero
  rw [BitVec.toNat_setWidth, Nat.mod_eq_of_lt (by omega)] at hcut
  exact hcut

/-- A read divides by the seconds of a long interval only. -/
theorem stReadTicnto_fits {now : BitVec 64} (h : s.Planned)
    (hfits : s.Counts now → 0xFFFFFFFF < s.tickInterval → s.seconds.setWidth 32 ≠ (0 : BitVec 32)) :
    ∃ ticks, stReadTicnto s now = .ok ticks := by
  by_cases hcounts : s.Counts now
  · rw [stReadTicnto, if_pos hcounts, stObserve]
    by_cases hlong : 0xFFFFFFFF < s.tickInterval
    · obtain ⟨ticks, hticks⟩ := muldiv64_ok
        (s.nextPlannedTick - (now - s.baseTime)) s.ticntb (hfits hcounts hlong)
      rw [if_pos hlong, udiv_eq _ tps_ne_zero, ok_bind, ← SysTimer.seconds, hticks, ok_bind]
      exact ⟨_, udiv_eq _ tps_ne_zero⟩
    · rw [if_neg hlong]
      exact muldiv64_ok _ _ (setWidth_gap_ne_zero h hcounts.2.2.2.1 hlong)
  · rw [stReadTicnto]
    exact ⟨0, if_neg hcounts⟩

theorem stReadTicnto_divZero {now : BitVec 64} (hcounts : s.Counts now)
    (hlong : 0xFFFFFFFF < s.tickInterval) (hgap : s.seconds.setWidth 32 = (0 : BitVec 32)) :
    stReadTicnto s now = .error .divZero := by
  rw [stReadTicnto, if_pos hcounts, stObserve, if_pos hlong, udiv_eq _ tps_ne_zero, ok_bind,
    ← SysTimer.seconds, hgap, muldiv64_zero, error_bind]

/-! ### Operations -/

/-- One operation that fits ends. -/
theorem StOp.exec_fits {op : StOp} (h : s.Planned) (hop : op.Fits s clks) :
    Ends SysTimer.Planned (· = .hwError) (op.exec s clks) := by
  -- a division comes only with a clock, or with a planned tick
  cases op with
  | read offset =>
    show Ends _ _ ((stRead s offset clks.now).map Prod.snd)
    unfold stRead
    split
    case h_4 =>
      obtain ⟨ticks, hticks⟩ := stReadTicnto_fits h (hop rfl)
      rw [hticks]
      exact .ok h
    case h_9 => exact .error rfl
    all_goals exact .ok h
  | write offset value =>
    obtain ⟨htcfg, htcon, hcount⟩ := hop
    show Ends _ _ (stWrite s offset value clks)
    unfold stWrite
    split
    case h_1 =>
      split_ifs with hreset
      · exact .ok (SysTimer.planned_of_none rfl)
      · obtain ⟨s', hs', hplanned⟩ := stUpdate_fits (s := { s with tcfg := value })
          (htcfg rfl (not_not.mp hreset))
        rw [hs']
        exact .ok hplanned
    case h_2 =>
      obtain ⟨s', hs', hplanned⟩ := stRun_fits (s := stRaise s TWIE TCON_W_STAT) h (htcon rfl)
        clks.now
      rw [stWriteTcon, stIrq_of_tcon, ok_bind, hs']
      exact .ok hplanned
    case h_3 =>
      obtain ⟨s₁, hs₁, htcfg₁⟩ := stIrq_stop s TIWIE (.inl rfl) clks.now
      have hclocked : stClocked s₁.tcfg clks := htcfg₁ ▸ hcount (.inl rfl)
      obtain ⟨s', hs', hplanned⟩ := stUpdate_fits (s := { s₁ with ticntb := value }) hclocked
      rw [hs₁, ok_bind, hs']
      exact .ok hplanned
    case h_4 =>
      obtain ⟨s₁, hs₁, htcfg₁⟩ := stIrq_stop s TFWIE (.inr rfl) clks.now
      have hclocked : stClocked s₁.tcfg clks := htcfg₁ ▸ hcount (.inr rfl)
      obtain ⟨s', hs', hplanned⟩ := stUpdate_fits (s := { s₁ with tfcntb := value }) hclocked
      rw [hs₁, ok_bind, hs']
      exact .ok hplanned
    case h_5 => exact .ok h
    case h_6 => exact .ok h
    case h_7 => exact .error rfl
  | expire =>
    show Ends _ _ (if s.stTimer.isSome then _ else _)
    split_ifs with hset
    · obtain ⟨s', hs', hplanned⟩ :=
        stTick_fits (s := { s with stTimer := none }) (hop hset) clks.now
      rw [hs']
      exact .ok hplanned
    · exact .ok h

/-- One that does not divides by zero. -/
theorem StOp.exec_divZero {op : StOp} (hop : ¬op.Fits s clks) :
    op.exec s clks = .error .divZero := by
  cases op with
  | read offset =>
    simp only [StOp.Fits, Classical.not_imp, not_not] at hop
    obtain ⟨rfl, hcounts, hlong, hgap⟩ := hop
    show (stReadTicnto s clks.now >>= _).map _ = _
    rw [stReadTicnto_divZero hcounts hlong hgap]
    rfl
  | write offset value =>
    simp only [StOp.Fits, not_and_or, Classical.not_imp, not_not] at hop
    rcases hop with ⟨rfl, hkeep, hclocked⟩ | ⟨rfl, hstart, hinterval⟩ | ⟨hoffset, hclocked⟩
    · show (if value &&& TICK_SWRST ≠ 0 then _ else _) = _
      rw [if_neg (not_not.mpr hkeep)]
      exact stUpdate_divZero hclocked
    · show stWriteTcon s value clks.now = _
      rw [stWriteTcon, stIrq_of_tcon, ok_bind,
        stRun_divZero (s := stRaise s TWIE TCON_W_STAT) hstart hinterval, error_bind]
    · rcases hoffset with rfl | rfl
      · obtain ⟨s₁, hs₁, htcfg₁⟩ := stIrq_stop s TIWIE (.inl rfl) clks.now
        show (stIrq s TIWIE TICNTB_W_STAT clks.now >>= _) = _
        rw [hs₁, ok_bind]
        exact stUpdate_divZero (s := { s₁ with ticntb := value }) (htcfg₁ ▸ hclocked)
      · obtain ⟨s₁, hs₁, htcfg₁⟩ := stIrq_stop s TFWIE (.inr rfl) clks.now
        show (stIrq s TFWIE TFCNTB_W_STAT clks.now >>= _) = _
        rw [hs₁, ok_bind]
        exact stUpdate_divZero (s := { s₁ with tfcntb := value }) (htcfg₁ ▸ hclocked)
  | expire =>
    simp only [StOp.Fits, Classical.not_imp, not_not] at hop
    obtain ⟨hset, hrun, hinterval⟩ := hop
    show (if s.stTimer.isSome then _ else _) = _
    rw [if_pos hset]
    exact stTick_divZero (s := { s with stTimer := none }) hrun hinterval clks.now

end Qemu.Hw
