import Qemu.Hw.Pcm
import Qemu.Hw.Pwm
import Qemu.Hw.Rtc
import Qemu.Hw.SysTimer
import Qemu.Lib.Runs

namespace Qemu.Hw

open Lib

/-!
# Divisions by zero in the timers of the S5PC110

The system timer, the PWM timers, the real time clock and the PCM interface, side by side.

* `Timers` — their states;
* `TimersOp.exec` — an operation of one of them, at a time and with rates of its own;
* `TimersOp.Fits` — what the operation is to meet;
* `timers_divide` — the runs without a division by zero are those of such operations.
-/

/-- The four timer devices of the board. -/
structure Timers where
  st : SysTimer
  pwm : Pwm
  rtc : Rtc
  pcm : Pcm

/-- The devices, or the fault that ended the run. -/
inductive TimersMachine
  | running (s : Timers)
  | halted

/-- The devices are created. -/
def timersInit (clks : Clocks) : Except ClkStop Timers := do
  let pwm ← pwmInit clks
  let rtc ← rtcInit clks
  return ⟨stReset stZero clks.now, pwm, rtc, pcmInit⟩

/-- One operation on one of them. -/
inductive TimersOp
  | st (clks : Clocks) (op : StOp)
  | pwm (clks : Clocks) (op : PwmOp)
  | rtc (clks : Clocks) (op : RtcOp)
  | pcm (clks : Clocks) (op : PcmOp)

/-- A division by zero is a fault, `hw_error` an end of the emulation. -/
def timersAfter : Except ClkStop Timers → Option TimersMachine
  | .ok s => some (.running s)
  | .error .hwError => some .halted
  | .error .divZero => none

/-- What it does. -/
def TimersOp.exec : TimersMachine → TimersOp → Option TimersMachine
  | .halted, _ => some .halted
  | .running s, .st clks op => timersAfter ((op.exec s.st clks).map fun x => { s with st := x })
  | .running s, .pwm clks op => timersAfter ((op.exec s.pwm clks).map fun x => { s with pwm := x })
  | .running s, .rtc clks op => timersAfter ((op.exec s.rtc clks).map fun x => { s with rtc := x })
  | .running s, .pcm clks op => timersAfter ((op.exec s.pcm clks).map fun x => { s with pcm := x })

/-- What an operation is to meet; the real time clock never divides by zero. -/
def TimersOp.Fits : TimersMachine → TimersOp → Prop
  | .halted, _ => True
  | .running s, .st clks op => op.Fits s.st clks
  | .running s, .pwm _ op => op.Fits s.pwm
  | .running _, .rtc _ _ => True
  | .running s, .pcm clks op => op.Fits s.pcm clks

/-- The registers are what the divisions rely on. -/
structure Timers.Ready (s : Timers) : Prop where
  st : s.st.Planned
  pwm : pwmDivides s.pwm.tcfg1
  rtc : s.rtc.Ticks
  pcm : s.pcm.Stopped

/-- No device is left with a zero to divide by. -/
def TimersMachine.Ready : TimersMachine → Prop
  | .running s => s.Ready
  | .halted => True

theorem timersAfter_ready {σ : Type} {P : σ → Prop} {r : Except ClkStop σ}
    (h : Ends P (· = .hwError) r) {f : σ → Timers} (hf : ∀ s, P s → (f s).Ready) :
    ∃ m, timersAfter (r.map f) = some m ∧ m.Ready := by
  cases h with
  | ok hs => exact ⟨_, rfl, hf _ hs⟩
  | error he =>
    subst he
    exact ⟨_, rfl, trivial⟩

/-- An operation that fits leaves them so. -/
theorem TimersOp.exec_ready {m : TimersMachine} {op : TimersOp} (h : m.Ready)
    (hop : TimersOp.Fits m op) : ∃ m', TimersOp.exec m op = some m' ∧ m'.Ready := by
  cases m with
  | halted => exact ⟨.halted, rfl, trivial⟩
  | running s =>
    have hs : s.Ready := h
    cases op with
    | st clks op =>
      exact timersAfter_ready (StOp.exec_fits hs.st hop) fun _ hst =>
        ⟨hst, hs.pwm, hs.rtc, hs.pcm⟩
    | pwm clks op =>
      exact timersAfter_ready (PwmOp.exec_fits hs.pwm hop) fun _ hpwm =>
        ⟨hs.st, hpwm, hs.rtc, hs.pcm⟩
    | rtc clks op =>
      exact timersAfter_ready (RtcOp.exec_fits hs.rtc clks op) fun _ hrtc =>
        ⟨hs.st, hs.pwm, hrtc, hs.pcm⟩
    | pcm clks op =>
      exact timersAfter_ready (PcmOp.exec_fits hs.pcm hop) fun _ hpcm =>
        ⟨hs.st, hs.pwm, hs.rtc, hpcm⟩

/-- One that does not fit faults. -/
theorem TimersOp.exec_fault {m : TimersMachine} {op : TimersOp} (hop : ¬TimersOp.Fits m op) :
    TimersOp.exec m op = none := by
  cases m with
  | halted => exact absurd trivial hop
  | running s =>
    cases op with
    | st clks op =>
      show timersAfter ((StOp.exec s.st clks op).map _) = none
      rw [StOp.exec_divZero hop]
      rfl
    | pwm clks op =>
      show timersAfter ((PwmOp.exec s.pwm clks op).map _) = none
      rw [PwmOp.exec_divZero hop]
      rfl
    | rtc clks op => exact absurd trivial hop
    | pcm clks op =>
      show timersAfter ((PcmOp.exec s.pcm clks op).map _) = none
      rw [PcmOp.exec_divZero hop]
      rfl

theorem timersInit_ready (clks : Clocks) : ∃ s, timersInit clks = .ok s ∧ s.Ready := by
  obtain ⟨pwm, hpwm, hdivides⟩ := pwmInit_ok clks
  obtain ⟨rtc, hrtc, hticks⟩ := rtcReset_ok rtcZero clks.now
  have hinit : rtcInit clks = .ok rtc := hrtc
  unfold timersInit
  rw [hpwm, ok_bind, hinit, ok_bind]
  exact ⟨_, rfl, SysTimer.planned_of_none rfl, hdivides, hticks, rfl⟩

/-- **Divisions.**  The devices are created without a division by zero, and a run divides by zero
    exactly if one of its operations does not meet its condition. -/
theorem timers_divide (clks : Clocks) :
    ∃ s, timersInit clks = .ok s ∧ ∀ ops : List TimersOp,
      (∃ m, runFrom TimersOp.exec (.running s) ops = some m) ↔
        StepsMeet TimersOp.exec TimersOp.Fits (.running s) ops := by
  obtain ⟨s, hinit, hs⟩ := timersInit_ready clks
  refine ⟨s, hinit, fun ops => ?_⟩
  exact runFrom_exact (I := TimersMachine.Ready) (s := .running s)
    (fun _ _ h hop => TimersOp.exec_ready h hop) (fun _ _ _ hop => TimersOp.exec_fault hop) hs ops

/-- Rates as the board has them, a second after its start. -/
def boardClocks : Clocks where
  now := 1000000000
  rate
    | .xxti => 24000000
    | .xrtcXti => 32768
    | .xusbXti => 24000000
    | .pclk66 => 66000000
    | .sclkPwm => 54000000
  rate_pos c := by cases c <;> decide

/-- The system timer is started before its count is written, and a PWM timer gets a divisor of
    `1 << 8`, which is cut off to zero. -/
theorem timers_divide_zero :
    ∃ s, timersInit boardClocks = .ok s ∧
      runFrom TimersOp.exec (.running s) [.st boardClocks (.write 0x04 1)] = none ∧
      runFrom TimersOp.exec (.running s) [.pwm boardClocks (.write 0x04 0x8)] = none := by
  refine ⟨_, rfl, ?_, ?_⟩
  · decide +kernel
  · rfl

end Qemu.Hw
