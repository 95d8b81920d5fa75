import Qemu.Lib.PtrList
import Qemu.Lib.Runs

namespace Qemu.Async

open Qemu.Lib

/-!
# Timers (`vl.c`)

The timers of a clock that are set form a list, sorted by the time at which they expire.
`qemu_run_timers` calls those that are due; a callback may set and delete timers, and it may run
timers again.

* `qemuDelTimer`, `qemuModTimer` — the loops that walk the cells of a list;
* `runTurn` — one turn of the loop of `qemu_run_timers`;
* `TimerAction.exec` — what the main loop or a callback does next.
-/

/-- `QEMU_CLOCK_REALTIME`, `QEMU_CLOCK_VIRTUAL` and `QEMU_CLOCK_HOST`. -/
inductive QemuClock
  | realtime | virtual | host
deriving DecidableEq, Repr

/-- How often a timer was set, fired, and taken off the list before it did. -/
structure TimerCounts where
  armed : Nat
  fired : Nat
  dropped : Nat
deriving DecidableEq, Repr

/-- The call of a callback: for which time the timer was set and when that was, and when it fired,
    at which `current_time`. -/
structure Firing where
  timer : Nat
  clock : QemuClock
  expireTime : Int
  armedAt : Nat
  firedAt : Nat
  now : Int
deriving DecidableEq, Repr

/-- The fields of the timers that `qemu_new_timer` has made, the lists, and the calls of
    `qemu_run_timers` that have not returned, each with its `current_time`.  For the record: the
    number of actions so far, when a timer was set, what has fired, and what was due on the clock
    when a call returned. -/
structure Timers where
  made : Nat
  clock : Nat → QemuClock
  expireTime : Nat → Int
  next : Nat → Option Nat
  activeTimers : QemuClock → Option Nat
  runs : List (QemuClock × Int)
  events : Nat
  armedAt : Nat → Nat
  counts : Nat → TimerCounts
  fired : List Firing
  late : List Nat

/-- The start of the program. -/
def Timers.start : Timers where
  made := 0
  clock := fun _ => .realtime
  expireTime := fun _ => 0
  next := fun _ => none
  activeTimers := fun _ => none
  runs := []
  events := 0
  armedAt := fun _ => 0
  counts := fun _ => ⟨0, 0, 0⟩
  fired := []
  late := []

/-- Set, and neither fired nor taken off since. -/
def Timers.armed (s : Timers) (t : Nat) : Bool :=
  (s.counts t).fired + (s.counts t).dropped < (s.counts t).armed

/-! ### Lists -/

/-- `qemu_new_timer` -/
def qemuNewTimer (clock : QemuClock) (s : Timers) : Timers :=
  { s with made := s.made + 1, clock := Function.update s.clock s.made clock }

/-- The cell of a list takes a pointer. -/
def Timers.put (s : Timers) (clock : QemuClock) (k : Cell Nat) (p : Option Nat) : Timers :=
  { s with
    activeTimers := Function.update s.activeTimers clock (k.putHead (s.activeTimers clock) p)
    next := k.putNext s.next p }

/-- The loop over the cells of the list of a clock.  A list has no more nodes than there are
    timers. -/
def Timers.seek (s : Timers) (clock : QemuClock) (p : Nat → Bool) : Option (Cell Nat) :=
  seekCell (s.activeTimers clock) s.next p (s.made + 1) .head

/-- `qemu_del_timer` -/
def qemuDelTimer (ts : Nat) (s : Timers) : Option Timers :=
  (s.seek (s.clock ts) (· == ts)).map fun pt =>
    match pt.get (s.activeTimers (s.clock ts)) s.next with
    | none => s
    | some t =>
      { s.put (s.clock ts) pt (s.next t) with
        counts := Function.update s.counts ts
          { s.counts ts with dropped := (s.counts ts).dropped + 1 } }

/-- `qemu_mod_timer` -/
def qemuModTimer (ts : Nat) (expireTime : Int) (s : Timers) : Option Timers :=
  (qemuDelTimer ts s).bind fun s =>
  (s.seek (s.clock ts) (fun t => expireTime < s.expireTime t)).map fun pt =>
    let s : Timers :=
      { s with
        expireTime := Function.update s.expireTime ts expireTime
        next := Function.update s.next ts (pt.get (s.activeTimers (s.clock ts)) s.next)
        armedAt := Function.update s.armedAt ts s.events
        counts := Function.update s.counts ts
          { s.counts ts with armed := (s.counts ts).armed + 1 } }
    s.put (s.clock ts) pt (some ts)

/-! ### Calls -/

/-- What is due on a clock. -/
def Timers.due (s : Timers) (clock : QemuClock) (now : Int) : List Nat :=
  (List.range s.made).filter fun t => s.armed t && s.clock t == clock && s.expireTime t ≤ now

/-- The first timer is taken off the list, and its callback is called. -/
def fire (clock : QemuClock) (now : Int) (ts : Nat) (s : Timers) : Timers :=
  { s with
    activeTimers := Function.update s.activeTimers clock (s.next ts)
    next := Function.update s.next ts none
    counts := Function.update s.counts ts { s.counts ts with fired := (s.counts ts).fired + 1 }
    fired := s.fired ++ [⟨ts, clock, s.expireTime ts, s.armedAt ts, s.events, now⟩] }

/-- A turn of the loop of `qemu_run_timers`: a timer fires, or the call returns. -/
def runTurn (s : Timers) : Timers :=
  match s.runs with
  | [] => s
  | (clock, now) :: runs =>
    let done := { s with runs := runs, late := s.late ++ s.due clock now }
    match s.activeTimers clock with
    | none => done
    | some ts => if now < s.expireTime ts then done else fire clock now ts s

/-! ### Actions -/

/-- What the main loop or a callback does.  A callback that returns gives way to the next turn of
    the loop that has called it. -/
inductive TimerAction
  | new (clock : QemuClock)
  | mod (ts : Nat) (expireTime : Int)
  | del (ts : Nat)
  | run (clock : QemuClock) (now : Int)
  | turn
deriving DecidableEq, Repr

/-- An action; nothing is done with a timer that has not been made.  `none` is a loop that does not
    end. -/
def TimerAction.exec (s : Timers) (a : TimerAction) : Option Timers :=
  let s := { s with events := s.events + 1 }
  match a with
  | .new clock => some (qemuNewTimer clock s)
  | .mod ts expireTime => if ts < s.made then qemuModTimer ts expireTime s else some s
  | .del ts => if ts < s.made then qemuDelTimer ts s else some s
  | .run clock now => some { s with runs := (clock, now) :: s.runs }
  | .turn => some (runTurn s)

end Qemu.Async
