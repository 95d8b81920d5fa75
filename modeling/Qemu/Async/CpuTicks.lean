import Qemu.Lib.Runs
import Mathlib.Data.Int.Order.Basic

namespace Qemu.Async

open Qemu.Lib

/-!
# The cycle counter of the guest (`vl.c`)

* `cpuGetTicks`, `cpuEnableTicks`, `cpuDisableTicks` — the counter of the host, with an offset;
* `TicksRun` — calls in any order, and what `cpu_get_ticks` has returned;
* `cpu_ticks_monotone` — the runs in which what it returns never decreases.

A sum that does not fit into `int64_t` is a fault.  `use_icount` is left out: then the instructions
of the guest are counted, and not the cycles of the host.
-/

/-! ### Numbers -/

/-- The number is one of `int64_t`. -/
def FitsInt64 (x : Int) : Prop := -0x8000000000000000 ≤ x ∧ x < 0x8000000000000000

instance decidableFitsInt64 (x : Int) : Decidable (FitsInt64 x) :=
  inferInstanceAs (Decidable (_ ∧ _))

/-- `int64_t` -/
abbrev Int64 := { x : Int // FitsInt64 x }

/-- A sum, if it fits. -/
def int64 (x : Int) : Option Int64 := if h : FitsInt64 x then some ⟨x, h⟩ else none

theorem int64_of_fits {x : Int} (h : FitsInt64 x) : int64 x = some ⟨x, h⟩ := dif_pos h

theorem int64_eq_none {x : Int} (h : ¬FitsInt64 x) : int64 x = none := dif_neg h

theorem int64_eq_some {x : Int} {y : Int64} (h : int64 x = some y) : y.val = x := by
  by_cases hx : FitsInt64 x
  · rw [int64_of_fits hx] at h
    rw [← Option.some.inj h]
  · rw [int64_eq_none hx] at h
    cases h

theorem isSome_bind_int64 {β : Type} {x : Int} {f : Int64 → Option β} {P : Prop}
    (hf : ∀ y : Int64, y.val = x → ((f y).isSome ↔ P)) :
    ((int64 x).bind f).isSome ↔ FitsInt64 x ∧ P := by
  by_cases hx : FitsInt64 x
  · rw [int64_of_fits hx, Option.bind_some, hf ⟨x, hx⟩ rfl, and_iff_right hx]
  · rw [int64_eq_none hx]
    simp [hx]

theorem isSome_map_int64 {β : Type} {x : Int} {f : Int64 → β} :
    ((int64 x).map f).isSome ↔ FitsInt64 x := by
  rw [Option.isSome_map]
  by_cases hx : FitsInt64 x
  · simp [int64_of_fits hx, hx]
  · simp [int64_eq_none hx, hx]

/-! ### Ticks -/

/-- `TimersState` -/
structure TimersState where
  cpuTicksPrev : Int64
  cpuTicksOffset : Int64
  cpuClockOffset : Int64
  cpuTicksEnabled : Bool
deriving DecidableEq

/-- What `cpu_get_real_ticks` and `get_clock` return during a call. -/
structure HostTime where
  ticks : Int64
  clock : Int64
deriving DecidableEq

/-- The offset of `cpu_get_ticks`: a counter that went back since the last call is made up for. -/
def ticksOffset (s : TimersState) (host : HostTime) : Option Int64 :=
  if host.ticks.val < s.cpuTicksPrev.val then
    (int64 (s.cpuTicksPrev.val - host.ticks.val)).bind fun gap =>
      int64 (s.cpuTicksOffset.val + gap.val)
  else some s.cpuTicksOffset

/-- `cpu_get_ticks` -/
def cpuGetTicks (s : TimersState) (host : HostTime) : Option (TimersState × Int64) :=
  if s.cpuTicksEnabled then
    (ticksOffset s host).bind fun offset =>
      (int64 (host.ticks.val + offset.val)).map fun ticks =>
        ({ s with cpuTicksOffset := offset, cpuTicksPrev := host.ticks }, ticks)
  else some (s, s.cpuTicksOffset)

/-- `cpu_get_clock` -/
def cpuGetClock (s : TimersState) (host : HostTime) : Option Int64 :=
  if s.cpuTicksEnabled then int64 (host.clock.val + s.cpuClockOffset.val)
  else some s.cpuClockOffset

/-- `cpu_enable_ticks` -/
def cpuEnableTicks (s : TimersState) (host : HostTime) : Option TimersState :=
  if s.cpuTicksEnabled then some s
  else
    (int64 (s.cpuTicksOffset.val - host.ticks.val)).bind fun ticks =>
      (int64 (s.cpuClockOffset.val - host.clock.val)).map fun clock =>
        { s with cpuTicksOffset := ticks, cpuClockOffset := clock, cpuTicksEnabled := true }

/-- `cpu_disable_ticks`, with what `cpu_get_ticks` returns to it. -/
def cpuDisableTicks (s : TimersState) (host : HostTime) : Option (TimersState × List Int) :=
  if s.cpuTicksEnabled then
    (cpuGetTicks s host).bind fun r =>
      (cpuGetClock r.1 host).map fun clock =>
        ({ r.1 with
            cpuTicksOffset := r.2, cpuClockOffset := clock, cpuTicksEnabled := false }, [r.2.val])
  else some (s, [])

/-! ### Runs -/

/-- A call of `cpu_enable_ticks`, `cpu_disable_ticks` or `cpu_get_ticks`. -/
inductive TicksCall
  | enable | disable | get
deriving DecidableEq

/-- The state, and what `cpu_get_ticks` has returned so far.  `start` is the counter that
    `cpu_enable_ticks` has read, if `cpu_get_ticks` has not been called since. -/
structure TicksRun where
  timers : TimersState
  values : List Int
  start : Option Int64
deriving DecidableEq

/-- The start of the program. -/
def TicksRun.new : TicksRun where
  timers := ⟨⟨0, by decide⟩, ⟨0, by decide⟩, ⟨0, by decide⟩, false⟩
  values := []
  start := none

/-- One call, with what the host's counters show during it. -/
def TicksRun.exec (r : TicksRun) (a : TicksCall × HostTime) : Option TicksRun :=
  match a.1 with
  | .enable =>
    (cpuEnableTicks r.timers a.2).map fun s =>
      { r with timers := s, start := if r.timers.cpuTicksEnabled then r.start else some a.2.ticks }
  | .disable =>
    (cpuDisableTicks r.timers a.2).map fun p => ⟨p.1, r.values ++ p.2, none⟩
  | .get =>
    (cpuGetTicks r.timers a.2).map fun p => ⟨p.1, r.values ++ [p.2.val], none⟩

/-! ### The condition -/

/-- The sums of `cpu_get_ticks`. -/
def TimersState.getSums (s : TimersState) (host : HostTime) : List Int :=
  let gap := s.cpuTicksPrev.val - host.ticks.val
  if 0 < gap then
    [gap, s.cpuTicksOffset.val + gap, host.ticks.val + (s.cpuTicksOffset.val + gap)]
  else [host.ticks.val + s.cpuTicksOffset.val]

/-- The sums of a call. -/
def TimersState.sums (s : TimersState) (a : TicksCall × HostTime) : List Int :=
  match a.1, s.cpuTicksEnabled with
  | .enable, false =>
    [s.cpuTicksOffset.val - a.2.ticks.val, s.cpuClockOffset.val - a.2.clock.val]
  | .disable, true => s.getSums a.2 ++ [a.2.clock.val + s.cpuClockOffset.val]
  | .get, true => s.getSums a.2
  | _, _ => []

/-- All sums of a call fit. -/
def TicksRun.Fits (r : TicksRun) (a : TicksCall × HostTime) : Prop :=
  ∀ x ∈ r.timers.sums a, FitsInt64 x

/-- The first `cpu_get_ticks` after `cpu_enable_ticks` does not find the counter behind the one that
    `cpu_enable_ticks` has read, if that is ahead of the one of the call before, and there is a
    value to compare with. -/
def TicksRun.KeepsUp (r : TicksRun) (a : TicksCall × HostTime) : Prop :=
  a.1 ≠ .enable → ∀ start ∈ r.start, r.values ≠ [] →
    start.val ≤ r.timers.cpuTicksPrev.val ∨ start.val ≤ a.2.ticks.val

/-! ### Calls -/

variable {s s' : TimersState} {host : HostTime} {r r' : TicksRun} {a : TicksCall × HostTime}

theorem cpuGetTicks_disabled (h : s.cpuTicksEnabled = false) (host : HostTime) :
    cpuGetTicks s host = some (s, s.cpuTicksOffset) := by
  simp [cpuGetTicks, h]

theorem cpuGetTicks_enabled (h : s.cpuTicksEnabled = true) (host : HostTime) :
    cpuGetTicks s host = (ticksOffset s host).bind fun offset =>
      (int64 (host.ticks.val + offset.val)).map fun ticks =>
        ({ s with cpuTicksOffset := offset, cpuTicksPrev := host.ticks }, ticks) := by
  rw [cpuGetTicks, if_pos h]

/-- The clock does not fault if each sum it forms fits. -/
theorem cpuGetTicks_isSome (h : s.cpuTicksEnabled = true) :
    (cpuGetTicks s host).isSome ↔ ∀ x ∈ s.getSums host, FitsInt64 x := by
  rw [cpuGetTicks_enabled h, ticksOffset, TimersState.getSums]
  by_cases hback : host.ticks.val < s.cpuTicksPrev.val
  · rw [if_pos hback, if_pos (by omega), Option.bind_assoc]
    rw [List.forall_mem_cons, List.forall_mem_cons, List.forall_mem_singleton]
    refine isSome_bind_int64 fun gap hgap => ?_
    rw [hgap]
    refine isSome_bind_int64 fun offset hoffset => ?_
    rw [isSome_map_int64, hoffset]
  · rw [if_neg hback, if_neg (by omega), Option.bind_some, isSome_map_int64]
    simp

/-- What `cpu_get_ticks` returns while the ticks are enabled. -/
structure TicksGot (s : TimersState) (host : HostTime) (s' : TimersState) (ticks : Int) : Prop where
  value : ticks = max s.cpuTicksPrev.val host.ticks.val + s.cpuTicksOffset.val
  next : s'.cpuTicksPrev.val + s'.cpuTicksOffset.val = ticks
  enabled : s'.cpuTicksEnabled = true
  clock : s'.cpuClockOffset = s.cpuClockOffset

/-- What it returns, and the state it leaves. -/
theorem cpuGetTicks_got (h : s.cpuTicksEnabled = true) {ticks : Int64}
    (hget : cpuGetTicks s host = some (s', ticks)) : TicksGot s host s' ticks.val := by
  rw [cpuGetTicks_enabled h] at hget
  obtain ⟨offset, hoffset, hget⟩ := Option.bind_eq_some_iff.mp hget
  obtain ⟨y, hy, heq⟩ := Option.map_eq_some_iff.mp hget
  obtain ⟨rfl, rfl⟩ := Prod.ext_iff.mp heq
  have hy := int64_eq_some hy
  unfold ticksOffset at hoffset
  by_cases hback : host.ticks.val < s.cpuTicksPrev.val
  -- the counter went back, so that the value stays
  · rw [if_pos hback] at hoffset
    obtain ⟨gap, hgap, hoffset⟩ := Option.bind_eq_some_iff.mp hoffset
    have hgap := int64_eq_some hgap
    have hoffset := int64_eq_some hoffset
    refine ⟨?_, ?_, h, rfl⟩
    · show y.val = _
      omega
    · show host.ticks.val + offset.val = y.val
      omega
  · rw [if_neg hback] at hoffset
    obtain rfl := Option.some.inj hoffset
    refine ⟨?_, ?_, h, rfl⟩
    · show y.val = _
      omega
    · show host.ticks.val + s.cpuTicksOffset.val = y.val
      omega

theorem cpuGetClock_enabled (h : s.cpuTicksEnabled = true) (host : HostTime) :
    cpuGetClock s host = int64 (host.clock.val + s.cpuClockOffset.val) := by
  rw [cpuGetClock, if_pos h]

/-- `cpu_disable_ticks` does not fault if the sums of both clocks fit. -/
theorem cpuDisableTicks_isSome (h : s.cpuTicksEnabled = true) :
    (cpuDisableTicks s host).isSome ↔ (∀ x ∈ s.getSums host, FitsInt64 x) ∧
      FitsInt64 (host.clock.val + s.cpuClockOffset.val) := by
  rw [cpuDisableTicks, if_pos h, ← cpuGetTicks_isSome h]
  cases hget : cpuGetTicks s host with
  | none => simp
  | some p =>
    obtain ⟨-, -, henabled, hclock⟩ := cpuGetTicks_got h hget
    rw [Option.bind_some, cpuGetClock_enabled henabled, isSome_map_int64, hclock]
    simp

/-- A call returns if all its sums fit. -/
theorem TicksRun.exec_isSome (r : TicksRun) (a : TicksCall × HostTime) :
    (r.exec a).isSome ↔ r.Fits a := by
  obtain ⟨call, host⟩ := a
  unfold TicksRun.exec TicksRun.Fits TimersState.sums
  cases henabled : r.timers.cpuTicksEnabled <;> cases call
  case false.enable =>
    rw [Option.isSome_map, cpuEnableTicks, if_neg (by simp [henabled]), List.forall_mem_cons,
      List.forall_mem_singleton]
    exact isSome_bind_int64 fun _ _ => isSome_map_int64
  case false.disable => simp [cpuDisableTicks, henabled]
  case false.get => simp [cpuGetTicks, henabled]
  case true.enable => simp [cpuEnableTicks, henabled]
  case true.disable =>
    simp only [Option.isSome_map, cpuDisableTicks_isSome henabled, List.forall_mem_append,
      List.forall_mem_singleton]
  case true.get => simp only [Option.isSome_map, cpuGetTicks_isSome henabled]

/-! ### The values -/

/-- The largest value so far, if there is one: while the ticks are disabled it is the offset, and
    else that of the last call, or that from which `cpu_enable_ticks` goes on. -/
def TicksRun.peak (r : TicksRun) : Int :=
  if r.timers.cpuTicksEnabled then
    ((r.start.map Subtype.val).getD r.timers.cpuTicksPrev.val) + r.timers.cpuTicksOffset.val
  else r.timers.cpuTicksOffset.val

/-- The values so far do not decrease, and `peak` is the largest of them. -/
structure TicksRun.Inv (r : TicksRun) : Prop where
  sorted : r.values.Pairwise (· ≤ ·)
  le_peak : ∀ v ∈ r.values, v ≤ r.peak
  peak_mem : r.values ≠ [] → r.peak ∈ r.values
  enabled : r.start.isSome → r.timers.cpuTicksEnabled

theorem TicksRun.new_inv : TicksRun.new.Inv where
  sorted := List.Pairwise.nil
  le_peak := by simp [TicksRun.new]
  peak_mem := by simp [TicksRun.new]
  enabled := by simp [TicksRun.new]

/-- A value that is not below the last one. -/
theorem TicksRun.Inv.append (h : r.Inv) {v : Int} (hv : r.values ≠ [] → r.peak ≤ v)
    (hvalues : r'.values = r.values ++ [v]) (hpeak : r'.peak = v) (hstart : r'.start = none) :
    r'.Inv := by
  have hle : ∀ x ∈ r.values, x ≤ v := fun x hx =>
    le_trans (h.le_peak x hx) (hv (List.ne_nil_of_mem hx))
  refine ⟨?_, ?_, ?_, ?_⟩
  · rw [hvalues, List.pairwise_append]
    exact ⟨h.sorted, List.pairwise_singleton _ _, by simpa using hle⟩
  · rw [hvalues, hpeak]
    simpa [or_imp, forall_and] using hle
  · rw [hvalues, hpeak]
    simp
  · rw [hstart]
    simp

theorem TicksRun.Inv.not_sorted (h : r.Inv) (hne : r.values ≠ []) {v : Int} (hv : v < r.peak)
    (hvalues : r'.values = r.values ++ [v]) : ¬r'.values.Pairwise (· ≤ ·) := by
  rw [hvalues, List.pairwise_append]
  rintro ⟨-, -, hle⟩
  exact absurd (hle _ (h.peak_mem hne) v (List.mem_singleton_self v)) (not_le.mpr hv)

/-- What the next value is compared with. -/
theorem TicksRun.peak_le_iff (henabled : r.timers.cpuTicksEnabled = true) {v : Int}
    (hgot : TicksGot r.timers host s' v) : r.peak ≤ v ↔ ∀ start ∈ r.start,
      start.val ≤ r.timers.cpuTicksPrev.val ∨ start.val ≤ host.ticks.val := by
  rw [TicksRun.peak, if_pos henabled, hgot.value]
  cases r.start with
  | none =>
    exact iff_of_true (Int.add_le_add_right (le_max_left _ _) _) fun _ hstart => nomatch hstart
  | some start =>
    simp only [Option.map_some, Option.getD_some, Option.mem_some_iff, forall_eq']
    omega

/-- What a call that returns does to the values: nothing, or it adds one. -/
inductive TicksRun.Next (r : TicksRun) (a : TicksCall × HostTime) (r' : TicksRun) : Prop
  | keep (hkeep : r.KeepsUp a) (hvalues : r'.values = r.values) (hpeak : r'.peak = r.peak)
      (henabled : r'.start.isSome → r'.timers.cpuTicksEnabled)
  | add (v : Int) (hkeep : r.KeepsUp a ↔ (r.values ≠ [] → r.peak ≤ v))
      (hvalues : r'.values = r.values ++ [v]) (hpeak : r'.peak = v) (hstart : r'.start = none)

theorem TicksRun.keepsUp_iff (henabled : r.timers.cpuTicksEnabled = true) (hcall : a.1 ≠ .enable)
    {v : Int} (hgot : TicksGot r.timers a.2 s' v) :
    r.KeepsUp a ↔ (r.values ≠ [] → r.peak ≤ v) := by
  rw [TicksRun.peak_le_iff henabled hgot]
  exact ⟨fun h hne start hstart => h hcall start hstart hne,
    fun h _ start hstart hne => h hne start hstart⟩

theorem TicksRun.Inv.keepsUp_disabled (h : r.Inv) (hdisabled : r.timers.cpuTicksEnabled = false)
    (a : TicksCall × HostTime) : r.KeepsUp a := by
  intro _ start hstart
  have henabled := h.enabled (Option.isSome_of_mem hstart)
  rw [hdisabled] at henabled
  cases henabled

/-- What a call does to the values and to the state. -/
theorem TicksRun.Inv.next (h : r.Inv) (hexec : r.exec a = some r') : r.Next a r' := by
  obtain ⟨call, host⟩ := a
  cases henabled : r.timers.cpuTicksEnabled <;> cases call <;>
    obtain ⟨p, hp, rfl⟩ := Option.map_eq_some_iff.mp hexec
  case false.enable =>
    -- the offset goes on from the value at which the ticks were disabled
    rw [cpuEnableTicks, if_neg (by simp [henabled])] at hp
    obtain ⟨ticks, hticks, hp⟩ := Option.bind_eq_some_iff.mp hp
    obtain ⟨clock, -, rfl⟩ := Option.map_eq_some_iff.mp hp
    have hticks : ticks.val = r.timers.cpuTicksOffset.val - host.ticks.val := int64_eq_some hticks
    refine .keep (h.keepsUp_disabled henabled _) rfl ?_ fun _ => rfl
    simp only [TicksRun.peak, henabled]
    show host.ticks.val + ticks.val = r.timers.cpuTicksOffset.val
    omega
  case false.disable =>
    rw [cpuDisableTicks, if_neg (by simp [henabled])] at hp
    obtain rfl := Option.some.inj hp
    refine .keep (h.keepsUp_disabled henabled _) (List.append_nil _) ?_ fun hsome => nomatch hsome
    simp only [TicksRun.peak, henabled]
    rfl
  case false.get =>
    rw [cpuGetTicks_disabled henabled] at hp
    obtain rfl := Option.some.inj hp
    have hpeak : r.peak = r.timers.cpuTicksOffset.val := by simp [TicksRun.peak, henabled]
    refine .add r.timers.cpuTicksOffset.val ?_ rfl (by simp [TicksRun.peak, henabled]) rfl
    rw [hpeak]
    exact ⟨fun _ _ => le_rfl, fun _ => h.keepsUp_disabled henabled _⟩
  case true.enable =>
    rw [cpuEnableTicks, if_pos henabled] at hp
    obtain rfl := Option.some.inj hp
    refine .keep (fun hne => absurd rfl hne) rfl ?_ fun _ => henabled
    simp only [TicksRun.peak, henabled, if_true]
  case true.disable =>
    rw [cpuDisableTicks, if_pos henabled] at hp
    obtain ⟨⟨s, ticks⟩, hget, hp⟩ := Option.bind_eq_some_iff.mp hp
    obtain ⟨clock, -, rfl⟩ := Option.map_eq_some_iff.mp hp
    have hgot := cpuGetTicks_got henabled hget
    exact .add ticks.val (TicksRun.keepsUp_iff henabled (by simp) hgot) rfl rfl rfl
  case true.get =>
    obtain ⟨s, ticks⟩ := p
    have hgot := cpuGetTicks_got henabled hp
    refine .add ticks.val (TicksRun.keepsUp_iff henabled (by simp) hgot) rfl ?_ rfl
    rw [TicksRun.peak, if_pos hgot.enabled]
    exact hgot.next

theorem TicksRun.Inv.exec (h : r.Inv) (hkeep : r.KeepsUp a) (hexec : r.exec a = some r') :
    r'.Inv := by
  cases h.next hexec with
  | keep _ hvalues hpeak henabled =>
    refine ⟨?_, ?_, ?_, henabled⟩ <;> rw [hvalues]
    · exact h.sorted
    · rw [hpeak]
      exact h.le_peak
    · rw [hpeak]
      exact h.peak_mem
  | add v hiff hvalues hpeak hstart => exact h.append (hiff.mp hkeep) hvalues hpeak hstart

theorem TicksRun.Inv.exec_not (h : r.Inv) (hkeep : ¬r.KeepsUp a) (hexec : r.exec a = some r') :
    ¬r'.values.Pairwise (· ≤ ·) := by
  cases h.next hexec with
  | keep hkeep' => exact absurd hkeep' hkeep
  | add v hiff hvalues =>
    obtain ⟨hne, hle⟩ := Classical.not_imp.mp fun himp => hkeep (hiff.mpr himp)
    exact h.not_sorted hne (not_le.mp hle) hvalues

/-! ### Results -/

/-- **The ticks never decrease.**  A run returns, with values that never decrease, if and only if
    its sums fit and no value falls behind the counter that `cpu_enable_ticks` has read. -/
theorem cpu_ticks_monotone (calls : List (TicksCall × HostTime)) :
    (∃ r, runFrom TicksRun.exec .new calls = some r ∧
      ∀ n r₁, runFrom TicksRun.exec .new (calls.take n) = some r₁ →
        r₁.values.Pairwise (· ≤ ·)) ↔
      StepsMeet TicksRun.exec (fun r a => r.Fits a ∧ r.KeepsUp a) .new calls := by
  refine runFrom_total_iff (fun _ => TicksRun.Inv.sorted) ?_ ?_ TicksRun.new_inv
  · intro r a hr ha
    obtain ⟨r', hr'⟩ := Option.isSome_iff_exists.mp ((r.exec_isSome a).mpr ha.1)
    exact ⟨r', hr', hr.exec ha.2 hr'⟩
  · intro r a r' hr ha hexec
    -- the sums fit, as the call has returned
    have hfits : r.Fits a := (r.exec_isSome a).mp (Option.isSome_of_eq_some hexec)
    exact hr.exec_not (fun hkeep => ha ⟨hfits, hkeep⟩) hexec

/-- Both counters are the same. -/
def hostAt (x : Int64) : HostTime := ⟨x, x⟩

/-- The counter goes back after it has been read by `cpu_enable_ticks`. -/
theorem cpu_ticks_back : ¬∀ r,
    runFrom TicksRun.exec .new
      [(.enable, hostAt ⟨100, by decide⟩), (.get, hostAt ⟨150, by decide⟩),
        (.disable, hostAt ⟨150, by decide⟩), (.enable, hostAt ⟨1000, by decide⟩),
        (.get, hostAt ⟨900, by decide⟩)] = some r →
      r.values.Pairwise (· ≤ ·) := by
  intro h
  have hsorted := h _ (Option.some_get (by decide +kernel)).symm
  revert hsorted
  decide +kernel

end Qemu.Async
