import Mathlib.Algebra.Ring.Nat

namespace Qemu.Lib

/-!
# Deterministic machines that emit events

A machine turns a state into the events of one step and the next state.  `run` collects the events
of a number of steps.  The rule relates two machines:

* `run_lockstep` — machines that move together and whose events differ by those a predicate drops.
-/

variable {σ τ ε : Type*}

/-- Running `n` steps: the events in order and the last state. -/
def run (step : σ → List ε × σ) : Nat → σ → List ε × σ
  | 0, a => ([], a)
  | n + 1, a => ((step a).1 ++ (run step n (step a).2).1, (run step n (step a).2).2)

theorem run_succ (step : σ → List ε × σ) (n : Nat) (a : σ) :
    run step (n + 1) a
      = ((step a).1 ++ (run step n (step a).2).1, (run step n (step a).2).2) := rfl

/-- **Lockstep simulation.**  If related states step to related states, and the second machine
    emits what the first does less the events `keep` drops, then so do their runs. -/
theorem run_lockstep {step : σ → List ε × σ} {step' : τ → List ε × τ} {R : σ → τ → Prop}
    {keep : ε → Bool}
    (hstep : ∀ a b, R a b → R (step a).2 (step' b).2 ∧ (step' b).1 = (step a).1.filter keep)
    {a : σ} {b : τ} (h : R a b) (n : Nat) :
    R (run step n a).2 (run step' n b).2 ∧ (run step' n b).1 = (run step n a).1.filter keep := by
  induction n generalizing a b with
  | zero => exact ⟨h, rfl⟩
  | succ n ih =>
    obtain ⟨hR, hev⟩ := hstep a b h
    obtain ⟨hR', hev'⟩ := ih hR
    refine ⟨hR', ?_⟩
    rw [run_succ, run_succ]
    show (step' b).1 ++ (run step' n (step' b).2).1 = _
    rw [hev, hev', List.filter_append]

/-- A predicate that holds of the events of every step holds of the events of every run. -/
theorem run_events {step : σ → List ε × σ} {P : ε → Prop} (hstep : ∀ a, ∀ e ∈ (step a).1, P e)
    (n : Nat) (a : σ) : ∀ e ∈ (run step n a).1, P e := by
  induction n generalizing a with
  | zero => intro e he; exact absurd he List.not_mem_nil
  | succ n ih =>
    intro e he
    rw [run_succ] at he
    obtain h | h := List.mem_append.mp he
    · exact hstep a e h
    · exact ih _ e h

end Qemu.Lib
