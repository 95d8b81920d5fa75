import Mathlib.Data.List.Basic

namespace Qemu.Lib

/-!
# Loops that may not end

The body of a loop says whether to go on; `none` is a fault.  The number of turns is bounded, and
more turns than that are `none` as well.

* `loopFor` — the loop;
* `loopFor_ends` — a loop ends that makes a measure smaller in each turn, if the bound is above it;
* `loopFor_stuck` — a loop that always goes on does not end, whatever the bound is.
-/

variable {σ : Type*}

/-- A loop with at most so many turns, whose body tells whether to go on. -/
def loopFor (body : σ → Option (σ × Bool)) : Nat → σ → Option σ
  | 0, _ => none
  | n + 1, s => (body s).bind fun r => if r.2 then loopFor body n r.1 else some r.1

/-- **Loops that end.**  If every turn keeps the invariant, and makes the measure smaller when it
    goes on, then the loop ends and keeps the invariant. -/
theorem loopFor_ends {body : σ → Option (σ × Bool)} {I : σ → Prop} {μ : σ → Nat}
    (hbody : ∀ s, I s → ∃ s' more, body s = some (s', more) ∧ I s' ∧ (more = true → μ s' < μ s))
    {n : Nat} {s : σ} (hs : I s) (hn : μ s < n) : ∃ s', loopFor body n s = some s' ∧ I s' := by
  induction n generalizing s with
  | zero => exact absurd hn (Nat.not_lt_zero _)
  | succ n ih =>
    obtain ⟨s₁, more, h₁, hI, hless⟩ := hbody s hs
    rw [loopFor, h₁]
    cases more with
    | false => exact ⟨s₁, rfl, hI⟩
    | true => exact ih hI (Nat.lt_of_lt_of_le (hless rfl) (Nat.le_of_lt_succ hn))

/-- A loop whose body always goes on does not end. -/
theorem loopFor_stuck {body : σ → Option (σ × Bool)} {I : σ → Prop}
    (hbody : ∀ s, I s → ∃ s', body s = some (s', true) ∧ I s') (n : Nat) {s : σ} (hs : I s) :
    loopFor body n s = none := by
  induction n generalizing s with
  | zero => rfl
  | succ n ih =>
    obtain ⟨s₁, h₁, hI⟩ := hbody s hs
    rw [loopFor, h₁]
    exact ih hI

end Qemu.Lib
