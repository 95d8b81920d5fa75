import Mathlib.Data.List.Basic

namespace Qemu.Lib

/-!
# Where a computation ends

A computation that can stop returns a value or an error.  `Ends Q E r` says that a value is in `Q`
and an error in `E`: with all errors in `E` this is partial correctness, and with none of them the
computation returns.  One rule for each way to put computations together.
-/

variable {ε α β σ : Type*}

/-- A computation returns a value of `Q`, or stops with an error of `E`. -/
inductive Ends (Q : α → Prop) (E : ε → Prop) : Except ε α → Prop
  | ok {a : α} (h : Q a) : Ends Q E (.ok a)
  | error {e : ε} (h : E e) : Ends Q E (.error e)

variable {P : α → Prop} {Q : β → Prop} {E : ε → Prop}

theorem Ends.any (r : Except ε α) : Ends (fun _ => True) (fun _ => True) r := by
  cases r with
  | ok a => exact .ok trivial
  | error e => exact .error trivial

theorem Ends.of_eq_ok {r : Except ε α} (h : Ends P E r) {a : α} (hr : r = .ok a) : P a := by
  subst hr
  cases h with
  | ok h => exact h

theorem ok_bind {α β : Type} (a : α) (f : α → Except ε β) : (Except.ok a >>= f) = f a :=
  rfl

theorem error_bind {α β : Type} (e : ε) (f : α → Except ε β) :
    (Except.error e >>= f) = Except.error e :=
  rfl

/-- A sequence, from what holds of the first result. -/
theorem Ends.bind {r : Except ε α} (h : Ends P E r) {f : α → Except ε β}
    (hf : ∀ a, P a → Ends Q E (f a)) : Ends Q E (r.bind f) := by
  cases h with
  | ok h => exact hf _ h
  | error h => exact .error h

theorem Ends.map {r : Except ε α} (h : Ends P E r) {f : α → β} (hf : ∀ a, P a → Q (f a)) :
    Ends Q E (r.map f) := by
  cases h with
  | ok h => exact .ok (hf _ h)
  | error h => exact .error h

theorem Ends.mono {P' : α → Prop} {E' : ε → Prop} {r : Except ε α} (h : Ends P E r)
    (hP : ∀ a, P a → P' a) (hE : ∀ e, E e → E' e) : Ends P' E' r := by
  cases h with
  | ok h => exact .ok (hP _ h)
  | error h => exact .error (hE _ h)

theorem Ends.ite {c : Prop} [Decidable c] {r r' : Except ε α} (h : c → Ends P E r)
    (h' : ¬c → Ends P E r') : Ends P E (if c then r else r') := by
  by_cases hc : c
  · rw [if_pos hc]
    exact h hc
  · rw [if_neg hc]
    exact h' hc

/-- What a turn of a loop keeps, the loop keeps. -/
theorem Ends.foldlM {I : σ → Prop} {f : σ → α → Except ε σ} {l : List α}
    (hstep : ∀ s, ∀ a ∈ l, I s → Ends I E (f s a)) {s : σ} (hs : I s) :
    Ends I E (l.foldlM f s) := by
  induction l generalizing s with
  | nil => exact .ok hs
  | cons a l ih =>
    rw [List.foldlM_cons]
    refine Ends.bind (hstep s a List.mem_cons_self hs) fun s' hs' => ?_
    exact ih (fun s a ha => hstep s a (List.mem_cons_of_mem _ ha)) hs'

end Qemu.Lib
