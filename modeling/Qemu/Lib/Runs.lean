import Mathlib.Data.List.Basic

namespace Qemu.Lib

/-!
# Runs of a machine that can fault

A machine takes actions; `none` is a fault, such as the use of memory that has been freed.  An
environment chooses the actions, and a condition may restrict its choice in each state.

* `runFrom` — a list of actions from a state;
* `StepsMeet` — every action of a run meets a condition in the state it is taken in;
* `runFrom_history` — a state that stands for the actions so far;
* `runLog` — what is recorded of the actions of a run;
* `runFrom_invariant` — what every such action keeps, every such run keeps, without a fault;
* `runFrom_preserves` — the same of the runs that do not fault;
* `runFrom_exact` — when all other actions fault, the runs that do not are those of such actions;
* `runFrom_eq_none` — a run faults that comes to an action that faults;
* `runFrom_all_iff` — when all other actions break a property, the runs that never break it are
  those of such actions;
* `runFrom_total_iff` — the same of the runs that do not fault either;
* `runFrom_total_iff_of` — the same of runs whose environment keeps to a condition;
* `foldl_all_iff` — runs that keep a property, of a machine that never faults;
* `runAnswers_simulation` — a machine that answers as an abstract one does, action by action, does
  so over whole runs.
-/

variable {σ α : Type*}

/-- The state after a list of actions. -/
def runFrom (exec : σ → α → Option σ) : σ → List α → Option σ
  | s, [] => some s
  | s, a :: as => (exec s a).bind fun s' => runFrom exec s' as

/-- Every action meets the condition in the state in which it is taken. -/
def StepsMeet (exec : σ → α → Option σ) (P : σ → α → Prop) : σ → List α → Prop
  | _, [] => True
  | s, a :: as => P s a ∧ ∀ s', exec s a = some s' → StepsMeet exec P s' as

variable {exec : σ → α → Option σ} {P : σ → α → Prop} {I : σ → Prop} {s : σ} {as : List α}

/-- Steps that meet a condition meet a weaker one. -/
theorem StepsMeet.mono {Q : σ → α → Prop} (hPQ : ∀ s a, P s a → Q s a) (h : StepsMeet exec P s as) :
    StepsMeet exec Q s as := by
  induction as generalizing s with
  | nil => exact trivial
  | cons a as ih => exact ⟨hPQ s a h.1, fun s' hs' => ih (h.2 s' hs')⟩

/-- A condition that holds everywhere holds of every step. -/
theorem StepsMeet.of_forall (h : ∀ s a, P s a) (s : σ) (as : List α) : StepsMeet exec P s as := by
  induction as generalizing s with
  | nil => exact trivial
  | cons a as ih => exact ⟨h s a, fun s' _ => ih s'⟩

variable {Q : α → Prop}

theorem StepsMeet.and_mem (h : StepsMeet exec P s as) (hQ : ∀ a ∈ as, Q a) :
    StepsMeet exec (fun s a => P s a ∧ Q a) s as := by
  induction as generalizing s with
  | nil => exact trivial
  | cons a as ih =>
    obtain ⟨hfirst, hrest⟩ := List.forall_mem_cons.mp hQ
    exact ⟨⟨h.1, hfirst⟩, fun s' hs' => ih (h.2 s' hs') hrest⟩

theorem StepsMeet.of_mem (s : σ) (h : ∀ a ∈ as, Q a) : StepsMeet exec (fun _ => Q) s as :=
  (StepsMeet.and_mem (StepsMeet.of_forall (P := fun _ _ => True) (fun _ _ => trivial) s as) h).mono
    fun _ _ => And.right

/-- The steps of both parts of a run meet it. -/
theorem StepsMeet.of_append {bs : List α} (h : StepsMeet exec P s (as ++ bs)) :
    StepsMeet exec P s as ∧ ∀ s', runFrom exec s as = some s' → StepsMeet exec P s' bs := by
  induction as generalizing s with
  | nil => exact ⟨trivial, fun s' hs' => Option.some.inj hs' ▸ h⟩
  | cons a as ih =>
    refine ⟨⟨h.1, fun s' hs' => (ih (h.2 s' hs')).1⟩, fun s' hs' => ?_⟩
    obtain ⟨s₁, h₁, hrest⟩ := Option.bind_eq_some_iff.mp hs'
    exact (ih (h.2 s₁ h₁)).2 s' hrest

theorem runFrom_append (exec : σ → α → Option σ) (s : σ) (as bs : List α) :
    runFrom exec s (as ++ bs) = (runFrom exec s as).bind fun s' => runFrom exec s' bs := by
  induction as generalizing s with
  | nil => rfl
  | cons a as ih =>
    rw [List.cons_append, runFrom, runFrom, Option.bind_assoc]
    exact Option.bind_congr fun s' _ => ih s'

variable {s' : σ}

theorem runFrom_keeps (hstep : ∀ s a s', I s → exec s a = some s' → I s') (hs : I s)
    (hrun : runFrom exec s as = some s') : I s' := by
  induction as generalizing s with
  | nil =>
    obtain rfl := Option.some.inj hrun
    exact hs
  | cons a as ih =>
    obtain ⟨s₁, h₁, hrest⟩ := Option.bind_eq_some_iff.mp hrun
    exact ih (hstep s a s₁ hs h₁) hrest

/-- What is recorded of the actions of a run, up to a fault. -/
def runLog {ε : Type*} (exec : σ → α → Option σ) (record : σ → α → List ε) : σ → List α → List ε
  | _, [] => []
  | s, a :: as =>
    record s a ++ match exec s a with
      | some s' => runLog exec record s' as
      | none => []

/-- What holds of a state and of the record so far, if actions keep it that meet a condition. -/
theorem runFrom_logged {ε : Type*} {record : σ → α → List ε} {I : σ → List ε → Prop}
    (hstep : ∀ s l a s', I s l → P s a → exec s a = some s' → I s' (l ++ record s a)) {l : List ε}
    (hs : I s l) (h : StepsMeet exec P s as) (hrun : runFrom exec s as = some s') :
    I s' (l ++ runLog exec record s as) := by
  induction as generalizing s l with
  | nil =>
    obtain rfl := Option.some.inj hrun
    rwa [runLog, List.append_nil]
  | cons a as ih =>
    obtain ⟨s₁, h₁, hrest⟩ := Option.bind_eq_some_iff.mp hrun
    have hI := ih (hstep s l a s₁ hs h.1 h₁) (h.2 s₁ h₁) hrest
    rw [runLog, h₁]
    rwa [List.append_assoc] at hI

/-- **Histories of runs.**  If an action that meets the condition does not fault and extends the
    history that a state stands for, then so does a run of such actions. -/
theorem runFrom_history {I : List α → σ → Prop}
    (hstep : ∀ l s a, I l s → P s a → ∃ s', exec s a = some s' ∧ I (l ++ [a]) s') {l : List α}
    (hs : I l s) (h : StepsMeet exec P s as) :
    ∃ s', runFrom exec s as = some s' ∧ I (l ++ as) s' := by
  induction as generalizing l s with
  | nil =>
    refine ⟨s, rfl, ?_⟩
    rwa [List.append_nil]
  | cons a as ih =>
    obtain ⟨s₁, h₁, hI⟩ := hstep l s a hs h.1
    obtain ⟨s', hrun, hI'⟩ := ih hI (h.2 s₁ h₁)
    rw [List.append_assoc] at hI'
    refine ⟨s', ?_, hI'⟩
    rw [runFrom, h₁]
    exact hrun

/-- **Invariants of runs.**  If an action that meets the condition in a state of `I` does not fault
    and ends in a state of `I`, then so does a run of such actions. -/
theorem runFrom_invariant (hstep : ∀ s a, I s → P s a → ∃ s', exec s a = some s' ∧ I s')
    (hs : I s) (h : StepsMeet exec P s as) : ∃ s', runFrom exec s as = some s' ∧ I s' :=
  runFrom_history (I := fun _ => I) (l := []) (fun _ s a => hstep s a) hs h

/-- A run faults that comes to an action that faults. -/
theorem runFrom_eq_none {I : List α → σ → Prop}
    (hin : ∀ l s a, I l s → Q a → ∃ s', exec s a = some s' ∧ I (l ++ [a]) s')
    (hout : ∀ l s a, I l s → ¬Q a → exec s a = none) {l : List α} (hs : I l s)
    (h : ¬∀ a ∈ as, Q a) : runFrom exec s as = none := by
  induction as generalizing l s with
  | nil => exact absurd (List.forall_mem_nil Q) h
  | cons a as ih =>
    rw [runFrom]
    by_cases ha : Q a
    · obtain ⟨s₁, h₁, hI⟩ := hin l s a hs ha
      rw [h₁]
      exact ih hI fun hrest => h (List.forall_mem_cons.mpr ⟨ha, hrest⟩)
    · rw [hout l s a hs ha]
      rfl

/-- What follows of an action that meets the condition in a state of `I`, follows of every action of
    a run of such actions, up to a fault. -/
theorem StepsMeet.of_preserved {Q : σ → α → Prop}
    (hstep : ∀ s a, I s → P s a → Q s a ∧ ∀ s', exec s a = some s' → I s') (hs : I s)
    (h : StepsMeet exec P s as) : StepsMeet exec Q s as := by
  induction as generalizing s with
  | nil => exact trivial
  | cons a as ih =>
    obtain ⟨hQ, hI⟩ := hstep s a hs h.1
    exact ⟨hQ, fun s' hs' => ih (hI s' hs') (h.2 s' hs')⟩

/-- What an action keeps that meets the condition and does not fault, a run of such actions
    keeps. -/
theorem runFrom_preserves (hstep : ∀ s a s', I s → P s a → exec s a = some s' → I s') (hs : I s)
    (h : StepsMeet exec P s as) (hrun : runFrom exec s as = some s') : I s' := by
  induction as generalizing s with
  | nil =>
    obtain rfl := Option.some.inj hrun
    exact hs
  | cons a as ih =>
    obtain ⟨s₁, h₁, hrest⟩ := Option.bind_eq_some_iff.mp hrun
    exact ih (hstep s a s₁ hs h.1 h₁) (h.2 s₁ h₁) hrest

/-- **Runs without a fault.**  If the actions that do not meet the condition fault, then the runs
    that do not fault are those whose actions all meet it. -/
theorem runFrom_exact (hin : ∀ s a, I s → P s a → ∃ s', exec s a = some s' ∧ I s')
    (hout : ∀ s a, I s → ¬P s a → exec s a = none) (hs : I s) (as : List α) :
    (∃ s', runFrom exec s as = some s') ↔ StepsMeet exec P s as := by
  refine ⟨?_, fun h => (runFrom_invariant hin hs h).imp fun _ => And.left⟩
  rintro ⟨s', hrun⟩
  induction as generalizing s with
  | nil => exact trivial
  | cons a as ih =>
    obtain ⟨s₁, h₁, hrest⟩ := Option.bind_eq_some_iff.mp hrun
    have hP : P s a := by
      by_contra hn
      rw [hout s a hs hn] at h₁
      cases h₁
    refine ⟨hP, fun s₂ h₂ => ?_⟩
    obtain ⟨s₃, h₃, hI⟩ := hin s a hs hP
    obtain rfl : s₃ = s₂ := Option.some.inj (h₃.symm.trans h₂)
    obtain rfl : s₃ = s₁ := Option.some.inj (h₃.symm.trans h₁)
    exact ih hI hrest

variable {R : σ → Prop}

/-- **Runs that keep a property.**  If the actions that do not meet the condition break the
    property, then the runs in which it always holds are those whose actions all meet it. -/
theorem runFrom_all_iff (hR : ∀ s, I s → R s)
    (hin : ∀ s a s', I s → P s a → exec s a = some s' → I s')
    (hout : ∀ s a s', I s → ¬P s a → exec s a = some s' → ¬R s') (hs : I s)
    (hrun : runFrom exec s as = some s') :
    (∀ n s₁, runFrom exec s (as.take n) = some s₁ → R s₁) ↔ StepsMeet exec P s as := by
  constructor
  · intro h
    induction as generalizing s with
    | nil => exact trivial
    | cons a as ih =>
      obtain ⟨s₁, h₁, hrest⟩ := Option.bind_eq_some_iff.mp hrun
      have hP : P s a := by
        by_contra hn
        refine hout s a s₁ hs hn h₁ (h 1 s₁ ?_)
        rw [List.take_succ_cons, runFrom, h₁]
        rfl
      refine ⟨hP, fun s₂ h₂ => ?_⟩
      obtain rfl : s₁ = s₂ := Option.some.inj (h₁.symm.trans h₂)
      refine ih (hin s a s₁ hs hP h₁) hrest fun n s₃ h₃ => h (n + 1) s₃ ?_
      rw [List.take_succ_cons, runFrom, h₁]
      exact h₃
  · intro h n s₁ h₁
    rw [← List.take_append_drop n as] at h
    exact hR s₁ (runFrom_preserves hin hs h.of_append.1 h₁)

/-- **Runs that return and keep a property** are those whose actions all meet the condition, if the
    others fault or break the property. -/
theorem runFrom_total_iff (hR : ∀ s, I s → R s)
    (hin : ∀ s a, I s → P s a → ∃ s', exec s a = some s' ∧ I s')
    (hout : ∀ s a s', I s → ¬P s a → exec s a = some s' → ¬R s') (hs : I s) :
    (∃ s', runFrom exec s as = some s' ∧
      ∀ n s₁, runFrom exec s (as.take n) = some s₁ → R s₁) ↔ StepsMeet exec P s as := by
  have hkeep : ∀ s a s', I s → P s a → exec s a = some s' → I s' := by
    intro s a s' hs hP hexec
    obtain ⟨s₁, h₁, hI⟩ := hin s a hs hP
    obtain rfl : s₁ = s' := Option.some.inj (h₁.symm.trans hexec)
    exact hI
  constructor
  · rintro ⟨s', hrun, hall⟩
    exact (runFrom_all_iff hR hkeep hout hs hrun).mp hall
  · intro h
    obtain ⟨s', hrun, -⟩ := runFrom_invariant hin hs h
    exact ⟨s', hrun, (runFrom_all_iff hR hkeep hout hs hrun).mpr h⟩

/-- The same, if the environment keeps to a condition. -/
theorem runFrom_total_iff_of {H : σ → α → Prop} (hR : ∀ s, I s → R s)
    (hin : ∀ s a, I s → H s a → P s a → ∃ s', exec s a = some s' ∧ I s')
    (hout : ∀ s a s', I s → H s a → ¬P s a → exec s a = some s' → ¬R s') (hs : I s)
    (hH : StepsMeet exec H s as) :
    (∃ s', runFrom exec s as = some s' ∧
      ∀ n s₁, runFrom exec s (as.take n) = some s₁ → R s₁) ↔ StepsMeet exec P s as := by
  -- on the steps: the first one is inside `P` iff the run goes on and stays in `R`
  induction as generalizing s with
  | nil =>
    refine iff_of_true ⟨s, rfl, fun n s₁ h₁ => ?_⟩ trivial
    rw [List.take_nil] at h₁
    exact Option.some.inj h₁ ▸ hR s hs
  | cons a as ih =>
    obtain ⟨hfirst, hrest⟩ := hH
    constructor
    · rintro ⟨s', hrun, hall⟩
      obtain ⟨s₁, h₁, hrun⟩ := Option.bind_eq_some_iff.mp hrun
      have hP : P s a := by
        by_contra hn
        refine hout s a s₁ hs hfirst hn h₁ (hall 1 s₁ ?_)
        rw [List.take_succ_cons, runFrom, h₁]
        rfl
      obtain ⟨s₂, h₂, hI⟩ := hin s a hs hfirst hP
      obtain rfl : s₁ = s₂ := Option.some.inj (h₁.symm.trans h₂)
      have hsteps := (ih hI (hrest s₁ h₁)).mp ⟨s', hrun, fun n s₃ h₃ => hall (n + 1) s₃ (by
        rw [List.take_succ_cons, runFrom, h₁]
        exact h₃)⟩
      refine ⟨hP, fun s₃ h₃ => ?_⟩
      obtain rfl : s₁ = s₃ := Option.some.inj (h₁.symm.trans h₃)
      exact hsteps
    · rintro ⟨hP, hsteps⟩
      obtain ⟨s₁, h₁, hI⟩ := hin s a hs hfirst hP
      obtain ⟨s', hrun, hall⟩ := (ih hI (hrest s₁ h₁)).mpr (hsteps s₁ h₁)
      refine ⟨s', ?_, fun n s₂ h₂ => ?_⟩
      · rw [runFrom, h₁]
        exact hrun
      · cases n with
        | zero => exact Option.some.inj h₂ ▸ hR s hs
        | succ n =>
          rw [List.take_succ_cons, runFrom, h₁] at h₂
          exact hall n s₂ h₂

theorem runFrom_some (exec : σ → α → σ) (s : σ) (as : List α) :
    runFrom (fun s a => some (exec s a)) s as = some (as.foldl exec s) := by
  induction as generalizing s with
  | nil => rfl
  | cons a as ih => exact ih _

/-- Runs of a machine that never faults. -/
theorem foldl_all_iff {exec : σ → α → σ} (hR : ∀ s, I s → R s)
    (hin : ∀ s a, I s → P s a → I (exec s a)) (hout : ∀ s a, I s → ¬P s a → ¬R (exec s a))
    (hs : I s) (as : List α) :
    (∀ n, R ((as.take n).foldl exec s)) ↔ StepsMeet (fun s a => some (exec s a)) P s as := by
  rw [← runFrom_all_iff hR (fun s a s' h hP hs' => Option.some.inj hs' ▸ hin s a h hP)
    (fun s a s' h hP hs' => Option.some.inj hs' ▸ hout s a h hP) hs (runFrom_some exec s as)]
  refine forall_congr' fun n => ?_
  rw [runFrom_some]
  exact ⟨fun h s₁ hs₁ => Option.some.inj hs₁ ▸ h, fun h => h _ rfl⟩

instance StepsMeet.decidable {exec : σ → α → Option σ} {P : σ → α → Prop}
    [∀ s a, Decidable (P s a)] : ∀ (s : σ) (as : List α), Decidable (StepsMeet exec P s as)
  | _, [] => isTrue trivial
  | s, a :: as =>
    match h : exec s a with
    | none =>
      decidable_of_iff (P s a) ⟨fun hP => ⟨hP, fun s' hs' => by rw [h] at hs'; cases hs'⟩, And.left⟩
    | some s₁ =>
      have : Decidable (StepsMeet exec P s₁ as) := StepsMeet.decidable s₁ as
      decidable_of_iff (P s a ∧ StepsMeet exec P s₁ as)
        ⟨fun hP => ⟨hP.1, fun s' hs' => by rw [h] at hs'; cases hs'; exact hP.2⟩,
          fun hP => ⟨hP.1, hP.2 s₁ h⟩⟩

/-! ### Machines that answer -/

variable {τ β : Type*}

/-- The state after a list of actions, and the answers. -/
def runAnswers (exec : σ → α → Option (σ × β)) : σ → List α → Option (σ × List β)
  | s, [] => some (s, [])
  | s, a :: as =>
    (exec s a).bind fun p => (runAnswers exec p.1 as).map fun q => (q.1, p.2 :: q.2)

/-- The abstract machine, which never faults. -/
def specAnswers (spec : τ → α → τ × β) : τ → List α → τ × List β
  | t, [] => (t, [])
  | t, a :: as =>
    let q := specAnswers spec (spec t a).1 as
    (q.1, (spec t a).2 :: q.2)

/-- **Refinement of runs.**  If every allowed action keeps the relation and gives the abstract
    answer, then every run of allowed actions does. -/
theorem runAnswers_simulation {exec : σ → α → Option (σ × β)} {spec : τ → α → τ × β}
    {R : σ → τ → Prop} {P : τ → α → Prop}
    (hstep : ∀ s t a, R s t → P t a → ∃ s', exec s a = some (s', (spec t a).2) ∧ R s' (spec t a).1)
    {t : τ} (hR : R s t) (h : StepsMeet (fun t a => some (spec t a).1) P t as) :
    ∃ s', runAnswers exec s as = some (s', (specAnswers spec t as).2) ∧
      R s' (specAnswers spec t as).1 := by
  induction as generalizing s t with
  | nil => exact ⟨s, rfl, hR⟩
  | cons a as ih =>
    obtain ⟨s₁, h₁, hR₁⟩ := hstep s t a hR h.1
    obtain ⟨s', hrun, hR'⟩ := ih hR₁ (h.2 _ rfl)
    refine ⟨s', ?_, hR'⟩
    rw [runAnswers, h₁]
    show (runAnswers exec s₁ as).map _ = _
    rw [hrun]
    rfl

end Qemu.Lib
