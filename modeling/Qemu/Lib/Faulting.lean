import Mathlib.Data.List.Infix

namespace Qemu.Lib

/-!
# Programs that faults may cut short

A program changes a state and does things that can be seen, in an order that does not depend on the
state.  A fault ends it, and leaves the state as it is then.

* `Faulting` — programs, with `Monad (Faulting ε σ)`;
* `Emits` — what a program does from a state, up to the fault, and what holds if there is none;
* `Keeps` — a part of the state that is never changed;
* `Completes` — there is no fault;
* `writeAll` — many writes, one after the other.
-/

universe u

/-- The end of a run: what it did, the state, and the result if there was no fault. -/
structure Outcome (ε σ α : Type u) where
  events : List ε
  state : σ
  result : Option α

/-- A program. -/
def Faulting (ε σ α : Type u) := σ → Outcome ε σ α

namespace Faulting

variable {ε σ α β γ : Type u}

/-- The rest of a program is run if there was no fault. -/
def andThen (m : Faulting ε σ α) (k : α → Faulting ε σ β) : Faulting ε σ β := fun s =>
  match (m s).result with
  | none => ⟨(m s).events, (m s).state, none⟩
  | some a =>
    ⟨(m s).events ++ (k a (m s).state).events, (k a (m s).state).state, (k a (m s).state).result⟩

instance : Monad (Faulting ε σ) where
  pure a := fun s => ⟨[], s, some a⟩
  bind := andThen

/-- The state. -/
def get : Faulting ε σ σ := fun s => ⟨[], s, some s⟩

/-- A change of the state that can be seen. -/
def act (es : List ε) (f : σ → σ) : Faulting ε σ PUnit := fun s => ⟨es, f s, some ⟨⟩⟩

/-- What a program does from a state, at most, and what it has done and holds if there is no
    fault. -/
structure Emits (m : Faulting ε σ α) (s : σ) (es : List ε) (Q : α → σ → Prop) : Prop where
  upTo : (m s).events <+: es
  done : ∀ a, (m s).result = some a → (m s).events = es ∧ Q a (m s).state

/-- A part of the state is never changed. -/
def Keeps (f : σ → γ) (m : Faulting ε σ α) : Prop := ∀ s, f (m s).state = f s

/-- There is no fault. -/
def Completes (m : Faulting ε σ α) : Prop := ∀ s, ((m s).result).isSome = true

section

variable {m : Faulting ε σ α} {k : α → Faulting ε σ β} {s : σ} {es es' : List ε}
  {Q : α → σ → Prop} {R : β → σ → Prop} {f : σ → γ}

theorem bind_none (h : (m s).result = none) :
    (m >>= k) s = ⟨(m s).events, (m s).state, none⟩ := by
  show andThen m k s = _
  unfold andThen
  rw [h]

/-- What follows a result, with the events of both. -/
theorem bind_some {a : α} (h : (m s).result = some a) :
    (m >>= k) s = ⟨(m s).events ++ (k a (m s).state).events, (k a (m s).state).state,
      (k a (m s).state).result⟩ := by
  show andThen m k s = _
  unfold andThen
  rw [h]

/-- A read of the state in front of two parts. -/
theorem get_bind_bind (g : σ → Faulting ε σ α) (k : α → Faulting ε σ β) :
    (get >>= g) >>= k = get >>= fun s => g s >>= k := by
  funext s
  show andThen (g s) k s = ⟨(andThen (g s) k s).events, _, _⟩
  rfl

/-! ### `Emits` -/

theorem Emits.pure {a : α} (h : Q a s) : Emits (Pure.pure a : Faulting ε σ α) s [] Q where
  upTo := List.prefix_rfl
  done := by
    intro b hb
    obtain rfl := Option.some.inj hb
    exact ⟨rfl, h⟩

/-- A program that looks at the state first. -/
theorem Emits.get_bind {g : σ → Faulting ε σ β} (h : Emits (g s) s es R) :
    Emits (Faulting.get >>= g) s es R :=
  ⟨h.upTo, h.done⟩

theorem Emits.act {g : σ → σ} {Q : PUnit → σ → Prop} (h : Q ⟨⟩ (g s)) :
    Emits (act es g) s es Q where
  upTo := List.prefix_rfl
  done := fun _ _ => ⟨rfl, h⟩

/-- **Programs in a row.** -/
theorem Emits.bind (hm : Emits m s es Q) (hk : ∀ a s', Q a s' → Emits (k a) s' es' R) :
    Emits (m >>= k) s (es ++ es') R := by
  cases hres : (m s).result with
  | none =>
    refine ⟨?_, fun b hb => ?_⟩
    · rw [bind_none hres]
      exact hm.upTo.trans (List.prefix_append es es')
    · rw [bind_none hres] at hb
      cases hb
  | some a =>
    obtain ⟨hes, hQ⟩ := hm.done a hres
    obtain ⟨hupTo, hdone⟩ := hk a _ hQ
    refine ⟨?_, fun b hb => ?_⟩
    · rw [bind_some hres]
      show (m s).events ++ _ <+: es ++ es'
      rw [hes]
      exact (List.prefix_append_right_inj es).mpr hupTo
    · rw [bind_some hres] at hb ⊢
      obtain ⟨hes', hR⟩ := hdone b hb
      exact ⟨congrArg₂ (· ++ ·) hes hes', hR⟩

/-- A program in front of one that does nothing to be seen. -/
theorem Emits.bind_nil (hm : Emits m s es Q) (hk : ∀ a s', Q a s' → Emits (k a) s' [] R) :
    Emits (m >>= k) s es R := by
  have h := hm.bind hk
  rwa [List.append_nil] at h

theorem Emits.mono {Q' : α → σ → Prop} (hm : Emits m s es Q) (h : ∀ a s', Q a s' → Q' a s') :
    Emits m s es Q' :=
  ⟨hm.upTo, fun a ha => ⟨(hm.done a ha).1, h a _ (hm.done a ha).2⟩⟩

/-! ### `Keeps` -/

theorem Keeps.pure (a : α) : Keeps f (Pure.pure a : Faulting ε σ α) := fun _ => rfl

theorem Keeps.get : Keeps f (Faulting.get : Faulting ε σ σ) := fun _ => rfl

/-- An action that does not touch this part. -/
theorem Keeps.act {g : σ → σ} (h : ∀ s, f (g s) = f s) : Keeps f (Faulting.act es g) := h

theorem Keeps.bind (hm : Keeps f m) (hk : ∀ a, Keeps f (k a)) : Keeps f (m >>= k) := by
  intro s
  cases hres : (m s).result with
  | none =>
    rw [bind_none hres]
    exact hm s
  | some a =>
    rw [bind_some hres]
    exact (hk a _).trans (hm s)

/-- What is kept up to a fault, if the rest of the program has none. -/
theorem Keeps.bind_fault (hm : Keeps f m) (hk : ∀ a, Completes (k a))
    (hfault : ((m >>= k) s).result = none) : f ((m >>= k) s).state = f s := by
  cases hres : (m s).result with
  | none =>
    rw [bind_none hres]
    exact hm s
  | some a =>
    rw [bind_some hres] at hfault
    have hcomplete := hk a (m s).state
    rw [show (k a (m s).state).result = none from hfault] at hcomplete
    cases hcomplete

/-! ### `Completes` -/

theorem Completes.pure (a : α) : Completes (Pure.pure a : Faulting ε σ α) := fun _ => rfl

theorem Completes.get : Completes (Faulting.get : Faulting ε σ σ) := fun _ => rfl

theorem Completes.act {g : σ → σ} : Completes (Faulting.act es g) := fun _ => rfl

theorem Completes.bind (hm : Completes m) (hk : ∀ a, Completes (k a)) : Completes (m >>= k) := by
  intro s
  obtain ⟨a, hres⟩ := Option.isSome_iff_exists.mp (hm s)
  rw [bind_some hres]
  exact hk a _

theorem Emits.events_eq (hm : Emits m s es Q) (hc : Completes m) : (m s).events = es := by
  obtain ⟨a, hres⟩ := Option.isSome_iff_exists.mp (hc s)
  exact (hm.done a hres).1

end

end Faulting

/-! ### Many writes -/

variable {ι κ : Type*} [DecidableEq ι]

/-- The writes of a list, one after the other. -/
def writeAll (ws : List (ι × κ)) (m : ι → κ) : ι → κ :=
  ws.foldl (fun m w => Function.update m w.1 w.2) m

@[simp] theorem writeAll_cons (w : ι × κ) (ws : List (ι × κ)) (m : ι → κ) :
    writeAll (w :: ws) m = writeAll ws (Function.update m w.1 w.2) := rfl

/-- The second list is written over the first. -/
theorem writeAll_append (ws ws' : List (ι × κ)) (m : ι → κ) :
    writeAll (ws ++ ws') m = writeAll ws' (writeAll ws m) :=
  List.foldl_append

theorem writeAll_other {ws : List (ι × κ)} {a : ι} (m : ι → κ) (h : a ∉ ws.map Prod.fst) :
    writeAll ws m a = m a := by
  induction ws generalizing m with
  | nil => rfl
  | cons w ws ih =>
    rw [List.map_cons, List.mem_cons, not_or] at h
    rw [writeAll_cons, ih _ h.2, Function.update_of_ne h.1]

theorem writeAll_mem {ws : List (ι × κ)} (hnodup : (ws.map Prod.fst).Nodup) (m : ι → κ)
    {w : ι × κ} (h : w ∈ ws) : writeAll ws m w.1 = w.2 := by
  induction ws generalizing m with
  | nil => cases h
  | cons v ws ih =>
    rw [List.map_cons, List.nodup_cons] at hnodup
    rw [writeAll_cons]
    rcases List.mem_cons.mp h with rfl | hmem
    · rw [writeAll_other _ hnodup.1, Function.update_self]
    · exact ih hnodup.2 _ hmem

end Qemu.Lib
