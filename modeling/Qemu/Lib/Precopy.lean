import Mathlib.Data.List.Basic

namespace Qemu.Lib

/-!
# Copies of what changes while it is copied

A source changes while parts of it are sent to a copy.  The parts that have changed since they were
sent are dirty, and the copy agrees with the source on all others.

* `Synced.write` — the source changes, and what has changed is dirty;
* `Synced.send` — parts of the copy become those of the source, and these are no longer dirty;
* `Synced.complete` — when nothing is dirty, the copy is the source;
* `countP_update_lt` — a part that is sent leaves fewer of them dirty.
-/

variable {ι α : Type*}

/-- The copy agrees with the source wherever that is not dirty. -/
def Synced (dirty : ι → Prop) (src dst : ι → α) : Prop := ∀ i, ¬dirty i → dst i = src i

section

variable {dirty dirty' : ι → Prop} {src src' dst dst' : ι → α}

/-- Where everything is dirty, nothing is promised. -/
theorem Synced.of_dirty (h : ∀ i, dirty i) : Synced dirty src dst :=
  fun i hi => absurd (h i) hi

/-- A write of the source that marks what it changes. -/
theorem Synced.write (h : Synced dirty src dst)
    (hwrite : ∀ i, ¬dirty' i → ¬dirty i ∧ src' i = src i) : Synced dirty' src' dst := by
  intro i hi
  obtain ⟨hclean, heq⟩ := hwrite i hi
  exact (h i hclean).trans heq.symm

/-- A block that is sent may be taken off the dirty ones. -/
theorem Synced.send (h : Synced dirty src dst)
    (hsend : ∀ i, ¬dirty' i → dst' i = src i ∨ ¬dirty i ∧ dst' i = dst i) :
    Synced dirty' src dst' := by
  intro i hi
  obtain hsent | ⟨hclean, heq⟩ := hsend i hi
  · exact hsent
  · exact heq.trans (h i hclean)

theorem Synced.complete (h : Synced dirty src dst) {i : ι} (hi : ¬dirty i) : dst i = src i := h i hi

end

/-- Marking one as clean adds no dirty one. -/
theorem countP_update_le [DecidableEq ι] (f : ι → Bool) (l : List ι) (i : ι) :
    l.countP (Function.update f i false) ≤ l.countP f := by
  refine List.countP_mono_left fun j _ hj => ?_
  by_cases hij : j = i
  · rw [hij, Function.update_self] at hj
    exact absurd hj Bool.false_ne_true
  · rwa [Function.update_of_ne hij] at hj

/-- Marking a dirty one as clean leaves fewer. -/
theorem countP_update_lt [DecidableEq ι] {f : ι → Bool} {l : List ι} {i : ι} (hi : i ∈ l)
    (hf : f i = true) : l.countP (Function.update f i false) < l.countP f := by
  induction l with
  | nil => exact absurd hi List.not_mem_nil
  | cons j l ih =>
    rw [List.countP_cons, List.countP_cons]
    by_cases hji : j = i
    · rw [hji, Function.update_self, hf, if_neg Bool.false_ne_true, if_pos rfl]
      exact Nat.lt_succ_of_le (countP_update_le f l i)
    · have hlt := ih (List.mem_of_ne_of_mem (Ne.symm hji) hi)
      rw [Function.update_of_ne hji]
      exact Nat.add_lt_add_right hlt _

end Qemu.Lib
