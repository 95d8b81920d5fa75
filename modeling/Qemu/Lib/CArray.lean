import Mathlib.Data.List.Basic

namespace Qemu.Lib

/-!
# Arrays of a fixed length

`CArray α n` is an array of `n` elements.  Where an index or a length is known, an access carries
the proof that it is in bounds; where it is computed, an access outside of the bounds is `none`.

* `load`, `store` — one element;
* `slice`, `copy`, `memcpy`, `fill` — what `memcpy` and `memset` do.
-/

/-- An array of C with `n` elements: a function on the indices, of which those from `n` on are never
    read. -/
structure CArray (α : Type*) (n : Nat) where
  cell : Nat → α

namespace CArray

variable {α : Type*} {n : Nat}

/-- All elements are the same. -/
def const (n : Nat) (x : α) : CArray α n := ⟨fun _ => x⟩

/-- `a[i]`, which faults behind the end. -/
def load (a : CArray α n) (i : Nat) : Option α := if i < n then some (a.cell i) else none

/-- `a[i] = x` -/
def store (a : CArray α n) (i : Nat) (x : α) : Option (CArray α n) :=
  if i < n then some ⟨fun j => if j = i then x else a.cell j⟩ else none

/-- Some elements from an index on. -/
def slice (a : CArray α n) (i len : Nat) : Option (List α) :=
  if i + len ≤ n then some ((List.range len).map fun j => a.cell (i + j)) else none

/-- A list from an index on. -/
def write (a : CArray α n) (i : Nat) (l : List α) (_h : i + l.length ≤ n) : CArray α n :=
  ⟨fun j => if i ≤ j then l.getD (j - i) (a.cell j) else a.cell j⟩

/-- `memcpy(&a[i], l, ...)` -/
def copy (a : CArray α n) (i : Nat) (l : List α) : Option (CArray α n) :=
  if h : i + l.length ≤ n then some (a.write i l h) else none

/-- Some elements of another array from an index on. -/
def memcpy {m : Nat} (a : CArray α n) (i : Nat) (b : CArray α m) (j len : Nat) :
    Option (CArray α n) :=
  if i + len ≤ n ∧ j + len ≤ m then
    some ⟨fun k => if i ≤ k ∧ k < i + len then b.cell (j + (k - i)) else a.cell k⟩
  else none

/-- The first elements are set. -/
def fill (a : CArray α n) (len : Nat) (x : α) : Option (CArray α n) :=
  if len ≤ n then some ⟨fun j => if j < len then x else a.cell j⟩ else none

theorem load_of_lt {a : CArray α n} {i : Nat} (h : i < n) : a.load i = some (a.cell i) := if_pos h

theorem load_eq_none {a : CArray α n} {i : Nat} (h : n ≤ i) : a.load i = none :=
  if_neg (Nat.not_lt.mpr h)

/-- A list by its elements is copied. -/
theorem copy_map_range (a : CArray α n) {i len : Nat} (h : i + len ≤ n) (f : Nat → α) :
    a.copy i ((List.range len).map f) =
      some ⟨fun k => if i ≤ k ∧ k < i + len then f (k - i) else a.cell k⟩ := by
  have hlen : ((List.range len).map f).length = len := by rw [List.length_map, List.length_range]
  rw [copy, dif_pos (by rwa [hlen])]
  refine congrArg some (congrArg CArray.mk (funext fun k => ?_))
  by_cases hk : i ≤ k
  · rw [if_pos hk]
    by_cases hlt : k < i + len
    · rw [if_pos ⟨hk, hlt⟩]
      simp [List.getD, List.getElem?_range (show k - i < len by omega)]
    · have hover : (List.range len).length ≤ k - i := by
        rw [List.length_range]
        omega
      rw [if_neg fun h => hlt h.2]
      simp [List.getD, List.getElem?_eq_none hover]
  · rw [if_neg hk, if_neg fun h => hk h.1]

/-! What follows an access in bounds, with a property of its result. -/

section

variable {β : Type*} {P : Option β → Prop} {a : CArray α n} {i len : Nat}

/-- What holds after every store inside the array. -/
theorem bind_store (h : i < n) {x : α} {f : CArray α n → Option β} (hf : ∀ a', P (f a')) :
    P ((a.store i x).bind f) := by
  rw [store, if_pos h]
  exact hf _

/-- What holds after a read of some elements inside the array. -/
theorem bind_slice (h : i + len ≤ n) {f : List α → Option β}
    (hf : ∀ l : List α, l.length = len → P (f l)) : P ((a.slice i len).bind f) := by
  rw [slice, if_pos h]
  exact hf _ (by rw [List.length_map, List.length_range])

/-- What holds after a copy into the array. -/
theorem bind_copy {l : List α} (h : i + l.length ≤ n) {f : CArray α n → Option β}
    (hf : ∀ a', P (f a')) : P ((a.copy i l).bind f) := by
  rw [copy, dif_pos h]
  exact hf _

/-- A copy inside both arrays goes on with an array that has the copied elements. -/
theorem exists_bind_memcpy {m j : Nat} {b : CArray α m} {Q : β → Prop} (hi : i + len ≤ n)
    (hj : j + len ≤ m) {f : CArray α n → Option β}
    (hf : ∀ a' : CArray α n,
      (∀ k, a'.cell k = if i ≤ k ∧ k < i + len then b.cell (j + (k - i)) else a.cell k) →
        ∃ r, f a' = some r ∧ Q r) : ∃ r, (a.memcpy i b j len).bind f = some r ∧ Q r := by
  rw [memcpy, if_pos ⟨hi, hj⟩]
  exact hf _ fun _ => rfl

/-- What holds after the front of the array is filled. -/
theorem bind_fill (h : len ≤ n) {x : α} {f : CArray α n → Option β} (hf : ∀ a', P (f a')) :
    P ((a.fill len x).bind f) := by
  rw [fill, if_pos h]
  exact hf _

end

/-- A loop that loads from consecutive indices is in bounds if the indices are. -/
theorem foldlM_load {β : Type*} {a : CArray α n} (f : β → Nat → α → β) (l : List Nat) (b : β) :
    (∃ b', l.foldlM (fun b i => (a.load i).map (f b i)) b = some b') ↔ ∀ i ∈ l, i < n := by
  induction l generalizing b with
  | nil => exact ⟨fun _ _ h => absurd h List.not_mem_nil, fun _ => ⟨b, rfl⟩⟩
  | cons i l ih =>
    rw [List.foldlM_cons, List.forall_mem_cons]
    by_cases hi : i < n
    · rw [load_of_lt hi]
      show (∃ b', List.foldlM _ (f b i (a.cell i)) l = some b') ↔ _
      rw [ih]
      exact (and_iff_right hi).symm
    · rw [load_eq_none (Nat.le_of_not_lt hi)]
      exact ⟨fun ⟨_, h⟩ => absurd h.symm (Option.some_ne_none _), fun h => absurd h.1 hi⟩

end CArray

end Qemu.Lib
