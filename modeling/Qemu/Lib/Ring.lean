import Mathlib.Data.Fin.Basic
import Mathlib.Data.Nat.ModEq

namespace Qemu.Lib

/-!
# Ring buffers

A queue in an array that is used around its end.  It is empty when its two indices meet, so that it
holds fewer elements than the array has cells.

* `Ring.count`, `Ring.push`, `Ring.pop` — the indices;
* `Ring.contents` — the elements, oldest first;
* `contents_push`, `contents_foldl_push`, `contents_pop` — a ring is a queue, as long as it is not
  full.
-/

/-- A ring of `n` cells: the oldest element is at `head`, the next one goes to `tail`. -/
structure Ring (α : Type*) (n : Nat) where
  cells : Fin n → α
  head : Fin n
  tail : Fin n

variable {α : Type*} {n : Nat}

/-- The number of elements. -/
def Ring.count (q : Ring α n) : Nat :=
  if q.head ≤ q.tail then q.tail - q.head else n - q.head + q.tail

theorem Ring.count_lt (q : Ring α n) : q.count < n := by
  have hhead := q.head.isLt
  have htail := q.tail.isLt
  unfold Ring.count
  split_ifs with hle
  · omega
  · rw [Fin.le_def] at hle
    omega

/-- Where an element is relative to the oldest one. -/
theorem Ring.count_spec (q : Ring α n) : (q.head + q.count) % n = q.tail := by
  have hhead := q.head.isLt
  have htail := q.tail.isLt
  unfold Ring.count
  split_ifs with hle
  · rw [Fin.le_def] at hle
    rw [Nat.add_sub_cancel' hle, Nat.mod_eq_of_lt htail]
  · have hround : q.head + (n - q.head + q.tail) = q.tail + n := by omega
    rw [hround, Nat.add_mod_right, Nat.mod_eq_of_lt htail]

variable [NeZero n]

/-- A new last element. -/
def Ring.push (q : Ring α n) (x : α) : Ring α n :=
  { q with cells := Function.update q.cells q.tail x, tail := q.tail + 1 }

/-- The first element is taken off. -/
def Ring.pop (q : Ring α n) : Ring α n :=
  { q with head := q.head + 1 }

/-- The elements, oldest first. -/
def Ring.contents (q : Ring α n) : List α :=
  (List.range q.count).map fun i => q.cells (Fin.ofNat n (q.head + i))

/-- There are as many elements as are counted. -/
@[simp] theorem Ring.length_contents (q : Ring α n) : q.contents.length = q.count := by
  simp [Ring.contents]

/-- The next index, with the wrap at the end. -/
theorem Ring.val_succ (i : Fin n) :
    (i + 1 : Fin n).val = if i.val + 1 = n then 0 else i.val + 1 := by
  have hi := i.isLt
  rw [Fin.val_add, Fin.val_one', Nat.add_mod_mod]
  split_ifs with hlast
  · rw [hlast, Nat.mod_self]
  · exact Nat.mod_eq_of_lt (by omega)

theorem Ring.count_push {q : Ring α n} (h : q.count + 1 < n) (x : α) :
    (q.push x).count = q.count + 1 := by
  have hhead := q.head.isLt
  have htail := q.tail.isLt
  have hsucc := Ring.val_succ q.tail
  unfold Ring.count at h ⊢
  simp only [Ring.push, Fin.le_def] at h ⊢
  rw [hsucc]
  split_ifs at h ⊢ <;> omega

theorem Ring.count_pop {q : Ring α n} (h : q.count ≠ 0) : q.pop.count = q.count - 1 := by
  have hhead := q.head.isLt
  have htail := q.tail.isLt
  have hsucc := Ring.val_succ q.head
  unfold Ring.count at h ⊢
  simp only [Ring.pop, Fin.le_def] at h ⊢
  rw [hsucc]
  split_ifs at h ⊢ <;> omega

/-- The cell behind the last element is not one of the elements. -/
theorem Ring.ofNat_ne_tail (q : Ring α n) {i : Nat} (hi : i < q.count) :
    Fin.ofNat n (q.head + i) ≠ q.tail := by
  have hhead := q.head.isLt
  have hlt := q.count_lt
  intro heq
  have hval : (q.head + i) % n = (q.head + q.count) % n :=
    (congrArg Fin.val heq).trans q.count_spec.symm
  have hcong : i % n = q.count % n := Nat.ModEq.add_left_cancel' q.head.val hval
  rw [Nat.mod_eq_of_lt (by omega), Nat.mod_eq_of_lt hlt] at hcong
  omega

/-- An element that is pushed is the last one. -/
theorem Ring.contents_push {q : Ring α n} (h : q.count + 1 < n) (x : α) :
    (q.push x).contents = q.contents ++ [x] := by
  unfold Ring.contents
  rw [Ring.count_push h, List.range_succ, List.map_append]
  congr 1
  · apply List.map_congr_left
    intro i hi
    exact Function.update_of_ne (q.ofNat_ne_tail (List.mem_range.mp hi)) _ _
  · have hlast : Fin.ofNat n (q.head + q.count) = q.tail := Fin.ext q.count_spec
    show [Function.update q.cells q.tail x (Fin.ofNat n (q.head + q.count))] = [x]
    rw [hlast, Function.update_self]

/-- The element at `head` is the first one, and the others are left. -/
theorem Ring.contents_pop {q : Ring α n} (h : q.count ≠ 0) :
    q.contents = q.cells q.head :: q.pop.contents := by
  have hhead := q.head.isLt
  obtain ⟨k, hk⟩ := Nat.exists_eq_succ_of_ne_zero h
  unfold Ring.contents
  rw [Ring.count_pop h, hk, List.range_succ_eq_map, List.map_cons, List.map_map]
  congr 1
  · congr 1
    exact Fin.ext (Nat.mod_eq_of_lt hhead)
  · apply List.map_congr_left
    intro i _
    show q.cells (Fin.ofNat n (q.head + (i + 1))) = q.cells (Fin.ofNat n ((q.head + 1 : Fin n) + i))
    congr 1
    apply Fin.ext
    show (q.head + (i + 1)) % n = ((q.head + 1 : Fin n) + i) % n
    rw [Ring.val_succ]
    split_ifs with hlast
    · rw [Nat.zero_add, ← Nat.add_mod_left n i]
      congr 1
      omega
    · congr 1
      omega

/-- Elements that are pushed one after the other, in a ring that has room for them all. -/
theorem Ring.contents_foldl_push {q : Ring α n} {xs : List α} (h : q.count + xs.length < n) :
    (xs.foldl Ring.push q).contents = q.contents ++ xs := by
  induction xs generalizing q with
  | nil => exact (List.append_nil _).symm
  | cons x xs ih =>
    rw [List.length_cons] at h
    have hroom : q.count + 1 < n := by omega
    have hrest : (q.push x).count + xs.length < n := by
      rw [Ring.count_push hroom]
      omega
    rw [List.foldl_cons, ih hrest, Ring.contents_push hroom, List.append_assoc]
    rfl

theorem Ring.contents_eq_nil {q : Ring α n} (h : q.count = 0) : q.contents = [] :=
  List.eq_nil_of_length_eq_zero (q.length_contents.trans h)

end Qemu.Lib
