import Qemu.Lib.Bytes
import Mathlib.Data.Nat.ModEq

namespace Qemu.Lib

/-!
# Rings of blocks

A stream goes through an array of `n` cells, its `i`-th element through the cell `i % n`; blocks are
stored and fetched where they do not go around the end.  What is kept are the elements from a count
`first` on.

* `RingKeeps` — the cells hold what is kept;
* `RingKeeps.store`, `RingKeeps.fetch` — a block that is stored, and one that is fetched;
* `block_ready_iff` — the positions tell whether a block is there, unless the ring is full.
-/

variable {α : Type*}

/-- The elements of the stream from `first` on are in the cells. -/
def RingKeeps (n : Nat) (cells : Nat → α) (stream : List α) (first : Nat) : Prop :=
  ∀ i, first ≤ i → i < stream.length → stream[i]? = some (cells (i % n))

section

variable {n : Nat} {cells : Nat → α} {stream l : List α} {first first' k : Nat}

theorem RingKeeps.nil (n : Nat) (cells : Nat → α) : RingKeeps n cells [] 0 :=
  fun _ _ hi => absurd hi (Nat.not_lt_zero _)

/-- Less is asked when the first position moves on. -/
theorem RingKeeps.mono (h : RingKeeps n cells stream first) (hle : first ≤ first') :
    RingKeeps n cells stream first' :=
  fun i hi => h i (hle.trans hi)

/-- A position that is less than a round ahead of a cell is another cell. -/
theorem mod_ne_of_round {i j : Nat} (hij : i < j) (hround : j < i + n) : i % n ≠ j % n := by
  intro heq
  have hdvd : n ∣ j - i := (Nat.modEq_iff_dvd' hij.le).mp heq
  have hle := Nat.le_of_dvd (by omega) hdvd
  omega

/-- A cell that is near enough to the end of the array. -/
theorem mod_add_of_lt {i j : Nat} (h : i % n + j < n) : (i + j) % n = i % n + j := by
  rw [← Nat.mod_add_mod, Nat.mod_eq_of_lt h]

/-- **A block is stored** behind the last element, if there is room. -/
theorem RingKeeps.store (h : RingKeeps n cells stream first)
    (hroom : stream.length + l.length ≤ first + n) (hend : stream.length % n + l.length ≤ n) :
    RingKeeps n (storeAt cells (stream.length % n) l) (stream ++ l) first := by
  intro i hi hlt
  rw [List.length_append] at hlt
  rcases Nat.lt_or_ge i stream.length with hold | hnew
  -- an element that is kept already is in none of the cells of the block
  · rw [List.getElem?_append_left hold, h i hi hold]
    have hn : 0 < n := by omega
    have hi' := Nat.mod_lt i hn
    congr 1
    rcases Nat.lt_or_ge (i % n) (stream.length % n) with hbelow | habove
    · exact (storeAt_of_lt hbelow).symm
    · refine (storeAt_of_le ?_).symm
      by_contra hcell
      push Not at hcell
      obtain ⟨j, hj⟩ := Nat.exists_eq_add_of_le habove
      have hlast : j < l.length := by omega
      refine mod_ne_of_round (i := i) (j := stream.length + j) (n := n) (by omega) (by omega) ?_
      rw [hj, mod_add_of_lt (by omega)]
  · obtain ⟨j, rfl⟩ := Nat.exists_eq_add_of_le hnew
    have hj : j < l.length := by omega
    rw [List.getElem?_append_right hnew, Nat.add_sub_cancel_left, mod_add_of_lt (by omega),
      storeAt_add cells _ hj]
    exact List.getElem?_eq_getElem hj

/-- **A block is fetched** that has been stored. -/
theorem RingKeeps.fetch (h : RingKeeps n cells stream first) (hlen : first + k ≤ stream.length)
    (hend : first % n + k ≤ n) : bytesAt cells (first % n) k = (stream.drop first).take k := by
  apply List.ext_getElem?
  intro i
  rcases Nat.lt_or_ge i k with hi | hi
  · rw [getElem?_bytesAt _ _ hi, List.getElem?_take_of_lt hi, List.getElem?_drop,
      h (first + i) (by omega) (by omega), mod_add_of_lt (by omega)]
  · rw [List.getElem?_eq_none (by simpa using hi), List.getElem?_eq_none]
    rw [List.length_take, List.length_drop]
    omega

/-- **Is a block there?**  What two positions tell of `last - first` elements: a full ring looks
    like an empty one. -/
theorem block_ready_iff {last : Nat} (hle : first ≤ last) (hfull : last ≤ first + n) (hk : 0 < k)
    (hkn : k ≤ n) :
    ¬(last % n < first % n ∧ n < first % n + k ∧ last % n < first % n + k - n) ∧
      ¬(first % n ≤ last % n ∧ last % n < first % n + k) ↔
        first + k ≤ last ∧ last < first + n := by
  have hn : 0 < n := by omega
  have hfirst := Nat.mod_lt first hn
  obtain ⟨u, rfl⟩ := Nat.exists_eq_add_of_le hle
  have hlast : (first + u) % n =
    if first % n + u < n then first % n + u else first % n + u - n := by
    rw [← Nat.mod_add_mod]
    split_ifs with hround
    · exact Nat.mod_eq_of_lt hround
    · rw [Nat.mod_eq_sub_mod (by omega), Nat.mod_eq_of_lt (by omega)]
  rw [hlast]
  split_ifs <;> omega

end

end Qemu.Lib
