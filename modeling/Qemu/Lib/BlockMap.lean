import Qemu.Lib.Bytes

namespace Qemu.Lib

/-!
# Blocks and where they are

What is addressed without gaps is kept in blocks of one size, each of which has a place in a memory,
or none, and is then filled with a default.

* `content` — what is at an address;
* `Separated` — the places of different blocks do not overlap;
* `content_storeAt` — a store inside of a block is one at its address, and changes nothing else;
* `content_update`, `content_congr` — blocks that are given a place, and stores outside of all of
  them.
-/

variable {α : Type*} {size : Nat} {place : Nat → Option Nat} {mem : Nat → α} {blank : α}

/-- What is at an address. -/
def content (size : Nat) (place : Nat → Option Nat) (mem : Nat → α) (blank : α) (v : Nat) : α :=
  match place (v / size) with
  | some p => mem (p + v % size)
  | none => blank

/-- The content of a block that has a place. -/
theorem content_some {v p : Nat} (h : place (v / size) = some p) :
    content size place mem blank v = mem (p + v % size) := by
  unfold content
  rw [h]

theorem content_none {v : Nat} (h : place (v / size) = none) :
    content size place mem blank v = blank := by
  unfold content
  rw [h]

/-- The places of different blocks do not overlap. -/
def Separated (size : Nat) (place : Nat → Option Nat) : Prop :=
  ∀ b p b' p', place b = some p → place b' = some p' → b ≠ b' → p + size ≤ p' ∨ p' + size ≤ p

/-- A store inside of a block. -/
theorem content_storeAt (hsep : Separated size place) {b p offset : Nat} {l : List α}
    (hb : place b = some p) (hin : offset + l.length ≤ size) (v : Nat) :
    content size place (storeAt mem (p + offset) l) blank v =
      storeAt (content size place mem blank) (b * size + offset) l v := by
  rcases Nat.eq_zero_or_pos l.length with hnil | hpos
  · obtain rfl := List.length_eq_zero_iff.mp hnil
    rw [storeAt_nil, storeAt_nil]
  have hsize : 0 < size := by omega
  have hv := Nat.div_add_mod v size
  have hmod := Nat.mod_lt v hsize
  rw [Nat.mul_comm] at hv
  -- in the block itself the store is seen in place
  by_cases hblock : v / size = b
  · rw [hblock] at hv
    rw [content_some (hblock ▸ hb)]
    by_cases hbefore : v % size < offset
    · rw [storeAt_of_lt (by omega), storeAt_of_lt (by omega), content_some (hblock ▸ hb)]
    by_cases hafter : offset + l.length ≤ v % size
    · rw [storeAt_of_le (by omega), storeAt_of_le (by omega), content_some (hblock ▸ hb)]
    · have hi : v % size - offset < l.length := by omega
      calc storeAt mem (p + offset) l (p + v % size)
          = storeAt mem (p + offset) l (p + offset + (v % size - offset)) := by congr 1; omega
        _ = l[v % size - offset] := storeAt_add _ _ hi
        _ = storeAt (content size place mem blank) (b * size + offset) l
            (b * size + offset + (v % size - offset)) := (storeAt_add _ _ hi).symm
        _ = _ := by congr 1; omega
  · have hother : ∀ c : α, storeAt (content size place mem blank) (b * size + offset) l v = c ↔
        content size place mem blank v = c := by
      intro c
      rcases Nat.lt_or_gt_of_ne hblock with hlt | hgt
      · have hle : (v / size + 1) * size ≤ b * size := Nat.mul_le_mul_right _ hlt
        rw [Nat.add_mul, Nat.one_mul] at hle
        rw [storeAt_of_lt (by omega)]
      · have hle : (b + 1) * size ≤ v / size * size := Nat.mul_le_mul_right _ hgt
        rw [Nat.add_mul, Nat.one_mul] at hle
        rw [storeAt_of_le (by omega)]
    refine ((hother _).mpr ?_).symm
    unfold content
    -- no other block overlaps it
    cases hplace : place (v / size) with
    | none => rfl
    | some p' =>
      rcases hsep _ _ _ _ hb hplace (Ne.symm hblock) with hle | hle
      · exact (storeAt_of_le (by omega)).symm
      · exact (storeAt_of_lt (by omega)).symm

theorem content_update {b : Nat} {o : Option Nat} {v : Nat} (h : v / size ≠ b) :
    content size (Function.update place b o) mem blank v = content size place mem blank v := by
  unfold content
  rw [Function.update_of_ne h]

theorem content_congr {mem' : Nat → α} (hsize : 0 < size)
    (h : ∀ b p, place b = some p → ∀ i < size, mem' (p + i) = mem (p + i)) :
    content size place mem' blank = content size place mem blank := by
  funext v
  unfold content
  cases hplace : place (v / size) with
  | none => rfl
  | some p => exact h _ p hplace _ (Nat.mod_lt _ hsize)

end Qemu.Lib
