import Qemu.Lib.Stream

namespace Qemu.Lib

/-!
# Bytes in memory

A memory is a function of the address.  Consecutive addresses hold a list, and a 32-bit word is
four bytes with the least significant one first.

* `bytesAt_storeAt`, `bytesAt_storeAt_of_disjoint` — what a store leaves where;
* `leWord_leBytes` — words and their bytes;
* `placed` — the bytes of a list with the places they go to.
-/

variable {α β : Type*}

/-- What memory holds from an address on. -/
def bytesAt (mem : Nat → α) (addr size : Nat) : List α :=
  (List.range size).map fun i => mem (addr + i)

/-- Memory with a list stored at an address. -/
def storeAt (mem : Nat → α) (addr : Nat) (l : List α) : Nat → α := fun a =>
  if addr ≤ a then (l[a - addr]?).getD (mem a) else mem a

@[simp] theorem length_bytesAt (mem : Nat → α) (addr size : Nat) :
    (bytesAt mem addr size).length = size := by
  rw [bytesAt, List.length_map, List.length_range]

variable {i size : Nat}

/-- The bytes are those of the memory, from the address on. -/
theorem getElem?_bytesAt (mem : Nat → α) (addr : Nat) (hi : i < size) :
    (bytesAt mem addr size)[i]? = some (mem (addr + i)) := by
  rw [bytesAt, List.getElem?_map, List.getElem?_range hi]
  rfl

theorem bytesAt_add (mem : Nat → α) (addr m n : Nat) :
    bytesAt mem addr (m + n) = bytesAt mem addr m ++ bytesAt mem (addr + m) n := by
  unfold bytesAt
  rw [List.range_add, List.map_append, List.map_map]
  simp only [Function.comp_def, Nat.add_assoc]

variable {addr : Nat} {mem : Nat → α}

/-- Memories that agree on the ranges have the same bytes there. -/
theorem bytesAt_congr {mem' : Nat → α} {addr' : Nat}
    (h : ∀ i < size, mem (addr + i) = mem' (addr' + i)) :
    bytesAt mem addr size = bytesAt mem' addr' size :=
  List.map_congr_left fun i hi => h i (List.mem_range.mp hi)

variable {n : Nat}

theorem take_drop_bytesAt (mem : Nat → α) (addr : Nat) (h : i + n ≤ size) :
    ((bytesAt mem addr size).drop i).take n = bytesAt mem (addr + i) n := by
  obtain ⟨m, rfl⟩ : ∃ m, size = i + (n + m) := ⟨size - (i + n), by omega⟩
  have hi : (bytesAt mem addr i).length = i := length_bytesAt ..
  have hn : (bytesAt mem (addr + i) n).length = n := length_bytesAt ..
  rw [bytesAt_add, bytesAt_add, List.drop_left' hi, List.take_left' hn]

theorem take_bytesAt (mem : Nat → α) (addr : Nat) (h : n ≤ size) :
    (bytesAt mem addr size).take n = bytesAt mem addr n := by
  have hcut := take_drop_bytesAt (i := 0) mem addr ((Nat.zero_add n).symm ▸ h)
  rwa [List.drop_zero, Nat.add_zero] at hcut

variable {l : List α}

/-- What is in front of a store keeps its value. -/
theorem storeAt_of_lt {a : Nat} (h : a < addr) :
    storeAt mem addr l a = mem a := if_neg (Nat.not_le.mpr h)

theorem storeAt_of_le {a : Nat} (h : addr + l.length ≤ a) : storeAt mem addr l a = mem a := by
  have hnone : l[a - addr]? = none := List.getElem?_eq_none (by omega)
  rw [storeAt, if_pos (by omega), hnone]
  rfl

theorem storeAt_add (mem : Nat → α) (addr : Nat) (h : i < l.length) :
    storeAt mem addr l (addr + i) = l[i] := by
  rw [storeAt, if_pos (Nat.le_add_right ..), Nat.add_sub_cancel_left, List.getElem?_eq_getElem h]
  rfl

theorem bytesAt_storeAt (mem : Nat → α) (addr : Nat) (l : List α) :
    bytesAt (storeAt mem addr l) addr l.length = l := by
  apply List.ext_getElem?
  intro i
  by_cases hi : i < l.length
  · rw [getElem?_bytesAt _ _ hi, storeAt, if_pos (Nat.le_add_right ..), Nat.add_sub_cancel_left,
      List.getElem?_eq_getElem hi]
    rfl
  · rw [List.getElem?_eq_none (by rw [length_bytesAt]; omega), List.getElem?_eq_none (by omega)]

theorem bytesAt_storeAt_of_disjoint {addr' : Nat}
    (h : addr' + size ≤ addr ∨ addr + l.length ≤ addr') :
    bytesAt (storeAt mem addr l) addr' size = bytesAt mem addr' size := by
  refine bytesAt_congr fun i hi => ?_
  obtain h | h := h
  · exact storeAt_of_lt (by omega)
  · exact storeAt_of_le (by omega)

/-- A part of another memory is copied. -/
theorem storeAt_bytesAt (mem mem' : Nat → α) (addr size a : Nat) :
    storeAt mem addr (bytesAt mem' addr size) a =
      if addr ≤ a ∧ a < addr + size then mem' a else mem a := by
  have hlen : (bytesAt mem' addr size).length = size := length_bytesAt ..
  by_cases hle : addr ≤ a
  · by_cases hlt : a < addr + size
    · rw [if_pos ⟨hle, hlt⟩, storeAt, if_pos hle, getElem?_bytesAt _ _ (by omega),
        Nat.add_sub_of_le hle]
      rfl
    · rw [if_neg (fun h => hlt h.2)]
      exact storeAt_of_le (by omega)
  · rw [if_neg (fun h => hle h.1)]
    exact storeAt_of_lt (Nat.lt_of_not_le hle)

theorem storeAt_copy (mem mem' : Nat → α) (addr addr' : Nat) (hi : i < size) :
    storeAt mem addr (bytesAt mem' addr' size) (addr + i) = mem' (addr' + i) := by
  have hlen : i < (bytesAt mem' addr' size).length := by rwa [length_bytesAt]
  have hget := getElem?_bytesAt mem' addr' hi
  rw [List.getElem?_eq_getElem hlen] at hget
  rw [storeAt_add _ _ hlen]
  exact Option.some.inj hget

/-- A store gives memories that agree the same byte. -/
theorem storeAt_congr {mem' : Nat → α} {base v : Nat} (l : List α) (h : mem v = mem' v) :
    storeAt mem base l v = storeAt mem' base l v := by
  rcases Nat.lt_or_ge v base with hlt | hge
  · rw [storeAt_of_lt hlt, storeAt_of_lt hlt, h]
  · obtain ⟨i, rfl⟩ := Nat.exists_eq_add_of_le hge
    rcases Nat.lt_or_ge i l.length with hi | hi
    · rw [storeAt_add _ _ hi, storeAt_add _ _ hi]
    · rw [storeAt_of_le (by omega), storeAt_of_le (by omega), h]

@[simp] theorem storeAt_nil (mem : Nat → α) (addr : Nat) : storeAt mem addr [] = mem := by
  funext a
  unfold storeAt
  split_ifs
  · rfl
  · rfl

/-- A list is stored part by part. -/
theorem storeAt_append (mem : Nat → α) (addr : Nat) (l l' : List α) :
    storeAt mem addr (l ++ l') = storeAt (storeAt mem addr l) (addr + l.length) l' := by
  funext a
  rcases Nat.lt_or_ge a addr with hlt | hge
  · rw [storeAt_of_lt hlt, storeAt_of_lt (by omega), storeAt_of_lt hlt]
  · obtain ⟨i, rfl⟩ := Nat.exists_eq_add_of_le hge
    by_cases hi : i < l.length
    · have happ : i < (l ++ l').length := by
        rw [List.length_append]
        omega
      rw [storeAt_add _ _ happ, storeAt_of_lt (by omega), storeAt_add _ _ hi,
        List.getElem_append_left hi]
    · obtain ⟨j, rfl⟩ := Nat.exists_eq_add_of_le (not_lt.mp hi)
      by_cases hj : j < l'.length
      · have happ : l.length + j < (l ++ l').length := by
          rw [List.length_append]
          omega
        rw [storeAt_add _ _ happ, ← Nat.add_assoc, storeAt_add _ _ hj,
          List.getElem_append_right (Nat.le_add_right ..)]
        simp only [Nat.add_sub_cancel_left]
      · have happ : (l ++ l').length ≤ l.length + j := by
          rw [List.length_append]
          omega
        rw [storeAt_of_le (by omega), storeAt_of_le (by omega), storeAt_of_le (by omega)]

/-- To store what is there changes nothing. -/
theorem storeAt_self (mem : Nat → α) (addr size : Nat) :
    storeAt mem addr (bytesAt mem addr size) = mem := by
  funext a
  rw [storeAt_bytesAt, ite_self]

/-! ### Words -/

/-- A word of some bytes, the least significant one first. -/
def leWord (bytes : List Byte) : Nat := bytes.foldr (fun b n => b.toNat + 256 * n) 0

/-- The bytes of a 32-bit word. -/
def leBytes (n : Nat) : List Byte :=
  [BitVec.ofNat 8 n, BitVec.ofNat 8 (n / 2 ^ 8), BitVec.ofNat 8 (n / 2 ^ 16),
    BitVec.ofNat 8 (n / 2 ^ 24)]

@[simp] theorem length_leBytes (n : Nat) : (leBytes n).length = 4 := rfl

/-- The value of some bytes is below the power of their number. -/
theorem leWord_lt (bytes : List Byte) : leWord bytes < 256 ^ bytes.length := by
  induction bytes with
  | nil => exact Nat.one_pos
  | cons b bs ih =>
    have hb : b.toNat < 256 := b.isLt
    have hcons : leWord (b :: bs) = b.toNat + 256 * leWord bs := rfl
    rw [hcons, List.length_cons, pow_succ]
    omega

theorem leWord_leBytes (h : n < 2 ^ 32) : leWord (leBytes n) = n := by
  have hword : leWord (leBytes n) =
      n % 2 ^ 8 + 256 * (n / 2 ^ 8 % 2 ^ 8 + 256 * (n / 2 ^ 16 % 2 ^ 8 +
        256 * (n / 2 ^ 24 % 2 ^ 8 + 256 * 0))) := rfl
  rw [hword]
  omega

/-! ### Places -/

/-- The elements of a list with their places, the first of which is the `i`-th. -/
def placed (place : Nat → β) : Nat → List α → List (β × α)
  | _, [] => []
  | i, a :: l => (place i, a) :: placed place (i + 1) l

@[simp] theorem placed_nil (place : Nat → β) (i : Nat) : placed place i ([] : List α) = [] := rfl

@[simp] theorem length_placed (place : Nat → β) (i : Nat) (l : List α) :
    (placed place i l).length = l.length := by
  induction l generalizing i with
  | nil => rfl
  | cons a l ih => exact congrArg (· + 1) (ih (i + 1))

/-- The second list is placed behind the first. -/
theorem placed_append (place : Nat → β) (i : Nat) (l l' : List α) :
    placed place i (l ++ l') = placed place i l ++ placed place (i + l.length) l' := by
  induction l generalizing i with
  | nil => rfl
  | cons a l ih =>
    have hlen : i + 1 + l.length = i + (a :: l).length := by
      rw [List.length_cons]
      omega
    show (place i, a) :: placed place (i + 1) (l ++ l') = _
    rw [ih, hlen]
    rfl

/-- Places that agree on the indices of a list place it alike. -/
theorem placed_congr {place place' : Nat → β} {i' : Nat}
    (h : ∀ j < l.length, place (i + j) = place' (i' + j)) :
    placed place i l = placed place' i' l := by
  induction l generalizing i i' with
  | nil => rfl
  | cons a l ih =>
    have hhead : place i = place' i' := h 0 (Nat.succ_pos _)
    unfold placed
    rw [hhead, ih fun j hj => ?_]
    rw [Nat.add_assoc, Nat.add_assoc, Nat.add_comm 1]
    exact h (j + 1) (Nat.succ_lt_succ hj)

/-- What is placed is at the place of its index. -/
theorem mem_placed {place : Nat → β} {w : β × α} (h : w ∈ placed place i l) :
    ∃ j < l.length, w.1 = place (i + j) := by
  induction l generalizing i with
  | nil => cases h
  | cons a l ih =>
    obtain rfl | h := List.mem_cons.mp h
    · exact ⟨0, Nat.succ_pos _, rfl⟩
    · obtain ⟨j, hj, hw⟩ := ih h
      refine ⟨j + 1, Nat.succ_lt_succ hj, ?_⟩
      rw [hw, Nat.add_assoc, Nat.add_comm 1]

theorem getElem?_placed (place : Nat → β) (i : Nat) (l : List α) (j : Nat) :
    (placed place i l)[j]? = l[j]?.map fun a => (place (i + j), a) := by
  induction l generalizing i j with
  | nil => rfl
  | cons a l ih =>
    cases j with
    | zero => rfl
    | succ j =>
      have hj : i + 1 + j = i + (j + 1) := by omega
      show (placed place (i + 1) l)[j]? = _
      rw [ih, hj]
      rfl

end Qemu.Lib
