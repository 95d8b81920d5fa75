import Qemu.Lib.Stream
import Mathlib.Data.List.GetD
import Mathlib.Data.BitVec

namespace Qemu.Lib

/-!
# Memory with addresses of a machine word

A memory is a function of addresses of `w` bits, which go around: behind the last address comes
zero.

* `memBytes` — what memory holds from an address on;
* `memStore` — memory with a list stored at an address;
* `memStore_append`, `memStore_other` — two stores in a row, and what a store leaves.
-/

variable {w : Nat} {α : Type*}

/-- What memory holds from an address on. -/
def memBytes (mem : BitVec w → α) (addr : BitVec w) (size : Nat) : List α :=
  (List.range size).map fun i => mem (addr + BitVec.ofNat w i)

/-- Memory with a list stored at an address. -/
def memStore (mem : BitVec w → α) (addr : BitVec w) (l : List α) : BitVec w → α := fun a =>
  l.getD (a - addr).toNat (mem a)

@[simp] theorem length_memBytes (mem : BitVec w → α) (addr : BitVec w) (size : Nat) :
    (memBytes mem addr size).length = size := by
  simp [memBytes]

/-- The bytes are those of the memory, at addresses that may wrap. -/
theorem getElem?_memBytes (mem : BitVec w → α) (addr : BitVec w) {size i : Nat} (hi : i < size) :
    (memBytes mem addr size)[i]? = some (mem (addr + BitVec.ofNat w i)) := by
  rw [memBytes, List.getElem?_map, List.getElem?_range hi]
  rfl

theorem memBytes_add (mem : BitVec w → α) (addr : BitVec w) (m n : Nat) :
    memBytes mem addr (m + n) =
      memBytes mem addr m ++ memBytes mem (addr + BitVec.ofNat w m) n := by
  unfold memBytes
  rw [List.range_add, List.map_append, List.map_map]
  simp only [Function.comp_def, BitVec.ofNat_add, BitVec.add_assoc]

theorem memBytes_succ (mem : BitVec w → α) (addr : BitVec w) (n : Nat) :
    memBytes mem addr (n + 1) = mem addr :: memBytes mem (addr + 1) n := by
  rw [Nat.add_comm, memBytes_add]
  simp [memBytes]

/-- The distance of an address from a later one. -/
theorem toNat_sub_ofNat (a b : BitVec w) {m : Nat} (hm : m < 2 ^ w) :
    (a - (b + BitVec.ofNat w m)).toNat =
      if m ≤ (a - b).toNat then (a - b).toNat - m else (a - b).toNat + 2 ^ w - m := by
  have hlt := (a - b).isLt
  have hsub : a - (b + BitVec.ofNat w m) = a - b - BitVec.ofNat w m := by
    rw [BitVec.sub_sub]
  rw [hsub, BitVec.toNat_sub, BitVec.toNat_ofNat, Nat.mod_eq_of_lt hm]
  split_ifs with hle
  · have hround : 2 ^ w - m + (a - b).toNat = (a - b).toNat - m + 2 ^ w := by omega
    rw [hround, Nat.add_mod_right]
    exact Nat.mod_eq_of_lt (by omega)
  · have hsum : 2 ^ w - m + (a - b).toNat = (a - b).toNat + 2 ^ w - m := by omega
    rw [hsum]
    exact Nat.mod_eq_of_lt (by omega)

theorem memStore_nil (mem : BitVec w → α) (addr : BitVec w) : memStore mem addr [] = mem :=
  rfl

/-- Behind its end a store changes nothing, up to its start. -/
theorem memStore_other {mem : BitVec w → α} {addr a : BitVec w} {l : List α}
    (h : l.length ≤ (a - addr).toNat) : memStore mem addr l a = mem a := by
  rw [memStore, List.getD_eq_default _ _ h]

theorem memStore_at {mem : BitVec w → α} {addr a : BitVec w} {l : List α}
    (h : (a - addr).toNat < l.length) : memStore mem addr l a = l[(a - addr).toNat] :=
  List.getD_eq_getElem _ _ h

/-- Two stores in a row. -/
theorem memStore_append {mem : BitVec w → α} {addr : BitVec w} {xs ys : List α}
    (h : xs.length + ys.length ≤ 2 ^ w) :
    memStore (memStore mem addr xs) (addr + BitVec.ofNat w xs.length) ys =
      memStore mem addr (xs ++ ys) := by
  cases ys with
  | nil => rw [List.append_nil, memStore_nil]
  | cons y ys =>
    rw [List.length_cons] at h
    funext a
    have hlt := (a - addr).isLt
    have hdist := toNat_sub_ofNat a addr (m := xs.length) (by omega)
    by_cases hle : xs.length ≤ (a - addr).toNat
    · rw [if_pos hle] at hdist
      simp only [memStore]
      rw [hdist, List.getD_append_right _ _ _ _ hle, List.getD_eq_default xs _ hle]
    · rw [if_neg hle] at hdist
      rw [memStore_other (by rw [hdist, List.length_cons]; omega)]
      simp only [memStore]
      rw [List.getD_append _ _ _ _ (Nat.lt_of_not_le hle)]

end Qemu.Lib
