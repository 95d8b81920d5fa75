import Qemu.Lib.Bytes

namespace Qemu.Block

open Lib

/-!
# Requests of the host

What `bdrv_pread` and `bdrv_pwrite` do with an image file, where each request may fail behind some
bytes, and places of the file that have no byte in common.
-/

/-- How a request of the host ends: well, or after some bytes. -/
abbrev HostFault := Option (List Byte)

/-- `bdrv_pwrite` of the image file.  After a failure the place holds anything. -/
def hostWrite (hd : Nat → Byte) (offset : Nat) (buf : List Byte) : HostFault → Nat → Byte
  | none => storeAt hd offset buf
  | some left => storeAt hd offset (left.take buf.length)

/-- The buffer after `bdrv_pread` of the image file.  After a failure it holds anything. -/
def hostRead (hd : Nat → Byte) (offset size : Nat) (buf : Nat → Byte) : HostFault → Nat → Byte
  | none => storeAt buf 0 (bytesAt hd offset size)
  | some left => storeAt buf 0 (left.take size)

/-- What others write. -/
def hostWrites (hd : Nat → Byte) (writes : List (Nat × List Byte)) : Nat → Byte :=
  writes.foldl (fun hd w => storeAt hd w.1 w.2) hd

/-- Two places have no byte in common. -/
def Apart (a n b m : Nat) : Prop := a + n ≤ b ∨ b + m ≤ a

section

variable {hd : Nat → Byte} {a n j : Nat}

/-- A write elsewhere leaves these bytes. -/
theorem hostWrite_apart {offset : Nat} {buf : List Byte} (h : Apart a n offset buf.length)
    (hj : j < n) (fault : HostFault) : hostWrite hd offset buf fault (a + j) = hd (a + j) := by
  have hstore : ∀ l : List Byte, l.length ≤ buf.length →
      storeAt hd offset l (a + j) = hd (a + j) := by
    intro l hl
    rcases h with h | h
    · exact storeAt_of_lt (by omega)
    · exact storeAt_of_le (by omega)
  cases fault with
  | none => exact hstore buf le_rfl
  | some left => exact hstore _ (List.length_take_le _ _)

theorem hostWrites_apart {writes : List (Nat × List Byte)}
    (h : ∀ w ∈ writes, Apart a n w.1 w.2.length) (hj : j < n) :
    hostWrites hd writes (a + j) = hd (a + j) := by
  induction writes generalizing hd with
  | nil => rfl
  | cons w writes ih =>
    obtain ⟨hw, hrest⟩ := List.forall_mem_cons.mp h
    exact (ih hrest).trans (hostWrite_apart hw hj none)

theorem apart_of_ne {c a b : Nat} (ha : c ∣ a) (hb : c ∣ b) (h : a ≠ b) : Apart a c b c := by
  obtain ⟨x, rfl⟩ := ha
  obtain ⟨y, rfl⟩ := hb
  rcases Nat.lt_or_gt_of_ne h with hlt | hgt
  · left
    rw [← Nat.mul_succ]
    exact Nat.mul_le_mul_left c (lt_of_mul_lt_mul_left hlt (Nat.zero_le c))
  · right
    rw [← Nat.mul_succ]
    exact Nat.mul_le_mul_left c (lt_of_mul_lt_mul_left hgt (Nat.zero_le c))

theorem Apart.inside {b m b' m' : Nat} (h : Apart a n b m) (hle : b ≤ b') (hm : b' + m' ≤ b + m) :
    Apart a n b' m' := by
  rcases h with h | h
  · exact Or.inl (by omega)
  · exact Or.inr (by omega)

end

end Qemu.Block
