import Qemu.Lib.Bytes

namespace Qemu.Lib

/-!
# Big-endian words in memory

Words are read at an address, the most significant byte first.

* `be32At`, `be64At` — the words;
* `be32At_of_bytes`, `be64At_of_bytes` — a word whose bytes are there is read.
-/

/-- The 32-bit word at an address. -/
def be32At (mem : Nat → Byte) (addr : Nat) : BitVec 32 :=
  be32 (mem addr) (mem (addr + 1)) (mem (addr + 2)) (mem (addr + 3))

/-- The 64-bit word at an address. -/
def be64At (mem : Nat → Byte) (addr : Nat) : BitVec 64 :=
  be64 (be32At mem addr) (be32At mem (addr + 4))

section

variable {mem mem' : Nat → Byte} {addr addr' : Nat}

theorem be32At_congr (h : ∀ i < 4, mem (addr + i) = mem' (addr' + i)) :
    be32At mem addr = be32At mem' addr' := by
  have h₀ := h 0 (by decide)
  have h₁ := h 1 (by decide)
  have h₂ := h 2 (by decide)
  have h₃ := h 3 (by decide)
  rw [Nat.add_zero, Nat.add_zero] at h₀
  unfold be32At
  rw [h₀, h₁, h₂, h₃]

theorem be64At_congr (h : ∀ i < 8, mem (addr + i) = mem' (addr' + i)) :
    be64At mem addr = be64At mem' addr' := by
  have hhi : be32At mem addr = be32At mem' addr' := be32At_congr fun i hi => h i (by omega)
  have hlo : be32At mem (addr + 4) = be32At mem' (addr' + 4) := by
    apply be32At_congr
    intro i hi
    rw [Nat.add_assoc, Nat.add_assoc]
    exact h (4 + i) (by omega)
  unfold be64At
  rw [hhi, hlo]

end

/-! ### What was stored -/

@[simp] theorem length_putBe32 (v : BitVec 32) : (putBe32 v).length = 4 := rfl

@[simp] theorem length_putBe64 (v : BitVec 64) : (putBe64 v).length = 8 := rfl

section

variable {mem : Nat → Byte} {addr : Nat}

/-- A word that was stored is read back. -/
theorem be32At_of_bytes {v : BitVec 32} (h : bytesAt mem addr 4 = putBe32 v) :
    be32At mem addr = v := by
  have h₀ : mem addr = (v >>> 24).setWidth 8 := List.head_eq_of_cons_eq h
  replace h := List.tail_eq_of_cons_eq h
  have h₁ : mem (addr + 1) = (v >>> 16).setWidth 8 := List.head_eq_of_cons_eq h
  replace h := List.tail_eq_of_cons_eq h
  have h₂ : mem (addr + 2) = (v >>> 8).setWidth 8 := List.head_eq_of_cons_eq h
  have h₃ : mem (addr + 3) = v.setWidth 8 := List.head_eq_of_cons_eq (List.tail_eq_of_cons_eq h)
  unfold be32At
  rw [h₀, h₁, h₂, h₃]
  exact be32_bytes v

theorem be64At_of_bytes {v : BitVec 64} (h : bytesAt mem addr 8 = putBe64 v) :
    be64At mem addr = v := by
  have hsplit : bytesAt mem addr 4 ++ bytesAt mem (addr + 4) 4 =
      putBe32 ((v >>> 32).setWidth 32) ++ putBe32 (v.setWidth 32) :=
    (bytesAt_add mem addr 4 4).symm.trans h
  obtain ⟨hhi, hlo⟩ := List.append_inj hsplit (by simp)
  unfold be64At
  rw [be32At_of_bytes hhi, be32At_of_bytes hlo, be64_words]

end

end Qemu.Lib
