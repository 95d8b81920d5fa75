import Qemu.Hw.Onedram

namespace Qemu.Hw

open Qemu.Lib

/-!
# The shared memory of the OneDRAM

What an access does if the memory is the modem's and if it is not.

* `onedramReadShm_eq`, `onedramWriteShm_eq`, `onedramReadPtr_eq`, `onedramWritePtr_eq` — accesses
  inside the shared memory;
* `onedramWriteShm_log` — what any write can have stored.
-/

variable {b : Board} {s : Onedram}

/-- The device while a ring is worked on, with interrupts and writes shut out. -/
def Onedram.shut (s : Onedram) : Onedram := onedramDisableWrite (onedramDisableInterrupt s)

/-! ### Memory -/

/-- An index of a ring. -/
def Onedram.ptr (s : Onedram) (addr : Nat) : Nat :=
  leWord (bytesAt s.mem (onedramSharedBase + addr) 4)

/-- The head of the ring for what comes in. -/
def Onedram.inHead (s : Onedram) : Nat := s.ptr fmtInfo.inHeadAddr

/-- Its tail. -/
def Onedram.inTail (s : Onedram) : Nat := s.ptr fmtInfo.inTailAddr

/-- The head of the ring for what goes out. -/
def Onedram.outHead (s : Onedram) : Nat := s.ptr fmtInfo.outHeadAddr

/-- Its tail. -/
def Onedram.outTail (s : Onedram) : Nat := s.ptr fmtInfo.outTailAddr

/-- Bytes stored in the shared memory. -/
def Onedram.store (s : Onedram) (offset : Nat) (bytes : List Byte) : Onedram :=
  { s with
    mem := storeAt s.mem (onedramSharedBase + offset) bytes
    log := s.log ++ placed id (onedramSharedBase + offset) bytes }

theorem onedramCanAccessShm_eq : onedramCanAccessShm s = false ↔ s.sem ≠ 0 := by
  unfold onedramCanAccessShm
  rw [beq_eq_false_iff_ne]

theorem shared_mod {offset : Nat} (h : offset ≤ onedramSharedSize) :
    (onedramSharedBase + offset) % 2 ^ 32 = onedramSharedBase + offset := by
  apply Nat.mod_eq_of_lt
  unfold onedramSharedSize at h
  unfold onedramSharedBase
  omega

theorem Onedram.ptr_lt (s : Onedram) (addr : Nat) : s.ptr addr < 2 ^ 32 := by
  have h := leWord_lt (bytesAt s.mem (onedramSharedBase + addr) 4)
  rwa [length_bytesAt] at h

/-- A read of shared memory. -/
theorem onedramReadShm_eq (hsem : s.sem = 0) {offset size : Nat} (hsize : 0 < size)
    (h : offset + size ≤ onedramSharedSize) :
    onedramReadShm b s offset size = some (bytesAt s.mem (onedramSharedBase + offset) size) := by
  have hacc : ¬onedramCanAccessShm s = false := fun hn => onedramCanAccessShm_eq.mp hn hsem
  have hsub : ¬sub32 onedramSharedSize offset < size := by
    unfold onedramSharedSize at h
    unfold sub32 onedramSharedSize
    omega
  unfold onedramReadShm
  rw [if_neg hacc, if_neg hsub, shared_mod (by omega), b.shared offset size hsize h]
  rfl

theorem onedramWriteShm_zero (b : Board) (s : Onedram) (buf : List Byte) (offset : Nat) :
    onedramWriteShm b s buf offset 0 = s := by
  unfold onedramWriteShm
  dsimp only
  split_ifs
  · rfl
  · rfl
  · cases b.map ((onedramSharedBase + offset) % 2 ^ 32) 0 with
    | none => rfl
    | some srcLen =>
      show ({ s with mem := _, log := _, overrun := _ } : Onedram) = s
      rw [List.take_zero, List.take_nil, storeAt_nil, placed_nil, List.append_nil, Nat.zero_sub]
      rfl

/-- A write of shared memory. -/
theorem onedramWriteShm_eq (hsem : s.sem = 0) {buf : List Byte} {offset size : Nat}
    (hpos : 0 < size) (hsize : size ≤ onedramInFmtSize) (h : offset + size ≤ onedramSharedSize) :
    onedramWriteShm b s buf offset size = s.store offset (buf.take size) := by
  have hacc : ¬onedramCanAccessShm s = false := fun hn => onedramCanAccessShm_eq.mp hn hsem
  unfold onedramWriteShm
  rw [if_neg hacc, if_neg (Nat.not_lt.mpr hsize), shared_mod (by omega),
    b.shared offset size hpos h]
  show ({ s with mem := _, log := _, overrun := _ } : Onedram) = _
  rw [List.take_take, Nat.min_self, Nat.sub_self]
  rfl

theorem onedramWriteShm_locked (hsem : s.sem ≠ 0) (buf : List Byte) (offset size : Nat) :
    onedramWriteShm b s buf offset size = s :=
  if_pos (onedramCanAccessShm_eq.mpr hsem)

/-- What any write stores: some of the buffer, at the address it was told. -/
theorem onedramWriteShm_log (b : Board) (s : Onedram) (buf : List Byte) (offset size : Nat) :
    ∃ l : List Byte, l.length ≤ size ∧
      (onedramWriteShm b s buf offset size).sem = s.sem ∧
      (onedramWriteShm b s buf offset size).log =
        s.log ++ placed id ((onedramSharedBase + offset) % 2 ^ 32) l := by
  have hnone : s.log = s.log ++ placed id ((onedramSharedBase + offset) % 2 ^ 32) [] :=
    (List.append_nil _).symm
  unfold onedramWriteShm
  dsimp only
  split_ifs
  · exact ⟨[], Nat.zero_le _, rfl, hnone⟩
  · exact ⟨[], Nat.zero_le _, rfl, hnone⟩
  · cases b.map ((onedramSharedBase + offset) % 2 ^ 32) size with
    | none => exact ⟨[], Nat.zero_le _, rfl, hnone⟩
    | some srcLen =>
      refine ⟨(buf.take size).take srcLen, ?_, rfl, rfl⟩
      exact (List.length_take_le' ..).trans (List.length_take_le ..)

theorem onedramReadPtr_eq (hsem : s.sem = 0) {addr : Nat} (h : addr + 4 ≤ onedramSharedSize) :
    onedramReadPtr b s addr = s.ptr addr := by
  have hread : onedramReadShm b s addr fmtInfo.ptrSize = _ :=
    onedramReadShm_eq hsem (by decide) h
  rw [onedramReadPtr, hread]
  rfl

theorem onedramReadPtr_locked (hsem : s.sem ≠ 0) (addr : Nat) : onedramReadPtr b s addr = 0 := by
  have hread : onedramReadShm b s addr fmtInfo.ptrSize = none :=
    if_pos (onedramCanAccessShm_eq.mpr hsem)
  rw [onedramReadPtr, hread]
  rfl

theorem onedramWritePtr_eq (hsem : s.sem = 0) {addr : Nat} (n : Nat)
    (h : addr + 4 ≤ onedramSharedSize) :
    onedramWritePtr b s addr n = s.store addr (leBytes n) := by
  have hwrite : onedramWriteShm b s (leBytes n) addr fmtInfo.ptrSize = _ :=
    onedramWriteShm_eq hsem (by decide) (by decide) h
  rw [onedramWritePtr, hwrite]
  rfl

theorem Onedram.ptr_store (s : Onedram) (addr : Nat) {n : Nat} (hn : n < 2 ^ 32) :
    (s.store addr (leBytes n)).ptr addr = n := by
  have h := bytesAt_storeAt s.mem (onedramSharedBase + addr) (leBytes n)
  rw [Onedram.ptr]
  exact (congrArg leWord h).trans (leWord_leBytes hn)

theorem Onedram.ptr_store_of_disjoint {addr offset : Nat} {bytes : List Byte}
    (h : addr + 4 ≤ offset ∨ offset + bytes.length ≤ addr) :
    (s.store offset bytes).ptr addr = s.ptr addr := by
  refine congrArg leWord (bytesAt_storeAt_of_disjoint ?_)
  omega

/-! ### A small board -/

/-- A board with the shared memory and nothing else. -/
def Board.ram : Board where
  map addr size :=
    if onedramSharedBase ≤ addr ∧ addr + size ≤ onedramSharedBase + onedramSharedSize ∧ 0 < size
    then some size
    else none
  shared offset size hpos h := if_pos ⟨Nat.le_add_right .., by omega, hpos⟩

/-- The device with these indexes of a ring, the head first, and all else zero. -/
def Onedram.indexed (addr head tail : Nat) : Onedram where
  mem := storeAt (fun _ => 0) (onedramSharedBase + addr) (leBytes head ++ leBytes tail)
  log := []
  overrun := 0
  sem := 0
  mbxAb := 0
  checkAb := 0
  irqApPending := false
  interruptable := true
  writable := true
  socketBuffer := fun _ => 0
  socketLen := 0
  sent := []

end Qemu.Hw
