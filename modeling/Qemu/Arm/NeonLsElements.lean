import Qemu.Arm.NeonLsSpec

namespace Qemu.Arm

open Lib

/-!
# What Neon loads and stores of single elements touch

* `elementEvents`, `laneEvents` — what is seen of a round, and of a loop;
* `singleElements_load`, `singleElements_store`, `loadAllLanes_emits` — what the loops do;
* `elementLoaded_and` — an element that is loaded from where it was stored.
-/

/-! ### Rounds -/

/-- What is seen of a round of a single element. -/
def elementEvents (load : Bool) (size rd : Nat) (addr : Word) : List LsEvent :=
  if load then byteEvents addr (2 ^ size) ++ (if size ≠ 2 then [.dreg rd, .dreg rd] else [.dreg rd])
  else .dreg rd :: byteEvents addr (2 ^ size)

/-- What is seen of a round of a load to all lanes. -/
def dupEvents (size rd : Nat) (addr : Word) : List LsEvent :=
  byteEvents addr (2 ^ size) ++ [.dreg rd, .dreg rd]

/-- What is seen of a loop. -/
def laneEvents (round : Nat → Word → List LsEvent) (size stride : Nat) :
    Nat → Nat → Word → List LsEvent
  | 0, _, _ => []
  | n + 1, rd, addr =>
    round rd addr ++ laneEvents round size stride n (rd + stride)
      (addr + BitVec.ofNat 32 (2 ^ size))

/-- The element of a load, in its register. -/
def elementLoaded (size pass shift : Nat) (old : BitVec 64) (tmp : Word) : BitVec 64 :=
  (old &&& ~~~inLane 64 pass (0xffffffff : Word)) ||| inLane 64 pass
    (if size ≠ 2 then genBfi (lane 32 pass old) tmp shift (if size = 0 then 0xff else 0xffff)
      else tmp)

/-- The element of a store. -/
def elementStored (pass shift : Nat) (old : BitVec 64) : BitVec 64 :=
  (lane 32 pass old >>> shift).setWidth 64

/-- The bytes that a loop stores. -/
def elementWrites (val : Nat → BitVec 64) (size stride : Nat) :
    Nat → Nat → Word → List (Word × BitVec 8)
  | 0, _, _ => []
  | n + 1, rd, addr =>
    ((List.range (2 ^ size)).map fun k => (addr + BitVec.ofNat 32 k, lane 8 k (val rd))) ++
      elementWrites val size stride n (rd + stride) (addr + BitVec.ofNat 32 (2 ^ size))

/-- The registers of a loop, after it. -/
structure LsLoaded (val : BitVec 64 → Word → BitVec 64) (size stride n rd : Nat) (addr : Word)
    (s s' : LsState) : Prop where
  regs : s'.regs = s.regs
  mem : s'.mem = s.mem
  other : ∀ r, (∀ j < n, r ≠ rd + stride * j) → s'.vfp r = s.vfp r
  self : ∀ j < n, s'.vfp (rd + stride * j) =
    val (s.vfp (rd + stride * j))
      ((loadLe s.mem (addr + BitVec.ofNat 32 (2 ^ size * j)) (2 ^ size)).setWidth 32)

section

variable {faults : LsFaults} {s : LsState} {size stride pass shift : Nat}

theorem genLd_emits (faults : LsFaults) (size : Nat) (addr : Word) (s : LsState) :
    Faulting.Emits (genLd faults size addr) s (byteEvents addr (2 ^ size))
      fun x s' => x = (loadLe s.mem addr (2 ^ size)).setWidth 32 ∧ s.After s.vfp s.mem s' := by
  refine (ldBytes_emits faults s (2 ^ size) addr).bind_nil fun x s' h => ?_
  obtain ⟨rfl, hafter⟩ := h
  exact Faulting.Emits.pure ⟨rfl, hafter⟩

theorem neonLoadReg_emits (rd pass : Nat) (s : LsState) :
    Faulting.Emits (neonLoadReg rd pass) s [.dreg rd]
      fun x s' => x = lane 32 pass (s.vfp rd) ∧ s' = s := by
  refine (readDreg_emits rd s).bind_nil fun x s' h => ?_
  obtain ⟨rfl, rfl⟩ := h
  exact Faulting.Emits.pure ⟨rfl, rfl⟩

/-- **A round of a load.** -/
theorem singleElement_load (faults : LsFaults) (size pass shift rd : Nat) (addr : Word)
    (s : LsState) :
    Faulting.Emits (singleElement faults true size pass shift rd addr) s
      (elementEvents true size rd addr)
      fun _ s' => s.After (Function.update s.vfp rd (elementLoaded size pass shift (s.vfp rd)
        ((loadLe s.mem addr (2 ^ size)).setWidth 32))) s.mem s' := by
  refine (genLd_emits faults size addr s).bind fun tmp s₁ h => ?_
  obtain ⟨rfl, hregs, hvfp, hmem⟩ := h
  by_cases hsize : size = 2
  · rw [if_neg (not_not.mpr hsize), if_neg (not_not.mpr hsize)]
    refine Faulting.Emits.act ⟨hregs, ?_, hmem⟩
    unfold elementLoaded
    rw [if_neg (not_not.mpr hsize), ← hvfp]
  · rw [if_pos hsize, if_pos hsize]
    rw [← List.append_nil [LsEvent.dreg rd]]
    refine (neonLoadReg_emits rd pass s₁).bind fun tmp2 s₂ h => ?_
    obtain ⟨rfl, rfl⟩ := h
    refine Faulting.Emits.act ⟨hregs, ?_, hmem⟩
    unfold elementLoaded
    rw [if_pos hsize, ← hvfp]

/-- **A round of a store.** -/
theorem singleElement_store (faults : LsFaults) (size pass shift rd : Nat) (addr : Word)
    (s : LsState) :
    Faulting.Emits (singleElement faults false size pass shift rd addr) s
      (elementEvents false size rd addr)
      fun _ s' => s.After s.vfp
        (storeLe s.mem addr (2 ^ size) (elementStored pass shift (s.vfp rd))) s' := by
  refine (neonLoadReg_emits rd pass s).bind fun tmp s₁ h => ?_
  obtain ⟨rfl, rfl⟩ := h
  exact lsAccess_emits faults s₁ addr (2 ^ size) _

/-! ### Loops -/

theorem addr_round (addr : Word) (e j : Nat) :
    addr + BitVec.ofNat 32 e + BitVec.ofNat 32 (e * j) = addr + BitVec.ofNat 32 (e * (j + 1)) := by
  rw [BitVec.add_assoc, ← BitVec.ofNat_add, Nat.mul_succ, Nat.add_comm e]

/-- A loop that loads, from its rounds. -/
theorem LsLoaded.cons {val : BitVec 64 → Word → BitVec 64} {n rd : Nat} {addr : Word}
    {s₁ s' : LsState} (hstride : 0 < stride)
    (h : s.After (Function.update s.vfp rd
      (val (s.vfp rd) ((loadLe s.mem addr (2 ^ size)).setWidth 32))) s.mem s₁)
    (h' : LsLoaded val size stride n (rd + stride) (addr + BitVec.ofNat 32 (2 ^ size)) s₁ s') :
    LsLoaded val size stride (n + 1) rd addr s s' := by
  obtain ⟨hregs, hvfp, hmem⟩ := h
  obtain ⟨hregs', hmem', hother, hself⟩ := h'
  refine ⟨hregs'.trans hregs, hmem'.trans hmem, fun r hr => ?_, fun j hj => ?_⟩
  · have hrd := hr 0 (Nat.succ_pos n)
    rw [hother r fun j hj => by
      have h := hr (j + 1) (Nat.succ_lt_succ hj)
      rw [Nat.mul_succ] at h
      omega, hvfp, Function.update_of_ne (by simpa using hrd)]
  · cases j with
    | zero =>
      rw [Nat.mul_zero, Nat.add_zero, Nat.mul_zero, BitVec.add_zero, hother rd fun j _ => by omega,
        hvfp, Function.update_self]
    | succ j =>
      have hplace : rd + stride + stride * j = rd + stride * (j + 1) := by
        rw [Nat.mul_succ]
        omega
      have hlater := hself j (Nat.lt_of_succ_lt_succ hj)
      rw [hplace, addr_round, hvfp, hmem, Function.update_of_ne (by
        rw [Nat.mul_succ]
        omega)] at hlater
      exact hlater

/-- **The loop of the loads.** -/
theorem singleElements_load (faults : LsFaults) (size pass shift : Nat) (hstride : 0 < stride)
    (n rd : Nat) (addr : Word) (s : LsState) :
    Faulting.Emits (singleElements faults true size pass shift stride n rd addr) s
      (laneEvents (elementEvents true size) size stride n rd addr)
      fun _ s' => LsLoaded (elementLoaded size pass shift) size stride n rd addr s s' := by
  induction n generalizing rd addr s with
  | zero =>
    exact Faulting.Emits.pure
      ⟨rfl, rfl, fun _ _ => rfl, fun _ hj => absurd hj (Nat.not_lt_zero _)⟩
  | succ n ih =>
    refine (singleElement_load faults size pass shift rd addr s).bind fun _ s₁ h => ?_
    exact (ih _ _ s₁).mono fun _ s' h' => .cons hstride h h'

/-- **The loop of the stores.** -/
theorem singleElements_store (faults : LsFaults) (size pass shift stride n rd : Nat) (addr : Word)
    (s : LsState) :
    Faulting.Emits (singleElements faults false size pass shift stride n rd addr) s
      (laneEvents (elementEvents false size) size stride n rd addr)
      fun _ s' => s.After s.vfp (writeAll (elementWrites
        (fun rd => elementStored pass shift (s.vfp rd)) size stride n rd addr) s.mem) s' := by
  induction n generalizing rd addr s with
  | zero => exact Faulting.Emits.pure ⟨rfl, rfl, rfl⟩
  | succ n ih =>
    refine (singleElement_store faults size pass shift rd addr s).bind fun _ s₁ h => ?_
    obtain ⟨hregs, hvfp, hmem⟩ := h
    refine (ih _ _ s₁).mono fun _ s' h' => ?_
    obtain ⟨hregs', hvfp', hmem'⟩ := h'
    refine ⟨hregs'.trans hregs, hvfp'.trans hvfp, ?_⟩
    rw [hmem', hmem, hvfp, elementWrites, writeAll_append]
    rfl

/-- **The loop of the loads to all lanes.** -/
theorem loadAllLanes_emits (faults : LsFaults) (size stride n rd : Nat) (addr : Word)
    (s : LsState) :
    Faulting.Emits (loadAllLanes faults size stride n rd addr) s
      (laneEvents (dupEvents size) size stride n rd addr) fun _ _ => True := by
  induction n generalizing rd addr s with
  | zero => exact Faulting.Emits.pure trivial
  | succ n ih =>
    have hstore : ∀ (rd pass : Nat) (var : Word) (s : LsState),
        Faulting.Emits (neonStoreReg rd pass var) s [.dreg rd] fun _ _ => True :=
      fun _ _ _ _ => Faulting.Emits.act trivial
    rw [laneEvents, dupEvents, List.append_assoc]
    refine (genLd_emits faults size addr s).bind fun tmp s₁ _ => ?_
    refine (hstore rd 0 (genNeonDup size tmp) s₁).bind fun _ s₂ _ => ?_
    exact (hstore rd 1 (genNeonDup size tmp) s₂).bind fun _ s₃ _ => ih _ _ s₃

/-- The registers that are seen. -/
theorem mem_laneEvents {round : Nat → Word → List LsEvent} (size stride : Nat)
    (hround : ∀ rd addr i, LsEvent.dreg i ∈ round rd addr ↔ i = rd) (i n rd : Nat) (addr : Word) :
    LsEvent.dreg i ∈ laneEvents round size stride n rd addr ↔ ∃ j < n, i = rd + stride * j := by
  induction n generalizing rd addr with
  | zero =>
    constructor
    · intro h
      cases h
    · rintro ⟨j, hj, -⟩
      exact absurd hj (Nat.not_lt_zero j)
  | succ n ih =>
    rw [laneEvents, List.mem_append, hround, ih]
    constructor
    · rintro (rfl | ⟨j, hj, rfl⟩)
      · exact ⟨0, Nat.succ_pos n, rfl⟩
      · refine ⟨j + 1, Nat.succ_lt_succ hj, ?_⟩
        rw [Nat.mul_succ]
        omega
    · rintro ⟨j, hj, rfl⟩
      cases j with
      | zero => exact .inl rfl
      | succ j =>
        refine .inr ⟨j, Nat.lt_of_succ_lt_succ hj, ?_⟩
        rw [Nat.mul_succ]
        omega

/-! ### What is stored -/

/-- The bytes of elements that follow each other in memory. -/
theorem elementWrites_fst (val : Nat → BitVec 64) (size stride n rd : Nat) (addr : Word) :
    (elementWrites val size stride n rd addr).map Prod.fst =
      (List.range (2 ^ size * n)).map fun k => addr + BitVec.ofNat 32 k := by
  induction n generalizing rd addr with
  | zero => rfl
  | succ n ih =>
    rw [elementWrites, List.map_append, ih, Nat.mul_succ, Nat.add_comm, List.range_add,
      List.map_append, List.map_map, List.map_map]
    refine congrArg₂ (· ++ ·) rfl (List.map_congr_left fun k _ => ?_)
    dsimp only [Function.comp]
    rw [BitVec.add_assoc, ← BitVec.ofNat_add]

/-- Every byte of an element goes to its place. -/
theorem mem_elementWrites (val : Nat → BitVec 64) (size stride : Nat) {n j k : Nat} (rd : Nat)
    (addr : Word) (hj : j < n) (hk : k < 2 ^ size) :
    (addr + BitVec.ofNat 32 (2 ^ size * j) + BitVec.ofNat 32 k, lane 8 k (val (rd + stride * j))) ∈
      elementWrites val size stride n rd addr := by
  induction n generalizing j rd addr with
  | zero => exact absurd hj (Nat.not_lt_zero j)
  | succ n ih =>
    rw [elementWrites, List.mem_append]
    cases j with
    | zero =>
      refine .inl (List.mem_map.mpr ⟨k, List.mem_range.mpr hk, ?_⟩)
      rw [Nat.mul_zero, BitVec.add_zero, Nat.mul_zero, Nat.add_zero]
    | succ j =>
      have hplace : rd + stride + stride * j = rd + stride * (j + 1) := by
        rw [Nat.mul_succ]
        omega
      have hlater := ih (rd + stride) (addr + BitVec.ofNat 32 (2 ^ size))
        (Nat.lt_of_succ_lt_succ hj)
      rw [hplace, addr_round] at hlater
      exact .inr hlater

/-- **An element is read back.** -/
theorem loadLe_elementWrites (val : Nat → BitVec 64) {size stride n j : Nat} (rd : Nat)
    (addr : Word)
    (mem : Word → BitVec 8) (hfar : 2 ^ size * n ≤ 2 ^ 32) (hj : j < n) :
    loadLe (writeAll (elementWrites val size stride n rd addr) mem)
        (addr + BitVec.ofNat 32 (2 ^ size * j)) (2 ^ size) =
      ofLanes 64 ((List.range (2 ^ size)).map fun k => (k, lane 8 k (val (rd + stride * j)))) := by
  have hnodup : ((elementWrites val size stride n rd addr).map Prod.fst).Nodup := by
    rw [elementWrites_fst]
    refine addr_nodup addr List.nodup_range fun k hk => ?_
    exact (List.mem_range.mp hk).trans_le hfar
  unfold loadLe
  refine congrArg (ofLanes 64) (List.map_congr_left fun k hk => ?_)
  rw [writeAll_mem hnodup mem
    (mem_elementWrites val size stride rd addr hj (List.mem_range.mp hk))]

/-! ### What is loaded -/

/-- The bits of an element. -/
def elementMask (size pass shift : Nat) : BitVec 64 :=
  BitVec.ofNat 64 (2 ^ (8 * 2 ^ size) - 1) <<< (pass * 32 + shift)

/-- The bits of an element in its register. -/
theorem getLsbD_elementMask (size pass shift : Nat) (b : Nat) :
    (elementMask size pass shift).getLsbD b =
      (decide (b < 64) && decide (pass * 32 + shift ≤ b) &&
        decide (b < pass * 32 + shift + 8 * 2 ^ size)) := by
  rw [elementMask, BitVec.getLsbD_shiftLeft, BitVec.getLsbD_ofNat, Nat.testBit_two_pow_sub_one]
  by_cases h : pass * 32 + shift ≤ b
  · simp only [h]
    by_cases hb : b < 64
    · simp [hb, show ¬b < pass * 32 + shift by omega, show b - (pass * 32 + shift) < 64 by omega]
      omega
    · simp [hb]
  · simp [h, show b < pass * 32 + shift by omega]

/-- The lanes of an instruction: an element is in its half of the register. -/
structure LsLane (size pass shift : Nat) : Prop where
  size_le : size ≤ 2
  pass_lt : pass < 2
  within : shift + 8 * 2 ^ size ≤ 32

theorem getLsbD_bfiMask {size d : Nat} (hsize : size < 2) (hd : d < 8 * 2 ^ size) :
    (if size = 0 then (0xff : Word) else 0xffff).getLsbD d = true := by
  interval_cases size
  · show (BitVec.ofNat 32 (2 ^ 8 - 1)).getLsbD d = true
    rw [BitVec.getLsbD_ofNat, Nat.testBit_two_pow_sub_one]
    simp
    omega
  · show (BitVec.ofNat 32 (2 ^ 16 - 1)).getLsbD d = true
    rw [BitVec.getLsbD_ofNat, Nat.testBit_two_pow_sub_one]
    simp
    omega

/-- A bit of a number that was stored. -/
theorem getLsbD_ofLanes_bytes (x : BitVec 64) {n d : Nat} (hn : n ≤ 8) (hd : d < 8 * n) :
    (ofLanes 64 ((List.range n).map fun k => (k, lane 8 k x))).getLsbD d = x.getLsbD d := by
  have hlane : lane 8 (d / 8) (ofLanes 64 ((List.range n).map fun k => (k, lane 8 k x))) =
      lane 8 (d / 8) x := by
    rw [lane_ofLanes, lookup_map_self, if_pos (List.mem_range.mpr (by omega))]
    · rfl
    · intro p hp
      obtain ⟨k, hk, rfl⟩ := List.mem_map.mp hp
      have hk := List.mem_range.mp hk
      dsimp only
      omega
    · have hfst : ((List.range n).map fun k => (k, lane 8 k x)).map Prod.fst = List.range n := by
        rw [List.map_map]
        exact List.map_id _
      rw [hfst]
      exact List.nodup_range
  have hbit := congrArg (fun y => y.getLsbD (d % 8)) hlane
  simp only [getLsbD_lane, Nat.div_add_mod', Nat.mod_lt d (show 8 > 0 by decide), decide_true,
    Bool.true_and] at hbit
  exact hbit

/-- **An element that is stored and loaded again** is the same. -/
theorem elementLoaded_and {size pass shift : Nat} (h : LsLane size pass shift)
    (old x : BitVec 64) :
    elementLoaded size pass shift old ((ofLanes 64 ((List.range (2 ^ size)).map fun k =>
        (k, lane 8 k (elementStored pass shift x)))).setWidth 32) &&& elementMask size pass shift =
      x &&& elementMask size pass shift := by
  obtain ⟨hsize, hpass, hwithin⟩ := h
  have hbytes : 2 ^ size ≤ 2 ^ 2 := Nat.pow_le_pow_right (by decide) hsize
  apply BitVec.eq_of_getLsbD_eq
  intro b hb
  rw [BitVec.getLsbD_and, BitVec.getLsbD_and, getLsbD_elementMask]
  by_cases hmask : pass * 32 + shift ≤ b ∧ b < pass * 32 + shift + 8 * 2 ^ size
  swap
  · rw [decide_eq_true hb, Bool.true_and, ← Bool.decide_and, decide_eq_false hmask, Bool.and_false,
      Bool.and_false]
  congr 1
  obtain ⟨d, rfl⟩ := Nat.exists_eq_add_of_le hmask.1
  have hd : d < 8 * 2 ^ size := by omega
  -- the bit of the element, from memory
  have hloaded : ((ofLanes 64 ((List.range (2 ^ size)).map fun k =>
      (k, lane 8 k (elementStored pass shift x)))).setWidth 32).getLsbD d =
        x.getLsbD (pass * 32 + shift + d) := by
    rw [BitVec.getLsbD_setWidth, getLsbD_ofLanes_bytes _ (by omega) hd, elementStored,
      BitVec.getLsbD_setWidth, BitVec.getLsbD_ushiftRight, getLsbD_lane, Nat.add_assoc]
    simp [show d < 32 by omega, show d < 64 by omega, show shift + d < 32 by omega]
  generalize (ofLanes 64 ((List.range (2 ^ size)).map fun k =>
      (k, lane 8 k (elementStored pass shift x)))).setWidth 32 = tmp at *
  have hones : (0xffffffff : Word).getLsbD (shift + d) = true := by
    show (BitVec.ofNat 32 (2 ^ 32 - 1)).getLsbD (shift + d) = true
    rw [BitVec.getLsbD_ofNat, Nat.testBit_two_pow_sub_one]
    simp
    omega
  have hplace : pass * 32 + shift + d - pass * 32 = shift + d := by omega
  have hge : ¬pass * 32 + shift + d < pass * 32 := by omega
  -- the bit of the half
  have hhalf : (if size ≠ 2 then
      genBfi (lane 32 pass old) tmp shift (if size = 0 then 0xff else 0xffff) else tmp).getLsbD
        (shift + d) = tmp.getLsbD d := by
    by_cases hword : size = 2
    · subst hword
      obtain rfl : shift = 0 := by omega
      rw [if_neg (not_not.mpr rfl), Nat.zero_add]
    · have hbfi := getLsbD_bfiMask (show size < 2 by omega) hd
      have hin : shift + d < 32 := by omega
      have hnot : ¬shift + d < shift := by omega
      rw [if_pos hword, genBfi, BitVec.getLsbD_or, BitVec.getLsbD_and, BitVec.getLsbD_not,
        BitVec.getLsbD_shiftLeft, BitVec.getLsbD_shiftLeft, BitVec.getLsbD_and,
        Nat.add_sub_cancel_left, hbfi]
      simp only [decide_eq_true hin, decide_eq_false hnot, Bool.not_true, Bool.not_false,
        Bool.and_true, Bool.true_and, Bool.and_false, Bool.false_or]
  rw [← hloaded, elementLoaded, BitVec.getLsbD_or, BitVec.getLsbD_and, BitVec.getLsbD_not,
    getLsbD_inLane, getLsbD_inLane, hplace, hones, hhalf]
  simp only [decide_eq_true hb, decide_eq_false hge, Bool.not_true, Bool.not_false, Bool.and_true,
    Bool.true_and, Bool.and_false, Bool.false_or]

/-- **Elements are restored** by a load after a store. -/
theorem LsLoaded.restores {n rd j : Nat} {addr : Word} {s₁ s' s₂ : LsState}
    (hlane : LsLane size pass shift) (hn : n ≤ 4)
    (hstore : s.After s.vfp (writeAll (elementWrites
      (fun rd => elementStored pass shift (s.vfp rd)) size stride n rd addr) s.mem) s₁)
    (hmem : s'.mem = s₁.mem)
    (hload : LsLoaded (elementLoaded size pass shift) size stride n rd addr s' s₂) (hj : j < n) :
    s₂.vfp (rd + stride * j) &&& elementMask size pass shift =
      s.vfp (rd + stride * j) &&& elementMask size pass shift := by
  have hbytes : 2 ^ size ≤ 2 ^ 2 := Nat.pow_le_pow_right (by decide) hlane.size_le
  have hfar : 2 ^ size * n ≤ 2 ^ 32 := (Nat.mul_le_mul hbytes hn).trans (by decide)
  rw [hload.self j hj, hmem, hstore.mem, loadLe_elementWrites _ rd addr s.mem hfar hj]
  exact elementLoaded_and hlane _ _

end

end Qemu.Arm
