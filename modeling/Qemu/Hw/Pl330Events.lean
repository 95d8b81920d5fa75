import Qemu.Lib.Runs
import Qemu.Lib.Stream

namespace Qemu.Hw

open Lib

/-!
# The events of the DMA controller (`pl330.c`)

A thread signals an event with `DMASEV`.  If the guest has enabled it, an interrupt is raised, which
the guest clears with a write to `INTCLR`.

* `pl330Dmasev`, `pl330WriteIntclr` — the functions;
* `Pl330Events.Levels` — every line has the level that the status says;
* `pl330_levels_iff` — runs: only interrupts that are still enabled may be cleared.
-/

/-- The faults that `pl330_dmasev` raises. -/
def pl330FaultOperandInvalid : BitVec 32 := 1 <<< 1

/-- `PL330_FAULT_EVENT_ER` -/
def pl330FaultEventEr : BitVec 32 := 1 <<< 5

/-- The part of `pl330_state` for events, with the levels of the lines. -/
structure Pl330Events where
  cfg0 : BitVec 32
  cfg3 : BitVec 32
  inten : BitVec 32
  intStatus : BitVec 32
  evStatus : BitVec 32
  irq : Nat → Bool

/-- `event_num` -/
def Pl330Events.eventNum (s : Pl330Events) : Nat := (s.cfg0 >>> 17 &&& 0x1f).toNat + 1

/-- The state after `pl330_init1`, with all lines low. -/
def pl330EventsInit (cfg0 cfg3 : BitVec 32) : Pl330Events :=
  { cfg0, cfg3, inten := 0, intStatus := 0, evStatus := 0, irq := fun _ => false }

/-- `pl330_dmasev`, by a thread with this `ns`: the flags of a fault, or the state. -/
def pl330Dmasev (s : Pl330Events) (ns : Byte) (arg : Byte) : Except (BitVec 32) Pl330Events :=
  if arg &&& 7 ≠ 0 then .error pl330FaultOperandInvalid
  else
    let evId := (arg >>> 3 &&& 0x1f).toNat
    if s.eventNum ≤ evId then .error pl330FaultOperandInvalid
    else if ((s.cfg3 &&& BitVec.twoPow 32 evId) >>> evId).toNat < ns.toNat then
      .error pl330FaultEventEr
    else if s.inten &&& BitVec.twoPow 32 evId ≠ 0 then
      .ok { s with
        intStatus := s.intStatus ||| BitVec.twoPow 32 evId
        irq := Function.update s.irq evId true }
    else .ok { s with evStatus := s.evStatus ||| BitVec.twoPow 32 evId }

/-- The case of `PL330_REG_INTCLR` in `pl330_iomem_write`. -/
def pl330WriteIntclr (s : Pl330Events) (value : BitVec 32) : Pl330Events :=
  { s with
    irq := fun i =>
      if i < s.eventNum ∧ s.intStatus &&& s.inten &&& value &&& BitVec.twoPow 32 i ≠ 0 then false
      else s.irq i
    intStatus := s.intStatus &&& ~~~value }

/-- A `DMASEV` instruction, or a write to `INTEN` or `INTCLR`. -/
inductive Pl330EventOp where
  | dmasev (ns : Byte) (arg : Byte)
  | writeInten (value : BitVec 32)
  | writeIntclr (value : BitVec 32)

/-- A `DMASEV` that faults leaves the events alone. -/
def Pl330EventOp.exec (s : Pl330Events) : Pl330EventOp → Pl330Events
  | .dmasev ns arg => (pl330Dmasev s ns arg).toOption.getD s
  | .writeInten value => { s with inten := value }
  | .writeIntclr value => pl330WriteIntclr s value

/-- Every line is high if and only if its bit of the status is set. -/
def Pl330Events.Levels (s : Pl330Events) : Prop :=
  ∀ i < s.eventNum, s.irq i = s.intStatus.getLsbD i

/-- What is cleared is still enabled. -/
def Pl330EventOp.ClearsEnabled (s : Pl330Events) : Pl330EventOp → Prop
  | .writeIntclr value => s.intStatus &&& value &&& ~~~s.inten = 0
  | _ => True

/-! ### One step -/

theorem and_twoPow_ne_zero_iff {x : BitVec 32} {i : Nat} :
    x &&& BitVec.twoPow 32 i ≠ 0 ↔ x.getLsbD i = true := by
  rw [BitVec.and_twoPow]
  split
  · rename_i hbit
    refine iff_of_true (fun h => ?_) hbit
    have hzero := congrArg (fun y => BitVec.getLsbD y i) h
    simp [BitVec.lt_of_getLsbD hbit] at hzero
  · simp_all

theorem Pl330Events.eventNum_le (s : Pl330Events) : s.eventNum ≤ 32 := by
  have hmask : (s.cfg0 >>> 17 &&& 0x1f).toNat ≤ 0x1f := by
    rw [BitVec.toNat_and]
    exact Nat.and_le_right
  unfold Pl330Events.eventNum
  omega

/-- The status has bits for events only, and the lines follow it. -/
structure Pl330Events.Inv (s : Pl330Events) : Prop where
  levels : s.Levels
  bits : ∀ i, s.eventNum ≤ i → s.intStatus.getLsbD i = false

section

variable {s : Pl330Events}

/-- The line and the bit are set together. -/
theorem Pl330Events.Inv.raise (h : s.Inv) {evId : Nat} (hev : evId < s.eventNum) :
    ({ s with
        intStatus := s.intStatus ||| BitVec.twoPow 32 evId
        irq := Function.update s.irq evId true } : Pl330Events).Inv := by
  constructor
  · intro i hi
    have hlevel := h.levels i hi
    by_cases hie : i = evId
    · subst hie
      simp [lt_of_lt_of_le hev s.eventNum_le]
    · simp [hie, Ne.symm hie, hlevel, BitVec.getLsbD_twoPow]
  · intro i hi
    have hne : evId ≠ i := by
      change s.eventNum ≤ i at hi
      omega
    simp [h.bits i hi, BitVec.getLsbD_twoPow, hne]

theorem Pl330Events.Inv.dmasev (h : s.Inv) {ns arg : Byte} {s' : Pl330Events}
    (hs' : pl330Dmasev s ns arg = .ok s') : s'.Inv := by
  unfold pl330Dmasev at hs'
  dsimp only at hs'
  split_ifs at hs' with h₁ hev h₃ h₄
  · obtain rfl := Except.ok.inj hs'
    exact h.raise (Nat.not_le.mp hev)
  · obtain rfl := Except.ok.inj hs'
    exact ⟨h.levels, h.bits⟩

theorem pl330WriteIntclr_irq (s : Pl330Events) (value : BitVec 32) {i : Nat}
    (hi : i < s.eventNum) :
    (pl330WriteIntclr s value).irq i =
      (s.irq i && !(s.intStatus.getLsbD i && s.inten.getLsbD i && value.getLsbD i)) := by
  simp only [pl330WriteIntclr, hi, true_and, and_twoPow_ne_zero_iff, BitVec.getLsbD_and]
  cases s.intStatus.getLsbD i && s.inten.getLsbD i && value.getLsbD i <;> simp

theorem Pl330Events.Inv.intclr (h : s.Inv) {value : BitVec 32}
    (hclear : s.intStatus &&& value &&& ~~~s.inten = 0) : (pl330WriteIntclr s value).Inv := by
  constructor
  · intro i hi
    have hbit := congrArg (fun x => BitVec.getLsbD x i) hclear
    have hlt : i < 32 := lt_of_lt_of_le hi s.eventNum_le
    rw [pl330WriteIntclr_irq s value hi, h.levels i hi]
    simp only [BitVec.getLsbD_and, BitVec.getLsbD_not, hlt, decide_true, Bool.true_and,
      BitVec.getLsbD_zero, BitVec.ofNat_eq_ofNat, pl330WriteIntclr] at hbit ⊢
    revert hbit
    cases s.intStatus.getLsbD i <;> cases s.inten.getLsbD i <;> cases value.getLsbD i <;> simp
  · intro i hi
    simp [pl330WriteIntclr, h.bits i hi]

/-- An interrupt that is cleared once it is disabled keeps its line high. -/
theorem Pl330Events.Inv.intclr_breaks (h : s.Inv) {value : BitVec 32}
    (hclear : s.intStatus &&& value &&& ~~~s.inten ≠ 0) :
    ¬(pl330WriteIntclr s value).Levels := by
  intro hlevels
  apply hclear
  apply BitVec.eq_of_getLsbD_eq
  intro i hlt
  simp only [BitVec.getLsbD_and, BitVec.getLsbD_not, hlt, decide_true, Bool.true_and,
    BitVec.getLsbD_zero, BitVec.ofNat_eq_ofNat]
  by_cases hi : i < s.eventNum
  · have hlevel := hlevels i hi
    rw [pl330WriteIntclr_irq s value hi, h.levels i hi] at hlevel
    simp only [BitVec.getLsbD_and, BitVec.getLsbD_not, hlt, decide_true, Bool.true_and,
      pl330WriteIntclr] at hlevel
    revert hlevel
    cases s.intStatus.getLsbD i <;> cases s.inten.getLsbD i <;> cases value.getLsbD i <;> simp
  · rw [h.bits i (Nat.not_lt.mp hi), Bool.false_and, Bool.false_and]

theorem Pl330Events.Inv.exec (h : s.Inv) {op : Pl330EventOp} (hop : op.ClearsEnabled s) :
    (op.exec s).Inv := by
  cases op with
  | dmasev ns arg =>
    simp only [Pl330EventOp.exec]
    cases hs' : pl330Dmasev s ns arg with
    | error flags => exact h
    | ok s' => exact h.dmasev hs'
  | writeInten value => exact ⟨h.levels, h.bits⟩
  | writeIntclr value => exact h.intclr hop

theorem Pl330Events.Inv.breaks (h : s.Inv) {op : Pl330EventOp} (hop : ¬op.ClearsEnabled s) :
    ¬(op.exec s).Levels := by
  cases op with
  | dmasev ns arg => exact absurd trivial hop
  | writeInten value => exact absurd trivial hop
  | writeIntclr value => exact h.intclr_breaks hop

end

/-! ### Runs -/

theorem pl330EventsInit_inv (cfg0 cfg3 : BitVec 32) : (pl330EventsInit cfg0 cfg3).Inv where
  levels i _ := by simp [pl330EventsInit]
  bits i _ := by simp [pl330EventsInit]

/-- **Interrupts.**  All along a run every line has the level of its bit of the status, exactly if
no bit is cleared that has been disabled. -/
theorem pl330_levels_iff (cfg0 cfg3 : BitVec 32) (ops : List Pl330EventOp) :
    (∀ n, ((ops.take n).foldl Pl330EventOp.exec (pl330EventsInit cfg0 cfg3)).Levels) ↔
      StepsMeet (fun s op => some (Pl330EventOp.exec s op)) (fun s op => op.ClearsEnabled s)
        (pl330EventsInit cfg0 cfg3) ops :=
  foldl_all_iff (I := Pl330Events.Inv) (fun _ h => h.levels) (fun _ _ h hop => h.exec hop)
    (fun _ _ h hop => h.breaks hop) (pl330EventsInit_inv cfg0 cfg3) ops

/-- The first event is signalled while it is enabled, and cleared when it is disabled. -/
theorem pl330_levels_disabled :
    let s := [.writeInten 1, .dmasev 0 0, .writeInten 0, .writeIntclr 1].foldl Pl330EventOp.exec
      (pl330EventsInit 0 0)
    0 < s.eventNum ∧ s.irq 0 = true ∧ s.intStatus.getLsbD 0 = false := by
  decide

end Qemu.Hw
