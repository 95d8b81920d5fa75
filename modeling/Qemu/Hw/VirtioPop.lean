import Qemu.Hw.Virtio

namespace Qemu.Hw

open Lib

/-!
# Which chains fit into an element

The check for too many descriptors stands behind the stores, and compares with the length of the
table the chain is in: `virtqueue_pop` always ends, but a chain may use more elements of an array
than there are.

* `chainDirections` — the descriptors that the loop comes to, by their directions.
* `virtqueuePop_ends` — the stores are inside of the arrays if and only if there are at most
  `VIRTQUEUE_MAX_SIZE` of each direction.
-/

section

variable {w : Nat} {σ π : Type} (mem : GuestMemory w)
  (cpuPhysicalMemoryMap : σ → BitVec w → Nat → Bool → Option (IoVec π) × σ)

/-- The first `fuel` descriptors of a chain, as far as each is mapped and chained on. -/
def chainDirections (descPa : BitVec w) (max : Nat) : Nat → Nat → σ → List Bool
  | 0, _, _ => []
  | fuel + 1, i, st =>
    descHas mem VRING_DESC_F_WRITE descPa i ::
      match popMap mem cpuPhysicalMemoryMap descPa i st with
      | none => []
      | some (_, st) =>
        match virtqueueNextDesc mem descPa i max with
        | none => []
        | some next => if next = max then [] else chainDirections descPa max fuel next st

/-- The arrays of an element have room for such descriptors. -/
def VirtQueueElement.Fits (elem : VirtQueueElement w π) (directions : List Bool) : Prop :=
  elem.inSg.length + directions.count true ≤ VIRTQUEUE_MAX_SIZE ∧
    elem.outSg.length + directions.count false ≤ VIRTQUEUE_MAX_SIZE

/-- A function ends without a store behind an array. -/
def Outcome.Ends {α : Type} (o : Outcome α) : Prop := o ≠ .running ∧ o ≠ .overran

variable {mem cpuPhysicalMemoryMap} {elem : VirtQueueElement w π}

/-- A pushed buffer takes one place. -/
theorem VirtQueueElement.fits_push {b : Bool} (addr : BitVec w) (sg : IoVec π)
    (hroom : elem.hasRoom b = true) (l : List Bool) :
    (elem.push b addr sg hroom).Fits l ↔ elem.Fits (b :: l) := by
  cases b with
  | true =>
    show (elem.inSg ++ [sg]).length + _ ≤ _ ∧ _ ↔ _
    unfold VirtQueueElement.Fits
    rw [List.length_append, List.count_cons_self, List.count_cons_of_ne (by decide), Nat.add_assoc,
      Nat.add_comm [sg].length]
    rfl
  | false =>
    show _ ∧ (elem.outSg ++ [sg]).length + _ ≤ _ ↔ _
    unfold VirtQueueElement.Fits
    rw [List.length_append, List.count_cons_self, List.count_cons_of_ne (by decide), Nat.add_assoc,
      Nat.add_comm [sg].length]
    rfl

/-- One buffer more. -/
theorem VirtQueueElement.length_push {b : Bool} (addr : BitVec w) (sg : IoVec π)
    (hroom : elem.hasRoom b = true) :
    (elem.push b addr sg hroom).inSg.length + (elem.push b addr sg hroom).outSg.length =
      elem.inSg.length + elem.outSg.length + 1 := by
  cases b with
  | true =>
    show (elem.inSg ++ [sg]).length + _ = _
    rw [List.length_append, List.length_singleton]
    exact Nat.add_right_comm _ _ _
  | false =>
    show _ + (elem.outSg ++ [sg]).length = _
    rw [List.length_append, List.length_singleton]
    exact (Nat.add_assoc _ _ _).symm

theorem VirtQueueElement.fits_one {b : Bool} (hroom : elem.hasRoom b = true) : elem.Fits [b] := by
  cases b with
  | true => exact ⟨of_decide_eq_true hroom, elem.out_le⟩
  | false => exact ⟨elem.in_le, of_decide_eq_true hroom⟩

theorem VirtQueueElement.not_fits {b : Bool} (hroom : ¬elem.hasRoom b = true) (l : List Bool) :
    ¬elem.Fits (b :: l) := by
  rintro ⟨hin, hout⟩
  cases b with
  | true =>
    have hfull : ¬elem.inSg.length < VIRTQUEUE_MAX_SIZE := fun h => hroom (decide_eq_true h)
    rw [List.count_cons_self] at hin
    omega
  | false =>
    have hfull : ¬elem.outSg.length < VIRTQUEUE_MAX_SIZE := fun h => hroom (decide_eq_true h)
    rw [List.count_cons_self] at hout
    omega

theorem Outcome.exited_ends {α : Type} : (Outcome.exited : Outcome α).Ends :=
  ⟨nofun, nofun⟩

theorem Outcome.returned_ends {α : Type} (a : α) : (Outcome.returned a).Ends :=
  ⟨nofun, nofun⟩

theorem chainDirections_one (descPa : BitVec w) (max i : Nat) (st : σ) :
    chainDirections mem cpuPhysicalMemoryMap descPa max 1 i st =
      [descHas mem VRING_DESC_F_WRITE descPa i] := by
  unfold chainDirections
  cases popMap mem cpuPhysicalMemoryMap descPa i st with
  | none => rfl
  | some p =>
    dsimp only
    cases virtqueueNextDesc mem descPa i max with
    | none => rfl
    | some next =>
      dsimp only
      split_ifs <;> rfl

theorem Outcome.ends_iff {α : Type} {o : Outcome α} {p : Prop} (ho : o.Ends) (hp : p) :
    o ≠ .running ∧ (o.Ends ↔ p) := ⟨ho.1, fun _ => hp, fun _ => ho⟩

/-- The loop, with fuel for one descriptor more than the table may still give. -/
theorem popLoop_spec {descPa : BitVec w} {max : Nat} (fuel i : Nat) (elem : VirtQueueElement w π)
    (st : σ) (hcount : elem.inSg.length + elem.outSg.length + fuel = max) :
    popLoop mem cpuPhysicalMemoryMap descPa max (fuel + 1) i elem st ≠ .running ∧
      ((popLoop mem cpuPhysicalMemoryMap descPa max (fuel + 1) i elem st).Ends ↔
        elem.Fits (chainDirections mem cpuPhysicalMemoryMap descPa max (fuel + 1) i st)) := by
  induction fuel using Nat.strongRecOn generalizing i elem st with
  | _ fuel ih =>
    unfold popLoop
    by_cases hroom : elem.hasRoom (descHas mem VRING_DESC_F_WRITE descPa i) = true
    swap
    -- the store is made in front of all checks
    · rw [dif_neg hroom]
      exact ⟨nofun, fun h => absurd rfl h.2, fun h => absurd h (elem.not_fits hroom _)⟩
    rw [dif_pos hroom]
    have hone : elem.Fits [descHas mem VRING_DESC_F_WRITE descPa i] := elem.fits_one hroom
    cases fuel with
    | zero =>
      rw [chainDirections_one]
      cases popMap mem cpuPhysicalMemoryMap descPa i st with
      | none => exact Outcome.ends_iff Outcome.exited_ends hone
      | some p =>
        obtain ⟨sg, st'⟩ := p
        have hlength := elem.length_push ((vringDescAddr mem descPa i).setWidth w) sg hroom
        dsimp only
        rw [if_pos (by omega)]
        exact Outcome.ends_iff Outcome.exited_ends hone
    | succ fuel =>
      unfold chainDirections
      cases popMap mem cpuPhysicalMemoryMap descPa i st with
      | none => exact Outcome.ends_iff Outcome.exited_ends hone
      | some p =>
        obtain ⟨sg, st'⟩ := p
        have hlength := elem.length_push ((vringDescAddr mem descPa i).setWidth w) sg hroom
        dsimp only
        rw [if_neg (by omega)]
        cases virtqueueNextDesc mem descPa i max with
        | none => exact Outcome.ends_iff Outcome.exited_ends hone
        | some next =>
          dsimp only
          split_ifs
          · exact Outcome.ends_iff (Outcome.returned_ends _) hone
          · rw [← elem.fits_push ((vringDescAddr mem descPa i).setWidth w) sg hroom]
            exact ih fuel (Nat.lt_succ_self fuel) next _ st' (by omega)

/-! ### The next chain -/

variable (mem cpuPhysicalMemoryMap)

/-- The table of the chain that is popped next, and its head. -/
def IsNextTable (vq : VirtQueue w) (head : Nat) (table : DescTable w) : Prop :=
  (∃ n, virtqueueNumHeads mem vq (vq.lastAvailIdx.setWidth 32) = some (n + 1)) ∧
    virtqueueGetHead mem vq (vq.lastAvailIdx.setWidth 32) = some head ∧
    virtqueuePopTable mem vq head = some table

/-- Of the first `max + 1` descriptors of the next chain, no more than `VIRTQUEUE_MAX_SIZE` have one
direction. -/
def NextChainFits (vq : VirtQueue w) (st : σ) : Prop :=
  ∀ head table, IsNextTable mem vq head table → ∀ b : Bool,
    (chainDirections mem cpuPhysicalMemoryMap table.descPa table.max (table.max + 1) table.first
      st).count b ≤ VIRTQUEUE_MAX_SIZE

variable {mem cpuPhysicalMemoryMap} {vq : VirtQueue w} {st : σ}

theorem VirtQueueElement.empty_fits {head : Nat} {l : List Bool} :
    (VirtQueueElement.empty head : VirtQueueElement w π).Fits l ↔
      ∀ b : Bool, l.count b ≤ VIRTQUEUE_MAX_SIZE := by
  show (0 + _ ≤ _ ∧ 0 + _ ≤ _) ↔ _
  rw [Nat.zero_add, Nat.zero_add]
  refine ⟨fun h b => ?_, fun h => ⟨h true, h false⟩⟩
  cases b with
  | true => exact h.1
  | false => exact h.2

theorem nextChainFits_of_none (h : ∀ head table, ¬IsNextTable mem vq head table) :
    NextChainFits mem cpuPhysicalMemoryMap vq st :=
  fun head table hnext => absurd hnext (h head table)

/-- The condition on the next chain, once its table is found. -/
theorem nextChainFits_iff {head : Nat} {table : DescTable w}
    (hnext : IsNextTable mem vq head table) :
    NextChainFits mem cpuPhysicalMemoryMap vq st ↔ ∀ b : Bool,
      (chainDirections mem cpuPhysicalMemoryMap table.descPa table.max (table.max + 1) table.first
        st).count b ≤ VIRTQUEUE_MAX_SIZE := by
  refine ⟨fun h => h head table hnext, fun h head' table' hnext' => ?_⟩
  obtain rfl := Option.some.inj (hnext.2.1.symm.trans hnext'.2.1)
  obtain rfl := Option.some.inj (hnext.2.2.symm.trans hnext'.2.2)
  exact h

/-- A pop never runs on, and ends as the condition says. -/
theorem virtqueuePop_spec : virtqueuePop mem cpuPhysicalMemoryMap vq st ≠ .running ∧
    ((virtqueuePop mem cpuPhysicalMemoryMap vq st).Ends ↔
      NextChainFits mem cpuPhysicalMemoryMap vq st) := by
  unfold virtqueuePop
  -- nothing waits, or the chain of the next head is followed
  cases hheads : virtqueueNumHeads mem vq (vq.lastAvailIdx.setWidth 32) with
  | none =>
    apply Outcome.ends_iff Outcome.exited_ends
    apply nextChainFits_of_none
    rintro head table ⟨⟨n, hn⟩, -⟩
    exact absurd (hheads.symm.trans hn).symm (Option.some_ne_none _)
  | some n =>
    cases n with
    | zero =>
      apply Outcome.ends_iff (Outcome.returned_ends _)
      apply nextChainFits_of_none
      rintro head table ⟨⟨n, hn⟩, -⟩
      exact absurd (Option.some.inj (hheads.symm.trans hn)) (Nat.succ_ne_zero n).symm
    | succ n =>
      dsimp only
      cases hhead : virtqueueGetHead mem vq (vq.lastAvailIdx.setWidth 32) with
      | none =>
        apply Outcome.ends_iff Outcome.exited_ends
        apply nextChainFits_of_none
        rintro head table ⟨-, hsome, -⟩
        exact absurd (hhead.symm.trans hsome).symm (Option.some_ne_none _)
      | some head =>
        dsimp only
        cases htable : virtqueuePopTable mem vq head with
        | none =>
          apply Outcome.ends_iff Outcome.exited_ends
          apply nextChainFits_of_none
          rintro head' table ⟨-, hsome, htable'⟩
          obtain rfl := Option.some.inj (hhead.symm.trans hsome)
          exact absurd (htable.symm.trans htable').symm (Option.some_ne_none _)
        | some table =>
          rw [nextChainFits_iff ⟨⟨n, hheads⟩, hhead, htable⟩]
          rw [← VirtQueueElement.empty_fits]
          have hloop := @popLoop_spec _ _ _ mem cpuPhysicalMemoryMap table.descPa table.max
            table.max table.first (.empty head) st (Nat.zero_add _)
          dsimp only
          generalize popLoop mem cpuPhysicalMemoryMap table.descPa table.max (table.max + 1)
            table.first (.empty head) st = o at hloop ⊢
          cases o with
          | returned p =>
            exact Outcome.ends_iff (Outcome.returned_ends _)
              (hloop.2.mp (Outcome.returned_ends _))
          | exited => exact Outcome.ends_iff Outcome.exited_ends (hloop.2.mp Outcome.exited_ends)
          | overran =>
            exact ⟨nofun, fun h => absurd rfl h.2, fun h => absurd rfl (hloop.2.mpr h).2⟩
          | running => exact absurd rfl hloop.1

/-- **The stores of `virtqueue_pop` are inside of the arrays** if and only if the chain fits. -/
theorem virtqueuePop_ends (mem : GuestMemory w)
    (cpuPhysicalMemoryMap : σ → BitVec w → Nat → Bool → Option (IoVec π) × σ) (vq : VirtQueue w)
    (st : σ) : (virtqueuePop mem cpuPhysicalMemoryMap vq st).Ends ↔
      NextChainFits mem cpuPhysicalMemoryMap vq st :=
  virtqueuePop_spec.2

/-- A descriptor that is chained to itself is met again and again. -/
theorem chainDirections_cycle {descPa : BitVec w} {max i : Nat} {sg : IoVec π}
    (hmap : popMap mem cpuPhysicalMemoryMap descPa i st = some (sg, st))
    (hnext : virtqueueNextDesc mem descPa i max = some i) (hi : i ≠ max) (fuel : Nat) :
    chainDirections mem cpuPhysicalMemoryMap descPa max fuel i st =
      List.replicate fuel (descHas mem VRING_DESC_F_WRITE descPa i) := by
  induction fuel with
  | zero => rfl
  | succ fuel ih =>
    unfold chainDirections
    rw [hmap, hnext]
    dsimp only
    rw [if_neg hi, ih]
    rfl

/-- Such a chain does not fit if its table is as long as the arrays. -/
theorem virtqueuePop_cycle {head : Nat} {table : DescTable w} {sg : IoVec π}
    (htable : IsNextTable mem vq head table)
    (hmap : popMap mem cpuPhysicalMemoryMap table.descPa table.first st = some (sg, st))
    (hnext : virtqueueNextDesc mem table.descPa table.first table.max = some table.first)
    (hfirst : table.first ≠ table.max) (hmax : VIRTQUEUE_MAX_SIZE ≤ table.max) :
    ¬(virtqueuePop mem cpuPhysicalMemoryMap vq st).Ends := by
  rw [virtqueuePop_spec.2, nextChainFits_iff htable, chainDirections_cycle hmap hnext hfirst]
  intro h
  have hcount := h (descHas mem VRING_DESC_F_WRITE table.descPa table.first)
  rw [List.count_replicate_self] at hcount
  omega

end

/-- A ring of the largest size whose only chain is descriptor 0, chained to itself: a buffer of one
byte for the device to write. -/
def cyclicMemory : GuestMemory 64 := fun a =>
  if a = 8 then 1 else if a = 12 then 3 else if a = 16386 then 1 else 0

/-- A queue of 1024 entries. -/
def cyclicQueue : VirtQueue 64 := ⟨⟨1024, 0, 16384, 20480⟩, 0, 0, by decide⟩

/-- All of guest memory is there and is mapped. -/
def mapAll (st : Unit) (addr : BitVec 64) (len : Nat) (_isWrite : Bool) :
    Option (IoVec (BitVec 64)) × Unit := (some ⟨addr, len⟩, st)

/-- So some pop writes past its arrays. -/
theorem virtqueuePop_overruns : ¬∀ (mem : GuestMemory 64) (vq : VirtQueue 64),
    (virtqueuePop mem mapAll vq ()).Ends := by
  intro h
  have htable : IsNextTable cyclicMemory cyclicQueue 0 ⟨0, 1024, 0⟩ :=
    ⟨⟨0, by decide⟩, by decide, by decide⟩
  have hmap : popMap cyclicMemory mapAll 0 0 () = some (⟨0, 1⟩, ()) := by decide
  exact virtqueuePop_cycle htable hmap (by decide) (by decide) (by decide)
    (h cyclicMemory cyclicQueue)

end Qemu.Hw
