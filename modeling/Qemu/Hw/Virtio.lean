import Qemu.Lib.Runs
import Mathlib.Algebra.Ring.Nat

namespace Qemu.Hw

open Lib

/-!
# Virtqueues (`hw/virtio.c`)

* `vringDescAddr`, `vringAvailIdx` and so on — the fields of the ring in guest memory.
* `virtqueuePop` — the next chain of buffers the guest has made available.
* `virtqueueAvailBytes` — is there room for so many bytes in the chains to come.

Guest memory does not change while one of these functions runs.  `w` is the width of
`target_phys_addr_t`.  `cpu_physical_memory_map` is a parameter: a function of what is mapped so far
(`σ`: the bounce buffer), the address, the length and the direction; it gives a pointer of the host
and the length that is mapped, or `NULL`.
-/

def VIRTQUEUE_MAX_SIZE : Nat := 1024

def VRING_DESC_F_NEXT : BitVec 16 := 1
def VRING_DESC_F_WRITE : BitVec 16 := 2
def VRING_DESC_F_INDIRECT : BitVec 16 := 4

/-- `sizeof(VRingDesc)` -/
def sizeofVRingDesc : Nat := 16

/-- The bytes of guest memory. -/
abbrev GuestMemory (w : Nat) := BitVec w → BitVec 8

/-- `VRing` -/
structure VRing (w : Nat) where
  num : Nat
  desc : BitVec w
  avail : BitVec w
  used : BitVec w
deriving DecidableEq

/-- `virtio_add_queue` makes no larger queues. -/
structure VirtQueue (w : Nat) where
  vring : VRing w
  lastAvailIdx : BitVec 16
  inuse : Int
  num_le : vring.num ≤ VIRTQUEUE_MAX_SIZE
deriving DecidableEq

/-! ### Fields -/

section

variable {w : Nat} (mem : GuestMemory w)

/-- `lduw_phys` -/
def lduwPhys (pa : BitVec w) : BitVec 16 := mem (pa + 1) ++ mem pa

/-- `ldl_phys` -/
def ldlPhys (pa : BitVec w) : BitVec 32 := lduwPhys mem (pa + 2) ++ lduwPhys mem pa

/-- `ldq_phys` -/
def ldqPhys (pa : BitVec w) : BitVec 64 := ldlPhys mem (pa + 4) ++ ldlPhys mem pa

/-- `vring_desc_addr` -/
def vringDescAddr (descPa : BitVec w) (i : Nat) : BitVec 64 :=
  ldqPhys mem (descPa + BitVec.ofNat w (sizeofVRingDesc * i))

/-- `vring_desc_len` -/
def vringDescLen (descPa : BitVec w) (i : Nat) : BitVec 32 :=
  ldlPhys mem (descPa + BitVec.ofNat w (sizeofVRingDesc * i + 8))

/-- `vring_desc_flags` -/
def vringDescFlags (descPa : BitVec w) (i : Nat) : BitVec 16 :=
  lduwPhys mem (descPa + BitVec.ofNat w (sizeofVRingDesc * i + 12))

/-- `vring_desc_next` -/
def vringDescNext (descPa : BitVec w) (i : Nat) : BitVec 16 :=
  lduwPhys mem (descPa + BitVec.ofNat w (sizeofVRingDesc * i + 14))

/-- `vring_avail_idx` -/
def vringAvailIdx (vq : VirtQueue w) : BitVec 16 := lduwPhys mem (vq.vring.avail + 2)

/-- `vring_avail_ring` -/
def vringAvailRing (vq : VirtQueue w) (i : Nat) : BitVec 16 :=
  lduwPhys mem (vq.vring.avail + BitVec.ofNat w (4 + 2 * i))

/-- A flag of a descriptor is set. -/
def descHas (flag : BitVec 16) (descPa : BitVec w) (i : Nat) : Bool :=
  vringDescFlags mem descPa i &&& flag ≠ 0

/-! ### Heads and chains -/

/-- `none` is `exit(1)`. -/
def virtqueueNumHeads (vq : VirtQueue w) (idx : BitVec 32) : Option Nat :=
  let numHeads := (vringAvailIdx mem vq - idx.setWidth 16).toNat
  if vq.vring.num < numHeads then none else some numHeads

/-- `virtqueue_get_head` -/
def virtqueueGetHead (vq : VirtQueue w) (idx : BitVec 32) : Option Nat :=
  let head := (vringAvailRing mem vq (idx.toNat % vq.vring.num)).toNat
  if vq.vring.num ≤ head then none else some head

/-- The value `max` says that the chain is over. -/
def virtqueueNextDesc (descPa : BitVec w) (i max : Nat) : Option Nat :=
  if !descHas mem VRING_DESC_F_NEXT descPa i then some max
  else
    let next := (vringDescNext mem descPa i).toNat
    if max ≤ next then none else some next

end

/-! ### `virtqueue_pop` -/

/-- `struct iovec`, with a pointer of the host. -/
structure IoVec (π : Type) where
  iovBase : π
  iovLen : Nat
deriving DecidableEq

/-- `in_num` and `out_num` are the lengths of the lists: no array holds more. -/
structure VirtQueueElement (w : Nat) (π : Type) where
  index : Nat
  inAddr : List (BitVec w)
  inSg : List (IoVec π)
  outSg : List (IoVec π)
  in_le : inSg.length ≤ VIRTQUEUE_MAX_SIZE
  out_le : outSg.length ≤ VIRTQUEUE_MAX_SIZE
deriving DecidableEq

/-- How a function ends: with a value, by `exit(1)`, or with a store behind the end of an array.
`running` is said of a loop that has no fuel left. -/
inductive Outcome (α : Type)
  | returned (a : α)
  | exited
  | overran
  | running
deriving DecidableEq

section

variable {w : Nat} {σ π : Type} (mem : GuestMemory w)
  (cpuPhysicalMemoryMap : σ → BitVec w → Nat → Bool → Option (IoVec π) × σ)

/-- No element of an array is used yet. -/
def VirtQueueElement.empty (index : Nat) : VirtQueueElement w π :=
  ⟨index, [], [], [], Nat.zero_le _, Nat.zero_le _⟩

/-- There is a next element of the arrays of one direction. -/
def VirtQueueElement.hasRoom (elem : VirtQueueElement w π) (isWrite : Bool) : Bool :=
  if isWrite then elem.inSg.length < VIRTQUEUE_MAX_SIZE else elem.outSg.length < VIRTQUEUE_MAX_SIZE

/-- The next element of the arrays of one direction is used. -/
def VirtQueueElement.push (elem : VirtQueueElement w π) (isWrite : Bool) (addr : BitVec w)
    (sg : IoVec π) (hroom : elem.hasRoom isWrite = true) : VirtQueueElement w π :=
  match isWrite, hroom with
  | true, hroom =>
    { elem with
      inAddr := elem.inAddr ++ [addr]
      inSg := elem.inSg ++ [sg]
      in_le := by rw [List.length_append]; exact of_decide_eq_true hroom }
  | false, hroom =>
    { elem with
      outSg := elem.outSg ++ [sg]
      out_le := by rw [List.length_append]; exact of_decide_eq_true hroom }

/-- Where the descriptors of a chain are: the table, its length, the first one of the chain. -/
structure DescTable (w : Nat) where
  descPa : BitVec w
  max : Nat
  first : Nat
deriving DecidableEq

/-- The table of the chain of a head; `none` is `exit(1)`. -/
def virtqueuePopTable (vq : VirtQueue w) (head : Nat) : Option (DescTable w) :=
  let descPa := vq.vring.desc
  if descHas mem VRING_DESC_F_INDIRECT descPa head then
    if (vringDescLen mem descPa head).toNat % sizeofVRingDesc ≠ 0 then none
    else
      some ⟨(vringDescAddr mem descPa head).setWidth w,
        (vringDescLen mem descPa head).toNat / sizeofVRingDesc, 0⟩
  else some ⟨descPa, vq.vring.num, head⟩

/-- The buffer of a descriptor is mapped; `none` is `exit(1)`. -/
def popMap (descPa : BitVec w) (i : Nat) (st : σ) : Option (IoVec π × σ) :=
  let len := (vringDescLen mem descPa i).toNat
  match cpuPhysicalMemoryMap st ((vringDescAddr mem descPa i).setWidth w) len
    (descHas mem VRING_DESC_F_WRITE descPa i) with
  | (none, _) => none
  | (some sg, st) => if sg.iovLen ≠ len then none else some (sg, st)

/-- The loop over the descriptors.  The stores into the arrays stand in front of the mapping, which
stands in front of the check for too many descriptors. -/
def popLoop (descPa : BitVec w) (max : Nat) :
    Nat → Nat → VirtQueueElement w π → σ → Outcome (VirtQueueElement w π × σ)
  | 0, _, _, _ => .running
  | fuel + 1, i, elem, st =>
    if hroom : elem.hasRoom (descHas mem VRING_DESC_F_WRITE descPa i) = true then
      match popMap mem cpuPhysicalMemoryMap descPa i st with
      | none => .exited
      | some (sg, st) =>
        let elem := elem.push _ ((vringDescAddr mem descPa i).setWidth w) sg hroom
        if max < elem.inSg.length + elem.outSg.length then .exited
        else
          match virtqueueNextDesc mem descPa i max with
          | none => .exited
          | some next =>
            if next = max then .returned (elem, st) else popLoop descPa max fuel next elem st
    else .overran

/-- What `virtqueue_pop` gives: an element unless its value is `0`. -/
structure Popped (w : Nat) (σ π : Type) where
  vq : VirtQueue w
  elem : Option (VirtQueueElement w π)
  st : σ

/-- `virtqueue_pop` -/
def virtqueuePop (vq : VirtQueue w) (st : σ) : Outcome (Popped w σ π) :=
  match virtqueueNumHeads mem vq (vq.lastAvailIdx.setWidth 32) with
  | none => .exited
  | some 0 => .returned ⟨vq, none, st⟩
  | some (_ + 1) =>
    match virtqueueGetHead mem vq (vq.lastAvailIdx.setWidth 32) with
    | none => .exited
    | some head =>
      match virtqueuePopTable mem vq head with
      | none => .exited
      | some table =>
        match popLoop mem cpuPhysicalMemoryMap table.descPa table.max (table.max + 1) table.first
            (.empty head) st with
        | .returned (elem, st) => .returned ⟨{ vq with
            lastAvailIdx := vq.lastAvailIdx + 1
            inuse := vq.inuse + 1 }, some elem, st⟩
        | .exited => .exited
        | .overran => .overran
        | .running => .running

end

/-! ### `virtqueue_avail_bytes` -/

section

variable {w : Nat} (mem : GuestMemory w) (inBytes outBytes : BitVec 32)

/-- `in_total` and `out_total`. -/
structure AvailTotals where
  inTotal : BitVec 32
  outTotal : BitVec 32
deriving DecidableEq

/-- One descriptor is counted, if its direction is asked for; `none` if there are enough bytes. -/
def AvailTotals.add (t : AvailTotals) (isWrite : Bool) (len : BitVec 32) : Option AvailTotals :=
  if isWrite then
    if (0 : Int) < inBytes.toInt then
      if inBytes.toInt ≤ (t.inTotal + len).toInt then none
      else some { t with inTotal := t.inTotal + len }
    else some t
  else
    if (0 : Int) < outBytes.toInt then
      if outBytes.toInt ≤ (t.outTotal + len).toInt then none
      else some { t with outTotal := t.outTotal + len }
    else some t

/-- What the inner loop leaves: the function returns `1`, or the totals and `num_bufs`. -/
inductive AvailChain
  | enough
  | counted (t : AvailTotals) (numBufs : Nat)
deriving DecidableEq

/-- The inner loop. -/
def availLoop (descPa : BitVec w) (max : Nat) :
    Nat → Nat → AvailTotals → Nat → Outcome AvailChain
  | 0, _, _, _ => .running
  | fuel + 1, i, t, numBufs =>
    if max < numBufs + 1 then .exited
    else
      match t.add inBytes outBytes (descHas mem VRING_DESC_F_WRITE descPa i)
          (vringDescLen mem descPa i) with
      | none => .returned .enough
      | some t =>
        match virtqueueNextDesc mem descPa i max with
        | none => .exited
        | some next =>
          if next = max then .returned (.counted t (numBufs + 1))
          else availLoop descPa max fuel next t (numBufs + 1)

/-- The table of the chain of a head.  `i` is cleared in front of the read of the address. -/
def virtqueueAvailTable (vq : VirtQueue w) (totalBufs head : Nat) :
    Option (DescTable w × Nat × Bool) :=
  let descPa := vq.vring.desc
  if descHas mem VRING_DESC_F_INDIRECT descPa head then
    if (vringDescLen mem descPa head).toNat % sizeofVRingDesc ≠ 0 then none
    else if vq.vring.num ≤ totalBufs then none
    else
      some (⟨(vringDescAddr mem descPa 0).setWidth w,
        (vringDescLen mem descPa head).toNat / sizeofVRingDesc, 0⟩, 0, true)
  else some (⟨descPa, vq.vring.num, head⟩, totalBufs, false)

/-- The outer loop; the value is whether the function returns `1`. -/
def availHeads (vq : VirtQueue w) : Nat → BitVec 32 → AvailTotals → Nat → Outcome Bool
  | 0, _, _, _ => .running
  | fuel + 1, idx, t, totalBufs =>
    match virtqueueNumHeads mem vq idx with
    | none => .exited
    | some 0 => .returned false
    | some (_ + 1) =>
      match virtqueueGetHead mem vq idx with
      | none => .exited
      | some head =>
        match virtqueueAvailTable mem vq totalBufs head with
        | none => .exited
        | some (table, numBufs, indirect) =>
          match availLoop mem inBytes outBytes table.descPa table.max (table.max + 1) table.first
              t numBufs with
          | .returned .enough => .returned true
          | .returned (.counted t numBufs) =>
            availHeads vq fuel (idx + 1) t (if indirect then totalBufs + 1 else numBufs)
          | .exited => .exited
          | .overran => .overran
          | .running => .running

/-- There are fewer than `2 ^ 16` heads. -/
def virtqueueAvailBytes (vq : VirtQueue w) : Outcome Bool :=
  availHeads mem inBytes outBytes vq (2 ^ 16) (vq.lastAvailIdx.setWidth 32) ⟨0, 0⟩ 0

end

end Qemu.Hw
