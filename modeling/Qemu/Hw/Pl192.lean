import Qemu.Lib.Runs

namespace Qemu.Hw

/-!
# The vectored interrupt controller PL192 (`hw/pl192.c`)

Controllers are chained: the first one drives the lines of the CPU, and each of the others the daisy
input of the one in front of it.

* `pl192PrioritySorter`, `pl192Update` — which interrupt comes first, and what is told the parent;
* `pl192MaskPriority`, `pl192UnmaskPriority` — the stacks of priorities and interrupts;
* `pl192Read`, `pl192Write`, `pl192IrqHandler` — the registers and the input lines;
* `Pl192Op.exec` — one access or line change, which may index outside of an array.
-/

/-- `PL192_INT_SOURCES` -/
def pl192IntSources : Nat := 32

/-- `PL192_DAISY_IRQ` -/
def pl192DaisyIrq : Nat := 32

/-- `PL192_NO_IRQ` -/
def pl192NoIrq : Nat := 33

/-- `PL192_PRIO_LEVELS` -/
def pl192PrioLevels : Nat := 16

/-- `pl192_state`.  `daisyCallback` is the place in the chain of the controller it points to. -/
structure Pl192 where
  irqStatus : BitVec 32
  fiqStatus : BitVec 32
  rawintr : BitVec 32
  intselect : BitVec 32
  intenable : BitVec 32
  softint : BitVec 32
  protection : BitVec 32
  swPriorityMask : BitVec 32
  vectAddr : Vector (BitVec 32) 32
  vectPriority : Vector Nat 32
  address : BitVec 32
  current : Nat
  currentHighest : Nat
  stackI : Nat
  priorityStack : Vector Nat 17
  irqStack : Vector Nat 17
  priority : Nat
  daisyVectaddr : BitVec 32
  daisyPriority : Nat
  daisyCallback : Option Nat
  daisyInput : Bool
deriving DecidableEq

/-- The controllers, from the first one on, and the lines it drives.  A board has finitely many, but
    as many as it likes. -/
structure Chain where
  vic : Nat → Pl192
  irq : Bool
  fiq : Bool

/-- One controller is changed. -/
def Chain.set (c : Chain) (k : Nat) (s : Pl192) : Chain :=
  { c with vic := Function.update c.vic k s }

/-- Why an access does not return: `hw_error`, or an index outside of an array. -/
inductive Pl192Stop
  | hwError | fault
deriving DecidableEq, Repr

/-- A read of an array, which faults outside of it. -/
def loadAt {α : Type} {n : Nat} (v : Vector α n) (i : Nat) : Except Pl192Stop α :=
  if h : i < n then .ok v[i] else .error .fault

/-- A store to an array, which faults outside of it. -/
def putAt {α : Type} {n : Nat} (v : Vector α n) (i : Nat) (a : α) :
    Except Pl192Stop (Vector α n) :=
  if h : i < n then .ok (v.set i a) else .error .fault

/-! ### Which interrupt comes first -/

/-- `prio_irq` once the loops of `pl192_priority_sorter` have filled it, the last source first. -/
def prioIrq (s : Pl192) : Nat → Nat :=
  let init := fun p => if s.daisyInput ∧ p = s.daisyPriority then pl192DaisyIrq else pl192NoIrq
  (List.finRange 32).foldr
    (fun (i : Fin 32) f =>
      if s.irqStatus.getLsbD i then Function.update f (s.vectPriority.get i) i else f) init

/-- `pl192_priority_sorter` -/
def pl192PrioritySorter (s : Pl192) : Nat :=
  match (List.range pl192PrioLevels).find?
      (fun p => s.swPriorityMask.getLsbD p && decide (prioIrq s p ≤ pl192DaisyIrq)) with
  | some p => prioIrq s p
  | none => pl192NoIrq

/-- The statuses of `pl192_update`. -/
def Pl192.latch (s : Pl192) : Pl192 :=
  { s with
    irqStatus := (s.rawintr ||| s.softint) &&& s.intenable &&& ~~~s.intselect
    fiqStatus := (s.rawintr ||| s.softint) &&& s.intenable &&& s.intselect }

/-- The interrupt that comes first, and its vector address. -/
def Pl192.choose (s : Pl192) : Pl192 :=
  let highest := pl192PrioritySorter s
  { s with
    currentHighest := highest
    address := if h : highest < 32 then s.vectAddr[highest] else s.daisyVectaddr }

/-- The first interrupt does not come before the current one. -/
def Pl192.masked (s : Pl192) : Bool :=
  if h : s.currentHighest < 32 then decide (s.priority ≤ s.vectPriority[s.currentHighest])
  else decide (s.currentHighest = pl192DaisyIrq ∧ s.priority ≤ s.daisyPriority)

/-- `pl192_update`, up to what it means to raise and to lower the parent's line.  The FIQ goes
    straight to the first controller. -/
def pl192UpdateWith (raise lower : Chain → Chain) (k : Nat) (c : Chain) : Chain :=
  let s := (c.vic k).latch
  let c := { c.set k s with fiq := s.fiqStatus != 0 }
  if s.irqStatus != 0 || s.daisyInput then
    let s := s.choose
    let c := c.set k s
    if s.currentHighest = s.current then c
    else if s.masked then c
    else if s.currentHighest ≤ pl192DaisyIrq then raise c
    else lower c
  else lower (c.set k { s with currentHighest := pl192NoIrq })

/-- The daisy input that the controller behind `k` sets. -/
def Chain.raiseDaisy (c : Chain) (k : Nat) : Chain :=
  c.set k
    { c.vic k with
      daisyVectaddr := (c.vic (k + 1)).address
      daisyCallback := some (k + 1)
      daisyInput := true }

/-- The daisy input of a controller is lowered. -/
def Chain.lowerDaisy (c : Chain) (k : Nat) : Chain := c.set k { c.vic k with daisyInput := false }

/-- `pl192_update` of the controller at a place of the chain. -/
def pl192Update : Nat → Chain → Chain
  | 0, c => pl192UpdateWith (fun c => { c with irq := true }) (fun c => { c with irq := false }) 0 c
  | k + 1, c =>
    pl192UpdateWith (fun c => pl192Update k (c.raiseDaisy k))
      (fun c => pl192Update k (c.lowerDaisy k)) (k + 1) c

/-- `pl192_lower` for the IRQ. -/
def pl192Lower : Nat → Chain → Chain
  | 0, c => { c with irq := false }
  | k + 1, c => pl192Update k (c.lowerDaisy k)

/-! ### The stacks -/

/-- The priority of the current interrupt. -/
def pl192CurrentPriority (s : Pl192) : Except Pl192Stop Nat :=
  if s.current = pl192DaisyIrq then .ok s.daisyPriority else loadAt s.vectPriority s.current

/-- `pl192_mask_priority` -/
def pl192MaskPriority (s : Pl192) : Except Pl192Stop Pl192 :=
  if pl192IntSources ≤ s.stackI then .error .hwError
  else do
    let stackI := s.stackI + 1
    let priority ← pl192CurrentPriority s
    let priorityStack ← putAt s.priorityStack stackI priority
    let irqStack ← putAt s.irqStack stackI s.current
    return { s with
      stackI := stackI
      priority := priority
      priorityStack := priorityStack
      irqStack := irqStack }

/-- `pl192_unmask_priority` -/
def pl192UnmaskPriority (s : Pl192) : Except Pl192Stop Pl192 :=
  if s.stackI < 1 then .error .hwError
  else do
    let stackI := s.stackI - 1
    let priority ← loadAt s.priorityStack stackI
    let current ← loadAt s.irqStack stackI
    return { s with stackI := stackI, priority := priority, current := current }

/-- If the interrupt is the daisy input's, the change of the controller that `daisy_callback` points
    to. -/
def Chain.callback (c : Chain) (irq : Nat) (j : Option Nat) (f : Pl192 → Except Pl192Stop Pl192) :
    Except Pl192Stop Chain :=
  if irq = pl192DaisyIrq then
    match j with
    | none => .error .fault
    | some j => (f (c.vic j)).map (c.set j)
  else .ok c

/-- `pl192_irq_ack` -/
def pl192IrqAck (k : Nat) (c : Chain) : Except Pl192Stop (Chain × BitVec 32) := do
  let s := c.vic k
  let masked ← pl192MaskPriority { s with current := s.currentHighest }
  let c ← (c.set k masked).callback s.currentHighest s.daisyCallback pl192MaskPriority
  return (pl192Update k c, s.address)

/-- The update of `pl192_irq_fin`, which lowers the line if no interrupt is left. -/
def pl192FinUpdate (k : Nat) (c : Chain) : Chain :=
  let c := pl192Update k c
  if (c.vic k).current = pl192NoIrq then pl192Lower k c else c

/-- `pl192_irq_fin` -/
def pl192IrqFin (k : Nat) (c : Chain) : Except Pl192Stop Chain := do
  let s := c.vic k
  let unmasked ← pl192UnmaskPriority s
  let c ← (c.set k unmasked).callback s.current s.daisyCallback pl192UnmaskPriority
  return pl192FinUpdate k c

/-! ### Registers and lines -/

/-- `pl192_id` -/
def pl192Id : Vector (BitVec 32) 8 := #v[0x92, 0x11, 0x04, 0x00, 0x0D, 0xF0, 0x05, 0xB1]

/-- The registers of `pl192_read`. -/
def pl192ReadReg (k : Nat) (c : Chain) (offset : Nat) : Except Pl192Stop (Chain × BitVec 32) :=
  let s := c.vic k
  match offset with
  | 0x00 => .ok (c, s.irqStatus)
  | 0x04 => .ok (c, s.fiqStatus)
  | 0x08 => .ok (c, s.rawintr)
  | 0x0C => .ok (c, s.intselect)
  | 0x10 => .ok (c, s.intenable)
  | 0x18 => .ok (c, s.softint)
  | 0x20 => .ok (c, s.protection)
  | 0x24 => .ok (c, s.swPriorityMask)
  | 0x28 => .ok (c, BitVec.ofNat 32 s.daisyPriority)
  | 0xF00 => pl192IrqAck k c
  -- registers of the PL190
  | 0x300 => .ok (c, 0)
  | 0x30 => .ok (c, 0)
  | 0x34 => .ok (c, 0)
  | _ => .error .hwError

/-- `pl192_read` -/
def pl192Read (k : Nat) (c : Chain) (offset : Nat) : Except Pl192Stop (Chain × BitVec 32) :=
  let s := c.vic k
  if offset % 4 ≠ 0 then .error .hwError
  else if 0xfe0 ≤ offset ∧ offset < 0x1000 then
    (loadAt pl192Id ((offset - 0xfe0) / 4)).map fun v => (c, v)
  else if 0x100 ≤ offset ∧ offset < 0x180 then
    (loadAt s.vectAddr ((offset - 0x100) / 4)).map fun v => (c, v)
  else if 0x200 ≤ offset ∧ offset < 0x280 then
    (loadAt s.vectPriority ((offset - 0x200) / 4)).map fun v => (c, BitVec.ofNat 32 v)
  else pl192ReadReg k c offset

/-- The registers of `pl192_write` after which it updates. -/
def pl192WriteReg (s : Pl192) (offset : Nat) (value : BitVec 32) : Option Pl192 :=
  match offset with
  | 0x0C => some { s with intselect := value }
  | 0x10 => some { s with intenable := s.intenable ||| value }
  | 0x14 => some { s with intenable := s.intenable &&& ~~~value }
  | 0x18 => some { s with softint := s.softint ||| value }
  | 0x1C => some { s with softint := s.softint &&& ~~~value }
  | 0x20 => some { s with protection := value &&& 1 }
  | 0x24 => some { s with swPriorityMask := value &&& 0xffff }
  | 0x28 => some { s with daisyPriority := (value &&& 0xf).toNat }
  | _ => none

/-- The registers that ignore a write. -/
def pl192Ignored (offset : Nat) : Bool :=
  decide (offset = 0x00 ∨ offset = 0x300 ∨ offset = 0x30 ∨ offset = 0x34)

/-- `pl192_write` -/
def pl192Write (k : Nat) (c : Chain) (offset : Nat) (value : BitVec 32) :
    Except Pl192Stop Chain :=
  let s := c.vic k
  if offset % 4 ≠ 0 then .error .hwError
  else if 0xfe0 ≤ offset ∧ offset < 0x1000 then .error .hwError
  else if 0x100 ≤ offset ∧ offset < 0x180 then
    (putAt s.vectAddr ((offset - 0x100) / 4) value).map fun v =>
      pl192Update k (c.set k { s with vectAddr := v })
  else if 0x200 ≤ offset ∧ offset < 0x280 then
    (putAt s.vectPriority ((offset - 0x200) / 4) (value &&& 0xf).toNat).map fun v =>
      pl192Update k (c.set k { s with vectPriority := v })
  else if offset = 0xF00 then pl192IrqFin k c
  else if pl192Ignored offset then .ok c
  else
    match pl192WriteReg s offset value with
    | some s => .ok (pl192Update k (c.set k s))
    | none => .error .hwError

/-- `pl192_irq_handler` -/
def pl192IrqHandler (k : Nat) (c : Chain) (irq : Fin 32) (level : Bool) : Chain :=
  let s := c.vic k
  let rawintr :=
    if level then s.rawintr ||| BitVec.twoPow 32 irq else s.rawintr &&& ~~~BitVec.twoPow 32 irq
  pl192Update k (c.set k { s with rawintr := rawintr })

/-- `pl192_reset` of a new controller. -/
def pl192Reset : Pl192 where
  irqStatus := 0
  fiqStatus := 0
  rawintr := 0
  intselect := 0
  intenable := 0
  softint := 0
  protection := 0
  swPriorityMask := 0xffff
  vectAddr := .replicate 32 0
  vectPriority := .replicate 32 0xf
  address := 0
  current := pl192NoIrq
  currentHighest := pl192NoIrq
  stackI := 0
  priorityStack := (Vector.replicate 17 0).set 0 0x10
  irqStack := (Vector.replicate 17 0).set 0 pl192NoIrq
  priority := 0x10
  daisyVectaddr := 0
  daisyPriority := 0xf
  daisyCallback := none
  daisyInput := false

/-! ### The machine -/

/-- What the guest and the devices do to the controller at a place of the chain. -/
inductive Pl192Op
  | irq (k : Nat) (line : Fin 32) (level : Bool)
  | read (k offset : Nat)
  | write (k offset : Nat) (value : BitVec 32)
deriving DecidableEq

/-- The machine runs until `hw_error` ends it. -/
inductive Vics
  | running (c : Chain)
  | halted

/-- The controllers after a reset. -/
def Vics.start : Vics := .running ⟨fun _ => pl192Reset, false, false⟩

/-- The outcome of an access: `none` if it indexed outside of an array. -/
def Vics.after : Except Pl192Stop Chain → Option Vics
  | .ok c => some (.running c)
  | .error .hwError => some .halted
  | .error .fault => none

/-- What an operation leaves. -/
def Pl192Op.access (c : Chain) : Pl192Op → Except Pl192Stop Chain
  | .irq k line level => .ok (pl192IrqHandler k c line level)
  | .read k offset => (pl192Read k c offset).map Prod.fst
  | .write k offset value => pl192Write k c offset value

/-- One operation; `hw_error` halts the machine. -/
def Pl192Op.exec : Vics → Pl192Op → Option Vics
  | .running c, op => Vics.after (op.access c)
  | .halted, _ => some .halted

end Qemu.Hw
