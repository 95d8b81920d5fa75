import Qemu.Lib.Bytes
import Qemu.Lib.Ring
import Qemu.Lib.Runs

namespace Qemu.Hw

open Lib

/-!
# The UART of the S5PC1XX (`hw/s5pc1xx_uart.c`)

The bytes that arrive are held in a ring while the FIFO is enabled, and in URXH while it is not.

* `uartCanReceive`, `uartReceive` — chunks from the character device;
* `uartRead`, `uartWrite` — the registers;
* `UartRx` — the controller, with the bytes that it was to receive and those it returned;
* `uart_receives` — in a run of operations that fit, it returns them all, each once and in order.
-/

/-! ### Constants -/

def QUEUE_SIZE : Nat := 257

def UART_INT_RXD : BitVec 32 := 1 <<< 0
def UART_INT_ERROR : BitVec 32 := 1 <<< 1
def UART_INT_TXD : BitVec 32 := 1 <<< 2

def TRSTATUS_TRANSMITTER_READY : BitVec 32 := 1 <<< 2
def TRSTATUS_BUFFER_EMPTY : BitVec 32 := 1 <<< 1
def TRSTATUS_DATA_READY : BitVec 32 := 1 <<< 0

def UFSTAT_RX_FIFO_FULL : BitVec 32 := 1 <<< 8

def UFCON_FIFO_ENABLED : BitVec 32 := 1 <<< 0
def UFCON_TX_LEVEL_SHIFT : Nat := 8
def UFCON_TX_LEVEL : BitVec 32 := 7 <<< UFCON_TX_LEVEL_SHIFT

def UFSTAT_TX_COUNT_SHIT : Nat := 16
def UFSTAT_TX_COUNT : BitVec 32 := 0xFF <<< UFSTAT_TX_COUNT_SHIT

/-! ### State -/

instance : NeZero QUEUE_SIZE := ⟨by decide⟩

/-- `UartQueue`: `queue`, `s` and `t` are the cells, the head and the tail of a ring, whose size is
    not that of its array. -/
structure UartQueue extends Ring Byte QUEUE_SIZE where
  size : BitVec 32

/-- `S5pc1xxUartState`; `chr` holds the bytes that went to the character device, if there is one,
    and `irq` is the level of the line. -/
structure Uart where
  rx : UartQueue
  ulcon : BitVec 32
  ucon : BitVec 32
  ufcon : BitVec 32
  umcon : BitVec 32
  utrstat : BitVec 32
  uerstat : BitVec 32
  ufstat : BitVec 32
  umstat : BitVec 32
  urxh : BitVec 32
  ubrdiv : BitVec 32
  udivslot : BitVec 32
  uintp : BitVec 32
  uintsp : BitVec 32
  uintm : BitVec 32
  chr : Option (List Byte)
  irq : Bool

/-! ### The queue -/

/-- `queue_elem_count` -/
def queueElemCount (q : UartQueue) : Nat :=
  q.count

/-- `queue_empty_count` -/
def queueEmptyCount (q : UartQueue) : Int :=
  (q.size - BitVec.ofNat 32 (queueElemCount q) - 1).toInt

/-- `queue_empty` -/
def queueEmpty (q : UartQueue) : Bool :=
  queueElemCount q == 0

/-- `queue_push` -/
def queuePush (q : UartQueue) (x : Byte) : UartQueue :=
  { q with toRing := q.push x }

/-- `queue_get` -/
def queueGet (q : UartQueue) : Byte × UartQueue :=
  (q.cells q.head, { q with toRing := q.pop })

/-- `queue_reset` -/
def queueReset (q : UartQueue) : UartQueue :=
  { q with head := 0, tail := 0 }

/-! ### Interrupts -/

/-- `a && b` -/
def cAnd (a b : BitVec 32) : BitVec 32 :=
  if a ≠ 0 ∧ b ≠ 0 then 1 else 0

/-- `s5pc1xx_uart_update` -/
def uartUpdate (s : Uart) : Uart :=
  let uintsp :=
    if cAnd s.ufcon UFCON_FIFO_ENABLED ≠ 0 ∧
        cAnd s.ufstat UFSTAT_TX_COUNT >>> UFSTAT_TX_COUNT_SHIT ≤
          cAnd s.ufcon UFCON_TX_LEVEL >>> UFCON_TX_LEVEL_SHIFT * 2 then
      s.uintsp ||| UART_INT_TXD
    else s.uintsp
  { s with uintsp := uintsp, uintp := uintsp &&& ~~~s.uintm, irq := uintsp &&& ~~~s.uintm ≠ 0 }

/-! ### Registers -/

/-- The read of URXH. -/
def uartReadUrxh (s : Uart) : BitVec 32 × Uart :=
  if s.ufcon &&& 1 ≠ 0 then
    if !queueEmpty s.rx then
      let (x, rx) := queueGet s.rx
      let utrstat :=
        if queueEmpty rx then s.utrstat &&& ~~~TRSTATUS_DATA_READY
        else s.utrstat ||| TRSTATUS_DATA_READY
      (x.setWidth 32, { s with rx := rx, utrstat := utrstat })
    else (0, uartUpdate { s with uintsp := s.uintsp ||| UART_INT_ERROR })
  else (s.urxh, { s with utrstat := s.utrstat &&& ~~~TRSTATUS_DATA_READY })

/-- The read of UFSTAT. -/
def uartReadUfstat (s : Uart) : BitVec 32 × Uart :=
  let count := BitVec.ofNat 32 (queueElemCount s.rx) &&& 0xff
  let ufstat := if queueEmptyCount s.rx = 0 then count ||| UFSTAT_RX_FIFO_FULL else count
  (ufstat, { s with ufstat := ufstat })

/-- `s5pc1xx_uart_mm_read`; `none` is `hw_error`. -/
def uartRead (s : Uart) (offset : BitVec 32) : Option (BitVec 32 × Uart) :=
  match offset.toNat with
  | 0x00 => some (s.ulcon, s)
  | 0x04 => some (s.ucon, s)
  | 0x08 => some (s.ufcon, s)
  | 0x0C => some (s.umcon, s)
  | 0x10 => some (s.utrstat, s)
  | 0x14 => some (s.uerstat, { s with uerstat := 0 })
  | 0x18 => some (uartReadUfstat s)
  | 0x1C => some (s.umstat, s)
  | 0x24 => some (uartReadUrxh s)
  | 0x28 => some (s.ubrdiv, s)
  | 0x2C => some (s.udivslot, s)
  | 0x30 => some (s.uintp, s)
  | 0x34 => some (s.uintsp, s)
  | 0x38 => some (s.uintm, s)
  | _ => none

/-- The write of UTXH. -/
def uartWriteUtxh (s : Uart) (val : BitVec 32) : Uart :=
  match s.chr with
  | none => s
  | some sent =>
    let busy := s.utrstat &&& ~~~(TRSTATUS_TRANSMITTER_READY ||| TRSTATUS_BUFFER_EMPTY)
    { s with
      chr := some (sent ++ [val.setWidth 8])
      utrstat := busy ||| (TRSTATUS_TRANSMITTER_READY ||| TRSTATUS_BUFFER_EMPTY)
      uintsp := s.uintsp ||| UART_INT_TXD }

/-- The write of UFCON. -/
def uartWriteUfcon (s : Uart) (val : BitVec 32) : Uart :=
  { s with ufcon := val &&& ~~~6, rx := if val &&& 2 ≠ 0 then queueReset s.rx else s.rx }

/-- `s5pc1xx_uart_mm_write`; `none` is `hw_error`. -/
def uartWrite (s : Uart) (offset val : BitVec 32) : Option Uart :=
  match offset.toNat with
  | 0x00 => some (uartUpdate { s with ulcon := val })
  | 0x04 => some (uartUpdate { s with ucon := val })
  | 0x08 => some (uartUpdate (uartWriteUfcon s val))
  | 0x0C => some (uartUpdate { s with umcon := val })
  | 0x20 => some (uartUpdate (uartWriteUtxh s val))
  | 0x28 => some (uartUpdate { s with ubrdiv := val })
  | 0x2C => some (uartUpdate { s with udivslot := val })
  | 0x30 => some (uartUpdate { s with uintp := s.uintp &&& ~~~val, uintsp := s.uintsp &&& ~~~val })
  | 0x34 => some (uartUpdate { s with uintsp := val })
  | 0x38 => some (uartUpdate { s with uintm := val })
  | _ => none

/-! ### Chunks -/

/-- `s5pc1xx_uart_can_receive` -/
def uartCanReceive (s : Uart) : Int :=
  queueEmptyCount s.rx

/-- `s5pc1xx_uart_trigger_level` -/
def uartTriggerLevel (s : Uart) : Uart :=
  if !queueEmpty s.rx then { s with uintsp := s.uintsp ||| UART_INT_RXD } else s

/-- The loop of `s5pc1xx_uart_receive` when the chunk is too large: it compares `i` with the room
    that is left.  `none` is a read behind the chunk. -/
def uartPushRoom (q : UartQueue) (i : Nat) : List Byte → Option UartQueue
  | [] => if i < queueEmptyCount q then none else some q
  | x :: buf => if i < queueEmptyCount q then uartPushRoom (queuePush q x) (i + 1) buf else some q

/-- `s5pc1xx_uart_receive`; `none` is a read behind the chunk. -/
def uartReceive (s : Uart) (buf : List Byte) : Option Uart :=
  if s.ufcon &&& 1 ≠ 0 then
    if queueEmptyCount s.rx < buf.length then
      (uartPushRoom s.rx 0 buf).map fun rx =>
        uartUpdate (uartTriggerLevel { s with
          rx := rx
          uintp := s.uintp ||| UART_INT_ERROR
          utrstat := s.utrstat ||| TRSTATUS_DATA_READY })
    else
      some (uartUpdate (uartTriggerLevel { s with
        rx := buf.foldl queuePush s.rx, utrstat := s.utrstat ||| TRSTATUS_DATA_READY }))
  else
    buf.head?.map fun x =>
      uartUpdate { s with
        urxh := x.setWidth 32
        uintsp := s.uintsp ||| UART_INT_RXD
        utrstat := s.utrstat ||| TRSTATUS_DATA_READY }

/-- `s5pc1xx_uart_reset`: URXH is not reset. -/
def uartReset (s : Uart) : Uart :=
  { s with
    ulcon := 0, ucon := 0, ufcon := 0, umcon := 0, utrstat := 0x6, uerstat := 0, ufstat := 0
    umstat := 0, ubrdiv := 0, udivslot := 0, uintp := 0, uintsp := 0, uintm := 0
    rx := queueReset s.rx }

/-- The device as it is allocated, for the properties `queue-size` and `chr`. -/
def uartZero (size : BitVec 32) (chr : Bool) : Uart where
  rx := { cells := fun _ => 0, head := 0, tail := 0, size := size }
  ulcon := 0
  ucon := 0
  ufcon := 0
  umcon := 0
  utrstat := 0
  uerstat := 0
  ufstat := 0
  umstat := 0
  urxh := 0
  ubrdiv := 0
  udivslot := 0
  uintp := 0
  uintsp := 0
  uintm := 0
  chr := if chr then some [] else none
  irq := false

/-- `s5pc1xx_uart_init1` -/
def uartInit (size : BitVec 32) (chr : Bool) : Uart :=
  uartReset (uartZero size chr)

/-! ### Runs -/

/-- What the guest and the character device do. -/
inductive UartOp
  | receive (buf : List Byte)
  | read (offset : BitVec 32)
  | write (offset val : BitVec 32)
deriving DecidableEq

/-- The controller, the bytes that it was to receive, and what the reads of URXH answered: those at
    which a byte was left to be returned, and the others. -/
structure UartRx where
  uart : Uart
  received : List Byte
  returned : List (BitVec 32)
  empty : List (BitVec 32)

/-- `hw_error` ends the emulation. -/
inductive UartMachine
  | running (m : UartRx)
  | halted

/-- A UART with nothing received. -/
def UartMachine.start (size : BitVec 32) (chr : Bool) : UartMachine :=
  .running ⟨uartInit size chr, [], [], []⟩

/-- A read of a register. -/
def UartRx.read (m : UartRx) (offset : BitVec 32) (val : BitVec 32) (s : Uart) : UartRx :=
  if offset ≠ 0x24 then { m with uart := s }
  else if m.returned.length < m.received.length then
    { m with uart := s, returned := m.returned ++ [val] }
  else { m with uart := s, empty := m.empty ++ [val] }

/-- An operation.  Of a chunk the controller is to receive as many bytes as there is room for. -/
def UartOp.exec : UartMachine → UartOp → Option UartMachine
  | .halted, _ => some .halted
  | .running m, .receive buf =>
    (uartReceive m.uart buf).map fun s => .running { m with
      uart := s, received := m.received ++ buf.take (uartCanReceive m.uart).toNat }
  | .running m, .read offset =>
    match uartRead m.uart offset with
    | some (val, s) => some (.running (m.read offset val s))
    | none => some .halted
  | .running m, .write offset val =>
    match uartWrite m.uart offset val with
    | some s => some (.running { m with uart := s })
    | none => some .halted

/-! ### The condition -/

/-- `TRSTATUS_DATA_READY` of UTRSTAT -/
def Uart.dataReady (s : Uart) : Bool :=
  s.utrstat.getLsbD 0

/-- The byte that is next is where the mode looks for it, and URXH is not returned twice. -/
def Uart.FitsRead (s : Uart) : Prop :=
  (s.ufcon &&& 1 ≠ 0 → queueElemCount s.rx = 0 → s.dataReady = false) ∧
    (s.ufcon &&& 1 = 0 → queueElemCount s.rx = 0 ∧ (s.dataReady = true ∨ s.urxh = 0))

/-- How many bytes of a chunk there is room for. -/
def Uart.accepts (s : Uart) (len : Nat) : Nat :=
  min len (uartCanReceive s).toNat

/-- The bytes that there is room for all get where the mode puts them, behind those that wait. -/
def Uart.FitsReceive (s : Uart) (len : Nat) : Prop :=
  (s.ufcon &&& 1 ≠ 0 →
    (queueElemCount s.rx = 0 → s.dataReady = false ∧ s.accepts len ≠ 0) ∧
      (s.accepts len < len → s.accepts len ≤ 1) ∧
      queueElemCount s.rx + s.accepts len < QUEUE_SIZE) ∧
    (s.ufcon &&& 1 = 0 →
      queueElemCount s.rx = 0 ∧ s.dataReady = false ∧ s.accepts len = 1)

instance (s : Uart) : Decidable s.FitsRead :=
  inferInstanceAs (Decidable (_ ∧ _))

instance (s : Uart) (len : Nat) : Decidable (s.FitsReceive len) :=
  inferInstanceAs (Decidable (_ ∧ _))

/-- What an operation is to meet for the bytes to be returned. -/
def UartOp.Fits : UartMachine → UartOp → Prop
  | .running m, .receive buf => m.uart.FitsReceive buf.length
  | .running m, .read offset => offset = 0x24 → m.uart.FitsRead
  | _, _ => True

instance UartOp.decidableFits : ∀ (m : UartMachine) (op : UartOp), Decidable (op.Fits m)
  | .running m, .receive buf => inferInstanceAs (Decidable (m.uart.FitsReceive buf.length))
  | .running m, .read offset => inferInstanceAs (Decidable (offset = 0x24 → m.uart.FitsRead))
  | .running _, .write _ _ => instDecidableTrue
  | .halted, _ => instDecidableTrue

/-- The FIFO is not reset. -/
def UartOp.KeepsFifo : UartOp → Prop
  | .write offset val => offset = 0x08 → val &&& 2 = 0
  | _ => True

/-- Each byte is returned once and in order, and UTRSTAT says whether one is left. -/
structure UartRx.Right (m : UartRx) : Prop where
  order : m.returned <+: m.received.map (BitVec.setWidth 32)
  ready : m.uart.dataReady = true ↔ m.returned.length < m.received.length
  empty : ∀ val ∈ m.empty, val = 0

/-- What was read is the start of what was received. -/
def UartMachine.Right : UartMachine → Prop
  | .running m => m.Right
  | .halted => True

/-! ### The bytes that wait -/

/-- The bytes that have not been returned. -/
def Uart.unread (s : Uart) : List (BitVec 32) :=
  if queueElemCount s.rx ≠ 0 then s.rx.contents.map (BitVec.setWidth 32)
  else if s.dataReady then [s.urxh] else []

/-- Bytes that wait in the queue are announced. -/
def Uart.Announces (s : Uart) : Prop :=
  queueElemCount s.rx ≠ 0 → s.dataReady = true

variable {s : Uart}

theorem Uart.dataReady_iff (h : s.Announces) : s.dataReady = true ↔ s.unread ≠ [] := by
  unfold Uart.unread
  split_ifs with hcount hready
  · have hlen : s.rx.contents ≠ [] := by
      rw [← List.length_pos_iff, Ring.length_contents]
      exact Nat.pos_of_ne_zero hcount
    simp [h hcount, hlen]
  · simp [hready]
  · simp [hready]

/-- What an operation leaves as it is that has nothing to do with the bytes. -/
structure Uart.SameRx (s s' : Uart) : Prop where
  rx : s'.rx = s.rx
  urxh : s'.urxh = s.urxh
  ready : s'.dataReady = s.dataReady

variable {s' : Uart}

theorem Uart.SameRx.unread (h : s.SameRx s') : s'.unread = s.unread := by
  unfold Uart.unread
  rw [h.rx, h.urxh, h.ready]

theorem Uart.SameRx.announces (h : s.SameRx s') (hs : s.Announces) : s'.Announces := by
  unfold Uart.Announces
  rw [h.rx, h.ready]
  exact hs

theorem Uart.SameRx.trans {s'' : Uart} (h : s.SameRx s') (h' : s'.SameRx s'') : s.SameRx s'' :=
  ⟨h'.rx.trans h.rx, h'.urxh.trans h.urxh, h'.ready.trans h.ready⟩

theorem uartUpdate_sameRx (s : Uart) : s.SameRx (uartUpdate s) :=
  ⟨rfl, rfl, rfl⟩

theorem uartTriggerLevel_sameRx (s : Uart) : s.SameRx (uartTriggerLevel s) := by
  unfold uartTriggerLevel
  split_ifs <;> exact ⟨rfl, rfl, rfl⟩

/-! ### Reads -/

theorem getLsbD_dataReady_off (x : BitVec 32) :
    (x &&& ~~~TRSTATUS_DATA_READY).getLsbD 0 = false := by
  simp [TRSTATUS_DATA_READY]

theorem getLsbD_dataReady_on (x : BitVec 32) : (x ||| TRSTATUS_DATA_READY).getLsbD 0 = true := by
  simp [TRSTATUS_DATA_READY]

theorem queueEmpty_iff (q : UartQueue) : queueEmpty q = true ↔ queueElemCount q = 0 :=
  beq_iff_eq

theorem Uart.unread_of_queue (h : queueElemCount s.rx = 0 → s.dataReady = false) :
    s.unread = s.rx.contents.map (BitVec.setWidth 32) := by
  unfold Uart.unread
  split_ifs with hcount hready
  · rfl
  · exact absurd hready (by simp [h (not_not.mp hcount)])
  · rw [Ring.contents_eq_nil (not_not.mp hcount)]
    rfl

/-- The read of URXH while the FIFO is enabled and not empty. -/
theorem uartReadUrxh_queue (hmode : s.ufcon &&& 1 ≠ 0) (hcount : queueElemCount s.rx ≠ 0) :
    (uartReadUrxh s).1 = (s.rx.cells s.rx.head).setWidth 32 ∧
      (uartReadUrxh s).2.unread = s.rx.pop.contents.map (BitVec.setWidth 32) ∧
      (uartReadUrxh s).2.Announces := by
  have hempty : queueEmpty s.rx = false := by simp [queueEmpty, hcount]
  unfold uartReadUrxh
  rw [if_pos hmode, hempty, Bool.not_false, if_pos rfl]
  refine ⟨rfl, ?_, ?_⟩
  · apply Uart.unread_of_queue
    intro hlast
    show (ite _ _ _ : BitVec 32).getLsbD 0 = false
    rw [if_pos ((queueEmpty_iff _).mpr hlast)]
    exact getLsbD_dataReady_off _
  · intro hmore
    show (ite _ _ _ : BitVec 32).getLsbD 0 = true
    rw [if_neg fun hlast => hmore ((queueEmpty_iff _).mp hlast)]
    exact getLsbD_dataReady_on _

/-- A read of URXH returns the byte that is next, and leaves the others. -/
theorem uartReadUrxh_spec (h : s.Announces) (hfits : s.FitsRead) :
    (uartReadUrxh s).1 = s.unread.headD 0 ∧ (uartReadUrxh s).2.unread = s.unread.tail ∧
      (uartReadUrxh s).2.Announces := by
  obtain ⟨hfifo, hplain⟩ := hfits
  by_cases hmode : s.ufcon &&& 1 ≠ 0
  · have hunread := Uart.unread_of_queue (hfifo hmode)
    by_cases hcount : queueElemCount s.rx = 0
    -- nothing waits, neither in the queue nor in URXH
    · have hkeep : s.SameRx { s with uintsp := s.uintsp ||| UART_INT_ERROR } := ⟨rfl, rfl, rfl⟩
      have hsame := hkeep.trans (uartUpdate_sameRx _)
      have hnone : s.unread = [] := by
        rw [hunread, Ring.contents_eq_nil hcount]
        rfl
      unfold uartReadUrxh
      rw [if_pos hmode, (queueEmpty_iff _).mpr hcount, Bool.not_true, if_neg Bool.false_ne_true,
        hnone]
      exact ⟨rfl, hsame.unread.trans hnone, hsame.announces h⟩
    · obtain ⟨hval, hrest, hready⟩ := uartReadUrxh_queue hmode hcount
      rw [hunread, Ring.contents_pop hcount, List.map_cons]
      exact ⟨hval, hrest, hready⟩
  · obtain ⟨hcount, hready⟩ := hplain (not_not.mp hmode)
    have hread : (uartReadUrxh s) =
        (s.urxh, { s with utrstat := s.utrstat &&& ~~~TRSTATUS_DATA_READY }) := if_neg hmode
    have hoff : (uartReadUrxh s).2.dataReady = false := by
      rw [hread]
      exact getLsbD_dataReady_off s.utrstat
    have hnone : (uartReadUrxh s).2.unread = [] := by
      rw [Uart.unread_of_queue fun _ => hoff, hread]
      simp [Ring.contents_eq_nil hcount]
    have hunread : s.unread = if s.dataReady then [s.urxh] else [] :=
      if_neg (not_not.mpr hcount)
    rw [hnone, hread, hunread]
    refine ⟨?_, ?_, fun hne => absurd hcount hne⟩
    · split_ifs with hbyte
      · rfl
      · exact hready.resolve_left hbyte
    · split_ifs <;> rfl

variable {offset val : BitVec 32}

theorem uartRead_sameRx (hoffset : offset ≠ 0x24) (hread : uartRead s offset = some (val, s')) :
    s.SameRx s' := by
  unfold uartRead at hread
  split at hread
  case h_9 heq => exact absurd (BitVec.eq_of_toNat_eq heq) hoffset
  case h_15 => cases hread
  all_goals
    cases hread
    exact ⟨rfl, rfl, rfl⟩

/-! ### Writes -/

theorem uartWriteUtxh_sameRx (s : Uart) (val : BitVec 32) : s.SameRx (uartWriteUtxh s val) := by
  unfold uartWriteUtxh
  split
  · exact ⟨rfl, rfl, rfl⟩
  · refine ⟨rfl, rfl, ?_⟩
    simp [Uart.dataReady, TRSTATUS_TRANSMITTER_READY, TRSTATUS_BUFFER_EMPTY]

theorem uartWrite_sameRx (hkeep : offset = 0x08 → val &&& 2 = 0)
    (hwrite : uartWrite s offset val = some s') : s.SameRx s' := by
  have hupdate : ∀ s₁ : Uart, s.SameRx s₁ → s.SameRx (uartUpdate s₁) := fun s₁ h =>
    h.trans (uartUpdate_sameRx s₁)
  unfold uartWrite at hwrite
  split at hwrite
  case h_11 => cases hwrite
  all_goals
    obtain rfl := Option.some.inj hwrite
    apply hupdate
  case h_3 heq =>
    have hreset : ¬val &&& 2 ≠ 0 := not_not.mpr (hkeep (BitVec.eq_of_toNat_eq heq))
    exact ⟨if_neg hreset, rfl, rfl⟩
  case h_5 => exact uartWriteUtxh_sameRx s val
  all_goals exact ⟨rfl, rfl, rfl⟩

/-! ### Chunks -/

theorem foldl_queuePush (q : UartQueue) (buf : List Byte) :
    buf.foldl queuePush q = { q with toRing := buf.foldl Ring.push q.toRing } := by
  induction buf generalizing q with
  | nil => rfl
  | cons x buf ih => exact ih (queuePush q x)

/-- The room that is left after a byte. -/
theorem queueEmptyCount_push {q : UartQueue} (x : Byte)
    (hcount : queueElemCount q + 1 < QUEUE_SIZE) (hroom : queueEmptyCount q = 1) :
    queueEmptyCount (queuePush q x) = 0 := by
  have hone : q.size - BitVec.ofNat 32 (queueElemCount q) - 1 = 1 := BitVec.eq_of_toInt_eq hroom
  have hpush : queueElemCount (queuePush q x) = queueElemCount q + 1 := Ring.count_push hcount x
  unfold queueEmptyCount
  rw [hpush, BitVec.ofNat_add]
  show (q.size - (BitVec.ofNat 32 (queueElemCount q) + 1) - 1).toInt = 0
  rw [← BitVec.sub_sub, hone]
  rfl

variable {buf : List Byte}

/-- A chunk that is too large: the loop stops in time if there is room for one byte at most. -/
theorem uartPushRoom_eq {q : UartQueue} (hlarge : queueEmptyCount q < buf.length)
    (hroom : queueEmptyCount q ≤ 1)
    (hcount : queueElemCount q + (queueEmptyCount q).toNat < QUEUE_SIZE) :
    uartPushRoom q 0 buf = some ((buf.take (queueEmptyCount q).toNat).foldl queuePush q) := by
  by_cases hone : queueEmptyCount q = 1
  · rw [hone] at hlarge hcount ⊢
    cases buf with
    | nil => cases hlarge
    | cons x buf =>
      have hnone := queueEmptyCount_push x hcount hone
      have hstop : uartPushRoom (queuePush q x) 1 buf = some (queuePush q x) := by
        cases buf <;> rw [uartPushRoom, hnone] <;> rfl
      rw [uartPushRoom, hone, if_pos (by decide), hstop]
      rfl
  · have hzero : queueEmptyCount q ≤ 0 := by omega
    have htoNat : (queueEmptyCount q).toNat = 0 := Int.toNat_of_nonpos hzero
    rw [htoNat]
    cases buf <;> rw [uartPushRoom, if_neg (by push_cast; omega)] <;> rfl

/-- Bytes that are pushed wait behind the others. -/
theorem unread_foldl_queuePush (hempty : queueElemCount s.rx = 0 → s.dataReady = false)
    (hcount : queueElemCount s.rx + buf.length < QUEUE_SIZE)
    (hrx : s'.rx = buf.foldl queuePush s.rx) (hsome : queueElemCount s.rx + buf.length ≠ 0) :
    s'.unread = s.unread ++ buf.map (BitVec.setWidth 32) := by
  have hcontents : s'.rx.contents = s.rx.contents ++ buf := by
    rw [hrx, foldl_queuePush]
    exact Ring.contents_foldl_push hcount
  have hlen : queueElemCount s'.rx = queueElemCount s.rx + buf.length := by
    have hlength := congrArg List.length hcontents
    rwa [List.length_append, Ring.length_contents, Ring.length_contents] at hlength
  rw [Uart.unread_of_queue hempty, ← List.map_append, ← hcontents]
  exact if_pos (by rw [hlen]; exact hsome)

/-- A chunk that fits is received as far as there is room for it. -/
theorem uartReceive_spec (hfits : s.FitsReceive buf.length) :
    ∃ s', uartReceive s buf = some s' ∧ s'.Announces ∧ s'.unread =
      s.unread ++ (buf.take (uartCanReceive s).toNat).map (BitVec.setWidth 32) := by
  obtain ⟨hfifo, hplain⟩ := hfits
  have hlen : (buf.take (uartCanReceive s).toNat).length = s.accepts buf.length := by
    rw [List.length_take, Nat.min_comm]
    rfl
  by_cases hmode : s.ufcon &&& 1 ≠ 0
  · obtain ⟨hempty, hloop, hcount⟩ := hfifo hmode
    rw [← hlen] at hcount
    have hsome : queueElemCount s.rx + (buf.take (uartCanReceive s).toNat).length ≠ 0 := by
      intro hzero
      have hnone := hempty (by omega)
      omega
    -- both loops push what there is room for
    obtain ⟨s₁, hreceive, hrx, hready⟩ : ∃ s₁, uartReceive s buf =
        some (uartUpdate (uartTriggerLevel s₁)) ∧
        s₁.rx = (buf.take (uartCanReceive s).toNat).foldl queuePush s.rx ∧
        s₁.dataReady = true := by
      unfold uartReceive
      rw [if_pos hmode]
      by_cases hlarge : queueEmptyCount s.rx < buf.length
      · have hmin : s.accepts buf.length = (queueEmptyCount s.rx).toNat := by
          show min buf.length (queueEmptyCount s.rx).toNat = _
          omega
        have hroom : queueEmptyCount s.rx ≤ 1 := by omega
        rw [if_pos hlarge, uartPushRoom_eq hlarge hroom (by omega)]
        exact ⟨_, rfl, rfl, getLsbD_dataReady_on _⟩
      · have htake : buf.take (uartCanReceive s).toNat = buf :=
          List.take_of_length_le (by show buf.length ≤ (queueEmptyCount s.rx).toNat; omega)
        rw [if_neg hlarge, htake]
        exact ⟨_, rfl, rfl, getLsbD_dataReady_on _⟩
    have hsame := (uartTriggerLevel_sameRx s₁).trans (uartUpdate_sameRx _)
    refine ⟨_, hreceive, hsame.announces fun _ => hready, ?_⟩
    rw [hsame.unread]
    exact unread_foldl_queuePush (fun hzero => (hempty hzero).1) hcount hrx hsome
  · obtain ⟨hcount, hready, hone⟩ := hplain (not_not.mp hmode)
    rw [← hlen] at hone
    have hnone : s.unread = [] := by
      rw [Uart.unread_of_queue fun _ => hready, Ring.contents_eq_nil hcount]
      rfl
    cases buf with
    | nil => simp at hone
    | cons x buf =>
      have htake : (x :: buf).take (uartCanReceive s).toNat = [x] := by
        cases hroom : (uartCanReceive s).toNat with
        | zero => simp [hroom] at hone
        | succ room =>
          rw [hroom, List.take_succ_cons, List.length_cons] at hone
          rw [List.take_succ_cons, List.eq_nil_of_length_eq_zero (Nat.succ.inj hone)]
      unfold uartReceive
      rw [if_neg hmode, htake, hnone]
      refine ⟨_, rfl, fun _ => getLsbD_dataReady_on _, ?_⟩
      refine (if_neg (not_not.mpr hcount)).trans (if_pos ?_)
      exact getLsbD_dataReady_on _

/-! ### No byte is lost, returned twice or out of order -/

/-- The bytes that were returned and those that wait are those that were received. -/
structure UartRx.Keeps (m : UartRx) : Prop where
  history : m.received.map (BitVec.setWidth 32) = m.returned ++ m.uart.unread
  announces : m.uart.Announces
  empty : ∀ val ∈ m.empty, val = 0

/-- The invariant of a run. -/
def UartMachine.Keeps : UartMachine → Prop
  | .running m => m.Keeps
  | .halted => True

variable {m : UartRx}

theorem UartRx.Keeps.length (h : m.Keeps) :
    m.received.length = m.returned.length + m.uart.unread.length := by
  have hlen := congrArg List.length h.history
  rwa [List.length_map, List.length_append] at hlen

theorem UartRx.Keeps.right (h : m.Keeps) : m.Right where
  order := ⟨m.uart.unread, h.history.symm⟩
  ready := by
    have hlen := h.length
    rw [Uart.dataReady_iff h.announces, ← List.length_pos_iff]
    omega
  empty := h.empty

theorem UartRx.Keeps.same (h : m.Keeps) (hsame : m.uart.SameRx s) :
    UartRx.Keeps { m with uart := s } where
  history := by
    rw [hsame.unread]
    exact h.history
  announces := hsame.announces h.announces
  empty := h.empty

/-- A read of a byte that waits keeps the invariant. -/
theorem UartRx.Keeps.read (h : m.Keeps) (hfits : offset = 0x24 → m.uart.FitsRead)
    (hread : uartRead m.uart offset = some (val, s)) : (m.read offset val s).Keeps := by
  unfold UartRx.read
  by_cases hoffset : offset = 0x24
  · subst hoffset
    have hpair : uartReadUrxh m.uart = (val, s) := Option.some.inj hread
    obtain ⟨hval, hrest, hannounces⟩ := uartReadUrxh_spec h.announces (hfits rfl)
    rw [hpair] at hval hrest hannounces
    have hlen := h.length
    have hhistory := h.history
    rw [if_neg (not_not.mpr rfl)]
    -- an empty queue gives no byte, and none is counted as returned
    cases hunread : m.uart.unread with
    | nil =>
      rw [hunread] at hval hrest hlen hhistory
      rw [List.length_nil] at hlen
      rw [if_neg (by omega)]
      refine ⟨?_, hannounces, ?_⟩
      · rw [hrest]
        exact hhistory
      · intro v hv
        rcases List.mem_append.mp hv with hold | hnew
        · exact h.empty v hold
        · exact (List.mem_singleton.mp hnew).trans hval
    | cons x rest =>
      rw [hunread] at hval hrest hlen hhistory
      rw [List.length_cons] at hlen
      rw [if_pos (by omega)]
      refine ⟨?_, hannounces, h.empty⟩
      have hx : val = x := hval
      show _ = (m.returned ++ [val]) ++ s.unread
      rw [hrest, hx, List.append_assoc]
      exact hhistory
  · rw [if_pos hoffset]
    exact h.same (uartRead_sameRx hoffset hread)

/-- So does every step that fits. -/
theorem UartOp.exec_keeps {m : UartMachine} {op : UartOp} (h : m.Keeps)
    (hop : op.Fits m ∧ op.KeepsFifo) : ∃ m', op.exec m = some m' ∧ m'.Keeps := by
  obtain ⟨hfits, hkeep⟩ := hop
  cases m with
  | halted => cases op <;> exact ⟨_, rfl, trivial⟩
  | running m =>
    cases op with
    | receive buf =>
      obtain ⟨s', hreceive, hannounces, hunread⟩ := uartReceive_spec hfits
      refine ⟨_, congrArg (Option.map _) hreceive, ?_, hannounces, h.empty⟩
      show (m.received ++ buf.take _).map _ = m.returned ++ s'.unread
      rw [List.map_append, h.history, hunread, List.append_assoc]
    | read offset =>
      cases hread : uartRead m.uart offset with
      | none => exact ⟨.halted, by simp [UartOp.exec, hread], trivial⟩
      | some r =>
        exact ⟨.running (m.read offset r.1 r.2), by simp only [UartOp.exec, hread],
          h.read hfits hread⟩
    | write offset val =>
      cases hwrite : uartWrite m.uart offset val with
      | none => exact ⟨.halted, by simp [UartOp.exec, hwrite], trivial⟩
      | some s =>
        refine ⟨.running { m with uart := s }, by simp only [UartOp.exec, hwrite], ?_⟩
        exact h.same (uartWrite_sameRx hkeep hwrite)

theorem UartMachine.start_keeps (size : BitVec 32) (chr : Bool) :
    (UartMachine.start size chr).Keeps := by
  have hready : (uartInit size chr).dataReady = false := by
    show (0x6 : BitVec 32).getLsbD 0 = false
    decide
  have hnone : (uartInit size chr).unread = [] := by
    rw [Uart.unread_of_queue fun _ => hready, Ring.contents_eq_nil rfl]
    rfl
  refine ⟨?_, fun hsome => absurd rfl hsome, List.forall_mem_nil _⟩
  show [] = [] ++ (uartInit size chr).unread
  rw [hnone]
  rfl

/-- **The UART receives.**  In a run without a reset of the FIFO, whose chunks fit and whose reads
    of URXH find the byte that is next where the mode looks for it, each byte is returned once and
    in order, and UTRSTAT says whether one is left. -/
theorem uart_receives (size : BitVec 32) (chr : Bool) (ops : List UartOp)
    (hfits : StepsMeet UartOp.exec (fun m op => op.Fits m) (.start size chr) ops)
    (hkeep : ∀ op ∈ ops, op.KeepsFifo) :
    ∃ m, runFrom UartOp.exec (.start size chr) ops = some m ∧ m.Right := by
  obtain ⟨m, hrun, hm⟩ := runFrom_invariant (fun _ _ hm hop => UartOp.exec_keeps hm hop)
    (UartMachine.start_keeps size chr) (hfits.and_mem hkeep)
  refine ⟨m, hrun, ?_⟩
  cases m with
  | halted => exact trivial
  | running m => exact UartRx.Keeps.right hm

/-- The FIFO is enabled, two bytes arrive, and are read; then a third one. -/
theorem uart_receives_fifo :
    ∃ m, runFrom UartOp.exec (.start 16 true) [.write 0x08 1, .receive [0x61, 0x62], .read 0x24,
      .receive [0x63], .read 0x24, .read 0x24, .read 0x24] = some m ∧ m.Right :=
  uart_receives 16 true _ (by decide +kernel) (by simp [UartOp.KeepsFifo])

/-- Without the FIFO, a chunk of two bytes is lost but for its first; with it, a chunk of three for
    which there is room for two loses the second of them. -/
theorem uart_receives_lost :
    (∃ m, runFrom UartOp.exec (.start 16 true) [.receive [0x61, 0x62], .read 0x24, .read 0x10] =
      some m ∧ ¬m.Right) ∧
    ∃ m, runFrom UartOp.exec (.start 3 true) [.write 0x08 1, .receive [0x61, 0x62, 0x63],
      .read 0x24, .read 0x10] = some m ∧ ¬m.Right := by
  refine ⟨⟨_, rfl, fun h => ?_⟩, ⟨_, rfl, fun h => ?_⟩⟩
  · exact absurd (h.ready.mpr (by decide)) (by decide)
  · exact absurd (h.ready.mpr (by decide)) (by decide)

end Qemu.Hw
