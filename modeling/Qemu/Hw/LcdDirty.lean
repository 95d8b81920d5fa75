import Qemu.Hw.LcdBounds
import Qemu.Lib.Bytes

namespace Qemu.Hw

open Lib

/-!
# The LCD controller and the dirty flags of the memory

The first pass of an update reads the VGA dirty flags of the pages of all windows, and resets them
window by window.  A page has `1024` bytes.

* `LcdMemory` — where physical pages are in the RAM, and where the RAM is in the host.
* `lcdResetDirty` — `cpu_physical_memory_reset_dirty`.
* `lcdSampled` — the pages of a line whose flags are read.
* `lcdScanFlags` — the part of the first pass that reads and resets flags.
* `LcdSystem` — a controller, the dirty flags and the memory, and what has been written since the
  last update.
-/

/-- What the physical pages are. -/
structure LcdMemory where
  /-- `cpu_get_physical_page_desc`, the page of the RAM. -/
  desc : Nat → Nat
  /-- The physical page is memory, not a device. -/
  isRam : Nat → Bool
  /-- `qemu_get_ram_ptr`: the page of the host.  It aborts outside of the RAM. -/
  host : Nat → Option Nat
  /-- Where `cpu_physical_memory_map` puts what it reads of a device, if nothing is there. -/
  bounce : Option Nat

namespace LcdMemory

variable (mem : LcdMemory)

/-- The RAM address of a physical address. -/
def ramAddr (addr : BitVec 32) : Nat := mem.desc (addr.toNat / 1024) * 1024 + addr.toNat % 1024

/-- The host address of a RAM address. -/
def hostAddr (a : Nat) : Option Nat := (mem.host (a / 1024)).map fun page => page * 1024 + a % 1024

/-- The pointer that `cpu_physical_memory_map` returns for a length that is not `0`. -/
def map (addr : BitVec 32) : Option Nat :=
  if mem.isRam (addr.toNat / 1024) then mem.hostAddr (mem.ramAddr addr) else mem.bounce

/-- `cpu_physical_memory_reset_dirty` does not abort: its pages follow each other in the host. -/
def canReset (start stop : Nat) : Bool :=
  let first := start / 1024
  let last := (stop + 1023) / 1024
  first == last || match last, mem.host first, mem.host (last - 1) with
    | n + 1, some h, some h' => (h' : Int) - h == n - first
    | _, _, _ => false

end LcdMemory

/-- A page whose flag `cpu_physical_memory_reset_dirty` resets. -/
def lcdInReset (start stop p : Nat) : Bool := start / 1024 ≤ p ∧ p < (stop + 1023) / 1024

/-- `cpu_physical_memory_reset_dirty`; `none` if it aborts. -/
def lcdResetDirty (mem : LcdMemory) (flags : Nat → Bool) (start stop : Nat) : Option (Nat → Bool) :=
  if mem.canReset start stop then some fun p => flags p && !lcdInReset start stop p else none

/-- The address of a line of a window. -/
def Lcd.lineAddr (s : Lcd) (i line : Nat) : BitVec 32 :=
  s.scanline i + BitVec.ofNat 32 (line * s.incSize i)

/-- A turn of the loop over the pages of a line. -/
def lcdSamplePage (mem : LcdMemory) (newline : BitVec 32) (r : BitVec 32 × List Nat) :
    Option ((BitVec 32 × List Nat) × Bool) :=
  if r.1 < newline then some ((r.1 + 1024, r.2 ++ [mem.desc (r.1.toNat / 1024)]), true)
  else some (r, false)

/-- The pages of a line whose flags are read.  A line has at most eight pages: a loop that does not
    end after these has wrapped around and never ends. -/
def lcdSampled (mem : LcdMemory) (s : Lcd) (i line : Nat) : Option (List Nat) :=
  (loopFor (lcdSamplePage mem (s.lineAddr i line + BitVec.ofNat 32 (s.extLineSize i))) 9
    (s.lineAddr i line, [])).map Prod.snd

/-- The dirty flags, the lines that are dirty, and whether the emulator still runs. -/
structure LcdFlagScan where
  flags : Nat → Bool
  dirty : List (Nat × Nat)
  runs : Bool

/-- `first` is the flag that has been read before the loop over the lines. -/
def lcdScanLine (mem : LcdMemory) (s : Lcd) (i : Nat) (first : Bool) (r : LcdFlagScan)
    (line : Nat) : LcdFlagScan :=
  if r.runs then
    match lcdSampled mem s i line with
    | none => { r with runs := false }
    | some pages =>
      if (line == 0 && first) || pages.any r.flags then { r with dirty := r.dirty ++ [(i, line)] }
      else r
  else r

/-- The RAM address of a window, and the end of its memory, in 32 bits. -/
def lcdResetStart (mem : LcdMemory) (s : Lcd) (i : Nat) : BitVec 32 :=
  BitVec.ofNat 32 (mem.ramAddr (s.scanline i))

/-- Where the reset of a window's flags ends, as a sum of 32 bits. -/
def lcdResetStop (mem : LcdMemory) (s : Lcd) (i : Nat) : BitVec 32 :=
  lcdResetStart mem s i + s.mapLen i

/-- The scan of a window: the flag of its physical address is read and reset as if it were a RAM
    address, then the lines are scanned, then the flags of its memory are reset. -/
def lcdScanWindow (mem : LcdMemory) (s : Lcd) (r : LcdFlagScan) (i : Nat) : LcdFlagScan :=
  if r.runs = false ∨ s.enabled i = false then r
  else
    let scanline := (s.scanline i).toNat
    match lcdResetDirty mem r.flags scanline scanline with
    | none => { r with runs := false }
    | some flags =>
      let r' := (s.rows i).foldl (lcdScanLine mem s i (r.flags (scanline / 1024)))
        { r with flags := flags }
      match lcdResetDirty mem r'.flags (lcdResetStart mem s i).toNat
        (lcdResetStop mem s i).toNat with
      | none => { r' with runs := false }
      | some flags => { r' with flags := flags }

/-- The scan of all windows. -/
def lcdScanFlags (mem : LcdMemory) (s : Lcd) (flags : Nat → Bool) : LcdFlagScan :=
  (List.range 5).foldl (lcdScanWindow mem s) ⟨flags, [], true⟩

/-! ### The system -/

/-- The controller, the memory, and the dirty flags of its pages. -/
structure LcdSystem where
  lcd : Lcd
  /-- The memory of the host. -/
  bytes : Nat → BitVec 8
  flags : Nat → Bool
  /-- The RAM addresses written since the last update. -/
  written : List Nat
  /-- Those written between the last two updates, and what the last one has shown of them. -/
  owed : List Nat
  shown : LcdShown

/-- Nothing has been written or shown yet. -/
def lcdBoot (lcd : Lcd) (bytes : Nat → BitVec 8) (flags : Nat → Bool) : LcdSystem :=
  { lcd, bytes, flags, written := [], owed := [], shown := ⟨[], 0⟩ }

/-- The guest writes to its memory, or the screen is updated. -/
inductive LcdSystemOp
  /-- The guest writes a byte of its RAM. -/
  | write (a : Nat) (val : BitVec 8)
  /-- `lcd_update`, at a number of bits per pixel of the console. -/
  | update (bitsPerPixel : Nat)

/-- `ldq_raw`. -/
def lcdLdq (bytes : Nat → BitVec 8) (a : Nat) : BitVec 64 :=
  BitVec.ofNat 64 (((List.range 8).map fun k => (bytes (a + k)).toNat * 256 ^ k).foldr (· + ·) 0)

/-- What an update finds in the memory, after its flags have been scanned. -/
def lcdScanOf (mem : LcdMemory) (m : LcdSystem) (bitsPerPixel : Nat) (r : LcdFlagScan) :
    LcdScan where
  bitsPerPixel := bitsPerPixel
  dirty i line := (i, line) ∈ r.dirty
  passes := r.runs
  map i := mem.map (m.lcd.scanline i)
  ldq := lcdLdq m.bytes

/-- One step, if it does not fault. -/
def lcdSystemStep (mem : LcdMemory) (m : LcdSystem) (op : LcdSystemOp) : Option LcdSystem :=
  if m.lcd.stopped then some m
  else match op with
    | .write a val =>
      match mem.hostAddr a with
      | none => some m
      | some h => some { m with
          bytes := Function.update m.bytes h val
          flags := Function.update m.flags (a / 1024) true
          written := a :: m.written }
    | .update bitsPerPixel =>
      let r := lcdScanFlags mem m.lcd m.flags
      (lcdUpdate m.lcd (lcdScanOf mem m bitsPerPixel r)).map fun u => { m with
        lcd := u.1
        flags := if bitsPerPixel = 0 ∨ m.lcd.displayOn = false then m.flags else r.flags
        written := []
        owed := m.written
        shown := u.2 }

end Qemu.Hw
