import Qemu.Lib.Runs
import Qemu.Migration.Savevm

namespace Qemu.Migration

open Lib

/-!
# The rate-limited file (`buffered_file.c`)

* `Answer` — what the backend does when it is offered bytes.
* `bufferedFlush`, `bufferedPutBuffer`, `bufferedClose`, `bufferedRateTick` — the functions.
* `BufferedOp.exec` — a caller calls one of them.

The answers to come are a list.  When it is used up the call of the backend has not returned yet,
and neither has the function that made it.
-/

/-- `-EAGAIN`, an error or zero, or a number of bytes: `n + 1` of them, or all if there are
fewer. -/
inductive Answer
  | again
  | error
  | takes (n : Nat)
deriving DecidableEq

/-- `QEMUFileBuffered` -/
structure QEMUFileBuffered where
  hasError : Bool
  freezeOutput : Bool
  bytesXfer : Nat
  xferLimit : Nat
  buffer : List Byte
  bufferCapacity : Nat
deriving DecidableEq

/-- The file and its backend: the bytes it accepted, the answers to come. -/
structure Buffered where
  file : QEMUFileBuffered
  accepted : List Byte
  answers : List Answer
deriving DecidableEq

/-- `qemu_fopen_ops_buffered` -/
def qemuFopenOpsBuffered (bytesPerSec : Nat) : QEMUFileBuffered :=
  ⟨false, false, 0, bytesPerSec / 10, [], 0⟩

/-- What a function leaves, and its value if it has returned. -/
structure Call (α : Type) where
  after : Buffered
  value : Option α

/-- What is done once a function has returned. -/
def Call.andThen {α β : Type} (c : Call α) (next : α → Buffered → Call β) : Call β :=
  match c.value with
  | none => ⟨c.after, none⟩
  | some a => next a c.after

/-- `buffered_append` -/
def bufferedAppend (s : QEMUFileBuffered) (buf : List Byte) : QEMUFileBuffered :=
  { s with
    bufferCapacity :=
      if buf.length > s.bufferCapacity - s.buffer.length then
        s.bufferCapacity + (buf.length + 1024)
      else s.bufferCapacity
    buffer := s.buffer ++ buf }

/-- The loop of `buffered_flush`.  `buffer` is what stands behind `offset`. -/
def flushLoop (s : QEMUFileBuffered) (accepted : List Byte) : List Answer → Call Unit
  | [] => ⟨⟨s, accepted, []⟩, if s.buffer = [] then some () else none⟩
  | a :: rest =>
    if s.buffer = [] then ⟨⟨s, accepted, a :: rest⟩, some ()⟩
    else
      match a with
      | .again => ⟨⟨{ s with freezeOutput := true }, accepted, rest⟩, some ()⟩
      | .error => ⟨⟨{ s with hasError := true }, accepted, rest⟩, some ()⟩
      | .takes n =>
        flushLoop { s with buffer := s.buffer.drop (n + 1) }
          (accepted ++ s.buffer.take (n + 1)) rest

/-- `buffered_flush` -/
def bufferedFlush (b : Buffered) : Call Unit :=
  if b.file.hasError then ⟨b, some ()⟩ else flushLoop b.file b.accepted b.answers

/-- The loop of `buffered_put_buffer` is left in front of its next call of the backend. -/
def putLoopEnds (s : QEMUFileBuffered) (buf : List Byte) : Bool :=
  s.freezeOutput || buf.isEmpty || s.bytesXfer > s.xferLimit

/-- The loop of `buffered_put_buffer`: what is left of `buf`, or `none` for `-EINVAL`. -/
def putLoop (s : QEMUFileBuffered) (accepted buf : List Byte) :
    List Answer → Call (Option (List Byte))
  | [] => ⟨⟨s, accepted, []⟩, if putLoopEnds s buf then some (some buf) else none⟩
  | a :: rest =>
    if putLoopEnds s buf then ⟨⟨s, accepted, a :: rest⟩, some (some buf)⟩
    else
      match a with
      | .again => ⟨⟨{ s with freezeOutput := true }, accepted, rest⟩, some (some buf)⟩
      | .error => ⟨⟨{ s with hasError := true }, accepted, rest⟩, some none⟩
      | .takes n =>
        putLoop { s with bytesXfer := s.bytesXfer + (buf.take (n + 1)).length }
          (accepted ++ buf.take (n + 1)) (buf.drop (n + 1)) rest

/-- The value is the number of bytes, or an error. -/
def bufferedPutBuffer (b : Buffered) (buf : List Byte) : Call Int :=
  if b.file.hasError then ⟨b, some (-EINVAL)⟩
  else
    (bufferedFlush { b with file := { b.file with freezeOutput := false } }).andThen fun _ b =>
    (putLoop b.file b.accepted buf b.answers).andThen fun rest b =>
      match rest with
      | none => ⟨b, some (-EINVAL)⟩
      | some rest => ⟨{ b with file := bufferedAppend b.file rest }, some (buf.length : Int)⟩

/-- The loop of `buffered_close`; a flush that returns has used up an answer. -/
def closeLoop : Nat → Buffered → Call Unit
  | 0, b => ⟨b, none⟩
  | fuel + 1, b =>
    if !b.file.hasError && b.file.buffer ≠ [] then
      (bufferedFlush b).andThen fun _ b => closeLoop fuel b
    else ⟨b, some ()⟩

/-- `buffered_close` -/
def bufferedClose (b : Buffered) : Call Unit := closeLoop (b.answers.length + 1) b

/-- `buffered_set_rate_limit` -/
def bufferedSetRateLimit (s : QEMUFileBuffered) (newRate : Nat) : QEMUFileBuffered :=
  if s.hasError then s else { s with xferLimit := newRate / 10 }

/-- The part of `buffered_rate_tick` in front of `put_ready`; the value is whether that is
called. -/
def bufferedRateTick (b : Buffered) : Call Bool :=
  if b.file.hasError then ⟨b, some false⟩
  else if b.file.freezeOutput then ⟨b, some false⟩
  else
    (bufferedFlush { b with file := { b.file with bytesXfer := 0 } }).andThen fun _ b =>
      ⟨b, some true⟩

/-! ### Runs -/

/-- A call of the file. -/
inductive BufferedOp
  /-- Without bytes it is `qemu_file_put_notify`. -/
  | put (buf : List Byte)
  | rateTick
  | setRateLimit (newRate : Nat)
  | close
deriving DecidableEq

/-- The file in the hands of its callers: what they put, whether the call has returned, whether it
is closed. -/
structure BufferedRun where
  b : Buffered
  put : List Byte
  returned : Bool
  closed : Bool
deriving DecidableEq

/-- The state that a call leaves. -/
def Call.run {α : Type} (c : Call α) (put : List Byte) (closed : Bool) : BufferedRun :=
  ⟨c.after, put, c.value.isSome, closed⟩

/-- Nothing is called before the last call has returned, or after the file is closed. -/
def BufferedOp.exec (r : BufferedRun) (op : BufferedOp) : Option BufferedRun :=
  if !r.returned || r.closed then none
  else
    match op with
    | .put buf => some ((bufferedPutBuffer r.b buf).run (r.put ++ buf) false)
    | .rateTick => some ((bufferedRateTick r.b).run r.put false)
    | .setRateLimit newRate =>
      some { r with b := { r.b with file := bufferedSetRateLimit r.b.file newRate } }
    | .close => some ((bufferedClose r.b).run r.put true)

/-- The file is opened, with a backend that will answer so. -/
def BufferedRun.start (bytesPerSec : Nat) (answers : List Answer) : BufferedRun :=
  ⟨⟨qemuFopenOpsBuffered bytesPerSec, [], answers⟩, [], true, false⟩

end Qemu.Migration
