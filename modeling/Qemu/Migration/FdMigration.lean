import Qemu.Migration.BufferedFile

namespace Qemu.Migration

open Lib

/-!
# The outgoing migration (`migration.c`, the writing side of `QEMUFile`)

* `qemuFflush`, `qemuPutByte`, `qemuPutBuffer`, `qemuFclose` — the file that devices write to; its
  bytes go on to the rate-limited one.
* `migrateFdCleanup`, `migrateFdError` — the file is closed.
* `MigrationOp.exec` — the steps of a migration.

`migrate_fd_connect` and `migrate_fd_put_ready` are cut into steps where the devices write: their
save functions put what they like, as long as they like.  What `qemu_savevm_state_begin`,
`qemu_savevm_state_iterate` and `qemu_savevm_state_complete` look at behind that is a step of its
own.  `qemu_savevm_state_cancel` writes nothing.
-/

/-- `IO_BUF_SIZE` -/
def IO_BUF_SIZE : Nat := 32768

/-- What is not flushed yet, and the flag. -/
structure QEMUFile where
  buf : List Byte
  hasError : Bool
deriving DecidableEq

/-- The two files on top of the backend, and whether the function has returned. -/
structure Files where
  file : QEMUFile
  b : Buffered
  returned : Bool
deriving DecidableEq

/-- What is done once a function has returned. -/
def Files.andThen (fs : Files) (next : Files → Files) : Files :=
  if fs.returned then next fs else fs

/-- `qemu_fflush` -/
def qemuFflush (fs : Files) : Files :=
  if fs.file.buf = [] then fs
  else
    let c := bufferedPutBuffer fs.b fs.file.buf
    match c.value with
    | none => { fs with b := c.after, returned := false }
    | some len =>
      { fs with file := ⟨[], fs.file.hasError || !decide (0 < len)⟩, b := c.after }

/-- A flush, if the buffer is full. -/
def flushFull (fs : Files) : Files :=
  if IO_BUF_SIZE ≤ fs.file.buf.length then qemuFflush fs else fs

/-- `qemu_put_byte` -/
def qemuPutByte (fs : Files) (v : Byte) : Files :=
  flushFull { fs with file := { fs.file with buf := fs.file.buf ++ [v] } }

/-- The loop of `qemu_put_buffer`, with fuel. -/
def putBufferLoop : Nat → Files → List Byte → Files
  | 0, fs, _ => fs
  | fuel + 1, fs, buf =>
    if !fs.file.hasError && buf ≠ [] then
      let l := min (IO_BUF_SIZE - fs.file.buf.length) buf.length
      (flushFull { fs with file := { fs.file with buf := fs.file.buf ++ buf.take l } }).andThen
        fun fs => putBufferLoop fuel fs (buf.drop l)
    else fs

/-- `qemu_put_buffer` -/
def qemuPutBuffer (fs : Files) (buf : List Byte) : Files := putBufferLoop buf.length fs buf

/-- `qemu_file_set_error` -/
def qemuFileSetError (fs : Files) : Files := { fs with file := { fs.file with hasError := true } }

/-- What a save function does with the file. -/
inductive FilePut
  | byte (v : Byte)
  | buffer (buf : List Byte)
  | setError
deriving DecidableEq

/-- One put. -/
def FilePut.exec (fs : Files) : FilePut → Files
  | .byte v => qemuPutByte fs v
  | .buffer buf => qemuPutBuffer fs buf
  | .setError => qemuFileSetError fs

/-- The bytes of the stream. -/
def FilePut.bytes : FilePut → List Byte
  | .byte v => [v]
  | .buffer buf => buf
  | .setError => []

/-- `buffered_close` of the lower file; `migrate_fd_close` closes the descriptor. -/
def closeBuffered (fs : Files) : Files :=
  { fs with b := (bufferedClose fs.b).after, returned := (bufferedClose fs.b).value.isSome }

/-- `qemu_fclose` -/
def qemuFclose (fs : Files) : Files := (qemuFflush fs).andThen closeBuffered

/-- `MIG_STATE_ERROR` and the others. -/
inductive MigState
  | error
  | completed
  | active
deriving DecidableEq

/-- Where `migrate_fd_connect` or `migrate_fd_put_ready` stands: outside, or in a function that
saves state. -/
inductive MigPhase
  | idle
  | begin
  | iterate
  | complete
deriving DecidableEq

/-- `isOpen` is `s->file != NULL`, `stream` what was put into the file. -/
structure FdMigrationState where
  files : Files
  isOpen : Bool
  state : MigState
  phase : MigPhase
  vmRunning : Bool
  /-- `old_vm_running`, once the final stage was entered. -/
  oldVmRunning : Option Bool
  stream : List Byte
deriving DecidableEq

/-- What a cleanup leaves, with the state that is set behind it. -/
def migrateFdCleanup (m : FdMigrationState) (state : MigState) : FdMigrationState :=
  if m.isOpen then
    let files := qemuFclose m.files
    if files.returned then
      { m with files := files, isOpen := false, state := state, phase := .idle }
    else { m with files := files }
  else { m with state := state, phase := .idle }

/-- `migrate_fd_error`: the state is set in front of the cleanup. -/
def migrateFdError (m : FdMigrationState) : FdMigrationState :=
  migrateFdCleanup { m with state := .error } .error

/-- What happens to a migration, one call or callback at a time. -/
inductive MigrationOp
  /-- A save function writes. -/
  | put (p : FilePut)
  | endBegin
  /-- All save functions were called; `ret` is the value of the last one. -/
  | endIterate (ret : Bool)
  | endComplete
  /-- The descriptor can be written to again: `migrate_fd_put_notify`. -/
  | putNotify
  | rateTick
  | setRateLimit (newRate : Nat)
  /-- The monitor stops the machine or lets it run. -/
  | setVmRunning (running : Bool)
deriving DecidableEq

/-- Behind `qemu_savevm_state_begin`: an error, or the first `migrate_fd_put_ready`. -/
def savevmBeginEnd (m : FdMigrationState) : FdMigrationState :=
  if m.files.file.hasError then migrateFdError m else { m with phase := .iterate }

/-- The end of `qemu_savevm_state_iterate`.  On an error its value is negative, and
`migrate_fd_put_ready` does nothing; on `1` it stops the machine and goes on. -/
def savevmIterateEnd (m : FdMigrationState) (ret : Bool) : FdMigrationState :=
  if ret then { m with phase := .complete, oldVmRunning := some m.vmRunning, vmRunning := false }
  else { m with phase := .idle }

/-- Behind `qemu_savevm_state_complete`. -/
def savevmCompleteEnd (m : FdMigrationState) : FdMigrationState :=
  if m.files.file.hasError then
    migrateFdCleanup { m with vmRunning := m.vmRunning || m.oldVmRunning = some true } .error
  else migrateFdCleanup m .completed

/-- `qemu_file_put_notify` -/
def qemuFilePutNotify (fs : Files) : Files :=
  { fs with
    b := (bufferedPutBuffer fs.b []).after
    returned := (bufferedPutBuffer fs.b []).value.isSome }

/-- The timer, with the beginning of `migrate_fd_put_ready`. -/
def migrationRateTick (m : FdMigrationState) : FdMigrationState :=
  let c := bufferedRateTick m.files.b
  let m := { m with files := { m.files with b := c.after, returned := c.value.isSome } }
  if c.value = some true ∧ m.state = .active then { m with phase := .iterate } else m

/-- Save functions run between the cuts; timers, handlers and the monitor only outside, and as long
as the file is open. -/
def MigrationOp.exec (m : FdMigrationState) (op : MigrationOp) : Option FdMigrationState :=
  if !m.files.returned || !m.isOpen then none
  else
    match op with
    | .put p =>
      if m.phase = .idle then none
      else some { m with files := p.exec m.files, stream := m.stream ++ p.bytes }
    | .endBegin => if m.phase = .begin then some (savevmBeginEnd m) else none
    | .endIterate ret => if m.phase = .iterate then some (savevmIterateEnd m ret) else none
    | .endComplete => if m.phase = .complete then some (savevmCompleteEnd m) else none
    | .putNotify =>
      if m.phase = .idle then some { m with files := qemuFilePutNotify m.files } else none
    | .rateTick => if m.phase = .idle then some (migrationRateTick m) else none
    | .setRateLimit newRate =>
      if m.phase = .idle then
        some { m with files := { m.files with b := { m.files.b with
          file := bufferedSetRateLimit m.files.b.file newRate } } }
      else none
    | .setVmRunning running =>
      if m.phase = .idle then some { m with vmRunning := running } else none

/-- `migrate_fd_connect` has opened the file. -/
def FdMigrationState.start (bandwidthLimit : Nat) (answers : List Answer) (vmRunning : Bool) :
    FdMigrationState where
  files := ⟨⟨[], false⟩, ⟨qemuFopenOpsBuffered bandwidthLimit, [], answers⟩, true⟩
  isOpen := true
  state := .active
  phase := .begin
  vmRunning := vmRunning
  oldVmRunning := none
  stream := []

end Qemu.Migration
