import Qemu.Migration.FdMigration
import Qemu.Migration.BufferedFileSpec

namespace Qemu.Migration

open Lib

/-!
# What a finished migration has sent

* `Files.Sends` — as long as no flag is set, what was put stands in the backend and the two buffers.
* `FdMigrationState.Settled` — a completed migration has sent everything, a failed one is over, and
  the machine runs as before.
* `fdMigration_settled` — runs in which no error is overlooked.
* `fdMigration_stuck` — an active migration stays active once a notification has met an error.
-/

/-! ### The lower file -/

theorem bufferedPutBuffer_failed {b : Buffered} (hb : b.file.hasError = true) (buf : List Byte) :
    bufferedPutBuffer b buf = ⟨b, some (-EINVAL)⟩ := if_pos hb

/-- A flag that is not set behind a call was not set in front of it, and nothing is lost. -/
theorem putTail_clean_bytes {b : Buffered} {buf : List Byte} {len : Int}
    (hvalue : (putTail b buf).value = some len)
    (hclear : (putTail b buf).after.file.hasError = false)
    (hbuffer : b.file.hasError = false → b.file.freezeOutput = false → b.file.buffer = []) :
    b.file.hasError = false ∧ len = buf.length ∧
      (putTail b buf).after.accepted ++ (putTail b buf).after.file.buffer =
        b.accepted ++ b.file.buffer ++ buf := by
  have hloop := putLoop_spec b.answers b.file b.accepted buf
  -- the loop ends by itself, by an error, or with a rest that is appended
  by_cases hends : putLoopEnds b.file buf = true
  · unfold putTail at *
    rw [putLoop_ends hends] at *
    obtain rfl := Option.some.inj hvalue
    exact ⟨hclear, rfl, (List.append_assoc _ _ _).symm⟩
  unfold putTail at *
  generalize putLoop b.file b.accepted buf b.answers = c at *
  obtain ⟨after, value⟩ := c
  match value with
  | none => exact absurd hvalue.symm (Option.some_ne_none len)
  | some none =>
    have hfailed := hloop.failed rfl
    exact absurd (hclear.symm.trans hfailed) Bool.false_ne_true
  | some (some rest) =>
    obtain rfl := Option.some.inj hvalue
    obtain ⟨hbytes, hkept⟩ := hloop.rest rest rfl
    have herror : b.file.hasError = false := hkept.symm.trans hclear
    have hfreeze : b.file.freezeOutput = false := by
      by_contra hfreeze
      apply hends
      unfold putLoopEnds
      rw [Bool.eq_true_of_not_eq_false hfreeze]
      rfl
    have hempty := hbuffer herror hfreeze
    refine ⟨herror, rfl, ?_⟩
    show after.accepted ++ (after.file.buffer ++ rest) = _
    rw [hloop.buffer, hempty, List.nil_append, List.append_nil]
    exact hbytes

/-- Without one at the end, all bytes are with the destination or in the buffer. -/
theorem bufferedPutBuffer_clean {b : Buffered} {buf : List Byte} {len : Int}
    (hvalue : (bufferedPutBuffer b buf).value = some len)
    (hclear : (bufferedPutBuffer b buf).after.file.hasError = false) :
    b.file.hasError = false ∧ len = buf.length ∧
      (bufferedPutBuffer b buf).after.accepted ++ (bufferedPutBuffer b buf).after.file.buffer =
        b.accepted ++ b.file.buffer ++ buf := by
  by_cases herror : b.file.hasError = true
  · rw [bufferedPutBuffer_failed herror] at hclear
    exact absurd (hclear.symm.trans herror) Bool.false_ne_true
  have hb := Bool.eq_false_iff.mpr herror
  have hflush := flushLoop_spec b.answers { b.file with freezeOutput := false } b.accepted hb
  rw [bufferedPutBuffer_eq hb] at *
  generalize flushLoop { b.file with freezeOutput := false } b.accepted b.answers = c at *
  obtain ⟨after, value⟩ := c
  cases value with
  | none => exact absurd hvalue.symm (Option.some_ne_none len)
  | some u =>
    rw [andThen_returned] at *
    obtain ⟨-, hlen, hbytes⟩ := putTail_clean_bytes hvalue hclear (hflush.done rfl)
    exact ⟨hb, hlen, hbytes.trans (congrArg (· ++ buf) hflush.bytes)⟩

/-- No error is among the answers to come. -/
def NoError (answers : List Answer) : Prop := Answer.error ∉ answers

theorem NoError.tail {a : Answer} {answers : List Answer} (h : NoError (a :: answers)) :
    NoError answers := fun hmem => h (List.mem_cons_of_mem a hmem)

/-- Without an error among the answers, a flush meets none. -/
theorem flushLoop_noError (answers : List Answer) (s : QEMUFileBuffered) (accepted : List Byte)
    (h : NoError answers) :
    (flushLoop s accepted answers).after.file.hasError = s.hasError ∧
      NoError (flushLoop s accepted answers).after.answers := by
  induction answers generalizing s accepted with
  | nil => exact ⟨rfl, h⟩
  | cons a rest ih =>
    unfold flushLoop
    split_ifs
    · exact ⟨rfl, h⟩
    cases a with
    | again => exact ⟨rfl, h.tail⟩
    | error => exact absurd List.mem_cons_self h
    | takes n => exact ih _ _ h.tail

theorem putLoop_noError (answers : List Answer) (s : QEMUFileBuffered) (accepted buf : List Byte)
    (h : NoError answers) :
    (putLoop s accepted buf answers).after.file.hasError = s.hasError ∧
      NoError (putLoop s accepted buf answers).after.answers := by
  induction answers generalizing s accepted buf with
  | nil => exact ⟨rfl, h⟩
  | cons a rest ih =>
    unfold putLoop
    split_ifs
    · exact ⟨rfl, h⟩
    cases a with
    | again => exact ⟨rfl, h.tail⟩
    | error => exact absurd List.mem_cons_self h
    | takes n => exact ih _ _ _ h.tail

theorem bufferedFlush_noError {b : Buffered} (h : NoError b.answers) :
    (bufferedFlush b).after.file.hasError = b.file.hasError ∧
      NoError (bufferedFlush b).after.answers := by
  unfold bufferedFlush
  split_ifs
  · exact ⟨rfl, h⟩
  · exact flushLoop_noError _ _ _ h

/-- Without an error in the answers none is made. -/
theorem bufferedPutBuffer_noError {b : Buffered} (hb : b.file.hasError = false)
    (h : NoError b.answers) (buf : List Byte) :
    (bufferedPutBuffer b buf).after.file.hasError = false ∧
      NoError (bufferedPutBuffer b buf).after.answers := by
  have hflush := flushLoop_noError b.answers { b.file with freezeOutput := false } b.accepted h
  rw [bufferedPutBuffer_eq hb]
  generalize flushLoop { b.file with freezeOutput := false } b.accepted b.answers = c at *
  obtain ⟨after, value⟩ := c
  cases value with
  | none => exact ⟨hflush.1.trans hb, hflush.2⟩
  | some u =>
    rw [andThen_returned]
    have hloop := putLoop_noError after.answers after.file after.accepted buf hflush.2
    unfold putTail
    generalize putLoop after.file after.accepted buf after.answers = c at *
    obtain ⟨after', value⟩ := c
    have hclear := hloop.1.trans (hflush.1.trans hb)
    match value with
    | none => exact ⟨hclear, hloop.2⟩
    | some none => exact ⟨hclear, hloop.2⟩
    | some (some rest) => exact ⟨hclear, hloop.2⟩

/-- Without an error everything is accepted when the file is closed. -/
theorem closeLoop_noError (fuel : Nat) {b : Buffered} (hb : b.file.hasError = false)
    (h : NoError b.answers) (hvalue : (closeLoop fuel b).value = some ()) :
    (closeLoop fuel b).after.file.hasError = false ∧
      (closeLoop fuel b).after.accepted = b.accepted ++ b.file.buffer := by
  induction fuel generalizing b with
  | zero => exact absurd hvalue.symm (Option.some_ne_none ())
  | succ fuel ih =>
    rw [closeLoop_succ] at hvalue ⊢
    split_ifs at hvalue ⊢ with hloop
    · have hflush := bufferedFlush_noError h
      have hbytes := bufferedFlush_bytes hb
      generalize bufferedFlush b = c at *
      obtain ⟨after, value⟩ := c
      cases value with
      | none => exact absurd hvalue.symm (Option.some_ne_none ())
      | some u =>
        obtain ⟨hclear, hall⟩ := ih (hflush.1.trans hb) hflush.2 hvalue
        exact ⟨hclear, hall.trans hbytes⟩
    · rw [hb] at hloop
      have hempty : b.file.buffer = [] := by simpa using hloop
      refine ⟨hb, ?_⟩
      rw [hempty, List.append_nil]

/-! ### The upper file -/

/-- As long as no flag is set, the stream is what was accepted and what the two buffers hold. -/
def Files.Sends (fs : Files) (stream : List Byte) : Prop :=
  fs.file.hasError = false → fs.b.file.hasError = false →
    fs.b.accepted ++ fs.b.file.buffer ++ fs.file.buf = stream

section

variable {fs : Files} {stream : List Byte}

/-- A flush that returns sends what was written, and empties the buffer. -/
theorem qemuFflush_sends (h : fs.Sends stream) (hret : (qemuFflush fs).returned = true) :
    (qemuFflush fs).Sends stream ∧ (qemuFflush fs).file.buf = [] := by
  unfold qemuFflush at *
  by_cases hbuf : fs.file.buf = []
  · rw [if_pos hbuf]
    exact ⟨h, hbuf⟩
  rw [if_neg hbuf] at *
  dsimp only at *
  cases hvalue : (bufferedPutBuffer fs.b fs.file.buf).value with
  | none =>
    rw [hvalue] at hret
    exact absurd hret.symm Bool.noConfusion
  | some len =>
    refine ⟨fun hfile hclear => ?_, rfl⟩
    obtain ⟨hb, -, hbytes⟩ := bufferedPutBuffer_clean hvalue hclear
    have hfile' : fs.file.hasError = false := (Bool.or_eq_false_iff.mp hfile).1
    show _ ++ [] = stream
    rw [List.append_nil]
    exact hbytes.trans (h hfile' hb)

theorem flushFull_sends (h : fs.Sends stream) (hret : (flushFull fs).returned = true) :
    (flushFull fs).Sends stream ∧ (flushFull fs).file.buf.length < IO_BUF_SIZE := by
  have hpos : 0 < IO_BUF_SIZE := by decide
  unfold flushFull at *
  split_ifs at * with hfull
  · obtain ⟨hsends, hempty⟩ := qemuFflush_sends h hret
    refine ⟨hsends, ?_⟩
    rw [hempty]
    exact hpos
  · exact ⟨h, Nat.lt_of_not_le hfull⟩

theorem sends_append (h : fs.Sends stream) (bs : List Byte) :
    Files.Sends { fs with file := { fs.file with buf := fs.file.buf ++ bs } } (stream ++ bs) := by
  intro hfile hclear
  show _ ++ (_ ++ bs) = _
  rw [← List.append_assoc, h hfile hclear]

theorem putBufferLoop_succ (fuel : Nat) (fs : Files) (buf : List Byte) :
    putBufferLoop (fuel + 1) fs buf =
      if !fs.file.hasError && buf ≠ [] then
        (flushFull { fs with file := { fs.file with
          buf := fs.file.buf ++ buf.take (min (IO_BUF_SIZE - fs.file.buf.length) buf.length) } }
          ).andThen fun fs' =>
            putBufferLoop fuel fs' (buf.drop (min (IO_BUF_SIZE - fs.file.buf.length) buf.length))
      else fs := rfl

theorem andThen_of_returned {fs : Files} {next : Files → Files}
    (hret : (fs.andThen next).returned = true) :
    fs.returned = true ∧ fs.andThen next = next fs := by
  unfold Files.andThen at *
  split_ifs at * with h
  · exact ⟨h, rfl⟩
  · exact absurd hret h

/-- Each turn of the loop moves at least one byte, so the fuel is enough. -/
theorem putBufferLoop_sends (fuel : Nat) {buf : List Byte} (hfuel : buf.length ≤ fuel)
    (hroom : fs.file.buf.length < IO_BUF_SIZE) (h : fs.Sends stream)
    (hret : (putBufferLoop fuel fs buf).returned = true) :
    (putBufferLoop fuel fs buf).Sends (stream ++ buf) ∧
      (putBufferLoop fuel fs buf).file.buf.length < IO_BUF_SIZE := by
  induction fuel generalizing fs stream buf with
  | zero =>
    obtain rfl := List.length_eq_zero_iff.mp (Nat.le_zero.mp hfuel)
    rw [List.append_nil]
    exact ⟨h, hroom⟩
  | succ fuel ih =>
    rw [putBufferLoop_succ] at hret ⊢
    split_ifs at hret ⊢ with hloop
    · rw [Bool.and_eq_true, decide_eq_true_eq] at hloop
      have hpos := List.length_pos_iff.mpr hloop.2
      obtain ⟨hret', heq⟩ := andThen_of_returned hret
      rw [heq] at hret ⊢
      obtain ⟨hsends, hroom'⟩ := flushFull_sends (sends_append h _) hret'
      have hall := ih (by rw [List.length_drop]; omega) hroom' hsends hret
      rwa [List.append_assoc, List.take_append_drop] at hall
    · refine ⟨fun hfile hclear => ?_, hroom⟩
      rw [hfile, Bool.not_false, Bool.true_and, decide_eq_true_eq, not_not] at hloop
      rw [hloop, List.append_nil]
      exact h hfile hclear

theorem FilePut.exec_sends {p : FilePut} (hroom : fs.file.buf.length < IO_BUF_SIZE)
    (h : fs.Sends stream) (hret : (p.exec fs).returned = true) :
    (p.exec fs).Sends (stream ++ p.bytes) ∧ (p.exec fs).file.buf.length < IO_BUF_SIZE := by
  cases p with
  | byte v => exact flushFull_sends (sends_append h [v]) hret
  | buffer buf => exact putBufferLoop_sends _ (Nat.le_refl _) hroom h hret
  | setError => exact ⟨fun hfile => absurd hfile.symm Bool.false_ne_true, hroom⟩

/-- A file that is closed without an error has sent everything. -/
theorem qemuFclose_sends (h : fs.Sends stream) (hfile : fs.file.hasError = false)
    (hb : fs.b.file.hasError = false) (herror : NoError fs.b.answers)
    (hret : (qemuFclose fs).returned = true) :
    (qemuFclose fs).b.accepted = stream ∧ (qemuFclose fs).b.file.hasError = false := by
  obtain ⟨hret', heq⟩ := andThen_of_returned hret
  obtain ⟨hsends, hempty⟩ := qemuFflush_sends h hret'
  have hflushed : (qemuFflush fs).file.hasError = false ∧
      (qemuFflush fs).b.file.hasError = false ∧ NoError (qemuFflush fs).b.answers := by
    unfold qemuFflush at hret' ⊢
    -- an empty buffer is not flushed
    by_cases hbuf : fs.file.buf = []
    · rw [if_pos hbuf]
      exact ⟨hfile, hb, herror⟩
    rw [if_neg hbuf] at *
    dsimp only at *
    obtain ⟨hclear, herror'⟩ := bufferedPutBuffer_noError hb herror fs.file.buf
    cases hvalue : (bufferedPutBuffer fs.b fs.file.buf).value with
    | none =>
      rw [hvalue] at hret'
      exact absurd hret'.symm Bool.noConfusion
    | some len =>
      obtain ⟨-, hlen, -⟩ := bufferedPutBuffer_clean hvalue hclear
      have hpos := List.length_pos_iff.mpr hbuf
      refine ⟨?_, hclear, herror'⟩
      show (fs.file.hasError || !decide (0 < len)) = false
      rw [hfile, decide_eq_true (by omega)]
      rfl
  obtain ⟨hfile', hb', herror'⟩ := hflushed
  have hall := hsends hfile' hb'
  rw [hempty, List.append_nil] at hall
  unfold qemuFclose at hret ⊢
  rw [heq] at hret ⊢
  obtain ⟨u, hvalue⟩ := Option.isSome_iff_exists.mp hret
  obtain ⟨hclear, hbytes⟩ := closeLoop_noError _ hb' herror' hvalue
  exact ⟨hbytes.trans hall, hclear⟩

end

/-! ### Steps -/

/-- A completed migration has sent the stream.  Outside of the functions a write error has made the
migration fail, and the machine runs if it ran before the final stage. -/
structure FdMigrationState.Settled (m : FdMigrationState) : Prop where
  completed : m.state = .completed → m.files.b.accepted = m.stream
  failed : m.files.returned = true → m.phase = .idle → m.files.b.file.hasError = true →
    m.state = .error
  running : m.state = .error → m.oldVmRunning = some true → m.vmRunning = true

/-- A flush of these pending bytes is answered with an error. -/
def meetsError (pending : List Byte) : List Answer → Bool
  | [] => false
  | a :: rest =>
    if pending = [] then false
    else
      match a with
      | .again => false
      | .error => true
      | .takes n => meetsError (pending.drop (n + 1)) rest

/-- No error is overlooked: none comes in a pass that is not the last one or on a notification, and
one that comes in the final stage has reached the upper file when that is looked at. -/
def MigrationOp.Seen (m : FdMigrationState) : MigrationOp → Prop
  | .endIterate false => m.files.b.file.hasError = false
  | .endComplete => (m.files.b.file.hasError = true → m.files.file.hasError = true) ∧
    (m.files.file.hasError = false → NoError m.files.b.answers)
  | .putNotify => meetsError m.files.b.file.buffer m.files.b.answers = false
  | _ => True

/-- What a migration reports is what its file met, and while the file is open nothing that was
written is lost. -/
structure FdMigrationState.Inv (m : FdMigrationState) : Prop where
  settled : m.Settled
  sends : m.files.returned = true → m.isOpen = true →
    m.files.Sends m.stream ∧ m.files.file.buf.length < IO_BUF_SIZE
  active : m.files.returned = true → m.isOpen = true → m.state = .active
  begun : m.phase = .begin → m.oldVmRunning = none

/-- A flush has an error if it meets one. -/
theorem flushLoop_hasError (answers : List Answer) (s : QEMUFileBuffered) (accepted : List Byte) :
    (flushLoop s accepted answers).after.file.hasError =
      (s.hasError || meetsError s.buffer answers) := by
  induction answers generalizing s accepted with
  | nil => exact (Bool.or_false _).symm
  | cons a rest ih =>
    unfold flushLoop meetsError
    split_ifs
    · exact (Bool.or_false _).symm
    cases a with
    | again => exact (Bool.or_false _).symm
    | error => exact (Bool.or_true _).symm
    | takes n => exact ih _ _

section

variable {m : FdMigrationState}

/-- A function that has not returned leaves nothing to be said but this. -/
theorem FdMigrationState.Inv.of_blocked (hret : m.files.returned = false)
    (hcompleted : m.state ≠ .completed)
    (hrunning : m.state = .error → m.oldVmRunning = some true → m.vmRunning = true)
    (hbegun : m.phase = .begin → m.oldVmRunning = none) : m.Inv where
  settled := ⟨fun h => absurd h hcompleted,
    fun h => absurd (hret.symm.trans h) Bool.false_ne_true, hrunning⟩
  sends h := absurd (hret.symm.trans h) Bool.false_ne_true
  active h := absurd (hret.symm.trans h) Bool.false_ne_true
  begun := hbegun

/-- A cleanup behind an error. -/
theorem migrateFdCleanup_error (hopen : m.isOpen = true) (hstate : m.state ≠ .completed)
    (hrunning : m.oldVmRunning = some true → m.vmRunning = true)
    (hbegun : m.phase = .begin → m.oldVmRunning = none) : (migrateFdCleanup m .error).Inv := by
  unfold migrateFdCleanup
  rw [if_pos hopen]
  dsimp only
  split_ifs with hret
  · exact ⟨⟨MigState.noConfusion, fun _ _ _ => rfl, fun _ => hrunning⟩,
      fun _ h => absurd h.symm Bool.noConfusion, fun _ h => absurd h.symm Bool.noConfusion,
      MigPhase.noConfusion⟩
  · exact FdMigrationState.Inv.of_blocked (Bool.eq_false_iff.mpr hret) hstate (fun _ => hrunning)
      hbegun

/-- A save function writes. -/
theorem FdMigrationState.Inv.put (h : m.Inv) (hret : m.files.returned = true)
    (hopen : m.isOpen = true) (hphase : m.phase ≠ .idle) (p : FilePut) :
    ({ m with files := p.exec m.files, stream := m.stream ++ p.bytes } : FdMigrationState).Inv := by
  have hactive := h.active hret hopen
  obtain ⟨hsends, hroom⟩ := h.sends hret hopen
  exact ⟨⟨fun hdone => absurd (hactive.symm.trans hdone) MigState.noConfusion,
      fun _ hidle => absurd hidle hphase, h.settled.running⟩,
    fun hret' _ => p.exec_sends hroom hsends hret', fun _ _ => hactive, h.begun⟩

/-- `qemu_savevm_state_begin` returns. -/
theorem FdMigrationState.Inv.beginEnd (h : m.Inv) (hret : m.files.returned = true)
    (hopen : m.isOpen = true) (hphase : m.phase = .begin) : (savevmBeginEnd m).Inv := by
  have hactive := h.active hret hopen
  have hold := h.begun hphase
  unfold savevmBeginEnd
  split_ifs
  · have herror : ({ m with state := .error } : FdMigrationState).state ≠ .completed :=
      MigState.noConfusion
    exact migrateFdCleanup_error hopen herror
      (fun hran => absurd (hold.symm.trans hran).symm (Option.some_ne_none true)) (fun _ => hold)
  · exact ⟨⟨h.settled.completed, fun _ hidle => absurd hidle MigPhase.noConfusion,
      h.settled.running⟩, h.sends, h.active, MigPhase.noConfusion⟩

/-- `qemu_savevm_state_iterate` returns. -/
theorem FdMigrationState.Inv.iterateEnd (h : m.Inv) (hret : m.files.returned = true)
    (hopen : m.isOpen = true) {ret : Bool} (hseen : (MigrationOp.endIterate ret).Seen m) :
    (savevmIterateEnd m ret).Inv := by
  have hactive := h.active hret hopen
  unfold savevmIterateEnd
  cases ret with
  | true =>
    exact ⟨⟨h.settled.completed, fun _ hidle => absurd hidle MigPhase.noConfusion,
      fun herror => absurd (hactive.symm.trans herror) MigState.noConfusion⟩, h.sends, h.active,
      MigPhase.noConfusion⟩
  | false =>
    exact ⟨⟨h.settled.completed,
      fun _ _ herror => absurd (hseen.symm.trans herror) Bool.false_ne_true, h.settled.running⟩,
      h.sends, h.active, MigPhase.noConfusion⟩

/-- `qemu_savevm_state_complete` returns. -/
theorem FdMigrationState.Inv.completeEnd (h : m.Inv) (hret : m.files.returned = true)
    (hopen : m.isOpen = true) (hphase : m.phase = .complete)
    (hseen : MigrationOp.endComplete.Seen m) : (savevmCompleteEnd m).Inv := by
  have hactive := h.active hret hopen
  have hbegun : m.phase = .begin → m.oldVmRunning = none :=
    fun hbegin => absurd (hphase.symm.trans hbegin) MigPhase.noConfusion
  unfold savevmCompleteEnd
  -- an error makes it fail; without one all that was sent has arrived
  split_ifs with hfile
  · have hnot : m.state ≠ .completed := fun hdone =>
      absurd (hactive.symm.trans hdone) MigState.noConfusion
    have hran : m.oldVmRunning = some true →
        (m.vmRunning || decide (m.oldVmRunning = some true)) = true := by
      intro hran
      rw [decide_eq_true hran, Bool.or_true]
    exact @migrateFdCleanup_error
      { m with vmRunning := m.vmRunning || m.oldVmRunning = some true } hopen hnot hran hbegun
  · have hfile' := Bool.eq_false_iff.mpr hfile
    have hb : m.files.b.file.hasError = false :=
      Bool.eq_false_iff.mpr fun hb => hfile (hseen.1 hb)
    unfold migrateFdCleanup
    rw [if_pos hopen]
    dsimp only
    split_ifs with hclosed
    · obtain ⟨hall, hclear⟩ :=
        qemuFclose_sends (h.sends hret hopen).1 hfile' hb (hseen.2 hfile') hclosed
      exact ⟨⟨fun _ => hall, fun _ _ herror => absurd (hclear.symm.trans herror) Bool.false_ne_true,
        fun herror => MigState.noConfusion herror⟩, fun _ h => absurd h.symm Bool.noConfusion,
        fun _ h => absurd h.symm Bool.noConfusion, MigPhase.noConfusion⟩
    · apply FdMigrationState.Inv.of_blocked (Bool.eq_false_iff.mpr hclosed)
      · show m.state ≠ .completed
        rw [hactive]
        exact MigState.noConfusion
      · exact h.settled.running
      · exact hbegun

theorem FdMigrationState.Inv.clear (h : m.Inv) (hret : m.files.returned = true)
    (hopen : m.isOpen = true) (hidle : m.phase = .idle) : m.files.b.file.hasError = false := by
  by_contra herror
  have hfailed := h.settled.failed hret hidle (Bool.eq_true_of_not_eq_false herror)
  exact absurd ((h.active hret hopen).symm.trans hfailed) MigState.noConfusion

/-- The steps that are taken outside of the functions and leave the upper file and the state. -/
theorem FdMigrationState.Inv.withLower (h : m.Inv) (hret : m.files.returned = true)
    (hopen : m.isOpen = true) {b : Buffered} {returned : Bool} {phase : MigPhase}
    (hphase : phase ≠ .begin)
    (hclear : returned = true → phase = .idle → b.file.hasError = false)
    (hbytes : returned = true →
      b.accepted ++ b.file.buffer = m.files.b.accepted ++ m.files.b.file.buffer)
    (hm : m.files.b.file.hasError = false) :
    ({ m with files := ⟨m.files.file, b, returned⟩, phase := phase } : FdMigrationState).Inv := by
  have hactive := h.active hret hopen
  have hnot : m.state ≠ .completed := fun hdone =>
    absurd (hactive.symm.trans hdone) MigState.noConfusion
  refine ⟨⟨fun hdone => absurd hdone hnot, fun hret' hidle herror => ?_, h.settled.running⟩,
    fun hret' _ => ⟨fun hfile _ => ?_, (h.sends hret hopen).2⟩, fun _ _ => hactive,
    fun hbegin => absurd hbegin hphase⟩
  · exact absurd ((hclear hret' hidle).symm.trans herror) Bool.false_ne_true
  · show b.accepted ++ b.file.buffer ++ m.files.file.buf = m.stream
    rw [hbytes hret']
    exact (h.sends hret hopen).1 hfile hm

/-- The destination takes bytes again. -/
theorem FdMigrationState.Inv.putNotify (h : m.Inv) (hret : m.files.returned = true)
    (hopen : m.isOpen = true) (hidle : m.phase = .idle) (hseen : MigrationOp.putNotify.Seen m) :
    ({ m with files := qemuFilePutNotify m.files } : FdMigrationState).Inv := by
  have hm := h.clear hret hopen hidle
  have hflush := flushLoop_hasError m.files.b.answers
    { m.files.b.file with freezeOutput := false } m.files.b.accepted
  have hafter : (bufferedPutBuffer m.files.b []).value.isSome = true →
      (bufferedPutBuffer m.files.b []).after.file.hasError = false := by
    rw [bufferedPutBuffer_eq hm]
    generalize flushLoop { m.files.b.file with freezeOutput := false } m.files.b.accepted
      m.files.b.answers = c at *
    obtain ⟨after, value⟩ := c
    cases value with
    | none => exact fun hsome => absurd hsome.symm Bool.noConfusion
    | some u =>
      have hends : putLoopEnds after.file [] = true := by
        unfold putLoopEnds
        rw [List.isEmpty_nil, Bool.or_true, Bool.true_or]
      intro _
      rw [andThen_returned]
      unfold putTail
      rw [putLoop_ends hends]
      exact hflush.trans (by rw [hm, hseen]; rfl)
  have hinv := @FdMigrationState.Inv.withLower m h hret hopen (bufferedPutBuffer m.files.b []).after
    (bufferedPutBuffer m.files.b []).value.isSome .idle MigPhase.noConfusion
    (fun hret' _ => hafter hret')
    (fun hret' => by
      obtain ⟨len, hvalue⟩ := Option.isSome_iff_exists.mp hret'
      have hbytes := (bufferedPutBuffer_clean hvalue (hafter hret')).2.2
      rwa [List.append_nil] at hbytes) hm
  rwa [← hidle] at hinv

/-- The timer ticks. -/
theorem FdMigrationState.Inv.rateTick (h : m.Inv) (hret : m.files.returned = true)
    (hopen : m.isOpen = true) (hidle : m.phase = .idle) : (migrationRateTick m).Inv := by
  have hm := h.clear hret hopen hidle
  have hactive := h.active hret hopen
  -- a frozen output skips the tick
  by_cases hfreeze : m.files.b.file.freezeOutput = true
  · have htick : bufferedRateTick m.files.b = ⟨m.files.b, some false⟩ := by
      unfold bufferedRateTick
      rw [hm, hfreeze]
      rfl
    unfold migrationRateTick
    rw [htick]
    have hinv := @FdMigrationState.Inv.withLower m h hret hopen m.files.b true .idle
      MigPhase.noConfusion (fun _ _ => hm) (fun _ => rfl) hm
    rwa [← hidle] at hinv
  have htick : bufferedRateTick m.files.b =
      (bufferedFlush { m.files.b with file := { m.files.b.file with bytesXfer := 0 } }).andThen
        fun _ b => ⟨b, some true⟩ := by
    unfold bufferedRateTick
    rw [hm, Bool.eq_false_iff.mpr hfreeze]
    rfl
  have hbytes := @bufferedFlush_bytes
    { m.files.b with file := { m.files.b.file with bytesXfer := 0 } } hm
  unfold migrationRateTick
  rw [htick]
  generalize bufferedFlush { m.files.b with file := { m.files.b.file with bytesXfer := 0 } } =
    c at *
  obtain ⟨after, value⟩ := c
  cases value with
  | none =>
    have hinv := @FdMigrationState.Inv.withLower m h hret hopen after false .idle
      MigPhase.noConfusion (fun hret' => absurd hret'.symm Bool.noConfusion)
      (fun hret' => absurd hret'.symm Bool.noConfusion) hm
    rwa [← hidle] at hinv
  | some u =>
    have hput : (some true = some true ∧ m.state = .active) := ⟨rfl, hactive⟩
    rw [andThen_returned]
    dsimp only
    rw [if_pos hput]
    exact @FdMigrationState.Inv.withLower m h hret hopen after true .iterate MigPhase.noConfusion
      (fun _ hidle' => absurd hidle' MigPhase.noConfusion) (fun _ => hbytes) hm

/-- The rate limit changes. -/
theorem FdMigrationState.Inv.setRateLimit (h : m.Inv) (hret : m.files.returned = true)
    (hopen : m.isOpen = true) (hidle : m.phase = .idle) (newRate : Nat) :
    ({ m with files := { m.files with b := { m.files.b with
      file := bufferedSetRateLimit m.files.b.file newRate } } } : FdMigrationState).Inv := by
  have hm := h.clear hret hopen hidle
  have hset : bufferedSetRateLimit m.files.b.file newRate =
      { m.files.b.file with xferLimit := newRate / 10 } := if_neg (Bool.eq_false_iff.mp hm)
  rw [hset]
  have hinv := @FdMigrationState.Inv.withLower m h hret hopen
    { m.files.b with file := { m.files.b.file with xferLimit := newRate / 10 } }
    m.files.returned .idle MigPhase.noConfusion (fun _ _ => hm) (fun _ => rfl) hm
  rwa [← hidle] at hinv

end

/-- Every step in which no error is overlooked keeps the invariant. -/
theorem MigrationOp.exec_inv (m : FdMigrationState) (op : MigrationOp) (m' : FdMigrationState)
    (h : m.Inv) (hseen : op.Seen m) (hexec : MigrationOp.exec m op = some m') : m'.Inv := by
  unfold MigrationOp.exec at hexec
  by_cases hcalled : (!m.files.returned || !m.isOpen) = true
  · rw [if_pos hcalled] at hexec
    exact absurd hexec.symm (Option.some_ne_none m')
  rw [if_neg hcalled] at hexec
  rw [Bool.or_eq_true, Bool.not_eq_true', Bool.not_eq_true', not_or, Bool.not_eq_false,
    Bool.not_eq_false] at hcalled
  obtain ⟨hret, hopen⟩ := hcalled
  cases op with
  | put p =>
    dsimp only at hexec
    split_ifs at hexec with hphase
    obtain rfl := Option.some.inj hexec
    exact h.put hret hopen hphase p
  | endBegin =>
    dsimp only at hexec
    split_ifs at hexec with hphase
    obtain rfl := Option.some.inj hexec
    exact h.beginEnd hret hopen hphase
  | endIterate ret =>
    dsimp only at hexec
    split_ifs at hexec with hphase
    obtain rfl := Option.some.inj hexec
    exact h.iterateEnd hret hopen hseen
  | endComplete =>
    dsimp only at hexec
    split_ifs at hexec with hphase
    obtain rfl := Option.some.inj hexec
    exact h.completeEnd hret hopen hphase hseen
  | putNotify =>
    dsimp only at hexec
    split_ifs at hexec with hphase
    obtain rfl := Option.some.inj hexec
    exact h.putNotify hret hopen hphase hseen
  | rateTick =>
    dsimp only at hexec
    split_ifs at hexec with hphase
    obtain rfl := Option.some.inj hexec
    exact h.rateTick hret hopen hphase
  | setRateLimit newRate =>
    dsimp only at hexec
    split_ifs at hexec with hphase
    obtain rfl := Option.some.inj hexec
    exact h.setRateLimit hret hopen hphase newRate
  | setVmRunning running =>
    dsimp only at hexec
    split_ifs at hexec with hphase
    obtain rfl := Option.some.inj hexec
    -- the monitor does not come between the final stage and its end
    have hactive := h.active hret hopen
    exact ⟨⟨h.settled.completed, h.settled.failed,
      fun herror => absurd (hactive.symm.trans herror) MigState.noConfusion⟩, h.sends, h.active,
      h.begun⟩

theorem FdMigrationState.start_inv (bandwidthLimit : Nat) (answers : List Answer)
    (vmRunning : Bool) : (FdMigrationState.start bandwidthLimit answers vmRunning).Inv where
  settled := ⟨MigState.noConfusion, fun _ => MigPhase.noConfusion, MigState.noConfusion⟩
  sends _ _ := ⟨fun _ _ => rfl, Nat.zero_lt_succ _⟩
  active _ _ := rfl
  begun _ := rfl

/-! ### Runs -/

/-- **A migration that overlooks no error** is settled: completed with all of its bytes accepted, or
failed with the machine running as before. -/
theorem fdMigration_settled {bandwidthLimit : Nat} {answers : List Answer} {vmRunning : Bool}
    {ops : List MigrationOp} {m : FdMigrationState}
    (hseen : StepsMeet MigrationOp.exec (fun m op => op.Seen m)
      (FdMigrationState.start bandwidthLimit answers vmRunning) ops)
    (hrun : runFrom MigrationOp.exec (FdMigrationState.start bandwidthLimit answers vmRunning) ops =
      some m) : m.Settled :=
  (runFrom_preserves MigrationOp.exec_inv
    (FdMigrationState.start_inv bandwidthLimit answers vmRunning) hseen hrun).settled

instance NoError.decidable (answers : List Answer) : Decidable (NoError answers) :=
  inferInstanceAs (Decidable (Answer.error ∉ answers))

instance MigrationOp.seenDecidable (m : FdMigrationState) :
    ∀ op : MigrationOp, Decidable (op.Seen m)
  | .endIterate false => inferInstanceAs (Decidable (m.files.b.file.hasError = false))
  | .endComplete => inferInstanceAs (Decidable
      ((m.files.b.file.hasError = true → m.files.file.hasError = true) ∧
        (m.files.file.hasError = false → NoError m.files.b.answers)))
  | .putNotify => inferInstanceAs (Decidable
      (meetsError m.files.b.file.buffer m.files.b.answers = false))
  | .put _ | .endBegin | .endIterate true | .rateTick | .setRateLimit _ | .setVmRunning _ =>
    isTrue trivial

/-- Three bytes in two passes; the descriptor takes one of them, is not ready, and takes the
rest. -/
def threeBytesOps : List MigrationOp :=
  [.put (.buffer [1, 2]), .endBegin, .endIterate false, .rateTick, .endIterate true,
    .put (.byte 3), .endComplete]

/-- What the descriptor answers. -/
def threeBytesAnswers : List Answer := [.takes 0, .again, .takes 1, .takes 0]

/-- All three arrive, and the migration completes. -/
theorem fdMigration_settled_threeBytes :
    ∃ m, runFrom MigrationOp.exec (FdMigrationState.start 1000 threeBytesAnswers true)
        threeBytesOps = some m ∧
      m.state = .completed ∧ m.files.b.accepted = [1, 2, 3] ∧ m.Settled := by
  have hseen : StepsMeet MigrationOp.exec (fun m op => op.Seen m)
      (FdMigrationState.start 1000 threeBytesAnswers true) threeBytesOps := by decide
  exact ⟨_, rfl, by decide, by decide, fdMigration_settled hseen rfl⟩

/-- The last byte is only offered to the descriptor while the file is closed. -/
theorem fdMigration_loses : ¬∀ (bandwidthLimit : Nat) (answers : List Answer) (vmRunning : Bool)
    (ops : List MigrationOp) (m : FdMigrationState),
    runFrom MigrationOp.exec (FdMigrationState.start bandwidthLimit answers vmRunning) ops =
      some m → m.Settled := by
  intro h
  have hsettled := h 1000 [.error] true
    [.endBegin, .endIterate true, .put (.byte 1), .endComplete] _ rfl
  exact absurd (hsettled.completed rfl) (by decide)

/-- An active migration whose file has met an error outside of the functions: only a cancel ends
it. -/
structure FdMigrationState.Stuck (m : FdMigrationState) : Prop where
  phase : m.phase = .idle
  active : m.state = .active
  failed : m.files.b.file.hasError = true

/-- Nothing gets a stuck migration on. -/
theorem MigrationOp.exec_stuck (m : FdMigrationState) (op : MigrationOp) (m' : FdMigrationState)
    (h : m.Stuck) (hexec : MigrationOp.exec m op = some m') : m'.Stuck := by
  unfold MigrationOp.exec at hexec
  rw [h.phase] at hexec
  split at hexec
  · exact absurd hexec.symm (Option.some_ne_none m')
  cases op with
  | put | endBegin | endIterate | endComplete => exact absurd hexec.symm (Option.some_ne_none m')
  | putNotify =>
    obtain rfl := Option.some.inj hexec
    refine ⟨rfl, h.active, ?_⟩
    show (bufferedPutBuffer m.files.b []).after.file.hasError = true
    rw [bufferedPutBuffer_failed h.failed]
    exact h.failed
  | rateTick =>
    obtain rfl := Option.some.inj hexec
    have htick : bufferedRateTick m.files.b = ⟨m.files.b, some false⟩ := if_pos h.failed
    unfold migrationRateTick
    rw [htick]
    exact ⟨h.phase, h.active, h.failed⟩
  | setRateLimit newRate =>
    obtain rfl := Option.some.inj hexec
    have hset : bufferedSetRateLimit m.files.b.file newRate = m.files.b.file := if_pos h.failed
    rw [hset]
    exact ⟨rfl, h.active, h.failed⟩
  | setVmRunning running =>
    obtain rfl := Option.some.inj hexec
    exact ⟨rfl, h.active, h.failed⟩

theorem exec_putNotify_stuck {m m' : FdMigrationState} (hactive : m.state = .active)
    (hnotify : MigrationOp.exec m .putNotify = some m')
    (hfailed : m'.files.b.file.hasError = true) : m'.Stuck := by
  unfold MigrationOp.exec at hnotify
  split at hnotify
  · exact absurd hnotify.symm (Option.some_ne_none m')
  · dsimp only at hnotify
    split_ifs at hnotify with hidle
    obtain rfl := Option.some.inj hnotify
    exact ⟨hidle, hactive, hfailed⟩

/-- **A migration whose notification has met an error stays active**: it is never reported as
failed.  The next tick returns in front of its flush, so no save function is called any more. -/
theorem fdMigration_stuck {m m' m'' : FdMigrationState} (hactive : m.state = .active)
    (hnotify : MigrationOp.exec m .putNotify = some m')
    (hfailed : m'.files.b.file.hasError = true) {ops : List MigrationOp}
    (hrun : runFrom MigrationOp.exec m' ops = some m'') : m''.state = .active :=
  (runFrom_keeps MigrationOp.exec_stuck (exec_putNotify_stuck hactive hnotify hfailed) hrun).active

/-- A migration that waits to write its last byte; the descriptor will not take it. -/
def waitingMigration : FdMigrationState :=
  { FdMigrationState.start 1000 [] true with
    phase := .idle
    files := ⟨⟨[], false⟩,
      ⟨{ qemuFopenOpsBuffered 1000 with buffer := [1], freezeOutput := true }, [], [.error]⟩,
        true⟩ }

/-- The notification meets an error, and the migration stays active. -/
theorem fdMigration_stuck_waiting :
    ∃ m' m'', MigrationOp.exec waitingMigration .putNotify = some m' ∧
      runFrom MigrationOp.exec m' [.rateTick, .setVmRunning false, .putNotify, .rateTick] =
        some m'' ∧
      m''.files.b.file.buffer = [1] ∧ m''.state = .active :=
  ⟨_, _, rfl, rfl, rfl,
    fdMigration_stuck (m := waitingMigration) rfl rfl rfl
      (rfl : runFrom MigrationOp.exec _
        [.rateTick, .setVmRunning false, .putNotify, .rateTick] = _)⟩

end Qemu.Migration
