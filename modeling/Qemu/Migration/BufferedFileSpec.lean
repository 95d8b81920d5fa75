import Qemu.Migration.BufferedFile

namespace Qemu.Migration

open Lib

/-!
# The bytes come in order

* `takesAfterError` — the backend refuses pending bytes and then takes others.
* `flushLoop_spec`, `putLoop_spec` — what the two loops hand to the backend.
* `bufferedRun_inOrder` — runs in which it does not.
-/

/-! ### The loops -/

/-- An error is the answer to the pending bytes, and the answer behind it takes bytes. -/
def takesAfterError (pending : List Byte) : List Answer → Bool
  | [] => false
  | a :: rest =>
    if pending = [] then false
    else
      match a with
      | .again => false
      | .error =>
        match rest with
        | .takes _ :: _ => true
        | _ => false
      | .takes n => takesAfterError (pending.drop (n + 1)) rest

theorem andThen_returned {α β : Type} (b : Buffered) (a : α) (next : α → Buffered → Call β) :
    Call.andThen ⟨b, some a⟩ next = next a b := rfl

/-- The next answer does not take bytes. -/
def Refuses (answers : List Answer) : Prop := ∀ n, answers.head? ≠ some (.takes n)

/-- The buffer is large enough for what is in it. -/
def QEMUFileBuffered.Fits (s : QEMUFileBuffered) : Prop := s.buffer.length ≤ s.bufferCapacity

/-- What `buffered_flush` does to a file without an error. -/
structure Flushed (s : QEMUFileBuffered) (accepted : List Byte) (answers : List Answer)
    (c : Call Unit) : Prop where
  bytes : c.after.accepted ++ c.after.file.buffer = accepted ++ s.buffer
  mono : accepted <+: c.after.accepted
  xfer : c.after.file.bytesXfer = s.bytesXfer
  limit : c.after.file.xferLimit = s.xferLimit
  capacity : c.after.file.bufferCapacity = s.bufferCapacity
  length : c.after.file.buffer.length ≤ s.buffer.length
  done : c.value = some () → c.after.file.hasError = false → c.after.file.freezeOutput = false →
    c.after.file.buffer = []
  refuses : takesAfterError s.buffer answers = false → c.after.file.hasError = true →
    Refuses c.after.answers

/-- The loop of `buffered_flush` moves bytes of the buffer to the destination. -/
theorem flushLoop_spec (answers : List Answer) (s : QEMUFileBuffered) (accepted : List Byte)
    (hs : s.hasError = false) : Flushed s accepted answers (flushLoop s accepted answers) := by
  induction answers generalizing s accepted with
  | nil =>
    refine ⟨rfl, List.prefix_rfl, rfl, rfl, rfl, le_rfl, fun hvalue _ _ => ?_, fun _ herr => ?_⟩
    · by_contra hne
      have hnone : (flushLoop s accepted []).value = none := if_neg hne
      rw [hnone] at hvalue
      exact Option.some_ne_none () hvalue.symm
    · exact absurd (hs.symm.trans herr) Bool.false_ne_true
  | cons a rest ih =>
    unfold flushLoop
    by_cases hbuf : s.buffer = []
    · rw [if_pos hbuf]
      exact ⟨rfl, List.prefix_rfl, rfl, rfl, rfl, le_rfl, fun _ _ _ => hbuf,
        fun _ herr => absurd (hs.symm.trans herr) Bool.false_ne_true⟩
    rw [if_neg hbuf]
    cases a with
    | again =>
      exact ⟨rfl, List.prefix_rfl, rfl, rfl, rfl, le_rfl,
        fun _ _ hfreeze => absurd hfreeze.symm Bool.false_ne_true,
        fun _ herr => absurd (hs.symm.trans herr) Bool.false_ne_true⟩
    | error =>
      refine ⟨rfl, List.prefix_rfl, rfl, rfl, rfl, le_rfl,
        fun _ herr => absurd herr.symm Bool.false_ne_true, fun htakes _ n hhead => ?_⟩
      -- the answer behind the error would be one that takes bytes
      obtain ⟨rest', rfl⟩ := List.head?_eq_some_iff.mp hhead
      unfold takesAfterError at htakes
      rw [if_neg hbuf] at htakes
      exact Bool.false_ne_true htakes.symm
    | takes n =>
      have h := ih { s with buffer := s.buffer.drop (n + 1) } (accepted ++ s.buffer.take (n + 1)) hs
      refine ⟨?_, (List.prefix_append _ _).trans h.mono, h.xfer, h.limit, h.capacity, ?_, h.done,
        fun htakes => h.refuses ?_⟩
      · rw [h.bytes, List.append_assoc, List.take_append_drop]
      · exact h.length.trans (by rw [List.length_drop]; exact Nat.sub_le _ _)
      · unfold takesAfterError at htakes
        rwa [if_neg hbuf] at htakes

variable {s : QEMUFileBuffered}

theorem Flushed.fits {accepted : List Byte} {answers : List Answer} {c : Call Unit}
    (h : Flushed s accepted answers c) (hs : s.Fits) : c.after.file.Fits := by
  unfold QEMUFileBuffered.Fits
  rw [h.capacity]
  exact h.length.trans hs

/-- What the loop of `buffered_put_buffer` does. -/
structure PutLoop (s : QEMUFileBuffered) (accepted buf : List Byte)
    (c : Call (Option (List Byte))) : Prop where
  mono : accepted <+: c.after.accepted
  bytes : c.after.accepted <+: accepted ++ buf
  buffer : c.after.file.buffer = s.buffer
  capacity : c.after.file.bufferCapacity = s.bufferCapacity
  rest : ∀ rest, c.value = some (some rest) → c.after.accepted ++ rest = accepted ++ buf ∧
    c.after.file.hasError = s.hasError
  failed : c.value = some none → c.after.file.hasError = true

variable {buf : List Byte}

theorem PutLoop.fits {accepted : List Byte} {c : Call (Option (List Byte))}
    (h : PutLoop s accepted buf c) (hs : s.Fits) : c.after.file.Fits := by
  unfold QEMUFileBuffered.Fits
  rw [h.buffer, h.capacity]
  exact hs

/-- Nothing of the buffer is taken. -/
theorem PutLoop.stay {s' : QEMUFileBuffered} (accepted buf : List Byte) (answers : List Answer)
    (hbuffer : s'.buffer = s.buffer) (hcapacity : s'.bufferCapacity = s.bufferCapacity)
    (herror : s'.hasError = s.hasError) :
    PutLoop s accepted buf ⟨⟨s', accepted, answers⟩, some (some buf)⟩ := by
  refine ⟨List.prefix_rfl, List.prefix_append _ _, hbuffer, hcapacity, ?_, ?_⟩
  · intro rest hrest
    obtain rfl := Option.some.inj (Option.some.inj hrest)
    exact ⟨rfl, herror⟩
  · intro hnone
    exact absurd (Option.some.inj hnone) (Option.some_ne_none buf)

/-- The loop of `buffered_put_buffer` moves bytes of the caller to the destination. -/
theorem putLoop_spec (answers : List Answer) (s : QEMUFileBuffered) (accepted buf : List Byte) :
    PutLoop s accepted buf (putLoop s accepted buf answers) := by
  induction answers generalizing s accepted buf with
  | nil =>
    unfold putLoop
    split_ifs
    · exact PutLoop.stay accepted buf [] rfl rfl rfl
    · exact ⟨List.prefix_rfl, List.prefix_append _ _, rfl, rfl,
        fun _ h => absurd h.symm (Option.some_ne_none _),
        fun h => absurd h.symm (Option.some_ne_none _)⟩
  | cons a rest ih =>
    unfold putLoop
    split_ifs with hends
    · exact PutLoop.stay accepted buf _ rfl rfl rfl
    cases a with
    | again => exact PutLoop.stay accepted buf rest rfl rfl rfl
    | error =>
      exact ⟨List.prefix_rfl, List.prefix_append _ _, rfl, rfl,
        fun _ h => absurd (Option.some.inj h).symm (Option.some_ne_none _), fun _ => rfl⟩
    | takes n =>
      have h := ih { s with bytesXfer := s.bytesXfer + (buf.take (n + 1)).length }
        (accepted ++ buf.take (n + 1)) (buf.drop (n + 1))
      have hbytes : accepted ++ buf.take (n + 1) ++ buf.drop (n + 1) = accepted ++ buf := by
        rw [List.append_assoc, List.take_append_drop]
      exact ⟨(List.prefix_append _ _).trans h.mono, hbytes ▸ h.bytes, h.buffer, h.capacity,
        fun rest hrest => ⟨(h.rest rest hrest).1.trans hbytes, (h.rest rest hrest).2⟩, h.failed⟩

theorem putLoop_ends (h : putLoopEnds s buf = true) (accepted : List Byte) (answers : List Answer) :
    putLoop s accepted buf answers = ⟨⟨s, accepted, answers⟩, some (some buf)⟩ := by
  cases answers with
  | nil =>
    unfold putLoop
    rw [if_pos h]
  | cons a rest => exact if_pos h

theorem putLoop_refused {answers : List Answer} (h : Refuses answers) (s : QEMUFileBuffered)
    (accepted buf : List Byte) : (putLoop s accepted buf answers).after.accepted = accepted := by
  cases answers with
  | nil => rfl
  | cons a rest =>
    unfold putLoop
    split_ifs
    · rfl
    cases a with
    | again => rfl
    | error => rfl
    | takes n => exact absurd rfl (h n)

/-! ### Calls -/

/-- What has become of the bytes put: those the backend accepted come in order, and as long as there
is no error the rest is in the buffer. -/
structure BufferedRun.InOrder (r : BufferedRun) : Prop where
  accepted : r.b.accepted <+: r.put
  pending : r.returned = true → r.b.file.hasError = false →
    r.b.accepted ++ r.b.file.buffer = r.put

/-- What the destination has begins what was put, and without an error the rest is buffered. -/
structure BufferedRun.Inv (r : BufferedRun) : Prop where
  inOrder : r.InOrder
  fits : r.b.file.Fits

/-- New bytes do not overtake pending ones. -/
def BufferedOp.Keeps (r : BufferedRun) : BufferedOp → Prop
  | .put buf => r.b.file.hasError = false → buf ≠ [] → r.b.file.bytesXfer ≤ r.b.file.xferLimit →
    takesAfterError r.b.file.buffer r.b.answers = false
  | _ => True

instance BufferedOp.keepsDecidable (r : BufferedRun) : ∀ op : BufferedOp, Decidable (op.Keeps r)
  | .put buf => inferInstanceAs (Decidable (r.b.file.hasError = false → buf ≠ [] →
      r.b.file.bytesXfer ≤ r.b.file.xferLimit →
        takesAfterError r.b.file.buffer r.b.answers = false))
  | .rateTick => isTrue trivial
  | .setRateLimit _ => isTrue trivial
  | .close => isTrue trivial

theorem bufferedAppend_fits (h : s.Fits) (buf : List Byte) : (bufferedAppend s buf).Fits := by
  unfold QEMUFileBuffered.Fits bufferedAppend at *
  dsimp only
  rw [List.length_append]
  split_ifs <;> omega

/-- What `buffered_put_buffer` does behind the flush. -/
def putTail (b : Buffered) (buf : List Byte) : Call Int :=
  (putLoop b.file b.accepted buf b.answers).andThen fun rest b =>
    match rest with
    | none => ⟨b, some (-EINVAL)⟩
    | some rest => ⟨{ b with file := bufferedAppend b.file rest }, some (buf.length : Int)⟩

variable {b : Buffered}

theorem bufferedPutBuffer_eq (hb : b.file.hasError = false) (buf : List Byte) :
    bufferedPutBuffer b buf =
      (flushLoop { b.file with freezeOutput := false } b.accepted b.answers).andThen fun _ b =>
        putTail b buf := by
  unfold bufferedPutBuffer bufferedFlush
  dsimp only
  rw [hb]
  rfl

variable {put : List Byte}

/-- Nothing is accepted behind the flush: the new bytes are put into the buffer, or lost. -/
theorem putTail_stay (h : (putLoop b.file b.accepted buf b.answers).after.accepted = b.accepted)
    (hb : b.accepted <+: put) (hfits : b.file.Fits) (herror : b.file.hasError = true) :
    ((putTail b buf).run (put ++ buf) false).Inv := by
  have hloop := putLoop_spec b.answers b.file b.accepted buf
  have hstart : (putLoop b.file b.accepted buf b.answers).after.accepted <+: put ++ buf := by
    rw [h]
    exact hb.trans (List.prefix_append _ _)
  have hfits' := hloop.fits hfits
  unfold putTail
  generalize putLoop b.file b.accepted buf b.answers = c at hloop hstart hfits'
  obtain ⟨after, value⟩ := c
  cases value with
  | none => exact ⟨⟨hstart, fun hret => absurd hret.symm Bool.noConfusion⟩, hfits'⟩
  | some rest =>
    cases rest with
    | none =>
      refine ⟨⟨hstart, fun _ hclear => ?_⟩, hfits'⟩
      exact absurd (hclear.symm.trans (hloop.failed rfl)) Bool.false_ne_true
    | some rest =>
      refine ⟨⟨hstart, fun _ hclear => ?_⟩, bufferedAppend_fits hfits' rest⟩
      have hkept := (hloop.rest rest rfl).2.trans herror
      exact absurd (hclear.symm.trans hkept) Bool.false_ne_true

/-- Everything pending has been accepted, or the output is frozen. -/
theorem putTail_clean (hb : b.accepted ++ b.file.buffer = put)
    (hclear : b.file.freezeOutput = false → b.file.buffer = []) (hfits : b.file.Fits) :
    ((putTail b buf).run (put ++ buf) false).Inv := by
  have hloop := putLoop_spec b.answers b.file b.accepted buf
  unfold putTail
  by_cases hfreeze : b.file.freezeOutput = true
  · have hends : putLoopEnds b.file buf = true := by
      unfold putLoopEnds
      rw [hfreeze, Bool.true_or, Bool.true_or]
    rw [putLoop_ends hends]
    have hall : b.accepted ++ (b.file.buffer ++ buf) = put ++ buf := by
      rw [← List.append_assoc, hb]
    exact ⟨⟨hall ▸ List.prefix_append _ _, fun _ _ => hall⟩, bufferedAppend_fits hfits buf⟩
  · have hempty := hclear (Bool.eq_false_iff.mpr hfreeze)
    rw [hempty, List.append_nil] at hb
    have hbytes : (putLoop b.file b.accepted buf b.answers).after.accepted <+: put ++ buf :=
      hb ▸ hloop.bytes
    have hfits' := hloop.fits hfits
    generalize putLoop b.file b.accepted buf b.answers = c at hloop hbytes hfits'
    obtain ⟨after, value⟩ := c
    cases value with
    | none => exact ⟨⟨hbytes, fun hret => absurd hret.symm Bool.noConfusion⟩, hfits'⟩
    | some rest =>
      cases rest with
      | none =>
        refine ⟨⟨hbytes, fun _ hok => ?_⟩, hfits'⟩
        exact absurd (hok.symm.trans (hloop.failed rfl)) Bool.false_ne_true
      | some rest =>
        refine ⟨⟨hbytes, fun _ _ => ?_⟩, bufferedAppend_fits hfits' rest⟩
        have hbuffer : after.file.buffer = [] := hloop.buffer.trans hempty
        show after.accepted ++ (after.file.buffer ++ rest) = put ++ buf
        rw [hbuffer, List.nil_append, ← hb]
        exact (hloop.rest rest rfl).1

variable {r : BufferedRun}

/-- A put that skips no byte keeps the invariant. -/
theorem bufferedPutBuffer_inv (h : r.Inv) (hret : r.returned = true)
    (hkeeps : (BufferedOp.put buf).Keeps r) :
    ((bufferedPutBuffer r.b buf).run (r.put ++ buf) false).Inv := by
  by_cases herror : r.b.file.hasError = true
  · unfold bufferedPutBuffer
    rw [if_pos herror]
    exact ⟨⟨h.inOrder.accepted.trans (List.prefix_append _ _),
      fun _ hclear => absurd (hclear.symm.trans herror) Bool.false_ne_true⟩, h.fits⟩
  have hclear := Bool.eq_false_iff.mpr herror
  have hput := h.inOrder.pending hret hclear
  have hflush := flushLoop_spec r.b.answers { r.b.file with freezeOutput := false } r.b.accepted
    hclear
  have hbytes := hflush.bytes.trans hput
  have hfits := hflush.fits h.fits
  rw [bufferedPutBuffer_eq hclear]
  generalize flushLoop { r.b.file with freezeOutput := false } r.b.accepted r.b.answers = c
    at hflush hbytes hfits
  obtain ⟨b, value⟩ := c
  cases value with
  | none =>
    refine ⟨⟨?_, fun hret => absurd hret.symm Bool.noConfusion⟩, hfits⟩
    exact List.IsPrefix.trans ⟨_, hbytes⟩ (List.prefix_append _ _)
  | some u =>
    show ((putTail b buf).run (r.put ++ buf) false).Inv
    by_cases hfailed : b.file.hasError = true
    -- nothing may be accepted any more
    · refine putTail_stay ?_ ⟨_, hbytes⟩ hfits hfailed
      by_cases hends : putLoopEnds b.file buf = true
      · rw [putLoop_ends hends]
      · apply putLoop_refused
        have hlimit : r.b.file.bytesXfer ≤ r.b.file.xferLimit := by
          by_contra hlimit
          apply hends
          unfold putLoopEnds
          rw [hflush.xfer, hflush.limit, decide_eq_true (Nat.lt_of_not_le hlimit), Bool.or_true]
        refine hflush.refuses (hkeeps hclear ?_ hlimit) hfailed
        rintro rfl
        apply hends
        unfold putLoopEnds
        rw [List.isEmpty_nil, Bool.or_true, Bool.true_or]
    · exact putTail_clean hbytes (hflush.done rfl (Bool.eq_false_iff.mpr hfailed)) hfits

/-! ### The other calls -/

theorem bufferedFlush_bytes (hb : b.file.hasError = false) :
    (bufferedFlush b).after.accepted ++ (bufferedFlush b).after.file.buffer =
      b.accepted ++ b.file.buffer := by
  unfold bufferedFlush
  rw [hb]
  exact (flushLoop_spec b.answers b.file b.accepted hb).bytes

theorem bufferedFlush_inv (hb : b.file.hasError = false)
    (hput : b.accepted ++ b.file.buffer = put) (hfits : b.file.Fits) :
    (bufferedFlush b).after.accepted ++ (bufferedFlush b).after.file.buffer = put ∧
      (bufferedFlush b).after.file.Fits := by
  refine ⟨(bufferedFlush_bytes hb).trans hput, ?_⟩
  unfold bufferedFlush
  rw [hb]
  exact (flushLoop_spec b.answers b.file b.accepted hb).fits hfits

theorem closeLoop_succ (fuel : Nat) (b : Buffered) : closeLoop (fuel + 1) b =
    if !b.file.hasError && b.file.buffer ≠ [] then
      (bufferedFlush b).andThen fun _ b => closeLoop fuel b
    else ⟨b, some ()⟩ := rfl

/-- A close keeps the invariant. -/
theorem closeLoop_inv (fuel : Nat) (hb : b.accepted <+: put)
    (hput : b.file.hasError = false → b.accepted ++ b.file.buffer = put) (hfits : b.file.Fits) :
    ((closeLoop fuel b).run put true).Inv := by
  induction fuel generalizing b with
  | zero => exact ⟨⟨hb, fun hret => absurd hret.symm Bool.noConfusion⟩, hfits⟩
  | succ fuel ih =>
    rw [closeLoop_succ]
    split_ifs with hloop
    · rw [Bool.and_eq_true, Bool.not_eq_true'] at hloop
      have hflush := bufferedFlush_inv hloop.1 (hput hloop.1) hfits
      generalize bufferedFlush b = c at hflush
      obtain ⟨b', value⟩ := c
      have hstart : b'.accepted <+: put := ⟨_, hflush.1⟩
      cases value with
      | none => exact ⟨⟨hstart, fun hret => absurd hret.symm Bool.noConfusion⟩, hflush.2⟩
      | some u => exact ih hstart (fun _ => hflush.1) hflush.2
    · exact ⟨⟨hb, fun _ => hput⟩, hfits⟩

/-- So does a tick. -/
theorem bufferedRateTick_inv (h : r.Inv) (hret : r.returned = true) :
    ((bufferedRateTick r.b).run r.put false).Inv := by
  unfold bufferedRateTick
  split_ifs with herror hfreeze
  · exact ⟨⟨h.inOrder.accepted, fun _ => h.inOrder.pending hret⟩, h.fits⟩
  · exact ⟨⟨h.inOrder.accepted, fun _ => h.inOrder.pending hret⟩, h.fits⟩
  · have hclear := Bool.eq_false_iff.mpr herror
    have hflush := bufferedFlush_inv (b := { r.b with file := { r.b.file with bytesXfer := 0 } })
      hclear (h.inOrder.pending hret hclear) h.fits
    generalize bufferedFlush { r.b with file := { r.b.file with bytesXfer := 0 } } = c at hflush
    obtain ⟨b', value⟩ := c
    have hstart : b'.accepted <+: r.put := ⟨_, hflush.1⟩
    cases value with
    | none => exact ⟨⟨hstart, fun hret => absurd hret.symm Bool.noConfusion⟩, hflush.2⟩
    | some u => exact ⟨⟨hstart, fun _ _ => hflush.1⟩, hflush.2⟩

theorem bufferedSetRateLimit_inv (h : r.Inv) (newRate : Nat) :
    ({ r with b := { r.b with file := bufferedSetRateLimit r.b.file newRate } } :
      BufferedRun).Inv := by
  unfold bufferedSetRateLimit
  split_ifs
  · exact h
  · exact ⟨⟨h.inOrder.accepted, h.inOrder.pending⟩, h.fits⟩

/-! ### Runs -/

/-- Every call keeps it, if it is a put that skips nothing. -/
theorem BufferedOp.exec_inv (r : BufferedRun) (op : BufferedOp) (r' : BufferedRun) (h : r.Inv)
    (hkeeps : op.Keeps r) (hexec : BufferedOp.exec r op = some r') : r'.Inv := by
  unfold BufferedOp.exec at hexec
  split_ifs at hexec with hopen
  have hret : r.returned = true := by
    by_contra hret
    exact hopen (by rw [Bool.eq_false_iff.mpr hret]; rfl)
  cases op with
  | put buf =>
    obtain rfl := Option.some.inj hexec
    exact bufferedPutBuffer_inv h hret hkeeps
  | rateTick =>
    obtain rfl := Option.some.inj hexec
    exact bufferedRateTick_inv h hret
  | setRateLimit newRate =>
    obtain rfl := Option.some.inj hexec
    exact bufferedSetRateLimit_inv h newRate
  | close =>
    obtain rfl := Option.some.inj hexec
    exact closeLoop_inv _ h.inOrder.accepted (h.inOrder.pending hret) h.fits

theorem BufferedRun.start_inv (bytesPerSec : Nat) (answers : List Answer) :
    (BufferedRun.start bytesPerSec answers).Inv :=
  ⟨⟨List.prefix_rfl, fun _ _ => rfl⟩, Nat.le_refl 0⟩

/-- **The stream is in order** in every run in which no new bytes overtake pending ones. -/
theorem bufferedRun_inOrder {bytesPerSec : Nat} {answers : List Answer} {ops : List BufferedOp}
    {r : BufferedRun}
    (hkeeps : StepsMeet BufferedOp.exec (fun r op => op.Keeps r)
      (BufferedRun.start bytesPerSec answers) ops)
    (hrun : runFrom BufferedOp.exec (BufferedRun.start bytesPerSec answers) ops = some r) :
    r.InOrder :=
  (runFrom_preserves BufferedOp.exec_inv (BufferedRun.start_inv bytesPerSec answers) hkeeps
    hrun).inOrder

/-- The backend takes a byte, is not ready, takes another, and the file is closed. -/
def frozenAnswers : List Answer := [.takes 0, .again, .takes 0, .takes 5]

/-- Two puts, and the end. -/
def frozenOps : List BufferedOp := [.put [1, 2], .put [3], .close]

/-- The bytes arrive in their order. -/
theorem bufferedRun_inOrder_frozen :
    ∃ r, runFrom BufferedOp.exec (BufferedRun.start 1000 frozenAnswers) frozenOps = some r ∧
      r.b.accepted = [1, 2, 3] ∧ r.InOrder := by
  have hkeeps : StepsMeet BufferedOp.exec (fun r op => op.Keeps r)
      (BufferedRun.start 1000 frozenAnswers) frozenOps := by decide
  refine ⟨_, rfl, by decide, bufferedRun_inOrder hkeeps rfl⟩

/-- Behind an error the pending byte is left out, and the next one is accepted. -/
theorem bufferedRun_overtakes : ¬∀ (bytesPerSec : Nat) (answers : List Answer)
    (ops : List BufferedOp) (r : BufferedRun),
    runFrom BufferedOp.exec (BufferedRun.start bytesPerSec answers) ops = some r →
      r.InOrder := by
  intro h
  have hin := h 1000 [.again, .error, .takes 0] [.put [1], .put [2]] _ rfl
  exact absurd hin.accepted (by decide)

end Qemu.Migration
