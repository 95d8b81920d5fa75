import Qemu.Lib.Stream

namespace Qemu.QemuFile

open Lib

/-!
# Files of values (`QEMUFile` in `savevm.c`)

A file is written or read through a buffer, value by value.  The backend takes the bytes that are
flushed, all or a part of them, or fails; it gives them back in chunks as it likes.

* `qemuPutByte`, `qemuPutBuffer`, …, `qemuFclose` — a file is written;
* `qemuGetByte`, `qemuGetBuffer`, … — a file is read;
* `FileReads` — a reader takes a value off a stream, whatever the chunks are;
* `Writes` — a writer puts bytes, and what has become of them;
* `qemuFile_roundtrip_iff` — which backends lose nothing.

A file that is written has no `get_buffer`, so the `abort` in front of a put is not reached.
-/

/-- `IO_BUF_SIZE` -/
def IO_BUF_SIZE : Nat := 32768

/-- The values. -/
inductive Value where
  | byte (v : Byte)
  | be16 (v : BitVec 16)
  | be32 (v : BitVec 32)
  | be64 (v : BitVec 64)
  | buffer (buf : List Byte)
  deriving DecidableEq

/-! ### Writing -/

/-- A file that is written: the part of `buf` in front of `buf_index`, what the backend has taken,
and how often it was called. -/
structure WriteFile where
  buf : List Byte
  bufOffset : Nat
  hasError : Bool
  accepted : List Byte
  calls : Nat

/-- `qemu_fopen_ops` -/
def WriteFile.opened : WriteFile := ⟨[], 0, false, [], 0⟩

section

-- what `put_buffer` returns, call by call: how many bytes it takes, or an error
variable (answers : Nat → Int)

/-- `qemu_fflush` -/
def qemuFflush (f : WriteFile) : WriteFile :=
  if f.buf = [] then f
  else
    let len := answers f.calls
    { buf := []
      bufOffset := if 0 < len then f.bufOffset + f.buf.length else f.bufOffset
      hasError := f.hasError || !decide (0 < len)
      accepted := f.accepted ++ f.buf.take len.toNat
      calls := f.calls + 1 }

/-- A flush, if the buffer is full. -/
def flushFull (f : WriteFile) : WriteFile :=
  if IO_BUF_SIZE ≤ f.buf.length then qemuFflush answers f else f

/-- `qemu_put_byte` -/
def qemuPutByte (v : Byte) (f : WriteFile) : WriteFile :=
  flushFull answers { f with buf := f.buf ++ [v] }

/-- The loop of `qemu_put_buffer`, with fuel. -/
def putBufferLoop : Nat → List Byte → WriteFile → WriteFile
  | 0, _, f => f
  | fuel + 1, buf, f =>
    if !f.hasError && buf ≠ [] then
      let l := min (IO_BUF_SIZE - f.buf.length) buf.length
      putBufferLoop fuel (buf.drop l) (flushFull answers { f with buf := f.buf ++ buf.take l })
    else f

/-- `qemu_put_buffer` -/
def qemuPutBuffer (buf : List Byte) (f : WriteFile) : WriteFile :=
  putBufferLoop answers buf.length buf f

/-- `qemu_put_be16` -/
def qemuPutBe16 (v : BitVec 16) (f : WriteFile) : WriteFile :=
  qemuPutByte answers (v.setWidth 8) (qemuPutByte answers ((v >>> 8).setWidth 8) f)

/-- `qemu_put_be32` -/
def qemuPutBe32 (v : BitVec 32) (f : WriteFile) : WriteFile :=
  qemuPutByte answers (v.setWidth 8) (qemuPutByte answers ((v >>> 8).setWidth 8)
    (qemuPutByte answers ((v >>> 16).setWidth 8) (qemuPutByte answers ((v >>> 24).setWidth 8) f)))

/-- `qemu_put_be64` -/
def qemuPutBe64 (v : BitVec 64) (f : WriteFile) : WriteFile :=
  qemuPutBe32 answers (v.setWidth 32) (qemuPutBe32 answers ((v >>> 32).setWidth 32) f)

/-- The put of a value. -/
def Value.put : Value → WriteFile → WriteFile
  | .byte v => qemuPutByte answers v
  | .be16 v => qemuPutBe16 answers v
  | .be32 v => qemuPutBe32 answers v
  | .be64 v => qemuPutBe64 answers v
  | .buffer buf => qemuPutBuffer answers buf

/-- The puts, one after the other. -/
def putAll (values : List Value) (f : WriteFile) : WriteFile :=
  values.foldl (fun f v => v.put answers f) f

/-- The flush of `qemu_fclose`; the file is freed behind it. -/
def qemuFclose (f : WriteFile) : WriteFile := qemuFflush answers f

/-- `qemu_ftell`, where `buf_size` is 0. -/
def WriteFile.qemuFtell (f : WriteFile) : Nat := f.bufOffset + f.buf.length

end

/-! ### Reading -/

/-- A file that is read: the part of `buf` in front of `buf_size`, what the backend has left, and
how often it was called. -/
structure ReadFile where
  buf : List Byte
  bufIndex : Nat
  bufOffset : Nat
  hasError : Bool
  left : List Byte
  calls : Nat

/-- `qemu_fopen_ops`, for what a backend has got. -/
def ReadFile.opened (left : List Byte) : ReadFile := ⟨[], 0, 0, false, left, 0⟩

/-- `qemu_ftell` -/
def ReadFile.qemuFtell (f : ReadFile) : Int := f.bufOffset - f.buf.length + f.bufIndex

section

-- a call of `get_buffer` returns from 1 to `IO_BUF_SIZE` bytes, or fewer where fewer are left
variable (chunks : Nat → Nat)

/-- `qemu_fill_buffer` -/
def qemuFillBuffer (f : ReadFile) : ReadFile :=
  let len := min (chunks f.calls % IO_BUF_SIZE + 1) f.left.length
  if 0 < len then
    { f with
      buf := f.left.take len
      bufIndex := 0
      bufOffset := f.bufOffset + len
      left := f.left.drop len
      calls := f.calls + 1 }
  else { f with hasError := true, calls := f.calls + 1 }

/-- The byte at `buf_index`. -/
def takeByte (f : ReadFile) : Byte × ReadFile :=
  (f.buf.getD f.bufIndex 0, { f with bufIndex := f.bufIndex + 1 })

/-- `qemu_get_byte` -/
def qemuGetByte : StateM ReadFile Byte := fun f =>
  if f.buf.length ≤ f.bufIndex then
    let f := qemuFillBuffer chunks f
    if f.buf.length ≤ f.bufIndex then (0, f) else takeByte f
  else takeByte f

/-- The loop of `qemu_get_buffer`, with fuel.  The value is what is copied. -/
def getBufferLoop : Nat → Nat → StateM ReadFile (List Byte)
  | 0, _ => pure []
  | fuel + 1, size => fun f =>
    if size = 0 then ([], f)
    else
      let f := if f.buf.length - f.bufIndex = 0 then qemuFillBuffer chunks f else f
      let l := min (f.buf.length - f.bufIndex) size
      if l = 0 then ([], f)
      else
        let r := getBufferLoop fuel (size - l) { f with bufIndex := f.bufIndex + l }
        ((f.buf.drop f.bufIndex).take l ++ r.1, r.2)

/-- `qemu_get_buffer` -/
def qemuGetBuffer (size : Nat) : StateM ReadFile (List Byte) := getBufferLoop chunks size size

/-- `qemu_get_be16` -/
def qemuGetBe16 : StateM ReadFile (BitVec 16) := do
  let b₁ ← qemuGetByte chunks
  let b₀ ← qemuGetByte chunks
  pure (be16 b₁ b₀)

/-- `qemu_get_be32` -/
def qemuGetBe32 : StateM ReadFile (BitVec 32) := do
  let b₃ ← qemuGetByte chunks
  let b₂ ← qemuGetByte chunks
  let b₁ ← qemuGetByte chunks
  let b₀ ← qemuGetByte chunks
  pure (be32 b₃ b₂ b₁ b₀)

/-- `qemu_get_be64` -/
def qemuGetBe64 : StateM ReadFile (BitVec 64) := do
  let hi ← qemuGetBe32 chunks
  let lo ← qemuGetBe32 chunks
  pure (be64 hi lo)

/-- The get for a value that was put. -/
def Value.get : Value → StateM ReadFile Value
  | .byte _ => do pure (.byte (← qemuGetByte chunks))
  | .be16 _ => do pure (.be16 (← qemuGetBe16 chunks))
  | .be32 _ => do pure (.be32 (← qemuGetBe32 chunks))
  | .be64 _ => do pure (.be64 (← qemuGetBe64 chunks))
  | .buffer buf => do pure (.buffer (← qemuGetBuffer chunks buf.length))

/-- The gets, in the order of the puts. -/
def getAll : List Value → StateM ReadFile (List Value)
  | [] => pure []
  | v :: values => do
    let a ← v.get chunks
    let l ← getAll values
    pure (a :: l)

end

/-- The bytes of a value. -/
def Value.bytes : Value → List Byte
  | .byte v => putByte v
  | .be16 v => putBe16 v
  | .be32 v => putBe32 v
  | .be64 v => putBe64 v
  | .buffer buf => buf

/-! ### What is read -/

/-- What is left to read, and how much has been. -/
structure ReadFile.At (f : ReadFile) (unread : List Byte) (consumed : Nat) : Prop where
  index : f.bufIndex ≤ f.buf.length
  unread : f.buf.drop f.bufIndex ++ f.left = unread
  offset : f.bufOffset = consumed + (f.buf.length - f.bufIndex)
  clear : f.hasError = false

theorem ReadFile.At.qemuFtell {f : ReadFile} {unread : List Byte} {consumed : Nat}
    (h : f.At unread consumed) : f.qemuFtell = consumed := by
  have hindex := h.index
  simp only [ReadFile.qemuFtell, h.offset]
  omega

theorem at_opened (left : List Byte) : (ReadFile.opened left).At left 0 where
  index := Nat.le_refl _
  unread := rfl
  offset := rfl
  clear := rfl

/-- The reader takes these bytes of the file and returns this value. -/
def FileReads {α : Type} (g : StateM ReadFile α) (bs : List Byte) (a : α) : Prop :=
  ∀ (f : ReadFile) (rest : List Byte) (consumed : Nat), f.At (bs ++ rest) consumed →
    (g f).1 = a ∧ (g f).2.At rest (consumed + bs.length)

section

variable {α β : Type}

theorem FileReads.pure (a : α) : FileReads (pure a) [] a := fun _ _ _ h => ⟨rfl, h⟩

theorem FileReads.bind {g : StateM ReadFile α} {k : α → StateM ReadFile β} {bs bs' : List Byte}
    {a : α} {b : β} (hg : FileReads g bs a) (hk : FileReads (k a) bs' b) :
    FileReads (g >>= k) (bs ++ bs') b := by
  intro f rest consumed h
  rw [List.append_assoc] at h
  obtain ⟨hvalue, hafter⟩ := hg f (bs' ++ rest) consumed h
  have hnext := hk _ rest _ hafter
  rw [List.length_append, ← Nat.add_assoc]
  show (k (g f).1 (g f).2).1 = b ∧ (k (g f).1 (g f).2).2.At rest _
  rw [hvalue]
  exact hnext

theorem FileReads.map {g : StateM ReadFile α} {m : α → β} {bs : List Byte} {a : α}
    (hg : FileReads g bs a) : FileReads (g >>= fun a => Pure.pure (m a)) bs (m a) := by
  have h := hg.bind (k := fun a => Pure.pure (m a)) (FileReads.pure (m a))
  rwa [List.append_nil] at h

end

section

variable {chunks : Nat → Nat}

/-- A buffer that is used up is filled. -/
theorem qemuFillBuffer_at {f : ReadFile} {unread : List Byte} {consumed : Nat}
    (h : f.At unread consumed) (hused : f.buf.length ≤ f.bufIndex) (hleft : unread ≠ []) :
    (qemuFillBuffer chunks f).At unread consumed ∧
      (qemuFillBuffer chunks f).bufIndex < (qemuFillBuffer chunks f).buf.length := by
  have hindex := h.index
  have hunread : f.left = unread := by
    have hall := h.unread
    rwa [List.drop_eq_nil_of_le hused, List.nil_append] at hall
  have hpos : 0 < f.left.length := List.length_pos_iff.mpr (hunread ▸ hleft)
  have hoffset := h.offset
  unfold qemuFillBuffer
  generalize hlen : min (chunks f.calls % IO_BUF_SIZE + 1) f.left.length = len
  have hlen' : 0 < len ∧ len ≤ f.left.length := by omega
  dsimp only
  rw [if_pos hlen'.1]
  refine ⟨⟨Nat.zero_le _, ?_, ?_, h.clear⟩, ?_⟩
  · simp [hunread]
  · simp only [List.length_take, Nat.sub_zero]
    omega
  · simpa using ⟨hlen'.1, hpos⟩

/-- What is in the buffer is taken off it. -/
theorem ReadFile.At.advance {f : ReadFile} {bs rest : List Byte} {consumed l : Nat}
    (h : f.At (bs ++ rest) consumed) (hbuf : l ≤ f.buf.length - f.bufIndex) (hbs : l ≤ bs.length) :
    (f.buf.drop f.bufIndex).take l = bs.take l ∧
      ({ f with bufIndex := f.bufIndex + l } : ReadFile).At (bs.drop l ++ rest) (consumed + l) := by
  have hindex := h.index
  have hoffset := h.offset
  have hroom : l ≤ (f.buf.drop f.bufIndex).length := by rwa [List.length_drop]
  constructor
  · rw [← List.take_append_of_le_length hroom, h.unread, List.take_append_of_le_length hbs]
  · refine ⟨by dsimp only; omega, ?_, by dsimp only; omega, h.clear⟩
    dsimp only
    rw [← List.drop_drop, ← List.drop_append_of_le_length hroom, h.unread,
      List.drop_append_of_le_length hbs]

/-- A byte, whatever the chunks of the file are. -/
theorem fileReads_byte (b : Byte) : FileReads (qemuGetByte chunks) (putByte b) b := by
  -- the byte is in the buffer, or it is once the buffer is filled
  have htake : ∀ {f : ReadFile} {rest : List Byte} {consumed : Nat},
      f.At (putByte b ++ rest) consumed → f.bufIndex < f.buf.length →
        (takeByte f).1 = b ∧ (takeByte f).2.At rest (consumed + 1) := by
    intro f rest consumed h hlt
    obtain ⟨hb, hafter⟩ := h.advance (l := 1) (by omega) le_rfl
    refine ⟨?_, hafter⟩
    rw [List.drop_eq_getElem_cons hlt] at hb
    rw [takeByte, List.getD_eq_getElem?_getD, List.getElem?_eq_getElem hlt]
    exact (List.cons.inj hb).1
  intro f rest consumed h
  simp only [qemuGetByte]
  split
  · rename_i hused
    obtain ⟨hfilled, hlt⟩ := @qemuFillBuffer_at chunks _ _ _ h hused (List.cons_ne_nil _ _)
    rw [if_neg (Nat.not_le.mpr hlt)]
    exact htake hfilled hlt
  · rename_i hlt
    exact htake h (Nat.not_le.mp hlt)

theorem fileReads_be16 (v : BitVec 16) : FileReads (qemuGetBe16 chunks) (putBe16 v) v := by
  suffices h : FileReads (qemuGetBe16 chunks) (putBe16 v)
      (be16 ((v >>> 8).setWidth 8) (v.setWidth 8)) by
    rwa [be16_bytes] at h
  unfold qemuGetBe16
  refine (fileReads_byte _).bind ?_
  exact (fileReads_byte _).map

theorem fileReads_be32 (v : BitVec 32) : FileReads (qemuGetBe32 chunks) (putBe32 v) v := by
  suffices h : FileReads (qemuGetBe32 chunks) (putBe32 v) (be32 ((v >>> 24).setWidth 8)
      ((v >>> 16).setWidth 8) ((v >>> 8).setWidth 8) (v.setWidth 8)) by
    rwa [be32_bytes] at h
  unfold qemuGetBe32
  refine (fileReads_byte _).bind ?_
  refine (fileReads_byte _).bind ?_
  refine (fileReads_byte _).bind ?_
  exact (fileReads_byte _).map

theorem fileReads_be64 (v : BitVec 64) : FileReads (qemuGetBe64 chunks) (putBe64 v) v := by
  suffices h : FileReads (qemuGetBe64 chunks) (putBe64 v)
      (be64 ((v >>> 32).setWidth 32) (v.setWidth 32)) by
    rwa [be64_words] at h
  unfold qemuGetBe64
  refine (fileReads_be32 _).bind ?_
  exact (fileReads_be32 _).map

/-- The loop of `qemu_get_buffer` reads all it asks for. -/
theorem fileReads_bufferLoop (fuel : Nat) {bs : List Byte} (hfuel : bs.length ≤ fuel) :
    FileReads (getBufferLoop chunks fuel bs.length) bs bs := by
  induction fuel generalizing bs with
  | zero =>
    obtain rfl := List.length_eq_zero_iff.mp (Nat.le_zero.mp hfuel)
    exact FileReads.pure []
  | succ fuel ih =>
    intro f rest consumed h
    by_cases hempty : bs = []
    · subst hempty
      exact ⟨rfl, h⟩
    have hsize : bs.length ≠ 0 := fun hlen => hempty (List.length_eq_zero_iff.mp hlen)
    simp only [getBufferLoop, if_neg hsize]
    -- something is in the buffer, or it is once the buffer is filled
    generalize hf' : (if f.buf.length - f.bufIndex = 0 then qemuFillBuffer chunks f else f) = f'
    have hready : f'.At (bs ++ rest) consumed ∧ f'.bufIndex < f'.buf.length := by
      rw [← hf']
      split
      · exact qemuFillBuffer_at h (by omega) (by simp [hempty])
      · exact ⟨h, by omega⟩
    generalize hl : min (f'.buf.length - f'.bufIndex) bs.length = l
    have hpos : l ≠ 0 := by omega
    obtain ⟨hcopied, hafter⟩ := hready.1.advance (l := l) (by omega) (by omega)
    have hfuel' : (bs.drop l).length ≤ fuel := by rw [List.length_drop]; omega
    obtain ⟨hvalue, hat⟩ := ih hfuel' _ _ _ hafter
    rw [List.length_drop] at hvalue hat
    rw [if_neg hpos]
    constructor
    · show _ ++ (getBufferLoop chunks fuel (bs.length - l) _).1 = bs
      rw [hvalue, hcopied, List.take_append_drop]
    · rwa [Nat.add_assoc, Nat.add_sub_cancel' (by omega)] at hat

theorem fileReads_value (v : Value) : FileReads (v.get chunks) v.bytes v := by
  cases v with
  | byte v => exact (fileReads_byte v).map
  | be16 v => exact (fileReads_be16 v).map
  | be32 v => exact (fileReads_be32 v).map
  | be64 v => exact (fileReads_be64 v).map
  | buffer buf => exact (fileReads_bufferLoop _ le_rfl).map

theorem fileReads_getAll (values : List Value) :
    FileReads (getAll chunks values) (values.flatMap Value.bytes) values := by
  induction values with
  | nil => exact FileReads.pure []
  | cons v values ih =>
    rw [List.flatMap_cons]
    exact (fileReads_value v).bind ih.map

end

/-! ### What is written -/

/-- Without an error: the calls so far were for full buffers, and all is there if none of them
took a part only. -/
structure WriteFile.Clean (answers : Nat → Int) (f : WriteFile) (put : List Byte) : Prop where
  clear : f.hasError = false
  offset : f.bufOffset = f.calls * IO_BUF_SIZE
  tell : f.bufOffset + f.buf.length = put.length
  positive : ∀ i < f.calls, 0 < answers i
  whole : (∀ i < f.calls, (IO_BUF_SIZE : Int) ≤ answers i) → f.accepted ++ f.buf = put
  part : (∃ i < f.calls, answers i < (IO_BUF_SIZE : Int)) → f.accepted.length < f.bufOffset

/-- With an error: a call for a full buffer has failed, and the position is too small. -/
structure WriteFile.Failed (answers : Nat → Int) (f : WriteFile) (put : List Byte) : Prop where
  error : f.hasError = true
  tell : f.bufOffset + f.buf.length < put.length
  call : ∃ i < put.length / IO_BUF_SIZE, answers i ≤ 0

/-- There is room in the buffer, and what was put has been flushed as far as it should be. -/
structure WriteFile.Written (answers : Nat → Int) (f : WriteFile) (put : List Byte) : Prop where
  room : f.buf.length < IO_BUF_SIZE
  state : f.Clean answers put ∨ f.Failed answers put

section

variable {answers : Nat → Int} {f : WriteFile} {put : List Byte}

theorem WriteFile.Clean.accepted_le (h : f.Clean answers put) :
    f.accepted.length ≤ f.bufOffset := by
  by_cases hall : ∀ i < f.calls, (IO_BUF_SIZE : Int) ≤ answers i
  · have hlen := congrArg List.length (h.whole hall)
    have htell := h.tell
    rw [List.length_append] at hlen
    omega
  · push Not at hall
    exact (h.part hall).le

theorem WriteFile.Failed.mono (h : f.Failed answers put) (bs : List Byte) :
    f.Failed answers (put ++ bs) := by
  obtain ⟨i, hi, hcall⟩ := h.call
  refine ⟨h.error, ?_, i, ?_, hcall⟩
  · have htell := h.tell
    rw [List.length_append]
    omega
  · rw [List.length_append]
    exact lt_of_lt_of_le hi (Nat.div_le_div_right (Nat.le_add_right _ _))

/-- Bytes are put behind those in the buffer. -/
theorem WriteFile.append_state (h : f.Clean answers put ∨ f.Failed answers put) (bs : List Byte) :
    ({ f with buf := f.buf ++ bs } : WriteFile).Clean answers (put ++ bs) ∨
      ({ f with buf := f.buf ++ bs } : WriteFile).Failed answers (put ++ bs) := by
  obtain h | h := h
  · left
    have htell := h.tell
    refine ⟨h.clear, h.offset, ?_, h.positive, fun hall => ?_, h.part⟩
    · simp only [List.length_append]
      omega
    · dsimp only
      rw [← List.append_assoc, h.whole hall]
  · right
    have htell := h.tell
    refine ⟨h.error, ?_, (h.mono bs).call⟩
    simp only [List.length_append]
    omega

/-- A full buffer is flushed. -/
theorem qemuFflush_full (hfull : f.buf.length = IO_BUF_SIZE)
    (h : f.Clean answers put ∨ f.Failed answers put) :
    (qemuFflush answers f).Clean answers put ∨ (qemuFflush answers f).Failed answers put := by
  have hne : f.buf ≠ [] := by
    intro hempty
    rw [hempty] at hfull
    exact absurd hfull (by decide)
  have hsize : 0 < IO_BUF_SIZE := by decide
  rw [qemuFflush, if_neg hne]
  obtain h | h := h
  · have hoffset := h.offset
    have htell := h.tell
    have hle := h.accepted_le
    -- a flush that writes anything takes all of the buffer, or the file has failed
    by_cases hlen : 0 < answers f.calls
    · left
      simp only [hlen, if_true]
      refine ⟨by simp [h.clear], ?_, by simpa using htell, ?_, fun hall => ?_, ?_⟩
      · simp only [hoffset, hfull, Nat.add_mul, Nat.one_mul]
      · intro i hi
        obtain hi | rfl := Nat.lt_succ_iff_lt_or_eq.mp hi
        · exact h.positive i hi
        · exact hlen
      · have hlast := hall f.calls (Nat.lt_succ_self _)
        rw [List.append_nil, List.take_of_length_le (by omega)]
        exact h.whole fun i hi => hall i (Nat.lt_succ_of_lt hi)
      · rintro ⟨i, hi, hpart⟩
        simp only [List.length_append, List.length_take]
        obtain hi | rfl := Nat.lt_succ_iff_lt_or_eq.mp hi
        · have hlt := h.part ⟨i, hi, hpart⟩
          omega
        · omega
    · right
      simp only [hlen, if_false]
      refine ⟨by simp, by simp only [List.length_nil]; omega, f.calls, ?_, by omega⟩
      rw [← htell, hoffset, hfull, Nat.lt_div_iff_mul_lt hsize]
      omega
  · right
    have htell := h.tell
    refine ⟨by simp [h.error], ?_, h.call⟩
    simp only [List.length_nil]
    split <;> omega

theorem flushFull_written (hroom : f.buf.length ≤ IO_BUF_SIZE)
    (h : f.Clean answers put ∨ f.Failed answers put) :
    (flushFull answers f).Written answers put := by
  unfold flushFull
  split
  · rename_i hfull
    refine ⟨?_, qemuFflush_full (le_antisymm hroom hfull) h⟩
    have hempty : (qemuFflush answers f).buf = [] := by
      unfold qemuFflush
      split
      · assumption
      · rfl
    rw [hempty]
    decide
  · rename_i hlt
    exact ⟨Nat.not_le.mp hlt, h⟩

/-- The writer puts these bytes. -/
def Writes (answers : Nat → Int) (g : WriteFile → WriteFile) (bs : List Byte) : Prop :=
  ∀ f put, f.Written answers put → (g f).Written answers (put ++ bs)

theorem writes_byte (v : Byte) : Writes answers (qemuPutByte answers v) (putByte v) := by
  intro f put h
  have hroom := h.room
  apply flushFull_written
  · simp only [List.length_append, List.length_singleton]
    omega
  · exact WriteFile.append_state h.state [v]

/-- The loop of `qemu_put_buffer` writes all it is given. -/
theorem writes_bufferLoop (fuel : Nat) {buf : List Byte} (hfuel : buf.length ≤ fuel) :
    Writes answers (putBufferLoop answers fuel buf) buf := by
  induction fuel generalizing buf with
  | zero =>
    intro f put h
    obtain rfl := List.length_eq_zero_iff.mp (Nat.le_zero.mp hfuel)
    rwa [List.append_nil]
  | succ fuel ih =>
    intro f put h
    have hroom := h.room
    unfold putBufferLoop
    split
    · rename_i hgo
      simp only [Bool.and_eq_true, Bool.not_eq_true', decide_eq_true_eq] at hgo
      have hpos := List.length_pos_iff.mpr hgo.2
      generalize hl : min (IO_BUF_SIZE - f.buf.length) buf.length = l
      dsimp only
      have hfull : (f.buf ++ buf.take l).length ≤ IO_BUF_SIZE := by
        simp only [List.length_append, List.length_take]
        omega
      have hflush := flushFull_written hfull (WriteFile.append_state h.state (buf.take l))
      have hfuel' : (buf.drop l).length ≤ fuel := by rw [List.length_drop]; omega
      have hrest := ih hfuel' _ _ hflush
      rwa [List.append_assoc, List.take_append_drop] at hrest
    · rename_i hstop
      simp only [Bool.and_eq_true, Bool.not_eq_true', decide_eq_true_eq, not_and_or,
        Bool.not_eq_false, not_not] at hstop
      obtain herror | rfl := hstop
      -- what comes behind an error is not looked at
      · obtain hclean | hfailed := h.state
        · exact absurd (herror.symm.trans hclean.clear) Bool.true_eq_false_eq_False
        · exact ⟨hroom, Or.inr (hfailed.mono buf)⟩
      · rwa [List.append_nil]

theorem writes_be32 (v : BitVec 32) : Writes answers (qemuPutBe32 answers v) (putBe32 v) := by
  intro f put h
  have h₃ := writes_byte ((v >>> 24).setWidth 8) _ _ h
  have h₂ := writes_byte ((v >>> 16).setWidth 8) _ _ h₃
  have h₁ := writes_byte ((v >>> 8).setWidth 8) _ _ h₂
  have h₀ := writes_byte (v.setWidth 8) _ _ h₁
  simp only [List.append_assoc] at h₀
  exact h₀

theorem writes_value (v : Value) : Writes answers (v.put answers) v.bytes := by
  intro f put h
  cases v with
  | byte v => exact writes_byte v _ _ h
  | be16 v =>
    have hall := writes_byte (v.setWidth 8) _ _ (writes_byte ((v >>> 8).setWidth 8) _ _ h)
    rw [List.append_assoc] at hall
    exact hall
  | be32 v => exact writes_be32 v _ _ h
  | be64 v =>
    have hall := writes_be32 (v.setWidth 32) _ _ (writes_be32 ((v >>> 32).setWidth 32) _ _ h)
    rw [List.append_assoc] at hall
    exact hall
  | buffer buf => exact writes_bufferLoop _ le_rfl _ _ h

theorem writes_putAll (values : List Value) :
    Writes answers (putAll answers values) (values.flatMap Value.bytes) := by
  induction values with
  | nil =>
    intro f put h
    rwa [List.flatMap_nil, List.append_nil]
  | cons v values ih =>
    intro f put h
    rw [List.flatMap_cons, ← List.append_assoc]
    exact ih _ _ (writes_value v _ _ h)

theorem written_opened : WriteFile.opened.Written answers [] where
  room := by decide
  state := Or.inl
    ⟨rfl, rfl, rfl, fun i hi => absurd hi (Nat.not_lt_zero i), fun _ => rfl,
      fun ⟨i, hi, _⟩ => absurd hi (Nat.not_lt_zero i)⟩

theorem written_putAll (answers : Nat → Int) (values : List Value) :
    (putAll answers values .opened).Written answers (values.flatMap Value.bytes) :=
  writes_putAll values _ _ written_opened

end

/-! ### The files that lose nothing -/

/-- No call for a full buffer fails.  Besides, the call of `qemu_fclose` fails, or every call takes
all that it is given. -/
def TakesAll (answers : Nat → Int) (total : Nat) : Prop :=
  (∀ i < total / IO_BUF_SIZE, 0 < answers i) ∧
    (total % IO_BUF_SIZE ≠ 0 ∧ answers (total / IO_BUF_SIZE) ≤ 0 ∨
      (∀ i < total / IO_BUF_SIZE, (IO_BUF_SIZE : Int) ≤ answers i) ∧
        (total % IO_BUF_SIZE = 0 ∨
          ((total % IO_BUF_SIZE : Nat) : Int) ≤ answers (total / IO_BUF_SIZE)))

section

variable {answers : Nat → Int} {f : WriteFile} {put : List Byte}

/-- The position is right as long as there is no error. -/
theorem WriteFile.Written.qemuFtell_iff (h : f.Written answers put) :
    f.qemuFtell = put.length ↔ ∀ i < put.length / IO_BUF_SIZE, 0 < answers i := by
  obtain h' | h' := h.state
  · refine ⟨fun _ i hi => h'.positive i ?_, fun _ => h'.tell⟩
    rw [← h'.tell, h'.offset, Nat.mul_comm, Nat.mul_add_div (by decide),
      Nat.div_eq_of_lt h.room] at hi
    exact hi
  · obtain ⟨i, hi, hcall⟩ := h'.call
    have htell := h'.tell
    constructor
    · intro heq
      unfold WriteFile.qemuFtell at heq
      omega
    · intro hall
      have := hall i hi
      omega

theorem WriteFile.Written.split (h : f.Written answers put) (hclean : f.Clean answers put) :
    put.length / IO_BUF_SIZE = f.calls ∧ put.length % IO_BUF_SIZE = f.buf.length := by
  rw [← hclean.tell, hclean.offset, Nat.mul_comm, Nat.mul_add_div (by decide),
    Nat.mul_add_mod, Nat.div_eq_of_lt h.room, Nat.mod_eq_of_lt h.room]
  exact ⟨rfl, rfl⟩

/-- Without an error all bytes have arrived, exactly if every flush took all of its own. -/
theorem qemuFclose_accepted_iff (h : f.Written answers put) (hclean : f.Clean answers put) :
    ((qemuFclose answers f).hasError = false → (qemuFclose answers f).accepted = put) ↔
      TakesAll answers put.length := by
  obtain ⟨hcalls, hleft⟩ := h.split hclean
  have htell := hclean.tell
  have hle := hclean.accepted_le
  -- a part that was taken earlier is missing at the end
  have hearlier (htaken : f.accepted.length = f.bufOffset) :
      ∀ i < f.calls, (IO_BUF_SIZE : Int) ≤ answers i := by
    by_contra hpart
    push Not at hpart
    have := hclean.part hpart
    omega
  rw [TakesAll, hcalls, hleft, and_iff_right hclean.positive, qemuFclose, qemuFflush]
  by_cases hbuf : f.buf = []
  · have hlen : f.buf.length = 0 := by rw [hbuf]; rfl
    rw [if_pos hbuf, hlen]
    constructor
    · intro haccepted
      right
      refine ⟨hearlier ?_, Or.inl rfl⟩
      rw [haccepted hclean.clear]
      omega
    · rintro (⟨hne, -⟩ | ⟨hwhole, -⟩) -
      · exact absurd rfl hne
      · have hall := hclean.whole hwhole
        rwa [hbuf, List.append_nil] at hall
  · have hlen : f.buf.length ≠ 0 := fun h => hbuf (List.length_eq_zero_iff.mp h)
    rw [if_neg hbuf]
    by_cases hlast : 0 < answers f.calls
    · simp only [hclean.clear, hlast, decide_true, Bool.not_true, Bool.or_self, forall_const]
      constructor
      · intro haccepted
        have htaken := congrArg List.length haccepted
        rw [List.length_append, List.length_take] at htaken
        right
        exact ⟨hearlier (by omega), Or.inr (by omega)⟩
      · rintro (⟨-, hfails⟩ | ⟨hwhole, hnone | htakes⟩)
        · omega
        · exact absurd hnone hlen
        · rw [List.take_of_length_le (by omega)]
          exact hclean.whole hwhole
    -- the flag reports what is lost
    · simp only [hlast, decide_false, Bool.not_false, Bool.or_true, Bool.true_eq_false,
        false_implies, true_iff]
      left
      exact ⟨hlen, by omega⟩

/-- Some of the values are read back, and `qemu_ftell` is behind them. -/
theorem getAll_take (chunks : Nat → Nat) (values : List Value) (n : Nat) :
    let r := getAll chunks (values.take n) (.opened (values.flatMap Value.bytes))
    r.1 = values.take n ∧ r.2.qemuFtell = ((values.take n).flatMap Value.bytes).length := by
  have hsplit : values.flatMap Value.bytes =
      (values.take n).flatMap Value.bytes ++ (values.drop n).flatMap Value.bytes := by
    rw [← List.flatMap_append, List.take_append_drop]
  have hopened := at_opened (values.flatMap Value.bytes)
  rw [hsplit] at hopened
  obtain ⟨hvalue, hat⟩ := @fileReads_getAll chunks (values.take n) _ _ _ hopened
  rw [← hsplit] at hvalue hat
  refine ⟨hvalue, hat.qemuFtell.trans ?_⟩
  rw [Nat.zero_add]

end

/-- **What is put is read back**, and the positions are the numbers of bytes, exactly if the backend
takes all it is given (or only the last call fails, which the flag reports). -/
theorem qemuFile_roundtrip_iff (answers : Nat → Int) (values : List Value) :
    let closed := qemuFclose answers (putAll answers values .opened)
    ((∀ n, (putAll answers (values.take n) .opened).qemuFtell =
        ((values.take n).flatMap Value.bytes).length) ∧
      (closed.hasError = false → closed.accepted = values.flatMap Value.bytes ∧
        ∀ chunks n, let r := getAll chunks (values.take n) (.opened closed.accepted)
          r.1 = values.take n ∧
            r.2.qemuFtell = ((values.take n).flatMap Value.bytes).length)) ↔
      TakesAll answers (values.flatMap Value.bytes).length := by
  intro closed
  have hwritten := written_putAll answers values
  -- the offset counts what was put, so one short write is seen at the end
  constructor
  · rintro ⟨htell, hclosed⟩
    have hall := htell values.length
    rw [List.take_length, hwritten.qemuFtell_iff] at hall
    obtain hclean | hfailed := hwritten.state
    · exact (qemuFclose_accepted_iff hwritten hclean).mp fun hclear => (hclosed hclear).1
    · obtain ⟨i, hi, hcall⟩ := hfailed.call
      have := hall i hi
      omega
  · intro htakes
    have hpositive := htakes.1
    refine ⟨fun n => ?_, fun hclear => ?_⟩
    · rw [(written_putAll answers (values.take n)).qemuFtell_iff]
      intro i hi
      apply hpositive i
      refine lt_of_lt_of_le hi (Nat.div_le_div_right ?_)
      rw [← List.take_append_drop n values, List.flatMap_append, List.length_append,
        List.take_append_drop]
      exact Nat.le_add_right _ _
    · obtain hclean | hfailed := hwritten.state
      · have haccepted := (qemuFclose_accepted_iff hwritten hclean).mpr htakes hclear
        refine ⟨haccepted, fun chunks n => ?_⟩
        rw [show closed.accepted = _ from haccepted]
        exact getAll_take chunks values n
      · obtain ⟨i, hi, hcall⟩ := hfailed.call
        have := hpositive i hi
        omega

/-- A backend takes one of two bytes, and nobody hears of it. -/
theorem qemuFclose_loses :
    let closed := qemuFclose (fun _ => 1) (putAll (fun _ => 1) [.be16 0x1234] .opened)
    closed.hasError = false ∧ closed.accepted = [0x12] := by
  decide

end Qemu.QemuFile
