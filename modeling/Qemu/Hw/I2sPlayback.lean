import Qemu.Hw.I2s
import Qemu.Lib.CountedRing
import Qemu.Lib.Runs

namespace Qemu.Hw

open Lib

/-!
# Playback of the I2S interface

* `I2sRun`, `I2sOp.exec` — the interface and its codec, with the bytes that were written, those that
  were copied to the codec, and how many bytes the play position has gone over;
* `I2sRun.Inv` — the ring keeps what is not played;
* `i2s_playback` — the runs in which exactly what was written is copied, and those in which exactly
  that is committed.

A block that goes around the end of the ring is copied from behind the ring, and the codec is told
that it gets as many samples as the block has bytes, so that it hands out four times the block.
-/

/-- A write of samples by the guest, or a callback of the voice. -/
inductive I2sOp
  | txd (spdif : Bool) (value : BitVec 32)
  | callback (freeOut : Int)
deriving DecidableEq, Repr

/-- The controller and the codec, with the bytes of the guest so far. -/
structure I2sRun where
  i2s : I2s
  codec : Wm8994
  written : List Byte
  copied : List Byte
  played : Nat

/-- A callback copies a block. -/
def I2s.Plays (s : I2s) (freeOut : Int) : Prop :=
  0 < freeOut ∧ s.pause = false ∧ ¬s.Underrun (blockSize freeOut)

instance I2s.decidablePlays (s : I2s) (freeOut : Int) : Decidable (s.Plays freeOut) :=
  inferInstanceAs (Decidable (_ ∧ _ ∧ _))

/-- One step, if it does not fault. -/
def I2sRun.exec (x : I2sRun) : I2sOp → Option I2sRun
  | .txd spdif value =>
    (i2sWrite x.i2s (if spdif then 0x1C else 0x10) value).map fun i2s =>
      { x with i2s, written := x.written ++ leBytes value.toNat }
  | .callback freeOut =>
    (i2sAudioCallback x.i2s x.codec freeOut).map fun (i2s, codec) =>
      if x.i2s.Plays freeOut then
        { x with
          i2s, codec
          copied := x.copied ++ bytesAt x.i2s.buffer x.i2s.playPos (blockSize freeOut)
          played := x.played + blockSize freeOut }
      else { x with i2s, codec }

/-- After a reset, with any contents of the two buffers. -/
def i2sRunInit (ring codec : Nat → Byte) : I2sRun where
  i2s := i2sInit ring
  codec := wm8994Init codec
  written := []
  copied := []
  played := 0

/-- What is not played fits the ring, with a word that is written. -/
def I2sOp.HasRoom (x : I2sRun) : I2sOp → Prop
  | .txd _ _ => x.written.length + 4 ≤ x.played + audioBufferSize
  | .callback _ => True

/-- A callback does not copy a block. -/
def I2sOp.Silent (x : I2sRun) : I2sOp → Prop
  | .txd _ _ => True
  | .callback freeOut => ¬x.i2s.Plays freeOut

/-- A block that a callback copies ends in the ring. -/
def I2sOp.InRing (x : I2sRun) : I2sOp → Prop
  | .txd _ _ => True
  | .callback freeOut => x.i2s.Plays freeOut → x.i2s.playPos + blockSize freeOut ≤ audioBufferSize

instance I2sOp.decidableHasRoom (x : I2sRun) : ∀ op : I2sOp, Decidable (op.HasRoom x)
  | .txd _ _ => inferInstanceAs (Decidable (_ ≤ _))
  | .callback _ => isTrue trivial

instance I2sOp.decidableSilent (x : I2sRun) : ∀ op : I2sOp, Decidable (op.Silent x)
  | .txd _ _ => isTrue trivial
  | .callback freeOut => inferInstanceAs (Decidable ¬x.i2s.Plays freeOut)

instance I2sOp.decidableInRing (x : I2sRun) : ∀ op : I2sOp, Decidable (op.InRing x)
  | .txd _ _ => isTrue trivial
  | .callback freeOut =>
    inferInstanceAs (Decidable (x.i2s.Plays freeOut →
      x.i2s.playPos + blockSize freeOut ≤ audioBufferSize))

/-- The positions are those of the counts, the ring keeps what is not played, and the codec has
    nothing that it has not handed out. -/
structure I2sRun.Inv (x : I2sRun) : Prop where
  iismod : x.i2s.iismod = 0
  bufSize : x.i2s.bufSize = audioBufferSize
  playPos : x.i2s.playPos = x.played % audioBufferSize
  lastFree : x.i2s.lastFree = x.written.length % audioBufferSize
  words : 4 ∣ x.written.length
  played : x.played ≤ x.written.length
  room : x.written.length ≤ x.played + audioBufferSize
  keeps : RingKeeps audioBufferSize x.i2s.buffer x.written x.played
  voice : x.codec.dacVoice = true
  idxOut : x.codec.idxOut = 0

section

variable {x x' : I2sRun} {freeOut : Int} {ring codec : Nat → Byte}

theorem i2sRunInit_inv (ring codec : Nat → Byte) : (i2sRunInit ring codec).Inv where
  iismod := rfl
  bufSize := rfl
  playPos := rfl
  lastFree := rfl
  words := dvd_zero 4
  played := le_rfl
  room := Nat.zero_le _
  keeps := RingKeeps.nil _ _
  voice := rfl
  idxOut := rfl

theorem blockSize_eq (freeOut : Int) : blockSize freeOut = 4 * min freeOut.toNat 0x800 := by
  have hwords : audioWordsSend = 0x800 := rfl
  unfold blockSize
  split_ifs
  · show 4 * (audioWordsSend : Int).toNat = _
    omega
  · show 4 * freeOut.toNat = _
    omega

theorem blockSize_pos (h : 0 < freeOut) : 0 < blockSize freeOut := by
  rw [blockSize_eq]
  omega

theorem blockSize_le (freeOut : Int) : blockSize freeOut ≤ audioBufferSize := by
  rw [blockSize_eq]
  show _ ≤ 0x100000
  omega

/-! ### Words -/

theorem I2sRun.Inv.txWord (h : x.Inv) (value : BitVec 32) : x.i2s.txWord value = value := by
  unfold I2s.txWord
  rw [h.iismod]
  exact if_neg fun hlrp => absurd hlrp.1 (by decide)

/-- What a word changes. -/
theorem I2sRun.Inv.exec_txd (h : x.Inv) (spdif : Bool) (value : BitVec 32) :
    ∃ i2s, x.exec (.txd spdif value) =
        some { x with i2s, written := x.written ++ leBytes value.toNat } ∧
      i2s.iismod = 0 ∧ i2s.bufSize = audioBufferSize ∧ i2s.playPos = x.i2s.playPos ∧
      i2s.lastFree = (x.i2s.lastFree + 4) % audioBufferSize ∧
      i2s.buffer = storeAt x.i2s.buffer x.i2s.lastFree (leBytes value.toNat) := by
  have hwrite : i2sWrite x.i2s (if spdif then 0x1C else 0x10) value =
    some (i2sWriteTxd x.i2s value) := by
    cases spdif <;> rfl
  have htransmit : x.i2s.transmit = true := by
    unfold I2s.transmit
    rw [h.iismod]
    rfl
  refine ⟨i2sWriteTxd x.i2s value, by rw [I2sRun.exec, hwrite]; rfl, ?_⟩
  simp only [i2sWriteTxd, htransmit, h.txWord, h.bufSize, Bool.not_true, Bool.false_eq_true,
    if_false]
  split_ifs
  all_goals exact ⟨h.iismod, rfl, rfl, rfl, rfl⟩

/-- A word goes to the ring. -/
theorem I2sRun.Inv.txd (h : x.Inv) {spdif : Bool} {value : BitVec 32}
    (hroom : (I2sOp.txd spdif value).HasRoom x) :
    ∃ x', x.exec (.txd spdif value) = some x' ∧ x'.Inv ∧ x'.copied = x.copied ∧
      x'.codec = x.codec ∧ x'.written = x.written ++ leBytes value.toNat ∧
        x'.played = x.played := by
  obtain ⟨i2s, hexec, hmod, hsize, hplay, hfree, hbuf⟩ := h.exec_txd spdif value
  have hroom : x.written.length + 4 ≤ x.played + audioBufferSize := hroom
  have hword := h.words
  have hplayed := h.played
  refine ⟨_, hexec, ?_, rfl, rfl, rfl, rfl⟩
  constructor
  case keeps =>
    show RingKeeps _ i2s.buffer _ _
    rw [hbuf, h.lastFree]
    refine h.keeps.store (by rw [length_leBytes]; exact hroom) ?_
    -- positions of words are multiples of 4, as the size is
    rw [length_leBytes]
    show x.written.length % 0x100000 + 4 ≤ 0x100000
    omega
  case lastFree =>
    show i2s.lastFree = (x.written ++ _).length % audioBufferSize
    rw [hfree, h.lastFree, List.length_append, length_leBytes, Nat.mod_add_mod]
  case words => simpa using hword
  case played =>
    show x.played ≤ (x.written ++ _).length
    rw [List.length_append]
    omega
  case room => simpa using hroom
  case iismod => exact hmod
  case bufSize => exact hsize
  case playPos => exact hplay.trans h.playPos
  case voice => exact h.voice
  case idxOut => exact h.idxOut

/-! ### Callbacks -/

/-- A callback that copies nothing. -/
theorem I2sRun.Inv.silent (h : x.Inv) (hplays : ¬x.i2s.Plays freeOut) :
    ∃ x', x.exec (.callback freeOut) = some x' ∧ x'.Inv ∧ x'.copied = x.copied ∧
      x'.codec = x.codec ∧ x'.written = x.written ∧ x'.played = x.played := by
  have hcases : i2sAudioCallback x.i2s x.codec freeOut = some (x.i2s, x.codec) ∨
      i2sAudioCallback x.i2s x.codec freeOut = some (x.i2s.resume, x.codec) := by
    unfold i2sAudioCallback
    by_cases hfree : freeOut ≤ 0
    · exact .inl (if_pos hfree)
    · rw [if_neg hfree]
      by_cases hpause : x.i2s.pause = true
      · exact .inl (if_pos hpause)
      · have hunder : x.i2s.Underrun (blockSize freeOut) := by
          by_contra hn
          exact hplays ⟨by omega, Bool.eq_false_iff.mpr hpause, hn⟩
        right
        simp only [if_neg hpause, if_pos hunder]
  rcases hcases with hcall | hcall
  · refine ⟨{ x with i2s := x.i2s, codec := x.codec }, ?_, ?_, rfl, rfl, rfl, rfl⟩
    · rw [I2sRun.exec, hcall]
      exact congrArg some (if_neg hplays)
    · exact h
  · refine ⟨{ x with i2s := x.i2s.resume, codec := x.codec }, ?_, ?_, rfl, rfl, rfl, rfl⟩
    · rw [I2sRun.exec, hcall]
      exact congrArg some (if_neg hplays)
    · exact ⟨h.iismod, h.bufSize, h.playPos, h.lastFree, h.words, h.played, h.room, h.keeps,
        h.voice, h.idxOut⟩

theorem I2sRun.Inv.ready (h : x.Inv) (hplays : x.i2s.Plays freeOut) :
    x.played + blockSize freeOut ≤ x.written.length := by
  have hunder := hplays.2.2
  unfold I2s.Underrun at hunder
  rw [h.playPos, h.lastFree, h.bufSize, not_or] at hunder
  exact ((block_ready_iff h.played h.room (blockSize_pos hplays.1) (blockSize_le freeOut)).mp
    hunder).1

/-- The codec after a block of the ring. -/
def I2s.commitBlock (s : I2s) (c : Wm8994) (block : Nat) : Wm8994 :=
  let (codecBuffer, c) := wm8994DacBuffer c block
  wm8994DacCommit
    { c with dataOut := storeAt c.dataOut codecBuffer (bytesAt s.buffer s.playPos block) }

theorem I2sRun.Inv.commitBlock (h : x.Inv) (block : Nat) :
    (x.i2s.commitBlock x.codec block).dacVoice = true ∧
      (x.i2s.commitBlock x.codec block).idxOut = 0 ∧
      (x.i2s.commitBlock x.codec block).sent.length = x.codec.sent.length + 4 * block := by
  simp only [I2s.commitBlock, wm8994DacCommit, wm8994OutFlush, wm8994DacBuffer, h.voice, if_true,
    h.idxOut]
  refine ⟨trivial, trivial, ?_⟩
  rw [List.length_append, length_bytesAt, Nat.shiftLeft_eq]
  omega

/-- The block is copied if it ends in the ring. -/
theorem I2sRun.Inv.plays (h : x.Inv) (hplays : x.i2s.Plays freeOut)
    (hring : x.i2s.playPos + blockSize freeOut ≤ audioBufferSize) :
    ∃ x', x.exec (.callback freeOut) = some x' ∧ x'.Inv ∧ x'.written = x.written ∧
      x'.played = x.played + blockSize freeOut ∧
      x'.copied = x.copied ++ (x.written.drop x.played).take (blockSize freeOut) ∧
      x'.codec.sent.length = x.codec.sent.length + 4 * blockSize freeOut := by
  obtain ⟨hpos, hpause, hunder⟩ := id hplays
  have hready := h.ready hplays
  have hcall : i2sAudioCallback x.i2s x.codec freeOut = some
      ({ x.i2s with playPos := (x.i2s.playPos + blockSize freeOut) % x.i2s.bufSize }.resume,
        x.i2s.commitBlock x.codec (blockSize freeOut)) := by
    rw [i2sAudioCallback, if_neg (by omega)]
    simp only [hpause, Bool.false_eq_true, if_false, if_neg hunder]
    rw [if_neg (by rw [h.bufSize]; omega)]
    rfl
  -- the block leaves the ring at the play position and is sent to the codec
  obtain ⟨hvoice, hidx, hsent⟩ := h.commitBlock (blockSize freeOut)
  refine ⟨{ x with
    i2s := { x.i2s with playPos := (x.i2s.playPos + blockSize freeOut) % x.i2s.bufSize }.resume
    codec := x.i2s.commitBlock x.codec (blockSize freeOut)
    copied := x.copied ++ bytesAt x.i2s.buffer x.i2s.playPos (blockSize freeOut)
    played := x.played + blockSize freeOut }, ?_, ?_, rfl, rfl, ?_, hsent⟩
  · rw [I2sRun.exec, hcall]
    exact congrArg some (if_pos hplays)
  · constructor
    case playPos =>
      show (x.i2s.playPos + _) % x.i2s.bufSize = (x.played + blockSize freeOut) % audioBufferSize
      rw [h.bufSize, h.playPos, Nat.mod_add_mod]
    case keeps => exact h.keeps.mono (Nat.le_add_right _ _)
    case room =>
      have hroom := h.room
      show x.written.length ≤ x.played + blockSize freeOut + audioBufferSize
      omega
    case iismod => exact h.iismod
    case bufSize => exact h.bufSize
    case lastFree => exact h.lastFree
    case words => exact h.words
    case played => exact hready
    case voice => exact hvoice
    case idxOut => exact hidx
  · show x.copied ++ bytesAt _ _ _ = _
    rw [h.playPos] at hring ⊢
    rw [h.keeps.fetch hready hring]

theorem I2sRun.Inv.faults (h : x.Inv) (hplays : x.i2s.Plays freeOut)
    (hring : ¬x.i2s.playPos + blockSize freeOut ≤ audioBufferSize) :
    x.exec (.callback freeOut) = none := by
  obtain ⟨hpos, hpause, hunder⟩ := hplays
  have hcall : i2sAudioCallback x.i2s x.codec freeOut = none := by
    rw [i2sAudioCallback, if_neg (by omega)]
    simp only [hpause, Bool.false_eq_true, if_false, if_neg hunder]
    rw [if_pos (by rw [h.bufSize]; omega)]
  rw [I2sRun.exec, hcall]
  rfl

/-- Exactly the bytes that are played have been copied. -/
def I2sRun.Copies (x : I2sRun) : Prop := x.copied = x.written.take x.played

/-- Exactly the bytes that are played have been committed. -/
def I2sRun.Commits (x : I2sRun) : Prop := x.codec.sent = x.written.take x.played

theorem I2sRun.Inv.take_written (h : x.Inv) (l : List Byte) :
    (x.written ++ l).take x.played = x.written.take x.played :=
  List.take_append_of_le_length h.played

/-- The next block is copied behind the others. -/
theorem I2sRun.Copies.step (h : x.Inv) (hcopies : x.Copies) {op : I2sOp} (hroom : op.HasRoom x)
    (hring : op.InRing x) : ∃ x', x.exec op = some x' ∧ x'.Inv ∧ x'.Copies := by
  cases op with
  | txd spdif value =>
    obtain ⟨x', hexec, hinv, hcopied, -, hwritten, hplayed⟩ := h.txd hroom
    refine ⟨x', hexec, hinv, ?_⟩
    rw [Copies, hcopied, hwritten, hplayed, h.take_written]
    exact hcopies
  | callback freeOut =>
    by_cases hplays : x.i2s.Plays freeOut
    · obtain ⟨x', hexec, hinv, hwritten, hplayed, hcopied, -⟩ := h.plays hplays (hring hplays)
      refine ⟨x', hexec, hinv, ?_⟩
      rw [Copies, hcopied, hwritten, hplayed, List.take_add, hcopies]
    · obtain ⟨x', hexec, hinv, hcopied, -, hwritten, hplayed⟩ := h.silent hplays
      refine ⟨x', hexec, hinv, ?_⟩
      rw [Copies, hcopied, hwritten, hplayed]
      exact hcopies

/-- Nothing is played as long as callbacks are silent. -/
theorem I2sRun.Inv.step_silent (h : x.Inv) (hzero : x.played = 0 ∧ x.codec.sent = []) {op : I2sOp}
    (hroom : op.HasRoom x) (hsilent : op.Silent x) :
    ∃ x', x.exec op = some x' ∧ x'.Inv ∧ x'.played = 0 ∧ x'.codec.sent = [] := by
  cases op with
  | txd spdif value =>
    obtain ⟨x', hexec, hinv, -, hcodec, -, hplayed⟩ := h.txd hroom
    exact ⟨x', hexec, hinv, hplayed.trans hzero.1, hcodec ▸ hzero.2⟩
  | callback freeOut =>
    obtain ⟨x', hexec, hinv, -, hcodec, -, hplayed⟩ := h.silent hsilent
    exact ⟨x', hexec, hinv, hplayed.trans hzero.1, hcodec ▸ hzero.2⟩

/-- A callback that is not silent commits more than it plays. -/
theorem I2sRun.Inv.not_commits (h : x.Inv) (hzero : x.played = 0 ∧ x.codec.sent = []) {op : I2sOp}
    (hloud : ¬op.Silent x) (hexec : x.exec op = some x') : ¬x'.Commits := by
  cases op with
  | txd spdif value => exact absurd trivial hloud
  | callback freeOut =>
    have hplays : x.i2s.Plays freeOut := not_not.mp hloud
    have hring : x.i2s.playPos + blockSize freeOut ≤ audioBufferSize := by
      by_contra hn
      rw [h.faults hplays hn] at hexec
      cases hexec
    obtain ⟨x₁, hexec₁, -, -, hplayed, -, hsent⟩ := h.plays hplays hring
    obtain rfl : x₁ = x' := Option.some.inj (hexec₁.symm.trans hexec)
    intro hcommits
    have hlen := congrArg List.length hcommits
    have hpos := blockSize_pos hplays.1
    rw [hsent, hzero.2, hplayed, hzero.1, List.length_take, List.length_nil] at hlen
    omega

end

/-- Three words through both registers.  The first callback copies two of them, and the second one
    finds less than it is asked for. -/
def threeWords : List I2sOp :=
  [.txd false 0x04030201, .txd true 0x08070605, .callback 2, .txd false 0x0c0b0a09, .callback 2]

end Qemu.Hw
