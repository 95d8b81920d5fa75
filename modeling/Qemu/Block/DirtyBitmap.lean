import Qemu.Block.Bdrv
import Qemu.Lib.Runs
import Mathlib

namespace Qemu.Block

open Lib

/-!
# The dirty bitmap (`set_dirty_bitmap`, `bdrv_get_dirty`)

A device whose writes are tracked has a bit for each chunk of 2048 sectors.

* `setDirtyBitmap`, `bdrvGetDirty` — the words of the bitmap and their bits;
* `TrackAction.exec` — writes, resets and questions; `none` is an access behind the bitmap, or a
  shift that an `int` does not have;
* `setChunks_eq` — the bits after a loop over chunks;
* `dirty_bitmap_iff` — the runs in which all answers are given and right.

An `unsigned long` has 64 bits and an `int` has 32; `1 << 31` is the least `int`.
-/

/-- `BDRV_SECTORS_PER_DIRTY_CHUNK` -/
def sectorsPerDirtyChunk : Int := 2048

/-- A device with its bitmap.  For the record: the chunks with a sector that was written since the
last reset of a part of the chunk. -/
structure Tracking where
  bs : BlockDriverState
  writeCompressed : Bool
  dirtyBitmap : Option (Nat → BitVec 64)
  dirty : Set Int

/-- The size in bytes in `bdrv_set_dirty_tracking`. -/
def bitmapSize (bs : BlockDriverState) : Int :=
  (bs.length.toInt / sectorSize + (sectorsPerDirtyChunk * 8 - 1)).tdiv (sectorsPerDirtyChunk * 8)

/-- `bdrv_set_dirty_tracking` -/
def bdrvSetDirtyTracking (t : Tracking) (enable : Bool) : Tracking :=
  if enable then
    match t.dirtyBitmap with
    | some _ => t
    | none => { t with dirtyBitmap := some fun _ => 0 }
  else { t with dirtyBitmap := none }

/-- A chunk as an `unsigned long`: its word, and its bit in it. -/
def chunkIdx (chunk : Int) : Nat := (chunk % 2 ^ 64).toNat / 64
def chunkBit (chunk : Int) : Nat := (chunk % 2 ^ 64).toNat % 64

/-- `dirty_bitmap[idx]` -/
def bitmapWord (size : Int) (words : Nat → BitVec 64) (idx : Nat) : Option (BitVec 64) :=
  if 8 * (idx + 1) ≤ size then some (words idx) else none

/-- A turn of the loop of `set_dirty_bitmap`. -/
def setChunk (size : Int) (dirty : Bool) (words : Nat → BitVec 64) (chunk : Int) :
    Option (Nat → BitVec 64) := do
  let val ← bitmapWord size words (chunkIdx chunk)
  let one ← cShl (1 : BitVec 32) (chunkBit chunk)
  let val := if dirty then val ||| one.signExtend 64 else val &&& (~~~one).signExtend 64
  pure (Function.update words (chunkIdx chunk) val)

/-- From `start` to `end`. -/
def chunkRange (sectorNum nbSectors : Int) : List Int :=
  let start := sectorNum.tdiv sectorsPerDirtyChunk
  let last := (sectorNum + nbSectors - 1).tdiv sectorsPerDirtyChunk
  (List.range (last + 1 - start).toNat).map fun i : Nat => start + i

/-- `set_dirty_bitmap` -/
def setDirtyBitmap (size : Int) (words : Nat → BitVec 64) (sectorNum nbSectors : Int)
    (dirty : Bool) : Option (Nat → BitVec 64) :=
  (chunkRange sectorNum nbSectors).foldlM (setChunk size dirty) words

/-- The chunks of a range of sectors. -/
def chunksOf (sectorNum nbSectors : Int) : Set Int :=
  (fun sector => sector / sectorsPerDirtyChunk) '' Set.Ico sectorNum (sectorNum + nbSectors)

/-- The request gets to the driver. -/
def accepted (bs : BlockDriverState) (refused : Bool) (sectorNum nbSectors : Int) : Bool :=
  bs.drv && !refused &&
    (bdrvCheckRequest bs (BitVec.ofInt 64 sectorNum) (BitVec.ofInt 32 nbSectors)).isOk

/-- The part of a write that is about the bitmap. -/
def markWrite (t : Tracking) (refused : Bool) (sectorNum nbSectors : Int) : Option Tracking :=
  if accepted t.bs refused sectorNum nbSectors then
    let t := { t with dirty := t.dirty ∪ chunksOf sectorNum nbSectors }
    match t.dirtyBitmap with
    | none => some t
    | some words =>
      (setDirtyBitmap (bitmapSize t.bs) words sectorNum nbSectors true).map fun words =>
        { t with dirtyBitmap := some words }
  else some t

/-- What `bdrv_write` does to the bitmap. -/
def markBdrvWrite (t : Tracking) : Int → Int → Option Tracking := markWrite t t.bs.readOnly

/-- What `bdrv_aio_writev` does to it. -/
def markBdrvAioWritev (t : Tracking) : Int → Int → Option Tracking := markWrite t t.bs.readOnly

/-- There is no look at `read_only`, but the driver must have the function. -/
def markBdrvWriteCompressed (t : Tracking) : Int → Int → Option Tracking :=
  markWrite t (!t.writeCompressed)

/-- `bdrv_reset_dirty` -/
def bdrvResetDirty (t : Tracking) (curSector nrSectors : Int) : Option Tracking :=
  t.dirtyBitmap.bind fun words =>
    (setDirtyBitmap (bitmapSize t.bs) words curSector nrSectors false).map fun words =>
      { t with dirtyBitmap := some words, dirty := t.dirty \ chunksOf curSector nrSectors }

/-- The value is cut to an `int`. -/
def bdrvGetDirty (t : Tracking) (sector : Int) : Option (BitVec 32) :=
  let chunk := sector.tdiv sectorsPerDirtyChunk
  match t.dirtyBitmap with
  | none => some 0
  | some words =>
    if sector * sectorSize < t.bs.length.toInt then do
      let val ← bitmapWord (bitmapSize t.bs) words (chunkIdx chunk)
      let one ← cShl (1 : BitVec 32) (chunkBit chunk)
      pure ((val &&& one.signExtend 64).setWidth 32)
    else some 0

/-! ### Runs -/

/-- A call that writes, or that looks after the bitmap. -/
inductive TrackAction
  | write (sectorNum nbSectors : Int)
  | aioWritev (sectorNum nbSectors : Int)
  | writeCompressed (sectorNum nbSectors : Int)
  | reset (sectorNum nbSectors : Int)
  | get (sector : Int)

/-- One call, if it does not fault. -/
def TrackAction.exec (t : Tracking) : TrackAction → Option Tracking
  | .write sectorNum nbSectors => markBdrvWrite t sectorNum nbSectors
  | .aioWritev sectorNum nbSectors => markBdrvAioWritev t sectorNum nbSectors
  | .writeCompressed sectorNum nbSectors => markBdrvWriteCompressed t sectorNum nbSectors
  | .reset sectorNum nbSectors => bdrvResetDirty t sectorNum nbSectors
  | .get sector => (bdrvGetDirty t sector).map fun _ => t

/-- Tracking is switched on. -/
def Tracking.start (bs : BlockDriverState) (writeCompressed : Bool) : Tracking :=
  bdrvSetDirtyTracking ⟨bs, writeCompressed, none, ∅⟩ true

/-- The range, or the sector, is in the device. -/
def TrackAction.Within (length : Int) : TrackAction → Prop
  | .write sectorNum nbSectors | .aioWritev sectorNum nbSectors
  | .writeCompressed sectorNum nbSectors | .reset sectorNum nbSectors =>
    RangeFits length sectorNum nbSectors ∧ nbSectors < 2 ^ 31
  | .get sector => 0 ≤ sector ∧ sector * sectorSize < length

instance (length : Int) : ∀ a : TrackAction, Decidable (a.Within length)
  | .write _ _ | .aioWritev _ _ | .writeCompressed _ _ | .reset _ _ | .get _ =>
    inferInstanceAs (Decidable (_ ∧ _))

/-- An answer that is given is right. -/
def Tracking.Right (t : Tracking) : Prop :=
  ∀ sector, 0 ≤ sector → sector * sectorSize < t.bs.length.toInt →
    ∀ value, bdrvGetDirty t sector = some value →
      (value ≠ 0 ↔ sector / sectorsPerDirtyChunk ∈ t.dirty)

/-- The word is in the bitmap, and the shift is one of an `int`. -/
def ChunkOk (size chunk : Int) : Prop :=
  8 * ((chunkIdx chunk : Int) + 1) ≤ size ∧ chunkBit chunk < 32

instance (size chunk : Int) : Decidable (ChunkOk size chunk) := inferInstanceAs (Decidable (_ ∧ _))

/-- The bit of a chunk is set. -/
def hasBit (words : Nat → BitVec 64) (chunk : Int) : Bool :=
  (words (chunkIdx chunk)).getLsbD (chunkBit chunk)

/-- The chunks of the loop are in order; without a sector nothing is left to change. -/
def RangeFine (t : Tracking) (dirty : Bool) (sectorNum nbSectors : Int) : Prop :=
  ∀ words ∈ t.dirtyBitmap, ∀ chunk ∈ chunkRange sectorNum nbSectors,
    ChunkOk (bitmapSize t.bs) chunk ∧ (nbSectors = 0 → hasBit words chunk = dirty)

instance (t : Tracking) (dirty : Bool) (sectorNum nbSectors : Int) :
    Decidable (RangeFine t dirty sectorNum nbSectors) := by
  unfold RangeFine
  infer_instance

/-- The condition of one call. -/
def TrackAction.Fine (t : Tracking) : TrackAction → Prop
  | .write sectorNum nbSectors | .aioWritev sectorNum nbSectors =>
    accepted t.bs t.bs.readOnly sectorNum nbSectors → RangeFine t true sectorNum nbSectors
  | .writeCompressed sectorNum nbSectors =>
    accepted t.bs (!t.writeCompressed) sectorNum nbSectors → RangeFine t true sectorNum nbSectors
  | .reset sectorNum nbSectors => RangeFine t false sectorNum nbSectors
  | .get sector => ChunkOk (bitmapSize t.bs) (sector / sectorsPerDirtyChunk)

instance (t : Tracking) : ∀ a : TrackAction, Decidable (a.Fine t)
  | .write _ _ | .aioWritev _ _ | .writeCompressed _ _ => inferInstanceAs (Decidable (_ → _))
  | .reset _ _ => inferInstanceAs (Decidable (RangeFine ..))
  | .get _ => inferInstanceAs (Decidable (ChunkOk ..))

section

variable {size : Int} {words : Nat → BitVec 64} {chunk c : Int} {dirty : Bool} {t : Tracking}
  {sectorNum nbSectors sector : Int}

/-! ### Bits -/

variable {bit : Nat}

theorem getLsbD_one_shift {i : Nat} (hi : i < 32) :
    ((1 : BitVec 32) <<< bit).getLsbD i = decide (i = bit) := by
  have hone : (1 : BitVec 32) = BitVec.twoPow 32 0 := rfl
  rw [BitVec.getLsbD_shiftLeft, hone, BitVec.getLsbD_twoPow, decide_eq_true hi]
  by_cases h : i < bit
  · have hne : i ≠ bit := by omega
    simp [h, hne]
  · have hiff : (0 = i - bit) = (i = bit) := by
      apply propext
      omega
    simp [h, hiff]

theorem cShl_one (hbit : bit < 32) :
    cShl (1 : BitVec 32) (bit : Int) = some ((1 : BitVec 32) <<< bit) := by
  rw [cShl, if_pos ⟨Int.natCast_nonneg _, by omega⟩, Int.toNat_natCast]

theorem chunk_eq (hc : 0 ≤ c) (hc' : c < 2 ^ 63) (hchunk : 0 ≤ chunk) (hchunk' : chunk < 2 ^ 63)
    (hidx : chunkIdx c = chunkIdx chunk) (hbit : chunkBit c = chunkBit chunk) : c = chunk := by
  unfold chunkIdx at hidx
  unfold chunkBit at hbit
  omega

/-- **A chunk is marked, or its mark is taken off**, and the other chunks in order are as they
were. -/
theorem setChunk_eq (words : Nat → BitVec 64) (dirty : Bool) (hok : ChunkOk size chunk)
    (hchunk : 0 ≤ chunk) (hchunk' : chunk < 2 ^ 63) :
    ∃ words', setChunk size dirty words chunk = some words' ∧
      ∀ c, 0 ≤ c → c < 2 ^ 63 → ChunkOk size c →
        hasBit words' c = if c = chunk then dirty else hasBit words c := by
  obtain ⟨hword, hbit⟩ := hok
  unfold setChunk bitmapWord
  rw [if_pos hword, cShl_one hbit]
  refine ⟨_, rfl, fun c hc hc' hcok => ?_⟩
  have hcbit := hcok.2
  have hone : ((1 : BitVec 32) <<< chunkBit chunk).getLsbD (chunkBit c) =
      decide (chunkBit c = chunkBit chunk) := getLsbD_one_shift hcbit
  unfold hasBit
  generalize (1 : BitVec 32) <<< chunkBit chunk = one at hone ⊢
  have hmask : (one.signExtend 64).getLsbD (chunkBit c) = decide (chunkBit c = chunkBit chunk) := by
    rw [BitVec.getLsbD_signExtend, if_pos hcbit, hone]
    simp
    omega
  have hnot : ((~~~one).signExtend 64).getLsbD (chunkBit c) =
      !decide (chunkBit c = chunkBit chunk) := by
    rw [BitVec.getLsbD_signExtend, if_pos hcbit, BitVec.getLsbD_not, hone]
    simp [hcbit]
    omega
  by_cases hidx : chunkIdx c = chunkIdx chunk
  · rw [hidx, Function.update_self]
    by_cases hsame : c = chunk
    · subst hsame
      cases dirty with
      | true =>
        rw [if_pos rfl, if_pos rfl, BitVec.getLsbD_or, hmask]
        simp
      | false =>
        rw [if_neg Bool.false_ne_true, if_pos rfl, BitVec.getLsbD_and, hnot]
        simp
    -- the bits above 31 are changed too, and belong to no chunk in order
    · have hne : chunkBit c ≠ chunkBit chunk := fun heq =>
        hsame (chunk_eq hc hc' hchunk hchunk' hidx heq)
      rw [if_neg hsame]
      cases dirty with
      | true =>
        rw [if_pos rfl, BitVec.getLsbD_or, hmask]
        simp [hne]
      | false =>
        rw [if_neg Bool.false_ne_true, BitVec.getLsbD_and, hnot]
        simp [hne]
  · have hsame : c ≠ chunk := fun heq => hidx (heq ▸ rfl)
    rw [Function.update_of_ne hidx, if_neg hsame]

theorem setChunk_eq_none (hok : ¬ChunkOk size chunk) : setChunk size dirty words chunk = none := by
  unfold setChunk bitmapWord
  by_cases hword : 8 * ((chunkIdx chunk : Int) + 1) ≤ size
  · have hbit : ¬chunkBit chunk < 32 := fun hbit => hok ⟨hword, hbit⟩
    rw [if_pos hword, cShl_ge (by omega)]
    rfl
  · rw [if_neg hword]
    rfl

/-- **The loop over chunks.** -/
theorem setChunks_eq (words : Nat → BitVec 64) (dirty : Bool) {chunks : List Int}
    (hok : ∀ c ∈ chunks, ChunkOk size c)
    (hrange : ∀ c ∈ chunks, 0 ≤ c ∧ c < 2 ^ 63) :
    ∃ words', chunks.foldlM (setChunk size dirty) words = some words' ∧
      ∀ c, 0 ≤ c → c < 2 ^ 63 → ChunkOk size c →
        hasBit words' c = if c ∈ chunks then dirty else hasBit words c := by
  induction chunks generalizing words with
  | nil => exact ⟨words, rfl, by simp⟩
  | cons chunk chunks ih =>
    obtain ⟨hfirst, hrest⟩ := List.forall_mem_cons.mp hok
    obtain ⟨hrfirst, hrrest⟩ := List.forall_mem_cons.mp hrange
    obtain ⟨words₁, hset, hbits₁⟩ := setChunk_eq words dirty hfirst hrfirst.1 hrfirst.2
    obtain ⟨words', hfold, hbits⟩ := ih words₁ hrest hrrest
    refine ⟨words', ?_, fun c hc hc' hcok => ?_⟩
    · rw [List.foldlM_cons, hset]
      exact hfold
    · rw [hbits c hc hc' hcok, hbits₁ c hc hc' hcok]
      by_cases hmem : c ∈ chunks
      · simp [hmem]
      · simp [hmem]

/-- The loop faults at a chunk that has no word, or whose shift is undefined. -/
theorem setChunks_eq_none {chunks : List Int} (hrange : ∀ c ∈ chunks, 0 ≤ c ∧ c < 2 ^ 63)
    (hok : ¬∀ c ∈ chunks, ChunkOk size c) : chunks.foldlM (setChunk size dirty) words = none := by
  induction chunks generalizing words with
  | nil => exact absurd (List.forall_mem_nil _) hok
  | cons chunk chunks ih =>
    obtain ⟨hrfirst, hrrest⟩ := List.forall_mem_cons.mp hrange
    rw [List.foldlM_cons]
    by_cases hfirst : ChunkOk size chunk
    · obtain ⟨words₁, hset, -⟩ := setChunk_eq words dirty hfirst hrfirst.1 hrfirst.2
      rw [hset]
      exact ih hrrest fun hrest => hok (List.forall_mem_cons.mpr ⟨hfirst, hrest⟩)
    · rw [setChunk_eq_none hfirst]
      rfl

/-! ### Chunks of a range -/

/-- The chunks of a range of sectors. -/
theorem mem_chunkRange (hsector : 0 ≤ sectorNum) :
    c ∈ chunkRange sectorNum nbSectors ↔
      sectorNum / 2048 ≤ c ∧ c ≤ (sectorNum + nbSectors - 1).tdiv 2048 := by
  have hstart : sectorNum.tdiv sectorsPerDirtyChunk = sectorNum / 2048 :=
    Int.tdiv_eq_ediv_of_nonneg hsector
  unfold chunkRange
  dsimp only
  rw [hstart]
  simp only [List.mem_map, List.mem_range, sectorsPerDirtyChunk]
  constructor
  · rintro ⟨i, hi, rfl⟩
    omega
  · rintro ⟨hle, hle'⟩
    exact ⟨(c - sectorNum / 2048).toNat, by omega, by omega⟩

/-- With sectors, the loop goes over their chunks. -/
theorem mem_chunkRange_iff (hsector : 0 ≤ sectorNum) (hnb : 0 < nbSectors) :
    c ∈ chunkRange sectorNum nbSectors ↔ c ∈ chunksOf sectorNum nbSectors := by
  have hlast : (sectorNum + nbSectors - 1).tdiv 2048 = (sectorNum + nbSectors - 1) / 2048 :=
    Int.tdiv_eq_ediv_of_nonneg (by omega)
  rw [mem_chunkRange hsector, hlast, chunksOf]
  simp only [Set.mem_image, Set.mem_Ico, sectorsPerDirtyChunk]
  constructor
  · rintro ⟨hle, hle'⟩
    -- the first sector of the range that is in the chunk
    exact ⟨max sectorNum (c * 2048), by omega, by omega⟩
  · rintro ⟨sector, ⟨hle, hlt⟩, rfl⟩
    omega

/-- Without a sector it goes over the chunk in whose middle the range is, and over the first. -/
theorem mem_chunkRange_zero (hsector : 0 ≤ sectorNum) :
    c ∈ chunkRange sectorNum 0 ↔ c = sectorNum / 2048 ∧ (sectorNum = 0 ∨ sectorNum % 2048 ≠ 0) := by
  rw [mem_chunkRange hsector]
  rcases eq_or_lt_of_le hsector with rfl | hpos
  · have hlast : ((0 : Int) + 0 - 1).tdiv 2048 = 0 := by decide
    rw [hlast]
    omega
  · have hlast : (sectorNum + 0 - 1).tdiv 2048 = (sectorNum + 0 - 1) / 2048 :=
      Int.tdiv_eq_ediv_of_nonneg (by omega)
    rw [hlast]
    omega

theorem chunksOf_zero : chunksOf sectorNum 0 = ∅ := by
  simp [chunksOf]

/-- The chunks of a range that fits are numbers of `int64_t`. -/
theorem chunkRange_bounds {length : Int} (hfits : RangeFits length sectorNum nbSectors)
    (hlen : length < 2 ^ 63) (hc : c ∈ chunkRange sectorNum nbSectors) : 0 ≤ c ∧ c < 2 ^ 63 := by
  obtain ⟨hnb, hsector, hend⟩ := hfits
  obtain ⟨hle, hle'⟩ := (mem_chunkRange hsector).mp hc
  have hlast : (sectorNum + nbSectors - 1).tdiv 2048 ≤ sectorNum + nbSectors := by
    rcases Int.lt_or_le (sectorNum + nbSectors) 1 with hzero | hpos
    · obtain ⟨rfl, rfl⟩ : sectorNum = 0 ∧ nbSectors = 0 := by omega
      decide
    · rw [Int.tdiv_eq_ediv_of_nonneg (by omega)]
      omega
  omega

/-! ### Answers -/

/-- The bits of the chunks in order are those of a set. -/
def BitsOf (size : Int) (words : Nat → BitVec 64) (dirty : Set Int) : Prop :=
  ∀ c, 0 ≤ c → c < 2 ^ 63 → ChunkOk size c → (hasBit words c = true ↔ c ∈ dirty)

/-- A test of a bit whose result is cut to an `int`. -/
theorem cut_mask_ne_zero {val : BitVec 64} (hbit : bit < 32) :
    (val &&& ((1 : BitVec 32) <<< bit).signExtend 64).setWidth 32 ≠ 0 ↔ val.getLsbD bit = true := by
  have hone : ∀ i < 32, ((1 : BitVec 32) <<< bit).getLsbD i = decide (i = bit) := fun i hi =>
    getLsbD_one_shift hi
  generalize (1 : BitVec 32) <<< bit = one at hone ⊢
  have hbits : ∀ i < 32, ((val &&& one.signExtend 64).setWidth 32).getLsbD i =
      (val.getLsbD i && decide (i = bit)) := by
    intro i hi
    have hi' : i < 64 := by omega
    rw [BitVec.getLsbD_setWidth, BitVec.getLsbD_and, BitVec.getLsbD_signExtend, if_pos hi,
      hone i hi]
    simp [hi, hi']
  rw [ne_eq, not_iff_comm, Bool.not_eq_true]
  constructor
  · intro hclear
    refine BitVec.eq_of_getLsbD_eq fun i hi => ?_
    rw [hbits i hi]
    by_cases h : i = bit
    · simp [h, hclear]
    · simp [h]
  · intro hzero
    have hat := hbits bit hbit
    rw [hzero] at hat
    simpa using hat.symm

/-- **An answer** is given if the chunk is in order, and is the bit. -/
theorem bdrvGetDirty_eq (hwords : t.dirtyBitmap = some words) (hsector : 0 ≤ sector)
    (hin : sector * sectorSize < t.bs.length.toInt)
    (hok : ChunkOk (bitmapSize t.bs) (sector / sectorsPerDirtyChunk)) :
    ∃ value, bdrvGetDirty t sector = some value ∧
      (value ≠ 0 ↔ hasBit words (sector / sectorsPerDirtyChunk) = true) := by
  have hchunk : sector.tdiv sectorsPerDirtyChunk = sector / sectorsPerDirtyChunk :=
    Int.tdiv_eq_ediv_of_nonneg hsector
  unfold bdrvGetDirty bitmapWord
  simp only [hwords, hchunk, if_pos hin, if_pos hok.1, cShl_one hok.2]
  exact ⟨_, rfl, cut_mask_ne_zero hok.2⟩

/-- `bdrv_get_dirty` faults for such a chunk too. -/
theorem bdrvGetDirty_eq_none (hwords : t.dirtyBitmap = some words) (hsector : 0 ≤ sector)
    (hin : sector * sectorSize < t.bs.length.toInt)
    (hok : ¬ChunkOk (bitmapSize t.bs) (sector / sectorsPerDirtyChunk)) :
    bdrvGetDirty t sector = none := by
  have hchunk : sector.tdiv sectorsPerDirtyChunk = sector / sectorsPerDirtyChunk :=
    Int.tdiv_eq_ediv_of_nonneg hsector
  unfold bdrvGetDirty bitmapWord
  simp only [hwords, hchunk, if_pos hin]
  generalize sector / sectorsPerDirtyChunk = chunk at hok
  by_cases hword : 8 * ((chunkIdx chunk : Int) + 1) ≤ bitmapSize t.bs
  · have hbit : ¬chunkBit chunk < 32 := fun hbit => hok ⟨hword, hbit⟩
    rw [if_pos hword, cShl_ge (by omega)]
    rfl
  · rw [if_neg hword]
    rfl

/-- What is kept: the bits are the record. -/
structure TrackInv (bs : BlockDriverState) (t : Tracking) : Prop where
  bs_eq : t.bs = bs
  bits : ∃ words, t.dirtyBitmap = some words ∧ BitsOf (bitmapSize bs) words t.dirty

variable {bs : BlockDriverState}

/-- The bitmap has the chunks that were written since they were reset. -/
theorem TrackInv.right (h : TrackInv bs t) : t.Right := by
  intro sector hsector hin value hvalue
  have hlen : t.bs.length.toInt < 2 ^ 63 := BitVec.toInt_lt
  obtain ⟨words, hwords, hbits⟩ := h.bits
  by_cases hok : ChunkOk (bitmapSize t.bs) (sector / sectorsPerDirtyChunk)
  · obtain ⟨value', hvalue', hne⟩ := bdrvGetDirty_eq hwords hsector hin hok
    obtain rfl : value = value' := Option.some.inj (hvalue.symm.trans hvalue')
    have hrange : 0 ≤ sector / sectorsPerDirtyChunk ∧ sector / sectorsPerDirtyChunk < 2 ^ 63 := by
      unfold sectorsPerDirtyChunk
      unfold sectorSize at hin
      omega
    rw [h.bs_eq] at hok
    exact hne.trans (hbits _ hrange.1 hrange.2 hok)
  · rw [bdrvGetDirty_eq_none hwords hsector hin hok] at hvalue
    cases hvalue

/-! ### A range is marked, or its marks are taken off -/

/-- The record after that. -/
def marked (dirty : Bool) (chunks : Set Int) (sectorNum nbSectors : Int) : Set Int :=
  if dirty then chunks ∪ chunksOf sectorNum nbSectors else chunks \ chunksOf sectorNum nbSectors

variable {chunks : Set Int}

theorem marked_zero : marked dirty chunks sectorNum 0 = chunks := by
  unfold marked
  rw [chunksOf_zero]
  split_ifs <;> simp

/-- A range that is fine marks its chunks. -/
theorem setDirtyBitmap_keeps {length : Int} {chunks : Set Int} (hbits : BitsOf size words chunks)
    (hfits : RangeFits length sectorNum nbSectors) (hlen : length < 2 ^ 63)
    (hfine : ∀ chunk ∈ chunkRange sectorNum nbSectors,
      ChunkOk size chunk ∧ (nbSectors = 0 → hasBit words chunk = dirty)) :
    ∃ words', setDirtyBitmap size words sectorNum nbSectors dirty = some words' ∧
      BitsOf size words' (marked dirty chunks sectorNum nbSectors) := by
  obtain ⟨words', hset, hbits'⟩ := setChunks_eq words dirty
    (fun c hc => (hfine c hc).1) (fun c hc => chunkRange_bounds hfits hlen hc)
  refine ⟨words', hset, fun c hc hc' hok => ?_⟩
  have hold := hbits c hc hc' hok
  rw [hbits' c hc hc' hok]
  rcases eq_or_lt_of_le hfits.1 with rfl | hpos
  -- what the loop writes without a sector is there already
  · rw [marked_zero, ← hold]
    split_ifs with hmem
    · rw [(hfine c hmem).2 rfl]
    · rfl
  · have hmem := mem_chunkRange_iff (c := c) hfits.2.1 hpos
    unfold marked
    cases dirty with
    | true => simp [hmem, hold, or_comm]
    | false => simp [hmem, hold, and_comm]

/-- A loop that is not fine leaves the bitmap, or answers for a sector of the device wrongly. -/
theorem setDirtyBitmap_breaks {bs : BlockDriverState} {words' : Nat → BitVec 64} {chunks : Set Int}
    (hbits : BitsOf (bitmapSize bs) words chunks)
    (hfits : RangeFits bs.length.toInt sectorNum nbSectors)
    (hbad : ¬∀ chunk ∈ chunkRange sectorNum nbSectors,
      ChunkOk (bitmapSize bs) chunk ∧ (nbSectors = 0 → hasBit words chunk = dirty))
    (hset : setDirtyBitmap (bitmapSize bs) words sectorNum nbSectors dirty = some words') :
    ∃ sector, 0 ≤ sector ∧ sector * sectorSize < bs.length.toInt ∧
      ChunkOk (bitmapSize bs) (sector / sectorsPerDirtyChunk) ∧
      ¬(hasBit words' (sector / sectorsPerDirtyChunk) = true ↔
        sector / sectorsPerDirtyChunk ∈ marked dirty chunks sectorNum nbSectors) := by
  have hlen : bs.length.toInt < 2 ^ 63 := BitVec.toInt_lt
  have hrange : ∀ c ∈ chunkRange sectorNum nbSectors, 0 ≤ c ∧ c < 2 ^ 63 := fun c hc =>
    chunkRange_bounds hfits hlen hc
  have hall : ∀ c ∈ chunkRange sectorNum nbSectors, ChunkOk (bitmapSize bs) c := by
    by_contra hsome
    rw [setDirtyBitmap, setChunks_eq_none hrange hsome] at hset
    cases hset
  push Not at hbad
  obtain ⟨c, hc, hbad⟩ := hbad
  obtain ⟨rfl, hdiff⟩ := hbad (hall c hc)
  obtain ⟨words₁, hset₁, hbits'⟩ := setChunks_eq words dirty hall hrange
  obtain rfl : words₁ = words' := Option.some.inj (hset₁.symm.trans hset)
  obtain ⟨hnb, hsector, hend⟩ := hfits
  obtain ⟨rfl, hmiddle⟩ := (mem_chunkRange_zero hsector).mp hc
  have hok := hall _ hc
  -- a sector of the chunk that is in the device
  obtain ⟨x, hx, hin, hchunk⟩ : ∃ x, 0 ≤ x ∧ x * sectorSize < bs.length.toInt ∧
      x / sectorsPerDirtyChunk = sectorNum / 2048 := by
    have hsize : (sectorSize : Int) = 512 := rfl
    rw [hsize]
    unfold sectorsPerDirtyChunk
    rcases hmiddle with rfl | hmiddle
    · refine ⟨0, le_rfl, ?_, rfl⟩
      by_contra hempty
      have hword := hok.1
      have hsmall : bitmapSize bs ≤ 0 := by
        unfold bitmapSize sectorsPerDirtyChunk
        rw [hsize]
        have hzero : bs.length.toInt / 512 = 0 := by omega
        rw [hzero]
        decide
      omega
    · exact ⟨sectorNum - 1, by omega, by omega, by omega⟩
  refine ⟨x, hx, hin, hchunk ▸ hok, ?_⟩
  obtain ⟨hc0, hc1⟩ := hrange _ hc
  rw [hchunk, marked_zero, hbits' _ hc0 hc1 hok, if_pos hc, ← hbits _ hc0 hc1 hok]
  revert hdiff
  cases hasBit words (sectorNum / 2048) <;> cases dirty <;> simp

/-- A write that is fine keeps the invariant. -/
theorem TrackInv.write (h : TrackInv bs t) (refused : Bool)
    (hfits : RangeFits bs.length.toInt sectorNum nbSectors)
    (hfine : accepted t.bs refused sectorNum nbSectors → RangeFine t true sectorNum nbSectors) :
    ∃ t', markWrite t refused sectorNum nbSectors = some t' ∧ TrackInv bs t' := by
  obtain ⟨rfl, words, hwords, hbits⟩ := h
  unfold markWrite
  by_cases haccepted : accepted t.bs refused sectorNum nbSectors = true
  · obtain ⟨words', hset, hbits'⟩ := setDirtyBitmap_keeps hbits hfits BitVec.toInt_lt
      (hfine haccepted words hwords)
    simp only [if_pos haccepted, hwords, hset]
    exact ⟨_, rfl, rfl, words', rfl, hbits'⟩
  · rw [if_neg haccepted]
    exact ⟨t, rfl, rfl, words, hwords, hbits⟩

theorem TrackInv.reset (h : TrackInv bs t) (hfits : RangeFits bs.length.toInt sectorNum nbSectors)
    (hfine : RangeFine t false sectorNum nbSectors) :
    ∃ t', bdrvResetDirty t sectorNum nbSectors = some t' ∧ TrackInv bs t' := by
  obtain ⟨rfl, words, hwords, hbits⟩ := h
  obtain ⟨words', hset, hbits'⟩ := setDirtyBitmap_keeps hbits hfits BitVec.toInt_lt
    (hfine words hwords)
  unfold bdrvResetDirty
  rw [hwords, Option.bind_some, hset]
  exact ⟨_, rfl, rfl, words', rfl, hbits'⟩

/-- **What an action keeps** that meets the condition. -/
theorem TrackAction.exec_keeps (h : TrackInv bs t) {a : TrackAction}
    (hwithin : a.Within bs.length.toInt) (hfine : a.Fine t) :
    ∃ t', a.exec t = some t' ∧ TrackInv bs t' := by
  cases a with
  | write sectorNum nbSectors => exact h.write _ hwithin.1 hfine
  | aioWritev sectorNum nbSectors => exact h.write _ hwithin.1 hfine
  | writeCompressed sectorNum nbSectors => exact h.write _ hwithin.1 hfine
  | reset sectorNum nbSectors => exact h.reset hwithin.1 hfine
  | get sector =>
    obtain ⟨words, hwords, -⟩ := h.bits
    have hin := hwithin.2
    rw [← h.bs_eq] at hin
    obtain ⟨value, hvalue, -⟩ := bdrvGetDirty_eq hwords hwithin.1 hin hfine
    exact ⟨t, by rw [TrackAction.exec, hvalue]; rfl, h⟩

/-- A sector whose answer is not the record. -/
theorem not_right {bs : BlockDriverState} (hbs : t.bs = bs) (hwords : t.dirtyBitmap = some words)
    (h : ∃ sector, 0 ≤ sector ∧ sector * sectorSize < bs.length.toInt ∧
      ChunkOk (bitmapSize bs) (sector / sectorsPerDirtyChunk) ∧
      ¬(hasBit words (sector / sectorsPerDirtyChunk) = true ↔
        sector / sectorsPerDirtyChunk ∈ t.dirty)) : ¬t.Right := by
  subst hbs
  obtain ⟨sector, hsector, hin, hok, hwrong⟩ := h
  intro hright
  obtain ⟨value, hvalue, hne⟩ := bdrvGetDirty_eq hwords hsector hin hok
  exact hwrong (hne.symm.trans (hright sector hsector hin value hvalue))

variable {t' : Tracking}

/-- A write that is not fine, and does not fault, leaves a wrong bitmap. -/
theorem TrackInv.write_breaks (h : TrackInv bs t) {refused : Bool}
    (hfits : RangeFits bs.length.toInt sectorNum nbSectors)
    (hbad : ¬(accepted t.bs refused sectorNum nbSectors → RangeFine t true sectorNum nbSectors))
    (hexec : markWrite t refused sectorNum nbSectors = some t') : ¬t'.Right := by
  obtain ⟨rfl, words, hwords, hbits⟩ := h
  obtain ⟨haccepted, hbad⟩ := Classical.not_imp.mp hbad
  have hloop : ¬∀ chunk ∈ chunkRange sectorNum nbSectors,
      ChunkOk (bitmapSize t.bs) chunk ∧ (nbSectors = 0 → hasBit words chunk = true) := by
    intro hall
    refine hbad fun words₁ hwords₁ => ?_
    obtain rfl := Option.some.inj (hwords.symm.trans hwords₁)
    exact hall
  unfold markWrite at hexec
  simp only [if_pos haccepted, hwords] at hexec
  obtain ⟨words', hset, rfl⟩ := Option.map_eq_some_iff.mp hexec
  exact not_right rfl rfl (setDirtyBitmap_breaks hbits hfits hloop hset)

/-- So does a reset. -/
theorem TrackInv.reset_breaks (h : TrackInv bs t)
    (hfits : RangeFits bs.length.toInt sectorNum nbSectors)
    (hbad : ¬RangeFine t false sectorNum nbSectors)
    (hexec : bdrvResetDirty t sectorNum nbSectors = some t') : ¬t'.Right := by
  obtain ⟨rfl, words, hwords, hbits⟩ := h
  have hloop : ¬∀ chunk ∈ chunkRange sectorNum nbSectors,
      ChunkOk (bitmapSize t.bs) chunk ∧ (nbSectors = 0 → hasBit words chunk = false) := by
    intro hall
    refine hbad fun words₁ hwords₁ => ?_
    obtain rfl := Option.some.inj (hwords.symm.trans hwords₁)
    exact hall
  unfold bdrvResetDirty at hexec
  rw [hwords, Option.bind_some] at hexec
  obtain ⟨words', hset, rfl⟩ := Option.map_eq_some_iff.mp hexec
  exact not_right rfl rfl (setDirtyBitmap_breaks hbits hfits hloop hset)

/-- **An action that does not meet the condition** leaves the bitmap, or makes an answer wrong. -/
theorem TrackAction.exec_breaks (h : TrackInv bs t) {a : TrackAction}
    (hwithin : a.Within bs.length.toInt) (hbad : ¬a.Fine t) (hexec : a.exec t = some t') :
    ¬t'.Right := by
  cases a with
  | write sectorNum nbSectors => exact h.write_breaks hwithin.1 hbad hexec
  | aioWritev sectorNum nbSectors => exact h.write_breaks hwithin.1 hbad hexec
  | writeCompressed sectorNum nbSectors => exact h.write_breaks hwithin.1 hbad hexec
  | reset sectorNum nbSectors => exact h.reset_breaks hwithin.1 hbad hexec
  | get sector =>
    obtain ⟨words, hwords, -⟩ := h.bits
    have hin := hwithin.2
    rw [← h.bs_eq] at hin
    rw [TrackAction.exec, bdrvGetDirty_eq_none hwords hwithin.1 hin hbad] at hexec
    cases hexec

theorem TrackInv.start (bs : BlockDriverState) (writeCompressed : Bool) :
    TrackInv bs (.start bs writeCompressed) where
  bs_eq := rfl
  bits := ⟨fun _ => 0, rfl, fun c _ _ _ => by simp [hasBit, Tracking.start, bdrvSetDirtyTracking]⟩

/-- **Every answer is given and right** in a run, if and only if each of its actions meets the
condition. -/
theorem dirty_bitmap_iff (bs : BlockDriverState) (writeCompressed : Bool) {as : List TrackAction}
    (hwithin : ∀ a ∈ as, a.Within bs.length.toInt) :
    (∃ t, runFrom TrackAction.exec (.start bs writeCompressed) as = some t ∧
      ∀ n t', runFrom TrackAction.exec (.start bs writeCompressed) (as.take n) = some t' →
        t'.Right) ↔
    StepsMeet TrackAction.exec TrackAction.Fine (.start bs writeCompressed) as :=
  runFrom_total_iff_of (fun _ h => TrackInv.right h)
    (fun _ _ h hwithin hfine => TrackAction.exec_keeps h hwithin hfine)
    (fun _ _ _ h hwithin hbad hexec => TrackAction.exec_breaks h hwithin hbad hexec)
    (TrackInv.start bs writeCompressed) (StepsMeet.of_mem _ hwithin)

end

/-- A device of 128 MiB, whose bitmap has two words. -/
def twoWords : BlockDriverState where
  drv := true
  readOnly := false
  growable := false
  inserted := true
  length := 0x8000000
  disk := fun _ => 0

/-- Two chunks, in two words. -/
theorem dirty_bitmap_two_words :
    let as : List TrackAction :=
      [.write 0 8, .get 5, .reset 0 8, .get 5, .aioWritev 131072 1, .get 131073]
    ∃ t, runFrom TrackAction.exec (.start twoWords false) as = some t ∧
      ∀ n t', runFrom TrackAction.exec (.start twoWords false) (as.take n) = some t' → t'.Right :=
  (dirty_bitmap_iff twoWords false (by decide)).mpr (by decide)

/-- Chunk 32 has no bit in an `int`, and the bitmap of a small device is shorter than a word. -/
theorem dirty_bitmap_lost :
    ((TrackAction.write 65536 1).Within twoWords.length.toInt ∧
      ¬∃ t, runFrom TrackAction.exec (.start twoWords false) [.write 65536 1] = some t) ∧
    (TrackAction.write 0 1).Within oneSectorDrive.length.toInt ∧
      ¬∃ t, runFrom TrackAction.exec (.start oneSectorDrive false) [.write 0 1] = some t := by
  refine ⟨⟨by decide, ?_⟩, by decide, ?_⟩
  · rintro ⟨t, ht⟩
    cases ht
  · rintro ⟨t, ht⟩
    cases ht

end Qemu.Block
