import Qemu.Lib.Bytes
import Qemu.Lib.CInt

namespace Qemu.Block

open Lib

/-!
# Requests of sectors (`block.c`)

* `bdrvCheckByteRequest`, `bdrvCheckRequest` — the check that all requests go through;
* `bdrvRead`, `bdrvWrite` — sectors of a device;
* `bdrv_check_request_iff` — the check is right for all requests but those of four kinds, whose
  products wrap.

An `int` has 32 bits, an `int64_t` and a `size_t` have 64.
-/

/-- The errors that are returned. -/
inductive BdrvError
  | enomedium | eacces | eio
deriving DecidableEq, Repr

/-- A device with its bytes.  The driver answers `inserted` and `length`. -/
structure BlockDriverState where
  drv : Bool
  readOnly : Bool
  growable : Bool
  inserted : Bool
  length : BitVec 64
  disk : Nat → Byte

/-- `BDRV_SECTOR_SIZE` -/
def sectorSize : Nat := 512

/-- `bdrv_is_inserted` -/
def bdrvIsInserted (bs : BlockDriverState) : Bool := bs.drv && bs.inserted

/-- `bdrv_check_byte_request`; 0 is `ok`. -/
def bdrvCheckByteRequest (bs : BlockDriverState) (offset size : BitVec 64) :
    Except BdrvError Unit :=
  if !bdrvIsInserted bs then .error .enomedium
  else if bs.growable then .ok ()
  else if offset.toInt < 0 then .error .eio
  else if bs.length.toInt < offset.toInt ∨ (bs.length - offset).toNat < size.toNat then .error .eio
  else .ok ()

/-- `bdrv_check_request`: the products are an `int64_t` and an `int`. -/
def bdrvCheckRequest (bs : BlockDriverState) (sectorNum : BitVec 64) (nbSectors : BitVec 32) :
    Except BdrvError Unit :=
  bdrvCheckByteRequest bs (sectorNum * 512) ((nbSectors * 512).signExtend 64)

/-- `bdrv_read` of a driver that succeeds. -/
def bdrvRead (bs : BlockDriverState) (sectorNum : BitVec 64) (nbSectors : BitVec 32) :
    Except BdrvError (List Byte) :=
  if !bs.drv then .error .enomedium
  else match bdrvCheckRequest bs sectorNum nbSectors with
    | .error _ => .error .eio
    | .ok _ => .ok (bytesAt bs.disk (sectorNum.toNat * sectorSize) (nbSectors.toNat * sectorSize))

/-- `bdrv_write` of a driver that succeeds, without the dirty bitmap. -/
def bdrvWrite (bs : BlockDriverState) (sectorNum : BitVec 64) (buf : List Byte)
    (nbSectors : BitVec 32) : Except BdrvError BlockDriverState :=
  if !bs.drv then .error .enomedium
  else if bs.readOnly then .error .eacces
  else match bdrvCheckRequest bs sectorNum nbSectors with
    | .error _ => .error .eio
    | .ok _ => .ok { bs with
        disk := storeAt bs.disk (sectorNum.toNat * sectorSize)
          (buf.take (nbSectors.toNat * sectorSize)) }

/-! ### What the check is for -/

/-- The range of sectors is in a device of so many bytes. -/
def RangeFits (length sectorNum nbSectors : Int) : Prop :=
  0 ≤ nbSectors ∧ 0 ≤ sectorNum ∧ (sectorNum + nbSectors) * 512 ≤ length

instance (length sectorNum nbSectors : Int) : Decidable (RangeFits length sectorNum nbSectors) :=
  inferInstanceAs (Decidable (_ ∧ _))

/-- The sectors that are left of a product with 512 in 64 bits, and in 32 bits. -/
def wrappedSector (sectorNum : Int) : Int := sectorNum.bmod (2 ^ 55)

/-- What is left of a count after it was multiplied as an `int`. -/
def wrappedCount (nbSectors : Int) : Int := nbSectors.bmod (2 ^ 23)

/-- Such a sector number is a multiple of 2^55 off from a sector of the device, which is checked in
its place. -/
def SectorAliased (length sectorNum nbSectors : Int) : Prop :=
  (sectorNum < -2 ^ 54 ∨ 2 ^ 55 ≤ sectorNum) ∧ nbSectors % 2 ^ 23 < 2 ^ 22 ∧
    (sectorNum % 2 ^ 55 + nbSectors % 2 ^ 23) * 512 ≤ length

/-- A negative count whose product with 512 is positive in 32 bits, or is 0. -/
def CountTurnsPositive (length sectorNum nbSectors : Int) : Prop :=
  0 ≤ sectorNum ∧ nbSectors < -2 ^ 22 ∧ nbSectors % 2 ^ 23 < 2 ^ 22 ∧
    (sectorNum + nbSectors % 2 ^ 23) * 512 ≤ length

/-- A count that leaves the device, while its lower 23 bits do not. -/
def CountTurnsSmall (length sectorNum nbSectors : Int) : Prop :=
  0 ≤ sectorNum ∧ 2 ^ 23 ≤ nbSectors ∧ nbSectors % 2 ^ 23 < 2 ^ 22 ∧
    (sectorNum + nbSectors % 2 ^ 23) * 512 ≤ length ∧ length < (sectorNum + nbSectors) * 512

/-- A range of 2 GiB or more that is in the device, and whose size is a negative `int`. -/
def SizeTurnsNegative (length sectorNum nbSectors : Int) : Prop :=
  0 ≤ sectorNum ∧ 2 ^ 22 ≤ nbSectors ∧ 2 ^ 22 ≤ nbSectors % 2 ^ 23 ∧
    (sectorNum + nbSectors) * 512 ≤ length

/-- The requests that the products misjudge: the first three kinds are accepted, the last one is
refused. -/
def Misjudged (length sectorNum nbSectors : Int) : Prop :=
  SectorAliased length sectorNum nbSectors ∨ CountTurnsPositive length sectorNum nbSectors ∨
    CountTurnsSmall length sectorNum nbSectors ∨ SizeTurnsNegative length sectorNum nbSectors

instance (length sectorNum nbSectors : Int) : Decidable (Misjudged length sectorNum nbSectors) :=
  inferInstanceAs (Decidable ((_ ∧ _) ∨ (_ ∧ _) ∨ (_ ∧ _) ∨ (_ ∧ _)))

section

variable {bs : BlockDriverState} {sectorNum : BitVec 64} {nbSectors : BitVec 32}

theorem mul_512_bmod (x : Int) :
    (x * 512).bmod (2 ^ 64) = 512 * wrappedSector x ∧
      (x * 512).bmod (2 ^ 32) = 512 * wrappedCount x := by
  simp only [wrappedSector, wrappedCount, Int.bmod_def]
  constructor
  · split_ifs <;> omega
  · split_ifs <;> omega

theorem wrappedSector_bounds (x : Int) : -2 ^ 54 ≤ wrappedSector x ∧ wrappedSector x < 2 ^ 54 := by
  simp only [wrappedSector, Int.bmod_def]
  split_ifs <;> omega

theorem wrappedCount_bounds (x : Int) : -2 ^ 22 ≤ wrappedCount x ∧ wrappedCount x < 2 ^ 22 := by
  simp only [wrappedCount, Int.bmod_def]
  split_ifs <;> omega

theorem toInt_mul_512 (sectorNum : BitVec 64) :
    (sectorNum * 512).toInt = 512 * wrappedSector sectorNum.toInt := by
  rw [BitVec.toInt_mul, ← (mul_512_bmod _).1]
  rfl

theorem toInt_signExtend_mul_512 (nbSectors : BitVec 32) :
    ((nbSectors * 512).signExtend 64).toInt = 512 * wrappedCount nbSectors.toInt := by
  rw [BitVec.toInt_signExtend_of_le (by decide), BitVec.toInt_mul, ← (mul_512_bmod _).2]
  rfl

/-- **What is checked** is the range that is left of the products. -/
theorem bdrvCheckRequest_ok_iff (hins : bdrvIsInserted bs = true) (hgrow : bs.growable = false)
    (hlen : 0 ≤ bs.length.toInt) :
    bdrvCheckRequest bs sectorNum nbSectors = .ok () ↔
      RangeFits bs.length.toInt (wrappedSector sectorNum.toInt) (wrappedCount nbSectors.toInt) := by
  obtain ⟨hs, hs'⟩ := wrappedSector_bounds sectorNum.toInt
  obtain ⟨hn, hn'⟩ := wrappedCount_bounds nbSectors.toInt
  have hhigh : bs.length.toInt < 2 ^ 63 := BitVec.toInt_lt
  have hoff := toInt_mul_512 sectorNum
  have hsize := toInt_signExtend_mul_512 nbSectors
  unfold bdrvCheckRequest bdrvCheckByteRequest RangeFits
  generalize sectorNum * 512 = offset at hoff ⊢
  generalize (nbSectors * 512).signExtend 64 = size at hsize ⊢
  generalize wrappedSector sectorNum.toInt = s at *
  generalize wrappedCount nbSectors.toInt = n at *
  rw [hins, hgrow]
  simp only [Bool.not_true, Bool.false_eq_true, if_false]
  by_cases hneg : offset.toInt < 0
  · simp only [if_pos hneg, reduceCtorEq, false_iff]
    omega
  · rw [if_neg hneg]
    by_cases hafter : bs.length.toInt < offset.toInt
    · simp only [if_pos (Or.inl hafter), reduceCtorEq, false_iff]
      omega
    -- a negative size is a large `size_t`
    · have hsub : (bs.length - offset).toInt = bs.length.toInt - offset.toInt := by
        rw [BitVec.toInt_sub]
        exact Int.bmod_eq_of_le (by omega) (by omega)
      have hleft := BitVec.toInt_eq_toNat_cond (bs.length - offset)
      have hsz := BitVec.toInt_eq_toNat_cond size
      have hlt := size.isLt
      have hlt' := (bs.length - offset).isLt
      split_ifs with h
      · simp only [false_iff]
        have hless := h.resolve_left hafter
        split_ifs at hleft hsz <;> omega
      · simp only [true_iff]
        have hfits := not_lt.mp fun hless => h (.inr hless)
        split_ifs at hleft hsz <;> omega

theorem rangeFits_wrapped_iff {length : Int} (hhigh : length < 2 ^ 63) (s n : Int) :
    RangeFits length (wrappedSector s) (wrappedCount n) ↔
      n % 2 ^ 23 < 2 ^ 22 ∧ (s % 2 ^ 55 + n % 2 ^ 23) * 512 ≤ length := by
  have hs := wrappedSector_bounds s
  have hn := wrappedCount_bounds n
  simp only [RangeFits, wrappedSector, wrappedCount, Int.bmod_def] at *
  split_ifs at * <;> omega

theorem emod_two_pow_of_fits {length s n : Int} (hhigh : length < 2 ^ 63)
    (h : RangeFits length s n) : s % 2 ^ 55 = s := by
  unfold RangeFits at h
  exact Int.emod_eq_of_lt h.2.1 (by omega)

/-- A range that does not fit is accepted: the sector or the count has wrapped. -/
theorem accepted_iff {length s n : Int} (hhigh : length < 2 ^ 63) :
    (RangeFits length (wrappedSector s) (wrappedCount n) ∧ ¬RangeFits length s n) ↔
      SectorAliased length s n ∨ CountTurnsPositive length s n ∨ CountTurnsSmall length s n := by
  rw [rangeFits_wrapped_iff hhigh]
  unfold SectorAliased CountTurnsPositive CountTurnsSmall RangeFits
  constructor
  · rintro ⟨⟨hcount, hend⟩, hout⟩
    -- the remainder of the sector is below 2^54
    by_cases hsector : 0 ≤ s ∧ s < 2 ^ 55
    · have hself : s % 2 ^ 55 = s := Int.emod_eq_of_lt hsector.1 hsector.2
      rw [hself] at hend
      by_cases hneg : n < 0
      · exact .inr (.inl ⟨hsector.1, by omega, hcount, hend⟩)
      · exact .inr (.inr ⟨hsector.1, by omega, hcount, hend, by omega⟩)
    · exact .inl ⟨by omega, hcount, hend⟩
  · rintro (⟨hsector, hcount, hend⟩ | ⟨hs, hn, hcount, hend⟩ | ⟨hs, hn, hcount, hend, hout⟩)
    · exact ⟨⟨hcount, hend⟩, by omega⟩
    · have hself : s % 2 ^ 55 = s := Int.emod_eq_of_lt hs (by omega)
      exact ⟨⟨hcount, by rw [hself]; exact hend⟩, by omega⟩
    · have hself : s % 2 ^ 55 = s := Int.emod_eq_of_lt hs (by omega)
      exact ⟨⟨hcount, by rw [hself]; exact hend⟩, by omega⟩

/-- A range that fits is refused: its size has become negative. -/
theorem refused_iff {length s n : Int} (hhigh : length < 2 ^ 63) :
    (RangeFits length s n ∧ ¬RangeFits length (wrappedSector s) (wrappedCount n)) ↔
      SizeTurnsNegative length s n := by
  rw [rangeFits_wrapped_iff hhigh]
  unfold SizeTurnsNegative
  constructor
  · rintro ⟨hfits, hno⟩
    rw [emod_two_pow_of_fits hhigh hfits] at hno
    obtain ⟨hn, hs, hend⟩ := hfits
    -- the remainder is not larger than the count
    exact ⟨hs, by omega, by omega, hend⟩
  · rintro ⟨hs, hn, hcount, hend⟩
    exact ⟨⟨by omega, hs, hend⟩, by omega⟩

/-- **The check is right** for all requests but those of the four kinds. -/
theorem bdrv_check_request_iff (hins : bdrvIsInserted bs = true) (hgrow : bs.growable = false)
    (hlen : 0 ≤ bs.length.toInt) (sectorNum : BitVec 64) (nbSectors : BitVec 32) :
    (bdrvCheckRequest bs sectorNum nbSectors = .ok () ↔
      RangeFits bs.length.toInt sectorNum.toInt nbSectors.toInt) ↔
    ¬Misjudged bs.length.toInt sectorNum.toInt nbSectors.toInt := by
  have hhigh : bs.length.toInt < 2 ^ 63 := BitVec.toInt_lt
  have haccepted := accepted_iff (s := sectorNum.toInt) (n := nbSectors.toInt) hhigh
  have hrefused := refused_iff (s := sectorNum.toInt) (n := nbSectors.toInt) hhigh
  rw [bdrvCheckRequest_ok_iff hins hgrow hlen, Misjudged, ← or_assoc, ← or_assoc,
    or_assoc (a := SectorAliased _ _ _), ← haccepted, ← hrefused]
  tauto

end

/-- A device of one sector. -/
def oneSectorDrive : BlockDriverState where
  drv := true
  readOnly := false
  growable := false
  inserted := true
  length := 512
  disk := fun _ => 0

/-- The only sector of a device. -/
theorem bdrv_check_request_one :
    bdrvCheckRequest oneSectorDrive 0 1 = .ok () ↔ RangeFits 512 0 1 :=
  (bdrv_check_request_iff (rfl : bdrvIsInserted oneSectorDrive = true) rfl (by decide) 0 1).mpr
    (by decide)

/-- 2^23 sectors are a size of 2^32 bytes, which is 0 as an `int`. -/
theorem bdrv_check_request_wraps :
    ¬(bdrvCheckRequest oneSectorDrive 0 0x800000 = .ok () ↔ RangeFits 512 0 0x800000) := by
  decide

end Qemu.Block
