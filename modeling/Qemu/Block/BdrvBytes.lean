import Qemu.Block.Bdrv
import Qemu.Lib.Ends

namespace Qemu.Block

open Lib

/-!
# Requests of bytes (`bdrv_pread`, `bdrv_pwrite`)

A request of bytes is one of sectors, with the sectors at its ends read first.

* `bdrvPread`, `bdrvPwrite` — the part of the first sector, whole sectors, the part of the last one;
* `bdrvRead_ends`, `bdrvWrite_ends` — sectors that hold bytes of the device;
* `bdrv_pread_pwrite_bytes` — the bytes that are read and changed.
-/

/-- The part of `bdrv_pread` behind the whole sectors. -/
def bdrvPreadLast (bs : BlockDriverState) (sectorNum count : Int) : Except BdrvError (List Byte) :=
  if 0 < count then do
    let tmpBuf ← bdrvRead bs (BitVec.ofInt 64 sectorNum) 1
    pure (tmpBuf.take count.toNat)
  else pure []

/-- The part of `bdrv_pread` behind the first sector. -/
def bdrvPreadSectors (bs : BlockDriverState) (sectorNum count : Int) :
    Except BdrvError (List Byte) :=
  let nbSectors := count / sectorSize
  if 0 < nbSectors then do
    let whole ← bdrvRead bs (BitVec.ofInt 64 sectorNum) (BitVec.ofInt 32 nbSectors)
    let last ← bdrvPreadLast bs (sectorNum + nbSectors) (count - nbSectors * sectorSize)
    pure (whole ++ last)
  else bdrvPreadLast bs sectorNum count

/-- `bdrv_pread`: the value returned, and what is put into the buffer. -/
def bdrvPread (bs : BlockDriverState) (offset count1 : Int) :
    Except BdrvError (Int × List Byte) := do
  let len := min ((sectorSize - offset) % sectorSize) count1
  let sectorNum := offset / sectorSize
  if 0 < len then
    let tmpBuf ← bdrvRead bs (BitVec.ofInt 64 sectorNum) 1
    let first := (tmpBuf.drop (offset % sectorSize).toNat).take len.toNat
    let count := count1 - len
    if count = 0 then pure (count1, first)
    else
      let rest ← bdrvPreadSectors bs (sectorNum + 1) count
      pure (count1, first ++ rest)
  else
    let rest ← bdrvPreadSectors bs sectorNum count1
    pure (count1, rest)

/-- `memcpy` into a buffer of a sector. -/
def patch (tmpBuf : List Byte) (pos : Nat) (l : List Byte) : List Byte :=
  tmpBuf.take pos ++ (l ++ tmpBuf.drop (pos + l.length))

/-- The part of `bdrv_pwrite` behind the whole sectors. -/
def bdrvPwriteLast (bs : BlockDriverState) (sectorNum : Int) (buf : List Byte) (count : Int) :
    Except BdrvError BlockDriverState :=
  if 0 < count then do
    let tmpBuf ← bdrvRead bs (BitVec.ofInt 64 sectorNum) 1
    bdrvWrite bs (BitVec.ofInt 64 sectorNum) (patch tmpBuf 0 (buf.take count.toNat)) 1
  else pure bs

/-- The part of `bdrv_pwrite` behind the first sector. -/
def bdrvPwriteSectors (bs : BlockDriverState) (sectorNum : Int) (buf : List Byte) (count : Int) :
    Except BdrvError BlockDriverState :=
  let nbSectors := count / sectorSize
  if 0 < nbSectors then do
    let bs ← bdrvWrite bs (BitVec.ofInt 64 sectorNum) buf (BitVec.ofInt 32 nbSectors)
    bdrvPwriteLast bs (sectorNum + nbSectors) (buf.drop (nbSectors * sectorSize).toNat)
      (count - nbSectors * sectorSize)
  else bdrvPwriteLast bs sectorNum buf count

/-- `bdrv_pwrite`: the value returned, and the device. -/
def bdrvPwrite (bs : BlockDriverState) (offset : Int) (buf : List Byte) (count1 : Int) :
    Except BdrvError (Int × BlockDriverState) := do
  let len := min ((sectorSize - offset) % sectorSize) count1
  let sectorNum := offset / sectorSize
  if 0 < len then
    let tmpBuf ← bdrvRead bs (BitVec.ofInt 64 sectorNum) 1
    let bs ← bdrvWrite bs (BitVec.ofInt 64 sectorNum)
      (patch tmpBuf (offset % sectorSize).toNat (buf.take len.toNat)) 1
    let count := count1 - len
    if count = 0 then pure (count1, bs)
    else
      let bs ← bdrvPwriteSectors bs (sectorNum + 1) (buf.drop len.toNat) count
      pure (count1, bs)
  else
    let bs ← bdrvPwriteSectors bs sectorNum buf count1
    pure (count1, bs)

section

variable {bs bs' : BlockDriverState}

/-! ### Sectors -/

variable {n : Nat}

theorem toNat_ofInt_natCast {w : Nat} (h : n < 2 ^ w) : (BitVec.ofInt w n).toNat = n := by
  rw [BitVec.ofInt_natCast, BitVec.toNat_ofNat, Nat.mod_eq_of_lt h]

/-- A device of whole sectors, with a medium. -/
def SectorsThere (bs : BlockDriverState) : Prop :=
  bdrvIsInserted bs = true ∧ (sectorSize : Int) ∣ bs.length.toInt

variable {s : Nat}

/-- Sectors of the device pass the check. -/
theorem bdrvCheckRequest_inside (hins : bdrvIsInserted bs = true)
    (hfits : ((s + n) * 512 : Int) ≤ bs.length.toInt) (hn : n < 2 ^ 22) :
    bdrvCheckRequest bs (BitVec.ofInt 64 s) (BitVec.ofInt 32 n) = .ok () := by
  have hhigh : bs.length.toInt < 2 ^ 63 := BitVec.toInt_lt
  by_cases hgrow : bs.growable = true
  · unfold bdrvCheckRequest bdrvCheckByteRequest
    rw [hins, hgrow]
    rfl
  · have hs : (BitVec.ofInt 64 s).toInt = s := by
      rw [BitVec.toInt_ofInt]
      exact Int.bmod_eq_of_le (by omega) (by omega)
    have hc : (BitVec.ofInt 32 n).toInt = n := by
      rw [BitVec.toInt_ofInt]
      exact Int.bmod_eq_of_le (by omega) (by omega)
    have hws : wrappedSector s = s := Int.bmod_eq_of_le (by omega) (by omega)
    have hwc : wrappedCount n = n := Int.bmod_eq_of_le (by omega) (by omega)
    rw [bdrvCheckRequest_ok_iff hins (Bool.eq_false_iff.mpr hgrow) (by omega), hs, hc, hws, hwc]
    exact ⟨Int.natCast_nonneg n, Int.natCast_nonneg s, hfits⟩

theorem drv_of_inserted (hins : bdrvIsInserted bs = true) : bs.drv = true :=
  (Bool.and_eq_true_iff.mp hins).1

variable {c : Nat}

theorem SectorsThere.fits (h : SectorsThere bs) (hfits : (s * 512 + c : Int) ≤ bs.length.toInt)
    (hn : n * 512 < c + 512) : ((s + n) * 512 : Int) ≤ bs.length.toInt := by
  obtain ⟨-, m, hm⟩ := h
  have hsize : (sectorSize : Int) = 512 := rfl
  rw [hsize] at hm
  omega

/-- **Sectors that are read** hold `c` bytes of the device. -/
theorem bdrvRead_ends (hfits : (s * 512 + c : Int) ≤ bs.length.toInt) (hn : n * 512 < c + 512)
    (hint : n < 2 ^ 22) :
    Ends (fun l => l = bytesAt bs.disk (s * sectorSize) (n * sectorSize))
      (fun _ => ¬SectorsThere bs)
      (bdrvRead bs (BitVec.ofInt 64 s) (BitVec.ofInt 32 n)) := by
  have hhigh : bs.length.toInt < 2 ^ 63 := BitVec.toInt_lt
  unfold bdrvRead
  rw [toNat_ofInt_natCast (show s < 2 ^ 64 by omega),
    toNat_ofInt_natCast (show n < 2 ^ 32 by omega)]
  by_cases hthere : SectorsThere bs
  · rw [bdrvCheckRequest_inside hthere.1 (hthere.fits hfits hn) hint,
      drv_of_inserted hthere.1]
    exact .ok rfl
  · split_ifs
    · exact .error hthere
    · split
      · exact .error hthere
      · exact .ok rfl

theorem bdrvRead_one_ends (hfits : (s * 512 + c : Int) ≤ bs.length.toInt) (hc : 0 < c) :
    Ends (fun l => l = bytesAt bs.disk (s * sectorSize) sectorSize) (fun _ => ¬SectorsThere bs)
      (bdrvRead bs (BitVec.ofInt 64 s) 1) := by
  have hread := bdrvRead_ends (n := 1) hfits (by omega) (by decide)
  rw [Nat.one_mul] at hread
  exact hread

/-- **Sectors that are written.** -/
theorem bdrvWrite_ends (hfits : (s * 512 + c : Int) ≤ bs.length.toInt) (hn : n * 512 < c + 512)
    (hint : n < 2 ^ 22) (buf : List Byte) :
    Ends (fun bs' => bs' = { bs with
        disk := storeAt bs.disk (s * sectorSize) (buf.take (n * sectorSize)) })
      (fun _ => ¬(SectorsThere bs ∧ bs.readOnly = false))
      (bdrvWrite bs (BitVec.ofInt 64 s) buf (BitVec.ofInt 32 n)) := by
  have hhigh : bs.length.toInt < 2 ^ 63 := BitVec.toInt_lt
  unfold bdrvWrite
  rw [toNat_ofInt_natCast (show s < 2 ^ 64 by omega),
    toNat_ofInt_natCast (show n < 2 ^ 32 by omega)]
  by_cases hthere : SectorsThere bs ∧ bs.readOnly = false
  · rw [bdrvCheckRequest_inside hthere.1.1 (hthere.1.fits hfits hn) hint,
      drv_of_inserted hthere.1.1, hthere.2]
    exact .ok rfl
  · split_ifs
    · exact .error hthere
    · exact .error hthere
    · split
      · exact .error hthere
      · exact .ok rfl

variable {buf : List Byte}

theorem bdrvWrite_one_ends (hfits : (s * 512 + c : Int) ≤ bs.length.toInt) (hc : 0 < c)
    (hbuf : buf.length = sectorSize) :
    Ends (fun bs' => bs' = { bs with disk := storeAt bs.disk (s * sectorSize) buf })
      (fun _ => ¬(SectorsThere bs ∧ bs.readOnly = false))
      (bdrvWrite bs (BitVec.ofInt 64 s) buf 1) := by
  have hwrite := bdrvWrite_ends (n := 1) hfits (by omega) (by decide) buf
  rw [Nat.one_mul, List.take_of_length_le hbuf.le] at hwrite
  exact hwrite

variable {l : List Byte}

/-- A sector that is read, patched and written back has only the patch changed. -/
theorem storeAt_patch (mem : Nat → Byte) (addr : Nat) {size i : Nat} (h : i + l.length ≤ size) :
    storeAt mem addr (patch (bytesAt mem addr size) i l) = storeAt mem (addr + i) l := by
  obtain ⟨m, rfl⟩ : ∃ m, size = i + (l.length + m) := ⟨size - (i + l.length), by omega⟩
  have hhead := take_bytesAt mem addr (Nat.le_add_right i (l.length + m))
  have htail : (bytesAt mem addr (i + (l.length + m))).drop (i + l.length) =
      bytesAt (storeAt mem (addr + i) l) (addr + i + l.length) m := by
    rw [← Nat.add_assoc, bytesAt_add, List.drop_left' (length_bytesAt ..), ← Nat.add_assoc]
    exact (bytesAt_storeAt_of_disjoint (.inr le_rfl)).symm
  rw [patch, hhead, htail, storeAt_append, storeAt_self, length_bytesAt, storeAt_append,
    storeAt_self]

/-! ### Bytes -/

/-- The last part of `bdrv_pread`, which is less than a sector. -/
theorem bdrvPreadLast_ends (hfits : (s * 512 + c : Int) ≤ bs.length.toInt) (hc : c < 512) :
    Ends (fun l => l = bytesAt bs.disk (s * sectorSize) c) (fun _ => ¬SectorsThere bs)
      (bdrvPreadLast bs s c) := by
  unfold bdrvPreadLast
  refine Ends.ite (fun hpos => ?_) fun hzero => ?_
  · have hsize : c ≤ sectorSize := hc.le
    have hread := bdrvRead_one_ends hfits (by omega)
    refine Ends.bind hread fun tmpBuf htmp => .ok ?_
    rw [htmp, Int.toNat_natCast, take_bytesAt _ _ hsize]
  · obtain rfl : c = 0 := by omega
    exact .ok rfl

/-- The whole sectors of it, and the last part. -/
theorem bdrvPreadSectors_ends (hfits : (s * 512 + c : Int) ≤ bs.length.toInt) (hc : c < 2 ^ 31) :
    Ends (fun l => l = bytesAt bs.disk (s * sectorSize) c) (fun _ => ¬SectorsThere bs)
      (bdrvPreadSectors bs s c) := by
  have hq : (c : Int) / sectorSize = (c / 512 : Nat) := rfl
  have hsize : (sectorSize : Int) = 512 := rfl
  unfold bdrvPreadSectors
  rw [hq]
  refine Ends.ite (fun hpos => ?_) fun hzero => ?_
  · refine Ends.bind (bdrvRead_ends hfits (by omega) (by omega)) ?_
    rintro whole rfl
    have hfits' : (((s + c / 512 : Nat) : Int) * 512 + (c % 512 : Nat)) ≤ bs.length.toInt := by
      omega
    have hlast := bdrvPreadLast_ends hfits' (Nat.mod_lt _ (by decide))
    have hcount : (c : Int) - (c / 512 : Nat) * sectorSize = (c % 512 : Nat) := by
      rw [hsize]
      omega
    rw [hcount]
    refine Ends.bind hlast ?_
    rintro last rfl
    refine .ok ?_
    have hcut : c = c / 512 * sectorSize + c % 512 := (Nat.div_add_mod' c 512).symm
    rw [Nat.add_mul, ← bytesAt_add, ← hcut]
  · exact bdrvPreadLast_ends hfits (by omega)

theorem length_patch {tmpBuf : List Byte} {pos : Nat} (h : pos + l.length ≤ tmpBuf.length) :
    (patch tmpBuf pos l).length = tmpBuf.length := by
  simp only [patch, List.length_append, List.length_take, List.length_drop]
  omega

/-- A sector is read, patched and written back. -/
theorem bdrvWrite_patch_ends {pos : Nat} (hfits : (s * 512 + c : Int) ≤ bs.length.toInt)
    (hc : 0 < c) (hl : pos + l.length ≤ sectorSize) :
    Ends (fun bs' => bs' = { bs with disk := storeAt bs.disk (s * sectorSize + pos) l })
      (fun _ => ¬(SectorsThere bs ∧ bs.readOnly = false))
      (bdrvWrite bs (BitVec.ofInt 64 s)
        (patch (bytesAt bs.disk (s * sectorSize) sectorSize) pos l) 1) := by
  have hlen : (patch (bytesAt bs.disk (s * sectorSize) sectorSize) pos l).length = sectorSize := by
    rw [length_patch (by rwa [length_bytesAt]), length_bytesAt]
  have hwrite := bdrvWrite_one_ends hfits hc hlen
  rwa [storeAt_patch _ _ hl] at hwrite

/-- The last part of `bdrv_pwrite`, which is less than a sector. -/
theorem bdrvPwriteLast_ends (hfits : (s * 512 + c : Int) ≤ bs.length.toInt) (hc : c < 512)
    (hbuf : buf.length = c) :
    Ends (fun bs' => bs' = { bs with disk := storeAt bs.disk (s * sectorSize) buf })
      (fun _ => ¬(SectorsThere bs ∧ bs.readOnly = false)) (bdrvPwriteLast bs s buf c) := by
  unfold bdrvPwriteLast
  refine Ends.ite (fun hpos => ?_) fun hzero => ?_
  · have hread := (bdrvRead_one_ends hfits (by omega)).mono (fun _ h => h)
      (fun _ h (hthere : SectorsThere bs ∧ bs.readOnly = false) => h hthere.1)
    refine Ends.bind hread fun tmpBuf htmp => ?_
    rw [htmp, Int.toNat_natCast, List.take_of_length_le hbuf.le]
    have hsize : 0 + buf.length ≤ sectorSize := by
      unfold sectorSize
      omega
    have hwrite := bdrvWrite_patch_ends hfits (by omega) hsize
    rwa [Nat.add_zero] at hwrite
  · have hnil : buf = [] := List.length_eq_zero_iff.mp (by omega)
    subst hnil
    rw [storeAt_nil]
    exact .ok rfl

/-- The whole sectors of it, and the last part. -/
theorem bdrvPwriteSectors_ends (hfits : (s * 512 + c : Int) ≤ bs.length.toInt) (hc : c < 2 ^ 31)
    (hbuf : buf.length = c) :
    Ends (fun bs' => bs' = { bs with disk := storeAt bs.disk (s * sectorSize) buf })
      (fun _ => ¬(SectorsThere bs ∧ bs.readOnly = false)) (bdrvPwriteSectors bs s buf c) := by
  have hq : (c : Int) / sectorSize = (c / 512 : Nat) := rfl
  have hsize : (sectorSize : Int) = 512 := rfl
  unfold bdrvPwriteSectors
  rw [hq]
  -- whole sectors first, then a last one that is patched
  refine Ends.ite (fun hpos => ?_) fun hzero => ?_
  · refine Ends.bind (bdrvWrite_ends hfits (by omega) (by omega) buf) fun bs' hbs' => ?_
    have hcount : (c : Int) - (c / 512 : Nat) * sectorSize = (c % 512 : Nat) := by
      rw [hsize]
      omega
    have hdrop : (((c / 512 : Nat) : Int) * sectorSize).toNat = c / 512 * sectorSize := rfl
    have hle : c / 512 * sectorSize ≤ c := Nat.div_mul_le_self c 512
    have hfits' : (((s + c / 512 : Nat) : Int) * 512 + (c % 512 : Nat)) ≤ bs'.length.toInt := by
      rw [hbs']
      dsimp only
      omega
    have hrest : (buf.drop (c / 512 * sectorSize)).length = c % 512 := by
      have hcut : c / 512 * sectorSize + c % 512 = c := Nat.div_add_mod' c 512
      rw [List.length_drop]
      omega
    rw [hcount, hdrop]
    have hlast := bdrvPwriteLast_ends hfits' (Nat.mod_lt _ (by decide)) hrest
    subst hbs'
    refine hlast.mono (fun bs'' h => ?_) fun _ h => h
    have hpart : (s + c / 512) * sectorSize =
        s * sectorSize + (buf.take (c / 512 * sectorSize)).length := by
      rw [Nat.add_mul, List.length_take, hbuf, Nat.min_eq_left hle]
    rw [h, hpart, ← storeAt_append, List.take_append_drop]
  · exact bdrvPwriteLast_ends hfits (by omega) hbuf

/-- The bytes before the first whole sector. -/
def headLen (o c : Nat) : Nat := min ((512 - o % 512) % 512) c

theorem headLen_eq (o c : Nat) :
    min (((sectorSize : Int) - o) % sectorSize) c = (headLen o c : Nat) := by
  have hsize : (sectorSize : Int) = 512 := rfl
  rw [hsize]
  unfold headLen
  omega

variable {o : Nat}

theorem start_of_no_head (h : headLen o c = 0) (hc : 0 < c) : o / 512 * sectorSize = o := by
  unfold headLen at h
  unfold sectorSize
  omega

theorem next_of_head (h : 0 < headLen o c) (hmore : headLen o c ≠ c) :
    (o / 512 + 1) * sectorSize = o + headLen o c := by
  unfold headLen at *
  unfold sectorSize
  omega

/-- `bdrv_pread` inside the device returns its bytes. -/
theorem bdrvPread_ends (hfits : (o + c : Int) ≤ bs.length.toInt) (hc : c < 2 ^ 31) :
    Ends (fun r => r = ((c : Int), bytesAt bs.disk o c)) (fun _ => ¬SectorsThere bs)
      (bdrvPread bs o c) := by
  have hs : (o : Int) / sectorSize = (o / 512 : Nat) := rfl
  have hpos : ((o : Int) % sectorSize).toNat = o % 512 := rfl
  have hsector : o = o / 512 * sectorSize + o % 512 := (Nat.div_add_mod' o 512).symm
  have hle : headLen o c ≤ c := Nat.min_le_right ..
  unfold bdrvPread
  simp only [headLen_eq, hs, hpos, Int.toNat_natCast]
  refine Ends.ite (fun hhead => ?_) fun hnone => ?_
  · have hin : o % 512 + headLen o c ≤ sectorSize := by
      unfold headLen sectorSize
      omega
    refine Ends.bind (bdrvRead_one_ends (c := o % 512 + headLen o c) (by omega) (by omega))
      fun tmpBuf htmp => ?_
    have hfirst : (tmpBuf.drop (o % 512)).take (headLen o c) = bytesAt bs.disk o (headLen o c) := by
      rw [htmp, take_drop_bytesAt _ _ hin, ← hsector]
    rw [hfirst]
    refine Ends.ite (fun hall => .ok ?_) fun hmore => ?_
    · have hc : headLen o c = c := by omega
      rw [hc]
    -- the head ends where the next sector begins
    · have hnext := next_of_head (o := o) (c := c) (by omega) (by omega)
      have hrestFits : ((o / 512 + 1 : Nat) * 512 + (c - headLen o c : Nat) : Int) ≤
          bs.length.toInt := by
        unfold headLen at *
        omega
      have hrest := bdrvPreadSectors_ends hrestFits (by omega)
      have hcount : (c : Int) - headLen o c = (c - headLen o c : Nat) := by omega
      rw [hcount]
      refine Ends.bind hrest fun rest hrest => .ok ?_
      rw [hrest, hnext, ← bytesAt_add, Nat.add_sub_of_le hle]
  · refine Ends.bind (bdrvPreadSectors_ends (s := o / 512) (by omega) hc) fun rest hrest => .ok ?_
    rw [hrest]
    rcases Nat.eq_zero_or_pos c with rfl | hc
    · rfl
    · rw [start_of_no_head (by omega) hc]

/-- `bdrv_pwrite` inside the device stores the bytes it is given. -/
theorem bdrvPwrite_ends (hfits : (o + c : Int) ≤ bs.length.toInt) (hc : c < 2 ^ 31)
    (hbuf : buf.length = c) :
    Ends (fun r => r = ((c : Int), { bs with disk := storeAt bs.disk o buf }))
      (fun _ => ¬(SectorsThere bs ∧ bs.readOnly = false)) (bdrvPwrite bs o buf c) := by
  have hs : (o : Int) / sectorSize = (o / 512 : Nat) := rfl
  have hpos : ((o : Int) % sectorSize).toNat = o % 512 := rfl
  have hsector : o / 512 * sectorSize + o % 512 = o := Nat.div_add_mod' o 512
  have hle : headLen o c ≤ c := Nat.min_le_right ..
  unfold bdrvPwrite
  simp only [headLen_eq, hs, hpos, Int.toNat_natCast]
  refine Ends.ite (fun hhead => ?_) fun hnone => ?_
  · have hlen : (buf.take (headLen o c)).length = headLen o c := by
      rw [List.length_take, hbuf, Nat.min_eq_left hle]
    have hin : o % 512 + (buf.take (headLen o c)).length ≤ sectorSize := by
      rw [hlen]
      unfold headLen sectorSize
      omega
    have hfits' : ((o / 512 : Nat) * 512 + (o % 512 + headLen o c : Nat) : Int) ≤
        bs.length.toInt := by omega
    have hread := (bdrvRead_one_ends hfits' (by omega)).mono (fun _ h => h)
      (fun _ h (hthere : SectorsThere bs ∧ bs.readOnly = false) => h hthere.1)
    refine Ends.bind hread fun tmpBuf htmp => ?_
    have hwrite := bdrvWrite_patch_ends hfits' (by omega) hin
    rw [hsector, ← htmp] at hwrite
    refine Ends.bind hwrite fun bs' hbs' => ?_
    refine Ends.ite (fun hall => .ok ?_) fun hmore => ?_
    · have hc : headLen o c = c := by omega
      rw [hbs', hc, List.take_of_length_le hbuf.le]
    -- the head ends where the next sector begins
    · have hnext := next_of_head (o := o) (c := c) (by omega) (by omega)
      have hrestFits : ((o / 512 + 1 : Nat) * 512 + (c - headLen o c : Nat) : Int) ≤
          bs'.length.toInt := by
        rw [hbs']
        unfold headLen at *
        dsimp only
        omega
      have hdrop : (buf.drop (headLen o c)).length = c - headLen o c := by
        rw [List.length_drop, hbuf]
      have hrest := bdrvPwriteSectors_ends hrestFits (by omega) hdrop
      have hcount : (c : Int) - headLen o c = (c - headLen o c : Nat) := by omega
      rw [hcount]
      subst hbs'
      refine Ends.bind (hrest.mono (fun _ h => h) fun _ h => h) fun bs'' hbs'' => .ok ?_
      have hstored := storeAt_append bs.disk o (buf.take (headLen o c)) (buf.drop (headLen o c))
      rw [hlen, List.take_append_drop] at hstored
      rw [hbs'', hnext, ← hstored]
  · refine Ends.bind (bdrvPwriteSectors_ends (s := o / 512) (by omega) hc hbuf) fun bs' hbs' =>
      .ok ?_
    rw [hbs']
    rcases Nat.eq_zero_or_pos c with rfl | hc
    · rw [List.length_eq_zero_iff.mp hbuf, storeAt_nil, storeAt_nil]
    · rw [start_of_no_head (by omega) hc]

/-- **Exactly the bytes asked for** are read, and changed.  A device of whole sectors gives no
error. -/
theorem bdrv_pread_pwrite_bytes {offset count : Int} (hoffset : 0 ≤ offset) (hcount : 0 ≤ count)
    (hint : count < 2 ^ 31) (hfits : offset + count ≤ bs.length.toInt) :
    Ends (fun r => r = (count, bytesAt bs.disk offset.toNat count.toNat))
        (fun _ => ¬SectorsThere bs) (bdrvPread bs offset count) ∧
      ∀ buf : List Byte, buf.length = count.toNat →
        Ends (fun r => r = (count, { bs with disk := storeAt bs.disk offset.toNat buf }))
          (fun _ => ¬(SectorsThere bs ∧ bs.readOnly = false)) (bdrvPwrite bs offset buf count) := by
  lift offset to Nat using hoffset
  lift count to Nat using hcount
  rw [Int.toNat_natCast, Int.toNat_natCast]
  exact ⟨bdrvPread_ends hfits (by omega), fun buf => bdrvPwrite_ends hfits (by omega)⟩

end

/-- Five bytes within the only sector. -/
theorem bdrv_pread_pwrite_one :
    SectorsThere oneSectorDrive ∧
      Ends (fun r => r = (5, bytesAt oneSectorDrive.disk 3 5))
        (fun _ => ¬SectorsThere oneSectorDrive)
        (bdrvPread oneSectorDrive 3 5) ∧
      ∀ buf : List Byte, buf.length = 5 →
        Ends (fun r => r = (5, { oneSectorDrive with disk := storeAt oneSectorDrive.disk 3 buf }))
          (fun _ => ¬(SectorsThere oneSectorDrive ∧ oneSectorDrive.readOnly = false))
          (bdrvPwrite oneSectorDrive 3 buf 5) :=
  ⟨⟨rfl, 1, rfl⟩, bdrv_pread_pwrite_bytes (by decide) (by decide) (by decide)
    (show (3 + 5 : Int) ≤ oneSectorDrive.length.toInt by decide)⟩

end Qemu.Block
