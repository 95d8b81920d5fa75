import Qemu.Block.VdiWrites

namespace Qemu.Block

open Lib

/-!
# Runs of writes to a VDI image

* `VdiRun` — an image, and what was written to it;
* `VdiRun.Right` — the image holds what was written, and the file says so;
* `vdi_writes` — the runs in which images are always right.
-/

/-- An image, and what was written to its sectors. -/
structure VdiRun where
  image : Vdi
  written : Nat → Sector

/-- A new image. -/
def VdiRun.new (other : Sector) (blocks : Nat) : VdiRun where
  image := vdiNew other blocks
  written := fun _ => 0

/-- A request, which is refused if it is not in the image. -/
def VdiRun.write (r : VdiRun) (req : Nat × List Sector) : Option VdiRun :=
  if req.1 + req.2.length ≤ r.image.size then
    (vdiWrite r.image req.1 req.2).map fun image => ⟨image, storeAt r.written req.1 req.2⟩
  else some r

/-- The last block of a request in the image is filled with zeros. -/
def VdiRun.Fits (r : VdiRun) (req : Nat × List Sector) : Prop :=
  req.1 + req.2.length ≤ r.image.size → VdiWriteFits r.image req.1 req.2

/-- Reads return what was written, the header and the block map in the file are those in memory, and
    allocated blocks are different ones of those that are counted. -/
structure VdiRun.Right (r : VdiRun) : Prop where
  reads : ∀ v n, v + n ≤ r.image.size → vdiRead r.image v n = some (bytesAt r.written v n)
  synced : r.image.Synced
  below : ∀ b < r.image.blocks, r.image.bmap b ≠ VDI_UNALLOCATED →
    (r.image.bmap b).toNat < r.image.header.blocksAllocated.toNat
  distinct : ∀ b < r.image.blocks, ∀ b' < r.image.blocks, r.image.bmap b ≠ VDI_UNALLOCATED →
    r.image.bmap b = r.image.bmap b' → b = b'

/-- The invariant of runs. -/
structure VdiRun.Held (r : VdiRun) : Prop where
  valid : r.image.Valid
  synced : r.image.Synced
  sector : ∀ v < r.image.size, r.image.sector v = r.written v

section

variable {r r' : VdiRun} {req : Nat × List Sector}

theorem VdiRun.Held.right (h : r.Held) : r.Right := by
  refine ⟨fun v n hn => ?_, h.synced, h.valid.below, h.valid.distinct⟩
  rw [vdiRead_eq hn]
  exact congrArg some (bytesAt_congr fun i hi => h.sector _ (by omega))

theorem VdiRun.write_some (h : r.image.Valid) (hin : req.1 + req.2.length ≤ r.image.size) :
    ∃ image, r.write req = some ⟨image, storeAt r.written req.1 req.2⟩ ∧
      VdiWritten r.image req.1 req.2 image := by
  obtain ⟨image, hwrite, hwritten⟩ := vdiWrite_eq h hin
  refine ⟨image, ?_, hwritten⟩
  rw [VdiRun.write, if_pos hin, hwrite]
  rfl

theorem VdiRun.write_none (hin : ¬req.1 + req.2.length ≤ r.image.size) :
    r.write req = some r :=
  if_neg hin

theorem VdiRun.write_valid (h : r.image.Valid) (req : Nat × List Sector) :
    ∃ r', r.write req = some r' ∧ r'.image.Valid := by
  by_cases hin : req.1 + req.2.length ≤ r.image.size
  · obtain ⟨image, hwrite, hwritten⟩ := VdiRun.write_some h hin
    exact ⟨_, hwrite, hwritten.valid⟩
  · exact ⟨r, VdiRun.write_none hin, h⟩

/-- A write that fits keeps the invariant. -/
theorem VdiRun.Held.write (h : r.Held) (hfits : r.Fits req) (hwrite : r.write req = some r') :
    r'.Held := by
  by_cases hin : req.1 + req.2.length ≤ r.image.size
  · obtain ⟨image, hsome, hwritten⟩ := VdiRun.write_some h.valid hin
    obtain rfl := Option.some.inj (hsome.symm.trans hwrite)
    refine ⟨hwritten.valid, hwritten.synced h.synced, fun v hv => ?_⟩
    rw [hwritten.sector_fits (hfits hin)]
    exact storeAt_congr _ (h.sector v (hwritten.size ▸ hv))
  · obtain rfl := Option.some.inj ((VdiRun.write_none hin).symm.trans hwrite)
    exact h

/-- After a write that does not fit, something is read that was not written. -/
theorem VdiRun.Held.not_right (h : r.Held) (hfits : ¬r.Fits req)
    (hwrite : r.write req = some r') : ¬r'.Right := by
  simp only [VdiRun.Fits, Classical.not_imp] at hfits
  obtain ⟨hin, hfits⟩ := hfits
  obtain ⟨image, hsome, hwritten⟩ := VdiRun.write_some h.valid hin
  obtain rfl := Option.some.inj (hsome.symm.trans hwrite)
  obtain ⟨v, hv, hzero, hout, hstale⟩ := hwritten.not_fits hin hfits
  intro hright
  have hsize : v + 1 ≤ image.size := by
    rw [hwritten.size]
    exact hv
  have hread : vdiRead image v 1 = some (bytesAt (storeAt r.written req.1 req.2) v 1) :=
    hright.reads v 1 hsize
  rw [vdiRead_eq hsize] at hread
  have hsector : image.sector v = storeAt r.written req.1 req.2 v := by
    simpa [bytesAt] using hread
  rw [← storeAt_congr req.2 (h.sector v hv), hout] at hsector
  exact hstale hsector

end

/-! ### New images -/

section

variable {other : Sector} {blocks : Nat}

theorem vdiNew_blocks (hfit : 0x200 + vdiBmapSectors blocks * 512 < 2 ^ 32) :
    (vdiNew other blocks).blocks = blocks := by
  refine Nat.mod_eq_of_lt ?_
  unfold vdiBmapSectors at hfit
  omega

theorem vdiNew_bmapSector : (vdiNew other blocks).bmapSector = 1 := by
  show (0x200 : BitVec 32).toNat / 512 = 1
  decide

theorem vdiNew_dataSector (hfit : 0x200 + vdiBmapSectors blocks * 512 < 2 ^ 32) :
    (vdiNew other blocks).dataSector = 1 + vdiBmapSectors blocks := by
  show (0x200 + vdiBmapSectors blocks * 512) % 2 ^ 32 / 512 = _
  rw [Nat.mod_eq_of_lt hfit]
  omega

theorem vdiNew_bmap (hfit : 0x200 + vdiBmapSectors blocks * 512 < 2 ^ 32) {b : Nat}
    (hb : b < (vdiNew other blocks).blocks) : (vdiNew other blocks).bmap b = VDI_UNALLOCATED := by
  rw [vdiNew_blocks hfit] at hb
  exact if_pos hb

/-- A new image is valid. -/
theorem vdiNew_valid (hfit : 0x200 + vdiBmapSectors blocks * 512 < 2 ^ 32) :
    (vdiNew other blocks).Valid := by
  have hpos : 0 < (vdiNew other blocks).bmapSector := by
    rw [vdiNew_bmapSector]
    exact Nat.one_pos
  refine ⟨hpos, ?_, fun b hb halloc => absurd (vdiNew_bmap hfit hb) halloc,
    fun b hb _ _ halloc => absurd (vdiNew_bmap hfit hb) halloc, ?_⟩
  · rw [vdiNew_bmapSector, vdiNew_blocks hfit, vdiNew_dataSector hfit]
  · show 0 = _
    rw [eq_comm, Finset.card_eq_zero, Finset.filter_eq_empty_iff]
    exact fun b hb => not_not.mpr (vdiNew_bmap hfit (Finset.mem_range.mp hb))

theorem vdiNew_synced (hfit : 0x200 + vdiBmapSectors blocks * 512 < 2 ^ 32) :
    (vdiNew other blocks).Synced := by
  refine ⟨rfl, fun k hk => ?_⟩
  rw [vdiNew_blocks hfit] at hk
  rw [vdiNew_bmapSector]
  show storeAt (fun _ => 0) 0 _ (1 + k) = _
  rw [← Nat.zero_add (1 + k), storeAt_add _ _ (by simp; omega)]
  simp [Nat.add_comm 1 k]
  rfl

theorem VdiRun.new_held (hfit : 0x200 + vdiBmapSectors blocks * 512 < 2 ^ 32) :
    (VdiRun.new other blocks).Held :=
  ⟨vdiNew_valid hfit, vdiNew_synced hfit,
    fun _ hv => content_none (Vdi.place_none (vdiNew_bmap hfit (Vdi.block_lt hv)))⟩

end

/-- **Sequential writes.**  A new image of which the block map ends below 4 GiB always holds what
    was written, and the file says so, if and only if all requests fit. -/
theorem vdi_writes (other : Sector) (blocks : Nat)
    (hfit : 0x200 + vdiBmapSectors blocks * 512 < 2 ^ 32) (reqs : List (Nat × List Sector)) :
    ∃ r, runFrom VdiRun.write (VdiRun.new other blocks) reqs = some r ∧
      ((∀ n r₁, runFrom VdiRun.write (VdiRun.new other blocks) (reqs.take n) = some r₁ →
          r₁.Right) ↔
        StepsMeet VdiRun.write VdiRun.Fits (VdiRun.new other blocks) reqs) := by
  have hheld : (VdiRun.new other blocks).Held := VdiRun.new_held hfit
  have hall : StepsMeet VdiRun.write (fun _ _ => True) (VdiRun.new other blocks) reqs :=
    StepsMeet.of_forall (fun _ _ => trivial) _ _
  obtain ⟨r, hrun, -⟩ := runFrom_invariant (I := fun r => r.image.Valid)
    (fun _ req h _ => VdiRun.write_valid h req) hheld.valid hall
  exact ⟨r, hrun, runFrom_all_iff (fun _ => VdiRun.Held.right)
    (fun _ _ _ => VdiRun.Held.write) (fun _ _ _ => VdiRun.Held.not_right) hheld hrun⟩

/-- The second request ends in the block that the first one has allocated. -/
def crossingRequests : List (Nat × List Sector) :=
  [(2048, [1, 2, 3]), (2045, [4, 5, 6, 7]), (10, [8])]

/-- All three requests meet the condition, and reads return what was written. -/
theorem vdi_writes_crossing :
    StepsMeet VdiRun.write VdiRun.Fits (VdiRun.new 0 2) crossingRequests ∧
      ∀ n r₁, runFrom VdiRun.write (VdiRun.new 0 2) (crossingRequests.take n) = some r₁ →
        r₁.Right := by
  have hallocated : (VdiRun.write (VdiRun.new 0 2) (2048, [1, 2, 3])).map
      (fun r => r.image.bmap 1) = some 0 := by decide +kernel
  have hmeet : StepsMeet VdiRun.write VdiRun.Fits (VdiRun.new 0 2) crossingRequests := by
    refine ⟨fun _ _ _ p _ _ => vdiStale_start _ 2048 _ p, fun r₁ hr₁ => ⟨?_, fun r₂ _ => ?_⟩⟩
    · intro _ _ hfree
      rw [hr₁] at hallocated
      exact absurd ((Option.some.inj hallocated).symm.trans hfree) (by decide)
    · exact ⟨fun _ _ _ p _ _ => vdiStale_start _ 10 _ p, fun _ _ => trivial⟩
  exact ⟨hmeet, (vdi_writes 0 2 (by decide) crossingRequests).choose_spec.2.mpr hmeet⟩

/-- The data of the first block is left in the buffer of the second one. -/
theorem vdi_writes_stale :
    ¬∀ n r₁, runFrom VdiRun.write (VdiRun.new 0 2) ([(2046, [1, 2, 3])].take n) = some r₁ →
      r₁.Right := by
  have hheld : (VdiRun.new 0 2).Held := VdiRun.new_held (by decide)
  have hstale : vdiStale (vdiNew 0 2) 2046 [1, 2, 3] 1 2046 = 1 := by decide +kernel
  have hnot : ¬(VdiRun.new 0 2).Fits (2046, [1, 2, 3]) := fun h =>
    absurd (hstale.symm.trans (h (by decide) (by decide) (by decide) 2046 (by decide) (by decide)))
      (by decide +kernel)
  obtain ⟨r, hwrite, -⟩ := VdiRun.write_valid hheld.valid (2046, [1, 2, 3])
  intro h
  refine hheld.not_right hnot hwrite (h 1 r ?_)
  rw [List.take_succ_cons, runFrom, hwrite]
  rfl

end Qemu.Block
