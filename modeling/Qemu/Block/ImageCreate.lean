import Qemu.Block.VdiCreate
import Qemu.Block.VpcCreate
import Mathlib

namespace Qemu.Block

/-!
# New images

* `VdiPresents`, `VpcPresents` — an image opens, presents its sectors, and can be used;
* `image_create` — the sizes of which new images do.
-/

/-- A VDI image opens with a number of sectors at least, all of which can be written and read,
    whatever is in the memory that its block map gets. -/
def VdiPresents (configUuid zeroMalloc : Bool) (hd : Nat → Sector) (sectors : Nat) : Prop :=
  ∀ stale, ∃ s totalSectors, vdiOpen configUuid zeroMalloc stale hd = some (s, totalSectors) ∧
    sectors ≤ totalSectors ∧ s.Usable totalSectors

/-- A VPC image opens with a number of sectors at least, all of which can be written and read. -/
def VpcPresents (zeroMalloc : Bool) (f : VpcFile) (sectors : Nat) : Prop :=
  ∃ s image, vpcOpen zeroMalloc f = some s ∧ s.image = some image ∧
    sectors ≤ s.totalSectors ∧ image.Usable s.totalSectors

/-- **New images** open, present the sectors that were asked for, and can be used, if and only if
    sizes of VDI images are multiples of 1 MiB and their block maps are not too long, and sizes of
    VPC images are not rounded down. -/
theorem image_create (configUuid zeroMalloc : Bool) :
    (∀ o hd, vdiCreate zeroMalloc o = some hd →
      (VdiPresents configUuid zeroMalloc hd (o.size.toNat / 512) ↔
        o.size.toNat % 2 ^ 20 = 0 ∧ o.size.toNat / 2 ^ 20 ≤ 2 ^ 29 - 128)) ∧
    ∀ timestamp size f, vpcCreate timestamp size = some f →
      (VpcPresents zeroMalloc f (size.toNat / 512) ↔ VpcSizeFits (size.toNat / 512)) :=
  ⟨fun _ _ => vdiOpen_vdiCreate_iff, fun _ _ _ => vpcOpen_vpcCreate_iff zeroMalloc⟩

/-- A VDI image of 1 MiB, and a VPC image of 68 sectors. -/
theorem image_create_small :
    (∃ hd, vdiCreate false ⟨0x100000, false, 0, 0⟩ = some hd ∧ VdiPresents false false hd 2048) ∧
      ∃ f, vpcCreate 0 34816 = some f ∧ VpcPresents false f 68 := by
  refine ⟨⟨_, if_neg (by decide), ?_⟩, ⟨_, rfl, ?_⟩⟩
  · exact ((image_create false false).1 ⟨0x100000, false, 0, 0⟩ _ (if_neg (by decide))).mpr
      (by decide)
  · refine ((image_create false false).2 0 34816 _ rfl).mpr ?_
    unfold VpcSizeFits
    decide

/-- A VDI image of one sector more than 1 MiB is not opened, and a VPC image of one sector has
    none. -/
theorem image_create_rounded :
    (∃ hd, vdiCreate false ⟨0x100200, false, 0, 0⟩ = some hd ∧ ¬VdiPresents false false hd 2049) ∧
      ∃ f, vpcCreate 0 512 = some f ∧ ¬VpcPresents false f 1 := by
  refine ⟨⟨_, if_neg (by decide), ?_⟩, ⟨_, rfl, ?_⟩⟩
  · intro h
    have hwhole := (vdiOpen_vdiCreate_iff (o := ⟨0x100200, false, 0, 0⟩) (if_neg (by decide))).mp h
    revert hwhole
    decide
  · intro h
    have hopen := @vpcOpen_vpcCreate_iff 0 512 _ false rfl
    have hfits : VpcSizeFits 1 := hopen.mp h
    revert hfits
    unfold VpcSizeFits
    decide

end Qemu.Block
