import Qemu.Block.Vdi
import Qemu.Lib.Runs
import Mathlib.Data.Finset.Card

namespace Qemu.Block

open Lib

/-!
# What VDI images hold

* `Vdi.Valid` — the block map is a map, and there is room in the file for what it says;
* `Vdi.sector` — what an image holds, and `vdiRead_eq` — what reads return;
* `Vdi.Valid.newBlock`, `Vdi.sector_land` — what a write does to both.
-/

/-! ### Images -/

/-- Allocated blocks have places of their own among those counted in the header, and the header, the
    block map and the blocks do not overlap in the file. -/
structure Vdi.Valid (s : Vdi) : Prop where
  bmap_pos : 0 < s.bmapSector
  bmap_le : s.bmapSector + vdiBmapSectors s.blocks ≤ s.dataSector
  below : ∀ b < s.blocks, s.bmap b ≠ VDI_UNALLOCATED →
    (s.bmap b).toNat < s.header.blocksAllocated.toNat
  distinct : ∀ b < s.blocks, ∀ b' < s.blocks, s.bmap b ≠ VDI_UNALLOCATED →
    s.bmap b = s.bmap b' → b = b'
  count : s.header.blocksAllocated.toNat =
    ((Finset.range s.blocks).filter fun b => s.bmap b ≠ VDI_UNALLOCATED).card

/-- Where a block of the image is in the file. -/
def Vdi.place (s : Vdi) (b : Nat) : Option Nat :=
  if b < s.blocks ∧ s.bmap b ≠ VDI_UNALLOCATED then some (s.blockSector (s.bmap b)) else none

/-- What a sector of the image holds. -/
def Vdi.sector (s : Vdi) (v : Nat) : Sector := content vdiBlockSectors s.place s.hd 0 v

/-- The sectors of the image. -/
def Vdi.size (s : Vdi) : Nat := s.blocks * vdiBlockSectors

section

variable {s : Vdi}

theorem vdiBlockSectors_pos : 0 < vdiBlockSectors := by decide

variable {v : Nat}

theorem Vdi.block_lt (hv : v < s.size) : v / vdiBlockSectors < s.blocks :=
  Nat.div_lt_of_lt_mul (by rw [Nat.mul_comm]; exact hv)

variable {b : Nat}

theorem Vdi.place_some (hb : b < s.blocks) (halloc : s.bmap b ≠ VDI_UNALLOCATED) :
    s.place b = some (s.blockSector (s.bmap b)) :=
  if_pos ⟨hb, halloc⟩

theorem Vdi.place_none (halloc : s.bmap b = VDI_UNALLOCATED) : s.place b = none :=
  if_neg fun h => h.2 halloc

theorem Vdi.place_eq_some {p : Nat} (h : s.place b = some p) :
    b < s.blocks ∧ s.bmap b ≠ VDI_UNALLOCATED ∧ p = s.blockSector (s.bmap b) := by
  unfold Vdi.place at h
  split_ifs at h with hb
  exact ⟨hb.1, hb.2, (Option.some.inj h).symm⟩

theorem Vdi.blockSector_add_le {e e' : BitVec 32} (h : e.toNat < e'.toNat) :
    s.blockSector e + vdiBlockSectors ≤ s.blockSector e' := by
  have hle : (e.toNat + 1) * vdiBlockSectors ≤ e'.toNat * vdiBlockSectors :=
    Nat.mul_le_mul_right _ h
  rw [Nat.add_mul, Nat.one_mul] at hle
  unfold Vdi.blockSector
  omega

theorem Vdi.Valid.separated (h : s.Valid) : Separated vdiBlockSectors s.place := by
  intro b p b' p' hp hp' hne
  obtain ⟨hb, halloc, rfl⟩ := Vdi.place_eq_some hp
  obtain ⟨hb', halloc', rfl⟩ := Vdi.place_eq_some hp'
  have hentries : (s.bmap b).toNat ≠ (s.bmap b').toNat := fun heq =>
    hne (h.distinct b hb b' hb' halloc (BitVec.eq_of_toNat_eq heq))
  rcases Nat.lt_or_gt_of_ne hentries with hlt | hgt
  · exact .inl (Vdi.blockSector_add_le hlt)
  · exact .inr (Vdi.blockSector_add_le hgt)

theorem Vdi.Valid.bmap_le_place (h : s.Valid) {p : Nat} (hp : s.place b = some p) :
    s.bmapSector + vdiBmapSectors s.blocks ≤ p := by
  obtain ⟨-, -, rfl⟩ := Vdi.place_eq_some hp
  exact h.bmap_le.trans (Nat.le_add_right _ _)

/-! ### Reads -/

variable {n : Nat}

theorem vdiPart_pos (hn : n ≠ 0) : 0 < vdiPart v n := by
  have hmod := Nat.mod_lt v vdiBlockSectors_pos
  unfold vdiPart
  omega

theorem vdiPart_le (v n : Nat) : vdiPart v n ≤ n := Nat.min_le_right _ _

/-- A part is in one block. -/
theorem vdiPart_block {i : Nat} (hi : i < vdiPart v n) :
    (v + i) / vdiBlockSectors = v / vdiBlockSectors ∧
      (v + i) % vdiBlockSectors = v % vdiBlockSectors + i := by
  have hlt : v % vdiBlockSectors + i < vdiBlockSectors := by
    unfold vdiPart at hi
    omega
  have hv := Nat.div_add_mod v vdiBlockSectors
  have hsplit : v + i = v % vdiBlockSectors + i + vdiBlockSectors * (v / vdiBlockSectors) := by
    omega
  constructor
  · rw [hsplit, Nat.add_mul_div_left _ _ vdiBlockSectors_pos, Nat.div_eq_of_lt hlt, Nat.zero_add]
  · rw [hsplit, Nat.add_mul_mod_self_left, Nat.mod_eq_of_lt hlt]

/-- A request returns what the sectors hold. -/
theorem vdiAioReadCb_eq {fuel : Nat} (hfuel : n < fuel) (hn : v + n ≤ s.size) :
    vdiAioReadCb s fuel v n = some (bytesAt s.sector v n) := by
  induction fuel generalizing v n with
  | zero => exact absurd hfuel (Nat.not_lt_zero _)
  | succ fuel ih =>
    unfold vdiAioReadCb
    by_cases hzero : n = 0
    · rw [if_pos hzero, hzero]
      rfl
    rw [if_neg hzero]
    have hpos := vdiPart_pos (v := v) hzero
    have hle := vdiPart_le v n
    have hblock : v / vdiBlockSectors < s.blocks := Vdi.block_lt (by omega)
    dsimp only
    have hsplit : bytesAt s.sector v n =
        bytesAt s.sector v (vdiPart v n) ++
          bytesAt s.sector (v + vdiPart v n) (n - vdiPart v n) := by
      rw [← bytesAt_add, Nat.add_sub_of_le hle]
    rw [ih (v := v + vdiPart v n) (by omega) (by omega), hsplit]
    refine congrArg (fun l => some (l ++ _)) ?_
    split_ifs with halloc
    · have hnone : s.place (v / vdiBlockSectors) = none := Vdi.place_none halloc
      rw [bytesAt, eq_comm, List.eq_replicate_iff]
      refine ⟨by rw [List.length_map, List.length_range], fun x hx => ?_⟩
      obtain ⟨i, hi, rfl⟩ := List.mem_map.mp hx
      exact content_none ((vdiPart_block (List.mem_range.mp hi)).1 ▸ hnone)
    · have hsome := Vdi.place_some hblock halloc
      refine (bytesAt_congr fun i hi => ?_).symm
      obtain ⟨hdiv, hmod⟩ := vdiPart_block hi
      have hplace : s.place ((v + i) / vdiBlockSectors) = _ := (congrArg s.place hdiv).trans hsome
      unfold Vdi.sector
      rw [content_some hplace, hmod, Nat.add_assoc]

theorem vdiRead_eq (hn : v + n ≤ s.size) : vdiRead s v n = some (bytesAt s.sector v n) :=
  vdiAioReadCb_eq (Nat.lt_succ_self n) hn

/-! ### Allocation -/

theorem Vdi.Valid.allocated_lt (h : s.Valid) (hb : b < s.blocks)
    (hfree : s.bmap b = VDI_UNALLOCATED) : s.header.blocksAllocated.toNat < s.blocks := by
  rw [h.count]
  have hsub : ((Finset.range s.blocks).filter fun b => s.bmap b ≠ VDI_UNALLOCATED) ⊂
      Finset.range s.blocks := by
    refine Finset.filter_ssubset.mpr ⟨b, Finset.mem_range.mpr hb, ?_⟩
    exact not_not.mpr hfree
  exact (Finset.card_lt_card hsub).trans_eq (Finset.card_range _)

theorem Vdi.Valid.allocated_ne (h : s.Valid) (hb : b < s.blocks)
    (hfree : s.bmap b = VDI_UNALLOCATED) : s.header.blocksAllocated ≠ VDI_UNALLOCATED := by
  have hlt := h.allocated_lt hb hfree
  have hblocks : s.blocks ≤ 0xffffffff := Nat.le_of_lt_succ s.header.blocksInImage.isLt
  intro heq
  rw [heq] at hlt
  exact absurd (Nat.lt_of_lt_of_le hlt hblocks) (by decide)

theorem Vdi.Valid.allocated_succ (h : s.Valid) (hb : b < s.blocks)
    (hfree : s.bmap b = VDI_UNALLOCATED) :
    (s.header.blocksAllocated + 1).toNat = s.header.blocksAllocated.toNat + 1 := by
  have hlt := h.allocated_lt hb hfree
  have hblocks : s.blocks ≤ 0xffffffff := Nat.le_of_lt_succ s.header.blocksInImage.isLt
  rw [BitVec.toNat_add]
  exact Nat.mod_eq_of_lt (by show _ + 1 < _; omega)

theorem Vdi.newBlock_bmap_self (s : Vdi) (b : Nat) :
    (s.newBlock b).bmap b = s.header.blocksAllocated :=
  Function.update_self ..

theorem Vdi.newBlock_bmap_of_ne (s : Vdi) {b' : Nat} (h : b' ≠ b) :
    (s.newBlock b).bmap b' = s.bmap b' :=
  Function.update_of_ne h ..

/-- The image with a new block is valid. -/
theorem Vdi.Valid.newBlock (h : s.Valid) (hb : b < s.blocks) (hfree : s.bmap b = VDI_UNALLOCATED) :
    (s.newBlock b).Valid := by
  have hne := h.allocated_ne hb hfree
  have hsucc : (s.newBlock b).header.blocksAllocated.toNat =
      s.header.blocksAllocated.toNat + 1 := h.allocated_succ hb hfree
  refine ⟨h.bmap_pos, h.bmap_le, fun b' hb' halloc => ?_, fun b₁ h₁ b₂ h₂ halloc heq => ?_, ?_⟩
  · rw [hsucc]
    by_cases hself : b' = b
    · rw [hself, Vdi.newBlock_bmap_self]
      exact Nat.lt_succ_self _
    · rw [Vdi.newBlock_bmap_of_ne s hself] at halloc ⊢
      exact Nat.lt_succ_of_lt (h.below b' hb' halloc)
  -- the new entry is above all others
  · have habove : ∀ b' < s.blocks, b' ≠ b → s.bmap b' ≠ VDI_UNALLOCATED →
        s.bmap b' ≠ s.header.blocksAllocated := by
      intro b' hb' _ halloc' heq'
      exact absurd (h.below b' hb' halloc') (heq' ▸ Nat.lt_irrefl _)
    by_cases hself₁ : b₁ = b <;> by_cases hself₂ : b₂ = b
    · rw [hself₁, hself₂]
    · rw [hself₁, Vdi.newBlock_bmap_self, Vdi.newBlock_bmap_of_ne s hself₂] at heq
      exact absurd heq.symm (habove b₂ h₂ hself₂ (heq ▸ hne))
    · rw [Vdi.newBlock_bmap_of_ne s hself₁] at heq halloc
      rw [hself₂, Vdi.newBlock_bmap_self] at heq
      exact absurd heq (habove b₁ h₁ hself₁ halloc)
    · rw [Vdi.newBlock_bmap_of_ne s hself₁] at heq halloc
      rw [Vdi.newBlock_bmap_of_ne s hself₂] at heq
      exact h.distinct b₁ h₁ b₂ h₂ halloc heq
  · have hfilter : ((Finset.range s.blocks).filter fun b' =>
        (s.newBlock b).bmap b' ≠ VDI_UNALLOCATED) =
        insert b ((Finset.range s.blocks).filter fun b' => s.bmap b' ≠ VDI_UNALLOCATED) := by
      ext b'
      rw [Finset.mem_insert, Finset.mem_filter, Finset.mem_filter, Finset.mem_range]
      by_cases hself : b' = b
      · rw [hself, Vdi.newBlock_bmap_self]
        simp [hb, hne]
      · rw [Vdi.newBlock_bmap_of_ne s hself]
        simp [hself]
    have hnot : b ∉ (Finset.range s.blocks).filter fun b' => s.bmap b' ≠ VDI_UNALLOCATED := by
      simp [hfree]
    rw [hsucc, h.count]
    show _ = ((Finset.range s.blocks).filter fun b' =>
      (s.newBlock b).bmap b' ≠ VDI_UNALLOCATED).card
    rw [hfilter, Finset.card_insert_of_notMem hnot]

/-- A new block has the place behind all others. -/
theorem Vdi.Valid.newBlock_place (h : s.Valid) (hb : b < s.blocks)
    (hfree : s.bmap b = VDI_UNALLOCATED) :
    (s.newBlock b).place =
      Function.update s.place b (some (s.blockSector s.header.blocksAllocated)) := by
  funext b'
  by_cases hself : b' = b
  · rw [hself, Function.update_self]
    have hplace : (s.newBlock b).place b = some ((s.newBlock b).blockSector _) :=
      Vdi.place_some hb (by rw [Vdi.newBlock_bmap_self]; exact h.allocated_ne hb hfree)
    rw [hplace, Vdi.newBlock_bmap_self]
    rfl
  · rw [Function.update_of_ne hself]
    unfold Vdi.place
    rw [Vdi.newBlock_bmap_of_ne s hself]
    rfl

theorem Vdi.Valid.newBlock_sector (h : s.Valid) (hb : b < s.blocks)
    (hfree : s.bmap b = VDI_UNALLOCATED) (hv : v / vdiBlockSectors ≠ b) :
    (s.newBlock b).sector v = s.sector v := by
  unfold Vdi.sector
  rw [h.newBlock_place hb hfree]
  exact content_update hv

/-! ### Writes to the file -/

theorem Vdi.Valid.land (h : s.Valid) (io : VdiIo) : (s.land io).Valid := by
  cases io <;> exact ⟨h.bmap_pos, h.bmap_le, h.below, h.distinct, h.count⟩

@[simp] theorem Vdi.land_bmap (s : Vdi) (io : VdiIo) : (s.land io).bmap = s.bmap := by
  cases io <;> rfl

@[simp] theorem Vdi.land_header (s : Vdi) (io : VdiIo) : (s.land io).header = s.header := by
  cases io <;> rfl

variable {data : List Sector}

theorem Vdi.Valid.land_data (h : s.Valid) (hb : b < s.blocks)
    (halloc : s.bmap b ≠ VDI_UNALLOCATED) {offset : Nat}
    (hin : offset + data.length ≤ vdiBlockSectors) :
    (s.land (.data (s.blockSector (s.bmap b) + offset) data)).sector =
      storeAt s.sector (b * vdiBlockSectors + offset) data := by
  funext v
  exact content_storeAt h.separated (Vdi.place_some hb halloc) hin v

theorem Vdi.Valid.land_block (h : s.Valid) (hb : b < s.blocks)
    (halloc : s.bmap b ≠ VDI_UNALLOCATED) (hlen : data.length = vdiBlockSectors) :
    (s.land (.block (s.bmap b) data)).sector = storeAt s.sector (b * vdiBlockSectors) data := by
  have hin : 0 + data.length ≤ vdiBlockSectors := by omega
  have hdata := h.land_data hb halloc hin
  rwa [Nat.add_zero, Nat.add_zero] at hdata

theorem Vdi.Valid.land_meta (h : s.Valid) {offset : Nat}
    (hin : offset + data.length ≤ s.bmapSector + vdiBmapSectors s.blocks) :
    content vdiBlockSectors s.place (storeAt s.hd offset data) 0 = s.sector := by
  refine content_congr vdiBlockSectors_pos fun b p hp i _ => ?_
  have hle := h.bmap_le_place hp
  exact storeAt_of_le (by omega)

theorem Vdi.Valid.land_header_sector (h : s.Valid) (header : Sector) :
    (s.land (.header header)).sector = s.sector := by
  have hpos := h.bmap_pos
  have hin : 0 + [header].length ≤ s.bmapSector + vdiBmapSectors s.blocks := by
    show 0 + 1 ≤ _
    omega
  exact h.land_meta hin

theorem Vdi.Valid.land_bmap_sector (h : s.Valid) {first : Nat}
    (hin : first + n ≤ vdiBmapSectors s.blocks) : (s.land (.bmap first n)).sector = s.sector :=
  h.land_meta (by rw [List.length_map, List.length_range]; omega)

end

end Qemu.Block
