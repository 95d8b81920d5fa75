import Qemu.Block.VdiSpec
import Mathlib.Data.List.GetD

namespace Qemu.Block

open Lib

/-!
# Writes to VDI images, one after the other

* `Vdi.Synced` — the header and the block map in the file are those in memory;
* `vdiStale` — what the buffer of a new block holds from the one before, and `VdiWriteFits`, when
  this does not get into the image;
* `VdiProgress` — a request whose data is written up to a sector;
* `vdiWrite_eq` — what a write leaves in the image;
* `vdi_writes` — images in runs of writes.
-/

/-- The header and the block map in the file are those in memory. -/
structure Vdi.Synced (s : Vdi) : Prop where
  header : s.hd 0 = vdiHeaderToLe s.header
  bmap : ∀ k < vdiBmapSectors s.blocks, s.hd (s.bmapSector + k) = vdiBmapSector s.bmap k

/-! ### The buffer -/

/-- The last block in front of `b` that a request from a sector on allocates. -/
def vdiReused (s : Vdi) (sectorNum : Nat) : Nat → Option Nat
  | 0 => none
  | b + 1 =>
    if b < sectorNum / vdiBlockSectors then none
    else if s.bmap b = VDI_UNALLOCATED then some b
    else vdiReused s sectorNum b

/-- What the request has put into its buffer for that block. -/
def vdiStale (s : Vdi) (sectorNum : Nat) (data : List Sector) (b p : Nat) : Sector :=
  match vdiReused s sectorNum b with
  | some m =>
    if sectorNum ≤ m * vdiBlockSectors + p then
      data.getD (m * vdiBlockSectors + p - sectorNum) 0
    else 0
  | none => 0

/-- If the last block of a request is allocated and not filled by it, its buffer holds zeros behind
    the data. -/
def VdiWriteFits (s : Vdi) (sectorNum : Nat) (data : List Sector) : Prop :=
  let last := sectorNum + data.length
  0 < last % vdiBlockSectors → s.bmap (last / vdiBlockSectors) = VDI_UNALLOCATED →
    ∀ p < vdiBlockSectors, last % vdiBlockSectors ≤ p →
      vdiStale s sectorNum data (last / vdiBlockSectors) p = 0

/-- What the image holds when the data is written up to `c`. -/
def vdiAfter (s : Vdi) (sectorNum : Nat) (data : List Sector) (c v : Nat) : Sector :=
  if sectorNum ≤ v ∧ v < c then data.getD (v - sectorNum) 0
  else if c ≤ v ∧ v / vdiBlockSectors = c / vdiBlockSectors ∧ 0 < c % vdiBlockSectors ∧
      s.bmap (v / vdiBlockSectors) = VDI_UNALLOCATED then
    vdiStale s sectorNum data (c / vdiBlockSectors) (v % vdiBlockSectors)
  else s.sector v

section

variable {s₀ s : Vdi} {a c : Nat} {data : List Sector} {acb : VdiAcb}

theorem vdiReused_start (s : Vdi) (a : Nat) : vdiReused s a (a / vdiBlockSectors) = none := by
  cases h : a / vdiBlockSectors with
  | zero => rfl
  | succ b => exact if_pos (by omega)

theorem vdiStale_start (s : Vdi) (a : Nat) (data : List Sector) (p : Nat) :
    vdiStale s a data (a / vdiBlockSectors) p = 0 := by
  unfold vdiStale
  rw [vdiReused_start]

theorem vdiReused_succ {b : Nat} (hb : a / vdiBlockSectors ≤ b) :
    vdiReused s a (b + 1) = if s.bmap b = VDI_UNALLOCATED then some b else vdiReused s a b := by
  rw [vdiReused, if_neg (Nat.not_lt.mpr hb)]

theorem vdiAfter_start (s : Vdi) (a : Nat) (data : List Sector) :
    vdiAfter s a data a = s.sector := by
  funext v
  unfold vdiAfter
  rw [if_neg (by omega)]
  split_ifs with h
  · obtain ⟨-, hblock, -, hfree⟩ := h
    rw [vdiStale_start]
    exact (content_none (Vdi.place_none hfree)).symm
  · rfl

/-! ### A request under way -/

/-- The data of a request is written up to `c`: blocks from there on are as they were, the buffer
    holds what is left of the last new block, and the changes of the block map are noted. -/
structure VdiProgress (s₀ : Vdi) (a : Nat) (data : List Sector) (c : Nat) (s : Vdi) (acb : VdiAcb) :
    Prop where
  valid : s.Valid
  header : s.header = { s₀.header with blocksAllocated := s.header.blocksAllocated }
  sectorNum : acb.advance.sectorNum = c
  buf : acb.advance.buf = data.drop (c - a)
  ge : a ≤ c
  le : c ≤ a + data.length
  edge : c = a ∨ c % vdiBlockSectors = 0 ∨ c = a + data.length
  later : ∀ b, c ≤ b * vdiBlockSectors ∨ c < a + data.length ∧ b = c / vdiBlockSectors →
    s.bmap b = s₀.bmap b
  sector : s.sector = vdiAfter s₀ a data c
  buffer : c < a + data.length → ∀ p < vdiBlockSectors,
    acb.blockBuffer.getD (fun _ => 0) p = vdiStale s₀ a data (c / vdiBlockSectors) p
  isSome : acb.blockBuffer.isSome = acb.bmapFirst.isSome ∧
    acb.headerModified = acb.bmapFirst.isSome
  same : acb.bmapFirst = none → s.bmap = s₀.bmap ∧ s.header = s₀.header
  changed : ∀ first, acb.bmapFirst = some first → first ≤ acb.bmapLast ∧
    acb.bmapLast * vdiBlockSectors < c ∧
    ∀ i, s.bmap i ≠ s₀.bmap i → first ≤ i ∧ i ≤ acb.bmapLast
  disk : ∀ k < s₀.dataSector, s.hd k = s₀.hd k

theorem VdiProgress.start (h : s₀.Valid) (a : Nat) (data : List Sector) :
    VdiProgress s₀ a data a s₀ (vdiAioSetup a data) := by
  refine ⟨h, rfl, rfl, ?_, le_rfl, Nat.le_add_right _ _, .inl rfl, fun _ _ => rfl,
    (vdiAfter_start s₀ a data).symm, fun _ p _ => (vdiStale_start s₀ a data p).symm, ⟨rfl, rfl⟩,
    fun _ => ⟨rfl, rfl⟩, fun first hfirst => (by cases hfirst), fun _ _ => rfl⟩
  rw [Nat.sub_self]
  rfl

theorem vdiPart_end {c n : Nat} (hn : n ≠ 0) :
    c < c + vdiPart c n ∧ c + vdiPart c n ≤ (c / vdiBlockSectors + 1) * vdiBlockSectors ∧
      (vdiPart c n = n ∨ c + vdiPart c n = (c / vdiBlockSectors + 1) * vdiBlockSectors) := by
  have hpos := vdiPart_pos (v := c) hn
  unfold vdiPart vdiBlockSectors at *
  omega

/-- Where the next part ends. -/
theorem vdiPart_edge {a c : Nat} {data : List Sector} (hc : c < a + data.length)
    (hedge : c = a ∨ c % vdiBlockSectors = 0 ∨ c = a + data.length) :
    c < c + vdiPart c (a + data.length - c) ∧
      c + vdiPart c (a + data.length - c) ≤ a + data.length ∧
      c + vdiPart c (a + data.length - c) ≤ (c / vdiBlockSectors + 1) * vdiBlockSectors ∧
      (c + vdiPart c (a + data.length - c) = a + data.length ∨
        c + vdiPart c (a + data.length - c) = (c / vdiBlockSectors + 1) * vdiBlockSectors) ∧
      (c = a ∨ c / vdiBlockSectors * vdiBlockSectors = c) := by
  have hend := vdiPart_end (c := c) (n := a + data.length - c) (by omega)
  have hle := vdiPart_le c (a + data.length - c)
  unfold vdiBlockSectors at *
  omega

/-- A part that is written to a block that was there. -/
theorem storeAt_after_alloc {c' : Nat} {l : List Sector}
    (hl : l = (data.drop (c - a)).take (c' - c)) (hac : a ≤ c) (hc : c ≤ c')
    (hc' : c' ≤ a + data.length)
    (hblock : c' ≤ (c / vdiBlockSectors + 1) * vdiBlockSectors)
    (halloc : s.bmap (c / vdiBlockSectors) ≠ VDI_UNALLOCATED) :
    storeAt (vdiAfter s a data c) c l = vdiAfter s a data c' := by
  have hlen : l.length = c' - c := by
    rw [hl, List.length_take, List.length_drop]
    omega
  funext v
  -- the part stays in its block, so nothing of a new block is in question
  have hafter : ∀ d, c ≤ d → d ≤ c' → ¬(d ≤ v ∧ v / vdiBlockSectors = d / vdiBlockSectors ∧
      0 < d % vdiBlockSectors ∧ s.bmap (v / vdiBlockSectors) = VDI_UNALLOCATED) := by
    rintro d hd hd' ⟨-, hv, hmod, hfree⟩
    have hsame : d / vdiBlockSectors = c / vdiBlockSectors := by
      unfold vdiBlockSectors at *
      omega
    rw [hv, hsame] at hfree
    exact halloc hfree
  unfold vdiAfter
  rw [if_neg (hafter c' hc le_rfl)]
  by_cases hin : c ≤ v ∧ v < c'
  · obtain ⟨i, rfl⟩ := Nat.exists_eq_add_of_le hin.1
    rw [storeAt_add _ _ (by omega), if_pos (by omega)]
    have hget : (c + i - a) < data.length := by omega
    rw [List.getD_eq_getElem _ _ hget]
    simp only [hl, List.getElem_take, List.getElem_drop]
    congr 1
    omega
  · have hother : storeAt (vdiAfter s a data c) c l v = vdiAfter s a data c v := by
      rcases Nat.lt_or_ge v c with hlt | hge
      · exact storeAt_of_lt hlt
      · exact storeAt_of_le (by omega)
    unfold vdiAfter at hother
    rw [hother, if_neg (hafter c le_rfl hc)]
    by_cases hbefore : a ≤ v ∧ v < c
    · rw [if_pos hbefore, if_pos ⟨hbefore.1, by omega⟩]
    · rw [if_neg hbefore, if_neg (by omega)]

/-- A part that is written to a block that is new, together with the rest of the buffer. -/
theorem storeAt_after_new {c' : Nat} {l : List Sector} {buffer : Nat → Sector}
    (hl : l = (data.drop (c - a)).take (c' - c)) (hac : a ≤ c) (hc : c < c')
    (hc' : c' ≤ a + data.length) (hblock : c' ≤ (c / vdiBlockSectors + 1) * vdiBlockSectors)
    (hend : c' = a + data.length ∨ c' = (c / vdiBlockSectors + 1) * vdiBlockSectors)
    (hstart : c = a ∨ c / vdiBlockSectors * vdiBlockSectors = c)
    (hfree : s.bmap (c / vdiBlockSectors) = VDI_UNALLOCATED)
    (hbuffer : ∀ p < vdiBlockSectors, buffer p = vdiStale s a data (c / vdiBlockSectors) p)
    {mem : Nat → Sector}
    (hmem : ∀ v, v / vdiBlockSectors ≠ c / vdiBlockSectors → mem v = vdiAfter s a data c v) :
    storeAt mem (c / vdiBlockSectors * vdiBlockSectors)
      (bytesAt (storeAt buffer (c % vdiBlockSectors) l) 0 vdiBlockSectors) =
      vdiAfter s a data c' := by
  have hlen : l.length = c' - c := by
    rw [hl, List.length_take, List.length_drop]
    omega
  funext v
  have hdiv := Nat.div_add_mod v vdiBlockSectors
  have hmod := Nat.mod_lt v vdiBlockSectors_pos
  by_cases hv : v / vdiBlockSectors = c / vdiBlockSectors
  swap
  -- another block
  · have hout : storeAt mem (c / vdiBlockSectors * vdiBlockSectors)
        (bytesAt (storeAt buffer (c % vdiBlockSectors) l) 0 vdiBlockSectors) v = mem v := by
      rcases Nat.lt_or_gt_of_ne hv with hlt | hgt
      · refine storeAt_of_lt ?_
        unfold vdiBlockSectors at *
        omega
      · refine storeAt_of_le ?_
        rw [length_bytesAt]
        unfold vdiBlockSectors at *
        omega
    rw [hout, hmem v hv]
    unfold vdiAfter
    have hnot : ¬(c ≤ v ∧ v / vdiBlockSectors = c / vdiBlockSectors ∧ 0 < c % vdiBlockSectors ∧
        s.bmap (v / vdiBlockSectors) = VDI_UNALLOCATED) := fun h => hv h.2.1
    have hnot' : ¬(c' ≤ v ∧ v / vdiBlockSectors = c' / vdiBlockSectors ∧
        0 < c' % vdiBlockSectors ∧ s.bmap (v / vdiBlockSectors) = VDI_UNALLOCATED) := by
      rintro ⟨-, h, hpos, -⟩
      unfold vdiBlockSectors at *
      omega
    rw [if_neg hnot, if_neg hnot']
    by_cases hbefore : a ≤ v ∧ v < c
    · rw [if_pos hbefore, if_pos ⟨hbefore.1, by omega⟩]
    · have hout' : ¬(a ≤ v ∧ v < c') := by
        unfold vdiBlockSectors at *
        omega
      rw [if_neg hbefore, if_neg hout']
  -- a sector of the new block
  · have hv' : v = c / vdiBlockSectors * vdiBlockSectors + v % vdiBlockSectors := by
      rw [← hv, Nat.mul_comm]
      exact hdiv.symm
    have hcdiv := Nat.div_add_mod c vdiBlockSectors
    have hbytes : storeAt mem (c / vdiBlockSectors * vdiBlockSectors)
        (bytesAt (storeAt buffer (c % vdiBlockSectors) l) 0 vdiBlockSectors) v =
        storeAt buffer (c % vdiBlockSectors) l (v % vdiBlockSectors) := by
      rw [hv', storeAt_add _ _ (by rw [length_bytesAt]; exact Nat.mod_lt _ vdiBlockSectors_pos)]
      simp [bytesAt]
    rw [hbytes]
    have hfree' : s.bmap (v / vdiBlockSectors) = VDI_UNALLOCATED := hv ▸ hfree
    rw [hv, Nat.mul_comm] at hdiv
    rw [Nat.mul_comm] at hcdiv
    unfold vdiAfter
    rcases Nat.lt_or_ge v c with hlt | hge
    -- in front of the data: the request begins here
    · obtain rfl : c = a := hstart.resolve_right fun h => by omega
      rw [storeAt_of_lt (by omega), hbuffer _ hmod, vdiStale_start, if_neg (by omega),
        if_neg (by omega)]
      exact (content_none (Vdi.place_none hfree')).symm
    · rcases Nat.lt_or_ge v c' with hlt | hge'
      · obtain ⟨i, rfl⟩ := Nat.exists_eq_add_of_le hge
        have hi : (c + i) % vdiBlockSectors = c % vdiBlockSectors + i := by omega
        rw [hi, storeAt_add _ _ (by omega), if_pos (by omega)]
        have hget : c + i - a < data.length := by omega
        rw [List.getD_eq_getElem _ _ hget]
        simp only [hl, List.getElem_take, List.getElem_drop]
        congr 1
        omega
      -- behind the data: the request ends here
      · have hlast : c' / vdiBlockSectors = c / vdiBlockSectors ∧ 0 < c' % vdiBlockSectors := by
          unfold vdiBlockSectors at *
          omega
        rw [storeAt_of_le (by omega), hbuffer _ hmod, if_neg (by omega),
          if_pos ⟨hge', hv.trans hlast.1.symm, hlast.2, hfree'⟩, hlast.1]

/-! ### The parts of a request -/

theorem VdiProgress.blocks (h : VdiProgress s₀ a data c s acb) : s.blocks = s₀.blocks := by
  unfold Vdi.blocks
  rw [h.header]

theorem VdiProgress.dataSector (h : VdiProgress s₀ a data c s acb) :
    s.dataSector = s₀.dataSector := by
  unfold Vdi.dataSector
  rw [h.header]

theorem VdiProgress.bmapSector (h : VdiProgress s₀ a data c s acb) :
    s.bmapSector = s₀.bmapSector := by
  unfold Vdi.bmapSector
  rw [h.header]

theorem VdiProgress.bmap_next (h : VdiProgress s₀ a data c s acb) (hc : c < a + data.length) :
    s.bmap (c / vdiBlockSectors) = s₀.bmap (c / vdiBlockSectors) :=
  h.later _ (.inr ⟨hc, rfl⟩)

/-- A part of a block that is there. -/
theorem VdiProgress.part_alloc (h : VdiProgress s₀ a data c s acb) (hc : c < a + data.length)
    (hin : a + data.length ≤ s₀.size)
    (halloc : s.bmap (c / vdiBlockSectors) ≠ VDI_UNALLOCATED) {n : Nat}
    (hn : n = vdiPart c (a + data.length - c)) :
    VdiProgress s₀ a data (c + n)
      (s.land (.data (s.blockSector (s.bmap (c / vdiBlockSectors)) + c % vdiBlockSectors)
        ((data.drop (c - a)).take n)))
      { acb.advance with nSectors := n } := by
  obtain ⟨hlt, hle, hblock, hend, hstart⟩ := vdiPart_edge hc h.edge
  rw [← hn] at hlt hle hblock hend
  have hge := h.ge
  have hlen : ((data.drop (c - a)).take n).length = n := by
    rw [List.length_take, List.length_drop]
    omega
  have hsector : s.blocks = s₀.blocks := h.blocks
  have hb : c / vdiBlockSectors < s.blocks := by
    rw [hsector]
    exact Vdi.block_lt (by omega)
  -- the part goes to its place in the block, the header is as before
  refine ⟨h.valid.land _, ?_, ?_, ?_, by omega, hle, ?_, ?_, ?_, ?_, h.isSome, ?_, ?_, ?_⟩
  · rw [Vdi.land_header]
    exact h.header
  · show acb.advance.sectorNum + n = c + n
    rw [h.sectorNum]
  · show acb.advance.buf.drop n = data.drop (c + n - a)
    rw [h.buf, List.drop_drop]
    congr 1
    omega
  · rcases hend with hlast | hnext
    · exact .inr (.inr hlast)
    · exact .inr (.inl (by rw [hnext]; exact Nat.mul_mod_left _ _))
  · intro b' hb'
    rw [Vdi.land_bmap]
    refine h.later b' (.inl ?_)
    rcases hb' with hb' | ⟨hmore, rfl⟩
    · omega
    · have hnext := hend.resolve_left (by omega)
      rw [hnext, Nat.mul_div_cancel _ vdiBlockSectors_pos]
      omega
  · rw [h.valid.land_data hb halloc (by rw [hlen]; unfold vdiBlockSectors at *; omega), h.sector]
    have hc' : c / vdiBlockSectors * vdiBlockSectors + c % vdiBlockSectors = c := by
      rw [Nat.mul_comm]
      exact Nat.div_add_mod c vdiBlockSectors
    rw [hc']
    refine storeAt_after_alloc ?_ hge (by omega) hle hblock (h.bmap_next hc ▸ halloc)
    rw [Nat.add_sub_cancel_left]
  · intro hmore p hp
    have hnext := hend.resolve_left (by omega)
    have hdiv : a / vdiBlockSectors ≤ c / vdiBlockSectors := Nat.div_le_div_right hge
    rw [hnext, Nat.mul_div_cancel _ vdiBlockSectors_pos, vdiStale, vdiReused_succ hdiv,
      if_neg (h.bmap_next hc ▸ halloc)]
    exact h.buffer hc p hp
  · rw [Vdi.land_bmap, Vdi.land_header]
    exact h.same
  · intro first hfirst
    obtain ⟨hfl, hlast, hchanged⟩ := h.changed first hfirst
    rw [Vdi.land_bmap]
    exact ⟨hfl, Nat.lt_trans hlast hlt, hchanged⟩
  · intro k hk
    rw [← h.dataSector] at hk
    refine (storeAt_of_lt ?_).trans (h.disk k (h.dataSector ▸ hk))
    unfold Vdi.blockSector
    omega

/-- The buffer after a part that ends with the block. -/
theorem vdiBuffer_new {n p : Nat} {buffer : Nat → Sector} (hn : c + n ≤ a + data.length)
    (hac : a ≤ c) (hnext : c + n = (c / vdiBlockSectors + 1) * vdiBlockSectors)
    (hstart : c = a ∨ c / vdiBlockSectors * vdiBlockSectors = c) (hp : p < vdiBlockSectors)
    (hbuffer : buffer p = vdiStale s a data (c / vdiBlockSectors) p) :
    storeAt buffer (c % vdiBlockSectors) ((data.drop (c - a)).take n) p =
      if a ≤ c / vdiBlockSectors * vdiBlockSectors + p then
        data.getD (c / vdiBlockSectors * vdiBlockSectors + p - a) 0
      else 0 := by
  have hlen : ((data.drop (c - a)).take n).length = n := by
    rw [List.length_take, List.length_drop]
    omega
  have hcdiv := Nat.div_add_mod c vdiBlockSectors
  rw [Nat.mul_comm] at hcdiv
  rw [Nat.add_mul, Nat.one_mul] at hnext
  rcases Nat.lt_or_ge p (c % vdiBlockSectors) with hlt | hge
  · obtain rfl : c = a := hstart.resolve_right fun h => by omega
    rw [storeAt_of_lt hlt, hbuffer, vdiStale_start, if_neg (by omega)]
  · obtain ⟨i, rfl⟩ := Nat.exists_eq_add_of_le hge
    rw [storeAt_add _ _ (by omega), if_pos (by omega), List.getD_eq_getElem _ _ (by omega)]
    simp only [List.getElem_take, List.getElem_drop]
    congr 1
    omega

/-- A part of a new block. -/
theorem VdiProgress.part_new (h : VdiProgress s₀ a data c s acb) (hc : c < a + data.length)
    (hin : a + data.length ≤ s₀.size)
    (hfree : s.bmap (c / vdiBlockSectors) = VDI_UNALLOCATED) {n : Nat}
    (hn : n = vdiPart c (a + data.length - c)) {r : Vdi × VdiAcb × VdiIo}
    (hr : r = vdiAllocate s { acb.advance with nSectors := n } (c / vdiBlockSectors)) :
    VdiProgress s₀ a data (c + n) (r.1.land r.2.2) r.2.1 := by
  obtain ⟨hlt, hle, hblock, hend, hstart⟩ := vdiPart_edge hc h.edge
  rw [← hn] at hlt hle hblock hend
  have hsector : s.blocks = s₀.blocks := h.blocks
  have hb : c / vdiBlockSectors < s.blocks := by
    rw [hsector]
    exact Vdi.block_lt (by omega)
  have hge := h.ge
  have hvalid := h.valid.newBlock hb hfree
  have hbuf : (acb.advance.buf.take n) = (data.drop (c - a)).take n := by rw [h.buf]
  have hfirst : (if acb.blockBuffer.isNone = true then some (c / vdiBlockSectors)
      else acb.bmapFirst).isSome = true := by
    split_ifs with hnew
    · rfl
    · rw [← h.isSome.1]
      cases hbuffer : acb.blockBuffer with
      | none => exact absurd (congrArg Option.isNone hbuffer) hnew
      | some _ => rfl
  unfold vdiAllocate at hr
  dsimp only at hr
  rw [h.sectorNum, hbuf] at hr
  subst hr
  refine ⟨hvalid.land _, ?_, ?_, ?_, by omega, hle, ?_, ?_, ?_, ?_, ?_, ?_, ?_, ?_⟩
  · rw [Vdi.land_header]
    show ({ s.header with blocksAllocated := _ } : VdiHeader) = _
    rw [h.header]
    rfl
  · rfl
  · show acb.advance.buf.drop n = data.drop (c + n - a)
    rw [h.buf, List.drop_drop]
    congr 1
    omega
  · rcases hend with hlast | hnext
    · exact .inr (.inr hlast)
    · exact .inr (.inl (by rw [hnext]; exact Nat.mul_mod_left _ _))
  · intro b' hb'
    have hne : c ≤ b' * vdiBlockSectors ∧ b' ≠ c / vdiBlockSectors := by
      rcases hb' with hb' | ⟨hmore, rfl⟩
      · refine ⟨by omega, ?_⟩
        rintro rfl
        have hself : c / vdiBlockSectors * vdiBlockSectors ≤ c := Nat.div_mul_le_self ..
        omega
      · have hnext := hend.resolve_left (by omega)
        rw [hnext, Nat.mul_div_cancel _ vdiBlockSectors_pos]
        exact ⟨by omega, by omega⟩
    rw [Vdi.land_bmap, Vdi.newBlock_bmap_of_ne s hne.2]
    exact h.later b' (.inl hne.1)
  · have hentry : (s.newBlock (c / vdiBlockSectors)).bmap (c / vdiBlockSectors) ≠
        VDI_UNALLOCATED := by
      rw [Vdi.newBlock_bmap_self]
      exact h.valid.allocated_ne hb hfree
    have hland := hvalid.land_block hb hentry (length_bytesAt (storeAt
      (acb.blockBuffer.getD fun _ => 0) (c % vdiBlockSectors) ((data.drop (c - a)).take n)) 0 _)
    rw [Vdi.newBlock_bmap_self] at hland
    refine hland.trans (storeAt_after_new ?_ hge hlt hle hblock hend hstart
      ((h.bmap_next hc).symm.trans hfree) (h.buffer hc) fun v hv => ?_)
    · rw [Nat.add_sub_cancel_left]
    · rw [h.valid.newBlock_sector hb hfree hv, h.sector]
  · intro hmore p hp
    have hnext := hend.resolve_left (by omega)
    have hdiv : a / vdiBlockSectors ≤ c / vdiBlockSectors := Nat.div_le_div_right hge
    rw [hnext, Nat.mul_div_cancel _ vdiBlockSectors_pos, vdiStale, vdiReused_succ hdiv,
      if_pos ((h.bmap_next hc).symm.trans hfree)]
    exact vdiBuffer_new hle hge hnext hstart hp (h.buffer hc p hp)
  · show true = (if acb.blockBuffer.isNone = true then _ else acb.bmapFirst).isSome ∧
      (acb.headerModified || acb.blockBuffer.isNone) =
        (if acb.blockBuffer.isNone = true then _ else acb.bmapFirst).isSome
    rw [hfirst]
    refine ⟨rfl, ?_⟩
    rw [h.isSome.2, ← h.isSome.1]
    cases acb.blockBuffer <;> rfl
  · intro hnone
    rw [← Option.not_isSome_iff_eq_none] at hnone
    exact absurd hfirst hnone
  · intro first hsome
    have hself : c / vdiBlockSectors * vdiBlockSectors ≤ c := Nat.div_mul_le_self ..
    have hlast : c / vdiBlockSectors * vdiBlockSectors < c + n := by omega
    rw [Vdi.land_bmap]
    change (if acb.blockBuffer.isNone = true then some (c / vdiBlockSectors) else acb.bmapFirst) =
      some first at hsome
    show first ≤ c / vdiBlockSectors ∧ c / vdiBlockSectors * vdiBlockSectors < c + n ∧
      ∀ i, (s.newBlock (c / vdiBlockSectors)).bmap i ≠ s₀.bmap i →
        first ≤ i ∧ i ≤ c / vdiBlockSectors
    split_ifs at hsome with hnew
    -- the first new block
    · obtain rfl := Option.some.inj hsome
      have hnone : acb.bmapFirst = none := by
        rw [← Option.not_isSome_iff_eq_none, ← h.isSome.1]
        simpa using hnew
      refine ⟨le_rfl, hlast, fun i hi => ?_⟩
      have hi : i = c / vdiBlockSectors := by
        by_contra hne
        rw [Vdi.newBlock_bmap_of_ne s hne, (h.same hnone).1] at hi
        exact hi rfl
      exact ⟨hi.ge, hi.le⟩
    · obtain ⟨hfl, hbefore, hchanged⟩ := h.changed first hsome
      have hle' : acb.bmapLast ≤ c / vdiBlockSectors := by
        rw [Nat.le_div_iff_mul_le vdiBlockSectors_pos]
        omega
      refine ⟨hfl.trans hle', hlast, fun i hi => ?_⟩
      by_cases hself : i = c / vdiBlockSectors
      · exact ⟨hself ▸ hfl.trans hle', hself.le⟩
      · rw [Vdi.newBlock_bmap_of_ne s hself] at hi
        exact ⟨(hchanged i hi).1, (hchanged i hi).2.trans hle'⟩
  · intro k hk
    rw [← h.dataSector] at hk
    refine (storeAt_of_lt ?_).trans (h.disk k (h.dataSector ▸ hk))
    exact Nat.lt_of_lt_of_le hk (Nat.le_add_right _ _)

/-- A part allocates its block or writes to it. -/
theorem vdiWritePart_eq (s : Vdi) (acb : VdiAcb) : vdiWritePart s acb =
    if s.bmap (acb.sectorNum / vdiBlockSectors) = VDI_UNALLOCATED then
      vdiAllocate s { acb with nSectors := vdiPart acb.sectorNum acb.buf.length }
        (acb.sectorNum / vdiBlockSectors)
    else
      (s, { acb with nSectors := vdiPart acb.sectorNum acb.buf.length },
        .data (s.blockSector (s.bmap (acb.sectorNum / vdiBlockSectors)) +
            acb.sectorNum % vdiBlockSectors)
          (acb.buf.take (vdiPart acb.sectorNum acb.buf.length))) := rfl

/-- A part of a request. -/
theorem VdiProgress.part (h : VdiProgress s₀ a data c s acb) (hc : c < a + data.length)
    (hin : a + data.length ≤ s₀.size) {r : Vdi × VdiAcb × VdiIo}
    (hr : r = vdiWritePart s acb.advance) :
    VdiProgress s₀ a data (c + vdiPart c (a + data.length - c)) (r.1.land r.2.2) r.2.1 := by
  have hlen : acb.advance.buf.length = a + data.length - c := by
    have hge := h.ge
    rw [h.buf, List.length_drop]
    omega
  rw [vdiWritePart_eq, hlen] at hr
  obtain rfl := h.sectorNum
  split_ifs at hr with hfree
  · exact h.part_new hc hin hfree rfl hr
  · have halloc := h.part_alloc hc hin hfree rfl
    rw [← h.buf] at halloc
    subst hr
    exact halloc

/-! ### The end of a request -/

/-- What a write leaves. -/
structure VdiWritten (s₀ : Vdi) (a : Nat) (data : List Sector) (s : Vdi) : Prop where
  valid : s.Valid
  header : s.header = { s₀.header with blocksAllocated := s.header.blocksAllocated }
  sector : s.sector = vdiAfter s₀ a data (a + data.length)
  synced : s₀.Synced → s.Synced

theorem VdiProgress.buf_nil (h : VdiProgress s₀ a data (a + data.length) s acb) :
    acb.advance.buf.length = 0 := by
  rw [h.buf, Nat.add_sub_cancel_left, List.drop_length]
  rfl

theorem VdiProgress.bmapSector_lt (h : VdiProgress s₀ a data c s acb) {k : Nat}
    (hk : k < vdiBmapSectors s.blocks) : s.bmapSector + k < s₀.dataSector := by
  have hle := h.valid.bmap_le
  rw [h.dataSector] at hle
  omega

theorem VdiProgress.dataSector_pos (h : VdiProgress s₀ a data c s acb) : 0 < s₀.dataSector := by
  have hle := h.valid.bmap_le
  have hpos := h.valid.bmap_pos
  rw [h.dataSector] at hle
  omega

theorem VdiProgress.synced_same (h : VdiProgress s₀ a data c s acb)
    (hsame : s.bmap = s₀.bmap ∧ s.header = s₀.header) (hsynced : s₀.Synced) : s.Synced := by
  refine ⟨?_, fun k hk => ?_⟩
  · rw [h.disk 0 h.dataSector_pos, hsame.2]
    exact hsynced.header
  · rw [h.disk _ (h.bmapSector_lt hk), hsame.1, h.bmapSector]
    exact hsynced.bmap k (h.blocks ▸ hk)

/-- Sectors of the block map without a change. -/
theorem vdiBmapSector_congr {bmap bmap' : Nat → BitVec 32} {k : Nat}
    (h : ∀ i < vdiSectorEntries, bmap (vdiSectorEntries * k + i) =
      bmap' (vdiSectorEntries * k + i)) : vdiBmapSector bmap k = vdiBmapSector bmap' k := by
  have hfold : ∀ (l : List Nat) (acc : Sector), (∀ i ∈ l, i < vdiSectorEntries) →
      l.foldl (fun acc i => acc ||| sectorField (bmap (vdiSectorEntries * k + i)) (4 * i)) acc =
        l.foldl (fun acc i => acc ||| sectorField (bmap' (vdiSectorEntries * k + i)) (4 * i))
          acc := by
    intro l
    induction l with
    | nil => exact fun _ _ => rfl
    | cons i l ih =>
      intro acc hl
      rw [List.foldl_cons, List.foldl_cons, h i (hl i List.mem_cons_self)]
      exact ih _ fun j hj => hl j (List.mem_cons_of_mem _ hj)
  exact hfold _ _ fun i hi => List.mem_range.mp hi

/-- The header and some sectors of the block map are written. -/
def Vdi.landMeta (s : Vdi) (first n : Nat) : Vdi :=
  (s.land (.header (vdiHeaderToLe s.header))).land (.bmap first n)

theorem Vdi.landMeta_header (s : Vdi) {first n : Nat} (hpos : 0 < s.bmapSector) :
    (s.landMeta first n).hd 0 = vdiHeaderToLe s.header := by
  have hheader : (s.land (.header (vdiHeaderToLe s.header))).hd 0 = vdiHeaderToLe s.header := rfl
  exact (storeAt_of_lt (Nat.lt_of_lt_of_le hpos (Nat.le_add_right _ _))).trans hheader

theorem Vdi.landMeta_written (s : Vdi) {first n k : Nat} (hk : first ≤ k) (hk' : k < first + n) :
    (s.landMeta first n).hd (s.bmapSector + k) = vdiBmapSector s.bmap k := by
  obtain ⟨i, rfl⟩ := Nat.exists_eq_add_of_le hk
  have hlen : i < ((List.range n).map fun k => vdiBmapSector s.bmap (first + k)).length := by
    rw [List.length_map, List.length_range]
    omega
  have hland := storeAt_add (s.land (.header (vdiHeaderToLe s.header))).hd (s.bmapSector + first)
    hlen
  rw [List.getElem_map, List.getElem_range, Nat.add_assoc] at hland
  exact hland

/-- The others are as they were. -/
theorem Vdi.landMeta_other (s : Vdi) {first n k : Nat} (hpos : 0 < k)
    (hk : k < s.bmapSector + first ∨ s.bmapSector + first + n ≤ k) :
    (s.landMeta first n).hd k = s.hd k := by
  have hheader : (s.land (.header (vdiHeaderToLe s.header))).hd k = s.hd k := by
    have hle : 0 + [vdiHeaderToLe s.header].length ≤ k := by
      show 0 + 1 ≤ k
      omega
    exact storeAt_of_le hle
  refine Eq.trans ?_ hheader
  rcases hk with hlt | hge
  · exact storeAt_of_lt hlt
  · refine storeAt_of_le ?_
    rw [List.length_map, List.length_range]
    exact hge

/-- Blocks were allocated, and the header and the sectors of the block map that changed are
    written. -/
theorem VdiProgress.synced_changed (h : VdiProgress s₀ a data c s acb) {first : Nat}
    (hfirst : acb.bmapFirst = some first) (hsynced : s₀.Synced) :
    (s.landMeta (first / vdiSectorEntries)
      (acb.bmapLast / vdiSectorEntries - first / vdiSectorEntries + 1)).Synced := by
  obtain ⟨hle, -, hchanged⟩ := h.changed first hfirst
  have hdiv : first / vdiSectorEntries ≤ acb.bmapLast / vdiSectorEntries :=
    Nat.div_le_div_right hle
  have hpos := h.valid.bmap_pos
  refine ⟨s.landMeta_header hpos, fun k hk => ?_⟩
  by_cases hin : first / vdiSectorEntries ≤ k ∧ k ≤ acb.bmapLast / vdiSectorEntries
  · exact s.landMeta_written hin.1 (by omega)
  -- the entries of this sector did not change
  · have hsame : vdiBmapSector s.bmap k = vdiBmapSector s₀.bmap k := by
      refine vdiBmapSector_congr fun i hi => ?_
      by_contra hne
      obtain ⟨hge, hle⟩ := hchanged _ hne
      have hk : (vdiSectorEntries * k + i) / vdiSectorEntries = k := by
        unfold vdiSectorEntries at *
        omega
      exact hin ⟨hk ▸ Nat.div_le_div_right hge, hk ▸ Nat.div_le_div_right hle⟩
    have hout : s.bmapSector + k < s.bmapSector + first / vdiSectorEntries ∨
        s.bmapSector + first / vdiSectorEntries +
          (acb.bmapLast / vdiSectorEntries - first / vdiSectorEntries + 1) ≤ s.bmapSector + k := by
      omega
    refine (s.landMeta_other (by omega) hout).trans ?_
    show _ = vdiBmapSector s.bmap k
    rw [hsame, h.disk _ (h.bmapSector_lt hk), h.bmapSector]
    exact hsynced.bmap k (h.blocks ▸ hk)

theorem vdiWriteLoop_some {s s' : Vdi} {acb acb' : VdiAcb} {io : VdiIo}
    (h : vdiAioWriteCb s acb = (s', acb', some io)) (fuel : Nat) :
    vdiWriteLoop (fuel + 1) s acb = vdiWriteLoop fuel (s'.land io) acb' := by
  rw [vdiWriteLoop, h]

theorem vdiWriteLoop_none {s s' : Vdi} {acb acb' : VdiAcb}
    (h : vdiAioWriteCb s acb = (s', acb', none)) (fuel : Nat) :
    vdiWriteLoop (fuel + 1) s acb = some s' := by
  rw [vdiWriteLoop, h]

theorem VdiAcb.advance_nil (h : acb.buf.length = 0) {acb' : VdiAcb} (hn : acb'.nSectors = 0)
    (hbuf : acb'.buf = acb.buf) : acb'.advance.buf.length = 0 := by
  rw [VdiAcb.advance, hn, List.drop_zero, hbuf]
  exact h

theorem vdiFinish_header (s : Vdi) (hmod : acb.headerModified = true) :
    vdiFinish s acb = ({ acb with
      nSectors := 0
      headerModified := false
      blockBuffer := acb.blockBuffer.map fun block => storeAt block 0 [vdiHeaderToLe s.header] },
      some (.header (vdiHeaderToLe s.header))) := by
  rw [vdiFinish, if_pos hmod]

theorem vdiFinish_bmap (s : Vdi) (hmod : acb.headerModified = false) {first : Nat}
    (hfirst : acb.bmapFirst = some first) :
    vdiFinish s acb = ({ acb with nSectors := 0, bmapFirst := none, blockBuffer := none },
      some (.bmap (first / vdiSectorEntries)
        (acb.bmapLast / vdiSectorEntries - first / vdiSectorEntries + 1))) := by
  simp [vdiFinish, hmod, hfirst]

theorem vdiFinish_none (s : Vdi) (hmod : acb.headerModified = false)
    (hfirst : acb.bmapFirst = none) : vdiFinish s acb = ({ acb with nSectors := 0 }, none) := by
  simp [vdiFinish, hmod, hfirst]

/-- The header is written first. -/
theorem vdiAioWriteCb_header (s : Vdi) (hbuf : acb.advance.buf.length = 0)
    (hmod : acb.advance.headerModified = true) : ∃ acb',
      vdiAioWriteCb s acb = (s, acb', some (.header (vdiHeaderToLe s.header))) ∧
        acb'.advance.buf.length = 0 ∧ acb'.advance.headerModified = false ∧
        acb'.advance.bmapFirst = acb.bmapFirst ∧ acb'.advance.bmapLast = acb.bmapLast := by
  have hfinish := vdiFinish_header s hmod
  refine ⟨(vdiFinish s acb.advance).1, ?_, VdiAcb.advance_nil hbuf ?_ ?_, ?_, ?_, ?_⟩
  · rw [vdiAioWriteCb, if_pos hbuf, hfinish]
  all_goals
    rw [hfinish]
    try rfl

/-- Then the block map is written. -/
theorem vdiAioWriteCb_bmap (s : Vdi) (hbuf : acb.advance.buf.length = 0)
    (hmod : acb.advance.headerModified = false) {first : Nat}
    (hfirst : acb.advance.bmapFirst = some first) : ∃ acb', vdiAioWriteCb s acb =
      (s, acb', some (.bmap (first / vdiSectorEntries)
        (acb.advance.bmapLast / vdiSectorEntries - first / vdiSectorEntries + 1))) ∧
        acb'.advance.buf.length = 0 ∧ acb'.advance.headerModified = false ∧
        acb'.advance.bmapFirst = none := by
  have hfinish := vdiFinish_bmap s hmod hfirst
  refine ⟨(vdiFinish s acb.advance).1, ?_, VdiAcb.advance_nil hbuf ?_ ?_, ?_, ?_⟩
  · rw [vdiAioWriteCb, if_pos hbuf, hfinish]
  · rw [hfinish]
  · rw [hfinish]
  · rw [hfinish]
    exact hmod
  · rw [hfinish]
    rfl

theorem vdiAioWriteCb_none (s : Vdi) (hbuf : acb.advance.buf.length = 0)
    (hmod : acb.advance.headerModified = false) (hfirst : acb.advance.bmapFirst = none) :
    vdiAioWriteCb s acb = (s, { acb.advance with nSectors := 0 }, none) := by
  rw [vdiAioWriteCb, if_pos hbuf, vdiFinish_none s hmod hfirst]

theorem VdiProgress.finish_same (h : VdiProgress s₀ a data (a + data.length) s acb)
    (hnone : acb.bmapFirst = none) (fuel : Nat) :
    vdiWriteLoop (fuel + 1) s acb = some s ∧ VdiWritten s₀ a data s := by
  have hmod : acb.advance.headerModified = false := h.isSome.2.trans (by rw [hnone]; rfl)
  have hfirst : acb.advance.bmapFirst = none := hnone
  exact ⟨vdiWriteLoop_none (vdiAioWriteCb_none s h.buf_nil hmod hfirst) fuel,
    h.valid, h.header, h.sector, h.synced_same (h.same hnone)⟩

/-- The end of a request that allocated blocks. -/
theorem VdiProgress.finish_changed (h : VdiProgress s₀ a data (a + data.length) s acb)
    (hin : a + data.length ≤ s₀.size) {first : Nat} (hfirst : acb.bmapFirst = some first)
    (fuel : Nat) : ∃ s', vdiWriteLoop (fuel + 3) s acb = some s' ∧ VdiWritten s₀ a data s' := by
  obtain ⟨hle, hlast, -⟩ := h.changed first hfirst
  have hblocks : acb.bmapLast < s₀.blocks := by
    unfold Vdi.size at hin
    exact Nat.lt_of_mul_lt_mul_right (Nat.lt_of_lt_of_le hlast hin)
  have hdiv : first / vdiSectorEntries ≤ acb.bmapLast / vdiSectorEntries :=
    Nat.div_le_div_right hle
  have hmap : first / vdiSectorEntries +
      (acb.bmapLast / vdiSectorEntries - first / vdiSectorEntries + 1) ≤
      vdiBmapSectors s.blocks := by
    rw [h.blocks]
    unfold vdiBmapSectors vdiSectorEntries at *
    omega
  have hmod : acb.advance.headerModified = true := h.isSome.2.trans (by rw [hfirst]; rfl)
  refine ⟨s.landMeta (first / vdiSectorEntries)
    (acb.bmapLast / vdiSectorEntries - first / vdiSectorEntries + 1), ?_,
    (h.valid.land _).land _, h.header, ?_, h.synced_changed hfirst⟩
  -- the header, the block map, and nothing more
  · obtain ⟨acb₁, hcb₁, hbuf₁, hmod₁, hfirst₁, hlast₁⟩ := vdiAioWriteCb_header s h.buf_nil hmod
    obtain ⟨acb₂, hcb₂, hbuf₂, hmod₂, hfirst₂⟩ :=
      vdiAioWriteCb_bmap (s.land (.header (vdiHeaderToLe s.header))) hbuf₁ hmod₁
        (hfirst₁.trans hfirst)
    rw [vdiWriteLoop_some hcb₁, vdiWriteLoop_some hcb₂, hlast₁,
      vdiWriteLoop_none (vdiAioWriteCb_none _ hbuf₂ hmod₂ hfirst₂)]
    rfl
  · rw [Vdi.landMeta, (h.valid.land _).land_bmap_sector hmap, h.valid.land_header_sector, h.sector]

/-! ### Whole requests -/

/-- The callbacks of a request take it to its end. -/
theorem VdiProgress.loop (hin : a + data.length ≤ s₀.size) {fuel : Nat}
    (h : VdiProgress s₀ a data c s acb) (hfuel : a + data.length - c + 3 ≤ fuel) :
    ∃ s', vdiWriteLoop fuel s acb = some s' ∧ VdiWritten s₀ a data s' := by
  induction fuel generalizing c s acb with
  | zero => exact absurd hfuel (Nat.not_succ_le_zero _)
  | succ fuel ih =>
    have hle := h.le
    rcases Nat.lt_or_ge c (a + data.length) with hc | hend
    -- there is data left
    · have hlen : acb.advance.buf.length ≠ 0 := by
        have hge := h.ge
        rw [h.buf, List.length_drop]
        omega
      have hpos := vdiPart_pos (v := c) (n := a + data.length - c) (by omega)
      obtain ⟨s', hloop, hwritten⟩ := ih (h.part hc hin rfl) (by omega)
      refine ⟨s', ?_, hwritten⟩
      rw [vdiWriteLoop, vdiAioWriteCb, if_neg hlen]
      exact hloop
    · obtain rfl : c = a + data.length := Nat.le_antisymm hle hend
      cases hfirst : acb.bmapFirst with
      | none => exact ⟨s, h.finish_same hfirst fuel⟩
      | some first =>
        obtain ⟨fuel, rfl⟩ := Nat.exists_eq_add_of_le (Nat.le_of_succ_le_succ hfuel)
        have hsum : a + data.length - (a + data.length) + 2 + fuel + 1 = fuel + 3 := by omega
        rw [hsum]
        exact h.finish_changed hin hfirst fuel

/-- **A write.**  A request in the image is completed. -/
theorem vdiWrite_eq (h : s₀.Valid) (hin : a + data.length ≤ s₀.size) :
    ∃ s', vdiWrite s₀ a data = some s' ∧ VdiWritten s₀ a data s' :=
  (VdiProgress.start h a data).loop hin (by omega)

theorem VdiWritten.blocks (h : VdiWritten s₀ a data s) : s.blocks = s₀.blocks := by
  unfold Vdi.blocks
  rw [h.header]

theorem VdiWritten.size (h : VdiWritten s₀ a data s) : s.size = s₀.size := by
  unfold Vdi.size
  rw [h.blocks]

/-- A write that fits changes what it writes and nothing else. -/
theorem VdiWritten.sector_fits (h : VdiWritten s₀ a data s) (hfits : VdiWriteFits s₀ a data) :
    s.sector = storeAt s₀.sector a data := by
  rw [h.sector]
  funext v
  unfold vdiAfter
  by_cases hwrite : a ≤ v ∧ v < a + data.length
  · obtain ⟨i, rfl⟩ := Nat.exists_eq_add_of_le hwrite.1
    have hi : i < data.length := by omega
    rw [if_pos hwrite, storeAt_add _ _ hi, Nat.add_sub_cancel_left, List.getD_eq_getElem _ _ hi]
  · have hout : storeAt s₀.sector a data v = s₀.sector v := by
      rcases Nat.lt_or_ge v a with hlt | hge
      · exact storeAt_of_lt hlt
      · exact storeAt_of_le (by omega)
    rw [if_neg hwrite, hout]
    split_ifs with hbehind
    · obtain ⟨hge, hblock, hpos, hfree⟩ := hbehind
      have hmod : (a + data.length) % vdiBlockSectors ≤ v % vdiBlockSectors := by
        unfold vdiBlockSectors at *
        omega
      rw [hfits hpos (hblock ▸ hfree) _ (Nat.mod_lt _ vdiBlockSectors_pos) hmod]
      exact (content_none (Vdi.place_none hfree)).symm
    · rfl

/-- A write that does not fit leaves something behind its end. -/
theorem VdiWritten.not_fits (h : VdiWritten s₀ a data s) (hin : a + data.length ≤ s₀.size)
    (hfits : ¬VdiWriteFits s₀ a data) :
    ∃ v < s₀.size, s₀.sector v = 0 ∧ storeAt s₀.sector a data v = 0 ∧ s.sector v ≠ 0 := by
  simp only [VdiWriteFits, not_forall] at hfits
  obtain ⟨hpos, hfree, p, hp, hge, hstale⟩ := hfits
  have hsplit := Nat.div_add_mod (a + data.length) vdiBlockSectors
  rw [Nat.mul_comm] at hsplit
  have hdiv : ((a + data.length) / vdiBlockSectors * vdiBlockSectors + p) / vdiBlockSectors =
      (a + data.length) / vdiBlockSectors := by
    rw [Nat.mul_comm, Nat.mul_add_div vdiBlockSectors_pos, Nat.div_eq_of_lt hp, Nat.add_zero]
  have hmod : ((a + data.length) / vdiBlockSectors * vdiBlockSectors + p) % vdiBlockSectors =
      p := by
    rw [Nat.mul_comm, Nat.mul_add_mod, Nat.mod_eq_of_lt hp]
  have hfree' : s₀.bmap (((a + data.length) / vdiBlockSectors * vdiBlockSectors + p) /
      vdiBlockSectors) = VDI_UNALLOCATED := hdiv.symm ▸ hfree
  have hzero : s₀.sector ((a + data.length) / vdiBlockSectors * vdiBlockSectors + p) = 0 :=
    content_none (Vdi.place_none hfree')
  refine ⟨(a + data.length) / vdiBlockSectors * vdiBlockSectors + p, ?_, hzero, ?_, ?_⟩
  · have hblock : (a + data.length) / vdiBlockSectors < s₀.blocks := by
      unfold Vdi.size vdiBlockSectors at *
      omega
    unfold Vdi.size vdiBlockSectors at *
    omega
  · rw [storeAt_of_le (by omega)]
    exact hzero
  · rw [h.sector]
    unfold vdiAfter
    rw [if_neg (by omega), if_pos ⟨by omega, hdiv, hpos, hfree'⟩, hmod]
    exact hstale

end

end Qemu.Block
