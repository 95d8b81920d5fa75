import Qemu.Block.Vpc
import Mathlib.Data.Finset.Card

namespace Qemu.Block

open Lib

/-!
# What VPC images hold

* `Vpc.sector` — what an image holds, and `vpcRead_eq` — what reads return;
* `Vpc.Inv` — blocks have places of their own, and the file is empty behind them;
* `Vpc.Inv.write_sector` — a write of a sector, if no block is allocated after a failed allocation.
-/

/-! ### Images -/

/-- Where a block of the image is in the file. -/
def Vpc.place (s : Vpc) (i : Nat) : Option Nat :=
  if i < s.maxTableEntries ∧ s.pagetable i ≠ VPC_UNALLOCATED then
    some ((s.pagetable i).toNat + vpcBitmapSectors)
  else none

/-- What a sector of the image holds. -/
def Vpc.sector (s : Vpc) (v : Nat) : VpcSector :=
  content vpcBlockSectors s.place s.file.content vpcZero v

/-- Blocks are apart, with their bitmaps. -/
def Vpc.Separate (s : Vpc) : Prop :=
  ∀ i < s.maxTableEntries, ∀ j < s.maxTableEntries, i ≠ j →
    s.pagetable i ≠ VPC_UNALLOCATED → s.pagetable j ≠ VPC_UNALLOCATED →
      (s.pagetable i).toNat + (vpcBlockSectors + vpcBitmapSectors) ≤ (s.pagetable j).toNat ∨
        (s.pagetable j).toNat + (vpcBlockSectors + vpcBitmapSectors) ≤ (s.pagetable i).toNat

/-- No allocation has failed. -/
def Vpc.NoneFailed (s : Vpc) : Prop :=
  ∀ i < s.maxTableEntries, s.pagetable i ≠ BitVec.ofNat 32 s.freeDataBlock

/-- Blocks have places of their own, in front of the first free one, except for one that an
    allocation has left there that failed.  If none did, there is nothing behind. -/
structure Vpc.Inv (p : VpcParams) (s : Vpc) : Prop where
  entries : s.maxTableEntries = p.batEntries
  total : s.totalSectors = p.totalSectors
  footer : s.footerBuf = vpcFooterWith p 0
  separate : s.Separate
  within : ∀ i < s.maxTableEntries, s.pagetable i ≠ VPC_UNALLOCATED →
    p.firstFree ≤ (s.pagetable i).toNat ∧
      ((s.pagetable i).toNat + (vpcBlockSectors + vpcBitmapSectors) ≤ s.freeDataBlock ∨
        (s.pagetable i).toNat = s.freeDataBlock)
  count : s.freeDataBlock = p.firstFree + (vpcBlockSectors + vpcBitmapSectors) *
    ((Finset.range s.maxTableEntries).filter fun i => s.pagetable i ≠ VPC_UNALLOCATED ∧
      s.pagetable i ≠ BitVec.ofNat 32 s.freeDataBlock).card
  rest : s.NoneFailed → ∀ k, s.freeDataBlock < k → s.file.content k = vpcZero

section

variable {p : VpcParams} {s s' : Vpc} {v b : Nat}

theorem Vpc.place_some (hb : b < s.maxTableEntries) (halloc : s.pagetable b ≠ VPC_UNALLOCATED) :
    s.place b = some ((s.pagetable b).toNat + vpcBitmapSectors) :=
  if_pos ⟨hb, halloc⟩

theorem Vpc.place_none (hfree : s.pagetable b = VPC_UNALLOCATED) : s.place b = none :=
  if_neg fun h => h.2 hfree

theorem Vpc.place_eq_some {o : Nat} (h : s.place b = some o) :
    b < s.maxTableEntries ∧ s.pagetable b ≠ VPC_UNALLOCATED ∧
      o = (s.pagetable b).toNat + vpcBitmapSectors := by
  unfold Vpc.place at h
  split_ifs at h with hb
  exact ⟨hb.1, hb.2, (Option.some.inj h).symm⟩

theorem Vpc.Separate.separated (h : s.Separate) : Separated vpcBlockSectors s.place := by
  intro i o j o' ho ho' hne
  obtain ⟨hi, halloc, rfl⟩ := Vpc.place_eq_some ho
  obtain ⟨hj, halloc', rfl⟩ := Vpc.place_eq_some ho'
  rcases h i hi j hj hne halloc halloc' with hle | hle
  · exact .inl (by omega)
  · exact .inr (by omega)

/-! ### Reads -/

/-- Where a sector is in the file. -/
theorem getSectorOffset_snd (s : Vpc) (v : Nat) (write : Bool) (host : VpcHost) :
    (getSectorOffset s v write host).2 =
      (s.place (v / vpcBlockSectors)).map (· + v % vpcBlockSectors) := by
  unfold getSectorOffset Vpc.place
  by_cases hnone : s.maxTableEntries ≤ v / vpcBlockSectors ∨
      s.pagetable (v / vpcBlockSectors) = VPC_UNALLOCATED
  · rw [if_pos hnone, if_neg fun h => hnone.elim (Nat.not_le.mpr h.1) h.2]
    rfl
  · push Not at hnone
    rw [if_neg (not_or.mpr ⟨Nat.not_le.mpr hnone.1, hnone.2⟩), if_pos hnone]
    rfl

theorem getSectorOffset_fst (s : Vpc) (v : Nat) (host : VpcHost) :
    (getSectorOffset s v false host).1 = s := by
  unfold getSectorOffset
  by_cases hnone : s.maxTableEntries ≤ v / vpcBlockSectors ∨
      s.pagetable (v / vpcBlockSectors) = VPC_UNALLOCATED
  · rw [if_pos hnone]
  · rw [if_neg hnone]
    dsimp only
    refine if_neg ?_
    rintro ⟨hwrite, -⟩
    cases hwrite

theorem vpcRead_eq (s : Vpc) (v n : Nat) : vpcRead s v n = bytesAt s.sector v n := by
  induction n generalizing v with
  | zero => rfl
  | succ n ih =>
    rw [vpcRead, ih, Nat.add_comm n 1, bytesAt_add, getSectorOffset_snd]
    refine congrArg (· :: bytesAt s.sector (v + 1) n) ?_
    show _ = s.sector v
    unfold Vpc.sector content
    cases s.place (v / vpcBlockSectors) with
    | none => rfl
    | some o => rfl

/-! ### Writes to the file -/

theorem VpcFile.pwrite_other (f : VpcFile) {offset k : Nat} (x : VpcSector)
    (left : Option VpcSector) (h : k ≠ offset) :
    (f.pwrite offset x left).content k = f.content k := by
  rcases Nat.lt_or_gt_of_ne h with hlt | hgt
  · exact storeAt_of_lt hlt
  · exact storeAt_of_le hgt

theorem Vpc.not_noneFailed (hb : b < s.maxTableEntries)
    (h : (s.pagetable b).toNat = s.freeDataBlock) : ¬s.NoneFailed := by
  intro hnone
  refine hnone b hb (BitVec.eq_of_toNat_eq ?_)
  rw [BitVec.toNat_ofNat, ← h, Nat.mod_eq_of_lt (s.pagetable b).isLt]

/-- Writes in front of the first free block keep the invariant, and any that follow a failed
    allocation. -/
theorem Vpc.Inv.pwrite (h : s.Inv p) {offset : Nat} (x : VpcSector) (left : Option VpcSector)
    (hoffset : offset ≤ s.freeDataBlock ∨ ¬s.NoneFailed) : (s.pwrite offset x left).Inv p := by
  refine ⟨h.entries, h.total, h.footer, h.separate, h.within, h.count, fun hnone k hk => ?_⟩
  have hne : k ≠ offset := by
    rintro rfl
    exact hoffset.elim (Nat.not_le.mpr hk) fun hfailed => hfailed hnone
  exact (VpcFile.pwrite_other _ _ _ hne).trans (h.rest hnone k hk)

/-- The bitmap of a block is written. -/
theorem Vpc.Inv.pwrite_bitmap (h : s.Inv p) (hb : b < s.maxTableEntries)
    (halloc : s.pagetable b ≠ VPC_UNALLOCATED) (x : VpcSector) (left : Option VpcSector) :
    (s.pwrite (s.pagetable b).toNat x left).Inv p ∧
      (s.pwrite (s.pagetable b).toNat x left).sector = s.sector := by
  refine ⟨h.pwrite x left (.inl ?_), content_congr (by decide) fun j o ho i hi => ?_⟩
  · rcases (h.within b hb halloc).2 with hle | heq
    · omega
    · exact heq.le
  · obtain ⟨hj, halloc', rfl⟩ := Vpc.place_eq_some (s := s) ho
    refine VpcFile.pwrite_other _ _ _ ?_
    -- bitmaps are not in blocks
    unfold vpcBitmapSectors vpcBlockSectors at *
    by_cases hself : j = b
    · subst hself
      omega
    · have hapart := h.separate j hj b hb hself halloc' halloc
      unfold vpcBitmapSectors vpcBlockSectors at hapart
      omega

/-- A sector of a block is written. -/
theorem Vpc.Inv.pwrite_data (h : s.Inv p) {offset : Nat}
    (hoffset : (s.place (v / vpcBlockSectors)).map (· + v % vpcBlockSectors) = some offset)
    (x : VpcSector) (left : Option VpcSector) : (s.pwrite offset x left).Inv p ∧
      (s.pwrite offset x left).sector = storeAt s.sector v [left.getD x] := by
  obtain ⟨o, ho, rfl⟩ := Option.map_eq_some_iff.mp hoffset
  have hmod : v % vpcBlockSectors < vpcBlockSectors := Nat.mod_lt _ (by decide)
  constructor
  · obtain ⟨hb, halloc, rfl⟩ := Vpc.place_eq_some ho
    refine h.pwrite x left ?_
    rcases (h.within _ hb halloc).2 with hle | heq
    · exact .inl (by omega)
    · exact .inr (Vpc.not_noneFailed hb heq)
  · funext v'
    refine (content_storeAt h.separate.separated ho ?_ v').trans ?_
    · exact hmod
    · rw [Nat.mul_comm, Nat.div_add_mod]
      rfl

/-! ### Allocation -/

theorem VpcParams.firstFree_add_lt (p : VpcParams) :
    p.firstFree + (vpcBlockSectors + vpcBitmapSectors) * p.batEntries < 0xffffffff := by
  have hcyls := Nat.le_of_lt_succ p.cyls.isLt
  have hheads := Nat.le_of_lt_succ p.heads.isLt
  have hsecs := Nat.le_of_lt_succ p.secsPerCyl.isLt
  have htotal : p.totalSectors ≤ 65535 * 255 * 255 :=
    Nat.mul_le_mul (Nat.mul_le_mul hcyls hheads) hsecs
  unfold VpcParams.firstFree VpcParams.batEntries vpcBlockSectors vpcBitmapSectors vpcBatSector
  omega

/-- There is room for a block that is not allocated. -/
theorem Vpc.Inv.free_lt (h : s.Inv p) (hb : b < s.maxTableEntries)
    (hfree : s.pagetable b = VPC_UNALLOCATED) :
    s.freeDataBlock + (vpcBlockSectors + vpcBitmapSectors) < 0xffffffff := by
  have hsub : ((Finset.range s.maxTableEntries).filter fun i => s.pagetable i ≠ VPC_UNALLOCATED ∧
      s.pagetable i ≠ BitVec.ofNat 32 s.freeDataBlock) ⊂ Finset.range s.maxTableEntries :=
    Finset.filter_ssubset.mpr ⟨b, Finset.mem_range.mpr hb, fun hne => hne.1 hfree⟩
  have hcard := (Finset.card_lt_card hsub).trans_eq (Finset.card_range _)
  have hroom := p.firstFree_add_lt
  rw [← h.entries] at hroom
  have hcount := h.count
  unfold vpcBlockSectors vpcBitmapSectors at *
  omega

/-- What an allocation does, whether it fails or not. -/
structure VpcAllocated (p : VpcParams) (s : Vpc) (b : Nat) (s' : Vpc) : Prop where
  entries : s'.maxTableEntries = s.maxTableEntries
  total : s'.totalSectors = s.totalSectors
  footer : s'.footerBuf = s.footerBuf
  pagetable : s'.pagetable = Function.update s.pagetable b (BitVec.ofNat 32 s.freeDataBlock)
  free : s'.freeDataBlock = s.freeDataBlock ∨
    s'.freeDataBlock = s.freeDataBlock + (vpcBlockSectors + vpcBitmapSectors)
  content : ∀ k, p.firstFree ≤ k → k ≠ s.freeDataBlock →
    k ≠ s.freeDataBlock + (vpcBlockSectors + vpcBitmapSectors) →
      s'.file.content k = s.file.content k

theorem VpcAllocated.pagetable_self (ha : VpcAllocated p s b s') :
    s'.pagetable b = BitVec.ofNat 32 s.freeDataBlock := by
  rw [ha.pagetable, Function.update_self]

theorem VpcAllocated.pagetable_of_ne (ha : VpcAllocated p s b s') {i : Nat} (hi : i ≠ b) :
    s'.pagetable i = s.pagetable i := by
  rw [ha.pagetable, Function.update_of_ne hi]

theorem Vpc.Inv.toNat_free (h : s.Inv p) (hb : b < s.maxTableEntries)
    (hfree : s.pagetable b = VPC_UNALLOCATED) :
    (BitVec.ofNat 32 s.freeDataBlock).toNat = s.freeDataBlock := by
  have hlt := h.free_lt hb hfree
  exact Nat.mod_eq_of_lt (by omega)

theorem Vpc.Inv.free_ne (h : s.Inv p) (hb : b < s.maxTableEntries)
    (hfree : s.pagetable b = VPC_UNALLOCATED) :
    BitVec.ofNat 32 s.freeDataBlock ≠ VPC_UNALLOCATED := by
  have hlt := h.free_lt hb hfree
  intro heq
  have htoNat := h.toNat_free hb hfree
  rw [heq] at htoNat
  change 0xffffffff = s.freeDataBlock at htoNat
  omega

theorem Vpc.Inv.below (h : s.Inv p) (hnone : s.NoneFailed) {i : Nat}
    (hi : i < s.maxTableEntries) (halloc : s.pagetable i ≠ VPC_UNALLOCATED) :
    (s.pagetable i).toNat + (vpcBlockSectors + vpcBitmapSectors) ≤ s.freeDataBlock :=
  (h.within i hi halloc).2.resolve_right fun heq => Vpc.not_noneFailed hi heq hnone

/-- The new block is apart from the others, if no allocation has failed. -/
theorem Vpc.Inv.allocated_separate (h : s.Inv p) (hb : b < s.maxTableEntries)
    (hfree : s.pagetable b = VPC_UNALLOCATED) (hnone : s.NoneFailed)
    (ha : VpcAllocated p s b s') : s'.Separate := by
  have htoNat := h.toNat_free hb hfree
  intro i hi j hj hne halloc halloc'
  rw [ha.entries] at hi hj
  by_cases hself : i = b <;> by_cases hself' : j = b
  · exact absurd (hself.trans hself'.symm) hne
  · rw [ha.pagetable_of_ne hself'] at halloc' ⊢
    rw [hself, ha.pagetable_self, htoNat]
    exact .inr (h.below hnone hj halloc')
  · rw [ha.pagetable_of_ne hself] at halloc ⊢
    rw [hself', ha.pagetable_self, htoNat]
    exact .inl (h.below hnone hi halloc)
  · rw [ha.pagetable_of_ne hself] at halloc ⊢
    rw [ha.pagetable_of_ne hself'] at halloc' ⊢
    exact h.separate i hi j hj hne halloc halloc'

/-- The new block is counted if the allocation did not fail. -/
theorem Vpc.Inv.allocated_count (h : s.Inv p) (hb : b < s.maxTableEntries)
    (hfree : s.pagetable b = VPC_UNALLOCATED) (hnone : s.NoneFailed)
    (ha : VpcAllocated p s b s') :
    s'.freeDataBlock = p.firstFree + (vpcBlockSectors + vpcBitmapSectors) *
      ((Finset.range s'.maxTableEntries).filter fun i => s'.pagetable i ≠ VPC_UNALLOCATED ∧
        s'.pagetable i ≠ BitVec.ofNat 32 s'.freeDataBlock).card := by
  rw [ha.entries]
  rcases ha.free with hkept | hgrown
  · have hfilter : ((Finset.range s.maxTableEntries).filter fun i =>
        s'.pagetable i ≠ VPC_UNALLOCATED ∧
          s'.pagetable i ≠ BitVec.ofNat 32 s'.freeDataBlock) =
        (Finset.range s.maxTableEntries).filter fun i => s.pagetable i ≠ VPC_UNALLOCATED ∧
          s.pagetable i ≠ BitVec.ofNat 32 s.freeDataBlock := by
      refine Finset.filter_congr fun i _ => ?_
      rw [hkept]
      by_cases hself : i = b
      · rw [hself, ha.pagetable_self, hfree]
        simp
      · rw [ha.pagetable_of_ne hself]
    rw [hfilter, hkept]
    exact h.count
  · have hlt := h.free_lt hb hfree
    have htoNat := h.toNat_free hb hfree
    have hnew : ∀ i < s.maxTableEntries, s'.pagetable i ≠ VPC_UNALLOCATED →
        s'.pagetable i ≠ BitVec.ofNat 32 s'.freeDataBlock := by
      -- all blocks are in front of the one that is free now
      intro i hi halloc heq
      have hlt' : (s'.pagetable i).toNat < s'.freeDataBlock := by
        unfold vpcBlockSectors vpcBitmapSectors at *
        by_cases hself : i = b
        · rw [hself, ha.pagetable_self, htoNat]
          omega
        · rw [ha.pagetable_of_ne hself] at halloc ⊢
          have hbelow := h.below hnone hi halloc
          unfold vpcBlockSectors vpcBitmapSectors at hbelow
          omega
      rw [heq, BitVec.toNat_ofNat, Nat.mod_eq_of_lt (by omega)] at hlt'
      exact Nat.lt_irrefl _ hlt'
    have hfilter : ((Finset.range s.maxTableEntries).filter fun i =>
        s'.pagetable i ≠ VPC_UNALLOCATED ∧
          s'.pagetable i ≠ BitVec.ofNat 32 s'.freeDataBlock) =
        insert b ((Finset.range s.maxTableEntries).filter fun i =>
          s.pagetable i ≠ VPC_UNALLOCATED ∧
            s.pagetable i ≠ BitVec.ofNat 32 s.freeDataBlock) := by
      ext i
      rw [Finset.mem_insert, Finset.mem_filter, Finset.mem_filter, Finset.mem_range]
      by_cases hself : i = b
      · have halloc : s'.pagetable b ≠ VPC_UNALLOCATED := by
          rw [ha.pagetable_self]
          exact h.free_ne hb hfree
        rw [hself]
        exact ⟨fun _ => .inl rfl, fun _ => ⟨hb, halloc, hnew b hb halloc⟩⟩
      · constructor
        · rintro ⟨hi, halloc, -⟩
          rw [ha.pagetable_of_ne hself] at halloc
          exact .inr ⟨hi, halloc, hnone i hi⟩
        · rintro (hb | ⟨hi, halloc, -⟩)
          · exact absurd hb hself
          · rw [← ha.pagetable_of_ne hself] at halloc
            exact ⟨hi, halloc, hnew i hi halloc⟩
    have hnot : b ∉ (Finset.range s.maxTableEntries).filter fun i =>
        s.pagetable i ≠ VPC_UNALLOCATED ∧ s.pagetable i ≠ BitVec.ofNat 32 s.freeDataBlock := by
      simp [hfree]
    have hcount := h.count
    rw [hfilter, Finset.card_insert_of_notMem hnot, hgrown, Nat.mul_succ]
    omega

/-- **Allocation.**  A block is given the first free place, and the image holds what it held. -/
theorem Vpc.Inv.allocated (h : s.Inv p) (hb : b < s.maxTableEntries)
    (hfree : s.pagetable b = VPC_UNALLOCATED) (hnone : s.NoneFailed)
    (ha : VpcAllocated p s b s') : s'.Inv p ∧ s'.sector = s.sector := by
  have htoNat := h.toNat_free hb hfree
  have hcount := h.count
  have hge : p.firstFree ≤ s.freeDataBlock := by omega
  refine ⟨⟨ha.entries.trans h.entries, ha.total.trans h.total, ha.footer.trans h.footer,
    h.allocated_separate hb hfree hnone ha, fun i hi halloc => ?_,
    h.allocated_count hb hfree hnone ha, fun hnone' k hk => ?_⟩, funext fun v => ?_⟩
  · rw [ha.entries] at hi
    by_cases hself : i = b
    · rw [hself, ha.pagetable_self, htoNat]
      exact ⟨hge, ha.free.symm.imp (fun hgrown => hgrown.ge) Eq.symm⟩
    · rw [ha.pagetable_of_ne hself] at halloc ⊢
      have hbelow := h.below hnone hi halloc
      have hfree' := ha.free
      exact ⟨(h.within i hi halloc).1, .inl (by omega)⟩
  · rcases ha.free with hkept | hgrown
    -- the allocation failed
    · refine absurd ?_ (hnone' b (ha.entries ▸ hb))
      rw [hkept]
      exact ha.pagetable_self
    · rw [hgrown] at hk
      rw [ha.content k (by omega) (by omega) (by omega)]
      exact h.rest hnone k (by omega)
  · have hmod : v % vpcBlockSectors < vpcBlockSectors := Nat.mod_lt _ (by decide)
    have hbitmap : vpcBitmapSectors = 1 := rfl
    by_cases hv : v / vpcBlockSectors = b
    · have hplace : s'.place (v / vpcBlockSectors) = some (s.freeDataBlock + vpcBitmapSectors) := by
        rw [hv, Vpc.place_some (ha.entries ▸ hb) (by
          rw [ha.pagetable_self]
          exact h.free_ne hb hfree), ha.pagetable_self, htoNat]
      have hzero : s.sector v = vpcZero := content_none (hv ▸ Vpc.place_none hfree)
      rw [hzero, Vpc.sector, content_some hplace, ha.content
        (s.freeDataBlock + vpcBitmapSectors + v % vpcBlockSectors) (by omega) (by omega)
          (by omega)]
      exact h.rest hnone _ (by omega)
    · have hplace : s'.place (v / vpcBlockSectors) = s.place (v / vpcBlockSectors) := by
        unfold Vpc.place
        rw [ha.entries, ha.pagetable_of_ne hv]
      unfold Vpc.sector content
      rw [hplace]
      cases ho : s.place (v / vpcBlockSectors) with
      | none => rfl
      | some o =>
        obtain ⟨hi, halloc, rfl⟩ := Vpc.place_eq_some ho
        have hbelow := h.below hnone hi halloc
        have hwithin := (h.within _ hi halloc).1
        exact ha.content
          ((s.pagetable (v / vpcBlockSectors)).toNat + vpcBitmapSectors + v % vpcBlockSectors)
          (by omega) (by omega) (by omega)

theorem Vpc.Inv.batSector_lt (h : s.Inv p) (hb : b < s.maxTableEntries) :
    vpcBatSector + 4 * b / 512 < p.firstFree := by
  rw [h.entries] at hb
  unfold VpcParams.firstFree
  omega

/-- `alloc_block` of a block that is not allocated. -/
theorem allocBlock_eq (hv : v ≤ s.totalSectors)
    (hfree : s.pagetable (v / vpcBlockSectors) = VPC_UNALLOCATED) (host : VpcHost) :
    allocBlock s v host =
      if host.footer.isSome then
        ((s.takeBlock (v / vpcBlockSectors) host).freeBlock s.freeDataBlock, none)
      else if host.table.isSome then
        (((s.takeBlock (v / vpcBlockSectors) host).writeEntry (v / vpcBlockSectors)
          host).freeBlock s.freeDataBlock, none)
      else getSectorOffset ((s.takeBlock (v / vpcBlockSectors) host).writeEntry
        (v / vpcBlockSectors) host) v false host := by
  rw [allocBlock, if_neg (Nat.not_lt.mpr hv), if_neg (not_not.mpr hfree)]

theorem Vpc.takeBlock_allocated (p : VpcParams) (s : Vpc) (b : Nat) (host : VpcHost) :
    VpcAllocated p s b (s.takeBlock b host) :=
  ⟨rfl, rfl, rfl, rfl, .inr rfl, fun _ _ hk hk' =>
    (VpcFile.pwrite_other _ _ _ hk').trans (VpcFile.pwrite_other _ _ _ hk)⟩

theorem VpcAllocated.writeEntry (ha : VpcAllocated p s b s')
    (hbat : vpcBatSector + 4 * b / 512 < p.firstFree) (host : VpcHost) :
    VpcAllocated p s b (s'.writeEntry b host) := by
  refine ⟨ha.entries, ha.total, ha.footer, ha.pagetable, ha.free, fun k hge hk hk' => ?_⟩
  exact (VpcFile.pwrite_other _ _ _ (by omega)).trans (ha.content k hge hk hk')

theorem VpcAllocated.freeBlock (ha : VpcAllocated p s b s') :
    VpcAllocated p s b (s'.freeBlock s.freeDataBlock) :=
  ⟨ha.entries, ha.total, ha.footer, ha.pagetable, .inl rfl, ha.content⟩

/-- What `alloc_block` does. -/
theorem allocBlock_allocated (h : s.Inv p) (hv : v ≤ s.totalSectors)
    (hb : v / vpcBlockSectors < s.maxTableEntries)
    (hfree : s.pagetable (v / vpcBlockSectors) = VPC_UNALLOCATED) (host : VpcHost) :
    VpcAllocated p s (v / vpcBlockSectors) (allocBlock s v host).1 := by
  have htake := s.takeBlock_allocated p (v / vpcBlockSectors) host
  have hentry := htake.writeEntry (h.batSector_lt hb) host
  rw [allocBlock_eq hv hfree]
  split_ifs with hfooter htable
  · exact htake.freeBlock
  · exact hentry.freeBlock
  · rw [getSectorOffset_fst]
    exact hentry

theorem allocBlock_snd (hv : v ≤ s.totalSectors)
    (hfree : s.pagetable (v / vpcBlockSectors) = VPC_UNALLOCATED) (host : VpcHost) {o : Nat}
    (ho : (allocBlock s v host).2 = some o) :
    ((allocBlock s v host).1.place (v / vpcBlockSectors)).map (· + v % vpcBlockSectors) =
      some o := by
  rw [allocBlock_eq hv hfree] at ho ⊢
  split_ifs at ho ⊢ with hfooter htable
  rw [getSectorOffset_snd] at ho
  rwa [getSectorOffset_fst]

/-- A block is not allocated in front of the place that a failed allocation has left. -/
def VpcFits (s : Vpc) (sectorNum : Nat) (_ : VpcHost) : Prop :=
  s.pagetable (sectorNum / vpcBlockSectors) = VPC_UNALLOCATED → s.NoneFailed

/-- What a write of a sector does to an image. -/
structure VpcWritten (p : VpcParams) (s : Vpc) (v : Nat) (x : VpcSector) (r : Vpc × Bool) :
    Prop where
  inv : r.1.Inv p
  other : ∀ v' ≠ v, r.1.sector v' = s.sector v'
  self : r.2 = true → r.1.sector v = x

/-- A sector of a block with a place is written. -/
theorem Vpc.Inv.written (h : s.Inv p) {offset : Nat}
    (hoffset : (s.place (v / vpcBlockSectors)).map (· + v % vpcBlockSectors) = some offset)
    (x : VpcSector) (left : Option VpcSector) :
    VpcWritten p s v x (s.pwrite offset x left, left.isNone) := by
  obtain ⟨hinv, hsector⟩ := h.pwrite_data hoffset x left
  refine ⟨hinv, fun v' hv' => ?_, fun hok => ?_⟩
  · rw [hsector]
    rcases Nat.lt_or_gt_of_ne hv' with hlt | hgt
    · exact storeAt_of_lt hlt
    · exact storeAt_of_le hgt
  · obtain rfl := Option.isNone_iff_eq_none.mp hok
    rw [hsector]
    have hlen : 0 < [x].length := Nat.one_pos
    exact storeAt_add _ _ hlen

/-- A sector of a block that is there. -/
theorem Vpc.Inv.write_there (h : s.Inv p) (hb : v / vpcBlockSectors < s.maxTableEntries)
    (halloc : s.pagetable (v / vpcBlockSectors) ≠ VPC_UNALLOCATED) (x : VpcSector)
    (host : VpcHost) : VpcWritten p s v x (vpcWriteSector s v x host) := by
  have hoffset := getSectorOffset_snd s v true host
  rw [Vpc.place_some hb halloc] at hoffset
  have hinv : (getSectorOffset s v true host).1.Inv p ∧
      (getSectorOffset s v true host).1.sector = s.sector ∧
      (getSectorOffset s v true host).1.place = s.place := by
    unfold getSectorOffset
    rw [if_neg (not_or.mpr ⟨Nat.not_le.mpr hb, halloc⟩)]
    dsimp only
    split_ifs with hbitmap
    · obtain ⟨hinv, hsector⟩ := h.pwrite_bitmap hb halloc vpcBitmap host.bitmap
      exact ⟨⟨hinv.entries, hinv.total, hinv.footer, hinv.separate, hinv.within, hinv.count,
        hinv.rest⟩, hsector, rfl⟩
    · exact ⟨h, rfl, rfl⟩
  unfold vpcWriteSector
  cases hget : getSectorOffset s v true host with
  | mk s₁ o =>
  rw [hget] at hinv hoffset
  obtain ⟨hinv, hsector, hplace⟩ := hinv
  obtain rfl : o = some _ := hoffset
  obtain ⟨hinv', hother, hself⟩ := hinv.written (x := x) (by
    rw [hplace, Vpc.place_some hb halloc]
    rfl) host.data
  exact ⟨hinv', fun v' hv' => (hother v' hv').trans (congrFun hsector v'), hself⟩

/-- A sector of a block that is not there. -/
theorem Vpc.Inv.write_new (h : s.Inv p) (hv : v ≤ s.totalSectors)
    (hb : v / vpcBlockSectors < s.maxTableEntries)
    (hfree : s.pagetable (v / vpcBlockSectors) = VPC_UNALLOCATED) (hnone : s.NoneFailed)
    (x : VpcSector) (host : VpcHost) : VpcWritten p s v x (vpcWriteSector s v x host) := by
  obtain ⟨hinv, hsector⟩ :=
    h.allocated hb hfree hnone (allocBlock_allocated h hv hb hfree host)
  have hoffset : ∀ o, (allocBlock s v host).2 = some o → _ :=
    fun o => allocBlock_snd hv hfree host
  have hget : getSectorOffset s v true host = (s, none) := if_pos (.inr hfree)
  unfold vpcWriteSector
  rw [hget]
  dsimp only
  cases halloc : allocBlock s v host with
  | mk s₁ o =>
  rw [halloc] at hinv hsector hoffset
  cases o with
  | none => exact ⟨hinv, fun v' _ => congrFun hsector v', fun h => (by cases h)⟩
  | some o =>
    obtain ⟨hinv', hother, hself⟩ := hinv.written (hoffset o rfl) x host.data
    exact ⟨hinv', fun v' hv' => (hother v' hv').trans (congrFun hsector v'), hself⟩

/-- **A sector is written.** -/
theorem Vpc.Inv.write_sector (h : s.Inv p) (hv : v < p.totalSectors) (x : VpcSector)
    {host : VpcHost} (hfits : VpcFits s v host) :
    VpcWritten p s v x (vpcWriteSector s v x host) := by
  have hb : v / vpcBlockSectors < s.maxTableEntries := by
    rw [h.entries]
    unfold VpcParams.batEntries vpcBlockSectors
    omega
  by_cases hfree : s.pagetable (v / vpcBlockSectors) = VPC_UNALLOCATED
  · exact h.write_new (h.total ▸ hv.le) hb hfree (hfits hfree) x host
  · exact h.write_there hb hfree x host

end

end Qemu.Block
