import Qemu.Block.Qcow2Image

namespace Qemu.Block

open Lib

/-!
# The refcounts of a new qcow2 image

`qcow_create2` counts the refcount blocks it needs before it has placed them.  One block more may be
needed for the blocks themselves, and then the arrays are left.

* `references` — how often a cluster is referenced;
* `RefBlocksSuffice` — when the blocks suffice;
* `qcowCreate2_ok_iff` — when an image is made, and which;
* `qcowCreate2_refcounts` — the refcounts are right just then.
-/

/-! ### References -/

/-- One if the cluster holds some of the bytes. -/
def overlaps (clusterSize offset size c : Nat) : Nat :=
  if 0 < size ∧ offset < (c + 1) * clusterSize ∧ c * clusterSize < offset + size then 1 else 0

/-- How often a cluster is referenced: by the header with its extension and the name of the backing
file, the L1 table, the refcount table and the refcount blocks. -/
def references (req : CreateRequest) (h : QCowHeader) (refcountTable : List (BitVec 64)) (c : Nat) :
    Nat :=
  let clusterSize := 2 ^ h.clusterBits.toNat
  overlaps clusterSize 0 (headerLength req) c +
    overlaps clusterSize h.l1TableOffset.toNat (h.l1Size.toNat * 8) c +
      overlaps clusterSize h.refcountTableOffset.toNat
          (h.refcountTableClusters.toNat * clusterSize) c +
        (refcountTable.map fun offset =>
          if offset = 0 then 0 else overlaps clusterSize offset.toNat clusterSize c).sum

/-- For each cluster that `get_refcount` can be asked about, it returns the number of references. -/
def RefcountsRight (req : CreateRequest) (f : HostFile) : Prop :=
  ∃ h refcountTable, qcowReadHeader f = some h ∧ qcow2RefcountInit f h = some refcountTable ∧
    ∀ c : Nat, c / 2 ^ (h.clusterBits.toNat - refcountShift) < 2 ^ 32 →
      getRefcount f h.clusterBits.toNat refcountTable c = references req h refcountTable c

/-- **The refcount blocks suffice.**  The header and the number of L1 entries fit into an `int`, the
blocks that are counted on fit into the table, and there is room in them for the blocks as well. -/
structure RefBlocksSuffice (req : CreateRequest) (clusterBits : Nat) : Prop where
  header : roundedHeader req < 2 ^ 31
  l1 : 0 ≤ createL1Size req.totalSize clusterBits
  table : refBlocks clusterBits (roundedHeader req) (createL1Size req.totalSize clusterBits) ≤
    2 ^ clusterBits / 8
  blocks :
    tableCluster clusterBits (roundedHeader req) (createL1Size req.totalSize clusterBits) + 1 +
      refBlocks clusterBits (roundedHeader req) (createL1Size req.totalSize clusterBits) ≤
    refBlocks clusterBits (roundedHeader req) (createL1Size req.totalSize clusterBits) *
      2 ^ (clusterBits - refcountShift)

section Clusters

variable {clusterBits : Nat}

/-- The number of clusters is the one that just suffices. -/
theorem clustersOf_eq {size k : Int} (hle : size ≤ k * 2 ^ clusterBits)
    (hlt : k * 2 ^ clusterBits < size + 2 ^ clusterBits) : clustersOf clusterBits size = k := by
  have hpos : (0 : Int) < 2 ^ clusterBits := by positivity
  apply le_antisymm
  · have hlt' : clustersOf clusterBits size < k + 1 := by
      apply lt_of_mul_lt_mul_right _ hpos.le
      rw [add_one_mul]
      exact (clustersOf_bounds clusterBits size).2.trans_le (by omega)
    omega
  · have hlt' : k < clustersOf clusterBits size + 1 := by
      apply lt_of_mul_lt_mul_right _ hpos.le
      rw [add_one_mul]
      have hbound := (clustersOf_bounds clusterBits size).1
      omega
    omega

/-- Bytes that start with a cluster are in consecutive clusters. -/
theorem overlaps_aligned (clusterBits a size c : Nat) :
    overlaps (2 ^ clusterBits) (a * 2 ^ clusterBits) size c =
      inRange a (clustersOf clusterBits size) c := by
  have hpos : (0 : Int) < 2 ^ clusterBits := by positivity
  obtain ⟨hle, hlt⟩ := clustersOf_bounds clusterBits size
  unfold overlaps inRange
  congr 1
  apply propext
  have hfirst : a * 2 ^ clusterBits < (c + 1) * 2 ^ clusterBits ↔ a ≤ c :=
    (Nat.mul_lt_mul_right (Nat.two_pow_pos _)).trans Nat.lt_succ_iff
  have hlast : c * 2 ^ clusterBits < a * 2 ^ clusterBits + size ↔
      (c : Int) * 2 ^ clusterBits < a * 2 ^ clusterBits + size := by
    rw [← Int.ofNat_lt]
    push_cast
    rfl
  rw [hfirst, hlast, Int.ofNat_le]
  constructor
  · rintro ⟨-, hac, hend⟩
    refine ⟨hac, lt_of_mul_lt_mul_right ?_ hpos.le⟩
    rw [add_mul]
    omega
  · rintro ⟨hac, hend⟩
    have hmul : ((c : Int) + 1) * 2 ^ clusterBits ≤
        (a + clustersOf clusterBits size) * 2 ^ clusterBits :=
      mul_le_mul_of_nonneg_right (by omega) hpos.le
    rw [add_mul, add_mul, one_mul] at hmul
    have hac' : (a : Int) * 2 ^ clusterBits ≤ c * 2 ^ clusterBits :=
      mul_le_mul_of_nonneg_right (by omega) hpos.le
    exact ⟨by omega, hac, by omega⟩

theorem clustersOf_rounded (h : 3 ≤ clusterBits) (size : Nat) :
    clustersOf clusterBits ((size + 7) / 8 * 8 : Nat) = clustersOf clusterBits size := by
  obtain ⟨hle, hlt⟩ := clustersOf_bounds clusterBits size
  obtain ⟨k, rfl⟩ : ∃ k, clusterBits = k + 3 := ⟨clusterBits - 3, by omega⟩
  have hmul : clustersOf (k + 3) size * 2 ^ (k + 3) = clustersOf (k + 3) size * 2 ^ k * 8 := by ring
  apply clustersOf_eq
  · rw [hmul] at hle ⊢
    omega
  · omega

theorem sum_inRange (first n c : Nat) :
    ((List.range n).map fun i => inRange ((first + i : Nat) : Int) 1 c).sum =
      inRange first n c := by
  induction n with
  | zero =>
    rw [inRange, if_neg (by omega)]
    rfl
  | succ n ih =>
    rw [List.range_succ, List.map_append, List.sum_append, ih]
    unfold inRange
    simp only [List.map_cons, List.map_nil, List.sum_cons, List.sum_nil]
    split_ifs
    all_goals omega

end Clusters

section Created

variable {clusterBits : Nat} {headerSize l1Size : Int} {head table blocks : Nat}
  {req : CreateRequest} {part : HeaderPart}

theorem blockOffsets_eq_map (clusterSize n : Nat) (offset : BitVec 64) :
    blockOffsets clusterSize n offset =
      (List.range n).map fun i => offset + BitVec.ofNat 64 (i * clusterSize) := by
  apply List.ext_getElem?
  intro i
  by_cases hi : i < n
  · rw [getElem?_blockOffsets hi, List.getElem?_map, List.getElem?_range hi]
    rfl
  · rw [List.getElem?_eq_none (by rw [length_blockOffsets]; omega),
      List.getElem?_eq_none (by rw [List.length_map, List.length_range]; omega)]

/-- The references to refcount blocks. -/
theorem Places.block_references (hp : Places clusterBits headerSize l1Size head table blocks)
    (h : Bounded clusterBits headerSize l1Size) (c : Nat) :
    ((filledArrays clusterBits headerSize l1Size).refcountTable.map fun offset =>
        if offset = 0 then 0
        else overlaps (2 ^ clusterBits) offset.toNat (2 ^ clusterBits) c).sum =
      inRange ((table + 1 : Nat) : Int) blocks c := by
  have hzero : ∀ n, ((List.replicate n (0 : BitVec 64)).map fun offset =>
      if offset = 0 then 0
      else overlaps (2 ^ clusterBits) offset.toNat (2 ^ clusterBits) c).sum = 0 := by
    intro n
    rw [List.map_replicate, if_pos rfl, List.sum_replicate_nat, Nat.mul_zero]
  have hone : clustersOf clusterBits ((2 ^ clusterBits : Nat) : Int) = 1 := by
    have hmul := clustersOf_mul clusterBits 1
    rw [one_mul] at hmul
    push_cast
    exact hmul
  rw [filledArrays, hp.blocks_eq, Int.toNat_natCast]
  dsimp only
  rw [List.map_append, List.sum_append, hzero, add_zero, blockOffsets_eq_map, List.map_map,
    ← sum_inRange]
  refine congrArg List.sum (List.map_congr_left fun i hi => ?_)
  have hoffset := hp.block_offset h (List.mem_range.mp hi)
  rw [Function.comp_apply, hoffset, overlaps_aligned, hone, if_neg]
  intro heq
  rw [heq] at hoffset
  have hfac : 0 < (table + 1 + i) * 2 ^ clusterBits :=
    Nat.mul_pos (Nat.add_pos_left (Nat.succ_pos _) _) (Nat.two_pow_pos _)
  exact hfac.ne hoffset

/-- The references, with those of the L1 table and of the header as they are. -/
theorem Places.references_eq (hp : Places clusterBits headerSize l1Size head table blocks)
    (h : Bounded clusterBits headerSize l1Size) (c : Nat) :
    references req (filledHeader req part clusterBits headerSize l1Size)
        (filledArrays clusterBits headerSize l1Size).refcountTable c =
      overlaps (2 ^ clusterBits) 0 (headerLength req) c +
        overlaps (2 ^ clusterBits) (head * 2 ^ clusterBits) ((BitVec.ofInt 32 l1Size).toNat * 8) c +
          inRange table 1 c + inRange (table + 1) blocks c := by
  obtain ⟨-, -, -, hl1, htable, -⟩ := hp.offsets h
  have hone : clustersOf clusterBits ((2 ^ clusterBits : Nat) : Int) = 1 := by
    have hmul := clustersOf_mul clusterBits 1
    rw [one_mul] at hmul
    push_cast
    exact hmul
  have hclusters :
      (filledHeader req part clusterBits headerSize l1Size).refcountTableClusters.toNat *
        2 ^ clusterBits = 2 ^ clusterBits := Nat.one_mul _
  have htable' : overlaps (2 ^ clusterBits)
      (filledHeader req part clusterBits headerSize l1Size).refcountTableOffset.toNat
      (2 ^ clusterBits) c = inRange table 1 c := by
    rw [← hone, ← overlaps_aligned, ← htable]
    rfl
  have hl1' : (filledHeader req part clusterBits headerSize l1Size).l1TableOffset.toNat =
      head * 2 ^ clusterBits := hl1
  have hblocks := hp.block_references h c
  rw [Nat.cast_add, Nat.cast_one] at hblocks
  unfold references
  dsimp only
  rw [filledHeader_clusterBits h, hclusters, htable', hl1', hblocks]
  rfl

theorem overlaps_l1 (h : Bounded clusterBits headerSize l1Size) (c : Nat) (hl1 : 0 ≤ l1Size) :
    overlaps (2 ^ clusterBits) (head * 2 ^ clusterBits) ((BitVec.ofInt 32 l1Size).toNat * 8) c =
      inRange head (clustersOf clusterBits (l1Size * 8)) c := by
  have hbound := h.l1
  have hnat : (((BitVec.ofInt 32 l1Size).toNat * 8 : Nat) : Int) = l1Size * 8 := by
    rw [BitVec.toNat_ofInt]
    push_cast
    omega
  rw [overlaps_aligned, hnat]

/-- The first cluster behind the header is referenced by an L1 table whose size has wrapped
around. -/
theorem overlaps_l1_wrapped (h : Bounded clusterBits headerSize l1Size) (hl1 : l1Size < 0)
    (head : Nat) :
    overlaps (2 ^ clusterBits) (head * 2 ^ clusterBits) ((BitVec.ofInt 32 l1Size).toNat * 8) head =
      1 := by
  have hbound := h.l1
  have hpos : 0 < 2 ^ clusterBits := Nat.two_pow_pos _
  have hnat : 0 < (BitVec.ofInt 32 l1Size).toNat * 8 := by
    rw [BitVec.toNat_ofInt]
    omega
  have hnext : (head + 1) * 2 ^ clusterBits = head * 2 ^ clusterBits + 2 ^ clusterBits :=
    add_one_mul ..
  exact if_pos ⟨hnat, by omega, by omega⟩

end Created

/-! ### The whole creation -/

section Create

variable {req : CreateRequest} {clusterBits : Nat}

theorem headerLength_pos (req : CreateRequest) : 0 < headerLength req := by
  have hsize : qcowHeaderSize = 72 := rfl
  unfold headerLength
  cases req.backingFile with
  | none => exact Nat.succ_pos _
  | some name =>
    dsimp only
    omega

theorem headerSize_cases (req : CreateRequest) :
    (roundedHeader req < 2 ^ 31 ∧ (headerPart req).headerSize = roundedHeader req) ∨
      (2 ^ 31 ≤ roundedHeader req ∧ (headerPart req).headerSize + 2 ^ 32 ≤ roundedHeader req) := by
  obtain ⟨hle, hlt, hmod⟩ := headerSize_spec req
  by_cases h : roundedHeader req < 2 ^ 31
  · exact .inl ⟨h, by omega⟩
  · exact .inr ⟨by omega, by omega⟩

theorem create_bounded (req : CreateRequest) (hmin : minClusterBits ≤ clusterBits)
    (hmax : clusterBits ≤ maxClusterBits) :
    Bounded clusterBits (headerPart req).headerSize (createL1Size req.totalSize clusterBits) :=
  ⟨⟨hmin, hmax⟩, ⟨(headerSize_spec req).1, (headerSize_spec req).2.1⟩, l1Size_bounds ..⟩

/-- **An image is made** where the arrays are large enough. -/
theorem qcowCreate2_ok_iff (hmin : minClusterBits ≤ clusterBits)
    (hmax : clusterBits ≤ maxClusterBits) (hsize : req.clusterSize = 2 ^ clusterBits)
    (f : HostFile) :
    qcowCreate2 req = .ok f ↔
      ArraysFit clusterBits (headerPart req).headerSize (createL1Size req.totalSize clusterBits) ∧
        f = filledFile req (headerPart req) clusterBits (headerPart req).headerSize
          (createL1Size req.totalSize clusterBits) := by
  have hb := create_bounded req hmin hmax
  have hiff := createRefcounts_iff hb
  unfold qcowCreate2
  dsimp only
  rw [hsize, getBitsFromSize_two_pow, if_neg (by omega), Int.toNat_natCast, createLayout_eq]
  cases hfill : createRefcounts clusterBits (headerPart req).headerSize
      (clusterLayout clusterBits (headerPart req).headerSize
        (createL1Size req.totalSize clusterBits)) with
  | none =>
    refine iff_of_false (fun h => nomatch h) fun h => ?_
    rw [(hiff _).mpr ⟨h.1, rfl⟩] at hfill
    cases hfill
  | some s =>
    obtain ⟨hfit, rfl⟩ := (hiff s).mp hfill
    constructor
    · intro h
      exact ⟨hfit, (Except.ok.inj h).symm⟩
    · rintro ⟨-, rfl⟩
      rfl

theorem suffice_of_arraysFit (hheader : (headerPart req).headerSize = roundedHeader req)
    (hsmall : roundedHeader req < 2 ^ 31) (hl1 : 0 ≤ createL1Size req.totalSize clusterBits)
    (hfit : ArraysFit clusterBits (headerPart req).headerSize
      (createL1Size req.totalSize clusterBits)) : RefBlocksSuffice req clusterBits := by
  rw [hheader] at hfit
  exact ⟨hsmall, hl1, hfit.table_size, hfit.block_size⟩

theorem clustersOf_nonneg {size : Int} (h : 0 ≤ size) : 0 ≤ clustersOf clusterBits size := by
  have hpos : (0 : Int) < 2 ^ clusterBits := by positivity
  exact Int.ediv_nonneg (by omega) hpos.le

/-- If the refcount blocks suffice, the arrays fit. -/
theorem arraysFit_of_suffice (hmin : minClusterBits ≤ clusterBits)
    (hmax : clusterBits ≤ maxClusterBits) (h : RefBlocksSuffice req clusterBits) :
    ArraysFit clusterBits (headerPart req).headerSize
      (createL1Size req.totalSize clusterBits) := by
  have hheader : (headerPart req).headerSize = roundedHeader req := by
    have hsmall := h.header
    obtain hcase | hcase := headerSize_cases req
    · exact hcase.2
    · omega
  have hb := create_bounded req hmin hmax
  rw [hheader] at hb ⊢
  have hl1 := h.l1
  have hhead : 0 ≤ clustersOf clusterBits (roundedHeader req) :=
    clustersOf_nonneg (Int.natCast_nonneg _)
  have hl1' : 0 ≤ clustersOf clusterBits (createL1Size req.totalSize clusterBits * 8) :=
    clustersOf_nonneg (by omega)
  have htable : 0 ≤ tableCluster clusterBits (roundedHeader req)
      (createL1Size req.totalSize clusterBits) := add_nonneg hhead hl1'
  obtain ⟨-, hpos, -⟩ := clusterLayout_of_nonneg hb htable
  have hT : tableCluster clusterBits (roundedHeader req) (createL1Size req.totalSize clusterBits) =
    clustersOf clusterBits (roundedHeader req) +
      clustersOf clusterBits (createL1Size req.totalSize clusterBits * 8) := rfl
  have hblocks := h.blocks
  exact ⟨htable, .inl hhead, h.table, by omega, hblocks⟩

/-- **The refcounts are right** where the blocks suffice. -/
theorem refcountsRight_of_suffice (hmin : minClusterBits ≤ clusterBits)
    (hmax : clusterBits ≤ maxClusterBits) (h : RefBlocksSuffice req clusterBits) :
    RefcountsRight req (filledFile req (headerPart req) clusterBits (headerPart req).headerSize
      (createL1Size req.totalSize clusterBits)) := by
  have hfit := arraysFit_of_suffice hmin hmax h
  have hb := create_bounded req hmin hmax
  obtain ⟨head, table, blocks, hp⟩ := ArraysFit.places hb hfit
  have hheader : (headerPart req).headerSize = roundedHeader req := by
    have hsmall := h.header
    obtain hcase | hcase := headerSize_cases req
    · exact hcase.2
    · omega
  have hlength : clustersOf clusterBits (headerLength req) =
      clustersOf clusterBits (headerPart req).headerSize := by
    rw [hheader]
    have hmin' : 3 ≤ clusterBits := le_trans (by decide) hmin
    exact (clustersOf_rounded hmin' _).symm
  have hhead : 0 < head := by
    have hle := (clustersOf_bounds clusterBits (headerLength req)).1
    rw [hlength, hp.head_eq] at hle
    have hpos := headerLength_pos req
    by_contra hzero
    obtain rfl : head = 0 := by omega
    rw [Nat.cast_zero, zero_mul] at hle
    omega
  have hl1 : 0 ≤ clustersOf clusterBits (createL1Size req.totalSize clusterBits * 8) :=
    clustersOf_nonneg (by have := h.l1; omega)
  have hT : tableCluster clusterBits (headerPart req).headerSize
      (createL1Size req.totalSize clusterBits) =
    clustersOf clusterBits (headerPart req).headerSize +
      clustersOf clusterBits (createL1Size req.totalSize clusterBits * 8) := rfl
  have htable : 0 < table := by
    rw [hp.table_eq, hp.head_eq] at hT
    omega
  refine ⟨_, _, readHeader_created hp hb hhead htable, refcountInit_created hp hb, fun c hc => ?_⟩
  rw [filledHeader_clusterBits hb] at hc ⊢
  have hoverlap := overlaps_aligned clusterBits 0 (headerLength req) c
  rw [Nat.zero_mul, hlength, Nat.cast_zero] at hoverlap
  rw [getRefcount_created hp hb hc, hp.references_eq hb, overlaps_l1 hb c h.l1, hoverlap,
    ← hp.head_eq, ← hp.table_eq, ← hp.blocks_eq]
  change _ = (counted clusterBits (headerPart req).headerSize
    (createL1Size req.totalSize clusterBits) (refBlocks clusterBits (headerPart req).headerSize
      (createL1Size req.totalSize clusterBits)) c : Int)
  split_ifs with hin
  · rfl
  -- nothing lies behind the blocks
  · have hblocks := hfit.block_size
    have hentries : (refEntries clusterBits (headerPart req).headerSize
        (createL1Size req.totalSize clusterBits) : Int) =
        refBlocks clusterBits (headerPart req).headerSize
          (createL1Size req.totalSize clusterBits) * 2 ^ (clusterBits - refcountShift) := by
      rw [hp.entries, hp.blocks_eq]
      push_cast
      rfl
    have hpos := hp.blocks_pos
    have hblocks' := hp.blocks_eq
    unfold counted inRange
    rw [if_neg (by omega), if_neg (by omega), if_neg (by omega), if_neg (by omega)]
    rfl

/-- The header is referenced behind its clusters, if its size has wrapped around. -/
theorem overlaps_header_wrapped {head : Nat} (hb : Bounded clusterBits (headerPart req).headerSize
      (createL1Size req.totalSize clusterBits))
    (hhead : clustersOf clusterBits (headerPart req).headerSize = head)
    (hwrap : (headerPart req).headerSize + 2 ^ 32 ≤ roundedHeader req) :
    overlaps (2 ^ clusterBits) 0 (headerLength req) head = 1 := by
  have hle := (clustersOf_bounds clusterBits (headerPart req).headerSize).2
  have hmax := hb.size.2
  have hround : roundedHeader req ≤ headerLength req + 7 := Nat.div_mul_le_self ..
  have hcast : (head : Int) * 2 ^ clusterBits = (head * 2 ^ clusterBits : Nat) := by
    push_cast
    rfl
  rw [hhead, hcast] at hle
  refine if_pos ⟨headerLength_pos req, Nat.mul_pos (Nat.succ_pos _) (Nat.two_pow_pos _), ?_⟩
  omega

/-- **The blocks suffice** where the refcounts are right. -/
theorem suffice_of_refcountsRight (hb : Bounded clusterBits (headerPart req).headerSize
      (createL1Size req.totalSize clusterBits))
    (hfit : ArraysFit clusterBits (headerPart req).headerSize
      (createL1Size req.totalSize clusterBits))
    (hright : RefcountsRight req (filledFile req (headerPart req) clusterBits
      (headerPart req).headerSize (createL1Size req.totalSize clusterBits))) :
    RefBlocksSuffice req clusterBits := by
  obtain ⟨head, table, blocks, hp⟩ := ArraysFit.places hb hfit
  obtain ⟨hdr, refcountTable, hread, hinit, hcounts⟩ := hright
  have htable := hp.table_pos hb hread
  have hhead := hp.head_pos hb hread
  obtain rfl := Option.some.inj ((readHeader_created hp hb hhead htable).symm.trans hread)
  obtain rfl := Option.some.inj ((refcountInit_created hp hb).symm.trans hinit)
  -- the first cluster behind what is counted for the header
  have hindex : head / 2 ^ (clusterBits - refcountShift) < 2 ^ 32 := by
    obtain ⟨-, hoff, -⟩ := hb.offsets
    have hle : head ≤ head * 2 ^ clusterBits := Nat.le_mul_of_pos_right _ (Nat.two_pow_pos _)
    have hcast : (head : Int) * 2 ^ clusterBits = (head * 2 ^ clusterBits : Nat) := by
      push_cast
      rfl
    rw [hp.head_eq, hcast] at hoff
    exact (Nat.div_le_self ..).trans_lt (by omega)
  have hcount := hcounts head (by rw [filledHeader_clusterBits hb]; exact hindex)
  rw [filledHeader_clusterBits hb, getRefcount_created hp hb hindex, hp.references_eq hb] at hcount
  have hstored : overlaps (2 ^ clusterBits) 0 (headerLength req) head +
      overlaps (2 ^ clusterBits) (head * 2 ^ clusterBits)
        ((BitVec.ofInt 32 (createL1Size req.totalSize clusterBits)).toNat * 8) head ≤
      inRange head (clustersOf clusterBits (createL1Size req.totalSize clusterBits * 8)) head := by
    have hself : inRange 0 head head = 0 := if_neg (by omega)
    rw [counted, hp.head_eq, hp.table_eq, hp.blocks_eq, hself] at hcount
    split_ifs at hcount
    · omega
    · omega
  have hone : inRange head (clustersOf clusterBits (createL1Size req.totalSize clusterBits * 8))
      head ≤ 1 := by
    unfold inRange
    split_ifs
    · exact Nat.le_refl 1
    · exact Nat.zero_le 1
  have hl1 : 0 ≤ createL1Size req.totalSize clusterBits := by
    by_contra hneg
    have hoverlap := overlaps_l1_wrapped hb (not_le.mp hneg) head
    have hnone : inRange head (clustersOf clusterBits
        (createL1Size req.totalSize clusterBits * 8)) head = 0 := by
      refine if_neg fun hin => ?_
      have hbound := (clustersOf_bounds clusterBits
        (createL1Size req.totalSize clusterBits * 8)).2
      have hmul : (1 : Int) * 2 ^ clusterBits ≤
          clustersOf clusterBits (createL1Size req.totalSize clusterBits * 8) * 2 ^ clusterBits :=
        mul_le_mul_of_nonneg_right (by omega) (by positivity)
      omega
    omega
  obtain ⟨hsmall, hheader⟩ | ⟨-, hwrap⟩ := headerSize_cases req
  · exact suffice_of_arraysFit hheader hsmall hl1 hfit
  · have hoverlap := overlaps_header_wrapped hb hp.head_eq hwrap
    rw [overlaps_l1 hb head hl1] at hstored
    omega

/-- **The refcounts of a new image are right** just where the blocks that are counted on suffice. -/
theorem qcowCreate2_refcounts (req : CreateRequest) (clusterBits : Nat)
    (hmin : minClusterBits ≤ clusterBits) (hmax : clusterBits ≤ maxClusterBits)
    (hsize : req.clusterSize = 2 ^ clusterBits) :
    (∃ f, qcowCreate2 req = .ok f ∧ RefcountsRight req f) ↔ RefBlocksSuffice req clusterBits := by
  constructor
  · rintro ⟨f, hf, hright⟩
    obtain ⟨hfit, rfl⟩ := (qcowCreate2_ok_iff hmin hmax hsize f).mp hf
    exact suffice_of_refcountsRight (create_bounded req hmin hmax) hfit hright
  · intro h
    exact ⟨_, (qcowCreate2_ok_iff hmin hmax hsize _).mpr ⟨arraysFit_of_suffice hmin hmax h, rfl⟩,
      refcountsRight_of_suffice hmin hmax h⟩

/-- An image of a gigabyte, with clusters of 64 kilobytes. -/
def gigabyteRequest : CreateRequest where
  totalSize := 2097152
  backingFile := none
  backingFormat := none
  encrypt := false
  clusterSize := 2 ^ 16

/-- An image of a gigabyte. -/
theorem qcowCreate2_refcounts_gigabyte :
    ∃ f, qcowCreate2 gigabyteRequest = .ok f ∧ RefcountsRight gigabyteRequest f :=
  (qcowCreate2_refcounts gigabyteRequest 16 (by decide) (by decide) rfl).mpr
    ⟨by decide, by decide, by decide, by decide⟩

/-- An image with clusters of 512 bytes, the first 511 of which are taken before the blocks. -/
def fullBlockRequest : CreateRequest where
  totalSize := 32576 * 64
  backingFile := none
  backingFormat := none
  encrypt := false
  clusterSize := 2 ^ 9

/-- Two blocks are counted on for 511 clusters, but there are 513 with the blocks. -/
theorem qcowCreate2_fullBlock :
    ¬∀ (req : CreateRequest) (clusterBits : Nat), minClusterBits ≤ clusterBits →
      clusterBits ≤ maxClusterBits → req.clusterSize = 2 ^ clusterBits →
        ∃ f, qcowCreate2 req = .ok f ∧ RefcountsRight req f := by
  intro h
  obtain ⟨f, hf, -⟩ := h fullBlockRequest 9 (by decide) (by decide) rfl
  obtain ⟨hfit, -⟩ := (qcowCreate2_ok_iff (by decide) (by decide) rfl f).mp hf
  exact absurd hfit.block_size (by decide)

end Create

end Qemu.Block
