import Qemu.Block.VdiRuns
import Qemu.Lib.Lanes

namespace Qemu.Block

open Lib

/-!
# Making and opening VDI images (`block/vdi.c`)

* `vdiCreate` — `vdi_create`: the file;
* `vdiOpen` — `vdi_open`: the checks of the header, the block map and the size in sectors;
* `Vdi.Usable` — all sectors can be written and read, after any writes;
* `vdiOpen_vdiCreate_iff` — the sizes of which images open and are usable.

The disk size in the header is the size that was asked for, and the number of blocks is rounded
down; the two must agree when the image is opened.
-/

/-! ### `vdi_create` -/

/-- The options of an image, and the two identifiers that are generated for it, as they are in the
    file. -/
structure VdiCreateOptions where
  size : BitVec 64
  static : Bool
  uuidImage : Fin 4 → BitVec 32
  uuidLastSnap : Fin 4 → BitVec 32

/-- `blocks`, which has 32 bits. -/
def VdiCreateOptions.blocks (o : VdiCreateOptions) : BitVec 32 := (o.size / 0x100000).setWidth 32

/-- The words of the header that do not change: the text, the signature, the version, the size of
    the header, the type of the image, the size of a sector, the disk size, the block size and the
    identifiers. -/
def VdiCreateOptions.words (o : VdiCreateOptions) : List (Nat × BitVec 32) :=
  [(0, 0x203c3c3c), (1, 0x554d4551), (2, 0x204d5620), (3, 0x74726956), (4, 0x206c6175),
    (5, 0x6b736944), (6, 0x616d4920), (7, 0x3e206567), (8, 0x000a3e3e),
    (16, 0xbeda107f), (17, 0x00010001), (18, 0x180), (19, if o.static then 2 else 1),
    (90, 512), (92, o.size.setWidth 32), (93, (o.size >>> 32).setWidth 32), (94, 0x100000),
    (98, o.uuidImage 0), (99, o.uuidImage 1), (100, o.uuidImage 2), (101, o.uuidImage 3),
    (102, o.uuidLastSnap 0), (103, o.uuidLastSnap 1), (104, o.uuidLastSnap 2),
    (105, o.uuidLastSnap 3)]

/-- The header that `vdi_create` fills in. -/
def VdiCreateOptions.header (o : VdiCreateOptions) : VdiHeader where
  other := ofLanes 4096 o.words
  offsetBmap := 0x200
  offsetData := BitVec.ofNat 32 (0x200 + vdiBmapSectors o.blocks.toNat * 512)
  blocksInImage := o.blocks
  blocksAllocated := if o.static then o.blocks else 0

/-- The block map that it writes. -/
def VdiCreateOptions.bmap (o : VdiCreateOptions) (i : Nat) : BitVec 32 :=
  if i < o.blocks.toNat then (if o.static then BitVec.ofNat 32 i else VDI_UNALLOCATED) else 0

/-- `vdi_create`, with the file that it leaves.  Behind the end the file is zero.  Without
    `CONFIG_ZERO_MALLOC` an empty block map is not allocated. -/
def vdiCreate (zeroMalloc : Bool) (o : VdiCreateOptions) : Option (Nat → Sector) :=
  if vdiBmapSectors o.blocks.toNat = 0 ∧ zeroMalloc = false then none
  else
    some (storeAt (fun _ => 0) 0 (vdiHeaderToLe o.header ::
      (List.range (vdiBmapSectors o.blocks.toNat)).map (vdiBmapSector o.bmap)))

/-! ### `vdi_open` -/

/-- A word of a sector. -/
def vdiWord (i : Nat) (s : Sector) : BitVec 32 := lane 32 i s

/-- The fields of the header that change. -/
def vdiHeaderMask : Sector :=
  sectorField 0xffffffff 340 ||| sectorField 0xffffffff 344 ||| sectorField 0xffffffff 384 |||
    sectorField 0xffffffff 388

/-- The header, with the fields that are used. -/
def vdiHeaderToCpu (s : Sector) : VdiHeader where
  other := s &&& ~~~vdiHeaderMask
  offsetBmap := vdiWord 85 s
  offsetData := vdiWord 86 s
  blocksInImage := vdiWord 96 s
  blocksAllocated := vdiWord 97 s

/-- `disk_size` -/
def vdiDiskSize (s : Sector) : BitVec 64 := lane 64 46 s

/-- `uuid_is_null`, of an identifier at a word of the header.  Without `CONFIG_UUID` it compares as
    many bytes as a pointer has, which are 8. -/
def vdiUuidNull (configUuid : Bool) (i : Nat) (s : Sector) : Bool :=
  decide (vdiWord i s = 0 ∧ vdiWord (i + 1) s = 0 ∧
    (configUuid = true → vdiWord (i + 2) s = 0 ∧ vdiWord (i + 3) s = 0))

/-- The bytes of a block map that are read: their number is an `int`. -/
def vdiBmapCount (bmapSize : Nat) : Int := (bmapSize * 512 : Int).bmod (2 ^ 32)

/-- `vdi_open`: the image, and its size in sectors.  `stale` is what is in the memory of the block
    map before it is read. -/
def vdiOpen (configUuid zeroMalloc : Bool) (stale : Nat → BitVec 32) (hd : Nat → Sector) :
    Option (Vdi × Nat) :=
  let sector := hd 0
  let header := vdiHeaderToCpu sector
  if vdiWord 17 sector ≠ 0x00010001 then none
  else if header.offsetBmap.toNat % 512 ≠ 0 then none
  else if header.offsetData.toNat % 512 ≠ 0 then none
  else if vdiWord 90 sector ≠ 512 then none
  else if vdiWord 94 sector ≠ 0x100000 then none
  else if vdiDiskSize sector ≠
      header.blocksInImage.setWidth 64 * (vdiWord 94 sector).setWidth 64 then none
  else if vdiUuidNull configUuid 106 sector = false then none
  else if vdiUuidNull configUuid 110 sector = false then none
  else
    let bmapSize := vdiBmapSectors header.blocksInImage.toNat
    let bmapSector := header.offsetBmap.toNat / 512
    if bmapSize = 0 ∧ zeroMalloc = false then none
    -- no file has a read of a negative number of bytes
    else if vdiBmapCount bmapSize < 0 then none
    else
      let bmap := fun i =>
        if i < bmapSize * vdiSectorEntries then
          if i * 4 < vdiBmapCount bmapSize then
            vdiWord (i % vdiSectorEntries) (hd (bmapSector + i / vdiSectorEntries))
          else stale i
        else 0
      some ({ bmap, header, hd }, (vdiDiskSize sector).toNat / 512)

/-! ### Images that can be used -/

/-- After any writes to the image, all of it can be read, and what is written is read back. -/
def Vdi.Usable (s : Vdi) (totalSectors : Nat) : Prop :=
  ∀ reqs : List (Nat × List Sector), (∀ req ∈ reqs, req.1 + req.2.length ≤ totalSectors) →
    ∃ s', runFrom (fun s req => vdiWrite s req.1 req.2) s reqs = some s' ∧
      (∀ a n, a + n ≤ totalSectors → ∃ data, vdiRead s' a n = some data ∧ data.length = n) ∧
      ∀ a data, a + data.length ≤ totalSectors →
        ∃ s'', vdiWrite s' a data = some s'' ∧ vdiRead s'' a data.length = some data

section

variable {s : Vdi} {o : VdiCreateOptions} {configUuid zeroMalloc : Bool} {stale : Nat → BitVec 32}
  {hd : Nat → Sector}

/-- What has been written is read back, whatever is left of other writes behind it. -/
theorem VdiWritten.read {s₀ : Vdi} {a : Nat} {data : List Sector} (h : VdiWritten s₀ a data s)
    (hin : a + data.length ≤ s₀.size) : vdiRead s a data.length = some data := by
  rw [vdiRead_eq (by rw [h.size]; exact hin), h.sector]
  refine congrArg some (List.ext_getElem (length_bytesAt _ _ _) fun i hi hi' => ?_)
  have hget := getElem?_bytesAt (vdiAfter s₀ a data (a + data.length)) a hi'
  rw [List.getElem?_eq_getElem hi] at hget
  rw [Option.some.inj hget, vdiAfter, if_pos ⟨Nat.le_add_right a i, by omega⟩,
    Nat.add_sub_cancel_left, List.getD_eq_getElem _ _ hi']

/-- A valid image can be used up to its size. -/
theorem Vdi.Valid.usable (h : s.Valid) : s.Usable s.size := by
  intro reqs hreqs
  obtain ⟨s', hrun, hvalid, hsize⟩ :
      ∃ s', runFrom (fun s req => vdiWrite s req.1 req.2) s reqs = some s' ∧
        (s'.Valid ∧ s'.size = s.size) :=
    runFrom_invariant (P := fun _ (req : Nat × List Sector) => req.1 + req.2.length ≤ s.size)
      (I := fun s' : Vdi => s'.Valid ∧ s'.size = s.size)
      (fun s₁ req h₁ hreq => by
        obtain ⟨s₂, hwrite, hwritten⟩ := vdiWrite_eq h₁.1 (by rw [h₁.2]; exact hreq)
        exact ⟨s₂, hwrite, hwritten.valid, hwritten.size.trans h₁.2⟩)
      ⟨h, rfl⟩ (StepsMeet.of_mem s hreqs)
  refine ⟨s', hrun, fun a n hn => ?_, fun a data hin => ?_⟩
  · rw [← hsize] at hn
    exact ⟨bytesAt s'.sector a n, vdiRead_eq hn, length_bytesAt _ _ _⟩
  · rw [← hsize] at hin
    obtain ⟨s'', hwrite, hwritten⟩ := vdiWrite_eq hvalid hin
    exact ⟨s'', hwrite, hwritten.read hin⟩

/-! ### The header -/

theorem sectorField_eq (x : BitVec 32) (i : Nat) : sectorField x (4 * i) = inLane 4096 i x := by
  rw [sectorField, inLane, show 8 * (4 * i) = i * 32 by omega]

/-- The words of the header. -/
def VdiCreateOptions.table (o : VdiCreateOptions) : List (Nat × BitVec 32) :=
  o.words ++ [(85, o.header.offsetBmap), (86, o.header.offsetData), (96, o.header.blocksInImage),
    (97, o.header.blocksAllocated)]

/-- The header is the lanes of its table of fields. -/
theorem vdiHeaderToLe_eq (o : VdiCreateOptions) :
    vdiHeaderToLe o.header = ofLanes 4096 o.table := by
  have hfields : ofLanes 4096 [(85, o.header.offsetBmap), (86, o.header.offsetData),
      (96, o.header.blocksInImage), (97, o.header.blocksAllocated)] =
        sectorField o.header.offsetBmap 340 ||| (sectorField o.header.offsetData 344 |||
          (sectorField o.header.blocksInImage 384 ||| sectorField o.header.blocksAllocated
            388)) := by
    rw [ofLanes, ofLanes, ofLanes, ofLanes, ofLanes, BitVec.or_zero, ← sectorField_eq,
      ← sectorField_eq, ← sectorField_eq, ← sectorField_eq]
  rw [VdiCreateOptions.table, ofLanes_append, hfields, vdiHeaderToLe, BitVec.or_assoc,
    BitVec.or_assoc, BitVec.or_assoc]
  rfl

theorem vdiWord_header (o : VdiCreateOptions) (i : Nat) :
    vdiWord i (vdiHeaderToLe o.header) = (o.table.lookup i).getD 0 := by
  rw [vdiHeaderToLe_eq, vdiWord, lane_ofLanes]
  · rfl
  · simp [VdiCreateOptions.table, VdiCreateOptions.words]
  · simp [VdiCreateOptions.table, VdiCreateOptions.words]

/-- The size of the disk is read back. -/
theorem vdiDiskSize_header (o : VdiCreateOptions) :
    vdiDiskSize (vdiHeaderToLe o.header) = o.size := by
  have hlow : lane 32 92 (vdiHeaderToLe o.header) = o.size.setWidth 32 := vdiWord_header o 92
  have hhigh : lane 32 93 (vdiHeaderToLe o.header) = (o.size >>> 32).setWidth 32 :=
    vdiWord_header o 93
  show lane (32 + 32) 46 _ = _
  rw [lane_halves, hhigh, hlow]
  apply BitVec.eq_of_getLsbD_eq
  intro k hk
  rw [BitVec.getLsbD_append]
  by_cases hk32 : k < 32
  · simp [hk32]
  · have hplace : 32 + (k - 32) = k := by omega
    simp [hk32, hplace, show k - 32 < 32 by omega]

/-! ### The file -/

/-- The words of a sector of the block map. -/
theorem vdiWord_bmapSector (bmap : Nat → BitVec 32) (k : Nat) {j : Nat}
    (hj : j < vdiSectorEntries) :
    vdiWord j (vdiBmapSector bmap k) = bmap (vdiSectorEntries * k + j) := by
  have hfold : ∀ n, n ≤ 128 → vdiWord j ((List.range n).foldl
      (fun acc i => acc ||| sectorField (bmap (vdiSectorEntries * k + i)) (4 * i)) 0) =
        if j < n then bmap (vdiSectorEntries * k + j) else 0 := by
    intro n hn
    induction n with
    | zero => exact lane_zero j
    | succ n ih =>
      rw [List.range_succ, List.foldl_append, List.foldl_cons, List.foldl_nil, vdiWord, lane_or]
      have hprev := ih (by omega)
      rw [vdiWord] at hprev
      rw [hprev, sectorField_eq]
      rcases Nat.lt_trichotomy j n with hlt | rfl | hgt
      · rw [if_pos hlt, if_pos (by omega), lane_inLane_of_ne hlt.ne]
        simp
      · rw [if_neg (lt_irrefl j), if_pos (by omega), lane_inLane_self (by omega)]
        simp
      · rw [if_neg (by omega), if_neg (by omega), lane_inLane_of_ne hgt.ne']
        simp
  rw [vdiBmapSector, hfold vdiSectorEntries le_rfl, if_pos hj]

theorem vdiCreate_some (h : vdiCreate zeroMalloc o = some hd) :
    ¬(vdiBmapSectors o.blocks.toNat = 0 ∧ zeroMalloc = false) ∧
      hd 0 = vdiHeaderToLe o.header ∧
        ∀ k, k < vdiBmapSectors o.blocks.toNat → hd (1 + k) = vdiBmapSector o.bmap k := by
  unfold vdiCreate at h
  split_ifs at h with hmalloc
  obtain rfl := Option.some.inj h
  refine ⟨hmalloc, rfl, fun k hk => ?_⟩
  rw [← Nat.zero_add (1 + k), storeAt_add _ _ (by simp; omega)]
  simp [Nat.add_comm 1 k]

theorem vdiCreate_bmap (h : vdiCreate zeroMalloc o = some hd) {i : Nat}
    (hi : i < vdiBmapSectors o.blocks.toNat * vdiSectorEntries) :
    vdiWord (i % vdiSectorEntries) (hd (1 + i / vdiSectorEntries)) = o.bmap i := by
  have hk : i / vdiSectorEntries < vdiBmapSectors o.blocks.toNat :=
    Nat.div_lt_of_lt_mul (by rwa [Nat.mul_comm])
  rw [(vdiCreate_some h).2.2 _ hk, vdiWord_bmapSector _ _ (Nat.mod_lt i (by decide)),
    Nat.div_add_mod]

/-! ### The checks -/

/-- The disk size is that of the blocks. -/
def VdiCreateOptions.Whole (o : VdiCreateOptions) : Prop :=
  o.size = o.blocks.setWidth 64 * (0x100000 : BitVec 32).setWidth 64

instance VdiCreateOptions.decidableWhole (o : VdiCreateOptions) : Decidable o.Whole :=
  inferInstanceAs (Decidable (_ = _))

theorem VdiCreateOptions.blocks_toNat (o : VdiCreateOptions) :
    o.blocks.toNat = o.size.toNat / 2 ^ 20 % 2 ^ 32 := by
  rw [blocks, BitVec.toNat_setWidth, BitVec.toNat_udiv]
  rfl

theorem VdiCreateOptions.whole_iff (o : VdiCreateOptions) :
    o.Whole ↔ o.size.toNat = o.blocks.toNat * 2 ^ 20 := by
  have hblocks := o.blocks.isLt
  rw [Whole, ← BitVec.toNat_inj, BitVec.toNat_mul, BitVec.toNat_setWidth]
  show _ = o.blocks.toNat % 2 ^ 64 * 2 ^ 20 % 2 ^ 64 ↔ _
  rw [Nat.mod_eq_of_lt (a := o.blocks.toNat) (by omega), Nat.mod_eq_of_lt (by omega)]

theorem vdiUuidNull_header (configUuid : Bool) (o : VdiCreateOptions) :
    vdiUuidNull configUuid 106 (vdiHeaderToLe o.header) = true ∧
      vdiUuidNull configUuid 110 (vdiHeaderToLe o.header) = true := by
  simp only [vdiUuidNull, vdiWord_header, decide_eq_true_eq]
  exact ⟨⟨rfl, rfl, fun _ => ⟨rfl, rfl⟩⟩, ⟨rfl, rfl, fun _ => ⟨rfl, rfl⟩⟩⟩

theorem vdiHeaderToCpu_header (o : VdiCreateOptions) :
    (vdiHeaderToCpu (vdiHeaderToLe o.header)).offsetBmap = 0x200 ∧
      (vdiHeaderToCpu (vdiHeaderToLe o.header)).offsetData = o.header.offsetData ∧
      (vdiHeaderToCpu (vdiHeaderToLe o.header)).blocksInImage = o.blocks ∧
      (vdiHeaderToCpu (vdiHeaderToLe o.header)).blocksAllocated = o.header.blocksAllocated :=
  ⟨vdiWord_header o 85, vdiWord_header o 86, vdiWord_header o 96, vdiWord_header o 97⟩

/-- The image that is opened. -/
def VdiCreateOptions.image (o : VdiCreateOptions) (stale : Nat → BitVec 32) (hd : Nat → Sector) :
    Vdi where
  bmap := fun i =>
    if i < vdiBmapSectors o.blocks.toNat * vdiSectorEntries then
      if i * 4 < vdiBmapCount (vdiBmapSectors o.blocks.toNat) then
        vdiWord (i % vdiSectorEntries) (hd (1 + i / vdiSectorEntries))
      else stale i
    else 0
  header := vdiHeaderToCpu (vdiHeaderToLe o.header)
  hd := hd

/-- **An image is opened** if its size is that of its blocks, and the length of its block map is not
    negative. -/
theorem vdiOpen_vdiCreate (h : vdiCreate zeroMalloc o = some hd) :
    vdiOpen configUuid zeroMalloc stale hd =
      if o.Whole ∧ 0 ≤ vdiBmapCount (vdiBmapSectors o.blocks.toNat) then
        some (o.image stale hd, o.size.toNat / 512)
      else none := by
  obtain ⟨hmalloc, hheader, -⟩ := vdiCreate_some h
  obtain ⟨hbmap, hdata, hblocks, -⟩ := vdiHeaderToCpu_header o
  obtain ⟨hlink, hparent⟩ := vdiUuidNull_header configUuid o
  have hversion : vdiWord 17 (vdiHeaderToLe o.header) = 0x00010001 :=
    vdiWord_header o 17
  have hsector : vdiWord 90 (vdiHeaderToLe o.header) = 512 := vdiWord_header o 90
  have hblock : vdiWord 94 (vdiHeaderToLe o.header) = 0x100000 :=
    vdiWord_header o 94
  have haligned : o.header.offsetData.toNat % 512 = 0 := by
    show (BitVec.ofNat 32 (0x200 + vdiBmapSectors o.blocks.toNat * 512)).toNat % 512 = 0
    rw [BitVec.toNat_ofNat]
    omega
  have hbmap0 : (0x200 : BitVec 32).toNat % 512 = 0 := rfl
  have hbmap1 : (0x200 : BitVec 32).toNat / 512 = 1 := rfl
  unfold vdiOpen
  simp only [hheader, hversion, hsector, hblock, hbmap, hdata, hblocks, hlink, hparent, hbmap0,
    hbmap1, haligned, vdiDiskSize_header, ne_eq, not_true_eq_false, if_false, Bool.true_eq_false,
    if_neg hmalloc]
  by_cases hwhole : o.Whole
  · have hsize : o.size = o.blocks.setWidth 64 * (0x100000 : BitVec 32).setWidth 64 := hwhole
    rw [if_neg (not_not.mpr hsize)]
    by_cases hread : 0 ≤ vdiBmapCount (vdiBmapSectors o.blocks.toNat)
    · rw [if_neg (not_lt.mpr hread), if_pos ⟨hwhole, hread⟩]
      rfl
    · rw [if_pos (not_le.mp hread), if_neg fun h => hread h.2]
  · have hsize : ¬o.size = o.blocks.setWidth 64 * (0x100000 : BitVec 32).setWidth 64 := hwhole
    rw [if_pos hsize, if_neg fun h => hwhole h.1]

/-! ### Images that open -/

/-- The length of a block map is that of the whole map, or an `int` and at least 4 GiB smaller. -/
theorem vdiBmapCount_cases (n : Nat) :
    vdiBmapCount n < 2 ^ 31 ∧ (n * 512 < 2 ^ 31 → vdiBmapCount n = n * 512) ∧
      (2 ^ 31 ≤ n * 512 → 0 ≤ vdiBmapCount n → 2 ^ 32 ≤ n * 512) := by
  unfold vdiBmapCount
  have hsum := Int.bmod_add_bdiv (n * 512) (2 ^ 32)
  have hlow := Int.le_bmod (x := n * 512) (m := 2 ^ 32) (by decide)
  have hhigh := Int.bmod_lt (x := n * 512) (m := 2 ^ 32) (by decide)
  generalize (n * 512 : Int).bmod (2 ^ 32) = count at *
  generalize (n * 512 : Int).bdiv (2 ^ 32) = k at *
  push_cast at *
  exact ⟨by omega, fun hsmall => by omega, fun hlarge hpos => by omega⟩

theorem VdiCreateOptions.image_header (o : VdiCreateOptions) (stale : Nat → BitVec 32)
    (hd : Nat → Sector) :
    (o.image stale hd).bmapSector = 1 ∧ (o.image stale hd).blocks = o.blocks.toNat := by
  obtain ⟨hbmap, -, hblocks, -⟩ := vdiHeaderToCpu_header o
  refine ⟨?_, congrArg BitVec.toNat hblocks⟩
  show (vdiHeaderToCpu _).offsetBmap.toNat / 512 = 1
  rw [hbmap]
  rfl

/-- A block map that is read whole is the one that was written. -/
theorem VdiCreateOptions.image_bmap (h : vdiCreate zeroMalloc o = some hd)
    (hread : vdiBmapSectors o.blocks.toNat * 512 < 2 ^ 31) {b : Nat} (hb : b < o.blocks.toNat) :
    (o.image stale hd).bmap b = if o.static then BitVec.ofNat 32 b else VDI_UNALLOCATED := by
  have hin : b < vdiBmapSectors o.blocks.toNat * vdiSectorEntries := by
    unfold vdiBmapSectors vdiSectorEntries
    omega
  have hcount : (b * 4 : Int) < vdiBmapCount (vdiBmapSectors o.blocks.toNat) := by
    rw [(vdiBmapCount_cases _).2.1 hread]
    unfold vdiSectorEntries at hin
    omega
  have hmap : (o.image stale hd).bmap b =
      vdiWord (b % vdiSectorEntries) (hd (1 + b / vdiSectorEntries)) :=
    (if_pos hin).trans (if_pos hcount)
  rw [hmap, vdiCreate_bmap h hin, bmap, if_pos hb]

/-- An image that opens is valid, whether its blocks are allocated or not. -/
theorem VdiCreateOptions.image_valid (h : vdiCreate zeroMalloc o = some hd)
    (hread : vdiBmapSectors o.blocks.toNat * 512 < 2 ^ 31) : (o.image stale hd).Valid := by
  obtain ⟨hbmap, hblocks⟩ := o.image_header stale hd
  obtain ⟨-, hdata, -, hallocated⟩ := vdiHeaderToCpu_header o
  have hlt : o.blocks.toNat < 2 ^ 30 := by
    unfold vdiBmapSectors at hread
    omega
  have htoNat : ∀ b, b < o.blocks.toNat → (BitVec.ofNat 32 b).toNat = b := fun b hb =>
    Nat.mod_eq_of_lt (by omega)
  -- a static image has its blocks in order, a dynamic one has none
  have hcount : (o.image stale hd).header.blocksAllocated = if o.static then o.blocks else 0 :=
    hallocated
  have hne : ∀ b, b < o.blocks.toNat → BitVec.ofNat 32 b ≠ VDI_UNALLOCATED := by
    intro b hb heq
    have hval := congrArg BitVec.toNat heq
    rw [htoNat b hb] at hval
    change b = 0xffffffff at hval
    omega
  constructor
  case bmap_pos => omega
  case bmap_le =>
    have hsector : (o.image stale hd).dataSector = 1 + vdiBmapSectors o.blocks.toNat := by
      show (vdiHeaderToCpu _).offsetData.toNat / 512 = _
      rw [hdata]
      show (BitVec.ofNat 32 (0x200 + vdiBmapSectors o.blocks.toNat * 512)).toNat / 512 = _
      rw [BitVec.toNat_ofNat, Nat.mod_eq_of_lt (by omega)]
      omega
    rw [hbmap, hblocks, hsector]
  case below =>
    intro b hb halloc
    rw [hblocks] at hb
    rw [image_bmap h hread hb] at halloc ⊢
    rw [hcount]
    cases hstatic : o.static with
    | true => simpa [htoNat b hb] using hb
    | false => simp [hstatic] at halloc
  case distinct =>
    intro b hb b' hb' halloc heq
    rw [hblocks] at hb hb'
    rw [image_bmap h hread hb] at halloc heq
    rw [image_bmap h hread hb'] at heq
    cases hstatic : o.static with
    | true =>
      have hval := congrArg BitVec.toNat heq
      simpa [hstatic, htoNat b hb, htoNat b' hb'] using hval
    | false => simp [hstatic] at halloc
  case count =>
    rw [hcount, hblocks]
    cases hstatic : o.static with
    | true =>
      rw [Finset.filter_true_of_mem, Finset.card_range]
      · rfl
      · intro b hb
        rw [image_bmap h hread (Finset.mem_range.mp hb), hstatic]
        exact hne b (Finset.mem_range.mp hb)
    | false =>
      rw [Finset.filter_false_of_mem, Finset.card_empty]
      · rfl
      · intro b hb
        rw [image_bmap h hread (Finset.mem_range.mp hb), hstatic]
        exact not_not.mpr rfl

/-! ### Block maps that are not read to the end -/

theorem vdiWritePart_keeps (acb : VdiAcb) {b : Nat} (hb : s.bmap b ≠ VDI_UNALLOCATED) :
    (vdiWritePart s acb).1.bmap b = s.bmap b ∧ (vdiWritePart s acb).1.blocks = s.blocks := by
  rw [vdiWritePart_eq]
  split_ifs with hfree
  · refine ⟨s.newBlock_bmap_of_ne ?_, rfl⟩
    rintro rfl
    exact hb hfree
  · exact ⟨rfl, rfl⟩

/-- A block that has a place keeps it. -/
theorem vdiWriteLoop_keeps {b : Nat} {fuel : Nat} {s' : Vdi} {acb : VdiAcb}
    (hb : s.bmap b ≠ VDI_UNALLOCATED) (h : vdiWriteLoop fuel s acb = some s') :
    s'.bmap b = s.bmap b ∧ s'.blocks = s.blocks := by
  induction fuel generalizing s acb with
  | zero => cases h
  | succ fuel ih =>
    have hstep : (vdiAioWriteCb s acb).1.bmap b = s.bmap b ∧
        (vdiAioWriteCb s acb).1.blocks = s.blocks := by
      rw [vdiAioWriteCb]
      split_ifs
      · exact ⟨rfl, rfl⟩
      · exact vdiWritePart_keeps _ hb
    rw [vdiWriteLoop] at h
    split at h
    · next hcb =>
      rw [hcb] at hstep
      rw [← Option.some.inj h]
      exact hstep
    · next s₁ acb₁ io hcb =>
      rw [hcb] at hstep
      have hb₁ : (s₁.land io).bmap b = s.bmap b := by rw [s₁.land_bmap, hstep.1]
      obtain ⟨hkept, hblocks⟩ := ih (by rwa [hb₁]) h
      refine ⟨hkept.trans hb₁, hblocks.trans ?_⟩
      rw [Vdi.blocks, s₁.land_header]
      exact hstep.2

/-- Two blocks in one place: what is written to both is not read back. -/
theorem Vdi.not_usable_of_eq {b : Nat} (hb : b + 1 < s.blocks) (halloc : s.bmap b ≠ VDI_UNALLOCATED)
    (heq : s.bmap (b + 1) = s.bmap b) : ¬s.Usable s.size := by
  intro h
  obtain ⟨s', hrun, -, hwrites⟩ := h [] (by simp)
  obtain rfl := Option.some.inj hrun
  have hin : b * vdiBlockSectors + (vdiBlockSectors + vdiBlockSectors) ≤ s.size := by
    rw [← Nat.two_mul, ← Nat.add_mul]
    exact Nat.mul_le_mul_right _ hb
  -- a block of zeros and one of ones
  obtain ⟨s'', hwrite, hread⟩ := hwrites (b * vdiBlockSectors)
    (List.replicate vdiBlockSectors 0 ++ List.replicate vdiBlockSectors 1)
    (by rwa [List.length_append, List.length_replicate, List.length_replicate])
  obtain ⟨hfirst, hblocks⟩ := vdiWriteLoop_keeps halloc hwrite
  have hsecond := (vdiWriteLoop_keeps (heq ▸ halloc) hwrite).1
  have hsize : s''.size = s.size := by rw [Vdi.size, hblocks, Vdi.size]
  rw [List.length_append, List.length_replicate, List.length_replicate,
    vdiRead_eq (by rwa [hsize])] at hread
  have hget (i : Nat) (hi : i < vdiBlockSectors + vdiBlockSectors) :=
    (getElem?_bytesAt s''.sector (b * vdiBlockSectors) hi).symm.trans
      (congrArg (·[i]?) (Option.some.inj hread))
  have hzero := hget 0 (by decide)
  have hone := hget vdiBlockSectors (by decide)
  rw [List.getElem?_append_left (by rw [List.length_replicate]; decide),
    List.getElem?_replicate_of_lt (by decide)] at hzero
  rw [List.getElem?_append_right (by rw [List.length_replicate]), List.length_replicate,
    Nat.sub_self, List.getElem?_replicate_of_lt (by decide)] at hone
  have hsame : s''.sector (b * vdiBlockSectors + vdiBlockSectors) =
      s''.sector (b * vdiBlockSectors + 0) := by
    have hb' : b + 1 < s''.blocks := hblocks ▸ hb
    have hplace : s''.place b = some (s''.blockSector (s.bmap b)) := by
      rw [s''.place_some (by omega) (by rwa [hfirst]), hfirst]
    have hplace' : s''.place (b + 1) = some (s''.blockSector (s.bmap b)) := by
      rw [s''.place_some hb' (by rwa [hsecond, heq]), hsecond, heq]
    rw [Vdi.sector, Vdi.sector, ← Nat.succ_mul,
      content_some (p := s''.blockSector (s.bmap b)) (by
        rw [Nat.mul_div_cancel _ vdiBlockSectors_pos]
        exact hplace'),
      content_some (p := s''.blockSector (s.bmap b)) (by
        rw [Nat.add_zero, Nat.mul_div_cancel _ vdiBlockSectors_pos]
        exact hplace)]
    simp only [Nat.add_zero, Nat.mul_mod_left]
  have hcontra : (0 : Sector) = 1 :=
    (Option.some.inj hzero).symm.trans (hsame.symm.trans (Option.some.inj hone))
  have hbit := congrArg (fun x : Sector => x.getLsbD 0) hcontra
  simp at hbit

/-- **VDI images.**  An image opens with the sectors that were asked for, and can be used, whatever
    is in the memory of its block map, if and only if its size is a multiple of 1 MiB and its block
    map is read at once. -/
theorem vdiOpen_vdiCreate_iff (h : vdiCreate zeroMalloc o = some hd) :
    (∀ stale, ∃ s totalSectors, vdiOpen configUuid zeroMalloc stale hd = some (s, totalSectors) ∧
        o.size.toNat / 512 ≤ totalSectors ∧ s.Usable totalSectors) ↔
      o.size.toNat % 2 ^ 20 = 0 ∧ o.size.toNat / 2 ^ 20 ≤ 2 ^ 29 - 128 := by
  have hblocks := o.blocks_toNat
  have hwhole := o.whole_iff
  have hcond : (o.Whole ∧ vdiBmapSectors o.blocks.toNat * 512 < 2 ^ 31) ↔
      o.size.toNat % 2 ^ 20 = 0 ∧ o.size.toNat / 2 ^ 20 ≤ 2 ^ 29 - 128 := by
    rw [hwhole, vdiBmapSectors]
    omega
  have hsize (hw : o.Whole) (stale : Nat → BitVec 32) :
      (o.image stale hd).size = o.size.toNat / 512 := by
    have hnat := hwhole.mp hw
    rw [Vdi.size, (o.image_header stale hd).2, vdiBlockSectors]
    omega
  obtain ⟨hlow, hsmall, hlarge⟩ := vdiBmapCount_cases (vdiBmapSectors o.blocks.toNat)
  rw [← hcond]
  constructor
  · intro hopens
    -- a map that is not read to the end, in memory that was zero
    obtain ⟨s, totalSectors, hopen, -, husable⟩ := hopens fun _ => 0
    rw [vdiOpen_vdiCreate h] at hopen
    split_ifs at hopen with hc
    refine ⟨hc.1, not_le.mp fun hmap => ?_⟩
    have hmap' := hlarge hmap hc.2
    obtain ⟨rfl, rfl⟩ := Prod.mk.inj (Option.some.inj hopen)
    have hmany : 2 ^ 29 + 1 < o.blocks.toNat := by
      unfold vdiBmapSectors at hmap'
      omega
    -- two entries behind those that are read
    have hstale {b : Nat} (hb : 2 ^ 29 ≤ b) (hb' : b < o.blocks.toNat) :
        (o.image (fun _ => 0) hd).bmap b = 0 := by
      refine (if_pos ?_).trans (if_neg (by omega))
      unfold vdiBmapSectors vdiSectorEntries
      omega
    have hfirst := hstale (le_refl (2 ^ 29)) (by omega)
    rw [← hsize hc.1 fun _ => 0] at husable
    refine Vdi.not_usable_of_eq (b := 2 ^ 29) ?_ ?_ ?_ husable
    · rwa [(o.image_header _ hd).2]
    · rw [hfirst]
      decide
    · rw [hfirst, hstale (Nat.le_succ _) hmany]
  · intro hc stale
    refine ⟨o.image stale hd, o.size.toNat / 512, ?_, le_rfl, ?_⟩
    · rw [vdiOpen_vdiCreate h, if_pos ⟨hc.1, by rw [hsmall hc.2]; omega⟩]
    · have hvalid : (o.image stale hd).Valid := o.image_valid h hc.2
      have husable := hvalid.usable
      rwa [hsize hc.1] at husable

end

end Qemu.Block
