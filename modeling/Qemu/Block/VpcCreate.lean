import Qemu.Block.VpcRuns

namespace Qemu.Block

open Lib

/-!
# Making and opening VPC images (`block/vpc.c`)

* `calculateGeometry` — `calculate_geometry`: cylinders, heads and sectors;
* `vpcCreate` — `vpc_create`: the file;
* `vpcOpen` — `vpc_open`: what is read of it;
* `Vpc.Usable` — all sectors can be written and read, after any writes;
* `vpcOpen_vpcCreate_iff` — the sizes of which images present all their sectors.

Cylinders are rounded up, but sectors in front of that are rounded down.
-/

/-! ### The geometry -/

/-- `cyls`, which has 16 bits. -/
def vpcCyls (cylsTimesHeads : Nat) (heads : BitVec 8) : BitVec 16 :=
  BitVec.ofNat 16 ((cylsTimesHeads + heads.toNat - 1) / heads.toNat)

/-- `calculate_geometry`: cylinders, heads and sectors of a cylinder. -/
def calculateGeometry (totalSectors : Nat) : Option (BitVec 16 × BitVec 8 × BitVec 8) :=
  if 65535 * 16 * 255 < totalSectors then none
  else if 65535 * 16 * 63 < totalSectors then
    some (vpcCyls (totalSectors / 255) 16, 16, 255)
  else
    let cylsTimesHeads := totalSectors / 17
    -- heads have 8 bits
    let heads := BitVec.ofNat 8 ((cylsTimesHeads + 1023) / 1024)
    let heads : BitVec 8 := if heads.toNat < 4 then 4 else heads
    let (cylsTimesHeads, heads, secsPerCyl) : Nat × BitVec 8 × BitVec 8 :=
      if heads.toNat * 1024 ≤ cylsTimesHeads ∨ 16 < heads.toNat then
        (totalSectors / 31, 16, 31)
      else (cylsTimesHeads, heads, 17)
    let (cylsTimesHeads, heads, secsPerCyl) : Nat × BitVec 8 × BitVec 8 :=
      if heads.toNat * 1024 ≤ cylsTimesHeads then (totalSectors / 63, 16, 63)
      else (cylsTimesHeads, heads, secsPerCyl)
    some (vpcCyls cylsTimesHeads heads, heads, secsPerCyl)

/-! ### `vpc_create` -/

/-- Writes of sectors that succeed. -/
def VpcFile.write (f : VpcFile) (offset : Nat) (data : List VpcSector) : VpcFile where
  content := storeAt f.content offset data
  size := max f.size (offset + data.length)
  failures := f.failures

/-- `struct vhd_dyndisk_header` in front of the checksum. -/
def vpcDynFront (p : VpcParams) : List (BitVec 8) :=
  [0x63, 0x78, 0x73, 0x70, 0x61, 0x72, 0x73, 0x65] ++ -- magic
  vpcBe 8 0xFFFFFFFF ++ -- data_offset
  vpcBe 8 (3 * 512) ++ -- table_offset
  vpcBe 4 0x00010000 ++ -- version
  vpcBe 4 p.batEntries ++ -- max_table_entries
  vpcBe 4 0x200000 -- block_size

/-- The first sector of the header, with a checksum. -/
def vpcDynHeaderWith (p : VpcParams) (checksum : BitVec 32) : VpcSector :=
  vpcDynFront p ++ (vpcBe 4 checksum.toNat ++ List.replicate 472 0)

/-- The header, which has two sectors. -/
def vpcDynHeader (p : VpcParams) : List VpcSector :=
  [vpcDynHeaderWith p (vpcChecksum (vpcDynHeaderWith p 0 ++ vpcZero)), vpcZero]

/-- The file that `vpc_create` leaves. -/
def vpcNewFile (p : VpcParams) : VpcFile :=
  let empty : VpcFile := { content := fun _ => vpcZero, size := 0, failures := 0 }
  (((empty.write 0 [vpcFooter p]).write p.firstFree [vpcFooter p]).write vpcBatSector
    (List.replicate ((p.batEntries * 4 + 511) / 512) (List.replicate 512 0xff))).write 1
      (vpcDynHeader p)

/-- `vpc_create`, of a size in bytes. -/
def vpcCreate (timestamp : BitVec 32) (size : BitVec 64) : Option VpcFile :=
  (calculateGeometry (size.toNat / 512)).map fun (cyls, heads, secsPerCyl) =>
    vpcNewFile { timestamp, cyls, heads, secsPerCyl }

/-! ### `vpc_open` -/

/-- The number that big endian bytes are. -/
def vpcOfBe (bytes : List (BitVec 8)) : Nat :=
  bytes.foldl (fun n byte => n * 256 + byte.toNat) 0

/-- A field of a structure. -/
def vpcField (buf : List (BitVec 8)) (offset len : Nat) : Nat :=
  vpcOfBe ((buf.drop offset).take len)

/-- `bdrv_pread` -/
def VpcFile.pread (f : VpcFile) (offset len : Nat) : List (BitVec 8) :=
  (List.range len).map fun i => (f.content ((offset + i) / 512)).getD ((offset + i) % 512) 0

/-- `BDRVVPCState`, with sizes as they are in the file. -/
structure VpcState where
  footerBuf : VpcSector
  totalSectors : Nat
  blockSize : Nat
  bitmapSize : Nat
  maxTableEntries : Nat
  batOffset : Nat
  pagetable : Nat → BitVec 32
  freeDataBlockOffset : Nat
  file : VpcFile

/-- `free_data_block_offset`: the end of the table, or of the last block. -/
def vpcFreeOffset (batOffset entries blockSize bitmapSize : Nat) (pagetable : Nat → BitVec 32) :
    Nat :=
  (List.range entries).foldl
    (fun free i =>
      if pagetable i ≠ VPC_UNALLOCATED then
        max free (512 * (pagetable i).toNat + bitmapSize + blockSize)
      else free)
    ((batOffset + entries * 4 + 511) / 512 * 512)

/-- `vpc_open`.  A wrong checksum is told, but the image is opened.  Without `CONFIG_ZERO_MALLOC` an
    empty table is not allocated. -/
def vpcOpen (zeroMalloc : Bool) (f : VpcFile) : Option VpcState :=
  let footer := f.pread 0 512
  if footer.take 8 ≠ [0x63, 0x6f, 0x6e, 0x65, 0x63, 0x74, 0x69, 0x78] then none
  else
    let header := f.pread (vpcField footer 16 8) 512
    if header.take 8 ≠ [0x63, 0x78, 0x73, 0x70, 0x61, 0x72, 0x73, 0x65] then none
    else
      let blockSize := vpcField header 32 4
      let bitmapSize := (blockSize / (8 * 512) + 511) / 512 * 512
      let maxTableEntries := vpcField header 28 4
      if maxTableEntries = 0 ∧ zeroMalloc = false then none
      -- the size of the table is an `int`
      else if 2 ^ 31 ≤ maxTableEntries * 4 then none
      else
        let batOffset := vpcField header 16 8
        let pagetable := fun i =>
          if i < maxTableEntries then
            BitVec.ofNat 32 (vpcField (f.pread (batOffset + 4 * i) 4) 0 4)
          else VPC_UNALLOCATED
        some {
          footerBuf := footer.take 64 ++ (vpcBe 4 0 ++ footer.drop 68)
          totalSectors := vpcField footer 56 2 * vpcField footer 58 1 * vpcField footer 59 1
          blockSize, bitmapSize, maxTableEntries, batOffset, pagetable
          freeDataBlockOffset :=
            vpcFreeOffset batOffset maxTableEntries blockSize bitmapSize pagetable
          file := f }

/-- The image, if its sizes are those that `vpc_create` gives it. -/
def VpcState.image (s : VpcState) : Option Vpc :=
  if s.blockSize = 512 * vpcBlockSectors ∧ s.bitmapSize = 512 * vpcBitmapSectors ∧
      s.batOffset = 512 * vpcBatSector ∧ s.freeDataBlockOffset % 512 = 0 then
    some {
      footerBuf := s.footerBuf
      freeDataBlock := s.freeDataBlockOffset / 512
      maxTableEntries := s.maxTableEntries
      totalSectors := s.totalSectors
      pagetable := s.pagetable
      lastBitmap := none
      file := s.file }
  else none

/-! ### Images that can be used -/

/-- A write, if it succeeds. -/
def vpcWriteOk (s : Vpc) (req : Nat × List VpcSector) : Option Vpc :=
  match vpcWrite s req.1 (req.2.map fun x => (x, .ok)) with
  | (s, true) => some s
  | (_, false) => none

/-- After any writes to the image, what is written is read back. -/
def Vpc.Usable (s : Vpc) (totalSectors : Nat) : Prop :=
  ∀ reqs : List (Nat × List VpcSector), (∀ req ∈ reqs, req.1 + req.2.length ≤ totalSectors) →
    ∃ s', runFrom vpcWriteOk s reqs = some s' ∧
      ∀ a data, a + data.length ≤ totalSectors →
        ∃ s'', vpcWriteOk s' (a, data) = some s'' ∧ vpcRead s'' a data.length = data

section

variable {p : VpcParams} {s s' : Vpc} {v : Nat}

theorem Vpc.Inv.entry_lt (h : s.Inv p) (hv : v < p.totalSectors) :
    v / vpcBlockSectors < s.maxTableEntries := by
  rw [h.entries, VpcParams.batEntries]
  unfold vpcBlockSectors
  omega

theorem Vpc.Inv.free_lt_unallocated (h : s.Inv p) : s.freeDataBlock < 0xffffffff := by
  have hcard := (Finset.card_filter_le (Finset.range s.maxTableEntries) fun i =>
    s.pagetable i ≠ VPC_UNALLOCATED ∧ s.pagetable i ≠ BitVec.ofNat 32 s.freeDataBlock).trans_eq
      (Finset.card_range _)
  have hroom := p.firstFree_add_lt
  rw [← h.entries] at hroom
  have hcount := h.count
  unfold vpcBlockSectors vpcBitmapSectors at *
  omega

/-- Blocks in front of the first free one have not been left by failures. -/
theorem Vpc.Inv.noneFailed (h : s.Inv p)
    (hbelow : ∀ i < s.maxTableEntries, s.pagetable i ≠ VPC_UNALLOCATED →
      (s.pagetable i).toNat < s.freeDataBlock) : s.NoneFailed := by
  have hlt := h.free_lt_unallocated
  intro i hi heq
  have hval : (s.pagetable i).toNat = s.freeDataBlock := by
    rw [heq, BitVec.toNat_ofNat, Nat.mod_eq_of_lt (by omega)]
  have hne : s.pagetable i ≠ VPC_UNALLOCATED := by
    intro hun
    rw [hun] at hval
    change 0xffffffff = s.freeDataBlock at hval
    omega
  have := hbelow i hi hne
  omega

/-- What `alloc_block` leaves if all writes to the file succeed. -/
theorem allocBlock_ok (h : s.Inv p) (hv : v < p.totalSectors)
    (hfree : s.pagetable (v / vpcBlockSectors) = VPC_UNALLOCATED) :
    ∃ s₁ o, allocBlock s v .ok = (s₁, some o) ∧ VpcAllocated p s (v / vpcBlockSectors) s₁ ∧
      s₁.freeDataBlock = s.freeDataBlock + (vpcBlockSectors + vpcBitmapSectors) := by
  have hb : v / vpcBlockSectors < s.maxTableEntries := h.entry_lt hv
  have htotal : v ≤ s.totalSectors := by
    rw [h.total]
    omega
  have halloc := allocBlock_allocated h htotal hb hfree .ok
  have heq : allocBlock s v .ok =
    getSectorOffset ((s.takeBlock (v / vpcBlockSectors) .ok).writeEntry
      (v / vpcBlockSectors) .ok) v false .ok := allocBlock_eq htotal hfree .ok
  have hfst := getSectorOffset_fst ((s.takeBlock (v / vpcBlockSectors) .ok).writeEntry
    (v / vpcBlockSectors) .ok) v .ok
  rw [← heq] at hfst
  have hplace := getSectorOffset_snd ((s.takeBlock (v / vpcBlockSectors) .ok).writeEntry
    (v / vpcBlockSectors) .ok) v false .ok
  rw [← heq, ← hfst, Vpc.place_some (halloc.entries ▸ hb) (by
    rw [halloc.pagetable_self]
    exact h.free_ne hb hfree)] at hplace
  exact ⟨_, _, Prod.ext rfl hplace, halloc, congrArg Vpc.freeDataBlock hfst⟩

/-- **A write of a sector** succeeds if all writes to the file do. -/
theorem Vpc.Inv.write_ok (h : s.Inv p) (hnone : s.NoneFailed) (hv : v < p.totalSectors)
    (x : VpcSector) : (vpcWriteSector s v x .ok).2 = true ∧
      (vpcWriteSector s v x .ok).1.NoneFailed := by
  have hinv : (vpcWriteSector s v x .ok).1.Inv p := (h.write_sector hv x fun _ => hnone).inv
  have hb : v / vpcBlockSectors < s.maxTableEntries := h.entry_lt hv
  by_cases hfree : s.pagetable (v / vpcBlockSectors) = VPC_UNALLOCATED
  · obtain ⟨s₁, o, halloc, ha, hgrown⟩ := allocBlock_ok h hv hfree
    have hget : getSectorOffset s v true .ok = (s, none) := if_pos (.inr hfree)
    have hwrite : vpcWriteSector s v x .ok = (s₁.pwrite o x none, true) := by
      simp only [vpcWriteSector, hget, halloc]
      rfl
    rw [hwrite] at hinv ⊢
    refine ⟨rfl, hinv.noneFailed fun i hi hne => ?_⟩
    change i < s₁.maxTableEntries at hi
    change s₁.pagetable i ≠ VPC_UNALLOCATED at hne
    show (s₁.pagetable i).toNat < s₁.freeDataBlock
    rw [hgrown]
    unfold vpcBlockSectors vpcBitmapSectors at *
    by_cases hself : i = v / 4096
    -- the new block is the last one
    · rw [hself, ha.pagetable_self, h.toNat_free hb hfree]
      omega
    · rw [ha.pagetable_of_ne hself] at hne ⊢
      have hbelow := h.below hnone (ha.entries ▸ hi) hne
      unfold vpcBlockSectors vpcBitmapSectors at hbelow
      omega
  · have hget : getSectorOffset s v true .ok = _ :=
      if_neg (not_or.mpr ⟨Nat.not_le.mpr hb, hfree⟩)
    rw [vpcWriteSector, hget]
    refine ⟨rfl, fun i hi => ?_⟩
    dsimp only [Vpc.pwrite] at hi ⊢
    split_ifs at hi ⊢
    · exact hnone i hi
    · exact hnone i hi

/-- **A call** succeeds if all writes to the file do. -/
theorem Vpc.Inv.writes_ok (h : s.Inv p) (hnone : s.NoneFailed) {a : Nat} {data : List VpcSector}
    (hin : a + data.length ≤ p.totalSectors) :
    (vpcWrite s a (data.map fun x => (x, .ok))).2 = true ∧
      (vpcWrite s a (data.map fun x => (x, .ok))).1.NoneFailed ∧
      VpcCallMeets VpcFits s a (data.map fun x => (x, .ok)) := by
  induction data generalizing s a with
  | nil => exact ⟨rfl, hnone, trivial⟩
  | cons x rest ih =>
    rw [List.length_cons] at hin
    obtain ⟨hok, hnone'⟩ := h.write_ok (v := a) hnone (by omega) x
    have hinv : (vpcWriteSector s a x .ok).1.Inv p :=
      (h.write_sector (by omega) x fun _ => hnone).inv
    obtain ⟨hok', hnone'', hmeets⟩ := ih hinv hnone' (a := a + 1) (by omega)
    rw [List.map_cons, vpcWrite_cons, if_pos hok]
    exact ⟨hok', hnone'', fun _ => hnone, fun _ => hmeets⟩

/-- A write without failures keeps the invariant, and is read back. -/
theorem Vpc.Inv.writeOk (h : s.Inv p) (hnone : s.NoneFailed) {a : Nat} {data : List VpcSector}
    (hin : a + data.length ≤ p.totalSectors) :
    ∃ s', vpcWriteOk s (a, data) = some s' ∧ s'.Inv p ∧ s'.NoneFailed ∧
      vpcRead s' a data.length = data := by
  obtain ⟨hok, hnone', hmeets⟩ := h.writes_ok hnone hin
  obtain ⟨hinv, -, hself⟩ := vpcWrite_written h (by rwa [List.length_map]) hmeets
  refine ⟨(vpcWrite s a (data.map fun x => (x, .ok))).1, ?_, hinv, hnone', ?_⟩
  · unfold vpcWriteOk
    dsimp only
    cases hwrite : vpcWrite s a (data.map fun x => (x, .ok)) with
    | mk s₁ ok =>
      rw [hwrite] at hok
      obtain rfl : ok = true := hok
      rfl
  · rw [vpcRead_eq]
    refine List.ext_getElem (length_bytesAt _ _ _) fun k hk hk' => ?_
    have hget := getElem?_bytesAt
      (vpcWrite s a (data.map fun x => (x, .ok))).1.sector a hk'
    rw [List.getElem?_eq_getElem hk] at hget
    rw [Option.some.inj hget, hself hok k (by rwa [List.length_map]), List.getElem_map]

/-- An image without failures can be used up to its size. -/
theorem Vpc.Inv.usable (h : s.Inv p) (hnone : s.NoneFailed) : s.Usable p.totalSectors := by
  intro reqs hreqs
  obtain ⟨s', hrun, hinv, hnone'⟩ : ∃ s', runFrom vpcWriteOk s reqs = some s' ∧
      (s'.Inv p ∧ s'.NoneFailed) :=
    runFrom_invariant
      (P := fun _ (req : Nat × List VpcSector) => req.1 + req.2.length ≤ p.totalSectors)
      (I := fun s' : Vpc => s'.Inv p ∧ s'.NoneFailed)
      (fun s₁ req h₁ hreq => by
        obtain ⟨s₂, hwrite, hinv, hnone', -⟩ := h₁.1.writeOk h₁.2 hreq
        exact ⟨s₂, hwrite, hinv, hnone'⟩)
      ⟨h, hnone⟩ (StepsMeet.of_mem s hreqs)
  refine ⟨s', hrun, fun a data hin => ?_⟩
  obtain ⟨s'', hwrite, -, -, hread⟩ := hinv.writeOk hnone' hin
  exact ⟨s'', hwrite, hread⟩

/-! ### Roundings -/

/-- Cylinders are rounded up, which makes good what rounding down has lost if there is anything to
    round up. -/
theorem le_roundUp_iff {t heads secs : Nat} (hheads : 0 < heads) (hsecs : 0 < secs) :
    t ≤ (t / secs + heads - 1) / heads * heads * secs ↔ t % secs = 0 ∨ t / secs % heads ≠ 0 := by
  have ht := Nat.div_add_mod t secs
  have hr := Nat.mod_lt t hsecs
  have hc := Nat.div_add_mod (t / secs) heads
  have hm := Nat.mod_lt (t / secs) hheads
  generalize t / secs / heads = q at *
  generalize t / secs % heads = m at *
  generalize t / secs = c at *
  by_cases hzero : m = 0
  · have hup : (c + heads - 1) / heads = q := by
      rw [show c + heads - 1 = heads * q + (heads - 1) by omega, Nat.mul_add_div hheads,
        Nat.div_eq_of_lt (by omega), Nat.add_zero]
    have hmul : q * heads * secs = secs * c := by
      rw [Nat.mul_comm q, Nat.mul_comm _ secs, show heads * q = c by omega]
    rw [hup, hmul]
    omega
  · have hup : (c + heads - 1) / heads = q + 1 := by
      have hsucc : heads * (q + 1) = heads * q + heads := Nat.mul_succ ..
      rw [show c + heads - 1 = heads * (q + 1) + (m - 1) by omega, Nat.mul_add_div hheads,
        Nat.div_eq_of_lt (by omega), Nat.add_zero]
    have hmore : (c + 1) * secs ≤ (q + 1) * heads * secs := by
      refine Nat.mul_le_mul_right secs ?_
      rw [Nat.add_mul, Nat.one_mul, Nat.mul_comm q]
      omega
    rw [Nat.add_mul, Nat.one_mul, Nat.mul_comm c] at hmore
    rw [hup]
    exact ⟨fun _ => .inr hzero, fun _ => by omega⟩

/-- The sizes, in sectors, that are not rounded down. -/
def VpcSizeFits (t : Nat) : Prop :=
  if 65535 * 16 * 63 < t then t % 255 = 0 ∨ t / 255 % 16 ≠ 0
  else if t < 17 * 4096 then t % 17 = 0 ∨ t / 17 % 4 ≠ 0
  else if t < 17 * 16384 ∧ t / 17 % 1024 ≠ 0 then
    t % 17 = 0 ∨ t / 17 % (t / 17 / 1024 + 1) ≠ 0
  else if t < 31 * 16384 then t % 31 = 0 ∨ t / 31 % 16 ≠ 0
  else t % 63 = 0 ∨ t / 63 % 16 ≠ 0

theorem vpcHeads_toNat (c : Nat) :
    (if (BitVec.ofNat 8 ((c + 1023) / 1024)).toNat < 4 then (4 : BitVec 8)
      else BitVec.ofNat 8 ((c + 1023) / 1024)).toNat = max 4 ((c + 1023) / 1024 % 256) := by
  rw [BitVec.toNat_ofNat]
  split_ifs with hfew
  · show 4 = max 4 _
    exact (max_eq_left (by omega)).symm
  · rw [BitVec.toNat_ofNat]
    exact (max_eq_right (by omega)).symm

/-- `calculate_geometry`, with its divisions worked out. -/
theorem calculateGeometry_eq (t : Nat) : calculateGeometry t =
    if 65535 * 16 * 255 < t then none
    else if 65535 * 16 * 63 < t then some (vpcCyls (t / 255) 16, 16, 255)
    else if t < 17 * 4096 then some (vpcCyls (t / 17) 4, 4, 17)
    else if t < 17 * 16384 ∧ t / 17 % 1024 ≠ 0 then
      some (vpcCyls (t / 17) (BitVec.ofNat 8 (t / 17 / 1024 + 1)),
        BitVec.ofNat 8 (t / 17 / 1024 + 1), 17)
    else if t < 31 * 16384 then some (vpcCyls (t / 31) 16, 16, 31)
    else some (vpcCyls (t / 63) 16, 16, 63) := by
  unfold calculateGeometry
  by_cases hbig : 65535 * 16 * 255 < t
  · rw [if_pos hbig, if_pos hbig]
  rw [if_neg hbig, if_neg hbig]
  by_cases hlarge : 65535 * 16 * 63 < t
  · rw [if_pos hlarge, if_pos hlarge]
  rw [if_neg hlarge, if_neg hlarge]
  have hheads := vpcHeads_toNat (t / 17)
  dsimp only
  generalize (if (BitVec.ofNat 8 ((t / 17 + 1023) / 1024)).toNat < 4 then (4 : BitVec 8)
    else BitVec.ofNat 8 ((t / 17 + 1023) / 1024)) = heads at *
  -- one geometry after the other, each if the one before has too many cylinders
  by_cases hfirst : t < 17 * 4096 ∨ (t < 17 * 16384 ∧ t / 17 % 1024 ≠ 0)
  · have hfew : ¬(heads.toNat * 1024 ≤ t / 17 ∨ 16 < heads.toNat) := by omega
    rw [if_neg hfew, if_neg fun hle => hfew (.inl hle)]
    by_cases hsmall : t < 17 * 4096
    · obtain rfl : heads = 4 := BitVec.eq_of_toNat_eq (hheads.trans (max_eq_left (by omega)))
      rw [if_pos hsmall]
    · obtain rfl : heads = BitVec.ofNat 8 (t / 17 / 1024 + 1) := by
        refine BitVec.eq_of_toNat_eq ?_
        rw [hheads, BitVec.toNat_ofNat]
        omega
      rw [if_neg hsmall, if_pos (hfirst.resolve_left hsmall)]
  · have hmany : heads.toNat * 1024 ≤ t / 17 ∨ 16 < heads.toNat := by omega
    have h16 : (16 : BitVec 8).toNat * 1024 = 16384 := rfl
    rw [if_neg fun h => hfirst (.inl h), if_neg fun h => hfirst (.inr h), if_pos hmany]
    dsimp only
    rw [h16]
    by_cases hsecond : t < 31 * 16384
    · rw [if_pos hsecond, if_neg (by omega)]
    · rw [if_neg hsecond, if_pos (by omega)]

/-- **The geometry** has all sectors if they are not rounded down. -/
theorem calculateGeometry_le_iff {t : Nat} {cyls : BitVec 16} {heads secsPerCyl : BitVec 8}
    (h : calculateGeometry t = some (cyls, heads, secsPerCyl)) :
    t ≤ cyls.toNat * heads.toNat * secsPerCyl.toNat ↔ VpcSizeFits t := by
  have hround : ∀ (n : Nat) (m : BitVec 8), 0 < m.toNat → 0 < n → t / n ≤ 65535 * m.toNat →
      (t ≤ (vpcCyls (t / n) m).toNat * m.toNat * n ↔ t % n = 0 ∨ t / n % m.toNat ≠ 0) := by
    intro n m hm hn hle
    have hcyls : (vpcCyls (t / n) m).toNat = (t / n + m.toNat - 1) / m.toNat := by
      rw [vpcCyls, BitVec.toNat_ofNat]
      refine Nat.mod_eq_of_lt ((Nat.div_lt_iff_lt_mul hm).mpr ?_)
      show _ < 65536 * m.toNat
      omega
    rw [hcyls]
    exact le_roundUp_iff hm hn
  have h4 : (4 : BitVec 8).toNat = 4 := rfl
  have h16 : (16 : BitVec 8).toNat = 16 := rfl
  rw [calculateGeometry_eq] at h
  unfold VpcSizeFits
  split_ifs at h ⊢ with hbig hlarge hsmall hmedium hmore
  all_goals
    obtain ⟨rfl, rfl, rfl⟩ := by simpa using h
  · exact hround 255 16 (by omega) (by omega) (by omega)
  · exact hround 17 4 (by omega) (by omega) (by omega)
  · have hval : (BitVec.ofNat 8 (t / 17 / 1024 + 1)).toNat = t / 17 / 1024 + 1 := by
      rw [BitVec.toNat_ofNat]
      omega
    have hmedium := hround 17 (BitVec.ofNat 8 (t / 17 / 1024 + 1)) (by omega) (by omega) (by omega)
    rw [hval] at hmedium ⊢
    exact hmedium
  · exact hround 31 16 (by omega) (by omega) (by omega)
  · exact hround 63 16 (by omega) (by omega) (by omega)

/-! ### Fields -/

@[simp] theorem length_vpcBe (n x : Nat) : (vpcBe n x).length = n := by
  rw [vpcBe, List.length_map, List.length_range]

theorem vpcBe_succ (n x : Nat) : vpcBe (n + 1) x = vpcBe n (x / 256) ++ [BitVec.ofNat 8 x] := by
  unfold vpcBe
  rw [List.range_succ, List.map_append, List.map_singleton]
  congr 1
  · refine List.map_congr_left fun i hi => ?_
    have hi := List.mem_range.mp hi
    rw [show 8 * (n + 1 - 1 - i) = 8 + 8 * (n - 1 - i) by omega, Nat.shiftRight_add,
      Nat.shiftRight_eq_div_pow x 8]
  · rw [Nat.add_sub_cancel, Nat.sub_self]
    rfl

theorem vpcOfBe_vpcBe (n x : Nat) : vpcOfBe (vpcBe n x) = x % 256 ^ n := by
  induction n generalizing x with
  | zero => exact (Nat.mod_one x).symm
  | succ n ih =>
    have hprefix := ih (x / 256)
    have hpow : 256 ^ (n + 1) = 256 * 256 ^ n := Nat.pow_succ'
    unfold vpcOfBe at hprefix ⊢
    rw [vpcBe_succ, List.foldl_append, hprefix, List.foldl_cons, List.foldl_nil, BitVec.toNat_ofNat,
      hpow, Nat.mod_mul]
    omega

theorem vpcField_skip {front rest : List (BitVec 8)} {offset len : Nat}
    (h : front.length ≤ offset) :
    vpcField (front ++ rest) offset len = vpcField rest (offset - front.length) len := by
  rw [vpcField, vpcField, List.drop_append, List.drop_eq_nil_of_le h, List.nil_append]

theorem vpcField_here {field rest : List (BitVec 8)} {len : Nat} (h : field.length = len) :
    vpcField (field ++ rest) 0 len = vpcOfBe field := by
  rw [vpcField, List.drop_zero, List.take_left' h]

/-- A sector is read whole. -/
theorem VpcFile.pread_sector (f : VpcFile) {k : Nat} (hlen : (f.content k).length = 512) :
    f.pread (512 * k) 512 = f.content k := by
  apply List.ext_getElem?
  intro i
  rw [pread, List.getElem?_map]
  by_cases hi : i < 512
  · rw [List.getElem?_range hi, Option.map_some, Nat.mul_add_div (by decide), Nat.mul_add_mod,
      Nat.div_eq_of_lt hi, Nat.mod_eq_of_lt hi, Nat.add_zero, List.getD_eq_getElem?_getD,
      List.getElem?_eq_getElem (by omega), Option.getD_some]
  · rw [List.getElem?_eq_none (by simp; omega), List.getElem?_eq_none (by omega)]
    rfl

/-! ### The file -/

@[simp] theorem length_vpcFooterFront (p : VpcParams) : (vpcFooterFront p).length = 64 := by
  simp [vpcFooterFront]

@[simp] theorem length_vpcFooter (p : VpcParams) : (vpcFooter p).length = 512 := by
  rw [vpcFooter, vpcFooterWith, List.length_append, List.length_append, length_vpcBe,
    List.length_replicate, length_vpcFooterFront]

theorem vpcFooter_cleared (p : VpcParams) :
    (vpcFooter p).take 64 ++ (vpcBe 4 0 ++ (vpcFooter p).drop 68) = vpcFooterWith p 0 := by
  have hdrop : (vpcFooter p).drop (64 + 4) = List.replicate 444 0 := by
    rw [← List.drop_drop, vpcFooter, vpcFooterWith, List.drop_left' (length_vpcFooterFront p),
      List.drop_left' (length_vpcBe 4 _)]
  rw [hdrop, vpcFooter, vpcFooterWith, List.take_left' (length_vpcFooterFront p)]
  rfl

@[simp] theorem length_vpcDynHeaderWith (p : VpcParams) (checksum : BitVec 32) :
    (vpcDynHeaderWith p checksum).length = 512 := by
  have hfront : (vpcDynFront p).length = 36 := by
    simp [vpcDynFront]
  rw [vpcDynHeaderWith, List.length_append, List.length_append, length_vpcBe,
    List.length_replicate, hfront]

theorem VpcParams.batEntries_bounds (p : VpcParams) : 0 < p.batEntries ∧ p.batEntries < 2 ^ 21 := by
  have hcyls := Nat.le_of_lt_succ p.cyls.isLt
  have hheads := Nat.le_of_lt_succ p.heads.isLt
  have hsecs := Nat.le_of_lt_succ p.secsPerCyl.isLt
  have htotal : p.totalSectors ≤ 65535 * 255 * 255 :=
    Nat.mul_le_mul (Nat.mul_le_mul hcyls hheads) hsecs
  unfold batEntries vpcBlockSectors
  omega

theorem VpcFile.write_of_lt (f : VpcFile) {offset k : Nat} (data : List VpcSector)
    (h : k < offset) : (f.write offset data).content k = f.content k :=
  storeAt_of_lt h

theorem VpcFile.write_of_le (f : VpcFile) {offset k : Nat} {data : List VpcSector}
    (h : offset + data.length ≤ k) : (f.write offset data).content k = f.content k :=
  storeAt_of_le h

theorem VpcFile.write_self (f : VpcFile) (offset : Nat) (x : VpcSector) (rest : List VpcSector) :
    (f.write offset (x :: rest)).content offset = x := by
  have hlen : 0 < (x :: rest).length := Nat.succ_pos _
  exact storeAt_add f.content offset hlen

theorem VpcParams.firstFree_eq (p : VpcParams) :
    p.firstFree = vpcBatSector + (p.batEntries * 4 + 511) / 512 := rfl

/-- What the header and the table do not reach. -/
theorem vpcNewFile_outside (p : VpcParams) {k : Nat} (hk : k = 0 ∨ p.firstFree ≤ k) :
    (vpcNewFile p).content k = if k = 0 ∨ k = p.firstFree then vpcFooter p else vpcZero := by
  have hentries := p.batEntries_bounds
  have hfirst := p.firstFree_eq
  have hbat : vpcBatSector = 3 := rfl
  have hlen : (vpcDynHeader p).length = 2 := rfl
  unfold vpcNewFile
  dsimp only
  rcases hk with rfl | hk
  · rw [VpcFile.write_of_lt _ _ (by omega), VpcFile.write_of_lt _ _ (by omega),
      VpcFile.write_of_lt _ _ (by omega), VpcFile.write_self, if_pos (.inl rfl)]
  · rw [VpcFile.write_of_le _ (by omega),
      VpcFile.write_of_le _ (by rw [List.length_replicate]; omega)]
    by_cases hfoot : k = p.firstFree
    · rw [if_pos (.inr hfoot), hfoot, VpcFile.write_self]
    · rw [if_neg (by omega), VpcFile.write_of_le _ (by rw [List.length_singleton]; omega),
        VpcFile.write_of_le _ (by rw [List.length_singleton]; omega)]

theorem vpcNewFile_header (p : VpcParams) : (vpcNewFile p).content 1 =
    vpcDynHeaderWith p (vpcChecksum (vpcDynHeaderWith p 0 ++ vpcZero)) :=
  VpcFile.write_self _ _ _ _

/-- The table. -/
theorem vpcNewFile_table (p : VpcParams) {k : Nat} (hk : vpcBatSector + k < p.firstFree) :
    (vpcNewFile p).content (vpcBatSector + k) = List.replicate 512 0xff := by
  have hin : k < (p.batEntries * 4 + 511) / 512 := Nat.lt_of_add_lt_add_left hk
  have hbat : vpcBatSector = 3 := rfl
  have hlen : (vpcDynHeader p).length = 2 := rfl
  have hstore := storeAt_add (((({ content := fun _ => vpcZero, size := 0, failures := 0 } :
    VpcFile).write 0 [vpcFooter p]).write p.firstFree [vpcFooter p]).content) vpcBatSector
      (l := List.replicate ((p.batEntries * 4 + 511) / 512) (List.replicate 512 0xff)) (i := k)
      (by rwa [List.length_replicate])
  unfold vpcNewFile
  dsimp only
  rw [VpcFile.write_of_le _ (by omega)]
  exact hstore.trans (List.getElem_replicate _)

/-! ### Opening it -/

/-- No block is there yet. -/
theorem vpcNewFile_entry (p : VpcParams) {i : Nat} (hi : i < p.batEntries) :
    BitVec.ofNat 32 (vpcField ((vpcNewFile p).pread (512 * vpcBatSector + 4 * i) 4) 0 4) =
      VPC_UNALLOCATED := by
  have hbytes : (vpcNewFile p).pread (512 * vpcBatSector + 4 * i) 4 = List.replicate 4 0xff := by
    refine List.eq_replicate_iff.mpr ⟨by simp [VpcFile.pread], fun b hb => ?_⟩
    obtain ⟨j, hj, rfl⟩ := List.mem_map.mp hb
    have hj := List.mem_range.mp hj
    have hfirst := p.firstFree_eq
    have hsector : (512 * vpcBatSector + 4 * i + j) / 512 = vpcBatSector + (4 * i + j) / 512 := by
      omega
    rw [hsector, vpcNewFile_table p (by omega), List.getD_eq_getElem?_getD,
      List.getElem?_replicate, if_pos (Nat.mod_lt _ (by decide)), Option.getD_some]
  rw [hbytes]
  rfl

theorem vpcFreeOffset_unallocated {batOffset entries blockSize bitmapSize : Nat}
    {pagetable : Nat → BitVec 32} (h : ∀ i, pagetable i = VPC_UNALLOCATED) :
    vpcFreeOffset batOffset entries blockSize bitmapSize pagetable =
      (batOffset + entries * 4 + 511) / 512 * 512 :=
  List.foldl_fixed' (fun i => if_neg (not_not.mpr (h i))) _

/-- The fields of the footer. -/
theorem vpcField_footer (p : VpcParams) : vpcField (vpcFooter p) 16 8 = 512 ∧
    vpcField (vpcFooter p) 56 2 * vpcField (vpcFooter p) 58 1 * vpcField (vpcFooter p) 59 1 =
      p.totalSectors := by
  have hbyte : ∀ b : BitVec 8, vpcOfBe [b] = b.toNat := fun b => Nat.zero_add _
  have hcyls : p.cyls.toNat % 256 ^ 2 = p.cyls.toNat := Nat.mod_eq_of_lt p.cyls.isLt
  have hsplit : [p.heads, p.secsPerCyl] = [p.heads] ++ [p.secsPerCyl] := rfl
  unfold vpcFooter vpcFooterWith vpcFooterFront
  generalize vpcChecksum _ = checksum
  simp only [List.append_assoc, hsplit, vpcField_skip, vpcField_here, length_vpcBe,
    List.length_cons,
    List.length_nil, Nat.reduceAdd, Nat.reduceLeDiff, Nat.reduceSub, vpcOfBe_vpcBe, hbyte, hcyls]
  exact ⟨rfl, rfl⟩

/-- The fields of the header. -/
theorem vpcField_header (p : VpcParams) (checksum : BitVec 32) :
    vpcField (vpcDynHeaderWith p checksum) 16 8 = 512 * vpcBatSector ∧
      vpcField (vpcDynHeaderWith p checksum) 28 4 = p.batEntries ∧
      vpcField (vpcDynHeaderWith p checksum) 32 4 = 512 * vpcBlockSectors := by
  have hlt := p.batEntries_bounds.2
  have hentries : p.batEntries % 256 ^ 4 = p.batEntries := Nat.mod_eq_of_lt (by omega)
  unfold vpcDynHeaderWith vpcDynFront
  simp only [List.append_assoc, vpcField_skip, vpcField_here, length_vpcBe, List.length_cons,
    List.length_nil, Nat.reduceAdd, Nat.reduceLeDiff, Nat.reduceSub, vpcOfBe_vpcBe, hentries,
      true_and]
  exact ⟨rfl, rfl⟩

/-- **A new image is opened**, with the size that its footer gives it. -/
theorem vpcOpen_vpcNewFile (zeroMalloc : Bool) (p : VpcParams) :
    ∃ s, vpcOpen zeroMalloc (vpcNewFile p) = some s ∧ s.totalSectors = p.totalSectors ∧
      s.image = some { vpcNew p with file := vpcNewFile p } := by
  obtain ⟨hoffset, htotal⟩ := vpcField_footer p
  have hheader := vpcNewFile_header p
  generalize vpcChecksum (vpcDynHeaderWith p 0 ++ vpcZero) = checksum at hheader
  obtain ⟨hbat, hentries, hblock⟩ := vpcField_header p checksum
  obtain ⟨hpos, hlt⟩ := p.batEntries_bounds
  -- the footer and the header are read where they were written
  have hfooter : (vpcNewFile p).content 0 = vpcFooter p :=
    (vpcNewFile_outside p (.inl rfl)).trans (if_pos (.inl rfl))
  have hread : (vpcNewFile p).pread 0 512 = vpcFooter p := by
    rw [← hfooter]
    exact (vpcNewFile p).pread_sector (k := 0) (by rw [hfooter, length_vpcFooter])
  have hread' : (vpcNewFile p).pread 512 512 = vpcDynHeaderWith p checksum := by
    rw [← hheader]
    exact (vpcNewFile p).pread_sector (k := 1) (by rw [hheader, length_vpcDynHeaderWith])
  have hcreator : (vpcFooter p).take 8 = [0x63, 0x6f, 0x6e, 0x65, 0x63, 0x74, 0x69, 0x78] := rfl
  have hmagic : (vpcDynHeaderWith p checksum).take 8 =
      [0x63, 0x78, 0x73, 0x70, 0x61, 0x72, 0x73, 0x65] := rfl
  have htable : ∀ i, (if i < p.batEntries then
      BitVec.ofNat 32 (vpcField ((vpcNewFile p).pread (512 * vpcBatSector + 4 * i) 4) 0 4)
      else VPC_UNALLOCATED) = VPC_UNALLOCATED := by
    intro i
    split_ifs with hi
    · exact vpcNewFile_entry p hi
    · rfl
  -- behind the table comes the first free sector
  have hfree : (512 * vpcBatSector + p.batEntries * 4 + 511) / 512 = p.firstFree := by
    have hfirst := p.firstFree_eq
    omega
  unfold vpcOpen
  simp only [hread, hread', hcreator, hmagic, hoffset, hbat, hentries, hblock, htotal,
    vpcFooter_cleared, htable, ne_eq, not_true_eq_false, if_false]
  rw [if_neg (by omega), if_neg (by omega)]
  refine ⟨_, rfl, rfl, ?_⟩
  unfold VpcState.image
  rw [vpcFreeOffset_unallocated fun _ => rfl, hfree, if_pos ⟨rfl, rfl, rfl, Nat.mul_mod_left _ _⟩,
    Nat.mul_div_cancel _ (by decide)]
  rfl

theorem Vpc.Inv.with_file (h : s.Inv p) {f : VpcFile}
    (hrest : ∀ k, s.freeDataBlock < k → f.content k = vpcZero) :
    ({ s with file := f } : Vpc).Inv p :=
  ⟨h.entries, h.total, h.footer, h.separate, h.within, h.count, fun _ => hrest⟩

theorem vpcNewFile_inv (p : VpcParams) :
    ({ vpcNew p with file := vpcNewFile p } : Vpc).Inv p ∧
      ({ vpcNew p with file := vpcNewFile p } : Vpc).NoneFailed := by
  have hinv : ({ vpcNew p with file := vpcNewFile p } : Vpc).Inv p := by
    refine (vpcNew_inv p).with_file fun k hk => ?_
    change p.firstFree < k at hk
    exact (vpcNewFile_outside p (.inr hk.le)).trans (if_neg (by omega))
  exact ⟨hinv, hinv.noneFailed fun i _ hne => absurd rfl hne⟩

/-- **VPC images.**  An image opens and can be used, and it presents all sectors that were asked for
    if and only if they are not rounded down. -/
theorem vpcOpen_vpcCreate_iff {timestamp : BitVec 32} {size : BitVec 64} {f : VpcFile}
    (zeroMalloc : Bool) (h : vpcCreate timestamp size = some f) :
    (∃ s image, vpcOpen zeroMalloc f = some s ∧ s.image = some image ∧
        size.toNat / 512 ≤ s.totalSectors ∧ image.Usable s.totalSectors) ↔
      VpcSizeFits (size.toNat / 512) := by
  obtain ⟨⟨cyls, heads, secsPerCyl⟩, hgeometry, rfl⟩ := Option.map_eq_some_iff.mp h
  obtain ⟨s, hopen, htotal, himage⟩ :=
    vpcOpen_vpcNewFile zeroMalloc { timestamp, cyls, heads, secsPerCyl }
  obtain ⟨hinv, hnone⟩ := vpcNewFile_inv { timestamp, cyls, heads, secsPerCyl }
  rw [← calculateGeometry_le_iff hgeometry]
  constructor
  · rintro ⟨s', image, hopen', -, hle, -⟩
    obtain rfl := Option.some.inj (hopen.symm.trans hopen')
    exact hle.trans_eq htotal
  · intro hle
    refine ⟨s, _, hopen, himage, hle.trans_eq htotal.symm, ?_⟩
    rw [htotal]
    exact hinv.usable hnone

end

end Qemu.Block
