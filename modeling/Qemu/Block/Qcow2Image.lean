import Qemu.Block.Qcow2Spec
import Qemu.Lib.BigEndian

namespace Qemu.Block

open Lib

/-!
# What a new qcow2 image says

The file is written from front to back, but the L1 table and the refcount table may be anywhere
where the number of L1 entries or the size of the header have wrapped around.

* `Places.file` — what is where in the file;
* `readHeader_created`, `refcountInit_created` — the header and the refcount table are read back;
* `getRefcount_created` — the refcounts are read back.
-/

/-- The clusters of an image, as natural numbers. -/
structure Places (clusterBits : Nat) (headerSize l1Size : Int) (head table blocks : Nat) :
    Prop where
  head_eq : clustersOf clusterBits headerSize = head
  table_eq : tableCluster clusterBits headerSize l1Size = table
  blocks_eq : refBlocks clusterBits headerSize l1Size = blocks
  blocks_pos : 0 < blocks
  table_size : blocks ≤ 2 ^ clusterBits / 8

section Created

variable {clusterBits : Nat} {headerSize l1Size : Int} {head table blocks : Nat}

/-- Arrays that fit have their clusters behind the header. -/
theorem ArraysFit.places (h : Bounded clusterBits headerSize l1Size)
    (hfit : ArraysFit clusterBits headerSize l1Size) :
    ∃ head table blocks, Places clusterBits headerSize l1Size head table blocks := by
  obtain ⟨-, hpos, -⟩ := clusterLayout_of_nonneg h hfit.table_nonneg
  have hT : tableCluster clusterBits headerSize l1Size =
    clustersOf clusterBits headerSize + clustersOf clusterBits (l1Size * 8) := rfl
  have htable := hfit.table_nonneg
  have hheader := hfit.header_nonneg
  have hsize := hfit.table_size
  have hcast : ((2 ^ clusterBits / 8 : Nat) : Int) = 2 ^ clusterBits / 8 := by
    push_cast
    rfl
  obtain ⟨head, hhead⟩ := Int.eq_ofNat_of_zero_le
    (show 0 ≤ clustersOf clusterBits headerSize by omega)
  obtain ⟨table, htab⟩ := Int.eq_ofNat_of_zero_le htable
  obtain ⟨blocks, hblocks⟩ := Int.eq_ofNat_of_zero_le hpos.le
  exact ⟨head, table, blocks, hhead, htab, hblocks, by omega, by omega⟩

theorem lseek_natCast (fd : HostFd) (pos : Nat) : fd.lseek pos = { fd with pos } := by
  rw [HostFd.lseek, if_pos (Int.natCast_nonneg pos), Int.toNat_natCast]

/-- The offsets of an image. -/
structure Offsets (lay : CreateLayout) (clusterBits head table : Nat) : Prop where
  l1_toInt : lay.l1TableOffset.toInt = (head * 2 ^ clusterBits : Nat)
  table_toInt : lay.refcountTableOffset.toInt = (table * 2 ^ clusterBits : Nat)
  blocks_toInt : lay.refcountBlockOffset.toInt = ((table + 1) * 2 ^ clusterBits : Nat)
  l1_toNat : lay.l1TableOffset.toNat = head * 2 ^ clusterBits
  table_toNat : lay.refcountTableOffset.toNat = table * 2 ^ clusterBits
  blocks_toNat : lay.refcountBlockOffset.toNat = (table + 1) * 2 ^ clusterBits
  small : (table + 1) * 2 ^ clusterBits < 2 ^ 36

/-- The offsets of the layout are those of the clusters. -/
theorem Places.offsets (hp : Places clusterBits headerSize l1Size head table blocks)
    (h : Bounded clusterBits headerSize l1Size) :
    Offsets (clusterLayout clusterBits headerSize l1Size) clusterBits head table := by
  obtain ⟨-, hhead, -, htable⟩ := h.offsets
  -- as products of 64-bit words
  have hl1 : clustersOf clusterBits headerSize * 2 ^ clusterBits =
      (head * 2 ^ clusterBits : Nat) := by
    rw [hp.head_eq]
    push_cast
    rfl
  have htab : tableCluster clusterBits headerSize l1Size * 2 ^ clusterBits =
      (table * 2 ^ clusterBits : Nat) := by
    rw [hp.table_eq]
    push_cast
    rfl
  have hblk : (tableCluster clusterBits headerSize l1Size + 1) * 2 ^ clusterBits =
      ((table + 1) * 2 ^ clusterBits : Nat) := by
    rw [hp.table_eq]
    push_cast
    rfl
  have hle : table * 2 ^ clusterBits ≤ (table + 1) * 2 ^ clusterBits :=
    Nat.mul_le_mul_right _ (Nat.le_succ _)
  rw [hl1] at hhead
  rw [hblk] at htable
  have hl1off : (clusterLayout clusterBits headerSize l1Size).l1TableOffset =
      BitVec.ofInt 64 (head * 2 ^ clusterBits : Nat) := congrArg (BitVec.ofInt 64) hl1
  have htaboff : (clusterLayout clusterBits headerSize l1Size).refcountTableOffset =
      BitVec.ofInt 64 (table * 2 ^ clusterBits : Nat) := congrArg (BitVec.ofInt 64) htab
  have hblkoff : (clusterLayout clusterBits headerSize l1Size).refcountBlockOffset =
      BitVec.ofInt 64 ((table + 1) * 2 ^ clusterBits : Nat) := congrArg (BitVec.ofInt 64) hblk
  constructor
  · rw [hl1off]
    exact toInt_ofInt (by omega) (by omega)
  · rw [htaboff]
    exact toInt_ofInt (by omega) (by omega)
  · rw [hblkoff]
    exact toInt_ofInt (by omega) (by omega)
  · rw [hl1off]
    exact (toNat_ofInt (by omega) (by omega)).trans (Int.toNat_natCast _)
  · rw [htaboff]
    exact (toNat_ofInt (by omega) (by omega)).trans (Int.toNat_natCast _)
  · rw [hblkoff]
    exact (toNat_ofInt (by omega) (by omega)).trans (Int.toNat_natCast _)
  · omega

variable {req : CreateRequest} {part : HeaderPart}

/-- The file with the arrays as they have been filled. -/
def filledFile (req : CreateRequest) (part : HeaderPart) (clusterBits : Nat)
    (headerSize l1Size : Int) : HostFile :=
  createFile req clusterBits part (clusterLayout clusterBits headerSize l1Size)
    (filledArrays clusterBits headerSize l1Size)

/-- The header of the file. -/
def filledHeader (req : CreateRequest) (part : HeaderPart) (clusterBits : Nat)
    (headerSize l1Size : Int) : QCowHeader :=
  createHeader req clusterBits part (clusterLayout clusterBits headerSize l1Size)

/-- What is written before the L1 table. -/
def headBytes (req : CreateRequest) (part : HeaderPart) (clusterBits : Nat)
    (headerSize l1Size : Int) : Nat → Lib.Byte :=
  storeAt
    (storeAt (fun _ => 0) 0 (filledHeader req part clusterBits headerSize l1Size).bytes)
    qcowHeaderSize (backingBytes req part)

theorem length_putBe16 (v : BitVec 16) : (putBe16 v).length = 2 := rfl

theorem eight_dvd (h : Bounded clusterBits headerSize l1Size) :
    2 ^ clusterBits = 8 * (2 ^ clusterBits / 8) ∧
      2 ^ clusterBits = 2 * 2 ^ (clusterBits - refcountShift) ∧
      2 ^ clusterBits / 8 = 2 ^ (clusterBits - 3) := by
  have hbits := h.bits.1
  obtain ⟨k, rfl⟩ : ∃ k, clusterBits = k + 3 := by
    unfold minClusterBits at hbits
    exact ⟨clusterBits - 3, by omega⟩
  have hk : k + 3 - refcountShift = k + 2 := rfl
  rw [hk, Nat.add_sub_cancel, pow_succ, pow_succ, pow_succ]
  omega

theorem Places.length_table (hp : Places clusterBits headerSize l1Size head table blocks) :
    (filledArrays clusterBits headerSize l1Size).refcountTable.length = 2 ^ clusterBits / 8 := by
  have hsize := hp.table_size
  rw [filledArrays, List.length_append, length_blockOffsets, List.length_replicate, hp.blocks_eq,
    Int.toNat_natCast]
  omega

theorem Places.entries (hp : Places clusterBits headerSize l1Size head table blocks) :
    refEntries clusterBits headerSize l1Size = blocks * 2 ^ (clusterBits - refcountShift) := by
  rw [refEntries, hp.blocks_eq, Int.toNat_natCast]

theorem Places.length_block (hp : Places clusterBits headerSize l1Size head table blocks)
    (h : Bounded clusterBits headerSize l1Size) :
    ((filledArrays clusterBits headerSize l1Size).refcountBlock.flatMap putBe16).length =
      blocks * 2 ^ clusterBits := by
  rw [length_flatMap_of_length length_putBe16, filledArrays, length_refcounts, hp.entries,
    (eight_dvd h).2.1]
  exact Nat.mul_left_comm ..

/-- **What is where in the file**: what is written later covers what is written earlier. -/
theorem Places.file (hp : Places clusterBits headerSize l1Size head table blocks)
    (h : Bounded clusterBits headerSize l1Size) (req : CreateRequest) (part : HeaderPart) :
    (filledFile req part clusterBits headerSize l1Size).bytes =
        storeAt
          (storeAt
            (storeAt (headBytes req part clusterBits headerSize l1Size) (head * 2 ^ clusterBits)
              (List.replicate (8 * l1Size.toNat) 0))
            (table * 2 ^ clusterBits)
            ((filledArrays clusterBits headerSize l1Size).refcountTable.flatMap putBe64))
          ((table + 1) * 2 ^ clusterBits)
          ((filledArrays clusterBits headerSize l1Size).refcountBlock.flatMap putBe16) ∧
      (table + 1) * 2 ^ clusterBits + blocks * 2 ^ clusterBits ≤
        (filledFile req part clusterBits headerSize l1Size).size := by
  obtain ⟨hl1, htable, hblocks, -⟩ := hp.offsets h
  have hlen := hp.length_block h
  have hne : (filledArrays clusterBits headerSize l1Size).refcountBlock.flatMap putBe16 ≠ [] := by
    apply List.ne_nil_of_length_pos
    rw [hlen]
    exact Nat.mul_pos hp.blocks_pos (Nat.two_pow_pos _)
  unfold filledFile createFile
  dsimp only
  rw [hl1, htable, hblocks, lseek_natCast, lseek_natCast, lseek_natCast]
  refine ⟨rfl, ?_⟩
  generalize (filledArrays clusterBits headerSize l1Size).refcountBlock.flatMap putBe16 = l at *
  rw [HostFd.write]
  dsimp only
  rw [if_neg hne, hlen]
  exact Nat.le_max_right ..

/-- The refcount table is where the layout puts it. -/
theorem Places.table_bytes (hp : Places clusterBits headerSize l1Size head table blocks)
    (h : Bounded clusterBits headerSize l1Size) :
    bytesAt (filledFile req part clusterBits headerSize l1Size).bytes (table * 2 ^ clusterBits)
        (2 ^ clusterBits) =
      (filledArrays clusterBits headerSize l1Size).refcountTable.flatMap putBe64 := by
  have hlen : ((filledArrays clusterBits headerSize l1Size).refcountTable.flatMap putBe64).length =
      2 ^ clusterBits := by
    rw [length_flatMap_of_length length_putBe64, hp.length_table]
    exact (eight_dvd h).1.symm
  have hread := bytesAt_storeAt
    (storeAt (headBytes req part clusterBits headerSize l1Size) (head * 2 ^ clusterBits)
      (List.replicate (8 * l1Size.toNat) 0))
    (table * 2 ^ clusterBits)
    ((filledArrays clusterBits headerSize l1Size).refcountTable.flatMap putBe64)
  rw [hlen] at hread
  rw [(hp.file h req part).1, bytesAt_storeAt_of_disjoint (.inl (add_one_mul ..).ge), hread]

theorem Places.block_bytes (hp : Places clusterBits headerSize l1Size head table blocks)
    (h : Bounded clusterBits headerSize l1Size) :
    bytesAt (filledFile req part clusterBits headerSize l1Size).bytes
        ((table + 1) * 2 ^ clusterBits) (blocks * 2 ^ clusterBits) =
      (filledArrays clusterBits headerSize l1Size).refcountBlock.flatMap putBe16 := by
  rw [(hp.file h req part).1, ← hp.length_block h, bytesAt_storeAt]

theorem HostFile.pread_of_le {f : HostFile} {offset size : Nat} (h : offset + size ≤ f.size) :
    f.pread offset size = some (bytesAt f.bytes offset size) := if_pos (.inl h)

theorem two_pow_le (h : Bounded clusterBits headerSize l1Size) : 512 ≤ 2 ^ clusterBits :=
  Nat.pow_le_pow_right (Nat.succ_pos 1) h.bits.1

theorem Places.size_le (hp : Places clusterBits headerSize l1Size head table blocks)
    (h : Bounded clusterBits headerSize l1Size) (req : CreateRequest) (part : HeaderPart) :
    2 * 2 ^ clusterBits ≤ (filledFile req part clusterBits headerSize l1Size).size := by
  have hsize := (hp.file h req part).2
  have hone : 2 ^ clusterBits ≤ blocks * 2 ^ clusterBits := Nat.le_mul_of_pos_left _ hp.blocks_pos
  rw [add_one_mul] at hsize
  omega

/-- The header stays as it was written, unless a table goes into the first cluster. -/
theorem Places.header_bytes (hp : Places clusterBits headerSize l1Size head table blocks)
    (h : Bounded clusterBits headerSize l1Size) (hhead : 0 < head) (htable : 0 < table) :
    bytesAt (filledFile req part clusterBits headerSize l1Size).bytes 0 qcowHeaderSize =
      (filledHeader req part clusterBits headerSize l1Size).bytes := by
  have hsize : qcowHeaderSize = 72 := rfl
  have hcs := two_pow_le h
  have hh : 2 ^ clusterBits ≤ head * 2 ^ clusterBits := Nat.le_mul_of_pos_left _ hhead
  have ht : 2 ^ clusterBits ≤ table * 2 ^ clusterBits := Nat.le_mul_of_pos_left _ htable
  have hread := bytesAt_storeAt (fun _ => (0 : Lib.Byte)) 0
    (filledHeader req part clusterBits headerSize l1Size).bytes
  rw [length_header] at hread
  rw [(hp.file h req part).1, bytesAt_storeAt_of_disjoint (.inl (by rw [add_one_mul]; omega)),
    bytesAt_storeAt_of_disjoint (.inl (by omega)), bytesAt_storeAt_of_disjoint (.inl (by omega)),
    headBytes, bytesAt_storeAt_of_disjoint (.inl (Nat.zero_add _).le), hread]

theorem filledHeader_clusterBits (h : Bounded clusterBits headerSize l1Size) :
    (filledHeader req part clusterBits headerSize l1Size).clusterBits.toNat = clusterBits := by
  have hmax : maxClusterBits = 21 := rfl
  have hbits := h.bits.2
  exact Nat.mod_eq_of_lt (by omega)

/-- **The header is read back.** -/
theorem readHeader_created (hp : Places clusterBits headerSize l1Size head table blocks)
    (h : Bounded clusterBits headerSize l1Size) (hhead : 0 < head) (htable : 0 < table) :
    qcowReadHeader (filledFile req part clusterBits headerSize l1Size) =
      some (filledHeader req part clusterBits headerSize l1Size) := by
  have hsize : qcowHeaderSize = 72 := rfl
  have hcs := two_pow_le h
  have hlen := hp.size_le h req part
  have hcrypt : (filledHeader req part clusterBits headerSize l1Size).cryptMethod.toNat ≤
      qcowCryptAes.toNat := by
    show (if req.encrypt then qcowCryptAes else qcowCryptNone).toNat ≤ _
    cases req.encrypt
    · decide
    · decide
  unfold qcowReadHeader
  rw [HostFile.pread_of_le (by omega), hp.header_bytes h hhead htable, Option.bind_eq_bind,
    Option.bind_some, (reads_header _).whole, Option.bind_eq_bind, Option.bind_some]
  dsimp only
  rw [filledHeader_clusterBits h, guard, guard, guard, if_pos ⟨rfl, rfl⟩, if_pos h.bits,
    if_pos hcrypt]
  rfl

/-- The first byte of a file with a header. -/
theorem qcowReadHeader_first {f : HostFile} {hdr : QCowHeader} (h : qcowReadHeader f = some hdr) :
    f.bytes 0 ≠ 0 := by
  intro hzero
  unfold qcowReadHeader at h
  obtain ⟨bytes, hread, h⟩ := Option.bind_eq_some_iff.mp h
  obtain ⟨⟨hdr', rest⟩, hget, h⟩ := Option.bind_eq_some_iff.mp h
  have hbytes : bytes.headD 0 = 0 := by
    unfold HostFile.pread at hread
    split_ifs at hread
    rw [← Option.some.inj hread]
    exact hzero
  have hmagic : hdr'.magic = be32 (bytes.headD 0) (bytes.tail.headD 0) (bytes.tail.tail.headD 0)
      (bytes.tail.tail.tail.headD 0) := by
    rw [← congrArg (fun r => r.1.magic) (Option.some.inj hget)]
  obtain ⟨_, hguard, _⟩ := Option.bind_eq_some_iff.mp h
  have heq : hdr'.magic = qcowMagic := by
    by_contra hne
    unfold guard at hguard
    rw [if_neg fun hboth => hne hboth.1] at hguard
    cases hguard
  rw [hmagic, hbytes] at heq
  have hbit := congrArg (·.getLsbD 30) heq
  simp [be32, qcowMagic] at hbit

/-- The refcount table starts with a zero, as the blocks are not that far in the file. -/
theorem Places.table_first (hp : Places clusterBits headerSize l1Size head table blocks)
    (h : Bounded clusterBits headerSize l1Size) (req : CreateRequest) (part : HeaderPart) :
    (filledFile req part clusterBits headerSize l1Size).bytes (table * 2 ^ clusterBits) = 0 := by
  obtain ⟨-, -, -, -, -, hoff, hsmall⟩ := hp.offsets h
  obtain ⟨k, hk⟩ : ∃ k, blocks = k + 1 := ⟨blocks - 1, by have := hp.blocks_pos; omega⟩
  apply Option.some.inj
  have hfirst := getElem?_bytesAt (filledFile req part clusterBits headerSize l1Size).bytes
    (table * 2 ^ clusterBits) (Nat.two_pow_pos clusterBits)
  rw [Nat.add_zero] at hfirst
  rw [← hfirst, hp.table_bytes h, filledArrays, hp.blocks_eq, Int.toNat_natCast, hk]
  -- the first entry is the offset of the first block
  show some ((((clusterLayout clusterBits headerSize l1Size).refcountBlockOffset >>> 32).setWidth 32
    >>> 24).setWidth 8) = some (0 : Lib.Byte)
  refine congrArg some (BitVec.eq_of_toNat_eq ?_)
  rw [BitVec.toNat_setWidth, BitVec.toNat_ushiftRight, BitVec.toNat_setWidth,
    BitVec.toNat_ushiftRight, hoff, Nat.shiftRight_eq_div_pow, Nat.shiftRight_eq_div_pow]
  show _ = 0
  omega

theorem Places.table_pos (hp : Places clusterBits headerSize l1Size head table blocks)
    (h : Bounded clusterBits headerSize l1Size) {hdr : QCowHeader}
    (hread : qcowReadHeader (filledFile req part clusterBits headerSize l1Size) = some hdr) :
    0 < table := by
  by_contra htable
  obtain rfl : table = 0 := by omega
  have hfirst := hp.table_first h req part
  rw [Nat.zero_mul] at hfirst
  exact qcowReadHeader_first hread hfirst

/-- An L1 table in the first cluster makes the header unreadable. -/
theorem Places.head_pos (hp : Places clusterBits headerSize l1Size head table blocks)
    (h : Bounded clusterBits headerSize l1Size) {hdr : QCowHeader}
    (hread : qcowReadHeader (filledFile req part clusterBits headerSize l1Size) = some hdr) :
    0 < head := by
  by_contra hhead
  obtain rfl : head = 0 := by omega
  have htable := hp.table_pos h hread
  have hl1 : 0 < l1Size := by
    have hT : tableCluster clusterBits headerSize l1Size =
      clustersOf clusterBits headerSize + clustersOf clusterBits (l1Size * 8) := rfl
    rw [hp.table_eq, hp.head_eq] at hT
    by_contra hneg
    have hle := (clustersOf_bounds clusterBits (l1Size * 8)).2
    have hmul : (1 : Int) * 2 ^ clusterBits ≤
        clustersOf clusterBits (l1Size * 8) * 2 ^ clusterBits :=
      mul_le_mul_of_nonneg_right (by omega) (by positivity)
    omega
  have ht : 2 ^ clusterBits ≤ table * 2 ^ clusterBits := Nat.le_mul_of_pos_left _ htable
  have hcs := two_pow_le h
  refine qcowReadHeader_first hread ?_
  rw [(hp.file h req part).1, storeAt_of_lt (by rw [add_one_mul]; omega), storeAt_of_lt (by omega),
    storeAt, if_pos (by omega), Nat.zero_mul, List.getElem?_replicate_of_lt (by omega)]
  rfl

/-- **The refcount table is read back.** -/
theorem refcountInit_created (hp : Places clusterBits headerSize l1Size head table blocks)
    (h : Bounded clusterBits headerSize l1Size) :
    qcow2RefcountInit (filledFile req part clusterBits headerSize l1Size)
        (filledHeader req part clusterBits headerSize l1Size) =
      some (filledArrays clusterBits headerSize l1Size).refcountTable := by
  obtain ⟨height, -, hthree⟩ := eight_dvd h
  have hbits := h.bits
  have hmax : maxClusterBits = 21 := rfl
  have hsize := (hp.file h req part).2
  rw [add_one_mul] at hsize
  have hcount : (filledHeader req part clusterBits headerSize l1Size).refcountTableSize =
      2 ^ clusterBits / 8 := by
    have hpow : 2 ^ (clusterBits - 3) < 2 ^ 32 := Nat.pow_lt_pow_right (by decide) (by omega)
    rw [QCowHeader.refcountTableSize, filledHeader_clusterBits h, hthree]
    show ((1 : BitVec 32) <<< (clusterBits - 3)).toNat = _
    rw [BitVec.toNat_shiftLeft, Nat.shiftLeft_eq]
    exact (congrArg (· % _) (Nat.one_mul _)).trans (Nat.mod_eq_of_lt hpow)
  have hoffset : (filledHeader req part clusterBits headerSize l1Size).refcountTableOffset.toNat =
      table * 2 ^ clusterBits := (hp.offsets h).table_toNat
  have hbytes : 2 ^ clusterBits / 8 * 8 = 2 ^ clusterBits := by omega
  have hpow : 2 ^ clusterBits ≤ 2 ^ 21 := Nat.pow_le_pow_right (Nat.succ_pos 1) hbits.2
  have hint : toInt32 (2 ^ clusterBits : Nat) = (2 ^ clusterBits : Nat) :=
    toInt32_of_bounds (by omega) (by omega)
  have hlist := (Reads.list reads_be64
    (filledArrays clusterBits headerSize l1Size).refcountTable).whole
  rw [hp.length_table] at hlist
  unfold qcow2RefcountInit
  dsimp only
  rw [hcount, hoffset, hbytes, hint, HostFile.pread_of_le (by omega), hp.table_bytes h,
    Option.bind_eq_bind, Option.bind_some, hlist]
  rfl

/-- An entry of the refcount table. -/
theorem Places.table_entry (hp : Places clusterBits headerSize l1Size head table blocks) (i : Nat) :
    ((filledArrays clusterBits headerSize l1Size).refcountTable[i]?).getD 0 =
      if i < blocks then
        (clusterLayout clusterBits headerSize l1Size).refcountBlockOffset +
          BitVec.ofNat 64 (i * 2 ^ clusterBits)
      else 0 := by
  rw [filledArrays, hp.blocks_eq, Int.toNat_natCast]
  dsimp only
  split_ifs with h
  · rw [List.getElem?_append_left (by rw [length_blockOffsets]; exact h), getElem?_blockOffsets h]
    rfl
  · rw [List.getElem?_append_right (by rw [length_blockOffsets]; omega), List.getElem?_replicate]
    split_ifs
    · rfl
    · rfl

/-- The offset of a refcount block. -/
theorem Places.block_offset (hp : Places clusterBits headerSize l1Size head table blocks)
    (h : Bounded clusterBits headerSize l1Size) {i : Nat} (hi : i < blocks) :
    ((clusterLayout clusterBits headerSize l1Size).refcountBlockOffset +
      BitVec.ofNat 64 (i * 2 ^ clusterBits)).toNat = (table + 1 + i) * 2 ^ clusterBits := by
  obtain ⟨-, -, -, -, -, hoff, hsmall⟩ := hp.offsets h
  have hmax : 2 ^ clusterBits ≤ 2 ^ 21 := Nat.pow_le_pow_right (Nat.succ_pos 1) h.bits.2
  have hblocks : i * 2 ^ clusterBits ≤ 2 ^ 21 * 2 ^ 21 :=
    Nat.mul_le_mul (by have := hp.table_size; omega) hmax
  rw [BitVec.toNat_add, hoff, BitVec.toNat_ofNat, add_mul (table + 1) i]
  omega

/-- A block is read back. -/
theorem Places.load (hp : Places clusterBits headerSize l1Size head table blocks)
    (h : Bounded clusterBits headerSize l1Size) {i : Nat} (hi : i < blocks) {offset : BitVec 64}
    (hoffset : offset.toNat = (table + 1 + i) * 2 ^ clusterBits) :
    loadRefcountBlock (filledFile req part clusterBits headerSize l1Size) (2 ^ clusterBits) offset =
      some (((filledArrays clusterBits headerSize l1Size).refcountBlock.drop
        (i * 2 ^ (clusterBits - refcountShift))).take (2 ^ (clusterBits - refcountShift))) := by
  obtain ⟨-, htwo, -⟩ := eight_dvd h
  have hsize := (hp.file h req part).2
  have hin : i * 2 ^ clusterBits + 2 ^ clusterBits ≤ blocks * 2 ^ clusterBits := by
    rw [← add_one_mul]
    exact Nat.mul_le_mul_right _ hi
  have hentries : i * 2 ^ (clusterBits - refcountShift) + 2 ^ (clusterBits - refcountShift) ≤
      blocks * 2 ^ (clusterBits - refcountShift) := by
    rw [← add_one_mul]
    exact Nat.mul_le_mul_right _ hi
  have hstart : (table + 1 + i) * 2 ^ clusterBits =
      (table + 1) * 2 ^ clusterBits + i * 2 ^ clusterBits := add_mul ..
  have hhalf : 2 ^ clusterBits / 2 = 2 ^ (clusterBits - refcountShift) := by omega
  have hmul : i * 2 ^ clusterBits = 2 * (i * 2 ^ (clusterBits - refcountShift)) := by
    rw [htwo]
    exact Nat.mul_left_comm ..
  -- the entries of the block stand in the file, one after the other
  have hbytes : bytesAt (filledFile req part clusterBits headerSize l1Size).bytes
      ((table + 1 + i) * 2 ^ clusterBits) (2 ^ clusterBits) =
      (((filledArrays clusterBits headerSize l1Size).refcountBlock.drop
        (i * 2 ^ (clusterBits - refcountShift))).take
          (2 ^ (clusterBits - refcountShift))).flatMap putBe16 := by
    rw [hstart, ← take_drop_bytesAt _ _ hin, hp.block_bytes h, hmul, drop_flatMap length_putBe16]
    conv_lhs => rw [htwo]
    exact take_flatMap length_putBe16 ..
  have hlen : (((filledArrays clusterBits headerSize l1Size).refcountBlock.drop
      (i * 2 ^ (clusterBits - refcountShift))).take (2 ^ (clusterBits - refcountShift))).length =
        2 ^ (clusterBits - refcountShift) := by
    rw [List.length_take, List.length_drop, filledArrays, length_refcounts, hp.entries]
    omega
  have hlist := (Reads.list reads_be16
    (((filledArrays clusterBits headerSize l1Size).refcountBlock.drop
      (i * 2 ^ (clusterBits - refcountShift))).take (2 ^ (clusterBits - refcountShift)))).whole
  rw [hlen] at hlist
  unfold loadRefcountBlock
  rw [hoffset, HostFile.pread_of_le (by omega), hbytes, hhalf, Option.bind_eq_bind,
    Option.bind_some, hlist]
  rfl

theorem counted_lt (c : Nat) :
    counted clusterBits headerSize l1Size (refBlocks clusterBits headerSize l1Size) c < 2 ^ 16 := by
  unfold counted inRange
  split_ifs
  all_goals omega

/-- **The refcounts are read back**: what has been counted, and none past the blocks. -/
theorem getRefcount_created (hp : Places clusterBits headerSize l1Size head table blocks)
    (h : Bounded clusterBits headerSize l1Size) {c : Nat}
    (hc : c / 2 ^ (clusterBits - refcountShift) < 2 ^ 32) :
    getRefcount (filledFile req part clusterBits headerSize l1Size) clusterBits
        (filledArrays clusterBits headerSize l1Size).refcountTable c =
      if c < refEntries clusterBits headerSize l1Size then
        (counted clusterBits headerSize l1Size (refBlocks clusterBits headerSize l1Size) c : Int)
      else 0 := by
  have hpos : 0 < 2 ^ (clusterBits - refcountShift) := Nat.two_pow_pos _
  have hiff : c < refEntries clusterBits headerSize l1Size ↔
      c / 2 ^ (clusterBits - refcountShift) < blocks := by
    rw [hp.entries, Nat.div_lt_iff_lt_mul hpos]
  unfold getRefcount
  dsimp only
  rw [Nat.mod_eq_of_lt hc, hp.length_table, hp.table_entry]
  -- a cluster of a block that was made, or one past all of them
  by_cases hin : c / 2 ^ (clusterBits - refcountShift) < blocks
  · have hsize := hp.table_size
    have hoffset := hp.block_offset h hin
    have hne : (clusterLayout clusterBits headerSize l1Size).refcountBlockOffset +
        BitVec.ofNat 64 (c / 2 ^ (clusterBits - refcountShift) * 2 ^ clusterBits) ≠ 0 := by
      intro hzero
      rw [hzero] at hoffset
      have hfac : 0 < (table + 1 + c / 2 ^ (clusterBits - refcountShift)) * 2 ^ clusterBits :=
        Nat.mul_pos (Nat.add_pos_left (Nat.succ_pos _) _) (Nat.two_pow_pos _)
      exact hfac.ne hoffset
    have hmod : c % 2 ^ (clusterBits - refcountShift) < 2 ^ (clusterBits - refcountShift) :=
      Nat.mod_lt _ hpos
    rw [if_neg (by omega), if_pos hin, if_neg hne, hp.load h hin hoffset, if_pos (hiff.mpr hin)]
    dsimp only
    rw [List.getElem?_take_of_lt hmod, List.getElem?_drop, Nat.div_add_mod', filledArrays,
      getElem?_refcounts _ (hiff.mpr hin)]
    show ((BitVec.ofNat 16 _).toNat : Int) = _
    rw [BitVec.toNat_ofNat, Nat.mod_eq_of_lt (counted_lt c)]
  · rw [if_neg hin, if_pos rfl, if_neg fun hlt => hin (hiff.mp hlt), ite_self]

/-- **What comes behind the header** stays as it was written, unless the refcount table goes before
the L1 table. -/
theorem Places.area (hp : Places clusterBits headerSize l1Size head table blocks)
    (h : Bounded clusterBits headerSize l1Size) (hbehind : head ≤ table)
    (hroom : qcowHeaderSize + (backingBytes req part).length ≤ head * 2 ^ clusterBits) :
    bytesAt (filledFile req part clusterBits headerSize l1Size).bytes qcowHeaderSize
        (head * 2 ^ clusterBits - qcowHeaderSize) =
      backingBytes req part ++ List.replicate
        (head * 2 ^ clusterBits - qcowHeaderSize - (backingBytes req part).length) 0 := by
  have hpos : 0 < 2 ^ clusterBits := Nat.two_pow_pos _
  have ht : head * 2 ^ clusterBits ≤ table * 2 ^ clusterBits := Nat.mul_le_mul_right _ hbehind
  obtain ⟨k, hk⟩ : ∃ k, head * 2 ^ clusterBits - qcowHeaderSize =
      (backingBytes req part).length + k :=
    ⟨head * 2 ^ clusterBits - qcowHeaderSize - (backingBytes req part).length, by omega⟩
  have hend : head * 2 ^ clusterBits = qcowHeaderSize + ((backingBytes req part).length + k) := by
    omega
  rw [(hp.file h req part).1, bytesAt_storeAt_of_disjoint (.inl (by rw [add_one_mul]; omega)),
    bytesAt_storeAt_of_disjoint (.inl (by omega)), bytesAt_storeAt_of_disjoint (.inl (by omega)),
    hk, Nat.add_sub_cancel_left, bytesAt_add, headBytes, bytesAt_storeAt,
    bytesAt_storeAt_of_disjoint (.inr (Nat.le_refl _)),
    bytesAt_storeAt_of_disjoint (.inr (by rw [length_header]; omega))]
  refine congrArg _ ?_
  rw [bytesAt, List.map_const', List.length_range]

/-- The same, for a read. -/
theorem Places.pread_area (hp : Places clusterBits headerSize l1Size head table blocks)
    (h : Bounded clusterBits headerSize l1Size) (hbehind : head ≤ table)
    (hroom : qcowHeaderSize + (backingBytes req part).length ≤ head * 2 ^ clusterBits) {i n : Nat}
    (hin : qcowHeaderSize + i + n ≤ head * 2 ^ clusterBits) :
    (filledFile req part clusterBits headerSize l1Size).pread (qcowHeaderSize + i) n =
      some (((backingBytes req part ++ List.replicate
        (head * 2 ^ clusterBits - qcowHeaderSize - (backingBytes req part).length) 0).drop i).take
          n) := by
  have hpos : 0 < 2 ^ clusterBits := Nat.two_pow_pos _
  have ht : head * 2 ^ clusterBits ≤ table * 2 ^ clusterBits := Nat.mul_le_mul_right _ hbehind
  have hsize := (hp.file h req part).2
  rw [add_one_mul] at hsize
  rw [← hp.area h hbehind hroom, take_drop_bytesAt _ _ (by omega), HostFile.pread_of_le (by omega)]

end Created

end Qemu.Block
