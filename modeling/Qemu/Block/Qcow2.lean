import Qemu.Lib.Bytes

namespace Qemu.Block

open Lib

/-!
# Creating and opening qcow2 images (`block/qcow2.c`, `block/qcow2-refcount.c`)

An image is a file of clusters: the header with the extensions and the name of the backing file, the
L1 table, the refcount table and the refcount blocks.

* `qcowCreate2` — a new image, with the arrays of refcounts it fills in memory;
* `qcow2RefcountInit`, `getRefcount` — what an image says how often a cluster is referenced;
* `qcowReadExtensions`, `qcowOpen` — an image is opened.
-/

/-! ### C integers -/

/-- A value as an `int`. -/
def toInt32 (x : Int) : Int := x.bmod (2 ^ 32)

/-- A value as an `int64_t`. -/
def toInt64 (x : Int) : Int := x.bmod (2 ^ 64)

/-- `x & ~(n - 1)`, where `n` is a power of two. -/
def maskDown (x n : Int) : Int := x / n * n

/-- `align_offset`. -/
def alignOffset (offset n : Int) : Int := maskDown (offset + n - 1) n

/-! ### The host file -/

/-- A file of the host: its bytes and its size. -/
structure HostFile where
  bytes : Nat → Lib.Byte
  size : Nat

/-- The file with the position of its descriptor. -/
structure HostFd where
  file : HostFile
  pos : Nat

/-- A file that has just been truncated.  What is never written reads as zeros. -/
def HostFd.truncated : HostFd := ⟨⟨fun _ => 0, 0⟩, 0⟩

/-- `write`: the bytes go to the position, which moves on. -/
def HostFd.write (fd : HostFd) (l : List Lib.Byte) : HostFd where
  file :=
    { bytes := storeAt fd.file.bytes fd.pos l
      size := if l = [] then fd.file.size else max fd.file.size (fd.pos + l.length) }
  pos := fd.pos + l.length

/-- `lseek` refuses a negative position. -/
def HostFd.lseek (fd : HostFd) (pos : Int) : HostFd :=
  if 0 ≤ pos then { fd with pos := pos.toNat } else fd

/-- What `bdrv_pread` of the file has read where it returns `count`, which is an `int`: nothing if
it is not positive.  Behind the end of the file there are zeros, but a read across the end fails. -/
def HostFile.pread (f : HostFile) (offset : Nat) (count : Int) : Option (List Lib.Byte) :=
  if offset + count.toNat ≤ f.size ∨ f.size ≤ offset then some (bytesAt f.bytes offset count.toNat)
  else none

/-! ### The header -/

/-- `QCOW_MAGIC` -/
def qcowMagic : BitVec 32 := 0x514649FB

/-- `QCOW_VERSION` -/
def qcowVersion : BitVec 32 := 2

/-- `QCOW_CRYPT_NONE` -/
def qcowCryptNone : BitVec 32 := 0

/-- `QCOW_CRYPT_AES` -/
def qcowCryptAes : BitVec 32 := 1

/-- `QCOW_EXT_MAGIC_END` -/
def qcowExtMagicEnd : BitVec 32 := 0

/-- `QCOW_EXT_MAGIC_BACKING_FORMAT` -/
def qcowExtMagicBackingFormat : BitVec 32 := 0xE2792ACA

/-- `MIN_CLUSTER_BITS` -/
def minClusterBits : Nat := 9

/-- `MAX_CLUSTER_BITS` -/
def maxClusterBits : Nat := 21

/-- `REFCOUNT_SHIFT` -/
def refcountShift : Nat := 1

/-- `QCowHeader` -/
structure QCowHeader where
  magic : BitVec 32
  version : BitVec 32
  backingFileOffset : BitVec 64
  backingFileSize : BitVec 32
  clusterBits : BitVec 32
  size : BitVec 64
  cryptMethod : BitVec 32
  l1Size : BitVec 32
  l1TableOffset : BitVec 64
  refcountTableOffset : BitVec 64
  refcountTableClusters : BitVec 32
  nbSnapshots : BitVec 32
  snapshotsOffset : BitVec 64

/-- `sizeof(QCowHeader)`. -/
def qcowHeaderSize : Nat := 72

/-- `sizeof(QCowExtension)`. -/
def qcowExtensionSize : Nat := 8

/-- A header as it is written, in big-endian words. -/
def QCowHeader.bytes (h : QCowHeader) : List Lib.Byte :=
  putBe32 h.magic ++ (putBe32 h.version ++ (putBe64 h.backingFileOffset ++
    (putBe32 h.backingFileSize ++ (putBe32 h.clusterBits ++ (putBe64 h.size ++
      (putBe32 h.cryptMethod ++ (putBe32 h.l1Size ++ (putBe64 h.l1TableOffset ++
        (putBe64 h.refcountTableOffset ++ (putBe32 h.refcountTableClusters ++
          (putBe32 h.nbSnapshots ++ putBe64 h.snapshotsOffset)))))))))))

/-- And as it is read. -/
def getQCowHeader : Get QCowHeader := do
  let magic ← getBe32
  let version ← getBe32
  let backingFileOffset ← getBe64
  let backingFileSize ← getBe32
  let clusterBits ← getBe32
  let size ← getBe64
  let cryptMethod ← getBe32
  let l1Size ← getBe32
  let l1TableOffset ← getBe64
  let refcountTableOffset ← getBe64
  let refcountTableClusters ← getBe32
  let nbSnapshots ← getBe32
  let snapshotsOffset ← getBe64
  pure { magic, version, backingFileOffset, backingFileSize, clusterBits, size, cryptMethod, l1Size,
         l1TableOffset, refcountTableOffset, refcountTableClusters, nbSnapshots, snapshotsOffset }

theorem reads_header (h : QCowHeader) : Reads getQCowHeader h.bytes h := by
  unfold getQCowHeader QCowHeader.bytes
  apply (reads_be32 _).bind
  apply (reads_be32 _).bind
  apply (reads_be64 _).bind
  apply (reads_be32 _).bind
  apply (reads_be32 _).bind
  apply (reads_be64 _).bind
  apply (reads_be32 _).bind
  apply (reads_be32 _).bind
  apply (reads_be64 _).bind
  apply (reads_be64 _).bind
  apply (reads_be32 _).bind
  apply (reads_be32 _).bind
  exact (reads_be64 _).map

@[simp] theorem length_header (h : QCowHeader) : h.bytes.length = qcowHeaderSize := rfl

/-! ### The layout of a new image -/

/-- What `qcow_create2` is asked for.  The names are without their final NUL. -/
structure CreateRequest where
  /-- In sectors. -/
  totalSize : Int
  backingFile : Option (List Lib.Byte)
  backingFormat : Option (List Lib.Byte)
  encrypt : Bool
  clusterSize : Nat

/-- What `qcow_create2` computes of the backing format. -/
structure FormatPart where
  backingFormatLen : Int
  /-- `ext_bf.len`. -/
  extLen : BitVec 32
  roundedExtBfLen : Int

/-- What `qcow_create2` computes of the backing format. -/
def formatPart : Option (List Lib.Byte) → FormatPart
  | none => { backingFormatLen := 0, extLen := 0, roundedExtBfLen := 0 }
  | some format =>
    let len := toInt32 format.length
    let extLen := BitVec.ofInt 32 len
    { backingFormatLen := len
      extLen
      roundedExtBfLen := toInt32 (maskDown (qcowExtensionSize + extLen.toNat + 7) 8) }

/-- What `qcow_create2` computes of the header and what comes behind it. -/
structure HeaderPart where
  format : FormatPart
  backingFileOffset : BitVec 64
  backingFilenameLen : Int
  /-- `header_size`, rounded up. -/
  headerSize : Int

/-- What it computes of the header. -/
def headerPart (req : CreateRequest) : HeaderPart :=
  match req.backingFile with
  | none =>
    { format := formatPart none
      backingFileOffset := 0
      backingFilenameLen := 0
      headerSize := maskDown (toInt32 (qcowHeaderSize + 7)) 8 }
  | some name =>
    let format := formatPart req.backingFormat
    let headerSize := toInt32 (qcowHeaderSize + format.roundedExtBfLen)
    let len := toInt32 name.length
    { format
      backingFileOffset := BitVec.ofInt 64 headerSize
      backingFilenameLen := len
      headerSize := maskDown (toInt32 (toInt32 (headerSize + len) + 7)) 8 }

/-- The loop of `get_bits_from_size`.  The size is never 0 in it. -/
def getBitsLoop (size : Nat) (res : Int) : Int :=
  if size ≤ 1 then res
  else if size % 2 = 1 then -1
  else getBitsLoop (size / 2) (res + 1)
termination_by size

/-- `get_bits_from_size` -/
def getBitsFromSize (size : Nat) : Int := if size = 0 then -1 else getBitsLoop size 0

/-- The number of L1 entries: `((total_size * 512) + (1LL << shift) - 1) >> shift` in an `int`. -/
def createL1Size (totalSize : Int) (clusterBits : Nat) : Int :=
  let shift := clusterBits + (clusterBits - 3)
  toInt32 (toInt64 (toInt64 (totalSize * 512) + 2 ^ shift - 1) / 2 ^ shift)

/-- Where `qcow_create2` puts what, and how many refcount blocks it counts on. -/
structure CreateLayout where
  l1Size : Int
  l1TableOffset : BitVec 64
  refcountTableOffset : BitVec 64
  refcountBlockOffset : BitVec 64
  refClusters : Int

/-- Where `qcow_create2` puts the tables. -/
def createLayout (totalSize headerSize : Int) (clusterBits : Nat) : CreateLayout :=
  let clusterSize : Nat := 2 ^ clusterBits
  let l1Size := createL1Size totalSize clusterBits
  let l1TableOffset := BitVec.ofInt 64 (alignOffset headerSize clusterSize)
  let refcountTableOffset :=
    l1TableOffset + BitVec.ofInt 64 (alignOffset (toInt64 (l1Size * 8)) clusterSize)
  let refcountBlockOffset := refcountTableOffset + BitVec.ofNat 64 clusterSize
  -- the blocks themselves are not counted here
  let tmp := refcountBlockOffset.toNat / 2 ^ clusterBits
  { l1Size, l1TableOffset, refcountTableOffset, refcountBlockOffset
    refClusters := toInt32 (tmp / 2 ^ (clusterBits - refcountShift) + 1 : Nat) }

/-! ### The refcounts of a new image -/

/-- The loop that fills the refcount table; `none` where it leaves the array. -/
def refcountTableLoop (clusterSize : Nat) :
    (n i : Nat) → (offset : BitVec 64) → List (BitVec 64) → Option (List (BitVec 64))
  | 0, _, _, table => some table
  | n + 1, i, offset, table =>
    if i < table.length then
      refcountTableLoop clusterSize n (i + 1) (offset + BitVec.ofNat 64 clusterSize)
        (table.set i offset)
    else none

/-- One step of the loop of `qcow2_create_refcount_update`; `none` where it leaves the array. -/
def bumpRefcount (clusterSize : Nat) (refcountBlock : List (BitVec 16)) (clusterOffset : Int) :
    Option (List (BitVec 16)) :=
  let p := clusterOffset / clusterSize
  if 0 ≤ p ∧ p < refcountBlock.length then
    some (refcountBlock.modify p.toNat (· + 1))
  else none

/-- `qcow2_create_refcount_update`. -/
def qcow2CreateRefcountUpdate (clusterSize : Nat) (offset size : Int)
    (refcountBlock : List (BitVec 16)) : Option (List (BitVec 16)) :=
  let start := maskDown offset clusterSize
  let last := maskDown (offset + size - 1) clusterSize
  (List.range ((last - start) / clusterSize + 1).toNat).foldlM
    (fun block (i : Nat) => bumpRefcount clusterSize block (start + i * clusterSize)) refcountBlock

/-- The two arrays of `QCowCreateState`. -/
structure CreateRefcounts where
  refcountTable : List (BitVec 64)
  refcountBlock : List (BitVec 16)

/-- The part of `qcow_create2` that fills the arrays. -/
def createRefcounts (clusterBits : Nat) (headerSize : Int) (lay : CreateLayout) :
    Option CreateRefcounts := do
  let clusterSize := 2 ^ clusterBits
  let refcountTable ← refcountTableLoop clusterSize lay.refClusters.toNat 0 lay.refcountBlockOffset
    (List.replicate (clusterSize / 8) 0)
  let size := toInt32 (lay.refClusters * clusterSize)
  let refcountBlock := List.replicate (size.toNat / 2) 0
  let refcountBlock ← qcow2CreateRefcountUpdate clusterSize 0 headerSize refcountBlock
  let refcountBlock ← qcow2CreateRefcountUpdate clusterSize lay.l1TableOffset.toInt
    (toInt64 (lay.l1Size * 8)) refcountBlock
  let refcountBlock ← qcow2CreateRefcountUpdate clusterSize lay.refcountTableOffset.toInt
    clusterSize refcountBlock
  let refcountBlock ← qcow2CreateRefcountUpdate clusterSize lay.refcountBlockOffset.toInt size
    refcountBlock
  pure { refcountTable, refcountBlock }

/-! ### The file of a new image -/

/-- The header that it writes. -/
def createHeader (req : CreateRequest) (clusterBits : Nat) (part : HeaderPart)
    (lay : CreateLayout) : QCowHeader where
  magic := qcowMagic
  version := qcowVersion
  backingFileOffset := part.backingFileOffset
  backingFileSize := BitVec.ofInt 32 part.backingFilenameLen
  clusterBits := BitVec.ofNat 32 clusterBits
  size := BitVec.ofInt 64 (req.totalSize * 512)
  cryptMethod := if req.encrypt then qcowCryptAes else qcowCryptNone
  l1Size := BitVec.ofInt 32 lay.l1Size
  l1TableOffset := lay.l1TableOffset
  refcountTableOffset := lay.refcountTableOffset
  refcountTableClusters := 1
  nbSnapshots := 0
  snapshotsOffset := 0

/-- What is written of the extension.  The length is what decides. -/
def extensionBytes (part : FormatPart) (format : Option (List Lib.Byte)) : List Lib.Byte :=
  if part.backingFormatLen = 0 then []
  else
    let padding := part.roundedExtBfLen - (part.extLen.toNat + qcowExtensionSize)
    putBe32 qcowExtMagicBackingFormat ++ (putBe32 part.extLen ++
      ((format.getD []).take part.backingFormatLen.toNat ++ List.replicate padding.toNat 0))

/-- What is written behind the header. -/
def backingBytes (req : CreateRequest) (part : HeaderPart) : List Lib.Byte :=
  match req.backingFile with
  | none => []
  | some name =>
    extensionBytes part.format req.backingFormat ++ name.take part.backingFilenameLen.toNat

/-- The part of `qcow_create2` that writes the file. -/
def createFile (req : CreateRequest) (clusterBits : Nat) (part : HeaderPart) (lay : CreateLayout)
    (s : CreateRefcounts) : HostFile :=
  let fd := HostFd.truncated.write (createHeader req clusterBits part lay).bytes
  let fd := fd.write (backingBytes req part)
  let fd := (fd.lseek lay.l1TableOffset.toInt).write (List.replicate (8 * lay.l1Size.toNat) 0)
  let fd := (fd.lseek lay.refcountTableOffset.toInt).write (s.refcountTable.flatMap putBe64)
  let fd := (fd.lseek lay.refcountBlockOffset.toInt).write (s.refcountBlock.flatMap putBe16)
  fd.file

/-- The errors it returns. -/
inductive CreateError where
  /-- `-EINVAL`. -/
  | invalid
  /-- An array is left. -/
  | outOfArray

/-- `qcow_create2` without preallocation. -/
def qcowCreate2 (req : CreateRequest) : Except CreateError HostFile :=
  let part := headerPart req
  let bits := getBitsFromSize req.clusterSize
  if bits < minClusterBits ∨ maxClusterBits < bits then .error .invalid
  else
    let lay := createLayout req.totalSize part.headerSize bits.toNat
    match createRefcounts bits.toNat part.headerSize lay with
    | none => .error .outOfArray
    | some s => .ok (createFile req bits.toNat part lay s)

/-! ### Opening an image -/

/-- The header, with the checks `qcow_open` makes of it. -/
def qcowReadHeader (f : HostFile) : Option QCowHeader := do
  let bytes ← f.pread 0 qcowHeaderSize
  let (h, _) ← getQCowHeader bytes
  guard (h.magic = qcowMagic ∧ h.version = qcowVersion)
  guard (minClusterBits ≤ h.clusterBits.toNat ∧ h.clusterBits.toNat ≤ maxClusterBits)
  guard (h.cryptMethod.toNat ≤ qcowCryptAes.toNat)
  pure h

/-- `s->refcount_table_size`. -/
def QCowHeader.refcountTableSize (h : QCowHeader) : Nat :=
  (h.refcountTableClusters <<< (h.clusterBits.toNat - 3)).toNat

/-- `qcow2_refcount_init`: the refcount table.  It is `none` also where the `int` is too small for
the size, and the entries are not in the array. -/
def qcow2RefcountInit (f : HostFile) (h : QCowHeader) : Option (List (BitVec 64)) := do
  let n := h.refcountTableSize
  let refcountTableSize2 := toInt32 (n * 8 : Nat)
  let bytes ← f.pread h.refcountTableOffset.toNat refcountTableSize2
  let (table, _) ← getList getBe64 n bytes
  pure table

/-- `load_refcount_block`. -/
def loadRefcountBlock (f : HostFile) (clusterSize : Nat) (refcountBlockOffset : BitVec 64) :
    Option (List (BitVec 16)) := do
  let bytes ← f.pread refcountBlockOffset.toNat clusterSize
  let (block, _) ← getList getBe16 (clusterSize / 2) bytes
  pure block

/-- `get_refcount`.  The cache of one block does not show, as nothing is written. -/
def getRefcount (f : HostFile) (clusterBits : Nat) (refcountTable : List (BitVec 64))
    (clusterIndex : Nat) : Int :=
  let shift := clusterBits - refcountShift
  -- compared as an `unsigned int`
  let refcountTableIndex := clusterIndex / 2 ^ shift % 2 ^ 32
  if refcountTable.length ≤ refcountTableIndex then 0
  else
    let refcountBlockOffset := (refcountTable[refcountTableIndex]?).getD 0
    if refcountBlockOffset = 0 then 0
    else
      match loadRefcountBlock f (2 ^ clusterBits) refcountBlockOffset with
      -- better than nothing: return allocated if read error
      | none => 1
      | some block => ((block[clusterIndex % 2 ^ shift]?).getD 0).toNat

/-- `QCowExtension` -/
structure QCowExtension where
  magic : BitVec 32
  len : BitVec 32

/-- The header of an extension, as it is read. -/
def getQCowExtension : Get QCowExtension := do
  let magic ← getBe32
  let len ← getBe32
  pure { magic, len }

/-- `sizeof(bs->backing_format)`. -/
def backingFormatMax : Nat := 16

/-- `qcow_read_extensions` with what it takes for extensions on its way, or its error. -/
def qcowReadExtensions (f : HostFile) (offset endOffset : Nat) (backingFormat : List Lib.Byte) :
    Except Nat (List Lib.Byte × List QCowExtension) :=
  if offset < endOffset then
    match (f.pread offset qcowExtensionSize).bind getQCowExtension with
    | none => .error 1
    | some (ext, _) =>
      let next := (offset + qcowExtensionSize + ext.len.toNat + 7) / 8 * 8
      if ext.magic = qcowExtMagicEnd then .ok (backingFormat, [])
      else if ext.magic = qcowExtMagicBackingFormat then
        if backingFormatMax ≤ ext.len.toNat then .error 2
        else
          match f.pread (offset + qcowExtensionSize) ext.len.toNat with
          | none => .error 3
          | some format =>
            (qcowReadExtensions f next endOffset format).map fun r => (r.1, ext :: r.2)
      -- unknown magic -- just skip it
      else (qcowReadExtensions f next endOffset backingFormat).map fun r => (r.1, ext :: r.2)
  else .ok (backingFormat, [])
termination_by endOffset - offset
decreasing_by
  all_goals
    have hsize : qcowExtensionSize = 8 := rfl
    omega

/-- What the block layer learns from an image. -/
structure OpenedImage where
  encrypted : Bool
  totalSectors : Nat
  clusterBits : Nat
  l1Table : List (BitVec 64)
  refcountTable : List (BitVec 64)
  /-- `bs->backing_format`, up to its NUL. -/
  backingFormat : List Lib.Byte
  /-- `bs->backing_file`, up to its NUL. -/
  backingFile : List Lib.Byte
  extensions : List QCowExtension

/-- The characters of a buffer up to the NUL. -/
def cString (buf : List Lib.Byte) : List Lib.Byte := buf.takeWhile (· ≠ 0)

/-- The part of `qcow_open` that reads the L1 table. -/
def qcowReadL1Table (f : HostFile) (h : QCowHeader) : Option (List (BitVec 64)) := do
  let clusterBits := h.clusterBits.toNat
  let shift := clusterBits + (clusterBits - 3)
  let l1Size := h.l1Size.toInt
  let l1VmStateIndex := toInt32 ((h.size.toNat + 2 ^ shift - 1) % 2 ^ 64 / 2 ^ shift : Nat)
  -- the L1 table must contain at least enough entries to put header.size bytes
  guard (l1VmStateIndex ≤ l1Size)
  let n := l1Size.toNat
  if 0 < n then
    let count := toInt32 (n * 8 : Nat)
    let bytes ← f.pread h.l1TableOffset.toNat count
    -- what is returned is compared with the size, which is no `int`
    guard (count = (n * 8 : Nat))
    let (table, _) ← getList getBe64 n bytes
    pure table
  else pure []

/-- The part of `qcow_open` that reads the backing file name. -/
def qcowReadBackingFile (f : HostFile) (h : QCowHeader) : Option (List Lib.Byte) :=
  if h.backingFileOffset ≠ 0 then
    f.pread h.backingFileOffset.toNat (min h.backingFileSize.toInt 1023)
  else some []

/-- `qcow2_read_snapshots`, where `readSnapshots` is what it does with a snapshot table. -/
def qcow2ReadSnapshots (readSnapshots : HostFile → QCowHeader → Option Unit) (f : HostFile)
    (h : QCowHeader) : Option Unit :=
  if h.nbSnapshots = 0 then some () else readSnapshots f h

/-- `qcow_open`. -/
def qcowOpen (readSnapshots : HostFile → QCowHeader → Option Unit) (f : HostFile) :
    Option OpenedImage := do
  let h ← qcowReadHeader f
  let clusterBits := h.clusterBits.toNat
  let l1Table ← qcowReadL1Table f h
  let refcountTable ← qcow2RefcountInit f h
  let extEnd := if h.backingFileOffset ≠ 0 then h.backingFileOffset.toNat else 2 ^ clusterBits
  let (backingFormat, extensions) ← (qcowReadExtensions f qcowHeaderSize extEnd []).toOption
  let backingFile ← qcowReadBackingFile f h
  qcow2ReadSnapshots readSnapshots f h
  pure
    { encrypted := h.cryptMethod ≠ 0
      totalSectors := h.size.toNat / 512
      clusterBits
      l1Table
      refcountTable
      backingFormat := cString backingFormat
      backingFile := cString backingFile
      extensions }

end Qemu.Block
