import Qemu.Block.Qcow2Refcount
import Mathlib.Data.List.TakeWhile

namespace Qemu.Block

open Lib

/-!
# The backing file of a new qcow2 image

`qcow_create2` leaves room for the extension with the backing format whenever there is a format, but
writes the extension only if the format is not empty.

* `headerPart_of_short` — the header for names of ordinary length;
* `Places.backing_bytes` — what is behind the header in the file;
* `qcowOpen_backing` — when an image that is opened has the names it was made with.
-/

/-! ### The names -/

/-- Names that have a place in `bs->backing_file` and `bs->backing_format`. -/
structure ShortNames (req : CreateRequest) (name : List Lib.Byte) : Prop where
  file_eq : req.backingFile = some name
  file_length : name.length ≤ 1023
  file_noNul : 0 ∉ name
  format_length : (req.backingFormat.getD []).length < backingFormatMax
  format_noNul : 0 ∉ req.backingFormat.getD []

section Names

variable {req : CreateRequest} {name : List Lib.Byte}

theorem extensionLength_le {format : Option (List Lib.Byte)}
    (h : (format.getD []).length < backingFormatMax) :
    extensionLength format ≤ 24 ∧ extensionLength format % 8 = 0 := by
  have hext : qcowExtensionSize = 8 := rfl
  have hmax : backingFormatMax = 16 := rfl
  cases format with
  | none => exact ⟨Nat.zero_le _, rfl⟩
  | some format =>
    have hlen : format.length < backingFormatMax := h
    dsimp only [extensionLength]
    omega

/-- The extension for a short format. -/
theorem formatPart_of_short {format : Option (List Lib.Byte)}
    (h : (format.getD []).length < backingFormatMax) :
    formatPart format =
      { backingFormatLen := (format.getD []).length
        extLen := BitVec.ofNat 32 (format.getD []).length
        roundedExtBfLen := extensionLength format } := by
  have hext : qcowExtensionSize = 8 := rfl
  have hmax : backingFormatMax = 16 := rfl
  cases format with
  | none => rfl
  | some format =>
    have hlen : format.length < backingFormatMax := h
    have hint : toInt32 (format.length : Int) = format.length :=
      toInt32_of_bounds (by omega) (by omega)
    have hnat : (BitVec.ofNat 32 format.length).toNat = format.length :=
      Nat.mod_eq_of_lt (by omega)
    dsimp only [formatPart, Option.getD_some]
    rw [hint, BitVec.ofInt_natCast, hnat, maskDown, hext, toInt32_of_bounds (by omega) (by omega),
      extensionLength, hext]
    congr 1

/-- **The header** for short names. -/
theorem headerPart_of_short (h : ShortNames req name) :
    headerPart req =
      { format :=
          { backingFormatLen := (req.backingFormat.getD []).length
            extLen := BitVec.ofNat 32 (req.backingFormat.getD []).length
            roundedExtBfLen := extensionLength req.backingFormat }
        backingFileOffset := BitVec.ofNat 64 (qcowHeaderSize + extensionLength req.backingFormat)
        backingFilenameLen := name.length
        headerSize := roundedHeader req } := by
  have hsize : qcowHeaderSize = 72 := rfl
  obtain ⟨hext, -⟩ := extensionLength_le h.format_length
  have hname := h.file_length
  -- no sum of lengths leaves the range of an `int`
  have hround : roundedHeader req =
      (qcowHeaderSize + extensionLength req.backingFormat + name.length + 7) / 8 * 8 := by
    rw [roundedHeader, headerLength, h.file_eq]
  have hoffset : (qcowHeaderSize + extensionLength req.backingFormat : Int) =
      (qcowHeaderSize + extensionLength req.backingFormat : Nat) := by
    push_cast
    rfl
  have hlen : toInt32 name.length = name.length := toInt32_of_bounds (by omega) (by omega)
  have hfirst : toInt32 (qcowHeaderSize + extensionLength req.backingFormat : Nat) =
      (qcowHeaderSize + extensionLength req.backingFormat : Nat) :=
    toInt32_of_bounds (by omega) (by omega)
  have hboth : toInt32 ((qcowHeaderSize + extensionLength req.backingFormat : Nat) + name.length) =
      (qcowHeaderSize + extensionLength req.backingFormat : Nat) + name.length :=
    toInt32_of_bounds (by omega) (by omega)
  have hsum : toInt32 ((qcowHeaderSize + extensionLength req.backingFormat : Nat) +
        name.length + 7) =
      (qcowHeaderSize + extensionLength req.backingFormat : Nat) + name.length + 7 :=
    toInt32_of_bounds (by omega) (by omega)
  unfold headerPart
  rw [h.file_eq]
  dsimp only
  rw [formatPart_of_short h.format_length]
  dsimp only
  rw [hoffset, hlen, hfirst, hboth, hsum, BitVec.ofInt_natCast, maskDown, hround]
  congr 1

theorem backingBytes_of_nil (h : ShortNames req name) (hfmt : req.backingFormat.getD [] = []) :
    backingBytes req (headerPart req) = name := by
  unfold backingBytes
  rw [h.file_eq, headerPart_of_short h, hfmt]
  have hzero : ((([] : List Lib.Byte).length : Nat) : Int) = 0 := rfl
  dsimp only [extensionBytes]
  rw [if_pos hzero, Int.toNat_natCast, List.take_length, List.nil_append]

/-- The extension and the name, up to which the extension is padded. -/
theorem backingBytes_of_ne (h : ShortNames req name) (hfmt : req.backingFormat.getD [] ≠ []) :
    ∃ padding, padding < 8 ∧
      qcowExtensionSize + (req.backingFormat.getD []).length + padding =
        extensionLength req.backingFormat ∧
      backingBytes req (headerPart req) =
        putBe32 qcowExtMagicBackingFormat ++
          putBe32 (BitVec.ofNat 32 (req.backingFormat.getD []).length) ++
            (req.backingFormat.getD [] ++ (List.replicate padding 0 ++ name)) := by
  have hext : qcowExtensionSize = 8 := rfl
  have hmax : backingFormatMax = 16 := rfl
  have hlen := h.format_length
  have hnat : (BitVec.ofNat 32 (req.backingFormat.getD []).length).toNat =
      (req.backingFormat.getD []).length := Nat.mod_eq_of_lt (by omega)
  have hle : qcowExtensionSize + (req.backingFormat.getD []).length ≤
        extensionLength req.backingFormat ∧
      extensionLength req.backingFormat <
        qcowExtensionSize + (req.backingFormat.getD []).length + 8 := by
    cases hf : req.backingFormat with
    | none =>
      rw [hf] at hfmt
      exact absurd rfl hfmt
    | some format =>
      dsimp only [extensionLength, Option.getD_some]
      omega
  -- the extension is padded up to eight bytes
  refine ⟨extensionLength req.backingFormat -
    (qcowExtensionSize + (req.backingFormat.getD []).length), by omega, by omega, ?_⟩
  have hne : ((req.backingFormat.getD []).length : Int) ≠ 0 := by
    intro hzero
    exact hfmt (List.length_eq_zero_iff.mp (by omega))
  have hpadding : ((extensionLength req.backingFormat : Int) -
      ((req.backingFormat.getD []).length + qcowExtensionSize)).toNat =
      extensionLength req.backingFormat -
        (qcowExtensionSize + (req.backingFormat.getD []).length) := by omega
  unfold backingBytes
  rw [h.file_eq, headerPart_of_short h]
  dsimp only
  rw [extensionBytes, if_neg hne]
  dsimp only
  rw [hnat, hpadding, Int.toNat_natCast, Int.toNat_natCast, List.take_length, List.take_length]
  simp only [List.append_assoc]

/-- Both names and the extension. -/
theorem length_backingBytes (h : ShortNames req name) :
    (backingBytes req (headerPart req)).length ≤
      extensionLength req.backingFormat + name.length := by
  by_cases hfmt : req.backingFormat.getD [] = []
  · rw [backingBytes_of_nil h hfmt]
    exact Nat.le_add_left ..
  · obtain ⟨padding, -, hlen, heq⟩ := backingBytes_of_ne h hfmt
    have hext : qcowExtensionSize = 8 := rfl
    have hfour : ∀ v : BitVec 32, (putBe32 v).length = 4 := fun _ => rfl
    rw [heq]
    simp only [List.length_append, List.length_replicate, hfour]
    omega

theorem cString_eq_self {buf : List Lib.Byte} (h : 0 ∉ buf) : cString buf = buf := by
  apply List.takeWhile_eq_self_iff.mpr
  intro b hb
  exact decide_eq_true fun hzero => h (hzero ▸ hb)

theorem cString_ne {buf : List Lib.Byte} (h : 0 ∈ buf) : cString buf ≠ buf := by
  intro heq
  have hall := List.takeWhile_eq_self_iff.mp heq 0 h
  exact of_decide_eq_true hall rfl

end Names

/-! ### Opening -/

/-- The extensions that have been written. -/
def writtenExtensions (req : CreateRequest) : List QCowExtension :=
  if req.backingFormat.getD [] = [] then []
  else [⟨qcowExtMagicBackingFormat, BitVec.ofNat 32 (req.backingFormat.getD []).length⟩]

/-- The names are those the image was made with, and nothing else was taken for an extension. -/
structure NamesKept (req : CreateRequest) (name : List Lib.Byte) (img : OpenedImage) : Prop where
  file : img.backingFile = name
  format : img.backingFormat = req.backingFormat.getD []
  extensions : img.extensions = writtenExtensions req

/-- The size is one that fits the L1 table: the number of entries is not lower than `qcow_open`
wants it, their bytes can be read at once, and the refcount table is not before the L1 table. -/
structure L1Kept (totalSize : Int) (clusterBits : Nat) : Prop where
  entries : toInt32 (((BitVec.ofInt 64 (totalSize * 512)).toNat +
    2 ^ (clusterBits + (clusterBits - 3)) - 1) % 2 ^ 64 /
      2 ^ (clusterBits + (clusterBits - 3)) : Nat) ≤ createL1Size totalSize clusterBits
  readable : createL1Size totalSize clusterBits * 8 < 2 ^ 31
  behind : 0 ≤ clustersOf clusterBits (createL1Size totalSize clusterBits * 8)

theorem getList_total {α : Type} {g : Get α} (hg : ∀ bs, ∃ r, g bs = some r) (n : Nat)
    (bs : List Lib.Byte) : ∃ r, getList g n bs = some r := by
  induction n generalizing bs with
  | zero => exact ⟨_, rfl⟩
  | succ n ih =>
    obtain ⟨⟨a, bs'⟩, ha⟩ := hg bs
    obtain ⟨⟨l, bs''⟩, hl⟩ := ih bs'
    refine ⟨(a :: l, bs''), ?_⟩
    show (g bs).bind (fun p => (getList g n p.2).bind fun q => some (p.1 :: q.1, q.2)) = _
    rw [ha, Option.bind_some, hl]
    rfl

section Open

variable {req : CreateRequest} {name : List Lib.Byte} {clusterBits : Nat} {l1Size : Int}
  {head table blocks : Nat}

theorem filledHeader_offset (h : ShortNames req name) (clusterBits : Nat) (l1Size : Int) :
    (filledHeader req (headerPart req) clusterBits (headerPart req).headerSize
        l1Size).backingFileOffset.toNat =
      qcowHeaderSize + extensionLength req.backingFormat := by
  have hsize : qcowHeaderSize = 72 := rfl
  obtain ⟨hext, -⟩ := extensionLength_le h.format_length
  show (headerPart req).backingFileOffset.toNat = _
  rw [headerPart_of_short h]
  exact Nat.mod_eq_of_lt (by omega)

/-- The length of the name is read back. -/
theorem filledHeader_nameLength (h : ShortNames req name) (clusterBits : Nat) (l1Size : Int) :
    min (filledHeader req (headerPart req) clusterBits (headerPart req).headerSize
        l1Size).backingFileSize.toInt 1023 = name.length := by
  have hname := h.file_length
  have hint : (BitVec.ofInt 32 (name.length : Int)).toInt = name.length :=
    (BitVec.toInt_ofInt ..).trans (toInt32_of_bounds (by omega) (by omega))
  show min (BitVec.ofInt 32 (headerPart req).backingFilenameLen).toInt 1023 = _
  rw [headerPart_of_short h]
  dsimp only
  rw [hint]
  exact min_eq_left (by omega)

/-- The header and the names are before the first cluster behind them. -/
theorem names_room (h : ShortNames req name)
    (hp : Places clusterBits (headerPart req).headerSize l1Size head table blocks) :
    qcowHeaderSize + extensionLength req.backingFormat + name.length ≤ roundedHeader req ∧
      roundedHeader req ≤ head * 2 ^ clusterBits ∧
      roundedHeader req ≤
        qcowHeaderSize + extensionLength req.backingFormat + name.length + 7 := by
  have hround : roundedHeader req =
      (qcowHeaderSize + extensionLength req.backingFormat + name.length + 7) / 8 * 8 := by
    rw [roundedHeader, headerLength, h.file_eq]
  have hheader : (headerPart req).headerSize = roundedHeader req := by rw [headerPart_of_short h]
  have hle := (clustersOf_bounds clusterBits (headerPart req).headerSize).1
  have hcast : (head : Int) * 2 ^ clusterBits = (head * 2 ^ clusterBits : Nat) := by
    push_cast
    rfl
  rw [hp.head_eq, hheader, hcast] at hle
  omega

theorem backing_room (h : ShortNames req name)
    (hp : Places clusterBits (headerPart req).headerSize l1Size head table blocks) :
    qcowHeaderSize + (backingBytes req (headerPart req)).length ≤ head * 2 ^ clusterBits := by
  obtain ⟨hle, hroom, -⟩ := names_room h hp
  have hlen := length_backingBytes h
  omega

theorem reads_extension (magic len : BitVec 32) :
    Reads getQCowExtension (putBe32 magic ++ putBe32 len) ⟨magic, len⟩ := by
  unfold getQCowExtension
  apply (reads_be32 _).bind
  exact (reads_be32 _).map

/-- **The extensions are read back**, except where room was left for one that was not written. -/
theorem readExtensions_created (h : ShortNames req name)
    (hp : Places clusterBits (headerPart req).headerSize l1Size head table blocks)
    (hb : Bounded clusterBits (headerPart req).headerSize l1Size) (hbehind : head ≤ table)
    (hfmt : req.backingFormat ≠ some [] ∨ name = []) :
    qcowReadExtensions
        (filledFile req (headerPart req) clusterBits (headerPart req).headerSize l1Size)
        qcowHeaderSize (qcowHeaderSize + extensionLength req.backingFormat) [] =
      .ok (req.backingFormat.getD [], writtenExtensions req) := by
  have hsize : qcowHeaderSize = 72 := rfl
  have hext : qcowExtensionSize = 8 := rfl
  have hmax : backingFormatMax = 16 := rfl
  obtain ⟨hle, hroom, -⟩ := names_room h hp
  by_cases hnil : req.backingFormat.getD [] = []
  · rw [writtenExtensions, if_pos hnil, hnil]
    cases hf : req.backingFormat with
    | none => rw [qcowReadExtensions, extensionLength, if_neg (by omega)]
    | some format =>
      -- the room that was left is all zeros, as there is no name in it
      rw [hf] at hnil hfmt hle
      obtain rfl : format = [] := hnil
      obtain rfl : name = [] := hfmt.resolve_left fun hne => hne rfl
      have hread := hp.pread_area hb hbehind (backing_room h hp)
        (show qcowHeaderSize + 0 + qcowExtensionSize ≤ head * 2 ^ clusterBits by
          dsimp only [extensionLength] at hle
          omega)
      have hzeros : ((backingBytes req (headerPart req) ++ List.replicate
          (head * 2 ^ clusterBits - qcowHeaderSize - (backingBytes req (headerPart req)).length)
            0).drop 0).take qcowExtensionSize = putBe32 0 ++ putBe32 0 := by
        have hlong : qcowExtensionSize ≤ head * 2 ^ clusterBits - qcowHeaderSize := by
          dsimp only [extensionLength] at hle
          omega
        rw [backingBytes_of_nil h (by rw [hf]; rfl), List.nil_append, List.drop_zero,
          List.length_nil, Nat.sub_zero, List.take_replicate, Nat.min_eq_left hlong]
        rfl
      rw [Nat.add_zero, hzeros] at hread
      rw [qcowReadExtensions, if_pos (by dsimp only [extensionLength]; omega), hread,
        Option.bind_some, (reads_extension 0 0).whole]
      rfl
  · obtain ⟨padding, hpad, hlen, heq⟩ := backingBytes_of_ne h hnil
    have hflen := h.format_length
    have hnat : (BitVec.ofNat 32 (req.backingFormat.getD []).length).toNat =
        (req.backingFormat.getD []).length := Nat.mod_eq_of_lt (by omega)
    obtain ⟨-, hmod⟩ := extensionLength_le h.format_length
    have hread := hp.pread_area hb hbehind (backing_room h hp)
      (show qcowHeaderSize + 0 + qcowExtensionSize ≤ head * 2 ^ clusterBits by omega)
    have hread' := hp.pread_area hb hbehind (backing_room h hp)
      (show qcowHeaderSize + qcowExtensionSize + (req.backingFormat.getD []).length ≤
        head * 2 ^ clusterBits by omega)
    have hfirst : ∀ v : BitVec 32, (putBe32 qcowExtMagicBackingFormat ++ putBe32 v).length =
      qcowExtensionSize := fun _ => rfl
    rw [heq, List.append_assoc, Nat.add_zero, List.drop_zero, List.take_left' (hfirst _)] at hread
    rw [heq, List.append_assoc, List.drop_left' (hfirst _), List.append_assoc,
      List.take_left] at hread'
    rw [qcowReadExtensions, if_pos (by omega), hread, Option.bind_some, (reads_extension _ _).whole]
    dsimp only
    rw [hnat, if_neg (by decide), if_pos rfl, if_neg (by omega), hread']
    dsimp only
    rw [qcowReadExtensions, if_neg (by omega), writtenExtensions, if_neg hnil]
    rfl

/-- The name is read back, from where it was written. -/
theorem readBackingFile_created (h : ShortNames req name)
    (hp : Places clusterBits (headerPart req).headerSize l1Size head table blocks)
    (hb : Bounded clusterBits (headerPart req).headerSize l1Size) (hbehind : head ≤ table)
    (hfmt : req.backingFormat ≠ some [] ∨ name = []) :
    qcowReadBackingFile
        (filledFile req (headerPart req) clusterBits (headerPart req).headerSize l1Size)
        (filledHeader req (headerPart req) clusterBits (headerPart req).headerSize l1Size) =
      some name := by
  have hsize : qcowHeaderSize = 72 := rfl
  obtain ⟨hle, hroom, -⟩ := names_room h hp
  have hoffset := filledHeader_offset h clusterBits l1Size
  have hne : (filledHeader req (headerPart req) clusterBits (headerPart req).headerSize
      l1Size).backingFileOffset ≠ 0 := by
    intro hzero
    rw [hzero] at hoffset
    have hzero' : (0 : BitVec 64).toNat = 0 := rfl
    omega
  have hread := hp.pread_area hb hbehind (backing_room h hp)
    (show qcowHeaderSize + extensionLength req.backingFormat + name.length ≤
      head * 2 ^ clusterBits by omega)
  rw [qcowReadBackingFile, if_pos hne, hoffset, filledHeader_nameLength h, hread]
  refine congrArg some ?_
  -- without a format the name follows the header, else the extension
  by_cases hnil : req.backingFormat.getD [] = []
  · rw [backingBytes_of_nil h hnil]
    cases hf : req.backingFormat with
    | none => rw [extensionLength, List.drop_zero, List.take_left]
    | some format =>
      rw [hf] at hnil hfmt
      obtain rfl : format = [] := hnil
      obtain rfl : name = [] := hfmt.resolve_left fun hne => hne rfl
      rfl
  · obtain ⟨padding, -, hlen, heq⟩ := backingBytes_of_ne h hnil
    have hext : qcowExtensionSize = 8 := rfl
    have hfour : ∀ v : BitVec 32, (putBe32 v).length = 4 := fun _ => rfl
    rw [heq, ← List.append_assoc (req.backingFormat.getD []), ← List.append_assoc,
      List.append_assoc, List.drop_left' (by
        simp only [List.length_append, List.length_replicate, hfour]
        omega), List.take_left]

theorem filledHeader_l1Size (hb : Bounded clusterBits (headerPart req).headerSize
      (createL1Size req.totalSize clusterBits)) :
    (filledHeader req (headerPart req) clusterBits (headerPart req).headerSize
        (createL1Size req.totalSize clusterBits)).l1Size.toInt =
      createL1Size req.totalSize clusterBits :=
  (BitVec.toInt_ofInt ..).trans (toInt32_of_bounds hb.l1.1 hb.l1.2)

theorem filledHeader_size (l1Size : Int) :
    (filledHeader req (headerPart req) clusterBits (headerPart req).headerSize l1Size).size =
      BitVec.ofInt 64 (req.totalSize * 512) := rfl

/-- A table that has been read is one whose size `bdrv_pread` can return. -/
theorem readL1Table_readable {f : HostFile} {h : QCowHeader} {l : List (BitVec 64)}
    (hread : qcowReadL1Table f h = some l) : h.l1Size.toInt * 8 < 2 ^ 31 := by
  unfold qcowReadL1Table at hread
  dsimp only at hread
  obtain ⟨-, -, hread⟩ := Option.bind_eq_some_iff.mp hread
  by_cases hpos : 0 < h.l1Size.toInt.toNat
  · rw [if_pos hpos] at hread
    obtain ⟨bytes, -, hread⟩ := Option.bind_eq_some_iff.mp hread
    obtain ⟨_, hguard, -⟩ := Option.bind_eq_some_iff.mp hread
    have hint : toInt32 (h.l1Size.toInt.toNat * 8 : Nat) = (h.l1Size.toInt.toNat * 8 : Nat) :=
      (Option.guard_eq_some' _).mp hguard
    have hsmall := (toInt32_spec (h.l1Size.toInt.toNat * 8 : Nat)).2.1
    omega
  · omega

/-- The L1 table is read, wherever it is in the file. -/
theorem readL1Table_created (hp : Places clusterBits (headerPart req).headerSize
      (createL1Size req.totalSize clusterBits) head table blocks)
    (hb : Bounded clusterBits (headerPart req).headerSize (createL1Size req.totalSize clusterBits))
    (hkept : L1Kept req.totalSize clusterBits) :
    ∃ l, qcowReadL1Table
        (filledFile req (headerPart req) clusterBits (headerPart req).headerSize
          (createL1Size req.totalSize clusterBits))
        (filledHeader req (headerPart req) clusterBits (headerPart req).headerSize
          (createL1Size req.totalSize clusterBits)) = some l := by
  obtain ⟨-, -, -, hoff, -⟩ := hp.offsets hb
  have hoff' : (filledHeader req (headerPart req) clusterBits (headerPart req).headerSize
      (createL1Size req.totalSize clusterBits)).l1TableOffset.toNat = head * 2 ^ clusterBits := hoff
  unfold qcowReadL1Table
  dsimp only
  rw [filledHeader_clusterBits hb, filledHeader_l1Size hb, filledHeader_size, hoff', guard,
    if_pos hkept.entries]
  -- an image of no sectors has no table to be read
  by_cases hzero : 0 < (createL1Size req.totalSize clusterBits).toNat
  · have hpos : 0 < 2 ^ clusterBits := Nat.two_pow_pos _
    have hend := (clustersOf_bounds clusterBits (createL1Size req.totalSize clusterBits * 8)).1
    have hT : tableCluster clusterBits (headerPart req).headerSize
        (createL1Size req.totalSize clusterBits) * 2 ^ clusterBits =
      clustersOf clusterBits (headerPart req).headerSize * 2 ^ clusterBits +
        clustersOf clusterBits (createL1Size req.totalSize clusterBits * 8) * 2 ^ clusterBits :=
      add_mul ..
    have hcast : ∀ n : Nat, (n : Int) * 2 ^ clusterBits = (n * 2 ^ clusterBits : Nat) := by
      intro n
      push_cast
      rfl
    rw [hp.table_eq, hp.head_eq, hcast, hcast] at hT
    have hfile := (hp.file hb req (headerPart req)).2
    rw [add_one_mul] at hfile
    obtain ⟨⟨l, rest⟩, hlist⟩ := getList_total (fun bs => ⟨_, (rfl : getBe64 bs = some _)⟩)
      (createL1Size req.totalSize clusterBits).toNat
      (bytesAt (filledFile req (headerPart req) clusterBits (headerPart req).headerSize
        (createL1Size req.totalSize clusterBits)).bytes (head * 2 ^ clusterBits)
        ((createL1Size req.totalSize clusterBits).toNat * 8))
    have hreadable := hkept.readable
    have hint : toInt32 ((createL1Size req.totalSize clusterBits).toNat * 8 : Nat) =
        ((createL1Size req.totalSize clusterBits).toNat * 8 : Nat) :=
      toInt32_of_bounds (by omega) (by omega)
    refine ⟨l, ?_⟩
    rw [if_pos hzero, hint, HostFile.pread_of_le (by omega), Option.bind_eq_bind,
      Option.bind_eq_bind, Option.bind_some, guard, if_pos rfl, hlist]
    rfl
  · refine ⟨[], ?_⟩
    rw [if_neg hzero]
    rfl

theorem noNul_of_cString {buf : List Lib.Byte} (h : cString buf = name)
    (hlen : buf.length = name.length) : 0 ∉ buf := by
  have hprefix : cString buf <+: buf := List.takeWhile_prefix _
  have hself : cString buf = buf := by
    apply hprefix.eq_of_length
    rw [h, hlen]
  exact fun hmem => cString_ne hmem hself

theorem head_pos_of_names (h : ShortNames req name)
    (hp : Places clusterBits (headerPart req).headerSize l1Size head table blocks) : 0 < head := by
  have hsize : qcowHeaderSize = 72 := rfl
  obtain ⟨hle, hroom, -⟩ := names_room h hp
  by_contra hzero
  obtain rfl : head = 0 := by omega
  rw [Nat.zero_mul] at hroom
  omega

theorem head_le_table_iff (hp : Places clusterBits (headerPart req).headerSize l1Size head table
    blocks) : head ≤ table ↔ 0 ≤ clustersOf clusterBits (l1Size * 8) := by
  have hT : tableCluster clusterBits (headerPart req).headerSize l1Size =
    clustersOf clusterBits (headerPart req).headerSize + clustersOf clusterBits (l1Size * 8) := rfl
  rw [hp.table_eq, hp.head_eq] at hT
  omega

/-- **An image is opened with its names** where none of the two conditions is broken. -/
theorem open_of_kept (readSnapshots : HostFile → QCowHeader → Option Unit)
    (h : ShortNames req name)
    (hp : Places clusterBits (headerPart req).headerSize (createL1Size req.totalSize clusterBits)
      head table blocks)
    (hb : Bounded clusterBits (headerPart req).headerSize (createL1Size req.totalSize clusterBits))
    (hfmt : req.backingFormat ≠ some [] ∨ name = []) (hkept : L1Kept req.totalSize clusterBits) :
    ∃ img, qcowOpen readSnapshots (filledFile req (headerPart req) clusterBits
      (headerPart req).headerSize (createL1Size req.totalSize clusterBits)) = some img ∧
        NamesKept req name img := by
  have hhead := head_pos_of_names h hp
  have hbehind : head ≤ table := (head_le_table_iff hp).mpr hkept.behind
  obtain ⟨l, hl⟩ := readL1Table_created hp hb hkept
  have hoffset := filledHeader_offset h clusterBits (createL1Size req.totalSize clusterBits)
  have hne : (filledHeader req (headerPart req) clusterBits (headerPart req).headerSize
      (createL1Size req.totalSize clusterBits)).backingFileOffset ≠ 0 := by
    intro hzero
    have hsize : qcowHeaderSize = 72 := rfl
    have hzero' : (0 : BitVec 64).toNat = 0 := rfl
    rw [hzero] at hoffset
    omega
  unfold qcowOpen
  dsimp only
  rw [readHeader_created hp hb hhead (hhead.trans_le hbehind), Option.bind_eq_bind,
    Option.bind_some, hl, Option.bind_eq_bind, Option.bind_some, refcountInit_created hp hb,
    Option.bind_some, if_pos hne, hoffset, readExtensions_created h hp hb hbehind hfmt,
    Except.toOption, Option.bind_eq_bind, Option.bind_some]
  dsimp only
  rw [readBackingFile_created h hp hb hbehind hfmt, Option.bind_eq_bind, Option.bind_some]
  refine ⟨_, rfl, ?_⟩
  constructor
  · exact cString_eq_self h.file_noNul
  · exact cString_eq_self h.format_noNul
  · rfl

/-- The buffer for the name, wherever it has been read. -/
theorem readBackingFile_eq (h : ShortNames req name) {f : HostFile} {buf : List Lib.Byte}
    (hbuf : qcowReadBackingFile f (filledHeader req (headerPart req) clusterBits
      (headerPart req).headerSize l1Size) = some buf) :
    buf = bytesAt f.bytes (qcowHeaderSize + extensionLength req.backingFormat) name.length := by
  have hoffset := filledHeader_offset h clusterBits l1Size
  have hne : (filledHeader req (headerPart req) clusterBits (headerPart req).headerSize
      l1Size).backingFileOffset ≠ 0 := by
    intro hzero
    have hsize : qcowHeaderSize = 72 := rfl
    have hzero' : (0 : BitVec 64).toNat = 0 := rfl
    rw [hzero] at hoffset
    omega
  rw [qcowReadBackingFile, if_pos hne, hoffset, filledHeader_nameLength h, HostFile.pread] at hbuf
  split_ifs at hbuf
  exact (Option.some.inj hbuf).symm

/-- A refcount table before the L1 table is in the name. -/
theorem nul_of_table_before (h : ShortNames req name)
    (hp : Places clusterBits (headerPart req).headerSize l1Size head table blocks)
    (hb : Bounded clusterBits (headerPart req).headerSize l1Size) (htable : 0 < table)
    (hbefore : table < head) :
    0 ∈ bytesAt
      (filledFile req (headerPart req) clusterBits (headerPart req).headerSize l1Size).bytes
      (qcowHeaderSize + extensionLength req.backingFormat) name.length := by
  have hsize : qcowHeaderSize = 72 := rfl
  obtain ⟨hext, -⟩ := extensionLength_le h.format_length
  obtain ⟨hle, hroom, hround⟩ := names_room h hp
  have hcs := two_pow_le hb
  have hfirst : 2 ^ clusterBits ≤ table * 2 ^ clusterBits := Nat.le_mul_of_pos_left _ htable
  have hlast : table * 2 ^ clusterBits + 2 ^ clusterBits ≤ head * 2 ^ clusterBits := by
    rw [← add_one_mul]
    exact Nat.mul_le_mul_right _ hbefore
  have height : table * 2 ^ clusterBits = 8 * (table * (2 ^ clusterBits / 8)) := by
    conv_lhs => rw [(eight_dvd hb).1]
    exact Nat.mul_left_comm ..
  have hmod : roundedHeader req % 8 = 0 := Nat.mul_mod_left ..
  -- the header reaches past the cluster of the table, whose first byte is zero
  have hend : head * 2 ^ clusterBits < roundedHeader req + 2 ^ clusterBits := by
    have hheader : (headerPart req).headerSize = roundedHeader req := by
      rw [headerPart_of_short h]
    have hlt := (clustersOf_bounds clusterBits (headerPart req).headerSize).2
    have hcast : (head : Int) * 2 ^ clusterBits = (head * 2 ^ clusterBits : Nat) := by
      push_cast
      rfl
    have hpow : (2 : Int) ^ clusterBits = (2 ^ clusterBits : Nat) := by
      push_cast
      rfl
    rw [hp.head_eq, hheader, hcast, hpow] at hlt
    omega
  refine List.mem_map.mpr ⟨table * 2 ^ clusterBits -
    (qcowHeaderSize + extensionLength req.backingFormat), List.mem_range.mpr (by omega), ?_⟩
  rw [Nat.add_sub_cancel' (by omega)]
  exact hp.table_first hb req (headerPart req)

/-- A name that was written too early is read with what comes behind it. -/
theorem nul_of_empty_format (h : ShortNames req name)
    (hp : Places clusterBits (headerPart req).headerSize l1Size head table blocks)
    (hb : Bounded clusterBits (headerPart req).headerSize l1Size) (hbehind : head ≤ table)
    (hfmt : req.backingFormat = some []) (hname : name ≠ []) :
    0 ∈ bytesAt
      (filledFile req (headerPart req) clusterBits (headerPart req).headerSize l1Size).bytes
      (qcowHeaderSize + extensionLength req.backingFormat) name.length := by
  have hnil : req.backingFormat.getD [] = [] := by
    rw [hfmt]
    rfl
  have hext : extensionLength req.backingFormat = 8 := by
    rw [hfmt]
    rfl
  have hpos := List.length_pos_iff.mpr hname
  obtain ⟨hle, hroom, -⟩ := names_room h hp
  have harea := hp.area hb hbehind (backing_room h hp)
  rw [backingBytes_of_nil h hnil] at harea
  rw [← take_drop_bytesAt _ _ (show extensionLength req.backingFormat + name.length ≤
    head * 2 ^ clusterBits - qcowHeaderSize by omega), harea]
  -- the last byte of the buffer
  refine List.mem_iff_getElem?.mpr ⟨name.length - 1, ?_⟩
  rw [List.getElem?_take_of_lt (by omega), List.getElem?_drop,
    List.getElem?_append_right (by omega), List.getElem?_replicate_of_lt (by omega)]

/-- **The conditions hold** where an image is opened with its names. -/
theorem kept_of_open (readSnapshots : HostFile → QCowHeader → Option Unit)
    (h : ShortNames req name)
    (hp : Places clusterBits (headerPart req).headerSize (createL1Size req.totalSize clusterBits)
      head table blocks)
    (hb : Bounded clusterBits (headerPart req).headerSize (createL1Size req.totalSize clusterBits))
    {img : OpenedImage}
    (hopen : qcowOpen readSnapshots (filledFile req (headerPart req) clusterBits
      (headerPart req).headerSize (createL1Size req.totalSize clusterBits)) = some img)
    (hnames : NamesKept req name img) :
    (req.backingFormat ≠ some [] ∨ name = []) ∧ L1Kept req.totalSize clusterBits := by
  have hhead := head_pos_of_names h hp
  -- every step of the open has succeeded
  unfold qcowOpen at hopen
  obtain ⟨hdr, hread, hopen⟩ := Option.bind_eq_some_iff.mp hopen
  have htable := hp.table_pos hb hread
  obtain rfl := Option.some.inj ((readHeader_created hp hb hhead htable).symm.trans hread)
  obtain ⟨l, hl1, hopen⟩ := Option.bind_eq_some_iff.mp hopen
  obtain ⟨refcountTable, -, hopen⟩ := Option.bind_eq_some_iff.mp hopen
  obtain ⟨⟨format, exts⟩, -, hopen⟩ := Option.bind_eq_some_iff.mp hopen
  obtain ⟨buf, hbuf, hopen⟩ := Option.bind_eq_some_iff.mp hopen
  obtain ⟨-, -, hopen⟩ := Option.bind_eq_some_iff.mp hopen
  have hreadable := readL1Table_readable hl1
  have hfile : cString buf = name := by
    rw [← hnames.file, ← Option.some.inj hopen]
  have hbuf' := readBackingFile_eq h hbuf
  have hnul : 0 ∉ buf := noNul_of_cString hfile (by rw [hbuf', length_bytesAt])
  rw [hbuf'] at hnul
  -- a table in front of the names would put a zero into what was read
  have hbehind : head ≤ table := by
    by_contra hbefore
    exact hnul (nul_of_table_before h hp hb htable (not_le.mp hbefore))
  refine ⟨?_, ?_, ?_, (head_le_table_iff hp).mp hbehind⟩
  · by_cases hfmt : req.backingFormat = some []
    · by_cases hname : name = []
      · exact .inr hname
      · exact absurd (nul_of_empty_format h hp hb hbehind hfmt hname) hnul
    · exact .inl hfmt
  · unfold qcowReadL1Table at hl1
    dsimp only at hl1
    rw [filledHeader_clusterBits hb, filledHeader_l1Size hb, filledHeader_size, guard] at hl1
    by_contra hless
    rw [if_neg hless] at hl1
    cases hl1
  · rw [filledHeader_l1Size hb] at hreadable
    exact hreadable

end Open

/-- **An image is opened with the names it was made with** just where the backing format is not an
empty string next to a backing file with a name, and the size fits the L1 table. -/
theorem qcowOpen_backing (readSnapshots : HostFile → QCowHeader → Option Unit)
    (req : CreateRequest) (clusterBits : Nat) (name : List Lib.Byte) (f : HostFile)
    (hmin : minClusterBits ≤ clusterBits) (hmax : clusterBits ≤ maxClusterBits)
    (hsize : req.clusterSize = 2 ^ clusterBits) (h : ShortNames req name)
    (hmade : qcowCreate2 req = .ok f) :
    (∃ img, qcowOpen readSnapshots f = some img ∧ NamesKept req name img) ↔
      (req.backingFormat ≠ some [] ∨ name = []) ∧ L1Kept req.totalSize clusterBits := by
  obtain ⟨hfit, rfl⟩ := (qcowCreate2_ok_iff hmin hmax hsize f).mp hmade
  have hb := create_bounded req hmin hmax
  obtain ⟨head, table, blocks, hp⟩ := ArraysFit.places hb hfit
  constructor
  · rintro ⟨img, hopen, hnames⟩
    exact kept_of_open readSnapshots h hp hb hopen hnames
  · rintro ⟨hfmt, hkept⟩
    exact open_of_kept readSnapshots h hp hb hfmt hkept

/-- An image of a megabyte with a backing file. -/
def backedRequest (backingFormat : List Lib.Byte) : CreateRequest where
  totalSize := 2048
  -- "base"
  backingFile := some [98, 97, 115, 101]
  backingFormat := some backingFormat
  encrypt := false
  clusterSize := 2 ^ 16

/-- The image that is made. -/
def backedFile (backingFormat : List Lib.Byte) : HostFile :=
  filledFile (backedRequest backingFormat) (headerPart (backedRequest backingFormat)) 16
    (headerPart (backedRequest backingFormat)).headerSize (createL1Size 2048 16)

/-- The backing format is `raw`. -/
theorem qcowOpen_backing_raw :
    ∃ img, qcowOpen (fun _ _ => none) (backedFile [114, 97, 119]) = some img ∧
      NamesKept (backedRequest [114, 97, 119]) [98, 97, 115, 101] img :=
  (qcowOpen_backing (fun _ _ => none) (backedRequest [114, 97, 119]) 16 [98, 97, 115, 101]
    (backedFile [114, 97, 119]) (by decide) (by decide) rfl
    ⟨rfl, by decide, by decide, by decide, by decide⟩
    ((qcowCreate2_ok_iff (by decide) (by decide) rfl _).mpr
      ⟨⟨by decide, by decide, by decide, by decide, by decide⟩, rfl⟩)).mpr
    ⟨.inl (by decide), ⟨by decide, by decide, by decide⟩⟩

/-- With an empty backing format the name is not found where the header says it is. -/
theorem qcowOpen_emptyFormat :
    ¬∀ (req : CreateRequest) (clusterBits : Nat) (name : List Lib.Byte) (f : HostFile),
      minClusterBits ≤ clusterBits → clusterBits ≤ maxClusterBits →
        req.clusterSize = 2 ^ clusterBits → ShortNames req name → qcowCreate2 req = .ok f →
          ∃ img, qcowOpen (fun _ _ => none) f = some img ∧ NamesKept req name img := by
  intro h
  have hshort : ShortNames (backedRequest []) [98, 97, 115, 101] :=
    ⟨rfl, by decide, by decide, by decide, by decide⟩
  have hfit : ArraysFit 16 (headerPart (backedRequest [])).headerSize (createL1Size 2048 16) :=
    ⟨by decide, by decide, by decide, by decide, by decide⟩
  have hmin : minClusterBits ≤ 16 := by decide
  have hmax : 16 ≤ maxClusterBits := by decide
  have hb := create_bounded (backedRequest []) hmin hmax
  obtain ⟨head, table, blocks, hp⟩ := ArraysFit.places hb hfit
  obtain ⟨img, hopen, hnames⟩ := h (backedRequest []) 16 [98, 97, 115, 101] (backedFile []) hmin
    hmax rfl hshort ((qcowCreate2_ok_iff hmin hmax rfl _).mpr ⟨hfit, rfl⟩)
  have hkept := (kept_of_open (fun _ _ => none) hshort hp hb hopen hnames).1
  exact absurd hkept (by decide)

end Qemu.Block
