import Qemu.Block.HostIo
import Qemu.Block.Qcow2Spec
import Qemu.Lib.BigEndian
import Qemu.Lib.Runs

namespace Qemu.Block

open Lib

/-!
# The snapshot table of qcow2 (`block/qcow2-snapshot.c`)

The table is a list of records of different lengths, each at a multiple of 8.  Its clusters are
given by the refcount code, an environment that says what it writes and where the table goes.

* `qcowWriteSnapshots`, `qcow2ReadSnapshots` — the table is written, and read;
* `WriteEnv.Keeps` — the refcount code leaves alone what it has given;
* `snapshots_roundtrip` — the tables that are read as they were written.
-/

/-! ### Records -/

/-- `QCowSnapshot`, where strings are `Str`. -/
structure QCowSnapshot (Str : Type) where
  l1TableOffset : BitVec 64
  l1Size : BitVec 32
  idStr : Str
  name : Str
  vmStateSize : BitVec 32
  dateSec : BitVec 32
  dateNsec : BitVec 32
  vmClockNsec : BitVec 64
deriving DecidableEq

/-- A snapshot with its strings, without the final NULs. -/
abbrev SnapshotRecord := QCowSnapshot (List Byte)

/-- `QCowSnapshotHeader` -/
structure QCowSnapshotHeader where
  l1TableOffset : BitVec 64
  l1Size : BitVec 32
  idStrSize : BitVec 16
  nameSize : BitVec 16
  dateSec : BitVec 32
  dateNsec : BitVec 32
  vmClockNsec : BitVec 64
  vmStateSize : BitVec 32
  extraDataSize : BitVec 32

/-- `sizeof(QCowSnapshotHeader)` -/
def snapshotHeaderSize : Nat := 40

/-- A header as it is written, in big-endian words. -/
def QCowSnapshotHeader.bytes (h : QCowSnapshotHeader) : List Byte :=
  putBe64 h.l1TableOffset ++ (putBe32 h.l1Size ++ (putBe16 h.idStrSize ++ (putBe16 h.nameSize ++
    (putBe32 h.dateSec ++ (putBe32 h.dateNsec ++ (putBe64 h.vmClockNsec ++
      (putBe32 h.vmStateSize ++ putBe32 h.extraDataSize)))))))

/-- And as it is read. -/
def getQCowSnapshotHeader : Get QCowSnapshotHeader := do
  let l1TableOffset ← getBe64
  let l1Size ← getBe32
  let idStrSize ← getBe16
  let nameSize ← getBe16
  let dateSec ← getBe32
  let dateNsec ← getBe32
  let vmClockNsec ← getBe64
  let vmStateSize ← getBe32
  let extraDataSize ← getBe32
  pure { l1TableOffset, l1Size, idStrSize, nameSize, dateSec, dateNsec, vmClockNsec, vmStateSize,
         extraDataSize }

theorem reads_snapshotHeader (h : QCowSnapshotHeader) :
    Reads getQCowSnapshotHeader h.bytes h := by
  unfold getQCowSnapshotHeader QCowSnapshotHeader.bytes
  apply (reads_be64 _).bind
  apply (reads_be32 _).bind
  apply (reads_be16 _).bind
  apply (reads_be16 _).bind
  apply (reads_be32 _).bind
  apply (reads_be32 _).bind
  apply (reads_be64 _).bind
  apply (reads_be32 _).bind
  exact (reads_be32 _).map

@[simp] theorem length_snapshotHeader (h : QCowSnapshotHeader) :
    h.bytes.length = snapshotHeaderSize := rfl

/-- The header that is written; there is no extra data. -/
def snapshotHeader (sn : SnapshotRecord) : QCowSnapshotHeader where
  l1TableOffset := sn.l1TableOffset
  l1Size := sn.l1Size
  idStrSize := BitVec.ofNat 16 sn.idStr.length
  nameSize := BitVec.ofNat 16 sn.name.length
  dateSec := sn.dateSec
  dateNsec := sn.dateNsec
  vmClockNsec := sn.vmClockNsec
  vmStateSize := sn.vmStateSize
  extraDataSize := 0

/-- `align_offset(offset, 8)` -/
def align8 (offset : Nat) : Nat := (offset + 7) / 8 * 8

/-- Where a record ends that begins at a multiple of 8. -/
def recordEnd (offset : Nat) (sn : SnapshotRecord) : Nat :=
  offset + snapshotHeaderSize + sn.idStr.length + sn.name.length

/-- Where the records end. -/
def tableEnd (offset : Nat) : List SnapshotRecord → Nat
  | [] => offset
  | sn :: rest => tableEnd (recordEnd (align8 offset) sn) rest

/-! ### Writing -/

/-- The image file, with the ends of the requests to come; all behind them are well. -/
structure HostIo where
  hd : Nat → Byte
  faults : List HostFault

/-- `bdrv_pwrite`, with what the host says to it. -/
def HostIo.pwrite (io : HostIo) (offset : Nat) (buf : List Byte) : Except HostIo HostIo :=
  match io.faults with
  | [] => .ok ⟨storeAt io.hd offset buf, []⟩
  | none :: rest => .ok ⟨storeAt io.hd offset buf, rest⟩
  | some left :: rest => .error ⟨hostWrite io.hd offset buf (some left), rest⟩

/-- One snapshot of `qcow_write_snapshots`. -/
def writeRecord (io : HostIo) (offset : Nat) (sn : SnapshotRecord) : Except HostIo HostIo :=
  (io.pwrite offset (snapshotHeader sn).bytes).bind fun io =>
    (io.pwrite (offset + snapshotHeaderSize) sn.idStr).bind fun io =>
      io.pwrite (offset + snapshotHeaderSize + sn.idStr.length) sn.name

/-- The loop of `qcow_write_snapshots`. -/
def writeRecords (io : HostIo) (offset : Nat) : List SnapshotRecord → Except HostIo HostIo
  | [] => .ok io
  | sn :: rest =>
    (writeRecord io (align8 offset) sn).bind fun io =>
      writeRecords io (recordEnd (align8 offset) sn) rest

/-- What the environment does while the table is written. -/
structure WriteEnv where
  /-- What `qcow2_alloc_clusters` writes. -/
  allocWrites : List (Nat × List Byte)
  /-- What it returns, if it does not fail. -/
  allocated : Option Nat
  /-- The ends of the requests of `qcow_write_snapshots` itself. -/
  faults : List HostFault
  /-- What `qcow2_free_clusters` writes. -/
  freeWrites : List (Nat × List Byte)

/-- `snapshots_size`, an `int`. -/
def snapshotsSize (snapshots : List SnapshotRecord) : Int := toInt32 (tableEnd 0 snapshots)

/-- `offsetof(QCowHeader, nb_snapshots)`, `offsetof(QCowHeader, snapshots_offset)` -/
def nbSnapshotsOffset : Nat := 60

/-- Where the header has the offset of the table. -/
def snapshotsOffsetOffset : Nat := 64

/-- The image with the new table, and what is kept of it in memory. -/
structure WrittenTable where
  hd : Nat → Byte
  snapshotsOffset : Nat
  snapshotsSize : Int

/-- `qcow_write_snapshots`, with the image after a failure. -/
def qcowWriteSnapshots (hd : Nat → Byte) (snapshots : List SnapshotRecord) (env : WriteEnv) :
    Except (Nat → Byte) WrittenTable :=
  let hd := hostWrites hd env.allocWrites
  match env.allocated with
  | none => .error hd
  | some offset =>
    let written := (writeRecords ⟨hd, env.faults⟩ offset snapshots).bind fun io =>
      (io.pwrite snapshotsOffsetOffset (putBe64 (BitVec.ofNat 64 offset))).bind fun io =>
        io.pwrite nbSnapshotsOffset (putBe32 (BitVec.ofNat 32 snapshots.length))
    match written with
    | .error io => .error io.hd
    | .ok io => .ok ⟨hostWrites io.hd env.freeWrites, offset, snapshotsSize snapshots⟩

/-! ### Reading -/

/-- The loop of `qcow2_read_snapshots`, with the offset behind it. -/
def readRecords (hd : Nat → Byte) : Nat → Nat → Option (List SnapshotRecord × Nat)
  | 0, offset => some ([], offset)
  | n + 1, offset =>
    let offset := align8 offset
    (getQCowSnapshotHeader (bytesAt hd offset snapshotHeaderSize)).bind fun (h, _) =>
      let idOffset := offset + snapshotHeaderSize + h.extraDataSize.toNat
      let nameOffset := idOffset + h.idStrSize.toNat
      (readRecords hd n (nameOffset + h.nameSize.toNat)).map fun (rest, stop) =>
        ({ l1TableOffset := h.l1TableOffset
           l1Size := h.l1Size
           idStr := bytesAt hd idOffset h.idStrSize.toNat
           name := bytesAt hd nameOffset h.nameSize.toNat
           vmStateSize := h.vmStateSize
           dateSec := h.dateSec
           dateNsec := h.dateNsec
           vmClockNsec := h.vmClockNsec } :: rest, stop)

/-- `qcow2_read_snapshots` for the fields of the header, with `snapshots_size`. -/
def readSnapshotTable (hd : Nat → Byte) : Option (List SnapshotRecord × Int) :=
  let nbSnapshots := be32At hd nbSnapshotsOffset
  let snapshotsOffset := be64At hd snapshotsOffsetOffset
  if nbSnapshots = 0 then some ([], 0)
  else
    (readRecords hd nbSnapshots.toInt.toNat snapshotsOffset.toNat).map fun (l, stop) =>
      (l, toInt32 (stop - snapshotsOffset.toNat : Int))

/-- The refcount code gives clusters for the size it is asked for, and writes nothing to them or to
the header any more.  It gives none for a negative size. -/
structure WriteEnv.Keeps (env : WriteEnv) (size : Int) : Prop where
  negative : size < 0 → env.allocated = none
  given : ∀ o, env.allocated = some o → 8 ∣ o ∧ o < 2 ^ 63 ∧ Apart o size.toNat 0 qcowHeaderSize
  table : ∀ o, env.allocated = some o → ∀ w ∈ env.freeWrites, Apart o size.toNat w.1 w.2.length
  header : ∀ w ∈ env.freeWrites, Apart 0 qcowHeaderSize w.1 w.2.length

/-- The strings can be written: they have no NUL and their sizes fit. -/
structure QCowSnapshot.Storable (sn : SnapshotRecord) : Prop where
  idStr : 0 ∉ sn.idStr ∧ sn.idStr.length < 65536
  name : 0 ∉ sn.name ∧ sn.name.length < 65536

/-- What is written is read again, as far as the refcount code can be relied on. -/
def RoundTrips (snapshots : List SnapshotRecord) : Prop :=
  ∀ hd env, env.Keeps (snapshotsSize snapshots) → ∀ written,
    qcowWriteSnapshots hd snapshots env = .ok written →
      readSnapshotTable written.hd = some (snapshots, written.snapshotsSize)

/-! ### Offsets -/

theorem le_align8 (offset : Nat) : offset ≤ align8 offset := by
  unfold align8
  omega

theorem align8_lt (offset : Nat) : align8 offset < offset + 8 := by
  unfold align8
  omega

variable {o : Nat}

theorem align8_add (h : 8 ∣ o) (offset : Nat) : align8 (o + offset) = o + align8 offset := by
  unfold align8
  omega

theorem le_recordEnd (offset : Nat) (sn : SnapshotRecord) :
    offset + snapshotHeaderSize ≤ recordEnd offset sn := by
  unfold recordEnd
  omega

theorem le_tableEnd (offset : Nat) (l : List SnapshotRecord) : offset ≤ tableEnd offset l := by
  induction l generalizing offset with
  | nil => exact le_rfl
  | cons sn rest ih =>
    have halign := le_align8 offset
    have hrecord := le_recordEnd (align8 offset) sn
    have hrest := ih (recordEnd (align8 offset) sn)
    rw [tableEnd]
    omega

theorem tableEnd_add (h : 8 ∣ o) (offset : Nat) (l : List SnapshotRecord) :
    tableEnd (o + offset) l = o + tableEnd offset l := by
  induction l generalizing offset with
  | nil => rfl
  | cons sn rest ih =>
    have hrecord : recordEnd (align8 (o + offset)) sn = o + recordEnd (align8 offset) sn := by
      rw [align8_add h]
      unfold recordEnd
      omega
    rw [tableEnd, tableEnd, hrecord, ih]

theorem length_le_tableEnd (offset : Nat) (l : List SnapshotRecord) :
    offset + snapshotHeaderSize * l.length ≤ tableEnd offset l := by
  induction l generalizing offset with
  | nil => exact le_rfl
  | cons sn rest ih =>
    have halign := le_align8 offset
    have hrecord := le_recordEnd (align8 offset) sn
    have hrest := ih (recordEnd (align8 offset) sn)
    rw [tableEnd, List.length_cons, Nat.mul_succ]
    omega

/-! ### A record is written and read -/

/-- The bytes of a record. -/
def recordBytes (sn : SnapshotRecord) : List Byte :=
  (snapshotHeader sn).bytes ++ (sn.idStr ++ sn.name)

theorem length_recordBytes (sn : SnapshotRecord) (offset : Nat) :
    offset + (recordBytes sn).length = recordEnd offset sn := by
  unfold recordBytes recordEnd
  rw [List.length_append, List.length_append, length_snapshotHeader]
  omega

variable {io io' : HostIo} {offset : Nat}

theorem pwrite_ok {buf : List Byte} (h : io.pwrite offset buf = .ok io') :
    io'.hd = storeAt io.hd offset buf := by
  unfold HostIo.pwrite at h
  split at h
  · exact Except.ok.inj h ▸ rfl
  · exact Except.ok.inj h ▸ rfl
  · cases h

theorem bind_ok {ε α β : Type} {r : Except ε α} {f : α → Except ε β} {b : β}
    (h : r.bind f = .ok b) : ∃ a, r = .ok a ∧ f a = .ok b := by
  cases r with
  | error e => cases h
  | ok a => exact ⟨a, rfl, h⟩

variable {sn : SnapshotRecord}

theorem writeRecord_ok (h : writeRecord io offset sn = .ok io') :
    io'.hd = storeAt io.hd offset (recordBytes sn) := by
  obtain ⟨io₁, h₁, h⟩ := bind_ok h
  obtain ⟨io₂, h₂, h₃⟩ := bind_ok h
  rw [pwrite_ok h₃, pwrite_ok h₂, pwrite_ok h₁, recordBytes, storeAt_append, storeAt_append]
  rfl

variable {n : Nat}

theorem toNat_ofNat16 (h : n < 65536) : (BitVec.ofNat 16 n).toNat = n := by
  rw [BitVec.toNat_ofNat]
  exact Nat.mod_eq_of_lt h

variable {hd : Nat → Byte}

/-- The first record, and the others behind it. -/
theorem readRecords_succ (hid : sn.idStr.length < 65536) (hname : sn.name.length < 65536)
    (hbytes : bytesAt hd (align8 offset) (recordBytes sn).length = recordBytes sn) :
    readRecords hd (n + 1) offset =
      (readRecords hd n (recordEnd (align8 offset) sn)).map fun r => (sn :: r.1, r.2) := by
  rw [readRecords]
  dsimp only
  generalize align8 offset = place at hbytes ⊢
  have hheader : bytesAt hd place snapshotHeaderSize = (snapshotHeader sn).bytes := by
    have hle : snapshotHeaderSize ≤ (recordBytes sn).length := by
      rw [recordBytes, List.length_append]
      exact Nat.le_add_right ..
    rw [← take_bytesAt hd place hle, hbytes]
    exact List.take_left' (length_snapshotHeader _)
  have hlength := length_recordBytes sn 0
  unfold recordEnd at hlength
  have hstrings : bytesAt hd (place + snapshotHeaderSize) (sn.idStr.length + sn.name.length) =
      sn.idStr ++ sn.name := by
    have hle : snapshotHeaderSize + (sn.idStr.length + sn.name.length) ≤
        (recordBytes sn).length := by omega
    rw [← take_drop_bytesAt hd place hle, hbytes, recordBytes,
      List.drop_left' (length_snapshotHeader _)]
    exact List.take_of_length_le (by rw [List.length_append])
  rw [bytesAt_add] at hstrings
  obtain ⟨hidStr, hnameStr⟩ := List.append_inj hstrings (length_bytesAt ..)
  have hidSize : (snapshotHeader sn).idStrSize.toNat = sn.idStr.length := toNat_ofNat16 hid
  have hnameSize : (snapshotHeader sn).nameSize.toNat = sn.name.length := toNat_ofNat16 hname
  have hextra : (snapshotHeader sn).extraDataSize.toNat = 0 := rfl
  rw [hheader, (reads_snapshotHeader _).whole, Option.bind_some]
  dsimp only
  rw [hidSize, hnameSize, hextra, Nat.add_zero, hidStr, hnameStr]
  rfl

/-- The records are in the image. -/
def Holds (hd : Nat → Byte) (offset : Nat) : List SnapshotRecord → Prop
  | [] => True
  | sn :: rest =>
    bytesAt hd (align8 offset) (recordBytes sn).length = recordBytes sn ∧
      Holds hd (recordEnd (align8 offset) sn) rest

variable {hd' : Nat → Byte} {l : List SnapshotRecord}

/-- A table depends on its own bytes only. -/
theorem Holds.congr (h : Holds hd offset l)
    (hsame : ∀ a, offset ≤ a → a < tableEnd offset l → hd' a = hd a) : Holds hd' offset l := by
  induction l generalizing offset with
  | nil => exact trivial
  | cons sn rest ih =>
    have halign := le_align8 offset
    have hend := le_tableEnd (recordEnd (align8 offset) sn) rest
    have hlen := length_recordBytes sn (align8 offset)
    rw [tableEnd] at hsame
    constructor
    · calc bytesAt hd' (align8 offset) (recordBytes sn).length
          = bytesAt hd (align8 offset) (recordBytes sn).length :=
            bytesAt_congr fun i hi => hsame _ (by omega) (by omega)
        _ = recordBytes sn := h.1
    · exact ih h.2 fun a hle hlt => hsame a (by omega) hlt

theorem tableEnd_append (offset : Nat) (l l' : List SnapshotRecord) :
    tableEnd offset (l ++ l') = tableEnd (tableEnd offset l) l' := by
  induction l generalizing offset with
  | nil => rfl
  | cons sn rest ih => exact ih _

theorem holds_append {l' : List SnapshotRecord} :
    Holds hd offset (l ++ l') ↔ Holds hd offset l ∧ Holds hd (tableEnd offset l) l' := by
  induction l generalizing offset with
  | nil => exact ⟨fun h => ⟨trivial, h⟩, And.right⟩
  | cons sn rest ih => exact (and_congr_right fun _ => ih).trans and_assoc.symm

theorem readRecords_holds (hl : ∀ sn ∈ l, sn.Storable) (h : Holds hd offset l) :
    readRecords hd l.length offset = some (l, tableEnd offset l) := by
  induction l generalizing offset with
  | nil => rfl
  | cons sn rest ih =>
    obtain ⟨hsn, hrest⟩ := List.forall_mem_cons.mp hl
    rw [List.length_cons, readRecords_succ hsn.idStr.2 hsn.name.2 h.1, ih hrest h.2]
    rfl

/-- Records that are written are in the image, and nothing else is changed. -/
theorem holds_written (h : writeRecords io offset l = .ok io') :
    Holds io'.hd offset l ∧
      ∀ a, a < offset ∨ tableEnd offset l ≤ a → io'.hd a = io.hd a := by
  induction l generalizing io offset with
  | nil =>
    obtain rfl := Except.ok.inj h
    exact ⟨trivial, fun _ _ => rfl⟩
  | cons sn rest ih =>
    obtain ⟨io₁, h₁, h⟩ := bind_ok h
    obtain ⟨hholds, hframe⟩ := ih h
    have hhd := writeRecord_ok h₁
    have halign := le_align8 offset
    have hend := le_tableEnd (recordEnd (align8 offset) sn) rest
    have hlen := length_recordBytes sn (align8 offset)
    rw [tableEnd]
    refine ⟨⟨?_, hholds⟩, fun a ha => ?_⟩
    -- the records behind this one are written behind it
    · calc bytesAt io'.hd (align8 offset) (recordBytes sn).length
          = bytesAt io₁.hd (align8 offset) (recordBytes sn).length :=
            bytesAt_congr fun i hi => hframe _ (by omega)
        _ = recordBytes sn := by rw [hhd, bytesAt_storeAt]
    · rw [hframe a (by omega), hhd]
      rcases ha with hlt | hge
      · exact storeAt_of_lt (by omega)
      · exact storeAt_of_le (by omega)

/-! ### The table -/

/-- The image after the fields of the header. -/
def headerWritten (hd : Nat → Byte) (offset n : Nat) : Nat → Byte :=
  storeAt (storeAt hd snapshotsOffsetOffset (putBe64 (BitVec.ofNat 64 offset))) nbSnapshotsOffset
    (putBe32 (BitVec.ofNat 32 n))

theorem headerWritten_behind (hd : Nat → Byte) (offset n : Nat) {a : Nat}
    (ha : qcowHeaderSize ≤ a) : headerWritten hd offset n a = hd a := by
  have hbehind : 72 ≤ a := ha
  unfold headerWritten snapshotsOffsetOffset nbSnapshotsOffset
  rw [storeAt_of_le (by rw [length_putBe32]; omega), storeAt_of_le (by rw [length_putBe64]; omega)]

/-- What `qcow_write_snapshots` has done if it succeeds. -/
theorem writeSnapshots_ok {env : WriteEnv} {w : WrittenTable}
    (h : qcowWriteSnapshots hd l env = .ok w) :
    ∃ offset io, env.allocated = some offset ∧
      writeRecords ⟨hostWrites hd env.allocWrites, env.faults⟩ offset l = .ok io ∧
        w = ⟨hostWrites (headerWritten io.hd offset l.length) env.freeWrites, offset,
          snapshotsSize l⟩ := by
  unfold qcowWriteSnapshots at h
  cases hallocated : env.allocated with
  | none =>
    rw [hallocated] at h
    cases h
  | some offset =>
    rw [hallocated] at h
    dsimp only at h
    split at h
    · cases h
    · next io₃ hwritten =>
      obtain ⟨io₁, h₁, h₂⟩ := bind_ok hwritten
      obtain ⟨io₂, h₂, h₃⟩ := bind_ok h₂
      refine ⟨offset, io₁, rfl, h₁, ?_⟩
      rw [← Except.ok.inj h, pwrite_ok h₃, pwrite_ok h₂]
      rfl

/-- The fields of the header are read again. -/
theorem headerWritten_fields (hheader : ∀ a < qcowHeaderSize, hd a = headerWritten hd' offset n a) :
    be64At hd snapshotsOffsetOffset = BitVec.ofNat 64 offset ∧
      be32At hd nbSnapshotsOffset = BitVec.ofNat 32 n := by
  constructor
  · apply be64At_of_bytes
    calc bytesAt hd snapshotsOffsetOffset 8
        = bytesAt (headerWritten hd' offset n) snapshotsOffsetOffset 8 :=
          bytesAt_congr fun i hi => hheader _ (by show 64 + i < 72; omega)
      _ = bytesAt (storeAt hd' snapshotsOffsetOffset (putBe64 (BitVec.ofNat 64 offset)))
            snapshotsOffsetOffset 8 := bytesAt_storeAt_of_disjoint (Or.inr (Nat.le_refl 64))
      _ = putBe64 (BitVec.ofNat 64 offset) := bytesAt_storeAt ..
  · apply be32At_of_bytes
    calc bytesAt hd nbSnapshotsOffset 4
        = bytesAt (headerWritten hd' offset n) nbSnapshotsOffset 4 :=
          bytesAt_congr fun i hi => hheader _ (by show 60 + i < 72; omega)
      _ = putBe32 (BitVec.ofNat 32 n) := bytesAt_storeAt ..

/-- The fields of the header are read, and then the records. -/
theorem readSnapshotTable_holds (hl : ∀ sn ∈ l, sn.Storable) (hoffset : offset < 2 ^ 63)
    (hlength : l.length < 2 ^ 31)
    (hheader : ∀ a < qcowHeaderSize, hd a = headerWritten hd' offset l.length a)
    (hholds : Holds hd offset l) :
    readSnapshotTable hd = some (l, toInt32 (tableEnd offset l - offset : Int)) := by
  obtain ⟨hplace, hcount⟩ := headerWritten_fields hheader
  have hnat : (BitVec.ofNat 32 l.length).toNat = l.length := by
    rw [BitVec.toNat_ofNat]
    omega
  have hoffsetNat : (BitVec.ofNat 64 offset).toNat = offset := by
    rw [BitVec.toNat_ofNat]
    omega
  unfold readSnapshotTable
  dsimp only
  rw [hplace, hcount, hoffsetNat]
  split_ifs with hzero
  · have hnil : l.length = 0 := by
      rw [hzero] at hnat
      exact hnat.symm
    obtain rfl := List.length_eq_zero_iff.mp hnil
    rw [tableEnd, Int.sub_self]
    rfl
  · have hint : (BitVec.ofNat 32 l.length).toInt.toNat = l.length := by
      rw [BitVec.toInt_eq_toNat_of_lt (by omega), hnat]
      exact Int.toNat_natCast _
    rw [hint, readRecords_holds hl hholds]
    rfl

theorem toInt32_nonneg (h : 0 ≤ toInt32 n) :
    toInt32 n = (n % 2 ^ 32 : Nat) ∧ n % 2 ^ 32 < 2 ^ 31 := by
  obtain ⟨-, hlt, hmod⟩ := toInt32_spec n
  exact ⟨by omega, by omega⟩

/-- The size fits, or is negative and no table is written. -/
theorem roundTrips_of_size (hl : ∀ sn ∈ l, sn.Storable)
    (hsize : tableEnd 0 l < 2 ^ 32 ∨ snapshotsSize l < 0) : RoundTrips l := by
  intro hd env henv w hw
  obtain ⟨offset, io, hallocated, hwritten, rfl⟩ := writeSnapshots_ok hw
  have hnonneg : 0 ≤ snapshotsSize l := by
    by_contra hneg
    have hnone := henv.negative (not_le.mp hneg)
    rw [hallocated] at hnone
    cases hnone
  obtain ⟨hsmall, hlt⟩ := toInt32_nonneg hnonneg
  have htotal : tableEnd 0 l < 2 ^ 32 := hsize.resolve_right (not_lt.mpr hnonneg)
  rw [Nat.mod_eq_of_lt htotal] at hsmall hlt
  obtain ⟨height, hoffset, hapart⟩ := henv.given offset hallocated
  have htable := henv.table offset hallocated
  have hend : tableEnd offset l = offset + tableEnd 0 l := tableEnd_add height 0 l
  have hnat : (snapshotsSize l).toNat = tableEnd 0 l := by
    unfold snapshotsSize
    rw [hsmall]
    exact Int.toNat_natCast _
  rw [hnat] at hapart htable
  have hlength := length_le_tableEnd 0 l
  obtain ⟨hholds, -⟩ := holds_written hwritten
  -- neither the fields of the header nor the refcounts are in the table
  have hkept :
      Holds (hostWrites (headerWritten io.hd offset l.length) env.freeWrites) offset l := by
    refine hholds.congr fun a hle hlt => ?_
    rw [hend] at hlt
    obtain ⟨i, rfl⟩ := Nat.exists_eq_add_of_le hle
    have hi : i < tableEnd 0 l := by omega
    rw [hostWrites_apart htable hi]
    apply headerWritten_behind
    rcases hapart with hbefore | hbehind
    · omega
    · omega
  have hheader : ∀ a < qcowHeaderSize,
      hostWrites (headerWritten io.hd offset l.length) env.freeWrites a =
        headerWritten io.hd offset l.length a := by
    intro a ha
    have hsame := @hostWrites_apart (headerWritten io.hd offset l.length) 0 qcowHeaderSize a _
      henv.header ha
    rwa [Nat.zero_add] at hsame
  have hcount : l.length < 2 ^ 31 := by
    unfold snapshotHeaderSize at hlength
    omega
  have hread := readSnapshotTable_holds hl hoffset hcount hheader hkept
  rw [hend, Nat.cast_add, add_sub_cancel_left] at hread
  unfold snapshotsSize
  dsimp only
  rw [hread]

/-! ### Sizes that do not fit -/

theorem writeRecords_quiet (hd : Nat → Byte) (offset : Nat) (l : List SnapshotRecord) :
    ∃ hd', writeRecords ⟨hd, []⟩ offset l = .ok ⟨hd', []⟩ := by
  induction l generalizing hd offset with
  | nil => exact ⟨hd, rfl⟩
  | cons sn rest ih => exact ih _ _

/-- If nothing fails, it succeeds. -/
theorem writeSnapshots_quiet (hd : Nat → Byte) (l : List SnapshotRecord) (offset : Nat)
    (freeWrites : List (Nat × List Byte)) :
    ∃ hd', Holds hd' offset l ∧ qcowWriteSnapshots hd l ⟨[], some offset, [], freeWrites⟩ =
      .ok ⟨hostWrites (headerWritten hd' offset l.length) freeWrites, offset, snapshotsSize l⟩ := by
  obtain ⟨hd', h⟩ := writeRecords_quiet hd offset l
  have hnone : hostWrites hd [] = hd := rfl
  refine ⟨hd', (holds_written h).1, ?_⟩
  unfold qcowWriteSnapshots
  dsimp only
  rw [hnone, h]
  rfl

/-- A record behind its first field. -/
def recordTail (sn : SnapshotRecord) : List Byte := (recordBytes sn).drop 8

theorem recordBytes_eq (sn : SnapshotRecord) :
    recordBytes sn = putBe64 sn.l1TableOffset ++ recordTail sn :=
  (List.take_append_drop 8 (recordBytes sn)).symm

theorem recordTail_l1 (sn : SnapshotRecord) (l1TableOffset : BitVec 64) :
    recordTail { sn with l1TableOffset } = recordTail sn := rfl

/-- The first field of the last record is written over. -/
theorem holds_patched {init : List SnapshotRecord} {last : SnapshotRecord}
    (h : Holds hd offset (init ++ [last])) (l1TableOffset : BitVec 64)
    (hsame : ∀ a, offset ≤ a → hd' a = hd a) :
    Holds (storeAt hd' (align8 (tableEnd offset init)) (putBe64 l1TableOffset)) offset
      (init ++ [{ last with l1TableOffset }]) := by
  obtain ⟨hinit, hlast, -⟩ := holds_append.mp h
  have hplace := le_align8 (tableEnd offset init)
  have hoffset := le_tableEnd offset init
  refine holds_append.mpr ⟨hinit.congr fun a hle hlt => ?_, ?_, trivial⟩
  · rw [storeAt_of_lt (by omega)]
    exact hsame a hle
  · rw [recordBytes_eq, List.length_append, length_putBe64, bytesAt_add] at hlast
    obtain ⟨-, htail⟩ := List.append_inj hlast (by rw [length_bytesAt, length_putBe64])
    rw [recordBytes_eq, recordTail_l1, List.length_append, length_putBe64, bytesAt_add]
    congr 1
    · exact bytesAt_storeAt ..
    · rw [bytesAt_storeAt_of_disjoint (Or.inr (by rw [length_putBe64])), ← htail, length_bytesAt]
      exact bytesAt_congr fun i _ => hsame _ (by omega)

theorem length_readRecords {r : List SnapshotRecord × Nat} (h : readRecords hd n offset = some r) :
    r.1.length = n := by
  induction n generalizing offset r with
  | zero =>
    obtain rfl := Option.some.inj h
    rfl
  | succ n ih =>
    rw [readRecords] at h
    obtain ⟨header, -, h⟩ := Option.bind_eq_some_iff.mp h
    obtain ⟨rest, hrest, rfl⟩ := Option.map_eq_some_iff.mp h
    exact congrArg (· + 1) (ih hrest)

theorem length_readSnapshotTable {r : List SnapshotRecord × Int}
    (h : readSnapshotTable hd = some r) : r.1.length < 2 ^ 31 := by
  unfold readSnapshotTable at h
  dsimp only at h
  split_ifs at h
  · obtain rfl := Option.some.inj h
    exact Nat.two_pow_pos 31
  · obtain ⟨rest, hrest, rfl⟩ := Option.map_eq_some_iff.mp h
    rw [length_readRecords hrest]
    have hlt := (be32At hd nbSnapshotsOffset).toInt_lt
    omega

/-- The clusters are too few, and the refcount code may write to the last record. -/
theorem not_roundTrips_of_size (hl : ∀ sn ∈ l, sn.Storable) (hsize : 2 ^ 32 ≤ tableEnd 0 l)
    (hnonneg : 0 ≤ snapshotsSize l) : ¬RoundTrips l := by
  intro hround
  obtain ⟨hsmall, hlt⟩ := toInt32_nonneg hnonneg
  rcases List.eq_nil_or_concat l with rfl | ⟨init, last, hconcat⟩
  · exact absurd hsize (by decide)
  rw [List.concat_eq_append] at hconcat
  subst hconcat
  -- the last record lies behind the clusters that were given
  have hend : tableEnd 512 init = 512 + tableEnd 0 init := tableEnd_add (by decide) 0 init
  have hstorable := hl last (List.mem_append_right _ (List.mem_singleton_self last))
  have htotal : tableEnd 0 (init ++ [last]) = recordEnd (align8 (tableEnd 0 init)) last :=
    tableEnd_append 0 init [last]
  have hid := hstorable.idStr.2
  have hname := hstorable.name.2
  have hplace : 2 ^ 31 ≤ tableEnd 0 init := by
    have halign := align8_lt (tableEnd 0 init)
    unfold recordEnd snapshotHeaderSize at htotal
    omega
  have hbehind : 512 + 2 ^ 31 ≤ align8 (tableEnd 512 init) := by
    have halign := le_align8 (tableEnd 512 init)
    omega
  let l1 := ~~~last.l1TableOffset
  let frees := [(align8 (tableEnd 512 init), putBe64 l1)]
  obtain ⟨hd, hholds, hwritten⟩ := writeSnapshots_quiet (fun _ => 0) (init ++ [last]) 512 frees
  have hnat : (snapshotsSize (init ++ [last])).toNat ≤ 2 ^ 31 := by
    unfold snapshotsSize
    rw [hsmall, Int.toNat_natCast]
    exact hlt.le
  have hheader : 72 ≤ align8 (tableEnd 512 init) := le_trans (by norm_num) hbehind
  have hkeeps : WriteEnv.Keeps ⟨[], some 512, [], frees⟩ (snapshotsSize (init ++ [last])) := by
    refine ⟨fun hneg => absurd hneg (not_lt.mpr hnonneg), fun o ho => ?_, fun o ho w hw => ?_,
      fun w hw => ?_⟩
    · obtain rfl := Option.some.inj ho
      exact ⟨by decide, by decide, Or.inr (by decide)⟩
    · obtain rfl := Option.some.inj ho
      obtain rfl := List.mem_singleton.mp hw
      exact Or.inl ((Nat.add_le_add_left hnat 512).trans hbehind)
    · obtain rfl := List.mem_singleton.mp hw
      exact Or.inl ((Nat.zero_add 72).le.trans hheader)
  have hread := hround _ _ hkeeps _ hwritten
  have hcount := length_readSnapshotTable hread
  let other : SnapshotRecord := { last with l1TableOffset := l1 }
  have hlength : (init ++ [other]).length = (init ++ [last]).length := by
    rw [List.length_append, List.length_append]
    rfl
  have hpatched : Holds (storeAt (headerWritten hd 512 (init ++ [other]).length)
      (align8 (tableEnd 512 init)) (putBe64 l1)) 512 (init ++ [other]) :=
    holds_patched hholds l1 fun a ha => headerWritten_behind hd 512 _ (le_trans (by decide) ha)
  have hothers : ∀ sn ∈ init ++ [other], sn.Storable := by
    intro sn hsn
    rcases List.mem_append.mp hsn with hinit | hlast
    · exact hl sn (List.mem_append_left _ hinit)
    · obtain rfl := List.mem_singleton.mp hlast
      exact ⟨hstorable.idStr, hstorable.name⟩
  have hfields : ∀ a < qcowHeaderSize, storeAt (headerWritten hd 512 (init ++ [other]).length)
      (align8 (tableEnd 512 init)) (putBe64 l1) a =
        headerWritten hd 512 (init ++ [other]).length a :=
    fun a ha => storeAt_of_lt (lt_of_lt_of_le ha hheader)
  -- the record that is read has another L1 table
  have hpatch := readSnapshotTable_holds hothers (by norm_num) (hlength ▸ hcount) hfields hpatched
  rw [hlength] at hpatch
  have hlist := congrArg Prod.fst (Option.some.inj (hread.symm.trans hpatch))
  have hlast := List.append_cancel_left hlist
  have hl1 : last.l1TableOffset = ~~~last.l1TableOffset :=
    congrArg QCowSnapshot.l1TableOffset (List.singleton_injective hlast)
  have hbit := congrArg (fun v => BitVec.getLsbD v 0) hl1
  simp at hbit

/-- **Which snapshot tables are read as they were written**: those whose size fits, and those that
are not written at all, as their size becomes negative. -/
theorem snapshots_roundtrip (snapshots : List SnapshotRecord)
    (hstrings : ∀ sn ∈ snapshots, sn.Storable) :
    RoundTrips snapshots ↔ tableEnd 0 snapshots < 2 ^ 32 ∨ snapshotsSize snapshots < 0 := by
  constructor
  · intro hround
    by_contra hsize
    obtain ⟨hlarge, hnonneg⟩ := not_or.mp hsize
    exact not_roundTrips_of_size hstrings (not_lt.mp hlarge) (not_lt.mp hnonneg) hround
  · exact roundTrips_of_size hstrings

/-- A snapshot with these strings. -/
def plainSnapshot (idStr name : List Byte) : SnapshotRecord where
  l1TableOffset := 0
  l1Size := 0
  idStr
  name
  vmStateSize := 0
  dateSec := 0
  dateNsec := 0
  vmClockNsec := 0

/-- Two snapshots.  There are five bytes between the records. -/
def twoSnapshots : List SnapshotRecord :=
  [{ plainSnapshot [0x31] [0x61, 0x62] with l1TableOffset := 0x30000, l1Size := 2, dateSec := 5 },
    { plainSnapshot [0x31, 0x30] [] with l1TableOffset := 0x50000, l1Size := 1,
                                          vmStateSize := 0x1000, vmClockNsec := 7 }]

/-- Two records, with padding between them. -/
theorem snapshots_roundtrip_two : RoundTrips twoSnapshots := by
  have hstorable : ∀ sn ∈ twoSnapshots, sn.Storable := by
    intro sn hsn
    rcases List.mem_pair.mp hsn with rfl | rfl
    · exact ⟨by decide, by decide⟩
    · exact ⟨by decide, by decide⟩
  exact (snapshots_roundtrip twoSnapshots hstorable).mpr (Or.inl (by decide))

/-- A table of equal records. -/
theorem tableEnd_replicate (h : 8 ∣ recordEnd 0 sn) (ho : 8 ∣ o) (n : Nat) :
    tableEnd o (List.replicate n sn) = o + n * recordEnd 0 sn := by
  induction n generalizing o with
  | zero => rw [List.replicate_zero, tableEnd, Nat.zero_mul, Nat.add_zero]
  | succ n ih =>
    have halign : align8 o = o := by
      unfold align8
      omega
    have hrecord : recordEnd o sn = o + recordEnd 0 sn := by
      unfold recordEnd
      omega
    rw [List.replicate_succ, tableEnd, halign, hrecord, ih (Nat.dvd_add ho h), Nat.succ_mul]
    omega

/-- With the longest strings, `2 ^ 15` snapshots have a table of 4 GB, which gets no cluster. -/
theorem snapshots_four_gigabytes : ¬∀ snapshots : List SnapshotRecord,
    (∀ sn ∈ snapshots, sn.Storable) → RoundTrips snapshots := by
  intro h
  let sn := plainSnapshot (List.replicate 65535 0x61) (List.replicate 65497 0x62)
  have hrecord : recordEnd 0 sn = 131072 := by
    show 0 + 40 + (List.replicate 65535 _).length + (List.replicate 65497 _).length = _
    rw [List.length_replicate, List.length_replicate]
  have htotal : tableEnd 0 (List.replicate 32768 sn) = 2 ^ 32 := by
    rw [tableEnd_replicate (by rw [hrecord]; decide) (by decide), hrecord]
    norm_num
  have hstorable : ∀ sn' ∈ List.replicate 32768 sn, sn'.Storable := by
    intro sn' hsn'
    obtain rfl := List.eq_of_mem_replicate hsn'
    refine ⟨⟨fun hnul => ?_, ?_⟩, ⟨fun hnul => ?_, ?_⟩⟩
    · exact absurd (List.eq_of_mem_replicate hnul) (by decide)
    · show (List.replicate 65535 _).length < _
      rw [List.length_replicate]
      decide
    · exact absurd (List.eq_of_mem_replicate hnul) (by decide)
    · show (List.replicate 65497 _).length < _
      rw [List.length_replicate]
      decide
  refine not_roundTrips_of_size hstorable htotal.ge ?_ (h _ hstorable)
  unfold snapshotsSize
  rw [htotal]
  decide

end Qemu.Block
