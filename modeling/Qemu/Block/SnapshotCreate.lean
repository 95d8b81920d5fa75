import Qemu.Block.Snapshots

namespace Qemu.Block

open Lib

/-!
# A snapshot is made (`qcow2_snapshot_create`)

The list in memory grows before the table is written, and the name of the new snapshot is freed when
that fails.

* `qcow2SnapshotCreate` — the function, with the strings of the heap;
* `Unchanged` — the list in memory and the list on disk are as before;
* `CreateEnv.Spares` — the refcount code leaves the table and the header alone;
* `snapshot_create_unchanged_iff` — the errors that leave the lists unchanged.
-/

/-- The part of `BDRVQcowState` for snapshots, with the image file and the heap.  Strings are
without their final NULs, and new ones get new addresses. -/
structure SnapshotState where
  hd : Nat → Byte
  heap : Nat → Option (List Byte)
  nextPtr : Nat
  snapshots : List (QCowSnapshot Nat)
  snapshotsOffset : Nat
  snapshotsSize : Int
  l1Table : List (BitVec 64)

/-- `QEMUSnapshotInfo` -/
structure QEMUSnapshotInfo where
  idStr : List Byte
  name : List Byte
  vmStateSize : BitVec 32
  dateSec : BitVec 32
  dateNsec : BitVec 32
  vmClockNsec : BitVec 64

/-- The string at an address. -/
def SnapshotState.str (s : SnapshotState) (p : Nat) : List Byte := (s.heap p).getD []

/-- A snapshot with its strings. -/
def SnapshotState.record (s : SnapshotState) (sn : QCowSnapshot Nat) : SnapshotRecord :=
  { sn with idStr := s.str sn.idStr, name := s.str sn.name }

/-! ### Names of snapshots -/

/-- A decimal digit. -/
def isDecimal (b : Byte) : Bool := 0x30 ≤ b && b ≤ 0x39

/-- `isspace` -/
def isSpace (b : Byte) : Bool := b == 0x20 || (0x09 ≤ b && b ≤ 0x0D)

/-- The decimal digits at the front. -/
def decimalValue (l : List Byte) : Nat :=
  (l.takeWhile isDecimal).foldl (fun n b => 10 * n + (b.toNat - 0x30)) 0

/-- `strtoul(s, NULL, 10)` -/
def strtoul (l : List Byte) : Nat :=
  let (minus, digits) := match l.dropWhile isSpace with
    | 0x2D :: digits => (true, digits)
    | 0x2B :: digits => (false, digits)
    | digits => (false, digits)
  let value := decimalValue digits
  if 2 ^ 64 ≤ value then 2 ^ 64 - 1 else if minus then (2 ^ 64 - value) % 2 ^ 64 else value

/-- `find_new_snapshot_id` -/
def findNewSnapshotId (s : SnapshotState) : List Byte :=
  let idMax := s.snapshots.foldl (fun idMax sn => max idMax (toInt32 (strtoul (s.str sn.idStr)))) 0
  ((toString (toInt32 (idMax + 1))).toList.map fun c => BitVec.ofNat 8 c.toNat).take 127

/-- `find_snapshot_by_id` -/
def findSnapshotById (s : SnapshotState) (idStr : List Byte) : Option Nat :=
  s.snapshots.findIdx? fun sn => s.str sn.idStr = idStr

/-! ### The function -/

/-- What the environment does while a snapshot is made. -/
structure CreateEnv where
  /-- What `qcow2_update_snapshot_refcount` writes. -/
  refcountWrites : List (Nat × List Byte)
  /-- The L1 table after it. -/
  l1Table : List (BitVec 64)
  refcountFails : Bool
  /-- What `qcow2_alloc_clusters` writes. -/
  allocWrites : List (Nat × List Byte)
  /-- What it returns, if it does not fail. -/
  allocated : Option Nat
  writeL1 : HostFault
  table : WriteEnv

/-- `qemu_free` of a string. -/
def SnapshotState.free (s : SnapshotState) (p : Nat) : SnapshotState :=
  { s with heap := Function.update s.heap p none }

/-- `qemu_strdup` of the two strings. -/
def SnapshotState.dupStrings (s : SnapshotState) (idStr name : List Byte) : SnapshotState :=
  { s with
    heap := Function.update (Function.update s.heap s.nextPtr (some idStr)) (s.nextPtr + 1)
      (some name)
    nextPtr := s.nextPtr + 2 }

/-- The end of `qcow2_snapshot_create`: the list grows, and the table is written. -/
def appendSnapshot (s : SnapshotState) (sn : QCowSnapshot Nat) (env : WriteEnv) :
    Int × SnapshotState :=
  let s := { s with snapshots := s.snapshots ++ [sn] }
  match qcowWriteSnapshots s.hd (s.snapshots.map s.record) env with
  | .error hd => (-1, { s with hd }.free sn.name)
  | .ok w =>
    (0, { s with
      hd := w.hd, snapshotsOffset := w.snapshotsOffset, snapshotsSize := w.snapshotsSize })

/-- The part of `qcow2_snapshot_create` behind the strings. -/
def createSnapshot (s : SnapshotState) (info : QEMUSnapshotInfo) (idPtr namePtr : Nat)
    (env : CreateEnv) : Int × SnapshotState :=
  let s := { s with hd := hostWrites s.hd env.refcountWrites, l1Table := env.l1Table }
  if env.refcountFails then (-1, s.free namePtr)
  else
    let s := { s with hd := hostWrites s.hd env.allocWrites }
    match env.allocated with
    | none => (-1, s.free namePtr)
    | some l1TableOffset =>
      let s := { s with
        hd := hostWrite s.hd l1TableOffset (s.l1Table.flatMap putBe64) env.writeL1 }
      if env.writeL1.isSome then (-1, s.free namePtr)
      else
        appendSnapshot s
          { l1TableOffset := BitVec.ofNat 64 l1TableOffset
            l1Size := BitVec.ofNat 32 s.l1Table.length
            idStr := idPtr
            name := namePtr
            vmStateSize := info.vmStateSize
            dateSec := info.dateSec
            dateNsec := info.dateNsec
            vmClockNsec := info.vmClockNsec } env.table

/-- The id that is asked for, or a new one. -/
def snapshotId (s : SnapshotState) (info : QEMUSnapshotInfo) : List Byte :=
  if info.idStr = [] then findNewSnapshotId s else info.idStr

/-- `qcow2_snapshot_create` -/
def qcow2SnapshotCreate (s : SnapshotState) (info : QEMUSnapshotInfo) (env : CreateEnv) :
    Int × SnapshotState :=
  let idStr := snapshotId s info
  if (findSnapshotById s idStr).isSome then (-2, s)
  else createSnapshot (s.dupStrings idStr info.name) info s.nextPtr (s.nextPtr + 1) env

/-! ### What is left -/

/-- The strings of the snapshots are allocated. -/
def SnapshotState.Allocated (s : SnapshotState) : Prop :=
  ∀ sn ∈ s.snapshots, ∀ p ∈ [sn.idStr, sn.name], p < s.nextPtr ∧ (s.heap p).isSome

/-- The list in memory is the same, with its strings, and so is the list a reopen would read. -/
structure Unchanged (s s' : SnapshotState) : Prop where
  snapshots : s'.snapshots = s.snapshots
  strings : ∀ sn ∈ s'.snapshots, ∀ p ∈ [sn.idStr, sn.name],
    (s'.heap p).isSome ∧ s'.heap p = s.heap p
  disk : readSnapshotTable s'.hd = readSnapshotTable s.hd

/-- The place is apart from the fields of the header and from the table. -/
structure SparesTable (hd : Nat → Byte) (place size : Nat) : Prop where
  header : Apart nbSnapshotsOffset 12 place size
  table : ∀ r, readRecords hd (be32At hd nbSnapshotsOffset).toInt.toNat
      (be64At hd snapshotsOffsetOffset).toNat = some r →
    Apart (be64At hd snapshotsOffsetOffset).toNat
      (r.2 - (be64At hd snapshotsOffsetOffset).toNat) place size

/-- The refcount code leaves the snapshot table and the header alone, and gives other clusters. -/
structure CreateEnv.Spares (env : CreateEnv) (hd : Nat → Byte) : Prop where
  refcounts : ∀ w ∈ env.refcountWrites, SparesTable hd w.1 w.2.length
  alloc : ∀ w ∈ env.allocWrites, SparesTable hd w.1 w.2.length
  given : ∀ o, env.allocated = some o → SparesTable hd o (8 * env.l1Table.length)

/-- The id is not new, or something fails before the list grows. -/
def FailsEarly (s : SnapshotState) (info : QEMUSnapshotInfo) (env : CreateEnv) : Prop :=
  (findSnapshotById s (snapshotId s info)).isSome ∨ env.refcountFails ∨ env.allocated = none ∨
    env.writeL1.isSome

/-! ### What a reopen reads -/

/-- The records end behind where they begin. -/
theorem le_readRecords {hd : Nat → Byte} {n offset : Nat} {r : List SnapshotRecord × Nat}
    (h : readRecords hd n offset = some r) : offset ≤ r.2 := by
  induction n generalizing offset r with
  | zero =>
    obtain rfl := Option.some.inj h
    exact le_rfl
  | succ n ih =>
    rw [readRecords] at h
    obtain ⟨header, -, h⟩ := Option.bind_eq_some_iff.mp h
    obtain ⟨rest, hrest, rfl⟩ := Option.map_eq_some_iff.mp h
    have hle := ih hrest
    have halign := le_align8 offset
    dsimp only at hle ⊢
    omega

/-- Only the bytes of the table are read. -/
theorem readRecords_congr {hd hd' : Nat → Byte} {n offset : Nat} {r : List SnapshotRecord × Nat}
    (h : readRecords hd n offset = some r) (hsame : ∀ a, offset ≤ a → a < r.2 → hd' a = hd a) :
    readRecords hd' n offset = some r := by
  induction n generalizing offset r with
  | zero => exact h
  | succ n ih =>
    rw [readRecords] at h ⊢
    obtain ⟨⟨header, left⟩, hheader, h⟩ := Option.bind_eq_some_iff.mp h
    obtain ⟨rest, hrest, rfl⟩ := Option.map_eq_some_iff.mp h
    have hle := le_readRecords hrest
    have halign := le_align8 offset
    dsimp only at hle hsame ⊢
    have hfixed : bytesAt hd' (align8 offset) snapshotHeaderSize =
        bytesAt hd (align8 offset) snapshotHeaderSize :=
      bytesAt_congr fun i hi => hsame _ (by omega) (by omega)
    have hid : bytesAt hd' (align8 offset + snapshotHeaderSize + header.extraDataSize.toNat)
        header.idStrSize.toNat =
          bytesAt hd (align8 offset + snapshotHeaderSize + header.extraDataSize.toNat)
            header.idStrSize.toNat :=
      bytesAt_congr fun i hi => hsame _ (by omega) (by omega)
    have hname : bytesAt hd' (align8 offset + snapshotHeaderSize + header.extraDataSize.toNat +
        header.idStrSize.toNat) header.nameSize.toNat =
          bytesAt hd (align8 offset + snapshotHeaderSize + header.extraDataSize.toNat +
            header.idStrSize.toNat) header.nameSize.toNat :=
      bytesAt_congr fun i hi => hsame _ (by omega) (by omega)
    rw [hfixed, hheader, Option.bind_some]
    dsimp only
    rw [ih hrest fun a hle' hlt => hsame a (by omega) hlt, hid, hname]
    rfl

/-- Bytes behind the end are zeros, so that the reading does not fail. -/
theorem readRecords_total (hd : Nat → Byte) (n offset : Nat) :
    ∃ r, readRecords hd n offset = some r := by
  induction n generalizing offset with
  | zero => exact ⟨_, rfl⟩
  | succ n ih =>
    have hheader : ∀ bytes, ∃ h, getQCowSnapshotHeader bytes = some h := fun _ => ⟨_, rfl⟩
    obtain ⟨⟨h, left⟩, hh⟩ := hheader (bytesAt hd (align8 offset) snapshotHeaderSize)
    obtain ⟨r, hr⟩ := ih (align8 offset + snapshotHeaderSize + h.extraDataSize.toNat +
      h.idStrSize.toNat + h.nameSize.toNat)
    rw [readRecords]
    dsimp only
    rw [hh, Option.bind_some]
    dsimp only
    rw [hr]
    exact ⟨_, rfl⟩

/-- The bytes that a reopen reads are the same. -/
structure TableKept (hd hd' : Nat → Byte) : Prop where
  header : ∀ i < 12, hd' (nbSnapshotsOffset + i) = hd (nbSnapshotsOffset + i)
  table : ∀ r, readRecords hd (be32At hd nbSnapshotsOffset).toInt.toNat
      (be64At hd snapshotsOffsetOffset).toNat = some r →
    ∀ a, (be64At hd snapshotsOffsetOffset).toNat ≤ a → a < r.2 → hd' a = hd a

/-- A table that is kept is read as before. -/
theorem TableKept.read {hd hd' : Nat → Byte} (h : TableKept hd hd') :
    readSnapshotTable hd' = readSnapshotTable hd := by
  have hcount : be32At hd' nbSnapshotsOffset = be32At hd nbSnapshotsOffset :=
    be32At_congr fun i hi => h.header i (by omega)
  have hplace : be64At hd' snapshotsOffsetOffset = be64At hd snapshotsOffsetOffset := by
    apply be64At_congr
    intro i hi
    have hbyte := h.header (4 + i) (by omega)
    rwa [← Nat.add_assoc] at hbyte
  obtain ⟨r, hr⟩ := readRecords_total hd (be32At hd nbSnapshotsOffset).toInt.toNat
    (be64At hd snapshotsOffsetOffset).toNat
  unfold readSnapshotTable
  dsimp only
  rw [hcount, hplace, hr, readRecords_congr hr (h.table r hr)]

theorem TableKept.trans_write {hd hd' hd'' : Nat → Byte} (h : TableKept hd hd') {place size : Nat}
    (hspares : SparesTable hd place size)
    (hsame : ∀ a n j, Apart a n place size → j < n → hd'' (a + j) = hd' (a + j)) :
    TableKept hd hd'' where
  header i hi := (hsame _ 12 i hspares.header hi).trans (h.header i hi)
  table r hr a hle hlt := by
    obtain ⟨i, rfl⟩ := Nat.exists_eq_add_of_le hle
    exact (hsame _ _ i (hspares.table r hr) (by omega)).trans (h.table r hr _ hle hlt)

theorem TableKept.refl (hd : Nat → Byte) : TableKept hd hd := ⟨fun _ _ => rfl, fun _ _ _ _ _ => rfl⟩

theorem TableKept.writes {hd hd' : Nat → Byte} (h : TableKept hd hd')
    {writes : List (Nat × List Byte)} (hw : ∀ w ∈ writes, SparesTable hd w.1 w.2.length) :
    TableKept hd (hostWrites hd' writes) := by
  induction writes generalizing hd' with
  | nil => exact h
  | cons w writes ih =>
    obtain ⟨hfirst, hrest⟩ := List.forall_mem_cons.mp hw
    exact ih (h.trans_write hfirst fun a n j hapart hj => hostWrite_apart hapart hj none) hrest

theorem TableKept.write {hd hd' : Nat → Byte} (h : TableKept hd hd') {place : Nat}
    {buf : List Byte} (hw : SparesTable hd place buf.length) (fault : HostFault) :
    TableKept hd (hostWrite hd' place buf fault) :=
  h.trans_write hw fun _ _ _ hapart hj => hostWrite_apart hapart hj fault

/-! ### Errors -/

section

variable {s : SnapshotState}

/-- A name that is freed is no string of the list. -/
theorem unchanged_free (hs : s.Allocated) {s' : SnapshotState} {p : Nat}
    {idStr name : List Byte} (hlist : s'.snapshots = s.snapshots)
    (hheap : s'.heap = (s.dupStrings idStr name).heap) (hp : p = s.nextPtr + 1)
    (hdisk : TableKept s.hd s'.hd) : Unchanged s (s'.free p) where
  snapshots := hlist
  strings := by
    intro sn hsn q hq
    obtain ⟨hlt, hsome⟩ := hs sn (hlist ▸ hsn) q hq
    have hsame : (s'.free p).heap q = s.heap q := by
      show Function.update s'.heap p none q = _
      rw [Function.update_of_ne (by omega), hheap]
      show Function.update (Function.update s.heap _ _) _ _ q = _
      rw [Function.update_of_ne (by omega), Function.update_of_ne (by omega)]
    exact ⟨hsame ▸ hsome, hsame⟩
  disk := hdisk.read

/-- Where the table is not written, the new snapshot stays in the list. -/
theorem appendSnapshot_changed (s' : SnapshotState) (sn : QCowSnapshot Nat) (env : WriteEnv)
    (hlist : s'.snapshots = s.snapshots) : ¬Unchanged s (appendSnapshot s' sn env).2 := by
  intro hunchanged
  have hlength : (appendSnapshot s' sn env).2.snapshots = s.snapshots ++ [sn] := by
    unfold appendSnapshot
    dsimp only
    split
    · exact congrArg (· ++ [sn]) hlist
    · exact congrArg (· ++ [sn]) hlist
  have hsame := hunchanged.snapshots
  rw [hlength] at hsame
  exact absurd (congrArg List.length hsame) (by simp)

/-- **What `qcow2_snapshot_create` leaves unchanged.**  The lists are unchanged after an error that
comes before the list in memory has grown, and not after a later one. -/
theorem snapshot_create_unchanged_iff (s : SnapshotState) (hs : s.Allocated)
    (info : QEMUSnapshotInfo) (env : CreateEnv) (hspares : env.Spares s.hd) :
    Unchanged s (qcow2SnapshotCreate s info env).2 ↔ FailsEarly s info env := by
  unfold qcow2SnapshotCreate FailsEarly
  dsimp only
  -- the points of failure in the order of the source; the last ones come after the list has grown
  by_cases hid : (findSnapshotById s (snapshotId s info)).isSome
  · rw [if_pos hid]
    exact iff_of_true ⟨rfl, fun sn hsn p hp => ⟨(hs sn hsn p hp).2, rfl⟩, rfl⟩ (Or.inl hid)
  rw [if_neg hid]
  have hrefcounts := (TableKept.refl s.hd).writes hspares.refcounts
  unfold createSnapshot
  dsimp only
  by_cases hrefcount : env.refcountFails
  · rw [if_pos hrefcount]
    exact iff_of_true (unchanged_free hs rfl rfl rfl hrefcounts) (Or.inr (Or.inl hrefcount))
  rw [if_neg hrefcount]
  have halloc := hrefcounts.writes hspares.alloc
  cases hallocated : env.allocated with
  | none =>
    exact iff_of_true (unchanged_free hs rfl rfl rfl halloc) (Or.inr (Or.inr (Or.inl rfl)))
  | some o =>
    dsimp only
    by_cases hwrite : env.writeL1.isSome
    · have hlength : (env.l1Table.flatMap putBe64).length = 8 * env.l1Table.length :=
        length_flatMap_of_length (fun _ => length_putBe64 _) _
      rw [if_pos hwrite]
      refine iff_of_true (unchanged_free hs rfl rfl rfl ?_) (Or.inr (Or.inr (Or.inr hwrite)))
      exact halloc.write (hlength ▸ hspares.given o hallocated) env.writeL1
    · rw [if_neg hwrite]
      refine iff_of_false (appendSnapshot_changed _ _ env.table rfl) ?_
      rintro (hearly | hearly | hearly | hearly)
      · exact hid hearly
      · exact hrefcount hearly
      · cases hearly
      · exact hwrite hearly

end

/-- An image without snapshots. -/
def noSnapshots : SnapshotState where
  hd := fun _ => 0
  heap := fun _ => none
  nextPtr := 0
  snapshots := []
  snapshotsOffset := 0
  snapshotsSize := 0
  l1Table := []

/-- A snapshot without a name. -/
def snapshotInfo : QEMUSnapshotInfo where
  idStr := [0x31]
  name := [0x61]
  vmStateSize := 0
  dateSec := 0
  dateNsec := 0
  vmClockNsec := 0

/-- A second snapshot of a name that is already there. -/
def secondInfo : QEMUSnapshotInfo := { snapshotInfo with idStr := [0x32] }

/-- An image with one snapshot, whose table is at 0x1000. -/
def oneSnapshot : SnapshotState where
  hd := storeAt (storeAt (fun _ => 0) nbSnapshotsOffset (putBe32 1 ++ putBe64 0x1000)) 0x1000
    (recordBytes (plainSnapshot [0x31] [0x61]))
  heap := fun p => if p = 0 then some [0x31] else if p = 1 then some [0x61] else none
  nextPtr := 2
  snapshots := [{ plainSnapshot [] [] with idStr := 0, name := 1 }]
  snapshotsOffset := 0x1000
  snapshotsSize := 42
  l1Table := [0x8000000000003000]

/-- The refcounts at 0x2000 are updated, a cluster is given, and the write of the L1 table to it
fails behind four bytes. -/
def l1Fails : CreateEnv where
  refcountWrites := [(0x2000, [0, 2, 0, 2])]
  l1Table := [0x3000]
  refcountFails := false
  allocWrites := [(0x2004, [0, 1])]
  allocated := some 0x4000
  writeL1 := some [0, 0, 0, 0]
  table := ⟨[], none, [], []⟩

/-- The L1 table cannot be written, and the list is as it was. -/
theorem snapshot_create_l1_fails :
    (qcow2SnapshotCreate oneSnapshot secondInfo l1Fails).1 = -1 ∧
      Unchanged oneSnapshot (qcow2SnapshotCreate oneSnapshot secondInfo l1Fails).2 := by
  -- the table is the 42 bytes from 0x1000 on
  have hspares {place size : Nat} (hplace : 0x1030 ≤ place) :
      SparesTable oneSnapshot.hd place size := by
    refine ⟨Or.inl (le_trans (by decide) hplace), fun r hr => ?_⟩
    have hread : readRecords oneSnapshot.hd (be32At oneSnapshot.hd nbSnapshotsOffset).toInt.toNat
        (be64At oneSnapshot.hd snapshotsOffsetOffset).toNat =
          some ([plainSnapshot [0x31] [0x61]], 0x102a) := by decide +kernel
    obtain rfl := Option.some.inj (hread.symm.trans hr)
    exact Or.inl (le_trans (by decide) hplace)
  refine ⟨by decide, (snapshot_create_unchanged_iff oneSnapshot (fun sn hsn p hp => ?_)
    secondInfo l1Fails ⟨fun w hw => ?_, fun w hw => ?_, fun o ho => ?_⟩).mpr
    (Or.inr (Or.inr (Or.inr rfl)))⟩
  · obtain rfl := List.mem_singleton.mp hsn
    rcases List.mem_pair.mp hp with rfl | rfl <;> decide
  · obtain rfl := List.mem_singleton.mp hw
    exact hspares (by decide)
  · obtain rfl := List.mem_singleton.mp hw
    exact hspares (by decide)
  · obtain rfl := Option.some.inj ho
    exact hspares (by decide)

/-- A cluster is given for the L1 table, and none for the snapshot table. -/
def givenOnce : CreateEnv where
  refcountWrites := []
  l1Table := []
  refcountFails := false
  allocWrites := []
  allocated := some 512
  writeL1 := none
  table := ⟨[], none, [], []⟩

/-- The table is given no cluster, and the new snapshot stays in the list without its name. -/
theorem snapshot_create_changed : ¬∀ (s : SnapshotState) (info : QEMUSnapshotInfo)
    (env : CreateEnv), s.Allocated → env.Spares s.hd → (qcow2SnapshotCreate s info env).1 ≠ 0 →
      Unchanged s (qcow2SnapshotCreate s info env).2 := by
  intro h
  have hunchanged := h noSnapshots snapshotInfo givenOnce (fun sn hsn => by cases hsn)
    ⟨fun w hw => (by cases hw), fun w hw => (by cases hw), fun o ho => ?_⟩ (by decide)
  · exact absurd (congrArg List.length hunchanged.snapshots) (by decide)
  · obtain rfl := Option.some.inj ho
    refine ⟨Or.inl (by decide), fun r hr => ?_⟩
    obtain rfl := Option.some.inj hr
    exact Or.inl (by decide)

end Qemu.Block
