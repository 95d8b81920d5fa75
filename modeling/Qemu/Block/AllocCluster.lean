import Qemu.Block.L2Cache
import Qemu.Block.Qcow2Spec
import Mathlib.Data.List.TakeWhile

namespace Qemu.Block

/-!
# Which clusters a qcow2 write allocates (`block/qcow2-cluster.c`)

A write allocates a run of clusters.  Their old entries are not used yet, or they are in use by a
snapshot too; the old clusters are freed once the new ones are linked.

* `scanRun` — how far such a run goes;
* `qcow2AllocClusterOffset` — the run, cut off where another request allocates;
* `linkFrees` — what is freed when the run is linked;
* `ScanEntry` — the entries that `scanRun` goes over;
* `qcow2AllocClusterOffset_run` — the runs.
-/

/-- `QCOW_OFLAG_COPIED` -/
def oflagCopied : BitVec 64 := BitVec.twoPow 64 63

/-- `QCOW_OFLAG_COPIED` is set. -/
def copied (entry : BitVec 64) : Bool := entry.getLsbD 63

/-- `entry & QCOW_OFLAG_COMPRESSED` -/
def compressed (entry : BitVec 64) : Bool := entry.getLsbD 62

/-! ### Counting -/

/-- The offsets are counted from the first entry of the table, also where `start` is not 0. -/
def countContiguousClusters (nbClusters clusterSize : Nat) (l2Table : Nat → BitVec 64) (start : Nat)
    (mask : BitVec 64) : Nat :=
  let offset := l2Table 0 &&& ~~~mask
  if offset = 0 then 0
  else
    ((List.range' start nbClusters).takeWhile fun i =>
      offset + BitVec.ofNat 64 (i * clusterSize) == l2Table i &&& ~~~mask).length

/-- `count_contiguous_free_clusters` -/
def countContiguousFreeClusters (nbClusters : Nat) (l2Table : Nat → BitVec 64) : Nat :=
  ((List.range' 0 nbClusters).takeWhile fun i => l2Table i == 0).length

theorem length_takeWhile_range'_le (p : Nat → Bool) (start n : Nat) :
    ((List.range' start n).takeWhile p).length ≤ n := by
  simpa using (List.takeWhile_prefix (l := List.range' start n) p).length_le

theorem takeWhile_range' {p : Nat → Bool} {start n j : Nat}
    (hj : j < ((List.range' start n).takeWhile p).length) : p (start + j) = true := by
  have hp := List.mem_takeWhile_imp (List.getElem_mem hj)
  rw [(List.takeWhile_prefix p).getElem hj, List.getElem_range'] at hp
  simpa using hp

theorem length_takeWhile_range'_pos {p : Nat → Bool} {start n : Nat} (hn : 0 < n)
    (hp : p start = true) : 0 < ((List.range' start n).takeWhile p).length := by
  obtain ⟨n, rfl⟩ : ∃ m, n = m + 1 := ⟨n - 1, by omega⟩
  simp [List.range'_succ, hp]

theorem countContiguousFreeClusters_pos {nb : Nat} {l2 : Nat → BitVec 64} (hnb : 0 < nb)
    (h : l2 0 = 0) : 0 < countContiguousFreeClusters nb l2 :=
  length_takeWhile_range'_pos hnb (by simp [h])

theorem countContiguousClusters_zero (nb clusterSize : Nat) (l2 : Nat → BitVec 64) (start : Nat) :
    countContiguousClusters nb clusterSize l2 start 0 =
      if l2 0 = 0 then 0
      else ((List.range' start nb).takeWhile fun i =>
        l2 0 + BitVec.ofNat 64 (i * clusterSize) == l2 i).length := by
  have hmask (x : BitVec 64) : x &&& ~~~0 = x := BitVec.and_allOnes
  simp only [countContiguousClusters, hmask]

theorem countContiguousClusters_pos {nb clusterSize : Nat} {l2 : Nat → BitVec 64} (hnb : 0 < nb)
    (h : l2 0 ≠ 0) : 0 < countContiguousClusters nb clusterSize l2 0 0 := by
  rw [countContiguousClusters_zero, if_neg h]
  exact length_takeWhile_range'_pos hnb (by simp)

theorem countContiguousClusters_le (nb clusterSize : Nat) (l2 : Nat → BitVec 64) (start : Nat)
    (mask : BitVec 64) : countContiguousClusters nb clusterSize l2 start mask ≤ nb := by
  dsimp only [countContiguousClusters]
  split
  · omega
  · exact length_takeWhile_range'_le _ _ _

theorem countContiguousFreeClusters_le (nb : Nat) (l2 : Nat → BitVec 64) :
    countContiguousFreeClusters nb l2 ≤ nb :=
  length_takeWhile_range'_le _ _ _

/-! ### The scan -/

/-- The loop `while (i < nb_clusters)`.  `l2` has the entries from the first of the request on. -/
def scanRun (clusterSize nbClusters : Nat) (l2 : Nat → BitVec 64) (i : Nat) : Nat :=
  if i < nbClusters then
    let i₁ := i + countContiguousClusters (nbClusters - i) clusterSize l2 i 0
    if _hi₁ : nbClusters ≤ i₁ ∨ l2 i₁ ≠ 0 then i₁
    else
      let i₂ := i₁ + countContiguousFreeClusters (nbClusters - i₁) fun j => l2 (i₁ + j)
      if nbClusters ≤ i₂ then i₂
      else if copied (l2 i₂) || compressed (l2 i₂) then i₂
      else scanRun clusterSize nbClusters l2 i₂
  else i
termination_by nbClusters - i
decreasing_by
  -- the entry at `i₁` is unallocated, so the second count is not 0
  rw [not_or, not_le, ne_eq, not_not] at _hi₁
  have hpos : 0 < countContiguousFreeClusters (nbClusters - i₁) fun j => l2 (i₁ + j) :=
    countContiguousFreeClusters_pos (Nat.sub_pos_of_lt _hi₁.1) _hi₁.2
  have hle : i ≤ i₁ := Nat.le_add_right _ _
  change nbClusters - (i₁ + countContiguousFreeClusters (nbClusters - i₁) fun j => l2 (i₁ + j)) <
    nbClusters - i
  clear_value i₁
  omega

/-- An entry that the scan goes over. -/
def ScanEntry (clusterSize : Nat) (l2 : Nat → BitVec 64) (i : Nat) : Prop :=
  l2 i = 0 ∨ l2 i = l2 0 + BitVec.ofNat 64 (i * clusterSize)

theorem scanEntry_append {clusterSize start count : Nat} {l2 : Nat → BitVec 64}
    (hstart : ∀ j < start, ScanEntry clusterSize l2 j)
    (hcount : ∀ j < count, ScanEntry clusterSize l2 (start + j)) :
    ∀ j < start + count, ScanEntry clusterSize l2 j := by
  intro j hj
  by_cases hjs : j < start
  · exact hstart j hjs
  · have hj' := hcount (j - start) (by omega)
    rwa [Nat.add_sub_cancel' (by omega)] at hj'

theorem scanEntry_contiguous (nb : Nat) {clusterSize start : Nat} {l2 : Nat → BitVec 64}
    (hstart : ∀ j < start, ScanEntry clusterSize l2 j) :
    ∀ j < start + countContiguousClusters nb clusterSize l2 start 0,
      ScanEntry clusterSize l2 j := by
  apply scanEntry_append hstart
  intro j hj
  rw [countContiguousClusters_zero] at hj
  split at hj
  · simp at hj
  · have hp := takeWhile_range' hj
    right
    exact (beq_iff_eq.mp hp).symm

theorem scanEntry_free (nb : Nat) {clusterSize start : Nat} {l2 : Nat → BitVec 64}
    (hstart : ∀ j < start, ScanEntry clusterSize l2 j) :
    ∀ j < start + countContiguousFreeClusters nb (fun j => l2 (start + j)),
      ScanEntry clusterSize l2 j := by
  apply scanEntry_append hstart
  intro j hj
  left
  simpa using takeWhile_range' hj

theorem le_scanRun (clusterSize nb : Nat) (l2 : Nat → BitVec 64) (i : Nat) :
    i ≤ scanRun clusterSize nb l2 i := by
  fun_induction scanRun clusterSize nb l2 i with
  | case1 | case2 | case3 | case4 | case5 => omega

/-- The scan stays in range, and all it passes are scanned entries. -/
theorem scanRun_spec (clusterSize nb : Nat) (l2 : Nat → BitVec 64) (i : Nat) (hi : i ≤ nb)
    (hentries : ∀ j < i, ScanEntry clusterSize l2 j) :
    scanRun clusterSize nb l2 i ≤ nb ∧
      ∀ j < scanRun clusterSize nb l2 i, ScanEntry clusterSize l2 j := by
  have hcount (i : Nat) := countContiguousClusters_le (nb - i) clusterSize l2 i 0
  have hfree (i : Nat) := countContiguousFreeClusters_le (nb - i) fun j => l2 (i + j)
  fun_induction scanRun clusterSize nb l2 i with
  | case1 i hlt i₁ _ =>
    have := hcount i
    exact ⟨by omega, scanEntry_contiguous _ hentries⟩
  | case2 i hlt i₁ _ i₂ _ =>
    have := hcount i
    have := hfree i₁
    exact ⟨by omega, scanEntry_free _ (scanEntry_contiguous _ hentries)⟩
  | case3 i hlt i₁ _ i₂ _ _ =>
    have := hcount i
    have := hfree i₁
    exact ⟨by omega, scanEntry_free _ (scanEntry_contiguous _ hentries)⟩
  | case4 i hlt i₁ _ i₂ _ _ ih =>
    have := hcount i
    have := hfree i₁
    exact ih (by omega) (scanEntry_free _ (scanEntry_contiguous _ hentries))
  | case5 i _ => exact ⟨hi, hentries⟩

/-- The first entry is counted, whatever it is. -/
theorem scanRun_pos {clusterSize nb : Nat} (hnb : 0 < nb) (l2 : Nat → BitVec 64) :
    0 < scanRun clusterSize nb l2 0 := by
  have hcount (h : l2 0 ≠ 0) : 0 < countContiguousClusters (nb - 0) clusterSize l2 0 0 :=
    countContiguousClusters_pos hnb h
  rw [scanRun, if_pos hnb]
  simp only
  generalize hi₁ : 0 + countContiguousClusters (nb - 0) clusterSize l2 0 0 = i₁
  split
  -- nothing has been counted only if the first entry is unallocated
  · rename_i h
    by_contra hzero
    obtain rfl : i₁ = 0 := by omega
    obtain h | h := h
    · omega
    · have := hcount h
      omega
  · rename_i h
    rw [not_or, not_le, ne_eq, not_not] at h
    have hfree : 0 < countContiguousFreeClusters (nb - i₁) fun j => l2 (i₁ + j) :=
      countContiguousFreeClusters_pos (Nat.sub_pos_of_lt h.1) h.2
    split
    · omega
    · split
      · omega
      · exact lt_of_lt_of_le (by omega) (le_scanRun ..)

/-! ### The run of a write -/

/-- `size_to_clusters` -/
def sizeToClusters (clusterBits : Nat) (size : Int) : Int :=
  (size + 2 ^ clusterBits - 1) / 2 ^ clusterBits

/-- The clusters of a request that the table has entries for. -/
def requestClusters (clusterBits offset : Nat) (nEnd : Int) : Nat :=
  min (sizeToClusters clusterBits (toInt32 (nEnd * 2 ^ 9)) % 2 ^ 32).toNat
    (2 ^ (clusterBits - 3) - l2IndexOf clusterBits offset)

/-- An allocation in flight. -/
structure InFlight where
  offset : Nat
  nbClusters : Nat

/-- `end_offset < old_offset || offset > old_end_offset` -/
def NoIntersection (clusterBits offset nbClusters : Nat) (old : InFlight) : Prop :=
  (offset + nbClusters * 2 ^ clusterBits % 2 ^ 32) % 2 ^ 64 < old.offset ∨
    ((old.offset + toInt32 (old.nbClusters * 2 ^ clusterBits)) % 2 ^ 64).toNat < offset

instance (clusterBits offset nbClusters : Nat) (old : InFlight) :
    Decidable (NoIntersection clusterBits offset nbClusters old) :=
  inferInstanceAs (Decidable (_ ∨ _))

/-- The loop over `cluster_allocs`.  It is `none` if the write has to wait. -/
def stopAtInFlight (clusterBits offset : Nat) : List InFlight → Nat → Option Nat
  | [], nbClusters => some nbClusters
  | old :: allocs, nbClusters =>
    if NoIntersection clusterBits offset nbClusters old then
      stopAtInFlight clusterBits offset allocs nbClusters
    else
      let nbClusters :=
        if offset < old.offset then (old.offset - offset) / 2 ^ clusterBits % 2 ^ 32 else 0
      if nbClusters = 0 then none else stopAtInFlight clusterBits offset allocs nbClusters

/-- What a write gets: `m->nb_clusters`, `m->cluster_offset`, `m->nb_available` and `*num`. -/
structure AllocMeta where
  nbClusters : Nat
  clusterOffset : BitVec 64
  nbAvailable : Int
  num : Int
  deriving DecidableEq

/-- How `qcow2_alloc_cluster_offset` ends. -/
inductive AllocOutcome where
  /-- The clusters are in use by this image only. -/
  | kept (m : AllocMeta)
  /-- `m->depends_on` is set. -/
  | depends
  /-- `abort()` -/
  | abort
  | failed (ret : Int)
  | allocated (m : AllocMeta)
  deriving DecidableEq

/-- The `QCowL2Meta` that is filled in. -/
def allocMeta (clusterBits : Nat) (nStart nEnd : Int) (nbClusters count : Nat)
    (clusterOffset : BitVec 64) : AllocMeta :=
  -- `MIN` compares as `unsigned`
  let nbAvailable := toInt32 (min ((count : Int) * 2 ^ (clusterBits - 9) % 2 ^ 32) (nEnd % 2 ^ 32))
  { nbClusters, clusterOffset, nbAvailable, num := toInt32 (nbAvailable - nStart) }

/-- The clusters up to the end of the scan. -/
def scannedClusters (clusterBits : Nat) (l2 : Nat → BitVec 64) (offset : Nat) (nEnd : Int) : Nat :=
  let nbClusters := requestClusters clusterBits offset nEnd
  -- for the moment, multiple compressed clusters are not managed
  let nbClusters := if compressed (l2 0) then 1 else nbClusters
  scanRun (2 ^ clusterBits) nbClusters l2 0

/-- `qcow2_alloc_cluster_offset`, once it has the table.  `alloc` is what `qcow2_alloc_clusters`
returns for a number of clusters. -/
def qcow2AllocClusterOffset (clusterBits : Nat) (l2 : Nat → BitVec 64) (offset : Nat)
    (nStart nEnd : Int) (allocs : List InFlight) (alloc : Nat → Int) : AllocOutcome :=
  if copied (l2 0) then
    let count := countContiguousClusters (requestClusters clusterBits offset nEnd)
      (2 ^ clusterBits) l2 0 0
    .kept (allocMeta clusterBits nStart nEnd 0 count (l2 0 &&& ~~~oflagCopied))
  else
    match stopAtInFlight clusterBits offset allocs
        (scannedClusters clusterBits l2 offset nEnd) with
    | none => .depends
    | some nbClusters =>
      if nbClusters = 0 then .abort
      else if alloc nbClusters < 0 then .failed (alloc nbClusters)
      else
        .allocated (allocMeta clusterBits nStart nEnd nbClusters nbClusters
          (BitVec.ofInt 64 (alloc nbClusters)))

/-! ### What linking frees -/

/-- Bytes of the image file. -/
structure HostRange where
  offset : BitVec 64
  size : Nat
  deriving DecidableEq

/-- `s->csize_shift` -/
def csizeShift (clusterBits : Nat) : Nat := 62 - (clusterBits - 8)

/-- `nb_csectors` of an entry. -/
def nbCsectors (clusterBits : Nat) (entry : BitVec 64) : Nat :=
  ((entry >>> csizeShift clusterBits) &&& BitVec.ofNat 64 (2 ^ (clusterBits - 8) - 1)).toNat + 1

/-- `cluster_offset & s->cluster_offset_mask` -/
def clusterOffsetMasked (clusterBits : Nat) (entry : BitVec 64) : BitVec 64 :=
  entry &&& BitVec.ofNat 64 (2 ^ csizeShift clusterBits - 1)

/-- What `qcow2_free_any_clusters` hands to `qcow2_free_clusters`. -/
def qcow2FreeAnyClusters (clusterBits : Nat) (clusterOffset : BitVec 64) (nbClusters : Nat) :
    HostRange :=
  if compressed clusterOffset then
    ⟨clusterOffsetMasked clusterBits clusterOffset &&& ~~~511,
      nbCsectors clusterBits clusterOffset * 512⟩
  else ⟨clusterOffset, nbClusters * 2 ^ clusterBits⟩

/-- `old_cluster` of `qcow2_alloc_cluster_link_l2` -/
def oldClusters (l2 : Nat → BitVec 64) (nbClusters : Nat) : List (BitVec 64) :=
  ((List.range nbClusters).map l2).filter (· ≠ 0)

/-- The loop at the end of `qcow2_alloc_cluster_link_l2`. -/
def linkFrees (clusterBits : Nat) (l2 : Nat → BitVec 64) (nbClusters : Nat) : List HostRange :=
  (oldClusters l2 nbClusters).map fun entry =>
    qcow2FreeAnyClusters clusterBits (entry &&& ~~~oflagCopied) 1

/-- What is read of the image file for an entry: the sectors that `qcow2_decompress_cluster` reads,
or a cluster. -/
def storedAt (clusterBits : Nat) (entry : BitVec 64) : Option HostRange :=
  if entry = 0 then none
  else if compressed entry then
    some ⟨(clusterOffsetMasked clusterBits entry >>> 9) <<< 9, nbCsectors clusterBits entry * 512⟩
  else some ⟨entry, 2 ^ clusterBits⟩

/-! ### The flags of a run -/

theorem copied_eq (entry : BitVec 64) : copied entry = decide (2 ^ 63 ≤ entry.toNat) := by
  have hlt := entry.isLt
  simp only [copied, BitVec.getLsbD, Nat.testBit_eq_decide_div_mod_eq, decide_eq_decide]
  omega

theorem compressed_eq {entry : BitVec 64} (h : copied entry = false) :
    compressed entry = decide (2 ^ 62 ≤ entry.toNat) := by
  rw [copied_eq, decide_eq_false_iff_not] at h
  simp only [compressed, BitVec.getLsbD, Nat.testBit_eq_decide_div_mod_eq, decide_eq_decide]
  omega

theorem and_not_oflagCopied {entry : BitVec 64} (h : copied entry = false) :
    entry &&& ~~~oflagCopied = entry := by
  ext i hi
  have hentry : i = 63 → entry[i] = false := by
    rintro rfl
    exact h
  simp only [oflagCopied, BitVec.getElem_and, BitVec.getElem_not, BitVec.getElem_twoPow]
  by_cases hi' : 63 = i
  · simp [hentry hi'.symm]
  · simp [Ne.symm hi']

/-- The bytes of a request, `n_end << 9`, are rounded to a number of clusters that is not 0. -/
def CountsClusters (clusterBits : Nat) (nEnd : Int) : Prop :=
  0 < toInt32 (nEnd * 2 ^ 9) ∨ toInt32 (nEnd * 2 ^ 9) ≤ -2 ^ clusterBits

instance (clusterBits : Nat) (nEnd : Int) : Decidable (CountsClusters clusterBits nEnd) :=
  inferInstanceAs (Decidable (_ ∨ _))

/-- A negative number of bytes is a large number of clusters. -/
theorem requestClusters_pos (clusterBits offset : Nat) {nEnd : Int}
    (hend : CountsClusters clusterBits nEnd) : 0 < requestClusters clusterBits offset nEnd := by
  have hpos : (0 : Int) < 2 ^ clusterBits := by positivity
  have hone : (1 : Int) ≤ 2 ^ clusterBits := hpos
  obtain ⟨hlow, hhigh, -⟩ := toInt32_spec (nEnd * 2 ^ 9)
  have hsize : 0 < sizeToClusters clusterBits (toInt32 (nEnd * 2 ^ 9)) % 2 ^ 32 := by
    unfold CountsClusters at hend
    unfold sizeToClusters
    generalize toInt32 (nEnd * 2 ^ 9) = size at *
    generalize (2 : Int) ^ clusterBits = cluster at *
    obtain hend | hend := hend
    · have hle : 1 ≤ (size + cluster - 1) / cluster := by
        apply Int.le_ediv_of_mul_le hpos
        omega
      have hlt : (size + cluster - 1) / cluster < 2 ^ 32 := by
        apply Int.ediv_lt_of_lt_mul hpos
        omega
      rw [Int.emod_eq_of_lt (by omega) hlt]
      omega
    · have hle : -2 ^ 31 ≤ (size + cluster - 1) / cluster := by
        apply Int.le_ediv_of_mul_le hpos
        omega
      have hlt : (size + cluster - 1) / cluster < 0 := by
        apply Int.ediv_lt_of_lt_mul hpos
        omega
      omega
  have hindex : l2IndexOf clusterBits offset < 2 ^ (clusterBits - 3) :=
    Nat.mod_lt _ (Nat.two_pow_pos _)
  rw [requestClusters]
  omega

/-- The offsets of a table's run do not reach over a flag into the next. -/
theorem requestClusters_mul_le (clusterBits offset : Nat) (nEnd : Int) (hbits : clusterBits ≤ 21) :
    requestClusters clusterBits offset nEnd * 2 ^ clusterBits ≤ 2 ^ 39 :=
  calc requestClusters clusterBits offset nEnd * 2 ^ clusterBits
      ≤ 2 ^ (clusterBits - 3) * 2 ^ clusterBits := by
        apply Nat.mul_le_mul_right
        exact le_trans (Nat.min_le_right _ _) (Nat.sub_le _ _)
    _ = 2 ^ (clusterBits - 3 + clusterBits) := (Nat.pow_add ..).symm
    _ ≤ 2 ^ 39 := Nat.pow_le_pow_right (by omega) (by omega)

theorem toNat_scanEntry {clusterBits i : Nat} {l2 : Nat → BitVec 64}
    (h : ScanEntry (2 ^ clusterBits) l2 i) (hi : (l2 0).toNat + i * 2 ^ clusterBits < 2 ^ 64) :
    (l2 i).toNat ≤ (l2 0).toNat + i * 2 ^ clusterBits := by
  obtain h | h := h
  · simp [h]
  · rw [h, BitVec.toNat_add, BitVec.toNat_ofNat, Nat.add_mod_mod, Nat.mod_eq_of_lt hi]

theorem and_not_511 (x : BitVec 64) : x &&& ~~~(511 : BitVec 64) = (x >>> 9) <<< 9 := by
  have hmask (i : Nat) : (511 : BitVec 64).getLsbD i = decide (i < 9) := by
    change (2 ^ 9 - 1 : Nat).testBit i = _
    exact Nat.testBit_two_pow_sub_one ..
  apply BitVec.eq_of_getLsbD_eq
  intro i hi
  rw [BitVec.getLsbD_and, BitVec.getLsbD_not, hmask, BitVec.getLsbD_shiftLeft,
    BitVec.getLsbD_ushiftRight]
  by_cases h9 : i < 9
  · simp [h9]
  · simp [h9, hi, Nat.add_sub_cancel' (Nat.not_lt.mp h9)]

theorem storedAt_of_ne_zero (clusterBits : Nat) {entry : BitVec 64} (hentry : entry ≠ 0)
    (h : copied entry = false) :
    storedAt clusterBits entry =
      some (qcow2FreeAnyClusters clusterBits (entry &&& ~~~oflagCopied) 1) := by
  rw [storedAt, if_neg hentry, and_not_oflagCopied h, qcow2FreeAnyClusters, and_not_511,
    Nat.one_mul]
  split <;> rfl

/-- A run of the scan, also where it is cut off. -/
structure ScannedRun (clusterBits : Nat) (l2 : Nat → BitVec 64) (nbClusters : Nat) : Prop where
  entries : ∀ i < nbClusters, ScanEntry (2 ^ clusterBits) l2 i
  alone : compressed (l2 0) = true → nbClusters ≤ 1
  fits : nbClusters * 2 ^ clusterBits ≤ 2 ^ 39

theorem ScannedRun.mono {clusterBits m n : Nat} {l2 : Nat → BitVec 64}
    (h : ScannedRun clusterBits l2 n) (hmn : m ≤ n) : ScannedRun clusterBits l2 m where
  entries i hi := h.entries i (by omega)
  alone hfirst := le_trans hmn (h.alone hfirst)
  fits := le_trans (Nat.mul_le_mul_right _ hmn) h.fits

section

variable {clusterBits n : Nat} {l2 : Nat → BitVec 64} (hrun : ScannedRun clusterBits l2 n)
  (hfirst : copied (l2 0) = false)

include hrun hfirst

theorem ScannedRun.bounded {i : Nat} (hi : i < n) :
    i = 0 ∨ (l2 0).toNat < 2 ^ 62 ∧ i * 2 ^ clusterBits ≤ 2 ^ 39 := by
  by_cases hcompressed : compressed (l2 0) = true
  · have := hrun.alone hcompressed
    omega
  · right
    rw [compressed_eq hfirst, decide_eq_true_eq, not_le] at hcompressed
    exact ⟨hcompressed, le_trans (Nat.mul_le_mul_right _ hi.le) hrun.fits⟩

theorem ScannedRun.not_copied {i : Nat} (hi : i < n) : copied (l2 i) = false := by
  obtain rfl | ⟨hplain, hsize⟩ := hrun.bounded hfirst hi
  · exact hfirst
  · have hle := toNat_scanEntry (hrun.entries i hi) (by omega)
    rw [copied_eq, decide_eq_false_iff_not]
    omega

theorem ScannedRun.compressed_alone
    (hbelow : compressed (l2 0) = true ∨ (l2 0).toNat + n * 2 ^ clusterBits ≤ 2 ^ 62) {i : Nat}
    (hi : i < n) (hcompressed : compressed (l2 i) = true) : n = 1 := by
  obtain hzero | hbelow := hbelow
  · have := hrun.alone hzero
    omega
  · exfalso
    have hlt : i * 2 ^ clusterBits < n * 2 ^ clusterBits :=
      Nat.mul_lt_mul_of_pos_right hi (Nat.two_pow_pos _)
    have hle := toNat_scanEntry (hrun.entries i hi) (by omega)
    rw [compressed_eq (hrun.not_copied hfirst hi), decide_eq_true_eq] at hcompressed
    omega

/-- What is freed is what the old entries stand for. -/
theorem ScannedRun.linkFrees :
    linkFrees clusterBits l2 n = ((List.range n).map l2).filterMap (storedAt clusterBits) := by
  have hcopied : ∀ e ∈ (List.range n).map l2, copied e = false := by
    simp only [List.mem_map, List.mem_range]
    rintro _ ⟨i, hi, rfl⟩
    exact hrun.not_copied hfirst hi
  rw [Block.linkFrees, oldClusters]
  generalize (List.range n).map l2 = entries at hcopied
  induction entries with
  | nil => rfl
  | cons e entries ih =>
    have htail := ih fun e he => hcopied e (List.mem_cons_of_mem _ he)
    by_cases hzero : e = 0
    · rw [List.filter_cons_of_neg (by simpa using hzero), htail, List.filterMap_cons_none]
      simp [storedAt, hzero]
    · rw [List.filter_cons_of_pos (by simpa using hzero), List.map_cons, htail,
        List.filterMap_cons_some (storedAt_of_ne_zero clusterBits hzero (hcopied e (by simp)))]

end

/-- What the code counts is a scanned run. -/
theorem scannedRun_scannedClusters (clusterBits : Nat) (hbits : clusterBits ≤ 21)
    (l2 : Nat → BitVec 64) (offset : Nat) (nEnd : Int) :
    ScannedRun clusterBits l2 (scannedClusters clusterBits l2 offset nEnd) := by
  have hscan (nb : Nat) := scanRun_spec (2 ^ clusterBits) nb l2 0 (Nat.zero_le _) (by simp)
  have hfits := requestClusters_mul_le clusterBits offset nEnd hbits
  unfold scannedClusters
  split
  · rename_i hzero
    exact
      { entries := (hscan 1).2
        alone _ := (hscan 1).1
        fits := by
          have hpow : 2 ^ clusterBits ≤ 2 ^ 39 := Nat.pow_le_pow_right (by omega) (by omega)
          exact le_trans (Nat.mul_le_mul_right _ (hscan 1).1) (by omega) }
  · rename_i hzero
    exact
      { entries := (hscan _).2
        alone := fun h => absurd h hzero
        fits := le_trans (Nat.mul_le_mul_right _ (hscan _).1) hfits }

theorem scannedClusters_pos (clusterBits : Nat) (l2 : Nat → BitVec 64)
    (offset : Nat) {nEnd : Int} (hend : CountsClusters clusterBits nEnd) :
    0 < scannedClusters clusterBits l2 offset nEnd := by
  apply scanRun_pos
  split
  · exact one_pos
  · exact requestClusters_pos clusterBits offset hend

theorem scannedClusters_lt (clusterBits : Nat) (hbits : clusterBits ≤ 21) (l2 : Nat → BitVec 64)
    (offset : Nat) (nEnd : Int) : scannedClusters clusterBits l2 offset nEnd < 2 ^ 32 := by
  have hscan (nb : Nat) :=
    (scanRun_spec (2 ^ clusterBits) nb l2 0 (Nat.zero_le _) (by simp)).1
  have hrequest : requestClusters clusterBits offset nEnd ≤ 2 ^ (clusterBits - 3) :=
    le_trans (Nat.min_le_right _ _) (Nat.sub_le _ _)
  have hpow : 2 ^ (clusterBits - 3) ≤ 2 ^ 18 := Nat.pow_le_pow_right (by omega) (by omega)
  unfold scannedClusters
  split
  · exact lt_of_le_of_lt (hscan 1) (by omega)
  · exact lt_of_le_of_lt (hscan _) (by omega)

/-! ### Other allocations -/

/-- The run is cut off, but it is not empty. -/
theorem stopAtInFlight_le {clusterBits offset : Nat} {allocs : List InFlight} {nb n : Nat}
    (hnb : 0 < nb) (h : stopAtInFlight clusterBits offset allocs nb = some n) :
    0 < n ∧ n ≤ nb := by
  induction allocs generalizing nb with
  | nil =>
    obtain rfl : nb = n := by simpa [stopAtInFlight] using h
    exact ⟨hnb, le_rfl⟩
  | cons old allocs ih =>
    simp only [stopAtInFlight] at h
    by_cases hold : NoIntersection clusterBits offset nb old
    · rw [if_pos hold] at h
      exact ih hnb h
    · rw [if_neg hold] at h
      split_ifs at h with hlt hcut
      · obtain ⟨hpos, hle⟩ := ih (Nat.pos_of_ne_zero hcut) h
        -- the other allocation starts within the run
        have hend : old.offset ≤ offset + nb * 2 ^ clusterBits := by
          rw [NoIntersection, not_or, not_lt] at hold
          have h64 := Nat.mod_le (offset + nb * 2 ^ clusterBits % 2 ^ 32) (2 ^ 64)
          have h32 := Nat.mod_le (nb * 2 ^ clusterBits) (2 ^ 32)
          omega
        have hdiv : (old.offset - offset) / 2 ^ clusterBits ≤ nb :=
          Nat.div_le_of_le_mul (by rw [Nat.mul_comm]; omega)
        have hmod := Nat.mod_le ((old.offset - offset) / 2 ^ clusterBits) (2 ^ 32)
        exact ⟨hpos, by omega⟩
      · contradiction

/-- The bytes of an allocation, from the offset of its request on, end before those of the run, or
they start where these end or behind. -/
def InFlight.Apart (clusterBits offset nbClusters : Nat) (old : InFlight) : Prop :=
  old.offset + old.nbClusters * 2 ^ clusterBits < offset ∨
    offset + nbClusters * 2 ^ clusterBits ≤ old.offset

/-- The bytes of an allocation are an `int`. -/
def InFlight.Fits (clusterBits : Nat) (old : InFlight) : Prop :=
  old.nbClusters * 2 ^ clusterBits < 2 ^ 31

section

variable {clusterBits offset nb : Nat} {old : InFlight}

/-- An allocation that ends before the request is no intersection. -/
theorem noIntersection_of_before (hfits : old.Fits clusterBits)
    (hbefore : old.offset + old.nbClusters * 2 ^ clusterBits < offset) :
    NoIntersection clusterBits offset nb old := by
  have hint : toInt32 (old.nbClusters * 2 ^ clusterBits : Int) =
      (old.nbClusters * 2 ^ clusterBits : Nat) := by
    have hcast : (old.nbClusters * 2 ^ clusterBits : Int) =
        (old.nbClusters * 2 ^ clusterBits : Nat) := by
      push_cast
      rfl
    unfold InFlight.Fits at hfits
    rw [hcast]
    generalize old.nbClusters * 2 ^ clusterBits = bytes at hfits
    exact toInt32_of_bounds (by omega) (by omega)
  right
  rw [hint]
  generalize old.nbClusters * 2 ^ clusterBits = bytes at *
  omega

/-- An allocation right behind the run stops it where it ends anyway. -/
theorem stop_of_behind (hnb : nb < 2 ^ 32) (hold : ¬NoIntersection clusterBits offset nb old)
    (hbehind : offset + nb * 2 ^ clusterBits ≤ old.offset) :
    (if offset < old.offset then (old.offset - offset) / 2 ^ clusterBits % 2 ^ 32 else 0) = nb := by
  rw [NoIntersection, not_or, not_lt] at hold
  have h64 := Nat.mod_le (offset + nb * 2 ^ clusterBits % 2 ^ 32) (2 ^ 64)
  have h32 := Nat.mod_le (nb * 2 ^ clusterBits) (2 ^ 32)
  have hle : nb * 1 ≤ nb * 2 ^ clusterBits := Nat.mul_le_mul_left _ (Nat.two_pow_pos _)
  have hdiff : old.offset - offset = nb * 2 ^ clusterBits := by omega
  split_ifs with hlt
  · rw [hdiff, Nat.mul_div_cancel _ (Nat.two_pow_pos _), Nat.mod_eq_of_lt hnb]
  · omega

/-- Allocations that are apart leave the run as it is. -/
theorem stopAtInFlight_of_apart {allocs : List InFlight} (hpos : 0 < nb) (hnb : nb < 2 ^ 32)
    (h : ∀ old ∈ allocs, old.Fits clusterBits ∧ old.Apart clusterBits offset nb) :
    stopAtInFlight clusterBits offset allocs nb = some nb := by
  induction allocs with
  | nil => rfl
  | cons old allocs ih =>
    have htail := ih fun old hold => h old (List.mem_cons_of_mem _ hold)
    rw [stopAtInFlight]
    by_cases hold : NoIntersection clusterBits offset nb old
    · rw [if_pos hold, htail]
    · obtain ⟨hfits, hbefore | hbehind⟩ := h old (by simp)
      · exact absurd (noIntersection_of_before hfits hbefore) hold
      · rw [if_neg hold]
        dsimp only
        rw [stop_of_behind hnb hold hbehind, if_neg hpos.ne', htail]

end

/-! ### The runs that are allocated -/

section

variable (clusterBits : Nat) (l2 : Nat → BitVec 64) (offset : Nat) (nStart nEnd : Int)
  (allocs : List InFlight) (alloc : Nat → Int)

/-- Where the other allocations are apart, nothing waits, and the run is not cut off. -/
theorem qcow2AllocClusterOffset_apart (hbits : clusterBits ≤ 21)
    (hend : CountsClusters clusterBits nEnd)
    (h : ∀ old ∈ allocs, old.Fits clusterBits ∧
      old.Apart clusterBits offset (scannedClusters clusterBits l2 offset nEnd)) :
    let outcome := qcow2AllocClusterOffset clusterBits l2 offset nStart nEnd allocs alloc
    outcome ≠ .depends ∧
      ∀ m, outcome = .allocated m → m.nbClusters = scannedClusters clusterBits l2 offset nEnd := by
  have hpos := scannedClusters_pos clusterBits l2 offset hend
  have hstop := stopAtInFlight_of_apart hpos (scannedClusters_lt clusterBits hbits l2 offset nEnd) h
  intro outcome
  change qcow2AllocClusterOffset .. ≠ _ ∧ ∀ m, qcow2AllocClusterOffset .. = _ → _
  rw [qcow2AllocClusterOffset, hstop]
  split
  · simp
  · dsimp only
    rw [if_neg hpos.ne']
    split_ifs
    · simp
    · refine ⟨by simp, fun m hm => ?_⟩
      injection hm with hm
      rw [← hm]
      rfl

theorem qcow2AllocClusterOffset_ne_abort (hend : CountsClusters clusterBits nEnd) :
    qcow2AllocClusterOffset clusterBits l2 offset nStart nEnd allocs alloc ≠ .abort := by
  have hpos := scannedClusters_pos clusterBits l2 offset hend
  rw [qcow2AllocClusterOffset]
  split
  · simp
  · split
    · simp
    · rename_i n hn
      have hn0 : n ≠ 0 := (stopAtInFlight_le hpos hn).1.ne'
      rw [if_neg hn0]
      split_ifs <;> simp

variable {clusterBits l2 offset nStart nEnd allocs alloc} in
/-- What is allocated is a run of the scan, or the first part of one. -/
theorem scannedRun_of_allocated (hbits : clusterBits ≤ 21)
    (hend : CountsClusters clusterBits nEnd) {m : AllocMeta}
    (h : qcow2AllocClusterOffset clusterBits l2 offset nStart nEnd allocs alloc = .allocated m) :
    copied (l2 0) = false ∧ 0 < m.nbClusters ∧ ScannedRun clusterBits l2 m.nbClusters := by
  have hpos := scannedClusters_pos clusterBits l2 offset hend
  have hscan := scannedRun_scannedClusters clusterBits hbits l2 offset nEnd
  rw [qcow2AllocClusterOffset] at h
  split at h
  · simp at h
  · rename_i hfirst
    split at h
    · simp at h
    · rename_i n hn
      obtain ⟨hn0, hle⟩ := stopAtInFlight_le hpos hn
      rw [if_neg hn0.ne'] at h
      split_ifs at h
      injection h with h
      rw [← h]
      exact ⟨by simpa using hfirst, hn0, hscan.mono hle⟩

end

/-- The write of a range of sectors does not abort.  It waits for no allocation that is apart, nor
is it cut off by one.  No cluster of what it allocates is in use by this image only, and linking
frees what the old entries stand for.  Where the offsets of the run are below the flags, a
compressed cluster is not allocated with others. -/
theorem qcow2AllocClusterOffset_run {clusterBits : Nat} (hbits : clusterBits ≤ 21)
    (l2 : Nat → BitVec 64) (offset : Nat) (nStart : Int) {nEnd : Int}
    (hend : CountsClusters clusterBits nEnd) (allocs : List InFlight) (alloc : Nat → Int) :
    let outcome := qcow2AllocClusterOffset clusterBits l2 offset nStart nEnd allocs alloc
    let scanned := scannedClusters clusterBits l2 offset nEnd
    0 < scanned ∧ outcome ≠ .abort ∧
      ((∀ old ∈ allocs, old.Fits clusterBits ∧ old.Apart clusterBits offset scanned) →
        outcome ≠ .depends ∧ ∀ m, outcome = .allocated m → m.nbClusters = scanned) ∧
      ∀ m, outcome = .allocated m →
        0 < m.nbClusters ∧ (∀ i < m.nbClusters, copied (l2 i) = false) ∧
        (compressed (l2 0) = true ∨ (l2 0).toNat + m.nbClusters * 2 ^ clusterBits ≤ 2 ^ 62 →
          ∀ i < m.nbClusters, compressed (l2 i) = true → m.nbClusters = 1) ∧
        linkFrees clusterBits l2 m.nbClusters =
          ((List.range m.nbClusters).map l2).filterMap (storedAt clusterBits) := by
  intro outcome scanned
  refine ⟨scannedClusters_pos clusterBits l2 offset hend,
    qcow2AllocClusterOffset_ne_abort _ _ _ _ _ _ _ hend,
    qcow2AllocClusterOffset_apart _ _ _ _ _ _ _ hbits hend, ?_⟩
  intro m hm
  obtain ⟨hfirst, hpos, hrun⟩ := scannedRun_of_allocated hbits hend hm
  refine ⟨hpos, fun i hi => hrun.not_copied hfirst hi, ?_, hrun.linkFrees hfirst⟩
  intro hbelow i hi hcompressed
  exact hrun.compressed_alone hfirst hbelow hi hcompressed

/-- The cluster of a snapshot and a free one, between two allocations. -/
theorem qcow2AllocClusterOffset_run_shared :
    let l2 : Nat → BitVec 64 := fun i => if i = 0 then 0x50000 else 0
    let outcome := qcow2AllocClusterOffset 16 l2 0x30000 0 256 [⟨0x50000, 1⟩, ⟨0x10200, 1⟩]
      fun _ => 0x70000
    outcome ≠ .depends ∧
      ∀ m, outcome = .allocated m →
        m.nbClusters = 2 ∧ (∀ i < m.nbClusters, copied (l2 i) = false) ∧
        linkFrees 16 l2 m.nbClusters = [⟨0x50000, 0x10000⟩] := by
  intro l2 outcome
  have hscanned : scannedClusters 16 l2 0x30000 256 = 2 := by
    have hrequest : requestClusters 16 0x30000 256 = 2 := by decide
    have hplain : compressed (l2 0) = false := by decide
    simp only [scannedClusters, hrequest, hplain]
    rw [scanRun]
    decide
  have hend : CountsClusters 16 256 := by decide
  obtain ⟨-, -, hwait, hrun⟩ := qcow2AllocClusterOffset_run (by decide) l2 0x30000 0 hend
    [⟨0x50000, 1⟩, ⟨0x10200, 1⟩] fun _ => 0x70000
  have hapart := hwait (by
    rw [hscanned]
    unfold InFlight.Fits InFlight.Apart
    decide)
  refine ⟨hapart.1, fun m hm => ?_⟩
  have htwo : m.nbClusters = 2 := (hapart.2 m hm).trans hscanned
  refine ⟨htwo, (hrun m hm).2.1, ?_⟩
  rw [htwo]
  decide

/-! ### Where the scan goes wrong -/

/-- The last cluster below the flags.  The entry behind it is that of a compressed cluster. -/
def belowFlags (i : Nat) : BitVec 64 := if i = 0 then 0x3fffffffffff0000 else 0x4000000000000000

/-- The scan takes that entry for the next cluster. -/
theorem scan_compressed :
    compressed (belowFlags 0) = false ∧ compressed (belowFlags 1) = true ∧
      ∃ m, qcow2AllocClusterOffset 16 belowFlags 0 0 256 [] (fun _ => 0x50000) = .allocated m ∧
        m.nbClusters = 2 := by
  have hscanned : scannedClusters 16 belowFlags 0 256 = 2 := by
    have hrequest : requestClusters 16 0 256 = 2 := by decide
    have hplain : compressed (belowFlags 0) = false := by decide
    simp only [scannedClusters, hrequest, hplain]
    rw [scanRun]
    decide
  refine ⟨by decide, by decide, allocMeta 16 0 256 2 2 0x50000, ?_, rfl⟩
  rw [qcow2AllocClusterOffset, hscanned]
  decide

theorem scan_no_bytes :
    qcow2AllocClusterOffset 16 (fun _ => 0) 0 0 0x800000 [] (fun _ => 0x50000) = .abort := by
  have hscanned : scannedClusters 16 (fun _ => 0) 0 0x800000 = 0 := by
    have hrequest : requestClusters 16 0 0x800000 = 0 := by decide
    have hplain : compressed 0 = false := by decide
    simp only [scannedClusters, hrequest, hplain]
    rw [scanRun]
    decide
  rw [qcow2AllocClusterOffset, hscanned]
  decide

/-- A write of one free cluster waits for the allocation of the cluster before it, and for one of
2 GiB, however far before. -/
theorem scan_waits :
    qcow2AllocClusterOffset 16 (fun _ => 0) 0x20000 0 128 [⟨0x10000, 1⟩] (fun _ => 0x50000) =
        .depends ∧
      qcow2AllocClusterOffset 16 (fun _ => 0) 0x100000000 0 128 [⟨0, 0x8000⟩] (fun _ => 0x50000) =
        .depends := by
  have hscanned (offset : Nat) (hrequest : requestClusters 16 offset 128 = 1) :
      scannedClusters 16 (fun _ => 0) offset 128 = 1 := by
    have hplain : compressed 0 = false := by decide
    simp only [scannedClusters, hrequest, hplain]
    rw [scanRun]
    decide
  constructor
  · rw [qcow2AllocClusterOffset, hscanned _ (by decide)]
    decide
  · rw [qcow2AllocClusterOffset, hscanned _ (by decide)]
    decide

/-- A compressed cluster in a run of two, an abort, and two writes that wait for allocations whose
bytes are not theirs. -/
theorem qcow2AllocClusterOffset_slips :
    (compressed (belowFlags 0) = false ∧ compressed (belowFlags 1) = true ∧
        ∃ m, qcow2AllocClusterOffset 16 belowFlags 0 0 256 [] (fun _ => 0x50000) = .allocated m ∧
          m.nbClusters = 2) ∧
      qcow2AllocClusterOffset 16 (fun _ => 0) 0 0 0x800000 [] (fun _ => 0x50000) = .abort ∧
      (0x10000 + 1 * 2 ^ 16 ≤ 0x20000 ∧
        qcow2AllocClusterOffset 16 (fun _ => 0) 0x20000 0 128 [⟨0x10000, 1⟩] (fun _ => 0x50000) =
          .depends) ∧
      (0 + 0x8000 * 2 ^ 16 ≤ 0x100000000 ∧
        qcow2AllocClusterOffset 16 (fun _ => 0) 0x100000000 0 128 [⟨0, 0x8000⟩]
          (fun _ => 0x50000) = .depends) :=
  ⟨scan_compressed, scan_no_bytes, ⟨by decide, scan_waits.1⟩, ⟨by decide, scan_waits.2⟩⟩

end Qemu.Block
