import Qemu.Block.Qcow2
import Mathlib.Tactic.Ring

namespace Qemu.Block

open Lib

/-!
# The arrays of a new qcow2 image

Where `qcow_create2` puts what is counted in clusters here.  Sizes and offsets are machine integers
in the code, and may wrap around.

* `headerSize_spec` — the size of the header is right up to a multiple of `2 ^ 32`;
* `qcow2CreateRefcountUpdate_eq`, `refcountTableLoop_eq` — the loops over the arrays;
* `createLayout_eq` — the layout in clusters;
* `createRefcounts_iff` — when the arrays are large enough, and what they hold then.
-/

/-! ### Integers -/

theorem toInt32_eq (x : Int) :
    toInt32 x = if x % 2 ^ 32 < 2 ^ 31 then x % 2 ^ 32 else x % 2 ^ 32 - 2 ^ 32 := rfl

theorem toInt64_eq (x : Int) :
    toInt64 x = if x % 2 ^ 64 < 2 ^ 63 then x % 2 ^ 64 else x % 2 ^ 64 - 2 ^ 64 := rfl

theorem toInt32_of_bounds {x : Int} (h₁ : -2 ^ 31 ≤ x) (h₂ : x < 2 ^ 31) : toInt32 x = x := by
  rw [toInt32_eq]
  split_ifs
  · omega
  · omega

theorem toInt64_of_bounds {x : Int} (h₁ : -2 ^ 63 ≤ x) (h₂ : x < 2 ^ 63) : toInt64 x = x := by
  rw [toInt64_eq]
  split_ifs
  · omega
  · omega

theorem toInt32_spec (x : Int) :
    -2 ^ 31 ≤ toInt32 x ∧ toInt32 x < 2 ^ 31 ∧ toInt32 x % 2 ^ 32 = x % 2 ^ 32 := by
  rw [toInt32_eq]
  split_ifs
  · omega
  · omega

/-! ### The header -/

theorem getBitsLoop_two_pow (k : Nat) (res : Int) : getBitsLoop (2 ^ k) res = res + k := by
  induction k generalizing res with
  | zero =>
    rw [getBitsLoop]
    exact (add_zero res).symm
  | succ k ih =>
    have hpos : 0 < 2 ^ k := Nat.two_pow_pos k
    have hhalf : 2 ^ (k + 1) / 2 = 2 ^ k := by omega
    rw [getBitsLoop, if_neg (by omega), if_neg (by omega), hhalf, ih]
    push_cast
    omega

theorem getBitsFromSize_two_pow (k : Nat) : getBitsFromSize (2 ^ k) = k := by
  rw [getBitsFromSize, if_neg (Nat.two_pow_pos k).ne', getBitsLoop_two_pow, zero_add]

/-- The bytes an extension for the format takes, with its padding. -/
def extensionLength : Option (List Lib.Byte) → Nat
  | none => 0
  | some format => (qcowExtensionSize + format.length + 7) / 8 * 8

/-- The bytes of the header with the extension and the name of the backing file. -/
def headerLength (req : CreateRequest) : Nat :=
  match req.backingFile with
  | none => qcowHeaderSize
  | some name => qcowHeaderSize + extensionLength req.backingFormat + name.length

/-- The same, up to the next multiple of 8. -/
def roundedHeader (req : CreateRequest) : Nat := (headerLength req + 7) / 8 * 8

/-- The rounded length, which may wrap at 32 bits. -/
theorem formatPart_rounded (format : Option (List Lib.Byte)) :
    (formatPart format).roundedExtBfLen % 2 ^ 32 = extensionLength format % 2 ^ 32 := by
  cases format with
  | none => rfl
  | some format =>
    have hext : qcowExtensionSize = 8 := rfl
    have hnat : ((formatPart (some format)).extLen.toNat : Int) = format.length % 2 ^ 32 := by
      obtain ⟨-, -, hlen⟩ := toInt32_spec format.length
      show ((BitVec.ofInt 32 (toInt32 format.length)).toNat : Int) = _
      rw [BitVec.toNat_ofInt]
      omega
    have hdef : (formatPart (some format)).roundedExtBfLen =
        toInt32 (maskDown (qcowExtensionSize + (formatPart (some format)).extLen.toNat + 7) 8) := by
      dsimp only [formatPart]
    rw [hdef, (toInt32_spec _).2.2, maskDown, hnat, extensionLength, hext]
    omega

/-- What is computed for the header is right up to a multiple of `2 ^ 32`. -/
theorem headerSize_spec (req : CreateRequest) :
    -2 ^ 31 ≤ (headerPart req).headerSize ∧ (headerPart req).headerSize < 2 ^ 31 ∧
      (headerPart req).headerSize % 2 ^ 32 = roundedHeader req % 2 ^ 32 := by
  have hsize : qcowHeaderSize = 72 := rfl
  unfold headerPart roundedHeader headerLength
  cases req.backingFile with
  | none =>
    have hsum := toInt32_spec (qcowHeaderSize + 7)
    dsimp only
    rw [maskDown]
    omega
  | some name =>
    have hext := formatPart_rounded req.backingFormat
    have hname := toInt32_spec name.length
    have hfirst := toInt32_spec (qcowHeaderSize + (formatPart req.backingFormat).roundedExtBfLen)
    dsimp only
    generalize toInt32 (qcowHeaderSize + (formatPart req.backingFormat).roundedExtBfLen) = x at *
    have hsecond := toInt32_spec (x + toInt32 name.length)
    generalize toInt32 (x + toInt32 name.length) = y at *
    have hsum := toInt32_spec (y + 7)
    rw [maskDown]
    omega

/-! ### The arrays -/

/-- The refcounts of the first clusters. -/
def refcounts (n : Nat) (f : Nat → Nat) : List (BitVec 16) :=
  (List.range n).map fun c => BitVec.ofNat 16 (f c)

/-- One for the clusters of a range. -/
def inRange (first count : Int) (c : Nat) : Nat :=
  if first ≤ c ∧ (c : Int) < first + count then 1 else 0

@[simp] theorem length_refcounts (n : Nat) (f : Nat → Nat) : (refcounts n f).length = n := by
  rw [refcounts, List.length_map, List.length_range]

theorem getElem?_refcounts {n : Nat} (f : Nat → Nat) {c : Nat} (h : c < n) :
    (refcounts n f)[c]? = some (BitVec.ofNat 16 (f c)) := by
  rw [refcounts, List.getElem?_map, List.getElem?_range h]
  rfl

theorem replicate_eq_refcounts (n : Nat) : List.replicate n 0 = refcounts n fun _ => 0 := by
  rw [refcounts, List.map_const', List.length_range]
  rfl

section Arrays

variable {clusterSize : Nat}

/-- One cluster is counted, if it has an entry. -/
theorem bumpRefcount_eq (n : Nat) (f : Nat → Nat) (clusterOffset : Int) :
    bumpRefcount clusterSize (refcounts n f) clusterOffset =
      if 0 ≤ clusterOffset / clusterSize ∧ clusterOffset / clusterSize < n then
        some (refcounts n fun c => f c + inRange (clusterOffset / clusterSize) 1 c)
      else none := by
  unfold bumpRefcount
  dsimp only
  rw [length_refcounts]
  split_ifs with h
  · refine congrArg some (List.ext_getElem? fun c => ?_)
    rw [List.getElem?_modify]
    by_cases hc : c < n
    · rw [getElem?_refcounts _ hc, getElem?_refcounts _ hc]
      refine congrArg some ?_
      unfold inRange
      dsimp only
      by_cases hp : (clusterOffset / clusterSize).toNat = c
      · rw [if_pos hp, if_pos (by omega)]
        exact (BitVec.ofNat_add ..).symm
      · rw [if_neg hp, if_neg (by omega)]
        rfl
    · rw [List.getElem?_eq_none (by rw [length_refcounts]; omega),
        List.getElem?_eq_none (by rw [length_refcounts]; omega)]
      rfl
  · rfl

/-- So are several, if all of them have. -/
theorem bumpRefcounts_eq (hpos : 0 < clusterSize) (n : Nat) (f : Nat → Nat) (first : Int)
    (m : Nat) :
    (List.range m).foldlM
        (fun block (i : Nat) =>
          bumpRefcount clusterSize block (first * clusterSize + i * clusterSize))
        (refcounts n f) =
      if m = 0 ∨ 0 ≤ first ∧ first + m ≤ n then
        some (refcounts n fun c => f c + inRange first m c)
      else none := by
  induction m with
  | zero =>
    rw [if_pos (.inl rfl)]
    refine congrArg some (congrArg (refcounts n) (funext fun c => ?_))
    rw [inRange, if_neg (by omega)]
    rfl
  | succ m ih =>
    have hplace : (first * clusterSize + m * clusterSize) / clusterSize = first + m := by
      rw [← add_mul]
      exact Int.mul_ediv_cancel _ (by omega)
    rw [List.range_succ, List.foldlM_append, ih]
    by_cases hm : m = 0 ∨ 0 ≤ first ∧ first + m ≤ n
    · rw [if_pos hm]
      rw [Option.bind_eq_bind, Option.bind_some, List.foldlM_cons, bumpRefcount_eq, hplace]
      by_cases hin : 0 ≤ first + m ∧ first + m < n
      · rw [if_pos hin, if_pos (by omega)]
        refine congrArg some (congrArg (refcounts n) (funext fun c => ?_))
        unfold inRange
        split_ifs
        all_goals omega
      · rw [if_neg hin, if_neg (by omega)]
        rfl
    · rw [if_neg hm, if_neg (by omega)]
      rfl

/-- **The update of a range** leaves the array, or counts each cluster of the range once more. -/
theorem qcow2CreateRefcountUpdate_eq (hpos : 0 < clusterSize) (n : Nat) (f : Nat → Nat)
    (first size : Int) {count : Int} (hcount : count = (size + clusterSize - 1) / clusterSize) :
    qcow2CreateRefcountUpdate clusterSize (first * clusterSize) size (refcounts n f) =
      if count ≤ 0 ∨ 0 ≤ first ∧ first + count ≤ n then
        some (refcounts n fun c => f c + inRange first count c)
      else none := by
  have hpos' : (0 : Int) < clusterSize := by omega
  -- the first cluster and the one of the last byte
  have hstart : maskDown (first * clusterSize) clusterSize = first * clusterSize := by
    rw [maskDown, Int.mul_ediv_cancel _ hpos'.ne']
  have hlast : maskDown (first * clusterSize + size - 1) clusterSize =
      (first + count - 1) * clusterSize := by
    have hsum : first * clusterSize + size - 1 =
        size + clusterSize - 1 + (first - 1) * clusterSize := by
      rw [sub_mul]
      omega
    rw [maskDown, hsum, Int.add_mul_ediv_right _ _ hpos'.ne', ← hcount]
    congr 1
    omega
  have hsteps : ((first + count - 1) * clusterSize - first * clusterSize) / clusterSize + 1 =
      count := by
    rw [← sub_mul, Int.mul_ediv_cancel _ hpos'.ne']
    omega
  unfold qcow2CreateRefcountUpdate
  dsimp only
  rw [hstart, hlast, hsteps, bumpRefcounts_eq hpos]
  -- nothing is counted for a size of zero or less
  by_cases hc : count ≤ 0
  · rw [if_pos (by omega), if_pos (.inl hc)]
    refine congrArg some (congrArg (refcounts n) (funext fun c => ?_))
    unfold inRange
    rw [if_neg (by omega), if_neg (by omega)]
  · have hnat : (count.toNat : Int) = count := Int.toNat_of_nonneg (by omega)
    rw [hnat]
    by_cases hin : 0 ≤ first ∧ first + count ≤ n
    · rw [if_pos (.inr hin), if_pos (.inr hin)]
    · rw [if_neg (by omega), if_neg (by omega)]

/-- The offsets of consecutive refcount blocks. -/
def blockOffsets (clusterSize : Nat) : Nat → BitVec 64 → List (BitVec 64)
  | 0, _ => []
  | n + 1, offset => offset :: blockOffsets clusterSize n (offset + BitVec.ofNat 64 clusterSize)

@[simp] theorem length_blockOffsets (n : Nat) (offset : BitVec 64) :
    (blockOffsets clusterSize n offset).length = n := by
  induction n generalizing offset with
  | zero => rfl
  | succ n ih => rw [blockOffsets, List.length_cons, ih]

/-- The offset of a block. -/
theorem getElem?_blockOffsets {n i : Nat} (h : i < n) (offset : BitVec 64) :
    (blockOffsets clusterSize n offset)[i]? =
      some (offset + BitVec.ofNat 64 (i * clusterSize)) := by
  induction n generalizing offset i with
  | zero => omega
  | succ n ih =>
    cases i with
    | zero =>
      rw [blockOffsets, Nat.zero_mul]
      exact congrArg some (BitVec.add_zero offset).symm
    | succ i =>
      rw [blockOffsets, List.getElem?_cons_succ, ih (by omega), Nat.succ_mul, BitVec.add_assoc,
        ← BitVec.ofNat_add, Nat.add_comm]

/-- **The loop over the table** leaves the array, or puts an offset for each block into it. -/
theorem refcountTableLoop_eq (clusterSize n m : Nat) (offset : BitVec 64)
    (done : List (BitVec 64)) :
    refcountTableLoop clusterSize n done.length offset (done ++ List.replicate m 0) =
      if n ≤ m then
        some (done ++ (blockOffsets clusterSize n offset ++ List.replicate (m - n) 0))
      else none := by
  induction n generalizing m offset done with
  | zero => rfl
  | succ n ih =>
    cases m with
    | zero =>
      rw [refcountTableLoop, if_neg (by simp), if_neg (by omega)]
    | succ m =>
      have hset : (done ++ List.replicate (m + 1) 0).set done.length offset =
          (done ++ [offset]) ++ List.replicate m 0 := by
        rw [List.set_append_right _ _ (Nat.le_refl _), Nat.sub_self, List.replicate_succ,
          List.set_cons_zero, List.append_assoc]
        rfl
      have hlen : done.length + 1 = (done ++ [offset]).length := by
        rw [List.length_append]
        rfl
      rw [refcountTableLoop, if_pos (by simp), hset, hlen, ih]
      by_cases h : n ≤ m
      · rw [if_pos h, if_pos (by omega), Nat.add_sub_add_right, List.append_assoc]
        rfl
      · rw [if_neg h, if_neg (by omega)]

end Arrays

/-! ### Where everything goes -/

/-- The clusters that some bytes take. -/
def clustersOf (clusterBits : Nat) (size : Int) : Int :=
  (size + 2 ^ clusterBits - 1) / 2 ^ clusterBits

theorem clustersOf_bounds (clusterBits : Nat) (size : Int) :
    size ≤ clustersOf clusterBits size * 2 ^ clusterBits ∧
      clustersOf clusterBits size * 2 ^ clusterBits < size + 2 ^ clusterBits := by
  have hpos : (0 : Int) < 2 ^ clusterBits := by positivity
  have hle := Int.ediv_mul_le (size + 2 ^ clusterBits - 1) hpos.ne'
  have hlt := Int.lt_ediv_add_one_mul_self (size + 2 ^ clusterBits - 1) hpos
  rw [add_mul, one_mul] at hlt
  unfold clustersOf
  omega

theorem clustersOf_mul (clusterBits : Nat) (n : Int) :
    clustersOf clusterBits (n * 2 ^ clusterBits) = n := by
  have hpos : (0 : Int) < 2 ^ clusterBits := by positivity
  have hsum : n * 2 ^ clusterBits + 2 ^ clusterBits - 1 =
      2 ^ clusterBits - 1 + n * 2 ^ clusterBits := by omega
  rw [clustersOf, hsum, Int.add_mul_ediv_right _ _ hpos.ne',
    Int.ediv_eq_zero_of_lt (by omega) (by omega), zero_add]

theorem alignOffset_eq (clusterBits : Nat) (size : Int) :
    alignOffset size ((2 ^ clusterBits : Nat) : Int) =
      clustersOf clusterBits size * 2 ^ clusterBits := by
  rw [alignOffset, maskDown, clustersOf]
  push_cast
  rfl

theorem l1Size_bounds (totalSize : Int) (clusterBits : Nat) :
    -2 ^ 31 ≤ createL1Size totalSize clusterBits ∧ createL1Size totalSize clusterBits < 2 ^ 31 :=
  ⟨(toInt32_spec _).1, (toInt32_spec _).2.1⟩

theorem toInt_ofInt {x : Int} (h₁ : -2 ^ 63 ≤ x) (h₂ : x < 2 ^ 63) :
    (BitVec.ofInt 64 x).toInt = x :=
  (BitVec.toInt_ofInt ..).trans (toInt64_of_bounds h₁ h₂)

theorem toNat_ofInt {x : Int} (h₁ : 0 ≤ x) (h₂ : x < 2 ^ 64) :
    (BitVec.ofInt 64 x).toNat = x.toNat := by
  rw [BitVec.toNat_ofInt]
  exact congrArg Int.toNat (Int.emod_eq_of_lt h₁ h₂)

/-- The cluster of the refcount table. -/
def tableCluster (clusterBits : Nat) (headerSize l1Size : Int) : Int :=
  clustersOf clusterBits headerSize + clustersOf clusterBits (l1Size * 8)

/-- The same layout, in clusters. -/
def clusterLayout (clusterBits : Nat) (headerSize l1Size : Int) : CreateLayout :=
  let table := tableCluster clusterBits headerSize l1Size
  let refcountBlockOffset := BitVec.ofInt 64 ((table + 1) * 2 ^ clusterBits)
  { l1Size
    l1TableOffset := BitVec.ofInt 64 (clustersOf clusterBits headerSize * 2 ^ clusterBits)
    refcountTableOffset := BitVec.ofInt 64 (table * 2 ^ clusterBits)
    refcountBlockOffset
    refClusters := toInt32 (refcountBlockOffset.toNat / 2 ^ clusterBits /
      2 ^ (clusterBits - refcountShift) + 1 : Nat) }

/-- The layout, counted in clusters. -/
theorem createLayout_eq (totalSize headerSize : Int) (clusterBits : Nat) :
    createLayout totalSize headerSize clusterBits =
      clusterLayout clusterBits headerSize (createL1Size totalSize clusterBits) := by
  have hl1 := l1Size_bounds totalSize clusterBits
  have hbytes : toInt64 (createL1Size totalSize clusterBits * 8) =
      createL1Size totalSize clusterBits * 8 := toInt64_of_bounds (by omega) (by omega)
  have hone : BitVec.ofNat 64 (2 ^ clusterBits) = BitVec.ofInt 64 (2 ^ clusterBits) := by
    rw [← BitVec.ofInt_natCast]
    push_cast
    rfl
  unfold createLayout
  dsimp only
  rw [hbytes, alignOffset_eq, alignOffset_eq, ← BitVec.ofInt_add, ← add_mul, hone,
    ← BitVec.ofInt_add, ← add_one_mul]
  rfl

section Layout

variable {clusterBits : Nat} {headerSize l1Size : Int}

/-- The number of refcount blocks that is counted on. -/
def refBlocks (clusterBits : Nat) (headerSize l1Size : Int) : Int :=
  (tableCluster clusterBits headerSize l1Size + 1) / 2 ^ (clusterBits - refcountShift) + 1

/-- The bounds within which nothing wraps around. -/
structure Bounded (clusterBits : Nat) (headerSize l1Size : Int) : Prop where
  bits : minClusterBits ≤ clusterBits ∧ clusterBits ≤ maxClusterBits
  header : -2 ^ 31 ≤ headerSize ∧ headerSize < 2 ^ 31
  l1 : -2 ^ 31 ≤ l1Size ∧ l1Size < 2 ^ 31

theorem Bounded.size (h : Bounded clusterBits headerSize l1Size) :
    2 ^ 9 ≤ (2 : Int) ^ clusterBits ∧ (2 : Int) ^ clusterBits ≤ 2 ^ 21 :=
  ⟨pow_le_pow_right₀ (by decide) h.bits.1, pow_le_pow_right₀ (by decide) h.bits.2⟩

theorem Bounded.half (h : Bounded clusterBits headerSize l1Size) :
    (2 : Int) ^ clusterBits = 2 * 2 ^ (clusterBits - refcountShift) := by
  have hbits : clusterBits = clusterBits - refcountShift + 1 := by
    have := h.bits.1
    unfold minClusterBits at this
    unfold refcountShift
    omega
  rw [← pow_succ', ← hbits]

/-- No offset of the layout wraps. -/
theorem Bounded.offsets (h : Bounded clusterBits headerSize l1Size) :
    -2 ^ 31 ≤ clustersOf clusterBits headerSize * 2 ^ clusterBits ∧
      clustersOf clusterBits headerSize * 2 ^ clusterBits < 2 ^ 32 ∧
      -2 ^ 36 ≤ tableCluster clusterBits headerSize l1Size * 2 ^ clusterBits ∧
      (tableCluster clusterBits headerSize l1Size + 1) * 2 ^ clusterBits < 2 ^ 36 := by
  have hhead := clustersOf_bounds clusterBits headerSize
  have hl1 := clustersOf_bounds clusterBits (l1Size * 8)
  have hsize := h.size
  have hh := h.header
  have hl := h.l1
  have htable : tableCluster clusterBits headerSize l1Size * 2 ^ clusterBits =
      clustersOf clusterBits headerSize * 2 ^ clusterBits +
        clustersOf clusterBits (l1Size * 8) * 2 ^ clusterBits := add_mul ..
  rw [add_one_mul, htable]
  omega

/-- The layout where the refcount table is in the file. -/
theorem clusterLayout_of_nonneg (h : Bounded clusterBits headerSize l1Size)
    (ht : 0 ≤ tableCluster clusterBits headerSize l1Size) :
    (clusterLayout clusterBits headerSize l1Size).refClusters =
        refBlocks clusterBits headerSize l1Size ∧
      0 < refBlocks clusterBits headerSize l1Size ∧
      refBlocks clusterBits headerSize l1Size * 2 ^ clusterBits < 2 ^ 31 := by
  obtain ⟨-, -, -, hoff⟩ := h.offsets
  have hsize := h.size
  have hhalf := h.half
  have hpos : (0 : Int) < 2 ^ (clusterBits - refcountShift) := by positivity
  obtain ⟨b, hb⟩ : ∃ b : Nat, (b : Int) = tableCluster clusterBits headerSize l1Size + 1 :=
    ⟨_, Int.toNat_of_nonneg (by omega)⟩
  unfold clusterLayout refBlocks
  dsimp only
  rw [← hb] at hoff ⊢
  have hsmall : (b : Int) < 2 ^ 27 := by
    have hmul : (b : Int) * 2 ^ 9 ≤ b * 2 ^ clusterBits :=
      Int.mul_le_mul_of_nonneg_left hsize.1 (by omega)
    omega
  have hdiv : (b : Int) / 2 ^ (clusterBits - refcountShift) *
      2 ^ (clusterBits - refcountShift) ≤ b := Int.ediv_mul_le _ hpos.ne'
  have hnonneg : 0 ≤ (b : Int) / 2 ^ (clusterBits - refcountShift) :=
    Int.ediv_nonneg (by omega) hpos.le
  have hle : (b : Int) / 2 ^ (clusterBits - refcountShift) ≤ b := Int.ediv_le_self _ (by omega)
  -- below `2 ^ 27` clusters no cast loses a bit
  have hoffset : (BitVec.ofInt 64 ((b : Int) * 2 ^ clusterBits)).toNat = b * 2 ^ clusterBits := by
    have hcast : (b : Int) * 2 ^ clusterBits = (b * 2 ^ clusterBits : Nat) := by
      push_cast
      rfl
    rw [toNat_ofInt (by positivity) (by omega), hcast, Int.toNat_natCast]
  have hblocks : ((b * 2 ^ clusterBits / 2 ^ clusterBits / 2 ^ (clusterBits - refcountShift) + 1 :
      Nat) : Int) = b / 2 ^ (clusterBits - refcountShift) + 1 := by
    rw [Nat.mul_div_cancel _ (Nat.two_pow_pos _)]
    push_cast
    rfl
  rw [hoffset, hblocks, toInt32_of_bounds (by omega) (by omega)]
  refine ⟨rfl, by omega, ?_⟩
  rw [hhalf, add_one_mul, mul_left_comm]
  omega

/-- The refcount of a cluster in memory. -/
def counted (clusterBits : Nat) (headerSize l1Size refBlocks : Int) (c : Nat) : Nat :=
  inRange 0 (clustersOf clusterBits headerSize) c +
    inRange (clustersOf clusterBits headerSize) (clustersOf clusterBits (l1Size * 8)) c +
      inRange (tableCluster clusterBits headerSize l1Size) 1 c +
        inRange (tableCluster clusterBits headerSize l1Size + 1) refBlocks c

/-- `qcow2_create_refcount_update` counts the clusters of a size. -/
theorem update_eq (clusterBits n : Nat) (f : Nat → Nat) (first size : Int) :
    qcow2CreateRefcountUpdate (2 ^ clusterBits) (first * 2 ^ clusterBits) size (refcounts n f) =
      if clustersOf clusterBits size ≤ 0 ∨ 0 ≤ first ∧ first + clustersOf clusterBits size ≤ n then
        some (refcounts n fun c => f c + inRange first (clustersOf clusterBits size) c)
      else none := by
  have hcast : ((2 ^ clusterBits : Nat) : Int) = 2 ^ clusterBits := by
    push_cast
    rfl
  have hcount : clustersOf clusterBits size =
      (size + (2 ^ clusterBits : Nat) - 1) / (2 ^ clusterBits : Nat) := by rw [hcast, clustersOf]
  rw [← qcow2CreateRefcountUpdate_eq (Nat.two_pow_pos _) n f first size hcount, hcast]

/-- **The arrays**, with all the places where they could be left. -/
theorem createRefcounts_eq (h : Bounded clusterBits headerSize l1Size) {refClusters size : Int}
    {n : Nat} (hblocks : (clusterLayout clusterBits headerSize l1Size).refClusters = refClusters)
    (hsize : toInt32 (refClusters * 2 ^ clusterBits) = size) (hn : size.toNat / 2 = n) :
    createRefcounts clusterBits headerSize (clusterLayout clusterBits headerSize l1Size) =
      if refClusters.toNat ≤ 2 ^ clusterBits / 8 ∧
        (clustersOf clusterBits headerSize ≤ 0 ∨ clustersOf clusterBits headerSize ≤ n) ∧
        (clustersOf clusterBits (l1Size * 8) ≤ 0 ∨ 0 ≤ clustersOf clusterBits headerSize ∧
          tableCluster clusterBits headerSize l1Size ≤ n) ∧
        (0 ≤ tableCluster clusterBits headerSize l1Size ∧
          tableCluster clusterBits headerSize l1Size + 1 ≤ n) ∧
        (clustersOf clusterBits size ≤ 0 ∨ 0 ≤ tableCluster clusterBits headerSize l1Size + 1 ∧
          tableCluster clusterBits headerSize l1Size + 1 + clustersOf clusterBits size ≤ n) then
        some
          { refcountTable :=
              blockOffsets (2 ^ clusterBits) refClusters.toNat
                  (clusterLayout clusterBits headerSize l1Size).refcountBlockOffset ++
                List.replicate (2 ^ clusterBits / 8 - refClusters.toNat) 0
            refcountBlock :=
              refcounts n (counted clusterBits headerSize l1Size (clustersOf clusterBits size)) }
      else none := by
  obtain ⟨hhead, hhead', htable, htable'⟩ := h.offsets
  have hpos := h.size.1
  have hl1 := h.l1
  have hcast : ((2 ^ clusterBits : Nat) : Int) = 2 ^ clusterBits := by
    push_cast
    rfl
  rw [add_one_mul] at htable'
  have hl1off : (clusterLayout clusterBits headerSize l1Size).l1TableOffset.toInt =
      clustersOf clusterBits headerSize * 2 ^ clusterBits := toInt_ofInt (by omega) (by omega)
  have htableoff : (clusterLayout clusterBits headerSize l1Size).refcountTableOffset.toInt =
      tableCluster clusterBits headerSize l1Size * 2 ^ clusterBits :=
    toInt_ofInt (by omega) (by omega)
  have hblockoff : (clusterLayout clusterBits headerSize l1Size).refcountBlockOffset.toInt =
      (tableCluster clusterBits headerSize l1Size + 1) * 2 ^ clusterBits :=
    toInt_ofInt (by rw [add_one_mul]; omega) (by rw [add_one_mul]; omega)
  have hl1size : (clusterLayout clusterBits headerSize l1Size).l1Size = l1Size := rfl
  have hone : clustersOf clusterBits (2 ^ clusterBits) = 1 := by
    have hmul := clustersOf_mul clusterBits 1
    rwa [one_mul] at hmul
  have hloop := refcountTableLoop_eq (2 ^ clusterBits) refClusters.toNat
    (2 ^ clusterBits / 8) (clusterLayout clusterBits headerSize l1Size).refcountBlockOffset []
  have hfirst := update_eq clusterBits n (fun _ => 0) 0 headerSize
  rw [zero_mul, zero_add] at hfirst
  unfold createRefcounts
  dsimp only
  rw [hblocks, hcast, hsize, hn, hl1off, htableoff, hblockoff, hl1size,
    toInt64_of_bounds (by omega) (by omega), replicate_eq_refcounts n]
  simp only [List.nil_append, List.length_nil] at hloop
  have hT : tableCluster clusterBits headerSize l1Size =
    clustersOf clusterBits headerSize + clustersOf clusterBits (l1Size * 8) := rfl
  rw [hloop]
  -- each of the four loops may leave its array, in the order they run
  by_cases hc₀ : refClusters.toNat ≤ 2 ^ clusterBits / 8
  · rw [if_pos hc₀, Option.bind_eq_bind, Option.bind_some, hfirst]
    by_cases hc₁ : clustersOf clusterBits headerSize ≤ 0 ∨ clustersOf clusterBits headerSize ≤ n
    · rw [if_pos (by omega), Option.bind_eq_bind, Option.bind_some, update_eq]
      by_cases hc₂ : clustersOf clusterBits (l1Size * 8) ≤ 0 ∨
          0 ≤ clustersOf clusterBits headerSize ∧ tableCluster clusterBits headerSize l1Size ≤ n
      · rw [if_pos (by omega), Option.bind_some, update_eq, hone]
        by_cases hc₃ : 0 ≤ tableCluster clusterBits headerSize l1Size ∧
            tableCluster clusterBits headerSize l1Size + 1 ≤ n
        · rw [if_pos (.inr hc₃), Option.bind_some, update_eq]
          split_ifs with hc₄ hall hall
          · simp only [zero_add]
            rfl
          · exact absurd ⟨hc₀, hc₁, hc₂, hc₃, hc₄⟩ hall
          · exact absurd hall.2.2.2.2 hc₄
          · rfl
        · rw [if_neg (by omega), if_neg fun hall => hc₃ hall.2.2.2.1]
          rfl
      · rw [if_neg (by omega), if_neg fun hall => hc₂ hall.2.2.1]
        rfl
    · rw [if_neg (by omega), if_neg fun hall => hc₁ hall.2.1]
      rfl
  · rw [if_neg hc₀, if_neg fun hall => hc₀ hall.1]
    rfl

/-- The arrays are as large as they have to be. -/
structure ArraysFit (clusterBits : Nat) (headerSize l1Size : Int) : Prop where
  table_nonneg : 0 ≤ tableCluster clusterBits headerSize l1Size
  header_nonneg :
    0 ≤ clustersOf clusterBits headerSize ∨ clustersOf clusterBits (l1Size * 8) ≤ 0
  table_size : refBlocks clusterBits headerSize l1Size ≤ 2 ^ clusterBits / 8
  header_size : clustersOf clusterBits headerSize ≤
    refBlocks clusterBits headerSize l1Size * 2 ^ (clusterBits - refcountShift)
  block_size : tableCluster clusterBits headerSize l1Size + 1 +
      refBlocks clusterBits headerSize l1Size ≤
    refBlocks clusterBits headerSize l1Size * 2 ^ (clusterBits - refcountShift)

/-- The refcounts in all the blocks. -/
def refEntries (clusterBits : Nat) (headerSize l1Size : Int) : Nat :=
  (refBlocks clusterBits headerSize l1Size).toNat * 2 ^ (clusterBits - refcountShift)

/-- What the arrays hold in the end. -/
def filledArrays (clusterBits : Nat) (headerSize l1Size : Int) : CreateRefcounts where
  refcountTable :=
    blockOffsets (2 ^ clusterBits) (refBlocks clusterBits headerSize l1Size).toNat
        (clusterLayout clusterBits headerSize l1Size).refcountBlockOffset ++
      List.replicate (2 ^ clusterBits / 8 - (refBlocks clusterBits headerSize l1Size).toNat) 0
  refcountBlock :=
    refcounts (refEntries clusterBits headerSize l1Size)
      (counted clusterBits headerSize l1Size (refBlocks clusterBits headerSize l1Size))

/-- **The arrays are filled** where they are large enough, and left else. -/
theorem createRefcounts_iff (h : Bounded clusterBits headerSize l1Size) (s : CreateRefcounts) :
    createRefcounts clusterBits headerSize (clusterLayout clusterBits headerSize l1Size) = some s ↔
      ArraysFit clusterBits headerSize l1Size ∧ s = filledArrays clusterBits headerSize l1Size := by
  -- a table at a negative cluster is left out of the block in any case
  by_cases ht : 0 ≤ tableCluster clusterBits headerSize l1Size
  · obtain ⟨hblocks, hpos, hsmall⟩ := clusterLayout_of_nonneg h ht
    have hsize := h.size
    have hmul : 0 ≤ refBlocks clusterBits headerSize l1Size * 2 ^ clusterBits := by positivity
    have hentries : (refBlocks clusterBits headerSize l1Size * 2 ^ clusterBits).toNat / 2 =
        refEntries clusterBits headerSize l1Size := by
      obtain ⟨r, hr⟩ := Int.eq_ofNat_of_zero_le hpos.le
      have hcast : (r : Int) * 2 ^ clusterBits =
          (2 * (r * 2 ^ (clusterBits - refcountShift)) : Nat) := by
        rw [h.half]
        push_cast
        ring
      rw [refEntries, hr, hcast, Int.toNat_natCast, Int.toNat_natCast]
      omega
    have hcast : (refEntries clusterBits headerSize l1Size : Int) =
        refBlocks clusterBits headerSize l1Size * 2 ^ (clusterBits - refcountShift) := by
      rw [refEntries]
      push_cast
      rw [Int.toNat_of_nonneg hpos.le]
    rw [createRefcounts_eq h hblocks (toInt32_of_bounds (by omega) hsmall) hentries,
      clustersOf_mul, hcast]
    have htable : ((2 ^ clusterBits / 8 : Nat) : Int) = 2 ^ clusterBits / 8 := by
      push_cast
      rfl
    split_ifs with hall
    · obtain ⟨hc₀, hc₁, hc₂, hc₃, hc₄⟩ := hall
      constructor
      · intro hs
        exact ⟨⟨ht, by omega, by omega, by omega, by omega⟩, (Option.some.inj hs).symm⟩
      · rintro ⟨-, rfl⟩
        rfl
    · refine iff_of_false (fun hs => nomatch hs) fun hs => hall ?_
      obtain ⟨⟨-, hhead, htab, hheader, hblock⟩, -⟩ := hs
      have hT : tableCluster clusterBits headerSize l1Size =
        clustersOf clusterBits headerSize + clustersOf clusterBits (l1Size * 8) := rfl
      exact ⟨by omega, .inr hheader, by omega, ⟨ht, by omega⟩, .inr ⟨by omega, hblock⟩⟩
  · rw [createRefcounts_eq h rfl rfl rfl, if_neg fun hall => ht hall.2.2.2.1.1]
    exact iff_of_false (fun hs => nomatch hs) fun hs => ht hs.1.table_nonneg

end Layout

end Qemu.Block
